import Keuos.Rtl8125.Defs

/-!
# Descriptors

A ring is 256 descriptors of four words.  A store of one word changes the owner or the address of one
descriptor only.

## Main results

* `freshRx_initRings`: after `init_rings` the card owns all descriptors of the receive ring, and no two of
  them have the same buffer.
-/

namespace Keuos.Rtl8125

section Words

variable {ring : UInt64} {m : Mem} {i j : Nat}

theorem descWord_eq (ring cur : UInt64) (off : Nat) :
    ring + cur * descSize + UInt64.ofNat off = descWord ring cur.toNat off := by
  unfold descWord descSize
  rw [UInt64.ofNat_add, UInt64.ofNat_mul, UInt64.ofNat_toNat, UInt64.add_assoc, UInt64.mul_comm cur]
  rfl

theorem read32_descWord (hi : i < 256) (hj : j < 256) {off off' : Nat} (hoff : off ≤ 12) (hoff' : off' ≤ 12)
    (halign : off % 4 = 0) (halign' : off' % 4 = 0) (hne : i ≠ j ∨ off ≠ off') (v : UInt32) :
    (m.write32 (descWord ring i off) v).read32 (descWord ring j off') = m.read32 (descWord ring j off') :=
  Mem.read32_write32_offset (by omega) (by omega) (by omega)

theorem descWord_sub (hi : i < 256) {off : Nat} (hoff : off < 16) :
    (descWord ring i off - ring).toNat = 16 * i + off := by
  have hsub : descWord ring i off - ring = UInt64.ofNat (16 * i + off) := by
    unfold descWord
    grind
  rw [hsub, UInt64.toNat_ofNat', Nat.mod_eq_of_lt (by omega)]

theorem owned_write_flags (hi : i < 256) (hj : j < 256) (v : UInt32) :
    Owned ring (m.write32 (descWord ring i 0) v) j ↔ if j = i then v &&& descOwn ≠ 0 else Owned ring m j := by
  unfold Owned
  split
  · next heq =>
    rw [heq, Mem.read32_write32_self]
  · next hne =>
    rw [read32_descWord hi hj (by decide) (by decide) (by decide) (by decide) (.inl (Ne.symm hne))]

theorem page_write_flags (hi : i < 256) (hj : j < 256) (v : UInt32) :
    page ring (m.write32 (descWord ring i 0) v) j = page ring m j := by
  unfold page
  rw [read32_descWord hi hj (by decide) (by decide) (by decide) (by decide) (.inr (by decide)),
    read32_descWord hi hj (by decide) (by decide) (by decide) (by decide) (.inr (by decide))]

theorem handBack_flags (flags : UInt32) : (flags &&& ~~~descOwn) &&& descOwn = 0 := by
  have hcancel : ~~~descOwn &&& descOwn = 0 := by decide
  rw [UInt32.and_assoc, hcancel]
  exact UInt32.and_zero

end Words

/-! ### Initialization -/

section Init

variable {ring : UInt64} {m : Mem} {i : Nat}

theorem join_words (a : UInt64) :
    join (a &&& 0xFFFFFFFF).toUInt32 ((a >>> 32) &&& 0xFFFFFFFF).toUInt32 = a := by
  have ha := a.toNat_lt
  rw [← UInt64.toNat_inj, toNat_join, toNat_mask32, toNat_mask32, UInt64.toNat_shiftRight,
    show (32 : UInt64).toNat % 64 = 32 from rfl, Nat.shiftRight_eq_div_pow]
  omega

theorem initDesc_eq (ring : UInt64) {idx : Nat} (hidx : idx < 256) (off : Nat) :
    ring + UInt64.ofNat idx * descSize + UInt64.ofNat off = descWord ring idx off := by
  rw [descWord_eq, UInt64.toNat_ofNat', Nat.mod_eq_of_lt (by omega)]

/-- **The descriptors before the one that the loop has come to** are the card's, with their pages. -/
theorem initRxRing_spec (alloc : Nat → UInt64) {n : Nat} (hn : n ≤ 256) (hi : i < n) :
    Owned ring (initRxRing ring alloc n m) i ∧ page ring (initRxRing ring alloc n m) i = alloc i := by
  induction n with
  | zero => exact absurd hi (Nat.not_lt_zero i)
  | succ idx ih =>
    have hidx : idx < 256 := hn
    have hlt : i < 256 := by omega
    have hword : ∀ {m : Mem} {off off' : Nat}, off ≤ 12 → off' ≤ 12 → off % 4 = 0 → off' % 4 = 0 →
        idx ≠ i ∨ off ≠ off' → ∀ v : UInt32,
          (m.write32 (descWord ring idx off) v).read32 (descWord ring i off') =
            m.read32 (descWord ring i off') :=
      fun hoff hoff' halign halign' hne v => read32_descWord hidx hlt hoff hoff' halign halign' hne v
    unfold initRxRing
    dsimp only
    rw [show ring + UInt64.ofNat idx * descSize + 0 = _ from initDesc_eq ring hidx 0,
      show ring + UInt64.ofNat idx * descSize + 4 = _ from initDesc_eq ring hidx 4,
      show ring + UInt64.ofNat idx * descSize + 8 = _ from initDesc_eq ring hidx 8,
      show ring + UInt64.ofNat idx * descSize + 12 = _ from initDesc_eq ring hidx 12]
    generalize hm : initRxRing ring alloc idx m = m' at ih
    unfold Owned page at *
    rcases Nat.lt_succ_iff_lt_or_eq.mp hi with hi | rfl
    · -- the four stores are to a later descriptor
      have hne : idx ≠ i := by omega
      have hlater : ∀ off ≤ 12, off % 4 = 0 → ∀ v₀ v₄ v₈ v₁₂ : UInt32,
          ((((m'.write32 (descWord ring idx 0) v₀).write32 (descWord ring idx 4) v₄).write32
            (descWord ring idx 8) v₈).write32 (descWord ring idx 12) v₁₂).read32 (descWord ring i off) =
              m'.read32 (descWord ring i off) := by
        intro off hoff halign v₀ v₄ v₈ v₁₂
        rw [hword (by decide) hoff (by decide) halign (.inl hne),
          hword (by decide) hoff (by decide) halign (.inl hne),
          hword (by decide) hoff (by decide) halign (.inl hne),
          hword (by decide) hoff (by decide) halign (.inl hne)]
      rw [hlater 0 (by decide) (by decide), hlater 8 (by decide) (by decide),
        hlater 12 (by decide) (by decide)]
      exact ih (by omega) hi
    · -- the descriptor itself: its own four stores
      have hflags : ∀ b : Bool, (if b then descOwn ||| 1514 ||| descEor else descOwn ||| 1514) &&&
          descOwn ≠ 0 := by
        decide
      constructor
      · rw [hword (by decide) (by decide) (by decide) (by decide) (.inr (by decide)),
          hword (by decide) (by decide) (by decide) (by decide) (.inr (by decide)),
          hword (by decide) (by decide) (by decide) (by decide) (.inr (by decide)), Mem.read32_write32_self]
        exact hflags _
      · rw [hword (by decide) (by decide) (by decide) (by decide) (.inr (by decide)), Mem.read32_write32_self,
          Mem.read32_write32_self]
        exact join_words (alloc i)

theorem initTxRing_read32 {txRing : UInt64} (halign : ring.toNat % 4096 = 0)
    (halign' : txRing.toNat % 4096 = 0) (hne : ring ≠ txRing) {n : Nat} (hn : n ≤ 256) (hi : i < 256)
    {off : Nat} (hoff : off ≤ 12) :
    (initTxRing txRing n m).read32 (descWord ring i off) = m.read32 (descWord ring i off) := by
  induction n with
  | zero => rfl
  | succ idx ih =>
    have hidx : idx < 256 := hn
    unfold initTxRing
    dsimp only
    rw [show txRing + UInt64.ofNat idx * descSize + 0 = _ from initDesc_eq txRing hidx 0,
      Mem.read32_write32_of_disjoint ?_]
    · exact ih (by omega)
    · -- each of the two words is in the page of its ring
      intro x hx hx'
      have hpage : ∀ {r : UInt64} {j off : Nat}, j < 256 → off ≤ 12 → InBlock (descWord r j off) 4 x →
          InBlock r 4096 x := by
        intro r j off hj hoff hx
        have hx := (inBlock_offset_iff (by omega)).mp hx
        unfold InBlock
        omega
      exact disjoint_of_aligned (by decide) halign halign' hne x (hpage hi hoff hx)
        (hpage hidx (by decide) hx')

/-- **`init_rings` gives every descriptor of the receive ring to the card, with a buffer of its own**, when
the pages that `pmm.alloc` returns are different. -/
theorem freshRx_initRings {alloc : Nat → UInt64} {s : Card} (hrx : s.rxCur = 0) (hposition : s.position = 0)
    (halign : ∀ n, (alloc n).toNat % 4096 = 0)
    (hdistinct : ∀ i < 258, ∀ j < 258, alloc i = alloc j → i = j) :
    FreshRx (alloc 0 + kernelBase) (initRings alloc s) := by
  have hvirt : ∀ n, (alloc n + kernelBase).toNat % 4096 = 0 := by
    intro n
    have hpage := halign n
    rw [UInt64.toNat_add, show kernelBase.toNat = 0xFFFFFFFF80000000 from rfl]
    omega
  have hne : alloc 0 + kernelBase ≠ alloc 1 + kernelBase := by
    intro heq
    exact absurd (hdistinct 0 (by decide) 1 (by decide) (by grind)) (by decide)
  have hspec : ∀ i < 256, Owned (alloc 0 + kernelBase) (initRings alloc s).mem i ∧
      page (alloc 0 + kernelBase) (initRings alloc s).mem i = alloc (i + 2) := by
    intro i hi
    unfold initRings Owned page
    dsimp only
    -- the transmit ring is set up afterwards, in a page of its own
    rw [initTxRing_read32 (hvirt 0) (hvirt 1) hne (Nat.le_refl _) hi (by decide),
      initTxRing_read32 (hvirt 0) (hvirt 1) hne (Nat.le_refl _) hi (by decide),
      initTxRing_read32 (hvirt 0) (hvirt 1) hne (Nat.le_refl _) hi (by decide)]
    exact initRxRing_spec (fun idx => alloc (idx + 2)) (Nat.le_refl _) hi
  constructor
  · unfold initRings
    dsimp only
    exact hrx
  · unfold initRings
    dsimp only
    exact hposition
  · exact fun i hi => (hspec i hi).1
  · intro i hi j hj heq
    rw [(hspec i hi).2, (hspec j hj).2] at heq
    -- the first two pages are the rings themselves
    have := hdistinct _ (by omega) _ (by omega) heq
    omega

end Init

end Keuos.Rtl8125
