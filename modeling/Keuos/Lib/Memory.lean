import Mathlib.Data.UInt
import Mathlib.Logic.Function.Basic
import Mathlib.Tactic.Common
import Mathlib.Tactic.IntervalCases

/-!
# Byte-addressed memory

A memory is a function from 64-bit addresses to bytes.  A block is named by its address `a` and its
length `n`: `InBlock a n x` says that `x` is one of the `n` bytes from `a` on, where addresses wrap
around.  A word is a little-endian block of eight bytes.

`read64_write64_self` and `read64_write64_of_disjoint` are the laws of a store, and
`disjoint_of_aligned` gives the disjointness of two different blocks of the same alignment.
-/

namespace Keuos

/-- A memory of bytes. -/
abbrev Mem := UInt64 → UInt8

/-- `x` is one of the `n` bytes from `a` on. -/
def InBlock (a : UInt64) (n : Nat) (x : UInt64) : Prop :=
  (x - a).toNat < n

instance (a : UInt64) (n : Nat) (x : UInt64) : Decidable (InBlock a n x) :=
  inferInstanceAs (Decidable ((x - a).toNat < n))

/-- The blocks have no byte in common. -/
def BlocksDisjoint (a : UInt64) (n : Nat) (b : UInt64) (k : Nat) : Prop :=
  ∀ x, InBlock a n x → ¬ InBlock b k x

namespace Mem

/-- The byte `i` of a word. -/
def byteOf (v : UInt64) (i : Nat) : UInt8 :=
  UInt8.ofNat (v.toNat / 256 ^ i)

/-- The byte `i` of the block at `a`, as a number. -/
def byteAt (m : Mem) (a : UInt64) (i : Nat) : Nat :=
  (m (a + UInt64.ofNat i)).toNat

/-- Load a little-endian word. -/
@[irreducible] def read64 (m : Mem) (a : UInt64) : UInt64 :=
  UInt64.ofNat (m.byteAt a 0 + m.byteAt a 1 * 256 + m.byteAt a 2 * 256 ^ 2 +
    m.byteAt a 3 * 256 ^ 3 + m.byteAt a 4 * 256 ^ 4 + m.byteAt a 5 * 256 ^ 5 +
    m.byteAt a 6 * 256 ^ 6 + m.byteAt a 7 * 256 ^ 7)

/-- Store a little-endian word. -/
@[irreducible] def write64 (m : Mem) (a v : UInt64) : Mem := fun x =>
  if InBlock a 8 x then byteOf v (x - a).toNat else m x

/-- Store a byte. -/
def write8 (m : Mem) (a : UInt64) (v : UInt8) : Mem :=
  Function.update m a v

/-- Store a byte at each of the `n` addresses from `a` on, one after the other. -/
@[irreducible] def fill (v : UInt8) : Nat → UInt64 → Mem → Mem
  | 0, _, m => m
  | n + 1, a, m => fill v n (a + 1) (m.write8 a v)

/-- Store the bytes `src 0`, `src 1`, … at the `n` addresses from `a` on. -/
@[irreducible] def copyIn (src : Nat → UInt8) (n : Nat) (a : UInt64) (m : Mem) : Mem := fun x =>
  if InBlock a n x then src (x - a).toNat else m x

end Mem

/-! ### Blocks -/

theorem inBlock_add {a : UInt64} {n i : Nat} (hi : i < n) :
    InBlock a n (a + UInt64.ofNat i) := by
  unfold InBlock
  have hsub : a + UInt64.ofNat i - a = UInt64.ofNat i := by grind
  rw [hsub, UInt64.toNat_ofNat']
  exact Nat.lt_of_le_of_lt (Nat.mod_le _ _) hi

theorem inBlock_offset_iff {base x : UInt64} {off n : Nat} (h : off + n ≤ 2 ^ 64) :
    InBlock (base + UInt64.ofNat off) n x ↔
      off ≤ (x - base).toNat ∧ (x - base).toNat < off + n := by
  unfold InBlock
  have hsub : x - (base + UInt64.ofNat off) = x - base - UInt64.ofNat off := by grind
  rw [hsub]
  generalize x - base = d
  have hd := d.toNat_lt
  rw [UInt64.toNat_sub, UInt64.toNat_ofNat']
  omega

theorem inBlock_succ {a x : UInt64} {n : Nat} (hn : n < 2 ^ 64) :
    InBlock a (n + 1) x ↔ x = a ∨ InBlock (a + 1) n x := by
  unfold InBlock
  have hnext : (x - (a + 1)).toNat = (2 ^ 64 - 1 + (x - a).toNat) % 2 ^ 64 := by
    have hsub : x - (a + 1) = x - a - 1 := by grind
    rw [hsub, UInt64.toNat_sub, UInt64.toNat_one]
  have hzero : x = a ↔ (x - a).toNat = 0 := by
    constructor
    · rintro rfl
      rw [UInt64.sub_self]
      rfl
    · intro hsub
      have : x - a = 0 := UInt64.toNat_inj.mp hsub
      grind
  have hx := (x - a).toNat_lt
  rw [hzero, hnext]
  omega

theorem not_inBlock_next {n : Nat} (hn : n < 2 ^ 64) (a : UInt64) : ¬ InBlock (a + 1) n a := by
  unfold InBlock
  have hsub : a - (a + 1) = 0 - 1 := by grind
  rw [hsub, show ((0 : UInt64) - 1).toNat = 2 ^ 64 - 1 from rfl]
  omega

theorem InBlock.mono {a x : UInt64} {n k : Nat} (h : InBlock a n x) (hnk : n ≤ k) :
    InBlock a k x :=
  Nat.lt_of_lt_of_le h hnk

theorem BlocksDisjoint.symm {a b : UInt64} {n k : Nat} (h : BlocksDisjoint a n b k) :
    BlocksDisjoint b k a n :=
  fun x hb ha => h x ha hb

theorem disjoint_of_aligned {n : Nat} (hn : n ∣ 2 ^ 64) {a b : UInt64} (ha : a.toNat % n = 0)
    (hb : b.toNat % n = 0) (hne : a ≠ b) : BlocksDisjoint a n b n := by
  intro x hxa hxb
  unfold InBlock at hxa hxb
  apply hne
  rw [← UInt64.toNat_inj]
  have hx := x.toNat_lt
  have ha' := a.toNat_lt
  have hb' := b.toNat_lt
  obtain ⟨k, hk⟩ := hn
  obtain ⟨p, hp⟩ := Nat.dvd_of_mod_eq_zero ha
  obtain ⟨q, hq⟩ := Nat.dvd_of_mod_eq_zero hb
  -- the bytes of an aligned block share their quotient by `n`, and no aligned block wraps around
  have hquot : ∀ {c : UInt64} {r : Nat}, c.toNat = n * r → (x - c).toNat < n →
      x.toNat / n = r := by
    intro c r hc hlt
    rw [UInt64.toNat_sub] at hlt
    have hc' := c.toNat_lt
    have hr : r < k := by
      have : n * r < n * k := by omega
      exact Nat.lt_of_mul_lt_mul_left this
    have hend : n * r + n ≤ n * k := by
      have := Nat.mul_le_mul_left n (Nat.succ_le_of_lt hr)
      rwa [Nat.mul_succ] at this
    have hle : c.toNat ≤ x.toNat := by
      by_contra hgt
      have hmod : (2 ^ 64 - c.toNat + x.toNat) % 2 ^ 64 = 2 ^ 64 - c.toNat + x.toNat :=
        Nat.mod_eq_of_lt (by omega)
      omega
    have hmod : (2 ^ 64 - c.toNat + x.toNat) % 2 ^ 64 = x.toNat - c.toNat := by omega
    rw [hmod] at hlt
    have hbound : x.toNat < n * r + n := by omega
    apply Nat.div_eq_of_lt_le
    · rw [Nat.mul_comm]
      omega
    · rw [Nat.succ_mul, Nat.mul_comm]
      omega
  have h₁ := hquot hp hxa
  have h₂ := hquot hq hxb
  rw [hp, hq, ← h₁, ← h₂]

/-! ### Words -/

namespace Mem

variable {m : Mem}

theorem write64_of_not_mem {a v x : UInt64} (h : ¬ InBlock a 8 x) : write64 m a v x = m x := by
  unfold write64
  exact if_neg h

theorem byteAt_write64 (a v : UInt64) {i : Nat} (hi : i < 8) :
    (write64 m a v).byteAt a i = v.toNat / 256 ^ i % 256 := by
  have hsub : (a + UInt64.ofNat i - a).toNat = i := by
    have : a + UInt64.ofNat i - a = UInt64.ofNat i := by grind
    rw [this, UInt64.toNat_ofNat', Nat.mod_eq_of_lt (by omega)]
  unfold byteAt write64 byteOf
  rw [if_pos (inBlock_add hi), hsub, UInt8.toNat_ofNat']

theorem read64_congr {m' : Mem} {a : UInt64} (h : ∀ x, InBlock a 8 x → m x = m' x) :
    read64 m a = read64 m' a := by
  have hbyte : ∀ i < 8, m.byteAt a i = m'.byteAt a i :=
    fun i hi => congrArg UInt8.toNat (h _ (inBlock_add hi))
  unfold read64
  rw [hbyte 0 (by decide), hbyte 1 (by decide), hbyte 2 (by decide), hbyte 3 (by decide),
    hbyte 4 (by decide), hbyte 5 (by decide), hbyte 6 (by decide), hbyte 7 (by decide)]

/-- **A load after a store of the same word.** -/
@[simp] theorem read64_write64_self (m : Mem) (a v : UInt64) :
    read64 (write64 m a v) a = v := by
  unfold read64
  rw [byteAt_write64 a v (by decide), byteAt_write64 a v (by decide),
    byteAt_write64 a v (by decide), byteAt_write64 a v (by decide),
    byteAt_write64 a v (by decide), byteAt_write64 a v (by decide),
    byteAt_write64 a v (by decide), byteAt_write64 a v (by decide),
    ← UInt64.toNat_inj, UInt64.toNat_ofNat']
  have := v.toNat_lt
  omega

/-- **A load after a store elsewhere.** -/
theorem read64_write64_of_disjoint {a b v : UInt64} (h : BlocksDisjoint b 8 a 8) :
    read64 (write64 m a v) b = read64 m b :=
  read64_congr fun x hx => write64_of_not_mem (h x hx)

theorem read64_write64_offset {base v : UInt64} {i j : Nat} (hi : i + 8 ≤ 2 ^ 64)
    (hj : j + 8 ≤ 2 ^ 64) (hij : i + 8 ≤ j ∨ j + 8 ≤ i) :
    read64 (write64 m (base + UInt64.ofNat i) v) (base + UInt64.ofNat j) =
      read64 m (base + UInt64.ofNat j) := by
  apply read64_write64_of_disjoint
  intro x hx hx'
  rw [inBlock_offset_iff hj] at hx
  rw [inBlock_offset_iff hi] at hx'
  omega

theorem write64_offset {base v : UInt64} {i j : Nat} (hi : i + 8 ≤ 2 ^ 64) (hj : j < 2 ^ 64)
    (hij : j < i ∨ i + 8 ≤ j) :
    write64 m (base + UInt64.ofNat i) v (base + UInt64.ofNat j) = m (base + UInt64.ofNat j) := by
  apply write64_of_not_mem
  rw [inBlock_offset_iff hi]
  have hsub : base + UInt64.ofNat j - base = UInt64.ofNat j := by grind
  rw [hsub, UInt64.toNat_ofNat', Nat.mod_eq_of_lt hj]
  omega

theorem write64_write64_self (m : Mem) (a v v' : UInt64) :
    write64 (write64 m a v) a v' = write64 m a v' := by
  funext x
  by_cases hx : InBlock a 8 x
  · unfold write64
    rw [if_pos hx, if_pos hx]
  · rw [write64_of_not_mem hx, write64_of_not_mem hx, write64_of_not_mem hx]

theorem byteOf_read64 (m : Mem) (a : UInt64) {i : Nat} (hi : i < 8) :
    byteOf (read64 m a) i = m (a + UInt64.ofNat i) := by
  have hlt : ∀ i, m.byteAt a i < 256 := fun i => UInt8.toNat_lt _
  have h0 := hlt 0
  have h1 := hlt 1
  have h2 := hlt 2
  have h3 := hlt 3
  have h4 := hlt 4
  have h5 := hlt 5
  have h6 := hlt 6
  have h7 := hlt 7
  have hbyte : (m (a + UInt64.ofNat i)).toNat = m.byteAt a i := rfl
  rw [← UInt8.toNat_inj, hbyte]
  unfold byteOf read64
  rw [UInt8.toNat_ofNat', UInt64.toNat_ofNat']
  interval_cases i <;> omega

theorem read64_eq_iff {m m' : Mem} {a b : UInt64} :
    read64 m a = read64 m' b ↔ ∀ i < 8, m (a + UInt64.ofNat i) = m' (b + UInt64.ofNat i) := by
  constructor
  · intro h i hi
    rw [← byteOf_read64 m a hi, h, byteOf_read64 m' b hi]
  · intro h
    have hbyte : ∀ i < 8, m.byteAt a i = m'.byteAt b i := fun i hi => congrArg UInt8.toNat (h i hi)
    unfold read64
    rw [hbyte 0 (by decide), hbyte 1 (by decide), hbyte 2 (by decide), hbyte 3 (by decide),
      hbyte 4 (by decide), hbyte 5 (by decide), hbyte 6 (by decide), hbyte 7 (by decide)]

theorem write64_read64_self (m : Mem) (a : UInt64) : write64 m a (read64 m a) = m := by
  funext x
  by_cases hx : InBlock a 8 x
  · have haddr : a + UInt64.ofNat (x - a).toNat = x := by
      rw [UInt64.ofNat_toNat]
      grind
    have hi : (x - a).toNat < 8 := hx
    have hbyte := byteOf_read64 m a hi
    rw [haddr] at hbyte
    unfold write64
    rw [if_pos hx, hbyte]
  · exact write64_of_not_mem hx

theorem write8_write64_offset {base v : UInt64} {b : UInt8} {i j : Nat} (hi : i + 8 ≤ 2 ^ 64)
    (hj : j < 2 ^ 64) (hij : j < i ∨ i + 8 ≤ j) :
    write8 (write64 m (base + UInt64.ofNat i) v) (base + UInt64.ofNat j) b =
      write64 (write8 m (base + UInt64.ofNat j) b) (base + UInt64.ofNat i) v := by
  have hout : ¬ InBlock (base + UInt64.ofNat i) 8 (base + UInt64.ofNat j) := by
    rw [inBlock_offset_iff hi]
    have hsub : base + UInt64.ofNat j - base = UInt64.ofNat j := by grind
    rw [hsub, UInt64.toNat_ofNat', Nat.mod_eq_of_lt hj]
    omega
  funext x
  by_cases hx : x = base + UInt64.ofNat j
  · rw [hx, write64_of_not_mem hout]
    unfold write8
    rw [Function.update_self, Function.update_self]
  · unfold write8
    rw [Function.update_of_ne hx]
    unfold write64
    rw [Function.update_of_ne hx]

theorem read64_write8_offset {base : UInt64} {v : UInt8} {i j : Nat} (hi : i < 2 ^ 64)
    (hj : j + 8 ≤ 2 ^ 64) (hij : i < j ∨ j + 8 ≤ i) :
    read64 (write8 m (base + UInt64.ofNat i) v) (base + UInt64.ofNat j) =
      read64 m (base + UInt64.ofNat j) := by
  apply read64_congr
  intro x hx
  rw [inBlock_offset_iff hj] at hx
  apply Function.update_of_ne
  rintro rfl
  have hsub : base + UInt64.ofNat i - base = UInt64.ofNat i := by grind
  rw [hsub, UInt64.toNat_ofNat', Nat.mod_eq_of_lt hi] at hx
  omega

theorem fill_apply (v : UInt8) {n : Nat} (hn : n ≤ 2 ^ 64) (a : UInt64) (m : Mem) (x : UInt64) :
    fill v n a m x = if InBlock a n x then v else m x := by
  induction n generalizing a m with
  | zero =>
    have hnot : ¬ InBlock a 0 x := Nat.not_lt_zero _
    unfold fill
    rw [if_neg hnot]
  | succ n ih =>
    unfold fill
    rw [ih (by omega)]
    by_cases hxa : x = a
    · subst hxa
      rw [if_neg (not_inBlock_next (by omega) x), if_pos ((inBlock_succ (by omega)).mpr (.inl rfl))]
      exact Function.update_self ..
    · have hiff : InBlock a (n + 1) x ↔ InBlock (a + 1) n x := by
        rw [inBlock_succ (by omega), or_iff_right hxa]
      simp only [hiff]
      split
      · rfl
      · exact Function.update_of_ne hxa _ _

theorem read64_zero (a : UInt64) : read64 (fun _ => 0) a = 0 := by
  unfold read64 byteAt
  simp

theorem write64_zeros (a : UInt64) : write64 (fun _ => 0) a 0 = fun _ => 0 := by
  funext x
  unfold write64 byteOf
  simp

theorem fill_zeros {n : Nat} (hn : n ≤ 2 ^ 64) (a : UInt64) : fill 0 n a (fun _ => 0) = fun _ => 0 := by
  funext x
  rw [fill_apply 0 hn, ite_self]

theorem read64_fill_zero {n : Nat} (hn : n ≤ 2 ^ 64) {a b : UInt64} (m : Mem)
    (h : ∀ x, InBlock b 8 x → InBlock a n x) : read64 (fill 0 n a m) b = 0 := by
  have hzero : read64 (fill 0 n a m) b = read64 (fun _ => 0) b := by
    apply read64_congr
    intro x hx
    rw [fill_apply 0 hn, if_pos (h x hx)]
  rw [hzero, read64_zero]

theorem read64_fill_of_disjoint {n : Nat} (hn : n ≤ 2 ^ 64) {v : UInt8} {a b : UInt64} (m : Mem)
    (h : BlocksDisjoint b 8 a n) : read64 (fill v n a m) b = read64 m b := by
  apply read64_congr
  intro x hx
  rw [fill_apply v hn, if_neg (h x hx)]

theorem read64_write64_of_ne {a b v : UInt64} (ha : a.toNat % 8 = 0) (hb : b.toNat % 8 = 0)
    (hne : b ≠ a) : read64 (write64 m a v) b = read64 m b :=
  read64_write64_of_disjoint (disjoint_of_aligned (by decide) hb ha hne)

end Mem

end Keuos

/-!
## Transfers

`transfer dst src n m` copies `n` bytes, one after the other, the byte number `i` from the address `src i` to
the address `dst i`.  The addresses may be any: a transfer through a page table is one whose addresses jump at
the ends of pages.

### Main results

* `transfer_of_ne`: a transfer changes its destinations only.
* `transfer_apply`: where destinations and sources are apart, the last byte that goes to an address stays
  there.
* `transfer_add`: a transfer in two parts.
-/

namespace Keuos.Mem

/-- Copy the bytes at `src 0`, …, `src (n - 1)` to `dst 0`, …, `dst (n - 1)`. -/
def transfer (dst src : Nat → UInt64) : Nat → Mem → Mem
  | 0, m => m
  | n + 1, m => (transfer dst src n m).write8 (dst n) (transfer dst src n m (src n))

variable {dst src dst' src' : Nat → UInt64} {n k : Nat}

theorem transfer_succ (dst src : Nat → UInt64) (n : Nat) (m : Mem) :
    transfer dst src (n + 1) m =
      (transfer dst src n m).write8 (dst n) (transfer dst src n m (src n)) := rfl

theorem transfer_congr (hdst : ∀ i < n, dst i = dst' i) (hsrc : ∀ i < n, src i = src' i) (m : Mem) :
    transfer dst src n m = transfer dst' src' n m := by
  induction n with
  | zero => rfl
  | succ n ih =>
    rw [transfer_succ, transfer_succ, ih (fun i hi => hdst i (by omega)) (fun i hi => hsrc i (by omega)),
      hdst n (by omega), hsrc n (by omega)]

/-- **A transfer in two parts.** -/
theorem transfer_add (dst src : Nat → UInt64) (k n : Nat) (m : Mem) :
    transfer dst src (k + n) m =
      transfer (fun i => dst (k + i)) (fun i => src (k + i)) n (transfer dst src k m) := by
  induction n with
  | zero => rfl
  | succ n ih => rw [← Nat.add_assoc, transfer_succ, transfer_succ, ih]

/-- **Nothing but the destinations changes.** -/
theorem transfer_of_ne {x : UInt64} (h : ∀ i < n, x ≠ dst i) (m : Mem) :
    transfer dst src n m x = m x := by
  induction n with
  | zero => rfl
  | succ n ih =>
    rw [transfer_succ, write8, Function.update_of_ne (h n (by omega)), ih fun i hi => h i (by omega)]

/-- **The last byte that goes to an address stays there.** -/
theorem transfer_apply (hapart : ∀ i < n, ∀ j < n, src i ≠ dst j) (hk : k < n)
    (hlast : ∀ j < n, k < j → dst k ≠ dst j) (m : Mem) : transfer dst src n m (dst k) = m (src k) := by
  induction n with
  | zero => exact absurd hk (Nat.not_lt_zero k)
  | succ n ih =>
    rw [transfer_succ, write8]
    by_cases heq : k = n
    · rw [heq, Function.update_self, transfer_of_ne fun j hj => hapart n (by omega) j (by omega)]
    · rw [Function.update_of_ne (hlast n (by omega) (by omega)),
        ih (fun i hi j hj => hapart i (by omega) j (by omega)) (by omega)
          (fun j hj => hlast j (by omega))]

theorem transfer_apply_of_inj (hapart : ∀ i < n, ∀ j < n, src i ≠ dst j)
    (hinj : ∀ i < n, ∀ j < n, dst i = dst j → i = j) (hk : k < n) (m : Mem) :
    transfer dst src n m (dst k) = m (src k) :=
  transfer_apply hapart hk (fun j hj hlt heq => absurd (hinj k hk j hj heq) (by omega)) m

end Keuos.Mem

/-!
## Words of four bytes

Descriptors of devices consist of 32-bit words.  `read32_write32_self` and `read32_write32_of_disjoint` are
the laws of a store, and `join` puts an address together from its two words.
-/

namespace Keuos

namespace Mem

/-- Load a little-endian word of four bytes. -/
@[irreducible] def read32 (m : Mem) (a : UInt64) : UInt32 :=
  UInt32.ofNat (m.byteAt a 0 + m.byteAt a 1 * 256 + m.byteAt a 2 * 256 ^ 2 + m.byteAt a 3 * 256 ^ 3)

/-- Store a little-endian word of four bytes. -/
@[irreducible] def write32 (m : Mem) (a : UInt64) (v : UInt32) : Mem := fun x =>
  if InBlock a 4 x then UInt8.ofNat (v.toNat / 256 ^ (x - a).toNat) else m x

variable {m m' : Mem}

theorem write32_of_not_mem {a x : UInt64} {v : UInt32} (h : ¬ InBlock a 4 x) : write32 m a v x = m x := by
  unfold write32
  exact if_neg h

theorem byteAt_write32 (a : UInt64) (v : UInt32) {i : Nat} (hi : i < 4) :
    (write32 m a v).byteAt a i = v.toNat / 256 ^ i % 256 := by
  have hsub : (a + UInt64.ofNat i - a).toNat = i := by
    have : a + UInt64.ofNat i - a = UInt64.ofNat i := by grind
    rw [this, UInt64.toNat_ofNat', Nat.mod_eq_of_lt (by omega)]
  unfold byteAt write32
  rw [if_pos (inBlock_add hi), hsub, UInt8.toNat_ofNat']

theorem read32_congr {a : UInt64} (h : ∀ x, InBlock a 4 x → m x = m' x) : read32 m a = read32 m' a := by
  have hbyte : ∀ i < 4, m.byteAt a i = m'.byteAt a i :=
    fun i hi => congrArg UInt8.toNat (h _ (inBlock_add hi))
  unfold read32
  rw [hbyte 0 (by decide), hbyte 1 (by decide), hbyte 2 (by decide), hbyte 3 (by decide)]

/-- **A load after a store of the same word.** -/
@[simp] theorem read32_write32_self (m : Mem) (a : UInt64) (v : UInt32) : read32 (write32 m a v) a = v := by
  unfold read32
  rw [byteAt_write32 a v (by decide), byteAt_write32 a v (by decide), byteAt_write32 a v (by decide),
    byteAt_write32 a v (by decide), ← UInt32.toNat_inj, UInt32.toNat_ofNat']
  have := v.toNat_lt
  omega

/-- **A load after a store elsewhere.** -/
theorem read32_write32_of_disjoint {a b : UInt64} {v : UInt32} (h : BlocksDisjoint b 4 a 4) :
    read32 (write32 m a v) b = read32 m b :=
  read32_congr fun x hx => write32_of_not_mem (h x hx)

theorem read32_write32_offset {base : UInt64} {v : UInt32} {i j : Nat} (hi : i + 4 ≤ 2 ^ 64)
    (hj : j + 4 ≤ 2 ^ 64) (hij : i + 4 ≤ j ∨ j + 4 ≤ i) :
    read32 (write32 m (base + UInt64.ofNat i) v) (base + UInt64.ofNat j) =
      read32 m (base + UInt64.ofNat j) := by
  apply read32_write32_of_disjoint
  intro x hx hx'
  rw [inBlock_offset_iff hj] at hx
  rw [inBlock_offset_iff hi] at hx'
  omega

end Mem

/-! ### Addresses in two words -/

/-- The address whose halves are `lo` and `hi`. -/
def join (lo hi : UInt32) : UInt64 :=
  (hi.toUInt64 <<< 32) ||| lo.toUInt64

theorem toNat_join (lo hi : UInt32) : (join lo hi).toNat = hi.toNat * 2 ^ 32 + lo.toNat := by
  have hlo := lo.toNat_lt
  have hhi := hi.toNat_lt
  unfold join
  rw [UInt64.toNat_or, UInt64.toNat_shiftLeft, UInt32.toNat_toUInt64, UInt32.toNat_toUInt64,
    show (32 : UInt64).toNat % 64 = 32 from rfl, Nat.mod_eq_of_lt (by rw [Nat.shiftLeft_eq]; omega),
    Nat.shiftLeft_eq, Nat.mul_comm, Nat.two_pow_add_eq_or_of_lt hlo]

theorem toNat_mask32 (a : UInt64) : (a &&& 0xFFFFFFFF).toUInt32.toNat = a.toNat % 2 ^ 32 := by
  have hmask : ∀ x : Nat, x &&& 0xFFFFFFFF = x % 2 ^ 32 := fun x => Nat.and_two_pow_sub_one_eq_mod x 32
  rw [UInt64.toNat_toUInt32, UInt64.toNat_and, show (0xFFFFFFFF : UInt64).toNat = 0xFFFFFFFF from rfl, hmask,
    Nat.mod_mod]

theorem low_join (lo hi : UInt32) : (join lo hi &&& 0xFFFFFFFF).toUInt32 = lo := by
  rw [← UInt32.toNat_inj, toNat_mask32, toNat_join]
  have := lo.toNat_lt
  omega

theorem high_join (lo hi : UInt32) : ((join lo hi >>> 32) &&& 0xFFFFFFFF).toUInt32 = hi := by
  rw [← UInt32.toNat_inj, toNat_mask32, UInt64.toNat_shiftRight, toNat_join,
    show (32 : UInt64).toNat % 64 = 32 from rfl, Nat.shiftRight_eq_div_pow]
  have := lo.toNat_lt
  have := hi.toNat_lt
  omega

end Keuos
