import Keuos.Pmm.Defs
import Keuos.Pmm.Equiv.Holds

/-!
# The sharded free lists, their counts and the bitmap agree

Without its tags and its bitmap the sharded allocator is the allocator of `kernel/core/pmm.salt`:
`untagged` drops them, and it takes `pushFrame` and `popFrame` to `pushPage` and `popPage`, because the
pages below 4 GiB fit under the epoch.  So the laws of `FreeLists` apply, and what is left to show is that
the bit of a page says whether the page is on a list.

The bitmap is what makes wrong arguments harmless.  A page is linked only when its bit was clear, that is
when it is on no list, whoever frees it (`lists_sound`).
-/

namespace Keuos.Pmm.Sharded

/-! ### Tagged heads -/

theorem bit_pageBits (i : Nat) : bit 0x0000FFFFFFFFF000 i = decide (12 ≤ i ∧ i < 48) := by
  have hmask : (0x0000FFFFFFFFF000 : UInt64).toNat = (2 ^ 36 - 1) * 2 ^ 12 := rfl
  unfold bit
  rw [hmask, Nat.testBit_mul_two_pow, Nat.testBit_two_pow_sub_one]
  simp only [Bool.decide_and]
  congr 1
  rw [decide_eq_decide]
  omega

/-- A page address below 4 GiB. -/
def LowPage (p : UInt64) : Prop :=
  Aligned p ∧ p.toNat < 2 ^ 32

theorem LowPage.bit_eq_false {p : UInt64} (h : LowPage p) {i : Nat} (hi : ¬ (12 ≤ i ∧ i < 48)) :
    bit p i = false := by
  obtain ⟨haligned, hlt⟩ := h
  unfold Aligned at haligned
  unfold bit
  by_cases hlow : i < 12
  · obtain ⟨k, hk⟩ := Nat.dvd_of_mod_eq_zero haligned
    rw [hk, show 4096 = 2 ^ 12 from rfl, Nat.mul_comm, Nat.testBit_mul_two_pow]
    simp [Nat.not_le.mpr hlow]
  · apply Nat.testBit_lt_two_pow
    apply Nat.lt_of_lt_of_le hlt
    exact Nat.pow_le_pow_right (by omega) (by omega)

/-- **What a head was packed from.**  The epoch, whatever it is, stays clear of the page. -/
theorem unpackPhys_packHead {p : UInt64} (h : LowPage p) (epoch : UInt64) :
    unpackPhys (packHead p epoch) = p := by
  apply eq_of_bit_eq
  intro i
  unfold unpackPhys packHead
  rw [bit_and, bit_or, bit_and, bit_pageBits]
  by_cases hi : 12 ≤ i ∧ i < 48
  · have hepoch : bit ((epoch &&& 0xFFFF) <<< (48 : UInt64)) i = false :=
      bit_shiftLeft_of_lt _ (by decide) hi.2
    rw [hepoch]
    simp [hi]
  · rw [h.bit_eq_false hi]
    simp [hi]

theorem lowPage_zero : LowPage 0 := by
  constructor
  · rfl
  · decide

/-! ### Bits of the bitmap -/

theorem checkDoubleFree_iff (s : Globals) (p : UInt64) :
    checkDoubleFree s p = true ↔
      arrIdx p < bitmapWords ∧ bit (s.usedBitmap (arrIdx p)) (p / pageSize % 64).toNat = true := by
  have hbit : (p / pageSize % 64).toNat < 64 := by
    rw [UInt64.toNat_mod]
    exact Nat.mod_lt _ (by decide)
  unfold checkDoubleFree
  by_cases hidx : arrIdx p ≥ bitmapWords
  · rw [if_pos hidx]
    simp [UInt64.not_lt.mpr hidx]
  · rw [if_neg hidx, bne_iff_ne]
    unfold pageMask
    rw [and_one_shiftLeft_ne_zero _ hbit]
    simp [UInt64.not_le.mp hidx]

theorem LowPage.arrIdx_lt {p : UInt64} (h : LowPage p) : arrIdx p < bitmapWords := by
  have hlt := h.2
  have hsize : pageSize.toNat = 4096 := rfl
  have hwords : bitmapWords.toNat = 16384 := rfl
  have h64 : (64 : UInt64).toNat = 64 := rfl
  unfold arrIdx
  rw [UInt64.lt_iff_toNat_lt, UInt64.toNat_div, UInt64.toNat_div, hsize, hwords, h64]
  omega

theorem eq_of_same_bit {p q : UInt64} (hp : Aligned p) (hq : Aligned q) (hword : arrIdx p = arrIdx q)
    (hbit : (p / pageSize % 64).toNat = (q / pageSize % 64).toNat) : p = q := by
  have h64 : (64 : UInt64).toNat = 64 := rfl
  apply eq_of_index_eq hp hq
  have hdiv := congrArg UInt64.toNat hword
  unfold arrIdx at hdiv
  rw [UInt64.toNat_div, UInt64.toNat_div (q / pageSize), h64] at hdiv
  rw [UInt64.toNat_mod, UInt64.toNat_mod, h64] at hbit
  rw [← UInt64.toNat_inj]
  omega

/-- **Marking a page free.** -/
theorem checkDoubleFree_markFree (s : Globals) {p q : UInt64} (hp : LowPage p) (hq : Aligned q) :
    checkDoubleFree (markPageFreeBitmap s p) q = true ↔ q = p ∨ checkDoubleFree s q = true := by
  have hidx := hp.arrIdx_lt
  have hshift : (p / pageSize % 64).toNat < 64 := by
    rw [UInt64.toNat_mod]
    exact Nat.mod_lt _ (by decide)
  rw [checkDoubleFree_iff, checkDoubleFree_iff]
  unfold markPageFreeBitmap
  rw [if_neg (UInt64.not_le.mpr hidx)]
  by_cases hword : arrIdx q = arrIdx p
  · simp only [hword, Function.update_self]
    unfold pageMask
    rw [bit_or, bit_one_shiftLeft hshift, Bool.or_eq_true, decide_eq_true_eq]
    constructor
    · rintro ⟨-, hold | hnew⟩
      · exact Or.inr ⟨hidx, hold⟩
      · exact Or.inl (eq_of_same_bit hq hp.1 hword hnew.symm)
    · rintro (rfl | ⟨-, hold⟩)
      · exact ⟨hidx, Or.inr rfl⟩
      · exact ⟨hidx, Or.inl hold⟩
  · have hne : q ≠ p := by
      rintro rfl
      exact hword rfl
    simp only [Function.update_of_ne hword, hne, false_or]

/-- **Marking a page used.** -/
theorem checkDoubleFree_markUsed (s : Globals) {p q : UInt64} (hp : LowPage p) (hq : Aligned q) :
    checkDoubleFree (markPageUsedBitmap s p) q = true ↔ q ≠ p ∧ checkDoubleFree s q = true := by
  have hidx := hp.arrIdx_lt
  have hshift : ∀ r : UInt64, (r / pageSize % 64).toNat < 64 := by
    intro r
    rw [UInt64.toNat_mod]
    exact Nat.mod_lt _ (by decide)
  rw [checkDoubleFree_iff, checkDoubleFree_iff]
  unfold markPageUsedBitmap
  rw [if_neg (UInt64.not_le.mpr hidx)]
  by_cases hword : arrIdx q = arrIdx p
  · simp only [hword, Function.update_self]
    have hall : bit 0xFFFFFFFFFFFFFFFF (q / pageSize % 64).toNat = true := by
      have hones := bit_allOnes (q / pageSize % 64).toNat
      unfold allOnes at hones
      rw [hones, decide_eq_true_eq]
      exact hshift q
    unfold pageMask
    rw [bit_and, bit_xor, bit_one_shiftLeft (hshift p), hall, Bool.and_eq_true]
    simp only [Bool.xor_true, Bool.not_eq_eq_eq_not, Bool.not_true, decide_eq_false_iff_not]
    constructor
    · rintro ⟨-, hold, hother⟩
      refine ⟨?_, hidx, hold⟩
      rintro rfl
      exact hother rfl
    · rintro ⟨hne, -, hold⟩
      exact ⟨hidx, hold, fun hsame => hne (eq_of_same_bit hq hp.1 hword hsame.symm)⟩
  · have hne : q ≠ p := by
      rintro rfl
      exact hword rfl
    simp only [Function.update_of_ne hword, ne_eq, hne, not_false_eq_true, true_and]

/-! ### Dropping the tags -/

/-- The allocator without tags and bitmap. -/
def untagged (s : Globals) : PmmState where
  mem := s.mem
  shards := fun c => ⟨unpackPhys (s.shards c).headFrame, (s.shards c).freeCount, 0⟩
  totalPages := s.totalPages
  refcounts := fun _ => 0
  numCpus := s.numCpus

theorem untagged_setShard (s : Globals) (core : Cpu) (shard : PmmShard) :
    untagged (s.setShard core shard) =
      (untagged s).setShard core ⟨unpackPhys shard.headFrame, shard.freeCount, 0⟩ := by
  unfold untagged Globals.setShard PmmState.setShard
  congr 1
  funext c
  by_cases hc : c = core
  · subst hc
    simp only [Function.update_self]
  · simp only [Function.update_of_ne hc]

theorem untagged_pushFrame {page : UInt64} (h : LowPage page) (s : Globals) (core : Cpu) :
    untagged (pushFrame s core page) = pushPage (untagged s) core page := by
  unfold pushFrame pushPage
  simp only [untagged_setShard, unpackPhys_packHead h]
  rfl

theorem untagged_popFrame {s : Globals} {core : Cpu}
    (h : LowPage (s.mem.read64 (physToVirt (unpackPhys (s.shards core).headFrame)))) :
    untagged (popFrame s core) = popPage (untagged s) core := by
  unfold popFrame popPage
  simp only [untagged_setShard, unpackPhys_packHead h]
  rfl

/-! ### The fields that linking and unlinking leave alone -/

@[simp] theorem usedBitmap_setShard (s : Globals) (core : Cpu) (shard : PmmShard) :
    (s.setShard core shard).usedBitmap = s.usedBitmap := rfl

@[simp] theorem maxPhysAddr_setShard (s : Globals) (core : Cpu) (shard : PmmShard) :
    (s.setShard core shard).maxPhysAddr = s.maxPhysAddr := rfl

@[simp] theorem usedBitmap_pushFrame (s : Globals) (core : Cpu) (page : UInt64) :
    (pushFrame s core page).usedBitmap = s.usedBitmap := by
  unfold pushFrame
  rw [usedBitmap_setShard]

@[simp] theorem usedBitmap_popFrame (s : Globals) (core : Cpu) :
    (popFrame s core).usedBitmap = s.usedBitmap := by
  unfold popFrame
  rw [usedBitmap_setShard]

@[simp] theorem maxPhysAddr_pushFrame (s : Globals) (core : Cpu) (page : UInt64) :
    (pushFrame s core page).maxPhysAddr = s.maxPhysAddr := by
  unfold pushFrame
  rw [maxPhysAddr_setShard]

@[simp] theorem maxPhysAddr_popFrame (s : Globals) (core : Cpu) :
    (popFrame s core).maxPhysAddr = s.maxPhysAddr := by
  unfold popFrame
  rw [maxPhysAddr_setShard]

@[simp] theorem maxPhysAddr_markFree (s : Globals) (page : UInt64) :
    (markPageFreeBitmap s page).maxPhysAddr = s.maxPhysAddr := by
  unfold markPageFreeBitmap
  split_ifs <;> rfl

@[simp] theorem maxPhysAddr_markUsed (s : Globals) (page : UInt64) :
    (markPageUsedBitmap s page).maxPhysAddr = s.maxPhysAddr := by
  unfold markPageUsedBitmap
  split_ifs <;> rfl

@[simp] theorem untagged_markFree (s : Globals) (page : UInt64) :
    untagged (markPageFreeBitmap s page) = untagged s := by
  unfold markPageFreeBitmap
  split_ifs <;> rfl

@[simp] theorem untagged_markUsed (s : Globals) (page : UInt64) :
    untagged (markPageUsedBitmap s page) = untagged s := by
  unfold markPageUsedBitmap
  split_ifs <;> rfl

theorem checkDoubleFree_congr {s s' : Globals} (h : s'.usedBitmap = s.usedBitmap) (p : UInt64) :
    checkDoubleFree s' p = checkDoubleFree s p := by
  unfold checkDoubleFree
  rw [h]

theorem markFree_pushFrame (s : Globals) (core : Cpu) (page : UInt64) :
    markPageFreeBitmap (pushFrame s core page) page = pushFrame (markPageFreeBitmap s page) core page := by
  unfold markPageFreeBitmap pushFrame Globals.setShard
  split_ifs <;> rfl

/-! ### Lists and bitmap -/

structure Inv (s : Globals) (lists : Cpu → List UInt64) : Prop where
  freeLists : FreeLists (untagged s) lists
  marked : ∀ p, Aligned p → (checkDoubleFree s p = true ↔ ∃ c, p ∈ lists c)
  below : ∀ c, ∀ p ∈ lists c, p.toNat < 2 ^ 32

namespace Inv

variable {s : Globals} {lists : Cpu → List UInt64}

theorem congr (h : Inv s lists) {s' : Globals} (hmem : s'.mem = s.mem) (hshards : s'.shards = s.shards)
    (hbitmap : s'.usedBitmap = s.usedBitmap) : Inv s' lists := by
  refine ⟨?_, ?_, h.below⟩
  · apply h.freeLists.congr hmem
    · intro c
      simp only [untagged, hshards]
    · intro c
      simp only [untagged, hshards]
  · intro p hp
    rw [checkDoubleFree_congr hbitmap]
    exact h.marked p hp

theorem push (h : Inv s lists) (core : Cpu) {page : UInt64} (hpage : LowPage page) (hne : page ≠ 0)
    (hnot : ∀ c, page ∉ lists c) :
    Inv (pushFrame (markPageFreeBitmap s page) core page)
      (Function.update lists core (page :: lists core)) := by
  -- what the lists hold afterwards
  have hmem : ∀ p, (∃ c, p ∈ Function.update lists core (page :: lists core) c) ↔
      p = page ∨ ∃ c, p ∈ lists c := by
    intro p
    constructor
    · rintro ⟨c, hc⟩
      by_cases heq : c = core
      · subst heq
        rw [Function.update_self, List.mem_cons] at hc
        exact hc.imp id fun hin => ⟨c, hin⟩
      · rw [Function.update_of_ne heq] at hc
        exact Or.inr ⟨c, hc⟩
    · rintro (rfl | ⟨c, hc⟩)
      · exact ⟨core, by rw [Function.update_self]; exact List.mem_cons_self ..⟩
      · by_cases heq : c = core
        · subst heq
          exact ⟨c, by rw [Function.update_self]; exact List.mem_cons_of_mem _ hc⟩
        · exact ⟨c, by rwa [Function.update_of_ne heq]⟩
  constructor
  · rw [untagged_pushFrame hpage, untagged_markFree]
    exact h.freeLists.push core hpage.1 hne hnot
  · intro p hp
    rw [checkDoubleFree_congr (usedBitmap_pushFrame ..), checkDoubleFree_markFree s hpage hp, hmem,
      h.marked p hp]
  · intro c p hp
    rcases (hmem p).mp ⟨c, hp⟩ with rfl | ⟨d, hd⟩
    · exact hpage.2
    · exact h.below d p hd

theorem exists_cons (h : Inv s lists) {core : Cpu} (hhead : unpackPhys (s.shards core).headFrame ≠ 0) :
    ∃ rest, lists core = unpackPhys (s.shards core).headFrame :: rest :=
  h.freeLists.exists_cons hhead

theorem pop (h : Inv s lists) {core : Cpu} {page : UInt64} {rest : List UInt64}
    (hcons : lists core = page :: rest) :
    Inv (markPageUsedBitmap (popFrame s core) page) (Function.update lists core rest) := by
  have hin : page ∈ lists core := by
    rw [hcons]
    exact List.mem_cons_self ..
  have hpage : LowPage page := ⟨h.freeLists.aligned core page hin, h.below core page hin⟩
  -- the link of the first page is the second page or null, so that it fits under the epoch
  have hnext : LowPage (s.mem.read64 (physToVirt (unpackPhys (s.shards core).headFrame))) := by
    have hchain := h.freeLists.chain core
    rw [hcons] at hchain
    obtain ⟨hhead, -, hrest⟩ := hchain
    have hhead' : unpackPhys (s.shards core).headFrame = page := hhead
    rw [hhead']
    cases hr : rest with
    | nil =>
      rw [hr] at hrest
      have hnull : s.mem.read64 (physToVirt page) = 0 := hrest
      rw [hnull]
      exact lowPage_zero
    | cons q rest' =>
      rw [hr] at hrest
      have hq : s.mem.read64 (physToVirt page) = q := hrest.1
      have hqin : q ∈ lists core := by
        rw [hcons, hr]
        simp
      rw [hq]
      exact ⟨h.freeLists.aligned core q hqin, h.below core q hqin⟩
  have hnot := h.freeLists.not_mem_pop hcons
  constructor
  · rw [untagged_markUsed, untagged_popFrame hnext]
    exact h.freeLists.pop hcons
  · intro p hp
    rw [checkDoubleFree_markUsed _ hpage hp, checkDoubleFree_congr (usedBitmap_popFrame ..),
      h.marked p hp]
    constructor
    · rintro ⟨hne, c, hc⟩
      refine ⟨c, ?_⟩
      by_cases heq : c = core
      · subst heq
        rw [Function.update_self]
        rw [hcons] at hc
        exact (List.mem_cons.mp hc).resolve_left hne
      · rwa [Function.update_of_ne heq]
    · rintro ⟨c, hc⟩
      refine ⟨?_, c, mem_of_mem_update hcons hc⟩
      rintro rfl
      exact hnot c hc
  · intro c p hp
    exact h.below c p (mem_of_mem_update hcons hp)

end Inv

/-! ### The calls -/

/-- The state from which the first page of a list was unlinked. -/
def popped (s : Globals) (core : Cpu) : UInt64 × Globals :=
  (unpackPhys (s.shards core).headFrame,
    markPageUsedBitmap (popFrame s core) (unpackPhys (s.shards core).headFrame))

theorem stealFrom_spec (s : Globals) (thief : Cpu) (victims : List Cpu) :
    stealFrom s thief victims = (0, s) ∨
      ∃ v, unpackPhys (s.shards v).headFrame ≠ 0 ∧ stealFrom s thief victims = popped s v := by
  induction victims with
  | nil => exact Or.inl rfl
  | cons victim rest ih =>
    unfold stealFrom
    dsimp only
    split_ifs with hrich hhead
    · exact Or.inr ⟨victim, bne_iff_ne.mp hhead, rfl⟩
    · exact ih
    · exact ih

/-- **`alloc_frame` returns null or the first page of some list.** -/
theorem allocFrame_spec (s : Globals) (cpu : Cpu) :
    allocFrame s cpu = (0, s) ∨
      ∃ v, unpackPhys (s.shards v).headFrame ≠ 0 ∧ allocFrame s cpu = popped s v := by
  have hsteal := stealFrom_spec s cpu ((List.finRange 16).filter fun victim => victim.val < s.numCpus.toNat)
  unfold allocFrame
  dsimp only
  split_ifs with hhead
  · exact Or.inr ⟨cpu, bne_iff_ne.mp hhead, rfl⟩
  · exact hsteal

/-- **`free_frame` does nothing, or links a page that was marked used.** -/
theorem freeFrame_spec (s : Globals) (cpu : Cpu) (page : UInt64) :
    freeFrame s cpu page = s ∨
      (page ≠ 0 ∧ Aligned page ∧ page < s.maxPhysAddr ∧ checkDoubleFree s page = false ∧
        freeFrame s cpu page = pushFrame (markPageFreeBitmap s page) cpu page) := by
  unfold freeFrame
  split_ifs with hzero hpage hmax hdouble
  · exact Or.inl rfl
  · exact Or.inl rfl
  · exact Or.inl rfl
  · exact Or.inl rfl
  · refine Or.inr ⟨?_, ?_, UInt64.not_le.mp hmax, by simpa using hdouble, rfl⟩
    · simpa using hzero
    · have hmod : page % pageSize = 0 := by simpa using hpage
      have hnat := congrArg UInt64.toNat hmod
      rwa [UInt64.toNat_mod, UInt64.toNat_zero] at hnat

/-! ### Setting up -/

theorem initLoop_spec {end_ : UInt64} (hend : end_.toNat ≤ 2 ^ 32) :
    ∀ (fuel : Nat) {s : Globals} {lists : Cpu → List UInt64} {current : UInt64} (coreIdx : UInt64),
      Inv s lists → Aligned current → current ≠ 0 → current.toNat ≤ 2 ^ 33 →
      (end_.toNat - current.toNat) / 4096 < fuel →
      (∀ c, ∀ q ∈ lists c, ¬ PageIn current end_ q) →
      ∃ s' lists', initLoop fuel s current end_ coreIdx = some s' ∧ Inv s' lists' ∧
        s'.maxPhysAddr = s.maxPhysAddr ∧
        ∀ c, ∀ p ∈ lists' c, p ∈ lists c ∨ PageIn current end_ p := by
  intro fuel
  induction fuel with
  | zero =>
    intro s lists current coreIdx _ _ _ _ hfuel
    exact absurd hfuel (Nat.not_lt_zero _)
  | succ fuel ih =>
    intro s lists current coreIdx h haligned hne hcur hfuel hfresh
    have hnext : (current + pageSize).toNat = current.toNat + 4096 := by
      have hsize : pageSize.toNat = 4096 := rfl
      rw [UInt64.toNat_add, hsize]
      exact Nat.mod_eq_of_lt (by omega)
    unfold initLoop
    by_cases hle : current + pageSize ≤ end_
    · rw [if_pos hle]
      have hle' := UInt64.le_iff_toNat_le.mp hle
      rw [hnext] at hle'
      have hpage : PageIn current end_ current := ⟨Nat.le_refl _, hle', haligned⟩
      have hlow : LowPage current := ⟨haligned, by omega⟩
      dsimp only
      generalize Fin.ofNat 16 (coreIdx % s.numCpus).toNat = target
      have hnot : ∀ c, current ∉ lists c := fun c hc => hfresh c current hc hpage
      have hpush := h.push target hlow hne hnot
      -- counting the page commutes with marking it
      have hstep : Inv (markPageFreeBitmap { pushFrame s target current with
          totalPages := (pushFrame s target current).totalPages + 1 } current)
          (Function.update lists target (current :: lists target)) := by
        rw [← markFree_pushFrame] at hpush
        apply hpush.congr
        · unfold markPageFreeBitmap
          split_ifs <;> rfl
        · unfold markPageFreeBitmap
          split_ifs <;> rfl
        · unfold markPageFreeBitmap
          split_ifs <;> rfl
      obtain ⟨hnext_aligned, hnext_ne, hnext_fresh, hrest⟩ :=
        @next_page lists target current end_ hnext hpage hfresh
      obtain ⟨s', lists', hs', hinv, hmax, hmem'⟩ := ih (coreIdx + 1) hstep hnext_aligned hnext_ne
        (by rw [hnext]; omega) (by rw [hnext]; omega) hnext_fresh
      refine ⟨s', lists', hs', hinv, ?_, ?_⟩
      · rw [hmax, maxPhysAddr_markFree, maxPhysAddr_pushFrame]
      · exact fun c p hp => hrest c p (hmem' c p hp)
    · rw [if_neg hle]
      exact ⟨s, lists, rfl, h, rfl, fun c p hp => Or.inl hp⟩

/-- `x` is an address of a range. -/
def InRange (r : UInt64 × UInt64) (x : UInt64) : Prop :=
  r.1 ≤ x ∧ x < r.2

/-- The ranges have no address in common. -/
def Apart (r r' : UInt64 × UInt64) : Prop :=
  ∀ x, InRange r x → ¬ InRange r' x

/-- A range of addresses above 0 and below 4 GiB. -/
def LowRange (r : UInt64 × UInt64) : Prop :=
  0 < r.1 ∧ r.1 < 0x100000000 ∧ r.2 ≤ 0x100000000

theorem inRange_of_pageIn {r : UInt64 × UInt64} {p : UInt64} (h : PageIn r.1 r.2 p) : InRange r p := by
  obtain ⟨hlo, hhi, -⟩ := h
  constructor
  · exact UInt64.le_iff_toNat_le.mpr hlo
  · rw [UInt64.lt_iff_toNat_lt]
    omega

theorem init_spec {s : Globals} {lists : Cpu → List UInt64} (h : Inv s lists)
    (hmax : s.maxPhysAddr ≤ 0x100000000) {r : UInt64 × UInt64} (hr : LowRange r)
    (hfresh : ∀ c, ∀ q ∈ lists c, ¬ InRange r q) :
    ∃ s' lists', init s r.1 r.2 = some s' ∧ Inv s' lists' ∧ s'.maxPhysAddr ≤ 0x100000000 ∧
      ∀ c, ∀ p ∈ lists' c, p ∈ lists c ∨ InRange r p := by
  obtain ⟨hpos, hstart, hend⟩ := hr
  have hpos' := UInt64.lt_iff_toNat_lt.mp hpos
  have hstart' := UInt64.lt_iff_toNat_lt.mp hstart
  have hend' := UInt64.le_iff_toNat_le.mp hend
  have hgib : (0x100000000 : UInt64).toNat = 2 ^ 32 := rfl
  rw [UInt64.toNat_zero] at hpos'
  rw [hgib] at hstart' hend'
  have hup := @toNat_alignUp r.1 (by omega)
  have hbound : ∃ s₁, (if r.2 > s.maxPhysAddr then { s with maxPhysAddr := r.2 } else s) = s₁ ∧
      Inv s₁ lists ∧ s₁.maxPhysAddr ≤ 0x100000000 := by
    split_ifs
    · exact ⟨_, rfl, h.congr rfl rfl rfl, hend⟩
    · exact ⟨_, rfl, h, hmax⟩
  obtain ⟨s₁, hs₁, hinv, hmax₁⟩ := hbound
  unfold init
  dsimp only
  rw [hs₁]
  generalize (r.1 + 4095) &&& 0xFFFFFFFFFFFFF000 = current at hup
  -- the pages from the first whole page of the range on are pages of the range
  have hin : ∀ p, PageIn current r.2 p → InRange r p := by
    rintro p ⟨hlo, hhi, hal⟩
    exact inRange_of_pageIn ⟨by omega, hhi, hal⟩
  have hne : current ≠ 0 := by
    rintro rfl
    rw [UInt64.toNat_zero] at hup
    omega
  obtain ⟨s', lists', hs', hinv', hmax', hmem⟩ := initLoop_spec hend' (2 ^ 52 + 1) 0 hinv
    (show Aligned current by unfold Aligned; omega) hne (by omega) (by omega)
    (fun c q hq hpage => hfresh c q hq (hin q hpage))
  refine ⟨s', lists', hs', hinv', ?_, ?_⟩
  · rw [hmax']
    exact hmax₁
  · intro c p hp
    exact (hmem c p hp).imp id (hin p)

theorem bootRanges_spec {ranges : List (UInt64 × UInt64)} {s : Globals} {lists : Cpu → List UInt64}
    (h : Inv s lists) (hmax : s.maxPhysAddr ≤ 0x100000000) (hlow : ∀ r ∈ ranges, LowRange r)
    (hapart : ranges.Pairwise Apart) (hfresh : ∀ r ∈ ranges, ∀ c, ∀ q ∈ lists c, ¬ InRange r q) :
    ∃ s' lists', bootRanges s ranges = some s' ∧ Inv s' lists' ∧ s'.maxPhysAddr ≤ 0x100000000 := by
  induction ranges generalizing s lists with
  | nil => exact ⟨s, lists, List.foldlM_nil, h, hmax⟩
  | cons r ranges ih =>
    rw [List.pairwise_cons] at hapart
    obtain ⟨s₁, lists₁, hinit, h₁, hmax₁, hmem⟩ := init_spec h hmax (hlow r (List.mem_cons_self ..))
      (hfresh r (List.mem_cons_self ..))
    have hcons : bootRanges s (r :: ranges) = bootRanges s₁ ranges := by
      unfold bootRanges
      rw [List.foldlM_cons, hinit, Option.bind_eq_bind, Option.bind_some]
    rw [hcons]
    apply ih h₁ hmax₁
    · intro r' hr'
      exact hlow r' (List.mem_cons_of_mem _ hr')
    · exact hapart.2
    · intro r' hr' c q hq
      rcases hmem c q hq with hold | hnew
      · exact hfresh r' (List.mem_cons_of_mem _ hr') c q hold
      · exact hapart.1 r' hr' q hnew

/-! ### Runs -/

/-- The page was returned by `alloc_frame`, and `free_frame` was not called with it since. -/
def Outstanding (ledger : List (Ledger.Entry Cpu UInt64)) (page : UInt64) : Prop :=
  Ledger.owner page ledger ≠ none ∧ Ledger.frees page ledger = 0

/-- What is claimed of a state: `lists` are the sixteen lists, no page occurs twice in them, a bit says
whether its page is on a list, the counts are the lengths, and the page that an allocation would return
is not outstanding. -/
structure State.SoundFor (s : State) (lists : Cpu → List UInt64) : Prop where
  chain : ∀ c, Chain s.pmm.mem (unpackPhys (s.pmm.shards c).headFrame) (lists c)
  nodup : ∀ c, (lists c).Nodup
  disjoint : ∀ c d, c ≠ d → ∀ p ∈ lists c, p ∉ lists d
  marked : ∀ p, Aligned p → (checkDoubleFree s.pmm p = true ↔ ∃ c, p ∈ lists c)
  count : ∀ c, (s.pmm.shards c).freeCount.toNat = (lists c).length
  fresh : ∀ cpu, (Sharded.allocFrame s.pmm cpu).1 ≠ 0 →
    ¬ Outstanding s.ledger (Sharded.allocFrame s.pmm cpu).1

/-- The lists are sound. -/
def State.Sound (s : State) : Prop :=
  ∃ lists, s.SoundFor lists

structure State.Inv (s : State) (lists : Cpu → List UInt64) : Prop where
  agree : Sharded.Inv s.pmm lists
  bounded : s.pmm.maxPhysAddr ≤ 0x100000000
  outstanding : ∀ p, Outstanding s.ledger p → ∀ c, p ∉ lists c

namespace State.Inv

variable {s : State} {lists : Cpu → List UInt64}

theorem sound (h : s.Inv lists) : s.Sound := by
  refine ⟨lists, h.agree.freeLists.chain, h.agree.freeLists.nodup, h.agree.freeLists.disjoint,
    h.agree.marked, h.agree.freeLists.toNat_count, ?_⟩
  intro cpu hne hout
  rcases allocFrame_spec s.pmm cpu with hnull | ⟨v, hhead, hpop⟩
  · rw [hnull] at hne
    exact hne rfl
  · rw [hpop] at hout
    obtain ⟨rest, hcons⟩ := h.agree.exists_cons hhead
    apply h.outstanding _ hout v
    rw [hcons]
    exact List.mem_cons_self ..

theorem allocFrame (h : s.Inv lists) (cpu : Cpu) : ∃ lists', (s.allocFrame cpu).Inv lists' := by
  unfold State.allocFrame
  rcases allocFrame_spec s.pmm cpu with hnull | ⟨v, hhead, hpop⟩
  · rw [hnull]
    exact ⟨lists, h⟩
  · obtain ⟨rest, hcons⟩ := h.agree.exists_cons hhead
    rw [hpop]
    unfold popped
    dsimp only
    rw [if_neg hhead]
    refine ⟨Function.update lists v rest, h.agree.pop hcons, ?_, ?_⟩
    · rw [maxPhysAddr_markUsed, maxPhysAddr_popFrame]
      exact h.bounded
    · rintro p ⟨howner, hfrees⟩ c hc
      by_cases hp : unpackPhys (s.pmm.shards v).headFrame = p
      · rw [hp] at hcons
        exact h.agree.freeLists.not_mem_pop hcons c hc
      · rw [Ledger.owner_handed_of_ne hp] at howner
        rw [Ledger.frees_handed_of_ne hp] at hfrees
        exact h.outstanding p ⟨howner, hfrees⟩ c (mem_of_mem_update hcons hc)

theorem freeFrame (h : s.Inv lists) (cpu : Cpu) (page : UInt64) :
    ∃ lists', (s.freeFrame cpu page).Inv lists' := by
  have hout : ∀ p, Outstanding (.freed page :: s.ledger) p → p ≠ page ∧ Outstanding s.ledger p := by
    rintro p ⟨howner, hfrees⟩
    have hne : p ≠ page := by
      rintro rfl
      rw [Ledger.frees_freed_self] at hfrees
      omega
    rw [Ledger.owner_freed] at howner
    rw [Ledger.frees_freed_of_ne (Ne.symm hne)] at hfrees
    exact ⟨hne, howner, hfrees⟩
  unfold State.freeFrame
  rcases freeFrame_spec s.pmm cpu page with hsame | ⟨hzero, haligned, hlt, hused, hpush⟩
  · rw [hsame]
    exact ⟨lists, h.agree, h.bounded, fun p hp => h.outstanding p (hout p hp).2⟩
  · have hnot : ∀ c, page ∉ lists c := by
      intro c hc
      have hmarked := (h.agree.marked page haligned).mpr ⟨c, hc⟩
      rw [hused] at hmarked
      exact Bool.false_ne_true hmarked
    have hlow : LowPage page := by
      have hlt' := UInt64.lt_iff_toNat_lt.mp hlt
      have hmax := UInt64.le_iff_toNat_le.mp h.bounded
      have hgib : (0x100000000 : UInt64).toNat = 2 ^ 32 := rfl
      exact ⟨haligned, by omega⟩
    rw [hpush]
    refine ⟨_, h.agree.push cpu hlow hzero hnot, ?_, ?_⟩
    · rw [maxPhysAddr_pushFrame, maxPhysAddr_markFree]
      exact h.bounded
    · intro p hp c hc
      obtain ⟨hne, hold⟩ := hout p hp
      by_cases heq : c = cpu
      · subst heq
        rw [Function.update_self] at hc
        exact h.outstanding p hold c ((List.mem_cons.mp hc).resolve_left hne)
      · rw [Function.update_of_ne heq] at hc
        exact h.outstanding p hold c hc

theorem bulkFreeLoop (cpu : Cpu) (frames : UInt64) (n : Nat) (i : UInt64) {s : State}
    {lists : Cpu → List UInt64} (h : s.Inv lists) :
    ∃ lists', (s.bulkFreeLoop cpu frames n i).Inv lists' := by
  induction n generalizing i s lists with
  | zero => exact ⟨lists, h⟩
  | succ n ih =>
    unfold State.bulkFreeLoop
    dsimp only
    split_ifs
    · obtain ⟨lists₁, h₁⟩ := h.freeFrame cpu (s.pmm.mem.read64 (frames + 8 * i))
      exact ih (i + 1) h₁
    · exact ih (i + 1) h

end State.Inv

/-- **Every call keeps the lists, the counts and the bitmap together.** -/
theorem exists_inv_exec {s : State} (h : ∃ lists, s.Inv lists) (op : Op) :
    ∃ lists, (s.exec op).Inv lists := by
  obtain ⟨lists, h⟩ := h
  cases op with
  | allocFrame cpu => exact h.allocFrame cpu
  | freeFrame cpu page => exact h.freeFrame cpu page
  | bulkFree cpu frames count => exact State.Inv.bulkFreeLoop cpu frames count.toNat 0 h

theorem inv_initGlobals (mem : Mem) (cpus : UInt64) :
    Inv (initCpuCount (initGlobals mem) cpus) fun _ => [] := by
  have hzero : Inv (initGlobals mem) fun _ => [] := by
    constructor
    · constructor
      · intro c
        change unpackPhys 0 = 0
        decide
      · intro c
        exact List.nodup_nil
      · intro c
        rfl
      · intro c d _ p hp
        cases hp
      · intro c p hp
        cases hp
    · intro p _
      rw [checkDoubleFree_iff]
      simp [initGlobals]
    · intro c p hp
      cases hp
  unfold initCpuCount
  split_ifs
  · exact hzero.congr rfl rfl rfl
  · exact hzero

end Keuos.Pmm.Sharded
