import Keuos.Slab.Defs
import Keuos.Paging.Equiv.Tables

/-!
# The free list of a cache

`Cache m reg base size pages free`: the cache with the descriptor at `base`, in the registry page `reg`,
has objects of `size` bytes in slots of the pages `pages`, and the links from its head visit the slots
`free`.  A page has room for `perPage size` slots, and different slots have no byte in common, so that
a store into an object of one leaves the links of the others (`Cache.congr`).

`alloc_spec` says what `alloc` does: it takes the first free slot, or carves a new page when there is
none, and all its stores go to the pages of the cache.
-/

namespace Keuos.Slab

open Pmm (physToVirt)
open Paging

/-! ### Slots -/

/-- The sizes that `create_cache` makes of a request of at most 4088 bytes. -/
structure ObjSize (size : Nat) : Prop where
  words : size % 8 = 0
  pos : 0 < size
  le : size ≤ 4088

/-- `objects_per_page`. -/
def perPage (size : Nat) : Nat :=
  4096 / (size + 8)

/-- The address of slot `i` in a page. -/
def slot (page : UInt64) (size i : Nat) : UInt64 :=
  page + UInt64.ofNat ((size + 8) * i)

/-- The links from `h` on visit the slots of the list and end in the null pointer. -/
def Links (m : Mem) : UInt64 → List UInt64 → Prop
  | h, [] => h = 0
  | h, p :: l => h = p ∧ p ≠ 0 ∧ Links m (m.read64 p) l

theorem Links.congr {m m' : Mem} {l : List UInt64} {h : UInt64} (hl : Links m h l)
    (hm : ∀ p ∈ l, m'.read64 p = m.read64 p) : Links m' h l := by
  induction l generalizing h with
  | nil => exact hl
  | cons p l ih =>
    obtain ⟨hp, hne, hrest⟩ := hl
    refine ⟨hp, hne, ?_⟩
    rw [hm p (List.mem_cons_self ..)]
    exact ih hrest fun q hq => hm q (List.mem_cons_of_mem _ hq)

theorem Links.unique {m : Mem} {l l' : List UInt64} {h : UInt64} (hl : Links m h l)
    (hl' : Links m h l') : l = l' := by
  induction l generalizing h l' with
  | nil =>
    cases l' with
    | nil => rfl
    | cons p l' => exact absurd (hl'.1.symm.trans hl) hl'.2.1
  | cons p l ih =>
    cases l' with
    | nil => exact absurd (hl.1.symm.trans hl') hl.2.1
    | cons p' l' =>
      obtain rfl : p = p' := hl.1.symm.trans hl'.1
      rw [ih hl.2.2 hl'.2.2]

section Slot

variable {size : Nat}

theorem perPage_pos (hsize : ObjSize size) : 0 < perPage size := by
  have := hsize.le
  unfold perPage
  exact Nat.div_pos (by omega) (by omega)

theorem slot_end_le {i : Nat} (hi : i < perPage size) : (size + 8) * i + (size + 8) ≤ 4096 := by
  have hle : (size + 8) * (i + 1) ≤ (size + 8) * perPage size := Nat.mul_le_mul_left _ hi
  have hmul : (size + 8) * perPage size ≤ 4096 := Nat.mul_div_le 4096 (size + 8)
  rw [Nat.mul_succ] at hle
  exact Nat.le_trans hle hmul

theorem inBlock_slot {page y : UInt64} {i : Nat} (hi : i < perPage size) :
    InBlock (slot page size i) (size + 8) y ↔
      (size + 8) * i ≤ (y - page).toNat ∧ (y - page).toNat < (size + 8) * i + (size + 8) := by
  have hend := slot_end_le hi
  exact inBlock_offset_iff (by omega)

theorem slot_subset {page y : UInt64} {i : Nat} (hi : i < perPage size)
    (hy : InBlock (slot page size i) (size + 8) y) : InBlock page 4096 y := by
  have hend := slot_end_le hi
  have hin := (inBlock_slot hi).mp hy
  unfold InBlock
  omega

theorem slots_disjoint {f f' : UInt64} (hf : PageAligned f) (hf' : PageAligned f') {i i' : Nat}
    (hi : i < perPage size) (hi' : i' < perPage size)
    (hne : slot (physToVirt f) size i ≠ slot (physToVirt f') size i') :
    BlocksDisjoint (slot (physToVirt f) size i) (size + 8) (slot (physToVirt f') size i') (size + 8) := by
  intro y hy hy'
  by_cases hpage : f = f'
  · subst hpage
    have h₁ := (inBlock_slot hi).mp hy
    have h₂ := (inBlock_slot hi').mp hy'
    have hii : i = i' := by
      obtain hlt | heq | hgt := Nat.lt_trichotomy i i'
      · have := Nat.mul_le_mul_left (size + 8) hlt
        rw [Nat.mul_succ] at this
        omega
      · exact heq
      · have := Nat.mul_le_mul_left (size + 8) hgt
        rw [Nat.mul_succ] at this
        omega
    exact hne (by rw [hii])
  · exact pages_disjoint hf hf' hpage y (slot_subset hi hy) (slot_subset hi' hy')

theorem slot_ne_zero {f : UInt64} (hf : PageAligned f) (hne : physToVirt f ≠ 0) {i : Nat}
    (hi : i < perPage size) : slot (physToVirt f) size i ≠ 0 := by
  have hend := slot_end_le hi
  have hpage := hf.physToVirt
  have hlt := (physToVirt f).toNat_lt
  intro hzero
  have hnat := congrArg UInt64.toNat hzero
  have hpos : (physToVirt f).toNat ≠ 0 := fun h => hne (UInt64.toNat_inj.mp h)
  unfold slot at hnat
  rw [UInt64.toNat_add, UInt64.toNat_ofNat', UInt64.toNat_zero, Nat.mod_eq_of_lt (a := (size + 8) * i)
    (by omega), Nat.mod_eq_of_lt (by omega)] at hnat
  omega

theorem slot_inj {f : UInt64} {i j : Nat} (hi : i < perPage size) (hj : j < perPage size)
    (h : slot (physToVirt f) size i = slot (physToVirt f) size j) : i = j := by
  have h₁ := slot_end_le hi
  have h₂ := slot_end_le hj
  have hoff : UInt64.ofNat ((size + 8) * i) = UInt64.ofNat ((size + 8) * j) := by
    unfold slot at h
    grind
  have hnat := congrArg UInt64.toNat hoff
  rw [UInt64.toNat_ofNat', UInt64.toNat_ofNat', Nat.mod_eq_of_lt (by omega),
    Nat.mod_eq_of_lt (by omega)] at hnat
  exact Nat.eq_of_mul_eq_mul_left (by omega) hnat

end Slot

/-! ### The cache -/

structure Cache (m : Mem) (reg base : UInt64) (size : Nat) (pages free : List UInt64) : Prop where
  sizeOk : ObjSize size
  objSize : userObjSize m base = UInt64.ofNat size
  slotSize : slotSize m base = UInt64.ofNat (size + 8)
  links : Links m (freeListHead m base) free
  nodup : free.Nodup
  slots : ∀ p ∈ free, ∃ f ∈ pages, ∃ i < perPage size, p = slot (physToVirt f) size i
  aligned : ∀ f ∈ reg :: pages, PageAligned f
  descriptor : (base - physToVirt reg).toNat + 32 ≤ 4096
  registry : reg ∉ pages

/-- The stores that led from `m` to `m'` went to the pages `frames`. -/
def OnlyPages (m m' : Mem) (frames : List UInt64) : Prop :=
  ∀ y, (∀ f ∈ frames, ¬ InBlock (physToVirt f) 4096 y) → m' y = m y

section Cache

variable {m : Mem} {reg base : UInt64} {size : Nat} {pages free : List UInt64}

theorem Cache.descriptor_subset (h : Cache m reg base size pages free) {y : UInt64}
    (hy : InBlock base 32 y) : InBlock (physToVirt reg) 4096 y := by
  have hle := h.descriptor
  unfold InBlock at hy ⊢
  have hadd : y - physToVirt reg = (y - base) + (base - physToVirt reg) := by grind
  rw [hadd, UInt64.toNat_add]
  omega

theorem word_subset {i : Nat} (hi : i + 8 ≤ 32) {y : UInt64}
    (hy : InBlock (base + UInt64.ofNat i) 8 y) : InBlock base 32 y := by
  have hin := (inBlock_offset_iff (by omega)).mp hy
  unfold InBlock
  omega

theorem word_congr {m' : Mem} (hd : ∀ y, InBlock base 32 y → m' y = m y) {i : Nat}
    (hi : i + 8 ≤ 32) :
    m'.read64 (base + UInt64.ofNat i) = m.read64 (base + UInt64.ofNat i) :=
  Mem.read64_congr fun y hy => hd y (word_subset hi hy)

/-- **What the cache depends on**: its descriptor and the links of the free slots. -/
theorem Cache.congr (h : Cache m reg base size pages free) {m' : Mem}
    (hd : ∀ y, InBlock base 32 y → m' y = m y)
    (hl : ∀ p ∈ free, ∀ y, InBlock p 8 y → m' y = m y) : Cache m' reg base size pages free := by
  have hhead : freeListHead m' base = freeListHead m base := word_congr hd (i := 24) (by omega)
  refine ⟨h.sizeOk, ?_, ?_, ?_, h.nodup, h.slots, h.aligned, h.descriptor, h.registry⟩
  · exact (word_congr hd (i := 8) (by omega)).trans h.objSize
  · exact (word_congr hd (i := 16) (by omega)).trans h.slotSize
  · rw [hhead]
    exact h.links.congr fun p hp => Mem.read64_congr (hl p hp)

theorem Cache.congr_pages (h : Cache m reg base size pages free) {m' : Mem}
    (hm : ∀ f ∈ reg :: pages, ∀ y, InBlock (physToVirt f) 4096 y → m' y = m y) :
    Cache m' reg base size pages free := by
  refine h.congr ?_ ?_
  · intro y hy
    exact hm reg (List.mem_cons_self ..) y (h.descriptor_subset hy)
  · intro p hp y hy
    obtain ⟨f, hf, i, hi, rfl⟩ := h.slots p hp
    exact hm f (List.mem_cons_of_mem _ hf) y
      (slot_subset hi (hy.mono (by have := h.sizeOk.pos; omega)))

theorem Cache.not_descriptor (h : Cache m reg base size pages free) {f y : UInt64} (hf : f ∈ pages)
    {i : Nat} (hi : i < perPage size) (hy : InBlock (slot (physToVirt f) size i) (size + 8) y) :
    ¬ InBlock base 32 y := by
  intro hin
  have hne : f ≠ reg := by
    rintro rfl
    exact h.registry hf
  exact pages_disjoint (h.aligned f (List.mem_cons_of_mem _ hf)) (h.aligned reg (List.mem_cons_self ..))
    hne y (slot_subset hi hy) (h.descriptor_subset hin)

/-- **A store into an object** that is not free leaves the cache alone. -/
theorem Cache.congr_object (h : Cache m reg base size pages free) {m' : Mem} {f : UInt64} (hf : f ∈ pages)
    {i : Nat} (hi : i < perPage size) (hnot : slot (physToVirt f) size i ∉ free)
    (hm : ∀ y, ¬ InBlock (slot (physToVirt f) size i) (size + 8) y → m' y = m y) :
    Cache m' reg base size pages free := by
  refine h.congr ?_ ?_
  · intro y hy
    exact hm y fun hin => h.not_descriptor hf hi hin hy
  · intro p hp y hy
    obtain ⟨f', hf', i', hi', rfl⟩ := h.slots p hp
    refine hm y fun hin => ?_
    have hne : slot (physToVirt f) size i ≠ slot (physToVirt f') size i' := by
      intro heq
      rw [← heq] at hp
      exact hnot hp
    exact slots_disjoint (h.aligned f (List.mem_cons_of_mem _ hf))
      (h.aligned f' (List.mem_cons_of_mem _ hf')) hi hi' hne y hin
      (hy.mono (by have := h.sizeOk.pos; omega))

/-! ### Taking an object -/

theorem word_write_head (m : Mem) (base v : UInt64) {i : Nat} (hi : i + 8 ≤ 24) :
    (m.write64 (base + 24) v).read64 (base + UInt64.ofNat i) = m.read64 (base + UInt64.ofNat i) :=
  Mem.read64_write64_offset (i := 24) (by omega) (by omega) (.inr hi)

theorem Cache.setHead (h : Cache m reg base size pages free) {v : UInt64} {free' : List UInt64}
    (hlinks : Links m v free') (hnodup : free'.Nodup)
    (hslots : ∀ p ∈ free', ∃ f ∈ pages, ∃ i < perPage size, p = slot (physToVirt f) size i) :
    Cache (m.write64 (base + 24) v) reg base size pages free' := by
  refine ⟨h.sizeOk, ?_, ?_, ?_, hnodup, hslots, h.aligned, h.descriptor, h.registry⟩
  · exact (word_write_head m base v (i := 8) (by omega)).trans h.objSize
  · exact (word_write_head m base v (i := 16) (by omega)).trans h.slotSize
  · have hhead : freeListHead (m.write64 (base + 24) v) base = v := Mem.read64_write64_self ..
    rw [hhead]
    refine hlinks.congr fun p hp => Mem.read64_congr fun y hy => ?_
    obtain ⟨f, hf, i, hi, rfl⟩ := hslots p hp
    refine Mem.write64_of_not_mem fun hin => ?_
    exact h.not_descriptor hf hi (hy.mono (by have := h.sizeOk.pos; omega))
      (word_subset (i := 24) (by omega) hin)

theorem Cache.pop {p : UInt64} (h : Cache m reg base size pages (p :: free)) :
    Cache (clearObject (m.write64 (base + 24) (m.read64 p)) p (UInt64.ofNat size)) reg base size pages
      free := by
  obtain ⟨-, -, hlinks⟩ := h.links
  obtain ⟨hnot, hnodup⟩ := List.nodup_cons.mp h.nodup
  have hset := h.setHead hlinks hnodup fun q hq => h.slots q (List.mem_cons_of_mem _ hq)
  obtain ⟨f, hf, i, hi, rfl⟩ := h.slots p (List.mem_cons_self ..)
  refine hset.congr_object hf hi hnot ?_
  intro y hy
  have hle := h.sizeOk.le
  have hwords := h.sizeOk.words
  have hnat : (UInt64.ofNat size).toNat = size := by
    rw [UInt64.toNat_ofNat', Nat.mod_eq_of_lt (by omega)]
  unfold clearObject
  rw [hnat, Mem.fill_apply 0 (by omega), if_neg fun hin => hy (InBlock.mono hin (by omega))]

/-! ### Carving a page -/

/-- `n` slots from slot `i` on. -/
def slotsFrom (page : UInt64) (size : Nat) : Nat → Nat → List UInt64
  | 0, _ => []
  | n + 1, i => slot page size i :: slotsFrom page size n (i + 1)

theorem mem_slotsFrom {page p : UInt64} {n i : Nat} :
    p ∈ slotsFrom page size n i ↔ ∃ j, i ≤ j ∧ j < i + n ∧ p = slot page size j := by
  induction n generalizing i with
  | zero =>
    simp only [slotsFrom, List.not_mem_nil, false_iff]
    rintro ⟨j, hij, hj, -⟩
    omega
  | succ n ih =>
    rw [slotsFrom, List.mem_cons, ih]
    constructor
    · rintro (rfl | ⟨j, hij, hj, rfl⟩)
      · exact ⟨i, Nat.le_refl i, by omega, rfl⟩
      · exact ⟨j, by omega, by omega, rfl⟩
    · rintro ⟨j, hij, hj, rfl⟩
      by_cases heq : j = i
      · exact .inl (by rw [heq])
      · exact .inr ⟨j, by omega, by omega, rfl⟩

theorem nodup_slotsFrom {f : UInt64} {n i : Nat} (hn : i + n ≤ perPage size) :
    (slotsFrom (physToVirt f) size n i).Nodup := by
  induction n generalizing i with
  | zero => exact List.nodup_nil
  | succ n ih =>
    refine List.nodup_cons.mpr ⟨?_, ih (by omega)⟩
    intro hmem
    obtain ⟨j, hij, hj, heq⟩ := mem_slotsFrom.mp hmem
    have := slot_inj (by omega) (by omega) heq
    omega

theorem links_slotsFrom (page : UInt64) {n i : Nat}
    (hne : ∀ j < i + n, slot page size j ≠ 0)
    (hnext : ∀ j, j + 1 < i + n → m.read64 (slot page size j) = slot page size (j + 1))
    (hlast : ∀ j, j + 1 = i + n → m.read64 (slot page size j) = 0) (hpos : 0 < n) :
    Links m (slot page size i) (slotsFrom page size n i) := by
  induction n generalizing i with
  | zero => exact absurd hpos (Nat.lt_irrefl 0)
  | succ n ih =>
    refine ⟨rfl, hne i (by omega), ?_⟩
    cases n with
    | zero => exact hlast i rfl
    | succ n =>
      rw [hnext i (by omega)]
      exact ih (fun j hj => hne j (by omega)) (fun j hj => hnext j (by omega))
        (fun j hj => hlast j (by omega)) (Nat.succ_pos n)

theorem slot_zero (page : UInt64) (size : Nat) : slot page size 0 = page := by
  unfold slot
  rw [Nat.mul_zero]
  exact UInt64.add_zero page

theorem slotsFrom_perPage (hsize : ObjSize size) (page : UInt64) :
    slotsFrom page size (perPage size) 0 = page :: slotsFrom page size (perPage size - 1) 1 := by
  obtain ⟨k, hk⟩ := Nat.exists_eq_succ_of_ne_zero (Nat.pos_iff_ne_zero.mp (perPage_pos hsize))
  rw [hk, slotsFrom, slot_zero]
  rfl

theorem slot_succ (page : UInt64) (size i : Nat) :
    slot page size i + UInt64.ofNat (size + 8) = slot page size (i + 1) := by
  unfold slot
  rw [Nat.mul_succ, UInt64.add_assoc, ← UInt64.ofNat_add]

theorem slot_eq_mul (page : UInt64) (size i : Nat) :
    page + UInt64.ofNat i * UInt64.ofNat (size + 8) = slot page size i := by
  unfold slot
  rw [Nat.mul_comm, UInt64.ofNat_mul]

/-- A word of a slot is apart from another word of it, and from those of another slot. -/
theorem slot_words_apart {i j a b : Nat} (ha : a ≤ size) (hb : b ≤ size)
    (hne : i ≠ j ∨ a + 8 ≤ b ∨ b + 8 ≤ a) :
    (size + 8) * i + a + 8 ≤ (size + 8) * j + b ∨ (size + 8) * j + b + 8 ≤ (size + 8) * i + a := by
  obtain hlt | rfl | hgt := Nat.lt_trichotomy i j
  · have := Nat.mul_le_mul_left (size + 8) hlt
    rw [Nat.mul_succ] at this
    omega
  · have := hne.resolve_left (fun h => h rfl)
    omega
  · have := Nat.mul_le_mul_left (size + 8) hgt
    rw [Nat.mul_succ] at this
    omega

theorem read64_slot_write (page v : UInt64) {i j off : Nat} (hi : i < perPage size)
    (hj : j < perPage size) (hoff : off ≤ size) (hne : i ≠ j ∨ 8 ≤ off) :
    (m.write64 (slot page size i + UInt64.ofNat off) v).read64 (slot page size j) =
      m.read64 (slot page size j) := by
  have hendi := slot_end_le hi
  have hendj := slot_end_le hj
  unfold slot
  rw [UInt64.add_assoc, ← UInt64.ofNat_add]
  refine Mem.read64_write64_offset (by omega) (by omega) ?_
  have hapart := slot_words_apart hoff (Nat.zero_le size) (i := i) (j := j)
    (hne.imp_right fun h => .inr (by omega))
  omega

theorem read64_redzone_write {page v : UInt64} {i j off : Nat} (hi : i < perPage size)
    (hj : j < perPage size) (hoff : off ≤ size) (hne : i ≠ j ∨ off + 8 ≤ size) :
    (m.write64 (slot page size i + UInt64.ofNat off) v).read64 (slot page size j + UInt64.ofNat size) =
      m.read64 (slot page size j + UInt64.ofNat size) := by
  have hendi := slot_end_le hi
  have hendj := slot_end_le hj
  unfold slot
  rw [UInt64.add_assoc, ← UInt64.ofNat_add, UInt64.add_assoc, ← UInt64.ofNat_add]
  refine Mem.read64_write64_offset (by omega) (by omega) ?_
  have hapart := slot_words_apart hoff (Nat.le_refl size) (i := i) (j := j) (hne.imp_right .inl)
  omega

theorem write64_slot_outside {page v y : UInt64} {i off : Nat} (hi : i < perPage size)
    (hoff : off ≤ size) (hy : ¬ InBlock page 4096 y) :
    m.write64 (slot page size i + UInt64.ofNat off) v y = m y := by
  refine Mem.write64_of_not_mem fun hin => hy ?_
  have hend := slot_end_le hi
  unfold slot at hin
  rw [UInt64.add_assoc, ← UInt64.ofNat_add] at hin
  have := (inBlock_offset_iff (by omega)).mp hin
  unfold InBlock
  omega

theorem carve_round (hsize : ObjSize size) (page : UInt64) {i : Nat} (hi : i < perPage size) :
    let m₁ := m.write64 (slot page size i + UInt64.ofNat size) redzoneMagic
    let m₂ := if UInt64.ofNat i < UInt64.ofNat (perPage size) - 1 then
      m₁.write64 (slot page size i) (slot page size (i + 1)) else m₁
    (∀ y, ¬ InBlock page 4096 y → m₂ y = m y) ∧
    ∀ j < perPage size, m₂.read64 (slot page size j) =
      if j = i ∧ i + 1 < perPage size then slot page size (i + 1) else m.read64 (slot page size j) := by
  intro m₁ m₂
  have hper : perPage size ≤ 4096 := Nat.div_le_self ..
  have hpos := hsize.pos
  have hwords := hsize.words
  have hcond : UInt64.ofNat i < UInt64.ofNat (perPage size) - 1 ↔ i + 1 < perPage size := by
    have hone : (1 : UInt64) ≤ UInt64.ofNat (perPage size) := by
      rw [UInt64.le_iff_toNat_le, UInt64.toNat_ofNat', UInt64.toNat_one, Nat.mod_eq_of_lt (by omega)]
      omega
    rw [UInt64.lt_iff_toNat_lt, UInt64.toNat_sub_of_le _ _ hone, UInt64.toNat_ofNat',
      UInt64.toNat_ofNat', UInt64.toNat_one, Nat.mod_eq_of_lt (by omega), Nat.mod_eq_of_lt (by omega)]
    omega
  have hself : slot page size i = slot page size i + UInt64.ofNat 0 := (UInt64.add_zero _).symm
  have hm₁ : ∀ j < perPage size, m₁.read64 (slot page size j) = m.read64 (slot page size j) :=
    fun j hj => read64_slot_write page _ hi hj (Nat.le_refl size) (.inr (by omega))
  by_cases hlast : i + 1 < perPage size
  · have hm₂ : m₂ = m₁.write64 (slot page size i) (slot page size (i + 1)) := if_pos (hcond.mpr hlast)
    rw [hm₂]
    constructor
    · intro y hy
      rw [hself, write64_slot_outside hi (Nat.zero_le size) hy]
      exact write64_slot_outside hi (Nat.le_refl size) hy
    · intro j hj
      by_cases hji : j = i
      · rw [if_pos ⟨hji, hlast⟩, hji]
        exact Mem.read64_write64_self ..
      · rw [if_neg fun h => hji h.1, ← hm₁ j hj]
        have hword := read64_slot_write (m := m₁) page (slot page size (i + 1)) hi hj
          (Nat.zero_le size) (.inl (Ne.symm hji))
        rwa [← hself] at hword
  · have hm₂ : m₂ = m₁ := if_neg fun h => hlast (hcond.mp h)
    rw [hm₂]
    constructor
    · intro y hy
      exact write64_slot_outside hi (Nat.le_refl size) hy
    · intro j hj
      rw [if_neg fun h => hlast h.2]
      exact hm₁ j hj

theorem carveFrom_spec (hsize : ObjSize size) (page : UInt64) {n i : Nat} (hn : i + n = perPage size)
    (m : Mem) :
    ∃ m', carveFrom page (UInt64.ofNat size) (UInt64.ofNat (size + 8)) (UInt64.ofNat (perPage size)) n
        (UInt64.ofNat i) m = m' ∧
      (∀ y, ¬ InBlock page 4096 y → m' y = m y) ∧
      ∀ j < perPage size, m'.read64 (slot page size j) =
        if i ≤ j ∧ j + 1 < perPage size then slot page size (j + 1) else m.read64 (slot page size j) := by
  induction n generalizing i m with
  | zero =>
    refine ⟨m, rfl, fun _ _ => rfl, ?_⟩
    intro j hj
    rw [if_neg (by omega)]
  | succ n ih =>
    obtain ⟨hout, hround⟩ := carve_round (m := m) hsize page (i := i) (by omega)
    have hsucc : UInt64.ofNat i + 1 = UInt64.ofNat (i + 1) := by
      rw [UInt64.ofNat_add]
      rfl
    rw [carveFrom, slot_eq_mul, slot_succ, hsucc]
    obtain ⟨m', heq, hout', hlinks⟩ := ih (i := i + 1) (by omega) _
    refine ⟨m', heq, fun y hy => (hout' y hy).trans (hout y hy), ?_⟩
    intro j hj
    rw [hlinks j hj, hround j hj]
    by_cases hji : j = i
    · subst hji
      rw [if_neg (by omega)]
      simp
    · rw [if_neg (c := j = i ∧ i + 1 < perPage size) fun h => hji h.1]
      congr 1
      simp only [eq_iff_iff]
      omega

theorem objectsPerPage_eq (hsize : ObjSize size) :
    4096 / UInt64.ofNat (size + 8) = UInt64.ofNat (perPage size) := by
  have hle := hsize.le
  have hper : perPage size ≤ 4096 := Nat.div_le_self ..
  rw [← UInt64.toNat_inj, UInt64.toNat_div, UInt64.toNat_ofNat', UInt64.toNat_ofNat',
    Nat.mod_eq_of_lt (a := size + 8) (by omega), Nat.mod_eq_of_lt (by omega)]
  rfl

theorem carve_spec (hsize : ObjSize size) (m : Mem) (page oldHead : UInt64) :
    ∃ m', carve m page (UInt64.ofNat size) (UInt64.ofNat (size + 8)) oldHead = m' ∧
      (∀ y, ¬ InBlock page 4096 y → m' y = m y) ∧
      (∀ j, j + 1 < perPage size → m'.read64 (slot page size j) = slot page size (j + 1)) ∧
      ∀ j, j + 1 = perPage size → m'.read64 (slot page size j) = oldHead := by
  have hpos := perPage_pos hsize
  have hper : perPage size ≤ 4096 := Nat.div_le_self ..
  have hnat : (UInt64.ofNat (perPage size)).toNat = perPage size := by
    rw [UInt64.toNat_ofNat', Nat.mod_eq_of_lt (by omega)]
  obtain ⟨m₁, hcarve, hout, hlinks⟩ := carveFrom_spec hsize page (i := 0) (Nat.zero_add _) m
  have hlast : UInt64.ofNat (perPage size) - 1 = UInt64.ofNat (perPage size - 1) := by
    have hone : (1 : UInt64) ≤ UInt64.ofNat (perPage size) := by
      rw [UInt64.le_iff_toNat_le, hnat]
      exact hpos
    rw [← UInt64.toNat_inj, UInt64.toNat_sub_of_le _ _ hone, hnat, UInt64.toNat_ofNat', UInt64.toNat_one,
      Nat.mod_eq_of_lt (by omega)]
  have hself : slot page size (perPage size - 1) =
    slot page size (perPage size - 1) + UInt64.ofNat 0 := (UInt64.add_zero _).symm
  have hlt : perPage size - 1 < perPage size := by omega
  refine ⟨m₁.write64 (slot page size (perPage size - 1)) oldHead, ?_, ?_, ?_, ?_⟩
  · unfold carve
    dsimp only
    rw [objectsPerPage_eq hsize, hnat, hlast, slot_eq_mul, ← hcarve]
    rfl
  · intro y hy
    rw [hself, write64_slot_outside hlt (Nat.zero_le size) hy]
    exact hout y hy
  · intro j hj
    have hword := read64_slot_write (m := m₁) page oldHead hlt
      (j := j) (by omega) (Nat.zero_le size) (.inl (by omega))
    rw [← hself] at hword
    rw [hword, hlinks j (by omega), if_pos ⟨Nat.zero_le j, hj⟩]
  · intro j hj
    obtain rfl : j = perPage size - 1 := by omega
    exact Mem.read64_write64_self ..

theorem carveFrom_redzones (hsize : ObjSize size) (page : UInt64) {n i : Nat} (hn : i + n = perPage size)
    (m : Mem) {j : Nat} (hj : j < perPage size) :
    (carveFrom page (UInt64.ofNat size) (UInt64.ofNat (size + 8)) (UInt64.ofNat (perPage size)) n
        (UInt64.ofNat i) m).read64 (slot page size j + UInt64.ofNat size) =
      if i ≤ j then redzoneMagic else m.read64 (slot page size j + UInt64.ofNat size) := by
  have hpos := hsize.pos
  have hwords := hsize.words
  induction n generalizing i m with
  | zero =>
    rw [carveFrom, if_neg (by omega)]
  | succ n ih =>
    have hsucc : UInt64.ofNat i + 1 = UInt64.ofNat (i + 1) := by
      rw [UInt64.ofNat_add]
      rfl
    rw [carveFrom, slot_eq_mul, slot_succ, hsucc, ih (i := i + 1) (by omega)]
    -- the link of the slot leaves the redzones
    have hlink : ∀ (m : Mem) (v : UInt64),
        (m.write64 (slot page size i) v).read64 (slot page size j + UInt64.ofNat size) =
          m.read64 (slot page size j + UInt64.ofNat size) := by
      intro m v
      have hself : slot page size i = slot page size i + UInt64.ofNat 0 := (UInt64.add_zero _).symm
      rw [hself]
      exact read64_redzone_write (by omega) hj (Nat.zero_le size) (.inr (by omega))
    have hround : ∀ c : Prop, [Decidable c] → ∀ (m : Mem) (v : UInt64),
        (if c then m.write64 (slot page size i) v else m).read64
            (slot page size j + UInt64.ofNat size) =
          m.read64 (slot page size j + UInt64.ofNat size) := by
      intro c _ m v
      split
      · exact hlink m v
      · rfl
    rw [hround]
    by_cases hji : j = i
    · subst hji
      rw [if_neg (by omega), if_pos (Nat.le_refl j)]
      exact Mem.read64_write64_self ..
    · rw [read64_redzone_write (by omega) hj (Nat.le_refl size) (.inl (Ne.symm hji))]
      congr 1
      simp only [eq_iff_iff]
      omega

theorem carve_redzones (hsize : ObjSize size) (m : Mem) (page oldHead : UInt64) {j : Nat}
    (hj : j < perPage size) :
    (carve m page (UInt64.ofNat size) (UInt64.ofNat (size + 8)) oldHead).read64
      (slot page size j + UInt64.ofNat size) = redzoneMagic := by
  have hpos := hsize.pos
  have hwords := hsize.words
  have hper : perPage size ≤ 4096 := Nat.div_le_self ..
  have hnat : (UInt64.ofNat (perPage size)).toNat = perPage size := by
    rw [UInt64.toNat_ofNat', Nat.mod_eq_of_lt (by omega)]
  have hlast : UInt64.ofNat (perPage size) - 1 = UInt64.ofNat (perPage size - 1) := by
    rw [UInt64.ofNat_sub (perPage_pos hsize)]
    rfl
  have hself : slot page size (perPage size - 1) =
    slot page size (perPage size - 1) + UInt64.ofNat 0 := (UInt64.add_zero _).symm
  have hcarve := carveFrom_redzones hsize page (i := 0) (Nat.zero_add _) m hj
  rw [if_pos (Nat.zero_le j)] at hcarve
  unfold carve
  dsimp only
  rw [objectsPerPage_eq hsize, hnat, hlast, slot_eq_mul, hself]
  exact (read64_redzone_write (by omega) hj (Nat.zero_le size) (.inr (by omega))).trans hcarve

/-! ### `grow_cache` and `alloc` -/

/-- A page that a cache may carve: it is none of its pages, and not mapped at address 0. -/
structure NewPage (reg : UInt64) (pages : List UInt64) (a : UInt64) : Prop where
  ne_zero : a ≠ 0
  aligned : PageAligned a
  mapped : physToVirt a ≠ 0
  registry : a ≠ reg
  new : a ∉ pages

theorem growCache_carved (h : Cache m reg base size pages []) {a : UInt64} (answers : List UInt64)
    (hne : a ≠ 0) (haligned : PageAligned a) (hregistry : a ≠ reg) :
    ∃ m₁, growCache ⟨m, a :: answers⟩ base = (true, ⟨m₁.write64 (base + 24) (physToVirt a), answers⟩) ∧
      Cache m₁ reg base size (a :: pages) [] ∧
      (∀ y, ¬ InBlock (physToVirt a) 4096 y → m₁ y = m y) ∧
      (∀ j, j + 1 < perPage size →
        m₁.read64 (slot (physToVirt a) size j) = slot (physToVirt a) size (j + 1)) ∧
      (∀ j, j + 1 = perPage size → m₁.read64 (slot (physToVirt a) size j) = 0) ∧
      ∀ j < perPage size,
        m₁.read64 (slot (physToVirt a) size j + UInt64.ofNat size) = redzoneMagic := by
  have hhead : freeListHead m base = 0 := h.links
  obtain ⟨m₁, hcarve, hout, hnext, hlast⟩ := carve_spec h.sizeOk m (physToVirt a) 0
  have hdescriptor : ∀ y, InBlock base 32 y → m₁ y = m y := by
    intro y hy
    refine hout y fun hin => ?_
    exact pages_disjoint haligned (h.aligned reg (List.mem_cons_self ..)) hregistry y hin
      (h.descriptor_subset hy)
  have hcache : Cache m₁ reg base size (a :: pages) [] := by
    have hold := h.congr hdescriptor (by simp)
    refine ⟨hold.sizeOk, hold.objSize, hold.slotSize, hold.links, List.nodup_nil, by simp, ?_,
      hold.descriptor, ?_⟩
    · intro f hf
      obtain rfl | hf := List.mem_cons.mp hf
      · exact h.aligned f (List.mem_cons_self ..)
      · obtain rfl | hf := List.mem_cons.mp hf
        · exact haligned
        · exact h.aligned f (List.mem_cons_of_mem _ hf)
    · intro hreg
      obtain heq | hreg := List.mem_cons.mp hreg
      · exact hregistry heq.symm
      · exact h.registry hreg
  refine ⟨m₁, ?_, hcache, hout, hnext, hlast, ?_⟩
  · unfold growCache
    dsimp only [Vm.alloc]
    rw [if_neg (by simpa using hne), h.objSize, h.slotSize, hhead, hcarve]
  · intro j hj
    rw [← hcarve]
    exact carve_redzones h.sizeOk m _ 0 hj

/-- **`grow_cache`** of a cache without free slots. -/
theorem growCache_spec (h : Cache m reg base size pages []) {a : UInt64} (answers : List UInt64)
    (ha : NewPage reg pages a) :
    ∃ m', growCache ⟨m, a :: answers⟩ base = (true, ⟨m', answers⟩) ∧
      Cache m' reg base size (a :: pages) (slotsFrom (physToVirt a) size (perPage size) 0) ∧
      OnlyPages m m' (a :: reg :: pages) := by
  obtain ⟨m₁, hgrow, hcache, hout, hnext, hlast, -⟩ :=
    growCache_carved h answers ha.ne_zero ha.aligned ha.registry
  have hlinks : Links m₁ (physToVirt a) (slotsFrom (physToVirt a) size (perPage size) 0) := by
    have hall := links_slotsFrom (m := m₁) (physToVirt a) (n := perPage size) (i := 0)
      (fun j hj => slot_ne_zero ha.aligned ha.mapped (by omega))
      (fun j hj => hnext j (by omega)) (fun j hj => hlast j (by omega)) (perPage_pos h.sizeOk)
    rwa [slot_zero] at hall
  refine ⟨m₁.write64 (base + 24) (physToVirt a), hgrow, ?_, ?_⟩
  · refine hcache.setHead hlinks (nodup_slotsFrom (by omega)) ?_
    intro p hp
    obtain ⟨j, -, hj, rfl⟩ := mem_slotsFrom.mp hp
    exact ⟨a, List.mem_cons_self .., j, by omega, rfl⟩
  · intro y hy
    have hnot : ¬ InBlock (base + 24) 8 y := by
      intro hin
      exact hy reg (by simp) (h.descriptor_subset (word_subset (i := 24) (by omega) hin))
    rw [Mem.write64_of_not_mem hnot]
    exact hout y (hy a (List.mem_cons_self ..))

theorem allocFrom_pop {p : UInt64} (h : Cache m reg base size pages (p :: free)) (n : Nat)
    (answers : List UInt64) :
    ∃ m', allocFrom base (UInt64.ofNat size) (n + 1) ⟨m, answers⟩ = (p, ⟨m', answers⟩) ∧
      Cache m' reg base size pages free ∧ OnlyPages m m' (reg :: pages) := by
  obtain ⟨hhead, hne, -⟩ := h.links
  refine ⟨_, ?_, h.pop, ?_⟩
  · rw [allocFrom]
    dsimp only
    rw [hhead, if_neg (by simpa using hne)]
  · intro y hy
    obtain ⟨f, hf, i, hi, rfl⟩ := h.slots p (List.mem_cons_self ..)
    have hle := h.sizeOk.le
    have hwords := h.sizeOk.words
    have hnat : (UInt64.ofNat size).toNat = size := by
      rw [UInt64.toNat_ofNat', Nat.mod_eq_of_lt (by omega)]
    have hobj : ¬ InBlock (slot (physToVirt f) size i) ((size + 7) / 8 * 8) y := by
      intro hin
      exact hy f (List.mem_cons_of_mem _ hf) (slot_subset hi (hin.mono (by omega)))
    have hword : ¬ InBlock (base + 24) 8 y := by
      intro hin
      exact hy reg (List.mem_cons_self ..) (h.descriptor_subset (word_subset (i := 24) (by omega) hin))
    unfold clearObject
    rw [hnat, Mem.fill_apply 0 (by omega), if_neg hobj, Mem.write64_of_not_mem hword]

theorem allocFrom_none (h : Cache m reg base size pages []) {answers rest : List UInt64}
    (hnone : Vm.alloc ⟨m, answers⟩ = (0, ⟨m, rest⟩)) (objSize : UInt64) (n : Nat) :
    allocFrom base objSize (n + 1) ⟨m, answers⟩ = (0, ⟨m, rest⟩) := by
  have hhead : freeListHead m base = 0 := h.links
  have hgrow : growCache ⟨m, answers⟩ base = (false, ⟨m, rest⟩) := by
    unfold growCache
    dsimp only
    rw [hnone, if_pos (beq_self_eq_true _)]
  rw [allocFrom]
  dsimp only
  rw [hhead, if_pos (beq_self_eq_true _), hgrow, if_pos (by simp)]

theorem allocFrom_grow (h : Cache m reg base size pages []) {vm vm' : Vm} (hmem : vm.mem = m)
    (hgrow : growCache vm base = (true, vm')) (objSize : UInt64) (n : Nat) :
    allocFrom base objSize (n + 1) vm = allocFrom base objSize n vm' := by
  have hhead : freeListHead vm.mem base = 0 := by
    rw [hmem]
    exact h.links
  rw [allocFrom]
  dsimp only
  rw [hhead, if_pos (beq_self_eq_true _), hgrow, if_neg (by simp)]

/-- **`alloc`** takes the first free slot. -/
theorem alloc_of_free {p : UInt64} (h : Cache m reg base size pages (p :: free))
    (answers : List UInt64) :
    ∃ m', alloc base ⟨m, answers⟩ = (p, ⟨m', answers⟩) ∧ Cache m' reg base size pages free ∧
      OnlyPages m m' (reg :: pages) := by
  unfold alloc
  rw [h.objSize]
  exact allocFrom_pop h _ answers

/-- **`alloc`** takes the first slot of a new page when no slot is free. -/
theorem alloc_of_grow (h : Cache m reg base size pages []) {a : UInt64} (answers : List UInt64)
    (ha : NewPage reg pages a) :
    ∃ m', alloc base ⟨m, a :: answers⟩ = (physToVirt a, ⟨m', answers⟩) ∧
      Cache m' reg base size (a :: pages) (slotsFrom (physToVirt a) size (perPage size - 1) 1) ∧
      OnlyPages m m' (a :: reg :: pages) := by
  obtain ⟨m₁, hgrow, hcache, honly⟩ := growCache_spec h answers ha
  rw [slotsFrom_perPage h.sizeOk] at hcache
  obtain ⟨m₂, hpop, hcache₂, honly₂⟩ := allocFrom_pop hcache (answers.length + 1) answers
  refine ⟨m₂, ?_, hcache₂, ?_⟩
  · unfold alloc
    rw [h.objSize, List.length_cons, allocFrom_grow h rfl hgrow]
    exact hpop
  · intro y hy
    rw [honly₂ y]
    · exact honly y hy
    · intro f hf
      obtain rfl | hf := List.mem_cons.mp hf
      · exact hy f (by simp)
      · obtain rfl | hf := List.mem_cons.mp hf
        · exact hy f (List.mem_cons_self ..)
        · exact hy f (by simp [hf])

/-- **`alloc`** fails when no slot is free and `pmm.alloc` fails. -/
theorem alloc_of_none (h : Cache m reg base size pages []) {answers rest : List UInt64}
    (hnone : Vm.alloc ⟨m, answers⟩ = (0, ⟨m, rest⟩)) : alloc base ⟨m, answers⟩ = (0, ⟨m, rest⟩) := by
  unfold alloc
  exact allocFrom_none h hnone _ _

theorem createCache_of_not_mem (m : Mem) {base requestedSize y : UInt64} (hnot : ¬ InBlock base 32 y) :
    createCache m base requestedSize y = m y := by
  have hstore : ∀ (m : Mem) (v : UInt64) {i : Nat}, i + 8 ≤ 32 →
      m.write64 (base + UInt64.ofNat i) v y = m y :=
    fun m v i hi => Mem.write64_of_not_mem fun hin => hnot (word_subset hi hin)
  have hfirst : m.write64 base 1 y = m y :=
    Mem.write64_of_not_mem fun hin => hnot (hin.mono (by omega))
  exact (hstore _ _ (i := 24) (by omega)).trans ((hstore _ _ (i := 16) (by omega)).trans
    ((hstore _ _ (i := 8) (by omega)).trans hfirst))

/-- **`create_cache`** makes an empty cache. -/
theorem Cache.create (m : Mem) {reg base requestedSize : UInt64} (hreg : PageAligned reg)
    (hdescriptor : (base - physToVirt reg).toNat + 32 ≤ 4096) (hpos : 1 ≤ requestedSize.toNat)
    (hle : requestedSize.toNat ≤ 4088) :
    Cache (createCache m base requestedSize) reg base ((requestedSize.toNat + 7) / 8 * 8) [] [] ∧
      OnlyPages m (createCache m base requestedSize) [reg] := by
  have hsize : (requestedSize + 7) &&& 0xFFFFFFFFFFFFFFF8 =
      UInt64.ofNat ((requestedSize.toNat + 7) / 8 * 8) := by
    rw [← UInt64.toNat_inj, UInt64.toNat_and,
      show (0xFFFFFFFFFFFFFFF8 : UInt64).toNat = 2 ^ 64 - 2 ^ 3 from rfl,
      and_highBits (by decide) (requestedSize + 7).toNat_lt, UInt64.toNat_add,
      show (7 : UInt64).toNat = 7 from rfl, UInt64.toNat_ofNat', Nat.mod_eq_of_lt (by omega),
      Nat.mod_eq_of_lt (by omega)]
    rfl
  have hword : ∀ (m : Mem) (v : UInt64) {i j : Nat}, i + 8 ≤ 32 → j + 8 ≤ 32 → i + 8 ≤ j ∨ j + 8 ≤ i →
      (m.write64 (base + UInt64.ofNat i) v).read64 (base + UInt64.ofNat j) =
        m.read64 (base + UInt64.ofNat j) :=
    fun m v i j hi hj hij => Mem.read64_write64_offset (by omega) (by omega) hij
  constructor
  · refine ⟨⟨by omega, by omega, by omega⟩, ?_, ?_, ?_, List.nodup_nil, by simp, ?_, hdescriptor, by simp⟩
    · refine (hword _ 0 (i := 24) (j := 8) (by omega) (by omega) (by omega)).trans ?_
      refine (hword _ _ (i := 16) (j := 8) (by omega) (by omega) (by omega)).trans ?_
      rw [hsize]
      exact Mem.read64_write64_self ..
    · refine (hword _ 0 (i := 24) (j := 16) (by omega) (by omega) (by omega)).trans ?_
      rw [hsize, UInt64.ofNat_add]
      exact Mem.read64_write64_self ..
    · exact Mem.read64_write64_self ..
    · intro f hf
      rw [List.mem_singleton.mp hf]
      exact hreg
  · intro y hy
    have hnot : ¬ InBlock base 32 y := by
      intro hin
      refine hy reg (List.mem_singleton.mpr rfl) ?_
      unfold InBlock at hin ⊢
      have hadd : y - physToVirt reg = (y - base) + (base - physToVirt reg) := by grind
      rw [hadd, UInt64.toNat_add]
      omega
    exact createCache_of_not_mem m hnot

end Cache

end Keuos.Slab
