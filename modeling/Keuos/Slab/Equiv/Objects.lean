import Keuos.Lib.Run
import Keuos.Slab.Defs
import Keuos.Slab.Equiv.FreeList

/-!
# The objects of the caches

Every slot of the pages of a cache ends in a redzone word, which neither the callers, who store into their
objects only, nor the caches change after a page has been carved.  The pages of two caches are apart, and an
object in use is in no free list, so an object that `alloc` answers is nobody else's.

`allocated` says what one call of `alloc` does to its cache, and `Intact` is the invariant of all caches.

## Main results

* `exclusive_objects`: in every run, `alloc` answers cleared objects that overlap no object in use, with
  their redzones, or `pmm.alloc` has failed; and `free` does not panic.
-/

namespace Keuos.Slab

open Pmm (physToVirt)
open Paging

/-! ### Redzones -/

/-- The slots of the pages have their redzones. -/
def Redzones (m : Mem) (size : Nat) (pages : List UInt64) : Prop :=
  ∀ f ∈ pages, ∀ i < perPage size,
    m.read64 (slot (physToVirt f) size i + UInt64.ofNat size) = redzoneMagic

section Redzones

variable {m m' : Mem} {size : Nat} {pages : List UInt64}

theorem inBlock_redzone {p y : UInt64} (hsize : ObjSize size)
    (hy : InBlock (p + UInt64.ofNat size) 8 y) : InBlock p (size + 8) y ∧ ¬ InBlock p size y := by
  have hle := hsize.le
  have hin := (inBlock_offset_iff (by omega)).mp hy
  unfold InBlock
  omega

theorem Redzones.congr (h : Redzones m size pages)
    (hm : ∀ f ∈ pages, ∀ i < perPage size, ∀ y,
      InBlock (slot (physToVirt f) size i + UInt64.ofNat size) 8 y → m' y = m y) :
    Redzones m' size pages := by
  intro f hf i hi
  rw [Mem.read64_congr (hm f hf i hi)]
  exact h f hf i hi

end Redzones

theorem inBlock_self (a : UInt64) {n : Nat} (hn : 0 < n) : InBlock a n a := by
  unfold InBlock
  rw [UInt64.sub_self]
  exact hn

/-! ### One call of `alloc` -/

/-- The pages that `pmm.alloc` may answer: pages that are in use nowhere in the cache. -/
structure Stock (reg : UInt64) (pages answers : List UInt64) : Prop where
  nodup : (answers.filter (· != 0)).Nodup
  page : ∀ a ∈ answers, a ≠ 0 → PageAligned a ∧ a ≠ reg ∧ a ∉ pages

/-- `pmm.alloc` answers 0, at once or after the page whose virtual address is 0. -/
def Refused : List UInt64 → Prop
  | [] => True
  | a :: answers => a = 0 ∨ physToVirt a = 0 ∧ Refused answers

/-- A call of `alloc` has obtained the pages `new` and answers `p`; `free'` are the free slots then. -/
structure Allocated (m : Mem) (reg base : UInt64) (size : Nat) (pages free new : List UInt64)
    (p : UInt64) (m' : Mem) (free' : List UInt64) : Prop where
  cache : Cache m' reg base size (new ++ pages) free'
  redzones : Redzones m' size (new ++ pages)
  free_subset : ∀ q ∈ free', q ∈ free ∨ ∃ f ∈ new, ∃ i < perPage size, q = slot (physToVirt f) size i
  taken : p ≠ 0 → p ∉ free' ∧
    (p ∈ free ∨ ∃ f ∈ new, ∃ i < perPage size, p = slot (physToVirt f) size i)
  cleared : p ≠ 0 → ∀ y, InBlock p size y → m' y = 0
  frame : ∀ y, ¬ InBlock (base + 24) 8 y → (∀ f ∈ new, ¬ InBlock (physToVirt f) 4096 y) →
    ¬ (p ≠ 0 ∧ InBlock p size y) → m' y = m y

section Alloc

variable {m : Mem} {reg base : UInt64} {size : Nat} {pages free : List UInt64}

theorem Cache.of_mem_iff (h : Cache m reg base size pages free) {pages' : List UInt64}
    (hmem : ∀ f, f ∈ pages' ↔ f ∈ pages) : Cache m reg base size pages' free := by
  refine ⟨h.sizeOk, h.objSize, h.slotSize, h.links, h.nodup, ?_, ?_, h.descriptor, ?_⟩
  · intro p hp
    obtain ⟨f, hf, hslot⟩ := h.slots p hp
    exact ⟨f, (hmem f).mpr hf, hslot⟩
  · intro f hf
    obtain rfl | hf := List.mem_cons.mp hf
    · exact h.aligned f (List.mem_cons_self ..)
    · exact h.aligned f (List.mem_cons_of_mem _ ((hmem f).mp hf))
  · exact fun hreg => h.registry ((hmem reg).mp hreg)

theorem clearObject_apply (hsize : ObjSize size) (m : Mem) (p y : UInt64) :
    clearObject m p (UInt64.ofNat size) y = if InBlock p size y then 0 else m y := by
  have hle := hsize.le
  have hwords := hsize.words
  have hnat : (UInt64.ofNat size).toNat = size := by
    rw [UInt64.toNat_ofNat', Nat.mod_eq_of_lt (by omega)]
  have hround : (size + 7) / 8 * 8 = size := by omega
  unfold clearObject
  rw [hnat, hround, Mem.fill_apply 0 (by omega)]

theorem Cache.not_head (h : Cache m reg base size pages free) {f : UInt64} (hf : f ∈ pages) {i : Nat}
    (hi : i < perPage size) {y : UInt64} (hy : InBlock (slot (physToVirt f) size i) (size + 8) y) :
    ¬ InBlock (base + 24) 8 y :=
  fun hin => h.not_descriptor hf hi hy (word_subset (i := 24) (by omega) hin)

/-- **An object** is apart from the redzones. -/
theorem Cache.object_redzone (h : Cache m reg base size pages free) {f g : UInt64} (hf : f ∈ pages)
    (hg : g ∈ pages) {i j : Nat} (hi : i < perPage size) (hj : j < perPage size) {y : UInt64}
    (hobject : InBlock (slot (physToVirt f) size i) size y)
    (hredzone : InBlock (slot (physToVirt g) size j + UInt64.ofNat size) 8 y) : False := by
  obtain ⟨hin, hout⟩ := inBlock_redzone h.sizeOk hredzone
  by_cases heq : slot (physToVirt f) size i = slot (physToVirt g) size j
  · rw [heq] at hobject
    exact hout hobject
  · exact slots_disjoint (h.aligned f (List.mem_cons_of_mem _ hf)) (h.aligned g (List.mem_cons_of_mem _ hg))
      hi hj heq y (hobject.mono (by omega)) hin

theorem allocated_pop {p : UInt64} (h : Cache m reg base size pages (p :: free))
    (hredzones : Redzones m size pages) (n : Nat) (answers : List UInt64) :
    ∃ m', allocFrom base (UInt64.ofNat size) (n + 1) ⟨m, answers⟩ = (p, ⟨m', answers⟩) ∧
      Allocated m reg base size pages (p :: free) [] p m' free := by
  obtain ⟨hhead, hne, -⟩ := h.links
  obtain ⟨f, hf, i, hi, hslot⟩ := h.slots p (List.mem_cons_self ..)
  have happly : ∀ y, clearObject (m.write64 (base + 24) (m.read64 p)) p (UInt64.ofNat size) y =
      if InBlock p size y then 0 else m.write64 (base + 24) (m.read64 p) y :=
    clearObject_apply h.sizeOk _ p
  refine ⟨_, ?_, h.pop, ?_, ?_, ?_, ?_, ?_⟩
  · rw [allocFrom]
    dsimp only
    rw [hhead, if_neg (by simpa using hne)]
  · refine hredzones.congr fun g hg j hj y hy => ?_
    have hobject : ¬ InBlock p size y := by
      intro hin
      rw [hslot] at hin
      exact h.object_redzone hf hg hi hj hin hy
    rw [happly, if_neg hobject, Mem.write64_of_not_mem (h.not_head hg hj (inBlock_redzone h.sizeOk hy).1)]
  · exact fun q hq => .inl (List.mem_cons_of_mem _ hq)
  · exact fun _ => ⟨(List.nodup_cons.mp h.nodup).1, .inl (List.mem_cons_self ..)⟩
  · intro _ y hy
    rw [happly, if_pos hy]
  · intro y hword _ hobject
    rw [happly, if_neg fun hin => hobject ⟨hne, hin⟩, Mem.write64_of_not_mem hword]

theorem allocated_none (h : Cache m reg base size pages []) (hredzones : Redzones m size pages) :
    Allocated m reg base size pages [] [] 0 m [] where
  cache := h
  redzones := hredzones
  free_subset := fun _ hq => absurd hq List.not_mem_nil
  taken := fun hne => absurd rfl hne
  cleared := fun hne => absurd rfl hne
  frame := fun _ _ _ _ => rfl

theorem Allocated.grown {m₂ m' : Mem} {a p : UInt64} {new free' : List UInt64}
    (h : Allocated m₂ reg base size (a :: pages) free new p m' free')
    (hfree : ∀ q ∈ free, ∃ i < perPage size, q = slot (physToVirt a) size i)
    (hm : ∀ y, ¬ InBlock (base + 24) 8 y → ¬ InBlock (physToVirt a) 4096 y → m₂ y = m y) :
    Allocated m reg base size pages [] (a :: new) p m' free' := by
  have hmem : ∀ f, f ∈ a :: new ++ pages ↔ f ∈ new ++ a :: pages := by
    intro f
    simp only [List.cons_append, List.mem_cons, List.mem_append]
    tauto
  have hnew : ∀ q, (q ∈ free ∨ ∃ f ∈ new, ∃ i < perPage size, q = slot (physToVirt f) size i) →
      ∃ f ∈ a :: new, ∃ i < perPage size, q = slot (physToVirt f) size i := by
    rintro q (hq | ⟨f, hf, hslot⟩)
    · exact ⟨a, List.mem_cons_self .., hfree q hq⟩
    · exact ⟨f, List.mem_cons_of_mem _ hf, hslot⟩
  refine ⟨h.cache.of_mem_iff hmem, ?_, ?_, ?_, h.cleared, ?_⟩
  · exact fun f hf => h.redzones f ((hmem f).mp hf)
  · exact fun q hq => .inr (hnew q (h.free_subset q hq))
  · exact fun hne => ⟨(h.taken hne).1, .inr (hnew p (h.taken hne).2)⟩
  · intro y hword hpages hobject
    rw [h.frame y hword (fun f hf => hpages f (List.mem_cons_of_mem _ hf)) hobject]
    exact hm y hword (hpages a (List.mem_cons_self ..))

theorem redzones_carved {m₁ : Mem} {a v : UInt64} (h : Cache m₁ reg base size (a :: pages) free)
    (hredzones : Redzones m size pages) (hnew : a ∉ pages)
    (hout : ∀ y, ¬ InBlock (physToVirt a) 4096 y → m₁ y = m y)
    (hcarved : ∀ j < perPage size,
      m₁.read64 (slot (physToVirt a) size j + UInt64.ofNat size) = redzoneMagic) :
    Redzones (m₁.write64 (base + 24) v) size (a :: pages) := by
  have hbefore : Redzones m₁ size (a :: pages) := by
    intro f hf i hi
    obtain rfl | hold := List.mem_cons.mp hf
    · exact hcarved i hi
    · rw [Mem.read64_congr fun y hy => hout y fun hin => ?_]
      · exact hredzones f hold i hi
      · have hne : f ≠ a := by
          rintro rfl
          exact hnew hold
        exact pages_disjoint (h.aligned f (List.mem_cons_of_mem _ hf)) (h.aligned a (by simp)) hne y
          (slot_subset hi (inBlock_redzone h.sizeOk hy).1) hin
  refine hbefore.congr fun g hg i hi y hy => ?_
  exact Mem.write64_of_not_mem (h.not_head hg hi (inBlock_redzone h.sizeOk hy).1)

theorem Stock.tail {a : UInt64} {answers : List UInt64} (h : Stock reg pages (a :: answers)) (ha : a ≠ 0) :
    Stock reg (a :: pages) answers := by
  have hnodup := h.nodup
  rw [List.filter_cons_of_pos (p := (· != 0)) (bne_iff_ne.mpr ha), List.nodup_cons] at hnodup
  refine ⟨hnodup.2, ?_⟩
  intro b hb hne
  obtain ⟨haligned, hregistry, hpages⟩ := h.page b (List.mem_cons_of_mem _ hb) hne
  refine ⟨haligned, hregistry, ?_⟩
  intro hmem
  obtain rfl | hmem := List.mem_cons.mp hmem
  · exact hnodup.1 (List.mem_filter.mpr ⟨hb, bne_iff_ne.mpr hne⟩)
  · exact hpages hmem

theorem allocated_grow {answers : List UInt64} (h : Cache m reg base size pages [])
    (hredzones : Redzones m size pages) (hstock : Stock reg pages answers) {n : Nat}
    (hn : answers.length + 2 ≤ n) :
    ∃ p m' taken rest free', answers = taken ++ rest ∧
      allocFrom base (UInt64.ofNat size) n ⟨m, answers⟩ = (p, ⟨m', rest⟩) ∧
      Allocated m reg base size pages [] (taken.filter (· != 0)) p m' free' ∧
      (p = 0 → Refused answers) := by
  induction answers generalizing m pages n with
  | nil =>
    obtain ⟨k, rfl⟩ := Nat.exists_eq_add_of_le' (show 1 ≤ n by omega)
    exact ⟨0, m, [], [], [], rfl, allocFrom_none h rfl _ k, allocated_none h hredzones, fun _ => trivial⟩
  | cons a answers ih =>
    rw [List.length_cons] at hn
    obtain ⟨k, rfl⟩ := Nat.exists_eq_add_of_le' (show 1 ≤ n by omega)
    by_cases ha : a = 0
    · subst ha
      exact ⟨0, m, [0], answers, [], rfl, allocFrom_none h rfl _ k, allocated_none h hredzones,
        fun _ => .inl rfl⟩
    · obtain ⟨haligned, hregistry, hnew⟩ := hstock.page a (List.mem_cons_self ..) ha
      obtain ⟨m₁, hgrow, hcache, hout, hnext, hlast, hcarved⟩ :=
        growCache_carved h answers ha haligned hregistry
      have hredzones₂ := redzones_carved (v := physToVirt a) hcache hredzones hnew hout hcarved
      have hframe : ∀ y, ¬ InBlock (base + 24) 8 y → ¬ InBlock (physToVirt a) 4096 y →
          m₁.write64 (base + 24) (physToVirt a) y = m y := by
        intro y hword hpage
        rw [Mem.write64_of_not_mem hword]
        exact hout y hpage
      rw [allocFrom_grow h rfl hgrow]
      by_cases hmapped : physToVirt a = 0
      · -- the slots of the page at address 0 are lost
        have hempty : Cache (m₁.write64 (base + 24) (physToVirt a)) reg base size (a :: pages) [] :=
          hcache.setHead hmapped List.nodup_nil (by simp)
        obtain ⟨p, m', taken, rest, free', rfl, halloc, hallocated, hrefused⟩ :=
          ih hempty hredzones₂ (hstock.tail ha) (n := k) (by omega)
        refine ⟨p, m', a :: taken, rest, free', rfl, halloc, ?_, fun hp => .inr ⟨hmapped, hrefused hp⟩⟩
        rw [List.filter_cons_of_pos (p := (· != 0)) (bne_iff_ne.mpr ha)]
        exact hallocated.grown (by simp) hframe
      · have hpage : NewPage reg pages a := ⟨ha, haligned, hmapped, hregistry, hnew⟩
        obtain ⟨m₂, hgrow₂, hfull, -⟩ := growCache_spec h _ hpage
        obtain rfl : m₁.write64 (base + 24) (physToVirt a) = m₂ := by
          have heq := hgrow.symm.trans hgrow₂
          injection heq with _ hvm
          injection hvm
        obtain ⟨j, rfl⟩ := Nat.exists_eq_add_of_le' (show 1 ≤ k by omega)
        have hslots : ∀ q ∈ slotsFrom (physToVirt a) size (perPage size) 0,
            ∃ i < perPage size, q = slot (physToVirt a) size i := by
          intro q hq
          obtain ⟨i, -, hi, rfl⟩ := mem_slotsFrom.mp hq
          exact ⟨i, by omega, rfl⟩
        rw [slotsFrom_perPage h.sizeOk] at hfull hslots
        obtain ⟨m', halloc, hallocated⟩ := allocated_pop hfull hredzones₂ j answers
        refine ⟨physToVirt a, m', [a], answers, slotsFrom (physToVirt a) size (perPage size - 1) 1, rfl,
          halloc, ?_, fun hp => absurd hp hmapped⟩
        rw [List.filter_cons_of_pos (p := (· != 0)) (bne_iff_ne.mpr ha)]
        exact hallocated.grown hslots hframe

/-- **`alloc`** takes a free slot, grows the cache, or `pmm.alloc` fails. -/
theorem allocated {answers : List UInt64} (h : Cache m reg base size pages free)
    (hredzones : Redzones m size pages) (hstock : Stock reg pages answers) :
    ∃ p m' taken rest free', answers = taken ++ rest ∧
      alloc base ⟨m, answers⟩ = (p, ⟨m', rest⟩) ∧
      Allocated m reg base size pages free (taken.filter (· != 0)) p m' free' ∧
      (p = 0 → Refused answers) := by
  unfold alloc
  rw [h.objSize]
  cases free with
  | nil => exact allocated_grow h hredzones hstock (Nat.le_refl _)
  | cons p free =>
    obtain ⟨m', halloc, hallocated⟩ := allocated_pop h hredzones (answers.length + 1) answers
    obtain ⟨-, hne, -⟩ := h.links
    exact ⟨p, m', [], answers, free, rfl, halloc, hallocated, fun hp => absurd hp hne⟩

end Alloc

/-! ### The caches -/

/-- The object sizes, the pages and the free slots of the caches. -/
structure Layout where
  size : UInt64 → Nat
  pages : UInt64 → List UInt64
  free : UInt64 → List UInt64

/-- **The invariant.** The caches are well formed, with their redzones, the pages of two caches are apart, and
an object in use is a slot that is not free. -/
structure Intact (s : Caches) (l : Layout) : Prop where
  registry : PageAligned s.registry
  few : s.nextCacheId ≤ maxCaches
  cache : ∀ c < s.nextCacheId,
    Cache s.mem s.registry (cacheBase (physToVirt s.registry) c) (l.size c) (l.pages c) (l.free c)
  redzones : ∀ c < s.nextCacheId, Redzones s.mem (l.size c) (l.pages c)
  apart : ∀ c < s.nextCacheId, ∀ d < s.nextCacheId, ∀ f, f ∈ l.pages c → f ∈ l.pages d → c = d
  known : ∀ c < s.nextCacheId, ∀ f ∈ l.pages c, f ∈ s.pages
  live : ∀ o ∈ s.live, o.1 < s.nextCacheId ∧ o.2 ∉ l.free o.1 ∧
    ∃ f ∈ l.pages o.1, ∃ i < perPage (l.size o.1), o.2 = slot (physToVirt f) (l.size o.1) i

/-- The calls that the callers make: at most 16 caches of objects of 1 to 4088 bytes, `alloc` in a cache that
exists, where `pmm.alloc` answers pages that are not in use, `free` of an object in use in its own cache, and
stores into one's own objects or outside of the pages of the caches. -/
def Careful (s : Caches) : CacheOp → Prop
  | .create requestedSize => s.nextCacheId < maxCaches ∧ 1 ≤ requestedSize ∧ requestedSize ≤ 4088
  | .alloc cacheId answers => cacheId < s.nextCacheId ∧ Stock s.registry s.pages answers
  | .free cacheId ptr => ptr = 0 ∨ (cacheId, ptr) ∈ s.live
  | .store mem => ∀ y, mem y ≠ s.mem y →
    (∃ o ∈ s.live, InBlock o.2 (s.objSize o.1).toNat y) ∨
      ¬ InBlock (physToVirt s.registry) 4096 y ∧ ∀ f ∈ s.pages, ¬ InBlock (physToVirt f) 4096 y

/-- An object that `alloc` answers lies in a page of `pmm`, is cleared, overlaps no object in use and is
followed by its redzone. -/
structure CleanObject (s : Caches) (cacheId obj : UInt64) (s' : Caches) : Prop where
  inPage : ∃ f ∈ s'.pages, (obj - physToVirt f).toNat + (s.objSize cacheId).toNat ≤ 4096
  cleared : ∀ y, InBlock obj (s.objSize cacheId).toNat y → s'.mem y = 0
  apart : ∀ o ∈ s.live,
    BlocksDisjoint obj (s.objSize cacheId).toNat o.2 (s.objSize o.1).toNat
  redzone : s'.mem.read64 (obj + s.objSize cacheId) = redzoneMagic

/-- **The law of the caches.** -/
structure Exclusive (s : Caches) : Prop where
  alloc : ∀ {cacheId obj : UInt64} {answers : List UInt64} {s' : Caches},
    Careful s (.alloc cacheId answers) → s.alloc cacheId answers = (obj, s') → obj ≠ 0 →
    CleanObject s cacheId obj s'
  refused : ∀ {cacheId : UInt64} {answers : List UInt64} {s' : Caches},
    Careful s (.alloc cacheId answers) → s.alloc cacheId answers = (0, s') → Refused answers
  free : ∀ o ∈ s.live, s.free o.1 o.2 ≠ none

section Descriptors

variable {reg c d y : UInt64}

theorem cacheBase_eq (reg : UInt64) {c : UInt64} (hc : c < maxCaches) :
    cacheBase (physToVirt reg) c = physToVirt reg + UInt64.ofNat (c.toNat * 32) := by
  have hlt : c.toNat < 16 := hc
  unfold cacheBase cacheStride
  rw [UInt64.ofNat_mul, UInt64.ofNat_toNat]
  rfl

theorem inBlock_cacheBase (hc : c < maxCaches) : InBlock (cacheBase (physToVirt reg) c) 32 y ↔
    c.toNat * 32 ≤ (y - physToVirt reg).toNat ∧ (y - physToVirt reg).toNat < c.toNat * 32 + 32 := by
  have hlt : c.toNat < 16 := hc
  rw [cacheBase_eq reg hc]
  exact inBlock_offset_iff (by omega)

theorem descriptor_le (hc : c < maxCaches) :
    (cacheBase (physToVirt reg) c - physToVirt reg).toNat + 32 ≤ 4096 := by
  have hlt : c.toNat < 16 := hc
  have hsub : physToVirt reg + UInt64.ofNat (c.toNat * 32) - physToVirt reg =
      UInt64.ofNat (c.toNat * 32) := by grind
  rw [cacheBase_eq reg hc, hsub, UInt64.toNat_ofNat', Nat.mod_eq_of_lt (by omega)]
  omega

theorem descriptors_disjoint (hc : c < maxCaches) (hd : d < maxCaches) (hne : c ≠ d) :
    BlocksDisjoint (cacheBase (physToVirt reg) c) 32 (cacheBase (physToVirt reg) d) 32 := by
  intro y hy hy'
  rw [inBlock_cacheBase hc] at hy
  rw [inBlock_cacheBase hd] at hy'
  exact hne (UInt64.toNat_inj.mp (by omega))

end Descriptors

section Steps

variable {s : Caches} {l : Layout} {c d : UInt64}

theorem Intact.lt_maxCaches (h : Intact s l) (hc : c < s.nextCacheId) : c < maxCaches :=
  UInt64.lt_of_lt_of_le hc h.few

theorem Intact.objSize_eq (h : Intact s l) (hc : c < s.nextCacheId) :
    s.objSize c = UInt64.ofNat (l.size c) ∧ (s.objSize c).toNat = l.size c := by
  have hsize : s.objSize c = UInt64.ofNat (l.size c) := (h.cache c hc).objSize
  have hle := (h.cache c hc).sizeOk.le
  refine ⟨hsize, ?_⟩
  rw [hsize, UInt64.toNat_ofNat', Nat.mod_eq_of_lt (by omega)]

theorem Intact.page (h : Intact s l) (hc : c < s.nextCacheId) {f : UInt64} (hf : f ∈ l.pages c) :
    PageAligned f ∧ f ≠ s.registry := by
  refine ⟨(h.cache c hc).aligned f (List.mem_cons_of_mem _ hf), ?_⟩
  rintro rfl
  exact (h.cache c hc).registry hf

theorem Intact.unchanged (h : Intact s l) (hd : d < s.nextCacheId) {m' : Mem}
    (hdescriptor : ∀ y, InBlock (cacheBase (physToVirt s.registry) d) 32 y → m' y = s.mem y)
    (hpages : ∀ f ∈ l.pages d, ∀ y, InBlock (physToVirt f) 4096 y → m' y = s.mem y) :
    Cache m' s.registry (cacheBase (physToVirt s.registry) d) (l.size d) (l.pages d) (l.free d) ∧
      Redzones m' (l.size d) (l.pages d) := by
  have hcache := h.cache d hd
  constructor
  · refine hcache.congr hdescriptor fun p hp y hy => ?_
    obtain ⟨f, hf, i, hi, rfl⟩ := hcache.slots p hp
    exact hpages f hf y (slot_subset hi (hy.mono (by have := hcache.sizeOk.pos; omega)))
  · refine (h.redzones d hd).congr fun f hf i hi y hy => ?_
    exact hpages f hf y (slot_subset hi (inBlock_redzone hcache.sizeOk hy).1)

/-- **The other caches.** Stores into the descriptor of a cache and into pages that the others do not have. -/
theorem Intact.others (h : Intact s l) (hc : c < maxCaches) (hd : d < s.nextCacheId) (hne : d ≠ c)
    {m' : Mem} (frames : List UInt64) (hframes : ∀ f ∈ frames, PageAligned f ∧ f ≠ s.registry ∧ f ∉ l.pages d)
    (hm : ∀ y, ¬ InBlock (cacheBase (physToVirt s.registry) c) 32 y →
      (∀ f ∈ frames, ¬ InBlock (physToVirt f) 4096 y) → m' y = s.mem y) :
    Cache m' s.registry (cacheBase (physToVirt s.registry) d) (l.size d) (l.pages d) (l.free d) ∧
      Redzones m' (l.size d) (l.pages d) := by
  have hcache := h.cache d hd
  refine h.unchanged hd ?_ ?_
  · intro y hy
    refine hm y ?_ ?_
    · exact fun hin => descriptors_disjoint (h.lt_maxCaches hd) hc hne y hy hin
    · intro f hf hin
      obtain ⟨haligned, hregistry, -⟩ := hframes f hf
      exact pages_disjoint haligned h.registry hregistry y hin (hcache.descriptor_subset hy)
  · intro g hg y hy
    obtain ⟨hgaligned, hgregistry⟩ := h.page hd hg
    refine hm y ?_ ?_
    · intro hin
      have hregistry : InBlock (physToVirt s.registry) 4096 y := by
        have hle := (inBlock_cacheBase hc).mp hin
        have hlt : c.toNat < 16 := hc
        unfold InBlock
        omega
      exact pages_disjoint hgaligned h.registry hgregistry y hy hregistry
    · intro f hf hin
      obtain ⟨haligned, -, hnot⟩ := hframes f hf
      have hfg : f ≠ g := by
        rintro rfl
        exact hnot hg
      exact pages_disjoint haligned hgaligned hfg y hin hy

theorem Intact.object_apart (h : Intact s l) {o : UInt64 × UInt64} (ho : o ∈ s.live) (hd : d < s.nextCacheId)
    {f : UInt64} (hf : f ∈ l.pages d) {i : Nat} (hi : i < perPage (l.size d))
    (hne : (d, slot (physToVirt f) (l.size d) i) ≠ o) :
    BlocksDisjoint o.2 (l.size o.1 + 8) (slot (physToVirt f) (l.size d) i) (l.size d + 8) := by
  obtain ⟨hc, -, g, hg, j, hj, hslot⟩ := h.live o ho
  rw [hslot]
  by_cases hcache : o.1 = d
  · subst hcache
    refine slots_disjoint (h.page hc hg).1 (h.page hd hf).1 hj hi fun heq => hne ?_
    rw [← heq, ← hslot]
  · intro y hy hy'
    have hfg : g ≠ f := by
      rintro rfl
      exact hcache (h.apart o.1 hc d hd g hg hf)
    exact pages_disjoint (h.page hc hg).1 (h.page hd hf).1 hfg y (slot_subset hj hy) (slot_subset hi hy')

/-- **Stores into objects in use** and outside of the pages of the caches. -/
theorem Intact.store (h : Intact s l) {m' : Mem} (hok : Careful s (.store m')) :
    Intact { s with mem := m' } l := by
  -- a byte of a cache that changes is in an object in use
  have hobject : ∀ y, m' y ≠ s.mem y →
      (InBlock (physToVirt s.registry) 4096 y ∨ ∃ d < s.nextCacheId, ∃ f ∈ l.pages d,
        InBlock (physToVirt f) 4096 y) → ∃ o ∈ s.live, InBlock o.2 (l.size o.1) y := by
    intro y hy hin
    obtain ⟨o, ho, hblock⟩ | ⟨hregistry, hpages⟩ := hok y hy
    · rw [(h.objSize_eq (h.live o ho).1).2] at hblock
      exact ⟨o, ho, hblock⟩
    · obtain hin | ⟨d, hd, f, hf, hin⟩ := hin
      · exact absurd hin hregistry
      · exact absurd hin (hpages f (h.known d hd f hf))
  refine ⟨h.registry, h.few, ?_, ?_, h.apart, h.known, h.live⟩
  · intro d hd
    have hcache := h.cache d hd
    refine hcache.congr ?_ ?_
    · intro y hy
      by_contra hchanged
      have hregistry := hcache.descriptor_subset hy
      obtain ⟨o, ho, hblock⟩ := hobject y hchanged (.inl hregistry)
      obtain ⟨hc, -, g, hg, j, hj, hslot⟩ := h.live o ho
      rw [hslot] at hblock
      exact pages_disjoint (h.page hc hg).1 h.registry (h.page hc hg).2 y
        (slot_subset hj (hblock.mono (by omega))) hregistry
    · intro p hp y hy
      by_contra hchanged
      obtain ⟨f, hf, i, hi, rfl⟩ := hcache.slots p hp
      have hslot : InBlock (slot (physToVirt f) (l.size d) i) (l.size d + 8) y :=
        hy.mono (by have := hcache.sizeOk.pos; omega)
      obtain ⟨o, ho, hblock⟩ := hobject y hchanged (.inr ⟨d, hd, f, hf, slot_subset hi hslot⟩)
      refine h.object_apart ho hd hf hi ?_ y (hblock.mono (by omega)) hslot
      rintro rfl
      exact (h.live _ ho).2.1 hp
  · intro d hd
    refine (h.redzones d hd).congr fun f hf i hi y hy => ?_
    by_contra hchanged
    obtain ⟨hslot, hout⟩ := inBlock_redzone (h.cache d hd).sizeOk hy
    obtain ⟨o, ho, hblock⟩ := hobject y hchanged (.inr ⟨d, hd, f, hf, slot_subset hi hslot⟩)
    by_cases heq : (d, slot (physToVirt f) (l.size d) i) = o
    · subst heq
      exact hout hblock
    · exact h.object_apart ho hd hf hi heq y (hblock.mono (by omega)) hslot

theorem lt_succ_iff (hc : c < maxCaches) : d < c + 1 ↔ d < c ∨ d = c := by
  have hlt : c.toNat < 16 := hc
  have hsucc : (c + 1).toNat = c.toNat + 1 := by
    rw [UInt64.toNat_add, UInt64.toNat_one, Nat.mod_eq_of_lt (by omega)]
  rw [UInt64.lt_iff_toNat_lt, UInt64.lt_iff_toNat_lt, hsucc, ← UInt64.toNat_inj]
  omega

/-- The layout with a new cache. -/
def Layout.add (l : Layout) (c : UInt64) (size : Nat) : Layout :=
  ⟨Function.update l.size c size, Function.update l.pages c [], Function.update l.free c []⟩

/-- **`create_cache`**. -/
theorem Intact.create (h : Intact s l) {requestedSize : UInt64} (hok : Careful s (.create requestedSize)) :
    ∃ l', Intact (s.exec (.create requestedSize)) l' := by
  obtain ⟨hnext, hpos, hle⟩ := hok
  have hpos : 1 ≤ requestedSize.toNat := hpos
  have hle : requestedSize.toNat ≤ 4088 := hle
  obtain ⟨base, hbase⟩ : ∃ base, cacheBase (physToVirt s.registry) s.nextCacheId = base := ⟨_, rfl⟩
  have hcache : Cache (createCache s.mem base requestedSize) s.registry base
      ((requestedSize.toNat + 7) / 8 * 8) [] [] := by
    rw [← hbase]
    exact (Cache.create s.mem h.registry (descriptor_le hnext) hpos hle).1
  refine ⟨l.add s.nextCacheId ((requestedSize.toNat + 7) / 8 * 8), ?_⟩
  have hexec : s.exec (.create requestedSize) =
      { s with
        mem := createCache s.mem base requestedSize
        nextCacheId := s.nextCacheId + 1 } := by
    rw [← hbase]
    unfold Caches.exec Caches.create
    dsimp only
    rw [if_neg (UInt64.not_le.mpr hnext)]
    rfl
  -- The new descriptor is beside those in use, so the other caches are as they were.
  have hothers : ∀ d < s.nextCacheId, d ≠ s.nextCacheId ∧
      Cache (createCache s.mem base requestedSize) s.registry (cacheBase (physToVirt s.registry) d)
        (l.size d) (l.pages d) (l.free d) ∧
      Redzones (createCache s.mem base requestedSize) (l.size d) (l.pages d) := by
    intro d hd
    have hne : d ≠ s.nextCacheId := UInt64.ne_of_lt hd
    refine ⟨hne, h.others hnext hd hne [] (by simp) ?_⟩
    intro y hy _
    rw [hbase] at hy
    exact createCache_of_not_mem s.mem hy
  rw [hexec]
  refine ⟨h.registry, ?_, ?_, ?_, ?_, ?_, ?_⟩
  · have hlt : s.nextCacheId.toNat < 16 := hnext
    rw [UInt64.le_iff_toNat_le]
    change (s.nextCacheId + 1).toNat ≤ 16
    rw [UInt64.toNat_add, UInt64.toNat_one]
    omega
  · intro d hd
    obtain hd | rfl := (lt_succ_iff hnext).mp hd
    · obtain ⟨hne, hold, -⟩ := hothers d hd
      simp only [Layout.add, Function.update_of_ne hne]
      exact hold
    · simp only [Layout.add, Function.update_self]
      rw [hbase]
      exact hcache
  · intro d hd
    obtain hd | rfl := (lt_succ_iff hnext).mp hd
    · obtain ⟨hne, -, hold⟩ := hothers d hd
      simp only [Layout.add, Function.update_of_ne hne]
      exact hold
    · simp only [Layout.add, Function.update_self]
      exact fun f hf => absurd hf List.not_mem_nil
  -- The new cache has no pages, so only two old ones can have a page in common.
  · intro c hc d hd f hfc hfd
    obtain hc | rfl := (lt_succ_iff hnext).mp hc
    · obtain hd | rfl := (lt_succ_iff hnext).mp hd
      · simp only [Layout.add, Function.update_of_ne (hothers c hc).1] at hfc
        simp only [Layout.add, Function.update_of_ne (hothers d hd).1] at hfd
        exact h.apart c hc d hd f hfc hfd
      · simp [Layout.add] at hfd
    · simp [Layout.add] at hfc
  · intro d hd f hf
    obtain hd | rfl := (lt_succ_iff hnext).mp hd
    · simp only [Layout.add, Function.update_of_ne (hothers d hd).1] at hf
      exact h.known d hd f hf
    · simp [Layout.add] at hf
  · intro o ho
    obtain ⟨hc, hrest⟩ := h.live o ho
    simp only [Layout.add, Function.update_of_ne (hothers o.1 hc).1]
    exact ⟨(lt_succ_iff hnext).mpr (.inl hc), hrest⟩

/-- The layout after a call of `alloc`. -/
def Layout.grow (l : Layout) (c : UInt64) (new free : List UInt64) : Layout :=
  ⟨l.size, Function.update l.pages c (new ++ l.pages c), Function.update l.free c free⟩

/-- **The object** that `alloc` answers is nobody else's. -/
theorem Intact.clean (h : Intact s l) (hc : c < s.nextCacheId) {new free : List UInt64} {p : UInt64}
    {m' : Mem} (hp : p ≠ 0) (hnew : ∀ f ∈ new, PageAligned f ∧ f ∉ s.pages)
    (halloc : Allocated s.mem s.registry (cacheBase (physToVirt s.registry) c) (l.size c) (l.pages c)
      (l.free c) new p m' free) {s' : Caches} (hmem : s'.mem = m') (hpages : s'.pages = new ++ s.pages) :
    CleanObject s c p s' := by
  obtain ⟨hsize, hnat⟩ := h.objSize_eq hc
  obtain ⟨-, htaken⟩ := halloc.taken hp
  have hslot : ∃ f ∈ new ++ l.pages c, ∃ i < perPage (l.size c), p = slot (physToVirt f) (l.size c) i := by
    obtain hfree | ⟨f, hf, hslot⟩ := htaken
    · obtain ⟨f, hf, hslot⟩ := (h.cache c hc).slots p hfree
      exact ⟨f, List.mem_append_right _ hf, hslot⟩
    · exact ⟨f, List.mem_append_left _ hf, hslot⟩
  obtain ⟨f, hf, i, hi, hpslot⟩ := hslot
  refine ⟨⟨f, ?_, ?_⟩, ?_, ?_, ?_⟩
  · rw [hpages]
    rcases List.mem_append.mp hf with hf | hf
    · exact List.mem_append_left _ hf
    · exact List.mem_append_right _ (h.known c hc f hf)
  · have hend := slot_end_le hi
    have hsub : slot (physToVirt f) (l.size c) i - physToVirt f =
        UInt64.ofNat ((l.size c + 8) * i) := by
      unfold slot
      grind
    rw [hnat, hpslot, hsub, UInt64.toNat_ofNat', Nat.mod_eq_of_lt (by omega)]
    omega
  · intro y hy
    rw [hnat] at hy
    rw [hmem]
    exact halloc.cleared hp y hy
  · intro o ho y hy hy'
    rw [hnat] at hy
    rw [(h.objSize_eq (h.live o ho).1).2] at hy'
    obtain hfree | ⟨g, hg, j, hj, hslot⟩ := htaken
    · -- a free slot is not in use
      obtain ⟨g, hg, j, hj, rfl⟩ := (h.cache c hc).slots p hfree
      refine h.object_apart ho hc hg hj ?_ y (hy'.mono (by omega)) (hy.mono (by omega))
      rintro rfl
      exact (h.live _ ho).2.1 hfree
    · -- a new page has no object in use
      obtain ⟨hd, -, k, hk, r, hr, hoslot⟩ := h.live o ho
      have hne : g ≠ k := by
        rintro rfl
        exact (hnew g hg).2 (h.known o.1 hd g hk)
      rw [hslot] at hy
      rw [hoslot] at hy'
      exact pages_disjoint (hnew g hg).1 (h.page hd hk).1 hne y (slot_subset hj (hy.mono (by omega)))
        (slot_subset hr (hy'.mono (by omega)))
  · rw [hmem, hsize, hpslot]
    exact halloc.redzones f hf i hi

theorem mem_pages_grow {new free : List UInt64} {f : UInt64} :
    f ∈ (l.grow c new free).pages d ↔ (d = c ∧ f ∈ new) ∨ f ∈ l.pages d := by
  by_cases hd : d = c
  · subst hd
    simp only [Layout.grow, Function.update_self, List.mem_append, true_and]
  · simp only [Layout.grow, Function.update_of_ne hd, hd, false_and, false_or]

theorem Intact.grow (h : Intact s l) (hc : c < s.nextCacheId) {new free : List UInt64} {p : UInt64}
    {m' : Mem} (hnew : ∀ f ∈ new, PageAligned f ∧ f ≠ s.registry ∧ f ∉ s.pages)
    (halloc : Allocated s.mem s.registry (cacheBase (physToVirt s.registry) c) (l.size c) (l.pages c)
      (l.free c) new p m' free) {s' : Caches} (hmem : s'.mem = m') (hregistry : s'.registry = s.registry)
    (hnext : s'.nextCacheId = s.nextCacheId) (hpages : s'.pages = new ++ s.pages)
    (hlive : ∀ o ∈ s'.live, o ∈ s.live ∨ p ≠ 0 ∧ o = (c, p)) :
    Intact s' (l.grow c new free) := by
  -- the other caches have other pages and other words of the registry
  have hothers : ∀ d < s.nextCacheId, d ≠ c →
      Cache m' s.registry (cacheBase (physToVirt s.registry) d) (l.size d) (l.pages d) (l.free d) ∧
        Redzones m' (l.size d) (l.pages d) := by
    intro d hd hne
    refine h.others (h.lt_maxCaches hc) hd hne (new ++ l.pages c) ?_ ?_
    · intro f hf
      rcases List.mem_append.mp hf with hf | hf
      · obtain ⟨haligned, hreg, hnot⟩ := hnew f hf
        exact ⟨haligned, hreg, fun hin => hnot (h.known d hd f hin)⟩
      · obtain ⟨haligned, hreg⟩ := h.page hc hf
        exact ⟨haligned, hreg, fun hin => hne (h.apart d hd c hc f hin hf)⟩
    · intro y hword hframes
      refine halloc.frame y ?_ (fun f hf => hframes f (List.mem_append_left _ hf)) ?_
      · exact fun hin => hword (word_subset (i := 24) (by omega) hin)
      · rintro ⟨hp, hin⟩
        obtain hfree | ⟨f, hf, i, hi, rfl⟩ := (halloc.taken hp).2
        · obtain ⟨f, hf, i, hi, rfl⟩ := (h.cache c hc).slots p hfree
          exact hframes f (List.mem_append_right _ hf) (slot_subset hi (hin.mono (by omega)))
        · exact hframes f (List.mem_append_left _ hf) (slot_subset hi (hin.mono (by omega)))
  refine ⟨?_, ?_, ?_, ?_, ?_, ?_, ?_⟩
  · rw [hregistry]
    exact h.registry
  · rw [hnext]
    exact h.few
  · intro d hd
    rw [hnext] at hd
    rw [hmem, hregistry]
    by_cases hne : d = c
    · subst hne
      simp only [Layout.grow, Function.update_self]
      exact halloc.cache
    · simp only [Layout.grow, Function.update_of_ne hne]
      exact (hothers d hd hne).1
  · intro d hd
    rw [hnext] at hd
    rw [hmem]
    by_cases hne : d = c
    · subst hne
      simp only [Layout.grow, Function.update_self]
      exact halloc.redzones
    · simp only [Layout.grow, Function.update_of_ne hne]
      exact (hothers d hd hne).2
  · intro d hd e he f hfd hfe
    rw [hnext] at hd he
    obtain ⟨rfl, hfd'⟩ | hfd' := mem_pages_grow.mp hfd
    · obtain ⟨rfl, -⟩ | hfe' := mem_pages_grow.mp hfe
      · rfl
      · exact absurd (h.known e he f hfe') (hnew f hfd').2.2
    · obtain ⟨rfl, hfe'⟩ | hfe' := mem_pages_grow.mp hfe
      · exact absurd (h.known d hd f hfd') (hnew f hfe').2.2
      · exact h.apart d hd e he f hfd' hfe'
  · intro d hd f hf
    rw [hnext] at hd
    rw [hpages]
    obtain ⟨-, hf⟩ | hf := mem_pages_grow.mp hf
    · exact List.mem_append_left _ hf
    · exact List.mem_append_right _ (h.known d hd f hf)
  · intro o ho
    rw [hnext]
    obtain ho | ⟨hp, rfl⟩ := hlive o ho
    · obtain ⟨hd, hnot, f, hf, i, hi, hslot⟩ := h.live o ho
      refine ⟨hd, ?_, f, mem_pages_grow.mpr (.inr hf), i, hi, hslot⟩
      by_cases hne : o.1 = c
      · intro hin
        simp only [Layout.grow, hne, Function.update_self] at hin
        obtain hfree | ⟨g, hg, j, hj, hslot'⟩ := halloc.free_subset _ hin
        · rw [hne] at hnot
          exact hnot hfree
        · -- an object in use is in no new page
          have hfg : f ≠ g := by
            rintro rfl
            exact (hnew f hg).2.2 (h.known o.1 hd f hf)
          refine pages_disjoint (h.page hd hf).1 (hnew g hg).1 hfg o.2 ?_ ?_
          · rw [hslot]
            exact slot_subset hi (inBlock_self _ (by omega))
          · rw [hslot']
            exact slot_subset hj (inBlock_self _ (by omega))
      · simp only [Layout.grow, Function.update_of_ne hne]
        exact hnot
    · obtain ⟨hnot, htaken⟩ := halloc.taken hp
      refine ⟨hc, ?_, ?_⟩
      · simp only [Layout.grow, Function.update_self]
        exact hnot
      · obtain hfree | ⟨f, hf, hslot⟩ := htaken
        · obtain ⟨f, hf, hslot⟩ := (h.cache c hc).slots p hfree
          exact ⟨f, mem_pages_grow.mpr (.inr hf), hslot⟩
        · exact ⟨f, mem_pages_grow.mpr (.inl ⟨rfl, hf⟩), hslot⟩

theorem Stock.of_append {taken rest pages : List UInt64} {reg : UInt64}
    (h : Stock reg pages (taken ++ rest)) :
    ∀ f ∈ taken.filter (· != 0), PageAligned f ∧ f ≠ reg ∧ f ∉ pages := by
  intro f hf
  obtain ⟨hmem, hne⟩ := List.mem_filter.mp hf
  exact h.page f (List.mem_append_left _ hmem) (bne_iff_ne.mp hne)

theorem Intact.stock (h : Intact s l) (hc : c < s.nextCacheId) {answers : List UInt64}
    (hstock : Stock s.registry s.pages answers) : Stock s.registry (l.pages c) answers := by
  refine ⟨hstock.nodup, fun a ha hne => ?_⟩
  obtain ⟨haligned, hregistry, hnot⟩ := hstock.page a ha hne
  exact ⟨haligned, hregistry, fun hin => hnot (h.known c hc a hin)⟩

theorem Caches.alloc_eq {answers : List UInt64} {p : UInt64} {vm : Vm}
    (h : Slab.alloc (cacheBase (physToVirt s.registry) c) ⟨s.mem, answers⟩ = (p, vm)) :
    s.alloc c answers =
      (p, if p == 0 then { s with mem := vm.mem, pages := handedOut ⟨s.mem, answers⟩ vm ++ s.pages }
        else { s with
          mem := vm.mem
          pages := handedOut ⟨s.mem, answers⟩ vm ++ s.pages
          live := (c, p) :: s.live }) := by
  unfold Caches.alloc Caches.base
  rw [h]

/-- **`alloc`**. -/
theorem Intact.alloc (h : Intact s l) {answers : List UInt64} (hok : Careful s (.alloc c answers)) :
    ∃ obj s' l', s.alloc c answers = (obj, s') ∧ Intact s' l' ∧
      (obj ≠ 0 → CleanObject s c obj s') ∧ (obj = 0 → Refused answers) := by
  obtain ⟨hc, hstock⟩ := hok
  obtain ⟨p, m', taken, rest, free', rfl, heq, halloc, hrefused⟩ :=
    allocated (h.cache c hc) (h.redzones c hc) (h.stock hc hstock)
  have hnew := hstock.of_append
  have hhanded : handedOut ⟨s.mem, taken ++ rest⟩ ⟨m', rest⟩ = taken.filter (· != 0) := handedOut_eq rfl
  by_cases hp : p = 0
  · refine ⟨p, { s with mem := m', pages := taken.filter (· != 0) ++ s.pages },
      l.grow c (taken.filter (· != 0)) free', ?_, ?_, fun hne => absurd hp hne, hrefused⟩
    · rw [Caches.alloc_eq heq, hhanded, if_pos (beq_iff_eq.mpr hp)]
    · exact h.grow hc hnew halloc rfl rfl rfl rfl fun o ho => .inl ho
  · refine ⟨p, { s with
      mem := m'
      pages := taken.filter (· != 0) ++ s.pages
      live := (c, p) :: s.live }, l.grow c (taken.filter (· != 0)) free', ?_, ?_, ?_, hrefused⟩
    · rw [Caches.alloc_eq heq, hhanded, if_neg (by simpa using hp)]
    · refine h.grow hc hnew halloc rfl rfl rfl rfl fun o ho => ?_
      obtain rfl | ho := List.mem_cons.mp ho
      · exact .inr ⟨hp, rfl⟩
      · exact .inl ho
    · exact fun _ => h.clean hc hp (fun f hf => ⟨(hnew f hf).1, (hnew f hf).2.2⟩) halloc rfl rfl

/-- The layout with one more free slot. -/
def Layout.release (l : Layout) (c p : UInt64) : Layout :=
  ⟨l.size, l.pages, Function.update l.free c (p :: l.free c)⟩

theorem Intact.push (h : Intact s l) {p : UInt64} (ho : (c, p) ∈ s.live) (hp : p ≠ 0) {base : UInt64}
    (hbase : cacheBase (physToVirt s.registry) c = base) {m' : Mem}
    (hm : m' = (s.mem.write64 p (freeListHead s.mem base)).write64 (base + 24) p) :
    Intact { s with mem := m', live := s.live.filter (· != (c, p)) } (l.release c p) := by
  obtain ⟨hc, hnot, f, hf, i, hi, hslot⟩ := h.live (c, p) ho
  dsimp only at hc hnot hf hi hslot
  have hcache := h.cache c hc
  rw [hbase] at hcache
  have hpos := hcache.sizeOk.pos
  have hwords := hcache.sizeOk.words
  -- the stores are in the object and in the descriptor
  have hframe : ∀ y, ¬ InBlock (base + 24) 8 y → ¬ InBlock p (l.size c) y → m' y = s.mem y := by
    intro y hword hobject
    rw [hm, Mem.write64_of_not_mem hword,
      Mem.write64_of_not_mem fun hin => hobject (hin.mono (by omega))]
  have hnew : Cache m' s.registry base (l.size c) (l.pages c) (p :: l.free c) := by
    have hlinked : Cache (s.mem.write64 p (freeListHead s.mem base)) s.registry base (l.size c) (l.pages c)
        (l.free c) := by
      rw [hslot] at hnot ⊢
      refine hcache.congr_object hf hi hnot fun y hy => ?_
      exact Mem.write64_of_not_mem fun hin => hy (hin.mono (by omega))
    have hhead : freeListHead (s.mem.write64 p (freeListHead s.mem base)) base = freeListHead s.mem base := by
      refine word_congr (i := 24) (fun y hy => Mem.write64_of_not_mem fun hin => ?_) (by omega)
      rw [hslot] at hin
      exact hcache.not_descriptor hf hi (hin.mono (by omega)) hy
    have hlinks := hlinked.links
    rw [hhead] at hlinks
    rw [hm]
    refine hlinked.setHead ⟨rfl, hp, ?_⟩ (List.nodup_cons.mpr ⟨hnot, hcache.nodup⟩) ?_
    · rw [Mem.read64_write64_self]
      exact hlinks
    · intro q hq
      obtain rfl | hq := List.mem_cons.mp hq
      · exact ⟨f, hf, i, hi, hslot⟩
      · exact hcache.slots q hq
  have hredzones : Redzones m' (l.size c) (l.pages c) := by
    refine (h.redzones c hc).congr fun g hg j hj y hy => hframe y ?_ ?_
    · exact hcache.not_head hg hj (inBlock_redzone hcache.sizeOk hy).1
    · intro hin
      rw [hslot] at hin
      exact hcache.object_redzone hf hg hi hj hin hy
  have hothers : ∀ d < s.nextCacheId, d ≠ c →
      Cache m' s.registry (cacheBase (physToVirt s.registry) d) (l.size d) (l.pages d) (l.free d) ∧
        Redzones m' (l.size d) (l.pages d) := by
    intro d hd hne
    refine h.others (h.lt_maxCaches hc) hd hne (l.pages c) ?_ ?_
    · intro g hg
      obtain ⟨haligned, hreg⟩ := h.page hc hg
      exact ⟨haligned, hreg, fun hin => hne (h.apart d hd c hc g hin hg)⟩
    · intro y hword hframes
      rw [hbase] at hword
      refine hframe y (fun hin => hword (word_subset (i := 24) (by omega) hin)) fun hin => ?_
      rw [hslot] at hin
      exact hframes f hf (slot_subset hi (hin.mono (by omega)))
  refine ⟨h.registry, h.few, ?_, ?_, h.apart, h.known, ?_⟩
  · intro d hd
    by_cases hne : d = c
    · subst hne
      simp only [Layout.release, Function.update_self]
      rw [hbase]
      exact hnew
    · simp only [Layout.release, Function.update_of_ne hne]
      exact (hothers d hd hne).1
  · intro d hd
    by_cases hne : d = c
    · subst hne
      exact hredzones
    · exact (hothers d hd hne).2
  · intro o ho
    obtain ⟨hmem, hother⟩ := List.mem_filter.mp ho
    obtain ⟨hd, hfree, hrest⟩ := h.live o hmem
    refine ⟨hd, ?_, hrest⟩
    by_cases hne : o.1 = c
    · simp only [Layout.release, hne, Function.update_self]
      intro hin
      obtain heq | hin := List.mem_cons.mp hin
      · exact bne_iff_ne.mp hother (Prod.ext hne heq)
      · rw [hne] at hfree
        exact hfree hin
    · simp only [Layout.release, Function.update_of_ne hne]
      exact hfree

/-- **`free`** of an object in use finds its redzone. -/
theorem Intact.freeMem (h : Intact s l) {p : UInt64} (ho : (c, p) ∈ s.live) (hp : p ≠ 0) :
    s.freeMem c p = some ((s.mem.write64 p (freeListHead s.mem (cacheBase (physToVirt s.registry) c))).write64
      (cacheBase (physToVirt s.registry) c + 24) p) := by
  obtain ⟨hc, -, f, hf, i, hi, hslot⟩ := h.live (c, p) ho
  dsimp only at hc hf hi hslot
  have hredzone : s.mem.read64 (p + s.objSize c) = redzoneMagic := by
    rw [(h.objSize_eq hc).1, hslot]
    exact h.redzones c hc f hf i hi
  unfold Caches.freeMem
  rw [if_neg (by simpa using hp), hredzone, if_neg (by simp)]
  rfl

/-- **`free`**. -/
theorem Intact.free (h : Intact s l) {p : UInt64} (hok : Careful s (.free c p)) :
    ∃ s' l', s.free c p = some s' ∧ Intact s' l' := by
  by_cases hp : p = 0
  · refine ⟨{ s with live := s.live.filter (· != (c, p)) }, l, ?_, ?_⟩
    · unfold Caches.free Caches.freeMem
      rw [if_pos (beq_iff_eq.mpr hp)]
      rfl
    · exact ⟨h.registry, h.few, h.cache, h.redzones, h.apart, h.known,
        fun o ho => h.live o (List.mem_filter.mp ho).1⟩
  · have ho := hok.resolve_left hp
    refine ⟨_, l.release c p, ?_, h.push ho hp rfl rfl⟩
    unfold Caches.free
    rw [h.freeMem ho hp]
    rfl

/-- **A careful step** keeps the invariant. -/
theorem Intact.exec (h : Intact s l) {op : CacheOp} (hok : Careful s op) : ∃ l', Intact (s.exec op) l' := by
  cases op with
  | create requestedSize => exact h.create hok
  | alloc cacheId answers =>
    obtain ⟨obj, s', l', heq, hintact, -, -⟩ := h.alloc hok
    refine ⟨l', ?_⟩
    unfold Caches.exec
    dsimp only
    rw [heq]
    exact hintact
  | free cacheId ptr =>
    obtain ⟨s', l', heq, hintact⟩ := h.free hok
    refine ⟨l', ?_⟩
    unfold Caches.exec
    dsimp only
    rw [heq]
    exact hintact
  | store mem => exact ⟨l, h.store hok⟩

/-- **The invariant** implies the law. -/
theorem Intact.exclusive (h : Intact s l) : Exclusive s where
  alloc := by
    intro cacheId obj answers s' hok heq hne
    obtain ⟨obj', s'', l', halloc, -, hclean, -⟩ := h.alloc hok
    rw [heq] at halloc
    obtain ⟨rfl, rfl⟩ := Prod.mk.inj halloc
    exact hclean hne
  refused := by
    intro cacheId answers s' hok heq
    obtain ⟨obj', s'', l', halloc, -, -, hrefused⟩ := h.alloc hok
    rw [heq] at halloc
    exact hrefused (Prod.mk.inj halloc).1.symm
  free := by
    intro o ho
    obtain ⟨s', l', heq, -⟩ := h.free (c := o.1) (p := o.2) (.inr ho)
    rw [heq]
    exact Option.some_ne_none s'

theorem intact_init {vm : Vm} (hinit : init vm = some s) (haligned : PageAligned s.registry) :
    ∃ l, Intact s l := by
  have hempty : s.nextCacheId = 0 ∧ s.live = [] := by
    unfold init at hinit
    dsimp only at hinit
    split at hinit
    · cases hinit
    · obtain rfl := Option.some.inj hinit
      exact ⟨rfl, rfl⟩
  obtain ⟨hnext, hlive⟩ := hempty
  have hnone : ∀ c, ¬ c < s.nextCacheId := by
    intro c
    rw [hnext]
    exact UInt64.not_lt.mpr (UInt64.zero_le)
  refine ⟨⟨fun _ => 0, fun _ => [], fun _ => []⟩, haligned, ?_, ?_, ?_, ?_, ?_, ?_⟩
  · rw [hnext]
    decide
  · exact fun c hc => absurd hc (hnone c)
  · exact fun c hc => absurd hc (hnone c)
  · exact fun c hc => absurd hc (hnone c)
  · exact fun c hc => absurd hc (hnone c)
  · intro o ho
    rw [hlive] at ho
    exact absurd ho List.not_mem_nil

end Steps

/-- **The caches hand out exclusive, cleared objects**, in every run after `init`. -/
theorem exclusive_objects {vm : Vm} {s₀ : Caches} {ops : List CacheOp} (hinit : init vm = some s₀)
    (haligned : PageAligned s₀.registry) (hok : Admissible Caches.exec Careful s₀ ops) :
    Exclusive (runOps Caches.exec s₀ ops) := by
  obtain ⟨l, h⟩ := runOps_induction (I := fun s => ∃ l, Intact s l)
    (fun s o ⟨l, h⟩ hstep => h.exec hstep) (intact_init hinit haligned) hok
  exact h.exclusive

/-! ### One object -/

/-- The registry in the page `0x1000`. -/
def emptyRegistry : Caches := ⟨zeroPage (fun _ => 0) 0x1000, 0x1000, 0, [], []⟩

/-- A cache of objects of 20 bytes is created, and an object is taken, written and given back. -/
def oneObject : List CacheOp :=
  [.create 20, .alloc 0 [0x2000],
    .store ((runOps Caches.exec emptyRegistry [.create 20, .alloc 0 [0x2000]]).mem.write64
      0xFFFFFFFF80002008 7),
    .free 0 0xFFFFFFFF80002000]

theorem live_alloc : (runOps Caches.exec emptyRegistry [.create 20, .alloc 0 [0x2000]]).live =
    [(0, 0xFFFFFFFF80002000)] := by
  decide +kernel

theorem admissible_oneObject : Admissible Caches.exec Careful emptyRegistry oneObject := by
  have hlive : (0, 0xFFFFFFFF80002000) ∈
      (runOps Caches.exec emptyRegistry [.create 20, .alloc 0 [0x2000]]).live := by
    rw [live_alloc]
    exact List.mem_singleton.mpr rfl
  have hsize : (runOps Caches.exec emptyRegistry [.create 20, .alloc 0 [0x2000]]).objSize 0 = 24 := by
    decide +kernel
  refine ⟨⟨by decide, by decide, by decide⟩, ⟨by decide, ⟨by decide, ?_⟩⟩, ?_, .inr hlive, trivial⟩
  · intro a ha hne
    obtain rfl := List.mem_singleton.mp ha
    exact ⟨by unfold PageAligned; decide, by decide, List.not_mem_nil⟩
  · intro y hy
    refine .inl ⟨(0, 0xFFFFFFFF80002000), hlive, ?_⟩
    by_contra hout
    refine hy (Mem.write64_of_not_mem fun hin => hout ?_)
    change InBlock _ ((runOps Caches.exec emptyRegistry [.create 20, .alloc 0 [0x2000]]).objSize 0).toNat y
    rw [hsize]
    have hword := (inBlock_offset_iff (show 8 + 8 ≤ 2 ^ 64 by decide)).mp
      (show InBlock (0xFFFFFFFF80002000 + UInt64.ofNat 8) 8 y from hin)
    change (y - 0xFFFFFFFF80002000).toNat < 24
    omega

theorem exclusive_oneObject : Exclusive (runOps Caches.exec emptyRegistry oneObject) :=
  exclusive_objects (show init ⟨fun _ => 0, [0x1000]⟩ = some emptyRegistry from rfl)
    (by unfold PageAligned; decide) admissible_oneObject

end Keuos.Slab
