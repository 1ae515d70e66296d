import Keuos.Slab.Equiv.FreeList
import Keuos.Syscall.Equiv.Fresh

/-!
# Areas

`sys_mmap` takes the object that describes an area from a cache of 32-byte objects.  `Store` is a memory
in which the page tables, the pages of this cache and the pages that `pmm.alloc` will answer are apart.
The stores of `vma.alloc` go to the cache and leave the tables alone, and those of `map_user_page` go to
the tables and leave the cache alone.
-/

namespace Keuos.Syscall

open Process Paging
open Pmm (physToVirt)
open Slab (Cache Links NewPage OnlyPages slot perPage freeListHead)

/-- The tables, the cache of the areas and the answers of `pmm.alloc` are apart. -/
structure Store (roots : Set UInt64) (reg base : UInt64) (vm : Vm) (pages free : List UInt64) : Prop where
  tables : Tables roots vm.mem
  supply : Supply roots vm.mem vm.answers
  cache : Cache vm.mem reg base 32 pages free
  nonzero : ∀ f ∈ reg :: pages, f ≠ 0
  apart : ∀ f ∈ reg :: pages, ∀ r ∈ roots, ∀ q, UserPath q → table vm.mem r q ≠ some f
  new : ∀ a ∈ vm.answers, a ≠ 0 → NewPage reg pages a

/-- The object at `p` is in use: it is a slot of the cache that is not free. -/
structure InUse (pages free : List UInt64) (p : UInt64) : Prop where
  slot : ∃ f ∈ pages, ∃ i < perPage 32, p = slot (physToVirt f) 32 i
  not_free : p ∉ free

section Store

variable {roots : Set UInt64} {reg base : UInt64} {vm : Vm} {pages free : List UInt64}

theorem SameEntries.of_onlyPages {m m' : Mem} (htables : Tables roots m) {frames : List UInt64}
    (honly : OnlyPages m m' frames) (haligned : ∀ f ∈ frames, PageAligned f)
    (hnot : ∀ f ∈ frames, ∀ r ∈ roots, ∀ q, UserPath q → table m r q ≠ some f) :
    SameEntries roots m m' := by
  refine SameEntries.of_outside ?_
  intro r hr q x hq hx y hy
  refine honly y ?_
  intro f hf hin
  have hne : x ≠ f := by
    rintro rfl
    exact hnot x hf r hr q hq hx
  exact pages_disjoint (htables.pageAligned hr hx) (haligned f hf) hne y hy hin

theorem Store.of_same (h : Store roots reg base vm pages free) {m' : Mem} {free' : List UInt64}
    (hsame : SameEntries roots vm.mem m') (hcache : Cache m' reg base 32 pages free') :
    Store roots reg base ⟨m', vm.answers⟩ pages free' := by
  refine ⟨hsame.tables h.tables, hsame.supply h.supply, hcache, h.nonzero, ?_, h.new⟩
  intro f hf r hr q hq hx
  exact h.apart f hf r hr q hq ((hsame.table hr hq).symm.trans hx)

theorem Store.tail (h : Store roots reg base vm pages free) {a : UInt64} {rest : List UInt64}
    (hanswers : vm.answers = a :: rest) : Store roots reg base ⟨vm.mem, rest⟩ pages free := by
  have hsupply := h.supply
  rw [hanswers] at hsupply
  refine ⟨h.tables, hsupply.tail, h.cache, h.nonzero, h.apart, ?_⟩
  intro b hb hne
  exact h.new b (by rw [hanswers]; exact List.mem_cons_of_mem _ hb) hne

/-! ### Objects in use -/

theorem write64_outside {p y : UInt64} {i : Nat} (hi : i + 8 ≤ 40) (hy : ¬ InBlock p 40 y)
    (m : Mem) (v : UInt64) : m.write64 (p + UInt64.ofNat i) v y = m y := by
  refine Mem.write64_of_not_mem fun hin => hy ?_
  have := (inBlock_offset_iff (by omega)).mp hin
  unfold InBlock
  omega

/-- **Stores into an object in use** change neither the tables nor the cache. -/
theorem Store.write (h : Store roots reg base vm pages free) {p : UInt64} (hp : InUse pages free p)
    {m' : Mem} (hm : ∀ y, ¬ InBlock p 40 y → m' y = vm.mem y) :
    SameEntries roots vm.mem m' ∧ Store roots reg base ⟨m', vm.answers⟩ pages free := by
  obtain ⟨⟨f, hf, i, hi, rfl⟩, hnot⟩ := hp
  have honly : OnlyPages vm.mem m' [f] := by
    intro y hy
    refine hm y fun hin => ?_
    exact hy f (List.mem_singleton.mpr rfl) (Slab.slot_subset hi hin)
  have hsame : SameEntries roots vm.mem m' := by
    refine SameEntries.of_onlyPages h.tables honly ?_ ?_
    · intro g hg
      rw [List.mem_singleton.mp hg]
      exact h.cache.aligned f (List.mem_cons_of_mem _ hf)
    · intro g hg
      rw [List.mem_singleton.mp hg]
      exact h.apart f (List.mem_cons_of_mem _ hf)
  exact ⟨hsame, h.of_same hsame (h.cache.congr_object hf hi hnot hm)⟩

/-! ### `vma.alloc` -/

/-- `vma.alloc` fails: no object is free, and there is no page for more. -/
def VmaFails (vm : Vm) (base : UInt64) : Prop :=
  freeListHead vm.mem base = 0 ∧ vm.answers.headD 0 = 0

/-- The answers that are left after an object has been taken from the cache. -/
def answersAfterVma (vm : Vm) (base : UInt64) : List UInt64 :=
  if freeListHead vm.mem base = 0 then vm.answers.tail else vm.answers

theorem Store.slabAlloc (h : Store roots reg base vm pages free) :
    (VmaFails vm base ∧ Slab.alloc base vm = (0, ⟨vm.mem, vm.answers.tail⟩)) ∨
    ∃ p m' pages' free', ¬ VmaFails vm base ∧
      Slab.alloc base vm = (p, ⟨m', answersAfterVma vm base⟩) ∧ p ≠ 0 ∧
      InUse pages' free' p ∧ SameEntries roots vm.mem m' ∧
      Store roots reg base ⟨m', answersAfterVma vm base⟩ pages' free' := by
  obtain ⟨m, answers⟩ := vm
  unfold answersAfterVma
  cases free with
  | cons p free =>
    obtain ⟨hhead, hne, -⟩ := h.cache.links
    obtain ⟨m', halloc, hcache, honly⟩ := Slab.alloc_of_free h.cache answers
    have hsame : SameEntries roots m m' :=
      SameEntries.of_onlyPages h.tables honly h.cache.aligned h.apart
    have hhead' : freeListHead m base ≠ 0 := by
      rw [hhead]
      exact hne
    rw [if_neg hhead']
    exact .inr ⟨p, m', pages, free, fun hfail => hhead' hfail.1, halloc, hne,
      ⟨h.cache.slots p (List.mem_cons_self ..), (List.nodup_cons.mp h.cache.nodup).1⟩, hsame,
      h.of_same hsame hcache⟩
  | nil =>
    have hhead : freeListHead m base = 0 := h.cache.links
    rw [if_pos hhead]
    cases answers with
    | nil => exact .inl ⟨⟨hhead, rfl⟩, Slab.alloc_of_none h.cache rfl⟩
    | cons a answers =>
      by_cases ha : a = 0
      · subst ha
        exact .inl ⟨⟨hhead, rfl⟩, Slab.alloc_of_none h.cache rfl⟩
      -- the cache takes the page `a`, and hands out its first slot
      have hnew := h.new a (List.mem_cons_self ..) ha
      have hframe : FreshFrame roots m a := h.supply.frame (List.mem_cons_self ..) ha
      have hsize : Slab.ObjSize 32 := ⟨rfl, by omega, by omega⟩
      have hpos := Slab.perPage_pos hsize
      obtain ⟨m', halloc, hcache, honly⟩ := Slab.alloc_of_grow h.cache answers hnew
      have hall : ∀ f ∈ a :: reg :: pages, PageAligned f ∧ f ≠ 0 ∧
          ∀ r ∈ roots, ∀ q, UserPath q → table m r q ≠ some f := by
        intro f hf
        obtain rfl | hf := List.mem_cons.mp hf
        · exact ⟨hnew.aligned, ha, hframe.not_table⟩
        · exact ⟨h.cache.aligned f hf, h.nonzero f hf, h.apart f hf⟩
      have hsame : SameEntries roots m m' :=
        SameEntries.of_onlyPages h.tables honly (fun f hf => (hall f hf).1) (fun f hf => (hall f hf).2.2)
      have hmem : ∀ f ∈ reg :: a :: pages, f ∈ a :: reg :: pages := by
        intro f hf
        simp only [List.mem_cons] at hf ⊢
        tauto
      refine .inr ⟨physToVirt a, m', a :: pages, _, fun hfail => ha hfail.2, halloc, hnew.mapped, ⟨?_, ?_⟩,
        hsame, hsame.tables h.tables, hsame.supply h.supply.tail, hcache, ?_, ?_, ?_⟩
      · exact ⟨a, List.mem_cons_self .., 0, hpos, (Slab.slot_zero ..).symm⟩
      · intro hin
        obtain ⟨j, hj, hlt, heq⟩ := Slab.mem_slotsFrom.mp hin
        replace heq := (Slab.slot_zero (physToVirt a) 32).trans heq
        have hlast : 1 + (perPage 32 - 1) = perPage 32 := Nat.add_sub_cancel' hpos
        rw [hlast] at hlt
        rw [← Slab.slot_inj hpos hlt heq] at hj
        exact absurd hj (Nat.not_succ_le_zero 0)
      · intro f hf
        exact (hall f (hmem f hf)).2.1
      · intro f hf r hr q hq hx
        exact (hall f (hmem f hf)).2.2 r hr q hq ((hsame.table hr hq).symm.trans hx)
      · intro b hb hbne
        have hb' := h.new b (List.mem_cons_of_mem _ hb) hbne
        refine ⟨hb'.ne_zero, hb'.aligned, hb'.mapped, hb'.registry, ?_⟩
        intro hin
        obtain rfl | hin := List.mem_cons.mp hin
        · exact h.supply.not_mem ha hb
        · exact hb'.new hin

theorem vmaFields_outside (m : Mem) {p y : UInt64} (hy : ¬ InBlock p 40 y) (start stop flags : UInt64) :
    ((((m.write64 p start).write64 (p + 8) stop).write64 (p + 16) flags).write64 (p + 24) 0) y = m y := by
  have hfirst : m.write64 p start y = m y :=
    Mem.write64_of_not_mem fun hin => hy (hin.mono (by omega))
  exact (write64_outside (i := 24) (by omega) hy _ _).trans
    ((write64_outside (i := 16) (by omega) hy _ _).trans
      ((write64_outside (i := 8) (by omega) hy _ _).trans hfirst))

/-- **`vma.alloc`** fails and changes nothing, or hands out an object and leaves the tables alone. -/
theorem Store.vmaAlloc (h : Store roots reg base vm pages free) (start stop flags : UInt64) :
    (VmaFails vm base ∧
      vmaAlloc (Slab.alloc base) vm start stop flags = (0, ⟨vm.mem, vm.answers.tail⟩)) ∨
    ∃ p m' pages' free', ¬ VmaFails vm base ∧ vmaAlloc (Slab.alloc base) vm start stop flags =
        (p, ⟨m', answersAfterVma vm base⟩) ∧ p ≠ 0 ∧ InUse pages' free' p ∧
      SameEntries roots vm.mem m' ∧ Store roots reg base ⟨m', answersAfterVma vm base⟩ pages' free' := by
  unfold Syscall.vmaAlloc
  dsimp only
  obtain ⟨hfail, halloc⟩ | ⟨p, m', pages', free', hfail, halloc, hne, hp, hsame, hstore⟩ := h.slabAlloc
  · refine .inl ⟨hfail, ?_⟩
    rw [halloc, if_pos (beq_self_eq_true _)]
  · rw [halloc, if_neg (by simpa using hne)]
    obtain ⟨hsame', hstore'⟩ := hstore.write hp fun y hy => vmaFields_outside m' hy start stop flags
    refine .inr ⟨p, _, pages', free', hfail, rfl, hne, hp, ?_, hstore'⟩
    intro r hr q x hq hx j hj
    rw [hsame' r hr q x hq ((hsame.table hr hq).trans hx) j hj]
    exact hsame r hr q x hq hx j hj

/-! ### Mapping pages -/

/-- **Mapped pages** leave the cache alone. -/
theorem Store.filled (h : Store roots reg base vm pages free) {root : UInt64} (hroot : root ∈ roots)
    {vm' : Vm} {mapped used : List UInt64} (hfilled : Filled roots root vm vm' mapped used) :
    Store roots reg base vm' pages free := by
  have hanswers := hfilled.answers
  have hapart : ∀ f ∈ reg :: pages, ∀ r ∈ roots, ∀ q, UserPath q → table vm'.mem r q ≠ some f := by
    intro f hf r hr q hq hx
    obtain hold | hused := hfilled.adds r hr q hq f hx
    · exact h.apart f hf r hr q hq hold
    · have hmem : f ∈ vm.answers := by
        rw [hanswers]
        exact List.mem_append_left _ hused
      have hnew := h.new f hmem (h.nonzero f hf)
      obtain rfl | hf := List.mem_cons.mp hf
      · exact hnew.registry rfl
      · exact hnew.new hf
  refine ⟨hfilled.tables, hfilled.supply, ?_, h.nonzero, hapart, ?_⟩
  · refine h.cache.congr_pages ?_
    intro f hf y hy
    refine hfilled.only y ?_
    intro q t hq ht hin
    have hne : t ≠ f := by
      rintro rfl
      exact hapart t hf root hroot q hq ht
    exact pages_disjoint (hfilled.tables.pageAligned hroot ht) (h.cache.aligned f hf) hne y hin hy
  · intro a ha hne
    exact h.new a (by rw [hanswers]; exact List.mem_append_right _ ha) hne

end Store

/-! ### An empty cache -/

/-- A memory of zeros with the empty cache of the areas in the registry page `0x9000`. -/
def areaMem : Mem :=
  Slab.createCache (fun _ => 0) (physToVirt 0x9000) 32

theorem pageAligned_0x9000 : PageAligned 0x9000 := by
  unfold PageAligned
  decide

theorem cache_areaMem : Cache areaMem 0x9000 (physToVirt 0x9000) 32 [] [] ∧
    OnlyPages (fun _ => 0) areaMem [0x9000] :=
  Cache.create (fun _ => 0) pageAligned_0x9000 (by decide) (by decide) (by decide)

theorem sameEntries_areaMem : SameEntries {0x1000} (fun _ => 0) areaMem := by
  refine SameEntries.of_onlyPages (tables_zero pageAligned_0x1000) cache_areaMem.2 ?_ ?_
  · intro f hf
    rw [List.mem_singleton.mp hf]
    exact pageAligned_0x9000
  · intro f hf
    rw [List.mem_singleton.mp hf]
    rintro r rfl q - hx
    exact absurd (table_of_empty (zero_entry _) hx).2 (by decide)

theorem store_areaMem {answers : List UInt64} (hnodup : (answers.filter (· != 0)).Nodup)
    (hanswers : ∀ a ∈ answers, a ≠ 0 → PageAligned a ∧ a.toNat < 2 ^ 31 ∧ a ≠ 0x1000 ∧ a ≠ 0x9000) :
    Store {0x1000} 0x9000 (physToVirt 0x9000) ⟨areaMem, answers⟩ [] [] := by
  have hsupply : Supply {0x1000} (fun _ => 0) answers := by
    refine ⟨hnodup, ?_⟩
    intro a ha
    obtain ⟨hmem, hne⟩ := List.mem_filter.mp ha
    obtain ⟨haligned, hsmall, hroot, -⟩ := hanswers a hmem (bne_iff_ne.mp hne)
    exact freshFrame_zero (bne_iff_ne.mp hne) haligned (by omega) hroot
  refine ⟨sameEntries_areaMem.tables (tables_zero pageAligned_0x1000), sameEntries_areaMem.supply hsupply,
    cache_areaMem.1, ?_, ?_, ?_⟩
  · intro f hf
    rw [List.mem_singleton.mp hf]
    decide
  · intro f hf
    rw [List.mem_singleton.mp hf]
    rintro r rfl q hq hx
    rw [sameEntries_areaMem.table rfl hq] at hx
    exact absurd (table_of_empty (zero_entry _) hx).2 (by decide)
  · intro a ha hne
    obtain ⟨haligned, hsmall, -, hreg⟩ := hanswers a ha hne
    refine ⟨hne, haligned, ?_, hreg, by simp⟩
    intro hzero
    have hnat := congrArg UInt64.toNat hzero
    unfold Pmm.physToVirt Pmm.kernelBase at hnat
    rw [UInt64.toNat_add, show (0xFFFFFFFF80000000 : UInt64).toNat = 0xFFFFFFFF80000000 from rfl,
      UInt64.toNat_zero] at hnat
    omega

end Keuos.Syscall
