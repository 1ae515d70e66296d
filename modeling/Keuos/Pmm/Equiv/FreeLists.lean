import Keuos.Pmm.Defs
import Keuos.Lib.Bits

/-!
# The free lists of the page allocator

`Chain m h l` says that following the links in memory from `h` visits the pages `l` and then the
null pointer.  `FreeLists s lists` collects what the sixteen chains satisfy together: no page occurs
twice, the counts are the lengths, and every page is aligned, so that the link in one page is not
overwritten by a store into another (`Chain.frame`).

In a run of whole calls every lock is free when it is taken, so `alloc` is the removal of the first
page of some list (`alloc_spec`) and `free` either lowers a reference count or puts the page in front
of a list (`free_spec`).
-/

namespace Keuos.Pmm

/-! ### Chains -/

/-- The links from `h` on visit the pages of the list and end in the null pointer. -/
def Chain (m : Mem) : UInt64 → List UInt64 → Prop
  | h, [] => h = 0
  | h, p :: l => h = p ∧ p ≠ 0 ∧ Chain m (m.read64 (physToVirt p)) l

/-- A page address: a multiple of the page size. -/
def Aligned (p : UInt64) : Prop :=
  p.toNat % 4096 = 0

theorem physToVirt_inj {p q : UInt64} (h : physToVirt p = physToVirt q) : p = q := by
  unfold physToVirt at h
  grind

theorem aligned_physToVirt {p : UInt64} (hp : Aligned p) : Aligned (physToVirt p) := by
  unfold Aligned physToVirt kernelBase at *
  rw [UInt64.toNat_add]
  have : (0xFFFFFFFF80000000 : UInt64).toNat = 18446744071562067968 := rfl
  omega

theorem Chain.congr {m m' : Mem} {l : List UInt64} {h : UInt64} (hc : Chain m h l)
    (hm : ∀ p ∈ l, m'.read64 (physToVirt p) = m.read64 (physToVirt p)) : Chain m' h l := by
  induction l generalizing h with
  | nil => exact hc
  | cons p l ih =>
    obtain ⟨hp, hne, hrest⟩ := hc
    refine ⟨hp, hne, ?_⟩
    rw [hm p (List.mem_cons_self ..)]
    exact ih hrest fun q hq => hm q (List.mem_cons_of_mem _ hq)

theorem Chain.frame {m : Mem} {l : List UInt64} {h page v : UInt64} (hc : Chain m h l)
    (hpage : Aligned page) (hl : ∀ p ∈ l, Aligned p) (hnot : page ∉ l) :
    Chain (m.write64 (physToVirt page) v) h l := by
  refine hc.congr ?_
  intro p hp
  have h₁ := aligned_physToVirt hpage
  have h₂ := aligned_physToVirt (hl p hp)
  unfold Aligned at h₁ h₂
  refine Mem.read64_write64_of_ne (by omega) (by omega) ?_
  intro heq
  exact hnot (physToVirt_inj heq ▸ hp)

/-! ### The fields that linking and unlinking leave alone -/

@[simp] theorem refcounts_setShard (s : PmmState) (core : Cpu) (shard : PmmCoreState) :
    (s.setShard core shard).refcounts = s.refcounts := rfl

@[simp] theorem numCpus_setShard (s : PmmState) (core : Cpu) (shard : PmmCoreState) :
    (s.setShard core shard).numCpus = s.numCpus := rfl

@[simp] theorem refcounts_pushPage (s : PmmState) (core : Cpu) (page : UInt64) :
    (pushPage s core page).refcounts = s.refcounts := by
  unfold pushPage
  rw [refcounts_setShard]

@[simp] theorem numCpus_pushPage (s : PmmState) (core : Cpu) (page : UInt64) :
    (pushPage s core page).numCpus = s.numCpus := by
  unfold pushPage
  rw [numCpus_setShard]

@[simp] theorem refcounts_popPage (s : PmmState) (core : Cpu) :
    (popPage s core).refcounts = s.refcounts := by
  unfold popPage
  rw [refcounts_setShard]

@[simp] theorem numCpus_popPage (s : PmmState) (core : Cpu) :
    (popPage s core).numCpus = s.numCpus := by
  unfold popPage
  rw [numCpus_setShard]

@[simp] theorem lock_pushPage (s : PmmState) (core : Cpu) (page : UInt64) (c : Cpu) :
    ((pushPage s core page).shards c).lock = (s.shards c).lock := by
  simp only [pushPage, PmmState.setShard, Function.update_apply]
  split_ifs with hc
  · rw [hc]
  · rfl

@[simp] theorem lock_popPage (s : PmmState) (core : Cpu) (c : Cpu) :
    ((popPage s core).shards c).lock = (s.shards c).lock := by
  simp only [popPage, PmmState.setShard, Function.update_apply]
  split_ifs with hc
  · rw [hc]
  · rfl

/-! ### The sixteen lists -/

structure FreeLists (s : PmmState) (lists : Cpu → List UInt64) : Prop where
  chain : ∀ c, Chain s.mem (s.shards c).head (lists c)
  nodup : ∀ c, (lists c).Nodup
  count : ∀ c, (s.shards c).count = UInt64.ofNat (lists c).length
  disjoint : ∀ c d, c ≠ d → ∀ p ∈ lists c, p ∉ lists d
  aligned : ∀ c, ∀ p ∈ lists c, Aligned p

theorem FreeLists.congr {s s' : PmmState} {lists : Cpu → List UInt64} (h : FreeLists s lists)
    (hmem : s'.mem = s.mem) (hhead : ∀ c, (s'.shards c).head = (s.shards c).head)
    (hcount : ∀ c, (s'.shards c).count = (s.shards c).count) : FreeLists s' lists := by
  refine ⟨?_, h.nodup, ?_, h.disjoint, h.aligned⟩
  · intro c
    rw [hmem, hhead]
    exact h.chain c
  · intro c
    rw [hcount]
    exact h.count c

theorem FreeLists.exists_cons {s : PmmState} {lists : Cpu → List UInt64} (h : FreeLists s lists)
    {c : Cpu} (hhead : (s.shards c).head ≠ 0) :
    ∃ rest, lists c = (s.shards c).head :: rest := by
  have hc := h.chain c
  cases hl : lists c with
  | nil =>
    rw [hl] at hc
    exact absurd hc hhead
  | cons p rest =>
    rw [hl] at hc
    exact ⟨rest, by rw [hc.1]⟩

theorem FreeLists.push {s : PmmState} {lists : Cpu → List UInt64} (h : FreeLists s lists)
    (core : Cpu) {page : UInt64} (hpage : Aligned page) (hne : page ≠ 0)
    (hnot : ∀ c, page ∉ lists c) :
    FreeLists (pushPage s core page) (Function.update lists core (page :: lists core)) := by
  constructor
  · intro c
    simp only [pushPage, PmmState.setShard]
    by_cases hc : c = core
    · subst hc
      rw [Function.update_self, Function.update_self]
      refine ⟨rfl, hne, ?_⟩
      -- the link is stored in the page itself, which is in no list
      rw [Mem.read64_write64_self]
      exact (h.chain c).frame hpage (h.aligned c) (hnot c)
    · rw [Function.update_of_ne hc, Function.update_of_ne hc]
      exact (h.chain c).frame hpage (h.aligned c) (hnot c)
  · intro c
    by_cases hc : c = core
    · subst hc
      rw [Function.update_self]
      exact List.nodup_cons.mpr ⟨hnot c, h.nodup c⟩
    · rw [Function.update_of_ne hc]
      exact h.nodup c
  · intro c
    simp only [pushPage, PmmState.setShard]
    by_cases hc : c = core
    · subst hc
      rw [Function.update_self, Function.update_self, List.length_cons, UInt64.ofNat_add]
      simp only [h.count c, UInt64.ofNat_one]
    · rw [Function.update_of_ne hc, Function.update_of_ne hc]
      exact h.count c
  · intro c d hcd p hp
    by_cases hc : c = core
    · subst hc
      rw [Function.update_self] at hp
      rw [Function.update_of_ne (Ne.symm hcd)]
      rcases List.mem_cons.mp hp with rfl | hp
      · exact hnot d
      · exact h.disjoint c d hcd p hp
    · rw [Function.update_of_ne hc] at hp
      by_cases hd : d = core
      · subst hd
        rw [Function.update_self]
        intro hmem
        rcases List.mem_cons.mp hmem with rfl | hmem
        · exact hnot c hp
        · exact h.disjoint c d hcd p hp hmem
      · rw [Function.update_of_ne hd]
        exact h.disjoint c d hcd p hp
  · intro c p hp
    by_cases hc : c = core
    · subst hc
      rw [Function.update_self] at hp
      rcases List.mem_cons.mp hp with rfl | hp
      · exact hpage
      · exact h.aligned c p hp
    · rw [Function.update_of_ne hc] at hp
      exact h.aligned c p hp

theorem mem_of_mem_update {lists : Cpu → List UInt64} {core : Cpu} {page : UInt64}
    {rest : List UInt64} (hcons : lists core = page :: rest) {c : Cpu} {p : UInt64}
    (hp : p ∈ Function.update lists core rest c) : p ∈ lists c := by
  by_cases hc : c = core
  · subst hc
    rw [Function.update_self] at hp
    rw [hcons]
    exact List.mem_cons_of_mem _ hp
  · rwa [Function.update_of_ne hc] at hp

theorem FreeLists.pop {s : PmmState} {lists : Cpu → List UInt64} (h : FreeLists s lists)
    {core : Cpu} {page : UInt64} {rest : List UInt64} (hcons : lists core = page :: rest) :
    FreeLists (popPage s core) (Function.update lists core rest) := by
  have hchain := h.chain core
  rw [hcons] at hchain
  obtain ⟨hhead, -, hrest⟩ := hchain
  constructor
  · intro c
    simp only [popPage, PmmState.setShard]
    by_cases hc : c = core
    · subst hc
      rw [Function.update_self, Function.update_self]
      simp only [hhead]
      exact hrest
    · rw [Function.update_of_ne hc, Function.update_of_ne hc]
      exact h.chain c
  · intro c
    by_cases hc : c = core
    · subst hc
      rw [Function.update_self]
      have := h.nodup c
      rw [hcons] at this
      exact (List.nodup_cons.mp this).2
    · rw [Function.update_of_ne hc]
      exact h.nodup c
  · intro c
    simp only [popPage, PmmState.setShard]
    by_cases hc : c = core
    · subst hc
      rw [Function.update_self, Function.update_self]
      simp only [h.count c, hcons, List.length_cons, UInt64.ofNat_add, UInt64.ofNat_one]
      grind
    · rw [Function.update_of_ne hc, Function.update_of_ne hc]
      exact h.count c
  · intro c d hcd p hp hmem
    exact h.disjoint c d hcd p (mem_of_mem_update hcons hp) (mem_of_mem_update hcons hmem)
  · intro c p hp
    exact h.aligned c p (mem_of_mem_update hcons hp)

theorem FreeLists.not_mem_pop {s : PmmState} {lists : Cpu → List UInt64} (h : FreeLists s lists)
    {core : Cpu} {page : UInt64} {rest : List UInt64} (hcons : lists core = page :: rest)
    (c : Cpu) : page ∉ Function.update lists core rest c := by
  have hmem : page ∈ lists core := by
    rw [hcons]
    exact List.mem_cons_self ..
  by_cases hc : c = core
  · subst hc
    rw [Function.update_self]
    have := h.nodup c
    rw [hcons] at this
    exact (List.nodup_cons.mp this).1
  · rw [Function.update_of_ne hc]
    exact h.disjoint core c (Ne.symm hc) page hmem

/-- A list of different pages, none of them null, is shorter than the address space, so its count
is its length. -/
theorem FreeLists.toNat_count {s : PmmState} {lists : Cpu → List UInt64} (h : FreeLists s lists)
    (c : Cpu) : (s.shards c).count.toNat = (lists c).length := by
  have hzero : (0 : UInt64) ∉ lists c := by
    have hchain := h.chain c
    generalize (s.shards c).head = hd at hchain
    generalize lists c = l at hchain
    induction l generalizing hd with
    | nil => exact List.not_mem_nil
    | cons p l ih =>
      intro hmem
      rcases List.mem_cons.mp hmem with heq | hmem
      · exact hchain.2.1 heq.symm
      · exact ih _ hchain.2.2 hmem
  have hnodup : ((0 :: lists c).map UInt64.toNat).Nodup :=
    (List.nodup_cons.mpr ⟨hzero, h.nodup c⟩).map fun a b hab => UInt64.toNat_inj.mp hab
  have hsub : (0 :: lists c).map UInt64.toNat ⊆ List.range (2 ^ 64) := by
    intro n hn
    obtain ⟨p, -, rfl⟩ := List.mem_map.mp hn
    exact List.mem_range.mpr p.toNat_lt
  have hlen := (List.subperm_of_subset hnodup hsub).length_le
  rw [List.length_map, List.length_cons, List.length_range] at hlen
  rw [h.count c, UInt64.toNat_ofNat', Nat.mod_eq_of_lt (by omega)]

end Keuos.Pmm
