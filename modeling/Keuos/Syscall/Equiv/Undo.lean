import Keuos.Syscall.Equiv.Areas

/-!
# Requests for memory that fail

`sys_brk`, `sys_mmap` and `ring_mmap` give nothing back when they fail: neither of them calls `pmm.free`
or `vma.free`.  So a failed request has undone what it did (`Undone`) exactly when it had not obtained
anything yet: the request was rejected by the first checks, or the first allocation failed.

## Main results

* `undone_iff`: when a failed request has left no trace, for all three calls.
* `not_undone_two_pages`: a heap that should grow by two pages, when there is one frame.
-/

namespace Keuos.Syscall

open Process Paging
open Slab (Cache Links freeListHead)

/-- The frames that a call obtained.  There is no call of `pmm.free` in it, so these are the frames that
it has not given back. -/
def obtained (vm vm' : Vm) : List UInt64 :=
  (vm.answers.take (vm.answers.length - vm'.answers.length)).filter (· != 0)

/-- The object is on the free list of the cache at `base`. -/
def OnFreeList (m : Mem) (base obj : UInt64) : Prop :=
  ∃ free, Links m (freeListHead m base) free ∧ obj ∈ free

/-- A call for the process in `slot`, which obtained the object `obj` unless that is 0, has left no
trace. -/
structure Undone (base slot obj : UInt64) (s s' : Machine) : Prop where
  brkCurrent : (s'.procs.table slot).brkCurrent = (s.procs.table slot).brkCurrent
  mmapBase : (s'.procs.table slot).mmapBase = (s.procs.table slot).mmapBase
  vmaListHead : (s'.procs.table slot).vmaListHead = (s.procs.table slot).vmaListHead
  pages : ∀ v, v < userAddrLimit →
    (getUserPte s'.vm.mem (s.procs.table slot).userPml4 v &&& ptePresent ≠ 0 ↔
      getUserPte s.vm.mem (s.procs.table slot).userPml4 v &&& ptePresent ≠ 0)
  frames : obtained s.vm s'.vm = []
  object : obj ≠ 0 → OnFreeList s'.vm.mem base obj

/-- The object that `sys_mmap` and `ring_mmap` obtain for an area. -/
def areaObject (base slot : UInt64) (s : Machine) (length prot : UInt64) : UInt64 :=
  let start := (s.procs.table slot).mmapBase
  if pageEnd length = 0 then 0
  else (vmaAlloc (Slab.alloc base) s.vm start (start + pageEnd length) prot).1

/-! ### Answers are only taken -/

section Answers

variable {vm vm' : Vm}

theorem alloc_suffix (vm : Vm) : vm.alloc.2.answers <:+ vm.answers := by
  unfold Vm.alloc
  split
  · exact List.suffix_refl _
  · next a answers h =>
    rw [h]
    exact List.suffix_cons a answers

theorem walkOrCreate_suffix {table index flags x : UInt64}
    (h : walkOrCreate vm table index flags = (x, vm')) : vm'.answers <:+ vm.answers := by
  unfold walkOrCreate at h
  dsimp only at h
  generalize vm.mem.read64 (entryAddr table index) = entry at h
  split_ifs at h
  · obtain ⟨-, rfl⟩ := Prod.mk.inj h
    exact List.suffix_refl _
  · obtain ⟨-, rfl⟩ := Prod.mk.inj h
    exact List.suffix_refl _
  · obtain ⟨-, rfl⟩ := Prod.mk.inj h
    exact List.suffix_refl _
  · obtain ⟨-, rfl⟩ := Prod.mk.inj h
    exact alloc_suffix vm
  · obtain ⟨-, rfl⟩ := Prod.mk.inj h
    exact alloc_suffix vm

theorem mapUserPage_suffix {pml4 vaddr paddr flags : UInt64}
    (h : mapUserPage vm pml4 vaddr paddr flags = vm') : vm'.answers <:+ vm.answers := by
  unfold mapUserPage mapKptiPage at h
  dsimp only at h
  rcases hpdp : walkOrCreate vm pml4 (pml4Index vaddr) flags with ⟨pdp, vm₁⟩
  rw [hpdp] at h
  rcases hpd : walkOrCreate vm₁ pdp (pdpIndex vaddr) flags with ⟨pd, vm₂⟩
  rw [hpd] at h
  rcases hpt : walkOrCreate vm₂ pd (pdIndex vaddr) flags with ⟨pt, vm₃⟩
  rw [hpt] at h
  have h₁ := walkOrCreate_suffix hpdp
  have h₂ := (walkOrCreate_suffix hpd).trans h₁
  have h₃ := (walkOrCreate_suffix hpt).trans h₂
  split_ifs at h
  · rw [← h]
  · rw [← h]
    exact h₁
  · rw [← h]
    exact h₂
  · rw [← h]
    exact h₃
  · rw [← h]
    exact h₃

theorem mapFreshFrom_suffix {pml4 stop cursor : UInt64} {n : Nat} {ok : Bool}
    (h : mapFreshFrom pml4 stop n cursor vm = (ok, vm')) : vm'.answers <:+ vm.answers := by
  induction n generalizing cursor vm with
  | zero =>
    obtain ⟨-, rfl⟩ := Prod.mk.inj h
    exact List.suffix_refl _
  | succ n ih =>
    rw [mapFreshFrom] at h
    dsimp only at h
    split_ifs at h
    · obtain ⟨-, rfl⟩ := Prod.mk.inj h
      exact alloc_suffix vm
    · exact (ih h).trans ((mapUserPage_suffix rfl).trans (alloc_suffix vm))
    · obtain ⟨-, rfl⟩ := Prod.mk.inj h
      exact List.suffix_refl _

theorem growCache_suffix {base : UInt64} {ok : Bool} (h : Slab.growCache vm base = (ok, vm')) :
    vm'.answers <:+ vm.alloc.2.answers := by
  unfold Slab.growCache at h
  dsimp only at h
  split_ifs at h
  · obtain ⟨-, rfl⟩ := Prod.mk.inj h
    exact List.suffix_refl _
  · obtain ⟨-, rfl⟩ := Prod.mk.inj h
    exact List.suffix_refl _

theorem allocFrom_suffix {base size x : UInt64} {n : Nat}
    (h : Slab.allocFrom base size n vm = (x, vm')) : vm'.answers <:+ vm.answers := by
  induction n generalizing vm with
  | zero =>
    obtain ⟨-, rfl⟩ := Prod.mk.inj h
    exact List.suffix_refl _
  | succ n ih =>
    rw [Slab.allocFrom] at h
    dsimp only at h
    rcases hgrow : Slab.growCache vm base with ⟨ok, vm₁⟩
    have hgrown := (growCache_suffix hgrow).trans (alloc_suffix vm)
    rw [hgrow] at h
    split_ifs at h
    · obtain ⟨-, rfl⟩ := Prod.mk.inj h
      exact hgrown
    · exact (ih h).trans hgrown
    · obtain ⟨-, rfl⟩ := Prod.mk.inj h
      exact List.suffix_refl _

theorem obtained_ne_nil {a : UInt64} {rest : List UInt64} (hanswers : vm.answers = a :: rest)
    (ha : a ≠ 0) (h : vm'.answers <:+ rest) : obtained vm vm' ≠ [] := by
  have hlen := h.length_le
  obtain ⟨k, hk⟩ : ∃ k, vm.answers.length - vm'.answers.length = k + 1 := by
    refine ⟨rest.length - vm'.answers.length, ?_⟩
    rw [hanswers, List.length_cons]
    omega
  unfold obtained
  rw [hk, hanswers, List.take_succ_cons, List.filter_cons, if_pos (bne_iff_ne.mpr ha)]
  exact List.cons_ne_nil _ _

theorem obtained_of_fail (m : Mem) (h : vm.answers.headD 0 = 0) :
    obtained vm ⟨m, vm.answers.tail⟩ = [] := by
  unfold obtained
  cases hanswers : vm.answers with
  | nil => rfl
  | cons a rest =>
    rw [hanswers] at h
    obtain rfl : a = 0 := h
    simp

end Answers

/-! ### The first page -/

section First

variable {pml4 stop cursor : UInt64} {n : Nat} {vm : Vm}

theorem mapFreshFrom_of_fail (hlt : cursor < stop) (h : vm.answers.headD 0 = 0) :
    mapFreshFrom pml4 stop (n + 1) cursor vm = (false, ⟨vm.mem, vm.answers.tail⟩) := by
  obtain ⟨m, answers⟩ := vm
  rw [mapFreshFrom, if_pos hlt]
  cases answers with
  | nil => rfl
  | cons a rest =>
    obtain rfl : a = 0 := h
    rfl

theorem mapFreshFrom_of_frame (hlt : cursor < stop) {a : UInt64} {rest : List UInt64}
    (hanswers : vm.answers = a :: rest) (ha : a ≠ 0) {ok : Bool} {vm' : Vm}
    (h : mapFreshFrom pml4 stop (n + 1) cursor vm = (ok, vm')) : vm'.answers <:+ rest := by
  have halloc : vm.alloc = (a, ⟨vm.mem, rest⟩) := by
    unfold Vm.alloc
    rw [hanswers]
  rw [mapFreshFrom, if_pos hlt] at h
  dsimp only at h
  rw [halloc, if_neg (by simpa using ha)] at h
  exact (mapFreshFrom_suffix h).trans (mapUserPage_suffix rfl)

theorem mapFresh_succ (vm : Vm) (pml4 : UInt64) {start stop : UInt64}
    (h : start.toNat + 4096 ≤ stop.toNat) :
    start < stop ∧ ∃ n, mapFresh vm pml4 start stop = mapFreshFrom pml4 stop (n + 1) start vm := by
  refine ⟨?_, (stop.toNat - start.toNat) / 4096 - 1, ?_⟩
  · rw [UInt64.lt_iff_toNat_lt]
    omega
  · unfold mapFresh
    rw [show (stop.toNat - start.toNat) / 4096 - 1 + 1 = (stop.toNat - start.toNat) / 4096 from by omega]

end First

/-! ### The heap -/

theorem undone_refl (base slot : UInt64) (s : Machine) : Undone base slot 0 s s := by
  refine ⟨rfl, rfl, rfl, fun _ _ => Iff.rfl, ?_, fun h => absurd rfl h⟩
  unfold obtained
  rw [Nat.sub_self]
  rfl

theorem undone_of_fail (base slot : UInt64) {s : Machine} (h : s.vm.answers.headD 0 = 0) :
    Undone base slot 0 s { s with vm := ⟨s.vm.mem, s.vm.answers.tail⟩ } :=
  ⟨rfl, rfl, rfl, fun _ _ => Iff.rfl, obtained_of_fail s.vm.mem h, fun h => absurd rfl h⟩

theorem headD_cases (answers : List UInt64) :
    answers.headD 0 = 0 ∨ ∃ a rest, answers = a :: rest ∧ a ≠ 0 := by
  cases answers with
  | nil => exact .inl rfl
  | cons a rest =>
    by_cases ha : a = 0
    · exact .inl ha
    · exact .inr ⟨a, rest, rfl, ha⟩

theorem alloc_of_headD {vm : Vm} (h : vm.answers.headD 0 = 0) :
    vm.alloc = (0, ⟨vm.mem, vm.answers.tail⟩) := by
  obtain ⟨m, answers⟩ := vm
  cases answers with
  | nil => rfl
  | cons a rest =>
    obtain rfl : a = 0 := h
    rfl

section Brk

variable {s : Machine} {newBrk : UInt64}

theorem sysBrk_of_fail (hne : newBrk ≠ 0) (hfloor : ¬ newBrk < s.caller.brkBase)
    (hfail : (sysBrk s newBrk).1 ≠ newBrk) :
    pageEnd newBrk > pageEnd s.caller.brkCurrent ∧
    ∃ vm', mapFresh s.vm s.caller.userPml4 (pageEnd s.caller.brkCurrent) (pageEnd newBrk) = (false, vm') ∧
      (sysBrk s newBrk).2 = { s with vm := vm' } := by
  by_cases hgrow : pageEnd newBrk > pageEnd s.caller.brkCurrent
  · refine ⟨hgrow, ?_⟩
    rcases hloop : mapFresh s.vm s.caller.userPml4 (pageEnd s.caller.brkCurrent) (pageEnd newBrk)
      with ⟨ok, vm'⟩
    cases ok with
    | false =>
      have heq : sysBrk s newBrk = (s.caller.brkCurrent, { s with vm := vm' }) := by
        unfold sysBrk
        dsimp only
        rw [if_neg (by simpa using hne), if_neg hfloor, if_pos hgrow, hloop]
        rfl
      exact ⟨vm', rfl, by rw [heq]⟩
    | true =>
      have heq : (sysBrk s newBrk).1 = newBrk := by
        unfold sysBrk
        dsimp only
        rw [if_neg (by simpa using hne), if_neg hfloor, if_pos hgrow, hloop]
        rfl
      exact absurd heq hfail
  · have heq : (sysBrk s newBrk).1 = newBrk := by
      unfold sysBrk
      dsimp only
      rw [if_neg (by simpa using hne), if_neg hfloor, if_neg hgrow]
      rfl
    exact absurd heq hfail

/-- **A failed `sys_brk`** has left no trace when it was rejected or there was no frame at all. -/
theorem undone_brk_iff (base : UInt64) (hne : newBrk ≠ 0) (hfail : (sysBrk s newBrk).1 ≠ newBrk) :
    Undone base s.procs.currentPid 0 s (sysBrk s newBrk).2 ↔
      newBrk < s.caller.brkBase ∨ s.vm.answers.headD 0 = 0 := by
  by_cases hfloor : newBrk < s.caller.brkBase
  · have heq : sysBrk s newBrk = (s.caller.brkCurrent, s) := by
      unfold sysBrk
      rw [if_neg (by simpa using hne), if_pos hfloor]
    rw [heq]
    exact ⟨fun _ => .inl hfloor, fun _ => undone_refl ..⟩
  obtain ⟨hgrow, vm', hloop, hstate⟩ := sysBrk_of_fail hne hfloor hfail
  have hpages : (pageEnd s.caller.brkCurrent).toNat + 4096 ≤ (pageEnd newBrk).toNat := by
    have hlt := UInt64.lt_iff_toNat_lt.mp hgrow
    have h₁ := toNat_pageEnd_mod newBrk
    have h₂ := toNat_pageEnd_mod s.caller.brkCurrent
    omega
  obtain ⟨hlt, n, hfrom⟩ := mapFresh_succ s.vm s.caller.userPml4 hpages
  rw [hfrom] at hloop
  rw [hstate]
  obtain hhead | ⟨a, rest, hanswers, ha⟩ := headD_cases s.vm.answers
  · rw [mapFreshFrom_of_fail hlt hhead] at hloop
    obtain rfl := (Prod.mk.inj hloop).2
    exact ⟨fun _ => .inr hhead, fun _ => undone_of_fail base _ hhead⟩
  · constructor
    · intro hundone
      exact absurd hundone.frames (obtained_ne_nil hanswers ha (mapFreshFrom_of_frame hlt hanswers ha hloop))
    · rintro (hlow | hhead)
      · exact absurd hlow hfloor
      · rw [hanswers] at hhead
        exact absurd hhead ha

end Brk

/-! ### Mappings -/

section Mmap

variable {s : Machine} {base slot length prot : UInt64}

theorem ringMmap_of_area {p : UInt64} {vm₁ : Vm} (hlen : pageEnd length ≠ 0) (hp : p ≠ 0)
    (hvma : vmaAlloc (Slab.alloc base) s.vm (s.procs.table slot).mmapBase
      ((s.procs.table slot).mmapBase + pageEnd length) prot = (p, vm₁)) {ok : Bool} {vm₂ : Vm}
    (hloop : mapFresh vm₁ (s.procs.table slot).userPml4 (s.procs.table slot).mmapBase
      ((s.procs.table slot).mmapBase + pageEnd length) = (ok, vm₂)) :
    ∃ s', ringMmap (Slab.alloc base) s slot length prot =
        (if ok then (s.procs.table slot).mmapBase else 0, s') ∧ s'.vm.answers = vm₂.answers ∧
      (ok = false → s'.vm = vm₂) := by
  unfold ringMmap
  dsimp only
  rw [if_neg (by simpa using hlen), hvma, if_neg (by simpa using hp), hloop]
  cases ok with
  | false => exact ⟨_, rfl, rfl, fun _ => rfl⟩
  | true => exact ⟨_, rfl, rfl, fun h => absurd h (by decide)⟩

theorem vmaAlloc_of_grow {start stop x : UInt64} {vm vm' : Vm} (hhead : freeListHead vm.mem base = 0)
    {a : UInt64} {rest : List UInt64} (hanswers : vm.answers = a :: rest)
    (h : vmaAlloc (Slab.alloc base) vm start stop prot = (x, vm')) : vm'.answers <:+ rest := by
  have halloc : vm.alloc = (a, ⟨vm.mem, rest⟩) := by
    unfold Vm.alloc
    rw [hanswers]
  rcases hobj : Slab.alloc base vm with ⟨p, vm₁⟩
  have hsuffix : vm₁.answers <:+ rest := by
    unfold Slab.alloc at hobj
    rw [Slab.allocFrom] at hobj
    dsimp only at hobj
    rw [hhead, if_pos (beq_self_eq_true _)] at hobj
    rcases hgrow : Slab.growCache vm base with ⟨ok, vm₂⟩
    have hgrown := growCache_suffix hgrow
    rw [halloc] at hgrown
    rw [hgrow] at hobj
    split_ifs at hobj
    · obtain ⟨-, rfl⟩ := Prod.mk.inj hobj
      exact hgrown
    · exact (allocFrom_suffix hobj).trans hgrown
  unfold vmaAlloc at h
  dsimp only at h
  rw [hobj] at h
  split_ifs at h
  · obtain ⟨-, rfl⟩ := Prod.mk.inj h
    exact hsuffix
  · obtain ⟨-, rfl⟩ := Prod.mk.inj h
    exact hsuffix

theorem vmaAlloc_of_free {reg p : UInt64} {pages free : List UInt64} {vm : Vm}
    (hcache : Cache vm.mem reg base 32 pages (p :: free)) (start stop prot : UInt64) :
    ∃ m', vmaAlloc (Slab.alloc base) vm start stop prot = (p, ⟨m', vm.answers⟩) ∧
      ¬ OnFreeList m' base p := by
  obtain ⟨-, hne, -⟩ := hcache.links
  obtain ⟨f, hf, i, hi, hslot⟩ := hcache.slots p (List.mem_cons_self ..)
  have hnot := (List.nodup_cons.mp hcache.nodup).1
  obtain ⟨m₁, halloc, hcache₁, -⟩ := Slab.alloc_of_free hcache vm.answers
  have hcall : vmaAlloc (Slab.alloc base) vm start stop prot = (p,
      ⟨(((m₁.write64 p start).write64 (p + 8) stop).write64 (p + 16) prot).write64 (p + 24) 0,
        vm.answers⟩) := by
    unfold vmaAlloc
    dsimp only
    rw [halloc, if_neg (by simpa using hne)]
  refine ⟨_, hcall, ?_⟩
  · rw [hslot] at hnot
    have hcache₂ := hcache₁.congr_object hf hi hnot fun y hy => vmaFields_outside m₁ hy start stop prot
    rw [← hslot] at hnot hcache₂
    rintro ⟨free', hlinks, hmem⟩
    rw [hlinks.unique hcache₂.links] at hmem
    exact hnot hmem

theorem vmaAlloc_of_fail {reg : UInt64} {pages : List UInt64} {vm : Vm} {start stop : UInt64}
    (hcache : Cache vm.mem reg base 32 pages []) (hnone : vm.answers.headD 0 = 0) :
    vmaAlloc (Slab.alloc base) vm start stop prot = (0, ⟨vm.mem, vm.answers.tail⟩) := by
  have hslab : Slab.alloc base vm = (0, ⟨vm.mem, vm.answers.tail⟩) :=
    Slab.alloc_of_none hcache (alloc_of_headD hnone)
  unfold vmaAlloc
  dsimp only
  rw [hslab, if_pos (beq_self_eq_true _)]

theorem free_of_head {reg : UInt64} {m : Mem} {pages free : List UInt64}
    (hcache : Cache m reg base 32 pages free) (hhead : freeListHead m base = 0) : free = [] := by
  cases free with
  | nil => rfl
  | cons p free =>
    obtain ⟨hp, hne, -⟩ := hcache.links
    exact absurd (hp.symm.trans hhead) hne

theorem noWrap_of_fail {ok : Bool} {vm₁ vm₂ : Vm} {pml4 start : UInt64} (hlen : pageEnd length ≠ 0)
    (hloop : mapFresh vm₁ pml4 start (start + pageEnd length) = (ok, vm₂))
    (hzero : (if ok then start else 0) = 0) :
    start.toNat + 4096 ≤ (start + pageEnd length).toNat := by
  have hmod := toNat_pageEnd_mod length
  have hpos : (pageEnd length).toNat ≠ 0 := fun h => hlen (UInt64.toNat_inj.mp h)
  have hlt := (pageEnd length).toNat_lt
  have hlt' := start.toNat_lt
  rw [UInt64.toNat_add]
  by_cases hwrap : start.toNat + (pageEnd length).toNat < 2 ^ 64
  · rw [Nat.mod_eq_of_lt hwrap]
    omega
  · -- an empty loop succeeds, so the answer 0 is the start of the range, which then does not wrap
    exfalso
    have hempty : mapFresh vm₁ pml4 start (start + pageEnd length) = (true, vm₁) := by
      have hnat : (start + pageEnd length).toNat - start.toNat = 0 := by
        rw [UInt64.toNat_add]
        omega
      unfold mapFresh
      rw [hnat, Nat.zero_div]
      rfl
    rw [hempty] at hloop
    obtain rfl := (Prod.mk.inj hloop).1
    rw [if_pos rfl] at hzero
    rw [hzero, UInt64.toNat_zero] at hwrap
    omega

/-- What `ring_mmap` does after `vma.alloc`, when it answers 0: without an object it ends, and with one
it takes the first frame if there is one. -/
theorem ringMmap_after_vma {p : UInt64} {vm₁ : Vm} (hlen : pageEnd length ≠ 0)
    (hvma : vmaAlloc (Slab.alloc base) s.vm (s.procs.table slot).mmapBase
      ((s.procs.table slot).mmapBase + pageEnd length) prot = (p, vm₁))
    (hfail : (ringMmap (Slab.alloc base) s slot length prot).1 = 0) :
    ∃ s', (ringMmap (Slab.alloc base) s slot length prot).2 = s' ∧ s'.vm.answers <:+ vm₁.answers ∧
      (p ≠ 0 → vm₁.answers.headD 0 = 0 → s'.vm.mem = vm₁.mem) ∧
      (p ≠ 0 → ∀ a rest, vm₁.answers = a :: rest → a ≠ 0 → s'.vm.answers <:+ rest) := by
  by_cases hp : p = 0
  · refine ⟨{ s with vm := vm₁ }, ?_, List.suffix_refl _, fun h => absurd hp h, fun h => absurd hp h⟩
    have heq : ringMmap (Slab.alloc base) s slot length prot = (0, { s with vm := vm₁ }) := by
      unfold ringMmap
      dsimp only
      rw [if_neg (by simpa using hlen), hvma, if_pos (beq_iff_eq.mpr hp)]
    rw [heq]
  rcases hloop : mapFresh vm₁ (s.procs.table slot).userPml4 (s.procs.table slot).mmapBase
    ((s.procs.table slot).mmapBase + pageEnd length) with ⟨ok, vm₂⟩
  obtain ⟨s', hcall, hanswers, hvm⟩ := ringMmap_of_area hlen hp hvma hloop
  rw [hcall] at hfail
  obtain ⟨hlt, n, hfrom⟩ := mapFresh_succ vm₁ (s.procs.table slot).userPml4
    (noWrap_of_fail hlen hloop hfail)
  rw [hfrom] at hloop
  refine ⟨s', by rw [hcall], ?_, ?_, ?_⟩
  · rw [hanswers]
    exact mapFreshFrom_suffix hloop
  · intro _ hnone
    rw [mapFreshFrom_of_fail hlt hnone] at hloop
    obtain ⟨rfl, rfl⟩ := Prod.mk.inj hloop
    rw [hvm rfl]
  · intro _ a rest hrest ha
    rw [hanswers]
    exact mapFreshFrom_of_frame hlt hrest ha hloop

/-- **A failed `ring_mmap`** has left no trace when its length was 0 or there was no object for the
area. -/
theorem undone_mmap_iff {reg : UInt64} {pages free : List UInt64}
    (hcache : Cache s.vm.mem reg base 32 pages free)
    (hfail : (ringMmap (Slab.alloc base) s slot length prot).1 = 0) :
    Undone base slot (areaObject base slot s length prot) s
        (ringMmap (Slab.alloc base) s slot length prot).2 ↔
      pageEnd length = 0 ∨ VmaFails s.vm base := by
  by_cases hlen : pageEnd length = 0
  · have heq : ringMmap (Slab.alloc base) s slot length prot = (0, s) := by
      unfold ringMmap
      rw [if_pos (beq_iff_eq.mpr hlen)]
    have hobj : areaObject base slot s length prot = 0 := by
      unfold areaObject
      rw [if_pos hlen]
    rw [heq, hobj]
    exact ⟨fun _ => .inl hlen, fun _ => undone_refl ..⟩
  rcases hvma : vmaAlloc (Slab.alloc base) s.vm (s.procs.table slot).mmapBase
    ((s.procs.table slot).mmapBase + pageEnd length) prot with ⟨p, vm₁⟩
  have hobj : areaObject base slot s length prot = p := by
    unfold areaObject
    rw [if_neg hlen, hvma]
  by_cases hvmaFails : VmaFails s.vm base
  · -- there is no object, and nothing has been done
    obtain ⟨hhead, hnone⟩ := hvmaFails
    obtain rfl := free_of_head hcache hhead
    rw [vmaAlloc_of_fail hcache hnone] at hvma
    obtain ⟨rfl, rfl⟩ := Prod.mk.inj hvma
    have heq : ringMmap (Slab.alloc base) s slot length prot =
        (0, { s with vm := ⟨s.vm.mem, s.vm.answers.tail⟩ }) := by
      unfold ringMmap
      dsimp only
      rw [if_neg (by simpa using hlen), vmaAlloc_of_fail hcache hnone, if_pos (beq_self_eq_true _)]
    rw [heq, hobj]
    exact ⟨fun _ => .inr ⟨hhead, hnone⟩, fun _ => undone_of_fail base slot hnone⟩
  -- there is an object, which the request keeps
  refine ⟨fun hundone => ?_, fun h => absurd h (by simp [hlen, hvmaFails])⟩
  exfalso
  rw [hobj] at hundone
  obtain ⟨s', hcall, hsuffix, hkept, htaken⟩ := ringMmap_after_vma hlen hvma hfail
  rw [hcall] at hundone
  by_cases hhead : freeListHead s.vm.mem base = 0
  · -- the cache has taken a page
    obtain hnone | ⟨a, rest, hanswers, ha⟩ := headD_cases s.vm.answers
    · exact hvmaFails ⟨hhead, hnone⟩
    · exact obtained_ne_nil hanswers ha (hsuffix.trans (vmaAlloc_of_grow hhead hanswers hvma))
        hundone.frames
  · -- the object was free
    cases free with
    | nil => exact hhead hcache.links
    | cons q free =>
      obtain ⟨m', hcall', hnotFree⟩ := vmaAlloc_of_free hcache (s.procs.table slot).mmapBase
        ((s.procs.table slot).mmapBase + pageEnd length) prot
      rw [hcall'] at hvma
      obtain ⟨rfl, rfl⟩ := Prod.mk.inj hvma
      have hq : q ≠ 0 := hcache.links.2.1
      obtain hnone | ⟨a, rest, hanswers, ha⟩ := headD_cases s.vm.answers
      · have hobject := hundone.object hq
        rw [hkept hq hnone] at hobject
        exact hnotFree hobject
      · exact obtained_ne_nil hanswers ha (htaken hq a rest hanswers ha) hundone.frames

end Mmap

/-- **Failed requests for memory** have left no trace exactly when they had obtained nothing. -/
theorem undone_iff (reg base : UInt64) (pages free : List UInt64) (s : Machine)
    (hcache : Cache s.vm.mem reg base 32 pages free) :
    (∀ newBrk, newBrk ≠ 0 → (sysBrk s newBrk).1 ≠ newBrk →
      (Undone base s.procs.currentPid 0 s (sysBrk s newBrk).2 ↔
        newBrk < s.caller.brkBase ∨ s.vm.answers.headD 0 = 0)) ∧
    (∀ length prot, (sysMmap (Slab.alloc base) s length prot).1 = 0 →
      (Undone base s.procs.currentPid (areaObject base s.procs.currentPid s length prot) s
          (sysMmap (Slab.alloc base) s length prot).2 ↔
        pageEnd length = 0 ∨ VmaFails s.vm base)) ∧
    ∀ slot length prot, (ringMmap (Slab.alloc base) s slot length prot).1 = 0 →
      (Undone base slot (areaObject base slot s length prot) s
          (ringMmap (Slab.alloc base) s slot length prot).2 ↔
        pageEnd length = 0 ∨ VmaFails s.vm base) := by
  refine ⟨fun newBrk hne hfail => undone_brk_iff base hne hfail, ?_, ?_⟩
  · intro length prot hfail
    -- `sys_mmap` is `ring_mmap` for the running process
    exact undone_mmap_iff hcache
      (show (ringMmap (Slab.alloc base) s s.procs.currentPid length prot).1 = 0 from hfail)
  · intro slot length prot hfail
    exact undone_mmap_iff hcache hfail

/-! ### Runs -/

/-- A process with the page tables at `0x1000`, an empty heap at 0 and an empty cache. -/
def emptyProc (answers : List UInt64) : Machine where
  procs := { Procs.zero with
    table := fun _ => { Pcb.zero with userPml4 := 0x1000, mmapBase := 0x400000000000 } }
  vm := ⟨areaMem, answers⟩

/-- The page tables at `0x1000` with one page of a heap, at 0. -/
def brkMem : Mem :=
  (((areaMem.write64 (Pmm.physToVirt 0x1000) 0x2007).write64 (Pmm.physToVirt 0x2000) 0x3007).write64
    (Pmm.physToVirt 0x3000) 0x4007).write64 (Pmm.physToVirt 0x4000) 0x5007

/-- The process with this heap, and no frame. -/
def brkProc : Machine where
  procs := { Procs.zero with table := fun _ => { Pcb.zero with userPml4 := 0x1000, brkCurrent := 0x1000 } }
  vm := ⟨brkMem, []⟩

theorem cache_brkMem : Cache brkMem 0x9000 (Pmm.physToVirt 0x9000) 32 [] [] := by
  refine cache_areaMem.1.congr_pages fun f hf y hy => ?_
  obtain rfl := List.mem_singleton.mp hf
  have hout : ∀ q, PageAligned q → q ≠ 0x9000 → ¬ InBlock (Pmm.physToVirt q) 8 y :=
    fun q hq hne hin => pages_disjoint hq pageAligned_0x9000 hne y (hin.mono (by decide)) hy
  refine (Mem.write64_of_not_mem (hout 0x4000 (by unfold PageAligned; decide) (by decide))).trans ?_
  refine (Mem.write64_of_not_mem (hout 0x3000 (by unfold PageAligned; decide) (by decide))).trans ?_
  refine (Mem.write64_of_not_mem (hout 0x2000 (by unfold PageAligned; decide) (by decide))).trans ?_
  exact Mem.write64_of_not_mem (hout 0x1000 (by unfold PageAligned; decide) (by decide))

/-- Without any frame, the heap does not grow, and its page stays as it is. -/
theorem undone_iff_noFrames :
    (sysBrk brkProc 0x2000).1 ≠ 0x2000 ∧
      Undone (Pmm.physToVirt 0x9000) 0 0 brkProc (sysBrk brkProc 0x2000).2 := by
  have hfail : (sysBrk brkProc 0x2000).1 ≠ 0x2000 := by
    decide +kernel
  obtain ⟨hbrk, -, -⟩ := undone_iff 0x9000 (Pmm.physToVirt 0x9000) [] [] brkProc cache_brkMem
  exact ⟨hfail, (hbrk 0x2000 (by decide) hfail).mpr (.inr rfl)⟩

/-- **A heap that should grow by two pages**, when there is one frame: the request fails and keeps it. -/
theorem not_undone_two_pages :
    (sysBrk (emptyProc [0x2000]) 0x2000).1 ≠ 0x2000 ∧
      ¬ Undone (Pmm.physToVirt 0x9000) 0 0 (emptyProc [0x2000]) (sysBrk (emptyProc [0x2000]) 0x2000).2 := by
  have hfail : (sysBrk (emptyProc [0x2000]) 0x2000).1 ≠ 0x2000 := by
    decide +kernel
  refine ⟨hfail, ?_⟩
  intro hundone
  have hbrk := (undone_brk_iff (s := emptyProc [0x2000]) (Pmm.physToVirt 0x9000) (by decide) hfail).mp hundone
  exact absurd hbrk (by decide)

end Keuos.Syscall
