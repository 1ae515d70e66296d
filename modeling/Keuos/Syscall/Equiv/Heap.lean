import Keuos.Lib.Run
import Keuos.Syscall.Equiv.Fresh
import Mathlib.Data.Bool.AllAny

/-!
# The heap of a process

`sys_brk` calls in any order keep the heap mapped (`HeapLaws`) as long as each call is one for which the
loop maps what it takes frames for (`BrkOk`): the new end does not wrap around when it is rounded up to
a page, and every page that gets a frame lies below the address limit, is not mapped already, and gets
its tables.  Otherwise `map_user_page` does nothing, or it replaces an entry, and `sys_brk` answers that
the heap has grown.

## Main results

* `heap_of_served`: the law, for runs of such calls.
* `not_heapLaws_wrap`: an end in the last page of the address space is accepted, and nothing is mapped.
-/

namespace Keuos.Syscall

open Process Paging

/-- The pages of `[start, stop)` are mapped, also the last one if `stop` lies inside it. -/
def RangeMapped (m : Mem) (pml4 start stop : UInt64) : Prop :=
  ∀ v : UInt64, start ≤ v → v.toNat < (stop.toNat + 4095) / 4096 * 4096 →
    translateUserAddr m pml4 v ≠ 0

/-- A frame is held by a leaf entry, or it is a table. -/
def Held (m : Mem) (pml4 a : UInt64) : Prop :=
  (∃ v, v < userAddrLimit ∧ getUserPte m pml4 v &&& ptePresent ≠ 0 ∧ getUserPte m pml4 v &&& addrMask = a) ∨
    ∃ q, UserPath q ∧ q ≠ [] ∧ table m pml4 q = some a

/-- The state after a call of `sys_brk`. -/
def brk (s : Machine) (newBrk : UInt64) : Machine :=
  (sysBrk s newBrk).2

/-- The law of the heap, for the calls `ops` from `s₀` on: the heap is mapped, it was mapped whenever a
call answered the requested end, and no frame that a call took is lost. -/
def HeapLaws (s₀ : Machine) (ops : List UInt64) : Prop :=
  let s := runOps brk s₀ ops
  RangeMapped s.vm.mem s.caller.userPml4 s.caller.brkBase s.caller.brkCurrent ∧
    (∀ before newBrk after, ops = before ++ newBrk :: after → newBrk ≠ 0 →
      (sysBrk (runOps brk s₀ before) newBrk).1 = newBrk →
        let t := brk (runOps brk s₀ before) newBrk
        RangeMapped t.vm.mem t.caller.userPml4 t.caller.brkBase newBrk) ∧
    ∃ used, s₀.vm.answers = used ++ s.vm.answers ∧
      ∀ a ∈ used, a ≠ 0 → Held s.vm.mem s.caller.userPml4 a

/-- A page that may get a frame. -/
def Mappable (m : Mem) (pml4 v : UInt64) : Prop :=
  v < userAddrLimit ∧ getUserPte m pml4 v &&& ptePresent = 0

/-- The calls that map what they take frames for. -/
def BrkOk (s : Machine) (newBrk : UInt64) : Prop :=
  newBrk = 0 ∨ newBrk < s.caller.brkBase ∨
    (newBrk.toNat + 4095 < 2 ^ 64 ∧
      let start := pageEnd s.caller.brkCurrent
      Served (Mappable s.vm.mem s.caller.userPml4) (tabled s.vm.mem s.caller.userPml4)
        (pagesFrom (((pageEnd newBrk).toNat - start.toNat) / 4096) start) s.vm.answers)

/-- A process whose heap is still empty. -/
structure HeapStart (roots : Set UInt64) (s : Machine) : Prop where
  root : s.caller.userPml4 ∈ roots
  tables : Tables roots s.vm.mem
  supply : Supply roots s.vm.mem s.vm.answers
  empty : s.caller.brkCurrent = s.caller.brkBase
  aligned : PageAligned s.caller.brkBase

/-! ### The invariant -/

structure HeapInv (roots : Set UInt64) (answers : List UInt64) (s : Machine) : Prop where
  root : s.caller.userPml4 ∈ roots
  tables : Tables roots s.vm.mem
  supply : Supply roots s.vm.mem s.vm.answers
  aligned : PageAligned s.caller.brkBase
  base_le : s.caller.brkBase ≤ s.caller.brkCurrent
  noWrap : s.caller.brkCurrent.toNat + 4095 < 2 ^ 64
  covered : ∀ v : UInt64, s.caller.brkBase ≤ v →
    v.toNat < (s.caller.brkCurrent.toNat + 4095) / 4096 * 4096 →
      v < userAddrLimit ∧ HasFrame (leaf s.vm.mem s.caller.userPml4 v)
  held : ∃ used, answers = used ++ s.vm.answers ∧
    ∀ a ∈ used, a ≠ 0 → Held s.vm.mem s.caller.userPml4 a

section Brk

variable {roots : Set UInt64} {answers : List UInt64} {s : Machine} {newBrk : UInt64}

theorem HeapInv.start (h : HeapStart roots s) : HeapInv roots s.vm.answers s := by
  have haligned := h.aligned
  have hlt := s.caller.brkBase.toNat_lt
  unfold PageAligned at haligned
  refine ⟨h.root, h.tables, h.supply, h.aligned, ?_, ?_, ?_, [], rfl, by simp⟩
  · rw [h.empty]
    exact UInt64.le_refl _
  · rw [h.empty]
    omega
  · intro v hv hlt
    rw [h.empty] at hlt
    rw [UInt64.le_iff_toNat_le] at hv
    omega

theorem Held.filled {vm vm' : Vm} {root a : UInt64} {pages used : List UInt64} (hroot : root ∈ roots)
    (hfilled : Filled roots root vm vm' pages used) (hpages : ∀ w ∈ pages, Mappable vm.mem root w)
    (h : Held vm.mem root a) : Held vm'.mem root a := by
  obtain ⟨v, hv, hpresent, haddr⟩ | ⟨q, hq, hne, hx⟩ := h
  · have hsame : leaf vm'.mem root v = leaf vm.mem root v := by
      refine hfilled.others root hroot v hv ?_
      intro _ w hw heq
      have habsent := (hpages w hw).2
      rw [getUserPte_eq_leaf, ← leaf_of_samePage vm.mem root heq, ← getUserPte_eq_leaf] at habsent
      exact hpresent habsent
    rw [getUserPte_eq_leaf, ← hsame, ← getUserPte_eq_leaf] at hpresent haddr
    exact .inl ⟨v, hv, hpresent, haddr⟩
  · exact .inr ⟨q, hq, hne, hfilled.keeps root hroot q hq a hx⟩

theorem held_of_filled {vm vm' : Vm} {root a : UInt64} {pages used : List UInt64}
    (hs : Supply roots vm.mem vm.answers) (hfilled : Filled roots root vm vm' pages used)
    (hpages : ∀ w ∈ pages, w < userAddrLimit) (ha : a ∈ used) (hne : a ≠ 0) :
    Held vm'.mem root a := by
  obtain ⟨w, hw, hleaf⟩ | htable := hfilled.placed a ha hne
  · have hframe : FreshFrame roots vm.mem a := by
      refine hs.frame ?_ hne
      rw [hfilled.answers]
      exact List.mem_append_left _ ha
    obtain ⟨hpresent, haddr⟩ := hasFrame_present hframe.aligned hframe.small
    refine .inl ⟨w, hpages w hw, ?_, ?_⟩
    · rw [getUserPte_eq_leaf, hleaf]
      exact hpresent
    · rw [getUserPte_eq_leaf, hleaf]
      exact haddr
  · exact .inr htable

theorem HeapInv.grow (h : HeapInv roots answers s) (hnew : newBrk.toNat + 4095 < 2 ^ 64)
    (hserved : Served (Mappable s.vm.mem s.caller.userPml4) (tabled s.vm.mem s.caller.userPml4)
      (pagesFrom (((pageEnd newBrk).toNat - (pageEnd s.caller.brkCurrent).toNat) / 4096)
        (pageEnd s.caller.brkCurrent)) s.vm.answers) :
    ∃ ok vm' k used,
      (if pageEnd newBrk > pageEnd s.caller.brkCurrent then
        mapFresh s.vm s.caller.userPml4 (pageEnd s.caller.brkCurrent) (pageEnd newBrk)
      else (true, s.vm)) = (ok, vm') ∧
      (ok = true → (pageEnd newBrk).toNat ≤ (pageEnd s.caller.brkCurrent).toNat + 4096 * k) ∧
      (pageEnd s.caller.brkCurrent).toNat + 4096 * k < 2 ^ 64 ∧
      (∀ w ∈ pagesFrom k (pageEnd s.caller.brkCurrent), Mappable s.vm.mem s.caller.userPml4 w) ∧
      Filled roots s.caller.userPml4 s.vm vm' (pagesFrom k (pageEnd s.caller.brkCurrent)) used := by
  have hcur := toNat_pageEnd h.noWrap
  have hend := toNat_pageEnd hnew
  have hlt₁ := (pageEnd newBrk).toNat_lt
  have hlt₂ := (pageEnd s.caller.brkCurrent).toNat_lt
  by_cases hgrow : pageEnd newBrk > pageEnd s.caller.brkCurrent
  · rw [if_pos hgrow]
    have hlt := UInt64.lt_iff_toNat_lt.mp hgrow
    obtain ⟨ok, vm', k, used, hloop, hk, hall, hfits, hfilled⟩ := mapFreshFrom_spec
      (fun v hv => hv.1) h.root
      (show (pageEnd s.caller.brkCurrent).toNat + 4096 * _ = (pageEnd newBrk).toNat by omega) h.tables
      h.supply (fun q _ => rfl) hserved
    refine ⟨ok, vm', k, used, hloop, ?_, ?_, hfits, hfilled⟩
    · intro hok
      have := hall hok
      omega
    · omega
  · rw [if_neg hgrow]
    rw [gt_iff_lt, UInt64.lt_iff_toNat_lt] at hgrow
    refine ⟨true, s.vm, 0, [], rfl, ?_, ?_, ?_, Filled.nil h.tables rfl (by simp) h.supply⟩
    · intro _
      omega
    · omega
    · intro w hw
      exact absurd hw (by simp [pagesFrom])

theorem HeapInv.covered_grow (h : HeapInv roots answers s) {vm' : Vm} {k : Nat} {used : List UInt64}
    (hbound : (pageEnd s.caller.brkCurrent).toNat + 4096 * k < 2 ^ 64)
    (hpages : ∀ w ∈ pagesFrom k (pageEnd s.caller.brkCurrent), Mappable s.vm.mem s.caller.userPml4 w)
    (hfilled : Filled roots s.caller.userPml4 s.vm vm' (pagesFrom k (pageEnd s.caller.brkCurrent)) used)
    {v : UInt64} (hv : s.caller.brkBase ≤ v)
    (hlt : v.toNat < (pageEnd s.caller.brkCurrent).toNat + 4096 * k) :
    v < userAddrLimit ∧ HasFrame (leaf vm'.mem s.caller.userPml4 v) := by
  have hcur := toNat_pageEnd h.noWrap
  by_cases hold : v.toNat < (pageEnd s.caller.brkCurrent).toNat
  · -- a page of the old heap, below all the new ones
    obtain ⟨huser, hframe⟩ := h.covered v hv (by omega)
    refine ⟨huser, ?_⟩
    rw [hfilled.others _ h.root v huser]
    · exact hframe
    · intro _ w hw heq
      obtain ⟨j, -, hj⟩ := (mem_pagesFrom hbound).mp hw
      have hdiv := congrArg UInt64.toNat heq
      rw [toNat_shiftRight_twelve, toNat_shiftRight_twelve] at hdiv
      omega
  · have haligned : PageAligned (pageEnd s.caller.brkCurrent) := by
      unfold PageAligned
      omega
    exact hfilled.covers (fun w hw => (hpages w hw).1) haligned hbound (Nat.not_lt.mp hold) hlt

theorem HeapInv.of_filled (h : HeapInv roots answers s) {s' : Machine} {k : Nat} {used : List UInt64}
    (hbound : (pageEnd s.caller.brkCurrent).toNat + 4096 * k < 2 ^ 64)
    (hpages : ∀ w ∈ pagesFrom k (pageEnd s.caller.brkCurrent), Mappable s.vm.mem s.caller.userPml4 w)
    (hfilled : Filled roots s.caller.userPml4 s.vm s'.vm (pagesFrom k (pageEnd s.caller.brkCurrent)) used)
    (hpml4 : s'.caller.userPml4 = s.caller.userPml4) (hbase : s'.caller.brkBase = s.caller.brkBase)
    (hle : s.caller.brkBase ≤ s'.caller.brkCurrent) (hwrap : s'.caller.brkCurrent.toNat + 4095 < 2 ^ 64)
    (hend : (s'.caller.brkCurrent.toNat + 4095) / 4096 * 4096 ≤
      (pageEnd s.caller.brkCurrent).toNat + 4096 * k) :
    HeapInv roots answers s' := by
  obtain ⟨old, hanswers, hheld⟩ := h.held
  have hroot := h.root
  have haligned := h.aligned
  rw [← hpml4] at hroot
  rw [← hbase] at haligned
  rw [← hbase] at hle
  refine ⟨hroot, hfilled.tables, hfilled.supply, haligned, hle, hwrap, ?_, old ++ used, ?_, ?_⟩
  · intro v hv hlt
    rw [hbase] at hv
    rw [hpml4]
    exact h.covered_grow hbound hpages hfilled hv (Nat.lt_of_lt_of_le hlt hend)
  · rw [hanswers, hfilled.answers, List.append_assoc]
  · intro a ha hne
    rw [hpml4]
    obtain ha | ha := List.mem_append.mp ha
    · exact (hheld a ha hne).filled h.root hfilled hpages
    · exact held_of_filled h.supply hfilled (fun w hw => (hpages w hw).1) ha hne

/-- **One call of `sys_brk`** keeps the heap good, and if it answers the requested end then this is the
end of the heap. -/
theorem HeapInv.step (h : HeapInv roots answers s) (hok : BrkOk s newBrk) :
    HeapInv roots answers (brk s newBrk) ∧
      (newBrk ≠ 0 → (sysBrk s newBrk).1 = newBrk → (brk s newBrk).caller.brkCurrent = newBrk) := by
  -- Neither a query nor an end below the base changes anything.
  by_cases hzero : newBrk = 0
  · have heq : sysBrk s newBrk = (s.caller.brkCurrent, s) := by
      unfold sysBrk
      rw [if_pos (beq_iff_eq.mpr hzero)]
    unfold brk
    rw [heq]
    exact ⟨h, fun hne => absurd hzero hne⟩
  by_cases hfloor : newBrk < s.caller.brkBase
  · have heq : sysBrk s newBrk = (s.caller.brkCurrent, s) := by
      unfold sysBrk
      rw [if_neg (by simpa using hzero), if_pos hfloor]
    unfold brk
    rw [heq]
    exact ⟨h, fun _ hret => hret⟩
  obtain ⟨hnew, hserved⟩ := (hok.resolve_left hzero).resolve_left hfloor
  obtain ⟨ok, vm', k, used, hloop, hall, hbound, hpages, hfilled⟩ := h.grow hnew hserved
  have hcur := toNat_pageEnd h.noWrap
  have hend := toNat_pageEnd hnew
  cases ok with
  -- A page that could not be had leaves the end as it was; the pages before it stay mapped.
  | false =>
    have heq : sysBrk s newBrk = (s.caller.brkCurrent, { s with vm := vm' }) := by
      unfold sysBrk
      dsimp only
      rw [if_neg (by simpa using hzero), if_neg hfloor, hloop]
      rfl
    unfold brk
    rw [heq]
    refine ⟨h.of_filled hbound hpages hfilled rfl rfl h.base_le h.noWrap ?_, fun _ hret => hret⟩
    rw [hcur]
    exact Nat.le_add_right _ _
  -- Every page is mapped, up to the one that holds the new end.
  | true =>
    have heq : sysBrk s newBrk =
        (newBrk, ⟨s.procs.modify s.procs.currentPid fun b => { b with brkCurrent := newBrk }, vm'⟩) := by
      unfold sysBrk
      dsimp only
      rw [if_neg (by simpa using hzero), if_neg hfloor, hloop]
      rfl
    unfold brk
    rw [heq]
    dsimp only
    generalize hs' : Machine.mk (s.procs.modify s.procs.currentPid
      fun b => { b with brkCurrent := newBrk }) vm' = s'
    have hcaller : s'.caller = { s.caller with brkCurrent := newBrk } := by
      rw [← hs']
      exact caller_modify ..
    have hbrk : s'.caller.brkCurrent = newBrk := by
      rw [hcaller]
    have hvm : vm' = s'.vm := by
      rw [← hs']
    rw [hvm] at hfilled
    refine ⟨h.of_filled hbound hpages hfilled ?_ ?_ ?_ ?_ ?_, fun _ _ => hbrk⟩
    · rw [hcaller]
    · rw [hcaller]
    · rw [hbrk]
      exact UInt64.not_lt.mp hfloor
    · rw [hbrk]
      exact hnew
    · rw [hbrk, ← hend]
      exact hall rfl

/-- **The heap stays good** over a run. -/
theorem HeapInv.run (h : HeapInv roots answers s) {ops : List UInt64}
    (hok : Admissible brk BrkOk s ops) : HeapInv roots answers (runOps brk s ops) :=
  runOps_induction (fun _ _ hs hstep => (hs.step hstep).1) h hok

theorem HeapInv.rangeMapped (h : HeapInv roots answers s) :
    RangeMapped s.vm.mem s.caller.userPml4 s.caller.brkBase s.caller.brkCurrent :=
  fun v hv hlt => (h.covered v hv hlt).2.translate

end Brk

/-- **The law of the heap**, for calls that map what they take frames for. -/
theorem heap_of_served (roots : Set UInt64) (s₀ : Machine) (hs₀ : HeapStart roots s₀)
    (ops : List UInt64) (hok : Admissible brk BrkOk s₀ ops) : HeapLaws s₀ ops := by
  have hstart := HeapInv.start hs₀
  have hend := hstart.run hok
  refine ⟨hend.rangeMapped, ?_, hend.held⟩
  intro before newBrk after hops hne hret
  rw [hops] at hok
  obtain ⟨hbefore, hstep⟩ := hok.split
  obtain ⟨hinv, hbrk⟩ := (hstart.run hbefore).step hstep
  have hmapped := hinv.rangeMapped
  rw [hbrk hne hret] at hmapped
  exact hmapped

/-! ### Runs -/

/-- A process with an empty heap at `0x400000` and the page tables at `0x1000`. -/
def heapProc (answers : List UInt64) : Machine where
  procs := { Procs.zero with
    table := fun _ => { Pcb.zero with userPml4 := 0x1000, brkBase := 0x400000, brkCurrent := 0x400000 } }
  vm := ⟨fun _ => 0, answers⟩

theorem heapStart_heapProc {answers : List UInt64} (hnodup : (answers.filter (· != 0)).Nodup)
    (hfresh : ∀ a ∈ answers, a ≠ 0 → PageAligned a ∧ a.toNat < 2 ^ 52 ∧ a ≠ 0x1000) :
    HeapStart {0x1000} (heapProc answers) := by
  refine ⟨rfl, tables_zero pageAligned_0x1000, ⟨hnodup, ?_⟩, rfl, ?_⟩
  · intro a ha
    obtain ⟨hmem, hne⟩ := List.mem_filter.mp ha
    obtain ⟨haligned, hsmall, hroot⟩ := hfresh a hmem (bne_iff_ne.mp hne)
    exact freshFrame_zero (bne_iff_ne.mp hne) haligned hsmall hroot
  · show PageAligned 0x400000
    unfold PageAligned
    decide

theorem heapStart_fourPages : HeapStart {0x1000} (heapProc [0x2000, 0x3000, 0x4000, 0x5000]) := by
  refine heapStart_heapProc (by decide) ?_
  intro a ha _
  unfold PageAligned
  simp only [List.mem_cons, List.not_mem_nil, or_false] at ha
  obtain rfl | rfl | rfl | rfl := ha
  · decide
  · decide
  · decide
  · decide

theorem brkOk_fourPages : BrkOk (heapProc [0x2000, 0x3000, 0x4000, 0x5000]) 0x400800 := by
  refine .inr (.inr ⟨by decide, ?_⟩)
  show Served (Mappable (fun _ => 0) 0x1000) (tabled (fun _ => 0) 0x1000) [0x400000]
    [0x2000, 0x3000, 0x4000, 0x5000]
  refine .inr ⟨⟨by decide, ?_⟩, ?_⟩
  · rw [getUserPte_zero, UInt64.zero_and]
  · rw [wants_zero]
    exact ⟨Nat.le_refl 3, List.all_iff_forall_prop.mp (by decide), trivial⟩

/-- Half a page of heap. -/
theorem heap_of_served_fourPages :
    HeapStart {0x1000} (heapProc [0x2000, 0x3000, 0x4000, 0x5000]) ∧
      HeapLaws (heapProc [0x2000, 0x3000, 0x4000, 0x5000]) [0x400800] := by
  have hok : Admissible brk BrkOk (heapProc [0x2000, 0x3000, 0x4000, 0x5000]) [0x400800] :=
    ⟨brkOk_fourPages, trivial⟩
  exact ⟨heapStart_fourPages, heap_of_served {0x1000} _ heapStart_fourPages _ hok⟩

/-- **An end in the last page of the address space**: its page end is 0, so nothing is mapped, and the
call answers that the heap ends there. -/
theorem not_heapLaws_wrap :
    HeapStart {0x1000} (heapProc []) ∧ (sysBrk (heapProc []) 0xFFFFFFFFFFFFFFFF).1 = 0xFFFFFFFFFFFFFFFF ∧
      ¬ HeapLaws (heapProc []) [0xFFFFFFFFFFFFFFFF] := by
  refine ⟨heapStart_heapProc (by decide) (by simp), by decide, ?_⟩
  rintro ⟨hmapped, -, -⟩
  refine hmapped 0x400000 (by decide) (by decide) ?_
  exact translateUserAddr_zero 0x400000

end Keuos.Syscall
