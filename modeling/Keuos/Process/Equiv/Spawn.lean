import Keuos.Process.Spawn

/-!
# Failed spawns

Both loaders take a slot with `alloc_pid`, which makes it READY, before they allocate the kernel stack and
the page tables, and none of the error exits after that gives the slot back.  So a spawn that fails leaves
the process table as it was only when it fails before it has taken a slot.

## Main results

* `spawn_refused`, `spawn_abandoned`, `spawn_loaded` – the three ways in which a spawn can end.
* `spawn_intact_iff` – when a failed spawn has no effect, and what follows for runs.
-/

namespace Keuos.Spawn

open Process Paging
open Pmm (physToVirt)

/-! ### Calls -/

/-- A call of one of the two loaders. -/
inductive Call where
  | process (elfBase kernelPml4 : UInt64)
  | fromInode (read : ReadOp) (kernelPml4 : UInt64)

/-- What a call returns and does. -/
def spawn (env : Env) (s : Loader) : Call → UInt64 × Loader
  | .process elfBase kernelPml4 => spawnProcess env s elfBase kernelPml4
  | .fromInode read kernelPml4 => spawnProcessFromInode env read s kernelPml4

def Call.kernelPml4 : Call → UInt64
  | .process _ kernelPml4 => kernelPml4
  | .fromInode _ kernelPml4 => kernelPml4

/-- The image that a call opens, with the memory and the page allocator after it has been read. -/
def opened (env : Env) (s : Loader) : Call → Image × Vm
  | .process elfBase _ => (memoryImage env s.vm.mem elfBase, s.vm)
  | .fromInode read _ =>
    let page := s.vm.alloc
    let header := read 0 (physToVirt page.1) 4096 page.2.mem
    (inodeImage read header.2 page.1 header.1, { page.2 with mem := header.2 })

/-- The header is accepted. -/
def headerOk (s : Loader) : Call → Bool
  | .process elfBase _ => validateElf s.vm.mem elfBase
  | .fromInode read _ =>
    let page := s.vm.alloc
    let header := read 0 (physToVirt page.1) 4096 page.2.mem
    !(header.1 < 64) && validateElf header.2 (physToVirt page.1)

/-- The header is accepted and a slot is free. -/
def takesSlot (s : Loader) (call : Call) : Bool :=
  headerOk s call && (allocPid s.procs).1 < maxProcs

/-- What `pmm.alloc` answers for the kernel stack. -/
def kstackOf (vm : Vm) : UInt64 := (allocKernelStack vm).1

/-- What `pmm.alloc` answers for the page tables. -/
def pml4Of (vm : Vm) (kernelPml4 : UInt64) : UInt64 :=
  (createUserPml4 (allocKernelStack vm).2 kernelPml4).1

/-- Every segment to load passes the check of its loader. -/
def segmentsOk (image : Image) (vm : Vm) (kernelPml4 : UInt64) : Bool :=
  let pml4 := createUserPml4 (allocKernelStack vm).2 kernelPml4
  (loadSegments image pml4.1 (image.prepare pml4.2 pml4.1)).1

/-- `pmm.alloc` answers the kernel stack and the page tables, the program headers are in bounds, and every
segment is accepted. -/
def accepted (image : Image) (vm : Vm) (kernelPml4 : UInt64) : Bool :=
  kstackOf vm != 0 && pml4Of vm kernelPml4 != 0 && phdrsInBounds image.header image.size &&
    segmentsOk image vm kernelPml4

def loads (env : Env) (s : Loader) (call : Call) : Bool :=
  accepted (opened env s call).1 (opened env s call).2 call.kernelPml4

/-! ### The process table and the page allocator -/

theorem allocPid_of_lt {p : Procs} (h : (allocPid p).1 < maxProcs) :
    (allocPid p).2 = claimSlot p (allocPid p).1 := by
  rcases allocPid_cases p with hfull | ⟨slot, -, htake⟩
  · rw [hfull] at h
    exact absurd h (UInt64.lt_irrefl _)
  · rw [htake]

theorem allocPid_of_not_lt {p : Procs} (h : ¬(allocPid p).1 < maxProcs) : (allocPid p).2 = p := by
  rcases allocPid_cases p with hfull | ⟨slot, hslot, htake⟩
  · rw [hfull]
  · rw [htake] at h
    exact absurd hslot h

theorem alloc_answers (vm : Vm) : ∃ used, vm.answers = used ++ vm.alloc.2.answers ∧
    ∀ a ≠ 0, used.count a ≤ [vm.alloc.1].count a := by
  obtain ⟨m, answers⟩ := vm
  cases answers with
  | nil => exact ⟨[], rfl, fun a _ => by simp⟩
  | cons a rest => exact ⟨[a], rfl, fun b _ => le_rfl⟩

@[simp] theorem procs_foldl_free (pages : List UInt64) (s : Loader) :
    (pages.foldl Loader.free s).procs = s.procs := by
  induction pages generalizing s with
  | nil => rfl
  | cons a pages ih => exact ih (s.free a)

/-! ### The three ends of a spawn -/

/-- The frames that the call has taken from `pmm` have all been returned. -/
def Returned (s s' : Loader) : Prop :=
  ∃ used back, s.vm.answers = used ++ s'.vm.answers ∧ s'.freed = s.freed ++ back ∧
    ∀ a ≠ 0, used.count a ≤ back.count a

theorem Returned.of_vm {s s' : Loader} (hanswers : s'.vm.answers = s.vm.answers)
    (hfreed : s'.freed = s.freed) : Returned s s' := by
  refine ⟨[], [], hanswers.symm, ?_, fun _ _ => le_rfl⟩
  rw [hfreed, List.append_nil]

theorem Returned.of_free {s s' : Loader} (hanswers : s'.vm.answers = s.vm.alloc.2.answers)
    (hfreed : s'.freed = s.freed ++ [s.vm.alloc.1]) : Returned s s' := by
  obtain ⟨used, hused, hcount⟩ := alloc_answers s.vm
  exact ⟨used, [s.vm.alloc.1], by rw [hanswers, ← hused], hfreed, hcount⟩

/-- The control block has the page tables and the kernel stack that were allocated for it. -/
def Equipped (b : Pcb) (kstack pml4 : UInt64) : Prop :=
  kstack ≠ 0 ∧ pml4 ≠ 0 ∧ b.userPml4 = pml4 ∧ b.kernelStackBase = physToVirt kstack ∧
    b.kernelStackTop = physToVirt (kstack + kstackSize) ∧
    b.kernelRsp = physToVirt (kstack + kstackSize) - 96

section Load

variable (env : Env) (s : Loader) (image : Image) (slot kernelPml4 : UInt64)

theorem load_of_not_accepted (h : accepted image s.vm kernelPml4 = false) :
    (load env s image slot kernelPml4).1 = maxProcs ∧
      (load env s image slot kernelPml4).2.procs = s.procs := by
  unfold load
  dsimp only
  split
  · exact ⟨rfl, procs_foldl_free ..⟩
  · next hkstack =>
    unfold loadTables
    dsimp only
    split
    · exact ⟨rfl, procs_foldl_free ..⟩
    · next hpml4 =>
      split
      · exact ⟨rfl, procs_foldl_free ..⟩
      · next hphdrs =>
        unfold finish
        split
        · exact ⟨rfl, procs_foldl_free ..⟩
        · next hsegments =>
          -- every check has passed
          have haccepted : accepted image s.vm kernelPml4 = true := by
            unfold accepted kstackOf pml4Of segmentsOk
            simp only [Bool.and_eq_true]
            refine ⟨⟨⟨?_, ?_⟩, ?_⟩, ?_⟩
            · simpa using hkstack
            · simpa using hpml4
            · simpa using hphdrs
            · simpa using hsegments
          rw [h] at haccepted
          cases haccepted

/-- The registration at the end gives the slot its page tables and its kernel stack, and changes no other
slot. -/
theorem load_of_accepted (h : accepted image s.vm kernelPml4 = true) :
    (load env s image slot kernelPml4).1 = slot ∧
      (∀ i ≠ slot, (load env s image slot kernelPml4).2.procs.table i = s.procs.table i) ∧
      Equipped ((load env s image slot kernelPml4).2.procs.table slot) (kstackOf s.vm)
        (pml4Of s.vm kernelPml4) := by
  unfold accepted kstackOf pml4Of segmentsOk at h
  simp only [Bool.and_eq_true] at h
  obtain ⟨⟨⟨hkstack, hpml4⟩, hphdrs⟩, hsegments⟩ := h
  have hkstack : ((allocKernelStack s.vm).1 == 0) = false := by simpa using hkstack
  have hpml4 : ((createUserPml4 (allocKernelStack s.vm).2 kernelPml4).1 == 0) = false := by
    simpa using hpml4
  unfold load
  dsimp only
  rw [hkstack, if_neg (by decide)]
  unfold loadTables
  dsimp only
  rw [hpml4, if_neg (by decide), hphdrs, if_neg (by decide)]
  unfold finish
  rw [hsegments, if_neg (by decide)]
  dsimp only
  refine ⟨rfl, ?_, ?_⟩
  · intro i hi
    rw [procs_foldl_free]
    unfold register initSlot
    dsimp only
    cases image.entity with
    | none => rw [modify_of_ne _ hi, modify_of_ne _ hi]
    | some entity => rw [modify_of_ne _ hi, modify_of_ne _ hi, modify_of_ne _ hi]
  · rw [procs_foldl_free]
    unfold register initSlot Equipped kstackOf pml4Of
    dsimp only
    have hne : ∀ {x : UInt64}, (x == 0) = false → x ≠ 0 := fun hx => by simpa using hx
    refine ⟨hne hkstack, hne hpml4, ?_⟩
    cases image.entity with
    | none =>
      rw [modify_self, modify_self]
      exact ⟨rfl, rfl, rfl, rfl⟩
    | some entity =>
      rw [modify_self, modify_self, modify_self]
      exact ⟨rfl, rfl, rfl, rfl⟩

end Load

section Ends

variable (env : Env) (s : Loader) (call : Call)

/-- **A spawn that takes no slot** changes nothing and returns what it has allocated. -/
theorem spawn_refused (h : takesSlot s call = false) :
    (spawn env s call).1 = maxProcs ∧ (spawn env s call).2.procs = s.procs ∧
      Returned s (spawn env s call).2 := by
  cases call with
  | process elfBase kernelPml4 =>
    unfold spawn spawnProcess
    dsimp only
    cases hok : validateElf s.vm.mem elfBase with
    | false =>
      rw [if_pos (by decide)]
      exact ⟨rfl, rfl, .of_vm rfl rfl⟩
    | true =>
      have hfull : ¬(allocPid s.procs).1 < maxProcs := by
        simpa [takesSlot, headerOk, hok] using h
      rw [if_neg (by decide)]
      unfold takeSlot
      dsimp only
      rw [if_pos (UInt64.not_lt.mp hfull)]
      exact ⟨rfl, allocPid_of_not_lt hfull, .of_vm rfl rfl⟩
  | fromInode read kernelPml4 =>
    unfold spawn spawnProcessFromInode
    dsimp only
    unfold takesSlot headerOk at h
    dsimp only at h
    generalize read 0 (physToVirt s.vm.alloc.1) 4096 s.vm.alloc.2.mem = header at h ⊢
    by_cases hshort : header.1 < 64
    · -- a short read, or one that has failed
      rw [if_pos hshort]
      exact ⟨rfl, rfl, .of_free rfl rfl⟩
    · rw [if_neg hshort]
      cases hok : validateElf header.2 (physToVirt s.vm.alloc.1) with
      | false =>
        rw [if_pos (by decide)]
        exact ⟨rfl, rfl, .of_free rfl rfl⟩
      | true =>
        have hfull : ¬(allocPid s.procs).1 < maxProcs := by
          simpa [hok, hshort] using h
        rw [if_neg (by decide)]
        unfold takeSlot
        dsimp only
        rw [if_pos (UInt64.not_lt.mp hfull)]
        exact ⟨rfl, allocPid_of_not_lt hfull, .of_free rfl rfl⟩

theorem spawn_of_takesSlot (h : takesSlot s call = true) :
    (allocPid s.procs).1 < maxProcs ∧
      ∃ freed, spawn env s call =
        load env ⟨claimSlot s.procs (allocPid s.procs).1, (opened env s call).2, freed⟩
          (opened env s call).1 (allocPid s.procs).1 call.kernelPml4 := by
  obtain ⟨hhdr, hslot⟩ := Bool.and_eq_true_iff.mp h
  have hslot : (allocPid s.procs).1 < maxProcs := of_decide_eq_true hslot
  refine ⟨hslot, s.freed, ?_⟩
  cases call with
  | process elfBase kernelPml4 =>
    have hok : validateElf s.vm.mem elfBase = true := hhdr
    unfold spawn spawnProcess takeSlot
    dsimp only
    rw [hok, if_neg (by decide), if_neg (UInt64.not_le.mpr hslot), allocPid_of_lt hslot]
    rfl
  | fromInode read kernelPml4 =>
    unfold headerOk at hhdr
    dsimp only at hhdr
    unfold spawn spawnProcessFromInode opened takeSlot
    dsimp only
    generalize read 0 (physToVirt s.vm.alloc.1) 4096 s.vm.alloc.2.mem = header at hhdr ⊢
    obtain ⟨hshort, hok⟩ := Bool.and_eq_true_iff.mp hhdr
    have hshort : ¬header.1 < 64 := by simpa using hshort
    rw [if_neg hshort, hok, if_neg (by decide), if_neg (UInt64.not_le.mpr hslot),
      allocPid_of_lt hslot]
    rfl

/-- **A spawn that fails with a slot** keeps it: it is counted, and READY. -/
theorem spawn_abandoned (h : takesSlot s call = true) (hl : loads env s call = false) :
    (spawn env s call).1 = maxProcs ∧
      (spawn env s call).2.procs = claimSlot s.procs (allocPid s.procs).1 := by
  obtain ⟨-, freed, hload⟩ := spawn_of_takesSlot env s call h
  rw [hload]
  exact load_of_not_accepted env _ _ _ _ hl

/-- **A spawn that succeeds** equips its slot, and leaves the others alone. -/
theorem spawn_loaded (h : takesSlot s call = true) (hl : loads env s call = true) :
    (spawn env s call).1 < maxProcs ∧ (spawn env s call).1 = (allocPid s.procs).1 ∧
      (∀ i ≠ (allocPid s.procs).1, (spawn env s call).2.procs.table i = s.procs.table i) ∧
      Equipped ((spawn env s call).2.procs.table (allocPid s.procs).1)
        (kstackOf (opened env s call).2) (pml4Of (opened env s call).2 call.kernelPml4) := by
  obtain ⟨hslot, freed, hload⟩ := spawn_of_takesSlot env s call h
  obtain ⟨hret, hothers, hequipped⟩ := load_of_accepted env
    ⟨claimSlot s.procs (allocPid s.procs).1, (opened env s call).2, freed⟩
    (opened env s call).1 (allocPid s.procs).1 call.kernelPml4 hl
  rw [hload]
  refine ⟨by rw [hret]; exact hslot, hret, ?_, hequipped⟩
  intro i hi
  rw [hothers i hi]
  unfold claimSlot
  dsimp only
  exact modify_of_ne _ hi _

end Ends

/-! ### Failed spawns -/

/-- What a failed spawn should leave behind: the bitmap, the count and the states as they were, and no
page. -/
def Intact (s : Loader) (r : UInt64 × Loader) : Prop :=
  r.1 = maxProcs →
    r.2.procs.pidBitmap = s.procs.pidBitmap ∧ r.2.procs.procCount = s.procs.procCount ∧
      (∀ i, r.2.procs.state i = s.procs.state i) ∧ Returned s r.2

theorem intact_of_refused {env : Env} {s : Loader} {call : Call} (h : takesSlot s call = false) :
    Intact s (spawn env s call) := by
  intro _
  obtain ⟨-, hprocs, hreturned⟩ := spawn_refused env s call h
  rw [hprocs]
  exact ⟨rfl, rfl, fun _ => rfl, hreturned⟩

theorem not_intact_of_abandoned {env : Env} {s : Loader} {call : Call} (h : takesSlot s call = true)
    (hl : loads env s call = false) : ¬Intact s (spawn env s call) := by
  intro hintact
  obtain ⟨hret, hprocs⟩ := spawn_abandoned env s call h hl
  obtain ⟨-, hcount, -⟩ := hintact hret
  -- the slot that was taken is still counted
  rw [hprocs] at hcount
  have hadd : s.procs.procCount + 1 = s.procs.procCount := hcount
  exact absurd hadd (by simp)

theorem intact_iff (env : Env) (s : Loader) (call : Call) :
    Intact s (spawn env s call) ↔ (takesSlot s call = true → loads env s call = true) := by
  constructor
  · intro hintact htakes
    by_contra hl
    exact not_intact_of_abandoned htakes (Bool.eq_false_iff.mpr hl) hintact
  · intro hcond
    cases htakes : takesSlot s call with
    | false => exact intact_of_refused htakes
    | true =>
      -- the spawn succeeds, and returns a slot
      intro hret
      obtain ⟨hlt, -⟩ := spawn_loaded env s call htakes (hcond htakes)
      rw [hret] at hlt
      exact absurd hlt (UInt64.lt_irrefl _)

/-! ### Runs -/

/-- The process table, and the kernel stack and page tables of the process that was last spawned into a
slot. -/
structure History where
  procs : Procs
  owner : UInt64 → Option (UInt64 × UInt64)

/-- A spawn, which finds some memory and page allocator, or a change of the state of a slot: it becomes
free, or it was not free before. -/
inductive Step where
  | spawn (env : Env) (vm : Vm) (call : Call)
  | setState (slot state : UInt64)

def History.exec (t : History) : Step → History
  | .spawn env vm call =>
    let s : Loader := ⟨t.procs, vm, []⟩
    let slot := (allocPid t.procs).1
    let image := opened env s call
    { procs := (Spawn.spawn env s call).2.procs
      owner := if takesSlot s call then
          Function.update t.owner slot
            (if loads env s call then some (kstackOf image.2, pml4Of image.2 call.kernelPml4) else none)
        else t.owner }
  | .setState slot state =>
    if state == procFree || t.procs.state slot != procFree then
      { t with procs := setState t.procs slot state }
    else t

/-- A spawn that takes a slot passes every later check. -/
def Step.Loads (t : History) : Step → Prop
  | .spawn env vm call =>
    takesSlot ⟨t.procs, vm, []⟩ call = true → loads env ⟨t.procs, vm, []⟩ call = true
  | .setState _ _ => True

/-- Every slot that is not free belongs to the process that was spawned into it. -/
def Owned (t : History) : Prop :=
  ∀ i, t.procs.state i ≠ procFree →
    ∃ kstack pml4, t.owner i = some (kstack, pml4) ∧ Equipped (t.procs.table i) kstack pml4

theorem Owned.spawn {t : History} (h : Owned t) (env : Env) (vm : Vm) (call : Call)
    (hok : Step.Loads t (.spawn env vm call)) : Owned (t.exec (.spawn env vm call)) := by
  intro i hi
  unfold History.exec at hi ⊢
  dsimp only at hi ⊢
  cases htakes : takesSlot ⟨t.procs, vm, []⟩ call with
  | false =>
    obtain ⟨-, hprocs, -⟩ := spawn_refused env ⟨t.procs, vm, []⟩ call htakes
    rw [if_neg (by decide)]
    rw [hprocs] at hi ⊢
    exact h i hi
  | true =>
    have hl := hok htakes
    obtain ⟨-, -, hothers, hequipped⟩ := spawn_loaded env ⟨t.procs, vm, []⟩ call htakes hl
    rw [if_pos rfl, if_pos hl]
    by_cases hslot : i = (allocPid t.procs).1
    · -- the new owner is recorded with what the spawn has put into the slot
      refine ⟨kstackOf (opened env ⟨t.procs, vm, []⟩ call).2,
        pml4Of (opened env ⟨t.procs, vm, []⟩ call).2 call.kernelPml4, ?_, ?_⟩
      · rw [hslot, Function.update_self]
      · rw [hslot]
        exact hequipped
    · unfold Procs.state at hi
      rw [hothers i hslot] at hi ⊢
      rw [Function.update_of_ne hslot]
      exact h i hi

theorem Owned.setState {t : History} (h : Owned t) (slot state : UInt64) :
    Owned (t.exec (.setState slot state)) := by
  unfold History.exec
  dsimp only
  split
  · next hok =>
    intro i hi
    dsimp only at hi ⊢
    rw [state_setState] at hi
    -- a free slot does not become anything else in this step
    have hkept : t.procs.state i ≠ procFree := by
      by_cases hslot : i = slot
      · rw [if_pos hslot] at hi
        rw [hslot]
        simpa [hi] using hok
      · rw [if_neg hslot] at hi
        exact hi
    obtain ⟨kstack, pml4, howner, hequipped⟩ := h i hkept
    refine ⟨kstack, pml4, howner, ?_⟩
    -- only the state of a control block changes
    unfold Process.setState
    dsimp only
    by_cases hslot : i = slot
    · rw [hslot, modify_self]
      rw [hslot] at hequipped
      split
      · exact hequipped
      · exact hequipped
    · rw [modify_of_ne _ hslot]
      split
      · exact hequipped
      · exact hequipped
  · exact h

theorem Owned.exec (t : History) (o : Step) (h : Owned t) (hok : Step.Loads t o) :
    Owned (t.exec o) := by
  cases o with
  | spawn env vm call => exact h.spawn env vm call hok
  | setState slot state => exact h.setState slot state

/-- **A failed spawn** leaves the process table and the page allocator as they were if and only if it has
not taken a slot: a bad header, or no free slot.  Every other failure leaves a READY slot behind that has no
process.  In a run without such failures every READY slot has the kernel stack, the page tables and
the saved stack pointer of the process that was spawned into it. -/
theorem spawn_intact_iff (env : Env) (s : Loader) (call : Call) :
    (Intact s (spawn env s call) ↔ (takesSlot s call = true → loads env s call = true)) ∧
    ∀ (t : History) (steps : List Step), (∀ i, t.procs.state i = procFree) →
      Admissible History.exec Step.Loads t steps →
      ∀ i, (runOps History.exec t steps).procs.state i = procReady →
        ∃ kstack pml4, (runOps History.exec t steps).owner i = some (kstack, pml4) ∧
          Equipped ((runOps History.exec t steps).procs.table i) kstack pml4 := by
  refine ⟨intact_iff env s call, ?_⟩
  intro t steps hfree hok i hi
  have howned : Owned t := fun i hne => absurd (hfree i) hne
  refine runOps_induction Owned.exec howned hok i ?_
  rw [hi]
  decide

/-- A memory that holds an ELF header at 0, with no program headers. -/
def elfMemory : Mem := fun a =>
  if a == 0 then 0x7F else if a == 1 then 69 else if a == 2 then 76 else if a == 3 then 70 else 0

def plainEnv : Env := ⟨0, 0, 0, 0, 0⟩

/-- One spawn that finds two pages. -/
def oneSpawn : Step := .spawn plainEnv ⟨elfMemory, [0x1000, 0x2000]⟩ (.process 0 0)

theorem spawn_intact_iff_oneSpawn :
    (runOps History.exec ⟨Procs.zero, fun _ => none⟩ [oneSpawn]).procs.state 0 = procReady ∧
      ∃ kstack pml4, (runOps History.exec ⟨Procs.zero, fun _ => none⟩ [oneSpawn]).owner 0 =
          some (kstack, pml4) ∧
        Equipped ((runOps History.exec ⟨Procs.zero, fun _ => none⟩ [oneSpawn]).procs.table 0) kstack
          pml4 := by
  have hloads : loads plainEnv ⟨Procs.zero, ⟨elfMemory, [0x1000, 0x2000]⟩, []⟩ (.process 0 0) = true := by
    decide +kernel
  have hready : (runOps History.exec ⟨Procs.zero, fun _ => none⟩ [oneSpawn]).procs.state 0 =
      procReady := by
    decide +kernel
  have hok : Admissible History.exec Step.Loads ⟨Procs.zero, fun _ => none⟩ [oneSpawn] :=
    ⟨fun _ => hloads, trivial⟩
  exact ⟨hready, (spawn_intact_iff plainEnv ⟨Procs.zero, ⟨elfMemory, [0x1000, 0x2000]⟩, []⟩
    (.process 0 0)).2 _ _ (fun _ => rfl) hok 0 hready⟩

/-- No page is left for the kernel stack: the spawn fails, and its slot stays READY. -/
theorem not_intact_of_noPages :
    ¬∀ (env : Env) (s : Loader) (call : Call), Intact s (spawn env s call) := by
  intro h
  have htakes : takesSlot ⟨Procs.zero, ⟨elfMemory, []⟩, []⟩ (.process 0 0) = true := by
    decide +kernel
  have hloads : loads plainEnv ⟨Procs.zero, ⟨elfMemory, []⟩, []⟩ (.process 0 0) = false := by
    decide +kernel
  exact not_intact_of_abandoned htakes hloads (h plainEnv _ _)

end Keuos.Spawn
