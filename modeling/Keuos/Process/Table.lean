import Keuos.Lib.Bits
import Mathlib.Logic.Function.Basic

/-!
# The process table (`kernel/core/process.salt`)

`PROC_TABLE` is an array of 64 control blocks; the model is a function of the slot.  Of a control block
it keeps the fields that the modelled functions use: the ring fields `ring_*`, which the ring ABI keeps
in a table of its own, are left out.

The compare-and-swap loops on `PID_BITMAP` succeed at the first try: the model is of one core at a
time.
-/

namespace Keuos.Process

def maxProcs : UInt64 := 64

def procFree : UInt64 := 0
def procReady : UInt64 := 1
def procRunning : UInt64 := 2
def procZombie : UInt64 := 3
def procIpcBlocked : UInt64 := 4

/-- `Process`: a control block. -/
structure Pcb where
  pid : UInt64
  parentPid : UInt64
  state : UInt64
  userPml4 : UInt64
  kernelRsp : UInt64
  kernelStackBase : UInt64
  kernelStackTop : UInt64
  userEntry : UInt64
  userStackTop : UInt64
  brkBase : UInt64
  brkCurrent : UInt64
  mmapBase : UInt64
  vmaListHead : UInt64
  pcid : UInt64
  fsNamespaceId : UInt64
  netNamespaceId : UInt64
  ipcSender : UInt64
  ipcMsg0 : UInt64
  ipcMsg1 : UInt64
  ipcMsg2 : UInt64
  fdTable : UInt64
  ecsEntityVal : UInt64
  deriving DecidableEq, Repr

/-- A zeroed control block. -/
def Pcb.zero : Pcb := ⟨0, 0, 0, 0, 0, 0, 0, 0, 0, 0, 0, 0, 0, 0, 0, 0, 0, 0, 0, 0, 0, 0⟩

/-- The globals of `process.salt`. -/
structure Procs where
  table : UInt64 → Pcb
  currentPid : UInt64
  nextPid : UInt64
  procCount : UInt64
  pidBitmap : UInt64 → UInt64

/-- The globals at boot. -/
def Procs.zero : Procs where
  table := fun _ => Pcb.zero
  currentPid := 0
  nextPid := 1
  procCount := 0
  pidBitmap := fun _ => 0

/-- `PROC_TABLE[slot] = f(PROC_TABLE[slot])`. -/
def Procs.modify (p : Procs) (slot : UInt64) (f : Pcb → Pcb) : Procs :=
  { p with table := Function.update p.table slot (f (p.table slot)) }

/-- The state of a slot. -/
def Procs.state (p : Procs) (slot : UInt64) : UInt64 :=
  (p.table slot).state

def setState (p : Procs) (slot state : UInt64) : Procs :=
  let p₁ := if state == procFree then
      let group := slot / 64
      let mask : UInt64 := 1 <<< (slot % 64)
      { p with
        pidBitmap := Function.update p.pidBitmap group (p.pidBitmap group &&& (mask ^^^ allOnes)) }
    else p
  p₁.modify slot fun b => { b with state := state }

def setCurrent (p : Procs) (slot : UInt64) : Procs :=
  { p with currentPid := slot }

/-- The free slots of a group of `PID_BITMAP`, as `alloc_pid` computes them. -/
def freeMask (p : Procs) (group : UInt64) : UInt64 :=
  let free := p.pidBitmap group ^^^ allOnes
  if group * 64 ≥ maxProcs then 0
  else if group * 64 + 64 > maxProcs then free &&& ((1 <<< (maxProcs - group * 64)) - 1)
  else free

/-- The statements of `alloc_pid` after it has won the slot. -/
def claimSlot (p : Procs) (slot : UInt64) : Procs :=
  let group := slot / 64
  let mask : UInt64 := 1 <<< (slot % 64)
  let p₁ := { p with
    pidBitmap := Function.update p.pidBitmap group (p.pidBitmap group ||| mask)
    nextPid := p.nextPid + 1 }
  let p₂ := p₁.modify slot fun b => { b with pid := p.nextPid, state := procReady }
  { p₂ with procCount := p₂.procCount + 1 }

/-- The loop of `alloc_pid`, with `n` groups left to look at. -/
def allocPidFrom (p : Procs) : Nat → UInt64 → UInt64 × Procs
  | 0, _ => (maxProcs, p)
  | n + 1, group =>
    let free := freeMask p group
    if free == 0 then allocPidFrom p n (group + 1)
    else
      let slot := group * 64 + ctz free
      if slot ≥ maxProcs then allocPidFrom p n (group + 1)
      else (slot, claimSlot p slot)

def allocPid (p : Procs) : UInt64 × Procs :=
  allocPidFrom p 4 0

/-- `init_slot`, with the answer of `allocate_pcid`. -/
def initSlot (p : Procs) (slot pml4 kstackBase kstackTop entry ustackTop pcid : UInt64) : Procs :=
  p.modify slot fun b =>
    { b with
      userPml4 := pml4
      kernelStackBase := kstackBase
      kernelStackTop := kstackTop
      userEntry := entry
      userStackTop := ustackTop
      brkBase := 0
      brkCurrent := 0
      mmapBase := 0
      vmaListHead := 0
      pcid := pcid
      fsNamespaceId := 0
      netNamespaceId := 0 }

def decCount (p : Procs) : Procs :=
  { p with procCount := p.procCount - 1 }

/-! ### Reading the table back -/

@[simp] theorem modify_self (p : Procs) (slot : UInt64) (f : Pcb → Pcb) :
    (p.modify slot f).table slot = f (p.table slot) :=
  Function.update_self ..

theorem modify_of_ne (p : Procs) {slot i : UInt64} (hi : i ≠ slot) (f : Pcb → Pcb) :
    (p.modify slot f).table i = p.table i :=
  Function.update_of_ne hi ..

theorem state_modify (p : Procs) (slot i : UInt64) (f : Pcb → Pcb) :
    (p.modify slot f).state i = if i = slot then (f (p.table slot)).state else p.state i := by
  unfold Procs.state
  by_cases hi : i = slot
  · rw [if_pos hi, hi, modify_self]
  · rw [if_neg hi, modify_of_ne p hi]

theorem state_setState (p : Procs) (slot state i : UInt64) :
    (setState p slot state).state i = if i = slot then state else p.state i := by
  unfold setState
  dsimp only
  rw [state_modify]
  by_cases hfree : (state == procFree) = true
  · rw [if_pos hfree]
    rfl
  · rw [if_neg hfree]

@[simp] theorem currentPid_setState (p : Procs) (slot state : UInt64) :
    (setState p slot state).currentPid = p.currentPid := by
  unfold setState Procs.modify
  dsimp only
  split
  · rfl
  · rfl

theorem table_setState (p : Procs) (slot state i : UInt64) :
    (setState p slot state).table i =
      if i = slot then { p.table slot with state := state } else p.table i := by
  unfold setState
  dsimp only
  by_cases hi : i = slot
  · rw [if_pos hi, hi, modify_self]
    split
    · rfl
    · rfl
  · rw [if_neg hi, modify_of_ne _ hi]
    split
    · rfl
    · rfl

@[simp] theorem procCount_setState (p : Procs) (slot state : UInt64) :
    (setState p slot state).procCount = p.procCount := by
  unfold setState Procs.modify
  dsimp only
  split
  · rfl
  · rfl

@[simp] theorem nextPid_setState (p : Procs) (slot state : UInt64) :
    (setState p slot state).nextPid = p.nextPid := by
  unfold setState Procs.modify
  dsimp only
  split
  · rfl
  · rfl

theorem pidBitmap_setState (p : Procs) (slot : UInt64) {state : UInt64} (h : state ≠ procFree) :
    (setState p slot state).pidBitmap = p.pidBitmap := by
  unfold setState Procs.modify
  dsimp only
  rw [if_neg (by simpa using h)]

theorem table_claimSlot (p : Procs) (slot i : UInt64) :
    (claimSlot p slot).table i =
      if i = slot then { p.table slot with pid := p.nextPid, state := procReady } else p.table i := by
  unfold claimSlot Procs.modify
  dsimp only
  by_cases hi : i = slot
  · rw [if_pos hi, hi, Function.update_self]
  · rw [if_neg hi, Function.update_of_ne hi]

theorem state_claimSlot (p : Procs) (slot i : UInt64) :
    (claimSlot p slot).state i = if i = slot then procReady else p.state i := by
  unfold claimSlot Procs.state Procs.modify
  dsimp only
  by_cases hi : i = slot
  · rw [if_pos hi, hi, Function.update_self]
  · rw [if_neg hi, Function.update_of_ne hi]

theorem allocPidFrom_cases (p : Procs) (n : Nat) (group : UInt64) :
    allocPidFrom p n group = (maxProcs, p) ∨
      ∃ slot < maxProcs, allocPidFrom p n group = (slot, claimSlot p slot) := by
  induction n generalizing group with
  | zero => exact .inl rfl
  | succ n ih =>
    unfold allocPidFrom
    dsimp only
    split
    · exact ih _
    · split
      · exact ih _
      · next hslot => exact .inr ⟨_, UInt64.not_le.mp hslot, rfl⟩

theorem allocPid_cases (p : Procs) :
    allocPid p = (maxProcs, p) ∨ ∃ slot < maxProcs, allocPid p = (slot, claimSlot p slot) :=
  allocPidFrom_cases p 4 0

end Keuos.Process
