import Keuos.Lib.Run
import Keuos.Process.Table

/-!
# Scheduling processes (`kernel/core/syscall_sched.salt`)

`schedule_next` chooses a process and calls `switch_to_process`.  The model returns the call together
with the state in which it is made; `switchToProcess` is what the call does to the process table.  The
queue of pulses is read once, so its emptiness is an argument.

The statistics of the entities (`ecs_bridge_*`) and the registers of the context switch are left out.
-/

namespace Keuos.Process

/-- The process table and the globals of `syscall_sched.salt`. -/
structure SchedGlobals where
  procs : Procs
  lastDispatched : UInt64
  task0Cooldown : UInt64

/-- READY or RUNNING. -/
def dispatchable (state : UInt64) : Bool :=
  state == procReady || state == procRunning

/-- The first loop of `schedule_next`: the processes to dispatch other than `current`. -/
def dcountFrom (p : Procs) (current : UInt64) : Nat → UInt64 → UInt64 → UInt64
  | 0, _, dcount => dcount
  | n + 1, ci, dcount =>
    let dcount' := if dispatchable (p.state ci) && ci != current then dcount + 1 else dcount
    dcountFrom p current n (ci + 1) dcount'

/-- The last loop of `schedule_next`. -/
def scanFrom (p : Procs) (current last : UInt64) : Nat → UInt64 → Option UInt64
  | 0, _ => none
  | n + 1, i =>
    let next := (last + i) % maxProcs
    if dispatchable (p.state next) && next != current then some next
    else scanFrom p current last n (i + 1)

/-- The preemption of `current` by task 0, after the cooldown was counted down. -/
def preemptsToTask0 (s : SchedGlobals) (pulseEmpty : Bool) : Bool :=
  let current := s.procs.currentPid
  !pulseEmpty && s.task0Cooldown == 0 && (current != 0 && dispatchable (s.procs.state 0))

def coolDown (s : SchedGlobals) : SchedGlobals :=
  if s.task0Cooldown > 0 then { s with task0Cooldown := s.task0Cooldown - 1 } else s

/-- `schedule_next`: the call of `switch_to_process`, if there is one, and the state in which it is
made. -/
def scheduleNext (s : SchedGlobals) (pulseEmpty : Bool) : Option (UInt64 × UInt64) × SchedGlobals :=
  let current := s.procs.currentPid
  if dcountFrom s.procs current 64 0 0 == 0 then (none, s)
  else
    let s₁ := coolDown s
    if preemptsToTask0 s₁ pulseEmpty then (some (current, 0), { s₁ with task0Cooldown := 4 })
    else
      match scanFrom s₁.procs current s₁.lastDispatched 63 1 with
      | some next => (some (current, next), { s₁ with lastDispatched := next })
      | none => (none, s₁)

/-- `switch_to_process`, where `drainSq` is what `ring_abi_drain_sq` does. -/
def switchToProcess (drainSq : UInt64 → Procs → Procs) (p : Procs) (current next : UInt64) : Procs :=
  let p₁ := drainSq current p
  let p₂ := if p₁.state current == procRunning then setState p₁ current procReady else p₁
  setCurrent (setState p₂ next procRunning) next

end Keuos.Process

/-!
## The life of a process

What spawns, messages, exits and waits do to the process table, and at which slots they index
`RING_TABLE` (`kernel/core/ring_abi.salt`): the table has 16 entries, and none of its functions compares
the slot with 16.  A `Kernel` keeps the slots that were used.

A drain runs submissions of the process; of these, `OP_IPC_SEND` and `OP_SPAWN` change what the scheduler
reads, and the others do not.  The function `keuos_reclaim` has no callers and is left out.
-/

namespace Keuos.Process

/-! ### Messages -/

def setIpcMsg (p : Procs) (slot sender msg0 msg1 msg2 : UInt64) : Procs :=
  p.modify slot fun b =>
    { b with ipcMsg0 := msg0, ipcMsg1 := msg1, ipcMsg2 := msg2, ipcSender := sender }

/-- The compare-and-swap of a state from `PROC_IPC_BLOCKED` to `PROC_READY`, when it succeeds. -/
def unblock (p : Procs) (slot : UInt64) : Procs :=
  p.modify slot fun b => { b with state := procReady }

/-- `sys_ipc_send` (`kernel/core/syscall_ipc.salt`). -/
def sysIpcSend (drainSq : UInt64 → Procs → Procs) (p : Procs) (targetPid msg0 msg1 msg2 : UInt64) :
    UInt64 × Procs :=
  let sender := p.currentPid
  if targetPid ≥ maxProcs then (0 - 1, p)
  else if p.state targetPid == procFree then (0 - 1, p)
  else if p.state targetPid == procIpcBlocked then
    let p₁ := setIpcMsg (unblock p targetPid) targetPid sender msg0 msg1 msg2
    (0, switchToProcess drainSq p₁ sender targetPid)
  else if (p.table targetPid).ipcSender == 0 then
    (0, setIpcMsg p targetPid sender msg0 msg1 msg2)
  else (0 - 1, p)

/-- `ring_ipc_send` (`kernel/core/ring_ops.salt`), which has a `max_procs` of its own. -/
def ringIpcSend (p : Procs) (slot targetPid msg0 msg1 : UInt64) : UInt64 × Procs :=
  if targetPid ≥ 16 then (0 - 1, p)
  else if p.state targetPid == procFree then (0 - 1, p)
  else if p.state targetPid == procIpcBlocked then
    (0, setIpcMsg (unblock p targetPid) targetPid slot msg0 msg1 0)
  else (0 - 1, p)

/-! ### Spawn and exit -/

/-- A spawn takes a slot and gives it page tables; one that fails after `alloc_pid` gives it none. -/
def spawnSlot (p : Procs) (pml4 : Option UInt64) : Procs :=
  let r := allocPid p
  match pml4 with
  | none => r.2
  | some root => if r.1 ≥ maxProcs then r.2 else r.2.modify r.1 fun b => { b with userPml4 := root }

/-- The loop of `switch_to_next_ready`. -/
def nextReadyFrom (p : Procs) (slot : UInt64) : Nat → UInt64 → Option UInt64
  | 0, _ => none
  | n + 1, i =>
    let next := (slot + i) % maxProcs
    if next != 0 && dispatchable (p.state next) && (p.table next).userPml4 != (p.table 0).userPml4 then
      some next
    else nextReadyFrom p slot n (i + 1)

/-- `switch_to_next_ready`; without another process it halts. -/
def switchToNextReady (p : Procs) (slot : UInt64) : Procs :=
  match nextReadyFrom p slot 63 1 with
  | some next => setCurrent (setState p next procRunning) next
  | none => p

/-- `process_exit` (`kernel/core/syscall_handlers.salt`). -/
def processExit (p : Procs) (exitCode : UInt64) : Procs :=
  let slot := p.currentPid
  let p₁ := decCount (setState (setIpcMsg p slot 0 exitCode 0 0) slot procZombie)
  switchToNextReady p₁ slot

/-! ### Runs of the kernel -/

def capFlagRingAbi : UInt64 := 4

/-- The length of `RING_TABLE`. -/
def ringTableLen : UInt64 := 16

/-- What a drained submission does to the process table. -/
inductive Request where
  | ipcSend (targetPid msg0 msg1 : UInt64)
  | spawn (pml4 : Option UInt64)
  | other

def Request.apply (slot : UInt64) (p : Procs) : Request → Procs
  | .ipcSend targetPid msg0 msg1 => (ringIpcSend p slot targetPid msg0 msg1).2
  | .spawn pml4 => spawnSlot p pml4
  | .other => p

/-- The scheduler, which rings are active, and the slots at which `RING_TABLE` was indexed. -/
structure Kernel where
  sched : SchedGlobals
  active : UInt64 → Bool
  accesses : List UInt64

/-- The kernel at boot. -/
def Kernel.boot : Kernel := ⟨⟨Procs.zero, 0, 0⟩, fun _ => false, []⟩

/-- A spawn; a call of `schedule_next`, or of `sys_ipc_send`, with the submissions that the drain in
`switch_to_process` finds; the yield system call, which drains; `sys_ring_map`, with the flags of the
capability and the answers of the page allocator; an exit; the reaping of a slot by a wait; the
current process blocks, or a blocked process wakes; `net_poll` wakes slot 1; and `kmain` starts a
process. -/
inductive Event where
  | spawn (pml4 : Option UInt64)
  | schedule (pulseEmpty : Bool) (drained : List Request)
  | ipcSend (targetPid msg0 msg1 msg2 : UInt64) (drained : List Request)
  | yield (drained : List Request)
  | ringMap (capFlags sqPhys cqPhys : UInt64)
  | exit (exitCode : UInt64)
  | reap (slot : UInt64)
  | block (state : UInt64)
  | wake (slot : UInt64)
  | netPoll
  | start (slot : UInt64)

/-- `PROC_IPC_BLOCKED`, `PROC_BLOCKED_ACCEPT` or `PROC_BLOCKED_RECV`. -/
def blockedState (state : UInt64) : Bool :=
  state == procIpcBlocked || state == 5 || state == 6

/-- `drain_sq`: the submissions of an active ring run, one after the other. -/
def Kernel.drain (k : Kernel) (drained : List Request) (slot : UInt64) (p : Procs) : Procs :=
  if k.active slot then runOps (Request.apply slot) p drained else p

def Kernel.withProcs (k : Kernel) (p : Procs) : Kernel :=
  { k with sched := { k.sched with procs := p } }

/-- `RING_TABLE[slot]` is used. -/
def Kernel.touch (k : Kernel) (slot : UInt64) : Kernel :=
  { k with accesses := k.accesses ++ [slot] }

def exec (k : Kernel) : Event → Kernel
  | .spawn pml4 => k.withProcs (spawnSlot k.sched.procs pml4)
  | .schedule pulseEmpty drained =>
    let r := scheduleNext k.sched pulseEmpty
    let k₁ := { k with sched := r.2 }
    match r.1 with
    | none => k₁
    | some (current, next) =>
      (k₁.touch current).withProcs (switchToProcess (k.drain drained) r.2.procs current next)
  | .ipcSend targetPid msg0 msg1 msg2 drained =>
    let p := k.sched.procs
    let r := sysIpcSend (k.drain drained) p targetPid msg0 msg1 msg2
    -- only the delivery to a blocked process switches
    let k₁ := if targetPid < maxProcs && p.state targetPid == procIpcBlocked then k.touch p.currentPid
      else k
    k₁.withProcs r.2
  | .yield drained =>
    let slot := k.sched.procs.currentPid
    (k.touch slot).withProcs (k.drain drained slot k.sched.procs)
  | .ringMap capFlags sqPhys cqPhys =>
    let slot := k.sched.procs.currentPid
    if capFlags &&& capFlagRingAbi == 0 || sqPhys == 0 || cqPhys == 0 then k
    else { k.touch slot with active := Function.update k.active slot true }
  | .exit exitCode =>
    let slot := k.sched.procs.currentPid
    let k₁ := { k.touch slot with active := Function.update k.active slot false }
    k₁.withProcs (processExit k.sched.procs exitCode)
  | .reap slot =>
    if slot < maxProcs && k.sched.procs.state slot == procZombie then
      k.withProcs (setState k.sched.procs slot procFree)
    else k
  | .block state =>
    if blockedState state then
      k.withProcs (setState k.sched.procs k.sched.procs.currentPid state)
    else k
  | .wake slot =>
    if slot < maxProcs && blockedState (k.sched.procs.state slot) then
      k.withProcs (setState k.sched.procs slot procReady)
    else k
  | .netPoll => k.withProcs (setState k.sched.procs 1 procReady)
  | .start slot =>
    if slot < maxProcs && k.sched.procs.state slot != procFree then
      k.withProcs (setState (setCurrent k.sched.procs slot) slot procRunning)
    else k

end Keuos.Process
