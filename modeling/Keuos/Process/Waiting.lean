import Keuos.Process.Lifecycle

/-!
# Blocking and waiting

The calls in which a process blocks or waits, what wakes it, and the exits and waits of the entity
interface (`kernel/core/syscall_ipc.salt`, `syscall_handlers.salt`, `syscall_sched.salt` and
`syscall_entity.salt`).  A call that yields is cut at the yield: `sys_ipc_recv` and `sys_wait` are two
functions each, and the loop of `sys_tcp_accept` is given by its body.

Of the entities the model keeps the thread status, `0xFFFFFFFF` for an entity without a thread.
-/

namespace Keuos.Process

def procBlockedAccept : UInt64 := 5
def procBlockedRecv : UInt64 := 6

/-! ### Messages and connections -/

/-- `drain_sq` with the submissions `drained`. -/
def drainAll (drained : List Request) (slot : UInt64) (p : Procs) : Procs :=
  runOps (Request.apply slot) p drained

/-- The message in the mailbox of a slot. -/
def mailOf (p : Procs) (slot : UInt64) : UInt64 × UInt64 × UInt64 × UInt64 :=
  let b := p.table slot
  (b.ipcSender, b.ipcMsg0, b.ipcMsg1, b.ipcMsg2)

/-- `sys_ipc_recv` up to its `sched_yield`: the message that is there, or the process blocks. -/
def sysIpcRecv (p : Procs) : Option (UInt64 × UInt64 × UInt64 × UInt64) × Procs :=
  let slot := p.currentPid
  if (p.table slot).ipcSender != 0 then (some (mailOf p slot), setIpcMsg p slot 0 0 0 0)
  else (none, setState p slot procIpcBlocked)

/-- `sys_ipc_recv` after its `sched_yield`. -/
def resumeIpcRecv (p : Procs) (slot : UInt64) : (UInt64 × UInt64 × UInt64 × UInt64) × Procs :=
  (mailOf p slot, setIpcMsg p slot 0 0 0 0)

/-- The body of the loop of `sys_tcp_accept`, up to its `schedule_next`. -/
def blockAccept (p : Procs) (listenSlot : UInt64) : Procs :=
  let slot := p.currentPid
  setState (setIpcMsg p slot 0 listenSlot 0 0) slot procBlockedAccept

/-- The loop of the wake functions: the first process that is blocked for `key` becomes ready. -/
def schedWakeFrom (blocked key : UInt64) : Nat → UInt64 → Procs → Procs
  | 0, _, p => p
  | n + 1, i, p =>
    if p.state i == blocked && (p.table i).ipcMsg0 == key then setState p i procReady
    else schedWakeFrom blocked key n (i + 1) p

def schedWakeAccept (p : Procs) (listenSlot : UInt64) : Procs :=
  schedWakeFrom procBlockedAccept listenSlot 64 0 p

def schedWakeRecv (p : Procs) (connId : UInt64) : Procs :=
  schedWakeFrom procBlockedRecv connId 64 0 p

/-! ### Children -/

/-- The first loop of `sys_wait`: the last slot that has the pid and the parent. -/
def findChildFrom (p : Procs) (targetPid callerPid : UInt64) : Nat → UInt64 → UInt64 → UInt64
  | 0, _, childSlot => childSlot
  | n + 1, i, childSlot =>
    let childSlot' :=
      if (p.table i).pid == targetPid && (p.table i).parentPid == callerPid then i else childSlot
    findChildFrom p targetPid callerPid n (i + 1) childSlot'

/-- The child of the current process with a pid, or `MAX_PROCS`. -/
def findChild (p : Procs) (targetPid : UInt64) : UInt64 :=
  findChildFrom p targetPid (p.table p.currentPid).pid 64 0 maxProcs

/-- `sys_wait` after its `sched_yield`: the exit code, when the child is a zombie. -/
def reapChild (p : Procs) (childSlot : UInt64) : Option UInt64 × Procs :=
  if p.state childSlot == procZombie then
    (some (p.table childSlot).ipcMsg0, setState p childSlot procFree)
  else (none, p)

/-- `sys_spawn` with a process that was loaded: the new process has a parent. -/
def spawnChild (p : Procs) : UInt64 × Procs :=
  let r := allocPid p
  if r.1 ≥ maxProcs then (0 - 1, r.2)
  else
    let callerPid := (r.2.table r.2.currentPid).pid
    let p₁ := r.2.modify r.1 fun b => { b with parentPid := callerPid }
    ((p₁.table r.1).pid, p₁)

/-! ### Entities -/

/-- The status of an entity without a thread. -/
def noThread : UInt64 := 0xFFFFFFFF

/-- The process table and the statuses of the threads. -/
structure Threads where
  procs : Procs
  status : UInt64 → UInt64

/-- `ecs_bridge_set_thread_status`. -/
def Threads.setThreadStatus (t : Threads) (entity status : UInt64) : Threads :=
  if t.status entity == noThread then t
  else { t with status := Function.update t.status entity status }

/-- `ecs_bridge_destroy_thread`. -/
def Threads.destroyThread (t : Threads) (entity : UInt64) : Threads :=
  { t with status := Function.update t.status entity noThread }

/-- `process_dec_count`, the wrapper that `sys_entity_exit` calls: it has no statements. -/
def processDecCount (p : Procs) : Procs := p

def sysEntityExit (t : Threads) (exitCode : UInt64) : Threads :=
  let slot := t.procs.currentPid
  let entity := (t.procs.table slot).ecsEntityVal
  let t₁ := if entity != 0 then t.setThreadStatus entity 4 else t
  let p := processDecCount (setState (setIpcMsg t₁.procs slot 0 exitCode 0 0) slot procZombie)
  { t₁ with procs := switchToNextReady p slot }

/-- `process_exit`, with the thread of the process. -/
def exitThread (t : Threads) (exitCode : UInt64) : Threads :=
  let slot := t.procs.currentPid
  let entity := (t.procs.table slot).ecsEntityVal
  let t₁ := if entity != 0 then t.destroyThread entity else t
  { t₁ with procs := processExit t₁.procs exitCode }

/-- `find_slot_by_entity`, from slot `i` on. -/
def findSlotByEntityFrom (p : Procs) (entity : UInt64) : Nat → UInt64 → UInt64
  | 0, _ => maxProcs
  | n + 1, i =>
    if (p.table i).ecsEntityVal == entity then i else findSlotByEntityFrom p entity n (i + 1)

def findSlotByEntity (p : Procs) (entity : UInt64) : UInt64 :=
  findSlotByEntityFrom p entity 64 0

/-- `sys_entity_wait` after its `sched_yield`: the exit code, when the thread has ended. -/
def reapEntity (t : Threads) (entity childSlot : UInt64) : Option UInt64 × Threads :=
  if t.status entity == 4 then
    let exitCode := (t.procs.table childSlot).ipcMsg0
    let t₁ := if entity != 0 then t.destroyThread entity else t
    let p := (setState t₁.procs childSlot procFree).modify childSlot fun b =>
      { b with ecsEntityVal := 0 }
    (some exitCode, { t₁ with procs := p })
  else (none, t)

end Keuos.Process

/-!
## Parents and children

Processes spawn, send messages, exit and wait for each other.  The state has the process table, the
threads, the waits that are under way, and a history: who spawned whom, with which code a process exited,
which processes were reaped, and what `sys_wait` answered.

A process that is in `sys_wait` or `sys_entity_wait` makes no other call, and one that has exited makes
none.
-/

namespace Keuos.Process

/-- Neither FREE nor ZOMBIE. -/
def aliveState (state : UInt64) : Bool :=
  state != procFree && state != procZombie

/-- A call that waits: `sys_wait` with its argument and the slot that it found, and whether the argument
had been reaped when the call was made; `sys_entity_wait` with its argument and the slot. -/
inductive Waiting where
  | child (targetPid childSlot : UInt64) (late : Bool)
  | entity (entity childSlot : UInt64)
  deriving DecidableEq, Repr

/-- What `sys_wait` answered to whom, whether the argument had been reaped when the call was made, and the
pid of the process whose slot it freed. -/
structure Answer where
  callerPid : UInt64
  targetPid : UInt64
  value : UInt64
  late : Bool
  freed : Option UInt64
  deriving DecidableEq, Repr

/-- The waits of the slots, the children with their parents, the exits with their codes, the pids that
were reaped and the answers of `sys_wait`. -/
structure Past where
  waits : UInt64 → Option Waiting
  children : List (UInt64 × UInt64)
  exits : List (UInt64 × UInt64)
  reaped : List UInt64
  answers : List Answer

structure Jobs where
  threads : Threads
  past : Past

/-- At boot. -/
def Jobs.boot : Jobs := ⟨⟨Procs.zero, fun _ => noThread⟩, ⟨fun _ => none, [], [], [], []⟩⟩

/-- `alloc_pid` for a process without a parent; `sys_spawn`; the entity of a slot and the statuses of
threads change; the scheduler changes a state or the current process; `sys_ipc_send`, with what is drained
at its switch; `ring_ipc_send`; the exits; the waits; and the waiting call of the current process looks
again. -/
inductive JobOp where
  | alloc
  | spawn
  | setEntity (slot entity : UInt64)
  | setStatus (status : UInt64 → UInt64)
  | change (slot state : UInt64)
  | switch (slot : UInt64)
  | ipcSend (targetPid msg0 msg1 msg2 : UInt64) (drained : List Request)
  | ringSend (slot targetPid msg0 msg1 : UInt64)
  | exit (exitCode : UInt64)
  | entityExit (exitCode : UInt64)
  | wait (targetPid : UInt64)
  | entityWait (entity : UInt64)
  | poll

namespace Jobs

variable (s : Jobs)

def procs : Procs := s.threads.procs

/-- The slot, and the pid, of the process that calls. -/
def slot : UInt64 := s.procs.currentPid

def callerPid : UInt64 := (s.procs.table s.slot).pid

/-- The current process can make a call. -/
def idle : Bool :=
  aliveState (s.procs.state s.slot) && (s.past.waits s.slot).isNone

def withProcs (p : Procs) : Jobs :=
  { s with threads := { s.threads with procs := p } }

/-- The current process waits, or has returned from its wait. -/
def setWait (w : Option Waiting) : Jobs :=
  { s with past := { s.past with waits := Function.update s.past.waits s.slot w } }

def answer (a : Answer) : Jobs :=
  { s with past := { s.past with answers := a :: s.past.answers } }

/-- The current process has exited. -/
def exited (t : Threads) (exitCode : UInt64) : Jobs :=
  ⟨t, { s.past with exits := (s.callerPid, exitCode) :: s.past.exits }⟩

/-- `sys_spawn`. -/
def spawned : Jobs :=
  let r := spawnChild s.procs
  let s₁ := s.withProcs r.2
  if (allocPid s.procs).1 ≥ maxProcs then s₁
  else { s₁ with past := { s.past with children := (s.callerPid, r.1) :: s.past.children } }

/-- `sys_wait` up to its loop. -/
def waited (targetPid : UInt64) : Jobs :=
  let childSlot := findChild s.procs targetPid
  let late := targetPid ∈ s.past.reaped
  if childSlot == maxProcs then s.answer ⟨s.callerPid, targetPid, 0 - 1, late, none⟩
  else s.setWait (some (.child targetPid childSlot late))

/-- An iteration of the loop of `sys_wait`. -/
def polled (targetPid childSlot : UInt64) (late : Bool) : Jobs :=
  let childPid := (s.procs.table childSlot).pid
  match reapChild s.procs childSlot with
  | (none, _) => s
  | (some exitCode, p) =>
    let s₁ := (s.withProcs p).setWait none
    let s₂ := s₁.answer ⟨s.callerPid, targetPid, exitCode, late, some childPid⟩
    { s₂ with past := { s₂.past with reaped := childPid :: s.past.reaped } }

/-- An iteration of the loop of `sys_entity_wait`. -/
def polledEntity (entity childSlot : UInt64) : Jobs :=
  match reapEntity s.threads entity childSlot with
  | (none, _) => s
  | (some _, t) =>
    let s₁ : Jobs := { s with threads := t }
    { s₁.setWait none with past := { (s₁.setWait none).past with
        reaped := (s.procs.table childSlot).pid :: s.past.reaped } }

def exec : JobOp → Jobs
  | .alloc => s.withProcs (allocPid s.procs).2
  | .spawn => if s.idle then s.spawned else s
  | .setEntity slot entity =>
    if slot < maxProcs then s.withProcs (s.procs.modify slot fun b => { b with ecsEntityVal := entity })
    else s
  | .setStatus status => { s with threads := { s.threads with status := status } }
  | .change slot state =>
    if slot < maxProcs && aliveState (s.procs.state slot) && aliveState state then
      s.withProcs (setState s.procs slot state)
    else s
  | .switch slot =>
    if slot < maxProcs && aliveState (s.procs.state slot) then s.withProcs (setCurrent s.procs slot)
    else s
  | .ipcSend targetPid msg0 msg1 msg2 drained =>
    if s.idle then
      s.withProcs (sysIpcSend (drainAll drained) s.procs targetPid msg0 msg1 msg2).2
    else s
  | .ringSend slot targetPid msg0 msg1 => s.withProcs (ringIpcSend s.procs slot targetPid msg0 msg1).2
  | .exit exitCode => if s.idle then s.exited (exitThread s.threads exitCode) exitCode else s
  | .entityExit exitCode => if s.idle then s.exited (sysEntityExit s.threads exitCode) exitCode else s
  | .wait targetPid => if s.idle then s.waited targetPid else s
  | .entityWait entity =>
    let childSlot := findSlotByEntity s.procs entity
    if s.idle && childSlot < maxProcs then s.setWait (some (.entity entity childSlot)) else s
  | .poll =>
    match s.past.waits s.slot with
    | none => s
    | some (.child targetPid childSlot late) => s.polled targetPid childSlot late
    | some (.entity entity childSlot) => s.polledEntity entity childSlot

end Jobs

end Keuos.Process

/-!
## Messages and the lives of slots

A slot of the process table is home to one process after the other.  Beside the table there are records that
the code does not keep: how many processes a slot has been home to, to which of them the last message that was
stored in its mailbox was sent, which processes are inside `sys_ipc_recv`, and what it has returned.

A process inside `sys_ipc_recv` makes no other call.  The call may come back from its yield at any time; a
process that has not been unblocked by then returns without a message.
-/

namespace Keuos.Process

/-- What a `sys_ipc_recv` returned: the slot, the message, the life of the slot in which it was received, and
the one in which it was sent. -/
structure Receipt where
  slot : UInt64
  mail : UInt64 × UInt64 × UInt64 × UInt64
  life : Nat
  sentIn : Option Nat
  deriving DecidableEq, Repr

/-- The process table and the records. -/
structure Post where
  procs : Procs
  life : UInt64 → Nat
  sentIn : UInt64 → Option Nat
  receiving : UInt64 → Bool
  receipts : List Receipt

/-- At boot. -/
def Post.boot : Post := ⟨Procs.zero, fun _ => 0, fun _ => none, fun _ => false, []⟩

namespace Post

variable (s : Post)

/-- The slot of the process that calls. -/
def slot : UInt64 := s.procs.currentPid

/-- The current process can make a call. -/
def idle : Bool :=
  s.procs.state s.slot != procFree && s.procs.state s.slot != procZombie && !s.receiving s.slot

/-- A spawn. -/
def spawned (pml4 : Option UInt64) : Post :=
  let slot := (allocPid s.procs).1
  { s with
    procs := spawnSlot s.procs pml4
    life := if slot ≥ maxProcs then s.life else Function.update s.life slot (s.life slot + 1) }

/-- A message was stored in the mailbox of `targetPid`. -/
def stored (targetPid : UInt64) (p : Procs) : Post :=
  { s with
    procs := p
    sentIn := Function.update s.sentIn targetPid (some (s.life targetPid)) }

/-- `ring_ipc_send`. -/
def ringSent (slot targetPid msg0 msg1 : UInt64) : Post :=
  let r := ringIpcSend s.procs slot targetPid msg0 msg1
  if r.1 = 0 then s.stored targetPid r.2 else { s with procs := r.2 }

/-- A submission that is drained. -/
def drained (slot : UInt64) (s : Post) : Request → Post
  | .ipcSend targetPid msg0 msg1 => s.ringSent slot targetPid msg0 msg1
  | .spawn pml4 => s.spawned pml4
  | .other => s

/-- `switch_to_process`, with the submissions that it drains. -/
def switched (requests : List Request) (current next : UInt64) : Post :=
  { runOps (drained current) s requests with
    procs := switchToProcess (drainAll requests) s.procs current next }

/-- `sys_ipc_send`.  The message is stored before the switch. -/
def sent (targetPid msg0 msg1 msg2 : UInt64) (requests : List Request) : Post :=
  let r := sysIpcSend (drainAll requests) s.procs targetPid msg0 msg1 msg2
  if r.1 ≠ 0 then { s with procs := r.2 }
  else if s.procs.state targetPid == procIpcBlocked then
    let p := setIpcMsg (unblock s.procs targetPid) targetPid s.slot msg0 msg1 msg2
    { (s.stored targetPid p).switched requests s.slot targetPid with procs := r.2 }
  else s.stored targetPid r.2

/-- The current process receives what is in its mailbox. -/
def received : Post :=
  { s with
    receipts := ⟨s.slot, mailOf s.procs s.slot, s.life s.slot, s.sentIn s.slot⟩ :: s.receipts }

/-- `sys_ipc_recv` up to its yield. -/
def recv : Post :=
  let r := sysIpcRecv s.procs
  match r.1 with
  | some _ => { s.received with procs := r.2 }
  | none => { s with procs := r.2, receiving := Function.update s.receiving s.slot true }

/-- `sys_ipc_recv` after its yield. -/
def resumed : Post :=
  let s₁ := if s.procs.state s.slot = procIpcBlocked then s else s.received
  { s₁ with
    procs := (resumeIpcRecv s.procs s.slot).2
    receiving := Function.update s.receiving s.slot false }

end Post

/-- A spawn; `schedule_next` switches; the sends, the receive and its return from the yield, and the exit; and
`sys_wait` finds the child that it waits for a zombie. -/
inductive PostOp where
  | spawn (pml4 : Option UInt64)
  | switch (next : UInt64) (requests : List Request)
  | ipcSend (targetPid msg0 msg1 msg2 : UInt64) (requests : List Request)
  | ringSend (slot targetPid msg0 msg1 : UInt64)
  | ipcRecv
  | resume
  | exit (exitCode : UInt64)
  | wait (childSlot : UInt64)

def Post.exec (s : Post) : PostOp → Post
  | .spawn pml4 => s.spawned pml4
  | .switch next requests =>
    if next < maxProcs && dispatchable (s.procs.state next) then s.switched requests s.slot next else s
  | .ipcSend targetPid msg0 msg1 msg2 requests =>
    if s.idle then s.sent targetPid msg0 msg1 msg2 requests else s
  | .ringSend slot targetPid msg0 msg1 => s.ringSent slot targetPid msg0 msg1
  | .ipcRecv => if s.idle then s.recv else s
  | .resume => if s.receiving s.slot then s.resumed else s
  | .exit exitCode => if s.idle then { s with procs := processExit s.procs exitCode } else s
  | .wait childSlot =>
    if childSlot < maxProcs then { s with procs := (reapChild s.procs childSlot).2 } else s

/-- **Nothing crosses lives**: what was received was sent to the process that received it, and a process to
which nothing was sent blocks when it receives. -/
structure Post.Private (s : Post) : Prop where
  receipts : ∀ r ∈ s.receipts, r.sentIn = some r.life
  blocks : s.idle = true → s.sentIn s.slot ≠ some (s.life s.slot) → (sysIpcRecv s.procs).1 = none

/-- The condition on a step under which nothing crosses lives: nobody but slot 0, whose number means that
there is no message, sends to a zombie. -/
def Post.Careful (s : Post) : PostOp → Prop
  | .ipcSend targetPid _ _ _ _ =>
    s.idle = true → targetPid < maxProcs → s.procs.state targetPid = procZombie → s.slot = 0
  | _ => True

instance (s : Post) : ∀ op, Decidable (s.Careful op)
  | .ipcSend targetPid _ _ _ _ =>
    inferInstanceAs (Decidable (s.idle = true → targetPid < maxProcs →
      s.procs.state targetPid = procZombie → s.slot = 0))
  | .spawn _ | .switch _ _ | .ringSend _ _ _ _ | .ipcRecv | .resume | .exit _ | .wait _ => isTrue trivial

end Keuos.Process
