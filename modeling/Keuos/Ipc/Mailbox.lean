import Keuos.Lib.Prog
import Mathlib.Data.UInt

/-!
# The IPC mailbox

`sys_ipc_send` and `sys_ipc_recv` of `kernel/core/syscall_ipc.salt`, with `set_ipc_msg` of
`kernel/core/process.salt`.  Both are programs over the process table: every load, store and
compare-and-swap of a field of a control block is one atomic operation, and `sched_yield` is an
operation after which the caller runs again.

The model leaves out the scheduling statistics (`ecs_bridge_*`, `ring_abi_drain_sq`), the serial
output and the registers of the context switch, none of which touches the fields below.  The per-core
scratch words of `ipc_stage_payload` are the payload that a receive returns.
-/

namespace Keuos.Ipc

/-! ### The process table -/

/-- The fields of a control block that the two system calls use. -/
inductive Field where
  | state | sender | msg0 | msg1 | msg2
  deriving DecidableEq, Repr

abbrev ProcTable := UInt64 → Field → UInt64

def ProcTable.set (t : ProcTable) (slot : UInt64) (f : Field) (v : UInt64) : ProcTable :=
  fun slot' f' => if slot' = slot ∧ f' = f then v else t slot' f'

/-- An access of the process table. -/
inductive PcbOp where
  | load (slot : UInt64) (f : Field)
  | store (slot : UInt64) (f : Field) (v : UInt64)
  | cas (slot : UInt64) (f : Field) (expected desired : UInt64)
  | yield
  deriving DecidableEq, Repr

/-- The response to an access and the table after it.  A compare-and-swap returns the old value. -/
def PcbOp.sem : PcbOp → ProcTable → UInt64 × ProcTable
  | .load slot f, t => (t slot f, t)
  | .store slot f v, t => (0, t.set slot f v)
  | .cas slot f expected desired, t =>
    (t slot f, if t slot f = expected then t.set slot f desired else t)
  | .yield, t => (0, t)

abbrev PcbProg := Prog PcbOp UInt64

def load (slot : UInt64) (f : Field) : PcbProg UInt64 :=
  .op (.load slot f) .ret

def store (slot : UInt64) (f : Field) (v : UInt64) : PcbProg Unit :=
  .op (.store slot f v) fun _ => .ret ()

/-- `smp_cas_u64`. -/
def smpCas (slot : UInt64) (f : Field) (expected desired : UInt64) : PcbProg UInt64 :=
  .op (.cas slot f expected desired) .ret

def schedYield : PcbProg Unit :=
  .op .yield fun _ => .ret ()

/-! ### The system calls -/

def maxProcs : UInt64 := 64
def procFree : UInt64 := 0
def procReady : UInt64 := 1
def procRunning : UInt64 := 2
def procIpcBlocked : UInt64 := 4

/-- The value that locks the mailbox. -/
def mailboxLock : UInt64 := 0xFFFFFFFFFFFFFFFF

/-- A message: the slot of its sender and three words. -/
structure Msg where
  sender : UInt64
  msg0 : UInt64
  msg1 : UInt64
  msg2 : UInt64
  deriving DecidableEq, Repr

def setIpcMsg (slot : UInt64) (m : Msg) : PcbProg Unit := do
  store slot .msg0 m.msg0
  store slot .msg1 m.msg1
  store slot .msg2 m.msg2
  store slot .sender m.sender

/-- `switch_to_process`, as far as the process table is concerned. -/
def switchToProcess (current next : UInt64) : PcbProg Unit := do
  let curState ← load current .state
  if curState == procRunning then do
    store current .state procReady
    store next .state procRunning
  else
    store next .state procRunning

/-- `sys_ipc_send` by the process `m.sender`. -/
def sysIpcSend (targetPid : UInt64) (m : Msg) : PcbProg UInt64 :=
  if targetPid ≥ maxProcs then pure (0 - 1)
  else do
    let targetState ← load targetPid .state
    if targetState == procFree then pure (0 - 1)
    else do
      let old ← smpCas targetPid .state procIpcBlocked procReady
      if old == procIpcBlocked then do
        setIpcMsg targetPid m
        switchToProcess m.sender targetPid
        pure 0
      else do
        let slotVal ← smpCas targetPid .sender 0 mailboxLock
        if slotVal == 0 then do
          setIpcMsg targetPid m
          pure 0
        else pure (0 - 1)

/-- The end of a receive: stage the payload and clear the fields. -/
def takeMessage (slot sender : UInt64) : PcbProg Msg := do
  let msg0 ← load slot .msg0
  let msg1 ← load slot .msg1
  let msg2 ← load slot .msg2
  setIpcMsg slot ⟨0, 0, 0, 0⟩
  pure ⟨sender, msg0, msg1, msg2⟩

/-- `sys_ipc_recv` by the process `slot`. -/
def sysIpcRecv (slot : UInt64) : PcbProg Msg := do
  let bufferedSender ← load slot .sender
  if bufferedSender != 0 then takeMessage slot bufferedSender
  else do
    store slot .state procIpcBlocked
    schedYield
    let sender ← load slot .sender
    takeMessage slot sender

/-! ### Senders and a receiver -/

/-- The sending processes and the receiver. -/
inductive Party where
  | sender (i : Fin 64)
  | receiver
  deriving DecidableEq, Repr

/-- The slot number of a process as a word. -/
def slotOf (i : Fin 64) : UInt64 := UInt64.ofNat i

/-- The payload of a send. -/
structure Payload where
  msg0 : UInt64
  msg1 : UInt64
  msg2 : UInt64
  deriving DecidableEq, Repr

def Payload.msg (c : Payload) (i : Fin 64) : Msg := ⟨slotOf i, c.msg0, c.msg1, c.msg2⟩

/-- Who has the fields of the receiver's control block: a sender that has won a compare-and-swap has
them until its last store, then they hold its message, until the receiver begins to clear them. -/
inductive Mail where
  | empty
  | writing (i : Fin 64)
  | full (m : Msg)
  | taken (m : Msg)
  deriving DecidableEq, Repr

/-- The message that was published and not yet returned by a receive. -/
def Mail.pending : Mail → List Msg
  | .full m => [m]
  | .taken m => [m]
  | _ => []

/-- There is a message that the receiver has not begun to clear. -/
def Mail.isFull : Mail → Bool
  | .full _ => true
  | _ => false

/-- The process table, with the state of the mailbox, whether the receiver has blocked in its call,
the messages that were published and those that were returned by receives, and the messages of the
sends that returned 0. -/
structure Mailbox where
  table : ProcTable
  mail : Mail
  armed : Bool
  published : List Msg
  delivered : List Msg
  succeeded : List Msg

/-- The mailbox after an operation of a sender. -/
def mailAfterSend (r i : Fin 64) (c : Payload) (s : Mailbox) : PcbOp → Mail
  | .cas slot f expected _ =>
    if slot = slotOf r ∧ s.table slot f = expected then .writing i else s.mail
  | .store slot .sender _ => if slot = slotOf r then .full (c.msg i) else s.mail
  | _ => s.mail

/-- The messages that an operation of a sender publishes. -/
def publishes (r i : Fin 64) (c : Payload) : PcbOp → List Msg
  | .store slot .sender _ => if slot = slotOf r then [c.msg i] else []
  | _ => []

/-- The mailbox after an operation of the receiver. -/
def mailAfterRecv (r : Fin 64) (s : Mailbox) : PcbOp → Mail
  | .store slot .msg0 _ =>
    match s.mail with
    | .full m => if slot = slotOf r then .taken m else .full m
    | mail => mail
  | .store slot .sender _ => if slot = slotOf r then .empty else s.mail
  | _ => s.mail

/-- The receiver blocks when it stores its state. -/
def armedAfterRecv (s : Mailbox) : PcbOp → Bool
  | .store _ .state _ => true
  | _ => s.armed

/-- Any of the processes sends to the process `r`, which receives. -/
def ipcMachine (r : Fin 64) : Machine Party PcbOp UInt64 Mailbox where
  Call
    | .sender _ => Payload
    | .receiver => Unit
  Res
    | .sender _ => UInt64
    | .receiver => Msg
  body
    | .sender i => fun (c : Payload) => sysIpcSend (slotOf r) (c.msg i)
    | .receiver => fun _ => sysIpcRecv (slotOf r)
  step
    | .sender i, (c : Payload), o, s =>
      ((o.sem s.table).1, { s with
        table := (o.sem s.table).2
        mail := mailAfterSend r i c s o
        published := s.published ++ publishes r i c o })
    | .receiver, _, o, s =>
      ((o.sem s.table).1, { s with
        table := (o.sem s.table).2
        mail := mailAfterRecv r s o
        armed := armedAfterRecv s o })
  finish
    | .sender i, (c : Payload), (a : UInt64), _, s =>
      if a = 0 then { s with succeeded := s.succeeded ++ [c.msg i] } else s
    | .receiver, _, (m : Msg), _, s =>
      { s with delivered := s.delivered ++ [m], armed := false }

/-- The state before the first call: the mail fields of the receiver are as in a new control block. -/
def Mailbox.init (t : ProcTable) : Mailbox where
  table := t
  mail := .empty
  armed := false
  published := []
  delivered := []
  succeeded := []

/-- The messages of one sender. -/
def sentBy (i : Fin 64) (l : List Msg) : List Msg :=
  l.filter fun m => m.sender == slotOf i

/-- The control block of the receiver holds the message. -/
def Mailbox.Holds (s : Mailbox) (r : Fin 64) (m : Msg) : Prop :=
  s.table (slotOf r) .sender = m.sender ∧ s.table (slotOf r) .msg0 = m.msg0 ∧
    s.table (slotOf r) .msg1 = m.msg1 ∧ s.table (slotOf r) .msg2 = m.msg2

/-- **Every message is delivered once and unchanged**: the receives have returned the published
messages in order, all but at most one, which is in the control block when no receive is under way;
their senders are processes; and what the sends of a process that returned 0 carried is what that
process has published. -/
def Delivery (r : Fin 64) (cfg : (ipcMachine r).Config) : Prop :=
  let s := cfg.shared
  (∃ pending, pending.length ≤ 1 ∧ s.published = s.delivered ++ pending ∧
      (cfg.thread .receiver = none → ∀ m ∈ pending, s.Holds r m)) ∧
    (∀ m ∈ s.delivered, m.sender < maxProcs) ∧
    ∀ i, sentBy i s.succeeded <+: sentBy i s.published ∧
      (cfg.thread (.sender i) = none → sentBy i s.succeeded = sentBy i s.published)

/-- The condition on a step under which mail is delivered.  A sender wins a compare-and-swap only
while nobody has the mail fields.  The receiver reads the sender field only when it is not locked, and
after it has blocked only when there is a message. -/
def Exclusive (r : Fin 64) : (p : Party) → (ipcMachine r).Call p → PcbOp → Mailbox → Prop
  | .sender _, _, .cas slot f expected _, s =>
    slot = slotOf r → s.table slot f = expected → s.mail = .empty
  | .receiver, _, .load slot .sender, s =>
    s.table slot .sender ≠ mailboxLock ∧ (s.armed = true → s.mail.isFull = true)
  | _, _, _, _ => True

instance (r : Fin 64) : ∀ p c o s, Decidable (Exclusive r p c o s)
  | .sender _, _, .cas slot f expected _, s =>
    inferInstanceAs (Decidable (slot = slotOf r → s.table slot f = expected → s.mail = .empty))
  | .receiver, _, .load slot .sender, s =>
    inferInstanceAs (Decidable (s.table slot .sender ≠ mailboxLock ∧
      (s.armed = true → s.mail.isFull = true)))
  | .sender _, _, .load _ _, _ | .sender _, _, .store _ _ _, _ | .sender _, _, .yield, _ =>
    isTrue trivial
  | .receiver, _, .load _ .state, _ | .receiver, _, .load _ .msg0, _
  | .receiver, _, .load _ .msg1, _ | .receiver, _, .load _ .msg2, _
  | .receiver, _, .store _ _ _, _ | .receiver, _, .cas _ _ _ _, _ | .receiver, _, .yield, _ =>
    isTrue trivial

end Keuos.Ipc

/-!
## A receiver that sleeps

The programs of the mailbox once more, with other records beside the process table.  A sender that has won a
compare-and-swap owes the receiver something until its call returns: after the one on the state it will make
the receiver run, after the one on the sender field it will fill the mailbox.
-/

namespace Keuos.Ipc

/-- What a sender has won. -/
inductive Stage where
  | idle
  | handOff
  | locked
  deriving DecidableEq, Repr

/-- The process table, and what each sender has won in the call it is in. -/
structure Bedroom where
  table : ProcTable
  stage : Fin 64 → Stage

/-- The stage of a sender after an operation. -/
def Stage.after (stage : Stage) (r : Fin 64) (t : ProcTable) : PcbOp → Stage
  | .cas slot f expected _ =>
    if slot = slotOf r ∧ t slot f = expected then
      if f = .state then .handOff else .locked
    else stage
  | _ => stage

/-- Any of the processes sends to the process `r`, which receives. -/
def wakeMachine (r : Fin 64) : Machine Party PcbOp UInt64 Bedroom where
  Call := (ipcMachine r).Call
  Res := (ipcMachine r).Res
  body := (ipcMachine r).body
  step
    | .sender i, _, o, s =>
      ((o.sem s.table).1, {
        table := (o.sem s.table).2
        stage := Function.update s.stage i ((s.stage i).after r s.table o) })
    | .receiver, _, o, s => ((o.sem s.table).1, { s with table := (o.sem s.table).2 })
  finish
    | .sender i, _, _, _, s => { s with stage := Function.update s.stage i .idle }
    | .receiver, _, _, _, s => s

/-- The state before the first call. -/
def Bedroom.init (t : ProcTable) : Bedroom :=
  ⟨t, fun _ => .idle⟩

/-- The process is blocked, with mail. -/
def MailWaits (r : Fin 64) (t : ProcTable) : Prop :=
  t (slotOf r) .state = procIpcBlocked ∧ t (slotOf r) .sender ≠ 0

instance (r : Fin 64) (t : ProcTable) : Decidable (MailWaits r t) :=
  inferInstanceAs (Decidable (_ ∧ _))

/-- All senders have returned, and the receiver sleeps behind its blocking point with a full mailbox. -/
def Overslept (r : Fin 64) (cfg : (wakeMachine r).Config) : Prop :=
  (∀ i, cfg.thread (.sender i) = none) ∧
    (∃ k, cfg.thread .receiver = some ((), .op .yield k)) ∧ MailWaits r cfg.shared.table

/-- The condition on a step under which nobody oversleeps.  When the receiver blocks, its mailbox is empty,
and when a sender fills the mailbox that it has locked, the receiver is not blocked, unless another sender
that has won a compare-and-swap has not returned. -/
def Wakeful (r : Fin 64) : (p : Party) → (wakeMachine r).Call p → PcbOp → Bedroom → Prop
  | .receiver, _, .store slot .state v, s =>
    MailWaits r (s.table.set slot .state v) → ∃ j, s.stage j ≠ .idle
  | .sender i, _, .store slot .sender v, s =>
    s.stage i = .locked → MailWaits r (s.table.set slot .sender v) → ∃ j, j ≠ i ∧ s.stage j ≠ .idle
  | _, _, _, _ => True

instance (r : Fin 64) : ∀ p c o s, Decidable (Wakeful r p c o s)
  | .receiver, _, .store slot .state v, s =>
    inferInstanceAs (Decidable (MailWaits r (s.table.set slot .state v) → ∃ j, s.stage j ≠ .idle))
  | .sender i, _, .store slot .sender v, s =>
    inferInstanceAs (Decidable (s.stage i = .locked → MailWaits r (s.table.set slot .sender v) →
      ∃ j, j ≠ i ∧ s.stage j ≠ .idle))
  | .sender _, _, .load _ _, _ | .sender _, _, .cas _ _ _ _, _ | .sender _, _, .yield, _
  | .sender _, _, .store _ .state _, _ | .sender _, _, .store _ .msg0 _, _
  | .sender _, _, .store _ .msg1 _, _ | .sender _, _, .store _ .msg2 _, _ => isTrue trivial
  | .receiver, _, .load _ _, _ | .receiver, _, .cas _ _ _ _, _ | .receiver, _, .yield, _
  | .receiver, _, .store _ .sender _, _ | .receiver, _, .store _ .msg0 _, _
  | .receiver, _, .store _ .msg1 _, _ | .receiver, _, .store _ .msg2 _, _ => isTrue trivial

end Keuos.Ipc
