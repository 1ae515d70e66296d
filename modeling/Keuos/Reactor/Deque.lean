import Keuos.Lib.Deque
import Keuos.Lib.Prog
import Mathlib.Data.UInt
import Mathlib.Logic.Function.Basic

/-!
# The work-stealing deque of the reactor (`user/reactor/scheduler.salt`)

The core that owns the deque pushes and pops at the bottom, any other core steals at the top.  Each load and
store of an index or a slot and each compare-and-swap is one atomic operation, and the cores may act between
any two of them.

The functions never look into a task, so the type `α` of the tasks is a parameter, with a default for the
slots that `deque_init` has cleared.  What `pop_bottom` and `steal_top` return is a task, `STEAL_EMPTY` or
`STEAL_ABORT`.
-/

namespace Keuos.Reactor

def dequeCapacity : Int64 := 256

/-- The two indices. -/
inductive Index where
  | top | bottom
  deriving DecidableEq, Repr

/-- An access of the deque. -/
inductive DequeAccess (α : Type) where
  | load (i : Index)
  | store (i : Index) (v : Int64)
  | loadSlot (index : Int64)
  | storeSlot (index : Int64) (task : α)
  | casTop (expected desired : Int64)

/-- A response: an index or a task. -/
inductive Word (α : Type) where
  | index (v : Int64)
  | task (a : α)

/-- The buffer. -/
structure Buffer (α : Type) where
  top : Int64
  bottom : Int64
  slots : Int64 → α

variable {α : Type}

def Buffer.get (d : Buffer α) : Index → Int64
  | .top => d.top
  | .bottom => d.bottom

def Buffer.set (d : Buffer α) : Index → Int64 → Buffer α
  | .top, v => { d with top := v }
  | .bottom, v => { d with bottom := v }

/-- The response to an access and the buffer after it.  A compare-and-swap returns the old value. -/
def DequeAccess.sem (d : Buffer α) : DequeAccess α → Word α × Buffer α
  | .load i => (.index (d.get i), d)
  | .store i v => (.index 0, d.set i v)
  | .loadSlot index => (.task (d.slots index), d)
  | .storeSlot index task => (.index 0, { d with slots := Function.update d.slots index task })
  | .casTop expected desired => (.index d.top, if d.top = expected then { d with top := desired } else d)

abbrev DequeProg (α : Type) := Prog (DequeAccess α) (Word α)

def Word.toIndex : Word α → Int64
  | .index v => v
  | .task _ => 0

def Word.toTask [Inhabited α] : Word α → α
  | .index _ => default
  | .task a => a

/-- `salt_atomic_load_i64`. -/
def load (i : Index) : DequeProg α Int64 :=
  .op (.load i) fun r => .ret r.toIndex

def store (i : Index) (v : Int64) : DequeProg α Unit :=
  .op (.store i v) fun _ => .ret ()

def loadSlot [Inhabited α] (index : Int64) : DequeProg α α :=
  .op (.loadSlot index) fun r => .ret r.toTask

def storeSlot (index : Int64) (task : α) : DequeProg α Unit :=
  .op (.storeSlot index task) fun _ => .ret ()

/-- `salt_atomic_cas_i64` of the top. -/
def casTop (expected desired : Int64) : DequeProg α Int64 :=
  .op (.casTop expected desired) fun r => .ret r.toIndex

/-! ### The functions -/

/-- What a call returns. -/
inductive Outcome (α : Type) where
  | done
  | empty
  | abort
  | task (a : α)

def dequeInit [Inhabited α] : Buffer α :=
  ⟨0, 0, fun _ => default⟩

def pushBottom (taskId : α) : DequeProg α (Outcome α) := do
  let b ← load .bottom
  let t ← load .top
  if b - t ≥ dequeCapacity then pure .done
  else do
    let index := b % dequeCapacity
    storeSlot index taskId
    store .bottom (b + 1)
    pure .done

def popBottom [Inhabited α] : DequeProg α (Outcome α) := do
  let b ← load .bottom
  let newB := b - 1
  store .bottom newB
  let t ← load .top
  if t > newB then do
    store .bottom t
    pure .empty
  else do
    let index := newB % dequeCapacity
    let taskId ← loadSlot index
    if t < newB then pure (.task taskId)
    else do
      let oldTop ← casTop t (t + 1)
      store .bottom (t + 1)
      if oldTop == t then pure (.task taskId) else pure .empty

def stealTop [Inhabited α] : DequeProg α (Outcome α) := do
  let t ← load .top
  let b ← load .bottom
  if t ≥ b then pure .empty
  else do
    let index := t % dequeCapacity
    let taskId ← loadSlot index
    let oldTop ← casTop t (t + 1)
    if oldTop != t then pure .abort else pure (.task taskId)

/-! ### The cores -/

inductive Core where
  | owner
  | thief (n : Nat)
  deriving DecidableEq, Repr

/-- A call of the owner. -/
inductive OwnerCall (α : Type) where
  | push (taskId : α)
  | pop

/-- The buffer, the accepted pushes, the tasks that were returned, and the slots that were used, each in
order. While `lowered`, a `pop_bottom` has lowered the bottom and has not decided what it returns; `hand` is
what it has taken and not yet returned. -/
structure Line (α : Type) where
  deque : Buffer α
  accepted : List α
  returned : List α
  used : List Int64
  lowered : Bool
  hand : List α

/-- The slots that an access uses. -/
def DequeAccess.slots : DequeAccess α → List Int64
  | .loadSlot index => [index]
  | .storeSlot index _ => [index]
  | _ => []

/-- The task with the index `i`. -/
def Buffer.task (d : Buffer α) (i : Int64) : α :=
  d.slots (i % dequeCapacity)

/-- What an access by the owner does to the records. -/
def afterOwner (s : Line α) : OwnerCall α → DequeAccess α → Line α
  | .push taskId, .store .bottom _ => { s with accepted := s.accepted ++ [taskId] }
  | .pop, .store .bottom v => { s with lowered := decide (v < s.deque.bottom) }
  | .pop, .load .top =>
    if s.deque.top < s.deque.bottom then { s with lowered := false, hand :=
      [s.deque.task s.deque.bottom] } else s
  | .pop, .casTop expected _ =>
    if s.deque.top = expected then { s with hand := [s.deque.task expected] } else s
  | _, _ => s

/-- The tasks in a result. -/
def Outcome.tasks : Outcome α → List α
  | .task a => [a]
  | _ => []

/-- The owner and any number of thieves. -/
def dequeMachine (α : Type) [Inhabited α] : Machine Core (DequeAccess α) (Word α) (Line α) where
  Call
    | .owner => OwnerCall α
    | .thief _ => Unit
  Res _ := Outcome α
  body
    | .owner, (c : OwnerCall α) =>
      match c with
      | .push taskId => pushBottom taskId
      | .pop => popBottom
    | .thief _, _ => stealTop
  step
    | .owner, (c : OwnerCall α), o, s =>
      let r := o.sem s.deque
      (r.1, { afterOwner s c o with deque := r.2, used := s.used ++ o.slots })
    | .thief _, _, o, s =>
      let r := o.sem s.deque
      (r.1, { s with deque := r.2, used := s.used ++ o.slots })
  finish
    | .owner, _, a, _, s => { s with returned := s.returned ++ a.tasks, hand := [] }
    | .thief _, _, a, _, s => { s with returned := s.returned ++ a.tasks }

/-- The deque after `deque_init`. -/
def Line.init [Inhabited α] : Line α :=
  ⟨dequeInit, [], [], [], false, []⟩

/-- The tasks in the slots from the top up to the bottom. -/
def Buffer.contents (d : Buffer α) : List α :=
  (List.range (d.bottom - d.top).toInt.toNat).map fun k => d.task (d.top + Int64.ofNat k)

/-- **No task is lost and none is returned twice**: the returned tasks are different accepted pushes, and
every slot that is used exists.  When no call is in progress, the accepted pushes are those that were returned
and those in the deque, which are there in push order. -/
structure DequeLaw [Inhabited α] (cfg : (dequeMachine α).Config) : Prop where
  once : cfg.shared.returned.Subperm cfg.shared.accepted
  used : ∀ i ∈ cfg.shared.used, 0 ≤ i ∧ i ≤ 255
  quiet : (∀ i, cfg.thread i = none) →
    cfg.shared.accepted.Perm (cfg.shared.returned ++ cfg.shared.deque.contents) ∧
      cfg.shared.deque.contents.Sublist cfg.shared.accepted ∧ cfg.shared.deque.top ≤ cfg.shared.deque.bottom ∧
        cfg.shared.deque.bottom.toInt - cfg.shared.deque.top.toInt ≤ 256

end Keuos.Reactor
