import Keuos.Lib.Lease
import Keuos.Lib.Prog
import Mathlib.Data.UInt

/-!
# The stream router

The routing table of NetD (`user/netd/router.salt`).  Every load and store of an entry and every
compare-and-swap of a port state is one atomic operation, and any number of processes run the calls.

A port is a lease: a `bind_stream` claims it with its compare-and-swap, and the store of `PORT_UNBOUND` by an
`unbind_stream` releases it.
-/

namespace Keuos.Netd

/-! ### The routing table -/

/-- The four arrays. -/
inductive PortField where
  | stream | tcb | state | owner
  deriving DecidableEq, Repr

/-- `PORT_STREAMS`, `PORT_TCBS`, `PORT_STATES` and `PORT_OWNERS`. -/
abbrev PortTable := UInt16 → PortField → UInt64

def PortTable.set (t : PortTable) (port : UInt16) (f : PortField) (v : UInt64) : PortTable :=
  fun port' f' => if port' = port ∧ f' = f then v else t port' f'

/-- An access of the routing table. -/
inductive PortOp where
  | load (port : UInt16) (f : PortField)
  | store (port : UInt16) (f : PortField) (v : UInt64)
  | cas (port : UInt16) (expected desired : UInt64)
  deriving DecidableEq, Repr

/-- The response to an access and the table after it.  A compare-and-swap of the state of a port returns
the old value. -/
def PortOp.sem : PortOp → PortTable → UInt64 × PortTable
  | .load port f, t => (t port f, t)
  | .store port f v, t => (0, t.set port f v)
  | .cas port expected desired, t =>
    (t port .state, if t port .state = expected then t.set port .state desired else t)

abbrev PortProg := Prog PortOp UInt64

def load (port : UInt16) (f : PortField) : PortProg UInt64 :=
  .op (.load port f) .ret

def store (port : UInt16) (f : PortField) (v : UInt64) : PortProg Unit :=
  .op (.store port f v) fun _ => .ret ()

/-- `atomic_cas_i64` of a port state. -/
def casState (port : UInt16) (expected desired : UInt64) : PortProg UInt64 :=
  .op (.cas port expected desired) .ret

/-! ### The calls -/

def portUnbound : UInt64 := 0
def portBound : UInt64 := 1

/-- The state of a port whose entries are being written. -/
def portStaging : UInt64 := 99

/-- The arguments of a `bind_stream` besides the port. -/
structure Binding where
  streamHandle : UInt64
  tcbHandle : UInt64
  ownerPid : UInt64
  deriving DecidableEq, Repr

def bindStream (port : UInt16) (b : Binding) : PortProg UInt64 := do
  let oldState ← casState port portUnbound portStaging
  if oldState != portUnbound then pure 1
  else do
    store port .stream b.streamHandle
    store port .tcb b.tcbHandle
    store port .owner b.ownerPid
    store port .state portBound
    pure 0

def unbindStream (port : UInt16) (callerPid : UInt64) : PortProg UInt64 := do
  let oldState ← casState port portBound portStaging
  if oldState != portBound then pure 1
  else do
    let owner ← load port .owner
    if owner != callerPid then do
      store port .state portBound
      pure 2
    else do
      store port .stream 0
      store port .tcb 0
      store port .owner 0
      store port .state portUnbound
      pure 0

/-- `lookup_stream` and `lookup_tcb`, which differ in the array that they read. -/
def lookup (port : UInt16) (f : PortField) : PortProg UInt64 := do
  let state ← load port .state
  if state == portBound then load port f else pure 0

def lookupStream (port : UInt16) : PortProg UInt64 := lookup port .stream
def lookupTcb (port : UInt16) : PortProg UInt64 := lookup port .tcb

/-! ### The processes -/

inductive RouterCall where
  | bind (port : UInt16) (b : Binding)
  | unbind (port : UInt16) (callerPid : UInt64)
  | lookupStream (port : UInt16)
  | lookupTcb (port : UInt16)
  deriving DecidableEq, Repr

def RouterCall.body : RouterCall → PortProg UInt64
  | .bind port b => bindStream port b
  | .unbind port callerPid => unbindStream port callerPid
  | .lookupStream port => Netd.lookupStream port
  | .lookupTcb port => Netd.lookupTcb port

/-- The call binds or unbinds the port. -/
def RouterCall.Changes (port : UInt16) : RouterCall → Prop
  | .bind port' _ => port' = port
  | .unbind port' _ => port' = port
  | _ => False

abbrev PortEvent := Lease.Event Binding UInt64

/-- The table, the claims and releases of each port, which process has put it into the staging state, and
the calls that have returned, with their results. -/
structure Router where
  table : PortTable
  log : UInt16 → List PortEvent
  stager : UInt16 → Option Nat
  returned : List (RouterCall × UInt64)

/-- What an operation of a call does to the lease of its port. -/
def RouterCall.events (t : PortTable) : RouterCall → PortOp → List PortEvent
  | .bind _ b, .cas port expected _ => if t port .state = expected then [.claimed b] else []
  | .unbind _ callerPid, .store _ .state v => if v = portUnbound then [.released callerPid] else []
  | _, _ => []

/-- The stager of a port after an operation of the process `i`. -/
def stagerAfter (i : Nat) (t : PortTable) (stager : Option Nat) : PortOp → Option Nat
  | .cas port expected _ => if t port .state = expected then some i else stager
  | .store _ .state _ => none
  | _ => stager

/-- The port that an operation accesses. -/
def PortOp.port : PortOp → UInt16
  | .load port _ => port
  | .store port _ _ => port
  | .cas port _ _ => port

/-- Any number of processes use the routing table. -/
def routerMachine : Machine Nat PortOp UInt64 Router where
  Call _ := RouterCall
  Res _ := UInt64
  body _ := RouterCall.body
  step i c o s :=
    ((o.sem s.table).1, { s with
      table := (o.sem s.table).2
      log := Function.update s.log o.port (s.log o.port ++ c.events s.table o)
      stager := Function.update s.stager o.port (stagerAfter i s.table (s.stager o.port) o) })
  finish _ c a _ s := { s with returned := s.returned ++ [(c, a)] }

/-- The table as it is loaded. -/
def Router.init : Router where
  table := fun _ _ => 0
  log := fun _ => []
  stager := fun _ => none
  returned := []

/-! ### The law -/

/-- Those on whose behalf `unbind_stream` calls for the port have returned 0. -/
def unbound (port : UInt16) (returned : List (RouterCall × UInt64)) : List UInt64 :=
  returned.filterMap fun
    | (.unbind port' callerPid, a) => if port' = port ∧ a = 0 then some callerPid else none
    | _ => none

/-- The word of a binding that belongs into an array. -/
def Binding.word (b : Binding) : PortField → UInt64
  | .stream => b.streamHandle
  | .tcb => b.tcbHandle
  | .state => portBound
  | .owner => b.ownerPid

/-- The entries of a port that nobody is binding or unbinding. -/
def settled (holder : Option Binding) (f : PortField) : UInt64 :=
  match holder with
  | none => 0
  | some b => b.word f

/-- **The bindings of a port are exclusive.**  Between two claims there is a release, which is on behalf of
the owner of the binding.  The `unbind_stream` calls that returned 0 are those that released.  When no
`bind_stream` or `unbind_stream` for the port is in progress, its entries are those of the binding in force.
What was looked up belongs to a claim of the port. -/
structure PortLaw (port : UInt16) (cfg : routerMachine.Config) : Prop where
  exclusive : ∀ before b mid b' after,
    cfg.shared.log port = before ++ .claimed b :: (mid ++ .claimed b' :: after) →
      ∃ callerPid, .released callerPid ∈ mid
  rightful : ∀ before callerPid after, cfg.shared.log port = before ++ .released callerPid :: after →
    ∃ b, Lease.holder before = some b ∧ b.ownerPid = callerPid
  released : unbound port cfg.shared.returned = Lease.releases (cfg.shared.log port)
  quiet : (∀ i c p, cfg.thread i = some (c, p) → ¬ RouterCall.Changes port c) →
    ∀ f, cfg.shared.table port f = settled (Lease.holder (cfg.shared.log port)) f
  found : ∀ v, (.lookupStream port, v) ∈ cfg.shared.returned →
    v = 0 ∨ ∃ b, .claimed b ∈ cfg.shared.log port ∧ b.streamHandle = v
  foundTcb : ∀ v, (.lookupTcb port, v) ∈ cfg.shared.returned →
    v = 0 ∨ ∃ b, .claimed b ∈ cfg.shared.log port ∧ b.tcbHandle = v

end Keuos.Netd
