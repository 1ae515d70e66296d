import Keuos.Ecs.SparseSet
import Keuos.Lib.Spsc
import Mathlib.Algebra.Group.Nat.Defs

/-!
# Event queues

The four queues of `kernel/ecs/events.salt`, which interrupt handlers fill and the kernel empties, and the
ring of pulse events of `kernel/core/pulse.salt`.  All of them are rings with one producer and one consumer,
of different sizes and with different events.  The functions that push and pop are given as one step of the
push or pop in progress, with an access to the shared ring in each.
-/

namespace Keuos.Ecs

open Spsc

/-! ### Indices -/

/-- The slot at an `i64` index. -/
def slotOf (i : Int64) : Nat :=
  i.toUInt64.toNat

theorem slotOf_inj (i j : Int64) (h : slotOf i = slotOf j) : i = j :=
  Int64.toBitVec.inj (BitVec.eq_of_toNat_eq h)

theorem slotOf_ofNat {n : Nat} (hn : n < 2 ^ 64) : slotOf (Int64.ofNat n) = n := by
  unfold slotOf
  rw [Int64.toUInt64_ofNat', UInt64.toNat_ofNat_of_lt' hn]

theorem slotOf_next {n : Nat} (hpos : 0 < n) (hn : n < 2 ^ 62) (i : Int64) (hi : slotOf i < n) :
    slotOf ((i + 1) % Int64.ofNat n) = (slotOf i + 1) % n := by
  have hidx : Int64.ofNat (slotOf i) = i := by
    apply slotOf_inj
    exact slotOf_ofNat (by omega)
  have hlt := Nat.mod_lt (slotOf i + 1) hpos
  conv_lhs => rw [← hidx]
  rw [show (1 : Int64) = Int64.ofNat 1 from rfl, ← Int64.ofNat_add,
    ← Int64.ofNat_mod (by omega) (by omega), slotOf_ofNat (by omega)]

theorem toNat_next {n : Nat} (hn : n < 2 ^ 62) (i : UInt64) (hi : i.toNat < n) :
    ((i + 1) % UInt64.ofNat n).toNat = (i.toNat + 1) % n := by
  rw [UInt64.toNat_mod, UInt64.toNat_add, UInt64.toNat_ofNat_of_lt' (by change n < 2 ^ 64; omega)]
  congr 1
  exact Nat.mod_eq_of_lt (by change i.toNat + 1 < 2 ^ 64; omega)

/-! ### Hardware interrupts -/

structure HardwareInterrupt where
  irqNumber : UInt8
  deriving DecidableEq, Repr

def hardwareEvents : Ring Int64 HardwareInterrupt where
  size := 1024
  zero := 0
  next i := (i + 1) % 1024
  pos := slotOf
  copies := [fun source target => { target with irqNumber := source.irqNumber }]
  one_lt_size := by decide
  pos_zero := rfl
  pos_next := slotOf_next (by decide) (by decide)
  pos_inj := slotOf_inj
  copy_all _ _ := rfl

def hardwareEventsPush := pushStep hardwareEvents

def hardwareEventsPop := popStep hardwareEvents

/-! ### Network packets -/

structure NetworkPacketEvent where
  ringEntity : UInt32
  len : UInt16
  deriving DecidableEq, Repr

def networkEvents : Ring Int64 NetworkPacketEvent where
  size := 512
  zero := 0
  next i := (i + 1) % 512
  pos := slotOf
  copies := [fun source target => { target with ringEntity := source.ringEntity },
    fun source target => { target with len := source.len }]
  one_lt_size := by decide
  pos_zero := rfl
  pos_next := slotOf_next (by decide) (by decide)
  pos_inj := slotOf_inj
  copy_all _ _ := rfl

def networkEventsPush := pushStep networkEvents

def networkEventsPop := popStep networkEvents

/-! ### Timers -/

structure TimerEvent where
  deadlineNs : UInt64
  deriving DecidableEq, Repr

def timerEvents : Ring Int64 TimerEvent where
  size := 512
  zero := 0
  next i := (i + 1) % 512
  pos := slotOf
  copies := [fun source target => { target with deadlineNs := source.deadlineNs }]
  one_lt_size := by decide
  pos_zero := rfl
  pos_next := slotOf_next (by decide) (by decide)
  pos_inj := slotOf_inj
  copy_all _ _ := rfl

def timerEventsPush := pushStep timerEvents

def timerEventsPop := popStep timerEvents

/-! ### Exits of processes -/

structure ProcessExitEvent where
  entity : Entity
  exitCode : Int32
  deriving DecidableEq

def processExitEvents : Ring Int64 ProcessExitEvent where
  size := 256
  zero := 0
  next i := (i + 1) % 256
  pos := slotOf
  copies := [fun source target => { target with entity.id := source.entity.id },
    fun source target => { target with entity.gen := source.entity.gen },
    fun source target => { target with exitCode := source.exitCode }]
  one_lt_size := by decide
  pos_zero := rfl
  pos_next := slotOf_next (by decide) (by decide)
  pos_inj := slotOf_inj
  copy_all _ _ := rfl

def processExitEventsPush := pushStep processExitEvents

def processExitEventsPop := popStep processExitEvents

/-! ### Pulses -/

/-- `PulseEvent`, the three words of `RING` at `3 * i`.  The time stamp is what `push` finds in
`TICK_COUNTER` when it stores the third one. -/
structure PulseEvent where
  eventType : UInt64
  data : UInt64
  timestamp : UInt64
  deriving DecidableEq, Repr

/-- `RING`, with `HEAD` and `TAIL`. -/
def pulseRing : Ring UInt64 PulseEvent where
  size := 256
  zero := 0
  next i := (i + 1) % 256
  pos := UInt64.toNat
  copies := [fun source target => { target with eventType := source.eventType },
    fun source target => { target with data := source.data },
    fun source target => { target with timestamp := source.timestamp }]
  one_lt_size := by decide
  pos_zero := rfl
  pos_next := toNat_next (by decide)
  pos_inj _ _ := UInt64.toNat_inj.mp
  copy_all _ _ := rfl

/-- `push` of `pulse.salt`. -/
def pulsePush := pushStep pulseRing

/-- `pop` of `pulse.salt`. -/
def pulsePop := popStep pulseRing

/-! ### All queues -/

inductive EventQueue where
  | hardware
  | network
  | timer
  | processExit
  | pulse
  deriving DecidableEq, Repr

namespace EventQueue

@[reducible] def Index : EventQueue → Type
  | .pulse => UInt64
  | _ => Int64

@[reducible] def Event : EventQueue → Type
  | .hardware => HardwareInterrupt
  | .network => NetworkPacketEvent
  | .timer => TimerEvent
  | .processExit => ProcessExitEvent
  | .pulse => PulseEvent

def ring : (q : EventQueue) → Ring q.Index q.Event
  | .hardware => hardwareEvents
  | .network => networkEvents
  | .timer => timerEvents
  | .processExit => processExitEvents
  | .pulse => pulseRing

def push : (q : EventQueue) → Spsc.State q.Index q.Event → q.Event → Spsc.State q.Index q.Event
  | .hardware => hardwareEventsPush
  | .network => networkEventsPush
  | .timer => timerEventsPush
  | .processExit => processExitEventsPush
  | .pulse => pulsePush

def pop : (q : EventQueue) → Spsc.State q.Index q.Event → q.Event → Spsc.State q.Index q.Event
  | .hardware => hardwareEventsPop
  | .network => networkEventsPop
  | .timer => timerEventsPop
  | .processExit => processExitEventsPop
  | .pulse => pulsePop

/-- A step of the producer or of the consumer of the queue. -/
def exec (q : EventQueue) (s : Spsc.State q.Index q.Event) : Spsc.Op q.Event → Spsc.State q.Index q.Event
  | .produce event => q.push s event
  | .consume out => q.pop s out

instance (q : EventQueue) : DecidableEq q.Index := by
  cases q <;> infer_instance

theorem exec_eq (q : EventQueue) : q.exec = Spsc.exec q.ring := by
  funext s op
  cases q <;> cases op <;> rfl

end EventQueue

/-- **The event queues are lossless.** In every state of every run of the steps of one producer and one
consumer, in any order, the events popped and then those in the queue are the events accepted, a push was
rejected exactly when all slots but one were taken as it read the tail, and all indices are in bounds. -/
theorem eventQueue_lossless (q : EventQueue) (slots : Nat → q.Event) (ops : List (Spsc.Op q.Event)) :
    (runOps q.exec (State.init q.ring slots) ops).Lossless q.ring := by
  rw [q.exec_eq]
  exact lossless_run q.ring slots ops

end Keuos.Ecs
