import Keuos.Ipc.Shm

/-!
# The consumer that sleeps

`spsc_consume_adaptive` polls the ring for a while, then arms the `consumer_waiting` flag, looks once more,
and halts the core until an interrupt.  It has no bound on its loop, so it is a state machine and not a
program: a state names the next access and holds the locals that are live there.  The producer is a state
machine too, with a state for each access of `spsc_push_wake`.

An interrupt that comes before the halt is kept in `pending`, and the halt then ends at once.
-/

namespace Keuos.Ipc.Adaptive

def spinPollBudget : UInt64 := 50

/-! ### The producer -/

/-- Where the producer is: the access that comes next. -/
inductive Producer where
  | idle
  | tail (byte : UInt8) (head : UInt64)
  | cap (byte : UInt8) (head tail : UInt64)
  | store (byte : UInt8) (head idx : UInt64)
  | publish (byte : UInt8) (head : UInt64)
  | flag
  | returned (code : UInt64)
  deriving DecidableEq, Repr

/-- Where the consumer is: the access that comes next. -/
inductive Consumer where
  | idle
  | head (spins : UInt64)
  | tail (spins head : UInt64)
  | arm
  | recheckHead
  | recheckTail (head : UInt64)
  | disarm (tail : UInt64)
  | halt
  | clear
  | cap (tail : UInt64)
  | data (tail idx : UInt64)
  | advance (tail : UInt64) (byte : UInt8)
  deriving DecidableEq, Repr

/-- The page, the interrupt that is kept for the consumer's core, the two sides, the bytes that were
published so far and those that calls of the consumer returned. -/
structure State where
  mem : Mem
  pending : Bool
  producer : Producer
  consumer : Consumer
  sent : List UInt8
  returned : List UInt8

/-- The next step of the producer, whose next call pushes `next`: one access of `spsc_push_wake`, or, when it
has returned 2, the interrupt. -/
def stepProducer (base : UInt64) (next : UInt8) (s : State) : State :=
  match s.producer with
  | .idle => { s with producer := .tail next (s.mem.read64 (base + headOffset)) }
  | .tail byte head =>
    { s with producer := .cap byte head (s.mem.read64 (base + tailOffset)) }
  | .cap byte head tail =>
    let cap := s.mem.read64 (base + capacityOffset)
    if cap == 0 then { s with producer := .returned 0 }
    else if head - tail ≥ cap then { s with producer := .returned 0 }
    else
      let idx := head % cap
      if idx ≥ dataCapacity then { s with producer := .returned 0 }
      else { s with producer := .store byte head idx }
  | .store byte head idx =>
    { s with
      mem := s.mem.write8 (base + dataOffset + idx) byte
      producer := .publish byte head }
  | .publish byte head =>
    { s with
      mem := s.mem.write64 (base + headOffset) (head + 1)
      producer := .flag
      sent := s.sent ++ [byte] }
  | .flag =>
    let waiting := s.mem.read64 (base + consumerWaitingOffset)
    { s with producer := .returned (if waiting != 0 then 2 else 1) }
  | .returned code => { s with pending := s.pending || code == 2, producer := .idle }

/-! ### The consumer -/

/-- The next step of the consumer: one access of `spsc_consume_adaptive`, or the halt, which an interrupt
ends.  When a call returns, the next one begins. -/
def stepConsumer (base : UInt64) (s : State) : State :=
  match s.consumer with
  | .idle => { s with consumer := .tail 0 (s.mem.read64 (base + headOffset)) }
  | .head spins => { s with consumer := .tail spins (s.mem.read64 (base + headOffset)) }
  | .tail spins head =>
    let tail := s.mem.read64 (base + tailOffset)
    if head == tail then
      if spins ≥ spinPollBudget then { s with consumer := .arm }
      else { s with consumer := .head (spins + 1) }
    else { s with consumer := .cap tail }
  | .arm =>
    { s with
      mem := s.mem.write64 (base + consumerWaitingOffset) 1
      consumer := .recheckHead }
  | .recheckHead => { s with consumer := .recheckTail (s.mem.read64 (base + headOffset)) }
  | .recheckTail head =>
    let tail := s.mem.read64 (base + tailOffset)
    if head != tail then { s with consumer := .disarm tail }
    else { s with consumer := .halt }
  | .disarm tail =>
    { s with
      mem := s.mem.write64 (base + consumerWaitingOffset) 0
      consumer := .cap tail }
  | .halt => if s.pending then { s with pending := false, consumer := .clear } else s
  | .clear =>
    { s with
      mem := s.mem.write64 (base + consumerWaitingOffset) 0
      consumer := .head 0 }
  | .cap tail =>
    let cap := s.mem.read64 (base + capacityOffset)
    if cap == 0 then { s with consumer := .idle }
    else
      let idx := tail % cap
      if idx ≥ dataCapacity then { s with consumer := .idle }
      else { s with consumer := .data tail idx }
  | .data tail idx =>
    { s with consumer := .advance tail (s.mem (base + dataOffset + idx)) }
  | .advance tail byte =>
    { s with
      mem := s.mem.write64 (base + tailOffset) (tail + 1)
      consumer := .idle
      returned := s.returned ++ [byte] }

/-! ### Runs -/

/-- A step of the system: of one of the two sides, or an interrupt from somewhere else. -/
inductive Act where
  | producer (next : UInt8)
  | consumer
  | interrupt
  deriving DecidableEq, Repr

def step (base : UInt64) (s : State) : Act → State
  | .producer next => stepProducer base next s
  | .consumer => stepConsumer base s
  | .interrupt => { s with pending := true }

def run (base : UInt64) (acts : List Act) (s : State) : State :=
  acts.foldl (step base) s

/-- Both sides before their first call, on the ring that `spsc_init` made. -/
def start (base : UInt64) (m : Mem) : State where
  mem := (initRing base m).mem
  pending := false
  producer := .idle
  consumer := .idle
  sent := []
  returned := []

/-- A wakeup is pending, or the producer will issue one before its call is over: it has returned 2, or it
has published its byte and the flag that it is going to read is set. -/
def WakeupDue (base : UInt64) (s : State) : Prop :=
  s.pending = true ∨ s.producer = .returned 2 ∨
    (s.producer = .flag ∧ s.mem.read64 (base + consumerWaitingOffset) ≠ 0)

instance (base : UInt64) (s : State) : Decidable (WakeupDue base s) :=
  inferInstanceAs (Decidable (_ ∨ _ ∨ _))

/-- The consumer is halted, although there is something in the ring, and nothing will wake it. -/
def LostWakeup (base : UInt64) (s : State) : Prop :=
  s.consumer = .halt ∧ ¬ WakeupDue base s ∧
    s.mem.read64 (base + headOffset) ≠ s.mem.read64 (base + tailOffset)

instance (base : UInt64) (s : State) : Decidable (LostWakeup base s) :=
  inferInstanceAs (Decidable (_ ∧ _ ∧ _))

end Keuos.Ipc.Adaptive
