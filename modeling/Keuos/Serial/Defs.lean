import Keuos.Ipc.Shm
import Keuos.Lib.Circular
import Keuos.Paging.Defs

/-!
# Serial input

The bytes that COM1 receives go through a ring in one page: `serial_irq_handler` is its producer, and its
consumer is `serial_read_byte`, which `sys_read` calls for the standard input
(`kernel/drivers/serial.salt`, `kernel/core/syscall_io.salt`).  Every load and store of the page is one atomic
operation, so the handler may come between any two of the reader's.

The layout of the page is the one of the shared-memory ring, but the indices are kept below the capacity, and
one byte of the data is never used.
-/

namespace Keuos.Serial

open Ipc Paging
open Pmm (physToVirt)

/-! ### The functions -/

/-- The body of the loop of `serial_irq_handler`, for a byte that was read from the port. -/
def receive (rxRing : UInt64) (ascii : UInt8) : MemProg Unit :=
  if rxRing == 0 then pure ()
  else do
    let capacity ← volatileRead (rxRing + capacityOffset)
    let head ← volatileRead (rxRing + headOffset)
    let tail ← volatileRead (rxRing + tailOffset)
    let newHead := (head + 1) % capacity
    if newHead == tail then pure ()
    else do
      store8 (rxRing + dataOffset + head) ascii
      volatileWrite (rxRing + headOffset) newHead

/-- `serial_irq_handler`, for the bytes that the port has until it is found empty. -/
def serialIrqHandler (rxRing : UInt64) : List UInt8 → MemProg Unit
  | [] => pure ()
  | ascii :: input => do
    receive rxRing ascii
    serialIrqHandler rxRing input

def serialRxAvailable (rxRing : UInt64) : MemProg UInt64 :=
  if rxRing == 0 then pure 0
  else do
    let head ← volatileRead (rxRing + headOffset)
    let tail ← volatileRead (rxRing + tailOffset)
    if head == tail then pure 0 else pure (head - tail)

def serialReadByte (rxRing : UInt64) : MemProg UInt8 :=
  if rxRing == 0 then pure 0
  else do
    let head ← volatileRead (rxRing + headOffset)
    let tail ← volatileRead (rxRing + tailOffset)
    if head == tail then pure 0
    else do
      let capacity ← volatileRead (rxRing + capacityOffset)
      let c ← load8 (rxRing + dataOffset + tail)
      volatileWrite (rxRing + tailOffset) ((tail + 1) % capacity)
      pure c

def isValidUserPtr (ptr len : UInt64) : Bool :=
  if ptr ≥ userAddrLimit then false
  else if ptr + len < ptr then false
  else if ptr + len > userAddrLimit then false
  else true

/-- The loop of `sys_read`, when `n` bytes of the buffer are left. -/
def readStdin (rxRing : UInt64) (translate : UInt64 → UInt64) : Nat → UInt64 → UInt64 → MemProg UInt64
  | 0, _, bytesRead => pure bytesRead
  | n + 1, currentVa, bytesRead => do
    let available ← serialRxAvailable rxRing
    if available == 0 then pure bytesRead
    else do
      let c ← serialReadByte rxRing
      if c == 0 && bytesRead == 0 then pure bytesRead
      else
        let phys := translate currentVa
        if phys == 0 then pure bytesRead
        else do
          store8 (physToVirt phys) c
          readStdin rxRing translate n (currentVa + 1) (bytesRead + 1)

/-- `sys_read` of the file descriptor 0, for a process whose addresses are translated by `translate`. -/
def sysReadStdin (rxRing : UInt64) (translate : UInt64 → UInt64) (buf len : UInt64) : MemProg UInt64 :=
  let actualLen := if len > 4096 then 4096 else len
  if !isValidUserPtr buf actualLen then pure (0 - 1)
  else readStdin rxRing translate actualLen.toNat buf 0

/-! ### The two sides -/

/-- A call of the reader.  A `sys_read` finds the page tables of its process in `tables`. -/
inductive Read where
  | byte
  | available
  | stdin (tables : Mem) (userPml4 buf len : UInt64)

inductive ReadResult where
  | byte (c : UInt8)
  | count (n : UInt64)
  deriving DecidableEq, Repr

def Read.body (rxRing : UInt64) : Read → MemProg ReadResult
  | .byte => do
    let c ← serialReadByte rxRing
    pure (.byte c)
  | .available => do
    let n ← serialRxAvailable rxRing
    pure (.count n)
  | .stdin tables userPml4 buf len => do
    let n ← sysReadStdin rxRing (translateUserAddr tables userPml4) buf len
    pure (.count n)

/-- The memory and what happened so far: the bytes that the handler has stored and made visible, the one it
has stored only, the bytes handed to readers, and for each `serial_rx_available` what it returned and how many
bytes were unread when it read the head.  For the call in progress there are the bytes that it has copied, the
one that it has taken from the ring and not passed on, and the unread ones when it read the head. -/
structure Line where
  mem : Mem
  accepted : List UInt8
  pending : Option UInt8
  delivered : List UInt8
  reports : List (UInt64 × Nat)
  copied : List UInt8
  held : Option UInt8
  seen : Nat

/-- The address of the data byte with the index `k`. -/
def dataSlot (rxRing : UInt64) (k : Nat) : UInt64 :=
  rxRing + UInt64.ofNat (192 + k)

def head (rxRing : UInt64) (m : Mem) : Nat :=
  (m.read64 (rxRing + headOffset)).toNat

def tail (rxRing : UInt64) (m : Mem) : Nat :=
  (m.read64 (rxRing + tailOffset)).toNat

/-- The bytes in the ring, from the tail up to the head. -/
def unread (rxRing : UInt64) (capacity : Nat) (m : Mem) : List UInt8 :=
  Circular.contents (fun k => m (dataSlot rxRing k)) capacity (tail rxRing m) (head rxRing m)

inductive Side where
  | irq | reader
  deriving DecidableEq, Repr

/-- What an operation of the handler does to the records. -/
def afterReceive (rxRing : UInt64) (s : Line) : MemOp → Line
  | .store8 _ v => { s with pending := some v }
  | .store64 a _ =>
    if a = rxRing + headOffset then { s with accepted := s.accepted ++ s.pending.toList, pending := none }
    else s
  | _ => s

/-- What an operation of the reader does to the records. -/
def afterRead (rxRing : UInt64) (capacity : Nat) (s : Line) : MemOp → Line
  | .load64 a =>
    if a = rxRing + headOffset then { s with seen := (unread rxRing capacity s.mem).length } else s
  | .store64 a _ =>
    if a = rxRing + tailOffset then { s with held := some (s.mem (dataSlot rxRing (tail rxRing s.mem))) }
    else s
  | .store8 _ v => { s with copied := s.copied ++ [v], held := none }
  | _ => s

/-- The bytes that a call hands to its caller. -/
def handed (s : Line) : ReadResult → List UInt8
  | .byte c => if s.held.isSome then [c] else []
  | .count n => s.copied.take n.toNat

/-- The handler and a reader of the ring in the page `rxRing`. -/
def serialMachine (rxRing : UInt64) (capacity : Nat) : Machine Side MemOp UInt64 Line where
  Call
    | .irq => List UInt8
    | .reader => Read
  Res
    | .irq => Unit
    | .reader => ReadResult
  body
    | .irq => serialIrqHandler rxRing
    | .reader => Read.body rxRing
  step
    | .irq, _, o, s => ((o.sem s.mem).1, { afterReceive rxRing s o with mem := (o.sem s.mem).2 })
    | .reader, _, o, s => ((o.sem s.mem).1, { afterRead rxRing capacity s o with mem := (o.sem s.mem).2 })
  finish
    | .irq, _, _, _, s => s
    | .reader, (c : Read), (a : ReadResult), _, s =>
      { s with
        delivered := s.delivered ++ handed s a
        reports := match c, a with
          | .available, .count n => s.reports ++ [(n, s.seen)]
          | _, _ => s.reports
        copied := []
        held := none }

/-- The state before the first byte. -/
def Line.init (m : Mem) : Line where
  mem := m
  accepted := []
  pending := none
  delivered := []
  reports := []
  copied := []
  held := none
  seen := 0

/-- A page that has just been set up. -/
structure FreshRing (rxRing : UInt64) (capacity : Nat) (m : Mem) : Prop where
  ne_zero : rxRing ≠ 0
  head : m.read64 (rxRing + headOffset) = 0
  tail : m.read64 (rxRing + tailOffset) = 0
  capacity_eq : (m.read64 (rxRing + capacityOffset)).toNat = capacity
  two_le : 2 ≤ capacity
  le : capacity ≤ 3904

/-- **Serial input reaches its reader intact**: the bytes handed to readers, those on their way in the call in
progress, and those in the ring are the accepted ones, in order; nothing is on its way when no call is in
progress; every count that `serial_rx_available` returned is the number of unread bytes; and the indices stay
below the capacity. -/
structure SerialLaw (rxRing : UInt64) (capacity : Nat) (cfg : (serialMachine rxRing capacity).Config) :
    Prop where
  stream : cfg.shared.delivered ++ (cfg.shared.copied ++ cfg.shared.held.toList) ++
    unread rxRing capacity cfg.shared.mem = cfg.shared.accepted
  idle : cfg.thread .reader = none → cfg.shared.copied = [] ∧ cfg.shared.held = none
  available : ∀ x ∈ cfg.shared.reports, x.1.toNat = x.2
  head_lt : head rxRing cfg.shared.mem < capacity
  tail_lt : tail rxRing cfg.shared.mem < capacity

/-- The condition on a step under which the input reaches its reader.  The head has not wrapped around ahead
of the tail when `serial_rx_available` reads it, and when `sys_read` takes a byte, the byte is not a zero as
the first one of the call, and its place in the buffer is mapped to a page other than the ring itself. -/
def Lossless (rxRing : UInt64) (capacity : Nat) :
    (i : Side) → (serialMachine rxRing capacity).Call i → MemOp → Line → Prop
  | .reader, .available, .load64 a, s =>
    a = rxRing + headOffset → tail rxRing s.mem ≤ head rxRing s.mem
  | .reader, .stdin tables userPml4 buf _, .store64 a _, s =>
    a = rxRing + tailOffset →
      (s.copied = [] → s.mem (dataSlot rxRing (tail rxRing s.mem)) ≠ 0) ∧
        let phys := translateUserAddr tables userPml4 (buf + UInt64.ofNat s.copied.length)
        phys ≠ 0 ∧ ¬ InBlock rxRing 4096 (physToVirt phys)
  | _, _, _, _ => True

section Decidable

variable (rxRing : UInt64) (capacity : Nat)

instance : ∀ i c o s, Decidable (Lossless rxRing capacity i c o s)
  | .irq, _, _, _ => isTrue trivial
  | .reader, .byte, _, _ => isTrue trivial
  | .reader, .available, .load64 a, s =>
    inferInstanceAs (Decidable (a = rxRing + headOffset → tail rxRing s.mem ≤ head rxRing s.mem))
  | .reader, .available, .load8 _, _ => isTrue trivial
  | .reader, .available, .store8 _ _, _ => isTrue trivial
  | .reader, .available, .store64 _ _, _ => isTrue trivial
  | .reader, .stdin tables userPml4 buf _, .store64 a _, s =>
    inferInstanceAs (Decidable (a = rxRing + tailOffset →
      (s.copied = [] → s.mem (dataSlot rxRing (tail rxRing s.mem)) ≠ 0) ∧
        let phys := translateUserAddr tables userPml4 (buf + UInt64.ofNat s.copied.length)
        phys ≠ 0 ∧ ¬ InBlock rxRing 4096 (physToVirt phys)))
  | .reader, .stdin .., .load8 _, _ => isTrue trivial
  | .reader, .stdin .., .load64 _, _ => isTrue trivial
  | .reader, .stdin .., .store8 _ _, _ => isTrue trivial

end Decidable

end Keuos.Serial
