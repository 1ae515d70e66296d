import Keuos.Lib.Memory
import Keuos.Lib.Prog

/-!
# The shared-memory ring

`kernel/lib/ipc_shm.salt`: a single-producer single-consumer byte ring in one shared page.  Every
function is a program over the page: each volatile access of an index and each access of a data byte
is one atomic operation, `fast_memcpy` copies one byte after the other, and between any two of them
the other side may act.

The buffers of the callers are private to them, so the model gives a bulk push its source as a
function from offsets to bytes, and lets a bulk pop return the bytes that it copied out.
-/

namespace Keuos.Ipc

/-! ### Accesses -/

/-- An access of the shared page. -/
inductive MemOp where
  | load8 (a : UInt64)
  | store8 (a : UInt64) (v : UInt8)
  | load64 (a : UInt64)
  | store64 (a v : UInt64)
  deriving DecidableEq, Repr

/-- The response to an access and the memory after it. -/
def MemOp.sem : MemOp → Mem → UInt64 × Mem
  | .load8 a, m => ((m a).toUInt64, m)
  | .store8 a v, m => (0, m.write8 a v)
  | .load64 a, m => (m.read64 a, m)
  | .store64 a v, m => (0, m.write64 a v)

/-- A program over the shared page. -/
abbrev MemProg := Prog MemOp UInt64

def load8 (a : UInt64) : MemProg UInt8 :=
  .op (.load8 a) fun r => .ret r.toUInt8

def store8 (a : UInt64) (v : UInt8) : MemProg Unit :=
  .op (.store8 a v) fun _ => .ret ()

/-- `volatile_read_i64`. -/
def volatileRead (a : UInt64) : MemProg UInt64 :=
  .op (.load64 a) .ret

/-- `volatile_write_i64`. -/
def volatileWrite (a v : UInt64) : MemProg Unit :=
  .op (.store64 a v) fun _ => .ret ()

/-! ### The layout of the page -/

def headOffset : UInt64 := 0
def capacityOffset : UInt64 := 8
def tailOffset : UInt64 := 64
def consumerWaitingOffset : UInt64 := 128
def dataOffset : UInt64 := 192

def dataCapacity : UInt64 := 3904

/-! ### The functions -/

/-- The loop of `spsc_init` over the data region. -/
def zeroData (base : UInt64) : Nat → UInt64 → MemProg Unit
  | 0, _ => pure ()
  | n + 1, i => do
    store8 (base + dataOffset + i) 0
    zeroData base n (i + 1)

def spscInit (base : UInt64) : MemProg Unit := do
  volatileWrite (base + headOffset) 0
  volatileWrite (base + capacityOffset) dataCapacity
  volatileWrite (base + tailOffset) 0
  volatileWrite (base + consumerWaitingOffset) 0
  zeroData base dataCapacity.toNat 0

def spscPush (base : UInt64) (byte : UInt8) : MemProg Bool := do
  let head ← volatileRead (base + headOffset)
  let tail ← volatileRead (base + tailOffset)
  let cap ← volatileRead (base + capacityOffset)
  if cap == 0 then pure false
  else if head - tail ≥ cap then pure false
  else
    let idx := head % cap
    if idx ≥ dataCapacity then pure false
    else do
      store8 (base + dataOffset + idx) byte
      volatileWrite (base + headOffset) (head + 1)
      pure true

/-- `spsc_pop`: the byte, or `-1`. -/
def spscPop (base : UInt64) : MemProg Int := do
  let head ← volatileRead (base + headOffset)
  let tail ← volatileRead (base + tailOffset)
  if head == tail then pure (-1)
  else do
    let cap ← volatileRead (base + capacityOffset)
    if cap == 0 then pure (-1)
    else
      let idx := tail % cap
      if idx ≥ dataCapacity then pure (-1)
      else do
        let byte ← load8 (base + dataOffset + idx)
        volatileWrite (base + tailOffset) (tail + 1)
        pure byte.toNat

/-- `fast_memcpy` from a private buffer into the page. -/
def fastMemcpyIn : UInt64 → (Nat → UInt8) → Nat → MemProg Unit
  | _, _, 0 => pure ()
  | dst, src, n + 1 => do
    store8 dst (src 0)
    fastMemcpyIn (dst + 1) (fun i => src (i + 1)) n

/-- `fast_memcpy` out of the page: the bytes for the private buffer. -/
def fastMemcpyOut : UInt64 → Nat → MemProg (List UInt8)
  | _, 0 => pure []
  | src, n + 1 => do
    let b ← load8 src
    let rest ← fastMemcpyOut (src + 1) n
    pure (b :: rest)

/-- The copy of `count` bytes into the ring from index `startIdx` on, in at most two segments: up to
the end of the data, and then from its beginning. -/
@[irreducible] def copyIn (base cap startIdx : UInt64) (src : Nat → UInt8) (count : UInt64) : MemProg Unit :=
  let seg1Len := cap - startIdx
  let first := if count < seg1Len then count else seg1Len
  let second := count - first
  do
    fastMemcpyIn (base + dataOffset + startIdx) src first.toNat
    if second > 0 then
      fastMemcpyIn (base + dataOffset) (fun i => src (first.toNat + i)) second.toNat

/-- The same for the copy out of the ring. -/
@[irreducible] def copyOut (base cap startIdx count : UInt64) : MemProg (List UInt8) :=
  let seg1Len := cap - startIdx
  let first := if count < seg1Len then count else seg1Len
  let second := count - first
  do
    let xs ← fastMemcpyOut (base + dataOffset + startIdx) first.toNat
    if second > 0 then do
      let ys ← fastMemcpyOut (base + dataOffset) second.toNat
      pure (xs ++ ys)
    else pure xs

def spscPushBulk (base : UInt64) (src : Nat → UInt8) (len : UInt64) : MemProg UInt64 := do
  let head ← volatileRead (base + headOffset)
  let tail ← volatileRead (base + tailOffset)
  let cap ← volatileRead (base + capacityOffset)
  if cap == 0 then pure 0
  else
    let cap := if cap > dataCapacity then dataCapacity else cap
    if tail > head || head - tail > cap then pure 0
    else
      let avail := cap - (head - tail)
      let count := if len < avail then len else avail
      if count == 0 then pure 0
      else
        let count := if count > cap then cap else count
        do
          copyIn base cap (head % cap) src count
          volatileWrite (base + headOffset) (head + count)
          pure count

/-- `spsc_pop_bulk`: the count and the bytes copied to the destination. -/
def spscPopBulk (base : UInt64) (len : UInt64) : MemProg (UInt64 × List UInt8) := do
  let head ← volatileRead (base + headOffset)
  let tail ← volatileRead (base + tailOffset)
  let cap ← volatileRead (base + capacityOffset)
  if cap == 0 then pure (0, [])
  else
    let cap := if cap > dataCapacity then dataCapacity else cap
    if tail > head || head - tail > cap then pure (0, [])
    else
      let avail := head - tail
      let count := if len < avail then len else avail
      if count == 0 then pure (0, [])
      else
        let count := if count > cap then cap else count
        do
          let bytes ← copyOut base cap (tail % cap) count
          volatileWrite (base + tailOffset) (tail + count)
          pure (count, bytes)

def spscPushWake (base : UInt64) (byte : UInt8) : MemProg UInt64 := do
  let head ← volatileRead (base + headOffset)
  let tail ← volatileRead (base + tailOffset)
  let cap ← volatileRead (base + capacityOffset)
  if cap == 0 then pure 0
  else if head - tail ≥ cap then pure 0
  else
    let idx := head % cap
    if idx ≥ dataCapacity then pure 0
    else do
      store8 (base + dataOffset + idx) byte
      volatileWrite (base + headOffset) (head + 1)
      let waiting ← volatileRead (base + consumerWaitingOffset)
      pure (if waiting != 0 then 2 else 1)

def spscPushFrame (base : UInt64) (src : Nat → UInt8) (len : UInt64) : MemProg Bool := do
  let head ← volatileRead (base + headOffset)
  let tail ← volatileRead (base + tailOffset)
  let cap ← volatileRead (base + capacityOffset)
  if cap == 0 then pure false
  else
    let cap := if cap > dataCapacity then dataCapacity else cap
    if tail > head || head - tail ≥ cap then pure false
    else
      let totalLen := len + 2
      let avail := cap - (head - tail)
      if avail < totalLen then pure false
      else
        let startIdx := head % cap
        let nextIdx := if startIdx + 1 ≥ cap then 0 else startIdx + 1
        let dataStart := if nextIdx + 1 ≥ cap then 0 else nextIdx + 1
        do
          store8 (base + dataOffset + startIdx) (len &&& 0xFF).toUInt8
          store8 (base + dataOffset + nextIdx) ((len >>> 8) &&& 0xFF).toUInt8
          copyIn base cap dataStart src len
          volatileWrite (base + headOffset) (head + totalLen)
          pure true

def spscPopFrameLen (base : UInt64) : MemProg UInt64 := do
  let head ← volatileRead (base + headOffset)
  let tail ← volatileRead (base + tailOffset)
  let cap ← volatileRead (base + capacityOffset)
  if cap == 0 then pure 0
  else
    let cap := if cap > dataCapacity then dataCapacity else cap
    if tail > head || head - tail > cap then pure 0
    else
      let avail := head - tail
      if avail < 2 then pure 0
      else
        let startIdx := tail % cap
        let nextIdx := if startIdx + 1 ≥ cap then 0 else startIdx + 1
        do
          let lo ← load8 (base + dataOffset + startIdx)
          let hi ← load8 (base + dataOffset + nextIdx)
          volatileWrite (base + tailOffset) (tail + 2)
          pure (lo.toUInt64 ||| (hi.toUInt64 <<< 8))

/-! ### The two sides -/

/-- A call of the producer.  The length of a frame is at most 65535. -/
inductive Push where
  | push (byte : UInt8)
  | bulk (src : Nat → UInt8) (len : UInt64)
  | frame (src : Nat → UInt8) (len : UInt16)
  | wake (byte : UInt8)

inductive PushResult where
  | flag (b : Bool)
  | count (n : UInt64)
  | code (n : UInt64)
  deriving DecidableEq, Repr

/-- A call of the consumer. -/
inductive Pop where
  | pop
  | bulk (len : UInt64)
  | frameLen

inductive PopResult where
  | byte (r : Int)
  | block (count : UInt64) (bytes : List UInt8)
  | len (n : UInt64)
  deriving DecidableEq, Repr

/-- The number of bytes that a call offers. -/
def Push.size : Push → Nat
  | .push _ => 1
  | .bulk _ len => len.toNat
  | .frame _ len => len.toNat + 2
  | .wake _ => 1

/-- The bytes that a call offers: a frame is its length, low byte first, and its payload. -/
def Push.byteAt : Push → Nat → UInt8
  | .push byte, _ => byte
  | .bulk src _, i => src i
  | .frame _ len, 0 => len.toUInt8
  | .frame _ len, 1 => (len >>> 8).toUInt8
  | .frame src _, i + 2 => src i
  | .wake byte, _ => byte

/-- The first `n` bytes that a call offers. -/
def Push.supply (c : Push) (n : Nat) : List UInt8 :=
  (List.range (min n c.size)).map c.byteAt

/-- The number of bytes that a result says were accepted. -/
def Push.accepted (c : Push) : PushResult → Nat
  | .flag b => if b then c.size else 0
  | .count n => n.toNat
  | .code n => if n == 0 then 0 else c.size

/-- The bytes that a result hands to the caller. -/
def PopResult.bytes : PopResult → List UInt8
  | .byte r => [UInt8.ofNat r.toNat]
  | .block _ bytes => bytes
  | .len n => [n.toUInt8, (n >>> 8).toUInt8]

/-- The program of a call. -/
def Push.body (base : UInt64) : Push → MemProg PushResult
  | .push byte => do
    let b ← spscPush base byte
    pure (.flag b)
  | .bulk src len => do
    let n ← spscPushBulk base src len
    pure (.count n)
  | .frame src len => do
    let b ← spscPushFrame base src len.toUInt64
    pure (.flag b)
  | .wake byte => do
    let n ← spscPushWake base byte
    pure (.code n)

def Pop.body (base : UInt64) : Pop → MemProg PopResult
  | .pop => do
    let r ← spscPop base
    pure (.byte r)
  | .bulk len => do
    let r ← spscPopBulk base len
    pure (.block r.1 r.2)
  | .frameLen => do
    let n ← spscPopFrameLen base
    pure (.len n)

inductive Side where
  | producer | consumer
  deriving DecidableEq, Repr

/-- The memory, with the bytes that were published and received so far, and those that the results
of the producer's calls say were accepted. -/
structure Ring where
  mem : Mem
  sent : List UInt8
  received : List UInt8
  accepted : List UInt8

/-- How far an index moved between two memories. -/
def moved (a : UInt64) (before after : Mem) : Nat :=
  (after.read64 a - before.read64 a).toNat

/-- The producer and the consumer of the ring at `base`.  Bytes are published when the producer
moves the head, and received when a call that moved the tail returns. -/
def spscMachine (base : UInt64) : Machine Side MemOp UInt64 Ring where
  Call
    | .producer => Push
    | .consumer => Pop
  Res
    | .producer => PushResult
    | .consumer => PopResult
  body
    | .producer => Push.body base
    | .consumer => Pop.body base
  step
    | .producer, (c : Push), o, s =>
      let r := o.sem s.mem
      (r.1, { s with
        mem := r.2
        sent := s.sent ++ c.supply (moved (base + headOffset) s.mem r.2) })
    | .consumer, _, o, s =>
      let r := o.sem s.mem
      (r.1, { s with mem := r.2 })
  finish
    | .producer, (c : Push), (a : PushResult), _, s =>
      { s with accepted := s.accepted ++ c.supply (c.accepted a) }
    | .consumer, _, (a : PopResult), before, s =>
      { s with received := s.received ++ a.bytes.take (moved (base + tailOffset) before.mem s.mem) }

/-- The ring after `spsc_init`. -/
def initRing (base : UInt64) (m : Mem) : Ring where
  mem := ((spscInit base).runAlone MemOp.sem m).2
  sent := []
  received := []
  accepted := []

/-- The bytes in the ring, from the tail to the head. -/
def ringBytes (base : UInt64) (m : Mem) : List UInt8 :=
  let head := m.read64 (base + headOffset)
  let tail := m.read64 (base + tailOffset)
  (List.range (head - tail).toNat).map fun i =>
    m (base + dataOffset + UInt64.ofNat ((tail.toNat + i) % dataCapacity.toNat))

end Keuos.Ipc
