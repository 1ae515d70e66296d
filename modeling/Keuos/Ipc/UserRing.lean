import Keuos.Ipc.Shm

/-!
# The ring library of the applications (`user/lib/ring.salt`)

Once a ring is mapped, an application pushes and pops whole blocks of bytes by itself, with offsets of the
header and a copy of the ring algorithm of its own.

The two sides of one ring may each use this library or the kernel's functions, at every call anew
(`mixedMachine`).  `memcpy` copies one byte after the other, as `fast_memcpy` does.  Beside the ring there is
a record of the pushes through the library: the bytes that were free when it read the tail, the bytes that it
transferred, and its result.
-/

namespace Keuos.Ipc.UserRing

/-! ### The layout of the page -/

def headOffset : UInt64 := 0
def capacityOffset : UInt64 := 8
def tailOffset : UInt64 := 64
def dataOffset : UInt64 := 192

/-! ### The functions -/

def readU64 (base offset : UInt64) : MemProg UInt64 :=
  .op (.load64 (base + offset)) .ret

def writeU64 (base offset val : UInt64) : MemProg Unit :=
  .op (.store64 (base + offset) val) fun _ => .ret ()

/-- The copy of `len` bytes of the payload into the ring. -/
def copyPayload (ringBase startIdx seg1Len : UInt64) (payload : Nat → UInt8) (len : UInt64) : MemProg Unit :=
  if len ≤ seg1Len then fastMemcpyIn (ringBase + dataOffset + startIdx) payload len.toNat
  else do
    fastMemcpyIn (ringBase + dataOffset + startIdx) payload seg1Len.toNat
    fastMemcpyIn (ringBase + dataOffset) (fun i => payload (seg1Len.toNat + i)) (len - seg1Len).toNat

/-- The copy of `readLen` bytes of the ring into the buffer. -/
def copyBuf (ringBase startIdx seg1Len readLen : UInt64) : MemProg (List UInt8) :=
  if readLen ≤ seg1Len then fastMemcpyOut (ringBase + dataOffset + startIdx) readLen.toNat
  else do
    let xs ← fastMemcpyOut (ringBase + dataOffset + startIdx) seg1Len.toNat
    let ys ← fastMemcpyOut (ringBase + dataOffset) (readLen - seg1Len).toNat
    pure (xs ++ ys)

def push (ringBase : UInt64) (payload : Nat → UInt8) (len : UInt64) : MemProg UInt64 := do
  let head ← readU64 ringBase headOffset
  let tail ← readU64 ringBase tailOffset
  let capacity ← readU64 ringBase capacityOffset
  if capacity == 0 then pure 0
  else if len > capacity then pure 0
  else
    let availableSpace := capacity - (head - tail)
    if len > availableSpace then pure 0
    else
      let startIdx := head % capacity
      let seg1Len := capacity - startIdx
      do
        copyPayload ringBase startIdx seg1Len payload len
        writeU64 ringBase headOffset (head + len)
        pure 1

/-- `pop`: the count and the bytes copied to the buffer. -/
def pop (ringBase maxLen : UInt64) : MemProg (UInt64 × List UInt8) := do
  let head ← readU64 ringBase headOffset
  let tail ← readU64 ringBase tailOffset
  let capacity ← readU64 ringBase capacityOffset
  if capacity == 0 then pure (0, [])
  else
    let available := head - tail
    if available == 0 then pure (0, [])
    else
      let readLen := if available > maxLen then maxLen else available
      let startIdx := tail % capacity
      let seg1Len := capacity - startIdx
      do
        let bytes ← copyBuf ringBase startIdx seg1Len readLen
        writeU64 ringBase tailOffset (tail + readLen)
        pure (readLen, bytes)

/-! ### The two sides -/

/-- A push by the kernel or by the library. -/
inductive PushCall where
  | kernel (c : Push)
  | user (payload : Nat → UInt8) (len : UInt64)

/-- A pop by the kernel or by the library. -/
inductive PopCall where
  | kernel (c : Pop)
  | user (maxLen : UInt64)

/-- The call of the kernel that offers the same bytes. -/
def PushCall.toPush : PushCall → Push
  | .kernel c => c
  | .user payload len => .bulk payload len

/-- The call of the kernel that asks for as many bytes. -/
def PopCall.toPop : PopCall → Pop
  | .kernel c => c
  | .user maxLen => .bulk maxLen

def PushCall.body (base : UInt64) : PushCall → MemProg PushResult
  | .kernel c => c.body base
  | .user payload len => do
    let n ← push base payload len
    pure (.code n)

def PopCall.body (base : UInt64) : PopCall → MemProg PopResult
  | .kernel c => c.body base
  | .user maxLen => do
    let r ← pop base maxLen
    pure (.block r.1 r.2)

/-- A push through the library: its length, the bytes that were free when it read the tail, the bytes that it
transferred, and its result. -/
structure Verdict where
  len : UInt64
  free : Nat
  transferred : Nat
  result : PushResult

/-- **All or nothing**: the push is refused exactly when its bytes do not fit, and then it transfers none of
them, and otherwise all. -/
structure Verdict.Right (v : Verdict) : Prop where
  result : v.result = .code 0 ∨ v.result = .code 1
  refused : v.result = .code 0 ↔ v.free < v.len.toNat
  transferred : v.transferred = if v.result = .code 0 then 0 else v.len.toNat

/-- The ring, and the bytes that were free and the bytes that had been sent when the producer last read the
tail. -/
structure Line where
  ring : Ring
  free : Nat
  before : Nat
  verdicts : List Verdict

/-- The bytes that are free in the ring. -/
def freeBytes (base : UInt64) (m : Mem) : Nat :=
  dataCapacity.toNat - (ringBytes base m).length

/-- The producer looks at the tail. -/
def Line.look (base : UInt64) (s : Line) : Line :=
  { s with free := freeBytes base s.ring.mem, before := s.ring.sent.length }

/-- What an operation of the producer does to the records. -/
def afterPush (base : UInt64) (s : Line) (o : MemOp) : Line :=
  if o = .load64 (base + Ipc.tailOffset) then s.look base else s

/-- The record of a push. -/
def PushCall.verdict (s : Line) (after : Ring) (a : PushResult) : PushCall → List Verdict
  | .kernel _ => []
  | .user _ len => [⟨len, s.free, after.sent.length - s.before, a⟩]

/-- The producer and the consumer of the ring at `base`, where each call is one of the kernel or one of the
library. -/
def mixedMachine (base : UInt64) : Machine Side MemOp UInt64 Line where
  Call
    | .producer => PushCall
    | .consumer => PopCall
  Res
    | .producer => PushResult
    | .consumer => PopResult
  body
    | .producer => PushCall.body base
    | .consumer => PopCall.body base
  step
    | .producer, (c : PushCall), o, s =>
      let r := (spscMachine base).step .producer c.toPush o s.ring
      (r.1, { afterPush base s o with ring := r.2 })
    | .consumer, (c : PopCall), o, s =>
      let r := (spscMachine base).step .consumer c.toPop o s.ring
      (r.1, { s with ring := r.2 })
  finish
    | .producer, (c : PushCall), (a : PushResult), before, s =>
      { s with
        ring := (spscMachine base).finish .producer c.toPush a before.ring s.ring
        verdicts := s.verdicts ++ c.verdict s s.ring a }
    | .consumer, (c : PopCall), (a : PopResult), before, s =>
      { s with ring := (spscMachine base).finish .consumer c.toPop a before.ring s.ring }

/-- The ring after `spsc_init`. -/
def Line.init (base : UInt64) (m : Mem) : Line :=
  ⟨initRing base m, 0, 0, []⟩

end Keuos.Ipc.UserRing
