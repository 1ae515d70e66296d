import Keuos.Lib.Run
import Mathlib.Data.UInt
import Mathlib.Logic.Function.Basic

/-!
# The notification ring (`ring_push_u64`, `ring_push_u32` of `kernel/net/netcore.salt`)

The kernel tells Ring 3 of a packet with a record of 12 bytes, the address of the buffer and a length, in a
ring that both have mapped.  The header of the ring (`head`, `capacity`, `tail`) and the bytes behind it are
separate fields here; byte `i` of the data is at `ptr + 192 + i`.
-/

namespace Keuos.Net

structure NotifyRing where
  head : UInt64
  tail : UInt64
  capacity : UInt64
  data : UInt64 → UInt8

/-- The loops of the two pushes, with `n` bytes left to write. -/
def putBytes (head capacity val : UInt64) : Nat → UInt64 → (UInt64 → UInt8) → UInt64 → UInt8
  | 0, _, data => data
  | n + 1, i, data =>
    let b := ((val >>> (i * 8)) &&& 0xFF).toUInt8
    let idx := (head + i) % capacity
    putBytes head capacity val n (i + 1) (Function.update data idx b)

def ringPushU64 (r : NotifyRing) (val : UInt64) : Bool × NotifyRing :=
  if r.head + 8 - r.tail > r.capacity then (false, r)
  else
    (true, { r with data := putBytes r.head r.capacity val 8 0 r.data, head := r.head + 8 })

def ringPushU32 (r : NotifyRing) (val : UInt32) : Bool × NotifyRing :=
  if r.head + 4 - r.tail > r.capacity then (false, r)
  else
    (true, { r with data := putBytes r.head r.capacity val.toUInt64 4 0 r.data, head := r.head + 4 })

/-- A notification, as `process_one` and `handle_tcp_notify` make it: the second push is made if the first
one succeeds, and its answer is ignored.  The two answers, and the ring. -/
def notify (r : NotifyRing) (buf : UInt64) (len : UInt32) : (Bool × Bool) × NotifyRing :=
  let first := ringPushU64 r buf
  if first.1 then
    let second := ringPushU32 first.2 len
    ((true, second.1), second.2)
  else ((false, false), r)

/-! ### The kernel and Ring 3 -/

/-- The ring, the notifications that it has accepted, and how many of them Ring 3 has removed. -/
structure Notified where
  ring : NotifyRing
  accepted : List (UInt64 × UInt32)
  consumed : Nat

/-- The ring as the boot code initialises it. -/
def Notified.start (data : UInt64 → UInt8) : Notified :=
  ⟨{ head := 0, tail := 0, capacity := 3904, data }, [], 0⟩

inductive RingOp where
  | notify (buf : UInt64) (len : UInt32)
  | consume (n : Nat)
  deriving DecidableEq, Repr

/-- A notification, or Ring 3 removes `n` records. -/
def Notified.exec (s : Notified) : RingOp → Notified
  | .notify buf len =>
    let r := Net.notify s.ring buf len
    { s with ring := r.2, accepted := if r.1.1 then s.accepted ++ [(buf, len)] else s.accepted }
  | .consume n =>
    { s with
      ring := { s.ring with tail := s.ring.tail + UInt64.ofNat (12 * n) }
      consumed := s.consumed + n }

end Keuos.Net
