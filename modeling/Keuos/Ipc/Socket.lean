import Keuos.Ipc.Shm
import Keuos.Lib.Run

/-!
# The data plane of a socket (`user/lib/socket.salt`)

`read` and `write` of a connected socket work on the pages of its rings.  The library has a copy of the ring
algorithm of its own, and offsets of the header of its own, which differ from those of the kernel.

The other side of each ring is the kernel: it takes what `write` stores with `spsc_pop_bulk`, and stores with
`spsc_push_bulk` what `read` takes.  A call that divides by zero returns nothing.
-/

namespace Keuos.Ipc.Socket

/-! ### The layout of the page -/

def ringHeadOff : UInt64 := 0

def ringTailOff : UInt64 := 8

def ringCapacityOff : UInt64 := 16

def ringDataOff : UInt64 := 128

/-! ### The functions -/

def volRead64 (addr : UInt64) : MemProg UInt64 :=
  .op (.load64 addr) .ret

def volWrite64 (addr val : UInt64) : MemProg Unit :=
  .op (.store64 addr val) fun _ => .ret ()

def spscAvailable (base : UInt64) : MemProg UInt64 := do
  let head ← volRead64 (base + ringHeadOff)
  let tail ← volRead64 (base + ringTailOff)
  pure (head - tail)

def spscFreeSpace (base : UInt64) : MemProg UInt64 := do
  let cap ← volRead64 (base + ringCapacityOff)
  let avail ← spscAvailable base
  pure (cap - avail)

/-- `spsc_pop`: the count and the bytes copied to the destination.  The loops copy one byte after the
other. -/
def spscPop (base count : UInt64) : MemProg (Option (UInt64 × List UInt8)) := do
  let avail ← spscAvailable base
  if avail == 0 then pure (some (0, []))
  else
    let toPop := if avail < count then avail else count
    do
      let cap ← volRead64 (base + ringCapacityOff)
      let tail ← volRead64 (base + ringTailOff)
      let data := base + ringDataOff
      if cap == 0 then pure none
      else
        let startIdx := tail % cap
        let seg1Len := cap - startIdx
        let first := if toPop < seg1Len then toPop else seg1Len
        do
          let xs ← fastMemcpyOut (data + startIdx) first.toNat
          let ys ← if toPop > first then fastMemcpyOut data (toPop - first).toNat else pure []
          volWrite64 (base + ringTailOff) (tail + toPop)
          pure (some (toPop, xs ++ ys))

def spscPush (base : UInt64) (src : Nat → UInt8) (count : UInt64) : MemProg (Option UInt64) := do
  let free ← spscFreeSpace base
  if free == 0 then pure (some 0)
  else
    let toPush := if count < free then count else free
    do
      let cap ← volRead64 (base + ringCapacityOff)
      let head ← volRead64 (base + ringHeadOff)
      let data := base + ringDataOff
      if cap == 0 then pure none
      else
        let startIdx := head % cap
        let seg1Len := cap - startIdx
        let first := if toPush < seg1Len then toPush else seg1Len
        do
          fastMemcpyIn (data + startIdx) src first.toNat
          if toPush > first then
            fastMemcpyIn data (fun i => src (first.toNat + i)) (toPush - first).toNat
          volWrite64 (base + ringHeadOff) (head + toPush)
          pure (some toPush)

/-- The fields of a socket that `read` and `write` use. -/
structure Sock where
  rxRing : UInt64
  txRing : UInt64
  state : UInt64
  deriving DecidableEq, Repr

def stateConnected : UInt64 := 2

def read (sock : Sock) (maxLen : UInt64) : MemProg (Option (UInt64 × List UInt8)) :=
  if sock.state ≠ stateConnected then pure (some (0, [])) else spscPop sock.rxRing maxLen

def write (sock : Sock) (buffer : Nat → UInt8) (len : UInt64) : MemProg (Option UInt64) :=
  if sock.state ≠ stateConnected then pure (some 0) else spscPush sock.txRing buffer len

/-! ### The two directions -/

/-- A call at the page when it is the TX ring of the socket. -/
inductive TxCall where
  | write (sock : Sock) (buffer : Nat → UInt8) (len : UInt64)
  | popBulk (len : UInt64)

/-- A call at the page when it is the RX ring of the socket. -/
inductive RxCall where
  | pushBulk (src : Nat → UInt8) (len : UInt64)
  | read (sock : Sock) (maxLen : UInt64)

/-- The bytes that a call put into the ring and those that it took from it. -/
structure Transfer where
  put : List UInt8
  taken : List UInt8

def TxCall.program (base : UInt64) : TxCall → MemProg (Option Transfer)
  | .write sock buffer len => do
    let r ← Socket.write { sock with txRing := base } buffer len
    pure (r.map fun n => ⟨(List.range n.toNat).map buffer, []⟩)
  | .popBulk len => do
    let r ← spscPopBulk base len
    pure (some ⟨[], r.2⟩)

def RxCall.program (base : UInt64) : RxCall → MemProg (Option Transfer)
  | .pushBulk src len => do
    let n ← spscPushBulk base src len
    pure (some ⟨(List.range n.toNat).map src, []⟩)
  | .read sock maxLen => do
    let r ← Socket.read { sock with rxRing := base } maxLen
    pure (r.map fun r => ⟨[], r.2⟩)

/-- The memory, the bytes that were put into the ring and those that were taken from it, whether a call has
divided by zero, and the accesses of all calls. -/
structure Duct where
  mem : Mem
  written : List UInt8
  received : List UInt8
  divided : Bool
  touched : List MemOp

/-- A call. -/
def exec {C : Type} (program : C → MemProg (Option Transfer)) (s : Duct) (c : C) : Duct :=
  let r := (program c).runAlone MemOp.sem s.mem
  { mem := r.2
    written := s.written ++ (r.1.map Transfer.put).getD []
    received := s.received ++ (r.1.map Transfer.taken).getD []
    divided := s.divided || r.1.isNone
    touched := s.touched ++ (program c).trace MemOp.sem s.mem }

/-- The page after `spsc_init`. -/
def Duct.init (base : UInt64) (m : Mem) : Duct :=
  ⟨(initRing base m).mem, [], [], false, []⟩

/-- The access stays inside the page. -/
def Inside (base : UInt64) : MemOp → Prop
  | .load8 a | .store8 a _ => InBlock base 4096 a
  | .load64 a | .store64 a _ => ∀ i < 8, InBlock base 4096 (a + UInt64.ofNat i)

/-- **The ring delivers what is written**: the bytes that were taken followed by those that the kernel's
indices say are in the ring are the bytes that were put into it; no call divides by zero or leaves the
page. -/
structure DuctLaw (base : UInt64) (s : Duct) : Prop where
  delivered : s.received ++ ringBytes base s.mem = s.written
  divided : s.divided = false
  inside : ∀ o ∈ s.touched, Inside base o

/-- The free space by the library's offsets. -/
def freeSpace (base : UInt64) (m : Mem) : UInt64 :=
  m.read64 (base + ringCapacityOff) - (m.read64 (base + ringHeadOff) - m.read64 (base + ringTailOff))

/-- The available bytes by the library's offsets. -/
def available (base : UInt64) (m : Mem) : UInt64 :=
  m.read64 (base + ringHeadOff) - m.read64 (base + ringTailOff)

/-- The call does not come to copy a byte: the socket is not connected, or the ring looks full, or nothing is
written and the capacity is not 0. -/
def TxCall.Harmless (base : UInt64) (s : Duct) : TxCall → Prop
  | .write sock _ len => sock.state ≠ stateConnected ∨ freeSpace base s.mem = 0 ∨
      len = 0 ∧ s.mem.read64 (base + ringCapacityOff) ≠ 0
  | .popBulk _ => True

/-- The call does not come to copy a byte: the socket is not connected, or the ring looks empty, or nothing is
asked for and the capacity is not 0. -/
def RxCall.Harmless (base : UInt64) (s : Duct) : RxCall → Prop
  | .pushBulk _ _ => True
  | .read sock maxLen => sock.state ≠ stateConnected ∨ available base s.mem = 0 ∨
      maxLen = 0 ∧ s.mem.read64 (base + ringCapacityOff) ≠ 0

end Keuos.Ipc.Socket
