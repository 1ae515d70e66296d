import Keuos.Lib.Memory
import Keuos.Lib.Run

/-!
# The ring-buffer ABI (`kernel/core/ring_abi.salt`)

A process that opts in shares two pages with the kernel: in the submission queue it produces entries,
which the kernel consumes, and in the completion queue the kernel produces entries for it.

The handlers of `kernel/core/ring_ops.salt` are a parameter of the drain: each returns a result and may
change the memory.  `drain_sq` is modelled with a record of the entries that it read and wrote.
-/

namespace Keuos.RingAbi

def ringCapacity : UInt64 := 32

def ringMask : UInt64 := 31

def headerSize : UInt64 := 64
def sqeSize : UInt64 := 64
def cqeSize : UInt64 := 32

def hdrHead : UInt64 := 0
def hdrTail : UInt64 := 8
def hdrCapacity : UInt64 := 16
def hdrMask : UInt64 := 24

def opNop : UInt64 := 0
def opWrite : UInt64 := 1
def opYield : UInt64 := 3
def opExit : UInt64 := 4
def opBrk : UInt64 := 5
def opMmap : UInt64 := 6
def opIpcSend : UInt64 := 7
def opShmGrant : UInt64 := 8
def opSpawn : UInt64 := 9

/-- The fields of a submission that the kernel reads. -/
structure Sqe where
  opCode : UInt64
  fd : UInt64
  bufferAddr : UInt64
  length : UInt64
  userData : UInt64
  deriving DecidableEq, Repr

structure Cqe where
  userData : UInt64
  result : UInt64
  flags : UInt64
  deriving DecidableEq, Repr

/-- `ProcessRing`, without the physical addresses, which only the cleanup uses. -/
structure ProcessRing where
  sqKern : UInt64
  cqKern : UInt64
  active : UInt64
  deriving DecidableEq, Repr

/-- The address of a submission. -/
def sqeAddr (sqKern tail : UInt64) : UInt64 :=
  sqKern + headerSize + (tail &&& ringMask) * sqeSize

/-- The address of a completion. -/
def cqeAddr (cqKern head : UInt64) : UInt64 :=
  cqKern + headerSize + (head &&& ringMask) * cqeSize

def readSqe (m : Mem) (entry : UInt64) : Sqe where
  opCode := m.read64 (entry + 0)
  fd := m.read64 (entry + 8)
  bufferAddr := m.read64 (entry + 16)
  length := m.read64 (entry + 24)
  userData := m.read64 (entry + 32)

def writeSqe (m : Mem) (entry : UInt64) (e : Sqe) : Mem :=
  ((((m.write64 (entry + 0) e.opCode).write64 (entry + 8) e.fd).write64 (entry + 16)
    e.bufferAddr).write64 (entry + 24) e.length).write64 (entry + 32) e.userData

def readCqe (m : Mem) (entry : UInt64) : Cqe where
  userData := m.read64 (entry + 0)
  result := m.read64 (entry + 8)
  flags := m.read64 (entry + 16)

def writeCqe (m : Mem) (entry : UInt64) (e : Cqe) : Mem :=
  ((m.write64 (entry + 0) e.userData).write64 (entry + 8) e.result).write64 (entry + 16) e.flags

def zeroPage (m : Mem) (kernVa : UInt64) : Mem :=
  m.fill 0 4096 kernVa

def initHeader (m : Mem) (kernVa : UInt64) : Mem :=
  (((m.write64 (kernVa + hdrHead) 0).write64 (kernVa + hdrTail) 0).write64 (kernVa + hdrCapacity)
    ringCapacity).write64 (kernVa + hdrMask) ringMask

/-- What `init_ring` does to the two pages. -/
def initPages (m : Mem) (sqKern cqKern : UInt64) : Mem :=
  initHeader (initHeader (zeroPage (zeroPage m sqKern) cqKern) sqKern) cqKern

/-- The handlers of `ring_ops.salt`, called for the process that owns the ring. -/
structure RingOps where
  ringWrite : (fd buf len : UInt64) → Mem → UInt64 × Mem
  ringBrk : (newBrk : UInt64) → Mem → UInt64 × Mem
  ringMmap : (length prot : UInt64) → Mem → UInt64 × Mem
  ringIpcSend : (targetPid msg0 msg1 : UInt64) → Mem → UInt64 × Mem
  ringShmGrant : (targetPid srcVaddr dstVaddr : UInt64) → Mem → UInt64 × Mem
  ringSpawn : (manifestVaddr : UInt64) → Mem → UInt64 × Mem

/-- The result that `dispatch_sqe` posts. -/
def RingOps.handle (ops : RingOps) (e : Sqe) (m : Mem) : UInt64 × Mem :=
  if e.opCode == opNop then (0, m)
  else if e.opCode == opWrite then ops.ringWrite e.fd e.bufferAddr e.length m
  else if e.opCode == opBrk then ops.ringBrk e.bufferAddr m
  else if e.opCode == opYield then (0, m)
  else if e.opCode == opExit then (0, m)
  else if e.opCode == opMmap then ops.ringMmap e.bufferAddr e.length m
  else if e.opCode == opIpcSend then ops.ringIpcSend e.fd e.bufferAddr e.length m
  else if e.opCode == opShmGrant then ops.ringShmGrant e.fd e.bufferAddr e.length m
  else if e.opCode == opSpawn then ops.ringSpawn e.bufferAddr m
  else (0 - 1, m)

/-- The test of `post_cqe` for a full queue. -/
def cqFull (m : Mem) (cqKern : UInt64) : Bool :=
  m.read64 (cqKern + hdrHead) - m.read64 (cqKern + hdrTail) ≥ ringCapacity

/-- `post_cqe`, for an active ring. -/
def postCqe (m : Mem) (cqKern : UInt64) (e : Cqe) : Mem :=
  let head := m.read64 (cqKern + hdrHead)
  if cqFull m cqKern then m
  else (writeCqe m (cqeAddr cqKern head) e).write64 (cqKern + hdrHead) (head + 1)

/-- The memory, with the addresses of the submissions that were read and of the completions that were
written, and the submissions themselves, each with whether its completion found room. -/
structure Drained where
  mem : Mem
  read : List UInt64
  posted : List UInt64
  sqes : List (Sqe × Bool)

/-- `dispatch_sqe` for the submission at `entry`. -/
def dispatchSqe (ops : RingOps) (cqKern entry : UInt64) (d : Drained) : Drained :=
  let e := readSqe d.mem entry
  let r := ops.handle e d.mem
  { mem := postCqe r.2 cqKern ⟨e.userData, r.1, 0⟩
    read := d.read ++ [entry]
    posted := d.posted ++
      if cqFull r.2 cqKern then [] else [cqeAddr cqKern (r.2.read64 (cqKern + hdrHead))]
    sqes := d.sqes ++ [(e, !cqFull r.2 cqKern)] }

/-- The loop of `drain_sq`, with fuel. -/
def drainLoop (ring : ProcessRing) (ops : RingOps) (head : UInt64) : Nat → UInt64 → Drained → Drained
  | 0, _, d => d
  | n + 1, tail, d =>
    if tail < head then
      let d₁ := dispatchSqe ops ring.cqKern (sqeAddr ring.sqKern tail) d
      drainLoop ring ops head n (tail + 1)
        { d₁ with mem := d₁.mem.write64 (ring.sqKern + hdrTail) (tail + 1) }
    else d

/-- `drain_sq`.  The loop counts `tail` up to `head`, so their difference is fuel enough. -/
def drainSq (ring : ProcessRing) (ops : RingOps) (m : Mem) : Drained :=
  if ring.active != 1 then ⟨m, [], [], []⟩
  else
    let tail := m.read64 (ring.sqKern + hdrTail)
    let head := m.read64 (ring.sqKern + hdrHead)
    drainLoop ring ops head (head.toNat - tail.toNat) tail ⟨m, [], [], []⟩

/-! ### A process and its rings -/

/-- The memory, the submissions that the process has appended and those that the kernel has consumed,
with whether their completions found room, and the completions that the process has read. -/
structure Session where
  mem : Mem
  submitted : List Sqe
  consumed : List (Sqe × Bool)
  received : List Cqe

/-- The process appends a submission, if the queue has room, or consumes a completion, if there is
one; or the kernel drains the submission queue.  A process does not run while its queue is drained. -/
inductive Event where
  | submit (e : Sqe)
  | consume
  | drain

def submit (ring : ProcessRing) (s : Session) (e : Sqe) : Session :=
  let head := s.mem.read64 (ring.sqKern + hdrHead)
  let tail := s.mem.read64 (ring.sqKern + hdrTail)
  if head - tail < ringCapacity then
    { s with
      mem := (writeSqe s.mem (sqeAddr ring.sqKern head) e).write64 (ring.sqKern + hdrHead) (head + 1)
      submitted := s.submitted ++ [e] }
  else s

def consume (ring : ProcessRing) (s : Session) : Session :=
  let head := s.mem.read64 (ring.cqKern + hdrHead)
  let tail := s.mem.read64 (ring.cqKern + hdrTail)
  if tail == head then s
  else
    { s with
      mem := s.mem.write64 (ring.cqKern + hdrTail) (tail + 1)
      received := s.received ++ [readCqe s.mem (cqeAddr ring.cqKern tail)] }

def exec (ring : ProcessRing) (ops : RingOps) (s : Session) : Event → Session
  | .submit e => submit ring s e
  | .consume => consume ring s
  | .drain =>
    let d := drainSq ring ops s.mem
    { s with mem := d.mem, consumed := s.consumed ++ d.sqes }

/-- The session after `init_ring`. -/
def Session.init (ring : ProcessRing) (m : Mem) : Session where
  mem := initPages m ring.sqKern ring.cqKern
  submitted := []
  consumed := []
  received := []

/-- The completions between the tail and the head of the completion queue. -/
def cqContents (ring : ProcessRing) (m : Mem) : List Cqe :=
  let head := m.read64 (ring.cqKern + hdrHead)
  let tail := m.read64 (ring.cqKern + hdrTail)
  (List.range (head - tail).toNat).map fun i =>
    readCqe m (cqeAddr ring.cqKern (tail + UInt64.ofNat i))

end Keuos.RingAbi
