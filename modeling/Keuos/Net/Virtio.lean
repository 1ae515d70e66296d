import Keuos.Lib.Memory
import Keuos.Lib.Run
import Keuos.Lib.Window

/-!
# The receive queue of the network card (`kernel/drivers/virtio.salt`, `virtio_net.salt`)

The memory of a virtqueue is modelled by its three parts (the descriptors, the available ring and the used
ring), which `virtq_init` lays out one after another from `VQ_RX_PHYS` on.  They are apart from each other
and from everything else in the model, as they are in the code up to 2048 descriptors; from 4096 on, the real
queue does not fit before `VQ_TX_PHYS`.  The doorbell writes of `virtio_notify_queue` change nothing of the
state.

Beside the driver there is the device: it takes the descriptors that are available, in order, fills the
buffers of those that it has taken in any order, and reports each in the used ring.  Two fields of the state
are read by no function of the driver: `filled` records the addresses of the buffers that the device has
filled and reported, until they are polled, and `held` the buffers that the poll has returned and that have
not been reposted.
-/

namespace Keuos.Virtio

def kernelBase : UInt64 := 0xFFFFFFFF80000000

def virtqDescFWrite : UInt16 := 2

def maxBufs : Nat := 64

def bufSize : UInt32 := 1524

/-- `RX_POOL_PHYS`, the value of `RX_BUF_PHYS`. -/
def rxBufPhys : UInt64 := 0x420000

def rxBufVirt : UInt64 := rxBufPhys + kernelBase

structure VirtqDesc where
  addr : UInt64
  len : UInt32
  flags : UInt16
  next : UInt16
  deriving DecidableEq, Repr

structure VirtqUsedElem where
  id : UInt32
  len : UInt32
  deriving DecidableEq, Repr

/-- The memory of a virtqueue. -/
structure VirtqMem where
  desc : UInt32 → VirtqDesc
  availFlags : UInt16
  availIdx : UInt16
  availRing : UInt16 → UInt16
  usedIdx : UInt16
  usedRing : UInt16 → VirtqUsedElem

/-- The memory, cleared. -/
def VirtqMem.zero : VirtqMem :=
  ⟨fun _ => ⟨0, 0, 0, 0⟩, 0, 0, fun _ => 0, 0, fun _ => ⟨0, 0⟩⟩

structure VirtqState where
  size : UInt16
  freeHead : UInt16
  numFree : UInt16
  lastUsedIdx : UInt16
  availIdx : UInt16
  deriving DecidableEq, Repr

/-- The driver's `VirtqState` and the memory of the queue. -/
structure Virtq where
  vq : VirtqState
  mem : VirtqMem

def VirtqMem.setNext (m : VirtqMem) (d : UInt32) (next : UInt16) : VirtqMem :=
  { m with desc := Function.update m.desc d { m.desc d with next } }

/-- The loop of `virtq_init` that chains the descriptors, with `n` of them left. -/
def chainFrom : Nat → UInt16 → VirtqMem → VirtqMem
  | 0, _, m => m
  | n + 1, d, m =>
    chainFrom n (d + 1)
      { m with
        desc := Function.update m.desc d.toUInt32 { m.desc d.toUInt32 with flags := 0, next := d + 1 } }

/-- `virtq_init`, for a device whose queue has `qsz` entries. -/
def virtqInit (qsz : UInt16) : Virtq :=
  if qsz == 0 then ⟨⟨0, 0, 0, 0, 0⟩, .zero⟩
  else
    let m := (chainFrom qsz.toNat 0 .zero).setNext (qsz - 1).toUInt32 0
    ⟨{ size := qsz, freeHead := 0, numFree := qsz, lastUsedIdx := 0, availIdx := 0 },
      { m with availFlags := 1, availIdx := 0 }⟩

/-- `virtq_add_buf`: the descriptor that it used.  Without a free descriptor it panics. -/
def virtqAddBuf (q : Virtq) (bufPhys : UInt64) (bufLen : UInt32) (write : Bool) :
    Option (UInt16 × Virtq) :=
  if q.vq.numFree == 0 then none
  else
    let descIdx := q.vq.freeHead
    let nextFree := (q.mem.desc descIdx.toUInt32).next
    let flags := if write then virtqDescFWrite else 0
    let ringIdx := q.vq.availIdx % q.vq.size
    let availIdx := q.vq.availIdx + 1
    some (descIdx,
      { vq := { q.vq with freeHead := nextFree, numFree := q.vq.numFree - 1, availIdx }
        mem := { q.mem with
          desc := Function.update q.mem.desc descIdx.toUInt32
            { addr := bufPhys, len := bufLen, flags, next := 0 }
          availRing := Function.update q.mem.availRing ringIdx descIdx
          availIdx } })

/-- `virtq_poll_used`: the descriptor number and the length, if the device has used a buffer. -/
def virtqPollUsed (q : Virtq) : Option (UInt32 × UInt32) × Virtq :=
  if q.vq.lastUsedIdx == q.mem.usedIdx then (none, q)
  else
    let elem := q.mem.usedRing (q.vq.lastUsedIdx % q.vq.size)
    (some (elem.id, elem.len),
      { vq := { q.vq with
          lastUsedIdx := q.vq.lastUsedIdx + 1
          freeHead := elem.id.toUInt16
          numFree := q.vq.numFree + 1 }
        mem := q.mem.setNext elem.id q.vq.freeHead })

/-! ### The driver -/

/-- The loop of `init` that posts the buffers, with `n` of them left. -/
def prePostFrom : Nat → UInt64 → Virtq → Option Virtq
  | 0, _, q => some q
  | n + 1, i, q => do
    let r ← virtqAddBuf q (rxBufPhys + i * bufSize.toUInt64) bufSize true
    prePostFrom n (i + 1) r.2

/-- The queue and the device, with the two records described above. -/
structure Nic where
  q : Virtq
  rxCount : UInt64
  lastAvail : UInt16
  inflight : List UInt16
  filled : List UInt64
  held : List UInt64

/-- `init`, as far as the receive queue is concerned. -/
def init (qsz : UInt16) : Option Nic := do
  let q ← prePostFrom maxBufs 0 (virtqInit qsz)
  some { q, rxCount := 0, lastAvail := 0, inflight := [], filled := [], held := [] }

/-- `net_rx_poll`: the buffer and the length, if there is one. -/
def netRxPoll (s : Nic) : Option (UInt64 × UInt32) × Nic :=
  match virtqPollUsed s.q with
  | (none, _) => (none, s)
  | (some (descId, pktLen), q) =>
    let outBuf := rxBufVirt + descId.toUInt64 * bufSize.toUInt64
    (some (outBuf, pktLen),
      { s with q, rxCount := s.rxCount + 1, filled := s.filled.tail, held := s.held ++ [outBuf] })

def netRxRepost (s : Nic) (bufVirt : UInt64) : Option Nic := do
  let bufPhys := bufVirt - kernelBase
  let r ← virtqAddBuf s.q bufPhys bufSize true
  some { s with q := r.2, held := s.held.erase bufVirt }

/-! ### The device -/

/-- The device takes the next available descriptor. -/
def Nic.fetch (s : Nic) : Nic :=
  if s.lastAvail == s.q.mem.availIdx then s
  else
    { s with
      lastAvail := s.lastAvail + 1
      inflight := s.inflight ++ [s.q.mem.availRing (s.lastAvail % s.q.vq.size)] }

/-- The device fills the buffer of descriptor `id`, which it has taken, with a packet of `len` bytes. -/
def Nic.complete (s : Nic) (id : UInt16) (len : UInt32) : Nic :=
  if id ∈ s.inflight then
    { s with
      q := { s.q with mem := { s.q.mem with
        usedRing := Function.update s.q.mem.usedRing (s.q.mem.usedIdx % s.q.vq.size) ⟨id.toUInt32, len⟩
        usedIdx := s.q.mem.usedIdx + 1 } }
      inflight := s.inflight.erase id
      filled := s.filled ++ [(s.q.mem.desc id.toUInt32).addr] }
  else s

inductive Event where
  | fetch
  | complete (id : UInt16) (len : UInt32)
  | poll
  | repost (bufVirt : UInt64)
  deriving DecidableEq, Repr

/-- One step of the device or one call of the driver.  A panic stops the machine. -/
def Nic.exec (s : Nic) : Event → Nic
  | .fetch => s.fetch
  | .complete id len => s.complete id len
  | .poll => (netRxPoll s).2
  | .repost bufVirt => (netRxRepost s bufVirt).getD s

/-- The descriptors that are available and that the device has not taken. -/
def Nic.available (s : Nic) : List UInt16 :=
  window s.q.mem.availRing s.q.vq.size s.lastAvail (s.q.mem.availIdx - s.lastAvail).toNat

/-- The descriptors that are posted to the device. -/
def Nic.posted (s : Nic) : List UInt16 :=
  s.available ++ s.inflight

end Keuos.Virtio

/-!
## A virtqueue between a driver and a device (`kernel/drivers/virtio.salt`)

The functions of the queue are those of `Keuos.Net.Virtio`; here they are called in any order, against a
device that takes the available descriptors in order and returns those that it has taken in any order.

Five fields of the state are read by no function.  `handed` and `polled` list the descriptors that
`virtq_add_buf` and `virtq_poll_used` have returned so far, the first one first, `taken` and `returned`
those that the device has taken and returned, and `outstanding` those that were handed out and have not
been polled since.
-/

namespace Keuos.Virtio

/-- The device reports a descriptor in the used ring. -/
def Virtq.returnUsed (q : Virtq) (id : UInt16) (len : UInt32) : Virtq :=
  { q with mem := { q.mem with
      usedRing := Function.update q.mem.usedRing (q.mem.usedIdx % q.vq.size) ⟨id.toUInt32, len⟩
      usedIdx := q.mem.usedIdx + 1 } }

/-- The queue and the device, with the records described above. -/
structure Queue where
  q : Virtq
  lastAvail : UInt16
  inflight : List UInt16
  handed : List UInt16
  taken : List UInt16
  returned : List UInt16
  polled : List UInt16
  outstanding : List UInt16

/-- The queue after `virtq_init`. -/
def Queue.init (qsz : UInt16) : Queue :=
  { q := virtqInit qsz, lastAvail := 0, inflight := [], handed := [], taken := [], returned := []
    polled := [], outstanding := [] }

/-- A call of `virtq_add_buf`, which is made only when there is a free descriptor. -/
def Queue.addBuf (s : Queue) (bufPhys : UInt64) (bufLen : UInt32) (write : Bool) : Queue :=
  match virtqAddBuf s.q bufPhys bufLen write with
  | none => s
  | some (d, q) => { s with q, handed := s.handed ++ [d], outstanding := s.outstanding ++ [d] }

/-- A call of `virtq_poll_used`. -/
def Queue.pollUsed (s : Queue) : Queue :=
  match virtqPollUsed s.q with
  | (none, _) => s
  | (some (id, _), q) =>
    { s with
      q, polled := s.polled ++ [id.toUInt16], outstanding := s.outstanding.erase id.toUInt16 }

/-- The device takes the next available descriptor. -/
def Queue.fetch (s : Queue) : Queue :=
  if s.lastAvail == s.q.mem.availIdx then s
  else
    let d := s.q.mem.availRing (s.lastAvail % s.q.vq.size)
    { s with lastAvail := s.lastAvail + 1, inflight := s.inflight ++ [d], taken := s.taken ++ [d] }

/-- The device returns a descriptor that it has taken. -/
def Queue.complete (s : Queue) (id : UInt16) (len : UInt32) : Queue :=
  if id ∈ s.inflight then
    { s with
      q := s.q.returnUsed id len, inflight := s.inflight.erase id, returned := s.returned ++ [id] }
  else s

inductive QueueOp where
  | addBuf (bufPhys : UInt64) (bufLen : UInt32) (write : Bool)
  | pollUsed
  | fetch
  | complete (id : UInt16) (len : UInt32)
  deriving DecidableEq, Repr

/-- One call of the driver or one step of the device. -/
def Queue.exec (s : Queue) : QueueOp → Queue
  | .addBuf bufPhys bufLen write => s.addBuf bufPhys bufLen write
  | .pollUsed => s.pollUsed
  | .fetch => s.fetch
  | .complete id len => s.complete id len

end Keuos.Virtio

/-!
## The transmit queue of the network card (`kernel/drivers/virtio_net.salt`)

A frame is copied into one of 64 slots, which are used in turn, and the slot is posted to the device.  The
frame that `net_tx_send` is called with is given by its bytes: it lies outside the slots.  `net_poll`
polls the used descriptors, and the frames that it sends are sends of their own.

Two fields of the state are read by no function: `sent` is the number of the frames that were posted so
far, and `posts` holds, for each descriptor, the frame that it was last posted with and the number of the
frames posted before that one.
-/

namespace Keuos.Virtio

def virtioNetHdrSize : UInt32 := 10

/-- `TX_POOL_PHYS`, the value of `TX_BUF_PHYS`. -/
def txBufPhys : UInt64 := 0x440000

def txBufVirt : UInt64 := txBufPhys + kernelBase

/-- A frame that was posted: its number, and what `net_tx_send` was called with. -/
structure Post where
  index : Nat
  pkt : Nat → UInt8
  pktLen : UInt32

/-- The queue, the memory of the slots and the device, with the two records described above. -/
structure Tx where
  q : Virtq
  mem : Mem
  txCount : UInt64
  lastAvail : UInt16
  inflight : List UInt16
  sent : Nat
  posts : UInt16 → Post

/-- `init`, as far as the transmit queue is concerned. -/
def Tx.init (qsz : UInt16) (mem : Mem) : Tx :=
  { q := virtqInit qsz, mem, txCount := 0, lastAvail := 0, inflight := [], sent := 0
    posts := fun _ => ⟨0, fun _ => 0, 0⟩ }

/-- The loop of `tx_reclaim_used`.  The two indices are 16-bit numbers, so it ends within 2^16 rounds: its
fuel. -/
def txReclaimFrom : Nat → Virtq → Virtq
  | 0, q => q
  | n + 1, q =>
    match virtqPollUsed q with
    | (none, _) => q
    | (some _, q') => txReclaimFrom n q'

/-- `tx_reclaim_used`. -/
@[irreducible] def txReclaimUsed (q : Virtq) : Virtq :=
  txReclaimFrom (2 ^ 16) q

/-- `slot`: the number of the slot that is used next. -/
def Tx.slot (s : Tx) : UInt64 :=
  s.txCount % 64

/-- The stores of `net_tx_send` into a slot: the header, which is cleared, and the frame. -/
def fillSlot (bufVirt : UInt64) (pkt : Nat → UInt8) (pktLen : UInt32) (mem : Mem) : Mem :=
  Mem.copyIn pkt pktLen.toNat (bufVirt + virtioNetHdrSize.toUInt64)
    (Mem.fill 0 virtioNetHdrSize.toNat bufVirt mem)

def netTxSend (s : Tx) (pkt : Nat → UInt8) (pktLen : UInt32) : Bool × Tx :=
  if pktLen > bufSize - virtioNetHdrSize then (false, s)
  else
    let q := txReclaimUsed s.q
    if q.vq.numFree == 0 then (false, { s with q })
    else
      let bufVirt := txBufVirt + s.slot * bufSize.toUInt64
      let bufPhys := txBufPhys + s.slot * bufSize.toUInt64
      let mem := fillSlot bufVirt pkt pktLen s.mem
      match virtqAddBuf q bufPhys (virtioNetHdrSize + pktLen) false with
      | none => (false, { s with q, mem })
      | some (d, q') =>
        (true, { s with
          q := q', mem, txCount := s.txCount + 1, sent := s.sent + 1
          posts := Function.update s.posts d ⟨s.sent, pkt, pktLen⟩ })

/-- The device takes the next available descriptor. -/
def Tx.fetch (s : Tx) : Tx :=
  if s.lastAvail == s.q.mem.availIdx then s
  else
    { s with
      lastAvail := s.lastAvail + 1
      inflight := s.inflight ++ [s.q.mem.availRing (s.lastAvail % s.q.vq.size)] }

/-- The device returns a descriptor that it has taken. -/
def Tx.complete (s : Tx) (id : UInt16) (len : UInt32) : Tx :=
  if id ∈ s.inflight then { s with q := s.q.returnUsed id len, inflight := s.inflight.erase id } else s

inductive TxEvent where
  | send (pkt : Nat → UInt8) (pktLen : UInt32)
  | poll
  | fetch
  | complete (id : UInt16) (len : UInt32)

/-- One call of the driver or one step of the device. -/
def Tx.exec (s : Tx) : TxEvent → Tx
  | .send pkt pktLen => (netTxSend s pkt pktLen).2
  | .poll => { s with q := txReclaimUsed s.q }
  | .fetch => s.fetch
  | .complete id len => s.complete id len

/-- The descriptors that are available and that the device has not taken. -/
def Tx.available (s : Tx) : List UInt16 :=
  window s.q.mem.availRing s.q.vq.size s.lastAvail (s.q.mem.availIdx - s.lastAvail).toNat

/-- The descriptors that were posted and that the device has not returned. -/
def Tx.posted (s : Tx) : List UInt16 :=
  s.available ++ s.inflight

/-- What the device reads through a descriptor. -/
def Tx.deviceRead (s : Tx) (d : UInt16) : List UInt8 :=
  (List.range (s.q.mem.desc d.toUInt32).len.toNat).map fun i =>
    s.mem ((s.q.mem.desc d.toUInt32).addr + kernelBase + UInt64.ofNat i)

/-- A cleared header and the frame. -/
def Post.bytes (p : Post) : List UInt8 :=
  List.replicate virtioNetHdrSize.toNat 0 ++ (List.range p.pktLen.toNat).map p.pkt

end Keuos.Virtio
