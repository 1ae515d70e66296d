import Keuos.Lib.Simulation
import Mathlib.Algebra.Group.Nat.Defs
import Mathlib.Logic.Function.Basic

/-!
# The NVMe block device

The driver of the NVMe controller and the block device over it.  A request takes a slot of `REQUEST_TABLE` and
its bounce page, goes to the controller through the submission queue of 32 entries, and polls the completion
queue until its slot is marked as complete.  Whichever task finds a completion marks the slot of its request.

The sections under `NVME_LOCK` are one step each.  Between them the tasks and the controller take their steps
in any order.  The controller is the documented one: it takes the commands in the order of the queue up to the
tail doorbell, completes them in any order, and posts completions with the phase bit up to the head doorbell.
-/

namespace Keuos.Nvme

/-! ### `kernel/drivers/nvme.salt` -/

structure SqEntry where
  cdw0 : UInt32 := 0
  nsid : UInt32 := 0
  rsvd2 : UInt64 := 0
  mptr : UInt64 := 0
  dptrPrp1 : UInt64 := 0
  dptrPrp2 : UInt64 := 0
  cdw10 : UInt32 := 0
  cdw11 : UInt32 := 0
  cdw12 : UInt32 := 0
  cdw13 : UInt32 := 0
  cdw14 : UInt32 := 0
  cdw15 : UInt32 := 0
deriving DecidableEq

structure CqEntry where
  cdw0 : UInt32 := 0
  rsvd1 : UInt32 := 0
  sqHead : UInt16 := 0
  sqId : UInt16 := 0
  commandId : UInt16 := 0
  status : UInt16 := 0
deriving DecidableEq

/-- The I/O queues of the controller, with the two doorbell registers at `0x1008` and `0x100C`. -/
structure NvmeController where
  iosq : Nat → SqEntry := fun _ => {}
  iocq : Nat → CqEntry := fun _ => {}
  iosqTail : UInt32 := 0
  iocqHead : UInt32 := 0
  iocqPhase : UInt16 := 1
  sq1Tdbl : UInt32 := 0
  cq1Hdbl : UInt32 := 0

/-- Both indices go around the 32 entries. -/
def nextIndex (i : UInt32) : UInt32 :=
  if 32 ≤ i + 1 then 0 else i + 1

def submitIoCmd (ctrl : NvmeController) (cmd : SqEntry) : NvmeController :=
  let tail := ctrl.iosqTail
  { ctrl with
    iosq := Function.update ctrl.iosq tail.toNat cmd
    iosqTail := nextIndex tail
    sq1Tdbl := nextIndex tail }

/-- The id of the next completion, `-1` without one, or the text of the panic. -/
def processIoCq (ctrl : NvmeController) : Except String Int × NvmeController :=
  let head := ctrl.iocqHead
  let expectedPhase := ctrl.iocqPhase
  let entry := ctrl.iocq head.toNat
  if entry.status &&& 1 = expectedPhase then
    let nextPhase :=
      if 32 ≤ head + 1 then if expectedPhase = 1 then 0 else 1 else expectedPhase
    let ctrl := { ctrl with
      iocqHead := nextIndex head, iocqPhase := nextPhase, cq1Hdbl := nextIndex head }
    if entry.status >>> 1 ≠ 0 then
      (.error "NVMe I/O Command Failed", ctrl)
    else
      (.ok entry.commandId.toNat, ctrl)
  else
    (.ok (-1), ctrl)

/-- The command that `read_block` and `write_block` build, with their opcode. -/
def blockCmd (opcode : UInt32) (lba bufPhys : UInt64) (blocks reqId : UInt16) : SqEntry where
  cdw0 := opcode ||| (reqId.toUInt32 <<< 16)
  nsid := 1
  dptrPrp1 := bufPhys
  cdw10 := (lba &&& 0xFFFFFFFF).toUInt32
  cdw11 := (lba >>> 32).toUInt32
  cdw12 := (blocks - 1).toUInt32

def readBlock (ctrl : NvmeController) (lba bufPhys : UInt64) (blocks reqId : UInt16) : NvmeController :=
  submitIoCmd ctrl (blockCmd 0x02 lba bufPhys blocks reqId)

def writeBlock (ctrl : NvmeController) (lba bufPhys : UInt64) (blocks reqId : UInt16) : NvmeController :=
  submitIoCmd ctrl (blockCmd 0x01 lba bufPhys blocks reqId)

/-! ### The controller -/

/-- The bytes of a page, and of a buffer. -/
abbrev Bytes := Nat → UInt8

/-- The blocks of the disk. -/
abbrev Disk := Nat → Fin 512 → UInt8

/-- The bytes of the blocks from `lba` on. -/
def readBlocks (disk : Disk) (lba : Nat) : Bytes := fun i =>
  disk (lba + i / 512) ⟨i % 512, Nat.mod_lt _ (by decide)⟩

def writeBlocks (disk : Disk) (lba blocks : Nat) (data : Bytes) : Disk := fun b j =>
  if lba ≤ b ∧ b < lba + blocks then data ((b - lba) * 512 + j) else disk b j

/-- The first `n` bytes of `source`, over those of `target`. -/
def copyBytes (n : Nat) (source target : Bytes) : Bytes := fun i =>
  if i < n then source i else target i

structure Device where
  sqHead : UInt32 := 0
  cqTail : UInt32 := 0
  phase : UInt16 := 1
  -- the commands it has taken and not completed
  inflight : List SqEntry := []
  disk : Disk

/-- The disk and the pages after a command. -/
def perform (cmd : SqEntry) (disk : Disk) (pages : UInt64 → Bytes) : Disk × (UInt64 → Bytes) :=
  let opcode := cmd.cdw0 &&& 0xFF
  let lba := cmd.cdw10.toNat + cmd.cdw11.toNat * 2 ^ 32
  let blocks := (cmd.cdw12 &&& 0xFFFF).toNat + 1
  if opcode = 0x02 then
    (disk, Function.update pages cmd.dptrPrp1
      (copyBytes (blocks * 512) (readBlocks disk lba) (pages cmd.dptrPrp1)))
  else if opcode = 0x01 then
    (writeBlocks disk lba blocks (pages cmd.dptrPrp1), pages)
  else
    (disk, pages)

/-- The completion of a command, with the phase bit and the status code. -/
def completion (cmd : SqEntry) (phase sctSc : UInt16) : CqEntry where
  sqId := 1
  commandId := (cmd.cdw0 >>> 16).toUInt16
  status := phase ||| (sctSc <<< 1)

/-! ### `kernel/sys/nvme_block.salt` -/

/-- A request of `kernel/sys/block.salt`, with the bytes of its buffer. -/
structure BlockRequest where
  id : UInt32 := 0
  isWrite : Bool
  lba : UInt64
  count : UInt32
  buffer : Bytes

structure NvmeRequest where
  reqId : UInt32
  state : UInt32
  bouncePhys : UInt64

/-- How far a request with a slot has come. -/
inductive Stage where
  | allocated
  | copied
  | waiting
  | polling
  | marking (compId : Nat)
  | leaving
deriving DecidableEq

/-- Where a task is in `nvme_submit_request`. -/
inductive Task where
  | idle
  | called (req : BlockRequest)
  | inside (req : BlockRequest) (reqId : Nat) (stage : Stage)

structure System (τ : Type) where
  requestTable : Nat → NvmeRequest
  nvmeCtrl : NvmeController
  pages : UInt64 → Bytes
  device : Device
  tasks : τ → Task
  panicked : Option String := none

/-- The first free slot. -/
def allocReqSlot (table : Nat → NvmeRequest) : Option Nat :=
  (List.range 32).find? fun i => (table i).state = 0

/-- Store the state of a slot. -/
def setState (table : Nat → NvmeRequest) (i : Nat) (state : UInt32) : Nat → NvmeRequest :=
  Function.update table i { table i with state }

/-- The command of a request. -/
def submitBlock (ctrl : NvmeController) (req : BlockRequest) (reqId : Nat) (bouncePhys : UInt64) :
    NvmeController :=
  if req.isWrite then
    writeBlock ctrl req.lba bouncePhys req.count.toUInt16 (UInt16.ofNat reqId)
  else
    readBlock ctrl req.lba bouncePhys req.count.toUInt16 (UInt16.ofNat reqId)

/-- What the buffer of a request holds in the end. -/
def copyOut (req : BlockRequest) (bounce : Bytes) : Bytes :=
  if req.isWrite then req.buffer else copyBytes (req.count * 512).toNat bounce req.buffer

/-! ### The system -/

/-- A request is made, or returns with the bytes of its buffer. -/
inductive Event (τ : Type) where
  | call (t : τ) (req : BlockRequest)
  | ret (t : τ) (buffer : Bytes)

/-- The steps of a task in `nvme_submit_request`, and those of the controller. -/
inductive Act (τ : Type) where
  | call (t : τ) (req : BlockRequest)
  | alloc (t : τ)
  | copyIn (t : τ)
  | submit (t : τ)
  | check (t : τ)
  | process (t : τ)
  | mark (t : τ)
  | finish (t : τ)
  | fetch
  | complete (k : Nat) (sctSc : UInt16)

section Exec

variable {τ : Type} [DecidableEq τ]

/-- The task goes on. -/
def System.goto (s : System τ) (t : τ) (task : Task) : System τ :=
  { s with tasks := Function.update s.tasks t task }

/-- The controller takes the next command. -/
def System.fetch (s : System τ) : System τ :=
  if s.device.sqHead ≠ s.nvmeCtrl.sq1Tdbl then
    { s with device := { s.device with
      sqHead := nextIndex s.device.sqHead
      inflight := s.device.inflight ++ [s.nvmeCtrl.iosq s.device.sqHead.toNat] } }
  else
    s

/-- The controller completes a command that it has taken, when the completion queue has room. -/
def System.complete (s : System τ) (k : Nat) (sctSc : UInt16) : System τ :=
  match s.device.inflight[k]? with
  | none => s
  | some cmd =>
    if nextIndex s.device.cqTail = s.nvmeCtrl.cq1Hdbl then
      s
    else
      let (disk, pages) := perform cmd s.device.disk s.pages
      { s with
        pages
        nvmeCtrl := { s.nvmeCtrl with
          iocq := Function.update s.nvmeCtrl.iocq s.device.cqTail.toNat
            (completion cmd s.device.phase sctSc) }
        device := { s.device with
          cqTail := nextIndex s.device.cqTail
          phase := if 32 ≤ s.device.cqTail + 1 then if s.device.phase = 1 then 0 else 1 else s.device.phase
          inflight := s.device.inflight.eraseIdx k
          disk } }

/-- A step that its task, or the controller, can take.  The others leave the system as it is. -/
def System.step (s : System τ) : Act τ → List (Event τ) × System τ
  | .call t req =>
    match s.tasks t with
    | .idle => ([.call t req], s.goto t (.called req))
    | _ => ([], s)
  | .alloc t =>
    match s.tasks t with
    | .called req =>
      -- `nvme_submit_request` panics when no slot of the table is free.
      match allocReqSlot s.requestTable with
      | none => ([], { s with panicked := some "NVMe Request Queue Full" })
      | some i =>
        ([], { s with requestTable := setState s.requestTable i 1 }.goto t (.inside req i .allocated))
    | _ => ([], s)
  | .copyIn t =>
    match s.tasks t with
    | .inside req reqId .allocated =>
      let count := req.count * 512
      let bouncePhys := (s.requestTable reqId).bouncePhys
      -- A bounce buffer is one page.
      if 4096 < count then
        ([], { s with panicked := some "NVMe req too large" })
      else
        let bounce := if req.isWrite then copyBytes count.toNat req.buffer (s.pages bouncePhys)
          else s.pages bouncePhys
        ([], { s with pages := Function.update s.pages bouncePhys bounce }.goto t
          (.inside req reqId .copied))
    | _ => ([], s)
  | .submit t =>
    match s.tasks t with
    | .inside req reqId .copied =>
      ([], { s with
        nvmeCtrl := submitBlock s.nvmeCtrl req reqId (s.requestTable reqId).bouncePhys }.goto t
        (.inside req reqId .waiting))
    | _ => ([], s)
  | .check t =>
    match s.tasks t with
    | .inside req reqId .waiting =>
      -- The test of the `while` that waits for the completion.
      if (s.requestTable reqId).state = 1 then
        ([], s.goto t (.inside req reqId .polling))
      else
        ([], s.goto t (.inside req reqId .leaving))
    | _ => ([], s)
  | .process t =>
    match s.tasks t with
    | .inside req reqId .polling =>
      let (compId, ctrl) := processIoCq s.nvmeCtrl
      match compId with
      | .error text => ([], { s with nvmeCtrl := ctrl, panicked := some text })
      | .ok compId =>
        -- Whichever request has completed, not only the own one.
        if compId ≠ -1 then
          ([], { s with nvmeCtrl := ctrl }.goto t (.inside req reqId (.marking compId.toNat)))
        else
          ([], { s with nvmeCtrl := ctrl }.goto t (.inside req reqId .waiting))
    | _ => ([], s)
  | .mark t =>
    match s.tasks t with
    | .inside req reqId (.marking compId) =>
      ([], { s with requestTable := setState s.requestTable compId 2 }.goto t
        (.inside req reqId .waiting))
    | _ => ([], s)
  | .finish t =>
    match s.tasks t with
    | .inside req reqId .leaving =>
      ([.ret t (copyOut req (s.pages (s.requestTable reqId).bouncePhys))],
        { s with requestTable := setState s.requestTable reqId 0 }.goto t .idle)
    | _ => ([], s)
  | .fetch => ([], s.fetch)
  | .complete k sctSc => ([], s.complete k sctSc)

/-- A panic stops the kernel. -/
def System.exec (s : System τ) (act : Act τ) : List (Event τ) × System τ :=
  if s.panicked = none then s.step act else ([], s)

end Exec

end Keuos.Nvme
