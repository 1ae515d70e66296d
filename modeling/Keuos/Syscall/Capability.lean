import Keuos.Lib.Run
import Keuos.Process.Waiting
import Keuos.Syscall.Memory
import Keuos.Syscall.Spaces

/-!
# Capabilities (`kernel/core/capability.salt`)

A capability is bound to a process by `sys_cap_bind`; `sys_ring_map` then gives it a page with the header
of a ring, mapped at the end of the mappings of its owner.  `sys_cap_unmap` takes the page away, and
`fastpath_handoff_syscall` (`kernel/ipc/fastpath.salt`) reads a packet in it and frees it.
-/

namespace Keuos.Syscall

open Process Paging
open Pmm (physToVirt)

def maxCapabilities : UInt64 := 64

def capStateFree : UInt64 := 0
def capStateBound : UInt64 := 1
def capStateMapped : UInt64 := 2

/-- `ipc_ring.DATA_CAPACITY`. -/
def dataCapacity : UInt64 := 3904

/-- The capability table. -/
structure Caps where
  state : UInt64 → UInt64
  owner : UInt64 → UInt64
  phys : UInt64 → UInt64
  vaddr : UInt64 → UInt64
  flags : UInt64 → UInt64

/-- The machine with the capability table. -/
structure CapMachine extends Machine where
  caps : Caps

/-- The scan of `sys_cap_bind`, with `n` slots left from slot `i` on. -/
def capBindFrom (caps : Caps) (pid flags : UInt64) : Nat → UInt64 → UInt64 × Caps
  | 0, _ => (0, caps)
  | n + 1, i =>
    if caps.state i == capStateFree then
      (i, { state := Function.update caps.state i capStateBound
            owner := Function.update caps.owner i pid
            phys := Function.update caps.phys i 0
            vaddr := Function.update caps.vaddr i 0
            flags := Function.update caps.flags i flags })
    else capBindFrom caps pid flags n (i + 1)

def sysCapBind (s : CapMachine) (flags : UInt64) : UInt64 × CapMachine :=
  let r := capBindFrom s.caps s.procs.currentPid flags 63 1
  (r.1, { s with caps := r.2 })

/-- The header of an empty ring. -/
def writeRingHeader (m : Mem) (physFrame : UInt64) : Mem :=
  let kernPtr := physToVirt physFrame
  (((m.write64 kernPtr 0).write64 (kernPtr + 8) dataCapacity).write64 (kernPtr + 64) 0).write64
    (kernPtr + 128) 0

/-- The checks of `sys_ring_map`. -/
def ringMapAllowed (caps : Caps) (pid capabilityId : UInt64) : Bool :=
  if capabilityId == 0 || capabilityId ≥ maxCapabilities then false
  else if caps.owner capabilityId != pid then false
  else if caps.state capabilityId != capStateBound then false
  else true

def sysRingMap (s : CapMachine) (capabilityId : UInt64) : UInt64 × CapMachine :=
  let pid := s.procs.currentPid
  if !ringMapAllowed s.caps pid capabilityId then (0, s)
  else
    let physFrame := s.vm.alloc
    if physFrame.1 == 0 then (0, { s with vm := physFrame.2 })
    else
      let vaddr := (s.procs.table pid).mmapBase
      let pml4 := (s.procs.table pid).userPml4
      let vm := mapUserPage physFrame.2 pml4 vaddr physFrame.1 userPageFlags
      let procs := s.procs.modify pid fun b => { b with mmapBase := vaddr + pageSize }
      let caps : Caps :=
        { s.caps with
          state := Function.update s.caps.state capabilityId capStateMapped
          phys := Function.update s.caps.phys capabilityId physFrame.1
          vaddr := Function.update s.caps.vaddr capabilityId vaddr }
      (vaddr, ⟨⟨procs, { vm with mem := writeRingHeader vm.mem physFrame.1 }⟩, caps⟩)

def getFlags (caps : Caps) (pid capId : UInt64) : UInt64 :=
  if capId == 0 || capId ≥ maxCapabilities then 0
  else if caps.owner capId != pid then 0
  else if caps.state capId != capStateBound && caps.state capId != capStateMapped then 0
  else caps.flags capId

/-- The checks of a call on a capability that has to be in the state `required`. -/
def capAllowed (required : UInt64) (caps : Caps) (pid capabilityId : UInt64) : Bool :=
  if capabilityId == 0 || capabilityId ≥ maxCapabilities then false
  else if caps.owner capabilityId != pid then false
  else if caps.state capabilityId != required then false
  else true

/-- The checks of `sys_cap_unmap`. -/
def capUnmapAllowed (caps : Caps) (pid capabilityId : UInt64) : Bool :=
  capAllowed capStateMapped caps pid capabilityId

/-- `sys_cap_unmap`: the page of the capability, or 0. -/
def sysCapUnmap (s : CapMachine) (capabilityId : UInt64) : UInt64 × CapMachine :=
  let pid := s.procs.currentPid
  if !capUnmapAllowed s.caps pid capabilityId then (0, s)
  else
    let phys := s.caps.phys capabilityId
    let vaddr := s.caps.vaddr capabilityId
    let pml4 := (s.procs.table pid).userPml4
    let mem := (unmapUserPage s.vm.mem pml4 vaddr).2
    let caps : Caps :=
      { s.caps with
        state := Function.update s.caps.state capabilityId capStateFree
        owner := Function.update s.caps.owner capabilityId 0
        phys := Function.update s.caps.phys capabilityId 0
        vaddr := Function.update s.caps.vaddr capabilityId 0 }
    (phys, ⟨⟨s.procs, { s.vm with mem := mem }⟩, caps⟩)

/-! ### The fast path -/

def borrowStateIdle : UInt8 := 0
def borrowStateKernel : UInt8 := 1

/-- The descriptors of `fastpath.salt`. -/
structure FastPath where
  physPtr : UInt64 → UInt64
  len : UInt64 → UInt32
  state : UInt64 → UInt8

/-- What a hand-off leaves behind: the machine, the descriptors, the pages that it frees and the addresses
that it reads. -/
structure Handoff where
  machine : CapMachine
  fast : FastPath
  freed : List UInt64
  read : List UInt64

/-- `fastpath_handoff_syscall`. -/
def fastpathHandoff (s : CapMachine) (fast : FastPath) (capId : UInt64) (payloadOffset payloadLen : UInt32) :
    Handoff :=
  if capId ≥ 64 then ⟨s, fast, [], []⟩
  else
    let r := sysCapUnmap s capId
    let physAddr := r.1
    if physAddr == 0 then ⟨r.2, fast, [], []⟩
    else
      let done : FastPath :=
        { physPtr := Function.update fast.physPtr capId physAddr
          len := Function.update fast.len capId payloadLen
          -- the state is that of a borrowed page in between
          state := Function.update (Function.update fast.state capId borrowStateKernel) capId
            borrowStateIdle }
      let offset64 := payloadOffset.toUInt64
      let len64 := payloadLen.toUInt64
      if offset64 + len64 > 4096 then ⟨r.2, done, [physAddr], []⟩
      else if len64 < 14 then ⟨r.2, done, [physAddr], []⟩
      else
        let kernPtr := physToVirt physAddr + offset64
        ⟨r.2, done, [physAddr], [kernPtr + 12, kernPtr + 13]⟩

end Keuos.Syscall

/-!
## Runs of the capability calls

Processes call `sys_cap_bind`, `sys_ring_map`, `sys_cap_unmap` and `fastpath_handoff_syscall` in any order.
The state has the memory with the page tables, the capability table, a ledger of the calls of `pmm.alloc`
and `pmm.free`, and what the hand-offs have read, each address with the page it was read for.
-/

namespace Keuos.Syscall

open Process Paging Ledger

structure CapWorld where
  procs : Procs
  mem : Mem
  caps : Caps
  fast : FastPath
  log : List (Entry Holder UInt64)
  reads : List (UInt64 × UInt64)

/-- A call of the current process, with the answers of `pmm.alloc` during it, and the scheduler's choice of
another process. -/
inductive CapOp where
  | bind (flags : UInt64)
  | ringMap (capabilityId : UInt64) (answers : List UInt64)
  | unmap (capabilityId : UInt64)
  | handoff (capabilityId : UInt64) (payloadOffset payloadLen : UInt32)
  | switch (slot : UInt64)

/-- The capability that a call is about. -/
def CapOp.capability : CapOp → Option UInt64
  | .ringMap capabilityId _ => some capabilityId
  | .unmap capabilityId => some capabilityId
  | .handoff capabilityId _ _ => some capabilityId
  | _ => none

namespace CapWorld

variable (s : CapWorld)

def machine (answers : List UInt64) : CapMachine := ⟨⟨s.procs, ⟨s.mem, answers⟩⟩, s.caps⟩

/-- The state after a call that led to the machine `m`. -/
def after (answers : List UInt64) (m : CapMachine) : CapWorld :=
  { s with
    procs := m.procs
    mem := m.vm.mem
    caps := m.caps
    log := handAll .space (handedOut ⟨s.mem, answers⟩ m.vm) s.log }

def exec : CapOp → CapWorld
  | .bind flags => s.after [] (sysCapBind (s.machine []) flags).2
  | .ringMap capabilityId answers => s.after answers (sysRingMap (s.machine answers) capabilityId).2
  | .unmap capabilityId => s.after [] (sysCapUnmap (s.machine []) capabilityId).2
  | .handoff capabilityId payloadOffset payloadLen =>
    let h := fastpathHandoff (s.machine []) s.fast capabilityId payloadOffset payloadLen
    let s₁ := s.after [] h.machine
    { s₁ with
      fast := h.fast
      log := freeAll h.freed s₁.log
      reads := h.freed.flatMap (fun phys => h.read.map fun a => (phys, a)) ++ s.reads }
  | .switch slot => { s with procs := setCurrent s.procs slot }

end CapWorld

end Keuos.Syscall

/-!
## Capabilities over the lives of processes

Processes are spawned, bind and use capabilities, exit and are reaped, and their slots are given to others.
The state has a history: how often a slot was given to a process, and which process has bound a capability.
A process is named by its slot and its life there.
-/

namespace Keuos.Syscall

open Process Paging

structure CapLife where
  world : CapWorld
  life : UInt64 → Nat
  binder : UInt64 → UInt64 × Nat

/-- `alloc_pid`; `process_exit`, with the memory after the page tables were destroyed; the reaping of a slot;
the scheduler changes a state; and a call, or the scheduler's choice of another process. -/
inductive LifeOp where
  | spawn
  | exit (exitCode : UInt64) (mem : Mem)
  | reap (slot : UInt64)
  | change (slot state : UInt64)
  | call (op : CapOp)

namespace CapLife

variable (s : CapLife)

def procs : Procs := s.world.procs

def caps : Caps := s.world.caps

/-- At boot. -/
def boot (mem : Mem) : CapLife where
  world :=
    { procs := Procs.zero
      mem := mem
      caps := ⟨fun _ => 0, fun _ => 0, fun _ => 0, fun _ => 0, fun _ => 0⟩
      fast := ⟨fun _ => 0, fun _ => 0, fun _ => 0⟩
      log := []
      reads := [] }
  life := fun _ => 0
  binder := fun _ => (0, 0)

/-- The process that runs. -/
def caller : UInt64 × Nat := (s.procs.currentPid, s.life s.procs.currentPid)

/-- The slot has a process that has not exited. -/
def alive (slot : UInt64) : Bool :=
  slot < maxProcs && aliveState (s.procs.state slot)

/-- A process that has exited makes no call, and is not chosen. -/
def mayCall : CapOp → Bool
  | .switch slot => s.alive slot
  | _ => s.alive s.procs.currentPid

def withProcs (p : Procs) : CapLife :=
  { s with world := { s.world with procs := p } }

/-- The process that has bound a capability, after a call. -/
def bound : CapOp → UInt64 → UInt64 × Nat
  | .bind flags =>
    let capabilityId := (sysCapBind (s.world.machine []) flags).1
    if capabilityId == 0 then s.binder else Function.update s.binder capabilityId s.caller
  | _ => s.binder

def exec : LifeOp → CapLife
  | .spawn =>
    let r := allocPid s.procs
    if r.1 ≥ maxProcs then s.withProcs r.2
    else { s.withProcs r.2 with life := Function.update s.life r.1 (s.life r.1 + 1) }
  | .exit exitCode mem =>
    if s.alive s.procs.currentPid then
      { s with world := { s.world with procs := processExit s.procs exitCode, mem := mem } }
    else s
  | .reap slot =>
    if s.alive s.procs.currentPid && slot < maxProcs then s.withProcs (reapChild s.procs slot).2 else s
  | .change slot state =>
    if s.alive slot && aliveState state then s.withProcs (setState s.procs slot state) else s
  | .call op =>
    if s.mayCall op then { s with world := s.world.exec op, binder := s.bound op } else s

end CapLife

end Keuos.Syscall
