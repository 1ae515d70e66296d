import Keuos.Lib.Ledger
import Keuos.Paging.Defs
import Keuos.Process.Lifecycle
import Keuos.RingAbi.Defs

/-!
# The end of a process, and the pages of its ring

`init_ring` and `destroy_ring` of `kernel/core/ring_abi.salt`, with the two ways in which a process ends:
`process_exit` (`kernel/core/syscall_handlers.salt`), with its twin `sys_entity_exit`
(`kernel/core/syscall_entity.salt`), and `keuos_reclaim` (`kernel/core/keuos_reclaim.salt`).

The state has a ledger of the calls of `pmm.alloc` and `pmm.free`: for whom a page was allocated, and
that it was passed to `pmm.free`.

The exits call `user_paging.destroy_user_pml4`, whose body is empty.  The interrupts of the network card
and the histogram of `keuos_reclaim`, and the entities of the exits, are left out.
-/

namespace Keuos.Reclaim

open Paging Process RingAbi Ledger
open Pmm (physToVirt kernelBase)

def ringSqUserVa : UInt64 := 0x00007FFFF0000000
def ringCqUserVa : UInt64 := 0x00007FFFF0001000

def userPageFlags : UInt64 := 0x7

/-- For whom a page was allocated: for the ring of a slot, or for something else. -/
inductive Owner where
  | ring (slot : UInt64)
  | other
  deriving DecidableEq, Repr

/-- `ProcessRing`, with the physical addresses. -/
structure RingEntry extends ProcessRing where
  sqPhys : UInt64
  cqPhys : UInt64
  deriving DecidableEq, Repr

/-- A zeroed entry of `RING_TABLE`. -/
def RingEntry.zero : RingEntry := ⟨⟨0, 0, 0⟩, 0, 0⟩

/-- The memory, the process table, `RING_TABLE` and the ledger of the page allocator. -/
structure Kernel where
  mem : Mem
  procs : Procs
  rings : UInt64 → RingEntry
  log : List (Entry Owner UInt64)

/-! ### Rings -/

/-- The steps of `init_ring` after its two allocations. -/
def installRing (k : Kernel) (slot sqPhys cqPhys : UInt64) (answers : List UInt64) : Kernel :=
  let sqKern := physToVirt sqPhys
  let cqKern := physToVirt cqPhys
  let vm : Vm := ⟨initPages k.mem sqKern cqKern, answers⟩
  let pml4 := (k.procs.table slot).userPml4
  let vm₁ := mapUserPage vm pml4 ringSqUserVa sqPhys userPageFlags
  let vm₂ := mapUserPage vm₁ pml4 ringCqUserVa cqPhys userPageFlags
  { k with
    mem := vm₂.mem
    rings := Function.update k.rings slot ⟨⟨sqKern, cqKern, 1⟩, sqPhys, cqPhys⟩
    log := handAll .other (handedOut vm vm₂)
      (.handed (.ring slot) cqPhys :: .handed (.ring slot) sqPhys :: k.log) }

/-- `init_ring`, with the answers that `pmm.alloc` gives during the call. -/
def initRing (k : Kernel) (slot : UInt64) (answers : List UInt64) : UInt64 × Kernel :=
  let sq := (⟨k.mem, answers⟩ : Vm).alloc
  if sq.1 == 0 then (0, k)
  else
    let cq := sq.2.alloc
    if cq.1 == 0 then (0, { k with log := .freed sq.1 :: .handed (.ring slot) sq.1 :: k.log })
    else (ringSqUserVa, installRing k slot sq.1 cq.1 cq.2.answers)

/-- `SYS_RING_MAP`, with the flags of the capability. -/
def sysRingMap (k : Kernel) (capFlags : UInt64) (answers : List UInt64) : UInt64 × Kernel :=
  if capFlags &&& capFlagRingAbi == 0 then (0, k) else initRing k k.procs.currentPid answers

/-- The pages that `destroy_ring` frees. -/
def RingEntry.pages (e : RingEntry) : List UInt64 :=
  (if e.sqPhys != 0 then [e.sqPhys] else []) ++ (if e.cqPhys != 0 then [e.cqPhys] else [])

def destroyRing (k : Kernel) (slot : UInt64) : Kernel :=
  if (k.rings slot).active != 1 then k
  else
    { k with
      rings := Function.update k.rings slot RingEntry.zero
      log := freeAll (k.rings slot).pages k.log }

/-! ### Exits -/

/-- `memory.virt_to_phys_raw`. -/
def virtToPhysRaw (virt : UInt64) : UInt64 := virt - kernelBase

/-- The pages that `destroy_fd_table` frees: the descriptors and the table. -/
def fdPages (k : Kernel) (slot : UInt64) : List UInt64 :=
  let fdTable := (k.procs.table slot).fdTable
  if fdTable == 0 then []
  else
    let objects := (List.range 16).map fun i => k.mem.read64 (fdTable + UInt64.ofNat i * 8)
    (objects.filter (· != 0)).map virtToPhysRaw ++ [virtToPhysRaw fdTable]

def destroyFdTable (k : Kernel) (slot : UInt64) : Kernel :=
  { k with
    procs := k.procs.modify slot fun b => { b with fdTable := 0 }
    log := freeAll (fdPages k slot) k.log }

/-- `process_exit` and `sys_entity_exit`. -/
def exitProcess (k : Kernel) (exitCode : UInt64) : Kernel :=
  let slot := k.procs.currentPid
  let k₁ := destroyRing (destroyFdTable k slot) slot
  { k₁ with procs := processExit k₁.procs exitCode }

def cleanupProcessSlot (p : Procs) (pid : UInt64) : Procs :=
  decCount ((setState p pid procZombie).modify pid fun b =>
    { b with
      userPml4 := 0
      kernelRsp := 0
      kernelStackBase := 0
      kernelStackTop := 0
      userEntry := 0
      userStackTop := 0
      brkBase := 0
      brkCurrent := 0
      mmapBase := 0
      vmaListHead := 0 })

/-- The page that `release_kernel_resources` frees. -/
def kernelStackPages (p : Procs) (pid : UInt64) : List UInt64 :=
  let kstackBase := (p.table pid).kernelStackBase
  if kstackBase != 0 then [kstackBase] else []

def keuosReclaim (k : Kernel) (pid : UInt64) : Kernel :=
  let k₁ := destroyRing k pid
  let swept := atomicPageSweep k₁.mem (k₁.procs.table pid).userPml4
  { k₁ with
    mem := swept.2
    procs := cleanupProcessSlot k₁.procs pid
    log := freeAll (swept.1 ++ kernelStackPages k₁.procs pid) k₁.log }

/-! ### Runs -/

/-- A call of `sys_ring_map`, an exit of the current process, a reclamation, or anything else that the
kernel and the processes do, with the pages that are allocated meanwhile. -/
inductive Op where
  | ringMap (capFlags : UInt64) (answers : List UInt64)
  | exit (exitCode : UInt64)
  | reclaim (pid : UInt64)
  | other (mem : Mem) (procs : Procs) (allocated : List UInt64)

def exec (k : Kernel) : Op → Kernel
  | .ringMap capFlags answers => (sysRingMap k capFlags answers).2
  | .exit exitCode => exitProcess k exitCode
  | .reclaim pid => keuosReclaim k pid
  | .other mem procs allocated =>
    { k with mem := mem, procs := procs, log := handAll .other allocated k.log }

/-- Before the first ring. -/
def Kernel.start (mem : Mem) (procs : Procs) : Kernel :=
  ⟨mem, procs, fun _ => RingEntry.zero, []⟩

end Keuos.Reclaim

/-!
## The counters of a reclamation

`SweepResult` of `kernel/mem/page_sweep.salt` and `pages_freed` of `ReclaimResult`
(`kernel/core/keuos_reclaim.salt`).  A sweep adds up the counters of the entries that it follows;
`pml4_entries_swept` and `total_bytes_freed`, which `keuos_reclaim` does not read, are left out.
-/

namespace Keuos.Reclaim

open Paging Process

/-- `pages_freed_4k` and `pages_freed_2m`. -/
structure Counts where
  pagesFreed4k : UInt64
  pagesFreed2m : UInt64
  deriving DecidableEq, Repr

def Counts.zero : Counts := ⟨0, 0⟩

def Counts.add (c d : Counts) : Counts :=
  ⟨c.pagesFreed4k + d.pagesFreed4k, c.pagesFreed2m + d.pagesFreed2m⟩

/-- The counters of the loop `sweepFrom`. -/
def sweepCountFrom (live : UInt64 → Bool) (act : UInt64 → Mem → List UInt64 × Mem)
    (count : UInt64 → Mem → Counts) (table : UInt64) : Nat → UInt64 → Mem → Counts
  | 0, _, _ => Counts.zero
  | n + 1, i, m =>
    let entry := m.read64 (entryAddr table i)
    if live entry then
      (count entry m).add
        (sweepCountFrom live act count table n (i + 1) ((act entry m).2.write64 (entryAddr table i) 0))
    else sweepCountFrom live act count table n (i + 1) m

/-- The counters of an entry above the last level, where a huge page counts as `huge` pages of 2 MB. -/
def countEntry (huge : UInt64) (below : Mem → UInt64 → Counts) (entry : UInt64) (m : Mem) : Counts :=
  if entry &&& ptePs != 0 then ⟨0, huge⟩ else (below m (entry &&& addrMask)).add ⟨1, 0⟩

/-- `sweep_pt`. -/
def countPt (m : Mem) (pt : UInt64) : Counts :=
  sweepCountFrom entryPresent (fun entry m => ([entry &&& addrMask], m)) (fun _ _ => ⟨1, 0⟩) pt
    pml4Entries 0 m

/-- `sweep_pd`. -/
def countPd (m : Mem) (pd : UInt64) : Counts :=
  sweepCountFrom entryPresent (sweepEntry sweepPt) (countEntry 1 countPt) pd pml4Entries 0 m

/-- `sweep_pdpt`. -/
def countPdpt (m : Mem) (pdpt : UInt64) : Counts :=
  sweepCountFrom entryPresent (sweepEntry sweepPd) (countEntry 512 countPd) pdpt pml4Entries 0 m

/-- `atomic_page_sweep`. -/
def countSweep (m : Mem) (pml4 : UInt64) : Counts :=
  if pml4 == 0 then Counts.zero
  else
    sweepCountFrom (fun entry => entryPresent entry && entry &&& pteUser != 0) (sweepEntry sweepPdpt)
      (countEntry 512 countPdpt) pml4 userEntries 0 m

/-- `pages_freed` of the result of `keuos_reclaim`. -/
def pagesFreed (k : Kernel) (pid : UInt64) : UInt64 :=
  let k₁ := destroyRing k pid
  let sweepResult := countSweep k₁.mem (k₁.procs.table pid).userPml4
  let kernelPages := if (k₁.procs.table pid).kernelStackBase != 0 then 1 else 0
  sweepResult.pagesFreed4k + sweepResult.pagesFreed2m * 512 + kernelPages

/-- The pages that `keuos_reclaim` passes to `pmm.free`, in order. -/
def freedPages (k : Kernel) (pid : UInt64) : List UInt64 :=
  (if (k.rings pid).active != 1 then [] else (k.rings pid).pages) ++
    ((atomicPageSweep k.mem (k.procs.table pid).userPml4).1 ++ kernelStackPages k.procs pid)

end Keuos.Reclaim
