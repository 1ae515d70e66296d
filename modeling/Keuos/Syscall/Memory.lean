import Keuos.Paging.Defs
import Keuos.Process.Lifecycle
import Keuos.Serial.Defs

/-!
# Memory for a process

`sys_brk` and `sys_mmap` (`kernel/core/syscall_sched.salt`), and `ring_brk` and `ring_mmap`
(`kernel/core/ring_ops.salt`), which run the same requests from the submission queue of a process.

The cache of the areas (`slab_cache.alloc`) is a parameter: it returns the address of a free object, or
0, and may change the memory.
-/

namespace Keuos.Syscall

open Process Paging

/-- The process table and the memory. -/
structure Machine where
  procs : Procs
  vm : Vm

def userPageFlags : UInt64 := 0x7

def pageSize : UInt64 := 4096

/-- The end of the page that an address lies in, or the address itself if it starts a page. -/
def pageEnd (addr : UInt64) : UInt64 :=
  (addr + 0xFFF) &&& 0xFFFFFFFFFFFFF000

/-- The loop that all four share: every page from `cursor` to `stop` gets a new frame.  It ends early,
and answers `false`, when `pmm.alloc` fails. -/
def mapFreshFrom (pml4 stop : UInt64) : Nat → UInt64 → Vm → Bool × Vm
  | 0, _, vm => (true, vm)
  | n + 1, cursor, vm =>
    if cursor < stop then
      let frame := vm.alloc
      if frame.1 == 0 then (false, frame.2)
      else mapFreshFrom pml4 stop n (cursor + pageSize)
        (mapUserPage frame.2 pml4 cursor frame.1 userPageFlags)
    else (true, vm)

/-- The loop; `stop - start` is a number of whole pages. -/
def mapFresh (vm : Vm) (pml4 start stop : UInt64) : Bool × Vm :=
  mapFreshFrom pml4 stop ((stop.toNat - start.toNat) / 4096) start vm

/-! ### The heap -/

def sysBrk (s : Machine) (newBrk : UInt64) : UInt64 × Machine :=
  let pid := s.procs.currentPid
  let currentBrk := (s.procs.table pid).brkCurrent
  let brkBase := (s.procs.table pid).brkBase
  if newBrk == 0 then (currentBrk, s)
  else if newBrk < brkBase then (currentBrk, s)
  else
    let currentPageEnd := pageEnd currentBrk
    let newPageEnd := pageEnd newBrk
    let r := if newPageEnd > currentPageEnd then
        mapFresh s.vm (s.procs.table pid).userPml4 currentPageEnd newPageEnd
      else (true, s.vm)
    if !r.1 then (currentBrk, { s with vm := r.2 })
    else (newBrk, ⟨s.procs.modify pid fun b => { b with brkCurrent := newBrk }, r.2⟩)

def ringBrk (s : Machine) (slot newBrk : UInt64) : UInt64 × Machine :=
  let currentBrk := (s.procs.table slot).brkCurrent
  let brkBase := (s.procs.table slot).brkBase
  if newBrk == 0 then (currentBrk, s)
  else if newBrk < brkBase then (currentBrk, s)
  else
    let currentPageEnd := pageEnd currentBrk
    let newPageEnd := pageEnd newBrk
    let r := if newPageEnd > currentPageEnd then
        mapFresh s.vm (s.procs.table slot).userPml4 currentPageEnd newPageEnd
      else (true, s.vm)
    if !r.1 then (currentBrk, { s with vm := r.2 })
    else (newBrk, ⟨s.procs.modify slot fun b => { b with brkCurrent := newBrk }, r.2⟩)

/-! ### Mappings -/

/-- `vma.alloc` (`kernel/core/vma.salt`). -/
def vmaAlloc (slabAlloc : Vm → UInt64 × Vm) (vm : Vm) (start stop flags : UInt64) : UInt64 × Vm :=
  let ptr := slabAlloc vm
  if ptr.1 == 0 then (0, ptr.2)
  else
    (ptr.1, { ptr.2 with
      mem := (((ptr.2.mem.write64 ptr.1 start).write64 (ptr.1 + 8) stop).write64 (ptr.1 + 16)
        flags).write64 (ptr.1 + 24) 0 })

def sysMmap (slabAlloc : Vm → UInt64 × Vm) (s : Machine) (length prot : UInt64) : UInt64 × Machine :=
  let pid := s.procs.currentPid
  let alignedLength := pageEnd length
  if alignedLength == 0 then (0, s)
  else
    let startVaddr := (s.procs.table pid).mmapBase
    let endVaddr := startVaddr + alignedLength
    let vma := vmaAlloc slabAlloc s.vm startVaddr endVaddr prot
    if vma.1 == 0 then (0, { s with vm := vma.2 })
    else
      let r := mapFresh vma.2 (s.procs.table pid).userPml4 startVaddr endVaddr
      if !r.1 then (0, { s with vm := r.2 })
      else
        let p := s.procs.modify pid fun b => { b with mmapBase := endVaddr }
        let currentHead := (p.table pid).vmaListHead
        let vm := { r.2 with mem := r.2.mem.write64 (vma.1 + 24) currentHead }
        (startVaddr, ⟨p.modify pid fun b => { b with vmaListHead := vma.1 }, vm⟩)

def ringMmap (slabAlloc : Vm → UInt64 × Vm) (s : Machine) (slot length prot : UInt64) :
    UInt64 × Machine :=
  let alignedLength := pageEnd length
  if alignedLength == 0 then (0, s)
  else
    let startVaddr := (s.procs.table slot).mmapBase
    let endVaddr := startVaddr + alignedLength
    let vma := vmaAlloc slabAlloc s.vm startVaddr endVaddr prot
    if vma.1 == 0 then (0, { s with vm := vma.2 })
    else
      let r := mapFresh vma.2 (s.procs.table slot).userPml4 startVaddr endVaddr
      if !r.1 then (0, { s with vm := r.2 })
      else
        let p := s.procs.modify slot fun b => { b with mmapBase := endVaddr }
        let currentHead := (p.table slot).vmaListHead
        let vm := { r.2 with mem := r.2.mem.write64 (vma.1 + 24) currentHead }
        (startVaddr, ⟨p.modify slot fun b => { b with vmaListHead := vma.1 }, vm⟩)

end Keuos.Syscall

/-!
## Copies between the kernel and a process

`copy_from_user`, `copy_to_user` and `sys_read` (`kernel/core/syscall_io.salt`).  The two copies go through
the page tables of the running process, page by page; `page` in their common loop is what a round finds out
about its page: the physical address, or nothing if the copy must stop.

The `read_op` of an inode is a parameter: it returns a count or an error, and may change the memory.  When
the buffer of a read is given back to the allocator, nothing is recorded.
-/

namespace Keuos.Syscall

open Process Paging
open Pmm (physToVirt)
open Serial (isValidUserPtr)

/-- The innermost loop, with `n` bytes left. -/
def copyBytes (dst src : UInt64) : Nat → UInt64 → Mem → Mem
  | 0, _, m => m
  | n + 1, i, m => copyBytes dst src n (i + 1) (m.write8 (dst + i) (m (src + i)))

/-- The loop over the pages, with `n` rounds left; `copy` is the innermost loop, from or to `current`.  The
result is `false` when a page stops it. -/
def copyPages (page : Mem → UInt64 → Option UInt64) (copy : UInt64 → UInt64 → UInt64 → Mem → Mem) :
    Nat → UInt64 → UInt64 → UInt64 → Mem → Bool × Mem
  | 0, _, _, _, m => (true, m)
  | n + 1, currentVa, current, remaining, m =>
    if remaining == 0 then (true, m)
    else
      match page m currentVa with
      | none => (false, m)
      | some phys =>
        let offsetInPage := currentVa &&& 0xFFF
        let bytesToPageEnd := pageSize - offsetInPage
        let chunkSize := if remaining > bytesToPageEnd then bytesToPageEnd else remaining
        copyPages page copy n (currentVa + chunkSize) (current + chunkSize) (remaining - chunkSize)
          (copy (physToVirt phys) current chunkSize m)

/-- A page that `copy_from_user` reads. -/
def readablePage (userPml4 : UInt64) (m : Mem) (currentVa : UInt64) : Option UInt64 :=
  let phys := translateUserAddr m userPml4 currentVa
  if phys == 0 then none else some phys

/-- A page that `copy_to_user` writes. -/
def writablePage (userPml4 : UInt64) (m : Mem) (currentVa : UInt64) : Option UInt64 :=
  let phys := translateUserAddr m userPml4 currentVa
  if phys == 0 then none
  else
    let pte := getUserPte m userPml4 currentVa
    if pte &&& 2 == 0 then none else some phys

def Machine.withMem (s : Machine) (m : Mem) : Machine :=
  { s with vm := { s.vm with mem := m } }

def copyFromUser (s : Machine) (dstKern srcUser len : UInt64) : Int64 × Machine :=
  if !isValidUserPtr srcUser len then (-1, s)
  else
    let userPml4 := (s.procs.table s.procs.currentPid).userPml4
    let r := copyPages (readablePage userPml4)
      (fun kernPtr dstPtr chunkSize => copyBytes dstPtr kernPtr chunkSize.toNat 0)
      len.toNat srcUser dstKern len s.vm.mem
    (if r.1 then len.toInt64 else -1, s.withMem r.2)

def copyToUser (s : Machine) (dstUser srcKern len : UInt64) : Int64 × Machine :=
  if !isValidUserPtr dstUser len then (-1, s)
  else
    let userPml4 := (s.procs.table s.procs.currentPid).userPml4
    let r := copyPages (writablePage userPml4)
      (fun kernPtr srcPtr chunkSize => copyBytes kernPtr srcPtr chunkSize.toNat 0)
      len.toNat dstUser srcKern len s.vm.mem
    (if r.1 then len.toInt64 else -1, s.withMem r.2)

/-- How many bytes `copy_to_user` stores: none in a range that is not the process's own, else those before the
first address that is not writable. -/
def userRoom (writable : UInt64 → Bool) (dstUser len : UInt64) : Nat :=
  if isValidUserPtr dstUser len then
    ((List.range len.toNat).takeWhile fun i => writable (dstUser + UInt64.ofNat i)).length
  else 0

end Keuos.Syscall
