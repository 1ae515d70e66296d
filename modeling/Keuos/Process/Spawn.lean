import Keuos.Paging.Defs
import Keuos.Process.Lifecycle
import Keuos.Serial.Defs

/-!
# Loading a process

`spawn_process` (`kernel/core/exec_user.salt`) loads an ELF image from memory, and
`spawn_process_from_inode` (`kernel/core/spawn_inode.salt`) one from a file.  Both take a slot first, and
return `MAX_PROCS` at the first error.  The answers of `pmm.alloc` are given as a list, as in `Vm`, and
the pages that were passed to `pmm.free` are recorded.

`destroy_user_pml4` of `kernel/mem/user_paging.salt` does nothing, so it does not appear.  The addresses
of the linker, the base of the per-CPU data, the new entity and the read function of the file are
parameters.
-/

namespace Keuos.Spawn

open Process Paging
open Pmm (physToVirt)

/-- What the loaders find in their surroundings: the trampoline data, the per-CPU data of this core, the
address to which a new process returns, and the entity that is made for it. -/
structure Env where
  trampolineDataStart : UInt64
  trampolineDataEnd : UInt64
  gsBase : UInt64
  procTrampoline : UInt64
  entity : UInt64

/-- The process table, the memory with the answers of `pmm.alloc`, and the pages that were freed. -/
structure Loader where
  procs : Procs
  vm : Vm
  freed : List UInt64

/-- `pmm.free`. -/
def Loader.free (s : Loader) (page : UInt64) : Loader :=
  { s with freed := s.freed ++ [page] }

def userStackTop : UInt64 := 0x7FFFFFFFE000
def userStackSize : UInt64 := 0x4000
def userPageFlags : UInt64 := 0x7
def pageSize : UInt64 := 4096
def kstackSize : UInt64 := 4096

def ptLoad : UInt64 := 1

/-- A load of 16 or 32 bits. -/
def read16 (m : Mem) (a : UInt64) : UInt64 := m.read64 a &&& 0xFFFF
def read32 (m : Mem) (a : UInt64) : UInt64 := m.read64 a &&& 0xFFFFFFFF

/-- `virt_to_phys_raw`. -/
def virtToPhys (virt : UInt64) : UInt64 := virt - Pmm.kernelBase

/-! ### Parts of a process -/

/-- `validate_elf_inline`: the magic number. -/
def validateElf (m : Mem) (base : UInt64) : Bool :=
  m base == 0x7F && m (base + 1) == 69 && m (base + 2) == 76 && m (base + 3) == 70

/-- `alloc_kernel_stack`: one page. -/
def allocKernelStack (vm : Vm) : UInt64 × Vm :=
  let page := vm.alloc
  if page.1 == 0 then (0, page.2)
  else (page.1, { page.2 with mem := zeroPage page.2.mem page.1 })

/-- The second loop of `create_user_pml4`. -/
def copyKernelHalf (kernVirt userVirt : UInt64) : Nat → UInt64 → Mem → Mem
  | 0, _, m => m
  | n + 1, i, m =>
    copyKernelHalf kernVirt userVirt n (i + 1)
      (m.write64 (userVirt + i * 8) (m.read64 (kernVirt + i * 8)))

def createUserPml4 (vm : Vm) (kernelPml4 : UInt64) : UInt64 × Vm :=
  let page := vm.alloc
  if page.1 == 0 then (0, page.2)
  else
    let m := zeroPage page.2.mem page.1
    (page.1, { page.2 with
      mem := copyKernelHalf (physToVirt kernelPml4) (physToVirt page.1) 256 256 m })

/-- Supervisor pages from `vaddr` to `stop`, at their physical addresses. -/
def mapSupervisorFrom (pml4 stop : UInt64) : Nat → UInt64 → Vm → Vm
  | 0, _, vm => vm
  | n + 1, vaddr, vm =>
    if vaddr < stop then
      mapSupervisorFrom pml4 stop n (vaddr + pageSize)
        (mapKptiPage vm pml4 vaddr (virtToPhys vaddr) (ptePresent ||| pteWrite))
    else vm

def mapKptiMinimal (env : Env) (vm : Vm) (pml4 : UInt64) : Vm :=
  let pages := (env.trampolineDataEnd.toNat - env.trampolineDataStart.toNat + 4095) / 4096
  let vm₁ := mapSupervisorFrom pml4 env.trampolineDataEnd pages env.trampolineDataStart vm
  let percpu := env.gsBase &&& 0xFFFFFFFFFFFFF000
  if percpu != 0 then mapKptiPage vm₁ pml4 percpu (virtToPhys percpu) (ptePresent ||| pteWrite)
  else vm₁

/-! ### Segments -/

/-- The fields of a program header that the loaders read. -/
structure Phdr where
  type : UInt64
  offset : UInt64
  vaddr : UInt64
  filesz : UInt64
  memsz : UInt64
deriving DecidableEq

def readPhdr (m : Mem) (addr : UInt64) : Phdr where
  type := read32 m addr
  offset := m.read64 (addr + 8)
  vaddr := m.read64 (addr + 16)
  filesz := m.read64 (addr + 32)
  memsz := m.read64 (addr + 40)

/-- The bytes of a page that come from the file: their first address and the one after the last. -/
def fileRange (h : Phdr) (curPage : UInt64) : UInt64 × UInt64 :=
  let segEnd := h.vaddr + h.memsz
  let dataStart := if curPage < h.vaddr then h.vaddr else curPage
  let dataEnd := if curPage + pageSize > segEnd then segEnd else curPage + pageSize
  let fileEnd := h.vaddr + h.filesz
  (dataStart, if dataEnd > fileEnd then fileEnd else dataEnd)

/-- Where the bytes of a segment come from: `fetch offset dst len` stores `len` bytes of the file from
`offset` on at `dst`. -/
abbrev Fetch := (offset dst len : UInt64) → Mem → Mem

/-- The pages of a segment, from `curPage` on. -/
def loadPagesFrom (fetch : Fetch) (h : Phdr) (pml4 : UInt64) : Nat → UInt64 → Vm → Vm
  | 0, _, vm => vm
  | n + 1, curPage, vm =>
    if curPage < h.vaddr + h.memsz then
      let page := vm.alloc
      let m₁ := zeroPage page.2.mem page.1
      let range := fileRange h curPage
      let m₂ := if range.2 > range.1 then
          fetch (h.offset + (range.1 - h.vaddr)) (physToVirt page.1 + (range.1 - curPage))
            (range.2 - range.1) m₁
        else m₁
      loadPagesFrom fetch h pml4 n (curPage + pageSize)
        (mapUserPage { page.2 with mem := m₂ } pml4 curPage page.1 userPageFlags)
    else vm

/-- `copy_segment_data`, and the same loop of `spawn_process_from_inode`. -/
def loadPages (fetch : Fetch) (h : Phdr) (pml4 : UInt64) (vm : Vm) : Vm :=
  let pageStart := h.vaddr &&& 0xFFFFFFFFFFFFF000
  loadPagesFrom fetch h pml4 (((h.vaddr + h.memsz).toNat - pageStart.toNat + 4095) / 4096) pageStart vm

/-- The loop over the program headers.  `ok` is the check of a segment to load.  The answer is whether
every segment passed, with the highest end of a segment. -/
def loadSegmentsFrom (fetch : Fetch) (ok : Phdr → Bool) (phdrs phentsize pml4 : UInt64) :
    Nat → UInt64 → UInt64 → Vm → Bool × UInt64 × Vm
  | 0, _, highest, vm => (true, highest, vm)
  | n + 1, i, highest, vm =>
    let h := readPhdr vm.mem (phdrs + i * phentsize)
    if h.type == ptLoad then
      if !ok h then (false, highest, vm)
      else
        let segmentEnd := h.vaddr + h.memsz
        let highest := if segmentEnd > highest then segmentEnd else highest
        loadSegmentsFrom fetch ok phdrs phentsize pml4 n (i + 1) highest (loadPages fetch h pml4 vm)
    else loadSegmentsFrom fetch ok phdrs phentsize pml4 n (i + 1) highest vm

/-! ### Stacks -/

/-- The pages of the user stack, from an offset on.  With `checked` the loop ends when `pmm.alloc`
fails. -/
def userStackFrom (checked : Bool) (pml4 : UInt64) : Nat → UInt64 → Vm → Vm
  | 0, _, vm => vm
  | n + 1, offset, vm =>
    let page := vm.alloc
    if checked && page.1 == 0 then page.2
    else
      let vm₁ := { page.2 with mem := zeroPage page.2.mem page.1 }
      userStackFrom checked pml4 n (offset + pageSize)
        (mapUserPage vm₁ pml4 (userStackTop - userStackSize + offset) page.1 userPageFlags)

/-- The frame from which a new process starts: `setup_kernel_stack`. -/
def setupKernelStack (env : Env) (m : Mem) (top rsp entry : UInt64) : Mem :=
  (((((((((((m.write64 (top - 8) 0x23).write64 (top - 16) rsp).write64 (top - 24) 0x202).write64
    (top - 32) 0x2B).write64 (top - 40) entry).write64 (top - 48) env.procTrampoline).write64
    (top - 56) 0).write64 (top - 64) 0).write64 (top - 72) 0).write64 (top - 80) 0).write64
    (top - 88) 0).write64 (top - 96) 0

/-- `map_kernel_stack`: one page. -/
def mapKernelStack (vm : Vm) (pml4 kstackBase : UInt64) : Vm :=
  if kstackBase < kstackBase + kstackSize then
    mapKptiPage vm pml4 (physToVirt kstackBase) kstackBase (ptePresent ||| pteWrite)
  else vm

/-- The entries of the process table that both loaders make at the end. -/
def register (p : Procs) (slot pml4 kstackBase entry ustackTop highest : UInt64) : Procs :=
  let top := physToVirt (kstackBase + kstackSize)
  let heap := (highest + 0xFFF) &&& 0xFFFFFFFFFFFFF000
  let p₁ := initSlot p slot pml4 (physToVirt kstackBase) top entry ustackTop 0
  p₁.modify slot fun b =>
    { b with
      kernelRsp := top - 96
      brkBase := heap
      brkCurrent := heap
      mmapBase := 0x400000000000
      vmaListHead := 0 }

/-! ### The loaders -/

/-- The fields of the ELF header that the loaders read. -/
structure Header where
  entry : UInt64
  phoff : UInt64
  phentsize : UInt64
  phnum : UInt64

def readHeader (m : Mem) (base : UInt64) : Header where
  entry := m.read64 (base + 24)
  phoff := m.read64 (base + 32)
  phentsize := read16 m (base + 54)
  phnum := read16 m (base + 56)

/-- Whether the program headers lie in the first `limit` bytes. -/
def phdrsInBounds (h : Header) (limit : UInt64) : Bool :=
  let size := h.phnum * h.phentsize
  !(h.phoff > limit || h.phoff + size > limit)

/-- The check of a segment in `spawn_process`. -/
def segmentOk (h : Phdr) : Bool :=
  let segmentEnd := h.vaddr + h.memsz
  !(segmentEnd < h.vaddr || segmentEnd ≥ userAddrLimit || h.filesz > h.memsz || h.offset > pageSize ||
    h.offset + h.filesz > pageSize)

/-- The checks of a segment in `spawn_process_from_inode`. -/
def inodeSegmentOk (h : Phdr) : Bool :=
  let segmentEnd := h.vaddr + h.memsz
  !(segmentEnd < h.vaddr || segmentEnd ≥ userAddrLimit) && !(h.filesz > h.memsz)

/-- The copy of bytes from an image in memory, one after the other. -/
def copyBytes (src dst : UInt64) : Nat → Mem → Mem
  | 0, m => m
  | n + 1, m => copyBytes (src + 1) (dst + 1) n (m.write8 dst (m src))

/-- An image in memory. -/
def fetchImage (elfBase : UInt64) : Fetch := fun offset dst len m =>
  copyBytes (elfBase + offset) dst len.toNat m

/-- An image with an accepted header, and what the two loaders do differently. -/
structure Image where
  base : UInt64
  header : Header
  /-- The bytes among which the program headers must lie. -/
  size : UInt64
  fetch : Fetch
  ok : Phdr → Bool
  /-- The pages that the loader frees whenever it returns. -/
  pages : List UInt64
  /-- What is mapped before the segments. -/
  prepare : Vm → UInt64 → Vm
  /-- The user stack ends when `pmm.alloc` fails. -/
  checkedStack : Bool
  rsp : UInt64
  ustackTop : UInt64
  entity : Option UInt64

/-- An error exit, which frees `pages`. -/
def fail (s : Loader) (pages : List UInt64) : UInt64 × Loader :=
  (maxProcs, pages.foldl Loader.free s)

def loadSegments (image : Image) (pml4 : UInt64) (vm : Vm) : Bool × UInt64 × Vm :=
  loadSegmentsFrom image.fetch image.ok (image.base + image.header.phoff) image.header.phentsize pml4
    image.header.phnum.toNat 0 0 vm

/-- The loaders after the segments: the stacks, and the entries of the process table. -/
def finish (env : Env) (s : Loader) (image : Image) (slot kstack pml4 : UInt64)
    (loaded : Bool × UInt64 × Vm) : UInt64 × Loader :=
  if !loaded.1 then fail { s with vm := loaded.2.2 } (kstack :: image.pages)
  else
    let entry := image.header.entry
    let vm := userStackFrom image.checkedStack pml4 4 0 loaded.2.2
    let m := setupKernelStack env vm.mem (physToVirt (kstack + kstackSize)) image.rsp entry
    let p := register s.procs slot pml4 kstack entry image.ustackTop loaded.2.1
    let p := match image.entity with
      | some entity => p.modify slot fun b => { b with ecsEntityVal := entity }
      | none => p
    let s := { s with vm := mapKernelStack { vm with mem := m } pml4 kstack, procs := p }
    (slot, image.pages.foldl Loader.free s)

/-- The loaders with a kernel stack: the page tables and the segments. -/
def loadTables (env : Env) (s : Loader) (image : Image) (slot kstack kernelPml4 : UInt64) :
    UInt64 × Loader :=
  let pml4 := createUserPml4 s.vm kernelPml4
  if pml4.1 == 0 then fail { s with vm := pml4.2 } (kstack :: image.pages)
  else
    let vm := image.prepare pml4.2 pml4.1
    if !phdrsInBounds image.header image.size then fail { s with vm := vm } (kstack :: image.pages)
    else finish env s image slot kstack pml4.1 (loadSegments image pml4.1 vm)

/-- The loaders with a slot. -/
def load (env : Env) (s : Loader) (image : Image) (slot kernelPml4 : UInt64) : UInt64 × Loader :=
  let kstack := allocKernelStack s.vm
  if kstack.1 == 0 then fail { s with vm := kstack.2 } image.pages
  else loadTables env { s with vm := kstack.2 } image slot kstack.1 kernelPml4

/-- The loaders with an accepted header: a slot is taken. -/
def takeSlot (env : Env) (s : Loader) (image : Image) (kernelPml4 : UInt64) : UInt64 × Loader :=
  let pid := allocPid s.procs
  if pid.1 ≥ maxProcs then fail { s with procs := pid.2 } image.pages
  else load env { s with procs := pid.2 } image pid.1 kernelPml4

/-- The image of `spawn_process`. -/
def memoryImage (env : Env) (m : Mem) (elfBase : UInt64) : Image where
  base := elfBase
  header := readHeader m elfBase
  size := pageSize
  fetch := fetchImage elfBase
  ok := segmentOk
  pages := []
  prepare := mapKptiMinimal env
  checkedStack := true
  rsp := userStackTop - 8
  ustackTop := userStackTop
  entity := some env.entity

def spawnProcess (env : Env) (s : Loader) (elfBase kernelPml4 : UInt64) : UInt64 × Loader :=
  if !validateElf s.vm.mem elfBase then fail s []
  else takeSlot env s (memoryImage env s.vm.mem elfBase) kernelPml4

/-- `read_op`, which answers the number of bytes that were read or a negative number, and the memory. -/
abbrev ReadOp := (offset dst len : UInt64) → Mem → Int64 × Mem

/-- The image of `spawn_process_from_inode`, with the page of the header. -/
def inodeImage (read : ReadOp) (m : Mem) (page : UInt64) (readCount : Int64) : Image where
  base := physToVirt page
  header := readHeader m (physToVirt page)
  size := readCount.toUInt64
  fetch := fun offset dst len m => (read offset dst len m).2
  ok := inodeSegmentOk
  pages := [page]
  prepare := fun vm _ => vm
  checkedStack := false
  rsp := userStackTop - 16
  ustackTop := userStackTop - 16
  entity := none

def spawnProcessFromInode (env : Env) (read : ReadOp) (s : Loader) (kernelPml4 : UInt64) :
    UInt64 × Loader :=
  let page := s.vm.alloc
  let header := read 0 (physToVirt page.1) 4096 page.2.mem
  let s := { s with vm := { page.2 with mem := header.2 } }
  if header.1 < 64 then fail s [page.1]
  else if !validateElf header.2 (physToVirt page.1) then fail s [page.1]
  else takeSlot env s (inodeImage read header.2 page.1 header.1) kernelPml4

end Keuos.Spawn

/-!
## Spawning from a manifest

`ring_spawn` (`kernel/core/ring_ops.salt`): a manifest of two words in the caller's memory names the image of
the new process and its namespaces.  `ringSpawnCall` is the part of the function up to its call of
`spawn_process`.
-/

namespace Keuos.Spawn

open Process Paging
open Pmm (physToVirt)
open Serial (isValidUserPtr)

/-- How far `ring_spawn` comes: it does not read the manifest, it refuses the image that the manifest names,
or it calls `spawn_process` with an address of the kernel. -/
inductive SpawnCall where
  | unread
  | refused (elfVaddr namespaceFlags : UInt64)
  | spawns (elfVaddr namespaceFlags elfKernVa : UInt64)
  deriving DecidableEq, Repr

/-- `ring_spawn` up to the call of `spawn_process`. -/
def ringSpawnCall (m : Mem) (userPml4 manifestVaddr : UInt64) : SpawnCall :=
  if !isValidUserPtr manifestVaddr 16 then .unread
  else
    let phys := translateUserAddr m userPml4 manifestVaddr
    if phys == 0 then .unread
    else
      let kernVa := physToVirt phys + (manifestVaddr &&& 0xFFF)
      let elfVaddr := m.read64 kernVa
      let namespaceFlags := m.read64 (kernVa + 8)
      if !isValidUserPtr elfVaddr 1 then .refused elfVaddr namespaceFlags
      else
        let elfPhys := translateUserAddr m userPml4 elfVaddr
        if elfPhys == 0 then .refused elfVaddr namespaceFlags
        else .spawns elfVaddr namespaceFlags (physToVirt elfPhys + (elfVaddr &&& 0xFFF))

end Keuos.Spawn
