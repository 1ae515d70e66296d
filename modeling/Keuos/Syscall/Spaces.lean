import Keuos.Lib.Ledger
import Keuos.Lib.Run
import Keuos.Paging.Defs
import Keuos.Process.Spawn
import Keuos.Syscall.Memory

/-!
# Shared memory

`sys_shm_grant` (`kernel/core/syscall_ipc.salt`) maps pages of the caller into another process.
`ring_shm_grant` (`kernel/core/ring_ops.salt`) does so for one page, from the submission queue.  The system
call marks the entries of both sides with `PTE_SHARED`, and the other function marks neither.
-/

namespace Keuos.Syscall

open Process Paging

def pteShared : UInt64 := 0x200

/-- `validate_shm_request`: whether it answers 0. -/
def validateShmRequest (p : Procs) (targetPid srcVaddr dstVaddr numPages : UInt64) : Bool :=
  if targetPid ≥ maxProcs then false
  else if p.state targetPid == procFree then false
  else if srcVaddr &&& 0xFFF != 0 || dstVaddr &&& 0xFFF != 0 then false
  else if numPages == 0 || numPages > 16 then false
  else
    let srcEnd := srcVaddr + numPages * pageSize
    let dstEnd := dstVaddr + numPages * pageSize
    if srcVaddr ≥ userAddrLimit || srcEnd > userAddrLimit then false
    else if dstVaddr ≥ userAddrLimit || dstEnd > userAddrLimit then false
    else if srcEnd < srcVaddr || dstEnd < dstVaddr then false
    else true

/-- `unmap_rollback`, from page `j` on. -/
def unmapRollbackFrom (targetPml4 dstVaddr : UInt64) : Nat → UInt64 → Mem → Mem
  | 0, _, m => m
  | n + 1, j, m =>
    unmapRollbackFrom targetPml4 dstVaddr n (j + 1)
      (unmapUserPage m targetPml4 (dstVaddr + j * pageSize)).2

def unmapRollback (m : Mem) (targetPml4 dstVaddr count : UInt64) : Mem :=
  unmapRollbackFrom targetPml4 dstVaddr count.toNat 0 m

/-- The flags of the target's entry, with the write permission of the source. -/
def grantFlags (base srcPte : UInt64) : UInt64 :=
  if srcPte &&& pteWrite != 0 then base ||| pteWrite else base

/-- The loop of `map_shm_pages`, from page `i` on: whether it answers 0. -/
def mapShmPagesFrom (srcPml4 targetPml4 srcVaddr dstVaddr : UInt64) : Nat → UInt64 → Vm → Bool × Vm
  | 0, _, vm => (true, vm)
  | n + 1, i, vm =>
    let currSrc := srcVaddr + i * pageSize
    let currDst := dstVaddr + i * pageSize
    let srcPte := getUserPte vm.mem srcPml4 currSrc
    if srcPte &&& ptePresent == 0 then
      (false, { vm with mem := unmapRollback vm.mem targetPml4 dstVaddr i })
    else
      let physFrame := srcPte &&& addrMask
      if getUserPte vm.mem targetPml4 currDst &&& ptePresent != 0 then
        (false, { vm with mem := unmapRollback vm.mem targetPml4 dstVaddr i })
      else
        let targetFlags := grantFlags (ptePresent ||| pteUser ||| pteShared) srcPte
        let newSrcFlags := (srcPte &&& 0xFFF) ||| pteShared
        let vm₁ := mapUserPage vm srcPml4 currSrc physFrame newSrcFlags
        let vm₂ := mapUserPage vm₁ targetPml4 currDst physFrame targetFlags
        mapShmPagesFrom srcPml4 targetPml4 srcVaddr dstVaddr n (i + 1) vm₂

def mapShmPages (vm : Vm) (srcPml4 targetPml4 srcVaddr dstVaddr numPages : UInt64) : Bool × Vm :=
  mapShmPagesFrom srcPml4 targetPml4 srcVaddr dstVaddr numPages.toNat 0 vm

def sysShmGrant (s : Machine) (targetPid srcVaddr dstVaddr numPages : UInt64) : UInt64 × Machine :=
  if !validateShmRequest s.procs targetPid srcVaddr dstVaddr numPages then (0 - 1, s)
  else
    let sender := s.procs.currentPid
    let srcPml4 := (s.procs.table sender).userPml4
    let targetPml4 := (s.procs.table targetPid).userPml4
    if srcPml4 == 0 || targetPml4 == 0 then (0 - 1, s)
    else
      let r := mapShmPages s.vm srcPml4 targetPml4 srcVaddr dstVaddr numPages
      (if r.1 then 0 else 0 - 1, { s with vm := r.2 })

def ringShmGrant (s : Machine) (slot targetPid srcVaddr dstVaddr : UInt64) : UInt64 × Machine :=
  if targetPid ≥ 16 then (0 - 1, s)
  else if s.procs.state targetPid == procFree then (0 - 1, s)
  else if srcVaddr &&& 0xFFF != 0 || dstVaddr &&& 0xFFF != 0 then (0 - 1, s)
  else if srcVaddr ≥ userAddrLimit || dstVaddr ≥ userAddrLimit then (0 - 1, s)
  else
    let srcEnd := srcVaddr + pageSize
    let dstEnd := dstVaddr + pageSize
    if srcEnd > userAddrLimit || dstEnd > userAddrLimit then (0 - 1, s)
    else
      let srcPml4 := (s.procs.table slot).userPml4
      if srcPml4 == 0 then (0 - 1, s)
      else
        let targetPml4 := (s.procs.table targetPid).userPml4
        if targetPml4 == 0 then (0 - 1, s)
        else
          let srcPte := getUserPte s.vm.mem srcPml4 srcVaddr
          if srcPte &&& ptePresent == 0 then (0 - 1, s)
          else
            let physFrame := srcPte &&& addrMask
            if getUserPte s.vm.mem targetPml4 dstVaddr &&& ptePresent != 0 then (0 - 1, s)
            else
              let targetFlags := grantFlags (ptePresent ||| pteUser) srcPte
              (0, { s with vm := mapUserPage s.vm targetPml4 dstVaddr physFrame targetFlags })

end Keuos.Syscall

/-!
## Address spaces that share pages

Address spaces are created, pages are mapped into them and shared between them, and they are destroyed.
The state has the page tables of the address spaces that live, and a ledger of the calls of `pmm.alloc`
and `pmm.free`.  `pmm.free` stores a link in the page that it is given; as that page is no table of an
address space that lives, the store is a careful step `other` (`Spaces.Sound.careful_links`).
-/

namespace Keuos.Syscall

open Process Paging Ledger
open Spawn (createUserPml4)

/-- For whom a page was allocated: as a table or page of an address space, or for something else. -/
inductive Holder where
  | space
  | other
  deriving DecidableEq, Repr

/-- The process table, the memory, the page tables of the address spaces that live, and the ledger. -/
structure Spaces where
  procs : Procs
  mem : Mem
  live : List UInt64
  log : List (Entry Holder UInt64)

/-- `create_user_pml4`; a page of one's own for an address, with `map_user_page`; the two versions of a
grant; `paging_destroy.destroy_user_pml4`; and anything else that the kernel and the processes do.  The
answers are those of `pmm.alloc` during the call. -/
inductive SpaceOp where
  | create (kernelPml4 : UInt64) (answers : List UInt64)
  | map (root vaddr flags : UInt64) (answers : List UInt64)
  | shmGrant (targetPid srcVaddr dstVaddr numPages : UInt64) (answers : List UInt64)
  | ringGrant (slot targetPid srcVaddr dstVaddr : UInt64) (answers : List UInt64)
  | destroy (root : UInt64)
  | other (mem : Mem) (procs : Procs) (allocated : List UInt64)

/-- The state after a call that went from the answers `before` to `after`. -/
def Spaces.after (s : Spaces) (before after : Vm) : Spaces :=
  { s with mem := after.mem, log := handAll .space (handedOut before after) s.log }

/-- A new page at an address. -/
def mapNewPage (vm : Vm) (root vaddr flags : UInt64) : Vm :=
  let frame := vm.alloc
  if frame.1 == 0 then frame.2 else mapUserPage frame.2 root vaddr frame.1 flags

def Spaces.exec (s : Spaces) : SpaceOp → Spaces
  | .create kernelPml4 answers =>
    let r := createUserPml4 ⟨s.mem, answers⟩ kernelPml4
    let s₁ := s.after ⟨s.mem, answers⟩ r.2
    if r.1 == 0 then s₁ else { s₁ with live := r.1 :: s.live }
  | .map root vaddr flags answers =>
    s.after ⟨s.mem, answers⟩ (mapNewPage ⟨s.mem, answers⟩ root vaddr flags)
  | .shmGrant targetPid srcVaddr dstVaddr numPages answers =>
    s.after ⟨s.mem, answers⟩
      (sysShmGrant ⟨s.procs, ⟨s.mem, answers⟩⟩ targetPid srcVaddr dstVaddr numPages).2.vm
  | .ringGrant slot targetPid srcVaddr dstVaddr answers =>
    s.after ⟨s.mem, answers⟩
      (ringShmGrant ⟨s.procs, ⟨s.mem, answers⟩⟩ slot targetPid srcVaddr dstVaddr).2.vm
  | .destroy root =>
    { s with
      live := s.live.filter (· != root)
      log := freeAll (destroyUserPml4 s.mem root) s.log }
  | .other mem procs allocated =>
    { s with mem := mem, procs := procs, log := handAll .other allocated s.log }

/-- Before the first address space. -/
def Spaces.start (mem : Mem) (procs : Procs) : Spaces := ⟨procs, mem, [], []⟩

end Keuos.Syscall
