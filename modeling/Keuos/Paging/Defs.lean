import Keuos.Lib.Memory
import Keuos.Pmm.Defs

/-!
# User page tables

The four-level page tables of `kernel/mem/user_paging.salt`, with `unmap_user_page` of
`kernel/mem/paging_destroy.salt`.  A table is a page of 512 entries, which the kernel reaches through
its direct map of the physical memory.

`pmm.alloc` is called for new tables.  The model is given its answers, 0 for a failure, as a list.
-/

namespace Keuos.Paging

open Pmm (physToVirt)

/-- `ADDR_MASK`: the address bits of an entry. -/
def addrMask : UInt64 := 0x000FFFFFFFFFF000

def indexMask : UInt64 := 0x1FF

def ptePresent : UInt64 := 0x1
def pteWrite : UInt64 := 0x2
def pteUser : UInt64 := 0x4
def ptePs : UInt64 := 0x80

/-- The end of the user half. -/
def userAddrLimit : UInt64 := 0x0000800000000000

def pml4Index (vaddr : UInt64) : UInt64 := (vaddr >>> 39) &&& indexMask
def pdpIndex (vaddr : UInt64) : UInt64 := (vaddr >>> 30) &&& indexMask
def pdIndex (vaddr : UInt64) : UInt64 := (vaddr >>> 21) &&& indexMask
def ptIndex (vaddr : UInt64) : UInt64 := (vaddr >>> 12) &&& indexMask

/-- The address of an entry of the table at a physical address. -/
def entryAddr (table index : UInt64) : UInt64 :=
  physToVirt table + index * 8

/-- The memory, and the answers that `pmm.alloc` will give. -/
structure Vm where
  mem : Mem
  answers : List UInt64

/-- `pmm.alloc`. -/
def Vm.alloc (s : Vm) : UInt64 × Vm :=
  match s.answers with
  | [] => (0, s)
  | a :: answers => (a, { s with answers := answers })

/-- The pages that `pmm.alloc` has handed out between two states. -/
def handedOut (before after : Vm) : List UInt64 :=
  (before.answers.take (before.answers.length - after.answers.length)).filter (· != 0)

def zeroPage (m : Mem) (phys : UInt64) : Mem :=
  m.fill 0 4096 (physToVirt phys)

/-- `walk_or_create`: the table one level down, or 0. -/
def walkOrCreate (s : Vm) (table index flags : UInt64) : UInt64 × Vm :=
  let entry := s.mem.read64 (entryAddr table index)
  let allowedFlags := flags &&& (pteUser ||| pteWrite)
  if entry &&& ptePresent != 0 then
    if entry &&& ptePs != 0 then (0, s)
    else
      let currentFlags := entry &&& (pteUser ||| pteWrite)
      if (currentFlags ||| allowedFlags) != currentFlags then
        (entry &&& addrMask,
          { s with mem := s.mem.write64 (entryAddr table index) (entry ||| allowedFlags) })
      else (entry &&& addrMask, s)
  else
    let (newTable, s) := s.alloc
    if newTable == 0 then (0, s)
    else
      let m := zeroPage s.mem newTable
      (newTable, { s with
        mem := m.write64 (entryAddr table index) (newTable ||| ptePresent ||| allowedFlags) })

def mapKptiPage (s : Vm) (pml4 vaddr paddr flags : UInt64) : Vm :=
  let pdp := walkOrCreate s pml4 (pml4Index vaddr) flags
  if pdp.1 == 0 then pdp.2
  else
    let pd := walkOrCreate pdp.2 pdp.1 (pdpIndex vaddr) flags
    if pd.1 == 0 then pd.2
    else
      let pt := walkOrCreate pd.2 pd.1 (pdIndex vaddr) flags
      if pt.1 == 0 then pt.2
      else
        { pt.2 with
          mem := pt.2.mem.write64 (entryAddr pt.1 (ptIndex vaddr)) (paddr ||| flags) }

def mapUserPage (s : Vm) (pml4 vaddr paddr flags : UInt64) : Vm :=
  if vaddr ≥ userAddrLimit then s else mapKptiPage s pml4 vaddr paddr flags

def translateUserAddr (m : Mem) (pml4 vaddr : UInt64) : UInt64 :=
  let pml4e := m.read64 (entryAddr pml4 (pml4Index vaddr))
  if pml4e &&& ptePresent == 0 then 0
  else
    let pdpe := m.read64 (entryAddr (pml4e &&& addrMask) (pdpIndex vaddr))
    if pdpe &&& ptePresent == 0 then 0
    else
      let pde := m.read64 (entryAddr (pdpe &&& addrMask) (pdIndex vaddr))
      if pde &&& ptePresent == 0 then 0
      else
        let pte := m.read64 (entryAddr (pde &&& addrMask) (ptIndex vaddr))
        if pte &&& ptePresent == 0 then 0
        else (pte &&& addrMask) + (vaddr &&& 0xFFF)

def getUserPte (m : Mem) (pml4 vaddr : UInt64) : UInt64 :=
  let pml4e := m.read64 (entryAddr pml4 (pml4Index vaddr))
  if pml4e &&& ptePresent == 0 then 0
  else
    let pdpe := m.read64 (entryAddr (pml4e &&& addrMask) (pdpIndex vaddr))
    if pdpe &&& ptePresent == 0 then 0
    else
      let pde := m.read64 (entryAddr (pdpe &&& addrMask) (pdIndex vaddr))
      if pde &&& ptePresent == 0 then 0
      else m.read64 (entryAddr (pde &&& addrMask) (ptIndex vaddr))

def unmapUserPage (m : Mem) (pml4 vaddr : UInt64) : Bool × Mem :=
  let pml4e := m.read64 (entryAddr pml4 (pml4Index vaddr))
  if pml4e &&& ptePresent == 0 then (false, m)
  else
    let pdpe := m.read64 (entryAddr (pml4e &&& addrMask) (pdpIndex vaddr))
    if pdpe &&& ptePresent == 0 then (false, m)
    else
      let pde := m.read64 (entryAddr (pdpe &&& addrMask) (pdIndex vaddr))
      if pde &&& ptePresent == 0 then (false, m)
      else
        let pteAddr := entryAddr (pde &&& addrMask) (ptIndex vaddr)
        let pte := m.read64 pteAddr
        if pte &&& ptePresent == 0 then (false, m)
        else (true, m.write64 pteAddr 0)

end Keuos.Paging

/-!
## The teardown of an address space

Two walks free the user half of an address space: `atomic_page_sweep` of `kernel/mem/page_sweep.salt`,
which `keuos_reclaim` calls, and `destroy_user_pml4` of `kernel/mem/paging_destroy.salt`.  Each returns
the pages that it passes to `pmm.free`, in order; the sweep also clears the entries that it follows.

`pmm.free` links a page into a free list through its first word.  The walks free a table after the
pages below it and do not come back, so the model leaves that store out.  The counters of `SweepResult`
are left out too.  The sweep reads the tables at their physical addresses, which it takes to be mapped
to themselves; the model reads the same words through the direct map.
-/

namespace Keuos.Paging

/-- `USER_ENTRIES`, which is also `KERNEL_PML4_START`. -/
def userEntries : Nat := 256

/-- `PML4_ENTRIES`, which is also `ENTRIES`. -/
def pml4Entries : Nat := 512

/-- `PTE_SHARED`, a bit that the processor ignores. -/
def pteSharedBit : UInt64 := 0x200

/-! ### The sweep -/

/-- The loop of a sweep over `n` entries of a table, from entry `i` on.  It acts on the entries that
`live` accepts and clears them. -/
def sweepFrom (live : UInt64 → Bool) (act : UInt64 → Mem → List UInt64 × Mem) (table : UInt64) :
    Nat → UInt64 → Mem → List UInt64 × Mem
  | 0, _, m => ([], m)
  | n + 1, i, m =>
    let entry := m.read64 (entryAddr table i)
    if live entry then
      let here := act entry m
      let rest := sweepFrom live act table n (i + 1) (here.2.write64 (entryAddr table i) 0)
      (here.1 ++ rest.1, rest.2)
    else sweepFrom live act table n (i + 1) m

def entryPresent (entry : UInt64) : Bool := entry &&& ptePresent != 0

/-- What a sweep does with an entry above the last level: a huge page is freed, and a table after what
is below it. -/
def sweepEntry (below : Mem → UInt64 → List UInt64 × Mem) (entry : UInt64) (m : Mem) :
    List UInt64 × Mem :=
  let phys := entry &&& addrMask
  if entry &&& ptePs != 0 then ([phys], m)
  else
    let r := below m phys
    (r.1 ++ [phys], r.2)

def sweepPt (m : Mem) (pt : UInt64) : List UInt64 × Mem :=
  sweepFrom entryPresent (fun entry m => ([entry &&& addrMask], m)) pt pml4Entries 0 m

def sweepPd (m : Mem) (pd : UInt64) : List UInt64 × Mem :=
  sweepFrom entryPresent (sweepEntry sweepPt) pd pml4Entries 0 m

def sweepPdpt (m : Mem) (pdpt : UInt64) : List UInt64 × Mem :=
  sweepFrom entryPresent (sweepEntry sweepPd) pdpt pml4Entries 0 m

def atomicPageSweep (m : Mem) (pml4 : UInt64) : List UInt64 × Mem :=
  if pml4 == 0 then ([], m)
  else
    sweepFrom (fun entry => entryPresent entry && entry &&& pteUser != 0) (sweepEntry sweepPdpt) pml4
      userEntries 0 m

/-! ### The recursive walk -/

/-- The loop of a walk over `n` entries of a table, from entry `i` on. -/
def destroyFrom (m : Mem) (act : UInt64 → List UInt64) (table : UInt64) : Nat → UInt64 → List UInt64
  | 0, _ => []
  | n + 1, i =>
    let entry := m.read64 (entryAddr table i)
    if entryPresent entry then act entry ++ destroyFrom m act table n (i + 1)
    else destroyFrom m act table n (i + 1)

/-- A table is freed after what is below it. -/
def destroyEntry (below : UInt64 → List UInt64) (entry : UInt64) : List UInt64 :=
  below (entry &&& addrMask) ++ [entry &&& addrMask]

/-- `destroy_pt`: a page that is marked as shared is not freed. -/
def destroyPt (m : Mem) (pt : UInt64) : List UInt64 :=
  destroyFrom m (fun entry => if entry &&& pteSharedBit == 0 then [entry &&& addrMask] else []) pt
    pml4Entries 0

def destroyPd (m : Mem) (pd : UInt64) : List UInt64 :=
  destroyFrom m (destroyEntry (destroyPt m)) pd pml4Entries 0

def destroyPdp (m : Mem) (pdp : UInt64) : List UInt64 :=
  destroyFrom m (destroyEntry (destroyPd m)) pdp pml4Entries 0

def destroyUserPml4 (m : Mem) (pml4 : UInt64) : List UInt64 :=
  destroyFrom m (destroyEntry (destroyPdp m)) pml4 userEntries 0 ++ [pml4]

end Keuos.Paging

/-!
## Guard pages

`vmm_clear_present` (`kernel/core/vmm.salt`) makes one page of 4 KiB not present, and `vmm_set_present` brings
it back.  If the page is part of a page of 2 MiB, the large page is split first: a new table gets its 512
parts.  Both start from CR3 and say what they flush; the shootdown on the other cores follows each flush.

`lookup` is the walk of the processor, from which the physical address and the rights of a virtual address
come.
-/

namespace Keuos.Paging

open Pmm (physToVirt)

/-! ### `vmm_clear_present` and `vmm_set_present` -/

/-- What is flushed on this core. -/
inductive Flush where
  | cr3 (value : UInt64)
  | page (vaddr : UInt64)
deriving DecidableEq

/-- The loop that fills the table of a large page with its parts. -/
def populate (pt base flags : UInt64) : Nat → UInt64 → Mem → Mem
  | 0, _, m => m
  | n + 1, i, m =>
    populate pt base flags n (i + 1) (m.write64 (entryAddr pt i) ((base + i * 4096) ||| flags))

/-- The memory with the large page of the entry `pde` split into the table `pt`. -/
def splitLarge (m : Mem) (pd index pde pt : UInt64) : Mem :=
  let flags := pde &&& (ptePresent ||| pteWrite ||| pteUser)
  (populate pt (pde &&& addrMask) flags 512 0 m).write64 (entryAddr pd index) (pt ||| flags)

/-- The entry of a page, without the present bit. -/
def clearEntry (m : Mem) (pt vaddr : UInt64) : Mem :=
  let addr := entryAddr pt (ptIndex vaddr)
  m.write64 addr (m.read64 addr &&& (ptePresent ^^^ 0xFFFFFFFFFFFFFFFF))

/-- The entry of a page, with the present bit. -/
def setEntry (m : Mem) (pt vaddr : UInt64) : Mem :=
  let addr := entryAddr pt (ptIndex vaddr)
  m.write64 addr (m.read64 addr ||| ptePresent)

def vmmClearPresent (cr3 : UInt64) (s : Vm) (vaddr : UInt64) : Option Flush × Vm :=
  let pml4e := s.mem.read64 (entryAddr (cr3 &&& addrMask) (pml4Index vaddr))
  if pml4e &&& ptePresent == 0 then (none, s)
  else
    let pdpe := s.mem.read64 (entryAddr (pml4e &&& addrMask) (pdpIndex vaddr))
    if pdpe &&& ptePresent == 0 then (none, s)
    else
      let pd := pdpe &&& addrMask
      let pde := s.mem.read64 (entryAddr pd (pdIndex vaddr))
      if pde &&& ptePresent == 0 then (none, s)
      else if pde &&& ptePs != 0 then
        let page := s.alloc
        if page.1 == 0 then (none, page.2)
        else
          let m := splitLarge page.2.mem pd (pdIndex vaddr) pde page.1
          (some (.cr3 (cr3 &&& 0x7FFFFFFFFFFFFFFF)), { page.2 with mem := clearEntry m page.1 vaddr })
      else (some (.page vaddr), { s with mem := clearEntry s.mem (pde &&& addrMask) vaddr })

def vmmSetPresent (cr3 : UInt64) (s : Vm) (vaddr : UInt64) : Option Flush × Vm :=
  let pml4e := s.mem.read64 (entryAddr (cr3 &&& addrMask) (pml4Index vaddr))
  if pml4e &&& ptePresent == 0 then (none, s)
  else
    let pdpe := s.mem.read64 (entryAddr (pml4e &&& addrMask) (pdpIndex vaddr))
    if pdpe &&& ptePresent == 0 then (none, s)
    else
      let pde := s.mem.read64 (entryAddr (pdpe &&& addrMask) (pdIndex vaddr))
      if pde &&& ptePs != 0 then (none, s)
      else if pde &&& ptePresent == 0 then (none, s)
      else (some (.page vaddr), { s with mem := setEntry s.mem (pde &&& addrMask) vaddr })

/-! ### Translation -/

/-- Where a virtual address leads: the physical address, and whether writes and user accesses are allowed. -/
structure Mapping where
  phys : UInt64
  write : Bool
  user : Bool
deriving DecidableEq

/-- A right is granted when every entry of the walk grants it. -/
def Mapping.of (phys rights : UInt64) : Mapping :=
  ⟨phys, rights &&& pteWrite != 0, rights &&& pteUser != 0⟩

/-- The walk of the processor, with pages of 1 GiB, 2 MiB and 4 KiB. -/
def lookup (m : Mem) (root v : UInt64) : Option Mapping :=
  let e₁ := m.read64 (entryAddr root (pml4Index v))
  if e₁ &&& ptePresent == 0 then none
  else
    let e₂ := m.read64 (entryAddr (e₁ &&& addrMask) (pdpIndex v))
    if e₂ &&& ptePresent == 0 then none
    else if e₂ &&& ptePs != 0 then
      some (.of ((e₂ &&& 0x000FFFFFC0000000) + (v &&& 0x3FFFFFFF)) (e₁ &&& e₂))
    else
      let e₃ := m.read64 (entryAddr (e₂ &&& addrMask) (pdIndex v))
      if e₃ &&& ptePresent == 0 then none
      else if e₃ &&& ptePs != 0 then
        some (.of ((e₃ &&& 0x000FFFFFFFE00000) + (v &&& 0x1FFFFF)) (e₁ &&& e₂ &&& e₃))
      else
        let e₄ := m.read64 (entryAddr (e₃ &&& addrMask) (ptIndex v))
        if e₄ &&& ptePresent == 0 then none
        else some (.of ((e₄ &&& addrMask) + (v &&& 0xFFF)) (e₁ &&& e₂ &&& e₃ &&& e₄))

/-- The addresses that the processor accepts: the bits from 47 on are equal. -/
def Canonical (v : UInt64) : Prop :=
  v.toNat < 2 ^ 47 ∨ 2 ^ 64 - 2 ^ 47 ≤ v.toNat

instance (v : UInt64) : Decidable (Canonical v) :=
  inferInstanceAs (Decidable (_ ∨ _))

end Keuos.Paging
