import Keuos.Lib.Ledger
import Keuos.Lib.Memory
import Keuos.Lib.Run

/-!
# The physical page allocator

`kernel/core/pmm.salt`: sixteen free lists, one for each core, threaded through the free pages
themselves, and a table of 8-bit reference counts for the pages below index 32768.

A function that takes a spinlock returns `none` when the lock is held, which is when the code spins
forever in a run of whole calls.  The loop of `add_region` moves `current` through page-aligned
addresses, so when it has not ended after 2^52 iterations it never ends: its fuel.
-/

namespace Keuos.Pmm

/-- `MAX_CPUS` cores, each with its shard. -/
abbrev Cpu := Fin 16

def pageSize : UInt64 := 4096

/-- `KERNEL_BASE` of `kernel/core/memory.salt`. -/
def kernelBase : UInt64 := 0xFFFFFFFF80000000

def stealThreshold : UInt64 := 16

/-- The length of `PMM_REFCOUNTS`. -/
def maxRefcounts : UInt64 := 32768

/-- `memory.phys_to_virt`. -/
def physToVirt (p : UInt64) : UInt64 :=
  p + kernelBase

structure PmmCoreState where
  head : UInt64
  count : UInt64
  lock : UInt64
  deriving DecidableEq, Repr

/-- The globals of the allocator and the memory in which its lists live. -/
structure PmmState where
  mem : Mem
  shards : Cpu → PmmCoreState
  totalPages : UInt64
  refcounts : UInt64 → UInt8
  numCpus : UInt64

/-- The initial values of the globals. -/
def initPmm (mem : Mem) : PmmState where
  mem := mem
  shards := fun _ => ⟨0, 0, 0⟩
  totalPages := 0
  refcounts := fun _ => 0
  numCpus := 1

def PmmState.setShard (s : PmmState) (core : Cpu) (shard : PmmCoreState) : PmmState :=
  { s with shards := Function.update s.shards core shard }

def initCpuCount (s : PmmState) (n : UInt64) : PmmState :=
  if n > 0 && n ≤ 16 then { s with numCpus := n } else s

def acquireLock (s : PmmState) (core : Cpu) : Option PmmState :=
  if (s.shards core).lock == 0 then some (s.setShard core { s.shards core with lock := 1 })
  else none

def releaseLock (s : PmmState) (core : Cpu) : PmmState :=
  s.setShard core { s.shards core with lock := 0 }

/-- The stores that link a page in front of a list. -/
@[irreducible] def pushPage (s : PmmState) (core : Cpu) (page : UInt64) : PmmState :=
  let s₁ := { s with mem := s.mem.write64 (physToVirt page) (s.shards core).head }
  s₁.setShard core { s.shards core with head := page, count := (s.shards core).count + 1 }

/-- The stores that unlink the first page of a list. -/
@[irreducible] def popPage (s : PmmState) (core : Cpu) : PmmState :=
  let next := s.mem.read64 (physToVirt (s.shards core).head)
  s.setShard core { s.shards core with head := next, count := (s.shards core).count - 1 }

/-- The loop of `add_region`. -/
def addRegionLoop : Nat → PmmState → UInt64 → UInt64 → UInt64 → Option PmmState
  | 0, _, _, _, _ => none
  | fuel + 1, s, current, end_, coreIdx =>
    if current + pageSize ≤ end_ then
      let target : Cpu := Fin.ofNat 16 (coreIdx % s.numCpus).toNat
      let s₁ := pushPage s target current
      addRegionLoop fuel { s₁ with totalPages := s₁.totalPages + 1 } (current + pageSize) end_
        (coreIdx + 1)
    else some s

def addRegion (s : PmmState) (start end_ : UInt64) : Option PmmState :=
  addRegionLoop (2 ^ 52 + 1) s ((start + 4095) &&& 0xFFFFFFFFFFFFF000) end_ 0

/-- The reference count that `alloc` gives a page. -/
def countAllocated (s : PmmState) (page : UInt64) : PmmState :=
  let index := page / pageSize
  if index < maxRefcounts then { s with refcounts := Function.update s.refcounts index 1 } else s

/-- The loop of `steal_from_remote` over the victims that are left. -/
def stealFrom (s : PmmState) (thief : Cpu) : List Cpu → Option (UInt64 × PmmState)
  | [] => some (0, s)
  | victim :: rest =>
    if victim != thief then
      match acquireLock s victim with
      | none => none
      | some s₁ =>
        if (s₁.shards victim).count > stealThreshold then
          let victimHead := (s₁.shards victim).head
          if victimHead != 0 then some (victimHead, releaseLock (popPage s₁ victim) victim)
          else stealFrom (releaseLock s₁ victim) thief rest
        else stealFrom (releaseLock s₁ victim) thief rest
    else stealFrom s thief rest

def stealFromRemote (s : PmmState) (thief : Cpu) : Option (UInt64 × PmmState) :=
  stealFrom s thief ((List.finRange 16).filter fun victim => victim.val < s.numCpus.toNat)

/-- `alloc` on a core. -/
def alloc (s : PmmState) (cpu : Cpu) : Option (UInt64 × PmmState) :=
  match acquireLock s cpu with
  | none => none
  | some s₁ =>
    let head := (s₁.shards cpu).head
    if head == 0 then
      match stealFromRemote (releaseLock s₁ cpu) cpu with
      | none => none
      | some (stolen, s₂) =>
        some (stolen, if stolen != 0 then countAllocated s₂ stolen else s₂)
    else some (head, countAllocated (releaseLock (popPage s₁ cpu) cpu) head)

/-- The last part of `free`: the page goes to the front of the core's list. -/
def returnPage (s : PmmState) (cpu : Cpu) (page : UInt64) : Option PmmState :=
  match acquireLock s cpu with
  | none => none
  | some s₁ => some (releaseLock (pushPage s₁ cpu page) cpu)

/-- `free` on a core. -/
def free (s : PmmState) (cpu : Cpu) (page : UInt64) : Option PmmState :=
  if page % pageSize != 0 then some s
  else
    let index := page / pageSize
    if index < maxRefcounts then
      let refCount := s.refcounts index
      let s₁ :=
        if refCount > 0 then
          { s with refcounts := Function.update s.refcounts index (refCount - 1) }
        else s
      let newCount := s₁.refcounts index
      if newCount > 0 then some s₁ else returnPage s₁ cpu page
    else returnPage s cpu page

def retain (s : PmmState) (page : UInt64) : PmmState :=
  if page % pageSize != 0 then s
  else
    let index := page / pageSize
    if index < maxRefcounts then
      { s with refcounts := Function.update s.refcounts index (s.refcounts index + 1) }
    else s

/-! ### Runs -/

/-- A call on some core, or a store by the holder of a page. -/
inductive Op where
  | initCpuCount (n : UInt64)
  | addRegion (start end_ : UInt64)
  | alloc (cpu : Cpu)
  | free (cpu : Cpu) (page : UInt64)
  | retain (page : UInt64)
  | store (page : UInt64) (contents : Mem)

/-- The allocator with what it does not record: the regions it was given, and how often each page is
held, which is once from its allocation and once more from every `retain` since. -/
structure State where
  pmm : PmmState
  regions : List (UInt64 × UInt64)
  holds : UInt64 → Nat

/-- The memory after the holder of a page has stored `contents` into it. -/
@[irreducible] def storePage (m : Mem) (page : UInt64) (contents : Mem) : Mem := fun x =>
  if InBlock (physToVirt page) 4096 x then contents x else m x

/-- The state after a call.  A call that does not return leaves the model where it is. -/
def State.exec (s : State) : Op → State
  | .initCpuCount n => { s with pmm := Pmm.initCpuCount s.pmm n }
  | .addRegion start end_ =>
    match Pmm.addRegion s.pmm start end_ with
    | none => s
    | some pmm => { s with pmm := pmm, regions := (start, end_) :: s.regions }
  | .alloc cpu =>
    match Pmm.alloc s.pmm cpu with
    | none => s
    | some (page, pmm) =>
      { s with pmm := pmm, holds := if page = 0 then s.holds else Function.update s.holds page 1 }
  | .free cpu page =>
    match Pmm.free s.pmm cpu page with
    | none => s
    | some pmm => { s with pmm := pmm, holds := Function.update s.holds page (s.holds page - 1) }
  | .retain page =>
    { s with
      pmm := Pmm.retain s.pmm page
      holds := if page % pageSize = 0 then Function.update s.holds page (s.holds page + 1)
        else s.holds }
  | .store page contents => { s with pmm := { s.pmm with mem := storePage s.pmm.mem page contents } }

/-- What is asked of every run: regions lie above page 0, below the last two pages of the address
space and apart from each other, and only a page that is held is freed or stored into. -/
def State.Legal (s : State) : Op → Prop
  | .initCpuCount _ => True
  | .addRegion start end_ =>
    0 < start ∧ start ≤ end_ ∧ end_ ≤ 0xFFFFFFFFFFFFE000 ∧
      ∀ r ∈ s.regions, end_ ≤ r.1 ∨ r.2 ≤ start
  | .alloc _ => True
  | .free _ page => page % pageSize ≠ 0 ∨ 0 < s.holds page
  | .retain _ => True
  | .store page _ => 0 < s.holds page

/-- A `retain` is of a page that is held, has a reference count, and has room in it. -/
def State.Countable (s : State) : Op → Prop
  | .retain page =>
    page % pageSize ≠ 0 ∨
      (0 < s.holds page ∧ page / pageSize < maxRefcounts ∧ s.holds page < 255)
  | _ => True

/-- The state before the first call. -/
def initState (mem : Mem) : State :=
  ⟨initPmm mem, [], fun _ => 0⟩

end Keuos.Pmm

/-!
## The sharded page allocator

`kernel/mem/pmm_sharded.salt`: one free list for each core, threaded through the free pages themselves,
whose head carries a 16-bit epoch above the address of its first page, and a bitmap in which the bit of a
page is 1 when the page is free.

The model is of whole calls.  No other core stores between the load of a word and the compare-and-swap on
it, so every compare-and-swap succeeds at the first attempt and its loop is left after one round.
-/

namespace Keuos.Pmm.Sharded

local instance neZero_cpus : NeZero 16 := ⟨by decide⟩

/-- A shard without its padding. -/
structure PmmShard where
  headFrame : UInt64
  freeCount : UInt64
  deriving DecidableEq, Repr

/-- The globals of the allocator and the memory in which its lists live. -/
structure Globals where
  mem : Mem
  shards : Cpu → PmmShard
  totalPages : UInt64
  numCpus : UInt64
  maxPhysAddr : UInt64
  usedBitmap : UInt64 → UInt64

/-- The initial values of the globals. -/
def initGlobals (mem : Mem) : Globals where
  mem := mem
  shards := fun _ => ⟨0, 0⟩
  totalPages := 0
  numCpus := 1
  maxPhysAddr := 0
  usedBitmap := fun _ => 0

def Globals.setShard (s : Globals) (core : Cpu) (shard : PmmShard) : Globals :=
  { s with shards := Function.update s.shards core shard }

/-! ### The bitmap -/

/-- The length of `PMM_USED_BITMAP`. -/
def bitmapWords : UInt64 := 16384

/-- `arr_idx`: the word of the bitmap that holds the bit of a page. -/
def arrIdx (phys : UInt64) : UInt64 :=
  phys / pageSize / 64

/-- `mask`: the bit of a page in its word. -/
def pageMask (phys : UInt64) : UInt64 :=
  1 <<< (phys / pageSize % 64)

def markPageFreeBitmap (s : Globals) (phys : UInt64) : Globals :=
  if arrIdx phys ≥ bitmapWords then s
  else
    let newVal := s.usedBitmap (arrIdx phys) ||| pageMask phys
    { s with usedBitmap := Function.update s.usedBitmap (arrIdx phys) newVal }

def markPageUsedBitmap (s : Globals) (phys : UInt64) : Globals :=
  if arrIdx phys ≥ bitmapWords then s
  else
    let invMask := pageMask phys ^^^ 0xFFFFFFFFFFFFFFFF
    let newVal := s.usedBitmap (arrIdx phys) &&& invMask
    { s with usedBitmap := Function.update s.usedBitmap (arrIdx phys) newVal }

def checkDoubleFree (s : Globals) (phys : UInt64) : Bool :=
  if arrIdx phys ≥ bitmapWords then false
  else (s.usedBitmap (arrIdx phys) &&& pageMask phys) != 0

/-! ### Tagged heads -/

def packHead (phys epoch : UInt64) : UInt64 :=
  phys &&& 0x0000FFFFFFFFF000 ||| (epoch &&& 0xFFFF) <<< (48 : UInt64)

def unpackPhys (head : UInt64) : UInt64 :=
  head &&& 0x0000FFFFFFFFF000

def unpackEpoch (head : UInt64) : UInt64 :=
  head >>> (48 : UInt64)

/-- The stores that link a page in front of a list, in `init` and in `free_frame`. -/
@[irreducible] def pushFrame (s : Globals) (core : Cpu) (page : UInt64) : Globals :=
  let head := (s.shards core).headFrame
  let s₁ := { s with mem := s.mem.write64 (physToVirt page) (unpackPhys head) }
  s₁.setShard core
    { headFrame := packHead page (unpackEpoch head + 1), freeCount := (s.shards core).freeCount + 1 }

/-- The stores that unlink the first page of a list, in `alloc_frame` and in `steal_from_remote`. -/
@[irreducible] def popFrame (s : Globals) (core : Cpu) : Globals :=
  let head := (s.shards core).headFrame
  let next := s.mem.read64 (physToVirt (unpackPhys head))
  s.setShard core
    { headFrame := packHead next (unpackEpoch head + 1), freeCount := (s.shards core).freeCount - 1 }

/-! ### The calls -/

def initCpuCount (s : Globals) (n : UInt64) : Globals :=
  if n > 0 && n ≤ 16 then { s with numCpus := n } else s

/-- The loop of `init`.  It moves `current` through page-aligned addresses, so when it has not ended after
2^52 iterations it never ends: its fuel. -/
def initLoop : Nat → Globals → UInt64 → UInt64 → UInt64 → Option Globals
  | 0, _, _, _, _ => none
  | fuel + 1, s, current, end_, coreIdx =>
    if current + pageSize ≤ end_ then
      let target : Cpu := Fin.ofNat 16 (coreIdx % s.numCpus).toNat
      let s₁ := pushFrame s target current
      let s₂ := { s₁ with totalPages := s₁.totalPages + 1 }
      initLoop fuel (markPageFreeBitmap s₂ current) (current + pageSize) end_ (coreIdx + 1)
    else some s

def init (s : Globals) (start end_ : UInt64) : Option Globals :=
  let s₁ := if end_ > s.maxPhysAddr then { s with maxPhysAddr := end_ } else s
  initLoop (2 ^ 52 + 1) s₁ ((start + 4095) &&& 0xFFFFFFFFFFFFF000) end_ 0

/-- The loop of `steal_from_remote` over the victims that are left. -/
def stealFrom (s : Globals) (thief : Cpu) : List Cpu → UInt64 × Globals
  | [] => (0, s)
  | victim :: rest =>
    if victim != thief && (s.shards victim).freeCount > stealThreshold then
      let physHead := unpackPhys (s.shards victim).headFrame
      if physHead != 0 then (physHead, markPageUsedBitmap (popFrame s victim) physHead)
      else stealFrom s thief rest
    else stealFrom s thief rest

def stealFromRemote (s : Globals) (thief : Cpu) : UInt64 × Globals :=
  stealFrom s thief ((List.finRange 16).filter fun victim => victim.val < s.numCpus.toNat)

/-- `alloc_frame` on a core. -/
def allocFrame (s : Globals) (cpu : Cpu) : UInt64 × Globals :=
  let physHead := unpackPhys (s.shards cpu).headFrame
  if physHead != 0 then (physHead, markPageUsedBitmap (popFrame s cpu) physHead)
  else stealFromRemote s cpu

/-- `free_frame` on a core. -/
def freeFrame (s : Globals) (cpu : Cpu) (page : UInt64) : Globals :=
  if page == 0 then s
  else if page % pageSize != 0 then s
  else if page ≥ s.maxPhysAddr then s
  else if checkDoubleFree s page then s
  else pushFrame (markPageFreeBitmap s page) cpu page

/-! ### Runs -/

/-- The allocator with what it does not record: a ledger of the pages it returned, and to which core, and
of the pages that `free_frame` was called with. -/
structure State where
  pmm : Globals
  ledger : List (Ledger.Entry Cpu UInt64)

/-- The state after a call of `free_frame`. -/
def State.freeFrame (s : State) (cpu : Cpu) (page : UInt64) : State :=
  { pmm := Sharded.freeFrame s.pmm cpu page, ledger := .freed page :: s.ledger }

/-- The loop of `bulk_free`, with `n` elements of the array still to go. -/
def State.bulkFreeLoop (s : State) (cpu : Cpu) (frames : UInt64) : Nat → UInt64 → State
  | 0, _ => s
  | n + 1, i =>
    let page := s.pmm.mem.read64 (frames + 8 * i)
    if page != 0 then State.bulkFreeLoop (s.freeFrame cpu page) cpu frames n (i + 1)
    else State.bulkFreeLoop s cpu frames n (i + 1)

def State.bulkFree (s : State) (cpu : Cpu) (frames count : UInt64) : State :=
  s.bulkFreeLoop cpu frames count.toNat 0

def State.allocFrame (s : State) (cpu : Cpu) : State :=
  let (page, pmm) := Sharded.allocFrame s.pmm cpu
  { pmm := pmm, ledger := if page = 0 then s.ledger else .handed cpu page :: s.ledger }

/-- A call on some core, with any arguments. -/
inductive Op where
  | allocFrame (cpu : Cpu)
  | freeFrame (cpu : Cpu) (page : UInt64)
  | bulkFree (cpu : Cpu) (frames count : UInt64)

/-- The state after a call. -/
def State.exec (s : State) : Op → State
  | .allocFrame cpu => s.allocFrame cpu
  | .freeFrame cpu page => s.freeFrame cpu page
  | .bulkFree cpu frames count => s.bulkFree cpu frames count

/-- The calls of `init` at boot, one for each range of physical addresses. -/
def bootRanges (s : Globals) (ranges : List (UInt64 × UInt64)) : Option Globals :=
  ranges.foldlM (fun s r => init s r.1 r.2) s

/-- The state when the allocator has been set up for `cpus` cores and has been given the ranges. -/
def boot (mem : Mem) (cpus : UInt64) (ranges : List (UInt64 × UInt64)) : Option State :=
  (bootRanges (initCpuCount (initGlobals mem) cpus) ranges).map fun pmm => ⟨pmm, []⟩

end Keuos.Pmm.Sharded
