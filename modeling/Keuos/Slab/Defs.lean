import Keuos.Lib.Run
import Keuos.Paging.Defs
import Mathlib.Logic.Function.Basic

/-!
# Object caches (`kernel/mem/slab_cache.salt`)

A cache hands out objects of one size.  It carves pages of `pmm` into slots, an object followed by a
redzone word, and links the free slots through the first word of the object.  The descriptor of a cache
is four words in a registry page.

The compare-and-swap loops on the head of a free list succeed at the first try: the model is of one
core at a time.
-/

namespace Keuos.Slab

open Pmm (physToVirt)
open Paging (Vm)

def redzoneMagic : UInt64 := 0xDEADBEEFCAFEBABE

def cacheStride : UInt64 := 32

/-- The address of a descriptor in the registry. -/
def cacheBase (registry cacheId : UInt64) : UInt64 :=
  registry + cacheId * cacheStride

def userObjSize (m : Mem) (base : UInt64) : UInt64 := m.read64 (base + 8)
def slotSize (m : Mem) (base : UInt64) : UInt64 := m.read64 (base + 16)

def freeListHead (m : Mem) (base : UInt64) : UInt64 := m.read64 (base + 24)

/-- `create_cache`: the descriptor. -/
def createCache (m : Mem) (base requestedSize : UInt64) : Mem :=
  let alignedSize := (requestedSize + 7) &&& 0xFFFFFFFFFFFFFFF8
  let totalSlotSize := alignedSize + 8
  (((m.write64 base 1).write64 (base + 8) alignedSize).write64 (base + 16) totalSlotSize).write64
    (base + 24) 0

/-- The loop of `grow_cache` that carves a page, from slot `i` on. -/
def carveFrom (pageVirt userObjSize slotSize objectsPerPage : UInt64) : Nat → UInt64 → Mem → Mem
  | 0, _, m => m
  | n + 1, i, m =>
    let current := pageVirt + i * slotSize
    let m₁ := m.write64 (current + userObjSize) redzoneMagic
    let m₂ := if i < objectsPerPage - 1 then m₁.write64 current (current + slotSize) else m₁
    carveFrom pageVirt userObjSize slotSize objectsPerPage n (i + 1) m₂

/-- A page carved into slots, the last of which is linked to `oldHead`. -/
def carve (m : Mem) (pageVirt userObjSize slotSize oldHead : UInt64) : Mem :=
  let objectsPerPage := 4096 / slotSize
  let m₁ := carveFrom pageVirt userObjSize slotSize objectsPerPage objectsPerPage.toNat 0 m
  m₁.write64 (pageVirt + (objectsPerPage - 1) * slotSize) oldHead

/-- `grow_cache`: whether it answers 1. -/
def growCache (vm : Vm) (base : UInt64) : Bool × Vm :=
  let phys := vm.alloc
  if phys.1 == 0 then (false, phys.2)
  else
    let pageVirt := physToVirt phys.1
    let m := carve phys.2.mem pageVirt (userObjSize vm.mem base) (slotSize vm.mem base)
      (freeListHead vm.mem base)
    (true, { phys.2 with mem := m.write64 (base + 24) pageVirt })

/-- The object is cleared, in words. -/
def clearObject (m : Mem) (obj size : UInt64) : Mem :=
  m.fill 0 ((size.toNat + 7) / 8 * 8) obj

/-- The loop of `alloc`: every round that finds no object grows the cache or ends the loop. -/
def allocFrom (base size : UInt64) : Nat → Vm → UInt64 × Vm
  | 0, vm => (0, vm)
  | n + 1, vm =>
    let head := freeListHead vm.mem base
    if head == 0 then
      let grown := growCache vm base
      if !grown.1 then (0, grown.2) else allocFrom base size n grown.2
    else
      let next := vm.mem.read64 head
      let m := vm.mem.write64 (base + 24) next
      (head, { vm with mem := clearObject m head size })

def alloc (base : UInt64) (vm : Vm) : UInt64 × Vm :=
  allocFrom base (userObjSize vm.mem base) (vm.answers.length + 2) vm

end Keuos.Slab

/-!
## The registry of caches (`kernel/mem/slab_cache.salt`)

`init`, `create_cache`, `alloc` and `free` on the globals of the module, with the objects that the callers
hold and the pages that the caches have obtained from `pmm`, which the code does not record.

A panic is `none`.
-/

namespace Keuos.Slab

open Pmm (physToVirt)
open Paging (Vm zeroPage handedOut)

def maxCaches : UInt64 := 16

/-- The memory, the page of the registry, `NEXT_CACHE_ID`, the objects that are in use with their caches,
and the pages of the caches. -/
structure Caches where
  mem : Mem
  registry : UInt64
  nextCacheId : UInt64
  live : List (UInt64 × UInt64)
  pages : List UInt64

def init (vm : Vm) : Option Caches :=
  let phys := vm.alloc
  if phys.1 == 0 then none else some ⟨zeroPage phys.2.mem phys.1, phys.1, 0, [], []⟩

namespace Caches

variable (s : Caches)

/-- The address of a descriptor. -/
def base (cacheId : UInt64) : UInt64 := cacheBase (physToVirt s.registry) cacheId

/-- `user_obj_size` of a cache. -/
def objSize (cacheId : UInt64) : UInt64 := userObjSize s.mem (s.base cacheId)

/-- `create_cache`. -/
def create (requestedSize : UInt64) : Option (UInt64 × Caches) :=
  if s.nextCacheId ≥ maxCaches then none
  else
    some (s.nextCacheId, { s with
      mem := createCache s.mem (s.base s.nextCacheId) requestedSize
      nextCacheId := s.nextCacheId + 1 })

/-- `alloc`, with the answers of `pmm.alloc`. -/
def alloc (cacheId : UInt64) (answers : List UInt64) : UInt64 × Caches :=
  let r := Slab.alloc (s.base cacheId) ⟨s.mem, answers⟩
  let s₁ := { s with mem := r.2.mem, pages := handedOut ⟨s.mem, answers⟩ r.2 ++ s.pages }
  (r.1, if r.1 == 0 then s₁ else { s₁ with live := (cacheId, r.1) :: s.live })

/-- The memory after `free`. -/
def freeMem (cacheId ptr : UInt64) : Option Mem :=
  if ptr == 0 then some s.mem
  else if s.mem.read64 (ptr + s.objSize cacheId) != redzoneMagic then none
  else
    let currentHead := freeListHead s.mem (s.base cacheId)
    some ((s.mem.write64 ptr currentHead).write64 (s.base cacheId + 24) ptr)

def free (cacheId ptr : UInt64) : Option Caches :=
  (s.freeMem cacheId ptr).map fun m =>
    { s with mem := m, live := s.live.filter (· != (cacheId, ptr)) }

end Caches

/-- The calls, and the stores of everybody else. -/
inductive CacheOp where
  | create (requestedSize : UInt64)
  | alloc (cacheId : UInt64) (answers : List UInt64)
  | free (cacheId ptr : UInt64)
  | store (mem : Mem)

/-- A panic stops the kernel. -/
def Caches.exec (s : Caches) : CacheOp → Caches
  | .create requestedSize => ((s.create requestedSize).map Prod.snd).getD s
  | .alloc cacheId answers => (s.alloc cacheId answers).2
  | .free cacheId ptr => (s.free cacheId ptr).getD s
  | .store mem => { s with mem := mem }

end Keuos.Slab

/-!
## Several cores on one object cache (`kernel/mem/slab_cache.salt`)

`alloc`, `free` and `grow_cache` of one cache, where each load or store of a link, each load of the head and
each compare-and-swap is a step, and the steps of the cores come in any order.  Addresses are natural numbers,
`0` is the null pointer, and `next` is the first word of each slot, which is the link of a free one and
belongs to the caller else.  The caller of `free` owns the object, and a page from `pmm` is one that nobody
has: a step that breaks this changes nothing.

Left out are the redzones and the rest of an object's words.  So size 0 here is not the caches of size 0 of
the source, where the redzone is the link.
-/

namespace Keuos.Slab.Smp

/-- Where a core stands: the step that comes next, with the variables that are still used. -/
inductive Core where
  | idle
  | allocHead
  | allocNext (head : Nat)
  | allocCas (head next : Nat)
  | clear (allocated : Nat)
  | growHead
  | growPage (oldHead : Nat)
  | wire (page i oldHead : Nat)
  | growStore (page currentHead : Nat)
  | growCas (page currentHead : Nat)
  | freeHead (ptr : Nat)
  | freeStore (ptr currentHead : Nat)
  | freeCas (ptr currentHead : Nat)
  deriving DecidableEq

/-- What callers see: an object is returned by `alloc`, or given to `free`. -/
inductive Event where
  | returned (obj : Nat)
  | freed (obj : Nat)
  deriving DecidableEq

/-- The events, with the latest first: the object has been returned and not been freed since. -/
def Live : List Event → Nat → Prop
  | [], _ => False
  | .returned p :: log, obj => p = obj ∨ Live log obj
  | .freed p :: log, obj => p ≠ obj ∧ Live log obj

instance instDecidableLive : ∀ log obj, Decidable (Live log obj)
  | [], _ => isFalse id
  | .returned p :: log, obj =>
    have := instDecidableLive log obj
    inferInstanceAs (Decidable (p = obj ∨ Live log obj))
  | .freed p :: log, obj =>
    have := instDecidableLive log obj
    inferInstanceAs (Decidable (p ≠ obj ∧ Live log obj))

/-- `free_list_head`, the links, the cores, the pages that were carved, and the events. -/
structure State where
  head : Nat
  next : Nat → Nat
  cores : Nat → Core
  pages : List Nat
  log : List Event

/-- An empty cache. -/
def State.init (next : Nat → Nat) : State := ⟨0, next, fun _ => .idle, [], []⟩

def State.setCore (s : State) (i : Nat) (core : Core) : State :=
  { s with cores := Function.update s.cores i core }

def State.setNext (s : State) (p v : Nat) : State := { s with next := Function.update s.next p v }

section Size

/-! ### The steps

`size` is that of the user's part of an object.  A slot has the redzone as well. -/

variable (size : Nat)

def objectsPerPage : Nat := 4096 / (size + 8)

def slotAddr (page i : Nat) : Nat := page + i * (size + 8)

def lastSlot (page : Nat) : Nat := slotAddr size page (objectsPerPage size - 1)

/-- Core `i` takes its next step.  Where it asks `pmm` for a page, `phys` is the answer. -/
def step (s : State) (i : Nat) (phys : Option Nat) : State :=
  match s.cores i with
  | .idle => s
  | .allocHead => s.setCore i (if s.head = 0 then .growHead else .allocNext s.head)
  | .allocNext head => s.setCore i (.allocCas head (s.next head))
  | .allocCas head next =>
    if s.head = head then { s.setCore i (.clear head) with head := next } else s.setCore i .allocHead
  | .clear allocated =>
    { (s.setCore i .idle).setNext allocated 0 with log := .returned allocated :: s.log }
  | .growHead => s.setCore i (.growPage s.head)
  | .growPage oldHead =>
    match phys with
    | none => s.setCore i .idle
    | some page =>
      if page % 4096 = 0 ∧ page ≠ 0 ∧ page ∉ s.pages then
        { s.setCore i (.wire page 0 oldHead) with pages := page :: s.pages }
      else s
  | .wire page k oldHead =>
    if k < objectsPerPage size then
      if k < objectsPerPage size - 1 then
        (s.setCore i (.wire page (k + 1) oldHead)).setNext (slotAddr size page k)
          (slotAddr size page k + (size + 8))
      else s.setCore i (.wire page (k + 1) oldHead)
    else s.setCore i (.growStore page oldHead)
  | .growStore page currentHead =>
    (s.setCore i (.growCas page currentHead)).setNext (lastSlot size page) currentHead
  | .growCas page currentHead =>
    if s.head = currentHead then { s.setCore i .allocHead with head := page }
    else s.setCore i (.growStore page s.head)
  | .freeHead ptr => s.setCore i (.freeStore ptr s.head)
  | .freeStore ptr currentHead => (s.setCore i (.freeCas ptr currentHead)).setNext ptr currentHead
  | .freeCas ptr currentHead =>
    if s.head = currentHead then { s.setCore i .idle with head := ptr }
    else s.setCore i (.freeStore ptr s.head)

/-- A core calls `alloc` or `free` or takes a step, or a caller writes to the first word of its object. -/
inductive Op where
  | alloc (i : Nat)
  | free (i ptr : Nat)
  | step (i : Nat) (phys : Option Nat)
  | write (obj v : Nat)

def exec (s : State) : Op → State
  | .alloc i => if s.cores i = .idle then s.setCore i .allocHead else s
  | .free i ptr =>
    if s.cores i = .idle ∧ Live s.log ptr then
      { s.setCore i (.freeHead ptr) with log := .freed ptr :: s.log }
    else s
  | .step i phys => step size s i phys
  | .write obj v => if Live s.log obj then s.setNext obj v else s

end Size

end Keuos.Slab.Smp
