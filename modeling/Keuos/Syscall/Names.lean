import Keuos.Ecs.World
import Keuos.Lib.Ledger
import Keuos.Lib.Memory
import Keuos.Pmm.Defs
import Keuos.Serial.Defs

/-!
# Names of entities

`sys_entity_store` and `sys_entity_lookup` (`kernel/core/syscall_entity.salt`), over the world and its bridge.
A name is kept in a page of its own, of which the table of names has the address.

`pmm` is given by the pages that it has and by a list of choices: what each call of `pmm_alloc` does, which is
to hand out one of them or to fail.  The bytes of a process that `copy_from_user` can read are an argument of
the call, and the copy stops where they end.

Three records are kept beside what the kernel has: the live handles (returned by `world_spawn` and not
destroyed since), a ledger of the pages, and the bytes of the last store for each entity that returned 0.
-/

namespace Keuos.Names

open Ecs Ledger
open Pmm (physToVirt)
open Serial (isValidUserPtr)

/-- Which call a page was handed out to. -/
inductive Caller where
  | store
  | lookup
  deriving DecidableEq, Repr

structure Kernel where
  world : World
  mem : Mem
  /-- The pages that `pmm` has. -/
  pool : List UInt64
  /-- The head of the list of this core. -/
  poolHead : UInt64
  /-- What the next calls of `pmm_alloc` do; they fail when there is no entry. -/
  choices : List (Option Nat)
  live : List Entity
  ledger : List (Entry Caller UInt64)
  stored : Entity → Option (List UInt8)

/-! ### Pages -/

/-- The page that the next call of `pmm_alloc` hands out, as its index in the list. -/
def Kernel.choice (s : Kernel) : Option (Nat × UInt64) :=
  match s.choices with
  | some k :: _ => (s.pool[k]?).map fun page => (k, page)
  | _ => none

def pmmAlloc (caller : Caller) (s : Kernel) : UInt64 × Kernel :=
  match s.choice with
  | none => (0, { s with choices := s.choices.tail })
  | some (k, page) =>
    (page, { s with
      pool := s.pool.eraseIdx k
      choices := s.choices.tail
      ledger := .handed caller page :: s.ledger })

/-- `pmm_free`, which links the page in front of the list of this core. -/
def pmmFree (page : UInt64) (s : Kernel) : Kernel :=
  { s with
    mem := s.mem.write64 (physToVirt page) s.poolHead
    pool := page :: s.pool
    poolHead := page
    ledger := .freed page :: s.ledger }

/-- `copy_from_user`, where `user` are the bytes at `src` that can be read. -/
def copyFromUser (dst src len : UInt64) (user : List UInt8) (s : Kernel) : Int64 × Kernel :=
  if !isValidUserPtr src len then (-1, s)
  else
    let n := min user.length len.toNat
    (if user.length < len.toNat then -1 else len.toInt64,
      { s with mem := Mem.copyIn (fun i => user.getD i 0) n dst s.mem })

/-! ### The bridge -/

/-- The loop that compares two names, with `n` bytes left. -/
def sameBytes (m : Mem) (stored name : UInt64) : Nat → UInt64 → Bool
  | 0, _ => true
  | n + 1, j => if m (stored + j) != m (name + j) then false else sameBytes m stored name n (j + 1)

/-- The loop over the rows, with `n` of them left. -/
def lookupRows (names : SparseSet NameComponent) (m : Mem) (nameKern nameLen : UInt64) : Nat → UInt32 → UInt64
  | 0, _ => 0
  | n + 1, i =>
    let component := names.dense i
    if component.nameLen == nameLen && sameBytes m component.namePtr nameKern nameLen.toNat 0 then
      entityVal (names.entityMap i)
    else lookupRows names m nameKern nameLen n (i + 1)

def ecsBridgeLookupByName (w : World) (m : Mem) (nameKern nameLen : UInt64) : UInt64 :=
  lookupRows w.names m nameKern nameLen w.names.count.toNat 0

/-! ### The calls -/

/-- `sys_entity_store`.  The bridge returns 0. -/
def sysEntityStore (entityVal namePtr nameLen : UInt64) (user : List UInt8) (s : Kernel) : UInt64 × Kernel :=
  if entityVal = 0 then (0 - 1, s)
  else if namePtr = 0 ∨ nameLen = 0 ∨ nameLen > 4096 then (0 - 1, s)
  else if !isValidUserPtr namePtr nameLen then (0 - 1, s)
  else
    let (phys, s) := pmmAlloc .store s
    if phys = 0 then (0 - 1, s)
    else
      let kernVa := physToVirt phys
      let (bytes, s) := copyFromUser kernVa namePtr nameLen user s
      if bytes ≤ 0 then (0 - 1, pmmFree phys s)
      else (0, { s with world := ecsBridgeStoreName s.world entityVal kernVa bytes.toUInt64 })

def sysEntityLookup (namePtr nameLen : UInt64) (user : List UInt8) (s : Kernel) : UInt64 × Kernel :=
  if namePtr = 0 ∨ nameLen = 0 ∨ nameLen > 4096 then (0, s)
  else if !isValidUserPtr namePtr nameLen then (0, s)
  else
    let (phys, s) := pmmAlloc .lookup s
    if phys = 0 then (0, s)
    else
      let kernVa := physToVirt phys
      let (bytes, s) := copyFromUser kernVa namePtr nameLen user s
      if bytes ≤ 0 then (0, pmmFree phys s)
      else
        let result := ecsBridgeLookupByName s.world s.mem kernVa bytes.toUInt64
        (result, pmmFree phys s)

/-! ### Runs -/

inductive Op where
  | spawn
  | destroy (e : Entity)
  | store (entityVal namePtr nameLen : UInt64) (user : List UInt8)
  | lookup (namePtr nameLen : UInt64) (user : List UInt8)

/-- What a call returns, and the state after it. -/
def Op.exec (s : Kernel) : Op → UInt64 × Kernel
  | .spawn =>
    let (e, w) := worldSpawn s.world
    (Ecs.entityVal e, { s with world := w, live := if e.id = invalid then s.live else e :: s.live })
  | .destroy e => (0, { s with world := worldDestroy s.world e, live := s.live.erase e })
  | .store val namePtr nameLen user =>
    let (r, s') := sysEntityStore val namePtr nameLen user s
    (r, { s' with
      stored := if r = 0 then Function.update s.stored (entityOf val)
        (some (user.take nameLen.toNat)) else s.stored })
  | .lookup namePtr nameLen user => sysEntityLookup namePtr nameLen user s

/-- The state after a call. -/
def step (s : Kernel) (op : Op) : Kernel :=
  (op.exec s).2

/-- The kernel before the first call. -/
def boot (w : World) (m : Mem) (pool : List UInt64) (poolHead : UInt64)
    (choices : List (Option Nat)) : Kernel where
  world := w
  mem := m
  pool := pool
  poolHead := poolHead
  choices := choices
  live := []
  ledger := []
  stored := fun _ => none

end Keuos.Names
