import Keuos.Lib.Run
import Mathlib.Logic.Function.Basic

/-!
# ECS sparse sets

`kernel/ecs/sparse_set.salt`, `scheduling_sets.salt` and `name_set.salt` hold the same four
functions once for each component type.  They are one family here: `SparseSet α` with `newSet`,
`setInsert`, `setGet` and `setRemove`, and each member of the source is one of these at its
component type, under its own name.

The three arrays of a set come from `malloc`, so a constructor starts from arbitrary contents
(`Blocks`) and initialises `sparse` only.  The pointer that a `get` returns is the address of a
row of `dense`; the model returns the row's index, and `none` for the null pointer.
-/

namespace Keuos.Ecs

/-- A generational entity handle. -/
structure Entity where
  id : UInt32
  gen : UInt32
  deriving DecidableEq, Repr

def maxEntities : UInt32 := 65536

/-- `ENTITY_INVALID`, also the mark of an absent entry of `sparse`. -/
def invalid : UInt32 := 0xFFFFFFFF

/-! ### Components (`kernel/ecs/components.salt`) -/

structure MemoryMap where
  size : UInt64
  pml4Phys : UInt64
  deriving DecidableEq, Repr

structure SchedulingPriority where
  level : UInt32
  tickets : UInt32
  deriving DecidableEq, Repr

structure ThreadState where
  status : UInt32
  stackPtr : UInt64
  stackBase : UInt64
  stepFn : UInt64
  taskFrame : UInt64
  ctxPtr : UInt64
  deriving DecidableEq, Repr

structure IpcCapability where
  ringPhys : UInt64
  proofHint : UInt64
  peerEntityId : UInt32
  direction : UInt32
  deriving DecidableEq, Repr

structure OpenSocket where
  localPort : UInt32
  remotePort : UInt32
  remoteIp : UInt32
  state : UInt32
  ringEntityId : UInt32
  padding : UInt32
  deriving DecidableEq, Repr

structure CpuAffinity where
  coreId : UInt32
  migrationCount : UInt32
  deriving DecidableEq, Repr

structure EpochInfo where
  retireEpoch : UInt64
  arenaMark : UInt64
  deriving DecidableEq, Repr

structure PerfCounters where
  cyclesTotal : UInt64
  contextSwitches : UInt32
  ipcMessagesSent : UInt32
  ipcMessagesRecv : UInt32
  pageFaults : UInt32
  deriving DecidableEq, Repr

structure DataBlob where
  size : UInt64
  pageCount : UInt32
  pad : UInt32
  pageList : UInt64
  deriving DecidableEq, Repr

structure NameComponent where
  namePtr : UInt64
  nameLen : UInt64
  deriving DecidableEq, Repr

/-! ### The generic set -/

structure SparseSet (α : Type) where
  dense : UInt32 → α
  sparse : UInt32 → UInt32
  entityMap : UInt32 → Entity
  count : UInt32

/-- What the three allocations of a constructor contain before it runs. -/
structure Blocks (α : Type) where
  dense : UInt32 → α
  sparse : UInt32 → UInt32
  entityMap : UInt32 → Entity

section Family

variable {α : Type}

/-- `new_*_set`: the loop marks every entry of `sparse` absent. -/
def newSet (b : Blocks α) : SparseSet α where
  dense := b.dense
  sparse := fun i => if i < maxEntities then invalid else b.sparse i
  entityMap := b.entityMap
  count := 0

/-- `*_set_insert`. -/
def setInsert (set : SparseSet α) (entity : Entity) (component : α) : SparseSet α :=
  let id := entity.id
  if id ≥ maxEntities then set
  else
    let denseIdx := set.sparse id
    if denseIdx != invalid then
      { set with
        dense := Function.update set.dense denseIdx component
        entityMap := Function.update set.entityMap denseIdx entity }
    else
      let count := set.count
      if count ≥ maxEntities then set
      else
        { dense := Function.update set.dense count component
          entityMap := Function.update set.entityMap count entity
          sparse := Function.update set.sparse id count
          count := count + 1 }

/-- `*_set_get`: the row the returned pointer designates. -/
def setGet (set : SparseSet α) (entity : Entity) : Option UInt32 :=
  let sid := entity.id
  if sid ≥ maxEntities then none
  else
    let denseIdx := set.sparse sid
    if denseIdx != invalid then
      if (set.entityMap denseIdx).gen == entity.gen then some denseIdx else none
    else none

/-- `*_set_remove`: swap the last row into the removed one. -/
def setRemove (set : SparseSet α) (entity : Entity) : SparseSet α :=
  let sid := entity.id
  if sid ≥ maxEntities then set
  else
    let denseIdx := set.sparse sid
    if denseIdx != invalid then
      if (set.entityMap denseIdx).gen == entity.gen then
        let lastIdx := set.count - 1
        let set₁ :=
          if denseIdx != lastIdx then
            let lastEntity := set.entityMap lastIdx
            { set with
              dense := Function.update set.dense denseIdx (set.dense lastIdx)
              entityMap := Function.update set.entityMap denseIdx lastEntity
              sparse := Function.update set.sparse lastEntity.id denseIdx }
          else set
        { set₁ with
          sparse := Function.update set₁.sparse sid invalid
          count := lastIdx }
      else set
    else set

/-- The component behind the pointer that `*_set_get` returns. -/
def getComponent (set : SparseSet α) (entity : Entity) : Option α :=
  (setGet set entity).map set.dense

/-- A store through the pointer that a `get` returned, when it is not null. -/
def storeThrough (set : SparseSet α) (ptr : Option UInt32) (f : α → α) : SparseSet α :=
  match ptr with
  | none => set
  | some row => { set with dense := Function.update set.dense row (f (set.dense row)) }

end Family

/-! ### The members of the family -/

def newThreadSet : Blocks ThreadState → SparseSet ThreadState := newSet
def threadSetInsert : SparseSet ThreadState → Entity → ThreadState → SparseSet ThreadState :=
  setInsert
def threadSetGetMut : SparseSet ThreadState → Entity → Option UInt32 := setGet
def threadSetRemove : SparseSet ThreadState → Entity → SparseSet ThreadState := setRemove

def newPrioritySet : Blocks SchedulingPriority → SparseSet SchedulingPriority := newSet
def prioritySetInsert :
    SparseSet SchedulingPriority → Entity → SchedulingPriority → SparseSet SchedulingPriority :=
  setInsert
def prioritySetGet : SparseSet SchedulingPriority → Entity → Option UInt32 := setGet
def prioritySetRemove : SparseSet SchedulingPriority → Entity → SparseSet SchedulingPriority :=
  setRemove

def newAffinitySet : Blocks CpuAffinity → SparseSet CpuAffinity := newSet
def affinitySetInsert : SparseSet CpuAffinity → Entity → CpuAffinity → SparseSet CpuAffinity :=
  setInsert
def affinitySetGet : SparseSet CpuAffinity → Entity → Option UInt32 := setGet
def affinitySetRemove : SparseSet CpuAffinity → Entity → SparseSet CpuAffinity := setRemove

def newEpochInfoSet : Blocks EpochInfo → SparseSet EpochInfo := newSet
def epochInfoSetInsert : SparseSet EpochInfo → Entity → EpochInfo → SparseSet EpochInfo :=
  setInsert
def epochInfoSetGet : SparseSet EpochInfo → Entity → Option UInt32 := setGet
def epochInfoSetRemove : SparseSet EpochInfo → Entity → SparseSet EpochInfo := setRemove

def newPerfCountersSet : Blocks PerfCounters → SparseSet PerfCounters := newSet
def perfCountersSetInsert :
    SparseSet PerfCounters → Entity → PerfCounters → SparseSet PerfCounters := setInsert
def perfCountersSetGet : SparseSet PerfCounters → Entity → Option UInt32 := setGet
def perfCountersSetRemove : SparseSet PerfCounters → Entity → SparseSet PerfCounters := setRemove

def newMemmapSet : Blocks MemoryMap → SparseSet MemoryMap := newSet
def memmapSetInsert : SparseSet MemoryMap → Entity → MemoryMap → SparseSet MemoryMap := setInsert
def memmapSetGet : SparseSet MemoryMap → Entity → Option UInt32 := setGet
def memmapSetRemove : SparseSet MemoryMap → Entity → SparseSet MemoryMap := setRemove

def newIpcCapSet : Blocks IpcCapability → SparseSet IpcCapability := newSet
def ipcCapSetInsert :
    SparseSet IpcCapability → Entity → IpcCapability → SparseSet IpcCapability := setInsert
def ipcCapSetGet : SparseSet IpcCapability → Entity → Option UInt32 := setGet
def ipcCapSetRemove : SparseSet IpcCapability → Entity → SparseSet IpcCapability := setRemove

def newSocketSet : Blocks OpenSocket → SparseSet OpenSocket := newSet
def socketSetInsert : SparseSet OpenSocket → Entity → OpenSocket → SparseSet OpenSocket :=
  setInsert
def socketSetGet : SparseSet OpenSocket → Entity → Option UInt32 := setGet
def socketSetRemove : SparseSet OpenSocket → Entity → SparseSet OpenSocket := setRemove

def newDatablobSet : Blocks DataBlob → SparseSet DataBlob := newSet
def datablobSetInsert : SparseSet DataBlob → Entity → DataBlob → SparseSet DataBlob := setInsert
def datablobSetGet : SparseSet DataBlob → Entity → Option UInt32 := setGet
def datablobSetRemove : SparseSet DataBlob → Entity → SparseSet DataBlob := setRemove

def newNameSet : Blocks NameComponent → SparseSet NameComponent := newSet
def nameSetInsert :
    SparseSet NameComponent → Entity → NameComponent → SparseSet NameComponent := setInsert
def nameSetGet : SparseSet NameComponent → Entity → Option UInt32 := setGet
def nameSetRemove : SparseSet NameComponent → Entity → SparseSet NameComponent := setRemove

/-! ### The ten sets by name -/

/-- The component tables of the world. -/
inductive Table where
  | thread | priority | affinity | epochInfo | perfCounters
  | memmap | ipcCap | socket | datablob | name
  deriving DecidableEq, Repr

/-- The component type of a table. -/
def Table.Component : Table → Type
  | .thread => ThreadState
  | .priority => SchedulingPriority
  | .affinity => CpuAffinity
  | .epochInfo => EpochInfo
  | .perfCounters => PerfCounters
  | .memmap => MemoryMap
  | .ipcCap => IpcCapability
  | .socket => OpenSocket
  | .datablob => DataBlob
  | .name => NameComponent

/-- The four functions of one set. -/
structure SetFns (α : Type) where
  new : Blocks α → SparseSet α
  insert : SparseSet α → Entity → α → SparseSet α
  get : SparseSet α → Entity → Option UInt32
  remove : SparseSet α → Entity → SparseSet α

/-- The functions the source has for a table. -/
def Table.fns : (t : Table) → SetFns t.Component
  | .thread => ⟨newThreadSet, threadSetInsert, threadSetGetMut, threadSetRemove⟩
  | .priority => ⟨newPrioritySet, prioritySetInsert, prioritySetGet, prioritySetRemove⟩
  | .affinity => ⟨newAffinitySet, affinitySetInsert, affinitySetGet, affinitySetRemove⟩
  | .epochInfo => ⟨newEpochInfoSet, epochInfoSetInsert, epochInfoSetGet, epochInfoSetRemove⟩
  | .perfCounters =>
    ⟨newPerfCountersSet, perfCountersSetInsert, perfCountersSetGet, perfCountersSetRemove⟩
  | .memmap => ⟨newMemmapSet, memmapSetInsert, memmapSetGet, memmapSetRemove⟩
  | .ipcCap => ⟨newIpcCapSet, ipcCapSetInsert, ipcCapSetGet, ipcCapSetRemove⟩
  | .socket => ⟨newSocketSet, socketSetInsert, socketSetGet, socketSetRemove⟩
  | .datablob => ⟨newDatablobSet, datablobSetInsert, datablobSetGet, datablobSetRemove⟩
  | .name => ⟨newNameSet, nameSetInsert, nameSetGet, nameSetRemove⟩

/-- A call on a set. -/
inductive SetOp (α : Type) where
  | insert (entity : Entity) (component : α)
  | get (entity : Entity)
  | remove (entity : Entity)

/-- The set after a call. -/
def SetFns.exec {α : Type} (fns : SetFns α) (set : SparseSet α) : SetOp α → SparseSet α
  | .insert entity component => fns.insert set entity component
  | .get _ => set
  | .remove entity => fns.remove set entity

end Keuos.Ecs
