import Keuos.Ecs.SparseSet

/-!
# The world, its command queue and its bridge

`kernel/ecs/entity.salt`, `world.salt`, `commands.salt`, `ecs_bridge.salt` with the name, socket
and performance bridges, and `ecs_retire_entity` of `ecs_epoch.salt`.

The world pointer of the bridge is taken to be set: before `ecs_world_init` every bridge function
returns at once.  A handle travels through the bridge packed into 64 bits (`entityVal`,
`entityOf`).
-/

namespace Keuos.Ecs

/-! ### The entity allocator (`entity.salt`) -/

structure EntityAllocator where
  generations : UInt32 → UInt32
  freeIndices : UInt32 → UInt32
  freeCount : UInt32
  nextFreshId : UInt32

def newEntityAllocator : EntityAllocator where
  generations := fun _ => 1
  freeIndices := fun _ => 0
  freeCount := 0
  nextFreshId := 0

def entityAllocatorAllocate (a : EntityAllocator) : Entity × EntityAllocator :=
  let fc := a.freeCount
  if fc > 0 then
    let newFc := fc - 1
    let id := a.freeIndices newFc
    let gen := a.generations id
    (⟨id, gen⟩, { a with freeCount := newFc })
  else
    let id := a.nextFreshId
    if id ≥ maxEntities then (⟨invalid, 0⟩, a)
    else
      let gen := a.generations id
      (⟨id, gen⟩, { a with nextFreshId := id + 1 })

def entityAllocatorFree (a : EntityAllocator) (e : Entity) : EntityAllocator :=
  if e.id < maxEntities then
    let currentGen := a.generations e.id
    if currentGen == e.gen then
      let fc := a.freeCount
      { a with
        generations := Function.update a.generations e.id (currentGen + 1)
        freeIndices := Function.update a.freeIndices fc e.id
        freeCount := fc + 1 }
    else a
  else a

def entityAllocatorIsAlive (a : EntityAllocator) (e : Entity) : Bool :=
  if e.id ≥ maxEntities then false else a.generations e.id == e.gen

def entityAllocatorCount (a : EntityAllocator) : UInt32 :=
  a.nextFreshId - a.freeCount

/-! ### The world (`world.salt`) -/

structure World where
  alloc : EntityAllocator
  threads : SparseSet ThreadState
  priorities : SparseSet SchedulingPriority
  memMaps : SparseSet MemoryMap
  datablobs : SparseSet DataBlob
  names : SparseSet NameComponent
  ipcCaps : SparseSet IpcCapability
  openSockets : SparseSet OpenSocket
  cpuAffinities : SparseSet CpuAffinity
  epochInfos : SparseSet EpochInfo
  perfCounters : SparseSet PerfCounters

/-- `new_world`, from the contents of the blocks that the constructors allocate. -/
def newWorld (b : (t : Table) → Blocks t.Component) : World where
  alloc := newEntityAllocator
  threads := newThreadSet (b .thread)
  priorities := newPrioritySet (b .priority)
  memMaps := newMemmapSet (b .memmap)
  datablobs := newDatablobSet (b .datablob)
  names := newNameSet (b .name)
  ipcCaps := newIpcCapSet (b .ipcCap)
  openSockets := newSocketSet (b .socket)
  cpuAffinities := newAffinitySet (b .affinity)
  epochInfos := newEpochInfoSet (b .epochInfo)
  perfCounters := newPerfCountersSet (b .perfCounters)

/-- The set of a table. -/
def World.table (w : World) : (t : Table) → SparseSet t.Component
  | .thread => w.threads
  | .priority => w.priorities
  | .affinity => w.cpuAffinities
  | .epochInfo => w.epochInfos
  | .perfCounters => w.perfCounters
  | .memmap => w.memMaps
  | .ipcCap => w.ipcCaps
  | .socket => w.openSockets
  | .datablob => w.datablobs
  | .name => w.names

def worldSpawn (w : World) : Entity × World :=
  let (e, alloc) := entityAllocatorAllocate w.alloc
  (e, { w with alloc := alloc })

def worldDestroy (w : World) (entity : Entity) : World where
  threads := threadSetRemove w.threads entity
  priorities := prioritySetRemove w.priorities entity
  memMaps := memmapSetRemove w.memMaps entity
  datablobs := datablobSetRemove w.datablobs entity
  names := nameSetRemove w.names entity
  ipcCaps := ipcCapSetRemove w.ipcCaps entity
  openSockets := socketSetRemove w.openSockets entity
  cpuAffinities := affinitySetRemove w.cpuAffinities entity
  epochInfos := epochInfoSetRemove w.epochInfos entity
  perfCounters := perfCountersSetRemove w.perfCounters entity
  alloc := entityAllocatorFree w.alloc entity

def worldIsAlive (w : World) (entity : Entity) : Bool :=
  entityAllocatorIsAlive w.alloc entity

def worldEntityCount (w : World) : UInt32 :=
  entityAllocatorCount w.alloc

/-! ### Deferred commands (`commands.salt`) -/

structure Command where
  cmdType : UInt32
  target : Entity
  priority : SchedulingPriority
  memMap : MemoryMap
  threadState : ThreadState
  ipcCap : IpcCapability
  affinity : CpuAffinity
  socket : OpenSocket
  deriving DecidableEq, Repr

def cmdSpawnThread : UInt32 := 1
def cmdUpdatePriority : UInt32 := 2
def cmdUpdateState : UInt32 := 3
def cmdDestroyEntity : UInt32 := 4
def cmdGrantIpcCap : UInt32 := 5
def cmdSetAffinity : UInt32 := 6
def cmdSetMemoryMap : UInt32 := 7
def cmdOpenSocket : UInt32 := 8

def maxCommands : UInt32 := 4096

/-- The two buffers and the number of pending commands. -/
structure Commands where
  activeBuffer : UInt32 → Command
  backBuffer : UInt32 → Command
  count : UInt32

/-- `new_commands`, from the contents of the two allocated buffers. -/
def newCommands (active back : UInt32 → Command) : Commands :=
  ⟨active, back, 0⟩

def commandsPush (cmds : Commands) (cmd : Command) : Commands :=
  let c := cmds.count
  if c < maxCommands then
    { cmds with activeBuffer := Function.update cmds.activeBuffer c cmd, count := c + 1 }
  else cmds

/-- One iteration of the loop of `commands_apply`. -/
def applyCommand (w : World) (cmd : Command) : World :=
  if cmd.cmdType == cmdSpawnThread then
    let (e, w) := worldSpawn w
    let w := { w with threads := threadSetInsert w.threads e cmd.threadState }
    { w with priorities := prioritySetInsert w.priorities e cmd.priority }
  else if cmd.cmdType == cmdUpdatePriority then
    { w with priorities := prioritySetInsert w.priorities cmd.target cmd.priority }
  else if cmd.cmdType == cmdUpdateState then
    { w with
      threads := storeThrough w.threads (threadSetGetMut w.threads cmd.target)
        fun _ => cmd.threadState }
  else if cmd.cmdType == cmdDestroyEntity then
    worldDestroy w cmd.target
  else if cmd.cmdType == cmdGrantIpcCap then
    { w with ipcCaps := ipcCapSetInsert w.ipcCaps cmd.target cmd.ipcCap }
  else if cmd.cmdType == cmdSetAffinity then
    { w with cpuAffinities := affinitySetInsert w.cpuAffinities cmd.target cmd.affinity }
  else if cmd.cmdType == cmdSetMemoryMap then
    { w with memMaps := memmapSetInsert w.memMaps cmd.target cmd.memMap }
  else if cmd.cmdType == cmdOpenSocket then
    { w with openSockets := socketSetInsert w.openSockets cmd.target cmd.socket }
  else w

/-- The commands that are waiting, in the order in which `commands_apply` reads them. -/
def Commands.pending (cmds : Commands) : List Command :=
  (List.range cmds.count.toNat).map fun i => cmds.activeBuffer (UInt32.ofNat i)

/-- `commands_apply`: the buffers are swapped first, and the loop reads the back buffer. -/
def commandsApply (cmds : Commands) (w : World) : Commands × World :=
  let swapped : Commands := ⟨cmds.backBuffer, cmds.activeBuffer, 0⟩
  (swapped, cmds.pending.foldl applyCommand w)

/-! ### The bridge (`ecs_bridge.salt`, `name_bridge.salt`, `socket_bridge.salt`,
`perf_bridge.salt`, `ecs_epoch.salt`) -/

/-- The handle as the bridge returns it: `id | gen << 32`. -/
def entityVal (e : Entity) : UInt64 :=
  e.id.toUInt64 ||| (e.gen.toUInt64 <<< 32)

/-- The handle as the bridge unpacks it. -/
def entityOf (val : UInt64) : Entity :=
  ⟨(val &&& 0xFFFFFFFF).toUInt32, (val >>> 32).toUInt32⟩

def ecsBridgeSpawnThread (w : World) (stepFn stackPtr stackBase : UInt64) : UInt64 × World :=
  let (e, w) := worldSpawn w
  let t : ThreadState :=
    { status := 1, stackPtr := stackPtr, stackBase := stackBase, stepFn := stepFn,
      taskFrame := 0, ctxPtr := 0 }
  let w := { w with threads := threadSetInsert w.threads e t }
  let w := { w with priorities := prioritySetInsert w.priorities e ⟨128, 10⟩ }
  (entityVal e, { w with perfCounters := perfCountersSetInsert w.perfCounters e ⟨0, 0, 0, 0, 0⟩ })

def ecsBridgeSpawnBareEntity (w : World) : UInt64 × World :=
  let (e, w) := worldSpawn w
  (entityVal e, w)

def ecsBridgeSetThreadStatus (w : World) (val : UInt64) (status : UInt32) : World :=
  { w with
    threads := storeThrough w.threads (threadSetGetMut w.threads (entityOf val))
      fun t => { t with status := status } }

def ecsBridgeDestroyThread (w : World) (val : UInt64) : World :=
  worldDestroy w (entityOf val)

def ecsBridgeGrantMemoryMap (w : World) (val pml4Phys size : UInt64) : World :=
  { w with memMaps := memmapSetInsert w.memMaps (entityOf val) ⟨size, pml4Phys⟩ }

def ecsBridgeUpdateMemoryMap (w : World) (val size : UInt64) : World :=
  { w with
    memMaps := storeThrough w.memMaps (memmapSetGet w.memMaps (entityOf val))
      fun m => { m with size := size } }

def ecsBridgeGrantIpcCap (w : World) (val ringPhys proofHint : UInt64) (peerId dir : UInt32) :
    World :=
  { w with
    ipcCaps := ipcCapSetInsert w.ipcCaps (entityOf val) ⟨ringPhys, proofHint, peerId, dir⟩ }

def ecsBridgeGrantOpenSocket (w : World) (val : UInt64) (lp rp rip state ringEid : UInt32) :
    World :=
  { w with
    openSockets := socketSetInsert w.openSockets (entityOf val) ⟨lp, rp, rip, state, ringEid, 0⟩ }

def ecsBridgeStoreName (w : World) (val namePtr nameLen : UInt64) : World :=
  { w with names := nameSetInsert w.names (entityOf val) ⟨namePtr, nameLen⟩ }

/-- The store of `ecs_bridge_increment_counter`. -/
def bumpCounter (counterType : UInt32) (p : PerfCounters) : PerfCounters :=
  if counterType == 0 then { p with cyclesTotal := p.cyclesTotal + 1 }
  else if counterType == 1 then { p with contextSwitches := p.contextSwitches + 1 }
  else if counterType == 2 then { p with ipcMessagesSent := p.ipcMessagesSent + 1 }
  else if counterType == 3 then { p with ipcMessagesRecv := p.ipcMessagesRecv + 1 }
  else if counterType == 4 then { p with pageFaults := p.pageFaults + 1 }
  else p

def ecsBridgeIncrementCounter (w : World) (val : UInt64) (counterType : UInt32) : World :=
  { w with
    perfCounters := storeThrough w.perfCounters (perfCountersSetGet w.perfCounters (entityOf val))
      (bumpCounter counterType) }

/-- `ecs_retire_entity`, with the global epoch and the marks `EPOCH_MARKS` it reads. -/
def ecsRetireEntity (w : World) (currentEpoch : UInt64) (epochMarks : UInt64 → UInt64)
    (entity : Entity) : World :=
  { w with
    epochInfos := epochInfoSetInsert w.epochInfos entity
      ⟨currentEpoch, epochMarks (currentEpoch % 1024)⟩ }

end Keuos.Ecs

/-!
## The ECS scheduler

`kernel/ecs/ecs_scheduler.salt`: the tick is a join of the threads with their affinities and their priorities,
in the order of the dense array of the threads.
-/

namespace Keuos.Ecs

def threadRunnable : UInt32 := 1
def threadRunning : UInt32 := 2

/-- The rows of a set in dense order. -/
def SparseSet.rows {α : Type} (set : SparseSet α) : List UInt32 :=
  (List.range set.count.toNat).map UInt32.ofNat

/-- The affinity of an entity, if it has one, is to the core. -/
def matchesCore (w : World) (coreId : UInt32) (e : Entity) : Bool :=
  match affinitySetGet w.cpuAffinities e with
  | none => true
  | some row => (w.cpuAffinities.dense row).coreId == coreId

/-- The priority level of an entity. -/
def prioLevel (w : World) (e : Entity) : UInt32 :=
  match prioritySetGet w.priorities e with
  | none => 128
  | some row => (w.priorities.dense row).level

/-- One iteration of the loop: the best entity, and its level. -/
def tickRow (w : World) (coreId : UInt32) (best : Entity × UInt32) (i : UInt32) : Entity × UInt32 :=
  if (w.threads.dense i).status == threadRunnable then
    let e := w.threads.entityMap i
    if matchesCore w coreId e then
      if prioLevel w e < best.2 then (e, prioLevel w e) else best
    else best
  else best

def schedulerSystemTick (w : World) (coreId : UInt32) : Entity × World :=
  let best := w.threads.rows.foldl (tickRow w coreId) (⟨invalid, 0⟩, 0xFFFFFFFF)
  if best.1.id != invalid then
    (best.1, { w with
      threads := storeThrough w.threads (threadSetGetMut w.threads best.1)
        fun t => { t with status := threadRunning } })
  else (best.1, w)

def threadBlocked : UInt32 := 3

/-- The status of a thread is moved from `before` to `after`; a thread with another status stays as it is. -/
def moveStatus (w : World) (entity : Entity) (before after : UInt32) : World :=
  { w with
    threads := storeThrough w.threads (threadSetGetMut w.threads entity)
      fun t => if t.status == before then { t with status := after } else t }

def schedulerSystemYield (w : World) (current : Entity) : World :=
  moveStatus w current threadRunning threadRunnable

def schedulerSystemBlock (w : World) (current : Entity) : World :=
  moveStatus w current threadRunning threadBlocked

def schedulerSystemWakeup (w : World) (entity : Entity) : World :=
  moveStatus w entity threadBlocked threadRunnable

/-- `ipc_deliver_packet` (`kernel/ecs/ecs_ipc.salt`). -/
def ipcDeliverPacket (w : World) (ringEntity : UInt32) : Entity × World :=
  if ringEntity ≥ 65536 then (⟨invalid, 0⟩, w)
  else
    let target : Entity := ⟨ringEntity, w.alloc.generations ringEntity⟩
    match ipcCapSetGet w.ipcCaps target with
    | none => (⟨invalid, 0⟩, w)
    | some _ => (target, moveStatus w target threadBlocked threadRunnable)

end Keuos.Ecs
