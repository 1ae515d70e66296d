import Keuos.Ebr.Defs
import Keuos.Ecs.World

/-!
# Runs of the entity system

A `Call` is one call into the world: the world's own functions, the bridge, `ecs_retire_entity`,
or one command of a `commands_apply`.  `Life` is the world together with the lifecycle of every
handle, which the code does not record: a handle is `live` from the `world_spawn` that returns it
until a `world_destroy` of it, then `destroyed`.  An `Op` of a run is a call, a `commands_push`, or
a `commands_apply` of everything that was pushed.
-/

namespace Keuos.Ecs

/-- A call into the world. -/
inductive Call where
  | worldSpawn
  | worldDestroy (entity : Entity)
  | spawnThread (stepFn stackPtr stackBase : UInt64)
  | spawnBareEntity
  | setThreadStatus (val : UInt64) (status : UInt32)
  | destroyThread (val : UInt64)
  | grantMemoryMap (val pml4Phys size : UInt64)
  | updateMemoryMap (val size : UInt64)
  | grantIpcCap (val ringPhys proofHint : UInt64) (peerId dir : UInt32)
  | grantOpenSocket (val : UInt64) (lp rp rip state ringEid : UInt32)
  | storeName (val namePtr nameLen : UInt64)
  | incrementCounter (val : UInt64) (counterType : UInt32)
  | retireEntity (currentEpoch : UInt64) (epochMarks : UInt64 → UInt64) (entity : Entity)
  | command (cmd : Command)

/-- The world after a call. -/
def Call.exec (w : World) : Call → World
  | .worldSpawn => (Ecs.worldSpawn w).2
  | .worldDestroy entity => Ecs.worldDestroy w entity
  | .spawnThread stepFn stackPtr stackBase => (ecsBridgeSpawnThread w stepFn stackPtr stackBase).2
  | .spawnBareEntity => (ecsBridgeSpawnBareEntity w).2
  | .setThreadStatus val status => ecsBridgeSetThreadStatus w val status
  | .destroyThread val => ecsBridgeDestroyThread w val
  | .grantMemoryMap val pml4Phys size => ecsBridgeGrantMemoryMap w val pml4Phys size
  | .updateMemoryMap val size => ecsBridgeUpdateMemoryMap w val size
  | .grantIpcCap val ringPhys proofHint peerId dir =>
    ecsBridgeGrantIpcCap w val ringPhys proofHint peerId dir
  | .grantOpenSocket val lp rp rip state ringEid =>
    ecsBridgeGrantOpenSocket w val lp rp rip state ringEid
  | .storeName val namePtr nameLen => ecsBridgeStoreName w val namePtr nameLen
  | .incrementCounter val counterType => ecsBridgeIncrementCounter w val counterType
  | .retireEntity currentEpoch epochMarks entity =>
    ecsRetireEntity w currentEpoch epochMarks entity
  | .command cmd => applyCommand w cmd

/-! ### Lifecycles -/

inductive Phase where
  | unused | live | destroyed
  deriving DecidableEq, Repr

/-- What a call does to the lifecycle of a handle. -/
inductive Event where
  | spawned (entity : Entity)
  | destroyed (entity : Entity)
  deriving DecidableEq, Repr

def Call.event (w : World) : Call → Option Event
  | .worldSpawn => some (.spawned (Ecs.worldSpawn w).1)
  | .worldDestroy entity => some (.destroyed entity)
  | .spawnThread .. => some (.spawned (Ecs.worldSpawn w).1)
  | .spawnBareEntity => some (.spawned (Ecs.worldSpawn w).1)
  | .destroyThread val => some (.destroyed (entityOf val))
  | .command cmd =>
    if cmd.cmdType == cmdSpawnThread then some (.spawned (Ecs.worldSpawn w).1)
    else if cmd.cmdType == cmdDestroyEntity then some (.destroyed cmd.target)
    else none
  | _ => none

/-- The lifecycles after an event.  A `world_spawn` that finds the table full returns the invalid
handle, which is no entity. -/
def note (phase : Entity → Phase) : Option Event → Entity → Phase
  | some (.spawned e) => if e.id = invalid then phase else Function.update phase e .live
  | some (.destroyed e) => if phase e = .live then Function.update phase e .destroyed else phase
  | none => phase

/-- The world and the lifecycle of every handle. -/
structure Life where
  world : World
  phase : Entity → Phase

def Life.exec (s : Life) (call : Call) : Life where
  world := call.exec s.world
  phase := note s.phase (call.event s.world)

/-- A destroy whose generation check passes is of a handle that is live, and its generation does
not wrap around to the first one. -/
def Life.Sound (s : Life) (call : Call) : Prop :=
  ∀ e, call.event s.world = some (.destroyed e) → worldIsAlive s.world e = true →
    s.phase e = .live ∧ e.gen ≠ 0

/-! ### Runs -/

inductive Op where
  | call (call : Call)
  | push (cmd : Command)
  | apply

structure State where
  life : Life
  cmds : Commands

/-- `commands_apply` is one `Call.command` after the other (`world_applyAll`). -/
def State.exec (s : State) : Op → State
  | .call call => { s with life := s.life.exec call }
  | .push cmd => { s with cmds := commandsPush s.cmds cmd }
  | .apply =>
    { life := runOps Life.exec s.life (s.cmds.pending.map Call.command)
      cmds := (commandsApply s.cmds s.life.world).1 }

/-- Every call of the step is sound, those that a `commands_apply` makes included. -/
def State.Sound (s : State) : Op → Prop
  | .call call => s.life.Sound call
  | .push _ => True
  | .apply => Admissible Life.exec Life.Sound s.life (s.cmds.pending.map Call.command)

/-- The state that `ecs_world_init` and `new_commands` set up. -/
def initState (b : (t : Table) → Blocks t.Component) (active back : UInt32 → Command) : State where
  life := ⟨newWorld b, fun _ => .unused⟩
  cmds := newCommands active back

/-! ### Calls through a handle -/

/-- The call acts through the handle `d`. -/
def Call.Through (d : Entity) : Call → Prop
  | .worldSpawn => False
  | .worldDestroy entity => entity = d
  | .spawnThread .. => False
  | .spawnBareEntity => False
  | .setThreadStatus val _ => entityOf val = d
  | .destroyThread val => entityOf val = d
  | .grantMemoryMap val _ _ => entityOf val = d
  | .updateMemoryMap val _ => entityOf val = d
  | .grantIpcCap val _ _ _ _ => entityOf val = d
  | .grantOpenSocket val _ _ _ _ _ => entityOf val = d
  | .storeName val _ _ => entityOf val = d
  | .incrementCounter val _ => entityOf val = d
  | .retireEntity _ _ entity => entity = d
  | .command cmd => cmd.target = d

/-- The table into which a command inserts a component of its target. -/
def Command.inserts (cmd : Command) : Option Table :=
  if cmd.cmdType == cmdUpdatePriority then some .priority
  else if cmd.cmdType == cmdGrantIpcCap then some .ipcCap
  else if cmd.cmdType == cmdSetAffinity then some .affinity
  else if cmd.cmdType == cmdSetMemoryMap then some .memmap
  else if cmd.cmdType == cmdOpenSocket then some .socket
  else none

/-- The table into which a call inserts a component of the handle it acts through. -/
def Call.inserts : Call → Option Table
  | .grantMemoryMap .. => some .memmap
  | .grantIpcCap .. => some .ipcCap
  | .grantOpenSocket .. => some .socket
  | .storeName .. => some .name
  | .retireEntity .. => some .epochInfo
  | .command cmd => cmd.inserts
  | _ => none

end Keuos.Ecs

/-!
## Epoch reclamation of entities

`ecs_epoch_reclaim` of `kernel/ecs/ecs_epoch.salt`, with the epochs that `kernel/lib/ebr.salt` returns to it.
The reset of the arena behind the loop is commented out in the source, so `EPOCH_MARKS` has no effect there.
-/

namespace Keuos.Ecs

/-- The loop over the retired entities.  It does not advance after a removal, since the last row has moved to
the place of the removed one.  A loop that does not end runs out of fuel. -/
def reclaimLoop (safeEpoch : UInt64) : Nat → World → UInt32 → Option World
  | 0, _, _ => none
  | fuel + 1, w, idx =>
    if idx < w.epochInfos.count then
      let entity := w.epochInfos.entityMap idx
      let info := w.epochInfos.dense idx
      if info.retireEpoch < safeEpoch then reclaimLoop safeEpoch fuel (worldDestroy w entity) idx
      else reclaimLoop safeEpoch fuel w (idx + 1)
    else some w

/-- `ecs_epoch_reclaim`, when its loop makes at most `fuel` tests.  The loop that computes the safe epoch is
the one of `ebr_reclaim`. -/
def ecsEpochReclaim (fuel : Nat) (w : World) (ebr : Ebr.State) : Option World :=
  reclaimLoop (Ebr.safeEpoch ebr) fuel w 0

end Keuos.Ecs
