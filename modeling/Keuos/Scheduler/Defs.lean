import Keuos.Lib.Bits
import Keuos.Lib.Run

/-!
# The fiber scheduler (`kernel/core/scheduler.salt`)

The state is the `SchedulerState` of one core.  Every function of the source that reads
`percpu.get_cpu_id()` acts on that state; the index computations are the source's `u64`
arithmetic, so the arrays are functions of a `UInt64` index (`fibers` has 256 entries and
`l2_details` 16).

What a call learns from outside the module is an argument of its model: the slab slot that
`pop_stack` returns, the entity that `ecs_bridge_spawn_thread` returns, and, for `do_dispatch`,
what the invoked task does (it may spawn fibers before it returns), its poll result and the
value of `GS:[56]`.  `pushed` records the slab slots handed to `push_stack`.  The calls that do
not touch the scheduler's state (tracing, the `vmm` present bits, the ECS status column) are
left out.
-/

namespace Keuos.Scheduler

def pollReady : Int64 := 1

def maxFibers : UInt64 := 256

def slabSlotSize : UInt64 := 16384

def l2Groups : Nat := 16

/-- The value `find_free_slot` and the spawn functions return when no slot is free. -/
def noSlot : UInt64 := 9999

structure Fiber where
  id : UInt64
  stackPtr : UInt64
  stackBase : UInt64
  active : UInt64
  stepFn : UInt64
  taskFrame : UInt64
  ctxPtr : UInt64
  ecsEntityVal : UInt64
  deriving DecidableEq, Repr

/-- A zeroed fiber. -/
def Fiber.zero : Fiber := ⟨0, 0, 0, 0, 0, 0, 0, 0⟩

structure SchedulerState where
  fibers : UInt64 → Fiber
  current : UInt64
  count : UInt64
  nextId : UInt64
  yieldPending : Bool
  l1Summary : UInt64
  l2Details : UInt64 → UInt64
  pushed : List UInt64

/-- The initial value of one element of `SCHED_ARRAY`. -/
def SchedulerState.zero : SchedulerState where
  fibers := fun _ => Fiber.zero
  current := 0
  count := 0
  nextId := 1
  yieldPending := false
  l1Summary := 0
  l2Details := fun _ => 0
  pushed := []

/-- The two assembly routines whose results reach the state: the address of
`invoke_preemptive_thread`, which is not null, and `preemptive_stack_init`. -/
structure Env where
  invokePreemptiveThread : UInt64
  invokePreemptiveThread_ne_zero : invokePreemptiveThread ≠ 0
  preemptiveStackInit : UInt64 → UInt64 → UInt64

/-- `SCHED_ARRAY[cpu].fibers[slot] = f(SCHED_ARRAY[cpu].fibers[slot])`. -/
def SchedulerState.modifyFiber (s : SchedulerState) (slot : UInt64) (f : Fiber → Fiber) :
    SchedulerState :=
  { s with fibers := Function.update s.fibers slot (f (s.fibers slot)) }

/-- `push_stack(ptr)`. -/
def SchedulerState.pushStack (s : SchedulerState) (ptr : UInt64) : SchedulerState :=
  { s with pushed := s.pushed ++ [ptr] }

def init (s : SchedulerState) : SchedulerState :=
  { s.modifyFiber 0 (fun f => { f with active := 0, id := 0, stackBase := 0 }) with
    current := 0
    count := 0
    yieldPending := false }

def bitmapSet (s : SchedulerState) (fiberId : UInt64) : SchedulerState :=
  let l1Idx := fiberId / 64
  let l2Bit := fiberId % 64
  let bitMask : UInt64 := 1 <<< l2Bit
  let groupMask : UInt64 := 1 <<< l1Idx
  { s with
    l2Details := Function.update s.l2Details l1Idx (s.l2Details l1Idx ||| bitMask)
    l1Summary := s.l1Summary ||| groupMask }

def bitmapClear (s : SchedulerState) (fiberId : UInt64) : SchedulerState :=
  let l1Idx := fiberId / 64
  let l2Bit := fiberId % 64
  let bitMask : UInt64 := 1 <<< l2Bit
  let invMask := bitMask ^^^ allOnes
  let newL2 := s.l2Details l1Idx &&& invMask
  let s' := { s with l2Details := Function.update s.l2Details l1Idx newL2 }
  if newL2 == 0 then
    let groupMask : UInt64 := 1 <<< l1Idx
    let invGroup := groupMask ^^^ allOnes
    { s' with l1Summary := s.l1Summary &&& invGroup }
  else s'

def maskAboveBit (b : UInt64) : UInt64 :=
  if b ≥ 63 then 0
  else
    let shift := b + 1
    let below : UInt64 := (1 <<< shift) - 1
    below ^^^ allOnes

def maskBelowBit (b : UInt64) : UInt64 :=
  if b == 0 then 0 else (1 <<< b) - 1

/-- The loop of `find_free_slot`, with `n` groups left to look at. -/
def findFreeSlotFrom (s : SchedulerState) : Nat → UInt64 → UInt64
  | 0, _ => noSlot
  | n + 1, group =>
    let l2Val := s.l2Details group
    let freeMask₀ := l2Val ^^^ allOnes
    let freeMask := if group == 0 then freeMask₀ &&& (allOnes ^^^ 1) else freeMask₀
    if freeMask != 0 then
      let slot := group * 64 + ctz freeMask
      if slot < maxFibers then slot else findFreeSlotFrom s n (group + 1)
    else findFreeSlotFrom s n (group + 1)

def findFreeSlot (s : SchedulerState) : UInt64 :=
  findFreeSlotFrom s l2Groups 0

/-- `find_next_fiber`: the four phases of the bitmap scan. -/
def findNextFiber (s : SchedulerState) (current l2Cur l1 : UInt64) : UInt64 :=
  let curGroup := current / 64
  let curBit := current % 64
  let above := l2Cur &&& maskAboveBit curBit
  if above != 0 then curGroup * 64 + ctz above
  else
    let l1Above := l1 &&& maskAboveBit curGroup
    if l1Above != 0 then
      let grp := ctz l1Above
      grp * 64 + ctz (s.l2Details grp)
    else
      let l1Below := l1 &&& maskBelowBit curGroup
      if l1Below != 0 then
        let grp := ctz l1Below
        grp * 64 + ctz (s.l2Details grp)
      else
        let below := l2Cur &&& maskBelowBit curBit
        if below != 0 then curGroup * 64 + ctz below else current

def releaseFiberResources (s : SchedulerState) (slot : UInt64) : SchedulerState :=
  let s₁ := s.modifyFiber slot fun f =>
    { f with active := 0, stepFn := 0, ctxPtr := 0, ecsEntityVal := 0 }
  let tf := (s₁.fibers slot).taskFrame
  let s₂ := if tf != 0 then
      (s₁.modifyFiber slot fun f => { f with taskFrame := 0 }).pushStack tf
    else s₁
  let sb := (s₂.fibers slot).stackBase
  if sb != 0 then
    (s₂.modifyFiber slot fun f => { f with stackBase := 0, stackPtr := 0 }).pushStack sb
  else s₂

/-- `save_preempt_context`, with the value read from `GS:[56]`. -/
def savePreemptContext (s : SchedulerState) (slot savedRsp : UInt64) : SchedulerState :=
  if savedRsp != 0 then
    s.modifyFiber slot fun f => { f with stackPtr := savedRsp, ctxPtr := savedRsp }
  else s

/-- The last three statements of both spawn functions. -/
def admitFiber (s : SchedulerState) (slot : UInt64) : SchedulerState :=
  bitmapSet { s with nextId := s.nextId + 1, count := s.count + 1 } slot

/-- `spawn`: `stackBase` is what `pop_stack` returns and `ecsVal` what
`ecs_bridge_spawn_thread` returns. -/
def spawn (env : Env) (s : SchedulerState) (entryAddr stackBase ecsVal : UInt64) :
    SchedulerState × UInt64 :=
  let slot := findFreeSlot s
  if slot == noSlot then (s, noSlot)
  else
    let stackTop := (stackBase + slabSlotSize) &&& 0xFFFFFFFFFFFFFFF0
    let stackPtr := env.preemptiveStackInit stackTop entryAddr
    let s₁ := s.modifyFiber slot fun f =>
      { f with
        id := s.nextId
        active := 1
        stepFn := env.invokePreemptiveThread
        taskFrame := 0
        stackBase := stackBase
        stackPtr := stackPtr
        ctxPtr := stackPtr
        ecsEntityVal := ecsVal }
    (admitFiber s₁ slot, slot)

/-- The arguments of `spawn_async`, with its two `requires` clauses. -/
structure AsyncArgs where
  stepFnAddr : UInt64
  frameSize : UInt64
  stepFnAddr_ne_zero : stepFnAddr ≠ 0
  frameSize_pos : frameSize > 0

/-- `spawn_async`: `framePtr` is what `pop_stack` returns and `ecsVal` what
`ecs_bridge_spawn_thread` returns. -/
def spawnAsync (s : SchedulerState) (args : AsyncArgs) (framePtr ecsVal : UInt64) :
    SchedulerState × UInt64 :=
  let slot := findFreeSlot s
  if slot == noSlot then (s, noSlot)
  else
    let s₁ := s.modifyFiber slot fun f =>
      { f with
        id := s.nextId
        active := 1
        stepFn := args.stepFnAddr
        taskFrame := framePtr
        stackPtr := 0
        stackBase := 0
        ctxPtr := framePtr
        ecsEntityVal := ecsVal }
    (admitFiber s₁ slot, slot)

/-- A call of one of the two spawn functions, with the answers it receives. -/
inductive SpawnCall where
  | spawn (entryAddr stackBase ecsVal : UInt64)
  | spawnAsync (args : AsyncArgs) (framePtr ecsVal : UInt64)

/-- The state after a spawn call. -/
def SpawnCall.exec (env : Env) (s : SchedulerState) : SpawnCall → SchedulerState
  | .spawn entryAddr stackBase ecsVal => (Scheduler.spawn env s entryAddr stackBase ecsVal).1
  | .spawnAsync args framePtr ecsVal => (Scheduler.spawnAsync s args framePtr ecsVal).1

/-- What the invoked task does: the fibers it spawns, the poll result it returns and the context
it leaves in `GS:[56]`. -/
structure Invocation where
  spawns : List SpawnCall
  status : Int64
  savedRsp : UInt64

/-- What `do_dispatch` does after `invoke_task` has returned. -/
def finishDispatch (s : SchedulerState) (next : UInt64) (inv : Invocation) : SchedulerState :=
  if inv.status == pollReady then
    let s₁ := bitmapClear (releaseFiberResources s next) next
    { s₁ with count := s₁.count - 1 }
  else savePreemptContext s next inv.savedRsp

def doDispatch (env : Env) (s : SchedulerState) (inv : Invocation) : SchedulerState :=
  let current := s.current
  let l2Cur := s.l2Details (current / 64)
  let next := findNextFiber s current l2Cur s.l1Summary
  if next == current then s
  else
    let s₁ := { s with current := next }
    let s₂ := runOps (SpawnCall.exec env) s₁ inv.spawns
    let s₃ := finishDispatch s₂ next inv
    { s₃ with current := current }

/-- The calls of a run on one core. -/
inductive Op where
  | init
  | spawn (call : SpawnCall)
  | dispatch (inv : Invocation)

/-- One call. -/
def exec (env : Env) (s : SchedulerState) : Op → SchedulerState
  | .init => Scheduler.init s
  | .spawn call => call.exec env s
  | .dispatch inv => doDispatch env s inv

/-- The state after a sequence of calls on a core that starts zeroed. -/
def run (env : Env) (ops : List Op) : SchedulerState :=
  runOps (exec env) SchedulerState.zero ops

end Keuos.Scheduler

/-!
## Work stealing (`kernel/sched/work_steal.salt`)

A core without work takes a fiber of another core.  The state is `SCHED_ARRAY`, the scheduler states of
the sixteen cores; the accessors `sched_steal_*` of `kernel/core/scheduler.salt` act on one of them.

What the stolen task does is given by its poll result and by the context that it leaves in `GS:[56]`.
The compare-and-swap loops of `sched_steal_clear_victim` succeed at the first try: no other core acts
during the call.
-/

namespace Keuos.Scheduler

abbrev SchedArray := UInt64 → SchedulerState

/-- `SCHED_ARRAY[cpu] = f(SCHED_ARRAY[cpu])`. -/
def SchedArray.modify (cores : SchedArray) (cpu : UInt64) (f : SchedulerState → SchedulerState) :
    SchedArray :=
  Function.update cores cpu (f (cores cpu))

def schedStealMigrate (cores : SchedArray) (dstCpu dstSlot srcCpu srcSlot : UInt64) : SchedArray :=
  let src := (cores srcCpu).fibers srcSlot
  cores.modify dstCpu fun s => s.modifyFiber dstSlot fun _ => { src with active := 1 }

/-- What `sched_steal_clear_victim` does to the victim core. -/
def clearVictim (s : SchedulerState) (victimSlot : UInt64) : SchedulerState :=
  let vL1Idx := victimSlot / 64
  let vL2Bit := victimSlot % 64
  let vBitMask : UInt64 := 1 <<< vL2Bit
  let vInvMask := vBitMask ^^^ allOnes
  let newVal := s.l2Details vL1Idx &&& vInvMask
  let s₁ := { s with l2Details := Function.update s.l2Details vL1Idx newVal }
  let s₂ := if newVal == 0 then
      let vGroupMask : UInt64 := 1 <<< vL1Idx
      let vInvGroup := vGroupMask ^^^ allOnes
      { s₁ with l1Summary := s₁.l1Summary &&& vInvGroup }
    else s₁
  let s₃ := s₂.modifyFiber victimSlot fun f =>
    { f with active := if f.active == 1 then 0 else f.active, ecsEntityVal := 0 }
  { s₃ with count := s₃.count - 1 }

def schedStealClearVictim (cores : SchedArray) (victimCpu victimSlot : UInt64) : SchedArray :=
  cores.modify victimCpu (clearVictim · victimSlot)

def schedStealInitCore (s : SchedulerState) : SchedulerState :=
  { s.modifyFiber 0 (fun f => { f with active := 1, id := 0, stackBase := 0 }) with
    current := 0
    count := 1
    yieldPending := false
    l2Details := Function.update s.l2Details 0 1
    l1Summary := 1 }

/-- `sched_steal_release`: its first statements are those of `release_fiber_resources`. -/
def schedStealRelease (s : SchedulerState) (slot l1Bit : UInt64) : SchedulerState :=
  let s₁ := releaseFiberResources s slot
  let invBit := l1Bit ^^^ allOnes
  { s₁ with l1Summary := s₁.l1Summary &&& invBit, count := s₁.count - 1 }

def schedStealSavePreempt (s : SchedulerState) (slot savedRsp : UInt64) : SchedulerState :=
  savePreemptContext s slot savedRsp

/-- `execute_stolen_fiber`, for a task that returns `status` and leaves `savedRsp` in `GS:[56]`. -/
def executeStolenFiber (cores : SchedArray) (cpu localSlot l1Bit : UInt64) (status : Int64)
    (savedRsp : UInt64) : SchedArray :=
  let step := ((cores cpu).fibers localSlot).stepFn
  if step == 0 then cores
  else if status == pollReady then cores.modify cpu (schedStealRelease · localSlot l1Bit)
  else cores.modify cpu (schedStealSavePreempt · localSlot savedRsp)

/-- The search of `dispatch_stolen` for a local slot, with `n` slots left to look at. -/
def localSlotFrom (l1 : UInt64) : Nat → UInt64 → Option UInt64
  | 0, _ => none
  | n + 1, localSlot =>
    if l1 &&& (1 <<< localSlot) == 0 then some localSlot else localSlotFrom l1 n (localSlot + 1)

/-- The local slot that `dispatch_stolen` chooses. -/
def localSlot? (l1 : UInt64) : Option UInt64 :=
  localSlotFrom l1 63 1

def victimCpu (stolenWord : UInt64) : UInt64 := (stolenWord >>> 16) &&& 0xFFFF
def victimSlot (stolenWord : UInt64) : UInt64 := stolenWord &&& 0xFFFF

def dispatchStolen (cores : SchedArray) (cpu stolenWord : UInt64) (status : Int64)
    (savedRsp : UInt64) : SchedArray :=
  let vCpu := victimCpu stolenWord
  let vSlot := victimSlot stolenWord
  if ((cores vCpu).fibers vSlot).active == 0 then cores
  else
    let l1 := (cores cpu).l1Summary
    let invBitmap := l1 ^^^ allOnes
    if invBitmap == 0 then cores
    else
      match localSlot? l1 with
      | none => cores
      | some localSlot =>
        let cores₁ := schedStealMigrate cores cpu localSlot vCpu vSlot
        let cores₂ := schedStealClearVictim cores₁ vCpu vSlot
        executeStolenFiber cores₂ cpu localSlot (1 <<< localSlot) status savedRsp

end Keuos.Scheduler
