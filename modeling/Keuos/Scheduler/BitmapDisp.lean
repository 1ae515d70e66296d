import Keuos.Lib.Bits
import Keuos.Lib.Prog

/-!
# The two-level dispatcher (`kernel/sched/bitmap_disp.salt`)

`L2_BITMAPS` has a bit for each task, in words of 64, and `L1_BITMAP` a bit for each of these words.
`mark_runnable` and `clear_runnable` are programs whose operations are the atomic OR and AND of
`smp_helpers.S`, each of which updates one word in one step.

The literal in `1 << l2_idx` has no type of its own.  In `clear_runnable` the shift stands beside words of 64
bits and is as wide as these.  In `mark_runnable` it is an argument: the compiler shifts 32 bits and extends
the sign (`shl %cl,%edx; movslq %edx,%rsi` in `isodir/boot/keuos.elf`).

Beside the two globals, the shared state records the tasks whose last call to return was
`mark_runnable`; no program reads this record.
-/

namespace Keuos.BitmapDisp

def idleTaskId : UInt32 := 0xFFFFFFFF

def maxTasks : UInt32 := 4096

/-- `L1_BITMAP` and `L2_BITMAPS`. -/
structure Bitmaps where
  l1 : UInt64
  l2 : UInt32 → UInt64

/-- The zero-initialised globals. -/
def Bitmaps.zero : Bitmaps := ⟨0, fun _ => 0⟩

/-- A word of the two globals. -/
inductive Word where
  | l1
  | l2 (i : UInt32)
  deriving DecidableEq, Repr

/-- `atomic_or_u64` and `atomic_and_u64`. -/
inductive WordOp where
  | or (w : Word) (v : UInt64)
  | and (w : Word) (v : UInt64)
  deriving DecidableEq, Repr

def Bitmaps.get (b : Bitmaps) : Word → UInt64
  | .l1 => b.l1
  | .l2 i => b.l2 i

def Bitmaps.set (b : Bitmaps) (v : UInt64) : Word → Bitmaps
  | .l1 => { b with l1 := v }
  | .l2 i => { b with l2 := Function.update b.l2 i v }

/-- The old value of the word, and the globals after the operation. -/
def WordOp.sem : WordOp → Bitmaps → UInt64 × Bitmaps
  | .or w v, b => (b.get w, b.set (b.get w ||| v) w)
  | .and w v, b => (b.get w, b.set (b.get w &&& v) w)

abbrev WordProg := Prog WordOp UInt64

/-- `1 << i` as an argument: 32 bits, of which the shift count takes five, and the sign extended. -/
def argBit (i : UInt32) : UInt64 := ((1 : UInt32) <<< i).toInt32.toInt64.toUInt64

/-- The second statement of `mark_runnable`. -/
def markSummary (taskId : UInt32) : WordProg Unit :=
  .op (.or .l1 (argBit (taskId / 64))) fun _ => .ret ()

def markRunnable (taskId : UInt32) : WordProg Unit :=
  if taskId ≥ maxTasks then .ret ()
  else .op (.or (.l2 (taskId / 64)) (argBit (taskId % 64))) fun _ => markSummary taskId

/-- `1 << l2_idx` in `clear_runnable`. -/
def taskMask (taskId : UInt32) : UInt64 := 1 <<< (taskId % 64).toUInt64

/-- `1 << l1_idx` in `clear_runnable`. -/
def groupMask (taskId : UInt32) : UInt64 := 1 <<< (taskId / 64).toUInt64

/-- The update of the summary in `clear_runnable`. -/
def clearSummary (taskId : UInt32) : WordProg Unit :=
  .op (.and .l1 (allOnes ^^^ groupMask taskId)) fun _ => .ret ()

def clearRunnable (taskId : UInt32) : WordProg Unit :=
  if taskId ≥ maxTasks then .ret ()
  else .op (.and (.l2 (taskId / 64)) (allOnes ^^^ taskMask taskId)) fun oldL2 =>
    if oldL2 = taskMask taskId then clearSummary taskId else .ret ()

def findFirstSet (bitmap : UInt64) : UInt32 := (ctz bitmap).toUInt32

def getNextRunnable (b : Bitmaps) : UInt32 :=
  let l1Active := b.l1
  if l1Active == 0 then idleTaskId
  else
    let l1Idx := findFirstSet l1Active
    let l2Active := b.l2 l1Idx
    if l2Active == 0 then idleTaskId
    else
      let l2Idx := findFirstSet l2Active
      l1Idx * 64 + l2Idx

-- A mark of task 40 sets the bit of task 8.
example : getNextRunnable ⟨argBit 0, fun _ => argBit 40⟩ = 8 := by decide

/-! ### Many cores -/

inductive Call where
  | mark (taskId : UInt32)
  | clear (taskId : UInt32)
  deriving DecidableEq, Repr

def Call.taskId : Call → UInt32
  | .mark taskId => taskId
  | .clear taskId => taskId

def Call.body : Call → WordProg Unit
  | .mark taskId => markRunnable taskId
  | .clear taskId => clearRunnable taskId

/-- The globals, and the tasks that were marked last. -/
structure Shared where
  maps : Bitmaps
  runnable : UInt32 → Bool

/-- The record of the call that returns. -/
def Call.record (c : Call) (s : Shared) : Shared :=
  { s with runnable := Function.update s.runnable c.taskId (c matches .mark _) }

/-- The cores `ι`, each of which calls the two functions. -/
abbrev cores (ι : Type) : Machine ι WordOp UInt64 Shared where
  Call _ := Call
  Res _ := Unit
  body _ c := c.body
  step _ _ o s := ((o.sem s.maps).1, { s with maps := (o.sem s.maps).2 })
  finish _ c _ _ s := c.record s

/-- No task is runnable, and no call is in progress. -/
def boot (ι : Type) : (cores ι).Config :=
  Machine.start ⟨Bitmaps.zero, fun _ => false⟩

end Keuos.BitmapDisp
