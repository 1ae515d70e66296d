import Keuos.Lib.Deque
import Mathlib.Data.UInt
import Mathlib.Logic.Function.Basic

/-!
# The work-stealing deques (`kernel/sched/chase_lev.salt`)

Each core owns a deque of task pointers in a circular buffer.  The calls are whole calls: the fences and
compare-and-swaps that the comments of the source ask for are not in the code.

`DEQUE_BUFFERS` is a word memory, in which the buffer of core `i` starts at word `1024 * i`; a buffer
pointer is the index of its first word.
-/

namespace Keuos.ChaseLev

/-- `DEQUE_BUFFERS`, by words. -/
abbrev DequeBuffers := UInt64 → UInt64

def dequeCapacity : Int64 := 1024

def maxCpus : Int64 := 16

structure WorkDeque where
  top : Int64
  bottom : Int64
  buffer : UInt64
  mask : Int64
  deriving DecidableEq, Repr

/-- `q.buffer.offset(i & q.mask)`. -/
def WorkDeque.slot (q : WorkDeque) (i : Int64) : UInt64 :=
  q.buffer + (i &&& q.mask).toUInt64

/-- The loop of `work_deque_init`, with `n` words left to clear. -/
def clearFrom (buffer : UInt64) : Nat → UInt64 → DequeBuffers → DequeBuffers
  | 0, _, words => words
  | n + 1, i, words => clearFrom buffer n (i + 1) (Function.update words (buffer + i) 0)

def workDequeInit (words : DequeBuffers) (coreId capacity : Int64) : DequeBuffers × WorkDeque :=
  let buffer := coreId.toUInt64 * 1024
  (clearFrom buffer capacity.toUInt64.toNat 0 words,
    { top := 0, bottom := 0, buffer, mask := capacity - 1 })

def push (words : DequeBuffers) (q : WorkDeque) (task : UInt64) : DequeBuffers × WorkDeque :=
  let b := q.bottom
  (Function.update words (q.slot b) task, { q with bottom := b + 1 })

def pop (words : DequeBuffers) (q : WorkDeque) : UInt64 × WorkDeque :=
  let b := q.bottom - 1
  let t := q.top
  let size := b - t
  if size < 0 then (0, { q with bottom := t })
  else
    let task := words (q.slot b)
    if size > 0 then (task, { q with bottom := b })
    else (task, { q with top := t + 1, bottom := t + 1 })

def steal (words : DequeBuffers) (q : WorkDeque) : UInt64 × WorkDeque :=
  let t := q.top
  let b := q.bottom
  let size := b - t
  if size ≤ 0 then (0, q)
  else (words (q.slot t), { q with top := t + 1 })

def size (q : WorkDeque) : Int64 :=
  let s := q.bottom - q.top
  if s < 0 then 0 else s

def isEmpty (q : WorkDeque) : Bool :=
  size q ≤ 0

/-- A call on one deque and its buffer. -/
def execDeque (s : DequeBuffers × WorkDeque) :
    DequeOp UInt64 → DequeResult UInt64 × (DequeBuffers × WorkDeque)
  | .push task => (.pushed, push s.1 s.2 task)
  | .pop => (.taken (pop s.1 s.2).1, s.1, (pop s.1 s.2).2)
  | .steal => (.taken (steal s.1 s.2).1, s.1, (steal s.1 s.2).2)

/-! ### The deques of all cores -/

/-- `DEQUES` and the buffers. -/
structure Deques where
  words : DequeBuffers
  deques : Int64 → WorkDeque

/-- `try_steal_from`. -/
def trySteal (s : Deques) (targetCpu : Int64) : UInt64 × Deques :=
  if targetCpu < 0 ∨ targetCpu ≥ maxCpus then (0, s)
  else
    let q := s.deques targetCpu
    if q.mask > 0 then
      let r := steal s.words q
      (r.1, { s with deques := Function.update s.deques targetCpu r.2 })
    else (0, s)

/-- The loop of `steal_scan`, with `n` offsets left. -/
def stealScanFrom (myCpu maxCores : Int64) : Nat → Int64 → Deques → UInt64 × Deques
  | 0, _, s => (0, s)
  | n + 1, offset, s =>
    let target := (myCpu + offset) % maxCores
    let r := trySteal s target
    if r.1 ≠ 0 then r else stealScanFrom myCpu maxCores n (offset + 1) r.2

/-- `steal_scan`, called on core `myCpu`: the offsets are `1 .. max_cores - 1`. -/
def stealScan (s : Deques) (myCpu maxCores : Int64) : UInt64 × Deques :=
  stealScanFrom myCpu maxCores (maxCores.toInt - 1).toNat 1 s

def chaseLevStealScan (s : Deques) (myCpu maxCores : Int64) : UInt64 × Deques :=
  stealScan s myCpu maxCores

/-- The call of `chase_lev_steal_scan` in one iteration of `enter_idle_loop` on core `cpu`. -/
def idleSteal (s : Deques) (cpu : UInt64) : UInt64 × Deques :=
  chaseLevStealScan s cpu.toInt64 cpu.toInt64

end Keuos.ChaseLev
