import Keuos.Lib.Traced
import Mathlib.Logic.Function.Basic

/-!
# Iterative quicksort

`quicksort_i64` of `user/basalt/algorithm/sort.salt`, as a program on an array of `i64` values and on its work
stack, which are different memory.  Its events are the indices of the array and the slots of the stack that it
reads and writes.

The indices are between 0 and the length of an array, so no sum of them overflows.  The slots of the stack are
not bounded here: the source allocates 128 of them and tests nothing.
-/

namespace Keuos.Basalt

/-- An index of the array or a slot of the work stack that is read or written. -/
inductive Access where
  | array (index : Int)
  | slot (index : Int)
  deriving DecidableEq, Repr

/-- The array and the work stack. -/
structure Store where
  arr : Int → Int64
  stack : Int → Int

abbrev Sorter := Traced Store Access

open Traced

def readArr (i : Int) : Sorter Int64 := do
  emit (.array i)
  call fun s => (s.arr i, s)

def writeArr (i : Int) (v : Int64) : Sorter Unit := do
  emit (.array i)
  modify fun s => { s with arr := Function.update s.arr i v }

def readSlot (i : Int) : Sorter Int := do
  emit (.slot i)
  call fun s => (s.stack i, s)

def writeSlot (i v : Int) : Sorter Unit := do
  emit (.slot i)
  modify fun s => { s with stack := Function.update s.stack i v }

/-- The selection of the pivot: the median of three elements goes to the end of the range. -/
def medianToHigh (low high : Int) : Sorter Unit := do
  let mid := low + (high - low) / 2
  let valLow ← readArr low
  let valMid ← readArr mid
  let valHigh ← readArr high
  if (valLow ≤ valMid ∧ valMid ≤ valHigh) ∨ (valHigh ≤ valMid ∧ valMid ≤ valLow) then do
    writeArr mid valHigh
    writeArr high valMid
  else if (valMid ≤ valLow ∧ valLow ≤ valHigh) ∨ (valHigh ≤ valLow ∧ valLow ≤ valMid) then do
    writeArr low valHigh
    writeArr high valLow
  else pure ()

/-- The loop of the partition, with `n` rounds left. -/
def partitionLoop (pivot : Int64) : Nat → Int → Int → Sorter Int
  | 0, i, _ => pure i
  | n + 1, i, j => do
    let vj ← readArr j
    if vj ≤ pivot then do
      let vi ← readArr (i + 1)
      writeArr (i + 1) vj
      writeArr j vi
      partitionLoop pivot n (i + 1) (j + 1)
    else partitionLoop pivot n i (j + 1)

/-- The partition, which returns the index of the pivot. -/
def partition (low high : Int) : Sorter Int := do
  let pivot ← readArr high
  let i ← partitionLoop pivot (high - low).toNat (low - 1) low
  let vi ← readArr (i + 1)
  writeArr (i + 1) pivot
  writeArr high vi
  pure (i + 1)

/-- The pivot of a range is selected and put into its place. -/
def placePivot (low high : Int) : Sorter Int := do
  medianToHigh low high
  partition low high

/-- Push a range, and return the new `top`. -/
def push (top low high : Int) : Sorter Int := do
  writeSlot (top + 1) low
  writeSlot (top + 2) high
  pure (top + 2)

/-- Push a part of a range, if it has more than one element. -/
def pushPart (top low high : Int) : Sorter Int :=
  if low < high then push top low high else pure top

/-- The pushes of an iteration: the left part, and then the right part. -/
def pushParts (top low high pivotIdx : Int) : Sorter Int := do
  let top ← pushPart top low (pivotIdx - 1)
  pushPart top (pivotIdx + 1) high

/-- The loop over the work stack.  It returns `false` when the fuel does not suffice. -/
def quicksortLoop : Nat → Int → Sorter Bool
  | 0, _ => pure false
  | fuel + 1, top =>
    if top ≥ 0 then do
      let high ← readSlot top
      let low ← readSlot (top - 1)
      if low ≥ high then quicksortLoop fuel (top - 2)
      else do
        let pivotIdx ← placePivot low high
        let top ← pushParts (top - 2) low high pivotIdx
        quicksortLoop fuel top
    else pure true

/-- `quicksort_i64`, with the address that `malloc` returned for the work stack. -/
def quicksortI64 (fuel : Nat) (stack : UInt64) (initialLow initialHigh : Int) : Sorter Bool :=
  if initialHigh ≤ initialLow then pure true
  else if stack = 0 then pure true
  else do
    let top ← push (-1) initialLow initialHigh
    quicksortLoop fuel top

end Keuos.Basalt
