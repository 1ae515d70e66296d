import Keuos.Lib.Run
import Mathlib.Data.Fintype.Basic

/-!
# Epoch-based reclamation (`kernel/lib/ebr.salt`)

The state is the module's globals.  `RETIRE_LIST` packs the sixteen retire lists back to back,
two words an entry, and the code indexes it with wrapping `u64` arithmetic and no bounds check,
so `retireList` is a word memory indexed by `UInt64`.  The array proper is its first 16384 words
(16 cores, 512 entries, 2 words each).  The next global, `RETIRE_COUNT`, lies directly behind it:
the indices `16384 .. 16399` name the sixteen counts (`State.word`, `State.setWord`), and an index
past these names the heap of another module, which no function here reads otherwise.

Three fields record what the code does and are read by none of its functions: `pushed` is the
sequence of pointers handed to `push_stack`, `writes` the sequence of `RETIRE_LIST` indices
written, each with the cpu whose list was being updated, and `retired` the sequence of
retirements, each with its cpu, the epoch at which it happened and its pointer.
-/

namespace Keuos.Ebr

/-- A cpu number, `0 .. MAX_CPUS - 1`. -/
abbrev Cpu := Fin 16

def maxRetirePerCore : UInt64 := 512

/-- The globals of `ebr.salt`, with the three logs described above. -/
structure State where
  globalEpoch : UInt64
  coreEpoch : Cpu → UInt64
  coreInEpoch : Cpu → UInt64
  retireList : UInt64 → UInt64
  retireCount : Cpu → UInt64
  pushed : List UInt64
  writes : List (Cpu × UInt64)
  retired : List (Cpu × UInt64 × UInt64)

/-- The zero-initialised globals. -/
def init : State where
  globalEpoch := 0
  coreEpoch := fun _ => 0
  coreInEpoch := fun _ => 0
  retireList := fun _ => 0
  retireCount := fun _ => 0
  pushed := []
  writes := []
  retired := []

/-- The cpu number as the `u64` the code computes with. -/
def Cpu.toUInt64 (cpu : Cpu) : UInt64 := UInt64.ofNat cpu.val

/-- `cpu * MAX_RETIRE_PER_CORE * 2`, the first word of a cpu's region. -/
def base (cpu : Cpu) : UInt64 := Cpu.toUInt64 cpu * maxRetirePerCore * 2

/-- The word of `RETIRE_COUNT` that an index of `RETIRE_LIST` names, if it is one behind the
array. -/
def countWord (i : UInt64) : Option Cpu :=
  if h : 16384 ≤ i.toNat ∧ i.toNat < 16400 then some ⟨i.toNat - 16384, by omega⟩ else none

/-- `RETIRE_LIST[i]`. -/
def State.word (s : State) (i : UInt64) : UInt64 :=
  match countWord i with
  | some k => s.retireCount k
  | none => s.retireList i

/-- `RETIRE_LIST[i] = v`, done on behalf of `cpu`. -/
def State.setWord (s : State) (cpu : Cpu) (i v : UInt64) : State :=
  { s with
    retireList := match countWord i with
      | some _ => s.retireList
      | none => Function.update s.retireList i v
    retireCount := match countWord i with
      | some k => Function.update s.retireCount k v
      | none => s.retireCount
    writes := s.writes ++ [(cpu, i)] }

/-- The two stores that put the entry `(epoch, ptr)` at position `idx` of a cpu's list. -/
def State.setEntry (s : State) (cpu : Cpu) (idx epoch ptr : UInt64) : State :=
  (s.setWord cpu (base cpu + idx * 2) epoch).setWord cpu (base cpu + idx * 2 + 1) ptr

/-- The entry `(epoch, ptr)` read at position `idx` of a cpu's list. -/
def State.entry (s : State) (cpu : Cpu) (idx : UInt64) : UInt64 × UInt64 :=
  (s.word (base cpu + idx * 2), s.word (base cpu + idx * 2 + 1))

/-- The 513th entry of the last list is stored over the first two counts. -/
example : ((init.setEntry 15 512 3 7).retireCount 0, (init.setEntry 15 512 3 7).retireCount 1) =
    (3, 7) := by
  decide

/-- `push_stack(ptr)`. -/
def State.pushStack (s : State) (ptr : UInt64) : State :=
  { s with pushed := s.pushed ++ [ptr] }

/-- `RETIRE_COUNT[cpu] = n`. -/
def State.setCount (s : State) (cpu : Cpu) (n : UInt64) : State :=
  { s with retireCount := Function.update s.retireCount cpu n }

/-- `ebr_enter_epoch`: snapshot the global epoch and raise the flag. -/
def ebrEnterEpoch (s : State) (cpu : Cpu) : State :=
  { s with
    coreEpoch := Function.update s.coreEpoch cpu s.globalEpoch
    coreInEpoch := Function.update s.coreInEpoch cpu 1 }

/-- `ebr_exit_epoch`: lower the flag. -/
def ebrExitEpoch (s : State) (cpu : Cpu) : State :=
  { s with coreInEpoch := Function.update s.coreInEpoch cpu 0 }

/-- `ebr_advance_epoch`: the scan keeps `safe` unless some active core's snapshot is not below
the current epoch. -/
def ebrAdvanceEpoch (s : State) : State :=
  let current := s.globalEpoch
  let safe := (List.finRange 16).foldl (fun safe i =>
    if s.coreInEpoch i == 1 then
      if s.coreEpoch i < current then safe else false
    else safe) true
  if safe then { s with globalEpoch := current + 1 } else s

/-- The first loop of `ebr_reclaim`: the minimum of the global epoch and the snapshots of the
active cores. -/
def safeEpoch (s : State) : UInt64 :=
  (List.finRange 16).foldl (fun safe i =>
    if s.coreInEpoch i == 1 then
      if s.coreEpoch i < safe then s.coreEpoch i else safe
    else safe) s.globalEpoch

/-- The second loop of `ebr_reclaim`, with `n` entries still to read: free the entries retired
before `safe` and move the others down to `writeIdx`.  The result is the state and the final
`write_idx`. -/
def sweep (cpu : Cpu) (safe : UInt64) : Nat → UInt64 → UInt64 → State → State × UInt64
  | 0, _, writeIdx, s => (s, writeIdx)
  | n + 1, readIdx, writeIdx, s =>
    let retireEpoch := (s.entry cpu readIdx).1
    let ptr := (s.entry cpu readIdx).2
    if retireEpoch < safe then
      sweep cpu safe n (readIdx + 1) writeIdx (s.pushStack ptr)
    else
      let s' := if writeIdx != readIdx then s.setEntry cpu writeIdx retireEpoch ptr else s
      sweep cpu safe n (readIdx + 1) (writeIdx + 1) s'

/-- `ebr_reclaim`.  The sweep reads the entries `0 .. RETIRE_COUNT[cpu] - 1`. -/
def ebrReclaim (s : State) (cpu : Cpu) : State :=
  let r := sweep cpu (safeEpoch s) (s.retireCount cpu).toNat 0 0 s
  r.1.setCount cpu r.2

/-- `ebr_retire`: a full list triggers one reclaim cycle, and the entry is appended whether or
not that cycle made room. -/
def ebrRetire (s : State) (cpu : Cpu) (ptr : UInt64) : State :=
  let s₁ := if s.retireCount cpu ≥ maxRetirePerCore then ebrReclaim s cpu else s
  let idx := s₁.retireCount cpu
  let s₂ := (s₁.setEntry cpu idx s₁.globalEpoch ptr).setCount cpu (idx + 1)
  { s₂ with retired := s₂.retired ++ [(cpu, s₁.globalEpoch, ptr)] }

/-- The five entry points. -/
inductive Op where
  | enter (cpu : Cpu)
  | exit (cpu : Cpu)
  | advance
  | retire (cpu : Cpu) (ptr : UInt64)
  | reclaim (cpu : Cpu)
  deriving DecidableEq, Repr

/-- One call. -/
def exec (s : State) : Op → State
  | .enter cpu => ebrEnterEpoch s cpu
  | .exit cpu => ebrExitEpoch s cpu
  | .advance => ebrAdvanceEpoch s
  | .retire cpu ptr => ebrRetire s cpu ptr
  | .reclaim cpu => ebrReclaim s cpu

/-- The state after a sequence of calls from the zero-initialised globals. -/
def run (ops : List Op) : State := runOps exec init ops

end Keuos.Ebr
