import Keuos.Scheduler.Equiv.Bitmap
import Mathlib.Data.Finset.Max
import Mathlib.Tactic.IntervalCases

/-!
# The scans of the bitmap as plain searches

`find_next_fiber` splits the cyclic order of the slots at the current bit and at the current
group, and looks at each part with a mask.  `nextRunnable` is the plain search: the first runnable
slot of `current + 1, …, 255, 0, …, current - 1`, and `current` when there is none.
`firstClear` is the plain search for a slot to give away: the smallest one in `1, …, 255` whose
bit is clear.

## Main results

* `findNextFiber_toNat`: the four phases find what the plain search finds.
* `findFreeSlot_toNat`: `find_free_slot` finds the smallest clear slot.
* `scans_eq`: both together, and when there is no clear slot.
-/

namespace Keuos.Scheduler

/-! ### The masks -/

theorem toNat_shiftMask {k : UInt64} (hk : k.toNat < 64) :
    ((1 <<< k : UInt64) - 1).toNat = 2 ^ k.toNat - 1 := by
  have hpow : (1 <<< k : UInt64).toNat = 2 ^ k.toNat := by
    rw [UInt64.toNat_shiftLeft, UInt64.toNat_one, Nat.mod_eq_of_lt hk, Nat.one_shiftLeft,
      Nat.mod_eq_of_lt (Nat.pow_lt_pow_right (by omega) hk)]
  have hpos : 0 < 2 ^ k.toNat := Nat.two_pow_pos _
  rw [UInt64.toNat_sub_of_le _ _ (UInt64.le_iff_toNat_le.mpr (by rw [hpow]; exact hpos)), hpow,
    UInt64.toNat_one]

theorem bit_maskAboveBit {b : UInt64} (hb : b.toNat < 64) {i : Nat} (hi : i < 64) :
    bit (maskAboveBit b) i = decide (b.toNat < i) := by
  unfold maskAboveBit
  by_cases htop : b ≥ 63
  · have h63 : 63 ≤ b.toNat := UInt64.le_iff_toNat_le.mp htop
    rw [if_pos htop, bit_zero, eq_comm, decide_eq_false_iff_not]
    omega
  · have h63 : b.toNat < 63 := by
      have := mt UInt64.le_iff_toNat_le.mpr htop
      exact Nat.not_le.mp this
    have hshift : (b + 1).toNat = b.toNat + 1 := by
      rw [UInt64.toNat_add, UInt64.toNat_one]
      omega
    have hbelow : ((1 <<< (b + 1) : UInt64) - 1).toNat = 2 ^ (b.toNat + 1) - 1 := by
      rw [toNat_shiftMask (by omega), hshift]
    rw [if_neg htop]
    show bit (((1 <<< (b + 1) : UInt64) - 1) ^^^ allOnes) i = _
    rw [bit_xor, bit_allOnes, decide_eq_true hi, Bool.xor_true]
    unfold bit
    rw [hbelow, Nat.testBit_two_pow_sub_one, ← decide_not, decide_eq_decide]
    omega

theorem bit_maskBelowBit {b : UInt64} (hb : b.toNat < 64) (i : Nat) :
    bit (maskBelowBit b) i = decide (i < b.toNat) := by
  unfold maskBelowBit
  by_cases hzero : b = 0
  · rw [hzero, if_pos (by decide), bit_zero]
    exact (decide_eq_false (Nat.not_lt_zero i)).symm
  · rw [if_neg (by simpa using hzero)]
    unfold bit
    rw [toNat_shiftMask hb, Nat.testBit_two_pow_sub_one]

theorem ctz_above {w b : UInt64} (hb : b.toNat < 64) (hne : w &&& maskAboveBit b ≠ 0) :
    (ctz (w &&& maskAboveBit b)).toNat < 64 ∧ b.toNat < (ctz (w &&& maskAboveBit b)).toNat ∧
    bit w (ctz (w &&& maskAboveBit b)).toNat = true ∧
    ∀ j, b.toNat < j → j < (ctz (w &&& maskAboveBit b)).toNat → bit w j = false := by
  obtain ⟨hlt, hset, hmin⟩ := ctz_spec hne
  rw [bit_and, bit_maskAboveBit hb hlt, Bool.and_eq_true, decide_eq_true_eq] at hset
  refine ⟨hlt, hset.2, hset.1, ?_⟩
  intro j hj1 hj2
  have hclear := hmin j hj2
  rwa [bit_and, bit_maskAboveBit hb (by omega), decide_eq_true hj1, Bool.and_true] at hclear

theorem clear_above {w b : UInt64} (hb : b.toNat < 64) (hzero : w &&& maskAboveBit b = 0) {j : Nat}
    (hj1 : b.toNat < j) (hj2 : j < 64) : bit w j = false := by
  have hclear := bit_zero j
  rwa [← hzero, bit_and, bit_maskAboveBit hb hj2, decide_eq_true hj1, Bool.and_true] at hclear

theorem ctz_below {w b : UInt64} (hb : b.toNat < 64) (hne : w &&& maskBelowBit b ≠ 0) :
    (ctz (w &&& maskBelowBit b)).toNat < b.toNat ∧
    bit w (ctz (w &&& maskBelowBit b)).toNat = true ∧
    ∀ j < (ctz (w &&& maskBelowBit b)).toNat, bit w j = false := by
  obtain ⟨hlt, hset, hmin⟩ := ctz_spec hne
  rw [bit_and, bit_maskBelowBit hb, Bool.and_eq_true, decide_eq_true_eq] at hset
  refine ⟨hset.2, hset.1, ?_⟩
  intro j hj
  have hclear := hmin j hj
  rwa [bit_and, bit_maskBelowBit hb, decide_eq_true (by omega), Bool.and_true] at hclear

theorem clear_below {w b : UInt64} (hb : b.toNat < 64) (hzero : w &&& maskBelowBit b = 0) {j : Nat}
    (hj : j < b.toNat) : bit w j = false := by
  have hclear := bit_zero j
  rwa [← hzero, bit_and, bit_maskBelowBit hb, decide_eq_true hj, Bool.and_true] at hclear

/-! ### The plain searches -/

/-- The slots in the order in which they follow `current` around the circle of the 256 slots. -/
def cyclicOrder (current : Nat) : List Nat :=
  List.range' (current + 1) (255 - current) ++ List.range' 0 current

/-- The first runnable slot after `current`, around the circle. -/
def nextRunnable (s : SchedulerState) (current : Nat) : Nat :=
  ((cyclicOrder current).find? (runnable s)).getD current

/-- The smallest slot from 1 on whose bit is clear. -/
def firstClear (s : SchedulerState) : Nat :=
  ((List.range' 1 255).find? fun i => !runnable s i).getD 9999

theorem nextRunnable_of_after {s : SchedulerState} {current k : Nat} (hk1 : current < k)
    (hk2 : k < 256) (hrun : runnable s k = true)
    (hfirst : ∀ j, current < j → j < k → runnable s j = false) : nextRunnable s current = k := by
  have hfind : (List.range' (current + 1) (255 - current)).find? (runnable s) = some k := by
    rw [List.find?_range'_eq_some]
    refine ⟨hrun, List.mem_range'_1.mpr (by omega), ?_⟩
    intro j hj1 hj2
    rw [hfirst j hj1 hj2]
    rfl
  unfold nextRunnable cyclicOrder
  rw [List.find?_append, hfind]
  rfl

theorem find_after_eq_none {s : SchedulerState} {current : Nat}
    (hnone : ∀ j, current < j → j < 256 → runnable s j = false) :
    (List.range' (current + 1) (255 - current)).find? (runnable s) = none := by
  rw [List.find?_range'_eq_none]
  intro j hj1 hj2
  rw [hnone j (by omega) (by omega)]
  rfl

theorem nextRunnable_of_before {s : SchedulerState} {current k : Nat}
    (hnone : ∀ j, current < j → j < 256 → runnable s j = false) (hk : k < current)
    (hrun : runnable s k = true) (hfirst : ∀ j < k, runnable s j = false) :
    nextRunnable s current = k := by
  have hfind : (List.range' 0 current).find? (runnable s) = some k := by
    rw [List.find?_range'_eq_some]
    refine ⟨hrun, List.mem_range'_1.mpr (by omega), ?_⟩
    intro j _ hj
    rw [hfirst j hj]
    rfl
  unfold nextRunnable cyclicOrder
  rw [List.find?_append, find_after_eq_none hnone, hfind]
  rfl

theorem nextRunnable_of_none {s : SchedulerState} {current : Nat}
    (hnone : ∀ j, j ≠ current → j < 256 → runnable s j = false) (hcur : current < 256) :
    nextRunnable s current = current := by
  have hfind : (List.range' 0 current).find? (runnable s) = none := by
    rw [List.find?_range'_eq_none]
    intro j _ hj
    rw [hnone j (by omega) (by omega)]
    rfl
  unfold nextRunnable cyclicOrder
  rw [List.find?_append, hfind, find_after_eq_none fun j hj1 hj2 => hnone j (by omega) hj2]
  rfl

/-! ### `find_next_fiber` -/

/-- The invariant of the two levels: `l1_summary` summarises the groups, and only the first four
are in use. -/
structure GroupInv (s : SchedulerState) : Prop where
  summary : SummaryInv s
  high : ∀ g, 4 ≤ g → g < 16 → s.l2Details (UInt64.ofNat g) = 0

theorem GroupInv.clear_high {s : SchedulerState} (h : GroupInv s) {g : Nat} (hg : 4 ≤ g) :
    bit s.l1Summary g = false := by
  by_cases hlt : g < 16
  · by_contra hset
    exact (h.summary.1 g hlt).mp (by simpa using hset) (h.high g hg hlt)
  · exact h.summary.2 g (by omega)

theorem GroupInv.not_runnable {s : SchedulerState} (h : GroupInv s) {j : Nat} (hj : j < 256)
    (hclear : bit s.l1Summary (j / 64) = false) : runnable s j = false := by
  unfold runnable
  by_contra hset
  have hne : s.l2Details (UInt64.ofNat (j / 64)) ≠ 0 := ne_zero_of_bit (by simpa using hset)
  rw [(h.summary.1 _ (by omega)).mpr hne] at hclear
  exact Bool.noConfusion hclear

theorem GroupInv.first_of_group {s : SchedulerState} (h : GroupInv s) {g : UInt64}
    (hset : bit s.l1Summary g.toNat = true) :
    g.toNat < 4 ∧ (g * 64 + ctz (s.l2Details g)).toNat / 64 = g.toNat ∧
    runnable s (g * 64 + ctz (s.l2Details g)).toNat = true ∧
    ∀ j, j / 64 = g.toNat → j < (g * 64 + ctz (s.l2Details g)).toNat → runnable s j = false := by
  have hg : g.toNat < 4 := by
    by_contra hge
    rw [h.clear_high (by omega)] at hset
    exact Bool.false_ne_true hset
  have hne : s.l2Details g ≠ 0 := by
    have := (h.summary.1 _ (by omega)).mp hset
    rwa [UInt64.ofNat_toNat] at this
  obtain ⟨hlt, hbit, hmin⟩ := ctz_spec hne
  have hval := toNat_slot (by omega) hlt (g := g)
  refine ⟨hg, by omega, ?_, ?_⟩
  · rw [runnable_slot s (by omega) hlt]
    exact hbit
  · intro j hj1 hj2
    unfold runnable
    rw [hj1, UInt64.ofNat_toNat]
    exact hmin _ (by omega)

theorem runnable_of_curGroup (s : SchedulerState) {current : UInt64} {j : Nat}
    (hj : j / 64 = current.toNat / 64) :
    runnable s j = bit (s.l2Details (current / 64)) (j % 64) := by
  unfold runnable
  rw [hj, ofNat_group]

/-- **`find_next_fiber` is the cyclic successor.** -/
theorem findNextFiber_toNat {s : SchedulerState} (h : GroupInv s) {current : UInt64}
    (hcur : current.toNat < 256) :
    (findNextFiber s current (s.l2Details (current / 64)) s.l1Summary).toNat =
      nextRunnable s current.toNat := by
  have hgrp := toNat_group current
  have hbit := toNat_slotBit current
  have hgrp64 : (current / 64).toNat < 64 := by omega
  have hbit64 : (current % 64).toNat < 64 := by omega
  unfold findNextFiber
  simp only
  split
  · -- A later slot of the current group.
    rename_i habove
    obtain ⟨hlt, hgt, hset, hmin⟩ := ctz_above hbit64 (by simpa using habove)
    have hval := toNat_slot (g := current / 64) (by omega) hlt
    symm
    apply nextRunnable_of_after (by omega) (by omega)
    · rw [runnable_slot s (by omega) hlt]
      exact hset
    · intro j hj1 hj2
      have hsame : j / 64 = current.toNat / 64 := by omega
      rw [runnable_of_curGroup s hsame]
      exact hmin _ (by omega) (by omega)
  rename_i hnoAbove
  have hrest : ∀ j, current.toNat < j → j / 64 = current.toNat / 64 → runnable s j = false := by
    intro j hj1 hj2
    rw [runnable_of_curGroup s hj2]
    exact clear_above hbit64 (by simpa using hnoAbove) (by omega) (by omega)
  split
  · -- The first slot of a later group.
    rename_i habove
    obtain ⟨hlt, hgt, hset, hmin⟩ := ctz_above hgrp64 (by simpa using habove)
    obtain ⟨hg4, hdiv, hrun, hfirst⟩ := h.first_of_group hset
    symm
    apply nextRunnable_of_after (by omega) (by omega) hrun
    intro j hj1 hj2
    by_cases hsame : j / 64 = current.toNat / 64
    · exact hrest j hj1 hsame
    by_cases hgroup : j / 64 = (ctz (s.l1Summary &&& maskAboveBit (current / 64))).toNat
    · exact hfirst j hgroup hj2
    · exact h.not_runnable (by omega) (hmin _ (by omega) (by omega))
  rename_i hnoGroup
  have hafter : ∀ j, current.toNat < j → j < 256 → runnable s j = false := by
    intro j hj1 hj2
    by_cases hsame : j / 64 = current.toNat / 64
    · exact hrest j hj1 hsame
    · exact h.not_runnable hj2
        (clear_above hgrp64 (by simpa using hnoGroup) (by omega) (by omega))
  split
  · -- The first slot of an earlier group.
    rename_i hbelow
    obtain ⟨hlt, hset, hmin⟩ := ctz_below hgrp64 (by simpa using hbelow)
    obtain ⟨hg4, hdiv, hrun, hfirst⟩ := h.first_of_group hset
    symm
    apply nextRunnable_of_before hafter (by omega) hrun
    intro j hj
    by_cases hgroup : j / 64 = (ctz (s.l1Summary &&& maskBelowBit (current / 64))).toNat
    · exact hfirst j hgroup hj
    · exact h.not_runnable (by omega) (hmin _ (by omega))
  rename_i hnoEarlier
  have hearlier : ∀ j, j / 64 < current.toNat / 64 → runnable s j = false := by
    intro j hj
    exact h.not_runnable (by omega) (clear_below hgrp64 (by simpa using hnoEarlier) (by omega))
  split
  · -- An earlier slot of the current group.
    rename_i hbelow
    obtain ⟨hlt, hset, hmin⟩ := ctz_below hbit64 (by simpa using hbelow)
    have hlt64 : (ctz (s.l2Details (current / 64) &&& maskBelowBit (current % 64))).toNat < 64 := by
      omega
    have hval := toNat_slot (g := current / 64) (by omega) hlt64
    symm
    apply nextRunnable_of_before hafter (by omega)
    · rw [runnable_slot s (by omega) hlt64]
      exact hset
    · intro j hj
      by_cases hsame : j / 64 = current.toNat / 64
      · rw [runnable_of_curGroup s hsame]
        exact hmin _ (by omega)
      · exact hearlier j (by omega)
  · rename_i hnoBelow
    symm
    apply nextRunnable_of_none _ hcur
    intro j hj1 hj2
    rcases Nat.lt_or_gt_of_ne hj1 with hlt | hgt
    · by_cases hsame : j / 64 = current.toNat / 64
      · rw [runnable_of_curGroup s hsame]
        exact clear_below hbit64 (by simpa using hnoBelow) (by omega)
      · exact hearlier j (by omega)
    · exact hafter j hgt hj2

/-! ### `find_free_slot` -/

/-- **`find_free_slot` finds the smallest clear slot.** -/
theorem findFreeSlot_toNat (s : SchedulerState) : (findFreeSlot s).toNat = firstClear s := by
  unfold firstClear
  rcases findFreeSlotFrom_first s 16 0 rfl with ⟨hnone, hall⟩ | ⟨h1, h2, hclear, hmin⟩
  · have hfind : ((List.range' 1 255).find? fun i => !runnable s i) = none := by
      rw [List.find?_range'_eq_none]
      intro j hj1 hj2
      rw [hall j hj1 (Nat.zero_le _) (by omega)]
      rfl
    have hfree : findFreeSlot s = noSlot := hnone
    rw [hfind, hfree]
    rfl
  · have hfind : ((List.range' 1 255).find? fun i => !runnable s i) =
        some (findFreeSlot s).toNat := by
      rw [List.find?_range'_eq_some]
      refine ⟨?_, List.mem_range'_1.mpr ⟨h1, h2⟩, ?_⟩
      · show (!runnable s (findFreeSlotFrom s 16 0).toNat) = true
        rw [hclear]
        rfl
      · intro j hj1 hj2
        rw [hmin j hj1 (Nat.zero_le _) hj2]
        rfl
    rw [hfind, Option.getD_some]

/-- **Both scans are plain searches**: under the invariant of the two levels `find_next_fiber`
returns the first runnable slot of `current + 1, …, 255, 0, …, current - 1`, or `current`; and
`find_free_slot` returns the smallest clear slot of `1, …, 255`, or `9999`. -/
theorem scans_eq (s : SchedulerState) :
    (∀ current : UInt64, GroupInv s → current.toNat < 256 →
      (findNextFiber s current (s.l2Details (current / 64)) s.l1Summary).toNat =
        nextRunnable s current.toNat) ∧
    (findFreeSlot s).toNat = firstClear s ∧
    (findFreeSlot s = noSlot ↔ ∀ i, 1 ≤ i → i < 256 → runnable s i = true) := by
  refine ⟨fun current h hcur => findNextFiber_toNat h hcur, findFreeSlot_toNat s, ?_⟩
  rcases findFreeSlotFrom_first s 16 0 rfl with ⟨hnone, hall⟩ | ⟨h1, h2, hclear, -⟩
  · exact ⟨fun _ i hi1 hi2 => hall i hi1 (Nat.zero_le _) hi2, fun _ => hnone⟩
  · constructor
    · intro hnone
      have hval : (findFreeSlotFrom s 16 0).toNat = 9999 := congrArg UInt64.toNat hnone
      omega
    · intro hall
      rw [hall _ h1 h2] at hclear
      exact Bool.noConfusion hclear

/-- Slots 1 and 130 are runnable. -/
def twoGroups : SchedulerState := bitmapSet (bitmapSet SchedulerState.zero 1) 130

theorem groupInv_twoGroups : GroupInv twoGroups := by
  have hzero : SummaryInv SchedulerState.zero := BitmapInv.zero.summary
  refine ⟨(hzero.bitmapSet (by decide)).bitmapSet (by decide), ?_⟩
  intro g hg1 hg2
  interval_cases g <;> decide

/-- From slot 64 the next runnable slot is 130, and slot 2 is the first to give away. -/
theorem scans_eq_twoGroups : nextRunnable twoGroups 64 = 130 ∧ firstClear twoGroups = 2 ∧
    (findNextFiber twoGroups 64 (twoGroups.l2Details (64 / 64)) twoGroups.l1Summary).toNat =
      nextRunnable twoGroups 64 := by
  refine ⟨?_, ?_, (scans_eq twoGroups).1 64 groupInv_twoGroups (by decide)⟩
  · apply nextRunnable_of_after (by omega) (by omega)
    · decide
    · intro j hj1 hj2
      interval_cases j <;> decide
  · decide

end Keuos.Scheduler

/-!
## Which fibers `do_dispatch` invokes

`do_dispatch` looks for the next fiber after `current` and, when the task has returned, writes
the old value of `current` back.  So the search of the next call from the same context starts at
the same place: as long as the tasks return pending, every call invokes the same fiber
(`invoked_eq_replicate`).

### Main results

* `doDispatch_eq`: one call in terms of the fiber it invokes.
* `invoked_fairly_iff`: `k` calls invoke each of the `k` active fibers exactly once if and only
  if `k = 1`.
-/

namespace Keuos.Scheduler

open Finset

def pollPending : Int64 := 0

/-- The fiber that `do_dispatch` invokes, if any. -/
def dispatchTarget (s : SchedulerState) : Option UInt64 :=
  let next := findNextFiber s s.current (s.l2Details (s.current / 64)) s.l1Summary
  if next == s.current then none else some next

/-- The fibers invoked by a sequence of `do_dispatch` calls, in order. -/
def invoked (env : Env) (s : SchedulerState) : List Invocation → List UInt64
  | [] => []
  | inv :: invs => (dispatchTarget s).toList ++ invoked env (doDispatch env s inv) invs

/-- The task returns pending and has neither spawned nor finished a fiber. -/
def Pending (inv : Invocation) : Prop :=
  inv.spawns = [] ∧ inv.status = pollPending

instance (inv : Invocation) : Decidable (Pending inv) :=
  decidable_of_iff (inv.spawns.isEmpty = true ∧ inv.status = pollPending) (by simp [Pending])

/-- The active fibers of a core. -/
def activeFibers (s : SchedulerState) : Finset Nat :=
  (range 256).filter fun i => 1 ≤ i ∧ (s.fibers (UInt64.ofNat i)).active = 1

/-! ### One call -/

/-- One call in terms of the fiber it invokes: it runs with `current` set to that fiber, and
`current` is what it was when the call returns. -/
theorem doDispatch_eq (env : Env) (s : SchedulerState) (inv : Invocation) :
    doDispatch env s inv =
      match dispatchTarget s with
      | none => s
      | some next =>
        { finishDispatch (runOps (SpawnCall.exec env) { s with current := next } inv.spawns)
            next inv with current := s.current } := by
  unfold doDispatch dispatchTarget
  simp only
  split <;> rfl

theorem dispatchTarget_doDispatch (env : Env) (s : SchedulerState) {inv : Invocation}
    (h : Pending inv) : dispatchTarget (doDispatch env s inv) = dispatchTarget s := by
  have hready : (inv.status == pollReady) = false := by
    rw [h.2]
    rfl
  rw [doDispatch_eq]
  cases htarget : dispatchTarget s with
  | none => exact htarget
  | some next =>
    show dispatchTarget { finishDispatch
      (runOps (SpawnCall.exec env) { s with current := next } inv.spawns) next inv with
        current := s.current } = _
    rw [h.1, runOps_nil, finishDispatch, hready, if_neg Bool.false_ne_true, ← htarget]
    unfold savePreemptContext
    split <;> rfl

/-- **Every call invokes the same fiber**, as long as the tasks return pending. -/
theorem invoked_eq_replicate (env : Env) {next : UInt64} : ∀ {invs : List Invocation}
    {s : SchedulerState}, dispatchTarget s = some next → (∀ inv ∈ invs, Pending inv) →
    invoked env s invs = List.replicate invs.length next := by
  intro invs
  induction invs with
  | nil =>
    intro s _ _
    rfl
  | cons inv invs ih =>
    intro s htarget hpend
    have hinv : Pending inv := hpend inv List.mem_cons_self
    have hrest := ih ((dispatchTarget_doDispatch env s hinv).trans htarget)
      fun i hi => hpend i (List.mem_cons_of_mem _ hi)
    unfold invoked
    rw [htarget, hrest]
    rfl

/-! ### The first fiber -/

theorem BitmapInv.groupInv {s : SchedulerState} (h : BitmapInv s) : GroupInv s := by
  refine ⟨h.summary, ?_⟩
  intro g hg1 hg2
  apply eq_of_bit_eq
  intro i
  rw [bit_zero]
  by_cases hi : i < 64
  · have hclear := h.slot_high (g * 64 + i) (by omega) (by omega)
    unfold runnable at hclear
    rwa [show (g * 64 + i) / 64 = g by omega, show (g * 64 + i) % 64 = i by omega] at hclear
  · exact bit_of_le _ (by omega)

theorem mem_activeFibers {s : SchedulerState} (h : BitmapInv s) {i : Nat} :
    i ∈ activeFibers s ↔ 1 ≤ i ∧ i < 256 ∧ runnable s i = true := by
  unfold activeFibers
  rw [mem_filter, mem_range]
  constructor
  · rintro ⟨hlt, hpos, hactive⟩
    have hval := toNat_ofNat_of_lt (n := i) (by omega)
    have := (h.active_iff (UInt64.ofNat i) (by omega) (by omega)).mpr hactive
    rw [hval] at this
    exact ⟨hpos, hlt, this⟩
  · rintro ⟨hpos, hlt, hrun⟩
    have hval := toNat_ofNat_of_lt (n := i) (by omega)
    rw [← hval] at hrun
    exact ⟨hlt, hpos, (h.active_iff (UInt64.ofNat i) (by omega) (by omega)).mp hrun⟩

theorem card_activeFibers {s : SchedulerState} (h : BitmapInv s) :
    (activeFibers s).card = s.count.toNat := by
  rw [h.count_eq]
  apply congrArg card
  ext i
  rw [mem_activeFibers h]
  simp only [runnableSlots, mem_filter, mem_range]
  constructor
  · rintro ⟨-, hlt, hrun⟩
    exact ⟨by omega, hrun⟩
  · rintro ⟨hlt, hrun⟩
    refine ⟨?_, ?_, hrun⟩
    · by_contra hzero
      rw [show i = 0 by omega, h.slot_zero] at hrun
      exact Bool.false_ne_true hrun
    · by_contra hhigh
      rw [h.slot_high i (by omega) hlt] at hrun
      exact Bool.false_ne_true hrun

theorem exists_dispatchTarget {s : SchedulerState} (h : BitmapInv s) (hcur : s.current = 0)
    (hk : 1 ≤ (activeFibers s).card) :
    ∃ next, dispatchTarget s = some next ∧ next.toNat ∈ activeFibers s := by
  have hne : (activeFibers s).Nonempty := card_pos.mp hk
  -- The smallest active slot is the first one after slot 0.
  set k := (activeFibers s).min' hne with hmin
  have hmem : k ∈ activeFibers s := min'_mem _ hne
  obtain ⟨hk1, hk2, hrun⟩ := (mem_activeFibers h).mp hmem
  have hfirst : ∀ j, 0 < j → j < k → runnable s j = false := by
    intro j hj1 hj2
    by_contra hset
    have hj : j ∈ activeFibers s :=
      (mem_activeFibers h).mpr ⟨hj1, by omega, by simpa using hset⟩
    have := min'_le _ j hj
    omega
  have hnext := @findNextFiber_toNat _ h.groupInv s.current h.current_lt
  rw [hcur, UInt64.toNat_zero, nextRunnable_of_after hk1 hk2 hrun hfirst] at hnext
  refine ⟨findNextFiber s s.current (s.l2Details (s.current / 64)) s.l1Summary, ?_, ?_⟩
  · unfold dispatchTarget
    simp only
    rw [if_neg]
    rw [beq_iff_eq, hcur]
    intro heq
    rw [heq, UInt64.toNat_zero] at hnext
    omega
  · rw [hcur, hnext]
    exact hmem

/-! ### Fairness -/

/-- **Dispatch is fair to one fiber only.** Over `k` calls from the boot context, with `k` active
fibers whose tasks return pending, each active fiber is invoked exactly once if and only if
`k = 1`: the calls all invoke the first of them. -/
theorem invoked_fairly_iff (env : Env) {s : SchedulerState} (h : BitmapInv s)
    (hcur : s.current = 0) (hk : 1 ≤ (activeFibers s).card) {invs : List Invocation}
    (hlen : invs.length = (activeFibers s).card) (hpend : ∀ inv ∈ invs, Pending inv) :
    (∀ i ∈ activeFibers s, (invoked env s invs).count (UInt64.ofNat i) = 1) ↔
      (activeFibers s).card = 1 := by
  obtain ⟨next, htarget, hactive⟩ := exists_dispatchTarget h hcur hk
  have hinvoked := invoked_eq_replicate env htarget hpend
  constructor
  · intro hfair
    have hone := hfair next.toNat hactive
    rw [hinvoked, UInt64.ofNat_toNat, List.count_replicate_self, hlen] at hone
    exact hone
  · intro hsingle i hi
    have hsame : i = next.toNat := by
      obtain ⟨j, hj⟩ := card_eq_one.mp hsingle
      rw [hj, mem_singleton] at hi hactive
      rw [hi, hactive]
    rw [hinvoked, hsame, UInt64.ofNat_toNat, List.count_replicate_self, hlen, hsingle]

/-- A core on which `n` fibers have been spawned. -/
def spawned (n : Nat) : SchedulerState :=
  run Env.sample (List.replicate n (.spawn (.spawn 0 0 0)))

theorem bitmapInv_spawned (n : Nat) : BitmapInv (spawned n) := by
  apply bitmapInv_run
  generalize SchedulerState.zero = s
  induction n generalizing s with
  | zero => exact trivial
  | succ n ih => exact ⟨trivial, ih _⟩

/-- One fiber and one call. -/
theorem invoked_fairly_one :
    (∀ i ∈ activeFibers (spawned 1),
      (invoked Env.sample (spawned 1) [⟨[], pollPending, 0⟩]).count (UInt64.ofNat i) = 1) ↔
      (activeFibers (spawned 1)).card = 1 := by
  have hcard : (activeFibers (spawned 1)).card = 1 := card_activeFibers (bitmapInv_spawned 1)
  exact invoked_fairly_iff Env.sample (bitmapInv_spawned 1) rfl (by omega) (by rw [hcard]; rfl)
    (by simp [Pending])

/-- Two fibers: both calls invoke the fiber in slot 1, and the one in slot 2 is starved. -/
theorem not_invoked_fairly_two :
    ¬ ∀ (env : Env) (s : SchedulerState), BitmapInv s → s.current = 0 →
      1 ≤ (activeFibers s).card → ∀ invs : List Invocation,
      invs.length = (activeFibers s).card → (∀ inv ∈ invs, Pending inv) →
      ∀ i ∈ activeFibers s, (invoked env s invs).count (UInt64.ofNat i) = 1 := by
  intro hall
  have hcard : (activeFibers (spawned 2)).card = 2 := card_activeFibers (bitmapInv_spawned 2)
  have hmem : 2 ∈ activeFibers (spawned 2) :=
    (mem_activeFibers (bitmapInv_spawned 2)).mpr ⟨by omega, by omega, by decide⟩
  have hstarved := hall Env.sample (spawned 2) (bitmapInv_spawned 2) rfl (by omega)
    [⟨[], pollPending, 0⟩, ⟨[], pollPending, 0⟩] (by rw [hcard]; rfl) (by simp [Pending]) 2 hmem
  have htwice : invoked Env.sample (spawned 2) [⟨[], pollPending, 0⟩, ⟨[], pollPending, 0⟩] =
      [1, 1] := by decide
  rw [htwice] at hstarved
  exact absurd hstarved (by decide)

end Keuos.Scheduler
