import Keuos.Ecs.World
import Keuos.Ecs.Equiv.StaleHandles
import Keuos.Lib.FirstMin

/-!
# What the ECS scheduler picks

The loop of `scheduler_system_tick` is a scan for the first minimum of the levels (`foldl_tickRow`).  Its
bound 0xFFFFFFFF is a value that the level field can hold, and a thread with that level is never picked:
`SchedulingPriority` documents levels from 0 to 255.

## Main results

* `schedulerSystemTick_best`: the tick picks the first thread with the least level among the runnable threads
  of the core whose level is not the bound.
-/

namespace Keuos.Ecs

/-! ### Rows -/

section Rows

variable {α : Type} {set : SparseSet α} {i : UInt32}

theorem SparseSet.mem_rows : i ∈ set.rows ↔ i < set.count := by
  unfold SparseSet.rows
  rw [List.mem_map]
  constructor
  · rintro ⟨k, hk, rfl⟩
    exact ofNat_lt_count (List.mem_range.mp hk)
  · intro hi
    exact ⟨i.toNat, List.mem_range.mpr (UInt32.lt_iff_toNat_lt.mp hi), UInt32.ofNat_toNat⟩

theorem SparseSet.pairwise_rows (set : SparseSet α) : set.rows.Pairwise (· < ·) := by
  unfold SparseSet.rows
  rw [List.pairwise_map]
  refine List.pairwise_lt_range.imp_of_mem ?_
  intro a b ha hb hab
  rw [UInt32.lt_iff_toNat_lt, toNat_row (List.mem_range.mp ha), toNat_row (List.mem_range.mp hb)]
  exact hab

theorem SparseSet.Inv.setGet_row (h : set.Inv) (hi : i < set.count) :
    setGet set (set.entityMap i) = some i := by
  have hid := h.id_lt i hi
  have hrow := h.sparse_id i hi
  have hne : i ≠ invalid := h.row_ne_invalid hi
  unfold setGet
  dsimp only
  rw [if_neg (by simpa using hid), hrow]
  simp [hne]

end Rows

/-! ### The joined tables -/

section Join

variable (w : World) (coreId : UInt32)

/-- The priority level of an entity, as its component has it. -/
def level (e : Entity) : UInt32 := ((getComponent w.priorities e).map SchedulingPriority.level).getD 128

/-- The thread in a row is runnable, and its affinity, if it has one, is to the core. -/
def Eligible (i : UInt32) : Prop :=
  (w.threads.dense i).status = threadRunnable ∧
    ∀ a, getComponent w.cpuAffinities (w.threads.entityMap i) = some a → a.coreId = coreId

/-- The level of the thread in a row is below the bound with which the scan starts. -/
def BelowBound (i : UInt32) : Prop := level w (w.threads.entityMap i) ≠ 0xFFFFFFFF

variable {w coreId}

theorem matchesCore_eq_true_iff {e : Entity} :
    matchesCore w coreId e = true ↔ ∀ a, getComponent w.cpuAffinities e = some a → a.coreId = coreId := by
  unfold matchesCore getComponent affinitySetGet
  cases setGet w.cpuAffinities e with
  | none => simp
  | some row => simp

theorem prioLevel_eq (e : Entity) : prioLevel w e = level w e := by
  unfold prioLevel level getComponent prioritySetGet
  cases setGet w.priorities e with
  | none => simp
  | some row => simp

/-- The test of the loop. -/
def eligible (w : World) (coreId i : UInt32) : Bool :=
  (w.threads.dense i).status == threadRunnable && matchesCore w coreId (w.threads.entityMap i)

theorem eligible_eq_true_iff {i : UInt32} : eligible w coreId i = true ↔ Eligible w coreId i := by
  unfold eligible Eligible
  rw [Bool.and_eq_true, beq_iff_eq, matchesCore_eq_true_iff]

end Join

/-! ### The scan -/

section Scan

variable (w : World) (coreId : UInt32)

/-- The level of a row. -/
def rowLevel (i : UInt32) : Nat := (level w (w.threads.entityMap i)).toNat

/-- The loop's variables when the scan has found a row. -/
def bestOf (found : Option UInt32 × Nat) : Entity × UInt32 :=
  ((found.1.map w.threads.entityMap).getD ⟨invalid, 0⟩, UInt32.ofNat found.2)

variable {w coreId}

theorem tickRow_bestOf {found : Option UInt32 × Nat} (hfound : found.2 < 2 ^ 32) (i : UInt32) :
    tickRow w coreId (bestOf w found) i =
      bestOf w (keepMin (eligible w coreId · = true) (rowLevel w) found i) := by
  have hlevel : level w (w.threads.entityMap i) < UInt32.ofNat found.2 ↔ rowLevel w i < found.2 := by
    rw [UInt32.lt_iff_toNat_lt, UInt32.toNat_ofNat_of_lt' hfound]
    rfl
  unfold tickRow keepMin
  simp only [prioLevel_eq, bestOf, hlevel]
  by_cases hrun : ((w.threads.dense i).status == threadRunnable) = true
  · by_cases hcore : matchesCore w coreId (w.threads.entityMap i) = true
    · by_cases hlt : rowLevel w i < found.2
      · have hlevel : UInt32.ofNat (rowLevel w i) = level w (w.threads.entityMap i) := UInt32.ofNat_toNat
        simp [eligible, hrun, hcore, hlt, hlevel]
      · simp [hrun, hcore, hlt]
    · simp [eligible, hrun, hcore]
  · simp [eligible, hrun]

theorem foldl_tickRow (rows : List UInt32) {found : Option UInt32 × Nat} (hfound : found.2 < 2 ^ 32) :
    rows.foldl (tickRow w coreId) (bestOf w found) =
      bestOf w (rows.foldl (keepMin (eligible w coreId · = true) (rowLevel w)) found) := by
  induction rows generalizing found with
  | nil => rfl
  | cons i rows ih =>
    rw [List.foldl_cons, List.foldl_cons, tickRow_bestOf hfound]
    apply ih
    unfold keepMin
    split_ifs
    · exact (level w (w.threads.entityMap i)).toNat_lt
    · exact hfound

end Scan

/-! ### The tick -/

/-- The world with the thread of a row running. -/
def World.runRow (w : World) (i : UInt32) : World :=
  { w with
    threads := { w.threads with
      dense := Function.update w.threads.dense i { w.threads.dense i with status := threadRunning } } }

/-- The tick picks the best of the rows that `fits` singles out. -/
structure PicksBest (w : World) (coreId : UInt32) (fits : UInt32 → Prop) : Prop where
  none_iff : (schedulerSystemTick w coreId).1.id = invalid ↔ ∀ i < w.threads.count, ¬ fits i
  unchanged : (schedulerSystemTick w coreId).1.id = invalid → schedulerSystemTick w coreId = (⟨invalid, 0⟩, w)
  best : (schedulerSystemTick w coreId).1.id ≠ invalid → ∃ i < w.threads.count, fits i ∧
    (∀ j < w.threads.count, fits j →
      level w (w.threads.entityMap i) ≤ level w (w.threads.entityMap j) ∧
      (j < i → level w (w.threads.entityMap i) < level w (w.threads.entityMap j))) ∧
    schedulerSystemTick w coreId = (w.threads.entityMap i, w.runRow i)

theorem foldl_tickRow_rows (w : World) (coreId : UInt32) :
    w.threads.rows.foldl (tickRow w coreId) (⟨invalid, 0⟩, 0xFFFFFFFF) =
      bestOf w (scanMin (eligible w coreId · = true) (rowLevel w) 0xFFFFFFFF w.threads.rows) := by
  have hbound : ((none, 0xFFFFFFFF) : Option UInt32 × Nat).2 < 2 ^ 32 := by simp
  exact foldl_tickRow w.threads.rows hbound

theorem schedulerSystemTick_of_none {w : World} {coreId : UInt32} {bound : Nat}
    (h : scanMin (eligible w coreId · = true) (rowLevel w) 0xFFFFFFFF w.threads.rows = (none, bound)) :
    schedulerSystemTick w coreId = (⟨invalid, 0⟩, w) := by
  unfold schedulerSystemTick
  rw [foldl_tickRow_rows, h]
  simp [bestOf]

theorem schedulerSystemTick_of_some {w : World} {coreId i : UInt32} {key : Nat} (hw : w.SetsInv)
    (hi : i < w.threads.count)
    (h : scanMin (eligible w coreId · = true) (rowLevel w) 0xFFFFFFFF w.threads.rows = (some i, key)) :
    schedulerSystemTick w coreId = (w.threads.entityMap i, w.runRow i) := by
  have hthreads : w.threads.Inv := hw .thread
  have hid : (w.threads.entityMap i).id ≠ invalid := ne_invalid_of_le (UInt32.le_of_lt (hthreads.id_lt i hi))
  have hrow : threadSetGetMut w.threads (w.threads.entityMap i) = some i := hthreads.setGet_row hi
  unfold schedulerSystemTick
  rw [foldl_tickRow_rows, h]
  simp [bestOf, hid, hrow, storeThrough, World.runRow]

/-- **The scheduler picks the best thread** of the core, among those with a level below the bound. -/
theorem schedulerSystemTick_best {w : World} (hw : w.SetsInv) (coreId : UInt32) :
    PicksBest w coreId fun i => Eligible w coreId i ∧ BelowBound w i := by
  have hbelow : ∀ i, BelowBound w i ↔ rowLevel w i < 0xFFFFFFFF := by
    intro i
    have hlt := (level w (w.threads.entityMap i)).toNat_lt
    unfold BelowBound rowLevel
    rw [ne_eq, ← UInt32.toNat_inj]
    show ¬ _ = 4294967295 ↔ _
    omega
  have hspec := scanMin_spec (eligible w coreId · = true) (rowLevel w) 0xFFFFFFFF w.threads.rows
  rcases hspec with ⟨hscan, hnone⟩ | ⟨x, hscan, hx, hmin⟩
  · have htick := schedulerSystemTick_of_none hscan
    have hall : ∀ i < w.threads.count, ¬ (Eligible w coreId i ∧ BelowBound w i) := by
      rintro i hi ⟨helig, hlt⟩
      have hge := hnone i (SparseSet.mem_rows.mpr hi) (eligible_eq_true_iff.mpr helig)
      exact absurd ((hbelow i).mp hlt) (Nat.not_lt.mpr hge)
    constructor
    · rw [htick]
      exact iff_of_true rfl hall
    · intro _
      exact htick
    · intro hne
      rw [htick] at hne
      exact absurd rfl hne
  · have hmem : x ∈ w.threads.rows := by
      obtain ⟨-, pre, post, hrows, -⟩ := hmin
      simp [hrows]
    have hcount := SparseSet.mem_rows.mp hmem
    have htick := schedulerSystemTick_of_some hw hcount hscan
    have hthreads : w.threads.Inv := hw .thread
    have hid : (w.threads.entityMap x).id ≠ invalid :=
      ne_invalid_of_le (UInt32.le_of_lt (hthreads.id_lt x hcount))
    have hxfits : Eligible w coreId x ∧ BelowBound w x :=
        ⟨eligible_eq_true_iff.mp hmin.holds, (hbelow x).mpr hx⟩
    constructor
    · rw [htick]
      exact iff_of_false hid fun hall => hall x hcount hxfits
    · intro hinvalid
      rw [htick] at hinvalid
      exact absurd hinvalid hid
    · intro _
      refine ⟨x, hcount, hxfits, ?_, htick⟩
      rintro j hj ⟨helig, -⟩
      -- The rows are in the order of the dense array.
      have hasymm : ∀ a b : UInt32, a < b → ¬ b < a := fun _ _ => UInt32.lt_asymm
      have hjmin := hmin.le_and_lt hasymm w.threads.pairwise_rows (SparseSet.mem_rows.mpr hj)
        (eligible_eq_true_iff.mpr helig)
      exact ⟨UInt32.le_iff_toNat_le.mpr hjmin.1, fun hlt => UInt32.lt_iff_toNat_lt.mpr (hjmin.2 hlt)⟩

/-! ### A thread with the level of the bound -/

/-- A runnable thread, and its level. -/
def oneThread (level : UInt32) : World :=
  { newWorld zeroBlocks with
    threads := threadSetInsert (newThreadSet (zeroBlocks .thread)) ⟨0, 1⟩ ⟨threadRunnable, 0, 0, 0, 0, 0⟩
    priorities := prioritySetInsert (newPrioritySet (zeroBlocks .priority)) ⟨0, 1⟩ ⟨level, 10⟩ }

theorem setsInv_oneThread (level : UInt32) : (oneThread level).SetsInv := by
  intro t
  cases t with
  | thread =>
    have hnew : (newThreadSet (zeroBlocks .thread)).Inv := inv_newSet _
    exact (setInsert_spec hnew ⟨0, 1⟩ ⟨threadRunnable, 0, 0, 0, 0, 0⟩).1
  | priority =>
    have hnew : (newPrioritySet (zeroBlocks .priority)).Inv := inv_newSet _
    exact (setInsert_spec hnew ⟨0, 1⟩ ⟨level, 10⟩).1
  | _ => exact inv_newSet _

/-- With two more threads: one with a better level, and one with the best level that is not runnable. -/
def threeThreads : World :=
  { oneThread 3 with
    threads := threadSetInsert (threadSetInsert (oneThread 3).threads ⟨1, 1⟩ ⟨threadRunnable, 0, 0, 0, 0, 0⟩)
      ⟨2, 1⟩ ⟨threadRunnable + 1, 0, 0, 0, 0, 0⟩
    priorities :=
      prioritySetInsert (prioritySetInsert (oneThread 3).priorities ⟨1, 1⟩ ⟨2, 10⟩) ⟨2, 1⟩ ⟨0, 10⟩ }

theorem setsInv_threeThreads : threeThreads.SetsInv := by
  intro t
  cases t with
  | thread =>
    have hone : (oneThread 3).threads.Inv := setsInv_oneThread 3 .thread
    have htwo := (setInsert_spec hone ⟨1, 1⟩ ⟨threadRunnable, 0, 0, 0, 0, 0⟩).1
    exact (setInsert_spec htwo ⟨2, 1⟩ ⟨threadRunnable + 1, 0, 0, 0, 0, 0⟩).1
  | priority =>
    have hone : (oneThread 3).priorities.Inv := setsInv_oneThread 3 .priority
    have htwo := (setInsert_spec hone ⟨1, 1⟩ ⟨2, 10⟩).1
    exact (setInsert_spec htwo ⟨2, 1⟩ ⟨0, 10⟩).1
  | _ => exact inv_newSet _

theorem schedulerSystemTick_best_threeThreads :
    (schedulerSystemTick threeThreads 0).1 = ⟨1, 1⟩ ∧
      PicksBest threeThreads 0 fun i => Eligible threeThreads 0 i ∧ BelowBound threeThreads i :=
  ⟨by decide, schedulerSystemTick_best setsInv_threeThreads 0⟩

/-- **A thread with level 0xFFFFFFFF** is not picked, although it is the only one. -/
theorem not_schedulerSystemTick_best :
    ¬ ∀ w : World, w.SetsInv → ∀ coreId, PicksBest w coreId (Eligible w coreId) := by
  intro h
  have hinvalid := (h (oneThread 0xFFFFFFFF) (setsInv_oneThread _) 0).none_iff.mp (by decide) 0 (by decide)
  apply hinvalid
  constructor
  · simp [oneThread, threadSetInsert, setInsert, newThreadSet, newSet, maxEntities]
  · intro a ha
    have hnone : getComponent (oneThread 0xFFFFFFFF).cpuAffinities
      ((oneThread 0xFFFFFFFF).threads.entityMap 0) = none := by decide
    rw [hnone] at ha
    simp at ha

end Keuos.Ecs
