import Keuos.Ebr.Equiv.Grace
import Keuos.Ecs.Lifecycle
import Keuos.Ecs.Equiv.Handles

/-!
# What epoch reclamation removes

The loop of `ecs_epoch_reclaim` destroys a list of entities (`reclaimLoop_eq`): they are the entities with a
row that was retired before the safe epoch, each once, since a removal moves a row that is still to be tested
into the place of the removed one.  From there on the tables and the allocator are those of a list of
`world_destroy` calls.

## Main results

* `ecsEpochReclaim_spec`: the loop ends, and removes exactly the entities that are safe to reclaim.
-/

namespace Keuos.Ecs

/-! ### The safe epoch -/

/-- The safe epoch is the least of the global epoch and the epochs of the cores in a critical section. -/
structure IsSafeEpoch (ebr : Ebr.State) (s : UInt64) : Prop where
  attained : s = ebr.globalEpoch ∨ ∃ cpu, ebr.coreInEpoch cpu = 1 ∧ s = ebr.coreEpoch cpu
  le_global : s ≤ ebr.globalEpoch
  le_core : ∀ cpu, ebr.coreInEpoch cpu = 1 → s ≤ ebr.coreEpoch cpu

theorem foldl_attained (ebr : Ebr.State) (cpus : List Ebr.Cpu) (start : UInt64) :
    let s := cpus.foldl (fun safe i =>
      if ebr.coreInEpoch i == 1 then
        if ebr.coreEpoch i < safe then ebr.coreEpoch i else safe
      else safe) start
    s = start ∨ ∃ cpu, ebr.coreInEpoch cpu = 1 ∧ s = ebr.coreEpoch cpu := by
  intro s
  induction cpus generalizing start with
  | nil => exact .inl rfl
  | cons cpu cpus ih =>
    simp only [s, List.foldl_cons] at ih ⊢
    split_ifs with hin hlt
    · rcases ih (ebr.coreEpoch cpu) with hs | hs
      · exact .inr ⟨cpu, beq_iff_eq.mp hin, hs⟩
      · exact .inr hs
    · exact ih start
    · exact ih start

theorem safeEpoch_isSafeEpoch (ebr : Ebr.State) : IsSafeEpoch ebr (Ebr.safeEpoch ebr) := by
  constructor
  · exact foldl_attained ebr (List.finRange 16) ebr.globalEpoch
  · exact (Ebr.foldl_safe_le ebr (List.finRange 16) ebr.globalEpoch).1
  · intro cpu hin
    exact Ebr.safeEpoch_le ebr cpu hin

/-! ### One removal -/

section Removal

variable {w : World} {e x : Entity}

/-- The entity has a row that was retired before the safe epoch. -/
def Reclaimable (w : World) (safeEpoch : UInt64) (x : Entity) : Prop :=
  ∃ info, getComponent w.epochInfos x = some info ∧ info.retireEpoch < safeEpoch

theorem World.SetsInv.worldDestroy (hw : w.SetsInv) (e : Entity) : (worldDestroy w e).SetsInv := by
  intro t
  rw [table_worldDestroy]
  exact (setRemove_spec (hw t) e).1

theorem eq_of_id_of_gen (hid : e.id = x.id) (hgen : e.gen = x.gen) : e = x := by
  obtain ⟨id, gen⟩ := e
  obtain ⟨id', gen'⟩ := x
  simp_all

theorem eq_of_getComponent {α : Type} {set : SparseSet α} {c d : α} (he : getComponent set e = some c)
    (hx : getComponent set x = some d) (hid : e.id = x.id) : e = x := by
  rw [getComponent_eq_some_iff] at he hx
  rw [hid, hx] at he
  exact eq_of_id_of_gen hid (Prod.mk.inj (Option.some.inj he)).1.symm

theorem reclaimable_worldDestroy (hw : w.SetsInv) (safeEpoch : UInt64) :
    Reclaimable (worldDestroy w e) safeEpoch x ↔ Reclaimable w safeEpoch x ∧ x ≠ e := by
  have hcomp := getComponent_worldDestroy hw e x .epochInfo
  have hcomp' : getComponent (worldDestroy w e).epochInfos x =
    if x = e then none else getComponent w.epochInfos x := hcomp
  unfold Reclaimable
  rw [hcomp']
  by_cases hx : x = e
  · simp [hx]
  · simp [hx]

theorem getComponent_row {α : Type} {set : SparseSet α} (h : set.Inv) {i : UInt32} (hi : i < set.count) :
    getComponent set (set.entityMap i) = some (set.dense i) := by
  rw [getComponent_eq_some_iff]
  have hid := h.id_lt i hi
  have hrow := h.sparse_id i hi
  have hne : i ≠ invalid := h.row_ne_invalid hi
  simp [SparseSet.bindings, hid, hrow, hne]

theorem row_of_getComponent {α : Type} {set : SparseSet α} (h : set.Inv) {c : α}
    (hx : getComponent set x = some c) : ∃ i < set.count, set.entityMap i = x ∧ set.dense i = c := by
  rw [getComponent_eq_some_iff] at hx
  unfold SparseSet.bindings at hx
  split_ifs at hx with hid hpresent
  · obtain ⟨hgen, hdense⟩ := Prod.mk.inj (Option.some.inj hx)
    refine ⟨set.sparse x.id, h.row_lt x.id hid hpresent, ?_, hdense⟩
    exact eq_of_id_of_gen (h.row_id x.id hid hpresent) hgen

theorem setRemove_row {α : Type} {set : SparseSet α} (h : set.Inv) {i : UInt32} (hi : i < set.count) :
    (setRemove set (set.entityMap i)).count = set.count - 1 ∧
      ∀ j < i, (setRemove set (set.entityMap i)).dense j = set.dense j := by
  have hrow := h.sparse_id i hi
  have hne : i ≠ invalid := h.row_ne_invalid hi
  have heq := setRemove_eq h (h.id_lt i hi) (by rwa [hrow]) (by rw [hrow])
  rw [heq]
  refine ⟨rfl, ?_⟩
  intro j hj
  have hji : j ≠ i := UInt32.ne_of_lt hj
  simp [SparseSet.swapRemove, hrow, hji]

/-- The liveness of a handle after a removal.  Freeing the id of a live entity makes its next generation the
current one. -/
theorem worldIsAlive_worldDestroy (w : World) (e x : Entity) :
    worldIsAlive (worldDestroy w e) x =
      if worldIsAlive w e = true ∧ x.id = e.id then decide (x.gen = e.gen + 1) else worldIsAlive w x := by
  have hdestroy : worldIsAlive (worldDestroy w e) x =
      entityAllocatorIsAlive (entityAllocatorFree w.alloc e) x := rfl
  rw [hdestroy]
  unfold worldIsAlive
  by_cases halive : entityAllocatorIsAlive w.alloc e = true
  · have hparts : e.id < maxEntities ∧ w.alloc.generations e.id = e.gen := by
      unfold entityAllocatorIsAlive at halive
      split_ifs at halive with hge
      exact ⟨UInt32.not_le.mp hge, beq_iff_eq.mp halive⟩
    obtain ⟨hid, hgen⟩ := hparts
    by_cases hx : x.id = e.id
    · rw [if_pos ⟨halive, hx⟩]
      simp only [entityAllocatorFree, entityAllocatorIsAlive, hid, hgen, beq_self_eq_true, ↓reduceIte, hx,
        UInt32.not_le.mpr hid, Function.update_self]
      rw [Bool.eq_iff_iff, beq_iff_eq, decide_eq_true_iff]
      exact eq_comm
    · rw [if_neg fun h => hx h.2]
      simp only [entityAllocatorFree, entityAllocatorIsAlive, hid, hgen, beq_self_eq_true, ↓reduceIte,
        Function.update_of_ne hx]
  · rw [entityAllocatorFree_of_not_alive (Bool.eq_false_iff.mpr halive), if_neg fun h => halive h.1]

end Removal

/-! ### A list of removals -/

section Removals

variable {w : World} {gone : List Entity}

theorem getComponent_foldl_worldDestroy (hw : w.SetsInv) (t : Table) (x : Entity) :
    getComponent ((gone.foldl worldDestroy w).table t) x =
      if x ∈ gone then none else getComponent (w.table t) x := by
  induction gone generalizing w with
  | nil => simp
  | cons e gone ih =>
    rw [List.foldl_cons, ih (hw.worldDestroy e), getComponent_worldDestroy hw]
    by_cases hx : x = e
    · simp [hx]
    · simp [hx]

theorem worldIsAlive_foldl_of_ne (w : World) {x : Entity} (hne : ∀ e ∈ gone, x.id ≠ e.id) :
    worldIsAlive (gone.foldl worldDestroy w) x = worldIsAlive w x := by
  induction gone generalizing w with
  | nil => rfl
  | cons e gone ih =>
    rw [List.foldl_cons, ih _ fun d hd => hne d (List.mem_cons_of_mem _ hd), worldIsAlive_worldDestroy]
    have hx := hne e List.mem_cons_self
    simp [hx]

theorem worldIsAlive_foldl_of_mem (hnodup : (gone.map Entity.id).Nodup) {e x : Entity} (he : e ∈ gone)
    (hx : x.id = e.id) :
    worldIsAlive (gone.foldl worldDestroy w) x =
      if worldIsAlive w e = true then decide (x.gen = e.gen + 1) else worldIsAlive w x := by
  obtain ⟨pre, post, rfl⟩ := List.append_of_mem he
  rw [List.map_append, List.map_cons] at hnodup
  obtain ⟨-, hpost, hpre⟩ := List.nodup_append.mp hnodup
  have hpre' : ∀ y : Entity, y.id = e.id → ∀ d ∈ pre, y.id ≠ d.id := by
    intro y hy d hd
    rw [hy]
    exact (hpre d.id (List.mem_map_of_mem hd) e.id List.mem_cons_self).symm
  have hpost' : ∀ d ∈ post, x.id ≠ d.id := by
    intro d hd heq
    rw [hx] at heq
    exact (List.nodup_cons.mp hpost).1 (heq ▸ List.mem_map_of_mem hd)
  rw [List.foldl_append, List.foldl_cons, worldIsAlive_foldl_of_ne _ hpost', worldIsAlive_worldDestroy,
    worldIsAlive_foldl_of_ne _ (hpre' e rfl), worldIsAlive_foldl_of_ne _ (hpre' x hx)]
  simp [hx]

end Removals

/-! ### The loop -/

/-- **The loop destroys the reclaimable entities**, each once, and it ends after at most one test for every
row and one more. -/
theorem reclaimLoop_eq (safeEpoch : UInt64) (fuel : Nat) {w : World} (hw : w.SetsInv) {idx : UInt32}
    (hidx : idx ≤ w.epochInfos.count) (hfuel : w.epochInfos.count.toNat < fuel + idx.toNat)
    (hkept : ∀ j < idx, safeEpoch ≤ (w.epochInfos.dense j).retireEpoch) :
    ∃ gone : List Entity, reclaimLoop safeEpoch fuel w idx = some (gone.foldl worldDestroy w) ∧
      gone.Nodup ∧ ∀ x, x ∈ gone ↔ Reclaimable w safeEpoch x := by
  have hrows : w.epochInfos.Inv := hw .epochInfo
  induction fuel generalizing w idx with
  | zero =>
    have hle := UInt32.le_iff_toNat_le.mp hidx
    omega
  | succ fuel ih =>
    unfold reclaimLoop
    by_cases hlt : idx < w.epochInfos.count
    · have hlt' := UInt32.lt_iff_toNat_lt.mp hlt
      rw [if_pos hlt]
      by_cases hsafe : (w.epochInfos.dense idx).retireEpoch < safeEpoch
      · -- The row is removed, and the same index is tested again.
        obtain ⟨hcount, hdense⟩ := setRemove_row hrows hlt
        have hcount' : (worldDestroy w (w.epochInfos.entityMap idx)).epochInfos.count =
          w.epochInfos.count - 1 := hcount
        have hone : (w.epochInfos.count - 1).toNat = w.epochInfos.count.toNat - 1 :=
          UInt32.toNat_sub_of_le _ _ (UInt32.le_iff_toNat_le.mpr (by show 1 ≤ _; omega))
        have hw' := hw.worldDestroy (w.epochInfos.entityMap idx)
        obtain ⟨gone, hloop, hnodup, hmem⟩ := @ih (worldDestroy w (w.epochInfos.entityMap idx)) hw' idx
          (by rw [hcount', UInt32.le_iff_toNat_le]; omega)
          (by rw [hcount']; omega)
          (fun j hj => by
            show _ ≤ ((setRemove w.epochInfos _).dense j).retireEpoch
            rw [hdense j hj]
            exact hkept j hj)
          (hw' .epochInfo)
        simp only [hsafe, ↓reduceIte]
        refine ⟨w.epochInfos.entityMap idx :: gone, hloop, ?_, ?_⟩
        · rw [List.nodup_cons]
          refine ⟨fun hin => ?_, hnodup⟩
          exact ((reclaimable_worldDestroy hw safeEpoch).mp ((hmem _).mp hin)).2 rfl
        · intro x
          rw [List.mem_cons, hmem, reclaimable_worldDestroy hw]
          by_cases hx : x = w.epochInfos.entityMap idx
          · have hrow : Reclaimable w safeEpoch x := by
              rw [hx]
              exact ⟨_, getComponent_row hrows hlt, hsafe⟩
            simp [hx, hx ▸ hrow]
          · simp [hx]
      · have hsucc : (idx + 1).toNat = idx.toNat + 1 := by
          rw [UInt32.toNat_add]
          exact Nat.mod_eq_of_lt (by have := w.epochInfos.count.toNat_lt; show _ + 1 < _; omega)
        simp only [hsafe, ↓reduceIte]
        refine ih hw ?_ ?_ ?_ hrows
        · rw [UInt32.le_iff_toNat_le, hsucc]
          exact hlt'
        · omega
        · intro j hj
          by_cases hji : j = idx
          · rw [hji]
            exact UInt64.not_lt.mp hsafe
          · refine hkept j (UInt32.lt_iff_toNat_lt.mpr ?_)
            have hne : j.toNat ≠ idx.toNat := fun heq => hji (UInt32.toNat_inj.mp heq)
            have := UInt32.lt_iff_toNat_lt.mp hj
            omega
    · rw [if_neg hlt]
      refine ⟨[], rfl, List.nodup_nil, fun x => ?_⟩
      -- Every row has been tested.
      have hnone : ¬ Reclaimable w safeEpoch x := by
        rintro ⟨info, hinfo, hsafe⟩
        obtain ⟨i, hi, -, hdense⟩ := row_of_getComponent hrows hinfo
        have hi' : i < idx := UInt32.lt_of_lt_of_le hi (UInt32.not_lt.mp hlt)
        have hge := hkept i hi'
        rw [hdense] at hge
        exact absurd hsafe (UInt64.not_lt.mpr hge)
      simp [hnone]

theorem reclaimLoop_mono {safeEpoch : UInt64} {fuel more : Nat} {w w' : World} {idx : UInt32}
    (h : reclaimLoop safeEpoch fuel w idx = some w') (hle : fuel ≤ more) :
    reclaimLoop safeEpoch more w idx = some w' := by
  induction fuel generalizing more w idx with
  | zero => simp [reclaimLoop] at h
  | succ fuel ih =>
    obtain ⟨more, rfl⟩ := Nat.exists_eq_add_of_le' (Nat.lt_of_lt_of_le (Nat.succ_pos fuel) hle)
    have hle' : fuel ≤ more := by omega
    unfold reclaimLoop at h ⊢
    dsimp only at h ⊢
    split_ifs at h ⊢
    · exact ih h hle'
    · exact ih h hle'
    · exact h

/-! ### Reclamation -/

/-- The handle behind that of a live entity which is removed. -/
def NextGeneration (w : World) (safeEpoch : UInt64) (x : Entity) : Prop :=
  ∃ e, Reclaimable w safeEpoch e ∧ worldIsAlive w e = true ∧ x = ⟨e.id, e.gen + 1⟩

/-- `w'` is `w` without the reclaimable entities.  The liveness of the handles in `same` is unchanged. -/
structure Reclaimed (w w' : World) (safeEpoch : UInt64) (same : Entity → Prop) : Prop where
  row_iff : ∀ x info, getComponent w'.epochInfos x = some info ↔
    getComponent w.epochInfos x = some info ∧ safeEpoch ≤ info.retireEpoch
  removed : ∀ x, Reclaimable w safeEpoch x →
    (∀ t, getComponent (w'.table t) x = none) ∧ worldIsAlive w' x = false
  others : ∀ x, ¬ Reclaimable w safeEpoch x → ∀ t, getComponent (w'.table t) x = getComponent (w.table t) x
  alive : ∀ x, ¬ Reclaimable w safeEpoch x → same x → worldIsAlive w' x = worldIsAlive w x

theorem reclaimed_of_gone {w : World} (hw : w.SetsInv) {safeEpoch : UInt64} {gone : List Entity}
    (hnodup : gone.Nodup) (hmem : ∀ x, x ∈ gone ↔ Reclaimable w safeEpoch x) :
    Reclaimed w (gone.foldl worldDestroy w) safeEpoch (¬ NextGeneration w safeEpoch ·) ∧
      ∀ x, NextGeneration w safeEpoch x → worldIsAlive (gone.foldl worldDestroy w) x = true := by
  -- two handles of one id would share the component
  have hids : (gone.map Entity.id).Nodup := by
    refine hnodup.map_on ?_
    intro d hd e he hid
    obtain ⟨c, hc, -⟩ := (hmem d).mp hd
    obtain ⟨c', hc', -⟩ := (hmem e).mp he
    exact eq_of_getComponent hc hc' hid
  refine ⟨⟨?_, ?_, ?_, ?_⟩, ?_⟩
  · intro x info
    have hcomp : getComponent (gone.foldl worldDestroy w).epochInfos x =
      if x ∈ gone then none else getComponent w.epochInfos x :=
        getComponent_foldl_worldDestroy hw .epochInfo x
    rw [hcomp]
    constructor
    · intro hinfo
      split_ifs at hinfo with hx
      refine ⟨hinfo, UInt64.not_lt.mp fun hlt => hx ((hmem x).mpr ⟨info, hinfo, hlt⟩)⟩
    · rintro ⟨hinfo, hge⟩
      rw [if_neg, hinfo]
      intro hx
      obtain ⟨info', hinfo', hlt⟩ := (hmem x).mp hx
      obtain rfl := Option.some.inj (hinfo.symm.trans hinfo')
      exact absurd hlt (UInt64.not_lt.mpr hge)
  · intro x hx
    have hgone := (hmem x).mpr hx
    constructor
    · intro t
      rw [getComponent_foldl_worldDestroy hw, if_pos hgone]
    · rw [worldIsAlive_foldl_of_mem hids hgone rfl]
      split_ifs with halive
      · have hne : x.gen ≠ x.gen + 1 := by grind
        simp [hne]
      · exact Bool.eq_false_iff.mpr halive
  · intro x hx t
    rw [getComponent_foldl_worldDestroy hw, if_neg fun h => hx ((hmem x).mp h)]
  · intro x hx hnext
    by_cases hid : ∃ e ∈ gone, x.id = e.id
    · obtain ⟨e, he, hid⟩ := hid
      have hsafe := (hmem e).mp he
      rw [worldIsAlive_foldl_of_mem hids he hid]
      split_ifs with halive
      · -- The generation of `x` is neither that of `e` nor the next one.
        have hgen : x.gen ≠ e.gen + 1 := fun h => hnext ⟨e, hsafe, halive, eq_of_id_of_gen hid h⟩
        have hother : x.gen ≠ e.gen := fun h => hx (eq_of_id_of_gen hid h ▸ hsafe)
        have hdead : worldIsAlive w x ≠ true := by
          intro hxalive
          unfold worldIsAlive entityAllocatorIsAlive at halive hxalive
          rw [hid] at hxalive
          split_ifs at halive hxalive
          exact hother ((beq_iff_eq.mp hxalive).symm.trans (beq_iff_eq.mp halive))
        simp [hgen, hdead]
      · rfl
    · push Not at hid
      exact worldIsAlive_foldl_of_ne w hid
  · rintro x ⟨e, hsafe, halive, rfl⟩
    have hid : (⟨e.id, e.gen + 1⟩ : Entity).id = e.id := rfl
    rw [worldIsAlive_foldl_of_mem hids ((hmem e).mpr hsafe) hid, if_pos halive]
    simp

/-- **Epoch reclamation** ends, and removes exactly the entities with a row that was retired before the least
of the global epoch and the epochs of the cores in a critical section. -/
theorem ecsEpochReclaim_spec {w : World} (hw : w.SetsInv) (ebr : Ebr.State) :
    ∃ s w', IsSafeEpoch ebr s ∧
      (∀ fuel, w.epochInfos.count.toNat < fuel → ecsEpochReclaim fuel w ebr = some w') ∧
      Reclaimed w w' s (¬ NextGeneration w s ·) ∧ ∀ x, NextGeneration w s x → worldIsAlive w' x = true := by
  have hzero : (0 : UInt32) ≤ w.epochInfos.count := UInt32.zero_le
  obtain ⟨gone, hloop, hnodup, hmem⟩ := reclaimLoop_eq (Ebr.safeEpoch ebr)
      (w.epochInfos.count.toNat + 1) hw hzero
    (by simp) (fun j hj => absurd hj UInt32.not_lt_zero)
  obtain ⟨hreclaimed, hnext⟩ := reclaimed_of_gone hw hnodup hmem
  refine ⟨Ebr.safeEpoch ebr, gone.foldl worldDestroy w, safeEpoch_isSafeEpoch ebr, ?_, hreclaimed, hnext⟩
  intro fuel hfuel
  exact reclaimLoop_mono hloop hfuel

/-- A live entity that was retired in epoch 0. -/
def retiredWorld : World :=
  ecsRetireEntity (worldSpawn (newWorld zeroBlocks)).2 0 (fun _ => 0) ⟨0, 1⟩

/-- No core is in a critical section of the first epoch. -/
def firstEpoch : Ebr.State := { Ebr.init with globalEpoch := 1 }

theorem setsInv_retiredWorld : retiredWorld.SetsInv := by
  intro t
  cases t with
  | epochInfo =>
    have hnew : (newEpochInfoSet (zeroBlocks .epochInfo)).Inv := inv_newSet _
    exact (setInsert_spec hnew ⟨0, 1⟩ ⟨0, 0⟩).1
  | _ => exact inv_newSet _

/-- With two more live entities, of which one was retired in epoch 0 and the other in epoch 2. -/
def threeRetired : World :=
  ecsRetireEntity (ecsRetireEntity (worldSpawn (worldSpawn retiredWorld).2).2 2 (fun _ => 0) ⟨1, 1⟩) 0
    (fun _ => 0) ⟨2, 1⟩

theorem setsInv_threeRetired : threeRetired.SetsInv := by
  intro t
  cases t with
  | epochInfo =>
    have hone : retiredWorld.epochInfos.Inv := setsInv_retiredWorld .epochInfo
    have htwo := (setInsert_spec hone ⟨1, 1⟩ ⟨2, 0⟩).1
    exact (setInsert_spec htwo ⟨2, 1⟩ ⟨0, 0⟩).1
  | _ => exact inv_newSet _

theorem ecsEpochReclaim_spec_threeRetired : ∃ s w', IsSafeEpoch firstEpoch s ∧
    (∀ fuel, threeRetired.epochInfos.count.toNat < fuel →
      ecsEpochReclaim fuel threeRetired firstEpoch = some w') ∧
    Reclaimed threeRetired w' s (¬ NextGeneration threeRetired s ·) ∧
      ∀ x, NextGeneration threeRetired s x → worldIsAlive w' x = true :=
  ecsEpochReclaim_spec setsInv_threeRetired firstEpoch

/-- **The next handle of a removed entity** passes for alive before it is spawned. -/
theorem not_ecsEpochReclaim_spec : ¬ ∀ w : World, w.SetsInv → ∀ ebr, ∃ s fuel w', IsSafeEpoch ebr s ∧
    ecsEpochReclaim fuel w ebr = some w' ∧ Reclaimed w w' s fun _ => True := by
  intro h
  obtain ⟨s, fuel, w', hs, hw', hreclaimed⟩ := h retiredWorld setsInv_retiredWorld firstEpoch
  -- The result does not depend on the fuel.
  have hrun : ecsEpochReclaim 2 retiredWorld firstEpoch = some (worldDestroy retiredWorld ⟨0, 1⟩) := rfl
  have hw : w' = worldDestroy retiredWorld ⟨0, 1⟩ := by
    rcases Nat.le_total fuel 2 with hle | hle
    · exact Option.some.inj ((reclaimLoop_mono hw' hle).symm.trans hrun)
    · exact Option.some.inj (hw'.symm.trans (reclaimLoop_mono hrun hle))
  have hnone : ¬ Reclaimable retiredWorld s ⟨0, 2⟩ := by
    rintro ⟨info, hinfo, -⟩
    have hget : getComponent retiredWorld.epochInfos ⟨0, 2⟩ = none := rfl
    rw [hget] at hinfo
    simp at hinfo
  have hsame := hreclaimed.alive ⟨0, 2⟩ hnone trivial
  rw [hw] at hsame
  exact absurd hsame (by decide)

end Keuos.Ecs
