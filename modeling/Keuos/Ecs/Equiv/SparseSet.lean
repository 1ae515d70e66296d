import Keuos.Ecs.SparseSet
import Mathlib.Data.Set.Card
import Mathlib.Data.Finset.Card
import Mathlib.Tactic.Common

/-!
# A sparse set is a finite map

`Bindings α` is what a component set is for: a partial map from entity ids to a generation and a
component.  `SparseSet.bindings` reads it off the three arrays, and every operation of the family
commutes with that reading (`bindings_setInsert`, `bindings_setRemove`, `getComponent_eq`).

The invariant `SparseSet.Inv` says that `sparse` and `entity_map` are inverse to each other on the
first `count` rows.  It bounds `count` by the number of ids, and a full set has a row for every id
(`Inv.present_of_full`), so the capacity test of an insert never drops a new entity.
-/

namespace Keuos.Ecs

/-! ### The abstract map -/

/-- A partial map from entity ids to generation and component. -/
abbrev Bindings (α : Type) := UInt32 → Option (UInt32 × α)

namespace Bindings

variable {α : Type}

/-- An insert binds every id the tables have room for. -/
def insert (m : Bindings α) (e : Entity) (c : α) : Bindings α :=
  if e.id < maxEntities then Function.update m e.id (some (e.gen, c)) else m

/-- A remove unbinds the id when the stored generation is the handle's. -/
def remove (m : Bindings α) (e : Entity) : Bindings α :=
  if (m e.id).map Prod.fst = some e.gen then Function.update m e.id none else m

/-- The number of bound ids. -/
noncomputable def size (m : Bindings α) : Nat :=
  {id | (m id).isSome}.ncard

/-- The map after a call. -/
def exec (m : Bindings α) : SetOp α → Bindings α
  | .insert e c => m.insert e c
  | .get _ => m
  | .remove e => m.remove e

end Bindings

section Family

variable {α : Type}

/-- The map that the three arrays hold. -/
def SparseSet.bindings (set : SparseSet α) : Bindings α := fun id =>
  if id < maxEntities then
    if set.sparse id ≠ invalid then
      some ((set.entityMap (set.sparse id)).gen, set.dense (set.sparse id))
    else none
  else none

/-- The first `count` rows and the present entries of `sparse` are inverse to each other. -/
structure SparseSet.Inv (set : SparseSet α) : Prop where
  count_le : set.count ≤ maxEntities
  id_lt : ∀ i < set.count, (set.entityMap i).id < maxEntities
  sparse_id : ∀ i < set.count, set.sparse (set.entityMap i).id = i
  row_lt : ∀ id < maxEntities, set.sparse id ≠ invalid → set.sparse id < set.count
  row_id : ∀ id < maxEntities, set.sparse id ≠ invalid → (set.entityMap (set.sparse id)).id = id

/-! ### Counting the rows -/

/-- The id stored in row `i`. -/
def SparseSet.rowId (set : SparseSet α) (i : Nat) : UInt32 :=
  (set.entityMap (UInt32.ofNat i)).id

theorem toNat_row {set : SparseSet α} {i : Nat} (hi : i < set.count.toNat) :
    (UInt32.ofNat i).toNat = i := by
  rw [UInt32.toNat_ofNat', Nat.mod_eq_of_lt (Nat.lt_trans hi set.count.toNat_lt)]

theorem ofNat_lt_count {set : SparseSet α} {i : Nat} (hi : i < set.count.toNat) :
    UInt32.ofNat i < set.count := by
  rw [UInt32.lt_iff_toNat_lt, toNat_row hi]
  exact hi

theorem ne_invalid_of_le {n : UInt32} (hn : n ≤ maxEntities) : n ≠ invalid := by
  rintro rfl
  exact absurd hn (by decide)

namespace SparseSet.Inv

variable {set : SparseSet α}

theorem rowId_injOn (h : set.Inv) :
    Set.InjOn set.rowId (Finset.range set.count.toNat : Set Nat) := by
  intro i hi j hj hij
  have hi' := Finset.mem_range.mp (Finset.mem_coe.mp hi)
  have hj' := Finset.mem_range.mp (Finset.mem_coe.mp hj)
  have hrows : UInt32.ofNat i = UInt32.ofNat j := by
    rw [← h.sparse_id _ (ofNat_lt_count hi'), ← h.sparse_id _ (ofNat_lt_count hj')]
    exact congrArg set.sparse hij
  have := congrArg UInt32.toNat hrows
  rwa [toNat_row hi', toNat_row hj'] at this

theorem row_ne_invalid (h : set.Inv) {i : UInt32} (hi : i < set.count) : i ≠ invalid :=
  ne_invalid_of_le (UInt32.le_of_lt (UInt32.lt_of_lt_of_le hi h.count_le))

theorem isSome_bindings_iff (h : set.Inv) (id : UInt32) :
    (set.bindings id).isSome ↔ ∃ i < set.count.toNat, set.rowId i = id := by
  unfold SparseSet.bindings SparseSet.rowId
  constructor
  · intro hsome
    split_ifs at hsome with hid hpresent
    · have hrow := h.row_lt id hid hpresent
      refine ⟨(set.sparse id).toNat, UInt32.lt_iff_toNat_lt.mp hrow, ?_⟩
      rw [UInt32.ofNat_toNat]
      exact h.row_id id hid hpresent
    · simp at hsome
    · simp at hsome
  · rintro ⟨i, hi, rfl⟩
    have hrow := ofNat_lt_count hi
    have hne : UInt32.ofNat i ≠ invalid := h.row_ne_invalid hrow
    rw [if_pos (h.id_lt _ hrow), h.sparse_id _ hrow, if_pos hne]
    rfl

/-- **`count` is the number of bindings.** -/
theorem count_eq_size (h : set.Inv) : set.count.toNat = set.bindings.size := by
  have hset : {id | (set.bindings id).isSome} =
      (((Finset.range set.count.toNat).image set.rowId : Finset UInt32) : Set UInt32) := by
    ext id
    rw [Set.mem_ofPred_eq, h.isSome_bindings_iff, Finset.mem_coe, Finset.mem_image]
    simp only [Finset.mem_range]
  rw [Bindings.size, hset, Set.ncard_coe_finset, Finset.card_image_of_injOn h.rowId_injOn,
    Finset.card_range]

theorem present_of_full (h : set.Inv) (hfull : set.count ≥ maxEntities) {id : UInt32}
    (hid : id < maxEntities) : set.sparse id ≠ invalid := by
  have hcount : set.count.toNat = 65536 := by
    have h₁ := UInt32.le_iff_toNat_le.mp h.count_le
    have h₂ := UInt32.le_iff_toNat_le.mp hfull
    have h₃ : maxEntities.toNat = 65536 := rfl
    omega
  have hsub : (Finset.range set.count.toNat).image (fun i => (set.rowId i).toNat) ⊆
      Finset.range 65536 := by
    intro n hn
    obtain ⟨i, hi, rfl⟩ := Finset.mem_image.mp hn
    have := h.id_lt _ (ofNat_lt_count (Finset.mem_range.mp hi))
    exact Finset.mem_range.mpr (UInt32.lt_iff_toNat_lt.mp this)
  have hcard : ((Finset.range set.count.toNat).image (fun i => (set.rowId i).toNat)).card =
      65536 := by
    rw [Finset.card_image_of_injOn, Finset.card_range, hcount]
    intro i hi j hj hij
    exact h.rowId_injOn hi hj (UInt32.toNat_inj.mp hij)
  have heq := Finset.eq_of_subset_of_card_le hsub (by rw [hcard, Finset.card_range])
  have hmem : id.toNat ∈ (Finset.range set.count.toNat).image (fun i => (set.rowId i).toNat) := by
    rw [heq]
    exact Finset.mem_range.mpr (UInt32.lt_iff_toNat_lt.mp hid)
  obtain ⟨i, hi, hrow⟩ := Finset.mem_image.mp hmem
  have hsome := (h.isSome_bindings_iff id).mpr
    ⟨i, Finset.mem_range.mp hi, UInt32.toNat_inj.mp hrow⟩
  intro habsent
  simp [SparseSet.bindings, habsent] at hsome

end SparseSet.Inv

/-! ### The operations -/

theorem inv_newSet (b : Blocks α) : (newSet b).Inv where
  count_le := (by decide : (0 : UInt32) ≤ maxEntities)
  id_lt i hi := absurd hi (UInt32.not_lt.mpr UInt32.zero_le)
  sparse_id i hi := absurd hi (UInt32.not_lt.mpr UInt32.zero_le)
  row_lt id hid hpresent := absurd (if_pos hid) hpresent
  row_id id hid hpresent := absurd (if_pos hid) hpresent

theorem bindings_newSet (b : Blocks α) : (newSet b).bindings = fun _ => none := by
  funext id
  unfold SparseSet.bindings newSet
  by_cases hid : id < maxEntities
  · simp [hid]
  · simp [hid]

theorem lt_add_one_iff {n : UInt32} (hn : n ≤ maxEntities) (i : UInt32) :
    i < n + 1 ↔ i < n ∨ i = n := by
  unfold maxEntities at hn
  grind

theorem rows_append {n : UInt32} (hroom : n < maxEntities) :
    n + 1 ≤ maxEntities ∧ ∀ i, i < n + 1 ↔ i < n ∨ i = n := by
  refine ⟨?_, lt_add_one_iff (UInt32.le_of_lt hroom)⟩
  unfold maxEntities at *
  grind

theorem inv_overwrite {set : SparseSet α} (h : set.Inv) (e : Entity) (c : α)
    (hid : e.id < maxEntities) (hpresent : set.sparse e.id ≠ invalid) :
    SparseSet.Inv { set with
      dense := Function.update set.dense (set.sparse e.id) c
      entityMap := Function.update set.entityMap (set.sparse e.id) e } := by
  have hrow := h.row_id e.id hid hpresent
  constructor
  · exact h.count_le
  · intro i hi
    simp only [Function.update_apply]
    split_ifs with heq
    · exact hid
    · exact h.id_lt i hi
  · intro i hi
    simp only [Function.update_apply]
    split_ifs with heq
    · exact heq.symm
    · exact h.sparse_id i hi
  · exact h.row_lt
  · intro id hid' hp
    simp only [Function.update_apply]
    split_ifs with heq
    · rw [← hrow, ← heq, h.row_id id hid' hp]
    · exact h.row_id id hid' hp

theorem inv_append {set : SparseSet α} (h : set.Inv) (e : Entity) (c : α)
    (hid : e.id < maxEntities) (habsent : set.sparse e.id = invalid)
    (hroom : set.count < maxEntities) :
    SparseSet.Inv
      { dense := Function.update set.dense set.count c
        entityMap := Function.update set.entityMap set.count e
        sparse := Function.update set.sparse e.id set.count
        count := set.count + 1 } := by
  obtain ⟨hcount, hrows⟩ := rows_append hroom
  have hvalid : set.count ≠ invalid := ne_invalid_of_le (UInt32.le_of_lt hroom)
  constructor
  · exact hcount
  · intro i hi
    simp only [Function.update_apply]
    split_ifs with heq
    · exact hid
    · exact h.id_lt i (((hrows i).mp hi).resolve_right heq)
  · intro i hi
    simp only [Function.update_apply]
    split_ifs with heq hid' hid'
    · exact heq.symm
    · exact absurd rfl hid'
    · -- an older row holds a present id, so not that of `e`
      have hi' := ((hrows i).mp hi).resolve_right heq
      have hsp := h.sparse_id i hi'
      rw [hid', habsent] at hsp
      exact absurd hsp.symm (h.row_ne_invalid hi')
    · exact h.sparse_id i (((hrows i).mp hi).resolve_right heq)
  · intro id hid' hp
    simp only [Function.update_apply] at hp ⊢
    split_ifs at hp ⊢ with heq
    · exact (hrows _).mpr (Or.inr rfl)
    · exact (hrows _).mpr (Or.inl (h.row_lt id hid' hp))
  · intro id hid' hp
    simp only [Function.update_apply] at hp ⊢
    split_ifs at hp ⊢ with heq hrow hrow
    · exact heq.symm
    · exact absurd rfl hrow
    · exact absurd (h.row_lt id hid' hp) (hrow ▸ UInt32.lt_irrefl _)
    · exact h.row_id id hid' hp

/-- **An insert binds the id**, whether or not it was bound, and keeps the invariant. -/
theorem setInsert_spec {set : SparseSet α} (h : set.Inv) (e : Entity) (c : α) :
    (setInsert set e c).Inv ∧ (setInsert set e c).bindings = set.bindings.insert e c := by
  unfold setInsert Bindings.insert
  by_cases hid : e.id < maxEntities
  · have hge : ¬ e.id ≥ maxEntities := UInt32.not_le.mpr hid
    simp only [hge, hid, ↓reduceIte, bne_iff_ne]
    by_cases hpresent : set.sparse e.id = invalid
    · have hroom : set.count < maxEntities := by
        rw [← UInt32.not_le]
        intro hfull
        exact h.present_of_full hfull hid hpresent
      have hnf : ¬ set.count ≥ maxEntities := UInt32.not_le.mpr hroom
      simp only [hpresent, ne_eq, not_true_eq_false, hnf, ↓reduceIte]
      refine ⟨inv_append h e c hid hpresent hroom, ?_⟩
      funext id
      simp only [SparseSet.bindings, Function.update_apply]
      have hcount : set.count ≠ invalid := ne_invalid_of_le (UInt32.le_of_lt hroom)
      have hlt := h.row_lt id
      grind
    · simp only [ne_eq, hpresent, not_false_eq_true, ↓reduceIte]
      refine ⟨inv_overwrite h e c hid hpresent, ?_⟩
      funext id
      simp only [SparseSet.bindings, Function.update_apply]
      have hrid := h.row_id id
      have hrid' := h.row_id e.id hid hpresent
      grind
  · have hge : e.id ≥ maxEntities := UInt32.not_lt.mp hid
    simp only [hge, hid, ↓reduceIte, and_true]
    exact h

/-- What a remove that finds the entity leaves: the last row in place of the removed one. -/
def SparseSet.swapRemove (set : SparseSet α) (e : Entity) : SparseSet α :=
  let row := set.sparse e.id
  let last := set.count - 1
  { dense := Function.update set.dense row (set.dense last)
    entityMap := Function.update set.entityMap row (set.entityMap last)
    sparse := Function.update (Function.update set.sparse (set.entityMap last).id row) e.id invalid
    count := last }

theorem setRemove_eq {set : SparseSet α} (h : set.Inv) {e : Entity} (hid : e.id < maxEntities)
    (hpresent : set.sparse e.id ≠ invalid)
    (hgen : (set.entityMap (set.sparse e.id)).gen = e.gen) :
    setRemove set e = set.swapRemove e := by
  have hge : ¬ e.id ≥ maxEntities := UInt32.not_le.mpr hid
  unfold setRemove SparseSet.swapRemove
  simp only [hge, ↓reduceIte, bne_iff_ne, ne_eq, hpresent, not_false_eq_true, hgen, beq_self_eq_true]
  by_cases hlast : set.sparse e.id = set.count - 1
  · have hlid : (set.entityMap (set.count - 1)).id = e.id := by
      rw [← hlast]
      exact h.row_id e.id hid hpresent
    simp only [hlast, not_true_eq_false, ↓reduceIte, Function.update_eq_self, hlid,
      Function.update_idem]
  · simp only [hlast, not_false_eq_true, ↓reduceIte]

theorem rows_remove {n row : UInt32} (hrow : row < n) :
    n - 1 < n ∧ ∀ i, i < n - 1 ↔ i < n ∧ i ≠ n - 1 := by
  refine ⟨by grind, ?_⟩
  intro i
  grind

theorem inv_swapRemove {set : SparseSet α} (h : set.Inv) {e : Entity} (hid : e.id < maxEntities)
    (hpresent : set.sparse e.id ≠ invalid) : (set.swapRemove e).Inv := by
  have hrow := h.row_lt e.id hid hpresent
  obtain ⟨hlast, hrows⟩ := rows_remove hrow
  have hrid := h.row_id e.id hid hpresent
  have hlid := h.sparse_id _ hlast
  unfold SparseSet.swapRemove
  constructor
  · exact UInt32.le_of_lt (UInt32.lt_of_lt_of_le hlast h.count_le)
  · intro i hi
    have hi' := h.id_lt i ((hrows i).mp hi).1
    have hlast' := h.id_lt _ hlast
    simp only [Function.update_apply]
    split_ifs with heq
    · exact hlast'
    · exact hi'
  · intro i hi
    obtain ⟨hic, hil⟩ := (hrows i).mp hi
    have hsp := h.sparse_id i hic
    simp only [Function.update_apply]
    grind
  · intro id hid' hp
    have hlt := h.row_lt id hid'
    have hrid' := h.row_id id hid'
    simp only [Function.update_apply] at hp ⊢
    rw [hrows]
    grind
  · intro id hid' hp
    have hlt := h.row_lt id hid'
    have hrid' := h.row_id id hid'
    simp only [Function.update_apply] at hp ⊢
    grind

theorem bindings_swapRemove {set : SparseSet α} (h : set.Inv) {e : Entity}
    (hid : e.id < maxEntities) (hpresent : set.sparse e.id ≠ invalid) :
    (set.swapRemove e).bindings = Function.update set.bindings e.id none := by
  have hrow := h.row_lt e.id hid hpresent
  obtain ⟨hlast, -⟩ := rows_remove hrow
  have hlid := h.sparse_id _ hlast
  have hvalid := h.row_ne_invalid hlast
  have hrid := h.row_id e.id hid hpresent
  funext id
  have hrid' := h.row_id id
  simp only [SparseSet.bindings, SparseSet.swapRemove, Function.update_apply]
  by_cases heq : id = e.id
  · simp [heq]
  · by_cases hmoved : id = (set.entityMap (set.count - 1)).id
    · simp only [↓reduceIte, hmoved, hlid]
      grind
    · simp only [heq, hmoved, ↓reduceIte]
      grind

/-- **A remove unbinds the id** when the generations agree and does nothing otherwise. -/
theorem setRemove_spec {set : SparseSet α} (h : set.Inv) (e : Entity) :
    (setRemove set e).Inv ∧ (setRemove set e).bindings = set.bindings.remove e := by
  by_cases hfound : (set.bindings e.id).map Prod.fst = some e.gen
  · have hparts : e.id < maxEntities ∧ set.sparse e.id ≠ invalid ∧
        (set.entityMap (set.sparse e.id)).gen = e.gen := by
      unfold SparseSet.bindings at hfound
      split_ifs at hfound with hid hpresent
      · exact ⟨hid, hpresent, Option.some.inj hfound⟩
      · simp at hfound
      · simp at hfound
    obtain ⟨hid, hpresent, hgen⟩ := hparts
    rw [setRemove_eq h hid hpresent hgen, Bindings.remove, if_pos hfound]
    exact ⟨inv_swapRemove h hid hpresent, bindings_swapRemove h hid hpresent⟩
  · have hself : setRemove set e = set := by
      unfold setRemove
      unfold SparseSet.bindings at hfound
      split_ifs at hfound with hid hpresent <;> grind
    rw [hself, Bindings.remove, if_neg hfound]
    exact ⟨h, rfl⟩

theorem getComponent_eq_some_iff (set : SparseSet α) (e : Entity) (c : α) :
    getComponent set e = some c ↔ set.bindings e.id = some (e.gen, c) := by
  unfold getComponent setGet SparseSet.bindings
  by_cases hid : e.id < maxEntities
  · have hge : ¬ e.id ≥ maxEntities := UInt32.not_le.mpr hid
    by_cases hpresent : set.sparse e.id = invalid
    · simp [hge, hid, hpresent]
    · by_cases hgen : (set.entityMap (set.sparse e.id)).gen = e.gen
      · simp [hge, hid, hpresent, hgen]
      · simp [hge, hid, hpresent, hgen]
  · have hge : e.id ≥ maxEntities := UInt32.not_lt.mp hid
    simp [hge, hid]

/-! ### Runs -/

/-- The set is well formed and holds the map `m`. -/
def SparseSet.Refines (set : SparseSet α) (m : Bindings α) : Prop :=
  set.Inv ∧ set.bindings = m

/-- The four generic functions. -/
def familyFns : SetFns α := ⟨newSet, setInsert, setGet, setRemove⟩

theorem SparseSet.Refines.exec {set : SparseSet α} {m : Bindings α} (h : set.Refines m)
    (op : SetOp α) : (familyFns.exec set op).Refines (m.exec op) := by
  obtain ⟨hinv, rfl⟩ := h
  cases op with
  | insert e c => exact setInsert_spec hinv e c
  | get e => exact ⟨hinv, rfl⟩
  | remove e => exact setRemove_spec hinv e

theorem SparseSet.Refines.runOps {set : SparseSet α} {m : Bindings α} (h : set.Refines m)
    (ops : List (SetOp α)) :
    (Keuos.runOps familyFns.exec set ops).Refines (Keuos.runOps Bindings.exec m ops) := by
  induction ops generalizing set m with
  | nil => exact h
  | cons op ops ih => exact ih (h.exec op)

end Family

theorem Table.fns_eq (t : Table) : t.fns = familyFns := by
  cases t <;> rfl

/-- **Each component set is a finite map.**  After any calls on the set that a constructor
returns, a get finds exactly the components that the map binds with the handle's generation,
`count` is the number of bindings, and `sparse` and `entity_map` invert each other. -/
theorem componentSet_refines_bindings (t : Table) (b : Blocks t.Component)
    (ops : List (SetOp t.Component)) :
    let set := runOps t.fns.exec (t.fns.new b) ops
    let m : Bindings t.Component := runOps Bindings.exec (fun _ => none) ops
    (∀ e c, (t.fns.get set e).map set.dense = some c ↔ m e.id = some (e.gen, c)) ∧
    (∀ e, t.fns.get set e = none ↔ ∀ c, m e.id ≠ some (e.gen, c)) ∧
    set.count.toNat = m.size ∧
    (∀ i < set.count, (set.entityMap i).id < maxEntities ∧
      set.sparse (set.entityMap i).id = i) ∧
    (∀ id < maxEntities, set.sparse id ≠ invalid →
      set.sparse id < set.count ∧ (set.entityMap (set.sparse id)).id = id) := by
  rw [t.fns_eq]
  intro set m
  have hrefines : set.Refines m :=
    SparseSet.Refines.runOps ⟨inv_newSet b, bindings_newSet b⟩ ops
  obtain ⟨hinv, hm⟩ := hrefines
  have hget : ∀ e c, getComponent set e = some c ↔ m e.id = some (e.gen, c) := by
    intro e c
    rw [← hm]
    exact getComponent_eq_some_iff set e c
  refine ⟨hget, ?_, ?_, ?_, ?_⟩
  · intro e
    constructor
    · intro hnone c hc
      have hsome := (hget e c).mpr hc
      rw [getComponent, show setGet set e = none from hnone] at hsome
      simp at hsome
    · intro hall
      cases hrow : setGet set e with
      | none => exact hrow
      | some row =>
        have hsome : getComponent set e = some (set.dense row) := by rw [getComponent, hrow]; rfl
        exact absurd ((hget e _).mp hsome) (hall _)
  · rw [← hm]
    exact hinv.count_eq_size
  · intro i hi
    exact ⟨hinv.id_lt i hi, hinv.sparse_id i hi⟩
  · intro id hid hpresent
    exact ⟨hinv.row_lt id hid hpresent, hinv.row_id id hid hpresent⟩

end Keuos.Ecs
