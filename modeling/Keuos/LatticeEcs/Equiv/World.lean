import Keuos.LatticeEcs.World
import Mathlib.Data.List.Forall2
import Mathlib.Data.List.Nodup

/-!
# Queries are joins

A `Table` is what an ECS is for: the value of every component of every entity, and for each type the entities
that have it, in the order in which they got it.  It is a function of the writes made so far.  `Refines` says
that a world holds a table.

## Main results

* `SparseSet.holds_insert`, `SparseSet.holds_store`: the three parts of a sparse set stay in step.
* `call_refines`: a call does to the world what its writes do to the table.
* `queryRefRef_eq`, `queryRefMut_eq`, `queryRef_eq`, `queryMut_eq`: the queries are joins over the table.
* `bus_delivers`: a reader sees the events sent before its last `iter`, once and in order.
* `queries_join`: all of this after every program.
-/

namespace Keuos.LatticeEcs

/-! ### Tables -/

variable {ι : Type} {C : ι → Type}

/-- The values of the components, and the entities that have them in the order of their first write. -/
structure Table (C : ι → Type) where
  value : (t : ι) → Entity → Option (C t)
  order : ι → List Entity

/-- A component, its entity and the value that it gets. -/
abbrev Write (C : ι → Type) := Σ t, Entity × C t

namespace Table

variable [DecidableEq ι]

def empty : Table C := ⟨fun _ _ => none, fun _ => []⟩

/-- A write changes one value; the first one to a component puts its entity at the end. -/
def write (T : Table C) (x : Write C) : Table C where
  value := Function.update T.value x.1 (Function.update (T.value x.1) x.2.1 (some x.2.2))
  order :=
    if (T.value x.1 x.2.1).isSome then T.order
    else Function.update T.order x.1 (T.order x.1 ++ [x.2.1])

/-- The table after writes. -/
def after (T : Table C) (writes : List (Write C)) : Table C :=
  writes.foldl write T

@[simp] theorem after_nil (T : Table C) : T.after [] = T := rfl

@[simp] theorem after_cons (T : Table C) (x : Write C) (writes : List (Write C)) :
    T.after (x :: writes) = (T.write x).after writes := rfl

theorem after_append (T : Table C) (writes writes' : List (Write C)) :
    T.after (writes ++ writes') = (T.after writes).after writes' :=
  List.foldl_append

variable (T : Table C) {t t' : ι} {e e' : Entity} {v : C t}

@[simp] theorem value_write_self : (T.write ⟨t, e, v⟩).value t e = some v := by simp [write]

theorem value_write_of_ne_entity (h : e' ≠ e) : (T.write ⟨t, e, v⟩).value t e' = T.value t e' := by
  simp [write, h]

theorem value_write_of_ne_type (h : t' ≠ t) : (T.write ⟨t, e, v⟩).value t' = T.value t' := by
  simp [write, h]

theorem value_write_type : (T.write ⟨t, e, v⟩).value t = Function.update (T.value t) e (some v) := by
  simp [write]

theorem order_write_of_isSome (h : (T.value t e).isSome) : (T.write ⟨t, e, v⟩).order = T.order := by
  simp [write, h]

theorem order_write_of_ne_type (h : t' ≠ t) : (T.write ⟨t, e, v⟩).order t' = T.order t' := by
  unfold write
  split
  · rfl
  · exact Function.update_of_ne h _ _

theorem order_write_type :
    (T.write ⟨t, e, v⟩).order t = if (T.value t e).isSome then T.order t else T.order t ++ [e] := by
  unfold write
  split
  · rfl
  · simp

/-- The entities with both components, in the order of the first one. -/
def join (t₁ t₂ : ι) : List Entity :=
  (T.order t₁).filter fun e => (T.value t₂ e).isSome

end Table

/-! ### Sparse sets -/

namespace SparseSet

variable {α : Type}

/-- The set has the entities of `order`, one row each, with the given values. -/
structure Holds (s : SparseSet α) (order : List Entity) (value : Entity → Option α) : Prop where
  entities : s.denseToEntity = order
  nodup : order.Nodup
  length : s.dense.length = order.length
  sparse : ∀ (e : Entity) (i : Nat), s.sparse e = some i ↔ order[i]? = some e
  dense : ∀ (i : Nat) (e : Entity), order[i]? = some e → s.dense[i]? = value e
  isSome : ∀ e, (value e).isSome ↔ e ∈ order

section Holds

variable {s : SparseSet α} {order : List Entity} {value : Entity → Option α}

theorem holds_new : Holds (new : SparseSet α) [] fun _ => none :=
  ⟨rfl, List.nodup_nil, rfl, by simp [new], by simp, by simp⟩

theorem Holds.sparse_none (h : Holds s order value) {e : Entity} : s.sparse e = none ↔ e ∉ order := by
  rw [Option.eq_none_iff_forall_not_mem, List.mem_iff_getElem?]
  constructor
  · rintro hnone ⟨i, hi⟩
    exact hnone i ((h.sparse e i).mpr hi)
  · intro hnot i hi
    exact hnot ⟨i, (h.sparse e i).mp hi⟩

theorem Holds.row_lt (h : Holds s order value) {e : Entity} {i : Nat} (hi : order[i]? = some e) :
    i < s.dense.length := by
  rw [h.length]
  exact (List.getElem?_eq_some_iff.mp hi).1

theorem Holds.value_none (h : Holds s order value) {e : Entity} (he : e ∉ order) : value e = none := by
  rw [← h.isSome] at he
  exact Option.not_isSome_iff_eq_none.mp he

/-- **`get` gives the value.** -/
theorem get_eq (h : Holds s order value) (e : Entity) : s.get e = some (value e) := by
  unfold get
  cases hrow : s.sparse e with
  | none => rw [h.value_none (h.sparse_none.mp hrow)]
  | some i =>
    have hi := (h.sparse e i).mp hrow
    show (s.dense[i]?).map some = some (value e)
    rw [← h.dense i e hi, List.getElem?_eq_getElem (h.row_lt hi)]
    rfl

/-- **`get_mut` gives the row.** -/
theorem getMut_eq (h : Holds s order value) (e : Entity) : s.getMut e = some (s.sparse e) := by
  unfold getMut
  cases hrow : s.sparse e with
  | none => rfl
  | some i => exact if_pos (h.row_lt ((h.sparse e i).mp hrow))

theorem holds_store (h : Holds s order value) {e : Entity} {i : Nat} (hi : order[i]? = some e) (v : α) :
    Holds (s.store i v) order (Function.update value e (some v)) where
  entities := h.entities
  nodup := h.nodup
  length := by
    rw [← h.length]
    exact List.length_set
  sparse := h.sparse
  dense := by
    intro j e' hj
    show (s.dense.set i v)[j]? = _
    by_cases hij : i = j
    · have he : e' = e := by
        rw [hij, hj] at hi
        exact Option.some.inj hi
      rw [he, Function.update_self, ← hij, List.getElem?_set_self (h.row_lt hi)]
    · have he : e' ≠ e := by
        rintro rfl
        have h₁ := (h.sparse e' i).mpr hi
        rw [(h.sparse e' j).mpr hj] at h₁
        exact hij (Option.some.inj h₁).symm
      rw [Function.update_of_ne he, List.getElem?_set_ne hij, h.dense j e' hj]
  isSome := by
    intro e'
    by_cases he : e' = e
    · rw [he, Function.update_self]
      exact ⟨fun _ => List.mem_of_getElem? hi, fun _ => rfl⟩
    · rw [Function.update_of_ne he]
      exact h.isSome e'

theorem holds_push (h : Holds s order value) {e : Entity} (he : e ∉ order) (v : α) :
    Holds ⟨s.dense ++ [v], Function.update s.sparse e (some s.dense.length), s.denseToEntity ++ [e]⟩
      (order ++ [e]) (Function.update value e (some v)) := by
  -- The new entity is at the last index only, and the others are where they were.
  have hlast : ∀ i : Nat, (order ++ [e])[i]? = some e ↔ i = order.length := by
    intro i
    rw [List.getElem?_append]
    split
    case isTrue hlt =>
      constructor
      · intro hi
        exact absurd (List.mem_of_getElem? hi) he
      · intro hi
        omega
    case isFalse hge =>
      rw [List.getElem?_singleton]
      split
      case isTrue h0 => simp; omega
      case isFalse h0 => simp; omega
  have hother : ∀ (i : Nat) (e' : Entity), e' ≠ e → ((order ++ [e])[i]? = some e' ↔ order[i]? = some e') := by
    intro i e' hne
    rw [List.getElem?_append]
    split
    case isTrue hlt => rfl
    case isFalse hge =>
      rw [List.getElem?_singleton, List.getElem?_eq_none (by omega)]
      split
      · simp [hne.symm]
      · rfl
  refine ⟨by rw [h.entities], ?_, by simp [h.length], fun e' i => ?_, fun i e' hi => ?_, fun e' => ?_⟩
  · rw [List.nodup_append]
    refine ⟨h.nodup, List.nodup_singleton e, ?_⟩
    rintro a ha b hb rfl
    rw [List.mem_singleton] at hb
    exact he (hb ▸ ha)
  · by_cases hee : e' = e
    · rw [hee, hlast]
      show Function.update s.sparse e (some s.dense.length) e = some i ↔ _
      rw [Function.update_self, h.length, Option.some.injEq, eq_comm]
    · rw [hother i e' hee]
      show Function.update s.sparse e (some s.dense.length) e' = some i ↔ _
      rw [Function.update_of_ne hee, h.sparse]
  · show (s.dense ++ [v])[i]? = _
    by_cases hee : e' = e
    · rw [hee, hlast] at hi
      rw [hee, Function.update_self, hi, ← h.length, List.getElem?_concat_length]
    · rw [hother i e' hee] at hi
      rw [Function.update_of_ne hee, List.getElem?_append_left (h.row_lt hi), h.dense i e' hi]
  · by_cases hee : e' = e
    · rw [hee, Function.update_self]
      simp
    · rw [Function.update_of_ne hee, h.isSome]
      simp [hee]

/-- **`insert` keeps the parts in step.** -/
theorem holds_insert (h : Holds s order value) (e : Entity) (v : α) :
    ∃ s', s.insert e v = some s' ∧
      Holds s' (if (value e).isSome then order else order ++ [e]) (Function.update value e (some v)) := by
  unfold insert
  cases hrow : s.sparse e with
  | some i =>
    have hi := (h.sparse e i).mp hrow
    have hsome : (value e).isSome := (h.isSome e).mpr (List.mem_of_getElem? hi)
    refine ⟨_, if_pos (h.row_lt hi), ?_⟩
    rw [if_pos hsome]
    exact holds_store h hi v
  | none =>
    have he := h.sparse_none.mp hrow
    refine ⟨_, rfl, ?_⟩
    rw [if_neg (by rw [h.isSome]; exact he)]
    exact holds_push h he v

end Holds

end SparseSet

/-! ### The world -/

open SparseSet

/-- The set under a type id; before the first insertion it is empty. -/
def World.storage (w : World C) (t : ι) : SparseSet (C t) :=
  (w.components t).getD .new

/-- The world holds the table, after `n` calls of `spawn`. -/
structure Refines (w : World C) (n : Nat) (T : Table C) : Prop where
  next : w.nextEntity = UInt32.ofNat n
  holds : ∀ t, Holds (w.storage t) (T.order t) (T.value t)

section World

variable {w : World C} {n : Nat} {T : Table C}

theorem refines_new : Refines (World.new : World C) 0 Table.empty :=
  ⟨rfl, fun _ => holds_new⟩

theorem storage_of_some {t : ι} {s : SparseSet (C t)} (hc : w.components t = some s) : w.storage t = s := by
  rw [World.storage, hc]
  rfl

theorem holds_of_some (h : Refines w n T) {t : ι} {s : SparseSet (C t)} (hc : w.components t = some s) :
    Holds s (T.order t) (T.value t) :=
  storage_of_some hc ▸ h.holds t

theorem order_of_none (h : Refines w n T) {t : ι} (hc : w.components t = none) : T.order t = [] := by
  rw [← (h.holds t).entities, World.storage, hc]
  rfl

theorem value_of_none (h : Refines w n T) {t : ι} (hc : w.components t = none) (e : Entity) :
    T.value t e = none :=
  (h.holds t).value_none (by rw [order_of_none h hc]; exact List.not_mem_nil)

/-- **`World::get` gives the value.** -/
theorem world_get_eq (h : Refines w n T) (t : ι) (e : Entity) : w.get t e = some (T.value t e) := by
  unfold World.get
  cases hc : w.components t with
  | none => rw [value_of_none h hc]
  | some s => exact get_eq (holds_of_some h hc) e

/-- **`World::get_mut` gives the row.** -/
theorem world_getMut_eq (h : Refines w n T) (t : ι) (e : Entity) :
    w.getMut t e = some ((w.storage t).sparse e) := by
  unfold World.getMut
  cases hc : w.components t with
  | none =>
    rw [World.storage, hc]
    rfl
  | some s =>
    rw [storage_of_some hc]
    exact getMut_eq (holds_of_some h hc) e

variable [DecidableEq ι]

theorem storage_update (w : World C) (t t' : ι) (s : SparseSet (C t)) :
    World.storage { w with components := Function.update w.components t (some s) } t' =
      Function.update w.storage t s t' := by
  unfold World.storage
  by_cases ht : t' = t
  · subst ht
    simp
  · simp [ht]

theorem refines_update (h : Refines w n T) {t : ι} {e : Entity} {v : C t} {s : SparseSet (C t)}
    (hs : Holds s ((T.write ⟨t, e, v⟩).order t) (Function.update (T.value t) e (some v))) :
    Refines { w with components := Function.update w.components t (some s) } n (T.write ⟨t, e, v⟩) := by
  refine ⟨h.next, fun t' => ?_⟩
  rw [storage_update]
  by_cases ht : t' = t
  · subst ht
    rw [Function.update_self, Table.value_write_type]
    exact hs
  · rw [Function.update_of_ne ht, Table.order_write_of_ne_type T ht, Table.value_write_of_ne_type T ht]
    exact h.holds t'

/-- **`World::insert` is a write.** -/
theorem insert_refines (h : Refines w n T) (t : ι) (e : Entity) (v : C t) :
    ∃ w', w.insert t e v = some w' ∧ Refines w' n (T.write ⟨t, e, v⟩) := by
  obtain ⟨s, hs, hholds⟩ := holds_insert (h.holds t) e v
  refine ⟨{ w with components := Function.update w.components t (some s) }, ?_, ?_⟩
  · unfold World.insert
    rw [show (w.components t).getD .new = w.storage t from rfl, hs]
    rfl
  · apply refines_update h
    rw [Table.order_write_type]
    exact hholds

/-- The components of a bundle, written to one entity. -/
def bundleWrites (e : Entity) (components : Bundle C) : List (Write C) :=
  components.map fun c => ⟨c.1, e, c.2⟩

theorem bundle_refines (h : Refines w n T) (e : Entity) (components : Bundle C) :
    ∃ w', components.foldlM (fun w c => w.insert c.1 e c.2) w = some w' ∧
      Refines w' n (T.after (bundleWrites e components)) := by
  induction components generalizing w T with
  | nil => exact ⟨w, rfl, h⟩
  | cons c components ih =>
    obtain ⟨w₁, hinsert, h₁⟩ := insert_refines h c.1 e c.2
    obtain ⟨w', hrest, h'⟩ := ih h₁
    exact ⟨w', by rw [List.foldlM_cons, hinsert]; exact hrest, h'⟩

/-- **`World::spawn` writes its bundle to the next entity.** -/
theorem spawn_refines (h : Refines w n T) (components : Bundle C) :
    ∃ w', w.spawn components = some (⟨UInt32.ofNat n⟩, w') ∧
      Refines w' (n + 1) (T.after (bundleWrites ⟨UInt32.ofNat n⟩ components)) := by
  have hnext : UInt32.ofNat n + 1 = UInt32.ofNat (n + 1) := by
    rw [← UInt32.toNat_inj, UInt32.toNat_add, UInt32.toNat_ofNat', UInt32.toNat_ofNat', UInt32.toNat_one]
    omega
  have h₁ : Refines { w with nextEntity := w.nextEntity + 1 } (n + 1) T := ⟨by rw [h.next, hnext], h.holds⟩
  obtain ⟨w', hrun, h'⟩ := bundle_refines h₁ ⟨UInt32.ofNat n⟩ components
  refine ⟨w', ?_, h'⟩
  unfold World.spawn
  rw [h.next] at hrun ⊢
  dsimp only
  rw [hrun]
  rfl

theorem store_refines (h : Refines w n T) {t : ι} {row : Nat} {e : Entity} (hrow : (T.order t)[row]? = some e)
    (v : C t) : Refines (w.store t row v) n (T.write ⟨t, e, v⟩) ∧ (T.write ⟨t, e, v⟩).order = T.order := by
  have hsome : (T.value t e).isSome := ((h.holds t).isSome e).mpr (List.mem_of_getElem? hrow)
  refine ⟨?_, Table.order_write_of_isSome T hsome⟩
  have hset := holds_store (h.holds t) hrow v
  unfold World.store
  cases hc : w.components t with
  | none =>
    -- no row without a set
    have hnone := (h.holds t).row_lt hrow
    rw [World.storage, hc] at hnone
    exact absurd hnone (Nat.not_lt_zero _)
  | some s =>
    rw [World.storage, hc] at hset
    apply refines_update h
    rw [Table.order_write_of_isSome T hsome]
    exact hset

end World

/-! ### Queries -/

theorem foldlM_append {α β : Type} {f : List β → α → Option (List β)} {g : α → Option β} {l : List α}
    (hf : ∀ x ∈ l, ∀ results, f results x = some (results ++ (g x).toList)) (results : List β) :
    l.foldlM f results = some (results ++ l.filterMap g) := by
  induction l generalizing results with
  | nil => simp
  | cons x l ih =>
    have ih := ih fun y hy => hf y (List.mem_cons_of_mem _ hy)
    rw [List.foldlM_cons, hf x List.mem_cons_self]
    cases hg : g x with
    | none =>
      rw [List.filterMap_cons_none hg, Option.toList_none, List.append_nil]
      exact ih results
    | some r =>
      rw [List.filterMap_cons_some hg, List.append_cons, Option.toList_some]
      exact ih (results ++ [r])

theorem collect_eq {α β : Type} {f : α → Option (Option β)} {g : α → Option β} {l : List α}
    (hf : ∀ x ∈ l, f x = some (g x)) : collect f l = some (l.filterMap g) := by
  refine foldlM_append (fun x hx results => ?_) []
  rw [hf x hx]
  cases g x with
  | none => exact congrArg some (List.append_nil results).symm
  | some r => rfl

theorem filterMap_range_getElem? {α : Type} (l : List α) :
    ((List.range l.length).filterMap fun i => l[i]?.map fun x => (x, i)) = l.zipIdx := by
  induction l using List.reverseRecOn with
  | nil => rfl
  | append_singleton l x ih =>
    have hinit : ((List.range l.length).filterMap fun i => (l ++ [x])[i]?.map fun y => (y, i)) =
        (List.range l.length).filterMap fun i => l[i]?.map fun y => (y, i) := by
      apply List.filterMap_congr
      intro i hi
      rw [List.getElem?_append_left (List.mem_range.mp hi)]
    rw [List.length_append, List.length_singleton, List.range_succ, List.filterMap_append, hinit, ih,
      List.zipIdx_append]
    simp

/-- The value that a reference to a row refers to. -/
def World.deref (w : World C) (t : ι) (row : Nat) : Option (C t) :=
  (w.storage t).dense[row]?

/-- The entities with both components, with the values of both. -/
def Table.joinItems (T : Table C) (t₁ t₂ : ι) : List (Entity × C t₁ × C t₂) :=
  (T.order t₁).filterMap fun e => (T.value t₁ e).bind fun c₁ => (T.value t₂ e).map fun c₂ => (e, c₁, c₂)

/-- The entities with a component, with its value. -/
def Table.items (T : Table C) (t : ι) : List (Entity × C t) :=
  (T.order t).filterMap fun e => (T.value t e).map fun c => (e, c)

section Queries

variable {w : World C} {n : Nat} {T : Table C}

theorem deref_row (h : Refines w n T) {t : ι} {e : Entity} {row : Nat}
    (hrow : (w.storage t).sparse e = some row) : w.deref t row = T.value t e :=
  (h.holds t).dense row e (((h.holds t).sparse e row).mp hrow)

theorem row_isSome (h : Refines w n T) (t : ι) (e : Entity) :
    ((w.storage t).sparse e).isSome = (T.value t e).isSome := by
  cases hrow : (w.storage t).sparse e with
  | none =>
    rw [(h.holds t).value_none ((h.holds t).sparse_none.mp hrow)]
    rfl
  | some row =>
    have hmem := List.mem_of_getElem? (((h.holds t).sparse e row).mp hrow)
    exact (((h.holds t).isSome e).mpr hmem).symm

/-- **The query for `(&T1, &T2)` is a join.** -/
theorem queryRefRef_eq (h : Refines w n T) (t₁ t₂ : ι) :
    w.queryRefRef t₁ t₂ = some (T.joinItems t₁ t₂) := by
  unfold World.queryRefRef Table.joinItems
  cases hc₁ : w.components t₁ with
  | none =>
    rw [order_of_none h hc₁]
    rfl
  | some s₁ =>
    have h₁ := holds_of_some h hc₁
    cases hc₂ : w.components t₂ with
    | none => simp [value_of_none h hc₂]
    | some s₂ =>
      have h₂ := holds_of_some h hc₂
      show collect _ s₁.denseToEntity = _
      rw [← h₁.entities]
      apply collect_eq
      intro e _
      rw [get_eq h₁, get_eq h₂]
      cases T.value t₁ e <;> cases T.value t₂ e <;> rfl

/-- The references that the query for `(&T1, &mut T2)` yields. -/
def joinRefs (w : World C) (T : Table C) (t₁ t₂ : ι) (l : List Entity) : List (Entity × C t₁ × Nat) :=
  l.filterMap fun e => (T.value t₁ e).bind fun c₁ => ((w.storage t₂).sparse e).map fun row => (e, c₁, row)

/-- **The query for `(&T1, &mut T2)` yields the rows of a join.** -/
theorem queryRefMut_eq (h : Refines w n T) (t₁ t₂ : ι) :
    w.queryRefMut t₁ t₂ = some (joinRefs w T t₁ t₂ (T.order t₁)) := by
  unfold World.queryRefMut joinRefs
  cases hc₁ : w.components t₁ with
  | none =>
    rw [order_of_none h hc₁]
    rfl
  | some s₁ =>
    have h₁ := holds_of_some h hc₁
    cases hc₂ : w.components t₂ with
    | none => simp [World.storage, hc₂, SparseSet.new]
    | some s₂ =>
      have h₂ := holds_of_some h hc₂
      rw [storage_of_some hc₂]
      show collect _ s₁.denseToEntity = _
      rw [← h₁.entities]
      apply collect_eq
      intro e _
      rw [get_eq h₁, getMut_eq h₂]
      cases T.value t₁ e <;> cases s₂.sparse e <;> rfl

/-- **The query for `&T` yields every entity that has the component.** -/
theorem queryRef_eq (h : Refines w n T) (t : ι) : w.queryRef t = some (T.items t) := by
  unfold World.queryRef Table.items
  cases hc : w.components t with
  | none =>
    rw [order_of_none h hc]
    rfl
  | some s =>
    have h₁ := holds_of_some h hc
    show collect _ s.denseToEntity = _
    rw [← h₁.entities]
    apply collect_eq
    intro e _
    rw [get_eq h₁]
    rfl

/-- **The query for `&mut T` yields the row of every entity that has the component.** -/
theorem queryMut_eq (h : Refines w n T) (t : ι) : w.queryMut t = some (T.order t).zipIdx := by
  unfold World.queryMut
  cases hc : w.components t with
  | none =>
    rw [order_of_none h hc]
    rfl
  | some s =>
    have h₁ := holds_of_some h hc
    have hloop : collect (fun i => do
        let entity ← s.denseToEntity[i]?
        return (← s.getMut entity).map fun c => (entity, c)) (List.range s.denseToEntity.length) =
        some ((List.range s.denseToEntity.length).filterMap fun i =>
          (T.order t)[i]?.map fun e => (e, i)) := by
      apply collect_eq
      intro i hi
      rw [List.mem_range, h₁.entities] at hi
      have hsome := List.getElem?_eq_getElem hi
      rw [h₁.entities, hsome]
      show (s.getMut (T.order t)[i] >>= fun c => some (c.map fun c => ((T.order t)[i], c))) = _
      rw [getMut_eq h₁, (h₁.sparse _ i).mpr hsome]
      rfl
    show collect _ _ = _
    rw [hloop, h₁.entities]
    exact congrArg some (filterMap_range_getElem? (T.order t))

theorem map_joinRefs (h : Refines w n T) (t₁ t₂ : ι) :
    (joinRefs w T t₁ t₂ (T.order t₁)).map (fun i => (i.1, i.2.1, w.deref t₂ i.2.2)) =
      (T.joinItems t₁ t₂).map fun i => (i.1, i.2.1, some i.2.2) := by
  unfold joinRefs Table.joinItems
  rw [List.map_filterMap, List.map_filterMap]
  apply List.filterMap_congr
  intro e _
  have hsome := row_isSome h t₂ e
  cases hrow : (w.storage t₂).sparse e with
  | none =>
    rw [hrow] at hsome
    have hnone : T.value t₂ e = none := Option.not_isSome_iff_eq_none.mp (by rw [← hsome]; decide)
    rw [hnone]
    cases T.value t₁ e <;> rfl
  | some row =>
    have hvalue := deref_row h hrow
    rw [hrow] at hsome
    obtain ⟨c, hc⟩ := Option.isSome_iff_exists.mp hsome.symm
    rw [hc] at hvalue ⊢
    cases T.value t₁ e with
    | none => rfl
    | some c₁ => simp [hvalue]

theorem map_zipIdx (h : Refines w n T) (t : ι) :
    ((T.order t).zipIdx.map fun i => (i.1, w.deref t i.2)) = (T.items t).map fun i => (i.1, some i.2) := by
  have hfst : T.items t = ((T.order t).zipIdx.map (·.1)).filterMap fun e =>
      (T.value t e).map fun c => (e, c) := by rw [List.zipIdx_map_fst]; rfl
  rw [hfst, List.filterMap_map, List.map_filterMap, ← List.filterMap_eq_map]
  apply List.filterMap_congr
  rintro ⟨e, i⟩ hi
  have hrow := List.mem_zipIdx_iff_getElem?.mp hi
  obtain ⟨c, hc⟩ := Option.isSome_iff_exists.mp (((h.holds t).isSome e).mpr (List.mem_of_getElem? hrow))
  have hvalue := deref_row h (((h.holds t).sparse e i).mpr hrow)
  simp [hc, hvalue]

theorem map_joinItems (h : Refines w n T) (t₁ t₂ : ι) : (T.joinItems t₁ t₂).map (·.1) = T.join t₁ t₂ := by
  unfold Table.joinItems Table.join
  rw [List.map_filterMap, ← List.filterMap_eq_filter]
  apply List.filterMap_congr
  intro e he
  obtain ⟨c₁, hc₁⟩ := Option.isSome_iff_exists.mp (((h.holds t₁).isSome e).mpr he)
  rw [hc₁]
  cases hc₂ : T.value t₂ e with
  | none => simp [Option.guard, hc₂]
  | some c₂ => simp [Option.guard, hc₂]

theorem map_items (h : Refines w n T) (t : ι) : (T.items t).map (·.1) = T.order t := by
  unfold Table.items
  rw [List.map_filterMap]
  conv_rhs => rw [← List.filterMap_some (l := T.order t)]
  apply List.filterMap_congr
  intro e he
  obtain ⟨c, hc⟩ := Option.isSome_iff_exists.mp (((h.holds t).isSome e).mpr he)
  rw [hc]
  rfl

theorem nodup_join (h : Refines w n T) (t₁ t₂ : ι) : (T.join t₁ t₂).Nodup :=
  (h.holds t₁).nodup.filter _

theorem mem_join (h : Refines w n T) (t₁ t₂ : ι) (e : Entity) :
    e ∈ T.join t₁ t₂ ↔ (T.value t₁ e).isSome ∧ (T.value t₂ e).isSome := by
  rw [Table.join, List.mem_filter, (h.holds t₁).isSome]

theorem joinRefs_rows (h : Refines w n T) (t₁ t₂ : ι) {l : List Entity} (hl : ∀ e ∈ l, e ∈ T.order t₁) :
    List.Forall₂ (fun row e => (T.order t₂)[row]? = some e) ((joinRefs w T t₁ t₂ l).map (·.2.2))
      (l.filter fun e => (T.value t₂ e).isSome) := by
  induction l with
  | nil => exact .nil
  | cons e l ih =>
    have ih := ih fun e' he' => hl e' (List.mem_cons_of_mem _ he')
    obtain ⟨c₁, hc₁⟩ := Option.isSome_iff_exists.mp (((h.holds t₁).isSome e).mpr (hl e List.mem_cons_self))
    have hsome := row_isSome h t₂ e
    unfold joinRefs at ih ⊢
    cases hrow : (w.storage t₂).sparse e with
    | none =>
      rw [hrow] at hsome
      rw [List.filter_cons_of_neg (by rw [← hsome]; decide),
        List.filterMap_cons_none (by rw [hc₁, hrow]; rfl)]
      exact ih
    | some row =>
      rw [hrow] at hsome
      rw [List.filter_cons_of_pos (p := fun e => (T.value t₂ e).isSome) hsome.symm,
        List.filterMap_cons_some (b := (e, c₁, row)) (by rw [hc₁, hrow]; rfl)]
      exact .cons (((h.holds t₂).sparse e row).mp hrow) ih

end Queries

/-! ### Calls -/

/-- The writes through references to the components of `entities`, each given by the number of its item. -/
def refWrites {t : ι} (entities : List Entity) (writes : List (Nat × C t)) : List (Write C) :=
  writes.filterMap fun x => entities[x.1]?.map fun e => ⟨t, e, x.2⟩

/-- The writes that a call makes, after `n` calls of `spawn`. -/
def Call.writes (T : Table C) (n : Nat) : Call C → List (Write C)
  | .spawn components => bundleWrites ⟨UInt32.ofNat n⟩ components
  | .insert t e v => [⟨t, e, v⟩]
  | .writeMut t e v => if (T.value t e).isSome then [⟨t, e, v⟩] else []
  | .writeQuery t writes => refWrites (T.order t) writes
  | .writeJoin t₁ t₂ _ writes => refWrites (T.join t₁ t₂) writes

def Call.spawns : Call C → Nat
  | .spawn _ => 1
  | _ => 0

section Calls

variable [DecidableEq ι] {w : World C} {n : Nat} {T : Table C}

theorem storeAll_refines (h : Refines w n T) {t : ι} {rows : List Nat} {entities : List Entity}
    (hrows : List.Forall₂ (fun row e => (T.order t)[row]? = some e) rows entities)
    (writes : List (Nat × C t)) :
    Refines (storeAll rows w writes) n (T.after (refWrites entities writes)) := by
  induction writes generalizing w T with
  | nil => exact h
  | cons x writes ih =>
    obtain ⟨hlength, hget⟩ := List.forall₂_iff_get.mp hrows
    unfold storeAll refWrites
    rw [List.foldl_cons]
    by_cases hx : x.1 < rows.length
    · have hx' : x.1 < entities.length := hlength ▸ hx
      obtain ⟨hstore, horder⟩ := store_refines (e := entities[x.1]) h (hget x.1 hx hx') x.2
      rw [List.filterMap_cons_some (b := ⟨t, entities[x.1], x.2⟩) (by rw [List.getElem?_eq_getElem hx']; rfl),
        List.getElem?_eq_getElem hx, Table.after_cons]
      exact ih hstore (by rw [horder]; exact hrows)
    · rw [List.filterMap_cons_none (by rw [List.getElem?_eq_none (by omega)]; rfl),
        List.getElem?_eq_none (by omega)]
      exact ih h hrows

/-- **A call does to the world what its writes do to the table.** -/
theorem call_refines (h : Refines w n T) (c : Call C) :
    ∃ w', c.exec w = some w' ∧ Refines w' (n + c.spawns) (T.after (c.writes T n)) := by
  cases c with
  | spawn components =>
    obtain ⟨w', hspawn, h'⟩ := spawn_refines h components
    exact ⟨w', by rw [Call.exec, hspawn]; rfl, h'⟩
  | insert t e v =>
    obtain ⟨w', hinsert, h'⟩ := insert_refines h t e v
    exact ⟨w', hinsert, h'⟩
  | writeMut t e v =>
    have hsome := row_isSome h t e
    cases hrow : (w.storage t).sparse e with
    | none =>
      rw [hrow] at hsome
      refine ⟨w, by rw [Call.exec, world_getMut_eq h, hrow]; rfl, ?_⟩
      rw [Call.writes, if_neg (by rw [← hsome]; decide)]
      exact h
    | some row =>
      rw [hrow] at hsome
      refine ⟨w.store t row v, by rw [Call.exec, world_getMut_eq h, hrow]; rfl, ?_⟩
      rw [Call.writes, if_pos (by rw [← hsome]; rfl)]
      exact (store_refines h (((h.holds t).sparse e row).mp hrow) v).1
  | writeQuery t writes =>
    refine ⟨storeAll ((T.order t).zipIdx.map (·.2)) w writes, ?_, storeAll_refines h ?_ writes⟩
    · rw [Call.exec, queryMut_eq h]
      rfl
    · conv_rhs => rw [← List.zipIdx_map_fst 0 (T.order t)]
      rw [List.forall₂_map_left_iff, List.forall₂_map_right_iff, List.forall₂_same]
      exact fun i hi => List.mem_zipIdx_iff_getElem?.mp hi
  | writeJoin t₁ t₂ hne writes =>
    refine ⟨storeAll ((joinRefs w T t₁ t₂ (T.order t₁)).map (·.2.2)) w writes, ?_,
      storeAll_refines h (joinRefs_rows h t₁ t₂ fun _ he => he) writes⟩
    rw [Call.exec, queryRefMut_eq h]
    rfl

end Calls

/-! ### Programs -/

/-- The writes made so far, and the number of calls of `spawn`. -/
structure History (C : ι → Type) where
  writes : List (Write C)
  spawns : Nat

/-- The calls that a step of a program makes, in the order in which they take effect: the commands that
systems push come after all calls of the systems. -/
def Op.calls : Op C → List (Call C)
  | .call c => [c]
  | .apply queue => queue.flatten
  | .schedule systems =>
    (systems.flatten.filterMap fun
      | .call c => some c
      | .push _ => none) ++
    (systems.flatten.filterMap fun
      | .call _ => none
      | .push command => some command).flatten

section Programs

variable [DecidableEq ι] {w : World C} {n : Nat} {T : Table C}

def History.table (h : History C) : Table C := Table.empty.after h.writes

/-- A call adds its writes. -/
def History.step (h : History C) (c : Call C) : History C :=
  ⟨h.writes ++ c.writes h.table h.spawns, h.spawns + c.spawns⟩

/-- What a program writes. -/
def history (ops : List (Op C)) : History C :=
  (ops.flatMap Op.calls).foldl History.step ⟨[], 0⟩

theorem History.table_step (h : History C) (c : Call C) :
    (h.step c).table = h.table.after (c.writes h.table h.spawns) :=
  Table.after_append ..

theorem calls_refine {h : History C} (hw : Refines w h.spawns h.table) (calls : List (Call C)) :
    ∃ w', calls.foldlM Call.exec w = some w' ∧
      Refines w' (calls.foldl History.step h).spawns (calls.foldl History.step h).table := by
  induction calls generalizing w h with
  | nil => exact ⟨w, rfl, hw⟩
  | cons c calls ih =>
    obtain ⟨w₁, hexec, h₁⟩ := call_refines hw c
    rw [← History.table_step] at h₁
    obtain ⟨w', hrest, h'⟩ := ih (h := h.step c) h₁
    exact ⟨w', by rw [List.foldlM_cons, hexec]; exact hrest, h'⟩

theorem foldlM_flatten {σ α : Type} (f : σ → α → Option σ) (ls : List (List α)) (s : σ) :
    ls.foldlM (fun s l => l.foldlM f s) s = ls.flatten.foldlM f s := by
  induction ls generalizing s with
  | nil => rfl
  | cons l ls ih =>
    rw [List.flatten_cons, List.foldlM_append, List.foldlM_cons]
    exact bind_congr ih

theorem applyCommands_eq (queue : List (Command C)) (w : World C) :
    applyCommands queue w = queue.flatten.foldlM Call.exec w :=
  foldlM_flatten Call.exec queue w

theorem steps_eq (steps : List (Step C)) (w : World C) (queue : List (Command C)) :
    steps.foldlM Step.exec (w, queue) =
      ((steps.filterMap fun | .call c => some c | .push _ => none).foldlM Call.exec w).map fun w =>
        (w, queue ++ steps.filterMap fun | .call _ => none | .push command => some command) := by
  induction steps generalizing w queue with
  | nil => simp
  | cons step steps ih =>
    cases step with
    | call c =>
      simp only [List.foldlM_cons, List.filterMap_cons]
      cases hexec : c.exec w with
      | none => simp [Step.exec, hexec]
      | some w₁ =>
        simp only [Step.exec, hexec]
        exact ih w₁ queue
    | push command =>
      simp only [List.foldlM_cons, List.filterMap_cons]
      rw [show (queue ++ command :: _ : List (Command C)) = queue ++ [command] ++ _ from List.append_cons ..]
      exact ih w (queue ++ [command])

/-- **A step of a program is its calls.** -/
theorem op_exec_eq (op : Op C) (w : World C) : op.exec w = op.calls.foldlM Call.exec w := by
  cases op with
  | call c => simp [Op.exec, Op.calls]
  | apply queue => exact applyCommands_eq queue w
  | schedule systems =>
    rw [Op.exec, runSchedule, Op.calls, foldlM_flatten, steps_eq, List.foldlM_append]
    cases (systems.flatten.filterMap _).foldlM Call.exec w with
    | none => rfl
    | some w₁ => exact applyCommands_eq _ w₁

/-- **A program does to the world what its writes do to the table.** -/
theorem run_refines (ops : List (Op C)) :
    ∃ w, ops.foldlM Op.exec World.new = some w ∧ Refines w (history ops).spawns (history ops).table := by
  have hcalls : ops.foldlM Op.exec (World.new : World C) =
      (ops.flatMap Op.calls).foldlM Call.exec World.new := by
    rw [List.flatMap_def, ← foldlM_flatten, List.foldlM_map]
    congr 1
    funext w op
    exact op_exec_eq op w
  rw [hcalls]
  exact calls_refine (h := ⟨[], 0⟩) refines_new _

end Programs

/-! ### Events -/

/-- What happens to the events. -/
inductive Act (ρ α : Type) where
  | send (event : α)
  | iter (reader : ρ)

/-- The events, the readers, and what each of them has seen. -/
structure Bus (ρ α : Type) where
  events : Events α
  readers : ρ → EventReader
  seen : ρ → List α

section Events

variable {ρ α : Type} [DecidableEq ρ]

def Bus.new : Bus ρ α := ⟨.new, fun _ => .new, fun _ => []⟩

def Bus.exec (b : Bus ρ α) : Act ρ α → Option (Bus ρ α)
  | .send event => some { b with events := b.events.send event }
  | .iter r => do
    let (yielded, reader) ← (b.readers r).iter b.events
    return { b with
      readers := Function.update b.readers r reader
      seen := Function.update b.seen r (b.seen r ++ yielded) }

/-- What an action adds to the events sent, and to those that each reader has been given: an `iter` brings its
reader up to date. -/
def deliver (d : List α × (ρ → List α)) : Act ρ α → List α × (ρ → List α)
  | .send event => (d.1 ++ [event], d.2)
  | .iter r => (d.1, Function.update d.2 r d.1)

/-- The events sent, and for each reader those sent before its last `iter`. -/
def delivery (acts : List (Act ρ α)) : List α × (ρ → List α) :=
  acts.foldl deliver ([], fun _ => [])

/-- The readers have seen what they were given, which are the events up to their count. -/
structure Bus.Delivers (b : Bus ρ α) (d : List α × (ρ → List α)) : Prop where
  sent : b.events.events = d.1
  seen : ∀ r, b.seen r = d.2 r
  count : ∀ r, (b.readers r).lastEventCount = (d.2 r).length
  isPrefix : ∀ r, d.2 r <+: d.1

/-- **An `iter` yields what is new to its reader.** -/
theorem exec_delivers {b : Bus ρ α} {d : List α × (ρ → List α)} (h : b.Delivers d) (act : Act ρ α) :
    ∃ b', b.exec act = some b' ∧ b'.Delivers (deliver d act) := by
  cases act with
  | send event =>
    refine ⟨_, rfl, ?_, h.seen, h.count, fun r => (h.isPrefix r).trans (List.prefix_append _ _)⟩
    show b.events.events ++ [event] = _
    rw [h.sent]
    rfl
  | iter r =>
    obtain ⟨rest, hrest⟩ := h.isPrefix r
    have hlength : (d.2 r).length ≤ d.1.length := (h.isPrefix r).length_le
    have hiter : (b.readers r).iter b.events = some (rest, ⟨d.1.length⟩) := by
      unfold EventReader.iter
      rw [h.sent, h.count, if_pos hlength]
      congr 2
      rw [← hrest, List.drop_left]
    refine ⟨⟨b.events, Function.update b.readers r ⟨d.1.length⟩, Function.update b.seen r (b.seen r ++ rest)⟩,
      by rw [Bus.exec, hiter]; rfl, h.sent, fun r' => ?_, fun r' => ?_, fun r' => ?_⟩
    all_goals
      unfold deliver
      dsimp only
      by_cases hr : r' = r
    · rw [hr, Function.update_self, Function.update_self, h.seen, hrest]
    · rw [Function.update_of_ne hr, Function.update_of_ne hr, h.seen]
    · rw [hr, Function.update_self, Function.update_self]
    · rw [Function.update_of_ne hr, Function.update_of_ne hr, h.count]
    · rw [hr, Function.update_self]
    · rw [Function.update_of_ne hr]
      exact h.isPrefix r'

/-- **Every reader sees the events sent before its last `iter`, each once and in order.** -/
theorem bus_delivers (acts : List (Act ρ α)) :
    ∃ b, acts.foldlM Bus.exec Bus.new = some b ∧ ∀ r, b.seen r = (delivery acts).2 r := by
  have hrun : ∀ (b : Bus ρ α) d, b.Delivers d →
      ∃ b', acts.foldlM Bus.exec b = some b' ∧ b'.Delivers (acts.foldl deliver d) := by
    induction acts with
    | nil => exact fun b d h => ⟨b, rfl, h⟩
    | cons act acts ih =>
      intro b d h
      obtain ⟨b₁, hexec, h₁⟩ := exec_delivers h act
      obtain ⟨b', hrest, h'⟩ := ih b₁ _ h₁
      exact ⟨b', by rw [List.foldlM_cons, hexec]; exact hrest, h'⟩
  obtain ⟨b, hb, h⟩ := hrun Bus.new ([], fun _ => [])
    ⟨rfl, fun _ => rfl, fun _ => rfl, fun _ => List.prefix_refl _⟩
  exact ⟨b, hb, h.seen⟩

end Events

/-! ### Everything together -/

/-- **Queries are joins.**  After every program the world holds the table of the writes made so far: `get` and
`get_mut` give the last value written, and each query yields the entities that have its components, each once
and in the order in which they got the first one, with their present values.  A write changes one value and no
other component; what the writes of a call are, and to which entities the items of a mutable query belong, is
`Call.writes`.  A further `spawn` returns a new handle.  Nothing panics.  And in every interleaving of sends
and `iter`s each reader sees the events sent before its last `iter`, each once and in order. -/
theorem queries_join [DecidableEq ι] {ρ α : Type} [DecidableEq ρ] (ops : List (Op C))
    (hspawns : (history ops).spawns < 2 ^ 32) (acts : List (Act ρ α)) :
    (∃ w, ops.foldlM Op.exec World.new = some w ∧
      (∀ t e, w.get t e = some ((history ops).table.value t e) ∧
        ∃ r, w.getMut t e = some r ∧ r.bind (w.deref t) = (history ops).table.value t e) ∧
      (∀ t₁ t₂, t₁ ≠ t₂ →
        w.queryRefRef t₁ t₂ = some ((history ops).table.joinItems t₁ t₂) ∧
        (∃ items, w.queryRefMut t₁ t₂ = some items ∧
          items.map (fun i => (i.1, i.2.1, w.deref t₂ i.2.2)) =
            ((history ops).table.joinItems t₁ t₂).map fun i => (i.1, i.2.1, some i.2.2)) ∧
        ((history ops).table.joinItems t₁ t₂).map (·.1) = (history ops).table.join t₁ t₂ ∧
        ((history ops).table.join t₁ t₂).Nodup ∧
        ∀ e, e ∈ (history ops).table.join t₁ t₂ ↔
          ((history ops).table.value t₁ e).isSome ∧ ((history ops).table.value t₂ e).isSome) ∧
      (∀ t, w.queryRef t = some ((history ops).table.items t) ∧
        (∃ items, w.queryMut t = some items ∧
          items.map (fun i => (i.1, w.deref t i.2)) =
            ((history ops).table.items t).map fun i => (i.1, some i.2)) ∧
        ((history ops).table.items t).map (·.1) = (history ops).table.order t ∧
        ((history ops).table.order t).Nodup ∧
        ∀ e, e ∈ (history ops).table.order t ↔ ((history ops).table.value t e).isSome) ∧
      ∀ bundle, ∃ e w', w.spawn bundle = some (e, w') ∧
        ∀ i < (history ops).spawns, e ≠ ⟨UInt32.ofNat i⟩) ∧
    (∀ (T : Table C) (t : ι) (e : Entity) (v : C t), (T.write ⟨t, e, v⟩).value t e = some v ∧
      (∀ e', e' ≠ e → (T.write ⟨t, e, v⟩).value t e' = T.value t e') ∧
      ((T.write ⟨t, e, v⟩).order t = if (T.value t e).isSome then T.order t else T.order t ++ [e]) ∧
      ∀ t', t' ≠ t → (T.write ⟨t, e, v⟩).value t' = T.value t' ∧ (T.write ⟨t, e, v⟩).order t' = T.order t') ∧
    ∃ b : Bus ρ α, acts.foldlM Bus.exec Bus.new = some b ∧ ∀ r, b.seen r = (delivery acts).2 r := by
  obtain ⟨w, hrun, h⟩ := run_refines ops
  refine ⟨⟨w, hrun, fun t e => ⟨world_get_eq h t e, _, world_getMut_eq h t e, ?_⟩, fun t₁ t₂ _ =>
    ⟨queryRefRef_eq h t₁ t₂, ⟨_, queryRefMut_eq h t₁ t₂, map_joinRefs h t₁ t₂⟩, map_joinItems h t₁ t₂,
      nodup_join h t₁ t₂, mem_join h t₁ t₂⟩, fun t => ⟨queryRef_eq h t, ⟨_, queryMut_eq h t, map_zipIdx h t⟩,
      map_items h t, (h.holds t).nodup, fun e => ((h.holds t).isSome e).symm⟩, fun bundle => ?_⟩,
    fun T t e v => ⟨T.value_write_self, fun _ => T.value_write_of_ne_entity, T.order_write_type,
      fun _ ht => ⟨T.value_write_of_ne_type ht, T.order_write_of_ne_type ht⟩⟩, bus_delivers acts⟩
  · cases hrow : (w.storage t).sparse e with
    | none => rw [(h.holds t).value_none ((h.holds t).sparse_none.mp hrow), Option.bind_none]
    | some row => exact deref_row h hrow
  · obtain ⟨w', hspawn, -⟩ := spawn_refines h bundle
    refine ⟨_, w', hspawn, fun i hi heq => ?_⟩
    have hval := congrArg (fun e : Entity => e.val.toNat) heq
    simp only [UInt32.toNat_ofNat'] at hval
    omega

/-- An entity with two components is spawned, and the second one is written through a query. -/
def pairOps : List (Op fun _ : Bool => Nat) :=
  [.call (.spawn [⟨true, 1⟩, ⟨false, 2⟩]), .call (.writeJoin true false (by decide) [(0, 5)])]

theorem queries_join_pair : ∃ w, pairOps.foldlM Op.exec World.new = some w ∧
    w.queryRefRef true false = some ((history pairOps).table.joinItems true false) := by
  obtain ⟨⟨w, hrun, -, hjoin, -⟩, -⟩ := queries_join pairOps (by decide) [Act.send 7, Act.iter ()]
  exact ⟨w, hrun, (hjoin true false (by decide)).1⟩

example : (history pairOps).table.joinItems true false = [(⟨0⟩, 1, 5)] := by decide

end Keuos.LatticeEcs
