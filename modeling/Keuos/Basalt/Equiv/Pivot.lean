import Keuos.Basalt.Sort
import Keuos.Lib.RangePerm

/-!
# An iteration of quicksort

The selection of the pivot and the partition rearrange a range and access nothing else (`Rearranges`).  The
loop of the partition keeps two zones, of the elements that are at most the pivot and of those that are above
it.

## Main results

* `placePivot_spec`: the pivot is in its place, with no element above it before and none below it behind.
* `placePivot_agrees`: an iteration depends on the range only.
-/

namespace Keuos.Basalt

open Traced

/-! ### Accesses -/

section Accesses

variable (P : Access → Prop) (i v : Int) (x : Int64) (s : Store)

@[simp] theorem val_readArr : (readArr i).val s = s.arr i := rfl
@[simp] theorem next_readArr : (readArr i).next s = s := rfl
@[simp] theorem val_readSlot : (readSlot i).val s = s.stack i := rfl
@[simp] theorem next_readSlot : (readSlot i).next s = s := rfl

@[simp] theorem next_writeArr : (writeArr i x).next s = { s with arr := Function.update s.arr i x } := rfl
@[simp] theorem next_writeSlot : (writeSlot i v).next s =
  { s with stack := Function.update s.stack i v } := rfl

@[simp] theorem all_readArr : All P (readArr i) s ↔ P (.array i) := by simp [readArr]
@[simp] theorem all_writeArr : All P (writeArr i x) s ↔ P (.array i) := by simp [writeArr]
@[simp] theorem all_readSlot : All P (readSlot i) s ↔ P (.slot i) := by simp [readSlot]
@[simp] theorem all_writeSlot : All P (writeSlot i v) s ↔ P (.slot i) := by simp [writeSlot]

end Accesses

/-- The access is to an element of the range. -/
def InRange (low high : Int) : Access → Prop
  | .array i => low ≤ i ∧ i ≤ high
  | .slot _ => False

/-- From the state `s`, the program rearranges the range, and accesses nothing else. -/
structure Rearranges {α : Type} (low high : Int) (x : Sorter α) (s : Store) : Prop where
  stack : (x.next s).stack = s.stack
  perm : PermOn low high s.arr (x.next s).arr
  inside : All (InRange low high) x s

section Rearranges

variable {α β : Type} {low high : Int} {s : Store}

theorem Rearranges.bind {x : Sorter α} {f : α → Sorter β} (hx : Rearranges low high x s)
    (hf : Rearranges low high (f (x.val s)) (x.next s)) : Rearranges low high (x >>= f) s where
  stack := hf.stack.trans hx.stack
  perm := hx.perm.trans hf.perm
  inside := by
    rw [all_bind]
    exact ⟨hx.inside, hf.inside⟩

theorem Rearranges.pure (a : α) : Rearranges low high (Pure.pure a : Sorter α) s where
  stack := rfl
  perm := .refl low high s.arr
  inside := by simp

theorem Rearranges.readArr {i : Int} (hin : low ≤ i ∧ i ≤ high) : Rearranges low high (readArr i) s where
  stack := rfl
  perm := .refl low high s.arr
  inside := by simpa [InRange] using hin

theorem Rearranges.swap {i j : Int} (hin : low ≤ i ∧ i ≤ high) (hjn : low ≤ j ∧ j ≤ high) :
    Rearranges low high (do writeArr j (s.arr i); writeArr i (s.arr j)) s where
  stack := rfl
  perm := .swap hin hjn
  inside := by simpa [InRange] using ⟨hjn, hin⟩

theorem Rearranges.swap_bind {i j : Int} {x : Sorter α} (hin : low ≤ i ∧ i ≤ high) (hjn : low ≤ j ∧ j ≤ high)
    (hx : Rearranges low high x
      { s with arr := Function.update (Function.update s.arr j (s.arr i)) i (s.arr j) }) :
    Rearranges low high (do writeArr j (s.arr i); writeArr i (s.arr j); x) s where
  stack := hx.stack
  perm := (PermOn.swap hin hjn).trans hx.perm
  inside := by
    rw [all_bind, all_bind]
    exact ⟨by simpa [InRange] using hjn, by simpa [InRange] using hin, hx.inside⟩

theorem Rearranges.ite {c : Prop} [Decidable c] {x y : Sorter α} (hx : c → Rearranges low high x s)
    (hy : ¬c → Rearranges low high y s) : Rearranges low high (if c then x else y) s := by
  by_cases hc : c
  · rw [if_pos hc]
    exact hx hc
  · rw [if_neg hc]
    exact hy hc

end Rearranges

/-! ### Placing a pivot -/

section Pivot

variable {low high : Int} {s : Store}

theorem medianToHigh_rearranges (hlt : low < high)
    (s : Store) : Rearranges low high (medianToHigh low high) s := by
  have hlow : low ≤ low ∧ low ≤ high := by omega
  have hmid : low ≤ low + (high - low) / 2 ∧ low + (high - low) / 2 ≤ high := by omega
  have hhigh : low ≤ high ∧ high ≤ high := by omega
  unfold medianToHigh
  refine .bind (.readArr hlow) (.bind (.readArr hmid) (.bind (.readArr hhigh) ?_))
  refine .ite (fun _ => ?_) fun _ => .ite (fun _ => ?_) fun _ => ?_
  · exact .swap hhigh hmid
  · exact .swap hhigh hlow
  · exact .pure ()

/-- The zones of the partition: up to `i` the elements are at most the pivot, and from there up to `j` they
are above it. -/
structure Zones (pivot : Int64) (low i j : Int) (a : Int → Int64) : Prop where
  below : ∀ k, low ≤ k → k ≤ i → a k ≤ pivot
  above : ∀ k, i < k → k < j → ¬ a k ≤ pivot

theorem Zones.swap {pivot : Int64} {i j : Int} {a : Int → Int64} (h : Zones pivot low i j a) (hij : i < j)
    (hj : a j ≤ pivot) :
    Zones pivot low (i + 1) (j + 1) (Function.update (Function.update a (i + 1) (a j)) j (a (i + 1))) := by
  constructor
  · intro k hk hki
    have hbelow := h.below k hk
    have habove := h.above (i + 1)
    by_cases hkj : k = j
    · have hnext : i + 1 = j := by omega
      subst hkj
      rw [Function.update_self, hnext]
      exact hj
    · rw [Function.update_of_ne hkj]
      by_cases hk' : k = i + 1
      · rw [hk', Function.update_self]
        exact hj
      · rw [Function.update_of_ne hk']
        exact hbelow (by omega)
  · intro k hik hkj
    by_cases hkj' : k = j
    · have habove := h.above (i + 1) (by omega) (by omega)
      subst hkj'
      rwa [Function.update_self]
    · have hne : k ≠ i + 1 := by omega
      rw [Function.update_of_ne hkj', Function.update_of_ne hne]
      exact h.above k (by omega) (by omega)

/-- The state after the exchange of a round. -/
def exchanged (i j : Int) (s : Store) : Store :=
  { s with arr := Function.update (Function.update s.arr (i + 1) (s.arr j)) j (s.arr (i + 1)) }

theorem partitionLoop_of_le {pivot : Int64} {i j : Int} (hle : s.arr j ≤ pivot) (n : Nat) :
    (partitionLoop pivot (n + 1) i j).val s = (partitionLoop pivot n (i + 1) (j + 1)).val (exchanged i j s) ∧
      (partitionLoop pivot (n + 1) i j).next s =
        (partitionLoop pivot n (i + 1) (j + 1)).next (exchanged i j s) := by
  rw [partitionLoop, val_bind, next_bind, val_readArr, next_readArr, val_ite, next_ite,
    if_pos hle, if_pos hle]
  exact ⟨rfl, rfl⟩

theorem partitionLoop_of_not_le {pivot : Int64} {i j : Int} (hle : ¬ s.arr j ≤ pivot) (n : Nat) :
    (partitionLoop pivot (n + 1) i j).val s = (partitionLoop pivot n i (j + 1)).val s ∧
      (partitionLoop pivot (n + 1) i j).next s = (partitionLoop pivot n i (j + 1)).next s := by
  rw [partitionLoop, val_bind, next_bind, val_readArr, next_readArr, val_ite, next_ite,
    if_neg hle, if_neg hle]
  exact ⟨rfl, rfl⟩

/-- **The loop of the partition** moves the elements that are at most the pivot to the front. -/
theorem partitionLoop_spec (pivot : Int64) (n : Nat) {i j : Int} {s : Store}
    (hlow : low - 1 ≤ i) (hij : i < j)
    (hj : j + n = high) (hzones : Zones pivot low i j s.arr) :
    Rearranges low (high - 1) (partitionLoop pivot n i j) s ∧
      i ≤ (partitionLoop pivot n i j).val s ∧ (partitionLoop pivot n i j).val s < high ∧
      Zones pivot low ((partitionLoop pivot n i j).val s) high ((partitionLoop pivot n i j).next s).arr := by
  induction n generalizing i j s with
  | zero =>
    have heq : j = high := by omega
    subst heq
    exact ⟨.pure i, Int.le_refl i, hij, hzones⟩
  | succ n ih =>
    have hin : low ≤ j ∧ j ≤ high - 1 := by omega
    have hin' : low ≤ i + 1 ∧ i + 1 ≤ high - 1 := by omega
    by_cases hle : s.arr j ≤ pivot
    · obtain ⟨hval, hnext⟩ := partitionLoop_of_le (i := i) hle n
      obtain ⟨hre, hge, hlt, hz⟩ := ih (i := i + 1) (j := j + 1) (s := exchanged i j s) (by omega) (by omega)
        (by omega) (hzones.swap hij hle)
      rw [hval, hnext]
      refine ⟨?_, by omega, hlt, hz⟩
      unfold partitionLoop
      refine .bind (.readArr hin) (.ite (fun _ => ?_) fun h => absurd hle h)
      exact .bind (.readArr hin') (.swap_bind hin hin' hre)
    · obtain ⟨hval, hnext⟩ := partitionLoop_of_not_le (i := i) hle n
      have habove : Zones pivot low i (j + 1) s.arr := by
        refine ⟨hzones.below, fun k hik hkj => ?_⟩
        by_cases hk : k = j
        · rwa [hk]
        · exact hzones.above k hik (by omega)
      obtain ⟨hre, hge, hlt, hz⟩ := ih (i := i) (j := j + 1) (s := s) (by omega) (by omega) (by omega) habove
      rw [hval, hnext]
      refine ⟨?_, hge, hlt, hz⟩
      unfold partitionLoop
      exact .bind (.readArr hin) (.ite (fun h => absurd h hle) fun _ => hre)

/-- What a placed pivot is: no element before it is above it, and none behind it is below it. -/
structure Placed (low high p : Int) (a : Int → Int64) : Prop where
  low_le : low ≤ p
  le_high : p ≤ high
  before : ∀ k, low ≤ k → k < p → a k ≤ a p
  behind : ∀ k, p < k → k ≤ high → a p ≤ a k

theorem partition_spec (hlt : low < high) (s : Store) :
    Rearranges low high (partition low high) s ∧
      Placed low high ((partition low high).val s) ((partition low high).next s).arr := by
  have hhigh : low ≤ high ∧ high ≤ high := by omega
  have hempty : Zones (s.arr high) low (low - 1) low s.arr :=
    ⟨fun k hk hk' => by omega, fun k hk hk' => by omega⟩
  have hrounds : low + ((high - low).toNat : Int) = high := by omega
  obtain ⟨hre, hge, hlast, hzones⟩ := partitionLoop_spec (s.arr high)
      (high - low).toNat (Int.le_refl (low - 1))
    (by omega) hrounds hempty
  have hval : (partition low high).val s =
    (partitionLoop (s.arr high) (high - low).toNat (low - 1) low).val s + 1 := rfl
  have hnext : ((partition low high).next s).arr =
    (let t := (partitionLoop (s.arr high) (high - low).toNat (low - 1) low).next s
      let i := (partitionLoop (s.arr high) (high - low).toNat (low - 1) low).val s
      Function.update (Function.update t.arr (i + 1) (s.arr high)) high (t.arr (i + 1))) := rfl
  -- The pivot is behind the part that the loop rearranges.
  have hpivot := hre.perm.apply_of_outside (i := high) (by omega)
  have hre' : Rearranges low high (partitionLoop (s.arr high) (high - low).toNat (low - 1) low) s :=
    ⟨hre.stack, hre.perm.mono (Int.le_refl low) (by omega), fun e he => by
      have hin := hre.inside e he
      cases e with
      | array k =>
        unfold InRange at hin ⊢
        omega
      | slot k => exact hin⟩
  generalize hi : (partitionLoop (s.arr high) (high - low).toNat (low - 1) low).val s = i at *
  generalize ht : (partitionLoop (s.arr high) (high - low).toNat (low - 1) low).next s = t at *
  have hin : low ≤ i + 1 ∧ i + 1 ≤ high := by omega
  dsimp only at hnext
  constructor
  · unfold partition
    refine .bind (.readArr hhigh) (.bind hre' ?_)
    simp only [val_readArr, next_readArr, hi, ht]
    refine .bind (.readArr hin) ?_
    rw [← hpivot]
    exact .swap_bind hhigh hin (.pure (i + 1))
  · have hbelow := hzones.below
    have habove := hzones.above
    have hself : Function.update (Function.update t.arr (i + 1) (s.arr high)) high (t.arr (i + 1)) (i + 1) =
        s.arr high := by
      by_cases heq : i + 1 = high
      · rw [heq, Function.update_self, hpivot]
      · rw [Function.update_of_ne heq, Function.update_self]
    rw [hval, hnext]
    refine ⟨hin.1, hin.2, fun k hk hki => ?_, fun k hik hk => ?_⟩
    · have hne : k ≠ high := by omega
      have hne' : k ≠ i + 1 := by omega
      rw [hself, Function.update_of_ne hne, Function.update_of_ne hne']
      exact hbelow k hk (by omega)
    · rw [hself]
      by_cases hkh : k = high
      · -- The element that made room for the pivot was above it.
        rw [hkh, Function.update_self]
        exact Int64.le_of_lt (Int64.not_le.mp (habove (i + 1) (by omega) (by omega)))
      · have hne' : k ≠ i + 1 := by omega
        rw [Function.update_of_ne hkh, Function.update_of_ne hne']
        exact Int64.le_of_lt (Int64.not_le.mp (habove k (by omega) (by omega)))

/-- **An iteration** puts a pivot into its place. -/
theorem placePivot_spec (hlt : low < high) (s : Store) :
    Rearranges low high (placePivot low high) s ∧
      Placed low high ((placePivot low high).val s) ((placePivot low high).next s).arr := by
  have hmedian := medianToHigh_rearranges hlt s
  obtain ⟨hre, hplaced⟩ := partition_spec hlt ((medianToHigh low high).next s)
  exact ⟨hmedian.bind hre, hplaced⟩

end Pivot

/-! ### Arrays with the same range -/

/-- The arrays have the same elements in the range. -/
def SameRange (low high : Int) (s t : Store) : Prop := ∀ k, low ≤ k → k ≤ high → s.arr k = t.arr k

section Agrees

variable {low high : Int}

theorem readArr_agrees (i : Int) : Agrees (SameRange low high) (InRange low high) (readArr i) := by
  intro s t hst hall
  rw [all_readArr] at hall
  exact ⟨hst i hall.1 hall.2, hst⟩

theorem writeArr_agrees (i : Int) (v : Int64) :
    Agrees (SameRange low high) (InRange low high) (writeArr i v) := by
  intro s t hst _
  refine ⟨rfl, ?_⟩
  intro k hk hk'
  simp only [next_writeArr, Function.update_apply, hst k hk hk']

theorem medianToHigh_agrees : Agrees (SameRange low high) (InRange low high) (medianToHigh low high) := by
  unfold medianToHigh
  refine .bind (readArr_agrees _) fun valLow => .bind (readArr_agrees _) fun valMid =>
    .bind (readArr_agrees _) fun valHigh => .ite ?_ (.ite ?_ (.pure ()))
  · exact .bind (writeArr_agrees _ _) fun _ => writeArr_agrees _ _
  · exact .bind (writeArr_agrees _ _) fun _ => writeArr_agrees _ _

theorem partitionLoop_agrees (pivot : Int64) (n : Nat) (i j : Int) :
    Agrees (SameRange low high) (InRange low high) (partitionLoop pivot n i j) := by
  induction n generalizing i j with
  | zero => exact .pure i
  | succ n ih =>
    unfold partitionLoop
    refine .bind (readArr_agrees j) fun vj => .ite ?_ (ih i (j + 1))
    exact .bind (readArr_agrees _) fun vi => .bind (writeArr_agrees _ _) fun _ =>
      .bind (writeArr_agrees _ _) fun _ => ih (i + 1) (j + 1)

theorem partition_agrees : Agrees (SameRange low high) (InRange low high) (partition low high) := by
  unfold partition
  exact .bind (readArr_agrees _) fun pivot => .bind (partitionLoop_agrees _ _ _ _) fun i =>
    .bind (readArr_agrees _) fun vi => .bind (writeArr_agrees _ _) fun _ =>
      .bind (writeArr_agrees _ _) fun _ => .pure _

/-- **An iteration** on arrays with the same range. -/
theorem placePivot_agrees {s t : Store} (hlt : low < high) (hst : SameRange low high s t) :
    (placePivot low high).val s = (placePivot low high).val t ∧
      SameRange low high ((placePivot low high).next s) ((placePivot low high).next t) := by
  have hagrees : Agrees (SameRange low high) (InRange low high) (placePivot low high) :=
    .bind medianToHigh_agrees fun _ => partition_agrees
  exact hagrees s t hst (placePivot_spec hlt s).1.inside

end Agrees

end Keuos.Basalt
