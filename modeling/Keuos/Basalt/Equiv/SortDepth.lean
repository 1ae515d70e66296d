import Keuos.Basalt.Equiv.Sort

/-!
# How deep the work stack of quicksort gets

A range waits on the work stack while the part behind the pivot is sorted, however long that part is.  When
every waiting range has two elements, three more elements of the array cost one more pair of slots.  `killer`
is such an array: the median of its three probes is always the third smallest element.

## Main results

* `pendingPairs_le`: a range never needs more pairs of slots than a third of its length, so up to 193 elements
  fit.
* `killer_pendingPairs`: the bound is attained, for any number of pairs.
* `not_quicksortI64_slots`: 194 elements that do not fit.
-/

namespace Keuos.Basalt

open Traced

/-! ### The bound -/

/-- **A pending range** has two elements at least, and a pivot behind it. -/
theorem pendingPairs_le (n : Nat) (a : Int → Int64) {low high : Int} (hlt : low < high) :
    3 * (pendingPairs n a low high : Int) ≤ high - low + 2 := by
  induction n generalizing a low high with
  | zero =>
    show 3 * ((1 : Nat) : Int) ≤ high - low + 2
    omega
  | succ n ih =>
    have hplaced := (placePivot_spec hlt ⟨a, fun _ => 0⟩).2
    have hge : low ≤ pivotIdx a low high := hplaced.low_le
    have hle : pivotIdx a low high ≤ high := hplaced.le_high
    rw [pendingPairs]
    generalize pivotIdx a low high = p at *
    have hleft := @ih (placed a low high) low (p - 1)
    have hright := @ih (placed a low high) (p + 1) high
    -- The range before the pivot waits, with two elements at least, while the one behind it is sorted.
    by_cases hl : low < p - 1
    · by_cases hr : p + 1 < high
      · have := hleft hl
        have := hright hr
        simp only [hl, hr, if_true]
        omega
      · have := hleft hl
        simp only [hl, hr, if_true, if_false]
        omega
    · by_cases hr : p + 1 < high
      · have := hright hr
        simp only [hl, hr, if_true, if_false]
        omega
      · simp only [hl, hr, if_false]
        omega

theorem pendingPairs_le_of_short (n : Nat) (a : Int → Int64) {low high : Int} (hlt : low < high)
    (hshort : high - low ≤ 192) : pendingPairs n a low high ≤ 64 := by
  have hle := pendingPairs_le n a hlt
  omega

/-! ### Elements that stay where they are -/

section Stay

variable {low high : Int} {s : Store}

theorem next_medianToHigh_of_median (hlow : s.arr low < s.arr high)
    (hmid : s.arr high < s.arr (low + (high - low) / 2)) : (medianToHigh low high).next s = s := by
  have h₁ : ¬ s.arr high ≤ s.arr low := Int64.not_le.mpr hlow
  have h₂ : ¬ s.arr (low + (high - low) / 2) ≤ s.arr high := Int64.not_le.mpr hmid
  have h₃ : ¬ s.arr (low + (high - low) / 2) ≤ s.arr low := fun h =>
    h₂ (Int64.le_trans h (Int64.le_of_lt hlow))
  have hfirst : ¬((s.arr low ≤ s.arr (low + (high - low) / 2) ∧ s.arr (low + (high - low) / 2) ≤ s.arr high) ∨
      (s.arr high ≤ s.arr (low + (high - low) / 2) ∧ s.arr (low + (high - low) / 2) ≤ s.arr low)) := by
    rintro (⟨-, h⟩ | ⟨-, h⟩)
    · exact h₂ h
    · exact h₃ h
  have hsecond : ¬((s.arr (low + (high - low) / 2) ≤ s.arr low ∧ s.arr low ≤ s.arr high) ∨
      (s.arr high ≤ s.arr low ∧ s.arr low ≤ s.arr (low + (high - low) / 2))) := by
    rintro (⟨h, -⟩ | ⟨h, -⟩)
    · exact h₃ h
    · exact h₁ h
  unfold medianToHigh
  rw [next_bind, val_readArr, next_readArr, next_bind, val_readArr, next_readArr, next_bind, val_readArr,
    next_readArr, if_neg hfirst, if_neg hsecond, next_pure]

theorem exchanged_self (i : Int) (s : Store) : exchanged i (i + 1) s = s := by
  unfold exchanged
  rw [Function.update_eq_self, Function.update_eq_self]

theorem partitionLoop_of_above {pivot : Int64} (n : Nat) (i j : Int)
    (h : ∀ k, j ≤ k → k < j + n → pivot < s.arr k) :
    (partitionLoop pivot n i j).val s = i ∧ (partitionLoop pivot n i j).next s = s := by
  induction n generalizing j with
  | zero => exact ⟨rfl, rfl⟩
  | succ n ih =>
    have habove : ¬ s.arr j ≤ pivot := Int64.not_le.mpr (h j (Int.le_refl j) (by omega))
    obtain ⟨hval, hnext⟩ := partitionLoop_of_not_le (i := i) habove n
    rw [hval, hnext]
    exact ih (j + 1) fun k hk hk' => h k (by omega) (by omega)

theorem partitionLoop_of_front {pivot : Int64} (n : Nat) (i : Int) (h : s.arr (i + 1) ≤ pivot) :
    (partitionLoop pivot (n + 1) i (i + 1)).val s = (partitionLoop pivot n (i + 1) (i + 1 + 1)).val s ∧
      (partitionLoop pivot (n + 1) i (i + 1)).next s =
        (partitionLoop pivot n (i + 1) (i + 1 + 1)).next s := by
  have hround := partitionLoop_of_le (i := i) h n
  rwa [exchanged_self] at hround

/-- **The third smallest element as the pivot**, behind the two that are smaller. -/
theorem placePivot_third {m : Nat} (hm : 1 < m) (hhigh : high = low + 2 + m) (hlow : s.arr low < s.arr high)
    (hsecond : s.arr (low + 1) < s.arr high) (hrest : ∀ k, low + 2 ≤ k → k < high → s.arr high < s.arr k) :
    (placePivot low high).val s = low + 2 ∧
      ((placePivot low high).next s).arr =
        Function.update (Function.update s.arr (low + 2) (s.arr high)) high (s.arr (low + 2)) := by
  have hmedian := next_medianToHigh_of_median hlow (hrest (low + (high - low) / 2) (by omega) (by omega))
  have hval : (placePivot low high).val s = (partition low high).val ((medianToHigh low high).next s) := rfl
  have hnext : (placePivot low high).next s =
      (partition low high).next ((medianToHigh low high).next s) := rfl
  rw [hval, hnext, hmedian]
  -- Two rounds exchange an element with itself, and the others do nothing.
  have hrounds : (high - low).toNat = m + 1 + 1 := by omega
  have hstart : low - 1 + 1 = low := by omega
  obtain ⟨hv₁, hn₁⟩ := partitionLoop_of_front (s := s) (m + 1) (low - 1) (by
    rw [hstart]
    exact Int64.le_of_lt hlow)
  rw [hstart] at hv₁ hn₁
  obtain ⟨hv₂, hn₂⟩ := partitionLoop_of_front (s := s) m low (Int64.le_of_lt hsecond)
  obtain ⟨hv₃, hn₃⟩ := partitionLoop_of_above (s := s) m (low + 1) (low + 1 + 1) fun k hk hk' =>
    hrest k (by omega) (by omega)
  have hloop : (partitionLoop (s.arr high) (high - low).toNat (low - 1) low).val s = low + 1 := by
    rw [hrounds, hv₁, hv₂, hv₃]
  have hloop' : (partitionLoop (s.arr high) (high - low).toNat (low - 1) low).next s = s := by
    rw [hrounds, hn₁, hn₂, hn₃]
  unfold partition
  constructor
  · rw [val_bind, val_readArr, next_readArr, val_bind, hloop, hloop']
    show low + 1 + 1 = low + 2
    omega
  · rw [next_bind, val_readArr, next_readArr, next_bind, hloop, hloop']
    have hthird : low + 1 + 1 = low + 2 := by omega
    rw [hthird]
    rfl

end Stay

/-! ### An array that fills the work stack -/

/-- `3 * k + 2` different elements.  Two small elements come first, the third smallest comes last, and between
them are the elements of the array for `k`, rotated by one place. -/
def killer : Nat → Nat → Nat
  | 0, t => t
  | k + 1, t =>
    if t < 2 then t
    else if t = 3 * k + 4 then 2
    else if t = 2 then 3 + killer k (3 * k + 1)
    else 3 + killer k (t - 3)

theorem killer_le (k : Nat) {t : Nat} (ht : t < 3 * k + 2) : killer k t ≤ 3 * k + 1 := by
  induction k generalizing t with
  | zero => exact Nat.le_of_lt_succ ht
  | succ k ih =>
    unfold killer
    have hlast := ih (t := 3 * k + 1) (by omega)
    split_ifs
    · omega
    · omega
    · omega
    · have := ih (t := t - 3) (by omega)
      omega

section Killer

variable {k : Nat} {low c : Int} {a : Int → Int64}

/-- The range holds the array for `k`, with all elements raised by `c`. -/
def HoldsKiller (k : Nat) (low c : Int) (a : Int → Int64) : Prop :=
  ∀ t : Nat, t < 3 * k + 2 → (a (low + t)).toInt = c + killer k t

theorem HoldsKiller.first (h : HoldsKiller (k + 1) low c a) : (a low).toInt = c := by
  have hzero := h 0 (by omega)
  simpa [killer] using hzero

theorem HoldsKiller.second (h : HoldsKiller (k + 1) low c a) : (a (low + 1)).toInt = c + 1 := by
  have hone := h 1 (by omega)
  simpa [killer] using hone

theorem HoldsKiller.last (h : HoldsKiller (k + 1) low c a) : (a (low + (3 * k + 4 : Nat))).toInt = c + 2 := by
  have hlast := h (3 * k + 4) (by omega)
  rw [killer, if_neg (by omega), if_pos rfl] at hlast
  exact hlast

theorem HoldsKiller.rest (h : HoldsKiller (k + 1) low c a) {t : Nat} (ht : 2 ≤ t) (ht' : t < 3 * k + 4) :
    c + 3 ≤ (a (low + t)).toInt := by
  rw [h t (by omega), killer]
  split_ifs <;> omega

theorem HoldsKiller.next (h : HoldsKiller (k + 1) low c a) :
    HoldsKiller k (low + 3) (c + 3)
      (Function.update (Function.update a (low + 2) (a (low + (3 * k + 4 : Nat)))) (low + (3 * k + 4 : Nat))
        (a (low + 2))) := by
  intro t ht
  by_cases hend : t = 3 * k + 1
  · -- The element that made room for the pivot.
    have hthird := h 2 (by omega)
    rw [killer, if_neg (by omega), if_neg (by omega), if_pos rfl] at hthird
    have haddr : low + 3 + (t : Int) = low + (3 * k + 4 : Nat) := by omega
    have htwo : low + ((2 : Nat) : Int) = low + 2 := rfl
    rw [haddr, Function.update_self, ← htwo, hthird, hend]
    omega
  · have hkeep := h (t + 3) (by omega)
    rw [killer, if_neg (by omega), if_neg (by omega), if_neg (by omega), Nat.add_sub_cancel] at hkeep
    have haddr : low + 3 + (t : Int) = low + (t + 3 : Nat) := by omega
    have hne : low + (t + 3 : Nat) ≠ low + (3 * k + 4 : Nat) := by omega
    have hne' : low + (t + 3 : Nat) ≠ low + 2 := by omega
    rw [haddr, Function.update_of_ne hne, Function.update_of_ne hne', hkeep]
    omega

/-- **The array for `k`** needs `k + 1` pairs. -/
theorem killer_pendingPairs (k : Nat) {n : Nat} {low c : Int} {a : Int → Int64} (hn : 3 * k + 1 ≤ n)
    (ha : HoldsKiller k low c a) : k + 1 ≤ pendingPairs n a low (low + (3 * k + 1 : Nat)) := by
  induction k generalizing n low c a with
  | zero => exact one_le_pendingPairs n a low _
  | succ k ih =>
    obtain ⟨n, rfl⟩ : ∃ m, n = m + 1 := ⟨n - 1, by omega⟩
    have hfirst := ha.first
    have hsecond := ha.second
    have hlast := ha.last
    have hhigh : low + (3 * (k + 1) + 1 : Nat) = low + (3 * k + 4 : Nat) := by omega
    rw [hhigh]
    obtain ⟨hval, hnext⟩ := @placePivot_third low (low + (3 * k + 4 : Nat)) ⟨a, fun _ => 0⟩
        (3 * k + 2) (by omega)
      (by omega)
      (Int64.lt_iff_toInt_lt.mpr (by dsimp only; omega)) (Int64.lt_iff_toInt_lt.mpr (by dsimp only; omega))
      (fun i hi hi' => by
        obtain ⟨t, rfl⟩ : ∃ t : Nat, i = low + t := ⟨(i - low).toNat, by omega⟩
        have := ha.rest (t := t) (by omega) (by omega)
        exact Int64.lt_iff_toInt_lt.mpr (by dsimp only; omega))
    have hsmaller := ih (n := n) (by omega) ha.next
    have hp : pivotIdx a low (low + (3 * k + 4 : Nat)) = low + 2 := hval
    have hb : placed a low (low + (3 * k + 4 : Nat)) =
      Function.update (Function.update a (low + 2) (a (low + (3 * k + 4 : Nat)))) (low + (3 * k + 4 : Nat))
        (a (low + 2)) := hnext
    have hstart : low + 2 + 1 = low + 3 := by omega
    have hend : low + 3 + (3 * k + 1 : Nat) = low + (3 * k + 4 : Nat) := by omega
    rw [hend] at hsmaller
    rw [pendingPairs, hp, hb, hstart, if_pos (by omega), if_pos (by omega), if_pos (by omega)]
    omega

end Killer

/-- 194 elements. -/
def killerArray : Int → Int64 := fun i => Int64.ofInt (killer 64 i.toNat)

theorem holdsKiller_killerArray : HoldsKiller 64 0 0 killerArray := by
  intro t ht
  have hle := killer_le 64 ht
  have hindex : ((0 : Int) + t).toNat = t := by omega
  unfold killerArray
  rw [hindex, Int64.toInt_ofInt_of_le (by omega) (by omega)]
  simp

/-- **The work stack overflows** on 194 elements, and on no fewer. -/
theorem not_quicksortI64_slots : ¬ ∀ (s : Store) (low high : Int) (stack : UInt64) (fuel : Nat),
    0 ≤ low → low ≤ high → high - low < fuel →
      ∀ i, Access.slot i ∈ (quicksortI64 fuel stack low high).log s → 0 ≤ i ∧ i ≤ 127 := by
  intro h
  have hpairs := killer_pendingPairs 64 (n := 193) (by omega) holdsKiller_killerArray
  obtain ⟨events, t, -, -, hlog, u, k, -, hdone⟩ :=
      @quicksortI64_run 0 193 0x1000 194 ⟨killerArray, fun _ => 0⟩
    (by omega) (by decide) (by omega)
  have hslots := h ⟨killerArray, fun _ => 0⟩ 0 193 0x1000 194 (by omega) (by omega) (by omega)
  rw [hlog] at hslots
  have hlast := hslots _ (List.mem_append_right _ (hdone.reached (by omega)))
  have hpairs' : 65 ≤ pendingPairs 193 killerArray 0 193 := hpairs
  have hn : ((193 : Int) - 0).toNat = 193 := rfl
  rw [hn] at hlast
  dsimp only at hlast
  omega

end Keuos.Basalt
