import Mathlib.Data.List.Induction
import Mathlib.Order.Lattice
import Mathlib.Tactic.Common

/-!
# The first minimum of a list

A scan that keeps the best element so far and replaces it by a better one only.  It starts with a bound in the
place of a key, so an element whose key is not below the bound is never taken.

## Main results

* `scanMin_spec`: the scan finds the first of the elements with the least key.
* `IsFirstMin.le_and_lt`: what it finds, when the list is sorted by another order.
-/

namespace Keuos

section FirstMin

variable {α κ : Type*} [LinearOrder κ] (fits : α → Prop) [DecidablePred fits] (key : α → κ)

/-- One round of the scan. -/
def keepMin (best : Option α × κ) (x : α) : Option α × κ :=
  if fits x ∧ key x < best.2 then (some x, key x) else best

/-- The scan, from a bound. -/
def scanMin (bound : κ) (l : List α) : Option α × κ := l.foldl (keepMin fits key) (none, bound)

/-- `x` is the first of the elements that have the least key. -/
structure IsFirstMin (l : List α) (x : α) : Prop where
  holds : fits x
  split : ∃ pre post, l = pre ++ x :: post ∧ (∀ y ∈ pre, fits y → key x < key y) ∧
    ∀ y ∈ post, fits y → key x ≤ key y

variable {fits key}

theorem scanMin_concat (bound : κ) (l : List α) (x : α) :
    scanMin fits key bound (l ++ [x]) = keepMin fits key (scanMin fits key bound l) x := by
  simp [scanMin, List.foldl_append]

variable (fits key) in
/-- **The scan** finds nothing when no key is below the bound, and otherwise the first minimum. -/
theorem scanMin_spec (bound : κ) (l : List α) :
    (scanMin fits key bound l = (none, bound) ∧ ∀ y ∈ l, fits y → bound ≤ key y) ∨
      ∃ x, scanMin fits key bound l = (some x, key x) ∧ key x < bound ∧ IsFirstMin fits key l x := by
  induction l using List.reverseRecOn with
  | nil => exact .inl ⟨rfl, by simp⟩
  | append_singleton l z ih =>
    rw [scanMin_concat]
    unfold keepMin
    rcases ih with ⟨hscan, hnone⟩ | ⟨x, hscan, hbound, hfits, pre, post, hl, hpre, hpost⟩
    · rw [hscan]
      by_cases hz : fits z ∧ key z < bound
      · rw [if_pos hz]
        refine .inr ⟨z, rfl, hz.2, hz.1, l, [], rfl, fun y hy hfits => ?_, by simp⟩
        exact lt_of_lt_of_le hz.2 (hnone y hy hfits)
      · rw [if_neg hz]
        refine .inl ⟨rfl, fun y hy hfits => ?_⟩
        rcases List.mem_append.mp hy with hy | hy
        · exact hnone y hy hfits
        · obtain rfl := List.mem_singleton.mp hy
          exact not_lt.mp fun hlt => hz ⟨hfits, hlt⟩
    · rw [hscan]
      by_cases hz : fits z ∧ key z < key x
      · rw [if_pos hz]
        refine .inr ⟨z, rfl, lt_trans hz.2 hbound, hz.1, l, [], rfl, fun y hy hfits => ?_, by simp⟩
        -- What was at least the old minimum is above the new one.
        rw [hl] at hy
        rcases List.mem_append.mp hy with hy | hy
        · exact lt_trans hz.2 (hpre y hy hfits)
        · rcases List.mem_cons.mp hy with rfl | hy
          · exact hz.2
          · exact lt_of_lt_of_le hz.2 (hpost y hy hfits)
      · rw [if_neg hz]
        refine .inr ⟨x, rfl, hbound, hfits, pre, post ++ [z], by simp [hl], hpre, fun y hy hfits => ?_⟩
        rcases List.mem_append.mp hy with hy | hy
        · exact hpost y hy hfits
        · obtain rfl := List.mem_singleton.mp hy
          exact not_lt.mp fun hlt => hz ⟨hfits, hlt⟩

omit [DecidablePred fits] in
theorem IsFirstMin.le_and_lt {r : α → α → Prop} {l : List α} {x y : α} (h : IsFirstMin fits key l x)
    (hasymm : ∀ a b, r a b → ¬ r b a) (hsorted : l.Pairwise r) (hy : y ∈ l) (hfits : fits y) :
    key x ≤ key y ∧ (r y x → key x < key y) := by
  obtain ⟨-, pre, post, hl, hpre, hpost⟩ := h
  rw [hl] at hy hsorted
  obtain ⟨-, hafter, -⟩ := List.pairwise_append.mp hsorted
  rcases List.mem_append.mp hy with hy | hy
  · have hlt := hpre y hy hfits
    exact ⟨le_of_lt hlt, fun _ => hlt⟩
  · rcases List.mem_cons.mp hy with rfl | hy
    · exact ⟨le_refl _, fun hr => absurd hr (hasymm _ _ hr)⟩
    · have hr := (List.pairwise_cons.mp hafter).1 y hy
      exact ⟨hpost y hy hfits, fun hr' => absurd hr' (hasymm _ _ hr)⟩

end FirstMin

end Keuos
