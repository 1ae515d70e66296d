import Mathlib.Logic.Equiv.Basic
import Mathlib.Tactic.Common

/-!
# Rearranging a range of an array

An array is a function on the integers.  `PermOn lo hi a b` says that `b` is a rearrangement of `a` which
moves elements inside of the range `lo .. hi` only, so `b` is `a` outside of it.

## Main results

* `PermOn.forall_range`: what holds of all elements of the range still does after a rearrangement.
* `SortedOn.stitch`: two sorted parts with an element between them that bounds both are a sorted range.
-/

namespace Keuos

section RangePerm

variable {α : Type*} {lo hi : Int} {a b c : Int → α}

/-- `b` is `a`, rearranged inside of the range. -/
def PermOn (lo hi : Int) (a b : Int → α) : Prop :=
  ∃ σ : Equiv.Perm Int, (∀ i, ¬(lo ≤ i ∧ i ≤ hi) → σ i = i) ∧ b = a ∘ σ

namespace PermOn

theorem refl (lo hi : Int) (a : Int → α) : PermOn lo hi a a :=
  ⟨Equiv.refl Int, fun _ _ => rfl, rfl⟩

theorem trans (h : PermOn lo hi a b) (h' : PermOn lo hi b c) : PermOn lo hi a c := by
  obtain ⟨σ, hσ, rfl⟩ := h
  obtain ⟨τ, hτ, rfl⟩ := h'
  refine ⟨τ.trans σ, ?_, rfl⟩
  intro i hi
  show σ (τ i) = i
  rw [hτ i hi, hσ i hi]

theorem mono {lo' hi' : Int} (h : PermOn lo' hi' a b) (hlo : lo ≤ lo')
    (hhi : hi' ≤ hi) : PermOn lo hi a b := by
  obtain ⟨σ, hσ, rfl⟩ := h
  refine ⟨σ, ?_, rfl⟩
  intro i hi
  exact hσ i (by omega)

theorem swap {i j : Int} (hin : lo ≤ i ∧ i ≤ hi) (hjn : lo ≤ j ∧ j ≤ hi) :
    PermOn lo hi a (Function.update (Function.update a j (a i)) i (a j)) := by
  refine ⟨Equiv.swap i j, ?_, (Equiv.comp_swap_eq_update i j a).symm⟩
  intro k hk
  apply Equiv.swap_apply_of_ne_of_ne
  · rintro rfl
    exact hk hin
  · rintro rfl
    exact hk hjn

theorem apply_of_outside (h : PermOn lo hi a b) {i : Int} (hout : ¬(lo ≤ i ∧ i ≤ hi)) : b i = a i := by
  obtain ⟨σ, hσ, rfl⟩ := h
  exact congrArg a (hσ i hout)

theorem exists_of_inside (h : PermOn lo hi a b) {i : Int} (hin : lo ≤ i ∧ i ≤ hi) :
    ∃ j, (lo ≤ j ∧ j ≤ hi) ∧ b i = a j := by
  obtain ⟨σ, hσ, rfl⟩ := h
  refine ⟨σ i, ?_, rfl⟩
  by_contra hout
  -- An element outside stays where it is, and so it is not the image of another one.
  have hfix := σ.injective (hσ (σ i) hout)
  rw [hfix] at hout
  exact hout hin

/-- **A rearrangement** keeps what holds of all elements of the range. -/
theorem forall_range {p : α → Prop} (h : PermOn lo hi a b) (hp : ∀ i, lo ≤ i ∧ i ≤ hi → p (a i)) :
    ∀ i, lo ≤ i ∧ i ≤ hi → p (b i) := by
  intro i hin
  obtain ⟨j, hj, hbj⟩ := h.exists_of_inside hin
  rw [hbj]
  exact hp j hj

end PermOn

/-! ### Sorted ranges -/

variable {r : α → α → Prop}

/-- The elements of the range are in the order `r`. -/
def SortedOn (r : α → α → Prop) (lo hi : Int) (a : Int → α) : Prop :=
  ∀ i j, lo ≤ i → i < j → j ≤ hi → r (a i) (a j)

theorem SortedOn.of_le (hle : hi ≤ lo) : SortedOn r lo hi a := by
  intro i j hi hij hj
  omega

theorem SortedOn.congr (h : SortedOn r lo hi a)
    (hab : ∀ i, lo ≤ i → i ≤ hi → b i = a i) : SortedOn r lo hi b := by
  intro i j hi hij hj
  rw [hab i hi (by omega), hab j (by omega) hj]
  exact h i j hi hij hj

/-- **Two sorted parts** and an element between them. -/
theorem SortedOn.stitch {p : Int} (htrans : ∀ {x y z}, r x y → r y z → r x z)
    (hleft : SortedOn r lo (p - 1) a) (hright : SortedOn r (p + 1) hi a)
    (hbelow : ∀ i, lo ≤ i → i < p → r (a i) (a p)) (habove : ∀ i, p < i → i ≤ hi → r (a p) (a i)) :
    SortedOn r lo hi a := by
  intro i j hi hij hj
  rcases Int.lt_trichotomy i p with hip | rfl | hip
  · rcases Int.lt_trichotomy j p with hjp | rfl | hjp
    · exact hleft i j hi hij (by omega)
    · exact hbelow i hi hip
    · exact htrans (hbelow i hi hip) (habove j hjp hj)
  · exact habove j hij hj
  · exact hright i j (by omega) hij hj

end RangePerm

end Keuos
