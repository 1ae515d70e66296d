import Mathlib.Data.List.Induction
import Mathlib.Data.Set.Basic
import Mathlib.Tactic.Common

/-!
# Forests in memory

Nodes are linked by a function `next`: the edge with label `i` out of node `x` leads to
`next x i`, if it is there.  `walk next r q` follows the labels `q` from `r`.  The paths of interest
are those with `valid q`, a property that a path shares with its prefixes.

`Separated` says that no node is reached twice: different roots and different valid paths lead to
different nodes, so the nodes form disjoint trees.  The two lemmas about a change of the links are
`walk_congr`, for a change that no walk sees, and `walk_install`, for one new edge to a fresh node.
-/

namespace Keuos.Forest

variable {N I : Type} (next : N → I → Option N)

/-- The node at the end of a path. -/
def walk (r : N) (q : List I) : Option N :=
  q.foldlM next r

@[simp] theorem walk_nil (r : N) : walk next r [] = some r := rfl

theorem walk_append_singleton (r : N) (q : List I) (j : I) :
    walk next r (q ++ [j]) = (walk next r q).bind fun x => next x j := by
  unfold walk
  rw [List.foldlM_append]
  cases List.foldlM next r q with
  | none => rfl
  | some x => simp

theorem walk_append_singleton_eq_some {r x : N} {q : List I} {j : I} :
    walk next r (q ++ [j]) = some x ↔ ∃ y, walk next r q = some y ∧ next y j = some x := by
  rw [walk_append_singleton, Option.bind_eq_some_iff]

variable (valid : List I → Prop) (roots : Set N)

/-- No node is reached twice. -/
def Separated : Prop :=
  ∀ r ∈ roots, ∀ r' ∈ roots, ∀ q q', valid q → valid q' → ∀ x,
    walk next r q = some x → walk next r' q' = some x → r = r' ∧ q = q'

variable {next valid roots} {next' : N → I → Option N}

theorem walk_congr (hvalid : ∀ q j, valid (q ++ [j]) → valid q) {r : N}
    (hsame : ∀ q j x, valid (q ++ [j]) → walk next r q = some x → next' x j = next x j) {q : List I}
    (hq : valid q) : walk next' r q = walk next r q := by
  induction q using List.reverseRecOn with
  | nil => rfl
  | append_singleton q j ih =>
    rw [walk_append_singleton, walk_append_singleton, ih (hvalid q j hq)]
    cases hx : walk next r q with
    | none => rfl
    | some x => exact hsame q j x hq hx

/-- **A new edge to a fresh node** adds one path. -/
theorem walk_install (hvalid : ∀ q j, valid (q ++ [j]) → valid q) {root t a : N} {p : List I} {i : I}
    (hp : walk next root p = some t) (hnone : next t i = none) (hnew : next' t i = some a)
    (hleaf : ∀ j, valid (p ++ [i] ++ [j]) → next' a j = none) {r : N}
    (hsame : ∀ q j x, valid (q ++ [j]) → walk next r q = some x →
      ¬ (r = root ∧ q = p ∧ j = i) → next' x j = next x j)
    {q : List I} (hq : valid q) {x : N} :
    walk next' r q = some x ↔
      walk next r q = some x ∨ (r = root ∧ q = p ++ [i] ∧ x = a) := by
  induction q using List.reverseRecOn generalizing x with
  | nil =>
    constructor
    · exact fun h => .inl h
    · rintro (h | ⟨-, h, -⟩)
      · exact h
      · exact absurd h.symm (by simp)
  | append_singleton q j ih =>
    rw [walk_append_singleton_eq_some, walk_append_singleton_eq_some]
    have hq' := hvalid q j hq
    by_cases hedge : r = root ∧ q = p ∧ j = i
    · -- the new edge itself
      obtain ⟨rfl, rfl, rfl⟩ := hedge
      constructor
      · rintro ⟨y, hy, hyx⟩
        obtain hy | ⟨-, hlen, -⟩ := (ih hq').mp hy
        · obtain rfl : t = y := Option.some.inj (hp.symm.trans hy)
          exact .inr ⟨rfl, rfl, Option.some.inj (hyx.symm.trans hnew)⟩
        · exact absurd hlen (by simp)
      · rintro (⟨y, hy, hyx⟩ | ⟨-, -, rfl⟩)
        · obtain rfl : t = y := Option.some.inj (hp.symm.trans hy)
          exact absurd (hnone.symm.trans hyx) (by simp)
        · exact ⟨t, (ih hq').mpr (.inl hp), hnew⟩
    · constructor
      · rintro ⟨y, hy, hyx⟩
        obtain hy | ⟨rfl, rfl, rfl⟩ := (ih hq').mp hy
        · rw [hsame q j y hq hy hedge] at hyx
          exact .inl ⟨y, hy, hyx⟩
        · rw [hleaf j hq] at hyx
          exact absurd hyx (by simp)
      · rintro (⟨y, hy, hyx⟩ | ⟨hr, hpath, -⟩)
        · refine ⟨y, (ih hq').mpr (.inl hy), ?_⟩
          rw [hsame q j y hq hy hedge]
          exact hyx
        · obtain ⟨rfl, hlast⟩ := List.append_inj' hpath rfl
          exact absurd ⟨hr, rfl, List.singleton_inj.mp hlast⟩ hedge

theorem Separated.install (hsep : Separated next valid roots) {root a : N} {p : List I} {i : I}
    (hwalk : ∀ r ∈ roots, ∀ q, valid q → ∀ x, walk next' r q = some x ↔
      walk next r q = some x ∨ (r = root ∧ q = p ++ [i] ∧ x = a))
    (hfresh : ∀ r ∈ roots, ∀ q, valid q → walk next r q ≠ some a) :
    Separated next' valid roots := by
  intro r hr r' hr' q q' hq hq' x hx hx'
  obtain hx | ⟨rfl, rfl, rfl⟩ := (hwalk r hr q hq x).mp hx
  · obtain hx' | ⟨rfl, rfl, rfl⟩ := (hwalk r' hr' q' hq' x).mp hx'
    · exact hsep r hr r' hr' q q' hq hq' x hx hx'
    · exact absurd hx (hfresh r hr q hq)
  · obtain hx' | ⟨rfl, rfl, -⟩ := (hwalk r' hr' q' hq' x).mp hx'
    · exact absurd hx' (hfresh r' hr' q' hq')
    · exact ⟨rfl, rfl⟩

end Keuos.Forest
