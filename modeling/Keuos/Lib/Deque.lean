import Keuos.Lib.Run
import Mathlib.Data.List.Basic

/-!
# Work-stealing deques

The owner of the deque pushes and pops at the back, thieves steal at the front.  The abstract deque is the
list of its elements, and `pushes_perm` says that a run of it loses no element and hands none out twice.
-/

namespace Keuos

variable {α β γ : Type*}

/-- The calls of a work-stealing deque. -/
inductive DequeOp (α : Type*) where
  | push (a : α)
  | pop
  | steal
  deriving DecidableEq, Repr

/-- What a call returns, where `β` is what stands for an element or for none. -/
inductive DequeResult (β : Type*) where
  | pushed
  | taken (b : β)
  deriving DecidableEq, Repr

def DequeResult.map (f : β → γ) : DequeResult β → DequeResult γ
  | pushed => pushed
  | taken b => taken (f b)

/-- A call on the list of the elements. -/
def DequeOp.exec (l : List α) : DequeOp α → DequeResult (Option α) × List α
  | .push a => (.pushed, l ++ [a])
  | .pop => (.taken l.getLast?, l.dropLast)
  | .steal => (.taken l.head?, l.tail)

/-- The elements that the calls push. -/
def pushes : List (DequeOp α) → List α
  | [] => []
  | .push a :: ops => a :: pushes ops
  | _ :: ops => pushes ops

/-- The elements that the results hand out. -/
def takes : List (DequeResult (Option α)) → List α
  | [] => []
  | .taken (some a) :: rs => a :: takes rs
  | _ :: rs => takes rs

theorem mem_takes {rs : List (DequeResult (Option α))} {a : α} (h : .taken (some a) ∈ rs) :
    a ∈ takes rs := by
  induction rs with
  | nil => exact absurd h List.not_mem_nil
  | cons r rs ih =>
    rcases List.mem_cons.mp h with heq | hmem
    · rw [← heq]
      exact List.mem_cons_self
    · rcases r with _ | (_ | b)
      · exact ih hmem
      · exact ih hmem
      · exact List.mem_cons_of_mem _ (ih hmem)

theorem push_perm (l : List α) (o : DequeOp α) :
    (l ++ pushes [o]).Perm (takes [(o.exec l).1] ++ (o.exec l).2) := by
  cases o with
  | push a => exact .refl _
  | pop =>
    simp only [pushes, DequeOp.exec, List.append_nil]
    rcases List.eq_nil_or_concat l with rfl | ⟨init, a, rfl⟩
    · exact .refl _
    · simp only [List.concat_eq_append, List.getLast?_concat, takes, List.dropLast_concat]
      exact List.perm_append_comm
  | steal =>
    cases l with
    | nil => exact .refl _
    | cons a l =>
      simp only [pushes, List.append_nil]
      exact .refl _

/-- **A deque conserves its elements.** -/
theorem pushes_perm (l : List α) (ops : List (DequeOp α)) :
    (l ++ pushes ops).Perm
      (takes (runOut DequeOp.exec l ops).1 ++ (runOut DequeOp.exec l ops).2) := by
  induction ops generalizing l with
  | nil =>
    simp only [pushes, List.append_nil]
    exact .refl _
  | cons o ops ih =>
    have hpush : pushes (o :: ops) = pushes [o] ++ pushes ops := by
      cases o <;> rfl
    have htake : ∀ r (rs : List (DequeResult (Option α))), takes (r :: rs) = takes [r] ++ takes rs := by
      intro r rs
      rcases r with _ | (_ | b) <;> rfl
    rw [runOut_cons, hpush, htake, ← List.append_assoc, List.append_assoc (takes _)]
    refine ((push_perm l o).append_right _).trans ?_
    rw [List.append_assoc]
    exact (ih _).append_left _

/-! ### Elements by their numbers -/

/-- The elements with the numbers from `lo` up to `hi`. -/
def stretch (f : Int → α) (lo hi : Int) : List α :=
  (List.range (hi - lo).toNat).map fun k : Nat => f (lo + (k : Int))

section Stretch

variable {f g : Int → α} {lo hi : Int}

theorem stretch_nil (h : hi ≤ lo) : stretch f lo hi = [] := by
  unfold stretch
  rw [Int.toNat_of_nonpos (by omega)]
  rfl

theorem stretch_congr (h : ∀ i, lo ≤ i → i < hi → g i = f i) : stretch g lo hi = stretch f lo hi := by
  unfold stretch
  apply List.map_congr_left
  intro k hk
  rw [List.mem_range] at hk
  exact h _ (by omega) (by omega)

theorem stretch_cons (h : lo < hi) : stretch f lo hi = f lo :: stretch f (lo + 1) hi := by
  unfold stretch
  rw [show (hi - lo).toNat = (hi - (lo + 1)).toNat + 1 by omega, List.range_succ_eq_map,
    List.map_cons, List.map_map]
  congr 1
  · rw [Int.natCast_zero, Int.add_zero]
  · apply List.map_congr_left
    intro k _
    show f (lo + ((k + 1 : Nat) : Int)) = f (lo + 1 + k)
    congr 1
    omega

theorem stretch_concat (h : lo ≤ hi) : stretch f lo (hi + 1) = stretch f lo hi ++ [f hi] := by
  unfold stretch
  rw [show (hi + 1 - lo).toNat = (hi - lo).toNat + 1 by omega, List.range_succ, List.map_append,
    List.map_singleton]
  congr 3
  omega

end Stretch

end Keuos
