import Mathlib.Data.List.Basic
import Mathlib.Data.List.Nodup

/-!
# Runs of a deterministic machine

A machine is a function `exec : σ → ο → σ`: the state after one operation.  A run is a list of
operations, and its final state is `runOps exec s ops`.  Because every prefix of a run is a run,
a property of `runOps exec s ops` for all `ops` is a property of every reachable state.

Many results hold only for the runs whose steps meet a side condition `ok s o` on the state
before the step and the operation.  `Admissible exec ok s ops` says that every step of the run
does, and `runOps_induction` is the invariant rule for such runs.

Where the operations have outputs, `runOut exec s ops` is the outputs together with the final state, and
`runOut_refines` is the rule that one machine does what another one does.
-/

namespace Keuos

section Run

variable {σ ο : Type*} (exec : σ → ο → σ) (ok : σ → ο → Prop)

/-- The state after the operations `ops`, executed in order from `s`. -/
def runOps (s : σ) (ops : List ο) : σ :=
  ops.foldl exec s

/-- Every step of the run meets `ok` in the state in which it is taken. -/
def Admissible : σ → List ο → Prop
  | _, [] => True
  | s, o :: ops => ok s o ∧ Admissible (exec s o) ops

instance instDecidableAdmissible [∀ s o, Decidable (ok s o)] :
    ∀ s ops, Decidable (Admissible exec ok s ops)
  | _, [] => isTrue trivial
  | s, o :: ops =>
    have := instDecidableAdmissible (exec s o) ops
    inferInstanceAs (Decidable (ok s o ∧ Admissible exec ok (exec s o) ops))

@[simp] theorem runOps_nil (s : σ) : runOps exec s [] = s := rfl

@[simp] theorem runOps_cons (s : σ) (o : ο) (ops : List ο) :
    runOps exec s (o :: ops) = runOps exec (exec s o) ops := rfl

theorem runOps_append (s : σ) (ops₁ ops₂ : List ο) :
    runOps exec s (ops₁ ++ ops₂) = runOps exec (runOps exec s ops₁) ops₂ := by
  unfold runOps
  rw [List.foldl_append]

variable {exec ok}

/-- **The invariant rule.** What an admissible step preserves, an admissible run preserves. -/
theorem runOps_induction {I : σ → Prop} (hstep : ∀ s o, I s → ok s o → I (exec s o)) :
    ∀ {ops : List ο} {s : σ}, I s → Admissible exec ok s ops → I (runOps exec s ops) := by
  intro ops
  induction ops with
  | nil =>
    intro s hs _
    exact hs
  | cons o ops ih =>
    intro s hs hok
    exact ih (hstep s o hs hok.1) hok.2

theorem runOps_invariant {I : σ → Prop} (hstep : ∀ s o, I s → I (exec s o)) {s : σ} (hs : I s)
    (ops : List ο) : I (runOps exec s ops) := by
  induction ops generalizing s with
  | nil => exact hs
  | cons o ops ih => exact ih (hstep s o hs)

theorem Admissible.split {before after : List ο} {o : ο} {s : σ}
    (h : Admissible exec ok s (before ++ o :: after)) :
    Admissible exec ok s before ∧ ok (runOps exec s before) o := by
  induction before generalizing s with
  | nil => exact ⟨trivial, h.1⟩
  | cons p before ih =>
    obtain ⟨hbefore, hstep⟩ := ih h.2
    exact ⟨⟨h.1, hbefore⟩, hstep⟩

theorem Admissible.left {before after : List ο} {s : σ} (h : Admissible exec ok s (before ++ after)) :
    Admissible exec ok s before := by
  induction before generalizing s with
  | nil => trivial
  | cons o before ih => exact ⟨h.1, ih h.2⟩

theorem Admissible.right {before after : List ο} {s : σ} (h : Admissible exec ok s (before ++ after)) :
    Admissible exec ok (runOps exec s before) after := by
  induction before generalizing s with
  | nil => exact h
  | cons o before ih => exact ih h.2

theorem Admissible.append {before after : List ο} {s : σ} (h : Admissible exec ok s before)
    (h' : Admissible exec ok (runOps exec s before) after) : Admissible exec ok s (before ++ after) := by
  induction before generalizing s with
  | nil => exact h'
  | cons o before ih => exact ⟨h.1, ih h.2 h'⟩

theorem Admissible.and {ok' : σ → ο → Prop} {ops : List ο} {s : σ} (h : Admissible exec ok s ops)
    (h' : Admissible exec ok' s ops) : Admissible exec (fun s o => ok s o ∧ ok' s o) s ops := by
  induction ops generalizing s with
  | nil => trivial
  | cons o ops ih => exact ⟨⟨h.1, h'.1⟩, ih h.2 h'.2⟩

theorem le_runOps {f : σ → Nat} (hmono : ∀ s o, f s ≤ f (exec s o)) (ops : List ο) (s : σ) :
    f s ≤ f (runOps exec s ops) := by
  induction ops generalizing s with
  | nil => exact Nat.le_refl _
  | cons o ops ih => exact Nat.le_trans (hmono s o) (ih (exec s o))

/-- A run is admissible when a measure that only grows has not reached `b` in the end, and steps
below `b` meet the side condition. -/
theorem admissible_of_measure_lt {f : σ → Nat} {b : Nat} (hmono : ∀ s o, f s ≤ f (exec s o))
    (hok : ∀ s o, f (exec s o) < b → ok s o) {ops : List ο} {s : σ}
    (h : f (runOps exec s ops) < b) : Admissible exec ok s ops := by
  induction ops generalizing s with
  | nil => trivial
  | cons o ops ih =>
    exact ⟨hok s o (Nat.lt_of_le_of_lt (le_runOps hmono ops (exec s o)) h), ih h⟩

end Run

/-! ### Outputs -/

section Outputs

variable {σ τ ο ρ π : Type*}

/-- The outputs of the operations `ops`, executed in order from `s`, and the state after them. -/
def runOut (exec : σ → ο → ρ × σ) : σ → List ο → List ρ × σ
  | s, [] => ([], s)
  | s, o :: ops =>
    ((exec s o).1 :: (runOut exec (exec s o).2 ops).1, (runOut exec (exec s o).2 ops).2)

@[simp] theorem runOut_nil (exec : σ → ο → ρ × σ) (s : σ) : runOut exec s [] = ([], s) := rfl

@[simp] theorem runOut_cons (exec : σ → ο → ρ × σ) (s : σ) (o : ο) (ops : List ο) :
    runOut exec s (o :: ops) =
      ((exec s o).1 :: (runOut exec (exec s o).2 ops).1, (runOut exec (exec s o).2 ops).2) := rfl

/-- **The refinement rule.** `R n` relates a state to an abstract state from which at most `n` operations
are still to come. -/
theorem runOut_refines {exec : σ → ο → ρ × σ} {spec : τ → ο → π × τ} {ok : τ → ο → Prop}
    {out : ρ → π → Prop} {R : Nat → σ → τ → Prop}
    (hstep : ∀ n s t o, R (n + 1) s t → ok t o →
      out (exec s o).1 (spec t o).1 ∧ R n (exec s o).2 (spec t o).2)
    {ops : List ο} {s : σ} {t : τ} (h : R ops.length s t)
    (hok : Admissible (fun t o => (spec t o).2) ok t ops) :
    List.Forall₂ out (runOut exec s ops).1 (runOut spec t ops).1 ∧
      R 0 (runOut exec s ops).2 (runOut spec t ops).2 := by
  induction ops generalizing s t with
  | nil => exact ⟨.nil, h⟩
  | cons o ops ih =>
    obtain ⟨hout, hnext⟩ := hstep _ s t o h hok.1
    obtain ⟨houts, hlast⟩ := ih hnext hok.2
    exact ⟨.cons hout houts, hlast⟩

end Outputs

end Keuos
