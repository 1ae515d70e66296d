import Keuos.Lib.Run

/-!
# Simulation by runs

A machine whose steps report lists of events simulates another one when each of its steps is answered by a
run of the other one with the same events.  A step that the other machine does not see is answered by the
empty run.
-/

namespace Keuos

section Simulation

variable {σ τ ο π ε : Type*}

/-- The events of a run. -/
def trace (exec : σ → ο → List ε × σ) (s : σ) (ops : List ο) : List ε :=
  (runOut exec s ops).1.flatten

/-- The state after a run. -/
def final (exec : σ → ο → List ε × σ) (s : σ) (ops : List ο) : σ :=
  (runOut exec s ops).2

section Equations

variable (exec : σ → ο → List ε × σ) (s : σ) (o : ο) (ops : List ο)

@[simp] theorem trace_nil : trace exec s [] = [] := rfl
@[simp] theorem final_nil : final exec s [] = s := rfl

@[simp] theorem trace_cons : trace exec s (o :: ops) = (exec s o).1 ++ trace exec (exec s o).2 ops := rfl
@[simp] theorem final_cons : final exec s (o :: ops) = final exec (exec s o).2 ops := rfl

end Equations

theorem trace_append (exec : σ → ο → List ε × σ) (s : σ) (ops ops' : List ο) :
    trace exec s (ops ++ ops') = trace exec s ops ++ trace exec (final exec s ops) ops' := by
  induction ops generalizing s with
  | nil => rfl
  | cons o ops ih =>
    rw [List.cons_append, trace_cons, ih, trace_cons, final_cons, List.append_assoc]

theorem final_append (exec : σ → ο → List ε × σ) (s : σ) (ops ops' : List ο) :
    final exec s (ops ++ ops') = final exec (final exec s ops) ops' := by
  induction ops generalizing s with
  | nil => rfl
  | cons o ops ih => exact ih _

/-- **The simulation rule.** When every step is answered by a run, so is every run. -/
theorem trace_simulates {exec : σ → ο → List ε × σ} {spec : τ → π → List ε × τ} {ok : σ → ο → Prop}
    {R : σ → τ → Prop}
    (hstep : ∀ s t o, R s t → ok s o →
      ∃ ps, trace spec t ps = (exec s o).1 ∧ R (exec s o).2 (final spec t ps))
    {ops : List ο} {s : σ} {t : τ} (h : R s t) (hok : Admissible (fun s o => (exec s o).2) ok s ops) :
    ∃ ps, trace spec t ps = trace exec s ops ∧ R (final exec s ops) (final spec t ps) := by
  induction ops generalizing s t with
  | nil => exact ⟨[], rfl, h⟩
  | cons o ops ih =>
    obtain ⟨first, htrace, hnext⟩ := hstep s t o h hok.1
    obtain ⟨rest, hrest, hlast⟩ := ih hnext hok.2
    refine ⟨first ++ rest, ?_, ?_⟩
    · rw [trace_append, trace_cons, htrace, hrest]
    · rw [final_append, final_cons]
      exact hlast

end Simulation

end Keuos
