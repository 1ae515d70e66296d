import Mathlib.Tactic.Common

/-!
# Programs that leave a trace

A program of the type `Traced σ ε α` works on a state `σ`, reports events `ε` and returns an `α`.  What it
does from a state `s` has three parts: the value `x.val s`, the state `x.next s` and the list `x.log s` of the
events.  Each of them has a rule for every construct (`val_bind`, `next_bind`, `log_bind`, …).

`x.All P s` says that every event of the program meets `P`, and `Keeps f P x` that this holds from every
state, and that the program leaves the part `f` of the state as it is.  `Agrees R P x` says that the program
cannot tell two states apart that `R` relates.
-/

namespace Keuos

/-- A program with a state and a list of events. -/
def Traced (σ ε α : Type) := σ → α × σ × List ε

namespace Traced

variable {σ ε α β τ : Type}

def val (x : Traced σ ε α) (s : σ) : α := (x s).1
def next (x : Traced σ ε α) (s : σ) : σ := (x s).2.1
def log (x : Traced σ ε α) (s : σ) : List ε := (x s).2.2

instance : Monad (Traced σ ε) where
  pure a := fun s => (a, s, [])
  bind x f := fun s =>
    let r := x s
    let r' := f r.1 r.2.1
    (r'.1, r'.2.1, r.2.2 ++ r'.2.2)

/-- The state. -/
def get : Traced σ ε σ := fun s => (s, s, [])

/-- Change the state. -/
def modify (f : σ → σ) : Traced σ ε Unit := fun s => ((), f s, [])

/-- Run a function with a result on the state. -/
def call (f : σ → α × σ) : Traced σ ε α := fun s => ((f s).1, (f s).2, [])

/-- Report an event. -/
def emit (e : ε) : Traced σ ε Unit := fun s => ((), s, [e])

/-! ### The parts of a program -/

section Parts

variable (x : Traced σ ε α) (f : α → Traced σ ε β) (s : σ)

@[simp] theorem val_pure (a : α) : val (pure a : Traced σ ε α) s = a := rfl
@[simp] theorem next_pure (a : α) : next (pure a : Traced σ ε α) s = s := rfl
@[simp] theorem log_pure (a : α) : log (pure a : Traced σ ε α) s = [] := rfl

@[simp] theorem val_bind : val (x >>= f) s = (f (x.val s)).val (x.next s) := rfl
@[simp] theorem next_bind : next (x >>= f) s = (f (x.val s)).next (x.next s) := rfl
@[simp] theorem log_bind : log (x >>= f) s = x.log s ++ (f (x.val s)).log (x.next s) := rfl

section Ite

variable (c : Prop) [Decidable c] (y : Traced σ ε α)

@[simp] theorem val_ite : val (if c then x else y) s = if c then x.val s else y.val s := by
  split <;> rfl

@[simp] theorem next_ite : next (if c then x else y) s = if c then x.next s else y.next s := by
  split <;> rfl

@[simp] theorem log_ite : log (if c then x else y) s = if c then x.log s else y.log s := by
  split <;> rfl

end Ite

@[simp] theorem val_get : val (get : Traced σ ε σ) s = s := rfl
@[simp] theorem next_get : next (get : Traced σ ε σ) s = s := rfl
@[simp] theorem log_get : log (get : Traced σ ε σ) s = [] := rfl

@[simp] theorem next_modify (g : σ → σ) : next (modify g : Traced σ ε Unit) s = g s := rfl
@[simp] theorem log_modify (g : σ → σ) : log (modify g : Traced σ ε Unit) s = [] := rfl

@[simp] theorem val_call (g : σ → α × σ) : val (call g : Traced σ ε α) s = (g s).1 := rfl
@[simp] theorem next_call (g : σ → α × σ) : next (call g : Traced σ ε α) s = (g s).2 := rfl
@[simp] theorem log_call (g : σ → α × σ) : log (call g : Traced σ ε α) s = [] := rfl

@[simp] theorem next_emit (e : ε) : next (emit e : Traced σ ε Unit) s = s := rfl
@[simp] theorem log_emit (e : ε) : log (emit e : Traced σ ε Unit) s = [e] := rfl

end Parts

/-! ### Every event -/

/-- Every event that the program reports meets `P`. -/
def All (P : ε → Prop) (x : Traced σ ε α) (s : σ) : Prop :=
  ∀ e ∈ x.log s, P e

section All

variable {P : ε → Prop} (x : Traced σ ε α) (f : α → Traced σ ε β) (s : σ)

@[simp] theorem all_pure (a : α) : All P (pure a : Traced σ ε α) s := by simp [All]

@[simp] theorem all_bind : All P (x >>= f) s ↔ All P x s ∧ All P (f (x.val s)) (x.next s) := by
  unfold All
  rw [log_bind]
  constructor
  · intro h
    exact ⟨fun e he => h e (List.mem_append_left _ he), fun e he => h e (List.mem_append_right _ he)⟩
  · rintro ⟨hx, hf⟩ e he
    rcases List.mem_append.mp he with he | he
    · exact hx e he
    · exact hf e he

@[simp] theorem all_ite (c : Prop) [Decidable c] (y : Traced σ ε α) :
    All P (if c then x else y) s ↔ if c then All P x s else All P y s := by
  split <;> rfl

@[simp] theorem all_get : All P (get : Traced σ ε σ) s := by simp [All]

@[simp] theorem all_modify (g : σ → σ) : All P (modify g : Traced σ ε Unit) s := by simp [All]

@[simp] theorem all_call (g : σ → α × σ) : All P (call g : Traced σ ε α) s := by simp [All]

@[simp] theorem all_emit (e : ε) : All P (emit e : Traced σ ε Unit) s ↔ P e := by simp [All]

end All

/-! ### What a program leaves alone -/

/-- From every state, the program leaves `f` as it is, and its events meet `P`. -/
def Keeps (f : σ → τ) (P : ε → Prop) (x : Traced σ ε α) : Prop :=
  ∀ s, f (x.next s) = f s ∧ All P x s

section Keeps

variable {f : σ → τ} {P : ε → Prop} {x : Traced σ ε α} {g : α → Traced σ ε β}

theorem Keeps.pure (a : α) : Keeps f P (Pure.pure a : Traced σ ε α) := by
  intro s
  simp

theorem Keeps.bind (hx : Keeps f P x) (hg : ∀ a, Keeps f P (g a)) : Keeps f P (x >>= g) := by
  intro s
  obtain ⟨hf, hall⟩ := hx s
  obtain ⟨hf', hall'⟩ := hg (x.val s) (x.next s)
  rw [next_bind, all_bind]
  exact ⟨hf'.trans hf, hall, hall'⟩

theorem Keeps.ite {c : Prop} [Decidable c] {y : Traced σ ε α} (hx : Keeps f P x) (hy : Keeps f P y) :
    Keeps f P (if c then x else y) := by
  split
  · exact hx
  · exact hy

theorem Keeps.get : Keeps f P (get : Traced σ ε σ) := by
  intro s
  simp

theorem Keeps.modify {h : σ → σ} (hf : ∀ s, f (h s) = f s) :
    Keeps f P (modify h : Traced σ ε Unit) := by
  intro s
  simp [hf]

theorem Keeps.call {h : σ → α × σ} (hf : ∀ s, f (h s).2 = f s) :
    Keeps f P (call h : Traced σ ε α) := by
  intro s
  simp [hf]

theorem Keeps.emit {e : ε} (he : P e) : Keeps f P (emit e : Traced σ ε Unit) := by
  intro s
  simp [he]

theorem Keeps.mono {υ : Type} {g : σ → υ} {Q : ε → Prop} (hx : Keeps f P x)
    (hfg : ∀ {s t}, f s = f t → g s = g t) (hPQ : ∀ e, P e → Q e) : Keeps g Q x := by
  intro s
  exact ⟨hfg (hx s).1, fun e he => hPQ e ((hx s).2 e he)⟩

end Keeps

/-! ### Related states -/

/-- From related states, the program returns the same value and reaches related states, if its events meet
`P`. -/
def Agrees (R : σ → σ → Prop) (P : ε → Prop) (x : Traced σ ε α) : Prop :=
  ∀ s t, R s t → All P x s → x.val s = x.val t ∧ R (x.next s) (x.next t)

section Agrees

variable {R : σ → σ → Prop} {P : ε → Prop} {x : Traced σ ε α} {g : α → Traced σ ε β}

theorem Agrees.pure (a : α) : Agrees R P (Pure.pure a : Traced σ ε α) := by
  intro s t hst _
  exact ⟨rfl, hst⟩

theorem Agrees.bind (hx : Agrees R P x) (hg : ∀ a, Agrees R P (g a)) : Agrees R P (x >>= g) := by
  intro s t hst hall
  rw [all_bind] at hall
  obtain ⟨hval, hnext⟩ := hx s t hst hall.1
  rw [val_bind, val_bind, next_bind, next_bind, ← hval]
  exact hg _ _ _ hnext hall.2

theorem Agrees.ite {c : Prop} [Decidable c] {y : Traced σ ε α} (hx : Agrees R P x) (hy : Agrees R P y) :
    Agrees R P (if c then x else y) := by
  split
  · exact hx
  · exact hy

end Agrees

end Traced

end Keuos
