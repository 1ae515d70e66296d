import Keuos.Lib.Run
import Mathlib.Logic.Function.Basic
import Mathlib.Tactic.Common

/-!
# Interleaved programs

A program `Prog Op Resp α` performs atomic operations on a shared state and returns a value: it is
the tree of what it does next for each response.  A `Machine` has a family of threads; each one, when
it is idle, may call one of its programs.  A run is a list of events, each of which starts a call or
lets one thread perform its next operation, so a run interleaves the operations in any order.

`Prog.Within` bounds what a program does for every response, and so for every content of the shared
state and every interference.

The shared state may hold ghost data.  `step` updates it with the operation, and `finish` when a call
returns, which is part of the step that performs the call's last operation.

A `Protocol` is a rely-guarantee specification: an invariant of the shared state, what each thread
relies on the others to do, and what holds of the state while a thread is idle.  `Protocol.inv_run`
says that programs which meet their specification (`wp`) keep the invariant in every interleaving.
The steps of a run may be restricted by a side condition `Guard`.
-/

namespace Keuos

/-- A program that performs operations and returns a value. -/
inductive Prog (Op Resp : Type) (α : Type) where
  | ret (a : α)
  | op (o : Op) (k : Resp → Prog Op Resp α)

namespace Prog

variable {Op Resp α β : Type}

/-- Sequential composition. -/
def bind : Prog Op Resp α → (α → Prog Op Resp β) → Prog Op Resp β
  | ret a, q => q a
  | op o k, q => op o fun r => (k r).bind q

instance : Monad (Prog Op Resp) where
  pure := ret
  bind := bind

/-- Run a program alone. -/
def runAlone {σ : Type} (sem : Op → σ → Resp × σ) : Prog Op Resp α → σ → α × σ
  | ret a, s => (a, s)
  | op o k, s => (k (sem o s).1).runAlone sem (sem o s).2

@[simp] theorem pure_eq (a : α) : (Pure.pure a : Prog Op Resp α) = ret a := rfl

@[simp] theorem bind_eq (p : Prog Op Resp α) (q : α → Prog Op Resp β) :
    (p >>= q) = p.bind q := rfl

@[simp] theorem ret_bind (a : α) (q : α → Prog Op Resp β) : (ret a).bind q = q a := rfl

theorem runAlone_bind {σ : Type} (sem : Op → σ → Resp × σ) (p : Prog Op Resp α)
    (q : α → Prog Op Resp β) (s : σ) :
    (p.bind q).runAlone sem s =
      (q (p.runAlone sem s).1).runAlone sem (p.runAlone sem s).2 := by
  induction p generalizing s with
  | ret a => rfl
  | op o k ih => exact ih (sem o s).1 (sem o s).2

/-! ### Bounds on what a program does -/

/-- The program performs at most `n` operations, all of them with `P`, and returns a value with `Q`,
whatever the responses are. -/
def Within (P : Op → Prop) (Q : α → Prop) : Nat → Prog Op Resp α → Prop
  | _, ret a => Q a
  | 0, op _ _ => False
  | n + 1, op o k => P o ∧ ∀ r, Within P Q n (k r)

section Within

variable {P : Op → Prop} {Q : α → Prop}

theorem within_ret {n : Nat} {a : α} (h : Q a) : Within P Q n (ret a : Prog Op Resp α) := by
  cases n with
  | zero => exact h
  | succ n => exact h

theorem Within.mono {n n' : Nat} (hn : n ≤ n') {p : Prog Op Resp α} (h : Within P Q n p) :
    Within P Q n' p := by
  induction p generalizing n n' with
  | ret a => exact within_ret (by cases n with | zero => exact h | succ n => exact h)
  | op o k ih =>
    cases n with
    | zero => exact h.elim
    | succ n =>
      cases n' with
      | zero => exact absurd hn (Nat.not_succ_le_zero n)
      | succ n' => exact ⟨h.1, fun r => ih r (Nat.le_of_succ_le_succ hn) (h.2 r)⟩

theorem Within.bind {R : β → Prop} {n n' : Nat} {p : Prog Op Resp α} {q : α → Prog Op Resp β}
    (hp : Within P Q n p) (hq : ∀ a, Q a → Within P R n' (q a)) :
    Within P R (n + n') (p.bind q) := by
  induction p generalizing n with
  | ret a =>
    refine (hq a ?_).mono (Nat.le_add_left _ _)
    cases n with
    | zero => exact hp
    | succ n => exact hp
  | op o k ih =>
    cases n with
    | zero => exact hp.elim
    | succ n =>
      rw [Nat.add_right_comm]
      exact ⟨hp.1, fun r => ih r (hp.2 r)⟩

end Within

/-- Every operation that the program may perform has `P`. -/
def Each (P : Op → Prop) : Prog Op Resp α → Prop
  | ret _ => True
  | op o k => P o ∧ ∀ r, Each P (k r)

section Each

variable {P : Op → Prop}

theorem each_true (p : Prog Op Resp α) : Each (fun _ => True) p := by
  induction p with
  | ret a => trivial
  | op o k ih => exact ⟨trivial, ih⟩

theorem Each.bind {p : Prog Op Resp α} {q : α → Prog Op Resp β} (hp : Each P p) (hq : ∀ a, Each P (q a)) :
    Each P (p.bind q) := by
  induction p with
  | ret a => exact hq a
  | op o k ih => exact ⟨hp.1, fun r => ih r (hp.2 r)⟩

end Each

/-- The operations of a program that runs alone. -/
def trace {σ : Type} (sem : Op → σ → Resp × σ) : Prog Op Resp α → σ → List Op
  | ret _, _ => []
  | op o k, s => o :: (k (sem o s).1).trace sem (sem o s).2

section Trace

variable {σ : Type} (sem : Op → σ → Resp × σ)

theorem trace_bind (p : Prog Op Resp α) (q : α → Prog Op Resp β) (s : σ) :
    (p.bind q).trace sem s =
      p.trace sem s ++ (q (p.runAlone sem s).1).trace sem (p.runAlone sem s).2 := by
  induction p generalizing s with
  | ret a => rfl
  | op o k ih => exact congrArg (o :: ·) (ih (sem o s).1 (sem o s).2)

/-- **A bound on the program bounds its runs.** -/
theorem Within.trace {P : Op → Prop} {Q : α → Prop} {n : Nat} {p : Prog Op Resp α}
    (h : Within P Q n p) (s : σ) :
    (∀ o ∈ p.trace sem s, P o) ∧ (p.trace sem s).length ≤ n ∧ Q (p.runAlone sem s).1 := by
  induction p generalizing n s with
  | ret a =>
    refine ⟨fun o ho => absurd ho (by simp [Prog.trace]), Nat.zero_le n, ?_⟩
    cases n with
    | zero => exact h
    | succ n => exact h
  | op o k ih =>
    cases n with
    | zero => exact h.elim
    | succ n =>
      obtain ⟨hops, hlen, hret⟩ := ih (sem o s).1 (h.2 (sem o s).1) (sem o s).2
      refine ⟨?_, Nat.succ_le_succ hlen, hret⟩
      intro o' ho'
      cases ho' with
      | head => exact h.1
      | tail _ ho' => exact hops o' ho'

end Trace

end Prog

/-! ### Machines -/

/-- Threads `ι` that call programs over a shared state `σ`. -/
structure Machine (ι Op Resp σ : Type) where
  Call : ι → Type
  Res : ι → Type
  body : (i : ι) → Call i → Prog Op Resp (Res i)
  step : (i : ι) → Call i → Op → σ → Resp × σ
  finish : (i : ι) → Call i → Res i → σ → σ → σ

namespace Machine

variable {ι Op Resp σ : Type} (M : Machine ι Op Resp σ)

/-- The shared state, and for each thread the call it is in and the rest of its program. -/
structure Config where
  shared : σ
  thread : (i : ι) → Option (M.Call i × Prog Op Resp (M.Res i))

/-- A thread starts a call, or performs the next operation of its call. -/
inductive Event where
  | call (i : ι) (c : M.Call i)
  | step (i : ι)

variable {M}

/-- All threads idle. -/
def start (s : σ) : M.Config := ⟨s, fun _ => none⟩

variable [DecidableEq ι]

/-- The configuration when `p` is left of the call `c`, after a step from `before` to `after`. -/
def settle (cfg : M.Config) (i : ι) (c : M.Call i) (p : Prog Op Resp (M.Res i))
    (before after : σ) : M.Config :=
  match p with
  | .ret a =>
    { shared := M.finish i c a before after, thread := Function.update cfg.thread i none }
  | .op o k =>
    { shared := after, thread := Function.update cfg.thread i (some (c, .op o k)) }

/-- The configuration after an event. -/
def exec (cfg : M.Config) : M.Event → M.Config
  | .call i c =>
    match cfg.thread i with
    | none => settle cfg i c (M.body i c) cfg.shared cfg.shared
    | some _ => cfg
  | .step i =>
    match cfg.thread i with
    | some (c, .op o k) =>
      let r := M.step i c o cfg.shared
      settle cfg i c (k r.1) cfg.shared r.2
    | _ => cfg

section Exec

variable {cfg : M.Config} {i : ι}

theorem exec_call_of_idle (h : cfg.thread i = none) (c : M.Call i) :
    exec cfg (.call i c) = settle cfg i c (M.body i c) cfg.shared cfg.shared := by
  simp only [exec, h]

theorem exec_call_of_busy {cp : M.Call i × Prog Op Resp (M.Res i)} (h : cfg.thread i = some cp)
    (c : M.Call i) : exec cfg (.call i c) = cfg := by
  simp only [exec, h]

theorem exec_step_of_idle (h : cfg.thread i = none) : exec cfg (.step i) = cfg := by
  simp only [exec, h]

theorem exec_step_of_op {c : M.Call i} {o : Op} {k : Resp → Prog Op Resp (M.Res i)}
    (h : cfg.thread i = some (c, .op o k)) :
    exec cfg (.step i) =
      settle cfg i c (k (M.step i c o cfg.shared).1) cfg.shared (M.step i c o cfg.shared).2 := by
  simp only [exec, h]

end Exec

end Machine

/-! ### Calls without interruption -/

section Alone

variable {ι Op Resp σ : Type} (M : Machine ι Op Resp σ)

/-- The state after the rest of a call, when no other thread acts. -/
def Machine.runCall (i : ι) (c : M.Call i) : Prog Op Resp (M.Res i) → σ → σ → σ
  | .ret a, before, s => M.finish i c a before s
  | .op o k, _, s => runCall i c (k (M.step i c o s).1) s (M.step i c o s).2

variable {M} [DecidableEq ι]

theorem Machine.exists_settle_alone (i : ι) (c : M.Call i) (p : Prog Op Resp (M.Res i)) (cfg : M.Config)
    (before after : σ) :
    ∃ n, runOps exec (settle cfg i c p before after) (List.replicate n (.step i)) =
      ⟨M.runCall i c p before after, Function.update cfg.thread i none⟩ := by
  induction p generalizing cfg before after with
  | ret a => exact ⟨0, rfl⟩
  | op o k ih =>
    obtain ⟨n, hn⟩ := ih (M.step i c o after).1 (settle cfg i c (.op o k) before after) after
      (M.step i c o after).2
    refine ⟨n + 1, ?_⟩
    have hthread : (settle cfg i c (.op o k) before after).thread i = some (c, .op o k) := by
      simp [settle]
    rw [List.replicate_succ, runOps_cons, exec_step_of_op hthread]
    refine hn.trans ?_
    simp [settle, runCall]

/-- **A call may run without interruption.** -/
theorem Machine.exists_alone {cfg : M.Config} {i : ι} (h : cfg.thread i = none) (c : M.Call i) :
    ∃ n, runOps exec cfg (.call i c :: List.replicate n (.step i)) =
      ⟨M.runCall i c (M.body i c) cfg.shared cfg.shared, cfg.thread⟩ := by
  obtain ⟨n, hn⟩ := exists_settle_alone i c (M.body i c) cfg cfg.shared cfg.shared
  refine ⟨n, ?_⟩
  rw [runOps_cons, exec_call_of_idle h, hn, ← h, Function.update_eq_self]

end Alone

/-! ### Rely-guarantee protocols -/

structure Protocol {ι Op Resp σ : Type} (M : Machine ι Op Resp σ) where
  Inv : σ → Prop
  Rely : ι → σ → σ → Prop
  Idle : ι → σ → Prop
  Guard : (i : ι) → M.Call i → Op → σ → Prop
  rely_refl : ∀ i s, Rely i s s
  rely_trans : ∀ i s₁ s₂ s₃, Rely i s₁ s₂ → Rely i s₂ s₃ → Rely i s₁ s₃
  idle_stable : ∀ i s s', Idle i s → Rely i s s' → Idle i s'

namespace Protocol

variable {ι Op Resp σ α β : Type} {M : Machine ι Op Resp σ} (P : Protocol M)

/-- A step of thread `i` is one that the others rely on. -/
def Guar (i : ι) (s s' : σ) : Prop :=
  ∀ j, j ≠ i → P.Rely j s s'

/-- What must hold of the program that is left of the call `c` after a step from `s` to `s₁`, so
that it keeps the protocol and ends with `Q`.  Other threads may act before each operation. -/
def wp {i : ι} (c : M.Call i) : Prog Op Resp α → (α → σ → σ → Prop) → σ → σ → Prop
  | .ret a, Q, s, s₁ => Q a s s₁
  | .op o k, Q, s, s₁ =>
    (P.Inv s₁ ∧ P.Guar i s s₁) ∧ ∀ s₂, P.Rely i s₁ s₂ → P.Inv s₂ → P.Guard i c o s₂ →
      wp c (k (M.step i c o s₂).1) Q s₂ (M.step i c o s₂).2

/-- The call returns `a` with the step from `s` to `s₁`. -/
def Done {i : ι} (c : M.Call i) (a : M.Res i) (s s₁ : σ) : Prop :=
  P.Inv (M.finish i c a s s₁) ∧ P.Guar i s (M.finish i c a s s₁) ∧
    P.Idle i (M.finish i c a s s₁)

/-- Every call keeps the protocol. -/
def Verified : Prop :=
  ∀ (i : ι) (c : M.Call i) (s : σ), P.Inv s → P.Idle i s → P.wp c (M.body i c) (P.Done c) s s

/-- The side condition of the next step of a thread. -/
def NextAllowed (i : ι) (s : σ) : Option (M.Call i × Prog Op Resp (M.Res i)) → Prop
  | some (c, .op o _) => P.Guard i c o s
  | _ => True

/-- The side condition of an event. -/
def Allowed (cfg : M.Config) : M.Event → Prop
  | .call _ _ => True
  | .step i => P.NextAllowed i cfg.shared (cfg.thread i)

section Decidable

variable [∀ i c o s, Decidable (P.Guard i c o s)]

instance (i : ι) (s : σ) : ∀ thread, Decidable (P.NextAllowed i s thread)
  | some (c, .op o _) => inferInstanceAs (Decidable (P.Guard i c o s))
  | some (_, .ret _) => isTrue trivial
  | none => isTrue trivial

instance (cfg : M.Config) : ∀ e, Decidable (P.Allowed cfg e)
  | .call _ _ => isTrue trivial
  | .step i => inferInstanceAs (Decidable (P.NextAllowed i cfg.shared (cfg.thread i)))

end Decidable

variable {P}

theorem guar_refl (i : ι) (s : σ) : P.Guar i s s :=
  fun j _ => P.rely_refl j s

theorem wp_bind {i : ι} {c : M.Call i} (p : Prog Op Resp α) (q : α → Prog Op Resp β)
    (Q : β → σ → σ → Prop) (s s₁ : σ) :
    P.wp c (p.bind q) Q s s₁ ↔ P.wp c p (fun a s s₁ => P.wp c (q a) Q s s₁) s s₁ := by
  induction p generalizing s s₁ with
  | ret a => exact Iff.rfl
  | op o k ih =>
    simp only [Prog.bind, wp, ih]

theorem wp_mono {i : ι} {c : M.Call i} {p : Prog Op Resp α} {Q Q' : α → σ → σ → Prop}
    (hQ : ∀ a s s₁, Q a s s₁ → Q' a s s₁) {s s₁ : σ} (h : P.wp c p Q s s₁) :
    P.wp c p Q' s s₁ := by
  induction p generalizing s s₁ with
  | ret a => exact hQ a s s₁ h
  | op o k ih => exact ⟨h.1, fun s₂ hr hi hg => ih _ (h.2 s₂ hr hi hg)⟩

/-! ### The invariant of a run -/

/-- The thread keeps the protocol from here on: an idle thread is ready for a call, and the program
of a running one was left in a state from which only the others have acted. -/
def ThreadOk (P : Protocol M) (cfg : M.Config) (i : ι) : Prop :=
  match cfg.thread i with
  | none => P.Idle i cfg.shared
  | some (c, p) => ∃ s s₁, P.wp c p (P.Done c) s s₁ ∧ P.Rely i s₁ cfg.shared

/-- The configuration keeps the protocol. -/
def ConfigOk (P : Protocol M) (cfg : M.Config) : Prop :=
  P.Inv cfg.shared ∧ ∀ i, P.ThreadOk cfg i

theorem threadOk_of_guar {cfg cfg' : M.Config} {i j : ι} (hj : P.ThreadOk cfg j) (hne : j ≠ i)
    (hguar : P.Guar i cfg.shared cfg'.shared) (hsame : cfg'.thread j = cfg.thread j) :
    P.ThreadOk cfg' j := by
  unfold ThreadOk at hj ⊢
  rw [hsame]
  cases hthread : cfg.thread j with
  | none =>
    rw [hthread] at hj
    exact P.idle_stable j _ _ hj (hguar j hne)
  | some cp =>
    obtain ⟨c, p⟩ := cp
    rw [hthread] at hj
    obtain ⟨s, s₁, hwp, hrely⟩ := hj
    exact ⟨s, s₁, hwp, P.rely_trans j _ _ _ hrely (hguar j hne)⟩

section Runs

variable [DecidableEq ι]

theorem configOk_settle {cfg : M.Config} (h : P.ConfigOk cfg) {i : ι} {c : M.Call i}
    {p : Prog Op Resp (M.Res i)} {after : σ} (hwp : P.wp c p (P.Done c) cfg.shared after) :
    P.ConfigOk (Machine.settle cfg i c p cfg.shared after) := by
  cases p with
  | ret a =>
    obtain ⟨hinv, hguar, hidle⟩ := hwp
    refine ⟨hinv, ?_⟩
    intro j
    by_cases hj : j = i
    · subst hj
      unfold ThreadOk Machine.settle
      simp only [Function.update_self]
      exact hidle
    · refine threadOk_of_guar (h.2 j) hj hguar ?_
      exact Function.update_of_ne hj _ _
  | op o k =>
    obtain ⟨⟨hinv, hguar⟩, hrest⟩ := hwp
    refine ⟨hinv, ?_⟩
    intro j
    by_cases hj : j = i
    · subst hj
      unfold ThreadOk Machine.settle
      simp only [Function.update_self]
      exact ⟨cfg.shared, after, ⟨⟨hinv, hguar⟩, hrest⟩, P.rely_refl j after⟩
    · refine threadOk_of_guar (h.2 j) hj hguar ?_
      exact Function.update_of_ne hj _ _

theorem configOk_exec (hverified : P.Verified) {cfg : M.Config} (h : P.ConfigOk cfg)
    (e : M.Event) (hallowed : P.Allowed cfg e) : P.ConfigOk (Machine.exec cfg e) := by
  cases e with
  | call i c =>
    have hi := h.2 i
    unfold ThreadOk at hi
    cases hthread : cfg.thread i with
    | some cp =>
      simp only [Machine.exec, hthread]
      exact h
    | none =>
      rw [hthread] at hi
      simp only [Machine.exec, hthread]
      exact configOk_settle h (hverified i c cfg.shared h.1 hi)
  | step i =>
    have hi := h.2 i
    unfold ThreadOk at hi
    simp only [Allowed] at hallowed
    cases hthread : cfg.thread i with
    | none =>
      simp only [Machine.exec, hthread]
      exact h
    | some cp =>
      obtain ⟨c, p⟩ := cp
      cases p with
      | ret a =>
        simp only [Machine.exec, hthread]
        exact h
      | op o k =>
        rw [hthread] at hi hallowed
        obtain ⟨s, s₁, hwp, hrely⟩ := hi
        simp only [Machine.exec, hthread]
        exact configOk_settle h (hwp.2 cfg.shared hrely h.1 hallowed)

/-- **The invariant holds in every interleaving** of calls that keep the protocol. -/
theorem configOk_run (hverified : P.Verified) {s : σ} (hinv : P.Inv s) (hidle : ∀ i, P.Idle i s)
    {events : List M.Event}
    (hallowed : Admissible Machine.exec P.Allowed (Machine.start s) events) :
    P.ConfigOk (runOps Machine.exec (Machine.start s) events) :=
  runOps_induction (I := P.ConfigOk) (fun _ e hcfg he => configOk_exec hverified hcfg e he)
    ⟨hinv, hidle⟩ hallowed

end Runs

/-! ### Runs with a bound -/

section Bounded

variable [DecidableEq ι] {f : σ → Nat} {b : Nat}

theorem measure_settle (hfinish : ∀ i c a before s, f (M.finish i c a before s) = f s)
    (cfg : M.Config) (i : ι)
    (c : M.Call i) (p : Prog Op Resp (M.Res i)) (before after : σ) :
    f (Machine.settle cfg i c p before after).shared = f after := by
  cases p with
  | ret a => exact hfinish i c a before after
  | op o k => rfl

theorem measure_le_exec (hstep : ∀ i c o s, f s ≤ f (M.step i c o s).2)
    (hfinish : ∀ i c a before s, f (M.finish i c a before s) = f s) (cfg : M.Config) (e : M.Event) :
    f cfg.shared ≤ f (Machine.exec cfg e).shared := by
  cases e with
  | call i c =>
    cases hthread : cfg.thread i with
    | none =>
      simp only [Machine.exec, hthread]
      exact Nat.le_of_eq (measure_settle hfinish cfg i c _ _ _).symm
    | some cp =>
      simp only [Machine.exec, hthread]
      exact Nat.le_refl _
  | step i =>
    cases hthread : cfg.thread i with
    | none =>
      simp only [Machine.exec, hthread]
      exact Nat.le_refl _
    | some cp =>
      obtain ⟨c, p⟩ := cp
      cases p with
      | ret a =>
        simp only [Machine.exec, hthread]
        exact Nat.le_refl _
      | op o k =>
        simp only [Machine.exec, hthread]
        rw [measure_settle hfinish]
        exact hstep i c o cfg.shared

theorem allowed_of_measure_lt (hfinish : ∀ i c a before s, f (M.finish i c a before s) = f s)
    (hguard : ∀ i c o s, f (M.step i c o s).2 < b → P.Guard i c o s) (cfg : M.Config) (e : M.Event)
    (h : f (Machine.exec cfg e).shared < b) : P.Allowed cfg e := by
  cases e with
  | call i c => trivial
  | step i =>
    cases hthread : cfg.thread i with
    | none => simp only [Allowed, NextAllowed, hthread]
    | some cp =>
      obtain ⟨c, p⟩ := cp
      cases p with
      | ret a => simp only [Allowed, NextAllowed, hthread]
      | op o k =>
        simp only [Allowed, NextAllowed, hthread]
        simp only [Machine.exec, hthread] at h
        rw [measure_settle hfinish] at h
        exact hguard i c o cfg.shared h

/-- **The invariant holds in every interleaving** at whose end the measure is below the bound. -/
theorem configOk_bounded (hverified : P.Verified) (hstep : ∀ i c o s, f s ≤ f (M.step i c o s).2)
    (hfinish : ∀ i c a before s, f (M.finish i c a before s) = f s)
    (hguard : ∀ i c o s, f (M.step i c o s).2 < b → P.Guard i c o s) {s : σ} (hinv : P.Inv s)
    (hidle : ∀ i, P.Idle i s) {events : List M.Event}
    (h : f (runOps Machine.exec (Machine.start s) events).shared < b) :
    P.ConfigOk (runOps Machine.exec (Machine.start s) events) := by
  apply configOk_run hverified hinv hidle
  exact admissible_of_measure_lt (f := fun cfg : M.Config => f cfg.shared) (measure_le_exec hstep hfinish)
    (allowed_of_measure_lt hfinish hguard) h

end Bounded

/-! ### Rules for programs -/

/-- An assertion that the other threads cannot invalidate. -/
def Stable (P : Protocol M) (i : ι) (K : σ → Prop) : Prop :=
  ∀ s s', P.Inv s' → P.Rely i s s' → K s → K s'

theorem wp_op {i : ι} {c : M.Call i} {K : σ → Prop} {o : Op} {k : Resp → Prog Op Resp α}
    {Q : α → σ → σ → Prop} (hstable : P.Stable i K)
    (hnext : ∀ s, P.Inv s → K s → P.Guard i c o s →
      P.wp c (k (M.step i c o s).1) Q s (M.step i c o s).2)
    {s s₁ : σ} (hinv : P.Inv s₁) (hguar : P.Guar i s s₁) (hK : K s₁) :
    P.wp c (.op o k) Q s s₁ := by
  refine ⟨⟨hinv, hguar⟩, ?_⟩
  intro s₂ hrely hinv₂ hguard
  exact hnext s₂ hinv₂ (hstable s₁ s₂ hinv₂ hrely hK) hguard

/-- **A call that runs without interruption** keeps the protocol, when `J` gives the side conditions. -/
theorem runCall_of_wp {i : ι} {c : M.Call i} {J : σ → Prop} (hJ : ∀ o s, J s → J (M.step i c o s).2)
    (hguard : ∀ o s, P.Inv s → J s → P.Guard i c o s) {p : Prog Op Resp (M.Res i)} {s s₁ : σ}
    (h : P.wp c p (P.Done c) s s₁) (hs₁ : J s₁) :
    P.Inv (M.runCall i c p s s₁) ∧ P.Idle i (M.runCall i c p s s₁) := by
  induction p generalizing s s₁ with
  | ret a => exact ⟨h.1, h.2.2⟩
  | op o k ih =>
    apply ih
    · exact h.2 s₁ (P.rely_refl i s₁) h.1.1 (hguard o s₁ h.1.1 hs₁)
    · exact hJ o s₁ hs₁

end Protocol

end Keuos
