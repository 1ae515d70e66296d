import Keuos.Netd.Router

/-!
# Exclusive ports

A process that has put a port into the staging state is the only one that writes its entries, and it knows
them exactly (`Stages`).  It leaves the staging state with its last store, and then the entries are those of
the binding in force again.  A reader that saw the port bound may read an entry later, but every word that
was ever stored belongs to a claim.

## Main results

* `portLaw_run`: in every interleaving, every port keeps its law.
-/

namespace Keuos.Netd

open Lease

/-! ### The protocol -/

/-- The word is one that a claim of the port has brought. -/
def Known (log : List PortEvent) (f : PortField) (v : UInt64) : Prop :=
  v = 0 ∨ ∃ b, .claimed b ∈ log ∧ b.word f = v

/-- What a call may have returned. -/
def Answer (log : UInt16 → List PortEvent) : RouterCall → UInt64 → Prop
  | .lookupStream port, v => Known (log port) .stream v
  | .lookupTcb port, v => Known (log port) .tcb v
  | _, _ => True

/-- The invariant of the routing table. -/
structure RouterOk (s : Router) : Prop where
  legal : ∀ port, Legal Binding.ownerPid (s.log port)
  staged : ∀ port i, s.stager port = some i → s.table port .state = portStaging
  settled : ∀ port, s.stager port = none → s.table port = settled (holder (s.log port))
  known : ∀ port f, f ≠ .state → Known (s.log port) f (s.table port f)
  released : ∀ port, unbound port s.returned = releases (s.log port)
  answered : ∀ x ∈ s.returned, Answer s.log x.1 x.2

/-- What a process relies on: a port that it stages is left alone, and no other one becomes its own. -/
structure RouterRely (i : Nat) (s s' : Router) : Prop where
  mine : ∀ port, s'.stager port = some i ↔ s.stager port = some i
  row : ∀ port, s.stager port = some i → s'.table port = s.table port
  log : ∀ port, s.stager port = some i → s'.log port = s.log port

def routerProtocol : Protocol routerMachine where
  Inv := RouterOk
  Rely := RouterRely
  Idle i s := ∀ port, s.stager port ≠ some i
  Guard _ _ _ _ := True
  rely_refl _ _ := ⟨fun _ => Iff.rfl, fun _ _ => rfl, fun _ _ => rfl⟩
  rely_trans _ _ _ _ h k := by
    refine ⟨fun port => (k.mine port).trans (h.mine port), ?_, ?_⟩
    · intro port hport
      exact (k.row port ((h.mine port).mpr hport)).trans (h.row port hport)
    · intro port hport
      exact (k.log port ((h.mine port).mpr hport)).trans (h.log port hport)
  idle_stable _ _ _ h hr := fun port hport => h port ((hr.mine port).mp hport)

/-- What must hold of the program that is left of a call. -/
abbrev RouterWp {α : Type} (i : Nat) (c : RouterCall) (p : PortProg α)
    (Q : α → Router → Router → Prop) (s s₁ : Router) : Prop :=
  routerProtocol.wp (i := i) c p Q s s₁

/-- What a process knows that stages nothing. -/
def StagesNone (i : Nat) (s : Router) : Prop :=
  ∀ port, s.stager port ≠ some i

/-- What a process knows that has put a port into the staging state: the binding in force, and the row of
the table. -/
structure Stages (i : Nat) (port : UInt16) (b : Binding) (row : PortField → UInt64) (s : Router) : Prop where
  stager : s.stager port = some i
  others : ∀ port', port' ≠ port → s.stager port' ≠ some i
  holder : holder (s.log port) = some b
  row : s.table port = row

section Protocol

variable {i : Nat} {port : UInt16} {b : Binding} {row : PortField → UInt64} {c : RouterCall} {s s' : Router}

theorem stagesNone_stable (i : Nat) : routerProtocol.Stable i (StagesNone i) :=
  fun _ _ _ hr h port hport => h port ((hr.mine port).mp hport)

theorem stages_stable (i : Nat) (port : UInt16) (b : Binding) (row : PortField → UInt64) :
    routerProtocol.Stable i (Stages i port b row) := by
  intro s s' _ hr h
  refine ⟨(hr.mine port).mpr h.stager, ?_, ?_, ?_⟩
  · intro port' hne hport'
    exact h.others port' hne ((hr.mine port').mp hport')
  · rw [hr.log port h.stager]
    exact h.holder
  · rw [hr.row port h.stager]
    exact h.row

theorem Known.append {log : List PortEvent} {f : PortField} {v : UInt64} (h : Known log f v)
    (events : List PortEvent) : Known (log ++ events) f v := by
  rcases h with hzero | ⟨b, hb, hword⟩
  · exact .inl hzero
  · exact .inr ⟨b, List.mem_append_left _ hb, hword⟩

theorem Answer.mono {log log' : UInt16 → List PortEvent} (hlog : ∀ port, log port <+: log' port)
    {c : RouterCall} {v : UInt64} (h : Answer log c v) : Answer log' c v := by
  have hknown : ∀ {port f}, Known (log port) f v → Known (log' port) f v := by
    intro port f hport
    obtain ⟨events, hevents⟩ := hlog port
    rw [← hevents]
    exact hport.append events
  cases c with
  | bind port b => trivial
  | unbind port callerPid => trivial
  | lookupStream port => exact hknown h
  | lookupTcb port => exact hknown h

/-! ### Steps -/

/-- A change of one port. -/
structure PortStep (port : UInt16) (s s' : Router) : Prop where
  table : ∀ port', port' ≠ port → s'.table port' = s.table port'
  log : ∀ port', port' ≠ port → s'.log port' = s.log port'
  stager : ∀ port', port' ≠ port → s'.stager port' = s.stager port'
  grows : s.log port <+: s'.log port

theorem PortStep.prefix (h : PortStep port s s') (port' : UInt16) : s.log port' <+: s'.log port' := by
  by_cases heq : port' = port
  · rw [heq]
    exact h.grows
  · rw [h.log port' heq]

theorem PortStep.routerOk (h : RouterOk s) (hstep : PortStep port s s')
    (hlegal : Legal Binding.ownerPid (s'.log port))
    (hstaged : ∀ i, s'.stager port = some i → s'.table port .state = portStaging)
    (hsettled : s'.stager port = none → s'.table port = Netd.settled (holder (s'.log port)))
    (hknown : ∀ f, f ≠ .state → Known (s'.log port) f (s'.table port f))
    (hreleased : ∀ port', unbound port' s'.returned = releases (s'.log port'))
    (hanswered : ∀ x ∈ s'.returned, Answer s.log x.1 x.2) : RouterOk s' := by
  refine ⟨?_, ?_, ?_, ?_, hreleased, fun x hx => (hanswered x hx).mono hstep.prefix⟩
  · intro port'
    by_cases heq : port' = port
    · exact heq ▸ hlegal
    · exact hstep.log port' heq ▸ h.legal port'
  · intro port' j hj
    by_cases heq : port' = port
    · subst heq
      exact hstaged j hj
    · rw [hstep.table port' heq]
      exact h.staged port' j (hstep.stager port' heq ▸ hj)
  · intro port' hnone
    by_cases heq : port' = port
    · subst heq
      exact hsettled hnone
    · rw [hstep.table port' heq, hstep.log port' heq]
      exact h.settled port' (hstep.stager port' heq ▸ hnone)
  · intro port' f hf
    by_cases heq : port' = port
    · subst heq
      exact hknown f hf
    · rw [hstep.table port' heq, hstep.log port' heq]
      exact h.known port' f hf

theorem PortStep.released (h : RouterOk s) (hstep : PortStep port s s') (hreturned : s'.returned = s.returned)
    (hreleases : releases (s'.log port) = releases (s.log port)) (port' : UInt16) :
    unbound port' s'.returned = releases (s'.log port') := by
  rw [hreturned, h.released port']
  by_cases heq : port' = port
  · rw [heq, hreleases]
  · rw [hstep.log port' heq]

theorem PortStep.guar (hstep : PortStep port s s') (hbefore : ∀ j, j ≠ i → s.stager port ≠ some j)
    (hafter : ∀ j, j ≠ i → s'.stager port ≠ some j) : routerProtocol.Guar i s s' := by
  intro j hj
  have hother : ∀ port', s.stager port' = some j → port' ≠ port := by
    intro port' hport' heq
    exact hbefore j hj (heq ▸ hport')
  refine ⟨?_, ?_, ?_⟩
  · intro port'
    by_cases heq : port' = port
    · subst heq
      exact iff_of_false (hafter j hj) (hbefore j hj)
    · rw [hstep.stager port' heq]
  · intro port' hport'
    exact hstep.table port' (hother port' hport')
  · intro port' hport'
    exact hstep.log port' (hother port' hport')

theorem step_load (f : PortField) (s : Router) :
    routerMachine.step i c (.load port f) s = (s.table port f, s) := by
  have hevents : c.events s.table (.load port f) = [] := by
    cases c <;> rfl
  simp [routerMachine, PortOp.sem, PortOp.port, hevents, stagerAfter]

theorem step_cas_lose {expected desired : UInt64} (h : s.table port .state ≠ expected) :
    routerMachine.step i c (.cas port expected desired) s = (s.table port .state, s) := by
  have hevents : c.events s.table (.cas port expected desired) = [] := by
    cases c <;> simp [RouterCall.events, h]
  simp [routerMachine, PortOp.sem, PortOp.port, hevents, stagerAfter, h]

theorem step_store {f : PortField} (hf : f ≠ .state) (v : UInt64) (s : Router) :
    routerMachine.step i c (.store port f v) s = (0, { s with table := s.table.set port f v }) := by
  have hevents : c.events s.table (.store port f v) = [] := by
    cases c <;> cases f <;> first | rfl | exact absurd rfl hf
  have hstager : stagerAfter i s.table (s.stager port) (.store port f v) = s.stager port := by
    cases f <;> first | rfl | exact absurd rfl hf
  simp [routerMachine, PortOp.sem, PortOp.port, hevents, hstager]

@[simp] theorem set_row (t : PortTable) (port : UInt16) (f : PortField) (v : UInt64) :
    t.set port f v port = Function.update (t port) f v := by
  ext f'
  simp [PortTable.set, Function.update_apply]

theorem set_of_ne (t : PortTable) {port port' : UInt16} (h : port' ≠ port) (f : PortField) (v : UInt64) :
    t.set port f v port' = t port' := by
  ext f'
  simp [PortTable.set, h]

/-! ### Rules for programs -/

variable {α : Type} {Q : α → Router → Router → Prop}

theorem wp_load {f : PortField} {k : UInt64 → PortProg α}
    (hnext : ∀ s, RouterOk s → StagesNone i s → RouterWp i c (k (s.table port f)) Q s s)
    {s s₁ : Router} (h : RouterOk s₁) (hguar : routerProtocol.Guar i s s₁) (hK : StagesNone i s₁) :
    RouterWp i c ((load port f).bind k) Q s s₁ := by
  apply Protocol.wp_op (stagesNone_stable i) _ h hguar hK
  intro s₂ h₂ hK₂ _
  rw [step_load]
  exact hnext s₂ h₂ hK₂

theorem wp_loadStaged {f : PortField} {k : UInt64 → PortProg α}
    (hnext : ∀ s, RouterOk s → Stages i port b row s → RouterWp i c (k (row f)) Q s s)
    {s s₁ : Router} (h : RouterOk s₁) (hguar : routerProtocol.Guar i s s₁) (hK : Stages i port b row s₁) :
    RouterWp i c ((load port f).bind k) Q s s₁ := by
  apply Protocol.wp_op (stages_stable i port b row) _ h hguar hK
  intro s₂ h₂ hK₂ _
  rw [step_load, hK₂.row]
  exact hnext s₂ h₂ hK₂

theorem wp_store {f : PortField} {v : UInt64} {k : Unit → PortProg α} (hf : f ≠ .state)
    (hv : v = 0 ∨ b.word f = v)
    (hnext : ∀ s s', RouterOk s' → routerProtocol.Guar i s s' →
      Stages i port b (Function.update row f v) s' → RouterWp i c (k ()) Q s s')
    {s s₁ : Router} (h : RouterOk s₁) (hguar : routerProtocol.Guar i s s₁) (hK : Stages i port b row s₁) :
    RouterWp i c ((store port f v).bind k) Q s s₁ := by
  apply Protocol.wp_op (stages_stable i port b row) _ h hguar hK
  intro s₂ h₂ hK₂ _
  rw [step_store hf]
  have hstep : PortStep port s₂ { s₂ with table := s₂.table.set port f v } :=
    ⟨fun port' hne => set_of_ne _ hne f v, fun _ _ => rfl, fun _ _ => rfl, List.prefix_refl _⟩
  have hmine : ∀ j, j ≠ i → s₂.stager port ≠ some j := by
    intro j hj hstager
    rw [hK₂.stager] at hstager
    exact hj (Option.some_inj.mp hstager).symm
  apply hnext s₂ _ _ (hstep.guar hmine hmine)
  · refine ⟨hK₂.stager, hK₂.others, hK₂.holder, ?_⟩
    dsimp only
    rw [set_row, hK₂.row]
  · apply hstep.routerOk h₂ (h₂.legal port)
    · intro j hj
      dsimp only
      rw [set_row, Function.update_of_ne (Ne.symm hf)]
      exact h₂.staged port j hj
    · intro hnone
      exact absurd (hK₂.stager.symm.trans hnone) (by simp)
    · intro f' hf'
      dsimp only
      rw [set_row]
      by_cases heq : f' = f
      · subst heq
        rw [Function.update_self]
        exact hv.imp id fun hword => ⟨b, mem_of_holder hK₂.holder, hword⟩
      · rw [Function.update_of_ne heq]
        exact h₂.known port f' hf'
    · exact hstep.released h₂ rfl rfl
    · exact h₂.answered

theorem wp_casState {expected : UInt64} {k : UInt64 → PortProg α}
    (hwin : ∀ s, RouterOk s → StagesNone i s → s.table port .state = expected →
      RouterWp i c (k expected) Q s (routerMachine.step i c (.cas port expected portStaging) s).2)
    (hlose : ∀ v s, v ≠ expected → RouterOk s → StagesNone i s → RouterWp i c (k v) Q s s)
    {s s₁ : Router} (h : RouterOk s₁) (hguar : routerProtocol.Guar i s s₁) (hK : StagesNone i s₁) :
    RouterWp i c ((casState port expected portStaging).bind k) Q s s₁ := by
  apply Protocol.wp_op (stagesNone_stable i) _ h hguar hK
  intro s₂ h₂ hK₂ _
  by_cases heq : s₂.table port .state = expected
  · have hresp : (routerMachine.step i c (.cas port expected portStaging) s₂).1 = expected := heq
    rw [hresp]
    exact hwin s₂ h₂ hK₂ heq
  · rw [step_cas_lose heq]
    exact hlose _ s₂ heq h₂ hK₂

theorem stage {expected : UInt64} (h : RouterOk s) (hK : StagesNone i s)
    (hstate : s.table port .state = expected)
    (hlegal : Legal Binding.ownerPid (s.log port ++ c.events s.table (.cas port expected portStaging)))
    (hholder : Lease.holder (s.log port ++ c.events s.table (.cas port expected portStaging)) = some b)
    (hreleases : releases (s.log port ++ c.events s.table (.cas port expected portStaging)) =
      releases (s.log port)) (hfree : s.stager port = none) :
    let s' := (routerMachine.step i c (.cas port expected portStaging) s).2
    RouterOk s' ∧ routerProtocol.Guar i s s' ∧
      Stages i port b (Function.update (s.table port) .state portStaging) s' := by
  intro s'
  have htable : s'.table = s.table.set port .state portStaging := if_pos hstate
  have hlog : s'.log = Function.update s.log port
      (s.log port ++ c.events s.table (.cas port expected portStaging)) := rfl
  have hstager : s'.stager = Function.update s.stager port (some i) := by
    show Function.update s.stager port (if s.table port .state = expected then some i else _) = _
    rw [if_pos hstate]
  have hreturned : s'.returned = s.returned := rfl
  generalize s' = s' at htable hlog hstager hreturned ⊢
  have hlogSelf : s'.log port = s.log port ++ c.events s.table (.cas port expected portStaging) := by
    rw [hlog, Function.update_self]
  have hself : s'.stager port = some i := by
    rw [hstager, Function.update_self]
  have hrow : s'.table port = Function.update (s.table port) .state portStaging := by
    rw [htable, set_row]
  -- the step is about one port
  have hstep : PortStep port s s' := by
    refine ⟨?_, ?_, ?_, ?_⟩
    · intro port' hne
      rw [htable, set_of_ne _ hne]
    · intro port' hne
      rw [hlog, Function.update_of_ne hne]
    · intro port' hne
      rw [hstager, Function.update_of_ne hne]
    · rw [hlogSelf]
      exact List.prefix_append _ _
  refine ⟨?_, ?_, hself, ?_, ?_, hrow⟩
  · apply hstep.routerOk h
    · rw [hlogSelf]
      exact hlegal
    · intro j _
      rw [hrow, Function.update_self]
    · intro hnone
      rw [hself] at hnone
      cases hnone
    · intro f hf
      rw [hrow, Function.update_of_ne hf, hlogSelf]
      exact (h.known port f hf).append _
    · apply hstep.released h hreturned
      rw [hlogSelf]
      exact hreleases
    · rw [hreturned]
      exact h.answered
  · apply hstep.guar
    · intro j _ hj
      rw [hfree] at hj
      cases hj
    · intro j hj hj'
      rw [hself] at hj'
      exact hj (Option.some_inj.mp hj').symm
  · intro port' hne
    rw [hstep.stager port' hne]
    exact hK port'
  · rw [hlogSelf]
    exact hholder

theorem stager_eq_none (h : RouterOk s) (hstate : s.table port .state ≠ portStaging) : s.stager
    port = none := by
  cases hstager : s.stager port with
  | none => rfl
  | some j => exact absurd (h.staged port j hstager) hstate

theorem free_of_unbound (h : RouterOk s) (hstate : s.table port .state = portUnbound) :
    s.stager port = none ∧ Lease.holder (s.log port) = none ∧ s.table port = fun _ => 0 := by
  have hfree : s.stager port = none := by
    apply stager_eq_none h
    rw [hstate]
    decide
  have hrow := h.settled port hfree
  cases hholder : Lease.holder (s.log port) with
  | none =>
    rw [hholder] at hrow
    exact ⟨hfree, rfl, hrow⟩
  | some b =>
    rw [hrow, hholder] at hstate
    exact absurd hstate (by simp [Netd.settled, Binding.word, portBound, portUnbound])

theorem held_of_bound (h : RouterOk s) (hstate : s.table port .state = portBound) :
    s.stager port = none ∧ ∃ b, Lease.holder (s.log port) = some b ∧ s.table port = b.word := by
  have hfree : s.stager port = none := by
    apply stager_eq_none h
    rw [hstate]
    decide
  have hrow := h.settled port hfree
  cases hholder : Lease.holder (s.log port) with
  | none =>
    rw [hrow, hholder] at hstate
    exact absurd hstate (by simp [Netd.settled, portBound])
  | some b =>
    rw [hholder] at hrow
    exact ⟨hfree, b, rfl, hrow⟩

/-! ### The end of a call -/

theorem done (h : RouterOk s') (hguar : routerProtocol.Guar i s s') (hK : StagesNone i s') {a : UInt64}
    (hunbind : ∀ port callerPid, c = .unbind port callerPid → a ≠ 0) (hanswer : Answer s'.log c a) :
    routerProtocol.Done (i := i) c a s s' := by
  refine ⟨⟨h.legal, h.staged, h.settled, h.known, ?_, ?_⟩,
    fun j hj => ⟨(hguar j hj).mine, (hguar j hj).row, (hguar j hj).log⟩, hK⟩
  · intro port
    show unbound port (s'.returned ++ [(c, a)]) = releases (s'.log port)
    rw [← h.released port]
    unfold unbound
    rw [List.filterMap_append, List.append_right_eq_self]
    cases c with
    | unbind port' callerPid =>
      have hne := hunbind port' callerPid rfl
      simp [hne]
    | bind _ _ | lookupStream _ | lookupTcb _ => rfl
  · intro x hx
    rcases List.mem_append.mp hx with hx | hx
    · exact h.answered x hx
    · rw [List.mem_singleton.mp hx]
      exact hanswer

theorem unstage {v : UInt64} (hK : Stages i port b row s) {returned : List (RouterCall × UInt64)}
    (s' : Router) (hs' : s' =
      { (routerMachine.step i c (.store port .state v) s).2 with returned := returned }) :
    PortStep port s s' ∧ routerProtocol.Guar i s s' ∧ StagesNone i s' ∧ s'.stager port = none ∧
      s'.table port = Function.update row .state v ∧
      s'.log port = s.log port ++ c.events s.table (.store port .state v) := by
  have htable : s'.table = s.table.set port .state v := by
    rw [hs']
    rfl
  have hlog : s'.log = Function.update s.log port
      (s.log port ++ c.events s.table (.store port .state v)) := by
    rw [hs']
    rfl
  have hstager : s'.stager = Function.update s.stager port none := by
    rw [hs']
    rfl
  have hnone : s'.stager port = none := by
    rw [hstager, Function.update_self]
  have hstep : PortStep port s s' := by
    refine ⟨?_, ?_, ?_, ?_⟩
    · intro port' hne
      rw [htable, set_of_ne _ hne]
    · intro port' hne
      rw [hlog, Function.update_of_ne hne]
    · intro port' hne
      rw [hstager, Function.update_of_ne hne]
    · rw [hlog, Function.update_self]
      exact List.prefix_append _ _
  refine ⟨hstep, ?_, ?_, hnone, ?_, ?_⟩
  · apply hstep.guar
    · intro j hj hj'
      rw [hK.stager] at hj'
      exact hj (Option.some_inj.mp hj').symm
    · intro j _
      rw [hnone]
      simp
  · intro port' hport'
    by_cases heq : port' = port
    · rw [heq, hnone] at hport'
      cases hport'
    · rw [hstep.stager port' heq] at hport'
      exact hK.others port' heq hport'
  · rw [htable, set_row, hK.row]
  · rw [hlog, Function.update_self]

/-- **The port is put back** into the bound state. -/
theorem wp_putBack {a : UInt64} (hrow : ∀ f, f ≠ .state → row f = b.word f)
    (hc : ∀ t, c.events t (.store port .state portBound) = [])
    (hunbind : ∀ port callerPid, c = .unbind port callerPid → a ≠ 0) (hanswer : ∀ log, Answer log c a)
    {s s₁ : Router} (h : RouterOk s₁) (hguar : routerProtocol.Guar i s s₁) (hK : Stages i port b row s₁) :
    RouterWp i c ((store port .state portBound).bind fun _ => .ret a)
      (routerProtocol.Done (i := i) c) s s₁ := by
  apply Protocol.wp_op (stages_stable i port b row) _ h hguar hK
  intro s₂ h₂ hK₂ _
  obtain ⟨hstep, hguar₂, hnone, hfree, htable, hlog⟩ := unstage (v := portBound) (c := c) hK₂ _ rfl
  rw [hc, List.append_nil] at hlog
  have hsettled : Function.update row .state portBound = b.word := by
    ext f
    by_cases hf : f = .state
    · subst hf
      rw [Function.update_self]
      rfl
    · rw [Function.update_of_ne hf, hrow f hf]
  apply done _ hguar₂ hnone hunbind (hanswer _)
  apply hstep.routerOk h₂
  · rw [hlog]
    exact h₂.legal port
  · intro j hj
    exact absurd (hfree.symm.trans hj) (by simp)
  · intro _
    rw [htable, hsettled, hlog, hK₂.holder]
    rfl
  · intro f _
    rw [htable, hsettled, hlog]
    exact .inr ⟨b, mem_of_holder hK₂.holder, rfl⟩
  · apply hstep.released h₂ rfl
    rw [hlog]
  · exact h₂.answered

/-- **The port is released** on behalf of its owner. -/
theorem wp_release {callerPid : UInt64} (hrow : ∀ f, f ≠ .state → row f = 0) (howner : b.ownerPid = callerPid)
    (hc : c = .unbind port callerPid) {s s₁ : Router} (h : RouterOk s₁)
    (hguar : routerProtocol.Guar i s s₁) (hK : Stages i port b row s₁) :
    RouterWp i c ((store port .state portUnbound).bind fun _ => .ret (0 : UInt64))
      (routerProtocol.Done (i := i) c)
      s s₁ := by
  apply Protocol.wp_op (stages_stable i port b row) _ h hguar hK
  intro s₂ h₂ hK₂ _
  -- the store and the return are one step
  suffices hdone : ∀ s', s' = { (routerMachine.step i c (.store port .state portUnbound) s₂).2 with
      returned := s₂.returned ++ [(c, 0)] } →
      RouterOk s' ∧ routerProtocol.Guar i s₂ s' ∧ StagesNone i s' from hdone _ rfl
  intro s' hs'
  obtain ⟨hstep, hguar₂, hnone, hfree, htable, hlog⟩ := unstage (v := portUnbound) (c := c) hK₂ s' hs'
  have hreturned : s'.returned = s₂.returned ++ [(c, 0)] := by
    rw [hs']
  have hevents : c.events s₂.table (.store port .state portUnbound) = [.released callerPid] := by
    rw [hc]
    rfl
  rw [hevents] at hlog
  have hempty : s'.table port = fun _ => 0 := by
    rw [htable]
    ext f
    by_cases hf : f = .state
    · subst hf
      rw [Function.update_self]
      rfl
    · rw [Function.update_of_ne hf, hrow f hf]
  refine ⟨?_, hguar₂, hnone⟩
  apply hstep.routerOk h₂
  · rw [hlog, ← howner]
    exact (h₂.legal port).release hK₂.holder
  · intro j hj
    exact absurd (hfree.symm.trans hj) (by simp)
  · intro _
    rw [hempty, hlog, holder_append]
    rfl
  · intro f _
    rw [hempty]
    exact .inl rfl
  · intro port'
    have hunbound : unbound port' s'.returned =
        unbound port' s₂.returned ++ if port = port' then [callerPid] else [] := by
      rw [hreturned, hc]
      unfold unbound
      rw [List.filterMap_append]
      by_cases heq : port = port'
      · simp [heq]
      · simp [heq]
    rw [hunbound, h₂.released port']
    by_cases heq : port = port'
    · subst heq
      rw [if_pos rfl, hlog, releases_released]
    · rw [if_neg heq, List.append_nil, hstep.log port' (Ne.symm heq)]
  · intro x hx
    rw [hreturned] at hx
    rcases List.mem_append.mp hx with hx | hx
    · exact h₂.answered x hx
    · rw [List.mem_singleton.mp hx, hc]
      trivial

/-! ### The calls -/

variable {callerPid : UInt64} {s : Router}

theorem wp_refuse {a : UInt64} (hc : ∀ port callerPid, c = .unbind port callerPid → a ≠ 0)
    (h : RouterOk s) (hK : StagesNone i s) (hanswer : Answer s.log c a) :
    RouterWp i c (.ret a) (routerProtocol.Done (i := i) c) s s :=
  done h (Protocol.guar_refl i s) hK hc hanswer

theorem wp_bindStream (h : RouterOk s) (hK : StagesNone i s) :
    RouterWp i (.bind port b) (bindStream port b) (routerProtocol.Done (i := i) (.bind port b)) s s := by
  apply wp_casState (k := fun oldState => if oldState != portUnbound then _ else _) _ _ h
    (Protocol.guar_refl i s) hK
  · intro s₁ h₁ hK₁ hstate
    obtain ⟨hfree, hholder, hrow⟩ := free_of_unbound h₁ hstate
    have hevents : (RouterCall.bind port b).events s₁.table (.cas port portUnbound portStaging) =
        [.claimed b] := if_pos hstate
    obtain ⟨h₂, hguar₂, hK₂⟩ := stage (c := .bind port b) (b := b) h₁ hK₁ hstate
      (by rw [hevents]; exact (h₁.legal port).claim hholder b)
      (by rw [hevents, holder_append]; rfl) (by rw [hevents, releases_claimed]) hfree
    rw [bne_self_eq_false, if_neg Bool.false_ne_true]
    -- the three words of the binding, and then the state
    apply wp_store (by decide) (.inr rfl) _ h₂ hguar₂ hK₂
    intro s₃ s₄ h₄ hguar₄ hK₄
    apply wp_store (by decide) (.inr rfl) _ h₄ hguar₄ hK₄
    intro s₅ s₆ h₆ hguar₆ hK₆
    apply wp_store (by decide) (.inr rfl) _ h₆ hguar₆ hK₆
    intro s₇ s₈ h₈ hguar₈ hK₈
    apply wp_putBack (c := .bind port b) (a := 0) _ (fun _ => rfl) (by simp) (fun _ => trivial) h₈ hguar₈ hK₈
    intro f hf
    cases f with
    | state => exact absurd rfl hf
    | stream | tcb | owner => rfl
  · intro v s₁ hne h₁ hK₁
    rw [if_pos (bne_iff_ne.mpr hne)]
    exact wp_refuse (by simp) h₁ hK₁ trivial

theorem wp_unbindStream (h : RouterOk s) (hK : StagesNone i s) :
    RouterWp i (.unbind port callerPid) (unbindStream port callerPid)
      (routerProtocol.Done (i := i) (.unbind port callerPid)) s s := by
  apply wp_casState (k := fun oldState => if oldState != portBound then _ else _) _ _ h
    (Protocol.guar_refl i s) hK
  · intro s₁ h₁ hK₁ hstate
    obtain ⟨hfree, b, hholder, hrow⟩ := held_of_bound h₁ hstate
    have hevents : (RouterCall.unbind port callerPid).events s₁.table (.cas port portBound portStaging) =
        [] := rfl
    obtain ⟨h₂, hguar₂, hK₂⟩ := stage (c := .unbind port callerPid) (b := b) h₁ hK₁ hstate
      (by rw [hevents, List.append_nil]; exact h₁.legal port)
      (by rw [hevents, List.append_nil]; exact hholder) (by rw [hevents, List.append_nil]) hfree
    rw [bne_self_eq_false, if_neg Bool.false_ne_true]
    apply wp_loadStaged _ h₂ hguar₂ hK₂
    intro s₃ h₃ hK₃
    have hword : Function.update (s₁.table port) .state portStaging .owner = b.ownerPid := by
      rw [hrow]
      rfl
    rw [hword]
    have hguar₃ := Protocol.guar_refl (P := routerProtocol) i s₃
    by_cases howner : b.ownerPid = callerPid
    · rw [if_neg (by simpa using howner)]
      apply wp_store (by decide) (.inl rfl) _ h₃ hguar₃ hK₃
      intro s₄ s₅ h₅ hguar₅ hK₅
      apply wp_store (by decide) (.inl rfl) _ h₅ hguar₅ hK₅
      intro s₆ s₇ h₇ hguar₇ hK₇
      apply wp_store (by decide) (.inl rfl) _ h₇ hguar₇ hK₇
      intro s₈ s₉ h₉ hguar₉ hK₉
      apply wp_release _ howner rfl h₉ hguar₉ hK₉
      intro f hf
      cases f with
      | state => exact absurd rfl hf
      | stream | tcb | owner => rfl
    · -- the caller is not the owner
      rw [if_pos (bne_iff_ne.mpr howner)]
      apply wp_putBack (c := .unbind port callerPid)
        (a := 2) _ (fun _ => rfl) _ (fun _ => trivial) h₃ hguar₃ hK₃
      · intro f hf
        rw [Function.update_of_ne hf, hrow]
      · intro _ _ _
        decide
  · intro v s₁ hne h₁ hK₁
    rw [if_pos (bne_iff_ne.mpr hne)]
    refine wp_refuse ?_ h₁ hK₁ trivial
    intro _ _ _
    decide

theorem wp_lookup {f : PortField} (hf : f ≠ .state)
    (hc : ∀ port callerPid, c ≠ .unbind port callerPid)
    (hanswer : ∀ log v, Known (log port) f v → Answer log c v) (h : RouterOk s) (hK : StagesNone i s) :
    RouterWp i c (lookup port f) (routerProtocol.Done (i := i) c) s s := by
  apply wp_load (k := fun state => if state == portBound then _ else _) _ h (Protocol.guar_refl i s) hK
  intro s₁ h₁ hK₁
  split
  · -- the port was bound; the entry may have changed since, but it is a known word
    apply wp_load (k := fun v => Prog.ret v) _ h₁ (Protocol.guar_refl i s₁) hK₁
    intro s₂ h₂ hK₂
    exact wp_refuse (fun port callerPid heq => absurd heq (hc port callerPid)) h₂ hK₂
      (hanswer _ _ (h₂.known port f hf))
  · exact wp_refuse (fun port callerPid heq => absurd heq (hc port callerPid)) h₁ hK₁
      (hanswer _ _ (.inl rfl))

end Protocol

theorem routerProtocol_verified : routerProtocol.Verified := by
  intro i c s h hidle
  cases c with
  | bind port b => exact wp_bindStream h hidle
  | unbind port callerPid => exact wp_unbindStream h hidle
  | lookupStream port => exact wp_lookup (by decide) (by simp) (fun _ _ hv => hv) h hidle
  | lookupTcb port => exact wp_lookup (by decide) (by simp) (fun _ _ hv => hv) h hidle

theorem routerOk_init : RouterOk Router.init where
  legal _ := .nil
  staged _ _ h := by cases h
  settled _ _ := rfl
  known _ _ _ := .inl rfl
  released _ := rfl
  answered _ h := by cases h

/-! ### Ports that nobody changes -/

/-- Only those calls swap the state of a port that change the port. -/
def Entitled (c : RouterCall) (o : PortOp) : Prop :=
  ∀ port expected desired, o = .cas port expected desired → c.Changes port

theorem entitled_load (c : RouterCall) (port : UInt16) (f : PortField) : Entitled c (.load port f) :=
  fun _ _ _ h => by cases h

theorem entitled_store (c : RouterCall) (port : UInt16) (f : PortField) (v : UInt64) :
    Entitled c (.store port f v) :=
  fun _ _ _ h => by cases h

theorem entitled_cas {c : RouterCall} {port : UInt16} (h : c.Changes port) (expected desired : UInt64) :
    Entitled c (.cas port expected desired) := by
  intro port' _ _ heq
  cases heq
  exact h

theorem within_body (c : RouterCall) : c.body.Within (Entitled c) (fun _ => True) 6 := by
  cases c with
  | bind port b =>
    refine ⟨entitled_cas (c := .bind port b) rfl _ _, fun old => ?_⟩
    simp only [Prog.ret_bind]
    split
    · trivial
    · exact ⟨entitled_store _ _ _ _, fun _ => ⟨entitled_store _ _ _ _, fun _ =>
        ⟨entitled_store _ _ _ _, fun _ => ⟨entitled_store _ _ _ _, fun _ => trivial⟩⟩⟩⟩
  | unbind port callerPid =>
    refine ⟨entitled_cas (c := .unbind port callerPid) rfl _ _, fun old => ?_⟩
    simp only [Prog.ret_bind]
    split
    · trivial
    · refine ⟨entitled_load _ _ _, fun owner => ?_⟩
      simp only [Prog.ret_bind]
      split
      · exact ⟨entitled_store _ _ _ _, fun _ => trivial⟩
      · exact ⟨entitled_store _ _ _ _, fun _ => ⟨entitled_store _ _ _ _, fun _ =>
          ⟨entitled_store _ _ _ _, fun _ => ⟨entitled_store _ _ _ _, fun _ => trivial⟩⟩⟩⟩
  | lookupStream port | lookupTcb port =>
    refine ⟨entitled_load _ _ _, fun state => ?_⟩
    simp only [Prog.ret_bind]
    split
    · exact ⟨entitled_load _ _ _, fun _ => trivial⟩
    · trivial

/-- A port is staged by processes only that are in a call that changes it. -/
structure Attributed (cfg : routerMachine.Config) : Prop where
  within : ∀ i c p, cfg.thread i = some (c, p) → ∃ n, p.Within (Entitled c) (fun _ => True) n
  changes : ∀ port i c p, cfg.shared.stager port = some i → cfg.thread i = some (c, p) →
    RouterCall.Changes port c

theorem attributed_settle {cfg : routerMachine.Config} (h : Attributed cfg) {i n : Nat} {c : RouterCall}
    {p : PortProg UInt64} (hp : p.Within (Entitled c) (fun _ => True) n) {after : Router}
    (hother : ∀ port j, j ≠ i → after.stager port = some j → cfg.shared.stager port = some j)
    (hself : ∀ port, after.stager port = some i → c.Changes port) :
    Attributed (Machine.settle cfg i c p cfg.shared after) := by
  cases p with
  | ret a =>
    -- the thread is idle again
    have hthread : ∀ j c' p', Function.update cfg.thread i none j = some (c', p') →
        j ≠ i ∧ cfg.thread j = some (c', p') := by
      intro j c' p' hj
      by_cases heq : j = i
      · rw [heq, Function.update_self] at hj
        cases hj
      · exact ⟨heq, by rwa [Function.update_of_ne heq] at hj⟩
    refine ⟨?_, ?_⟩
    · intro j c' p' hj
      exact h.within j c' p' (hthread j c' p' hj).2
    · intro port j c' p' hstager hj
      obtain ⟨hne, hj⟩ := hthread j c' p' hj
      exact h.changes port j c' p' (hother port j hne hstager) hj
  | op o k =>
    refine ⟨?_, ?_⟩
    · intro j c' p' hj
      by_cases heq : j = i
      · subst heq
        change Function.update cfg.thread j _ j = _ at hj
        rw [Function.update_self] at hj
        cases hj
        exact ⟨n, hp⟩
      · change Function.update cfg.thread i _ j = _ at hj
        rw [Function.update_of_ne heq] at hj
        exact h.within j c' p' hj
    · intro port j c' p' hstager hj
      by_cases heq : j = i
      · subst heq
        change Function.update cfg.thread j _ j = _ at hj
        rw [Function.update_self] at hj
        cases hj
        exact hself port hstager
      · change Function.update cfg.thread i _ j = _ at hj
        rw [Function.update_of_ne heq] at hj
        exact h.changes port j c' p' (hother port j heq hstager) hj

theorem stager_step {i j : Nat} {c : RouterCall} {o : PortOp} {s : Router} {port : UInt16}
    (h : (routerMachine.step i c o s).2.stager port = some j) :
    s.stager port = some j ∨ (j = i ∧ ∃ expected desired, o = .cas port expected desired) := by
  change Function.update s.stager o.port (stagerAfter i s.table (s.stager o.port) o) port = some j at h
  by_cases heq : port = o.port
  · rw [heq, Function.update_self] at h
    cases o with
    | load port' f =>
      rw [heq]
      exact .inl h
    | store port' f v =>
      cases f with
      | state => cases h
      | stream | tcb | owner =>
        rw [heq]
        exact .inl h
    | cas port' expected desired =>
      unfold stagerAfter at h
      dsimp only at h
      split at h
      · rw [heq]
        exact .inr ⟨(Option.some_inj.mp h).symm, expected, desired, rfl⟩
      · rw [heq]
        exact .inl h
  · rw [Function.update_of_ne heq] at h
    exact .inl h

theorem attributed_exec {cfg : routerMachine.Config} (h : Attributed cfg)
    (hok : routerProtocol.ConfigOk cfg) (e : routerMachine.Event) : Attributed (Machine.exec cfg e) := by
  cases e with
  | call i c =>
    cases hthread : cfg.thread i with
    | some cp =>
      rw [Machine.exec_call_of_busy hthread]
      exact h
    | none =>
      rw [Machine.exec_call_of_idle hthread]
      have hidle := hok.2 i
      unfold Protocol.ThreadOk at hidle
      rw [hthread] at hidle
      exact attributed_settle h (within_body c) (fun _ _ _ hj => hj) fun port hport =>
        absurd hport (hidle port)
  | step i =>
    cases hthread : cfg.thread i with
    | none =>
      rw [Machine.exec_step_of_idle hthread]
      exact h
    | some cp =>
      obtain ⟨c, p⟩ := cp
      obtain ⟨n, hp⟩ := h.within i c p hthread
      cases p with
      | ret a =>
        simp only [Machine.exec, hthread]
        exact h
      | op o k =>
        rw [Machine.exec_step_of_op hthread]
        cases n with
        | zero => exact hp.elim
        | succ n =>
          apply attributed_settle h (hp.2 _)
          · intro port j hne hj
            obtain hj | ⟨rfl, -⟩ := stager_step hj
            · exact hj
            · exact absurd rfl hne
          · intro port hport
            obtain hport | ⟨-, expected, desired, rfl⟩ := stager_step hport
            · exact h.changes port i c _ hport hthread
            · exact hp.1 port expected desired rfl

/-! ### The law -/

/-- **Port bindings are exclusive**, for any number of processes and in every interleaving of the accesses. -/
theorem portLaw_run (events : List routerMachine.Event) (port : UInt16) :
    PortLaw port (runOps Machine.exec (Machine.start Router.init) events) := by
  -- The invariant holds in every state, and a staged port is the work of a running call.
  have hrun : routerProtocol.ConfigOk (runOps Machine.exec (Machine.start Router.init) events) ∧
      Attributed (runOps Machine.exec (Machine.start Router.init) events) := by
    apply runOps_invariant (I := fun cfg => routerProtocol.ConfigOk cfg ∧ Attributed cfg)
    · rintro cfg e ⟨hok, hattributed⟩
      refine ⟨Protocol.configOk_exec routerProtocol_verified hok e ?_, attributed_exec hattributed hok e⟩
      cases e with
      | call i c => trivial
      | step i =>
        unfold Protocol.Allowed Protocol.NextAllowed
        dsimp only
        split
        · trivial
        · trivial
    · refine ⟨⟨routerOk_init, fun i port hport => by cases hport⟩, ?_, ?_⟩
      · intro i c p hthread
        cases hthread
      · intro port i c p hstager
        cases hstager
  obtain ⟨⟨hinv, hthreads⟩, hattributed⟩ := hrun
  generalize runOps Machine.exec (Machine.start Router.init) events = cfg at hinv hthreads hattributed ⊢
  refine ⟨?_, ?_, hinv.released port, ?_, ?_, ?_⟩
  · intro before b mid b' after hlog
    have hlegal := hinv.legal port
    rw [hlog] at hlegal
    exact hlegal.released_between
  · intro before callerPid after hlog
    have hlegal := hinv.legal port
    rw [hlog] at hlegal
    exact hlegal.owner_of_released
  -- Without a running call nothing is staged, so the port is in its settled state.
  · intro hquiet f
    have hnone : cfg.shared.stager port = none := by
      cases hstager : cfg.shared.stager port with
      | none => rfl
      | some i =>
        have hi := hthreads i
        unfold Protocol.ThreadOk at hi
        cases hthread : cfg.thread i with
        | none =>
          rw [hthread] at hi
          exact absurd hstager (hi port)
        | some cp =>
          obtain ⟨c, p⟩ := cp
          exact absurd (hattributed.changes port i c p hstager hthread) (hquiet i c p hthread)
    rw [hinv.settled port hnone]
  · intro v hv
    exact hinv.answered _ hv
  · intro v hv
    exact hinv.answered _ hv

end Keuos.Netd
