import Keuos.Ipc.Mailbox
import Keuos.Ipc.Equiv.Mailbox

/-!
# When a receiver wakes up

A full mailbox of a blocked receiver is in order as long as a sender that has won a compare-and-swap has not
returned (`Answered`).  A sender that has won the one on the state stores a state other than IPC_BLOCKED last.
The other two stores that can break the invariant are the receiver's, which blocks, and that of a sender that
fills the mailbox.  Both have checked before that they may, but the code does not make sure that it is still
true, so the runs are restricted to the `Wakeful` ones.
-/

namespace Keuos.Ipc

/-- A full mailbox of a blocked receiver is answered for. -/
def Answered (r : Fin 64) (s : Bedroom) : Prop :=
  MailWaits r s.table → ∃ i, s.stage i ≠ .idle

/-- The protocol of a sleeping receiver: a sender keeps its stage to itself. -/
def wakeProtocol (r : Fin 64) : Protocol (wakeMachine r) where
  Inv := Answered r
  Rely
    | .sender i => fun s s' => s'.stage i = s.stage i
    | .receiver => fun _ _ => True
  Idle
    | .sender i => fun s => s.stage i = .idle
    | .receiver => fun _ => True
  Guard := Wakeful r
  rely_refl := by
    rintro (i | _) s
    · rfl
    · trivial
  rely_trans := by
    rintro (i | _) s₁ s₂ s₃ h k
    · exact Eq.trans k h
    · trivial
  idle_stable := by
    rintro (i | _) s s' h hr
    · exact Eq.trans hr h
    · trivial

instance (r : Fin 64) (p : Party) (c : (wakeMachine r).Call p) (o : PcbOp) (s : Bedroom) :
    Decidable ((wakeProtocol r).Guard p c o s) :=
  inferInstanceAs (Decidable (Wakeful r p c o s))

/-! ### Senders -/

section Sender

variable {r i : Fin 64} {c : Payload} {α : Type} {Q : α → Bedroom → Bedroom → Prop}

/-- What must hold of the program that is left of a send. -/
abbrev WakeWp {α : Type} (r i : Fin 64) (c : Payload) (p : PcbProg α)
    (Q : α → Bedroom → Bedroom → Prop) (s s₁ : Bedroom) : Prop :=
  (wakeProtocol r).wp (i := .sender i) c p Q s s₁

theorem stage_stable (i : Fin 64) (stage : Stage) :
    (wakeProtocol r).Stable (.sender i) fun s => s.stage i = stage := by
  intro s s' _ hr hK
  exact Eq.trans hr hK

theorem guar_of_stage {s s' : Bedroom} (h : ∀ j, j ≠ i → s'.stage j = s.stage j) :
    (wakeProtocol r).Guar (.sender i) s s' := by
  rintro (j | _) hj
  · exact h j fun heq => hj (heq ▸ rfl)
  · trivial

theorem guar_step (c : Payload) (o : PcbOp) (s : Bedroom) :
    (wakeProtocol r).Guar (.sender i) s ((wakeMachine r).step (.sender i) c o s).2 :=
  guar_of_stage fun _ hj => Function.update_of_ne hj _ _

theorem stage_step (c : Payload) (o : PcbOp) (s : Bedroom) :
    ((wakeMachine r).step (.sender i) c o s).2.stage i = (s.stage i).after r s.table o :=
  Function.update_self ..

theorem answered_of_busy {s : Bedroom} (h : s.stage i ≠ .idle) : Answered r s :=
  fun _ => ⟨i, h⟩

/-- The rule for an operation that leaves the stage alone, by a sender that has won. -/
theorem wp_busy {stage : Stage} (hstage : stage ≠ .idle) {o : PcbOp}
    (ho : ∀ t, stage.after r t o = stage) {k : UInt64 → PcbProg α}
    (hnext : ∀ v s s', (wakeProtocol r).Guar (.sender i) s s' → s'.stage i = stage →
      WakeWp r i c (k v) Q s s')
    {s s₁ : Bedroom} (hguar : (wakeProtocol r).Guar (.sender i) s s₁) (hK : s₁.stage i = stage) :
    WakeWp r i c (.op o k) Q s s₁ := by
  have hinv : Answered r s₁ := answered_of_busy (hK ▸ hstage)
  refine Protocol.wp_op (stage_stable i stage) ?_ hinv hguar hK
  intro s₂ _ hK₂ _
  apply hnext _ s₂ _ (guar_step c o s₂)
  rw [stage_step, hK₂, ho]

theorem wp_idleLoad {slot : UInt64} {f : Field} {k : UInt64 → PcbProg α}
    (hnext : ∀ v s s', Answered r s' → (wakeProtocol r).Guar (.sender i) s s' → s'.stage i = .idle →
      WakeWp r i c (k v) Q s s')
    {s s₁ : Bedroom} (h : Answered r s₁) (hguar : (wakeProtocol r).Guar (.sender i) s s₁)
    (hK : s₁.stage i = .idle) : WakeWp r i c ((load slot f).bind k) Q s s₁ := by
  refine Protocol.wp_op (stage_stable i .idle) ?_ h hguar hK
  intro s₂ h₂ hK₂ _
  have hsame : ((wakeMachine r).step (.sender i) c (.load slot f) s₂).2 = s₂ := by
    show Bedroom.mk s₂.table (Function.update s₂.stage i (s₂.stage i)) = s₂
    rw [Function.update_eq_self]
  apply hnext _ s₂ _
  · rwa [hsame]
  · exact guar_step c _ s₂
  · rwa [hsame]

theorem wp_idleCas {f : Field} {expected desired : UInt64} {k : UInt64 → PcbProg α}
    (hwin : ∀ s s', (wakeProtocol r).Guar (.sender i) s s' →
      s'.stage i = (if f = .state then .handOff else .locked) → WakeWp r i c (k expected) Q s s')
    (hlose : ∀ v s s', v ≠ expected → Answered r s' → (wakeProtocol r).Guar (.sender i) s s' →
      s'.stage i = .idle → WakeWp r i c (k v) Q s s')
    {s s₁ : Bedroom} (h : Answered r s₁) (hguar : (wakeProtocol r).Guar (.sender i) s s₁)
    (hK : s₁.stage i = .idle) :
    WakeWp r i c ((smpCas (slotOf r) f expected desired).bind k) Q s s₁ := by
  refine Protocol.wp_op (stage_stable i .idle) ?_ h hguar hK
  intro s₂ h₂ hK₂ _
  have hstage := stage_step (r := r) (i := i) c (.cas (slotOf r) f expected desired) s₂
  unfold Stage.after at hstage
  dsimp only at hstage
  by_cases heq : s₂.table (slotOf r) f = expected
  · rw [if_pos ⟨rfl, heq⟩] at hstage
    show WakeWp r i c (k (s₂.table (slotOf r) f)) Q s₂ _
    rw [heq]
    exact hwin s₂ _ (guar_step c _ s₂) hstage
  · rw [if_neg fun hboth => heq hboth.2, hK₂] at hstage
    apply hlose _ s₂ _ heq _ (guar_step c _ s₂) hstage
    -- the table and the stages are as they were
    have hsame : ((wakeMachine r).step (.sender i) c (.cas (slotOf r) f expected desired) s₂).2 =
        s₂ := by
      show Bedroom.mk (if s₂.table (slotOf r) f = expected then _ else s₂.table)
        (Function.update s₂.stage i ((s₂.stage i).after r s₂.table _)) = s₂
      rw [if_neg heq]
      unfold Stage.after
      dsimp only
      rw [if_neg fun hboth => heq hboth.2, Function.update_eq_self]
    rwa [hsame]

theorem done_send {a : UInt64} {s s₁ : Bedroom} (hguar : (wakeProtocol r).Guar (.sender i) s s₁)
    (h : MailWaits r s₁.table → ∃ j, j ≠ i ∧ s₁.stage j ≠ .idle) :
    (wakeProtocol r).Done (i := .sender i) c a s s₁ := by
  refine ⟨?_, ?_, ?_⟩
  · intro hmail
    obtain ⟨j, hj, hstage⟩ := h hmail
    refine ⟨j, ?_⟩
    show Function.update s₁.stage i Stage.idle j ≠ .idle
    rwa [Function.update_of_ne hj]
  · apply guar_of_stage
    intro j hj
    have hsame : s₁.stage j = s.stage j := hguar (.sender j) fun heq => hj (Party.sender.inj heq)
    show Function.update s₁.stage i Stage.idle j = _
    rw [Function.update_of_ne hj, hsame]
  · exact Function.update_self ..

theorem done_idle {a : UInt64} {s s₁ : Bedroom} (h : Answered r s₁)
    (hguar : (wakeProtocol r).Guar (.sender i) s s₁) (hK : s₁.stage i = .idle) :
    (wakeProtocol r).Done (i := .sender i) c a s s₁ := by
  apply done_send hguar
  intro hmail
  obtain ⟨j, hj⟩ := h hmail
  refine ⟨j, ?_, hj⟩
  rintro rfl
  exact hj hK

theorem wp_busyWord {stage : Stage} (hstage : stage ≠ .idle) {slot : UInt64} {f : Field} {v : UInt64}
    {k : Unit → PcbProg α}
    (hnext : ∀ s s', (wakeProtocol r).Guar (.sender i) s s' → s'.stage i = stage →
      WakeWp r i c (k ()) Q s s')
    {s s₁ : Bedroom} (hguar : (wakeProtocol r).Guar (.sender i) s s₁) (hK : s₁.stage i = stage) :
    WakeWp r i c ((store slot f v).bind k) Q s s₁ :=
  wp_busy (o := .store slot f v) hstage (fun _ => rfl) (fun _ => hnext) hguar hK

/-- **The hand-off wakes the receiver**: the last store makes it run. -/
theorem wp_wake {s s₁ : Bedroom} (hguar : (wakeProtocol r).Guar (.sender i) s s₁)
    (hK : s₁.stage i = .handOff) :
    WakeWp r i c ((store (slotOf r) .state procRunning).bind fun _ => .ret (0 : UInt64))
      ((wakeProtocol r).Done (i := .sender i) c) s s₁ := by
  have hinv : Answered r s₁ := answered_of_busy (i := i) (by rw [hK]; exact Stage.noConfusion)
  refine Protocol.wp_op (stage_stable i .handOff) ?_ hinv hguar hK
  intro s₂ _ _ _
  apply done_send (guar_step c _ s₂)
  rintro ⟨hblocked, -⟩
  have hrun : ((wakeMachine r).step (.sender i) c (.store (slotOf r) .state procRunning) s₂).2.table
      (slotOf r) .state = procRunning := ProcTable.set_self ..
  rw [hrun] at hblocked
  exact absurd hblocked (by decide)

/-- **The locked mailbox is filled** only as the condition allows. -/
theorem wp_fill {v : UInt64} {s s₁ : Bedroom} (hguar : (wakeProtocol r).Guar (.sender i) s s₁)
    (hK : s₁.stage i = .locked) :
    WakeWp r i c ((store (slotOf r) .sender v).bind fun _ => .ret (0 : UInt64))
      ((wakeProtocol r).Done (i := .sender i) c) s s₁ := by
  have hinv : Answered r s₁ := answered_of_busy (i := i) (by rw [hK]; exact Stage.noConfusion)
  refine Protocol.wp_op (stage_stable i .locked) ?_ hinv hguar hK
  intro s₂ _ hK₂ hguard
  apply done_send (guar_step c _ s₂)
  intro hmail
  obtain ⟨j, hj, hstage⟩ := hguard hK₂ hmail
  refine ⟨j, hj, ?_⟩
  show Function.update s₂.stage i _ j ≠ .idle
  rwa [Function.update_of_ne hj]

theorem wakeWp_bind {β : Type} (p : PcbProg β) (q : β → PcbProg α) (s s₁ : Bedroom) :
    WakeWp r i c (p.bind q) Q s s₁ ↔
      WakeWp r i c p (fun a s s₁ => WakeWp r i c (q a) Q s s₁) s s₁ :=
  Protocol.wp_bind ..

theorem wp_handOff {current : UInt64} {s s₁ : Bedroom}
    (hguar : (wakeProtocol r).Guar (.sender i) s s₁) (hK : s₁.stage i = .handOff) :
    WakeWp r i c ((switchToProcess current (slotOf r)).bind fun _ => .ret (0 : UInt64))
      ((wakeProtocol r).Done (i := .sender i) c) s s₁ := by
  have hbusy : Stage.handOff ≠ .idle := Stage.noConfusion
  apply (wakeWp_bind _ _ s s₁).mpr
  refine wp_busy (o := .load current .state) hbusy (fun _ => rfl) ?_ hguar hK
  intro v s s' hguar hK
  show WakeWp r i c (if (v == procRunning) = true then _ else _) _ s s'
  by_cases hrun : (v == procRunning) = true
  · rw [if_pos hrun]
    refine wp_busyWord (k := fun _ => _) hbusy ?_ hguar hK
    intro s s' hguar hK
    exact wp_wake hguar hK
  · rw [if_neg hrun]
    exact wp_wake hguar hK

/-- **Every send keeps the protocol.** -/
theorem wakeWp_sysIpcSend (c : Payload) {s : Bedroom} (h : Answered r s) (hidle : s.stage i = .idle) :
    WakeWp r i c (sysIpcSend (slotOf r) (c.msg i)) ((wakeProtocol r).Done (i := .sender i) c) s s := by
  have hguar := Protocol.guar_refl (P := wakeProtocol r) (.sender i) s
  unfold sysIpcSend
  by_cases hrange : slotOf r ≥ maxProcs
  · rw [if_pos hrange]
    exact done_idle h hguar hidle
  rw [if_neg hrange]
  refine wp_idleLoad ?_ h hguar hidle
  intro v s s' h hguar hK
  by_cases hfree : (v == procFree) = true
  · rw [if_pos hfree]
    exact done_idle h hguar hK
  rw [if_neg hfree]
  refine wp_idleCas ?_ ?_ h hguar hK
  · -- the hand-off: the message, the sender's own state, and last the receiver's
    intro s s' hguar hK
    rw [if_pos rfl] at hK
    rw [if_pos (by decide)]
    have hbusy : Stage.handOff ≠ .idle := Stage.noConfusion
    refine wp_busyWord (k := fun _ => _) hbusy ?_ hguar hK
    intro s s' hguar hK
    refine wp_busyWord (k := fun _ => _) hbusy ?_ hguar hK
    intro s s' hguar hK
    refine wp_busyWord (k := fun _ => _) hbusy ?_ hguar hK
    intro s s' hguar hK
    refine wp_busyWord (k := fun _ => _) hbusy ?_ hguar hK
    intro s s' hguar hK
    exact wp_handOff hguar hK
  · intro v s s' hv h hguar hK
    rw [if_neg (by simpa using hv)]
    refine wp_idleCas ?_ ?_ h hguar hK
    · -- the locked mailbox: the message, and last the sender field
      intro s s' hguar hK
      rw [if_neg (by decide)] at hK
      rw [if_pos (by decide)]
      have hbusy : Stage.locked ≠ .idle := Stage.noConfusion
      refine wp_busyWord (k := fun _ => _) hbusy ?_ hguar hK
      intro s s' hguar hK
      refine wp_busyWord (k := fun _ => _) hbusy ?_ hguar hK
      intro s s' hguar hK
      refine wp_busyWord (k := fun _ => _) hbusy ?_ hguar hK
      intro s s' hguar hK
      exact wp_fill hguar hK
    · intro v s s' hv h hguar hK
      rw [if_neg (by simpa using hv)]
      exact done_idle h hguar hK

end Sender

/-! ### The receiver -/

section Receiver

variable {r : Fin 64} {α : Type} {Q : α → Bedroom → Bedroom → Prop}

/-- What must hold of the program that is left of a receive. -/
abbrev SleepWp {α : Type} (r : Fin 64) (p : PcbProg α) (Q : α → Bedroom → Bedroom → Prop)
    (s s₁ : Bedroom) : Prop :=
  (wakeProtocol r).wp (i := .receiver) () p Q s s₁

theorem guar_of_receiver {s s' : Bedroom} (h : s'.stage = s.stage) :
    (wakeProtocol r).Guar .receiver s s' := by
  rintro (j | _) hj
  · exact congrFun h j
  · exact absurd rfl hj

theorem wp_recvOp {o : PcbOp}
    (ho : ∀ s, Answered r s → Wakeful r .receiver () o s → Answered r ⟨(o.sem s.table).2, s.stage⟩)
    {k : UInt64 → PcbProg α}
    (hnext : ∀ v s s', Answered r s' → (wakeProtocol r).Guar .receiver s s' → SleepWp r (k v) Q s s')
    {s s₁ : Bedroom} (h : Answered r s₁) (hguar : (wakeProtocol r).Guar .receiver s s₁) :
    SleepWp r (.op o k) Q s s₁ := by
  refine Protocol.wp_op (K := fun _ => True) (fun _ _ _ _ _ => trivial) ?_ h hguar trivial
  intro s₂ h₂ _ hguard
  exact hnext _ s₂ _ (ho s₂ h₂ hguard) (guar_of_receiver rfl)

theorem wp_recvRead {slot : UInt64} {f : Field} {k : UInt64 → PcbProg α}
    (hnext : ∀ v s s', Answered r s' → (wakeProtocol r).Guar .receiver s s' → SleepWp r (k v) Q s s')
    {s s₁ : Bedroom} (h : Answered r s₁) (hguar : (wakeProtocol r).Guar .receiver s s₁) :
    SleepWp r ((load slot f).bind k) Q s s₁ :=
  wp_recvOp (o := .load slot f) (fun _ hs _ => hs) hnext h hguar

theorem wp_recvClear {f : Field} (hf : f ≠ .state) {k : Unit → PcbProg α}
    (hnext : ∀ s s', Answered r s' → (wakeProtocol r).Guar .receiver s s' →
      SleepWp r (k ()) Q s s')
    {s s₁ : Bedroom} (h : Answered r s₁) (hguar : (wakeProtocol r).Guar .receiver s s₁) :
    SleepWp r ((store (slotOf r) f 0).bind k) Q s s₁ := by
  refine wp_recvOp ?_ (fun _ => hnext) h hguar
  rintro s hs - ⟨hblocked, hfull⟩
  have hstate : (s.table.set (slotOf r) f 0) (slotOf r) .state = s.table (slotOf r) .state :=
    ProcTable.set_of_ne _ _ (Ne.symm hf)
  by_cases hsender : Field.sender = f
  · subst hsender
    exact absurd (ProcTable.set_self ..) hfull
  · apply hs
    refine ⟨hstate ▸ hblocked, ?_⟩
    have hkeep : (s.table.set (slotOf r) f 0) (slotOf r) .sender = s.table (slotOf r) .sender :=
      ProcTable.set_of_ne _ _ hsender
    exact hkeep ▸ hfull

theorem sleepWp_takeMessage {sender : UInt64} {s s₁ : Bedroom} (h : Answered r s₁)
    (hguar : (wakeProtocol r).Guar .receiver s s₁) :
    SleepWp r (takeMessage (slotOf r) sender) ((wakeProtocol r).Done (i := .receiver) ()) s s₁ := by
  refine wp_recvRead (fun _ s s' h hguar => ?_) h hguar
  refine wp_recvRead (fun _ s s' h hguar => ?_) h hguar
  refine wp_recvRead (fun _ s s' h hguar => ?_) h hguar
  refine wp_recvClear (k := fun _ => _) (by decide) (fun s s' h hguar => ?_) h hguar
  refine wp_recvClear (k := fun _ => _) (by decide) (fun s s' h hguar => ?_) h hguar
  refine wp_recvClear (k := fun _ => _) (by decide) (fun s s' h hguar => ?_) h hguar
  refine wp_recvClear (k := fun _ => _) (by decide) (fun s s' h hguar => ?_) h hguar
  exact ⟨h, hguar, trivial⟩

/-- **Every receive keeps the protocol.** -/
theorem sleepWp_sysIpcRecv {s : Bedroom} (h : Answered r s) :
    SleepWp r (sysIpcRecv (slotOf r)) ((wakeProtocol r).Done (i := .receiver) ()) s s := by
  refine wp_recvRead ?_ h (Protocol.guar_refl _ s)
  intro v s s' h hguar
  by_cases hzero : (v != 0) = true
  · rw [if_pos hzero]
    exact sleepWp_takeMessage h hguar
  rw [if_neg hzero]
  -- the condition is on the store that blocks
  refine wp_recvOp (o := .store (slotOf r) .state procIpcBlocked) (fun _ _ hguard => hguard) ?_ h hguar
  intro _ s s' h hguar
  refine wp_recvOp (o := .yield) (fun _ hs _ => hs) ?_ h hguar
  intro _ s s' h hguar
  refine wp_recvRead ?_ h hguar
  intro sender s s' h hguar
  exact sleepWp_takeMessage h hguar

end Receiver

/-! ### Runs -/

theorem wake_verified (r : Fin 64) : (wakeProtocol r).Verified := by
  rintro (i | _) c s h hidle
  · exact wakeWp_sysIpcSend c h hidle
  · exact sleepWp_sysIpcRecv h

/-- **Nobody oversleeps in a wakeful run**: in every interleaving of any sends to a process and its receives
in which every step is `Wakeful`, there is no state in which all senders have returned and the receiver is
blocked with mail. -/
theorem not_overslept_of_wakeful (r : Fin 64) (t : ProcTable) (ht : ¬ MailWaits r t)
    (events : List (wakeMachine r).Event)
    (hwakeful : Admissible Machine.exec (wakeProtocol r).Allowed
      (Machine.start (Bedroom.init t)) events) :
    ¬ Overslept r (runOps Machine.exec (Machine.start (Bedroom.init t)) events) := by
  have hidle : ∀ p, (wakeProtocol r).Idle p (Bedroom.init t) := by
    rintro (i | _)
    · rfl
    · trivial
  obtain ⟨hinv, hthreads⟩ : (wakeProtocol r).ConfigOk
      (runOps Machine.exec (Machine.start (Bedroom.init t)) events) :=
    Protocol.configOk_run (wake_verified r) (fun hmail => absurd hmail ht) hidle hwakeful
  rintro ⟨hreturned, -, hmail⟩
  obtain ⟨i, hi⟩ := hinv hmail
  have hsender := hthreads (.sender i)
  unfold Protocol.ThreadOk at hsender
  rw [hreturned i] at hsender
  exact hi hsender

local instance neZero_procs : NeZero 64 := ⟨by decide⟩

/-- Process 2 blocks, process 1 sends to it, and process 2 takes the message. -/
def blockThenSend : List (wakeMachine 2).Event :=
  .call .receiver () :: List.replicate 2 (.step .receiver) ++
    .call (.sender 1) (Payload.mk 10 20 30) :: List.replicate 9 (.step (.sender 1)) ++
    List.replicate 9 (.step .receiver)

theorem not_overslept_blockThenSend :
    Admissible Machine.exec (wakeProtocol 2).Allowed
        (Machine.start (Bedroom.init runningTable)) blockThenSend ∧
      ¬ Overslept 2 (runOps Machine.exec (Machine.start (Bedroom.init runningTable)) blockThenSend) := by
  have hwakeful : Admissible Machine.exec (wakeProtocol 2).Allowed
      (Machine.start (Bedroom.init runningTable)) blockThenSend := by
    decide +kernel
  exact ⟨hwakeful, not_overslept_of_wakeful 2 runningTable (by decide) blockThenSend hwakeful⟩

/-- Process 1 fills the mailbox of process 2 after process 2 has found it empty and before it blocks. -/
def sendBeforeBlock : List (wakeMachine 2).Event :=
  .call .receiver () :: .step .receiver ::
    .call (.sender 1) (Payload.mk 10 20 30) :: List.replicate 7 (.step (.sender 1)) ++
    [.step .receiver]

/-- **The wakeup is lost.** -/
theorem overslept_of_sendBeforeBlock :
    ¬ ∀ (r : Fin 64) (t : ProcTable) (events : List (wakeMachine r).Event), ¬ MailWaits r t →
      ¬ Overslept r (runOps Machine.exec (Machine.start (Bedroom.init t)) events) := by
  intro h
  apply h 2 runningTable sendBeforeBlock (by decide)
  refine ⟨?_, ⟨_, rfl⟩, ?_⟩
  · decide +kernel
  · decide +kernel

end Keuos.Ipc
