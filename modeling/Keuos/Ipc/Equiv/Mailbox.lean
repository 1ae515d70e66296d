import Keuos.Ipc.Mailbox

/-!
# When the mailbox delivers

`MailOk` ties the control block of the receiver to the state of its mailbox.  A sender that has won a
compare-and-swap relies on the others to leave the mail fields alone while it writes them, and the
receiver relies on them to leave a message alone until it has cleared it (`ipcProtocol`).  Nothing in
the code makes sure of that, so the protocol is kept only by the runs whose steps are `Exclusive`.
-/

namespace Keuos.Ipc

/-! ### The process table -/

theorem ProcTable.set_self (t : ProcTable) (slot : UInt64) (f : Field) (v : UInt64) :
    t.set slot f v slot f = v :=
  if_pos ⟨rfl, rfl⟩

theorem ProcTable.set_of_ne (t : ProcTable) {slot slot' : UInt64} {f f' : Field} (v : UInt64)
    (h : f' ≠ f) : t.set slot f v slot' f' = t slot' f' :=
  if_neg fun heq => h heq.2

/-! ### The protocol -/

/-- What the control block of the receiver holds in a state of its mailbox. -/
def MailHolds (r : Fin 64) (s : Mailbox) : Mail → Prop
  | .empty => s.table (slotOf r) .sender = 0
  | .writing _ => s.table (slotOf r) .sender = 0 ∨ s.table (slotOf r) .sender = mailboxLock
  | .full m => s.Holds r m
  | .taken m => s.table (slotOf r) .sender = m.sender

/-- The invariant: the mailbox is in order, and the messages are accounted for. -/
structure MailOk (r : Fin 64) (s : Mailbox) : Prop where
  holds : MailHolds r s s.mail
  account : s.published = s.delivered ++ s.mail.pending
  slots : ∀ m ∈ s.published, ∃ i : Fin 64, m.sender = slotOf i
  returned : ∀ i, sentBy i s.succeeded <+: sentBy i s.published

/-- What a sender relies on: its own messages are its own, and while it writes the mail fields nobody
else does. -/
structure SendRely (r i : Fin 64) (s s' : Mailbox) : Prop where
  published : sentBy i s'.published = sentBy i s.published
  succeeded : sentBy i s'.succeeded = sentBy i s.succeeded
  mail : s'.mail = .writing i ↔ s.mail = .writing i
  words : s.mail = .writing i → ∀ f, f ≠ .state → s'.table (slotOf r) f = s.table (slotOf r) f

/-- What the receiver relies on: a message stays until it has taken it. -/
structure RecvRely (s s' : Mailbox) : Prop where
  delivered : s'.delivered = s.delivered
  armed : s'.armed = s.armed
  full : ∀ m, s.mail = .full m → s'.mail = .full m
  taken : ∀ m, s'.mail = .taken m ↔ s.mail = .taken m

/-- The protocol of the mailbox. -/
def ipcProtocol (r : Fin 64) : Protocol (ipcMachine r) where
  Inv := MailOk r
  Rely
    | .sender i => SendRely r i
    | .receiver => RecvRely
  Idle
    | .sender i => fun s => s.mail ≠ .writing i ∧ sentBy i s.succeeded = sentBy i s.published
    | .receiver => fun s => s.armed = false ∧ ∀ m, s.mail ≠ .taken m
  Guard := Exclusive r
  rely_refl := by
    rintro (i | _) s
    · exact ⟨rfl, rfl, Iff.rfl, fun _ _ _ => rfl⟩
    · exact ⟨rfl, rfl, fun _ h => h, fun _ => Iff.rfl⟩
  rely_trans := by
    rintro (i | _) s₁ s₂ s₃ h k
    · refine ⟨k.published.trans h.published, k.succeeded.trans h.succeeded, k.mail.trans h.mail, ?_⟩
      intro hmail f hf
      rw [k.words (h.mail.mpr hmail) f hf, h.words hmail f hf]
    · exact ⟨k.delivered.trans h.delivered, k.armed.trans h.armed,
        fun m hm => k.full m (h.full m hm), fun m => (k.taken m).trans (h.taken m)⟩
  idle_stable := by
    rintro (i | _) s s' h hr
    · refine ⟨fun hmail => h.1 (hr.mail.mp hmail), ?_⟩
      rw [hr.succeeded, hr.published, h.2]
    · refine ⟨hr.armed.trans h.1, ?_⟩
      intro m hm
      exact h.2 m ((hr.taken m).mp hm)

instance (r : Fin 64) (p : Party) (c : (ipcMachine r).Call p) (o : PcbOp) (s : Mailbox) :
    Decidable ((ipcProtocol r).Guard p c o s) :=
  inferInstanceAs (Decidable (Exclusive r p c o s))

/-! ### Steps -/

section Steps

variable {r : Fin 64}

/-- A step that leaves the mail fields of the receiver and the accounts alone. -/
structure Frame (r : Fin 64) (s s' : Mailbox) : Prop where
  fields : ∀ f, f ≠ .state → s'.table (slotOf r) f = s.table (slotOf r) f
  mail : s'.mail = s.mail
  published : s'.published = s.published
  delivered : s'.delivered = s.delivered
  succeeded : s'.succeeded = s.succeeded

theorem Frame.holds {s s' : Mailbox} (h : Frame r s s') {mail : Mail}
    (hmail : MailHolds r s mail) : MailHolds r s' mail := by
  have hsender := h.fields .sender (by decide)
  cases mail with
  | empty => exact hsender.trans hmail
  | writing i =>
    unfold MailHolds
    rw [hsender]
    exact hmail
  | full m =>
    obtain ⟨h₁, h₂, h₃, h₄⟩ := hmail
    exact ⟨hsender.trans h₁, (h.fields .msg0 (by decide)).trans h₂,
      (h.fields .msg1 (by decide)).trans h₃, (h.fields .msg2 (by decide)).trans h₄⟩
  | taken m => exact hsender.trans hmail

theorem Frame.mailOk {s s' : Mailbox} (h : Frame r s s') (hok : MailOk r s) : MailOk r s' := by
  refine ⟨?_, ?_, ?_, ?_⟩
  · rw [h.mail]
    exact h.holds hok.holds
  · rw [h.published, h.delivered, h.mail]
    exact hok.account
  · rw [h.published]
    exact hok.slots
  · rw [h.published, h.succeeded]
    exact hok.returned

theorem Frame.sendRely {s s' : Mailbox} (h : Frame r s s') (i : Fin 64) : SendRely r i s s' := by
  refine ⟨?_, ?_, ?_, fun _ => h.fields⟩
  · rw [h.published]
  · rw [h.succeeded]
  · rw [h.mail]

theorem Frame.recvRely {s s' : Mailbox} (h : Frame r s s') (harmed : s'.armed = s.armed) :
    RecvRely s s' := by
  refine ⟨h.delivered, harmed, ?_, ?_⟩
  · intro m hm
    rw [h.mail, hm]
  · intro m
    rw [h.mail]

theorem guar_sender {i : Fin 64} {s s' : Mailbox} (hrecv : RecvRely s s')
    (hsend : ∀ j, j ≠ i → SendRely r j s s') : (ipcProtocol r).Guar (.sender i) s s' := by
  intro p hp
  cases p with
  | sender j => exact hsend j fun heq => hp (heq ▸ rfl)
  | receiver => exact hrecv

theorem guar_receiver {s s' : Mailbox} (hsend : ∀ j, SendRely r j s s') :
    (ipcProtocol r).Guar .receiver s s' := by
  intro p hp
  cases p with
  | sender j => exact hsend j
  | receiver => exact absurd rfl hp

end Steps

/-! ### Senders -/

theorem slotOf_toNat (i : Fin 64) : (slotOf i).toNat = i := by
  unfold slotOf
  rw [UInt64.toNat_ofNat', Nat.mod_eq_of_lt]
  have := i.isLt
  omega

theorem slotOf_inj {i j : Fin 64} (h : slotOf i = slotOf j) : i = j := by
  have hnat := congrArg UInt64.toNat h
  rw [slotOf_toNat, slotOf_toNat] at hnat
  exact Fin.ext hnat

theorem sentBy_append (i : Fin 64) (l l' : List Msg) :
    sentBy i (l ++ l') = sentBy i l ++ sentBy i l' :=
  List.filter_append ..

theorem sentBy_self (i : Fin 64) (c : Payload) : sentBy i [c.msg i] = [c.msg i] := by
  simp [sentBy, Payload.msg]

theorem sentBy_of_ne {i j : Fin 64} (h : j ≠ i) (c : Payload) : sentBy j [c.msg i] = [] := by
  have hne : ¬ slotOf i = slotOf j := fun heq => h (slotOf_inj heq).symm
  simp [sentBy, Payload.msg, hne]

/-- What must hold of the program that is left of a send. -/
abbrev SendWp {α : Type} (r i : Fin 64) (c : Payload) (p : PcbProg α)
    (Q : α → Mailbox → Mailbox → Prop) (s s₁ : Mailbox) : Prop :=
  (ipcProtocol r).wp (i := .sender i) c p Q s s₁

section Sender

variable {r i : Fin 64} {c : Payload} {α : Type} {Q : α → Mailbox → Mailbox → Prop}

/-- What a sender knows while it does not have the mail fields: `P` is what it has published and `S`
what its sends that returned 0 carried. -/
structure SendKnows (i : Fin 64) (P S : List Msg) (s : Mailbox) : Prop where
  mail : s.mail ≠ .writing i
  published : sentBy i s.published = P
  succeeded : sentBy i s.succeeded = S

/-- The word of the message that goes into a field. -/
def Payload.word (c : Payload) : Field → UInt64
  | .msg0 => c.msg0
  | .msg1 => c.msg1
  | .msg2 => c.msg2
  | _ => 0

/-- What a sender knows while it has the mail fields: the fields `W` are written. -/
structure Writes (r i : Fin 64) (c : Payload) (W : List Field) (P : List Msg) (s : Mailbox) :
    Prop where
  mail : s.mail = .writing i
  published : sentBy i s.published = P
  succeeded : sentBy i s.succeeded = P
  ne_state : ∀ f ∈ W, f ≠ .state
  words : ∀ f ∈ W, s.table (slotOf r) f = c.word f

theorem SendKnows.stable (P S : List Msg) :
    (ipcProtocol r).Stable (.sender i) (SendKnows i P S) := by
  intro s s' _ hr hK
  exact ⟨fun hmail => hK.mail (hr.mail.mp hmail), hr.published.trans hK.published,
    hr.succeeded.trans hK.succeeded⟩

theorem Writes.stable (W : List Field) (P : List Msg) :
    (ipcProtocol r).Stable (.sender i) (Writes r i c W P) := by
  intro s s' _ hr hK
  refine ⟨hr.mail.mpr hK.mail, hr.published.trans hK.published, hr.succeeded.trans hK.succeeded,
    hK.ne_state, ?_⟩
  intro f hf
  rw [hr.words hK.mail f (hK.ne_state f hf)]
  exact hK.words f hf

theorem wp_sendFrame {P S : List Msg} {o : PcbOp} {k : UInt64 → PcbProg α}
    (hframe : ∀ s, Frame r s ((ipcMachine r).step (.sender i) c o s).2)
    (hnext : ∀ v s s', MailOk r s' → (ipcProtocol r).Guar (.sender i) s s' →
      SendKnows i P S s' → SendWp r i c (k v) Q s s')
    {s s₁ : Mailbox} (h : MailOk r s₁) (hguar : (ipcProtocol r).Guar (.sender i) s s₁)
    (hK : SendKnows i P S s₁) : SendWp r i c (.op o k) Q s s₁ := by
  refine Protocol.wp_op (SendKnows.stable P S) ?_ h hguar hK
  intro s₂ h₂ hK₂ _
  have hf := hframe s₂
  refine hnext _ s₂ _ (hf.mailOk h₂) (guar_sender (hf.recvRely rfl) fun j _ => hf.sendRely j) ?_
  exact ⟨hf.mail ▸ hK₂.mail, hf.published ▸ hK₂.published, hf.succeeded ▸ hK₂.succeeded⟩

theorem frame_load (slot : UInt64) (f : Field) (s : Mailbox) :
    Frame r s ((ipcMachine r).step (.sender i) c (.load slot f) s).2 :=
  ⟨fun _ _ => rfl, rfl, List.append_nil _, rfl, rfl⟩

theorem frame_storeState (slot v : UInt64) (s : Mailbox) :
    Frame r s ((ipcMachine r).step (.sender i) c (.store slot .state v) s).2 := by
  refine ⟨?_, rfl, List.append_nil _, rfl, rfl⟩
  intro f hf
  exact ProcTable.set_of_ne s.table v hf

theorem wp_load {P S : List Msg} {slot : UInt64} {f : Field} {k : UInt64 → PcbProg α}
    (hnext : ∀ v s s', MailOk r s' → (ipcProtocol r).Guar (.sender i) s s' →
      SendKnows i P S s' → SendWp r i c (k v) Q s s')
    {s s₁ : Mailbox} (h : MailOk r s₁) (hguar : (ipcProtocol r).Guar (.sender i) s s₁)
    (hK : SendKnows i P S s₁) : SendWp r i c ((load slot f).bind k) Q s s₁ :=
  wp_sendFrame (frame_load slot f) hnext h hguar hK

theorem wp_storeState {P S : List Msg} {slot v : UInt64} {k : Unit → PcbProg α}
    (hnext : ∀ s s', MailOk r s' → (ipcProtocol r).Guar (.sender i) s s' →
      SendKnows i P S s' → SendWp r i c (k ()) Q s s')
    {s s₁ : Mailbox} (h : MailOk r s₁) (hguar : (ipcProtocol r).Guar (.sender i) s s₁)
    (hK : SendKnows i P S s₁) : SendWp r i c ((store slot .state v).bind k) Q s s₁ :=
  wp_sendFrame (frame_storeState slot v) (fun _ => hnext) h hguar hK

theorem step_cas_win {f : Field} {expected desired : UInt64} {s : Mailbox}
    (h : s.table (slotOf r) f = expected) :
    (ipcMachine r).step (.sender i) c (.cas (slotOf r) f expected desired) s =
      (expected, { s with
        table := s.table.set (slotOf r) f desired
        mail := .writing i }) := by
  simp only [ipcMachine, PcbOp.sem, mailAfterSend, publishes, h, and_self, if_true,
    List.append_nil]

theorem step_cas_lose {f : Field} {expected desired : UInt64} {s : Mailbox}
    (h : s.table (slotOf r) f ≠ expected) :
    (ipcMachine r).step (.sender i) c (.cas (slotOf r) f expected desired) s =
      (s.table (slotOf r) f, s) := by
  simp only [ipcMachine, PcbOp.sem, mailAfterSend, publishes, h, and_false, if_false,
    List.append_nil]

/-- **Winning a compare-and-swap on an empty mailbox** gives the sender the mail fields. -/
theorem MailOk.win {s : Mailbox} (h : MailOk r s) (hempty : s.mail = .empty) {P : List Msg}
    (hK : SendKnows i P P s) {f : Field} {v : UInt64}
    (hf : f = .state ∨ f = .sender ∧ v = mailboxLock) :
    let s' : Mailbox := { s with table := s.table.set (slotOf r) f v, mail := .writing i }
    MailOk r s' ∧ (ipcProtocol r).Guar (.sender i) s s' ∧ Writes r i c [] P s' := by
  intro s'
  have hzero : s.table (slotOf r) .sender = 0 := by
    have := h.holds
    rw [hempty] at this
    exact this
  refine ⟨⟨?_, ?_, h.slots, h.returned⟩, ?_, ⟨rfl, hK.published, hK.succeeded, ?_, ?_⟩⟩
  · show s.table.set (slotOf r) f v (slotOf r) .sender = 0 ∨
      s.table.set (slotOf r) f v (slotOf r) .sender = mailboxLock
    obtain rfl | ⟨rfl, rfl⟩ := hf
    · left
      rw [ProcTable.set_of_ne _ _ (by decide)]
      exact hzero
    · right
      exact ProcTable.set_self ..
  · have := h.account
    rw [hempty] at this
    exact this
  · refine guar_sender ⟨rfl, rfl, ?_, ?_⟩ ?_
    · intro m hm
      rw [hempty] at hm
      exact Mail.noConfusion hm
    · intro m
      rw [hempty]
      exact ⟨Mail.noConfusion, Mail.noConfusion⟩
    · intro j hj
      refine ⟨rfl, rfl, ?_, ?_⟩
      · rw [hempty]
        refine ⟨?_, Mail.noConfusion⟩
        intro heq
        exact absurd (Mail.writing.inj heq).symm hj
      · intro hm
        rw [hempty] at hm
        exact Mail.noConfusion hm
  · intro f hf
    exact absurd hf List.not_mem_nil
  · intro f hf
    exact absurd hf List.not_mem_nil

theorem wp_smpCas {P : List Msg} {f : Field} {expected desired : UInt64}
    {k : UInt64 → PcbProg α} (hf : f = .state ∨ f = .sender ∧ desired = mailboxLock)
    (hwin : ∀ s s', MailOk r s' → (ipcProtocol r).Guar (.sender i) s s' →
      Writes r i c [] P s' → SendWp r i c (k expected) Q s s')
    (hlose : ∀ v s, v ≠ expected → MailOk r s → SendKnows i P P s → SendWp r i c (k v) Q s s)
    {s s₁ : Mailbox} (h : MailOk r s₁) (hguar : (ipcProtocol r).Guar (.sender i) s s₁)
    (hK : SendKnows i P P s₁) :
    SendWp r i c ((smpCas (slotOf r) f expected desired).bind k) Q s s₁ := by
  refine Protocol.wp_op (SendKnows.stable P P) ?_ h hguar hK
  intro s₂ h₂ hK₂ hguard
  by_cases heq : s₂.table (slotOf r) f = expected
  · rw [step_cas_win heq]
    obtain ⟨hok, hguar', hW⟩ := MailOk.win (c := c) h₂ (hguard rfl heq) hK₂ hf
    exact hwin _ _ hok hguar' hW
  · rw [step_cas_lose heq]
    exact hlose _ s₂ heq h₂ hK₂

theorem wp_storeWord {P : List Msg} {W : List Field} {f : Field} {v : UInt64}
    {k : Unit → PcbProg α} (hstate : f ≠ .state) (hsender : f ≠ .sender) (hv : v = c.word f)
    (hnext : ∀ s s', MailOk r s' → (ipcProtocol r).Guar (.sender i) s s' →
      Writes r i c (f :: W) P s' → SendWp r i c (k ()) Q s s')
    {s s₁ : Mailbox} (h : MailOk r s₁) (hguar : (ipcProtocol r).Guar (.sender i) s s₁)
    (hK : Writes r i c W P s₁) :
    SendWp r i c ((store (slotOf r) f v).bind k) Q s s₁ := by
  subst hv
  refine Protocol.wp_op (Writes.stable W P) ?_ h hguar hK
  intro s₂ h₂ hK₂ _
  have hstep : ((ipcMachine r).step (.sender i) c (.store (slotOf r) f (c.word f)) s₂).2 =
      { s₂ with table := s₂.table.set (slotOf r) f (c.word f) } := by
    cases f with
    | state => exact absurd rfl hstate
    | sender => exact absurd rfl hsender
    | msg0 | msg1 | msg2 =>
      simp only [ipcMachine, PcbOp.sem, mailAfterSend, publishes, List.append_nil]
  rw [hstep]
  have hfield : s₂.table.set (slotOf r) f (c.word f) (slotOf r) .sender =
      s₂.table (slotOf r) .sender :=
    ProcTable.set_of_ne _ _ (Ne.symm hsender)
  refine hnext _ _ ⟨?_, h₂.account, h₂.slots, h₂.returned⟩ ?_
    ⟨hK₂.mail, hK₂.published, hK₂.succeeded, ?_, ?_⟩
  · have hholds := h₂.holds
    rw [hK₂.mail] at hholds
    show MailHolds r _ s₂.mail
    rw [hK₂.mail]
    show s₂.table.set (slotOf r) f (c.word f) (slotOf r) .sender = 0 ∨
      s₂.table.set (slotOf r) f (c.word f) (slotOf r) .sender = mailboxLock
    rw [hfield]
    exact hholds
  · refine guar_sender ⟨rfl, rfl, fun _ hm => hm, fun _ => Iff.rfl⟩ ?_
    intro j hj
    refine ⟨rfl, rfl, Iff.rfl, ?_⟩
    intro hm
    rw [hK₂.mail] at hm
    exact absurd (Mail.writing.inj hm).symm hj
  · intro f' hf'
    obtain rfl | hf' := List.mem_cons.mp hf'
    · exact hstate
    · exact hK₂.ne_state f' hf'
  · intro f' hf'
    by_cases heq : f' = f
    · subst heq
      exact ProcTable.set_self ..
    · obtain rfl | hf' := List.mem_cons.mp hf'
      · exact absurd rfl heq
      · show s₂.table.set (slotOf r) f (c.word f) (slotOf r) f' = c.word f'
        rw [ProcTable.set_of_ne _ _ heq]
        exact hK₂.words f' hf'

/-- **The store of the sender field publishes the message.** -/
theorem wp_publishMail {P : List Msg} {k : Unit → PcbProg α}
    (hnext : ∀ s s', MailOk r s' → (ipcProtocol r).Guar (.sender i) s s' →
      SendKnows i (P ++ [c.msg i]) P s' → SendWp r i c (k ()) Q s s')
    {s s₁ : Mailbox} (h : MailOk r s₁) (hguar : (ipcProtocol r).Guar (.sender i) s s₁)
    (hK : Writes r i c [.msg2, .msg1, .msg0] P s₁) :
    SendWp r i c ((store (slotOf r) .sender (slotOf i)).bind k) Q s s₁ := by
  refine Protocol.wp_op (Writes.stable [.msg2, .msg1, .msg0] P) ?_ h hguar hK
  intro s₂ h₂ hK₂ _
  have hstep : ((ipcMachine r).step (.sender i) c (.store (slotOf r) .sender (slotOf i)) s₂).2 =
      { s₂ with
        table := s₂.table.set (slotOf r) .sender (slotOf i)
        mail := .full (c.msg i)
        published := s₂.published ++ [c.msg i] } := by
    simp only [ipcMachine, PcbOp.sem, mailAfterSend, publishes, if_true]
  rw [hstep]
  -- the payload is there since before
  have hword : ∀ f ∈ [Field.msg2, .msg1, .msg0],
      s₂.table.set (slotOf r) .sender (slotOf i) (slotOf r) f = c.word f := by
    intro f hf
    have hne : f ≠ .sender := by
      rintro rfl
      exact absurd hf (by decide)
    rw [ProcTable.set_of_ne _ _ hne]
    exact hK₂.words f hf
  refine hnext _ _ ⟨?_, ?_, ?_, ?_⟩ ?_ ⟨Mail.noConfusion, ?_, hK₂.succeeded⟩
  · exact ⟨ProcTable.set_self .., hword .msg0 (by decide), hword .msg1 (by decide),
      hword .msg2 (by decide)⟩
  · have haccount := h₂.account
    rw [hK₂.mail] at haccount
    show s₂.published ++ [c.msg i] = s₂.delivered ++ [c.msg i]
    rw [haccount]
    simp [Mail.pending]
  · intro m hm
    obtain hm | hm := List.mem_append.mp hm
    · exact h₂.slots m hm
    · obtain rfl := List.mem_singleton.mp hm
      exact ⟨i, rfl⟩
  · intro j
    show sentBy j s₂.succeeded <+: sentBy j (s₂.published ++ [c.msg i])
    rw [sentBy_append]
    exact (h₂.returned j).trans (List.prefix_append ..)
  · refine guar_sender ⟨rfl, rfl, ?_, ?_⟩ ?_
    · intro m hm
      rw [hK₂.mail] at hm
      exact Mail.noConfusion hm
    · intro m
      rw [hK₂.mail]
      exact ⟨Mail.noConfusion, Mail.noConfusion⟩
    · intro j hj
      refine ⟨?_, rfl, ?_, ?_⟩
      · show sentBy j (s₂.published ++ [c.msg i]) = sentBy j s₂.published
        rw [sentBy_append, sentBy_of_ne hj, List.append_nil]
      · rw [hK₂.mail]
        refine ⟨Mail.noConfusion, ?_⟩
        intro heq
        exact absurd (Mail.writing.inj heq).symm hj
      · intro hm
        rw [hK₂.mail] at hm
        exact absurd (Mail.writing.inj hm).symm hj
  · show sentBy i (s₂.published ++ [c.msg i]) = P ++ [c.msg i]
    rw [sentBy_append, sentBy_self, hK₂.published]

theorem wp_setIpcMsg {P : List Msg} {k : Unit → PcbProg α}
    (hnext : ∀ s s', MailOk r s' → (ipcProtocol r).Guar (.sender i) s s' →
      SendKnows i (P ++ [c.msg i]) P s' → SendWp r i c (k ()) Q s s')
    {s s₁ : Mailbox} (h : MailOk r s₁) (hguar : (ipcProtocol r).Guar (.sender i) s s₁)
    (hK : Writes r i c [] P s₁) :
    SendWp r i c ((setIpcMsg (slotOf r) (c.msg i)).bind k) Q s s₁ := by
  refine wp_storeWord (k := fun _ => _) (by decide) (by decide) rfl ?_ h hguar hK
  intro s s' h hguar hK
  refine wp_storeWord (k := fun _ => _) (by decide) (by decide) rfl ?_ h hguar hK
  intro s s' h hguar hK
  refine wp_storeWord (k := fun _ => _) (by decide) (by decide) rfl ?_ h hguar hK
  intro s s' h hguar hK
  exact wp_publishMail hnext h hguar hK

theorem done_sent {P : List Msg} {s s₁ : Mailbox} (h : MailOk r s₁)
    (hguar : (ipcProtocol r).Guar (.sender i) s s₁) (hK : SendKnows i (P ++ [c.msg i]) P s₁) :
    (ipcProtocol r).Done (i := .sender i) c (0 : UInt64) s s₁ := by
  have hsucc : sentBy i (s₁.succeeded ++ [c.msg i]) = sentBy i s₁.published := by
    rw [sentBy_append, sentBy_self, hK.succeeded, hK.published]
  have hother : ∀ j, j ≠ i → sentBy j (s₁.succeeded ++ [c.msg i]) = sentBy j s₁.succeeded := by
    intro j hj
    rw [sentBy_append, sentBy_of_ne hj, List.append_nil]
  refine ⟨⟨h.holds, h.account, h.slots, ?_⟩, ?_, ⟨hK.mail, hsucc⟩⟩
  · intro j
    show sentBy j (s₁.succeeded ++ [c.msg i]) <+: sentBy j s₁.published
    by_cases hj : j = i
    · subst hj
      rw [hsucc]
    · rw [hother j hj]
      exact h.returned j
  · refine guar_sender ?_ ?_
    · obtain ⟨h₁, h₂, h₃, h₄⟩ : RecvRely s s₁ := hguar .receiver Party.noConfusion
      exact ⟨h₁, h₂, h₃, h₄⟩
    · intro j hj
      obtain ⟨h₁, h₂, h₃, h₄⟩ : SendRely r j s s₁ :=
        hguar (.sender j) fun heq => hj (Party.sender.inj heq)
      exact ⟨h₁, (hother j hj).trans h₂, h₃, h₄⟩

theorem done_notSent {P : List Msg} {s s₁ : Mailbox} (h : MailOk r s₁)
    (hguar : (ipcProtocol r).Guar (.sender i) s s₁) (hK : SendKnows i P P s₁) :
    (ipcProtocol r).Done (i := .sender i) c (0 - 1 : UInt64) s s₁ := by
  have hne : ¬ (0 - 1 : UInt64) = 0 := by decide
  have hfinish : (ipcMachine r).finish (.sender i) c (0 - 1 : UInt64) s s₁ = s₁ := by
    simp only [ipcMachine, hne, if_false]
  refine ⟨?_, ?_, ?_⟩
  · rw [hfinish]
    exact h
  · rw [hfinish]
    exact hguar
  · rw [hfinish]
    exact ⟨hK.mail, hK.succeeded.trans hK.published.symm⟩

theorem sendWp_bind {β : Type} (p : PcbProg β) (q : β → PcbProg α) (s s₁ : Mailbox) :
    SendWp r i c (p.bind q) Q s s₁ ↔
      SendWp r i c p (fun a s s₁ => SendWp r i c (q a) Q s s₁) s s₁ :=
  Protocol.wp_bind ..

theorem wp_switchToProcess {P S : List Msg} {current next : UInt64} {k : Unit → PcbProg α}
    (hnext : ∀ s s', MailOk r s' → (ipcProtocol r).Guar (.sender i) s s' →
      SendKnows i P S s' → SendWp r i c (k ()) Q s s')
    {s s₁ : Mailbox} (h : MailOk r s₁) (hguar : (ipcProtocol r).Guar (.sender i) s s₁)
    (hK : SendKnows i P S s₁) :
    SendWp r i c ((switchToProcess current next).bind k) Q s s₁ := by
  rw [sendWp_bind]
  refine wp_load ?_ h hguar hK
  intro v s s' h hguar hK
  by_cases hrun : (v == procRunning) = true
  · rw [if_pos hrun]
    refine wp_storeState ?_ h hguar hK
    intro s s' h hguar hK
    exact wp_sendFrame (frame_storeState _ _) (fun _ => hnext) h hguar hK
  · rw [if_neg hrun]
    exact wp_sendFrame (frame_storeState _ _) (fun _ => hnext) h hguar hK

/-- **Every send keeps the protocol.** -/
theorem wp_sysIpcSend (c : Payload) {s : Mailbox} (h : MailOk r s) (hmail : s.mail ≠ .writing i)
    (hsucc : sentBy i s.succeeded = sentBy i s.published) :
    SendWp r i c (sysIpcSend (slotOf r) (c.msg i)) ((ipcProtocol r).Done (i := .sender i) c) s s := by
  have hK : SendKnows i (sentBy i s.published) (sentBy i s.published) s := ⟨hmail, rfl, hsucc⟩
  have hguar := Protocol.guar_refl (P := ipcProtocol r) (.sender i) s
  unfold sysIpcSend
  by_cases hrange : slotOf r ≥ maxProcs
  · rw [if_pos hrange]
    exact done_notSent h hguar hK
  rw [if_neg hrange]
  refine wp_load ?_ h hguar hK
  intro v s s' h hguar hK
  by_cases hfree : (v == procFree) = true
  · rw [if_pos hfree]
    exact done_notSent h hguar hK
  rw [if_neg hfree]
  refine wp_smpCas (.inl rfl) ?_ ?_ h hguar hK
  · -- the hand-off to a blocked receiver
    intro s s' h hguar hK
    rw [if_pos (by decide)]
    refine wp_setIpcMsg ?_ h hguar hK
    intro s s' h hguar hK
    refine wp_switchToProcess ?_ h hguar hK
    intro s s' h hguar hK
    exact done_sent h hguar hK
  · intro v s hv h hK
    rw [if_neg (by simpa using hv)]
    refine wp_smpCas (.inr ⟨rfl, rfl⟩) ?_ ?_ h (Protocol.guar_refl _ s) hK
    · -- the locked mailbox
      intro s s' h hguar hK
      rw [if_pos (by decide)]
      refine wp_setIpcMsg ?_ h hguar hK
      intro s s' h hguar hK
      exact done_sent h hguar hK
    · intro v s hv h hK
      rw [if_neg (by simpa using hv)]
      exact done_notSent h (Protocol.guar_refl _ s) hK

end Sender

/-! ### The receiver -/

/-- What must hold of the program that is left of a receive. -/
abbrev RecvWp {α : Type} (r : Fin 64) (p : PcbProg α) (Q : α → Mailbox → Mailbox → Prop)
    (s s₁ : Mailbox) : Prop :=
  (ipcProtocol r).wp (i := .receiver) () p Q s s₁

section Receiver

variable {r : Fin 64} {α : Type} {Q : α → Mailbox → Mailbox → Prop}

/-- What the receiver knows before it has found a message. -/
structure RecvKnows (b : Bool) (D : List Msg) (s : Mailbox) : Prop where
  armed : s.armed = b
  delivered : s.delivered = D
  mail : ∀ m, s.mail ≠ .taken m

/-- What the receiver knows about the message it takes. -/
structure Takes (mail : Mail) (D : List Msg) (s : Mailbox) : Prop where
  mail : s.mail = mail
  delivered : s.delivered = D

theorem RecvKnows.stable (b : Bool) (D : List Msg) :
    (ipcProtocol r).Stable .receiver (RecvKnows b D) := by
  intro s s' _ hr hK
  exact ⟨hr.armed.trans hK.armed, hr.delivered.trans hK.delivered,
    fun m hm => hK.mail m ((hr.taken m).mp hm)⟩

theorem Takes.stable_full (m : Msg) (D : List Msg) :
    (ipcProtocol r).Stable .receiver (Takes (.full m) D) := by
  intro s s' _ hr hK
  exact ⟨hr.full m hK.mail, hr.delivered.trans hK.delivered⟩

theorem Takes.stable_taken (m : Msg) (D : List Msg) :
    (ipcProtocol r).Stable .receiver (Takes (.taken m) D) := by
  intro s s' _ hr hK
  exact ⟨(hr.taken m).mpr hK.mail, hr.delivered.trans hK.delivered⟩

theorem wp_recvLoad {m : Msg} {D : List Msg} {f : Field} {v : UInt64} {k : UInt64 → PcbProg α}
    (hv : ∀ s : Mailbox, s.Holds r m → s.table (slotOf r) f = v)
    (hnext : ∀ s, MailOk r s → Takes (.full m) D s → RecvWp r (k v) Q s s)
    {s : Mailbox} (h : MailOk r s) (hK : Takes (.full m) D s) :
    RecvWp r ((load (slotOf r) f).bind k) Q s s := by
  refine Protocol.wp_op (Takes.stable_full m D) ?_ h (Protocol.guar_refl _ s) hK
  intro s₂ h₂ hK₂ _
  have hholds : s₂.Holds r m := by
    have := h₂.holds
    rw [hK₂.mail] at this
    exact this
  show RecvWp r (k (s₂.table (slotOf r) f)) Q s₂ s₂
  rw [hv s₂ hholds]
  exact hnext s₂ h₂ hK₂

theorem wp_clearFirst {m : Msg} {D : List Msg} {v : UInt64} {k : Unit → PcbProg α}
    (hnext : ∀ s s', MailOk r s' → (ipcProtocol r).Guar .receiver s s' →
      Takes (.taken m) D s' → RecvWp r (k ()) Q s s')
    {s : Mailbox} (h : MailOk r s) (hK : Takes (.full m) D s) :
    RecvWp r ((store (slotOf r) .msg0 v).bind k) Q s s := by
  refine Protocol.wp_op (Takes.stable_full m D) ?_ h (Protocol.guar_refl _ s) hK
  intro s₂ h₂ hK₂ _
  have hstep : ((ipcMachine r).step .receiver () (.store (slotOf r) .msg0 v) s₂).2 =
      { s₂ with table := s₂.table.set (slotOf r) .msg0 v, mail := .taken m } := by
    simp only [ipcMachine, PcbOp.sem, mailAfterRecv, armedAfterRecv, hK₂.mail, if_true]
  rw [hstep]
  have hholds : s₂.Holds r m := by
    have := h₂.holds
    rw [hK₂.mail] at this
    exact this
  refine hnext _ _ ⟨?_, ?_, h₂.slots, h₂.returned⟩ ?_ ⟨rfl, hK₂.delivered⟩
  · show s₂.table.set (slotOf r) .msg0 v (slotOf r) .sender = m.sender
    rw [ProcTable.set_of_ne _ _ (by decide)]
    exact hholds.1
  · have haccount := h₂.account
    rw [hK₂.mail] at haccount
    exact haccount
  · apply guar_receiver
    intro j
    refine ⟨rfl, rfl, ?_, ?_⟩
    · rw [hK₂.mail]
      exact ⟨Mail.noConfusion, Mail.noConfusion⟩
    · intro hm
      rw [hK₂.mail] at hm
      exact Mail.noConfusion hm

theorem wp_clearWord {m : Msg} {D : List Msg} {f : Field} {v : UInt64} {k : Unit → PcbProg α}
    (hf : f = .msg1 ∨ f = .msg2)
    (hnext : ∀ s s', MailOk r s' → (ipcProtocol r).Guar .receiver s s' →
      Takes (.taken m) D s' → RecvWp r (k ()) Q s s')
    {s s₁ : Mailbox} (h : MailOk r s₁) (hguar : (ipcProtocol r).Guar .receiver s s₁)
    (hK : Takes (.taken m) D s₁) :
    RecvWp r ((store (slotOf r) f v).bind k) Q s s₁ := by
  refine Protocol.wp_op (Takes.stable_taken m D) ?_ h hguar hK
  intro s₂ h₂ hK₂ _
  have hsender : Field.sender ≠ f := by
    obtain rfl | rfl := hf
    · decide
    · decide
  have hstep : ((ipcMachine r).step .receiver () (.store (slotOf r) f v) s₂).2 =
      { s₂ with table := s₂.table.set (slotOf r) f v } := by
    obtain rfl | rfl := hf
    · simp only [ipcMachine, PcbOp.sem, mailAfterRecv, armedAfterRecv]
    · simp only [ipcMachine, PcbOp.sem, mailAfterRecv, armedAfterRecv]
  rw [hstep]
  refine hnext _ _ ⟨?_, h₂.account, h₂.slots, h₂.returned⟩ ?_ ⟨hK₂.mail, hK₂.delivered⟩
  · have hholds := h₂.holds
    rw [hK₂.mail] at hholds
    show MailHolds r _ s₂.mail
    rw [hK₂.mail]
    show s₂.table.set (slotOf r) f v (slotOf r) .sender = m.sender
    rw [ProcTable.set_of_ne _ _ hsender]
    exact hholds
  · apply guar_receiver
    intro j
    refine ⟨rfl, rfl, Iff.rfl, ?_⟩
    intro hm
    rw [hK₂.mail] at hm
    exact Mail.noConfusion hm

/-- **The store that clears the sender field ends the receive**, which returns the message. -/
theorem wp_clearSender {m : Msg} {D : List Msg} {s s₁ : Mailbox} (h : MailOk r s₁)
    (hguar : (ipcProtocol r).Guar .receiver s s₁) (hK : Takes (.taken m) D s₁) :
    RecvWp r ((store (slotOf r) .sender 0).bind fun _ => .ret m)
      ((ipcProtocol r).Done (i := .receiver) ()) s s₁ := by
  refine Protocol.wp_op (Takes.stable_taken m D) ?_ h hguar hK
  intro s₂ h₂ hK₂ _
  have hstep : ((ipcMachine r).step .receiver () (.store (slotOf r) .sender 0) s₂).2 =
      { s₂ with table := s₂.table.set (slotOf r) .sender 0, mail := .empty } := by
    simp only [ipcMachine, PcbOp.sem, mailAfterRecv, armedAfterRecv, if_true]
  rw [hstep]
  refine ⟨⟨?_, ?_, h₂.slots, h₂.returned⟩, ?_, ⟨rfl, fun _ => Mail.noConfusion⟩⟩
  · exact ProcTable.set_self ..
  · have haccount := h₂.account
    rw [hK₂.mail] at haccount
    show s₂.published = s₂.delivered ++ [m] ++ []
    rw [List.append_nil]
    exact haccount
  · apply guar_receiver
    intro j
    refine ⟨rfl, rfl, ?_, ?_⟩
    · rw [hK₂.mail]
      exact ⟨Mail.noConfusion, Mail.noConfusion⟩
    · intro hm
      rw [hK₂.mail] at hm
      exact Mail.noConfusion hm

theorem wp_takeMessage {m : Msg} {D : List Msg} {s : Mailbox} (h : MailOk r s)
    (hK : Takes (.full m) D s) :
    RecvWp r (takeMessage (slotOf r) m.sender) ((ipcProtocol r).Done (i := .receiver) ()) s s := by
  refine wp_recvLoad (fun _ hs => hs.2.1) ?_ h hK
  intro s h hK
  refine wp_recvLoad (fun _ hs => hs.2.2.1) ?_ h hK
  intro s h hK
  refine wp_recvLoad (fun _ hs => hs.2.2.2) ?_ h hK
  intro s h hK
  refine wp_clearFirst (k := fun _ => _) ?_ h hK
  intro s s' h hguar hK
  refine wp_clearWord (k := fun _ => _) (.inl rfl) ?_ h hguar hK
  intro s s' h hguar hK
  refine wp_clearWord (k := fun _ => _) (.inr rfl) ?_ h hguar hK
  intro s s' h hguar hK
  exact wp_clearSender h hguar hK

theorem MailOk.full_of_sender {b : Bool} {D : List Msg} {s : Mailbox} (h : MailOk r s)
    (hK : RecvKnows b D s) (hzero : s.table (slotOf r) .sender ≠ 0)
    (hlock : s.table (slotOf r) .sender ≠ mailboxLock) : ∃ m, s.mail = .full m := by
  have hholds := h.holds
  cases hmail : s.mail with
  | empty =>
    rw [hmail] at hholds
    exact absurd hholds hzero
  | writing i =>
    rw [hmail] at hholds
    obtain hh | hh := hholds
    · exact absurd hh hzero
    · exact absurd hh hlock
  | full m => exact ⟨m, rfl⟩
  | taken m => exact absurd hmail (hK.mail m)

theorem Mail.isFull_iff (mail : Mail) : mail.isFull = true ↔ ∃ m, mail = .full m := by
  cases mail <;> simp [Mail.isFull]

theorem wp_takeFull {m : Msg} {s : Mailbox} (h : MailOk r s) (hm : s.mail = .full m) :
    RecvWp r (takeMessage (slotOf r) (s.table (slotOf r) .sender))
      ((ipcProtocol r).Done (i := .receiver) ()) s s := by
  have hsender : s.table (slotOf r) .sender = m.sender := by
    have hholds := h.holds
    rw [hm] at hholds
    exact hholds.1
  rw [hsender]
  exact wp_takeMessage (D := s.delivered) h ⟨hm, rfl⟩

theorem wp_resume {D : List Msg} {s : Mailbox} (h : MailOk r s) (hK : RecvKnows true D s) :
    RecvWp r ((load (slotOf r) .sender).bind fun sender => takeMessage (slotOf r) sender)
      ((ipcProtocol r).Done (i := .receiver) ()) s s := by
  refine Protocol.wp_op (RecvKnows.stable true D) ?_ h (Protocol.guar_refl _ s) hK
  intro s₁ h₁ hK₁ hguard
  obtain ⟨m, hm⟩ := s₁.mail.isFull_iff.mp (hguard.2 hK₁.armed)
  exact wp_takeFull h₁ hm

theorem wp_block {D : List Msg} {v : UInt64} {k : Unit → PcbProg α}
    (hnext : ∀ s s', MailOk r s' → (ipcProtocol r).Guar .receiver s s' →
      RecvKnows true D s' → RecvWp r (k ()) Q s s')
    {s : Mailbox} (h : MailOk r s) (hK : RecvKnows false D s) :
    RecvWp r ((store (slotOf r) .state v).bind k) Q s s := by
  refine Protocol.wp_op (RecvKnows.stable false D) ?_ h (Protocol.guar_refl _ s) hK
  intro s₁ h₁ hK₁ _
  have hframe : Frame r s₁ ((ipcMachine r).step .receiver () (.store (slotOf r) .state v) s₁).2 := by
    refine ⟨?_, rfl, rfl, rfl, rfl⟩
    intro f hf
    exact ProcTable.set_of_ne s₁.table v hf
  exact hnext s₁ _ (hframe.mailOk h₁) (guar_receiver fun j => hframe.sendRely j)
    ⟨rfl, hK₁.delivered, hK₁.mail⟩

/-- **Every receive keeps the protocol.** -/
theorem wp_sysIpcRecv {s : Mailbox} (h : MailOk r s) (harmed : s.armed = false)
    (hmail : ∀ m, s.mail ≠ .taken m) :
    RecvWp r (sysIpcRecv (slotOf r)) ((ipcProtocol r).Done (i := .receiver) ()) s s := by
  have hK : RecvKnows false s.delivered s := ⟨harmed, rfl, hmail⟩
  refine Protocol.wp_op (RecvKnows.stable false s.delivered) ?_ h (Protocol.guar_refl _ s) hK
  intro s₁ h₁ hK₁ hguard
  show RecvWp r (if (s₁.table (slotOf r) .sender != 0) = true then _ else _) _ s₁ s₁
  by_cases hzero : s₁.table (slotOf r) .sender = 0
  · -- block, and take the message that is there when `sched_yield` returns
    rw [if_neg (by simpa using hzero)]
    refine wp_block ?_ h₁ hK₁
    intro s s' h hguar hK
    refine Protocol.wp_op (RecvKnows.stable true _) ?_ h hguar hK
    intro s h hK _
    exact wp_resume h hK
  · rw [if_pos (by simpa using hzero)]
    obtain ⟨m, hm⟩ := h₁.full_of_sender hK₁ hzero hguard.1
    exact wp_takeFull h₁ hm

end Receiver

/-! ### Runs -/

theorem ipc_verified (r : Fin 64) : (ipcProtocol r).Verified := by
  rintro (i | _) c s h hidle
  · exact wp_sysIpcSend c h hidle.1 hidle.2
  · exact wp_sysIpcRecv h hidle.1 hidle.2

theorem mailOk_init (r : Fin 64) {t : ProcTable} (ht : t (slotOf r) .sender = 0) :
    MailOk r (Mailbox.init t) := by
  refine ⟨ht, rfl, ?_, fun _ => List.prefix_refl _⟩
  intro m hm
  exact absurd hm List.not_mem_nil

theorem Mail.pending_length_le (mail : Mail) : mail.pending.length ≤ 1 := by
  cases mail <;> simp [Mail.pending]

/-- **The mailbox delivers in every exclusive run**: in every interleaving of any sends to a process
and its receives in which every step is `Exclusive`, every message that was published is returned by
exactly one receive or waits for it, unchanged, and the sends that return 0 are those that published
their message. -/
theorem delivery_of_exclusive (r : Fin 64) (t : ProcTable) (ht : t (slotOf r) .sender = 0)
    (events : List (ipcMachine r).Event)
    (hexclusive : Admissible Machine.exec (ipcProtocol r).Allowed
      (Machine.start (Mailbox.init t)) events) :
    Delivery r (runOps Machine.exec (Machine.start (Mailbox.init t)) events) := by
  have hidle : ∀ p, (ipcProtocol r).Idle p (Mailbox.init t) := by
    rintro (i | _)
    · exact ⟨Mail.noConfusion, rfl⟩
    · exact ⟨rfl, fun _ => Mail.noConfusion⟩
  obtain ⟨hok, hthreads⟩ : (ipcProtocol r).ConfigOk
      (runOps Machine.exec (Machine.start (Mailbox.init t)) events) :=
    Protocol.configOk_run (ipc_verified r) (mailOk_init r ht) hidle hexclusive
  revert hok hthreads
  generalize runOps Machine.exec (Machine.start (Mailbox.init t)) events = cfg
  intro hok hthreads
  have h : MailOk r cfg.shared := hok
  refine ⟨⟨cfg.shared.mail.pending, cfg.shared.mail.pending_length_le, h.account, ?_⟩, ?_, ?_⟩
  · intro hnone m hm
    have hreceiver := hthreads .receiver
    unfold Protocol.ThreadOk at hreceiver
    rw [hnone] at hreceiver
    have hholds := h.holds
    cases hmail : cfg.shared.mail with
    | empty =>
      rw [hmail] at hm
      exact absurd hm List.not_mem_nil
    | writing i =>
      rw [hmail] at hm
      exact absurd hm List.not_mem_nil
    | full m' =>
      rw [hmail] at hm hholds
      obtain rfl := List.mem_singleton.mp hm
      exact hholds
    | taken m' => exact absurd hmail (hreceiver.2 m')
  · intro m hm
    have hpub : m ∈ cfg.shared.published := by
      rw [h.account]
      exact List.mem_append_left _ hm
    obtain ⟨i, hi⟩ := h.slots m hpub
    rw [hi, UInt64.lt_iff_toNat_lt, slotOf_toNat]
    exact i.isLt
  · intro i
    refine ⟨h.returned i, ?_⟩
    intro hnone
    have hsender := hthreads (.sender i)
    unfold Protocol.ThreadOk at hsender
    rw [hnone] at hsender
    exact hsender.2

/-- All processes run, and no mail. -/
def runningTable : ProcTable := fun _ f => if f = .state then procRunning else 0

/-- The steps of one party. -/
def stepsOf (r : Fin 64) (p : Party) (n : Nat) : List (ipcMachine r).Event :=
  List.replicate n (.step p)

/-- Process 1 sends to process 2, which then receives. -/
def sendThenRecv : List (ipcMachine 2).Event :=
  .call (.sender 1) (Payload.mk 10 20 30) :: stepsOf 2 (.sender 1) 7 ++
    .call .receiver () :: stepsOf 2 .receiver 8

theorem delivery_sendThenRecv :
    Admissible Machine.exec (ipcProtocol 2).Allowed
        (Machine.start (Mailbox.init runningTable)) sendThenRecv ∧
      Delivery 2 (runOps Machine.exec (Machine.start (Mailbox.init runningTable)) sendThenRecv) ∧
      (runOps Machine.exec (Machine.start (Mailbox.init runningTable)) sendThenRecv).shared.delivered =
        [⟨1, 10, 20, 30⟩] := by
  have hexclusive : Admissible Machine.exec (ipcProtocol 2).Allowed
      (Machine.start (Mailbox.init runningTable)) sendThenRecv := by
    decide +kernel
  exact ⟨hexclusive, delivery_of_exclusive 2 runningTable rfl sendThenRecv hexclusive, by decide +kernel⟩

/-- Process 1 has locked the mailbox of process 2, which then receives. -/
def recvWhileLocked : List (ipcMachine 2).Event :=
  .call (.sender 1) (Payload.mk 10 20 30) :: stepsOf 2 (.sender 1) 3 ++
    .call .receiver () :: stepsOf 2 .receiver 8

/-- **The lock value is delivered as a sender.** -/
theorem not_delivery_of_locked :
    ¬ ∀ (r : Fin 64) (t : ProcTable) (events : List (ipcMachine r).Event),
      t (slotOf r) .sender = 0 →
        Delivery r (runOps Machine.exec (Machine.start (Mailbox.init t)) events) := by
  intro h
  obtain ⟨-, hsender, -⟩ := h 2 runningTable recvWhileLocked rfl
  have hdelivered : (runOps Machine.exec (Machine.start (Mailbox.init runningTable))
      recvWhileLocked).shared.delivered = [⟨mailboxLock, 0, 0, 0⟩] := by
    decide +kernel
  rw [hdelivered] at hsender
  exact absurd (hsender _ (List.mem_singleton_self _)) (by decide)

end Keuos.Ipc
