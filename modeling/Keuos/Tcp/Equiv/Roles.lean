import Keuos.Tcp.Equiv.Calls

/-!
# The roles of the slots

A slot is opened by `tcp_listen`, by an active open, by a SYN for a listening port, or by a cookie ACK.  An
active open leaves its slot in LISTEN while it polls, so `lookup_listen` can take it for a listener of its
port; and a SYN-ACK establishes whatever slot in LISTEN has its ends, also a listener, whose remote end is the
address 0 and the port 0.

## Main results

* `roles_of_safe` – in every run in which no SYN-ACK reaches a listener the roles are kept apart, but for
  the slot of an active open that polls.
-/

namespace Keuos.Tcp

inductive Role where
  | listener
  | client
  | child
  | cookie
  deriving DecidableEq

/-- The role of a slot that an event opens. -/
def Event.opens : Event → Option Role
  | .listen .. => some .listener
  | .connect .. => some .client
  | .receive .. => some .child
  | .ack .. => some .cookie
  | _ => none

/-- The connections, and how each open slot was opened. -/
structure History where
  sys : Sys
  role : UInt64 → Option Role

/-- The role of a slot after an event: none if it is closed, and that of the event if it was closed. -/
def newRole (c c' : Tcb) (opens old : Option Role) : Option Role :=
  if c'.state = tcpClosed then none else if c.state = tcpClosed then opens else old

def History.exec (t : History) (e : Event) : History :=
  let s := Tcp.exec t.sys e
  ⟨s, fun i => newRole (t.sys.net.pool i) (s.net.pool i) e.opens (t.role i)⟩

def History.boot (mem : Mem) (answers : List UInt64) : History :=
  ⟨Sys.boot mem answers, fun _ => none⟩

/-- A SYN-ACK does not reach a listener: a slot in LISTEN that has its ends is the one that polls. -/
def SafeSynAck (s : Sys) (p : Packet) : Prop :=
  p.isSynAck = true → ∀ i, i = lookup s.net.pool p.dstPort p.srcIp p.srcPort →
    (s.net.pool i).state = tcpListenState → s.connecting = some i

def Safe (t : History) : Event → Prop
  | .receive p => SafeSynAck t.sys p
  | _ => True

/-- The state of a slot is one of its role. -/
def Fits (state : UInt8) (polls : Prop) : Option Role → Prop
  | none => state = tcpClosed
  | some .listener => state = tcpListenState ∧ ¬polls
  | some .client => state = tcpListenState ∧ polls ∨ state = tcpEstablished
  | some .child => state = tcpSynReceived ∨ state = tcpEstablished
  | some .cookie => state = tcpEstablished

def RolesFit (t : History) : Prop :=
  ∀ i, Fits (t.sys.net.pool i).state (t.sys.connecting = some i) (t.role i)

theorem Fits.none_iff {state : UInt8} {polls : Prop} {role : Option Role} (h : Fits state polls role) :
    role = none ↔ state = tcpClosed := by
  constructor
  · rintro rfl
    exact h
  · rintro rfl
    cases role with
    | none => rfl
    | some r =>
      exfalso
      cases r with
      | listener => exact absurd h.1 (by decide)
      | client =>
        rcases h with ⟨h, -⟩ | h
        · exact absurd h (by decide)
        · exact absurd h (by decide)
      | child =>
        rcases h with h | h
        · exact absurd h (by decide)
        · exact absurd h (by decide)
      | cookie => exact absurd (show tcpClosed = tcpEstablished from h) (by decide)

theorem Fits.listen {polls : Prop} {role : Option Role} (h : Fits tcpListenState polls role) :
    role = some .listener ∧ ¬polls ∨ role = some .client ∧ polls := by
  cases role with
  | none => exact absurd (show tcpListenState = tcpClosed from h) (by decide)
  | some r =>
    cases r with
    | listener => exact .inl ⟨rfl, h.2⟩
    | client => exact .inr ⟨rfl, (h.resolve_right (by decide)).2⟩
    | child =>
      rcases h with h | h
      · exact absurd h (by decide)
      · exact absurd h (by decide)
    | cookie => exact absurd (show tcpListenState = tcpEstablished from h) (by decide)

theorem Fits.synReceived {polls : Prop} {role : Option Role} (h : Fits tcpSynReceived polls role) :
    role = some .child := by
  cases role with
  | none => exact absurd (show tcpSynReceived = tcpClosed from h) (by decide)
  | some r =>
    cases r with
    | listener => exact absurd h.1 (by decide)
    | client =>
      rcases h with ⟨h, -⟩ | h
      · exact absurd h (by decide)
      · exact absurd h (by decide)
    | child => rfl
    | cookie => exact absurd (show tcpSynReceived = tcpEstablished from h) (by decide)

theorem Fits.established {state : UInt8} {polls polls' : Prop} {role : Option Role}
    (h : Fits state polls role) (hopen : state ≠ tcpClosed) (hrole : role ≠ some .listener) :
    Fits tcpEstablished polls' role := by
  cases role with
  | none => exact absurd h hopen
  | some r =>
    cases r with
    | listener => exact absurd rfl hrole
    | client => exact .inr rfl
    | child => exact .inr rfl
    | cookie => rfl

theorem Fits.of_polls {state : UInt8} {polls polls' : Prop} {role : Option Role} (h : Fits state polls role)
    (hiff : state = tcpListenState → (polls ↔ polls')) : Fits state polls' role := by
  cases role with
  | none => exact h
  | some r =>
    cases r with
    | listener => exact ⟨h.1, mt (hiff h.1).mpr h.2⟩
    | client =>
      rcases h with ⟨hl, hp⟩ | hstate
      · exact .inl ⟨hl, (hiff hl).mp hp⟩
      · exact .inr hstate
    | child => exact h
    | cookie => exact h

/-! ### Steps -/

section Slot

variable {c c' : Tcb} {opens role : Option Role} {polls polls' : Prop} (h : Fits c.state polls role)

include h

theorem newRole_kept (hk : c.Kept c') : newRole c c' opens role = role := by
  unfold newRole
  by_cases hc : c.state = tcpClosed
  · rw [if_pos (hk.open_iff.mpr hc), h.none_iff.mpr hc]
  · rw [if_neg (mt hk.open_iff.mp hc), if_neg hc]

theorem fits_kept (hk : c.Kept c') (hsame : c'.state = c.state)
    (hiff : c.state = tcpListenState → (polls ↔ polls')) :
    Fits c'.state polls' (newRole c c' opens role) := by
  rw [newRole_kept h hk, hsame]
  exact h.of_polls hiff

theorem fits_established (hk : c.Kept c') (hstate : c'.state = tcpEstablished)
    (hopen : c.state ≠ tcpClosed) (hrole : role ≠ some .listener) :
    Fits c'.state polls' (newRole c c' opens role) := by
  rw [newRole_kept h hk, hstate]
  exact h.established hopen hrole

end Slot

theorem newRole_open {c c' : Tcb} {opens role : Option Role} (hclosed : c.state = tcpClosed)
    (hopen : c'.state ≠ tcpClosed) : newRole c c' opens role = opens := by
  unfold newRole
  rw [if_neg hopen, if_pos hclosed]

theorem fits_zero {c : Tcb} {opens role : Option Role} {polls : Prop} :
    Fits Tcb.zero.state polls (newRole c Tcb.zero opens role) := by
  have hclosed : Tcb.zero.state = tcpClosed := rfl
  unfold newRole
  rw [if_pos hclosed]
  exact hclosed

/-- **One step** keeps the states of the slots within their roles. -/
theorem RolesFit.exec {t : History} (h : RolesFit t) (hwf : WellFormed t.sys) {e : Event} (hsafe : Safe t e) :
    RolesFit (t.exec e) := by
  obtain ⟨s, role⟩ := t
  have hidle : ∀ {i : UInt64}, s.connecting = none → ((s.connecting = some i) ↔ (none = some i)) := by
    intro i hnone
    rw [hnone]
  unfold History.exec RolesFit
  dsimp only at hwf ⊢
  have hstep := exec_step hwf e
  generalize Tcp.exec s e = s' at hstep ⊢
  intro i
  have hi : Fits (s.net.pool i).state (s.connecting = some i) (role i) := h i
  have hsame : Fits (s.net.pool i).state (s.connecting = some i)
      (newRole (s.net.pool i) (s.net.pool i) e.opens (role i)) :=
    fits_kept hi (.refl _) rfl fun _ => Iff.rfl
  cases hstep with
  | wait hcall hpolls => exact hsame
  | synAccepted p hsyn hok =>
    obtain ⟨-, -, -, hstate, -, -, hothers⟩ := handleServerSyn_accepted hwf.closed hok
    by_cases hislot : i = closedSlot s.net.pool
    · obtain ⟨-, hclosed⟩ := slot_of_canAlloc (canAlloc_of_acceptsSyn hok)
      rw [hislot, newRole_open hclosed (by rw [hstate]; decide)]
      exact .inl hstate
    · obtain ⟨hk, -, hchanged⟩ := hothers i hislot
      rcases hk.state with hsame' | ⟨hopen, hest⟩
      · exact fits_kept hi hk hsame' fun _ => Iff.rfl
      · rcases hchanged with hsame' | hloop
        · exact fits_kept hi hk hsame' fun _ => Iff.rfl
        · refine fits_established hi hk hest hopen fun hrole => ?_
          -- a listener has no remote end
          rw [hrole] at hi
          have hzero := (hwf.listen i hi.1).resolve_left hi.2
          rw [hzero.1] at hloop
          exact absurd hloop (by decide)
  | synRefused p hsyn hno =>
    obtain ⟨-, hpool, -⟩ := handleServerSyn_refused hwf.closed hno
    dsimp only
    rw [hpool]
    exact hsame
  | segment p hsyn =>
    obtain ⟨-, -, hreceived⟩ := tcpHandleIncoming_received s.net p
    have hk := (hreceived i).toKept
    rcases (hreceived i).changed with hsame' | ⟨hest, hslot, -, hshake⟩
    · exact fits_kept hi hk hsame' fun _ => Iff.rfl
    · refine fits_established hi hk hest ?_ fun hrole => ?_
      · rcases hshake with ⟨-, hl⟩ | ⟨-, hl⟩
        · rw [hl]
          decide
        · rw [hl]
          decide
      · rw [hrole] at hi
        rcases hshake with ⟨hflags, hl⟩ | ⟨-, hl⟩
        · exact hi.2 (hsafe hflags i hslot hl)
        · rw [hl] at hi
          exact absurd hi.1 (by decide)
  | ackRefused => exact hsame
  | ackAccepted key tick t clientIsn ackIsn hok =>
    dsimp only
    by_cases hislot : i = closedSlot s.net.pool
    · obtain ⟨-, hclosed⟩ := closedSlot_found (bne_iff_ne.mp (Bool.and_eq_true_iff.mp hok).2)
      rw [hislot, Function.update_self,
        newRole_open hclosed (by decide : tcpEstablished ≠ tcpClosed)]
      rfl
    · rw [Function.update_of_ne hislot]
      exact hsame
  | listenFull => exact hsame
  | listen port ownerPid hnone hslot =>
    dsimp only
    by_cases hislot : i = closedSlot s.net.pool
    · rw [hislot, Function.update_self,
        newRole_open (closedSlot_found hslot).2 (by decide : tcpListenState ≠ tcpClosed)]
      exact ⟨rfl, nofun⟩
    · rw [Function.update_of_ne hislot]
      exact fits_kept hi (.refl _) rfl fun _ => hidle hnone
  | accept listenSlot hnone =>
    obtain ⟨-, -, hused⟩ := tcpAccept_used (s := s.net) listenSlot
    exact fits_kept hi (hused i).toKept (hused i).same fun _ => hidle hnone
  | recv connId buf hnone =>
    obtain ⟨-, -, hused⟩ := tcpRecvData_used (s := s.net) connId buf
    exact fits_kept hi (hused i).1.toKept (hused i).1.same fun _ => hidle hnone
  | closeNone => exact hsame
  | close connId hnone hid =>
    dsimp only
    rw [tcpCloseConn_eq connId hid]
    dsimp only
    by_cases hislot : i = connId
    · rw [hislot, Function.update_self]
      exact fits_zero
    · rw [Function.update_of_ne hislot]
      exact fits_kept hi (.refl _) rfl fun _ => hidle hnone
  | connectRefused dstIp dstPort hnone hno =>
    obtain ⟨-, hpool, -⟩ := connectBegin_refused hwf.closed hno dstIp dstPort
    dsimp only
    rw [hpool]
    exact fits_kept hi (.refl _) rfl fun _ => hidle hnone
  | connectAccepted dstIp dstPort hnone hok =>
    obtain ⟨-, hpool, -⟩ := connectBegin_accepted hwf.closed hok dstIp dstPort
    dsimp only
    rw [hpool]
    by_cases hislot : i = closedSlot s.net.pool
    · obtain ⟨-, hclosed⟩ := slot_of_canAlloc (canAlloc_of_canConnect hok)
      rw [hislot, Function.update_self, newRole_open hclosed (by decide : tcpListenState ≠ tcpClosed)]
      exact .inl ⟨rfl, rfl⟩
    · rw [Function.update_of_ne hislot]
      refine fits_kept hi (.refl _) rfl fun _ => ?_
      rw [hnone]
      exact ⟨nofun, fun heq => absurd (Option.some.inj heq).symm hislot⟩
  | connectedNone => exact hsame
  | connectedFailed slot hpolls hstate =>
    dsimp only
    rw [connectEnd_refused (hwf.polls slot hpolls).1 hstate]
    dsimp only
    by_cases hislot : i = slot
    · rw [hislot, Function.update_self]
      exact fits_zero
    · rw [Function.update_of_ne hislot]
      refine fits_kept hi (.refl _) rfl fun _ => ?_
      rw [hpolls]
      exact ⟨fun heq => absurd (Option.some.inj heq).symm hislot, nofun⟩
  | connectedOk slot hpolls hstate =>
    obtain ⟨-, -, hused⟩ := connectEnd_used (s := s.net) hstate
    refine fits_kept hi (hused i).1.toKept (hused i).1.same fun hl => ?_
    -- the slot that polled is not in LISTEN
    rw [hpolls]
    refine ⟨fun heq => ?_, nofun⟩
    rw [← Option.some.inj heq, hstate] at hl
    exact absurd hl (by decide)

/-- An open slot is closed only by a call on it, or by the active open that polls in it. -/
theorem open_of_step {s s' : Sys} {e : Event} (hwf : WellFormed s) (hstep : Step s e s') {i : UInt64}
    (hopen : (s.net.pool i).state ≠ tcpClosed) (hclose : e ≠ .close i) (hpolls : s.connecting ≠ some i) :
    (s'.net.pool i).state ≠ tcpClosed := by
  -- a slot that is taken was closed
  have hupdate : ∀ {c : Tcb}, closedSlot s.net.pool ≠ noSlot →
      (Function.update s.net.pool (closedSlot s.net.pool) c i).state ≠ tcpClosed := by
    intro c hslot
    have hne : i ≠ closedSlot s.net.pool := by
      rintro rfl
      exact hopen (closedSlot_found hslot).2
    rw [Function.update_of_ne hne]
    exact hopen
  have hslot_of : canAlloc s.net = true → closedSlot s.net.pool ≠ noSlot :=
    fun hok => bne_iff_ne.mp (Bool.and_eq_true_iff.mp hok).1
  cases hstep with
  | wait | ackRefused | listenFull | closeNone | connectedNone => exact hopen
  | synAccepted p hsyn hok =>
    obtain ⟨-, -, -, -, -, -, hothers⟩ := handleServerSyn_accepted hwf.closed hok
    have hne : i ≠ closedSlot s.net.pool := by
      rintro rfl
      exact hopen (closedSlot_found (hslot_of (canAlloc_of_acceptsSyn hok))).2
    exact mt (hothers i hne).1.open_iff.mp hopen
  | synRefused p hsyn hno =>
    obtain ⟨-, hpool, -⟩ := handleServerSyn_refused hwf.closed hno
    dsimp only
    rw [hpool]
    exact hopen
  | segment p hsyn =>
    obtain ⟨-, -, hreceived⟩ := tcpHandleIncoming_received s.net p
    exact mt (hreceived i).toKept.open_iff.mp hopen
  | ackAccepted key tick t clientIsn ackIsn hok =>
    exact hupdate (bne_iff_ne.mp (Bool.and_eq_true_iff.mp hok).2)
  | listen port ownerPid hnone hslot => exact hupdate hslot
  | accept listenSlot hnone =>
    obtain ⟨-, -, hused⟩ := tcpAccept_used (s := s.net) listenSlot
    exact mt (hused i).open_iff.mp hopen
  | recv connId buf hnone =>
    obtain ⟨-, -, hused⟩ := tcpRecvData_used (s := s.net) connId buf
    exact mt (hused i).1.open_iff.mp hopen
  | close connId hnone hid =>
    have hne : i ≠ connId := by
      rintro rfl
      exact hclose rfl
    rw [tcpCloseConn_eq connId hid]
    dsimp only
    rw [Function.update_of_ne hne]
    exact hopen
  | connectRefused dstIp dstPort hnone hno =>
    obtain ⟨-, hpool, -⟩ := connectBegin_refused hwf.closed hno dstIp dstPort
    dsimp only
    rw [hpool]
    exact hopen
  | connectAccepted dstIp dstPort hnone hok =>
    obtain ⟨-, hpool, -⟩ := connectBegin_accepted hwf.closed hok dstIp dstPort
    dsimp only
    rw [hpool]
    exact hupdate (hslot_of (canAlloc_of_canConnect hok))
  | connectedFailed slot hsome hstate =>
    have hne : i ≠ slot := by
      rintro rfl
      exact hpolls hsome
    rw [connectEnd_refused (hwf.polls slot hsome).1 hstate]
    dsimp only
    rw [Function.update_of_ne hne]
    exact hopen
  | connectedOk slot hsome hstate =>
    obtain ⟨-, -, hused⟩ := connectEnd_used (s := s.net) hstate
    exact mt (hused i).1.open_iff.mp hopen

theorem RolesFit.listener {t : History} (h : RolesFit t) (hwf : WellFormed t.sys) {e : Event} {i : UInt64}
    (hrole : t.role i = some .listener) (hclose : e ≠ .close i) :
    (t.exec e).role i = some .listener := by
  have hi := h i
  rw [hrole] at hi
  have hopen : (t.sys.net.pool i).state ≠ tcpClosed := by
    rw [hi.1]
    decide
  unfold History.exec newRole
  dsimp only
  rw [if_neg (open_of_step hwf (exec_step hwf e) hopen hclose hi.2), if_neg hopen]
  exact hrole

/-! ### Runs -/

/-- The slot of an active open that polls is in LISTEN and has the port, and no slot below it is in LISTEN
with the port. -/
def Shadowed (s : Sys) (port : UInt16) : Prop :=
  ∃ i, s.connecting = some i ∧ (s.net.pool i).state = tcpListenState ∧ (s.net.pool i).localPort = port ∧
    ∀ j < i, (s.net.pool j).state = tcpListenState → (s.net.pool j).localPort ≠ port

/-- What the three roles may do, in a state: a listener stays in LISTEN until it is closed;
`lookup_listen` finds a listener, unless the slot that polls comes first; and a segment establishes only a
client that polls, by a SYN-ACK, or a child in SYN_RECEIVED, by an ACK. -/
structure RolesApart (t : History) : Prop where
  listener : ∀ i, t.role i = some .listener → (t.sys.net.pool i).state = tcpListenState
  stays : ∀ i e, t.role i = some .listener → e ≠ .close i → (t.exec e).role i = some .listener
  lookup : ∀ port, lookupListen t.sys.net.pool port ≠ noSlot →
    (t.role (lookupListen t.sys.net.pool port) = some .listener ↔ ¬Shadowed t.sys port)
  establish : ∀ p i, SafeSynAck t.sys p → (t.sys.net.pool i).state ≠ tcpEstablished →
    ((tcpHandleIncoming t.sys.net p).2.pool i).state = tcpEstablished →
    (t.role i = some .client ∧ t.sys.connecting = some i ∧ p.isSynAck = true) ∨
      (t.role i = some .child ∧ (t.sys.net.pool i).state = tcpSynReceived ∧ p.isAck = true)

theorem RolesFit.apart {t : History} (h : RolesFit t) (hwf : WellFormed t.sys) : RolesApart t where
  listener i hrole := by
    have hi := h i
    rw [hrole] at hi
    exact hi.1
  stays i e hrole hclose := h.listener hwf hrole hclose
  lookup port hfound := by
    obtain ⟨-, hstate, hport⟩ := lookupListen_found hfound
    have hi := h (lookupListen t.sys.net.pool port)
    rw [hstate] at hi
    rcases hi.listen with ⟨hrole, hpolls⟩ | ⟨hrole, hpolls⟩
    · refine iff_of_true hrole ?_
      rintro ⟨i, hi, hl, hp, hbelow⟩
      -- the slot that polls is another one, and not below the listener
      rcases Nat.lt_trichotomy i.toNat (lookupListen t.sys.net.pool port).toNat with hlt | heq | hgt
      · exact lookupListen_below hfound (UInt64.lt_iff_toNat_lt.mpr hlt) hl hp
      · exact hpolls (UInt64.toNat_inj.mp heq ▸ hi)
      · exact hbelow _ (UInt64.lt_iff_toNat_lt.mpr hgt) hstate hport
    · rw [hrole]
      exact iff_of_false (by decide) (not_not_intro ⟨_, hpolls, hstate, hport, fun _ hj hl =>
        lookupListen_below hfound hj hl⟩)
  establish p i hsafe hnot hest := by
    obtain ⟨-, -, hreceived⟩ := tcpHandleIncoming_received t.sys.net p
    have hi := h i
    rcases (hreceived i).changed with hsame | ⟨-, hslot, -, hshake⟩
    · rw [hsame] at hest
      exact absurd hest hnot
    · rcases hshake with ⟨hflags, hl⟩ | ⟨hflags, hl⟩
      · rw [hl] at hi
        have hpolls := hsafe hflags i hslot hl
        rcases hi.listen with ⟨-, hno⟩ | ⟨hrole, -⟩
        · exact absurd hpolls hno
        · exact .inl ⟨hrole, hpolls, hflags⟩
      · rw [hl] at hi
        exact .inr ⟨hi.synReceived, hl, hflags⟩

/-- **The roles are kept apart** in every run in which no SYN-ACK reaches a listener.  Only the slot of an
active open that polls can be found by `lookup_listen` without being a listener. -/
theorem roles_of_safe (mem : Mem) (answers : List UInt64) (es : List Event)
    (hok : Admissible History.exec Safe (History.boot mem answers) es) :
    RolesApart (runOps History.exec (History.boot mem answers) es) := by
  have hboot : RolesFit (History.boot mem answers) := fun _ => rfl
  obtain ⟨hwf, hfit⟩ := runOps_induction (I := fun t : History => WellFormed t.sys ∧ RolesFit t)
    (fun t e ht hsafe => ⟨ht.1.step (exec_step ht.1 e), ht.2.exec ht.1 hsafe⟩)
    ⟨wellFormed_boot mem answers, hboot⟩ hok
  exact hfit.apart hwf

/-- A listener, and an active open that is established by the SYN-ACK of its server. -/
def twoRoles : List Event :=
  [.listen 80 0, .connect 1 80, .receive (serverSegment 0x12), .connected]

theorem roles_of_safe_twoRoles :
    RolesApart (runOps History.exec (History.boot (fun _ => 0) [0x1000, 0x2000]) twoRoles) := by
  refine roles_of_safe _ _ twoRoles ⟨trivial, trivial, ?_, trivial, trivial⟩
  -- the slot that has the ends of the SYN-ACK is the one that polls
  rintro - i rfl -
  unfold History.exec History.boot
  dsimp only
  rw [exec_boot_listen]
  decide +kernel

/-- While an active open polls, `lookup_listen` finds its slot. -/
theorem not_lookupListen_listener :
    ¬∀ (mem : Mem) (answers : List UInt64) (es : List Event) (port : UInt16),
      lookupListen (runOps History.exec (History.boot mem answers) es).sys.net.pool port ≠ noSlot →
      (runOps History.exec (History.boot mem answers) es).role
        (lookupListen (runOps History.exec (History.boot mem answers) es).sys.net.pool port) =
        some .listener := by
  intro h
  obtain ⟨hpool, -⟩ := exec_boot_connect (fun _ => 0) [0x1000, 0x2000] 1 8080 (by decide +kernel)
  have hpage : (Sys.boot (fun _ => 0) [0x1000, 0x2000]).net.allocPage.1 = 0x1000 := rfl
  rw [hpage] at hpool
  have hslot : lookupListen (runOps History.exec (History.boot (fun _ => 0) [0x1000, 0x2000])
      [.connect 1 8080]).sys.net.pool clientPort = 0 := by
    rw [runOps_cons, runOps_nil]
    unfold History.exec History.boot
    dsimp only
    rw [hpool]
    decide +kernel
  have hrole := h (fun _ => 0) [0x1000, 0x2000] [.connect 1 8080] clientPort (by rw [hslot]; decide)
  rw [hslot, runOps_cons, runOps_nil] at hrole
  unfold History.exec History.boot newRole at hrole
  dsimp only at hrole
  rw [hpool, Function.update_self, if_neg (by decide), if_pos (by decide)] at hrole
  exact absurd hrole (by decide)

end Keuos.Tcp
