import Keuos.Tcp.Equiv.Calls

/-!
# The identity of a connection

A connection is known by its local port and its remote end.  A cookie ACK looks for a connection with its
ends before it takes a slot; a SYN for a listening port and an active open do not, so a SYN that is sent
again makes a second connection with the same ends.

## Main results

* `identity_of_fresh` – where no SYN and no active open is for ends that a connection already has, connections
  have different ends, and repeated handshake segments take no slot.
-/

namespace Keuos.Tcp

/-- The slot is neither closed nor a listener. -/
def Held (s : Sys) (i : UInt64) : Prop :=
  (s.net.pool i).state ≠ tcpClosed ∧
    ((s.net.pool i).state ≠ tcpListenState ∨ s.connecting = some i)

/-- No two connections have the same ends. -/
def Distinct (s : Sys) : Prop :=
  ∀ i j, Held s i → Held s j → (s.net.pool i).ends = (s.net.pool j).ends → i = j

/-- A SYN that is accepted, and an active open, are for ends that no connection has; and a SYN-ACK does not
reach a listener, which only one from the address 0 and the port 0 can. -/
def Fresh (s : Sys) : Event → Prop
  | .receive p =>
    (p.isSyn = true → acceptsSyn s.net p = true →
      ∀ i, Held s i → (s.net.pool i).ends ≠ (p.dstPort, p.srcIp, p.srcPort)) ∧
    (p.isSynAck = true → ∀ i, i = lookup s.net.pool p.dstPort p.srcIp p.srcPort →
      (s.net.pool i).state = tcpListenState → s.connecting = some i)
  | .connect dstIp dstPort =>
    s.connecting = none → canConnect s.net = true →
      ∀ i, Held s i → (s.net.pool i).ends ≠ (clientPort, dstIp, dstPort)
  | _ => True

section Distinct

variable {s s' : Sys} (h : Distinct s)

include h

theorem Distinct.mono
    (hheld : ∀ i, Held s' i → Held s i ∧ (s'.net.pool i).ends = (s.net.pool i).ends) : Distinct s' := by
  intro i j hi hj hends
  obtain ⟨hi, hiends⟩ := hheld i hi
  obtain ⟨hj, hjends⟩ := hheld j hj
  exact h i j hi hj (by rw [← hiends, ← hjends, hends])

theorem Distinct.take (slot : UInt64)
    (hheld : ∀ i ≠ slot, Held s' i → Held s i ∧ (s'.net.pool i).ends = (s.net.pool i).ends)
    (hfresh : ∀ i, Held s i → (s.net.pool i).ends ≠ (s'.net.pool slot).ends) : Distinct s' := by
  intro i j hi hj hends
  by_cases hislot : i = slot
  · by_cases hjslot : j = slot
    · rw [hislot, hjslot]
    · obtain ⟨hj, hjends⟩ := hheld j hjslot hj
      rw [hislot, hjends] at hends
      exact absurd hends.symm (hfresh j hj)
  · obtain ⟨hi, hiends⟩ := hheld i hislot hi
    by_cases hjslot : j = slot
    · rw [hjslot, hiends] at hends
      exact absurd hends (hfresh i hi)
    · obtain ⟨hj, hjends⟩ := hheld j hjslot hj
      exact h i j hi hj (by rw [← hiends, ← hjends, hends])

end Distinct

section Held

variable {s : Sys}

theorem held_of_same {net : Net} {connecting : Option UInt64} {i : UInt64}
    (hk : (s.net.pool i).Kept (net.pool i)) (hsame : (net.pool i).state = (s.net.pool i).state)
    (hi : Held ⟨net, connecting⟩ i) (hconn : connecting = some i → s.connecting = some i) :
    Held s i ∧ (net.pool i).ends = (s.net.pool i).ends := by
  refine ⟨⟨?_, ?_⟩, hk.ends⟩
  · rw [← hsame]
    exact hi.1
  · rw [← hsame]
    exact hi.2.imp_right hconn

theorem held_update {slot i : UInt64} {c : Tcb} {connecting : Option UInt64} {net : Net}
    (hpool : net.pool = Function.update s.net.pool slot c) (hislot : i ≠ slot)
    (hi : Held ⟨net, connecting⟩ i) (hconn : connecting = some i → s.connecting = some i) :
    Held s i ∧ (net.pool i).ends = (s.net.pool i).ends := by
  have hsame : net.pool i = s.net.pool i := by rw [hpool, Function.update_of_ne hislot]
  exact held_of_same (hsame ▸ .refl _) (by rw [hsame]) hi hconn

theorem held_release {slot i : UInt64} {connecting : Option UInt64} {net : Net}
    (hpool : net.pool = Function.update s.net.pool slot Tcb.zero)
    (hi : Held ⟨net, connecting⟩ i) (hconn : connecting = some i → s.connecting = some i) :
    Held s i ∧ (net.pool i).ends = (s.net.pool i).ends := by
  refine held_update hpool ?_ hi hconn
  rintro rfl
  have hopen := hi.1
  dsimp only at hopen
  rw [hpool, Function.update_self] at hopen
  exact hopen rfl

theorem held_of_syn (hwf : WellFormed s) {p : Packet} (hok : acceptsSyn s.net p = true) {i : UInt64}
    (hislot : i ≠ closedSlot s.net.pool) (hi : Held ⟨(handleServerSyn s.net p).2, s.connecting⟩ i) :
    Held s i ∧ ((handleServerSyn s.net p).2.pool i).ends = (s.net.pool i).ends := by
  obtain ⟨-, -, -, -, -, -, hothers⟩ := handleServerSyn_accepted hwf.closed hok
  obtain ⟨hk, -, hchanged⟩ := hothers i hislot
  rcases hchanged with hsame | hloop
  · exact held_of_same hk hsame hi id
  · -- a slot with a remote end on this machine is no listener
    have hopen := mt hk.open_iff.mpr hi.1
    refine ⟨⟨hopen, ?_⟩, hk.ends⟩
    by_cases hl : (s.net.pool i).state = tcpListenState
    · refine .inr ((hwf.listen i hl).resolve_right fun hzero => ?_)
      rw [hzero.1] at hloop
      exact absurd hloop (by decide)
    · exact .inl hl

end Held

/-- **One step** to fresh ends keeps the connections apart. -/
theorem Distinct.step {s s' : Sys} {e : Event} (h : Distinct s) (hwf : WellFormed s) (hfresh : Fresh s e)
    (hstep : Step s e s') : Distinct s' := by
  cases hstep with
  | wait hcall hpolls => exact h
  | synAccepted p hsyn hok =>
    obtain ⟨-, -, -, -, hends, -⟩ := handleServerSyn_accepted hwf.closed hok
    refine h.take (closedSlot s.net.pool) (fun i hislot hi => held_of_syn hwf hok hislot hi) fun i hi => ?_
    dsimp only
    rw [hends]
    exact hfresh.1 hsyn hok i hi
  | synRefused p hsyn hno =>
    obtain ⟨-, hpool, -⟩ := handleServerSyn_refused hwf.closed hno
    refine h.mono fun i hi => ?_
    exact held_of_same (by rw [hpool]; exact .refl _) (by rw [hpool]) hi id
  | segment p hsyn =>
    obtain ⟨-, -, hreceived⟩ := tcpHandleIncoming_received s.net p
    refine h.mono fun i hi => ?_
    have hk := (hreceived i).toKept
    rcases (hreceived i).changed with hsame | ⟨-, hslot, -, hshake⟩
    · exact held_of_same hk hsame hi id
    · refine ⟨⟨mt hk.open_iff.mpr hi.1, ?_⟩, hk.ends⟩
      -- a segment opens a connection in a listener, or completes a handshake
      rcases hshake with ⟨hflags, hl⟩ | ⟨-, hstate⟩
      · exact .inr (hfresh.2 hflags i hslot hl)
      · rw [hstate]
        exact .inl (by decide)
  | ackRefused => exact h
  | ackAccepted key tick t clientIsn ackIsn hok =>
    obtain ⟨hvalid, hslot⟩ := Bool.and_eq_true_iff.mp hok
    have hnone := beq_iff_eq.mp (Bool.and_eq_true_iff.mp hvalid).2
    refine h.take (closedSlot s.net.pool) (fun i hislot hi => held_update rfl hislot hi id)
      fun i hi => ?_
    dsimp only
    rw [Function.update_self]
    exact lookup_none hnone (hwf.inPool i hi.1) hi.1
  | listenFull => exact h
  | listen port ownerPid hnone hslot =>
    refine h.mono fun i hi => ?_
    by_cases hislot : i = closedSlot s.net.pool
    · -- the new slot is a listener
      exfalso
      rw [hislot] at hi
      have hl := hi.2
      dsimp only at hl
      rw [Function.update_self] at hl
      rcases hl with hl | hl
      · exact hl rfl
      · cases hl
    · exact held_update rfl hislot hi nofun
  | accept listenSlot hnone =>
    obtain ⟨-, -, hused⟩ := tcpAccept_used (s := s.net) listenSlot
    exact h.mono fun i hi => held_of_same (hused i).toKept (hused i).same hi nofun
  | recv connId buf hnone =>
    obtain ⟨-, -, hused⟩ := tcpRecvData_used (s := s.net) connId buf
    exact h.mono fun i hi => held_of_same (hused i).1.toKept (hused i).1.same hi nofun
  | closeNone => exact h
  | close connId hnone hid =>
    rw [tcpCloseConn_eq connId hid]
    exact h.mono fun i hi => held_release rfl hi nofun
  | connectRefused dstIp dstPort hnone hno =>
    obtain ⟨-, hpool, -⟩ := connectBegin_refused hwf.closed hno dstIp dstPort
    refine h.mono fun i hi => ?_
    exact held_of_same (by rw [hpool]; exact .refl _) (by rw [hpool]) hi nofun
  | connectAccepted dstIp dstPort hnone hok =>
    obtain ⟨-, hpool, -⟩ := connectBegin_accepted hwf.closed hok dstIp dstPort
    refine h.take (closedSlot s.net.pool) (fun i hislot hi => ?_) fun i hi => ?_
    · refine held_update hpool hislot hi fun hsome => ?_
      exact absurd (Option.some.inj hsome).symm hislot
    · dsimp only
      rw [hpool, Function.update_self]
      exact hfresh hnone hok i hi
  | connectedNone => exact h
  | connectedFailed slot hpolls hstate =>
    rw [connectEnd_refused (hwf.polls slot hpolls).1 hstate]
    exact h.mono fun i hi => held_release rfl hi nofun
  | connectedOk slot hpolls hstate =>
    obtain ⟨-, -, hused⟩ := connectEnd_used (s := s.net) hstate
    exact h.mono fun i hi => held_of_same (hused i).1.toKept (hused i).1.same hi nofun

/-! ### Repeated handshakes -/

/-- A connection of the pool: neither CLOSED nor LISTEN. -/
def Connected (s : Sys) (i : UInt64) : Prop :=
  (s.net.pool i).state ≠ tcpClosed ∧ (s.net.pool i).state ≠ tcpListenState

theorem Connected.held {s : Sys} {i : UInt64} (h : Connected s i) : Held s i :=
  ⟨h.1, .inl h.2⟩

theorem connected_of_acceptsSyn {s : Sys} (hwf : WellFormed s) {p : Packet} (hsyn : p.isSyn = true)
    (hok : acceptsSyn s.net p = true) :
    Connected (exec s (.receive p)) (closedSlot s.net.pool) ∧
      ((exec s (.receive p)).net.pool (closedSlot s.net.pool)).ends = (p.dstPort, p.srcIp, p.srcPort) := by
  obtain ⟨-, -, -, hstate, hends, -⟩ := handleServerSyn_accepted hwf.closed hok
  unfold exec Connected
  dsimp only
  rw [handleTcpNotify_accepted hwf.closed hsyn hok]
  refine ⟨⟨?_, ?_⟩, hends⟩
  · rw [hstate]
    decide
  · rw [hstate]
    decide

theorem activeCount_syn {s : Sys} (hwf : WellFormed s) {p : Packet} (hsyn : p.isSyn = true)
    (hfresh : Fresh s (.receive p))
    (hheld : ∃ i, Connected s i ∧ (s.net.pool i).ends = (p.dstPort, p.srcIp, p.srcPort)) :
    activeCount (exec s (.receive p)).net.pool = activeCount s.net.pool := by
  obtain ⟨i, hi, hends⟩ := hheld
  have hno : acceptsSyn s.net p = false := by
    rw [Bool.eq_false_iff]
    intro hok
    exact hfresh.1 hsyn hok i hi.held hends
  obtain ⟨-, hpool, -⟩ := handleServerSyn_refused hwf.closed hno
  unfold exec
  dsimp only
  rw [handleTcpNotify_refused hwf.closed hsyn hno, hpool]

theorem activeCount_ack {s : Sys} (hwf : WellFormed s) (key : Secret) (tick : UInt64) {t : Tuple}
    (clientIsn ackIsn : UInt32)
    (hheld : ∃ i, Connected s i ∧ (s.net.pool i).ends = (t.dstPort, t.srcIp, t.srcPort)) :
    activeCount (exec s (.ack key tick t clientIsn ackIsn)).net.pool = activeCount s.net.pool := by
  obtain ⟨i, hi, hends⟩ := hheld
  have hno : takesAck key tick s.net t clientIsn ackIsn = false := by
    rw [Bool.eq_false_iff]
    intro hok
    have hnone := beq_iff_eq.mp (Bool.and_eq_true_iff.mp (Bool.and_eq_true_iff.mp hok).1).2
    exact lookup_none hnone (hwf.inPool i hi.1) hi.1 hends
  unfold exec
  dsimp only
  rw [handleAck_refused hno]

/-- **Connection identity.** In every run in which accepted SYNs and active opens are for ends that no
connection has, and no SYN-ACK reaches a listener, no two connections have the same ends, and a SYN
or a cookie ACK for the ends of a connection leaves the number of open slots as it was. -/
theorem identity_of_fresh (mem : Mem) (answers : List UInt64) (es : List Event)
    (hok : Admissible exec Fresh (Sys.boot mem answers) es) :
    (∀ i j, Connected (runOps exec (Sys.boot mem answers) es) i →
      Connected (runOps exec (Sys.boot mem answers) es) j →
      ((runOps exec (Sys.boot mem answers) es).net.pool i).ends =
        ((runOps exec (Sys.boot mem answers) es).net.pool j).ends → i = j) ∧
    (∀ p : Packet, p.isSyn = true → Fresh (runOps exec (Sys.boot mem answers) es) (.receive p) →
      (∃ i, Connected (runOps exec (Sys.boot mem answers) es) i ∧
        ((runOps exec (Sys.boot mem answers) es).net.pool i).ends = (p.dstPort, p.srcIp, p.srcPort)) →
      activeCount (exec (runOps exec (Sys.boot mem answers) es) (.receive p)).net.pool =
        activeCount (runOps exec (Sys.boot mem answers) es).net.pool) ∧
    ∀ (key : Secret) (tick : UInt64) (t : Tuple) (clientIsn ackIsn : UInt32),
      (∃ i, Connected (runOps exec (Sys.boot mem answers) es) i ∧
        ((runOps exec (Sys.boot mem answers) es).net.pool i).ends = (t.dstPort, t.srcIp, t.srcPort)) →
      activeCount (exec (runOps exec (Sys.boot mem answers) es)
          (.ack key tick t clientIsn ackIsn)).net.pool =
        activeCount (runOps exec (Sys.boot mem answers) es).net.pool := by
  have hboot : Distinct (Sys.boot mem answers) := fun i _ hi _ _ => absurd rfl hi.1
  obtain ⟨hwf, hdistinct⟩ := runOps_induction (I := fun s => WellFormed s ∧ Distinct s)
    (fun s e hs hfresh => ⟨hs.1.step (exec_step hs.1 e), hs.2.step hs.1 hfresh (exec_step hs.1 e)⟩)
    ⟨wellFormed_boot mem answers, hboot⟩ hok
  refine ⟨fun i j hi hj hends => hdistinct i j hi.held hj.held hends, ?_, ?_⟩
  · intro p hsyn hfresh hheld
    exact activeCount_syn hwf hsyn hfresh hheld
  · intro key tick t clientIsn ackIsn hheld
    exact activeCount_ack hwf key tick clientIsn ackIsn hheld

/-- A listener on port 80, and a SYN for it from port 5 of a machine. -/
def oneSyn : List Event := [.listen 80 0, .receive (bareSegment 1 5 80 2)]

theorem runOps_oneSyn (answers : List UInt64) :
    runOps exec (Sys.boot (fun _ => 0) answers) oneSyn =
      exec (listening (fun _ => 0) answers 80 0) (.receive (bareSegment 1 5 80 2)) := by
  unfold oneSyn
  rw [runOps_cons, exec_boot_listen]
  rfl

theorem not_held_listening (mem : Mem) (answers : List UInt64) (port : UInt16) (ownerPid i : UInt64) :
    ¬Held (listening mem answers port ownerPid) i := by
  intro hi
  unfold Held listening at hi
  dsimp only at hi
  by_cases hi0 : i = 0
  · rw [hi0, Function.update_self] at hi
    rcases hi.2 with hl | hl
    · exact hl rfl
    · cases hl
  · rw [Function.update_of_ne hi0] at hi
    exact hi.1 rfl

/-- SYNs from two ports of a machine. -/
def twoSyns : List Event := oneSyn ++ [.receive (bareSegment 1 6 80 2)]

theorem identity_of_fresh_twoSyns :
    let s := runOps exec (Sys.boot (fun _ => 0) [0x1000, 0x2000, 0x3000, 0x4000]) twoSyns
    Connected s 1 ∧ Connected s 2 ∧ ∀ i j, Connected s i → Connected s j →
      (s.net.pool i).ends = (s.net.pool j).ends → i = j := by
  have hboot : ∀ p : Packet, runOps exec (Sys.boot (fun _ => 0) [0x1000, 0x2000, 0x3000, 0x4000])
      (oneSyn ++ [.receive p]) =
      exec (exec (listening (fun _ => 0) [0x1000, 0x2000, 0x3000, 0x4000] 80 0)
        (.receive (bareSegment 1 5 80 2))) (.receive p) := by
    intro p
    rw [runOps_append, runOps_oneSyn]
    rfl
  have hwf : WellFormed (listening (fun _ => 0) [0x1000, 0x2000, 0x3000, 0x4000] 80 0) := by
    rw [← exec_boot_listen]
    exact wellFormed_run _ _ [.listen 80 0]
  have hok : acceptsSyn (listening (fun _ => 0) [0x1000, 0x2000, 0x3000, 0x4000] 80 0).net
      (bareSegment 1 5 80 2) = true := by decide +kernel
  have hslot : closedSlot (listening (fun _ => 0) [0x1000, 0x2000, 0x3000, 0x4000] 80 0).net.pool = 1 := by
    decide +kernel
  refine ⟨?_, ?_, (identity_of_fresh _ _ twoSyns ⟨trivial, ?_, ?_, trivial⟩).1⟩
  · unfold twoSyns
    rw [hboot]
    exact ⟨by decide +kernel, by decide +kernel⟩
  · unfold twoSyns
    rw [hboot]
    exact ⟨by decide +kernel, by decide +kernel⟩
  · rw [exec_boot_listen]
    exact ⟨fun _ _ i hi => (not_held_listening _ _ _ _ i hi).elim, fun hflags => absurd hflags (by decide)⟩
  · -- the only connection is the one of the first SYN
    rw [exec_boot_listen]
    refine ⟨fun _ _ i hi => ?_, fun hflags => absurd hflags (by decide)⟩
    unfold exec at hi ⊢
    dsimp only at hi ⊢
    rw [handleTcpNotify_accepted hwf.closed (by decide) hok] at hi ⊢
    by_cases hi1 : i = 1
    · rw [hi1]
      decide +kernel
    · exact (not_held_listening _ _ _ _ i (held_of_syn hwf hok (hslot ▸ hi1) hi).1).elim

/-- **A SYN for the ends of a connection**, when it is accepted, makes a second one. -/
theorem second_of_acceptsSyn {s : Sys} (hwf : WellFormed s) {p : Packet} (hsyn : p.isSyn = true)
    (hok : acceptsSyn s.net p = true) {i : UInt64} (hi : Connected s i)
    (hends : (s.net.pool i).ends = (p.dstPort, p.srcIp, p.srcPort)) :
    ∃ j ≠ i, Connected (exec s (.receive p)) i ∧ Connected (exec s (.receive p)) j ∧
      ((exec s (.receive p)).net.pool i).ends = ((exec s (.receive p)).net.pool j).ends := by
  obtain ⟨hnew, hnewends⟩ := connected_of_acceptsSyn hwf hsyn hok
  obtain ⟨-, hclosed⟩ := slot_of_canAlloc (canAlloc_of_acceptsSyn hok)
  have hne : i ≠ closedSlot s.net.pool := by
    rintro rfl
    exact hi.1 hclosed
  have hk : (s.net.pool i).Kept ((exec s (.receive p)).net.pool i) := by
    unfold exec
    dsimp only
    rw [handleTcpNotify_accepted hwf.closed hsyn hok]
    obtain ⟨-, -, -, -, -, -, hothers⟩ := handleServerSyn_accepted hwf.closed hok
    exact (hothers i hne).1
  refine ⟨closedSlot s.net.pool, hne.symm, ⟨mt hk.open_iff.mp hi.1, mt hk.listen hi.2⟩, hnew, ?_⟩
  rw [hk.ends, hends, hnewends]

/-- The SYN is sent again: two connections have the same ends. -/
theorem not_distinct_of_syn_again :
    ¬∀ (mem : Mem) (answers : List UInt64) (es : List Event) (i j : UInt64),
      Connected (runOps exec (Sys.boot mem answers) es) i →
      Connected (runOps exec (Sys.boot mem answers) es) j →
      ((runOps exec (Sys.boot mem answers) es).net.pool i).ends =
        ((runOps exec (Sys.boot mem answers) es).net.pool j).ends → i = j := by
  intro h
  have hwf := wellFormed_run (fun _ => 0) [0x1000, 0x2000, 0x3000, 0x4000] oneSyn
  have hrun : runOps exec (Sys.boot (fun _ => 0) [0x1000, 0x2000, 0x3000, 0x4000])
      (oneSyn ++ [.receive (bareSegment 1 5 80 2)]) =
      exec (exec (listening (fun _ => 0) [0x1000, 0x2000, 0x3000, 0x4000] 80 0)
        (.receive (bareSegment 1 5 80 2))) (.receive (bareSegment 1 5 80 2)) := by
    rw [runOps_append, runOps_oneSyn]
    rfl
  rw [runOps_oneSyn] at hwf
  obtain ⟨j, hne, hi, hj, hends⟩ := second_of_acceptsSyn (p := bareSegment 1 5 80 2) (i := 1) hwf
    (by decide +kernel) (by decide +kernel) ⟨by decide +kernel, by decide +kernel⟩ (by decide +kernel)
  rw [← hrun] at hi hj hends
  exact hne (h _ _ _ j 1 hj hi hends.symm)

end Keuos.Tcp
