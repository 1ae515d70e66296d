import Keuos.Tcp.Equiv.Calls

/-!
# The accept queue

A listener has room for one child that waits for an accept.  A second SYN before the next accept overwrites
it, and the first child is never returned.

## Main results

* `accepted_of_room` – in every run in which each accepted SYN finds no child waiting at its listener, the
  accepts return the children in the order in which they were created, each once.
-/

namespace Keuos.Tcp

/-- The connections, with the children that were created at a listener and those that its accepts have
returned. -/
structure Queue where
  sys : Sys
  created : UInt64 → List UInt64
  accepted : UInt64 → List UInt64

def Queue.boot (mem : Mem) (answers : List UInt64) : Queue :=
  ⟨Sys.boot mem answers, fun _ => [], fun _ => []⟩

/-- The children after an event.  A new listener has none. -/
def createdAfter (t : Queue) : Event → UInt64 → List UInt64
  | .receive p =>
    let l := lookupListen t.sys.net.pool p.dstPort
    if p.isSyn && acceptsSyn t.sys.net p then
      Function.update t.created l (t.created l ++ [closedSlot t.sys.net.pool])
    else t.created
  | .listen .. =>
    if t.sys.connecting.isNone then Function.update t.created (closedSlot t.sys.net.pool) []
    else t.created
  | _ => t.created

/-- The returned children after an event. -/
def acceptedAfter (t : Queue) : Event → UInt64 → List UInt64
  | .accept l =>
    let child := (tcpAccept t.sys.net l).1
    if t.sys.connecting.isNone && child != none64 then
      Function.update t.accepted l (t.accepted l ++ [child])
    else t.accepted
  | .listen .. =>
    if t.sys.connecting.isNone then Function.update t.accepted (closedSlot t.sys.net.pool) []
    else t.accepted
  | _ => t.accepted

def Queue.exec (t : Queue) (e : Event) : Queue :=
  ⟨Tcp.exec t.sys e, createdAfter t e, acceptedAfter t e⟩

/-- An accepted SYN finds no child waiting at its listener. -/
def Room (t : Queue) : Event → Prop
  | .receive p => p.isSyn = true → acceptsSyn t.sys.net p = true →
    (t.sys.net.pool (lookupListen t.sys.net.pool p.dstPort)).pendingAccept = none64
  | _ => True

/-- The child that waits. -/
def waiting (c : Tcb) : List UInt64 := if c.pendingAccept = none64 then [] else [c.pendingAccept]

/-- The slot is a listener. -/
def Listening (s : Sys) (i : UInt64) : Prop :=
  (s.net.pool i).state = tcpListenState ∧ s.connecting ≠ some i

/-- Every child of a listener was returned, or waits. -/
def QueueLaw (t : Queue) : Prop :=
  ∀ i, Listening t.sys i → t.created i = t.accepted i ++ waiting (t.sys.net.pool i)

theorem waiting_eq {c c' : Tcb} (h : c'.pendingAccept = c.pendingAccept) : waiting c' = waiting c := by
  unfold waiting
  rw [h]

theorem Listening.of_kept {s : Sys} {net : Net} {connecting : Option UInt64} {i : UInt64}
    (h : Listening ⟨net, connecting⟩ i) (hk : (s.net.pool i).Kept (net.pool i))
    (hconn : s.connecting = some i → connecting = some i) : Listening s i :=
  ⟨hk.listen h.1, mt hconn h.2⟩

theorem Listening.ne_of_update {s : Sys} {slot i : UInt64} {c : Tcb} {pool : Pool} (hi : Listening s i)
    (hpool : s.net.pool = Function.update pool slot c) (hc : c.state ≠ tcpListenState) : i ≠ slot := by
  rintro rfl
  have hl := hi.1
  rw [hpool, Function.update_self] at hl
  exact hc hl

/-- **One step** with room at the listener keeps the law. -/
theorem QueueLaw.exec {t : Queue} (h : QueueLaw t) (hwf : WellFormed t.sys) {e : Event} (hroom : Room t e) :
    QueueLaw (t.exec e) := by
  obtain ⟨s, created, accepted⟩ := t
  unfold Queue.exec QueueLaw
  dsimp only at hwf ⊢
  have hstep := exec_step hwf e
  generalize Tcp.exec s e = s' at hstep ⊢
  intro i hi
  have hlaw : Listening s i → created i = accepted i ++ waiting (s.net.pool i) := h i
  cases hstep with
  | wait hcall hpolls =>
    have hsome : s.connecting.isNone = false := by simpa using hpolls
    have hcreated : createdAfter ⟨s, created, accepted⟩ e = created := by
      cases e with
      | receive => cases hcall
      | listen => exact if_neg (by rw [hsome]; decide)
      | _ => rfl
    have haccepted : acceptedAfter ⟨s, created, accepted⟩ e = accepted := by
      cases e with
      | accept l => exact if_neg (by rw [hsome]; exact nofun)
      | listen => exact if_neg (by rw [hsome]; decide)
      | _ => rfl
    rw [hcreated, haccepted]
    exact hlaw hi
  | synAccepted p hsyn hok =>
    obtain ⟨-, -, -, hstate, -, -, hothers⟩ := handleServerSyn_accepted hwf.closed hok
    have hislot : i ≠ closedSlot s.net.pool := by
      rintro rfl
      have hl := hi.1
      dsimp only at hl
      rw [hstate] at hl
      exact absurd hl (by decide)
    obtain ⟨hk, hpending, -⟩ := hothers i hislot
    have hlaw := hlaw (hi.of_kept hk id)
    unfold createdAfter acceptedAfter
    dsimp only
    rw [if_pos (by rw [hsyn, hok]; rfl)]
    by_cases hl : i = lookupListen s.net.pool p.dstPort
    · have hempty : (s.net.pool i).pendingAccept = none64 := by
        rw [hl]
        exact hroom hsyn hok
      have hchild := (lt_maxTcpSockets_ne (slot_of_canAlloc (canAlloc_of_acceptsSyn hok)).1).2
      rw [if_pos hl] at hpending
      unfold waiting at hlaw ⊢
      rw [if_pos hempty, List.append_nil] at hlaw
      rw [hpending, if_neg hchild, ← hl, Function.update_self, hlaw]
    · rw [if_neg hl] at hpending
      rw [Function.update_of_ne hl, waiting_eq hpending]
      exact hlaw
  | synRefused p hsyn hno =>
    obtain ⟨-, hpool, -⟩ := handleServerSyn_refused hwf.closed hno
    unfold createdAfter acceptedAfter
    dsimp only
    rw [if_neg (by rw [hno, Bool.and_false]; decide), hpool]
    refine hlaw (hi.of_kept ?_ id)
    rw [hpool]
    exact .refl _
  | segment p hsyn =>
    obtain ⟨-, -, hreceived⟩ := tcpHandleIncoming_received s.net p
    unfold createdAfter acceptedAfter
    dsimp only
    rw [if_neg (by rw [hsyn, Bool.false_and]; decide), waiting_eq (hreceived i).pending]
    exact hlaw (hi.of_kept (hreceived i).toKept id)
  | ackRefused => exact hlaw hi
  | ackAccepted key tick t clientIsn ackIsn hok =>
    have hislot := hi.ne_of_update rfl (by decide : tcpEstablished ≠ tcpListenState)
    dsimp only
    rw [Function.update_of_ne hislot]
    exact hlaw (hi.of_kept (kept_update i hislot) id)
  | listenFull port ownerPid hfull =>
    have hislot : i ≠ closedSlot s.net.pool := by
      rw [hfull]
      refine (lt_maxTcpSockets_ne (hwf.inPool i ?_)).1
      rw [hi.1]
      decide
    unfold createdAfter acceptedAfter
    dsimp only
    split
    · rw [Function.update_of_ne hislot, Function.update_of_ne hislot]
      exact hlaw hi
    · exact hlaw hi
  | listen port ownerPid hnone hslot =>
    unfold createdAfter acceptedAfter
    dsimp only
    rw [hnone, if_pos (by decide), if_pos (by decide)]
    by_cases hislot : i = closedSlot s.net.pool
    · -- a new listener
      rw [hislot, Function.update_self, Function.update_self, Function.update_self]
      rfl
    · rw [Function.update_of_ne hislot, Function.update_of_ne hislot, Function.update_of_ne hislot]
      refine hlaw (hi.of_kept (kept_update i hislot) ?_)
      rw [hnone]
      exact id
  | accept listenSlot hnone =>
    obtain ⟨-, -, hused⟩ := tcpAccept_used (s := s.net) listenSlot
    have hlaw := hlaw (hi.of_kept (hused i).toKept (by rw [hnone]; exact id))
    unfold createdAfter acceptedAfter
    dsimp only
    rw [hnone]
    rcases tcpAccept_cases (s := s.net) listenSlot with ⟨hret, hsame⟩ | ⟨hne, hret, hmodify⟩
    · rw [hret, if_neg (by decide), hsame]
      exact hlaw
    · rw [if_pos (by simpa using hne), hmodify, pool_modify]
      by_cases hl : i = listenSlot
      · subst hl
        rw [Function.update_self, modify_self, hlaw, hret]
        unfold waiting
        rw [if_neg (by rw [← hret]; exact hne)]
        dsimp only
        rw [if_pos rfl, List.append_nil]
      · rw [Function.update_of_ne hl, modify_of_ne _ hl]
        exact hlaw
  | recv connId buf hnone =>
    obtain ⟨-, -, hused⟩ := tcpRecvData_used (s := s.net) connId buf
    dsimp only
    rw [waiting_eq (hused i).2]
    exact hlaw (hi.of_kept (hused i).1.toKept (by rw [hnone]; exact id))
  | closeNone => exact hlaw hi
  | close connId hnone hid =>
    rw [tcpCloseConn_eq connId hid] at hi ⊢
    have hislot := hi.ne_of_update rfl (by decide)
    dsimp only
    rw [Function.update_of_ne hislot]
    exact hlaw (hi.of_kept (kept_update i hislot) (by rw [hnone]; exact id))
  | connectRefused dstIp dstPort hnone hno =>
    obtain ⟨-, hpool, -⟩ := connectBegin_refused hwf.closed hno dstIp dstPort
    dsimp only
    rw [hpool]
    refine hlaw (hi.of_kept ?_ (by rw [hnone]; exact id))
    rw [hpool]
    exact .refl _
  | connectAccepted dstIp dstPort hnone hok =>
    obtain ⟨-, hpool, -⟩ := connectBegin_accepted hwf.closed hok dstIp dstPort
    have hislot : i ≠ closedSlot s.net.pool := by
      rintro rfl
      exact hi.2 rfl
    dsimp only
    rw [hpool, Function.update_of_ne hislot]
    refine hlaw (hi.of_kept ?_ (by rw [hnone]; exact nofun))
    rw [hpool]
    exact kept_update i hislot
  | connectedNone => exact hlaw hi
  | connectedFailed slot hpolls hstate =>
    rw [connectEnd_refused (hwf.polls slot hpolls).1 hstate] at hi ⊢
    have hislot := hi.ne_of_update rfl (by decide)
    dsimp only
    rw [Function.update_of_ne hislot]
    refine hlaw (hi.of_kept (kept_update i hislot) fun heq => ?_)
    rw [hpolls] at heq
    exact absurd (Option.some.inj heq).symm hislot
  | connectedOk slot hpolls hstate =>
    obtain ⟨-, -, hused⟩ := connectEnd_used (s := s.net) hstate
    dsimp only
    rw [waiting_eq (hused i).2]
    refine hlaw (hi.of_kept (hused i).1.toKept fun heq => ?_)
    -- the slot that polled is established
    rw [hpolls] at heq
    have hl := (hused i).1.same
    have hi := hi.1
    dsimp only at hi
    rw [hi, ← Option.some.inj heq, hstate] at hl
    exact absurd hl (by decide)

/-- **The accept queue** loses nothing in every run in which an accepted SYN finds no child waiting at its
listener: the children of a listener, in order of creation, are those that its accepts have returned, and
then the one that waits, which the next accept returns. -/
theorem accepted_of_room (mem : Mem) (answers : List UInt64) (es : List Event)
    (hok : Admissible Queue.exec Room (Queue.boot mem answers) es) (i : UInt64)
    (hi : Listening (runOps Queue.exec (Queue.boot mem answers) es).sys i) :
    (runOps Queue.exec (Queue.boot mem answers) es).created i =
        (runOps Queue.exec (Queue.boot mem answers) es).accepted i ++
          waiting ((runOps Queue.exec (Queue.boot mem answers) es).sys.net.pool i) ∧
      (tcpAccept (runOps Queue.exec (Queue.boot mem answers) es).sys.net i).1 =
        ((runOps Queue.exec (Queue.boot mem answers) es).sys.net.pool i).pendingAccept := by
  have hboot : QueueLaw (Queue.boot mem answers) := fun _ _ => rfl
  obtain ⟨hwf, hlaw⟩ := runOps_induction (I := fun t : Queue => WellFormed t.sys ∧ QueueLaw t)
    (fun t e ht hroom => ⟨ht.1.step (exec_step ht.1 e), ht.2.exec ht.1 hroom⟩)
    ⟨wellFormed_boot mem answers, hboot⟩ hok
  refine ⟨hlaw i hi, tcpAccept_pending (hwf.inPool i ?_) hi.1⟩
  rw [hi.1]
  decide

/-- One listener, with answers for two children. -/
def listeningQueue : Queue :=
  ⟨listening (fun _ => 0) [0x1000, 0x2000, 0x3000, 0x4000] 80 0, fun _ => [], fun _ => []⟩

theorem runOps_listeningQueue (es : List Event) :
    runOps Queue.exec (Queue.boot (fun _ => 0) [0x1000, 0x2000, 0x3000, 0x4000]) (.listen 80 0 :: es) =
      runOps Queue.exec listeningQueue es := by
  have hslot : ∀ l : UInt64, Function.update (fun _ : UInt64 => ([] : List UInt64)) l [] = fun _ => [] :=
    fun l => Function.update_eq_self l _
  rw [runOps_cons]
  unfold Queue.exec Queue.boot createdAfter acceptedAfter
  dsimp only
  rw [exec_boot_listen, hslot]
  rfl

/-- Two SYNs, with an accept after the first. -/
def synAcceptSyn : List Event :=
  [.listen 80 0, .receive (bareSegment 1 5 80 2), .accept 0, .receive (bareSegment 1 6 80 2)]

theorem accepted_of_room_synAcceptSyn :
    let t := runOps Queue.exec (Queue.boot (fun _ => 0) [0x1000, 0x2000, 0x3000, 0x4000]) synAcceptSyn
    t.created 0 = t.accepted 0 ++ waiting (t.sys.net.pool 0) ∧
      (tcpAccept t.sys.net 0).1 = (t.sys.net.pool 0).pendingAccept := by
  have hok : Admissible Queue.exec Room listeningQueue synAcceptSyn.tail := by
    refine ⟨fun _ _ => ?_, trivial, fun _ _ => ?_, trivial⟩
    · decide +kernel
    · decide +kernel
  refine accepted_of_room _ _ synAcceptSyn ⟨trivial, ?_⟩ 0 ?_
  · have hfirst := runOps_listeningQueue []
    rw [runOps_cons, runOps_nil, runOps_nil] at hfirst
    rw [hfirst]
    exact hok
  · unfold synAcceptSyn
    rw [runOps_listeningQueue]
    exact ⟨by decide +kernel, nofun⟩

/-- Two SYNs before the first accept: the listener has two children and room for one. -/
theorem not_accepted_of_two_syns :
    ¬∀ (mem : Mem) (answers : List UInt64) (es : List Event) (i : UInt64),
      Listening (runOps Queue.exec (Queue.boot mem answers) es).sys i →
      (runOps Queue.exec (Queue.boot mem answers) es).created i =
        (runOps Queue.exec (Queue.boot mem answers) es).accepted i ++
          waiting ((runOps Queue.exec (Queue.boot mem answers) es).sys.net.pool i) := by
  intro h
  have h := h (fun _ => 0) [0x1000, 0x2000, 0x3000, 0x4000]
    [.listen 80 0, .receive (bareSegment 1 5 80 2), .receive (bareSegment 1 6 80 2)] 0
  rw [runOps_listeningQueue, runOps_cons, runOps_cons, runOps_nil] at h
  generalize ht : listeningQueue.exec (.receive (bareSegment 1 5 80 2)) = t at h
  have hwf : WellFormed t.sys := by
    rw [← ht]
    have hrun := wellFormed_run (fun _ => 0) [0x1000, 0x2000, 0x3000, 0x4000]
      [.listen 80 0, .receive (bareSegment 1 5 80 2)]
    rw [runOps_cons, exec_boot_listen] at hrun
    exact hrun
  have hcreated : t.created 0 = [1] := by
    rw [← ht]
    decide +kernel
  have haccepted : t.accepted 0 = [] := by
    rw [← ht]
    rfl
  have hlisten : lookupListen t.sys.net.pool (bareSegment 1 6 80 2).dstPort = 0 := by
    rw [← ht]
    decide +kernel
  have hok : acceptsSyn t.sys.net (bareSegment 1 6 80 2) = true := by
    rw [← ht]
    decide +kernel
  have hsyn : (bareSegment 1 6 80 2).isSyn = true := by decide +kernel
  have hslot : closedSlot t.sys.net.pool = 2 := by
    rw [← ht]
    decide +kernel
  have hstate : (t.sys.net.pool 0).state = tcpListenState ∧ (t.sys.net.pool 0).remoteIp = 0 := by
    rw [← ht]
    exact ⟨by decide +kernel, by decide +kernel⟩
  have hidle : t.sys.connecting = none := by
    rw [← ht]
    rfl
  -- The second SYN puts its child into the one place of the listener.
  obtain ⟨-, -, -, -, -, -, hothers⟩ := handleServerSyn_accepted hwf.closed hok
  obtain ⟨-, hpending, hchanged⟩ := hothers 0 (by rw [hslot]; decide)
  have hsame := hchanged.resolve_right (by rw [hstate.2]; decide)
  rw [if_pos hlisten.symm, hslot] at hpending
  unfold Queue.exec Tcp.exec createdAfter acceptedAfter at h
  dsimp only at h
  rw [handleTcpNotify_accepted hwf.closed hsyn hok, if_pos (by rw [hsyn, hok]; rfl), hlisten,
    Function.update_self, hcreated, haccepted, hslot, hidle] at h
  have h := h ⟨hsame.trans hstate.1, nofun⟩
  unfold waiting at h
  rw [hpending] at h
  exact absurd h (by decide)

end Keuos.Tcp
