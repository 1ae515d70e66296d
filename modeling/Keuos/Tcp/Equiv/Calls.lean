import Keuos.Tcp.Equiv.Segments

/-!
# Calls and runs

What the calls of processes do to the slots of the pool, and the invariant of every run: closed slots are
empty, and a slot in LISTEN is a listener or the slot of an active open that polls.

## Main results

* `WellFormed.step`, `wellFormed_run` – the invariant.
-/

namespace Keuos.Tcp

/-! ### Calls -/

section Calls

variable {s : Net}

/-- The connection that `tcp_listen` sets up. -/
def listenTcb (port : UInt16) (ownerPid : UInt64) : Tcb :=
  { Tcb.zero with state := tcpListenState, localPort := port, ownerPid := ownerPid }

theorem tcpListen_none (hslot : closedSlot s.pool = noSlot) (port : UInt16) (ownerPid : UInt64) :
    tcpListen s port ownerPid = (noSlot, s) := by
  unfold tcpListen
  rw [alloc_none hslot]
  rfl

theorem tcpListen_some (h : ClosedEmpty s.pool) (hslot : closedSlot s.pool ≠ noSlot) (port : UInt16)
    (ownerPid : UInt64) :
    tcpListen s port ownerPid =
      (closedSlot s.pool, { s with
        pool := Function.update s.pool (closedSlot s.pool) (listenTcb port ownerPid) }) := by
  obtain ⟨-, hclosed⟩ := closedSlot_found hslot
  unfold tcpListen
  rw [alloc_some hslot]
  dsimp only
  rw [if_neg (mt beq_iff_eq.mp hslot)]
  unfold Net.modify
  dsimp only
  rw [modify_modify]
  unfold Pool.modify
  rw [h _ hclosed]
  rfl

/-- The connection that `handle_ack` sets up. -/
def ackTcb (t : Tuple) (clientIsn ackIsn : UInt32) : Tcb :=
  { Tcb.zero with
    state := tcpEstablished
    localPort := t.dstPort
    remotePort := t.srcPort
    remoteIp := t.srcIp
    seqSnd := ackIsn + 1
    seqRcv := clientIsn + 1 }

/-- `handle_ack` takes a slot: the cookie is valid, no connection has its ends, and a slot is closed. -/
def takesAck (key : Secret) (tick : UInt64) (s : Net) (t : Tuple) (clientIsn ackIsn : UInt32) : Bool :=
  validateSynCookie key tick ackIsn t clientIsn &&
    lookup s.pool t.dstPort t.srcIp t.srcPort == noSlot && closedSlot s.pool != noSlot

theorem handleAck_refused {key : Secret} {tick : UInt64} {t : Tuple} {clientIsn ackIsn : UInt32}
    (hno : takesAck key tick s t clientIsn ackIsn = false) :
    (handleAck key tick s t clientIsn ackIsn).2 = s := by
  unfold handleAck
  split
  · rfl
  · next hvalid =>
    dsimp only
    split
    · rfl
    · next hnone =>
      have hslot : closedSlot s.pool = noSlot := by
        have hvalid : validateSynCookie key tick ackIsn t clientIsn = true := by simpa using hvalid
        have hnone : lookup s.pool t.dstPort t.srcIp t.srcPort = noSlot := by simpa using hnone
        simpa [takesAck, hvalid, hnone] using hno
      rw [alloc_none hslot]
      rfl

theorem handleAck_accepted (h : ClosedEmpty s.pool) {key : Secret} {tick : UInt64} {t : Tuple}
    {clientIsn ackIsn : UInt32} (hok : takesAck key tick s t clientIsn ackIsn = true) :
    (handleAck key tick s t clientIsn ackIsn).2 =
      { s with pool := Function.update s.pool (closedSlot s.pool) (ackTcb t clientIsn ackIsn) } := by
  obtain ⟨hvalid, hslot⟩ := Bool.and_eq_true_iff.mp hok
  obtain ⟨hvalid, hnone⟩ := Bool.and_eq_true_iff.mp hvalid
  have hslot := bne_iff_ne.mp hslot
  obtain ⟨-, hclosed⟩ := closedSlot_found hslot
  unfold handleAck
  rw [hvalid, if_neg (by decide)]
  dsimp only
  rw [if_neg (by simpa using hnone), alloc_some hslot]
  dsimp only
  rw [if_neg (mt beq_iff_eq.mp hslot)]
  unfold Net.modify
  dsimp only
  rw [modify_modify]
  unfold Pool.modify
  rw [h _ hclosed]
  rfl

/-- What a call that takes and frees nothing does to a connection. -/
structure Tcb.Used (c c' : Tcb) : Prop extends Tcb.Kept c c' where
  same : c'.state = c.state

theorem Tcb.Used.refl (c : Tcb) : c.Used c := ⟨.refl c, rfl⟩

theorem used_modify (pool : Pool) (slot : UInt64) {f : Tcb → Tcb}
    (hf : (pool slot).Used (f (pool slot))) (i : UInt64) : (pool i).Used (pool.modify slot f i) := by
  by_cases hi : i = slot
  · rw [hi, modify_self]
    exact hf
  · rw [modify_of_ne pool hi]
    exact .refl _

theorem tcpAccept_used (listenSlot : UInt64) :
    (tcpAccept s listenSlot).2.taken = s.taken ∧ (tcpAccept s listenSlot).2.released = s.released ∧
      ∀ i, (s.pool i).Used ((tcpAccept s listenSlot).2.pool i) := by
  unfold tcpAccept
  split
  · exact ⟨rfl, rfl, fun i => .refl _⟩
  · split
    · exact ⟨rfl, rfl, fun i => .refl _⟩
    · next hstate =>
      have hstate : (s.pool listenSlot).state = tcpListenState := by simpa using hstate
      dsimp only
      split
      · refine ⟨rfl, rfl, fun i => ?_⟩
        rw [pool_modify]
        refine used_modify s.pool listenSlot ⟨.of_open ?_ rfl rfl (.inl rfl), rfl⟩ i
        rw [hstate]
        decide
      · exact ⟨rfl, rfl, fun i => .refl _⟩

theorem tcpAccept_cases (listenSlot : UInt64) :
    (tcpAccept s listenSlot).1 = none64 ∧ (tcpAccept s listenSlot).2 = s ∨
      (tcpAccept s listenSlot).1 ≠ none64 ∧
      (tcpAccept s listenSlot).1 = (s.pool listenSlot).pendingAccept ∧
      (tcpAccept s listenSlot).2 = s.modify listenSlot fun c => { c with pendingAccept := none64 } := by
  unfold tcpAccept
  split
  · exact .inl ⟨rfl, rfl⟩
  · split
    · exact .inl ⟨rfl, rfl⟩
    · dsimp only
      by_cases hchild : (s.pool listenSlot).pendingAccept = none64
      · rw [if_neg (by simpa using hchild)]
        exact .inl ⟨hchild, rfl⟩
      · rw [if_pos (bne_iff_ne.mpr hchild)]
        exact .inr ⟨hchild, rfl, rfl⟩

theorem tcpAccept_pending {listenSlot : UInt64} (hlt : listenSlot < maxTcpSockets)
    (hstate : (s.pool listenSlot).state = tcpListenState) :
    (tcpAccept s listenSlot).1 = (s.pool listenSlot).pendingAccept := by
  unfold tcpAccept
  rw [if_neg (UInt64.not_le.mpr hlt), if_neg (by simpa using hstate)]
  dsimp only
  split
  · rfl
  · rfl

theorem tcpRecvData_used (connId : UInt64) (buf : UserBuf) :
    (tcpRecvData s connId buf).2.2.taken = s.taken ∧
      (tcpRecvData s connId buf).2.2.released = s.released ∧
      ∀ i, (s.pool i).Used ((tcpRecvData s connId buf).2.2.pool i) ∧
        ((tcpRecvData s connId buf).2.2.pool i).pendingAccept = (s.pool i).pendingAccept := by
  have hsame : s.taken = s.taken ∧ s.released = s.released ∧
      ∀ i, (s.pool i).Used (s.pool i) ∧ (s.pool i).pendingAccept = (s.pool i).pendingAccept :=
    ⟨rfl, rfl, fun i => ⟨.refl _, rfl⟩⟩
  unfold tcpRecvData
  split
  · exact hsame
  · split
    · exact hsame
    · next hstate =>
      have hstate : (s.pool connId).state = 4 := by simpa using hstate
      have hopen : (s.pool connId).state ≠ tcpClosed := by
        rw [hstate]
        decide
      dsimp only
      split
      · split
        · exact hsame
        · exact hsame
      · split
        · exact hsame
        · refine ⟨rfl, rfl, fun i => ⟨?_, ?_⟩⟩
          · rw [pool_modify]
            exact used_modify s.pool connId ⟨.of_open hopen rfl rfl (.inl rfl), rfl⟩ i
          · rw [pool_modify]
            by_cases hi : i = connId
            · rw [hi, modify_self]
            · rw [modify_of_ne _ hi]

theorem free_eq (idx : UInt64) (hidx : idx < maxTcpSockets) :
    free s idx = { s with pool := Function.update s.pool idx Tcb.zero } := by
  unfold free
  rw [if_neg (UInt64.not_le.mpr hidx)]
  rfl

theorem tcpCloseConn_eq (connId : UInt64) (hid : connId < maxTcpSockets) :
    tcpCloseConn s connId = { s with
      pool := Function.update s.pool connId Tcb.zero
      released := s.released ++
        if (s.pool connId).recvBufPhys = 0 then [] else [(connId, (s.pool connId).recvBufPhys)] } := by
  have hid' : ¬connId ≥ 1024 := UInt64.not_le.mpr hid
  unfold tcpCloseConn
  dsimp only
  rw [if_neg hid', free_eq _ hid]
  by_cases hbuf : (s.pool connId).recvBufPhys = 0
  · rw [if_neg (by simp [hbuf]), if_pos hbuf, List.append_nil]
  · rw [if_pos (by simpa using hbuf), if_neg hbuf]

theorem tcpCloseConn_of_le (connId : UInt64) (hid : ¬connId < maxTcpSockets) :
    tcpCloseConn s connId = s := by
  unfold tcpCloseConn
  exact if_pos (UInt64.not_lt.mp hid)

/-- An active open gets a slot, a receive buffer and a page for its SYN. -/
def canConnect (s : Net) : Bool := canAlloc s && s.allocPage.2.allocPage.1 != 0

theorem allocPage_answer (s : Net) (pool : Pool) (taken : List (UInt64 × UInt64)) :
    ({ s with pool := pool, taken := taken } : Net).allocPage.1 = s.allocPage.1 := by
  unfold Net.allocPage
  dsimp only
  split
  · rfl
  · rfl

theorem connectBegin_refused (h : ClosedEmpty s.pool) (hno : canConnect s = false) (dstIp : UInt32)
    (dstPort : UInt16) :
    (connectBegin s dstIp dstPort).1 = none64 ∧ (connectBegin s dstIp dstPort).2.pool = s.pool ∧
      (connectBegin s dstIp dstPort).2.released = s.released ∧
      (connectBegin s dstIp dstPort).2.taken =
        if canAlloc s then s.taken ++ [(closedSlot s.pool, s.allocPage.1)] else s.taken := by
  unfold connectBegin
  dsimp only
  cases halloc : canAlloc s with
  | false =>
    obtain ⟨hret, hpool, htaken, hreleased⟩ :=
      tcpAllocClient_refused h 1 clientPort dstIp dstPort halloc
    rw [hret, if_pos (beq_self_eq_true _), if_neg (by decide)]
    exact ⟨rfl, hpool, hreleased, htaken⟩
  | true =>
    obtain ⟨hret, hnet⟩ := tcpAllocClient_accepted h 1 clientPort dstIp dstPort halloc
    have hslot := bne_iff_ne.mp (Bool.and_eq_true_iff.mp halloc).1
    obtain ⟨hlt, hclosed⟩ := closedSlot_found hslot
    have hpage : s.allocPage.2.allocPage.1 = 0 := by simpa [canConnect, halloc] using hno
    rw [hret, hnet, if_neg (mt beq_iff_eq.mp hslot), allocPage_answer, hpage,
      if_pos (beq_self_eq_true _), if_pos rfl, free_eq _ hlt]
    refine ⟨rfl, ?_, ?_, taken_allocPage _⟩
    · dsimp only
      rw [pool_allocPage]
      dsimp only
      rw [Function.update_idem, ← h _ hclosed, Function.update_eq_self]
    · exact (released_allocPage _).trans (released_allocPage s)

theorem connectBegin_accepted (h : ClosedEmpty s.pool) (hok : canConnect s = true) (dstIp : UInt32)
    (dstPort : UInt16) :
    (connectBegin s dstIp dstPort).1 = closedSlot s.pool ∧
      (connectBegin s dstIp dstPort).2.pool = Function.update s.pool (closedSlot s.pool)
        (clientTcb 1 clientPort dstIp dstPort s.allocPage.1) ∧
      (connectBegin s dstIp dstPort).2.released = s.released ∧
      (connectBegin s dstIp dstPort).2.taken = s.taken ++ [(closedSlot s.pool, s.allocPage.1)] := by
  obtain ⟨halloc, hpage⟩ := Bool.and_eq_true_iff.mp hok
  obtain ⟨hret, hnet⟩ := tcpAllocClient_accepted h 1 clientPort dstIp dstPort halloc
  have hslot := bne_iff_ne.mp (Bool.and_eq_true_iff.mp halloc).1
  unfold connectBegin
  dsimp only
  rw [hret, hnet, if_neg (mt beq_iff_eq.mp hslot), allocPage_answer,
    if_neg (mt beq_iff_eq.mp (bne_iff_ne.mp hpage))]
  refine ⟨rfl, pool_allocPage _, ?_, taken_allocPage _⟩
  exact (released_allocPage _).trans (released_allocPage s)

theorem connectEnd_refused {slot : UInt64} (hslot : slot < maxTcpSockets)
    (hstate : (s.pool slot).state ≠ tcpEstablished) :
    connectEnd s slot = { s with pool := Function.update s.pool slot Tcb.zero } := by
  have hstate' : ((s.pool slot).state != 4) = true := bne_iff_ne.mpr hstate
  unfold connectEnd
  rw [if_pos hstate', free_eq _ hslot]

theorem connectEnd_used {slot : UInt64} (hstate : (s.pool slot).state = tcpEstablished) :
    (connectEnd s slot).taken = s.taken ∧ (connectEnd s slot).released = s.released ∧
      ∀ i, (s.pool i).Used ((connectEnd s slot).pool i) ∧
        ((connectEnd s slot).pool i).pendingAccept = (s.pool i).pendingAccept := by
  have hstate' : ¬((s.pool slot).state != 4) = true := fun h => bne_iff_ne.mp h hstate
  unfold connectEnd
  dsimp only
  rw [if_neg hstate']
  refine ⟨taken_allocPage s, released_allocPage s, fun i => ?_⟩
  rw [pool_modify, pool_allocPage]
  have hopen : (s.pool slot).state ≠ tcpClosed := by
    rw [hstate]
    decide
  constructor
  · exact used_modify s.pool slot ⟨.of_open hopen rfl rfl (.inl rfl), rfl⟩ i
  · by_cases hi : i = slot
    · rw [hi, modify_self]
    · rw [modify_of_ne _ hi]

end Calls

/-! ### The invariant -/

/-- Closed slots are empty, and only slots of the pool are open.  A slot in LISTEN is a listener, which has
no remote end, or the slot of the active open that polls. -/
structure WellFormed (s : Sys) : Prop where
  closed : ClosedEmpty s.net.pool
  inPool : ∀ i, (s.net.pool i).state ≠ tcpClosed → i < maxTcpSockets
  listen : ∀ i, (s.net.pool i).state = tcpListenState →
    s.connecting = some i ∨ (s.net.pool i).remoteIp = 0 ∧ (s.net.pool i).remotePort = 0
  polls : ∀ i, s.connecting = some i → i < maxTcpSockets ∧ (s.net.pool i).state ≠ tcpClosed

theorem wellFormed_boot (mem : Mem) (answers : List UInt64) : WellFormed (Sys.boot mem answers) where
  closed _ _ := rfl
  inPool _ h := absurd rfl h
  listen _ h := by
    have hstate : tcpClosed = tcpListenState := h
    exact absurd hstate (by decide)
  polls _ h := by cases h

theorem Tcb.Kept.listen {c c' : Tcb} (h : c.Kept c') (hc : c'.state = tcpListenState) :
    c.state = tcpListenState := by
  rcases h.state with hs | ⟨-, hs⟩
  · rw [← hs]
    exact hc
  · rw [hs] at hc
    exact absurd hc (by decide)

theorem Tcb.Kept.remote {c c' : Tcb} (h : c.Kept c') :
    c'.remoteIp = c.remoteIp ∧ c'.remotePort = c.remotePort := by
  have hends := h.ends
  unfold Tcb.ends at hends
  simp only [Prod.mk.injEq] at hends
  exact hends.2

theorem ClosedEmpty.kept {pool : Pool} (h : ClosedEmpty pool) {i : UInt64} {c' : Tcb}
    (hk : (pool i).Kept c') (hc : c'.state = tcpClosed) : c' = Tcb.zero := by
  have hclosed := hk.open_iff.mp hc
  rw [hk.closed hclosed]
  exact h i hclosed

section WellFormed

variable {s : Sys} (h : WellFormed s) {net : Net}

include h

theorem WellFormed.kept (hk : ∀ i, (s.net.pool i).Kept (net.pool i)) : WellFormed ⟨net, s.connecting⟩ where
  closed i hc := h.closed.kept (hk i) hc
  inPool i hi := h.inPool i (mt (hk i).open_iff.mpr hi)
  listen i hl := by
    rw [(hk i).remote.1, (hk i).remote.2]
    exact h.listen i ((hk i).listen hl)
  polls i hi := ⟨(h.polls i hi).1, mt (hk i).open_iff.mp (h.polls i hi).2⟩

theorem WellFormed.take {slot : UInt64} (hslot : slot < maxTcpSockets) {connecting : Option UInt64}
    (hopen : (net.pool slot).state ≠ tcpClosed)
    (hothers : ∀ i ≠ slot, (s.net.pool i).Kept (net.pool i))
    (hlisten : (net.pool slot).state = tcpListenState → connecting = some slot ∨
      (net.pool slot).remoteIp = 0 ∧ (net.pool slot).remotePort = 0)
    (hconn : connecting = s.connecting ∨ connecting = some slot ∧ s.connecting = none) :
    WellFormed ⟨net, connecting⟩ where
  closed i hc := by
    by_cases hi : i = slot
    · rw [hi] at hc
      exact absurd hc hopen
    · exact h.closed.kept (hothers i hi) hc
  inPool i hi := by
    by_cases hislot : i = slot
    · rw [hislot]
      exact hslot
    · exact h.inPool i (mt (hothers i hislot).open_iff.mpr hi)
  listen i hl := by
    by_cases hi : i = slot
    · rw [hi] at hl ⊢
      exact hlisten hl
    · have hk := hothers i hi
      dsimp only
      rw [hk.remote.1, hk.remote.2]
      rcases hconn with hconn | ⟨-, hnone⟩
      · rw [hconn]
        exact h.listen i (hk.listen hl)
      · refine .inr ((h.listen i (hk.listen hl)).resolve_left ?_)
        rw [hnone]
        exact nofun
  polls i hi := by
    by_cases hislot : i = slot
    · rw [hislot]
      exact ⟨hslot, hopen⟩
    · rcases hconn with hconn | ⟨hsome, -⟩
      · have hpolls := h.polls i (hconn ▸ hi)
        exact ⟨hpolls.1, mt (hothers i hislot).open_iff.mp hpolls.2⟩
      · rw [hsome] at hi
        exact absurd (Option.some.inj hi).symm hislot

theorem WellFormed.release {slot : UInt64} (hpool : net.pool = Function.update s.net.pool slot Tcb.zero)
    {connecting : Option UInt64}
    (hconn : connecting = s.connecting ∧ s.connecting ≠ some slot ∨
      connecting = none ∧ s.connecting = some slot) : WellFormed ⟨net, connecting⟩ where
  closed i hc := by
    dsimp only at hc ⊢
    rw [hpool] at hc ⊢
    by_cases hi : i = slot
    · rw [hi, Function.update_self]
    · rw [Function.update_of_ne hi] at hc ⊢
      exact h.closed i hc
  inPool i hi := by
    dsimp only at hi
    rw [hpool] at hi
    by_cases hislot : i = slot
    · rw [hislot, Function.update_self] at hi
      exact absurd rfl hi
    · rw [Function.update_of_ne hislot] at hi
      exact h.inPool i hi
  listen i hl := by
    dsimp only at hl ⊢
    rw [hpool] at hl ⊢
    by_cases hi : i = slot
    · rw [hi, Function.update_self] at hl
      exact absurd hl (by decide)
    · rw [Function.update_of_ne hi] at hl ⊢
      rcases hconn with ⟨hconn, -⟩ | ⟨-, hsome⟩
      · rw [hconn]
        exact h.listen i hl
      · refine .inr ((h.listen i hl).resolve_left ?_)
        rw [hsome]
        exact fun heq => hi (Option.some.inj heq).symm
  polls i hi := by
    rcases hconn with ⟨hconn, hne⟩ | ⟨hnone, -⟩
    · rw [hconn] at hi
      have hislot : i ≠ slot := by
        rintro rfl
        exact hne hi
      dsimp only
      rw [hpool, Function.update_of_ne hislot]
      exact h.polls i hi
    · rw [hnone] at hi
      cases hi

end WellFormed

/-! ### Steps -/

/-- The local calls, which wait while an active open polls. -/
def Event.isCall : Event → Bool
  | .listen .. | .accept .. | .recv .. | .close .. | .connect .. => true
  | .receive .. | .ack .. | .connected => false

/-- What one event does. -/
inductive Step (s : Sys) : Event → Sys → Prop
  | wait {e : Event} (hcall : e.isCall = true) (hpolls : s.connecting.isSome = true) : Step s e s
  | synAccepted (p : Packet) (hsyn : p.isSyn = true) (hok : acceptsSyn s.net p = true) :
    Step s (.receive p) ⟨(handleServerSyn s.net p).2, s.connecting⟩
  | synRefused (p : Packet) (hsyn : p.isSyn = true) (hno : acceptsSyn s.net p = false) :
    Step s (.receive p) ⟨(handleServerSyn s.net p).2, s.connecting⟩
  | segment (p : Packet) (hsyn : p.isSyn = false) :
    Step s (.receive p) ⟨(tcpHandleIncoming s.net p).2, s.connecting⟩
  | ackRefused (key : Secret) (tick : UInt64) (t : Tuple) (clientIsn ackIsn : UInt32) :
    Step s (.ack key tick t clientIsn ackIsn) s
  | ackAccepted (key : Secret) (tick : UInt64) (t : Tuple) (clientIsn ackIsn : UInt32)
    (hok : takesAck key tick s.net t clientIsn ackIsn = true) :
    Step s (.ack key tick t clientIsn ackIsn)
      ⟨{ s.net with pool :=
          Function.update s.net.pool (closedSlot s.net.pool) (ackTcb t clientIsn ackIsn) }, s.connecting⟩
  | listenFull (port : UInt16) (ownerPid : UInt64) (hfull : closedSlot s.net.pool = noSlot) :
    Step s (.listen port ownerPid) s
  | listen (port : UInt16) (ownerPid : UInt64) (hidle : s.connecting = none)
    (hslot : closedSlot s.net.pool ≠ noSlot) :
    Step s (.listen port ownerPid)
      ⟨{ s.net with pool :=
          Function.update s.net.pool (closedSlot s.net.pool) (listenTcb port ownerPid) }, none⟩
  | accept (listenSlot : UInt64) (hidle : s.connecting = none) :
    Step s (.accept listenSlot) ⟨(tcpAccept s.net listenSlot).2, none⟩
  | recv (connId : UInt64) (buf : UserBuf) (hidle : s.connecting = none) :
    Step s (.recv connId buf) ⟨(tcpRecvData s.net connId buf).2.2, none⟩
  | closeNone (connId : UInt64) (hid : ¬connId < maxTcpSockets) : Step s (.close connId) s
  | close (connId : UInt64) (hidle : s.connecting = none) (hid : connId < maxTcpSockets) :
    Step s (.close connId) ⟨tcpCloseConn s.net connId, none⟩
  | connectRefused (dstIp : UInt32) (dstPort : UInt16) (hidle : s.connecting = none)
    (hno : canConnect s.net = false) :
    Step s (.connect dstIp dstPort) ⟨(connectBegin s.net dstIp dstPort).2, none⟩
  | connectAccepted (dstIp : UInt32) (dstPort : UInt16) (hidle : s.connecting = none)
    (hok : canConnect s.net = true) :
    Step s (.connect dstIp dstPort)
      ⟨(connectBegin s.net dstIp dstPort).2, some (closedSlot s.net.pool)⟩
  | connectedNone (hidle : s.connecting = none) : Step s .connected s
  | connectedFailed (slot : UInt64) (hpolls : s.connecting = some slot)
    (hstate : (s.net.pool slot).state ≠ tcpEstablished) :
    Step s .connected ⟨connectEnd s.net slot, none⟩
  | connectedOk (slot : UInt64) (hpolls : s.connecting = some slot)
    (hstate : (s.net.pool slot).state = tcpEstablished) :
    Step s .connected ⟨connectEnd s.net slot, none⟩

theorem call_of_none {s : Sys} (hidle : s.connecting = none) (f : Net → Net) :
    s.call f = ⟨f s.net, none⟩ := by
  unfold Sys.call
  rw [hidle, if_neg (by decide)]

theorem call_of_some {s : Sys} (hpolls : s.connecting.isSome = true) (f : Net → Net) : s.call f = s := by
  unfold Sys.call
  rw [if_pos hpolls]

theorem connecting_cases (s : Sys) : s.connecting = none ∨ s.connecting.isSome = true := by
  cases s.connecting with
  | none => exact .inl rfl
  | some slot => exact .inr rfl

/-- **Every event is one of these steps.** -/
theorem exec_step {s : Sys} (h : WellFormed s) (e : Event) : Step s e (exec s e) := by
  cases e with
  | receive p =>
    unfold exec
    dsimp only
    cases hsyn : p.isSyn with
    | false =>
      rw [handleTcpNotify_of_not_syn hsyn]
      exact .segment p hsyn
    | true =>
      -- a SYN is accepted when it gets a slot with a buffer, and a page for the answer
      cases hok : acceptsSyn s.net p with
      | false =>
        rw [handleTcpNotify_refused h.closed hsyn hok]
        exact .synRefused p hsyn hok
      | true =>
        rw [handleTcpNotify_accepted h.closed hsyn hok]
        exact .synAccepted p hsyn hok
  | ack key tick t clientIsn ackIsn =>
    unfold exec
    dsimp only
    cases hok : takesAck key tick s.net t clientIsn ackIsn with
    | false =>
      rw [handleAck_refused hok]
      exact .ackRefused ..
    | true =>
      rw [handleAck_accepted h.closed hok]
      exact .ackAccepted key tick t clientIsn ackIsn hok
  | listen port ownerPid =>
    unfold exec
    dsimp only
    rcases connecting_cases s with hidle | hpolls
    · rw [call_of_none hidle]
      by_cases hslot : closedSlot s.net.pool = noSlot
      · rw [tcpListen_none hslot]
        have hs : (⟨s.net, none⟩ : Sys) = s := by rw [← hidle]
        dsimp only
        rw [hs]
        exact .listenFull port ownerPid hslot
      · rw [tcpListen_some h.closed hslot]
        exact .listen port ownerPid hidle hslot
    · rw [call_of_some hpolls]
      exact .wait rfl hpolls
  | accept listenSlot =>
    unfold exec
    dsimp only
    rcases connecting_cases s with hidle | hpolls
    · rw [call_of_none hidle]
      exact .accept listenSlot hidle
    · rw [call_of_some hpolls]
      exact .wait rfl hpolls
  | recv connId buf =>
    unfold exec
    dsimp only
    rcases connecting_cases s with hidle | hpolls
    · rw [call_of_none hidle]
      exact .recv connId buf hidle
    · rw [call_of_some hpolls]
      exact .wait rfl hpolls
  | close connId =>
    unfold exec
    dsimp only
    rcases connecting_cases s with hidle | hpolls
    · rw [call_of_none hidle]
      by_cases hid : connId < maxTcpSockets
      · exact .close connId hidle hid
      · rw [tcpCloseConn_of_le connId hid]
        have hs : (⟨s.net, none⟩ : Sys) = s := by rw [← hidle]
        rw [hs]
        exact .closeNone connId hid
    · rw [call_of_some hpolls]
      exact .wait rfl hpolls
  | connect dstIp dstPort =>
    unfold exec
    dsimp only
    rcases connecting_cases s with hidle | hpolls
    · rw [hidle, if_neg (by decide)]
      -- a connection needs a closed slot, a buffer and a page for its SYN
      cases hok : canConnect s.net with
      | false =>
        obtain ⟨hret, -⟩ := connectBegin_refused h.closed hok dstIp dstPort
        rw [hret, if_pos (beq_self_eq_true _)]
        exact .connectRefused dstIp dstPort hidle hok
      | true =>
        obtain ⟨hret, -⟩ := connectBegin_accepted h.closed hok dstIp dstPort
        have hslot := bne_iff_ne.mp (Bool.and_eq_true_iff.mp (Bool.and_eq_true_iff.mp hok).1).1
        have hne := (lt_maxTcpSockets_ne (closedSlot_found hslot).1).2
        rw [hret, if_neg (mt beq_iff_eq.mp hne)]
        exact .connectAccepted dstIp dstPort hidle hok
    · rw [if_pos hpolls]
      exact .wait rfl hpolls
  | connected =>
    unfold exec
    dsimp only
    cases hconn : s.connecting with
    | none => exact .connectedNone hconn
    | some slot =>
      by_cases hstate : (s.net.pool slot).state = tcpEstablished
      · exact .connectedOk slot hconn hstate
      · exact .connectedFailed slot hconn hstate

theorem slot_of_canAlloc {s : Net} (h : canAlloc s = true) :
    closedSlot s.pool < maxTcpSockets ∧ (s.pool (closedSlot s.pool)).state = tcpClosed :=
  closedSlot_found (bne_iff_ne.mp (Bool.and_eq_true_iff.mp h).1)

theorem canAlloc_of_acceptsSyn {s : Net} {p : Packet} (h : acceptsSyn s p = true) : canAlloc s = true :=
  (Bool.and_eq_true_iff.mp (Bool.and_eq_true_iff.mp h).1).2

theorem canAlloc_of_canConnect {s : Net} (h : canConnect s = true) : canAlloc s = true :=
  (Bool.and_eq_true_iff.mp h).1

theorem kept_update {pool : Pool} {slot : UInt64} {c : Tcb} :
    ∀ i ≠ slot, (pool i).Kept (Function.update pool slot c i) := by
  intro i hi
  rw [Function.update_of_ne hi]
  exact .refl _

theorem WellFormed.step {s s' : Sys} {e : Event} (h : WellFormed s) (hstep : Step s e s') :
    WellFormed s' := by
  have hidle : ∀ {net : Net}, s.connecting = none → WellFormed ⟨net, s.connecting⟩ →
      WellFormed ⟨net, none⟩ := by
    intro net hnone hnet
    rw [← hnone]
    exact hnet
  cases hstep with
  | wait hcall hpolls => exact h
  | synAccepted p hsyn hok =>
    obtain ⟨-, -, -, hstate, -, -, hothers⟩ := handleServerSyn_accepted h.closed hok
    refine h.take (slot_of_canAlloc (canAlloc_of_acceptsSyn hok)).1 ?_ (fun i hi => (hothers i hi).1) ?_
      (.inl rfl)
    · rw [hstate]
      decide
    · rw [hstate]
      exact fun hl => absurd hl (by decide)
  | synRefused p hsyn hno =>
    obtain ⟨-, hpool, -⟩ := handleServerSyn_refused h.closed hno
    refine h.kept fun i => ?_
    rw [hpool]
    exact .refl _
  | segment p hsyn =>
    obtain ⟨-, -, hreceived⟩ := tcpHandleIncoming_received s.net p
    exact h.kept fun i => (hreceived i).toKept
  | ackRefused => exact h
  | ackAccepted key tick t clientIsn ackIsn hok =>
    have hslot := bne_iff_ne.mp (Bool.and_eq_true_iff.mp hok).2
    refine h.take (closedSlot_found hslot).1 ?_ kept_update ?_ (.inl rfl)
    · dsimp only
      rw [Function.update_self]
      exact (by decide : tcpEstablished ≠ tcpClosed)
    · dsimp only
      rw [Function.update_self]
      exact fun hl => absurd hl (by decide : tcpEstablished ≠ tcpListenState)
  | listenFull => exact h
  | listen port ownerPid hnone hslot =>
    refine hidle hnone (h.take (closedSlot_found hslot).1 ?_ kept_update ?_ (.inl rfl))
    · dsimp only
      rw [Function.update_self]
      exact (by decide : tcpListenState ≠ tcpClosed)
    · dsimp only
      rw [Function.update_self]
      exact fun _ => .inr ⟨rfl, rfl⟩
  | accept listenSlot hnone =>
    obtain ⟨-, -, hused⟩ := tcpAccept_used (s := s.net) listenSlot
    exact hidle hnone (h.kept fun i => (hused i).toKept)
  | recv connId buf hnone =>
    obtain ⟨-, -, hused⟩ := tcpRecvData_used (s := s.net) connId buf
    exact hidle hnone (h.kept fun i => (hused i).1.toKept)
  | closeNone => exact h
  | close connId hnone hid =>
    rw [tcpCloseConn_eq connId hid]
    refine h.release rfl (.inl ⟨hnone.symm, ?_⟩)
    rw [hnone]
    exact nofun
  | connectRefused dstIp dstPort hnone hno =>
    obtain ⟨-, hpool, -⟩ := connectBegin_refused h.closed hno dstIp dstPort
    refine hidle hnone (h.kept fun i => ?_)
    rw [hpool]
    exact .refl _
  | connectAccepted dstIp dstPort hnone hok =>
    obtain ⟨-, hpool, -⟩ := connectBegin_accepted h.closed hok dstIp dstPort
    refine h.take (slot_of_canAlloc (canAlloc_of_canConnect hok)).1 ?_ ?_ (fun _ => .inl rfl)
      (.inr ⟨rfl, hnone⟩)
    · rw [hpool, Function.update_self]
      exact (by decide : tcpListenState ≠ tcpClosed)
    · rw [hpool]
      exact kept_update
  | connectedNone => exact h
  | connectedFailed slot hpolls hstate =>
    rw [connectEnd_refused (h.polls slot hpolls).1 hstate]
    exact h.release rfl (.inr ⟨rfl, hpolls⟩)
  | connectedOk slot hpolls hstate =>
    obtain ⟨-, -, hused⟩ := connectEnd_used (s := s.net) hstate
    have hkept := h.kept fun i => (hused i).1.toKept
    refine ⟨hkept.closed, hkept.inPool, fun i hl => ?_, nofun⟩
    refine .inr ((hkept.listen i hl).resolve_left fun hi => ?_)
    -- the slot that polled is established
    have hslot := Option.some.inj (hpolls.symm.trans hi)
    have hsame := (hused i).1.same
    dsimp only at hl
    rw [hl, ← hslot, hstate] at hsame
    exact absurd hsame (by decide)

/-- The connections at boot with one listener. -/
def listening (mem : Mem) (answers : List UInt64) (port : UInt16) (ownerPid : UInt64) : Sys where
  net := ⟨Function.update (fun _ => Tcb.zero) 0 (listenTcb port ownerPid), mem, answers, [], []⟩
  connecting := none

theorem exec_boot_listen (mem : Mem) (answers : List UInt64) (port : UInt16) (ownerPid : UInt64) :
    exec (Sys.boot mem answers) (.listen port ownerPid) = listening mem answers port ownerPid := by
  have hslot : closedSlot (Sys.boot mem answers).net.pool = 0 := by
    unfold closedSlot scan
    rfl
  have hne : closedSlot (Sys.boot mem answers).net.pool ≠ noSlot := by
    rw [hslot]
    decide
  unfold exec
  dsimp only
  rw [call_of_none rfl, tcpListen_some (wellFormed_boot mem answers).closed hne, hslot]
  rfl

theorem exec_boot_connect (mem : Mem) (answers : List UInt64) (dstIp : UInt32) (dstPort : UInt16)
    (hok : canConnect (Sys.boot mem answers).net = true) :
    (exec (Sys.boot mem answers) (.connect dstIp dstPort)).net.pool =
        Function.update (fun _ => Tcb.zero) 0
          (clientTcb 1 clientPort dstIp dstPort (Sys.boot mem answers).net.allocPage.1) ∧
      (exec (Sys.boot mem answers) (.connect dstIp dstPort)).connecting = some 0 := by
  have hslot : closedSlot (Sys.boot mem answers).net.pool = 0 := by
    unfold closedSlot scan
    rfl
  obtain ⟨hret, hpool, -⟩ :=
    connectBegin_accepted (wellFormed_boot mem answers).closed hok dstIp dstPort
  have hidle : (Sys.boot mem answers).connecting = none := rfl
  rw [hslot] at hret hpool
  unfold exec
  dsimp only
  rw [hidle, if_neg (by decide), hret, if_neg (by decide)]
  exact ⟨hpool, rfl⟩

/-- A header without data, with one byte for each port and for the flags. -/
def bareSegment (srcIp : UInt32) (srcPort dstPort flags : UInt8) : Packet where
  srcIp := srcIp
  buf i :=
    if i == 1 then srcPort else if i == 3 then dstPort else if i == 12 then 0x50
    else if i == 13 then flags else 0
  len := 20

/-- A segment from port 80 of a server to the port of an active open, with the given flags and no data. -/
def serverSegment (flags : UInt8) : Packet where
  srcIp := 1
  buf i :=
    if i == 1 then 80 else if i == 2 then 0xA4 else if i == 3 then 0x1A else if i == 12 then 0x50
    else if i == 13 then flags else 0
  len := 20

theorem wellFormed_run (mem : Mem) (answers : List UInt64) (es : List Event) :
    WellFormed (runOps exec (Sys.boot mem answers) es) :=
  runOps_invariant (fun _ e h => h.step (exec_step h e)) (wellFormed_boot mem answers) es

end Keuos.Tcp
