import Keuos.Tcp.Equiv.Receive
import Keuos.Tcp.Equiv.Calls

/-!
# The end of a stream

A FIN sets `recv_fin`, and a process that has read everything then sees the end of the stream.  But the
dispatch asks for data before it asks for a FIN, and whatever carries an ACK counts as data: a FIN that
carries an ACK, as every one of a peer in ESTABLISHED does, is not seen, and the payload of the others is
not stored.

* `closes_iff` – the segments with a FIN that are handled as they should be.
* `finSince_of_recvFin` – `recv_fin` is set only where a FIN has arrived for the connection.
* `not_closes_of_finAck` – a FIN with an ACK that the connection never sees.
-/

namespace Keuos.Tcp

/-! ### Edits that see no FIN -/

/-- An edit that sets no `recv_fin`, and that moves the cursors back to the start if at all. -/
structure Tcb.Calm (c c' : Tcb) : Prop where
  fin : c'.recvFin = true → c.recvFin = true
  head : c'.recvHead = c.recvHead ∨ c'.recvHead = 0 ∧ c'.recvTail = 0
  tail : c'.recvTail = c.recvTail ∨ c'.recvTail = 0

theorem Tcb.Calm.refl (c : Tcb) : c.Calm c := ⟨id, .inl rfl, .inl rfl⟩

theorem Tcb.Calm.trans {c c' c'' : Tcb} (h : c.Calm c') (h' : c'.Calm c'') : c.Calm c'' where
  fin hfin := h.fin (h'.fin hfin)
  head := by
    rcases h'.head with hsame | hzero
    · rcases h.head with hsame₁ | ⟨hhead, htail⟩
      · exact .inl (hsame.trans hsame₁)
      · refine .inr ⟨hsame.trans hhead, ?_⟩
        rcases h'.tail with htail' | htail'
        · exact htail'.trans htail
        · exact htail'
    · exact .inr hzero
  tail := by
    rcases h'.tail with hsame | hzero
    · rcases h.tail with hsame₁ | hzero₁
      · exact .inl (hsame.trans hsame₁)
      · exact .inr (hsame.trans hzero₁)
    · exact .inr hzero

/-- Every slot is edited so. -/
def CalmPool (pool pool' : Pool) : Prop := ∀ i, (pool i).Calm (pool' i)

theorem CalmPool.refl (pool : Pool) : CalmPool pool pool := fun _ => .refl _

theorem CalmPool.trans {pool pool' pool'' : Pool} (h : CalmPool pool pool') (h' : CalmPool pool' pool'') :
    CalmPool pool pool'' :=
  fun i => (h i).trans (h' i)

theorem CalmPool.modify (pool : Pool) (slot : UInt64) {f : Tcb → Tcb} (hf : ∀ c : Tcb, c.Calm (f c)) :
    CalmPool pool (pool.modify slot f) := by
  intro i
  by_cases hi : i = slot
  · rw [hi, modify_self]
    exact hf _
  · rw [modify_of_ne pool hi]
    exact .refl _

theorem Tcb.Calm.of_eq {c c' : Tcb} (hfin : c'.recvFin = c.recvFin) (hhead : c'.recvHead = c.recvHead)
    (htail : c'.recvTail = c.recvTail) : c.Calm c' :=
  ⟨fun h => hfin ▸ h, .inl hhead, .inl htail⟩

theorem Tcb.Calm.of_zero {c c' : Tcb} (hfin : c'.recvFin = false) (hhead : c'.recvHead = 0)
    (htail : c'.recvTail = 0) : c.Calm c' := by
  refine ⟨fun h => ?_, .inr ⟨hhead, htail⟩, .inr htail⟩
  rw [hfin] at h
  cases h

section Functions

variable (s : Net)

theorem alloc_calm : CalmPool s.pool (alloc s).2.pool := by
  unfold alloc
  dsimp only
  split
  · exact .refl _
  · rw [pool_modify]
    exact .modify _ _ fun c => .of_eq rfl rfl rfl

theorem free_calm (idx : UInt64) : CalmPool s.pool (free s idx).pool := by
  unfold free
  split
  · exact .refl _
  · rw [pool_modify]
    exact .modify _ _ fun c => .of_zero rfl rfl rfl

theorem tcpAllocClient_calm (pid : UInt64) (localPort : UInt16) (remoteIp : UInt32) (remotePort : UInt16) :
    CalmPool s.pool (tcpAllocClient s pid localPort remoteIp remotePort).2.pool := by
  have halloc := alloc_calm s
  unfold tcpAllocClient
  dsimp only
  split
  · exact halloc
  · split
    · apply halloc.trans
      rw [← pool_allocPage (alloc s).2]
      exact free_calm _ _
    · apply halloc.trans
      rw [pool_modify, pool_allocPage]
      exact .modify _ _ fun c => .of_zero rfl rfl rfl

theorem tcpListen_calm (port : UInt16) (ownerPid : UInt64) : CalmPool s.pool
    (tcpListen s port ownerPid).2.pool := by
  have halloc := alloc_calm s
  unfold tcpListen
  dsimp only
  split
  · exact halloc
  · apply halloc.trans
    rw [pool_modify]
    exact .modify _ _ fun c => .of_eq rfl rfl rfl

theorem tcpAccept_calm (listenSlot : UInt64) : CalmPool s.pool (tcpAccept s listenSlot).2.pool := by
  unfold tcpAccept
  dsimp only
  split
  · exact .refl _
  · split
    · exact .refl _
    · split
      · rw [pool_modify]
        exact .modify _ _ fun c => .of_eq rfl rfl rfl
      · exact .refl _

theorem acceptEnqueue_calm (listenSlot childSlot : UInt64) :
    CalmPool s.pool (acceptEnqueue s listenSlot childSlot).pool := by
  unfold acceptEnqueue
  split
  · exact .refl _
  · rw [pool_modify, pool_modify]
    have hlisten : CalmPool s.pool (s.pool.modify listenSlot fun c =>
        { c with pendingAccept := childSlot }) :=
      .modify _ _ fun c => .of_eq rfl rfl rfl
    exact hlisten.trans (.modify _ _ fun c => .of_eq rfl rfl rfl)

theorem handleAck_calm (key : Secret) (tick : UInt64) (t : Tuple) (clientIsn ackIsn : UInt32) :
    CalmPool s.pool (handleAck key tick s t clientIsn ackIsn).2.pool := by
  have halloc := alloc_calm s
  unfold handleAck
  dsimp only
  split
  · exact .refl _
  · split
    · exact .refl _
    · split
      · exact halloc
      · apply halloc.trans
        rw [pool_modify]
        exact .modify _ _ fun c => .of_eq rfl rfl rfl

theorem loopbackSynAck_calm (p : Packet) (serverIsn : UInt32) :
    CalmPool s.pool (loopbackSynAck s p serverIsn).pool := by
  unfold loopbackSynAck
  dsimp only
  generalize (if lookup s.pool p.srcPort 0x7F000001 p.dstPort == noSlot then
    lookup s.pool p.srcPort 0x0A00020F p.dstPort else lookup s.pool p.srcPort 0x7F000001 p.dstPort) = client
  by_cases hclient : client = noSlot
  · rw [if_neg (by simp [hclient])]
    exact .refl _
  · rw [if_pos (bne_iff_ne.mpr hclient), pool_modify]
    exact .modify _ _ fun c => .of_eq rfl rfl rfl

theorem serverSynAck_calm (p : Packet) (listenSlot child : UInt64) :
    CalmPool s.pool (serverSynAck s p listenSlot child).2.pool := by
  have hisn : CalmPool s.pool (s.modify child fun c =>
      { c with seqSnd := 0xFEEDC0DE + child.toUInt32, seqRcv := p.seq + 1 }).allocPage.2.pool := by
    rw [pool_allocPage, pool_modify]
    exact .modify _ _ fun c => .of_eq rfl rfl rfl
  unfold serverSynAck
  dsimp only
  split
  · exact hisn.trans (free_calm _ _)
  · refine hisn.trans (.trans ?_ (acceptEnqueue_calm _ _ _))
    rw [pool_modify]
    refine .trans ?_ (.modify _ _ fun c => .of_eq rfl rfl rfl)
    split
    · exact loopbackSynAck_calm _ _ _
    · exact .refl _

theorem handleServerSyn_calm (p : Packet) : CalmPool s.pool (handleServerSyn s p).2.pool := by
  unfold handleServerSyn
  dsimp only
  split
  · exact .refl _
  · split
    · exact .refl _
    · have hchild := tcpAllocClient_calm s 0 p.dstPort p.srcIp p.srcPort
      split
      · exact hchild
      · exact hchild.trans (serverSynAck_calm _ _ _ _)

theorem tcpCloseConn_calm (connId : UInt64) : CalmPool s.pool (tcpCloseConn s connId).pool := by
  unfold tcpCloseConn
  dsimp only
  split
  · exact .refl _
  · split
    · exact free_calm { s with released := s.released ++ [(connId, (s.pool connId).recvBufPhys)] } connId
    · exact free_calm s connId

theorem connectBegin_calm (dstIp : UInt32) (dstPort : UInt16) :
    CalmPool s.pool (connectBegin s dstIp dstPort).2.pool := by
  have hclient := tcpAllocClient_calm s 1 clientPort dstIp dstPort
  have hpage : CalmPool s.pool (tcpAllocClient s 1 clientPort dstIp dstPort).2.allocPage.2.pool := by
    rw [pool_allocPage]
    exact hclient
  unfold connectBegin
  dsimp only
  split
  · exact hclient
  · split
    · exact hpage.trans (free_calm _ _)
    · exact hpage

theorem connectEnd_calm (slot : UInt64) : CalmPool s.pool (connectEnd s slot).pool := by
  unfold connectEnd
  dsimp only
  split
  · exact free_calm s slot
  · rw [pool_modify, pool_allocPage]
    exact .modify _ _ fun c => .of_eq rfl rfl rfl

end Functions

/-! ### Segments and reads -/

/-- The cursors of a connection are in order. -/
structure Tcb.InOrder (c : Tcb) : Prop where
  head : c.recvHead.toNat ≤ 4096
  tail : c.recvTail.toNat ≤ c.recvHead.toNat

theorem Tcb.Calm.inOrder {c c' : Tcb} (h : c.Calm c') (hc : c.InOrder) : c'.InOrder := by
  have hzero : (0 : UInt32).toNat = 0 := rfl
  have hhead := hc.head
  have htail := hc.tail
  rcases h.head with hsame | ⟨hhead₀, htail₀⟩
  · rcases h.tail with hsame' | htail₀
    · exact ⟨by rw [hsame]; exact hhead, by rw [hsame, hsame']; exact htail⟩
    · exact ⟨by rw [hsame]; exact hhead, by rw [htail₀, hzero]; exact Nat.zero_le _⟩
  · exact ⟨by rw [hhead₀, hzero]; omega, by rw [hhead₀, htail₀]⟩

/-- The segment is a FIN for the connection. -/
def FinFor (s : Net) (c : UInt64) (p : Packet) : Prop :=
  p.isFin = true ∧ IsFor s c p ∧ (s.pool c).state ≠ tcpClosed

theorem storeData_inOrder {s : Net} {slot : UInt64} (h : (s.pool slot).InOrder) (p : Packet) :
    ((storeData s slot p).pool slot).InOrder ∧
      ((storeData s slot p).pool slot).recvFin = (s.pool slot).recvFin := by
  unfold storeData
  dsimp only
  split
  · split
    · obtain ⟨hcount, -, -⟩ := bytesAt_copyIn p (recvBufVirt s.pool slot) (s.pool slot).recvHead h.head s.mem
      have hhead := h.head
      have htail := h.tail
      rw [pool_modify, modify_self]
      refine ⟨⟨?_, ?_⟩, rfl⟩
      · dsimp only
        rw [UInt32.toNat_add, hcount]
        omega
      · dsimp only
        rw [UInt32.toNat_add, hcount]
        omega
    · exact ⟨h, rfl⟩
  · exact ⟨h, rfl⟩

theorem storeData_of_ne {s : Net} {slot i : UInt64} (hi : i ≠ slot) (p : Packet) :
    (storeData s slot p).pool i = s.pool i := by
  unfold storeData
  dsimp only
  split
  · split
    · rw [pool_modify, modify_of_ne _ hi]
    · rfl
  · rfl

/-- **What a segment does to the receive stream of a connection**: its cursors stay in order, and only a FIN
for it sets `recv_fin`. -/
theorem tcpHandleIncoming_inOrder {s : Net} (h : ∀ i, (s.pool i).InOrder) (p : Packet) (i : UInt64) :
    ((tcpHandleIncoming s p).2.pool i).InOrder ∧
      (((tcpHandleIncoming s p).2.pool i).recvFin = true → (s.pool i).recvFin = true ∨ FinFor s i p) := by
  have hcalm : ∀ {pool : Pool}, CalmPool s.pool pool → (pool i).InOrder ∧
      ((pool i).recvFin = true → (s.pool i).recvFin = true ∨ FinFor s i p) :=
    fun hpool => ⟨(hpool i).inOrder (h i), fun hfin => .inl ((hpool i).fin hfin)⟩
  unfold tcpHandleIncoming
  dsimp only
  split
  · exact hcalm (.refl _)
  · split
    · rw [pool_modify]
      exact hcalm (.modify _ _ fun c => ⟨id, .inl rfl, .inr rfl⟩)
    · split
      · rw [pool_modify]
        exact hcalm (.modify _ _ fun c => .of_eq rfl rfl rfl)
      · split
        · by_cases hi : i = lookup s.pool p.dstPort p.srcIp p.srcPort
          · obtain ⟨horder, hfin⟩ := storeData_inOrder (h i) p
            rw [← hi]
            exact ⟨horder, fun h' => .inl (hfin ▸ h')⟩
          · dsimp only
            rw [storeData_of_ne hi]
            exact ⟨h i, .inl⟩
        · split
          · next hfin =>
            rw [Bool.and_eq_true] at hfin
            rw [pool_modify]
            by_cases hi : i = lookup s.pool p.dstPort p.srcIp p.srcPort
            · obtain ⟨-, hopen, -⟩ := lookup_found (bne_iff_ne.mp hfin.2)
              rw [← hi] at hopen ⊢
              rw [modify_self]
              exact ⟨⟨(h i).head, (h i).tail⟩, fun _ => .inr ⟨hfin.1, hi.symm, hopen⟩⟩
            · rw [modify_of_ne _ hi]
              exact ⟨h i, .inl⟩
          · exact hcalm (.refl _)

theorem tcpRecvData_inOrder {s : Net} (h : ∀ i, (s.pool i).InOrder) (connId : UInt64) (buf : UserBuf)
    (i : UInt64) :
    ((tcpRecvData s connId buf).2.2.pool i).InOrder ∧
      ((tcpRecvData s connId buf).2.2.pool i).recvFin = (s.pool i).recvFin := by
  by_cases hopen : connId < maxTcpSockets ∧ (s.pool connId).state = tcpEstablished
  · have hconn : Open s connId := ⟨hopen.1, hopen.2, (h connId).head, (h connId).tail⟩
    obtain ⟨hopen', -, -⟩ := buffered_recv hconn buf
    have hfields : ((tcpRecvData s connId buf).2.2.pool i).recvFin = (s.pool i).recvFin ∧
        (i ≠ connId → (tcpRecvData s connId buf).2.2.pool i = s.pool i) := by
      unfold tcpRecvData
      dsimp only
      split
      · exact ⟨rfl, fun _ => rfl⟩
      · split
        · exact ⟨rfl, fun _ => rfl⟩
        · split
          · split
            · exact ⟨rfl, fun _ => rfl⟩
            · exact ⟨rfl, fun _ => rfl⟩
          · split
            · exact ⟨rfl, fun _ => rfl⟩
            · rw [pool_modify]
              constructor
              · by_cases hi : i = connId
                · rw [hi, modify_self]
                · rw [modify_of_ne _ hi]
              · exact fun hi => modify_of_ne _ hi _
    refine ⟨?_, hfields.1⟩
    by_cases hi : i = connId
    · rw [hi]
      exact ⟨hopen'.head, hopen'.tail⟩
    · rw [hfields.2 hi]
      exact h i
  · have hsame : (tcpRecvData s connId buf).2.2 = s := by
      unfold tcpRecvData
      by_cases hslot : connId ≥ 1024
      · rw [if_pos hslot]
      · have hstate : (s.pool connId).state ≠ 4 := fun hst => hopen ⟨UInt64.not_le.mp hslot, hst⟩
        rw [if_neg hslot, if_pos (bne_iff_ne.mpr hstate)]
    rw [hsame]
    exact ⟨h i, rfl⟩

/-! ### Runs -/

/-- **One event** keeps the cursors in order, and only a segment that is a FIN for the connection sets
`recv_fin`. -/
theorem exec_inOrder {s : Sys} (h : ∀ i, (s.net.pool i).InOrder) (e : Event) (i : UInt64) :
    ((exec s e).net.pool i).InOrder ∧
      (((exec s e).net.pool i).recvFin = true →
        (s.net.pool i).recvFin = true ∨ ∃ p, e = .receive p ∧ FinFor s.net i p) := by
  have hcalm : ∀ {net : Net}, CalmPool s.net.pool net.pool → (net.pool i).InOrder ∧
      ((net.pool i).recvFin = true → (s.net.pool i).recvFin = true ∨
        ∃ p, e = .receive p ∧ FinFor s.net i p) :=
    fun hnet => ⟨(hnet i).inOrder (h i), fun hfin => .inl ((hnet i).fin hfin)⟩
  have hcall : ∀ {f : Net → Net}, CalmPool s.net.pool (f s.net).pool →
      CalmPool s.net.pool (s.call f).net.pool := by
    intro f hf
    unfold Sys.call
    split
    · exact .refl _
    · exact hf
  cases e with
  | receive p =>
    have hplain : ((tcpHandleIncoming s.net p).2.pool i).InOrder ∧
        (((tcpHandleIncoming s.net p).2.pool i).recvFin = true → (s.net.pool i).recvFin = true ∨
          ∃ p', Event.receive p = .receive p' ∧ FinFor s.net i p') := by
      obtain ⟨horder, hfin⟩ := tcpHandleIncoming_inOrder h p i
      exact ⟨horder, fun h' => (hfin h').imp id fun hfor => ⟨p, rfl, hfor⟩⟩
    change ((handleTcpNotify s.net p).pool i).InOrder ∧
      (((handleTcpNotify s.net p).pool i).recvFin = true → _)
    unfold handleTcpNotify
    split
    · next hsyn =>
      have hserver := handleServerSyn_calm s.net p
      dsimp only
      split
      · exact hcalm hserver
      · -- a SYN that no listener takes is not a FIN
        obtain ⟨horder, hfin⟩ :=
          tcpHandleIncoming_inOrder (fun j => (hserver j).inOrder (h j)) p i
        refine ⟨horder, fun h' => .inl ?_⟩
        rcases hfin h' with hold | ⟨hisFin, -, -⟩
        · exact (hserver i).fin hold
        · unfold Packet.isSyn at hsyn
          unfold Packet.isFin at hisFin
          rw [Bool.and_eq_true, beq_iff_eq] at hsyn
          rw [hsyn.2] at hisFin
          exact absurd hisFin (by decide)
    · exact hplain
  | ack key tick t clientIsn ackIsn => exact hcalm (handleAck_calm s.net key tick t clientIsn ackIsn)
  | listen port ownerPid => exact hcalm (hcall (tcpListen_calm s.net port ownerPid))
  | accept listenSlot => exact hcalm (hcall (tcpAccept_calm s.net listenSlot))
  | recv connId buf =>
    obtain ⟨horder, hfin⟩ := tcpRecvData_inOrder h connId buf i
    change ((s.call fun n => (tcpRecvData n connId buf).2.2).net.pool i).InOrder ∧
      (((s.call fun n => (tcpRecvData n connId buf).2.2).net.pool i).recvFin = true → _)
    unfold Sys.call
    split
    · exact ⟨h i, .inl⟩
    · exact ⟨horder, fun h' => .inl (hfin ▸ h')⟩
  | close connId => exact hcalm (hcall (tcpCloseConn_calm s.net connId))
  | connect dstIp dstPort =>
    unfold exec
    dsimp only
    split
    · exact hcalm (.refl _)
    · exact hcalm (connectBegin_calm s.net dstIp dstPort)
  | connected =>
    unfold exec
    dsimp only
    split
    · exact hcalm (connectEnd_calm s.net _)
    · exact hcalm (.refl _)

/-- The connections after the events. -/
def after (mem : Mem) (answers : List UInt64) (es : List Event) : Sys :=
  runOps exec (Sys.boot mem answers) es

theorem inOrder_after (mem : Mem) (answers : List UInt64) (es : List Event) (i : UInt64) :
    ((after mem answers es).net.pool i).InOrder := by
  have hrun : ∀ i, ((after mem answers es).net.pool i).InOrder := by
    apply runOps_invariant (I := fun s : Sys => ∀ i, (s.net.pool i).InOrder)
      (fun s e hs i => (exec_inOrder hs e i).1)
    intro i
    exact ⟨Nat.zero_le _, Nat.le_refl _⟩
  exact hrun i

theorem wellFormed_after (mem : Mem) (answers : List UInt64) (es : List Event) :
    WellFormed (after mem answers es) :=
  wellFormed_run mem answers es

theorem after_append_singleton (mem : Mem) (answers : List UInt64) (es : List Event) (e : Event) :
    after mem answers (es ++ [e]) = exec (after mem answers es) e := by
  unfold after
  rw [runOps_append]
  rfl

/-- A FIN has arrived for the connection, and its slot was not closed since. -/
def FinSince (mem : Mem) (answers : List UInt64) (es : List Event) (c : UInt64) : Prop :=
  ∃ before p rest, es = before ++ .receive p :: rest ∧ FinFor (after mem answers before).net c p ∧
    ∀ mid, mid <+: rest → ((after mem answers (before ++ .receive p :: mid)).net.pool c).state ≠ tcpClosed

/-- **`recv_fin` is set only where a FIN has arrived** for the connection. -/
theorem finSince_of_recvFin {mem : Mem} {answers : List UInt64} {es : List Event} {c : UInt64}
    (h : ((after mem answers es).net.pool c).recvFin = true) : FinSince mem answers es c := by
  -- a closed slot is empty, so that its `recv_fin` is clear
  have hopen : ∀ es, ((after mem answers es).net.pool c).recvFin = true →
      ((after mem answers es).net.pool c).state ≠ tcpClosed := by
    intro es hfin hclosed
    rw [(wellFormed_after mem answers es).closed c hclosed] at hfin
    cases hfin
  induction es using List.reverseRecOn with
  | nil => cases h
  | append_singleton es e ih =>
    have hlast := hopen _ h
    rw [after_append_singleton] at h
    obtain ⟨-, hfin⟩ := exec_inOrder (inOrder_after mem answers es) e c
    rcases hfin h with hold | ⟨p, rfl, hfor⟩
    · obtain ⟨before, p, rest, rfl, hfor, hsince⟩ := ih hold
      refine ⟨before, p, rest ++ [e], by simp, hfor, ?_⟩
      intro mid hmid
      rcases List.prefix_concat_iff.mp hmid with rfl | hmid
      · have happend : before ++ .receive p :: (rest ++ [e]) = before ++ .receive p :: rest ++ [e] := by simp
        rw [happend]
        exact hlast
      · exact hsince mid hmid
    · refine ⟨es, p, [], rfl, hfor, ?_⟩
      intro mid hmid
      rw [List.prefix_nil.mp hmid]
      exact hlast

theorem recvFin_of_endOfStream {s : Net} {c : UInt64} {buf : UserBuf}
    (h : (tcpRecvData s c buf).1 = none64) :
    (s.pool c).recvFin = true := by
  have hzero : (0 : UInt64) ≠ none64 := by decide
  unfold tcpRecvData at h
  dsimp only at h
  split at h
  · exact absurd h hzero
  · split at h
    · exact absurd h hzero
    · split at h
      · split at h
        · next hfin => exact hfin
        · exact absurd h hzero
      · split at h
        · exact absurd h hzero
        · -- a number of bytes is below 2^32
          exfalso
          have hlt := ((s.pool c).recvHead - (s.pool c).recvTail).toNat_lt
          have havail : ((s.pool c).recvHead - (s.pool c).recvTail).toUInt64.toNat < 2 ^ 32 := by
            rw [UInt32.toNat_toUInt64]
            exact hlt
          have hnone : none64.toNat = 2 ^ 64 - 1 := rfl
          unfold recvCount at h
          dsimp only at h
          split at h
          · next hgt =>
            have hgt' := UInt64.lt_iff_toNat_lt.mp hgt
            rw [h, hnone] at hgt'
            omega
          · rw [h, hnone] at havail
            omega

/-! ### The segments that are handled as they should be -/

/-- The data of a segment: none where the header is as long as the segment. -/
def segData (p : Packet) : List UInt8 := if p.len > p.hdrLen then payload p else []

theorem segData_eq_nil_iff (p : Packet) : segData p = [] ↔ ¬p.len > p.hdrLen := by
  unfold segData
  constructor
  · intro hnil hgt
    rw [if_pos hgt] at hnil
    have hlen := congrArg List.length hnil
    rw [length_payload] at hlen
    have hlt := UInt32.lt_iff_toNat_lt.mp hgt
    unfold Packet.payloadLen at hlen
    rw [UInt32.toNat_sub_of_le _ _ (UInt32.le_of_lt hgt), List.length_nil] at hlen
    omega
  · intro hle
    rw [if_neg hle]

/-- The state after the process has read `bufs` bytes at a time. -/
def reads (c : UInt64) (s : Net) (bufs : List UserBuf) : Net :=
  runOps (fun s buf => (tcpRecvData s c buf).2.2) s bufs

/-- What is claimed of a segment with a FIN, after the events `es`: its data is stored and `recv_fin` is set,
so that a process that has read everything sees the end of the stream; and it saw none before a FIN. -/
structure Closes (mem : Mem) (answers : List UInt64) (es : List Event) (c : UInt64) (p : Packet) : Prop where
  stored : buffered (tcpHandleIncoming (after mem answers es).net p).2 c =
    buffered (after mem answers es).net c ++ segData p
  recvFin : ((tcpHandleIncoming (after mem answers es).net p).2.pool c).recvFin = true
  endOfStream : ∀ bufs, buffered (reads c (tcpHandleIncoming (after mem answers es).net p).2 bufs) c = [] →
    ∀ buf, (tcpRecvData (reads c (tcpHandleIncoming (after mem answers es).net p).2 bufs) c buf).1 = none64
  notBefore : ∀ buf, (tcpRecvData (after mem answers es).net c buf).1 = none64 → FinSince mem answers es c

/-- The dispatch looks at the data of a segment that carries an ACK, which must fit, and then no further, so
that the FIN must have been seen before; of the others it looks at the FIN alone. -/
def Seen (s : Net) (c : UInt64) (p : Packet) : Prop :=
  if p.isAck then (s.pool c).recvFin = true ∧ (segData p = [] ∨ recvBufVirt s.pool c ≠ 0 ∧ Fits4096 s c p)
  else segData p = []

section Segment

variable {s : Net} {c : UInt64} (h : Open s c) {p : Packet} (hfor : IsFor s c p) (hlen : ¬p.len < 20)

include h hfor hlen

theorem recvFin_segment (hfin : p.isFin = true) :
    ((tcpHandleIncoming s p).2.pool c).recvFin = if p.isAck then (s.pool c).recvFin else true := by
  have hslot := (lt_maxTcpSockets_ne h.slot).1
  have hstate : (s.pool c).state = 4 := h.state
  unfold tcpHandleIncoming
  rw [if_neg hlen]
  dsimp only
  rw [hfor, if_neg (by simp [hstate]), if_neg (by simp [hstate])]
  by_cases hack : p.isAck = true
  · rw [if_pos (by simp [hack, hslot, hstate]), if_pos hack]
    exact (storeData_inOrder ⟨h.head, h.tail⟩ p).2
  · rw [if_neg (by simp [hack]), if_pos (by simp [hfin, hslot]), if_neg hack, pool_modify, modify_self]

theorem stored_iff :
    buffered (tcpHandleIncoming s p).2 c = buffered s c ++ segData p ↔
      segData p = [] ∨ p.isAck = true ∧ recvBufVirt s.pool c ≠ 0 ∧ Fits4096 s c p := by
  have hhead := h.head
  by_cases hadv : advances s c p = true
  · obtain ⟨-, hbytes, -⟩ := buffered_segment h hfor hadv
    obtain ⟨hadv', hvirt⟩ := Bool.and_eq_true_iff.mp hadv
    obtain ⟨hadv'', hgt⟩ := Bool.and_eq_true_iff.mp hadv'
    have hgt' : p.len > p.hdrLen := of_decide_eq_true hgt
    have hdata : segData p = payload p := if_pos hgt'
    have hne : segData p ≠ [] := fun hnil => (segData_eq_nil_iff p).mp hnil hgt'
    have hack : p.isAck = true := (Bool.and_eq_true_iff.mp hadv'').2
    rw [hbytes, hdata, List.append_right_inj, take_payload_eq_iff]
    rw [hdata] at hne
    simp only [hne, hack, bne_iff_ne.mp hvirt, false_or, true_and, ne_eq, not_false_eq_true]
    unfold Fits4096
    omega
  · have hquiet : advances s c p = false := by simpa using hadv
    obtain ⟨hmem, -, hheadEq, htailEq, -, hbuf⟩ := tcpHandleIncoming_quiet h hfor hquiet
    have hsame : buffered (tcpHandleIncoming s p).2 c = buffered s c := by
      unfold buffered
      rw [hmem, hheadEq, htailEq, recvBufVirt_eq hbuf]
    rw [hsame, List.self_eq_append_right]
    constructor
    · exact .inl
    · rintro (hnil | ⟨hack, hvirt, -⟩)
      · exact hnil
      · rw [segData_eq_nil_iff]
        intro hgt
        apply hadv
        unfold advances
        simp [hlen, hack, hgt, hvirt]

end Segment

theorem endOfStream_of_recvFin {s : Net} {c : UInt64} (h : Open s c) (hfin : (s.pool c).recvFin = true)
    (horder : ∀ i, (s.pool i).InOrder) (bufs : List UserBuf) (hread : buffered (reads c s bufs) c = [])
    (buf : UserBuf) : (tcpRecvData (reads c s bufs) c buf).1 = none64 := by
  -- a read keeps the state, the end of the stream and the order of the indices
  have hkeep : ∀ t buf, Open t c ∧ (t.pool c).recvFin = true ∧ (∀ i, (t.pool i).InOrder) →
      Open (tcpRecvData t c buf).2.2 c ∧ ((tcpRecvData t c buf).2.2.pool c).recvFin = true ∧
        ∀ i, ((tcpRecvData t c buf).2.2.pool i).InOrder := by
    intro t buf ht
    obtain ⟨ho, hf, hin⟩ := ht
    refine ⟨(buffered_recv ho buf).1, ?_, fun i => (tcpRecvData_inOrder hin c buf i).1⟩
    rw [(tcpRecvData_inOrder hin c buf c).2]
    exact hf
  obtain ⟨hopen, hfin', -⟩ : Open (reads c s bufs) c ∧ ((reads c s bufs).pool c).recvFin = true ∧
      ∀ i, ((reads c s bufs).pool i).InOrder := runOps_invariant hkeep ⟨h, hfin, horder⟩ bufs
  have htail := hopen.tail
  have hlen := congrArg List.length hread
  unfold buffered at hlen
  rw [length_bytesAt, List.length_nil] at hlen
  have hempty : ((reads c s bufs).pool c).recvHead = ((reads c s bufs).pool c).recvTail := by
    rw [← UInt32.toNat_inj]
    omega
  have hslot : ¬c ≥ 1024 := UInt64.not_le.mpr hopen.slot
  have hstate : ((reads c s bufs).pool c).state = 4 := hopen.state
  unfold tcpRecvData
  rw [if_neg hslot, if_neg (by simp [hstate])]
  dsimp only
  rw [if_pos (beq_iff_eq.mpr hempty), if_pos hfin']

/-- **The close of a connection is seen** exactly where the FIN comes without an ACK and without data, or
again. -/
theorem closes_iff (mem : Mem) (answers : List UInt64) (es : List Event) {c : UInt64}
    (hstate : ((after mem answers es).net.pool c).state = tcpEstablished) {p : Packet}
    (hfor : IsFor (after mem answers es).net c p) (hlen : ¬p.len < 20) (hfin : p.isFin = true) :
    Closes mem answers es c p ↔ Seen (after mem answers es).net c p := by
  have horder := inOrder_after mem answers es
  have hslot : c < maxTcpSockets := by
    apply (wellFormed_after mem answers es).inPool
    rw [hstate]
    decide
  have hopen : Open (after mem answers es).net c := ⟨hslot, hstate, (horder c).head, (horder c).tail⟩
  have hstored := stored_iff hopen hfor hlen
  have hrecvFin := recvFin_segment hopen hfor hlen hfin
  have horder' : ∀ i, ((tcpHandleIncoming (after mem answers es).net p).2.pool i).InOrder :=
    fun i => (tcpHandleIncoming_inOrder horder p i).1
  have hopen' : Open (tcpHandleIncoming (after mem answers es).net p).2 c := by
    refine ⟨hslot, ?_, (horder' c).head, (horder' c).tail⟩
    by_cases hadv : advances (after mem answers es).net c p = true
    · exact (buffered_segment hopen hfor hadv).1.state
    · exact (tcpHandleIncoming_quiet hopen hfor (by simpa using hadv)).2.1
  unfold Seen
  constructor
  · rintro ⟨hst, hrf, -, -⟩
    rw [hrecvFin] at hrf
    rw [hstored] at hst
    by_cases hack : p.isAck = true
    · rw [if_pos hack] at hrf ⊢
      exact ⟨hrf, hst.imp_right And.right⟩
    · rw [if_neg hack]
      exact hst.resolve_right fun hdata => hack hdata.1
  · intro hseen
    have hrf : ((tcpHandleIncoming (after mem answers es).net p).2.pool c).recvFin = true := by
      rw [hrecvFin]
      by_cases hack : p.isAck = true
      · rw [if_pos hack] at hseen ⊢
        exact hseen.1
      · rw [if_neg hack]
    refine ⟨?_, hrf, endOfStream_of_recvFin hopen' hrf horder', ?_⟩
    · rw [hstored]
      by_cases hack : p.isAck = true
      · rw [if_pos hack] at hseen
        exact hseen.2.imp_right fun hdata => ⟨hack, hdata⟩
      · rw [if_neg hack] at hseen
        exact .inl hseen
    · intro len hend
      exact finSince_of_recvFin (recvFin_of_endOfStream hend)

/-! ### A FIN with and without an ACK -/

/-- A process connects to the server, which answers. -/
def connects : List Event :=
  [.connect 1 80, .receive (serverSegment 0x12)]

theorem tcpHandleIncoming_synAck {s : Net} {p : Packet} {slot : UInt64} (hlen : ¬p.len < 20)
    (hsynAck : p.isSynAck = true) (hfor : IsFor s slot p) (hslot : slot ≠ noSlot)
    (hstate : (s.pool slot).state = 1) :
    (tcpHandleIncoming s p).2 =
      s.modify slot fun c => { c with state := 4, seqRcv := p.seq + 1, recvTail := 0 } := by
  unfold tcpHandleIncoming
  rw [if_neg hlen]
  dsimp only
  rw [hfor, if_pos (by simp [hsynAck, hslot, hstate])]

/-- The connection, in slot 0. -/
def connected : Tcb :=
  { clientTcb 1 clientPort 1 80 0x1000 with state := 4, seqRcv := 1, recvTail := 0 }

theorem pool_connects :
    (after (fun _ => 0) [0x1000, 0x2000] connects).net.pool =
      Function.update (fun _ => Tcb.zero) 0 connected := by
  obtain ⟨hpool, -⟩ := exec_boot_connect (fun _ => 0) [0x1000, 0x2000] 1 80 (by decide +kernel)
  have hslot : (0 : UInt64) ≠ noSlot := by decide
  have hfor : IsFor (exec (Sys.boot (fun _ => 0) [0x1000, 0x2000]) (.connect 1 80)).net 0
      (serverSegment 0x12) := by
    unfold IsFor
    rw [hpool]
    decide +kernel
  have hstate : ((exec (Sys.boot (fun _ => 0) [0x1000, 0x2000]) (.connect 1 80)).net.pool 0).state = 1 := by
    rw [hpool]
    rfl
  have hnet : (after (fun _ => 0) [0x1000, 0x2000] connects).net =
      (tcpHandleIncoming (exec (Sys.boot (fun _ => 0) [0x1000, 0x2000]) (.connect 1 80)).net
        (serverSegment 0x12)).2 := by
    have hnotify : ∀ n : Net, handleTcpNotify n (serverSegment 0x12) =
        (tcpHandleIncoming n (serverSegment 0x12)).2 := by
      intro n
      unfold handleTcpNotify
      rw [if_neg (by decide)]
    unfold after connects
    rw [runOps_cons, runOps_cons, runOps_nil]
    exact hnotify _
  rw [hnet, tcpHandleIncoming_synAck (by decide) (by decide) hfor hslot hstate, pool_modify, hpool]
  unfold Pool.modify
  rw [Function.update_idem]
  rfl

theorem isFor_connects {flags : UInt8} (hflags : flags = 0x01 ∨ flags = 0x11) :
    IsFor (after (fun _ => 0) [0x1000, 0x2000] connects).net 0 (serverSegment flags) := by
  unfold IsFor
  rw [pool_connects]
  rcases hflags with rfl | rfl
  · decide +kernel
  · decide +kernel

theorem state_connects :
    ((after (fun _ => 0) [0x1000, 0x2000] connects).net.pool 0).state = tcpEstablished := by
  rw [pool_connects]
  rfl

theorem closes_iff_bareFin : Closes (fun _ => 0) [0x1000, 0x2000] connects 0 (serverSegment 0x01) :=
  (closes_iff _ _ _ state_connects (isFor_connects (.inl rfl)) (by decide) (by decide)).mpr
    (by
      unfold Seen
      rw [if_neg (by decide)]
      decide)

theorem not_closes_of_finAck :
    ¬∀ (mem : Mem) (answers : List UInt64) (es : List Event) (c : UInt64) (p : Packet),
      ((after mem answers es).net.pool c).state = tcpEstablished → IsFor (after mem answers es).net c p →
      ¬p.len < 20 → p.isFin = true → Closes mem answers es c p := by
  intro h
  have hcloses := h (fun _ => 0) [0x1000, 0x2000] connects 0 (serverSegment 0x11) state_connects
    (isFor_connects (.inr rfl)) (by decide) (by decide)
  have horder := inOrder_after (fun _ => 0) [0x1000, 0x2000] connects 0
  have hclear := recvFin_segment (p := serverSegment 0x11)
    ⟨by decide, state_connects, horder.head, horder.tail⟩ (isFor_connects (.inr rfl)) (by decide) (by decide)
  rw [hcloses.recvFin, if_pos (by decide), pool_connects] at hclear
  cases hclear

end Keuos.Tcp
