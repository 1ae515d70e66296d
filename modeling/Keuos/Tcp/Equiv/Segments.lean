import Keuos.Tcp.Equiv.Pool

/-!
# Received segments

What a received segment does to the slots of the pool.

## Main results

* `handleServerSyn_refused`, `handleServerSyn_accepted` – a SYN for a listening port.
* `tcpHandleIncoming_received` – every other segment.
-/

namespace Keuos.Tcp

/-! ### A SYN for a listening port -/

/-- A SYN for a listening port takes a slot and a receive buffer. -/
def takesBuffer (s : Net) (p : Packet) : Bool :=
  !(p.len < 20) && lookupListen s.pool p.dstPort != noSlot && canAlloc s

/-- A SYN for a listening port also gets a page for its answer. -/
def acceptsSyn (s : Net) (p : Packet) : Bool :=
  takesBuffer s p && s.allocPage.2.allocPage.1 != 0

/-- What the answer to a client on this machine does to a connection: only one to the loopback can become
established. -/
structure Tcb.Answered (c c' : Tcb) : Prop extends Tcb.Kept c c' where
  pending : c'.pendingAccept = c.pendingAccept
  changed : c'.state = c.state ∨ isLoopback c.remoteIp = true

theorem Tcb.Answered.refl (c : Tcb) : c.Answered c := ⟨.refl c, rfl, .inl rfl⟩

theorem loopbackSynAck_answered (s : Net) (p : Packet) (serverIsn : UInt32) (i : UInt64) :
    (s.pool i).Answered ((loopbackSynAck s p serverIsn).pool i) := by
  -- both lookups are for an address of the loopback
  have hedit : ∀ ip client, isLoopback ip = true → client = lookup s.pool p.srcPort ip p.dstPort →
      client ≠ noSlot → (s.pool i).Answered ((s.modify client fun c =>
        { c with state := 4, seqRcv := serverIsn + 1, seqSnd := p.seq + 1 }).pool i) := by
    intro ip client hip hclient hne
    rw [hclient] at hne
    obtain ⟨-, hopen, hends⟩ := lookup_found hne
    rw [← hclient] at hopen hends
    rw [pool_modify]
    by_cases hi : i = client
    · rw [hi, modify_self]
      refine ⟨.of_open hopen rfl rfl (.inr rfl), rfl, .inr ?_⟩
      have hremote : (s.pool client).remoteIp = ip := congrArg (fun e => e.2.1) hends
      rw [hremote]
      exact hip
    · rw [modify_of_ne _ hi]
      exact .refl _
  unfold loopbackSynAck
  dsimp only
  by_cases hfirst : lookup s.pool p.srcPort 0x7F000001 p.dstPort = noSlot
  · rw [if_pos (beq_iff_eq.mpr hfirst)]
    split
    · next hne => exact hedit 0x0A00020F _ (by decide) rfl (bne_iff_ne.mp hne)
    · exact .refl _
  · rw [if_neg (mt beq_iff_eq.mp hfirst), if_pos (bne_iff_ne.mpr hfirst)]
    exact hedit 0x7F000001 _ (by decide) rfl hfirst

@[simp] theorem taken_loopbackSynAck (s : Net) (p : Packet) (serverIsn : UInt32) :
    (loopbackSynAck s p serverIsn).taken = s.taken := by
  unfold loopbackSynAck
  dsimp only
  split
  · split
    · rfl
    · rfl
  · split
    · rfl
    · rfl

@[simp] theorem released_loopbackSynAck (s : Net) (p : Packet) (serverIsn : UInt32) :
    (loopbackSynAck s p serverIsn).released = s.released := by
  unfold loopbackSynAck
  dsimp only
  split
  · split
    · rfl
    · rfl
  · split
    · rfl
    · rfl

/-- `handle_server_syn` with a child and a page for the answer. -/
theorem serverSynAck_accepted (s : Net) (p : Packet) {l child : UInt64} (hl : l < maxTcpSockets)
    (hchild : child < maxTcpSockets) (hne : l ≠ child) (hopen : (s.pool l).state ≠ tcpClosed)
    (hpage : s.allocPage.1 ≠ 0) :
    (serverSynAck s p l child).1 = true ∧ (serverSynAck s p l child).2.released = s.released ∧
      (serverSynAck s p l child).2.taken = s.taken ∧
      ((serverSynAck s p l child).2.pool child).state = tcpSynReceived ∧
      ((serverSynAck s p l child).2.pool child).ends = (s.pool child).ends ∧
      ((serverSynAck s p l child).2.pool child).recvBufPhys = (s.pool child).recvBufPhys ∧
      ∀ i ≠ child, (s.pool i).Kept ((serverSynAck s p l child).2.pool i) ∧
        ((serverSynAck s p l child).2.pool i).pendingAccept =
          (if i = l then child else (s.pool i).pendingAccept) ∧
        (((serverSynAck s p l child).2.pool i).state = (s.pool i).state ∨
          isLoopback (s.pool i).remoteIp = true) := by
  unfold serverSynAck
  dsimp only
  rw [allocPage_modify, if_neg (mt beq_iff_eq.mp hpage)]
  unfold acceptEnqueue
  rw [if_neg (by
    rw [Bool.or_eq_true, decide_eq_true_eq, decide_eq_true_eq, not_or]
    exact ⟨UInt64.not_le.mpr hl, UInt64.not_le.mpr hchild⟩)]
  dsimp only
  -- The child gets its sequence numbers, and an answer to the loopback goes through the pool.
  generalize hs₁ : (s.allocPage.2.modify child fun c =>
    { c with seqSnd := 0xFEEDC0DE + child.toUInt32, seqRcv := p.seq + 1 }) = s₁
  generalize hs₂ : (if isLoopback p.srcIp = true then
    loopbackSynAck s₁ p (0xFEEDC0DE + child.toUInt32) else s₁) = s₂
  have hanswered : ∀ i, (s₁.pool i).Answered (s₂.pool i) := by
    intro i
    rw [← hs₂]
    split
    · exact loopbackSynAck_answered ..
    · exact .refl _
  have hpool₁ : ∀ i ≠ child, s₁.pool i = s.pool i := by
    intro i hi
    rw [← hs₁, pool_modify, modify_of_ne _ hi, pool_allocPage]
  have hchild₁ : (s₁.pool child).ends = (s.pool child).ends ∧
      (s₁.pool child).recvBufPhys = (s.pool child).recvBufPhys := by
    rw [← hs₁, pool_modify, modify_self, pool_allocPage]
    exact ⟨rfl, rfl⟩
  have hlists : s₂.released = s.released ∧ s₂.taken = s.taken := by
    have hlists₁ : s₁.released = s.released ∧ s₁.taken = s.taken := by
      rw [← hs₁]
      exact ⟨released_allocPage s, taken_allocPage s⟩
    rw [← hs₂]
    split
    · rw [released_loopbackSynAck, taken_loopbackSynAck]
      exact hlists₁
    · exact hlists₁
  refine ⟨rfl, hlists.1, hlists.2, ?_, ?_, ?_, ?_⟩
  · simp only [pool_modify, modify_self, modify_of_ne _ hne.symm]
    rfl
  · simp only [pool_modify, modify_self, modify_of_ne _ hne.symm]
    exact (hanswered child).ends.trans hchild₁.1
  · simp only [pool_modify, modify_self, modify_of_ne _ hne.symm]
    exact (hanswered child).buf.trans hchild₁.2
  · intro i hi
    have hans := hanswered i
    rw [hpool₁ i hi] at hans
    simp only [pool_modify, modify_of_ne _ hi]
    by_cases hil : i = l
    · subst hil
      rw [modify_self, modify_of_ne _ hi, if_pos rfl]
      refine ⟨?_, rfl, hans.changed⟩
      exact .of_open hopen hans.ends hans.buf (hans.state.imp_right And.right)
    · rw [modify_of_ne _ hil, modify_of_ne _ hi, if_neg hil]
      exact ⟨hans.toKept, hans.pending, hans.changed⟩

section ServerSyn

variable {s : Net} (h : ClosedEmpty s.pool) {p : Packet}

include h

/-- **A refused SYN** leaves the pool as it was.  The receive buffer may have been taken. -/
theorem handleServerSyn_refused (hno : acceptsSyn s p = false) :
    (handleServerSyn s p).1 = false ∧ (handleServerSyn s p).2.pool = s.pool ∧
      (handleServerSyn s p).2.released = s.released ∧
      (handleServerSyn s p).2.taken =
        if takesBuffer s p then s.taken ++ [(closedSlot s.pool, s.allocPage.1)] else s.taken := by
  unfold handleServerSyn
  by_cases hlen : p.len < 20
  · rw [if_pos hlen, if_neg (by simp [takesBuffer, hlen])]
    exact ⟨rfl, rfl, rfl, rfl⟩
  · rw [if_neg hlen]
    dsimp only
    by_cases hlisten : lookupListen s.pool p.dstPort = noSlot
    · rw [if_pos (beq_iff_eq.mpr hlisten), if_neg (by simp [takesBuffer, hlisten])]
      exact ⟨rfl, rfl, rfl, rfl⟩
    · rw [if_neg (mt beq_iff_eq.mp hlisten)]
      cases halloc : canAlloc s with
      | false =>
        obtain ⟨hret, hpool, htaken, hreleased⟩ :=
          tcpAllocClient_refused h 0 p.dstPort p.srcIp p.srcPort halloc
        rw [hret, if_pos (beq_self_eq_true _), if_neg (by simp [takesBuffer, halloc])]
        exact ⟨rfl, hpool, hreleased, htaken⟩
      | true =>
        obtain ⟨hret, hnet⟩ := tcpAllocClient_accepted h 0 p.dstPort p.srcIp p.srcPort halloc
        have hslot := bne_iff_ne.mp (Bool.and_eq_true_iff.mp halloc).1
        obtain ⟨hlt, hclosed⟩ := closedSlot_found hslot
        have htakes : takesBuffer s p = true := by simp [takesBuffer, hlen, hlisten, halloc]
        have hpage : s.allocPage.2.allocPage.1 = 0 := by simpa [acceptsSyn, htakes] using hno
        rw [hret, hnet, if_neg (mt beq_iff_eq.mp hslot), if_pos htakes]
        -- the answers that are left do not depend on the pool
        have hpkt : ∀ pool taken, ({ s.allocPage.2 with pool := pool, taken := taken } : Net).allocPage.1 =
            0 := by
          intro pool taken
          rw [← hpage]
          unfold Net.allocPage
          dsimp only
          split
          · rfl
          · rfl
        unfold serverSynAck
        dsimp only
        rw [allocPage_modify, hpkt, if_pos (beq_self_eq_true _)]
        unfold free
        rw [if_neg (UInt64.not_le.mpr hlt)]
        refine ⟨rfl, ?_, ?_, ?_⟩
        · simp only [pool_modify, pool_allocPage]
          rw [modify_modify]
          unfold Pool.modify
          rw [Function.update_idem]
          exact (congrArg _ (h _ hclosed).symm).trans (Function.update_eq_self _ _)
        · exact (released_allocPage _).trans (released_allocPage s)
        · exact taken_allocPage _

/-- **An accepted SYN** takes the first closed slot for the child, and puts it at the listener. -/
theorem handleServerSyn_accepted (hok : acceptsSyn s p = true) :
    (handleServerSyn s p).1 = true ∧ (handleServerSyn s p).2.released = s.released ∧
      (handleServerSyn s p).2.taken = s.taken ++ [(closedSlot s.pool, s.allocPage.1)] ∧
      ((handleServerSyn s p).2.pool (closedSlot s.pool)).state = tcpSynReceived ∧
      ((handleServerSyn s p).2.pool (closedSlot s.pool)).ends = (p.dstPort, p.srcIp, p.srcPort) ∧
      ((handleServerSyn s p).2.pool (closedSlot s.pool)).recvBufPhys = s.allocPage.1 ∧
      ∀ i ≠ closedSlot s.pool, (s.pool i).Kept ((handleServerSyn s p).2.pool i) ∧
        ((handleServerSyn s p).2.pool i).pendingAccept =
          (if i = lookupListen s.pool p.dstPort then closedSlot s.pool else (s.pool i).pendingAccept) ∧
        (((handleServerSyn s p).2.pool i).state = (s.pool i).state ∨
          isLoopback (s.pool i).remoteIp = true) := by
  obtain ⟨htakes, hpage⟩ := Bool.and_eq_true_iff.mp hok
  obtain ⟨hlen, halloc⟩ := Bool.and_eq_true_iff.mp htakes
  obtain ⟨hlen, hlisten⟩ := Bool.and_eq_true_iff.mp hlen
  have hlen : ¬p.len < 20 := by simpa using hlen
  have hlisten := bne_iff_ne.mp hlisten
  have hslot := bne_iff_ne.mp (Bool.and_eq_true_iff.mp halloc).1
  obtain ⟨hlt, hclosed⟩ := closedSlot_found hslot
  obtain ⟨hllt, hlstate, -⟩ := lookupListen_found hlisten
  have hne : lookupListen s.pool p.dstPort ≠ closedSlot s.pool := by
    intro heq
    rw [heq, hclosed] at hlstate
    exact absurd hlstate (by decide)
  obtain ⟨hret, hnet⟩ := tcpAllocClient_accepted h 0 p.dstPort p.srcIp p.srcPort halloc
  unfold handleServerSyn
  rw [if_neg hlen]
  dsimp only
  rw [if_neg (mt beq_iff_eq.mp hlisten), hret, hnet, if_neg (mt beq_iff_eq.mp hslot)]
  generalize hs₁ : ({ s.allocPage.2 with
    pool := Function.update s.pool (closedSlot s.pool)
      (clientTcb 0 p.dstPort p.srcIp p.srcPort s.allocPage.1)
    taken := s.taken ++ [(closedSlot s.pool, s.allocPage.1)] } : Net) = s₁
  have hpool₁ : s₁.pool = Function.update s.pool (closedSlot s.pool)
      (clientTcb 0 p.dstPort p.srcIp p.srcPort s.allocPage.1) := by
    rw [← hs₁]
  have hothers₁ : ∀ i ≠ closedSlot s.pool, s₁.pool i = s.pool i := by
    intro i hi
    rw [hpool₁, Function.update_of_ne hi]
  have hpage₁ : s₁.allocPage.1 ≠ 0 := by
    have hsame : s₁.allocPage.1 = s.allocPage.2.allocPage.1 := by
      rw [← hs₁]
      unfold Net.allocPage
      dsimp only
      split
      · rfl
      · rfl
    rw [hsame]
    exact bne_iff_ne.mp hpage
  obtain ⟨hret, hreleased, htaken, hstate, hends, hbuf, hothers⟩ :=
    serverSynAck_accepted s₁ p hllt hlt hne
      (by rw [hothers₁ _ hne, hlstate]; decide) hpage₁
  rw [hpool₁, Function.update_self] at hends hbuf
  refine ⟨hret, ?_, ?_, hstate, hends, hbuf, ?_⟩
  · rw [hreleased, ← hs₁]
    exact released_allocPage s
  · rw [htaken, ← hs₁]
  · intro i hi
    rw [← hothers₁ i hi]
    exact hothers i hi

end ServerSyn

/-! ### Segments for a connection -/

/-- What `tcp_handle_incoming` does to the connection in a slot: it becomes established only if the segment is
for it, and completes a handshake. -/
structure Tcb.Received (s : Net) (p : Packet) (i : UInt64) (c' : Tcb) : Prop
    extends Tcb.Kept (s.pool i) c' where
  pending : c'.pendingAccept = (s.pool i).pendingAccept
  changed : c'.state = (s.pool i).state ∨
    c'.state = tcpEstablished ∧ i = lookup s.pool p.dstPort p.srcIp p.srcPort ∧
      (s.pool i).ends = (p.dstPort, p.srcIp, p.srcPort) ∧
      (p.isSynAck = true ∧ (s.pool i).state = tcpListenState ∨
        p.isAck = true ∧ (s.pool i).state = tcpSynReceived)

theorem Tcb.Received.refl (s : Net) (p : Packet) (i : UInt64) : Tcb.Received s p i (s.pool i) :=
  ⟨.refl _, rfl, .inl rfl⟩

theorem received_modify {s : Net} {p : Packet} {f : Tcb → Tcb}
    (hf : Tcb.Received s p (lookup s.pool p.dstPort p.srcIp p.srcPort)
      (f (s.pool (lookup s.pool p.dstPort p.srcIp p.srcPort)))) (i : UInt64) :
    Tcb.Received s p i (s.pool.modify (lookup s.pool p.dstPort p.srcIp p.srcPort) f i) := by
  by_cases hi : i = lookup s.pool p.dstPort p.srcIp p.srcPort
  · rw [hi, modify_self]
    exact hf
  · rw [modify_of_ne _ hi]
    exact .refl ..

theorem storeData_received {s : Net} {p : Packet}
    (hopen : (s.pool (lookup s.pool p.dstPort p.srcIp p.srcPort)).state ≠ tcpClosed) (i : UInt64) :
    Tcb.Received s p i ((storeData s (lookup s.pool p.dstPort p.srcIp p.srcPort) p).pool i) := by
  unfold storeData
  split
  · dsimp only
    split
    · rw [pool_modify]
      exact received_modify ⟨.of_open hopen rfl rfl (.inl rfl), rfl, .inl rfl⟩ i
    · exact .refl ..
  · exact .refl ..

theorem lists_storeData (s : Net) (slot : UInt64) (p : Packet) :
    (storeData s slot p).taken = s.taken ∧ (storeData s slot p).released = s.released := by
  unfold storeData
  split
  · dsimp only
    split
    · exact ⟨rfl, rfl⟩
    · exact ⟨rfl, rfl⟩
  · exact ⟨rfl, rfl⟩

/-- **A segment for a connection** edits its slot, and no other. -/
theorem tcpHandleIncoming_received (s : Net) (p : Packet) :
    (tcpHandleIncoming s p).2.taken = s.taken ∧ (tcpHandleIncoming s p).2.released = s.released ∧
      ∀ i, Tcb.Received s p i ((tcpHandleIncoming s p).2.pool i) := by
  unfold tcpHandleIncoming
  by_cases hlen : p.len < 20
  · rw [if_pos hlen]
    exact ⟨rfl, rfl, fun i => .refl ..⟩
  · rw [if_neg hlen]
    dsimp only
    split
    · next hsynack =>
      obtain ⟨hflags, hslot⟩ := Bool.and_eq_true_iff.mp hsynack
      obtain ⟨hfound, hstate⟩ := Bool.and_eq_true_iff.mp hslot
      obtain ⟨-, hopen, hends⟩ := lookup_found (bne_iff_ne.mp hfound)
      refine ⟨rfl, rfl, fun i => ?_⟩
      rw [pool_modify]
      refine received_modify ⟨.of_open hopen rfl rfl (.inr rfl), rfl, .inr ?_⟩ i
      exact ⟨rfl, rfl, hends, .inl ⟨hflags, beq_iff_eq.mp hstate⟩⟩
    · split
      · next hack =>
        obtain ⟨hflags, hslot⟩ := Bool.and_eq_true_iff.mp hack
        obtain ⟨hfound, hstate⟩ := Bool.and_eq_true_iff.mp hslot
        obtain ⟨-, hopen, hends⟩ := lookup_found (bne_iff_ne.mp hfound)
        refine ⟨rfl, rfl, fun i => ?_⟩
        rw [pool_modify]
        refine received_modify ⟨.of_open hopen rfl rfl (.inr rfl), rfl, .inr ?_⟩ i
        exact ⟨rfl, rfl, hends, .inr ⟨hflags, beq_iff_eq.mp hstate⟩⟩
      · split
        · next hdata =>
          obtain ⟨-, hslot⟩ := Bool.and_eq_true_iff.mp hdata
          obtain ⟨hfound, -⟩ := Bool.and_eq_true_iff.mp hslot
          obtain ⟨-, hopen, -⟩ := lookup_found (bne_iff_ne.mp hfound)
          obtain ⟨htaken, hreleased⟩ :=
            lists_storeData s (lookup s.pool p.dstPort p.srcIp p.srcPort) p
          exact ⟨htaken, hreleased, storeData_received hopen⟩
        · split
          · next hfin =>
            obtain ⟨-, hfound⟩ := Bool.and_eq_true_iff.mp hfin
            obtain ⟨-, hopen, -⟩ := lookup_found (bne_iff_ne.mp hfound)
            refine ⟨rfl, rfl, fun i => ?_⟩
            rw [pool_modify]
            exact received_modify ⟨.of_open hopen rfl rfl (.inl rfl), rfl, .inl rfl⟩ i
          · exact ⟨rfl, rfl, fun i => .refl ..⟩

theorem handleTcpNotify_of_not_syn {s : Net} {p : Packet} (h : p.isSyn = false) :
    handleTcpNotify s p = (tcpHandleIncoming s p).2 := by
  unfold handleTcpNotify
  exact if_neg (by rw [h]; decide)

theorem handleTcpNotify_accepted {s : Net} {p : Packet} (hclosed : ClosedEmpty s.pool)
    (h : p.isSyn = true) (hok : acceptsSyn s p = true) :
    handleTcpNotify s p = (handleServerSyn s p).2 := by
  obtain ⟨hret, -⟩ := handleServerSyn_accepted hclosed hok
  unfold handleTcpNotify
  dsimp only
  rw [if_pos h, hret, if_pos rfl]

theorem tcpHandleIncoming_syn {s : Net} {p : Packet} (h : p.isSyn = true) :
    tcpHandleIncoming s p = (false, s) := by
  have hflags : p.flags = 2 := beq_iff_eq.mp (Bool.and_eq_true_iff.mp h).2
  have hsynack : p.isSynAck = false := by
    unfold Packet.isSynAck
    rw [hflags]
    decide
  have hack : p.isAck = false := by
    unfold Packet.isAck
    rw [hflags]
    decide
  have hfin : p.isFin = false := by
    unfold Packet.isFin
    rw [hflags]
    decide
  unfold tcpHandleIncoming
  split
  · rfl
  · rw [hsynack, hack, hfin]
    rfl

theorem handleTcpNotify_refused {s : Net} {p : Packet} (hclosed : ClosedEmpty s.pool)
    (h : p.isSyn = true) (hno : acceptsSyn s p = false) :
    handleTcpNotify s p = (handleServerSyn s p).2 := by
  obtain ⟨hret, -⟩ := handleServerSyn_refused hclosed hno
  unfold handleTcpNotify
  dsimp only
  rw [if_pos h, hret, if_neg (by decide), tcpHandleIncoming_syn h]

end Keuos.Tcp
