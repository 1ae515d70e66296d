import Keuos.Tcp.Equiv.Segments

/-!
# The receive stream

The data of a segment is copied behind the cursor `recv_head` of the buffer, up to its end at 4096, and
`seq_rcv` moves on by the whole payload.  The cursors never go back, so a connection can store 4096 bytes
in its life, and the bytes after that are acknowledged and dropped.  The sequence number of a segment is not
looked at.  A read moves `recv_tail` on also where `copy_to_user` fails, so these bytes are lost as well.

## Main results

* `copyIn_spec` – what the copy loop stores.
* `stream_of_fits` – while the payloads fit in the buffer and what is read fits in the memory of the process,
  the bytes that were returned and the bytes that are buffered are the payloads.
* `prefix_of_inOrder` – segments that arrive in order, each once, give a prefix of the stream.
-/

namespace Keuos.Tcp

/-! ### Bytes of a buffer -/

/-- The bytes of a buffer from offset `a` to offset `b`. -/
def bytesAt (m : Mem) (base : UInt64) (a b : Nat) : List UInt8 :=
  (List.range (b - a)).map fun i => m (base + UInt64.ofNat (a + i))

theorem bytesAt_self (m : Mem) (base : UInt64) (a : Nat) : bytesAt m base a a = [] := by
  unfold bytesAt
  rw [Nat.sub_self]
  rfl

theorem length_bytesAt (m : Mem) (base : UInt64) (a b : Nat) : (bytesAt m base a b).length = b - a := by
  unfold bytesAt
  rw [List.length_map, List.length_range]

theorem bytesAt_append (m : Mem) (base : UInt64) {a b c : Nat} (hab : a ≤ b) (hbc : b ≤ c) :
    bytesAt m base a c = bytesAt m base a b ++ bytesAt m base b c := by
  unfold bytesAt
  have hsplit : c - a = (b - a) + (c - b) := by omega
  rw [hsplit, List.range_add, List.map_append, List.map_map]
  congr 1
  apply List.map_congr_left
  intro i _
  have hoff : a + (b - a + i) = b + i := by omega
  rw [Function.comp_apply, hoff]

theorem bytesAt_congr {m m' : Mem} {base : UInt64} {a b : Nat}
    (h : ∀ o, a ≤ o → o < b → m (base + UInt64.ofNat o) = m' (base + UInt64.ofNat o)) :
    bytesAt m base a b = bytesAt m' base a b := by
  unfold bytesAt
  apply List.map_congr_left
  intro i hi
  have hi := List.mem_range.mp hi
  exact h (a + i) (by omega) (by omega)

/-- The payload of a segment. -/
def payload (p : Packet) : List UInt8 :=
  (List.range p.payloadLen.toNat).map fun i => p.buf (p.hdrLen.toUInt64 + UInt64.ofNat i)

theorem length_payload (p : Packet) : (payload p).length = p.payloadLen.toNat := by
  unfold payload
  rw [List.length_map, List.length_range]

/-! ### The copy loop -/

theorem offset_inj {base : UInt64} {a b : Nat} (ha : a < 2 ^ 64) (hb : b < 2 ^ 64)
    (h : base + UInt64.ofNat a = base + UInt64.ofNat b) : a = b := by
  have h := (UInt64.add_right_inj base).mp h
  have h := congrArg UInt64.toNat h
  rw [UInt64.toNat_ofNat', UInt64.toNat_ofNat', Nat.mod_eq_of_lt ha, Nat.mod_eq_of_lt hb] at h
  exact h

theorem userRoom_le (writable : UInt64 → Bool) (dst len : UInt64) :
    Syscall.userRoom writable dst len ≤ len.toNat := by
  unfold Syscall.userRoom
  split
  · have hsub := (List.takeWhile_sublist (l := List.range len.toNat) fun i =>
      writable (dst + UInt64.ofNat i)).length_le
    rwa [List.length_range] at hsub
  · exact Nat.zero_le _

theorem toUInt64_eq_ofNat (x : UInt32) : x.toUInt64 = UInt64.ofNat x.toNat := by
  rw [← UInt64.toNat_inj, UInt32.toNat_toUInt64, UInt64.toNat_ofNat', Nat.mod_eq_of_lt]
  exact Nat.lt_of_lt_of_le x.toNat_lt (by decide)

/-- **The copy loop** from byte `k` on: it stops at the end of the payload or of the buffer, and stores the
bytes of the payload behind `head`. -/
theorem copyIn_spec (p : Packet) (base : UInt64) (head : UInt32) (hhead : head.toNat ≤ 4096) :
    ∀ (n : Nat) (pi : UInt32) (m : Mem), p.payloadLen.toNat ≤ pi.toNat + n → pi.toNat ≤ p.payloadLen.toNat →
      head.toNat + pi.toNat ≤ 4096 →
      (copyIn p base head n pi m).1.toNat = min p.payloadLen.toNat (4096 - head.toNat) ∧
      ∀ o < 4096, (copyIn p base head n pi m).2 (base + UInt64.ofNat o) =
        if head.toNat + pi.toNat ≤ o ∧ o < head.toNat + min p.payloadLen.toNat (4096 - head.toNat) then
          p.buf (p.hdrLen.toUInt64 + UInt64.ofNat (o - head.toNat))
        else m (base + UInt64.ofNat o) := by
  intro n
  induction n with
  | zero =>
    intro pi m hfuel hle hfit
    unfold copyIn
    refine ⟨by dsimp only; omega, fun o ho => ?_⟩
    rw [if_neg (by omega)]
  | succ n ih =>
    intro pi m hfuel hle hfit
    unfold copyIn
    have hsum : (head + pi).toNat = head.toNat + pi.toNat := by
      rw [UInt32.toNat_add]
      omega
    by_cases hgo : pi < p.payloadLen ∧ head + pi < 4096
    · obtain ⟨hpi, hroom⟩ := hgo
      have hpi' := UInt32.lt_iff_toNat_lt.mp hpi
      have hroom' : head.toNat + pi.toNat < 4096 := by
        have hroom := UInt32.lt_iff_toNat_lt.mp hroom
        rw [hsum] at hroom
        exact hroom
      have hnext : (pi + 1).toNat = pi.toNat + 1 := by
        rw [UInt32.toNat_add, UInt32.toNat_one]
        omega
      rw [if_pos (by rw [decide_eq_true hpi, decide_eq_true hroom]; rfl)]
      obtain ⟨hcount, hmem⟩ := ih (pi + 1)
        (m.write8 (base + (head + pi).toUInt64) (p.buf (p.hdrLen.toUInt64 + pi.toUInt64)))
        (by omega) (by omega) (by omega)
      refine ⟨hcount, fun o ho => ?_⟩
      rw [hmem o ho, hnext, toUInt64_eq_ofNat (head + pi), hsum, toUInt64_eq_ofNat pi]
      unfold Mem.write8
      -- A byte of the later turns, the byte of this turn, or one outside the copy.
      by_cases hlater : head.toNat + (pi.toNat + 1) ≤ o ∧
          o < head.toNat + min p.payloadLen.toNat (4096 - head.toNat)
      · rw [if_pos hlater, if_pos (by omega)]
      · rw [if_neg hlater]
        by_cases hthis : o = head.toNat + pi.toNat
        · rw [hthis, Function.update_self, if_pos (by omega), Nat.add_sub_cancel_left]
        · have hne : base + UInt64.ofNat o ≠ base + UInt64.ofNat (head.toNat + pi.toNat) :=
            fun heq => hthis (offset_inj (by omega) (by omega) heq)
          rw [Function.update_of_ne hne, if_neg (by omega)]
    · have hstop : (decide (pi < p.payloadLen) && decide (head + pi < 4096)) = false := by
        rw [← Bool.not_eq_true, Bool.and_eq_true, decide_eq_true_eq, decide_eq_true_eq]
        exact hgo
      have hdone : p.payloadLen.toNat ≤ pi.toNat ∨ 4096 ≤ head.toNat + pi.toNat := by
        rcases not_and_or.mp hgo with hpi | hroom
        · exact .inl (UInt32.le_iff_toNat_le.mp (UInt32.not_lt.mp hpi))
        · have hroom := UInt32.le_iff_toNat_le.mp (UInt32.not_lt.mp hroom)
          rw [hsum] at hroom
          exact .inr hroom
      rw [hstop, if_neg (by decide)]
      refine ⟨by dsimp only; omega, fun o ho => ?_⟩
      rw [if_neg (by omega)]

theorem bytesAt_copyIn (p : Packet) (base : UInt64) (head : UInt32) (hhead : head.toNat ≤ 4096) (m : Mem) :
    (copyIn p base head p.payloadLen.toNat 0 m).1.toNat = min p.payloadLen.toNat (4096 - head.toNat) ∧
      (∀ a, a ≤ head.toNat → bytesAt (copyIn p base head p.payloadLen.toNat 0 m).2 base a head.toNat =
        bytesAt m base a head.toNat) ∧
      bytesAt (copyIn p base head p.payloadLen.toNat 0 m).2 base head.toNat
          (head.toNat + min p.payloadLen.toNat (4096 - head.toNat)) =
        (payload p).take (min p.payloadLen.toNat (4096 - head.toNat)) := by
  obtain ⟨hcount, hmem⟩ := copyIn_spec p base head hhead p.payloadLen.toNat 0 m (by simp)
    (Nat.zero_le _) (by simpa using hhead)
  refine ⟨hcount, fun a ha => bytesAt_congr fun o _ ho => ?_, ?_⟩
  · rw [hmem o (by omega), if_neg (by rw [UInt32.toNat_zero]; omega)]
  · unfold bytesAt payload
    rw [Nat.add_sub_cancel_left, ← List.map_take, List.take_range, Nat.min_eq_left (Nat.min_le_left ..)]
    apply List.map_congr_left
    intro i hi
    have hi := List.mem_range.mp hi
    rw [hmem _ (by omega), if_pos (by rw [UInt32.toNat_zero]; omega), Nat.add_sub_cancel_left]

/-! ### Segments and reads of a connection -/

/-- The bytes of the connection that are buffered. -/
def buffered (s : Net) (c : UInt64) : List UInt8 :=
  bytesAt s.mem (recvBufVirt s.pool c) (s.pool c).recvTail.toNat (s.pool c).recvHead.toNat

/-- The segment is for the connection. -/
def IsFor (s : Net) (c : UInt64) (p : Packet) : Prop :=
  lookup s.pool p.dstPort p.srcIp p.srcPort = c

/-- The segment has data that moves `seq_rcv`. -/
def advances (s : Net) (c : UInt64) (p : Packet) : Bool :=
  !(p.len < 20) && p.isAck && p.len > p.hdrLen && recvBufVirt s.pool c != 0

/-- The connection is established, with its cursors in order. -/
structure Open (s : Net) (c : UInt64) : Prop where
  slot : c < maxTcpSockets
  state : (s.pool c).state = tcpEstablished
  head : (s.pool c).recvHead.toNat ≤ 4096
  tail : (s.pool c).recvTail.toNat ≤ (s.pool c).recvHead.toNat

/-- The payload fits behind `recv_head`. -/
def Fits4096 (s : Net) (c : UInt64) (p : Packet) : Prop :=
  (s.pool c).recvHead.toNat + p.payloadLen.toNat ≤ 4096

section Segment

variable {s : Net} {c : UInt64} (h : Open s c) {p : Packet} (hfor : IsFor s c p)

include h hfor

theorem tcpHandleIncoming_quiet (hquiet : advances s c p = false) :
    (tcpHandleIncoming s p).2.mem = s.mem ∧
      ((tcpHandleIncoming s p).2.pool c).state = tcpEstablished ∧
      ((tcpHandleIncoming s p).2.pool c).recvHead = (s.pool c).recvHead ∧
      ((tcpHandleIncoming s p).2.pool c).recvTail = (s.pool c).recvTail ∧
      ((tcpHandleIncoming s p).2.pool c).seqRcv = (s.pool c).seqRcv ∧
      ((tcpHandleIncoming s p).2.pool c).recvBufPhys = (s.pool c).recvBufPhys := by
  have hsame : s.mem = s.mem ∧ (s.pool c).state = tcpEstablished ∧
      (s.pool c).recvHead = (s.pool c).recvHead ∧ (s.pool c).recvTail = (s.pool c).recvTail ∧
      (s.pool c).seqRcv = (s.pool c).seqRcv ∧ (s.pool c).recvBufPhys = (s.pool c).recvBufPhys :=
    ⟨rfl, h.state, rfl, rfl, rfl, rfl⟩
  have hstate : (s.pool c).state = 4 := h.state
  unfold tcpHandleIncoming
  by_cases hlen : p.len < 20
  · rw [if_pos hlen]
    exact hsame
  · rw [if_neg hlen]
    dsimp only
    rw [hfor, if_neg (by simp [hstate]), if_neg (by simp [hstate])]
    split
    · next hdata =>
      have hack := (Bool.and_eq_true_iff.mp hdata).1
      unfold storeData
      split
      · next hgt =>
        have hvirt : recvBufVirt s.pool c = 0 := by
          simpa [advances, hlen, hack, hgt] using hquiet
        dsimp only
        rw [if_neg (by simp [hvirt])]
        exact hsame
      · exact hsame
    · split
      · rw [pool_modify, modify_self]
        exact hsame
      · exact hsame

theorem tcpHandleIncoming_data (hadv : advances s c p = true) :
    (tcpHandleIncoming s p).2.mem =
        (copyIn p (recvBufVirt s.pool c) (s.pool c).recvHead p.payloadLen.toNat 0 s.mem).2 ∧
      (tcpHandleIncoming s p).2.pool c = { s.pool c with
        recvHead := (s.pool c).recvHead +
          (copyIn p (recvBufVirt s.pool c) (s.pool c).recvHead p.payloadLen.toNat 0 s.mem).1
        seqRcv := (s.pool c).seqRcv + p.payloadLen } := by
  obtain ⟨hadv, hvirt⟩ := Bool.and_eq_true_iff.mp hadv
  obtain ⟨hadv, hgt⟩ := Bool.and_eq_true_iff.mp hadv
  obtain ⟨hlen, hack⟩ := Bool.and_eq_true_iff.mp hadv
  have hlen : ¬p.len < 20 := by simpa using hlen
  have hslot := (lt_maxTcpSockets_ne h.slot).1
  have hstate : (s.pool c).state = 4 := h.state
  unfold tcpHandleIncoming
  rw [if_neg hlen]
  dsimp only
  rw [hfor, if_neg (by simp [hstate]), if_neg (by simp [hstate]), if_pos (by simp [hack, hslot, hstate])]
  unfold storeData
  dsimp only
  rw [if_pos (of_decide_eq_true hgt), if_pos hvirt]
  refine ⟨rfl, ?_⟩
  rw [pool_modify, modify_self]

end Segment

theorem recvBufVirt_eq {pool pool' : Pool} {c : UInt64}
    (h : (pool' c).recvBufPhys = (pool c).recvBufPhys) : recvBufVirt pool' c = recvBufVirt pool c := by
  unfold recvBufVirt
  rw [h]

/-- **A segment with data** for an open connection: what fits is buffered, and `seq_rcv` moves on by all of
it. -/
theorem buffered_segment {s : Net} {c : UInt64} (h : Open s c) {p : Packet} (hfor : IsFor s c p)
    (hadv : advances s c p = true) :
    Open (tcpHandleIncoming s p).2 c ∧
      buffered (tcpHandleIncoming s p).2 c = buffered s c ++
        (payload p).take (min p.payloadLen.toNat (4096 - (s.pool c).recvHead.toNat)) ∧
      ((tcpHandleIncoming s p).2.pool c).seqRcv = (s.pool c).seqRcv + p.payloadLen ∧
      ((tcpHandleIncoming s p).2.pool c).recvTail = (s.pool c).recvTail ∧
      ((tcpHandleIncoming s p).2.pool c).recvHead.toNat = (s.pool c).recvHead.toNat +
        min p.payloadLen.toNat (4096 - (s.pool c).recvHead.toNat) ∧
      recvBufVirt (tcpHandleIncoming s p).2.pool c = recvBufVirt s.pool c := by
  obtain ⟨hmem, hpool⟩ := tcpHandleIncoming_data h hfor hadv
  obtain ⟨hcount, hold, hnew⟩ :=
    bytesAt_copyIn p (recvBufVirt s.pool c) (s.pool c).recvHead h.head s.mem
  have hhead := h.head
  have htail := h.tail
  have hsum : ((s.pool c).recvHead +
      (copyIn p (recvBufVirt s.pool c) (s.pool c).recvHead p.payloadLen.toNat 0 s.mem).1).toNat =
      (s.pool c).recvHead.toNat + min p.payloadLen.toNat (4096 - (s.pool c).recvHead.toNat) := by
    rw [UInt32.toNat_add, hcount]
    omega
  have hvirt : recvBufVirt (tcpHandleIncoming s p).2.pool c = recvBufVirt s.pool c :=
    recvBufVirt_eq (by rw [hpool])
  refine ⟨⟨h.slot, ?_, ?_, ?_⟩, ?_, ?_, ?_, ?_, hvirt⟩
  · rw [hpool]
    exact h.state
  · rw [hpool]
    dsimp only
    rw [hsum]
    omega
  · rw [hpool]
    dsimp only
    rw [hsum]
    omega
  · unfold buffered
    rw [hvirt, hpool, hmem]
    dsimp only
    rw [hsum, bytesAt_append _ _ htail (Nat.le_add_right ..), hold _ htail, hnew]
  · rw [hpool]
  · rw [hpool]
  · rw [hpool]
    dsimp only
    rw [hsum]

theorem isFor_segment {s : Net} {c : UInt64} {p' : Packet} (h : IsFor s c p') (p : Packet) :
    IsFor (tcpHandleIncoming s p).2 c p' := by
  obtain ⟨-, -, hreceived⟩ := tcpHandleIncoming_received s p
  unfold IsFor lookup at h ⊢
  rw [← h]
  congr 1
  funext i
  have hk := (hreceived i).toKept
  have hstate : (((tcpHandleIncoming s p).2.pool i).state != tcpClosed) =
      ((s.pool i).state != tcpClosed) := by
    rw [Bool.eq_iff_iff, bne_iff_ne, bne_iff_ne, ne_eq, hk.open_iff]
  have hends : ((tcpHandleIncoming s p).2.pool i).isFor p'.dstPort p'.srcIp p'.srcPort =
      (s.pool i).isFor p'.dstPort p'.srcIp p'.srcPort := by
    rw [Bool.eq_iff_iff, isFor_iff, isFor_iff, hk.ends]
  rw [hstate, hends]

theorem advances_eq {s s' : Net} {c : UInt64} (h : recvBufVirt s'.pool c = recvBufVirt s.pool c)
    (p : Packet) : advances s' c p = advances s c p := by
  unfold advances
  rw [h]

/-- **A read** takes the first of the buffered bytes, as many as it wants to copy, and the process gets those
for which it has room. -/
theorem buffered_recv {s : Net} {c : UInt64} (h : Open s c) (buf : UserBuf) :
    Open (tcpRecvData s c buf).2.2 c ∧
      ((tcpRecvData s c buf).2.2.pool c).seqRcv = (s.pool c).seqRcv ∧
      ∃ bytes, bytes ++ buffered (tcpRecvData s c buf).2.2 c = buffered s c ∧
        (tcpRecvData s c buf).2.1 =
          bytes.take (Syscall.userRoom buf.writable buf.addr (recvCount s c buf)) ∧
        bytes.length = if recvBufVirt s.pool c = 0 then 0 else (recvCount s c buf).toNat := by
  have hslot : ¬c ≥ 1024 := UInt64.not_le.mpr h.slot
  have hstate : (s.pool c).state = 4 := h.state
  have hhead := h.head
  have htail := h.tail
  have havail : ((s.pool c).recvHead - (s.pool c).recvTail).toUInt64.toNat =
      (s.pool c).recvHead.toNat - (s.pool c).recvTail.toNat := by
    rw [UInt32.toNat_toUInt64, UInt32.toNat_sub_of_le _ _ (UInt32.le_iff_toNat_le.mpr htail)]
  -- at most the bytes that are buffered are taken
  have hle : (recvCount s c buf).toNat ≤ (s.pool c).recvHead.toNat - (s.pool c).recvTail.toNat := by
    unfold recvCount
    rw [← havail]
    dsimp only
    split
    · next hgt => exact Nat.le_of_lt (UInt64.lt_iff_toNat_lt.mp hgt)
    · exact Nat.le_refl _
  have hroom := userRoom_le buf.writable buf.addr (recvCount s c buf)
  unfold tcpRecvData
  rw [if_neg hslot, if_neg (by simp [hstate])]
  dsimp only
  by_cases hempty : (s.pool c).recvHead = (s.pool c).recvTail
  · rw [if_pos (beq_iff_eq.mpr hempty)]
    have hzero : (recvCount s c buf).toNat = 0 := by
      rw [hempty] at hle
      omega
    rw [hzero, ite_self]
    split
    · exact ⟨h, rfl, [], rfl, List.take_nil.symm, rfl⟩
    · exact ⟨h, rfl, [], rfl, List.take_nil.symm, rfl⟩
  · rw [if_neg (mt beq_iff_eq.mp hempty)]
    by_cases hvirt : recvBufVirt s.pool c = 0
    · -- without a page for the buffer nothing is copied
      rw [if_pos (beq_iff_eq.mpr hvirt), if_pos hvirt]
      exact ⟨h, rfl, [], rfl, List.take_nil.symm, rfl⟩
    · rw [if_neg (mt beq_iff_eq.mp hvirt), if_neg hvirt]
      generalize recvCount s c buf = count at hle hroom ⊢
      have hnext : ((s.pool c).recvTail + count.toUInt32).toNat =
          (s.pool c).recvTail.toNat + count.toNat := by
        rw [UInt32.toNat_add, UInt64.toNat_toUInt32]
        omega
      have hpool : ((s.modify c fun t => { t with
          recvTail := (s.pool c).recvTail + count.toUInt32 }).pool c) = { s.pool c with
          recvTail := (s.pool c).recvTail + count.toUInt32 } := by
        rw [pool_modify, modify_self]
      have hbuf : recvBufVirt (s.modify c fun t => { t with
          recvTail := (s.pool c).recvTail + count.toUInt32 }).pool c = recvBufVirt s.pool c :=
        recvBufVirt_eq (by rw [hpool])
      refine ⟨⟨h.slot, ?_, ?_, ?_⟩, ?_, bytesAt s.mem (recvBufVirt s.pool c) (s.pool c).recvTail.toNat
        ((s.pool c).recvTail.toNat + count.toNat), ?_, ?_, ?_⟩
      · rw [hpool]
        exact hstate
      · rw [hpool]
        exact hhead
      · rw [hpool]
        dsimp only
        rw [hnext]
        omega
      · rw [hpool]
      · unfold buffered
        rw [hbuf, hpool]
        dsimp only
        rw [hnext]
        exact (bytesAt_append _ _ (Nat.le_add_right ..) (by omega)).symm
      · -- the process gets the first bytes, up to the page that refuses them
        unfold bytesAt
        rw [Nat.add_sub_cancel_left, ← List.map_take, List.take_range, Nat.min_eq_left hroom]
        apply List.map_congr_left
        intro i _
        rw [toUInt64_eq_ofNat, UInt64.add_assoc, ← UInt64.ofNat_add]
      · rw [length_bytesAt, Nat.add_sub_cancel_left]

/-! ### The receive stream -/

/-- A segment is received for the connection, or the process reads into a buffer. -/
inductive Access where
  | segment (p : Packet)
  | recv (buf : UserBuf)

/-- The connections, the bytes that the reads of a connection have returned, and the payloads by which its
`seq_rcv` has moved. -/
structure Receiver where
  net : Net
  returned : List UInt8
  acknowledged : List UInt8

def Receiver.exec (c : UInt64) (t : Receiver) : Access → Receiver
  | .segment p =>
    { net := (tcpHandleIncoming t.net p).2
      returned := t.returned
      acknowledged := t.acknowledged ++ if advances t.net c p then payload p else [] }
  | .recv buf =>
    let r := tcpRecvData t.net c buf
    ⟨r.2.2, t.returned ++ r.2.1, t.acknowledged⟩

/-- The segments are for the connection. -/
def OfConnection (c : UInt64) (t : Receiver) : Access → Prop
  | .segment p => IsFor t.net c p
  | .recv _ => True

/-- A segment with data fits behind `recv_head`, and the process can take the bytes that a read copies. -/
def InBuffer (c : UInt64) (t : Receiver) : Access → Prop
  | .segment p => advances t.net c p = true → Fits4096 t.net c p
  | .recv buf => recvBufVirt t.net.pool c ≠ 0 →
      (recvCount t.net c buf).toNat ≤ Syscall.userRoom buf.writable buf.addr (recvCount t.net c buf)

/-- The law of the stream: no acknowledged byte is lost. -/
structure StreamLaw (c : UInt64) (seq : UInt32) (t : Receiver) : Prop where
  bytes : t.returned ++ buffered t.net c = t.acknowledged
  seqRcv : (t.net.pool c).seqRcv = seq + UInt32.ofNat t.acknowledged.length

theorem take_payload_eq_iff (p : Packet) {k : Nat} :
    (payload p).take k = payload p ↔ p.payloadLen.toNat ≤ k := by
  rw [List.take_eq_self_iff, length_payload]

/-- **One step** keeps the connection open, and the law as well if and only if the payload fits. -/
theorem streamLaw_exec {c : UInt64} {seq : UInt32} {t : Receiver} (hopen : Open t.net c)
    (hlaw : StreamLaw c seq t) {a : Access} (hof : OfConnection c t a) :
    Open (t.exec c a).net c ∧ (StreamLaw c seq (t.exec c a) ↔ InBuffer c t a) := by
  cases a with
  | segment p =>
    unfold Receiver.exec InBuffer
    dsimp only
    cases hadv : advances t.net c p with
    | false =>
      obtain ⟨hmem, hstate, hhead, htail, hseq, hbuf⟩ := tcpHandleIncoming_quiet hopen hof hadv
      refine ⟨⟨hopen.slot, hstate, ?_, ?_⟩, ?_⟩
      · rw [hhead]
        exact hopen.head
      · rw [hhead, htail]
        exact hopen.tail
      · refine iff_of_true ⟨?_, ?_⟩ nofun
        · unfold buffered
          rw [hmem, hhead, htail, recvBufVirt_eq hbuf, if_neg (by decide), List.append_nil]
          exact hlaw.bytes
        · dsimp only
          rw [hseq, if_neg (by decide), List.append_nil]
          exact hlaw.seqRcv
    | true =>
      obtain ⟨hopen', hbytes, hseq, -⟩ := buffered_segment hopen hof hadv
      refine ⟨hopen', ?_⟩
      rw [if_pos rfl]
      have hhead := hopen.head
      constructor
      · -- what is missing from the buffer is missing from the payload
        intro hlaw' _
        have hbytes' := hlaw'.bytes
        dsimp only at hbytes'
        rw [hbytes, ← List.append_assoc, hlaw.bytes, List.append_cancel_left_eq,
          take_payload_eq_iff] at hbytes'
        unfold Fits4096
        omega
      · intro hfits
        have hfits := hfits rfl
        unfold Fits4096 at hfits
        refine ⟨?_, ?_⟩
        · dsimp only
          rw [hbytes, ← List.append_assoc, hlaw.bytes, (take_payload_eq_iff p).mpr (by omega)]
        · dsimp only
          rw [hseq, hlaw.seqRcv, List.length_append, length_payload, UInt32.ofNat_add,
            UInt32.ofNat_toNat, UInt32.add_assoc]
  | recv buf =>
    obtain ⟨hopen', hseq, bytes, hbytes, hreturned, hlength⟩ := buffered_recv hopen buf
    refine ⟨hopen', ?_⟩
    have hseq' : ((t.exec c (.recv buf)).net.pool c).seqRcv =
        seq + UInt32.ofNat (t.exec c (.recv buf)).acknowledged.length := by
      unfold Receiver.exec
      dsimp only
      rw [hseq]
      exact hlaw.seqRcv
    -- the bytes that were taken from the buffer must all have reached the process
    have hiff : (t.exec c (.recv buf)).returned ++ buffered (t.exec c (.recv buf)).net c =
        (t.exec c (.recv buf)).acknowledged ↔
          bytes.length ≤ Syscall.userRoom buf.writable buf.addr (recvCount t.net c buf) := by
      unfold Receiver.exec
      dsimp only
      rw [← hlaw.bytes, ← hbytes, hreturned, List.append_assoc, List.append_cancel_left_eq,
        List.append_cancel_right_eq, List.take_eq_self_iff]
    have hbuffer : InBuffer c t (.recv buf) ↔
        bytes.length ≤ Syscall.userRoom buf.writable buf.addr (recvCount t.net c buf) := by
      rw [hlength]
      change (recvBufVirt t.net.pool c ≠ 0 → _ ≤ _) ↔ _
      by_cases hzero : recvBufVirt t.net.pool c = 0
      · rw [if_pos hzero]
        exact iff_of_true (fun hne => absurd hzero hne) (Nat.zero_le _)
      · rw [if_neg hzero]
        exact ⟨fun h => h hzero, fun h _ => h⟩
    rw [hbuffer, ← hiff]
    exact ⟨fun h => h.bytes, fun h => ⟨h, hseq'⟩⟩

/-- The connection has just been established. -/
structure JustEstablished (s : Net) (c : UInt64) : Prop where
  slot : c < maxTcpSockets
  state : (s.pool c).state = tcpEstablished
  head : (s.pool c).recvHead = 0
  tail : (s.pool c).recvTail = 0

theorem JustEstablished.open {s : Net} {c : UInt64} (h : JustEstablished s c) : Open s c where
  slot := h.slot
  state := h.state
  head := by
    rw [h.head]
    exact Nat.zero_le _
  tail := by
    rw [h.head, h.tail]

theorem JustEstablished.buffered {s : Net} {c : UInt64} (h : JustEstablished s c) : buffered s c = [] := by
  unfold Tcp.buffered
  rw [h.head, h.tail]
  exact bytesAt_self ..

/-- **The receive stream.** From a connection that has just been established, and through every sequence of
segments and reads in which each payload fits behind `recv_head` and each read finds room in the memory of the
process: the bytes that were returned and then those that are buffered are the payloads by which `seq_rcv` has
moved; a later payload that fits is stored; and the law survives the next step if and only if this step fits
as well. -/
theorem stream_of_fits (c : UInt64) (net : Net) (h : JustEstablished net c) (as : List Access)
    (hok : Admissible (Receiver.exec c) (fun t a => OfConnection c t a ∧ InBuffer c t a) ⟨net, [], []⟩ as) :
    StreamLaw c (net.pool c).seqRcv (runOps (Receiver.exec c) ⟨net, [], []⟩ as) ∧
      (∀ p, IsFor (runOps (Receiver.exec c) ⟨net, [], []⟩ as).net c p →
        advances (runOps (Receiver.exec c) ⟨net, [], []⟩ as).net c p = true →
        Fits4096 (runOps (Receiver.exec c) ⟨net, [], []⟩ as).net c p →
        buffered (tcpHandleIncoming (runOps (Receiver.exec c) ⟨net, [], []⟩ as).net p).2 c =
          buffered (runOps (Receiver.exec c) ⟨net, [], []⟩ as).net c ++ payload p) ∧
      ∀ a, OfConnection c (runOps (Receiver.exec c) ⟨net, [], []⟩ as) a →
        (StreamLaw c (net.pool c).seqRcv
            (Receiver.exec c (runOps (Receiver.exec c) ⟨net, [], []⟩ as) a) ↔
          InBuffer c (runOps (Receiver.exec c) ⟨net, [], []⟩ as) a) := by
  have hstart : StreamLaw c (net.pool c).seqRcv ⟨net, [], []⟩ := by
    refine ⟨h.buffered, ?_⟩
    exact (UInt32.add_zero _).symm
  obtain ⟨hopen, hlaw⟩ := runOps_induction
    (I := fun t : Receiver => Open t.net c ∧ StreamLaw c (net.pool c).seqRcv t)
    (fun t a ht ha => by
      obtain ⟨hopen, hiff⟩ := streamLaw_exec ht.1 ht.2 ha.1
      exact ⟨hopen, hiff.mpr ha.2⟩)
    ⟨h.open, hstart⟩ hok
  refine ⟨hlaw, fun p hfor hadv hfits => ?_, fun a hof => (streamLaw_exec hopen hlaw hof).2⟩
  obtain ⟨-, hbytes, -⟩ := buffered_segment hopen hfor hadv
  unfold Fits4096 at hfits
  rw [hbytes, (take_payload_eq_iff p).mpr (by omega)]

/-- An established connection in slot 0. -/
def oneConnection : Net where
  pool := Function.update (fun _ => Tcb.zero) 0
    { clientTcb 0 80 1 5 0x1000 with state := tcpEstablished, seqRcv := 1 }
  mem := fun _ => 0
  answers := []
  taken := [(0, 0x1000)]
  released := []

/-- A segment of that connection, with `n` bytes of data. -/
def dataSegment (n : UInt32) (seq : UInt8) : Packet where
  srcIp := 1
  buf i :=
    if i == 1 then 5 else if i == 3 then 80 else if i == 7 then seq else if i == 12 then 0x50
    else if i == 13 then 0x10 else 0
  len := 20 + n

theorem justEstablished_oneConnection : JustEstablished oneConnection 0 := by
  refine ⟨by decide, ?_, ?_, ?_⟩
  · rfl
  · rfl
  · rfl

/-- Two segments, and a read of one byte between them. -/
def twoSegments : List Access :=
  [.segment (dataSegment 2 1), .recv ⟨0x400000, 1, fun a => a < 0x401000⟩, .segment (dataSegment 3 3)]

theorem stream_of_fits_twoSegments :
    StreamLaw 0 1 (runOps (Receiver.exec 0) ⟨oneConnection, [], []⟩ twoSegments) := by
  refine (stream_of_fits 0 oneConnection justEstablished_oneConnection twoSegments ?_).1
  refine ⟨⟨?_, fun _ => ?_⟩, ⟨trivial, fun _ => ?_⟩, ⟨?_, fun _ => ?_⟩, trivial⟩
  · unfold OfConnection IsFor
    decide +kernel
  · unfold Fits4096
    decide +kernel
  · decide +kernel
  · unfold OfConnection IsFor
    decide +kernel
  · unfold Fits4096
    decide +kernel

theorem not_streamLaw_of_three {net : Net} {c : UInt64} (h : JustEstablished net c) {p : Packet}
    (hfor : IsFor net c p) (hadv : advances net c p = true) (hlen : p.payloadLen.toNat = 1460) :
    Admissible (Receiver.exec c) (OfConnection c) ⟨net, [], []⟩ [.segment p, .segment p, .segment p] ∧
      (StreamLaw c (net.pool c).seqRcv
          (runOps (Receiver.exec c) ⟨net, [], []⟩ [.segment p, .segment p]) →
        ¬StreamLaw c (net.pool c).seqRcv
          (runOps (Receiver.exec c) ⟨net, [], []⟩ [.segment p, .segment p, .segment p])) := by
  obtain ⟨hopen₁, -, -, -, hhead₁, hvirt₁⟩ := buffered_segment h.open hfor hadv
  have hfor₁ := isFor_segment hfor p
  have hadv₁ := (advances_eq hvirt₁ p).trans hadv
  obtain ⟨hopen₂, -, -, -, hhead₂, hvirt₂⟩ := buffered_segment hopen₁ hfor₁ hadv₁
  have hfor₂ := isFor_segment hfor₁ p
  have hadv₂ := (advances_eq hvirt₂ p).trans hadv₁
  rw [h.head, hlen, UInt32.toNat_zero] at hhead₁
  rw [hhead₁, hlen] at hhead₂
  -- two segments take 2920 bytes of the buffer, so the third one does not fit
  refine ⟨⟨hfor, hfor₁, hfor₂, trivial⟩, fun hlaw₂ hlaw₃ => ?_⟩
  rw [runOps_cons, runOps_cons, runOps_nil] at hlaw₂
  rw [runOps_cons, runOps_cons, runOps_cons, runOps_nil] at hlaw₃
  have hfits := (streamLaw_exec (a := .segment p) hopen₂ hlaw₂ hfor₂).2.mp hlaw₃ hadv₂
  unfold Fits4096 Receiver.exec at hfits
  dsimp only at hfits
  rw [hlen, hhead₂] at hfits
  omega

/-- Three segments of 1460 bytes: a part of the last one is lost. -/
theorem not_streamLaw_three :
    ¬∀ (c : UInt64) (net : Net) (as : List Access), JustEstablished net c →
      Admissible (Receiver.exec c) (OfConnection c) ⟨net, [], []⟩ as →
      StreamLaw c (net.pool c).seqRcv (runOps (Receiver.exec c) ⟨net, [], []⟩ as) := by
  intro h
  have hfor : IsFor oneConnection 0 (dataSegment 1460 1) := by
    unfold IsFor
    decide +kernel
  obtain ⟨hok, hnot⟩ := not_streamLaw_of_three justEstablished_oneConnection hfor (by decide +kernel)
    (by decide +kernel)
  have hlaw₂ := h 0 oneConnection [.segment (dataSegment 1460 1), .segment (dataSegment 1460 1)]
    justEstablished_oneConnection ⟨hok.1, hok.2.1, trivial⟩
  exact hnot hlaw₂ (h 0 oneConnection _ justEstablished_oneConnection hok)

/-! ### Segments of one stream -/

/-- The segment holds bytes of the stream `stream`, whose first byte has the sequence number `isn + 1`. -/
def FromStream (stream : List UInt8) (isn : UInt32) (p : Packet) : Prop :=
  ∃ o n, o + n ≤ stream.length ∧ payload p = (stream.drop o).take n ∧ p.seq = isn + 1 + UInt32.ofNat o

/-- A segment with data starts at the next byte that is expected. -/
def InOrder (s : Net) (c : UInt64) (p : Packet) : Prop :=
  advances s c p = true → p.seq = (s.pool c).seqRcv

/-- A segment is delivered. -/
def deliver (s : Net) (p : Packet) : Net := (tcpHandleIncoming s p).2

/-- The bytes that are stored in the buffer of the connection. -/
def stored (s : Net) (c : UInt64) : List UInt8 :=
  bytesAt s.mem (recvBufVirt s.pool c) 0 (s.pool c).recvHead.toNat

/-- The buffer holds a prefix of the stream, and `seq_rcv` is behind it. -/
structure PrefixLaw (stream : List UInt8) (isn : UInt32) (s : Net) (c : UInt64) : Prop where
  bytes : stored s c <+: stream
  seqRcv : (s.pool c).seqRcv = isn + 1 + UInt32.ofNat (stored s c).length

theorem length_stored (s : Net) (c : UInt64) : (stored s c).length = (s.pool c).recvHead.toNat := by
  unfold stored
  rw [length_bytesAt, Nat.sub_zero]

theorem stored_eq_buffered {s : Net} {c : UInt64} (h : (s.pool c).recvTail = 0) :
    stored s c = buffered s c := by
  unfold stored buffered
  rw [h]
  rfl

section Deliver

variable {stream : List UInt8} (hstream : stream.length ≤ 4096) {isn : UInt32} {s : Net} {c : UInt64}
  (hopen : Open s c) (htail : (s.pool c).recvTail = 0) (hlaw : PrefixLaw stream isn s c)

include hstream hopen htail hlaw

/-- **One delivery** in order extends the prefix. -/
theorem prefixLaw_deliver {p : Packet} (hfor : IsFor s c p) (hfrom : FromStream stream isn p)
    (horder : InOrder s c p) :
    Open (deliver s p) c ∧ ((deliver s p).pool c).recvTail = 0 ∧ PrefixLaw stream isn (deliver s p) c := by
  unfold deliver
  cases hadv : advances s c p with
  | false =>
    -- nothing is stored
    obtain ⟨hmem, hstate, hhead, htail', hseq, hbuf⟩ := tcpHandleIncoming_quiet hopen hfor hadv
    have hstored : stored (tcpHandleIncoming s p).2 c = stored s c := by
      unfold stored
      rw [hmem, hhead, recvBufVirt_eq hbuf]
    refine ⟨⟨hopen.slot, hstate, ?_, ?_⟩, htail'.trans htail, ?_, ?_⟩
    · rw [hhead]
      exact hopen.head
    · rw [hhead, htail']
      exact hopen.tail
    · rw [hstored]
      exact hlaw.bytes
    · rw [hstored, hseq]
      exact hlaw.seqRcv
  | true =>
    obtain ⟨hopen', hbytes, hseq, htail', hhead', -⟩ := buffered_segment hopen hfor hadv
    obtain ⟨o, n, hon, hpayload, hpseq⟩ := hfrom
    have hpre := List.prefix_iff_eq_take.mp hlaw.bytes
    have hlen := length_stored s c
    have hle : (stored s c).length ≤ stream.length := hlaw.bytes.length_le
    -- the sequence numbers agree, and both offsets are small
    have ho : o = (stored s c).length := by
      have heq := horder hadv
      rw [hpseq, hlaw.seqRcv] at heq
      have heq := congrArg UInt32.toNat ((UInt32.add_right_inj (isn + 1)).mp heq)
      rw [UInt32.toNat_ofNat', UInt32.toNat_ofNat', Nat.mod_eq_of_lt (by omega),
        Nat.mod_eq_of_lt (by omega)] at heq
      exact heq
    have hn : p.payloadLen.toNat = n := by
      rw [← length_payload, hpayload, List.length_take, List.length_drop]
      omega
    have hall : (payload p).take (min p.payloadLen.toNat (4096 - (s.pool c).recvHead.toNat)) =
        payload p := by
      rw [take_payload_eq_iff]
      omega
    have hstored : stored (tcpHandleIncoming s p).2 c = stream.take (o + n) := by
      rw [stored_eq_buffered (htail'.trans htail), hbytes, hall, hpayload,
        ← stored_eq_buffered htail, hpre, ho, List.take_add]
    refine ⟨hopen', htail'.trans htail, ?_, ?_⟩
    · rw [hstored]
      exact List.take_prefix ..
    · rw [hseq, hlaw.seqRcv, hstored, List.length_take, Nat.min_eq_left hon, ho, ← hn,
        UInt32.ofNat_add, UInt32.ofNat_toNat, UInt32.add_assoc]

end Deliver

/-- **Segments in order.** From a connection that has just been established, and through every sequence of
segments of one stream of at most 4096 bytes in which each segment with data starts at the next byte
that is expected, the buffer holds a prefix of the stream and `seq_rcv` is behind it. -/
theorem prefix_of_inOrder (stream : List UInt8) (hstream : stream.length ≤ 4096) (isn : UInt32) (net : Net)
    (c : UInt64) (h : JustEstablished net c) (hseq : (net.pool c).seqRcv = isn + 1) (ps : List Packet)
    (hok : Admissible deliver
      (fun s p => (IsFor s c p ∧ FromStream stream isn p) ∧ InOrder s c p) net ps) :
    PrefixLaw stream isn (runOps deliver net ps) c := by
  have hstored : stored net c = [] := by
    rw [stored_eq_buffered h.tail, h.buffered]
  have hstart : PrefixLaw stream isn net c := by
    refine ⟨?_, ?_⟩
    · rw [hstored]
      exact List.nil_prefix
    · rw [hstored, hseq]
      exact (UInt32.add_zero _).symm
  obtain ⟨-, -, hlaw⟩ := runOps_induction
    (I := fun s : Net => Open s c ∧ (s.pool c).recvTail = 0 ∧ PrefixLaw stream isn s c)
    (fun s p hs hp => prefixLaw_deliver hstream hs.1 hs.2.1 hs.2.2 hp.1.1 hp.1.2 hp.2)
    ⟨h.open, h.tail, hstart⟩ hok
  exact hlaw

/-- A segment with the bytes `data`. -/
def textSegment (data : List UInt8) (seq : UInt8) : Packet :=
  let p := dataSegment (UInt32.ofNat data.length) seq
  { p with buf := fun i => if i < 20 then p.buf i else data.getD (i - 20).toNat 0 }

/-- Two segments, one behind the other. -/
theorem prefix_of_inOrder_two :
    PrefixLaw [7, 8, 9] 0 (runOps deliver oneConnection [textSegment [7] 1, textSegment [8, 9] 2]) 0 := by
  refine prefix_of_inOrder [7, 8, 9] (by decide) 0 oneConnection 0 justEstablished_oneConnection rfl _ ?_
  refine ⟨⟨⟨?_, 0, 1, by decide, by decide +kernel, by decide +kernel⟩, fun _ => ?_⟩,
    ⟨⟨?_, 1, 2, by decide, by decide +kernel, by decide +kernel⟩, fun _ => ?_⟩, trivial⟩
  · unfold IsFor
    decide +kernel
  · decide +kernel
  · unfold IsFor
    decide +kernel
  · decide +kernel

theorem length_stored_twice {net : Net} {c : UInt64} (h : JustEstablished net c) {p : Packet}
    (hfor : IsFor net c p) (hadv : advances net c p = true) (hlen : p.payloadLen.toNat = 1) :
    IsFor (deliver net p) c p ∧ (stored (runOps deliver net [p, p]) c).length = 2 := by
  obtain ⟨hopen₁, -, -, -, hhead₁, hvirt₁⟩ := buffered_segment h.open hfor hadv
  have hfor₁ := isFor_segment hfor p
  obtain ⟨-, -, -, -, hhead₂, -⟩ :=
    buffered_segment hopen₁ hfor₁ ((advances_eq hvirt₁ p).trans hadv)
  rw [h.head, hlen, UInt32.toNat_zero] at hhead₁
  rw [hhead₁, hlen] at hhead₂
  refine ⟨hfor₁, ?_⟩
  rw [runOps_cons, runOps_cons, runOps_nil]
  unfold deliver
  rw [length_stored, hhead₂]
  omega

/-- The segment arrives twice, and the buffer is longer than the stream. -/
theorem not_prefixLaw_twice :
    ¬∀ (stream : List UInt8) (isn : UInt32) (net : Net) (c : UInt64) (ps : List Packet),
      stream.length ≤ 4096 → JustEstablished net c → (net.pool c).seqRcv = isn + 1 →
      Admissible deliver (fun s p => IsFor s c p ∧ FromStream stream isn p) net ps →
      PrefixLaw stream isn (runOps deliver net ps) c := by
  intro h
  have hfor : IsFor oneConnection 0 (dataSegment 1 1) := by
    unfold IsFor
    decide +kernel
  have hfrom : FromStream [0] 0 (dataSegment 1 1) :=
    ⟨0, 1, by decide, by decide +kernel, by decide +kernel⟩
  obtain ⟨hfor₁, htwo⟩ := length_stored_twice justEstablished_oneConnection hfor (by decide +kernel)
    (by decide +kernel)
  have hlaw := h [0] 0 oneConnection 0 [dataSegment 1 1, dataSegment 1 1] (by decide)
    justEstablished_oneConnection rfl ⟨⟨hfor, hfrom⟩, ⟨hfor₁, hfrom⟩, trivial⟩
  have hle := hlaw.bytes.length_le
  rw [htwo] at hle
  exact absurd hle (by decide)

end Keuos.Tcp
