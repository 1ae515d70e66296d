import Keuos.Net.Netcore

/-!
# What the handlers leave alone

Of the notification ring and the loopback slot, a handler changes nothing (`Silent`): it reads and writes
memory, takes pages and changes connections.  The one exception is the notification at the end of
`handle_tcp_notify`.
-/

namespace Keuos.Net

open Traced

/-! ### Memory -/

theorem Ptr.add_add (p : Ptr) (i j : UInt64) : (p.add i).add j = p.add (i + j) := by
  unfold Ptr.add
  rw [UInt64.add_assoc]

section Access

variable (p : Ptr) (v : UInt8) (s : Stack) {P : Event → Prop}

@[simp] theorem val_load : (load p).val s = s.tcp.mem p.addr := rfl
@[simp] theorem next_load : (load p).next s = s := rfl

@[simp] theorem all_load : All P (load p) s ↔ P (.read p) := by
  unfold All
  change (∀ e ∈ [Event.read p], P e) ↔ _
  simp

@[simp] theorem all_store : All P (store p v) s ↔ P (.write p) := by
  unfold All
  change (∀ e ∈ [Event.write p], P e) ↔ _
  simp

end Access

/-! ### Parsers -/

/-- The program leaves the state as it is, and its value depends on the memory only. -/
structure Parses {α : Type} (x : NetM α) : Prop where
  next : ∀ s, x.next s = s
  val : ∀ {s t : Stack}, t.tcp.mem = s.tcp.mem → x.val t = x.val s

namespace Parses

variable {α β : Type} {x : NetM α} {f : α → NetM β}

theorem pure (a : α) : Parses (Pure.pure a : NetM α) := ⟨fun _ => rfl, fun _ => rfl⟩

theorem bind (hx : Parses x) (hf : ∀ a, Parses (f a)) : Parses (x >>= f) where
  next s := by rw [next_bind, hx.next, (hf _).next]
  val {s t} h := by rw [val_bind, val_bind, hx.next, hx.next, hx.val h, (hf _).val h]

theorem ite {c : Prop} [Decidable c] {y : NetM α} (hx : Parses x) (hy : Parses y) :
    Parses (if c then x else y) := by
  split
  · exact hx
  · exact hy

theorem load (p : Ptr) : Parses (load p) := ⟨fun _ => rfl, fun h => congrFun h p.addr⟩

theorem load16 (p : Ptr) : Parses (load16 p) :=
  (load _).bind fun _ => (load _).bind fun _ => .pure _

theorem load32 (p : Ptr) : Parses (load32 p) :=
  (load _).bind fun _ => (load _).bind fun _ => (load _).bind fun _ => (load _).bind fun _ => .pure _

theorem loadMac (p : Ptr) : Parses (loadMac p) :=
  (load _).bind fun _ => (load _).bind fun _ => (load _).bind fun _ => (load _).bind fun _ =>
    (load _).bind fun _ => (load _).bind fun _ => .pure _

theorem ethParse (buf : Ptr) (len : UInt32) : Parses (ethParse buf len) :=
  .ite (.pure _) <| (loadMac _).bind fun _ => (loadMac _).bind fun _ => (load16 _).bind fun _ => .pure _

theorem ipParse (buf : Ptr) (len : UInt32) : Parses (ipParse buf len) :=
  .ite (.pure _) <| (load _).bind fun _ => (load16 _).bind fun _ => (load _).bind fun _ =>
    (load _).bind fun _ => (load32 _).bind fun _ => (load32 _).bind fun _ => .pure _

theorem udpParse (buf : Ptr) (len : UInt32) : Parses (udpParse buf len) :=
  .ite (.pure _) <| (load16 _).bind fun _ => (load16 _).bind fun _ => (load16 _).bind fun _ => .pure _

end Parses

@[simp] theorem next_load16 (p : Ptr) (s : Stack) : (load16 p).next s = s := rfl
@[simp] theorem next_load32 (p : Ptr) (s : Stack) : (load32 p).next s = s := rfl
@[simp] theorem next_loadMac (p : Ptr) (s : Stack) : (loadMac p).next s = s := rfl

@[simp] theorem next_ethParse (buf : Ptr) (len : UInt32) (s : Stack) : (ethParse buf len).next s = s :=
  (Parses.ethParse buf len).next s

@[simp] theorem next_ipParse (buf : Ptr) (len : UInt32) (s : Stack) : (ipParse buf len).next s = s :=
  (Parses.ipParse buf len).next s

@[simp] theorem next_udpParse (buf : Ptr) (len : UInt32) (s : Stack) : (udpParse buf len).next s = s :=
  (Parses.udpParse buf len).next s

/-! ### Silent programs -/

/-- The state of the notifications and the loopback slot. -/
def Stack.kept (s : Stack) : NotifyRing × UInt64 × UInt64 × UInt64 :=
  (s.ring, s.rxNotifyPtr, s.netdNotifyPid, s.loopbackBuf)

/-- A read of an object of `R`, or a write to one of `W`. -/
def AccessOf (R W : Obj → Prop) : Event → Prop
  | .read p => R p.obj
  | .write p => W p.obj
  | _ => False

/-- Only memory of these objects is accessed, and the notifications and the loopback slot stay as they
are. -/
abbrev Only {α : Type} (R W : Obj → Prop) (x : NetM α) : Prop := Keeps Stack.kept (AccessOf R W) x

/-- Only memory is accessed. -/
abbrev Silent {α : Type} (x : NetM α) : Prop := Only (fun _ => True) (fun _ => True) x

section Only

variable {R W : Obj → Prop}

theorem only_load {p : Ptr} (h : R p.obj) : Only R W (load p) := by
  intro s
  simp [AccessOf, h]

theorem only_store {p : Ptr} (h : W p.obj) (v : UInt8) : Only R W (store p v) := by
  intro s
  exact ⟨rfl, by simp [AccessOf, h]⟩

theorem only_load16 {p : Ptr} (h : R p.obj) : Only R W (load16 p) :=
  .bind (only_load h) fun _ => .bind (only_load h) fun _ => .pure _

theorem only_load32 {p : Ptr} (h : R p.obj) : Only R W (load32 p) :=
  .bind (only_load h) fun _ => .bind (only_load h) fun _ => .bind (only_load h) fun _ =>
    .bind (only_load h) fun _ => .pure _

theorem only_loadMac {p : Ptr} (h : R p.obj) : Only R W (loadMac p) :=
  .bind (only_load h) fun _ => .bind (only_load h) fun _ => .bind (only_load h) fun _ =>
    .bind (only_load h) fun _ => .bind (only_load h) fun _ => .bind (only_load h) fun _ => .pure _

theorem only_storeBytes {p : Ptr} (h : W p.obj) (bs : List UInt8) : Only R W (storeBytes p bs) := by
  induction bs generalizing p with
  | nil => exact .pure ()
  | cons b bs ih => exact .bind (only_store h b) fun _ => ih h

theorem only_copyBytes {dst src : Ptr} (hW : W dst.obj) (hR : R src.obj) (n : Nat) :
    Only R W (copyBytes dst src n) := by
  induction n generalizing dst src with
  | zero => exact .pure ()
  | succ n ih => exact .bind (only_load hR) fun b => .bind (only_store hW b) fun _ => ih hW hR

theorem only_ethParse {buf : Ptr} (h : R buf.obj) (len : UInt32) : Only R W (ethParse buf len) :=
  .ite (.pure _) <| .bind (only_loadMac h) fun _ => .bind (only_loadMac h) fun _ =>
    .bind (only_load16 h) fun _ => .pure _

theorem only_ethBuild {buf : Ptr} (h : W buf.obj) (dst src : Mac) (ethertype : UInt16) :
    Only R W (ethBuild buf dst src ethertype) :=
  .bind (only_storeBytes h _) fun _ => .pure _

theorem only_ipParse {buf : Ptr} (h : R buf.obj) (len : UInt32) : Only R W (ipParse buf len) :=
  .ite (.pure _) <| .bind (only_load h) fun _ => .bind (only_load16 h) fun _ => .bind (only_load h) fun _ =>
    .bind (only_load h) fun _ => .bind (only_load32 h) fun _ => .bind (only_load32 h) fun _ => .pure _

theorem only_sumWords {buf : Ptr} (h : R buf.obj) (len : UInt32) (n : Nat) (i sum : UInt32) :
    Only R W (sumWords buf len n i sum) := by
  induction n generalizing i sum with
  | zero => exact .pure _
  | succ n ih =>
    exact .ite (.bind (only_load h) fun _ => .bind (only_load h) fun _ => ih _ _) (.pure _)

theorem only_sumBytes {buf : Ptr} (h : R buf.obj) (len sum : UInt32) : Only R W (sumBytes buf len sum) :=
  .bind (only_sumWords h _ _ _ _) fun _ => .ite (.bind (only_load h) fun _ => .pure _) (.pure _)

theorem only_checksum {buf : Ptr} (h : R buf.obj) (len : UInt32) : Only R W (checksum buf len) :=
  .bind (only_sumBytes h _ _) fun _ => .pure _

theorem only_ipBuild {buf : Ptr} (hR : R buf.obj) (hW : W buf.obj) (srcIp dstIp : UInt32)
    (protocol : UInt8) (len : UInt16) : Only R W (ipBuild buf srcIp dstIp protocol len) := by
  unfold ipBuild
  apply Keeps.bind (only_storeBytes hW _)
  intro _
  apply Keeps.bind (only_checksum hR _)
  intro csum
  exact .bind (only_storeBytes (p := buf.add 10) hW _) fun _ => .pure _

theorem only_udpParse {buf : Ptr} (h : R buf.obj) (len : UInt32) : Only R W (udpParse buf len) :=
  .ite (.pure _) <| .bind (only_load16 h) fun _ => .bind (only_load16 h) fun _ =>
    .bind (only_load16 h) fun _ => .pure _

theorem only_udpBuild {buf : Ptr} (h : W buf.obj) (srcPort dstPort len : UInt16) :
    Only R W (udpBuild buf srcPort dstPort len) :=
  .bind (only_storeBytes h _) fun _ => .pure _

theorem only_txDescriptor : Only R W txDescriptor := by
  refine .call fun s => ?_
  cases s.txFree <;> rfl

theorem only_pmmAlloc : Only R W pmmAlloc :=
  .call fun _ => rfl

theorem only_netTxSend {pkt : Ptr} (hR : R pkt.obj) (hW : W .other) (len : UInt32) :
    Only R W (netTxSend pkt len) :=
  .ite (.pure _) <| .bind only_txDescriptor fun _ => .ite (.pure _) <| .bind .get fun _ =>
    .bind (only_storeBytes hW _) fun _ => .bind (only_copyBytes hW hR _) fun _ =>
    .bind (.modify fun _ => rfl) fun _ => .pure _

theorem only_rtlTxSend {pkt : Ptr} (hR : R pkt.obj) (hW : W .other) (len : UInt32) :
    Only R W (rtlTxSend pkt len) :=
  .bind only_txDescriptor fun _ => .ite (.pure _) <| .bind only_pmmAlloc fun _ =>
    .bind (only_copyBytes hW hR _) fun _ => .pure _

theorem only_txSend {pkt : Ptr} (hR : R pkt.obj) (hW : W .other) (len : UInt32) :
    Only R W (txSend pkt len) :=
  .bind .get fun _ => .ite (only_rtlTxSend hR hW len) (only_netTxSend hR hW len)

theorem only_sendArpReply (hR : R .other) (hW : W .other) (targetMac : Mac) (targetIp : UInt32)
    (ourMac : Mac) : Only R W (sendArpReply targetMac targetIp ourMac) :=
  .bind (only_ethBuild hW _ _ _) fun _ => .bind (only_storeBytes hW _) fun _ =>
    .bind (only_netTxSend hR hW _) fun _ => .pure _

theorem only_modifyTcb (slot : UInt64) (f : Tcp.Tcb → Tcp.Tcb) : Only R W (modifyTcb slot f) :=
  .modify fun _ => rfl

theorem only_buildTcp {buf : Ptr} (h : W buf.obj) (srcPort dstPort : UInt16) (seq ack : UInt32)
    (flags window : UInt16) : Only R W (buildTcp buf srcPort dstPort seq ack flags window) :=
  .bind (only_storeBytes h _) fun _ => .pure _

theorem only_tcpChecksum {buf : Ptr} (h : R buf.obj) (hdrLen payloadLen srcIp dstIp : UInt32) :
    Only R W (tcpChecksum buf hdrLen payloadLen srcIp dstIp) := by
  unfold tcpChecksum
  exact .bind (only_sumBytes h _ _) fun _ =>
    .bind (only_sumBytes (show R (buf.add hdrLen.toUInt64).obj from h) _ _) fun _ => .pure _

theorem only_serverSynAck (hR : R .other) (hW : W .other) (srcIp : UInt32) (srcPort dstPort : UInt16)
    (isn : UInt32) (listenSlot child : UInt64) :
    Only R W (serverSynAck srcIp srcPort dstPort isn listenSlot child) := by
  have hbuild : ∀ page serverIsn,
      Only R W (buildSynAck ⟨.other, page, 0⟩ srcIp srcPort dstPort serverIsn isn) := by
    intro page serverIsn
    exact .bind .get fun _ => .bind (only_ethBuild hW _ _ _) fun _ =>
      .bind (only_ipBuild hR hW _ _ _ _) fun _ => .bind (only_buildTcp hW _ _ _ _ _ _) fun _ =>
      .bind (only_tcpChecksum hR _ _ _ _) fun _ => .bind (only_storeBytes hW _) fun _ => .pure _
  have hdeliver : ∀ page total serverIsn,
      Only R W (deliverSynAck ⟨.other, page, 0⟩ total srcIp srcPort dstPort serverIsn isn) :=
    fun _ _ _ => .ite (.bind .get fun _ => .ite (only_modifyTcb _ _) (.pure _))
      (.bind (only_netTxSend hR hW _) fun _ => .pure _)
  exact .bind (only_modifyTcb _ _) fun _ => .bind only_pmmAlloc fun _ => .ite
    (.bind (.modify fun _ => rfl) fun _ => .pure _)
    (.bind (hbuild _ _) fun _ => .bind (hdeliver _ _ _) fun _ => .bind (only_modifyTcb _ _) fun _ =>
      .bind (.modify fun _ => rfl) fun _ => .pure _)

end Only

/-! ### The handlers -/

theorem silent_arpHandle (pkt : Ptr) (off len : UInt32) (mac : Mac) : Silent (arpHandle pkt off len mac) :=
  .ite (.pure _) <| .bind (only_load16 trivial) fun _ => .bind (only_loadMac trivial) fun _ =>
    .bind (only_load32 trivial) fun _ => .bind (only_load32 trivial) fun _ =>
    .bind (.modify fun _ => rfl) fun _ => .ite (only_sendArpReply trivial trivial _ _ _) (.pure _)

theorem silent_handleUdp (buf : Ptr) (len srcIp : UInt32) (mac : Mac) :
    Silent (handleUdp buf len srcIp mac) := by
  have hsend : ∀ dstPort srcPort payload n, Silent (sendUdpReply srcIp mac dstPort srcPort payload n) :=
    fun _ _ _ _ => .bind .get fun _ => .bind (only_ethBuild trivial _ _ _) fun _ =>
      .bind (only_ipBuild trivial trivial _ _ _ _) fun _ => .bind (only_udpBuild trivial _ _ _) fun _ =>
      .bind (only_copyBytes trivial trivial _) fun _ => .bind (only_txSend trivial trivial _) fun _ => .pure _
  exact .bind (only_udpParse trivial _) fun _ => .ite (.pure _) <|
    .ite ((hsend _ _ _ _).bind fun _ => .modify fun _ => rfl) (.pure _)

theorem silent_handleIcmpPacket (buf payload : Ptr) (len srcIp : UInt32) :
    Silent (handleIcmpPacket buf payload len srcIp) := by
  have hicmp : Silent (handleIcmp payload len) :=
    .ite (.pure _) <| .bind (only_load trivial) fun _ => .ite (.pure _) <|
      .bind (only_store trivial _) fun _ => .bind (only_storeBytes trivial _) fun _ =>
      .bind (only_checksum trivial _) fun _ => .bind (only_storeBytes trivial _) fun _ => .pure _
  have hreply : Silent (sendIcmpReply buf len srcIp) :=
    .bind (only_ipBuild trivial trivial _ _ _ _) fun _ => .bind (only_loadMac trivial) fun _ =>
      .bind (only_loadMac trivial) fun _ => .bind (only_ethBuild trivial _ _ _) fun _ =>
      .bind (only_txSend trivial trivial _) fun _ => .pure _
  exact .bind (only_load trivial) fun _ => .bind (.ite (.modify fun _ => rfl) (.pure _)) fun _ =>
    hicmp.bind fun _ => .ite hreply (.pure _)

theorem silent_handleServerSyn (buf : Ptr) (len srcIp : UInt32) : Silent (handleServerSyn buf len srcIp) :=
  .ite (.pure _) <| .bind (only_load16 trivial) fun _ => .bind (only_load16 trivial) fun _ =>
    .bind .get fun _ => .ite (.pure _) <| .bind (only_load32 trivial) fun _ =>
    .bind (.call fun _ => rfl) fun _ =>
    .ite (.pure _) (only_serverSynAck trivial trivial _ _ _ _ _ _)

theorem silent_synFirst (buf : Ptr) (len srcIp : UInt32) : Silent (synFirst buf len srcIp) :=
  .ite (.bind (only_load16 trivial) fun _ => .ite (silent_handleServerSyn _ _ _) (.pure _)) (.pure _)

theorem silent_tcpHandleIncoming (buf : Ptr) (len srcIp : UInt32) :
    Silent (tcpHandleIncoming buf len srcIp) := by
  have hcopy : ∀ data recv payloadLen head n i, Silent (copyIn data recv payloadLen head n i) := by
    intro data recv payloadLen head n
    induction n with
    | zero =>
      intro i
      exact .pure _
    | succ n ih =>
      intro i
      exact .ite (.bind (only_load trivial) fun _ => .bind (only_store trivial _) fun _ => ih _) (.pure _)
  have hdata : ∀ hdrLen slot, Silent (storeData buf len hdrLen slot) :=
    fun _ _ => .ite
      (.bind .get fun _ => .ite (.bind (hcopy _ _ _ _ _ _) fun _ => only_modifyTcb _ _) (.pure _))
      (.pure _)
  exact .ite (.pure _) <| .bind (only_load16 trivial) fun _ => .bind (only_load16 trivial) fun _ =>
    .bind (only_load16 trivial) fun _ => .bind .get fun _ =>
    .ite (.bind (only_load32 trivial) fun _ => .bind (only_modifyTcb _ _) fun _ => .pure _) <|
    .ite (.bind (only_modifyTcb _ _) fun _ => .pure _) <|
    .ite (.bind (hdata _ _) fun _ => .pure _) <|
    .ite (.bind (only_modifyTcb _ _) fun _ => .pure _) (.pure _)

theorem silent_ethParse (buf : Ptr) (len : UInt32) : Silent (ethParse buf len) :=
  only_ethParse trivial len

theorem silent_ipParse (buf : Ptr) (len : UInt32) : Silent (ipParse buf len) :=
  only_ipParse trivial len

/-! ### Packets for this machine -/

/-- `handle_ipv4` does not drop the packet. -/
def IPv4Header.ForUs (ip : IPv4Header) : Prop :=
  20 ≤ ip.ihl ∧ (ip.dstIp = 0x0A00020F ∨ ip.dstIp = 0x7F000001)

instance (ip : IPv4Header) : Decidable ip.ForUs := inferInstanceAs (Decidable (_ ∧ _))

/-- `process_one` does not drop the frame, and hands an IPv4 packet to `handle_ipv4`. -/
def IsIpv4 (s : Stack) (frame : Ptr × UInt32) : Prop :=
  let eth := (ethParse frame.1 frame.2).val s
  (macMatches eth.dst s.ourMac ∨ isBroadcast eth.dst) ∧ eth.ethertype = 0x0800 ∧ 34 ≤ frame.2

instance (s : Stack) (frame : Ptr × UInt32) : Decidable (IsIpv4 s frame) :=
  inferInstanceAs (Decidable (_ ∧ _))

/-- The payload of an IPv4 packet. -/
def payloadOf (buf : Ptr) (len : UInt32) (ip : IPv4Header) : Ptr × UInt32 :=
  (buf.add ip.ihl.toUInt32.toUInt64, len - ip.ihl.toUInt32)

theorem forUs_iff (ip : IPv4Header) :
    ip.ForUs ↔ ¬ip.ihl < 20 ∧ ¬(ip.dstIp != 0x0A00020F && ip.dstIp != 0x7F000001) = true := by
  unfold IPv4Header.ForUs
  rw [UInt8.not_lt]
  simp only [Bool.and_eq_true, bne_iff_ne, ne_eq, not_and_or, not_not]

theorem handleIpv4_eq (buf : Ptr) (len : UInt32) (mac : Mac) (s : Stack) :
    let ip := (ipParse buf len).val s
    let payload := payloadOf buf len ip
    let rest : NetM Unit :=
      if ip.ForUs then
        if ip.protocol == 17 then handleUdp payload.1 payload.2 ip.srcIp mac
        else if ip.protocol == 6 then handleTcpNotify payload.1 payload.2 ip.srcIp
        else if ip.protocol == 1 then handleIcmpPacket buf payload.1 payload.2 ip.srcIp
        else return
      else return
    (handleIpv4 buf len mac).next s = rest.next s ∧
      (handleIpv4 buf len mac).log s =
        .ipv4 buf (s.bytes buf.addr len) :: ((ipParse buf len).log s ++ rest.log s) := by
  dsimp only
  unfold handleIpv4
  rw [next_bind, log_bind, next_get, val_get, log_get, next_bind, log_bind, next_emit, log_emit, next_bind,
    log_bind, next_ipParse]
  generalize (ipParse buf len).val s = ip
  by_cases hfor : ip.ForUs
  · obtain ⟨hihl, hdst⟩ := (forUs_iff ip).mp hfor
    rw [if_pos hfor, if_neg hihl, if_neg hdst]
    exact ⟨rfl, rfl⟩
  · rw [if_neg hfor]
    by_cases hihl : ip.ihl < 20
    · rw [if_pos hihl]
      exact ⟨rfl, rfl⟩
    · have hdst : (ip.dstIp != 0x0A00020F && ip.dstIp != 0x7F000001) = true := by
        by_contra hdst
        exact hfor ((forUs_iff ip).mpr ⟨hihl, hdst⟩)
      rw [if_neg hihl, if_pos hdst]
      exact ⟨rfl, rfl⟩

theorem log_processOne {s : Stack} {buf : UInt64} {len : UInt32} {rest : List (UInt64 × UInt32)}
    (hslot : s.loopbackBuf = 0) (hrx : s.rx = (buf, len) :: rest) :
    processOne.log s = (processPacket buf len).log { s with rx := rest } := by
  have hpoll : rxPoll.val s = some (buf, len) ∧ rxPoll.next s = { s with rx := rest } ∧
      rxPoll.log s = [] := by
    unfold rxPoll
    rw [val_call, next_call, log_call, hrx]
    exact ⟨rfl, rfl, rfl⟩
  have hempty : ¬(s.loopbackBuf != 0) = true := by simp [hslot]
  unfold processOne
  rw [log_bind, next_get, val_get, log_get, if_neg hempty, log_bind, hpoll.1, hpoll.2.1, hpoll.2.2]
  dsimp only
  rw [log_bind, log_pure, List.nil_append, List.nil_append, List.append_nil]

/-- A stack with the address of QEMU's card, zeros in memory and nothing received, for examples. -/
def Stack.quiet : Stack where
  tcp := ⟨fun _ => Tcp.Tcb.zero, fun _ => 0, [], [], []⟩
  ring := { head := 0, tail := 0, capacity := 3904, data := fun _ => 0 }
  rxNotifyPtr := 0xFFFFFFFF80500000
  netdNotifyPid := 2
  usingRtl8125 := false
  virtioMac := ![0x52, 0x54, 0x00, 0x12, 0x34, 0x56]
  rtlMac := 0
  rx := []
  txFree := []
  txCount := 0
  txScratch := 0xFFFFFFFF80300000
  loopbackBuf := 0
  loopbackLen := 0
  loopbackSrcMac := 0
  icmpReplyReceived := false
  icmpReplySrcIp := 0
  udpPacketsHandled := 0
  arpTable := fun _ => ⟨0, 0, false⟩

end Keuos.Net
