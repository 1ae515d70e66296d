import Keuos.Net.Equiv.Frames
import Keuos.Tcp.Equiv.Pool

/-!
# Receive buffers

`process_one` either gives a buffer back to the network card or names it in a record of the notification
ring, if the ring has room for the record and `handle_tcp_notify` does not push one of its own
(`conserved_iff`).  With a full ring the buffer is in neither place, and a segment that no connection takes
is in two records.
-/

namespace Keuos.Net

open Traced
open Tcp (noSlot)

/-! ### The place of a buffer -/

/-- The buffer is reposted, or a word is pushed to the notification ring. -/
def isHandover : Event → Bool
  | .repost _ => true
  | .push64 _ => true
  | .push32 _ => true
  | _ => false

def handovers (es : List Event) : List Event := es.filter isHandover

/-- The buffer is reposted exactly once, or the words pushed to the notification ring are one record, which
names it. -/
def Conserved (buf : UInt64) (len : UInt32) (es : List Event) : Prop :=
  handovers es = [.repost buf] ∨ handovers es = [.push64 buf, .push32 len]

instance (buf : UInt64) (len : UInt32) (es : List Event) : Decidable (Conserved buf len es) :=
  inferInstanceAs (Decidable (_ ∨ _))

@[simp] theorem handovers_nil : handovers [] = [] := rfl

@[simp] theorem handovers_append (es es' : List Event) :
    handovers (es ++ es') = handovers es ++ handovers es' :=
  List.filter_append es es'

theorem handovers_of_silent {α : Type} {x : NetM α} (h : Silent x) (s : Stack) :
    handovers (x.log s) = [] := by
  apply List.filter_eq_nil_iff.mpr
  intro e he
  have haccess := (h s).2 e he
  cases e <;> first | exact haccess.elim | simp [isHandover]

theorem ring_of_silent {α : Type} {x : NetM α} (h : Silent x) (s : Stack) :
    (x.next s).ring = s.ring ∧ (x.next s).rxNotifyPtr = s.rxNotifyPtr := by
  have hkept := (h s).1
  simp only [Stack.kept, Prod.mk.injEq] at hkept
  exact ⟨hkept.1, hkept.2.1⟩

/-! ### Notifications -/

/-- There is room for the two pushes of a record. -/
def NotifyRing.Room (r : NotifyRing) : Prop :=
  r.head + 8 - r.tail ≤ r.capacity ∧ r.head + 8 + 4 - r.tail ≤ r.capacity

instance (r : NotifyRing) : Decidable r.Room := inferInstanceAs (Decidable (_ ∧ _))

theorem ringPushU64_refused {r : NotifyRing} (h : ¬r.head + 8 - r.tail ≤ r.capacity) (v : UInt64) :
    ringPushU64 r v = (false, r) := by
  unfold ringPushU64
  rw [if_pos (UInt64.not_le.mp h)]

theorem ringPushU64_accepted {r : NotifyRing} (h : r.head + 8 - r.tail ≤ r.capacity) (v : UInt64) :
    ringPushU64 r v =
      (true, { r with data := putBytes r.head r.capacity v 8 0 r.data, head := r.head + 8 }) := by
  unfold ringPushU64
  rw [if_neg (UInt64.not_lt.mpr h)]

theorem fst_ringPushU32 (r : NotifyRing) (v : UInt32) :
    (ringPushU32 r v).1 = decide (r.head + 4 - r.tail ≤ r.capacity) := by
  unfold ringPushU32
  by_cases h : r.head + 4 - r.tail ≤ r.capacity
  · rw [if_neg (UInt64.not_lt.mpr h), decide_eq_true h]
  · rw [if_pos (UInt64.not_le.mp h), decide_eq_false h]

/-- The words that a notification pushes. -/
def recordWords (r : NotifyRing) (buf : UInt64) (len : UInt32) : List Event :=
  if r.head + 8 - r.tail ≤ r.capacity then
    .push64 buf :: if r.head + 8 + 4 - r.tail ≤ r.capacity then [.push32 len] else []
  else []

theorem recordWords_of_room {r : NotifyRing} (h : r.Room) (buf : UInt64) (len : UInt32) :
    recordWords r buf len = [.push64 buf, .push32 len] := by
  unfold recordWords
  rw [if_pos h.1, if_pos h.2]

theorem room_of_recordWords {r : NotifyRing} {buf : UInt64} {len : UInt32}
    (h : recordWords r buf len = [.push64 buf, .push32 len]) : r.Room := by
  unfold recordWords at h
  split at h
  · next hfirst =>
    split at h
    · next hsecond => exact ⟨hfirst, hsecond⟩
    · simp at h
  · simp at h

theorem log_pushRecord (buf : UInt64) (len : UInt32) (s : Stack) :
    (pushRecord buf len).log s = recordWords s.ring buf len := by
  unfold recordWords
  have hpush : (pushU64 buf).log s = if (ringPushU64 s.ring buf).1 then [Event.push64 buf] else [] := rfl
  have hval : (pushU64 buf).val s = (ringPushU64 s.ring buf).1 := rfl
  have hnext : ((pushU64 buf).next s).ring = (ringPushU64 s.ring buf).2 := rfl
  unfold pushRecord
  rw [log_bind, hval, hpush]
  by_cases h : s.ring.head + 8 - s.ring.tail ≤ s.ring.capacity
  · have hsecond : (pushU32 len).log ((pushU64 buf).next s) =
        if (ringPushU32 ((pushU64 buf).next s).ring len).1 then [Event.push32 len] else [] := rfl
    rw [ringPushU64_accepted h] at hnext ⊢
    rw [if_pos rfl, if_pos rfl, if_pos h, log_bind, hsecond, fst_ringPushU32, hnext, log_pure,
      List.append_nil, List.singleton_append]
    simp only [decide_eq_true_eq]
  · rw [ringPushU64_refused h, if_neg Bool.false_ne_true, if_neg Bool.false_ne_true, if_neg h]
    rfl

theorem handovers_notifyRing3 (buf : UInt64) (len : UInt32) (msg : UInt64) (s : Stack) :
    handovers ((notifyRing3 buf len msg).log s) = recordWords s.ring buf len := by
  unfold notifyRing3
  rw [log_bind, log_bind, log_pushRecord, handovers_append, handovers_append]
  have hrecord : handovers (recordWords s.ring buf len) = recordWords s.ring buf len := by
    unfold recordWords
    split
    · split <;> rfl
    · rfl
  rw [hrecord]
  split <;> simp [handovers, isHandover]

theorem notifyRing3_full {s : Stack} (h : ¬s.ring.head + 8 - s.ring.tail ≤ s.ring.capacity)
    (buf : UInt64) (len : UInt32) (msg : UInt64) :
    ((notifyRing3 buf len msg).next s).ring = s.ring := by
  have hval : (pushU64 buf).val s = (ringPushU64 s.ring buf).1 := rfl
  have hnext : ((pushU64 buf).next s).ring = (ringPushU64 s.ring buf).2 := rfl
  have hrecord : ((pushRecord buf len).next s).ring = s.ring := by
    unfold pushRecord
    rw [next_bind, hval, ringPushU64_refused h, if_neg Bool.false_ne_true, next_pure, hnext,
      ringPushU64_refused h]
  unfold notifyRing3
  rw [next_bind, next_bind]
  split <;> exact hrecord

theorem rxNotifyPtr_notifyRing3 (buf : UInt64) (len : UInt32) (msg : UInt64) (s : Stack) :
    ((notifyRing3 buf len msg).next s).rxNotifyPtr = s.rxNotifyPtr := by
  have hrecord : ((pushRecord buf len).next s).rxNotifyPtr = s.rxNotifyPtr := by
    unfold pushRecord
    rw [next_bind]
    split <;> rfl
  unfold notifyRing3
  rw [next_bind, next_bind]
  split <;> exact hrecord

theorem handovers_passOn (buf : UInt64) (len : UInt32) (s : Stack) :
    handovers ((passOn buf len).log s) =
      if s.rxNotifyPtr = 0 then [.repost buf] else recordWords s.ring buf len := by
  unfold passOn
  rw [log_bind, handovers_append]
  by_cases h : s.rxNotifyPtr = 0
  · simp [h, handovers, isHandover]
  · simp [h, handovers_notifyRing3]

/-! ### Segments -/

/-- The segment at `buf`, as it is in memory. -/
def segment (s : Stack) (buf : Ptr) (len srcIp : UInt32) : Tcp.Packet :=
  { srcIp, buf := fun i => s.tcp.mem (buf.addr + i), len }

/-- A listening socket, a free slot, and a page each for the receive buffer and for the SYN-ACK. -/
def AcceptsSyn (t : Tcp.Net) (p : Tcp.Packet) : Prop :=
  Tcp.lookupListen t.pool p.dstPort ≠ noSlot ∧ Tcp.canAlloc t ∧ t.allocPage.2.allocPage.1 ≠ 0

/-- A connection in a state that takes the segment. -/
def AcceptsSegment (t : Tcp.Net) (p : Tcp.Packet) : Prop :=
  let slot := Tcp.lookup t.pool p.dstPort p.srcIp p.srcPort
  let state := (t.pool slot).state
  20 ≤ p.len ∧ slot ≠ noSlot ∧ (p.isSynAck ∧ state = 1 ∨ p.isAck ∧ (state = 3 ∨ state = 4) ∨ p.isFin)

/-- The kernel answers the segment, which is not forwarded to NetD. -/
def Taken (t : Tcp.Net) (p : Tcp.Packet) : Prop :=
  if p.isSyn then AcceptsSyn t p else AcceptsSegment t p

theorem Ptr.addr_add (p : Ptr) (i : UInt64) : (p.add i).addr = p.addr + i := by
  unfold Ptr.addr Ptr.add
  rw [UInt64.add_assoc]

theorem val_load16_segment (s : Stack) (buf : Ptr) (len srcIp : UInt32) (i : UInt64) :
    (load16 (buf.add i)).val s = (segment s buf len srcIp).word i := by
  unfold load16 segment Tcp.Packet.word
  simp only [val_bind, val_load, val_pure, next_load, Ptr.addr_add, UInt64.add_assoc]

theorem val_load16_first (s : Stack) (buf : Ptr) (len srcIp : UInt32) :
    (load16 buf).val s = (segment s buf len srcIp).word 0 := by
  rw [← val_load16_segment s buf len srcIp 0]
  unfold Ptr.add
  rw [UInt64.add_zero]

theorem ite_chain_eq_true (a b c d : Prop) [Decidable a] [Decidable b] [Decidable c] [Decidable d] :
    (if a then true else if b then true else if c then true else if d then true else false) = true ↔
      a ∨ b ∨ c ∨ d := by
  by_cases a <;> by_cases b <;> by_cases c <;> by_cases d <;> simp [*]

theorem val_tcpHandleIncoming (s : Stack) (buf : Ptr) (len srcIp : UInt32) :
    (tcpHandleIncoming buf len srcIp).val s = true ↔
      AcceptsSegment s.tcp (segment s buf len srcIp) := by
  have hlen : (segment s buf len srcIp).len = len := rfl
  have hip : (segment s buf len srcIp).srcIp = srcIp := rfl
  unfold tcpHandleIncoming AcceptsSegment
  by_cases hshort : len < 20
  · rw [if_pos hshort, val_pure, hlen]
    simp [UInt32.not_le.mpr hshort]
  · rw [if_neg hshort, val_bind, next_load16, val_load16_first s buf len srcIp, val_bind, next_load16,
      val_load16_segment s buf len srcIp, val_bind, next_load16, val_load16_segment s buf len srcIp,
      val_bind, val_get, next_get, hlen, hip]
    dsimp only
    generalize segment s buf len srcIp = p
    have hdst : p.word 2 = p.dstPort := rfl
    have hsrc : p.word 0 = p.srcPort := rfl
    have hsynAck : (p.word 12 &&& 0x01FF &&& 0x0012 == 0x0012) = p.isSynAck := rfl
    have hack : (p.word 12 &&& 0x01FF &&& 0x0010 != 0 && p.word 12 &&& 0x01FF &&& 0x0002 == 0) = p.isAck :=
      rfl
    have hfin : (p.word 12 &&& 0x01FF &&& 0x0001 != 0) = p.isFin := rfl
    rw [hdst, hsrc, hsynAck, hack, hfin]
    generalize Tcp.lookup s.tcp.pool p.dstPort srcIp p.srcPort = slot
    generalize (s.tcp.pool slot).state = state
    rw [val_ite, val_ite, val_ite, val_ite]
    simp only [val_bind, val_pure]
    rw [ite_chain_eq_true]
    simp only [Bool.and_eq_true, bne_iff_ne, ne_eq, beq_iff_eq, UInt32.not_lt.mp hshort, true_and]
    tauto

theorem mem_allocPage (t : Tcp.Net) : t.allocPage.2.mem = t.mem := by
  unfold Tcp.Net.allocPage
  split <;> rfl

theorem fst_allocPage_congr {t t' : Tcp.Net} (h : t.answers = t'.answers) :
    t.allocPage.1 = t'.allocPage.1 := by
  unfold Tcp.Net.allocPage
  rw [h]
  split <;> rfl

theorem mem_free (t : Tcp.Net) (slot : UInt64) : (Tcp.free t slot).mem = t.mem := by
  unfold Tcp.free
  split <;> rfl

theorem tcpAllocClient_spec (t : Tcp.Net) (pid : UInt64) (lp : UInt16) (ip : UInt32) (rp : UInt16) :
    ((Tcp.tcpAllocClient t pid lp ip rp).1 ≠ noSlot ↔ Tcp.canAlloc t) ∧
      (Tcp.tcpAllocClient t pid lp ip rp).2.mem = t.mem ∧
      (Tcp.canAlloc t →
        (Tcp.tcpAllocClient t pid lp ip rp).2.allocPage.1 = t.allocPage.2.allocPage.1) := by
  unfold Tcp.tcpAllocClient Tcp.canAlloc
  by_cases hslot : Tcp.closedSlot t.pool = noSlot
  · rw [Tcp.alloc_none hslot]
    simp [hslot]
  · rw [Tcp.alloc_some hslot]
    dsimp only
    rw [if_neg (mt beq_iff_eq.mp hslot), Tcp.allocPage_modify]
    by_cases hpage : t.allocPage.1 = 0
    · simp only [hpage, beq_self_eq_true, if_true]
      refine ⟨by simp, ?_, by simp⟩
      rw [mem_free]
      exact mem_allocPage t
    · simp only [beq_iff_eq, hpage, if_false]
      refine ⟨by simp [hslot, hpage], mem_allocPage t, fun _ => ?_⟩
      exact fst_allocPage_congr rfl

theorem val_serverSynAck (srcIp : UInt32) (srcPort dstPort : UInt16) (isn : UInt32) (listen child : UInt64)
    (s : Stack) :
    ((serverSynAck srcIp srcPort dstPort isn listen child).val s = true ↔ s.tcp.allocPage.1 ≠ 0) ∧
      ((serverSynAck srcIp srcPort dstPort isn listen child).val s = false →
        ((serverSynAck srcIp srcPort dstPort isn listen child).next s).tcp.mem = s.tcp.mem) := by
  have hpage : pmmAlloc.val ((modifyTcb child fun c =>
      { c with seqSnd := 0xFEEDC0DE + child.toUInt32, seqRcv := isn + 1 }).next s) = s.tcp.allocPage.1 :=
    congrArg Prod.fst (Tcp.allocPage_modify _ _ _)
  unfold serverSynAck
  dsimp only
  rw [val_bind, val_bind, next_bind, next_bind, hpage]
  by_cases hzero : s.tcp.allocPage.1 = 0
  · rw [if_pos (beq_iff_eq.mpr hzero)]
    refine ⟨by simp [hzero], fun _ => ?_⟩
    change (Tcp.free (Tcp.Net.allocPage _).2 child).mem = _
    rw [mem_free, mem_allocPage]
    rfl
  · rw [if_neg (mt beq_iff_eq.mp hzero)]
    simp [hzero]

theorem val_handleServerSyn {s : Stack} (buf : Ptr) {len : UInt32} (srcIp : UInt32) (hlen : 20 ≤ len) :
    ((handleServerSyn buf len srcIp).val s = true ↔ AcceptsSyn s.tcp (segment s buf len srcIp)) ∧
      ((handleServerSyn buf len srcIp).val s = false →
        ((handleServerSyn buf len srcIp).next s).tcp.mem = s.tcp.mem) := by
  unfold handleServerSyn AcceptsSyn
  rw [if_neg (UInt32.not_lt.mpr hlen), val_bind, next_bind, next_load16, val_load16_first s buf len srcIp,
    val_bind, next_bind, next_load16, val_load16_segment s buf len srcIp, val_bind, next_bind, val_get,
    next_get]
  dsimp only
  generalize hp : segment s buf len srcIp = p
  have hdst : p.word 2 = p.dstPort := rfl
  have hsrc : p.word 0 = p.srcPort := rfl
  rw [hdst, hsrc]
  by_cases hlisten : Tcp.lookupListen s.tcp.pool p.dstPort = noSlot
  · rw [if_pos (beq_iff_eq.mpr hlisten)]
    simp [hlisten]
  · rw [if_neg (mt beq_iff_eq.mp hlisten), val_bind, next_bind, next_load32, val_bind, next_bind]
    obtain ⟨hsome, hmem, hnext⟩ := tcpAllocClient_spec s.tcp 0 p.dstPort srcIp p.srcPort
    have hcall : (tcpCall fun t => Tcp.tcpAllocClient t 0 p.dstPort srcIp p.srcPort).val s =
        (Tcp.tcpAllocClient s.tcp 0 p.dstPort srcIp p.srcPort).1 := rfl
    have hafter : ((tcpCall fun t => Tcp.tcpAllocClient t 0 p.dstPort srcIp p.srcPort).next s).tcp =
        (Tcp.tcpAllocClient s.tcp 0 p.dstPort srcIp p.srcPort).2 := rfl
    rw [hcall]
    generalize (tcpCall fun t => Tcp.tcpAllocClient t 0 p.dstPort srcIp p.srcPort).next s = t at *
    by_cases hchild : (Tcp.tcpAllocClient s.tcp 0 p.dstPort srcIp p.srcPort).1 = noSlot
    · rw [if_pos (beq_iff_eq.mpr hchild)]
      have hno : ¬Tcp.canAlloc s.tcp = true := fun h => hsome.mpr h hchild
      simp only [val_pure, next_pure, hno, hafter, hmem]
      simp
    · have hok := hsome.mp hchild
      rw [if_neg (mt beq_iff_eq.mp hchild)]
      obtain ⟨hval, hkeep⟩ := val_serverSynAck srcIp p.srcPort p.dstPort
        ((load32 (buf.add 4)).val s) (Tcp.lookupListen s.tcp.pool p.dstPort)
        (Tcp.tcpAllocClient s.tcp 0 p.dstPort srcIp p.srcPort).1 t
      rw [hval, hafter, hnext hok]
      refine ⟨by simp [hlisten, hok], fun hfalse => ?_⟩
      rw [hkeep hfalse, hafter, hmem]

theorem isSyn_iff {p : Tcp.Packet} (hlen : 20 ≤ p.len) :
    p.isSyn = (p.word 12 &&& 0x01FF == 0x0002) := by
  unfold Tcp.Packet.isSyn Tcp.Packet.flags
  simp [hlen]

theorem not_acceptsSegment_of_isSyn {t : Tcp.Net} {p : Tcp.Packet} (h : p.isSyn) :
    ¬AcceptsSegment t p := by
  have hflags : p.flags = 0x0002 := by
    unfold Tcp.Packet.isSyn at h
    simp only [Bool.and_eq_true, beq_iff_eq] at h
    exact h.2
  have hsynAck : p.isSynAck = false := by
    unfold Tcp.Packet.isSynAck
    rw [hflags]
    decide
  have hack : p.isAck = false := by
    unfold Tcp.Packet.isAck
    rw [hflags]
    decide
  have hfin : p.isFin = false := by
    unfold Tcp.Packet.isFin
    rw [hflags]
    decide
  rintro ⟨-, -, hcases⟩
  simp [hsynAck, hack, hfin] at hcases

theorem segment_congr {s t : Stack} (h : t.tcp.mem = s.tcp.mem) (buf : Ptr) (len srcIp : UInt32) :
    segment t buf len srcIp = segment s buf len srcIp := by
  unfold segment
  rw [h]

theorem taken_iff (buf : Ptr) (len srcIp : UInt32) (s : Stack) :
    Taken s.tcp (segment s buf len srcIp) ↔
      (synFirst buf len srcIp).val s = true ∨
        (tcpHandleIncoming buf len srcIp).val ((synFirst buf len srcIp).next s) = true := by
  have hlen' : (segment s buf len srcIp).len = len := rfl
  unfold synFirst Taken
  by_cases hlen : 20 ≤ len
  · rw [if_pos hlen, val_bind, next_bind, next_load16, val_load16_segment s buf len srcIp,
      ← isSyn_iff (hlen'.symm ▸ hlen)]
    by_cases hsyn : (segment s buf len srcIp).isSyn = true
    · rw [if_pos hsyn, if_pos hsyn]
      obtain ⟨hval, hkeep⟩ := val_handleServerSyn (s := s) buf srcIp hlen
      rw [← hval]
      refine ⟨.inl, fun h => h.elim id fun htaken => ?_⟩
      -- a refused SYN is still a SYN when the other handler reads it
      by_contra hrefused
      have hmem := hkeep (Bool.eq_false_iff.mpr hrefused)
      rw [val_tcpHandleIncoming, segment_congr hmem] at htaken
      exact not_acceptsSegment_of_isSyn hsyn htaken
    · rw [if_neg hsyn, if_neg hsyn, val_pure, next_pure, val_tcpHandleIncoming]
      simp
  · have hsyn : ¬(segment s buf len srcIp).isSyn = true := by
      unfold Tcp.Packet.isSyn
      simp [hlen', hlen]
    rw [if_neg hlen, if_neg hsyn, val_pure, next_pure, val_tcpHandleIncoming]
    simp

theorem handleTcpNotify_of_taken {buf : Ptr} {len srcIp : UInt32} {s : Stack}
    (h : Taken s.tcp (segment s buf len srcIp)) :
    handovers ((handleTcpNotify buf len srcIp).log s) = [] ∧
      ((handleTcpNotify buf len srcIp).next s).ring = s.ring ∧
      ((handleTcpNotify buf len srcIp).next s).rxNotifyPtr = s.rxNotifyPtr := by
  have hsyn := ring_of_silent (silent_synFirst buf len srcIp) s
  have hlog := handovers_of_silent (silent_synFirst buf len srcIp) s
  unfold handleTcpNotify
  rw [log_bind, next_bind, handovers_append, hlog, List.nil_append]
  rcases (taken_iff buf len srcIp s).mp h with hval | hval
  · rw [if_pos hval]
    exact ⟨rfl, hsyn⟩
  · by_cases hfirst : (synFirst buf len srcIp).val s = true
    · rw [if_pos hfirst]
      exact ⟨rfl, hsyn⟩
    · have hin := ring_of_silent (silent_tcpHandleIncoming buf len srcIp) ((synFirst buf len srcIp).next s)
      rw [if_neg hfirst, log_bind, next_bind, if_pos hval, handovers_append,
        handovers_of_silent (silent_tcpHandleIncoming buf len srcIp)]
      exact ⟨rfl, hin.1.trans hsyn.1, hin.2.trans hsyn.2⟩

theorem handleTcpNotify_of_not_taken {buf : Ptr} {len srcIp : UInt32} {s : Stack}
    (h : ¬Taken s.tcp (segment s buf len srcIp)) : ∃ t : Stack, t.ring = s.ring ∧
      t.rxNotifyPtr = s.rxNotifyPtr ∧
      (handleTcpNotify buf len srcIp).next s =
        (if t.rxNotifyPtr != 0 then (notifyRing3 buf.addr len srcIp.toUInt64).next t else t) ∧
      handovers ((handleTcpNotify buf len srcIp).log s) =
        if t.rxNotifyPtr != 0 then recordWords t.ring buf.addr len else [] := by
  have hsyn := ring_of_silent (silent_synFirst buf len srcIp) s
  have hin := ring_of_silent (silent_tcpHandleIncoming buf len srcIp) ((synFirst buf len srcIp).next s)
  rw [taken_iff, not_or] at h
  refine ⟨(tcpHandleIncoming buf len srcIp).next ((synFirst buf len srcIp).next s),
    hin.1.trans hsyn.1, hin.2.trans hsyn.2, ?_, ?_⟩
  · unfold handleTcpNotify
    rw [next_bind, if_neg h.1, next_bind, if_neg h.2, next_bind, next_get, val_get, next_ite, next_pure]
  · unfold handleTcpNotify
    rw [log_bind, if_neg h.1, log_bind, if_neg h.2, log_bind, next_get, val_get, log_get, log_ite, log_pure,
      handovers_append, handovers_append, handovers_of_silent (silent_synFirst buf len srcIp),
      handovers_of_silent (silent_tcpHandleIncoming buf len srcIp), List.nil_append, List.nil_append,
      List.nil_append]
    split
    · exact handovers_notifyRing3 _ _ _ _
    · rfl

/-! ### The dispatcher -/

/-- The packet is a TCP segment that `handle_tcp_notify` forwards. -/
def IsForwarded (s : Stack) (buf : Ptr) (len : UInt32) : Prop :=
  let ip := (ipParse buf len).val s
  let payload := payloadOf buf len ip
  ip.ForUs ∧ ip.protocol = 6 ∧ ¬Taken s.tcp (segment s payload.1 payload.2 ip.srcIp)

theorem handleIpv4_of_isForwarded {s : Stack} {buf : Ptr} {len : UInt32} (h : IsForwarded s buf len)
    (mac : Mac) : ∃ t : Stack, t.ring = s.ring ∧ t.rxNotifyPtr = s.rxNotifyPtr ∧
      let ip := (ipParse buf len).val s
      let payload := payloadOf buf len ip
      (handleIpv4 buf len mac).next s = (if t.rxNotifyPtr != 0 then
          (notifyRing3 payload.1.addr payload.2 ip.srcIp.toUInt64).next t else t) ∧
        handovers ((handleIpv4 buf len mac).log s) =
          if t.rxNotifyPtr != 0 then recordWords t.ring payload.1.addr payload.2 else [] := by
  obtain ⟨hfor, hproto, htaken⟩ := h
  obtain ⟨hnext, hlog⟩ := handleIpv4_eq buf len mac s
  obtain ⟨t, hring, hptr, htcp, hwords⟩ := handleTcpNotify_of_not_taken htaken
  refine ⟨t, hring, hptr, ?_, ?_⟩
  · rw [hnext, if_pos hfor, hproto]
    exact htcp
  · have hevent : handovers [.ipv4 buf (s.bytes buf.addr len)] = [] := rfl
    rw [hlog, ← List.singleton_append, handovers_append, handovers_append, hevent,
      handovers_of_silent (silent_ipParse buf len), if_pos hfor, hproto]
    exact hwords

theorem handleIpv4_of_not_isForwarded {s : Stack} {buf : Ptr} {len : UInt32}
    (h : ¬IsForwarded s buf len) (mac : Mac) :
    handovers ((handleIpv4 buf len mac).log s) = [] ∧
      ((handleIpv4 buf len mac).next s).ring = s.ring ∧
      ((handleIpv4 buf len mac).next s).rxNotifyPtr = s.rxNotifyPtr := by
  obtain ⟨hnext, hlog⟩ := handleIpv4_eq buf len mac s
  have hevent : handovers [.ipv4 buf (s.bytes buf.addr len)] = [] := rfl
  rw [hnext, hlog, ← List.singleton_append, handovers_append, handovers_append, hevent,
    handovers_of_silent (silent_ipParse buf len), List.nil_append, List.nil_append]
  unfold IsForwarded at h
  dsimp only at h
  generalize (ipParse buf len).val s = ip at h ⊢
  by_cases hfor : ip.ForUs
  · rw [if_pos hfor]
    split
    · exact ⟨handovers_of_silent (silent_handleUdp _ _ _ _) s, ring_of_silent (silent_handleUdp _ _ _ _) s⟩
    · split
      · next htcp =>
        exact handleTcpNotify_of_taken (not_not.mp fun ht => h ⟨hfor, beq_iff_eq.mp htcp, ht⟩)
      · split
        · exact ⟨handovers_of_silent (silent_handleIcmpPacket _ _ _ _) s,
            ring_of_silent (silent_handleIcmpPacket _ _ _ _) s⟩
        · exact ⟨rfl, rfl, rfl⟩
  · rw [if_neg hfor]
    exact ⟨rfl, rfl, rfl⟩

/-- The frame holds a TCP segment that is forwarded. -/
def Forwards (s : Stack) (frame : Ptr × UInt32) : Prop :=
  IsIpv4 s frame ∧ IsForwarded s (frame.1.add 14) (frame.2 - 14)

theorem dispatch_of_forwards {s : Stack} {frame : Ptr × UInt32} (h : Forwards s frame) :
    (dispatch frame.1 frame.2 ((ethParse frame.1 frame.2).val s)).next s =
        (handleIpv4 (frame.1.add 14) (frame.2 - 14) ((ethParse frame.1 frame.2).val s).src).next s ∧
      (dispatch frame.1 frame.2 ((ethParse frame.1 frame.2).val s)).log s =
        (handleIpv4 (frame.1.add 14) (frame.2 - 14) ((ethParse frame.1 frame.2).val s).src).log s := by
  obtain ⟨⟨-, htype, hlen⟩, -⟩ := h
  have harp : ¬(((ethParse frame.1 frame.2).val s).ethertype == 0x0806) = true := by
    rw [htype]
    decide
  have hip : (((ethParse frame.1 frame.2).val s).ethertype == 0x0800) = true := beq_iff_eq.mpr htype
  unfold dispatch
  rw [next_bind, log_bind, next_get, val_get, if_neg harp, if_pos hip, if_pos hlen]
  exact ⟨rfl, rfl⟩

theorem dispatch_of_not_forwards {s : Stack} {frame : Ptr × UInt32} (h : ¬Forwards s frame)
    (hfor : macMatches ((ethParse frame.1 frame.2).val s).dst s.ourMac ∨
      isBroadcast ((ethParse frame.1 frame.2).val s).dst) :
    handovers ((dispatch frame.1 frame.2 ((ethParse frame.1 frame.2).val s)).log s) = [] ∧
      ((dispatch frame.1 frame.2 ((ethParse frame.1 frame.2).val s)).next s).ring = s.ring ∧
      ((dispatch frame.1 frame.2 ((ethParse frame.1 frame.2).val s)).next s).rxNotifyPtr =
        s.rxNotifyPtr := by
  unfold dispatch
  rw [next_bind, log_bind, next_get, val_get, handovers_append]
  split
  · exact ⟨handovers_of_silent (silent_arpHandle _ _ _ _) s, ring_of_silent (silent_arpHandle _ _ _ _) s⟩
  · split
    · next hip =>
      split
      · next hlen =>
        apply handleIpv4_of_not_isForwarded
        intro hforwarded
        exact h ⟨⟨hfor, beq_iff_eq.mp hip, hlen⟩, hforwarded⟩
      · exact ⟨rfl, rfl, rfl⟩
    · exact ⟨rfl, rfl, rfl⟩

/-- The condition under which `process_one` hands a buffer over once. -/
def HandsOver (s : Stack) (buf : UInt64) (len : UInt32) : Prop :=
  let frame := frameOf s.usingRtl8125 buf len
  s.rxNotifyPtr = 0 ∨ frame.2 < 14 ∨ s.ring.Room ∧ ¬Forwards s frame

theorem addr_payload_ne (rtl : Bool) (buf : UInt64) (len len' : UInt32) (ip : IPv4Header) :
    (payloadOf ((frameOf rtl buf len).1.add 14) len' ip).1.addr ≠ buf := by
  have hsmall : ∀ off : UInt64, off.toNat ≤ 10 → buf + (off + 14 + ip.ihl.toUInt32.toUInt64) ≠ buf := by
    intro off hoff heq
    have hzero : off + 14 + ip.ihl.toUInt32.toUInt64 = 0 :=
      UInt64.add_right_inj buf |>.mp (heq.trans (UInt64.add_zero buf).symm)
    have hnat := congrArg UInt64.toNat hzero
    have hihl := ip.ihl.toNat_lt
    rw [UInt64.toNat_add, UInt64.toNat_add, UInt32.toNat_toUInt64, UInt8.toNat_toUInt32] at hnat
    change ((off.toNat + 14) % 2 ^ 64 + ip.ihl.toNat) % 2 ^ 64 = 0 at hnat
    omega
  cases rtl
  · exact hsmall 10 (by decide)
  · exact hsmall 0 (by decide)

theorem conserved_repost (buf : UInt64) (len : UInt32) {es : List Event} (h : handovers es = [.repost buf]) :
    Conserved buf len es :=
  .inl h

theorem conserved_recordWords_iff {buf : UInt64} {len : UInt32} {r : NotifyRing} {es : List Event}
    (h : handovers es = recordWords r buf len) : Conserved buf len es ↔ r.Room := by
  unfold Conserved
  rw [h]
  refine ⟨?_, fun hroom => .inr (recordWords_of_room hroom buf len)⟩
  rintro (hrepost | hrecord)
  · unfold recordWords at hrepost
    split at hrepost
    · simp at hrepost
    · simp at hrepost
  · exact room_of_recordWords hrecord

theorem not_conserved_of_forwarded {buf buf' : UInt64} {len len' : UInt32} {r r' : NotifyRing}
    {es : List Event} (hne : buf' ≠ buf)
    (hfull : ¬r.head + 8 - r.tail ≤ r.capacity → r' = r)
    (h : handovers es = recordWords r buf' len' ++ recordWords r' buf len) : ¬Conserved buf len es := by
  unfold Conserved
  rw [h]
  unfold recordWords
  by_cases hroom : r.head + 8 - r.tail ≤ r.capacity
  · rw [if_pos hroom]
    simp [hne]
  · rw [hfull hroom, if_neg hroom, if_neg hroom]
    simp

theorem conserved_processPacket (s : Stack) (buf : UInt64) (len : UInt32) :
    Conserved buf len ((processPacket buf len).log s) ↔ HandsOver s buf len := by
  unfold processPacket HandsOver
  rw [log_bind, next_get, val_get, log_get, List.nil_append]
  generalize hframe : frameOf s.usingRtl8125 buf len = frame
  dsimp only
  by_cases hshort : frame.2 < 14
  · rw [if_pos hshort]
    simp only [hshort, true_or, or_true, iff_true]
    exact conserved_repost buf len rfl
  · rw [if_neg hshort, log_bind, next_ethParse]
    have hparse := handovers_of_silent (silent_ethParse frame.1 frame.2) s
    by_cases hdrop : (!macMatches ((ethParse frame.1 frame.2).val s).dst s.ourMac &&
        !isBroadcast ((ethParse frame.1 frame.2).val s).dst) = true
    · -- a frame for another machine is passed on as it is
      have hnot : ¬Forwards s frame := by
        rintro ⟨⟨hmac, -⟩, -⟩
        rcases hmac with hmac | hmac <;> simp [hmac] at hdrop
      have hpass : handovers ((ethParse frame.1 frame.2).log s ++ (passOn buf len).log s) =
          if s.rxNotifyPtr = 0 then [.repost buf] else recordWords s.ring buf len := by
        rw [handovers_append, hparse, List.nil_append, handovers_passOn]
      rw [if_pos hdrop]
      by_cases hptr : s.rxNotifyPtr = 0
      · rw [if_pos hptr] at hpass
        simp only [hptr, true_or, iff_true]
        exact conserved_repost buf len hpass
      · rw [if_neg hptr] at hpass
        rw [conserved_recordWords_iff hpass]
        simp [hptr, hshort, hnot]
    · have hmac : macMatches ((ethParse frame.1 frame.2).val s).dst s.ourMac ∨
          isBroadcast ((ethParse frame.1 frame.2).val s).dst := by
        by_contra hno
        rw [not_or] at hno
        simp [hno.1, hno.2] at hdrop
      rw [if_neg hdrop, log_bind]
      by_cases hforwards : Forwards s frame
      · -- the segment is forwarded before its packet is passed on
        obtain ⟨hnext, hlog⟩ := dispatch_of_forwards hforwards
        obtain ⟨t, hring, hptr, hafter, hwords⟩ :=
          handleIpv4_of_isForwarded hforwards.2 ((ethParse frame.1 frame.2).val s).src
        rw [← hlog] at hwords
        rw [← hnext] at hafter
        by_cases hzero : s.rxNotifyPtr = 0
        · rw [hptr, hzero] at hafter hwords
          simp only [hzero, true_or, iff_true]
          apply conserved_repost
          have hzero' : t.rxNotifyPtr = 0 := hptr.trans hzero
          rw [handovers_append, handovers_append, hparse, hwords, hafter, handovers_passOn]
          simp [hzero']
        · have hnonzero : (t.rxNotifyPtr != 0) = true := bne_iff_ne.mpr (hptr ▸ hzero)
          rw [if_pos hnonzero] at hafter hwords
          simp only [hzero, hshort, hforwards, not_true_eq_false, and_false, or_false, iff_false]
          apply not_conserved_of_forwarded (addr_payload_ne s.usingRtl8125 buf len (frame.2 - 14)
            ((ipParse (frame.1.add 14) (frame.2 - 14)).val s))
          rotate_left
          · rw [handovers_append, handovers_append, hparse, hwords, hafter, handovers_passOn,
              rxNotifyPtr_notifyRing3, if_neg (hptr ▸ hzero), List.nil_append, hframe]
          · intro hfull
            exact notifyRing3_full hfull _ _ _
      · obtain ⟨hlog, hring, hptr⟩ := dispatch_of_not_forwards hforwards hmac
        have hpass : handovers ((ethParse frame.1 frame.2).log s ++
            ((dispatch frame.1 frame.2 ((ethParse frame.1 frame.2).val s)).log s ++
              (passOn buf len).log ((dispatch frame.1 frame.2 ((ethParse frame.1 frame.2).val s)).next s))) =
            if s.rxNotifyPtr = 0 then [.repost buf] else recordWords s.ring buf len := by
          rw [handovers_append, handovers_append, hparse, hlog, handovers_passOn, hring, hptr]
          rfl
        by_cases hzero : s.rxNotifyPtr = 0
        · rw [if_pos hzero] at hpass
          simp only [hzero, true_or, iff_true]
          exact conserved_repost buf len hpass
        · rw [if_neg hzero] at hpass
          rw [conserved_recordWords_iff hpass]
          simp [hzero, hshort, hforwards]

theorem handsOver_rx (s : Stack) (rest : List (UInt64 × UInt32)) (buf : UInt64) (len : UInt32) :
    HandsOver { s with rx := rest } buf len ↔ HandsOver s buf len := by
  have heth : ∀ p n, (ethParse p n).val { s with rx := rest } = (ethParse p n).val s :=
    fun p n => (Parses.ethParse p n).val rfl
  have hip : ∀ p n, (ipParse p n).val { s with rx := rest } = (ipParse p n).val s :=
    fun p n => (Parses.ipParse p n).val rfl
  unfold HandsOver Forwards IsIpv4 IsForwarded
  dsimp only
  rw [heth, hip]
  rfl

/-- **A received buffer is in exactly one place** if and only if Ring 3 is not notified, the frame is too
short, or there is room for the record and the packet is not a forwarded segment. -/
theorem conserved_iff {s : Stack} {buf : UInt64} {len : UInt32} {rest : List (UInt64 × UInt32)}
    (hslot : s.loopbackBuf = 0) (hrx : s.rx = (buf, len) :: rest) :
    Conserved buf len (processOne.log s) ↔ HandsOver s buf len := by
  rw [log_processOne hslot hrx, conserved_processPacket, handsOver_rx]

/-- One received packet, and the `head` of the notification ring. -/
def oneFrame (head : UInt64) : Stack :=
  { Stack.quiet with
    ring := { Stack.quiet.ring with head }
    rx := [(0xFFFFFFFF80420000, 70)] }

/-- A frame for another machine, with an empty ring. -/
theorem conserved_iff_emptyRing : Conserved 0xFFFFFFFF80420000 70 (processOne.log (oneFrame 0)) :=
  (conserved_iff rfl rfl).mpr
    (.inr (.inr ⟨by decide, fun h => absurd h.1 (by decide)⟩))

/-- With 325 records in the ring, the buffer is neither reposted nor recorded. -/
theorem not_conserved_of_fullRing :
    ¬∀ (s : Stack) (buf : UInt64) (len : UInt32) (rest : List (UInt64 × UInt32)), s.loopbackBuf = 0 →
      s.rx = (buf, len) :: rest → Conserved buf len (processOne.log s) := by
  intro h
  exact absurd (h (oneFrame 3900) 0xFFFFFFFF80420000 70 [] rfl rfl) (by decide)

end Keuos.Net
