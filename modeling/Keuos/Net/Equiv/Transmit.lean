import Keuos.Net.Virtio
import Keuos.Net.Equiv.Virtqueue
import Keuos.Lib.Run

/-!
# Frames in flight

A send takes the slots in turn and asks only whether a descriptor is free.  So the slot that it writes is
the one of the frame posted 64 frames before, and that frame may still be in flight: when the queue has more
than 64 entries, or when the device returns the descriptors out of order.

* `transmits_iff` – no slot in flight is written, and the device reads each frame as it was sent, in the runs
  in which no frame is in flight when 64 others have been posted after it.
* `roomFor_of_dvd` – the rings have room where the size of the queue is a power of two.
* `not_transmits_of_slowDevice` – the run that posts 65 frames to a device that takes none of them.
-/

namespace Keuos.Virtio

/-! ### Slots -/

theorem ofNat_mod_slots (n : Nat) : UInt64.ofNat n % 64 = UInt64.ofNat (n % 64) := by
  have h64 : (64 : UInt64).toNat = 64 := rfl
  rw [← UInt64.toNat_inj, UInt64.toNat_mod, UInt64.toNat_ofNat', UInt64.toNat_ofNat', h64]
  omega

theorem slot_mul_bufSize (n : Nat) :
    UInt64.ofNat n % 64 * bufSize.toUInt64 = UInt64.ofNat (n % 64 * 1524) := by
  rw [ofNat_mod_slots, UInt64.ofNat_mul]
  rfl

theorem slotOffset_le (n : Nat) : n % 64 * 1524 + 2 ^ 33 ≤ 2 ^ 64 := by
  have hn := Nat.mod_lt n (show 64 > 0 by decide)
  omega

theorem slotOffset_add_lt (n : Nat) {i : Nat} (hi : i ≤ 1524) : n % 64 * 1524 + i < 2 ^ 64 := by
  have hn := Nat.mod_lt n (show 64 > 0 by decide)
  omega

theorem slotOffset_inj {m n : Nat} (h : UInt64.ofNat (m % 64 * 1524) = UInt64.ofNat (n % 64 * 1524)) :
    m % 64 = n % 64 := by
  have hbound : ∀ k : Nat, k % 64 * 1524 < 2 ^ 64 := by
    intro k
    have hk := Nat.mod_lt k (show 64 > 0 by decide)
    omega
  have hnat := congrArg UInt64.toNat h
  rw [UInt64.toNat_ofNat_of_lt' (hbound m), UInt64.toNat_ofNat_of_lt' (hbound n)] at hnat
  exact Nat.eq_of_mul_eq_mul_right (by decide) hnat

theorem copyIn_offset (src : Nat → UInt8) (n : Nat) (a : UInt64) (m : Mem) {i : Nat} (hi : i < n)
    (hn : n < 2 ^ 64) : Mem.copyIn src n a m (a + UInt64.ofNat i) = src i := by
  have hsub : a + UInt64.ofNat i - a = UInt64.ofNat i := by grind
  unfold Mem.copyIn
  rw [if_pos (inBlock_add hi), hsub, UInt64.toNat_ofNat_of_lt' (by change i < 2 ^ 64; omega)]

theorem copyIn_of_not_mem {src : Nat → UInt8} {n : Nat} {a x : UInt64} {m : Mem} (h : ¬ InBlock a n x) :
    Mem.copyIn src n a m x = m x := by
  unfold Mem.copyIn
  exact if_neg h

section FillSlot

variable (base : UInt64) (pkt : Nat → UInt8) (pktLen : UInt32) (m : Mem) (off : Nat)

theorem add_hdrSize : base + UInt64.ofNat off + virtioNetHdrSize.toUInt64 =
    base + UInt64.ofNat (off + 10) := by
  rw [UInt64.ofNat_add, ← UInt64.add_assoc]
  rfl

theorem fillSlot_header {i : Nat} (hoff : off + 2 ^ 33 ≤ 2 ^ 64) (hi : i < 10) :
    fillSlot (base + UInt64.ofNat off) pkt pktLen m (base + UInt64.ofNat off + UInt64.ofNat i) = 0 := by
  have hlen := pktLen.toNat_lt
  unfold fillSlot
  rw [copyIn_of_not_mem]
  · rw [Mem.fill_apply 0 (by decide)]
    exact if_pos (inBlock_add hi)
  · rw [add_hdrSize, inBlock_offset_iff (by omega), UInt64.add_assoc, ← UInt64.ofNat_add]
    have hsub : base + UInt64.ofNat (off + i) - base = UInt64.ofNat (off + i) := by grind
    rw [hsub, UInt64.toNat_ofNat_of_lt' (by change off + i < 2 ^ 64; omega)]
    omega

theorem fillSlot_frame {i : Nat} (hi : i < pktLen.toNat) :
    fillSlot (base + UInt64.ofNat off) pkt pktLen m (base + UInt64.ofNat off + UInt64.ofNat (10 + i)) =
      pkt i := by
  have hlen := pktLen.toNat_lt
  have haddr : base + UInt64.ofNat off + UInt64.ofNat (10 + i) =
      base + UInt64.ofNat off + virtioNetHdrSize.toUInt64 + UInt64.ofNat i := by
    rw [UInt64.ofNat_add, ← UInt64.add_assoc]
    rfl
  unfold fillSlot
  rw [haddr]
  exact copyIn_offset _ _ _ _ hi (by omega)

theorem fillSlot_of_other {j : Nat} (hfits : pktLen.toNat ≤ 1514) (hoff : off + 1524 ≤ 2 ^ 64)
    (hj : j < 2 ^ 64) (hother : j < off ∨ off + 1524 ≤ j) :
    fillSlot (base + UInt64.ofNat off) pkt pktLen m (base + UInt64.ofNat j) = m (base + UInt64.ofNat j) := by
  have hsub : base + UInt64.ofNat j - base = UInt64.ofNat j := by grind
  have hnat : (base + UInt64.ofNat j - base).toNat = j := by
    rw [hsub, UInt64.toNat_ofNat_of_lt' hj]
  have hhdr : virtioNetHdrSize.toNat = 10 := rfl
  unfold fillSlot
  rw [copyIn_of_not_mem, Mem.fill_apply 0 (by decide), if_neg]
  · rw [inBlock_offset_iff (by omega), hnat]
    omega
  · rw [add_hdrSize, inBlock_offset_iff (by omega), hnat]
    omega

end FillSlot

/-! ### Reclaiming -/

theorem QueueInv.reclaimFrom {n : Nat} {q : Virtq} {lastAvail : UInt16}
    {inflight free avail used : List UInt16} (h : QueueInv q lastAvail inflight free avail used)
    (hn : used.length ≤ n) :
    ∃ free', QueueInv (txReclaimFrom n q) lastAvail inflight free' avail [] ∧
      (txReclaimFrom n q).vq.size = q.vq.size ∧
      ∀ i, ((txReclaimFrom n q).mem.desc i).addr = (q.mem.desc i).addr ∧
        ((txReclaimFrom n q).mem.desc i).len = (q.mem.desc i).len := by
  induction n generalizing q free used with
  | zero =>
    obtain rfl : used = [] := List.length_eq_zero_iff.mp (by omega)
    exact ⟨free, h, rfl, fun i => ⟨rfl, rfl⟩⟩
  | succ n ih =>
    unfold txReclaimFrom
    cases used with
    | nil =>
      rw [h.poll_nil]
      exact ⟨free, h, rfl, fun i => ⟨rfl, rfl⟩⟩
    | cons d used =>
      obtain ⟨⟨len, hpoll⟩, hinv⟩ := h.poll
      rw [hpoll]
      rw [List.length_cons] at hn
      obtain ⟨free', hinv', hsize, hdesc⟩ := ih hinv (by omega)
      refine ⟨free', hinv', hsize, ?_⟩
      intro i
      obtain ⟨haddr, hlen⟩ := hdesc i
      exact ⟨haddr.trans (addr_freed q d i), hlen.trans (len_freed q d i)⟩

theorem QueueInv.reclaim {q : Virtq} {lastAvail : UInt16} {inflight free avail used : List UInt16}
    (h : QueueInv q lastAvail inflight free avail used) :
    ∃ free', QueueInv (txReclaimUsed q) lastAvail inflight free' avail [] ∧
      (txReclaimUsed q).vq.size = q.vq.size ∧
      ∀ i, ((txReclaimUsed q).mem.desc i).addr = (q.mem.desc i).addr ∧
        ((txReclaimUsed q).mem.desc i).len = (q.mem.desc i).len := by
  have hlen := h.length_eq
  have hsize := h.size
  unfold txReclaimUsed
  apply h.reclaimFrom
  omega

/-! ### The queue part of the state -/

/-- A send of a frame of this length posts it: the frame fits in a slot, and a descriptor is free. -/
def Tx.Sends (s : Tx) (pktLen : UInt32) : Prop :=
  ¬ pktLen > bufSize - virtioNetHdrSize ∧ (txReclaimUsed s.q).vq.numFree ≠ 0

instance (s : Tx) (pktLen : UInt32) : Decidable (s.Sends pktLen) :=
  inferInstanceAs (Decidable (_ ∧ _))

/-- The ring that the event writes has room: the entry that is overwritten has been read by the other
side. -/
def RoomFor (s : Tx) : TxEvent → Prop
  | .send _ pktLen => s.Sends pktLen → Room s.q.vq.size s.lastAvail (s.q.mem.availIdx - s.lastAvail).toNat
  | .complete id _ =>
    id ∈ s.inflight → Room s.q.vq.size s.q.vq.lastUsedIdx (s.q.mem.usedIdx - s.q.vq.lastUsedIdx).toNat
  | .poll => True
  | .fetch => True

/-- The queue after a send that posts. -/
def Tx.sentTo (s : Tx) (d : UInt16) (pkt : Nat → UInt8) (pktLen : UInt32) : Tx :=
  { s with
    q := (txReclaimUsed s.q).added d (txBufPhys + s.slot * bufSize.toUInt64) (virtioNetHdrSize + pktLen) false
    mem := fillSlot (txBufVirt + s.slot * bufSize.toUInt64) pkt pktLen s.mem
    txCount := s.txCount + 1
    sent := s.sent + 1
    posts := Function.update s.posts d ⟨s.sent, pkt, pktLen⟩ }

section QueuePart

variable {s : Tx} {free avail used : List UInt16}

theorem available_eq (h : QueueInv s.q s.lastAvail s.inflight free avail used) : s.available = avail := by
  have hlen := h.length_eq
  have hsize := h.size
  have hdist : (s.q.mem.availIdx - s.lastAvail).toNat = avail.length := by
    rw [h.availIdx]
    exact Queue.Inv.toNat_distance _ (by omega)
  unfold Tx.available
  rw [hdist, h.availRing]

theorem netTxSend_of_not_sends (pkt : Nat → UInt8) {pktLen : UInt32} (hno : ¬ s.Sends pktLen) :
    (netTxSend s pkt pktLen).2 = s ∨ (netTxSend s pkt pktLen).2 = { s with q := txReclaimUsed s.q } := by
  unfold netTxSend
  by_cases hlong : pktLen > bufSize - virtioNetHdrSize
  · rw [if_pos hlong]
    exact Or.inl rfl
  · rw [if_neg hlong]
    have hfull : (txReclaimUsed s.q).vq.numFree = 0 := by
      by_contra hne
      exact hno ⟨hlong, hne⟩
    dsimp only
    rw [if_pos (beq_iff_eq.mpr hfull)]
    exact Or.inr rfl

theorem netTxSend_of_sends (h : QueueInv s.q s.lastAvail s.inflight free avail used) (pkt : Nat → UInt8)
    {pktLen : UInt32} (hsends : s.Sends pktLen)
    (hroom : Room s.q.vq.size s.lastAvail (s.q.mem.availIdx - s.lastAvail).toNat) :
    ∃ d free', (netTxSend s pkt pktLen).2 = s.sentTo d pkt pktLen ∧ d ∉ avail ++ s.inflight ∧
      QueueInv (s.sentTo d pkt pktLen).q s.lastAvail s.inflight free' (avail ++ [d]) [] ∧
      (s.sentTo d pkt pktLen).q.vq.size = s.q.vq.size := by
  have hlen := h.length_eq
  have hsmall := h.size
  have hdist : (s.q.mem.availIdx - s.lastAvail).toNat = avail.length := by
    rw [h.availIdx]
    exact Queue.Inv.toNat_distance _ (by omega)
  obtain ⟨free₁, h₁, hsize, -⟩ := h.reclaim
  cases free₁ with
  | nil => exact absurd (UInt16.toNat_inj.mp h₁.numFree) hsends.2
  | cons d free' =>
    rw [hdist, ← hsize] at hroom
    obtain ⟨hadd, h₂⟩ := h₁.add hroom (txBufPhys + s.slot * bufSize.toUInt64)
        (virtioNetHdrSize + pktLen) false
    refine ⟨d, free', ?_, ?_, h₂, hsize⟩
    · unfold netTxSend
      rw [if_neg hsends.1]
      dsimp only
      rw [if_neg (by simpa using hsends.2), hadd]
      rfl
    · intro hmem
      have hnodup := h₁.nodup
      rw [List.append_nil, List.cons_append] at hnodup
      exact (List.nodup_cons.mp hnodup).1 (List.mem_append_right _ hmem)

end QueuePart

/-! ### What the descriptors in flight carry -/

/-- The descriptor refers to the slot of the frame that it was posted with, in which the frame lies. -/
structure Tx.Carries (s : Tx) (d : UInt16) : Prop where
  older : (s.posts d).index < s.sent
  recent : s.sent ≤ (s.posts d).index + 64
  addr : (s.q.mem.desc d.toUInt32).addr = txBufPhys + UInt64.ofNat ((s.posts d).index % 64 * 1524)
  len : (s.q.mem.desc d.toUInt32).len = virtioNetHdrSize + (s.posts d).pktLen
  fits : (s.posts d).pktLen.toNat ≤ 1514
  header : ∀ i < 10,
    s.mem (txBufVirt + UInt64.ofNat ((s.posts d).index % 64 * 1524) + UInt64.ofNat i) = 0
  frame : ∀ i < (s.posts d).pktLen.toNat,
    s.mem (txBufVirt + UInt64.ofNat ((s.posts d).index % 64 * 1524) + UInt64.ofNat (10 + i)) =
      (s.posts d).pkt i

/-- **The device reads the frame as it was sent.** -/
theorem Tx.Carries.deviceRead {s : Tx} {d : UInt16} (h : s.Carries d) : s.deviceRead d =
    (s.posts d).bytes := by
  have hfits := h.fits
  have hhdr : virtioNetHdrSize.toNat = 10 := rfl
  have hlen : (s.q.mem.desc d.toUInt32).len.toNat = 10 + (s.posts d).pktLen.toNat := by
    rw [h.len, UInt32.toNat_add, hhdr]
    exact Nat.mod_eq_of_lt (by omega)
  have hbase : (s.q.mem.desc d.toUInt32).addr + kernelBase =
      txBufVirt + UInt64.ofNat ((s.posts d).index % 64 * 1524) := by
    rw [h.addr]
    unfold txBufVirt
    rw [UInt64.add_assoc, UInt64.add_comm _ kernelBase, ← UInt64.add_assoc]
  unfold Tx.deviceRead Post.bytes
  rw [hlen, hbase, List.range_add, List.map_append, List.map_map, hhdr]
  congr 1
  · rw [List.eq_replicate_iff]
    constructor
    · simp
    · intro b hb
      obtain ⟨i, hi, rfl⟩ := List.mem_map.mp hb
      exact h.header i (List.mem_range.mp hi)
  · apply List.map_congr_left
    intro i hi
    exact h.frame i (List.mem_range.mp hi)

theorem Tx.Carries.congr {s s' : Tx} {d : UInt16} (h : s.Carries d) (hsent : s'.sent = s.sent)
    (hposts : s'.posts = s.posts) (hmem : s'.mem = s.mem)
    (haddr : (s'.q.mem.desc d.toUInt32).addr = (s.q.mem.desc d.toUInt32).addr)
    (hlen : (s'.q.mem.desc d.toUInt32).len = (s.q.mem.desc d.toUInt32).len) : s'.Carries d := by
  obtain ⟨h₁, h₂, h₃, h₄, h₅, h₆, h₇⟩ := h
  refine ⟨?_, ?_, ?_, ?_, ?_, ?_, ?_⟩
  · rwa [hposts, hsent]
  · rwa [hposts, hsent]
  · rwa [haddr, hposts]
  · rwa [hlen, hposts]
  · rwa [hposts]
  · rwa [hposts, hmem]
  · rwa [hposts, hmem]

structure Tx.Inv (s : Tx) (qsz : UInt16) (free avail used : List UInt16) : Prop where
  queue : QueueInv s.q s.lastAvail s.inflight free avail used
  size : s.q.vq.size = qsz
  count : s.txCount = UInt64.ofNat s.sent
  carries : ∀ d ∈ avail ++ s.inflight, s.Carries d

/-- The slot that a send would write is the slot of no frame in flight. -/
def Spares (s : Tx) : TxEvent → Prop
  | .send _ pktLen => s.Sends pktLen → ∀ d ∈ s.posted,
    (s.q.mem.desc d.toUInt32).addr ≠ txBufPhys + s.slot * bufSize.toUInt64
  | _ => True

/-- A send is not the 64th after the posting of a frame that is still in flight. -/
def Fresh (s : Tx) : TxEvent → Prop
  | .send _ pktLen => s.Sends pktLen → ∀ d ∈ s.posted, s.sent < (s.posts d).index + 64
  | _ => True

/-- What the device reads through each posted descriptor is the frame that it was posted with. -/
def Intact (s : Tx) : Prop :=
  ∀ d ∈ s.posted, s.deviceRead d = (s.posts d).bytes

namespace Tx.Inv

variable {s : Tx} {qsz : UInt16} {free avail used : List UInt16}

theorem posted_eq (h : s.Inv qsz free avail used) : s.posted = avail ++ s.inflight := by
  unfold Tx.posted
  rw [available_eq h.queue]

theorem intact (h : s.Inv qsz free avail used) : Intact s := by
  intro d hd
  rw [h.posted_eq] at hd
  exact (h.carries d hd).deviceRead

/-- **The slots come round every 64 frames.** -/
theorem fresh_iff_spares (h : s.Inv qsz free avail used) (e : TxEvent) : Fresh s e ↔ Spares s e := by
  cases e with
  | send pkt pktLen =>
    have hslot : ∀ d ∈ s.posted, (s.sent < (s.posts d).index + 64 ↔
        (s.q.mem.desc d.toUInt32).addr ≠ txBufPhys + s.slot * bufSize.toUInt64) := by
      intro d hd
      rw [h.posted_eq] at hd
      have hcarries := h.carries d hd
      have holder := hcarries.older
      have hrecent := hcarries.recent
      unfold Tx.slot
      rw [hcarries.addr, h.count, slot_mul_bufSize]
      constructor
      · intro hlt heq
        have hmod := slotOffset_inj ((UInt64.add_right_inj _).mp heq)
        omega
      · intro hne
        by_contra hge
        apply hne
        rw [show s.sent = (s.posts d).index + 64 by omega, Nat.add_mod_right]
    constructor
    · intro hfresh hsends d hd
      exact (hslot d hd).mp (hfresh hsends d hd)
    · intro hspares hsends d hd
      exact (hslot d hd).mpr (hspares hsends d hd)
  | poll => exact Iff.rfl
  | fetch => exact Iff.rfl
  | complete id len => exact Iff.rfl

theorem reclaim (h : s.Inv qsz free avail used) :
    ∃ free', ({ s with q := txReclaimUsed s.q } : Tx).Inv qsz free' avail [] := by
  obtain ⟨free', hqueue, hsize, hdesc⟩ := h.queue.reclaim
  refine ⟨free', hqueue, hsize.trans h.size, h.count, ?_⟩
  intro d hd
  exact (h.carries d hd).congr rfl rfl rfl (hdesc d.toUInt32).1 (hdesc d.toUInt32).2

theorem send (h : s.Inv qsz free avail used) {pkt : Nat → UInt8} {pktLen : UInt32}
    (hroom : RoomFor s (.send pkt pktLen)) (hfresh : Fresh s (.send pkt pktLen)) :
    ∃ free' avail' used', (netTxSend s pkt pktLen).2.Inv qsz free' avail' used' := by
  by_cases hsends : s.Sends pktLen
  · obtain ⟨d, free', hsend, hnot, hqueue, hsize⟩ :=
      netTxSend_of_sends h.queue pkt hsends (hroom hsends)
    have hold := hfresh hsends
    rw [h.posted_eq] at hold
    -- a longer frame is not sent
    have hfits : pktLen.toNat ≤ 1514 := UInt32.le_iff_toNat_le.mp (UInt32.not_lt.mp hsends.1)
    have hslot : s.slot * bufSize.toUInt64 = UInt64.ofNat (s.sent % 64 * 1524) := by
      unfold Tx.slot
      rw [h.count, slot_mul_bufSize]
    rw [hsend]
    refine ⟨free', avail ++ [d], [], hqueue, hsize.trans h.size, ?_, ?_⟩
    · unfold Tx.sentTo
      dsimp only
      rw [h.count, UInt64.ofNat_add]
      rfl
    · intro e he
      by_cases hed : e = d
      · -- the descriptor that was posted now
        subst hed
        have hbound := slotOffset_le s.sent
        have hpost : (s.sentTo e pkt pktLen).posts e = ⟨s.sent, pkt, pktLen⟩ := Function.update_self ..
        constructor
        · rw [hpost]
          exact Nat.lt_succ_self _
        · rw [hpost]
          change s.sent + 1 ≤ s.sent + 64
          omega
        · rw [hpost]
          unfold Tx.sentTo Virtq.added
          dsimp only
          rw [Function.update_self, hslot]
        · rw [hpost]
          unfold Tx.sentTo Virtq.added
          dsimp only
          rw [Function.update_self]
        · rw [hpost]
          exact hfits
        · intro i hi
          rw [hpost]
          unfold Tx.sentTo
          dsimp only
          rw [hslot]
          exact fillSlot_header _ _ _ _ _ hbound hi
        · intro i hi
          rw [hpost] at hi ⊢
          unfold Tx.sentTo
          dsimp only
          rw [hslot]
          exact fillSlot_frame _ _ _ _ _ hi
      · -- the others are in other slots
        have hmem : e ∈ avail ++ s.inflight := by
          have hin : e ∈ avail ++ [d] ++ s.inflight := he
          rw [List.append_assoc, List.mem_append, List.mem_append, List.mem_singleton] at hin
          rw [List.mem_append]
          exact hin.imp id fun hrest => hrest.resolve_left hed
        obtain ⟨h₁, h₂, h₃, h₄, h₅, h₆, h₇⟩ := h.carries e hmem
        have hlt := hold e hmem
        -- fewer than 64 frames are on their way, so the slots are different
        have hother : ∀ i < 1524,
            (s.posts e).index % 64 * 1524 + i < s.sent % 64 * 1524 ∨
              s.sent % 64 * 1524 + 1524 ≤ (s.posts e).index % 64 * 1524 + i := by
          intro i hi
          have hne : (s.posts e).index % 64 ≠ s.sent % 64 := by omega
          omega
        have hkeep : ∀ i < 1524,
            fillSlot (txBufVirt + UInt64.ofNat (s.sent % 64 * 1524)) pkt pktLen s.mem
                (txBufVirt + UInt64.ofNat ((s.posts e).index % 64 * 1524) + UInt64.ofNat i) =
              s.mem (txBufVirt + UInt64.ofNat ((s.posts e).index % 64 * 1524) + UInt64.ofNat i) := by
          intro i hi
          have hslot_le := (slotOffset_add_lt s.sent (Nat.le_refl 1524)).le
          have hbyte_lt := slotOffset_add_lt (s.posts e).index (Nat.le_of_lt hi)
          rw [UInt64.add_assoc, ← UInt64.ofNat_add]
          exact fillSlot_of_other _ _ _ _ _ hfits hslot_le hbyte_lt (hother i hi)
        have hpost : (s.sentTo d pkt pktLen).posts e = s.posts e := Function.update_of_ne hed _ _
        have hdesc : ∀ i, (s.sentTo d pkt pktLen).q.mem.desc i =
            if i = d.toUInt32 then
              { addr := txBufPhys + s.slot * bufSize.toUInt64, len := virtioNetHdrSize + pktLen,
                flags := 0, next := 0 }
            else (txReclaimUsed s.q).mem.desc i := by
          intro i
          exact Function.update_apply ..
        -- and so are the descriptors
        have hne : e.toUInt32 ≠ d.toUInt32 := fun heq => hed (toUInt32_injective heq)
        obtain ⟨-, -, -, hreclaim⟩ := h.queue.reclaim
        constructor
        · rw [hpost]
          exact Nat.lt_succ_of_lt h₁
        · rw [hpost]
          exact Nat.succ_le_of_lt hlt
        · rw [hpost, hdesc, if_neg hne, (hreclaim _).1]
          exact h₃
        · rw [hpost, hdesc, if_neg hne, (hreclaim _).2]
          exact h₄
        · rw [hpost]
          exact h₅
        · intro i hi
          rw [hpost]
          unfold Tx.sentTo
          dsimp only
          rw [hslot, hkeep i (by omega)]
          exact h₆ i hi
        · intro i hi
          rw [hpost] at hi ⊢
          unfold Tx.sentTo
          dsimp only
          rw [hslot, hkeep (10 + i) (by omega)]
          exact h₇ i hi
  · rcases netTxSend_of_not_sends (s := s) pkt hsends with hsame | hpolled
    · rw [hsame]
      exact ⟨free, avail, used, h⟩
    · obtain ⟨free', h'⟩ := h.reclaim
      rw [hpolled]
      exact ⟨free', avail, [], h'⟩

theorem fetch (h : s.Inv qsz free avail used) : ∃ avail', s.fetch.Inv qsz free avail' used := by
  unfold Tx.fetch
  cases avail with
  | nil =>
    rw [if_pos (beq_iff_eq.mpr h.queue.fetch_nil)]
    exact ⟨[], h⟩
  | cons d avail =>
    obtain ⟨hne, hd, hqueue⟩ := h.queue.fetch
    rw [if_neg (by simpa using hne), hd]
    refine ⟨avail, hqueue, h.size, h.count, ?_⟩
    intro e he
    have hin : e ∈ d :: avail ++ s.inflight := by
      have hperm : (avail ++ (s.inflight ++ [d])).Perm (d :: avail ++ s.inflight) := by
        rw [← List.append_assoc]
        exact List.perm_append_comm
      exact hperm.mem_iff.mp he
    exact (h.carries e hin).congr rfl rfl rfl rfl rfl

theorem complete (h : s.Inv qsz free avail used) {id : UInt16} {len : UInt32}
    (hroom : RoomFor s (.complete id len)) : ∃ used', (s.complete id len).Inv qsz free avail used' := by
  unfold Tx.complete
  split
  · rename_i hid
    have hlen := h.queue.length_eq
    have hsmall := h.queue.size
    have hdist : (s.q.mem.usedIdx - s.q.vq.lastUsedIdx).toNat = used.length := by
      rw [h.queue.usedIdx]
      exact Queue.Inv.toNat_distance _ (by omega)
    have hroom' := hroom hid
    rw [hdist] at hroom'
    refine ⟨used ++ [id], h.queue.complete hid hroom' len, h.size, h.count, ?_⟩
    intro e he
    have hin : e ∈ avail ++ s.inflight := by
      rw [List.mem_append] at he ⊢
      exact he.imp_right List.mem_of_mem_erase
    exact (h.carries e hin).congr rfl rfl rfl rfl rfl
  · exact ⟨used, h⟩

end Tx.Inv

/-! ### Runs -/

/-- The state is one in which the invariant holds. -/
def Tx.Ok (qsz : UInt16) (s : Tx) : Prop :=
  ∃ free avail used, s.Inv qsz free avail used

theorem Tx.Ok.exec {qsz : UInt16} {s : Tx} (h : s.Ok qsz) {e : TxEvent} (hroom : RoomFor s e)
    (hfresh : Fresh s e) : (s.exec e).Ok qsz := by
  obtain ⟨free, avail, used, hinv⟩ := h
  cases e with
  | send pkt pktLen => exact hinv.send hroom hfresh
  | poll =>
    obtain ⟨free', h'⟩ := hinv.reclaim
    exact ⟨free', avail, [], h'⟩
  | fetch =>
    obtain ⟨avail', h'⟩ := hinv.fetch
    exact ⟨free, avail', used, h'⟩
  | complete id len =>
    obtain ⟨used', h'⟩ := hinv.complete hroom
    exact ⟨free, avail, used', h'⟩

theorem ok_init {qsz : UInt16} (hpos : 0 < qsz.toNat) (hle : qsz.toNat ≤ 256) (mem : Mem) :
    (Tx.init qsz mem).Ok qsz := by
  refine ⟨idsFrom 0 qsz.toNat, [], [], queueInv_virtqInit hpos (by omega), size_virtqInit qsz, rfl, ?_⟩
  intro d hd
  exact absurd hd List.not_mem_nil

/-- No send writes a slot in flight, and in every state of the run the device reads each frame as it was
sent. -/
def Transmits (s : Tx) (events : List TxEvent) : Prop :=
  Admissible Tx.exec Spares s events ∧
    ∀ before after, events = before ++ after → Intact (runOps Tx.exec s before)

theorem admissible_fresh_iff {qsz : UInt16} {events : List TxEvent} {s : Tx} (h : s.Ok qsz)
    (hroom : Admissible Tx.exec RoomFor s events) :
    Admissible Tx.exec Fresh s events ↔ Admissible Tx.exec Spares s events := by
  induction events generalizing s with
  | nil => exact Iff.rfl
  | cons e events ih =>
    obtain ⟨free, avail, used, hinv⟩ := h
    have hstep := hinv.fresh_iff_spares e
    constructor
    · rintro ⟨hfresh, hrest⟩
      have hok := Tx.Ok.exec ⟨free, avail, used, hinv⟩ hroom.1 hfresh
      exact ⟨hstep.mp hfresh, (ih hok hroom.2).mp hrest⟩
    · rintro ⟨hspares, hrest⟩
      have hfresh := hstep.mpr hspares
      have hok := Tx.Ok.exec ⟨free, avail, used, hinv⟩ hroom.1 hfresh
      exact ⟨hfresh, (ih hok hroom.2).mpr hrest⟩

/-- **Frames in flight stay as they were sent** exactly in the runs in which no send is the 64th after a
frame that is still in flight. -/
theorem transmits_iff {qsz : UInt16} (hpos : 0 < qsz.toNat) (hle : qsz.toNat ≤ 256) (mem : Mem)
    {events : List TxEvent} (hroom : Admissible Tx.exec RoomFor (Tx.init qsz mem) events) :
    Transmits (Tx.init qsz mem) events ↔ Admissible Tx.exec Fresh (Tx.init qsz mem) events := by
  have hinit := ok_init hpos hle mem
  have hiff := admissible_fresh_iff hinit hroom
  constructor
  · rintro ⟨hspares, -⟩
    exact hiff.mpr hspares
  · intro hfresh
    refine ⟨hiff.mp hfresh, ?_⟩
    rintro before after rfl
    have hboth := hroom.left.and hfresh.left
    obtain ⟨free, avail, used, hinv⟩ := runOps_induction (I := Tx.Ok qsz)
      (fun s e h hstep => h.exec hstep.1 hstep.2) hinit hboth
    exact hinv.intact

/-! ### Queues whose size is a power of two -/

/-- The queue is in order, whatever the slots hold. -/
def Tx.QueueOk (qsz : UInt16) (s : Tx) : Prop :=
  s.q.vq.size = qsz ∧ ∃ free avail used, QueueInv s.q s.lastAvail s.inflight free avail used

theorem Tx.QueueOk.roomFor {qsz : UInt16} (hdvd : qsz.toNat ∣ 2 ^ 16) {s : Tx} (h : s.QueueOk qsz)
    (e : TxEvent) : RoomFor s e := by
  obtain ⟨hsize, free, avail, used, hqueue⟩ := h
  have hlen := hqueue.length_eq
  have hsmall := hqueue.size
  cases e with
  | send pkt pktLen =>
    intro hsends
    have hdist : (s.q.mem.availIdx - s.lastAvail).toNat = avail.length := by
      rw [hqueue.availIdx]
      exact Queue.Inv.toNat_distance _ (by omega)
    obtain ⟨free', hreclaim, hsize', -⟩ := hqueue.reclaim
    have hlen' := hreclaim.length_eq
    have hfree : free'.length ≠ 0 := by
      intro hnil
      exact hsends.2 (UInt16.toNat_inj.mp (hreclaim.numFree.trans hnil))
    rw [hdist, hsize]
    apply room_of_lt hdvd
    rw [← hsize, ← hsize']
    omega
  | complete id len =>
    intro hid
    have hdist : (s.q.mem.usedIdx - s.q.vq.lastUsedIdx).toNat = used.length := by
      rw [hqueue.usedIdx]
      exact Queue.Inv.toNat_distance _ (by omega)
    have hpos := List.length_pos_of_mem hid
    rw [hdist, hsize]
    apply room_of_lt hdvd
    rw [← hsize]
    omega
  | poll => trivial
  | fetch => trivial

theorem Tx.QueueOk.exec {qsz : UInt16} {s : Tx} (h : s.QueueOk qsz) {e : TxEvent} (hroom : RoomFor s e) :
    (s.exec e).QueueOk qsz := by
  obtain ⟨hsize, free, avail, used, hqueue⟩ := h
  have hpoll : ({ s with q := txReclaimUsed s.q } : Tx).QueueOk qsz := by
    obtain ⟨free', hreclaim, hsize', -⟩ := hqueue.reclaim
    exact ⟨hsize'.trans hsize, free', avail, [], hreclaim⟩
  cases e with
  | send pkt pktLen =>
    change (netTxSend s pkt pktLen).2.QueueOk qsz
    by_cases hsends : s.Sends pktLen
    · obtain ⟨d, free', hsend, -, hqueue', hsize'⟩ :=
        netTxSend_of_sends hqueue pkt hsends (hroom hsends)
      rw [hsend]
      exact ⟨hsize'.trans hsize, free', avail ++ [d], [], hqueue'⟩
    · rcases netTxSend_of_not_sends (s := s) pkt hsends with hsame | hpolled
      · rw [hsame]
        exact ⟨hsize, free, avail, used, hqueue⟩
      · rw [hpolled]
        exact hpoll
  | poll => exact hpoll
  | fetch =>
    change s.fetch.QueueOk qsz
    unfold Tx.fetch
    cases avail with
    | nil =>
      rw [if_pos (beq_iff_eq.mpr hqueue.fetch_nil)]
      exact ⟨hsize, free, [], used, hqueue⟩
    | cons d avail =>
      obtain ⟨hne, hd, hqueue'⟩ := hqueue.fetch
      rw [if_neg (by simpa using hne), hd]
      exact ⟨hsize, free, avail, used, hqueue'⟩
  | complete id len =>
    change (s.complete id len).QueueOk qsz
    unfold Tx.complete
    split
    · rename_i hid
      have hlen := hqueue.length_eq
      have hsmall := hqueue.size
      have hdist : (s.q.mem.usedIdx - s.q.vq.lastUsedIdx).toNat = used.length := by
        rw [hqueue.usedIdx]
        exact Queue.Inv.toNat_distance _ (by omega)
      have hroom' := hroom hid
      rw [hdist] at hroom'
      exact ⟨hsize, free, avail, used ++ [id], hqueue.complete hid hroom' len⟩
    · exact ⟨hsize, free, avail, used, hqueue⟩

/-- **The rings always have room** where the size of the queue is a power of two. -/
theorem roomFor_of_dvd {qsz : UInt16} (hpos : 0 < qsz.toNat) (hle : qsz.toNat ≤ 2 ^ 15)
    (hdvd : qsz.toNat ∣ 2 ^ 16) (mem : Mem) (events : List TxEvent) :
    Admissible Tx.exec RoomFor (Tx.init qsz mem) events := by
  have hrun : ∀ {s : Tx}, s.QueueOk qsz → Admissible Tx.exec RoomFor s events := by
    induction events with
    | nil => exact fun _ => trivial
    | cons e events ih =>
      intro s h
      have hroom := h.roomFor hdvd e
      exact ⟨hroom, ih (h.exec hroom)⟩
  apply hrun
  exact ⟨size_virtqInit qsz, idsFrom 0 qsz.toNat, [], [], queueInv_virtqInit hpos hle⟩

/-! ### Runs of a fast and of a slow device -/

instance (s : Tx) : ∀ e, Decidable (Fresh s e)
  | .send _ pktLen =>
    if h : s.Sends pktLen then
      have := List.decidableBAll (fun d => s.sent < (s.posts d).index + 64) s.posted
      decidable_of_iff (∀ d ∈ s.posted, _) ⟨fun hall _ => hall, fun hall => hall h⟩
    else isTrue fun hsends => absurd hsends h
  | .poll | .fetch | .complete _ _ => isTrue trivial

/-- Two frames are sent, the device returns the second one, and a third one is sent. -/
def threeFrames : List TxEvent :=
  [.send (fun _ => 1) 60, .send (fun _ => 2) 70, .fetch, .fetch, .complete 1 0, .poll,
    .send (fun _ => 3) 80]

theorem transmits_iff_threeFrames : Transmits (Tx.init 256 fun _ => 0) threeFrames :=
  (transmits_iff (by decide) (by decide) _ (roomFor_of_dvd (by decide) (by decide) (by decide) _ _)).mpr
    (by decide +kernel)

/-- 65 frames are sent to a device that takes none of them. -/
def slowDevice : List TxEvent :=
  (List.range 65).map fun k => .send (fun _ => UInt8.ofNat k) 1

theorem not_transmits_of_slowDevice :
    ¬∀ (qsz : UInt16) (mem : Mem) (events : List TxEvent), 0 < qsz.toNat → qsz.toNat ≤ 256 →
      Transmits (Tx.init qsz mem) events := by
  intro h
  obtain ⟨-, hintact⟩ := h 128 (fun _ => 0) slowDevice (by decide) (by decide)
  -- the first frame held 0, and its slot holds the 65th one now
  have hrun : ∃ s, runOps Tx.exec (Tx.init 128 fun _ => 0) slowDevice = s ∧ 0 ∈ s.posted ∧
      (s.posts 0).bytes = List.replicate 11 0 ∧ s.deviceRead 0 = List.replicate 10 0 ++ [64] :=
    ⟨_, rfl, by decide +kernel⟩
  obtain ⟨s, hs, hposted, hsent, hread⟩ := hrun
  have hsame := hintact slowDevice [] (by simp) 0 (hs ▸ hposted)
  rw [hs, hsent, hread] at hsame
  exact absurd hsame (by decide)

end Keuos.Virtio
