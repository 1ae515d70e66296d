import Keuos.Net.Virtio
import Keuos.Net.Equiv.Virtqueue

/-!
# The receive queue

The driver finds the buffer of a packet from the number of its descriptor, so it needs every posted
descriptor `d` to have buffer `d` in it.  The free list of descriptors is a stack, and a repost takes the
descriptor on top of it, whichever buffer is reposted.

* `pollMatches_of_recycled` – the buffers match their descriptors in every run in which each buffer is
  reposted when its own descriptor is on top.
* `not_pollMatches_of_twoPackets` – the run that reposts the older of two packets first.
-/

namespace Keuos.Virtio

/-! ### Buffers and descriptors -/

/-- The physical address of the buffer that belongs to a descriptor. -/
def physOf (d : UInt16) : UInt64 :=
  rxBufPhys + d.toUInt64 * bufSize.toUInt64

/-- Its virtual address. -/
def virtOf (d : UInt16) : UInt64 :=
  rxBufVirt + d.toUInt64 * bufSize.toUInt64

theorem virtOf_eq (d : UInt16) : virtOf d = physOf d + kernelBase := by
  unfold virtOf physOf rxBufVirt
  rw [UInt64.add_assoc, UInt64.add_comm kernelBase, ← UInt64.add_assoc]

theorem virtOf_sub (d : UInt16) : virtOf d - kernelBase = physOf d := by
  rw [virtOf_eq, UInt64.add_sub_cancel]

theorem offset_lt {a : Nat} (ha : a < 2 ^ 16) : a * 1524 < 2 ^ 64 := by
  omega

theorem physOf_injective : Function.Injective physOf := by
  intro d e h
  unfold physOf at h
  have hmul := congrArg UInt64.toNat ((UInt64.add_right_inj _).mp h)
  have hsize : bufSize.toUInt64.toNat = 1524 := rfl
  rw [UInt64.toNat_mul, UInt64.toNat_mul, UInt16.toNat_toUInt64, UInt16.toNat_toUInt64, hsize,
    Nat.mod_eq_of_lt (offset_lt d.toNat_lt), Nat.mod_eq_of_lt (offset_lt e.toNat_lt)] at hmul
  exact UInt16.toNat_inj.mp (Nat.eq_of_mul_eq_mul_right (by decide) hmul)

theorem virtOf_injective : Function.Injective virtOf := by
  intro d e h
  apply physOf_injective
  rw [← virtOf_sub, ← virtOf_sub, h]

/-! ### The invariant -/

/-- The size of a queue: at least 64 entries, and a divisor of the range of the ring indices. -/
def QueueSize (qsz : UInt16) : Prop :=
  64 ≤ qsz.toNat ∧ qsz.toNat ∣ 2 ^ 16

instance (qsz : UInt16) : Decidable (QueueSize qsz) :=
  inferInstanceAs (Decidable (_ ∧ _))

/-- The descriptors are in their places, those that are not free have their own buffers, and the other
buffers, those of `heldIds`, are held. -/
structure Inv (s : Nic) (free avail used heldIds : List UInt16) : Prop where
  size : QueueSize s.q.vq.size
  queue : QueueInv s.q s.lastAvail s.inflight free avail used
  bufs : (heldIds ++ (avail ++ s.inflight ++ used)).Perm (idsFrom 0 maxBufs)
  held : s.held = heldIds.map virtOf
  own : ∀ d ∈ avail ++ s.inflight ++ used, (s.q.mem.desc d.toUInt32).addr = physOf d
  filled : s.filled = used.map physOf

section Inv

variable {s : Nic} {free avail used heldIds : List UInt16}

theorem Inv.length_le (h : Inv s free avail used heldIds) :
    heldIds.length + (avail.length + s.inflight.length + used.length) = 64 := by
  have hlen := h.bufs.length_eq
  simpa [idsFrom, maxBufs, Nat.add_assoc] using hlen

theorem Inv.avail_lt (h : Inv s free avail used heldIds) : avail.length < 2 ^ 16 := by
  have hlen := h.length_le
  omega

theorem Inv.fetch (h : Inv s free avail used heldIds) :
    ∃ avail', Inv s.fetch free avail' used heldIds := by
  unfold Nic.fetch
  cases avail with
  | nil =>
    rw [if_pos (beq_iff_eq.mpr h.queue.fetch_nil)]
    exact ⟨[], h⟩
  | cons d avail =>
    obtain ⟨hne, hd, hqueue⟩ := h.queue.fetch
    rw [if_neg (by simpa using hne), hd]
    exact ⟨avail, h.size, hqueue, (perm_fetch.append_left heldIds).trans h.bufs, h.held,
      fun e he => h.own e (perm_fetch.mem_iff.mp he), h.filled⟩

theorem Inv.complete (h : Inv s free avail used heldIds) (id : UInt16) (len : UInt32) :
    ∃ used', Inv (s.complete id len) free avail used' heldIds := by
  unfold Nic.complete
  split
  · next hid =>
    have hlen := h.length_le
    have hpos := List.length_pos_of_mem hid
    have hsize := h.size.1
    have hmem : id ∈ avail ++ s.inflight ++ used := by
      simp [hid]
    -- the packet goes into the descriptor's own buffer
    refine ⟨used ++ [id], h.size, h.queue.complete hid (room_of_lt h.size.2 (by omega)) len,
      ((perm_complete hid).append_left heldIds).trans h.bufs, h.held,
      fun e he => h.own e ((perm_complete hid).mem_iff.mp he), ?_⟩
    dsimp only
    rw [h.filled, h.own id hmem, List.map_append]
    rfl
  · exact ⟨used, h⟩

theorem Inv.poll {d : UInt16} (h : Inv s free avail (d :: used) heldIds) :
    ∃ len, (netRxPoll s).1 = some (virtOf d, len) ∧
      Inv (netRxPoll s).2 (d :: free) avail used (heldIds ++ [d]) := by
  obtain ⟨⟨len, hpoll⟩, hqueue⟩ := h.queue.poll
  have hnic : netRxPoll s = (some (virtOf d, len),
      { s with
        q := s.q.freed d
        rxCount := s.rxCount + 1
        filled := s.filled.tail
        held := s.held ++ [virtOf d] }) := by
    unfold netRxPoll
    rw [hpoll]
    rfl
  rw [hnic]
  refine ⟨len, rfl, h.size, hqueue, ?_, ?_, fun e he => ?_, ?_⟩
  · refine List.Perm.trans ?_ h.bufs
    have hmiddle : ([d] ++ (avail ++ s.inflight ++ used)).Perm (avail ++ s.inflight ++ d :: used) := by
      rw [List.singleton_append]
      exact List.perm_middle.symm
    rw [List.append_assoc]
    exact hmiddle.append_left heldIds
  · dsimp only
    rw [h.held, List.map_append]
    rfl
  · rw [addr_freed]
    exact h.own e (List.perm_middle.mem_iff.mpr (List.mem_cons_of_mem d he))
  · dsimp only
    rw [h.filled]
    rfl

theorem Inv.poll_nil (h : Inv s free avail [] heldIds) : netRxPoll s = (none, s) := by
  unfold netRxPoll
  rw [h.queue.poll_nil]

theorem Inv.add {d : UInt16} (h : Inv s (d :: free) avail used heldIds) (hd : d ∈ heldIds) :
    ∃ q, virtqAddBuf s.q (physOf d) bufSize true = some (d, q) ∧
      Inv { s with q, held := s.held.erase (virtOf d) } free (avail ++ [d]) used (heldIds.erase d) := by
  have hlen := h.length_le
  have hheld := List.length_pos_of_mem hd
  have hsize := h.size.1
  obtain ⟨hadd, hqueue⟩ := h.queue.add (room_of_lt h.size.2 (by omega)) (physOf d) bufSize true
  -- buffer `d` goes from those that are held to those that are posted
  refine ⟨_, hadd, h.size, hqueue, ?_, ?_, fun e he => ?_, h.filled⟩
  · refine List.Perm.trans ?_ h.bufs
    refine (perm_add.append_left _).trans (List.perm_middle.trans ?_)
    exact (List.perm_cons_erase hd).symm.append_right _
  · dsimp only
    rw [h.held, List.map_erase virtOf_injective]
  -- Its own entry is written; every other descriptor keeps its buffer.
  · dsimp only [Virtq.added]
    rcases List.mem_cons.mp (perm_add.mem_iff.mp he) with rfl | hmem
    · rw [Function.update_self]
    · have hne : e ≠ d := by
        rintro rfl
        exact (List.nodup_cons.mp h.queue.nodup).1 (List.mem_append_right free hmem)
      rw [Function.update_of_ne (fun heq => hne (toUInt32_injective heq))]
      exact h.own e hmem

theorem Inv.repost (h : Inv s free avail used heldIds) {buf : UInt64} (hbuf : buf ∈ s.held)
    (htop : buf = virtOf s.q.vq.freeHead) :
    ∃ s' free' avail' heldIds', netRxRepost s buf = some s' ∧ Inv s' free' avail' used heldIds' := by
  rw [h.held] at hbuf
  obtain ⟨d, hd, rfl⟩ := List.mem_map.mp hbuf
  have hhead : d = s.q.vq.freeHead := virtOf_injective htop
  -- the buffer is held, so its descriptor is in none of the other places
  have hfree : d ∈ free := by
    have hnodup := h.bufs.nodup_iff.mpr (nodup_idsFrom (by decide))
    have hin : d ∈ idsFrom 0 s.q.vq.size.toNat := by
      have hbufs := h.bufs.mem_iff.mp (List.mem_append_left _ hd)
      obtain ⟨k, hk, rfl⟩ := List.mem_map.mp hbufs
      rw [List.mem_range'_1] at hk
      refine List.mem_map.mpr ⟨k, ?_, rfl⟩
      rw [List.mem_range'_1]
      have hsize := h.size.1
      change 0 ≤ k ∧ k < 0 + 64 at hk
      omega
    rcases List.mem_append.mp (h.queue.descs.mem_iff.mpr hin) with hmem | huse
    · exact hmem
    · exact absurd rfl ((List.nodup_append.mp hnodup).2.2 d hd d huse)
  cases free with
  | nil => exact absurd hfree List.not_mem_nil
  | cons e free =>
    have he : e = d := h.queue.chain.1.symm.trans hhead.symm
    subst he
    obtain ⟨q, hadd, hinv⟩ := h.add hd
    refine ⟨_, free, avail ++ [e], heldIds.erase e, ?_, hinv⟩
    unfold netRxRepost
    dsimp only
    rw [virtOf_sub, hadd]
    rfl

end Inv

/-! ### The start -/

/-- The driver has all buffers in its hands, and posts them one after another. -/
def beforePost (q : Virtq) (posted : Nat) : Nic :=
  { q, rxCount := 0, lastAvail := 0, inflight := [], filled := []
    held := (idsFrom posted (maxBufs - posted)).map virtOf }

theorem inv_virtqInit {qsz : UInt16} (hsize : QueueSize qsz) :
    Inv (beforePost (virtqInit qsz) 0) (idsFrom 0 qsz.toNat) [] [] (idsFrom 0 maxBufs) := by
  have hlt := qsz.toNat_lt
  have hpos : 0 < qsz.toNat := Nat.lt_of_lt_of_le (by decide) hsize.1
  -- a proper divisor is at most half of the range
  have hle : qsz.toNat ≤ 2 ^ 15 := by
    obtain ⟨k, hk⟩ := hsize.2
    have htwo : 2 ≤ k := by
      by_contra hless
      have hmul := Nat.mul_le_mul_left qsz.toNat (show k ≤ 1 by omega)
      omega
    have hmul := Nat.mul_le_mul_left qsz.toNat htwo
    omega
  refine ⟨?_, queueInv_virtqInit hpos hle, ?_, rfl, nofun, rfl⟩
  · unfold beforePost
    rwa [size_virtqInit]
  · unfold beforePost
    simp

theorem inv_prePostFrom {q : Virtq} {n posted : Nat} (hn : posted + n = maxBufs)
    {free avail : List UInt16} (htop : ∃ rest, free = idsFrom posted n ++ rest)
    (h : Inv (beforePost q posted) free avail [] (idsFrom posted n)) :
    ∃ q' free' avail', prePostFrom n (UInt64.ofNat posted) q = some q' ∧
      Inv (beforePost q' maxBufs) free' avail' [] [] := by
  induction n generalizing q posted free avail with
  | zero =>
    rw [Nat.add_zero] at hn
    subst hn
    exact ⟨q, free, avail, rfl, h⟩
  | succ n ih =>
    obtain ⟨rest, rfl⟩ := htop
    rw [idsFrom_succ] at h
    obtain ⟨q', hadd, hinv⟩ := h.add List.mem_cons_self
    have hbuf : rxBufPhys + UInt64.ofNat posted * bufSize.toUInt64 = physOf (UInt16.ofNat posted) := by
      have hid : (UInt16.ofNat posted).toUInt64 = UInt64.ofNat posted := by
        apply UInt64.toNat_inj.mp
        have hlt : posted < 64 := by
          change posted + (n + 1) = 64 at hn
          omega
        rw [UInt16.toNat_toUInt64, toNat_ofNat_of_lt (by omega), UInt64.toNat_ofNat_of_lt' (by
          change posted < 2 ^ 64
          omega)]
      unfold physOf
      rw [hid]
    have hnext : Inv (beforePost q' (posted + 1)) (idsFrom (posted + 1) n ++ rest)
        (avail ++ [UInt16.ofNat posted]) [] (idsFrom (posted + 1) n) := by
      have hleft : maxBufs - posted = n + 1 := by omega
      have hnic : beforePost q' (posted + 1) =
          { beforePost q posted with
            q := q'
            held := (beforePost q posted).held.erase (virtOf (UInt16.ofNat posted)) } := by
        unfold beforePost
        dsimp only
        rw [hleft, idsFrom_succ, List.map_cons, List.erase_cons_head,
          show maxBufs - (posted + 1) = n by omega]
      rw [List.erase_cons_head] at hinv
      rw [hnic]
      exact hinv
    obtain ⟨q'', free', avail', hpost, hlast⟩ := ih (by omega) ⟨rest, rfl⟩ hnext
    refine ⟨q'', free', avail', ?_, hlast⟩
    unfold prePostFrom
    rw [hbuf]
    change (virtqAddBuf q (physOf (UInt16.ofNat posted)) bufSize true).bind _ = _
    change virtqAddBuf q (physOf (UInt16.ofNat posted)) bufSize true = _ at hadd
    rw [hadd, ← show UInt64.ofNat (posted + 1) = UInt64.ofNat posted + 1 from UInt64.ofNat_add _ _]
    exact hpost

/-- **The driver comes up** with all buffers posted. -/
theorem inv_init {qsz : UInt16} (hsize : QueueSize qsz) :
    ∃ s free avail, init qsz = some s ∧ Inv s free avail [] [] := by
  have hids : idsFrom 0 qsz.toNat = idsFrom 0 maxBufs ++ idsFrom maxBufs (qsz.toNat - maxBufs) := by
    have hpos : maxBufs ≤ qsz.toNat := hsize.1
    have hsplit := List.range'_append_1 (s := 0) (m := maxBufs) (n := qsz.toNat - maxBufs)
    rw [Nat.zero_add, Nat.add_sub_of_le hpos] at hsplit
    unfold idsFrom
    rw [← List.map_append, hsplit]
  obtain ⟨q, free, avail, hpost, hinv⟩ := inv_prePostFrom (Nat.zero_add maxBufs) ⟨_, hids⟩
    (inv_virtqInit hsize)
  refine ⟨beforePost q maxBufs, free, avail, ?_, hinv⟩
  change (prePostFrom maxBufs 0 (virtqInit qsz)).bind _ = _
  change prePostFrom maxBufs 0 (virtqInit qsz) = _ at hpost
  rw [hpost]
  rfl

/-! ### Runs -/

/-- A buffer is reposted that has been received and not been reposted since. -/
def Received (s : Nic) : Event → Prop
  | .repost bufVirt => bufVirt ∈ s.held
  | _ => True

/-- A buffer is reposted when the descriptor on top of the free list is its own. -/
def Recycled (s : Nic) : Event → Prop
  | .repost bufVirt => bufVirt = virtOf s.q.vq.freeHead
  | _ => True

instance (s : Nic) : ∀ e, Decidable (Received s e)
  | .repost _ => inferInstanceAs (Decidable (_ ∈ _))
  | .fetch | .complete _ _ | .poll => isTrue trivial

instance (s : Nic) : ∀ e, Decidable (Recycled s e)
  | .repost _ => inferInstanceAs (Decidable (_ = _))
  | .fetch | .complete _ _ | .poll => isTrue trivial

/-- What a poll returns is the buffer of the oldest descriptor that the device has completed, and that
buffer is not posted. -/
def PollMatches (s : Nic) : Prop :=
  ∀ r, (netRxPoll s).1 = some r → ∃ addr, s.filled.head? = some addr ∧ r.1 = addr + kernelBase ∧
    ∀ d ∈ (netRxPoll s).2.posted, ((netRxPoll s).2.q.mem.desc d.toUInt32).addr ≠ addr

/-- The driver and the device are where the invariant holds. -/
def Ok (s : Nic) : Prop :=
  ∃ free avail used heldIds, Inv s free avail used heldIds

theorem Ok.exec {s : Nic} (h : Ok s) {e : Event} (hreceived : Received s e) (hrecycled : Recycled s e) :
    Ok (s.exec e) := by
  obtain ⟨free, avail, used, heldIds, hinv⟩ := h
  cases e with
  | fetch =>
    obtain ⟨avail', hinv'⟩ := hinv.fetch
    exact ⟨free, avail', used, heldIds, hinv'⟩
  | complete id len =>
    obtain ⟨used', hinv'⟩ := hinv.complete id len
    exact ⟨free, avail, used', heldIds, hinv'⟩
  | poll =>
    change Ok (netRxPoll s).2
    cases used with
    | nil =>
      rw [hinv.poll_nil]
      exact ⟨free, avail, [], heldIds, hinv⟩
    | cons d used =>
      obtain ⟨len, -, hinv'⟩ := hinv.poll
      exact ⟨d :: free, avail, used, heldIds ++ [d], hinv'⟩
  | repost buf =>
    obtain ⟨s', free', avail', heldIds', hrepost, hinv'⟩ := hinv.repost hreceived hrecycled
    refine ⟨free', avail', used, heldIds', ?_⟩
    change Inv ((netRxRepost s buf).getD s) _ _ _ _
    rw [hrepost]
    exact hinv'

theorem Inv.available {s : Nic} {free avail used heldIds : List UInt16}
    (h : Inv s free avail used heldIds) : s.available = avail := by
  have hnum : (s.q.mem.availIdx - s.lastAvail).toNat = avail.length := by
    rw [h.queue.availIdx, UInt16.add_comm, UInt16.add_sub_cancel, toNat_ofNat_of_lt h.avail_lt]
  unfold Nic.available
  rw [hnum, h.queue.availRing]

theorem Ok.pollMatches {s : Nic} (h : Ok s) : PollMatches s := by
  obtain ⟨free, avail, used, heldIds, hinv⟩ := h
  intro r hr
  cases used with
  | nil =>
    rw [hinv.poll_nil] at hr
    exact absurd hr (by simp)
  | cons d used =>
    obtain ⟨len, hpoll, hinv'⟩ := hinv.poll
    have hbuf : r = (virtOf d, len) := Option.some_inj.mp (hr.symm.trans hpoll)
    refine ⟨physOf d, by rw [hinv.filled]; rfl, by rw [hbuf]; exact virtOf_eq d, ?_⟩
    intro e he haddr
    have hposted : e ∈ avail ++ (netRxPoll s).2.inflight := by
      unfold Nic.posted at he
      rwa [hinv'.available] at he
    rw [hinv'.own e (List.mem_append_left _ hposted)] at haddr
    -- the polled descriptor is free now, the posted ones are not
    have hed : e = d := physOf_injective haddr
    refine (List.nodup_append.mp hinv'.queue.nodup).2.2 d List.mem_cons_self d ?_ rfl
    exact List.mem_append_left _ (hed ▸ hposted)

/-- **Receive buffers match their descriptors** in every run of the device and the driver in which each
received buffer is reposted at most once, and when its own descriptor is on top of the free list. -/
theorem pollMatches_of_recycled {qsz : UInt16} (hsize : QueueSize qsz) {events : List Event} {s : Nic}
    (hinit : init qsz = some s)
    (hok : Admissible Nic.exec (fun s e => Received s e ∧ Recycled s e) s events) :
    PollMatches (runOps Nic.exec s events) := by
  obtain ⟨s', free, avail, hinit', hinv⟩ := inv_init hsize
  have hs : s = s' := Option.some_inj.mp (hinit.symm.trans hinit')
  have hrun : Ok (runOps Nic.exec s events) :=
    runOps_induction (I := Ok) (fun _ _ h hstep => h.exec hstep.1 hstep.2)
      (hs ▸ ⟨free, avail, [], [], hinv⟩) hok
  exact hrun.pollMatches

/-! ### Runs of a queue of 64 entries -/

theorem isSome_init : (init 64).isSome = true := by
  decide +kernel

/-- The card at the start. -/
def card : Nic :=
  (init 64).get isSome_init

/-- A packet is received and its buffer reposted, and the device completes another one. -/
def onePacket : List Event :=
  [.fetch, .complete 0 60, .poll, .repost rxBufVirt, .fetch, .complete 1 60]

theorem pollMatches_of_recycled_onePacket : PollMatches (runOps Nic.exec card onePacket) :=
  pollMatches_of_recycled (show QueueSize 64 by decide) (Option.some_get isSome_init).symm (by decide +kernel)

/-- Two packets are received, the buffer of the first one is reposted, and the device completes the
descriptor that it went to. -/
def twoPackets : List Event :=
  [.fetch, .fetch, .complete 0 60, .complete 1 60, .poll, .poll, .repost rxBufVirt] ++
    List.replicate 63 .fetch ++ [.complete 1 60]

theorem not_pollMatches_of_twoPackets :
    ¬∀ (qsz : UInt16) (s : Nic) (events : List Event), QueueSize qsz → init qsz = some s →
      Admissible Nic.exec Received s events → PollMatches (runOps Nic.exec s events) := by
  intro h
  have hmatches := h 64 card twoPackets (by decide) (Option.some_get isSome_init).symm (by decide +kernel)
  obtain ⟨addr, hfilled, hbuf, -⟩ := hmatches (rxBufVirt + 1524, 60) (by decide +kernel)
  have haddr : (runOps Nic.exec card twoPackets).filled.head? = some rxBufPhys := by decide +kernel
  rw [hfilled, Option.some_inj] at haddr
  rw [haddr] at hbuf
  exact absurd hbuf (by decide)

end Keuos.Virtio
