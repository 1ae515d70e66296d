import Keuos.Ipc.Adaptive
import Keuos.Ipc.Equiv.Stream

/-!
# The sleeping consumer misses nothing

The argument is in three layers, each an invariant of every step.  `Counts` says that the two indices are the
low words of the numbers of bytes published and returned, and what each side still knows from the words it
has read.  `Handshake` is about the flag: from the arming to the clearing it is 1, and since the consumer
looks at the head only after the arming, a byte that it did not see was published with the flag set, so that
its wakeup is due.  `Intact` is about the bytes, and holds as long as the head has not wrapped around:
3904 does not divide 2^64, so the positions of the stream jump there.
-/

namespace Keuos.Ipc.Adaptive

/-! ### The flag word -/

section Words

variable (base : UInt64) (m : Mem)

theorem waiting_write8 (n : Nat) (b : UInt8) :
    (m.write8 (dataAddr base n) b).read64 (base + consumerWaitingOffset) =
      m.read64 (base + consumerWaitingOffset) :=
  Mem.read64_write8_offset (j := 128) (by omega) (by decide) (by omega)

theorem waiting_write_head (v : UInt64) :
    (m.write64 (base + headOffset) v).read64 (base + consumerWaitingOffset) =
      m.read64 (base + consumerWaitingOffset) :=
  Mem.read64_write64_offset (i := 0) (j := 128) (by decide) (by decide) (by decide)

theorem head_write_waiting (v : UInt64) :
    (m.write64 (base + consumerWaitingOffset) v).read64 (base + headOffset) =
      m.read64 (base + headOffset) :=
  Mem.read64_write64_offset (i := 128) (j := 0) (by decide) (by decide) (by decide)

theorem tail_write_waiting (v : UInt64) :
    (m.write64 (base + consumerWaitingOffset) v).read64 (base + tailOffset) =
      m.read64 (base + tailOffset) :=
  Mem.read64_write64_offset (i := 128) (j := 64) (by decide) (by decide) (by decide)

theorem cap_write_waiting (v : UInt64) :
    (m.write64 (base + consumerWaitingOffset) v).read64 (base + capacityOffset) =
      m.read64 (base + capacityOffset) :=
  Mem.read64_write64_offset (i := 128) (j := 8) (by decide) (by decide) (by decide)

theorem data_write_waiting (v : UInt64) (n : Nat) :
    m.write64 (base + consumerWaitingOffset) v (dataAddr base n) = m (dataAddr base n) :=
  Mem.write64_offset (i := 128) (by decide) (by omega) (by omega)

end Words

/-! ### Counting -/

/-- What the producer knows of the indices, when `a` bytes were published and `b` were returned. -/
def Producer.Knows (a b : Nat) : Producer → Prop
  | .tail _ head => head = UInt64.ofNat a
  | .cap _ head t => head = UInt64.ofNat a ∧ ∃ k ≤ b, t = UInt64.ofNat k ∧ a ≤ k + 3904
  | .store _ head idx => head = UInt64.ofNat a ∧ idx = head % dataCapacity ∧ a < b + 3904
  | .publish _ head => head = UInt64.ofNat a ∧ a < b + 3904
  | _ => True

/-- What the consumer knows of the indices. -/
def Consumer.Knows (a b : Nat) : Consumer → Prop
  | .tail _ h => ∃ k, b ≤ k ∧ k ≤ a ∧ h = UInt64.ofNat k
  | .recheckTail h => ∃ k, b ≤ k ∧ k ≤ a ∧ h = UInt64.ofNat k
  | .disarm t => t = UInt64.ofNat b ∧ b < a
  | .cap t => t = UInt64.ofNat b ∧ b < a
  | .data t idx => t = UInt64.ofNat b ∧ b < a ∧ idx = t % dataCapacity
  | .advance t _ => t = UInt64.ofNat b ∧ b < a
  | _ => True

theorem Producer.Knows.mono {a b b' : Nat} {p : Producer} (h : p.Knows a b) (hb : b ≤ b') :
    p.Knows a b' := by
  cases p with
  | cap byte head t =>
    obtain ⟨hhead, k, hk, ht, ha⟩ := h
    exact ⟨hhead, k, Nat.le_trans hk hb, ht, ha⟩
  | store byte head idx => exact ⟨h.1, h.2.1, by have := h.2.2; omega⟩
  | publish byte head => exact ⟨h.1, by have := h.2; omega⟩
  | idle | tail | flag | returned => exact h

theorem Consumer.Knows.mono {a a' b : Nat} {c : Consumer} (h : c.Knows a b) (ha : a ≤ a') :
    c.Knows a' b := by
  cases c with
  | tail spins head | recheckTail head =>
    obtain ⟨k, hb, hk, hhead⟩ := h
    exact ⟨k, hb, Nat.le_trans hk ha, hhead⟩
  | disarm t | cap t => exact ⟨h.1, Nat.lt_of_lt_of_le h.2 ha⟩
  | data t idx => exact ⟨h.1, Nat.lt_of_lt_of_le h.2.1 ha, h.2.2⟩
  | advance t byte => exact ⟨h.1, Nat.lt_of_lt_of_le h.2 ha⟩
  | idle | head | arm | recheckHead | halt | clear => exact h

/-- The indices count the bytes. -/
structure Counts (base : UInt64) (s : State) : Prop where
  cap : s.mem.read64 (base + capacityOffset) = dataCapacity
  head : s.mem.read64 (base + headOffset) = UInt64.ofNat s.sent.length
  tail : s.mem.read64 (base + tailOffset) = UInt64.ofNat s.returned.length
  le : s.returned.length ≤ s.sent.length
  room : s.sent.length ≤ s.returned.length + 3904
  producer : s.producer.Knows s.sent.length s.returned.length
  consumer : s.consumer.Knows s.sent.length s.returned.length

theorem toNat_ofNat_sub {a k : Nat} (h : k ≤ a) (hle : a ≤ k + 3904) :
    (UInt64.ofNat a - UInt64.ofNat k).toNat = a - k := by
  rw [UInt64.toNat_sub, UInt64.toNat_ofNat', UInt64.toNat_ofNat']
  omega

theorem ofNat_succ (n : Nat) : UInt64.ofNat n + 1 = UInt64.ofNat (n + 1) := by
  rw [UInt64.ofNat_add]
  rfl

theorem dataAddr_mod (base i : UInt64) :
    base + dataOffset + i % dataCapacity = dataAddr base (i.toNat % 3904) := by
  apply dataAddr_eq
  rw [UInt64.toNat_mod, dataCapacity_toNat, Nat.mod_mod]

theorem mod_dataCapacity_lt (i : UInt64) : ¬ i % dataCapacity ≥ dataCapacity := by
  rw [ge_iff_le, UInt64.le_iff_toNat_le, UInt64.toNat_mod, dataCapacity_toNat]
  omega

section Counting

variable {base : UInt64} {s : State}

theorem Counts.producer_step (h : Counts base s) (next : UInt8) :
    Counts base (stepProducer base next s) := by
  obtain ⟨hcap, hhead, htail, hle, hroom, hp, hc⟩ := h
  unfold stepProducer
  cases hpc : s.producer with
  | idle => exact ⟨hcap, hhead, htail, hle, hroom, hhead, hc⟩
  | tail byte head =>
    rw [hpc] at hp
    exact ⟨hcap, hhead, htail, hle, hroom, ⟨hp, _, Nat.le_refl _, htail, hroom⟩, hc⟩
  | cap byte head t =>
    rw [hpc] at hp
    obtain ⟨hh, k, hk, ht, hak⟩ := hp
    dsimp only
    rw [hcap]
    split_ifs with h0 hfull hidx
    · exact ⟨hcap, hhead, htail, hle, hroom, trivial, hc⟩
    · exact ⟨hcap, hhead, htail, hle, hroom, trivial, hc⟩
    · exact ⟨hcap, hhead, htail, hle, hroom, trivial, hc⟩
    · refine ⟨hcap, hhead, htail, hle, hroom, ⟨hh, rfl, ?_⟩, hc⟩
      -- the tail may have moved since it was read, which leaves more room
      rw [ge_iff_le, UInt64.le_iff_toNat_le, hh, ht, toNat_ofNat_sub (Nat.le_trans hk hle) hak,
        dataCapacity_toNat] at hfull
      show s.sent.length < s.returned.length + 3904
      omega
  | store byte head idx =>
    rw [hpc] at hp
    obtain ⟨hh, rfl, hlt⟩ := hp
    dsimp only
    rw [dataAddr_mod]
    exact ⟨by rw [cap_write8, hcap], by rw [head_write8, hhead], by rw [tail_write8, htail], hle, hroom,
      ⟨hh, hlt⟩, hc⟩
  | publish byte head =>
    rw [hpc] at hp
    obtain ⟨rfl, hlt⟩ := hp
    refine ⟨?_, ?_, ?_, ?_, ?_, trivial, ?_⟩
    · exact (cap_write_head ..).trans hcap
    · simp only [Mem.read64_write64_self, List.length_append, List.length_singleton, ofNat_succ]
    · exact (tail_write_head ..).trans htail
    · simp only [List.length_append, List.length_singleton]
      omega
    · simp only [List.length_append, List.length_singleton]
      omega
    · simp only [List.length_append, List.length_singleton]
      exact hc.mono (Nat.le_succ _)
  | flag => exact ⟨hcap, hhead, htail, hle, hroom, trivial, hc⟩
  | returned code => exact ⟨hcap, hhead, htail, hle, hroom, trivial, hc⟩

theorem lt_of_ne_tail {a b k : Nat} (hb : b ≤ k) (hk : k ≤ a) (hne : UInt64.ofNat k ≠ UInt64.ofNat b) :
    b < a := by
  have hkb : k ≠ b := fun heq => hne (by rw [heq])
  omega

theorem Counts.consumer_step (h : Counts base s) : Counts base (stepConsumer base s) := by
  obtain ⟨hcap, hhead, htail, hle, hroom, hp, hc⟩ := h
  unfold stepConsumer
  cases hpc : s.consumer with
  | idle | head =>
    exact ⟨hcap, hhead, htail, hle, hroom, hp, ⟨_, hle, Nat.le_refl _, hhead⟩⟩
  -- The tail is read after the head was: unequal means that there is a byte.
  | tail spins head =>
    rw [hpc] at hc
    obtain ⟨k, hb, hk, rfl⟩ := hc
    dsimp only
    rw [htail]
    split_ifs with heq hspins
    · exact ⟨hcap, hhead, htail, hle, hroom, hp, trivial⟩
    · exact ⟨hcap, hhead, htail, hle, hroom, hp, trivial⟩
    · rw [beq_iff_eq] at heq
      exact ⟨hcap, hhead, htail, hle, hroom, hp, rfl, lt_of_ne_tail hb hk heq⟩
  | arm =>
    exact ⟨(cap_write_waiting ..).trans hcap, (head_write_waiting ..).trans hhead,
      (tail_write_waiting ..).trans htail, hle, hroom, hp, trivial⟩
  | recheckHead =>
    exact ⟨hcap, hhead, htail, hle, hroom, hp, ⟨_, hle, Nat.le_refl _, hhead⟩⟩
  -- The same test once more, behind the store of the flag.
  | recheckTail head =>
    rw [hpc] at hc
    obtain ⟨k, hb, hk, rfl⟩ := hc
    dsimp only
    rw [htail]
    split_ifs with hne
    · rw [bne_iff_ne] at hne
      exact ⟨hcap, hhead, htail, hle, hroom, hp, rfl, lt_of_ne_tail hb hk hne⟩
    · exact ⟨hcap, hhead, htail, hle, hroom, hp, trivial⟩
  | disarm t =>
    rw [hpc] at hc
    exact ⟨(cap_write_waiting ..).trans hcap, (head_write_waiting ..).trans hhead,
      (tail_write_waiting ..).trans htail, hle, hroom, hp, hc⟩
  | halt =>
    dsimp only
    split_ifs
    · exact ⟨hcap, hhead, htail, hle, hroom, hp, trivial⟩
    · exact ⟨hcap, hhead, htail, hle, hroom, hp, by rw [hpc]; trivial⟩
  | clear =>
    exact ⟨(cap_write_waiting ..).trans hcap, (head_write_waiting ..).trans hhead,
      (tail_write_waiting ..).trans htail, hle, hroom, hp, trivial⟩
  | cap t =>
    rw [hpc] at hc
    dsimp only
    rw [hcap]
    split_ifs with h0 hidx
    · exact ⟨hcap, hhead, htail, hle, hroom, hp, trivial⟩
    · exact ⟨hcap, hhead, htail, hle, hroom, hp, trivial⟩
    · exact ⟨hcap, hhead, htail, hle, hroom, hp, hc.1, hc.2, rfl⟩
  | data t idx =>
    rw [hpc] at hc
    exact ⟨hcap, hhead, htail, hle, hroom, hp, hc.1, hc.2.1⟩
  -- Only this step moves the tail, and the byte counts as received.
  | advance t byte =>
    rw [hpc] at hc
    obtain ⟨rfl, hlt⟩ := hc
    refine ⟨?_, ?_, ?_, ?_, ?_, ?_, trivial⟩
    · exact (cap_write_tail ..).trans hcap
    · exact (head_write_tail ..).trans hhead
    · simp only [Mem.read64_write64_self, List.length_append, List.length_singleton, ofNat_succ]
    · simp only [List.length_append, List.length_singleton]
      omega
    · simp only [List.length_append, List.length_singleton]
      omega
    · simp only [List.length_append, List.length_singleton]
      exact hp.mono (Nat.le_succ _)

theorem Counts.step (h : Counts base s) (a : Act) : Counts base (step base s a) := by
  cases a with
  | producer next => exact h.producer_step next
  | consumer => exact h.consumer_step
  | interrupt => exact ⟨h.cap, h.head, h.tail, h.le, h.room, h.producer, h.consumer⟩

theorem start_mem (base : UInt64) (m : Mem) : (start base m).mem = (initRing base m).mem := by
  rw [start]

theorem counts_start (base : UInt64) (m : Mem) : Counts base (start base m) := by
  have hgood := good_initRing base m
  constructor
  case cap => rw [start_mem, hgood.cap]
  case head =>
    apply UInt64.toNat_inj.mp
    rw [start_mem, hgood.head, initRing]
    rfl
  case tail =>
    apply UInt64.toNat_inj.mp
    rw [start_mem, hgood.tail, initRing]
    rfl
  case le => exact Nat.le_refl _
  case room => exact Nat.zero_le _
  case producer => trivial
  case consumer => trivial

end Counting

/-! ### The handshake -/

/-- The consumer has set the flag and not cleared it. -/
def Consumer.Armed : Consumer → Prop
  | .recheckHead | .recheckTail _ | .disarm _ | .halt | .clear => True
  | _ => False

/-- From the arming on, a byte that the consumer does not know of has its wakeup due. -/
structure Handshake (base : UInt64) (s : State) : Prop where
  armed : s.consumer.Armed → s.mem.read64 (base + consumerWaitingOffset) = 1
  recheck : ∀ h, s.consumer = .recheckTail h →
    h = s.mem.read64 (base + headOffset) ∨ WakeupDue base s
  halted : s.consumer = .halt →
    s.mem.read64 (base + headOffset) = s.mem.read64 (base + tailOffset) ∨ WakeupDue base s

section Flag

variable {base : UInt64} {s : State}

/-- A step of the producer that leaves the three words and the consumer alone, and no wakeup due undone,
keeps the handshake. -/
theorem Handshake.of_due {s' : State} (h : Handshake base s) (hconsumer : s'.consumer = s.consumer)
    (hhead : s'.mem.read64 (base + headOffset) = s.mem.read64 (base + headOffset))
    (htail : s'.mem.read64 (base + tailOffset) = s.mem.read64 (base + tailOffset))
    (hwaiting : s'.mem.read64 (base + consumerWaitingOffset) =
      s.mem.read64 (base + consumerWaitingOffset))
    (hdue : WakeupDue base s → WakeupDue base s') : Handshake base s' := by
  constructor
  · intro harmed
    rw [hconsumer] at harmed
    rw [hwaiting]
    exact h.armed harmed
  · intro k hk
    rw [hconsumer] at hk
    rw [hhead]
    exact (h.recheck k hk).imp_right hdue
  · intro hhalt
    rw [hconsumer] at hhalt
    rw [hhead, htail]
    exact (h.halted hhalt).imp_right hdue

theorem Handshake.of_pending {s' : State} (h : Handshake base s) (hflag : s.producer ≠ .flag)
    (hret : s.producer ≠ .returned 2) (hpending : s'.pending = s.pending)
    (hconsumer : s'.consumer = s.consumer)
    (hhead : s'.mem.read64 (base + headOffset) = s.mem.read64 (base + headOffset))
    (htail : s'.mem.read64 (base + tailOffset) = s.mem.read64 (base + tailOffset))
    (hwaiting : s'.mem.read64 (base + consumerWaitingOffset) =
      s.mem.read64 (base + consumerWaitingOffset)) : Handshake base s' := by
  apply h.of_due hconsumer hhead htail hwaiting
  rintro (hpend | hcode | ⟨hpc, -⟩)
  · exact .inl (hpending.trans hpend)
  · exact absurd hcode hret
  · exact absurd hpc hflag

theorem Handshake.producer_step (hc : Counts base s) (h : Handshake base s) (next : UInt8) :
    Handshake base (stepProducer base next s) := by
  have hknows := hc.producer
  unfold stepProducer
  cases hpc : s.producer with
  | idle | tail =>
    exact h.of_pending (by rw [hpc]; nofun) (by rw [hpc]; nofun) rfl rfl rfl rfl rfl
  | cap byte head t =>
    dsimp only
    split_ifs <;> exact h.of_pending (by rw [hpc]; nofun) (by rw [hpc]; nofun) rfl rfl rfl rfl rfl
  | store byte head idx =>
    rw [hpc] at hknows
    obtain ⟨-, rfl, -⟩ := hknows
    dsimp only
    rw [dataAddr_mod]
    exact h.of_pending (by rw [hpc]; nofun) (by rw [hpc]; nofun) rfl rfl (head_write8 ..) (tail_write8 ..)
      (waiting_write8 ..)
  | publish byte head =>
    -- the flag was set before the head moves, so the producer is going to see it
    have hdue : s.consumer.Armed → WakeupDue base
        { s with
          mem := s.mem.write64 (base + headOffset) (head + 1)
          producer := .flag
          sent := s.sent ++ [byte] } := by
      intro harmed
      refine .inr (.inr ⟨rfl, ?_⟩)
      rw [waiting_write_head, h.armed harmed]
      decide
    constructor
    · intro harmed
      exact (waiting_write_head ..).trans (h.armed harmed)
    · intro k hk
      have hk : s.consumer = .recheckTail k := hk
      exact .inr (hdue (by rw [hk]; trivial))
    · intro hhalt
      have hhalt : s.consumer = .halt := hhalt
      exact .inr (hdue (by rw [hhalt]; trivial))
  | flag =>
    refine h.of_due rfl rfl rfl rfl ?_
    rintro (hpend | hcode | ⟨-, hwaiting⟩)
    · exact .inl hpend
    · rw [hpc] at hcode
      cases hcode
    · refine .inr (.inl ?_)
      dsimp only
      rw [if_pos (bne_iff_ne.mpr hwaiting)]
  | returned code =>
    refine h.of_due rfl rfl rfl rfl ?_
    rintro (hpend | hcode | ⟨hflag, -⟩)
    · refine .inl ?_
      dsimp only
      rw [hpend, Bool.true_or]
    · rw [hpc] at hcode
      cases hcode
      refine .inl ?_
      dsimp only
      rw [beq_self_eq_true, Bool.or_true]
    · rw [hpc] at hflag
      cases hflag

theorem Handshake.of_disarmed (h : ¬ s.consumer.Armed) : Handshake base s := by
  constructor
  · intro harmed
    exact absurd harmed h
  · intro k hk
    rw [hk] at h
    exact absurd trivial h
  · intro hhalt
    rw [hhalt] at h
    exact absurd trivial h

theorem Handshake.consumer_step (h : Handshake base s) : Handshake base (stepConsumer base s) := by
  unfold stepConsumer
  cases hpc : s.consumer with
  | idle | head => exact .of_disarmed nofun
  | tail spins head =>
    dsimp only
    split_ifs <;> exact .of_disarmed nofun
  | arm =>
    constructor
    · intro _
      exact Mem.read64_write64_self ..
    · nofun
    · nofun
  | recheckHead =>
    have harmed := h.armed (by rw [hpc]; trivial)
    constructor
    · intro _
      exact harmed
    · intro k hk
      cases hk
      exact .inl rfl
    · nofun
  | recheckTail head =>
    have harmed := h.armed (by rw [hpc]; trivial)
    have hrecheck := h.recheck head hpc
    dsimp only
    split_ifs with hne
    · exact ⟨fun _ => harmed, nofun, nofun⟩
    · refine ⟨fun _ => harmed, nofun, fun _ => ?_⟩
      rw [bne_iff_ne, ne_eq, not_not] at hne
      rw [← hne]
      exact hrecheck.imp_left Eq.symm
  | disarm t => exact .of_disarmed nofun
  | halt =>
    have harmed := h.armed (by rw [hpc]; trivial)
    dsimp only
    split_ifs
    · exact ⟨fun _ => harmed, nofun, nofun⟩
    · exact h
  | clear => exact .of_disarmed nofun
  | cap t =>
    dsimp only
    split_ifs <;> exact .of_disarmed nofun
  | data | advance => exact .of_disarmed nofun

theorem Handshake.step (hc : Counts base s) (h : Handshake base s) (a : Act) :
    Handshake base (step base s a) := by
  cases a with
  | producer next => exact h.producer_step hc next
  | consumer => exact h.consumer_step
  | interrupt => exact h.of_due rfl rfl rfl rfl fun _ => .inl rfl

theorem Handshake.not_lostWakeup (h : Handshake base s) : ¬ LostWakeup base s := by
  rintro ⟨hhalt, hdue, hne⟩
  exact (h.halted hhalt).elim hne hdue

end Flag

/-! ### The bytes -/

/-- The bytes that were returned are the beginning of the stream, and the rest of it is in the ring. -/
structure Intact (base : UInt64) (s : State) : Prop where
  returned : s.returned <+: s.sent
  data : ∀ i, s.returned.length ≤ i → ∀ h : i < s.sent.length, s.mem (dataAddr base i) = s.sent[i]
  stored : ∀ byte head, s.producer = .publish byte head → s.mem (dataAddr base s.sent.length) = byte
  taken : ∀ t byte, s.consumer = .advance t byte → s.sent[s.returned.length]? = some byte

theorem position_eq {base i : UInt64} {n : Nat} (hi : i = UInt64.ofNat n) (hn : n < 2 ^ 64) :
    base + dataOffset + i % dataCapacity = dataAddr base n := by
  apply dataAddr_eq
  apply toNat_mod_capacity
  rw [hi, UInt64.toNat_ofNat', Nat.mod_eq_of_lt hn]

theorem prefix_concat {α : Type} {xs ys : List α} {x : α} (h : xs <+: ys)
    (hx : ys[xs.length]? = some x) : xs ++ [x] <+: ys := by
  obtain ⟨rest, rfl⟩ := h
  rw [List.getElem?_append_right (Nat.le_refl _), Nat.sub_self] at hx
  cases rest with
  | nil => cases hx
  | cons y rest =>
    cases hx
    exact ⟨rest, List.append_assoc ..⟩

section Bytes

variable {base : UInt64} {s : State}

theorem Intact.of_frame {s' : State} (h : Intact base s) (hsent : s'.sent = s.sent)
    (hreturned : s'.returned = s.returned)
    (hmem : ∀ n, s'.mem (dataAddr base n) = s.mem (dataAddr base n))
    (hproducer : ∀ byte head, s'.producer = .publish byte head → s.producer = .publish byte head)
    (hconsumer : ∀ t byte, s'.consumer = .advance t byte → s.consumer = .advance t byte) :
    Intact base s' := by
  obtain ⟨mem, pending, producer, consumer, sent, returned⟩ := s'
  subst hsent hreturned
  constructor
  · exact h.returned
  · intro i hi hlt
    exact (hmem i).trans (h.data i hi hlt)
  · intro byte head hp
    exact (hmem _).trans (h.stored byte head (hproducer byte head hp))
  · intro t byte ht
    exact h.taken t byte (hconsumer t byte ht)

theorem Intact.producer_step (hc : Counts base s) (h : Intact base s) (hlt : s.sent.length < 2 ^ 64)
    (next : UInt8) : Intact base (stepProducer base next s) := by
  have hknows := hc.producer
  unfold stepProducer
  cases hpc : s.producer with
  | idle | tail | flag | returned =>
    exact h.of_frame rfl rfl (fun _ => rfl) nofun (fun _ _ => id)
  | cap byte head t =>
    dsimp only
    split_ifs <;> exact h.of_frame rfl rfl (fun _ => rfl) nofun (fun _ _ => id)
  | store byte head idx =>
    rw [hpc] at hknows
    obtain ⟨hhead, rfl, hroom⟩ := hknows
    dsimp only
    rw [position_eq hhead hlt]
    constructor
    · exact h.returned
    · -- the bytes on the way are fewer than the ring has positions
      intro i hi hi'
      dsimp only at hi hi'
      exact (data_write8_of_ne base s.mem (by omega) byte).trans (h.data i hi hi')
    · intro byte' head' hp
      cases hp
      exact data_write8_self ..
    · exact h.taken
  | publish byte head =>
    dsimp only
    constructor
    · exact h.returned.trans (List.prefix_append ..)
    · intro i hi hi'
      dsimp only at hi hi' ⊢
      rw [data_write_head]
      rcases Nat.lt_or_ge i s.sent.length with hold | hnew
      · rw [List.getElem_append_left hold]
        exact h.data i hi hold
      · have heq : i = s.sent.length := by
          rw [List.length_append, List.length_singleton] at hi'
          omega
        subst heq
        rw [List.getElem_concat_length rfl]
        exact h.stored byte head hpc
    · nofun
    · intro t byte' ht
      have hsome := h.taken t byte' ht
      rw [List.getElem?_append_left (List.getElem?_eq_some_iff.mp hsome).1]
      exact hsome

theorem Intact.consumer_step (hc : Counts base s) (h : Intact base s) (hlt : s.sent.length < 2 ^ 64) :
    Intact base (stepConsumer base s) := by
  have hknows := hc.consumer
  unfold stepConsumer
  cases hpc : s.consumer with
  | idle | head | recheckHead => exact h.of_frame rfl rfl (fun _ => rfl) (fun _ _ => id) nofun
  | tail | recheckTail | cap =>
    dsimp only
    split_ifs <;> exact h.of_frame rfl rfl (fun _ => rfl) (fun _ _ => id) nofun
  | halt =>
    dsimp only
    split_ifs
    · exact h.of_frame rfl rfl (fun _ => rfl) (fun _ _ => id) nofun
    · exact h
  | arm | disarm | clear =>
    exact h.of_frame rfl rfl (fun n => data_write_waiting base s.mem _ n) (fun _ _ => id) nofun
  | data t idx =>
    rw [hpc] at hknows
    obtain ⟨ht, hbehind, rfl⟩ := hknows
    dsimp only
    rw [position_eq ht (Nat.lt_trans hbehind hlt)]
    constructor
    · exact h.returned
    · exact h.data
    · exact h.stored
    · intro t' byte htaken
      cases htaken
      rw [List.getElem?_eq_getElem hbehind, h.data _ (Nat.le_refl _) hbehind]
  | advance t byte =>
    dsimp only
    constructor
    · exact prefix_concat h.returned (h.taken t byte hpc)
    · intro i hi hi'
      dsimp only at hi hi' ⊢
      rw [data_write_tail]
      rw [List.length_append, List.length_singleton] at hi
      exact h.data i (Nat.le_of_succ_le hi) hi'
    · intro byte' head hp
      exact (data_write_tail ..).trans (h.stored byte' head hp)
    · nofun

end Bytes

/-! ### Runs -/

section Runs

variable {base : UInt64} {s : State}

theorem stepProducer_sent_le (next : UInt8) :
    s.sent.length ≤ (stepProducer base next s).sent.length := by
  unfold stepProducer
  cases s.producer with
  | cap byte head t =>
    dsimp only
    split_ifs <;> exact Nat.le_refl _
  | publish byte head =>
    show s.sent.length ≤ (s.sent ++ [byte]).length
    rw [List.length_append]
    exact Nat.le_add_right ..
  | idle | tail | store | flag | returned => exact Nat.le_refl _

theorem stepConsumer_sent : (stepConsumer base s).sent = s.sent := by
  unfold stepConsumer
  cases s.consumer with
  | tail | recheckTail | cap | halt =>
    dsimp only
    split_ifs <;> rfl
  | idle | head | arm | recheckHead | disarm | clear | data | advance => rfl

theorem step_sent_le (a : Act) : s.sent.length ≤ (step base s a).sent.length := by
  cases a with
  | producer next => exact stepProducer_sent_le next
  | consumer =>
    show s.sent.length ≤ (stepConsumer base s).sent.length
    rw [stepConsumer_sent]
  | interrupt => exact Nat.le_refl _

theorem run_sent_le (acts : List Act) : s.sent.length ≤ (run base acts s).sent.length := by
  induction acts generalizing s with
  | nil => exact Nat.le_refl _
  | cons a acts ih => exact Nat.le_trans (step_sent_le a) ih

theorem Intact.step (hc : Counts base s) (h : Intact base s) (a : Act)
    (hlt : (step base s a).sent.length < 2 ^ 64) : Intact base (step base s a) := by
  have hlt' : s.sent.length < 2 ^ 64 := Nat.lt_of_le_of_lt (step_sent_le a) hlt
  cases a with
  | producer next => exact h.producer_step hc hlt' next
  | consumer => exact h.consumer_step hc hlt'
  | interrupt => exact h.of_frame rfl rfl (fun _ => rfl) (fun _ _ => id) (fun _ _ => id)

theorem run_append (acts acts' : List Act) :
    run base (acts ++ acts') s = run base acts' (run base acts s) :=
  List.foldl_append ..

theorem Handshake.run (hc : Counts base s) (h : Handshake base s) (acts : List Act) :
    Handshake base (run base acts s) := by
  induction acts generalizing s with
  | nil => exact h
  | cons a acts ih => exact ih (hc.step a) (h.step hc a)

theorem Intact.run (hc : Counts base s) (h : Intact base s) (acts : List Act)
    (hlt : (run base acts s).sent.length < 2 ^ 64) : Intact base (run base acts s) := by
  induction acts generalizing s with
  | nil => exact h
  | cons a acts ih =>
    exact ih (hc.step a) (h.step hc a (Nat.lt_of_le_of_lt (run_sent_le acts) hlt)) hlt

theorem handshake_start (base : UInt64) (m : Mem) : Handshake base (start base m) :=
  .of_disarmed id

theorem intact_start (base : UInt64) (m : Mem) : Intact base (start base m) :=
  ⟨List.prefix_refl _, fun _ _ h => absurd h (Nat.not_lt_zero _), nofun, nofun⟩

end Runs

/-! ### Whole calls -/

/-- Both sides are between two calls, with these indices. -/
structure Quiet (base : UInt64) (s : State) (head tail : UInt64) (sent returned : List UInt8) : Prop where
  producer : s.producer = .idle
  consumer : s.consumer = .idle
  cap : s.mem.read64 (base + capacityOffset) = dataCapacity
  head : s.mem.read64 (base + headOffset) = head
  tail : s.mem.read64 (base + tailOffset) = tail
  sent : s.sent = sent
  returned : s.returned = returned

/-- A call of the producer that finds room. -/
def pushActs (byte : UInt8) : List Act :=
  List.replicate 7 (.producer byte)

/-- A call of the consumer that finds a byte. -/
def popActs : List Act :=
  List.replicate 5 .consumer

section Calls

variable {base : UInt64} {s : State} {head tail : UInt64} {sent returned : List UInt8}

section Steps

variable (mem : Mem) (pending : Bool) (producer : Producer) (consumer : Consumer) (idx : UInt64)
  (byte : UInt8)

theorem run_cons (a : Act) (acts : List Act) (s : State) :
    run base (a :: acts) s = run base acts (step base s a) :=
  rfl

theorem step_producer_idle :
    step base ⟨mem, pending, .idle, consumer, sent, returned⟩ (.producer byte) =
      ⟨mem, pending, .tail byte (mem.read64 (base + headOffset)), consumer, sent, returned⟩ :=
  rfl

theorem step_producer_tail :
    step base ⟨mem, pending, .tail byte head, consumer, sent, returned⟩ (.producer byte) =
      ⟨mem, pending, .cap byte head (mem.read64 (base + tailOffset)), consumer, sent, returned⟩ :=
  rfl

theorem step_producer_store :
    step base ⟨mem, pending, .store byte head idx, consumer, sent, returned⟩ (.producer byte) =
      ⟨mem.write8 (base + dataOffset + idx) byte, pending, .publish byte head, consumer, sent,
        returned⟩ :=
  rfl

theorem step_producer_publish :
    step base ⟨mem, pending, .publish byte head, consumer, sent, returned⟩ (.producer byte) =
      ⟨mem.write64 (base + headOffset) (head + 1), pending, .flag, consumer, sent ++ [byte], returned⟩ :=
  rfl

theorem step_producer_flag :
    step base ⟨mem, pending, .flag, consumer, sent, returned⟩ (.producer byte) =
      ⟨mem, pending, .returned (if mem.read64 (base + consumerWaitingOffset) != 0 then 2 else 1), consumer,
        sent, returned⟩ :=
  rfl

theorem step_producer_returned (code : UInt64) :
    step base ⟨mem, pending, .returned code, consumer, sent, returned⟩ (.producer byte) =
      ⟨mem, pending || code == 2, .idle, consumer, sent, returned⟩ :=
  rfl

theorem step_consumer_idle :
    step base ⟨mem, pending, producer, .idle, sent, returned⟩ .consumer =
      ⟨mem, pending, producer, .tail 0 (mem.read64 (base + headOffset)), sent, returned⟩ :=
  rfl

theorem step_consumer_data :
    step base ⟨mem, pending, producer, .data tail idx, sent, returned⟩ .consumer =
      ⟨mem, pending, producer, .advance tail (mem (base + dataOffset + idx)), sent, returned⟩ :=
  rfl

theorem step_consumer_advance :
    step base ⟨mem, pending, producer, .advance tail byte, sent, returned⟩ .consumer =
      ⟨mem.write64 (base + tailOffset) (tail + 1), pending, producer, .idle, sent, returned ++ [byte]⟩ :=
  rfl

end Steps

theorem Quiet.push (h : Quiet base s head tail sent returned) (hroom : ¬ head - tail ≥ dataCapacity)
    (byte : UInt8) :
    Quiet base (run base (pushActs byte) s) (head + 1) tail (sent ++ [byte]) returned ∧
      (run base (pushActs byte) s).mem (base + dataOffset + head % dataCapacity) = byte := by
  obtain ⟨mem, pending, producer, consumer, sent', returned'⟩ := s
  obtain ⟨hp, hc, hcap, hhead, htail, hsent, hreturned⟩ := h
  subst hp hc hsent hreturned
  dsimp only at hcap hhead htail
  have hcapStep :
      step base ⟨mem, pending, .cap byte head tail, .idle, sent', returned'⟩ (.producer byte) =
      ⟨mem, pending, .store byte head (head % dataCapacity), .idle, sent', returned'⟩ := by
    unfold step stepProducer
    dsimp only
    rw [hcap, if_neg (by decide), if_neg hroom, if_neg (mod_dataCapacity_lt head)]
  have hrun : ∃ pending', run base (pushActs byte) ⟨mem, pending, .idle, .idle, sent', returned'⟩ =
      ⟨(mem.write8 (base + dataOffset + head % dataCapacity) byte).write64 (base + headOffset) (head + 1),
        pending', .idle, .idle, sent' ++ [byte], returned'⟩ := by
    simp only [pushActs, List.replicate]
    rw [run_cons, step_producer_idle, hhead, run_cons, step_producer_tail, htail, run_cons, hcapStep,
      run_cons, step_producer_store, run_cons, step_producer_publish, run_cons, step_producer_flag,
      run_cons, step_producer_returned]
    exact ⟨_, rfl⟩
  obtain ⟨pending', hrun⟩ := hrun
  rw [hrun, dataAddr_mod]
  constructor
  · constructor
    case producer => rfl
    case consumer => rfl
    case cap => exact (cap_write_head ..).trans ((cap_write8 ..).trans hcap)
    case head => exact Mem.read64_write64_self ..
    case tail => exact (tail_write_head ..).trans ((tail_write8 ..).trans htail)
    case sent => rfl
    case returned => rfl
  · exact (data_write_head ..).trans (data_write8_self ..)

theorem Quiet.pop (h : Quiet base s head tail sent returned) (hne : head ≠ tail) :
    Quiet base (run base popActs s) head (tail + 1) sent
      (returned ++ [s.mem (base + dataOffset + tail % dataCapacity)]) := by
  obtain ⟨mem, pending, producer, consumer, sent', returned'⟩ := s
  obtain ⟨hp, hc, hcap, hhead, htail, hsent, hreturned⟩ := h
  subst hp hc hsent hreturned
  dsimp only at hcap hhead htail
  have htailStep : step base ⟨mem, pending, .idle, .tail 0 head, sent', returned'⟩ .consumer =
      ⟨mem, pending, .idle, .cap tail, sent', returned'⟩ := by
    unfold step stepConsumer
    dsimp only
    rw [htail, if_neg (by simpa using hne)]
  have hcapStep : step base ⟨mem, pending, .idle, .cap tail, sent', returned'⟩ .consumer =
      ⟨mem, pending, .idle, .data tail (tail % dataCapacity), sent', returned'⟩ := by
    unfold step stepConsumer
    dsimp only
    rw [hcap, if_neg (by decide), if_neg (mod_dataCapacity_lt tail)]
  have hrun : run base popActs ⟨mem, pending, .idle, .idle, sent', returned'⟩ =
      ⟨mem.write64 (base + tailOffset) (tail + 1), pending, .idle, .idle, sent',
        returned' ++ [mem (base + dataOffset + tail % dataCapacity)]⟩ := by
    simp only [popActs, List.replicate]
    rw [run_cons, step_consumer_idle, hhead, run_cons, htailStep, run_cons, hcapStep, run_cons,
      step_consumer_data, run_cons, step_consumer_advance]
    rfl
  rw [hrun]
  constructor
  case producer => rfl
  case consumer => rfl
  case cap => exact (cap_write_tail ..).trans hcap
  case head => exact (head_write_tail ..).trans hhead
  case tail => exact Mem.read64_write64_self ..
  case sent => rfl
  case returned => rfl

theorem quiet_start (base : UInt64) (m : Mem) : Quiet base (start base m) 0 0 [] [] := by
  have hcounts := counts_start base m
  exact ⟨rfl, rfl, hcounts.cap, hcounts.head, hcounts.tail, rfl, rfl⟩

end Calls

/-! ### The two sides together -/

/-- **The adaptive consumer loses no wakeup.**  In no run is it halted behind a byte with no wakeup due, and
as long as fewer than 2^64 bytes have been pushed, what its calls have returned is the beginning of the
stream. -/
theorem adaptive_sound (base : UInt64) (m : Mem) (acts : List Act) :
    ¬ LostWakeup base (run base acts (start base m)) ∧
      ((run base acts (start base m)).sent.length < 2 ^ 64 →
        (run base acts (start base m)).returned <+: (run base acts (start base m)).sent) := by
  have hcounts := counts_start base m
  constructor
  · exact ((handshake_start base m).run hcounts acts).not_lostWakeup
  · intro hlt
    exact ((intact_start base m).run hcounts acts hlt).returned

theorem adaptive_sound_pushPop :
    ¬ LostWakeup 0 (run 0 (pushActs 7 ++ popActs) (start 0 fun _ => 0)) ∧
      (run 0 (pushActs 7 ++ popActs) (start 0 fun _ => 0)).returned <+:
        (run 0 (pushActs 7 ++ popActs) (start 0 fun _ => 0)).sent := by
  obtain ⟨hpush, -⟩ := (quiet_start 0 fun _ => 0).push (by decide) 7
  have hpop := hpush.pop (by decide)
  rw [← run_append] at hpop
  have hsound := adaptive_sound 0 (fun _ => 0) (pushActs 7 ++ popActs)
  refine ⟨hsound.1, hsound.2 ?_⟩
  rw [hpop.sent]
  decide

/-! ### The wrap of the head -/

/-- Any number of zero bytes go through the ring one by one. -/
theorem exists_rounds (base : UInt64) (m : Mem) (n : Nat) :
    ∃ acts, Quiet base (run base acts (start base m)) (UInt64.ofNat n) (UInt64.ofNat n)
      (List.replicate n 0) (List.replicate n 0) := by
  induction n with
  | zero => exact ⟨[], quiet_start base m⟩
  | succ n ih =>
    obtain ⟨acts, h⟩ := ih
    have hempty : ¬ UInt64.ofNat n - UInt64.ofNat n ≥ dataCapacity := by
      rw [UInt64.sub_self]
      decide
    obtain ⟨hpush, hbyte⟩ := h.push hempty 0
    have hne : UInt64.ofNat n + 1 ≠ UInt64.ofNat n := by grind
    have hpop := hpush.pop hne
    rw [hbyte, ← run_append, ← run_append, ofNat_succ, ← List.replicate_succ'] at hpop
    exact ⟨_, hpop⟩

/-- Behind them up to 3904 zero bytes can wait in the ring. -/
theorem exists_backlog (base : UInt64) (m : Mem) (n : Nat) {k : Nat} (hk : k ≤ 3904) :
    ∃ acts, Quiet base (run base acts (start base m)) (UInt64.ofNat (n + k)) (UInt64.ofNat n)
      (List.replicate (n + k) 0) (List.replicate n 0) := by
  induction k with
  | zero => exact exists_rounds base m n
  | succ k ih =>
    obtain ⟨acts, h⟩ := ih (Nat.le_of_succ_le hk)
    have hroom : ¬ UInt64.ofNat (n + k) - UInt64.ofNat n ≥ dataCapacity := by
      rw [ge_iff_le, UInt64.le_iff_toNat_le, toNat_ofNat_sub (by omega) (by omega), dataCapacity_toNat]
      omega
    obtain ⟨hpush, -⟩ := h.push hroom 0
    rw [← run_append, ofNat_succ, ← List.replicate_succ'] at hpush
    exact ⟨_, hpush⟩

/-- **A byte out of order after 2^64 pushes.**  The head wraps to 0 while 2944 zeros wait from position 0 on;
the byte that is pushed then takes the place of the first of them. -/
theorem not_next_of_wrap :
    ¬ ∀ (base : UInt64) (m : Mem) (acts : List Act),
      ¬ LostWakeup base (run base acts (start base m)) ∧
        (run base acts (start base m)).returned <+: (run base acts (start base m)).sent := by
  intro hall
  obtain ⟨n, hn⟩ : ∃ n, n + 2944 = 2 ^ 64 := ⟨2 ^ 64 - 2944, by omega⟩
  obtain ⟨acts, h⟩ := exists_backlog 0 (fun _ => 0) n (k := 2944) (by omega)
  have hhead : UInt64.ofNat (n + 2944) = 0 := by
    rw [hn]
    rfl
  have hroom : ¬ (0 : UInt64) - UInt64.ofNat n ≥ dataCapacity := by
    rw [← hhead, ge_iff_le, UInt64.le_iff_toNat_le, toNat_ofNat_sub (by omega) (by omega),
      dataCapacity_toNat]
    omega
  rw [hhead] at h
  obtain ⟨hpush, hbyte⟩ := h.push hroom 1
  have htail : (UInt64.ofNat n).toNat = n := by
    rw [UInt64.toNat_ofNat']
    omega
  have hne : (0 : UInt64) + 1 ≠ UInt64.ofNat n := by
    intro heq
    have hnat := congrArg UInt64.toNat heq
    rw [htail] at hnat
    have hone : ((0 : UInt64) + 1).toNat = 1 := rfl
    omega
  -- both are position 0 of the data
  have hposition : UInt64.ofNat n % dataCapacity = 0 % dataCapacity := by
    rw [← UInt64.toNat_inj, UInt64.toNat_mod, UInt64.toNat_mod, htail, dataCapacity_toNat]
    show n % 3904 = 0
    omega
  have hpop := hpush.pop hne
  rw [hposition, hbyte, ← run_append, ← run_append] at hpop
  have hprefix := (hall 0 (fun _ => 0) (acts ++ (pushActs 1 ++ popActs))).2
  rw [hpop.sent, hpop.returned] at hprefix
  obtain ⟨rest, hrest⟩ := hprefix
  -- the byte at position `n` is the 1 on the one side and a zero on the other
  have hreturned : (List.replicate n (0 : UInt8) ++ [1] ++ rest)[n]? = some 1 := by
    rw [List.append_assoc, List.getElem?_append_right (by simp), List.length_replicate, Nat.sub_self]
    rfl
  have hsent : (List.replicate (n + 2944) (0 : UInt8) ++ [1])[n]? = some 0 := by
    rw [List.getElem?_append_left (by simp), List.getElem?_replicate, if_pos (by omega)]
  rw [hrest, hsent] at hreturned
  exact absurd (Option.some.inj hreturned) (by decide)

end Keuos.Ipc.Adaptive
