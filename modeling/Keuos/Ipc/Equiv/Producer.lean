import Keuos.Ipc.Equiv.Shm

/-!
# The producer of the ring

`PushKnows` is what the producer knows in a call: what was sent, how much room there is, and which
bytes it has copied.  Each rule below carries it over one part of a call: the three loads of the
indices, the copy of a byte or of a block, and the store that moves the head.  `wp_pushBody` puts them
together for every call.
-/

namespace Keuos.Ipc

variable {base : UInt64}

theorem pushWp_bind {α β : Type} {c : Push} (p : MemProg α) (q : α → MemProg β)
    (Q : β → Ring → Ring → Prop) (s s₁ : Ring) :
    PushWp base c (p.bind q) Q s s₁ ↔
      PushWp base c p (fun a s s₁ => PushWp base c (q a) Q s s₁) s s₁ :=
  Protocol.wp_bind ..

/-! ### Knowledge -/

/-- What the producer knows in a call: `S` is sent, there is room for `room` bytes, and `w` is
copied behind `S`. -/
structure PushKnows (base : UInt64) (S w : List UInt8) (room : Nat) (s : Ring) : Prop where
  sent : s.sent = S
  accepted : s.accepted = S
  room_le : S.length + room ≤ s.received.length + 3904
  length_le : w.length ≤ room
  copied : ∀ j, ∀ h : j < w.length, s.mem (dataAddr base (S.length + j)) = w[j]

theorem PushKnows.stable (S w : List UInt8) (room : Nat) :
    (spscProtocol base).Stable .producer (PushKnows base S w room) := by
  rintro s s' - ⟨h₁, h₂, h₃, h₄⟩ hK
  refine ⟨h₁.trans hK.sent, h₂.trans hK.accepted, ?_, hK.length_le, ?_⟩
  · have := hK.room_le
    omega
  · intro j hj
    rw [h₄]
    exact hK.copied j hj

theorem guar_producer {s s' : Ring} (hr : s'.received = s.received) (hs : s.sent <+: s'.sent)
    (hd : ∀ i, s.received.length ≤ i → i < s.sent.length →
      s'.mem (dataAddr base i) = s.mem (dataAddr base i)) :
    (spscProtocol base).Guar .producer s s' := by
  intro j hj
  cases j with
  | producer => exact absurd rfl hj
  | consumer => exact ⟨hr, hs, hd⟩

theorem step_load64 (c : Push) (a : UInt64) (s : Ring) :
    (spscMachine base).step .producer c (.load64 a) s = (s.mem.read64 a, s) := by
  have hzero : moved (base + headOffset) s.mem s.mem = 0 := by
    unfold moved
    rw [UInt64.sub_self]
    rfl
  simp only [spscMachine, MemOp.sem, hzero, Push.supply, Nat.zero_min, List.range_zero,
    List.map_nil, List.append_nil]

theorem step_store8 (c : Push) (n : Nat) (b : UInt8) (s : Ring) :
    ((spscMachine base).step .producer c (.store8 (dataAddr base n) b) s).2 =
      { s with mem := s.mem.write8 (dataAddr base n) b } := by
  have hzero : moved (base + headOffset) s.mem (s.mem.write8 (dataAddr base n) b) = 0 := by
    unfold moved
    rw [head_write8, UInt64.sub_self]
    rfl
  simp only [spscMachine, MemOp.sem, hzero, Push.supply, Nat.zero_min, List.range_zero,
    List.map_nil, List.append_nil]

/-- **Copying a byte into free room** keeps the ring good and touches nothing on the way. -/
theorem Good.store8 {s : Ring} (h : Good base s) {S w : List UInt8} {room : Nat}
    (hK : PushKnows base S w room s) (hroom : w.length < room) (b : UInt8) :
    let s' : Ring := { s with mem := s.mem.write8 (dataAddr base (S.length + w.length)) b }
    Good base s' ∧ (spscProtocol base).Guar .producer s s' ∧
      PushKnows base S (w ++ [b]) room s' := by
  intro s'
  have hlen : s.sent.length = S.length := congrArg List.length hK.sent
  have hle := hK.room_le
  -- the new byte is less than 3904 positions behind every byte on the way
  have hother : ∀ i, s.received.length ≤ i → i < S.length + w.length →
      i % 3904 ≠ (S.length + w.length) % 3904 := by
    intro i hlo hhi
    omega
  have hdata : ∀ i, s.received.length ≤ i → i < S.length + w.length →
      s'.mem (dataAddr base i) = s.mem (dataAddr base i) :=
    fun i hlo hhi => data_write8_of_ne base s.mem (hother i hlo hhi) b
  refine ⟨⟨?_, ?_, ?_, h.received, h.accepted, h.room, ?_⟩, ?_, ⟨hK.sent, hK.accepted, hK.room_le, ?_, ?_⟩⟩
  · rw [cap_write8]
    exact h.cap
  · rw [head_write8]
    exact h.head
  · rw [tail_write8]
    exact h.tail
  · intro i hlo hhi
    have hhi' : i < S.length := hlen ▸ hhi
    rw [hdata i hlo (by omega)]
    exact h.data i hlo hhi
  · exact guar_producer rfl (List.prefix_refl _) fun i hlo hhi => hdata i hlo (by omega)
  · rw [List.length_append, List.length_singleton]
    exact hroom
  · intro j hj
    rw [List.length_append, List.length_singleton] at hj
    by_cases hjw : j < w.length
    · have hlo : s.received.length ≤ S.length := by
        rw [← hlen]
        exact h.received.length_le
      rw [hdata (S.length + j) (by omega) (by omega), hK.copied j hjw,
        List.getElem_append_left hjw]
    · obtain rfl : j = w.length := by omega
      rw [List.getElem_append_right (Nat.le_refl _)]
      simp only [Nat.sub_self, List.getElem_cons_zero]
      exact data_write8_self base s.mem _ b

theorem wp_store8 {α : Type} {c : Push} {S w : List UInt8} {room : Nat} {b : UInt8}
    {k : UInt64 → MemProg α} {Q : α → Ring → Ring → Prop} {a : UInt64}
    (ha : a = dataAddr base (S.length + w.length)) (hroom : w.length < room)
    (hnext : ∀ s s', Good base s' → (spscProtocol base).Guar .producer s s' →
      PushKnows base S (w ++ [b]) room s' → PushWp base c (k 0) Q s s')
    {s s₁ : Ring} (h : Good base s₁) (hguar : (spscProtocol base).Guar .producer s s₁)
    (hK : PushKnows base S w room s₁) :
    PushWp base c (.op (.store8 a b) k) Q s s₁ := by
  subst ha
  refine Protocol.wp_op (PushKnows.stable S w room) ?_ h hguar hK
  intro s₂ h₂ hK₂ _
  rw [step_store8]
  obtain ⟨hgood, hguar', hK'⟩ := Good.store8 h₂ hK₂ hroom b
  exact hnext _ _ hgood hguar' hK'

theorem wp_fastMemcpyIn {α : Type} {c : Push} {S : List UInt8} {room : Nat}
    {k : Unit → MemProg α} {Q : α → Ring → Ring → Prop} (n : Nat) :
    ∀ {dst : UInt64} {src : Nat → UInt8} {w : List UInt8},
      (∀ j, j < n → dst + UInt64.ofNat j = dataAddr base (S.length + w.length + j)) →
      w.length + n ≤ room →
      (∀ s s', Good base s' → (spscProtocol base).Guar .producer s s' →
        PushKnows base S (w ++ (List.range n).map src) room s' → PushWp base c (k ()) Q s s') →
      ∀ {s s₁ : Ring}, Good base s₁ → (spscProtocol base).Guar .producer s s₁ →
        PushKnows base S w room s₁ → PushWp base c ((fastMemcpyIn dst src n).bind k) Q s s₁ := by
  induction n with
  | zero =>
    intro dst src w _ _ hnext s s₁ h hguar hK
    refine hnext s s₁ h hguar ?_
    rw [List.range_zero, List.map_nil, List.append_nil]
    exact hK
  | succ n ih =>
    intro dst src w hdst hroom hnext s s₁ h hguar hK
    have ha : dst = dataAddr base (S.length + w.length) := by
      have := hdst 0 (by omega)
      rwa [show UInt64.ofNat 0 = 0 from rfl, UInt64.add_zero] at this
    refine wp_store8 (k := fun _ => (fastMemcpyIn (dst + 1) (fun i => src (i + 1)) n).bind k) ha
      (by omega) ?_ h hguar hK
    intro s s' h' hguar' hK'
    have hlen : (w ++ [src 0]).length = w.length + 1 := by simp
    refine ih ?_ ?_ ?_ h' hguar' hK'
    · intro j hj
      rw [hlen, UInt64.add_assoc, show (1 : UInt64) = UInt64.ofNat 1 from rfl, ← UInt64.ofNat_add,
        hdst (1 + j) (by omega)]
      congr 1
      omega
    · rw [hlen]
      omega
    · intro s s' h' hguar' hK'
      refine hnext s s' h' hguar' ?_
      rw [List.range_succ_eq_map, List.map_cons, List.map_map]
      rw [List.append_assoc] at hK'
      exact hK'

/-- What the producer knows after it has moved the head. -/
def Published (S w : List UInt8) (s : Ring) : Prop :=
  s.sent = S ++ w ∧ s.accepted = S

theorem Published.stable (S w : List UInt8) :
    (spscProtocol base).Stable .producer (Published S w) := by
  rintro s s' - ⟨h₁, h₂, -, -⟩ ⟨hs, ha⟩
  exact ⟨h₁.trans hs, h₂.trans ha⟩

/-- **Moving the head over the copied bytes sends them.** -/
theorem Good.publish {s : Ring} (h : Good base s) {S w : List UInt8} {room : Nat}
    (hK : PushKnows base S w room s) {v : UInt64} (hv : v.toNat = S.length + w.length) :
    let s' : Ring := { s with mem := s.mem.write64 (base + headOffset) v, sent := S ++ w }
    Good base s' ∧ (spscProtocol base).Guar .producer s s' ∧ Published S w s' := by
  intro s'
  have hsent := hK.sent
  have hroom := hK.room_le
  have hwle := hK.length_le
  refine ⟨⟨?_, ?_, ?_, ?_, ?_, ?_, ?_⟩, ?_, ⟨rfl, hK.accepted⟩⟩
  · rw [cap_write_head]
    exact h.cap
  · rw [Mem.read64_write64_self, hv, List.length_append]
  · rw [tail_write_head]
    exact h.tail
  · exact (hsent ▸ h.received).trans (List.prefix_append S w)
  · show s.accepted <+: S ++ w
    rw [hK.accepted]
    exact List.prefix_append S w
  · show (S ++ w).length ≤ s.received.length + 3904
    rw [List.length_append]
    omega
  · intro i hlo hhi
    show s.mem.write64 (base + headOffset) v (dataAddr base i) = (S ++ w)[i]
    rw [data_write_head]
    by_cases hi : i < S.length
    · rw [List.getElem_append_left hi]
      subst hsent
      exact h.data i hlo hi
    · have hhi' : i < S.length + w.length := by
        rw [← List.length_append]
        exact hhi
      rw [List.getElem_append_right (by omega), ← hK.copied (i - S.length) (by omega)]
      congr 2
      omega
  · refine guar_producer rfl ?_ ?_
    · show s.sent <+: S ++ w
      rw [hsent]
      exact List.prefix_append S w
    · intro i _ _
      exact data_write_head base s.mem v i

theorem wp_publish {α : Type} {c : Push} {S w : List UInt8} {room : Nat} {head n : UInt64}
    {k : UInt64 → MemProg α} {Q : α → Ring → Ring → Prop} (hhead : head.toNat = S.length)
    (hn : n.toNat = w.length) (hsupply : c.supply w.length = w)
    (hnext : ∀ s s', Good base s' → (spscProtocol base).Guar .producer s s' →
      Published S w s' → PushWp base c (k 0) Q s s')
    {s s₁ : Ring} (h : Good base s₁) (hguar : (spscProtocol base).Guar .producer s s₁)
    (hK : PushKnows base S w room s₁) :
    PushWp base c (.op (.store64 (base + headOffset) (head + n)) k) Q s s₁ := by
  refine Protocol.wp_op (PushKnows.stable S w room) ?_ h hguar hK
  intro s₂ h₂ hK₂ hguard
  have hword : s₂.mem.read64 (base + headOffset) = head := by
    rw [← UInt64.toNat_inj, h₂.head, hK₂.sent, hhead]
  have hmoved : moved (base + headOffset) s₂.mem
      (s₂.mem.write64 (base + headOffset) (head + n)) = w.length := by
    unfold moved
    rw [Mem.read64_write64_self, hword, ← hn]
    congr 1
    grind
  have hstep : (spscMachine base).step .producer c (.store64 (base + headOffset) (head + n)) s₂ =
      (0, { s₂ with
        mem := s₂.mem.write64 (base + headOffset) (head + n)
        sent := S ++ w }) := by
    simp only [spscMachine, MemOp.sem, hmoved, hsupply, hK₂.sent]
  rw [hstep]
  have hsmall : S.length + w.length < 2 ^ 64 := by
    have hlt : ((spscMachine base).step .producer c
      (.store64 (base + headOffset) (head + n)) s₂).2.sent.length < 2 ^ 64 := hguard
    rwa [hstep, List.length_append] at hlt
  have hv : (head + n).toNat = S.length + w.length := by
    rw [UInt64.toNat_add, hhead, hn, Nat.mod_eq_of_lt hsmall]
  obtain ⟨hgood, hguar', hpub⟩ := Good.publish h₂ hK₂ hv
  exact hnext _ _ hgood hguar' hpub

theorem done_push {c : Push} {a : PushResult} {S w : List UInt8} {s s₁ : Ring}
    (h : Good base s₁) (hguar : (spscProtocol base).Guar .producer s s₁)
    (hpub : Published S w s₁) (ha : c.supply (c.accepted a) = w) :
    (spscProtocol base).Done (i := .producer) c a s s₁ := by
  obtain ⟨hsent, hacc⟩ := hpub
  have hall : s₁.accepted ++ c.supply (c.accepted a) = s₁.sent := by
    rw [ha, hacc, hsent]
  refine ⟨⟨h.cap, h.head, h.tail, h.received, ?_, h.room, h.data⟩, ?_, hall⟩
  · show s₁.accepted ++ c.supply (c.accepted a) <+: s₁.sent
    rw [hall]
  · intro j hj
    cases j with
    | producer => exact absurd rfl hj
    | consumer => exact hguar .consumer hj

theorem done_reject {c : Push} {a : PushResult} {S w : List UInt8} {room : Nat} {s : Ring}
    (h : Good base s) (hK : PushKnows base S w room s) (ha : c.accepted a = 0) :
    (spscProtocol base).Done (i := .producer) c a s s := by
  refine done_push h (Protocol.guar_refl _ s) (S := S) (w := []) ⟨?_, hK.accepted⟩ ?_
  · rw [hK.sent, List.append_nil]
  · rw [ha]
    simp [Push.supply]

theorem wp_pushIndices {α : Type} {c : Push} {f : UInt64 → UInt64 → UInt64 → MemProg α}
    {Q : α → Ring → Ring → Prop}
    (hnext : ∀ S head tail s, Good base s →
      PushKnows base S [] (3904 - (head.toNat - tail.toNat)) s → head.toNat = S.length →
      tail.toNat ≤ head.toNat → head.toNat - tail.toNat ≤ 3904 →
      PushWp base c (f head tail dataCapacity) Q s s)
    {s : Ring} (h : Good base s) (hidle : s.accepted = s.sent) :
    PushWp base c ((volatileRead (base + headOffset)).bind fun head =>
      (volatileRead (base + tailOffset)).bind fun tail =>
        (volatileRead (base + capacityOffset)).bind fun cap => f head tail cap) Q s s := by
  have hstable₀ : (spscProtocol base).Stable .producer fun s => s.accepted = s.sent := by
    rintro s s' - ⟨h₁, h₂, -, -⟩ hs
    rw [h₁, h₂, hs]
  refine Protocol.wp_op hstable₀ ?_ h (Protocol.guar_refl _ s) hidle
  intro s₁ h₁ hidle₁ _
  rw [step_load64]
  -- the head is the producer's own, so nothing more is sent while it waits
  have hstable₁ : (spscProtocol base).Stable .producer fun s =>
      s.sent = s₁.sent ∧ s.accepted = s₁.sent := by
    rintro s s' - ⟨h₁, h₂, -, -⟩ ⟨hs, ha⟩
    exact ⟨h₁.trans hs, h₂.trans ha⟩
  refine Protocol.wp_op hstable₁ ?_ h₁ (Protocol.guar_refl _ s₁) ⟨rfl, hidle₁⟩
  rintro s₂ h₂ ⟨hsent₂, hacc₂⟩ -
  rw [step_load64]
  have hlen₂ : s₂.sent.length = s₁.sent.length := congrArg List.length hsent₂
  have hle := h₂.received.length_le
  have hroom := h₂.room
  have hK : PushKnows base s₁.sent []
      (3904 - ((s₁.mem.read64 (base + headOffset)).toNat -
        (s₂.mem.read64 (base + tailOffset)).toNat)) s₂ := by
    refine ⟨hsent₂, hacc₂, ?_, Nat.zero_le _, ?_⟩
    · rw [h₁.head, h₂.tail]
      omega
    · intro j hj
      exact absurd hj (Nat.not_lt_zero j)
  refine Protocol.wp_op (PushKnows.stable _ _ _) ?_ h₂ (Protocol.guar_refl _ s₂) hK
  intro s₃ h₃ hK₃ _
  rw [step_load64, h₃.cap]
  refine hnext _ _ _ s₃ h₃ hK₃ h₁.head ?_ ?_
  · rw [h₁.head, h₂.tail]
    omega
  · rw [h₁.head, h₂.tail]
    omega

/-! ### Rules for blocks -/

theorem wp_copyIn {α : Type} {c : Push} {S w : List UInt8} {room : Nat} {start count : UInt64}
    {src : Nat → UInt8} {k : Unit → MemProg α} {Q : α → Ring → Ring → Prop}
    (hstart : start.toNat = (S.length + w.length) % 3904) (hroom : w.length + count.toNat ≤ room)
    (hroom_le : room ≤ 3904)
    (hnext : ∀ s s', Good base s' → (spscProtocol base).Guar .producer s s' →
      PushKnows base S (w ++ (List.range count.toNat).map src) room s' →
      PushWp base c (k ()) Q s s')
    {s s₁ : Ring} (h : Good base s₁) (hguar : (spscProtocol base).Guar .producer s s₁)
    (hK : PushKnows base S w room s₁) :
    PushWp base c ((copyIn base dataCapacity start src count).bind k) Q s s₁ := by
  unfold copyIn
  extract_lets seg1Len first second
  have hfirst : first.toNat = min count.toNat (3904 - start.toNat) :=
    (toNat_segments (by omega)).1
  have hsecond : second.toNat = count.toNat - first.toNat :=
    (toNat_segments (by omega)).2
  have hdst : ∀ j, j < first.toNat → base + dataOffset + start + UInt64.ofNat j =
      dataAddr base (S.length + w.length + j) := by
    intro j hj
    rw [UInt64.add_assoc (base + dataOffset)]
    apply dataAddr_eq
    rw [UInt64.toNat_add, UInt64.toNat_ofNat', hstart]
    omega
  clear_value second first
  rw [pushWp_bind, Prog.bind_eq]
  refine wp_fastMemcpyIn first.toNat hdst (by omega) ?_ h hguar hK
  intro s s' h' hguar' hK'
  by_cases hzero : second > 0
  · rw [if_pos hzero]
    -- the first segment has reached the end of the data
    rw [gt_iff_lt, UInt64.lt_iff_toNat_lt, hsecond, UInt64.toNat_zero] at hzero
    have hwrap : ∀ j, j < second.toNat → base + dataOffset + UInt64.ofNat j =
        dataAddr base (S.length + (w ++ (List.range first.toNat).map src).length + j) := by
      intro j hj
      apply dataAddr_eq
      rw [UInt64.toNat_ofNat', List.length_append, List.length_map, List.length_range]
      omega
    rw [← pushWp_bind]
    refine wp_fastMemcpyIn second.toNat hwrap ?_ ?_ h' hguar' hK'
    · rw [List.length_append, List.length_map, List.length_range]
      omega
    · intro s s' h' hguar' hK'
      refine hnext s s' h' hguar' ?_
      have hcount : count.toNat = first.toNat + second.toNat := by omega
      rw [hcount, List.range_add, List.map_append, List.map_map, ← List.append_assoc]
      exact hK'
  · rw [if_neg hzero]
    refine hnext s s' h' hguar' ?_
    rw [gt_iff_lt, UInt64.lt_iff_toNat_lt, hsecond, UInt64.toNat_zero] at hzero
    have hcount : count.toNat = first.toNat := by omega
    rw [hcount]
    exact hK'

theorem wp_pushByte {α : Type} {c : Push} {S : List UInt8} {room : Nat} {head : UInt64}
    {byte : UInt8} {k : Unit → MemProg α} {Q : α → Ring → Ring → Prop}
    (hhead : head.toNat = S.length) (hroom : 0 < room) (hsupply : c.supply 1 = [byte])
    (hnext : ∀ s s', Good base s' → (spscProtocol base).Guar .producer s s' →
      Published S [byte] s' → PushWp base c (k ()) Q s s')
    {s : Ring} (h : Good base s) (hK : PushKnows base S [] room s) :
    PushWp base c ((store8 (base + dataOffset + head % dataCapacity) byte).bind fun _ =>
      (volatileWrite (base + headOffset) (head + 1)).bind k) Q s s := by
  have haddr : base + dataOffset + head % dataCapacity =
      dataAddr base (S.length + ([] : List UInt8).length) :=
    dataAddr_eq base (toNat_mod_capacity hhead)
  refine wp_store8 haddr hroom ?_ h (Protocol.guar_refl _ s) hK
  intro s s' h' hguar' hK'
  exact wp_publish (n := 1) hhead rfl hsupply hnext h' hguar' hK'

theorem wp_spscPush (byte : UInt8) {s : Ring} (h : Good base s) (hidle : s.accepted = s.sent) :
    PushWp base (.push byte) (spscPush base byte)
      (fun b => (spscProtocol base).Done (i := .producer) (Push.push byte) (PushResult.flag b)) s s := by
  refine wp_pushIndices ?_ h hidle
  intro S head tail s h hK hhead hle hroom
  rw [if_neg (by decide)]
  by_cases hfull : head - tail ≥ dataCapacity
  · rw [if_pos hfull]
    exact done_reject h hK rfl
  · rw [if_neg hfull]
    rw [ge_iff_le, UInt64.le_iff_toNat_le, toNat_sub_indices hle, dataCapacity_toNat] at hfull
    have hidx : ¬ head % dataCapacity ≥ dataCapacity := by
      rw [ge_iff_le, UInt64.le_iff_toNat_le, toNat_mod_capacity hhead, dataCapacity_toNat]
      omega
    dsimp only
    rw [if_neg hidx]
    refine wp_pushByte hhead (by omega) rfl ?_ h hK
    intro s s' h' hguar' hpub
    exact done_push h' hguar' hpub rfl

theorem wp_spscPushWake (byte : UInt8) {s : Ring} (h : Good base s)
    (hidle : s.accepted = s.sent) :
    PushWp base (.wake byte) (spscPushWake base byte)
      (fun n => (spscProtocol base).Done (i := .producer) (Push.wake byte) (PushResult.code n)) s s := by
  refine wp_pushIndices ?_ h hidle
  intro S head tail s h hK hhead hle hroom
  rw [if_neg (by decide)]
  by_cases hfull : head - tail ≥ dataCapacity
  · rw [if_pos hfull]
    exact done_reject h hK rfl
  · rw [if_neg hfull]
    rw [ge_iff_le, UInt64.le_iff_toNat_le, toNat_sub_indices hle, dataCapacity_toNat] at hfull
    have hidx : ¬ head % dataCapacity ≥ dataCapacity := by
      rw [ge_iff_le, UInt64.le_iff_toNat_le, toNat_mod_capacity hhead, dataCapacity_toNat]
      omega
    dsimp only
    rw [if_neg hidx]
    refine wp_pushByte hhead (by omega) rfl ?_ h hK
    intro s s' h' hguar' hpub
    -- the bytes are published, whatever the waiting flag says
    refine Protocol.wp_op (Published.stable S [byte]) ?_ h' hguar' hpub
    intro s₂ h₂ hpub₂ _
    rw [step_load64]
    refine done_push h₂ (Protocol.guar_refl _ s₂) hpub₂ ?_
    show (Push.wake byte).supply ((Push.wake byte).accepted (.code (if _ then 2 else 1))) = [byte]
    split <;> rfl

theorem clamp_dataCapacity :
    (if dataCapacity > dataCapacity then dataCapacity else dataCapacity) = dataCapacity := rfl

theorem supply_bulk (src : Nat → UInt8) {len : UInt64} {n : Nat} (h : n ≤ len.toNat) :
    (Push.bulk src len).supply n = (List.range n).map src := by
  unfold Push.supply
  rw [show (Push.bulk src len).size = len.toNat from rfl, Nat.min_eq_left h]
  rfl

theorem wp_spscPushBulk (src : Nat → UInt8) (len : UInt64) {s : Ring} (h : Good base s)
    (hidle : s.accepted = s.sent) :
    PushWp base (.bulk src len) (spscPushBulk base src len)
      (fun n => (spscProtocol base).Done (i := .producer) (Push.bulk src len) (PushResult.count n))
      s s := by
  refine wp_pushIndices ?_ h hidle
  intro S head tail s h hK hhead hle hroom
  rw [if_neg (by decide)]
  extract_lets cap avail count₀ count
  have hcap : cap = dataCapacity := rfl
  have havail : avail.toNat = 3904 - (head.toNat - tail.toNat) := toNat_room hle hroom
  have hcount₀ : count₀.toNat = min len.toNat avail.toNat := by
    show (if len < avail then len else avail).toNat = _
    exact toNat_ite_lt len avail
  -- the second bound never takes effect
  have hcount : count = count₀ := by
    show (if count₀ > cap then cap else count₀) = _
    rw [if_neg]
    rw [gt_iff_lt, UInt64.lt_iff_toNat_lt, hcap, dataCapacity_toNat]
    omega
  clear_value count count₀ avail cap
  subst hcap hcount
  by_cases hbad : (decide (tail > head) || decide (head - tail > dataCapacity)) = true
  · rw [if_pos hbad]
    exact done_reject h hK rfl
  rw [if_neg hbad]
  by_cases hnone : (count == 0) = true
  · rw [if_pos hnone]
    exact done_reject h hK rfl
  rw [if_neg hnone]
  have hstart : (head % dataCapacity).toNat = (S.length + ([] : List UInt8).length) % 3904 :=
    toNat_mod_capacity hhead
  have hcapacity : 3904 - (head.toNat - tail.toNat) ≤ 3904 := Nat.sub_le _ _
  -- the bytes go to positions that the consumer does not read before the head moves
  refine wp_copyIn hstart ?_ hcapacity ?_ h (Protocol.guar_refl _ s) hK
  · rw [List.length_nil]
    omega
  intro s s' h' hguar' hK'
  have hlen : count.toNat = ([] ++ (List.range count.toNat).map src).length := by simp
  have hsupply : (Push.bulk src len).supply count.toNat = (List.range count.toNat).map src :=
    supply_bulk src (by omega)
  refine wp_publish hhead hlen ?_ ?_ h' hguar' hK'
  · rw [← hlen]
    exact hsupply
  · intro s s' h' hguar' hpub
    exact done_push h' hguar' hpub hsupply

theorem toUInt8_and_mask (v : UInt64) : (v &&& 0xFF).toUInt8 = v.toUInt8 := by
  rw [← UInt8.toNat_inj, UInt64.toNat_toUInt8, UInt64.toNat_toUInt8, UInt64.toNat_and]
  have hmask := Nat.and_two_pow_sub_one_eq_mod v.toNat 8
  rw [show (0xFF : UInt64).toNat = 2 ^ 8 - 1 from rfl, hmask, Nat.mod_mod]

theorem toUInt8_length_high (len : UInt16) :
    (len.toUInt64 >>> 8).toUInt8 = (len >>> 8).toUInt8 := by
  rw [← UInt8.toNat_inj]
  simp

theorem supply_frame (src : Nat → UInt8) (len : UInt16) :
    (Push.frame src len).supply (len.toNat + 2) =
      [len.toUInt8, (len >>> 8).toUInt8] ++ (List.range len.toNat).map src := by
  unfold Push.supply
  rw [show (Push.frame src len).size = len.toNat + 2 from rfl, Nat.min_self, List.range_succ_eq_map,
    List.range_succ_eq_map, List.map_cons, List.map_cons, List.map_cons, List.map_map, List.map_map]
  rfl

theorem wp_spscPushFrame (src : Nat → UInt8) (len : UInt16) {s : Ring} (h : Good base s)
    (hidle : s.accepted = s.sent) :
    PushWp base (.frame src len) (spscPushFrame base src len.toUInt64)
      (fun b => (spscProtocol base).Done (i := .producer) (Push.frame src len) (PushResult.flag b))
      s s := by
  refine wp_pushIndices ?_ h hidle
  intro S head tail s h hK hhead hle hroom
  rw [if_neg (by decide)]
  extract_lets cap totalLen avail startIdx nextIdx dataStart
  have hlen : len.toUInt64.toNat = len.toNat := UInt16.toNat_toUInt64 len
  have hsmall := len.toNat_lt
  have htotal : totalLen.toNat = len.toNat + 2 := by
    show (len.toUInt64 + 2).toNat = _
    rw [UInt64.toNat_add, hlen, show (2 : UInt64).toNat = 2 from rfl, Nat.mod_eq_of_lt (by omega)]
  have havail : avail.toNat = 3904 - (head.toNat - tail.toNat) := toNat_room hle hroom
  have hstart : startIdx.toNat = S.length % 3904 := toNat_mod_capacity hhead
  have hnextIdx : nextIdx.toNat = (S.length + 1) % 3904 := toNat_next hstart
  have hdata : dataStart.toNat = (S.length + 2) % 3904 := toNat_next hnextIdx
  have hcap : cap = dataCapacity := rfl
  clear_value dataStart nextIdx startIdx avail totalLen cap
  subst hcap
  by_cases hbad : (decide (tail > head) || decide (head - tail ≥ dataCapacity)) = true
  · rw [if_pos hbad]
    exact done_reject h hK rfl
  rw [if_neg hbad]
  by_cases hfull : avail < totalLen
  · rw [if_pos hfull]
    exact done_reject h hK rfl
  rw [if_neg hfull, toUInt8_and_mask, toUInt8_and_mask, toUInt8_length_high]
  rw [UInt64.lt_iff_toNat_lt, havail, htotal] at hfull
  -- the length, low byte first
  refine wp_store8 (dataAddr_eq base hstart) (by rw [List.length_nil]; omega) ?_ h
    (Protocol.guar_refl _ s) hK
  intro s s' h hguar hK
  refine wp_store8 (dataAddr_eq base hnextIdx) (by simp; omega) ?_ h hguar hK
  intro s s' h hguar hK
  -- the payload
  refine wp_copyIn hdata ?_ (Nat.sub_le _ _) ?_ h hguar hK
  · simp
    omega
  intro s s' h hguar hK
  rw [hlen] at hK
  have hw : totalLen.toNat =
      ([] ++ [len.toUInt8] ++ [(len >>> 8).toUInt8] ++ (List.range len.toNat).map src).length := by
    rw [htotal]
    simp
  have hsupply := supply_frame src len
  refine wp_publish hhead hw ?_ ?_ h hguar hK
  · rw [← hw, htotal]
    exact hsupply
  · intro s s' h hguar hpub
    exact done_push h hguar hpub hsupply

/-- **Every call of the producer keeps the protocol.** -/
theorem wp_pushBody (c : Push) {s : Ring} (h : Good base s) (hidle : s.accepted = s.sent) :
    PushWp base c (c.body base) ((spscProtocol base).Done (i := .producer) c) s s := by
  cases c with
  | push byte => exact (pushWp_bind ..).mpr (wp_spscPush byte h hidle)
  | bulk src len => exact (pushWp_bind ..).mpr (wp_spscPushBulk src len h hidle)
  | frame src len => exact (pushWp_bind ..).mpr (wp_spscPushFrame src len h hidle)
  | wake byte => exact (pushWp_bind ..).mpr (wp_spscPushWake byte h hidle)

end Keuos.Ipc
