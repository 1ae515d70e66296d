import Keuos.Ipc.Equiv.Shm
import Mathlib.Data.List.Infix

/-!
# The consumer of the ring

`PopKnows` is what the consumer knows in a call: what was received, how many bytes are there to take,
and which of them it has copied out.  The bytes are received when the tail moves over them, which is
the last operation of every call that takes any (`wp_take`).
-/

namespace Keuos.Ipc

variable {base : UInt64}

theorem popWp_bind {α β : Type} {c : Pop} (p : MemProg α) (q : α → MemProg β)
    (Q : β → Ring → Ring → Prop) (s s₁ : Ring) :
    PopWp base c (p.bind q) Q s s₁ ↔
      PopWp base c p (fun a s s₁ => PopWp base c (q a) Q s s₁) s s₁ :=
  Protocol.wp_bind ..

/-! ### Knowledge -/

/-- What the consumer knows in a call: `T` is received, `avail` more bytes are sent, and `got` are
the first of them. -/
structure PopKnows (T got : List UInt8) (avail : Nat) (s : Ring) : Prop where
  received : s.received = T
  avail_le : T.length + avail ≤ s.sent.length
  length_le : got.length ≤ avail
  copied : T ++ got <+: s.sent

theorem PopKnows.stable (T got : List UInt8) (avail : Nat) :
    (spscProtocol base).Stable .consumer (PopKnows T got avail) := by
  rintro s s' - ⟨h₁, h₂, -⟩ hK
  refine ⟨h₁.trans hK.received, ?_, hK.length_le, hK.copied.trans h₂⟩
  exact Nat.le_trans hK.avail_le h₂.length_le

theorem guar_consumer {s s' : Ring} (hs : s'.sent = s.sent) (ha : s'.accepted = s.accepted)
    (hr : s.received.length ≤ s'.received.length)
    (hd : ∀ n, s'.mem (dataAddr base n) = s.mem (dataAddr base n)) :
    (spscProtocol base).Guar .consumer s s' := by
  intro j hj
  cases j with
  | producer => exact ⟨hs, ha, hr, hd⟩
  | consumer => exact absurd rfl hj

/-- **The next byte of the stream lies in the ring.** -/
theorem Good.load8 {s : Ring} (h : Good base s) {T got : List UInt8} {avail : Nat}
    (hK : PopKnows T got avail s) (hlt : got.length < avail) :
    PopKnows T (got ++ [s.mem (dataAddr base (T.length + got.length))]) avail s := by
  have hle := hK.avail_le
  have hi : T.length + got.length < s.sent.length := by omega
  have hbyte := h.data (T.length + got.length) (by rw [hK.received]; omega) hi
  refine ⟨hK.received, hle, ?_, ?_⟩
  · rw [List.length_append, List.length_singleton]
    exact hlt
  · rw [hbyte, ← List.append_assoc]
    have hlen : T.length + got.length = (T ++ got).length := List.length_append.symm
    simp only [hlen]
    exact List.concat_get_prefix hK.copied (hlen ▸ hi)

/-! ### Rules -/

theorem wp_load8 {α : Type} {c : Pop} {T got : List UInt8} {avail : Nat}
    {k : UInt8 → MemProg α} {Q : α → Ring → Ring → Prop} {a : UInt64}
    (ha : a = dataAddr base (T.length + got.length)) (hlt : got.length < avail)
    (hnext : ∀ b s, Good base s → PopKnows T (got ++ [b]) avail s → PopWp base c (k b) Q s s)
    {s : Ring} (h : Good base s) (hK : PopKnows T got avail s) :
    PopWp base c ((load8 a).bind k) Q s s := by
  subst ha
  refine Protocol.wp_op (PopKnows.stable T got avail) ?_ h (Protocol.guar_refl _ s) hK
  intro s₂ h₂ hK₂ _
  show PopWp base c (k (s₂.mem (dataAddr base (T.length + got.length))).toUInt64.toUInt8) Q s₂ s₂
  rw [UInt8.toUInt8_toUInt64]
  exact hnext _ s₂ h₂ (Good.load8 h₂ hK₂ hlt)

theorem wp_fastMemcpyOut {c : Pop} {T : List UInt8} {avail : Nat} (n : Nat) :
    ∀ {src : UInt64} {got : List UInt8} {Q : List UInt8 → Ring → Ring → Prop},
      (∀ j, j < n → src + UInt64.ofNat j = dataAddr base (T.length + got.length + j)) →
      got.length + n ≤ avail →
      (∀ bytes s, bytes.length = n → Good base s → PopKnows T (got ++ bytes) avail s →
        Q bytes s s) →
      ∀ {s : Ring}, Good base s → PopKnows T got avail s →
        PopWp base c (fastMemcpyOut src n) Q s s := by
  induction n with
  | zero =>
    intro src got Q _ _ hnext s h hK
    refine hnext [] s rfl h ?_
    rw [List.append_nil]
    exact hK
  | succ n ih =>
    intro src got Q hsrc hlt hnext s h hK
    have ha : src = dataAddr base (T.length + got.length) := by
      have := hsrc 0 (by omega)
      rwa [show UInt64.ofNat 0 = 0 from rfl, UInt64.add_zero] at this
    refine wp_load8 ha (by omega) ?_ h hK
    intro b s h hK
    have hlen : (got ++ [b]).length = got.length + 1 := by simp
    refine (popWp_bind ..).mpr (ih ?_ ?_ ?_ h hK)
    · intro j hj
      rw [hlen, UInt64.add_assoc, show (1 : UInt64) = UInt64.ofNat 1 from rfl, ← UInt64.ofNat_add,
        hsrc (1 + j) (by omega)]
      congr 1
      omega
    · rw [hlen]
      omega
    · intro bytes s hbytes h hK
      refine hnext (b :: bytes) s ?_ h ?_
      · rw [List.length_cons, hbytes]
      · rwa [List.append_assoc] at hK

theorem wp_copyOut {c : Pop} {T : List UInt8} {avail : Nat} {start count : UInt64}
    {Q : List UInt8 → Ring → Ring → Prop}
    (hstart : start.toNat = T.length % 3904) (hcount : count.toNat ≤ avail)
    (hcap : count.toNat ≤ 3904)
    (hnext : ∀ bytes s, bytes.length = count.toNat → Good base s → PopKnows T bytes avail s →
      Q bytes s s)
    {s : Ring} (h : Good base s) (hK : PopKnows T [] avail s) :
    PopWp base c (copyOut base dataCapacity start count) Q s s := by
  unfold copyOut
  extract_lets seg1Len first second
  have hfirst : first.toNat = min count.toNat (3904 - start.toNat) :=
    (toNat_segments (by omega)).1
  have hsecond : second.toNat = count.toNat - first.toNat :=
    (toNat_segments (by omega)).2
  have hsrc : ∀ j, j < first.toNat → base + dataOffset + start + UInt64.ofNat j =
      dataAddr base (T.length + ([] : List UInt8).length + j) := by
    intro j hj
    rw [UInt64.add_assoc (base + dataOffset)]
    apply dataAddr_eq
    rw [UInt64.toNat_add, UInt64.toNat_ofNat', hstart, List.length_nil]
    omega
  clear_value second first
  refine (popWp_bind ..).mpr (wp_fastMemcpyOut first.toNat hsrc ?_ ?_ h hK)
  · rw [List.length_nil]
    omega
  intro xs s hxs h hK
  by_cases hzero : second > 0
  · rw [if_pos hzero]
    -- the first segment has reached the end of the data
    rw [gt_iff_lt, UInt64.lt_iff_toNat_lt, hsecond, UInt64.toNat_zero] at hzero
    have hwrap : ∀ j, j < second.toNat → base + dataOffset + UInt64.ofNat j =
        dataAddr base (T.length + ([] ++ xs).length + j) := by
      intro j hj
      apply dataAddr_eq
      rw [UInt64.toNat_ofNat', List.nil_append]
      omega
    refine (popWp_bind ..).mpr (wp_fastMemcpyOut second.toNat hwrap ?_ ?_ h hK)
    · rw [List.nil_append]
      omega
    · intro ys s hys h hK
      refine hnext (xs ++ ys) s ?_ h hK
      rw [List.length_append]
      omega
  · rw [if_neg hzero]
    rw [gt_iff_lt, UInt64.lt_iff_toNat_lt, hsecond, UInt64.toNat_zero] at hzero
    refine hnext xs s ?_ h hK
    omega

theorem done_nothing {c : Pop} {a : PopResult} {s : Ring} (h : Good base s) :
    (spscProtocol base).Done (i := .consumer) c a s s := by
  have hzero : moved (base + tailOffset) s.mem s.mem = 0 := by
    unfold moved
    rw [UInt64.sub_self]
    rfl
  have hfinish : (spscMachine base).finish .consumer c a s s = s := by
    show { s with received := s.received ++ a.bytes.take (moved (base + tailOffset) s.mem s.mem) } = s
    rw [hzero, List.take_zero, List.append_nil]
  refine ⟨?_, ?_, trivial⟩
  · rw [hfinish]
    exact h
  · rw [hfinish]
    exact Protocol.guar_refl _ s

/-- **Moving the tail over the copied bytes receives them.** -/
theorem Good.take {s : Ring} (h : Good base s) {T got : List UInt8} {avail : Nat}
    (hK : PopKnows T got avail s) {v : UInt64} (hv : v.toNat = T.length + got.length) :
    let s' : Ring := { s with mem := s.mem.write64 (base + tailOffset) v, received := T ++ got }
    Good base s' ∧ (spscProtocol base).Guar .consumer s s' := by
  intro s'
  have hrec := hK.received
  refine ⟨⟨?_, ?_, ?_, hK.copied, h.accepted, ?_, ?_⟩, ?_⟩
  · rw [cap_write_tail]
    exact h.cap
  · rw [head_write_tail]
    exact h.head
  · rw [Mem.read64_write64_self, hv, List.length_append]
  · show s.sent.length ≤ (T ++ got).length + 3904
    have hroom := h.room
    rw [hrec] at hroom
    rw [List.length_append]
    omega
  · intro i hlo hhi
    show s.mem.write64 (base + tailOffset) v (dataAddr base i) = s.sent[i]
    have hlo' : T.length + got.length ≤ i := by
      rw [← List.length_append]
      exact hlo
    rw [data_write_tail]
    exact h.data i (by rw [hrec]; omega) hhi
  · refine guar_consumer rfl rfl ?_ ?_
    · show s.received.length ≤ (T ++ got).length
      rw [hrec, List.length_append]
      omega
    · intro n
      exact data_write_tail base s.mem v n

theorem wp_take {α : Type} {c : Pop} {T got : List UInt8} {avail : Nat} {tail n : UInt64}
    {f : α → PopResult} {x : α} (htail : tail.toNat = T.length) (hn : n.toNat = got.length)
    (hbytes : (f x).bytes = got) {s : Ring} (h : Good base s) (hK : PopKnows T got avail s) :
    PopWp base c ((volatileWrite (base + tailOffset) (tail + n)).bind fun _ => .ret x)
      (fun x => (spscProtocol base).Done (i := .consumer) c (f x)) s s := by
  refine Protocol.wp_op (PopKnows.stable T got avail) ?_ h (Protocol.guar_refl _ s) hK
  intro s₂ h₂ hK₂ _
  have hword : s₂.mem.read64 (base + tailOffset) = tail := by
    rw [← UInt64.toNat_inj, h₂.tail, hK₂.received, htail]
  have hmoved : moved (base + tailOffset) s₂.mem
      (s₂.mem.write64 (base + tailOffset) (tail + n)) = got.length := by
    unfold moved
    rw [Mem.read64_write64_self, hword, ← hn]
    congr 1
    grind
  have hsmall : T.length + got.length < 2 ^ 64 := by
    have hlt := (s₂.mem.read64 (base + headOffset)).toNat_lt
    have hle := hK₂.copied.length_le
    rw [h₂.head] at hlt
    rw [List.length_append] at hle
    omega
  have hv : (tail + n).toNat = T.length + got.length := by
    rw [UInt64.toNat_add, htail, hn, Nat.mod_eq_of_lt hsmall]
  have hfinish : (spscMachine base).finish .consumer c (f x) s₂
      { s₂ with mem := s₂.mem.write64 (base + tailOffset) (tail + n) } =
      { s₂ with
        mem := s₂.mem.write64 (base + tailOffset) (tail + n)
        received := T ++ got } := by
    simp only [spscMachine, hmoved, hbytes, List.take_length, hK₂.received]
  obtain ⟨hgood, hguar⟩ := Good.take h₂ hK₂ hv
  refine ⟨?_, ?_, trivial⟩
  · exact hfinish ▸ hgood
  · exact hfinish ▸ hguar

theorem wp_popIndices {α : Type} {c : Pop} {f : UInt64 → UInt64 → MemProg α}
    {Q : α → Ring → Ring → Prop}
    (hnext : ∀ T head tail s, Good base s → PopKnows T [] (head.toNat - tail.toNat) s →
      tail.toNat = T.length → tail.toNat ≤ head.toNat → head.toNat - tail.toNat ≤ 3904 →
      PopWp base c (f head tail) Q s s)
    {s : Ring} (h : Good base s) :
    PopWp base c ((volatileRead (base + headOffset)).bind fun head =>
      (volatileRead (base + tailOffset)).bind fun tail => f head tail) Q s s := by
  have hstable₀ : (spscProtocol base).Stable .consumer fun _ => True := fun _ _ _ _ _ => trivial
  refine Protocol.wp_op hstable₀ ?_ h (Protocol.guar_refl _ s) trivial
  intro s₁ h₁ _ _
  -- what was sent by now stays sent while the consumer reads its own tail
  have hstable₁ : (spscProtocol base).Stable .consumer fun s =>
      s.received = s₁.received ∧ s₁.sent.length ≤ s.sent.length := by
    rintro s s' - ⟨k₁, k₂, -⟩ ⟨hr, hs⟩
    exact ⟨k₁.trans hr, Nat.le_trans hs k₂.length_le⟩
  refine Protocol.wp_op hstable₁ ?_ h₁ (Protocol.guar_refl _ s₁) ⟨rfl, Nat.le_refl _⟩
  rintro s₂ h₂ ⟨hrec, hsent⟩ -
  have hhead : (s₁.mem.read64 (base + headOffset)).toNat = s₁.sent.length := h₁.head
  have htail : (s₂.mem.read64 (base + tailOffset)).toNat = s₁.received.length := by
    rw [h₂.tail, hrec]
  have hle := h₁.received.length_le
  have hroom := h₁.room
  show PopWp base c (f (s₁.mem.read64 (base + headOffset)) (s₂.mem.read64 (base + tailOffset))) Q
    s₂ s₂
  refine hnext s₁.received _ _ s₂ h₂ ⟨hrec, ?_, Nat.zero_le _, ?_⟩ htail ?_ ?_
  · rw [hhead, htail]
    omega
  · rw [List.append_nil, ← hrec]
    exact h₂.received
  · rw [hhead, htail]
    exact hle
  · rw [hhead, htail]
    omega

theorem wp_popCapacity {α : Type} {c : Pop} {f : UInt64 → MemProg α}
    {Q : α → Ring → Ring → Prop} {T : List UInt8} {avail : Nat}
    (hnext : ∀ s, Good base s → PopKnows T [] avail s → PopWp base c (f dataCapacity) Q s s)
    {s : Ring} (h : Good base s) (hK : PopKnows T [] avail s) :
    PopWp base c ((volatileRead (base + capacityOffset)).bind f) Q s s := by
  refine Protocol.wp_op (PopKnows.stable T [] avail) ?_ h (Protocol.guar_refl _ s) hK
  intro s₂ h₂ hK₂ _
  show PopWp base c (f (s₂.mem.read64 (base + capacityOffset))) Q s₂ s₂
  rw [h₂.cap]
  exact hnext s₂ h₂ hK₂

/-! ### The calls -/

theorem bytes_frameLen (lo hi : UInt8) :
    (PopResult.len (lo.toUInt64 ||| (hi.toUInt64 <<< 8))).bytes = [lo, hi] := by
  have hlo := lo.toNat_lt
  have hhi := hi.toNat_lt
  have hword : (lo.toUInt64 ||| (hi.toUInt64 <<< 8)).toNat = 2 ^ 8 * hi.toNat + lo.toNat := by
    rw [Nat.two_pow_add_eq_or_of_lt hlo, UInt64.toNat_or, UInt64.toNat_shiftLeft, Nat.or_comm]
    simp only [UInt8.toNat_toUInt64, UInt64.reduceToNat, Nat.reduceMod, Nat.shiftLeft_eq]
    rw [Nat.mod_eq_of_lt (by omega), Nat.mul_comm]
  generalize lo.toUInt64 ||| (hi.toUInt64 <<< 8) = v at hword
  show [v.toUInt8, (v >>> 8).toUInt8] = [lo, hi]
  have hlow : v.toUInt8 = lo := by
    rw [← UInt8.toNat_inj, UInt64.toNat_toUInt8, hword]
    omega
  have hhigh : (v >>> 8).toUInt8 = hi := by
    rw [← UInt8.toNat_inj, UInt64.toNat_toUInt8, UInt64.toNat_shiftRight, hword]
    simp only [UInt64.reduceToNat, Nat.reduceMod, Nat.shiftRight_eq_div_pow]
    omega
  rw [hlow, hhigh]

theorem wp_spscPop {s : Ring} (h : Good base s) :
    PopWp base .pop (spscPop base)
      (fun r => (spscProtocol base).Done (i := .consumer) Pop.pop (PopResult.byte r)) s s := by
  refine wp_popIndices ?_ h
  intro T head tail s h hK htail hle hroom
  by_cases hempty : (head == tail) = true
  · rw [if_pos hempty]
    exact done_nothing h
  rw [if_neg hempty]
  have havail : 0 < head.toNat - tail.toNat := by
    have hne : head.toNat ≠ tail.toNat := by
      rw [ne_eq, UInt64.toNat_inj]
      simpa using hempty
    omega
  refine wp_popCapacity ?_ h hK
  intro s h hK
  have hidx : ¬ tail % dataCapacity ≥ dataCapacity := by
    rw [ge_iff_le, UInt64.le_iff_toNat_le, toNat_mod_capacity htail, dataCapacity_toNat]
    omega
  rw [if_neg (by decide)]
  dsimp only
  rw [if_neg hidx]
  have haddr : base + dataOffset + tail % dataCapacity =
      dataAddr base (T.length + ([] : List UInt8).length) :=
    dataAddr_eq base (toNat_mod_capacity htail)
  refine wp_load8 haddr havail ?_ h hK
  intro b s h hK
  refine wp_take htail rfl ?_ h hK
  simp [PopResult.bytes]

theorem wp_spscPopBulk (len : UInt64) {s : Ring} (h : Good base s) :
    PopWp base (.bulk len) (spscPopBulk base len)
      (fun r => (spscProtocol base).Done (i := .consumer) (Pop.bulk len)
        (PopResult.block r.1 r.2)) s s := by
  refine wp_popIndices ?_ h
  intro T head tail s h hK htail hle hroom
  refine wp_popCapacity ?_ h hK
  intro s h hK
  rw [if_neg (by decide)]
  extract_lets cap avail count₀ count
  have hcap : cap = dataCapacity := rfl
  have havail : avail.toNat = head.toNat - tail.toNat := toNat_sub_indices hle
  have hcount₀ : count₀.toNat = min len.toNat avail.toNat := toNat_ite_lt len avail
  have hcount : count = count₀ := by
    show (if count₀ > cap then cap else count₀) = _
    rw [if_neg]
    rw [gt_iff_lt, UInt64.lt_iff_toNat_lt, hcap, dataCapacity_toNat]
    omega
  clear_value count count₀ avail cap
  subst hcap hcount
  by_cases hbad : (decide (tail > head) || decide (head - tail > dataCapacity)) = true
  · rw [if_pos hbad]
    exact done_nothing h
  rw [if_neg hbad]
  by_cases hnone : (count == 0) = true
  · rw [if_pos hnone]
    exact done_nothing h
  rw [if_neg hnone]
  have hstart : (tail % dataCapacity).toNat = T.length % 3904 := toNat_mod_capacity htail
  refine (popWp_bind ..).mpr (wp_copyOut hstart (by omega) (by omega) ?_ h hK)
  intro bytes s hbytes h hK
  exact wp_take (f := fun r : UInt64 × List UInt8 => PopResult.block r.1 r.2) htail hbytes.symm rfl h hK

theorem wp_spscPopFrameLen {s : Ring} (h : Good base s) :
    PopWp base .frameLen (spscPopFrameLen base)
      (fun n => (spscProtocol base).Done (i := .consumer) Pop.frameLen (PopResult.len n)) s s := by
  refine wp_popIndices ?_ h
  intro T head tail s h hK htail hle hroom
  refine wp_popCapacity ?_ h hK
  intro s h hK
  rw [if_neg (by decide)]
  extract_lets cap avail startIdx nextIdx
  have hcap : cap = dataCapacity := rfl
  have havail : avail.toNat = head.toNat - tail.toNat := toNat_sub_indices hle
  have hstart : startIdx.toNat = T.length % 3904 := toNat_mod_capacity htail
  have hnextIdx : nextIdx.toNat = (T.length + 1) % 3904 := toNat_next hstart
  clear_value nextIdx startIdx avail cap
  subst hcap
  by_cases hbad : (decide (tail > head) || decide (head - tail > dataCapacity)) = true
  · rw [if_pos hbad]
    exact done_nothing h
  rw [if_neg hbad]
  by_cases hshort : avail < 2
  · rw [if_pos hshort]
    exact done_nothing h
  rw [if_neg hshort]
  rw [UInt64.lt_iff_toNat_lt, havail, show (2 : UInt64).toNat = 2 from rfl] at hshort
  refine wp_load8 (dataAddr_eq base hstart) (by rw [List.length_nil]; omega) ?_ h hK
  intro lo s h hK
  refine wp_load8 (dataAddr_eq base hnextIdx) (by simp; omega) ?_ h hK
  intro hi s h hK
  refine wp_take htail rfl ?_ h hK
  exact bytes_frameLen lo hi

/-- **Every call of the consumer keeps the protocol.** -/
theorem wp_popBody (c : Pop) {s : Ring} (h : Good base s) :
    PopWp base c (c.body base) ((spscProtocol base).Done (i := .consumer) c) s s := by
  cases c with
  | pop => exact (popWp_bind ..).mpr (wp_spscPop h)
  | bulk len => exact (popWp_bind ..).mpr (wp_spscPopBulk len h)
  | frameLen => exact (popWp_bind ..).mpr (wp_spscPopFrameLen h)

end Keuos.Ipc
