import Keuos.Ipc.UserRing
import Keuos.Ipc.Equiv.Stream

/-!
# The library of the applications agrees with the kernel

The library uses the kernel's layout, and each of its calls keeps the protocol of the ring (`spscProtocol`),
so that it does not matter to the other side who calls.  A proof about the kernel's ring is carried over to
the ring with the record of pushes by `wp_lift_producer` and `wp_lift_consumer`; only the loads of a push
through the library, which say how many bytes were free, are gone through again (`wp_look`).

## Main results

* `mixed_verified`: every call of either side, by the kernel or by the library, keeps the protocol.
* `mixed_stream`: in every interleaving the ring carries a byte stream, and each push through the library is
  all or nothing, refused exactly when its bytes did not fit.
-/

namespace Keuos.Ipc.UserRing

variable {base : UInt64}

/-! ### The layout -/

theorem dataOffset_eq : dataOffset = Ipc.dataOffset := rfl

/-! ### The protocol -/

/-- The protocol of the ring, where the consumer does not touch what the producer remembers. -/
def mixedProtocol (base : UInt64) : Protocol (mixedMachine base) where
  Inv s := Good base s.ring ∧ ∀ v ∈ s.verdicts, v.Right
  Rely
    | .producer => fun s s' => PushRely base s.ring s'.ring ∧ s'.free = s.free ∧ s'.before = s.before
    | .consumer => fun s s' => PopRely base s.ring s'.ring
  Idle
    | .producer => fun s => s.ring.accepted = s.ring.sent
    | .consumer => fun _ => True
  Guard i c o s := ((mixedMachine base).step i c o s).2.ring.sent.length < 2 ^ 64
  rely_refl := by
    rintro (_ | _) s
    · exact ⟨(spscProtocol base).rely_refl .producer s.ring, rfl, rfl⟩
    · exact (spscProtocol base).rely_refl .consumer s.ring
  rely_trans := by
    rintro (_ | _) s₁ s₂ s₃
    · rintro ⟨h, hfree, hbefore⟩ ⟨h', hfree', hbefore'⟩
      exact ⟨(spscProtocol base).rely_trans .producer _ _ _ h h', hfree'.trans hfree, hbefore'.trans hbefore⟩
    · exact (spscProtocol base).rely_trans .consumer s₁.ring s₂.ring s₃.ring
  idle_stable := by
    rintro (_ | _) s s' h hr
    · exact (spscProtocol base).idle_stable .producer s.ring s'.ring h hr.1
    · trivial

theorem guar_mixed_producer {s s' : Line} (h : (spscProtocol base).Guar .producer s.ring s'.ring) :
    (mixedProtocol base).Guar .producer s s' := by
  intro j hj
  cases j with
  | producer => exact absurd rfl hj
  | consumer => exact h .consumer hj

theorem guar_mixed_consumer {s s' : Line} (h : (spscProtocol base).Guar .consumer s.ring s'.ring)
    (hfree : s'.free = s.free) (hbefore : s'.before = s.before) : (mixedProtocol base).Guar
        .consumer s s' := by
  intro j hj
  cases j with
  | producer => exact ⟨h .producer hj, hfree, hbefore⟩
  | consumer => exact absurd rfl hj

@[simp] theorem ring_look (s : Line) : (s.look base).ring = s.ring := by
  unfold Line.look
  rfl

@[simp] theorem verdicts_look (s : Line) : (s.look base).verdicts = s.verdicts := by
  unfold Line.look
  rfl

@[simp] theorem verdicts_afterPush (s : Line) (o : MemOp) : (afterPush base s o).verdicts = s.verdicts := by
  unfold afterPush
  split
  · exact verdicts_look s
  · rfl

theorem afterPush_of_ne {o : MemOp} (h : o ≠ .load64 (base + Ipc.tailOffset)) (s : Line) :
    afterPush base s o = s :=
  if_neg h

/-- **The producer's calls keep the protocol with the record**, if they keep the protocol of the ring.  `K` is
what the producer knows about its records; the operations have `ok`. -/
theorem wp_lift_producer {α : Type} {c : PushCall} {ok : MemOp → Prop} {K : Line → Prop}
    (hstable : (mixedProtocol base).Stable .producer K)
    (hstep : ∀ o s, ok o → K s → K ((mixedMachine base).step .producer c o s).2)
    {p : MemProg α} (hp : p.Each ok) {Q : α → Ring → Ring → Prop} {s s₁ : Line}
    (h : PushWp base c.toPush p Q s.ring s₁.ring) (hright : ∀ v ∈ s₁.verdicts, v.Right) (hK : K s₁) :
    (mixedProtocol base).wp (i := .producer) c p
      (fun a s s₁ => Q a s.ring s₁.ring ∧ (∀ v ∈ s₁.verdicts, v.Right) ∧ K s₁) s s₁ := by
  induction p generalizing s s₁ with
  | ret a => exact ⟨h, hright, hK⟩
  | op o k ih =>
    obtain ⟨⟨hgood, hguar⟩, hnext⟩ := h
    refine ⟨⟨⟨hgood, hright⟩, guar_mixed_producer hguar⟩, ?_⟩
    intro s₂ hrely hinv hguard
    apply ih _ (hp.2 _)
    · exact hnext s₂.ring hrely.1 hinv.1 hguard
    · show ∀ v ∈ (afterPush base s₂ o).verdicts, v.Right
      rw [verdicts_afterPush]
      exact hinv.2
    · exact hstep o s₂ hp.1 (hstable s₁ s₂ hinv hrely hK)

/-- **The consumer's calls keep the protocol with the record**, if they keep the protocol of the ring. -/
theorem wp_lift_consumer {α : Type} {c : PopCall} {p : MemProg α} {Q : α → Ring → Ring → Prop} {s s₁ : Line}
    (h : PopWp base c.toPop p Q s.ring s₁.ring) (hright : ∀ v ∈ s₁.verdicts, v.Right)
    (hfree : s₁.free = s.free) (hbefore : s₁.before = s.before) :
    (mixedProtocol base).wp (i := .consumer) c p
      (fun a s s₁ => Q a s.ring s₁.ring ∧ (∀ v ∈ s₁.verdicts, v.Right) ∧ s₁.free = s.free ∧
        s₁.before = s.before)
      s s₁ := by
  induction p generalizing s s₁ with
  | ret a => exact ⟨h, hright, hfree, hbefore⟩
  | op o k ih =>
    obtain ⟨⟨hgood, hguar⟩, hnext⟩ := h
    refine ⟨⟨⟨hgood, hright⟩, guar_mixed_consumer hguar hfree hbefore⟩, ?_⟩
    intro s₂ hrely hinv hguard
    exact ih _ (hnext s₂.ring hrely hinv.1 hguard) hinv.2 rfl rfl

/-! ### Calls of the kernel -/

theorem wp_kernelPush (c : Push) {s : Line} (h : (mixedProtocol base).Inv s)
    (hidle : s.ring.accepted = s.ring.sent) :
    (mixedProtocol base).wp (i := .producer) (PushCall.kernel c) (c.body base)
      ((mixedProtocol base).Done (i := .producer) (PushCall.kernel c)) s s := by
  have hstable : (mixedProtocol base).Stable .producer fun _ => True := fun _ _ _ _ _ => trivial
  apply Protocol.wp_mono (Q := fun a s s₁ => (spscProtocol base).Done (i := .producer) c a s.ring s₁.ring ∧
    (∀ v ∈ s₁.verdicts, v.Right) ∧ True)
  · rintro a s s₁ ⟨⟨hgood, hguar, hidle⟩, hright, -⟩
    refine ⟨⟨hgood, ?_⟩, guar_mixed_producer hguar, hidle⟩
    show ∀ v ∈ s₁.verdicts ++ [], v.Right
    rw [List.append_nil]
    exact hright
  · exact wp_lift_producer hstable (fun _ _ _ _ => trivial) (Prog.each_true _)
      (wp_pushBody c h.1 hidle) h.2 trivial

theorem wp_kernelPop (c : Pop) {s : Line} (h : (mixedProtocol base).Inv s) :
    (mixedProtocol base).wp (i := .consumer) (PopCall.kernel c) (c.body base)
      ((mixedProtocol base).Done (i := .consumer) (PopCall.kernel c)) s s := by
  apply Protocol.wp_mono (Q := fun a s s₁ => (spscProtocol base).Done (i := .consumer) c a s.ring s₁.ring ∧
    (∀ v ∈ s₁.verdicts, v.Right) ∧ s₁.free = s.free ∧ s₁.before = s.before)
  · rintro a s s₁ ⟨⟨hgood, hguar, -⟩, hright, hfree, hbefore⟩
    exact ⟨⟨hgood, hright⟩, guar_mixed_consumer hguar hfree hbefore, trivial⟩
  · exact wp_lift_consumer (wp_popBody c h.1) h.2 rfl rfl

/-! ### Pushes through the library -/

/-- What the producer remembers of the ring when it read the tail: `S` was sent, and `room` bytes were
free. -/
def Looked (S : List UInt8) (room : Nat) (s : Line) : Prop :=
  s.free = room ∧ s.before = S.length

theorem Looked.stable (S : List UInt8) (room : Nat) : (mixedProtocol base).Stable .producer
    (Looked S room) := by
  rintro s s' - ⟨-, hfree, hbefore⟩ ⟨h, h'⟩
  exact ⟨hfree.trans h, hbefore.trans h'⟩

theorem step_load (c : PushCall) (a : UInt64) (s : Line) :
    (mixedMachine base).step .producer c (.load64 a) s =
      (s.ring.mem.read64 a, afterPush base s (.load64 a)) := by
  have hring : (afterPush base s (.load64 a)).ring = s.ring := by
    unfold afterPush
    split
    · exact ring_look s
    · rfl
  show (((spscMachine base).step .producer c.toPush (.load64 a) s.ring).1, { afterPush base s (.load64 a) with
    ring := ((spscMachine base).step .producer c.toPush (.load64 a) s.ring).2 }) = _
  rw [step_load64]
  dsimp only
  generalize afterPush base s (.load64 a) = s' at hring ⊢
  rw [← hring]

theorem looked_look {s : Line} {S : List UInt8} (h : Good base s.ring) (hsent : s.ring.sent = S)
    {room : Nat} (hroom : room + S.length = 3904 + s.ring.received.length) : Looked S room (s.look base) := by
  have hall := congrArg List.length h.ringBytes
  rw [List.length_append, hsent] at hall
  unfold Line.look freeBytes
  constructor
  · show dataCapacity.toNat - (ringBytes base s.ring.mem).length = room
    rw [dataCapacity_toNat]
    omega
  · exact congrArg List.length hsent

theorem wp_look {α : Type} {c : PushCall} {f : UInt64 → UInt64 → UInt64 → MemProg α}
    {Q : α → Line → Line → Prop}
    (hnext : ∀ S head tail s, (mixedProtocol base).Inv s →
      PushKnows base S [] (3904 - (head.toNat - tail.toNat)) s.ring →
      Looked S (3904 - (head.toNat - tail.toNat)) s → head.toNat = S.length → tail.toNat ≤ head.toNat →
      head.toNat - tail.toNat ≤ 3904 →
      (mixedProtocol base).wp (i := .producer) c (f head tail dataCapacity) Q s s)
    {s : Line} (h : (mixedProtocol base).Inv s) (hidle : s.ring.accepted = s.ring.sent) :
    (mixedProtocol base).wp (i := .producer) c ((volatileRead (base + Ipc.headOffset)).bind fun head =>
      (volatileRead (base + Ipc.tailOffset)).bind fun tail =>
        (volatileRead (base + Ipc.capacityOffset)).bind fun cap => f head tail cap) Q s s := by
  have hstable₀ : (mixedProtocol base).Stable .producer fun s => s.ring.accepted = s.ring.sent := by
    rintro s s' - ⟨⟨h₁, h₂, -, -⟩, -, -⟩ hs
    rw [h₁, h₂, hs]
  have hne : ∀ a, a ≠ base + Ipc.tailOffset → ∀ s : Line, afterPush base s (.load64 a) = s := by
    intro a ha s
    exact afterPush_of_ne (fun heq => ha (MemOp.load64.inj heq)) s
  refine Protocol.wp_op hstable₀ ?_ h (Protocol.guar_refl _ s) hidle
  intro s₁ h₁ hidle₁ _
  rw [step_load, hne _ (by simp [Ipc.headOffset, Ipc.tailOffset])]
  -- the head is the producer's own, so nothing more is sent while it waits
  have hstable₁ : (mixedProtocol base).Stable .producer fun s =>
      s.ring.sent = s₁.ring.sent ∧ s.ring.accepted = s₁.ring.sent := by
    rintro s s' - ⟨⟨h₁, h₂, -, -⟩, -, -⟩ ⟨hs, ha⟩
    exact ⟨h₁.trans hs, h₂.trans ha⟩
  refine Protocol.wp_op hstable₁ ?_ h₁ (Protocol.guar_refl _ s₁) ⟨rfl, hidle₁⟩
  rintro s₂ h₂ ⟨hsent₂, hacc₂⟩ -
  rw [step_load, show afterPush base s₂ (.load64 (base + Ipc.tailOffset)) = s₂.look base from if_pos rfl]
  have hlen₂ : s₂.ring.sent.length = s₁.ring.sent.length := congrArg List.length hsent₂
  have hle := h₂.1.received.length_le
  have hroom := h₂.1.room
  have hhead : (s₁.ring.mem.read64 (base + Ipc.headOffset)).toNat = s₁.ring.sent.length := h₁.1.head
  have htail : (s₂.ring.mem.read64 (base + Ipc.tailOffset)).toNat = s₂.ring.received.length := h₂.1.tail
  generalize s₁.ring.mem.read64 (base + Ipc.headOffset) = head at hhead ⊢
  generalize s₂.ring.mem.read64 (base + Ipc.tailOffset) = tail at htail ⊢
  have hK : PushKnows base s₁.ring.sent [] (3904 - (head.toNat - tail.toNat)) s₂.ring := by
    refine ⟨hsent₂, hacc₂, ?_, Nat.zero_le _, fun j hj => absurd hj (Nat.not_lt_zero j)⟩
    omega
  have hlooked : Looked s₁.ring.sent (3904 - (head.toNat - tail.toNat)) (s₂.look base) :=
    looked_look h₂.1 hsent₂ (by omega)
  have hstable₂ : (mixedProtocol base).Stable .producer fun s =>
      PushKnows base s₁.ring.sent [] (3904 - (head.toNat - tail.toNat)) s.ring ∧
        Looked s₁.ring.sent (3904 - (head.toNat - tail.toNat)) s := by
    intro s s' hinv hrely hboth
    exact ⟨PushKnows.stable _ _ _ s.ring s'.ring hinv.1 hrely.1 hboth.1,
      Looked.stable _ _ s s' hinv hrely hboth.2⟩
  have hinv₂ : (mixedProtocol base).Inv (s₂.look base) := by
    constructor
    · rw [ring_look]
      exact h₂.1
    · rw [verdicts_look]
      exact h₂.2
  have hguar₂ : (mixedProtocol base).Guar .producer s₂ (s₂.look base) := by
    apply guar_mixed_producer
    rw [ring_look]
    exact Protocol.guar_refl _ s₂.ring
  refine Protocol.wp_op hstable₂ ?_ hinv₂ hguar₂ ⟨?_, hlooked⟩
  · intro s₃ h₃ hK₃ _
    rw [step_load, hne _ (by simp [Ipc.capacityOffset, Ipc.tailOffset]), h₃.1.cap]
    refine hnext _ head tail s₃ h₃ hK₃.1 hK₃.2 hhead ?_ ?_
    · omega
    · omega
  · rw [ring_look]
    exact hK

theorem done_userPush {payload : Nat → UInt8} {len : UInt64} {a : UInt64} {S w : List UInt8} {room : Nat}
    {s s₁ : Line} (h : Good base s₁.ring) (hguar : (spscProtocol base).Guar .producer s.ring s₁.ring)
    (hpub : Published S w s₁.ring) (hright : ∀ v ∈ s₁.verdicts, v.Right) (hlooked : Looked S room s₁)
    (ha : a = 0 ∧ room < len.toNat ∧ w = [] ∨
      a = 1 ∧ len.toNat ≤ room ∧ w = (List.range len.toNat).map payload) :
    (mixedProtocol base).Done (i := .producer) (PushCall.user payload len) (PushResult.code a) s s₁ := by
  have hsupply : (Push.bulk payload len).supply ((Push.bulk payload len).accepted (.code a)) = w := by
    rcases ha with ⟨rfl, -, rfl⟩ | ⟨rfl, -, rfl⟩
    · simp [Push.accepted, Push.supply]
    · exact supply_bulk payload (Nat.le_refl _)
  obtain ⟨hgood, hguar', hidle⟩ := done_push h hguar hpub hsupply
  refine ⟨⟨hgood, ?_⟩, guar_mixed_producer hguar', hidle⟩
  intro v hv
  rcases List.mem_append.mp hv with hv | hv
  · exact hright v hv
  obtain rfl := List.mem_singleton.mp hv
  have hsent : s₁.ring.sent.length - s₁.before = w.length := by
    rw [hpub.1, hlooked.2, List.length_append, Nat.add_sub_cancel_left]
  rcases ha with ⟨rfl, hlt, rfl⟩ | ⟨rfl, hle, rfl⟩
  · refine ⟨.inl rfl, ⟨fun _ => ?_, fun _ => rfl⟩, ?_⟩
    · show s₁.free < len.toNat
      rw [hlooked.1]
      exact hlt
    · rw [if_pos rfl]
      exact hsent
  · have hne : (PushResult.code 1) ≠ .code 0 := by decide
    refine ⟨.inr rfl, ⟨fun heq => absurd heq hne, fun hlt => ?_⟩, ?_⟩
    · have hlt' : s₁.free < len.toNat := hlt
      rw [hlooked.1] at hlt'
      omega
    · rw [if_neg hne]
      exact hsent.trans (by simp)

theorem wp_copyPayload {α : Type} {c : Push} {S : List UInt8} {room : Nat} {start len : UInt64}
    {payload : Nat → UInt8} {k : Unit → MemProg α} {Q : α → Ring → Ring → Prop}
    (hstart : start.toNat = S.length % 3904) (hroom : len.toNat ≤ room) (hroom_le : room ≤ 3904)
    (hnext : ∀ s s', Good base s' → (spscProtocol base).Guar .producer s s' →
      PushKnows base S ((List.range len.toNat).map payload) room s' → PushWp base c (k ()) Q s s')
    {s s₁ : Ring} (h : Good base s₁) (hguar : (spscProtocol base).Guar .producer s s₁)
    (hK : PushKnows base S [] room s₁) :
    PushWp base c ((copyPayload base start (Ipc.dataCapacity - start) payload len).bind k) Q s s₁ := by
  have hseg : (Ipc.dataCapacity - start).toNat = 3904 - start.toNat := by
    rw [UInt64.toNat_sub_of_le, dataCapacity_toNat]
    rw [UInt64.le_iff_toNat_le, dataCapacity_toNat]
    omega
  generalize Ipc.dataCapacity - start = seg1Len at hseg ⊢
  have hdst : ∀ j, j < 3904 - start.toNat → base + dataOffset + start + UInt64.ofNat j =
      dataAddr base (S.length + ([] : List UInt8).length + j) := by
    intro j hj
    rw [dataOffset_eq, UInt64.add_assoc (base + Ipc.dataOffset), List.length_nil]
    apply dataAddr_eq
    rw [UInt64.toNat_add, UInt64.toNat_ofNat', hstart]
    omega
  unfold copyPayload
  by_cases hle : len ≤ seg1Len
  · rw [if_pos hle]
    rw [UInt64.le_iff_toNat_le, hseg] at hle
    refine wp_fastMemcpyIn len.toNat (fun j hj => hdst j (by omega)) ?_ hnext h hguar hK
    rw [List.length_nil]
    omega
  · rw [if_neg hle]
    rw [UInt64.le_iff_toNat_le, hseg] at hle
    have hrest : (len - seg1Len).toNat = len.toNat - seg1Len.toNat := by
      rw [UInt64.toNat_sub_of_le]
      rw [UInt64.le_iff_toNat_le]
      omega
    generalize len - seg1Len = second at hrest ⊢
    -- the first segment reaches the end of the data
    have hwrap : ∀ j, j < second.toNat → base + dataOffset + UInt64.ofNat j =
        dataAddr base (S.length + ([] ++ (List.range seg1Len.toNat).map payload).length + j) := by
      intro j hj
      apply dataAddr_eq
      rw [UInt64.toNat_ofNat', List.length_append, List.length_map, List.length_range, List.length_nil]
      omega
    rw [Prog.bind_eq, pushWp_bind]
    refine wp_fastMemcpyIn seg1Len.toNat (fun j hj => hdst j (by omega)) ?_ ?_ h hguar hK
    · rw [List.length_nil]
      omega
    intro s s' h hguar hK
    rw [← pushWp_bind]
    refine wp_fastMemcpyIn second.toNat hwrap ?_ ?_ h hguar hK
    · rw [List.length_append, List.length_map, List.length_range, List.length_nil]
      omega
    intro s s' h hguar hK
    apply hnext s s' h hguar
    have hlen : len.toNat = seg1Len.toNat + second.toNat := by omega
    rw [hlen, List.range_add, List.map_append, List.map_map]
    exact hK

theorem each_fastMemcpyIn {P : MemOp → Prop} (hP : ∀ a v, P (.store8 a v)) (n : Nat) {dst : UInt64}
    {src : Nat → UInt8} : (fastMemcpyIn dst src n).Each P := by
  induction n generalizing dst src with
  | zero => trivial
  | succ n ih => exact ⟨hP dst (src 0), fun _ => ih⟩

theorem each_copyPayload {P : MemOp → Prop} (hP : ∀ a v, P (.store8 a v)) (start seg1Len : UInt64)
    (payload : Nat → UInt8) (len : UInt64) : (copyPayload base start seg1Len payload len).Each P := by
  unfold copyPayload
  split
  · exact each_fastMemcpyIn hP _
  · exact Prog.Each.bind (each_fastMemcpyIn hP _) fun _ => each_fastMemcpyIn hP _

/-- **A push through the library** keeps the protocol. -/
theorem wp_userPush (payload : Nat → UInt8) (len : UInt64) {s : Line} (h : (mixedProtocol base).Inv s)
    (hidle : s.ring.accepted = s.ring.sent) :
    (mixedProtocol base).wp (i := .producer) (PushCall.user payload len) (push base payload len)
      (fun n => (mixedProtocol base).Done (i := .producer) (PushCall.user payload len) (PushResult.code n))
      s s := by
  refine wp_look ?_ h hidle
  intro S head tail s h hK hlooked hhead hle hroom
  have hrefuse : 3904 - (head.toNat - tail.toNat) < len.toNat →
      (mixedProtocol base).Done (i := .producer) (PushCall.user payload len) (PushResult.code 0) s s := by
    intro hlt
    refine done_userPush h.1 (Protocol.guar_refl _ s.ring) ⟨?_, hK.accepted⟩ h.2 hlooked
      (.inl ⟨rfl, hlt, rfl⟩)
    rw [List.append_nil]
    exact hK.sent
  rw [if_neg (by decide)]
  by_cases hbig : len > Ipc.dataCapacity
  · rw [if_pos hbig]
    rw [gt_iff_lt, UInt64.lt_iff_toNat_lt, dataCapacity_toNat] at hbig
    exact hrefuse (by omega)
  rw [if_neg hbig]
  have havail := toNat_room hle hroom
  extract_lets availableSpace startIdx seg1Len
  replace havail : availableSpace.toNat = 3904 - (head.toNat - tail.toNat) := havail
  have hstart : startIdx.toNat = S.length % 3904 := toNat_mod_capacity hhead
  have hseg : seg1Len = Ipc.dataCapacity - startIdx := rfl
  clear_value seg1Len startIdx availableSpace
  subst hseg
  by_cases hfull : len > availableSpace
  · rw [if_pos hfull]
    rw [gt_iff_lt, UInt64.lt_iff_toNat_lt, havail] at hfull
    exact hrefuse hfull
  rw [if_neg hfull]
  rw [gt_iff_lt, UInt64.lt_iff_toNat_lt, havail, Nat.not_lt] at hfull
  -- the rest of the call does not load the tail again
  have hring : PushWp base (.bulk payload len)
      ((copyPayload base startIdx (Ipc.dataCapacity - startIdx) payload len).bind fun _ =>
        (writeU64 base headOffset (head + len)).bind fun _ => .ret (1 : UInt64))
      (fun n r r' => n = 1 ∧ Good base r' ∧ (spscProtocol base).Guar .producer r r' ∧
        Published S ((List.range len.toNat).map payload) r') s.ring s.ring := by
    refine wp_copyPayload hstart hfull (Nat.sub_le _ _) ?_ h.1 (Protocol.guar_refl _ s.ring) hK
    intro r r' hgood hguar hK
    have hlen : len.toNat = ((List.range len.toNat).map payload).length := by simp
    refine wp_publish hhead hlen ?_ ?_ hgood hguar hK
    · rw [← hlen]
      exact supply_bulk payload (Nat.le_refl _)
    · intro r r' hgood hguar hpub
      exact ⟨rfl, hgood, hguar, hpub⟩
  have heach : ((copyPayload base startIdx (Ipc.dataCapacity - startIdx) payload len).bind fun _ =>
      (writeU64 base headOffset (head + len)).bind fun _ => .ret (1 : UInt64)).Each
        (· ≠ .load64 (base + Ipc.tailOffset)) := by
    apply Prog.Each.bind
    · exact each_copyPayload (fun _ _ heq => MemOp.noConfusion heq) _ _ _ _
    · intro _
      exact ⟨fun heq => MemOp.noConfusion heq, fun _ => trivial⟩
  have hkeep : ∀ o (s : Line), o ≠ .load64 (base + Ipc.tailOffset) →
      Looked S (3904 - (head.toNat - tail.toNat)) s →
      Looked S (3904 - (head.toNat - tail.toNat))
        ((mixedMachine base).step .producer (PushCall.user payload len) o s).2 := by
    intro o s ho hlooked
    show Looked S _ { afterPush base s o with
      ring := ((spscMachine base).step .producer (Push.bulk payload len) o s.ring).2 }
    rw [afterPush_of_ne ho]
    exact hlooked
  apply Protocol.wp_mono (Q := fun n s s₁ => (n = 1 ∧ Good base s₁.ring ∧
    (spscProtocol base).Guar .producer s.ring s₁.ring ∧
      Published S ((List.range len.toNat).map payload) s₁.ring) ∧
    (∀ v ∈ s₁.verdicts, v.Right) ∧ Looked S (3904 - (head.toNat - tail.toNat)) s₁)
  · rintro n s s₁ ⟨⟨rfl, hgood, hguar, hpub⟩, hright, hlooked⟩
    exact done_userPush hgood hguar hpub hright hlooked (.inr ⟨rfl, hfull, rfl⟩)
  · exact wp_lift_producer (Looked.stable S _) hkeep heach hring h.2 hlooked

/-! ### Pops through the library -/

theorem wp_copyBuf {c : Pop} {T : List UInt8} {avail : Nat} {start readLen : UInt64}
    {Q : List UInt8 → Ring → Ring → Prop} (hstart : start.toNat = T.length % 3904)
    (hlen : readLen.toNat ≤ avail) (hcap : readLen.toNat ≤ 3904)
    (hnext : ∀ bytes s, bytes.length = readLen.toNat → Good base s → PopKnows T bytes avail s → Q bytes s s)
    {s : Ring} (h : Good base s) (hK : PopKnows T [] avail s) :
    PopWp base c (copyBuf base start (Ipc.dataCapacity - start) readLen) Q s s := by
  have hseg : (Ipc.dataCapacity - start).toNat = 3904 - start.toNat := by
    rw [UInt64.toNat_sub_of_le, dataCapacity_toNat]
    rw [UInt64.le_iff_toNat_le, dataCapacity_toNat]
    omega
  generalize Ipc.dataCapacity - start = seg1Len at hseg ⊢
  have hsrc : ∀ j, j < 3904 - start.toNat → base + dataOffset + start + UInt64.ofNat j =
      dataAddr base (T.length + ([] : List UInt8).length + j) := by
    intro j hj
    rw [dataOffset_eq, UInt64.add_assoc (base + Ipc.dataOffset), List.length_nil]
    apply dataAddr_eq
    rw [UInt64.toNat_add, UInt64.toNat_ofNat', hstart]
    omega
  unfold copyBuf
  by_cases hle : readLen ≤ seg1Len
  · rw [if_pos hle]
    rw [UInt64.le_iff_toNat_le, hseg] at hle
    refine wp_fastMemcpyOut readLen.toNat (fun j hj => hsrc j (by omega)) ?_ hnext h hK
    rw [List.length_nil]
    omega
  · rw [if_neg hle]
    rw [UInt64.le_iff_toNat_le, hseg] at hle
    have hrest : (readLen - seg1Len).toNat = readLen.toNat - seg1Len.toNat := by
      rw [UInt64.toNat_sub_of_le]
      rw [UInt64.le_iff_toNat_le]
      omega
    generalize readLen - seg1Len = second at hrest ⊢
    refine (popWp_bind ..).mpr (wp_fastMemcpyOut seg1Len.toNat (fun j hj => hsrc j (by omega)) ?_ ?_ h hK)
    · rw [List.length_nil]
      omega
    intro xs s hxs h hK
    -- the first segment has reached the end of the data
    have hwrap : ∀ j, j < second.toNat → base + dataOffset + UInt64.ofNat j =
        dataAddr base (T.length + ([] ++ xs).length + j) := by
      intro j hj
      apply dataAddr_eq
      rw [UInt64.toNat_ofNat', List.nil_append]
      omega
    refine (popWp_bind ..).mpr (wp_fastMemcpyOut second.toNat hwrap ?_ ?_ h hK)
    · rw [List.nil_append]
      omega
    intro ys s hys h hK
    refine hnext (xs ++ ys) s ?_ h hK
    rw [List.length_append]
    omega

/-- **A pop through the library** keeps the protocol of the ring. -/
theorem wp_pop (maxLen : UInt64) {s : Ring} (h : Good base s) :
    PopWp base (.bulk maxLen) (pop base maxLen)
      (fun r => (spscProtocol base).Done (i := .consumer) (Pop.bulk maxLen) (PopResult.block r.1 r.2))
      s s := by
  refine wp_popIndices ?_ h
  intro T head tail s h hK htail hle hroom
  refine wp_popCapacity ?_ h hK
  intro s h hK
  rw [if_neg (by decide)]
  have havail : (head - tail).toNat = head.toNat - tail.toNat := toNat_sub_indices hle
  extract_lets available readLen startIdx seg1Len
  replace havail : available.toNat = head.toNat - tail.toNat := havail
  have hread : readLen.toNat = min maxLen.toNat available.toNat := toNat_ite_lt maxLen available
  have hstart : startIdx.toNat = T.length % 3904 := toNat_mod_capacity htail
  have hseg : seg1Len = Ipc.dataCapacity - startIdx := rfl
  clear_value seg1Len startIdx readLen available
  subst hseg
  by_cases hempty : (available == 0) = true
  · rw [if_pos hempty]
    exact done_nothing h
  rw [if_neg hempty]
  refine (popWp_bind ..).mpr (wp_copyBuf hstart (by omega) (by omega) ?_ h hK)
  intro bytes s hbytes h hK
  exact wp_take (f := fun r : UInt64 × List UInt8 => PopResult.block r.1 r.2) htail hbytes.symm rfl h hK

theorem wp_userPop (maxLen : UInt64) {s : Line} (h : (mixedProtocol base).Inv s) :
    (mixedProtocol base).wp (i := .consumer) (PopCall.user maxLen) (pop base maxLen)
      (fun r => (mixedProtocol base).Done (i := .consumer) (PopCall.user maxLen) (PopResult.block r.1 r.2))
      s s := by
  apply Protocol.wp_mono (Q := fun r s s₁ =>
    (spscProtocol base).Done (i := .consumer) (Pop.bulk maxLen) (PopResult.block r.1 r.2) s.ring s₁.ring ∧
      (∀ v ∈ s₁.verdicts, v.Right) ∧ s₁.free = s.free ∧ s₁.before = s.before)
  · rintro r s s₁ ⟨⟨hgood, hguar, -⟩, hright, hfree, hbefore⟩
    exact ⟨⟨hgood, hright⟩, guar_mixed_consumer hguar hfree hbefore, trivial⟩
  · exact wp_lift_consumer (wp_pop maxLen h.1) h.2 rfl rfl

/-! ### Runs -/

/-- **Every call of either side keeps the protocol**, whether it is one of the kernel or one of the
library. -/
theorem mixed_verified (base : UInt64) : (mixedProtocol base).Verified := by
  rintro (_ | _) c s h hidle
  · cases (c : PushCall) with
    | kernel c => exact wp_kernelPush c h hidle
    | user payload len => exact (Protocol.wp_bind ..).mpr (wp_userPush payload len h hidle)
  · cases (c : PopCall) with
    | kernel c => exact wp_kernelPop c h
    | user maxLen => exact (Protocol.wp_bind ..).mpr (wp_userPop maxLen h)

section Runs

theorem sent_le_mixed_step (i : Side) (c : (mixedMachine base).Call i) (o : MemOp) (s : Line) :
    s.ring.sent.length ≤ ((mixedMachine base).step i c o s).2.ring.sent.length := by
  cases i with
  | producer => exact @sent_le_step base .producer (PushCall.toPush c) o s.ring
  | consumer => exact @sent_le_step base .consumer (PopCall.toPop c) o s.ring

theorem sent_mixed_finish (i : Side) (c : (mixedMachine base).Call i) (a : (mixedMachine base).Res i)
    (before s : Line) :
    ((mixedMachine base).finish i c a before s).ring.sent.length = s.ring.sent.length := by
  cases i <;> rfl

end Runs

/-- **The library and the kernel agree on the ring.**  In every interleaving of the two sides after
`spsc_init`, where each call is one of the kernel or one of the library, and as long as fewer than 2^64 bytes
were sent: the bytes that the consumer received followed by those in the ring are the bytes that the producer
sent; when the producer is not inside a call, these are the bytes that the results of its calls say were
accepted; and each push through the library transferred all of its bytes or none, and was refused exactly when
fewer bytes than it has were free at the tail that it read. -/
theorem mixed_stream (base : UInt64) (m : Mem) (events : List (mixedMachine base).Event)
    (hsent : (runOps Machine.exec (Machine.start (Line.init base m)) events).shared.ring.sent.length <
      2 ^ 64) :
    let cfg := runOps Machine.exec (Machine.start (Line.init base m)) events
    let s := cfg.shared.ring
    s.received ++ ringBytes base s.mem = s.sent ∧ (ringBytes base s.mem).length ≤ 3904 ∧
      s.accepted <+: s.sent ∧ (cfg.thread .producer = none → s.accepted = s.sent) ∧
      ∀ v ∈ cfg.shared.verdicts, v.Right := by
  intro cfg s
  have hinit : (mixedProtocol base).Inv (Line.init base m) :=
    ⟨good_initRing base m, fun v hv => absurd hv List.not_mem_nil⟩
  have hidle : ∀ i, (mixedProtocol base).Idle i (Line.init base m) := by
    rintro (_ | _)
    · rfl
    · trivial
  obtain ⟨⟨hgood, hright⟩, hthreads⟩ : (mixedProtocol base).ConfigOk cfg :=
    Protocol.configOk_bounded (f := fun s => s.ring.sent.length) (mixed_verified base) sent_le_mixed_step
      sent_mixed_finish (fun _ _ _ _ h => h) hinit hidle hsent
  have hall := hgood.ringBytes
  refine ⟨hall, ?_, hgood.accepted, ?_, hright⟩
  · have hlen := congrArg List.length hall
    have hroom := hgood.room
    rw [List.length_append] at hlen
    show (ringBytes base cfg.shared.ring.mem).length ≤ 3904
    omega
  · intro hnone
    have hproducer := hthreads .producer
    unfold Protocol.ThreadOk at hproducer
    rw [hnone] at hproducer
    exact hproducer

/-- The library pushes two bytes under a pop of the kernel, which finds nothing, and pops them. -/
def pushUnderPop : List (mixedMachine 0x1000).Event :=
  [.call .producer (PushCall.user (fun i => 7 + UInt8.ofNat i) 2), .call .consumer (PopCall.kernel Pop.pop),
    .step .consumer] ++ List.replicate 7 (.step .producer) ++ List.replicate 2 (.step .consumer) ++
    .call .consumer (PopCall.user 8) :: List.replicate 8 (.step .consumer)

theorem pushUnderPop_run :
    let cfg := runOps Machine.exec (Machine.start (Line.init 0x1000 fun _ => 0)) pushUnderPop
    cfg.shared.ring.sent.length < 2 ^ 64 ∧ cfg.shared.ring.received = [7, 8] := by
  unfold Line.init
  rw [initRing_zero]
  decide +kernel

theorem mixed_stream_pushUnderPop :
    let cfg := runOps Machine.exec (Machine.start (Line.init 0x1000 fun _ => 0)) pushUnderPop
    cfg.shared.ring.sent.length < 2 ^ 64 ∧ cfg.shared.ring.received = [7, 8] ∧
      cfg.shared.ring.received ++ ringBytes 0x1000 cfg.shared.ring.mem = cfg.shared.ring.sent :=
  ⟨pushUnderPop_run.1, pushUnderPop_run.2,
    (mixed_stream 0x1000 (fun _ => 0) pushUnderPop pushUnderPop_run.1).1⟩

end Keuos.Ipc.UserRing
