import Keuos.Rtl8125.Equiv.Descriptors

/-!
# Every received frame is delivered once

The frames that the card receives are numbered, and so are the descriptors modulo 256.  The frames that are on
their way, from the first one whose buffer is still held up to the last one received, are a window of at most
256 numbers, and the card owns the descriptors of all other numbers (`RxOk`).

`rx_repost` hands the descriptor before `RX_CUR` to the card, with the buffer that it is called with.  This is
the descriptor of the buffer when no later frame has been polled.  Otherwise the buffer gets into the
descriptor of another one, and is then in two descriptors; `OneHeld` excludes that.

## Main results

* `rxLaw_run`: a run in which at most one buffer is held at each repost delivers every frame once.
-/

namespace Keuos.Rtl8125

variable {rxRing : UInt64} {base : Nat → UInt64}

/-! ### The protocol -/

/-- The number of the first frame whose buffer has not been reposted. -/
def RxLine.first (s : RxLine) : Nat :=
  s.returned.length - s.held.length

/-- The descriptor belongs to one of the frames on their way. -/
def InWindow (s : RxLine) (i : Nat) : Prop :=
  ∃ k, s.first ≤ k ∧ k < s.received.length ∧ k % 256 = i

/-- The invariant of the receive ring, whose descriptor `i` has the buffer `base i`. -/
structure RxOk (rxRing : UInt64) (base : Nat → UInt64) (s : RxLine) : Prop where
  page_eq : ∀ i < 256, page rxRing s.card.mem i = base i
  rx : s.card.rxCur.toNat = s.returned.length % 256
  position : s.card.position = s.received.length
  held_le : s.held.length ≤ s.returned.length
  returned_le : s.returned.length ≤ s.received.length
  window_le : s.received.length ≤ s.first + 256
  owned_iff : ∀ i < 256, Owned rxRing s.card.mem i ↔ ¬ InWindow s i
  buffer : ∀ k frame, s.received[k]? = some frame → frame.1 = base (k % 256)
  length : ∀ k frame, s.received[k]? = some frame → s.returned.length ≤ k →
    s.card.mem.read32 (descWord rxRing (k % 256) 0) &&& 0x3FFF = frame.2
  order : s.returned = (s.received.take s.returned.length).map virtFrame
  held_eq : s.held = (s.returned.drop s.first).map Prod.fst
  answers : ∀ x ∈ s.answers, x.1 = true ↔ 0 < x.2

/-- What the driver relies on: the card receives frames into descriptors of its own. -/
structure RxRely (rxRing : UInt64) (s s' : RxLine) : Prop where
  cur : s'.card.rxCur = s.card.rxCur
  returned : s'.returned = s.returned
  held : s'.held = s.held
  answers : s'.answers = s.answers
  waiting : s'.waiting = s.waiting
  received : s.received <+: s'.received
  address : ∀ i < 256, ∀ off ≤ 12, off % 4 = 0 → off ≠ 0 →
    s'.card.mem.read32 (descWord rxRing i off) = s.card.mem.read32 (descWord rxRing i off)
  flags : ∀ i < 256, ¬ Owned rxRing s.card.mem i →
    s'.card.mem.read32 (descWord rxRing i 0) = s.card.mem.read32 (descWord rxRing i 0)

theorem RxRely.unowned {s s' : RxLine} (h : RxRely rxRing s s') {i : Nat} (hi : i < 256)
    (hunowned : ¬ Owned rxRing s.card.mem i) : ¬ Owned rxRing s'.card.mem i := by
  unfold Owned
  rw [h.flags i hi hunowned]
  exact hunowned

def rxProtocol (rxRing : UInt64) (base : Nat → UInt64) : Protocol (rxMachine rxRing) where
  Inv := RxOk rxRing base
  Rely
    | .driver => RxRely rxRing
    | .card => fun _ _ => True
  Idle _ _ := True
  Guard := OneHeld rxRing
  rely_refl
    | .driver, _ => ⟨rfl, rfl, rfl, rfl, rfl, List.prefix_refl _, fun _ _ _ _ _ _ => rfl, fun _ _ _ => rfl⟩
    | .card, _ => trivial
  rely_trans
    | .driver, _, _, _, h, k =>
      ⟨k.cur.trans h.cur, k.returned.trans h.returned, k.held.trans h.held, k.answers.trans h.answers,
        k.waiting.trans h.waiting, h.received.trans k.received,
        fun i hi off hoff halign hne =>
          (k.address i hi off hoff halign hne).trans (h.address i hi off hoff halign hne),
        fun i hi hunowned => (k.flags i hi (h.unowned hi hunowned)).trans (h.flags i hi hunowned)⟩
    | .card, _, _, _, _, _ => trivial
  idle_stable _ _ _ _ _ := trivial

instance (i : Side) (c : (rxMachine rxRing).Call i) (o : CardOp) (s : RxLine) :
    Decidable ((rxProtocol rxRing base).Guard i c o s) :=
  inferInstanceAs (Decidable (OneHeld rxRing i c o s))

/-- What the driver must still do in its call. -/
abbrev RxWp {α : Type} (rxRing : UInt64) (base : Nat → UInt64) (c : RxCall) (p : CardProg α)
    (Q : α → RxLine → RxLine → Prop) (s s₁ : RxLine) : Prop :=
  (rxProtocol rxRing base).wp (i := .driver) c p Q s s₁

theorem guar_rxDriver (s s' : RxLine) : (rxProtocol rxRing base).Guar .driver s s' := by
  rintro (_ | _) hne
  · exact absurd rfl hne
  · trivial

/-! ### The card -/

theorem RxOk.owned_position {s : RxLine} (h : RxOk rxRing base s)
    (howned : Owned rxRing s.card.mem (s.card.position % 256)) : s.received.length < s.first + 256 := by
  rw [h.owned_iff _ (Nat.mod_lt _ (by decide)), h.position] at howned
  by_contra hge
  have hwindow := h.window_le
  apply howned
  refine ⟨s.received.length - 256, by omega, by omega, ?_⟩
  omega

theorem receive_of_owned {s : RxLine} {flags : UInt32}
    (howned : Owned rxRing s.card.mem (s.card.position % 256)) :
    s.receive rxRing flags = { s with
      card := { s.card with
        mem := s.card.mem.write32 (descWord rxRing (s.card.position % 256) 0) (flags &&& ~~~descOwn)
        position := s.card.position + 1 }
      received := s.received ++ [(page rxRing s.card.mem (s.card.position % 256), flags &&& 0x3FFF)] } := by
  unfold RxLine.receive Card.handBack
  rw [if_pos howned, if_pos howned]

theorem flags_length (flags : UInt32) : (flags &&& ~~~descOwn) &&& 0x3FFF = flags &&& 0x3FFF := by
  have hkeep : ~~~descOwn &&& 0x3FFF = 0x3FFF := by decide
  rw [UInt32.and_assoc, hkeep]

theorem rxRely_receive {s : RxLine} {flags : UInt32}
    (howned : Owned rxRing s.card.mem (s.card.position % 256)) :
    RxRely rxRing s (s.receive rxRing flags) := by
  have hlt : s.card.position % 256 < 256 := Nat.mod_lt _ (by decide)
  rw [receive_of_owned howned]
  refine ⟨rfl, rfl, rfl, rfl, rfl, List.prefix_append _ _, ?_, ?_⟩
  · intro i hi off hoff halign hne
    exact read32_descWord hlt hi (by decide) hoff (by decide) halign (.inr (Ne.symm hne)) _
  · intro i hi hunowned
    apply read32_descWord hlt hi (by decide) (by decide) (by decide) (by decide)
    left
    rintro rfl
    exact hunowned howned

theorem rxOk_receive {s : RxLine} (h : RxOk rxRing base s) {flags : UInt32}
    (howned : Owned rxRing s.card.mem (s.card.position % 256)) : RxOk rxRing base
        (s.receive rxRing flags) := by
  have hwindow := h.owned_position howned
  have hle := h.returned_le
  have hlt : s.card.position % 256 < 256 := Nat.mod_lt _ (by decide)
  rw [receive_of_owned howned]
  rw [h.position] at hlt ⊢
  -- a frame is one of those before or the new one
  have hnth : ∀ k frame, (s.received ++ [(page rxRing s.card.mem (s.received.length % 256),
      flags &&& 0x3FFF)])[k]? =
      some frame → s.received[k]? = some frame ∨
        k = s.received.length ∧ frame = (base (k % 256), flags &&& 0x3FFF) := by
    intro k frame hk
    rcases Nat.lt_trichotomy k s.received.length with hk' | hk' | hk'
    · rw [List.getElem?_append_left hk'] at hk
      exact .inl hk
    · subst hk'
      rw [List.getElem?_concat_length, Option.some_inj, h.page_eq _ hlt] at hk
      exact .inr ⟨rfl, hk.symm⟩
    · rw [List.getElem?_eq_none (by simp; omega)] at hk
      cases hk
  constructor
  · intro i hi
    exact (page_write_flags hlt hi _).trans (h.page_eq i hi)
  · exact h.rx
  · show s.received.length + 1 = (s.received ++ [_]).length
    rw [List.length_append, List.length_singleton]
  · exact h.held_le
  · show s.returned.length ≤ (s.received ++ _).length
    rw [List.length_append]
    omega
  · show (s.received ++ _).length ≤ s.first + 256
    rw [List.length_append]
    exact hwindow
  · intro i hi
    show Owned rxRing (s.card.mem.write32 (descWord rxRing (s.received.length % 256) 0) _) i ↔
      ¬ ∃ k, s.first ≤ k ∧ k < (s.received ++ _).length ∧ k % 256 = i
    rw [owned_write_flags hlt hi, List.length_append]
    split
    · next heq =>
      rw [handBack_flags]
      refine iff_of_false (fun hne => hne rfl) (not_not.mpr ?_)
      refine ⟨s.received.length, ?_, Nat.lt_succ_self _, heq.symm⟩
      unfold RxLine.first
      omega
    · next hne =>
      rw [h.owned_iff i hi]
      apply not_congr
      constructor
      · rintro ⟨k, hk, hklt, hmod⟩
        exact ⟨k, hk, Nat.lt_succ_of_lt hklt, hmod⟩
      · rintro ⟨k, hk, hklt, hmod⟩
        refine ⟨k, hk, ?_, hmod⟩
        rcases Nat.lt_succ_iff_lt_or_eq.mp hklt with hklt | rfl
        · exact hklt
        · exact absurd hmod.symm hne
  · intro k frame hk
    rcases hnth k frame hk with hk | ⟨-, rfl⟩
    · exact h.buffer k frame hk
    · rfl
  · intro k frame hk hkle
    show (s.card.mem.write32 (descWord rxRing (s.received.length % 256) 0) _).read32
      (descWord rxRing (k % 256) 0)
      &&& 0x3FFF = frame.2
    rcases hnth k frame hk with hk | ⟨rfl, rfl⟩
    · -- fewer than 256 frames are on their way, so this one has another descriptor
      have hklt : k < s.received.length := (List.getElem?_eq_some_iff.mp hk).1
      have hkle' : s.returned.length ≤ k := hkle
      have hne : s.received.length % 256 ≠ k % 256 := by
        unfold RxLine.first at hwindow
        omega
      rw [read32_descWord hlt (Nat.mod_lt _ (by decide)) (by decide) (by decide) (by decide)
        (by decide) (.inl hne)]
      exact h.length k frame hk hkle
    · rw [Mem.read32_write32_self]
      exact flags_length flags
  · show s.returned = ((s.received ++ _).take s.returned.length).map virtFrame
    rw [List.take_append_of_le_length hle]
    exact h.order
  · exact h.held_eq
  · exact h.answers

/-- **The card keeps the protocol.** -/
theorem receive_ok {s : RxLine} (h : RxOk rxRing base s) (flags : UInt32) :
    RxOk rxRing base (s.receive rxRing flags) ∧ RxRely rxRing s (s.receive rxRing flags) := by
  by_cases howned : Owned rxRing s.card.mem (s.card.position % 256)
  · exact ⟨rxOk_receive h howned, rxRely_receive howned⟩
  · have hsame : s.receive rxRing flags = s := by
      unfold RxLine.receive Card.handBack
      rw [if_neg howned, if_neg howned]
    rw [hsame]
    exact ⟨h, (rxProtocol rxRing base).rely_refl .driver s⟩

/-! ### Steps of the driver -/

section Driver

variable {α : Type} {c : RxCall} {Q : α → RxLine → RxLine → Prop} {K : RxLine → Prop}

theorem rxStep_get (s : RxLine) :
    (rxMachine rxRing).step .driver c .get s = (s.card.rxCur, s) := by
  simp [rxMachine, CardOp.sem, afterRx]

theorem rxStep_set (v : UInt64) (s : RxLine) :
    (rxMachine rxRing).step .driver c (.set v) s = (0, { s with card := { s.card with rxCur := v } }) := by
  simp [rxMachine, CardOp.sem, afterRx]

theorem rxStep_store32 (a : UInt64) (v : UInt32) (s : RxLine) :
    (rxMachine rxRing).step .driver c (.store32 a v) s =
      (0, { s with card := { s.card with mem := s.card.mem.write32 a v } }) := by
  simp [rxMachine, CardOp.sem, afterRx]

theorem rxStep_flags (s : RxLine) :
    (rxMachine rxRing).step .driver c (.load32 (descWord rxRing s.card.rxCur.toNat 0)) s =
      ((s.card.mem.read32 (descWord rxRing s.card.rxCur.toNat 0)).toUInt64,
        s.count) := by
  simp [rxMachine, CardOp.sem, afterRx, RxLine.count]

theorem rxStep_load32 {a : UInt64} {s : RxLine} (ha : a ≠ descWord rxRing s.card.rxCur.toNat 0) :
    (rxMachine rxRing).step .driver c (.load32 a) s = ((s.card.mem.read32 a).toUInt64, s) := by
  simp [rxMachine, CardOp.sem, afterRx, ha]

/-! ### Polling -/

/-- What a poll knows: its cursor and what has been returned so far are its own. -/
structure Polls (rx : UInt64) (returned : List (UInt64 × UInt32)) (held : List UInt64)
    (s : RxLine) : Prop where
  rx_eq : s.card.rxCur = rx
  returned_eq : s.returned = returned
  held_eq : s.held = held

/-- What a poll knows that has found the frame. -/
structure Finds (rxRing : UInt64) (rx : UInt64) (returned : List (UInt64 × UInt32)) (held : List UInt64)
    (frame : UInt64 × UInt32) (s : RxLine) : Prop extends Polls rx returned held s where
  frame_eq : s.received[returned.length]? = some frame
  waiting_pos : 0 < s.waiting

theorem polls_stable (rx : UInt64) (returned : List (UInt64 × UInt32)) (held : List UInt64) :
    (rxProtocol rxRing base).Stable .driver (Polls rx returned held) := by
  rintro s s' - hr ⟨hrx, hreturned, hheld⟩
  have hr : RxRely rxRing s s' := hr
  exact ⟨by rw [hr.cur]; exact hrx, hr.returned.trans hreturned, hr.held.trans hheld⟩

theorem finds_stable (rx : UInt64) (returned : List (UInt64 × UInt32)) (held : List UInt64)
    (frame : UInt64 × UInt32) :
    (rxProtocol rxRing base).Stable .driver (Finds rxRing rx returned held frame) := by
  rintro s s' hok hr ⟨hpolls, hframe, hwaiting⟩
  have hpolls' := @polls_stable _ base rx returned held s s' hok hr hpolls
  have hr : RxRely rxRing s s' := hr
  refine ⟨hpolls', ?_, ?_⟩
  · obtain ⟨more, hmore⟩ := hr.received
    rw [← hmore, List.getElem?_append_left (List.getElem?_eq_some_iff.mp hframe).1]
    exact hframe
  · rw [hr.waiting]
    exact hwaiting

theorem RxOk.count {s : RxLine} (h : RxOk rxRing base s) : RxOk rxRing base s.count :=
  ⟨h.page_eq, h.rx, h.position, h.held_le, h.returned_le, h.window_le, h.owned_iff, h.buffer,
    h.length, h.order,
    h.held_eq, h.answers⟩

/-- The descriptor at `RX_CUR` belongs to the card exactly when every frame has been returned. -/
theorem RxOk.owned_rx_iff {s : RxLine} (h : RxOk rxRing base s) (hheld : s.held.length < 256) :
    Owned rxRing s.card.mem s.card.rxCur.toNat ↔ s.received.length = s.returned.length := by
  have hheld_le := h.held_le
  have hle := h.returned_le
  have hwindow := h.window_le
  rw [h.rx, h.owned_iff _ (Nat.mod_lt _ (by decide))]
  unfold InWindow RxLine.first at *
  constructor
  · intro hnone
    by_contra hne
    exact hnone ⟨s.returned.length, by omega, by omega, rfl⟩
  · rintro heq ⟨k, hk, hlt, hmod⟩
    omega

theorem rxOk_poll {s : RxLine} (h : RxOk rxRing base s) {rx : UInt64} {returned : List (UInt64 × UInt32)}
    {held : List UInt64} {frame : UInt64 × UInt32} (hK : Finds rxRing rx returned held frame s) {v : UInt64}
    (hv : v.toNat = (returned.length + 1) % 256) :
    RxOk rxRing base { s with
      card := { s.card with rxCur := v }
      returned := s.returned ++ [virtFrame frame]
      held := s.held ++ [(virtFrame frame).1]
      answers := s.answers ++ [(true, s.waiting)] } := by
  have hframe := hK.frame_eq
  rw [← hK.returned_eq] at hframe hv
  have hlt : s.returned.length < s.received.length := (List.getElem?_eq_some_iff.mp hframe).1
  have hfirst : (s.returned ++ [virtFrame frame]).length - (s.held ++ [(virtFrame frame).1]).length
      = s.first := by
    unfold RxLine.first
    rw [List.length_append, List.length_append, List.length_singleton, List.length_singleton]
    omega
  have hfirst_le : s.first ≤ s.returned.length := Nat.sub_le _ _
  constructor
  · exact h.page_eq
  · show v.toNat = (s.returned ++ _).length % 256
    rw [hv, List.length_append, List.length_singleton]
  · exact h.position
  · show (s.held ++ _).length ≤ (s.returned ++ _).length
    rw [List.length_append, List.length_append, List.length_singleton, List.length_singleton]
    exact Nat.succ_le_succ h.held_le
  · show (s.returned ++ _).length ≤ s.received.length
    rw [List.length_append, List.length_singleton]
    exact hlt
  · show s.received.length ≤ _ - _ + 256
    rw [hfirst]
    exact h.window_le
  · intro i hi
    show Owned rxRing s.card.mem i ↔ ¬ ∃ k, _ - _ ≤ k ∧ k < s.received.length ∧ k % 256 = i
    rw [hfirst]
    exact h.owned_iff i hi
  · exact h.buffer
  · intro k frame' hk hle
    apply h.length k frame' hk
    have hle : (s.returned ++ [virtFrame frame]).length ≤ k := hle
    rw [List.length_append] at hle
    omega
  · show s.returned ++ [virtFrame frame] = (s.received.take (s.returned ++ [_]).length).map virtFrame
    rw [List.length_append, List.length_singleton, List.take_add_one, hframe, List.map_append, ← h.order]
    rfl
  · show s.held ++ [(virtFrame frame).1] = ((s.returned ++ [virtFrame frame]).drop (_ - _)).map Prod.fst
    rw [hfirst, List.drop_append_of_le_length hfirst_le, List.map_append, ← h.held_eq]
    rfl
  · intro x hx
    rcases List.mem_append.mp hx with hx | hx
    · exact h.answers x hx
    · rw [List.mem_singleton.mp hx]
      exact iff_of_true rfl hK.waiting_pos

theorem descWord_ne {i off : Nat} (hi : i < 256) (hoff : off < 16) (hne : off ≠ 0) :
    descWord rxRing i off ≠ descWord rxRing i 0 := by
  intro heq
  have hsub : (descWord rxRing i off - rxRing).toNat = (descWord rxRing i 0 - rxRing).toNat := by
    rw [heq]
  rw [descWord_sub hi hoff, descWord_sub hi (by decide)] at hsub
  omega

theorem wp_returnFrame {rx : UInt64} {returned : List (UInt64 × UInt32)} {held : List UInt64}
    {frame : UInt64 × UInt32} {s₀ s : RxLine} (h : RxOk rxRing base s)
    (hK : Finds rxRing rx returned held frame s) :
    RxWp rxRing base .poll (do
      let bufPhysLow ← load32 (rxRing + rx * descSize + 8)
      let bufPhysHigh ← load32 (rxRing + rx * descSize + 12)
      let bufVirt := join bufPhysLow bufPhysHigh + kernelBase
      let cur ← get
      set ((cur + 1) % numRxDesc)
      pure (some (bufVirt, frame.2))) ((rxProtocol rxRing base).Done (i := .driver) RxCall.poll) s₀ s := by
  have hrx : rx.toNat = returned.length % 256 := by
    rw [← hK.rx_eq, h.rx, hK.returned_eq]
  have hlt : rx.toNat < 256 := by
    rw [hrx]
    exact Nat.mod_lt _ (by decide)
  rw [show rxRing + rx * descSize + 8 = descWord rxRing rx.toNat 8 from descWord_eq rxRing rx 8,
    show rxRing + rx * descSize + 12 = descWord rxRing rx.toNat 12 from descWord_eq rxRing rx 12]
  -- the words of the address stay while the card acts
  have hstable : (rxProtocol rxRing base).Stable .driver fun s' => Finds rxRing rx returned held frame s' ∧
      ∀ off ≤ 12, off % 4 = 0 → off ≠ 0 → s'.card.mem.read32 (descWord rxRing rx.toNat off) =
        s.card.mem.read32 (descWord rxRing rx.toNat off) := by
    rintro s₁ s₂ hok hr ⟨hK₁, hword⟩
    refine ⟨finds_stable rx returned held frame s₁ s₂ hok hr hK₁, ?_⟩
    intro off hoff halign hne
    have hr : RxRely rxRing s₁ s₂ := hr
    rw [hr.address _ hlt off hoff halign hne]
    exact hword off hoff halign hne
  have hjoin : join (s.card.mem.read32 (descWord rxRing rx.toNat 8))
      (s.card.mem.read32 (descWord rxRing rx.toNat 12)) = frame.1 := by
    rw [h.buffer _ _ hK.frame_eq, ← hrx]
    exact h.page_eq _ hlt
  apply Protocol.wp_op hstable _ h (guar_rxDriver s₀ s) ⟨hK, fun _ _ _ _ => rfl⟩
  rintro s₁ h₁ ⟨hK₁, hword₁⟩ -
  rw [rxStep_load32 (by rw [hK₁.rx_eq]; exact descWord_ne hlt (by decide) (by decide)),
    hword₁ 8 (by decide) (by decide) (by decide)]
  apply Protocol.wp_op hstable _ h₁ (guar_rxDriver s₁ s₁) ⟨hK₁, hword₁⟩
  rintro s₂ h₂ ⟨hK₂, hword₂⟩ -
  rw [rxStep_load32 (by rw [hK₂.rx_eq]; exact descWord_ne hlt (by decide) (by decide)),
    hword₂ 12 (by decide) (by decide) (by decide)]
  apply Protocol.wp_op (finds_stable rx returned held frame) _ h₂ (guar_rxDriver s₂ s₂) hK₂
  rintro s₃ h₃ hK₃ -
  rw [rxStep_get, hK₃.rx_eq]
  apply Protocol.wp_op (finds_stable rx returned held frame) _ h₃ (guar_rxDriver s₃ s₃) hK₃
  rintro s₄ h₄ hK₄ -
  rw [rxStep_set]
  have hv : ((rx + 1) % numRxDesc).toNat = (returned.length + 1) % 256 := by
    rw [UInt64.toNat_mod, UInt64.toNat_add, hrx]
    show (returned.length % 256 + 1) % 2 ^ 64 % 256 = _
    omega
  have hok := rxOk_poll h₄ hK₄ hv
  rw [← UInt32.toUInt32_toUInt64 (s.card.mem.read32 (descWord rxRing rx.toNat 8)),
    ← UInt32.toUInt32_toUInt64 (s.card.mem.read32 (descWord rxRing rx.toNat 12))] at hjoin
  have hframe : some (join (s.card.mem.read32 (descWord rxRing rx.toNat 8)).toUInt64.toUInt32
      (s.card.mem.read32 (descWord rxRing rx.toNat 12)).toUInt64.toUInt32 + kernelBase, frame.2) =
      some (virtFrame frame) := by
    rw [hjoin]
    rfl
  show (rxProtocol rxRing base).Done (i := .driver) RxCall.poll (some (join
    (s.card.mem.read32 (descWord rxRing rx.toNat 8)).toUInt64.toUInt32
    (s.card.mem.read32 (descWord rxRing rx.toNat 12)).toUInt64.toUInt32 + kernelBase, frame.2)) s₄ _
  rw [hframe]
  exact ⟨hok, guar_rxDriver _ _, trivial⟩

theorem done_none {s s' : RxLine} (h : RxOk rxRing base s') (hwaiting : s'.waiting = 0) :
    (rxProtocol rxRing base).Done (i := .driver) RxCall.poll none s s' := by
  have hfinish : (rxMachine rxRing).finish .driver RxCall.poll none s s' =
      { s' with answers := s'.answers ++ [(false, s'.waiting)] } := by
    simp [rxMachine]
  unfold Protocol.Done
  rw [hfinish]
  refine ⟨⟨h.page_eq, h.rx, h.position, h.held_le, h.returned_le, h.window_le, h.owned_iff,
    h.buffer, h.length,
    h.order, h.held_eq, ?_⟩, guar_rxDriver _ _, trivial⟩
  intro x hx
  rcases List.mem_append.mp hx with hx | hx
  · exact h.answers x hx
  · rw [List.mem_singleton.mp hx, hwaiting]
    exact iff_of_false Bool.noConfusion (Nat.lt_irrefl 0)

@[simp] theorem count_waiting (s : RxLine) : s.count.waiting = s.received.length - s.returned.length := by
  unfold RxLine.count
  rfl

theorem wp_rxGet {f : UInt64 → CardProg α} (hstable : (rxProtocol rxRing base).Stable .driver K)
    (hnext : ∀ s, RxOk rxRing base s → K s → OneHeld rxRing .driver c .get s →
      RxWp rxRing base c (f s.card.rxCur) Q s s)
    {s s₁ : RxLine} (h : RxOk rxRing base s₁) (hK : K s₁) : RxWp rxRing base c (get >>= f) Q s s₁ := by
  apply Protocol.wp_op hstable _ h (guar_rxDriver s s₁) hK
  intro s₂ h₂ hK₂ hguard
  rw [rxStep_get]
  exact hnext s₂ h₂ hK₂ hguard

@[simp] theorem count_card (s : RxLine) : s.count.card = s.card := by
  unfold RxLine.count
  rfl

theorem finds_count {s : RxLine} (h : RxOk rxRing base s) {rx : UInt64} {returned : List (UInt64 × UInt32)}
    {held : List UInt64} (hK : Polls rx returned held s) (hsome : s.received.length ≠ s.returned.length) :
    ∃ frame, Finds rxRing rx returned held frame s.count ∧
      s.card.mem.read32 (descWord rxRing rx.toNat 0) &&& 0x3FFF = frame.2 := by
  have hle := h.returned_le
  have hlt : s.returned.length < s.received.length := by omega
  have hframe : s.received[s.returned.length]? = some s.received[s.returned.length] :=
    List.getElem?_eq_getElem hlt
  refine ⟨s.received[s.returned.length], ⟨⟨?_, ?_, ?_⟩, ?_, ?_⟩, ?_⟩
  · rw [count_card]
    exact hK.rx_eq
  · exact hK.returned_eq
  · exact hK.held_eq
  · rw [← hK.returned_eq]
    exact hframe
  · rw [count_waiting]
    omega
  · have hlength := h.length _ _ hframe (Nat.le_refl _)
    rwa [← h.rx, hK.rx_eq] at hlength

theorem wp_loadFlags {rx : UInt64} {returned : List (UInt64 × UInt32)} {held : List UInt64}
    {f : UInt32 → CardProg α}
    (hnext : ∀ s, RxOk rxRing base s → Polls rx returned held s →
      RxWp rxRing base c (f (s.card.mem.read32 (descWord rxRing rx.toNat 0))) Q s s.count)
    {s s₁ : RxLine} (h : RxOk rxRing base s₁) (hK : Polls rx returned held s₁) :
    RxWp rxRing base c (load32 (descWord rxRing rx.toNat 0) >>= f) Q s s₁ := by
  apply Protocol.wp_op (polls_stable rx returned held) _ h (guar_rxDriver s s₁) hK
  intro s₂ h₂ hK₂ _
  have hstep := @rxStep_flags rxRing c s₂
  rw [hK₂.rx_eq] at hstep
  rw [hstep]
  have hnext₂ := hnext s₂ h₂ hK₂
  rw [← UInt32.toUInt32_toUInt64 (s₂.card.mem.read32 (descWord rxRing rx.toNat 0))] at hnext₂
  exact hnext₂

/-- **A poll keeps the protocol.** -/
theorem wp_rxPoll {s : RxLine} (h : RxOk rxRing base s) :
    RxWp rxRing base .poll (rxPoll rxRing)
      ((rxProtocol rxRing base).Done (i := .driver) RxCall.poll) s s := by
  unfold rxPoll
  have hK : Polls (s.card.rxCur) s.returned s.held s := ⟨rfl, rfl, rfl⟩
  apply wp_rxGet (polls_stable _ _ _) _ h hK
  intro s₁ h₁ hK₁ hguard
  have hheld : s₁.held.length < 256 := hguard
  rw [hK₁.held_eq] at hheld
  rw [hK₁.rx_eq]
  generalize s.card.rxCur = rx at hK₁ ⊢
  generalize s.returned = returned at hK₁
  generalize s.held = held at hK₁ hheld
  dsimp only
  rw [show rxRing + rx * descSize + 0 = descWord rxRing rx.toNat 0 from descWord_eq rxRing rx 0]
  apply wp_loadFlags _ h₁ hK₁
  intro s₂ h₂ hK₂
  have howned := h₂.owned_rx_iff (by rw [hK₂.held_eq]; exact hheld)
  rw [hK₂.rx_eq] at howned
  split
  · next hown =>
    -- the card owns the descriptor, and no frame is waiting
    have hnone : s₂.received.length = s₂.returned.length := howned.mp (by simpa [Owned] using hown)
    apply done_none h₂.count
    rw [count_waiting, hnone, Nat.sub_self]
  · next hown =>
    have hsome : s₂.received.length ≠ s₂.returned.length := by
      intro heq
      exact hown (by simpa [Owned] using howned.mpr heq)
    obtain ⟨frame, hfinds, hlength⟩ := finds_count h₂ hK₂ hsome
    rw [hlength]
    exact wp_returnFrame h₂.count hfinds

/-! ### Reposting -/

/-- What a repost knows: the buffer is the only one that is held. -/
structure Reposts (rx : UInt64) (bufVirt : UInt64) (s : RxLine) : Prop where
  rx_eq : s.card.rxCur = rx
  held_eq : s.held = [bufVirt]

theorem reposts_stable (rx bufVirt : UInt64) :
    (rxProtocol rxRing base).Stable .driver (Reposts rx bufVirt) := by
  rintro s s' - hr ⟨hrx, hheld⟩
  have hr : RxRely rxRing s s' := hr
  exact ⟨by rw [hr.cur]; exact hrx, hr.held.trans hheld⟩

/-- The target of the repost is the descriptor of the last frame that was returned, and the buffer is its
own. -/
theorem Reposts.target {s : RxLine} (h : RxOk rxRing base s) {rx bufVirt : UInt64}
    (hK : Reposts rx bufVirt s) :
    0 < s.returned.length ∧ ((rx + numRxDesc - 1) % numRxDesc).toNat = (s.returned.length - 1) % 256 ∧
      bufVirt = base ((s.returned.length - 1) % 256) + kernelBase := by
  have hheld_le := h.held_le
  have hle := h.returned_le
  rw [hK.held_eq, List.length_singleton] at hheld_le
  have hrx : rx.toNat = s.returned.length % 256 := by
    rw [← hK.rx_eq]
    exact h.rx
  refine ⟨hheld_le, ?_, ?_⟩
  · rw [UInt64.toNat_mod, UInt64.toNat_sub, UInt64.toNat_add, hrx]
    show (2 ^ 64 - 1 + (s.returned.length % 256 + 256) % 2 ^ 64) % 2 ^ 64 % 256 = _
    omega
  · have hfirst : s.first = s.returned.length - 1 := by
      unfold RxLine.first
      rw [hK.held_eq, List.length_singleton]
    have hframe : s.received[s.returned.length - 1]? = some s.received[s.returned.length - 1] :=
      List.getElem?_eq_getElem (by omega)
    have hlast : s.returned[s.returned.length - 1]? = some (virtFrame s.received[s.returned.length - 1]) := by
      have hget := congrArg (fun l : List (UInt64 × UInt32) => l[s.returned.length - 1]?) h.order
      simp only [List.getElem?_map, List.getElem?_take] at hget
      rw [hget, if_pos (by omega), hframe]
      rfl
    have hheld := congrArg (fun l : List UInt64 => l[0]?) h.held_eq
    simp only [List.getElem?_map, List.getElem?_drop, hfirst, hK.held_eq, Nat.add_zero, hlast] at hheld
    have hbuf : bufVirt = s.received[s.returned.length - 1].1 + kernelBase := by
      simpa [virtFrame] using hheld
    rw [hbuf, h.buffer _ _ hframe]

theorem RxOk.withMem {s : RxLine} (h : RxOk rxRing base s) {m : Mem}
    (hword : ∀ i < 256, ∀ off ≤ 12, off % 4 = 0 →
      m.read32 (descWord rxRing i off) = s.card.mem.read32 (descWord rxRing i off)) :
    RxOk rxRing base { s with card := { s.card with mem := m } } := by
  refine ⟨?_, h.rx, h.position, h.held_le, h.returned_le, h.window_le, ?_, h.buffer, ?_, h.order, h.held_eq,
    h.answers⟩
  · intro i hi
    show join (m.read32 _) (m.read32 _) = base i
    rw [hword i hi 8 (by decide) (by decide), hword i hi 12 (by decide) (by decide)]
    exact h.page_eq i hi
  · intro i hi
    show m.read32 _ &&& descOwn ≠ 0 ↔ _
    rw [hword i hi 0 (by decide) (by decide)]
    exact h.owned_iff i hi
  · intro k frame hk hle
    show m.read32 _ &&& 0x3FFF = frame.2
    rw [hword _ (Nat.mod_lt _ (by decide)) 0 (by decide) (by decide)]
    exact h.length k frame hk hle

theorem read32_write_same {m : Mem} {i off : Nat} (hi : i < 256) (hoff : off ≤ 12) (halign : off % 4 = 0) :
    ∀ j < 256, ∀ off' ≤ 12, off' % 4 = 0 →
      (m.write32 (descWord rxRing i off) (m.read32 (descWord rxRing i off))).read32 (descWord rxRing j off') =
        m.read32 (descWord rxRing j off') := by
  intro j hj off' hoff' halign'
  by_cases hsame : i = j ∧ off = off'
  · obtain ⟨rfl, rfl⟩ := hsame
    exact Mem.read32_write32_self ..
  · exact read32_descWord hi hj hoff hoff' halign halign' (by omega) _

theorem rxOk_repost {s : RxLine} (h : RxOk rxRing base s) {rx bufVirt : UInt64} (hK : Reposts rx bufVirt s)
    {flags : UInt32} (hflags : flags &&& descOwn ≠ 0) :
    RxOk rxRing base { s with
      card := { s.card with
        mem := s.card.mem.write32 (descWord rxRing ((s.returned.length - 1) % 256) 0) flags }
      held := [] } := by
  obtain ⟨hpos, -, -⟩ := hK.target h
  have hlt : (s.returned.length - 1) % 256 < 256 := Nat.mod_lt _ (by decide)
  have hfirst : s.first = s.returned.length - 1 := by
    unfold RxLine.first
    rw [hK.held_eq, List.length_singleton]
  have hwindow := h.window_le
  have hle := h.returned_le
  constructor
  · intro i hi
    exact (page_write_flags hlt hi _).trans (h.page_eq i hi)
  · exact h.rx
  · exact h.position
  · exact Nat.zero_le _
  · exact h.returned_le
  · show s.received.length ≤ s.returned.length - 0 + 256
    omega
  · intro i hi
    show Owned rxRing (s.card.mem.write32 _ flags) i ↔
      ¬ ∃ k, s.returned.length - 0 ≤ k ∧ k < s.received.length ∧ k % 256 = i
    rw [owned_write_flags hlt hi]
    split
    · next heq =>
      refine iff_of_true hflags ?_
      rintro ⟨k, hk, hklt, hmod⟩
      omega
    · next hne =>
      rw [h.owned_iff i hi]
      apply not_congr
      constructor
      · rintro ⟨k, hk, hklt, hmod⟩
        rw [hfirst] at hk
        refine ⟨k, ?_, hklt, hmod⟩
        by_contra hk'
        exact hne (by rw [← hmod, show k = s.returned.length - 1 by omega])
      · rintro ⟨k, hk, hklt, hmod⟩
        exact ⟨k, by omega, hklt, hmod⟩
  · exact h.buffer
  · intro k frame hk hle'
    have hklt : k < s.received.length := (List.getElem?_eq_some_iff.mp hk).1
    have hle' : s.returned.length ≤ k := hle'
    have hne : (s.returned.length - 1) % 256 ≠ k % 256 := by omega
    show (s.card.mem.write32 _ flags).read32 (descWord rxRing (k % 256) 0) &&& 0x3FFF = frame.2
    rw [read32_descWord hlt (Nat.mod_lt _ (by decide)) (by decide) (by decide) (by decide)
      (by decide) (.inl hne)]
    exact h.length k frame hk hle'
  · exact h.order
  · show [] = (s.returned.drop (s.returned.length - 0)).map Prod.fst
    rw [Nat.sub_zero, List.drop_length, List.map_nil]
  · exact h.answers

theorem Reposts.words {s : RxLine} (h : RxOk rxRing base s) {rx bufVirt : UInt64}
    (hK : Reposts rx bufVirt s) :
    let target := ((rx + numRxDesc - 1) % numRxDesc).toNat
    target < 256 ∧
      ((bufVirt - kernelBase) &&& 0xFFFFFFFF).toUInt32 = s.card.mem.read32 (descWord rxRing target 8) ∧
      (((bufVirt - kernelBase) >>> 32) &&& 0xFFFFFFFF).toUInt32 =
        s.card.mem.read32 (descWord rxRing target 12) := by
  obtain ⟨-, htarget, hbuf⟩ := hK.target h
  intro target
  have hlt : target < 256 := by
    show ((rx + numRxDesc - 1) % numRxDesc).toNat < 256
    rw [htarget]
    exact Nat.mod_lt _ (by decide)
  have hphys : bufVirt - kernelBase = page rxRing s.card.mem target := by
    rw [h.page_eq _ hlt, hbuf, ← htarget]
    exact UInt64.add_sub_cancel _ _
  rw [hphys]
  exact ⟨hlt, low_join _ _, high_join _ _⟩

/-- **A repost of the only held buffer keeps the protocol.** -/
theorem wp_rxRepost {bufVirt : UInt64} {s : RxLine} (h : RxOk rxRing base s) :
    RxWp rxRing base (.repost bufVirt) (rxRepost rxRing bufVirt)
      (fun _ s s' => (rxProtocol rxRing base).Done (i := .driver) (RxCall.repost bufVirt) none s s') s s := by
  unfold rxRepost
  apply wp_rxGet (K := fun _ => True) (fun _ _ _ _ _ => trivial) _ h trivial
  intro s₁ h₁ _ hguard
  have hK₁ : Reposts (s₁.card.rxCur) bufVirt s₁ := ⟨rfl, hguard⟩
  generalize s₁.card.rxCur = rx at hK₁ ⊢
  dsimp only
  rw [show rxRing + (rx + numRxDesc - 1) % numRxDesc * descSize + 8 =
    descWord rxRing _ 8 from descWord_eq rxRing _ 8,
    show rxRing + (rx + numRxDesc - 1) % numRxDesc * descSize + 12 = descWord rxRing _ 12 from
      descWord_eq rxRing _ 12,
    show rxRing + (rx + numRxDesc - 1) % numRxDesc * descSize + 0 =
      descWord rxRing _ 0 from descWord_eq rxRing _ 0]
  apply Protocol.wp_op (reposts_stable rx bufVirt) _ h₁ (guar_rxDriver s₁ s₁) hK₁
  intro s₂ h₂ hK₂ _
  obtain ⟨hlt, hlo, -⟩ := hK₂.words h₂
  rw [rxStep_store32, hlo]
  apply Protocol.wp_op (reposts_stable rx bufVirt) _
    (h₂.withMem (read32_write_same hlt (by decide) (by decide)))
    (guar_rxDriver s₂ _) ⟨hK₂.rx_eq, hK₂.held_eq⟩
  intro s₃ h₃ hK₃ _
  obtain ⟨-, -, hhi⟩ := hK₃.words h₃
  rw [rxStep_store32, hhi]
  apply Protocol.wp_op (reposts_stable rx bufVirt) _
    (h₃.withMem (read32_write_same hlt (by decide) (by decide)))
    (guar_rxDriver s₃ _) ⟨hK₃.rx_eq, hK₃.held_eq⟩
  intro s₄ h₄ hK₄ _
  rw [rxStep_store32, (hK₄.target h₄).2.1]
  refine ⟨?_, guar_rxDriver _ _, trivial⟩
  have hflags : ∀ b : Bool, (if b then descOwn ||| 1514 ||| descEor else descOwn ||| 1514) &&&
      descOwn ≠ 0 := by
    decide
  have hheld : s₄.held.tail = [] := by
    rw [hK₄.held_eq]
    rfl
  have hok := rxOk_repost h₄ hK₄ (hflags ((rx + numRxDesc - 1) % numRxDesc == numRxDesc - 1))
  rw [← hheld] at hok
  exact hok

/-- **Every call of the driver keeps the protocol.** -/
theorem wp_rxBody {s : RxLine} (h : RxOk rxRing base s) :
    RxWp rxRing base c ((rxMachine rxRing).body .driver c)
      ((rxProtocol rxRing base).Done (i := .driver) c) s s := by
  cases c with
  | poll => exact wp_rxPoll h
  | repost bufVirt =>
    apply (Protocol.wp_bind (rxRepost rxRing bufVirt) _ _ _ _).mpr
    exact wp_rxRepost h

end Driver

/-! ### Every run -/

theorem rxProtocol_verified : (rxProtocol rxRing base).Verified := by
  intro i c s h _
  cases i with
  | driver => exact wp_rxBody h
  | card =>
    refine ⟨⟨h, Protocol.guar_refl _ s⟩, ?_⟩
    intro s₂ _ h₂ _
    obtain ⟨hok, hrely⟩ := receive_ok h₂ c
    refine ⟨hok, ?_, trivial⟩
    rintro (_ | _) hne
    · exact hrely
    · exact absurd rfl hne

theorem rxOk_init {s : Card} (h : FreshRx rxRing s) : RxOk rxRing (page rxRing s.mem) (RxLine.init s) := by
  constructor
  · exact fun _ _ => rfl
  · show s.rxCur.toNat = 0 % 256
    rw [h.rx]
    rfl
  · exact h.position
  · exact Nat.le_refl 0
  · exact Nat.le_refl 0
  · exact Nat.zero_le _
  · intro i hi
    refine iff_of_true (h.owned i hi) ?_
    rintro ⟨k, -, hk, -⟩
    exact absurd hk (Nat.not_lt_zero k)
  · intro k frame hk
    cases hk
  · intro k frame hk
    cases hk
  · rfl
  · rfl
  · intro x hx
    exact absurd hx List.not_mem_nil

theorem RxOk.rxLaw {cfg : (rxMachine rxRing).Config} (h : RxOk rxRing base cfg.shared)
    (hdistinct : ∀ i < 256, ∀ j < 256, base i = base j → i = j) : RxLaw rxRing cfg := by
  constructor
  · rw [h.order, List.map_take]
    exact List.take_prefix _ _
  · exact h.answers
  · intro i hi j hj heq
    rw [h.page_eq i hi, h.page_eq j hj] at heq
    exact hdistinct i hi j hj heq
  · intro _ hheld hall i hi
    rw [h.owned_iff i hi]
    rintro ⟨k, hk, hlt, -⟩
    unfold RxLine.first at hk
    rw [hheld, hall, List.length_nil] at hk
    omega

/-- **Every received frame is delivered once** in every interleaving of the card with polls and reposts, when
each repost is for the only buffer that is held, and each poll is made while fewer than 256 are. -/
theorem rxLaw_run {s : Card} (hfresh : FreshRx rxRing s) {events : List (rxMachine rxRing).Event}
    (hheld : Admissible Machine.exec (rxProtocol rxRing (page rxRing s.mem)).Allowed
      (Machine.start (RxLine.init s)) events) :
    RxLaw rxRing (runOps Machine.exec (Machine.start (RxLine.init s)) events) :=
  (Protocol.configOk_run rxProtocol_verified (rxOk_init hfresh) (fun _ => trivial) hheld).1.rxLaw
    hfresh.distinct

section Sample

def sampleRxRing : UInt64 := kernelBase + 0x400000

/-- A ring whose descriptor `i` has the buffer `4096 * (i + 1)`. -/
def sampleRx : Card where
  mem := fun x =>
    let off := (x - sampleRxRing).toNat
    if off < 4096 then
      match off % 16 with
      | 0 => 0xEA
      | 1 => 0x05
      | 3 => if off / 16 = 255 then 0xC0 else 0x80
      | 9 => UInt8.ofNat (16 * (off / 16 + 1))
      | 10 => UInt8.ofNat ((off / 16 + 1) / 16)
      | _ => 0
    else 0
  rxCur := 0
  position := 0

theorem page_sampleRx : ∀ i < 256, page sampleRxRing sampleRx.mem i = UInt64.ofNat (4096 * (i + 1)) := by
  decide +kernel

theorem freshRx_sampleRx : FreshRx sampleRxRing sampleRx where
  rx := rfl
  position := rfl
  owned := by decide +kernel
  distinct := by
    intro i hi j hj heq
    rw [page_sampleRx i hi, page_sampleRx j hj, ← UInt64.toNat_inj, UInt64.toNat_ofNat',
      UInt64.toNat_ofNat'] at heq
    omega

/-- A frame is received. -/
def receivedFrame (flags : UInt32) : List (rxMachine sampleRxRing).Event :=
  [.call .card flags, .step .card]

/-- A poll, which takes six steps when it finds a frame. -/
def polled : List (rxMachine sampleRxRing).Event :=
  .call .driver RxCall.poll :: List.replicate 6 (.step .driver)

/-- A repost. -/
def reposted (bufVirt : UInt64) : List (rxMachine sampleRxRing).Event :=
  .call .driver (RxCall.repost bufVirt) :: List.replicate 4 (.step .driver)

theorem rxLaw_one :
    RxLaw sampleRxRing (runOps Machine.exec (Machine.start (RxLine.init sampleRx))
      (receivedFrame 60 ++ polled ++ reposted (kernelBase + 0x1000))) := by
  apply rxLaw_run freshRx_sampleRx
  decide +kernel

/-- Two frames are received and polled, and the buffer of the first one is reposted. -/
def twoHeldRun : List (rxMachine sampleRxRing).Event :=
  receivedFrame 60 ++ receivedFrame 61 ++ polled ++ polled ++ reposted (kernelBase + 0x1000)

/-- **A repost hits the wrong descriptor** when two buffers are held: the first one gets into the descriptor
of the second one, and is then in two descriptors. -/
theorem not_rxLaw_two :
    ¬ ∀ (rxRing : UInt64) (s : Card), FreshRx rxRing s → ∀ events : List (rxMachine rxRing).Event,
      Admissible Machine.exec (Ordered rxRing) (Machine.start (RxLine.init s)) events →
        RxLaw rxRing (runOps Machine.exec (Machine.start (RxLine.init s)) events) := by
  intro h
  have hlaw := h sampleRxRing sampleRx freshRx_sampleRx twoHeldRun (by decide +kernel)
  generalize hcfg : runOps Machine.exec (Machine.start (RxLine.init sampleRx)) twoHeldRun = cfg at hlaw
  have hsame : page sampleRxRing cfg.shared.card.mem 0 = page sampleRxRing cfg.shared.card.mem 1 := by
    rw [← hcfg]
    decide +kernel
  exact absurd (hlaw.distinct 0 (by decide) 1 (by decide) hsame) (by decide)

end Sample

end Keuos.Rtl8125
