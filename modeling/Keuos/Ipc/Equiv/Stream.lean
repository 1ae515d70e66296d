import Keuos.Ipc.Equiv.Producer
import Keuos.Ipc.Equiv.Consumer

/-!
# The byte stream

Both sides keep the protocol, and `spsc_init` establishes it, so it holds in every interleaving of the
two.  `stream_preserved` reads off what it says about the bytes: those that were received, followed by
those in the ring, are those that were sent.
-/

namespace Keuos.Ipc

theorem spsc_verified (base : UInt64) : (spscProtocol base).Verified := by
  rintro (_ | _) c s h hidle
  · exact wp_pushBody c h hidle
  · exact wp_popBody c h

/-! ### Initialization -/

section Init

variable (base : UInt64)

theorem read64_zeroData {j : Nat} (hj : j + 8 ≤ 192) (n : Nat) :
    ∀ (i : UInt64) (m : Mem), i.toNat + n ≤ 3904 →
      ((zeroData base n i).runAlone MemOp.sem m).2.read64 (base + UInt64.ofNat j) =
        m.read64 (base + UInt64.ofNat j) := by
  induction n with
  | zero =>
    intro i m _
    rfl
  | succ n ih =>
    intro i m hi
    have hsucc : (i + 1).toNat = i.toNat + 1 := by
      rw [UInt64.toNat_add, UInt64.toNat_one, Nat.mod_eq_of_lt (by omega)]
    have haddr : base + dataOffset + i = base + UInt64.ofNat (192 + i.toNat) := by
      rw [UInt64.ofNat_add, UInt64.ofNat_toNat, UInt64.add_assoc]
      rfl
    show ((zeroData base n (i + 1)).runAlone MemOp.sem
      (m.write8 (base + dataOffset + i) 0)).2.read64 (base + UInt64.ofNat j) = _
    rw [ih (i + 1) _ (by omega), haddr]
    exact Mem.read64_write8_offset (by omega) (by omega) (by omega)

/-- The four stores of `spsc_init`. -/
def initHeader (m : Mem) : Mem :=
  (((m.write64 (base + headOffset) 0).write64 (base + capacityOffset) dataCapacity).write64
    (base + tailOffset) 0).write64 (base + consumerWaitingOffset) 0

theorem spscInit_mem (m : Mem) :
    ((spscInit base).runAlone MemOp.sem m).2 =
      ((zeroData base dataCapacity.toNat 0).runAlone MemOp.sem (initHeader base m)).2 := by
  unfold spscInit
  simp only [Prog.bind_eq, Prog.runAlone_bind]
  rfl

theorem read64_spscInit {j : Nat} (hj : j + 8 ≤ 192) (m : Mem) :
    ((spscInit base).runAlone MemOp.sem m).2.read64 (base + UInt64.ofNat j) =
      (initHeader base m).read64 (base + UInt64.ofNat j) := by
  rw [spscInit_mem]
  exact read64_zeroData base hj _ 0 _ (by decide)

theorem zeroData_eq_self (n : Nat) : ∀ (i : UInt64) (m : Mem),
    (∀ j < n, m (base + dataOffset + i + UInt64.ofNat j) = 0) →
      ((zeroData base n i).runAlone MemOp.sem m).2 = m := by
  induction n with
  | zero =>
    intro i m _
    rfl
  | succ n ih =>
    intro i m h
    have hfirst : m (base + dataOffset + i) = 0 := by simpa using h 0 (Nat.zero_lt_succ _)
    have hsame : m.write8 (base + dataOffset + i) 0 = m := by
      unfold Mem.write8
      rw [← hfirst, Function.update_eq_self]
    show ((zeroData base n (i + 1)).runAlone MemOp.sem (m.write8 (base + dataOffset + i) 0)).2 = m
    rw [hsame]
    refine ih (i + 1) m fun j hj => ?_
    have := h (j + 1) (Nat.succ_lt_succ hj)
    rwa [Nat.add_comm, UInt64.ofNat_add, ← UInt64.add_assoc, UInt64.add_assoc _ i] at this

theorem initRing_zero : initRing base (fun _ => 0) = ⟨initHeader base fun _ => 0, [], [], []⟩ := by
  unfold initRing
  rw [spscInit_mem, zeroData_eq_self]
  intro j hj
  rw [dataCapacity_toNat] at hj
  have hout : ∀ {k : Nat}, k ≤ 128 → ¬ InBlock (base + UInt64.ofNat k) 8
      (base + dataOffset + 0 + UInt64.ofNat j) := by
    intro k hk hin
    have hdiff : base + dataOffset + 0 + UInt64.ofNat j - (base + UInt64.ofNat k) =
        UInt64.ofNat (192 - k + j) := by
      rw [UInt64.ofNat_add, UInt64.ofNat_sub (by omega)]
      change base + 192 + 0 + UInt64.ofNat j - (base + UInt64.ofNat k) = 192 - UInt64.ofNat k + UInt64.ofNat j
      grind
    unfold InBlock at hin
    rw [hdiff, UInt64.toNat_ofNat', Nat.mod_eq_of_lt (by omega)] at hin
    omega
  refine (Mem.write64_of_not_mem (hout (k := 128) (by decide))).trans ?_
  refine (Mem.write64_of_not_mem (hout (k := 64) (by decide))).trans ?_
  refine (Mem.write64_of_not_mem (hout (k := 8) (by decide))).trans ?_
  exact Mem.write64_of_not_mem (hout (k := 0) (by decide))

/-- **`spsc_init` makes an empty ring.** -/
theorem good_initRing (m : Mem) : Good base (initRing base m) := by
  have hmem : (initRing base m).mem = ((spscInit base).runAlone MemOp.sem m).2 := by
    rw [initRing]
  have hhead : (initRing base m).mem.read64 (base + headOffset) = 0 := by
    rw [hmem, show headOffset = UInt64.ofNat 0 from rfl, read64_spscInit base (by decide)]
    unfold initHeader
    refine (Mem.read64_write64_offset (i := 128) (j := 0) (by decide) (by decide) (by decide)).trans ?_
    refine (Mem.read64_write64_offset (i := 64) (j := 0) (by decide) (by decide) (by decide)).trans ?_
    refine (Mem.read64_write64_offset (i := 8) (j := 0) (by decide) (by decide) (by decide)).trans ?_
    exact Mem.read64_write64_self ..
  have htail : (initRing base m).mem.read64 (base + tailOffset) = 0 := by
    rw [hmem, show tailOffset = UInt64.ofNat 64 from rfl, read64_spscInit base (by decide)]
    unfold initHeader
    refine (Mem.read64_write64_offset (i := 128) (j := 64) (by decide) (by decide) (by decide)).trans ?_
    exact Mem.read64_write64_self ..
  have hcap : (initRing base m).mem.read64 (base + capacityOffset) = dataCapacity := by
    rw [hmem, show capacityOffset = UInt64.ofNat 8 from rfl, read64_spscInit base (by decide)]
    unfold initHeader
    refine (Mem.read64_write64_offset (i := 128) (j := 8) (by decide) (by decide) (by decide)).trans ?_
    refine (Mem.read64_write64_offset (i := 64) (j := 8) (by decide) (by decide) (by decide)).trans ?_
    exact Mem.read64_write64_self ..
  refine ⟨hcap, ?_, ?_, List.prefix_refl _, List.prefix_refl _, Nat.zero_le _, ?_⟩
  · rw [hhead]
    rfl
  · rw [htail]
    rfl
  · intro i _ hi
    exact absurd hi (Nat.not_lt_zero i)

end Init

/-! ### Runs -/

section Runs

variable {base : UInt64}

theorem sent_le_step (i : Side) (c : (spscMachine base).Call i) (o : MemOp) (s : Ring) :
    s.sent.length ≤ ((spscMachine base).step i c o s).2.sent.length := by
  cases i with
  | producer =>
    show s.sent.length ≤ (s.sent ++ _).length
    rw [List.length_append]
    exact Nat.le_add_right ..
  | consumer => exact Nat.le_refl _

theorem sent_finish (i : Side) (c : (spscMachine base).Call i) (a : (spscMachine base).Res i)
    (before s : Ring) :
    ((spscMachine base).finish i c a before s).sent.length = s.sent.length := by
  cases i <;> rfl

theorem Good.ringBytes {s : Ring} (h : Good base s) :
    s.received ++ ringBytes base s.mem = s.sent := by
  obtain ⟨rest, hrest⟩ := h.received
  have hlen : s.received.length + rest.length = s.sent.length := by
    rw [← hrest, List.length_append]
  have hcount : (s.mem.read64 (base + headOffset) - s.mem.read64 (base + tailOffset)).toNat =
      rest.length := by
    rw [toNat_sub_indices (by rw [h.head, h.tail]; omega), h.head, h.tail]
    omega
  rw [← hrest]
  congr 1
  unfold Ipc.ringBytes
  dsimp only
  rw [hcount]
  refine List.ext_getElem (by simp) ?_
  intro i hi hi'
  rw [List.getElem_map, List.getElem_range, h.tail]
  have hi'' : s.received.length + i < s.sent.length := by omega
  have hdata := h.data (s.received.length + i) (Nat.le_add_right ..) hi''
  have haddr : base + dataOffset + UInt64.ofNat ((s.received.length + i) % dataCapacity.toNat) =
      dataAddr base (s.received.length + i) := by
    apply dataAddr_eq
    rw [UInt64.toNat_ofNat', dataCapacity_toNat]
    omega
  rw [haddr, hdata]
  simp only [← hrest]
  rw [List.getElem_append_right (Nat.le_add_right ..)]
  congr 1
  omega

end Runs

/-- **The ring carries a byte stream.**  In every interleaving of the two sides after `spsc_init`, as
long as fewer than 2^64 bytes were sent: the tail is at most the head, at most 3904 bytes lie between
them, and the bytes that the consumer received followed by those in the ring are the bytes that the
producer sent.  When the producer is not inside a call, these are the bytes that the results of its
calls say were accepted. -/
theorem stream_preserved (base : UInt64) (m : Mem) (events : List (spscMachine base).Event)
    (hsent : (runOps Machine.exec (Machine.start (initRing base m)) events).shared.sent.length <
      2 ^ 64) :
    let cfg := runOps Machine.exec (Machine.start (initRing base m)) events
    let s := cfg.shared
    let head := s.mem.read64 (base + headOffset)
    let tail := s.mem.read64 (base + tailOffset)
    tail ≤ head ∧ head - tail ≤ s.mem.read64 (base + capacityOffset) ∧
      s.mem.read64 (base + capacityOffset) = 3904 ∧
      s.received ++ ringBytes base s.mem = s.sent ∧ s.accepted <+: s.sent ∧
      (cfg.thread .producer = none → s.accepted = s.sent) := by
  intro cfg s head tail
  have hidle : ∀ i, (spscProtocol base).Idle i (initRing base m) := by
    rintro (_ | _)
    · rfl
    · trivial
  obtain ⟨hgood, hthreads⟩ : (spscProtocol base).ConfigOk cfg :=
    Protocol.configOk_bounded (f := fun s => s.sent.length) (spsc_verified base) sent_le_step sent_finish
      (fun _ _ _ _ h => h) (good_initRing base m) hidle hsent
  have h : Good base s := hgood
  have hle : tail.toNat ≤ head.toNat := by
    rw [h.head, h.tail]
    exact h.received.length_le
  refine ⟨UInt64.le_iff_toNat_le.mpr hle, ?_, h.cap, h.ringBytes, h.accepted, ?_⟩
  · have hroom := h.room
    rw [h.cap, UInt64.le_iff_toNat_le, toNat_sub_indices hle, h.head, h.tail, dataCapacity_toNat]
    omega
  · intro hnone
    have hproducer := hthreads .producer
    unfold Protocol.ThreadOk at hproducer
    rw [hnone] at hproducer
    exact hproducer

/-- A pop reads the head before a push has begun and finds nothing; the next one takes the byte. -/
def popAheadOfPush : List (spscMachine 0x1000).Event :=
  [.call .producer (Push.push 7), .call .consumer Pop.pop, .step .consumer] ++
    List.replicate 5 (.step .producer) ++ List.replicate 2 (.step .consumer) ++
    .call .consumer Pop.pop :: List.replicate 6 (.step .consumer)

theorem popAheadOfPush_run :
    let cfg := runOps Machine.exec (Machine.start (initRing 0x1000 fun _ => 0)) popAheadOfPush
    cfg.shared.sent.length < 2 ^ 64 ∧ cfg.shared.received = [7] := by
  rw [initRing_zero]
  decide +kernel

theorem stream_preserved_popAheadOfPush :
    let cfg := runOps Machine.exec (Machine.start (initRing 0x1000 fun _ => 0)) popAheadOfPush
    cfg.shared.sent.length < 2 ^ 64 ∧ cfg.shared.received = [7] ∧
      cfg.shared.received ++ ringBytes 0x1000 cfg.shared.mem = cfg.shared.sent :=
  ⟨popAheadOfPush_run.1, popAheadOfPush_run.2,
    (stream_preserved 0x1000 (fun _ => 0) popAheadOfPush popAheadOfPush_run.1).2.2.2.1⟩

end Keuos.Ipc
