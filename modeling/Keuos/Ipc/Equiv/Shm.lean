import Keuos.Ipc.Shm

/-!
# The ring carries a byte stream

The state of the ring is described by two sequences: the bytes `sent` and the bytes `received`.
`Good` says that the head and the tail count them, that no more than 3904 bytes are on the way, and
that the byte with number `i` of the stream lies at position `i % 3904`.

The producer relies on the consumer to leave the data alone and to receive more; the consumer relies
on the producer to send more and to leave the bytes alone that are on the way (`spscProtocol`).  Each
side reads the other's index once per call, and what it then knows stays true while the other side
moves on: `PushKnows` is what the producer knows about the free room and the bytes it has copied,
`PopKnows` what the consumer knows about the bytes it may take.
-/

namespace Keuos.Ipc

/-! ### The page -/

/-- The address of the byte with number `n` of the stream. -/
def dataAddr (base : UInt64) (n : Nat) : UInt64 :=
  base + UInt64.ofNat (192 + n % 3904)

theorem dataAddr_eq (base : UInt64) {idx : UInt64} {n : Nat} (h : idx.toNat = n % 3904) :
    base + dataOffset + idx = dataAddr base n := by
  unfold dataAddr dataOffset
  have hidx : idx = UInt64.ofNat (n % 3904) := by
    rw [← h, UInt64.ofNat_toNat]
  rw [hidx, UInt64.ofNat_add, UInt64.add_assoc]
  rfl

theorem dataAddr_inj {base : UInt64} {n k : Nat} (h : dataAddr base n = dataAddr base k) :
    n % 3904 = k % 3904 := by
  unfold dataAddr at h
  have hoff : UInt64.ofNat (192 + n % 3904) = UInt64.ofNat (192 + k % 3904) := by grind
  have hnat := congrArg UInt64.toNat hoff
  rw [UInt64.toNat_ofNat', UInt64.toNat_ofNat'] at hnat
  omega

section Words

variable (base : UInt64) (m : Mem)

theorem head_write8 (n : Nat) (b : UInt8) :
    (m.write8 (dataAddr base n) b).read64 (base + headOffset) = m.read64 (base + headOffset) :=
  Mem.read64_write8_offset (j := 0) (by omega) (by decide) (by omega)

theorem tail_write8 (n : Nat) (b : UInt8) :
    (m.write8 (dataAddr base n) b).read64 (base + tailOffset) = m.read64 (base + tailOffset) :=
  Mem.read64_write8_offset (j := 64) (by omega) (by decide) (by omega)

theorem cap_write8 (n : Nat) (b : UInt8) :
    (m.write8 (dataAddr base n) b).read64 (base + capacityOffset) =
      m.read64 (base + capacityOffset) :=
  Mem.read64_write8_offset (j := 8) (by omega) (by decide) (by omega)

theorem tail_write_head (v : UInt64) :
    (m.write64 (base + headOffset) v).read64 (base + tailOffset) = m.read64 (base + tailOffset) :=
  Mem.read64_write64_offset (i := 0) (j := 64) (by decide) (by decide) (by decide)

theorem cap_write_head (v : UInt64) :
    (m.write64 (base + headOffset) v).read64 (base + capacityOffset) =
      m.read64 (base + capacityOffset) :=
  Mem.read64_write64_offset (i := 0) (j := 8) (by decide) (by decide) (by decide)

theorem head_write_tail (v : UInt64) :
    (m.write64 (base + tailOffset) v).read64 (base + headOffset) = m.read64 (base + headOffset) :=
  Mem.read64_write64_offset (i := 64) (j := 0) (by decide) (by decide) (by decide)

theorem cap_write_tail (v : UInt64) :
    (m.write64 (base + tailOffset) v).read64 (base + capacityOffset) =
      m.read64 (base + capacityOffset) :=
  Mem.read64_write64_offset (i := 64) (j := 8) (by decide) (by decide) (by decide)

theorem data_write_head (v : UInt64) (n : Nat) :
    m.write64 (base + headOffset) v (dataAddr base n) = m (dataAddr base n) :=
  Mem.write64_offset (i := 0) (by decide) (by omega) (by omega)

theorem data_write_tail (v : UInt64) (n : Nat) :
    m.write64 (base + tailOffset) v (dataAddr base n) = m (dataAddr base n) :=
  Mem.write64_offset (i := 64) (by decide) (by omega) (by omega)

theorem data_write8_self (n : Nat) (b : UInt8) :
    m.write8 (dataAddr base n) b (dataAddr base n) = b :=
  Function.update_self ..

theorem data_write8_of_ne {n k : Nat} (h : k % 3904 ≠ n % 3904) (b : UInt8) :
    m.write8 (dataAddr base n) b (dataAddr base k) = m (dataAddr base k) :=
  Function.update_of_ne (fun heq => h (dataAddr_inj heq)) _ _

end Words

/-! ### Indices -/

theorem dataCapacity_toNat : dataCapacity.toNat = 3904 := rfl

theorem toNat_mod_capacity {i : UInt64} {n : Nat} (h : i.toNat = n) :
    (i % dataCapacity).toNat = n % 3904 := by
  rw [UInt64.toNat_mod, h, dataCapacity_toNat]

theorem toNat_ite_lt (a b : UInt64) : (if a < b then a else b).toNat = min a.toNat b.toNat := by
  split
  · next hlt =>
    rw [UInt64.lt_iff_toNat_lt] at hlt
    omega
  · next hge =>
    rw [UInt64.lt_iff_toNat_lt] at hge
    omega

theorem toNat_segments {start count : UInt64} (hstart : start.toNat ≤ 3904) :
    let seg1Len := dataCapacity - start
    let first := if count < seg1Len then count else seg1Len
    first.toNat = min count.toNat (3904 - start.toNat) ∧
      (count - first).toNat = count.toNat - first.toNat := by
  intro seg1Len first
  have hseg : seg1Len.toNat = 3904 - start.toNat := by
    rw [UInt64.toNat_sub_of_le, dataCapacity_toNat]
    rw [UInt64.le_iff_toNat_le, dataCapacity_toNat]
    exact hstart
  have hfirst : first.toNat = min count.toNat (3904 - start.toNat) := by
    rw [← hseg]
    exact toNat_ite_lt count seg1Len
  refine ⟨hfirst, ?_⟩
  apply UInt64.toNat_sub_of_le
  rw [UInt64.le_iff_toNat_le]
  omega

theorem toNat_sub_indices {head tail : UInt64} (h : tail.toNat ≤ head.toNat) :
    (head - tail).toNat = head.toNat - tail.toNat :=
  UInt64.toNat_sub_of_le _ _ (UInt64.le_iff_toNat_le.mpr h)

theorem toNat_room {head tail : UInt64} (h : tail.toNat ≤ head.toNat)
    (hroom : head.toNat - tail.toNat ≤ 3904) :
    (dataCapacity - (head - tail)).toNat = 3904 - (head.toNat - tail.toNat) := by
  rw [UInt64.toNat_sub_of_le, toNat_sub_indices h, dataCapacity_toNat]
  rw [UInt64.le_iff_toNat_le, toNat_sub_indices h, dataCapacity_toNat]
  exact hroom

theorem toNat_next {i : UInt64} {n : Nat} (h : i.toNat = n % 3904) :
    (if i + 1 ≥ dataCapacity then 0 else i + 1).toNat = (n + 1) % 3904 := by
  have hsucc : (i + 1).toNat = n % 3904 + 1 := by
    rw [UInt64.toNat_add, h, UInt64.toNat_one, Nat.mod_eq_of_lt (by omega)]
  split
  · next hge =>
    rw [ge_iff_le, UInt64.le_iff_toNat_le, hsucc, dataCapacity_toNat] at hge
    rw [UInt64.toNat_zero]
    omega
  · next hlt =>
    rw [ge_iff_le, UInt64.le_iff_toNat_le, hsucc, dataCapacity_toNat] at hlt
    rw [hsucc]
    omega

/-! ### The protocol -/

/-- The ring holds the part of the stream that was sent and not yet received. -/
structure Good (base : UInt64) (s : Ring) : Prop where
  cap : s.mem.read64 (base + capacityOffset) = dataCapacity
  head : (s.mem.read64 (base + headOffset)).toNat = s.sent.length
  tail : (s.mem.read64 (base + tailOffset)).toNat = s.received.length
  received : s.received <+: s.sent
  accepted : s.accepted <+: s.sent
  room : s.sent.length ≤ s.received.length + 3904
  data : ∀ i, s.received.length ≤ i → ∀ h : i < s.sent.length,
    s.mem (dataAddr base i) = s.sent[i]

/-- What the producer relies on: the consumer leaves the data alone and receives more. -/
def PushRely (base : UInt64) (s s' : Ring) : Prop :=
  s'.sent = s.sent ∧ s'.accepted = s.accepted ∧ s.received.length ≤ s'.received.length ∧
    ∀ n, s'.mem (dataAddr base n) = s.mem (dataAddr base n)

/-- What the consumer relies on: the producer sends more and leaves the bytes on the way alone. -/
def PopRely (base : UInt64) (s s' : Ring) : Prop :=
  s'.received = s.received ∧ s.sent <+: s'.sent ∧
    ∀ i, s.received.length ≤ i → i < s.sent.length →
      s'.mem (dataAddr base i) = s.mem (dataAddr base i)

/-- The protocol of the ring, for runs in which fewer than 2^64 bytes are sent. -/
def spscProtocol (base : UInt64) : Protocol (spscMachine base) where
  Inv := Good base
  Rely
    | .producer => PushRely base
    | .consumer => PopRely base
  Idle
    | .producer => fun s => s.accepted = s.sent
    | .consumer => fun _ => True
  Guard i c o s := ((spscMachine base).step i c o s).2.sent.length < 2 ^ 64
  rely_refl := by
    rintro (_ | _) s
    · exact ⟨rfl, rfl, Nat.le_refl _, fun _ => rfl⟩
    · exact ⟨rfl, List.prefix_refl _, fun _ _ _ => rfl⟩
  rely_trans := by
    rintro (_ | _) s₁ s₂ s₃
    · rintro ⟨h₁, h₂, h₃, h₄⟩ ⟨k₁, k₂, k₃, k₄⟩
      exact ⟨k₁.trans h₁, k₂.trans h₂, Nat.le_trans h₃ k₃, fun n => (k₄ n).trans (h₄ n)⟩
    · rintro ⟨h₁, h₂, h₃⟩ ⟨k₁, k₂, k₃⟩
      refine ⟨k₁.trans h₁, h₂.trans k₂, ?_⟩
      intro i hlo hhi
      rw [k₃ i (by rw [h₁]; exact hlo) (Nat.lt_of_lt_of_le hhi h₂.length_le), h₃ i hlo hhi]
  idle_stable := by
    rintro (_ | _) s s' h hr
    · exact hr.2.1.trans (h.trans hr.1.symm)
    · trivial

/-- What must hold of the program that is left of a call of the producer. -/
abbrev PushWp {α : Type} (base : UInt64) (c : Push) (p : MemProg α) (Q : α → Ring → Ring → Prop)
    (s s₁ : Ring) : Prop :=
  (spscProtocol base).wp (i := .producer) c p Q s s₁

/-- What must hold of the program that is left of a call of the consumer. -/
abbrev PopWp {α : Type} (base : UInt64) (c : Pop) (p : MemProg α) (Q : α → Ring → Ring → Prop)
    (s s₁ : Ring) : Prop :=
  (spscProtocol base).wp (i := .consumer) c p Q s s₁

end Keuos.Ipc
