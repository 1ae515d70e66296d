import Keuos.Ipc.Equiv.Shm
import Keuos.Serial.Defs

/-!
# Serial input reaches its reader

The ring is a circular queue: `unread` lists the bytes from the tail up to the head.  The handler relies on
the reader to leave the head and the data alone and to take bytes only, so room that it has found stays; the
reader relies on the handler to leave the tail alone and to add bytes behind the ones that are there.

Three things go wrong in the code, and `Lossless` excludes them: the count that `serial_rx_available` returns
is a plain difference, which is not the number of unread bytes once the head has wrapped around; `sys_read`
takes a zero byte for an empty ring when it is the first byte of the call; and it takes a byte from the ring
before it knows where to put it.

## Main results

* `serialLaw_run`: a run without these three keeps the law of the serial line.
-/

namespace Keuos.Serial

open Ipc Paging Circular
open Pmm (physToVirt)

/-! ### The page -/

section Page

variable {rxRing : UInt64} {capacity : Nat} {m m' : Mem}

theorem dataSlot_eq_dataAddr (rxRing : UInt64) {k : Nat} (hk : k < 3904) :
    dataSlot rxRing k = dataAddr rxRing k := by
  unfold dataSlot dataAddr
  rw [Nat.mod_eq_of_lt hk]

theorem dataSlot_toNat (rxRing idx : UInt64) :
    rxRing + dataOffset + idx = dataSlot rxRing idx.toNat := by
  unfold dataSlot dataOffset
  rw [UInt64.ofNat_add, UInt64.ofNat_toNat, UInt64.add_assoc]
  rfl

theorem length_unread : (unread rxRing capacity m).length = span capacity (tail rxRing m) (head rxRing m) :=
  length_contents

/-- The indices and the data are the same. -/
structure SameRing (rxRing : UInt64) (capacity : Nat) (m m' : Mem) : Prop where
  head : m'.read64 (rxRing + headOffset) = m.read64 (rxRing + headOffset)
  tail : m'.read64 (rxRing + tailOffset) = m.read64 (rxRing + tailOffset)
  capacity_eq : m'.read64 (rxRing + capacityOffset) = m.read64 (rxRing + capacityOffset)
  data : ∀ k < capacity, m' (dataSlot rxRing k) = m (dataSlot rxRing k)

theorem SameRing.unread (h : SameRing rxRing capacity m m') (ht : Serial.tail rxRing m < capacity)
    (hh : Serial.head rxRing m < capacity) :
    Serial.unread rxRing capacity m' = Serial.unread rxRing capacity m := by
  unfold Serial.unread Serial.head Serial.tail
  rw [h.head, h.tail]
  exact contents_congr_head ht hh fun k hk _ => h.data k hk

theorem read64_write8_outside {a : UInt64} (ha : ¬ InBlock rxRing 4096 a) (v : UInt8) {off : Nat}
    (hoff : off + 8 ≤ 4096) :
    (m.write8 a v).read64 (rxRing + UInt64.ofNat off) = m.read64 (rxRing + UInt64.ofNat off) := by
  apply Mem.read64_congr
  intro x hx
  rw [inBlock_offset_iff (by omega)] at hx
  apply Function.update_of_ne
  rintro rfl
  exact ha (Nat.lt_of_lt_of_le hx.2 hoff)

theorem sameRing_write8 (hcapacity : capacity ≤ 3904) {a : UInt64} (ha : ¬ InBlock rxRing 4096 a)
    (v : UInt8) (m : Mem) : SameRing rxRing capacity m (m.write8 a v) := by
  constructor
  · exact read64_write8_outside ha v (show 0 + 8 ≤ 4096 by decide)
  · exact read64_write8_outside ha v (show 64 + 8 ≤ 4096 by decide)
  · exact read64_write8_outside ha v (show 8 + 8 ≤ 4096 by decide)
  · intro k hk
    apply Function.update_of_ne
    rintro rfl
    exact ha (inBlock_add (by omega))

theorem unread_write8_head (hcapacity : capacity ≤ 3904) (ht : tail rxRing m < capacity)
    (hh : head rxRing m < capacity) (v : UInt8) :
    unread rxRing capacity (m.write8 (dataSlot rxRing (head rxRing m)) v) = unread rxRing capacity m := by
  have haddr := dataSlot_eq_dataAddr rxRing (Nat.lt_of_lt_of_le hh hcapacity)
  have hhead : head rxRing (m.write8 (dataSlot rxRing (head rxRing m)) v) = head rxRing m := by
    rw [haddr]
    exact congrArg UInt64.toNat (head_write8 rxRing m _ v)
  have htail : tail rxRing (m.write8 (dataSlot rxRing (head rxRing m)) v) = tail rxRing m := by
    rw [haddr]
    exact congrArg UInt64.toNat (tail_write8 rxRing m _ v)
  have hslots : ∀ k, k < capacity → k ≠ head rxRing m →
      m.write8 (dataSlot rxRing (head rxRing m)) v (dataSlot rxRing k) = m (dataSlot rxRing k) := by
    intro k hk hne
    rw [haddr, dataSlot_eq_dataAddr rxRing (Nat.lt_of_lt_of_le hk hcapacity)]
    apply data_write8_of_ne
    rw [Nat.mod_eq_of_lt (by omega), Nat.mod_eq_of_lt (by omega)]
    exact hne
  unfold unread
  rw [hhead, htail]
  exact contents_congr_head ht hh hslots

theorem unread_write_head (hcapacity : capacity ≤ 3904) (ht : tail rxRing m < capacity)
    (hh : head rxRing m < capacity) (hroom : (unread rxRing capacity m).length + 1 < capacity)
    {v : UInt64} (hv : v.toNat = (head rxRing m + 1) % capacity) :
    unread rxRing capacity (m.write64 (rxRing + headOffset) v) =
      unread rxRing capacity m ++ [m (dataSlot rxRing (head rxRing m))] := by
  have hhead : head rxRing (m.write64 (rxRing + headOffset) v) = (head rxRing m + 1) % capacity := by
    unfold head
    rw [Mem.read64_write64_self]
    exact hv
  have htail : tail rxRing (m.write64 (rxRing + headOffset) v) = tail rxRing m :=
    congrArg UInt64.toNat (tail_write_head rxRing m v)
  have hslots : ∀ k, k < capacity →
      m.write64 (rxRing + headOffset) v (dataSlot rxRing k) = m (dataSlot rxRing k) := by
    intro k hk
    rw [dataSlot_eq_dataAddr rxRing (Nat.lt_of_lt_of_le hk hcapacity)]
    exact data_write_head rxRing m v k
  rw [length_unread] at hroom
  unfold unread
  rw [hhead, htail, contents_head ht hh hroom, hslots _ hh]
  congr 1
  exact contents_congr_head ht hh fun k hk _ => hslots k hk

theorem unread_write_tail (hcapacity : capacity ≤ 3904) (ht : tail rxRing m < capacity)
    (hh : head rxRing m < capacity) (hne : head rxRing m ≠ tail rxRing m)
    {v : UInt64} (hv : v.toNat = (tail rxRing m + 1) % capacity) :
    unread rxRing capacity m =
      m (dataSlot rxRing (tail rxRing m)) :: unread rxRing capacity (m.write64 (rxRing + tailOffset) v) := by
  have htail : tail rxRing (m.write64 (rxRing + tailOffset) v) = (tail rxRing m + 1) % capacity := by
    unfold tail
    rw [Mem.read64_write64_self]
    exact hv
  have hhead : head rxRing (m.write64 (rxRing + tailOffset) v) = head rxRing m :=
    congrArg UInt64.toNat (head_write_tail rxRing m v)
  have hslots : ∀ k, k < capacity →
      m.write64 (rxRing + tailOffset) v (dataSlot rxRing k) = m (dataSlot rxRing k) := by
    intro k hk
    rw [dataSlot_eq_dataAddr rxRing (Nat.lt_of_lt_of_le hk hcapacity)]
    exact data_write_tail rxRing m v k
  have hc := Nat.mod_lt (tail rxRing m + 1) (Nat.zero_lt_of_lt ht)
  unfold unread
  rw [hhead, htail, contents_tail ht hh hne]
  exact congrArg _ (contents_congr_head hc hh fun k hk _ => (hslots k hk).symm)

theorem head_unread (ht : tail rxRing m < capacity) (hh : head rxRing m < capacity) {c : UInt8}
    (hc : [c] <+: unread rxRing capacity m) :
    head rxRing m ≠ tail rxRing m ∧ m (dataSlot rxRing (tail rxRing m)) = c := by
  have hne : head rxRing m ≠ tail rxRing m := by
    intro heq
    have hlen := hc.length_le
    rw [length_unread, (span_eq_zero_iff ht hh).mpr heq] at hlen
    exact absurd hlen (by simp)
  refine ⟨hne, ?_⟩
  obtain ⟨rest, hrest⟩ := hc
  have hlist : c :: rest = _ := hrest.trans (contents_tail ht hh hne)
  exact (List.cons.inj hlist).1.symm

end Page

/-! ### The protocol -/

section Protocol

variable {rxRing : UInt64} {capacity : Nat}

/-- The invariant of the line. -/
structure LineOk (rxRing : UInt64) (capacity : Nat) (s : Line) : Prop where
  capacity_eq : (s.mem.read64 (rxRing + capacityOffset)).toNat = capacity
  head_lt : head rxRing s.mem < capacity
  tail_lt : tail rxRing s.mem < capacity
  stream : s.delivered ++ (s.copied ++ s.held.toList) ++ unread rxRing capacity s.mem = s.accepted
  available : ∀ x ∈ s.reports, x.1.toNat = x.2

/-- What the handler relies on: the reader takes bytes, and nothing else changes. -/
structure IrqRely (rxRing : UInt64) (capacity : Nat) (s s' : Line) : Prop where
  head : s'.mem.read64 (rxRing + headOffset) = s.mem.read64 (rxRing + headOffset)
  data : ∀ k < capacity, s'.mem (dataSlot rxRing k) = s.mem (dataSlot rxRing k)
  pending : s'.pending = s.pending
  length : (unread rxRing capacity s'.mem).length ≤ (unread rxRing capacity s.mem).length

/-- What the reader relies on: the handler adds bytes, and nothing else changes. -/
structure ReaderRely (rxRing : UInt64) (capacity : Nat) (s s' : Line) : Prop where
  tail : s'.mem.read64 (rxRing + tailOffset) = s.mem.read64 (rxRing + tailOffset)
  copied : s'.copied = s.copied
  held : s'.held = s.held
  seen : s'.seen = s.seen
  grows : unread rxRing capacity s.mem <+: unread rxRing capacity s'.mem

def serialProtocol (rxRing : UInt64) (capacity : Nat) : Protocol (serialMachine rxRing capacity) where
  Inv := LineOk rxRing capacity
  Rely
    | .irq => IrqRely rxRing capacity
    | .reader => ReaderRely rxRing capacity
  Idle
    | .irq, s => s.pending = none
    | .reader, s => s.copied = [] ∧ s.held = none
  Guard := Lossless rxRing capacity
  rely_refl
    | .irq, _ => ⟨rfl, fun _ _ => rfl, rfl, Nat.le_refl _⟩
    | .reader, _ => ⟨rfl, rfl, rfl, rfl, List.prefix_refl _⟩
  rely_trans
    | .irq, _, _, _, h, k =>
      ⟨k.head.trans h.head, fun j hj => (k.data j hj).trans (h.data j hj), k.pending.trans h.pending,
        Nat.le_trans k.length h.length⟩
    | .reader, _, _, _, h, k =>
      ⟨k.tail.trans h.tail, k.copied.trans h.copied, k.held.trans h.held, k.seen.trans h.seen,
        h.grows.trans k.grows⟩
  idle_stable
    | .irq, _, _, h, hr => hr.pending.trans h
    | .reader, _, _, h, hr => ⟨hr.copied.trans h.1, hr.held.trans h.2⟩

instance (i : Side) (c : (serialMachine rxRing capacity).Call i) (o : MemOp) (s : Line) :
    Decidable ((serialProtocol rxRing capacity).Guard i c o s) :=
  inferInstanceAs (Decidable (Lossless rxRing capacity i c o s))

/-- What the handler must still do in its call. -/
abbrev IrqWp {α : Type} (rxRing : UInt64) (capacity : Nat) (input : List UInt8) (p : MemProg α)
    (Q : α → Line → Line → Prop) (s s₁ : Line) : Prop :=
  (serialProtocol rxRing capacity).wp (i := .irq) input p Q s s₁

/-- What a reader must still do in its call. -/
abbrev ReadWp {α : Type} (rxRing : UInt64) (capacity : Nat) (c : Read) (p : MemProg α)
    (Q : α → Line → Line → Prop) (s s₁ : Line) : Prop :=
  (serialProtocol rxRing capacity).wp (i := .reader) c p Q s s₁

theorem guar_irq_iff {s s' : Line} :
    (serialProtocol rxRing capacity).Guar .irq s s' ↔ ReaderRely rxRing capacity s s' := by
  constructor
  · intro h
    exact h .reader (by decide)
  · rintro h (_ | _) hne
    · exact absurd rfl hne
    · exact h

theorem guar_reader_iff {s s' : Line} :
    (serialProtocol rxRing capacity).Guar .reader s s' ↔ IrqRely rxRing capacity s s' := by
  constructor
  · intro h
    exact h .irq (by decide)
  · rintro h (_ | _) hne
    · exact h
    · exact absurd rfl hne

theorem LineOk.capacity_pos {s : Line} (h : LineOk rxRing capacity s) : 0 < capacity :=
  Nat.zero_lt_of_lt h.tail_lt

theorem LineOk.length_unread_lt {s : Line} (h : LineOk rxRing capacity s) :
    (unread rxRing capacity s.mem).length < capacity := by
  rw [length_unread]
  exact span_lt h.capacity_pos

theorem toNat_next_index (hcapacity : capacity ≤ 3904)
    {i cap : UInt64} (hi : i.toNat < capacity) (hcap : cap.toNat = capacity) :
    ((i + 1) % cap).toNat = (i.toNat + 1) % capacity := by
  rw [UInt64.toNat_mod, hcap, UInt64.toNat_add, UInt64.toNat_one, Nat.mod_eq_of_lt (a := i.toNat + 1)]
  omega

/-! ### The handler -/

/-- What the handler knows: its head, the byte that it has stored at the head, and the room that it has
found. -/
structure Receives (rxRing : UInt64) (capacity : Nat) (hd : UInt64) (stored : Option UInt8) (room : Nat)
    (s : Line) : Prop where
  head : s.mem.read64 (rxRing + headOffset) = hd
  pending : s.pending = stored
  stored : ∀ b ∈ stored, s.mem (dataSlot rxRing hd.toNat) = b
  room : (unread rxRing capacity s.mem).length + room < capacity

theorem receives_stable (hd : UInt64) (stored : Option UInt8) (room : Nat) :
    (serialProtocol rxRing capacity).Stable .irq (Receives rxRing capacity hd stored room) := by
  rintro s s' hok hr ⟨hhead, hpending, hstored, hroom⟩
  have hr : IrqRely rxRing capacity s s' := hr
  have hhead' := hr.head.trans hhead
  refine ⟨hhead', hr.pending.trans hpending, ?_, ?_⟩
  · intro b hb
    have hlt : hd.toNat < capacity := by
      rw [← hhead']
      exact hok.head_lt
    rw [hr.data _ hlt]
    exact hstored b hb
  · have hlen := hr.length
    omega

theorem idle_stable_irq :
    (serialProtocol rxRing capacity).Stable .irq fun s => s.pending = none :=
  fun _ _ _ hr h => (show IrqRely rxRing capacity _ _ from hr).pending.trans h

section Handler

variable {α : Type} {input : List UInt8} {Q : α → Line → Line → Prop}

theorem store_pending {s : Line} (h : LineOk rxRing capacity s) (hcapacity : capacity ≤ 3904)
    {hd : UInt64} (hK : Receives rxRing capacity hd none 1 s) (b : UInt8) :
    let s' := { s with mem := s.mem.write8 (dataSlot rxRing hd.toNat) b, pending := some b }
    LineOk rxRing capacity s' ∧ (serialProtocol rxRing capacity).Guar .irq s s' ∧
      Receives rxRing capacity hd (some b) 1 s' := by
  intro s'
  have hhead : hd.toNat = head rxRing s.mem := congrArg UInt64.toNat hK.head.symm
  have hunread : unread rxRing capacity s'.mem = unread rxRing capacity s.mem := by
    show unread rxRing capacity (s.mem.write8 (dataSlot rxRing hd.toNat) b) = _
    rw [hhead]
    exact unread_write8_head hcapacity h.tail_lt h.head_lt b
  have haddr : dataSlot rxRing hd.toNat = dataAddr rxRing hd.toNat := by
    apply dataSlot_eq_dataAddr
    rw [hhead]
    exact Nat.lt_of_lt_of_le h.head_lt hcapacity
  have hheadWord : s'.mem.read64 (rxRing + headOffset) = s.mem.read64 (rxRing + headOffset) := by
    show (s.mem.write8 (dataSlot rxRing hd.toNat) b).read64 _ = _
    rw [haddr, head_write8]
  have htailWord : s'.mem.read64 (rxRing + tailOffset) = s.mem.read64 (rxRing + tailOffset) := by
    show (s.mem.write8 (dataSlot rxRing hd.toNat) b).read64 _ = _
    rw [haddr, tail_write8]
  refine ⟨⟨?_, ?_, ?_, ?_, h.available⟩, ?_, ?_, rfl, ?_, ?_⟩
  · show ((s.mem.write8 (dataSlot rxRing hd.toNat) b).read64 _).toNat = capacity
    rw [haddr, cap_write8]
    exact h.capacity_eq
  · unfold head
    rw [hheadWord]
    exact h.head_lt
  · unfold tail
    rw [htailWord]
    exact h.tail_lt
  · rw [hunread]
    exact h.stream
  · rw [guar_irq_iff]
    refine ⟨htailWord, rfl, rfl, rfl, ?_⟩
    rw [hunread]
  · rw [hheadWord]
    exact hK.head
  · intro c hc
    rw [← Option.mem_some.mp hc]
    exact Function.update_self ..
  · rw [hunread]
    exact hK.room

theorem publish_pending {s : Line} (h : LineOk rxRing capacity s) (hcapacity : capacity ≤ 3904)
    {hd v : UInt64} {b : UInt8} (hK : Receives rxRing capacity hd (some b) 1 s)
    (hv : v.toNat = (hd.toNat + 1) % capacity) :
    let s' := { s with
      mem := s.mem.write64 (rxRing + headOffset) v
      accepted := s.accepted ++ s.pending.toList
      pending := none }
    LineOk rxRing capacity s' ∧ (serialProtocol rxRing capacity).Guar .irq s s' ∧ s'.pending = none := by
  intro s'
  have hhead : hd.toNat = head rxRing s.mem := congrArg UInt64.toNat hK.head.symm
  have hunread : unread rxRing capacity s'.mem = unread rxRing capacity s.mem ++ [b] := by
    rw [hhead] at hv
    refine (unread_write_head hcapacity h.tail_lt h.head_lt hK.room hv).trans ?_
    rw [← hhead, hK.stored b rfl]
  have htailWord : s'.mem.read64 (rxRing + tailOffset) = s.mem.read64 (rxRing + tailOffset) :=
    tail_write_head rxRing s.mem v
  refine ⟨⟨?_, ?_, ?_, ?_, h.available⟩, ?_, rfl⟩
  · show ((s.mem.write64 (rxRing + headOffset) v).read64 _).toNat = capacity
    rw [cap_write_head]
    exact h.capacity_eq
  · show ((s.mem.write64 (rxRing + headOffset) v).read64 _).toNat < capacity
    rw [Mem.read64_write64_self, hv]
    exact Nat.mod_lt _ h.capacity_pos
  · unfold tail
    rw [htailWord]
    exact h.tail_lt
  · rw [hunread, ← List.append_assoc]
    show s.delivered ++ (s.copied ++ s.held.toList) ++ _ ++ [b] = s.accepted ++ s.pending.toList
    rw [h.stream, hK.pending]
    rfl
  · rw [guar_irq_iff]
    refine ⟨htailWord, rfl, rfl, rfl, ?_⟩
    rw [hunread]
    exact List.prefix_append _ _

/-- What the handler has done after each byte. -/
def Ready (rxRing : UInt64) (capacity : Nat) : Unit → Line → Line → Prop := fun _ s s' =>
  LineOk rxRing capacity s' ∧ (serialProtocol rxRing capacity).Guar .irq s s' ∧ s'.pending = none

theorem wp_irqRead {a : UInt64} {f : UInt64 → MemProg α} {K : Line → Prop}
    (hstable : (serialProtocol rxRing capacity).Stable .irq K)
    (hnext : ∀ s, LineOk rxRing capacity s → K s → IrqWp rxRing capacity input (f (s.mem.read64 a)) Q s s)
    {s s₁ : Line} (h : LineOk rxRing capacity s₁) (hguar : (serialProtocol rxRing capacity).Guar .irq s s₁)
    (hK : K s₁) : IrqWp rxRing capacity input (volatileRead a >>= f) Q s s₁ :=
  Protocol.wp_op hstable (fun s₂ h₂ hK₂ _ => hnext s₂ h₂ hK₂) h hguar hK

theorem step_publish (v : UInt64) (s : Line) :
    ((serialMachine rxRing capacity).step .irq input (.store64 (rxRing + headOffset) v) s).2 =
      { s with
        mem := s.mem.write64 (rxRing + headOffset) v
        accepted := s.accepted ++ s.pending.toList
        pending := none } := by
  simp [serialMachine, afterReceive, MemOp.sem]

theorem wp_storeByte (hcapacity : capacity ≤ 3904) {ascii : UInt8} {hd v : UInt64}
    (hv : v.toNat = (hd.toNat + 1) % capacity) {s : Line} (h : LineOk rxRing capacity s)
    (hK : Receives rxRing capacity hd none 1 s) :
    IrqWp rxRing capacity input (do
      store8 (rxRing + dataOffset + hd) ascii
      volatileWrite (rxRing + headOffset) v) (Ready rxRing capacity) s s := by
  apply Protocol.wp_op (receives_stable hd none 1) _ h (Protocol.guar_refl _ s) hK
  intro s₁ h₁ hK₁ _
  have hstore := store_pending h₁ hcapacity hK₁ ascii
  rw [← dataSlot_toNat] at hstore
  apply Protocol.wp_op (receives_stable hd (some ascii) 1) _ hstore.1 hstore.2.1 hstore.2.2
  intro s₂ h₂ hK₂ _
  have hpublish := publish_pending h₂ hcapacity hK₂ hv
  rw [← @step_publish rxRing capacity input] at hpublish
  exact hpublish

theorem wp_receive (hring : rxRing ≠ 0) (hcapacity : capacity ≤ 3904) (ascii : UInt8)
    {s s₁ : Line} (h : LineOk rxRing capacity s₁) (hguar : (serialProtocol rxRing capacity).Guar .irq s s₁)
    (hidle : s₁.pending = none) :
    IrqWp rxRing capacity input (receive rxRing ascii) (Ready rxRing capacity) s s₁ := by
  unfold receive
  rw [if_neg (by simpa using hring)]
  apply wp_irqRead idle_stable_irq _ h hguar hidle
  intro s₂ h₂ hidle₂
  apply wp_irqRead idle_stable_irq _ h₂ (Protocol.guar_refl _ s₂) hidle₂
  intro s₃ h₃ hidle₃
  -- the head is the handler's own
  have hK₃ : Receives rxRing capacity (s₃.mem.read64 (rxRing + headOffset)) none 0 s₃ :=
    ⟨rfl, hidle₃, fun _ hb => absurd hb (Option.not_mem_none _), by simpa using h₃.length_unread_lt⟩
  have hnewHead := toNat_next_index hcapacity h₃.head_lt h₂.capacity_eq
  generalize s₃.mem.read64 (rxRing + headOffset) = hd at hK₃ hnewHead ⊢
  generalize (hd + 1) % s₂.mem.read64 (rxRing + capacityOffset) = newHead at hnewHead ⊢
  apply wp_irqRead (receives_stable hd none 0) _ h₃ (Protocol.guar_refl _ s₃) hK₃
  intro s₄ h₄ hK₄
  dsimp only
  split
  · show Ready rxRing capacity () s₄ s₄
    exact ⟨h₄, Protocol.guar_refl _ s₄, hK₄.pending⟩
  · next hfull =>
    apply wp_storeByte hcapacity hnewHead h₄
    refine ⟨hK₄.head, hK₄.pending, hK₄.stored, ?_⟩
    rw [length_unread]
    apply span_succ_lt h₄.tail_lt h₄.head_lt
    intro heq
    apply hfull
    rw [beq_iff_eq, ← UInt64.toNat_inj, hnewHead, ← hK₄.head]
    exact heq

theorem wp_serialIrqHandler (hring : rxRing ≠ 0) (hcapacity : capacity ≤ 3904) (bytes : List UInt8)
    {s s₁ : Line} (h : LineOk rxRing capacity s₁) (hguar : (serialProtocol rxRing capacity).Guar .irq s s₁)
    (hidle : s₁.pending = none) :
    IrqWp rxRing capacity input (serialIrqHandler rxRing bytes) (Ready rxRing capacity) s s₁ := by
  induction bytes generalizing s s₁ with
  | nil => exact ⟨h, hguar, hidle⟩
  | cons ascii bytes ih =>
    apply (Protocol.wp_bind _ _ _ _ _).mpr
    apply Protocol.wp_mono _ (wp_receive hring hcapacity ascii h hguar hidle)
    rintro - s' s₁' ⟨h', hguar', hidle'⟩
    exact ih h' hguar' hidle'

end Handler

/-! ### The reader -/

/-- What a reader knows that holds no byte: its tail, what it has copied, and bytes that it has found. -/
structure Reads (rxRing : UInt64) (capacity : Nat) (tl : UInt64) (copied front : List UInt8) (s : Line) :
    Prop where
  tail : s.mem.read64 (rxRing + tailOffset) = tl
  copied : s.copied = copied
  held : s.held = none
  front : front <+: unread rxRing capacity s.mem

/-- What a reader knows that has taken a byte. -/
structure Holds (copied : List UInt8) (b : UInt8) (s : Line) : Prop where
  copied : s.copied = copied
  held : s.held = some b

/-- The call may take the byte `b` when it has copied `copied`. -/
def MayTake (rxRing : UInt64) : Read → List UInt8 → UInt8 → Prop
  | .stdin tables userPml4 buf _, copied, b =>
    (copied = [] → b ≠ 0) ∧
      let phys := translateUserAddr tables userPml4 (buf + UInt64.ofNat copied.length)
      phys ≠ 0 ∧ ¬ InBlock rxRing 4096 (physToVirt phys)
  | _, _, _ => True

section Reader

variable {α : Type} {c : Read} {tl : UInt64} {copied front : List UInt8} {Q : α → Line → Line → Prop}

theorem reads_stable (tl : UInt64) (copied front : List UInt8) :
    (serialProtocol rxRing capacity).Stable .reader (Reads rxRing capacity tl copied front) := by
  rintro s s' - hr h
  have hr : ReaderRely rxRing capacity s s' := hr
  exact ⟨hr.tail.trans h.tail, hr.copied.trans h.copied, hr.held.trans h.held, h.front.trans hr.grows⟩

theorem holds_stable (copied : List UInt8) (b : UInt8) :
    (serialProtocol rxRing capacity).Stable .reader (Holds copied b) := by
  rintro s s' - hr h
  have hr : ReaderRely rxRing capacity s s' := hr
  exact ⟨hr.copied.trans h.copied, hr.held.trans h.held⟩

/-- The state after the load of the head by a reader. -/
def Line.see (rxRing : UInt64) (capacity : Nat) (s : Line) : Line :=
  { s with seen := (unread rxRing capacity s.mem).length }

section See

variable (s : Line)

@[simp] theorem see_mem : (s.see rxRing capacity).mem = s.mem := by
  unfold Line.see
  rfl

@[simp] theorem see_accepted : (s.see rxRing capacity).accepted = s.accepted := by
  unfold Line.see
  rfl

@[simp] theorem see_pending : (s.see rxRing capacity).pending = s.pending := by
  unfold Line.see
  rfl

@[simp] theorem see_delivered : (s.see rxRing capacity).delivered = s.delivered := by
  unfold Line.see
  rfl

@[simp] theorem see_reports : (s.see rxRing capacity).reports = s.reports := by
  unfold Line.see
  rfl

@[simp] theorem see_copied : (s.see rxRing capacity).copied = s.copied := by
  unfold Line.see
  rfl

@[simp] theorem see_held : (s.see rxRing capacity).held = s.held := by
  unfold Line.see
  rfl

end See

theorem step_loadHead (s : Line) :
    (serialMachine rxRing capacity).step .reader c (.load64 (rxRing + headOffset)) s =
      (s.mem.read64 (rxRing + headOffset), s.see rxRing capacity) := by
  simp [serialMachine, afterRead, MemOp.sem, Line.see]

theorem step_loadWord {off : UInt64} (hoff : off ≠ headOffset) (s : Line) :
    (serialMachine rxRing capacity).step .reader c (.load64 (rxRing + off)) s =
      (s.mem.read64 (rxRing + off), s) := by
  simp [serialMachine, afterRead, MemOp.sem, hoff]

theorem step_take (v : UInt64) (s : Line) :
    (serialMachine rxRing capacity).step .reader c (.store64 (rxRing + tailOffset) v) s =
      (0, { s with
        mem := s.mem.write64 (rxRing + tailOffset) v
        held := some (s.mem (dataSlot rxRing (tail rxRing s.mem))) }) := by
  simp [serialMachine, afterRead, MemOp.sem]

theorem see_ok {s : Line} (h : LineOk rxRing capacity s) :
    LineOk rxRing capacity (s.see rxRing capacity) ∧
      (serialProtocol rxRing capacity).Guar .reader s (s.see rxRing capacity) := by
  rw [guar_reader_iff]
  constructor
  · constructor <;> simp only [see_mem, see_accepted, see_delivered, see_reports, see_copied, see_held]
    · exact h.capacity_eq
    · exact h.head_lt
    · exact h.tail_lt
    · exact h.stream
    · exact h.available
  · constructor <;> simp

theorem wp_loadHead {f : UInt64 → MemProg α} {K : Line → Prop}
    (hstable : (serialProtocol rxRing capacity).Stable .reader K)
    (hnext : ∀ s, LineOk rxRing capacity s → K s →
      Lossless rxRing capacity .reader c (.load64 (rxRing + headOffset)) s →
      ReadWp rxRing capacity c (f (s.mem.read64 (rxRing + headOffset))) Q s (s.see rxRing capacity))
    {s s₁ : Line} (h : LineOk rxRing capacity s₁)
    (hguar : (serialProtocol rxRing capacity).Guar .reader s s₁) (hK : K s₁) :
    ReadWp rxRing capacity c (volatileRead (rxRing + headOffset) >>= f) Q s s₁ := by
  apply Protocol.wp_op hstable _ h hguar hK
  intro s₂ h₂ hK₂ hguard
  rw [step_loadHead]
  exact hnext s₂ h₂ hK₂ hguard

theorem wp_loadWord {off : UInt64} (hoff : off ≠ headOffset) {f : UInt64 → MemProg α} {K : Line → Prop}
    (hstable : (serialProtocol rxRing capacity).Stable .reader K)
    (hnext : ∀ s, LineOk rxRing capacity s → K s →
      ReadWp rxRing capacity c (f (s.mem.read64 (rxRing + off))) Q s s)
    {s s₁ : Line} (h : LineOk rxRing capacity s₁)
    (hguar : (serialProtocol rxRing capacity).Guar .reader s s₁) (hK : K s₁) :
    ReadWp rxRing capacity c (volatileRead (rxRing + off) >>= f) Q s s₁ := by
  apply Protocol.wp_op hstable _ h hguar hK
  intro s₂ h₂ hK₂ _
  rw [step_loadWord hoff]
  exact hnext s₂ h₂ hK₂

theorem exists_front {s : Line} (h : LineOk rxRing capacity s)
    (hne : s.mem.read64 (rxRing + headOffset) ≠ s.mem.read64 (rxRing + tailOffset)) :
    ∃ b, [b] <+: unread rxRing capacity s.mem := by
  have hlen : (unread rxRing capacity s.mem).length ≠ 0 := by
    rw [length_unread]
    intro hzero
    exact hne (UInt64.toNat_inj.mp ((span_eq_zero_iff h.tail_lt h.head_lt).mp hzero))
  cases hlist : unread rxRing capacity s.mem with
  | nil => exact absurd (congrArg List.length hlist) hlen
  | cons b rest => exact ⟨b, rest, rfl⟩

theorem head_ne_of_front {s : Line} (h : LineOk rxRing capacity s) {b : UInt8}
    (hb : [b] <+: unread rxRing capacity s.mem) :
    s.mem.read64 (rxRing + headOffset) ≠ s.mem.read64 (rxRing + tailOffset) := by
  intro heq
  exact (head_unread h.tail_lt h.head_lt hb).1 (congrArg UInt64.toNat heq)

/-- What the two indices that a reader has loaded tell it.  The tail is its own, and the head may be behind
the one that the handler has stored since. -/
structure Indices (rxRing : UInt64) (capacity : Nat) (c : Read) (tl : UInt64) (copied : List UInt8)
    (hd : UInt64) (s : Line) : Prop where
  front : ∃ front, Reads rxRing capacity tl copied front s ∧ (hd ≠ tl → ∃ b, front = [b])
  seen : s.seen = span capacity tl.toNat hd.toNat
  unwrapped : c = .available → tl ≤ hd
  head_lt : hd.toNat < capacity
  tail_lt : tl.toNat < capacity

theorem indices_stable (tl : UInt64) (copied : List UInt8) (hd : UInt64) :
    (serialProtocol rxRing capacity).Stable .reader (Indices rxRing capacity c tl copied hd) := by
  rintro s s' hok hr ⟨⟨front, hreads, hshows⟩, hseen, hunwrapped, hhd, htl⟩
  have hseen' : s'.seen = s.seen := (show ReaderRely rxRing capacity s s' from hr).seen
  exact ⟨⟨front, reads_stable tl copied front s s' hok hr hreads, hshows⟩, hseen'.trans hseen,
    hunwrapped, hhd,
    htl⟩

theorem indices_see {s : Line} (h : LineOk rxRing capacity s) (hK : Reads rxRing capacity tl copied front s)
    (hguard : Lossless rxRing capacity .reader c (.load64 (rxRing + headOffset)) s) :
    Indices rxRing capacity c tl copied (s.mem.read64 (rxRing + headOffset)) (s.see rxRing capacity) := by
  have hreads : ∀ front', front' <+: unread rxRing capacity s.mem →
      Reads rxRing capacity tl copied front' (s.see rxRing capacity) := by
    intro front' hfront'
    constructor
    · rw [see_mem]
      exact hK.tail
    · rw [see_copied]
      exact hK.copied
    · rw [see_held]
      exact hK.held
    · rw [see_mem]
      exact hfront'
  have htail : tail rxRing s.mem = tl.toNat := congrArg UInt64.toNat hK.tail
  constructor
  · by_cases heq : s.mem.read64 (rxRing + headOffset) = tl
    · exact ⟨[], hreads [] List.nil_prefix, fun hne => absurd heq hne⟩
    · obtain ⟨b, hb⟩ := exists_front h (by rwa [hK.tail])
      exact ⟨[b], hreads [b] hb, fun _ => ⟨b, rfl⟩⟩
  · have hlen := @length_unread rxRing capacity s.mem
    rw [htail] at hlen
    exact hlen
  · intro hc
    rw [hc] at hguard
    have hle : tail rxRing s.mem ≤ head rxRing s.mem := hguard rfl
    rw [htail] at hle
    exact UInt64.le_iff_toNat_le.mpr hle
  · exact h.head_lt
  · rw [← htail]
    exact h.tail_lt

theorem wp_indices {f : UInt64 → UInt64 → MemProg α}
    (hnext : ∀ hd s, LineOk rxRing capacity s → Indices rxRing capacity c tl copied hd s →
      (front ≠ [] → hd ≠ tl) → ReadWp rxRing capacity c (f hd tl) Q s s)
    {s s₁ : Line} (h : LineOk rxRing capacity s₁)
    (hguar : (serialProtocol rxRing capacity).Guar .reader s s₁)
    (hK : Reads rxRing capacity tl copied front s₁) (hfront : front = [] ∨ ∃ b, front = [b]) :
    ReadWp rxRing capacity c (do
      let head ← volatileRead (rxRing + headOffset)
      let tail ← volatileRead (rxRing + tailOffset)
      f head tail) Q s s₁ := by
  apply wp_loadHead (reads_stable tl copied front) _ h hguar hK
  intro s₂ h₂ hK₂ hguard
  obtain ⟨h₂', hguar₂⟩ := see_ok h₂
  have hindices := indices_see h₂ hK₂ hguard
  have hne : front ≠ [] → s₂.mem.read64 (rxRing + headOffset) ≠ tl := by
    intro hnonempty
    rcases hfront with hnil | ⟨b, rfl⟩
    · exact absurd hnil hnonempty
    · rw [← hK₂.tail]
      exact head_ne_of_front h₂ hK₂.front
  generalize s₂.mem.read64 (rxRing + headOffset) = hd at hindices hne ⊢
  apply wp_loadWord (by decide) (indices_stable tl copied hd) _ h₂' hguar₂ hindices
  intro s₃ h₃ hK₃
  obtain ⟨front', hreads, -⟩ := hK₃.front
  rw [hreads.tail]
  exact hnext hd s₃ h₃ hK₃ hne

/-- What `serial_rx_available` has found out. -/
def Available (rxRing : UInt64) (capacity : Nat) (c : Read) (tl : UInt64) (copied : List UInt8) :
    UInt64 → Line → Line → Prop := fun n s s' =>
  LineOk rxRing capacity s' ∧ (serialProtocol rxRing capacity).Guar .reader s s' ∧
    (∃ front, Reads rxRing capacity tl copied front s' ∧ (n ≠ 0 → ∃ b, front = [b])) ∧
    (c = .available → n.toNat = s'.seen)

theorem wp_serialRxAvailable (hring : rxRing ≠ 0) {s s₁ : Line} (h : LineOk rxRing capacity s₁)
    (hguar : (serialProtocol rxRing capacity).Guar .reader s s₁)
    (hK : Reads rxRing capacity tl copied [] s₁) :
    ReadWp rxRing capacity c (serialRxAvailable rxRing) (Available rxRing capacity c tl copied) s s₁ := by
  unfold serialRxAvailable
  rw [if_neg (by simpa using hring)]
  apply wp_indices _ h hguar hK (.inl rfl)
  intro hd s₂ h₂ hindices _
  obtain ⟨front, hreads, hshows⟩ := hindices.front
  split
  · next heq =>
    rw [beq_iff_eq] at heq
    show Available rxRing capacity c tl copied 0 s₂ s₂
    refine ⟨h₂, Protocol.guar_refl _ s₂, ⟨front, hreads, fun hne => absurd rfl hne⟩, fun _ => ?_⟩
    rw [hindices.seen, (span_eq_zero_iff hindices.tail_lt hindices.head_lt).mpr (congrArg _ heq)]
    rfl
  · next hne =>
    show Available rxRing capacity c tl copied (hd - tl) s₂ s₂
    refine ⟨h₂, Protocol.guar_refl _ s₂, ⟨front, hreads, fun _ => hshows (by simpa using hne)⟩, fun hc => ?_⟩
    have hle := hindices.unwrapped hc
    rw [hindices.seen, UInt64.toNat_sub_of_le _ _ hle,
      span_of_le (UInt64.le_iff_toNat_le.mp hle) hindices.head_lt]

theorem take_ok (hcapacity : capacity ≤ 3904) {s : Line} (h : LineOk rxRing capacity s) {b : UInt8}
    (hK : Reads rxRing capacity tl copied [b] s) {v : UInt64} (hv : v.toNat = (tl.toNat + 1) % capacity) :
    let s' := { s with
      mem := s.mem.write64 (rxRing + tailOffset) v
      held := some (s.mem (dataSlot rxRing (tail rxRing s.mem))) }
    LineOk rxRing capacity s' ∧ (serialProtocol rxRing capacity).Guar .reader s s' ∧ Holds copied b s' := by
  intro s'
  obtain ⟨hne, hbyte⟩ := head_unread h.tail_lt h.head_lt hK.front
  have htail : tl.toNat = tail rxRing s.mem := congrArg UInt64.toNat hK.tail.symm
  rw [htail] at hv
  have hunread := unread_write_tail hcapacity h.tail_lt h.head_lt hne hv
  have hheadWord : s'.mem.read64 (rxRing + headOffset) = s.mem.read64 (rxRing + headOffset) :=
    head_write_tail rxRing s.mem v
  refine ⟨⟨?_, ?_, ?_, ?_, h.available⟩, ?_, ?_⟩
  · show ((s.mem.write64 (rxRing + tailOffset) v).read64 _).toNat = capacity
    rw [cap_write_tail]
    exact h.capacity_eq
  · unfold head
    rw [hheadWord]
    exact h.head_lt
  · show ((s.mem.write64 (rxRing + tailOffset) v).read64 _).toNat < capacity
    rw [Mem.read64_write64_self, hv]
    exact Nat.mod_lt _ h.capacity_pos
  · have hstream := h.stream
    rw [hunread, hK.held] at hstream
    show s.delivered ++ (s.copied ++ [_]) ++ unread rxRing capacity (s.mem.write64 _ v) = s.accepted
    rw [← hstream]
    simp
  · rw [guar_reader_iff]
    refine ⟨hheadWord, ?_, rfl, ?_⟩
    · intro k hk
      rw [dataSlot_eq_dataAddr rxRing (Nat.lt_of_lt_of_le hk hcapacity)]
      exact data_write_tail rxRing s.mem v k
    · rw [hunread, List.length_cons]
      exact Nat.le_succ _
  · exact ⟨hK.copied, congrArg some hbyte⟩

/-- What `serial_read_byte` has done: it has taken a byte, or there was none. -/
def Took (rxRing : UInt64) (capacity : Nat) (c : Read) (copied front : List UInt8) :
    UInt8 → Line → Line → Prop := fun b s s' =>
  LineOk rxRing capacity s' ∧ (serialProtocol rxRing capacity).Guar .reader s s' ∧
    ((front = [] ∧ b = 0 ∧ s'.copied = copied ∧ s'.held = none) ∨
      (Holds copied b s' ∧ MayTake rxRing c copied b))

theorem mayTake_of_lossless {s : Line} (h : LineOk rxRing capacity s) {b : UInt8}
    (hK : Reads rxRing capacity tl copied [b] s) {v : UInt64}
    (hguard : Lossless rxRing capacity .reader c (.store64 (rxRing + tailOffset) v) s) :
    MayTake rxRing c copied b := by
  cases c with
  | byte => trivial
  | available => trivial
  | stdin tables userPml4 buf len =>
    obtain ⟨hzero, hplace⟩ := hguard rfl
    rw [hK.copied] at hzero hplace
    rw [(head_unread h.tail_lt h.head_lt hK.front).2] at hzero
    exact ⟨hzero, hplace⟩

theorem step_loadByte (a : UInt64) (s : Line) :
    (serialMachine rxRing capacity).step .reader c (.load8 a) s = ((s.mem a).toUInt64, s) := by
  simp [serialMachine, afterRead, MemOp.sem]

theorem wp_takeByte (hcapacity : capacity ≤ 3904) {b : UInt8} {s : Line} (h : LineOk rxRing capacity s)
    (hK : Reads rxRing capacity tl copied [b] s) :
    ReadWp rxRing capacity c (do
      let capacity ← volatileRead (rxRing + capacityOffset)
      let c ← load8 (rxRing + dataOffset + tl)
      volatileWrite (rxRing + tailOffset) ((tl + 1) % capacity)
      pure c) (Took rxRing capacity c copied front) s s := by
  apply wp_loadWord (by decide) (reads_stable tl copied [b]) _ h (Protocol.guar_refl _ s) hK
  intro s₁ h₁ hK₁
  have htl : tl.toNat < capacity := by
    rw [← hK₁.tail]
    exact h₁.tail_lt
  have hnext := toNat_next_index hcapacity htl h₁.capacity_eq
  generalize (tl + 1) % s₁.mem.read64 (rxRing + capacityOffset) = newTail at hnext ⊢
  apply Protocol.wp_op (reads_stable tl copied [b]) _ h₁ (Protocol.guar_refl _ s₁) hK₁
  intro s₂ h₂ hK₂ _
  have hbyte : s₂.mem (rxRing + dataOffset + tl) = b := by
    rw [dataSlot_toNat, ← hK₂.tail]
    exact (head_unread h₂.tail_lt h₂.head_lt hK₂.front).2
  rw [step_loadByte, hbyte]
  apply Protocol.wp_op (reads_stable tl copied [b]) _ h₂ (Protocol.guar_refl _ s₂) hK₂
  intro s₃ h₃ hK₃ hguard
  obtain ⟨hok, hguar, hholds⟩ := take_ok hcapacity h₃ hK₃ hnext
  have hmay := mayTake_of_lossless h₃ hK₃ hguard
  rw [step_take]
  show Took rxRing capacity c copied front b.toUInt64.toUInt8 _ _
  rw [UInt8.toUInt8_toUInt64]
  exact ⟨hok, hguar, .inr ⟨hholds, hmay⟩⟩

theorem wp_serialReadByte (hring : rxRing ≠ 0) (hcapacity : capacity ≤ 3904) {s s₁ : Line}
    (h : LineOk rxRing capacity s₁) (hguar : (serialProtocol rxRing capacity).Guar .reader s s₁)
    (hK : Reads rxRing capacity tl copied front s₁) (hfront : front = [] ∨ ∃ b, front = [b]) :
    ReadWp rxRing capacity c (serialReadByte rxRing) (Took rxRing capacity c copied front) s s₁ := by
  unfold serialReadByte
  rw [if_neg (by simpa using hring)]
  apply wp_indices _ h hguar hK hfront
  intro hd s₂ h₂ hindices hfound
  obtain ⟨front', hreads, hshows⟩ := hindices.front
  split
  · next heq =>
    rw [beq_iff_eq] at heq
    have hnil : front = [] := by
      by_contra hnonempty
      exact hfound hnonempty heq
    show Took rxRing capacity c copied front 0 s₂ s₂
    exact ⟨h₂, Protocol.guar_refl _ s₂, .inl ⟨hnil, rfl, hreads.copied, hreads.held⟩⟩
  · next hne =>
    obtain ⟨b, rfl⟩ := hshows (by simpa using hne)
    exact wp_takeByte hcapacity h₂ hreads

/-! ### The standard input -/

theorem step_storeByte (a : UInt64) (v : UInt8) (s : Line) :
    (serialMachine rxRing capacity).step .reader c (.store8 a v) s =
      (0, { s with mem := s.mem.write8 a v, copied := s.copied ++ [v], held := none }) := by
  simp [serialMachine, afterRead, MemOp.sem]

theorem copy_ok (hcapacity : capacity ≤ 3904) {s : Line} (h : LineOk rxRing capacity s) {b : UInt8}
    (hK : Holds copied b s) {a : UInt64} (ha : ¬ InBlock rxRing 4096 a) :
    let s' := { s with mem := s.mem.write8 a b, copied := s.copied ++ [b], held := none }
    LineOk rxRing capacity s' ∧ (serialProtocol rxRing capacity).Guar .reader s s' := by
  intro s'
  have hsame : SameRing rxRing capacity s.mem s'.mem := sameRing_write8 hcapacity ha b s.mem
  have hunread := hsame.unread h.tail_lt h.head_lt
  refine ⟨⟨?_, ?_, ?_, ?_, h.available⟩, ?_⟩
  · rw [hsame.capacity_eq]
    exact h.capacity_eq
  · unfold head
    rw [hsame.head]
    exact h.head_lt
  · unfold tail
    rw [hsame.tail]
    exact h.tail_lt
  · have hstream := h.stream
    rw [hK.held] at hstream
    rw [hunread]
    show s.delivered ++ (s.copied ++ [b] ++ []) ++ _ = s.accepted
    rw [← hstream]
    simp
  · rw [guar_reader_iff]
    exact ⟨hsame.head, hsame.data, rfl, by rw [hunread]⟩

/-- What a `sys_read` has done: the bytes that it has copied are counted, and it holds no other. -/
def Copied (rxRing : UInt64) (capacity : Nat) : UInt64 → Line → Line → Prop := fun n s s' =>
  LineOk rxRing capacity s' ∧ (serialProtocol rxRing capacity).Guar .reader s s' ∧
    s'.copied.length = n.toNat ∧ s'.held = none

/-- **The loop of `sys_read`**: each byte that it takes is stored into the buffer. -/
theorem wp_readStdin (hring : rxRing ≠ 0) (hcapacity : capacity ≤ 3904) {tables : Mem}
    {userPml4 buf len : UInt64}
    (n : Nat) {copied : List UInt8} (hn : copied.length + n ≤ 4096) {s s₁ : Line}
    (h : LineOk rxRing capacity s₁) (hguar : (serialProtocol rxRing capacity).Guar .reader s s₁)
    (hcopied : s₁.copied = copied) (hheld : s₁.held = none) :
    ReadWp rxRing capacity (.stdin tables userPml4 buf len)
      (readStdin rxRing (translateUserAddr tables userPml4) n (buf + UInt64.ofNat copied.length)
        (UInt64.ofNat copied.length)) (Copied rxRing capacity) s s₁ := by
  have hlen : (UInt64.ofNat copied.length).toNat = copied.length := by
    rw [UInt64.toNat_ofNat', Nat.mod_eq_of_lt (by omega)]
  induction n generalizing copied s s₁ with
  | zero =>
    show Copied rxRing capacity _ s s₁
    exact ⟨h, hguar, by rw [hcopied, hlen], hheld⟩
  | succ n ih =>
    unfold readStdin
    apply (Protocol.wp_bind _ _ _ _ _).mpr
    have hreads : Reads rxRing capacity _ copied [] s₁ := ⟨rfl, hcopied, hheld, List.nil_prefix⟩
    apply Protocol.wp_mono _ (wp_serialRxAvailable hring h hguar hreads)
    rintro available s₂ s₃ ⟨h₃, hguar₃, ⟨front, hreads₃, hshows⟩, -⟩
    split
    · show Copied rxRing capacity _ s₂ s₃
      exact ⟨h₃, hguar₃, by rw [hreads₃.copied, hlen], hreads₃.held⟩
    next hne =>
    obtain ⟨b, rfl⟩ := hshows (by simpa using hne)
    apply (Protocol.wp_bind _ _ _ _ _).mpr
    apply Protocol.wp_mono _ (wp_serialReadByte hring hcapacity h₃ hguar₃ hreads₃ (.inr ⟨b, rfl⟩))
    rintro c s₄ s₅ ⟨h₅, hguar₅, ⟨hnil, -⟩ | ⟨hholds, hfirst, hmapped, hplace⟩⟩
    · cases hnil
    -- the byte is not taken for an empty ring
    have hzero : ¬ (c == 0 && UInt64.ofNat copied.length == 0) = true := by
      intro hboth
      rw [Bool.and_eq_true, beq_iff_eq, beq_iff_eq] at hboth
      have hempty : copied.length = 0 := by
        rw [← hlen, hboth.2]
        rfl
      exact hfirst (List.length_eq_zero_iff.mp hempty) hboth.1
    rw [if_neg hzero]
    dsimp only
    rw [if_neg (by simpa using hmapped)]
    apply Protocol.wp_op (holds_stable copied c) _ h₅ hguar₅ hholds
    intro s₆ h₆ hK₆ _
    obtain ⟨h₇, hguar₇⟩ := copy_ok hcapacity h₆ hK₆ hplace
    rw [step_storeByte]
    have hlength : (copied ++ [c]).length = copied.length + 1 := List.length_append
    have hsucc : UInt64.ofNat (copied ++ [c]).length = UInt64.ofNat copied.length + 1 := by
      rw [hlength, UInt64.ofNat_add]
      rfl
    have hrest := @ih (copied ++ [c]) (by omega) _ _ h₇ hguar₇ (by rw [hK₆.copied]) rfl
      (by rw [UInt64.toNat_ofNat', Nat.mod_eq_of_lt (by omega)])
    rw [hsucc, ← UInt64.add_assoc] at hrest
    exact hrest

/-! ### The end of a call -/

theorem done_read {s s' : Line} (h : LineOk rxRing capacity s')
    (hguar : (serialProtocol rxRing capacity).Guar .reader s s') {a : ReadResult}
    (hhanded : handed s' a = s'.copied ++ s'.held.toList)
    (hcount : c = .available → ∀ n, a = .count n → n.toNat = s'.seen) :
    (serialProtocol rxRing capacity).Done (i := .reader) c a s s' := by
  rw [guar_reader_iff] at hguar
  refine ⟨⟨h.capacity_eq, h.head_lt, h.tail_lt, ?_, ?_⟩, ?_, rfl, rfl⟩
  · have hstream := h.stream
    rw [← hhanded] at hstream
    show s'.delivered ++ handed s' a ++ [] ++ unread rxRing capacity s'.mem = s'.accepted
    rw [List.append_nil]
    exact hstream
  · intro x hx
    cases c with
    | byte => exact h.available x hx
    | stdin tables userPml4 buf len => exact h.available x hx
    | available =>
      cases a with
      | byte b => exact h.available x hx
      | count n =>
        rcases List.mem_append.mp hx with hx | hx
        · exact h.available x hx
        · rw [List.mem_singleton.mp hx]
          exact hcount rfl n rfl
  · rw [guar_reader_iff]
    exact ⟨hguar.head, hguar.data, hguar.pending, hguar.length⟩

theorem wp_sysReadStdin (hring : rxRing ≠ 0) (hcapacity : capacity ≤ 3904) {tables : Mem}
    {userPml4 buf len : UInt64} {s : Line} (h : LineOk rxRing capacity s) (hcopied : s.copied = [])
    (hheld : s.held = none) :
    ReadWp rxRing capacity (.stdin tables userPml4 buf len)
      (sysReadStdin rxRing (translateUserAddr tables userPml4) buf len)
      (fun n s s' => LineOk rxRing capacity s' ∧ (serialProtocol rxRing capacity).Guar .reader s s' ∧
        handed s' (.count n) = s'.copied ++ s'.held.toList) s s := by
  have hguar : (serialProtocol rxRing capacity).Guar .reader s s := Protocol.guar_refl _ s
  unfold sysReadStdin
  extract_lets actualLen
  have hactual : actualLen.toNat ≤ 4096 := by
    show (if len > 4096 then 4096 else len).toNat ≤ 4096
    split
    · exact Nat.le_refl _
    · next hle =>
      rw [gt_iff_lt, UInt64.lt_iff_toNat_lt] at hle
      exact Nat.not_lt.mp hle
  split
  · refine ⟨h, hguar, ?_⟩
    simp [handed, hcopied, hheld]
  · have hloop := @wp_readStdin _ _ hring hcapacity tables userPml4 buf len actualLen.toNat []
      (by simpa using hactual) _ _ h hguar hcopied hheld
    simp only [List.length_nil] at hloop
    rw [show UInt64.ofNat 0 = 0 from rfl, UInt64.add_zero] at hloop
    apply Protocol.wp_mono _ hloop
    rintro n s₁ s₂ ⟨h₂, hguar₂, hlength, hheld₂⟩
    refine ⟨h₂, hguar₂, ?_⟩
    simp [handed, ← hlength, hheld₂]

/-- **Every call of a reader keeps the protocol.** -/
theorem wp_read (hring : rxRing ≠ 0) (hcapacity : capacity ≤ 3904) {s : Line} (h : LineOk rxRing capacity s)
    (hcopied : s.copied = []) (hheld : s.held = none) :
    ReadWp rxRing capacity c (c.body rxRing)
      ((serialProtocol rxRing capacity).Done (i := .reader) c) s s := by
  have hguar : (serialProtocol rxRing capacity).Guar .reader s s := Protocol.guar_refl _ s
  have hreads : Reads rxRing capacity _ [] [] s := ⟨rfl, hcopied, hheld, List.nil_prefix⟩
  cases c with
  | byte =>
    apply (Protocol.wp_bind _ _ _ _ _).mpr
    apply Protocol.wp_mono _ (wp_serialReadByte hring hcapacity h hguar hreads (.inl rfl))
    rintro b s₁ s₂ ⟨h₂, hguar₂, ⟨-, -, hnone, hheld₂⟩ | ⟨hholds, -⟩⟩
    · apply done_read h₂ hguar₂
      · simp [handed, hnone, hheld₂]
      · rintro ⟨⟩
    · apply done_read h₂ hguar₂
      · simp [handed, hholds.copied, hholds.held]
      · rintro ⟨⟩
  | available =>
    apply (Protocol.wp_bind _ _ _ _ _).mpr
    apply Protocol.wp_mono _ (wp_serialRxAvailable hring h hguar hreads)
    rintro n s₁ s₂ ⟨h₂, hguar₂, ⟨front, hreads₂, -⟩, hseen⟩
    apply done_read h₂ hguar₂
    · simp [handed, hreads₂.copied, hreads₂.held]
    · rintro - m hm
      rw [← ReadResult.count.inj hm]
      exact hseen rfl
  | stdin tables userPml4 buf len =>
    apply (Protocol.wp_bind _ _ _ _ _).mpr
    apply Protocol.wp_mono _ (wp_sysReadStdin hring hcapacity h hcopied hheld)
    rintro n s₁ s₂ ⟨h₂, hguar₂, hhanded⟩
    apply done_read h₂ hguar₂ hhanded
    rintro ⟨⟩

end Reader

end Protocol

/-! ### Every run -/

variable {rxRing : UInt64} {capacity : Nat}

theorem serialProtocol_verified (hring : rxRing ≠ 0) (hcapacity : capacity ≤ 3904) :
    (serialProtocol rxRing capacity).Verified := by
  intro i c s h hidle
  cases i with
  | irq =>
    apply Protocol.wp_mono _ (wp_serialIrqHandler hring hcapacity c h (Protocol.guar_refl _ s) hidle)
    rintro - s₁ s₂ ⟨h₂, hguar, hidle₂⟩
    exact ⟨h₂, hguar, hidle₂⟩
  | reader => exact wp_read hring hcapacity h hidle.1 hidle.2

@[simp] theorem init_mem (m : Mem) : (Line.init m).mem = m := by
  unfold Line.init
  rfl

theorem lineOk_init {m : Mem} (h : FreshRing rxRing capacity m) : LineOk rxRing capacity (Line.init m) := by
  have hhead : head rxRing m = 0 := by
    unfold head
    rw [h.head]
    rfl
  have htail : tail rxRing m = 0 := by
    unfold tail
    rw [h.tail]
    rfl
  have hpos : 0 < capacity := Nat.lt_of_lt_of_le Nat.zero_lt_two h.two_le
  have hempty : unread rxRing capacity m = [] := by
    rw [← List.length_eq_zero_iff, length_unread, hhead, htail, span_eq_zero_iff hpos hpos]
  constructor
  · exact h.capacity_eq
  · rw [init_mem, hhead]
    exact hpos
  · rw [init_mem, htail]
    exact hpos
  · rw [init_mem, hempty]
    rfl
  · intro x hx
    exact absurd hx List.not_mem_nil

/-- **The serial line keeps its law** in every interleaving of received bytes with the calls of a reader, as
long as each step is one that loses nothing. -/
theorem serialLaw_run {m : Mem} (hfresh : FreshRing rxRing capacity m)
    {events : List (serialMachine rxRing capacity).Event}
    (hlossless : Admissible Machine.exec (serialProtocol rxRing capacity).Allowed
      (Machine.start (Line.init m)) events) :
    SerialLaw rxRing capacity (runOps Machine.exec (Machine.start (Line.init m)) events) := by
  have hok := Protocol.configOk_run (serialProtocol_verified hfresh.ne_zero hfresh.le)
    (lineOk_init hfresh) (by rintro (_ | _) <;> simp [serialProtocol, Line.init]) hlossless
  obtain ⟨hinv, hthreads⟩ := hok
  have hinv : LineOk rxRing capacity _ := hinv
  refine ⟨hinv.stream, ?_, hinv.available, hinv.head_lt, hinv.tail_lt⟩
  intro hidle
  have hreader := hthreads .reader
  unfold Protocol.ThreadOk at hreader
  rw [hidle] at hreader
  exact hreader

section Small

/-- A ring of two bytes. -/
def smallRing : Mem := fun x => if x = 4104 then 2 else 0

/-- A byte is received. -/
def received (b : UInt8) : List (serialMachine 4096 2).Event :=
  .call .irq [b] :: List.replicate 5 (.step .irq)

theorem freshRing_small : FreshRing 4096 2 smallRing where
  ne_zero := by decide
  head := by decide +kernel
  tail := by decide +kernel
  capacity_eq := by decide +kernel
  two_le := by decide
  le := by decide

theorem serialLaw_one :
    SerialLaw 4096 2 (runOps Machine.exec (Machine.start (Line.init smallRing))
      (received 65 ++ [.call .reader .available, .step .reader, .step .reader, .call .reader .byte,
        .step .reader, .step .reader, .step .reader, .step .reader, .step .reader])) := by
  apply serialLaw_run freshRing_small
  decide +kernel

/-- A byte is received and read, and the next one is received and counted. -/
def wrappedRun : List (serialMachine 4096 2).Event :=
  received 65 ++ .call .reader .byte :: List.replicate 5 (.step .reader) ++
    received 66 ++ .call .reader .available :: List.replicate 2 (.step .reader)

/-- **A wrapped count is not the number of unread bytes**: after a byte has been received and read, the head
of a ring of two bytes wraps around with the next one, and `serial_rx_available` counts `0 - 1`. -/
theorem not_serialLaw_wrapped :
    ¬ ∀ (rxRing : UInt64) (capacity : Nat) (m : Mem), FreshRing rxRing capacity m →
      ∀ events : List (serialMachine rxRing capacity).Event,
        SerialLaw rxRing capacity (runOps Machine.exec (Machine.start (Line.init m)) events) := by
  intro h
  have hlaw := h 4096 2 smallRing freshRing_small wrappedRun
  have hreports : (0 - 1, 1) ∈
      (runOps Machine.exec (Machine.start (Line.init smallRing)) wrappedRun).shared.reports := by
    decide +kernel
  exact absurd (hlaw.available _ hreports) (by decide)

end Small

end Keuos.Serial
