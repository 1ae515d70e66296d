import Keuos.Netd.Defs

/-!
# DER nodes and their buffers

The offsets of `asn1.salt` are words of 32 bits, and their sums wrap around.  There are two of them.  When the
octets of a length reach beyond `2 ^ 32`, the check passes and they are read from outside the buffer; when the
payload does, the node is accepted and the offset behind it is small.  Otherwise a node is inside its buffer.

## Main results

* `decodeLength_cases`, `parseTlvNode_eq`: what the two functions do.
* `walk_ends`: the iteration over nodes that fit ends.
* `nodeInside_iff`: a node is inside its buffer if and only if neither sum wraps around.
-/

namespace Keuos.Netd.Asn1

open Traced

/-! ### Lengths -/

/-- The bytes of a buffer. -/
def bytesAt (m : Mem) (base : UInt64) (i : Nat) : UInt8 := m (base + UInt64.ofNat i)

/-- The number that `n` octets encode, the highest first. -/
def beValue (f : Nat → UInt8) (o : Nat) : Nat → Nat
  | 0 => 0
  | n + 1 => beValue f o n * 256 + (f (o + n)).toNat

/-- The definite form of a length: its value, and how many octets it takes. -/
def derLength (f : Nat → UInt8) (o : Nat) : Nat × Nat :=
  if (f o).toNat < 128 then ((f o).toNat, 1)
  else (beValue f (o + 1) ((f o).toNat - 128), 1 + ((f o).toNat - 128))

/-- The length is in definite form, with at most four octets behind the first one. -/
def Definite (f : Nat → UInt8) (o : Nat) : Prop := (f o).toNat ≠ 128 ∧ (derLength f o).2 ≤ 5

/-- The octets of the length do not reach beyond `2 ^ 32`. -/
def LengthFits (f : Nat → UInt8) (max o : Nat) : Prop :=
  o < max → Definite f o → o + (derLength f o).2 < 2 ^ 32

/-- A payload whose length is inside the buffer does not reach beyond `2 ^ 32`. -/
def PayloadFits (f : Nat → UInt8) (max o : Nat) : Prop :=
  o < max → Definite f o → o + (derLength f o).2 ≤ max → o + (derLength f o).2 + (derLength f o).1 ≤ 2 ^ 32

/-- The byte read is in the buffer. -/
def Inside (base : UInt64) (max : Nat) (a : UInt64) : Prop := ∃ k < max, a = base + UInt64.ofNat k

theorem beValue_lt (f : Nat → UInt8) (o n : Nat) : beValue f o n < 256 ^ n := by
  induction n with
  | zero => exact Nat.one_pos
  | succ n ih =>
    have hbyte := (f (o + n)).toNat_lt
    unfold beValue
    rw [Nat.pow_succ]
    omega

section Decode
variable {m : Mem} {base : UInt64} {maxLen off : UInt32}

@[simp] theorem val_load8 (a : UInt64) : (load8 a).val m = m a := rfl
@[simp] theorem next_load8 (a : UInt64) : (load8 a).next m = m := rfl

@[simp] theorem all_load8 {P : UInt64 → Prop} (a : UInt64) : All P (load8 a) m ↔ P a := by
  unfold All load8 log
  simp

theorem toUInt64_eq (x : UInt32) : x.toUInt64 = UInt64.ofNat x.toNat := by
  rw [← UInt32.toNat_toUInt64, UInt64.ofNat_toNat]

/-- **The octets of a length** that do not reach beyond `2 ^ 32`. -/
theorem lengthOctets_spec {max : Nat} (n : Nat) : ∀ (i acc : UInt32),
    acc.toNat = beValue (bytesAt m base) (off.toNat + 1) i.toNat → i.toNat + n ≤ 4 →
    off.toNat + 1 + i.toNat + n ≤ max → max < 2 ^ 32 →
    ((lengthOctets base off n i acc).val m).toNat = beValue (bytesAt m base) (off.toNat + 1) (i.toNat + n) ∧
      (lengthOctets base off n i acc).next m = m ∧ All (Inside base max)
        (lengthOctets base off n i acc) m := by
  induction n with
  | zero =>
    intro i acc hacc _ _ _
    exact ⟨hacc, rfl, all_pure _ _⟩
  | succ n ih =>
    intro i acc hacc hi hmax hlt
    have hplace : (off + 1 + i).toNat = off.toNat + 1 + i.toNat := by
      rw [UInt32.toNat_add, UInt32.toNat_add, show (1 : UInt32).toNat = 1 from rfl]
      omega
    have hnext : (i + 1).toNat = i.toNat + 1 := by
      rw [UInt32.toNat_add, show (1 : UInt32).toNat = 1 from rfl]
      omega
    have hread : m (base + (off + 1 + i).toUInt64) = bytesAt m base (off.toNat + 1 + i.toNat) := by
      rw [toUInt64_eq, hplace]
      rfl
    have hbyte := (bytesAt m base (off.toNat + 1 + i.toNat)).toNat_lt
    have hbound := beValue_lt (bytesAt m base) (off.toNat + 1) i.toNat
    have hpow : 256 ^ i.toNat ≤ 256 ^ 3 := Nat.pow_le_pow_right (by decide) (by omega)
    have hacc' : (acc * 256 + (m (base + (off + 1 + i).toUInt64)).toUInt32).toNat =
        beValue (bytesAt m base) (off.toNat + 1) (i + 1).toNat := by
      rw [hread, hnext, UInt32.toNat_add, UInt32.toNat_mul, UInt8.toNat_toUInt32, hacc,
        show (256 : UInt32).toNat = 256 from rfl]
      show _ = beValue (bytesAt m base) (off.toNat + 1) i.toNat * 256 +
        (bytesAt m base (off.toNat + 1 + i.toNat)).toNat
      omega
    obtain ⟨hval, hmem, hall⟩ := ih (i + 1) _ hacc' (by omega) (by omega) hlt
    unfold lengthOctets
    rw [val_bind, next_bind, all_bind, next_load8, val_load8, all_load8]
    refine ⟨?_, hmem, ⟨off.toNat + 1 + i.toNat, by omega, ?_⟩, hall⟩
    · rw [hval, hnext, Nat.add_right_comm, Nat.add_assoc]
    · rw [toUInt64_eq, hplace]

theorem not_inside {max : Nat} (h : max < 2 ^ 32) : ¬Inside base max (base + UInt64.ofNat (2 ^ 32 - 1)) := by
  rintro ⟨k, hk, heq⟩
  have hoff : UInt64.ofNat (2 ^ 32 - 1) = UInt64.ofNat k := by grind
  have hnat := congrArg UInt64.toNat hoff
  rw [UInt64.toNat_ofNat', UInt64.toNat_ofNat', Nat.mod_eq_of_lt (by omega),
    Nat.mod_eq_of_lt (by omega)] at hnat
  omega

/-- **Octets beyond `2 ^ 32`**: the one at `2 ^ 32 - 1` is not in the buffer. -/
theorem lengthOctets_past {max : Nat} (hmax : max < 2 ^ 32) (n : Nat) : ∀ (i acc : UInt32),
    off.toNat + 1 + i.toNat < 2 ^ 32 → 2 ^ 32 ≤ off.toNat + 1 + i.toNat + n → i.toNat + n ≤ 4 →
    ¬All (Inside base max) (lengthOctets base off n i acc) m := by
  induction n with
  | zero =>
    intro i acc hlow hhigh _
    omega
  | succ n ih =>
    intro i acc hlow hhigh hi
    have hplace : (off + 1 + i).toNat = off.toNat + 1 + i.toNat := by
      rw [UInt32.toNat_add, UInt32.toNat_add, show (1 : UInt32).toNat = 1 from rfl]
      omega
    have hnext : (i + 1).toNat = i.toNat + 1 := by
      rw [UInt32.toNat_add, show (1 : UInt32).toNat = 1 from rfl]
      omega
    unfold lengthOctets
    rw [all_bind, next_load8, val_load8, all_load8]
    rintro ⟨hfirst, hrest⟩
    by_cases hlast : off.toNat + 1 + i.toNat = 2 ^ 32 - 1
    · rw [toUInt64_eq, hplace, hlast] at hfirst
      exact not_inside hmax hfirst
    · exact ih (i + 1) _ (by omega) (by omega) (by omega) hrest

/-- What becomes of a length: it is refused, it is decoded, or its octets are read from outside the buffer. -/
inductive Outcome (f : Nat → UInt8) (max o : Nat) (x : Asn1M UInt64) (base : UInt64) (m : Mem) : Prop where
  | refused (hval : x.val m = 0) (hall : All (Inside base max) x m) (hfits : LengthFits f max o)
      (hnot : ¬(o < max ∧ Definite f o ∧ o + (derLength f o).2 ≤ max))
  | decoded (hval : (x.val m).toNat = (derLength f o).1 * 2 ^ 32 + (o + (derLength f o).2))
      (hlen : (derLength f o).1 < 2 ^ 32) (hall : All (Inside base max) x m) (hlow : o < max)
      (hdef : Definite f o) (hhigh : o + (derLength f o).2 ≤ max)
  | past (hnot : ¬All (Inside base max) x m) (hlow : o < max) (hdef : Definite f o)
      (hpast : 2 ^ 32 ≤ o + (derLength f o).2)

theorem toNat_pack {actualLen offset headerBytes : UInt32} (h : offset.toNat + headerBytes.toNat < 2 ^ 32) :
    (pack actualLen offset headerBytes).toNat =
      actualLen.toNat * 2 ^ 32 + (offset.toNat + headerBytes.toNat) := by
  have hsum : (offset + headerBytes).toNat = offset.toNat + headerBytes.toNat := by
    rw [UInt32.toNat_add, Nat.mod_eq_of_lt h]
  have hlen := actualLen.toNat_lt
  unfold pack
  rw [UInt64.toNat_add, UInt64.toNat_mul, UInt32.toNat_toUInt64, UInt32.toNat_toUInt64, hsum,
    show (4294967296 : UInt64).toNat = 2 ^ 32 from rfl]
  omega

theorem toNat_numBytes {b : UInt8} (h : 128 ≤ b.toNat) : (b &&& 0x7F).toUInt32.toNat = b.toNat - 128 := by
  have hb := b.toNat_lt
  have hand : (b &&& 0x7F).toNat = b.toNat % 128 := by
    rw [UInt8.toNat_and]
    exact Nat.and_two_pow_sub_one_eq_mod _ 7
  rw [UInt8.toNat_toUInt32, hand]
  omega

/-- **What `decode_length` does.** -/
theorem decodeLength_cases (m : Mem) (base : UInt64) (maxLen off : UInt32) :
    Outcome (bytesAt m base) maxLen.toNat off.toNat (decodeLength base maxLen off) base m := by
  have hmax := maxLen.toNat_lt
  unfold decodeLength
  by_cases hoff : off ≥ maxLen
  · have hle : maxLen.toNat ≤ off.toNat := UInt32.le_iff_toNat_le.mp hoff
    rw [if_pos hoff]
    exact .refused rfl (all_pure _ _) (fun h => by omega) (fun h => by omega)
  have hlow : off.toNat < maxLen.toNat := UInt32.lt_iff_toNat_lt.mp (UInt32.not_le.mp hoff)
  rw [if_neg hoff]
  have hread : m (base + off.toUInt64) = bytesAt m base off.toNat := by
    rw [toUInt64_eq]
    rfl
  have hfirst : Inside base maxLen.toNat (base + off.toUInt64) := ⟨off.toNat, hlow, by rw [toUInt64_eq]⟩
  have hbind : ∀ g : UInt8 → Asn1M UInt64,
      Outcome (bytesAt m base) maxLen.toNat off.toNat (g (bytesAt m base off.toNat)) base m →
      Outcome (bytesAt m base) maxLen.toNat off.toNat (load8 (base + off.toUInt64) >>= g) base m := by
    intro g h
    have hval : (load8 (base + off.toUInt64) >>= g).val m = (g (bytesAt m base off.toNat)).val m := by
      rw [val_bind, next_load8, val_load8, hread]
    have hall : All (Inside base maxLen.toNat) (load8 (base + off.toUInt64) >>= g) m ↔
        All (Inside base maxLen.toNat) (g (bytesAt m base off.toNat)) m := by
      rw [all_bind, next_load8, val_load8, hread, all_load8]
      exact and_iff_right hfirst
    cases h with
    | refused h₁ h₂ h₃ h₄ => exact .refused (hval.trans h₁) (hall.mpr h₂) h₃ h₄
    | decoded h₁ h₂ h₃ h₄ h₅ h₆ => exact .decoded (by rw [hval]; exact h₁) h₂ (hall.mpr h₃) h₄ h₅ h₆
    | past h₁ h₂ h₃ h₄ => exact .past (fun h => h₁ (hall.mp h)) h₂ h₃ h₄
  apply hbind
  generalize hb : bytesAt m base off.toNat = b
  have hblt := b.toNat_lt
  by_cases hshort : b ≤ 0x7F
  · -- the short form
    have hle : b.toNat ≤ 127 := UInt8.le_iff_toNat_le.mp hshort
    have hder : derLength (bytesAt m base) off.toNat = (b.toNat, 1) := by
      unfold derLength
      rw [hb, if_pos (by omega)]
    rw [if_pos hshort]
    refine .decoded ?_ ?_ (all_pure _ _) hlow ⟨?_, ?_⟩ ?_
    · rw [hder, val_pure, toNat_pack (by show off.toNat + 1 < _; omega), UInt8.toNat_toUInt32]
      rfl
    · rw [hder]
      show b.toNat < _
      omega
    · rw [hb]
      omega
    · rw [hder]
      exact Nat.le_add_left 1 4
    · rw [hder]
      exact hlow
  have hlong : 128 ≤ b.toNat := UInt8.lt_iff_toNat_lt.mp (UInt8.not_le.mp hshort)
  have hnum := toNat_numBytes hlong
  have hder : derLength (bytesAt m base) off.toNat =
      (beValue (bytesAt m base) (off.toNat + 1) (b.toNat - 128), 1 + (b.toNat - 128)) := by
    unfold derLength
    rw [hb, if_neg (by omega)]
  rw [if_neg hshort]
  dsimp only
  generalize (b &&& 0x7F).toUInt32 = numBytes at hnum
  have hzero : numBytes = 0 ↔ b.toNat = 128 := by
    rw [← UInt32.toNat_inj, hnum, UInt32.toNat_zero]
    omega
  have hfour : numBytes > 4 ↔ 4 < b.toNat - 128 := by
    rw [gt_iff_lt, UInt32.lt_iff_toNat_lt, hnum]
    rfl
  have hdef : Definite (bytesAt m base) off.toNat ↔ ¬(numBytes = 0 ∨ numBytes > 4) := by
    unfold Definite
    rw [hzero, hfour, hb, hder]
    omega
  by_cases hform : numBytes = 0 ∨ numBytes > 4
  · rw [if_pos hform]
    exact .refused rfl (all_pure _ _) (fun _ h => absurd hform (hdef.mp h))
      (fun h => absurd hform (hdef.mp h.2.1))
  rw [if_neg hform]
  have hsmall : numBytes.toNat ≤ 4 := by
    rw [not_or, hfour] at hform
    omega
  have hsum : (off + 1 + numBytes).toNat = (off.toNat + 1 + numBytes.toNat) % 2 ^ 32 := by
    rw [UInt32.toNat_add, UInt32.toNat_add, show (1 : UInt32).toNat = 1 from rfl, Nat.mod_add_mod]
  have hgt : off + 1 + numBytes > maxLen ↔ maxLen.toNat < (off.toNat + 1 + numBytes.toNat) % 2 ^ 32 := by
    rw [gt_iff_lt, UInt32.lt_iff_toNat_lt, hsum]
  have hzeroNat : (0 : UInt32).toNat = 0 := rfl
  have hoctets : off.toNat + (derLength (bytesAt m base) off.toNat).2 = off.toNat + 1 + numBytes.toNat := by
    rw [hder, hnum]
    show off.toNat + (1 + _) = _
    omega
  by_cases hpast : 2 ^ 32 ≤ off.toNat + 1 + numBytes.toNat
  · -- The sum is at most four, and so below the buffer's length.
    rw [if_neg (by rw [hgt]; omega)]
    refine .past ?_ hlow (hdef.mpr hform) (by rw [hoctets]; exact hpast)
    rw [all_bind]
    exact fun h => lengthOctets_past hmax numBytes.toNat 0 0 (by omega) (by omega) (by omega) h.1
  · by_cases hcheck : off + 1 + numBytes > maxLen
    · rw [if_pos hcheck]
      rw [hgt] at hcheck
      refine .refused rfl (all_pure _ _) (fun _ _ => by rw [hoctets]; omega) (fun h => ?_)
      have := h.2.2
      rw [hoctets] at this
      omega
    · rw [if_neg hcheck]
      rw [hgt] at hcheck
      obtain ⟨hval, hmem, hall⟩ := @lengthOctets_spec m base off maxLen.toNat numBytes.toNat 0
          0 rfl (by omega)
        (by omega) hmax
      rw [hzeroNat, Nat.zero_add] at hval
      have hheader : (1 + numBytes).toNat = 1 + numBytes.toNat := by
        rw [UInt32.toNat_add, show (1 : UInt32).toNat = 1 from rfl]
        omega
      have hlen : (derLength (bytesAt m base) off.toNat).1 =
          ((lengthOctets base off numBytes.toNat 0 0).val m).toNat := by
        rw [hval, hder, hnum]
      refine .decoded ?_ ?_ ?_ hlow (hdef.mpr hform) (by rw [hoctets]; omega)
      · rw [val_bind, val_pure, toNat_pack (by omega), hlen, hheader, hder, hnum]
      · rw [hlen]
        exact UInt32.toNat_lt _
      · rw [all_bind]
        exact ⟨hall, all_pure _ _⟩

end Decode

/-! ### Nodes -/

/-- The node that is stored at an address. -/
def nodeAt (m : Mem) (a : UInt64) : TlvNode := ⟨m a, m.read32 (a + 4), m.read32 (a + 8)⟩

section Node
variable {m : Mem} {base out : UInt64} {maxLen idx : UInt32}

theorem next_decodeLength : ∀ (m : Mem), (decodeLength base maxLen idx).next m = m := by
  have hoctets : ∀ n i acc (m : Mem), (lengthOctets base idx n i acc).next m = m := by
    intro n
    induction n with
    | zero => exact fun _ _ _ => rfl
    | succ n ih => exact fun _ _ m => ih _ _ m
  intro m
  unfold decodeLength
  split
  · rfl
  · rw [next_bind, next_load8]
    split
    · rfl
    · dsimp only
      split
      · rfl
      · split
        · rfl
        · rw [next_bind, hoctets]
          rfl

theorem length_storeNode (node : TlvNode) :
    (nodeAt ((storeNode out node).next m) out).length = node.length := by
  have h : (((m.write8 out node.tag).write32 (out + 4) node.length).write32 (out + UInt64.ofNat 8)
      node.payloadOffset).read32 (out + UInt64.ofNat 4) =
      ((m.write8 out node.tag).write32 (out + 4) node.length).read32 (out + UInt64.ofNat 4) :=
    Mem.read32_write32_offset (by decide) (by decide) (.inr (by decide))
  exact h.trans (Mem.read32_write32_self _ _ _)

theorem payloadOffset_storeNode (node : TlvNode) :
    (nodeAt ((storeNode out node).next m) out).payloadOffset = node.payloadOffset :=
  Mem.read32_write32_self _ _ _

/-- The end of `parse_tlv_node`, once the length has been decoded. -/
def finishNode (maxLen : UInt32) (out : UInt64) (tag : UInt8) (packed : UInt64) : Asn1M UInt32 :=
  if packed = 0 then return 0
  else if (packed % 4294967296).toUInt32 + (packed / 4294967296).toUInt32 > maxLen then return 0
  else do
    storeNode out ⟨tag, (packed / 4294967296).toUInt32, (packed % 4294967296).toUInt32⟩
    return (packed % 4294967296).toUInt32 + (packed / 4294967296).toUInt32

theorem parseTlvNode_eq : parseTlvNode base maxLen idx out =
    if idx ≥ maxLen then return 0
    else (do
      let tag ← load8 (base + idx.toUInt64)
      let packed ← decodeLength base maxLen (idx + 1)
      finishNode maxLen out tag packed) := rfl

theorem all_finishNode {P : UInt64 → Prop} (tag : UInt8) (packed : UInt64) :
    All P (finishNode maxLen out tag packed) m := by
  unfold finishNode
  rw [all_ite, all_ite]
  split
  · exact all_pure _ _
  · split
    · exact all_pure _ _
    · unfold storeNode store8 store32
      simp

/-- **The sum of the offset and the length** is taken modulo `2 ^ 32`, in the check and in the result. -/
theorem finishNode_spec (m : Mem) (maxLen : UInt32) (out : UInt64) (tag : UInt8) {packed : UInt64}
    {len po : Nat} (hpacked : packed.toNat = len * 2 ^ 32 + po) (hpos : 0 < po) (hpo : po < 2 ^ 32)
      (hlen : len < 2 ^ 32) :
    let x := finishNode maxLen out tag packed
    (maxLen.toNat < (po + len) % 2 ^ 32 → x.val m = 0) ∧
      ((po + len) % 2 ^ 32 ≤ maxLen.toNat → (x.val m).toNat = (po + len) % 2 ^ 32 ∧
        (nodeAt (x.next m) out).length.toNat = len ∧ (nodeAt (x.next m) out).payloadOffset.toNat = po) := by
  have hhigh : (packed / 4294967296).toUInt32.toNat = len := by
    rw [UInt64.toNat_toUInt32, UInt64.toNat_div, hpacked, show (4294967296 : UInt64).toNat = 2 ^ 32 from rfl]
    omega
  have hlow : (packed % 4294967296).toUInt32.toNat = po := by
    rw [UInt64.toNat_toUInt32, UInt64.toNat_mod, hpacked, show (4294967296 : UInt64).toNat = 2 ^ 32 from rfl]
    omega
  have hne : packed ≠ 0 := by
    rw [Ne, ← UInt64.toNat_inj, hpacked, UInt64.toNat_zero]
    omega
  have hsum : ((packed % 4294967296).toUInt32 + (packed / 4294967296).toUInt32).toNat =
      (po + len) % 2 ^ 32 := by
    rw [UInt32.toNat_add, hhigh, hlow]
  intro x
  unfold x finishNode
  rw [if_neg hne]
  constructor
  · intro hgt
    rw [if_pos (UInt32.lt_iff_toNat_lt.mpr (by rw [hsum]; exact hgt))]
    rfl
  · intro hle
    rw [if_neg (UInt32.not_lt.mpr (UInt32.le_iff_toNat_le.mpr (by rw [hsum]; exact hle)))]
    refine ⟨hsum, ?_, ?_⟩
    · rw [next_bind, next_pure, length_storeNode, hhigh]
    · rw [next_bind, next_pure, payloadOffset_storeNode, hlow]

/-- Nothing is read outside the buffer, and the node that is returned is inside it. -/
structure NodeInside (m : Mem) (base : UInt64) (maxLen idx : UInt32) (out : UInt64) : Prop where
  reads : All (Inside base maxLen.toNat) (parseTlvNode base maxLen idx out) m
  node : let r := (parseTlvNode base maxLen idx out).val m
    let node := nodeAt ((parseTlvNode base maxLen idx out).next m) out
    r ≠ 0 → idx.toNat < node.payloadOffset.toNat ∧ node.payloadOffset.toNat + node.length.toNat = r.toNat ∧
      r.toNat ≤ maxLen.toNat ∧ node.length.toNat = (derLength (bytesAt m base) (idx.toNat + 1)).1

/-- Neither the octets of the length nor the payload reach beyond `2 ^ 32`. -/
def NodeFits (m : Mem) (base : UInt64) (maxLen idx : UInt32) : Prop :=
  LengthFits (bytesAt m base) maxLen.toNat (idx.toNat + 1) ∧
    PayloadFits (bytesAt m base) maxLen.toNat (idx.toNat + 1)

/-- **A node is inside its buffer** if and only if neither sum wraps around. -/
theorem nodeInside_iff_nodeFits (m : Mem) (base : UInt64) (maxLen idx : UInt32) (out : UInt64) :
    NodeInside m base maxLen idx out ↔ NodeFits m base maxLen idx := by
  have hmax := maxLen.toNat_lt
  by_cases hidx : idx ≥ maxLen
  · have hle : maxLen.toNat ≤ idx.toNat := UInt32.le_iff_toNat_le.mp hidx
    have hparse : parseTlvNode base maxLen idx out = pure 0 := by
      rw [parseTlvNode_eq, if_pos hidx]
    refine iff_of_true ⟨?_, ?_⟩ ⟨fun h => by omega, fun h => by omega⟩
    · rw [hparse]
      exact all_pure _ _
    · rw [hparse]
      exact fun h => absurd rfl h
  have hlow : idx.toNat < maxLen.toNat := UInt32.lt_iff_toNat_lt.mp (UInt32.not_le.mp hidx)
  have hsucc : (idx + 1).toNat = idx.toNat + 1 := by
    rw [UInt32.toNat_add, show (1 : UInt32).toNat = 1 from rfl]
    omega
  have hval : (parseTlvNode base maxLen idx out).val m = (finishNode maxLen out (m (base + idx.toUInt64))
      ((decodeLength base maxLen (idx + 1)).val m)).val m := by
    rw [parseTlvNode_eq, if_neg hidx, val_bind, next_load8, val_load8, val_bind, next_decodeLength]
  have hnext : (parseTlvNode base maxLen idx out).next m = (finishNode maxLen out (m (base + idx.toUInt64))
      ((decodeLength base maxLen (idx + 1)).val m)).next m := by
    rw [parseTlvNode_eq, if_neg hidx, next_bind, next_load8, val_load8, next_bind, next_decodeLength]
  have hreads : All (Inside base maxLen.toNat) (parseTlvNode base maxLen idx out) m ↔
      All (Inside base maxLen.toNat) (decodeLength base maxLen (idx + 1)) m := by
    have hfirst : Inside base maxLen.toNat (base + idx.toUInt64) := ⟨idx.toNat, hlow, by rw [toUInt64_eq]⟩
    rw [parseTlvNode_eq, if_neg hidx, all_bind, next_load8, val_load8, all_load8, all_bind, next_decodeLength]
    exact ⟨fun h => h.2.1, fun h => ⟨hfirst, h, all_finishNode _ _⟩⟩
  have hcases := decodeLength_cases m base maxLen (idx + 1)
  rw [hsucc] at hcases
  cases hcases with
  | refused hzero hall hfits hnot =>
    refine iff_of_true ⟨hreads.mpr hall, ?_⟩ ⟨hfits, fun h₁ h₂ h₃ => absurd ⟨h₁, h₂, h₃⟩ hnot⟩
    intro r node hr
    rw [show r = 0 by rw [show r = _ from hval, hzero]; rfl] at hr
    exact absurd rfl hr
  | past hnot hoff hdef hpast =>
    refine iff_of_false (fun h => hnot (hreads.mp h.reads)) fun h => ?_
    have := h.1 hoff hdef
    omega
  | decoded hpacked hlen hall hoff hdef hhigh =>
    obtain ⟨hrefuse, haccept⟩ := finishNode_spec m maxLen out (m (base + idx.toUInt64)) hpacked (by omega)
      (by omega) hlen
    rw [← hval] at hrefuse haccept
    rw [← hnext] at haccept
    constructor
    · intro h
      refine ⟨fun _ _ => by omega, fun _ _ _ => ?_⟩
      by_contra hover
      -- The sum is wrong and not zero, and passes the check.
      obtain ⟨hsum, hlength, hpayload⟩ := haccept (by omega)
      have hr : (parseTlvNode base maxLen idx out).val m ≠ 0 := by
        rw [Ne, ← UInt32.toNat_inj, hsum, UInt32.toNat_zero]
        omega
      have := (h.node hr).2.1
      omega
    · intro h
      have hfits := h.2 hoff hdef hhigh
      refine ⟨hreads.mpr hall, ?_⟩
      intro r node hr
      have hpass : ((idx.toNat + 1 + (derLength (bytesAt m base) (idx.toNat + 1)).2 +
          (derLength (bytesAt m base) (idx.toNat + 1)).1) % 2 ^ 32 ≤ maxLen.toNat) := by
        by_contra hgt
        exact hr (hrefuse (by omega))
      obtain ⟨hsum, hlength, hpayload⟩ := haccept hpass
      have hpos : 0 < r.toNat := Nat.pos_of_ne_zero fun h => hr (UInt32.toNat_inj.mp h)
      have hr' : r.toNat = _ := hsum
      have hlength' : node.length.toNat = _ := hlength
      have hpayload' : node.payloadOffset.toNat = _ := hpayload
      refine ⟨by omega, by omega, by omega, hlength'⟩

theorem reads_decodeLength_iff (m : Mem) (base : UInt64) (maxLen off : UInt32) :
    All (Inside base maxLen.toNat) (decodeLength base maxLen off) m ↔
      LengthFits (bytesAt m base) maxLen.toNat off.toNat := by
  have hmax := maxLen.toNat_lt
  cases decodeLength_cases m base maxLen off with
  | refused _ hall hfits _ => exact iff_of_true hall hfits
  | decoded _ _ hall _ _ hhigh => exact iff_of_true hall fun _ _ => by omega
  | past hnot hlow hdef hpast => exact iff_of_false hnot fun h => absurd (h hlow hdef) (Nat.not_lt.mpr hpast)

end Node

/-! ### Iteration -/

section Walk
variable (base : UInt64) (maxLen : UInt32) (out : UInt64)

/-- The next node, parsed from where the last one ended. -/
def walkStep (s : UInt32 × Mem) : UInt32 × Mem :=
  ((parseTlvNode base maxLen s.1 out).val s.2, (parseTlvNode base maxLen s.1 out).next s.2)

/-- Where the walk stands after `n` nodes. -/
def walk (s : UInt32 × Mem) : Nat → UInt32 × Mem
  | 0 => s
  | n + 1 => walkStep base maxLen out (walk s n)

/-- **The iteration ends** when each of its nodes fits: a node ends behind its start. -/
theorem walk_ends {s : UInt32 × Mem}
    (h : ∀ k, (∀ j < k, (walk base maxLen out s (j + 1)).1 ≠ 0) →
      NodeFits (walk base maxLen out s k).2 base maxLen (walk base maxLen out s k).1) :
    ∃ k ≤ maxLen.toNat, (walk base maxLen out s (k + 1)).1 = 0 := by
  by_contra hnone
  have hgo : ∀ k ≤ maxLen.toNat, (walk base maxLen out s (k + 1)).1 ≠ 0 :=
    fun k hk hzero => hnone ⟨k, hk, hzero⟩
  have hstep : ∀ k ≤ maxLen.toNat, (walk base maxLen out s k).1.toNat <
      (walk base maxLen out s (k + 1)).1.toNat ∧
      (walk base maxLen out s (k + 1)).1.toNat ≤ maxLen.toNat := by
    intro k hk
    have hfits := h k fun j hj => hgo j (by omega)
    obtain ⟨hlow, hsum, hhigh, -⟩ :=
      ((nodeInside_iff_nodeFits _ _ _ _ out).mpr hfits).node (hgo k hk)
    exact ⟨Nat.lt_of_lt_of_le hlow (Nat.le_of_add_right_le (Nat.le_of_eq hsum)), hhigh⟩
  have hgrow : ∀ k ≤ maxLen.toNat + 1, k ≤ (walk base maxLen out s k).1.toNat := by
    intro k
    induction k with
    | zero => exact fun _ => Nat.zero_le _
    | succ k ih =>
      intro hk
      have := ih (by omega)
      have := (hstep k (by omega)).1
      omega
  have hlast := hgrow (maxLen.toNat + 1) (Nat.le_refl _)
  have hbound := (hstep maxLen.toNat (Nat.le_refl _)).2
  omega

end Walk

/-- **DER nodes and their buffers.** `decode_length` reads inside the buffer if and only if the octets of the
length do not reach beyond `2 ^ 32`; a node is inside the buffer if and only if its payload does not either;
and an iteration of which each node fits ends. -/
theorem nodeInside_iff (m : Mem) (base : UInt64) (maxLen : UInt32) (out : UInt64) :
    (∀ off, All (Inside base maxLen.toNat) (decodeLength base maxLen off) m ↔
      LengthFits (bytesAt m base) maxLen.toNat off.toNat) ∧
      (∀ idx, NodeInside m base maxLen idx out ↔ NodeFits m base maxLen idx) ∧
      ∀ idx, (∀ k, (∀ j < k, (walk base maxLen out (idx, m) (j + 1)).1 ≠ 0) →
        NodeFits (walk base maxLen out (idx, m) k).2 base maxLen (walk base maxLen out (idx, m) k).1) →
        ∃ k ≤ maxLen.toNat, (walk base maxLen out (idx, m) (k + 1)).1 = 0 :=
  ⟨reads_decodeLength_iff m base maxLen, fun idx => nodeInside_iff_nodeFits m base maxLen idx out,
    fun _ h => walk_ends base maxLen out h⟩

/-- A sequence that claims `2 ^ 32 - 1` bytes. -/
def hugeNode : Mem := fun a => if a = 0 then 0x30 else if a = 1 then 0x84 else 0xFF

/-- It is accepted in a buffer of six bytes. -/
theorem not_nodeInside : ¬∀ m base maxLen idx out, NodeInside m base maxLen idx out := by
  intro h
  have hfits := ((nodeInside_iff_nodeFits hugeNode 0 6 0 0x1000).mp (h hugeNode 0 6 0 0x1000)).2
  have hdef : Definite (bytesAt hugeNode 0) 1 := by
    unfold Definite
    decide +kernel
  have hsum := hfits (by decide) hdef (by decide +kernel)
  exact absurd hsum (by decide +kernel)

end Keuos.Netd.Asn1
