import Keuos.Lib.OnesComplement
import Keuos.Net.Equiv.Frames

/-!
# Checksums

`checksum` and `tcp_checksum` add up the bytes of their buffers as `wordSum` does, modulo `2 ^ 32`,
and fold the sum as `foldedSum` does (`val_checksum`, `val_tcpChecksum`).  So a checksum that is
stored into its zeroed field makes the sum fold to all ones, whatever the length of the buffer.

## Main results

* `checksum_verifies`, `tcpChecksum_verifies`: a buffer with its checksum stored verifies.
* `ipBuild_verifies`, `handleIcmp_verifies`: what the two functions leave behind verifies.
* `checksums_verify`: these, and that no sum of at most 65535 bytes overflows.
-/

namespace Keuos.Net

open Traced

/-! ### Bytes in memory -/

/-- The byte at offset `k` of a pointer. -/
def Stack.byte (s : Stack) (p : Ptr) (k : Nat) : UInt8 :=
  s.tcp.mem (p.add (UInt64.ofNat k)).addr

theorem Ptr.add_zero (p : Ptr) : p.add (UInt64.ofNat 0) = p := by
  unfold Ptr.add
  rw [show UInt64.ofNat 0 = 0 from rfl, UInt64.add_zero]

theorem Ptr.add_ofNat (p : Ptr) (i j : Nat) :
    (p.add (UInt64.ofNat i)).add (UInt64.ofNat j) = p.add (UInt64.ofNat (i + j)) := by
  rw [Ptr.add_add, ← UInt64.ofNat_add]

theorem byte_add (s : Stack) (p : Ptr) (i j : Nat) :
    s.byte (p.add (UInt64.ofNat i)) j = s.byte p (i + j) := by
  unfold Stack.byte
  rw [Ptr.add_ofNat]

theorem addr_add_inj (p : Ptr) {i j : Nat} (hi : i < 2 ^ 64) (hj : j < 2 ^ 64)
    (h : (p.add (UInt64.ofNat i)).addr = (p.add (UInt64.ofNat j)).addr) : i = j := by
  unfold Ptr.addr Ptr.add at h
  have hoff : UInt64.ofNat i = UInt64.ofNat j := by grind
  have hnat := congrArg UInt64.toNat hoff
  rwa [UInt64.toNat_ofNat', UInt64.toNat_ofNat', Nat.mod_eq_of_lt hi, Nat.mod_eq_of_lt hj] at hnat

@[simp] theorem byte_store (s : Stack) (p : Ptr) (off k : Nat) (v : UInt8) (hoff : off < 2 ^ 64)
    (hk : k < 2 ^ 64) :
    ((store (p.add (UInt64.ofNat off)) v).next s).byte p k = if k = off then v else s.byte p k := by
  show Function.update s.tcp.mem (p.add (UInt64.ofNat off)).addr v (p.add (UInt64.ofNat k)).addr = _
  split
  · rename_i h
    rw [h, Function.update_self]
  · rename_i h
    exact Function.update_of_ne (fun heq => h (addr_add_inj p hk hoff heq)) _ _

/-- **What `storeBytes` has stored.** -/
theorem byte_storeBytes (p : Ptr) (bs : List UInt8) : ∀ {off : Nat} (s : Stack) {k : Nat},
    off + bs.length ≤ 2 ^ 64 → k < 2 ^ 64 →
    ((storeBytes (p.add (UInt64.ofNat off)) bs).next s).byte p k =
      if off ≤ k ∧ k < off + bs.length then bs.getD (k - off) 0 else s.byte p k := by
  induction bs with
  | nil =>
    intro off s k _ _
    rw [List.length_nil, if_neg (by omega)]
    rfl
  | cons b bs ih =>
    intro off s k hoff hk
    rw [List.length_cons] at hoff ⊢
    have hnext : (p.add (UInt64.ofNat off)).add 1 = p.add (UInt64.ofNat (off + 1)) :=
      Ptr.add_ofNat p off 1
    show ((storeBytes ((p.add (UInt64.ofNat off)).add 1) bs).next
      ((store (p.add (UInt64.ofNat off)) b).next s)).byte p k = _
    rw [hnext, ih _ (by omega) hk, byte_store s p off k b (by omega) hk]
    by_cases hk0 : k = off
    · rw [if_neg (by omega), if_pos hk0, if_pos (by omega), hk0, Nat.sub_self]
      rfl
    · by_cases hin : off + 1 ≤ k ∧ k < off + 1 + bs.length
      · rw [if_pos hin, if_pos (by omega), show k - off = k - (off + 1) + 1 by omega,
          List.getD_cons_succ]
      · rw [if_neg hin, if_neg hk0, if_neg (by omega)]

/-! ### The loops -/

theorem toUInt32_word (hi lo : UInt8) :
    (hi.toUInt32 <<< 8) ||| lo.toUInt32 = UInt32.ofNat (hi.toNat * 256 + lo.toNat) := by
  have h := hi.toNat_lt
  have l := lo.toNat_lt
  rw [← UInt32.toNat_inj, UInt32.toNat_or, UInt32.toNat_shiftLeft, UInt8.toNat_toUInt32,
    UInt8.toNat_toUInt32, UInt32.toNat_ofNat', show (8 : UInt32).toNat % 32 = 8 from rfl,
    Nat.shiftLeft_eq, Nat.mod_eq_of_lt (show hi.toNat * 2 ^ 8 < 2 ^ 32 by omega), Nat.mul_comm,
    ← Nat.two_pow_add_eq_or_of_lt l, Nat.mod_eq_of_lt (by omega)]
  omega

theorem toUInt32_high (hi : UInt8) : hi.toUInt32 <<< 8 = UInt32.ofNat (hi.toNat * 256) := by
  have h := toUInt32_word hi 0
  simpa using h

/-- **The words**: after any number of rounds the sum is that of the bytes before the index, and
enough rounds leave at most one byte. -/
theorem val_sumWords (buf : Ptr) (len : UInt32) (s : Stack) (start n : Nat) :
    ∀ (i sum : UInt32), i.toNat % 2 = 0 → i.toNat ≤ len.toNat →
      sum = UInt32.ofNat (start + wordSum (s.byte buf) i.toNat) →
      ((sumWords buf len n i sum).val s).1.toNat ≤ len.toNat ∧
      ((sumWords buf len n i sum).val s).2 =
        UInt32.ofNat (start + wordSum (s.byte buf) ((sumWords buf len n i sum).val s).1.toNat) ∧
      (len.toNat ≤ i.toNat + 2 * n + 1 →
        ((sumWords buf len n i sum).val s).1.toNat = len.toNat / 2 * 2) := by
  induction n with
  | zero =>
    intro i sum heven hle hsum
    refine ⟨hle, hsum, ?_⟩
    intro henough
    show i.toNat = _
    omega
  | succ n ih =>
    intro i sum heven hle hsum
    have hlen := len.toNat_lt
    have hsucc : (i + 1).toNat = i.toNat + 1 := by
      rw [UInt32.toNat_add, show (1 : UInt32).toNat = 1 from rfl]
      omega
    unfold sumWords
    by_cases hmore : i + 1 < len
    · have hmore' := UInt32.lt_iff_toNat_lt.mp hmore
      have htwo : (i + 2).toNat = i.toNat + 2 := by
        rw [UInt32.toNat_add, show (2 : UInt32).toNat = 2 from rfl]
        omega
      have hhi : (load (buf.add i.toUInt64)).val s = s.byte buf i.toNat := by
        rw [val_load]
        unfold Stack.byte
        rw [← UInt32.toNat_toUInt64, UInt64.ofNat_toNat]
      have hlo : (load ((buf.add i.toUInt64).add 1)).val s = s.byte buf (i.toNat + 1) := by
        rw [val_load, ← byte_add]
        unfold Stack.byte
        rw [← UInt32.toNat_toUInt64, UInt64.ofNat_toNat]
        rfl
      have hsum' : sum + ((s.byte buf i.toNat).toUInt32 <<< 8 ||| (s.byte buf (i.toNat + 1)).toUInt32) =
          UInt32.ofNat (start + wordSum (s.byte buf) (i + 2).toNat) := by
        rw [htwo, wordSum_add_two _ heven, hsum, toUInt32_word, ← UInt32.ofNat_add, Nat.add_assoc]
      rw [if_pos hmore, val_bind, hhi, next_load, val_bind, hlo, next_load]
      obtain ⟨h1, h2, h3⟩ := ih (i + 2) _ (by omega) (by omega) hsum'
      exact ⟨h1, h2, fun henough => h3 (by omega)⟩
    · have hmore' : ¬ i.toNat + 1 < len.toNat := by
        rw [← hsucc]
        exact fun h => hmore (UInt32.lt_iff_toNat_lt.mpr h)
      rw [if_neg hmore]
      refine ⟨hle, hsum, ?_⟩
      intro _
      show i.toNat = _
      omega

theorem next_sumWords (buf : Ptr) (len : UInt32) (s : Stack) (n : Nat) (i sum : UInt32) :
    (sumWords buf len n i sum).next s = s := by
  induction n generalizing i sum with
  | zero => rfl
  | succ n ih =>
    unfold sumWords
    rw [next_ite]
    split
    · rw [next_bind, next_load, next_bind, next_load]
      exact ih _ _
    · rfl

/-- **The bytes**: the words, and the odd byte behind them. -/
theorem val_sumBytes (buf : Ptr) (len : UInt32) (s : Stack) (start : Nat) :
    (sumBytes buf len (UInt32.ofNat start)).val s =
      UInt32.ofNat (start + wordSum (s.byte buf) len.toNat) := by
  obtain ⟨hle, hsum, hend⟩ := val_sumWords buf len s start len.toNat 0 (UInt32.ofNat start) rfl
    (Nat.zero_le _) rfl
  replace hend := hend (by rw [UInt32.toNat_zero]; omega)
  unfold sumBytes
  rw [val_bind, next_sumWords]
  generalize (sumWords buf len len.toNat 0 (UInt32.ofNat start)).val s = r at hle hsum hend ⊢
  by_cases hodd : r.1 < len
  · have hodd' := UInt32.lt_iff_toNat_lt.mp hodd
    have hlen : len.toNat = r.1.toNat + 1 := by omega
    have hhi : (load (buf.add r.1.toUInt64)).val s = s.byte buf r.1.toNat := by
      rw [val_load]
      unfold Stack.byte
      rw [← UInt32.toNat_toUInt64, UInt64.ofNat_toNat]
    rw [if_pos hodd, val_bind, hhi, val_pure, hsum, toUInt32_high, ← UInt32.ofNat_add, hlen,
      wordSum_succ, byteWeight_even (by omega), Nat.add_assoc]
  · have hodd' : ¬ r.1.toNat < len.toNat := fun h => hodd (UInt32.lt_iff_toNat_lt.mpr h)
    rw [if_neg hodd, val_pure, hsum, show len.toNat = r.1.toNat by omega]

theorem next_sumBytes (buf : Ptr) (len sum : UInt32) (s : Stack) :
    (sumBytes buf len sum).next s = s := by
  unfold sumBytes
  rw [next_bind, next_sumWords, next_ite]
  split <;> rfl

/-! ### Folding -/

theorem toNat_and_low (s : UInt32) : (s &&& 0xFFFF).toNat = s.toNat % 65536 := by
  rw [UInt32.toNat_and]
  exact Nat.and_two_pow_sub_one_eq_mod s.toNat 16

theorem toNat_shift_high (s : UInt32) : (s >>> 16).toNat = s.toNat / 65536 := by
  rw [UInt32.toNat_shiftRight]
  exact Nat.shiftRight_eq_div_pow s.toNat 16

/-- One round of the loop. -/
def foldRound (s : UInt32) : UInt32 :=
  let low : UInt32 := s &&& 0xFFFF
  low + (s >>> 16)

theorem toNat_foldRound (s : UInt32) : (foldRound s).toNat = s.toNat % 65536 + s.toNat / 65536 := by
  have := s.toNat_lt
  unfold foldRound
  dsimp only
  rw [UInt32.toNat_add, toNat_and_low, toNat_shift_high]
  omega

theorem foldSum_succ (n : Nat) (s : UInt32) :
    foldSum (n + 1) s = if s.toNat < 65536 then s else foldSum n (foldRound s) := by
  have hstep : foldSum (n + 1) s = if s >>> 16 != 0 then foldSum n (foldRound s) else s := rfl
  have hzero : s >>> 16 = 0 ↔ s.toNat < 65536 := by
    rw [← UInt32.toNat_inj, toNat_shift_high, UInt32.toNat_zero]
    omega
  rw [hstep]
  by_cases h : s.toNat < 65536
  · rw [if_pos h, if_neg (by simpa using hzero.mpr h)]
  · rw [if_neg h, if_pos (by simpa using fun h' => h (hzero.mp h'))]

/-- **The folding loop ends after two rounds**, with the folded sum. -/
theorem toNat_foldSum (n : Nat) (s : UInt32) : (foldSum (n + 2) s).toNat = foldedSum s.toNat := by
  have hs := s.toNat_lt
  rw [foldSum_succ]
  split
  · exact (foldedSum_of_le (by omega)).symm
  · rw [← foldedSum_round s.toNat, ← toNat_foldRound s]
    have hround := toNat_foldRound s
    generalize foldRound s = t at hround ⊢
    rw [foldSum_succ]
    split
    · exact (foldedSum_of_le (by omega)).symm
    · have hagain := toNat_foldRound t
      rw [← foldedSum_round t.toNat, ← hagain]
      generalize foldRound t = u at hagain ⊢
      have hu : u.toNat < 65536 := by omega
      rw [foldedSum_of_le (by omega)]
      cases n with
      | zero => rfl
      | succ n => rw [foldSum_succ, if_pos hu]

theorem foldSum_ends (n : Nat) (s : UInt32) :
    foldSum (n + 2) s = foldSum 2 s ∧ foldSum 2 s >>> 16 = 0 := by
  have htwo := toNat_foldSum 0 s
  constructor
  · rw [← UInt32.toNat_inj, toNat_foldSum, htwo]
  · have hle := foldedSum_le s.toNat
    rw [← UInt32.toNat_inj, toNat_shift_high, htwo, UInt32.toNat_zero]
    omega

/-! ### The checksums -/

/-- The checksum of a sum: the complement of the folded sum. -/
def checksumOf (sum : Nat) : UInt16 := UInt16.ofNat (65535 - foldedSum (sum % 2 ^ 32))

theorem toUInt16_complement {x : UInt32} {n : Nat} (hx : x.toNat = n) (hn : n ≤ 65535) :
    (x ^^^ 0xFFFF).toUInt16 = UInt16.ofNat (65535 - n) := by
  have hnot : (x ^^^ 0xFFFF).toUInt16 = ~~~x.toUInt16 := by
    rw [UInt32.toUInt16_xor]
    exact UInt16.xor_neg_one
  have hsize : UInt16.size = 65536 := rfl
  rw [hnot, ← UInt16.toNat_inj, UInt16.toNat_not, UInt32.toNat_toUInt16, UInt16.toNat_ofNat', hx,
    hsize]
  omega

theorem val_checksum (buf : Ptr) (len : UInt32) (s : Stack) :
    (checksum buf len).val s = checksumOf (wordSum (s.byte buf) len.toNat) := by
  have hsum := val_sumBytes buf len s 0
  rw [Nat.zero_add] at hsum
  unfold checksum checksumOf
  rw [val_bind, val_pure, show (0 : UInt32) = UInt32.ofNat 0 from rfl, hsum,
    toUInt16_complement (toNat_foldSum 0 _) (foldedSum_le _), UInt32.toNat_ofNat']

theorem next_checksum (buf : Ptr) (len : UInt32) (s : Stack) : (checksum buf len).next s = s := by
  unfold checksum
  rw [next_bind, next_sumBytes]
  rfl

/-- The pseudo-header's part of the sum, as `tcp_checksum` computes it. -/
def pseudoHeader (hdrLen payloadLen srcIp dstIp : UInt32) : UInt32 :=
  (srcIp >>> 16 &&& (0xFFFF : UInt32)) + (srcIp &&& (0xFFFF : UInt32)) +
    (dstIp >>> 16 &&& (0xFFFF : UInt32)) + (dstIp &&& (0xFFFF : UInt32)) + 6 + (hdrLen + payloadLen)

/-- The same as a number. -/
def pseudoSum (hdrLen payloadLen srcIp dstIp : UInt32) : Nat :=
  srcIp.toNat / 65536 + srcIp.toNat % 65536 + dstIp.toNat / 65536 + dstIp.toNat % 65536 + 6 +
    (hdrLen + payloadLen).toNat

theorem ofNat_highHalf (ip : UInt32) : (ip >>> 16) &&& 0xFFFF = UInt32.ofNat (ip.toNat / 65536) := by
  have := ip.toNat_lt
  rw [← UInt32.toNat_inj, toNat_and_low, toNat_shift_high, UInt32.toNat_ofNat']
  omega

theorem ofNat_lowHalf (ip : UInt32) : ip &&& 0xFFFF = UInt32.ofNat (ip.toNat % 65536) := by
  rw [← UInt32.toNat_inj, toNat_and_low, UInt32.toNat_ofNat']
  omega

theorem pseudoHeader_eq (hdrLen payloadLen srcIp dstIp : UInt32) :
    pseudoHeader hdrLen payloadLen srcIp dstIp =
      UInt32.ofNat (pseudoSum hdrLen payloadLen srcIp dstIp) := by
  unfold pseudoHeader pseudoSum
  rw [ofNat_highHalf, ofNat_highHalf, ofNat_lowHalf, ofNat_lowHalf]
  simp only [UInt32.ofNat_add, UInt32.ofNat_toNat]
  rfl

theorem byte_payload (s : Stack) (buf : Ptr) (hdrLen : UInt32) :
    s.byte (buf.add hdrLen.toUInt64) = fun i => s.byte buf (hdrLen.toNat + i) := by
  funext i
  rw [← byte_add, ← UInt32.toNat_toUInt64, UInt64.ofNat_toNat]

theorem val_tcpChecksum (buf : Ptr) {hdrLen : UInt32} (heven : hdrLen.toNat % 2 = 0)
    (payloadLen srcIp dstIp : UInt32) (s : Stack) :
    (tcpChecksum buf hdrLen payloadLen srcIp dstIp).val s =
      checksumOf (pseudoSum hdrLen payloadLen srcIp dstIp +
        wordSum (s.byte buf) (hdrLen.toNat + payloadLen.toNat)) := by
  have hmask : ∀ x : UInt32, (x &&& 0xFFFF).toUInt16 = x.toUInt16 := by
    intro x
    rw [UInt32.toUInt16_and]
    exact UInt16.and_neg_one
  unfold tcpChecksum checksumOf
  rw [val_bind, next_sumBytes, val_bind, next_sumBytes, val_pure, hmask]
  show (foldSum 2 ((sumBytes (buf.add hdrLen.toUInt64) payloadLen ((sumBytes buf hdrLen
    (pseudoHeader hdrLen payloadLen srcIp dstIp)).val s)).val s) ^^^ 0xFFFF).toUInt16 = _
  rw [pseudoHeader_eq, val_sumBytes, val_sumBytes, byte_payload,
    toUInt16_complement (toNat_foldSum 0 _) (foldedSum_le _), UInt32.toNat_ofNat',
    wordSum_append _ heven, Nat.add_assoc]

/-! ### Verification -/

theorem word_checksumOf (sum : Nat) :
    ((checksumOf sum >>> 8).toUInt8).toNat * 256 + ((checksumOf sum &&& 0xFF).toUInt8).toNat =
      65535 - foldedSum (sum % 2 ^ 32) := by
  have hval : (checksumOf sum).toNat = 65535 - foldedSum (sum % 2 ^ 32) := by
    unfold checksumOf
    rw [UInt16.toNat_ofNat']
    omega
  have hlow : (checksumOf sum &&& 0xFF).toNat = (checksumOf sum).toNat % 256 := by
    rw [UInt16.toNat_and]
    exact Nat.and_two_pow_sub_one_eq_mod _ 8
  have hhigh : (checksumOf sum >>> 8).toNat = (checksumOf sum).toNat / 256 := by
    rw [UInt16.toNat_shiftRight]
    exact Nat.shiftRight_eq_div_pow _ 8
  have := (checksumOf sum).toNat_lt
  rw [UInt16.toNat_toUInt8, UInt16.toNat_toUInt8, hlow, hhigh, ← hval]
  omega

/-- **A sum to which its checksum has been added** has the checksum 0. -/
theorem checksumOf_patched (sum : Nat) :
    checksumOf (sum + (65535 - foldedSum (sum % 2 ^ 32))) = 0 := by
  have hlt := add_complement_lt (Nat.mod_lt sum (show 0 < 2 ^ 32 by decide))
  have hmod : (sum + (65535 - foldedSum (sum % 2 ^ 32))) % 2 ^ 32 =
      sum % 2 ^ 32 + (65535 - foldedSum (sum % 2 ^ 32)) := by
    rw [Nat.add_mod, Nat.mod_eq_of_lt (show 65535 - foldedSum (sum % 2 ^ 32) < 2 ^ 32 by omega),
      Nat.mod_eq_of_lt hlt]
  unfold checksumOf
  rw [hmod, foldedSum_add_complement]
  rfl

theorem wordSum_storeBytes (s : Stack) (buf : Ptr) {off n : Nat} (heven : off % 2 = 0)
    (hin : off + 2 ≤ n) (hn : n < 2 ^ 64) (hhigh : s.byte buf off = 0) (hlow : s.byte buf (off + 1) = 0)
    (sum : Nat) :
    wordSum (((storeBytes (buf.add (UInt64.ofNat off)) (bytes16 (checksumOf sum))).next s).byte buf) n =
      wordSum (s.byte buf) n + (65535 - foldedSum (sum % 2 ^ 32)) := by
  have hlen : (bytes16 (checksumOf sum)).length = 2 := rfl
  rw [wordSum_congr (g := fun k => if off ≤ k ∧ k < off + 2
      then (bytes16 (checksumOf sum)).getD (k - off) 0 else s.byte buf k)]
  · rw [wordSum_patch heven hin hhigh hlow]
    · rw [← word_checksumOf sum, if_pos (by omega), if_pos (by omega), Nat.sub_self,
        Nat.add_sub_cancel_left]
      rfl
    · intro i hi1 hi2
      rw [if_neg (by omega)]
  · intro i hi
    rw [byte_storeBytes buf _ s (by rw [hlen]; omega) (by omega), hlen]

/-- **A buffer verifies with its checksum in the zeroed field.** -/
theorem checksum_verifies (s : Stack) (buf : Ptr) (len : UInt32) {off : Nat} (heven : off % 2 = 0)
    (hin : off + 2 ≤ len.toNat) (hhigh : s.byte buf off = 0) (hlow : s.byte buf (off + 1) = 0) :
    (checksum buf len).val ((storeBytes (buf.add (UInt64.ofNat off))
      (bytes16 ((checksum buf len).val s))).next s) = 0 := by
  have hlen := len.toNat_lt
  rw [val_checksum, val_checksum, wordSum_storeBytes s buf heven hin (by omega) hhigh hlow,
    checksumOf_patched]

theorem tcpChecksum_verifies (s : Stack) (buf : Ptr) (payloadLen srcIp dstIp : UInt32)
    (hhigh : s.byte buf 16 = 0) (hlow : s.byte buf 17 = 0) :
    (tcpChecksum buf 20 payloadLen srcIp dstIp).val ((storeBytes (buf.add 16)
      (bytes16 ((tcpChecksum buf 20 payloadLen srcIp dstIp).val s))).next s) = 0 := by
  have hlen := payloadLen.toNat_lt
  have h20 : (20 : UInt32).toNat = 20 := rfl
  rw [val_tcpChecksum buf rfl, val_tcpChecksum buf rfl, show (16 : UInt64) = UInt64.ofNat 16 from rfl,
    wordSum_storeBytes s buf rfl (by omega) (by omega) hhigh hlow, ← Nat.add_assoc,
    checksumOf_patched]

/-! ### What the builders leave behind -/

/-- **`ip_build` leaves a header that verifies.** -/
theorem ipBuild_verifies (s : Stack) (buf : Ptr) (srcIp dstIp : UInt32) (protocol : UInt8)
    (payloadLen : UInt16) :
    (checksum buf 20).val ((ipBuild buf srcIp dstIp protocol payloadLen).next s) = 0 := by
  unfold ipBuild
  rw [next_bind, next_bind, next_checksum, next_bind, next_pure, show (10 : UInt64) = UInt64.ofNat 10
    from rfl]
  have hfield : ∀ k, k = 10 ∨ k = 11 → ((storeBytes buf ([0x45, 0] ++ bytes16 (20 + payloadLen) ++
      [0, 0, 0x40, 0, 64, protocol, 0, 0] ++ bytes32 srcIp ++ bytes32 dstIp)).next s).byte buf k =
        0 := by
    intro k hk
    have hstore := @byte_storeBytes buf ([0x45, 0] ++ bytes16 (20 + payloadLen) ++
      [0, 0, 0x40, 0, 64, protocol, 0, 0] ++ bytes32 srcIp ++ bytes32 dstIp) 0 s k
      (Nat.le_of_ble_eq_true rfl) (by omega)
    rw [Ptr.add_zero] at hstore
    rw [hstore]
    rcases hk with rfl | rfl <;> rfl
  exact checksum_verifies _ buf 20 rfl (by decide) (hfield 10 (Or.inl rfl)) (hfield 11 (Or.inr rfl))

/-- **`handle_icmp` leaves a message that verifies.** -/
theorem handleIcmp_verifies (s : Stack) (packet : Ptr) (len : UInt32)
    (h : (handleIcmp packet len).val s = true) :
    (checksum packet len).val ((handleIcmp packet len).next s) = 0 := by
  unfold handleIcmp icmpChecksum at h ⊢
  by_cases hshort : len < 8
  · rw [if_pos hshort] at h
    exact absurd h Bool.false_ne_true
  rw [if_neg hshort] at h ⊢
  have hlen : 8 ≤ len.toNat := by
    have := UInt32.le_iff_toNat_le.mp (UInt32.not_lt.mp hshort)
    exact this
  rw [val_bind, next_load] at h
  rw [next_bind, next_load]
  by_cases htype : ((load packet).val s != 8) = true
  · rw [if_pos htype] at h
    exact absurd h Bool.false_ne_true
  rw [if_neg htype, next_bind, next_bind, next_bind, next_checksum, next_bind, next_pure,
    show (2 : UInt64) = UInt64.ofNat 2 from rfl]
  have hfield : ∀ t : Stack, ∀ k, k = 2 ∨ k = 3 →
      ((storeBytes (packet.add (UInt64.ofNat 2)) [0, 0]).next t).byte packet k = 0 := by
    intro t k hk
    rw [byte_storeBytes packet [0, 0] t (by decide) (by omega)]
    rcases hk with rfl | rfl <;> rfl
  exact checksum_verifies _ packet len rfl (by omega) (hfield _ 2 (Or.inl rfl))
    (hfield _ 3 (Or.inr rfl))

/-! ### No overflow -/

theorem sum_lt {start n : Nat} (hstart : start ≤ 1200000) (hn : n ≤ 65535) (f : Nat → UInt8) :
    start + wordSum f n < 2 ^ 32 := by
  have := wordSum_le f n
  omega

theorem pseudoSum_le {payloadLen : UInt32} (h : payloadLen.toNat ≤ 65515) (srcIp dstIp : UInt32) :
    pseudoSum 20 payloadLen srcIp dstIp ≤ 400000 := by
  have h1 := srcIp.toNat_lt
  have h2 := dstIp.toNat_lt
  unfold pseudoSum
  rw [UInt32.toNat_add, show (20 : UInt32).toNat = 20 from rfl]
  omega

theorem toNat_sumWords (buf : Ptr) {len : UInt32} (s : Stack) {start : Nat} (hstart : start ≤ 1200000)
    (hlen : len.toNat ≤ 65535) (n : Nat) :
    ((sumWords buf len n 0 (UInt32.ofNat start)).val s).2.toNat =
      start + wordSum (s.byte buf) ((sumWords buf len n 0 (UInt32.ofNat start)).val s).1.toNat := by
  obtain ⟨hle, hsum, -⟩ := val_sumWords buf len s start n 0 (UInt32.ofNat start) rfl
    (Nat.zero_le _) rfl
  rw [hsum, UInt32.toNat_ofNat', Nat.mod_eq_of_lt (sum_lt hstart (by omega) _)]

/-- In `tcp_checksum` the sum of the pseudo-header, and the sum after any number of rounds of the
loops over the header and over the payload, are exact. -/
def TcpExact (s : Stack) (buf : Ptr) (payloadLen srcIp dstIp : UInt32) : Prop :=
  (pseudoHeader 20 payloadLen srcIp dstIp).toNat =
      srcIp.toNat / 65536 + srcIp.toNat % 65536 + dstIp.toNat / 65536 + dstIp.toNat % 65536 + 6 +
        (20 + payloadLen.toNat) ∧
    (∀ n, ((sumWords buf 20 n 0 (pseudoHeader 20 payloadLen srcIp dstIp)).val s).2.toNat =
      (pseudoHeader 20 payloadLen srcIp dstIp).toNat + wordSum (s.byte buf)
        ((sumWords buf 20 n 0 (pseudoHeader 20 payloadLen srcIp dstIp)).val s).1.toNat) ∧
    ∀ header, (sumBytes buf 20 (pseudoHeader 20 payloadLen srcIp dstIp)).val s = header →
      header.toNat = (pseudoHeader 20 payloadLen srcIp dstIp).toNat + wordSum (s.byte buf) 20 ∧
      (∀ n, ((sumWords (buf.add 20) payloadLen n 0 header).val s).2.toNat = header.toNat +
        wordSum (s.byte (buf.add 20)) ((sumWords (buf.add 20) payloadLen n 0 header).val s).1.toNat) ∧
      ((sumBytes (buf.add 20) payloadLen header).val s).toNat =
        header.toNat + wordSum (s.byte (buf.add 20)) payloadLen.toNat

theorem toNat_sumBytes (buf : Ptr) {len : UInt32} (s : Stack) {start : Nat}
    (hstart : start ≤ 1200000) (hlen : len.toNat ≤ 65535) :
    ((sumBytes buf len (UInt32.ofNat start)).val s).toNat =
      start + wordSum (s.byte buf) len.toNat := by
  rw [val_sumBytes, UInt32.toNat_ofNat', Nat.mod_eq_of_lt (sum_lt hstart hlen _)]

theorem tcpExact (s : Stack) (buf : Ptr) {payloadLen : UInt32} (h : payloadLen.toNat ≤ 65515)
    (srcIp dstIp : UInt32) : TcpExact s buf payloadLen srcIp dstIp := by
  have hle := pseudoSum_le h srcIp dstIp
  have hheader := wordSum_le (s.byte buf) 20
  have h20 : (20 : UInt32).toNat = 20 := rfl
  have htotal : (20 + payloadLen : UInt32).toNat = 20 + payloadLen.toNat := by
    rw [UInt32.toNat_add, h20]
    omega
  have hpseudo : (pseudoHeader 20 payloadLen srcIp dstIp).toNat =
      pseudoSum 20 payloadLen srcIp dstIp := by
    rw [pseudoHeader_eq, UInt32.toNat_ofNat', Nat.mod_eq_of_lt (by omega)]
  refine ⟨?_, ?_, ?_⟩
  · rw [hpseudo, pseudoSum, htotal]
  · intro n
    rw [hpseudo, pseudoHeader_eq]
    exact toNat_sumWords buf s (by omega) (by omega) n
  · intro header hval
    have hsum := @toNat_sumBytes buf _ s (pseudoSum 20 payloadLen srcIp dstIp) (by omega)
      (show (20 : UInt32).toNat ≤ 65535 by decide)
    rw [← pseudoHeader_eq, hval, ← hpseudo] at hsum
    have hofNat : header = UInt32.ofNat header.toNat := UInt32.ofNat_toNat.symm
    have hbound : header.toNat ≤ 1200000 := by
      rw [hsum, hpseudo, h20]
      omega
    refine ⟨hsum, ?_, ?_⟩
    · intro n
      have hexact := toNat_sumWords (buf.add 20) s hbound (show payloadLen.toNat ≤ 65535 by omega) n
      rwa [← hofNat] at hexact
    · have hexact := toNat_sumBytes (buf.add 20) s hbound (show payloadLen.toNat ≤ 65535 by omega)
      rwa [← hofNat] at hexact

/-- **Internet checksums verify.** A buffer of any length verifies once its checksum is stored into
its zeroed field, and so does a TCP segment with a header of 20 bytes; the folding loop ends after
two rounds; over at most 65535 bytes no sum overflows; and `ip_build` and `handle_icmp` leave a
header and a message that verify. -/
theorem checksums_verify (s : Stack) :
    (∀ (buf : Ptr) (len : UInt32) (off : Nat), off % 2 = 0 → off + 2 ≤ len.toNat →
      s.byte buf off = 0 → s.byte buf (off + 1) = 0 →
      (checksum buf len).val ((storeBytes (buf.add (UInt64.ofNat off))
        (bytes16 ((checksum buf len).val s))).next s) = 0) ∧
    (∀ (buf : Ptr) (payloadLen srcIp dstIp : UInt32), s.byte buf 16 = 0 → s.byte buf 17 = 0 →
      (tcpChecksum buf 20 payloadLen srcIp dstIp).val ((storeBytes (buf.add 16)
        (bytes16 ((tcpChecksum buf 20 payloadLen srcIp dstIp).val s))).next s) = 0) ∧
    (∀ (n : Nat) (sum : UInt32), foldSum (n + 2) sum = foldSum 2 sum ∧ foldSum 2 sum >>> 16 = 0) ∧
    (∀ (buf : Ptr) (len : UInt32), len.toNat ≤ 65535 →
      (∀ n, ((sumWords buf len n 0 0).val s).2.toNat =
        wordSum (s.byte buf) ((sumWords buf len n 0 0).val s).1.toNat) ∧
      ((sumBytes buf len 0).val s).toNat = wordSum (s.byte buf) len.toNat) ∧
    (∀ (buf : Ptr) (payloadLen srcIp dstIp : UInt32), payloadLen.toNat ≤ 65515 →
      TcpExact s buf payloadLen srcIp dstIp) ∧
    (∀ (buf : Ptr) (srcIp dstIp : UInt32) (protocol : UInt8) (payloadLen : UInt16),
      (checksum buf 20).val ((ipBuild buf srcIp dstIp protocol payloadLen).next s) = 0) ∧
    (∀ (packet : Ptr) (len : UInt32), (handleIcmp packet len).val s = true →
      (checksum packet len).val ((handleIcmp packet len).next s) = 0) := by
  refine ⟨?_, ?_, foldSum_ends, ?_, ?_, ?_, ?_⟩
  · intro buf len off heven hin hhigh hlow
    exact checksum_verifies s buf len heven hin hhigh hlow
  · intro buf payloadLen srcIp dstIp hhigh hlow
    exact tcpChecksum_verifies s buf payloadLen srcIp dstIp hhigh hlow
  · intro buf len hlen
    constructor
    · intro n
      have hexact := toNat_sumWords buf s (Nat.zero_le 1200000) hlen n
      rwa [Nat.zero_add] at hexact
    · have hval := val_sumBytes buf len s 0
      have hlt := sum_lt (Nat.zero_le 1200000) hlen (s.byte buf)
      rw [Nat.zero_add] at hval hlt
      rw [show (0 : UInt32) = UInt32.ofNat 0 from rfl, hval, UInt32.toNat_ofNat',
        Nat.mod_eq_of_lt hlt]
  · intro buf payloadLen srcIp dstIp hlen
    exact tcpExact s buf hlen srcIp dstIp
  · intro buf srcIp dstIp protocol payloadLen
    exact ipBuild_verifies s buf srcIp dstIp protocol payloadLen
  · intro packet len h
    exact handleIcmp_verifies s packet len h

/-- A memory of bytes that differ, with zeros at `0x100A` and `0x100B`. -/
def patterned : Stack :=
  { Stack.quiet with
    tcp := { Stack.quiet.tcp with
      mem := fun a => if a = 0x100A ∨ a = 0x100B then 0 else UInt8.ofNat (77 * a.toNat + 200) } }

/-- The checksum of 21 bytes, with the field at offset 10. -/
theorem checksums_verify_patterned :
    (checksum ⟨.other, 0x1000, 0⟩ 21).val ((storeBytes ((Ptr.mk .other 0x1000 0).add (UInt64.ofNat 10))
      (bytes16 ((checksum ⟨.other, 0x1000, 0⟩ 21).val patterned))).next patterned) = 0 :=
  (checksums_verify patterned).1 ⟨.other, 0x1000, 0⟩ 21 10 rfl (by decide) (by decide) (by decide)

end Keuos.Net
