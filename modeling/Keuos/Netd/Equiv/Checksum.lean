import Keuos.Net.Equiv.Checksum
import Keuos.Netd.Defs

/-!
# The daemon's checksums and the kernel's

The daemon adds the two bytes of a word where the kernel combines them with `|`, and it sums a TCP segment in
one pass where the kernel sums the header first and then the payload.  The loops are equal round by round
(`sumWords_eq`), and a header of even length makes no difference to the words behind it.

## Main results

* `computeChecksum_eq`, `computeTcpChecksum_eq`: both checksums are the kernel's.
* `checksums_agree`: these, what they are, and that no sum overflows.
-/

namespace Keuos.Netd.Checksum

open Net Traced

/-! ### The loops -/

theorem addr_add (p : Ptr) (i : UInt64) : (p.add i).addr = p.addr + i := by
  simp [Ptr.addr, Ptr.add, UInt64.add_assoc]

theorem word_eq (hi lo : UInt8) :
    (hi.toUInt32 <<< 8) + lo.toUInt32 = (hi.toUInt32 <<< 8) ||| lo.toUInt32 := by
  have hlo : lo.toUInt32 = UInt32.ofNat lo.toNat := by
    rw [← UInt32.toNat_inj, UInt8.toNat_toUInt32, UInt32.toNat_ofNat',
      Nat.mod_eq_of_lt (by have := lo.toNat_lt; omega)]
  rw [toUInt32_word, toUInt32_high, hlo, ← UInt32.ofNat_add]

/-- **Round by round** the loop over the words is the kernel's. -/
theorem sumWords_eq (s : Stack) (p : Ptr) (len : UInt32) (n : Nat) : ∀ i sum : UInt32,
    sumWords s.tcp.mem p.addr len n i sum = (Net.sumWords p len n i sum).val s := by
  induction n with
  | zero =>
    intro i sum
    rfl
  | succ n ih =>
    intro i sum
    unfold sumWords Net.sumWords
    by_cases hmore : i + 1 < len
    · rw [if_pos hmore, if_pos hmore, val_bind, next_load, val_bind, next_load, val_load, val_load, addr_add,
        addr_add, addr_add]
      simp only [word_eq, ih]
    · rw [if_neg hmore, if_neg hmore]
      rfl

theorem sumBytes_eq (s : Stack) (p : Ptr) (len sum : UInt32) :
    sumBytes s.tcp.mem p.addr len sum = (Net.sumBytes p len sum).val s := by
  unfold sumBytes Net.sumBytes
  rw [val_bind, next_sumWords, sumWords_eq]
  by_cases hodd : ((Net.sumWords p len len.toNat 0 sum).val s).1 < len
  · rw [if_pos hodd]
    simp only [if_pos hodd, val_bind, val_load, addr_add, val_pure]
  · rw [if_neg hodd]
    simp only [if_neg hodd, val_pure]

theorem foldSum_eq (n : Nat) (sum : UInt32) : foldSum n sum = Net.foldSum n sum := by
  induction n generalizing sum with
  | zero => rfl
  | succ n ih =>
    unfold foldSum Net.foldSum
    simp only [ih]
    have hzero : sum >>> 16 > 0 ↔ (sum >>> 16 != 0) = true := by
      rw [bne_iff_ne, gt_iff_lt, UInt32.lt_iff_toNat_lt, Ne, ← UInt32.toNat_inj, UInt32.toNat_zero]
      omega
    simp only [hzero]

theorem complement_eq (x : UInt32) : x.toUInt16 ^^^ 0xFFFF = (x ^^^ 0xFFFF).toUInt16 := by
  rw [UInt32.toUInt16_xor]
  rfl

/-- **The checksum of a buffer** is the kernel's. -/
theorem computeChecksum_eq (s : Stack) (p : Ptr) (len : UInt32) :
    computeChecksum s.tcp.mem p.addr len = (checksum p len).val s := by
  unfold computeChecksum checksum
  dsimp only
  rw [val_bind, val_pure, sumBytes_eq, foldSum_eq, complement_eq]

/-! ### The pseudo-header -/

theorem pseudoHeader_eq (srcIp dstIp hdrLen payloadLen : UInt32) :
    pseudoHeader srcIp dstIp (hdrLen + payloadLen) = Net.pseudoHeader hdrLen payloadLen srcIp dstIp := by
  have hhigh : ∀ ip : UInt32, (ip >>> 16) &&& (0xFFFF : UInt32) = ip >>> 16 := by
    intro ip
    have hlt := ip.toNat_lt
    rw [← UInt32.toNat_inj, toNat_and_low, toNat_shift_high]
    omega
  unfold pseudoHeader Net.pseudoHeader
  rw [hhigh, hhigh]

/-- **The checksum of a segment** is the kernel's, for a header of even length. -/
theorem computeTcpChecksum_eq (s : Stack) (p : Ptr) {hdrLen payloadLen : UInt32}
    (heven : hdrLen.toNat % 2 = 0) (hfit : hdrLen.toNat + payloadLen.toNat ≤ 65535) (srcIp dstIp : UInt32) :
    computeTcpChecksum s.tcp.mem srcIp dstIp p.addr (hdrLen + payloadLen) =
      (tcpChecksum p hdrLen payloadLen srcIp dstIp).val s := by
  have htotal : (hdrLen + payloadLen).toNat = hdrLen.toNat + payloadLen.toNat := by
    rw [UInt32.toNat_add]
    omega
  rw [val_tcpChecksum p heven]
  unfold computeTcpChecksum checksumOf
  dsimp only
  rw [pseudoHeader_eq, Net.pseudoHeader_eq, sumBytes_eq, val_sumBytes, foldSum_eq, complement_eq,
    toUInt16_complement (toNat_foldSum 0 _) (foldedSum_le _), UInt32.toNat_ofNat', htotal]

/-! ### No overflow -/

/-- The sum is exact after any number of rounds of the daemon's loop, and after the odd byte. -/
structure Exact (s : Stack) (p : Ptr) (len sum : UInt32) : Prop where
  words : ∀ n, (sumWords s.tcp.mem p.addr len n 0 sum).2.toNat =
    sum.toNat + wordSum (s.byte p) (sumWords s.tcp.mem p.addr len n 0 sum).1.toNat
  bytes : (sumBytes s.tcp.mem p.addr len sum).toNat = sum.toNat + wordSum (s.byte p) len.toNat

/-- The same for the kernel's loop. -/
structure KernelExact (s : Stack) (p : Ptr) (len sum : UInt32) : Prop where
  words : ∀ n, ((Net.sumWords p len n 0 sum).val s).2.toNat =
    sum.toNat + wordSum (s.byte p) ((Net.sumWords p len n 0 sum).val s).1.toNat
  bytes : ((Net.sumBytes p len sum).val s).toNat = sum.toNat + wordSum (s.byte p) len.toNat

theorem exact_of_lt (s : Stack) (p : Ptr) {len sum : UInt32}
    (hfit : sum.toNat + wordSum (s.byte p) len.toNat < 2 ^ 32) :
    Exact s p len sum ∧ KernelExact s p len sum := by
  have hkernel : KernelExact s p len sum := by
    constructor
    · intro n
      obtain ⟨hle, hsum, -⟩ := val_sumWords p len s sum.toNat n 0 sum rfl (Nat.zero_le _)
        UInt32.ofNat_toNat.symm
      have hmono := wordSum_mono (s.byte p) hle
      rw [hsum, UInt32.toNat_ofNat', Nat.mod_eq_of_lt (by omega)]
    · have hsum := val_sumBytes p len s sum.toNat
      rw [UInt32.ofNat_toNat] at hsum
      rw [hsum, UInt32.toNat_ofNat', Nat.mod_eq_of_lt hfit]
  refine ⟨⟨fun n => ?_, ?_⟩, hkernel⟩
  · rw [sumWords_eq]
    exact hkernel.words n
  · rw [sumBytes_eq]
    exact hkernel.bytes

section Segment

variable {hdrLen payloadLen : UInt32} (hfit : hdrLen.toNat + payloadLen.toNat ≤ 65535) (srcIp dstIp : UInt32)

include hfit

theorem toNat_segment : (hdrLen + payloadLen).toNat = hdrLen.toNat + payloadLen.toNat := by
  rw [UInt32.toNat_add]
  omega

theorem toNat_pseudoHeader :
    (Net.pseudoHeader hdrLen payloadLen srcIp dstIp).toNat = srcIp.toNat / 65536 + srcIp.toNat % 65536 +
        dstIp.toNat / 65536 + dstIp.toNat % 65536 + 6 + (hdrLen.toNat + payloadLen.toNat) ∧
      (Net.pseudoHeader hdrLen payloadLen srcIp dstIp).toNat ≤ 400000 := by
  have hsrc := srcIp.toNat_lt
  have hdst := dstIp.toNat_lt
  have hhigh : srcIp.toNat / 65536 ≤ 65535 ∧ dstIp.toNat / 65536 ≤ 65535 := by omega
  have hlow : srcIp.toNat % 65536 ≤ 65535 ∧ dstIp.toNat % 65536 ≤ 65535 := by omega
  rw [Net.pseudoHeader_eq, UInt32.toNat_ofNat', pseudoSum, toNat_segment hfit, Nat.mod_eq_of_lt (by omega)]
  omega

end Segment

/-- Both ways to sum a segment are exact from end to end. -/
structure SegmentExact (s : Stack) (p : Ptr) (hdrLen payloadLen srcIp dstIp : UInt32) : Prop where
  pseudo : (pseudoHeader srcIp dstIp (hdrLen + payloadLen)).toNat =
    srcIp.toNat / 65536 + srcIp.toNat % 65536 + dstIp.toNat / 65536 + dstIp.toNat % 65536 + 6 +
      (hdrLen.toNat + payloadLen.toNat)
  daemon : Exact s p (hdrLen + payloadLen) (pseudoHeader srcIp dstIp (hdrLen + payloadLen))
  header : KernelExact s p hdrLen (Net.pseudoHeader hdrLen payloadLen srcIp dstIp)
  payload : KernelExact s (p.add hdrLen.toUInt64) payloadLen
    ((Net.sumBytes p hdrLen (Net.pseudoHeader hdrLen payloadLen srcIp dstIp)).val s)

theorem segmentExact (s : Stack) (p : Ptr) {hdrLen payloadLen : UInt32}
    (hfit : hdrLen.toNat + payloadLen.toNat ≤ 65535) (srcIp dstIp : UInt32) :
    SegmentExact s p hdrLen payloadLen srcIp dstIp := by
  obtain ⟨hpseudo, hsmall⟩ := toNat_pseudoHeader hfit srcIp dstIp
  have hsegment := wordSum_le (s.byte p) (hdrLen + payloadLen).toNat
  have hheader := wordSum_le (s.byte p) hdrLen.toNat
  have hpayload := wordSum_le (s.byte (p.add hdrLen.toUInt64)) payloadLen.toNat
  rw [toNat_segment hfit] at hsegment
  have hfirst := (@exact_of_lt s p hdrLen (Net.pseudoHeader hdrLen payloadLen srcIp dstIp) (by omega)).2
  refine ⟨by rw [pseudoHeader_eq, hpseudo], ?_, hfirst, ?_⟩
  · rw [pseudoHeader_eq]
    refine (exact_of_lt s p ?_).1
    rw [toNat_segment hfit]
    omega
  · refine (exact_of_lt s _ ?_).2
    rw [hfirst.bytes]
    omega

/-! ### Agreement -/

/-- **The daemon's checksums are the kernel's**, and they are the complement of the one's-complement sum of
the words.  No sum of 32 bits overflows: neither a word, nor the sum after any number of rounds or after the
odd byte, nor a round of the folding loop, which ends after two rounds. -/
theorem checksums_agree (s : Stack) (p : Ptr) :
    (∀ len : UInt32, len.toNat < 131072 →
      computeChecksum s.tcp.mem p.addr len = (checksum p len).val s ∧
      computeChecksum s.tcp.mem p.addr len =
        UInt16.ofNat (65535 - onesSum (bigEndianWords (s.byte p) len.toNat)) ∧
      Exact s p len 0 ∧ KernelExact s p len 0) ∧
    (∀ hdrLen payloadLen srcIp dstIp : UInt32, hdrLen.toNat % 2 = 0 →
      hdrLen.toNat + payloadLen.toNat ≤ 65535 →
      computeTcpChecksum s.tcp.mem srcIp dstIp p.addr (hdrLen + payloadLen) =
        (tcpChecksum p hdrLen payloadLen srcIp dstIp).val s ∧
      SegmentExact s p hdrLen payloadLen srcIp dstIp) ∧
    (∀ hi lo : UInt8, ((hi.toUInt32 <<< 8) + lo.toUInt32).toNat = hi.toNat * 256 + lo.toNat) ∧
    ∀ sum : UInt32, ((sum &&& (0xFFFF : UInt32)) + (sum >>> 16)).toNat =
        sum.toNat % 65536 + sum.toNat / 65536 ∧
      ∀ n, foldSum (n + 2) sum = foldSum 2 sum := by
  refine ⟨fun len hlen => ?_, fun hdrLen payloadLen srcIp dstIp heven hfit => ?_, fun hi lo => ?_,
    fun sum => ⟨toNat_foldRound sum, fun n => ?_⟩⟩
  · have hle := wordSum_le (s.byte p) len.toNat
    have hlt : wordSum (s.byte p) len.toNat < 2 ^ 32 := by omega
    refine ⟨computeChecksum_eq s p len, ?_, exact_of_lt s p (by rwa [UInt32.toNat_zero, Nat.zero_add])⟩
    rw [computeChecksum_eq, val_checksum, checksumOf, Nat.mod_eq_of_lt hlt, foldedSum_wordSum]
  · exact ⟨computeTcpChecksum_eq s p heven hfit srcIp dstIp, segmentExact s p hfit srcIp dstIp⟩
  · have hhi := hi.toNat_lt
    have hlo := lo.toNat_lt
    rw [word_eq, toUInt32_word, UInt32.toNat_ofNat', Nat.mod_eq_of_lt (by omega)]
  · rw [foldSum_eq, foldSum_eq]
    exact (foldSum_ends n sum).1

/-- The checksums of 21 bytes, and of a segment of 20 and 1 bytes. -/
theorem checksums_agree_patterned :
    computeChecksum patterned.tcp.mem (Ptr.mk .other 0x1000 0).addr 21 =
        (checksum ⟨.other, 0x1000, 0⟩ 21).val patterned ∧
      computeTcpChecksum patterned.tcp.mem 1 2 (Ptr.mk .other 0x1000 0).addr (20 + 1) =
        (tcpChecksum ⟨.other, 0x1000, 0⟩ 20 1 1 2).val patterned :=
  ⟨((checksums_agree patterned ⟨.other, 0x1000, 0⟩).1 21 (by decide)).1,
    ((checksums_agree patterned ⟨.other, 0x1000, 0⟩).2.1 20 1 1 2 rfl (by decide)).1⟩

end Keuos.Netd.Checksum
