import Keuos.Net.Equiv.Checksum
import Mathlib.Tactic.FinCases

/-!
# Echo replies

`handle_ipv4` hands an echo request to `handle_icmp`, which turns the message into a reply where it lies, and
to `send_icmp_reply`, which builds the headers in front of it and transmits the frame.  The two derive the
length of the message from the length of the packet as received, and `send_icmp_reply` builds a header of 20
bytes at the start of the packet.  So the frame is a faithful reply if and only if the header of the request
has no options and the packet has no padding behind it.

## Main results

* `handleIpv4_replyFrame`: what `handle_ipv4` does with an echo request is to transmit `replyFrame`.
* `isEchoReply_of_exact`, `exact_of_isEchoReply`: when the frame answers the request.
* `echo_faithful_iff`: these together.
-/

namespace Keuos.Net

open Traced

/-! ### Echo messages -/

/-- The length of the header of an IPv4 packet. -/
def headerLen (p : Nat → UInt8) : Nat := (p 0).toNat % 16 * 4

/-- The total length in the header of an IPv4 packet. -/
def totalLen (p : Nat → UInt8) : Nat := (p 2).toNat * 256 + (p 3).toNat

/-- The four bytes of an address. -/
def address (p : Nat → UInt8) (k : Nat) : List UInt8 := [p k, p (k + 1), p (k + 2), p (k + 3)]

/-- The packet `p`, received with `len` bytes, holds an ICMP echo request for this machine.  Options that
begin with the end of the list are padded with zeros. -/
structure IsEchoRequest (p : Nat → UInt8) (len : Nat) : Prop where
  header : 20 ≤ headerLen p
  message : headerLen p + 8 ≤ totalLen p
  fits : totalLen p ≤ len
  protocol : p 9 = 1
  forUs : address p 16 = [10, 0, 2, 15] ∨ address p 16 = [127, 0, 0, 1]
  type : p (headerLen p) = 8
  padded : p 20 = 0 → ∀ k, 20 ≤ k → k < headerLen p → p k = 0

/-- The frame of `n` bytes is the answer to the echo request `request`, which arrived behind the Ethernet
header `link`. -/
structure IsEchoReply (link request frame : Nat → UInt8) (n : Nat) : Prop where
  hardware : ∀ i < 6, frame i = link (6 + i)
  ethertype : frame 12 = 0x08 ∧ frame 13 = 0x00
  version : (frame 14).toNat / 16 = 4
  total : n = 14 + totalLen fun k => frame (14 + k)
  protocol : frame 23 = 1
  headerSum : foldedSum (wordSum (fun k => frame (14 + k)) (headerLen fun k => frame (14 + k))) = 65535
  dst : address frame 30 = address request 12
  size : (totalLen fun k => frame (14 + k)) =
    (headerLen fun k => frame (14 + k)) + (totalLen request - headerLen request)
  type : frame (14 + headerLen fun k => frame (14 + k)) = 0
  data : ∀ k < totalLen request - headerLen request, k = 1 ∨ 4 ≤ k →
    frame (14 + (headerLen fun k => frame (14 + k)) + k) = request (headerLen request + k)
  messageSum : foldedSum (wordSum (fun k => frame (14 + (headerLen fun k => frame (14 + k)) + k))
    (totalLen request - headerLen request)) = 65535

/-! ### Parsing the header -/

theorem toNat_word32 (b0 b1 b2 b3 : UInt8) :
    ((b0.toUInt32 <<< 24) ||| (b1.toUInt32 <<< 16) ||| (b2.toUInt32 <<< 8) ||| b3.toUInt32).toNat =
      b0.toNat * 2 ^ 24 + b1.toNat * 2 ^ 16 + b2.toNat * 2 ^ 8 + b3.toNat := by
  have h0 := b0.toNat_lt
  have h1 := b1.toNat_lt
  have h2 := b2.toNat_lt
  have h3 := b3.toNat_lt
  have hshift : ∀ (b : UInt8) (k : UInt32), k.toNat ≤ 24 →
      (b.toUInt32 <<< k).toNat = b.toNat * 2 ^ k.toNat := by
    intro b k hk
    have hb := b.toNat_lt
    have hpow : 2 ^ k.toNat ≤ 2 ^ 24 := Nat.pow_le_pow_right (by decide) hk
    have hmul : b.toNat * 2 ^ k.toNat < 2 ^ 8 * 2 ^ 24 :=
      Nat.mul_lt_mul_of_lt_of_le hb hpow (by decide)
    rw [UInt32.toNat_shiftLeft, UInt8.toNat_toUInt32, Nat.mod_eq_of_lt (show k.toNat < 32 by omega),
      Nat.shiftLeft_eq, Nat.mod_eq_of_lt (by omega)]
  have hor : ∀ a b k : Nat, b < 2 ^ k → a * 2 ^ k ||| b = a * 2 ^ k + b := by
    intro a b k hb
    rw [Nat.mul_comm, ← Nat.two_pow_add_eq_or_of_lt hb]
  rw [UInt32.toNat_or, UInt32.toNat_or, UInt32.toNat_or, hshift b0 24 (by decide),
    hshift b1 16 (by decide), hshift b2 8 (by decide), UInt8.toNat_toUInt32]
  show ((b0.toNat * 2 ^ 24 ||| b1.toNat * 2 ^ 16) ||| b2.toNat * 2 ^ 8) ||| b3.toNat = _
  rw [hor _ _ 24 (by omega),
    show b0.toNat * 2 ^ 24 + b1.toNat * 2 ^ 16 = (b0.toNat * 2 ^ 8 + b1.toNat) * 2 ^ 16 by omega,
    hor _ _ 16 (by omega),
    show (b0.toNat * 2 ^ 8 + b1.toNat) * 2 ^ 16 + b2.toNat * 2 ^ 8 =
      (b0.toNat * 2 ^ 16 + b1.toNat * 2 ^ 8 + b2.toNat) * 2 ^ 8 by omega, hor _ _ 8 (by omega)]

theorem bytes32_load32 (s : Stack) (buf : Ptr) (k : Nat) :
    bytes32 ((load32 (buf.add (UInt64.ofNat k))).val s) = address (s.byte buf) k := by
  have hload : (load32 (buf.add (UInt64.ofNat k))).val s =
      ((s.byte buf k).toUInt32 <<< 24) ||| ((s.byte buf (k + 1)).toUInt32 <<< 16) |||
        ((s.byte buf (k + 2)).toUInt32 <<< 8) ||| (s.byte buf (k + 3)).toUInt32 := by
    rw [← byte_add, ← byte_add, ← byte_add]
    rfl
  rw [hload]
  unfold address
  generalize s.byte buf k = b0
  generalize s.byte buf (k + 1) = b1
  generalize s.byte buf (k + 2) = b2
  generalize s.byte buf (k + 3) = b3
  have hword := toNat_word32 b0 b1 b2 b3
  have h0 := b0.toNat_lt
  have h1 := b1.toNat_lt
  have h2 := b2.toNat_lt
  have h3 := b3.toNat_lt
  generalize (b0.toUInt32 <<< 24) ||| (b1.toUInt32 <<< 16) ||| (b2.toUInt32 <<< 8) ||| b3.toUInt32 = x
    at hword ⊢
  have hbyte : ∀ (y : UInt32) (b : UInt8), y.toNat % 256 = b.toNat → (y &&& 0xFF).toUInt8 = b := by
    intro y b h
    rw [← UInt8.toNat_inj, UInt32.toNat_toUInt8, UInt32.toNat_and, ← h]
    have := Nat.and_two_pow_sub_one_eq_mod y.toNat 8
    rw [show (0xFF : UInt32).toNat = 2 ^ 8 - 1 from rfl, this]
    omega
  have hshift : ∀ k : UInt32, k.toNat < 32 → (x >>> k).toNat = x.toNat / 2 ^ k.toNat := by
    intro k hk
    rw [UInt32.toNat_shiftRight, Nat.mod_eq_of_lt hk, Nat.shiftRight_eq_div_pow]
  have h24 := hshift 24 (by decide)
  have h16 := hshift 16 (by decide)
  have h8 := hshift 8 (by decide)
  rw [show (24 : UInt32).toNat = 24 from rfl] at h24
  rw [show (16 : UInt32).toNat = 16 from rfl] at h16
  rw [show (8 : UInt32).toNat = 8 from rfl] at h8
  unfold bytes32
  rw [hbyte _ b0 (by omega), hbyte _ b1 (by omega), hbyte _ b2 (by omega), hbyte _ b3 (by omega)]

theorem ipParse_spec {s : Stack} {buf : Ptr} {len : UInt32} (hlen : 20 ≤ len.toNat) :
    let hdr := (ipParse buf len).val s
    hdr.ihl.toNat = headerLen (s.byte buf) ∧ hdr.protocol = s.byte buf 9 ∧
      bytes32 hdr.srcIp = address (s.byte buf) 12 ∧
      hdr.dstIp = (load32 (buf.add (UInt64.ofNat 16))).val s := by
  have hshort : ¬len < 20 := by
    rw [UInt32.lt_iff_toNat_lt]
    exact Nat.not_lt.mpr hlen
  dsimp only
  unfold ipParse
  rw [if_neg hshort]
  refine ⟨?_, rfl, bytes32_load32 s buf 12, rfl⟩
  show (((load buf).val s &&& 0x0F) * 4).toNat = (s.byte buf 0).toNat % 16 * 4
  have hbyte : (load buf).val s = s.byte buf 0 := by
    rw [val_load]
    unfold Stack.byte
    rw [Ptr.add_zero]
  have hand : (s.byte buf 0 &&& 0x0F).toNat = (s.byte buf 0).toNat % 16 := by
    rw [UInt8.toNat_and]
    exact Nat.and_two_pow_sub_one_eq_mod _ 4
  rw [hbyte, UInt8.toNat_mul, hand, show (4 : UInt8).toNat = 4 from rfl]
  omega

theorem forUs_of_isEchoRequest {s : Stack} {buf : Ptr} {len : UInt32}
    (h : IsEchoRequest (s.byte buf) len.toNat) : ((ipParse buf len).val s).ForUs := by
  have hlen : 20 ≤ len.toNat := by
    have := h.header
    have := h.message
    have := h.fits
    omega
  obtain ⟨hihl, -, -, hdst⟩ := @ipParse_spec s buf _ hlen
  have hword := bytes32_load32 s buf 16
  constructor
  · rw [UInt8.le_iff_toNat_le, hihl]
    exact h.header
  · rw [hdst]
    have hload : (load32 (buf.add (UInt64.ofNat 16))).val s =
        ((s.byte buf 16).toUInt32 <<< 24) ||| ((s.byte buf 17).toUInt32 <<< 16) |||
          ((s.byte buf 18).toUInt32 <<< 8) ||| (s.byte buf 19).toUInt32 := by
      rw [← byte_add s buf 16 1, ← byte_add s buf 16 2, ← byte_add s buf 16 3]
      rfl
    rw [hload]
    rcases h.forUs with haddr | haddr
    · left
      simp only [address, List.cons.injEq, and_true] at haddr
      rw [haddr.1, haddr.2.1, haddr.2.2.1, haddr.2.2.2]
      rfl
    · right
      simp only [address, List.cons.injEq, and_true] at haddr
      rw [haddr.1, haddr.2.1, haddr.2.2.1, haddr.2.2.2]
      rfl

/-! ### The reply -/

/-- `send_icmp_reply` up to the transmission: the frame and its length. -/
def icmpReplyFrame (buf : Ptr) (payloadLen dstIp : UInt32) : NetM (Ptr × UInt32) := do
  let ipSz ← ipBuild buf 0x0A00020F dstIp 1 payloadLen.toUInt16
  let eth : Ptr := { buf with off := buf.off - 14 }
  let srcMac ← loadMac eth
  let dstMac ← loadMac (eth.add 6)
  let ethSz ← ethBuild eth dstMac srcMac 0x0800
  return (eth, ethSz + ipSz + payloadLen)

/-- The reply to the message of a packet with the header `hdr`, up to the transmission. -/
def handleReply (buf : Ptr) (len : UInt32) (hdr : IPv4Header) : NetM (Ptr × UInt32) := do
  let payload := payloadOf buf len hdr
  let _ ← handleIcmp payload.1 payload.2
  icmpReplyFrame buf payload.2 hdr.srcIp

/-- What `handle_ipv4` does with an echo request, up to the transmission. -/
def replyFrame (buf : Ptr) (len : UInt32) : NetM (Ptr × UInt32) := do
  let hdr ← ipParse buf len
  handleReply buf len hdr

theorem next_sendIcmpReply (buf : Ptr) (payloadLen dstIp : UInt32) (s : Stack) :
    (sendIcmpReply buf payloadLen dstIp).next s =
      (icmpReplyFrame buf payloadLen dstIp >>= fun frame => txSend frame.1 frame.2).next s := by
  rfl

/-- A message as a reply, without its checksum. -/
def unsummed (f : Nat → UInt8) (k : Nat) : UInt8 := if k = 0 ∨ k = 2 ∨ k = 3 then 0 else f k

/-- A message of `n` bytes as a reply. -/
def replied (f : Nat → UInt8) (n k : Nat) : UInt8 :=
  if 2 ≤ k ∧ k < 4 then (bytes16 (checksumOf (wordSum (unsummed f) n))).getD (k - 2) 0
  else unsummed f k

/-- **The reply verifies.** -/
theorem foldedSum_replied (f : Nat → UInt8) {n : Nat} (hlow : 4 ≤ n) (hhigh : n ≤ 65535) :
    foldedSum (wordSum (replied f n) n) = 65535 := by
  have hle := wordSum_le (unsummed f) n
  have hpatch := wordSum_patch (g := replied f n) (show 2 % 2 = 0 from rfl) (show 2 + 2 ≤ n from hlow)
    (show unsummed f 2 = 0 from rfl) (show unsummed f 3 = 0 from rfl)
    (fun i h2 h3 => if_neg (by omega))
  rw [hpatch]
  show foldedSum (wordSum (unsummed f) n +
    ((checksumOf (wordSum (unsummed f) n) >>> 8).toUInt8.toNat * 256 +
      (checksumOf (wordSum (unsummed f) n) &&& 0xFF).toUInt8.toNat)) = 65535
  rw [word_checksumOf, Nat.mod_eq_of_lt (by omega), foldedSum_add_complement]

/-- **What `handle_icmp` does with an echo request** at the offset `off` of a pointer. -/
theorem byte_handleIcmp {s : Stack} {p : Ptr} {off : Nat} {len : UInt32} (hoff : off < 2 ^ 32)
    (hlen : 8 ≤ len.toNat) (htype : s.byte p off = 8) :
    (handleIcmp (p.add (UInt64.ofNat off)) len).val s = true ∧ ∀ k < 2 ^ 64,
      ((handleIcmp (p.add (UInt64.ofNat off)) len).next s).byte p k =
        if k < off then s.byte p k else replied (fun i => s.byte p (off + i)) len.toNat (k - off) := by
  have hshort : ¬len < 8 := by
    rw [UInt32.lt_iff_toNat_lt]
    exact Nat.not_lt.mpr hlen
  have hload : (load (p.add (UInt64.ofNat off))).val s = 8 := htype
  have htwo : (p.add (UInt64.ofNat off)).add 2 = p.add (UInt64.ofNat (off + 2)) := Ptr.add_ofNat p off 2
  unfold handleIcmp icmpChecksum
  rw [if_neg hshort]
  constructor
  · rw [val_bind, hload]
    rfl
  · intro k hk
    rw [next_bind, hload, next_load, if_neg (by decide), next_bind, next_bind, next_bind, next_checksum,
      next_bind, next_pure, val_checksum, htwo]
    have hstore : ∀ i < 2 ^ 64, ((store (p.add (UInt64.ofNat off)) 0).next s).byte p i =
        if i = off then 0 else s.byte p i := fun i hi => byte_store s p off i 0 (by omega) hi
    generalize (store (p.add (UInt64.ofNat off)) 0).next s = s₁ at hstore ⊢
    have hzero : ∀ i < 2 ^ 64, ((storeBytes (p.add (UInt64.ofNat (off + 2))) [0, 0]).next s₁).byte p i =
        if i < off then s.byte p i else unsummed (fun j => s.byte p (off + j)) (i - off) := by
      intro i hi
      rw [byte_storeBytes p [0, 0] s₁ (show off + 2 + 2 ≤ 2 ^ 64 by omega) hi, hstore i hi]
      unfold unsummed
      by_cases hlt : i < off
      · rw [if_neg (by omega), if_neg (by omega), if_pos hlt]
      · rw [if_neg hlt]
        by_cases hsum : off + 2 ≤ i ∧ i < off + 2 + 2
        · rw [if_pos (by simpa using hsum), if_pos (by omega)]
          have htwo : i - (off + 2) = 0 ∨ i - (off + 2) = 1 := by omega
          rcases htwo with h | h <;> rw [h] <;> rfl
        · rw [if_neg (by simpa using hsum)]
          by_cases heq : i = off
          · rw [if_pos heq, if_pos (by omega)]
          · rw [if_neg heq, if_neg (by omega)]
            dsimp only
            rw [show off + (i - off) = i by omega]
    generalize (storeBytes (p.add (UInt64.ofNat (off + 2))) [0, 0]).next s₁ = s₂ at hzero ⊢
    have hsum : wordSum (s₂.byte (p.add (UInt64.ofNat off))) len.toNat =
        wordSum (unsummed fun j => s.byte p (off + j)) len.toNat := by
      apply wordSum_congr
      intro i hi
      have := len.toNat_lt
      rw [byte_add, hzero (off + i) (by omega), if_neg (by omega), Nat.add_sub_cancel_left]
    rw [hsum, byte_storeBytes p _ s₂ (show off + 2 + 2 ≤ 2 ^ 64 by omega) hk, hzero k hk]
    show (if off + 2 ≤ k ∧ k < off + 2 + 2 then _ else _) = _
    unfold replied
    by_cases hlt : k < off
    · rw [if_neg (by omega), if_pos hlt, if_pos hlt]
    · rw [if_neg hlt, if_neg hlt]
      by_cases hin : off + 2 ≤ k ∧ k < off + 2 + 2
      · rw [if_pos hin, if_pos (by omega), show k - (off + 2) = k - off - 2 by omega]
      · rw [if_neg hin, if_neg (by omega)]

/-- **What `ip_build` writes**: the header, with its checksum, and nothing behind it. -/
theorem byte_ipBuild (s : Stack) (buf : Ptr) (srcIp dstIp : UInt32) (protocol : UInt8)
    (payloadLen : UInt16) :
    let t := (ipBuild buf srcIp dstIp protocol payloadLen).next s
    t.byte buf 0 = 0x45 ∧ t.byte buf 2 = ((20 + payloadLen) >>> 8).toUInt8 ∧
      t.byte buf 3 = ((20 + payloadLen) &&& 0xFF).toUInt8 ∧ t.byte buf 9 = protocol ∧
      address (t.byte buf) 16 = bytes32 dstIp ∧
      ∀ k, 20 ≤ k → k < 2 ^ 64 → t.byte buf k = s.byte buf k := by
  have hkeep : ∀ k < 2 ^ 64, k ≠ 10 → k ≠ 11 →
      ((ipBuild buf srcIp dstIp protocol payloadLen).next s).byte buf k =
        ((storeBytes buf ([0x45, 0] ++ bytes16 (20 + payloadLen) ++
          [0, 0, 0x40, 0, 64, protocol, 0, 0] ++ bytes32 srcIp ++ bytes32 dstIp)).next s).byte buf k := by
    intro k hk h10 h11
    unfold ipBuild
    rw [next_bind, next_bind, next_checksum, next_bind, next_pure, show (10 : UInt64) = UInt64.ofNat 10
      from rfl, byte_storeBytes buf _ _ (show 10 + 2 ≤ 2 ^ 64 by decide) hk]
    exact if_neg (by show ¬(10 ≤ k ∧ k < 10 + 2); omega)
  have hstore : ∀ k < 2 ^ 64,
      ((storeBytes buf ([0x45, 0] ++ bytes16 (20 + payloadLen) ++
        [0, 0, 0x40, 0, 64, protocol, 0, 0] ++ bytes32 srcIp ++ bytes32 dstIp)).next s).byte buf k =
      if k < 20 then ([0x45, 0] ++ bytes16 (20 + payloadLen) ++
        [0, 0, 0x40, 0, 64, protocol, 0, 0] ++ bytes32 srcIp ++ bytes32 dstIp).getD k 0
      else s.byte buf k := by
    intro k hk
    have hstore := @byte_storeBytes buf ([0x45, 0] ++ bytes16 (20 + payloadLen) ++
      [0, 0, 0x40, 0, 64, protocol, 0, 0] ++ bytes32 srcIp ++ bytes32 dstIp) 0 s k
      (Nat.le_of_ble_eq_true rfl) hk
    rw [Ptr.add_zero] at hstore
    rw [hstore]
    show (if 0 ≤ k ∧ k < 20 then _ else _) = _
    simp only [Nat.zero_le, true_and, Nat.sub_zero]
  have hfield : ∀ k < 20, k ≠ 10 → k ≠ 11 →
      ((ipBuild buf srcIp dstIp protocol payloadLen).next s).byte buf k =
        ([0x45, 0] ++ bytes16 (20 + payloadLen) ++
          [0, 0, 0x40, 0, 64, protocol, 0, 0] ++ bytes32 srcIp ++ bytes32 dstIp).getD k 0 := by
    intro k hk h10 h11
    rw [hkeep k (by omega) h10 h11, hstore k (by omega), if_pos hk]
  dsimp only
  refine ⟨hfield 0 (by decide) (by decide) (by decide), hfield 2 (by decide) (by decide) (by decide),
    hfield 3 (by decide) (by decide) (by decide), hfield 9 (by decide) (by decide) (by decide), ?_, ?_⟩
  · unfold address
    rw [hfield 16 (by decide) (by decide) (by decide), hfield 17 (by decide) (by decide) (by decide),
      hfield 18 (by decide) (by decide) (by decide), hfield 19 (by decide) (by decide) (by decide)]
    rfl
  · intro k hlow hk
    rw [hkeep k hk (by omega) (by omega), hstore k hk, if_neg (by omega)]

theorem byte_ipBuild_before (s : Stack) (p : Ptr) {off k : Nat} (hoff : off < 2 ^ 32) (hk : k < off)
    (srcIp dstIp : UInt32) (protocol : UInt8) (payloadLen : UInt16) :
    ((ipBuild (p.add (UInt64.ofNat off)) srcIp dstIp protocol payloadLen).next s).byte p k =
      s.byte p k := by
  have hten : (p.add (UInt64.ofNat off)).add 10 = p.add (UInt64.ofNat (off + 10)) :=
    Ptr.add_ofNat p off 10
  have hhigh := byte_storeBytes p ([0x45, 0] ++ bytes16 (20 + payloadLen) ++
    [0, 0, 0x40, 0, 64, protocol, 0, 0] ++ bytes32 srcIp ++ bytes32 dstIp) s
    (show off + 20 ≤ 2 ^ 64 by omega) (show k < 2 ^ 64 by omega)
  rw [if_neg (by omega)] at hhigh
  unfold ipBuild
  rw [next_bind, next_bind, next_checksum, next_bind, next_pure, hten,
    byte_storeBytes p _ _ (show off + 10 + 2 ≤ 2 ^ 64 by omega) (by omega), if_neg (by omega)]
  exact hhigh

theorem val_loadMac (s : Stack) (p : Ptr) (i : Fin 6) : (loadMac p).val s i = s.byte p i := by
  have hzero : (loadMac p).val s 0 = s.byte p 0 := by
    unfold Stack.byte
    rw [Ptr.add_zero]
    rfl
  fin_cases i
  · exact hzero
  all_goals rfl

theorem byte_ethBuild (s : Stack) (eth : Ptr) (dst src : Mac) :
    let t := (ethBuild eth dst src 0x0800).next s
    (∀ i : Fin 6, t.byte eth i = dst i) ∧ t.byte eth 12 = 0x08 ∧ t.byte eth 13 = 0x00 ∧
      ∀ k, 14 ≤ k → k < 2 ^ 64 → t.byte eth k = s.byte eth k := by
  have hstore : ∀ k < 2 ^ 64, ((ethBuild eth dst src 0x0800).next s).byte eth k =
      if k < 14 then (List.ofFn dst ++ List.ofFn src ++ bytes16 0x0800).getD k 0 else s.byte eth k := by
    intro k hk
    have hstore := @byte_storeBytes eth (List.ofFn dst ++ List.ofFn src ++ bytes16 0x0800) 0 s k
      (Nat.le_of_ble_eq_true rfl) hk
    rw [Ptr.add_zero] at hstore
    unfold ethBuild
    rw [next_bind, next_pure, hstore]
    show (if 0 ≤ k ∧ k < 14 then _ else _) = _
    simp only [Nat.zero_le, true_and, Nat.sub_zero]
  dsimp only
  refine ⟨?_, ?_, ?_, ?_⟩
  · intro i
    rw [hstore i (by omega), if_pos (by omega)]
    fin_cases i <;> rfl
  · rw [hstore 12 (by decide)]
    rfl
  · rw [hstore 13 (by decide)]
    rfl
  · intro k hlow hk
    rw [hstore k hk, if_neg (by omega)]

theorem checksumOf_eq_zero {sum : Nat} (hsum : sum < 2 ^ 32) :
    checksumOf sum = 0 ↔ foldedSum sum = 65535 := by
  have hle := foldedSum_le sum
  unfold checksumOf
  rw [Nat.mod_eq_of_lt hsum, ← UInt16.toNat_inj, UInt16.toNat_ofNat', UInt16.toNat_zero]
  omega

/-- The address of the frame around an IPv4 packet. -/
def ethOf (buf : Ptr) : Ptr := { buf with off := buf.off - 14 }

theorem ethOf_add (buf : Ptr) : (ethOf buf).add (UInt64.ofNat 14) = buf := by
  unfold ethOf Ptr.add
  rw [show UInt64.ofNat 14 = 14 from rfl, UInt64.sub_add_cancel]

theorem byte_ethOf (s : Stack) (buf : Ptr) (k : Nat) : s.byte (ethOf buf) (14 + k) = s.byte buf k := by
  rw [← byte_add, ethOf_add]

/-- The bytes of the frame that `send_icmp_reply` builds around the packet at `buf`, in the state `t`
before the transmission; `s` is the state before. -/
structure IsFrame (s t : Stack) (buf : Ptr) (payloadLen dstIp : UInt32) : Prop where
  hardware : ∀ i < 6, t.byte (ethOf buf) i = s.byte (ethOf buf) (6 + i)
  ethertype : t.byte (ethOf buf) 12 = 0x08 ∧ t.byte (ethOf buf) 13 = 0x00
  version : t.byte buf 0 = 0x45
  total : t.byte buf 2 = ((20 + payloadLen.toUInt16) >>> 8).toUInt8 ∧
    t.byte buf 3 = ((20 + payloadLen.toUInt16) &&& 0xFF).toUInt8
  protocol : t.byte buf 9 = 1
  headerSum : foldedSum (wordSum (t.byte buf) 20) = 65535
  dst : address (t.byte buf) 16 = bytes32 dstIp
  rest : ∀ k, 20 ≤ k → k < 2 ^ 63 → t.byte buf k = s.byte buf k

/-- **What `send_icmp_reply` transmits.** -/
theorem icmpReplyFrame_spec (s : Stack) (buf : Ptr) (payloadLen dstIp : UInt32) :
    (icmpReplyFrame buf payloadLen dstIp).val s = (ethOf buf, 34 + payloadLen) ∧
      IsFrame s ((icmpReplyFrame buf payloadLen dstIp).next s) buf payloadLen dstIp := by
  obtain ⟨hversion, hhigh, hlow, hproto, hdst, hrest⟩ :=
    byte_ipBuild s buf 0x0A00020F dstIp 1 payloadLen.toUInt16
  have hverify := ipBuild_verifies s buf 0x0A00020F dstIp 1 payloadLen.toUInt16
  have hbefore : ∀ k < 14, ((ipBuild buf 0x0A00020F dstIp 1 payloadLen.toUInt16).next s).byte (ethOf buf) k =
      s.byte (ethOf buf) k := by
    intro k hk
    have hkeep := byte_ipBuild_before s (ethOf buf) (show 14 < 2 ^ 32 by decide) hk 0x0A00020F dstIp 1
      payloadLen.toUInt16
    rwa [ethOf_add] at hkeep
  have hval : (ipBuild buf 0x0A00020F dstIp 1 payloadLen.toUInt16).val s = 20 := by
    unfold ipBuild
    rw [val_bind, val_bind, val_bind, val_pure]
  unfold icmpReplyFrame
  rw [val_bind, next_bind, hval]
  generalize (ipBuild buf 0x0A00020F dstIp 1 payloadLen.toUInt16).next s = s₁ at *
  constructor
  · have hsize : (14 : UInt32) + 20 = 34 := rfl
    have heth : ∀ (dst src : Mac) (t : Stack), (ethBuild (ethOf buf) dst src 0x0800).val t = 14 := by
      intro dst src t
      unfold ethBuild
      rw [val_bind, val_pure]
    dsimp only
    rw [val_bind, next_loadMac, val_bind, next_loadMac, val_bind, val_pure]
    change (ethOf buf, (ethBuild (ethOf buf) _ _ 0x0800).val s₁ + 20 + payloadLen) = _
    rw [heth, hsize]
  · dsimp only
    rw [next_bind, next_loadMac, next_bind, next_loadMac, next_bind, next_pure]
    change IsFrame s ((ethBuild (ethOf buf) ((loadMac ((ethOf buf).add 6)).val s₁)
      ((loadMac (ethOf buf)).val s₁) 0x0800).next s₁) buf payloadLen dstIp
    obtain ⟨hmac, h12, h13, hkeep⟩ := byte_ethBuild s₁ (ethOf buf)
      ((loadMac ((ethOf buf).add 6)).val s₁) ((loadMac (ethOf buf)).val s₁)
    generalize (ethBuild (ethOf buf) ((loadMac ((ethOf buf).add 6)).val s₁)
      ((loadMac (ethOf buf)).val s₁) 0x0800).next s₁ = t at hmac h12 h13 hkeep ⊢
    have hbuf : ∀ k < 2 ^ 63, t.byte buf k = s₁.byte buf k := by
      intro k hk
      rw [← byte_ethOf t buf k, ← byte_ethOf s₁ buf k, hkeep (14 + k) (by omega) (by omega)]
    have hsum : wordSum (t.byte buf) 20 = wordSum (s₁.byte buf) 20 :=
      wordSum_congr fun i hi => hbuf i (by omega)
    have hle := wordSum_le (s₁.byte buf) 20
    rw [val_checksum, show (20 : UInt32).toNat = 20 from rfl, checksumOf_eq_zero (by omega)] at hverify
    constructor
    · intro i hi
      have hi' := hmac ⟨i, hi⟩
      rw [val_loadMac, show (6 : UInt64) = UInt64.ofNat 6 from rfl, byte_add, hbefore _ (by omega)] at hi'
      exact hi'
    · exact ⟨h12, h13⟩
    · rw [hbuf 0 (by decide), hversion]
    · rw [hbuf 2 (by decide), hbuf 3 (by decide)]
      exact ⟨hhigh, hlow⟩
    · rw [hbuf 9 (by decide), hproto]
    · rw [hsum, hverify]
    · rw [← hdst]
      unfold address
      rw [hbuf 16 (by decide), hbuf 17 (by decide), hbuf 18 (by decide), hbuf 19 (by decide)]
    · intro k hlow' hk
      rw [hbuf k hk, hrest k hlow' (by omega)]

/-! ### The answer to a request -/

section Request

variable {s : Stack} {buf : Ptr} {len : UInt32}

theorem request_bounds (h : IsEchoRequest (s.byte buf) len.toNat) :
    20 ≤ headerLen (s.byte buf) ∧ headerLen (s.byte buf) ≤ 60 ∧ headerLen (s.byte buf) % 4 = 0 ∧
      headerLen (s.byte buf) + 8 ≤ totalLen (s.byte buf) ∧ totalLen (s.byte buf) ≤ len.toNat ∧
      totalLen (s.byte buf) < 65536 := by
  have hhigh := (s.byte buf 2).toNat_lt
  have hlow := (s.byte buf 3).toNat_lt
  refine ⟨h.header, ?_, ?_, h.message, h.fits, ?_⟩
  · unfold headerLen
    omega
  · unfold headerLen
    omega
  · unfold totalLen
    omega

/-- The message that `handle_icmp` is given: where it begins, and how long it is taken to be. -/
theorem payloadOf_request (h : IsEchoRequest (s.byte buf) len.toNat) :
    (payloadOf buf len ((ipParse buf len).val s)).1 = buf.add (UInt64.ofNat (headerLen (s.byte buf))) ∧
      (payloadOf buf len ((ipParse buf len).val s)).2.toNat = len.toNat - headerLen (s.byte buf) := by
  obtain ⟨hlow, hhigh, -, hmsg, hfits, -⟩ := request_bounds h
  obtain ⟨hihl, -⟩ := @ipParse_spec s buf len (by omega)
  have h32 : ((ipParse buf len).val s).ihl.toUInt32.toNat = headerLen (s.byte buf) := by
    rw [UInt8.toNat_toUInt32, hihl]
  unfold payloadOf
  constructor
  · show buf.add ((ipParse buf len).val s).ihl.toUInt32.toUInt64 = _
    rw [← h32, ← UInt32.toNat_toUInt64, UInt64.ofNat_toNat]
  · show (len - ((ipParse buf len).val s).ihl.toUInt32).toNat = _
    rw [UInt32.toNat_sub_of_le _ _ (by rw [UInt32.le_iff_toNat_le, h32]; omega), h32]

/-- **What `handle_ipv4` does with an echo request** is to transmit `replyFrame`. -/
theorem handleIpv4_replyFrame (h : IsEchoRequest (s.byte buf) len.toNat) (mac : Mac) :
    (handleIpv4 buf len mac).next s =
      (replyFrame buf len >>= fun frame => txSend frame.1 frame.2).next s := by
  obtain ⟨hlow, hhigh, -, hmsg, hfits, -⟩ := request_bounds h
  obtain ⟨-, hproto, -⟩ := @ipParse_spec s buf len (by omega)
  obtain ⟨hnext, -⟩ := handleIpv4_eq buf len mac s
  obtain ⟨hpayload, hplen⟩ := payloadOf_request h
  have hfor := forUs_of_isEchoRequest h
  have hone : ((ipParse buf len).val s).protocol = 1 := by rw [hproto, h.protocol]
  have hval : (replyFrame buf len).val s =
      (handleReply buf len ((ipParse buf len).val s)).val s := by
    unfold replyFrame
    rw [val_bind, next_ipParse]
  have hnext' : (replyFrame buf len).next s =
      (handleReply buf len ((ipParse buf len).val s)).next s := by
    unfold replyFrame
    rw [next_bind, next_ipParse]
  rw [hnext, if_pos hfor, hone, if_neg (by decide), if_neg (by decide),
    if_pos (beq_self_eq_true _), next_bind, hval, hnext']
  generalize (ipParse buf len).val s = ip at hpayload hplen ⊢
  obtain ⟨hreply, -⟩ := @byte_handleIcmp s buf (headerLen (s.byte buf))
    (payloadOf buf len ip).2 (by omega) (by omega) h.type
  rw [← hpayload] at hreply
  have hload : (load (payloadOf buf len ip).1).val s = 8 := by
    rw [hpayload]
    exact h.type
  have hrecord : (recordReply 8 ip.srcIp).next s = s := rfl
  unfold handleIcmpPacket handleReply
  rw [next_bind, hload, next_load, next_bind, hrecord, next_bind, hreply, if_pos rfl,
    next_sendIcmpReply, next_bind]
  dsimp only
  rw [val_bind, next_bind]

theorem replyFrame_spec (h : IsEchoRequest (s.byte buf) len.toNat) :
    let n := len.toNat - headerLen (s.byte buf)
    ((replyFrame buf len).val s).1 = ethOf buf ∧
      ((replyFrame buf len).val s).2 = 34 + UInt32.ofNat n ∧
      ∃ s₁ : Stack, ∃ srcIp, bytes32 srcIp = address (s.byte buf) 12 ∧
        IsFrame s₁ ((replyFrame buf len).next s) buf (UInt32.ofNat n) srcIp ∧
        (∀ k < 14, s₁.byte (ethOf buf) k = s.byte (ethOf buf) k) ∧
        ∀ k < 2 ^ 63, s₁.byte buf k =
          if k < headerLen (s.byte buf) then s.byte buf k
          else replied (fun i => s.byte buf (headerLen (s.byte buf) + i)) n
            (k - headerLen (s.byte buf)) := by
  obtain ⟨hlow, hhigh, -, hmsg, hfits, -⟩ := request_bounds h
  obtain ⟨-, -, hsrc, -⟩ := @ipParse_spec s buf len (by omega)
  obtain ⟨hpayload, hplen⟩ := payloadOf_request h
  dsimp only
  unfold replyFrame
  rw [val_bind, next_bind, next_ipParse]
  generalize (ipParse buf len).val s = ip at hpayload hplen hsrc ⊢
  unfold handleReply
  dsimp only
  rw [val_bind, next_bind, hpayload, ← hplen, UInt32.ofNat_toNat]
  generalize (payloadOf buf len ip).2 = plen at hplen ⊢
  obtain ⟨hval, hframe⟩ := icmpReplyFrame_spec
    ((handleIcmp (buf.add (UInt64.ofNat (headerLen (s.byte buf)))) plen).next s) buf plen ip.srcIp
  refine ⟨congrArg Prod.fst hval, congrArg Prod.snd hval, _, ip.srcIp, hsrc, hframe, ?_, ?_⟩
  · intro k hk
    have heth : buf.add (UInt64.ofNat (headerLen (s.byte buf))) =
        (ethOf buf).add (UInt64.ofNat (14 + headerLen (s.byte buf))) := by
      rw [← Ptr.add_ofNat, ethOf_add]
    have htype : s.byte (ethOf buf) (14 + headerLen (s.byte buf)) = 8 := by
      rw [byte_ethOf]
      exact h.type
    obtain ⟨-, hbyte⟩ := @byte_handleIcmp s (ethOf buf) (14 + headerLen (s.byte buf)) plen (by omega)
      (by omega) htype
    rw [heth, hbyte k (by omega), if_pos (by omega)]
  · intro k hk
    obtain ⟨-, hbyte⟩ := @byte_handleIcmp s buf (headerLen (s.byte buf)) plen (by omega)
      (by omega) h.type
    exact hbyte k (by omega)

theorem header_of_isFrame {t : Stack} {payloadLen dstIp : UInt32}
    (h : IsFrame s t buf payloadLen dstIp) :
    headerLen (t.byte buf) = 20 ∧
      (payloadLen.toNat + 20 < 65536 → totalLen (t.byte buf) = payloadLen.toNat + 20) := by
  constructor
  · unfold headerLen
    rw [h.version]
    rfl
  · intro hlen
    have h16 : (20 + payloadLen.toUInt16).toNat = payloadLen.toNat + 20 := by
      rw [UInt16.toNat_add, UInt32.toNat_toUInt16, show (20 : UInt16).toNat = 20 from rfl]
      omega
    have hhigh : ((20 + payloadLen.toUInt16) >>> 8).toNat = (payloadLen.toNat + 20) / 256 := by
      rw [UInt16.toNat_shiftRight, h16]
      exact Nat.shiftRight_eq_div_pow _ 8
    have hlow : ((20 + payloadLen.toUInt16) &&& 0xFF).toNat = (payloadLen.toNat + 20) % 256 := by
      rw [UInt16.toNat_and, h16]
      exact Nat.and_two_pow_sub_one_eq_mod _ 8
    unfold totalLen
    rw [h.total.1, h.total.2, UInt16.toNat_toUInt8, UInt16.toNat_toUInt8, hhigh, hlow]
    omega

/-- **A request without options and without padding is answered faithfully.** -/
theorem isEchoReply_of_exact (h : IsEchoRequest (s.byte buf) len.toNat)
    (hheader : headerLen (s.byte buf) = 20) (htotal : totalLen (s.byte buf) = len.toNat) :
    IsEchoReply (s.byte (ethOf buf)) (s.byte buf)
      (((replyFrame buf len).next s).byte ((replyFrame buf len).val s).1)
      ((replyFrame buf len).val s).2.toNat := by
  obtain ⟨-, -, -, hmsg, -, hlt⟩ := request_bounds h
  obtain ⟨heth, hsize, s₁, srcIp, hsrc, hframe, hbefore, hbyte⟩ := replyFrame_spec h
  rw [heth, hsize]
  generalize (replyFrame buf len).next s = t at hframe ⊢
  rw [hheader] at hframe hbyte hmsg ⊢
  have hn : (UInt32.ofNat (len.toNat - 20)).toNat = len.toNat - 20 := by
    rw [UInt32.toNat_ofNat', Nat.mod_eq_of_lt (by omega)]
  obtain ⟨hfour, hlen⟩ := header_of_isFrame hframe
  rw [hn] at hlen
  replace hlen := hlen (by omega)
  have hsize' : (34 + UInt32.ofNat (len.toNat - 20)).toNat = 14 + totalLen (t.byte buf) := by
    rw [UInt32.toNat_add, hn, hlen, show (34 : UInt32).toNat = 34 from rfl]
    omega
  have hframeByte : (fun k => t.byte (ethOf buf) (14 + k)) = t.byte buf := by
    funext k
    exact byte_ethOf t buf k
  have hpayload : ∀ k < 2 ^ 32, t.byte (ethOf buf) (34 + k) =
      replied (fun i => s.byte buf (20 + i)) (len.toNat - 20) k := by
    intro k hk
    rw [show 34 + k = 14 + (20 + k) by omega, byte_ethOf, hframe.rest _ (by omega) (by omega),
      hbyte _ (by omega), if_neg (by omega), Nat.add_sub_cancel_left]
  constructor
  · intro i hi
    rw [hframe.hardware i hi, hbefore _ (by omega)]
  · exact hframe.ethertype
  · rw [show 14 = 14 + 0 from rfl, byte_ethOf, hframe.version]
    rfl
  · rw [hframeByte, hsize']
  · rw [show 23 = 14 + 9 from rfl, byte_ethOf, hframe.protocol]
  · rw [hframeByte, hfour, hframe.headerSum]
  · rw [← hsrc, ← hframe.dst]
    unfold address
    rw [← byte_ethOf t buf 16, ← byte_ethOf t buf (16 + 1), ← byte_ethOf t buf (16 + 2),
      ← byte_ethOf t buf (16 + 3)]
  · rw [hframeByte, hfour, hlen, hheader, htotal]
    omega
  · rw [hframeByte, hfour, show 14 + 20 = 34 + 0 from rfl, hpayload 0 (by decide)]
    rfl
  · intro k hk hdata
    rw [hframeByte, hfour, hheader, hpayload k (by omega)]
    unfold replied unsummed
    rw [if_neg (by omega), if_neg (by omega)]
  · rw [hframeByte, hfour, hheader, htotal, wordSum_congr (g := replied (fun i => s.byte buf (20 + i))
      (len.toNat - 20)) fun k hk => hpayload k (by omega)]
    exact foldedSum_replied _ (by omega) (by omega)

/-- **A reply whose message lies `d` bytes behind its place is no answer**: if zeros come first, the bytes
repeat with the period `d`, so all of them are zeros, and zeros do not verify. -/
theorem not_verifies_of_shifted {f g : Nat → UInt8} {d n : Nat} (hd : 4 ≤ d) (hlow : 8 ≤ n)
    (hhigh : n ≤ 65535) (hzero : ∀ k < d, g k = 0)
    (hshift : ∀ k < n, d ≤ k → g k = replied f n (k - d))
    (hdata : ∀ k < n, k = 1 ∨ 4 ≤ k → g k = f k) : foldedSum (wordSum g n) ≠ 65535 := by
  intro hsum
  have hunsummed : ∀ k < n, g k = unsummed f k := by
    intro k hk
    unfold unsummed
    by_cases hfield : k = 0 ∨ k = 2 ∨ k = 3
    · rw [if_pos hfield, hzero k (by omega)]
    · rw [if_neg hfield, hdata k hk (by omega)]
  have hle := wordSum_le (unsummed f) n
  have hchecksum : checksumOf (wordSum (unsummed f) n) = 0 := by
    rw [checksumOf_eq_zero (by omega), ← wordSum_congr hunsummed, hsum]
  have hreplied : ∀ k < n, replied f n k = g k := by
    intro k hk
    unfold replied
    rw [hchecksum, hunsummed k hk]
    split
    · rename_i hin
      have hk2 : k = 2 ∨ k = 3 := by omega
      rcases hk2 with rfl | rfl <;> rfl
    · rfl
  have hall : ∀ k < n, g k = 0 := by
    intro k
    induction k using Nat.strong_induction_on with
    | _ k ih =>
      intro hk
      by_cases hlt : k < d
      · exact hzero k hlt
      · rw [hshift k hk (by omega), hreplied (k - d) (by omega)]
        exact ih (k - d) (by omega) (by omega)
  have hnone : wordSum g n = 0 := by
    have hconst : ∀ m, wordSum (fun _ => 0) m = 0 := by
      intro m
      induction m with
      | zero => rfl
      | succ m ih => rw [wordSum_succ, ih]; simp
    rw [wordSum_congr hall, hconst]
  rw [hnone] at hsum
  exact absurd hsum (by decide)

/-- **A request that is answered faithfully** has neither options nor padding behind it. -/
theorem exact_of_isEchoReply (h : IsEchoRequest (s.byte buf) len.toNat)
    (hreply : IsEchoReply (s.byte (ethOf buf)) (s.byte buf)
      (((replyFrame buf len).next s).byte ((replyFrame buf len).val s).1)
      ((replyFrame buf len).val s).2.toNat) :
    headerLen (s.byte buf) = 20 ∧ totalLen (s.byte buf) = len.toNat := by
  obtain ⟨hheader, h60, hfour, hmsg, hfits, hlt⟩ := request_bounds h
  obtain ⟨heth, hsize, s₁, srcIp, hsrc, hframe, hbefore, hbyte⟩ := replyFrame_spec h
  rw [heth, hsize] at hreply
  generalize (replyFrame buf len).next s = t at hframe hreply
  have hlen := len.toNat_lt
  have hframeByte : (fun k => t.byte (ethOf buf) (14 + k)) = t.byte buf := by
    funext k
    exact byte_ethOf t buf k
  obtain ⟨h20, -⟩ := header_of_isFrame hframe
  have htotal : totalLen (s.byte buf) = len.toNat := by
    have hn := hreply.total
    have hm := hreply.size
    rw [hframeByte] at hn hm
    rw [h20] at hm
    rw [hm, UInt32.toNat_add, UInt32.toNat_ofNat', show (34 : UInt32).toNat = 34 from rfl] at hn
    omega
  refine ⟨?_, htotal⟩
  by_contra hoptions
  have hplace : ∀ k, 14 + 20 + k = 14 + (20 + k) := fun k => Nat.add_assoc 14 20 k
  have hrest : ∀ k < 2 ^ 32, t.byte (ethOf buf) (14 + 20 + k) =
      if 20 + k < headerLen (s.byte buf) then s.byte buf (20 + k)
      else replied (fun i => s.byte buf (headerLen (s.byte buf) + i))
        (len.toNat - headerLen (s.byte buf)) (20 + k - headerLen (s.byte buf)) := by
    intro k hk
    rw [hplace, byte_ethOf, hframe.rest _ (by omega) (by omega), hbyte _ (by omega)]
  have htype := hreply.type
  have hdata := hreply.data
  have hsum := hreply.messageSum
  rw [hframeByte, h20] at htype hsum
  rw [hframeByte, h20, htotal] at hdata
  rw [htotal] at hsum
  have hfirst : s.byte buf 20 = 0 := by
    have hbyte0 := hrest 0 (by decide)
    rw [if_pos (by omega)] at hbyte0
    rw [← hbyte0]
    exact htype
  -- The message of the frame begins with the options, which are zeros, as the type must be 0.
  exact not_verifies_of_shifted (d := headerLen (s.byte buf) - 20) (by omega) (by omega) (by omega)
    (fun k hk => by rw [hrest k (by omega), if_pos (by omega), h.padded hfirst _ (by omega) (by omega)])
    (fun k hk hdk => by
      rw [hrest k (by omega), if_neg (by omega),
        show 20 + k - headerLen (s.byte buf) = k - (headerLen (s.byte buf) - 20) by omega])
    hdata hsum

end Request

/-- **Echo replies.** `handle_ipv4` answers an echo request by transmitting `replyFrame`, and the frame is
a faithful answer if and only if the header of the request has no options and the packet ends where its
header says. -/
theorem echo_faithful_iff (s : Stack) (buf : Ptr) (len : UInt32)
    (h : IsEchoRequest (s.byte buf) len.toNat) :
    (∀ mac, (handleIpv4 buf len mac).next s =
      (replyFrame buf len >>= fun frame => txSend frame.1 frame.2).next s) ∧
    (IsEchoReply (s.byte (ethOf buf)) (s.byte buf)
        (((replyFrame buf len).next s).byte ((replyFrame buf len).val s).1)
        ((replyFrame buf len).val s).2.toNat ↔
      headerLen (s.byte buf) = 20 ∧ totalLen (s.byte buf) = len.toNat) := by
  refine ⟨handleIpv4_replyFrame h, ?_⟩
  constructor
  · exact exact_of_isEchoReply h
  · rintro ⟨hheader, htotal⟩
    exact isEchoReply_of_exact h hheader htotal

/-- A ping of 28 bytes without data from 10.0.2.2, behind its Ethernet header and followed by zeros. -/
def pinged : Stack :=
  { Stack.quiet with
    tcp := { Stack.quiet.tcp with
      mem := fun a => ([0x52, 0x54, 0x00, 0x12, 0x34, 0x56, 0x52, 0x55, 0x0A, 0x00, 0x02, 0x02, 0x08, 0x00,
        0x45, 0x00, 0x00, 0x1C, 0x00, 0x01, 0x00, 0x00, 0x40, 0x01, 0x62, 0xD0, 0x0A, 0x00,
        0x02, 0x02, 0x0A, 0x00, 0x02, 0x0F, 0x08, 0x00, 0xE5, 0xCA, 0x12, 0x34, 0x00, 0x01] :
          List UInt8).getD (a.toNat - 0x1000) 0 } }

theorem isEchoRequest_pinged {len : Nat} (h : 28 ≤ len) :
    IsEchoRequest (pinged.byte ⟨.packet, 0x1000, 14⟩) len where
  header := by decide +kernel
  message := by decide +kernel
  fits := le_trans (by decide +kernel) h
  protocol := by decide +kernel
  forUs := Or.inl (by decide +kernel)
  type := by decide +kernel
  padded := fun h => absurd h (by decide +kernel)

theorem echo_faithful_iff_pinged :
    IsEchoReply (pinged.byte (ethOf ⟨.packet, 0x1000, 14⟩)) (pinged.byte ⟨.packet, 0x1000, 14⟩)
      (((replyFrame ⟨.packet, 0x1000, 14⟩ 28).next pinged).byte
        ((replyFrame ⟨.packet, 0x1000, 14⟩ 28).val pinged).1)
      ((replyFrame ⟨.packet, 0x1000, 14⟩ 28).val pinged).2.toNat :=
  (echo_faithful_iff pinged ⟨.packet, 0x1000, 14⟩ 28 (isEchoRequest_pinged (by decide))).2.mpr
    ⟨rfl, rfl⟩

/-- **The same ping in a frame of 60 bytes**, the shortest that Ethernet carries, is not answered
faithfully: the reply has 26 bytes of payload. -/
theorem not_isEchoReply_padded :
    IsEchoRequest (pinged.byte ⟨.packet, 0x1000, 14⟩) 46 ∧
      foldedSum (wordSum (pinged.byte ⟨.packet, 0x1000, 14⟩) 20) = 65535 ∧
      foldedSum (wordSum (fun k => pinged.byte ⟨.packet, 0x1000, 14⟩ (20 + k)) 8) = 65535 ∧
      ((replyFrame ⟨.packet, 0x1000, 14⟩ 46).val pinged).2 = 60 ∧
      ¬IsEchoReply (pinged.byte (ethOf ⟨.packet, 0x1000, 14⟩)) (pinged.byte ⟨.packet, 0x1000, 14⟩)
        (((replyFrame ⟨.packet, 0x1000, 14⟩ 46).next pinged).byte
          ((replyFrame ⟨.packet, 0x1000, 14⟩ 46).val pinged).1)
        ((replyFrame ⟨.packet, 0x1000, 14⟩ 46).val pinged).2.toNat := by
  have hrequest : IsEchoRequest (pinged.byte ⟨.packet, 0x1000, 14⟩) (46 : UInt32).toNat :=
    isEchoRequest_pinged (by decide)
  refine ⟨hrequest, by decide, by decide, (replyFrame_spec hrequest).2.1, ?_⟩
  intro hreply
  obtain ⟨-, htotal⟩ := exact_of_isEchoReply hrequest hreply
  exact absurd htotal (by decide)

end Keuos.Net
