import Keuos.Net.Equiv.Headers
import Keuos.Netd.Equiv.Checksum
import Keuos.Netd.Equiv.Daemon
import Mathlib.Tactic.Linarith

/-!
# Encapsulated frames

`encapsulate_tcp_frame` writes the fields of the headers with the high byte first, and `parse_headers` loads
them with the low byte first.  So the type `0x0800` that the one writes is `0x0008` to the other, which drops
every frame.  The header of IPv4 keeps a checksum of zero, which is right only when the other words happen to
add up to a multiple of 65535.

## Main results

* `bytesAt_encapsulate`: the headers that are written.
* `writesHeadroom`: nothing but the headroom is written.
* `not_understood`: no frame is understood, and when the checksum is right.
-/

namespace Keuos.Netd.Daemon

open Traced

/-! ### Memory -/

/-- **What `storeBytes` has stored.** -/
theorem next_storeBytes (bs : List UInt8) : ∀ (a : UInt64) (m : Mem) (x : UInt64), bs.length ≤ 2 ^ 64 →
    (storeBytes a bs).next m x = if InBlock a bs.length x then bs.getD (x - a).toNat 0 else m x := by
  induction bs with
  | nil =>
    intro a m x _
    rw [if_neg (show ¬InBlock a ([] : List UInt8).length x from Nat.not_lt_zero _)]
    rfl
  | cons b bs ih =>
    intro a m x hlen
    rw [List.length_cons] at hlen
    show (storeBytes (a + 1) bs).next (m.write8 a b) x = _
    rw [ih _ _ _ (by omega), List.length_cons]
    by_cases hx : x = a
    · subst hx
      rw [if_neg (not_inBlock_next (by omega) x), if_pos (show InBlock x (bs.length + 1) x by simp [InBlock]),
        UInt64.sub_self]
      exact Function.update_self _ _ _
    · have hne : (x - a).toNat ≠ 0 := by
        intro h
        have : x - a = 0 := UInt64.toNat_inj.mp h
        exact hx (by grind)
      have hnext : (x - a).toNat = (x - (a + 1)).toNat + 1 := by
        have hsub : x - (a + 1) = x - a - 1 := by grind
        have hlt := (x - a).toNat_lt
        rw [hsub]
        generalize x - a = d at hne hlt ⊢
        rw [UInt64.toNat_sub, UInt64.toNat_one]
        omega
      have hmem : InBlock a (bs.length + 1) x ↔ InBlock (a + 1) bs.length x := by
        unfold InBlock
        omega
      by_cases hin : InBlock (a + 1) bs.length x
      · rw [if_pos hin, if_pos (hmem.mpr hin), hnext, List.getD_cons_succ]
      · rw [if_neg hin, if_neg (fun h => hin (hmem.mp h))]
        exact Function.update_of_ne hx _ _

theorem next_copyBytes {n : Nat} (hn : n < 2 ^ 64) {dst src : UInt64} {m : Mem} {x : UInt64}
    (hx : ¬InBlock dst n x) : (copyBytes dst src n).next m x = m x := by
  induction n generalizing dst src m with
  | zero => rfl
  | succ n ih =>
    rw [inBlock_succ (by omega)] at hx
    show (copyBytes (dst + 1) (src + 1) n).next (m.write8 dst (m src)) x = _
    rw [ih (by omega) fun h => hx (.inr h)]
    exact Function.update_of_ne (fun h => hx (.inl h)) _ _

section Offsets
variable {m : Mem} {base : UInt64} {off k : Nat}

theorem bytesAt_storeBytes {bs : List UInt8} (h : off + bs.length ≤ 2 ^ 64) (hk : k < 2 ^ 64) :
    bytesAt ((storeBytes (base + UInt64.ofNat off) bs).next m) base k =
      if off ≤ k ∧ k < off + bs.length then bs.getD (k - off) 0 else bytesAt m base k := by
  have hplace : (base + UInt64.ofNat k - base).toNat = k := by
    rw [show base + UInt64.ofNat k - base = UInt64.ofNat k by grind, UInt64.toNat_ofNat', Nat.mod_eq_of_lt hk]
  have hblock : InBlock (base + UInt64.ofNat off) bs.length (base + UInt64.ofNat k) ↔ _ :=
    inBlock_offset_iff h
  rw [hplace] at hblock
  unfold bytesAt
  rw [next_storeBytes bs _ _ _ (by omega)]
  by_cases hin : off ≤ k ∧ k < off + bs.length
  · have hsub : (base + UInt64.ofNat k - (base + UInt64.ofNat off)).toNat = k - off := by
      rw [show base + UInt64.ofNat k - (base + UInt64.ofNat off) = UInt64.ofNat k - UInt64.ofNat off by grind,
        UInt64.toNat_sub, UInt64.toNat_ofNat', UInt64.toNat_ofNat']
      omega
    rw [if_pos (hblock.mpr hin), if_pos hin, hsub]
  · rw [if_neg (fun h => hin (hblock.mp h)), if_neg hin]

theorem bytesAt_copyBytes {src : UInt64} {n : Nat} (h : off + n < 2 ^ 64) (hk : k < 2 ^ 64)
    (hout : ¬(off ≤ k ∧ k < off + n)) :
    bytesAt ((copyBytes (base + UInt64.ofNat off) src n).next m) base k = bytesAt m base k := by
  have hplace : (base + UInt64.ofNat k - base).toNat = k := by
    rw [show base + UInt64.ofNat k - base = UInt64.ofNat k by grind, UInt64.toNat_ofNat', Nat.mod_eq_of_lt hk]
  refine next_copyBytes (by omega) ?_
  rwa [inBlock_offset_iff (by omega), hplace]

end Offsets

/-! ### The frame -/

namespace Segment
variable (g : Segment)

/-- Where the frame starts. -/
def base : UInt64 := g.payloadPtr - 54

def ipHeader : List UInt8 :=
  [0x45, 0] ++ bytes16 (20 + 20 + g.payloadLen).toUInt16 ++ [0, 0, 0x40, 0, 64, 6, 0, 0] ++ bytes32 g.srcIp ++
    bytes32 g.dstIp

def tcpHeader : List UInt8 :=
  bytes16 g.localPort ++ bytes16 g.remotePort ++ bytes32 g.seqNum ++ bytes32 g.ackNum ++
    [0x50, 0x18, 0xFF, 0xFF, 0, 0, 0, 0]

@[simp] theorem length_ipHeader : g.ipHeader.length = 20 := rfl
@[simp] theorem length_tcpHeader : g.tcpHeader.length = 20 := rfl

theorem encapsulateTcpFrame_eq :
    encapsulateTcpFrame g = (do
      storeBytes (g.base + UInt64.ofNat 34) g.tcpHeader
      storeBytes (g.base + UInt64.ofNat 14) g.ipHeader
      copyBytes (g.base + UInt64.ofNat 0) g.dstMac 6
      copyBytes (g.base + UInt64.ofNat 6) g.srcMac 6
      storeBytes (g.base + UInt64.ofNat 12) [0x08, 0x00]
      return g.base) := by
  have htcp : g.payloadPtr - 20 = g.base + UInt64.ofNat 34 := by
    rw [show UInt64.ofNat 34 = 34 from rfl, base]
    grind
  have hip : g.base + UInt64.ofNat 34 - 20 = g.base + UInt64.ofNat 14 := by
    rw [show UInt64.ofNat 34 = 34 from rfl, show UInt64.ofNat 14 = 14 from rfl]
    grind
  have heth : g.base + UInt64.ofNat 14 - 14 = g.base := by
    rw [show UInt64.ofNat 14 = 14 from rfl]
    grind
  unfold encapsulateTcpFrame
  rw [htcp]
  dsimp only
  rw [hip, heth, show g.base + UInt64.ofNat 0 =
    g.base by rw [show UInt64.ofNat 0 = 0 from rfl, UInt64.add_zero]]
  rfl

end Segment

/-- The headers of the segment, and what was behind them before. -/
structure IsFrame (g : Segment) (m m' : Mem) : Prop where
  ethertype : bytesAt m' g.base 12 = 0x08 ∧ bytesAt m' g.base 13 = 0x00
  ip : ∀ i < 20, bytesAt m' g.base (14 + i) = g.ipHeader.getD i 0
  tcp : ∀ i < 20, bytesAt m' g.base (34 + i) = g.tcpHeader.getD i 0
  behind : ∀ k, 54 ≤ k → k < 2 ^ 64 → bytesAt m' g.base k = bytesAt m g.base k

/-- **What `encapsulate_tcp_frame` writes.** -/
theorem bytesAt_encapsulate (g : Segment) (m : Mem) : IsFrame g m ((encapsulateTcpFrame g).next m) := by
  rw [g.encapsulateTcpFrame_eq]
  simp only [next_bind, next_pure]
  -- Each step leaves the bytes of the others as they are.
  have htcp : ∀ k < 2 ^ 64, bytesAt ((storeBytes (g.base + UInt64.ofNat 34) g.tcpHeader).next m) g.base k =
      if 34 ≤ k ∧ k < 54 then g.tcpHeader.getD (k - 34) 0 else bytesAt m g.base k := fun k hk =>
    bytesAt_storeBytes (show 34 + 20 ≤ 2 ^ 64 by decide) hk
  generalize (storeBytes (g.base + UInt64.ofNat 34) g.tcpHeader).next m = m₁ at htcp ⊢
  have hip : ∀ k < 2 ^ 64, bytesAt ((storeBytes (g.base + UInt64.ofNat 14) g.ipHeader).next m₁) g.base k =
      if 14 ≤ k ∧ k < 34 then g.ipHeader.getD (k - 14) 0 else bytesAt m₁ g.base k := fun k hk =>
    bytesAt_storeBytes (show 14 + 20 ≤ 2 ^ 64 by decide) hk
  generalize (storeBytes (g.base + UInt64.ofNat 14) g.ipHeader).next m₁ = m₂ at hip ⊢
  have hdst : ∀ k, 12 ≤ k → k < 2 ^ 64 →
      bytesAt ((copyBytes (g.base + UInt64.ofNat 0) g.dstMac 6).next m₂) g.base k = bytesAt m₂ g.base k :=
    fun k hlow hk => bytesAt_copyBytes (by decide) hk (by omega)
  generalize (copyBytes (g.base + UInt64.ofNat 0) g.dstMac 6).next m₂ = m₃ at hdst ⊢
  have hsrc : ∀ k, 12 ≤ k → k < 2 ^ 64 →
      bytesAt ((copyBytes (g.base + UInt64.ofNat 6) g.srcMac 6).next m₃) g.base k = bytesAt m₃ g.base k :=
    fun k hlow hk => bytesAt_copyBytes (by decide) hk (by omega)
  generalize (copyBytes (g.base + UInt64.ofNat 6) g.srcMac 6).next m₃ = m₄ at hsrc ⊢
  have htype : ∀ k < 2 ^ 64, bytesAt ((storeBytes (g.base + UInt64.ofNat 12) [0x08, 0x00]).next m₄) g.base k =
      if 12 ≤ k ∧ k < 14 then ([0x08, 0x00] : List UInt8).getD (k - 12) 0 else bytesAt m₄ g.base
        k := fun k hk =>
    bytesAt_storeBytes (show 12 + 2 ≤ 2 ^ 64 by decide) hk
  generalize (storeBytes (g.base + UInt64.ofNat 12) [0x08, 0x00]).next m₄ = m₅ at htype ⊢
  have hhigh : ∀ k, 14 ≤ k → k < 2 ^ 64 → bytesAt m₅ g.base k = bytesAt m₂ g.base k := by
    intro k hlow hk
    rw [htype k hk, if_neg (by omega), hsrc k (by omega) hk, hdst k (by omega) hk]
  refine ⟨⟨htype 12 (by decide), htype 13 (by decide)⟩, ?_, ?_, ?_⟩
  · intro i hi
    rw [hhigh _ (by omega) (by omega), hip _ (by omega), if_pos (by omega), Nat.add_sub_cancel_left]
  · intro i hi
    rw [hhigh _ (by omega) (by omega), hip _ (by omega), if_neg (by omega), htcp _ (by omega),
      if_pos (by omega),
      Nat.add_sub_cancel_left]
  · intro k hlow hk
    rw [hhigh k (by omega) hk, hip k hk, if_neg (by omega), htcp k hk, if_neg (by omega)]

/-! ### What is written -/

/-- A write is inside the headroom. -/
def WritesIn (base : UInt64) (n : Nat) (e : Event) : Prop :=
  ∀ a k, e = .write a k → ∃ i, i + k ≤ n ∧ a = base + UInt64.ofNat i

section Writes
variable {base : UInt64} {n off : Nat}

theorem writesIn_storeBytes {bs : List UInt8} (h : off + bs.length ≤ n) (m : Mem) :
    All (WritesIn base n) (storeBytes (base + UInt64.ofNat off) bs) m := by
  induction bs generalizing off m with
  | nil => exact all_pure _ _
  | cons b bs ih =>
    rw [List.length_cons] at h
    have hnext : base + UInt64.ofNat off + 1 = base + UInt64.ofNat (off + 1) := by
      rw [UInt64.add_assoc, UInt64.ofNat_add]
      rfl
    have hstore : All (WritesIn base n) (store8 (base + UInt64.ofNat off) b) m := by
      intro e he a k heq
      obtain rfl := List.mem_singleton.mp he
      cases heq
      exact ⟨off, by omega, rfl⟩
    unfold storeBytes
    rw [all_bind, hnext]
    exact ⟨hstore, ih (by omega) _⟩

theorem writesIn_copyBytes {k : Nat} (h : off + k ≤ n) (src : UInt64) (m : Mem) :
    All (WritesIn base n) (copyBytes (base + UInt64.ofNat off) src k) m := by
  induction k generalizing off src m with
  | zero => exact all_pure _ _
  | succ k ih =>
    have hnext : base + UInt64.ofNat off + 1 = base + UInt64.ofNat (off + 1) := by
      rw [UInt64.add_assoc, UInt64.ofNat_add]
      rfl
    have hload : All (WritesIn base n) (load8 src) m := by
      intro e he a k heq
      obtain rfl := List.mem_singleton.mp he
      cases heq
    have hstore : ∀ b, All (WritesIn base n) (store8 (base + UInt64.ofNat off) b) m := by
      intro b e he a k heq
      obtain rfl := List.mem_singleton.mp he
      cases heq
      exact ⟨off, by omega, rfl⟩
    unfold copyBytes
    rw [all_bind, all_bind, hnext]
    exact ⟨hload, hstore _, ih (by omega) _ _⟩

end Writes

/-- **Nothing but the headroom is written.** -/
theorem writesHeadroom (g : Segment) (m : Mem) :
    All (WritesIn g.base 54) (encapsulateTcpFrame g) m := by
  rw [g.encapsulateTcpFrame_eq]
  simp only [all_bind, all_pure, and_true]
  exact ⟨writesIn_storeBytes (by simp) _, writesIn_storeBytes (by simp) _, writesIn_copyBytes (by decide) _ _,
    writesIn_copyBytes (by decide) _ _, writesIn_storeBytes (by simp) _⟩

/-! ### The checksum -/

/-- The sum of the words of the IPv4 header. -/
def Segment.headerSum (g : Segment) : Nat :=
  0x4500 + (20 + 20 + g.payloadLen).toUInt16.toNat + 0x4000 + 0x4006 + g.srcIp.toNat / 65536 +
    g.srcIp.toNat % 65536 + g.dstIp.toNat / 65536 + g.dstIp.toNat % 65536

theorem wordSum_twenty (f : Nat → UInt8) :
    wordSum f 20 = (f 0).toNat * 256 + (f 1).toNat + ((f 2).toNat * 256 + (f 3).toNat) +
      ((f 4).toNat * 256 + (f 5).toNat) + ((f 6).toNat * 256 + (f 7).toNat) +
      ((f 8).toNat * 256 + (f 9).toNat) + ((f 10).toNat * 256 + (f 11).toNat) +
      ((f 12).toNat * 256 + (f 13).toNat) + ((f 14).toNat * 256 + (f 15).toNat) +
      ((f 16).toNat * 256 + (f 17).toNat) + ((f 18).toNat * 256 + (f 19).toNat) := by
  simp [wordSum, byteWeight]
  omega

theorem toNat_highByte32 (v : UInt32) : (v >>> 24).toUInt8.toNat = v.toNat / 2 ^ 24 := by
  have hv := v.toNat_lt
  rw [UInt32.toNat_toUInt8, UInt32.toNat_shiftRight, show (24 : UInt32).toNat % 32 = 24 from rfl,
    Nat.shiftRight_eq_div_pow]
  omega

theorem sum_bytes32 (v : UInt32) :
    (v >>> 24).toUInt8.toNat * 256 + ((v >>> 16) &&& 0xFF).toUInt8.toNat +
      (((v >>> 8) &&& 0xFF).toUInt8.toNat * 256 + (v &&& 0xFF).toUInt8.toNat) =
    v.toNat / 65536 + v.toNat % 65536 := by
  have h16 : ((v >>> 16) &&& 0xFF).toUInt8.toNat = v.toNat / 2 ^ 16 % 256 := Net.toNat_byte32 v (by decide)
  have h8 : ((v >>> 8) &&& 0xFF).toUInt8.toNat = v.toNat / 2 ^ 8 % 256 := Net.toNat_byte32 v (by decide)
  rw [toNat_highByte32, h16, h8, Net.toNat_lowByte32]
  omega

theorem wordSum_ipHeader (g : Segment) : wordSum (fun i => g.ipHeader.getD i 0) 20 = g.headerSum := by
  have hsrc := sum_bytes32 g.srcIp
  have hdst := sum_bytes32 g.dstIp
  have htotal : ((20 + 20 + g.payloadLen).toUInt16 >>> 8).toUInt8.toNat * 256 +
      ((20 + 20 + g.payloadLen).toUInt16 &&& 0xFF).toUInt8.toNat =
        (20 + 20 + g.payloadLen).toUInt16.toNat := by
    rw [Net.toNat_highByte, Net.toNat_lowByte]
    exact Nat.div_add_mod' _ _
  have hlist : g.ipHeader = [(0x45 : UInt8), 0, ((20 + 20 + g.payloadLen).toUInt16 >>> 8).toUInt8,
      ((20 + 20 + g.payloadLen).toUInt16 &&& 0xFF).toUInt8, 0, 0, 0x40, 0, 64, 6, 0, 0,
      (g.srcIp >>> 24).toUInt8, ((g.srcIp >>> 16) &&& 0xFF).toUInt8, ((g.srcIp >>> 8) &&& 0xFF).toUInt8,
      (g.srcIp &&& 0xFF).toUInt8, (g.dstIp >>> 24).toUInt8, ((g.dstIp >>> 16) &&& 0xFF).toUInt8,
      ((g.dstIp >>> 8) &&& 0xFF).toUInt8, (g.dstIp &&& 0xFF).toUInt8] := rfl
  rw [wordSum_twenty, hlist]
  simp only [List.getD_cons_zero, List.getD_cons_succ, show (0x45 : UInt8).toNat = 69 from rfl,
    show (0x40 : UInt8).toNat = 64 from rfl, show (6 : UInt8).toNat = 6 from rfl, UInt8.toNat_zero]
  unfold Segment.headerSum
  linarith

/-- A stack with this memory. -/
def stackOf (m : Mem) : Net.Stack := { Net.Stack.quiet with tcp := { Net.Stack.quiet.tcp with mem := m } }

/-- **The checksum of the header that is written.** -/
theorem checksum_encapsulate (g : Segment) (m : Mem) :
    Checksum.computeChecksum ((encapsulateTcpFrame g).next m) (g.base + 14) 20 = 0 ↔
      g.headerSum % 65535 = 0 := by
  have hframe := bytesAt_encapsulate g m
  generalize (encapsulateTcpFrame g).next m = m' at hframe ⊢
  let p : Net.Ptr := ⟨.other, g.base, 14⟩
  have hbytes : ∀ i, (stackOf m').byte p i = bytesAt m' g.base (14 + i) := by
    intro i
    show m' (g.base + (14 + UInt64.ofNat i)) = m' (g.base + UInt64.ofNat (14 + i))
    rw [UInt64.ofNat_add]
    rfl
  have hsum : wordSum ((stackOf m').byte p) 20 = g.headerSum := by
    rw [← wordSum_ipHeader g]
    apply wordSum_congr
    intro i hi
    rw [hbytes, hframe.ip i hi]
  have hsmall : g.headerSum < 2 ^ 32 := by
    have hle := wordSum_le ((stackOf m').byte p) 20
    omega
  have hpos : 0 < g.headerSum := by
    unfold Segment.headerSum
    omega
  have hcompute : Checksum.computeChecksum m' (g.base + 14) 20 = Net.checksumOf g.headerSum := by
    have heq := Checksum.computeChecksum_eq (stackOf m') p 20
    rw [Net.val_checksum, show (20 : UInt32).toNat = 20 from rfl, hsum] at heq
    exact heq
  rw [hcompute, Net.checksumOf_eq_zero hsmall]
  unfold foldedSum
  rw [if_neg (by omega)]
  omega

/-! ### Understanding -/

/-- What `parse_headers` returns for the frame that `encapsulate_tcp_frame` has written. -/
def parsedBack (g : Segment) (m : Mem) (frameLen : UInt32) : PacketInfo :=
  (parseHeaders ((encapsulateTcpFrame g).val m) frameLen).val ((encapsulateTcpFrame g).next m)

/-- `parse_headers` reads back what `encapsulate_tcp_frame` was given, nothing but the headroom is written,
and the IPv4 header has a correct checksum. -/
structure Understood (g : Segment) (m : Mem) : Prop where
  parsed : let info := parsedBack g m (54 + g.payloadLen)
    info.valid = 1 ∧ info.srcPort = g.localPort ∧ info.dstPort = g.remotePort ∧ info.seqNum = g.seqNum ∧
      info.ackNum = g.ackNum ∧ info.payloadOffset = 54 ∧ info.payloadLen = g.payloadLen
  headroom : ∀ k, 54 ≤ k → k < 2 ^ 64 →
    bytesAt ((encapsulateTcpFrame g).next m) g.base k = bytesAt m g.base k
  checksum : Checksum.computeChecksum ((encapsulateTcpFrame g).next m) (g.base + 14) 20 = 0

/-- **`parse_headers` drops the frame.** -/
theorem parse_encapsulate (g : Segment) (m : Mem) (frameLen : UInt32) :
    parsedBack g m frameLen = .invalid := by
  have hval : (encapsulateTcpFrame g).val m = g.base := by
    rw [g.encapsulateTcpFrame_eq]
    rfl
  have hframe := bytesAt_encapsulate g m
  unfold parsedBack
  rw [hval]
  rcases (parseHeaders_cases ((encapsulateTcpFrame g).next m) g.base frameLen).2.2 with h | ⟨hacc, -⟩
  · exact h.2
  · have htype := hacc.ethertype.1
    rw [hframe.ethertype.1] at htype
    exact absurd htype (by decide)

/-- **No frame is understood.** Every frame is dropped; the headers are written where they belong and nowhere
else; and the checksum is right when the other words of the header add up to a multiple of 65535. -/
theorem not_understood (g : Segment) (m : Mem) :
    ¬Understood g m ∧
      (∀ frameLen, parsedBack g m frameLen = .invalid) ∧
      IsFrame g m ((encapsulateTcpFrame g).next m) ∧ All (WritesIn g.base 54) (encapsulateTcpFrame g) m ∧
      (Checksum.computeChecksum ((encapsulateTcpFrame g).next m) (g.base + 14) 20 = 0 ↔
        g.headerSum % 65535 = 0) := by
  refine ⟨?_, parse_encapsulate g m, bytesAt_encapsulate g m, writesHeadroom g m, checksum_encapsulate g m⟩
  intro h
  have hvalid := h.parsed.1
  rw [parse_encapsulate] at hvalid
  exact absurd hvalid (by decide)

/-- A segment without payload, from port 80 to port 443. -/
def emptySegment : Segment :=
  ⟨0x1036, 0, 80, 443, 1000, 2000, 0x0A000001, 0x0A000002, 0x2000, 0x2008⟩

/-- Its frame is dropped. -/
theorem not_understood_emptySegment :
    ¬∀ (g : Segment) (m : Mem), g.payloadLen.toNat ≤ 65481 → Understood g m := by
  intro h
  have hvalid := (h emptySegment (fun _ => 0) (by decide)).parsed.1
  rw [parse_encapsulate] at hvalid
  exact absurd hvalid (by decide)

end Keuos.Netd.Daemon
