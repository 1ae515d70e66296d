import Keuos.Net.Equiv.Echo

/-!
# Headers

The parsers of the four headers read back what the builders write, whatever stands behind the header, and a
builder leaves everything but its header as it was.  Both sides go through `Holds`: the bytes that a builder
stores are a list, and a parser that finds this list returns the fields.

## Main results

* `ethParse_of_holds`, `ipParse_of_holds`, `udpParse_of_holds`, `parseTcp_of_holds`: what is parsed.
* `holds_ethBuild`, `holds_ipBuild`, `holds_udpBuild`, `holds_buildTcp`: what is built.
* `parsers_invert_builders`: these together, and that a plain TCP header is rebuilt from its fields.
-/

namespace Keuos.Net

open Traced

/-! ### Words -/

theorem toNat_highByte (v : UInt16) : (v >>> 8).toUInt8.toNat = v.toNat / 256 := by
  have hv := v.toNat_lt
  rw [UInt16.toNat_toUInt8, UInt16.toNat_shiftRight, show (8 : UInt16).toNat % 16 = 8 from rfl,
    Nat.shiftRight_eq_div_pow]
  omega

theorem toNat_lowByte (v : UInt16) : (v &&& 0xFF).toUInt8.toNat = v.toNat % 256 := by
  have hand : (v &&& 0xFF).toNat = v.toNat % 256 := by
    rw [UInt16.toNat_and]
    exact Nat.and_two_pow_sub_one_eq_mod _ 8
  rw [UInt16.toNat_toUInt8, hand]
  omega

theorem toNat_lowByte32 (v : UInt32) : (v &&& 0xFF).toUInt8.toNat = v.toNat % 256 := by
  have hand : (v &&& 0xFF).toNat = v.toNat % 256 := by
    rw [UInt32.toNat_and]
    exact Nat.and_two_pow_sub_one_eq_mod _ 8
  rw [UInt32.toNat_toUInt8, hand]
  omega

theorem toNat_byte32 (v : UInt32) {k : UInt32} (hk : k.toNat < 32) :
    ((v >>> k) &&& 0xFF).toUInt8.toNat = v.toNat / 2 ^ k.toNat % 256 := by
  rw [toNat_lowByte32, UInt32.toNat_shiftRight, Nat.mod_eq_of_lt hk, Nat.shiftRight_eq_div_pow]

theorem word_bytes16 (v : UInt16) :
    (((v >>> 8).toUInt8).toUInt16 <<< 8) ||| ((v &&& 0xFF).toUInt8).toUInt16 = v := by
  have hv := v.toNat_lt
  have hshift : (v.toNat / 256) <<< 8 = v.toNat / 256 * 2 ^ 8 := Nat.shiftLeft_eq _ _
  rw [← UInt16.toNat_inj, UInt16.toNat_or, UInt16.toNat_shiftLeft, UInt8.toNat_toUInt16,
    UInt8.toNat_toUInt16, toNat_highByte, toNat_lowByte, show (8 : UInt16).toNat % 16 = 8 from rfl, hshift,
    Nat.mod_eq_of_lt (by omega), Nat.mul_comm, ← Nat.two_pow_add_eq_or_of_lt (by omega)]
  omega

theorem word_bytes32 (v : UInt32) :
    (((v >>> 24) &&& 0xFF).toUInt8.toUInt32 <<< 24) ||| (((v >>> 16) &&& 0xFF).toUInt8.toUInt32 <<< 16) |||
      (((v >>> 8) &&& 0xFF).toUInt8.toUInt32 <<< 8) ||| (v &&& 0xFF).toUInt8.toUInt32 = v := by
  have hv := v.toNat_lt
  have h24 : ((v >>> 24) &&& 0xFF).toUInt8.toNat = v.toNat / 2 ^ 24 % 256 := toNat_byte32 v (by decide)
  have h16 : ((v >>> 16) &&& 0xFF).toUInt8.toNat = v.toNat / 2 ^ 16 % 256 := toNat_byte32 v (by decide)
  have h8 : ((v >>> 8) &&& 0xFF).toUInt8.toNat = v.toNat / 2 ^ 8 % 256 := toNat_byte32 v (by decide)
  rw [← UInt32.toNat_inj, toNat_word32, h24, h16, h8, toNat_lowByte32]
  omega

@[simp] theorem length_bytes16 (v : UInt16) : (bytes16 v).length = 2 := rfl
@[simp] theorem length_bytes32 (v : UInt32) : (bytes32 v).length = 4 := rfl

/-! ### Bytes at a pointer -/

/-- The bytes from the offset `k` of a pointer on are those of the list. -/
def Holds (s : Stack) (p : Ptr) : Nat → List UInt8 → Prop
  | _, [] => True
  | k, b :: bs => s.byte p k = b ∧ Holds s p (k + 1) bs

section Bytes
variable {s t : Stack} {p : Ptr} {k : Nat}

@[simp] theorem holds_nil : Holds s p k [] := trivial

@[simp] theorem holds_cons {b : UInt8} {bs : List UInt8} :
    Holds s p k (b :: bs) ↔ s.byte p k = b ∧ Holds s p (k + 1) bs := Iff.rfl

theorem holds_iff {bs : List UInt8} :
    Holds s p k bs ↔ ∀ i < bs.length, s.byte p (k + i) = bs.getD i 0 := by
  induction bs generalizing k with
  | nil => simp
  | cons b bs ih =>
    rw [holds_cons, ih]
    constructor
    · rintro ⟨h0, hrest⟩ i hi
      cases i with
      | zero => exact h0
      | succ i =>
        have h := hrest i (by simpa using hi)
        rw [Nat.add_right_comm, Nat.add_assoc] at h
        simpa using h
    · intro h
      refine ⟨h 0 (by simp), ?_⟩
      intro i hi
      have hs := h (i + 1) (by simpa using hi)
      rw [Nat.add_right_comm, Nat.add_assoc]
      simpa using hs

@[simp] theorem holds_append {as bs : List UInt8} :
    Holds s p k (as ++ bs) ↔ Holds s p k as ∧ Holds s p (k + as.length) bs := by
  induction as generalizing k with
  | nil => simp
  | cons a as ih =>
    rw [List.cons_append, holds_cons, ih, holds_cons, List.length_cons, and_assoc,
      show k + 1 + as.length = k + (as.length + 1) by omega]

theorem Holds.congr {bs : List UInt8} (h : Holds s p k bs)
    (heq : ∀ i, k ≤ i → i < k + bs.length → t.byte p i = s.byte p i) : Holds t p k bs := by
  rw [holds_iff] at h ⊢
  intro i hi
  rw [heq (k + i) (by omega) (by omega), h i hi]

theorem holds_storeBytes (bs : List UInt8) (h : k + bs.length ≤ 2 ^ 64) :
    Holds ((storeBytes (p.add (UInt64.ofNat k)) bs).next s) p k bs := by
  rw [holds_iff]
  intro i hi
  rw [byte_storeBytes p bs s h (by omega), if_pos (by omega), Nat.add_sub_cancel_left]

theorem load16_of_holds {v : UInt16} (h : Holds s p k (bytes16 v)) :
    (load16 (p.add (UInt64.ofNat k))).val s = v := by
  obtain ⟨hhigh, hlow, -⟩ := h
  have hload : (load16 (p.add (UInt64.ofNat k))).val s =
      ((s.byte p k).toUInt16 <<< 8) ||| (s.byte p (k + 1)).toUInt16 := by
    rw [← byte_add]
    rfl
  rw [hload, hhigh, hlow, word_bytes16]

theorem load32_of_holds {v : UInt32} (h : Holds s p k (bytes32 v)) :
    (load32 (p.add (UInt64.ofNat k))).val s = v := by
  obtain ⟨h0, h1, h2, h3, -⟩ := h
  have hload : (load32 (p.add (UInt64.ofNat k))).val s =
      ((s.byte p k).toUInt32 <<< 24) ||| ((s.byte p (k + 1)).toUInt32 <<< 16) |||
        ((s.byte p (k + 2)).toUInt32 <<< 8) ||| (s.byte p (k + 3)).toUInt32 := by
    rw [← byte_add s p k 1, ← byte_add s p k 2, ← byte_add s p k 3]
    rfl
  rw [hload, h0, h1, h2, h3, word_bytes32]

theorem loadMac_of_holds {mac : Mac} (h : Holds s p k (List.ofFn mac)) :
    (loadMac (p.add (UInt64.ofNat k))).val s = mac := by
  rw [holds_iff] at h
  funext i
  have hi : (i : Nat) < (List.ofFn mac).length := by simp
  rw [val_loadMac, byte_add, h i hi, List.getD_eq_getElem?_getD, List.getElem?_eq_getElem hi,
    Option.getD_some, List.getElem_ofFn]

end Bytes

/-! ### Parsing -/

section Parse
variable {s : Stack} {buf : Ptr}

theorem val_load_start : (load buf).val s = s.byte buf 0 := by
  rw [val_load, Stack.byte, Ptr.add_zero]

theorem load16_start {v : UInt16} (h : Holds s buf 0 (bytes16 v)) : (load16 buf).val s = v := by
  have hload := load16_of_holds h
  rwa [Ptr.add_zero] at hload

theorem loadMac_start {mac : Mac} (h : Holds s buf 0 (List.ofFn mac)) : (loadMac buf).val s = mac := by
  have hload := loadMac_of_holds h
  rwa [Ptr.add_zero] at hload

theorem ethParse_of_holds {dst src : Mac} {ethertype : UInt16} {len : UInt32} (hlen : 14 ≤ len.toNat)
    (h : Holds s buf 0 (List.ofFn dst ++ List.ofFn src ++ bytes16 ethertype)) :
    (ethParse buf len).val s = ⟨dst, src, ethertype⟩ := by
  have hshort : ¬len < 14 := by
    rw [UInt32.lt_iff_toNat_lt]
    exact Nat.not_lt.mpr hlen
  have hparse : (ethParse buf len).val s =
      ⟨(loadMac buf).val s, (loadMac (buf.add (UInt64.ofNat 6))).val s,
        (load16 (buf.add (UInt64.ofNat 12))).val s⟩ := by
    unfold ethParse
    rw [if_neg hshort]
    rfl
  simp only [holds_append, List.length_append, List.length_ofFn, Nat.zero_add, Nat.reduceAdd] at h
  obtain ⟨⟨hdst, hsrc⟩, htype⟩ := h
  rw [hparse, loadMac_start hdst, loadMac_of_holds hsrc, load16_of_holds htype]

/-- A header of IPv4 without options, as `ip_build` lays it out. -/
def ipBytes (srcIp dstIp : UInt32) (protocol : UInt8) (totalLen csum : UInt16) : List UInt8 :=
  [0x45, 0] ++ bytes16 totalLen ++ [0, 0, 0x40, 0, 64, protocol] ++ bytes16 csum ++ bytes32 srcIp ++
    bytes32 dstIp

theorem ipParse_of_holds {srcIp dstIp : UInt32} {protocol : UInt8} {total csum : UInt16}
    {len : UInt32} (hlen : 20 ≤ len.toNat)
    (h : Holds s buf 0 (ipBytes srcIp dstIp protocol total csum)) :
    (ipParse buf len).val s =
      { srcIp, dstIp, protocol, totalLen := total, ttl := 64, ihl := 20 } := by
  have hshort : ¬len < 20 := by
    rw [UInt32.lt_iff_toNat_lt]
    exact Nat.not_lt.mpr hlen
  have hparse : (ipParse buf len).val s =
      { srcIp := (load32 (buf.add (UInt64.ofNat 12))).val s,
        dstIp := (load32 (buf.add (UInt64.ofNat 16))).val s,
        protocol := s.byte buf 9,
        totalLen := (load16 (buf.add (UInt64.ofNat 2))).val s,
        ttl := s.byte buf 8,
        ihl := ((load buf).val s &&& 0x0F) * 4 } := by
    unfold ipParse
    rw [if_neg hshort]
    rfl
  unfold ipBytes at h
  simp only [holds_append, holds_cons, holds_nil, and_true, List.length_append, List.length_cons,
    List.length_nil, length_bytes16, length_bytes32, Nat.zero_add, Nat.reduceAdd] at h
  obtain ⟨⟨⟨⟨⟨⟨hfirst, -⟩, htotal⟩, -, -, -, -, httl, hproto⟩, -⟩, hsrc⟩, hdst⟩ := h
  rw [hparse, load32_of_holds hsrc, load32_of_holds hdst, load16_of_holds htotal, val_load_start, hfirst,
    httl, hproto]
  rfl

theorem udpParse_of_holds {srcPort dstPort length : UInt16} {rest : List UInt8} {len : UInt32}
    (hlen : 8 ≤ len.toNat)
    (h : Holds s buf 0 (bytes16 srcPort ++ bytes16 dstPort ++ bytes16 length ++ rest)) :
    (udpParse buf len).val s = ⟨srcPort, dstPort, length⟩ := by
  have hshort : ¬len < 8 := by
    rw [UInt32.lt_iff_toNat_lt]
    exact Nat.not_lt.mpr hlen
  have hparse : (udpParse buf len).val s =
      ⟨(load16 buf).val s, (load16 (buf.add (UInt64.ofNat 2))).val s,
        (load16 (buf.add (UInt64.ofNat 4))).val s⟩ := by
    unfold udpParse
    rw [if_neg hshort]
    rfl
  simp only [holds_append, List.length_append, length_bytes16, Nat.zero_add, Nat.reduceAdd] at h
  obtain ⟨⟨⟨hsrc, hdst⟩, hlength⟩, -⟩ := h
  rw [hparse, load16_start hsrc, load16_of_holds hdst, load16_of_holds hlength]

/-- A TCP header of 20 bytes. -/
def tcpBytes (srcPort dstPort : UInt16) (seq ack : UInt32) (offsetAndFlags window csum urgent : UInt16) :
    List UInt8 :=
  bytes16 srcPort ++ bytes16 dstPort ++ bytes32 seq ++ bytes32 ack ++ bytes16 offsetAndFlags ++
    bytes16 window ++ bytes16 csum ++ bytes16 urgent

theorem parseTcp_of_holds {srcPort dstPort : UInt16} {seq ack : UInt32}
    {offsetAndFlags window csum urgent : UInt16} {len : UInt64} (hlen : 20 ≤ len.toNat)
    (h : Holds s buf 0 (tcpBytes srcPort dstPort seq ack offsetAndFlags window csum urgent)) :
    (parseTcp buf len).val s =
      { srcPort, dstPort, seqNum := seq, ackNum := ack,
        dataOffset := ((offsetAndFlags >>> 12) &&& 0x000F).toUInt8, flags := offsetAndFlags &&& 0x01FF,
        window, checksum := csum, urgent } := by
  have hshort : ¬len < 20 := by
    rw [UInt64.lt_iff_toNat_lt]
    exact Nat.not_lt.mpr hlen
  have hparse : (parseTcp buf len).val s =
      let word := (load16 (buf.add (UInt64.ofNat 12))).val s
      { srcPort := (load16 buf).val s,
        dstPort := (load16 (buf.add (UInt64.ofNat 2))).val s,
        seqNum := (load32 (buf.add (UInt64.ofNat 4))).val s,
        ackNum := (load32 (buf.add (UInt64.ofNat 8))).val s,
        dataOffset := ((word >>> 12) &&& 0x000F).toUInt8,
        flags := word &&& 0x01FF,
        window := (load16 (buf.add (UInt64.ofNat 14))).val s,
        checksum := (load16 (buf.add (UInt64.ofNat 16))).val s,
        urgent := (load16 (buf.add (UInt64.ofNat 18))).val s } := by
    unfold parseTcp
    rw [if_neg hshort]
    rfl
  unfold tcpBytes at h
  simp only [holds_append, List.length_append, length_bytes16, length_bytes32, Nat.zero_add,
    Nat.reduceAdd] at h
  obtain ⟨⟨⟨⟨⟨⟨⟨hsrc, hdst⟩, hseq⟩, hack⟩, hoff⟩, hwindow⟩, hcsum⟩, hurgent⟩ := h
  rw [hparse, load16_start hsrc, load16_of_holds hdst, load32_of_holds hseq, load32_of_holds hack,
    load16_of_holds hoff, load16_of_holds hwindow, load16_of_holds hcsum, load16_of_holds hurgent]

end Parse

/-! ### Building -/

/-- A program that writes nothing but `n` bytes at a pointer, and changes nothing else. -/
structure WritesOnly {α : Type} (x : NetM α) (p : Ptr) (n : Nat) (s : Stack) : Prop where
  log : All (fun e => ∀ q, e = .write q → ∃ i < n, q = p.add (UInt64.ofNat i)) x s
  bytes : ∀ k, n ≤ k → k < 2 ^ 64 → (x.next s).byte p k = s.byte p k
  rest : { x.next s with tcp := { (x.next s).tcp with mem := s.tcp.mem } } = s

namespace WritesOnly
variable {α β : Type} {p : Ptr} {n : Nat} {s : Stack} {x : NetM α} {f : α → NetM β}

theorem pure (a : α) : WritesOnly (Pure.pure a : NetM α) p n s := ⟨by simp, fun _ _ _ => rfl, rfl⟩

theorem bind (hx : WritesOnly x p n s) (hf : WritesOnly (f (x.val s)) p n (x.next s)) :
    WritesOnly (x >>= f) p n s where
  log := by
    rw [all_bind]
    exact ⟨hx.log, hf.log⟩
  bytes := by
    intro k hlow hk
    rw [next_bind, hf.bytes k hlow hk, hx.bytes k hlow hk]
  rest := by
    have h := congrArg (fun t : Stack => { t with tcp := { t.tcp with mem := s.tcp.mem } }) hf.rest
    rw [next_bind]
    exact h.trans hx.rest

theorem store {off : Nat} (h : off < n) (hn : n ≤ 2 ^ 64) (v : UInt8) :
    WritesOnly (store (p.add (UInt64.ofNat off)) v) p n s where
  log := by
    rw [all_store]
    rintro q ⟨⟩
    exact ⟨off, h, rfl⟩
  bytes := by
    intro k hlow hk
    rw [byte_store s p off k v (Nat.lt_of_lt_of_le h hn) hk, if_neg (by omega)]
  rest := rfl

theorem storeBytes {off : Nat} {bs : List UInt8} (h : off + bs.length ≤ n) (hn : n ≤ 2 ^ 64) :
    WritesOnly (storeBytes (p.add (UInt64.ofNat off)) bs) p n s := by
  induction bs generalizing off s with
  | nil => exact pure ()
  | cons b bs ih =>
    rw [List.length_cons] at h
    have hnext : (p.add (UInt64.ofNat off)).add 1 = p.add (UInt64.ofNat (off + 1)) := Ptr.add_ofNat p off 1
    unfold Net.storeBytes
    rw [hnext]
    exact bind (store (by omega) hn b) (ih (by omega))

theorem storeBytes_start {bs : List UInt8} (h : bs.length ≤ n) (hn : n ≤ 2 ^ 64) :
    WritesOnly (Net.storeBytes p bs) p n s := by
  have hstore := @storeBytes p n s 0 bs (by omega) hn
  rwa [Ptr.add_zero] at hstore

theorem checksum (buf : Ptr) (len : UInt32) : WritesOnly (checksum buf len) p n s where
  log := by
    intro e he q heq
    have honly := (only_checksum (R := fun _ => True) (W := fun _ => False)
      (show (fun _ => True) buf.obj from trivial) len s).2 e he
    rw [heq] at honly
    exact honly.elim
  bytes := by
    intro k _ _
    rw [next_checksum]
  rest := by rw [next_checksum]

end WritesOnly

section Build
variable (s : Stack) (buf : Ptr)

theorem holds_storeBytes_start (bs : List UInt8) (h : bs.length ≤ 2 ^ 64) :
    Holds ((storeBytes buf bs).next s) buf 0 bs := by
  have hstore := @holds_storeBytes s buf 0 bs (by omega)
  rwa [Ptr.add_zero] at hstore

theorem holds_ethBuild (dst src : Mac) (ethertype : UInt16) :
    Holds ((ethBuild buf dst src ethertype).next s) buf 0
      (List.ofFn dst ++ List.ofFn src ++ bytes16 ethertype) := by
  unfold ethBuild
  rw [next_bind, next_pure]
  exact holds_storeBytes_start s buf _ (by simp)

theorem writesOnly_ethBuild (dst src : Mac) (ethertype : UInt16) :
    WritesOnly (ethBuild buf dst src ethertype) buf 14 s := by
  unfold ethBuild
  exact .bind (.storeBytes_start (by simp) (by decide)) (.pure 14)

theorem holds_ipBuild (srcIp dstIp : UInt32) (protocol : UInt8) (payloadLen : UInt16) :
    ∃ csum, Holds ((ipBuild buf srcIp dstIp protocol payloadLen).next s) buf 0
      (ipBytes srcIp dstIp protocol (20 + payloadLen) csum) := by
  let header : List UInt8 := [0x45, 0] ++ bytes16 (20 + payloadLen) ++ [0, 0, 0x40, 0, 64, protocol, 0, 0] ++
    bytes32 srcIp ++ bytes32 dstIp
  have hfirst : Holds ((storeBytes buf header).next s) buf 0 header :=
    holds_storeBytes_start s buf header (Nat.le_of_ble_eq_true rfl)
  let csum : UInt16 := (checksum buf 20).val ((storeBytes buf header).next s)
  have hnext : (ipBuild buf srcIp dstIp protocol payloadLen).next s =
      (storeBytes (buf.add (UInt64.ofNat 10)) (bytes16 csum)).next ((storeBytes buf header).next s) := by
    unfold ipBuild
    rw [next_bind, next_bind, next_checksum, next_bind, next_pure]
    rfl
  rw [hnext]
  generalize (storeBytes buf header).next s = t at hfirst ⊢
  generalize csum = c
  have hsum := @holds_storeBytes t buf 10 (bytes16 c) (by rw [length_bytes16]; decide)
  have hkeep : ∀ i, i < 10 ∨ 12 ≤ i → i < 2 ^ 64 →
      ((storeBytes (buf.add (UInt64.ofNat 10)) (bytes16 c)).next t).byte buf i = t.byte buf i := by
    intro i hi hlt
    rw [byte_storeBytes buf _ _ (show 10 + 2 ≤ 2 ^ 64 by decide) hlt, length_bytes16, if_neg (by omega)]
  refine ⟨c, ?_⟩
  unfold ipBytes
  simp only [header, holds_append, holds_cons, holds_nil, and_true, List.length_append, List.length_cons,
    List.length_nil, length_bytes16, length_bytes32, Nat.zero_add, Nat.reduceAdd] at hfirst ⊢
  obtain ⟨⟨⟨⟨⟨h0, h1⟩, htotal⟩, h4, h5, h6, h7, h8, h9, -, -⟩, hsrc⟩, hdst⟩ := hfirst
  rw [hkeep 0 (by omega) (by omega), hkeep 1 (by omega) (by omega), hkeep 4 (by omega) (by omega),
    hkeep 5 (by omega) (by omega), hkeep 6 (by omega) (by omega), hkeep 7 (by omega) (by omega),
    hkeep 8 (by omega) (by omega), hkeep 9 (by omega) (by omega)]
  refine ⟨⟨⟨⟨⟨⟨h0, h1⟩, ?_⟩, h4, h5, h6, h7, h8, h9⟩, hsum⟩, ?_⟩, ?_⟩
  · exact htotal.congr fun i _ hi => hkeep i (by simp at hi; omega) (by simp at hi; omega)
  · exact hsrc.congr fun i _ hi => hkeep i (by omega) (by simp at hi; omega)
  · exact hdst.congr fun i _ hi => hkeep i (by omega) (by simp at hi; omega)

theorem writesOnly_ipBuild (srcIp dstIp : UInt32) (protocol : UInt8) (payloadLen : UInt16) :
    WritesOnly (ipBuild buf srcIp dstIp protocol payloadLen) buf 20 s := by
  have hfield : ∀ (csum : UInt16) (t : Stack), WritesOnly (storeBytes (buf.add 10) (bytes16 csum)) buf 20 t :=
    fun csum _ => @WritesOnly.storeBytes buf 20 _ 10 (bytes16 csum) (by simp) (by decide)
  unfold ipBuild
  exact .bind (.storeBytes_start (by simp) (by decide))
    (.bind (.checksum buf 20) (.bind (hfield _ _) (.pure 20)))

theorem holds_udpBuild (srcPort dstPort payloadLen : UInt16) :
    Holds ((udpBuild buf srcPort dstPort payloadLen).next s) buf 0
      (bytes16 srcPort ++ bytes16 dstPort ++ bytes16 (8 + payloadLen) ++ [0, 0]) := by
  unfold udpBuild
  rw [next_bind, next_pure]
  exact holds_storeBytes_start s buf _ (by simp)

theorem writesOnly_udpBuild (srcPort dstPort payloadLen : UInt16) :
    WritesOnly (udpBuild buf srcPort dstPort payloadLen) buf 8 s := by
  unfold udpBuild
  exact .bind (.storeBytes_start (by simp) (by decide)) (.pure 8)

theorem holds_buildTcp (srcPort dstPort : UInt16) (seq ack : UInt32) (flags window : UInt16) :
    Holds ((buildTcp buf srcPort dstPort seq ack flags window).next s) buf 0
      (tcpBytes srcPort dstPort seq ack (((5 : UInt16) <<< 12) ||| (flags &&& 0x01FF)) window 0 0) := by
  have hzero : bytes16 0 ++ bytes16 0 = [0, 0, 0, 0] := rfl
  unfold buildTcp tcpBytes
  rw [List.append_assoc _ (bytes16 0) (bytes16 0), hzero, next_bind, next_pure]
  exact holds_storeBytes_start s buf _ (by simp)

theorem writesOnly_buildTcp (srcPort dstPort : UInt16) (seq ack : UInt32) (flags window : UInt16) :
    WritesOnly (buildTcp buf srcPort dstPort seq ack flags window) buf 20 s := by
  unfold buildTcp
  exact .bind (.storeBytes_start (by simp) (by decide)) (.pure 20)

end Build

/-! ### The word of the data offset and the flags -/

theorem toNat_offsetAndFlags (flags : UInt16) :
    (((5 : UInt16) <<< 12) ||| (flags &&& 0x01FF)).toNat = 20480 + flags.toNat % 512 := by
  have hand : (flags &&& 0x01FF).toNat = flags.toNat % 512 := by
    rw [UInt16.toNat_and]
    exact Nat.and_two_pow_sub_one_eq_mod _ 9
  have hlt : flags.toNat % 512 < 2 ^ 12 := by omega
  rw [UInt16.toNat_or, hand, show ((5 : UInt16) <<< 12).toNat = 2 ^ 12 * 5 from rfl,
    ← Nat.two_pow_add_eq_or_of_lt hlt]

theorem dataOffset_offsetAndFlags (flags : UInt16) :
    (((((5 : UInt16) <<< 12) ||| (flags &&& 0x01FF)) >>> 12) &&& 0x000F).toUInt8 = 5 := by
  have hword := toNat_offsetAndFlags flags
  generalize ((5 : UInt16) <<< 12) ||| (flags &&& 0x01FF) = w at hword ⊢
  have hshift : (w >>> 12).toNat = w.toNat / 2 ^ 12 := by
    rw [UInt16.toNat_shiftRight]
    exact Nat.shiftRight_eq_div_pow _ 12
  have hand : ((w >>> 12) &&& 0x000F).toNat = (w >>> 12).toNat % 2 ^ 4 := by
    rw [UInt16.toNat_and]
    exact Nat.and_two_pow_sub_one_eq_mod _ 4
  rw [← UInt8.toNat_inj, UInt16.toNat_toUInt8, hand, hshift, hword, show (5 : UInt8).toNat = 5 from rfl]
  omega

theorem toNat_flags (w : UInt16) : (w &&& 0x01FF).toNat = w.toNat % 512 := by
  rw [UInt16.toNat_and]
  exact Nat.and_two_pow_sub_one_eq_mod _ 9

theorem flags_offsetAndFlags (flags : UInt16) :
    ((((5 : UInt16) <<< 12) ||| (flags &&& 0x01FF)) &&& 0x01FF).toNat = flags.toNat % 512 := by
  rw [toNat_flags, toNat_offsetAndFlags]
  omega

/-! ### From the bytes back to the bytes -/

/-- A TCP header with the data offset 5 and zeros in the reserved bits, the checksum and the urgent
pointer. -/
structure IsPlainTcp (p : Nat → UInt8) : Prop where
  offset : (p 12).toNat / 16 = 5
  reserved : (p 12).toNat / 2 % 8 = 0
  checksum : p 16 = 0 ∧ p 17 = 0
  urgent : p 18 = 0 ∧ p 19 = 0

theorem toNat_load16 (s : Stack) (p : Ptr) (k : Nat) :
    ((load16 (p.add (UInt64.ofNat k))).val s).toNat =
      (s.byte p k).toNat * 256 + (s.byte p (k + 1)).toNat := by
  have hload : (load16 (p.add (UInt64.ofNat k))).val s =
      ((s.byte p k).toUInt16 <<< 8) ||| (s.byte p (k + 1)).toUInt16 := by
    rw [← byte_add]
    rfl
  have hhigh := (s.byte p k).toNat_lt
  have hlow := (s.byte p (k + 1)).toNat_lt
  rw [hload, UInt16.toNat_or, UInt16.toNat_shiftLeft, UInt8.toNat_toUInt16, UInt8.toNat_toUInt16,
    show (8 : UInt16).toNat % 16 = 8 from rfl, Nat.shiftLeft_eq, Nat.mod_eq_of_lt (by omega), Nat.mul_comm,
    ← Nat.two_pow_add_eq_or_of_lt hlow]

theorem holds_load16 (s : Stack) (p : Ptr) (k : Nat) :
    Holds s p k (bytes16 ((load16 (p.add (UInt64.ofNat k))).val s)) := by
  have hword := toNat_load16 s p k
  generalize (load16 (p.add (UInt64.ofNat k))).val s = w at hword ⊢
  have hhigh := (s.byte p k).toNat_lt
  have hlow := (s.byte p (k + 1)).toNat_lt
  have hshift : (w >>> 8).toNat = w.toNat / 2 ^ 8 := by
    rw [UInt16.toNat_shiftRight]
    exact Nat.shiftRight_eq_div_pow _ 8
  have hand : (w &&& 0xFF).toNat = w.toNat % 2 ^ 8 := by
    rw [UInt16.toNat_and]
    exact Nat.and_two_pow_sub_one_eq_mod _ 8
  refine ⟨?_, ?_, trivial⟩
  · rw [← UInt8.toNat_inj, UInt16.toNat_toUInt8, hshift]
    omega
  · rw [← UInt8.toNat_inj, UInt16.toNat_toUInt8, hand]
    omega

theorem holds_load32 (s : Stack) (p : Ptr) (k : Nat) :
    Holds s p k (bytes32 ((load32 (p.add (UInt64.ofNat k))).val s)) := by
  rw [bytes32_load32]
  exact ⟨rfl, rfl, rfl, rfl, trivial⟩

theorem load16_eq_zero {s : Stack} {p : Ptr} {k : Nat} (h0 : s.byte p k = 0) (h1 : s.byte p (k + 1) = 0) :
    (load16 (p.add (UInt64.ofNat k))).val s = 0 := by
  rw [← UInt16.toNat_inj, toNat_load16, h0, h1]
  rfl

theorem holds_plainTcp {t : Stack} {p : Ptr} (h : IsPlainTcp (t.byte p)) :
    ∃ (srcPort dstPort : UInt16) (seq ack : UInt32) (flags window : UInt16),
      Holds t p 0 (tcpBytes srcPort dstPort seq ack (((5 : UInt16) <<< 12) ||| (flags &&& 0x01FF))
        window 0 0) := by
  have hword := toNat_load16 t p 12
  have hlow := (t.byte p (12 + 1)).toNat_lt
  have hoffset := h.offset
  have hreserved := h.reserved
  have hflags : ((5 : UInt16) <<< 12) ||| ((load16 (p.add (UInt64.ofNat 12))).val t &&& 0x01FF) =
      (load16 (p.add (UInt64.ofNat 12))).val t := by
    rw [← UInt16.toNat_inj, toNat_offsetAndFlags]
    omega
  have hcsum := load16_eq_zero h.checksum.1 h.checksum.2
  have hurgent := load16_eq_zero h.urgent.1 h.urgent.2
  have hsixteen := holds_load16 t p 16
  have heighteen := holds_load16 t p 18
  rw [hcsum] at hsixteen
  rw [hurgent] at heighteen
  refine ⟨(load16 (p.add (UInt64.ofNat 0))).val t, (load16 (p.add (UInt64.ofNat 2))).val t,
    (load32 (p.add (UInt64.ofNat 4))).val t, (load32 (p.add (UInt64.ofNat 8))).val t,
    (load16 (p.add (UInt64.ofNat 12))).val t, (load16 (p.add (UInt64.ofNat 14))).val t, ?_⟩
  unfold tcpBytes
  rw [hflags]
  simp only [holds_append, List.length_append, length_bytes16, length_bytes32, Nat.zero_add, Nat.reduceAdd]
  exact ⟨⟨⟨⟨⟨⟨⟨holds_load16 t p 0, holds_load16 t p 2⟩, holds_load32 t p 4⟩, holds_load32 t p 8⟩,
    holds_load16 t p 12⟩, holds_load16 t p 14⟩, hsixteen⟩, heighteen⟩

theorem Holds.unique {s t : Stack} {p q : Ptr} {bs : List UInt8} (hs : Holds s p 0 bs) (ht : Holds t q 0 bs)
    {k : Nat} (hk : k < bs.length) : s.byte p k = t.byte q k := by
  rw [holds_iff] at hs ht
  have hs := hs k hk
  have ht := ht k hk
  rw [Nat.zero_add] at hs ht
  rw [hs, ht]

/-- **A plain TCP header is rebuilt from its fields.** -/
theorem buildTcp_parseTcp {s t : Stack} {buf src : Ptr} {len : UInt64} (hlen : 20 ≤ len.toNat)
    (h : IsPlainTcp (t.byte src)) :
    let hdr := (parseTcp src len).val t
    ∀ k < 20, ((buildTcp buf hdr.srcPort hdr.dstPort hdr.seqNum hdr.ackNum hdr.flags hdr.window).next s).byte
      buf k = t.byte src k := by
  obtain ⟨srcPort, dstPort, seq, ack, flags, window, hold⟩ := holds_plainTcp h
  let word : UInt16 := ((5 : UInt16) <<< 12) ||| (flags &&& 0x01FF)
  have hword : ((5 : UInt16) <<< 12) ||| ((word &&& 0x01FF) &&& 0x01FF) = word := by
    rw [← UInt16.toNat_inj, toNat_offsetAndFlags, toNat_offsetAndFlags, flags_offsetAndFlags, Nat.mod_mod]
  rw [parseTcp_of_holds hlen hold]
  intro hdr k hk
  have hbuilt := holds_buildTcp s buf srcPort dstPort seq ack (word &&& 0x01FF) window
  rw [hword] at hbuilt
  exact hbuilt.unique hold hk

/-! ### Inversion -/

/-- The first `n` bytes at the pointer are the same in both states. -/
def SameBytes (p : Ptr) (n : Nat) (s t : Stack) : Prop :=
  ∀ k < n, t.byte p k = s.byte p k

theorem Holds.same {s t : Stack} {p : Ptr} {bs : List UInt8} (h : Holds s p 0 bs)
    (hsame : SameBytes p bs.length s t) : Holds t p 0 bs :=
  h.congr fun i _ hi => hsame i (by omega)

/-- **Parsers invert builders.** Whatever becomes of the bytes behind it, a header is parsed as it was built,
and a plain TCP header is built as it was parsed.  A builder writes its own header and nothing else. -/
theorem parsers_invert_builders (s : Stack) (buf : Ptr) :
    (∀ (dst src : Mac) (ethertype : UInt16) (t : Stack) (len : UInt32), 14 ≤ len.toNat →
      SameBytes buf 14 ((ethBuild buf dst src ethertype).next s) t →
      (ethParse buf len).val t = ⟨dst, src, ethertype⟩) ∧
    (∀ (srcIp dstIp : UInt32) (protocol : UInt8) (payloadLen : UInt16) (t : Stack) (len : UInt32),
      payloadLen.toNat ≤ 65507 → 20 ≤ len.toNat →
      SameBytes buf 20 ((ipBuild buf srcIp dstIp protocol payloadLen).next s) t →
      let hdr := (ipParse buf len).val t
      hdr.srcIp = srcIp ∧ hdr.dstIp = dstIp ∧ hdr.protocol = protocol ∧ hdr.ttl = 64 ∧ hdr.ihl = 20 ∧
        hdr.totalLen.toNat = 20 + payloadLen.toNat) ∧
    (∀ (srcPort dstPort payloadLen : UInt16) (t : Stack) (len : UInt32),
      payloadLen.toNat ≤ 65507 → 8 ≤ len.toNat →
      SameBytes buf 8 ((udpBuild buf srcPort dstPort payloadLen).next s) t →
      let hdr := (udpParse buf len).val t
      hdr.srcPort = srcPort ∧ hdr.dstPort = dstPort ∧ hdr.length.toNat = 8 + payloadLen.toNat) ∧
    (∀ (srcPort dstPort : UInt16) (seq ack : UInt32) (flags window : UInt16) (t : Stack) (len : UInt64),
      20 ≤ len.toNat →
      SameBytes buf 20 ((buildTcp buf srcPort dstPort seq ack flags window).next s) t →
      let hdr := (parseTcp buf len).val t
      hdr.srcPort = srcPort ∧ hdr.dstPort = dstPort ∧ hdr.seqNum = seq ∧ hdr.ackNum = ack ∧
        hdr.dataOffset = 5 ∧ hdr.flags.toNat = flags.toNat % 512 ∧ hdr.window = window ∧
        hdr.checksum = 0 ∧ hdr.urgent = 0) ∧
    (∀ (t : Stack) (src : Ptr) (len : UInt64), 20 ≤ len.toNat → IsPlainTcp (t.byte src) →
      let hdr := (parseTcp src len).val t
      ∀ k < 20, ((buildTcp buf hdr.srcPort hdr.dstPort hdr.seqNum hdr.ackNum hdr.flags hdr.window).next
        s).byte buf k = t.byte src k) ∧
    (∀ dst src ethertype, WritesOnly (ethBuild buf dst src ethertype) buf 14 s) ∧
    (∀ srcIp dstIp protocol payloadLen, WritesOnly (ipBuild buf srcIp dstIp protocol payloadLen) buf 20 s) ∧
    (∀ srcPort dstPort payloadLen, WritesOnly (udpBuild buf srcPort dstPort payloadLen) buf 8 s) ∧
    (∀ srcPort dstPort seq ack flags window,
      WritesOnly (buildTcp buf srcPort dstPort seq ack flags window) buf 20 s) := by
  refine ⟨?_, ?_, ?_, ?_, ?_, writesOnly_ethBuild s buf, writesOnly_ipBuild s buf, writesOnly_udpBuild s buf,
    writesOnly_buildTcp s buf⟩
  · intro dst src ethertype t len hlen hsame
    exact ethParse_of_holds hlen ((holds_ethBuild s buf dst src ethertype).same hsame)
  · intro srcIp dstIp protocol payloadLen t len hpayload hlen hsame
    obtain ⟨csum, hold⟩ := holds_ipBuild s buf srcIp dstIp protocol payloadLen
    have htotal : (20 + payloadLen).toNat = 20 + payloadLen.toNat := by
      rw [UInt16.toNat_add, show (20 : UInt16).toNat = 20 from rfl]
      omega
    rw [ipParse_of_holds hlen (hold.same hsame)]
    exact ⟨rfl, rfl, rfl, rfl, rfl, htotal⟩
  · intro srcPort dstPort payloadLen t len hpayload hlen hsame
    have hlength : (8 + payloadLen).toNat = 8 + payloadLen.toNat := by
      rw [UInt16.toNat_add, show (8 : UInt16).toNat = 8 from rfl]
      omega
    rw [udpParse_of_holds hlen ((holds_udpBuild s buf srcPort dstPort payloadLen).same hsame)]
    exact ⟨rfl, rfl, hlength⟩
  · intro srcPort dstPort seq ack flags window t len hlen hsame
    rw [parseTcp_of_holds hlen ((holds_buildTcp s buf srcPort dstPort seq ack flags window).same hsame)]
    exact ⟨rfl, rfl, rfl, rfl, dataOffset_offsetAndFlags flags, flags_offsetAndFlags flags, rfl, rfl, rfl⟩
  · intro t src len hlen hplain
    exact buildTcp_parseTcp hlen hplain

/-- A memory with a TCP header whose fields are all zero. -/
def Stack.plain : Stack :=
  { Stack.quiet with tcp := { Stack.quiet.tcp with mem := fun a => if a = 0x100C then 0x50 else 0 } }

/-- A header for 100 bytes from the gateway, and a plain header of TCP that is rebuilt. -/
theorem parsers_invert_builders_quiet :
    let buf : Ptr := ⟨.other, 0x1000, 0⟩
    let hdr := (parseTcp buf 20).val Stack.plain
    ((ipParse buf 20).val ((ipBuild buf 0x0A000202 0x0A00020F 17 100).next Stack.quiet)).totalLen.toNat =
      120 ∧
      ((buildTcp buf hdr.srcPort hdr.dstPort hdr.seqNum hdr.ackNum hdr.flags hdr.window).next
        Stack.quiet).byte buf 12 = 0x50 := by
  intro buf hdr
  have h := parsers_invert_builders Stack.quiet buf
  have hplain : IsPlainTcp (Stack.plain.byte buf) := ⟨by decide, by decide, by decide, by decide⟩
  constructor
  · exact (h.2.1 0x0A000202 0x0A00020F 17 100 _ 20 (by decide) (by decide) fun _ _ => rfl).2.2.2.2.2
  · exact h.2.2.2.2.1 Stack.plain buf 20 (by decide) hplain 12 (by decide)

end Keuos.Net
