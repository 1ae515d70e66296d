import Keuos.Netd.Daemon

/-!
# The payload that the daemon hands out

`parse_headers` reads only inside the frame.  It checks that the two headers fit at their least size, but
takes the offset of the payload from the TCP header and its end from the length of the frame.  So the payload
is the one of the packet if and only if the TCP header is at least 20 bytes long and fits the frame, and the
frame has no padding.

## Main results

* `parseHeaders_cases`: what `parse_headers` returns for a frame that it accepts, and for any other, and that
  it reads inside the frame.
* `payload_confined_iff`: when the payload is that of the packet.
-/

namespace Keuos.Netd.Daemon

open Traced

/-! ### Frames -/

/-- The bytes from an address on. -/
def bytesAt (m : Mem) (base : UInt64) (i : Nat) : UInt8 := m (base + UInt64.ofNat i)

/-- The length of the IPv4 header. -/
def headerLen (f : Nat → UInt8) : Nat := (f 14).toNat % 16 * 4

/-- The length of the TCP header. -/
def dataLen (f : Nat → UInt8) : Nat := (f (26 + headerLen f)).toNat / 16 * 4

/-- The total length in the IPv4 header. -/
def totalLen (f : Nat → UInt8) : Nat := (f 16).toNat * 256 + (f 17).toNat

/-- The frames that are not dropped.  The type is compared with its low byte first. -/
structure Accepted (f : Nat → UInt8) (n : Nat) : Prop where
  ethertype : f 12 = 0x00 ∧ f 13 = 0x08
  header : 20 ≤ headerLen f
  protocol : f 23 = 6
  length : 34 + headerLen f ≤ n

/-- The bytes from `off` on are payload of the TCP segment in the frame. -/
structure InPayload (f : Nat → UInt8) (n off len : Nat) : Prop where
  start : 14 + headerLen f + 20 ≤ off
  frame : off + len ≤ n
  packet : off + len ≤ 14 + totalLen f

/-- Bytes of the frame are read. -/
def ReadsIn (base : UInt64) (n : Nat) (e : Event) : Prop :=
  ∃ i k, i + k ≤ n ∧ e = .read (base + UInt64.ofNat i) k

section Parse
variable {m : Mem} {base : UInt64}

@[simp] theorem val_load8 (a : UInt64) : (load8 a).val m = m a := rfl
@[simp] theorem next_load8 (a : UInt64) : (load8 a).next m = m := rfl
@[simp] theorem next_load16 (a : UInt64) : (load16 a).next m = m := rfl
@[simp] theorem next_load32 (a : UInt64) : (load32 a).next m = m := rfl
@[simp] theorem next_load64 (a : UInt64) : (load64 a).next m = m := rfl

section Reads
variable {n i : Nat}

theorem reads_load8 (h : i + 1 ≤ n) : All (ReadsIn base n) (load8 (base + UInt64.ofNat i)) m := by
  intro e he
  exact ⟨i, _, h, List.mem_singleton.mp he⟩

theorem reads_load16 (h : i + 2 ≤ n) : All (ReadsIn base n) (load16 (base + UInt64.ofNat i)) m := by
  intro e he
  exact ⟨i, _, h, List.mem_singleton.mp he⟩

theorem reads_load32 (h : i + 4 ≤ n) : All (ReadsIn base n) (load32 (base + UInt64.ofNat i)) m := by
  intro e he
  exact ⟨i, _, h, List.mem_singleton.mp he⟩

end Reads

theorem toNat_load16 (i : Nat) :
    ((load16 (base + UInt64.ofNat i)).val m).toNat =
      (bytesAt m base i).toNat + (bytesAt m base (i + 1)).toNat * 256 := by
  have h0 := (bytesAt m base i).toNat_lt
  have h1 := (bytesAt m base (i + 1)).toNat_lt
  have hval : (load16 (base + UInt64.ofNat i)).val m =
      UInt16.ofNat ((bytesAt m base i).toNat + (bytesAt m base (i + 1)).toNat * 256) := by
    unfold bytesAt load16 Mem.byteAt val
    simp only [UInt64.add_assoc, ← UInt64.ofNat_add, Nat.add_zero]
  rw [hval, UInt16.toNat_ofNat']
  omega

theorem ethertype_iff :
    (load16 (base + 12)).val m = ethertypeIpv4 ↔ bytesAt m base 12 = 0x00 ∧ bytesAt m base 13 = 0x08 := by
  have hword : ((load16 (base + 12)).val m).toNat =
      (bytesAt m base 12).toNat + (bytesAt m base 13).toNat * 256 := toNat_load16 12
  have h0 := (bytesAt m base 12).toNat_lt
  have h1 := (bytesAt m base 13).toNat_lt
  rw [← UInt16.toNat_inj, ← UInt8.toNat_inj, ← UInt8.toNat_inj, hword,
    show ethertypeIpv4.toNat = 2048 from rfl, show (0x00 : UInt8).toNat = 0 from rfl,
    show (0x08 : UInt8).toNat = 8 from rfl]
  omega

theorem toNat_ihl (b : UInt8) : ((b &&& 0x0F).toUInt32 * 4).toNat = b.toNat % 16 * 4 := by
  have hand : (b &&& 0x0F).toNat = b.toNat % 16 := by
    rw [UInt8.toNat_and]
    exact Nat.and_two_pow_sub_one_eq_mod _ 4
  rw [UInt32.toNat_mul, UInt8.toNat_toUInt32, hand, show (4 : UInt32).toNat = 4 from rfl]
  omega

theorem toNat_dataOff (b : UInt8) : (((b >>> 4) &&& 0x0F).toUInt32 * 4).toNat = b.toNat / 16 * 4 := by
  have hshift : (b >>> 4).toNat = b.toNat / 16 := by
    rw [UInt8.toNat_shiftRight]
    exact Nat.shiftRight_eq_div_pow _ 4
  have hb := b.toNat_lt
  rw [toNat_ihl, hshift]
  omega

theorem parseTcpFields_spec {ipIhl frameLen : UInt32} (hihl : ipIhl.toNat = headerLen (bytesAt m base)) :
    let info := (parseTcpFields (base + UInt64.ofNat (14 + headerLen (bytesAt m base))) ipIhl frameLen).val m
    info.valid = 1 ∧
      info.payloadOffset.toNat = 14 + headerLen (bytesAt m base) + dataLen (bytesAt m base) ∧
      info.payloadLen.toNat = frameLen.toNat - info.payloadOffset.toNat := by
  intro info
  have hlow : headerLen (bytesAt m base) ≤ 60 := by
    unfold headerLen
    omega
  have hdata : dataLen (bytesAt m base) ≤ 60 := by
    have := (bytesAt m base (26 + headerLen (bytesAt m base))).toNat_lt
    unfold dataLen
    omega
  have hbyte : m (base + UInt64.ofNat (14 + headerLen (bytesAt m base)) + 12) =
      bytesAt m base (26 + headerLen (bytesAt m base)) := by
    unfold bytesAt
    rw [UInt64.add_assoc, show (12 : UInt64) = UInt64.ofNat 12 from rfl, ← UInt64.ofNat_add,
      show 14 + headerLen (fun i => m (base + UInt64.ofNat i)) + 12 =
        26 + headerLen (fun i => m (base + UInt64.ofNat i)) by omega]
  have hoff : info.payloadOffset.toNat = 14 + headerLen (bytesAt m base) + dataLen (bytesAt m base) := by
    show (ethHeaderSize + ipIhl + (((m (base + UInt64.ofNat (14 + headerLen (bytesAt m base)) + 12) >>> 4) &&&
      0x0F).toUInt32 * 4)).toNat = _
    rw [UInt32.toNat_add, UInt32.toNat_add, toNat_dataOff, hihl, hbyte,
      show ethHeaderSize.toNat = 14 from rfl]
    show (_ + dataLen (bytesAt m base)) % 2 ^ 32 = _
    omega
  refine ⟨rfl, hoff, ?_⟩
  show (if frameLen > info.payloadOffset then frameLen - info.payloadOffset else 0).toNat = _
  by_cases hlt : frameLen > info.payloadOffset
  · rw [if_pos hlt]
    exact UInt32.toNat_sub_of_le _ _ (UInt32.le_of_lt hlt)
  · rw [if_neg hlt]
    have hle := UInt32.le_iff_toNat_le.mp (UInt32.not_lt.mp hlt)
    show 0 = _
    omega

theorem reads_parseTcpFields {k n : Nat} (h : k + 20 ≤ n) (ipIhl frameLen : UInt32) :
    All (ReadsIn base n) (parseTcpFields (base + UInt64.ofNat k) ipIhl frameLen) m := by
  have hfield : ∀ j, base + UInt64.ofNat k + UInt64.ofNat j = base + UInt64.ofNat (k + j) := by
    intro j
    rw [UInt64.add_assoc, ← UInt64.ofNat_add]
  have hstart : base + UInt64.ofNat k + 0 = base + UInt64.ofNat (k + 0) := hfield 0
  have hdst : base + UInt64.ofNat k + 2 = base + UInt64.ofNat (k + 2) := hfield 2
  have hseq : base + UInt64.ofNat k + 4 = base + UInt64.ofNat (k + 4) := hfield 4
  have hack : base + UInt64.ofNat k + 8 = base + UInt64.ofNat (k + 8) := hfield 8
  have hflags : base + UInt64.ofNat k + 13 = base + UInt64.ofNat (k + 13) := hfield 13
  have hdata : base + UInt64.ofNat k + 12 = base + UInt64.ofNat (k + 12) := hfield 12
  unfold parseTcpFields
  rw [hstart, hdst, hseq, hack, hflags, hdata]
  simp only [all_bind, all_pure, and_true]
  exact ⟨reads_load16 (by omega), reads_load16 (by omega), reads_load32 (by omega), reads_load32 (by omega),
    reads_load8 (by omega), reads_load8 (by omega)⟩

/-- **What `parse_headers` returns**, and that it reads inside the frame. -/
theorem parseHeaders_cases (m : Mem) (base : UInt64) (frameLen : UInt32) :
    let f := bytesAt m base
    let info := (parseHeaders base frameLen).val m
    All (ReadsIn base frameLen.toNat) (parseHeaders base frameLen) m ∧
      (parseHeaders base frameLen).next m = m ∧
      (¬Accepted f frameLen.toNat ∧ info = .invalid ∨
        Accepted f frameLen.toNat ∧ info.valid = 1 ∧
          info.payloadOffset.toNat = 14 + headerLen f + dataLen f ∧
          info.payloadLen.toNat = frameLen.toNat - info.payloadOffset.toNat) := by
  intro f info
  have hlow : headerLen f ≤ 60 := by
    unfold headerLen
    omega
  unfold info parseHeaders
  -- A frame below 54 bytes is refused: the least headers do not fit.
  by_cases hshort : frameLen < minTotalHeader
  · rw [if_pos hshort]
    refine ⟨all_pure _ _, rfl, .inl ⟨?_, rfl⟩⟩
    intro hacc
    have := UInt32.lt_iff_toNat_lt.mp hshort
    have := hacc.length
    have := hacc.header
    have : minTotalHeader.toNat = 54 := rfl
    omega
  rw [if_neg hshort]
  have hlong : 54 ≤ frameLen.toNat := UInt32.le_iff_toNat_le.mp (UInt32.not_lt.mp hshort)
  have htype : All (ReadsIn base frameLen.toNat) (load16 (base + UInt64.ofNat 12)) m :=
    reads_load16 (by omega)
  rw [all_bind, next_bind, val_bind, next_load16]
  by_cases hether : (load16 (base + 12)).val m = ethertypeIpv4
  swap
  · rw [if_pos (by simpa using hether)]
    exact ⟨⟨htype, all_pure _ _⟩, rfl, .inl ⟨fun hacc => hether (ethertype_iff.mpr hacc.ethertype), rfl⟩⟩
  rw [if_neg (by simp [hether])]
  have hfirst : All (ReadsIn base frameLen.toNat) (load8 (base + ethHeaderSize.toUInt64)) m :=
    reads_load8 (show 14 + 1 ≤ _ by omega)
  have hihl : ((m (base + ethHeaderSize.toUInt64) &&& 0x0F).toUInt32 * 4).toNat = headerLen f := toNat_ihl _
  dsimp only
  rw [all_bind, next_bind, val_bind, next_load8, val_load8]
  generalize (m (base + ethHeaderSize.toUInt64) &&& 0x0F).toUInt32 * 4 = ipIhl at hihl ⊢
  -- The length of the IPv4 header is what the frame says; below 20 it is refused.
  by_cases hheader : ipIhl < minIpv4HeaderSize
  · rw [if_pos hheader]
    refine ⟨⟨htype, hfirst, all_pure _ _⟩, rfl, .inl ⟨?_, rfl⟩⟩
    intro hacc
    have := UInt32.lt_iff_toNat_lt.mp hheader
    have := hacc.header
    have : minIpv4HeaderSize.toNat = 20 := rfl
    omega
  rw [if_neg hheader]
  have hleast : 20 ≤ ipIhl.toNat := UInt32.le_iff_toNat_le.mp (UInt32.not_lt.mp hheader)
  have hproto : All (ReadsIn base frameLen.toNat) (load8 (base + ethHeaderSize.toUInt64 + 9)) m := by
    have hplace : base + ethHeaderSize.toUInt64 + 9 = base + UInt64.ofNat 23 := by
      rw [UInt64.add_assoc]
      rfl
    rw [hplace]
    exact reads_load8 (by omega)
  have hbyte : m (base + ethHeaderSize.toUInt64 + 9) = f 23 := by
    show _ = m (base + UInt64.ofNat 23)
    rw [UInt64.add_assoc]
    rfl
  rw [all_bind, next_bind, val_bind, next_load8, val_load8, hbyte]
  by_cases htcp : f 23 = ipProtoTcp
  swap
  · rw [if_pos (by simpa using htcp)]
    exact ⟨⟨htype, hfirst, hproto, all_pure _ _⟩, rfl, .inl ⟨fun hacc => htcp hacc.protocol, rfl⟩⟩
  rw [if_neg (by simp [htcp])]
  -- Beyond the IPv4 header only the 20 bytes of the least TCP header are asked for.
  have hend : (ethHeaderSize + ipIhl + minTcpHeaderSize).toNat = 34 + headerLen f := by
    rw [UInt32.toNat_add, UInt32.toNat_add, hihl, show ethHeaderSize.toNat = 14 from rfl,
      show minTcpHeaderSize.toNat = 20 from rfl]
    omega
  by_cases hcut : frameLen < ethHeaderSize + ipIhl + minTcpHeaderSize
  · rw [if_pos hcut]
    refine ⟨⟨htype, hfirst, hproto, all_pure _ _⟩, rfl, .inl ⟨?_, rfl⟩⟩
    intro hacc
    have := UInt32.lt_iff_toNat_lt.mp hcut
    have := hacc.length
    omega
  rw [if_neg hcut]
  have hfits : 34 + headerLen f ≤ frameLen.toNat :=
    hend ▸ UInt32.le_iff_toNat_le.mp (UInt32.not_lt.mp hcut)
  have hstart : base + ethHeaderSize.toUInt64 + ipIhl.toUInt64 = base + UInt64.ofNat (14 + headerLen f) := by
    have hword : ipIhl.toUInt64 = UInt64.ofNat (headerLen f) := by
      rw [← hihl, ← UInt32.toNat_toUInt64, UInt64.ofNat_toNat]
    rw [UInt64.add_assoc, hword, show ethHeaderSize.toUInt64 = UInt64.ofNat 14 from rfl, ← UInt64.ofNat_add]
  rw [hstart]
  exact ⟨⟨htype, hfirst, hproto, reads_parseTcpFields (by omega) ipIhl frameLen⟩, rfl,
    .inr ⟨⟨ethertype_iff.mp hether, hihl ▸ hleast, htcp, hfits⟩, parseTcpFields_spec hihl⟩⟩

end Parse

/-! ### Confinement -/

/-- A payload that is handed out is payload of the frame. -/
def PushesIn (f : Nat → UInt8) (base : UInt64) (n : Nat) (e : Event) : Prop :=
  ∀ ring payload len, e = .push ring payload len →
    ∃ off, payload = base + UInt64.ofNat off ∧ InPayload f n off len.toNat

/-- The reads of `parse_headers` are inside the frame, and what it returns and what `process_frame` hands out
is the payload of the TCP segment. -/
structure Confined (m : Mem) (base : UInt64) (frameLen : UInt32) (streams : UInt64) : Prop where
  reads : All (ReadsIn base frameLen.toNat) (parseHeaders base frameLen) m
  payload : ((parseHeaders base frameLen).val m).valid = 1 →
    InPayload (bytesAt m base) frameLen.toNat ((parseHeaders base frameLen).val m).payloadOffset.toNat
      ((parseHeaders base frameLen).val m).payloadLen.toNat
  pushes : All (PushesIn (bytesAt m base) base frameLen.toNat) (processFrame base frameLen streams) m

section Push
variable {f : Nat → UInt8} {base : UInt64} {n : Nat}

theorem PushesIn.of_readsIn {e : Event} (h : ReadsIn base n e) : PushesIn f base n e := by
  obtain ⟨i, k, -, rfl⟩ := h
  intro ring payload len heq
  cases heq

theorem pushesIn_load64 (a : UInt64) (m : Mem) : All (PushesIn f base n) (load64 a) m := by
  intro e he ring payload len heq
  obtain rfl := List.mem_singleton.mp he
  cases heq

theorem pushesIn_store64 (a v : UInt64) (m : Mem) : All (PushesIn f base n) (store64 a v) m := by
  intro e he ring payload len heq
  obtain rfl := List.mem_singleton.mp he
  cases heq

theorem pushesIn_ringPush {off : Nat} {len : UInt64} (h : InPayload f n off len.toNat)
    (ring : UInt64) (m : Mem) :
    All (PushesIn f base n) (ringPush ring (base + UInt64.ofNat off) len) m := by
  have hpush : PushesIn f base n (.push ring (base + UInt64.ofNat off) len) := by
    rintro _ _ _ ⟨⟩
    exact ⟨off, rfl, h⟩
  unfold ringPush
  simp only [all_bind, all_ite, all_pure, all_emit]
  refine ⟨pushesIn_load64 _ _, pushesIn_load64 _ _, pushesIn_load64 _ _, ?_⟩
  split
  · trivial
  · exact ⟨pushesIn_store64 _ _ _, hpush, pushesIn_store64 _ _ _, trivial⟩

end Push

theorem inPayload_iff {f : Nat → UInt8} {n off len : Nat} (hoff : off = 14 + headerLen f + dataLen f)
    (hlen : len = n - off) :
    InPayload f n off len ↔ 20 ≤ dataLen f ∧ 14 + headerLen f + dataLen f ≤ n ∧ n ≤ 14 + totalLen f := by
  constructor
  · rintro ⟨hstart, hframe, hpacket⟩
    omega
  · rintro ⟨hdata, hfits, htotal⟩
    exact ⟨by omega, by omega, by omega⟩

/-- **The payload that is handed out is that of the TCP segment** if and only if the TCP header of an accepted
frame is at least 20 bytes long and fits the frame, and the frame ends where the packet does. -/
theorem payload_confined_iff (m : Mem) (base : UInt64) (frameLen : UInt32) (streams : UInt64) :
    Confined m base frameLen streams ↔
      (Accepted (bytesAt m base) frameLen.toNat →
        20 ≤ dataLen (bytesAt m base) ∧
          14 + headerLen (bytesAt m base) + dataLen (bytesAt m base) ≤ frameLen.toNat ∧
          frameLen.toNat ≤ 14 + totalLen (bytesAt m base)) := by
  obtain ⟨hreads, hnext, hcases⟩ := parseHeaders_cases m base frameLen
  have hquiet : All (PushesIn (bytesAt m base) base frameLen.toNat) (parseHeaders base frameLen) m :=
    fun e he => .of_readsIn (hreads e he)
  rcases hcases with ⟨hnot, hinvalid⟩ | ⟨hacc, hvalid, hoff, hlen⟩
  · -- A frame that is dropped hands out nothing.
    refine iff_of_true ⟨hreads, ?_, ?_⟩ fun hacc => absurd hacc hnot
    · intro hvalid
      rw [hinvalid] at hvalid
      exact absurd hvalid (by decide)
    · unfold processFrame
      rw [all_bind, hinvalid]
      exact ⟨hquiet, all_pure _ _⟩
  · have hiff := inPayload_iff hoff hlen
    constructor
    · intro h _
      exact hiff.mp (h.payload hvalid)
    · intro h
      have hin := hiff.mpr (h hacc)
      refine ⟨hreads, fun _ => hin, ?_⟩
      have hplace : base + ((parseHeaders base frameLen).val m).payloadOffset.toUInt64 =
          base + UInt64.ofNat ((parseHeaders base frameLen).val m).payloadOffset.toNat := by
        rw [← UInt32.toNat_toUInt64, UInt64.ofNat_toNat]
      unfold processFrame
      rw [all_bind]
      refine ⟨hquiet, ?_⟩
      rw [if_neg (by rw [hvalid]; decide), all_bind]
      refine ⟨pushesIn_load64 _ _, ?_⟩
      split
      · exact all_pure _ _
      · rw [all_bind, hplace]
        refine ⟨pushesIn_ringPush ?_ _ _, all_pure _ _⟩
        rwa [UInt32.toNat_toUInt64]

/-- A frame whose TCP header claims to have no bytes. -/
def headless : Mem := fun a =>
  if a = 13 then 0x08 else if a = 14 then 0x45 else if a = 17 then 40 else if a = 23 then 6 else 0

/-- Its payload begins where the TCP header does. -/
theorem not_payload_confined : ¬∀ m base frameLen streams, Confined m base frameLen streams := by
  intro h
  have hacc : Accepted (bytesAt headless 0) 54 := ⟨by decide, by decide, by decide, by decide⟩
  rcases (parseHeaders_cases headless 0 54).2.2 with ⟨hnot, -⟩ | ⟨-, hvalid, hoff, hlen⟩
  · exact hnot hacc
  · have hdata := (inPayload_iff hoff hlen).mp ((h headless 0 54 0x1000).payload hvalid)
    exact absurd hdata.1 (by decide)

end Keuos.Netd.Daemon
