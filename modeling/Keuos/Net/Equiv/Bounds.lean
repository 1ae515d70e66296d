import Keuos.Net.Equiv.Frames

/-!
# The bounds of a received packet

A handler is given a pointer into the packet and a length.  If the length is that of the rest of the packet,
its reads stay inside (`safe_*`).  `handle_ipv4` computes the length of the payload by a subtraction that
wraps around when the header claims to be longer than the packet, and `send_udp_reply` copies a payload of
any length.  Those are the packets that are left out by `Fits`, and `within_iff` says that there are no
others.
-/

namespace Keuos.Net

open Traced

/-- A read of the packet is within its `n` bytes, and a write to `TX_SCRATCH` within its 2048. -/
def Within (n : Nat) : Event → Prop
  | .read p => p.obj = .packet → p.off.toNat < n
  | .write p => p.obj = .scratch → p.off.toNat < 2048
  | _ => True

/-- `k` bytes of the packet can be read from `p` on. -/
def Readable (n : Nat) (p : Ptr) (k : Nat) : Prop :=
  p.obj = .packet → p.off.toNat + k ≤ n ∧ n < 2 ^ 64

/-- `k` bytes of `TX_SCRATCH` can be written from `p` on. -/
def Writable (p : Ptr) (k : Nat) : Prop :=
  p.obj = .scratch → p.off.toNat + k ≤ 2048

theorem safe_of_only {α : Type} {x : NetM α} (h : Only (· ≠ .packet) (· ≠ .scratch) x) (n : Nat)
    (s : Stack) : All (Within n) x s := by
  intro e he
  have haccess := (h s).2 e he
  cases e with
  | read p => exact fun hp => absurd hp haccess
  | write p => exact fun hp => absurd hp haccess
  | _ => exact haccess.elim

section Access

variable {n k : Nat} {p : Ptr} {s : Stack}

theorem Readable.mono {j : Nat} (h : Readable n p k) (hj : j ≤ k) : Readable n p j := by
  intro hp
  obtain ⟨hk, hn⟩ := h hp
  exact ⟨by omega, hn⟩

theorem Readable.add {i : UInt64} {j : Nat} (h : Readable n p k) (hj : i.toNat + j ≤ k) :
    Readable n (p.add i) j := by
  intro hp
  obtain ⟨hk, hn⟩ := h hp
  rw [Ptr.off_add, UInt64.toNat_add, Nat.mod_eq_of_lt (by omega)]
  exact ⟨by omega, hn⟩

theorem Writable.add {i : UInt64} {j : Nat} (h : Writable p k) (hj : i.toNat + j ≤ k) :
    Writable (p.add i) j := by
  intro hp
  have hk := h hp
  rw [Ptr.off_add, UInt64.toNat_add, Nat.mod_eq_of_lt (by omega)]
  omega

theorem safe_load (h : Readable n p 1) : All (Within n) (load p) s := by
  rw [all_load]
  intro hp
  have := (h hp).1
  omega

theorem safe_load16 (h : Readable n p 2) : All (Within n) (load16 p) s := by
  unfold load16
  simp only [all_bind, all_pure, and_true, next_load]
  exact ⟨safe_load (h.mono (by decide)), safe_load (h.add (by decide))⟩

theorem safe_load32 (h : Readable n p 4) : All (Within n) (load32 p) s := by
  unfold load32
  simp only [all_bind, all_pure, and_true, next_load]
  exact ⟨safe_load (h.mono (by decide)), safe_load (h.add (by decide)), safe_load (h.add (by decide)),
    safe_load (h.add (by decide))⟩

theorem safe_loadMac (h : Readable n p 6) : All (Within n) (loadMac p) s := by
  unfold loadMac
  simp only [all_bind, all_pure, and_true, next_load]
  exact ⟨safe_load (h.mono (by decide)), safe_load (h.add (by decide)), safe_load (h.add (by decide)),
    safe_load (h.add (by decide)), safe_load (h.add (by decide)), safe_load (h.add (by decide))⟩

theorem safe_store (h : Writable p 1) (v : UInt8) : All (Within n) (store p v) s := by
  rw [all_store]
  intro hp
  have := h hp
  omega

theorem safe_storeBytes {bs : List UInt8} (h : Writable p bs.length) : All (Within n)
    (storeBytes p bs) s := by
  induction bs generalizing p s with
  | nil => exact all_pure _ _
  | cons b bs ih =>
    rw [List.length_cons] at h
    unfold storeBytes
    rw [all_bind]
    refine ⟨safe_store (fun hp => ?_) b, ih (h.add ?_)⟩
    · have := h hp
      omega
    · change 1 + bs.length ≤ _
      omega

theorem safe_copyBytes {dst src : Ptr} (hR : Readable n src k) (hW : Writable dst k) :
    All (Within n) (copyBytes dst src k) s := by
  induction k generalizing dst src s with
  | zero => exact all_pure _ _
  | succ k ih =>
    unfold copyBytes
    rw [all_bind, all_bind]
    refine ⟨safe_load (hR.mono (by omega)), safe_store (fun hp => ?_) _, ih (hR.add ?_) (hW.add ?_)⟩
    · have := hW hp
      omega
    · change 1 + k ≤ _
      omega
    · change 1 + k ≤ _
      omega

theorem not_safe_copyBytes {dst src : Ptr} (hdst : dst.obj = .scratch) (hoff : dst.off.toNat ≤ 2048)
    (hk : 2048 < dst.off.toNat + k) : ¬All (Within n) (copyBytes dst src k) s := by
  induction k generalizing dst src s with
  | zero => omega
  | succ k ih =>
    unfold copyBytes
    rw [all_bind, all_bind]
    rintro ⟨-, hstore, hrest⟩
    rw [all_store] at hstore
    have hlt := hstore hdst
    have hnext : (dst.add 1).off.toNat = dst.off.toNat + 1 := by
      rw [Ptr.off_add, UInt64.toNat_add]
      change (dst.off.toNat + 1) % 2 ^ 64 = _
      omega
    exact ih (show (dst.add 1).obj = .scratch from hdst) (by omega) (by omega) hrest

end Access

/-! ### Parsers and builders -/

section Frames

variable {n : Nat} {buf : Ptr} {s : Stack}

theorem safe_ethParse {len : UInt32} (h : Readable n buf 14) : All (Within n) (ethParse buf len) s := by
  unfold ethParse
  split
  · exact all_pure _ _
  · simp only [all_bind, all_pure, and_true, next_loadMac]
    exact ⟨safe_loadMac (h.mono (by decide)), safe_loadMac (h.add (by decide)),
      safe_load16 (h.add (by decide))⟩

theorem safe_ipParse {len : UInt32} (h : Readable n buf 20) : All (Within n) (ipParse buf len) s := by
  unfold ipParse
  split
  · exact all_pure _ _
  · simp only [all_bind, all_pure, and_true, next_load, next_load16, next_load32]
    exact ⟨safe_load (h.mono (by decide)), safe_load16 (h.add (by decide)), safe_load (h.add (by decide)),
      safe_load (h.add (by decide)), safe_load32 (h.add (by decide)), safe_load32 (h.add (by decide))⟩

theorem safe_udpParse {len : UInt32} (h : Readable n buf len.toNat) : All (Within n)
    (udpParse buf len) s := by
  unfold udpParse
  split
  · exact all_pure _ _
  · next hlen =>
    have h8 : 8 ≤ len.toNat := UInt32.le_iff_toNat_le.mp (UInt32.not_lt.mp hlen)
    have h := h.mono h8
    simp only [all_bind, all_pure, and_true, next_load16]
    exact ⟨safe_load16 (h.mono (by decide)), safe_load16 (h.add (by decide)),
      safe_load16 (h.add (by decide))⟩

theorem safe_sumWords {len : UInt32} (h : Readable n buf len.toNat) (k : Nat) (i sum : UInt32)
    (hi : i.toNat % 2 = 0) : All (Within n) (sumWords buf len k i sum) s := by
  induction k generalizing i sum with
  | zero => exact all_pure _ _
  | succ k ih =>
    unfold sumWords
    split
    · next hlt =>
      have hi' := i.toNat_lt
      have hlen := len.toNat_lt
      have hone : (i + 1).toNat = i.toNat + 1 := by
        rw [UInt32.toNat_add]
        change (i.toNat + 1) % 2 ^ 32 = _
        omega
      have hnat := UInt32.lt_iff_toNat_lt.mp hlt
      have htwo : (i + 2).toNat = i.toNat + 2 := by
        rw [UInt32.toNat_add]
        change (i.toNat + 2) % 2 ^ 32 = _
        omega
      have hword : Readable n (buf.add i.toUInt64) 2 := h.add (by
        rw [UInt32.toNat_toUInt64]
        omega)
      simp only [all_bind, next_load]
      exact ⟨safe_load (hword.mono (by decide)), safe_load (hword.add (by decide)), ih _ _ (by omega)⟩
    · exact all_pure _ _

theorem safe_sumBytes {len : UInt32} (h : Readable n buf len.toNat) (sum : UInt32) :
    All (Within n) (sumBytes buf len sum) s := by
  unfold sumBytes
  rw [all_bind]
  refine ⟨safe_sumWords h _ 0 sum rfl, ?_⟩
  split
  · next hlt =>
    have hnat := UInt32.lt_iff_toNat_lt.mp hlt
    rw [all_bind]
    refine ⟨safe_load (h.add ?_), all_pure _ _⟩
    rw [UInt32.toNat_toUInt64]
    omega
  · exact all_pure _ _

theorem safe_checksum {len : UInt32} (h : Readable n buf len.toNat) : All (Within n)
    (checksum buf len) s := by
  unfold checksum
  rw [all_bind]
  exact ⟨safe_sumBytes h 0, all_pure _ _⟩

theorem safe_ethBuild (h : Writable buf 14) (dst src : Mac) (ethertype : UInt16) :
    All (Within n) (ethBuild buf dst src ethertype) s := by
  unfold ethBuild
  rw [all_bind]
  refine ⟨safe_storeBytes ?_, all_pure _ _⟩
  simpa [bytes16] using h

theorem safe_ipBuild (hR : Readable n buf 20) (hW : Writable buf 20) (srcIp dstIp : UInt32)
    (protocol : UInt8) (len : UInt16) : All (Within n) (ipBuild buf srcIp dstIp protocol len) s := by
  unfold ipBuild
  simp only [all_bind, all_pure, and_true]
  refine ⟨safe_storeBytes ?_, safe_checksum hR, safe_storeBytes (hW.add ?_)⟩
  · simpa [bytes16, bytes32] using hW
  · change 10 + 2 ≤ 20
    decide

theorem safe_udpBuild (h : Writable buf 8) (srcPort dstPort len : UInt16) :
    All (Within n) (udpBuild buf srcPort dstPort len) s := by
  unfold udpBuild
  rw [all_bind]
  refine ⟨safe_storeBytes ?_, all_pure _ _⟩
  simpa [bytes16] using h

theorem writable_other {p : Ptr} (h : p.obj = .other) (k : Nat) : Writable p k := by
  intro hp
  rw [h] at hp
  contradiction

theorem safe_txSend {len : UInt32} (h : Readable n buf len.toNat) : All (Within n) (txSend buf len) s := by
  unfold txSend
  rw [all_bind, val_get, next_get]
  refine ⟨all_get _, ?_⟩
  split
  · unfold rtlTxSend
    rw [all_bind]
    refine ⟨safe_of_only only_txDescriptor _ _, ?_⟩
    split
    · exact all_pure _ _
    · simp only [all_bind, all_pure, and_true]
      exact ⟨safe_of_only only_pmmAlloc _ _, safe_copyBytes h (writable_other rfl _)⟩
  · unfold netTxSend
    split
    · exact all_pure _ _
    · rw [all_bind]
      refine ⟨safe_of_only only_txDescriptor _ _, ?_⟩
      split
      · exact all_pure _ _
      · simp only [all_bind, all_pure, all_get, all_modify, and_true, true_and]
        exact ⟨safe_storeBytes (writable_other rfl _), safe_copyBytes h (writable_other rfl _)⟩

end Frames

/-! ### UDP -/

section Udp

variable {n : Nat} {s : Stack}

theorem safe_sendUdpReply_iff {payload : Ptr} {len : UInt32} (h : Readable n payload len.toNat)
    (dstIp : UInt32) (mac : Mac) (dstPort srcPort : UInt16) :
    All (Within n) (sendUdpReply dstIp mac dstPort srcPort payload len) s ↔ len.toNat ≤ 2006 := by
  have hframe : ∀ i k : Nat, i + k ≤ 2048 →
      Writable (Ptr.add ⟨.scratch, s.txScratch, 0⟩ (UInt64.ofNat i)) k := by
    intro i k hik _
    rw [Ptr.off_add, UInt64.zero_add, UInt64.toNat_ofNat_of_lt' (by change i < 2 ^ 64; omega)]
    exact hik
  have hread : ∀ i k, Readable n (Ptr.add ⟨.scratch, s.txScratch, 0⟩ i) k := by
    intro i k hp
    contradiction
  unfold sendUdpReply
  simp only [all_bind, all_pure, all_get, and_true, true_and, val_get, next_get]
  constructor
  · rintro ⟨-, -, -, hcopy, -⟩
    by_contra hlong
    apply not_safe_copyBytes _ _ _ hcopy
    · rfl
    · change 42 ≤ 2048
      decide
    · change 2048 < 42 + len.toNat
      omega
  · intro hshort
    refine ⟨safe_ethBuild ?_ _ _ _, safe_ipBuild (hread _ _) (hframe 14 20 (by decide)) _ _ _ _,
      safe_udpBuild (hframe 34 8 (by decide)) _ _ _, safe_copyBytes h (hframe 42 len.toNat (by omega)),
      safe_of_only (only_txSend (by simp) (by simp) _) _ _⟩
    intro _
    change 0 + 14 ≤ 2048
    decide

theorem safe_handleUdp_iff {buf : Ptr} {len : UInt32} (h : Readable n buf len.toNat) (srcIp : UInt32)
    (mac : Mac) : All (Within n) (handleUdp buf len srcIp mac) s ↔
      (((udpParse buf len).val s).dstPort = 7 → len.toNat ≤ 2014) := by
  unfold handleUdp
  rw [all_bind, next_udpParse]
  simp only [safe_udpParse h, true_and]
  by_cases hecho : ((udpParse buf len).val s).dstPort = 7
  · -- the port was read, so that there is a whole header
    have h8 : 8 ≤ len.toNat := by
      by_contra hshort
      unfold udpParse at hecho
      rw [if_pos (UInt32.lt_iff_toNat_lt.mpr (by change len.toNat < 8; omega)), val_pure] at hecho
      exact absurd hecho (by decide)
    have hsub : (len - 8).toNat = len.toNat - 8 :=
      UInt32.toNat_sub_of_le _ _ (UInt32.le_iff_toNat_le.mpr h8)
    have hpayload : Readable n (buf.add 8) (len - 8).toNat := h.add (by
      rw [hsub]
      change 8 + (len.toNat - 8) ≤ _
      omega)
    rw [if_neg (by simp [hecho]), if_pos (by simp [hecho]), all_bind, safe_sendUdpReply_iff hpayload, hsub]
    simp only [all_modify, and_true, hecho, true_implies]
    omega
  · by_cases hzero : ((udpParse buf len).val s).dstPort = 0
    · rw [if_pos (by simp [hzero])]
      simp [hecho]
    · rw [if_neg (by simp [hzero]), if_neg (by simp [hecho])]
      simp [hecho]

theorem not_safe_handleUdp {buf : Ptr} {len : UInt32} (hobj : buf.obj = .packet) (hlen : 8 ≤ len)
    (hoff : n ≤ buf.off.toNat) (srcIp : UInt32) (mac : Mac) :
    ¬All (Within n) (handleUdp buf len srcIp mac) s := by
  unfold handleUdp udpParse
  rw [all_bind, if_neg (UInt32.not_lt.mpr hlen), all_bind]
  rintro ⟨⟨hload, -⟩, -⟩
  unfold load16 at hload
  rw [all_bind, all_load] at hload
  have := hload.1 hobj
  omega

end Udp

/-! ### TCP -/

section Tcp

variable {n : Nat} {buf : Ptr} {len : UInt32} {s : Stack}

theorem safe_handleServerSyn (h : Readable n buf len.toNat) (srcIp : UInt32) :
    All (Within n) (handleServerSyn buf len srcIp) s := by
  unfold handleServerSyn
  split
  · exact all_pure _ _
  · next hlen =>
    have h20 : 20 ≤ len.toNat := UInt32.le_iff_toNat_le.mp (UInt32.not_lt.mp hlen)
    have h := h.mono h20
    rw [all_bind, all_bind, all_bind]
    refine ⟨safe_load16 (h.mono (by decide)), safe_load16 (h.add (by decide)), all_get _, ?_⟩
    dsimp only
    split
    · exact all_pure _ _
    · rw [all_bind, all_bind]
      refine ⟨safe_load32 (h.add (by decide)), all_call _ _, ?_⟩
      split
      · exact all_pure _ _
      · exact safe_of_only (only_serverSynAck (by decide) (by decide) _ _ _ _ _ _) _ _

theorem safe_copyIn {data recv : Ptr} {payloadLen : UInt32} (h : Readable n data payloadLen.toNat)
    (hrecv : recv.obj = .other) (head : UInt32) (k : Nat) (i : UInt32) :
    All (Within n) (copyIn data recv payloadLen head k i) s := by
  induction k generalizing i s with
  | zero => exact all_pure _ _
  | succ k ih =>
    unfold copyIn
    split
    · next hlt =>
      have hnat := UInt32.lt_iff_toNat_lt.mp (of_decide_eq_true (Bool.and_eq_true_iff.mp hlt).1)
      rw [all_bind, all_bind]
      refine ⟨safe_load (h.add ?_), safe_store (writable_other (p := recv.add _) hrecv 1) _, ih _⟩
      rw [UInt32.toNat_toUInt64]
      omega
    · exact all_pure _ _

theorem safe_tcpHandleIncoming (h : Readable n buf len.toNat) (srcIp : UInt32) :
    All (Within n) (tcpHandleIncoming buf len srcIp) s := by
  unfold tcpHandleIncoming
  split
  · exact all_pure _ _
  · next hlen =>
    have h20 : 20 ≤ len.toNat := UInt32.le_iff_toNat_le.mp (UInt32.not_lt.mp hlen)
    have hhdr := h.mono h20
    rw [all_bind, all_bind, all_bind, all_bind]
    refine ⟨safe_load16 (hhdr.mono (by decide)), safe_load16 (hhdr.add (by decide)),
      safe_load16 (hhdr.add (by decide)), all_get _, ?_⟩
    dsimp only
    split
    · simp only [all_bind, all_pure, and_true]
      exact ⟨safe_load32 (hhdr.add (by decide)), all_modify _ _⟩
    · split
      · simp only [all_bind, all_pure, and_true]
        exact all_modify _ _
      · split
        · simp only [all_bind, all_pure, and_true]
          -- the data are behind the header, if there are any
          unfold storeData
          split
          · next hdata =>
            rw [all_bind]
            refine ⟨all_get _, ?_⟩
            dsimp only
            split
            · rw [all_bind]
              refine ⟨safe_copyIn (h.add ?_) rfl _ _ _, all_modify _ _⟩
              rw [UInt32.toNat_sub_of_le _ _ (UInt32.le_of_lt hdata), UInt32.toNat_toUInt64]
              have := UInt32.lt_iff_toNat_lt.mp hdata
              omega
            · exact all_pure _ _
          · exact all_pure _ _
        · split
          · simp only [all_bind, all_pure, and_true]
            exact all_modify _ _
          · exact all_pure _ _

theorem within_notifyRing3 (n : Nat) (addr : UInt64) (len : UInt32) (msg : UInt64) (s : Stack) :
    All (Within n) (notifyRing3 addr len msg) s := by
  have h64 : ∀ v t, All (Within n) (pushU64 v) t := by
    intro v t e he
    change e ∈ (if (ringPushU64 t.ring v).1 then [Event.push64 v] else []) at he
    split at he
    · rw [List.mem_singleton.mp he]
      trivial
    · simp at he
  have h32 : ∀ v t, All (Within n) (pushU32 v) t := by
    intro v t e he
    change e ∈ (if (ringPushU32 t.ring v).1 then [Event.push32 v] else []) at he
    split at he
    · rw [List.mem_singleton.mp he]
      trivial
    · simp at he
  unfold notifyRing3 pushRecord
  simp only [all_bind, h64, true_and, all_get]
  constructor
  · split
    · simp only [all_bind, h32, all_pure, and_self]
    · exact all_pure _ _
  · split
    · rw [all_emit]
      trivial
    · exact all_pure _ _

theorem safe_handleTcpNotify (h : Readable n buf len.toNat) (srcIp : UInt32) :
    All (Within n) (handleTcpNotify buf len srcIp) s := by
  unfold handleTcpNotify
  rw [all_bind]
  constructor
  · unfold synFirst
    split
    · next hlen =>
      have hhdr := h.mono (UInt32.le_iff_toNat_le.mp hlen)
      rw [all_bind]
      refine ⟨safe_load16 (hhdr.add (by decide)), ?_⟩
      split
      · exact safe_handleServerSyn h srcIp
      · exact all_pure _ _
    · exact all_pure _ _
  · split
    · exact all_pure _ _
    · rw [all_bind]
      refine ⟨safe_tcpHandleIncoming h srcIp, ?_⟩
      split
      · exact all_pure _ _
      · rw [all_bind]
        refine ⟨all_get _, ?_⟩
        split
        · exact within_notifyRing3 _ _ _ _ _
        · exact all_pure _ _

theorem not_safe_handleTcpNotify (hobj : buf.obj = .packet) (hlen : 20 ≤ len) (hoff : n ≤ buf.off.toNat)
    (hsmall : buf.off.toNat + 12 < 2 ^ 64) (srcIp : UInt32) :
    ¬All (Within n) (handleTcpNotify buf len srcIp) s := by
  unfold handleTcpNotify synFirst
  rw [all_bind, if_pos hlen, all_bind]
  rintro ⟨⟨hload, -⟩, -⟩
  unfold load16 at hload
  rw [all_bind, all_load] at hload
  have hlt := hload.1 hobj
  rw [Ptr.off_add, UInt64.toNat_add] at hlt
  change (buf.off.toNat + 12) % 2 ^ 64 < n at hlt
  omega

end Tcp

/-! ### ICMP -/

section Icmp

variable {n : Nat} {buf payload : Ptr} {len : UInt32} {s : Stack}

theorem safe_handleIcmp (h : Readable n payload len.toNat) (hobj : payload.obj ≠ .scratch) :
    All (Within n) (handleIcmp payload len) s := by
  have hstore : ∀ (i : UInt64) (bs : List UInt8) t, All (Within n) (storeBytes (payload.add i) bs) t := by
    intro i bs t
    exact safe_storeBytes fun hp => absurd hp hobj
  unfold handleIcmp icmpChecksum
  split
  · exact all_pure _ _
  · next hlen =>
    have h8 : 8 ≤ len.toNat := UInt32.le_iff_toNat_le.mp (UInt32.not_lt.mp hlen)
    rw [all_bind]
    refine ⟨safe_load (h.mono (by omega)), ?_⟩
    split
    · exact all_pure _ _
    · simp only [all_bind, all_pure, and_true]
      exact ⟨safe_store (fun hp => absurd hp hobj) _, hstore _ _ _, safe_checksum h, hstore _ _ _⟩

/-- The reply is built in the packet: its frame begins 14 bytes before the IPv4 header and is no longer than
the packet. -/
theorem safe_sendIcmpReply (hobj : buf.obj = .packet) (h14 : 14 ≤ buf.off.toNat)
    (h : buf.off.toNat + 20 + len.toNat ≤ n) (hn : n < 2 ^ 32) (dstIp : UInt32) :
    All (Within n) (sendIcmpReply buf len dstIp) s := by
  have hscratch : ∀ (off : UInt64) (k : Nat), Writable { buf with off } k := by
    intro off k hp
    rw [hobj] at hp
    contradiction
  have hoff : (buf.off - 14).toNat = buf.off.toNat - 14 :=
    UInt64.toNat_sub_of_le _ _ (UInt64.le_iff_toNat_le.mpr h14)
  have hframe : Readable n { buf with off := buf.off - 14 } (34 + len.toNat) := by
    intro _
    change (buf.off - 14).toNat + (34 + len.toNat) ≤ n ∧ n < 2 ^ 64
    rw [hoff]
    omega
  have hbuf : Readable n buf 20 := fun _ => ⟨by omega, by omega⟩
  unfold sendIcmpReply
  simp only [all_bind, all_pure, and_true, next_loadMac]
  refine ⟨safe_ipBuild hbuf (hscratch buf.off 20) _ _ _ _, safe_loadMac (hframe.mono (by omega)),
    safe_loadMac (hframe.add ?_), safe_ethBuild (hscratch _ 14) _ _ _, safe_txSend ?_⟩
  · change 6 + 6 ≤ _
    omega
  · have htotal : ((14 : UInt32) + 20 + len).toNat = 34 + len.toNat := by
      rw [UInt32.toNat_add]
      change (34 + len.toNat) % 2 ^ 32 = _
      omega
    change Readable n _ ((14 : UInt32) + 20 + len).toNat
    rw [htotal]
    exact hframe

theorem safe_handleIcmpPacket (hobj : buf.obj = .packet) (hpayload : payload.obj = .packet)
    (h14 : 14 ≤ buf.off.toNat) (hread : Readable n payload len.toNat) (hpos : 0 < len.toNat)
    (h : buf.off.toNat + 20 + len.toNat ≤ n) (hn : n < 2 ^ 32) (srcIp : UInt32) :
    All (Within n) (handleIcmpPacket buf payload len srcIp) s := by
  unfold handleIcmpPacket
  rw [all_bind, all_bind, all_bind]
  refine ⟨safe_load (hread.mono hpos), ?_, safe_handleIcmp hread (by simp [hpayload]), ?_⟩
  · unfold recordReply
    split
    · exact all_modify _ _
    · exact all_pure _ _
  · split
    · exact safe_sendIcmpReply hobj h14 h hn srcIp
    · exact all_pure _ _

theorem not_safe_handleIcmpPacket (hpayload : payload.obj = .packet) (hoff : n ≤ payload.off.toNat)
    (srcIp : UInt32) : ¬All (Within n) (handleIcmpPacket buf payload len srcIp) s := by
  unfold handleIcmpPacket
  rw [all_bind, all_load]
  rintro ⟨hload, -⟩
  have := hload hpayload
  omega

end Icmp

/-! ### IPv4 -/

/-- The payload of the packet is inside of it, and the one of an echo request fits into the reply. -/
def PayloadFits (s : Stack) (buf : Ptr) (len : UInt32) : Prop :=
  let ip := (ipParse buf len).val s
  let payload := payloadOf buf len ip
  ip.ForUs →
    (ip.protocol = 17 → ip.ihl.toUInt32 ≤ len ∧
      (((udpParse payload.1 payload.2).val s).dstPort = 7 → payload.2.toNat ≤ 2014)) ∧
    (ip.protocol = 6 → ip.ihl.toUInt32 ≤ len) ∧
    (ip.protocol = 1 → ip.ihl.toUInt32 < len)

section IPv4

variable {n : Nat} {buf : Ptr} {len : UInt32} {ip : IPv4Header}

theorem off_payload (hoff : buf.off.toNat < 2 ^ 32) :
    (payloadOf buf len ip).1.off.toNat = buf.off.toNat + ip.ihl.toNat := by
  have hihl := ip.ihl.toNat_lt
  change (buf.off + ip.ihl.toUInt32.toUInt64).toNat = _
  rw [UInt64.toNat_add, UInt32.toNat_toUInt64, UInt8.toNat_toUInt32]
  omega

theorem readable_payload (hend : buf.off.toNat + len.toNat = n) (hn : n < 2 ^ 32)
    (hihl : ip.ihl.toUInt32 ≤ len) :
    (payloadOf buf len ip).2.toNat = len.toNat - ip.ihl.toNat ∧
      Readable n (payloadOf buf len ip).1 (payloadOf buf len ip).2.toNat := by
  have hle := UInt32.le_iff_toNat_le.mp hihl
  rw [UInt8.toNat_toUInt32] at hle
  have hsub : (payloadOf buf len ip).2.toNat = len.toNat - ip.ihl.toNat := by
    change (len - ip.ihl.toUInt32).toNat = _
    rw [UInt32.toNat_sub_of_le _ _ hihl, UInt8.toNat_toUInt32]
  refine ⟨hsub, fun _ => ?_⟩
  rw [hsub, off_payload (by omega)]
  omega

/-- A longer one: the length of the payload wraps around, and the payload begins behind the packet. -/
theorem payload_behind (hend : buf.off.toNat + len.toNat = n) (hn : n < 2 ^ 32)
    (hihl : ¬ip.ihl.toUInt32 ≤ len) :
    20 ≤ (payloadOf buf len ip).2 ∧ n ≤ (payloadOf buf len ip).1.off.toNat ∧
      (payloadOf buf len ip).1.off.toNat + 12 < 2 ^ 64 := by
  have hlt := UInt32.lt_iff_toNat_lt.mp (UInt32.not_le.mp hihl)
  have h8 := ip.ihl.toNat_lt
  rw [UInt8.toNat_toUInt32] at hlt
  rw [off_payload (by omega)]
  refine ⟨UInt32.le_iff_toNat_le.mpr ?_, by omega, by omega⟩
  change 20 ≤ (len - ip.ihl.toUInt32).toNat
  rw [UInt32.toNat_sub, UInt8.toNat_toUInt32]
  omega

theorem all_handleIpv4 (mac : Mac) (s : Stack) (hparse : All (Within n) (ipParse buf len) s) :
    All (Within n) (handleIpv4 buf len mac) s ↔
      let ip := (ipParse buf len).val s
      let payload := payloadOf buf len ip
      All (Within n) (if ip.ForUs then
        if ip.protocol == 17 then handleUdp payload.1 payload.2 ip.srcIp mac
        else if ip.protocol == 6 then handleTcpNotify payload.1 payload.2 ip.srcIp
        else if ip.protocol == 1 then handleIcmpPacket buf payload.1 payload.2 ip.srcIp
        else return
      else return) s := by
  obtain ⟨-, hlog⟩ := handleIpv4_eq buf len mac s
  unfold All at hparse ⊢
  rw [hlog]
  simp only [List.mem_cons, List.mem_append]
  constructor
  · intro h e he
    exact h e (.inr (.inr he))
  · rintro h e (rfl | he | he)
    · trivial
    · exact hparse e he
    · exact h e he

/-- **An IPv4 packet for this machine is handled within its bounds** if and only if its payload fits. -/
theorem safe_handleIpv4_iff (hobj : buf.obj = .packet) (h14 : 14 ≤ buf.off.toNat)
    (hend : buf.off.toNat + len.toNat = n) (hn : n < 2 ^ 32) (hlen : 20 ≤ len.toNat) (mac : Mac)
    (s : Stack) : All (Within n) (handleIpv4 buf len mac) s ↔ PayloadFits s buf len := by
  have hparse : All (Within n) (ipParse buf len) s := safe_ipParse fun _ => ⟨by omega, by omega⟩
  rw [all_handleIpv4 mac s hparse]
  unfold PayloadFits
  dsimp only
  generalize (ipParse buf len).val s = ip
  have hpayload : (payloadOf buf len ip).1.obj = .packet := hobj
  by_cases hfor : ip.ForUs
  · simp only [hfor, if_true, true_implies]
    by_cases hudp : ip.protocol = 17
    · simp only [hudp, beq_self_eq_true, if_true, true_implies]
      have hno : ¬((17 : UInt8) = 6) ∧ ¬((17 : UInt8) = 1) := by decide
      simp only [hno, false_implies, and_true]
      by_cases hihl : ip.ihl.toUInt32 ≤ len
      · obtain ⟨-, hread⟩ := readable_payload hend hn hihl
        rw [safe_handleUdp_iff hread]
        simp only [hihl, true_and]
      · obtain ⟨h20, hoff, -⟩ := payload_behind hend hn hihl
        simp only [hihl, false_and, iff_false]
        exact not_safe_handleUdp hpayload (UInt32.le_trans (by decide) h20) hoff _ _
    · rw [if_neg (mt beq_iff_eq.mp hudp)]
      simp only [hudp, false_implies, true_and]
      by_cases htcp : ip.protocol = 6
      · have hno : ¬((6 : UInt8) = 1) := by decide
        simp only [htcp, beq_self_eq_true, if_true, true_implies, hno, false_implies, and_true]
        by_cases hihl : ip.ihl.toUInt32 ≤ len
        · obtain ⟨-, hread⟩ := readable_payload hend hn hihl
          simp only [hihl, iff_true]
          exact safe_handleTcpNotify hread _
        · obtain ⟨h20, hoff, hsmall⟩ := payload_behind hend hn hihl
          simp only [hihl, iff_false]
          exact not_safe_handleTcpNotify hpayload h20 hoff hsmall _
      · rw [if_neg (mt beq_iff_eq.mp htcp)]
        simp only [htcp, false_implies, true_and]
        by_cases hicmp : ip.protocol = 1
        · simp only [hicmp, beq_self_eq_true, if_true, true_implies]
          by_cases hihl : ip.ihl.toUInt32 < len
          · obtain ⟨hsub, hread⟩ := readable_payload hend hn (UInt32.le_of_lt hihl)
            have hlt := UInt32.lt_iff_toNat_lt.mp hihl
            have h20 := UInt8.le_iff_toNat_le.mp hfor.1
            change 20 ≤ ip.ihl.toNat at h20
            rw [UInt8.toNat_toUInt32] at hlt
            simp only [hihl, iff_true]
            exact safe_handleIcmpPacket hobj hpayload h14 hread (by omega) (by omega) hn _
          · have hle := UInt32.le_iff_toNat_le.mp (UInt32.not_lt.mp hihl)
            rw [UInt8.toNat_toUInt32] at hle
            simp only [hihl, iff_false]
            apply not_safe_handleIcmpPacket hpayload
            rw [off_payload (by omega)]
            omega
        · rw [if_neg (mt beq_iff_eq.mp hicmp)]
          simp [hicmp]
  · rw [if_neg hfor]
    simp [hfor]

end IPv4

/-! ### The dispatcher -/

/-- The condition under which `process_one` stays within its bounds. -/
def Fits (s : Stack) (buf : UInt64) (len : UInt32) : Prop :=
  let frame := frameOf s.usingRtl8125 buf len
  (s.usingRtl8125 = true ∨ 10 ≤ len) ∧
    (IsIpv4 s frame → PayloadFits s (frame.1.add 14) (frame.2 - 14))

theorem frameOf_spec (rtl : Bool) (buf : UInt64) (len : UInt32) (h : rtl = true ∨ 10 ≤ len) :
    (frameOf rtl buf len).1.obj = .packet ∧
      (frameOf rtl buf len).1.off.toNat + (frameOf rtl buf len).2.toNat = len.toNat := by
  cases rtl
  · have h10 : 10 ≤ len := h.resolve_left Bool.false_ne_true
    have hnat := UInt32.le_iff_toNat_le.mp h10
    refine ⟨rfl, ?_⟩
    change 10 + (len - 10).toNat = len.toNat
    rw [UInt32.toNat_sub_of_le _ _ h10]
    change 10 + (len.toNat - 10) = len.toNat
    change 10 ≤ len.toNat at hnat
    omega
  · exact ⟨rfl, Nat.zero_add _⟩

/-- Without it, the length of the frame wraps around. -/
theorem frameOf_wrap {rtl : Bool} (buf : UInt64) {len : UInt32} (h : ¬(rtl = true ∨ 10 ≤ len)) :
    (frameOf rtl buf len).1 = ⟨.packet, buf, 10⟩ ∧ len.toNat < 10 ∧ ¬(frameOf rtl buf len).2 < 14 := by
  rw [not_or] at h
  obtain ⟨hrtl, hlen⟩ := h
  have hlt := UInt32.lt_iff_toNat_lt.mp (UInt32.not_le.mp hlen)
  change len.toNat < 10 at hlt
  cases rtl
  · refine ⟨rfl, hlt, fun hshort => ?_⟩
    have hnat := UInt32.lt_iff_toNat_lt.mp hshort
    change (len - 10).toNat < 14 at hnat
    rw [UInt32.toNat_sub] at hnat
    change (2 ^ 32 - 10 + len.toNat) % 2 ^ 32 < 14 at hnat
    omega
  · exact absurd rfl hrtl

theorem within_passOn (n : Nat) (buf : UInt64) (len : UInt32) (s : Stack) :
    All (Within n) (passOn buf len) s := by
  unfold passOn
  rw [all_bind]
  refine ⟨all_get _, ?_⟩
  split
  · exact within_notifyRing3 _ _ _ _ _
  · rw [all_emit]
    trivial

theorem safe_arpHandle {n : Nat} {eth : Ptr} {len : UInt32} {s : Stack} (h : Readable n eth len.toNat)
    (mac : Mac) : All (Within n) (arpHandle eth 14 len mac) s := by
  unfold arpHandle
  split
  · exact all_pure _ _
  · next hlen =>
    have h42 : 42 ≤ len.toNat := UInt32.le_iff_toNat_le.mp (UInt32.not_lt.mp hlen)
    have harp : Readable n (eth.add (14 : UInt32).toUInt64) 28 := h.add (by
      change 14 + 28 ≤ _
      omega)
    simp only [all_bind, next_load16, next_loadMac, next_load32]
    refine ⟨safe_load16 (harp.add (by decide)), safe_loadMac (harp.add (by decide)),
      safe_load32 (harp.add (by decide)), safe_load32 (harp.add (by decide)), all_modify _ _, ?_⟩
    split
    · exact safe_of_only (only_sendArpReply (by decide) (by decide) _ _ _) _ _
    · exact all_pure _ _

theorem safe_dispatch_iff {n : Nat} {frame : Ptr × UInt32} {s : Stack} (hobj : frame.1.obj = .packet)
    (hend : frame.1.off.toNat + frame.2.toNat = n) (hn : n < 2 ^ 32)
    (hmac : macMatches ((ethParse frame.1 frame.2).val s).dst s.ourMac ∨
      isBroadcast ((ethParse frame.1 frame.2).val s).dst) :
    All (Within n) (dispatch frame.1 frame.2 ((ethParse frame.1 frame.2).val s)) s ↔
      (IsIpv4 s frame → PayloadFits s (frame.1.add 14) (frame.2 - 14)) := by
  have hread : Readable n frame.1 frame.2.toNat := fun _ => ⟨by omega, by omega⟩
  unfold dispatch IsIpv4
  rw [all_bind, val_get, next_get]
  simp only [all_get, true_and, hmac]
  generalize (ethParse frame.1 frame.2).val s = eth
  by_cases harp : eth.ethertype = 0x0806
  · have hno : ¬((0x0806 : UInt16) = 0x0800) := by decide
    simp only [harp, beq_self_eq_true, if_true, hno, false_and, false_implies, iff_true]
    exact safe_arpHandle hread _
  · rw [if_neg (mt beq_iff_eq.mp harp)]
    by_cases hip : eth.ethertype = 0x0800
    · simp only [hip, beq_self_eq_true, if_true, true_and]
      by_cases hlen : 34 ≤ frame.2
      · have h34 := UInt32.le_iff_toNat_le.mp hlen
        change 34 ≤ frame.2.toNat at h34
        have hoff : (frame.1.add 14).off.toNat = frame.1.off.toNat + 14 := by
          rw [Ptr.off_add, UInt64.toNat_add]
          change (frame.1.off.toNat + 14) % 2 ^ 64 = _
          omega
        have hsub : (frame.2 - 14).toNat = frame.2.toNat - 14 :=
          UInt32.toNat_sub_of_le _ _ (UInt32.le_trans (by decide) hlen)
        have hobj' : (frame.1.add 14).obj = .packet := hobj
        rw [if_pos hlen, safe_handleIpv4_iff (n := n) hobj' (by omega) (by omega) hn (by omega)]
        simp only [hlen, true_implies]
      · rw [if_neg hlen]
        simp [hlen]
    · rw [if_neg (mt beq_iff_eq.mp hip)]
      simp [hip]

theorem safe_processPacket_iff (s : Stack) (buf : UInt64) (len : UInt32) :
    All (Within len.toNat) (processPacket buf len) s ↔ Fits s buf len := by
  unfold processPacket Fits
  rw [all_bind, val_get, next_get]
  simp only [all_get, true_and]
  by_cases hheader : s.usingRtl8125 = true ∨ 10 ≤ len
  · obtain ⟨hobj, hend⟩ := frameOf_spec s.usingRtl8125 buf len hheader
    generalize frameOf s.usingRtl8125 buf len = frame at hobj hend
    simp only [hheader, true_and]
    by_cases hshort : frame.2 < 14
    · have hno : ¬34 ≤ frame.2 := by
        intro hlen
        exact absurd (UInt32.lt_of_lt_of_le hshort (UInt32.le_trans (by decide) hlen)) (UInt32.lt_irrefl _)
      rw [if_pos hshort, all_emit]
      unfold IsIpv4
      simp [hno, Within]
    · have h14 : 14 ≤ frame.2.toNat := UInt32.le_iff_toNat_le.mp (UInt32.not_lt.mp hshort)
      have hparse : All (Within len.toNat) (ethParse frame.1 frame.2) s :=
        safe_ethParse fun _ => ⟨by omega, by have := len.toNat_lt; omega⟩
      rw [if_neg hshort, all_bind, next_ethParse]
      simp only [hparse, true_and]
      by_cases hdrop : (!macMatches ((ethParse frame.1 frame.2).val s).dst s.ourMac &&
          !isBroadcast ((ethParse frame.1 frame.2).val s).dst) = true
      · have hno : ¬IsIpv4 s frame := by
          rintro ⟨hmac, -⟩
          rcases hmac with hmac | hmac <;> simp [hmac] at hdrop
        rw [if_pos hdrop]
        simp only [within_passOn, hno, false_implies]
      · have hmac : macMatches ((ethParse frame.1 frame.2).val s).dst s.ourMac ∨
            isBroadcast ((ethParse frame.1 frame.2).val s).dst := by
          by_contra hno
          rw [not_or] at hno
          simp [hno.1, hno.2] at hdrop
        rw [if_neg hdrop, all_bind, safe_dispatch_iff hobj hend len.toNat_lt hmac]
        simp only [within_passOn, and_true]
  · -- the device reports less than its own header
    obtain ⟨hptr, hlt, hlong⟩ := frameOf_wrap buf hheader
    simp only [hheader, false_and, iff_false]
    rw [if_neg hlong, all_bind, hptr]
    rintro ⟨hparse, -⟩
    unfold ethParse at hparse
    rw [if_neg hlong, all_bind] at hparse
    have hmac := hparse.1
    unfold loadMac at hmac
    rw [all_bind, all_load] at hmac
    have hread : (10 : UInt64).toNat < len.toNat := hmac.1 rfl
    change 10 < len.toNat at hread
    omega

theorem fits_rx (s : Stack) (rest : List (UInt64 × UInt32)) (buf : UInt64) (len : UInt32) :
    Fits { s with rx := rest } buf len ↔ Fits s buf len := by
  have heth : ∀ p n, (ethParse p n).val { s with rx := rest } = (ethParse p n).val s :=
    fun p n => (Parses.ethParse p n).val rfl
  have hip : ∀ p n, (ipParse p n).val { s with rx := rest } = (ipParse p n).val s :=
    fun p n => (Parses.ipParse p n).val rfl
  have hudp : ∀ p n, (udpParse p n).val { s with rx := rest } = (udpParse p n).val s :=
    fun p n => (Parses.udpParse p n).val rfl
  unfold Fits PayloadFits IsIpv4
  dsimp only
  rw [heth, hip, hudp]
  rfl

/-- **A received packet is handled within its bounds** if and only if the device reports a whole header of its
own, the IPv4 header is not longer than the packet, and the payload of an echo request fits into the
reply. -/
theorem within_iff {s : Stack} {buf : UInt64} {len : UInt32} {rest : List (UInt64 × UInt32)}
    (hslot : s.loopbackBuf = 0) (hrx : s.rx = (buf, len) :: rest) :
    (∀ e ∈ processOne.log s, Within len.toNat e) ↔ Fits s buf len := by
  rw [log_processOne hslot hrx, ← fits_rx s rest]
  exact safe_processPacket_iff { s with rx := rest } buf len

/-- The stack that has received a frame. -/
def received (frame : List UInt8) (len : UInt32) : Stack :=
  { Stack.quiet with
    tcp := { Stack.quiet.tcp with mem := fun a => frame.getD (a - 0xFFFFFFFF80420000).toNat 0 }
    rx := [(0xFFFFFFFF80420000, len)] }

/-- A broadcast frame with a datagram of four bytes for the echo port. -/
def echoFrame : List UInt8 :=
  List.replicate 10 0 ++ (List.replicate 6 0xFF ++ List.replicate 6 0 ++ [0x08, 0x00]) ++
    [0x45, 0, 0, 32, 0, 0, 0, 0, 64, 17, 0, 0, 10, 0, 2, 2, 10, 0, 2, 15] ++
    [0x10, 0, 0, 7, 0, 12, 0, 0, 1, 2, 3, 4]

theorem within_iff_echoFrame :
    (processOne.next (received echoFrame 56)).udpPacketsHandled = 1 ∧
      ∀ e ∈ processOne.log (received echoFrame 56), Within 56 e := by
  have hfits : Fits (received echoFrame 56) 0xFFFFFFFF80420000 56 := by
    refine ⟨.inr (by decide), fun _ => ?_⟩
    unfold PayloadFits
    decide +kernel
  exact ⟨by decide +kernel, (@within_iff (received echoFrame 56) _ 56 [] rfl rfl).mpr hfits⟩

/-- A broadcast frame with an IPv4 packet of 20 bytes whose header claims to have 60. -/
def longHeader : List UInt8 :=
  List.replicate 10 0 ++ (List.replicate 6 0xFF ++ List.replicate 6 0 ++ [0x08, 0x00]) ++
    [0x4F, 0, 0, 20, 0, 0, 0, 0, 64, 6, 0, 0, 10, 0, 2, 2, 10, 0, 2, 15]

/-- The stack that has received it. -/
def longHeaderStack : Stack := received longHeader 44

/-- The flags of a TCP segment are read 52 bytes behind the packet. -/
theorem not_within_of_longHeader :
    ¬∀ (s : Stack) (buf : UInt64) (len : UInt32) (rest : List (UInt64 × UInt32)), s.loopbackBuf = 0 →
      s.rx = (buf, len) :: rest → ∀ e ∈ processOne.log s, Within len.toNat e := by
  intro h
  have hread : Event.read ⟨.packet, 0xFFFFFFFF80420000, 96⟩ ∈ processOne.log longHeaderStack := by
    decide +kernel
  have hlt : (96 : UInt64).toNat < (44 : UInt32).toNat :=
    h longHeaderStack 0xFFFFFFFF80420000 44 [] rfl rfl _ hread rfl
  exact absurd hlt (by decide)

end Keuos.Net
