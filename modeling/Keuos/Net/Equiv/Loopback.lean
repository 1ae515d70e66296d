import Keuos.Net.Equiv.Frames

/-!
# The loopback slot

A packet in the slot is handed to `handle_ipv4` by the next `process_one`, and no handler enqueues a packet.
Its page is free by then: the link that `pmm.free` writes into the first word is before the packet, but
`pmm.alloc` hands the page out again, so the packet has the bytes that it was enqueued with only as long as
nobody stores into it (`slot_storeBytes`).  Every packet is delivered in the runs that send when the slot is
empty and leave the packet in the slot alone (`delivered_of_undisturbed`).  A send into a full slot replaces
the packet that is there (`not_delivered_of_twoSends`).
-/

namespace Keuos.Net

open Traced

/-! ### Programs that hand nothing over from the slot -/

/-- The event is not that `handle_ipv4` is given a packet of the loopback. -/
def NotHanded : Event → Prop
  | .ipv4 p _ => p.obj ≠ .loopback
  | _ => True

abbrev Idle {α : Type} (x : NetM α) : Prop := Keeps Stack.loopbackBuf NotHanded x

theorem idle_of_silent {α : Type} {x : NetM α} (h : Silent x) : Idle x := by
  apply h.mono
  · intro s t hkept
    simp only [Stack.kept, Prod.mk.injEq] at hkept
    exact hkept.2.2.2
  · intro e he
    cases e <;> trivial

theorem handedBy_of_notHanded {es : List Event} (h : ∀ e ∈ es, NotHanded e) : handedBy es = [] := by
  apply List.filterMap_eq_nil_iff.mpr
  intro e he
  have hnot := h e he
  cases e with
  | ipv4 p bytes => exact if_neg hnot
  | _ => rfl

theorem idle_notifyRing3 (buf : UInt64) (len : UInt32) (msg : UInt64) : Idle (notifyRing3 buf len msg) := by
  have h64 : ∀ v, Idle (pushU64 v) := by
    intro v s
    refine ⟨rfl, fun e he => ?_⟩
    change e ∈ (if (ringPushU64 s.ring v).1 then [Event.push64 v] else []) at he
    split at he
    · rw [List.mem_singleton.mp he]
      trivial
    · simp at he
  have h32 : ∀ v, Idle (pushU32 v) := by
    intro v s
    refine ⟨rfl, fun e he => ?_⟩
    change e ∈ (if (ringPushU32 s.ring v).1 then [Event.push32 v] else []) at he
    split at he
    · rw [List.mem_singleton.mp he]
      trivial
    · simp at he
  exact ((h64 buf).bind fun _ => .ite ((h32 len).bind fun _ => .pure _) (.pure _)).bind fun _ =>
    .bind .get fun _ => .ite (.emit trivial) (.pure _)

theorem idle_handleTcpNotify (buf : Ptr) (len srcIp : UInt32) : Idle (handleTcpNotify buf len srcIp) :=
  (idle_of_silent (silent_synFirst _ _ _)).bind fun _ => .ite (.pure _) <|
    (idle_of_silent (silent_tcpHandleIncoming _ _ _)).bind fun _ => .ite (.pure _) <|
    .bind .get fun _ => .ite (idle_notifyRing3 _ _ _) (.pure _)

theorem idle_handlers (buf : Ptr) (len : UInt32) (mac : Mac) (ip : IPv4Header) :
    Idle (do
      let payload := payloadOf buf len ip
      if ip.ForUs then
        if ip.protocol == 17 then handleUdp payload.1 payload.2 ip.srcIp mac
        else if ip.protocol == 6 then handleTcpNotify payload.1 payload.2 ip.srcIp
        else if ip.protocol == 1 then handleIcmpPacket buf payload.1 payload.2 ip.srcIp
        else return
      else return) :=
  .ite (.ite (idle_of_silent (silent_handleUdp _ _ _ _)) <| .ite (idle_handleTcpNotify _ _ _) <|
    .ite (idle_of_silent (silent_handleIcmpPacket _ _ _ _)) (.pure _)) (.pure _)

theorem handedBy_handleIpv4 (buf : Ptr) (len : UInt32) (mac : Mac) (s : Stack) :
    ((handleIpv4 buf len mac).next s).loopbackBuf = s.loopbackBuf ∧
      handedBy ((handleIpv4 buf len mac).log s) =
        if buf.obj = .loopback then [s.bytes buf.addr len] else [] := by
  obtain ⟨hnext, hlog⟩ := handleIpv4_eq buf len mac s
  have hparse := handedBy_of_notHanded (idle_of_silent (silent_ipParse buf len) s).2
  obtain ⟨hslot, hrest⟩ := idle_handlers buf len mac ((ipParse buf len).val s) s
  have hevents := handedBy_of_notHanded hrest
  rw [hnext, hlog]
  refine ⟨hslot, ?_⟩
  unfold handedBy at hparse hevents ⊢
  rw [List.filterMap_cons, List.filterMap_append, hparse, hevents]
  split <;> simp_all

theorem idle_processPacket (buf : UInt64) (len : UInt32) : Idle (processPacket buf len) := by
  have hipv4 : ∀ buf' len' mac, buf'.obj = .packet → Idle (handleIpv4 buf' len' mac) := by
    intro buf' len' mac hobj s
    obtain ⟨hnext, hlog⟩ := handleIpv4_eq buf' len' mac s
    obtain ⟨hslot, hrest⟩ := idle_handlers buf' len' mac ((ipParse buf' len').val s) s
    refine ⟨hnext ▸ hslot, fun e he => ?_⟩
    rw [hlog] at he
    rcases List.mem_cons.mp he with rfl | he
    · change buf'.obj ≠ .loopback
      rw [hobj]
      decide
    · rcases List.mem_append.mp he with he | he
      · exact (idle_of_silent (silent_ipParse buf' len') s).2 e he
      · exact hrest e he
  have hpass : Idle (passOn buf len) :=
    .bind .get fun _ => .ite (idle_notifyRing3 _ _ _) (.emit trivial)
  have hobj : ∀ rtl, (frameOf rtl buf len).1.obj = .packet := fun rtl => by cases rtl <;> rfl
  exact .bind .get fun s => .ite (.emit trivial) <|
    (idle_of_silent (silent_ethParse _ _)).bind fun hdr => .ite hpass <|
    .bind (.bind .get fun _ => .ite (idle_of_silent (silent_arpHandle _ _ _ _)) <|
      .ite (.ite (hipv4 _ _ _ (hobj s.usingRtl8125)) (.pure _)) (.pure _)) fun _ => hpass

/-! ### Delivery -/

/-- The packet in the slot, as it is in memory. -/
def Stack.slot (s : Stack) : List (List UInt8) :=
  if s.loopbackBuf = 0 then [] else [s.bytes s.loopbackBuf s.loopbackLen]

/-- `handle_ipv4` was given every packet that was enqueued, once, in order and with its bytes, but for one
that is still in the slot. -/
def Delivered (l : Looped) : Prop :=
  l.handed ++ l.stack.slot = l.enqueued

instance (l : Looped) : Decidable (Delivered l) := inferInstanceAs (Decidable (_ = _))

/-- The condition on a step: a packet is sent when the slot is empty, and other code does not store into the
packet that is in the slot. -/
def Undisturbed (l : Looped) : LoopOp → Prop
  | .send _ _ _ _ => l.stack.loopbackBuf = 0
  | .store addr bytes => l.stack.loopbackBuf ≠ 0 → ∀ i < bytes.length, ∀ j < l.stack.loopbackLen.toNat,
      addr + UInt64.ofNat i ≠ l.stack.loopbackBuf + UInt64.ofNat j
  | .poll => True

theorem processOne_slot (s : Stack) :
    (processOne.next s).loopbackBuf = 0 ∧ handedBy (processOne.log s) = s.slot := by
  unfold processOne Stack.slot
  rw [next_bind, log_bind, next_get, val_get, log_get, List.nil_append]
  by_cases hslot : s.loopbackBuf = 0
  · -- the receive ring is polled, and no handler fills the slot
    rw [if_neg (by simp [hslot]), if_pos hslot, next_bind, log_bind]
    have hpoll : (rxPoll.next s).loopbackBuf = 0 ∧ rxPoll.log s = [] := by
      unfold rxPoll
      rw [next_call, log_call]
      split <;> exact ⟨hslot, rfl⟩
    rw [hpoll.2, List.nil_append]
    cases rxPoll.val s with
    | none => exact ⟨hpoll.1, rfl⟩
    | some p =>
      obtain ⟨hkeep, hevents⟩ := idle_processPacket p.1 p.2 (rxPoll.next s)
      refine ⟨hkeep.trans hpoll.1, ?_⟩
      dsimp only
      rw [log_bind, log_pure, List.append_nil]
      exact handedBy_of_notHanded hevents
  · -- the slot is emptied before its packet is handed over
    rw [if_pos (by simp [hslot]), if_neg hslot, next_bind, log_bind, next_bind, log_bind, next_modify,
      log_modify, log_pure, List.nil_append, List.append_nil]
    obtain ⟨hkeep, hevents⟩ := handedBy_handleIpv4 ⟨.loopback, s.loopbackBuf, 0⟩ s.loopbackLen
      s.loopbackSrcMac { s with loopbackBuf := 0, loopbackLen := 0 }
    refine ⟨hkeep, hevents.trans ?_⟩
    have haddr : Ptr.addr ⟨.loopback, s.loopbackBuf, 0⟩ = s.loopbackBuf := UInt64.add_zero _
    rw [if_pos rfl, haddr]
    rfl

theorem mem_pmmFree (s : Stack) (page link : UInt64) :
    (pmmFree s page link).tcp.mem = s.tcp.mem.write64 page link := rfl

theorem slot_pmmFree (s : Stack) (page link : UInt64) :
    (pmmFree s page link).loopbackBuf = s.loopbackBuf ∧
      (pmmFree s page link).loopbackLen = s.loopbackLen := ⟨rfl, rfl⟩

theorem loopbackEnqueue_spec (s : Stack) (buf : UInt64) (len : UInt32) (mac : Mac) :
    (loopbackEnqueue s buf len mac).loopbackBuf = buf ∧ (loopbackEnqueue s buf len mac).loopbackLen = len ∧
      (loopbackEnqueue s buf len mac).tcp = s.tcp := ⟨rfl, rfl, rfl⟩

theorem page_add_ne_zero (pfn : UInt64) : Pmm.physToVirt (pfn * 4096) + 14 ≠ 0 := by
  intro hzero
  have hnat := congrArg UInt64.toNat hzero
  unfold Pmm.physToVirt at hnat
  rw [UInt64.toNat_add, UInt64.toNat_add, UInt64.toNat_mul] at hnat
  change ((pfn.toNat * 4096 % 2 ^ 64 + 0xFFFFFFFF80000000) % 2 ^ 64 + 14) % 2 ^ 64 = 0 at hnat
  omega

theorem bytes_pmmFree (s : Stack) (page link : UInt64) (len : UInt32) :
    (pmmFree s page link).bytes (page + 14) len = s.bytes (page + 14) len := by
  unfold Stack.bytes
  rw [mem_pmmFree]
  apply List.map_congr_left
  intro i hi
  have hlt := len.toNat_lt
  rw [List.mem_range] at hi
  -- the link is in the first 8 bytes of the page, the packet behind byte 14
  have hfirst : page = page + UInt64.ofNat 0 := (UInt64.add_zero page).symm
  have haddr : page + 14 + UInt64.ofNat i = page + UInt64.ofNat (14 + i) := by
    rw [UInt64.ofNat_add, UInt64.add_assoc]
    rfl
  rw [haddr]
  nth_rewrite 1 [hfirst]
  exact Mem.write64_offset (by decide) (by omega) (.inr (by omega))

theorem slot_loopbackSend (s : Stack) (pfn : UInt64) (frame : List UInt8) (ipLen : UInt32) (link : UInt64) :
    (loopbackSend s pfn frame ipLen link).slot =
      [(fillPage s pfn frame).2.bytes ((fillPage s pfn frame).1 + 14) ipLen] := by
  have hne : (fillPage s pfn frame).1 + 14 ≠ 0 := page_add_ne_zero pfn
  unfold loopbackSend
  generalize fillPage s pfn frame = page at hne ⊢
  obtain ⟨hbuf, hlen, htcp⟩ := loopbackEnqueue_spec page.2 (page.1 + 14) ipLen 0
  have hbytes : (loopbackEnqueue page.2 (page.1 + 14) ipLen 0).bytes (page.1 + 14) ipLen =
      page.2.bytes (page.1 + 14) ipLen := by
    unfold Stack.bytes
    rw [htcp]
  unfold Stack.slot
  dsimp only
  rw [(slot_pmmFree _ _ _).1, (slot_pmmFree _ _ _).2, hbuf, hlen, if_neg hne, bytes_pmmFree, hbytes]

theorem mem_storeBytes {a : UInt64} (bs : List UInt8) : ∀ (p : Ptr) (s : Stack),
    (∀ i < bs.length, p.addr + UInt64.ofNat i ≠ a) → ((storeBytes p bs).next s).tcp.mem a = s.tcp.mem a := by
  induction bs with
  | nil =>
    intro p s _
    rfl
  | cons b bs ih =>
    intro p s h
    have hfirst : p.addr ≠ a := by
      have := h 0 (Nat.zero_lt_succ _)
      rwa [show UInt64.ofNat 0 = 0 from rfl, UInt64.add_zero] at this
    have hrest : ∀ i < bs.length, (p.add 1).addr + UInt64.ofNat i ≠ a := by
      intro i hi
      have := h (i + 1) (Nat.succ_lt_succ hi)
      rw [UInt64.ofNat_add] at this
      change p.base + (p.off + 1) + UInt64.ofNat i ≠ a
      change p.base + p.off + (UInt64.ofNat i + 1) ≠ a at this
      rwa [← UInt64.add_assoc, UInt64.add_assoc, UInt64.add_comm 1]
    exact (ih (p.add 1) ((store p b).next s) hrest).trans (Function.update_of_ne hfirst.symm _ _)

theorem loopback_storeBytes (bs : List UInt8) : ∀ (p : Ptr) (s : Stack),
    ((storeBytes p bs).next s).loopbackBuf = s.loopbackBuf ∧
      ((storeBytes p bs).next s).loopbackLen = s.loopbackLen := by
  induction bs with
  | nil =>
    intro p s
    exact ⟨rfl, rfl⟩
  | cons b bs ih =>
    intro p s
    exact ih (p.add 1) ((store p b).next s)

theorem slot_storeBytes (s : Stack) (addr : UInt64) (bytes : List UInt8)
    (h : s.loopbackBuf ≠ 0 → ∀ i < bytes.length, ∀ j < s.loopbackLen.toNat,
      addr + UInt64.ofNat i ≠ s.loopbackBuf + UInt64.ofNat j) :
    ((storeBytes ⟨.other, addr, 0⟩ bytes).next s).slot = s.slot := by
  obtain ⟨hbuf, hlen⟩ := loopback_storeBytes bytes ⟨.other, addr, 0⟩ s
  unfold Stack.slot
  rw [hbuf, hlen]
  split
  · rfl
  · rename_i hfull
    unfold Stack.bytes
    congr 1
    apply List.map_congr_left
    intro j hj
    rw [List.mem_range] at hj
    refine mem_storeBytes bytes ⟨.other, addr, 0⟩ s fun i hi => ?_
    have haddr : Ptr.addr ⟨.other, addr, 0⟩ = addr := UInt64.add_zero _
    rw [haddr]
    exact h hfull i hi j hj

theorem exec_delivered (l : Looped) (o : LoopOp) (h : Delivered l) (hok : Undisturbed l o) :
    Delivered (l.exec o) := by
  cases o with
  | send pfn frame ipLen link =>
    -- nothing waits, so everything has been handed over
    have hempty : l.stack.slot = [] := if_pos hok
    unfold Delivered at h ⊢
    rw [hempty, List.append_nil] at h
    dsimp only [Looped.exec]
    rw [slot_loopbackSend, h]
  | store addr bytes =>
    unfold Delivered at h ⊢
    dsimp only [Looped.exec]
    rw [slot_storeBytes l.stack addr bytes hok, h]
  | poll =>
    obtain ⟨hslot, hhanded⟩ := processOne_slot l.stack
    unfold Delivered at h ⊢
    dsimp only [Looped.exec]
    have hempty : (processOne.next l.stack).slot = [] := if_pos hslot
    rw [hempty, List.append_nil, hhanded, h]

/-- **Every packet is delivered** in the runs that send only when the slot is empty, and in which other code
leaves the packet in the slot alone. -/
theorem delivered_of_undisturbed (s : Stack) (hempty : s.loopbackBuf = 0) (ops : List LoopOp)
    (hok : Admissible Looped.exec Undisturbed ⟨s, [], []⟩ ops) :
    Delivered (runOps Looped.exec ⟨s, [], []⟩ ops) := by
  refine runOps_induction exec_delivered ?_ hok
  exact if_pos hempty

/-- An IPv4 header for TCP to this machine, behind an Ethernet header, and `n` bytes behind it. -/
def loopFrame (n : UInt8) : List UInt8 :=
  List.replicate 12 0 ++ [8, 0, 0x45, 0, 0, 20 + n, 0, 0, 0x40, 0, 64, 6, 0, 0, 127, 0, 0, 1, 127, 0, 0, 1] ++
    (List.range n.toNat).map UInt8.ofNat

/-- Two packets are sent and polled; while the first one waits, `sys_meminfo` is given another page. -/
theorem delivered_of_undisturbed_twoPackets :
    Delivered (runOps Looped.exec ⟨Stack.quiet, [], []⟩
      [.send 0x300 (loopFrame 20) 40 0, .store 0xFFFFFFFF80301000 (List.replicate 24 7), .poll,
        .send 0x301 (loopFrame 4) 24 0x300, .poll]) := by
  refine delivered_of_undisturbed Stack.quiet rfl _ ⟨rfl, fun _ => ?_, trivial, ?_, trivial, trivial⟩
  · decide +kernel
  · exact (processOne_slot _).1

/-- `sys_meminfo` is given the page of the packet that waits, and `handle_ipv4` its statistics. -/
example : ¬Delivered (runOps Looped.exec ⟨Stack.quiet, [], []⟩
    [.send 0x300 (loopFrame 20) 40 0, .store 0xFFFFFFFF80300000 (List.replicate 24 7), .poll]) := by
  decide +kernel

/-- Two packets are sent without a poll in between: the first one is lost. -/
theorem not_delivered_of_twoSends :
    ¬∀ (s : Stack) (ops : List LoopOp), s.loopbackBuf = 0 →
      Delivered (runOps Looped.exec ⟨s, [], []⟩ ops) := by
  intro h
  have hlength := congrArg List.length
    (h Stack.quiet [.send 0x300 [] 40 0, .send 0x301 [] 40 0] rfl)
  revert hlength
  decide +kernel

end Keuos.Net
