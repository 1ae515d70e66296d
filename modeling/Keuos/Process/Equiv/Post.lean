import Keuos.Process.Equiv.Books
import Keuos.Process.Waiting

/-!
# Messages stay in their lives

A mailbox that is not empty was filled in the life that its slot has now, and the mailbox of a slot that is
free or a zombie is empty.  The first is kept because nothing but a send fills a mailbox, and the second
because an exit clears it; but `sys_ipc_send` takes a zombie for a process, and what it stores then is there
when the slot is taken again.

## Main results

* `private_of_careful`: in every run in which nobody but slot 0 sends to a zombie, nothing crosses lives.
* `not_private_of_lastWords`: a message to a zombie is received by the next process in its slot.
-/

namespace Keuos.Process

variable {s s' : Post} {slot i : UInt64}

/-! ### The invariant -/

/-- What holds of a slot. -/
structure Post.SlotOk (s : Post) (i : UInt64) : Prop where
  bits : taken s.procs i = true ↔ s.procs.state i ≠ procFree
  vacant : aliveState (s.procs.state i) = false → (s.procs.table i).ipcSender = 0
  own : (s.procs.table i).ipcSender ≠ 0 → s.sentIn i = some (s.life i)
  alive : s.receiving i = true → aliveState (s.procs.state i) = true
  woken : s.receiving i = true → s.procs.state i ≠ procIpcBlocked → s.sentIn i = some (s.life i)

structure Post.Inv (s : Post) : Prop where
  range : s.procs.currentPid < maxProcs
  slots : ∀ i < maxProcs, s.SlotOk i
  receipts : ∀ r ∈ s.receipts, r.sentIn = some r.life

/-- Nothing that the invariant says of a slot is changed. -/
structure Post.SameSlot (s s' : Post) (i : UInt64) : Prop where
  bits : taken s'.procs i = taken s.procs i
  state : s'.procs.state i = s.procs.state i
  sender : (s'.procs.table i).ipcSender = (s.procs.table i).ipcSender
  sentIn : s'.sentIn i = s.sentIn i
  life : s'.life i = s.life i
  receiving : s'.receiving i = s.receiving i

theorem Post.SlotOk.congr (h : s.SlotOk i) (hs : s.SameSlot s' i) : s'.SlotOk i := by
  refine ⟨?_, ?_, ?_, ?_, ?_⟩
  · rw [hs.bits, hs.state]
    exact h.bits
  · rw [hs.state, hs.sender]
    exact h.vacant
  · rw [hs.sender, hs.sentIn, hs.life]
    exact h.own
  · rw [hs.receiving, hs.state]
    exact h.alive
  · rw [hs.receiving, hs.state, hs.sentIn, hs.life]
    exact h.woken

theorem Post.Inv.of_slot (h : s.Inv) (slot : UInt64) (hrange : s'.procs.currentPid < maxProcs)
    (hslot : s'.SlotOk slot) (hother : ∀ i < maxProcs, i ≠ slot → s.SameSlot s' i)
    (hreceipts : s'.receipts = s.receipts) : s'.Inv := by
  refine ⟨hrange, ?_, hreceipts ▸ h.receipts⟩
  intro i hi
  by_cases heq : i = slot
  · rw [heq]
    exact hslot
  · exact (h.slots i hi).congr (hother i hi heq)

/-! ### Changes of the table -/

section Table

variable (p : Procs) (f : Pcb → Pcb)

theorem table_modify (slot i : UInt64) :
    (p.modify slot f).table i = if i = slot then f (p.table slot) else p.table i := by
  split_ifs with hi
  · rw [hi, modify_self]
  · exact modify_of_ne p hi f

theorem sender_setIpcMsg (slot sender msg0 msg1 msg2 i : UInt64) :
    ((setIpcMsg p slot sender msg0 msg1 msg2).table i).ipcSender =
      if i = slot then sender else (p.table i).ipcSender := by
  unfold setIpcMsg
  rw [table_modify]
  split_ifs <;> rfl

theorem sender_setState (slot state i : UInt64) :
    ((setState p slot state).table i).ipcSender = (p.table i).ipcSender := by
  rw [table_setState]
  split_ifs with hi
  · rw [hi]
  · rfl

theorem taken_setState {state : UInt64} (hstate : state ≠ procFree) (slot i : UInt64) :
    taken (setState p slot state) i = taken p i := by
  unfold taken
  rw [pidBitmap_setState p slot hstate]

end Table

theorem Post.Inv.setState (h : s.Inv) (hslot : slot < maxProcs) {state : UInt64}
    (hold : aliveState (s.procs.state slot) = true) (hnew : aliveState state = true)
    (hblocked : s.procs.state slot = procIpcBlocked → state = procIpcBlocked) :
    Post.Inv { s with procs := setState s.procs slot state } := by
  have hfree := (aliveState_iff.mp hnew).1
  have hok := h.slots slot hslot
  refine h.of_slot slot ?_ ?_ ?_ rfl
  · rw [currentPid_setState]
    exact h.range
  · refine ⟨?_, ?_, ?_, ?_, ?_⟩
    · dsimp only
      rw [taken_setState _ hfree, state_setState, if_pos rfl]
      exact iff_of_true (hok.bits.mpr (aliveState_iff.mp hold).1) hfree
    · intro hdead
      dsimp only at hdead
      rw [state_setState, if_pos rfl, hnew] at hdead
      cases hdead
    · dsimp only
      rw [sender_setState]
      exact hok.own
    · intro _
      dsimp only
      rw [state_setState, if_pos rfl]
      exact hnew
    · intro hreceiving hne
      dsimp only at hne
      rw [state_setState, if_pos rfl] at hne
      exact hok.woken hreceiving (mt hblocked hne)
  · intro i _ hi
    refine ⟨taken_setState _ hfree .., ?_, sender_setState .., rfl, rfl, rfl⟩
    dsimp only
    rw [state_setState, if_neg hi]

theorem Post.Inv.setCurrent (h : s.Inv) (hslot : slot < maxProcs) :
    Post.Inv { s with procs := setCurrent s.procs slot } := by
  refine ⟨hslot, ?_, h.receipts⟩
  intro i hi
  exact (h.slots i hi).congr ⟨rfl, rfl, rfl, rfl, rfl, rfl⟩

theorem Post.Inv.modify (h : s.Inv) {f : Pcb → Pcb}
    (hstate : (f (s.procs.table slot)).state = s.procs.state slot)
    (hsender : (f (s.procs.table slot)).ipcSender = (s.procs.table slot).ipcSender) :
    Post.Inv { s with procs := s.procs.modify slot f } := by
  refine ⟨h.range, ?_, h.receipts⟩
  intro i hi
  refine (h.slots i hi).congr ⟨rfl, ?_, ?_, rfl, rfl, rfl⟩
  · dsimp only
    rw [state_modify]
    split_ifs with heq
    · rw [heq, hstate]
    · rfl
  · dsimp only
    rw [table_modify]
    split_ifs with heq
    · rw [heq, hsender]
    · rfl

/-! ### Messages -/

theorem Post.Inv.stored (h : s.Inv) (hslot : slot < maxProcs) {sender : UInt64}
    (hto : aliveState (s.procs.state slot) = true ∨ sender = 0) (msg0 msg1 msg2 : UInt64) :
    (s.stored slot (setIpcMsg s.procs slot sender msg0 msg1 msg2)).Inv := by
  have hok := h.slots slot hslot
  have htag : (s.stored slot (setIpcMsg s.procs slot sender msg0 msg1 msg2)).sentIn slot =
      some (s.life slot) := Function.update_self ..
  refine h.of_slot slot h.range ?_ ?_ rfl
  · refine ⟨?_, ?_, fun _ => htag, ?_, fun _ _ => htag⟩
    · show taken s.procs slot = true ↔ (setIpcMsg s.procs slot sender msg0 msg1 msg2).state slot ≠ _
      rw [state_setIpcMsg]
      exact hok.bits
    · intro hdead
      show ((setIpcMsg s.procs slot sender msg0 msg1 msg2).table slot).ipcSender = 0
      change aliveState ((setIpcMsg s.procs slot sender msg0 msg1 msg2).state slot) = false at hdead
      rw [state_setIpcMsg] at hdead
      rw [sender_setIpcMsg, if_pos rfl]
      rcases hto with halive | hzero
      · rw [halive] at hdead
        cases hdead
      · exact hzero
    · show s.receiving slot = true →
        aliveState ((setIpcMsg s.procs slot sender msg0 msg1 msg2).state slot) = true
      rw [state_setIpcMsg]
      exact hok.alive
  · intro i _ hi
    refine ⟨rfl, state_setIpcMsg .., ?_, Function.update_of_ne hi _ _, rfl, rfl⟩
    show ((setIpcMsg s.procs slot sender msg0 msg1 msg2).table i).ipcSender = _
    rw [sender_setIpcMsg, if_neg hi]

theorem Post.Inv.deliver (h : s.Inv) (hslot : slot < maxProcs)
    (hblocked : s.procs.state slot = procIpcBlocked) (sender msg0 msg1 msg2 : UInt64) :
    (s.stored slot (setIpcMsg (unblock s.procs slot) slot sender msg0 msg1 msg2)).Inv := by
  have hok := h.slots slot hslot
  have htag : (s.stored slot (setIpcMsg (unblock s.procs slot) slot sender msg0 msg1 msg2)).sentIn slot =
      some (s.life slot) := Function.update_self ..
  have hstate : (setIpcMsg (unblock s.procs slot) slot sender msg0 msg1 msg2).state slot = procReady := by
    rw [state_setIpcMsg, unblock_eq, state_setState, if_pos rfl]
  refine h.of_slot slot h.range ?_ ?_ rfl
  · refine ⟨?_, ?_, fun _ => htag, ?_, fun _ _ => htag⟩
    · show taken s.procs slot = true ↔ (setIpcMsg (unblock s.procs slot) slot sender msg0 msg1 msg2).state
        slot ≠ _
      rw [hstate]
      refine iff_of_true (hok.bits.mpr ?_) (by decide)
      rw [hblocked]
      decide
    · intro hdead
      change aliveState ((setIpcMsg (unblock s.procs slot) slot sender msg0 msg1 msg2).state slot) = false
        at hdead
      rw [hstate] at hdead
      cases hdead
    · intro _
      show aliveState ((setIpcMsg (unblock s.procs slot) slot sender msg0 msg1 msg2).state slot) = true
      rw [hstate]
      rfl
  · intro i _ hi
    refine ⟨rfl, ?_, ?_, Function.update_of_ne hi _ _, rfl, rfl⟩
    · show (setIpcMsg (unblock s.procs slot) slot sender msg0 msg1 msg2).state i = _
      rw [state_setIpcMsg, unblock_eq, state_setState, if_neg hi]
    · show ((setIpcMsg (unblock s.procs slot) slot sender msg0 msg1 msg2).table i).ipcSender = _
      rw [sender_setIpcMsg, if_neg hi, unblock_eq, sender_setState]

theorem ringIpcSend_cases (p : Procs) (slot targetPid msg0 msg1 : UInt64) :
    ringIpcSend p slot targetPid msg0 msg1 = (0 - 1, p) ∨
      targetPid < maxProcs ∧ p.state targetPid = procIpcBlocked ∧
        ringIpcSend p slot targetPid msg0 msg1 =
          (0, setIpcMsg (unblock p targetPid) targetPid slot msg0 msg1 0) := by
  unfold ringIpcSend
  split_ifs with hrange hfree hblocked
  · exact .inl rfl
  · exact .inl rfl
  · exact .inr ⟨UInt64.lt_of_lt_of_le (UInt64.not_le.mp hrange) (by decide), beq_iff_eq.mp hblocked, rfl⟩
  · exact .inl rfl

theorem Post.Inv.ringSent (h : s.Inv) (sender targetPid msg0 msg1 : UInt64) :
    (s.ringSent sender targetPid msg0 msg1).Inv := by
  unfold Post.ringSent
  rcases ringIpcSend_cases s.procs sender targetPid msg0 msg1 with hrefused | ⟨hlt, hblocked, hsent⟩
  · rw [hrefused]
    exact h
  · rw [hsent]
    exact h.deliver hlt hblocked ..

/-! ### Spawns -/

theorem Post.Inv.spawned (h : s.Inv) (pml4 : Option UInt64) : (s.spawned pml4).Inv := by
  unfold Post.spawned spawnSlot
  dsimp only
  rcases allocPid_spec s.procs with ⟨slot, hslot, hclear, htake⟩ | ⟨hfull, -⟩
  · rw [htake]
    dsimp only
    rw [if_neg (UInt64.not_le.mpr hslot)]
    have hok := h.slots slot hslot
    have hfree : s.procs.state slot = procFree := by
      by_contra hne
      rw [hok.bits.mpr hne] at hclear
      cases hclear
    have hdead : aliveState (s.procs.state slot) = false := by
      rw [hfree]
      rfl
    have hsender : ((claimSlot s.procs slot).table slot).ipcSender = 0 := by
      rw [table_claimSlot, if_pos rfl]
      exact hok.vacant hdead
    have hstate : (claimSlot s.procs slot).state slot = procReady := by
      rw [state_claimSlot, if_pos rfl]
    -- the mailbox of a free slot is empty, and nobody receives there
    have hclaimed : Post.Inv { s with
        procs := claimSlot s.procs slot
        life := Function.update s.life slot (s.life slot + 1) } := by
      refine h.of_slot slot h.range ?_ ?_ rfl
      · refine ⟨?_, fun _ => hsender, ?_, ?_, ?_⟩
        · dsimp only
          rw [taken_claimSlot hslot hslot, hstate, decide_eq_true rfl, Bool.true_or]
          decide
        · intro hne
          exact absurd hsender hne
        · intro hreceiving
          have halive := hok.alive hreceiving
          rw [hdead] at halive
          cases halive
        · intro hreceiving
          have halive := hok.alive hreceiving
          rw [hdead] at halive
          cases halive
      · intro i hi hne
        refine ⟨?_, ?_, ?_, rfl, Function.update_of_ne hne _ _, rfl⟩
        · dsimp only
          rw [taken_claimSlot hslot hi, decide_eq_false (Ne.symm hne), Bool.false_or]
        · dsimp only
          rw [state_claimSlot, if_neg hne]
        · dsimp only
          rw [table_claimSlot, if_neg hne]
    cases pml4 with
    | none => exact hclaimed
    | some root =>
      dsimp only
      rw [if_neg (UInt64.not_le.mpr hslot)]
      exact hclaimed.modify rfl rfl
  · rw [hfull]
    dsimp only
    rw [if_pos (UInt64.le_refl _)]
    cases pml4 with
    | none => exact h
    | some root =>
      dsimp only
      rw [if_pos (UInt64.le_refl _)]
      exact h

/-! ### Switches -/

theorem Post.Inv.drained (h : s.Inv) (slot : UInt64) (r : Request) : (Post.drained slot s r).Inv := by
  cases r with
  | ipcSend targetPid msg0 msg1 => exact h.ringSent ..
  | spawn pml4 => exact h.spawned pml4
  | other => exact h

theorem procs_drained (requests : List Request) (slot : UInt64) (s : Post) :
    (runOps (Post.drained slot) s requests).procs = drainAll requests slot s.procs := by
  induction requests generalizing s with
  | nil => rfl
  | cons r requests ih =>
    rw [runOps_cons, ih]
    unfold drainAll
    rw [runOps_cons]
    congr 1
    cases r with
    | ipcSend targetPid msg0 msg1 =>
      unfold Post.drained Post.ringSent Request.apply
      dsimp only
      split_ifs <;> rfl
    | spawn pml4 => rfl
    | other => rfl

theorem Post.Inv.switched (h : s.Inv) {requests : List Request} {next : UInt64} (hnext : next < maxProcs)
    (hdisp : dispatchable (s.procs.state next) = true) :
    (s.switched requests s.slot next).Inv := by
  have hdrained : (runOps (Post.drained s.slot) s requests).Inv :=
    runOps_invariant (fun _ r ht => ht.drained s.slot r) h requests
  have hprocs := procs_drained requests s.slot s
  have hwakes := wakes_drainAll requests s.slot s.procs
  rw [← hprocs] at hwakes
  -- the drain leaves the next process as it is
  have hready : dispatchable ((runOps (Post.drained s.slot) s requests).procs.state next) = true := by
    rcases hwakes.2 next with hsame | hready
    · rw [hsame]
      exact hdisp
    · rw [hready]
      rfl
  unfold Post.switched Process.switchToProcess
  rw [← hprocs]
  dsimp only
  generalize runOps (Post.drained s.slot) s requests = t at hdrained hready ⊢
  have hleft : Post.Inv { t with
      procs := if t.procs.state s.slot == procRunning then Process.setState t.procs s.slot procReady
        else t.procs } := by
    split_ifs with hrun
    · have hstate := beq_iff_eq.mp hrun
      have hslot : s.slot < maxProcs := h.range
      refine hdrained.setState hslot ?_ (by decide) ?_
      · rw [hstate]
        rfl
      · intro hblocked
        rw [hstate] at hblocked
        exact absurd hblocked (by decide)
    · exact hdrained
  have hstill : dispatchable ((if t.procs.state s.slot == procRunning then
      Process.setState t.procs s.slot procReady else t.procs).state next) = true := by
    split_ifs
    · rw [state_setState]
      split_ifs
      · rfl
      · exact hready
    · exact hready
  refine (hleft.setState hnext (aliveState_of_dispatchable hstill)
    (show aliveState procRunning = true by decide)
    ?_).setCurrent hnext
  intro hblocked
  dsimp only at hblocked
  rw [hblocked] at hstill
  cases hstill

theorem sysIpcSend_cases (drainSq : UInt64 → Procs → Procs) (p : Procs) (targetPid msg0 msg1 msg2 : UInt64) :
    sysIpcSend drainSq p targetPid msg0 msg1 msg2 = (0 - 1, p) ∨
      targetPid < maxProcs ∧ p.state targetPid = procIpcBlocked ∧
        (sysIpcSend drainSq p targetPid msg0 msg1 msg2).1 = 0 ∨
      targetPid < maxProcs ∧ p.state targetPid ≠ procIpcBlocked ∧ p.state targetPid ≠ procFree ∧
        sysIpcSend drainSq p targetPid msg0 msg1 msg2 =
          (0, setIpcMsg p targetPid p.currentPid msg0 msg1 msg2) := by
  unfold sysIpcSend
  dsimp only
  split_ifs with hrange hfree hblocked hempty
  · exact .inl rfl
  · exact .inl rfl
  · exact .inr (.inl ⟨UInt64.not_le.mp hrange, beq_iff_eq.mp hblocked, rfl⟩)
  · exact .inr (.inr ⟨UInt64.not_le.mp hrange, mt beq_iff_eq.mpr hblocked, mt beq_iff_eq.mpr hfree, rfl⟩)
  · exact .inl rfl

theorem Post.Inv.sent (h : s.Inv) {targetPid : UInt64} (msg0 msg1 msg2 : UInt64) (requests : List Request)
    (hzombie : targetPid < maxProcs → s.procs.state targetPid = procZombie → s.slot = 0) :
    (s.sent targetPid msg0 msg1 msg2 requests).Inv := by
  unfold Post.sent
  dsimp only
  rcases sysIpcSend_cases (drainAll requests) s.procs targetPid msg0 msg1 msg2 with
    hrefused | ⟨hlt, hblocked, hzero⟩ | ⟨hlt, hblocked, hfree, hstored⟩
  · rw [hrefused]
    exact h
  · rw [if_neg (not_not.mpr hzero), if_pos (beq_iff_eq.mpr hblocked),
      sysIpcSend_of_blocked hlt hblocked]
    have hdelivered := h.deliver hlt hblocked s.slot msg0 msg1 msg2
    have hdisp : dispatchable ((setIpcMsg (unblock s.procs targetPid) targetPid s.slot msg0 msg1
        msg2).state targetPid) = true := by
      rw [state_setIpcMsg, unblock_eq, state_setState, if_pos rfl]
      rfl
    exact hdelivered.switched hlt hdisp
  · rw [hstored, if_neg (not_not.mpr rfl), if_neg (mt beq_iff_eq.mp hblocked)]
    apply h.stored hlt
    by_cases hz : s.procs.state targetPid = procZombie
    · exact .inr (hzombie hlt hz)
    · exact .inl (aliveState_iff.mpr ⟨hfree, hz⟩)

/-! ### Receives -/

theorem idle_iff : s.idle = true ↔
    aliveState (s.procs.state s.slot) = true ∧ s.receiving s.slot = false := by
  unfold Post.idle aliveState
  rw [Bool.and_eq_true, Bool.not_eq_true']

theorem Post.Inv.received (h : s.Inv) (htag : s.sentIn s.slot = some (s.life s.slot)) :
    s.received.Inv := by
  refine ⟨h.range, ?_, ?_⟩
  · intro i hi
    exact (h.slots i hi).congr ⟨rfl, rfl, rfl, rfl, rfl, rfl⟩
  · intro r hr
    rcases List.mem_cons.mp hr with rfl | hr
    · exact htag
    · exact h.receipts r hr

theorem Post.Inv.emptied (h : s.Inv) (slot msg0 : UInt64) :
    Post.Inv { s with procs := setIpcMsg s.procs slot 0 msg0 0 0 } := by
  refine ⟨h.range, ?_, h.receipts⟩
  intro i hi
  have hok := h.slots i hi
  refine ⟨?_, ?_, ?_, ?_, ?_⟩
  all_goals dsimp only
  · rw [state_setIpcMsg]
    exact hok.bits
  · rw [state_setIpcMsg, sender_setIpcMsg]
    split_ifs
    · exact fun _ => rfl
    · exact hok.vacant
  · rw [sender_setIpcMsg]
    split_ifs
    · exact fun hne => absurd rfl hne
    · exact hok.own
  · rw [state_setIpcMsg]
    exact hok.alive
  · rw [state_setIpcMsg]
    exact hok.woken

theorem Post.Inv.recv (h : s.Inv) (hidle : s.idle = true) : s.recv.Inv := by
  obtain ⟨halive, hnot⟩ := idle_iff.mp hidle
  have hrange : s.slot < maxProcs := h.range
  have hok := h.slots s.slot hrange
  unfold Post.recv sysIpcRecv
  dsimp only
  by_cases hmail : (s.procs.table s.procs.currentPid).ipcSender = 0
  · rw [if_neg (by simpa using hmail)]
    dsimp only
    -- the process blocks, and is inside the call
    refine h.of_slot s.slot ?_ ?_ ?_ rfl
    · rw [currentPid_setState]
      exact h.range
    · have hstate : (Process.setState s.procs s.procs.currentPid procIpcBlocked).state s.slot =
        procIpcBlocked := by
        rw [state_setState]
        exact if_pos rfl
      refine ⟨?_, ?_, ?_, ?_, ?_⟩
      all_goals dsimp only
      · rw [taken_setState _ (by decide), hstate]
        exact iff_of_true (hok.bits.mpr (aliveState_iff.mp halive).1) (by decide)
      · rw [hstate]
        intro hdead
        cases hdead
      · rw [sender_setState]
        exact hok.own
      · rw [hstate]
        exact fun _ => rfl
      · intro _ hne
        exact absurd hstate hne
    · intro i _ hi
      refine ⟨taken_setState _ (by decide) .., ?_, sender_setState .., rfl, rfl,
        Function.update_of_ne hi _ _⟩
      dsimp only
      rw [state_setState]
      exact if_neg hi
  · rw [if_pos (by simpa using hmail)]
    exact (h.received (hok.own hmail)).emptied s.slot 0

theorem Post.Inv.leave (h : s.Inv) (slot : UInt64) :
    Post.Inv { s with receiving := Function.update s.receiving slot false } := by
  refine ⟨h.range, ?_, h.receipts⟩
  intro i hi
  have hok := h.slots i hi
  by_cases heq : i = slot
  · have hfalse : Function.update s.receiving slot false i = false := by
      rw [heq, Function.update_self]
    refine ⟨hok.bits, hok.vacant, hok.own, ?_, ?_⟩
    · intro hreceiving
      dsimp only at hreceiving
      rw [hfalse] at hreceiving
      cases hreceiving
    · intro hreceiving
      dsimp only at hreceiving
      rw [hfalse] at hreceiving
      cases hreceiving
  · exact hok.congr ⟨rfl, rfl, rfl, rfl, rfl, Function.update_of_ne heq _ _⟩

theorem Post.Inv.resumed (h : s.Inv) (hreceiving : s.receiving s.slot = true) : s.resumed.Inv := by
  have hrange : s.slot < maxProcs := h.range
  have hok := h.slots s.slot hrange
  unfold Post.resumed resumeIpcRecv
  dsimp only
  by_cases hblocked : s.procs.state s.slot = procIpcBlocked
  · rw [if_pos hblocked]
    exact (h.emptied s.slot 0).leave s.slot
  · rw [if_neg hblocked]
    exact ((h.received (hok.woken hreceiving hblocked)).emptied s.slot 0).leave s.slot

/-! ### Exits and waits -/

theorem Post.Inv.exit (h : s.Inv) (hidle : s.idle = true) (exitCode : UInt64) :
    Post.Inv { s with procs := processExit s.procs exitCode } := by
  obtain ⟨halive, hnot⟩ := idle_iff.mp hidle
  have hrange : s.slot < maxProcs := h.range
  have hemptied := h.emptied s.slot exitCode
  have hok := hemptied.slots s.slot hrange
  -- the mailbox is empty when the process becomes a zombie
  have hdead : Post.Inv { s with procs := decCount (Process.setState
      (setIpcMsg s.procs s.slot 0 exitCode 0 0) s.slot procZombie) } := by
    have hstate : ∀ i, (decCount (Process.setState (setIpcMsg s.procs s.slot 0 exitCode 0 0) s.slot
        procZombie)).state i = if i = s.slot then procZombie else s.procs.state i := by
      intro i
      show (Process.setState _ s.slot procZombie).state i = _
      rw [state_setState, state_setIpcMsg]
    have hsender : ∀ i, ((decCount (Process.setState (setIpcMsg s.procs s.slot 0 exitCode 0 0) s.slot
        procZombie)).table i).ipcSender = if i = s.slot then 0 else (s.procs.table i).ipcSender := by
      intro i
      show ((Process.setState _ s.slot procZombie).table i).ipcSender = _
      rw [sender_setState, sender_setIpcMsg]
    have htaken : ∀ i, taken (decCount (Process.setState (setIpcMsg s.procs s.slot 0 exitCode 0 0) s.slot
        procZombie)) i = taken s.procs i := by
      intro i
      show taken (Process.setState _ s.slot procZombie) i = _
      rw [taken_setState _ (by decide)]
      rfl
    refine h.of_slot s.slot ?_ ?_ ?_ rfl
    · show (Process.setState _ s.slot procZombie).currentPid < maxProcs
      rw [currentPid_setState]
      exact hrange
    · refine ⟨?_, ?_, ?_, ?_, ?_⟩
      all_goals dsimp only
      · rw [htaken, hstate, if_pos rfl]
        exact iff_of_true ((h.slots s.slot hrange).bits.mpr (aliveState_iff.mp halive).1) (by decide)
      · rw [hsender, if_pos rfl]
        exact fun _ => rfl
      · rw [hsender, if_pos rfl]
        exact fun hne => absurd rfl hne
      · rw [hnot]
        intro hreceiving
        cases hreceiving
      · rw [hnot]
        intro hreceiving
        cases hreceiving
    · intro i _ hi
      refine ⟨htaken i, ?_, ?_, rfl, rfl, rfl⟩
      · dsimp only
        rw [hstate, if_neg hi]
      · dsimp only
        rw [hsender, if_neg hi]
  unfold processExit switchToNextReady
  dsimp only
  cases hfound : nextReadyFrom (decCount (Process.setState
    (setIpcMsg s.procs s.procs.currentPid 0 exitCode 0 0)
      s.procs.currentPid procZombie)) s.procs.currentPid 63 1 with
  | none => exact hdead
  | some next =>
    obtain ⟨hnext, hdisp⟩ := nextReadyFrom_some hfound
    refine (hdead.setState hnext (aliveState_of_dispatchable hdisp)
      (show aliveState procRunning = true by decide)
      ?_).setCurrent hnext
    intro hblocked
    change (decCount (Process.setState (setIpcMsg s.procs s.procs.currentPid 0 exitCode 0 0)
      s.procs.currentPid procZombie)).state next = _ at hblocked
    rw [hblocked] at hdisp
    cases hdisp

theorem Post.Inv.wait (h : s.Inv) (hslot : slot < maxProcs) :
    Post.Inv { s with procs := (reapChild s.procs slot).2 } := by
  unfold reapChild
  split_ifs with hzombie
  · have hstate := beq_iff_eq.mp hzombie
    have hok := h.slots slot hslot
    have hdead : aliveState (s.procs.state slot) = false := by
      rw [hstate]
      rfl
    have hnot : s.receiving slot ≠ true := by
      intro hreceiving
      have halive := hok.alive hreceiving
      rw [hdead] at halive
      cases halive
    refine h.of_slot slot ?_ ?_ ?_ rfl
    · rw [currentPid_setState]
      exact h.range
    · refine ⟨?_, ?_, ?_, ?_, ?_⟩
      all_goals dsimp only
      · rw [taken_setFree hslot hslot, state_setState, if_pos rfl, decide_eq_true rfl, Bool.not_true,
          Bool.false_and]
        decide
      · rw [sender_setState]
        exact fun _ => hok.vacant hdead
      · rw [sender_setState]
        exact hok.own
      · exact fun hreceiving => absurd hreceiving hnot
      · exact fun hreceiving => absurd hreceiving hnot
    · intro i hi hne
      refine ⟨?_, ?_, sender_setState .., rfl, rfl, rfl⟩
      · dsimp only
        rw [taken_setFree hslot hi, decide_eq_false (Ne.symm hne), Bool.not_false, Bool.true_and]
      · dsimp only
        rw [state_setState, if_neg hne]
  · exact h

/-! ### Runs -/

/-- **A careful step** keeps the invariant. -/
theorem Post.Inv.exec (h : s.Inv) {op : PostOp} (hok : s.Careful op) : (s.exec op).Inv := by
  unfold Post.exec
  cases op with
  | spawn pml4 => exact h.spawned pml4
  | switch next requests =>
    dsimp only
    split_ifs with hnext
    · rw [Bool.and_eq_true, decide_eq_true_eq] at hnext
      exact h.switched hnext.1 hnext.2
    · exact h
  | ipcSend targetPid msg0 msg1 msg2 requests =>
    dsimp only
    split_ifs with hidle
    · exact h.sent msg0 msg1 msg2 requests (hok hidle)
    · exact h
  | ringSend slot targetPid msg0 msg1 => exact h.ringSent ..
  | ipcRecv =>
    dsimp only
    split_ifs with hidle
    · exact h.recv hidle
    · exact h
  | resume =>
    dsimp only
    split_ifs with hreceiving
    · exact h.resumed hreceiving
    · exact h
  | exit exitCode =>
    dsimp only
    split_ifs with hidle
    · exact h.exit hidle exitCode
    · exact h
  | wait childSlot =>
    dsimp only
    split_ifs with hslot
    · exact h.wait hslot
    · exact h

theorem post_inv_boot : Post.boot.Inv := by
  refine ⟨by decide, ?_, ?_⟩
  · intro i hi
    refine ⟨?_, fun _ => rfl, fun hne => absurd rfl hne, ?_, ?_⟩
    · have hclear : taken Post.boot.procs i = false := by
        rw [taken_eq hi]
        exact bit_zero _
      rw [hclear]
      exact iff_of_false Bool.false_ne_true (fun hne => hne rfl)
    · intro hreceiving
      cases hreceiving
    · intro hreceiving
      cases hreceiving
  · intro r hr
    cases hr

theorem Post.Inv.privacy (h : s.Inv) : s.Private := by
  refine ⟨h.receipts, ?_⟩
  intro _ hnone
  have hrange : s.slot < maxProcs := h.range
  have hempty : (s.procs.table s.procs.currentPid).ipcSender = 0 := by
    by_contra hne
    exact hnone ((h.slots s.slot hrange).own hne)
  unfold sysIpcRecv
  dsimp only
  rw [if_neg (by simpa using hempty)]

/-- **No message crosses lives**, in every run in which nobody but slot 0 sends to a zombie. -/
theorem private_of_careful {ops : List PostOp} (hok : Admissible Post.exec Post.Careful Post.boot ops) :
    (runOps Post.exec Post.boot ops).Private :=
  (runOps_induction (I := Post.Inv) (fun _ _ h hstep => h.exec hstep) post_inv_boot hok).privacy

/-- Slot 1 exits and is taken again; the message that slot 2 sends then is received. -/
def nextLife : List PostOp :=
  [.spawn (some 0x1000), .spawn (some 0x2000), .spawn (some 0x3000), .switch 1 [], .exit 7, .wait 1,
    .spawn (some 0x4000), .ipcSend 1 99 0 0 [], .switch 1 [], .ipcRecv]

theorem private_nextLife :
    (runOps Post.exec Post.boot nextLife).receipts = [⟨1, (2, 99, 0, 0), 2, some 2⟩] ∧
      (runOps Post.exec Post.boot nextLife).Private :=
  ⟨by decide +kernel, private_of_careful (by decide +kernel)⟩

/-- Slot 2 sends the message to the zombie, before the slot is taken again. -/
def lastWords : List PostOp :=
  [.spawn (some 0x1000), .spawn (some 0x2000), .spawn (some 0x3000), .switch 1 [], .exit 7,
    .ipcSend 1 99 0 0 [], .wait 1, .spawn (some 0x4000), .switch 1 [], .ipcRecv]

/-- **A message to a zombie** is received by the next process in its slot. -/
theorem not_private_of_lastWords :
    ¬ ∀ ops : List PostOp, (runOps Post.exec Post.boot ops).Private := by
  intro h
  have hreceipts : (runOps Post.exec Post.boot lastWords).receipts = [⟨1, (2, 99, 0, 0), 2, some 1⟩] := by
    decide +kernel
  have hcrossed := (h lastWords).receipts
  rw [hreceipts] at hcrossed
  exact absurd (hcrossed _ (List.mem_singleton_self _)) (by decide)

end Keuos.Process
