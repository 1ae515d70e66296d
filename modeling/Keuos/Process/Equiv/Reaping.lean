import Keuos.Process.Equiv.Books

/-!
# Waiting for a child

`sys_wait` looks for a slot with the pid of the child and the parent's pid, waits until this slot is a
zombie's, and answers the first word of its mailbox, into which `process_exit` has stored the exit code.
Three things go wrong.  A slot that is FREE keeps its pid and its parent, so a second wait for a child finds
the slot that was freed, and waits for whoever gets it next.  `sys_ipc_send` stores messages into the
mailboxes of zombies.  And a process that the ring spawns keeps the parent of the process before it.

## Main results

* `reapsOnce_of_careful`: every answer of `sys_wait` is the exit code of the child, every process is reaped
  at most once and a late wait answers -1, in every run in which no message goes to a zombie, no wait finds
  a slot that is FREE, and slots that had a parent are taken by `sys_spawn` only.
* `not_reapsOnce_message`: the answer of `sys_wait` is the message that a zombie was sent.
-/

namespace Keuos.Process

/-- The law of `sys_wait`. -/
structure ReapsOnce (past : Past) : Prop where
  child : ∀ a ∈ past.answers, a.value ≠ 0 - 1 →
    (a.callerPid, a.targetPid) ∈ past.children ∧ (a.targetPid, a.value) ∈ past.exits
  once : past.reaped.Nodup
  exited : ∀ pid ∈ past.reaped, ∃ exitCode, (pid, exitCode) ∈ past.exits
  late : ∀ a ∈ past.answers, a.late = true → a.value = 0 - 1 ∧ a.freed = none
  returns : ∀ slot targetPid childSlot, past.waits slot ≠ some (.child targetPid childSlot true)

/-! ### The invariant -/

/-- A process waits for a child that has not been reaped. -/
structure WaitsFor (p : Procs) (slot : UInt64) (w : Waiting) : Prop where
  range : slot < maxProcs
  caller : aliveState (p.state slot) = true
  child : ∃ targetPid childSlot, w = .child targetPid childSlot false ∧ childSlot < maxProcs ∧
    (p.table childSlot).pid = targetPid ∧ (p.table childSlot).parentPid = (p.table slot).pid ∧
    p.state childSlot ≠ procFree

/-- Pids are never given twice, parents and exit codes are what they were when they were recorded, and who
waits waits for a child that is there. -/
structure Kin (past : Past) (p : Procs) : Prop where
  books : Books p
  below : ∀ slot, slot < maxProcs → (p.table slot).pid.toNat < p.nextPid.toNat
  unique : ∀ slot, slot < maxProcs → ∀ slot', slot' < maxProcs → (p.table slot).pid = (p.table slot').pid →
    (p.table slot).pid ≠ 0 → slot = slot'
  named : ∀ slot, slot < maxProcs → p.state slot ≠ procFree → (p.table slot).pid ≠ 0
  parents : ∀ slot, slot < maxProcs → (p.table slot).parentPid ≠ 0 →
    ((p.table slot).parentPid, (p.table slot).pid) ∈ past.children
  zombies : ∀ slot, slot < maxProcs → p.state slot = procZombie →
    ((p.table slot).pid, (p.table slot).ipcMsg0) ∈ past.exits
  reapedBelow : ∀ pid ∈ past.reaped, pid.toNat < p.nextPid.toNat
  reapedFree : ∀ pid ∈ past.reaped, ∀ slot, slot < maxProcs → (p.table slot).pid = pid →
    p.state slot = procFree
  waits : ∀ slot w, past.waits slot = some w → WaitsFor p slot w

/-- A pid can be given, and the slot that is taken had no parent. -/
def AllocsOrphan (p : Procs) : Prop :=
  p.nextPid + 1 ≠ 0 ∧ ((allocPid p).1 < maxProcs → (p.table (allocPid p).1).parentPid = 0)

section Kin

variable {past : Past} {p q : Procs} {slot : UInt64}

theorem Kin.pidUnused (h : Kin past p) : PidUnused p := by
  intro slot hslot _ heq
  have := h.below slot hslot
  rw [heq] at this
  exact absurd this (Nat.lt_irrefl _)

theorem WaitsFor.congr {w : Waiting} (h : WaitsFor p slot w)
    (hpid : ∀ i, (q.table i).pid = (p.table i).pid)
    (hparent : ∀ i, (q.table i).parentPid = (p.table i).parentPid)
    (hfree : ∀ i, p.state i ≠ procFree → q.state i ≠ procFree)
    (halive : aliveState (q.state slot) = true) : WaitsFor q slot w := by
  obtain ⟨hrange, -, targetPid, childSlot, rfl, hlt, htarget, hchild, hstate⟩ := h
  refine ⟨hrange, halive, targetPid, childSlot, rfl, hlt, ?_, ?_, hfree childSlot hstate⟩
  · rw [hpid, htarget]
  · rw [hparent, hpid, hchild]

theorem Kin.congr (h : Kin past p) (hbooks : Books q) (hnext : q.nextPid = p.nextPid)
    (hpid : ∀ i, (q.table i).pid = (p.table i).pid)
    (hparent : ∀ i, (q.table i).parentPid = (p.table i).parentPid)
    (hfree : ∀ i, q.state i = procFree ↔ p.state i = procFree)
    (hzombie : ∀ i, q.state i = procZombie →
      p.state i = procZombie ∧ (q.table i).ipcMsg0 = (p.table i).ipcMsg0)
    (halive : ∀ i, aliveState (p.state i) = true → aliveState (q.state i) = true) : Kin past q where
  books := hbooks
  below := by
    intro i hi
    rw [hpid, hnext]
    exact h.below i hi
  unique := by
    intro i hi i' hi' heq hne
    rw [hpid, hpid] at heq
    rw [hpid] at hne
    exact h.unique i hi i' hi' heq hne
  named := by
    intro i hi hne
    rw [hpid]
    exact h.named i hi fun hf => hne ((hfree i).mpr hf)
  parents := by
    intro i hi hne
    rw [hparent] at hne ⊢
    rw [hpid]
    exact h.parents i hi hne
  zombies := by
    intro i hi hz
    obtain ⟨hz, hmail⟩ := hzombie i hz
    rw [hpid, hmail]
    exact h.zombies i hi hz
  reapedBelow := by
    intro pid hreaped
    rw [hnext]
    exact h.reapedBelow pid hreaped
  reapedFree := by
    intro pid hreaped i hi heq
    rw [hpid] at heq
    exact (hfree i).mpr (h.reapedFree pid hreaped i hi heq)
  waits := by
    intro i w hw
    have hwait := h.waits i w hw
    exact hwait.congr hpid hparent (fun j hj hf => hj ((hfree j).mp hf)) (halive i hwait.caller)

theorem Kin.modify (h : Kin past p) {f : Pcb → Pcb} (hpid : (f (p.table slot)).pid = (p.table slot).pid)
    (hparent : (f (p.table slot)).parentPid = (p.table slot).parentPid)
    (hstate : (f (p.table slot)).state = p.state slot)
    (hmail : p.state slot = procZombie → (f (p.table slot)).ipcMsg0 = (p.table slot).ipcMsg0) :
    Kin past (p.modify slot f) := by
  have hsame : ∀ i, (p.modify slot f).state i = p.state i := by
    intro i
    rw [state_modify]
    split
    · next hi => rw [hi, hstate]
    · rfl
  refine h.congr (h.books.modify hpid hstate) rfl ?_ ?_ ?_ ?_ ?_
  · intro i
    by_cases hi : i = slot
    · rw [hi, modify_self, hpid]
    · rw [modify_of_ne p hi]
  · intro i
    by_cases hi : i = slot
    · rw [hi, modify_self, hparent]
    · rw [modify_of_ne p hi]
  · intro i
    rw [hsame]
  · intro i hz
    rw [hsame] at hz
    refine ⟨hz, ?_⟩
    by_cases hi : i = slot
    · rw [hi] at hz ⊢
      rw [modify_self, hmail hz]
    · rw [modify_of_ne p hi]
  · intro i hi
    rw [hsame]
    exact hi

theorem Kin.setState (h : Kin past p) {state : UInt64} (halive : aliveState (p.state slot) = true)
    (hstate : aliveState state = true) : Kin past (setState p slot state) := by
  have hfield : ∀ i, ∀ {α : Type} (f : Pcb → α), (∀ b, f { b with state := state } = f b) →
      f ((Process.setState p slot state).table i) = f (p.table i) := by
    intro i α f hf
    rw [table_setState]
    split
    · next hi => rw [hi, hf]
    · rfl
  refine h.congr (h.books.setState halive hstate) (nextPid_setState ..)
    (fun i => hfield i Pcb.pid fun _ => rfl) (fun i => hfield i Pcb.parentPid fun _ => rfl) ?_ ?_ ?_
  · intro i
    rw [state_setState]
    split
    · next hi =>
      rw [hi]
      exact ⟨fun hf => absurd hf (aliveState_iff.mp hstate).1,
        fun hf => absurd hf (aliveState_iff.mp halive).1⟩
    · rfl
  · intro i hz
    refine ⟨?_, hfield i Pcb.ipcMsg0 fun _ => rfl⟩
    rw [state_setState] at hz
    split at hz
    · exact absurd hz (aliveState_iff.mp hstate).2
    · exact hz
  · intro i hi
    rw [state_setState]
    split
    · exact hstate
    · exact hi

theorem toNat_nextPid {next : UInt64} (hwrap : next + 1 ≠ 0) : (next + 1).toNat = next.toNat + 1 := by
  have hne : (next + 1).toNat ≠ 0 := fun h => hwrap (UInt64.toNat_inj.mp h)
  have hlt := next.toNat_lt
  rw [UInt64.toNat_add, UInt64.toNat_one] at hne ⊢
  omega

theorem Kin.take (h : Kin past p) (past' : Past) {b : Pcb} (hfree : p.state slot = procFree)
    (hwrap : p.nextPid + 1 ≠ 0) (hbooks : Books q) (hnext : q.nextPid = p.nextPid + 1)
    (htable : ∀ i, q.table i = if i = slot then b else p.table i) (hpid : b.pid = p.nextPid)
    (hstate : b.state = procReady) (hparent : b.parentPid ≠ 0 → (b.parentPid, p.nextPid) ∈ past'.children)
    (hpast : past' = { past with children := past'.children })
    (hchildren : ∀ c ∈ past.children, c ∈ past'.children) : Kin past' q := by
  have hself : q.table slot = b := by rw [htable, if_pos rfl]
  have hother : ∀ {i}, i ≠ slot → q.table i = p.table i := fun {i} hi => by rw [htable, if_neg hi]
  have hstate' : ∀ {i}, i ≠ slot → q.state i = p.state i := fun {i} hi => congrArg Pcb.state (hother hi)
  have hready : q.state slot = procReady := by rw [Procs.state, hself, hstate]
  have hsucc := toNat_nextPid hwrap
  have hexits : past'.exits = past.exits := by rw [hpast]
  have hreaped : past'.reaped = past.reaped := by rw [hpast]
  have hwaits : past'.waits = past.waits := by rw [hpast]
  have hpidSelf : (q.table slot).pid = p.nextPid := by rw [hself, hpid]
  -- the new pid is above all others
  have hnew : ∀ i, i < maxProcs → i ≠ slot → (q.table i).pid ≠ p.nextPid := by
    intro i hi hne heq
    have hlt := h.below i hi
    rw [hother hne] at heq
    rw [heq] at hlt
    exact Nat.lt_irrefl _ hlt
  refine ⟨hbooks, ?_, ?_, ?_, ?_, ?_, ?_, ?_, ?_⟩
  · intro i hi
    rw [hnext, hsucc]
    by_cases his : i = slot
    · rw [his, hpidSelf]
      exact Nat.lt_succ_self _
    · rw [hother his]
      exact Nat.lt_succ_of_lt (h.below i hi)
  · intro i hi i' hi' heq hne
    by_cases his : i = slot
    · by_cases his' : i' = slot
      · rw [his, his']
      · rw [his, hpidSelf] at heq
        exact absurd heq.symm (hnew i' hi' his')
    · by_cases his' : i' = slot
      · rw [his', hpidSelf] at heq
        exact absurd heq (hnew i hi his)
      · rw [hother his, hother his'] at heq
        rw [hother his] at hne
        exact h.unique i hi i' hi' heq hne
  · intro i hi hne hzero
    by_cases his : i = slot
    · rw [his, hpidSelf] at hzero
      have hlt := h.below i hi
      rw [hzero] at hlt
      exact Nat.not_lt_zero _ hlt
    · rw [hstate' his] at hne
      rw [hother his] at hzero
      exact h.named i hi hne hzero
  · intro i hi hne
    by_cases his : i = slot
    · rw [his, hself] at hne ⊢
      rw [hpid]
      exact hparent hne
    · rw [hother his] at hne ⊢
      exact hchildren _ (h.parents i hi hne)
  · intro i hi hz
    by_cases his : i = slot
    · rw [his, hready] at hz
      exact absurd hz (by decide)
    · rw [hstate' his] at hz
      rw [hother his, hexits]
      exact h.zombies i hi hz
  · intro pid hmem
    rw [hreaped] at hmem
    rw [hnext, hsucc]
    exact Nat.lt_succ_of_lt (h.reapedBelow pid hmem)
  · intro pid hmem i hi heq
    rw [hreaped] at hmem
    by_cases his : i = slot
    · rw [his, hpidSelf] at heq
      have hlt := h.reapedBelow pid hmem
      rw [heq] at hlt
      exact absurd hlt (Nat.lt_irrefl _)
    · rw [hother his] at heq
      rw [hstate' his]
      exact h.reapedFree pid hmem i hi heq
  · intro i w hw
    rw [hwaits] at hw
    obtain ⟨hrange, hcaller, targetPid, childSlot, rfl, hlt, htarget, hchild, hthere⟩ := h.waits i w hw
    have hne : i ≠ slot := by
      rintro rfl
      exact (aliveState_iff.mp hcaller).1 hfree
    have hne' : childSlot ≠ slot := by
      rintro rfl
      exact hthere hfree
    refine ⟨hrange, ?_, targetPid, childSlot, rfl, hlt, ?_, ?_, ?_⟩
    · rw [hstate' hne]
      exact hcaller
    · rw [hother hne', htarget]
    · rw [hother hne, hother hne', hchild]
    · rw [hstate' hne']
      exact hthere

theorem Kin.claimSlot (h : Kin past p) (hok : AllocsOrphan p) (hslot : slot < maxProcs)
    (halloc : allocPid p = (slot, claimSlot p slot)) : Kin past (claimSlot p slot) := by
  have horphan := hok.2
  rw [halloc] at horphan
  refine h.take past (h.books.free_of_alloc hslot halloc) hok.1
    (h.books.claimSlot h.pidUnused hslot halloc) rfl (table_claimSlot p slot) rfl rfl ?_ rfl
    (fun _ hc => hc)
  intro hne
  exact absurd (horphan hslot) hne

theorem steady_kin (past : Past) :
    Steady (Kin past) (fun p slot => p.state slot ≠ procZombie) AllocsOrphan where
  range := fun h => h.books.range
  state := fun h _ halive hstate => h.setState halive hstate
  mail := fun h _ hmail _ _ _ _ => h.modify rfl rfl rfl fun hz => absurd hz hmail
  alive := fun h => h
  current := by
    intro p slot h hslot
    exact h.congr (steady_books.current h.books hslot) rfl (fun _ => rfl) (fun _ => rfl) (fun _ => Iff.rfl)
      (fun _ hz => ⟨hz, rfl⟩) (fun _ hi => hi)
  alloc := Kin.claimSlot
  root := fun h _ _ => h.modify rfl rfl rfl fun _ => rfl

theorem Kin.processExit (h : Kin past p) (halive : aliveState (p.state p.currentPid) = true)
    (hidle : past.waits p.currentPid = none) (exitCode : UInt64) :
    Kin { past with exits := ((p.table p.currentPid).pid, exitCode) :: past.exits }
      (processExit p exitCode) := by
  refine (steady_kin _).switchToNextReady ?_ _
  set q := decCount (Process.setState (setIpcMsg p p.currentPid 0 exitCode 0 0) p.currentPid procZombie)
    with hq
  have hmail : Books (setIpcMsg p p.currentPid 0 exitCode 0 0) := h.books.modify rfl rfl
  have hbooks : Books q := hmail.zombie h.books.range (by rw [state_setIpcMsg]; exact halive)
  -- only the slot of the process changes, and of it only the mailbox and the state
  have hother : ∀ i, i ≠ p.currentPid → q.table i = p.table i := by
    intro i hi
    change (Process.setState (setIpcMsg p p.currentPid 0 exitCode 0 0) p.currentPid procZombie).table i = _
    rw [table_setState, if_neg hi]
    exact modify_of_ne p hi _
  have hself : q.table p.currentPid = { p.table p.currentPid with
      ipcMsg0 := exitCode, ipcMsg1 := 0, ipcMsg2 := 0, ipcSender := 0, state := procZombie } := by
    change (Process.setState (setIpcMsg p p.currentPid 0 exitCode 0 0) p.currentPid procZombie).table _ = _
    rw [table_setState, if_pos rfl, setIpcMsg, modify_self]
  have hpid : ∀ i, (q.table i).pid = (p.table i).pid := by
    intro i
    by_cases hi : i = p.currentPid
    · rw [hi, hself]
    · rw [hother i hi]
  have hparent : ∀ i, (q.table i).parentPid = (p.table i).parentPid := by
    intro i
    by_cases hi : i = p.currentPid
    · rw [hi, hself]
    · rw [hother i hi]
  -- a zombie is not free, and neither was the process
  have hfree : ∀ i, q.state i = procFree ↔ p.state i = procFree := by
    intro i
    by_cases hi : i = p.currentPid
    · rw [hi, Procs.state, hself]
      exact ⟨fun hf => absurd (show procZombie = procFree from hf) (by decide),
        fun hf => absurd hf (aliveState_iff.mp halive).1⟩
    · rw [Procs.state, hother i hi, Procs.state]
  have hnext : q.nextPid = p.nextPid := by
    change (Process.setState (setIpcMsg p p.currentPid 0 exitCode 0 0) p.currentPid procZombie).nextPid = _
    rw [nextPid_setState]
    rfl
  refine ⟨hbooks, ?_, ?_, ?_, ?_, ?_, ?_, ?_, ?_⟩
  · intro i hi
    rw [hpid, hnext]
    exact h.below i hi
  · intro i hi i' hi' heq hne
    rw [hpid, hpid] at heq
    rw [hpid] at hne
    exact h.unique i hi i' hi' heq hne
  · intro i hi hne
    rw [hpid]
    exact h.named i hi fun hf => hne ((hfree i).mpr hf)
  · intro i hi hne
    rw [hparent] at hne ⊢
    rw [hpid]
    exact h.parents i hi hne
  · intro i hi hz
    by_cases hcur : i = p.currentPid
    · rw [hcur, hself]
      exact List.mem_cons_self
    · rw [Procs.state, hother i hcur] at hz
      rw [hother i hcur]
      exact List.mem_cons_of_mem _ (h.zombies i hi hz)
  · intro pid hreaped
    rw [hnext]
    exact h.reapedBelow pid hreaped
  · intro pid hreaped i hi heq
    rw [hpid] at heq
    exact (hfree i).mpr (h.reapedFree pid hreaped i hi heq)
  · intro i w hw
    have hwait := h.waits i w hw
    refine hwait.congr hpid hparent (fun j hj hf => hj ((hfree j).mp hf)) ?_
    have hne : i ≠ p.currentPid := by
      rintro rfl
      rw [hidle] at hw
      cases hw
    rw [Procs.state, hother i hne]
    exact hwait.caller

/-- The current process has found the child that it waits for. -/
theorem Kin.wait (h : Kin past p) (halive : aliveState (p.state p.currentPid) = true)
    {targetPid childSlot : UInt64} (hslot : childSlot < maxProcs) (hpid : (p.table childSlot).pid = targetPid)
    (hparent : (p.table childSlot).parentPid = (p.table p.currentPid).pid)
    (hthere : p.state childSlot ≠ procFree) :
    Kin { past with
        waits := Function.update past.waits p.currentPid (some (.child targetPid childSlot false)) } p := by
  refine ⟨h.books, h.below, h.unique, h.named, h.parents, h.zombies, h.reapedBelow, h.reapedFree, ?_⟩
  intro i w hw
  dsimp only at hw
  by_cases hi : i = p.currentPid
  · rw [hi, Function.update_self] at hw
    obtain rfl := Option.some.inj hw
    rw [hi]
    exact ⟨h.books.range, halive, targetPid, childSlot, rfl, hslot, hpid, hparent, hthere⟩
  · rw [Function.update_of_ne hi] at hw
    exact h.waits i w hw

theorem Kin.reap (h : Kin past p) {targetPid childSlot : UInt64}
    (hwait : past.waits p.currentPid = some (.child targetPid childSlot false))
    (hzombie : p.state childSlot = procZombie) :
    Kin { past with
        waits := Function.update past.waits p.currentPid none
        reaped := targetPid :: past.reaped } (Process.setState p childSlot procFree) := by
  obtain ⟨hrange, hcaller, targetPid', childSlot', hw, hslot, hpid, hparent, hthere⟩ := h.waits _ _ hwait
  obtain ⟨rfl, rfl⟩ : targetPid' = targetPid ∧ childSlot' = childSlot := by
    simp only [Waiting.child.injEq] at hw
    exact ⟨hw.1.symm, hw.2.1.symm⟩
  have hfield : ∀ i, ∀ {α : Type} (f : Pcb → α), (∀ b, f { b with state := procFree } = f b) →
      f ((Process.setState p childSlot' procFree).table i) = f (p.table i) := by
    intro i α f hf
    rw [table_setState]
    split
    · next hi => rw [hi, hf]
    · rfl
  have hpids : ∀ i, ((Process.setState p childSlot' procFree).table i).pid = (p.table i).pid :=
    fun i => hfield i Pcb.pid fun _ => rfl
  have hparents : ∀ i, ((Process.setState p childSlot' procFree).table i).parentPid =
      (p.table i).parentPid := fun i => hfield i Pcb.parentPid fun _ => rfl
  have hne : (p.table p.currentPid).pid ≠ 0 := h.named _ hrange (aliveState_iff.mp hcaller).1
  refine ⟨h.books.free hslot hzombie, ?_, ?_, ?_, ?_, ?_, ?_, ?_, ?_⟩
  · intro i hi
    rw [hpids, nextPid_setState]
    exact h.below i hi
  · intro i hi i' hi' heq hne
    rw [hpids, hpids] at heq
    rw [hpids] at hne
    exact h.unique i hi i' hi' heq hne
  · intro i hi hstate
    rw [state_setState] at hstate
    rw [hpids]
    split at hstate
    · exact absurd rfl hstate
    · exact h.named i hi hstate
  · intro i hi hpar
    rw [hparents] at hpar ⊢
    rw [hpids]
    exact h.parents i hi hpar
  · intro i hi hz
    rw [state_setState] at hz
    split at hz
    · exact absurd hz (by decide)
    · rw [hpids, hfield i Pcb.ipcMsg0 fun _ => rfl]
      exact h.zombies i hi hz
  · intro pid hreaped
    rw [nextPid_setState]
    rcases List.mem_cons.mp hreaped with rfl | hreaped
    · rw [← hpid]
      exact h.below _ hslot
    · exact h.reapedBelow pid hreaped
  · intro pid hreaped i hi heq
    rw [hpids] at heq
    rw [state_setState]
    split
    · rfl
    · next hchild =>
      rcases List.mem_cons.mp hreaped with rfl | hreaped
      · -- only the slot that was freed has this pid
        have hzero : (p.table childSlot').pid ≠ 0 := h.named _ hslot hthere
        exact absurd (h.unique _ hi _ hslot (heq.trans hpid.symm) (heq.trans hpid.symm ▸ hzero)) hchild
      · exact h.reapedFree pid hreaped i hi heq
  · intro i w hw
    dsimp only at hw
    by_cases hi : i = p.currentPid
    · rw [hi, Function.update_self] at hw
      cases hw
    · rw [Function.update_of_ne hi] at hw
      obtain ⟨hrange', hcaller', target, child, rfl, hlt, htarget, hchild, hstate⟩ := h.waits i w hw
      -- two processes that wait have different pids, so they wait for different children
      have hother : child ≠ childSlot' := by
        rintro rfl
        exact hi (h.unique i hrange' _ hrange (hchild.symm.trans hparent)
          ((hchild.symm.trans hparent).symm ▸ hne))
      refine ⟨hrange', ?_, target, child, rfl, hlt, ?_, ?_, ?_⟩
      · rw [state_setState, if_neg]
        · exact hcaller'
        · rintro rfl
          exact (aliveState_iff.mp hcaller').2 hzombie
      · rw [hpids, htarget]
      · rw [hparents, hpids, hchild]
      · rw [state_setState, if_neg hother]
        exact hstate

end Kin

/-! ### The history -/

section Past

variable {past : Past}

theorem ReapsOnce.mono (h : ReapsOnce past) {past' : Past}
    (hpast : past' = { past with children := past'.children, exits := past'.exits })
    (hchildren : ∀ c ∈ past.children, c ∈ past'.children) (hexits : ∀ e ∈ past.exits, e ∈ past'.exits) :
    ReapsOnce past' := by
  have hanswers : past'.answers = past.answers := by rw [hpast]
  have hreaped : past'.reaped = past.reaped := by rw [hpast]
  have hwaits : past'.waits = past.waits := by rw [hpast]
  refine ⟨?_, hreaped ▸ h.once, ?_, hanswers ▸ h.late, hwaits ▸ h.returns⟩
  · intro a ha hvalue
    rw [hanswers] at ha
    obtain ⟨hchild, hexit⟩ := h.child a ha hvalue
    exact ⟨hchildren _ hchild, hexits _ hexit⟩
  · intro pid hpid
    rw [hreaped] at hpid
    obtain ⟨exitCode, hexit⟩ := h.exited pid hpid
    exact ⟨exitCode, hexits _ hexit⟩

theorem ReapsOnce.refuse (h : ReapsOnce past) {a : Answer} (hvalue : a.value = 0 - 1)
    (hfreed : a.freed = none) : ReapsOnce { past with answers := a :: past.answers } := by
  refine ⟨?_, h.once, h.exited, ?_, h.returns⟩
  · intro a' ha' hne
    rcases List.mem_cons.mp ha' with rfl | ha'
    · exact absurd hvalue hne
    · exact h.child a' ha' hne
  · intro a' ha' hlate
    rcases List.mem_cons.mp ha' with rfl | ha'
    · exact ⟨hvalue, hfreed⟩
    · exact h.late a' ha' hlate

theorem ReapsOnce.setWaits (h : ReapsOnce past) {waits : UInt64 → Option Waiting}
    (hwaits : ∀ slot targetPid childSlot, waits slot ≠ some (.child targetPid childSlot true)) :
    ReapsOnce { past with waits := waits } :=
  ⟨h.child, h.once, h.exited, h.late, hwaits⟩

theorem ReapsOnce.reap (h : ReapsOnce past) {a : Answer} (hlate : a.late = false)
    (hchild : (a.callerPid, a.targetPid) ∈ past.children) (hexit : (a.targetPid, a.value) ∈ past.exits)
    (hnew : a.targetPid ∉ past.reaped) :
    ReapsOnce { past with answers := a :: past.answers, reaped := a.targetPid :: past.reaped } := by
  refine ⟨?_, List.nodup_cons.mpr ⟨hnew, h.once⟩, ?_, ?_, h.returns⟩
  · intro a' ha' hne
    rcases List.mem_cons.mp ha' with rfl | ha'
    · exact ⟨hchild, hexit⟩
    · exact h.child a' ha' hne
  · intro pid hpid
    rcases List.mem_cons.mp hpid with rfl | hpid
    · exact ⟨a.value, hexit⟩
    · exact h.exited pid hpid
  · intro a' ha' hl
    rcases List.mem_cons.mp ha' with rfl | ha'
    · rw [hlate] at hl
      cases hl
    · exact h.late a' ha' hl

end Past

/-! ### Runs -/

/-- **The side condition.** No message is stored into the mailbox of a zombie, `sys_wait` finds no slot that
is FREE, slots that had a parent are taken by `sys_spawn` only, and the pids do not wrap.  The calls of the
entity interface are not made. -/
def ReapCareful (s : Jobs) : JobOp → Prop
  | .alloc => AllocsOrphan s.procs
  | .spawn => s.procs.nextPid + 1 ≠ 0
  | .ipcSend targetPid msg0 msg1 msg2 drained =>
    ¬ (targetPid < maxProcs ∧ s.procs.state targetPid = procZombie ∧
      (s.procs.table targetPid).ipcSender = 0) ∧
    (targetPid < maxProcs → s.procs.state targetPid = procIpcBlocked →
      Admissible (Request.apply s.slot) (Request.AllocOk AllocsOrphan)
        (setIpcMsg (unblock s.procs targetPid) targetPid s.slot msg0 msg1 msg2) drained)
  | .wait targetPid =>
    findChild s.procs targetPid < maxProcs →
      s.procs.state (findChild s.procs targetPid) ≠ procFree
  | .entityExit _ => False
  | .entityWait _ => False
  | _ => True

/-- The invariant of a run. -/
structure Jobs.Family (s : Jobs) : Prop where
  kin : Kin s.past s.procs
  law : ReapsOnce s.past

section Runs

variable {s : Jobs}

theorem Jobs.Family.withProcs (h : s.Family) {p : Procs} (hp : Kin s.past p) : (s.withProcs p).Family :=
  ⟨hp, h.law⟩

theorem alive_of_idle (h : s.idle = true) :
    aliveState (s.procs.state s.procs.currentPid) = true ∧ s.past.waits s.procs.currentPid = none := by
  unfold Jobs.idle Jobs.slot at h
  rw [Bool.and_eq_true, Option.isNone_iff_eq_none] at h
  exact h

theorem Jobs.Family.spawned (h : s.Family) (hidle : s.idle = true) (hwrap : s.procs.nextPid + 1 ≠ 0) :
    s.spawned.Family := by
  unfold Jobs.spawned Process.spawnChild
  dsimp only
  rcases allocPid_cases s.procs with hfull | ⟨slot, hslot, htake⟩
  · rw [hfull]
    dsimp only
    rw [if_pos (UInt64.le_refl _)]
    exact h
  · rw [htake]
    dsimp only
    rw [if_neg (UInt64.not_le.mpr hslot), if_neg (UInt64.not_le.mpr hslot)]
    have hfree := h.kin.books.free_of_alloc hslot htake
    have hcurrent : s.procs.currentPid ≠ slot := by
      rintro rfl
      exact (aliveState_iff.mp (alive_of_idle hidle).1).1 hfree
    have hcaller : ((claimSlot s.procs slot).table (claimSlot s.procs slot).currentPid).pid =
        s.callerPid := by
      rw [table_claimSlot]
      exact congrArg Pcb.pid (if_neg hcurrent)
    have hchild : (((claimSlot s.procs slot).modify slot fun b =>
        { b with parentPid := s.callerPid }).table slot).pid = s.procs.nextPid := by
      rw [modify_self, table_claimSlot, if_pos rfl]
    have htable : ∀ i, ((claimSlot s.procs slot).modify slot fun b =>
        { b with parentPid := s.callerPid }).table i = if i = slot then { s.procs.table slot with
          pid := s.procs.nextPid, state := procReady, parentPid := s.callerPid } else s.procs.table i := by
      intro i
      by_cases hi : i = slot
      · rw [if_pos hi, hi, modify_self, table_claimSlot, if_pos rfl]
      · rw [if_neg hi, modify_of_ne _ hi, table_claimSlot, if_neg hi]
    rw [hcaller, hchild]
    refine ⟨?_, h.law.mono rfl (fun _ hc => List.mem_cons_of_mem _ hc) (fun _ he => he)⟩
    refine h.kin.take _ (b := { s.procs.table slot with
        pid := s.procs.nextPid, state := procReady, parentPid := s.callerPid })
      hfree hwrap ?_ rfl ?_ rfl rfl ?_ rfl (fun _ hc => List.mem_cons_of_mem _ hc)
    · exact (h.kin.books.claimSlot h.kin.pidUnused hslot htake).modify
        (f := fun b => { b with parentPid := s.callerPid }) rfl rfl
    · exact htable
    · intro _
      exact List.mem_cons_self

theorem Jobs.Family.waited (h : s.Family) (hidle : s.idle = true) {targetPid : UInt64}
    (hok : ReapCareful s (.wait targetPid)) : (s.waited targetPid).Family := by
  unfold Jobs.waited
  dsimp only
  rcases findChild_spec s.procs targetPid with hnone | ⟨hlt, hpid, hparent⟩
  · rw [if_pos (beq_iff_eq.mpr hnone)]
    refine ⟨?_, h.law.refuse rfl rfl⟩
    exact ⟨h.kin.books, h.kin.below, h.kin.unique, h.kin.named, h.kin.parents, h.kin.zombies,
      h.kin.reapedBelow, h.kin.reapedFree, h.kin.waits⟩
  · rw [if_neg (by simpa using UInt64.ne_of_lt hlt)]
    have hthere := hok hlt
    -- a process that was reaped has left its slot
    have hlate : decide (targetPid ∈ s.past.reaped) = false := by
      rw [decide_eq_false_iff_not]
      intro hreaped
      exact hthere (h.kin.reapedFree targetPid hreaped _ hlt hpid)
    rw [hlate]
    have hkin := h.kin.wait (alive_of_idle hidle).1 hlt hpid hparent hthere
    refine ⟨hkin, h.law.setWaits ?_⟩
    intro slot target child hw
    obtain ⟨-, -, target', child', heq, -⟩ := hkin.waits slot _ hw
    simp at heq

theorem Jobs.Family.polled (h : s.Family) {targetPid childSlot : UInt64} {late : Bool}
    (hwait : s.past.waits s.slot = some (.child targetPid childSlot late)) :
    (s.polled targetPid childSlot late).Family := by
  obtain ⟨hrange, hcaller, target, child, hw, hslot, hpid, hparent, hthere⟩ := h.kin.waits _ _ hwait
  simp only [Waiting.child.injEq] at hw
  obtain ⟨rfl, rfl, rfl⟩ := hw
  unfold Jobs.polled Process.reapChild
  by_cases hzombie : s.procs.state childSlot = procZombie
  · rw [if_pos (beq_iff_eq.mpr hzombie)]
    dsimp only
    rw [hpid]
    have hkin := h.kin.reap hwait hzombie
    have hne : (s.procs.table s.slot).pid ≠ 0 := h.kin.named _ hrange (aliveState_iff.mp hcaller).1
    have hchild := h.kin.parents childSlot hslot (hparent ▸ hne)
    have hexit := h.kin.zombies childSlot hslot hzombie
    have hnew : targetPid ∉ s.past.reaped := fun hreaped =>
      hthere (h.kin.reapedFree targetPid hreaped childSlot hslot hpid)
    rw [hparent, hpid] at hchild
    rw [hpid] at hexit
    have hlaw := h.law.reap (a := ⟨s.callerPid, targetPid, (s.procs.table childSlot).ipcMsg0, false,
      some targetPid⟩) rfl hchild hexit hnew
    have hcurrent : (setState s.procs childSlot procFree).currentPid = s.procs.currentPid :=
      currentPid_setState ..
    refine ⟨?_, ?_⟩
    · change Kin _ (setState s.procs childSlot procFree)
      unfold Jobs.setWait Jobs.answer Jobs.withProcs Jobs.slot Jobs.procs
      dsimp only
      rw [show s.threads.procs = s.procs from rfl, hcurrent]
      exact ⟨hkin.books, hkin.below, hkin.unique, hkin.named, hkin.parents, hkin.zombies,
        hkin.reapedBelow, hkin.reapedFree, hkin.waits⟩
    · have hreturns : ∀ slot targetPid childSlot,
          Function.update s.past.waits s.procs.currentPid none slot ≠
            some (.child targetPid childSlot true) := by
        intro slot target child hw
        obtain ⟨-, -, target', child', heq, -⟩ := hkin.waits slot _ hw
        simp at heq
      unfold Jobs.setWait Jobs.answer Jobs.withProcs Jobs.slot Jobs.procs
      dsimp only
      rw [show s.threads.procs = s.procs from rfl, hcurrent]
      exact hlaw.setWaits hreturns
  · rw [if_neg (by simpa using hzombie)]
    exact h

/-- **A careful step** keeps the law. -/
theorem Jobs.Family.exec (h : s.Family) {op : JobOp} (hok : ReapCareful s op) : (s.exec op).Family := by
  have hsteady := steady_kin s.past
  cases op with
  | alloc => exact h.withProcs (hsteady.allocPid h.kin hok)
  | spawn =>
    unfold Jobs.exec
    dsimp only
    split
    · next hidle => exact h.spawned hidle hok
    · exact h
  | setEntity slot entity =>
    unfold Jobs.exec
    dsimp only
    split
    · exact h.withProcs (h.kin.modify rfl rfl rfl fun _ => rfl)
    · exact h
  | setStatus status => exact ⟨h.kin, h.law⟩
  | change slot state =>
    unfold Jobs.exec
    dsimp only
    split
    · next hlive =>
      rw [Bool.and_eq_true, Bool.and_eq_true] at hlive
      exact h.withProcs (h.kin.setState hlive.1.2 hlive.2)
    · exact h
  | switch slot =>
    unfold Jobs.exec
    dsimp only
    split
    · next hlive =>
      rw [Bool.and_eq_true, decide_eq_true_eq] at hlive
      exact h.withProcs (hsteady.current h.kin hlive.1)
    · exact h
  | ipcSend targetPid msg0 msg1 msg2 drained =>
    unfold Jobs.exec
    dsimp only
    split
    · refine h.withProcs (hsteady.sysIpcSend h.kin msg0 msg1 msg2 ?_ hok.2)
      intro hlt hzombie hempty
      exact absurd ⟨hlt, hzombie, hempty⟩ hok.1
    · exact h
  | ringSend slot targetPid msg0 msg1 => exact h.withProcs (hsteady.ringIpcSend h.kin ..)
  | exit exitCode =>
    unfold Jobs.exec
    dsimp only
    split
    · next hidle =>
      obtain ⟨halive, hnone⟩ := alive_of_idle hidle
      refine ⟨?_, h.law.mono rfl (fun _ hc => hc) (fun _ he => List.mem_cons_of_mem _ he)⟩
      change Kin _ (exitThread s.threads exitCode).procs
      rw [procs_exitThread]
      exact h.kin.processExit halive hnone exitCode
    · exact h
  -- The calls on entities are the two that a careful step excludes.
  | entityExit exitCode => exact hok.elim
  | wait targetPid =>
    unfold Jobs.exec
    dsimp only
    split
    · next hidle => exact h.waited hidle hok
    · exact h
  | entityWait entity => exact hok.elim
  -- A pending `wait` is on a process, never on an entity.
  | poll =>
    unfold Jobs.exec
    dsimp only
    split
    · exact h
    · next targetPid childSlot late hwait => exact h.polled hwait
    · next entity childSlot hwait =>
      obtain ⟨-, -, target, child, hw, -⟩ := h.kin.waits _ _ hwait
      cases hw

theorem family_boot : Jobs.boot.Family := by
  have hbooks : Books Jobs.boot.procs := kept_boot.books
  refine ⟨⟨hbooks, ?_, ?_, ?_, ?_, ?_, ?_, ?_, ?_⟩, ?_, List.nodup_nil, ?_, ?_, ?_⟩
  · intro slot _
    exact show (0 : UInt64).toNat < (1 : UInt64).toNat by decide
  · intro slot _ slot' _ _ hne
    exact absurd rfl hne
  · intro slot _ hne
    exact absurd rfl hne
  · intro slot _ hne
    exact absurd rfl hne
  · intro slot _ hz
    exact absurd (show procFree = procZombie from hz) (by decide)
  · intro pid hpid
    cases hpid
  · intro pid hpid
    cases hpid
  · intro slot w hw
    cases hw
  · intro a ha
    cases ha
  · intro pid hpid
    cases hpid
  · intro a ha
    cases ha
  · intro slot targetPid childSlot hw
    cases hw

end Runs

/-- **`sys_wait` reaps exactly its child**, in every run in which each step is careful. -/
theorem reapsOnce_of_careful {ops : List JobOp} (hok : Admissible Jobs.exec ReapCareful Jobs.boot ops) :
    ReapsOnce (runOps Jobs.exec Jobs.boot ops).past :=
  (runOps_induction (I := Jobs.Family) (fun _ _ h hstep => h.exec hstep) family_boot hok).law

/-- A process spawns another, which exits with 7, and waits for it. -/
theorem reapsOnce_seven :
    (runOps Jobs.exec Jobs.boot
        [.alloc, .spawn, .switch 1, .exit 7, .switch 0, .wait 2, .poll]).past.answers =
        [⟨1, 2, 7, false, some 2⟩] ∧
      ReapsOnce (runOps Jobs.exec Jobs.boot
        [.alloc, .spawn, .switch 1, .exit 7, .switch 0, .wait 2, .poll]).past := by
  refine ⟨by decide +kernel, reapsOnce_of_careful ⟨?_, ?_, trivial, trivial, trivial, ?_, trivial, trivial⟩⟩
  · exact ⟨by decide, fun _ => rfl⟩
  · have hnext : (runOps Jobs.exec Jobs.boot [.alloc]).procs.nextPid + 1 ≠ 0 := by decide +kernel
    exact hnext
  · have hthere : (runOps Jobs.exec Jobs.boot [.alloc, .spawn, .switch 1, .exit 7, .switch 0]).procs.state
        (findChild (runOps Jobs.exec Jobs.boot [.alloc, .spawn, .switch 1, .exit 7, .switch 0]).procs 2) ≠
        procFree := by decide +kernel
    exact fun _ => hthere

/-- **The exit code is a message**: the parent sends 99 to the zombie that has exited with 7, and its wait
answers 99. -/
theorem not_reapsOnce_message :
    ¬ ReapsOnce (runOps Jobs.exec Jobs.boot
      [.alloc, .spawn, .switch 1, .exit 7, .switch 0, .ipcSend 1 99 0 0 [], .wait 2, .poll]).past := by
  intro h
  have hanswer : (⟨1, 2, 99, false, some 2⟩ : Answer) ∈
      (runOps Jobs.exec Jobs.boot [.alloc, .spawn, .switch 1,
      .exit 7, .switch 0, .ipcSend 1 99 0 0 [], .wait 2, .poll]).past.answers := by decide +kernel
  have hexits : (runOps Jobs.exec Jobs.boot [.alloc, .spawn, .switch 1, .exit 7, .switch 0,
      .ipcSend 1 99 0 0 [], .wait 2, .poll]).past.exits = [(2, 7)] := by decide +kernel
  have hcode := (h.child _ hanswer (by decide)).2
  rw [hexits] at hcode
  exact absurd hcode (by decide)

end Keuos.Process
