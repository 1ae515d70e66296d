import Keuos.Process.Equiv.RingSlots
import Keuos.Process.Equiv.Sched
import Keuos.Process.Waiting

/-!
# One running process

Three routines make a process RUNNING: `switch_to_process`, which `schedule_next` and `sys_ipc_send` call,
and `switch_to_slot`, which the exits call.  Each of them is called by the process that leaves, and this
process is RUNNING no more when the next one starts: it is READY, blocked or a zombie.

## Main results

* `oneRunning_run`: in every run on one core, only the current process can be RUNNING, and every process
  that was dispatched was READY.
-/

namespace Keuos.Process

/-! ### Runs on one core -/

/-- What `switch_to_process` does to the process that leaves. -/
def leaveProcess (drainSq : UInt64 → Procs → Procs) (p : Procs) (current : UInt64) : Procs :=
  let p₁ := drainSq current p
  if p₁.state current == procRunning then setState p₁ current procReady else p₁

/-- The scheduler, and the processes that were dispatched, with the state that each had. -/
structure Core where
  sched : SchedGlobals
  dispatched : List (UInt64 × UInt64)

/-- A call of `schedule_next`, of `sys_ipc_send`, of `sys_ipc_recv` and its return from the yield; the body
of the loop of `sys_tcp_accept`, with the answer of `tcp_accept`; the wake functions; `process_exit`; and
`sys_wait` and its return from the yield.  A switch comes with the submissions that are drained. -/
inductive CoreOp where
  | schedule (pulseEmpty : Bool) (drained : List Request)
  | ipcSend (targetPid msg0 msg1 msg2 : UInt64) (drained : List Request)
  | ipcRecv
  | ipcResume (slot : UInt64)
  | tcpAccept (listenSlot ret : UInt64) (pulseEmpty : Bool) (drained : List Request)
  | wakeAccept (listenSlot : UInt64)
  | wakeRecv (connId : UInt64)
  | exit (exitCode : UInt64)
  | wait (targetPid : UInt64)
  | poll (childSlot : UInt64)

def Core.withProcs (c : Core) (p : Procs) : Core :=
  { c with sched := { c.sched with procs := p } }

/-- A process is dispatched. -/
def Core.dispatch (c : Core) (next state : UInt64) : Core :=
  { c with dispatched := (next, state) :: c.dispatched }

/-- `schedule_next`, with the switch. -/
def Core.schedule (c : Core) (pulseEmpty : Bool) (drained : List Request) : Core :=
  let r := scheduleNext c.sched pulseEmpty
  let c₁ := { c with sched := r.2 }
  match r.1 with
  | none => c₁
  | some (current, next) =>
    (c₁.dispatch next ((leaveProcess (drainAll drained) r.2.procs current).state next)).withProcs
      (switchToProcess (drainAll drained) r.2.procs current next)

/-- `sys_ipc_send`. -/
def Core.ipcSend (c : Core) (targetPid msg0 msg1 msg2 : UInt64) (drained : List Request) : Core :=
  let p := c.sched.procs
  let r := sysIpcSend (drainAll drained) p targetPid msg0 msg1 msg2
  if targetPid < maxProcs && p.state targetPid == procIpcBlocked then
    let p₁ := setIpcMsg (unblock p targetPid) targetPid p.currentPid msg0 msg1 msg2
    (c.dispatch targetPid ((leaveProcess (drainAll drained) p₁ p.currentPid).state targetPid)).withProcs r.2
  else c.withProcs r.2

/-- `process_exit`. -/
def Core.exit (c : Core) (exitCode : UInt64) : Core :=
  let slot := c.sched.procs.currentPid
  let p := decCount (setState (setIpcMsg c.sched.procs slot 0 exitCode 0 0) slot procZombie)
  let c₁ := match nextReadyFrom p slot 63 1 with
    | some next => c.dispatch next (p.state next)
    | none => c
  c₁.withProcs (processExit c.sched.procs exitCode)

def Core.exec (c : Core) : CoreOp → Core
  | .schedule pulseEmpty drained => c.schedule pulseEmpty drained
  | .ipcSend targetPid msg0 msg1 msg2 drained => c.ipcSend targetPid msg0 msg1 msg2 drained
  | .ipcRecv => c.withProcs (sysIpcRecv c.sched.procs).2
  | .ipcResume slot => c.withProcs (resumeIpcRecv c.sched.procs slot).2
  | .tcpAccept listenSlot ret pulseEmpty drained =>
    if ret == 0xFFFFFFFFFFFFFFFF then
      (c.withProcs (blockAccept c.sched.procs listenSlot)).schedule pulseEmpty drained
    else c
  | .wakeAccept listenSlot => c.withProcs (schedWakeAccept c.sched.procs listenSlot)
  | .wakeRecv connId => c.withProcs (schedWakeRecv c.sched.procs connId)
  | .exit exitCode => c.exit exitCode
  | .wait targetPid =>
    let childSlot := findChild c.sched.procs targetPid
    if childSlot == maxProcs then c else c.withProcs (reapChild c.sched.procs childSlot).2
  | .poll childSlot => c.withProcs (reapChild c.sched.procs childSlot).2

/-- Only the current process can be RUNNING. -/
def OneRunning (p : Procs) : Prop :=
  ∀ slot, slot < maxProcs → p.state slot = procRunning → slot = p.currentPid

section OneRunning

variable {p q : Procs}

/-! ### Steps that dispatch nobody -/

/-- Processes may stop running, and none starts. -/
structure Settles (p q : Procs) : Prop where
  current : q.currentPid = p.currentPid
  running : ∀ i, q.state i = procRunning → p.state i = procRunning

theorem Settles.refl (p : Procs) : Settles p p := ⟨rfl, fun _ h => h⟩

theorem Settles.trans {r : Procs} (h : Settles p q) (h' : Settles q r) : Settles p r :=
  ⟨h'.current.trans h.current, fun i hi => h.running i (h'.running i hi)⟩

theorem OneRunning.of_settles (h : OneRunning p) (hs : Settles p q) : OneRunning q := by
  intro slot hslot hstate
  rw [hs.current]
  exact h slot hslot (hs.running slot hstate)

theorem settles_setState (p : Procs) (slot : UInt64) {state : UInt64} (hstate : state ≠ procRunning) :
    Settles p (setState p slot state) := by
  refine ⟨currentPid_setState .., ?_⟩
  intro i hi
  rw [state_setState] at hi
  split at hi
  · exact absurd hi hstate
  · exact hi

theorem state_setIpcMsg (p : Procs) (slot sender msg0 msg1 msg2 i : UInt64) :
    (setIpcMsg p slot sender msg0 msg1 msg2).state i = p.state i := by
  unfold setIpcMsg
  rw [state_modify]
  split
  · next hi => rw [hi, Procs.state]
  · rfl

theorem settles_setIpcMsg (p : Procs) (slot sender msg0 msg1 msg2 : UInt64) :
    Settles p (setIpcMsg p slot sender msg0 msg1 msg2) := by
  refine ⟨rfl, ?_⟩
  intro i hi
  rwa [state_setIpcMsg] at hi

theorem settles_schedWakeFrom (blocked key : UInt64) (n : Nat) (i : UInt64) (p : Procs) :
    Settles p (schedWakeFrom blocked key n i p) := by
  induction n generalizing i with
  | zero => exact Settles.refl p
  | succ n ih =>
    unfold schedWakeFrom
    split
    · exact settles_setState p i (by decide)
    · exact ih (i + 1)

theorem settles_sysIpcRecv (p : Procs) : Settles p (sysIpcRecv p).2 := by
  unfold sysIpcRecv
  dsimp only
  split
  · exact settles_setIpcMsg ..
  · exact settles_setState p _ (by decide)

theorem settles_blockAccept (p : Procs) (listenSlot : UInt64) : Settles p (blockAccept p listenSlot) :=
  (settles_setIpcMsg ..).trans (settles_setState _ _ (by decide))

theorem settles_reapChild (p : Procs) (childSlot : UInt64) : Settles p (reapChild p childSlot).2 := by
  unfold reapChild
  split
  · exact settles_setState p _ (by decide)
  · exact Settles.refl p

/-! ### What a drain does -/

/-- Processes may become READY. -/
structure Wakes (p q : Procs) : Prop where
  current : q.currentPid = p.currentPid
  state : ∀ i, q.state i = p.state i ∨ q.state i = procReady

theorem Wakes.refl (p : Procs) : Wakes p p := ⟨rfl, fun _ => .inl rfl⟩

theorem Wakes.trans {r : Procs} (h : Wakes p q) (h' : Wakes q r) : Wakes p r := by
  refine ⟨h'.current.trans h.current, fun i => ?_⟩
  rcases h'.state i with hi | hi
  · rw [hi]
    exact h.state i
  · exact .inr hi

theorem Wakes.settles (h : Wakes p q) : Settles p q := by
  refine ⟨h.current, fun i hi => ?_⟩
  rcases h.state i with hsame | hready
  · rwa [hsame] at hi
  · rw [hready] at hi
    exact absurd hi (by decide)

theorem Wakes.ready (h : Wakes p q) {i : UInt64} (hi : p.state i = procReady) : q.state i = procReady := by
  rcases h.state i with hsame | hready
  · rw [hsame, hi]
  · exact hready

theorem wakes_unblock (p : Procs) (slot : UInt64) : Wakes p (unblock p slot) := by
  refine ⟨rfl, fun i => ?_⟩
  unfold unblock
  rw [state_modify]
  split
  · exact .inr rfl
  · exact .inl rfl

theorem wakes_setIpcMsg (p : Procs) (slot sender msg0 msg1 msg2 : UInt64) :
    Wakes p (setIpcMsg p slot sender msg0 msg1 msg2) :=
  ⟨rfl, fun _ => .inl (state_setIpcMsg ..)⟩

theorem wakes_allocPid (p : Procs) : Wakes p (allocPid p).2 := by
  rcases allocPid_cases p with hfull | ⟨slot, -, htake⟩
  · rw [hfull]
    exact Wakes.refl p
  · rw [htake]
    refine ⟨rfl, fun i => ?_⟩
    dsimp only
    rw [state_claimSlot]
    split
    · exact .inr rfl
    · exact .inl rfl

theorem wakes_spawnSlot (p : Procs) (pml4 : Option UInt64) : Wakes p (spawnSlot p pml4) := by
  unfold spawnSlot
  dsimp only
  cases pml4 with
  | none => exact wakes_allocPid p
  | some root =>
    dsimp only
    split
    · exact wakes_allocPid p
    · refine (wakes_allocPid p).trans ⟨rfl, fun i => .inl ?_⟩
      rw [state_modify]
      split
      · next hi => rw [hi, Procs.state]
      · rfl

theorem wakes_request (slot : UInt64) (p : Procs) (r : Request) : Wakes p (r.apply slot p) := by
  cases r with
  | ipcSend targetPid msg0 msg1 =>
    unfold Request.apply ringIpcSend
    dsimp only
    split_ifs
    · exact Wakes.refl p
    · exact Wakes.refl p
    · exact (wakes_unblock p targetPid).trans (wakes_setIpcMsg ..)
    · exact Wakes.refl p
  | spawn pml4 => exact wakes_spawnSlot p pml4
  | other => exact Wakes.refl p

theorem wakes_drainAll (drained : List Request) (slot : UInt64) (p : Procs) :
    Wakes p (drainAll drained slot p) := by
  induction drained generalizing p with
  | nil => exact Wakes.refl p
  | cons r drained ih => exact (wakes_request slot p r).trans (ih _)

/-! ### Dispatching -/

/-- No process is RUNNING. -/
def NoneRunning (p : Procs) : Prop := ∀ slot, slot < maxProcs → p.state slot ≠ procRunning

theorem OneRunning.noneRunning (h : OneRunning p) {state : UInt64} (hstate : state ≠ procRunning) :
    NoneRunning (setState p p.currentPid state) := by
  intro slot hslot hrun
  rw [state_setState] at hrun
  split at hrun
  · exact hstate hrun
  · next hne => exact hne (h slot hslot hrun)

theorem OneRunning.leaveProcess (h : OneRunning p) (drained : List Request) :
    NoneRunning (leaveProcess (drainAll drained) p p.currentPid) := by
  have hdrained := wakes_drainAll drained p.currentPid p
  have h' := h.of_settles hdrained.settles
  have hready := h'.noneRunning (show procReady ≠ procRunning by decide)
  rw [hdrained.current] at hready
  unfold Process.leaveProcess
  dsimp only
  split
  · exact hready
  · next hnot =>
    intro slot hslot hrun
    have hcurrent := h' slot hslot hrun
    rw [hdrained.current] at hcurrent
    rw [hcurrent] at hrun
    exact hnot (beq_iff_eq.mpr hrun)

theorem NoneRunning.dispatch (h : NoneRunning p) (next : UInt64) :
    OneRunning (setCurrent (setState p next procRunning) next) := by
  intro slot hslot hrun
  change (setState p next procRunning).state slot = procRunning at hrun
  rw [state_setState] at hrun
  split at hrun
  · next heq => exact heq
  · exact absurd hrun (h slot hslot)

theorem OneRunning.switchToProcess (h : OneRunning p) (drained : List Request) (next : UInt64) :
    OneRunning (switchToProcess (drainAll drained) p p.currentPid next) :=
  (h.leaveProcess drained).dispatch next

theorem state_leaveProcess {next : UInt64} (drained : List Request) (hnext : p.state next = procReady)
    (current : UInt64) : (leaveProcess (drainAll drained) p current).state next = procReady := by
  have hready := (wakes_drainAll drained current p).ready hnext
  unfold leaveProcess
  dsimp only
  split
  · rw [state_setState]
    split
    · rfl
    · exact hready
  · exact hready

theorem ready_of_dispatchable {state : UInt64} (h : dispatchable state = true) (hne : state ≠ procRunning) :
    state = procReady := by
  unfold dispatchable at h
  rw [Bool.or_eq_true, beq_iff_eq, beq_iff_eq] at h
  exact h.resolve_right hne

end OneRunning

/-! ### Runs -/

section Runs

variable {c : Core}

/-- Only the current process can be RUNNING, and every process that was dispatched was READY. -/
structure Core.Sound (c : Core) : Prop where
  running : OneRunning c.sched.procs
  ready : ∀ d ∈ c.dispatched, d.2 = procReady

theorem Core.Sound.withProcs (h : c.Sound) {p : Procs} (hp : OneRunning p) : (c.withProcs p).Sound :=
  ⟨hp, h.ready⟩

theorem Core.Sound.dispatch (h : c.Sound) {next state : UInt64} (hready : state = procReady) :
    (c.dispatch next state).Sound := by
  refine ⟨h.running, ?_⟩
  intro d hd
  rcases List.mem_cons.mp hd with rfl | hd
  · exact hready
  · exact h.ready d hd

theorem Core.Sound.schedule (h : c.Sound) (pulseEmpty : Bool) (drained : List Request) :
    (c.schedule pulseEmpty drained).Sound := by
  obtain ⟨hprocs, hnext⟩ := scheduleNext_spec c.sched pulseEmpty
  unfold Core.schedule
  dsimp only
  have hrunning : OneRunning (scheduleNext c.sched pulseEmpty).2.procs := hprocs ▸ h.running
  have h₁ : Core.Sound { c with sched := (scheduleNext c.sched pulseEmpty).2 } := ⟨hrunning, h.ready⟩
  cases hchoice : (scheduleNext c.sched pulseEmpty).1 with
  | none => exact h₁
  | some choice =>
    obtain ⟨current, next⟩ := choice
    obtain ⟨rfl, hslot, hne, hdisp⟩ := hnext current next hchoice
    have hready : c.sched.procs.state next = procReady :=
      ready_of_dispatchable hdisp (fun hrun => hne (h.running next hslot hrun))
    rw [← hprocs] at hready ⊢
    refine (h₁.dispatch ?_).withProcs ?_
    · exact state_leaveProcess drained hready _
    · exact hrunning.switchToProcess drained next

theorem sysIpcSend_of_blocked {drainSq : UInt64 → Procs → Procs} {p : Procs} {targetPid : UInt64}
    (hrange : targetPid < maxProcs) (hblocked : p.state targetPid = procIpcBlocked)
    (msg0 msg1 msg2 : UInt64) :
    (sysIpcSend drainSq p targetPid msg0 msg1 msg2).2 =
      switchToProcess drainSq (setIpcMsg (unblock p targetPid) targetPid p.currentPid msg0 msg1 msg2)
        p.currentPid targetPid := by
  unfold sysIpcSend
  dsimp only
  rw [if_neg (UInt64.not_le.mpr hrange), hblocked, if_neg (by decide), if_pos (by decide)]

theorem settles_sysIpcSend {drainSq : UInt64 → Procs → Procs} {p : Procs} {targetPid : UInt64}
    (hnot : ¬ (targetPid < maxProcs ∧ p.state targetPid = procIpcBlocked)) (msg0 msg1 msg2 : UInt64) :
    Settles p (sysIpcSend drainSq p targetPid msg0 msg1 msg2).2 := by
  unfold sysIpcSend
  dsimp only
  split_ifs with hrange hfree hblocked hmail
  · exact Settles.refl p
  · exact Settles.refl p
  · exact absurd ⟨UInt64.not_le.mp hrange, beq_iff_eq.mp hblocked⟩ hnot
  · exact settles_setIpcMsg ..
  · exact Settles.refl p

theorem Core.Sound.ipcSend (h : c.Sound) (targetPid msg0 msg1 msg2 : UInt64) (drained : List Request) :
    (c.ipcSend targetPid msg0 msg1 msg2 drained).Sound := by
  unfold Core.ipcSend
  dsimp only
  by_cases hblocked : targetPid < maxProcs ∧ c.sched.procs.state targetPid = procIpcBlocked
  · rw [if_pos (by simpa using hblocked), sysIpcSend_of_blocked hblocked.1 hblocked.2]
    have hwoken := (wakes_unblock c.sched.procs targetPid).trans
      (wakes_setIpcMsg _ targetPid c.sched.procs.currentPid msg0 msg1 msg2)
    have hrunning := h.running.of_settles hwoken.settles
    refine (h.dispatch (state_leaveProcess drained ?_ _)).withProcs ?_
    · rw [state_setIpcMsg, unblock, state_modify, if_pos rfl]
    · exact hrunning.switchToProcess drained targetPid
  · rw [if_neg (by simpa using hblocked)]
    exact h.withProcs (h.running.of_settles (settles_sysIpcSend hblocked msg0 msg1 msg2))

theorem Core.Sound.exit (h : c.Sound) (exitCode : UInt64) : (c.exit exitCode).Sound := by
  unfold Core.exit processExit switchToNextReady
  dsimp only
  have hnone : NoneRunning (decCount (setState (setIpcMsg c.sched.procs c.sched.procs.currentPid 0 exitCode
      0 0) c.sched.procs.currentPid procZombie)) :=
    OneRunning.noneRunning (h.running.of_settles (settles_setIpcMsg ..)) (by decide)
  generalize decCount (setState (setIpcMsg c.sched.procs c.sched.procs.currentPid 0 exitCode 0 0)
    c.sched.procs.currentPid procZombie) = p at hnone ⊢
  cases hfound : nextReadyFrom p c.sched.procs.currentPid 63 1 with
  | none => exact h.withProcs (fun slot hslot hrun => absurd hrun (hnone slot hslot))
  | some next =>
    obtain ⟨hslot, hdisp⟩ := nextReadyFrom_some hfound
    refine (h.dispatch (ready_of_dispatchable hdisp (hnone next hslot))).withProcs ?_
    exact hnone.dispatch next

/-- **One step** keeps the invariant. -/
theorem Core.Sound.exec (h : c.Sound) (op : CoreOp) : (c.exec op).Sound := by
  cases op with
  | schedule pulseEmpty drained => exact h.schedule pulseEmpty drained
  | ipcSend targetPid msg0 msg1 msg2 drained => exact h.ipcSend targetPid msg0 msg1 msg2 drained
  | ipcRecv => exact h.withProcs (h.running.of_settles (settles_sysIpcRecv _))
  | ipcResume slot => exact h.withProcs (h.running.of_settles (settles_setIpcMsg ..))
  | tcpAccept listenSlot ret pulseEmpty drained =>
    unfold Core.exec
    dsimp only
    split
    · have hblocked := h.running.of_settles (settles_blockAccept c.sched.procs listenSlot)
      exact (h.withProcs hblocked).schedule pulseEmpty drained
    · exact h
  | wakeAccept listenSlot => exact h.withProcs (h.running.of_settles (settles_schedWakeFrom ..))
  | wakeRecv connId => exact h.withProcs (h.running.of_settles (settles_schedWakeFrom ..))
  | exit exitCode => exact h.exit exitCode
  | wait targetPid =>
    unfold Core.exec
    dsimp only
    split
    · exact h
    · exact h.withProcs (h.running.of_settles (settles_reapChild ..))
  | poll childSlot => exact h.withProcs (h.running.of_settles (settles_reapChild ..))

/-- **One running process**: from a state in which only the current process is RUNNING, every run keeps it
so, and every process that is dispatched in it was READY, neither blocked nor a zombie. -/
theorem oneRunning_run {sched : SchedGlobals}
    (hstart : ∀ slot, slot < maxProcs →
      (sched.procs.state slot = procRunning ↔ slot = sched.procs.currentPid)) (ops : List CoreOp) :
    OneRunning (runOps Core.exec ⟨sched, []⟩ ops).sched.procs ∧
      ∀ d ∈ (runOps Core.exec ⟨sched, []⟩ ops).dispatched, d.2 = procReady := by
  have hinit : Core.Sound ⟨sched, []⟩ :=
    ⟨fun slot hslot hrun => (hstart slot hslot).mp hrun, fun d hd => absurd hd List.not_mem_nil⟩
  have hrun := runOps_invariant (I := Core.Sound) (fun _ op h => h.exec op) hinit ops
  exact ⟨hrun.running, hrun.ready⟩

/-- Slot 0 runs, slot 1 is blocked for a message and slot 2 is READY. -/
def threeProcs : SchedGlobals where
  procs := { Procs.zero with
    table := fun i =>
      if i == 0 then { Pcb.zero with state := procRunning }
      else if i == 1 then { Pcb.zero with state := procIpcBlocked, userPml4 := 0x1000 }
      else if i == 2 then { Pcb.zero with state := procReady, userPml4 := 0x2000 }
      else Pcb.zero }
  lastDispatched := 0
  task0Cooldown := 0

/-- A message wakes slot 1, which exits. -/
theorem oneRunning_run_send :
    let c := runOps Core.exec ⟨threeProcs, []⟩ [.ipcSend 1 7 8 9 [], .exit 3]
    c.dispatched = [(2, procReady), (1, procReady)] ∧ OneRunning c.sched.procs ∧
      ∀ d ∈ c.dispatched, d.2 = procReady := by
  refine ⟨by decide, oneRunning_run ?_ _⟩
  intro slot _
  unfold threeProcs Procs.state
  dsimp only
  split_ifs with h₀ h₁ h₂
  · exact ⟨fun _ => beq_iff_eq.mp h₀, fun _ => rfl⟩
  · exact ⟨fun h => absurd h (by decide), fun h => absurd (beq_iff_eq.mpr h) h₀⟩
  · exact ⟨fun h => absurd h (by decide), fun h => absurd (beq_iff_eq.mpr h) h₀⟩
  · exact ⟨fun h => absurd h (by decide), fun h => absurd (beq_iff_eq.mpr h) h₀⟩

end Runs

end Keuos.Process

/-!
## Steady invariants of the process table

Scheduling, messages and allocations change the process table in a few ways: the state of a process that
is alive becomes another state of that kind, a mailbox is written, the current process changes, a slot is
taken.  An invariant that is kept by each of these is kept by all functions that are made of them.

`mailOk p slot` is the condition under which a mailbox may be written, and `allocOk p` the condition under
which a slot may be taken.
-/

namespace Keuos.Process

/-- An invariant that scheduling, messages and allocations keep. -/
structure Steady (I : Procs → Prop) (mailOk : Procs → UInt64 → Prop) (allocOk : Procs → Prop) :
    Prop where
  range : ∀ {p}, I p → p.currentPid < maxProcs
  state : ∀ {p slot state}, I p → slot < maxProcs → aliveState (p.state slot) = true →
    aliveState state = true → I (setState p slot state)
  mail : ∀ {p slot}, I p → slot < maxProcs → mailOk p slot → ∀ sender msg0 msg1 msg2,
    I (setIpcMsg p slot sender msg0 msg1 msg2)
  alive : ∀ {p slot}, p.state slot ≠ procZombie → mailOk p slot
  current : ∀ {p slot}, I p → slot < maxProcs → I (setCurrent p slot)
  alloc : ∀ {p slot}, I p → allocOk p → slot < maxProcs → allocPid p = (slot, claimSlot p slot) →
    I (claimSlot p slot)
  root : ∀ {p}, I p → ∀ slot pml4, I (p.modify slot fun b => { b with userPml4 := pml4 })

/-- The slots that a submission takes may be taken. -/
def Request.AllocOk (allocOk : Procs → Prop) (p : Procs) : Request → Prop
  | .spawn _ => allocOk p
  | _ => True

theorem aliveState_iff {state : UInt64} :
    aliveState state = true ↔ state ≠ procFree ∧ state ≠ procZombie := by
  unfold aliveState
  rw [Bool.and_eq_true, bne_iff_ne, bne_iff_ne]

theorem aliveState_of_dispatchable {state : UInt64} (h : dispatchable state = true) :
    aliveState state = true := by
  unfold dispatchable at h
  rw [Bool.or_eq_true, beq_iff_eq, beq_iff_eq] at h
  rcases h with rfl | rfl
  · decide
  · decide

theorem unblock_eq (p : Procs) (slot : UInt64) : unblock p slot = setState p slot procReady := by
  unfold unblock setState
  rw [if_neg (by decide)]

section Steady

variable {I : Procs → Prop} {mailOk : Procs → UInt64 → Prop} {allocOk : Procs → Prop} {p : Procs}

theorem Steady.allocPid (hI : Steady I mailOk allocOk) (h : I p) (hok : allocOk p) :
    I (allocPid p).2 := by
  rcases allocPid_cases p with hfull | ⟨slot, hslot, htake⟩
  · rw [hfull]
    exact h
  · rw [htake]
    exact hI.alloc h hok hslot htake

theorem Steady.unblock (hI : Steady I mailOk allocOk) (h : I p) {slot : UInt64} (hslot : slot < maxProcs)
    (hblocked : p.state slot = procIpcBlocked) : I (unblock p slot) := by
  rw [unblock_eq]
  refine hI.state h hslot ?_ (by decide)
  rw [hblocked]
  decide

theorem Steady.deliver (hI : Steady I mailOk allocOk) (h : I p) {slot : UInt64} (hslot : slot < maxProcs)
    (hblocked : p.state slot = procIpcBlocked) (sender msg0 msg1 msg2 : UInt64) :
    I (setIpcMsg (Process.unblock p slot) slot sender msg0 msg1 msg2) := by
  refine hI.mail (hI.unblock h hslot hblocked) hslot (hI.alive ?_) ..
  rw [unblock_eq, state_setState, if_pos rfl]
  decide

theorem Steady.ringIpcSend (hI : Steady I mailOk allocOk) (h : I p) (slot targetPid msg0 msg1 : UInt64) :
    I (ringIpcSend p slot targetPid msg0 msg1).2 := by
  unfold Process.ringIpcSend
  split_ifs with hrange hfree hblocked
  · exact h
  · exact h
  · have hlt : targetPid < maxProcs :=
      UInt64.lt_of_lt_of_le (UInt64.not_le.mp hrange) (by decide)
    exact hI.deliver h hlt (beq_iff_eq.mp hblocked) ..
  · exact h

theorem Steady.request (hI : Steady I mailOk allocOk) (slot : UInt64) (p : Procs) (r : Request) (h : I p)
    (hok : r.AllocOk allocOk p) : I (r.apply slot p) := by
  cases r with
  | ipcSend targetPid msg0 msg1 => exact hI.ringIpcSend h slot targetPid msg0 msg1
  | spawn pml4 =>
    have halloc := hI.allocPid h hok
    unfold Request.apply spawnSlot
    dsimp only
    cases pml4 with
    | none => exact halloc
    | some root =>
      dsimp only
      split
      · exact halloc
      · exact hI.root halloc ..
  | other => exact h

theorem Steady.drainAll (hI : Steady I mailOk allocOk) (h : I p) {drained : List Request} {slot : UInt64}
    (hok : Admissible (Request.apply slot) (Request.AllocOk allocOk) p drained) :
    I (drainAll drained slot p) :=
  runOps_induction (hI.request slot) h hok

theorem Steady.switchToProcess (hI : Steady I mailOk allocOk) (h : I p) {drained : List Request}
    {next : UInt64} (hnext : next < maxProcs) (hready : p.state next = procReady)
    (hok : Admissible (Request.apply p.currentPid) (Request.AllocOk allocOk) p drained) :
    I (switchToProcess (Process.drainAll drained) p p.currentPid next) := by
  have hleft : I (leaveProcess (Process.drainAll drained) p p.currentPid) := by
    have hdrained := hI.drainAll h hok
    unfold leaveProcess
    dsimp only
    split
    · next hrun =>
      refine hI.state hdrained (hI.range h) ?_ (by decide)
      rw [beq_iff_eq.mp hrun]
      decide
    · exact hdrained
  have halive : aliveState ((leaveProcess (Process.drainAll drained) p p.currentPid).state next) = true := by
    rw [state_leaveProcess drained hready]
    decide
  exact hI.current (hI.state hleft hnext halive (by decide)) hnext

theorem Steady.sysIpcSend (hI : Steady I mailOk allocOk) (h : I p) {drained : List Request}
    {targetPid : UInt64} (msg0 msg1 msg2 : UInt64)
    (hmail : targetPid < maxProcs → p.state targetPid = procZombie → (p.table targetPid).ipcSender = 0 →
      mailOk p targetPid)
    (hok : targetPid < maxProcs → p.state targetPid = procIpcBlocked →
      Admissible (Request.apply p.currentPid) (Request.AllocOk allocOk)
        (setIpcMsg (Process.unblock p targetPid) targetPid p.currentPid msg0 msg1 msg2) drained) :
    I (sysIpcSend (Process.drainAll drained) p targetPid msg0 msg1 msg2).2 := by
  unfold Process.sysIpcSend
  dsimp only
  split_ifs with hrange hfree hblocked hempty
  · exact h
  · exact h
  · have hlt := UInt64.not_le.mp hrange
    have hstate := beq_iff_eq.mp hblocked
    refine hI.switchToProcess (hI.deliver h hlt hstate ..) hlt ?_ (hok hlt hstate)
    rw [state_setIpcMsg, unblock_eq, state_setState, if_pos rfl]
  · have hlt := UInt64.not_le.mp hrange
    refine hI.mail h hlt ?_ ..
    by_cases hzombie : p.state targetPid = procZombie
    · exact hmail hlt hzombie (beq_iff_eq.mp hempty)
    · exact hI.alive hzombie
  · exact h

theorem Steady.switchToNextReady (hI : Steady I mailOk allocOk) (h : I p) (slot : UInt64) :
    I (switchToNextReady p slot) := by
  unfold Process.switchToNextReady
  cases hfound : nextReadyFrom p slot 63 1 with
  | none => exact h
  | some next =>
    obtain ⟨hslot, hdisp⟩ := nextReadyFrom_some hfound
    exact hI.current (hI.state h hslot (aliveState_of_dispatchable hdisp) (by decide)) hslot

end Steady

end Keuos.Process
