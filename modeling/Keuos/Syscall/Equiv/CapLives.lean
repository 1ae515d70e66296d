import Keuos.Process.Equiv.Books
import Keuos.Syscall.Capability
import Keuos.Syscall.Equiv.CapTable

/-!
# Capabilities outlive their processes

The owner of a capability is a slot, and `process_exit` does not touch the capability table: the
capabilities that a process holds when it exits stay as they are, and belong to the next process that is
given the slot.

## Main results

* `capsDie_of_careful`: in every run in which a process that exits has no capability, no process can use a
  capability of another one, and the entries of a process that has exited are FREE.
* `not_capsDie_slotReused`: a process reads the flags of a capability that was bound before it was spawned.
-/

namespace Keuos.Syscall

open Process Paging

/-- The entries of the capability table that are FREE. -/
def freeCaps (caps : Caps) : Finset Nat :=
  (Finset.range 64).filter fun i => caps.state (UInt64.ofNat i) = capStateFree

/-- The process has exited. -/
def CapLife.Over (s : CapLife) (process : UInt64 × Nat) : Prop :=
  process.2 < s.life process.1 ∨ aliveState (s.procs.state process.1) = false

/-- In the state `s₂` no process can use what another has bound; and when all the others hold what they
held in the state `s₁`, there are as many FREE entries as there. -/
structure CapsDie (s₁ s₂ : CapLife) : Prop where
  rejected : ∀ c, s₂.binder c ≠ s₂.caller → getFlags s₂.caps s₂.procs.currentPid c = 0 ∧
    ∀ op : CapOp, op.capability = some c → s₂.exec (.call op) = s₂
  freed : ∀ process, s₂.Over process →
    (∀ c, s₁.caps.state c ≠ capStateFree ↔ s₂.caps.state c ≠ capStateFree ∧ s₂.binder c ≠ process) →
    (freeCaps s₂.caps).card = (freeCaps s₁.caps).card

/-! ### The process table -/

/-- Slots that are not FREE are taken, and those in `owners` have processes that have not exited. -/
structure Lives (owners : Set UInt64) (p : Procs) : Prop where
  range : p.currentPid < maxProcs
  bits : ∀ i, i < maxProcs → p.state i ≠ procFree → taken p i = true
  alive : ∀ u ∈ owners, u < maxProcs ∧ aliveState (p.state u) = true

section Lives

variable {owners : Set UInt64} {p : Procs} {slot : UInt64}

theorem Lives.mono (h : Lives owners p) {owners' : Set UInt64} (hsub : ∀ u ∈ owners', u ∈ owners) :
    Lives owners' p :=
  ⟨h.range, h.bits, fun u hu => h.alive u (hsub u hu)⟩

theorem Lives.congr (h : Lives owners p) {q : Procs} (hrange : q.currentPid < maxProcs)
    (hbitmap : q.pidBitmap = p.pidBitmap) (hstate : ∀ i, q.state i = p.state i) : Lives owners q := by
  refine ⟨hrange, ?_, ?_⟩
  · intro i hi hne
    rw [hstate] at hne
    rw [taken, hbitmap]
    exact h.bits i hi hne
  · intro u hu
    rw [hstate]
    exact h.alive u hu

theorem Lives.setState (h : Lives owners p) (hslot : p.state slot ≠ procFree) {state : UInt64}
    (hstate : state ≠ procFree) (halive : slot ∈ owners → aliveState state = true) :
    Lives owners (setState p slot state) := by
  refine ⟨?_, ?_, ?_⟩
  · rw [currentPid_setState]
    exact h.range
  · intro i hi hne
    rw [state_setState] at hne
    rw [taken, pidBitmap_setState p slot hstate]
    split at hne
    · next heq =>
      subst heq
      exact h.bits i hi hslot
    · exact h.bits i hi hne
  · intro u hu
    obtain ⟨hlt, hold⟩ := h.alive u hu
    refine ⟨hlt, ?_⟩
    rw [state_setState]
    split
    · next heq =>
      subst heq
      exact halive hu
    · exact hold

theorem Lives.setFree (h : Lives owners p) (hslot : slot < maxProcs) (hnot : slot ∉ owners) :
    Lives owners (Process.setState p slot procFree) := by
  refine ⟨?_, ?_, ?_⟩
  · rw [currentPid_setState]
    exact h.range
  · intro i hi hne
    rw [state_setState] at hne
    rw [taken_setFree hslot hi]
    split at hne
    · exact absurd rfl hne
    · next hother =>
      rw [decide_eq_false (Ne.symm hother), h.bits i hi hne]
      rfl
  · intro u hu
    obtain ⟨hlt, hold⟩ := h.alive u hu
    refine ⟨hlt, ?_⟩
    have hne : u ≠ slot := by
      rintro rfl
      exact hnot hu
    rw [state_setState, if_neg hne]
    exact hold

theorem Lives.claimSlot (h : Lives owners p) (hslot : slot < maxProcs) :
    Lives owners (claimSlot p slot) := by
  refine ⟨h.range, ?_, ?_⟩
  · intro i hi hne
    rw [taken_claimSlot hslot hi]
    by_cases heq : slot = i
    · rw [decide_eq_true heq, Bool.true_or]
    · rw [state_claimSlot, if_neg (Ne.symm heq)] at hne
      rw [h.bits i hi hne, Bool.or_true]
  · intro u hu
    obtain ⟨hlt, hold⟩ := h.alive u hu
    refine ⟨hlt, ?_⟩
    rw [state_claimSlot]
    split
    · decide
    · exact hold

theorem Lives.modify (h : Lives owners p) {f : Pcb → Pcb}
    (hstate : (f (p.table slot)).state = p.state slot) : Lives owners (p.modify slot f) := by
  refine h.congr h.range rfl ?_
  intro i
  rw [state_modify]
  split
  · next heq => rw [heq, hstate]
  · rfl

theorem steady_lives (owners : Set UInt64) : Steady (Lives owners) (fun _ _ => True) (fun _ => True) where
  range := fun h => h.range
  state := fun h _ halive hstate =>
    h.setState (aliveState_iff.mp halive).1 (aliveState_iff.mp hstate).1 fun _ => hstate
  mail := fun h _ _ _ _ _ _ => h.modify rfl
  alive := fun _ => trivial
  current := fun h hslot => ⟨hslot, h.bits, h.alive⟩
  alloc := fun h _ hslot _ => h.claimSlot hslot
  root := fun h _ _ => h.modify rfl

/-- **`process_exit`** of a process that owns nothing. -/
theorem Lives.processExit (h : Lives owners p) (halive : aliveState (p.state p.currentPid) = true)
    (hnot : p.currentPid ∉ owners) (exitCode : UInt64) : Lives owners (processExit p exitCode) := by
  have hmail : Lives owners (setIpcMsg p p.currentPid 0 exitCode 0 0) := h.modify rfl
  have hstate : (setIpcMsg p p.currentPid 0 exitCode 0 0).state p.currentPid ≠ procFree := by
    rw [state_setIpcMsg]
    exact (aliveState_iff.mp halive).1
  have hzombie : Lives owners (Process.setState (setIpcMsg p p.currentPid 0 exitCode 0 0) p.currentPid
      procZombie) := hmail.setState hstate (by decide) fun hin => absurd hin hnot
  have hcount : Lives owners (decCount (Process.setState (setIpcMsg p p.currentPid 0 exitCode 0 0)
      p.currentPid procZombie)) := hzombie.congr hzombie.range rfl fun _ => rfl
  exact (steady_lives owners).switchToNextReady hcount _

theorem Lives.reapChild (h : Lives owners p) (hslot : slot < maxProcs) :
    Lives owners (reapChild p slot).2 := by
  unfold Process.reapChild
  split
  · next hzombie =>
    refine h.setFree hslot ?_
    intro hin
    have halive := (h.alive slot hin).2
    rw [beq_iff_eq.mp hzombie] at halive
    exact absurd halive (by decide)
  · exact h

theorem Lives.not_owner_of_alloc (h : Lives owners p) (hslot : slot < maxProcs)
    (hclear : taken p slot = false) :
    slot ∉ owners := by
  intro hin
  have hset := h.bits slot hslot (aliveState_iff.mp (h.alive slot hin).2).1
  rw [hclear] at hset
  cases hset

end Lives

/-! ### Calls -/

/-- No call but `sys_cap_bind` makes an entry of the capability table BOUND, or changes its owner. -/
structure CapKept (m m' : CapMachine) : Prop where
  current : m'.procs.currentPid = m.procs.currentPid
  bitmap : m'.procs.pidBitmap = m.procs.pidBitmap
  state : ∀ i, m'.procs.state i = m.procs.state i
  caps : ∀ c, m'.caps.state c ≠ capStateFree →
    m.caps.state c ≠ capStateFree ∧ m'.caps.owner c = m.caps.owner c

section Calls

variable {m : CapMachine} {c : UInt64}

theorem CapKept.refl (m : CapMachine) : CapKept m m :=
  ⟨rfl, rfl, fun _ => rfl, fun _ hc => ⟨hc, rfl⟩⟩

theorem capKept_ringMap (m : CapMachine) (c : UInt64) {r : UInt64 × CapMachine} (hr : sysRingMap m c = r) :
    CapKept m r.2 := by
  by_cases hallowed : ringMapAllowed m.caps m.procs.currentPid c = true
  swap
  · rw [sysRingMap_refused (Bool.eq_false_iff.mpr hallowed)] at hr
    subst hr
    exact CapKept.refl m
  unfold sysRingMap at hr
  dsimp only at hr
  rw [hallowed, if_neg (by decide)] at hr
  split at hr
  · subst hr
    exact ⟨rfl, rfl, fun _ => rfl, fun _ hc => ⟨hc, rfl⟩⟩
  · subst hr
    refine ⟨rfl, rfl, ?_, ?_⟩
    · intro i
      dsimp only
      rw [state_modify]
      split
      · next heq => rw [heq]; rfl
      · rfl
    · intro c' hc'
      refine ⟨?_, rfl⟩
      by_cases heq : c' = c
      · rw [heq, (ringMapAllowed_iff.mp hallowed).2.2]
        decide
      · dsimp only at hc'
        rwa [Function.update_of_ne heq] at hc'

theorem capKept_unmap (m : CapMachine) (c : UInt64) {r : UInt64 × CapMachine} (hr : sysCapUnmap m c = r) :
    CapKept m r.2 := by
  by_cases hallowed : capUnmapAllowed m.caps m.procs.currentPid c = true
  swap
  · rw [sysCapUnmap_refused (Bool.eq_false_iff.mpr hallowed)] at hr
    subst hr
    exact CapKept.refl m
  obtain ⟨unmapped, hmem⟩ : ∃ unmapped, unmapUserPage m.vm.mem
      (m.procs.table m.procs.currentPid).userPml4 (m.caps.vaddr c) = unmapped := ⟨_, rfl⟩
  rw [sysCapUnmap_allowed hallowed hmem] at hr
  subst hr
  refine ⟨rfl, rfl, fun _ => rfl, ?_⟩
  intro c' hc'
  dsimp only at hc' ⊢
  by_cases heq : c' = c
  · rw [heq, Function.update_self] at hc'
    exact absurd rfl hc'
  · rw [Function.update_of_ne heq] at hc'
    exact ⟨hc', Function.update_of_ne heq ..⟩

theorem capKept_handoff (m : CapMachine) (fast : FastPath) (c : UInt64) (payloadOffset payloadLen : UInt32)
    {r : Handoff} (hr : fastpathHandoff m fast c payloadOffset payloadLen = r) : CapKept m r.machine := by
  by_cases hallowed : capUnmapAllowed m.caps m.procs.currentPid c = true
  swap
  · rw [fastpathHandoff_refused (Bool.eq_false_iff.mpr hallowed)] at hr
    subst hr
    exact CapKept.refl m
  have hc := (capUnmapAllowed_iff.mp hallowed).1.2
  obtain ⟨phys, m₁, hcall⟩ : ∃ phys m₁, sysCapUnmap m c = (phys, m₁) := ⟨_, _, Prod.mk.eta.symm⟩
  rw [(fastpathHandoff_allowed hc hcall fast payloadOffset payloadLen hr).1]
  exact capKept_unmap m c hcall

end Calls

/-! ### The invariant -/

/-- The slots that own an entry. -/
def CapLife.owners (s : CapLife) : Set UInt64 :=
  {u | ∃ c, s.caps.state c ≠ capStateFree ∧ s.caps.owner c = u}

/-- Every entry that is not FREE was bound by the process that is in the slot of its owner. -/
structure LifeInv (s : CapLife) : Prop where
  lives : Lives s.owners s.procs
  binder : ∀ c, s.caps.state c ≠ capStateFree →
    s.binder c = (s.caps.owner c, s.life (s.caps.owner c))

section Inv

variable {s : CapLife} {c : UInt64}

theorem getFlags_eq_zero {caps : Caps} {pid : UInt64} (h : caps.owner c ≠ pid ∨ caps.state c = capStateFree) :
    getFlags caps pid c = 0 := by
  unfold getFlags
  split_ifs with hrange howner hstate
  · rfl
  · rfl
  · rfl
  · rw [bne_iff_ne, not_not] at howner
    rcases h with hne | hfree
    · exact absurd howner hne
    · rw [hfree] at hstate
      exact absurd (by decide) hstate

theorem LifeInv.rejected (h : LifeInv s) (hc : s.binder c ≠ s.caller) :
    getFlags s.caps s.procs.currentPid c = 0 ∧
      ∀ op : CapOp, op.capability = some c → s.exec (.call op) = s := by
  have hnot : s.caps.owner c ≠ s.procs.currentPid ∨ s.caps.state c = capStateFree := by
    by_cases hfree : s.caps.state c = capStateFree
    · exact .inr hfree
    · refine .inl fun howner => hc ?_
      rw [h.binder c hfree, howner]
      rfl
  refine ⟨getFlags_eq_zero hnot, ?_⟩
  intro op hop
  have hworld : s.world.exec op = s.world := exec_of_not_owner hop hnot
  have hbound : s.bound op = s.binder := by
    cases op with
    | bind flags => cases hop
    | ringMap capabilityId answers => rfl
    | unmap capabilityId => rfl
    | handoff capabilityId payloadOffset payloadLen => rfl
    | switch slot => cases hop
  unfold CapLife.exec
  dsimp only
  rw [hworld, hbound]
  split
  · rfl
  · rfl

theorem LifeInv.binder_ne (h : LifeInv s) {process : UInt64 × Nat} (hover : s.Over process)
    (hc : s.caps.state c ≠ capStateFree) : s.binder c ≠ process := by
  intro heq
  rw [h.binder c hc] at heq
  subst heq
  rcases hover with hlater | hdead
  · exact Nat.lt_irrefl _ hlater
  · have halive := (h.lives.alive _ ⟨c, hc, rfl⟩).2
    rw [hdead] at halive
    cases halive

/-- **The invariant gives the law.** -/
theorem LifeInv.capsDie (h : LifeInv s) (s₁ : CapLife) : CapsDie s₁ s where
  rejected := fun _ hc => h.rejected hc
  freed := by
    intro process hover hothers
    have hsame : freeCaps s.caps = freeCaps s₁.caps := by
      unfold freeCaps
      refine Finset.filter_congr fun i _ => not_iff_not.mp ?_
      rw [← ne_eq, ← ne_eq, hothers]
      exact ⟨fun hc => ⟨hc, h.binder_ne hover hc⟩, fun hc => hc.1⟩
    rw [hsame]

theorem LifeInv.withProcs (h : LifeInv s) {p : Procs} (hp : Lives s.owners p) : LifeInv (s.withProcs p) :=
  ⟨hp, h.binder⟩

theorem LifeInv.of_kept (h : LifeInv s) {m : CapMachine} {answers : List UInt64}
    (hkept : CapKept (s.world.machine answers) m) {w : CapWorld} (hprocs : w.procs = m.procs)
    (hcaps : w.caps = m.caps) : LifeInv { s with world := w } := by
  have hold : ∀ c, w.caps.state c ≠ capStateFree →
      s.caps.state c ≠ capStateFree ∧ w.caps.owner c = s.caps.owner c := by
    rw [hcaps]
    exact hkept.caps
  refine ⟨?_, ?_⟩
  · have howners : Lives { s with world := w }.owners s.procs := by
      refine h.lives.mono ?_
      rintro u ⟨c, hc, rfl⟩
      obtain ⟨hc', howner⟩ := hold c hc
      exact ⟨c, hc', howner.symm⟩
    refine howners.congr ?_ ?_ ?_
    · show w.procs.currentPid < maxProcs
      rw [hprocs, hkept.current]
      exact h.lives.range
    · show w.procs.pidBitmap = _
      rw [hprocs, hkept.bitmap]
      rfl
    · intro i
      show w.procs.state i = _
      rw [hprocs, hkept.state]
      rfl
  · intro c hc
    obtain ⟨hc', howner⟩ := hold c hc
    show s.binder c = (w.caps.owner c, s.life (w.caps.owner c))
    rw [howner]
    exact h.binder c hc'

/-- **`sys_cap_bind`**: the entry belongs to the caller. -/
theorem LifeInv.bind (h : LifeInv s) (halive : aliveState (s.procs.state s.procs.currentPid) = true)
    (flags : UInt64) :
    LifeInv { s with world := s.world.exec (.bind flags), binder := s.bound (.bind flags) } := by
  have hworld : s.world.exec (.bind flags) =
      { s.world with caps := (capBindFrom s.caps s.procs.currentPid flags 63 1).2 } := rfl
  have hbound : s.bound (.bind flags) =
      if (capBindFrom s.caps s.procs.currentPid flags 63 1).1 == 0 then s.binder
      else Function.update s.binder (capBindFrom s.caps s.procs.currentPid flags 63 1).1 s.caller := rfl
  rw [hworld, hbound]
  rcases capBindFrom_cases s.caps s.procs.currentPid flags (n := 63) (i := 1) (by decide) (by decide) with
    hnone | ⟨c, hne, -, htake⟩
  · rw [hnone]
    exact h
  · rw [htake]
    dsimp only
    rw [if_neg (by simpa using hne)]
    -- an entry that is not FREE is the new one, or an old one
    refine ⟨⟨h.lives.range, h.lives.bits, ?_⟩, ?_⟩
    · rintro u ⟨c', hc', rfl⟩
      unfold CapLife.caps at hc' ⊢
      dsimp only at hc' ⊢
      by_cases heq : c' = c
      · rw [heq, Function.update_self]
        exact ⟨h.lives.range, halive⟩
      · rw [Function.update_of_ne heq] at hc' ⊢
        exact h.lives.alive _ ⟨c', hc', rfl⟩
    · intro c' hc'
      unfold CapLife.caps at hc' ⊢
      dsimp only at hc' ⊢
      by_cases heq : c' = c
      · rw [heq, Function.update_self, Function.update_self]
        rfl
      · rw [Function.update_of_ne heq] at hc'
        rw [Function.update_of_ne heq, Function.update_of_ne heq]
        exact h.binder c' hc'

/-- **A spawn**: the slot that is taken had no capability. -/
theorem LifeInv.spawn (h : LifeInv s) : LifeInv (s.exec .spawn) := by
  unfold CapLife.exec
  dsimp only
  rcases allocPid_spec s.procs with ⟨slot, hslot, hclear, halloc⟩ | ⟨halloc, -⟩
  · rw [halloc]
    dsimp only
    rw [if_neg (UInt64.not_le.mpr hslot)]
    have hnot := h.lives.not_owner_of_alloc hslot hclear
    refine ⟨h.lives.claimSlot hslot, ?_⟩
    intro c hc
    have hne : s.caps.owner c ≠ slot := fun heq => hnot ⟨c, hc, heq⟩
    show s.binder c = (s.caps.owner c, Function.update s.life slot (s.life slot + 1) (s.caps.owner c))
    rw [Function.update_of_ne hne]
    exact h.binder c hc
  · rw [halloc]
    dsimp only
    rw [if_pos (UInt64.le_refl _)]
    exact h

/-! ### Runs -/

/-- **The side condition.** A process that exits has no capability. -/
def LifeCareful (s : CapLife) : LifeOp → Prop
  | .exit _ _ => ∀ c, s.caps.state c ≠ capStateFree → s.caps.owner c ≠ s.procs.currentPid
  | _ => True

theorem alive_iff {slot : UInt64} :
    s.alive slot = true ↔ slot < maxProcs ∧ aliveState (s.procs.state slot) = true := by
  unfold CapLife.alive
  rw [Bool.and_eq_true, decide_eq_true_eq]

theorem LifeInv.call (h : LifeInv s) {op : CapOp} (hcall : s.mayCall op = true) :
    LifeInv { s with world := s.world.exec op, binder := s.bound op } := by
  cases op with
  | bind flags => exact h.bind (alive_iff.mp hcall).2 flags
  | ringMap capabilityId answers => exact h.of_kept (capKept_ringMap _ capabilityId rfl) rfl rfl
  | unmap capabilityId => exact h.of_kept (capKept_unmap _ capabilityId rfl) rfl rfl
  | handoff capabilityId payloadOffset payloadLen =>
    exact h.of_kept (capKept_handoff _ s.world.fast capabilityId payloadOffset payloadLen rfl) rfl rfl
  | switch slot => exact ⟨⟨(alive_iff.mp hcall).1, h.lives.bits, h.lives.alive⟩, h.binder⟩

/-- **One step** keeps the invariant when no process exits with a capability. -/
theorem LifeInv.exec (h : LifeInv s) {op : LifeOp} (hok : LifeCareful s op) : LifeInv (s.exec op) := by
  cases op with
  | spawn => exact h.spawn
  | exit exitCode mem =>
    unfold CapLife.exec
    dsimp only
    split
    · next halive =>
      have hnot : s.procs.currentPid ∉ s.owners := by
        rintro ⟨c, hc, howner⟩
        exact hok c hc howner
      exact ⟨h.lives.processExit (alive_iff.mp halive).2 hnot exitCode, h.binder⟩
    · exact h
  | reap slot =>
    unfold CapLife.exec
    dsimp only
    split
    · next hguard =>
      rw [Bool.and_eq_true, decide_eq_true_eq] at hguard
      exact h.withProcs (h.lives.reapChild hguard.2)
    · exact h
  | change slot state =>
    unfold CapLife.exec
    dsimp only
    split
    · next hguard =>
      rw [Bool.and_eq_true, alive_iff] at hguard
      exact h.withProcs ((steady_lives s.owners).state h.lives hguard.1.1 hguard.1.2 hguard.2)
    · exact h
  | call op =>
    unfold CapLife.exec
    dsimp only
    split
    · next hcall => exact h.call hcall
    · exact h

theorem lifeInv_boot (mem : Mem) : LifeInv (CapLife.boot mem) := by
  have hfree : ∀ c, ¬ (CapLife.boot mem).caps.state c ≠ capStateFree := fun c hc => hc rfl
  refine ⟨⟨by show (0 : UInt64) < maxProcs; decide, ?_, ?_⟩, ?_⟩
  · intro i _ hne
    exact absurd rfl hne
  · rintro u ⟨c, hc, -⟩
    exact absurd hc (hfree c)
  · intro c hc
    exact absurd hc (hfree c)

end Inv

/-- **Capabilities die with their processes**, in every run in which a process that exits has none. -/
theorem capsDie_of_careful {mem : Mem} {ops₁ ops₂ : List LifeOp}
    (hok : Admissible CapLife.exec LifeCareful (CapLife.boot mem) (ops₁ ++ ops₂)) :
    CapsDie (runOps CapLife.exec (CapLife.boot mem) ops₁)
      (runOps CapLife.exec (CapLife.boot mem) (ops₁ ++ ops₂)) := by
  have hinv : LifeInv (runOps CapLife.exec (CapLife.boot mem) (ops₁ ++ ops₂)) :=
    runOps_induction (fun _ _ h hok => h.exec hok) (lifeInv_boot mem) hok
  exact hinv.capsDie _

/-- The process in slot 1 gives its capability up before it exits. -/
theorem capsDie_unmapped :
    CapsDie (runOps CapLife.exec (CapLife.boot fun _ => 0) [.spawn, .spawn, .call (.switch 1)])
      (runOps CapLife.exec (CapLife.boot fun _ => 0) ([.spawn, .spawn, .call (.switch 1)] ++
        [.call (.bind 3), .call (.ringMap 1 [0x8000]), .call (.unmap 1), .exit 0 fun _ => 0,
          .call (.switch 0), .reap 1, .spawn, .call (.switch 1)])) := by
  refine capsDie_of_careful ⟨trivial, trivial, trivial, trivial, trivial, trivial, ?_, trivial, trivial,
    trivial, trivial, trivial⟩
  intro c hc
  refine absurd ?_ hc
  show Function.update (Function.update (Function.update (fun _ => (0 : UInt64)) 1 1) 1 2) 1 0 c = 0
  by_cases heq : c = 1
  · rw [heq, Function.update_self]
  · rw [Function.update_of_ne heq, Function.update_of_ne heq, Function.update_of_ne heq]

/-- **A capability that is inherited**: the process in slot 1 binds a capability and exits, and the next
process in the slot reads its flags. -/
theorem not_capsDie_slotReused :
    ¬ CapsDie (runOps CapLife.exec (CapLife.boot fun _ => 0) [.spawn, .spawn])
      (runOps CapLife.exec (CapLife.boot fun _ => 0) ([.spawn, .spawn] ++
        [.call (.switch 1), .call (.bind 3), .exit 0 fun _ => 0, .call (.switch 0), .reap 1, .spawn,
          .call (.switch 1)])) := by
  intro h
  have hflags := (h.rejected 1 (by decide +kernel)).1
  revert hflags
  decide +kernel

end Keuos.Syscall
