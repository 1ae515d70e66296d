import Keuos.Process.Equiv.Sched
import Keuos.Process.Lifecycle

/-!
# The slots of `RING_TABLE`

`alloc_pid` hands out the lowest free slot of 64, and `RING_TABLE` has 16 entries.  As long as every
`alloc_pid` is called while one of the first 16 slots is free, only these hold processes (`Low`), and every
use of `RING_TABLE` is in range (`accesses_lt`).  The seventeenth process leaves the table
(`not_accesses_lt`).
-/

namespace Keuos.Process

/-- Only the first 16 slots hold processes, and the current one is among them. -/
structure Low (p : Procs) : Prop where
  current : p.currentPid < ringTableLen
  free : ∀ i : UInt64, ringTableLen ≤ i → i < maxProcs → p.state i = procFree

/-- One of the first 16 slots is free. -/
def LowSlotFree (p : Procs) : Prop :=
  p.pidBitmap 0 &&& 0xFFFF ≠ 0xFFFF

instance (p : Procs) : Decidable (LowSlotFree p) :=
  inferInstanceAs (Decidable (p.pidBitmap 0 &&& 0xFFFF ≠ 0xFFFF))

/-! ### Functions of the table -/

section Table

variable {p : Procs}

theorem Low.lt (h : Low p) {i : UInt64} (hi : i < maxProcs) (hstate : p.state i ≠ procFree) :
    i < ringTableLen := by
  by_contra hge
  exact hstate (h.free i (UInt64.not_lt.mp hge) hi)

theorem lt_maxProcs {i : UInt64} (hi : i < ringTableLen) : i < maxProcs :=
  UInt64.lt_trans hi (by decide)

theorem Low.congr (h : Low p) {q : Procs} (hcur : q.currentPid = p.currentPid)
    (hstate : ∀ i, ringTableLen ≤ i → q.state i = p.state i ∨ q.state i = procFree) : Low q := by
  refine ⟨hcur ▸ h.current, fun i hi hmax => ?_⟩
  obtain hsame | hfree := hstate i hi
  · rw [hsame]
    exact h.free i hi hmax
  · exact hfree

theorem ne_of_low {slot i : UInt64} (hslot : slot < ringTableLen) (hi : ringTableLen ≤ i) : i ≠ slot := by
  rintro rfl
  exact absurd hslot (UInt64.not_lt.mpr hi)

theorem Low.modify (h : Low p) {slot : UInt64} (f : Pcb → Pcb)
    (hslot : slot < ringTableLen ∨ ∀ b, (f b).state = b.state) : Low (p.modify slot f) := by
  refine h.congr rfl fun i hi => .inl ?_
  rw [state_modify]
  split
  · next heq =>
    obtain hlt | hsame := hslot
    · exact absurd heq (ne_of_low hlt hi)
    · rw [hsame, heq]
      rfl
  · rfl

theorem Low.setState (h : Low p) {slot state : UInt64}
    (hslot : slot < ringTableLen ∨ state = procFree) : Low (setState p slot state) := by
  refine h.congr (currentPid_setState p slot state) fun i hi => ?_
  rw [state_setState]
  split
  · next heq =>
    obtain hlt | hfree := hslot
    · exact absurd heq (ne_of_low hlt hi)
    · exact .inr hfree
  · exact .inl rfl

theorem Low.setCurrent (h : Low p) {slot : UInt64} (hslot : slot < ringTableLen) :
    Low (setCurrent p slot) :=
  ⟨hslot, h.free⟩

theorem Low.setIpcMsg (h : Low p) (slot sender msg0 msg1 msg2 : UInt64) :
    Low (setIpcMsg p slot sender msg0 msg1 msg2) :=
  h.modify _ (.inr fun _ => rfl)

end Table

/-! ### Spawns -/

section Spawn

variable {p : Procs}

theorem ctz_freeMask_lt (hfree : LowSlotFree p) :
    freeMask p 0 ≠ 0 ∧ ctz (freeMask p 0) < ringTableLen := by
  have hmask : freeMask p 0 = p.pidBitmap 0 ^^^ allOnes := by
    unfold freeMask
    rw [if_neg (by decide), if_neg (by decide)]
  -- a free bit among the low 16
  have hbit : ∃ i < 16, bit (p.pidBitmap 0) i = false := by
    by_contra hall
    apply hfree
    apply eq_of_bit_eq
    intro i
    rw [bit_and]
    by_cases hi : i < 16
    · have hset : bit (p.pidBitmap 0) i = true := by
        by_contra hclear
        exact hall ⟨i, hi, Bool.eq_false_iff.mpr hclear⟩
      rw [hset, Bool.true_and]
    · have hhigh : bit 0xFFFF i = false := by
        have hmask : bit 0xFFFF i = decide (i < 16) := Nat.testBit_two_pow_sub_one 16 i
        rw [hmask, decide_eq_false hi]
      rw [hhigh, Bool.and_false]
  obtain ⟨i, hi, hclear⟩ := hbit
  have hset : bit (freeMask p 0) i = true := by
    rw [hmask, bit_xor, hclear, bit_allOnes, decide_eq_true (by omega)]
    rfl
  have hne : freeMask p 0 ≠ 0 := ne_zero_of_bit hset
  refine ⟨hne, ?_⟩
  obtain ⟨-, -, hlowest⟩ := ctz_spec hne
  rw [UInt64.lt_iff_toNat_lt, show ringTableLen.toNat = 16 from rfl]
  by_contra hge
  have hlow := hlowest i (by omega)
  rw [hset] at hlow
  exact absurd hlow (by decide)

theorem Low.claimSlot (h : Low p) {slot : UInt64} (hslot : slot < ringTableLen) :
    Low (claimSlot p slot) := by
  refine h.congr rfl fun i hi => .inl ?_
  rw [state_claimSlot, if_neg (ne_of_low hslot hi)]

/-- **A spawn** while one of the first 16 slots is free. -/
theorem Low.allocPid (h : Low p) (hfree : LowSlotFree p) :
    (allocPid p).1 < ringTableLen ∧ Low (allocPid p).2 := by
  obtain ⟨hne, hlt⟩ := ctz_freeMask_lt hfree
  have hslot : (0 : UInt64) * 64 + ctz (freeMask p 0) = ctz (freeMask p 0) := by
    rw [UInt64.zero_mul, UInt64.zero_add]
  have halloc : Process.allocPid p = (ctz (freeMask p 0), Process.claimSlot p (ctz (freeMask p 0))) := by
    unfold Process.allocPid allocPidFrom
    dsimp only
    rw [if_neg (by simpa using hne), hslot, if_neg (UInt64.not_le.mpr (lt_maxProcs hlt))]
  rw [halloc]
  exact ⟨hlt, h.claimSlot hlt⟩

theorem Low.spawnSlot (h : Low p) (hfree : LowSlotFree p) (pml4 : Option UInt64) :
    Low (spawnSlot p pml4) := by
  obtain ⟨-, hlow⟩ := h.allocPid hfree
  unfold Process.spawnSlot
  cases pml4 with
  | none => exact hlow
  | some root =>
    dsimp only
    split
    · exact hlow
    · exact hlow.modify _ (.inr fun _ => rfl)

end Spawn

/-! ### Drains and switches -/

/-- If the request spawns, one of the first 16 slots is free. -/
def Request.SpawnsLow (p : Procs) : Request → Prop
  | .spawn _ => LowSlotFree p
  | _ => True

/-- Every spawn of a drain finds one of the first 16 slots free. -/
def DrainSpawnsLow (k : Kernel) (drained : List Request) (slot : UInt64) (p : Procs) : Prop :=
  k.active slot = true → Admissible (Request.apply slot) Request.SpawnsLow p drained

section Drain

variable {p : Procs}

theorem Low.unblock (h : Low p) {slot : UInt64} (hslot : slot < maxProcs)
    (hstate : p.state slot ≠ procFree) : Low (unblock p slot) :=
  h.modify _ (.inl (h.lt hslot hstate))

theorem ne_procFree_of_dispatchable {state : UInt64} (h : dispatchable state = true) :
    state ≠ procFree := by
  rintro rfl
  exact absurd h (by decide)

theorem Low.ringIpcSend (h : Low p) (slot targetPid msg0 msg1 : UInt64) :
    Low (ringIpcSend p slot targetPid msg0 msg1).2 := by
  unfold Process.ringIpcSend
  split_ifs with hrange hfree hblocked
  · exact h
  · exact h
  · have htarget : targetPid < maxProcs := lt_maxProcs (UInt64.not_le.mp hrange)
    exact (h.unblock htarget (by simpa using hfree)).setIpcMsg ..
  · exact h

theorem Low.request (h : Low p) (slot : UInt64) {r : Request} (hr : r.SpawnsLow p) :
    Low (r.apply slot p) := by
  cases r with
  | ipcSend targetPid msg0 msg1 => exact h.ringIpcSend slot targetPid msg0 msg1
  | spawn pml4 => exact h.spawnSlot hr pml4
  | other => exact h

theorem Low.drain (h : Low p) {k : Kernel} {drained : List Request} {slot : UInt64}
    (hd : DrainSpawnsLow k drained slot p) : Low (k.drain drained slot p) := by
  unfold Kernel.drain
  split
  · next hactive => exact runOps_induction (fun q r hq hr => hq.request slot hr) h (hd hactive)
  · exact h

theorem Low.switchToProcess (h : Low p) {k : Kernel} {drained : List Request} {next : UInt64}
    (hnext : next < ringTableLen) (hd : DrainSpawnsLow k drained p.currentPid p) :
    Low (switchToProcess (k.drain drained) p p.currentPid next) := by
  have hdrain := h.drain hd
  unfold Process.switchToProcess
  dsimp only
  generalize k.drain drained p.currentPid p = q at hdrain ⊢
  refine Low.setCurrent ?_ hnext
  refine Low.setState ?_ (.inl hnext)
  split
  · exact hdrain.setState (.inl h.current)
  · exact hdrain

end Drain

/-! ### Steps of the kernel -/

/-- `alloc_pid` is called only while one of the first 16 slots is free. -/
def SpawnsLow (k : Kernel) : Event → Prop
  | .spawn _ => LowSlotFree k.sched.procs
  | .schedule _ drained => DrainSpawnsLow k drained k.sched.procs.currentPid k.sched.procs
  | .ipcSend targetPid msg0 msg1 msg2 drained =>
    DrainSpawnsLow k drained k.sched.procs.currentPid
      (setIpcMsg (unblock k.sched.procs targetPid) targetPid k.sched.procs.currentPid msg0 msg1 msg2)
  | .yield drained => DrainSpawnsLow k drained k.sched.procs.currentPid k.sched.procs
  | _ => True

/-- Only the first 16 slots hold processes, and only they were used as indices. -/
structure InTable (k : Kernel) : Prop where
  low : Low k.sched.procs
  accesses : ∀ slot ∈ k.accesses, slot < ringTableLen

section Steps

variable {k : Kernel}

theorem InTable.withProcs (h : InTable k) {p : Procs} (hp : Low p) : InTable (k.withProcs p) :=
  ⟨hp, h.accesses⟩

theorem InTable.touch (h : InTable k) : InTable (k.touch k.sched.procs.currentPid) := by
  refine ⟨h.low, fun slot hslot => ?_⟩
  obtain hold | hnew := List.mem_append.mp hslot
  · exact h.accesses slot hold
  · rw [List.mem_singleton.mp hnew]
    exact h.low.current

theorem InTable.schedule (h : InTable k) (pulseEmpty : Bool) {drained : List Request}
    (hd : DrainSpawnsLow k drained k.sched.procs.currentPid k.sched.procs) :
    InTable (exec k (.schedule pulseEmpty drained)) := by
  obtain ⟨hprocs, hchoice⟩ := scheduleNext_spec k.sched pulseEmpty
  unfold exec
  dsimp only
  generalize scheduleNext k.sched pulseEmpty = r at hprocs hchoice ⊢
  obtain ⟨call, s⟩ := r
  dsimp only at hprocs hchoice ⊢
  have hlow : Low s.procs := hprocs ▸ h.low
  cases call with
  | none => exact ⟨hlow, h.accesses⟩
  | some call =>
    obtain ⟨current, next⟩ := call
    obtain ⟨rfl, hnext, -, hdisp⟩ := hchoice current next rfl
    have htouch := h.touch
    have hnext' : next < ringTableLen := h.low.lt hnext (ne_procFree_of_dispatchable hdisp)
    refine ⟨?_, htouch.accesses⟩
    rw [← hprocs] at hd ⊢
    exact hlow.switchToProcess hnext' hd

theorem InTable.ipcSend (h : InTable k) (targetPid msg0 msg1 msg2 : UInt64) {drained : List Request}
    (hd : DrainSpawnsLow k drained k.sched.procs.currentPid
      (setIpcMsg (unblock k.sched.procs targetPid) targetPid k.sched.procs.currentPid msg0 msg1 msg2)) :
    InTable (exec k (.ipcSend targetPid msg0 msg1 msg2 drained)) := by
  have htouch : InTable (if targetPid < maxProcs && k.sched.procs.state targetPid == procIpcBlocked then
      k.touch k.sched.procs.currentPid else k) := by
    split
    · exact h.touch
    · exact h
  refine htouch.withProcs ?_
  have hlow := h.low
  unfold sysIpcSend
  dsimp only
  split_ifs with hrange hfree hblocked hempty
  · exact hlow
  · exact hlow
  · have htarget : targetPid < maxProcs := UInt64.not_le.mp hrange
    have hne : k.sched.procs.state targetPid ≠ procFree := by simpa using hfree
    have hmsg := (hlow.unblock htarget hne).setIpcMsg targetPid k.sched.procs.currentPid msg0 msg1 msg2
    exact hmsg.switchToProcess (hlow.lt htarget hne) hd
  · exact hlow.setIpcMsg ..
  · exact hlow

theorem nextReadyFrom_some {p : Procs} {slot next : UInt64} {n : Nat} {i : UInt64}
    (h : nextReadyFrom p slot n i = some next) :
    next < maxProcs ∧ dispatchable (p.state next) = true := by
  induction n generalizing i with
  | zero => exact absurd h (by simp [nextReadyFrom])
  | succ n ih =>
    unfold nextReadyFrom at h
    dsimp only at h
    split at h
    · next hhit =>
      obtain rfl := Option.some.inj h
      rw [Bool.and_eq_true, Bool.and_eq_true] at hhit
      refine ⟨?_, hhit.1.2⟩
      rw [toNat_lt_maxProcs, UInt64.toNat_mod, show maxProcs.toNat = 64 from rfl]
      exact Nat.mod_lt _ (by decide)
    · exact ih h

theorem Low.switchToNextReady {p : Procs} (h : Low p) (slot : UInt64) :
    Low (switchToNextReady p slot) := by
  unfold Process.switchToNextReady
  cases hfound : nextReadyFrom p slot 63 1 with
  | none => exact h
  | some next =>
    obtain ⟨hnext, hdisp⟩ := nextReadyFrom_some hfound
    have hlt := h.lt hnext (ne_procFree_of_dispatchable hdisp)
    exact (h.setState (.inl hlt)).setCurrent hlt

theorem Low.processExit {p : Procs} (h : Low p) (exitCode : UInt64) : Low (processExit p exitCode) := by
  have hset : Low (Process.setState (Process.setIpcMsg p p.currentPid 0 exitCode 0 0) p.currentPid
      procZombie) := (h.setIpcMsg p.currentPid 0 exitCode 0 0).setState (.inl h.current)
  refine Low.switchToNextReady ?_ p.currentPid
  exact ⟨hset.current, hset.free⟩

/-- **One step of the kernel** stays in the table. -/
theorem InTable.exec (h : InTable k) {e : Event} (he : SpawnsLow k e) : InTable (exec k e) := by
  have hlow := h.low
  cases e with
  | spawn pml4 => exact h.withProcs (hlow.spawnSlot he pml4)
  | schedule pulseEmpty drained => exact h.schedule pulseEmpty he
  | ipcSend targetPid msg0 msg1 msg2 drained => exact h.ipcSend targetPid msg0 msg1 msg2 he
  | yield drained => exact h.touch.withProcs (hlow.drain he)
  | ringMap capFlags sqPhys cqPhys =>
    unfold Process.exec
    dsimp only
    split
    · exact h
    · exact ⟨h.touch.low, h.touch.accesses⟩
  | exit exitCode => exact ⟨hlow.processExit exitCode, h.touch.accesses⟩
  | reap slot =>
    dsimp only [Process.exec]
    split
    · exact h.withProcs (hlow.setState (.inr rfl))
    · exact h
  | block state =>
    dsimp only [Process.exec]
    split
    · exact h.withProcs (hlow.setState (.inl hlow.current))
    · exact h
  | wake slot =>
    dsimp only [Process.exec]
    split
    · next hguard =>
      rw [Bool.and_eq_true, decide_eq_true_eq] at hguard
      have hne : k.sched.procs.state slot ≠ procFree := by
        intro hfree
        rw [hfree] at hguard
        exact absurd hguard.2 (by decide)
      exact h.withProcs (hlow.setState (.inl (hlow.lt hguard.1 hne)))
    · exact h
  | netPoll => exact h.withProcs (hlow.setState (.inl (by decide)))
  | start slot =>
    dsimp only [Process.exec]
    split
    · next hguard =>
      rw [Bool.and_eq_true, decide_eq_true_eq, bne_iff_ne] at hguard
      have hlt := hlow.lt hguard.1 hguard.2
      exact h.withProcs ((hlow.setCurrent hlt).setState (.inl hlt))
    · exact h

theorem InTable.boot : InTable Kernel.boot := by
  refine ⟨⟨by decide, fun i _ _ => rfl⟩, fun slot hslot => ?_⟩
  exact absurd hslot (by simp [Kernel.boot])

end Steps

/-! ### Runs -/

/-- **The uses of `RING_TABLE` are in range** in every run in which `alloc_pid` is called only while one
of the first 16 slots is free; and then only these are dispatched. -/
theorem accesses_lt {events : List Event} (h : Admissible exec SpawnsLow Kernel.boot events) :
    let k := runOps exec Kernel.boot events
    (∀ slot ∈ k.accesses, slot < ringTableLen) ∧ k.sched.procs.currentPid < ringTableLen := by
  have hin : InTable (runOps exec Kernel.boot events) :=
    runOps_induction (fun k e hk he => hk.exec he) InTable.boot h
  exact ⟨hin.accesses, hin.low.current⟩

theorem accesses_lt_two :
    let events : List Event := [.spawn (some 0x1000), .spawn (some 0x2000), .schedule true []]
    Admissible exec SpawnsLow Kernel.boot events ∧
      ∀ slot ∈ (runOps exec Kernel.boot events).accesses, slot < ringTableLen := by
  have hok : Admissible exec SpawnsLow Kernel.boot
      [.spawn (some 0x1000), .spawn (some 0x2000), .schedule true []] := by
    refine ⟨?_, ?_, ?_, trivial⟩
    · exact (by decide : LowSlotFree Kernel.boot.sched.procs)
    · exact (by decide : LowSlotFree (exec Kernel.boot (.spawn (some 0x1000))).sched.procs)
    · exact fun _ => trivial
  exact ⟨hok, (accesses_lt hok).1⟩

/-- Seventeen processes are spawned, and each is dispatched. -/
theorem not_accesses_lt :
    ¬ ∀ (events : List Event), ∀ slot ∈ (runOps exec Kernel.boot events).accesses,
      slot < ringTableLen := by
  intro hall
  have hmem : 16 ∈ (runOps exec Kernel.boot (List.replicate 17 (Event.spawn (some 0x1000)) ++
      List.replicate 17 (Event.schedule true []))).accesses := by
    decide +kernel
  exact absurd (hall _ 16 hmem) (by decide)

end Keuos.Process
