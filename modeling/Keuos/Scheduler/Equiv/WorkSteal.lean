import Keuos.Scheduler.Equiv.Bitmap
import Keuos.Scheduler.Defs

/-!
# Stealing a fiber

`CoreInv` is the bitmap invariant of one core, with the slot 0 that an idle core uses for itself.  The
victim's side of a steal keeps it (`CoreInv.clearVictim`).

The thief's side does not: `dispatch_stolen` takes the summary of the groups for a bitmap of slots, and
neither `sched_steal_migrate` nor `sched_steal_release` touches the second level or adds to the
counter.  So the slot it chooses is in use, or the thief ends with an active fiber that has no bit, or
with a counter that is one short (`not_stealLaw`).
-/

namespace Keuos.Scheduler

open Finset

/-! ### One fiber -/

theorem modifyFiber_self (s : SchedulerState) (slot : UInt64) (f : Fiber → Fiber) :
    (s.modifyFiber slot f).fibers slot = f (s.fibers slot) :=
  Function.update_self ..

theorem modifyFiber_of_ne (s : SchedulerState) {slot i : UInt64} (hi : i ≠ slot) (f : Fiber → Fiber) :
    (s.modifyFiber slot f).fibers i = s.fibers i :=
  Function.update_of_ne hi ..

/-! ### The invariant of a core -/

/-- The slots whose fiber is active. -/
def activeSlots (s : SchedulerState) : Finset Nat :=
  (range 256).filter fun i => (s.fibers (UInt64.ofNat i)).active ≠ 0

/-- The bitmap invariant of a core. -/
structure CoreInv (s : SchedulerState) : Prop where
  /-- A bit of the second level is set exactly when its fiber is active. -/
  runnable_iff : ∀ i, i < 1024 →
    (runnable s i = true ↔ i < 256 ∧ (s.fibers (UInt64.ofNat i)).active ≠ 0)
  /-- A summary bit is set exactly when its group is not empty. -/
  summary_iff : ∀ g, g < 16 → (bit s.l1Summary g = true ↔ s.l2Details (UInt64.ofNat g) ≠ 0)
  /-- The counter counts the active fibers. -/
  count_eq : s.count.toNat = (activeSlots s).card

theorem CoreInv.runnable_slot {s : SchedulerState} (h : CoreInv s) {slot : UInt64}
    (hslot : slot.toNat < 256) :
    runnable s slot.toNat = true ↔ (s.fibers slot).active ≠ 0 := by
  have hiff := h.runnable_iff slot.toNat (by omega)
  rw [UInt64.ofNat_toNat] at hiff
  exact hiff.trans ⟨fun hr => hr.2, fun ha => ⟨hslot, ha⟩⟩

theorem CoreInv.group_high {s : SchedulerState} (h : CoreInv s) {g : Nat} (hlo : 4 ≤ g)
    (hhi : g < 16) : s.l2Details (UInt64.ofNat g) = 0 := by
  apply eq_of_bit_eq
  intro b
  rw [bit_zero]
  by_cases hb : b < 64
  · have hiff := h.runnable_iff (g * 64 + b) (by omega)
    have hdiv : (g * 64 + b) / 64 = g := by omega
    have hmod : (g * 64 + b) % 64 = b := by omega
    unfold runnable at hiff
    rw [hdiv, hmod] at hiff
    rw [Bool.eq_false_iff]
    intro hbit
    have hlt := (hiff.mp hbit).1
    omega
  · exact bit_of_le _ (by omega)

/-! ### The local slot -/

theorem and_shift_eq_zero_iff (l1 : UInt64) {k : UInt64} (hk : k.toNat < 64) :
    l1 &&& (1 <<< k) = 0 ↔ bit l1 k.toNat = false := by
  constructor
  · intro hzero
    have hbit := congrArg (fun x => bit x k.toNat) hzero
    simpa only [bit_and, bit_one_shiftLeft hk, decide_true, Bool.and_true, bit_zero] using hbit
  · intro hclear
    apply eq_of_bit_eq
    intro i
    rw [bit_and, bit_one_shiftLeft hk, bit_zero]
    by_cases hi : k.toNat = i
    · rw [← hi, hclear, Bool.false_and]
    · rw [decide_eq_false hi, Bool.and_false]

theorem localSlotFrom_spec (l1 : UInt64) {n k : Nat} {start : UInt64} (hn : start.toNat + n ≤ 64)
    (hlo : start.toNat ≤ k) (hhi : k < start.toNat + n) (hclear : bit l1 k = false) :
    ∃ slot, localSlotFrom l1 n start = some slot ∧ slot.toNat ≤ k ∧ bit l1 slot.toNat = false := by
  induction n generalizing start with
  | zero => omega
  | succ n ih =>
    unfold localSlotFrom
    by_cases hbit : bit l1 start.toNat = false
    · rw [if_pos (beq_iff_eq.mpr ((and_shift_eq_zero_iff l1 (by omega)).mpr hbit))]
      exact ⟨start, rfl, hlo, hbit⟩
    · have hne : k ≠ start.toNat := by
        rintro rfl
        exact hbit hclear
      have hsucc : (start + 1).toNat = start.toNat + 1 := by
        rw [UInt64.toNat_add, UInt64.toNat_one]
        omega
      rw [if_neg]
      · exact ih (by omega) (by omega) (by omega)
      · rw [beq_iff_eq, and_shift_eq_zero_iff l1 (by omega)]
        exact hbit

theorem CoreInv.exists_localSlot {s : SchedulerState} (h : CoreInv s) :
    ∃ slot, localSlot? s.l1Summary = some slot ∧ slot.toNat < 64 ∧
      bit s.l1Summary slot.toNat = false := by
  have hclear : bit s.l1Summary 4 = false := by
    rw [Bool.eq_false_iff]
    intro hset
    exact (h.summary_iff 4 (by decide)).mp hset (h.group_high (by decide) (by decide))
  have hsearch : ∃ slot, localSlotFrom s.l1Summary 63 1 = some slot ∧ slot.toNat ≤ 4 ∧
      bit s.l1Summary slot.toNat = false :=
    localSlotFrom_spec s.l1Summary (by decide) (by decide) (by decide) hclear
  obtain ⟨slot, hsome, hle, hbit⟩ := hsearch
  exact ⟨slot, hsome, by omega, hbit⟩

/-! ### The thief -/

/-- What the thief is left with, when the fiber `f` has been moved to its slot `slot`. -/
def thiefAfter (s : SchedulerState) (f : Fiber) (slot : UInt64) (status : Int64) (savedRsp : UInt64) :
    SchedulerState :=
  let s₁ := s.modifyFiber slot fun _ => { f with active := 1 }
  if f.stepFn == 0 then s₁
  else if status == pollReady then schedStealRelease s₁ slot (1 <<< slot)
  else schedStealSavePreempt s₁ slot savedRsp

theorem dispatchStolen_thief {cores : SchedArray} {cpu word slot : UInt64}
    (hother : victimCpu word ≠ cpu)
    (hactive : ((cores (victimCpu word)).fibers (victimSlot word)).active ≠ 0)
    (hslot : localSlot? (cores cpu).l1Summary = some slot)
    (hbit : bit (cores cpu).l1Summary slot.toNat = false) (hlt : slot.toNat < 64) (status : Int64)
    (savedRsp : UInt64) :
    dispatchStolen cores cpu word status savedRsp cpu =
      thiefAfter (cores cpu) ((cores (victimCpu word)).fibers (victimSlot word)) slot status
        savedRsp := by
  have hinv : (cores cpu).l1Summary ^^^ allOnes ≠ 0 := by
    apply ne_zero_of_bit (i := slot.toNat)
    rw [bit_xor, hbit, bit_allOnes, decide_eq_true hlt]
    rfl
  have hthief : schedStealClearVictim (schedStealMigrate cores cpu slot (victimCpu word)
      (victimSlot word)) (victimCpu word) (victimSlot word) cpu =
      (cores cpu).modifyFiber slot fun _ =>
        { (cores (victimCpu word)).fibers (victimSlot word) with active := 1 } := by
    unfold schedStealClearVictim schedStealMigrate SchedArray.modify
    rw [Function.update_of_ne hother.symm, Function.update_self]
  unfold dispatchStolen
  dsimp only
  rw [if_neg (by simpa using hactive), if_neg (by simpa using hinv), hslot]
  unfold executeStolenFiber thiefAfter
  dsimp only
  rw [hthief, modifyFiber_self]
  split
  · exact hthief
  · split
    · unfold SchedArray.modify
      rw [Function.update_self, hthief]
    · unfold SchedArray.modify
      rw [Function.update_self, hthief]

theorem not_coreInv_of_unset {s s' : SchedulerState} (h : CoreInv s) {slot : UInt64}
    (hslot : slot.toNat < 256) (hfree : (s.fibers slot).active = 0)
    (hl2 : s'.l2Details = s.l2Details) (hset : (s'.fibers slot).active ≠ 0) : ¬ CoreInv s' := by
  intro h'
  have hrun : runnable s' slot.toNat = runnable s slot.toNat := by
    unfold runnable
    rw [hl2]
  rw [← h'.runnable_slot hslot, hrun, h.runnable_slot hslot, hfree] at hset
  exact hset rfl

theorem not_coreInv_of_miscount {s s' : SchedulerState} (h : CoreInv s)
    (hcount : s'.count = s.count - 1)
    (hsame : ∀ i, (s'.fibers i).active = (s.fibers i).active) : ¬ CoreInv s' := by
  intro h'
  have hslots : activeSlots s' = activeSlots s := by
    unfold activeSlots
    simp only [hsame]
  have heq : (s.count - 1).toNat = s.count.toNat := by
    rw [← hcount, h'.count_eq, hslots, h.count_eq]
  rw [UInt64.toNat_sub, UInt64.toNat_one] at heq
  have hlt := s.count.toNat_lt
  omega

/-- **The thief loses its invariant**, if the slot was free. -/
theorem not_coreInv_thiefAfter {s : SchedulerState} (h : CoreInv s) {slot : UInt64}
    (hslot : slot.toNat < 256) (hfree : (s.fibers slot).active = 0) (f : Fiber) (status : Int64)
    (savedRsp : UInt64) : ¬ CoreInv (thiefAfter s f slot status savedRsp) := by
  have hmoved : ((s.modifyFiber slot fun _ => { f with active := 1 }).fibers slot).active = 1 := by
    rw [modifyFiber_self]
  unfold thiefAfter
  dsimp only
  split
  · exact not_coreInv_of_unset h hslot hfree rfl (by rw [hmoved]; decide)
  · split
    · obtain ⟨-, -, hcount, -, hreleased, hothers⟩ := releaseFiberResources_frame
        (s.modifyFiber slot fun _ => { f with active := 1 }) slot
      refine not_coreInv_of_miscount h ?_ ?_
      · unfold schedStealRelease
        dsimp only
        rw [hcount]
        rfl
      · intro i
        unfold schedStealRelease
        dsimp only
        by_cases hi : i = slot
        · rw [hi, hreleased, hfree]
        · rw [hothers i hi, modifyFiber_of_ne s hi]
    · refine not_coreInv_of_unset h hslot hfree ?_ ?_
      · unfold schedStealSavePreempt savePreemptContext
        split
        · rfl
        · rfl
      · unfold schedStealSavePreempt savePreemptContext
        split
        · rw [modifyFiber_self]
          dsimp only
          rw [hmoved]
          decide
        · rw [hmoved]
          decide

/-! ### The law of a steal -/

/-- The fiber `f` is active in a slot, up to its saved context. -/
def Carries (s : SchedulerState) (slot : UInt64) (f : Fiber) : Prop :=
  (s.fibers slot).active ≠ 0 ∧ (s.fibers slot).id = f.id ∧ (s.fibers slot).stepFn = f.stepFn ∧
    (s.fibers slot).taskFrame = f.taskFrame ∧ (s.fibers slot).stackBase = f.stackBase ∧
    (s.fibers slot).ecsEntityVal = f.ecsEntityVal

/-- `find_next_fiber` returns the slot, from some other slot on. -/
def Reached (s : SchedulerState) (slot : UInt64) : Prop :=
  ∃ current : UInt64, current.toNat < 256 ∧ current ≠ slot ∧
    findNextFiber s current (s.l2Details (current / 64)) s.l1Summary = slot

/-- A fiber `f` that was stolen by `cpu` has finished, and its memory was pushed back once. -/
def Finished (cores cores' : SchedArray) (cpu : UInt64) (f : Fiber) : Prop :=
  (cores' cpu).pushed = (cores cpu).pushed ++ [f.taskFrame, f.stackBase].filter (· != 0) ∧
    ∀ c slot : UInt64, c.toNat < 16 → slot.toNat < 256 → ¬ Carries (cores' c) slot f

/-- The fiber `f` is active in exactly one slot of one core, and can be scheduled there. -/
def Migrated (cores' : SchedArray) (f : Fiber) : Prop :=
  ∃ c slot : UInt64, (c.toNat < 16 ∧ slot.toNat < 256 ∧ Carries (cores' c) slot f) ∧
    Reached (cores' c) slot ∧
    ∀ c' slot' : UInt64, c'.toNat < 16 → slot'.toNat < 256 → Carries (cores' c') slot' f →
      c' = c ∧ slot' = slot

/-- A steal neither loses nor duplicates the fiber. -/
def StealLaw (cores : SchedArray) (cpu word : UInt64) (status : Int64) (savedRsp : UInt64) : Prop :=
  let cores' := dispatchStolen cores cpu word status savedRsp
  let f := (cores (victimCpu word)).fibers (victimSlot word)
  (CoreInv (cores' cpu) ∧ CoreInv (cores' (victimCpu word))) ∧
    (∀ slot, localSlot? (cores cpu).l1Summary = some slot → ((cores cpu).fibers slot).active = 0) ∧
    (Finished cores cores' cpu f ∨ Migrated cores' f)

/-- A word that names an active fiber of another core. -/
structure Stealable (cores : SchedArray) (cpu word : UInt64) : Prop where
  cpu_lt : cpu.toNat < 16
  victim_lt : (victimCpu word).toNat < 16
  slot_lt : (victimSlot word).toNat < 256
  other : victimCpu word ≠ cpu
  active : ((cores (victimCpu word)).fibers (victimSlot word)).active ≠ 0

theorem stealLaw_false {cores : SchedArray} {cpu word : UInt64} (h : CoreInv (cores cpu))
    (hword : Stealable cores cpu word) {status : Int64} {savedRsp : UInt64}
    (hlaw : StealLaw cores cpu word status savedRsp) : False := by
  obtain ⟨slot, hslot, hlt, hbit⟩ := h.exists_localSlot
  obtain ⟨⟨hthief, -⟩, hchosen, -⟩ := hlaw
  rw [dispatchStolen_thief hword.other hword.active hslot hbit hlt] at hthief
  exact not_coreInv_thiefAfter h (by omega) (hchosen slot hslot) _ _ _ hthief

/-- Core 0 is idle, core 1 has one fiber, in slot 1, and the others have none. -/
def oneFiberCores : SchedArray := fun cpu =>
  if cpu == 0 then schedStealInitCore SchedulerState.zero
  else if cpu == 1 then (spawn Env.sample SchedulerState.zero 0x400000 0x10000 7).1
  else SchedulerState.zero

theorem coreInv_oneFiberCores (c : UInt64) : CoreInv (oneFiberCores c) := by
  unfold oneFiberCores
  split
  · exact ⟨by decide +kernel, by decide +kernel, by decide +kernel⟩
  · split
    · exact ⟨by decide +kernel, by decide +kernel, by decide +kernel⟩
    · exact ⟨by decide +kernel, by decide +kernel, by decide +kernel⟩

theorem stealable_oneFiberCores : Stealable oneFiberCores 0 0x10001 :=
  ⟨by decide, by decide, by decide, by decide, by decide +kernel⟩

/-- **Every steal breaks the law**: whatever the stolen task returns, the thief took a slot in use or
loses its invariant. -/
theorem not_stealLaw (cores : SchedArray) (hcores : ∀ c : UInt64, c.toNat < 16 → CoreInv (cores c))
    (cpu word : UInt64) (hword : Stealable cores cpu word) (status : Int64) (savedRsp : UInt64) :
    ¬ StealLaw cores cpu word status savedRsp :=
  fun hlaw => stealLaw_false (hcores cpu hword.cpu_lt) hword hlaw

theorem not_stealLaw_oneFiberCores : ¬ StealLaw oneFiberCores 0 0x10001 0 0 :=
  not_stealLaw oneFiberCores (fun c _ => coreInv_oneFiberCores c) 0 0x10001 stealable_oneFiberCores 0 0

/-- The idle core 0 steals the fiber of core 1, which does not finish. -/
theorem not_forall_stealLaw :
    ¬ ∀ (cores : SchedArray), (∀ c : UInt64, c.toNat < 16 → CoreInv (cores c)) →
      ∀ cpu word : UInt64, Stealable cores cpu word → ∀ (status : Int64) (savedRsp : UInt64),
        StealLaw cores cpu word status savedRsp := by
  intro hall
  have hlaw := hall oneFiberCores (fun c _ => coreInv_oneFiberCores c) 0 0x10001
    stealable_oneFiberCores 0 0
  exact stealLaw_false (coreInv_oneFiberCores 0) stealable_oneFiberCores hlaw

end Keuos.Scheduler
