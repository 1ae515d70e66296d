import Keuos.Scheduler.Defs
import Mathlib.Data.Finset.Card
import Mathlib.Order.Interval.Finset.Nat

/-!
# The two-level bitmap of the fiber scheduler

`runnable s i` is the bit of slot `i` in `l2_details`.  Setting and clearing a slot change that
bit only (`runnable_bitmapSet`, `runnable_bitmapClear`) and keep `l1_summary` the summary of the
sixteen groups, so `BitmapInv`, which ties both levels, the `active` flags, the counter and the
step functions together, is preserved by the spawn functions and by `do_dispatch`, whatever the
invoked task does (`BitmapInv.exec`).

`init` keeps the invariant only when no fiber is active: it resets the counter and leaves the
bitmap alone.  The kernel calls it once, on the zeroed state (`bitmapInv_run`);
`not_bitmapInv_of_reinit` is the run in which it is called later.
-/

namespace Keuos.Scheduler

open Finset

/-! ### Slots as numbers -/

/-- The bit of slot `i` in the second level. -/
def runnable (s : SchedulerState) (i : Nat) : Bool :=
  bit (s.l2Details (UInt64.ofNat (i / 64))) (i % 64)

theorem toNat_ofNat_of_lt {n : Nat} (h : n < 2 ^ 64) : (UInt64.ofNat n).toNat = n := by
  rw [UInt64.toNat_ofNat', Nat.mod_eq_of_lt h]

theorem ofNat_group (slot : UInt64) : UInt64.ofNat (slot.toNat / 64) = slot / 64 := by
  apply UInt64.toNat_inj.mp
  have := slot.toNat_lt
  rw [toNat_ofNat_of_lt (by omega), UInt64.toNat_div]
  rfl

theorem toNat_group (slot : UInt64) : (slot / 64).toNat = slot.toNat / 64 := by
  rw [UInt64.toNat_div]
  rfl

theorem toNat_slotBit (slot : UInt64) : (slot % 64).toNat = slot.toNat % 64 := by
  rw [UInt64.toNat_mod]
  rfl

theorem toNat_slot {g b : UInt64} (hg : g.toNat < 16) (hb : b.toNat < 64) :
    (g * 64 + b).toNat = g.toNat * 64 + b.toNat := by
  rw [UInt64.toNat_add, UInt64.toNat_mul]
  show (g.toNat * 64 % 2 ^ 64 + b.toNat) % 2 ^ 64 = g.toNat * 64 + b.toNat
  omega

theorem runnable_slot (s : SchedulerState) {g b : UInt64} (hg : g.toNat < 16)
    (hb : b.toNat < 64) : runnable s (g * 64 + b).toNat = bit (s.l2Details g) b.toNat := by
  unfold runnable
  rw [toNat_slot hg hb]
  have h1 : (g.toNat * 64 + b.toNat) / 64 = g.toNat := by omega
  have h2 : (g.toNat * 64 + b.toNat) % 64 = b.toNat := by omega
  rw [h1, h2, UInt64.ofNat_toNat]

/-! ### Setting and clearing one slot -/

theorem runnable_bitmapSet (s : SchedulerState) (slot : UInt64) {i : Nat} (hi : i < 1024) :
    runnable (bitmapSet s slot) i = (decide (slot.toNat = i) || runnable s i) := by
  have hbit : (slot % 64).toNat < 64 := by
    rw [toNat_slotBit]
    omega
  unfold runnable bitmapSet
  simp only [Function.update_apply]
  by_cases hg : UInt64.ofNat (i / 64) = slot / 64
  · have hg' : i / 64 = slot.toNat / 64 := by
      have := congrArg UInt64.toNat hg
      rwa [toNat_ofNat_of_lt (by omega), toNat_group] at this
    rw [if_pos hg, bit_or, bit_one_shiftLeft hbit, toNat_slotBit, hg, Bool.or_comm]
    congr 1
    rw [decide_eq_decide]
    omega
  · have hne : slot.toNat ≠ i := by
      rintro rfl
      exact hg (ofNat_group slot)
    rw [if_neg hg, decide_eq_false hne, Bool.false_or]

theorem runnable_bitmapClear (s : SchedulerState) (slot : UInt64) {i : Nat} (hi : i < 1024) :
    runnable (bitmapClear s slot) i = (!decide (slot.toNat = i) && runnable s i) := by
  have hbit : (slot % 64).toNat < 64 := by
    rw [toNat_slotBit]
    omega
  have hl2 : (bitmapClear s slot).l2Details = Function.update s.l2Details (slot / 64)
      (s.l2Details (slot / 64) &&& ((1 <<< (slot % 64)) ^^^ allOnes)) := by
    unfold bitmapClear
    simp only
    split <;> rfl
  unfold runnable
  rw [hl2]
  simp only [Function.update_apply]
  by_cases hg : UInt64.ofNat (i / 64) = slot / 64
  · have hg' : i / 64 = slot.toNat / 64 := by
      have := congrArg UInt64.toNat hg
      rwa [toNat_ofNat_of_lt (by omega), toNat_group] at this
    have hlt : i % 64 < 64 := Nat.mod_lt _ (by omega)
    rw [if_pos hg, bit_and, bit_xor, bit_allOnes, decide_eq_true hlt, Bool.xor_true,
      bit_one_shiftLeft hbit, toNat_slotBit, hg, Bool.and_comm]
    congr 2
    rw [decide_eq_decide]
    omega
  · have hne : slot.toNat ≠ i := by
      rintro rfl
      exact hg (ofNat_group slot)
    rw [if_neg hg, decide_eq_false hne, Bool.not_false, Bool.true_and]

/-- `l1_summary` is the summary of the sixteen groups, and no bit beyond them is set. -/
def SummaryInv (s : SchedulerState) : Prop :=
  (∀ g, g < 16 → (bit s.l1Summary g = true ↔ s.l2Details (UInt64.ofNat g) ≠ 0)) ∧
  ∀ g, 16 ≤ g → bit s.l1Summary g = false

theorem SummaryInv.bitmapSet {s : SchedulerState} (h : SummaryInv s) {slot : UInt64}
    (hslot : slot.toNat < 1024) : SummaryInv (bitmapSet s slot) := by
  have hgrp : (slot / 64).toNat < 64 := by
    rw [toNat_group]
    omega
  have hbit : (slot % 64).toNat < 64 := by
    rw [toNat_slotBit]
    omega
  constructor
  · intro g hg
    unfold Scheduler.bitmapSet
    simp only [bit_or, bit_one_shiftLeft hgrp, Function.update_apply, Bool.or_eq_true,
      decide_eq_true_eq]
    by_cases hgs : UInt64.ofNat g = slot / 64
    · -- The group of the slot: its summary bit is set and its word is not zero.
      have hgs' : (slot / 64).toNat = g := by
        rw [← hgs, toNat_ofNat_of_lt (by omega)]
      have hne : s.l2Details (slot / 64) ||| 1 <<< (slot % 64) ≠ 0 := by
        apply ne_zero_of_bit (i := (slot % 64).toNat)
        rw [bit_or, bit_one_shiftLeft hbit, decide_eq_true rfl, Bool.or_true]
      rw [if_pos hgs]
      exact ⟨fun _ => hne, fun _ => Or.inr hgs'⟩
    · have hgs' : (slot / 64).toNat ≠ g := by
        rintro rfl
        exact hgs UInt64.ofNat_toNat
      rw [if_neg hgs, h.1 g hg]
      constructor
      · rintro (hne | heq)
        · exact hne
        · exact absurd heq hgs'
      · exact Or.inl
  · intro g hg
    have hgs : (slot / 64).toNat ≠ g := by
      rw [toNat_group]
      omega
    unfold Scheduler.bitmapSet
    simp only [bit_or, bit_one_shiftLeft hgrp, h.2 g hg, decide_eq_false hgs, Bool.or_self]

theorem summary_iff_bitmapClear {s : SchedulerState}
    (h : ∀ g, g < 16 → (bit s.l1Summary g = true ↔ s.l2Details (UInt64.ofNat g) ≠ 0)) {slot : UInt64}
    (hslot : slot.toNat < 1024) {g : Nat} (hg : g < 16) :
    bit (bitmapClear s slot).l1Summary g = true ↔
      (bitmapClear s slot).l2Details (UInt64.ofNat g) ≠ 0 := by
  have hgrp : (slot / 64).toNat < 64 := by
    rw [toNat_group]
    omega
  unfold Scheduler.bitmapClear
  simp only
  set newL2 := s.l2Details (slot / 64) &&& ((1 <<< (slot % 64)) ^^^ allOnes) with hnew
  by_cases hzero : newL2 = 0
  · -- The last bit of the group goes: the summary bit goes with it.
    simp only [hzero, beq_self_eq_true, ↓reduceIte]
    simp only [bit_and, bit_xor, bit_allOnes, bit_one_shiftLeft hgrp, Function.update_apply,
      decide_eq_true (show g < 64 by omega), Bool.xor_true, Bool.and_eq_true,
      Bool.not_eq_true', decide_eq_false_iff_not]
    by_cases hgs : UInt64.ofNat g = slot / 64
    · have hgs' : (slot / 64).toNat = g := by
        rw [← hgs, toNat_ofNat_of_lt (by omega)]
      rw [if_pos hgs]
      exact ⟨fun hc => absurd hgs' hc.2, fun hc => absurd rfl hc⟩
    · have hgs' : (slot / 64).toNat ≠ g := by
        rintro rfl
        exact hgs UInt64.ofNat_toNat
      rw [if_neg hgs, h g hg]
      exact ⟨fun hc => hc.1, fun hc => ⟨hc, hgs'⟩⟩
  · have hbeq : (newL2 == 0) = false := by simpa using hzero
    simp only [hbeq, Bool.false_eq_true, ↓reduceIte]
    show bit s.l1Summary g = true ↔ Function.update s.l2Details (slot / 64) newL2 _ ≠ 0
    rw [Function.update_apply]
    by_cases hgs : UInt64.ofNat g = slot / 64
    · -- Another bit of the group was set before, so the summary bit was and stays set.
      have hold : s.l2Details (UInt64.ofNat g) ≠ 0 := by
        intro hz
        apply hzero
        rw [hnew, ← hgs, hz]
        exact UInt64.zero_and
      rw [if_pos hgs]
      exact ⟨fun _ => hzero, fun _ => (h g hg).mpr hold⟩
    · rw [if_neg hgs]
      exact h g hg

theorem SummaryInv.bitmapClear {s : SchedulerState} (h : SummaryInv s) {slot : UInt64}
    (hslot : slot.toNat < 1024) : SummaryInv (bitmapClear s slot) := by
  refine ⟨fun g hg => summary_iff_bitmapClear h.1 hslot hg, ?_⟩
  intro g hg
  unfold Scheduler.bitmapClear
  dsimp only
  split
  · simp only [bit_and, h.2 g hg, Bool.false_and]
  · exact h.2 g hg

/-! ### The scans -/

theorem bit_freeMask (l2Val group : UInt64) {i : Nat} (hi : i < 64) :
    bit (if (group == 0) = true then (l2Val ^^^ allOnes) &&& (allOnes ^^^ 1)
      else l2Val ^^^ allOnes) i = (!bit l2Val i && !(group == 0 && decide (0 = i))) := by
  cases group == 0 <;>
    simp only [Bool.false_eq_true, ↓reduceIte, bit_and, bit_xor, bit_allOnes, bit_one,
      decide_eq_true hi, Bool.xor_true, Bool.true_xor, Bool.true_and, Bool.false_and,
      Bool.not_false, Bool.and_true]

/-- What the loop over the groups returns, when it has reached `group`: the smallest clear slot
from there on, slot 0 excepted. -/
theorem findFreeSlotFrom_first (s : SchedulerState) : ∀ (n : Nat) (group : UInt64),
    group.toNat + n = 16 →
    (findFreeSlotFrom s n group = noSlot ∧
      ∀ j, 1 ≤ j → group.toNat * 64 ≤ j → j < 256 → runnable s j = true) ∨
    (1 ≤ (findFreeSlotFrom s n group).toNat ∧ (findFreeSlotFrom s n group).toNat < 256 ∧
      runnable s (findFreeSlotFrom s n group).toNat = false ∧
      ∀ j, 1 ≤ j → group.toNat * 64 ≤ j → j < (findFreeSlotFrom s n group).toNat →
        runnable s j = true) := by
  intro n
  induction n with
  | zero =>
    intro group hg
    left
    refine ⟨rfl, ?_⟩
    intro j _ hj1 hj2
    omega
  | succ n ih =>
    intro group hg
    have hgr : group.toNat < 16 := by omega
    have hstep : (group + 1).toNat = group.toNat + 1 := by
      rw [UInt64.toNat_add, UInt64.toNat_one]
      omega
    rw [findFreeSlotFrom]
    simp only
    set freeMask := if (group == 0) = true then (s.l2Details group ^^^ allOnes) &&& (allOnes ^^^ 1)
      else s.l2Details group ^^^ allOnes with hmask
    -- The slots of this group whose bit is clear in the mask are taken, slot 0 excepted.
    have htaken : ∀ j, 1 ≤ j → j / 64 = group.toNat → bit freeMask (j % 64) = false →
        runnable s j = true := by
      intro j hj1 hj2 hclear
      have hlt : j % 64 < 64 := Nat.mod_lt _ (by omega)
      unfold runnable
      rw [hj2, UInt64.ofNat_toNat]
      rw [hmask, bit_freeMask _ group hlt, Bool.and_eq_false_iff] at hclear
      rcases hclear with hset | hzero
      · simpa using hset
      · rw [Bool.not_eq_false', Bool.and_eq_true, beq_iff_eq, decide_eq_true_eq] at hzero
        have hg0 : group.toNat = 0 := by
          rw [hzero.1]
          rfl
        omega
    -- Nothing was found in this group: the next groups decide.
    have hskip : ∀ r : UInt64, (∀ j, 1 ≤ j → j / 64 = group.toNat → j < r.toNat →
        runnable s j = true) →
        (∀ j, 1 ≤ j → (group + 1).toNat * 64 ≤ j → j < r.toNat → runnable s j = true) →
        ∀ j, 1 ≤ j → group.toNat * 64 ≤ j → j < r.toNat → runnable s j = true := by
      intro r hhere hlater j hj1 hj2 hj3
      by_cases hsame : j / 64 = group.toNat
      · exact hhere j hj1 hsame hj3
      · exact hlater j hj1 (by omega) hj3
    have hcontinue : (∀ j, 1 ≤ j → j / 64 = group.toNat → j < 256 → runnable s j = true) →
        (findFreeSlotFrom s n (group + 1) = noSlot ∧
          ∀ j, 1 ≤ j → group.toNat * 64 ≤ j → j < 256 → runnable s j = true) ∨
        (1 ≤ (findFreeSlotFrom s n (group + 1)).toNat ∧
          (findFreeSlotFrom s n (group + 1)).toNat < 256 ∧
          runnable s (findFreeSlotFrom s n (group + 1)).toNat = false ∧
          ∀ j, 1 ≤ j → group.toNat * 64 ≤ j → j < (findFreeSlotFrom s n (group + 1)).toNat →
            runnable s j = true) := by
      intro hhere
      rcases ih (group + 1) (by omega) with ⟨hnone, hall⟩ | ⟨h1, h2, h3, hall⟩
      · exact Or.inl ⟨hnone, hskip 256 hhere hall⟩
      · exact Or.inr ⟨h1, h2, h3, hskip _ (fun j hj1 hj2 hj3 => hhere j hj1 hj2 (by omega)) hall⟩
    by_cases hne : freeMask = 0
    · simp only [hne, bne_self_eq_false, Bool.false_eq_true, ↓reduceIte]
      apply hcontinue
      intro j hj1 hj2 _
      apply htaken j hj1 hj2
      rw [hne, bit_zero]
    · have hbne : (freeMask != 0) = true := by simpa using hne
      simp only [hbne, ↓reduceIte]
      obtain ⟨hc, hbit, hmin⟩ := ctz_spec hne
      have hval := toNat_slot hgr hc
      have hcmp : group * 64 + ctz freeMask < maxFibers ↔
          group.toNat * 64 + (ctz freeMask).toNat < 256 := by
        rw [UInt64.lt_iff_toNat_lt, hval]
        rfl
      by_cases hlt : group * 64 + ctz freeMask < maxFibers
      · simp only [hlt, ↓reduceIte]
        right
        rw [runnable_slot s hgr hc, hval]
        have hmaskBit := bit_freeMask (s.l2Details group) group hc
        rw [← hmask, hbit, eq_comm, Bool.and_eq_true, Bool.not_eq_true', Bool.not_eq_true']
          at hmaskBit
        refine ⟨?_, hcmp.mp hlt, hmaskBit.1, ?_⟩
        · by_contra hzero
          have hg0 : group = 0 := UInt64.toNat_inj.mp (by
            show group.toNat = 0
            omega)
          have hc0 : 0 = (ctz freeMask).toNat := by omega
          have hexcl := hmaskBit.2
          rw [decide_eq_true hc0, hg0] at hexcl
          exact Bool.false_ne_true hexcl.symm
        · intro j hj1 hj2 hj3
          exact htaken j hj1 (by omega) (hmin _ (by omega))
      · simp only [hlt, ↓reduceIte]
        have hge := mt hcmp.mpr hlt
        apply hcontinue
        intro j hj1 hj2 hj3
        exact htaken j hj1 hj2 (hmin _ (by omega))

theorem findFreeSlot_spec (s : SchedulerState) :
    findFreeSlot s = noSlot ∨ (1 ≤ (findFreeSlot s).toNat ∧ (findFreeSlot s).toNat < 256 ∧
      runnable s (findFreeSlot s).toNat = false) := by
  rcases findFreeSlotFrom_first s 16 0 rfl with ⟨hnone, -⟩ | ⟨h1, h2, hclear, -⟩
  · exact Or.inl hnone
  · exact Or.inr ⟨h1, h2, hclear⟩

theorem runnable_of_summary {s : SchedulerState} (h : SummaryInv s) {w mask : UInt64}
    (hw : w = s.l1Summary &&& mask) (hne : w ≠ 0) :
    (ctz w * 64 + ctz (s.l2Details (ctz w))).toNat < 1024 ∧
    runnable s (ctz w * 64 + ctz (s.l2Details (ctz w))).toNat = true := by
  obtain ⟨-, hbit, -⟩ := ctz_spec hne
  rw [hw, bit_and, ← hw, Bool.and_eq_true] at hbit
  have hg : (ctz w).toNat < 16 := by
    by_contra hge
    rw [h.2 _ (by omega)] at hbit
    exact Bool.false_ne_true hbit.1
  have hl2 : s.l2Details (ctz w) ≠ 0 := by
    have := (h.1 _ hg).mp hbit.1
    rwa [UInt64.ofNat_toNat] at this
  obtain ⟨hb, hset, -⟩ := ctz_spec hl2
  rw [runnable_slot s hg hb, toNat_slot hg hb]
  exact ⟨by omega, hset⟩

theorem runnable_of_group {s : SchedulerState} {current w mask : UInt64}
    (hcur : current.toNat < 1024) (hw : w = s.l2Details (current / 64) &&& mask) (hne : w ≠ 0) :
    (current / 64 * 64 + ctz w).toNat < 1024 ∧
    runnable s (current / 64 * 64 + ctz w).toNat = true := by
  obtain ⟨hb, hbit, -⟩ := ctz_spec hne
  rw [hw, bit_and, ← hw, Bool.and_eq_true] at hbit
  have hg : (current / 64).toNat < 16 := by
    rw [toNat_group]
    omega
  rw [runnable_slot s hg hb, toNat_slot hg hb]
  exact ⟨by omega, hbit.1⟩

theorem findNextFiber_spec {s : SchedulerState} (h : SummaryInv s) (current : UInt64)
    (hcur : current.toNat < 1024) :
    let next := findNextFiber s current (s.l2Details (current / 64)) s.l1Summary
    next = current ∨ (next.toNat < 1024 ∧ runnable s next.toNat = true) := by
  intro next
  have hnext : next = findNextFiber s current (s.l2Details (current / 64)) s.l1Summary := rfl
  unfold findNextFiber at hnext
  simp only at hnext
  split at hnext
  · rename_i habove
    rw [hnext]
    exact Or.inr (runnable_of_group hcur rfl (by simpa using habove))
  · split at hnext
    · rename_i habove
      rw [hnext]
      exact Or.inr (runnable_of_summary h rfl (by simpa using habove))
    · split at hnext
      · rename_i hbelow
        rw [hnext]
        exact Or.inr (runnable_of_summary h rfl (by simpa using hbelow))
      · split at hnext
        · rename_i hbelow
          rw [hnext]
          exact Or.inr (runnable_of_group hcur rfl (by simpa using hbelow))
        · exact Or.inl hnext

/-! ### The invariant -/

/-- The slots whose bit is set, among the 1024 of the sixteen groups. -/
def runnableSlots (s : SchedulerState) : Finset Nat :=
  (range 1024).filter fun i => runnable s i = true

/-- The bitmap invariant of one core. -/
structure BitmapInv (s : SchedulerState) : Prop where
  /-- A slot's bit is set exactly when its fiber is active. -/
  active_iff : ∀ slot : UInt64, 1 ≤ slot.toNat → slot.toNat < 256 →
    (runnable s slot.toNat = true ↔ (s.fibers slot).active = 1)
  /-- A summary bit is set exactly when its group is not empty. -/
  summary : SummaryInv s
  /-- The boot fiber has no bit. -/
  slot_zero : runnable s 0 = false
  /-- The slots beyond `MAX_FIBERS` have no bit. -/
  slot_high : ∀ i, 256 ≤ i → i < 1024 → runnable s i = false
  /-- The counter counts the set bits. -/
  count_eq : s.count.toNat = (runnableSlots s).card
  /-- Active fibers can be invoked. -/
  stepFn_ne_zero : ∀ slot : UInt64, slot.toNat < 256 →
    (s.fibers slot).active = 1 → (s.fibers slot).stepFn ≠ 0
  /-- The scheduler runs on behalf of one of the 256 slots. -/
  current_lt : s.current.toNat < 256

theorem BitmapInv.zero : BitmapInv SchedulerState.zero := by
  have hrun : ∀ i, runnable SchedulerState.zero i = false := fun i => bit_zero _
  refine ⟨?_, ⟨?_, ?_⟩, hrun 0, fun i _ _ => hrun i, ?_, ?_, by decide⟩
  · intro slot _ _
    rw [hrun]
    exact ⟨fun h => absurd h Bool.false_ne_true,
      fun h => absurd h (show (0 : UInt64) ≠ 1 by decide)⟩
  · intro g _
    exact ⟨fun h => absurd h (by simp [SchedulerState.zero]), fun h => absurd rfl h⟩
  · intro g _
    exact bit_zero g
  · have : runnableSlots SchedulerState.zero = ∅ := by
      apply Finset.filter_eq_empty_iff.mpr
      intro i _
      rw [hrun]
      exact Bool.false_ne_true
    rw [this]
    rfl
  · intro slot _ h
    exact absurd h (show (0 : UInt64) ≠ 1 by decide)

theorem BitmapInv.withCurrent {s : SchedulerState} (h : BitmapInv s) {c : UInt64}
    (hc : c.toNat < 256) : BitmapInv { s with current := c } :=
  ⟨h.active_iff, h.summary, h.slot_zero, h.slot_high, h.count_eq, h.stepFn_ne_zero, hc⟩

theorem BitmapInv.slot_range {s : SchedulerState} (h : BitmapInv s) {i : Nat} (hi : i < 1024)
    (hrun : runnable s i = true) : 1 ≤ i ∧ i < 256 := by
  constructor
  · by_contra hzero
    have : i = 0 := by omega
    rw [this, h.slot_zero] at hrun
    exact Bool.false_ne_true hrun
  · by_contra hhigh
    rw [h.slot_high i (by omega) hi] at hrun
    exact Bool.false_ne_true hrun

/-! ### Spawning -/

/-- **Admitting a fiber** into a free slot keeps the invariant, if it is written as active and
with a step function. -/
theorem BitmapInv.admitFiber {s : SchedulerState} (h : BitmapInv s) {slot : UInt64}
    (hpos : 1 ≤ slot.toNat) (hlt : slot.toNat < 256) (hfree : runnable s slot.toNat = false)
    (f : Fiber → Fiber) (hactive : (f (s.fibers slot)).active = 1)
    (hstep : (f (s.fibers slot)).stepFn ≠ 0) :
    BitmapInv (admitFiber (s.modifyFiber slot f) slot) := by
  set s' := Scheduler.admitFiber (s.modifyFiber slot f) slot with hs'
  have hfib : ∀ k, s'.fibers k = if k = slot then f (s.fibers slot) else s.fibers k := by
    intro k
    show Function.update s.fibers slot (f (s.fibers slot)) k = _
    rw [Function.update_apply]
  have hrun : ∀ i, i < 1024 → runnable s' i = (decide (slot.toNat = i) || runnable s i) :=
    fun i hi => runnable_bitmapSet _ _ hi
  -- One slot joins the runnable ones, and it was not among them.
  have hslots : runnableSlots s' = insert slot.toNat (runnableSlots s) := by
    ext i
    simp only [runnableSlots, mem_filter, mem_range, mem_insert]
    constructor
    · rintro ⟨hi, hr⟩
      rw [hrun i hi, Bool.or_eq_true, decide_eq_true_eq] at hr
      rcases hr with hr | hr
      · exact Or.inl hr.symm
      · exact Or.inr ⟨hi, hr⟩
    · rintro (rfl | ⟨hi, hr⟩)
      · exact ⟨by omega, by rw [hrun _ (by omega), decide_eq_true rfl, Bool.true_or]⟩
      · exact ⟨hi, by rw [hrun i hi, hr, Bool.or_true]⟩
  have hnot : slot.toNat ∉ runnableSlots s := by
    simp [runnableSlots, hfree]
  refine ⟨?_, ?_, ?_, ?_, ?_, ?_, h.current_lt⟩
  · intro k hk1 hk2
    rw [hrun _ (by omega), hfib k]
    by_cases hks : k = slot
    · rw [if_pos hks, hks, decide_eq_true rfl, Bool.true_or]
      exact ⟨fun _ => hactive, fun _ => rfl⟩
    · have hne : slot.toNat ≠ k.toNat := fun he => hks (UInt64.toNat_inj.mp he).symm
      rw [if_neg hks, decide_eq_false hne, Bool.false_or]
      exact h.active_iff k hk1 hk2
  · exact SummaryInv.bitmapSet (s := { s.modifyFiber slot f with
      nextId := s.nextId + 1, count := s.count + 1 }) h.summary (by omega)
  · rw [hrun 0 (by omega), decide_eq_false (by omega), Bool.false_or]
    exact h.slot_zero
  · intro i hi1 hi2
    rw [hrun i hi2, decide_eq_false (by omega), Bool.false_or]
    exact h.slot_high i hi1 hi2
  -- The count is a word, but there are at most 1024 runnable slots.
  · have hcard : (runnableSlots s).card ≤ 1024 := by
      have := Finset.card_filter_le (range 1024) fun i => runnable s i = true
      rwa [card_range] at this
    show (s.count + 1).toNat = _
    rw [hslots, card_insert_of_notMem hnot, UInt64.toNat_add, UInt64.toNat_one, h.count_eq]
    omega
  · intro k hk
    rw [hfib k]
    by_cases hks : k = slot
    · rw [if_pos hks]
      exact fun _ => hstep
    · rw [if_neg hks]
      exact h.stepFn_ne_zero k hk

theorem BitmapInv.spawnCall {s : SchedulerState} (h : BitmapInv s) (env : Env)
    (call : SpawnCall) :
    BitmapInv (call.exec env s) ∧
    ∀ i, i < 1024 → runnable s i = true → runnable (call.exec env s) i = true := by
  rcases findFreeSlot_spec s with hnone | ⟨hpos, hlt, hfree⟩
  · have hsame : call.exec env s = s := by
      cases call <;> simp [SpawnCall.exec, spawn, spawnAsync, hnone]
    rw [hsame]
    exact ⟨h, fun _ _ hr => hr⟩
  · have hne : (findFreeSlot s == noSlot) = false := by
      rw [beq_eq_false_iff_ne]
      intro heq
      rw [heq] at hlt
      exact absurd hlt (by decide)
    cases call with
    | spawn entryAddr stackBase ecsVal =>
      simp only [SpawnCall.exec, Scheduler.spawn, hne, Bool.false_eq_true, ↓reduceIte]
      refine ⟨h.admitFiber hpos hlt hfree _ rfl env.invokePreemptiveThread_ne_zero, ?_⟩
      intro i hi hr
      have := runnable_bitmapSet s (findFreeSlot s) hi
      rw [hr, Bool.or_true] at this
      exact this
    | spawnAsync args framePtr ecsVal =>
      simp only [SpawnCall.exec, Scheduler.spawnAsync, hne, Bool.false_eq_true, ↓reduceIte]
      refine ⟨h.admitFiber hpos hlt hfree _ rfl args.stepFnAddr_ne_zero, ?_⟩
      intro i hi hr
      have := runnable_bitmapSet s (findFreeSlot s) hi
      rw [hr, Bool.or_true] at this
      exact this

theorem BitmapInv.spawnCalls {s : SchedulerState} (h : BitmapInv s) (env : Env)
    (calls : List SpawnCall) :
    BitmapInv (runOps (SpawnCall.exec env) s calls) ∧
    ∀ i, i < 1024 → runnable s i = true →
      runnable (runOps (SpawnCall.exec env) s calls) i = true := by
  induction calls generalizing s with
  | nil => exact ⟨h, fun _ _ hr => hr⟩
  | cons call calls ih =>
    obtain ⟨h1, hr1⟩ := h.spawnCall env call
    obtain ⟨h2, hr2⟩ := ih h1
    exact ⟨h2, fun i hi hr => hr2 i hi (hr1 i hi hr)⟩

/-! ### Dispatching -/

theorem releaseFiberResources_frame (s : SchedulerState) (slot : UInt64) :
    (releaseFiberResources s slot).l1Summary = s.l1Summary ∧
    (releaseFiberResources s slot).l2Details = s.l2Details ∧
    (releaseFiberResources s slot).count = s.count ∧
    (releaseFiberResources s slot).current = s.current ∧
    ((releaseFiberResources s slot).fibers slot).active = 0 ∧
    ∀ k, k ≠ slot → (releaseFiberResources s slot).fibers k = s.fibers k := by
  unfold releaseFiberResources SchedulerState.modifyFiber SchedulerState.pushStack
  simp only
  refine ⟨?_, ?_, ?_, ?_, ?_, ?_⟩
  all_goals try (split <;> split <;> rfl)
  · split <;> split <;> simp
  · intro k hk
    split <;> split <;> simp [Function.update_of_ne hk]

/-- **Finishing a fiber** clears its bit, its flag and its share of the counter together. -/
theorem BitmapInv.release {s : SchedulerState} (h : BitmapInv s) {slot : UInt64}
    (hlt : slot.toNat < 256) (hrun : runnable s slot.toNat = true) :
    let s₁ := bitmapClear (releaseFiberResources s slot) slot
    BitmapInv { s₁ with count := s₁.count - 1 } := by
  intro s₁
  obtain ⟨f1, f2, f3, f4, f5, f6⟩ := releaseFiberResources_frame s slot
  have hkeep : s₁.fibers = (releaseFiberResources s slot).fibers ∧
      s₁.count = (releaseFiberResources s slot).count ∧
      s₁.current = (releaseFiberResources s slot).current := by
    show (Scheduler.bitmapClear _ _).fibers = _ ∧ (Scheduler.bitmapClear _ _).count = _ ∧
      (Scheduler.bitmapClear _ _).current = _
    unfold Scheduler.bitmapClear
    simp only
    split <;> exact ⟨rfl, rfl, rfl⟩
  -- one bit of the map is cleared
  have hbit : ∀ i, i < 1024 → runnable s₁ i = (!decide (slot.toNat = i) && runnable s i) := by
    intro i hi
    have := runnable_bitmapClear (releaseFiberResources s slot) slot hi
    rwa [show runnable (releaseFiberResources s slot) i = runnable s i by
      unfold runnable; rw [f2]] at this
  -- so one slot leaves the set of those that can run
  have hslots : runnableSlots s₁ = (runnableSlots s).erase slot.toNat := by
    ext i
    simp only [runnableSlots, mem_filter, mem_range, mem_erase]
    constructor
    · rintro ⟨hi, hr⟩
      rw [hbit i hi, Bool.and_eq_true, Bool.not_eq_true', decide_eq_false_iff_not] at hr
      exact ⟨fun he => hr.1 he.symm, hi, hr.2⟩
    · rintro ⟨hne, hi, hr⟩
      exact ⟨hi, by rw [hbit i hi, hr, decide_eq_false (fun he => hne he.symm)]; rfl⟩
  have hmem : slot.toNat ∈ runnableSlots s := by
    simp only [runnableSlots, mem_filter, mem_range]
    exact ⟨by omega, hrun⟩
  have hsum : SummaryInv (releaseFiberResources s slot) := by
    unfold SummaryInv
    rw [f1, f2]
    exact h.summary
  have hsum₁ : SummaryInv s₁ := hsum.bitmapClear (by omega)
  refine ⟨?_, hsum₁, ?_, ?_, ?_, ?_, ?_⟩
  · intro k hk1 hk2
    show runnable s₁ k.toNat = true ↔ (s₁.fibers k).active = 1
    rw [hbit _ (by omega), hkeep.1]
    by_cases hks : k = slot
    · rw [hks, f5, decide_eq_true rfl]
      exact ⟨fun hc => absurd hc Bool.false_ne_true, fun hc => absurd hc (by decide)⟩
    · have hne : slot.toNat ≠ k.toNat := fun he => hks (UInt64.toNat_inj.mp he).symm
      rw [f6 k hks, decide_eq_false hne, Bool.not_false, Bool.true_and]
      exact h.active_iff k hk1 hk2
  · show runnable s₁ 0 = false
    rw [hbit 0 (by omega), h.slot_zero, Bool.and_false]
  · intro i hi1 hi2
    show runnable s₁ i = false
    rw [hbit i hi2, h.slot_high i hi1 hi2, Bool.and_false]
  · show (s₁.count - 1).toNat = (runnableSlots s₁).card
    have hcard : (runnableSlots s).card ≤ 1024 := by
      have := Finset.card_filter_le (range 1024) fun i => runnable s i = true
      rwa [card_range] at this
    have hpos : 0 < (runnableSlots s).card := card_pos.mpr ⟨_, hmem⟩
    rw [hslots, card_erase_of_mem hmem, hkeep.2.1, f3, UInt64.toNat_sub, h.count_eq,
      UInt64.toNat_one]
    omega
  · intro k hk
    show (s₁.fibers k).active = 1 → (s₁.fibers k).stepFn ≠ 0
    rw [hkeep.1]
    by_cases hks : k = slot
    · rw [hks, f5]
      intro hc
      exact absurd hc (by decide)
    · rw [f6 k hks]
      exact h.stepFn_ne_zero k hk
  · show s₁.current.toNat < 256
    rw [hkeep.2.2, f4]
    exact h.current_lt

theorem BitmapInv.savePreemptContext {s : SchedulerState} (h : BitmapInv s)
    (slot savedRsp : UInt64) : BitmapInv (savePreemptContext s slot savedRsp) := by
  unfold Scheduler.savePreemptContext
  split
  · have hfib : ∀ k, ((s.modifyFiber slot fun f =>
          { f with stackPtr := savedRsp, ctxPtr := savedRsp }).fibers k).active =
            (s.fibers k).active ∧
        ((s.modifyFiber slot fun f =>
          { f with stackPtr := savedRsp, ctxPtr := savedRsp }).fibers k).stepFn =
            (s.fibers k).stepFn := by
      intro k
      unfold SchedulerState.modifyFiber
      simp only [Function.update_apply]
      split
      · rename_i hk
        rw [hk]
        exact ⟨rfl, rfl⟩
      · exact ⟨rfl, rfl⟩
    refine ⟨?_, h.summary, h.slot_zero, h.slot_high, h.count_eq, ?_, h.current_lt⟩
    · intro k hk1 hk2
      rw [(hfib k).1]
      exact h.active_iff k hk1 hk2
    · intro k hk
      rw [(hfib k).1, (hfib k).2]
      exact h.stepFn_ne_zero k hk
  · exact h

theorem BitmapInv.doDispatch {s : SchedulerState} (h : BitmapInv s) (env : Env)
    (inv : Invocation) : BitmapInv (doDispatch env s inv) := by
  unfold Scheduler.doDispatch
  simp only
  set next := findNextFiber s s.current (s.l2Details (s.current / 64)) s.l1Summary with hnext
  have hcur := h.current_lt
  rcases findNextFiber_spec h.summary s.current (by omega) with heq | ⟨hlt, hrun⟩
  · have hbeq : (next == s.current) = true := beq_iff_eq.mpr heq
    simp only [hbeq, ↓reduceIte]
    exact h
  · by_cases hbeq : (next == s.current) = true
    · simp only [hbeq, ↓reduceIte]
      exact h
    · simp only [hbeq, Bool.false_eq_true, ↓reduceIte]
      obtain ⟨-, hlt'⟩ := h.slot_range hlt hrun
      -- The task runs with `current = next`; its spawns leave `next` runnable.
      obtain ⟨h2, hrun2⟩ := (h.withCurrent hlt').spawnCalls env inv.spawns
      have hrun' := hrun2 next.toNat hlt hrun
      set s₂ := runOps (SpawnCall.exec env) { s with current := next } inv.spawns
      apply BitmapInv.withCurrent _ hcur
      unfold finishDispatch
      split
      · exact h2.release hlt' hrun'
      · exact h2.savePreemptContext next inv.savedRsp

/-! ### Runs -/

/-- The condition on a step: `init` is called only while no fiber is active. -/
def InitWhenIdle (s : SchedulerState) : Op → Prop
  | .init => s.count = 0
  | _ => True

theorem BitmapInv.init {s : SchedulerState} (h : BitmapInv s) (hidle : s.count = 0) :
    BitmapInv (init s) := by
  have hfib : ∀ k : UInt64, 1 ≤ k.toNat → (Scheduler.init s).fibers k = s.fibers k := by
    intro k hk
    apply Function.update_of_ne
    rintro rfl
    exact absurd hk (by decide)
  refine ⟨?_, h.summary, h.slot_zero, h.slot_high, ?_, ?_,
    show (0 : UInt64).toNat < 256 by decide⟩
  · intro k hk1 hk2
    rw [hfib k hk1]
    exact h.active_iff k hk1 hk2
  · have := h.count_eq
    rw [hidle] at this
    exact this
  · intro k hk hactive
    rcases Nat.eq_zero_or_pos k.toNat with hzero | hpos
    · -- Slot 0 has just been marked inactive.
      have hk0 : k = 0 := UInt64.toNat_inj.mp hzero
      rw [hk0] at hactive
      have hflag : ((Scheduler.init s).fibers 0).active = 0 := by
        simp [Scheduler.init, SchedulerState.modifyFiber]
      rw [hflag] at hactive
      exact absurd hactive (by decide)
    · rw [hfib k hpos] at hactive ⊢
      exact h.stepFn_ne_zero k hk hactive

/-- **One call** keeps the invariant. -/
theorem BitmapInv.exec {s : SchedulerState} (h : BitmapInv s) (env : Env) (o : Op)
    (ho : InitWhenIdle s o) : BitmapInv (exec env s o) := by
  cases o with
  | init => exact h.init ho
  | spawn call => exact (h.spawnCall env call).1
  | dispatch inv => exact h.doDispatch env inv

/-- **The bitmap invariant of every run**: from the zeroed state, through any sequence of
`spawn`, `spawn_async` and `do_dispatch` calls with any behaviour of the invoked tasks, and of
`init` calls made while no fiber is active. -/
theorem bitmapInv_run (env : Env) (ops : List Op)
    (hinit : Admissible (exec env) InitWhenIdle SchedulerState.zero ops) :
    BitmapInv (run env ops) :=
  runOps_induction (fun _ o hs ho => hs.exec env o ho) BitmapInv.zero hinit

/-- An environment whose trampoline is at address 1. -/
def Env.sample : Env := ⟨1, by decide, fun _ _ => 0⟩

/-- Boot, a spawn, and a dispatch whose task spawns another fiber and finishes. -/
theorem bitmapInv_run_boot :
    BitmapInv (run Env.sample [.init, .spawn (.spawn 0 0 0),
      .dispatch ⟨[.spawn 0 0 0], pollReady, 0⟩]) :=
  bitmapInv_run Env.sample [.init, .spawn (.spawn 0 0 0), .dispatch ⟨[.spawn 0 0 0], pollReady, 0⟩]
    ⟨rfl, trivial, trivial, trivial⟩

/-- `init` after a spawn: the bit of slot 1 is set and the counter is zero. -/
theorem not_bitmapInv_of_reinit :
    ¬ ∀ (env : Env) (ops : List Op), BitmapInv (run env ops) := by
  intro hall
  have h := hall Env.sample [.spawn (.spawn 0 0 0), .init]
  have hcount : (run Env.sample [.spawn (.spawn 0 0 0), .init]).count.toNat = 0 := rfl
  have hrun : runnable (run Env.sample [.spawn (.spawn 0 0 0), .init]) 1 = true := by decide
  have hmem : 1 ∈ runnableSlots (run Env.sample [.spawn (.spawn 0 0 0), .init]) := by
    simp only [runnableSlots, mem_filter, mem_range]
    exact ⟨by omega, hrun⟩
  have hpos := card_pos.mpr ⟨_, hmem⟩
  rw [← h.count_eq, hcount] at hpos
  exact absurd hpos (by decide)

end Keuos.Scheduler
