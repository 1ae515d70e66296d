import Keuos.Process.Lifecycle

/-!
# `schedule_next` finds work

The scan looks at the 63 slots after `LAST_DISPATCHED`, so at every slot but that one (`scanFrom_eq_none`).
`schedule_next` therefore fails to find work exactly when the only process to dispatch is the one in
the slot `LAST_DISPATCHED`, and task 0 does not preempt (`findsWork_iff`).  This happens after task 0
was dispatched, which leaves `LAST_DISPATCHED` alone.
-/

namespace Keuos.Process

/-- A slot that `schedule_next` may dispatch. -/
def Candidate (p : Procs) (i : UInt64) : Prop :=
  i < maxProcs ∧ i ≠ p.currentPid ∧ dispatchable (p.state i) = true

theorem toNat_lt_maxProcs {i : UInt64} : i < maxProcs ↔ i.toNat < 64 :=
  UInt64.lt_iff_toNat_lt

/-! ### The count -/

section Count

variable {p : Procs} {current : UInt64}

theorem le_dcountFrom (n : Nat) (ci dcount : UInt64) (hd : dcount.toNat + n < 2 ^ 64) :
    dcount.toNat ≤ (dcountFrom p current n ci dcount).toNat := by
  induction n generalizing ci dcount with
  | zero => exact Nat.le_refl _
  | succ n ih =>
    unfold dcountFrom
    dsimp only
    split
    · have hsucc : (dcount + 1).toNat = dcount.toNat + 1 := by
        rw [UInt64.toNat_add, UInt64.toNat_one]
        omega
      have hle := ih (ci + 1) (dcount + 1) (by omega)
      omega
    · exact ih (ci + 1) dcount (by omega)

theorem dcountFrom_eq_zero {n : Nat} {ci : UInt64} (hci : ci.toNat + n ≤ 64) :
    dcountFrom p current n ci 0 = 0 ↔
      ∀ i : UInt64, ci.toNat ≤ i.toNat → i.toNat < ci.toNat + n →
        (dispatchable (p.state i) && i != current) = false := by
  induction n generalizing ci with
  | zero =>
    constructor
    · intro _ i hlo hhi
      omega
    · exact fun _ => rfl
  | succ n ih =>
    have hsucc : (ci + 1).toNat = ci.toNat + 1 := by
      rw [UInt64.toNat_add, UInt64.toNat_one]
      omega
    unfold dcountFrom
    dsimp only
    by_cases hhit : (dispatchable (p.state ci) && ci != current) = true
    · rw [if_pos hhit]
      constructor
      · intro hzero
        have hone : (0 + 1 : UInt64).toNat = 1 := rfl
        have hle : (0 + 1 : UInt64).toNat ≤ (dcountFrom p current n (ci + 1) (0 + 1)).toNat :=
          le_dcountFrom n (ci + 1) (0 + 1) (by omega)
        rw [hzero] at hle
        exact absurd hle (by decide)
      · intro hnone
        have hself := hnone ci (Nat.le_refl _) (by omega)
        rw [hhit] at hself
        exact absurd hself (by decide)
    · rw [if_neg hhit, ih (by omega)]
      constructor
      · intro hrest i hlo hhi
        by_cases hi : i = ci
        · rw [hi]
          exact Bool.eq_false_iff.mpr hhit
        · have hne : i.toNat ≠ ci.toNat := fun heq => hi (UInt64.toNat_inj.mp heq)
          exact hrest i (by omega) (by omega)
      · intro hall i hlo hhi
        exact hall i (by omega) (by omega)

end Count

/-! ### The scan -/

section Scan

variable {p : Procs} {current last : UInt64}

theorem toNat_next (i : UInt64) :
    ((last + i) % maxProcs).toNat = (last.toNat + i.toNat) % 64 := by
  rw [UInt64.toNat_mod, UInt64.toNat_add, show maxProcs.toNat = 64 from rfl]
  omega

theorem scanFrom_some {n : Nat} {i next : UInt64} (h : scanFrom p current last n i = some next) :
    next < maxProcs ∧ next ≠ current ∧ dispatchable (p.state next) = true := by
  induction n generalizing i with
  | zero => exact absurd h (by simp [scanFrom])
  | succ n ih =>
    unfold scanFrom at h
    dsimp only at h
    split at h
    · next hhit =>
      obtain rfl := Option.some.inj h
      rw [Bool.and_eq_true, bne_iff_ne] at hhit
      refine ⟨?_, hhit.2, hhit.1⟩
      rw [toNat_lt_maxProcs, UInt64.toNat_mod, show maxProcs.toNat = 64 from rfl]
      exact Nat.mod_lt _ (by decide)
    · exact ih h

theorem scanFrom_none {n : Nat} {i : UInt64} (hi : i.toNat + n ≤ 64) :
    scanFrom p current last n i = none ↔
      ∀ j : UInt64, i.toNat ≤ j.toNat → j.toNat < i.toNat + n →
        (dispatchable (p.state ((last + j) % maxProcs)) && (last + j) % maxProcs != current) =
          false := by
  induction n generalizing i with
  | zero =>
    constructor
    · intro _ j hlo hhi
      omega
    · exact fun _ => rfl
  | succ n ih =>
    have hsucc : (i + 1).toNat = i.toNat + 1 := by
      rw [UInt64.toNat_add, UInt64.toNat_one]
      omega
    unfold scanFrom
    dsimp only
    by_cases hhit : (dispatchable (p.state ((last + i) % maxProcs)) &&
        (last + i) % maxProcs != current) = true
    · rw [if_pos hhit]
      constructor
      · exact fun h => absurd h (by simp)
      · intro hnone
        have hself := hnone i (Nat.le_refl _) (by omega)
        rw [hhit] at hself
        exact absurd hself (by decide)
    · rw [if_neg hhit, ih (by omega)]
      constructor
      · intro hrest j hlo hhi
        by_cases hj : j = i
        · rw [hj]
          exact Bool.eq_false_iff.mpr hhit
        · have hne : j.toNat ≠ i.toNat := fun heq => hj (UInt64.toNat_inj.mp heq)
          exact hrest j (by omega) (by omega)
      · intro hall j hlo hhi
        exact hall j (by omega) (by omega)

/-- **What the scan misses**: it fails exactly when every candidate is the slot it starts after. -/
theorem scanFrom_eq_none (hlast : last < maxProcs) :
    scanFrom p p.currentPid last 63 1 = none ↔ ∀ i, Candidate p i → i = last := by
  have hlast' := toNat_lt_maxProcs.mp hlast
  rw [scanFrom_none (by decide)]
  constructor
  · intro hnone k ⟨hk, hne, hdisp⟩
    by_contra hkl
    -- the step at which the scan looks at slot `k`
    have hk' := toNat_lt_maxProcs.mp hk
    have hkl' : k.toNat ≠ last.toNat := fun heq => hkl (UInt64.toNat_inj.mp heq)
    have hj : (UInt64.ofNat ((k.toNat + 64 - last.toNat) % 64)).toNat =
        (k.toNat + 64 - last.toNat) % 64 := by
      rw [UInt64.toNat_ofNat']
      omega
    have hone : (1 : UInt64).toNat = 1 := rfl
    have hstep := hnone (UInt64.ofNat ((k.toNat + 64 - last.toNat) % 64)) (by omega) (by omega)
    have hslot : (last + UInt64.ofNat ((k.toNat + 64 - last.toNat) % 64)) % maxProcs = k := by
      rw [← UInt64.toNat_inj, toNat_next, hj]
      omega
    rw [hslot, hdisp, Bool.true_and, bne_eq_false_iff_eq] at hstep
    exact hne hstep
  · intro hall j hlo hhi
    have hone : (1 : UInt64).toNat = 1 := rfl
    rw [Bool.eq_false_iff]
    intro hhit
    rw [Bool.and_eq_true, bne_iff_ne] at hhit
    have hnext := @toNat_next last j
    have heq := hall _ ⟨toNat_lt_maxProcs.mpr (by omega), hhit.2, hhit.1⟩
    rw [heq] at hnext
    omega

end Scan

/-! ### The choice -/

/-- `schedule_next` switches to another process if there is one to dispatch, and otherwise leaves the
process table alone. -/
def FindsWork (s : SchedGlobals) (pulseEmpty : Bool) : Prop :=
  let r := scheduleNext s pulseEmpty
  ((∃ i, Candidate s.procs i) →
    ∃ n, r.1 = some (s.procs.currentPid, n) ∧ Candidate r.2.procs n) ∧
  ((¬ ∃ i, Candidate s.procs i) → r.1 = none ∧ r.2.procs = s.procs)

/-- The only process to dispatch is in the slot `LAST_DISPATCHED`, and task 0 does not preempt. -/
def OnlyLast (s : SchedGlobals) (pulseEmpty : Bool) : Prop :=
  Candidate s.procs s.lastDispatched ∧ (∀ i, Candidate s.procs i → i = s.lastDispatched) ∧
    preemptsToTask0 (coolDown s) pulseEmpty = false

theorem procs_coolDown (s : SchedGlobals) : (coolDown s).procs = s.procs := by
  unfold coolDown
  split
  · rfl
  · rfl

theorem lastDispatched_coolDown (s : SchedGlobals) :
    (coolDown s).lastDispatched = s.lastDispatched := by
  unfold coolDown
  split
  · rfl
  · rfl

theorem dcount_eq_zero (p : Procs) :
    dcountFrom p p.currentPid 64 0 0 = 0 ↔ ¬ ∃ i, Candidate p i := by
  have hzero : (0 : UInt64).toNat = 0 := rfl
  rw [dcountFrom_eq_zero (by decide)]
  constructor
  · rintro hnone ⟨i, hi, hne, hdisp⟩
    have hi' := toNat_lt_maxProcs.mp hi
    have hmiss := hnone i (by omega) (by omega)
    rw [hdisp, Bool.true_and, bne_eq_false_iff_eq] at hmiss
    exact hne hmiss
  · intro hnone i _ hhi
    rw [Bool.eq_false_iff]
    intro hhit
    rw [Bool.and_eq_true, bne_iff_ne] at hhit
    exact hnone ⟨i, toNat_lt_maxProcs.mpr (by omega), hhit.2, hhit.1⟩

theorem candidate_of_preempts {s : SchedGlobals} {pulseEmpty : Bool}
    (h : preemptsToTask0 s pulseEmpty = true) : Candidate s.procs 0 := by
  unfold preemptsToTask0 at h
  dsimp only at h
  simp only [Bool.and_eq_true, bne_iff_ne] at h
  exact ⟨by decide, h.2.1.symm, h.2.2⟩

theorem scheduleNext_spec (s : SchedGlobals) (pulseEmpty : Bool) :
    (scheduleNext s pulseEmpty).2.procs = s.procs ∧
      ∀ current next, (scheduleNext s pulseEmpty).1 = some (current, next) →
        current = s.procs.currentPid ∧ Candidate s.procs next := by
  unfold scheduleNext
  dsimp only
  split
  · exact ⟨rfl, fun _ _ h => absurd h (by simp)⟩
  · split
    · next hpre =>
      refine ⟨procs_coolDown s, fun current next h => ?_⟩
      obtain ⟨rfl, rfl⟩ := Prod.mk.inj (Option.some.inj h)
      exact ⟨rfl, procs_coolDown s ▸ candidate_of_preempts hpre⟩
    · cases hfound : scanFrom (coolDown s).procs s.procs.currentPid (coolDown s).lastDispatched 63 1 with
      | none => exact ⟨procs_coolDown s, fun _ _ h => absurd h (by simp)⟩
      | some found =>
        refine ⟨procs_coolDown s, fun current next h => ?_⟩
        obtain ⟨rfl, rfl⟩ := Prod.mk.inj (Option.some.inj h)
        rw [procs_coolDown] at hfound
        exact ⟨rfl, scanFrom_some hfound⟩

/-- **`schedule_next` finds work** exactly when the slot it last dispatched is not the only one. -/
theorem findsWork_iff (s : SchedGlobals) (hlast : s.lastDispatched < maxProcs) (pulseEmpty : Bool) :
    FindsWork s pulseEmpty ↔ ¬ OnlyLast s pulseEmpty := by
  unfold FindsWork scheduleNext
  dsimp only
  by_cases hnone : ∃ i, Candidate s.procs i
  · have hcount : ¬ (dcountFrom s.procs s.procs.currentPid 64 0 0 == 0) = true := by
      rw [beq_iff_eq, dcount_eq_zero]
      exact fun h => h hnone
    rw [if_neg hcount]
    by_cases hpre : preemptsToTask0 (coolDown s) pulseEmpty = true
    · rw [if_pos hpre]
      have hzero := candidate_of_preempts hpre
      constructor
      · rintro - ⟨-, -, hnot⟩
        rw [hpre] at hnot
        exact absurd hnot (by decide)
      · intro _
        exact ⟨fun _ => ⟨0, rfl, hzero⟩, fun h => absurd hnone h⟩
    · rw [if_neg hpre]
      have hscan := scanFrom_eq_none (p := s.procs) hlast
      rw [procs_coolDown, lastDispatched_coolDown]
      cases hfound : scanFrom s.procs s.procs.currentPid s.lastDispatched 63 1 with
      | none =>
        have hall := hscan.mp hfound
        constructor
        · rintro ⟨hwork, -⟩ -
          obtain ⟨n, hcall, -⟩ := hwork hnone
          exact absurd hcall (by simp)
        · intro hnot
          obtain ⟨i, hi⟩ := hnone
          exact absurd ⟨hall i hi ▸ hi, hall, Bool.eq_false_iff.mpr hpre⟩ hnot
      | some next =>
        have hcand : Candidate s.procs next := scanFrom_some hfound
        constructor
        · rintro - ⟨-, hall, -⟩
          rw [hscan.mpr hall] at hfound
          exact absurd hfound (by simp)
        · intro _
          exact ⟨fun _ => ⟨next, rfl, hcand⟩, fun h => absurd hnone h⟩
  · have hcount : (dcountFrom s.procs s.procs.currentPid 64 0 0 == 0) = true := by
      rw [beq_iff_eq, dcount_eq_zero]
      exact hnone
    rw [if_pos hcount]
    constructor
    · rintro - ⟨hcand, -⟩
      exact hnone ⟨_, hcand⟩
    · intro _
      exact ⟨fun h => absurd h hnone, fun _ => ⟨rfl, rfl⟩⟩

/-- Task 0 runs, the process in one slot is ready, and there are no others. -/
def oneReady (slot last : UInt64) : SchedGlobals where
  procs := { Procs.zero with
    table := fun i =>
      if i == 0 then { Pcb.zero with state := procRunning }
      else if i == slot then { Pcb.zero with state := procReady }
      else Pcb.zero }
  lastDispatched := last
  task0Cooldown := 0

theorem findsWork_oneReady : FindsWork (oneReady 5 0) true :=
  (findsWork_iff (oneReady 5 0) (by decide) true).mpr fun h => h.1.2.1 rfl

/-- Task 0 preempted the process in slot 5, which now stays ready. -/
theorem not_findsWork_oneReady :
    ¬ ∀ (s : SchedGlobals), s.lastDispatched < maxProcs → s.procs.currentPid < maxProcs →
      ∀ pulseEmpty, FindsWork s pulseEmpty := by
  intro hall
  have hwork := (hall (oneReady 5 5) (by decide) (by decide) true).1
  have hready : Candidate (oneReady 5 5).procs 5 := ⟨by decide, by decide, by decide⟩
  obtain ⟨n, hcall, -⟩ := hwork ⟨5, hready⟩
  have hnone : (scheduleNext (oneReady 5 5) true).1 = none := by decide +kernel
  rw [hnone] at hcall
  exact absurd hcall (by simp)

end Keuos.Process
