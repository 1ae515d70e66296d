import Keuos.Ebr.Defs
import Mathlib.Tactic.Common

/-!
# The grace period of `ebr_reclaim`

A core that enters a critical section records the global epoch `e`, and while it stays inside the
epoch cannot advance: `ebr_advance_epoch` finds a snapshot that is not below the current epoch
(`ebrAdvanceEpoch_eq_self`).  A pointer retired meanwhile is therefore recorded with epoch `e`,
and the safe epoch of every `ebr_reclaim` is at most `e` (`safeEpoch_le`), so the sweep keeps it.

A list may run on into the region of the next cpu: entries are written as whole pairs at even
offsets (`entry_setEntry`), so no store ever joins the epoch of one retirement with the pointer of
another.  What the argument needs is that no list runs on behind the last region (`InList`), where
a retirement is stored over the counts and lets a list be read further than it was written, and
that the pointer is not already waiting in a retire list, since the older entry may be freed
(`pushed_early_of_double_retire`).
-/

namespace Keuos.Ebr

/-! ### The two scans over the cores -/

/-- The scan of `ebr_reclaim` only lowers its accumulator, to at most the snapshot of every
active core it passes. -/
theorem foldl_safe_le (s : State) : ∀ (l : List Cpu) (acc : UInt64),
    l.foldl (fun safe i =>
      if s.coreInEpoch i == 1 then
        if s.coreEpoch i < safe then s.coreEpoch i else safe
      else safe) acc ≤ acc ∧
    ∀ c ∈ l, s.coreInEpoch c = 1 →
      l.foldl (fun safe i =>
        if s.coreInEpoch i == 1 then
          if s.coreEpoch i < safe then s.coreEpoch i else safe
        else safe) acc ≤ s.coreEpoch c := by
  intro l
  induction l with
  | nil =>
    intro acc
    simp
  | cons i l ih =>
    intro acc
    rw [List.foldl_cons]
    set acc' := if s.coreInEpoch i == 1 then
        if s.coreEpoch i < acc then s.coreEpoch i else acc
      else acc with hacc'
    obtain ⟨h1, h2⟩ := ih acc'
    have hle : acc' ≤ acc := by grind
    refine ⟨UInt64.le_trans h1 hle, ?_⟩
    intro c hc hin
    rcases List.mem_cons.mp hc with rfl | hc
    · have : acc' ≤ s.coreEpoch c := by grind
      exact UInt64.le_trans h1 this
    · exact h2 c hc hin

theorem safeEpoch_le (s : State) (c : Cpu) (hin : s.coreInEpoch c = 1) :
    safeEpoch s ≤ s.coreEpoch c :=
  (foldl_safe_le s (List.finRange 16) s.globalEpoch).2 c (List.mem_finRange c) hin

theorem foldl_advance_false (s : State) (cur : UInt64) : ∀ l : List Cpu,
    l.foldl (fun safe i =>
      if s.coreInEpoch i == 1 then
        if s.coreEpoch i < cur then safe else false
      else safe) false = false := by
  intro l
  induction l with
  | nil => rfl
  | cons i l ih =>
    rw [List.foldl_cons]
    simpa using ih

/-- An active core whose snapshot is not below the current epoch stops the advance. -/
theorem foldl_advance_blocked (s : State) (cur : UInt64) (c : Cpu) (hin : s.coreInEpoch c = 1)
    (hep : ¬ s.coreEpoch c < cur) : ∀ (l : List Cpu) (safe : Bool), c ∈ l →
    l.foldl (fun safe i =>
      if s.coreInEpoch i == 1 then
        if s.coreEpoch i < cur then safe else false
      else safe) safe = false := by
  intro l
  induction l with
  | nil =>
    intro safe hc
    simp at hc
  | cons i l ih =>
    intro safe hc
    rw [List.foldl_cons]
    rcases List.mem_cons.mp hc with rfl | hc
    · -- behind the core the answer stays false
      simp only [hin, hep, beq_self_eq_true, ↓reduceIte]
      exact foldl_advance_false s cur l
    · exact ih _ hc

/-- The epoch does not advance while a core is inside a critical section that it entered in the
current epoch. -/
theorem ebrAdvanceEpoch_eq_self (s : State) (c : Cpu) (hin : s.coreInEpoch c = 1)
    (hep : s.coreEpoch c = s.globalEpoch) : ebrAdvanceEpoch s = s := by
  unfold ebrAdvanceEpoch
  have h := foldl_advance_blocked s s.globalEpoch c hin (by rw [hep]; exact UInt64.lt_irrefl _)
    (List.finRange 16) true (List.mem_finRange c)
  simp only [h, Bool.false_eq_true, ↓reduceIte]

/-! ### Entries are written as pairs -/

theorem base_add_eq (cpu : Cpu) (idx : UInt64) :
    base cpu + idx * 2 = (Cpu.toUInt64 cpu * maxRetirePerCore + idx) * 2 := by
  unfold base
  grind

theorem offset_ne_succ (cpu k : Cpu) (idx j : UInt64) :
    base cpu + idx * 2 ≠ base k + j * 2 + 1 := by
  rw [base_add_eq, base_add_eq]
  grind

/-- Position `idx` of a cpu's list lies in `RETIRE_LIST`. -/
def InArray (cpu : Cpu) (idx : UInt64) : Prop := 512 * cpu.val + idx.toNat < 8192

instance (cpu : Cpu) (idx : UInt64) : Decidable (InArray cpu idx) :=
  inferInstanceAs (Decidable (_ < _))

theorem toNat_base_add {cpu : Cpu} {idx : UInt64} (h : InArray cpu idx) :
    (base cpu + idx * 2).toNat = 1024 * cpu.val + 2 * idx.toNat := by
  unfold InArray at h
  have hcpu : (UInt64.ofNat cpu.val).toNat = cpu.val := by
    rw [UInt64.toNat_ofNat', Nat.mod_eq_of_lt (by omega)]
  unfold base Cpu.toUInt64 maxRetirePerCore
  simp only [UInt64.toNat_add, UInt64.toNat_mul, hcpu, UInt64.reduceToNat]
  omega

theorem countWord_entry {cpu : Cpu} {idx : UInt64} (h : InArray cpu idx) :
    countWord (base cpu + idx * 2) = none ∧ countWord (base cpu + idx * 2 + 1) = none := by
  have hoff := toNat_base_add h
  unfold InArray at h
  have hsucc : (base cpu + idx * 2 + 1).toNat = 1024 * cpu.val + 2 * idx.toNat + 1 := by
    rw [UInt64.toNat_add, hoff, UInt64.toNat_one, Nat.mod_eq_of_lt (by omega)]
  unfold countWord
  constructor
  · rw [dif_neg (by omega)]
  · rw [dif_neg (by omega)]

theorem retireCount_setEntry (s : State) {cpu : Cpu} {idx : UInt64} (h : InArray cpu idx)
    (epoch ptr : UInt64) : (s.setEntry cpu idx epoch ptr).retireCount = s.retireCount := by
  obtain ⟨h1, h2⟩ := countWord_entry h
  simp only [State.setEntry, State.setWord, h1, h2]

theorem entry_setEntry (s : State) {cpu k : Cpu} {idx j : UInt64} (hidx : InArray cpu idx)
    (hj : InArray k j) (epoch ptr : UInt64) :
    (s.setEntry cpu idx epoch ptr).entry k j =
      if base k + j * 2 = base cpu + idx * 2 then (epoch, ptr) else s.entry k j := by
  have h1 := offset_ne_succ k cpu j idx
  have h2 := offset_ne_succ cpu k idx j
  obtain ⟨hc1, hc2⟩ := countWord_entry hidx
  obtain ⟨hk1, hk2⟩ := countWord_entry hj
  simp only [State.entry, State.setEntry, State.setWord, State.word, hc1, hc2, hk1, hk2]
  by_cases h : base k + j * 2 = base cpu + idx * 2
  · simp [h]
  · have h3 : base k + j * 2 + 1 ≠ base cpu + idx * 2 + 1 := by grind
    simp [h, h1, h2.symm, h3]

/-- Every list ends inside `RETIRE_LIST`. -/
def ListsInside (s : State) : Prop := ∀ k, 512 * k.val + (s.retireCount k).toNat ≤ 8192

theorem ListsInside.inArray {s : State} (h : ListsInside s) {k : Cpu} {j : UInt64}
    (hj : j < s.retireCount k) : InArray k j := by
  have hk := h k
  rw [UInt64.lt_iff_toNat_lt] at hj
  unfold InArray
  omega

theorem entry_setCount (s : State) (cpu : Cpu) (n : UInt64) {k : Cpu} {j : UInt64}
    (hj : InArray k j) : (s.setCount cpu n).entry k j = s.entry k j := by
  obtain ⟨h1, h2⟩ := countWord_entry hj
  simp only [State.entry, State.setCount, State.word, h1, h2]

/-! ### What a sweep may free -/

/-- An entry that may not be freed while the safe epoch is at most `e`: if its pointer is one of
`P`, it was retired in epoch `e` or later. -/
def Guarded (P : UInt64 → Prop) (e : UInt64) (x : UInt64 × UInt64) : Prop :=
  P x.2 → e ≤ x.1

/-- Every entry of every list, as far as the counts reach, is guarded. -/
def AllGuarded (P : UInt64 → Prop) (e : UInt64) (s : State) : Prop :=
  ∀ k j, j < s.retireCount k → Guarded P e (s.entry k j)

theorem AllGuarded.setEntry {P : UInt64 → Prop} {e : UInt64} {s : State} (h : AllGuarded P e s)
    (hs : ListsInside s) {cpu : Cpu} {idx : UInt64} (hidx : InArray cpu idx) {x : UInt64 × UInt64}
    (hx : Guarded P e x) : AllGuarded P e (s.setEntry cpu idx x.1 x.2) := by
  intro k j hj
  rw [retireCount_setEntry s hidx] at hj
  rw [entry_setEntry s hidx (hs.inArray hj)]
  split
  · exact hx
  · exact h k j hj

theorem sweep_frame (cpu : Cpu) (safe : UInt64) : ∀ (n : Nat) (r w : UInt64) (s : State),
    (sweep cpu safe n r w s).1.globalEpoch = s.globalEpoch ∧
    (sweep cpu safe n r w s).1.coreEpoch = s.coreEpoch ∧
    (sweep cpu safe n r w s).1.coreInEpoch = s.coreInEpoch ∧
    (sweep cpu safe n r w s).1.retired = s.retired := by
  intro n
  induction n with
  | zero =>
    intro r w s
    exact ⟨rfl, rfl, rfl, rfl⟩
  | succ n ih =>
    intro r w s
    rw [sweep]
    simp only
    split
    · exact ih _ _ _
    · obtain ⟨h1, h2, h3, h4⟩ := ih (r + 1) (w + 1)
        (if w != r then s.setEntry cpu w (s.entry cpu r).1 (s.entry cpu r).2 else s)
      rw [h1, h2, h3, h4]
      split <;> exact ⟨rfl, rfl, rfl, rfl⟩

theorem toNat_succ {r : UInt64} {b : Nat} (h : r.toNat < b) (hb : b ≤ 8192) :
    (r + 1).toNat = r.toNat + 1 := by
  rw [UInt64.toNat_add, UInt64.toNat_one, Nat.mod_eq_of_lt (by omega)]

theorem sweep_retireCount (cpu : Cpu) (safe : UInt64) : ∀ (n : Nat) (r w : UInt64) (s : State),
    w ≤ r → 512 * cpu.val + (r.toNat + n) ≤ 8192 →
    (sweep cpu safe n r w s).1.retireCount = s.retireCount ∧
    (sweep cpu safe n r w s).2.toNat ≤ r.toNat + n := by
  intro n
  induction n with
  | zero =>
    intro r w s hw _
    exact ⟨rfl, UInt64.le_iff_toNat_le.mp hw⟩
  | succ n ih =>
    intro r w s hw hr
    rw [UInt64.le_iff_toNat_le] at hw
    have hrs := toNat_succ (r := r) (b := r.toNat + (n + 1)) (by omega) (by omega)
    have hws := toNat_succ (r := w) (b := r.toNat + (n + 1)) (by omega) (by omega)
    rw [sweep]
    simp only
    split
    · obtain ⟨h1, h2⟩ := ih (r + 1) w (s.pushStack (s.entry cpu r).2)
        (by rw [UInt64.le_iff_toNat_le]; omega) (by omega)
      exact ⟨h1, by omega⟩
    · -- an entry is moved to a position inside the array, where there is no count
      obtain ⟨h1, h2⟩ := ih (r + 1) (w + 1)
        (if w != r then s.setEntry cpu w (s.entry cpu r).1 (s.entry cpu r).2 else s)
        (by rw [UInt64.le_iff_toNat_le]; omega) (by omega)
      refine ⟨?_, by omega⟩
      rw [h1]
      split
      · exact retireCount_setEntry s (by unfold InArray; omega) _ _
      · rfl

/-- **The sweep keeps what is guarded.** With the safe epoch at most `e` and every counted entry
guarded, sweeping the rest of a list frees no pointer of `P` and leaves every entry guarded. -/
theorem sweep_allGuarded (cpu : Cpu) (P : UInt64 → Prop) (safe e : UInt64) (hsafe : safe ≤ e) :
    ∀ (n : Nat) (r w : UInt64) (s : State), AllGuarded P e s → ListsInside s →
      r.toNat + n = (s.retireCount cpu).toNat → w ≤ r →
      AllGuarded P e (sweep cpu safe n r w s).1 ∧
      ∃ freed, (sweep cpu safe n r w s).1.pushed = s.pushed ++ freed ∧ ∀ q ∈ freed, ¬ P q := by
  intro n
  induction n with
  | zero =>
    intro r w s hs _ _ _
    exact ⟨hs, [], by simp [sweep], by simp⟩
  | succ n ih =>
    intro r w s hs hin hr hw
    have hcpu := hin cpu
    have hlt : r < s.retireCount cpu := by
      rw [UInt64.lt_iff_toNat_lt]
      omega
    have hsucc := toNat_succ (r := r) (b := (s.retireCount cpu).toNat) (by omega) (by omega)
    rw [UInt64.le_iff_toNat_le] at hw
    have hentry := hs cpu r hlt
    rw [sweep]
    simp only
    split
    · -- A freed entry is older than `safe`, so its pointer is not one of `P`.
      rename_i hold
      have hne : ¬ P (s.entry cpu r).2 := by
        intro hP
        have hle := UInt64.le_trans hsafe (hentry hP)
        exact UInt64.lt_irrefl _ (UInt64.lt_of_lt_of_le hold hle)
      have hs' : AllGuarded P e (s.pushStack (s.entry cpu r).2) := hs
      obtain ⟨h1, freed, h3, h4⟩ := ih (r + 1) w (s.pushStack (s.entry cpu r).2) hs' hin
        (by rw [hsucc]; show r.toNat + 1 + n = (s.retireCount cpu).toNat; omega)
        (by rw [UInt64.le_iff_toNat_le]; omega)
      refine ⟨h1, (s.entry cpu r).2 :: freed, ?_, ?_⟩
      · rw [h3]
        simp [State.pushStack]
      · intro q hq
        rcases List.mem_cons.mp hq with rfl | hq
        · exact hne
        · exact h4 q hq
    · set s' := if w != r then s.setEntry cpu w (s.entry cpu r).1 (s.entry cpu r).2 else s
        with hsdef
      -- The compaction position is not ahead of the entry read.
      have hwin : InArray cpu w := by
        unfold InArray
        omega
      have hcount : s'.retireCount = s.retireCount := by
        rw [hsdef]
        split
        · exact retireCount_setEntry s hwin _ _
        · rfl
      have hpushed : s'.pushed = s.pushed := by
        rw [hsdef]
        split <;> rfl
      have hs' : AllGuarded P e s' := by
        rw [hsdef]
        split
        · exact hs.setEntry hin hwin hentry
        · exact hs
      have hin' : ListsInside s' := by
        intro k
        rw [hcount]
        exact hin k
      have hw' : w + 1 ≤ r + 1 := by
        have hws := toNat_succ (r := w) (b := (s.retireCount cpu).toNat) (by omega) (by omega)
        rw [UInt64.le_iff_toNat_le]
        omega
      obtain ⟨h1, freed, h3, h4⟩ := ih (r + 1) (w + 1) s' hs' hin'
        (by rw [hcount, hsucc]; omega) hw'
      rw [hpushed] at h3
      exact ⟨h1, freed, h3, h4⟩

/-! ### Where a retirement is stored -/

/-- The position at which `ebr_retire` stores its entry. -/
def retireIdx (s : State) (cpu : Cpu) : UInt64 :=
  (if s.retireCount cpu ≥ maxRetirePerCore then ebrReclaim s cpu else s).retireCount cpu

/-- The condition on a step: a retirement is stored inside `RETIRE_LIST`. -/
def InList (s : State) : Op → Prop
  | .retire cpu _ => InArray cpu (retireIdx s cpu)
  | _ => True

instance (s : State) : ∀ o, Decidable (InList s o)
  | .retire cpu _ => inferInstanceAs (Decidable (InArray cpu (retireIdx s cpu)))
  | .enter _ | .exit _ | .advance | .reclaim _ => inferInstanceAs (Decidable True)

/-- A reclaim lengthens no list. -/
theorem ListsInside.retireCount_ebrReclaim {s : State} (h : ListsInside s) (cpu k : Cpu) :
    (ebrReclaim s cpu).retireCount k ≤ s.retireCount k := by
  obtain ⟨h1, h2⟩ := sweep_retireCount cpu (safeEpoch s) (s.retireCount cpu).toNat 0 0 s
    UInt64.le_rfl (by simpa using h cpu)
  show Function.update (sweep cpu (safeEpoch s) (s.retireCount cpu).toNat 0 0 s).1.retireCount cpu
    (sweep cpu (safeEpoch s) (s.retireCount cpu).toNat 0 0 s).2 k ≤ s.retireCount k
  rw [h1]
  by_cases hk : k = cpu
  · subst hk
    rw [Function.update_self, UInt64.le_iff_toNat_le]
    simpa using h2
  · rw [Function.update_of_ne hk]
    exact UInt64.le_rfl

theorem ListsInside.reclaim {s : State} (h : ListsInside s) (cpu : Cpu) :
    ListsInside (ebrReclaim s cpu) := by
  intro k
  have hk := h k
  have hle := UInt64.le_iff_toNat_le.mp (h.retireCount_ebrReclaim cpu k)
  omega

theorem ListsInside.append {s : State} (h : ListsInside s) {cpu : Cpu}
    (hin : InArray cpu (s.retireCount cpu)) (epoch ptr : UInt64) :
    ListsInside ((s.setEntry cpu (s.retireCount cpu) epoch ptr).setCount cpu
      (s.retireCount cpu + 1)) := by
  intro k
  show 512 * k.val + (Function.update
    (s.setEntry cpu (s.retireCount cpu) epoch ptr).retireCount cpu (s.retireCount cpu + 1) k).toNat
    ≤ 8192
  rw [retireCount_setEntry s hin]
  by_cases hk : k = cpu
  · subst hk
    unfold InArray at hin
    rw [Function.update_self, toNat_succ (b := 8192) (by omega) (by omega)]
    omega
  · rw [Function.update_of_ne hk]
    exact h k

/-- **One step** keeps the lists inside the array. -/
theorem ListsInside.exec {s : State} (h : ListsInside s) (o : Op) (ho : InList s o) :
    ListsInside (exec s o) := by
  cases o with
  | enter _ => exact h
  | exit _ => exact h
  | advance =>
    show ListsInside (ebrAdvanceEpoch s)
    unfold ebrAdvanceEpoch
    simp only
    split <;> exact h
  | reclaim cpu => exact h.reclaim cpu
  | retire cpu ptr =>
    have hin : InArray cpu (retireIdx s cpu) := ho
    show ListsInside (ebrRetire s cpu ptr)
    unfold retireIdx at hin
    unfold ebrRetire
    split at hin
    · -- a full list is swept first
      rename_i hfull
      rw [if_pos hfull]
      exact (h.reclaim cpu).append hin _ _
    · rename_i hfull
      rw [if_neg hfull]
      exact h.append hin _ _

/-! ### The invariant of a critical section -/

/-- Core `c` is inside a critical section entered in epoch `e`, which is still the current one,
and every waiting entry of a pointer of `P` was retired in epoch `e` or later. -/
structure Protected (c : Cpu) (P : UInt64 → Prop) (e : UInt64) (s : State) : Prop where
  inEpoch : s.coreInEpoch c = 1
  coreEpoch : s.coreEpoch c = e
  globalEpoch : s.globalEpoch = e
  inside : ListsInside s
  guarded : AllGuarded P e s

theorem Protected.reclaim {c : Cpu} {P : UInt64 → Prop} {e : UInt64} {s : State} (h : Protected c P e s)
    (cpu : Cpu) :
    Protected c P e (ebrReclaim s cpu) ∧
    ∃ freed, (ebrReclaim s cpu).pushed = s.pushed ++ freed ∧ ∀ q ∈ freed, ¬ P q := by
  have hsafe : safeEpoch s ≤ e := by
    rw [← h.coreEpoch]
    exact safeEpoch_le s c h.inEpoch
  obtain ⟨h1, hfreed⟩ := sweep_allGuarded cpu P (safeEpoch s) e hsafe
    (s.retireCount cpu).toNat 0 0 s h.guarded h.inside (by simp) UInt64.le_rfl
  obtain ⟨f1, f2, f3, -⟩ := sweep_frame cpu (safeEpoch s) (s.retireCount cpu).toNat 0 0 s
  obtain ⟨f4, -⟩ := sweep_retireCount cpu (safeEpoch s) (s.retireCount cpu).toNat 0 0 s
    UInt64.le_rfl (by simpa using h.inside cpu)
  refine ⟨⟨?_, ?_, ?_, h.inside.reclaim cpu, ?_⟩, hfreed⟩
  · show (sweep cpu (safeEpoch s) (s.retireCount cpu).toNat 0 0 s).1.coreInEpoch c = 1
    rw [f3, h.inEpoch]
  · show (sweep cpu (safeEpoch s) (s.retireCount cpu).toNat 0 0 s).1.coreEpoch c = e
    rw [f2, h.coreEpoch]
  · show (sweep cpu (safeEpoch s) (s.retireCount cpu).toNat 0 0 s).1.globalEpoch = e
    rw [f1, h.globalEpoch]
  · -- The new count of `cpu` is at most the old one, so no further entry is counted.
    intro k j hj
    have hj' := UInt64.lt_of_lt_of_le hj (h.inside.retireCount_ebrReclaim cpu k)
    show Guarded P e
      (((sweep cpu (safeEpoch s) (s.retireCount cpu).toNat 0 0 s).1.setCount cpu _).entry k j)
    rw [entry_setCount _ cpu _ (h.inside.inArray hj')]
    apply h1 k j
    rw [f4]
    exact hj'

theorem Protected.append {c : Cpu} {P : UInt64 → Prop} {e : UInt64} {s : State} (h : Protected c P e s)
    {cpu : Cpu} (hin : InArray cpu (s.retireCount cpu)) (q : UInt64) :
    Protected c P e ((s.setEntry cpu (s.retireCount cpu) s.globalEpoch q).setCount cpu
      (s.retireCount cpu + 1)) := by
  have hnew : Guarded P e (s.globalEpoch, q) := by
    intro _
    rw [h.globalEpoch]
    exact UInt64.le_rfl
  have hinside := h.inside.append hin s.globalEpoch q
  refine ⟨h.inEpoch, h.coreEpoch, h.globalEpoch, hinside, ?_⟩
  intro k j hj
  have hjin := hinside.inArray hj
  rw [entry_setCount _ cpu _ hjin, entry_setEntry s hin hjin]
  have hj' : j < Function.update s.retireCount cpu (s.retireCount cpu + 1) k := by
    have hset := retireCount_setEntry s hin s.globalEpoch q
    unfold State.setCount at hj
    rwa [hset] at hj
  split
  · exact hnew
  · rename_i hoff
    apply h.guarded
    by_cases hk : k = cpu
    · subst hk
      rw [Function.update_self] at hj'
      have hne : j ≠ s.retireCount k := by
        intro heq
        exact hoff (by rw [heq])
      grind
    · rwa [Function.update_of_ne hk] at hj'

theorem Protected.retire {c : Cpu} {P : UInt64 → Prop} {e : UInt64} {s : State} (h : Protected c P e s)
    {cpu : Cpu} (hin : InArray cpu (retireIdx s cpu)) (q : UInt64) :
    Protected c P e (ebrRetire s cpu q) ∧
    ∃ freed, (ebrRetire s cpu q).pushed = s.pushed ++ freed ∧ ∀ q ∈ freed, ¬ P q := by
  unfold retireIdx at hin
  unfold ebrRetire
  by_cases hfull : s.retireCount cpu ≥ maxRetirePerCore
  · obtain ⟨h1, freed, h2, h3⟩ := h.reclaim cpu
    rw [if_pos hfull] at hin
    obtain ⟨a, b, d, i, f⟩ := h1.append hin q
    simp only [hfull, ↓reduceIte]
    exact ⟨⟨a, b, d, i, f⟩, freed, h2, h3⟩
  · rw [if_neg hfull] at hin
    obtain ⟨a, b, d, i, f⟩ := h.append hin q
    simp only [hfull, ↓reduceIte]
    exact ⟨⟨a, b, d, i, f⟩, [], by simp [State.setCount, State.setEntry, State.setWord], by simp⟩

/-- **One step inside the critical section**: as long as core `c` neither exits nor enters
again, the invariant survives and no pointer of `P` is freed. -/
theorem Protected.exec {c : Cpu} {P : UInt64 → Prop} {e : UInt64} {s : State} (h : Protected c P e s) (o : Op)
    (ho : o ≠ .enter c ∧ o ≠ .exit c) (hin : InList s o) :
    Protected c P e (exec s o) ∧
    ∃ freed, (Ebr.exec s o).pushed = s.pushed ++ freed ∧ ∀ q ∈ freed, ¬ P q := by
  cases o with
  | enter k =>
    have hk : c ≠ k := by
      rintro rfl
      exact ho.1 rfl
    refine ⟨⟨?_, ?_, h.globalEpoch, h.inside, h.guarded⟩, [], by simp [Ebr.exec, ebrEnterEpoch],
      by simp⟩
    · show Function.update s.coreInEpoch k 1 c = 1
      rw [Function.update_of_ne hk, h.inEpoch]
    · show Function.update s.coreEpoch k s.globalEpoch c = e
      rw [Function.update_of_ne hk, h.coreEpoch]
  | exit k =>
    have hk : c ≠ k := by
      rintro rfl
      exact ho.2 rfl
    refine ⟨⟨?_, h.coreEpoch, h.globalEpoch, h.inside, h.guarded⟩, [],
      by simp [Ebr.exec, ebrExitEpoch], by simp⟩
    show Function.update s.coreInEpoch k 0 c = 1
    rw [Function.update_of_ne hk, h.inEpoch]
  | advance =>
    have heq : Ebr.exec s .advance = s :=
      ebrAdvanceEpoch_eq_self s c h.inEpoch (by rw [h.coreEpoch, h.globalEpoch])
    rw [heq]
    exact ⟨h, [], by simp, by simp⟩
  | retire k q => exact h.retire hin q
  | reclaim k => exact h.reclaim k

theorem Protected.runOps {c : Cpu} {P : UInt64 → Prop} {e : UInt64} : ∀ (ops : List Op) {s : State},
    Protected c P e s → (∀ o ∈ ops, o ≠ .enter c ∧ o ≠ .exit c) →
    Admissible Ebr.exec InList s ops →
    Protected c P e (runOps Ebr.exec s ops) ∧
    ∃ freed, (Keuos.runOps Ebr.exec s ops).pushed = s.pushed ++ freed ∧ ∀ q ∈ freed, ¬ P q := by
  intro ops
  induction ops with
  | nil =>
    intro s h _ _
    exact ⟨h, [], by simp, by simp⟩
  | cons o ops ih =>
    intro s h hops hin
    obtain ⟨h1, f1, e1, n1⟩ := h.exec o (hops o (List.mem_cons_self ..)) hin.1
    obtain ⟨h2, f2, e2, n2⟩ := ih h1 (fun x hx => hops x (List.mem_cons_of_mem _ hx)) hin.2
    refine ⟨h2, f1 ++ f2, ?_, ?_⟩
    · rw [runOps_cons, e2, e1, List.append_assoc]
    · intro q hq
      rcases List.mem_append.mp hq with hq | hq
      · exact n1 q hq
      · exact n2 q hq

/-! ### The grace period -/

/-- `ptr` waits in the retire list of some cpu. -/
def Waiting (s : State) (ptr : UInt64) : Prop :=
  ∃ k j, j < s.retireCount k ∧ (s.entry k j).2 = ptr

/-- The pointers handed to `push_stack` between two states of a run. -/
def freedSince (s s' : State) : List UInt64 :=
  s'.pushed.drop s.pushed.length

/-- **The grace period.** Core `c` enters a critical section, runs on (`mid`) without leaving it,
and then `ptr`, which no retire list holds yet, is retired by any cpu.  Whatever happens next
(`post`), as long as `c` has not left its section `ptr` is not handed to `push_stack`, neither by
the retirement's own reclaim nor by any later one, in every run that stores its retirements
inside `RETIRE_LIST`. -/
theorem not_pushed_before_exit (pre mid post : List Op) (c k : Cpu) (ptr : UInt64)
    (hmid : ∀ o ∈ mid, o ≠ .enter c ∧ o ≠ .exit c)
    (hpost : ∀ o ∈ post, o ≠ .enter c ∧ o ≠ .exit c)
    (hfresh : ¬ Waiting (run (pre ++ .enter c :: mid)) ptr)
    (hin : Admissible exec InList init (pre ++ .enter c :: mid ++ .retire k ptr :: post)) :
    ptr ∉ freedSince (run (pre ++ .enter c :: mid))
      (run (pre ++ .enter c :: mid ++ .retire k ptr :: post)) := by
  have hbefore : Admissible exec InList init (pre ++ .enter c :: mid) := hin.left
  obtain ⟨-, hmidin⟩ := hbefore.right
  have hlists : ListsInside (run pre) :=
    runOps_induction (I := ListsInside) (fun s o hs ho => hs.exec o ho)
      (fun k => by simp only [init, UInt64.toNat_zero]; omega) hbefore.left
  -- Until the retirement nothing is asked of any pointer, so entering establishes the invariant.
  have henter : Protected c (fun _ => False) (run pre).globalEpoch (exec (run pre) (.enter c)) :=
    ⟨Function.update_self .., Function.update_self .., rfl, hlists, fun _ _ _ hF => hF.elim⟩
  have hsplit : run (pre ++ .enter c :: mid) = runOps exec (exec (run pre) (.enter c)) mid := by
    unfold run
    rw [runOps_append, runOps_cons]
  obtain ⟨⟨h1, h2, h3, h4, -⟩, -⟩ := henter.runOps mid hmid hmidin
  rw [← hsplit] at h1 h2 h3 h4
  -- Just before the retirement no waiting entry is one of `ptr`.
  have hstart : Protected c (· = ptr) (run pre).globalEpoch (run (pre ++ .enter c :: mid)) :=
    ⟨h1, h2, h3, h4, fun k j hj hptr => absurd ⟨k, j, hj, hptr⟩ hfresh⟩
  have hops : ∀ o ∈ .retire k ptr :: post, o ≠ .enter c ∧ o ≠ .exit c := by
    intro o ho
    rcases List.mem_cons.mp ho with rfl | ho
    · exact ⟨by simp, by simp⟩
    · exact hpost o ho
  obtain ⟨-, freed, hfreed, hnot⟩ := hstart.runOps (.retire k ptr :: post) hops hin.right
  have hrun : run (pre ++ .enter c :: mid ++ .retire k ptr :: post)
      = runOps exec (run (pre ++ .enter c :: mid)) (.retire k ptr :: post) := by
    unfold run
    rw [runOps_append]
  intro hmem
  unfold freedSince at hmem
  rw [hrun, hfreed, List.drop_left] at hmem
  exact hnot ptr hmem rfl

/-- Core 1 is inside its section when core 0 retires pointer 7 for the first time. -/
theorem not_pushed_before_exit_one :
    (7 : UInt64) ∉ freedSince (run [.advance, .enter 1])
      (run [.advance, .enter 1, .retire 0 7, .advance, .reclaim 0]) :=
  not_pushed_before_exit [.advance] [] [.advance, .reclaim 0] 1 0 7 (by simp) (by simp) (by
    rintro ⟨k, j, hj, -⟩
    exact absurd hj (UInt64.not_lt.mpr (UInt64.zero_le)))
    ⟨trivial, trivial, by decide, trivial, trivial, trivial⟩

/-- A pointer that is retired a second time while it still waits can be freed inside the critical
section: the older entry carries an epoch from before the section. -/
theorem pushed_early_of_double_retire :
    ¬ ∀ (pre mid post : List Op) (c k : Cpu) (ptr : UInt64),
      (∀ o ∈ mid, o ≠ .enter c ∧ o ≠ .exit c) → (∀ o ∈ post, o ≠ .enter c ∧ o ≠ .exit c) →
      ptr ∉ freedSince (run (pre ++ .enter c :: mid))
        (run (pre ++ .enter c :: mid ++ .retire k ptr :: post)) := by
  intro h
  have := h [.retire 0 7, .advance] [] [.reclaim 0] 1 0 7 (by simp) (by simp)
  revert this
  decide

end Keuos.Ebr
