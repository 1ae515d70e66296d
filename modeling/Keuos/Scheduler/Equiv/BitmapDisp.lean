import Keuos.Scheduler.BitmapDisp
import Mathlib.Order.Bounds.Basic
import Mathlib.Tactic.FinCases

/-!
# The two-level dispatcher under interleaving

Each call updates the word of the task's group first and the summary second.  Between the two a mark owes
the summary a bit and a clear owes it the removal of one, and these debts are the only differences between
the summary and the groups (`Inv`), as long as no clear pays its debt when a mark has filled the group
again (`ClearsEmpty`).  The masks of the two functions are the same for the tasks whose group and position are
below 31 (`Narrow`), and only these may be marked.

* `dispatch_of_clearsEmpty` – the dispatcher finds the smallest runnable task in every run that meets these
  conditions.
* `not_agrees_of_lateClear` – the run in which a clear is late.
-/

namespace Keuos.BitmapDisp

variable {ι : Type} [DecidableEq ι]

/-! ### Tasks and groups -/

/-- The bit of a task in its group. -/
def taskBit (b : Bitmaps) (t : UInt32) : Bool :=
  bit (b.l2 (t / 64)) (t % 64).toNat

theorem toNat_group (t : UInt32) : (t / 64).toUInt64.toNat = t.toNat / 64 := by
  rw [UInt32.toNat_toUInt64, UInt32.toNat_div]
  rfl

theorem toNat_position (t : UInt32) : (t % 64).toNat = t.toNat % 64 := by
  rw [UInt32.toNat_mod]
  rfl

theorem lt_of_lt_maxTasks {t : UInt32} (ht : t < maxTasks) : t.toNat < 4096 :=
  UInt32.lt_iff_toNat_lt.mp ht

/-- The group of a task, and its position there, are below 31. -/
def Narrow (t : UInt32) : Prop := t.toNat % 64 < 31 ∧ t.toNat / 64 < 31

theorem argBit_eq {i : UInt32} (hi : i.toNat < 31) : argBit i = 1 <<< i.toUInt64 := by
  have hall : ∀ k : Fin 31, argBit (UInt32.ofNat k) = 1 <<< (UInt32.ofNat k).toUInt64 := by decide
  have h := hall ⟨i.toNat, hi⟩
  rwa [UInt32.ofNat_toNat] at h

theorem Narrow.argBit_position {t : UInt32} (h : Narrow t) : argBit (t % 64) = taskMask t :=
  argBit_eq (by rw [toNat_position]; exact h.1)

theorem Narrow.argBit_group {t : UInt32} (h : Narrow t) : argBit (t / 64) = groupMask t := by
  refine argBit_eq ?_
  rw [← UInt32.toNat_toUInt64, toNat_group]
  exact h.2

theorem bit_taskMask (t : UInt32) (i : Nat) : bit (taskMask t) i = decide (t.toNat % 64 = i) := by
  have hlt : (t % 64).toUInt64.toNat < 64 := by
    rw [UInt32.toNat_toUInt64, toNat_position]
    omega
  unfold taskMask
  rw [bit_one_shiftLeft hlt, UInt32.toNat_toUInt64, toNat_position]

theorem bit_groupMask {t : UInt32} (ht : t < maxTasks) (i : Nat) :
    bit (groupMask t) i = decide (t.toNat / 64 = i) := by
  have hlt := lt_of_lt_maxTasks ht
  unfold groupMask
  rw [bit_one_shiftLeft (by rw [toNat_group]; omega), toNat_group]

theorem group_position_inj {t u : UInt32} (hgroup : u / 64 = t / 64)
    (hposition : u.toNat % 64 = t.toNat % 64) : u = t := by
  have hdiv := congrArg UInt32.toNat hgroup
  rw [UInt32.toNat_div, UInt32.toNat_div] at hdiv
  change u.toNat / 64 = t.toNat / 64 at hdiv
  apply UInt32.toNat_inj.mp
  omega

theorem taskBit_or (b : Bitmaps) (t u : UInt32) :
    taskBit (b.set (b.l2 (t / 64) ||| taskMask t) (.l2 (t / 64))) u =
      (decide (u = t) || taskBit b u) := by
  unfold taskBit Bitmaps.set
  dsimp only
  by_cases hgroup : u / 64 = t / 64
  · rw [hgroup, Function.update_self, bit_or, bit_taskMask, toNat_position, Bool.or_comm]
    congr 1
    rw [decide_eq_decide]
    constructor
    · intro hposition
      exact group_position_inj hgroup hposition.symm
    · rintro rfl
      rfl
  · have hne : u ≠ t := fun h => hgroup (h ▸ rfl)
    rw [Function.update_of_ne hgroup, decide_eq_false hne, Bool.false_or]

theorem taskBit_and (b : Bitmaps) (t u : UInt32) :
    taskBit (b.set (b.l2 (t / 64) &&& (allOnes ^^^ taskMask t)) (.l2 (t / 64))) u =
      (!decide (u = t) && taskBit b u) := by
  unfold taskBit Bitmaps.set
  dsimp only
  by_cases hgroup : u / 64 = t / 64
  · have hlt : u.toNat % 64 < 64 := Nat.mod_lt _ (by decide)
    rw [hgroup, Function.update_self, bit_and, bit_xor, bit_allOnes, bit_taskMask, toNat_position,
      decide_eq_true hlt, Bool.true_xor, Bool.and_comm]
    congr 2
    rw [decide_eq_decide]
    constructor
    · intro hposition
      exact group_position_inj hgroup hposition.symm
    · rintro rfl
      rfl
  · have hne : u ≠ t := fun h => hgroup (h ▸ rfl)
    rw [Function.update_of_ne hgroup, decide_eq_false hne, Bool.not_false, Bool.true_and]

/-- A word that loses its last bit had no other. -/
theorem eq_taskMask_of_and_eq_zero {x : UInt64} {t : UInt32} (h : x &&& (allOnes ^^^ taskMask t) = 0) :
    x = 0 ∨ x = taskMask t := by
  have hbits : ∀ i, bit x i = true → t.toNat % 64 = i := by
    intro i hi
    have hand := congrArg (bit · i) h
    simp only [bit_and, bit_xor, bit_allOnes, bit_taskMask, bit_zero, hi, Bool.true_and] at hand
    have hlt : i < 64 := by
      by_contra hge
      rw [bit_of_le x (Nat.le_of_not_lt hge)] at hi
      exact absurd hi (by decide)
    rw [decide_eq_true hlt, Bool.true_xor, Bool.not_eq_false', decide_eq_true_iff] at hand
    exact hand
  by_cases hzero : x = 0
  · exact .inl hzero
  · right
    obtain ⟨i, -, hi⟩ := exists_bit_of_ne_zero hzero
    apply eq_of_bit_eq
    intro j
    rw [bit_taskMask, Bool.eq_iff_iff, decide_eq_true_iff]
    constructor
    · exact hbits j
    · intro hj
      rw [← hj, hbits i hi]
      exact hi

/-! ### Where the cores are -/

/-- The point that a core has reached: before its first operation, or before its second one. -/
inductive Stage where
  | idle
  | mark (t : UInt32)
  | marking (t : UInt32)
  | clear (t : UInt32)
  | clearing (t : UInt32)
  deriving DecidableEq

def Stage.taskId : Stage → Option UInt32
  | .idle => none
  | .mark t | .marking t | .clear t | .clearing t => some t

/-- The call at a stage, and what is left of it. -/
def Stage.thread : Stage → Option (Call × WordProg Unit)
  | .idle => none
  | .mark t => some (.mark t, markRunnable t)
  | .marking t => some (.mark t, markSummary t)
  | .clear t => some (.clear t, clearRunnable t)
  | .clearing t => some (.clear t, clearSummary t)

/-- A mark is of a task that it marks alone. -/
def Stage.Narrow : Stage → Prop
  | .mark t | .marking t => BitmapDisp.Narrow t
  | .idle | .clear _ | .clearing _ => True

/-- The summary and the groups agree, up to what the calls in progress owe. -/
structure Inv (s : Shared) (stage : ι → Stage) : Prop where
  apart : ∀ i j t, (stage i).taskId = some t → (stage j).taskId = some t → i = j
  fits : ∀ i t, (stage i).taskId = some t → t < maxTasks
  marked : ∀ i t, stage i = .marking t → taskBit s.maps t = true
  cleared : ∀ i t, stage i = .clearing t → taskBit s.maps t = false
  settled : ∀ t, t < maxTasks → (∀ i, stage i ≠ .marking t ∧ stage i ≠ .clearing t) →
    taskBit s.maps t = s.runnable t
  filled : ∀ g : UInt32, g.toNat < 64 → s.maps.l2 g ≠ 0 →
    bit s.maps.l1 g.toNat = true ∨ ∃ i t, stage i = .marking t ∧ t / 64 = g
  emptied : ∀ g : UInt32, g.toNat < 64 → s.maps.l2 g = 0 →
    bit s.maps.l1 g.toNat = false ∨ ∃ i t, stage i = .clearing t ∧ t / 64 = g

theorem Inv.taskIds {s : Shared} {stage : ι → Stage} (h : Inv s stage) {i : ι} {x : Stage}
    (hx : x.taskId = none ∨ x.taskId = (stage i).taskId) :
    (∀ j k t, (Function.update stage i x j).taskId = some t →
      (Function.update stage i x k).taskId = some t → j = k) ∧
    ∀ j t, (Function.update stage i x j).taskId = some t → t < maxTasks := by
  have hback : ∀ j t, (Function.update stage i x j).taskId = some t → (stage j).taskId = some t := by
    intro j t hj
    by_cases hji : j = i
    · rw [hji, Function.update_self] at hj
      rcases hx with hnone | hsame
      · rw [hnone] at hj
        exact absurd hj (by simp)
      · rw [hji, ← hsame, hj]
    · rwa [Function.update_of_ne hji] at hj
  exact ⟨fun j k t hj hk => h.apart j k t (hback j t hj) (hback k t hk),
    fun j t hj => h.fits j t (hback j t hj)⟩

theorem exists_update {stage : ι → Stage} {i : ι} {x y : Stage} {f : UInt32 → Stage} {g : UInt32}
    (hi : stage i = y) (hy : ∀ t, t / 64 = g → y ≠ f t)
    (h : ∃ j t, stage j = f t ∧ t / 64 = g) :
    ∃ j t, Function.update stage i x j = f t ∧ t / 64 = g := by
  obtain ⟨j, t, hj, hgroup⟩ := h
  refine ⟨j, t, ?_, hgroup⟩
  rw [Function.update_of_ne, hj]
  rintro rfl
  exact hy t hgroup (hi.symm.trans hj)

theorem of_update {stage : ι → Stage} {i j : ι} {x y : Stage} (hne : x ≠ y)
    (h : Function.update stage i x j = y) : j ≠ i ∧ stage j = y := by
  by_cases hji : j = i
  · rw [hji, Function.update_self] at h
    exact absurd h hne
  · rw [Function.update_of_ne hji] at h
    exact ⟨hji, h⟩

theorem set_l2_l1 (b : Bitmaps) (v : UInt64) (i : UInt32) : (b.set v (.l2 i)).l1 = b.l1 := rfl

theorem toNat_lt_of_group {t : UInt32} (ht : t < maxTasks) : (t / 64).toNat < 64 := by
  have hlt := lt_of_lt_maxTasks ht
  rw [UInt32.toNat_div]
  change t.toNat / 64 < 64
  omega

theorem groupMask_ne {t g : UInt32} (ht : t < maxTasks) (hg : g ≠ t / 64) :
    bit (groupMask t) g.toNat = false := by
  rw [bit_groupMask ht, decide_eq_false_iff_not]
  intro heq
  apply hg
  apply UInt32.toNat_inj.mp
  rw [← heq, UInt32.toNat_div]
  rfl

theorem groupMask_self {t : UInt32} (ht : t < maxTasks) : bit (groupMask t) (t / 64).toNat = true := by
  rw [bit_groupMask ht, decide_eq_true_iff, UInt32.toNat_div]
  rfl

theorem Inv.markGroup {s : Shared} {stage : ι → Stage} (h : Inv s stage) {i : ι} {t : UInt32}
    (hi : stage i = .mark t) :
    Inv { s with maps := s.maps.set (s.maps.l2 (t / 64) ||| taskMask t) (.l2 (t / 64)) }
      (Function.update stage i (.marking t)) := by
  obtain ⟨hapart, hfits⟩ := h.taskIds (i := i) (x := .marking t) (.inr (by rw [hi]; rfl))
  have htask : (stage i).taskId = some t := by rw [hi]; rfl
  refine ⟨hapart, hfits, ?_, ?_, ?_, ?_, ?_⟩
  · intro j u hj
    rw [taskBit_or, Bool.or_eq_true, decide_eq_true_iff]
    by_cases hut : u = t
    · exact .inl hut
    · exact .inr (h.marked j u (of_update (fun heq => hut (Stage.marking.inj heq).symm) hj).2)
  · intro j u hj
    obtain ⟨hji, hclearing⟩ := of_update Stage.noConfusion hj
    -- a clear of the same task would be a second call for it
    have hut : u ≠ t := by
      rintro rfl
      exact hji (h.apart j i u (by rw [hclearing]; rfl) htask)
    rw [taskBit_or, decide_eq_false hut, Bool.false_or]
    exact h.cleared j u hclearing
  · intro u hu hrest
    have hut : u ≠ t := by
      rintro rfl
      exact (hrest i).1 (Function.update_self _ _ _)
    rw [taskBit_or, decide_eq_false hut, Bool.false_or]
    refine h.settled u hu fun j => ?_
    by_cases hji : j = i
    · rw [hji, hi]
      exact ⟨Stage.noConfusion, Stage.noConfusion⟩
    · have hj := hrest j
      rwa [Function.update_of_ne hji] at hj
  · intro g hg hne
    by_cases hgroup : g = t / 64
    · exact .inr ⟨i, t, Function.update_self _ _ _, hgroup.symm⟩
    · change Function.update _ _ _ g ≠ 0 at hne
      rw [Function.update_of_ne hgroup] at hne
      exact (h.filled g hg hne).imp_right (exists_update hi fun _ _ => Stage.noConfusion)
  · intro g hg hzero
    change Function.update _ _ _ g = 0 at hzero
    by_cases hgroup : g = t / 64
    · -- the group has the task's bit
      have hbit : taskBit (s.maps.set (s.maps.l2 (t / 64) ||| taskMask t) (.l2 (t / 64))) t = true := by
        rw [taskBit_or, decide_eq_true rfl, Bool.true_or]
      rw [hgroup] at hzero
      exact absurd hzero (ne_zero_of_bit hbit)
    · rw [Function.update_of_ne hgroup] at hzero
      exact (h.emptied g hg hzero).imp_right (exists_update hi fun _ _ => Stage.noConfusion)

theorem Inv.markSummary {s : Shared} {stage : ι → Stage} (h : Inv s stage) {i : ι} {t : UInt32}
    (hi : stage i = .marking t) :
    Inv ((Call.mark t).record { s with maps := s.maps.set (s.maps.l1 ||| groupMask t) .l1 })
      (Function.update stage i .idle) := by
  obtain ⟨hapart, hfits⟩ := h.taskIds (i := i) (x := .idle) (.inl rfl)
  have htask : (stage i).taskId = some t := by rw [hi]; rfl
  have ht : t < maxTasks := h.fits i t htask
  have hbit : taskBit s.maps t = true := h.marked i t hi
  refine ⟨hapart, hfits, ?_, ?_, ?_, ?_, ?_⟩
  · exact fun j u hj => h.marked j u (of_update Stage.noConfusion hj).2
  · exact fun j u hj => h.cleared j u (of_update Stage.noConfusion hj).2
  · -- the call returns, so the task counts as runnable
    intro u hu hrest
    change taskBit s.maps u = Function.update s.runnable t true u
    by_cases hut : u = t
    · rw [hut, Function.update_self, hbit]
    · rw [Function.update_of_ne hut]
      refine h.settled u hu fun j => ?_
      by_cases hji : j = i
      · rw [hji, hi]
        exact ⟨fun heq => hut (Stage.marking.inj heq).symm, Stage.noConfusion⟩
      · have hj := hrest j
        rwa [Function.update_of_ne hji] at hj
  · -- the summary bit is set now, and the mark owes it no more
    intro g hg hne
    change bit (s.maps.l1 ||| groupMask t) g.toNat = true ∨ _
    rw [bit_or]
    by_cases hgroup : g = t / 64
    · rw [hgroup, groupMask_self ht, Bool.or_true]
      exact .inl rfl
    · rw [groupMask_ne ht hgroup, Bool.or_false]
      refine (h.filled g hg hne).imp_right (exists_update hi fun u hu heq => hgroup ?_)
      rw [Stage.marking.inj heq, hu]
  · intro g hg hzero
    change bit (s.maps.l1 ||| groupMask t) g.toNat = false ∨ _
    by_cases hgroup : g = t / 64
    · rw [hgroup] at hzero
      exact absurd hzero (ne_zero_of_bit hbit)
    · rw [bit_or, groupMask_ne ht hgroup, Bool.or_false]
      exact (h.emptied g hg hzero).imp_right (exists_update hi fun _ _ => Stage.noConfusion)

theorem Inv.clearGroup {s : Shared} {stage : ι → Stage} (h : Inv s stage) {i : ι} {t : UInt32}
    (hi : stage i = .clear t) {x : Stage} {c : Shared}
    (hmaps : c.maps = s.maps.set (s.maps.l2 (t / 64) &&& (allOnes ^^^ taskMask t)) (.l2 (t / 64)))
    (hcall : x = .idle ∧ c.runnable = Function.update s.runnable t false ∧
        s.maps.l2 (t / 64) ≠ taskMask t ∨
      x = .clearing t ∧ c.runnable = s.runnable) :
    Inv c (Function.update stage i x) := by
  have htask : (stage i).taskId = some t := by rw [hi]; rfl
  have hx : x.taskId = none ∨ x.taskId = (stage i).taskId := by
    rcases hcall with ⟨rfl, -⟩ | ⟨rfl, -⟩
    · exact .inl rfl
    · exact .inr htask.symm
  have hmarking : ∀ u, x ≠ .marking u := by
    rcases hcall with ⟨rfl, -⟩ | ⟨rfl, -⟩
    · exact fun _ => Stage.noConfusion
    · exact fun _ => Stage.noConfusion
  obtain ⟨hapart, hfits⟩ := h.taskIds (i := i) hx
  refine ⟨hapart, hfits, ?_, ?_, ?_, ?_, ?_⟩
  · intro j u hj
    obtain ⟨hji, hmark⟩ := of_update (hmarking u) hj
    -- calls for one task do not overlap
    have hut : u ≠ t := by
      rintro rfl
      exact hji (h.apart j i u (by rw [hmark]; rfl) htask)
    rw [hmaps, taskBit_and, decide_eq_false hut, Bool.not_false, Bool.true_and]
    exact h.marked j u hmark
  · intro j u hj
    rw [hmaps, taskBit_and]
    by_cases hut : u = t
    · rw [decide_eq_true hut, Bool.not_true, Bool.false_and]
    · have hne : x ≠ .clearing u := by
        rcases hcall with ⟨rfl, -⟩ | ⟨rfl, -⟩
        · exact Stage.noConfusion
        · exact fun heq => hut (Stage.clearing.inj heq).symm
      rw [h.cleared j u (of_update hne hj).2, Bool.and_false]
  · intro u hu hrest
    rw [hmaps, taskBit_and]
    by_cases hut : u = t
    · rw [decide_eq_true hut, Bool.not_true, Bool.false_and, hut]
      rcases hcall with ⟨rfl, hrun, -⟩ | ⟨rfl, -⟩
      · rw [hrun, Function.update_self]
      · exact absurd (Function.update_self i (Stage.clearing t) stage) (hut ▸ (hrest i).2)
    · have hrun : c.runnable u = s.runnable u := by
        rcases hcall with ⟨-, hrun, -⟩ | ⟨-, hrun⟩
        · rw [hrun, Function.update_of_ne hut]
        · rw [hrun]
      rw [decide_eq_false hut, Bool.not_false, Bool.true_and, hrun]
      refine h.settled u hu fun j => ?_
      by_cases hji : j = i
      · rw [hji, hi]
        exact ⟨Stage.noConfusion, Stage.noConfusion⟩
      · have hj := hrest j
        rwa [Function.update_of_ne hji] at hj
  · intro g hg hne
    -- clearing a bit fills no group
    have hold : s.maps.l2 g ≠ 0 := by
      rw [hmaps] at hne
      change Function.update _ _ _ g ≠ 0 at hne
      by_cases hgroup : g = t / 64
      · rw [hgroup, Function.update_self] at hne
        rw [hgroup]
        intro hzero
        rw [hzero, UInt64.zero_and] at hne
        exact hne rfl
      · rwa [Function.update_of_ne hgroup] at hne
    rw [hmaps, set_l2_l1]
    exact (h.filled g hg hold).imp_right (exists_update hi fun _ _ => Stage.noConfusion)
  · intro g hg hzero
    have hclearing : ∀ u, u / 64 = g → Stage.clear t ≠ .clearing u := fun _ _ => Stage.noConfusion
    rw [hmaps] at hzero ⊢
    rw [set_l2_l1]
    change Function.update _ _ _ g = 0 at hzero
    by_cases hgroup : g = t / 64
    · rw [hgroup, Function.update_self] at hzero
      rcases hcall with ⟨-, -, hmore⟩ | ⟨rfl, -⟩
      · -- the group had no bit before, and has none now
        have hold : s.maps.l2 g = 0 := by
          rw [hgroup]
          exact (eq_taskMask_of_and_eq_zero hzero).resolve_right hmore
        exact (h.emptied g hg hold).imp_right (exists_update hi hclearing)
      · -- this clear takes the group from the summary next
        exact .inr ⟨i, t, Function.update_self _ _ _, hgroup.symm⟩
    · rw [Function.update_of_ne hgroup] at hzero
      exact (h.emptied g hg hzero).imp_right (exists_update hi hclearing)

/-- The second operation of `clear_runnable`, when the group is empty or a mark owes the summary its
bit. -/
theorem Inv.clearSummary {s : Shared} {stage : ι → Stage} (h : Inv s stage) {i : ι} {t : UInt32}
    (hi : stage i = .clearing t)
    (hempty : s.maps.l2 (t / 64) = 0 ∨ ∃ j u, stage j = .marking u ∧ u / 64 = t / 64) :
    Inv ((Call.clear t).record
        { s with maps := s.maps.set (s.maps.l1 &&& (allOnes ^^^ groupMask t)) .l1 })
      (Function.update stage i .idle) := by
  obtain ⟨hapart, hfits⟩ := h.taskIds (i := i) (x := .idle) (.inl rfl)
  have htask : (stage i).taskId = some t := by rw [hi]; rfl
  have ht : t < maxTasks := h.fits i t htask
  refine ⟨hapart, hfits, ?_, ?_, ?_, ?_, ?_⟩
  · exact fun j u hj => h.marked j u (of_update Stage.noConfusion hj).2
  · exact fun j u hj => h.cleared j u (of_update Stage.noConfusion hj).2
  · intro u hu hrest
    change taskBit s.maps u = Function.update s.runnable t false u
    by_cases hut : u = t
    · rw [hut, Function.update_self, h.cleared i t hi]
    · rw [Function.update_of_ne hut]
      refine h.settled u hu fun j => ?_
      by_cases hji : j = i
      · rw [hji, hi]
        exact ⟨Stage.noConfusion, fun heq => hut (Stage.clearing.inj heq).symm⟩
      · have hj := hrest j
        rwa [Function.update_of_ne hji] at hj
  · intro g hg hne
    change bit (s.maps.l1 &&& (allOnes ^^^ groupMask t)) g.toNat = true ∨ _
    have hmarking : ∀ u, u / 64 = g → Stage.clearing t ≠ .marking u := fun _ _ => Stage.noConfusion
    by_cases hgroup : g = t / 64
    · -- a mark that has filled the group meanwhile has not reached the summary
      rw [hgroup] at hne
      obtain ⟨j, u, hj, hu⟩ := hempty.resolve_left hne
      exact .inr (exists_update hi hmarking ⟨j, u, hj, hu.trans hgroup.symm⟩)
    · rw [bit_and, bit_xor, groupMask_ne ht hgroup, bit_allOnes, decide_eq_true hg, Bool.xor_false,
        Bool.and_true]
      exact (h.filled g hg hne).imp_right (exists_update hi hmarking)
  · intro g hg hzero
    change bit (s.maps.l1 &&& (allOnes ^^^ groupMask t)) g.toNat = false ∨ _
    rw [bit_and, bit_xor, bit_allOnes, decide_eq_true hg, Bool.true_xor]
    by_cases hgroup : g = t / 64
    · rw [hgroup, groupMask_self ht, Bool.not_true, Bool.and_false]
      exact .inl rfl
    · rw [groupMask_ne ht hgroup, Bool.not_false, Bool.and_true]
      refine (h.emptied g hg hzero).imp_right (exists_update hi fun u hu heq => hgroup ?_)
      rw [Stage.clearing.inj heq, hu]

/-! ### Runs -/

/-- Calls for one task do not overlap. -/
def Separate (cfg : (cores ι).Config) : (cores ι).Event → Prop
  | .call _ (c : Call) => ∀ j (c' : Call) p, cfg.thread j = some (c', p) → c'.taskId ≠ c.taskId
  | .step _ => True

/-- No task is marked whose group or position is 31 or above. -/
def MarksNarrow : (cores ι).Event → Prop
  | .call _ (.mark t) => t < maxTasks → Narrow t
  | .call _ (.clear _) | .step _ => True

/-- A clear that is about to take a group from the summary finds the group empty, or a mark of the group
has not reached the summary yet. -/
def ClearsEmpty (cfg : (cores ι).Config) : (cores ι).Event → Prop
  | .call _ _ => True
  | .step i => ∀ t, cfg.thread i = some (Call.clear t, clearSummary t) →
      cfg.shared.maps.l2 (t / 64) = 0 ∨
        ∃ j u, cfg.thread j = some (Call.mark u, markSummary u) ∧ u / 64 = t / 64

/-- The cores are at stages at which the invariant holds. -/
def Ok (cfg : (cores ι).Config) : Prop :=
  ∃ stage : ι → Stage, cfg.thread = Stage.thread ∘ stage ∧ (∀ i, (stage i).Narrow) ∧ Inv cfg.shared stage

theorem thread_update (stage : ι → Stage) (i : ι) (x : Stage) :
    Function.update (Stage.thread ∘ stage) i x.thread = Stage.thread ∘ Function.update stage i x :=
  (Function.comp_update _ _ _ _).symm

theorem markRunnable_of_lt {t : UInt32} (ht : t < maxTasks) :
    markRunnable t = .op (.or (.l2 (t / 64)) (argBit (t % 64))) fun _ => markSummary t :=
  if_neg (UInt32.not_le.mpr ht)

theorem clearRunnable_of_lt {t : UInt32} (ht : t < maxTasks) :
    clearRunnable t = .op (.and (.l2 (t / 64)) (allOnes ^^^ taskMask t)) fun oldL2 =>
      if oldL2 = taskMask t then clearSummary t else .ret () :=
  if_neg (UInt32.not_le.mpr ht)

theorem thread_eq_marking {x : Stage} {t : UInt32}
    (h : x.thread = some (Call.mark t, markSummary t)) (ht : t < maxTasks) : x = .marking t := by
  cases x with
  | idle => exact absurd h (by simp [Stage.thread])
  | clear u => exact absurd h (by simp [Stage.thread])
  | clearing u => exact absurd h (by simp [Stage.thread])
  | mark u =>
    simp only [Stage.thread, Option.some.injEq, Prod.mk.injEq, Call.mark.injEq] at h
    obtain ⟨rfl, hprog⟩ := h
    rw [markRunnable_of_lt ht] at hprog
    exact absurd hprog (by simp [markSummary])
  | marking u =>
    simp only [Stage.thread, Option.some.injEq, Prod.mk.injEq, Call.mark.injEq] at h
    rw [h.1]

theorem taskId_of_thread {x : Stage} {c : Call} {p : WordProg Unit} (h : x.thread = some (c, p)) :
    x.taskId = some c.taskId := by
  cases x with
  | idle => exact absurd h (by simp [Stage.thread])
  | mark u | marking u | clear u | clearing u =>
    simp only [Stage.thread, Option.some.injEq, Prod.mk.injEq] at h
    rw [← h.1]
    rfl

theorem Inv.call {s : Shared} {stage : ι → Stage} (h : Inv s stage) {i : ι} {t : UInt32}
    (hidle : stage i = .idle) (ht : t < maxTasks) (hfree : ∀ j, (stage j).taskId ≠ some t) {x : Stage}
    (hx : x = .mark t ∨ x = .clear t) : Inv s (Function.update stage i x) := by
  have hmarking : ∀ u, x ≠ .marking u := by
    rcases hx with rfl | rfl
    · exact fun _ => Stage.noConfusion
    · exact fun _ => Stage.noConfusion
  have hclearing : ∀ u, x ≠ .clearing u := by
    rcases hx with rfl | rfl
    · exact fun _ => Stage.noConfusion
    · exact fun _ => Stage.noConfusion
  have htask : x.taskId = some t := by
    rcases hx with rfl | rfl
    · rfl
    · rfl
  refine ⟨?_, ?_, ?_, ?_, ?_, ?_, ?_⟩
  -- No other core works on this task, so the tasks of any two cores stay apart.
  · intro j k u hj hk
    by_cases hji : j = i
    · by_cases hki : k = i
      · rw [hji, hki]
      · rw [hji, Function.update_self, htask] at hj
        rw [Function.update_of_ne hki, ← hj] at hk
        exact absurd hk (hfree k)
    · rw [Function.update_of_ne hji] at hj
      by_cases hki : k = i
      · rw [hki, Function.update_self, htask] at hk
        rw [← hk] at hj
        exact absurd hj (hfree j)
      · rw [Function.update_of_ne hki] at hk
        exact h.apart j k u hj hk
  · intro j u hj
    by_cases hji : j = i
    · rw [hji, Function.update_self, htask, Option.some_inj] at hj
      exact hj ▸ ht
    · rw [Function.update_of_ne hji] at hj
      exact h.fits j u hj
  · exact fun j u hj => h.marked j u (of_update (hmarking u) hj).2
  · exact fun j u hj => h.cleared j u (of_update (hclearing u) hj).2
  · intro u hu hrest
    refine h.settled u hu fun j => ?_
    by_cases hji : j = i
    · rw [hji, hidle]
      exact ⟨Stage.noConfusion, Stage.noConfusion⟩
    · have hj := hrest j
      rwa [Function.update_of_ne hji] at hj
  · intro g hg hne
    exact (h.filled g hg hne).imp_right (exists_update hidle fun _ _ => Stage.noConfusion)
  · intro g hg hzero
    exact (h.emptied g hg hzero).imp_right (exists_update hidle fun _ _ => Stage.noConfusion)

omit [DecidableEq ι] in
theorem Inv.record {s : Shared} {stage : ι → Stage} (h : Inv s stage) {c : Call}
    (hc : ¬c.taskId < maxTasks) : Inv (c.record s) stage := by
  refine ⟨h.apart, h.fits, h.marked, h.cleared, ?_, h.filled, h.emptied⟩
  intro t ht hrest
  have hne : t ≠ c.taskId := by
    rintro rfl
    exact hc ht
  change taskBit s.maps t = Function.update s.runnable c.taskId _ t
  rw [Function.update_of_ne hne]
  exact h.settled t ht hrest

theorem body_of_not_lt {c : Call} (hc : ¬c.taskId < maxTasks) : c.body = .ret () := by
  cases c with
  | mark t => exact if_pos (UInt32.not_lt.mp hc)
  | clear t => exact if_pos (UInt32.not_lt.mp hc)

theorem ok_of_settle {cfg : (cores ι).Config} {stage : ι → Stage}
    (hthread : cfg.thread = Stage.thread ∘ stage) (hnarrow : ∀ i, (stage i).Narrow)
    {i : ι} {x : Stage} (hnarrow' : x.Narrow) {cfg' : (cores ι).Config}
    (hx : cfg'.thread = Function.update cfg.thread i x.thread)
    (hinv : Inv cfg'.shared (Function.update stage i x)) : Ok cfg' := by
  refine ⟨Function.update stage i x, ?_, ?_, hinv⟩
  · rw [hx, hthread, thread_update]
  · intro j
    by_cases hji : j = i
    · rw [hji, Function.update_self]
      exact hnarrow'
    · rw [Function.update_of_ne hji]
      exact hnarrow j

theorem Ok.call {cfg : (cores ι).Config} (h : Ok cfg) {i : ι} {c : Call}
    (hseparate : Separate cfg (.call i c)) (hmarks : MarksNarrow (ι := ι) (.call i c)) :
    Ok (Machine.exec cfg (.call i c)) := by
  obtain ⟨stage, hthread, hnarrow, hinv⟩ := h
  have hi : cfg.thread i = (stage i).thread := congrFun hthread i
  cases hthreadi : cfg.thread i with
  | some cp =>
    rw [Machine.exec_call_of_busy hthreadi]
    exact ⟨stage, hthread, hnarrow, hinv⟩
  | none =>
    rw [Machine.exec_call_of_idle hthreadi]
    have hidle : stage i = .idle := by
      cases hstage : stage i with
      | idle => rfl
      | mark t | marking t | clear t | clearing t =>
        rw [hthreadi, hstage] at hi
        exact absurd hi (by simp [Stage.thread])
    have hfree : ∀ j, (stage j).taskId ≠ some c.taskId := by
      intro j hj
      cases hstage : (stage j).thread with
      | none => cases hsj : stage j <;> simp [hsj, Stage.thread, Stage.taskId] at hstage hj
      | some cp =>
        have hid := taskId_of_thread hstage
        rw [hj, Option.some_inj] at hid
        exact hseparate j cp.1 cp.2 ((congrFun hthread j).trans hstage) hid.symm
    -- A number that is no task returns at once and is recorded.
    by_cases ht : c.taskId < maxTasks
    · cases c with
      | mark t =>
        refine ok_of_settle hthread hnarrow (i := i) (x := .mark t) (hmarks ht) ?_ ?_
        · change (Machine.settle cfg i _ (markRunnable t) _ _).thread = _
          rw [Stage.thread, markRunnable_of_lt (t := t) ht]
          rfl
        · change Inv (Machine.settle cfg i _ (markRunnable t) _ _).shared _
          rw [markRunnable_of_lt (t := t) ht]
          exact hinv.call hidle ht hfree (.inl rfl)
      | clear t =>
        refine ok_of_settle hthread hnarrow (i := i) (x := .clear t) trivial ?_ ?_
        · change (Machine.settle cfg i _ (clearRunnable t) _ _).thread = _
          rw [Stage.thread, clearRunnable_of_lt (t := t) ht]
          rfl
        · change Inv (Machine.settle cfg i _ (clearRunnable t) _ _).shared _
          rw [clearRunnable_of_lt (t := t) ht]
          exact hinv.call hidle ht hfree (.inr rfl)
    · refine ok_of_settle hthread hnarrow (i := i) (x := .idle) trivial ?_ ?_
      · change (Machine.settle cfg i _ c.body _ _).thread = _
        rw [body_of_not_lt ht]
        rfl
      · change Inv (Machine.settle cfg i _ c.body _ _).shared _
        rw [body_of_not_lt ht, Function.update_eq_self_iff.mpr hidle.symm]
        exact hinv.record ht

theorem Ok.step {cfg : (cores ι).Config} (h : Ok cfg) {i : ι} (hclears : ClearsEmpty cfg (.step i)) :
    Ok (Machine.exec cfg (.step i)) := by
  obtain ⟨stage, hthread, hnarrow, hinv⟩ := h
  have hi : cfg.thread i = (stage i).thread := congrFun hthread i
  cases hstage : stage i with
  | idle =>
    rw [hstage] at hi
    rw [Machine.exec_step_of_idle hi]
    exact ⟨stage, hthread, hnarrow, hinv⟩
  | mark t =>
    have ht : t < maxTasks := hinv.fits i t (by rw [hstage]; rfl)
    have ht' : (Stage.mark t).Narrow := hstage ▸ hnarrow i
    rw [hstage, Stage.thread, markRunnable_of_lt ht, Narrow.argBit_position ht'] at hi
    rw [Machine.exec_step_of_op hi]
    exact ok_of_settle hthread hnarrow (x := .marking t) ht' rfl (hinv.markGroup hstage)
  | marking t =>
    have ht' : (Stage.marking t).Narrow := hstage ▸ hnarrow i
    rw [hstage, Stage.thread, markSummary, Narrow.argBit_group ht'] at hi
    rw [Machine.exec_step_of_op hi]
    exact ok_of_settle hthread hnarrow (x := .idle) trivial rfl (hinv.markSummary hstage)
  | clear t =>
    have ht : t < maxTasks := hinv.fits i t (by rw [hstage]; rfl)
    rw [hstage, Stage.thread, clearRunnable_of_lt ht] at hi
    rw [Machine.exec_step_of_op hi]
    -- the response tells whether the task was the last of its group
    change Ok (Machine.settle cfg i (Call.clear t)
      (if cfg.shared.maps.l2 (t / 64) = taskMask t then clearSummary t else .ret ()) _ _)
    by_cases hlast : cfg.shared.maps.l2 (t / 64) = taskMask t
    · rw [if_pos hlast]
      exact ok_of_settle hthread hnarrow (x := .clearing t) trivial rfl
        (hinv.clearGroup hstage rfl (.inr ⟨rfl, rfl⟩))
    · rw [if_neg hlast]
      exact ok_of_settle hthread hnarrow (x := .idle) trivial rfl
        (hinv.clearGroup hstage rfl (.inl ⟨rfl, rfl, hlast⟩))
  | clearing t =>
    rw [hstage] at hi
    have hempty : cfg.shared.maps.l2 (t / 64) = 0 ∨ ∃ j u, stage j = .marking u ∧ u / 64 = t / 64 := by
      refine (hclears t hi).imp_right ?_
      rintro ⟨j, u, hj, hu⟩
      rw [hthread] at hj
      exact ⟨j, u, thread_eq_marking hj (hinv.fits j u (taskId_of_thread hj)), hu⟩
    rw [Stage.thread, clearSummary] at hi
    rw [Machine.exec_step_of_op hi]
    exact ok_of_settle hthread hnarrow (x := .idle) trivial rfl (hinv.clearSummary hstage hempty)

/-- **Every step keeps the invariant.** -/
theorem Ok.exec {cfg : (cores ι).Config} (h : Ok cfg) {e : (cores ι).Event} (hseparate : Separate cfg e)
    (hmarks : MarksNarrow e) (hclears : ClearsEmpty cfg e) : Ok (Machine.exec cfg e) := by
  cases e with
  | call i c => exact h.call hseparate hmarks
  | step i => exact h.step hclears

omit [DecidableEq ι] in
theorem ok_boot : Ok (boot ι) := by
  refine ⟨fun _ => .idle, rfl, fun _ => trivial, ?_⟩
  refine ⟨nofun, nofun, nofun, nofun, ?_, fun _ _ h => absurd rfl h, ?_⟩
  · intro t _ _
    exact bit_zero _
  · intro g _ _
    exact .inl (bit_zero _)

/-! ### The dispatcher -/

/-- The summary has the bits of the groups that are not empty. -/
def Agrees (b : Bitmaps) : Prop :=
  ∀ g : UInt32, g.toNat < 64 → (bit b.l1 g.toNat = true ↔ b.l2 g ≠ 0)

/-- The dispatcher finds the smallest runnable task, and none only where none is runnable. -/
def Dispatches (s : Shared) : Prop :=
  (∀ t, t < maxTasks → s.runnable t = true →
    IsLeast {u | u < maxTasks ∧ s.runnable u = true} (getNextRunnable s.maps)) ∧
  ((∀ t, t < maxTasks → s.runnable t = false) → getNextRunnable s.maps = idleTaskId)

theorem toNat_findFirstSet {x : UInt64} (hx : x ≠ 0) :
    (findFirstSet x).toNat = (ctz x).toNat := by
  have hlt := (ctz_spec hx).1
  unfold findFirstSet
  rw [UInt64.toNat_toUInt32]
  omega

/-- **Where the summary agrees with the groups the dispatcher is right.** -/
theorem Agrees.dispatches {s : Shared} (h : Agrees s.maps)
    (hbit : ∀ t, t < maxTasks → taskBit s.maps t = s.runnable t) : Dispatches s := by
  constructor
  · intro t ht hrun
    have hgroup : ∀ u, u < maxTasks → s.runnable u = true → bit s.maps.l1 (u / 64).toNat = true := by
      intro u hu hurun
      refine (h (u / 64) (toNat_lt_of_group hu)).mpr ?_
      exact ne_zero_of_bit ((hbit u hu).trans hurun)
    have hl1 : s.maps.l1 ≠ 0 := ne_zero_of_bit (hgroup t ht hrun)
    obtain ⟨hlt₁, hset₁, hbelow₁⟩ := ctz_spec hl1
    have hg : (findFirstSet s.maps.l1).toNat = (ctz s.maps.l1).toNat := toNat_findFirstSet hl1
    have hl2 : s.maps.l2 (findFirstSet s.maps.l1) ≠ 0 :=
      (h _ (hg ▸ hlt₁)).mp (by rw [hg]; exact hset₁)
    obtain ⟨hlt₂, hset₂, hbelow₂⟩ := ctz_spec hl2
    have hp := toNat_findFirstSet hl2
    have hnext : getNextRunnable s.maps =
        findFirstSet s.maps.l1 * 64 + findFirstSet (s.maps.l2 (findFirstSet s.maps.l1)) := by
      unfold getNextRunnable
      simp [hl1, hl2]
    have hnat : (getNextRunnable s.maps).toNat =
        (ctz s.maps.l1).toNat * 64 + (ctz (s.maps.l2 (findFirstSet s.maps.l1))).toNat := by
      rw [hnext, UInt32.toNat_add, UInt32.toNat_mul, hg, hp]
      change ((_ * 64) % 2 ^ 32 + _) % 2 ^ 32 = _
      omega
    have hfits : getNextRunnable s.maps < maxTasks := by
      rw [UInt32.lt_iff_toNat_lt, hnat]
      change _ < 4096
      omega
    have hdiv : getNextRunnable s.maps / 64 = findFirstSet s.maps.l1 := by
      apply UInt32.toNat_inj.mp
      rw [UInt32.toNat_div, hnat, hg]
      change _ / 64 = _
      omega
    refine ⟨⟨hfits, ?_⟩, ?_⟩
    · rw [← hbit _ hfits, taskBit, hdiv, toNat_position, hnat]
      rw [show ((ctz s.maps.l1).toNat * 64 + (ctz (s.maps.l2 (findFirstSet s.maps.l1))).toNat) % 64 =
        (ctz (s.maps.l2 (findFirstSet s.maps.l1))).toNat by omega]
      exact hset₂
    · rintro u ⟨hu, hurun⟩
      rw [UInt32.le_iff_toNat_le, hnat]
      have hugroup : (u / 64).toNat = u.toNat / 64 := by
        rw [UInt32.toNat_div]
        rfl
      -- a task below would have a bit below in the summary, or in the same group
      by_contra hless
      have hbit₁ := hgroup u hu hurun
      have hge : (ctz s.maps.l1).toNat ≤ u.toNat / 64 := by
        by_contra hlt
        rw [hbelow₁ _ (by omega)] at hbit₁
        exact absurd hbit₁ (by decide)
      have hsame : u / 64 = findFirstSet s.maps.l1 := by
        apply UInt32.toNat_inj.mp
        omega
      have hbit₂ : taskBit s.maps u = true := (hbit u hu).trans hurun
      rw [taskBit, hsame, toNat_position, hbelow₂ _ (by omega)] at hbit₂
      exact absurd hbit₂ (by decide)
  · intro hnone
    unfold getNextRunnable
    by_cases hl1 : s.maps.l1 = 0
    · simp [hl1]
    · -- a bit of the summary would be that of a group with a runnable task
      obtain ⟨hlt₁, hset₁, -⟩ := ctz_spec hl1
      have hg : (findFirstSet s.maps.l1).toNat = (ctz s.maps.l1).toNat := toNat_findFirstSet hl1
      have hl2 : s.maps.l2 (findFirstSet s.maps.l1) ≠ 0 :=
        (h _ (hg ▸ hlt₁)).mp (by rw [hg]; exact hset₁)
      obtain ⟨p, hp, hset⟩ := exists_bit_of_ne_zero hl2
      have hid : (UInt32.ofNat ((ctz s.maps.l1).toNat * 64 + p)).toNat =
          (ctz s.maps.l1).toNat * 64 + p := UInt32.toNat_ofNat_of_lt' (by
        change _ < 2 ^ 32
        omega)
      have hfits : UInt32.ofNat ((ctz s.maps.l1).toNat * 64 + p) < maxTasks := by
        rw [UInt32.lt_iff_toNat_lt, hid]
        change _ < 4096
        omega
      have hdiv : UInt32.ofNat ((ctz s.maps.l1).toNat * 64 + p) / 64 = findFirstSet s.maps.l1 := by
        apply UInt32.toNat_inj.mp
        rw [UInt32.toNat_div, hid, hg]
        change _ / 64 = _
        omega
      have hrun := (hbit _ hfits).symm.trans (show taskBit s.maps _ = true by
        rw [taskBit, hdiv, toNat_position, hid,
          show ((ctz s.maps.l1).toNat * 64 + p) % 64 = p by omega]
        exact hset)
      rw [hnone _ hfits] at hrun
      exact absurd hrun (by decide)

/-- No call is in progress. -/
def Quiet (cfg : (cores ι).Config) : Prop :=
  ∀ i, cfg.thread i = none

omit [DecidableEq ι] in
theorem Ok.agrees {cfg : (cores ι).Config} (h : Ok cfg) (hquiet : Quiet cfg) :
    Agrees cfg.shared.maps ∧ ∀ t, t < maxTasks → taskBit cfg.shared.maps t = cfg.shared.runnable t := by
  obtain ⟨stage, hthread, -, hinv⟩ := h
  have hidle : ∀ i, stage i = .idle := by
    intro i
    have hi := (congrFun hthread i).symm.trans (hquiet i)
    cases hstage : stage i with
    | idle => rfl
    | mark t | marking t | clear t | clearing t =>
      simp [hstage, Stage.thread] at hi
  have hmarking : ∀ i t, stage i ≠ .marking t := fun i t h => nomatch (hidle i).symm.trans h
  have hclearing : ∀ i t, stage i ≠ .clearing t := fun i t h => nomatch (hidle i).symm.trans h
  refine ⟨?_, fun t ht => hinv.settled t ht fun i => ⟨hmarking i t, hclearing i t⟩⟩
  intro g hg
  constructor
  · intro hset hzero
    rcases hinv.emptied g hg hzero with hclear | ⟨i, t, hi, -⟩
    · rw [hclear] at hset
      exact absurd hset (by decide)
    · exact hclearing i t hi
  · intro hne
    exact (hinv.filled g hg hne).resolve_right fun ⟨i, t, hi, _⟩ => hmarking i t hi

/-- **No runnable task is lost** in a run in which no clear is late and no mark is of a task whose group or
position is 31 or above: whenever no call is in progress the summary agrees with the groups, and the
dispatcher finds the smallest runnable task. -/
theorem dispatch_of_clearsEmpty (events : List (cores ι).Event)
    (hok : Admissible Machine.exec (fun cfg e => Separate cfg e ∧ MarksNarrow e ∧ ClearsEmpty cfg e) (boot ι)
      events)
    (hquiet : Quiet (runOps Machine.exec (boot ι) events)) :
    Agrees (runOps Machine.exec (boot ι) events).shared.maps ∧
      Dispatches (runOps Machine.exec (boot ι) events).shared := by
  have hrun : Ok (runOps Machine.exec (boot ι) events) :=
    runOps_induction (I := Ok) (fun _ _ h hstep => h.exec hstep.1 hstep.2.1 hstep.2.2) ok_boot hok
  obtain ⟨hagrees, hbits⟩ := hrun.agrees hquiet
  exact ⟨hagrees, hagrees.dispatches hbits⟩

/-! ### Runs of two cores -/

omit [DecidableEq ι] in
theorem separate_of_calls {cfg : (cores ι).Config} {i : ι} {c : Call}
    (h : ∀ j, ((cfg.thread j).map Prod.fst).all (fun c' => c'.taskId != c.taskId) = true) :
    Separate cfg (.call i c) := by
  intro j c' p hj
  have hall := h j
  rw [hj] at hall
  simpa using hall

omit [DecidableEq ι] in
theorem clearsEmpty_of_mark {cfg : (cores ι).Config} {i : ι} {u : UInt32}
    (h : (cfg.thread i).map Prod.fst = some (.mark u)) : ClearsEmpty cfg (.step i) := by
  intro t ht
  rw [ht] at h
  exact Call.noConfusion (Option.some_inj.mp h)

omit [DecidableEq ι] in
theorem clearsEmpty_of_zero {cfg : (cores ι).Config} {i : ι} {u : UInt32}
    (h : (cfg.thread i).map Prod.fst = some (.clear u)) (hzero : cfg.shared.maps.l2 (u / 64) = 0) :
    ClearsEmpty cfg (.step i) := by
  intro t ht
  rw [ht] at h
  rw [Call.clear.inj (Option.some_inj.mp h)]
  exact .inl hzero

/-- Core 0 marks task 5 and clears it, and core 1 marks task 70 meanwhile. -/
def markAndClear : List (cores (Fin 2)).Event :=
  [.call 0 (.mark 5), .step 0, .call 1 (.mark 70), .step 1, .step 0, .call 0 (.clear 5), .step 0, .step 0,
    .step 1]

theorem dispatch_of_clearsEmpty_markAndClear :
    Quiet (runOps Machine.exec (boot (Fin 2)) markAndClear) ∧
      Agrees (runOps Machine.exec (boot (Fin 2)) markAndClear).shared.maps ∧
      Dispatches (runOps Machine.exec (boot (Fin 2)) markAndClear).shared := by
  have hquiet : Quiet (runOps Machine.exec (boot (Fin 2)) markAndClear) := by
    intro i
    fin_cases i <;> rfl
  refine ⟨hquiet, dispatch_of_clearsEmpty markAndClear ?_ hquiet⟩
  have hnarrow : ∀ t : UInt32, t = 5 ∨ t = 70 → Narrow t := by
    unfold Narrow
    rintro t (rfl | rfl)
    · decide
    · decide
  exact ⟨⟨separate_of_calls (by decide), fun _ => hnarrow 5 (.inl rfl), trivial⟩,
    ⟨trivial, trivial, clearsEmpty_of_mark rfl⟩,
    ⟨separate_of_calls (by decide), fun _ => hnarrow 70 (.inr rfl), trivial⟩,
    ⟨trivial, trivial, clearsEmpty_of_mark rfl⟩, ⟨trivial, trivial, clearsEmpty_of_mark rfl⟩,
    ⟨separate_of_calls (by decide), trivial, trivial⟩, ⟨trivial, trivial, fun t ht => by cases ht⟩,
    ⟨trivial, trivial, clearsEmpty_of_zero rfl (by decide)⟩, ⟨trivial, trivial, clearsEmpty_of_mark rfl⟩,
    trivial⟩

/-- Core 1 clears the last task of a group, core 0 marks another task of it, and then core 1 takes the
group from the summary. -/
def lateClear : List (cores (Fin 2)).Event :=
  [.call 0 (.mark 0), .step 0, .step 0, .call 1 (.clear 0), .step 1,
    .call 0 (.mark 1), .step 0, .step 0, .step 1]

theorem not_agrees_of_lateClear :
    ¬∀ events : List (cores (Fin 2)).Event, Admissible Machine.exec Separate (boot (Fin 2)) events →
      Quiet (runOps Machine.exec (boot (Fin 2)) events) →
        Agrees (runOps Machine.exec (boot (Fin 2)) events).shared.maps := by
  intro h
  have hseparate : Admissible Machine.exec Separate (boot (Fin 2)) lateClear :=
    ⟨separate_of_calls (by decide), trivial, trivial, separate_of_calls (by decide), trivial,
      separate_of_calls (by decide), trivial, trivial, trivial, trivial⟩
  have hquiet : Quiet (runOps Machine.exec (boot (Fin 2)) lateClear) := by
    intro i
    fin_cases i <;> rfl
  have hagrees := h lateClear hseparate hquiet 0 (by decide)
  exact absurd (hagrees.mpr (by decide)) (by decide)

end Keuos.BitmapDisp
