import Keuos.Nvme.Defs
import Mathlib.Data.List.Perm.Subperm
import Mathlib.Data.List.Nodup

/-!
# The slots of the requests

A slot has one owner.  The id of a request that is on its way is in exactly one place: in one of the queues,
or in the hands of a task that has found its completion and is about to mark it.  `SlotsInv` says this of the
slots and stages of the tasks, the states of the slots and the ids in the queues; each of the steps keeps it.
-/

namespace Keuos.Nvme

universe u

/-- The command is with the controller, or was. -/
def Stage.Submitted : Stage → Prop
  | .waiting | .polling | .marking _ => True
  | .allocated | .copied | .leaving => False

/-- The slot that the task is about to mark. -/
def Stage.marks : Stage → Option Nat
  | .marking c => some c
  | _ => none

/-- What the state of a slot says, where `flying` says that its id is on its way. -/
def Stage.Ok (state : UInt32) (flying : Prop) : Stage → Prop
  | .allocated | .copied => state = 1 ∧ ¬ flying
  | .waiting | .polling | .marking _ => state = 1 ∧ flying ∨ state = 2 ∧ ¬ flying
  | .leaving => state = 2 ∧ ¬ flying

theorem Stage.Ok.submitted {state : UInt32} {flying : Prop} {a : Stage} (h : a.Ok state flying)
    (hf : flying) :
    a.Submitted ∧ state = 1 := by
  cases a with
  | allocated | copied | leaving => exact absurd hf h.2
  | waiting | polling | marking _ => exact ⟨trivial, h.elim (·.1) fun h => absurd hf h.2⟩

theorem Stage.Ok.state_ne {state : UInt32} {flying : Prop} {a : Stage}
    (h : a.Ok state flying) : state ≠ 0 := by
  cases a with
  | allocated | copied | leaving =>
    rw [h.1]
    decide
  | waiting | polling | marking _ =>
    rcases h with ⟨h, -⟩ | ⟨h, -⟩
    all_goals
      rw [h]
      decide

theorem Stage.Ok.congr {state : UInt32} {flying flying' : Prop} {a : Stage} (hiff : flying' ↔ flying)
    (h : a.Ok state flying) : a.Ok state flying' := by
  rw [propext hiff]
  exact h

section Slots

variable {τ : Type u} {view view' : τ → Option (Nat × Stage)} {state : Nat → UInt32} {queue queue' : List Nat}

/-- The slot that a task is about to mark. -/
def marksOf (view : τ → Option (Nat × Stage)) (t : τ) : Option Nat :=
  (view t).bind fun p => p.2.marks

theorem marksOf_of_view {t : τ} {x : Option (Nat × Stage)} (hview : view t = x) :
    marksOf view t = x.bind (·.2.marks) := by
  unfold marksOf
  rw [hview]

/-- The id is in a queue, or in the hands of a task. -/
def Flying (view : τ → Option (Nat × Stage)) (queue : List Nat) (r : Nat) : Prop :=
  r ∈ queue ∨ ∃ t, marksOf view t = some r

theorem flying_congr (hmarks : ∀ t, marksOf view' t = marksOf view t) (hqueue : ∀ r, r ∈ queue' ↔ r ∈ queue)
    (r : Nat) : Flying view' queue' r ↔ Flying view queue r := by
  unfold Flying
  simp only [hmarks, hqueue]

structure SlotsInv (view : τ → Option (Nat × Stage)) (state : Nat → UInt32) (queue : List Nat) : Prop where
  owner : ∀ {t t' r a b}, view t = some (r, a) → view t' = some (r, b) → t = t'
  slot : ∀ {t r a}, view t = some (r, a) → r < 32 ∧ a.Ok (state r) (Flying view queue r)
  flying : ∀ {r}, Flying view queue r → ∃ t a, view t = some (r, a)
  once : ∀ {t c}, marksOf view t = some c → c ∉ queue ∧ ∀ t', marksOf view t' = some c → t' = t
  nodup : queue.Nodup

namespace SlotsInv

variable {t : τ} {r c : Nat} {a b : Stage}

theorem submitted (h : SlotsInv view state queue) (hflying : Flying view queue r) :
    r < 32 ∧ state r = 1 ∧ ∃ t a, view t = some (r, a) ∧ a.Submitted := by
  obtain ⟨t, a, hview⟩ := h.flying hflying
  obtain ⟨hlt, hok⟩ := h.slot hview
  exact ⟨hlt, (hok.submitted hflying).2, t, a, hview, (hok.submitted hflying).1⟩

theorem not_owned (h : SlotsInv view state queue) (hfree : state r = 0) :
    (∀ t a, view t ≠ some (r, a)) ∧ ¬ Flying view queue r := by
  have howned : ∀ t a, view t ≠ some (r, a) := fun t a hview => (h.slot hview).2.state_ne hfree
  refine ⟨howned, fun hflying => ?_⟩
  obtain ⟨t, a, hview⟩ := h.flying hflying
  exact howned t a hview

/-- **The queues never fill up**, as long as a slot is free. -/
theorem length_lt (h : SlotsInv view state queue) (hr : r < 32)
    (hfree : state r = 0) : queue.length < 32 := by
  have hnodup : (r :: queue).Nodup :=
    List.nodup_cons.mpr ⟨fun hmem => (h.not_owned hfree).2 (.inl hmem), h.nodup⟩
  have hsubset : r :: queue ⊆ List.range 32 := by
    intro x hx
    rcases List.mem_cons.mp hx with rfl | hmem
    · exact List.mem_range.mpr hr
    · exact List.mem_range.mpr (h.submitted (.inl hmem)).1
  have hlength := (hnodup.subperm hsubset).length_le
  rw [List.length_range] at hlength
  exact hlength

theorem perm (h : SlotsInv view state queue) (hperm : queue.Perm queue') : SlotsInv view state queue' where
  owner := h.owner
  slot hview := ⟨(h.slot hview).1, (h.slot hview).2.congr
    (flying_congr (fun _ => rfl) (fun _ => hperm.mem_iff.symm) _)⟩
  flying hflying := h.flying ((flying_congr (fun _ => rfl) (fun _ => hperm.mem_iff.symm) _).mp hflying)
  once hmarks := ⟨fun hmem => (h.once hmarks).1 (hperm.mem_iff.mpr hmem), (h.once hmarks).2⟩
  nodup := hperm.nodup h.nodup

variable [DecidableEq τ]

theorem view_update {x : Option (Nat × Stage)} {t' : τ} :
    Function.update view t x t' = if t' = t then x else view t' := by
  by_cases heq : t' = t
  · rw [if_pos heq, heq, Function.update_self]
  · rw [if_neg heq, Function.update_of_ne heq]

theorem marksOf_update {x : Option (Nat × Stage)} {t' : τ} :
    marksOf (Function.update view t x) t' = if t' = t then x.bind (·.2.marks) else marksOf view t' := by
  unfold marksOf
  rw [view_update]
  split
  · rfl
  · rfl

/-- **A task with a slot takes a step.**  The other slots and the ids on their way follow the frame
conditions. -/
theorem step (h : SlotsInv view state queue) (hview : view t = some (r, a)) {state' : Nat → UInt32}
    (hframe : ∀ r' < 32, r' ≠ r → ∀ a' : Stage, a'.Ok (state r') (Flying view queue r') →
      a'.Ok (state' r') (Flying (Function.update view t (some (r, b))) queue' r'))
    (hok : b.Ok (state' r) (Flying (Function.update view t (some (r, b))) queue' r))
    (hflying : ∀ x, Flying (Function.update view t (some (r, b))) queue' x → x = r ∨ Flying view queue x)
    (honce : ∀ t' c, marksOf (Function.update view t (some (r, b))) t' = some c → c ∉ queue' ∧
      ∀ t'', marksOf (Function.update view t (some (r, b))) t'' = some c → t'' = t')
    (hnodup : queue'.Nodup) : SlotsInv (Function.update view t (some (r, b))) state' queue' := by
  have hlt := (h.slot hview).1
  -- Nobody else has the slot.
  have hother : ∀ {t' x a'}, t' ≠ t → view t' = some (x, a') → x ≠ r := by
    rintro t' x a' hne h' rfl
    exact hne (h.owner h' hview)
  refine ⟨fun {t₁ t₂ x a₁ a₂} h₁ h₂ => ?_, fun {t' x a'} h' => ?_, fun {x} hx => ?_, fun {t' c} =>
    honce t' c, hnodup⟩
  · rw [view_update] at h₁ h₂
    split at h₁
    case isTrue heq₁ =>
      obtain ⟨rfl, rfl⟩ := Prod.mk.inj (Option.some.inj h₁)
      split at h₂
      case isTrue heq₂ => exact heq₁.trans heq₂.symm
      case isFalse hne => exact absurd rfl (hother hne h₂)
    case isFalse hne =>
      split at h₂
      case isTrue heq₂ =>
        obtain ⟨rfl, rfl⟩ := Prod.mk.inj (Option.some.inj h₂)
        exact absurd rfl (hother hne h₁)
      case isFalse => exact h.owner h₁ h₂
  · rw [view_update] at h'
    split at h'
    case isTrue =>
      obtain ⟨rfl, rfl⟩ := Prod.mk.inj (Option.some.inj h')
      exact ⟨hlt, hok⟩
    case isFalse hne => exact ⟨(h.slot h').1, hframe x (h.slot h').1 (hother hne h') a' (h.slot h').2⟩
  · by_cases heq : x = r
    · exact ⟨t, b, by rw [Function.update_self, heq]⟩
    · obtain ⟨t', a', hview'⟩ := h.flying ((hflying x hx).resolve_left heq)
      have hne : t' ≠ t := by
        rintro rfl
        rw [hview] at hview'
        exact heq (Prod.mk.inj (Option.some.inj hview')).1.symm
      exact ⟨t', a', by rw [Function.update_of_ne hne, hview']⟩

theorem marksOf_same {x : Option (Nat × Stage)} (hx : x.bind (·.2.marks) = marksOf view t) (t' : τ) :
    marksOf (Function.update view t x) t' = marksOf view t' := by
  rw [marksOf_update]
  split
  case isTrue heq => rw [heq, hx]
  case isFalse => rfl

/-- **A task moves on** to a stage that marks the same slot, or none as before. -/
theorem goto (h : SlotsInv view state queue) (hview : view t = some (r, a)) (hmarks : a.marks = b.marks)
    (hok : b.Ok (state r) (Flying view queue r)) : SlotsInv (Function.update view t (some (r, b)))
        state queue := by
  have hsame := marksOf_same (x := some (r, b)) (hmarks.symm.trans (marksOf_of_view hview).symm)
  have hflying : ∀ x, Flying _ queue x ↔ Flying view queue x := flying_congr hsame (fun _ => Iff.rfl)
  refine h.step hview (fun r' _ _ a' hok' => hok'.congr (hflying r')) (hok.congr (hflying r))
    (fun x hx => .inr ((hflying x).mp hx)) (fun t' c hc => ?_) h.nodup
  simp only [hsame] at hc ⊢
  exact h.once hc

/-- **A task sends its id.** -/
theorem submit (h : SlotsInv view state queue) (hview : view t = some (r, .copied))
    (hqueue : queue'.Perm (r :: queue)) : SlotsInv (Function.update view t (some (r, .waiting)))
        state queue' := by
  have hsame := marksOf_same (x := some (r, .waiting)) (marksOf_of_view hview).symm
  obtain ⟨hstate, hnot⟩ := (h.slot hview).2
  have hflying : ∀ x, Flying (Function.update view t (some (r, .waiting))) queue' x ↔ x = r ∨
      Flying view queue x := by
    intro x
    unfold Flying
    simp only [hsame, hqueue.mem_iff, List.mem_cons, or_assoc]
  refine h.step hview (fun r' _ hne a' hok' => hok'.congr ?_) (.inl ⟨hstate, (hflying r).mpr (.inl rfl)⟩)
    (fun x hx => (hflying x).mp hx) (fun t' c hc => ?_) ?_
  · rw [hflying, or_iff_right hne]
  · simp only [hsame] at hc ⊢
    refine ⟨fun hmem => ?_, (h.once hc).2⟩
    rcases List.mem_cons.mp (hqueue.mem_iff.mp hmem) with rfl | hmem
    · exact hnot (.inr ⟨t', hc⟩)
    · exact (h.once hc).1 hmem
  · exact hqueue.nodup_iff.mpr (List.nodup_cons.mpr ⟨fun hmem => hnot (.inl hmem), h.nodup⟩)

/-- **A task finds a completion.** -/
theorem found (h : SlotsInv view state queue) (hview : view t = some (r, .polling))
    (hqueue : queue.Perm (c :: queue')) :
    SlotsInv (Function.update view t (some (r, .marking c))) state queue' := by
  have hnodup := List.nodup_cons.mp (hqueue.nodup h.nodup)
  have hmem : ∀ x, x ∈ queue ↔ x = c ∨ x ∈ queue' := fun x => hqueue.mem_iff.trans List.mem_cons
  have hnone : marksOf view t = none := marksOf_of_view hview
  have hmarks : ∀ t', marksOf (Function.update view t (some (r, .marking c))) t' =
      if t' = t then some c else marksOf view t' := fun t' => marksOf_update
  -- the id that leaves the queue is the one that the task is going to mark
  have hflying : ∀ x, Flying (Function.update view t (some (r, .marking c))) queue' x ↔
      Flying view queue x := by
    intro x
    unfold Flying
    simp only [hmarks, hmem]
    constructor
    · rintro (hx | ⟨t', ht'⟩)
      · exact .inl (.inr hx)
      · split at ht'
        case isTrue => exact .inl (.inl (Option.some.inj ht').symm)
        case isFalse => exact .inr ⟨t', ht'⟩
    · rintro ((rfl | hx) | ⟨t', ht'⟩)
      · exact .inr ⟨t, if_pos rfl⟩
      · exact .inl hx
      · refine .inr ⟨t', ?_⟩
        rw [if_neg, ht']
        rintro rfl
        rw [hnone] at ht'
        exact nomatch ht'
  refine h.step hview (fun r' _ _ a' hok' => hok'.congr (hflying r'))
    (Stage.Ok.congr (a := .marking c) (hflying r) (h.slot hview).2)
    (fun x hx => .inr ((hflying x).mp hx)) (fun t' x hx => ?_) hnodup.2
  simp only [hmarks] at hx ⊢
  split at hx
  case isTrue heq =>
    obtain rfl := Option.some.inj hx
    refine ⟨hnodup.1, fun t'' h'' => ?_⟩
    split at h''
    case isTrue heq'' => exact heq''.trans heq.symm
    case isFalse => exact absurd ((hmem c).mpr (.inl rfl)) (h.once h'').1
  case isFalse =>
    refine ⟨fun hx' => (h.once hx).1 ((hmem x).mpr (.inr hx')), fun t'' h'' => ?_⟩
    split at h''
    case isTrue =>
      obtain rfl := Option.some.inj h''
      exact absurd ((hmem c).mpr (.inl rfl)) (h.once hx).1
    case isFalse => exact (h.once hx).2 t'' h''

/-- **A task marks a slot as complete.** -/
theorem mark (h : SlotsInv view state queue) (hview : view t = some (r, .marking c)) :
    SlotsInv (Function.update view t (some (r, .waiting))) (Function.update state c 2) queue := by
  have hc : marksOf view t = some c := marksOf_of_view hview
  have hmarks : ∀ t', marksOf (Function.update view t (some (r, .waiting))) t' =
      if t' = t then none else marksOf view t' := fun t' => marksOf_update
  -- an id is in one place, so the marked one is nowhere any more
  have hflying : ∀ x, Flying (Function.update view t (some (r, .waiting))) queue x ↔ x ≠ c ∧
      Flying view queue x := by
    intro x
    unfold Flying
    simp only [hmarks]
    constructor
    · rintro (hx | ⟨t', ht'⟩)
      · refine ⟨?_, .inl hx⟩
        rintro rfl
        exact (h.once hc).1 hx
      · split at ht'
        case isTrue => exact nomatch ht'
        case isFalse hne =>
          refine ⟨?_, .inr ⟨t', ht'⟩⟩
          rintro rfl
          exact hne ((h.once hc).2 t' ht')
    · rintro ⟨hne, hx | ⟨t', ht'⟩⟩
      · exact .inl hx
      · refine .inr ⟨t', ?_⟩
        rw [if_neg, ht']
        rintro rfl
        exact hne (Option.some.inj (ht'.symm.trans hc))
  -- The stage of a slot, before and after.
  have hstage : ∀ x (a' b' : Stage), a'.Submitted → b'.Submitted → a'.Ok (state x) (Flying view queue x) →
      b'.Ok (Function.update state c 2 x)
        (Flying (Function.update view t (some (r, .waiting))) queue x) := by
    intro x a' b' ha hb hok
    have hb' : ∀ st fl, st = 1 ∧ fl ∨ st = 2 ∧ ¬ fl → b'.Ok st fl := by
      cases b' with
      | allocated | copied | leaving => exact hb.elim
      | waiting | polling | marking _ => exact fun _ _ => id
    have ha' : state x = 1 ∧ Flying view queue x ∨ state x = 2 ∧ ¬ Flying view queue x := by
      cases a' with
      | allocated | copied | leaving => exact ha.elim
      | waiting | polling | marking _ => exact hok
    apply hb'
    by_cases heq : x = c
    · subst heq
      exact .inr ⟨Function.update_self .., fun hx => ((hflying x).mp hx).1 rfl⟩
    · rw [Function.update_of_ne heq, propext (hflying x), and_iff_right heq]
      exact ha'
  refine h.step hview (fun r' _ _ a' hok' => ?_)
    (hstage r (.marking c) .waiting trivial trivial (h.slot hview).2)
    (fun x hx => .inr ((hflying x).mp hx).2) (fun t' x hx => ?_) h.nodup
  · by_cases heq : r' = c
    · subst heq
      have hsubmitted := (hok'.submitted (.inr ⟨t, hc⟩)).1
      exact hstage r' a' a' hsubmitted hsubmitted hok'
    · rw [Function.update_of_ne heq]
      exact hok'.congr (by rw [hflying, and_iff_right heq])
  · simp only [hmarks] at hx ⊢
    split at hx
    case isTrue => exact nomatch hx
    case isFalse =>
      refine ⟨(h.once hx).1, fun t'' h'' => ?_⟩
      split at h''
      case isTrue => exact nomatch h''
      case isFalse => exact (h.once hx).2 t'' h''

/-- **A task takes a free slot.** -/
theorem alloc (h : SlotsInv view state queue) (hview : view t = none) (hr : r < 32) (hfree : state r = 0) :
    SlotsInv (Function.update view t (some (r, .allocated))) (Function.update state r 1) queue := by
  obtain ⟨howned, hnot⟩ := h.not_owned hfree
  have hmarks := marksOf_same (x := some (r, .allocated)) (marksOf_of_view hview).symm
  have hflying : ∀ x, Flying _ queue x ↔ Flying view queue x := flying_congr hmarks (fun _ => Iff.rfl)
  refine ⟨fun {t₁ t₂ x a₁ a₂} h₁ h₂ => ?_, fun {t' x a'} h' => ?_, fun {x} hx => ?_,
    fun {t' c} hc => ?_, h.nodup⟩
  -- a free slot has no owner, and no command of it is on its way
  · rw [view_update] at h₁ h₂
    split at h₁
    case isTrue heq₁ =>
      obtain ⟨rfl, rfl⟩ := Prod.mk.inj (Option.some.inj h₁)
      split at h₂
      case isTrue heq₂ => exact heq₁.trans heq₂.symm
      case isFalse => exact absurd h₂ (howned _ _)
    case isFalse =>
      split at h₂
      case isTrue =>
        obtain ⟨rfl, rfl⟩ := Prod.mk.inj (Option.some.inj h₂)
        exact absurd h₁ (howned _ _)
      case isFalse => exact h.owner h₁ h₂
  · rw [view_update] at h'
    split at h'
    case isTrue =>
      obtain ⟨rfl, rfl⟩ := Prod.mk.inj (Option.some.inj h')
      exact ⟨hr, Function.update_self .., fun hx => hnot ((hflying r).mp hx)⟩
    case isFalse =>
      have hne : x ≠ r := by
        rintro rfl
        exact howned _ _ h'
      rw [Function.update_of_ne hne]
      exact ⟨(h.slot h').1, (h.slot h').2.congr (hflying x)⟩
  · obtain ⟨t', a', hview'⟩ := h.flying ((hflying x).mp hx)
    have hne : t' ≠ t := by
      rintro rfl
      rw [hview] at hview'
      exact nomatch hview'
    exact ⟨t', a', by rw [Function.update_of_ne hne, hview']⟩
  · simp only [hmarks] at hc ⊢
    exact h.once hc

/-- **A task gives its slot back.** -/
theorem finish (h : SlotsInv view state queue) (hview : view t = some (r, .leaving)) :
    SlotsInv (Function.update view t none) (Function.update state r 0) queue := by
  obtain ⟨-, hnot⟩ := (h.slot hview).2
  have hmarks := marksOf_same (x := none) (marksOf_of_view hview).symm
  have hflying : ∀ x, Flying _ queue x ↔ Flying view queue x := flying_congr hmarks (fun _ => Iff.rfl)
  have hkeep : ∀ {t' x a'}, Function.update view t none t' = some (x, a') → view t' =
      some (x, a') ∧ x ≠ r := by
    intro t' x a' h'
    rw [view_update] at h'
    split at h'
    case isTrue => exact nomatch h'
    case isFalse hne =>
      refine ⟨h', ?_⟩
      rintro rfl
      exact hne (h.owner h' hview)
  refine ⟨fun h₁ h₂ => h.owner (hkeep h₁).1 (hkeep h₂).1, fun {t' x a'} h' => ?_, fun {x} hx => ?_,
    fun {t' c} hc => ?_, h.nodup⟩
  · obtain ⟨hold, hne⟩ := hkeep h'
    rw [Function.update_of_ne hne]
    exact ⟨(h.slot hold).1, (h.slot hold).2.congr (hflying x)⟩
  · obtain ⟨t', a', hview'⟩ := h.flying ((hflying x).mp hx)
    have hne : t' ≠ t := by
      rintro rfl
      rw [hview] at hview'
      obtain ⟨rfl, rfl⟩ := Prod.mk.inj (Option.some.inj hview')
      exact hnot ((hflying r).mp hx)
    exact ⟨t', a', by rw [Function.update_of_ne hne, hview']⟩
  · simp only [hmarks] at hc ⊢
    exact h.once hc

end SlotsInv

end Slots

end Keuos.Nvme
