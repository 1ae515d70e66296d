import Mathlib.Data.List.Induction

/-!
# Leases

Something that at most one party has at a time: it is claimed, and whoever has it releases it.  What happened
so far is a list of events, and `holder` is who has it now.  A list of events is a legal history
(`Legal`) when nothing is claimed while somebody has it, and it is released only on behalf of its owner.
-/

namespace Keuos.Lease

/-- Claims carry a contract `β`; releases name the party `ω` on whose behalf they happen. -/
inductive Event (β ω : Type) where
  | claimed (b : β)
  | released (o : ω)
  deriving DecidableEq, Repr

variable {β ω : Type}

/-- The contract after one more event. -/
def next (_ : Option β) : Event β ω → Option β
  | .claimed b => some b
  | .released _ => none

/-- The contract that is in force after the events. -/
def holder (log : List (Event β ω)) : Option β :=
  log.foldl next none

/-- Those who released, in order. -/
def releases (log : List (Event β ω)) : List ω :=
  log.filterMap fun
    | .claimed _ => none
    | .released o => some o

/-- The legal histories, for contracts with an owner. -/
inductive Legal (owner : β → ω) : List (Event β ω) → Prop
  | nil : Legal owner []
  | claim {log : List (Event β ω)} (h : Legal owner log) (hfree : holder log = none) (b : β) :
      Legal owner (log ++ [.claimed b])
  | release {log : List (Event β ω)} (h : Legal owner log) {b : β} (hheld : holder log = some b) :
      Legal owner (log ++ [.released (owner b)])

@[simp] theorem holder_nil : holder ([] : List (Event β ω)) = none := rfl

@[simp] theorem holder_append (log : List (Event β ω)) (e : Event β ω) :
    holder (log ++ [e]) = next (holder log) e := by
  unfold holder
  rw [List.foldl_append]
  rfl

@[simp] theorem releases_claimed (log : List (Event β ω)) (b : β) :
    releases (log ++ [.claimed b]) = releases log := by
  simp [releases]

@[simp] theorem releases_released (log : List (Event β ω)) (o : ω) :
    releases (log ++ [.released o]) = releases log ++ [o] := by
  simp [releases]

theorem mem_of_holder {log : List (Event β ω)} {b : β} (h : holder log = some b) : .claimed b ∈ log := by
  induction log using List.reverseRecOn with
  | nil => exact absurd h (by simp)
  | append_singleton log e _ =>
    rw [holder_append] at h
    cases e with
    | claimed b' =>
      rw [Option.some_inj.mp h]
      exact List.mem_append_right _ (List.mem_singleton_self _)
    | released o => cases h

namespace Legal

variable {owner : β → ω} {log : List (Event β ω)}

theorem last {e : Event β ω} (h : Legal owner (log ++ [e])) :
    Legal owner log ∧ ((∃ b, e = .claimed b ∧ holder log = none) ∨
      ∃ b, e = .released (owner b) ∧ holder log = some b) := by
  generalize hlog : log ++ [e] = log' at h
  cases h with
  | nil => exact absurd hlog (by simp)
  | claim h hfree b =>
    obtain ⟨rfl, heq⟩ := List.append_inj' hlog rfl
    exact ⟨h, .inl ⟨b, List.singleton_inj.mp heq, hfree⟩⟩
  | release h hheld =>
    obtain ⟨rfl, heq⟩ := List.append_inj' hlog rfl
    exact ⟨h, .inr ⟨_, List.singleton_inj.mp heq, hheld⟩⟩

theorem left {after : List (Event β ω)} (h : Legal owner (log ++ after)) : Legal owner log := by
  induction after using List.reverseRecOn with
  | nil => simpa using h
  | append_singleton after e ih =>
    apply ih
    rw [← List.append_assoc] at h
    exact h.last.1

/-- **It is released on behalf of its owner only.** -/
theorem owner_of_released {before after : List (Event β ω)} {o : ω}
    (h : Legal owner (before ++ .released o :: after)) :
    ∃ b, holder before = some b ∧ owner b = o := by
  rw [List.append_cons] at h
  obtain ⟨-, ⟨b, heq, -⟩ | ⟨b, heq, hheld⟩⟩ := h.left.last
  · cases heq
  · exact ⟨b, hheld, (Event.released.inj heq).symm⟩

theorem held_or_released {mid : List (Event β ω)} {b : β}
    (h : Legal owner (log ++ .claimed b :: mid)) :
    (∃ b', holder (log ++ .claimed b :: mid) = some b') ∨ ∃ o, .released o ∈ mid := by
  induction mid using List.reverseRecOn with
  | nil =>
    rw [holder_append]
    exact .inl ⟨b, rfl⟩
  | append_singleton mid e _ =>
    cases e with
    | claimed b' =>
      rw [← List.cons_append, ← List.append_assoc, holder_append]
      exact .inl ⟨b', rfl⟩
    | released o => exact .inr ⟨o, List.mem_append_right _ (List.mem_singleton_self _)⟩

/-- **Between two claims there is a release.** -/
theorem released_between {before mid after : List (Event β ω)} {b b' : β}
    (h : Legal owner (before ++ .claimed b :: (mid ++ .claimed b' :: after))) :
    ∃ o, .released o ∈ mid := by
  have hsplit : before ++ .claimed b :: (mid ++ .claimed b' :: after) =
      (before ++ .claimed b :: mid) ++ [.claimed b'] ++ after := by
    simp
  rw [hsplit] at h
  obtain ⟨hlegal, ⟨b₀, -, hfree⟩ | ⟨b₀, heq, -⟩⟩ := h.left.last
  · obtain ⟨b₁, hheld⟩ | hreleased := hlegal.held_or_released
    · rw [hfree] at hheld
      cases hheld
    · exact hreleased
  · cases heq

end Legal

end Keuos.Lease
