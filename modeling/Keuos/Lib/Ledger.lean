import Mathlib.Data.List.Count

/-!
# Ledgers of an allocator

A ledger lists what an allocator handed out, and to whom, and what was given back to it, with the latest
entry first.  `owner x l` is the owner to whom `x` was last handed out, and `frees x l` counts how often
`x` was given back since: what is given back and handed out again starts anew.

`frees x l ≤ 1` in every state of a run is freedom from double frees.
-/

namespace Keuos.Ledger

/-- An entry of a ledger. -/
inductive Entry (ω α : Type*) where
  | handed (o : ω) (x : α)
  | freed (x : α)

variable {ω α : Type*} [DecidableEq α]

/-- The last owner of `x`. -/
def owner (x : α) : List (Entry ω α) → Option ω
  | [] => none
  | .handed o y :: l => if y = x then some o else owner x l
  | .freed _ :: l => owner x l

/-- How often `x` was given back since it was last handed out. -/
def frees (x : α) : List (Entry ω α) → Nat
  | [] => 0
  | .handed _ y :: l => if y = x then 0 else frees x l
  | .freed y :: l => if y = x then frees x l + 1 else frees x l

section Entries

variable {x y : α} {o : ω} {l : List (Entry ω α)}

@[simp] theorem owner_handed_self : owner x (.handed o x :: l) = some o := if_pos rfl

theorem owner_handed_of_ne (h : y ≠ x) : owner x (.handed o y :: l) = owner x l := if_neg h

@[simp] theorem owner_freed : owner x (.freed y :: l) = owner x l := rfl

@[simp] theorem frees_handed_self : frees x (.handed o x :: l) = 0 := if_pos rfl

theorem frees_handed_of_ne (h : y ≠ x) : frees x (.handed o y :: l) = frees x l := if_neg h

@[simp] theorem frees_freed_self : frees x (.freed x :: l) = frees x l + 1 := if_pos rfl

theorem frees_freed_of_ne (h : y ≠ x) : frees x (.freed y :: l) = frees x l := if_neg h

end Entries

/-! ### Several entries at once -/

/-- The things `xs` are given back, one after the other. -/
def freeAll (xs : List α) (l : List (Entry ω α)) : List (Entry ω α) :=
  xs.foldl (fun l x => .freed x :: l) l

/-- The things `xs` are handed out to `o`, one after the other. -/
def handAll (o : ω) (xs : List α) (l : List (Entry ω α)) : List (Entry ω α) :=
  xs.foldl (fun l x => .handed o x :: l) l

theorem owner_freeAll (x : α) (xs : List α) (l : List (Entry ω α)) :
    owner x (freeAll xs l) = owner x l := by
  induction xs generalizing l with
  | nil => rfl
  | cons y xs ih => exact ih (.freed y :: l)

theorem frees_freeAll (x : α) (xs : List α) (l : List (Entry ω α)) :
    frees x (freeAll xs l) = frees x l + xs.count x := by
  induction xs generalizing l with
  | nil => rfl
  | cons y xs ih =>
    rw [show freeAll (y :: xs) l = freeAll xs (.freed y :: l) from rfl, ih]
    by_cases hy : y = x
    · subst hy
      rw [frees_freed_self, List.count_cons_self]
      omega
    · rw [frees_freed_of_ne hy, List.count_cons_of_ne hy]

section HandAll

variable {x : α} {xs : List α} (o : ω) (l : List (Entry ω α))

theorem owner_handAll_of_not_mem (h : x ∉ xs) : owner x (handAll o xs l) = owner x l := by
  induction xs generalizing l with
  | nil => rfl
  | cons y xs ih =>
    rw [List.mem_cons, not_or] at h
    obtain ⟨hy, hxs⟩ := h
    exact (ih _ hxs).trans (owner_handed_of_ne (Ne.symm hy))

theorem frees_handAll_of_not_mem (h : x ∉ xs) : frees x (handAll o xs l) = frees x l := by
  induction xs generalizing l with
  | nil => rfl
  | cons y xs ih =>
    rw [List.mem_cons, not_or] at h
    obtain ⟨hy, hxs⟩ := h
    exact (ih _ hxs).trans (frees_handed_of_ne (Ne.symm hy))

omit [DecidableEq α] in
theorem handAll_append (ys : List α) :
    handAll o (xs ++ ys) l = handAll o ys (handAll o xs l) :=
  List.foldl_append ..

theorem frees_handAll_of_mem (h : x ∈ xs) : frees x (handAll o xs l) = 0 := by
  induction xs generalizing l with
  | nil => cases h
  | cons y xs ih =>
    by_cases hxs : x ∈ xs
    · exact ih _ hxs
    · obtain rfl : x = y := by
        rcases List.mem_cons.mp h with hxy | hx
        · exact hxy
        · exact absurd hx hxs
      exact (frees_handAll_of_not_mem o _ hxs).trans frees_handed_self

theorem owner_handAll_of_mem (h : x ∈ xs) : owner x (handAll o xs l) = some o := by
  induction xs generalizing l with
  | nil => cases h
  | cons y xs ih =>
    by_cases hxs : x ∈ xs
    · exact ih _ hxs
    · obtain rfl : x = y := by
        rcases List.mem_cons.mp h with hxy | hx
        · exact hxy
        · exact absurd hx hxs
      exact (owner_handAll_of_not_mem o _ hxs).trans owner_handed_self

end HandAll

end Keuos.Ledger
