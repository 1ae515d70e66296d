import Keuos.Lib.Spsc

/-!
# Circular queues

Two indices below `size` mark a queue in an array of `size` slots: `span size t h` is the way from the tail
`t` around to the head `h`, and `contents slots size t h` lists the slots on it.  Each of the two ends moves
by one lemma: the head appends a slot (`contents_head`) and the tail takes the first one (`contents_tail`).
The head cannot go around to the tail, so a queue holds fewer than `size` entries.
-/

namespace Keuos.Circular

open Spsc

universe u

/-- The number of slots from the tail up to the head. -/
def span (size tail head : Nat) : Nat :=
  (head + size - tail) % size

section Span

variable {c t h n : Nat}

theorem span_lt (hc : 0 < c) : span c t h < c :=
  Nat.mod_lt _ hc

theorem add_span (ht : t < c) (hh : h < c) : (t + span c t h) % c = h := by
  unfold span
  rw [Nat.add_mod_mod, show t + (h + c - t) = h + c by omega, Nat.add_mod_right, Nat.mod_eq_of_lt hh]

theorem span_eq (ht : t < c) (hn : n < c) (hhead : (t + n) % c = h) : span c t h = n := by
  have hh : h < c := hhead ▸ Nat.mod_lt _ (Nat.zero_lt_of_lt ht)
  apply add_mod_inj ht (span_lt (Nat.zero_lt_of_lt ht)) hn
  rw [add_span ht hh, hhead]

theorem span_eq_zero_iff (ht : t < c) (hh : h < c) : span c t h = 0 ↔ h = t := by
  constructor
  · intro hzero
    rw [← add_span ht hh, hzero, Nat.add_zero, Nat.mod_eq_of_lt ht]
  · rintro rfl
    apply span_eq hh (Nat.zero_lt_of_lt hh)
    rw [Nat.add_zero, Nat.mod_eq_of_lt hh]

theorem span_of_le (hle : t ≤ h) (hh : h < c) : span c t h = h - t := by
  apply span_eq (Nat.lt_of_le_of_lt hle hh) (by omega)
  rw [Nat.add_sub_of_le hle, Nat.mod_eq_of_lt hh]

theorem span_succ_lt (ht : t < c) (hh : h < c) (hroom : (h + 1) % c ≠ t) : span c t h + 1 < c := by
  have hlt := span_lt (t := t) (h := h) (Nat.zero_lt_of_lt ht)
  by_contra hge
  -- a distance of `c - 1` would lead from the tail once around
  have hfull : span c t h + 1 = c := by omega
  apply hroom
  rw [← add_span ht hh, Nat.mod_add_mod, Nat.add_assoc, hfull, Nat.add_mod_right, Nat.mod_eq_of_lt ht]

theorem span_next_head (ht : t < c) (hh : h < c) (hroom : span c t h + 1 < c) :
    span c t ((h + 1) % c) = span c t h + 1 := by
  apply span_eq ht hroom
  rw [← Nat.add_assoc, ← Nat.mod_add_mod, add_span ht hh]

theorem span_next_tail (ht : t < c) (hh : h < c) (hne : h ≠ t) :
    span c t h = span c ((t + 1) % c) h + 1 := by
  have hc := Nat.zero_lt_of_lt ht
  have hlt := span_lt (t := t) (h := h) hc
  have hpos : span c t h ≠ 0 := mt (span_eq_zero_iff ht hh).mp hne
  have hspan : span c ((t + 1) % c) h = span c t h - 1 := by
    apply span_eq (Nat.mod_lt _ hc) (by omega)
    rw [Nat.mod_add_mod, show t + 1 + (span c t h - 1) = t + span c t h by omega, add_span ht hh]
  omega

end Span

section Contents

variable {α : Type u} {slots slots' : Nat → α} {c t h : Nat}

/-- The slots from the tail up to the head. -/
def contents (slots : Nat → α) (size tail head : Nat) : List α :=
  entries slots size tail (span size tail head)

theorem length_contents : (contents slots c t h).length = span c t h :=
  length_entries ..

theorem contents_self (ht : t < c) : contents slots c t t = [] := by
  rw [← List.length_eq_zero_iff, length_contents, span_eq_zero_iff ht ht]

theorem contents_congr (hslots : ∀ j < span c t h, slots' ((t + j) % c) = slots ((t + j) % c)) :
    contents slots' c t h = contents slots c t h := by
  unfold contents entries
  apply List.map_congr_left
  intro j hj
  exact hslots j (List.mem_range.mp hj)

theorem contents_congr_head (ht : t < c) (hh : h < c) (hslots : ∀ k < c, k ≠ h → slots' k = slots k) :
    contents slots' c t h = contents slots c t h := by
  have hc := Nat.zero_lt_of_lt ht
  apply contents_congr
  intro j hj
  apply hslots _ (Nat.mod_lt _ hc)
  intro heq
  rw [← add_span ht hh] at heq
  exact Nat.ne_of_lt hj (add_mod_inj ht (Nat.lt_trans hj (span_lt hc)) (span_lt hc) heq)

theorem contents_head (ht : t < c) (hh : h < c) (hroom : span c t h + 1 < c) :
    contents slots c t ((h + 1) % c) = contents slots c t h ++ [slots h] := by
  unfold contents
  rw [span_next_head ht hh hroom, entries_succ, add_span ht hh]

theorem contents_tail (ht : t < c) (hh : h < c) (hne : h ≠ t) :
    contents slots c t h = slots t :: contents slots c ((t + 1) % c) h := by
  unfold contents
  rw [span_next_tail ht hh hne, entries_cons ht]

end Contents

end Keuos.Circular
