import Mathlib.Data.List.Dedup

/-!
# The order of latest use

`recent uses` is the list of the distinct keys of a sequence of uses, the most recently used one
first.  A cache of `n` keys that always gives up the least recently used one holds the first `n`
of them: a use of a cached key moves it to the front (`take_recent_of_mem`), a use of another key
puts it there and drops the last of the `n` (`take_recent_of_notMem`).
-/

namespace Keuos

variable {α : Type*} [DecidableEq α]

/-- The distinct keys of a sequence of uses, the most recently used one first. -/
def recent (uses : List α) : List α := uses.dedup.reverse

theorem dedup_append_singleton (uses : List α) (k : α) :
    (uses ++ [k]).dedup = uses.dedup.filter (· ≠ k) ++ [k] := by
  induction uses with
  | nil => rfl
  | cons a uses ih =>
    rw [List.cons_append]
    by_cases ha : a ∈ uses
    · rw [List.dedup_cons_of_mem (List.mem_append_left _ ha), List.dedup_cons_of_mem ha, ih]
    · rw [List.dedup_cons_of_notMem ha]
      by_cases hak : a = k
      · -- The earlier use of `k` is a duplicate of the last one.
        rw [List.dedup_cons_of_mem (List.mem_append_right _ (List.mem_singleton.mpr hak)), ih,
          List.filter_cons_of_neg (by simpa using hak)]
      · have hnot : a ∉ uses ++ [k] := by simp [ha, hak]
        rw [List.dedup_cons_of_notMem hnot, ih, List.filter_cons_of_pos (by simpa using hak)]
        rfl

/-- **A use moves its key to the front.** -/
theorem recent_append_singleton (uses : List α) (k : α) :
    recent (uses ++ [k]) = k :: (recent uses).filter (· ≠ k) := by
  unfold recent
  rw [dedup_append_singleton, List.reverse_append, List.filter_reverse]
  rfl

theorem nodup_recent (uses : List α) : (recent uses).Nodup :=
  List.nodup_reverse.mpr (List.nodup_dedup uses)

@[simp] theorem recent_nil : recent ([] : List α) = [] := rfl

theorem length_filter_ne {l : List α} (hnodup : l.Nodup) {k : α} (hk : k ∈ l) :
    (l.filter (· ≠ k)).length + 1 = l.length := by
  have herase : l.filter (· ≠ k) = l.erase k := by
    rw [hnodup.erase_eq_filter]
    apply List.filter_congr
    intro a _
    by_cases hak : a = k <;> simp [hak]
  have := List.length_pos_of_mem hk
  rw [herase, List.length_erase_of_mem hk]
  omega

/-- **A use of one of the `n` keys** reorders them. -/
theorem take_recent_of_mem {uses : List α} {n : Nat} {k : α} (hk : k ∈ (recent uses).take n) :
    (recent (uses ++ [k])).take n = k :: ((recent uses).take n).filter (· ≠ k) := by
  have hnodup := nodup_recent uses
  have hsplit := List.take_append_drop n (recent uses)
  rw [← hsplit] at hnodup
  have hrest : ((recent uses).drop n).filter (· ≠ k) = (recent uses).drop n := by
    apply List.filter_eq_self.mpr
    intro a ha
    have hne : a ≠ k := fun hak => (List.nodup_append.mp hnodup).2.2 k hk a ha hak.symm
    simpa using hne
  have hlen := length_filter_ne (List.nodup_append.mp hnodup).1 hk
  have htake := List.length_take (i := n) (l := recent uses)
  obtain ⟨m, rfl⟩ : ∃ m, n = m + 1 := ⟨n - 1, by omega⟩
  rw [recent_append_singleton, List.take_succ_cons]
  congr 1
  conv_lhs => rw [← hsplit, List.filter_append, hrest]
  by_cases hfull : m + 1 ≤ (recent uses).length
  · exact List.take_left' (by omega)
  · rw [List.drop_eq_nil_of_le (by omega), List.append_nil, List.take_of_length_le (by omega)]

/-- **A use of a key that is not among the first `n`** leaves these behind it. -/
theorem take_recent_of_notMem {uses : List α} {n : Nat} {k : α} (hk : k ∉ (recent uses).take n) :
    (recent (uses ++ [k])).take (n + 1) = k :: (recent uses).take n := by
  have hkeep : ((recent uses).take n).filter (· ≠ k) = (recent uses).take n := by
    apply List.filter_eq_self.mpr
    intro a ha
    have hne : a ≠ k := by
      rintro rfl
      exact hk ha
    simpa using hne
  rw [recent_append_singleton, List.take_succ_cons]
  congr 1
  conv_lhs => rw [← List.take_append_drop n (recent uses), List.filter_append, hkeep]
  by_cases hfull : n ≤ (recent uses).length
  · exact List.take_left' (by rw [List.length_take]; omega)
  · rw [List.drop_eq_nil_of_le (by omega), List.filter_nil, List.append_nil,
      List.take_of_length_le (by rw [List.length_take]; omega)]

end Keuos
