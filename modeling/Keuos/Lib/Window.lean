import Mathlib.Data.List.Range
import Mathlib.Data.UInt
import Mathlib.Logic.Function.Basic
import Mathlib.Tactic.Common

/-!
# Rings with free-running indices

A ring has `size` entries, and its two ends are 16-bit counters that are never reduced: entry `i` is at
position `i % size`.  `window ring size start n` is the list of the `n` entries from the counter `start`
on.  Where `size` divides `2 ^ 16` the positions go on smoothly when a counter wraps, and an entry written
behind fewer than `size` others overwrites none of them.
-/

namespace Keuos

variable {α : Type*}

/-- The entries `start`, …, `start + n - 1`. -/
def window (ring : UInt16 → α) (size start : UInt16) (n : Nat) : List α :=
  (List.range n).map fun k => ring ((start + UInt16.ofNat k) % size)

@[simp] theorem window_zero (ring : UInt16 → α) (size start : UInt16) :
    window ring size start 0 = [] := rfl

theorem window_succ (ring : UInt16 → α) (size start : UInt16) (n : Nat) :
    window ring size start (n + 1) = ring (start % size) :: window ring size (start + 1) n := by
  unfold window
  rw [List.range_succ_eq_map, List.map_cons, List.map_map]
  congr 1
  · rw [show UInt16.ofNat 0 = 0 from rfl, UInt16.add_zero]
  · apply List.map_congr_left
    intro k _
    simp only [Function.comp_apply, Nat.succ_eq_add_one]
    rw [UInt16.ofNat_add, UInt16.add_assoc, UInt16.add_comm 1]
    rfl

theorem position_ne {size start : UInt16} (hsize : size.toNat ∣ 2 ^ 16) {j k : Nat} (hjk : j < k)
    (hk : k < size.toNat) :
    (start + UInt16.ofNat j) % size ≠ (start + UInt16.ofNat k) % size := by
  intro heq
  have hnat := congrArg UInt16.toNat heq
  have hpos : ∀ i, ((start + UInt16.ofNat i) % size).toNat = (start.toNat + i) % size.toNat := by
    intro i
    rw [UInt16.toNat_mod, UInt16.toNat_add, UInt16.toNat_ofNat', Nat.add_mod_mod,
      Nat.mod_mod_of_dvd _ hsize]
  rw [hpos, hpos] at hnat
  have hdvd : size.toNat ∣ k - j := by
    have hmod : start.toNat + j ≡ start.toNat + k [MOD size.toNat] := hnat
    have hsub := (Nat.modEq_iff_dvd' (by omega)).mp hmod
    rwa [Nat.add_sub_add_left] at hsub
  exact absurd (Nat.le_of_dvd (by omega) hdvd) (by omega)

/-- The `n` entries from `start` on leave the position of the next one alone. -/
def Room (size start : UInt16) (n : Nat) : Prop :=
  ∀ k < n, (start + UInt16.ofNat k) % size ≠ (start + UInt16.ofNat n) % size

theorem room_of_lt {size start : UInt16} (hsize : size.toNat ∣ 2 ^ 16) {n : Nat} (hn : n < size.toNat) :
    Room size start n := by
  intro k hk
  exact position_ne hsize hk hn

theorem window_push_of_room {ring : UInt16 → α} {size start : UInt16} {n : Nat} (h : Room size start n)
    (a : α) :
    window (Function.update ring ((start + UInt16.ofNat n) % size) a) size start (n + 1) =
      window ring size start n ++ [a] := by
  unfold window
  rw [List.range_succ, List.map_append, List.map_singleton, Function.update_self]
  congr 1
  apply List.map_congr_left
  intro k hk
  exact Function.update_of_ne (h k (List.mem_range.mp hk)) _ _

end Keuos
