import Keuos.Tcp.SynCookie
import Mathlib.Tactic.Ring

/-!
# The lifetime of a SYN cookie

A cookie should be valid in its window of 64 ticks and in the two after it.  The windows are kept modulo 32
and compared by their absolute difference, so the check goes wrong where the counter wraps around: a cookie
of window 31 is refused in window 32, and every cookie is accepted again 32 windows later.

## Main results

* `cookie_fields` – the three fields of a cookie are read back.
* `validate_window_iff` – the cookie window law, and when it holds.
-/

namespace Keuos.Tcp

section Fields

variable (key : Secret) (tick : UInt64) (t : Tuple) (clientIsn : UInt32)

theorem window_toNat : (window tick).toNat = tick.toNat / 64 % 32 := by
  unfold window
  have hmask : (31 : UInt32).toNat = 2 ^ 5 - 1 := rfl
  rw [UInt32.toNat_and, hmask, Nat.and_two_pow_sub_one_eq_mod, UInt64.toNat_toUInt32,
    UInt64.toNat_shiftRight]
  have hsix : (6 : UInt64).toNat % 64 = 6 := rfl
  rw [hsix, Nat.shiftRight_eq_div_pow]
  omega

theorem cookieHash_lt : (cookieHash key t clientIsn).toNat < 2 ^ 24 := by
  unfold cookieHash
  dsimp only
  have hmask : (0x00FFFFFF : UInt32).toNat = 2 ^ 24 - 1 := rfl
  rw [UInt32.toNat_and, hmask, Nat.and_two_pow_sub_one_eq_mod]
  exact Nat.mod_lt _ (by decide)

theorem cookie_toNat : (generateSynCookie key tick t clientIsn).toNat =
    (tick.toNat / 64 % 32) * 2 ^ 27 + 3 * 2 ^ 24 + (cookieHash key t clientIsn).toNat := by
  have hhash := cookieHash_lt key t clientIsn
  have hwindow := window_toNat tick
  have hlt : (window tick).toNat < 32 := by
    rw [hwindow]
    exact Nat.mod_lt _ (by decide)
  have htime : (window tick <<< 27).toNat = (window tick).toNat <<< 27 := by
    rw [UInt32.toNat_shiftLeft, Nat.shiftLeft_eq, Nat.shiftLeft_eq]
    have h27 : (27 : UInt32).toNat % 32 = 27 := rfl
    rw [h27]
    omega
  have hmss : (((mssDefault &&& 7) <<< 24 : UInt32)).toNat = 3 <<< 24 := rfl
  have hcookie : ((window tick <<< 27) ||| ((mssDefault &&& 7) <<< 24) |||
      cookieHash key t clientIsn).toNat =
      (window tick).toNat * 2 ^ 27 + 3 * 2 ^ 24 + (cookieHash key t clientIsn).toNat := by
    rw [UInt32.toNat_or, UInt32.toNat_or, htime, hmss, Nat.or_assoc,
      ← Nat.shiftLeft_add_eq_or_of_lt hhash, Nat.shiftLeft_eq 3,
      ← Nat.shiftLeft_add_eq_or_of_lt (by omega), Nat.shiftLeft_eq]
    ring
  unfold generateSynCookie
  dsimp only
  rw [if_neg, hcookie, hwindow]
  intro hzero
  have hzero := congrArg UInt32.toNat (beq_iff_eq.mp hzero)
  rw [hcookie, UInt32.toNat_zero] at hzero
  omega

/-- **A cookie is read back**: its window, its hash and its segment size. -/
theorem cookie_fields :
    (generateSynCookie key tick t clientIsn >>> 27) &&& 31 = window tick ∧
      generateSynCookie key tick t clientIsn &&& 0x00FFFFFF = cookieHash key t clientIsn ∧
      extractMss (generateSynCookie key tick t clientIsn) = 1460 := by
  have hcookie := cookie_toNat key tick t clientIsn
  have hhash := cookieHash_lt key t clientIsn
  have hmask5 : (31 : UInt32).toNat = 2 ^ 5 - 1 := rfl
  have hmask24 : (0x00FFFFFF : UInt32).toNat = 2 ^ 24 - 1 := rfl
  have hmask3 : (7 : UInt32).toNat = 2 ^ 3 - 1 := rfl
  have h27 : (27 : UInt32).toNat % 32 = 27 := rfl
  have h24 : (24 : UInt32).toNat % 32 = 24 := rfl
  refine ⟨?_, ?_, ?_⟩
  · rw [← UInt32.toNat_inj, UInt32.toNat_and, hmask5, Nat.and_two_pow_sub_one_eq_mod,
      UInt32.toNat_shiftRight, h27, Nat.shiftRight_eq_div_pow, hcookie, window_toNat]
    omega
  · rw [← UInt32.toNat_inj, UInt32.toNat_and, hmask24, Nat.and_two_pow_sub_one_eq_mod, hcookie]
    omega
  · have hindex : (generateSynCookie key tick t clientIsn >>> 24) &&& 7 = 3 := by
      rw [← UInt32.toNat_inj, UInt32.toNat_and, hmask3, Nat.and_two_pow_sub_one_eq_mod,
        UInt32.toNat_shiftRight, h24, Nat.shiftRight_eq_div_pow, hcookie]
      have h3 : (3 : UInt32).toNat = 3 := rfl
      rw [h3]
      omega
    unfold extractMss
    rw [hindex]
    rfl

end Fields

theorem validate_iff (key : Secret) (t : Tuple) (clientIsn : UInt32) (tick tick' : UInt64) :
    validateSynCookie key tick' (generateSynCookie key tick t clientIsn) t clientIsn = true ↔
      tick'.toNat / 64 % 32 ≤ tick.toNat / 64 % 32 + 2 ∧
        tick.toNat / 64 % 32 ≤ tick'.toNat / 64 % 32 + 2 := by
  obtain ⟨htime, hhash, -⟩ := cookie_fields key tick t clientIsn
  have hw := window_toNat tick
  have hw' := window_toNat tick'
  unfold validateSynCookie
  rw [htime, hhash]
  dsimp only
  have h2 : (2 : UInt32).toNat = 2 := rfl
  by_cases hle : window tick' ≥ window tick
  · rw [if_pos hle]
    have hle' := UInt32.le_iff_toNat_le.mp hle
    have hsub : (window tick' - window tick).toNat = (window tick').toNat - (window tick).toNat :=
      UInt32.toNat_sub_of_le _ _ hle
    have hdt : window tick' - window tick > 2 ↔ 2 < (window tick').toNat - (window tick).toNat := by
      rw [gt_iff_lt, UInt32.lt_iff_toNat_lt, hsub, h2]
    by_cases hgt : window tick' - window tick > 2
    · rw [if_pos hgt]
      have := hdt.mp hgt
      simp only [Bool.false_eq_true, false_iff]
      omega
    · rw [if_neg hgt]
      have := mt hdt.mpr hgt
      simp only [beq_self_eq_true, true_iff]
      omega
  · rw [if_neg hle]
    have hlt := UInt32.not_le.mp hle
    have hlt' := UInt32.lt_iff_toNat_lt.mp hlt
    have hsub : (window tick - window tick').toNat = (window tick).toNat - (window tick').toNat :=
      UInt32.toNat_sub_of_le _ _ (UInt32.le_of_lt hlt)
    have hdt : window tick - window tick' > 2 ↔ 2 < (window tick).toNat - (window tick').toNat := by
      rw [gt_iff_lt, UInt32.lt_iff_toNat_lt, hsub, h2]
    by_cases hgt : window tick - window tick' > 2
    · rw [if_pos hgt]
      have := hdt.mp hgt
      simp only [Bool.false_eq_true, false_iff]
      omega
    · rw [if_neg hgt]
      have := mt hdt.mpr hgt
      simp only [beq_self_eq_true, true_iff]
      omega

/-- The law for the cookie of tick `tick` at tick `tick'`: it is valid in its window and the two after it, and
holds the default segment size. -/
def CookieLaw (key : Secret) (t : Tuple) (clientIsn : UInt32) (tick tick' : UInt64) : Prop :=
  (validateSynCookie key tick' (generateSynCookie key tick t clientIsn) t clientIsn = true ↔
      tick'.toNat / 64 - tick.toNat / 64 ≤ 2) ∧
    extractMss (generateSynCookie key tick t clientIsn) = 1460

/-- **The cookie window law** holds if and only if the five-bit counter does not wrap around in the
lifetime of the cookie, and the later windows do not come within two of it modulo 32 again. -/
theorem validate_window_iff (key : Secret) (t : Tuple) (clientIsn : UInt32) (tick tick' : UInt64)
    (h : tick ≤ tick') :
    CookieLaw key t clientIsn tick tick' ↔
      (tick'.toNat / 64 - tick.toNat / 64 ≤ 2 →
        tick.toNat / 64 % 32 + (tick'.toNat / 64 - tick.toNat / 64) < 32) ∧
      (2 < tick'.toNat / 64 - tick.toNat / 64 →
        tick.toNat / 64 % 32 + 2 < tick'.toNat / 64 % 32 ∨
          tick'.toNat / 64 % 32 + 2 < tick.toNat / 64 % 32) := by
  obtain ⟨-, -, hmss⟩ := cookie_fields key tick t clientIsn
  have hle : tick.toNat / 64 ≤ tick'.toNat / 64 :=
    Nat.div_le_div_right (UInt64.le_iff_toNat_le.mp h)
  unfold CookieLaw
  rw [validate_iff, and_iff_left hmss]
  generalize tick.toNat / 64 = w at hle ⊢
  generalize tick'.toNat / 64 = w' at hle ⊢
  omega

theorem validate_window_iff_zero : CookieLaw ⟨0, 0⟩ ⟨0, 0, 0, 0⟩ 0 0 128 :=
  (validate_window_iff ⟨0, 0⟩ ⟨0, 0, 0, 0⟩ 0 0 128 (by decide)).mpr (by decide)

/-- A cookie of window 31 is refused in window 32. -/
theorem not_cookieLaw_wrap : ¬CookieLaw ⟨0, 0⟩ ⟨0, 0, 0, 0⟩ 0 1984 2048 := by
  intro h
  have hvalid := h.1.mpr (by decide)
  rw [validate_iff] at hvalid
  exact absurd hvalid (by decide)

end Keuos.Tcp
