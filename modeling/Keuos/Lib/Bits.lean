import Mathlib.Data.Nat.Bitwise
import Mathlib.Data.UInt
import Mathlib.Tactic.Common

/-!
# Bits of a machine word

`bit x i` is bit `i` of the 64-bit word `x`, for every natural number `i` (bits from 64 up are
clear).  The word operations act bitwise, `1 <<< k` has the single bit `k`, and `ctz x` is the
position of the lowest set bit.
-/

namespace Keuos

/-- Bit `i` of a word. -/
def bit (x : UInt64) (i : Nat) : Bool := x.toNat.testBit i

/-- The word with every bit set. -/
def allOnes : UInt64 := 0xFFFFFFFFFFFFFFFF

/-- The number of trailing zeros of a word, `64` for the word `0`. -/
def ctz (x : UInt64) : UInt64 :=
  UInt64.ofNat (((List.range 64).find? (bit x)).getD 64)

/-! ### The word operations -/

@[simp] theorem bit_zero (i : Nat) : bit 0 i = false := by
  simp [bit]

theorem bit_of_le (x : UInt64) {i : Nat} (hi : 64 ≤ i) : bit x i = false :=
  Nat.testBit_lt_two_pow (lt_of_lt_of_le x.toNat_lt (Nat.pow_le_pow_right (by omega) hi))

@[simp] theorem bit_or (x y : UInt64) (i : Nat) : bit (x ||| y) i = (bit x i || bit y i) := by
  unfold bit
  rw [UInt64.toNat_or, Nat.testBit_or]

@[simp] theorem bit_and (x y : UInt64) (i : Nat) : bit (x &&& y) i = (bit x i && bit y i) := by
  unfold bit
  rw [UInt64.toNat_and, Nat.testBit_and]

@[simp] theorem bit_xor (x y : UInt64) (i : Nat) : bit (x ^^^ y) i = (bit x i ^^ bit y i) := by
  unfold bit
  rw [UInt64.toNat_xor, Nat.testBit_xor]

@[simp] theorem bit_allOnes (i : Nat) : bit allOnes i = decide (i < 64) :=
  Nat.testBit_two_pow_sub_one 64 i

theorem bit_one_shiftLeft {k : UInt64} (hk : k.toNat < 64) (i : Nat) :
    bit (1 <<< k) i = decide (k.toNat = i) := by
  unfold bit
  rw [UInt64.toNat_shiftLeft, UInt64.toNat_one, Nat.mod_eq_of_lt hk, Nat.one_shiftLeft,
    Nat.mod_eq_of_lt (Nat.pow_lt_pow_right (by omega) hk), Nat.testBit_two_pow]

theorem bit_one (i : Nat) : bit 1 i = decide (0 = i) := by
  unfold bit
  rw [UInt64.toNat_one, ← Nat.pow_zero 2, Nat.testBit_two_pow]

theorem and_midBits {w k : Nat} (hk : k ≤ w) (n : Nat) :
    n &&& (2 ^ w - 2 ^ k) = n % 2 ^ w / 2 ^ k * 2 ^ k := by
  have hmask : 2 ^ w - 2 ^ k = (2 ^ (w - k) - 1) * 2 ^ k := by
    rw [Nat.sub_mul, ← Nat.pow_add, Nat.sub_add_cancel hk, Nat.one_mul]
  apply Nat.eq_of_testBit_eq
  intro i
  rw [hmask, Nat.testBit_and, Nat.testBit_mul_two_pow, Nat.testBit_mul_two_pow,
    Nat.testBit_div_two_pow, Nat.testBit_mod_two_pow, Nat.testBit_two_pow_sub_one]
  by_cases hki : k ≤ i
  · rw [Nat.sub_add_cancel hki]
    by_cases hi : i < w
    · have hlt : i - k < w - k := by omega
      simp [hi, hki, hlt]
    · have hlt : ¬ i - k < w - k := by omega
      simp [hi, hlt]
  · simp [hki]

theorem and_highBits {w k n : Nat} (hk : k ≤ w) (hn : n < 2 ^ w) :
    n &&& (2 ^ w - 2 ^ k) = n / 2 ^ k * 2 ^ k := by
  rw [and_midBits hk, Nat.mod_eq_of_lt hn]

theorem eq_of_bit_eq {x y : UInt64} (h : ∀ i, bit x i = bit y i) : x = y :=
  UInt64.toNat_inj.mp (Nat.eq_of_testBit_eq h)

theorem and_or_distrib (x y z : UInt64) : (x ||| y) &&& z = x &&& z ||| y &&& z := by
  apply eq_of_bit_eq
  intro i
  rw [bit_and, bit_or, bit_or, bit_and, bit_and, Bool.and_or_distrib_right]

theorem or_and_ne_zero {y mask : UInt64} (x : UInt64) (h : y &&& mask ≠ 0) : (x ||| y) &&& mask ≠ 0 := by
  rw [and_or_distrib]
  intro hzero
  exact h (UInt64.or_eq_zero_iff.mp hzero).2

theorem exists_bit_of_ne_zero {x : UInt64} (h : x ≠ 0) : ∃ i, i < 64 ∧ bit x i = true := by
  by_contra hno
  apply h
  apply eq_of_bit_eq
  intro i
  rw [bit_zero]
  by_cases hi : i < 64
  · by_contra hb
    exact hno ⟨i, hi, by simpa using hb⟩
  · exact bit_of_le x (by omega)

theorem ne_zero_of_bit {x : UInt64} {i : Nat} (h : bit x i = true) : x ≠ 0 := by
  rintro rfl
  simp at h

theorem and_one_shiftLeft_ne_zero (x : UInt64) {k : UInt64} (hk : k.toNat < 64) :
    x &&& 1 <<< k ≠ 0 ↔ bit x k.toNat = true := by
  constructor
  · intro hne
    obtain ⟨i, -, hi⟩ := exists_bit_of_ne_zero hne
    rw [bit_and, bit_one_shiftLeft hk, Bool.and_eq_true, decide_eq_true_eq] at hi
    rw [hi.2]
    exact hi.1
  · intro hbit
    apply ne_zero_of_bit (i := k.toNat)
    rw [bit_and, bit_one_shiftLeft hk, hbit]
    simp

theorem bit_shiftLeft_of_lt (x : UInt64) {k : UInt64} {i : Nat} (hk : k.toNat < 64) (hi : i < k.toNat) :
    bit (x <<< k) i = false := by
  unfold bit
  rw [UInt64.toNat_shiftLeft, Nat.mod_eq_of_lt hk, Nat.testBit_mod_two_pow, Nat.testBit_shiftLeft]
  simp [Nat.not_le.mpr hi]

/-! ### Trailing zeros -/

/-- **`ctz` finds the lowest set bit.** -/
theorem ctz_spec {x : UInt64} (h : x ≠ 0) :
    (ctz x).toNat < 64 ∧ bit x (ctz x).toNat = true ∧ ∀ j < (ctz x).toNat, bit x j = false := by
  obtain ⟨i, hi, hbit⟩ := exists_bit_of_ne_zero h
  cases hfind : (List.range 64).find? (bit x) with
  | none =>
    rw [List.find?_eq_none] at hfind
    exact absurd hbit (hfind i (List.mem_range.mpr hi))
  | some k =>
    have hctz : ctz x = UInt64.ofNat k := by
      unfold ctz
      rw [hfind, Option.getD_some]
    obtain ⟨hk, hmem, hbelow⟩ := List.find?_range_eq_some.mp hfind
    rw [List.mem_range] at hmem
    have htoNat : (UInt64.ofNat k).toNat = k := by
      rw [UInt64.toNat_ofNat', Nat.mod_eq_of_lt (by omega)]
    rw [hctz, htoNat]
    refine ⟨hmem, hk, ?_⟩
    intro j hj
    simpa using hbelow j hj

end Keuos
