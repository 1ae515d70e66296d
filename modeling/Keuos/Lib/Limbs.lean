import Mathlib.Data.Nat.Bitwise
import Mathlib.Tactic.Linarith
import Mathlib.Tactic.Ring

/-!
# Numbers in a base

`limbs B f n` is the number whose `n` digits in the base `B` are `f 0`, …, `f (n - 1)`, the lowest first.
`limbs_lt`, `limbs_lt_of_top_lt` and `testBit_limbs` say how it is bounded, compared and taken apart, and
`limbs_carry` is the law of an operation that walks over the digits with a carry.

A loop over the digits is a fold over `List.range`, and `foldl_range_induction` is its rule.
-/

namespace Keuos

/-- The number with these digits. -/
def limbs (B : Nat) (f : Nat → Nat) : Nat → Nat
  | 0 => 0
  | n + 1 => limbs B f n + f n * B ^ n

variable {B n : Nat} {f g : Nat → Nat}

@[simp] theorem limbs_zero : limbs B f 0 = 0 := rfl

theorem limbs_succ : limbs B f (n + 1) = limbs B f n + f n * B ^ n := rfl

theorem limbs_congr (h : ∀ i < n, f i = g i) : limbs B f n = limbs B g n := by
  induction n with
  | zero => rfl
  | succ n ih => rw [limbs_succ, limbs_succ, ih fun i hi => h i (by omega), h n (by omega)]

theorem limbs_lt (h : ∀ i < n, f i < B) : limbs B f n < B ^ n := by
  induction n with
  | zero => exact Nat.one_pos
  | succ n ih =>
    have hlow := ih fun i hi => h i (by omega)
    have htop : (f n + 1) * B ^ n ≤ B * B ^ n := Nat.mul_le_mul_right _ (h n (by omega))
    rw [limbs_succ, Nat.pow_succ, Nat.mul_comm (B ^ n)]
    rw [Nat.add_mul, Nat.one_mul] at htop
    omega

theorem limbs_eq_zero (h : ∀ i < n, f i = 0) : limbs B f n = 0 := by
  induction n with
  | zero => rfl
  | succ n ih => rw [limbs_succ, ih fun i hi => h i (by omega), h n (by omega), Nat.zero_mul]

theorem digit_eq_zero (hB : 0 < B) (h : limbs B f n = 0) : ∀ i < n, f i = 0 := by
  induction n with
  | zero => exact fun i hi => absurd hi (Nat.not_lt_zero i)
  | succ n ih =>
    rw [limbs_succ, Nat.add_eq_zero_iff, Nat.mul_eq_zero] at h
    intro i hi
    rcases Nat.lt_succ_iff_lt_or_eq.mp hi with hlt | rfl
    · exact ih h.1 i hlt
    · exact h.2.resolve_right (Nat.ne_of_gt (Nat.pow_pos hB))

theorem limbs_single (h : ∀ i < n, f (i + 1) = 0) : limbs B f (n + 1) = f 0 := by
  induction n with
  | zero => rw [limbs_succ, limbs_zero, Nat.zero_add, Nat.pow_zero, Nat.mul_one]
  | succ n ih =>
    rw [limbs_succ, ih fun i hi => h i (Nat.lt_succ_of_lt hi), h n (Nat.lt_succ_self n), Nat.zero_mul,
      Nat.add_zero]

theorem limbs_lt_of_top_lt (hf : ∀ i < n, f i < B) (htop : f n < g n) :
    limbs B f (n + 1) < limbs B g (n + 1) := by
  have hlow := limbs_lt hf
  have hle : (f n + 1) * B ^ n ≤ g n * B ^ n := Nat.mul_le_mul_right _ htop
  rw [Nat.add_mul, Nat.one_mul] at hle
  rw [limbs_succ, limbs_succ]
  omega

theorem testBit_limbs {w j i : Nat} (hf : ∀ k < n, f k < 2 ^ w) (hj : j < n) (hi : i < w) :
    (limbs (2 ^ w) f n).testBit (w * j + i) = (f j).testBit i := by
  induction n with
  | zero => omega
  | succ n ih =>
    have hlow := limbs_lt fun k hk => hf k (Nat.lt_succ_of_lt hk)
    rw [← Nat.pow_mul] at hlow
    rw [limbs_succ, Nat.add_comm, Nat.mul_comm (f n), ← Nat.pow_mul,
      Nat.testBit_two_pow_mul_add (f n) hlow]
    by_cases hlt : j < n
    · have hplace : w * j + i < w * n := by
        have := Nat.mul_le_mul_left w hlt
        rw [Nat.mul_succ] at this
        omega
      rw [if_pos hplace, ih (fun k hk => hf k (Nat.lt_succ_of_lt hk)) hlt]
    · have heq : j = n := by omega
      subst heq
      rw [if_neg (by omega), Nat.add_sub_cancel_left]

theorem limbs_digits (B v n : Nat) : limbs B (fun i => v / B ^ i % B) n = v % B ^ n := by
  induction n with
  | zero => rw [limbs_zero, Nat.pow_zero, Nat.mod_one]
  | succ n ih => rw [limbs_succ, ih, Nat.pow_succ, Nat.mod_mul, Nat.mul_comm (B ^ n)]

/-! ### Digit by digit -/

theorem limbs_add : limbs B (fun i => f i + g i) n = limbs B f n + limbs B g n := by
  induction n with
  | zero => rfl
  | succ n ih =>
    rw [limbs_succ, limbs_succ, limbs_succ, ih, Nat.add_mul]
    omega

theorem limbs_mul (k : Nat) : limbs B (fun i => f i * k) n = limbs B f n * k := by
  induction n with
  | zero => exact (Nat.zero_mul k).symm
  | succ n ih => rw [limbs_succ, limbs_succ, ih, Nat.add_mul, Nat.mul_right_comm]

/-- **Carries cancel.**  What a digit loses is carried into the next one. -/
theorem limbs_carry {c : Nat → Nat} (h : ∀ i < n, f i + B * c (i + 1) = g i + c i) :
    limbs B f n + c n * B ^ n = limbs B g n + c 0 := by
  induction n with
  | zero => simp
  | succ n ih =>
    have hlow := ih fun i hi => h i (Nat.lt_succ_of_lt hi)
    have htop := congrArg (· * B ^ n) (h n (Nat.lt_succ_self n))
    simp only [Nat.add_mul] at htop
    rw [limbs_succ, limbs_succ, Nat.pow_succ]
    linarith

/-! ### Loops -/

theorem foldl_range_induction {σ : Type} {f : σ → Nat → σ} {I : Nat → σ → Prop} {s : σ} (n : Nat)
    (hinit : I 0 s) (hstep : ∀ i t, i < n → I i t → I (i + 1) (f t i)) :
    I n ((List.range n).foldl f s) := by
  induction n with
  | zero => exact hinit
  | succ n ih =>
    rw [List.range_succ, List.foldl_append]
    exact hstep n _ (Nat.lt_succ_self n) (ih fun i t hi h => hstep i t (Nat.lt_succ_of_lt hi) h)

end Keuos
