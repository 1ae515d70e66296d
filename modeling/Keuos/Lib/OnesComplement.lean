import Mathlib.Data.UInt
import Mathlib.Tactic.Common

/-!
# Sums of 16-bit words with end-around carry

`wordSum f n` is the sum of the big-endian 16-bit words of the `n` bytes `f 0`, …, `f (n - 1)`; an
odd last byte is the high half of a word whose low half is missing.  `foldedSum s` is what is left
of a sum when its carries have been added back: the representative of `s` modulo `65535` that is
`0` only for the sum `0`.

The check of such sums rests on two facts.  Replacing two zero bytes at an even offset by a word
adds this word to the sum (`wordSum_patch`), and a sum to which its own complement is added folds
to `65535` (`foldedSum_add_complement`), without a carry out of 32 bits (`add_complement_lt`).  Folding the
whole sum gives what end-around addition of the words gives (`foldedSum_wordSum`).
-/

namespace Keuos

/-- What a byte contributes to its word. -/
def byteWeight (i : Nat) : Nat := if i % 2 = 0 then 256 else 1

/-- The sum of the 16-bit words of the first `n` bytes. -/
def wordSum (f : Nat → UInt8) : Nat → Nat
  | 0 => 0
  | n + 1 => wordSum f n + (f n).toNat * byteWeight n

theorem wordSum_succ (f : Nat → UInt8) (n : Nat) :
    wordSum f (n + 1) = wordSum f n + (f n).toNat * byteWeight n := rfl

theorem byteWeight_even {i : Nat} (h : i % 2 = 0) : byteWeight i = 256 := if_pos h

theorem byteWeight_odd {i : Nat} (h : i % 2 = 1) : byteWeight i = 1 := if_neg (by omega)

theorem wordSum_add_two (f : Nat → UInt8) {n : Nat} (hn : n % 2 = 0) :
    wordSum f (n + 2) = wordSum f n + ((f n).toNat * 256 + (f (n + 1)).toNat) := by
  rw [wordSum_succ, wordSum_succ, byteWeight_even hn, byteWeight_odd (by omega)]
  omega

theorem wordSum_congr {f g : Nat → UInt8} {n : Nat} (h : ∀ i < n, f i = g i) :
    wordSum f n = wordSum g n := by
  induction n with
  | zero => rfl
  | succ n ih =>
    rw [wordSum_succ, wordSum_succ, ih fun i hi => h i (by omega), h n (by omega)]

theorem wordSum_append (f : Nat → UInt8) {k : Nat} (hk : k % 2 = 0) (n : Nat) :
    wordSum f (k + n) = wordSum f k + wordSum (fun i => f (k + i)) n := by
  induction n with
  | zero => rfl
  | succ n ih =>
    have hweight : byteWeight (k + n) = byteWeight n := by
      unfold byteWeight
      rw [show (k + n) % 2 = n % 2 by omega]
    rw [← Nat.add_assoc, wordSum_succ, wordSum_succ, ih, hweight]
    omega

theorem wordSum_le (f : Nat → UInt8) (n : Nat) : wordSum f n ≤ n / 2 * 65535 + n % 2 * 65280 := by
  induction n with
  | zero => exact Nat.le_refl 0
  | succ n ih =>
    have hbyte := (f n).toNat_lt
    rw [wordSum_succ]
    rcases Nat.mod_two_eq_zero_or_one n with h | h
    · rw [byteWeight_even h]
      omega
    · rw [byteWeight_odd h]
      omega

theorem wordSum_mono (f : Nat → UInt8) {k n : Nat} (h : k ≤ n) : wordSum f k ≤ wordSum f n := by
  induction h with
  | refl => exact Nat.le_refl _
  | step _ ih => exact ih.trans (Nat.le_add_right _ _)

/-- **Two zero bytes at an even offset are replaced by a word.** -/
theorem wordSum_patch {f g : Nat → UInt8} {off n : Nat} (heven : off % 2 = 0) (hin : off + 2 ≤ n)
    (hhigh : f off = 0) (hlow : f (off + 1) = 0) (h : ∀ i, i ≠ off → i ≠ off + 1 → g i = f i) :
    wordSum g n = wordSum f n + ((g off).toNat * 256 + (g (off + 1)).toNat) := by
  induction n, hin using Nat.le_induction with
  | base =>
    have hbefore : wordSum g off = wordSum f off :=
      wordSum_congr fun i hi => h i (by omega) (by omega)
    rw [wordSum_add_two g heven, wordSum_add_two f heven, hbefore, hhigh, hlow]
    simp
  | succ n hn ih =>
    rw [wordSum_succ, wordSum_succ, ih, h n (by omega) (by omega)]
    omega

/-! ### Folding -/

/-- A sum after its carries have been added back. -/
def foldedSum (s : Nat) : Nat := if s = 0 then 0 else (s - 1) % 65535 + 1

theorem foldedSum_le (s : Nat) : foldedSum s ≤ 65535 := by
  unfold foldedSum
  split
  · omega
  · have := Nat.mod_lt (s - 1) (show 0 < 65535 by decide)
    omega

theorem foldedSum_of_le {s : Nat} (h : s ≤ 65535) : foldedSum s = s := by
  unfold foldedSum
  split
  · omega
  · rw [Nat.mod_eq_of_lt (by omega)]
    omega

/-- **One round of folding**: the carries are added to the low half. -/
theorem foldedSum_round (s : Nat) : foldedSum (s % 65536 + s / 65536) = foldedSum s := by
  unfold foldedSum
  by_cases hs : s = 0
  · subst hs
    rfl
  · have hsplit : s - 1 = s % 65536 + s / 65536 - 1 + 65535 * (s / 65536) := by omega
    rw [if_neg (by omega), if_neg hs, hsplit, Nat.add_mul_mod_self_left]

/-- **A sum and its complement fold to all ones.** -/
theorem foldedSum_add_complement (s : Nat) : foldedSum (s + (65535 - foldedSum s)) = 65535 := by
  by_cases hs : s = 0
  · subst hs
    rfl
  · have hfold : foldedSum s = (s - 1) % 65535 + 1 := if_neg hs
    have hlt := Nat.mod_lt (s - 1) (show 0 < 65535 by decide)
    have hdiv := Nat.div_add_mod (s - 1) 65535
    have htotal : s + (65535 - foldedSum s) - 1 = 65534 + 65535 * ((s - 1) / 65535) := by
      rw [hfold]
      omega
    show (if s + (65535 - foldedSum s) = 0 then 0
      else (s + (65535 - foldedSum s) - 1) % 65535 + 1) = 65535
    rw [if_neg (by omega), htotal, Nat.add_mul_mod_self_left]

/-- A word is added, and the carry is added back. -/
def onesAdd (a b : Nat) : Nat := if a + b < 65536 then a + b else a + b - 65535

/-- The one's-complement sum of words. -/
def onesSum (l : List Nat) : Nat := l.foldl onesAdd 0

/-- The big-endian words of `n` bytes, the last one padded with a zero byte when `n` is odd. -/
def bigEndianWords (f : Nat → UInt8) : Nat → List Nat
  | 0 => []
  | 1 => [(f 0).toNat * 256]
  | n + 2 => ((f 0).toNat * 256 + (f 1).toNat) :: bigEndianWords (fun i => f (2 + i)) n

theorem onesAdd_foldedSum (s : Nat) {w : Nat} (hw : w ≤ 65535) :
    onesAdd (foldedSum s) w = foldedSum (s + w) := by
  unfold onesAdd
  by_cases hs : s = 0
  · subst hs
    have hzero : foldedSum 0 = 0 := rfl
    rw [hzero, Nat.zero_add, foldedSum_of_le hw, if_pos (by omega)]
  · have hfold : foldedSum s = (s - 1) % 65535 + 1 := if_neg hs
    have htotal : foldedSum (s + w) = (s + w - 1) % 65535 + 1 := if_neg (by omega)
    have hlt := Nat.mod_lt (s - 1) (show 0 < 65535 by decide)
    rw [hfold, htotal]
    split
    · omega
    · omega

theorem foldl_onesAdd (f : Nat → UInt8) (n s : Nat) :
    (bigEndianWords f n).foldl onesAdd (foldedSum s) = foldedSum (s + wordSum f n) := by
  induction n using Nat.twoStepInduction generalizing f s with
  | zero => rfl
  | one =>
    have hbyte := (f 0).toNat_lt
    have hsum : wordSum f 1 = (f 0).toNat * 256 := Nat.zero_add _
    rw [hsum, ← onesAdd_foldedSum s (by omega)]
    rfl
  | more n ih _ =>
    have hhigh := (f 0).toNat_lt
    have hlow := (f 1).toNat_lt
    have htwo : wordSum f 2 = (f 0).toNat * 256 + (f 1).toNat := by
      have := wordSum_add_two f (show 0 % 2 = 0 from rfl)
      rwa [show wordSum f 0 = 0 from rfl, Nat.zero_add, Nat.zero_add] at this
    have hsum : wordSum f (n + 2) =
        (f 0).toNat * 256 + (f 1).toNat + wordSum (fun i => f (2 + i)) n := by
      rw [Nat.add_comm n 2, wordSum_append f rfl, htwo]
    rw [hsum, ← Nat.add_assoc, ← ih, ← onesAdd_foldedSum s (by omega)]
    rfl

/-- **Folding at the end** is the same as adding back each carry when it occurs. -/
theorem foldedSum_wordSum (f : Nat → UInt8) (n : Nat) :
    foldedSum (wordSum f n) = onesSum (bigEndianWords f n) := by
  have h := foldl_onesAdd f n 0
  rw [Nat.zero_add] at h
  exact h.symm

theorem add_complement_lt {s : Nat} (h : s < 2 ^ 32) : s + (65535 - foldedSum s) < 2 ^ 32 := by
  by_cases hs : s = 0
  · subst hs
    decide
  · have hfold : foldedSum s = (s - 1) % 65535 + 1 := if_neg hs
    rw [hfold]
    omega

end Keuos
