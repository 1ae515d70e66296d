import Mathlib.Data.Nat.Digits.Lemmas

/-!
# Decimal text

The digits of a number in ASCII, a number with its sign as text, and what a text stands for when its bytes are
taken for digits without a check.

## Main results

* `valueFrom_digitsOf`: the value of the digits.
* `number_decimal`: what the text of a number stands for.
-/

namespace Keuos

/-- The digits of a number, the first one first; no digits for 0. -/
def digitsOf (n : Nat) : List UInt8 :=
  ((Nat.digits 10 n).map fun d => UInt8.ofNat (d + 48)).reverse

/-- A number as text. -/
def decimal (v : Int) : List UInt8 :=
  if v = 0 then [48] else if v < 0 then 45 :: digitsOf v.natAbs else digitsOf v.natAbs

/-- The value of the digits `l` after digits with the value `r`. -/
def valueFrom (r : Int) (l : List UInt8) : Int :=
  l.foldl (fun r b => r * 10 + ((b.toNat : Int) - 48)) r

/-- What a text stands for: its digits, after a sign. -/
def number (l : List UInt8) : Int :=
  if l.head? = some 45 then -valueFrom 0 l.tail else valueFrom 0 l

theorem valueFrom_cons (r : Int) (b : UInt8) (l : List UInt8) :
    valueFrom r (b :: l) = valueFrom (r * 10 + ((b.toNat : Int) - 48)) l := rfl

theorem valueFrom_append (r : Int) (l l' : List UInt8) :
    valueFrom r (l ++ l') = valueFrom (valueFrom r l) l' :=
  List.foldl_append

/-! ### The digits -/

theorem digitsOf_zero : digitsOf 0 = [] := rfl

theorem digitsOf_step {n : Nat} (hn : 0 < n) :
    digitsOf n = digitsOf (n / 10) ++ [UInt8.ofNat (n % 10 + 48)] := by
  unfold digitsOf
  rw [Nat.digits_def' (by decide) hn, List.map_cons, List.reverse_cons]

theorem toNat_digit (n : Nat) : (UInt8.ofNat (n % 10 + 48)).toNat = n % 10 + 48 := by
  rw [UInt8.toNat_ofNat', Nat.mod_eq_of_lt (by omega)]

/-- **The value of the digits.** -/
theorem valueFrom_digitsOf (n : Nat) : valueFrom 0 (digitsOf n) = n := by
  induction n using Nat.strong_induction_on with
  | _ n ih =>
    by_cases hn : n = 0
    · rw [hn, digitsOf_zero]
      rfl
    · have hpos : 0 < n := Nat.pos_of_ne_zero hn
      rw [digitsOf_step hpos, valueFrom_append, ih (n / 10) (Nat.div_lt_self hpos (by decide)),
        valueFrom_cons, toNat_digit]
      show ((n / 10 : Nat) : Int) * 10 + _ = _
      omega

theorem mem_digitsOf {n : Nat} {b : UInt8} (hb : b ∈ digitsOf n) : 48 ≤ b.toNat ∧ b.toNat ≤ 57 := by
  unfold digitsOf at hb
  rw [List.mem_reverse, List.mem_map] at hb
  obtain ⟨d, hd, rfl⟩ := hb
  have hlt : d < 10 := Nat.digits_lt_base (by decide) hd
  rw [UInt8.toNat_ofNat', Nat.mod_eq_of_lt (by omega)]
  omega

theorem length_digitsOf (n : Nat) : (digitsOf n).length = (Nat.digits 10 n).length := by
  unfold digitsOf
  rw [List.length_reverse, List.length_map]

theorem length_digitsOf_le {n k : Nat} (h : n < 10 ^ k) : (digitsOf n).length ≤ k := by
  rw [length_digitsOf]
  exact (Nat.digits_length_le_iff (by decide) n).mpr h

/-! ### Signed numbers -/

theorem number_of_digits {l : List UInt8} (h : ∀ b ∈ l, b ≠ 45) : number l = valueFrom 0 l := by
  unfold number
  rw [if_neg]
  intro hhead
  exact h 45 (List.mem_of_mem_head? hhead) rfl

theorem digitsOf_ne_sign {n : Nat} : ∀ b ∈ digitsOf n, b ≠ 45 := by
  rintro b hb rfl
  have hdigit := mem_digitsOf hb
  have hsign : (45 : UInt8).toNat = 45 := rfl
  omega

/-- **What the text of a number stands for.** -/
theorem number_decimal (v : Int) : number (decimal v) = v := by
  unfold decimal
  by_cases hzero : v = 0
  · rw [if_pos hzero, hzero]
    rfl
  · rw [if_neg hzero]
    by_cases hneg : v < 0
    · rw [if_pos hneg]
      unfold number
      rw [List.head?_cons, if_pos rfl, List.tail_cons, valueFrom_digitsOf]
      omega
    · rw [if_neg hneg, number_of_digits digitsOf_ne_sign, valueFrom_digitsOf]
      omega

theorem mem_decimal {v : Int} {b : UInt8} (hb : b ∈ decimal v) : b = 45 ∨ 48 ≤ b.toNat ∧ b.toNat ≤ 57 := by
  unfold decimal at hb
  split at hb
  · obtain rfl := List.mem_singleton.mp hb
    exact .inr (by decide)
  · split at hb
    · rcases List.mem_cons.mp hb with rfl | hb
      · exact .inl rfl
      · exact .inr (mem_digitsOf hb)
    · exact .inr (mem_digitsOf hb)

end Keuos
