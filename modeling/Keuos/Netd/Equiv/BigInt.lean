import Keuos.Lib.Limbs
import Keuos.Netd.Defs

/-!
# Sums and differences of 256 bits

`u256_add`, `u256_sub` and `u256_shift_left_1` walk over the bytes of their buffers with a carry.  The result
may be one of the operands: the byte that is written is not read again (`digitLoop_spec`).  What the three
compute is an equation between numbers and the last carry, and `u256_mod_add` puts them together.

## Main results

* `u256Add_spec`, `u256Sub_spec`, `u256Cmp_spec`, `u256ShiftLeft1_spec`: the operations on numbers.
* `u256ModAdd_spec`: sums modulo `p`, also beyond 256 bits.
-/

namespace Keuos.Netd.BigInt

/-! ### Buffers -/

/-- The digits of a buffer. -/
def digit (m : Mem) (a : UInt64) (i : Nat) : Nat := (byte m a i).toNat

/-- The number in a buffer. -/
def num (m : Mem) (a : UInt64) : Nat := limbs 256 (digit m a) 32

/-- The buffers have no byte in common. -/
abbrev Apart (a r : UInt64) : Prop := BlocksDisjoint a 32 r 32

/-- The buffers have no bytes in common but those at the same index. -/
def Overlay (a r : UInt64) : Prop :=
  ∀ i < 32, ∀ j < 32, a + UInt64.ofNat i = r + UInt64.ofNat j → i = j

/-- Nothing is changed outside the buffer. -/
def SameOutside (r : UInt64) (m m' : Mem) : Prop :=
  ∀ x, ¬InBlock r 32 x → m' x = m x

section Buffers
variable {m m' m'' : Mem} {a r : UInt64} {i j : Nat}

theorem digit_lt (m : Mem) (a : UInt64) (i : Nat) : digit m a i < 256 := (byte m a i).toNat_lt

theorem pow_radix : (256 : Nat) ^ 32 = 2 ^ 256 := by norm_num

theorem num_lt (m : Mem) (a : UInt64) : num m a < 2 ^ 256 := by
  have h := limbs_lt (n := 32) fun i _ => digit_lt m a i
  rwa [pow_radix] at h

theorem Overlay.self (a : UInt64) : Overlay a a := by
  intro i hi j hj h
  have hoff : UInt64.ofNat i = UInt64.ofNat j := by grind
  have hnat := congrArg UInt64.toNat hoff
  rwa [UInt64.toNat_ofNat', UInt64.toNat_ofNat', Nat.mod_eq_of_lt (by omega),
    Nat.mod_eq_of_lt (by omega)] at hnat

theorem Overlay.of_apart (h : Apart a r) : Overlay a r := by
  intro i hi j hj heq
  exact absurd (heq ▸ inBlock_add hj) (h _ (inBlock_add hi))

theorem SameOutside.refl (m : Mem) : SameOutside r m m := fun _ _ => rfl

theorem SameOutside.trans (h : SameOutside r m m') (h' : SameOutside r m' m'') : SameOutside r m m'' :=
  fun x hx => (h' x hx).trans (h x hx)

theorem SameOutside.byte (h : SameOutside r m m') (ha : Apart a r) (hi : i < 32) :
    byte m' a i = byte m a i :=
  h _ (ha _ (inBlock_add hi))

theorem SameOutside.num (h : SameOutside r m m') (ha : Apart a r) : num m' a = num m a :=
  limbs_congr fun _ hi => congrArg UInt8.toNat (h.byte ha hi)

@[simp] theorem byte_setByte_self (v : UInt8) : byte (setByte m r i v) r i = v :=
  Function.update_self _ _ _

theorem byte_setByte_of_ne {v : UInt8} (h : a + UInt64.ofNat j ≠ r + UInt64.ofNat i) :
    byte (setByte m r i v) a j = byte m a j :=
  Function.update_of_ne h _ _

theorem sameOutside_setByte (hi : i < 32) (v : UInt8) : SameOutside r m (setByte m r i v) := by
  intro x hx
  refine Function.update_of_ne ?_ _ _
  rintro rfl
  exact hx (inBlock_add hi)

end Buffers

/-! ### A loop over the digits -/

section Loop
variable {C : Type} (φ : UInt8 → UInt8 → C → UInt8 × C) (a b r : UInt64)

/-- The byte of the result and the carry from two bytes and the carry. -/
def digitStep (s : C × Mem) (i : Nat) : C × Mem :=
  let out := φ (byte s.2 a i) (byte s.2 b i) s.1
  (out.2, setByte s.2 r i out.1)

variable (m : Mem) (c : C)

/-- The carry into each digit. -/
def carryAt : Nat → C
  | 0 => c
  | i + 1 => (φ (byte m a i) (byte m b i) (carryAt i)).2

/-- The digits of the result. -/
def digitAt (i : Nat) : UInt8 := (φ (byte m a i) (byte m b i) (carryAt φ a b m c i)).1

/-- **A loop over the digits** computes them one after the other, also in place. -/
theorem digitLoop_spec {a b r : UInt64} (ha : Overlay a r) (hb : Overlay b r) :
    let out := (List.range 32).foldl (digitStep φ a b r) (c, m)
    out.1 = carryAt φ a b m c 32 ∧ (∀ i < 32, byte out.2 r i = digitAt φ a b m c i) ∧
      SameOutside r m out.2 := by
  -- The bytes from the index on are still those of the operands.
  let I : Nat → C × Mem → Prop := fun i s => i ≤ 32 → s.1 = carryAt φ a b m c i ∧
    (∀ j < i, byte s.2 r j = digitAt φ a b m c j) ∧
    (∀ j, i ≤ j → j < 32 → byte s.2 a j = byte m a j ∧ byte s.2 b j = byte m b j) ∧ SameOutside r m s.2
  have hloop : I 32 ((List.range 32).foldl (digitStep φ a b r) (c, m)) := by
    refine foldl_range_induction 32 ?_ ?_
    · intro _
      exact ⟨rfl, fun j hj => absurd hj (Nat.not_lt_zero j), fun j _ _ => ⟨rfl, rfl⟩, .refl m⟩
    · intro i s hi h _
      obtain ⟨hcarry, hdone, hleft, hsame⟩ := h (by omega)
      obtain ⟨hai, hbi⟩ := hleft i (Nat.le_refl i) hi
      have hout : φ (byte s.2 a i) (byte s.2 b i) s.1 =
          φ (byte m a i) (byte m b i) (carryAt φ a b m c i) := by rw [hai, hbi, hcarry]
      unfold digitStep
      rw [hout]
      refine ⟨rfl, ?_, ?_, hsame.trans (sameOutside_setByte hi _)⟩
      · intro j hj
        by_cases heq : j = i
        · subst heq
          exact byte_setByte_self _
        · have hne : r + UInt64.ofNat j ≠ r + UInt64.ofNat i := fun h =>
            heq (Overlay.self r j (by omega) i hi h)
          rw [byte_setByte_of_ne hne]
          exact hdone j (by omega)
      · intro j hij hj
        have hne : ∀ {x : UInt64}, Overlay x r → x + UInt64.ofNat j ≠ r + UInt64.ofNat i := by
          intro x hx h
          have := hx j hj i hi h
          omega
        rw [byte_setByte_of_ne (hne ha), byte_setByte_of_ne (hne hb)]
        exact hleft j (by omega) hj
  obtain ⟨hcarry, hdone, -, hsame⟩ := hloop (Nat.le_refl 32)
  exact ⟨hcarry, hdone, hsame⟩

end Loop

/-! ### Addition -/

section Add
variable {m : Mem} {a b p r : UInt64}

def addDigit (x y : UInt8) (carry : UInt32) : UInt8 × UInt32 :=
  let sum : UInt32 := x.toUInt32 + y.toUInt32 + carry
  ((sum &&& 0xFF).toUInt8, sum / 256)

theorem split_sum {sum : UInt32} {n : Nat} (h : sum.toNat = n) :
    (sum &&& 0xFF).toUInt8.toNat = n % 256 ∧ (sum / 256).toNat = n / 256 := by
  have hand : (sum &&& 0xFF).toNat = sum.toNat % 256 := by
    rw [UInt32.toNat_and]
    exact Nat.and_two_pow_sub_one_eq_mod _ 8
  constructor
  · rw [UInt32.toNat_toUInt8, hand, h]
    omega
  · rw [UInt32.toNat_div, h]
    rfl

theorem addDigit_spec (x y : UInt8) {carry : UInt32} (hc : carry.toNat ≤ 1) :
    let out := addDigit x y carry
    out.1.toNat + 256 * out.2.toNat = x.toNat + y.toNat + carry.toNat ∧ out.2.toNat ≤ 1 := by
  have hx := x.toNat_lt
  have hy := y.toNat_lt
  have hsum : (x.toUInt32 + y.toUInt32 + carry).toNat = x.toNat + y.toNat + carry.toNat := by
    rw [UInt32.toNat_add, UInt32.toNat_add, UInt8.toNat_toUInt32, UInt8.toNat_toUInt32]
    omega
  obtain ⟨hlow, hhigh⟩ := split_sum hsum
  intro out
  rw [show out.1.toNat = _ from hlow, show out.2.toNat = _ from hhigh]
  omega

theorem addCarry_le (n : Nat) : (carryAt addDigit a b m 0 n).toNat ≤ 1 := by
  induction n with
  | zero => exact Nat.zero_le 1
  | succ n ih => exact (addDigit_spec (byte m a n) (byte m b n) ih).2

theorem num_digitLoop {C : Type} {φ : UInt8 → UInt8 → C → UInt8 × C} {c : C} {m' : Mem}
    (h : ∀ i < 32, byte m' r i = digitAt φ a b m c i) :
    num m' r = limbs 256 (fun i => (digitAt φ a b m c i).toNat) 32 :=
  limbs_congr fun i hi => congrArg UInt8.toNat (h i hi)

/-- **`u256_add`**: the sum, and the carry. -/
theorem u256Add_spec (ha : Overlay a r) (hb : Overlay b r) :
    let out := u256Add a b r m
    num out.2 r + out.1.toNat * 2 ^ 256 = num m a + num m b ∧ out.1.toNat ≤ 1 ∧ SameOutside r m out.2 := by
  intro out
  obtain ⟨hcarry, hdigits, hsame⟩ := digitLoop_spec addDigit m (0 : UInt32) ha hb
  have hsum := limbs_carry (n := 32) (c := fun i => (carryAt addDigit a b m 0 i).toNat)
    (f := fun i => (digitAt addDigit a b m 0 i).toNat) (g := fun i => digit m a i + digit m b i) (B := 256)
    fun i _ => (addDigit_spec (byte m a i) (byte m b i) (addCarry_le i)).1
  rw [limbs_add] at hsum
  have hfirst : out.1 = carryAt addDigit a b m 0 32 := hcarry
  have hnum : num out.2 r = limbs 256 (fun i => (digitAt addDigit a b m 0 i).toNat) 32 :=
      num_digitLoop hdigits
  have hzero : (carryAt addDigit a b m 0 0).toNat = 0 := rfl
  rw [← hnum, ← hfirst, hzero, Nat.add_zero, pow_radix] at hsum
  exact ⟨hsum, hfirst ▸ addCarry_le 32, hsame⟩

/-! ### Subtraction -/

def subDigit (x y : UInt8) (borrow : UInt32) : UInt8 × UInt32 :=
  let diff : Int := x.toNat - y.toNat - borrow.toNat
  if diff < 0 then (UInt8.ofNat (diff + 256).toNat, 1) else (UInt8.ofNat diff.toNat, 0)

theorem subStep_eq : subStep a b r = digitStep subDigit a b r := by
  funext s i
  unfold subStep digitStep subDigit
  dsimp only
  split <;> rfl

theorem subDigit_spec (x y : UInt8) {borrow : UInt32} (hc : borrow.toNat ≤ 1) :
    let out := subDigit x y borrow
    x.toNat + 256 * out.2.toNat = y.toNat + out.1.toNat + borrow.toNat ∧ out.2.toNat ≤ 1 := by
  have hx := x.toNat_lt
  have hy := y.toNat_lt
  unfold subDigit
  dsimp only
  split
  · refine ⟨?_, Nat.le_refl 1⟩
    rw [UInt8.toNat_ofNat', show (1 : UInt32).toNat = 1 from rfl]
    omega
  · refine ⟨?_, Nat.zero_le 1⟩
    rw [UInt8.toNat_ofNat', show (0 : UInt32).toNat = 0 from rfl]
    omega

theorem subBorrow_le (n : Nat) : (carryAt subDigit a b m 0 n).toNat ≤ 1 := by
  induction n with
  | zero => exact Nat.zero_le 1
  | succ n ih => exact (subDigit_spec (byte m a n) (byte m b n) ih).2

/-- **`u256_sub`**: the difference, with a borrow when it is negative. -/
theorem u256Sub_spec (ha : Overlay a r) (hb : Overlay b r) :
    let out := u256Sub a b r m
    num m a + out.1.toNat * 2 ^ 256 = num m b + num out.2 r ∧ out.1.toNat ≤ 1 ∧ SameOutside r m out.2 := by
  intro out
  obtain ⟨hcarry, hdigits, hsame⟩ := digitLoop_spec subDigit m (0 : UInt32) ha hb
  rw [← subStep_eq] at hcarry hdigits hsame
  have hsum := limbs_carry (n := 32) (c := fun i => (carryAt subDigit a b m 0 i).toNat)
    (f := digit m a) (g := fun i => digit m b i + (digitAt subDigit a b m 0 i).toNat) (B := 256)
    fun i _ => (subDigit_spec (byte m a i) (byte m b i) (subBorrow_le i)).1
  rw [limbs_add] at hsum
  have hfirst : out.1 = carryAt subDigit a b m 0 32 := hcarry
  have hnum : num out.2 r = limbs 256 (fun i => (digitAt subDigit a b m 0 i).toNat) 32 :=
      num_digitLoop hdigits
  have hzero : (carryAt subDigit a b m 0 0).toNat = 0 := rfl
  rw [← hnum, ← hfirst, hzero, Nat.add_zero, pow_radix] at hsum
  exact ⟨hsum, hfirst ▸ subBorrow_le 32, hsame⟩

/-! ### Comparison -/

theorem cmpFrom_spec (n : Nat) :
    (cmpFrom m a b n ≥ 0 ↔ limbs 256 (digit m b) n ≤ limbs 256 (digit m a) n) := by
  induction n with
  | zero => exact ⟨fun _ => Nat.le_refl 0, fun _ => Int.le_refl 0⟩
  | succ n ih =>
    unfold cmpFrom
    by_cases hgt : byte m a n > byte m b n
    · have hlt := limbs_lt_of_top_lt (f := digit m b) (g := digit m a) (n := n) (B := 256)
        (fun i _ => digit_lt m b i) (UInt8.lt_iff_toNat_lt.mp hgt)
      rw [if_pos hgt]
      exact iff_of_true (by decide) (Nat.le_of_lt hlt)
    · rw [if_neg hgt]
      by_cases hlt : byte m a n < byte m b n
      · have htop := limbs_lt_of_top_lt (f := digit m a) (g := digit m b) (n := n) (B := 256)
          (fun i _ => digit_lt m a i) (UInt8.lt_iff_toNat_lt.mp hlt)
        rw [if_pos hlt]
        exact iff_of_false (by decide) (Nat.not_le.mpr htop)
      · have heq : byte m a n = byte m b n :=
          UInt8.le_antisymm (UInt8.not_lt.mp hgt) (UInt8.not_lt.mp hlt)
        have hdigit : digit m a n = digit m b n := congrArg UInt8.toNat heq
        rw [if_neg hlt, ih, limbs_succ, limbs_succ, hdigit]
        exact (Nat.add_le_add_iff_right).symm

/-- **`u256_cmp`**: whether the first number is at least the second. -/
theorem u256Cmp_spec : u256Cmp m a b ≥ 0 ↔ num m b ≤ num m a := cmpFrom_spec 32

/-! ### Doubling -/

def shiftDigit (x _y : UInt8) (carry : UInt32) : UInt8 × UInt32 :=
  let sum : UInt32 := x.toUInt32 * 2 + carry
  ((sum &&& 0xFF).toUInt8, sum / 256)

theorem shiftDigit_spec (x y : UInt8) {carry : UInt32} (hc : carry.toNat ≤ 1) :
    let out := shiftDigit x y carry
    out.1.toNat + 256 * out.2.toNat = x.toNat * 2 + carry.toNat ∧ out.2.toNat ≤ 1 := by
  have hx := x.toNat_lt
  have hsum : (x.toUInt32 * 2 + carry).toNat = x.toNat * 2 + carry.toNat := by
    rw [UInt32.toNat_add, UInt32.toNat_mul, UInt8.toNat_toUInt32, show (2 : UInt32).toNat = 2 from rfl]
    omega
  obtain ⟨hlow, hhigh⟩ := split_sum hsum
  intro out
  rw [show out.1.toNat = _ from hlow, show out.2.toNat = _ from hhigh]
  omega

theorem shiftCarry_le (n : Nat) : (carryAt shiftDigit a b m 0 n).toNat ≤ 1 := by
  induction n with
  | zero => exact Nat.zero_le 1
  | succ n ih => exact (shiftDigit_spec (byte m a n) (byte m b n) ih).2

/-- **`u256_shift_left_1`**: the double, modulo `2 ^ 256`. -/
theorem u256ShiftLeft1_spec (ha : Overlay a r) :
    num (u256ShiftLeft1 a r m) r = 2 * num m a % 2 ^ 256 ∧ SameOutside r m (u256ShiftLeft1 a r m) := by
  obtain ⟨hcarry, hdigits, hsame⟩ := digitLoop_spec shiftDigit m (0 : UInt32) ha ha
  have hsum := limbs_carry (n := 32) (c := fun i => (carryAt shiftDigit a a m 0 i).toNat)
    (f := fun i => (digitAt shiftDigit a a m 0 i).toNat) (g := fun i => digit m a i * 2) (B := 256)
    fun i _ => (shiftDigit_spec (byte m a i) (byte m a i) (shiftCarry_le i)).1
  have hnum : num (u256ShiftLeft1 a r m) r = limbs 256 (fun i => (digitAt shiftDigit a a m 0 i).toNat) 32 :=
    num_digitLoop hdigits
  have hzero : (carryAt shiftDigit a a m 0 0).toNat = 0 := rfl
  have hlt := num_lt (u256ShiftLeft1 a r m) r
  rw [limbs_mul, ← hnum, hzero, Nat.add_zero, pow_radix] at hsum
  refine ⟨?_, hsame⟩
  have hdouble : 2 * num m a =
      num (u256ShiftLeft1 a r m) r + (carryAt shiftDigit a a m 0 32).toNat * 2 ^ 256 := by
    rw [Nat.mul_comm, num, ← hsum]
  rw [hdouble, Nat.add_mul_mod_self_right, Nat.mod_eq_of_lt hlt]

/-! ### Sums modulo `p` -/

theorem u256Sub_reduce (hp : Apart p r) {x : Nat} (hx : num m r % 2 ^ 256 = x % 2 ^ 256)
    (hlow : num m p ≤ x) (hhigh : x < num m p + 2 ^ 256) :
    num (u256Sub r p r m).2 r = x - num m p := by
  obtain ⟨heq, hborrow, -⟩ := u256Sub_spec (m := m) (Overlay.self r) (Overlay.of_apart hp)
  have hlt := num_lt (u256Sub r p r m).2 r
  have hp' := num_lt m p
  have hr := num_lt m r
  omega

/-- **`u256_mod_add`**: the sum modulo `p`. -/
theorem u256ModAdd_spec (ha : Overlay a r) (hb : Overlay b r) (hp : Apart p r) (hla : num m a < num m p)
    (hlb : num m b < num m p) :
    num (u256ModAdd a b p r m) r = (num m a + num m b) % num m p ∧
      SameOutside r m (u256ModAdd a b p r m) := by
  obtain ⟨hsum, hcarry, hsame⟩ := u256Add_spec (m := m) ha hb
  have hnum : num (u256Add a b r m).2 p = num m p := hsame.num hp
  have hlt := num_lt (u256Add a b r m).2 r
  have hplt := num_lt m p
  unfold u256ModAdd
  by_cases hreduce : (u256Add a b r m).1 > 0 ∨ u256Cmp (u256Add a b r m).2 r p ≥ 0
  · have hle : num m p ≤ num m a + num m b := by
      rcases hreduce with hpos | hcmp
      · have hpos : 0 < (u256Add a b r m).1.toNat := UInt32.lt_iff_toNat_lt.mp hpos
        omega
      · rw [u256Cmp_spec, hnum] at hcmp
        omega
    obtain ⟨-, -, hsub⟩ := u256Sub_spec (m := (u256Add a b r m).2) (Overlay.self r) (Overlay.of_apart hp)
    have hdiff := u256Sub_reduce (m := (u256Add a b r m).2) (x := num m a + num m b) hp (by omega)
      (by omega) (by omega)
    rw [hnum] at hdiff
    dsimp only
    rw [if_pos hreduce, hdiff, Nat.mod_eq_sub_mod hle, Nat.mod_eq_of_lt (by omega)]
    exact ⟨rfl, hsame.trans hsub⟩
  · rw [not_or, u256Cmp_spec, hnum] at hreduce
    have hzero : ¬0 < (u256Add a b r m).1.toNat := fun h => hreduce.1 (UInt32.lt_iff_toNat_lt.mpr h)
    have hcond : ¬((u256Add a b r m).1 > 0 ∨ u256Cmp (u256Add a b r m).2 r p ≥ 0) := by
      rw [not_or, u256Cmp_spec, hnum]
      exact hreduce
    dsimp only
    rw [if_neg hcond, Nat.mod_eq_of_lt (by omega)]
    exact ⟨by omega, hsame⟩

end Add

end Keuos.Netd.BigInt
