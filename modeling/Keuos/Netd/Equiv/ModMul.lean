import Keuos.Netd.Equiv.BigInt
import Mathlib.Data.Nat.Prime.Basic

/-!
# Products and inverses modulo `p`

`u256_mul_mod` adds up the doubles of the first factor that the bits of the second one select.  A double is
reduced after its last carry has been dropped, so from `2 ^ 255` on it is wrong.  `u256_mod_inverse`
multiplies in place, but `u256_mul_mod` sets its result to zero before it reads the factors.

## Main results

* `u256MulMod_spec`: the product is `partialProduct`, bit by bit.
* `partialProduct_exact`: when no double that is used loses its carry, it is the product modulo `p`.
* `u256MulMod_self`: a product in place of its first factor is zero.
* `exact_iff`: for which moduli the operations are exact.
-/

namespace Keuos.Netd.BigInt

/-! ### Bits -/

theorem bitSet_eq (v : UInt8) {i : Nat} (hi : i < 8) : bitSet v i = v.toNat.testBit i := by
  have hshift : ((1 : UInt8) <<< UInt8.ofNat i).toNat = 2 ^ i := by
    interval_cases i <;> rfl
  have hand : (v &&& ((1 : UInt8) <<< UInt8.ofNat i)).toNat = (v.toNat.testBit i).toNat * 2 ^ i := by
    rw [UInt8.toNat_and, hshift, Nat.and_two_pow]
  have hzero : v &&& ((1 : UInt8) <<< UInt8.ofNat i) = 0 ↔ v.toNat.testBit i = false := by
    rw [← UInt8.toNat_inj, hand, UInt8.toNat_zero]
    cases v.toNat.testBit i <;> simp
  unfold bitSet
  rw [Bool.eq_iff_iff, bne_iff_ne, Ne, hzero, Bool.not_eq_false]

theorem testBit_num (m : Mem) (a : UInt64) {j i : Nat} (hj : j < 32) (hi : i < 8) :
    (num m a).testBit (8 * j + i) = (byte m a j).toNat.testBit i :=
  testBit_limbs (w := 8) (fun k _ => digit_lt m a k) hj hi

/-- **A loop over the bits of a buffer**, of which the bytes may change. -/
theorem bitLoop_induction {step : UInt8 → Mem → Nat → Mem} {ptr : UInt64} {I : Nat → Mem → Prop}
    {P : Nat → UInt8 → Prop} {m : Mem} (hinit : I 0 m)
    (hbyte : ∀ j t, j < 32 → I (8 * j) t → P j (byte t ptr j))
    (hstep : ∀ j i v t, j < 32 → i < 8 → P j v → I (8 * j + i) t → I (8 * j + i + 1) (step v t i)) :
    I 256 ((List.range 32).foldl (fun t j => (List.range 8).foldl (step (byte t ptr j)) t) m) := by
  have hloop := foldl_range_induction (I := fun j t => I (8 * j) t) (s := m)
    (f := fun t j => (List.range 8).foldl (step (byte t ptr j)) t) 32 hinit
    fun j t hj h => foldl_range_induction (I := fun i u => I (8 * j + i) u) 8 h
      fun i u hi hu => hstep j i _ u hj hi (hbyte j t hj h) hu
  exact hloop

/-! ### Setting and copying -/

/-- Nothing is changed outside the two buffers. -/
def SameOutside2 (r t : UInt64) (m m' : Mem) : Prop :=
  ∀ x, ¬InBlock r 32 x → ¬InBlock t 32 x → m' x = m x

section Memory
variable {m m' m'' : Mem} {a r t : UInt64}

theorem SameOutside2.trans (h : SameOutside2 r t m m') (h' : SameOutside2 r t m' m'') :
    SameOutside2 r t m m'' :=
  fun x hr ht => (h' x hr ht).trans (h x hr ht)

theorem SameOutside.left (h : SameOutside r m m') : SameOutside2 r t m m' := fun x hr _ => h x hr

theorem SameOutside.right (h : SameOutside t m m') : SameOutside2 r t m m' := fun x _ ht => h x ht

theorem SameOutside2.byte {i : Nat} (h : SameOutside2 r t m m') (hr : Apart a r) (ht : Apart a t)
    (hi : i < 32) :
    byte m' a i = byte m a i :=
  h _ (hr _ (inBlock_add hi)) (ht _ (inBlock_add hi))

theorem SameOutside2.num (h : SameOutside2 r t m m') (hr : Apart a r) (ht : Apart a t) :
    num m' a = num m a :=
  limbs_congr fun _ hi => congrArg UInt8.toNat (h.byte hr ht hi)

theorem zero_spec (r : UInt64) (m : Mem) : num (zero r m) r = 0 ∧ SameOutside r m (zero r m) := by
  let I : Nat → Mem → Prop := fun i u => i ≤ 32 → (∀ j < i, byte u r j = 0) ∧ SameOutside r m u
  have hloop : I 32 (zero r m) := by
    refine foldl_range_induction 32 ?_ ?_
    · intro _
      exact ⟨fun j hj => absurd hj (Nat.not_lt_zero j), .refl m⟩
    · intro i u hi h _
      obtain ⟨hdone, hsame⟩ := h (by omega)
      refine ⟨?_, hsame.trans (sameOutside_setByte hi 0)⟩
      intro j hj
      by_cases heq : j = i
      · subst heq
        exact byte_setByte_self 0
      · rw [byte_setByte_of_ne fun h => heq (Overlay.self r j (by omega) i hi h)]
        exact hdone j (by omega)
  obtain ⟨hdone, hsame⟩ := hloop (Nat.le_refl 32)
  refine ⟨limbs_eq_zero fun i hi => ?_, hsame⟩
  unfold digit
  rw [hdone i hi]
  rfl

theorem copy_spec {dst src : UInt64} (h : Apart src dst) (m : Mem) :
    num (copy dst src m) dst = num m src ∧ SameOutside dst m (copy dst src m) := by
  let I : Nat → Mem → Prop := fun i u => i ≤ 32 → (∀ j < i, byte u dst j = byte m src j) ∧ SameOutside dst m u
  have hloop : I 32 (copy dst src m) := by
    refine foldl_range_induction 32 ?_ ?_
    · intro _
      exact ⟨fun j hj => absurd hj (Nat.not_lt_zero j), .refl m⟩
    · intro i u hi hI _
      obtain ⟨hdone, hsame⟩ := hI (by omega)
      refine ⟨?_, hsame.trans (sameOutside_setByte hi _)⟩
      intro j hj
      by_cases heq : j = i
      · subst heq
        rw [byte_setByte_self, hsame.byte h hi]
      · rw [byte_setByte_of_ne fun h => heq (Overlay.self dst j (by omega) i hi h)]
        exact hdone j (by omega)
  obtain ⟨hdone, hsame⟩ := hloop (Nat.le_refl 32)
  exact ⟨limbs_congr fun i hi => congrArg UInt8.toNat (hdone i hi), hsame⟩

end Memory

/-! ### The product -/

/-- A double, without its last carry, reduced modulo `p`. -/
def double (p x : Nat) : Nat :=
  if p ≤ 2 * x % 2 ^ 256 then 2 * x % 2 ^ 256 - p else 2 * x % 2 ^ 256

def doubles (p a : Nat) : Nat → Nat
  | 0 => a
  | k + 1 => double p (doubles p a k)

/-- The sum of the doubles that the lowest bits of `b` select. -/
def partialProduct (p a b : Nat) : Nat → Nat
  | 0 => 0
  | k + 1 => if b.testBit k then (partialProduct p a b k + doubles p a k) % p else partialProduct p a b k

section Product
variable {m : Mem} {t a b p r : UInt64}

theorem double_lt {q x : Nat} (hx : x < q) : double q x < q := by
  unfold double
  split <;> omega

theorem doubles_lt {q x : Nat} (hx : x < q) (k : Nat) : doubles q x k < q := by
  induction k with
  | zero => exact hx
  | succ k ih => exact double_lt ih

theorem partialProduct_lt {q : Nat} (hq : 0 < q) (x y k : Nat) : partialProduct q x y k < q := by
  induction k with
  | zero => exact hq
  | succ k ih =>
    unfold partialProduct
    split
    · exact Nat.mod_lt _ hq
    · exact ih

theorem doubleStep_spec (hp : Apart p t) :
    num (doubleStep t p m) t = double (num m p) (num m t) ∧ SameOutside t m (doubleStep t p m) := by
  obtain ⟨hshift, hsame⟩ := u256ShiftLeft1_spec (m := m) (Overlay.self t)
  have hnum : num (u256ShiftLeft1 t t m) p = num m p := hsame.num hp
  unfold doubleStep double
  by_cases hcmp : u256Cmp (u256ShiftLeft1 t t m) t p ≥ 0
  · obtain ⟨-, -, hsub⟩ := u256Sub_spec (m := u256ShiftLeft1 t t m) (Overlay.self t) (Overlay.of_apart hp)
    have hle := u256Cmp_spec.mp hcmp
    have hslt := num_lt (u256ShiftLeft1 t t m) t
    have hdiff := u256Sub_reduce (m := u256ShiftLeft1 t t m) (x := num (u256ShiftLeft1 t t m) t) hp rfl hle
      (Nat.lt_of_lt_of_le hslt (Nat.le_add_left _ _))
    rw [hnum, hshift] at hle
    dsimp only
    rw [if_pos hcmp, if_pos hle, hdiff, hnum, hshift]
    exact ⟨rfl, hsame.trans hsub⟩
  · have hlt := fun h => hcmp (u256Cmp_spec.mpr h)
    rw [hnum, hshift] at hlt
    dsimp only
    rw [if_neg hcmp, if_neg hlt]
    exact ⟨hshift, hsame⟩

theorem mulStep_spec {i : Nat} {v : UInt8} (hi : i < 8) (hpr : Apart p r) (hpt : Apart p t) (htr : Apart t r)
    (hr : num m r < num m p) (ht : num m t < num m p) :
    num (mulStep t p r v m i) t = double (num m p) (num m t) ∧
      (num (mulStep t p r v m i) r =
        if v.toNat.testBit i then (num m r + num m t) % num m p else num m r) ∧
      SameOutside2 r t m (mulStep t p r v m i) := by
  unfold mulStep
  rw [bitSet_eq v hi]
  by_cases hbit : v.toNat.testBit i = true
  · obtain ⟨hadd, hsame⟩ := u256ModAdd_spec (Overlay.self r) (Overlay.of_apart htr) hpr hr ht
    obtain ⟨hdouble, hsame'⟩ := doubleStep_spec (m := u256ModAdd r t p r m) hpt
    rw [if_pos hbit, if_pos hbit]
    refine ⟨?_, ?_, hsame.left.trans hsame'.right⟩
    · rw [hdouble, hsame.num hpr, hsame.num htr]
    · rw [hsame'.num htr.symm, hadd]
  · obtain ⟨hdouble, hsame⟩ := doubleStep_spec (m := m) hpt
    rw [if_neg hbit, if_neg hbit]
    exact ⟨hdouble, hsame.num htr.symm, hsame.right⟩

/-- The buffers of a product: the result and `temp_a` share no byte with each other or with the factors and
the modulus. -/
structure Layout (t a b p r : UInt64) : Prop where
  ar : Apart a r
  br : Apart b r
  pr : Apart p r
  at_ : Apart a t
  bt : Apart b t
  pt : Apart p t
  tr : Apart t r

theorem setup_spec (hat : Apart a t) (htr : Apart t r) (m : Mem) :
    let m' := copy t a (zero t (zero r m))
    num m' r = 0 ∧ num m' t = num (zero r m) a ∧ SameOutside2 r t m m' := by
  intro m'
  obtain ⟨hzero, hsame⟩ := zero_spec r m
  obtain ⟨-, hsame'⟩ := zero_spec t (zero r m)
  obtain ⟨hcopy, hsame''⟩ := copy_spec hat (zero t (zero r m))
  refine ⟨?_, ?_, hsame.left.trans (hsame'.right.trans hsame''.right)⟩
  · rw [show num m' r = _ from hsame''.num htr.symm, hsame'.num htr.symm, hzero]
  · rw [show num m' t = _ from hcopy, hsame'.num hat]

theorem u256MulMod_eq : u256MulMod t a b p r m =
    (List.range 32).foldl (fun u j => (List.range 8).foldl (mulStep t p r (byte u b j)) u)
      (copy t a (zero t (zero r m))) := rfl

/-- The state of the product after `k` bits. -/
structure AfterBits (t a b p r : UInt64) (m : Mem) (k : Nat) (u : Mem) : Prop where
  temp : num u t = doubles (num m p) (num m a) k
  res : num u r = partialProduct (num m p) (num m a) (num m b) k
  same : SameOutside2 r t m u

/-- **`u256_mul_mod`**, bit by bit. -/
theorem u256MulMod_spec (h : Layout t a b p r) (ha : num m a < num m p) :
    num (u256MulMod t a b p r m) r = partialProduct (num m p) (num m a) (num m b) 256 ∧
      SameOutside2 r t m (u256MulMod t a b p r m) := by
  obtain ⟨hres, htemp, hsame⟩ := setup_spec h.at_ h.tr m
  have hzero : num (zero r m) a = num m a := (zero_spec r m).2.num h.ar
  rw [hzero] at htemp
  have hloop : AfterBits t a b p r m 256 (u256MulMod t a b p r m) := by
    rw [u256MulMod_eq]
    refine @bitLoop_induction (mulStep t p r) b (AfterBits t a b p r m) (fun j v => v = byte m b j) _
      ⟨htemp, hres, hsame⟩ ?_ ?_
    · intro j u hj hI
      exact hI.same.byte h.br h.bt hj
    · rintro j i v u hj hi rfl ⟨ht, hr, hsame⟩
      have hp : num u p = num m p := hsame.num h.pr h.pt
      have hrlt : num u r < num u p := by
        rw [hr, hp]
        exact partialProduct_lt (Nat.lt_of_le_of_lt (Nat.zero_le _) ha) _ _ _
      have htlt : num u t < num u p := by
        rw [ht, hp]
        exact doubles_lt ha _
      obtain ⟨ht', hr', hstep⟩ := mulStep_spec (v := byte m b j) hi h.pr h.pt h.tr hrlt htlt
      refine ⟨?_, ?_, hsame.trans hstep⟩
      · rw [ht', hp, ht]
        rfl
      · rw [hr', hp, ht, hr, ← testBit_num m b hj hi]
        rfl
  exact ⟨hloop.res, hloop.same⟩

/-- **A product in place of its first factor** is zero, whatever the second factor is. -/
theorem u256MulMod_self (hpr : Apart p r) (hpt : Apart p t) (htr : Apart t r)
    (hp : 0 < num m p) (b : UInt64) :
    num (u256MulMod t r b p r m) r = 0 ∧ SameOutside2 r t m (u256MulMod t r b p r m) := by
  obtain ⟨hres, htemp, hsame⟩ := setup_spec htr.symm htr m
  rw [(zero_spec r m).1] at htemp
  have hloop : num (u256MulMod t r b p r m) t = 0 ∧ num (u256MulMod t r b p r m) r = 0 ∧
      SameOutside2 r t m (u256MulMod t r b p r m) := by
    rw [u256MulMod_eq]
    refine @bitLoop_induction (mulStep t p r) b (fun _ u => num u t = 0 ∧ num u r = 0 ∧ SameOutside2 r t m u)
      (fun _ _ => True) _ ⟨htemp, hres, hsame⟩ (fun _ _ _ _ => trivial) ?_
    rintro j i v u hj hi - ⟨ht, hr, hsame⟩
    have hp' : num u p = num m p := hsame.num hpr hpt
    have hdouble : double (num m p) 0 = 0 := by
      unfold double
      rw [Nat.mul_zero, Nat.zero_mod, if_neg (Nat.not_le.mpr hp)]
    obtain ⟨ht', hr', hstep⟩ := mulStep_spec (m := u) (v := v) hi hpr hpt htr (by omega) (by omega)
    show num (mulStep t p r v u i) t = 0 ∧ num (mulStep t p r v u i) r = 0 ∧ SameOutside2 r t m _
    refine ⟨?_, ?_, hsame.trans hstep⟩
    · rw [ht', hp', ht, hdouble]
    · rw [hr', ht, hr, Nat.add_zero, Nat.zero_mod, ite_self]
  exact ⟨hloop.2.1, hloop.2.2⟩

end Product

/-! ### When the product is exact -/

section Exact
variable {p a b : Nat}

theorem double_exact {x : Nat} (hx : x < p) (hloss : x < 2 ^ 255) : double p x = 2 * x % p := by
  unfold double
  have hsmall : 2 * x % 2 ^ 256 = 2 * x := Nat.mod_eq_of_lt (by omega)
  rw [hsmall]
  split
  · rename_i hle
    rw [Nat.mod_eq_sub_mod hle, Nat.mod_eq_of_lt (by omega)]
  · rename_i hlt
    rw [Nat.mod_eq_of_lt (by omega)]

theorem doubles_exact (ha : a < p) (hloss : ∀ k, 2 ^ (k + 1) ≤ b → a * 2 ^ k % p < 2 ^ 255) :
    ∀ k, 2 ^ k ≤ b → doubles p a k = a * 2 ^ k % p := by
  intro k
  induction k with
  | zero =>
    intro _
    rw [Nat.pow_zero, Nat.mul_one, Nat.mod_eq_of_lt ha]
    rfl
  | succ k ih =>
    intro hb
    have hprev := ih (Nat.le_trans (Nat.pow_le_pow_right (by decide) (Nat.le_succ k)) hb)
    have hlt : a * 2 ^ k % p < p := Nat.mod_lt _ (Nat.lt_of_le_of_lt (Nat.zero_le a) ha)
    show double p (doubles p a k) = _
    rw [hprev, double_exact hlt (hloss k hb), Nat.mul_mod_mod, Nat.pow_succ, Nat.mul_comm 2, Nat.mul_assoc]

/-- **The product is exact** when no double that is used loses its carry. -/
theorem partialProduct_exact (ha : a < p) (hloss : ∀ k, 2 ^ (k + 1) ≤ b → a * 2 ^ k % p < 2 ^ 255) (k : Nat) :
    partialProduct p a b k = a * (b % 2 ^ k) % p := by
  induction k with
  | zero =>
    rw [Nat.pow_zero, Nat.mod_one, Nat.mul_zero, Nat.zero_mod]
    rfl
  | succ k ih =>
    unfold partialProduct
    rw [ih, Nat.mod_pow_succ, ← Nat.toNat_testBit]
    by_cases hbit : b.testBit k = true
    · rw [if_pos hbit, hbit, doubles_exact ha hloss k (Nat.ge_two_pow_of_testBit hbit), ← Nat.add_mod,
        Bool.toNat_true, Nat.mul_one, Nat.mul_add]
    · rw [if_neg hbit, Bool.not_eq_true _ |>.mp hbit, Bool.toNat_false, Nat.mul_zero, Nat.add_zero]

theorem no_loss (hp : p ≤ 2 ^ 255) (ha : a < p) (k : Nat) : a * 2 ^ k % p < 2 ^ 255 :=
  Nat.lt_of_lt_of_le (Nat.mod_lt _ (Nat.lt_of_le_of_lt (Nat.zero_le a) ha)) hp

theorem partialProduct_two (hlow : 2 ^ 255 < p) (hhigh : p < 2 ^ 256) :
    partialProduct p (p - 1) 2 256 ≠ (p - 1) * 2 % p := by
  have hdouble : double p (p - 1) = 2 * p - 2 - 2 ^ 256 := by
    unfold double
    have hmod : 2 * (p - 1) % 2 ^ 256 = 2 * p - 2 - 2 ^ 256 := by omega
    rw [hmod, if_neg (by omega)]
  have hlater : ∀ k, partialProduct p (p - 1) 2 (k + 2) = 2 * p - 2 - 2 ^ 256 := by
    intro k
    induction k with
    | zero =>
      show (if Nat.testBit 2 1 then (partialProduct p (p - 1) 2 1 + doubles p (p - 1) 1) % p else _) = _
      have hfirst : partialProduct p (p - 1) 2 1 = 0 := rfl
      have hone : doubles p (p - 1) 1 = double p (p - 1) := rfl
      rw [if_pos (by decide), hfirst, hone, hdouble, Nat.zero_add, Nat.mod_eq_of_lt (by omega)]
    | succ k ih =>
      have hbit : Nat.testBit 2 (k + 2) = false := by
        rw [Nat.testBit_eq_false_of_lt]
        exact Nat.lt_of_lt_of_le (by decide : 2 < 2 ^ 2)
          (Nat.pow_le_pow_right (by decide) (Nat.le_add_left 2 k))
      show (if Nat.testBit 2 (k + 2) then _ else partialProduct p (p - 1) 2 (k + 2)) = _
      rw [if_neg (by rw [hbit]; decide), ih]
  have hright : (p - 1) * 2 % p = p - 2 := by
    have hsplit : (p - 1) * 2 = p - 2 + p := by omega
    rw [hsplit, Nat.add_mod_right, Nat.mod_eq_of_lt (by omega)]
  rw [hlater 254, hright]
  omega

end Exact

/-! ### The inverse -/

/-- The buffers of an inverse. -/
structure InverseLayout (t base a p e r : UInt64) : Prop where
  ar : Apart a r
  pr : Apart p r
  er : Apart e r
  ab : Apart a base
  pb : Apart p base
  eb : Apart e base
  pt : Apart p t
  et : Apart e t
  br : Apart base r
  tr : Apart t r
  tb : Apart t base

section Inverse
variable {m : Mem} {t base a p e r : UInt64}

theorem inverseStep_eq (v : UInt8) (i : Nat) : inverseStep t base p r v m i =
    u256MulMod t base base p base (if bitSet v i then u256MulMod t r base p r m else m) := rfl

theorem inverseStep_spec (h : InverseLayout t base a p e r) (hp : 0 < num m p) {v : UInt8} {i : Nat}
    (hi : i < 8) :
    let u := inverseStep t base p r v m i
    num u r = (if v.toNat.testBit i then 0 else num m r) ∧ num u p = num m p ∧
      ∀ j < 32, byte u e j = byte m e j := by
  dsimp only
  rw [inverseStep_eq, bitSet_eq v hi]
  -- The square of `base`, which is done in any case.
  have hsquare : ∀ w : Mem, num w p = num m p →
      let w' := u256MulMod t base base p base w
      num w' r = num w r ∧ num w' p = num m p ∧ ∀ j < 32, byte w' e j = byte w e j := by
    intro w hw
    obtain ⟨-, hsame⟩ := u256MulMod_self (m := w) h.pb h.pt h.tb (by omega) base
    exact ⟨hsame.num h.br.symm h.tr.symm, (hsame.num h.pb h.pt).trans hw, fun j hj => hsame.byte h.eb h.et hj⟩
  by_cases hbit : v.toNat.testBit i = true
  · obtain ⟨hzero, hsame⟩ := u256MulMod_self h.pr h.pt h.tr hp base
    obtain ⟨hres, hmod, hexp⟩ := hsquare (u256MulMod t r base p r m) (hsame.num h.pr h.pt)
    rw [if_pos hbit, if_pos hbit, hres, hzero]
    exact ⟨rfl, hmod, fun j hj => (hexp j hj).trans (hsame.byte h.er h.et hj)⟩
  · obtain ⟨hres, hmod, hexp⟩ := hsquare m rfl
    rw [if_neg hbit, if_neg hbit]
    exact ⟨hres, hmod, hexp⟩

theorem u256ModInverse_eq : u256ModInverse t base a p e r m =
    (List.range 32).foldl (fun u j => (List.range 8).foldl (inverseStep t base p r (byte u e j)) u)
      (copy base a (zero base (setByte (zero r m) r 0 1))) := rfl

theorem num_one (r : UInt64) (m : Mem) : num (setByte (zero r m) r 0 1) r = 1 := by
  have hzero := digit_eq_zero (by decide) (zero_spec r m).1
  have hfirst : digit (setByte (zero r m) r 0 1) r 0 = 1 := congrArg UInt8.toNat (byte_setByte_self 1)
  unfold num
  rw [limbs_single (n := 31), hfirst]
  intro i hi
  unfold digit
  rw [byte_setByte_of_ne fun h => Nat.succ_ne_zero i (Overlay.self r (i + 1) (by omega) 0 (by decide) h)]
  exact hzero (i + 1) (by omega)

/-- The state of the inverse after `k` bits of the exponent. -/
structure AfterExponent (p e r : UInt64) (m : Mem) (k : Nat) (u : Mem) : Prop where
  res : num u r = if num m e % 2 ^ k = 0 then 1 else 0
  modulus : num u p = num m p
  exponent : ∀ j < 32, byte u e j = byte m e j

/-- **`u256_mod_inverse`** leaves one for the exponent zero, and zero for any other. -/
theorem u256ModInverse_spec (h : InverseLayout t base a p e r) (hp : 0 < num m p) :
    num (u256ModInverse t base a p e r m) r = if num m e = 0 then 1 else 0 := by
  have hone := num_one r m
  have hset : SameOutside r m (setByte (zero r m) r 0 1) :=
    (zero_spec r m).2.trans (sameOutside_setByte (by decide) 1)
  rw [u256ModInverse_eq]
  generalize setByte (zero r m) r 0 1 = m₁ at hone hset ⊢
  obtain ⟨-, hclear⟩ := zero_spec base m₁
  obtain ⟨-, hcopy⟩ := copy_spec h.ab (zero base m₁)
  have hsame := hclear.trans hcopy
  have hinit : AfterExponent p e r m 0 (copy base a (zero base m₁)) := by
    refine ⟨?_, ?_, ?_⟩
    · rw [hsame.num h.br.symm, hone, Nat.pow_zero, Nat.mod_one, if_pos rfl]
    · rw [hsame.num h.pb, hset.num h.pr]
    · intro j hj
      rw [hsame.byte h.eb hj, hset.byte h.er hj]
  have hloop := @bitLoop_induction (inverseStep t base p r) e (AfterExponent p e r m)
    (fun j v => v = byte m e j) _ hinit (fun j u hj hu => hu.exponent j hj) (by
      rintro j i v u hj hi rfl ⟨hres, hmod, hexp⟩
      obtain ⟨hres', hmod', hexp'⟩ := inverseStep_spec (m := u) h (by omega) (v := byte m e j) hi
      refine ⟨?_, hmod'.trans hmod, fun l hl => (hexp' l hl).trans (hexp l hl)⟩
      have hbit : num m e % 2 ^ (8 * j + i + 1) = 0 ↔
          num m e % 2 ^ (8 * j + i) = 0 ∧ (byte m e j).toNat.testBit i = false := by
        rw [Nat.mod_pow_succ, ← Nat.toNat_testBit, testBit_num m e hj hi, Nat.add_eq_zero_iff,
          Nat.mul_eq_zero,
          Bool.toNat_eq_zero]
        simp
      rw [hres', hres]
      by_cases hset : (byte m e j).toNat.testBit i = true
      · rw [if_pos hset, if_neg (by rw [hbit, hset]; simp)]
      · have hclear : (byte m e j).toNat.testBit i = false := Bool.not_eq_true _ |>.mp hset
        rw [if_neg hset]
        simp only [hbit, hclear, and_true])
  rw [hloop.res, Nat.mod_eq_of_lt (num_lt m e)]

end Inverse

/-! ### Exact moduli -/

/-- Sums modulo `p` are exact. -/
def AddExact (p : Nat) : Prop :=
  ∀ (m : Mem) (a b q r : UInt64), Apart a r → Apart b r → Apart q r →
    num m q = p → num m a < p → num m b < p →
    num (u256ModAdd a b q r m) r = (num m a + num m b) % p

/-- Products modulo `p` are exact. -/
def MulExact (p : Nat) : Prop :=
  ∀ (m : Mem) (t a b q r : UInt64), Layout t a b q r → num m q = p → num m a < p → num m b < p →
    num (u256MulMod t a b q r m) r = num m a * num m b % p

/-- Inverses modulo `p` are exact. -/
def InverseExact (p : Nat) : Prop :=
  ∀ (m : Mem) (t base a q e r : UInt64), InverseLayout t base a q e r → num m q = p → num m e = p - 2 →
    0 < num m a → num m a < p →
    num (u256ModInverse t base a q e r m) r < p ∧ num m a * num (u256ModInverse t base a q e r m) r % p = 1

/-- All operations modulo `p` are exact. -/
def ModularExact (p : Nat) : Prop :=
  AddExact p ∧ MulExact p ∧ (p.Prime → InverseExact p)

/-- A memory with these numbers, 32 bytes apart. -/
def memOf (vals : Nat → Nat) : Mem := fun x => UInt8.ofNat (vals (x.toNat / 32) / 256 ^ (x.toNat % 32))

theorem num_memOf (vals : Nat → Nat) {j : Nat} (hj : j < 8) :
    num (memOf vals) (UInt64.ofNat (32 * j)) = vals j % 2 ^ 256 := by
  have hdigit : ∀ i < 32, digit (memOf vals) (UInt64.ofNat (32 * j)) i = vals j / 256 ^ i % 256 := by
    intro i hi
    have hplace : (UInt64.ofNat (32 * j) + UInt64.ofNat i).toNat = 32 * j + i := by
      rw [← UInt64.ofNat_add, UInt64.toNat_ofNat', Nat.mod_eq_of_lt (by omega)]
    unfold digit byte memOf
    rw [hplace, UInt8.toNat_ofNat', show (32 * j + i) / 32 = j by omega, show (32 * j + i) % 32 = i by omega]
  rw [← pow_radix, ← limbs_digits]
  exact limbs_congr hdigit

theorem apart_memOf {a b : UInt64} (ha : a.toNat % 32 = 0) (hb : b.toNat % 32 = 0)
    (hne : a ≠ b) : Apart a b :=
  disjoint_of_aligned ⟨2 ^ 59, by norm_num⟩ ha hb hne

theorem addExact (p : Nat) : AddExact p := by
  rintro m a b q r ha hb hq rfl hla hlb
  exact (u256ModAdd_spec (Overlay.of_apart ha) (Overlay.of_apart hb) hq hla hlb).1

/-- **A product is exact** when no double of the first factor that is used loses its carry. -/
theorem u256MulMod_exact {m : Mem} {t a b q r : UInt64} (h : Layout t a b q r) (ha : num m a < num m q)
    (hloss : ∀ k, 2 ^ (k + 1) ≤ num m b → num m a * 2 ^ k % num m q < 2 ^ 255) :
    num (u256MulMod t a b q r m) r = num m a * num m b % num m q := by
  rw [(u256MulMod_spec h ha).1, partialProduct_exact ha hloss, Nat.mod_eq_of_lt (num_lt m b)]

theorem mulExact_iff {p : Nat} (h2 : 2 ≤ p) (hp : p < 2 ^ 256) : MulExact p ↔ p ≤ 2 ^ 255 := by
  constructor
  · intro h
    by_contra hlow
    -- The greatest number, and two.
    let vals : Nat → Nat := fun j => if j = 0 then p - 1 else if j = 1 then 2 else p
    have ha : num (memOf vals) 0 = p - 1 :=
      (num_memOf vals (show 0 < 8 by decide)).trans (Nat.mod_eq_of_lt (by show p - 1 < _; omega))
    have hb : num (memOf vals) 32 = 2 :=
      (num_memOf vals (show 1 < 8 by decide)).trans (Nat.mod_eq_of_lt (by show 2 < _; omega))
    have hq : num (memOf vals) 64 = p :=
      (num_memOf vals (show 2 < 8 by decide)).trans (Nat.mod_eq_of_lt hp)
    have hlayout : Layout 128 0 32 64 96 := by
      refine ⟨?_, ?_, ?_, ?_, ?_, ?_, ?_⟩ <;> exact apart_memOf (by decide) (by decide) (by decide)
    have hexact := h (memOf vals) 128 0 32 64 96 hlayout hq (by omega) (by omega)
    rw [(u256MulMod_spec hlayout (by omega)).1, ha, hb, hq] at hexact
    exact partialProduct_two (Nat.lt_of_not_le hlow) hp hexact
  · rintro hlow m t a b q r h rfl ha hb
    exact u256MulMod_exact h ha fun k _ => no_loss hlow ha k

theorem inverseExact_iff {p : Nat} (h2 : 2 ≤ p) (hp : p < 2 ^ 256) : InverseExact p ↔ p = 2 := by
  constructor
  · intro h
    by_contra hne
    let vals : Nat → Nat := fun j => if j = 0 then 1 else if j = 1 then p - 2 else p
    have ha : num (memOf vals) 0 = 1 :=
      (num_memOf vals (show 0 < 8 by decide)).trans (Nat.mod_eq_of_lt (by show 1 < _; omega))
    have he : num (memOf vals) 32 = p - 2 :=
      (num_memOf vals (show 1 < 8 by decide)).trans (Nat.mod_eq_of_lt (by show p - 2 < _; omega))
    have hq : num (memOf vals) 64 = p :=
      (num_memOf vals (show 2 < 8 by decide)).trans (Nat.mod_eq_of_lt hp)
    have hlayout : InverseLayout 128 160 0 64 32 96 := by
      refine ⟨?_, ?_, ?_, ?_, ?_, ?_, ?_, ?_, ?_, ?_, ?_⟩ <;>
        exact apart_memOf (by decide) (by decide) (by decide)
    have hexact := (h (memOf vals) 128 160 0 64 32 96 hlayout hq he (by omega) (by omega)).2
    rw [u256ModInverse_spec hlayout (by omega), he, if_neg (by omega), Nat.mul_zero, Nat.zero_mod] at hexact
    exact absurd hexact (by decide)
  · rintro rfl m t base a q e r h hq he hpos hlt
    have hone : num m a = 1 := by omega
    rw [u256ModInverse_spec h (by omega), he, hone]
    decide

/-- **256-bit modular arithmetic.** Sums are exact for every modulus.  A product is exact when no double that
is used loses its carry, and all products modulo `p` are when `p` is at most `2 ^ 255`.  An inverse is the
inverse modulo 2 only. -/
theorem exact_iff (p : Nat) (h2 : 2 ≤ p) (hp : p < 2 ^ 256) :
    AddExact p ∧
      (∀ (m : Mem) (t a b q r : UInt64), Layout t a b q r → num m q = p → num m a < p →
        (∀ k, 2 ^ (k + 1) ≤ num m b → num m a * 2 ^ k % p < 2 ^ 255) →
        num (u256MulMod t a b q r m) r = num m a * num m b % p) ∧
      (MulExact p ↔ p ≤ 2 ^ 255) ∧ (InverseExact p ↔ p = 2) ∧
      (ModularExact p ↔ p ≤ 2 ^ 255 ∧ (p.Prime → p = 2)) := by
  refine ⟨addExact p, ?_, mulExact_iff h2 hp, inverseExact_iff h2 hp, ?_⟩
  · rintro m t a b q r h rfl ha hloss
    exact u256MulMod_exact h ha hloss
  · unfold ModularExact
    rw [mulExact_iff h2 hp, inverseExact_iff h2 hp]
    exact and_iff_right (addExact p)

/-- Modulo 4, which is not a prime, all is exact. -/
theorem exact_iff_four : ModularExact 4 :=
  (exact_iff 4 (by decide) (by norm_num)).2.2.2.2.mpr ⟨by norm_num, fun h => absurd h (by decide)⟩

/-- Modulo 3 the inverse of 1 is computed as zero. -/
theorem not_modularExact : ¬∀ p, 2 ≤ p → p < 2 ^ 256 → ModularExact p := by
  intro h
  have hinverse := (h 3 (by decide) (by norm_num)).2.2 (by decide)
  exact absurd ((inverseExact_iff (by decide) (by norm_num)).mp hinverse) (by decide)

end Keuos.Netd.BigInt
