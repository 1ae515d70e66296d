import Keuos.Lib.Memory

/-!
# Byte strings in memory

`Holds m a l` says that the bytes of `l` are in the memory from the address `a` on, and `store a l m` writes
them there, one after the other.

## Main results

* `holds_append`: two strings that follow each other.
* `store_append`: two stores that follow each other are one.
* `holds_store`: what was stored is there.
* `copyIn_eq_store`: a copy of a string that the memory holds is a store.
-/

namespace Keuos

/-- The memory holds the bytes of `l` from `a` on. -/
def Holds (m : Mem) (a : UInt64) (l : List UInt8) : Prop :=
  ∀ i, (h : i < l.length) → m (a + UInt64.ofNat i) = l[i]

theorem add_ofNat_add (a : UInt64) (i j : Nat) :
    a + UInt64.ofNat i + UInt64.ofNat j = a + UInt64.ofNat (i + j) := by
  rw [UInt64.add_assoc, UInt64.ofNat_add]

section Holds

variable {m : Mem} {a : UInt64} {l l' : List UInt8}

theorem holds_nil (m : Mem) (a : UInt64) : Holds m a [] :=
  fun _ h => absurd h (Nat.not_lt_zero _)

/-- **Two strings that follow each other.** -/
theorem holds_append :
    Holds m a (l ++ l') ↔ Holds m a l ∧ Holds m (a + UInt64.ofNat l.length) l' := by
  constructor
  · intro h
    constructor
    · intro i hi
      rw [h i (by rw [List.length_append]; omega), List.getElem_append_left hi]
    · intro i hi
      rw [add_ofNat_add, h (l.length + i) (by rw [List.length_append]; omega),
        List.getElem_append_right (Nat.le_add_right _ _)]
      congr 1
      omega
  · rintro ⟨h, h'⟩ i hi
    rw [List.length_append] at hi
    by_cases hlt : i < l.length
    · rw [h i hlt, List.getElem_append_left hlt]
    · have hle : l.length ≤ i := Nat.not_lt.mp hlt
      rw [List.getElem_append_right hle, ← h' (i - l.length) (by omega), add_ofNat_add,
        Nat.add_sub_cancel' hle]

theorem holds_cons {b : UInt8} : Holds m a (b :: l) ↔ m a = b ∧ Holds m (a + 1) l := by
  have hsplit : Holds m a (b :: l) ↔ _ := @holds_append m a [b] l
  have hone : Holds m a [b] ↔ m a = b := by
    constructor
    · intro h
      have hzero := h 0 (Nat.zero_lt_one)
      rwa [show UInt64.ofNat 0 = 0 from rfl, UInt64.add_zero] at hzero
    · intro h i hi
      obtain rfl : i = 0 := Nat.lt_one_iff.mp hi
      rw [show UInt64.ofNat 0 = 0 from rfl, UInt64.add_zero]
      exact h
  rw [hsplit, hone]
  rfl

theorem Holds.take (h : Holds m a l) (k : Nat) : Holds m a (l.take k) := by
  rw [← List.take_append_drop k l, holds_append] at h
  exact h.1

theorem Holds.drop (h : Holds m a l) {k : Nat} (hk : k ≤ l.length) :
    Holds m (a + UInt64.ofNat k) (l.drop k) := by
  rw [← List.take_append_drop k l, holds_append, List.length_take_of_le hk] at h
  exact h.2

theorem Holds.congr {m' : Mem} (h : Holds m a l) (hsame : ∀ i < l.length,
    m' (a + UInt64.ofNat i) = m (a + UInt64.ofNat i)) : Holds m' a l :=
  fun i hi => (hsame i hi).trans (h i hi)

end Holds

namespace Mem

/-- Write the bytes of `l` from `a` on. -/
def store (a : UInt64) : List UInt8 → Mem → Mem
  | [], m => m
  | b :: l, m => store (a + 1) l (m.write8 a b)

variable {m : Mem} {a : UInt64} {l l' : List UInt8}

@[simp] theorem store_nil (a : UInt64) (m : Mem) : store a [] m = m := rfl

theorem store_cons (a : UInt64) (b : UInt8) (l : List UInt8) (m : Mem) :
    store a (b :: l) m = store (a + 1) l (m.write8 a b) := rfl

/-- **Two stores that follow each other.** -/
theorem store_append (a : UInt64) (l l' : List UInt8) (m : Mem) :
    store a (l ++ l') m = store (a + UInt64.ofNat l.length) l' (store a l m) := by
  induction l generalizing a m with
  | nil =>
    rw [List.nil_append, List.length_nil, show UInt64.ofNat 0 = 0 from rfl, UInt64.add_zero, store_nil]
  | cons b l ih =>
    rw [List.cons_append, store_cons, store_cons, ih, List.length_cons, Nat.add_comm l.length 1,
      ← add_ofNat_add]
    rfl

theorem store_of_not_mem {x : UInt64} (h : ¬InBlock a l.length x) (hl : l.length < 2 ^ 64) (m : Mem) :
    store a l m x = m x := by
  induction l generalizing a m with
  | nil => rfl
  | cons b l ih =>
    rw [List.length_cons] at h hl
    rw [inBlock_succ (by omega), not_or] at h
    rw [store_cons, ih h.2 (by omega), write8, Function.update_of_ne h.1]

/-- **What was stored is there.** -/
theorem holds_store (hl : l.length < 2 ^ 64) (a : UInt64) (m : Mem) : Holds (store a l m) a l := by
  induction l generalizing a m with
  | nil => exact holds_nil _ a
  | cons b l ih =>
    rw [List.length_cons] at hl
    rw [holds_cons, store_cons]
    refine ⟨?_, ih (by omega) (a + 1) _⟩
    rw [store_of_not_mem (not_inBlock_next (by omega) a) (by omega), write8, Function.update_self]

/-- **A copy of a string that the memory holds.** -/
theorem copyIn_eq_store {src : Nat → UInt8} (hsrc : ∀ i, (h : i < l.length) → src i = l[i])
    (hl : l.length < 2 ^ 64) (a : UInt64) (m : Mem) : copyIn src l.length a m = store a l m := by
  funext x
  unfold copyIn
  by_cases hx : InBlock a l.length x
  · have hoff : x = a + UInt64.ofNat (x - a).toNat := by
      rw [UInt64.ofNat_toNat]
      grind
    have hheld := holds_store hl a m (x - a).toNat hx
    rw [← hoff] at hheld
    rw [if_pos hx, hsrc _ hx, hheld]
  · rw [if_neg hx, store_of_not_mem hx hl]

end Mem

end Keuos
