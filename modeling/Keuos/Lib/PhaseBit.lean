import Keuos.Lib.Circular

/-!
# Queues with a phase bit

The producer of a circular queue marks every entry with a phase bit, and turns the bit each time it goes
around. The consumer does not see the producer's tail: it looks at the bit of the entry at its head, and turns
the bit that it expects each time it goes around.  `Phased` says what the two sides know of each other, and
`Phased.expected_iff` that the bit tells whether the queue is empty.
-/

namespace Keuos.PhaseBit

/-- A lap turns the bit. -/
def nextPhase (size pos : Nat) (phase : Bool) : Bool :=
  if pos + 1 < size then phase else !phase

/-- The slots that the producer has written in this lap have its bit, the others the other bit, and the
consumer is in the same lap or in the one before. -/
structure Phased (bit : Nat → Bool) (size tail head : Nat) (phase expected : Bool) : Prop where
  tail_lt : tail < size
  head_lt : head < size
  written : ∀ k < tail, bit k = phase
  unwritten : ∀ k, tail ≤ k → k < size → bit k = !phase
  lap : expected = if head ≤ tail then phase else !phase

section Phased

variable {bit bit' : Nat → Bool} {size tail head : Nat} {phase expected : Bool}

theorem phased_init (hsize : 0 < size) (hbit : ∀ k < size, bit k = false) : Phased bit size 0 0
    true true where
  tail_lt := hsize
  head_lt := hsize
  written := nofun
  unwritten k _ hk := hbit k hk
  lap := rfl

/-- **The bit at the head** is the expected one when the queue is not empty. -/
theorem Phased.expected_iff (h : Phased bit size tail head phase expected) :
    bit head = expected ↔ head ≠ tail := by
  rw [h.lap]
  rcases Nat.lt_trichotomy head tail with hlt | rfl | hgt
  · simp [h.written head hlt, Nat.le_of_lt hlt, Nat.ne_of_lt hlt]
  · simp [h.unwritten head (Nat.le_refl _) h.head_lt]
  · simp [h.unwritten head (Nat.le_of_lt hgt) h.head_lt, Nat.not_le_of_gt hgt, Nat.ne_of_gt hgt]

theorem Phased.consume (h : Phased bit size tail head phase expected) (hne : head ≠ tail) :
    Phased bit size tail ((head + 1) % size) phase (nextPhase size head expected) := by
  have htail := h.tail_lt
  have hhead := h.head_lt
  refine ⟨htail, Nat.mod_lt _ (Nat.zero_lt_of_lt htail), h.written, h.unwritten, ?_⟩
  rw [h.lap]
  unfold nextPhase
  by_cases hwrap : head + 1 < size
  · rw [if_pos hwrap, Nat.mod_eq_of_lt hwrap]
    by_cases hle : head ≤ tail
    · rw [if_pos hle, if_pos (by omega)]
    · rw [if_neg hle, if_neg (by omega)]
  · -- the producer is in the next lap already
    have hlast : head + 1 = size := by omega
    rw [if_neg hwrap, hlast, Nat.mod_self, if_neg (by omega), if_pos (Nat.zero_le _), Bool.not_not]

theorem Phased.produce (h : Phased bit size tail head phase expected) (hroom : (tail + 1) % size ≠ head)
    (hbit : bit' tail = phase) (hother : ∀ k < size, k ≠ tail → bit' k = bit k) :
    Phased bit' size ((tail + 1) % size) head (nextPhase size tail phase) expected := by
  have htail := h.tail_lt
  have hhead := h.head_lt
  -- the entries of this lap, with the new one
  have hwritten : ∀ k ≤ tail, bit' k = phase := by
    intro k hk
    rcases Nat.lt_or_eq_of_le hk with hlt | rfl
    · rw [hother k (by omega) (by omega), h.written k hlt]
    · exact hbit
  unfold nextPhase
  by_cases hwrap : tail + 1 < size
  · rw [Nat.mod_eq_of_lt hwrap] at hroom ⊢
    rw [if_pos hwrap]
    refine ⟨hwrap, hhead, fun k hk => hwritten k (by omega), fun k hk hlt => ?_, ?_⟩
    · rw [hother k hlt (by omega), h.unwritten k (by omega) hlt]
    · rw [h.lap]
      by_cases hle : head ≤ tail
      · rw [if_pos hle, if_pos (by omega)]
      · rw [if_neg hle, if_neg (by omega)]
  · -- a new lap begins: all entries are those of the lap that has ended
    have hlast : tail + 1 = size := by omega
    rw [hlast, Nat.mod_self] at hroom
    rw [if_neg hwrap, hlast, Nat.mod_self]
    refine ⟨by omega, hhead, nofun, fun k _ hlt => ?_, ?_⟩
    · rw [hwritten k (by omega), Bool.not_not]
    · rw [h.lap, if_pos (by omega), if_neg (by omega), Bool.not_not]

end Phased

end Keuos.PhaseBit
