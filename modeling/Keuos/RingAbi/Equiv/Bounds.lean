import Keuos.RingAbi.Defs

/-!
# What one drain does

The indices of both queues lie in pages that the process can write.  `drain_sq` masks them, so it never
leaves the two pages.  It does not compare the number of submissions with the capacity: it dispatches
as many as the difference of two words of the page says, and none when the tail is ahead of the head.
So a drain is bounded exactly when the indices are those of a ring (`drainBounded_iff`).
-/

namespace Keuos.RingAbi

/-! ### Entries lie in their page -/

theorem toNat_and_ringMask (x : UInt64) : (x &&& ringMask).toNat = x.toNat % 32 := by
  rw [UInt64.toNat_and, show ringMask.toNat = 2 ^ 5 - 1 from rfl, Nat.and_two_pow_sub_one_eq_mod]

/-- The `size` bytes at an address lie in the page at `base`. -/
def InPage (base a : UInt64) (size : Nat) : Prop :=
  (a - base).toNat + size ≤ 4096

theorem inPage_sqeAddr (sqKern tail : UInt64) : InPage sqKern (sqeAddr sqKern tail) 64 := by
  unfold InPage sqeAddr headerSize sqeSize
  have hsub : sqKern + 64 + (tail &&& ringMask) * 64 - sqKern = 64 + (tail &&& ringMask) * 64 := by
    grind
  rw [hsub, UInt64.toNat_add, UInt64.toNat_mul, toNat_and_ringMask,
    show (64 : UInt64).toNat = 64 from rfl]
  omega

theorem inPage_cqeAddr (cqKern head : UInt64) : InPage cqKern (cqeAddr cqKern head) 32 := by
  unfold InPage cqeAddr headerSize cqeSize
  have hsub : cqKern + 64 + (head &&& ringMask) * 32 - cqKern = 64 + (head &&& ringMask) * 32 := by
    grind
  rw [hsub, UInt64.toNat_add, UInt64.toNat_mul, toNat_and_ringMask,
    show (64 : UInt64).toNat = 64 from rfl, show (32 : UInt64).toNat = 32 from rfl]
  omega

/-! ### The loop -/

section Loop

variable (ring : ProcessRing) (ops : RingOps)

/-- The entries that were read and written so far lie in their pages. -/
def Contained (read posted : List UInt64) : Prop :=
  (∀ e ∈ read, InPage ring.sqKern e 64) ∧ ∀ e ∈ posted, InPage ring.cqKern e 32

theorem Contained.dispatchSqe {d : Drained} (h : Contained ring d.read d.posted) (tail : UInt64) :
    ∃ d₁, dispatchSqe ops ring.cqKern (sqeAddr ring.sqKern tail) d = d₁ ∧
      Contained ring d₁.read d₁.posted ∧ d₁.read.length = d.read.length + 1 := by
  refine ⟨_, rfl, ?_, by unfold RingAbi.dispatchSqe; rw [List.length_append, List.length_singleton]⟩
  constructor
  · intro e he
    obtain he | he := List.mem_append.mp he
    · exact h.1 e he
    · rw [List.mem_singleton.mp he]
      exact inPage_sqeAddr ring.sqKern tail
  · intro e he
    obtain he | he := List.mem_append.mp he
    · exact h.2 e he
    · split at he
      · exact absurd he (by simp)
      · rw [List.mem_singleton.mp he]
        exact inPage_cqeAddr ring.cqKern _

/-- **The loop of a drain** dispatches one submission for each index below `head`. -/
theorem drainLoop_spec (head : UInt64) {n : Nat} {tail : UInt64} {d : Drained}
    (hn : n = head.toNat - tail.toNat) (hd : Contained ring d.read d.posted) :
    ∃ d', drainLoop ring ops head n tail d = d' ∧ Contained ring d'.read d'.posted ∧
      d'.read.length = d.read.length + n ∧
      (0 < n → d'.mem.read64 (ring.sqKern + hdrTail) = head) ∧ (n = 0 → d'.mem = d.mem) := by
  induction n generalizing tail d with
  | zero => exact ⟨d, rfl, hd, rfl, fun h => absurd h (Nat.lt_irrefl 0), fun _ => rfl⟩
  | succ n ih =>
    have hlt : tail < head := by
      rw [UInt64.lt_iff_toNat_lt]
      omega
    have hsucc : (tail + 1).toNat = tail.toNat + 1 := by
      have := head.toNat_lt
      rw [UInt64.toNat_add, UInt64.toNat_one]
      omega
    obtain ⟨d₁, hdisp, hcont₁, hread⟩ := hd.dispatchSqe ring ops tail
    have hstep : drainLoop ring ops head (n + 1) tail d = drainLoop ring ops head n (tail + 1)
        ⟨d₁.mem.write64 (ring.sqKern + hdrTail) (tail + 1), d₁.read, d₁.posted, d₁.sqes⟩ := by
      rw [drainLoop, if_pos hlt, hdisp]
    have htail := Mem.read64_write64_self d₁.mem (ring.sqKern + hdrTail) (tail + 1)
    rw [hstep]
    generalize d₁.mem.write64 (ring.sqKern + hdrTail) (tail + 1) = m at htail ⊢
    have hn' : n = head.toNat - (tail + 1).toNat := by omega
    obtain ⟨d', heq, hcont, hlen, hpos, hzero⟩ := ih (d := ⟨m, d₁.read, d₁.posted, d₁.sqes⟩) hn' hcont₁
    refine ⟨d', heq, hcont, hlen.trans (by rw [hread]; omega), ?_,
      fun h => absurd h (Nat.succ_ne_zero n)⟩
    intro _
    by_cases hn0 : n = 0
    · -- the last submission: its index was `head - 1`
      have hlast : tail + 1 = head := by
        rw [← UInt64.toNat_inj]
        omega
      rw [hzero hn0, htail, hlast]
    · exact hpos (Nat.pos_of_ne_zero hn0)

end Loop

/-! ### The bound -/

/-- A drain dispatches at most `RING_CAPACITY` submissions, stays in the two pages, and publishes as
its tail the head that it read. -/
def DrainBounded (ring : ProcessRing) (ops : RingOps) (m : Mem) : Prop :=
  let d := drainSq ring ops m
  d.read.length ≤ ringCapacity.toNat ∧ (∀ e ∈ d.read, InPage ring.sqKern e 64) ∧
    (∀ e ∈ d.posted, InPage ring.cqKern e 32) ∧
    d.mem.read64 (ring.sqKern + hdrTail) = m.read64 (ring.sqKern + hdrHead)

/-- The indices of the submission queue are those of a ring with at most 32 entries. -/
def SqIndices (ring : ProcessRing) (m : Mem) : Prop :=
  let tail := m.read64 (ring.sqKern + hdrTail)
  let head := m.read64 (ring.sqKern + hdrHead)
  tail ≤ head ∧ head - tail ≤ ringCapacity

theorem drainSq_spec (ring : ProcessRing) (hactive : ring.active = 1) (ops : RingOps) {m : Mem}
    {tail head : UInt64} (htail : m.read64 (ring.sqKern + hdrTail) = tail)
    (hhead : m.read64 (ring.sqKern + hdrHead) = head) :
    ∃ d, drainSq ring ops m = d ∧ Contained ring d.read d.posted ∧
      d.read.length = head.toNat - tail.toNat ∧
      (tail.toNat < head.toNat → d.mem.read64 (ring.sqKern + hdrTail) = head) ∧
      (head.toNat ≤ tail.toNat → d.mem = m) := by
  have hdrain : drainSq ring ops m =
      drainLoop ring ops head (head.toNat - tail.toNat) tail ⟨m, [], [], []⟩ := by
    unfold drainSq
    rw [if_neg (by simp [hactive]), htail, hhead]
  have hempty : Contained ring [] [] :=
    ⟨fun e he => absurd he (by simp), fun e he => absurd he (by simp)⟩
  obtain ⟨d, heq, hcont, hlen, hpos, hzero⟩ :=
    drainLoop_spec ring ops head (d := ⟨m, [], [], []⟩) (rfl : _ = head.toNat - tail.toNat) hempty
  refine ⟨d, hdrain.trans heq, hcont, hlen.trans (Nat.zero_add _), ?_, ?_⟩
  · intro hlt
    exact hpos (Nat.sub_pos_of_lt hlt)
  · intro hle
    exact hzero (Nat.sub_eq_zero_of_le hle)

/-- **One drain does bounded work** exactly when the page holds the indices of a ring. -/
theorem drainBounded_iff (ring : ProcessRing) (hactive : ring.active = 1) (ops : RingOps) (m : Mem) :
    DrainBounded ring ops m ↔ SqIndices ring m := by
  obtain ⟨d, heq, hcont, hlen, hpos, hzero⟩ := drainSq_spec ring hactive ops rfl rfl
  unfold DrainBounded SqIndices
  rw [heq]
  dsimp only
  generalize htail : m.read64 (ring.sqKern + hdrTail) = tail at *
  generalize m.read64 (ring.sqKern + hdrHead) = head at *
  rw [hlen, show ringCapacity.toNat = 32 from rfl]
  constructor
  · rintro ⟨hbound, -, -, hpub⟩
    have hle : tail ≤ head := by
      rw [UInt64.le_iff_toNat_le]
      by_contra hgt
      rw [hzero (by omega), htail] at hpub
      rw [hpub] at hgt
      exact hgt (Nat.le_refl _)
    refine ⟨hle, ?_⟩
    rw [UInt64.le_iff_toNat_le, UInt64.toNat_sub_of_le _ _ hle]
    exact hbound
  · rintro ⟨hle, hbound⟩
    rw [UInt64.le_iff_toNat_le, UInt64.toNat_sub_of_le _ _ hle] at hbound
    refine ⟨hbound, hcont.1, hcont.2, ?_⟩
    obtain hlt | hge := Nat.lt_or_ge tail.toNat head.toNat
    · exact hpos hlt
    · have hle' := UInt64.le_iff_toNat_le.mp hle
      have hsame : tail = head := by
        rw [← UInt64.toNat_inj]
        omega
      rw [hzero hge, htail, hsame]

/-- Handlers that return 0 and leave the memory alone. -/
def RingOps.idle : RingOps where
  ringWrite := fun _ _ _ m => (0, m)
  ringBrk := fun _ m => (0, m)
  ringMmap := fun _ _ m => (0, m)
  ringIpcSend := fun _ _ _ m => (0, m)
  ringShmGrant := fun _ _ _ m => (0, m)
  ringSpawn := fun _ m => (0, m)

/-- A queue in which a write of 5 bytes and an `OP_YIELD` wait, behind an index that has come around. -/
def twoSubmissions : Mem :=
  writeSqe (writeSqe ((Mem.write64 (fun _ => 0) (0x1000 + hdrHead) 33).write64 (0x1000 + hdrTail) 31)
    (sqeAddr 0x1000 31) ⟨opWrite, 1, 0x400000, 5, 77⟩) (sqeAddr 0x1000 32) ⟨opYield, 0, 0, 0, 78⟩

theorem drainBounded_twoSubmissions :
    DrainBounded ⟨0x1000, 0x2000, 1⟩ { RingOps.idle with ringWrite := fun _ _ len m => (len, m) }
      twoSubmissions := by
  refine (drainBounded_iff _ rfl _ _).mpr ?_
  unfold SqIndices
  decide +kernel

/-- The process sets the head of its empty queue to 33. -/
theorem not_drainBounded_of_head :
    ¬ ∀ (ring : ProcessRing), ring.active = 1 → ∀ (ops : RingOps) (m : Mem),
      DrainBounded ring ops m := by
  intro hall
  have hbound := hall ⟨0x1000, 0x2000, 1⟩ rfl RingOps.idle
    (Mem.write64 (fun _ => 0) (0x1000 + hdrHead) 33)
  have htail : (Mem.write64 (fun _ => 0) (0x1000 + hdrHead) 33).read64 (0x1000 + hdrTail) = 0 := by
    rw [Mem.read64_write64_of_ne (by decide) (by decide) (by decide), Mem.read64_zero]
  obtain ⟨d, heq, -, hlen, -, -⟩ := drainSq_spec ⟨0x1000, 0x2000, 1⟩ rfl RingOps.idle htail
    (Mem.read64_write64_self ..)
  have hle := hbound.1
  rw [heq, hlen] at hle
  exact absurd hle (by decide)

end Keuos.RingAbi
