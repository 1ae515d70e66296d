import Keuos.Ipc.Shm

/-!
# Rings with a hostile header

The other side of a ring may write anything into the shared page, at any time.  `InPage` are the
accesses that a ring function may make.  Each function makes only such accesses, and few of them, for
every value that it reads (`within_*`), with one exception: `spsc_push_frame` computes `len + 2` in
64 bits.  For the two largest lengths the sum wraps, the frame seems to fit, and the copy leaves the
page (`safeCall_iff`).
-/

namespace Keuos.Ipc

open Prog (Within)

/-! ### Accesses of the page -/

/-- The address of a data byte of the page at `base`. -/
def InData (base a : UInt64) : Prop :=
  192 ≤ (a - base).toNat ∧ (a - base).toNat < 4096

/-- The address of a word of the header. -/
def InHeader (base a : UInt64) : Prop :=
  a = base + headOffset ∨ a = base + tailOffset ∨ a = base + capacityOffset ∨
    a = base + consumerWaitingOffset

/-- An access that a ring function may make. -/
def InPage (base : UInt64) : MemOp → Prop
  | .load8 a => InData base a
  | .store8 a _ => InData base a
  | .load64 a => InHeader base a
  | .store64 a _ => InHeader base a

theorem inHeader_head (base : UInt64) : InHeader base (base + headOffset) := .inl rfl

theorem inHeader_tail (base : UInt64) : InHeader base (base + tailOffset) := .inr (.inl rfl)

theorem inHeader_capacity (base : UInt64) : InHeader base (base + capacityOffset) :=
  .inr (.inr (.inl rfl))

theorem inHeader_waiting (base : UInt64) : InHeader base (base + consumerWaitingOffset) :=
  .inr (.inr (.inr rfl))

theorem data_sub (base idx : UInt64) (n : Nat) :
    base + dataOffset + idx + UInt64.ofNat n - base = 192 + idx + UInt64.ofNat n := by
  unfold dataOffset
  grind

theorem inData_add (base : UInt64) {idx : UInt64} {n : Nat} (h : idx.toNat + n < 3904) :
    InData base (base + dataOffset + idx + UInt64.ofNat n) := by
  unfold InData
  rw [data_sub, UInt64.toNat_add, UInt64.toNat_add, UInt64.toNat_ofNat',
    show (192 : UInt64).toNat = 192 from rfl]
  omega

theorem inData {base idx : UInt64} (h : idx < dataCapacity) :
    InData base (base + dataOffset + idx) := by
  have hlt : idx.toNat + 0 < 3904 := UInt64.lt_iff_toNat_lt.mp h
  have hin := inData_add base hlt
  rwa [show UInt64.ofNat 0 = 0 from rfl, UInt64.add_zero] at hin

/-! ### Rules -/

section Rules

variable {base : UInt64} {α : Type} {Q : α → Prop} {n : Nat}

theorem within_read {a : UInt64} (ha : InHeader base a) {k : UInt64 → MemProg α}
    (hk : ∀ v, Within (InPage base) Q n (k v)) :
    Within (InPage base) Q (n + 1) (volatileRead a >>= k) :=
  ⟨ha, hk⟩

theorem within_write {a : UInt64} (v : UInt64) (ha : InHeader base a) {k : Unit → MemProg α}
    (hk : Within (InPage base) Q n (k ())) :
    Within (InPage base) Q (n + 1) (volatileWrite a v >>= k) :=
  ⟨ha, fun _ => hk⟩

theorem within_store8 {a : UInt64} (v : UInt8) (ha : InData base a) {k : Unit → MemProg α}
    (hk : Within (InPage base) Q n (k ())) :
    Within (InPage base) Q (n + 1) (store8 a v >>= k) :=
  ⟨ha, fun _ => hk⟩

theorem within_load8 {a : UInt64} (ha : InData base a) {k : UInt8 → MemProg α}
    (hk : ∀ v, Within (InPage base) Q n (k v)) :
    Within (InPage base) Q (n + 1) (load8 a >>= k) :=
  ⟨ha, fun r => hk r.toUInt8⟩

end Rules

/-! ### Copies -/

theorem offset_succ (a : UInt64) (i : Nat) :
    a + 1 + UInt64.ofNat i = a + UInt64.ofNat (i + 1) := by
  rw [show UInt64.ofNat (i + 1) = UInt64.ofNat i + 1 from by
    rw [← UInt64.toNat_inj, UInt64.toNat_add, UInt64.toNat_ofNat', UInt64.toNat_ofNat',
      UInt64.toNat_one]
    omega]
  grind

theorem within_fastMemcpyIn {base dst : UInt64} (src : Nat → UInt8) {n : Nat}
    (h : ∀ i < n, InData base (dst + UInt64.ofNat i)) :
    Within (InPage base) (fun _ => True) n (fastMemcpyIn dst src n) := by
  induction n generalizing dst src with
  | zero => exact trivial
  | succ n ih =>
    refine within_store8 _ ?_ (ih _ ?_)
    · have hzero := h 0 (Nat.succ_pos n)
      rwa [show UInt64.ofNat 0 = 0 from rfl, UInt64.add_zero] at hzero
    · intro i hi
      rw [offset_succ]
      exact h (i + 1) (Nat.succ_lt_succ hi)

theorem within_fastMemcpyOut {base src : UInt64} {n : Nat}
    (h : ∀ i < n, InData base (src + UInt64.ofNat i)) :
    Within (InPage base) (fun bytes => bytes.length = n) n (fastMemcpyOut src n) := by
  induction n generalizing src with
  | zero => exact rfl
  | succ n ih =>
    refine within_load8 ?_ fun b => ?_
    · have hzero := h 0 (Nat.succ_pos n)
      rwa [show UInt64.ofNat 0 = 0 from rfl, UInt64.add_zero] at hzero
    · have hrest : Within (InPage base) (fun bytes => bytes.length = n) n
          (fastMemcpyOut (src + 1) n) := by
        refine ih fun i hi => ?_
        rw [offset_succ]
        exact h (i + 1) (Nat.succ_lt_succ hi)
      refine Within.mono (Nat.le_of_eq (Nat.add_zero n)) (Within.bind hrest ?_)
      intro bytes hbytes
      exact congrArg (· + 1) hbytes

theorem toNat_segments_of_le {cap startIdx count : UInt64} (hstart : startIdx < cap)
    (hcount : count ≤ cap) :
    let first := if count < cap - startIdx then count else cap - startIdx
    startIdx.toNat + first.toNat ≤ cap.toNat ∧ (count - first).toNat ≤ cap.toNat ∧
      first.toNat + (count - first).toNat = count.toNat := by
  intro first
  have hstart' := UInt64.lt_iff_toNat_lt.mp hstart
  have hcount' := UInt64.le_iff_toNat_le.mp hcount
  have hsub : (cap - startIdx).toNat = cap.toNat - startIdx.toNat :=
    UInt64.toNat_sub_of_le _ _ (UInt64.le_of_lt hstart)
  have hfirst : first.toNat ≤ count.toNat ∧ startIdx.toNat + first.toNat ≤ cap.toNat := by
    by_cases hlt : count < cap - startIdx
    · have heq : first = count := if_pos hlt
      have hlt' := UInt64.lt_iff_toNat_lt.mp hlt
      rw [heq]
      omega
    · have heq : first = cap - startIdx := if_neg hlt
      have hge : (cap - startIdx).toNat ≤ count.toNat :=
        UInt64.le_iff_toNat_le.mp (UInt64.not_lt.mp hlt)
      rw [heq]
      omega
  have hsecond : (count - first).toNat = count.toNat - first.toNat :=
    UInt64.toNat_sub_of_le _ _ (UInt64.le_iff_toNat_le.mpr hfirst.1)
  omega

section Copies

variable {base cap startIdx count : UInt64}

theorem within_copyIn (hcap : cap ≤ dataCapacity) (hstart : startIdx < cap) (hcount : count ≤ cap)
    (src : Nat → UInt8) :
    Within (InPage base) (fun _ => True) count.toNat (copyIn base cap startIdx src count) := by
  obtain ⟨hfirst, hsecond, hsum⟩ := toNat_segments_of_le hstart hcount
  have hcap' : cap.toNat ≤ 3904 := UInt64.le_iff_toNat_le.mp hcap
  unfold copyIn
  dsimp only
  generalize (if count < cap - startIdx then count else cap - startIdx) = first at *
  rw [← hsum]
  refine Within.bind (within_fastMemcpyIn src fun i hi => inData_add base (by omega)) ?_
  intro _ _
  split
  · refine within_fastMemcpyIn _ fun i hi => ?_
    have hin : InData base (base + dataOffset + 0 + UInt64.ofNat i) :=
      inData_add base (by rw [UInt64.toNat_zero]; omega)
    rwa [UInt64.add_zero] at hin
  · exact Prog.within_ret trivial

theorem within_copyOut (hcap : cap ≤ dataCapacity) (hstart : startIdx < cap)
    (hcount : count ≤ cap) :
    Within (InPage base) (fun bytes => bytes.length ≤ count.toNat) count.toNat
      (copyOut base cap startIdx count) := by
  obtain ⟨hfirst, hsecond, hsum⟩ := toNat_segments_of_le hstart hcount
  have hcap' : cap.toNat ≤ 3904 := UInt64.le_iff_toNat_le.mp hcap
  unfold copyOut
  dsimp only
  generalize (if count < cap - startIdx then count else cap - startIdx) = first at *
  rw [← hsum]
  refine Within.bind (within_fastMemcpyOut fun i hi => inData_add base (by omega)) ?_
  intro xs hxs
  split
  · refine Within.mono (Nat.le_of_eq (Nat.add_zero _))
      (Within.bind (within_fastMemcpyOut fun i hi => ?_) ?_)
    · have hin : InData base (base + dataOffset + 0 + UInt64.ofNat i) :=
      inData_add base (by rw [UInt64.toNat_zero]; omega)
      rwa [UInt64.add_zero] at hin
    · intro ys hys
      refine Prog.within_ret ?_
      rw [List.length_append, hxs, hys]
  · refine Prog.within_ret ?_
    rw [hxs]
    exact Nat.le_add_right _ _

end Copies

/-! ### The functions -/

theorem mod_lt_dataCapacity {a cap : UInt64} (hcap : cap ≠ 0) : a % cap < cap :=
  UInt64.mod_lt a (UInt64.pos_iff_ne_zero.mpr hcap)

theorem exists_clamped {cap : UInt64} (hcap : ¬(cap == 0) = true) :
    ∃ cap', (if cap > dataCapacity then dataCapacity else cap) = cap' ∧ cap' ≤ dataCapacity ∧ cap' ≠ 0 := by
  split
  · exact ⟨_, rfl, UInt64.le_refl _, by decide⟩
  · next h => exact ⟨_, rfl, UInt64.not_lt.mp h, by simpa using hcap⟩

section Functions

variable (base : UInt64)

/-- The three loads with which the calls begin. -/
theorem within_indices {α : Type} {Q : α → Prop} {n : Nat} {k : UInt64 → UInt64 → UInt64 → MemProg α}
    (hk : ∀ head tail cap, Within (InPage base) Q n (k head tail cap)) :
    Within (InPage base) Q (n + 3) (volatileRead (base + headOffset) >>= fun head =>
      volatileRead (base + tailOffset) >>= fun tail =>
        volatileRead (base + capacityOffset) >>= k head tail) :=
  ⟨inHeader_head base, fun head => ⟨inHeader_tail base, fun tail => ⟨inHeader_capacity base, hk head tail⟩⟩⟩

theorem within_spscPush (byte : UInt8) :
    Within (InPage base) (fun _ => True) 5 (spscPush base byte) := by
  refine within_indices base fun head tail cap => ?_
  split
  · exact Prog.within_ret trivial
  · split
    · exact Prog.within_ret trivial
    · dsimp only
      split
      · exact Prog.within_ret trivial
      · next hidx =>
        refine within_store8 _ (inData (UInt64.not_le.mp hidx)) ?_
        exact within_write _ (inHeader_head base) (Prog.within_ret trivial)

theorem within_spscPop : Within (InPage base) (fun _ => True) 5 (spscPop base) := by
  refine within_read (inHeader_head base) fun head => ?_
  refine within_read (inHeader_tail base) fun tail => ?_
  split
  · exact Prog.within_ret trivial
  · refine within_read (inHeader_capacity base) fun cap => ?_
    split
    · exact Prog.within_ret trivial
    · dsimp only
      split
      · exact Prog.within_ret trivial
      · next hidx =>
        refine within_load8 (inData (UInt64.not_le.mp hidx)) fun b => ?_
        exact within_write _ (inHeader_tail base) (Prog.within_ret trivial)

theorem within_spscPushWake (byte : UInt8) :
    Within (InPage base) (fun _ => True) 6 (spscPushWake base byte) := by
  refine within_indices base fun head tail cap => ?_
  split
  · exact Prog.within_ret trivial
  · split
    · exact Prog.within_ret trivial
    · dsimp only
      split
      · exact Prog.within_ret trivial
      · next hidx =>
        refine within_store8 _ (inData (UInt64.not_le.mp hidx)) ?_
        refine within_write _ (inHeader_head base) ?_
        exact within_read (inHeader_waiting base) fun waiting => Prog.within_ret trivial

theorem count_le_len (len avail : UInt64) : (if len < avail then len else avail) ≤ len := by
  split
  · exact UInt64.le_refl _
  · next h => exact UInt64.not_lt.mp h

theorem clampCount_le (count cap : UInt64) :
    (if count > cap then cap else count) ≤ cap ∧ (if count > cap then cap else count) ≤ count := by
  split
  · next h => exact ⟨UInt64.le_refl _, UInt64.le_of_lt h⟩
  · next h => exact ⟨UInt64.not_lt.mp h, UInt64.le_refl _⟩

theorem within_spscPushBulk (src : Nat → UInt8) (len : UInt64) :
    Within (InPage base) (fun _ => True) 3908 (spscPushBulk base src len) := by
  refine within_indices base fun head tail cap => ?_
  split
  · exact Prog.within_ret trivial
  · next hcap =>
    dsimp only
    obtain ⟨cap', heq, hle, hne⟩ := exists_clamped hcap
    rw [heq]
    split
    · exact Prog.within_ret trivial
    · generalize (if len < cap' - (head - tail) then len else cap' - (head - tail)) = wanted
      split
      · exact Prog.within_ret trivial
      · obtain ⟨hcount, -⟩ := clampCount_le wanted cap'
        generalize (if wanted > cap' then cap' else wanted) = count at *
        have hbound : count.toNat + 1 ≤ 3905 := by
          have h₁ := UInt64.le_iff_toNat_le.mp hcount
          have h₂ : cap'.toNat ≤ 3904 := UInt64.le_iff_toNat_le.mp hle
          omega
        refine Within.mono hbound ?_
        refine Within.bind (within_copyIn hle (mod_lt_dataCapacity hne) hcount src) fun _ _ => ?_
        exact within_write _ (inHeader_head base) (Prog.within_ret trivial)

theorem within_spscPopBulk (len : UInt64) :
    Within (InPage base) (fun r => r.2.length ≤ len.toNat) 3908 (spscPopBulk base len) := by
  refine within_indices base fun head tail cap => ?_
  split
  · exact Prog.within_ret (Nat.zero_le _)
  · next hcap =>
    dsimp only
    obtain ⟨cap', heq, hle, hne⟩ := exists_clamped hcap
    rw [heq]
    split
    · exact Prog.within_ret (Nat.zero_le _)
    · have hlen := count_le_len len (head - tail)
      generalize (if len < head - tail then len else head - tail) = wanted at *
      split
      · exact Prog.within_ret (Nat.zero_le _)
      · obtain ⟨hcount, hwanted⟩ := clampCount_le wanted cap'
        generalize (if wanted > cap' then cap' else wanted) = count at *
        have hbound : count.toNat + 1 ≤ 3905 := by
          have h₁ := UInt64.le_iff_toNat_le.mp hcount
          have h₂ : cap'.toNat ≤ 3904 := UInt64.le_iff_toNat_le.mp hle
          omega
        refine Within.mono hbound ?_
        refine Within.bind (within_copyOut hle (mod_lt_dataCapacity hne) hcount) fun bytes hbytes => ?_
        refine within_write _ (inHeader_tail base) (Prog.within_ret ?_)
        exact Nat.le_trans hbytes (UInt64.le_iff_toNat_le.mp (UInt64.le_trans hwanted hlen))

theorem next_lt {idx cap : UInt64} (hcap : cap ≠ 0) :
    (if idx + 1 ≥ cap then 0 else idx + 1) < cap := by
  split
  · exact UInt64.pos_iff_ne_zero.mpr hcap
  · next h => exact UInt64.not_le.mp h

theorem within_spscPopFrameLen :
    Within (InPage base) (fun _ => True) 6 (spscPopFrameLen base) := by
  refine within_indices base fun head tail cap => ?_
  split
  · exact Prog.within_ret trivial
  · next hcap =>
    dsimp only
    obtain ⟨cap', heq, hle, hne⟩ := exists_clamped hcap
    rw [heq]
    split
    · exact Prog.within_ret trivial
    · split
      · exact Prog.within_ret trivial
      · refine within_load8 (inData ?_) fun lo => ?_
        · exact UInt64.lt_of_lt_of_le (mod_lt_dataCapacity hne) hle
        · refine within_load8 (inData ?_) fun hi => ?_
          · exact UInt64.lt_of_lt_of_le (next_lt hne) hle
          · exact within_write _ (inHeader_tail base) (Prog.within_ret trivial)

theorem within_spscPushFrame (src : Nat → UInt8) {len : UInt64} (hlen : len.toNat + 2 < 2 ^ 64) :
    Within (InPage base) (fun _ => True) 3910 (spscPushFrame base src len) := by
  refine within_indices base fun head tail cap => ?_
  split
  · exact Prog.within_ret trivial
  · next hcap =>
    dsimp only
    obtain ⟨cap', heq, hle, hne⟩ := exists_clamped hcap
    rw [heq]
    split
    · exact Prog.within_ret trivial
    · next hfull =>
      split
      · exact Prog.within_ret trivial
      · next hroom =>
        have hcap' : cap'.toNat ≤ 3904 := UInt64.le_iff_toNat_le.mp hle
        have hlen' : len.toNat ≤ cap'.toNat := by
          have h₁ := UInt64.le_iff_toNat_le.mp (UInt64.not_lt.mp hroom)
          simp only [Bool.or_eq_true, decide_eq_true_eq, not_or, UInt64.not_le, UInt64.not_lt] at hfull
          have h₂ : (cap' - (head - tail)).toNat = cap'.toNat - (head - tail).toNat :=
            UInt64.toNat_sub_of_le _ _ (UInt64.le_of_lt hfull.2)
          rw [h₂, UInt64.toNat_add, show (2 : UInt64).toNat = 2 from rfl] at h₁
          omega
        refine within_store8 _ (inData ?_) ?_
        · exact UInt64.lt_of_lt_of_le (mod_lt_dataCapacity hne) hle
        · refine within_store8 _ (inData ?_) ?_
          · exact UInt64.lt_of_lt_of_le (next_lt hne) hle
          · have hbound : len.toNat + 1 ≤ 3905 := by omega
            refine Within.mono hbound ?_
            refine Within.bind (within_copyIn hle (next_lt hne)
              (UInt64.le_iff_toNat_le.mpr hlen') src) fun _ _ => ?_
            exact within_write _ (inHeader_head base) (Prog.within_ret trivial)

end Functions

/-! ### The source -/

theorem fastMemcpyIn_congr {dst : UInt64} {src src' : Nat → UInt8} {n : Nat}
    (h : ∀ i < n, src' i = src i) : fastMemcpyIn dst src' n = fastMemcpyIn dst src n := by
  induction n generalizing dst src src' with
  | zero => rfl
  | succ n ih =>
    unfold fastMemcpyIn
    rw [h 0 (Nat.succ_pos n), ih fun i hi => h (i + 1) (Nat.succ_lt_succ hi)]

theorem copyIn_congr {base cap startIdx count : UInt64} {src src' : Nat → UInt8}
    (h : ∀ i < count.toNat, src' i = src i) :
    copyIn base cap startIdx src' count = copyIn base cap startIdx src count := by
  have hfirst : (if count < cap - startIdx then count else cap - startIdx) ≤ count :=
    count_le_len count (cap - startIdx)
  unfold copyIn
  dsimp only
  generalize (if count < cap - startIdx then count else cap - startIdx) = first at *
  have hfirst' := UInt64.le_iff_toNat_le.mp hfirst
  have hsecond : (count - first).toNat = count.toNat - first.toNat :=
    UInt64.toNat_sub_of_le _ _ hfirst
  rw [fastMemcpyIn_congr fun i hi => h i (by omega)]
  split
  · rw [fastMemcpyIn_congr fun i hi => h (first.toNat + i) (by omega)]
  · rfl

theorem read_congr {α : Type} {a : UInt64} {k k' : UInt64 → MemProg α} (h : ∀ v, k v = k' v) :
    (volatileRead a >>= k) = (volatileRead a >>= k') :=
  congrArg (volatileRead a >>= ·) (funext h)

theorem spscPushBulk_congr {base len : UInt64} {src src' : Nat → UInt8}
    (h : ∀ i < len.toNat, src' i = src i) : spscPushBulk base src' len = spscPushBulk base src len := by
  refine read_congr fun head => read_congr fun tail => read_congr fun cap => ?_
  split
  · rfl
  · dsimp only
    generalize (if cap > dataCapacity then dataCapacity else cap) = cap'
    split
    · rfl
    · have hlen := count_le_len len (cap' - (head - tail))
      generalize (if len < cap' - (head - tail) then len else cap' - (head - tail)) = wanted at *
      split
      · rfl
      · obtain ⟨-, hwanted⟩ := clampCount_le wanted cap'
        generalize (if wanted > cap' then cap' else wanted) = count at *
        have hle := UInt64.le_iff_toNat_le.mp (UInt64.le_trans hwanted hlen)
        rw [copyIn_congr fun i hi => h i (by omega)]

theorem spscPushFrame_congr {base len : UInt64} {src src' : Nat → UInt8}
    (h : ∀ i < len.toNat, src' i = src i) :
    spscPushFrame base src' len = spscPushFrame base src len := by
  refine read_congr fun head => read_congr fun tail => read_congr fun cap => ?_
  split
  · rfl
  · dsimp only
    generalize (if cap > dataCapacity then dataCapacity else cap) = cap'
    split
    · rfl
    · split
      · rfl
      · rw [copyIn_congr h]

/-! ### A frame that wraps -/

section Wrap

variable {m : Mem}

theorem trace_read {α : Type} (a : UInt64) (k : UInt64 → MemProg α) :
    (volatileRead a >>= k).trace MemOp.sem m = .load64 a :: (k (m.read64 a)).trace MemOp.sem m :=
  rfl

theorem trace_store8 {α : Type} (a : UInt64) (v : UInt8) (k : Unit → MemProg α) :
    (store8 a v >>= k).trace MemOp.sem m =
      .store8 a v :: (k ()).trace MemOp.sem (m.write8 a v) :=
  rfl

theorem exists_mem_trace_fastMemcpyIn (m : Mem) {dst : UInt64} {src : Nat → UInt8} {n i : Nat}
    (hi : i < n) :
    ∃ v, MemOp.store8 (dst + UInt64.ofNat i) v ∈ (fastMemcpyIn dst src n).trace MemOp.sem m := by
  induction n generalizing dst src i m with
  | zero => exact absurd hi (Nat.not_lt_zero i)
  | succ n ih =>
    unfold fastMemcpyIn
    rw [trace_store8]
    cases i with
    | zero =>
      refine ⟨src 0, ?_⟩
      rw [show UInt64.ofNat 0 = 0 from rfl, UInt64.add_zero]
      exact List.mem_cons_self ..
    | succ i =>
      have hrest : ∃ v, MemOp.store8 (dst + 1 + UInt64.ofNat i) v ∈
          (fastMemcpyIn (dst + 1) (fun i => src (i + 1)) n).trace MemOp.sem (m.write8 dst (src 0)) :=
        ih _ (Nat.lt_of_succ_lt_succ hi)
      obtain ⟨v, hv⟩ := hrest
      rw [offset_succ] at hv
      exact ⟨v, List.mem_cons_of_mem _ hv⟩

theorem exists_mem_trace_copyIn (m : Mem) (base : UInt64) {cap startIdx count : UInt64}
    (src : Nat → UInt8) (hcap : cap ≤ dataCapacity) (hstart : startIdx < cap)
    (hcount : 2 * 3904 < count.toNat) :
    ∃ v, MemOp.store8 (base + dataOffset + UInt64.ofNat 3904) v ∈
      (copyIn base cap startIdx src count).trace MemOp.sem m := by
  have hcap' : cap.toNat ≤ 3904 := UInt64.le_iff_toNat_le.mp hcap
  have hsub : (cap - startIdx).toNat ≤ cap.toNat := by
    rw [UInt64.toNat_sub_of_le _ _ (UInt64.le_of_lt hstart)]
    exact Nat.sub_le _ _
  have hfirst : (if count < cap - startIdx then count else cap - startIdx) = cap - startIdx := by
    rw [if_neg]
    rw [UInt64.lt_iff_toNat_lt]
    omega
  unfold copyIn
  dsimp only
  rw [hfirst]
  generalize cap - startIdx = first at *
  have hsecond : (count - first).toNat = count.toNat - first.toNat :=
    UInt64.toNat_sub_of_le _ _ (UInt64.le_iff_toNat_le.mpr (by omega))
  have hpos : count - first > 0 := by
    rw [gt_iff_lt, UInt64.lt_iff_toNat_lt, UInt64.toNat_zero]
    omega
  rw [if_pos hpos, Prog.bind_eq, Prog.trace_bind]
  have hlast : 3904 < (count - first).toNat := by omega
  obtain ⟨v, hv⟩ := exists_mem_trace_fastMemcpyIn
    ((fastMemcpyIn (base + dataOffset + startIdx) src first.toNat).runAlone MemOp.sem m).2 hlast
  exact ⟨v, List.mem_append_right _ hv⟩

theorem not_inPage_end (base : UInt64) (v : UInt8) :
    ¬ InPage base (.store8 (base + dataOffset + UInt64.ofNat 3904) v) := by
  rintro ⟨-, hlt⟩
  have hsub : base + dataOffset + UInt64.ofNat 3904 - base = 4096 := by
    have heq := data_sub base 0 3904
    rw [UInt64.add_zero] at heq
    rw [heq]
    decide
  rw [hsub] at hlt
  exact absurd hlt (by decide)

/-- The ring's header lets a frame of length `len` pass although `len + 2` wraps. -/
def FrameWraps (base : UInt64) (m : Mem) (len : UInt64) : Prop :=
  let head := m.read64 (base + headOffset)
  let tail := m.read64 (base + tailOffset)
  let cap := m.read64 (base + capacityOffset)
  2 ^ 64 ≤ len.toNat + 2 ∧ cap ≠ 0 ∧ tail ≤ head ∧
    head - tail < (if cap > dataCapacity then dataCapacity else cap)

theorem exists_mem_trace_spscPushFrame {base len : UInt64} (h : FrameWraps base m len)
    (src : Nat → UInt8) :
    ∃ v, MemOp.store8 (base + dataOffset + UInt64.ofNat 3904) v ∈
      (spscPushFrame base src len).trace MemOp.sem m := by
  obtain ⟨hlen, hcap, hle, hroom⟩ := h
  unfold spscPushFrame
  rw [trace_read, trace_read, trace_read]
  generalize m.read64 (base + headOffset) = head at *
  generalize m.read64 (base + tailOffset) = tail at *
  generalize m.read64 (base + capacityOffset) = cap at *
  rw [if_neg (by simpa using hcap)]
  dsimp only
  obtain ⟨cap', heq, hclamp, hne⟩ := exists_clamped (show ¬(cap == 0) = true by simpa using hcap)
  rw [heq] at hroom ⊢
  have hlt := len.toNat_lt
  have hsmall : (len + 2).toNat ≤ 1 := by
    rw [UInt64.toNat_add, show (2 : UInt64).toNat = 2 from rfl]
    omega
  have hroom' := UInt64.lt_iff_toNat_lt.mp hroom
  have havail : (cap' - (head - tail)).toNat = cap'.toNat - (head - tail).toNat :=
    UInt64.toNat_sub_of_le _ _ (UInt64.le_of_lt hroom)
  have hguard : ¬ (decide (tail > head) || decide (head - tail ≥ cap')) = true := by
    simp only [Bool.or_eq_true, decide_eq_true_eq, not_or, UInt64.not_le, UInt64.not_lt, gt_iff_lt,
      ge_iff_le]
    exact ⟨hle, hroom⟩
  have hfits : ¬ cap' - (head - tail) < len + 2 := by
    rw [UInt64.lt_iff_toNat_lt]
    omega
  rw [if_neg hguard, if_neg hfits, trace_store8, trace_store8]
  have hcount : 2 * 3904 < len.toNat := by omega
  rw [Prog.bind_eq, Prog.trace_bind]
  obtain ⟨v, hv⟩ := exists_mem_trace_copyIn
    ((m.write8 (base + dataOffset + head % cap') (len &&& 0xFF).toUInt8).write8
      (base + dataOffset + if head % cap' + 1 ≥ cap' then 0 else head % cap' + 1)
      ((len >>> 8) &&& 0xFF).toUInt8) base src hclamp (next_lt hne) hcount
  refine ⟨v, ?_⟩
  apply List.mem_cons_of_mem
  apply List.mem_cons_of_mem
  apply List.mem_cons_of_mem
  apply List.mem_cons_of_mem
  apply List.mem_cons_of_mem
  exact List.mem_append_left _ hv

theorem trace_spscPushFrame_of_stopped {base len : UInt64} (hlen : 2 ^ 64 ≤ len.toNat + 2)
    (h : ¬ FrameWraps base m len) (src : Nat → UInt8) :
    (spscPushFrame base src len).trace MemOp.sem m =
      [.load64 (base + headOffset), .load64 (base + tailOffset),
        .load64 (base + capacityOffset)] := by
  unfold FrameWraps at h
  dsimp only at h
  unfold spscPushFrame
  rw [trace_read, trace_read, trace_read]
  generalize m.read64 (base + headOffset) = head at *
  generalize m.read64 (base + tailOffset) = tail at *
  generalize m.read64 (base + capacityOffset) = cap at *
  by_cases hcap : cap = 0
  · rw [if_pos (beq_iff_eq.mpr hcap)]
    rfl
  · rw [if_neg (by simpa using hcap)]
    dsimp only
    have hguard : (decide (tail > head) || decide (head - tail ≥
        if cap > dataCapacity then dataCapacity else cap)) = true := by
      by_contra hno
      simp only [Bool.or_eq_true, decide_eq_true_eq, not_or, UInt64.not_le, UInt64.not_lt,
        gt_iff_lt, ge_iff_le] at hno
      exact h ⟨hlen, hcap, hno.1, hno.2⟩
    rw [if_pos hguard]
    rfl

end Wrap

/-! ### The law -/

/-- A call of a ring function.  A source is a function from offsets to bytes. -/
inductive RingCall where
  | push (byte : UInt8)
  | pop
  | pushBulk (src : Nat → UInt8) (len : UInt64)
  | popBulk (len : UInt64)
  | pushWake (byte : UInt8)
  | pushFrame (src : Nat → UInt8) (len : UInt64)
  | popFrameLen

namespace RingCall

/-- The program of a call: it returns the bytes that it wrote to the caller's destination. -/
def program (base : UInt64) : RingCall → MemProg (List UInt8)
  | push byte => spscPush base byte >>= fun _ => pure []
  | pop => spscPop base >>= fun _ => pure []
  | pushBulk src len => spscPushBulk base src len >>= fun _ => pure []
  | popBulk len => spscPopBulk base len >>= fun r => pure r.2
  | pushWake byte => spscPushWake base byte >>= fun _ => pure []
  | pushFrame src len => spscPushFrame base src len >>= fun _ => pure []
  | popFrameLen => spscPopFrameLen base >>= fun _ => pure []

/-- The length of the caller's buffer. -/
def bufLen : RingCall → Nat
  | pushBulk _ len | popBulk len | pushFrame _ len => len.toNat
  | _ => 0

/-- The calls that differ from this one at most in the source, from the offset `len` on. -/
inductive SameUpToLen : RingCall → RingCall → Prop
  | refl (c : RingCall) : SameUpToLen c c
  | bulk {src src' : Nat → UInt8} {len : UInt64} (h : ∀ i < len.toNat, src' i = src i) :
      SameUpToLen (pushBulk src len) (pushBulk src' len)
  | frame {src src' : Nat → UInt8} {len : UInt64} (h : ∀ i < len.toNat, src' i = src i) :
      SameUpToLen (pushFrame src len) (pushFrame src' len)

/-- A call makes only the accesses it may make, at most 4096 of them; it writes at most `len` bytes to
the caller's destination, and what it does depends on at most `len` bytes of the caller's source. -/
def Safe (base : UInt64) (m : Mem) (c : RingCall) : Prop :=
  (∀ o ∈ (c.program base).trace MemOp.sem m, InPage base o) ∧
    ((c.program base).trace MemOp.sem m).length ≤ 4096 ∧
    ((c.program base).runAlone MemOp.sem m).1.length ≤ c.bufLen ∧
    ∀ c', c.SameUpToLen c' → c'.program base = c.program base

/-- A frame whose length wraps, on a ring whose header lets it pass. -/
def Wraps (base : UInt64) (m : Mem) : RingCall → Prop
  | pushFrame _ len => FrameWraps base m len
  | _ => False

theorem program_congr {base : UInt64} {c c' : RingCall} (h : c.SameUpToLen c') :
    c'.program base = c.program base := by
  cases h with
  | refl => rfl
  | bulk h =>
    exact congrArg (· >>= fun _ => pure []) (spscPushBulk_congr h)
  | frame h =>
    exact congrArg (· >>= fun _ => pure []) (spscPushFrame_congr h)

theorem safe_of_within {base : UInt64} {m : Mem} {c : RingCall} {n : Nat} (hn : n ≤ 4096)
    (h : Within (InPage base) (fun bytes => bytes.length ≤ c.bufLen) n (c.program base)) :
    Safe base m c := by
  obtain ⟨hops, hlen, hret⟩ := h.trace MemOp.sem m
  exact ⟨hops, Nat.le_trans hlen hn, hret, fun c' hc' => program_congr hc'⟩

theorem within_discard {base : UInt64} {α : Type} {n k : Nat} {p : MemProg α} {Q : α → Prop}
    (h : Within (InPage base) Q n p) :
    Within (InPage base) (fun bytes : List UInt8 => bytes.length ≤ k) n (p >>= fun _ => pure []) := by
  refine Within.mono (Nat.le_of_eq (Nat.add_zero n)) (Within.bind h ?_)
  exact fun _ _ => Nat.zero_le k

theorem safe_of_not_wraps {base : UInt64} {m : Mem} {c : RingCall} (h : ¬ c.Wraps base m) :
    c.Safe base m := by
  cases c with
  | push byte => exact safe_of_within (by decide) (within_discard (within_spscPush base byte))
  | pop => exact safe_of_within (by decide) (within_discard (within_spscPop base))
  | pushBulk src len =>
    exact safe_of_within (by decide) (within_discard (within_spscPushBulk base src len))
  | popBulk len =>
    refine safe_of_within (n := 3908 + 0) (by decide) ?_
    exact Within.bind (within_spscPopBulk base len) fun r hr => hr
  | pushWake byte => exact safe_of_within (by decide) (within_discard (within_spscPushWake base byte))
  | pushFrame src len =>
    by_cases hlen : len.toNat + 2 < 2 ^ 64
    · exact safe_of_within (by decide) (within_discard (within_spscPushFrame base src hlen))
    · have htrace : (program base (pushFrame src len)).trace MemOp.sem m =
          [.load64 (base + headOffset), .load64 (base + tailOffset),
            .load64 (base + capacityOffset)] := by
        show ((spscPushFrame base src len).bind fun _ => Prog.ret []).trace MemOp.sem m = _
        rw [Prog.trace_bind, trace_spscPushFrame_of_stopped (Nat.le_of_not_lt hlen) h src]
        rfl
      refine ⟨?_, ?_, ?_, fun c' hc' => program_congr hc'⟩
      · rw [htrace]
        intro o ho
        simp only [List.mem_cons, List.not_mem_nil, or_false] at ho
        obtain rfl | rfl | rfl := ho
        · exact inHeader_head base
        · exact inHeader_tail base
        · exact inHeader_capacity base
      · rw [htrace]
        exact Nat.le_of_ble_eq_true rfl
      · show (((spscPushFrame base src len).bind fun _ => Prog.ret []).runAlone MemOp.sem
          m).1.length ≤ _
        rw [Prog.runAlone_bind]
        exact Nat.zero_le _
  | popFrameLen => exact safe_of_within (by decide) (within_discard (within_spscPopFrameLen base))

theorem not_safe_of_frameWraps {base : UInt64} {m : Mem} {len : UInt64} (h : FrameWraps base m len)
    (src : Nat → UInt8) : ¬ Safe base m (pushFrame src len) := by
  intro hsafe
  obtain ⟨v, hv⟩ := exists_mem_trace_spscPushFrame h src
  refine not_inPage_end base v (hsafe.1 _ ?_)
  show _ ∈ ((spscPushFrame base src len).bind fun _ => Prog.ret []).trace MemOp.sem m
  rw [Prog.trace_bind]
  exact List.mem_append_left _ hv

/-- **Hostile headers**: for every content of the page, a call is safe exactly when it is no frame
whose length wraps. -/
theorem safe_iff (base : UInt64) (m : Mem) (c : RingCall) : c.Safe base m ↔ ¬ c.Wraps base m := by
  constructor
  · intro hsafe hwraps
    cases c with
    | pushFrame src len => exact not_safe_of_frameWraps hwraps src hsafe
    | _ => exact hwraps
  · exact safe_of_not_wraps

/-- An empty ring at `0x1000`. -/
def emptyPage : Mem :=
  Mem.write64 (fun _ => 0) 0x1008 3904

theorem frameWraps_emptyPage : FrameWraps 0x1000 emptyPage 0xFFFFFFFFFFFFFFFF := by
  have hhead : emptyPage.read64 (0x1000 + headOffset) = 0 := by
    unfold emptyPage
    rw [Mem.read64_write64_of_ne (by decide) (by decide) (by decide), Mem.read64_zero]
  have htail : emptyPage.read64 (0x1000 + tailOffset) = 0 := by
    unfold emptyPage
    rw [Mem.read64_write64_of_ne (by decide) (by decide) (by decide), Mem.read64_zero]
  have hcap : emptyPage.read64 (0x1000 + capacityOffset) = 3904 := Mem.read64_write64_self ..
  unfold FrameWraps
  dsimp only
  rw [hhead, htail, hcap]
  exact ⟨by decide, by decide, by decide, by decide⟩

/-- A frame of length `2 ^ 64 - 1` on an empty ring. -/
theorem not_safe_of_wrap : ¬ ∀ (base : UInt64) (m : Mem) (c : RingCall), c.Safe base m := by
  intro hall
  exact not_safe_of_frameWraps frameWraps_emptyPage (fun _ => 0) (hall _ _ _)

end RingCall

end Keuos.Ipc
