import Keuos.Ipc.Equiv.Hostile
import Keuos.Ipc.Equiv.Stream

/-!
# Block transfers and single bytes

`iterPush` and `iterPop` are the loops that a caller would write with `spsc_push` and `spsc_pop`.
On a ring in order a block call does to the page what the loop does, and gives the same count and
bytes: both leave the page of `filled`, and both read the bytes of `drawn`.

The block functions take the indices for numbers that do not wrap: a tail beyond the head is
refused, where `spsc_push` and `spsc_pop` look at the difference only.  So the two agree as long as
the head has not passed `2 ^ 64`, and a ring through which `2 ^ 64` bytes have gone refuses every
block.

## Main results

* `iterPush_eq`, `pushBulk_eq`: what the loop and the block push do.
* `iterPop_eq`, `popBulk_eq`: what the loop and the block pop do.
* `bulk_eq_iter`: they agree in every state that the two sides reach with fewer than `2 ^ 64` bytes.
-/

namespace Keuos.Ipc

variable {base : UInt64}

/-! ### The loops -/

/-- `spsc_push` of `src 0`, `src 1`, … until it returns `false` or `n` bytes are written: the
number of bytes. -/
def iterPush (base : UInt64) : (Nat → UInt8) → Nat → MemProg Nat
  | _, 0 => pure 0
  | src, n + 1 => do
    let ok ← spscPush base (src 0)
    if ok then do
      let k ← iterPush base (fun i => src (i + 1)) n
      pure (k + 1)
    else pure 0

/-- `spsc_pop` until it returns `-1` or `n` bytes are read: the bytes. -/
def iterPop (base : UInt64) : Nat → MemProg (List UInt8)
  | 0 => pure []
  | n + 1 => do
    let r ← spscPop base
    if r == -1 then pure []
    else do
      let rest ← iterPop base n
      pure (UInt8.ofNat r.toNat :: rest)

/-! ### Pages -/

/-- The page after a copy of `n` bytes to the positions of the stream from `h` on. -/
def poured (base : UInt64) : (Nat → UInt8) → Nat → Nat → Mem → Mem
  | _, 0, _, m => m
  | src, n + 1, h, m => poured base (fun i => src (i + 1)) n (h + 1) (m.write8 (dataAddr base h) (src 0))

/-- The page after `n` bytes were appended at the head `h`. -/
def filled (base : UInt64) (src : Nat → UInt8) (n h : Nat) (m : Mem) : Mem :=
  (poured base src n h m).write64 (base + headOffset) (UInt64.ofNat (h + n))

/-- The `n` bytes at the positions of the stream from `t` on. -/
def drawn (base : UInt64) : Nat → Nat → Mem → List UInt8
  | 0, _, _ => []
  | n + 1, t, m => m (dataAddr base t) :: drawn base n (t + 1) m

theorem poured_add (src : Nat → UInt8) (a b h : Nat) (m : Mem) :
    poured base src (a + b) h m =
      poured base (fun i => src (a + i)) b (h + a) (poured base src a h m) := by
  induction a generalizing src h m with
  | zero =>
    rw [Nat.zero_add, Nat.add_zero]
    congr 1
    funext i
    rw [Nat.zero_add]
  | succ a ih =>
    rw [Nat.succ_add_eq_add_succ, Nat.add_succ]
    show poured base (fun i => src (i + 1)) (a + b) (h + 1) (m.write8 (dataAddr base h) (src 0)) = _
    rw [ih]
    have hpos : h + 1 + a = h + (a + 1) := by omega
    have hsrc : (fun i => src (a + i + 1)) = fun i => src (a + 1 + i) := by
      funext i
      congr 1
      omega
    rw [hpos, hsrc]
    rfl

theorem write8_head (m : Mem) (v : UInt64) (n : Nat) (b : UInt8) :
    (m.write64 (base + headOffset) v).write8 (dataAddr base n) b =
      (m.write8 (dataAddr base n) b).write64 (base + headOffset) v :=
  Mem.write8_write64_offset (i := 0) (by decide) (by omega) (by omega)

theorem poured_head (src : Nat → UInt8) (n h : Nat) (m : Mem) (v : UInt64) :
    poured base src n h (m.write64 (base + headOffset) v) =
      (poured base src n h m).write64 (base + headOffset) v := by
  induction n generalizing src h m with
  | zero => rfl
  | succ n ih =>
    show poured base _ n (h + 1) ((m.write64 (base + headOffset) v).write8 (dataAddr base h) (src 0)) = _
    rw [write8_head, ih]
    rfl

/-- **One byte more**: appending a byte and then `n` more. -/
theorem filled_succ (src : Nat → UInt8) (n h : Nat) (m : Mem) (v : UInt64) :
    filled base (fun i => src (i + 1)) n (h + 1)
        ((m.write8 (dataAddr base h) (src 0)).write64 (base + headOffset) v) =
      filled base src (n + 1) h m := by
  unfold filled
  have hpos : h + 1 + n = h + (n + 1) := by omega
  rw [poured_head, Mem.write64_write64_self, hpos]
  rfl

theorem filled_zero (src : Nat → UInt8) {h : Nat} {m : Mem}
    (hh : (m.read64 (base + headOffset)).toNat = h) : filled base src 0 h m = m := by
  show m.write64 (base + headOffset) (UInt64.ofNat (h + 0)) = m
  rw [Nat.add_zero, ← hh, UInt64.ofNat_toNat, Mem.write64_read64_self]

theorem drawn_add (a b t : Nat) (m : Mem) :
    drawn base (a + b) t m = drawn base a t m ++ drawn base b (t + a) m := by
  induction a generalizing t with
  | zero =>
    rw [Nat.zero_add]
    rfl
  | succ a ih =>
    rw [Nat.succ_add_eq_add_succ, Nat.add_succ]
    show m (dataAddr base t) :: drawn base (a + b) (t + 1) m = _
    rw [ih, show t + 1 + a = t + (a + 1) by omega]
    rfl

theorem drawn_write_tail (n t : Nat) (m : Mem) (v : UInt64) :
    drawn base n t (m.write64 (base + tailOffset) v) = drawn base n t m := by
  induction n generalizing t with
  | zero => rfl
  | succ n ih =>
    show m.write64 (base + tailOffset) v (dataAddr base t) :: drawn base n (t + 1) _ = _
    rw [data_write_tail, ih]
    rfl

theorem length_drawn (n t : Nat) (m : Mem) : (drawn base n t m).length = n := by
  induction n generalizing t with
  | zero => rfl
  | succ n ih =>
    show (drawn base n (t + 1) m).length + 1 = n + 1
    rw [ih]

/-! ### Accesses of a program that runs alone -/

section Alone

variable {α : Type} (m : Mem)

theorem runAlone_volatileRead (a : UInt64) (k : UInt64 → MemProg α) :
    Prog.runAlone MemOp.sem (volatileRead a >>= k) m = Prog.runAlone MemOp.sem (k (m.read64 a)) m := rfl

theorem runAlone_volatileWrite (a v : UInt64) (k : Unit → MemProg α) :
    Prog.runAlone MemOp.sem (volatileWrite a v >>= k) m =
      Prog.runAlone MemOp.sem (k ()) (m.write64 a v) := rfl

theorem runAlone_store8 (a : UInt64) (v : UInt8) (k : Unit → MemProg α) :
    Prog.runAlone MemOp.sem (store8 a v >>= k) m = Prog.runAlone MemOp.sem (k ()) (m.write8 a v) := rfl

theorem runAlone_load8 (a : UInt64) (k : UInt8 → MemProg α) :
    Prog.runAlone MemOp.sem (load8 a >>= k) m = Prog.runAlone MemOp.sem (k (m a)) m := by
  show Prog.runAlone MemOp.sem (k (m a).toUInt64.toUInt8) m = _
  rw [UInt8.toUInt8_toUInt64]

theorem runAlone_pure (a : α) : Prog.runAlone MemOp.sem (pure a : MemProg α) m = (a, m) := rfl

end Alone

/-! ### Single bytes -/

theorem push_of_room {m : Mem} (hcap : m.read64 (base + capacityOffset) = dataCapacity)
    (hroom : m.read64 (base + headOffset) - m.read64 (base + tailOffset) < dataCapacity) (b : UInt8) :
    (spscPush base b).runAlone MemOp.sem m =
      (true, (m.write8 (dataAddr base (m.read64 (base + headOffset)).toNat) b).write64
        (base + headOffset) (m.read64 (base + headOffset) + 1)) := by
  unfold spscPush
  rw [runAlone_volatileRead, runAlone_volatileRead, runAlone_volatileRead, hcap]
  have hidx := toNat_mod_capacity (i := m.read64 (base + headOffset)) rfl
  have hinside : ¬ m.read64 (base + headOffset) % dataCapacity ≥ dataCapacity := by
    rw [ge_iff_le, UInt64.le_iff_toNat_le, hidx, dataCapacity_toNat]
    omega
  rw [if_neg (by decide), if_neg (by rw [ge_iff_le]; exact UInt64.not_le.mpr hroom), if_neg hinside,
    runAlone_store8, runAlone_volatileWrite, runAlone_pure, dataAddr_eq base hidx]

theorem push_of_full {m : Mem} (hcap : m.read64 (base + capacityOffset) = dataCapacity)
    (hfull : m.read64 (base + headOffset) - m.read64 (base + tailOffset) ≥ dataCapacity) (b : UInt8) :
    (spscPush base b).runAlone MemOp.sem m = (false, m) := by
  unfold spscPush
  rw [runAlone_volatileRead, runAlone_volatileRead, runAlone_volatileRead, hcap, if_neg (by decide),
    if_pos hfull, runAlone_pure]

theorem pop_of_ne {m : Mem} (hcap : m.read64 (base + capacityOffset) = dataCapacity)
    (hne : m.read64 (base + headOffset) ≠ m.read64 (base + tailOffset)) :
    (spscPop base).runAlone MemOp.sem m =
      (((m (dataAddr base (m.read64 (base + tailOffset)).toNat)).toNat : Int),
        m.write64 (base + tailOffset) (m.read64 (base + tailOffset) + 1)) := by
  unfold spscPop
  have hidx := toNat_mod_capacity (i := m.read64 (base + tailOffset)) rfl
  have hinside : ¬ m.read64 (base + tailOffset) % dataCapacity ≥ dataCapacity := by
    rw [ge_iff_le, UInt64.le_iff_toNat_le, hidx, dataCapacity_toNat]
    omega
  rw [runAlone_volatileRead, runAlone_volatileRead, if_neg (by simpa using hne),
    runAlone_volatileRead, hcap, if_neg (by decide), if_neg hinside, runAlone_load8,
    runAlone_volatileWrite, runAlone_pure, dataAddr_eq base hidx]

theorem pop_of_eq {m : Mem} (heq : m.read64 (base + headOffset) = m.read64 (base + tailOffset)) :
    (spscPop base).runAlone MemOp.sem m = (-1, m) := by
  unfold spscPop
  rw [runAlone_volatileRead, runAlone_volatileRead, if_pos (by simpa using heq), runAlone_pure]

/-! ### The indices -/

/-- The indices of a ring in order, as numbers. -/
structure Indices (base : UInt64) (m : Mem) (head tail : Nat) : Prop where
  cap : m.read64 (base + capacityOffset) = dataCapacity
  head_eq : (m.read64 (base + headOffset)).toNat = head
  tail_eq : (m.read64 (base + tailOffset)).toNat = tail
  le : tail ≤ head
  room : head - tail ≤ 3904

variable {m : Mem} {head tail : Nat}

theorem Indices.toNat_sub (h : Indices base m head tail) :
    (m.read64 (base + headOffset) - m.read64 (base + tailOffset)).toNat = head - tail := by
  have hle := h.le
  rw [← h.head_eq, ← h.tail_eq] at hle ⊢
  exact toNat_sub_indices hle

theorem toNat_succ {v : UInt64} {n : Nat} (h : v.toNat = n) (hn : n + 1 < 2 ^ 64) :
    (v + 1).toNat = n + 1 := by
  rw [UInt64.toNat_add, h, UInt64.toNat_one, Nat.mod_eq_of_lt hn]

theorem Indices.push (h : Indices base m head tail) (hroom : head - tail < 3904)
    (hbound : head + 1 < 2 ^ 64) (b : UInt8) :
    Indices base ((m.write8 (dataAddr base head) b).write64 (base + headOffset)
      (m.read64 (base + headOffset) + 1)) (head + 1) tail := by
  have hle := h.le
  refine ⟨?_, ?_, ?_, by omega, by omega⟩
  · rw [cap_write_head, cap_write8, h.cap]
  · rw [Mem.read64_write64_self]
    exact toNat_succ h.head_eq hbound
  · rw [tail_write_head, tail_write8, h.tail_eq]

theorem Indices.pop (h : Indices base m head tail) (hne : tail < head) :
    Indices base (m.write64 (base + tailOffset) (m.read64 (base + tailOffset) + 1)) head
      (tail + 1) := by
  have hroom := h.room
  have hlt : head < 2 ^ 64 := by
    rw [← h.head_eq]
    exact UInt64.toNat_lt _
  refine ⟨?_, ?_, ?_, by omega, by omega⟩
  · rw [cap_write_tail, h.cap]
  · rw [head_write_tail, h.head_eq]
  · rw [Mem.read64_write64_self]
    exact toNat_succ h.tail_eq (by omega)

/-! ### The loops of single bytes -/

/-- **What the loop of pushes does.** -/
theorem iterPush_eq (src : Nat → UInt8) (n : Nat) (h : Indices base m head tail)
    (hbound : head + min n (3904 - (head - tail)) < 2 ^ 64) :
    (iterPush base src n).runAlone MemOp.sem m =
      (min n (3904 - (head - tail)), filled base src (min n (3904 - (head - tail))) head m) := by
  induction n generalizing src m head with
  | zero =>
    rw [Nat.zero_min, filled_zero src h.head_eq]
    rfl
  | succ n ih =>
    have hsub := h.toNat_sub
    have hle := h.le
    have hcap := h.room
    have hstep : (iterPush base src (n + 1)).runAlone MemOp.sem m =
        Prog.runAlone MemOp.sem
          (if ((spscPush base (src 0)).runAlone MemOp.sem m).1 then do
            let k ← iterPush base (fun i => src (i + 1)) n
            pure (k + 1)
          else pure 0) ((spscPush base (src 0)).runAlone MemOp.sem m).2 :=
      Prog.runAlone_bind ..
    rw [hstep]
    by_cases hroom : head - tail < 3904
    · have hlt : m.read64 (base + headOffset) - m.read64 (base + tailOffset) < dataCapacity := by
        rw [UInt64.lt_iff_toNat_lt, hsub, dataCapacity_toNat]
        exact hroom
      have hmin : min (n + 1) (3904 - (head - tail)) = min n (3904 - (head + 1 - tail)) + 1 := by
        omega
      rw [push_of_room h.cap hlt, if_pos rfl, h.head_eq, Prog.bind_eq, Prog.runAlone_bind,
        ih (fun i => src (i + 1)) (h.push hroom (by omega) (src 0)) (by omega), filled_succ, hmin]
      rfl
    · have hge : m.read64 (base + headOffset) - m.read64 (base + tailOffset) ≥ dataCapacity := by
        rw [ge_iff_le, UInt64.le_iff_toNat_le, hsub, dataCapacity_toNat]
        omega
      have hmin : min (n + 1) (3904 - (head - tail)) = 0 := by omega
      rw [push_of_full h.cap hge, if_neg Bool.false_ne_true, hmin, filled_zero src h.head_eq]
      rfl

/-- **What the loop of pops does.** -/
theorem iterPop_eq (n : Nat) (h : Indices base m head tail) :
    (iterPop base n).runAlone MemOp.sem m =
      (drawn base (min n (head - tail)) tail m,
        m.write64 (base + tailOffset) (UInt64.ofNat (tail + min n (head - tail)))) := by
  induction n generalizing m tail with
  | zero =>
    have hsame : UInt64.ofNat tail = m.read64 (base + tailOffset) := by
      rw [← h.tail_eq, UInt64.ofNat_toNat]
    rw [Nat.zero_min, Nat.add_zero, hsame, Mem.write64_read64_self]
    rfl
  | succ n ih =>
    have hle := h.le
    have hstep : (iterPop base (n + 1)).runAlone MemOp.sem m =
        Prog.runAlone MemOp.sem
          (if ((spscPop base).runAlone MemOp.sem m).1 == -1 then pure []
          else do
            let rest ← iterPop base n
            pure (UInt8.ofNat ((spscPop base).runAlone MemOp.sem m).1.toNat :: rest))
          ((spscPop base).runAlone MemOp.sem m).2 :=
      Prog.runAlone_bind ..
    rw [hstep]
    by_cases hne : tail < head
    · have hne' : m.read64 (base + headOffset) ≠ m.read64 (base + tailOffset) := by
        intro heq
        have := congrArg UInt64.toNat heq
        rw [h.head_eq, h.tail_eq] at this
        omega
      have hmin : min (n + 1) (head - tail) = min n (head - (tail + 1)) + 1 := by omega
      have hbyte : ¬ (((m (dataAddr base tail)).toNat : Int) == -1) = true := by
        rw [beq_iff_eq]
        omega
      rw [pop_of_ne h.cap hne', h.tail_eq, if_neg hbyte, Prog.bind_eq, Prog.runAlone_bind,
        ih (h.pop hne), Mem.write64_write64_self, drawn_write_tail, hmin, Int.toNat_natCast,
        UInt8.ofNat_toNat, show tail + 1 + min n (head - (tail + 1)) =
          tail + (min n (head - (tail + 1)) + 1) by omega]
      rfl
    · have heq : m.read64 (base + headOffset) = m.read64 (base + tailOffset) := by
        rw [← UInt64.toNat_inj, h.head_eq, h.tail_eq]
        omega
      have hmin : min (n + 1) (head - tail) = 0 := by omega
      have hsame : UInt64.ofNat tail = m.read64 (base + tailOffset) := by
        rw [← h.tail_eq, UInt64.ofNat_toNat]
      rw [pop_of_eq heq, if_pos (show ((-1 : Int) == -1) = true by decide), hmin, Nat.add_zero, hsame,
        Mem.write64_read64_self]
      rfl

/-! ### Copies -/

theorem runAlone_fastMemcpyIn (n : Nat) : ∀ {dst : UInt64} (src : Nat → UInt8) {h : Nat} (m : Mem),
    (∀ j < n, dst + UInt64.ofNat j = dataAddr base (h + j)) →
    (fastMemcpyIn dst src n).runAlone MemOp.sem m = ((), poured base src n h m) := by
  induction n with
  | zero =>
    intro dst src h m _
    rfl
  | succ n ih =>
    intro dst src h m hdst
    have hfirst : dst = dataAddr base h := by
      have := hdst 0 (by omega)
      rwa [show UInt64.ofNat 0 = 0 from rfl, UInt64.add_zero] at this
    show Prog.runAlone MemOp.sem (store8 dst (src 0) >>= fun _ =>
      fastMemcpyIn (dst + 1) (fun i => src (i + 1)) n) m = _
    rw [runAlone_store8, ih (fun i => src (i + 1)), hfirst]
    · rfl
    · intro j hj
      rw [offset_succ, hdst (j + 1) (by omega)]
      congr 1
      omega

theorem runAlone_fastMemcpyOut (n : Nat) : ∀ {src : UInt64} {t : Nat} (m : Mem),
    (∀ j < n, src + UInt64.ofNat j = dataAddr base (t + j)) →
    (fastMemcpyOut src n).runAlone MemOp.sem m = (drawn base n t m, m) := by
  induction n with
  | zero =>
    intro src t m _
    rfl
  | succ n ih =>
    intro src t m hsrc
    have hfirst : src = dataAddr base t := by
      have := hsrc 0 (by omega)
      rwa [show UInt64.ofNat 0 = 0 from rfl, UInt64.add_zero] at this
    show Prog.runAlone MemOp.sem (load8 src >>= fun b =>
      fastMemcpyOut (src + 1) n >>= fun rest => pure (b :: rest)) m = _
    rw [runAlone_load8, Prog.bind_eq, Prog.runAlone_bind, ih m, hfirst]
    · rfl
    · intro j hj
      rw [offset_succ, hsrc (j + 1) (by omega)]
      congr 1
      omega

section Segments

variable {start count : UInt64} {n : Nat}

theorem first_segment (hstart : start.toNat = n % 3904) {j : Nat} (hj : start.toNat + j < 3904) :
    base + dataOffset + start + UInt64.ofNat j = dataAddr base (n + j) := by
  rw [UInt64.add_assoc (base + dataOffset)]
  apply dataAddr_eq
  rw [UInt64.toNat_add, UInt64.toNat_ofNat', hstart]
  omega

theorem second_segment (hstart : start.toNat = n % 3904) {k j : Nat} (hk : start.toNat + k = 3904)
    (hj : j < 3904) : base + dataOffset + UInt64.ofNat j = dataAddr base (n + k + j) := by
  apply dataAddr_eq
  rw [UInt64.toNat_ofNat']
  omega

/-- **The copy in two segments** fills consecutive positions. -/
theorem runAlone_copyIn (hstart : start.toNat = n % 3904) (hcount : count.toNat ≤ 3904)
    (src : Nat → UInt8) (m : Mem) :
    (copyIn base dataCapacity start src count).runAlone MemOp.sem m =
      ((), poured base src count.toNat n m) := by
  unfold copyIn
  extract_lets seg1Len first second
  have hfirst : first.toNat = min count.toNat (3904 - start.toNat) :=
    (toNat_segments (by omega)).1
  have hsecond : second.toNat = count.toNat - first.toNat := (toNat_segments (by omega)).2
  clear_value second first
  rw [Prog.bind_eq, Prog.runAlone_bind, runAlone_fastMemcpyIn first.toNat src m
    fun j hj => first_segment hstart (by omega)]
  have hsplit : count.toNat = first.toNat + second.toNat := by omega
  by_cases hpos : second > 0
  · rw [if_pos hpos]
    rw [gt_iff_lt, UInt64.lt_iff_toNat_lt, hsecond, UInt64.toNat_zero] at hpos
    have hend : start.toNat + first.toNat = 3904 := by omega
    rw [runAlone_fastMemcpyIn second.toNat (fun i => src (first.toNat + i)) _
      fun j hj => second_segment hstart hend (by omega), hsplit, poured_add]
  · rw [if_neg hpos]
    rw [gt_iff_lt, UInt64.lt_iff_toNat_lt, hsecond, UInt64.toNat_zero] at hpos
    rw [show count.toNat = first.toNat by omega, runAlone_pure]

theorem runAlone_copyOut (hstart : start.toNat = n % 3904) (hcount : count.toNat ≤ 3904) (m : Mem) :
    (copyOut base dataCapacity start count).runAlone MemOp.sem m =
      (drawn base count.toNat n m, m) := by
  unfold copyOut
  extract_lets seg1Len first second
  have hfirst : first.toNat = min count.toNat (3904 - start.toNat) :=
    (toNat_segments (by omega)).1
  have hsecond : second.toNat = count.toNat - first.toNat := (toNat_segments (by omega)).2
  clear_value second first
  rw [Prog.bind_eq, Prog.runAlone_bind, runAlone_fastMemcpyOut first.toNat m
    fun j hj => first_segment hstart (by omega)]
  have hsplit : count.toNat = first.toNat + second.toNat := by omega
  by_cases hpos : second > 0
  · rw [if_pos hpos]
    rw [gt_iff_lt, UInt64.lt_iff_toNat_lt, hsecond, UInt64.toNat_zero] at hpos
    have hend : start.toNat + first.toNat = 3904 := by omega
    rw [Prog.bind_eq, Prog.runAlone_bind, runAlone_fastMemcpyOut second.toNat m
      fun j hj => second_segment hstart hend (by omega), hsplit, drawn_add]
    rfl
  · rw [if_neg hpos]
    rw [gt_iff_lt, UInt64.lt_iff_toNat_lt, hsecond, UInt64.toNat_zero] at hpos
    rw [show count.toNat = first.toNat by omega, runAlone_pure]

end Segments

/-! ### Blocks -/

theorem Indices.accepted (h : Indices base m head tail) :
    ¬ (decide (m.read64 (base + tailOffset) > m.read64 (base + headOffset)) ||
      decide (m.read64 (base + headOffset) - m.read64 (base + tailOffset) > dataCapacity)) =
        true := by
  have hle := h.le
  have hroom := h.room
  simp only [Bool.or_eq_true, decide_eq_true_eq, gt_iff_lt, UInt64.lt_iff_toNat_lt, h.toNat_sub,
    h.head_eq, h.tail_eq, dataCapacity_toNat, not_or]
  omega

theorem ofNat_add_toNat {v : UInt64} {n : Nat} (h : v.toNat = n) (c : UInt64) :
    v + c = UInt64.ofNat (n + c.toNat) := by
  rw [← h, UInt64.ofNat_add, UInt64.ofNat_toNat, UInt64.ofNat_toNat]

/-- **What a block push does.** -/
theorem pushBulk_eq (src : Nat → UInt8) (len : UInt64) (h : Indices base m head tail) :
    (spscPushBulk base src len).runAlone MemOp.sem m =
      (UInt64.ofNat (min len.toNat (3904 - (head - tail))),
        filled base src (min len.toNat (3904 - (head - tail))) head m) := by
  have hle := h.le
  have hroom := h.room
  unfold spscPushBulk
  rw [runAlone_volatileRead, runAlone_volatileRead, runAlone_volatileRead, h.cap,
    if_neg (by decide)]
  extract_lets cap avail count₀ count
  have hcap : cap = dataCapacity := rfl
  have havail : avail.toNat = 3904 - (head - tail) := by
    have := @toNat_room (m.read64 (base + headOffset)) (m.read64 (base + tailOffset))
      (by rw [h.head_eq, h.tail_eq]; exact hle) (by rw [h.head_eq, h.tail_eq]; exact hroom)
    rwa [h.head_eq, h.tail_eq] at this
  have hcount₀ : count₀.toNat = min len.toNat (3904 - (head - tail)) := by
    rw [← havail]
    exact toNat_ite_lt len avail
  have hcount : count = count₀ := by
    show (if count₀ > cap then cap else count₀) = _
    rw [if_neg]
    rw [gt_iff_lt, UInt64.lt_iff_toNat_lt, hcap, dataCapacity_toNat]
    omega
  clear_value count count₀ avail cap
  subst hcap hcount
  rw [if_neg h.accepted, ← hcount₀, UInt64.ofNat_toNat]
  by_cases hnone : (count == 0) = true
  · rw [if_pos hnone, runAlone_pure, beq_iff_eq.mp hnone, UInt64.toNat_zero,
      filled_zero src h.head_eq]
  · rw [if_neg hnone, Prog.bind_eq, Prog.runAlone_bind,
      runAlone_copyIn (toNat_mod_capacity h.head_eq) (by omega) src m, runAlone_volatileWrite,
      runAlone_pure, ofNat_add_toNat h.head_eq]
    rfl

/-- **What a block pop does.** -/
theorem popBulk_eq (len : UInt64) (h : Indices base m head tail) :
    (spscPopBulk base len).runAlone MemOp.sem m =
      ((UInt64.ofNat (min len.toNat (head - tail)),
        drawn base (min len.toNat (head - tail)) tail m),
        m.write64 (base + tailOffset) (UInt64.ofNat (tail + min len.toNat (head - tail)))) := by
  have hroom := h.room
  unfold spscPopBulk
  rw [runAlone_volatileRead, runAlone_volatileRead, runAlone_volatileRead, h.cap,
    if_neg (by decide)]
  extract_lets cap avail count₀ count
  have hcap : cap = dataCapacity := rfl
  have havail : avail.toNat = head - tail := h.toNat_sub
  have hcount₀ : count₀.toNat = min len.toNat (head - tail) := by
    rw [← havail]
    exact toNat_ite_lt len avail
  have hcount : count = count₀ := by
    show (if count₀ > cap then cap else count₀) = _
    rw [if_neg]
    rw [gt_iff_lt, UInt64.lt_iff_toNat_lt, hcap, dataCapacity_toNat]
    omega
  clear_value count count₀ avail cap
  subst hcap hcount
  rw [if_neg h.accepted, ← hcount₀, UInt64.ofNat_toNat]
  by_cases hnone : (count == 0) = true
  · have hsame : UInt64.ofNat tail = m.read64 (base + tailOffset) := by
      rw [← h.tail_eq, UInt64.ofNat_toNat]
    rw [if_pos hnone, runAlone_pure, beq_iff_eq.mp hnone, UInt64.toNat_zero, Nat.add_zero, hsame,
      Mem.write64_read64_self]
    rfl
  · rw [if_neg hnone, Prog.bind_eq, Prog.runAlone_bind,
      runAlone_copyOut (toNat_mod_capacity h.tail_eq) (by omega) m, runAlone_volatileWrite,
      runAlone_pure, ofNat_add_toNat h.tail_eq]

/-! ### Agreement -/

/-- The block push leaves the page and returns the count of the loop of pushes. -/
def PushAgrees (base : UInt64) (m : Mem) (src : Nat → UInt8) (len : UInt64) : Prop :=
  let r := (spscPushBulk base src len).runAlone MemOp.sem m
  (iterPush base src len.toNat).runAlone MemOp.sem m = (r.1.toNat, r.2)

/-- The block pop leaves the page and delivers the bytes of the loop of pops, and counts them. -/
def PopAgrees (base : UInt64) (m : Mem) (len : UInt64) : Prop :=
  let r := (spscPopBulk base len).runAlone MemOp.sem m
  (iterPop base len.toNat).runAlone MemOp.sem m = (r.1.2, r.2) ∧ r.1.1.toNat = r.1.2.length

theorem Indices.pushAgrees (h : Indices base m head tail) (src : Nat → UInt8) (len : UInt64)
    (hbound : head + min len.toNat (3904 - (head - tail)) < 2 ^ 64) : PushAgrees base m src len := by
  unfold PushAgrees
  rw [pushBulk_eq src len h, iterPush_eq src len.toNat h hbound]
  dsimp only
  rw [UInt64.toNat_ofNat', Nat.mod_eq_of_lt (by omega)]

theorem Indices.popAgrees (h : Indices base m head tail) (len : UInt64) : PopAgrees base m len := by
  have hroom := h.room
  unfold PopAgrees
  rw [popBulk_eq len h, iterPop_eq len.toNat h]
  refine ⟨rfl, ?_⟩
  dsimp only
  rw [UInt64.toNat_ofNat', Nat.mod_eq_of_lt (by omega), length_drawn]

theorem Good.indices {s : Ring} (h : Good base s) :
    Indices base s.mem s.sent.length s.received.length :=
  ⟨h.cap, h.head, h.tail, h.received.length_le, by have := h.room; omega⟩

/-- **Block transfers are iterated single-byte transfers**, in every state that the two sides reach
after `spsc_init` in any interleaving while fewer than `2 ^ 64` bytes are sent, those of the call
included. -/
theorem bulk_eq_iter (base : UInt64) (m : Mem) (events : List (spscMachine base).Event)
    (hsent : (runOps Machine.exec (Machine.start (initRing base m)) events).shared.sent.length <
      2 ^ 64) :
    let s := (runOps Machine.exec (Machine.start (initRing base m)) events).shared
    (∀ (src : Nat → UInt8) (len : UInt64),
      s.sent.length + min len.toNat (3904 - (ringBytes base s.mem).length) < 2 ^ 64 →
      PushAgrees base s.mem src len) ∧
    ∀ len : UInt64, PopAgrees base s.mem len := by
  intro s
  have hidle : ∀ i, (spscProtocol base).Idle i (initRing base m) := by
    rintro (_ | _)
    · rfl
    · trivial
  have h : Good base s := (Protocol.configOk_bounded (f := fun s => s.sent.length)
    (spsc_verified base) sent_le_step sent_finish (fun _ _ _ _ h => h) (good_initRing base m) hidle
    hsent).1
  have hcount : (ringBytes base s.mem).length = s.sent.length - s.received.length := by
    have := congrArg List.length h.ringBytes
    rw [List.length_append] at this
    omega
  refine ⟨?_, fun len => h.indices.popAgrees len⟩
  intro src len hbound
  rw [hcount] at hbound
  exact h.indices.pushAgrees src len hbound

/-- A push is called, and a pop reads the head before the push has begun. -/
theorem bulk_eq_iter_popAheadOfPush :
    PushAgrees 0x1000
      (runOps Machine.exec (Machine.start (initRing 0x1000 fun _ => 0)) popAheadOfPush).shared.mem
      (fun i => UInt8.ofNat i) 3 := by
  have hsent : (runOps Machine.exec (Machine.start (initRing 0x1000 fun _ => 0))
      popAheadOfPush).shared.sent.length < 2 ^ 64 - 3 := by decide +kernel
  apply (bulk_eq_iter 0x1000 (fun _ => 0) popAheadOfPush (by omega)).1
  have hmin : min (3 : UInt64).toNat (3904 - (ringBytes 0x1000 (runOps Machine.exec
      (Machine.start (initRing 0x1000 fun _ => 0)) popAheadOfPush).shared.mem).length) ≤ 3 :=
    Nat.min_le_left _ _
  omega

/-! ### A ring through which `2 ^ 64` bytes have gone -/

theorem runCall_mem (i : Side) (c : (spscMachine base).Call i)
    (p : Prog MemOp UInt64 ((spscMachine base).Res i)) (before s : Ring) :
    ((spscMachine base).runCall i c p before s).mem = (p.runAlone MemOp.sem s.mem).2 := by
  induction p generalizing before s with
  | ret a => cases i <;> rfl
  | op o k ih =>
    cases i with
    | producer => exact ih (o.sem s.mem).1 s ((spscMachine base).step .producer c o s).2
    | consumer => exact ih (o.sem s.mem).1 s ((spscMachine base).step .consumer c o s).2

theorem exists_call {s₀ : Ring} {events : List (spscMachine base).Event}
    (hidle : (runOps Machine.exec (Machine.start s₀ : (spscMachine base).Config) events).thread =
      fun _ => none) (i : Side) (c : (spscMachine base).Call i) :
    ∃ events', (runOps Machine.exec (Machine.start s₀ : (spscMachine base).Config) events').thread =
        (fun _ => none) ∧
      (runOps Machine.exec (Machine.start s₀ : (spscMachine base).Config) events').shared.mem =
        (((spscMachine base).body i c).runAlone MemOp.sem
          (runOps Machine.exec (Machine.start s₀ : (spscMachine base).Config) events).shared.mem).2 := by
  obtain ⟨n, hn⟩ := Machine.exists_alone (congrFun hidle i) c
  refine ⟨events ++ (.call i c :: List.replicate n (.step i)), ?_, ?_⟩
  · rw [runOps_append, hn]
    exact hidle
  · rw [runOps_append, hn]
    exact runCall_mem i c _ _ _

/-- An empty ring whose indices are `v`. -/
structure EmptyAt (base : UInt64) (m : Mem) (v : UInt64) : Prop where
  cap : m.read64 (base + capacityOffset) = dataCapacity
  head_eq : m.read64 (base + headOffset) = v
  tail_eq : m.read64 (base + tailOffset) = v

theorem EmptyAt.push {m : Mem} {v : UInt64} (h : EmptyAt base m v) (b : UInt8) :
    ((Push.body base (.push b)).runAlone MemOp.sem m).2 =
      (m.write8 (dataAddr base v.toNat) b).write64 (base + headOffset) (v + 1) := by
  have hsub : m.read64 (base + headOffset) - m.read64 (base + tailOffset) < dataCapacity := by
    rw [h.head_eq, h.tail_eq, UInt64.sub_self]
    decide
  show (Prog.runAlone MemOp.sem ((spscPush base b).bind fun r => .ret (PushResult.flag r)) m).2 = _
  rw [Prog.runAlone_bind, push_of_room h.cap hsub b, h.head_eq]
  rfl

theorem EmptyAt.push_pop {m : Mem} {v : UInt64} (h : EmptyAt base m v) (b : UInt8) :
    EmptyAt base ((Pop.body base .pop).runAlone MemOp.sem
      ((Push.body base (.push b)).runAlone MemOp.sem m).2).2 (v + 1) := by
  have hpush := h.push b
  generalize ((Push.body base (.push b)).runAlone MemOp.sem m).2 = m₁ at hpush ⊢
  have hcap₁ : m₁.read64 (base + capacityOffset) = dataCapacity := by
    rw [hpush, cap_write_head, cap_write8, h.cap]
  have hhead₁ : m₁.read64 (base + headOffset) = v + 1 := by
    rw [hpush, Mem.read64_write64_self]
  have htail₁ : m₁.read64 (base + tailOffset) = v := by
    rw [hpush, tail_write_head, tail_write8, h.tail_eq]
  have hne : m₁.read64 (base + headOffset) ≠ m₁.read64 (base + tailOffset) := by
    rw [hhead₁, htail₁]
    intro heq
    have hone : (1 : UInt64) = 0 := by grind
    exact absurd hone (by decide)
  have hpop : ((Pop.body base .pop).runAlone MemOp.sem m₁).2 =
      m₁.write64 (base + tailOffset) (v + 1) := by
    show (Prog.runAlone MemOp.sem ((spscPop base).bind fun r => .ret (PopResult.byte r)) m₁).2 = _
    rw [Prog.runAlone_bind, pop_of_ne hcap₁ hne, htail₁]
    rfl
  rw [hpop]
  refine ⟨?_, ?_, ?_⟩
  · rw [cap_write_tail, hcap₁]
  · rw [head_write_tail, hhead₁]
  · exact Mem.read64_write64_self ..

theorem exists_emptyAt (base : UInt64) (m : Mem) (v : Nat) :
    ∃ events, (runOps Machine.exec
        (Machine.start (initRing base m) : (spscMachine base).Config) events).thread =
        (fun _ => none) ∧
      EmptyAt base (runOps Machine.exec
        (Machine.start (initRing base m) : (spscMachine base).Config) events).shared.mem
        (UInt64.ofNat v) := by
  induction v with
  | zero =>
    have hcap := (good_initRing base m).cap
    have hhead := (good_initRing base m).head
    have htail := (good_initRing base m).tail
    rw [show (initRing base m).sent.length = 0 from rfl] at hhead
    rw [show (initRing base m).received.length = 0 from rfl] at htail
    generalize initRing base m = s at hcap hhead htail ⊢
    exact ⟨[], rfl, hcap, UInt64.toNat_inj.mp hhead, UInt64.toNat_inj.mp htail⟩
  | succ v ih =>
    obtain ⟨events, hidle, hempty⟩ := ih
    obtain ⟨events₁, hidle₁, hmem₁⟩ := exists_call hidle .producer (Push.push 0)
    obtain ⟨events₂, hidle₂, hmem₂⟩ := exists_call hidle₁ .consumer Pop.pop
    refine ⟨events₂, hidle₂, ?_⟩
    rw [hmem₂, hmem₁, UInt64.ofNat_add]
    exact hempty.push_pop 0

/-- With the head at 0 and the tail before it, `spsc_push` writes its byte and a block is refused. -/
theorem not_pushAgrees_of_wrapped {m : Mem} (hcap : m.read64 (base + capacityOffset) = dataCapacity)
    (hhead : m.read64 (base + headOffset) = 0)
    (htail : m.read64 (base + tailOffset) = 0xFFFFFFFFFFFFFFFF) (src : Nat → UInt8) :
    ¬ PushAgrees base m src 1 := by
  have hblock : ((spscPushBulk base src 1).runAlone MemOp.sem m).1 = 0 := by
    unfold spscPushBulk
    rw [runAlone_volatileRead, runAlone_volatileRead, runAlone_volatileRead, hcap, hhead, htail,
      if_neg (by decide)]
    dsimp only
    rw [if_pos (by decide), runAlone_pure]
  have hroom : m.read64 (base + headOffset) - m.read64 (base + tailOffset) < dataCapacity := by
    rw [hhead, htail]
    decide
  have hsingle : ((iterPush base src 1).runAlone MemOp.sem m).1 = 1 := by
    have hstep : (iterPush base src 1).runAlone MemOp.sem m =
        Prog.runAlone MemOp.sem
          (if ((spscPush base (src 0)).runAlone MemOp.sem m).1 then do
            let k ← iterPush base (fun i => src (i + 1)) 0
            pure (k + 1)
          else pure 0) ((spscPush base (src 0)).runAlone MemOp.sem m).2 :=
      Prog.runAlone_bind ..
    rw [hstep, push_of_room hcap hroom, if_pos rfl]
    rfl
  intro hagrees
  have hcount := congrArg Prod.fst hagrees
  dsimp only at hcount
  rw [hblock, show (1 : UInt64).toNat = 1 from rfl, hsingle] at hcount
  exact absurd hcount (by decide)

theorem exists_wrapped (base : UInt64) (m : Mem) :
    ∃ events, ∀ mem, (runOps Machine.exec
        (Machine.start (initRing base m) : (spscMachine base).Config) events).shared.mem = mem →
      mem.read64 (base + capacityOffset) = dataCapacity ∧ mem.read64 (base + headOffset) = 0 ∧
      mem.read64 (base + tailOffset) = 0xFFFFFFFFFFFFFFFF := by
  obtain ⟨events, hidle, hempty⟩ := exists_emptyAt base m 0xFFFFFFFFFFFFFFFF
  obtain ⟨events₁, -, hmem₁⟩ := exists_call hidle .producer (Push.push 0)
  refine ⟨events₁, ?_⟩
  intro mem hmem
  have hpushed := hmem.symm.trans (hmem₁.trans (hempty.push 0))
  have hcap := hempty.cap
  have htail := hempty.tail_eq
  generalize (runOps Machine.exec
    (Machine.start (initRing base m) : (spscMachine base).Config) events).shared.mem = m₀
    at hpushed hcap htail
  refine ⟨?_, ?_, ?_⟩
  · rw [hpushed, cap_write_head, cap_write8, hcap]
  · rw [hpushed, Mem.read64_write64_self]
    rfl
  · rw [hpushed, tail_write_head, tail_write8, htail]
    rfl

/-- After `2 ^ 64` bytes a block push is refused that `spsc_push` would write. -/
theorem not_bulk_eq_iter_wrapped :
    ¬ ∀ (base : UInt64) (m : Mem) (events : List (spscMachine base).Event),
      let s := (runOps Machine.exec (Machine.start (initRing base m)) events).shared
      (∀ (src : Nat → UInt8) (len : UInt64), PushAgrees base s.mem src len) ∧
      ∀ len : UInt64, PopAgrees base s.mem len := by
  intro hall
  obtain ⟨events, hwrapped⟩ := exists_wrapped 0x1000 fun _ => 0
  obtain ⟨hcap, hhead, htail⟩ := hwrapped _ rfl
  exact not_pushAgrees_of_wrapped hcap hhead htail (fun _ => 0)
    ((hall 0x1000 (fun _ => 0) events).1 (fun _ => 0) 1)

end Keuos.Ipc
