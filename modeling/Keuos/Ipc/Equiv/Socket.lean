import Keuos.Ipc.Socket
import Keuos.Ipc.Equiv.Hostile
import Keuos.Ipc.Equiv.Stream

/-!
# The socket library on the kernel's ring

`spsc_init` stores the capacity at offset 8 and leaves the word at offset 16 as it was.  The library takes the
word at 8 for the tail and the word at 16 for the capacity, so that an empty ring does not look empty to it.

As long as the library comes to copy no byte, the kernel's side of the ring is in order (`Sound`).  When the
word at 16 is 0, which it is on a page of zeros, every call that gets further divides by zero.

## Main results

* `sound_run`: harmless calls keep the ring in order.
* `socketLaw_run`: the ring delivers what is written when all calls are harmless, and on a page whose word at
  16 is 0 only then.
-/

namespace Keuos.Ipc.Socket

open Prog (Within)

variable {base : UInt64}

/-! ### Accesses -/

theorem inside_header (base : UInt64) {off : Nat} (h : off + 8 ≤ 4096) :
    ∀ i < 8, InBlock base 4096 (base + UInt64.ofNat off + UInt64.ofNat i) := by
  intro i hi
  rw [UInt64.add_assoc, ← UInt64.ofNat_add]
  exact inBlock_add (by omega)

theorem inside_of_inPage {o : MemOp} (h : InPage base o) : Inside base o := by
  have hheader : ∀ a, InHeader base a → ∀ i < 8, InBlock base 4096 (a + UInt64.ofNat i) := by
    rintro a (rfl | rfl | rfl | rfl)
    · exact inside_header base (show 0 + 8 ≤ 4096 by decide)
    · exact inside_header base (show 64 + 8 ≤ 4096 by decide)
    · exact inside_header base (show 8 + 8 ≤ 4096 by decide)
    · exact inside_header base (show 128 + 8 ≤ 4096 by decide)
  cases o with
  | load8 a => exact h.2
  | store8 a v => exact h.2
  | load64 a => exact hheader a h
  | store64 a v => exact hheader a h

theorem read64_of_within {α : Type} {Q : α → Prop} {n : Nat} {p : MemProg α} (h : Within (InPage base) Q n p)
    (m : Mem) :
    (p.runAlone MemOp.sem m).2.read64 (base + ringCapacityOff) = m.read64 (base + ringCapacityOff) := by
  induction p generalizing n m with
  | ret a => rfl
  | op o k ih =>
    cases n with
    | zero => exact h.elim
    | succ n =>
      refine (ih _ (h.2 _) _).trans ?_
      have hpage := h.1
      cases o with
      | load8 a => rfl
      | load64 a => rfl
      | store8 a v =>
        obtain ⟨hlo, hhi⟩ : 192 ≤ (a - base).toNat ∧ (a - base).toNat < 4096 := hpage
        have ha : a = base + UInt64.ofNat (a - base).toNat := by
          rw [UInt64.ofNat_toNat]
          grind
        rw [ha]
        exact Mem.read64_write8_offset (j := 16) (by omega) (by decide) (by omega)
      | store64 a v =>
        rcases hpage with rfl | rfl | rfl | rfl
        · exact Mem.read64_write64_offset (i := 0) (j := 16) (by decide) (by decide) (by decide)
        · exact Mem.read64_write64_offset (i := 64) (j := 16) (by decide) (by decide) (by decide)
        · exact Mem.read64_write64_offset (i := 8) (j := 16) (by decide) (by decide) (by decide)
        · exact Mem.read64_write64_offset (i := 128) (j := 16) (by decide) (by decide) (by decide)

/-! ### The kernel's calls -/

theorem runCall_push (c : Push) (p : MemProg PushResult) (before s : Ring) :
    let r := p.runAlone MemOp.sem s.mem
    let s' := (spscMachine base).runCall .producer c p before s
    s'.mem = r.2 ∧ s'.received = s.received ∧ s'.accepted = s.accepted ++ c.supply (c.accepted r.1) := by
  induction p generalizing before s with
  | ret a => exact ⟨rfl, rfl, rfl⟩
  | op o k ih =>
    exact ih (o.sem s.mem).1 s ((spscMachine base).step .producer c o s).2

theorem spscPushBulk_clamp {src : Nat → UInt8} {len : UInt64} {m : Mem}
    (hcap : m.read64 (base + Ipc.capacityOffset) = dataCapacity) (hlen : dataCapacity ≤ len) :
    (spscPushBulk base src len).runAlone MemOp.sem m =
      (spscPushBulk base src dataCapacity).runAlone MemOp.sem m := by
  have hread : ∀ (a : UInt64) (k : UInt64 → MemProg UInt64),
      Prog.runAlone MemOp.sem ((volatileRead a).bind k) m = Prog.runAlone MemOp.sem (k (m.read64 a)) m :=
    fun _ _ => rfl
  unfold spscPushBulk
  rw [Prog.bind_eq, Prog.bind_eq, hread, hread]
  rw [Prog.bind_eq, Prog.bind_eq, hread, hread]
  have hne : ¬ (dataCapacity == 0) = true := by decide
  rw [Prog.bind_eq, Prog.bind_eq, hread, hread, hcap, if_neg hne, if_neg hne]
  generalize m.read64 (base + Ipc.headOffset) = head
  generalize m.read64 (base + Ipc.tailOffset) = tail
  rw [clamp_dataCapacity]
  dsimp only
  by_cases hbad : (decide (tail > head) || decide (head - tail > dataCapacity)) = true
  · rw [if_pos hbad, if_pos hbad]
  rw [if_neg hbad, if_neg hbad]
  have havail : dataCapacity - (head - tail) ≤ dataCapacity := by
    have hle : head - tail ≤ dataCapacity := by
      simp only [Bool.or_eq_true, decide_eq_true_eq, not_or] at hbad
      exact UInt64.not_lt.mp hbad.2
    rw [UInt64.le_iff_toNat_le, UInt64.toNat_sub_of_le _ _ hle]
    exact Nat.sub_le _ _
  have hfull : ∀ l, dataCapacity ≤ l →
      (if l < dataCapacity - (head - tail) then l else dataCapacity - (head - tail)) =
        dataCapacity - (head - tail) :=
    fun l hl => if_neg (UInt64.not_lt.mpr (UInt64.le_trans havail hl))
  have hself := hfull dataCapacity (UInt64.le_refl _)
  -- the last rewriting is for the clamp of the count
  rw [hfull len hlen, hself, hself]

theorem pushBulk_le (src : Nat → UInt8) (len : UInt64) (m : Mem) :
    ((spscPushBulk base src len).runAlone MemOp.sem m).1.toNat ≤ len.toNat := by
  have hread : ∀ (a : UInt64) (k : UInt64 → MemProg UInt64),
      Prog.runAlone MemOp.sem ((volatileRead a).bind k) m = Prog.runAlone MemOp.sem (k (m.read64 a)) m :=
    fun _ _ => rfl
  have hzero : (Prog.runAlone MemOp.sem (pure (0 : UInt64)) m).1.toNat ≤ len.toNat := Nat.zero_le _
  unfold spscPushBulk
  rw [Prog.bind_eq, hread, Prog.bind_eq, hread, Prog.bind_eq, hread]
  generalize m.read64 (base + Ipc.headOffset) = head
  generalize m.read64 (base + Ipc.tailOffset) = tail
  generalize m.read64 (base + Ipc.capacityOffset) = cap
  dsimp only
  generalize (if cap > dataCapacity then dataCapacity else cap) = cap'
  have hwanted := count_le_len len (cap' - (head - tail))
  generalize (if len < cap' - (head - tail) then len else cap' - (head - tail)) = wanted at hwanted ⊢
  have hcount := (clampCount_le wanted cap').2
  generalize (if wanted > cap' then cap' else wanted) = count at hcount ⊢
  split
  · exact hzero
  split
  · exact hzero
  split
  · exact hzero
  rw [Prog.bind_eq, Prog.runAlone_bind, Prog.bind_eq, Prog.runAlone_bind]
  exact UInt64.le_iff_toNat_le.mp (UInt64.le_trans hcount hwanted)

theorem good_pushBulk_of_le {src : Nat → UInt8} {len : UInt64} (hlen : len ≤ dataCapacity) {m : Mem}
    {written written' : List UInt8} (h : Good base ⟨m, written, [], written⟩) {r : UInt64 × Mem}
    (hr : (spscPushBulk base src len).runAlone MemOp.sem m = r)
    (hwritten : written ++ (Push.bulk src len).supply r.1.toNat = written') :
    Good base ⟨r.2, written', [], written'⟩ := by
  have hwp : PushWp base (.bulk src len) ((Push.bulk src len).body base)
      ((spscProtocol base).Done (i := .producer) (Push.bulk src len)) ⟨m, written, [], written⟩
      ⟨m, written, [], written⟩ := wp_pushBody (.bulk src len) h rfl
  -- nothing is taken meanwhile, so the ring bounds what is sent
  have hguard : ∀ o (s : Ring), Good base s → s.received = [] →
      (spscProtocol base).Guard .producer (Push.bulk src len) o s := by
    intro o s hgood hrec
    show (s.sent ++ (Push.bulk src len).supply _).length < 2 ^ 64
    have hroom := hgood.room
    rw [hrec, List.length_nil] at hroom
    rw [UInt64.le_iff_toNat_le, dataCapacity_toNat] at hlen
    have hsupply : ∀ n, ((Push.bulk src len).supply n).length ≤ len.toNat := by
      intro n
      unfold Push.supply
      rw [List.length_map, List.length_range]
      exact Nat.min_le_right _ _
    rw [List.length_append]
    have := hsupply (moved (base + Ipc.headOffset) s.mem (o.sem s.mem).2)
    omega
  obtain ⟨hgood, hidle⟩ := Protocol.runCall_of_wp (J := fun s : Ring => s.received = [])
    (fun o s hs => hs) hguard hwp rfl
  obtain ⟨hmem, hreceived, haccepted⟩ := @runCall_push base (Push.bulk src len)
    ((Push.bulk src len).body base) ⟨m, written, [], written⟩ ⟨m, written, [], written⟩
  have hbody : Prog.runAlone MemOp.sem ((Push.bulk src len).body base) m = (.count r.1, r.2) := by
    show Prog.runAlone MemOp.sem ((spscPushBulk base src len).bind fun n => .ret (PushResult.count n)) m = _
    rw [Prog.runAlone_bind, hr]
    rfl
  generalize (spscMachine base).runCall .producer (Push.bulk src len) ((Push.bulk src len).body base)
    ⟨m, written, [], written⟩ ⟨m, written, [], written⟩ = s' at hgood hidle hmem hreceived haccepted
  replace hmem : s'.mem = r.2 := by
    rw [hmem, hbody]
  replace haccepted : s'.accepted = written' := by
    rw [haccepted, hbody]
    exact hwritten
  replace hidle : s'.accepted = s'.sent := hidle
  replace hreceived : s'.received = [] := hreceived
  have hs' : s' = ⟨r.2, written', [], written'⟩ := by
    obtain ⟨mem', sent', received', accepted'⟩ := s'
    obtain rfl : mem' = r.2 := hmem
    obtain rfl : accepted' = written' := haccepted
    obtain rfl : received' = [] := hreceived
    obtain rfl : accepted' = sent' := hidle
    rfl
  rw [← hs']
  exact hgood

/-- **A push of the kernel alone**, on a ring from which nothing was taken, adds the bytes that it counts. -/
theorem good_pushBulk (src : Nat → UInt8) (len : UInt64) {m : Mem} {written : List UInt8}
    (h : Good base ⟨m, written, [], written⟩) :
    let r := (spscPushBulk base src len).runAlone MemOp.sem m
    let written' := written ++ (List.range r.1.toNat).map src
    Good base ⟨r.2, written', [], written'⟩ := by
  by_cases hlen : len ≤ dataCapacity
  · apply good_pushBulk_of_le hlen h rfl
    rw [supply_bulk src (pushBulk_le src len m)]
  · have hle : dataCapacity ≤ len := UInt64.le_of_lt (UInt64.not_le.mp hlen)
    apply good_pushBulk_of_le (UInt64.le_refl dataCapacity) h (spscPushBulk_clamp h.cap hle).symm
    rw [supply_bulk src]
    rw [spscPushBulk_clamp h.cap hle]
    exact pushBulk_le src dataCapacity m

/-! ### The library's calls -/

/-- The program leaves the ring as it is and stays inside the page: it returns `r`, and at most stores an
index that is already there. -/
structure Idles {α : Type} (base : UInt64) (p : MemProg α) (m : Mem) (r : α) : Prop where
  result : (p.runAlone MemOp.sem m).1 = r
  mem : (p.runAlone MemOp.sem m).2 = m ∨
    (p.runAlone MemOp.sem m).2 = m.write64 (base + ringHeadOff) (m.read64 (base + ringHeadOff)) ∨
    (p.runAlone MemOp.sem m).2 = m.write64 (base + ringTailOff) (m.read64 (base + ringTailOff))
  inside : ∀ o ∈ p.trace MemOp.sem m, Inside base o

theorem inside_head (base v : UInt64) :
    Inside base (.load64 (base + ringHeadOff)) ∧ Inside base (.store64 (base + ringHeadOff) v) :=
  ⟨inside_header base (show 0 + 8 ≤ 4096 by decide), inside_header base (show 0 + 8 ≤ 4096 by decide)⟩

theorem inside_tail (base v : UInt64) :
    Inside base (.load64 (base + ringTailOff)) ∧ Inside base (.store64 (base + ringTailOff) v) :=
  ⟨inside_header base (show 8 + 8 ≤ 4096 by decide), inside_header base (show 8 + 8 ≤ 4096 by decide)⟩

theorem inside_capacity (base : UInt64) : Inside base (.load64 (base + ringCapacityOff)) :=
  inside_header base (show 16 + 8 ≤ 4096 by decide)

theorem idles_pure {α : Type} (r : α) (m : Mem) : Idles base (pure r) m r :=
  ⟨rfl, .inl rfl, fun _ ho => absurd ho List.not_mem_nil⟩

theorem Idles.load {α : Type} {a : UInt64} {k : UInt64 → MemProg α} {m : Mem} {r : α}
    (ha : Inside base (.load64 a)) (h : Idles base (k (m.read64 a)) m r) :
    Idles base ((volRead64 a).bind k) m r := by
  refine ⟨h.result, h.mem, ?_⟩
  intro o ho
  rcases List.mem_cons.mp ho with rfl | ho
  · exact ha
  · exact h.inside o ho

theorem Idles.map {α β : Type} {p : MemProg α} {m : Mem} {r : α} (f : α → β) (h : Idles base p m r) :
    Idles base (p.bind fun a => .ret (f a)) m (f r) := by
  constructor
  · rw [Prog.runAlone_bind, ← h.result]
    rfl
  · rw [Prog.runAlone_bind]
    exact h.mem
  · rw [Prog.trace_bind]
    intro o ho
    rcases List.mem_append.mp ho with ho | ho
    · exact h.inside o ho
    · exact absurd ho List.not_mem_nil

theorem Idles.available {α : Type} {k : UInt64 → MemProg α} {m : Mem} {r : α}
    (h : Idles base (k (available base m)) m r) : Idles base ((spscAvailable base).bind k) m r :=
  Idles.load (inside_head base 0).1 (Idles.load (inside_tail base 0).1 h)

theorem Idles.freeSpace {α : Type} {k : UInt64 → MemProg α} {m : Mem} {r : α}
    (h : Idles base (k (freeSpace base m)) m r) : Idles base ((spscFreeSpace base).bind k) m r :=
  Idles.load (inside_capacity base) (Idles.load (inside_head base 0).1 (Idles.load (inside_tail base 0).1 h))

theorem first_zero (seg1Len : UInt64) : (if (0 : UInt64) < seg1Len then 0 else seg1Len) = 0 := by
  split
  · rfl
  · next h => exact UInt64.le_zero_iff.mp (UInt64.not_lt.mp h)

theorem idles_spscPush {src : Nat → UInt8} {len : UInt64} {m : Mem}
    (h : Socket.freeSpace base m = 0 ∨ len = 0 ∧ m.read64 (base + ringCapacityOff) ≠ 0) :
    Idles base (spscPush base src len) m (some 0) := by
  unfold spscPush
  apply Idles.freeSpace
  by_cases hfull : (Socket.freeSpace base m == 0) = true
  · rw [if_pos hfull]
    exact idles_pure _ m
  rw [if_neg hfull]
  obtain ⟨rfl, hcap⟩ : len = 0 ∧ m.read64 (base + ringCapacityOff) ≠ 0 := by
    rcases h with h | h
    · rw [h] at hfull
      exact absurd rfl hfull
    · exact h
  have hpush : (if 0 < Socket.freeSpace base m then 0 else Socket.freeSpace base m) = 0 := first_zero _
  rw [hpush]
  apply Idles.load (inside_capacity base)
  apply Idles.load (inside_head base 0).1
  have hne : ¬ (m.read64 (base + ringCapacityOff) == 0) = true := by simpa using hcap
  dsimp only
  rw [if_neg hne, first_zero, if_neg (by decide)]
  refine ⟨rfl, .inr (.inl ?_), ?_⟩
  · show m.write64 (base + ringHeadOff) (m.read64 (base + ringHeadOff) + 0) = _
    rw [UInt64.add_zero]
  · intro o ho
    obtain rfl := List.mem_singleton.mp ho
    exact (inside_head base _).2

theorem idles_spscPop {len : UInt64} {m : Mem}
    (h : Socket.available base m = 0 ∨ len = 0 ∧ m.read64 (base + ringCapacityOff) ≠ 0) :
    Idles base (spscPop base len) m (some (0, [])) := by
  unfold spscPop
  apply Idles.available
  by_cases hempty : (Socket.available base m == 0) = true
  · rw [if_pos hempty]
    exact idles_pure _ m
  rw [if_neg hempty]
  obtain ⟨rfl, hcap⟩ : len = 0 ∧ m.read64 (base + ringCapacityOff) ≠ 0 := by
    rcases h with h | h
    · rw [h] at hempty
      exact absurd rfl hempty
    · exact h
  have hpop : (if Socket.available base m < 0 then Socket.available base m else 0) = 0 :=
    if_neg (UInt64.not_lt_zero)
  rw [hpop]
  apply Idles.load (inside_capacity base)
  apply Idles.load (inside_tail base 0).1
  have hne : ¬ (m.read64 (base + ringCapacityOff) == 0) = true := by simpa using hcap
  have hno : ¬ (0 : UInt64) > 0 := by decide
  dsimp only
  rw [if_neg hne, first_zero]
  simp only [if_neg hno]
  refine ⟨rfl, .inr (.inr ?_), ?_⟩
  · show m.write64 (base + ringTailOff) (m.read64 (base + ringTailOff) + 0) = _
    rw [UInt64.add_zero]
  · intro o ho
    obtain rfl := List.mem_singleton.mp ho
    exact (inside_tail base _).2

theorem spscPush_divides {src : Nat → UInt8} {len : UInt64} {m : Mem} (hfree : Socket.freeSpace base m ≠ 0)
    (hcap : m.read64 (base + ringCapacityOff) = 0) :
    ((spscPush base src len).runAlone MemOp.sem m).1 = none := by
  have hrun : (spscFreeSpace base).runAlone MemOp.sem m = (Socket.freeSpace base m, m) := rfl
  have hread : ∀ (a : UInt64) (k : UInt64 → MemProg (Option UInt64)),
      Prog.runAlone MemOp.sem ((volRead64 a).bind k) m = Prog.runAlone MemOp.sem (k (m.read64 a)) m :=
    fun _ _ => rfl
  have hne : ¬ (Socket.freeSpace base m == 0) = true := by simpa using hfree
  unfold spscPush
  rw [Prog.bind_eq, Prog.runAlone_bind, hrun]
  dsimp only
  have hzero : ((0 : UInt64) == 0) = true := rfl
  rw [if_neg hne, Prog.bind_eq, hread, Prog.bind_eq, hread, hcap, if_pos hzero]
  rfl

theorem spscPop_divides {len : UInt64} {m : Mem} (havail : Socket.available base m ≠ 0)
    (hcap : m.read64 (base + ringCapacityOff) = 0) :
    ((spscPop base len).runAlone MemOp.sem m).1 = none := by
  have hrun : (spscAvailable base).runAlone MemOp.sem m = (Socket.available base m, m) := rfl
  have hread : ∀ (a : UInt64) (k : UInt64 → MemProg (Option (UInt64 × List UInt8))),
      Prog.runAlone MemOp.sem ((volRead64 a).bind k) m = Prog.runAlone MemOp.sem (k (m.read64 a)) m :=
    fun _ _ => rfl
  have hne : ¬ (Socket.available base m == 0) = true := by simpa using havail
  unfold spscPop
  rw [Prog.bind_eq, Prog.runAlone_bind, hrun]
  dsimp only
  have hzero : ((0 : UInt64) == 0) = true := rfl
  rw [if_neg hne, Prog.bind_eq, hread, Prog.bind_eq, hread, hcap, if_pos hzero]
  rfl

/-! ### The ring in order -/

/-- Nothing was taken from the ring, and it holds what was written. -/
structure Sound (base : UInt64) (s : Duct) : Prop where
  good : Good base ⟨s.mem, s.written, [], s.written⟩
  received : s.received = []
  divided : s.divided = false
  inside : ∀ o ∈ s.touched, Inside base o

theorem Sound.law {s : Duct} (h : Sound base s) : DuctLaw base s := by
  refine ⟨?_, h.divided, h.inside⟩
  rw [h.received]
  exact h.good.ringBytes

theorem sound_start {page : Mem} (h : Good base ⟨page, [], [], []⟩) : Sound base ⟨page, [], [], false, []⟩ :=
  ⟨h, rfl, rfl, fun _ ho => absurd ho List.not_mem_nil⟩

theorem exists_page (base : UInt64) (m : Mem) :
    ∃ page, Duct.init base m = ⟨page, [], [], false, []⟩ ∧ Good base ⟨page, [], [], []⟩ ∧
      page.read64 (base + ringCapacityOff) = m.read64 (base + ringCapacityOff) := by
  refine ⟨(initRing base m).mem, ?_, ?_, ?_⟩
  · unfold Duct.init
    rfl
  · have hgood := good_initRing base m
    have hring : initRing base m = ⟨(initRing base m).mem, [], [], []⟩ := by
      rw [initRing]
    rwa [hring] at hgood
  · have hmem : (initRing base m).mem = ((spscInit base).runAlone MemOp.sem m).2 := by
      rw [initRing]
    rw [hmem, show ringCapacityOff = UInt64.ofNat 16 from rfl, read64_spscInit base (by decide)]
    unfold initHeader
    refine (Mem.read64_write64_offset (i := 128) (j := 16) (by decide) (by decide) (by decide)).trans ?_
    refine (Mem.read64_write64_offset (i := 64) (j := 16) (by decide) (by decide) (by decide)).trans ?_
    refine (Mem.read64_write64_offset (i := 8) (j := 16) (by decide) (by decide) (by decide)).trans ?_
    exact Mem.read64_write64_offset (i := 0) (j := 16) (by decide) (by decide) (by decide)

theorem good_store_head {m : Mem} {sent : List UInt8} (h : Good base ⟨m, sent, [], sent⟩) :
    Good base ⟨m.write64 (base + ringHeadOff) (m.read64 (base + ringHeadOff)), sent, [], sent⟩ := by
  refine ⟨?_, ?_, ?_, h.received, h.accepted, h.room, ?_⟩
  · exact (cap_write_head base m _).trans h.cap
  · exact (congrArg UInt64.toNat (Mem.read64_write64_self m (base + ringHeadOff) _)).trans h.head
  · exact (congrArg UInt64.toNat (tail_write_head base m _)).trans h.tail
  · intro i hlo hhi
    exact (data_write_head base m _ i).trans (h.data i hlo hhi)

theorem good_store_tail {m : Mem} {sent : List UInt8} (h : Good base ⟨m, sent, [], sent⟩) :
    Good base ⟨m.write64 (base + ringTailOff) (m.read64 (base + ringTailOff)), sent, [], sent⟩ := by
  refine ⟨?_, ?_, ?_, h.received, h.accepted, h.room, ?_⟩
  · exact (Mem.read64_write64_self m (base + ringTailOff) _).trans h.cap
  · have hsame : (m.write64 (base + ringTailOff) (m.read64 (base + ringTailOff))).read64
      (base + Ipc.headOffset) =
        m.read64 (base + Ipc.headOffset) :=
      Mem.read64_write64_offset (i := 8) (j := 0) (by decide) (by decide) (by decide)
    exact (congrArg UInt64.toNat hsame).trans h.head
  · have hsame : (m.write64 (base + ringTailOff) (m.read64 (base + ringTailOff))).read64
      (base + Ipc.tailOffset) =
        m.read64 (base + Ipc.tailOffset) :=
      Mem.read64_write64_offset (i := 8) (j := 64) (by decide) (by decide) (by decide)
    exact (congrArg UInt64.toNat hsame).trans h.tail
  · intro i hlo hhi
    have hsame : m.write64 (base + ringTailOff) (m.read64 (base + ringTailOff)) (dataAddr base i) =
        m (dataAddr base i) :=
      Mem.write64_offset (i := 8) (by decide) (by omega) (by omega)
    exact hsame.trans (h.data i hlo hhi)

section Exec

variable {C : Type} {program : C → MemProg (Option Transfer)} {s : Duct} {c : C}

theorem Sound.idles (h : Sound base s) (hidles : Idles base (program c) s.mem (some ⟨[], []⟩)) :
    Sound base (exec program s c) ∧ (exec program s c).written = s.written ∧
      (exec program s c).mem.read64 (base + ringCapacityOff) = s.mem.read64 (base + ringCapacityOff) := by
  obtain ⟨hres, hmem, hinside⟩ := hidles
  have hwritten : (exec program s c).written = s.written := by
    show s.written ++ _ = s.written
    rw [hres]
    exact List.append_nil _
  refine ⟨⟨?_, ?_, ?_, ?_⟩, hwritten, ?_⟩
  · rw [hwritten]
    show Good base ⟨((program c).runAlone MemOp.sem s.mem).2, s.written, [], s.written⟩
    rcases hmem with hmem | hmem | hmem
    · rw [hmem]
      exact h.good
    · rw [hmem]
      exact good_store_head h.good
    · rw [hmem]
      exact good_store_tail h.good
  · show s.received ++ _ = []
    rw [hres, h.received]
    rfl
  · show (s.divided || _) = false
    rw [hres, h.divided]
    rfl
  · intro o ho
    rcases List.mem_append.mp ho with ho | ho
    · exact h.inside o ho
    · exact hinside o ho
  · show ((program c).runAlone MemOp.sem s.mem).2.read64 _ = _
    rcases hmem with hmem | hmem | hmem
    · rw [hmem]
    · rw [hmem]
      exact Mem.read64_write64_offset (i := 0) (j := 16) (by decide) (by decide) (by decide)
    · rw [hmem]
      exact Mem.read64_write64_offset (i := 8) (j := 16) (by decide) (by decide) (by decide)

theorem divided_run {cs : List C} (h : s.divided = true) : (runOps (exec program) s cs).divided = true := by
  apply runOps_invariant (I := fun s : Duct => s.divided = true) _ h
  intro s c hs
  show (s.divided || _) = true
  rw [hs]
  rfl

/-- Where each call that is not harmless divides by zero, a run without a division has harmless calls only. -/
theorem admissible_of_not_divided {I : Duct → Prop} {harmless : Duct → C → Prop}
    (hstep : ∀ s c, I s → harmless s c → I (exec program s c))
    (hdivides : ∀ s c, I s → ¬ harmless s c → (exec program s c).divided = true) {cs : List C}
        {s : Duct} (h : I s)
    (hrun : (runOps (exec program) s cs).divided = false) : Admissible (exec program) harmless s cs := by
  induction cs generalizing s with
  | nil => trivial
  | cons c cs ih =>
    have hharmless : harmless s c := by
      by_contra hbad
      rw [runOps_cons, divided_run (hdivides s c h hbad)] at hrun
      exact Bool.noConfusion hrun
    exact ⟨hharmless, ih (hstep s c h hharmless) hrun⟩

end Exec

/-! ### The TX ring -/

theorem idles_spscPopBulk {len : UInt64} {m : Mem} (h : Good base ⟨m, [], [], []⟩) :
    Idles base (spscPopBulk base len) m (0, []) := by
  have hhead : m.read64 (base + Ipc.headOffset) = 0 := UInt64.toNat_inj.mp h.head
  have htail : m.read64 (base + Ipc.tailOffset) = 0 := UInt64.toNat_inj.mp h.tail
  have hcap : m.read64 (base + Ipc.capacityOffset) = dataCapacity := h.cap
  unfold spscPopBulk
  apply Idles.load (inside_of_inPage (inHeader_head base))
  apply Idles.load (inside_of_inPage (inHeader_tail base))
  apply Idles.load (inside_of_inPage (inHeader_capacity base))
  rw [hhead, htail, hcap, if_neg (by decide), clamp_dataCapacity]
  dsimp only
  rw [if_neg (by decide)]
  have hcount : (if len < 0 - 0 then len else 0 - 0) = 0 := if_neg UInt64.not_lt_zero
  have hzero : ((0 : UInt64) == 0) = true := rfl
  rw [hcount, if_pos hzero]
  exact idles_pure _ m

theorem tx_step {s : Duct} {c : TxCall} (h : Sound base s) (hempty : s.written = [])
    (hharmless : c.Harmless base s) :
    Sound base (exec (TxCall.program base) s c) ∧ (exec (TxCall.program base) s c).written = [] ∧
      (exec (TxCall.program base) s c).mem.read64 (base + ringCapacityOff) =
        s.mem.read64 (base + ringCapacityOff) := by
  have hidles : Idles base (TxCall.program base c) s.mem (some ⟨[], []⟩) := by
    cases c with
    | write sock buffer len =>
      have hwrite : Idles base (Socket.write { sock with txRing := base } buffer len) s.mem (some 0) := by
        unfold Socket.write
        by_cases hstate : sock.state ≠ stateConnected
        · rw [if_pos hstate]
          exact idles_pure _ s.mem
        · rw [if_neg hstate]
          exact idles_spscPush (hharmless.resolve_left hstate)
      exact hwrite.map fun r => r.map fun n => Transfer.mk ((List.range n.toNat).map buffer) []
    | popBulk len =>
      have hgood := h.good
      rw [hempty] at hgood
      exact (idles_spscPopBulk hgood).map fun r => some (Transfer.mk [] r.2)
  obtain ⟨hsound, hwritten, hword⟩ := h.idles hidles
  exact ⟨hsound, hwritten.trans hempty, hword⟩

theorem tx_divides {s : Duct} {c : TxCall} (hword : s.mem.read64 (base + ringCapacityOff) = 0)
    (hbad : ¬ c.Harmless base s) : (exec (TxCall.program base) s c).divided = true := by
  cases c with
  | popBulk len => exact absurd trivial hbad
  | write sock buffer len =>
    rw [TxCall.Harmless, not_or, not_or, not_not] at hbad
    obtain ⟨hstate, hfree, -⟩ := hbad
    have hnone : ((TxCall.program base (.write sock buffer len)).runAlone MemOp.sem s.mem).1 = none := by
      show (Prog.runAlone MemOp.sem ((Socket.write { sock with txRing := base } buffer len).bind fun r =>
        .ret (r.map fun n => Transfer.mk ((List.range n.toNat).map buffer) [])) s.mem).1 = none
      rw [Prog.runAlone_bind]
      unfold Socket.write
      rw [if_neg (not_not.mpr hstate), spscPush_divides hfree hword]
      rfl
    show (s.divided || _) = true
    rw [hnone]
    exact Bool.or_true _

/-! ### The RX ring -/

theorem Sound.pushBulk {s : Duct} (h : Sound base s) (src : Nat → UInt8) (len : UInt64) :
    Sound base (exec (RxCall.program base) s (.pushBulk src len)) ∧
      (exec (RxCall.program base) s (.pushBulk src len)).mem.read64 (base + ringCapacityOff) =
        s.mem.read64 (base + ringCapacityOff) := by
  have hwithin := within_spscPushBulk base src len
  have hgood := good_pushBulk src len h.good
  have hword := read64_of_within hwithin s.mem
  obtain ⟨hops, -, -⟩ := hwithin.trace MemOp.sem s.mem
  obtain ⟨r, hr⟩ : ∃ r, (spscPushBulk base src len).runAlone MemOp.sem s.mem = r := ⟨_, rfl⟩
  dsimp only at hgood
  rw [hr] at hgood hword
  have hrun : (RxCall.program base (.pushBulk src len)).runAlone MemOp.sem s.mem =
      (some ⟨(List.range r.1.toNat).map src, []⟩, r.2) := by
    show Prog.runAlone MemOp.sem ((spscPushBulk base src len).bind fun n =>
      .ret (some (Transfer.mk ((List.range n.toNat).map src) []))) s.mem = _
    rw [Prog.runAlone_bind, hr]
    rfl
  have htrace : (RxCall.program base (.pushBulk src len)).trace MemOp.sem s.mem =
      (spscPushBulk base src len).trace MemOp.sem s.mem := by
    show Prog.trace MemOp.sem ((spscPushBulk base src len).bind fun n =>
      .ret (some (Transfer.mk ((List.range n.toNat).map src) []))) s.mem = _
    rw [Prog.trace_bind]
    exact List.append_nil _
  unfold exec
  rw [hrun, htrace]
  refine ⟨⟨hgood, ?_, ?_, ?_⟩, hword⟩
  · show s.received ++ [] = []
    rw [h.received]
    rfl
  · show (s.divided || false) = false
    rw [h.divided]
    rfl
  · intro o ho
    rcases List.mem_append.mp ho with ho | ho
    · exact h.inside o ho
    · exact inside_of_inPage (hops o ho)

theorem rx_step {s : Duct} {c : RxCall} (h : Sound base s) (hharmless : c.Harmless base s) :
    Sound base (exec (RxCall.program base) s c) ∧
      (exec (RxCall.program base) s c).mem.read64 (base + ringCapacityOff) =
        s.mem.read64 (base + ringCapacityOff) := by
  cases c with
  | pushBulk src len => exact h.pushBulk src len
  | read sock maxLen =>
    have hread : Idles base (Socket.read { sock with rxRing := base } maxLen) s.mem (some (0, [])) := by
      unfold Socket.read
      by_cases hstate : sock.state ≠ stateConnected
      · rw [if_pos hstate]
        exact idles_pure _ s.mem
      · rw [if_neg hstate]
        exact idles_spscPop (hharmless.resolve_left hstate)
    obtain ⟨hsound, -, hword⟩ :=
      @Sound.idles base RxCall (RxCall.program base) s (.read sock maxLen) h
        (hread.map fun r : Option (UInt64 × List UInt8) => r.map fun r : UInt64 × List UInt8 =>
            Transfer.mk [] r.2)
    exact ⟨hsound, hword⟩

theorem rx_divides {s : Duct} {c : RxCall} (hword : s.mem.read64 (base + ringCapacityOff) = 0)
    (hbad : ¬ c.Harmless base s) : (exec (RxCall.program base) s c).divided = true := by
  cases c with
  | pushBulk src len => exact absurd trivial hbad
  | read sock maxLen =>
    rw [RxCall.Harmless, not_or, not_or, not_not] at hbad
    obtain ⟨hstate, havail, -⟩ := hbad
    have hnone : ((RxCall.program base (.read sock maxLen)).runAlone MemOp.sem s.mem).1 = none := by
      show (Prog.runAlone MemOp.sem ((Socket.read { sock with rxRing := base } maxLen).bind fun r =>
        .ret (r.map fun r => Transfer.mk [] r.2)) s.mem).1 = none
      rw [Prog.runAlone_bind]
      unfold Socket.read
      rw [if_neg (not_not.mpr hstate), spscPop_divides havail hword]
      rfl
    show (s.divided || _) = true
    rw [hnone]
    exact Bool.or_true _

/-! ### Runs -/

/-- **Harmless calls keep the ring in order**, in both directions. -/
theorem sound_run {page : Mem} (h : Good base ⟨page, [], [], []⟩) :
    (∀ calls, Admissible (exec (TxCall.program base)) (fun s c => c.Harmless base s)
      ⟨page, [], [], false, []⟩ calls →
      Sound base (runOps (exec (TxCall.program base)) ⟨page, [], [], false, []⟩ calls)) ∧
    ∀ calls, Admissible (exec (RxCall.program base))
        (fun s c => c.Harmless base s) ⟨page, [], [], false, []⟩ calls →
      Sound base (runOps (exec (RxCall.program base)) ⟨page, [], [], false, []⟩ calls) := by
  constructor
  · intro calls hcalls
    have hrun : Sound base (runOps (exec (TxCall.program base)) ⟨page, [], [], false, []⟩ calls) ∧
        (runOps (exec (TxCall.program base)) ⟨page, [], [], false, []⟩ calls).written = [] :=
      runOps_induction (I := fun s => Sound base s ∧ s.written = [])
        (fun s c hs hc => ⟨(tx_step hs.1 hs.2 hc).1, (tx_step hs.1 hs.2 hc).2.1⟩) ⟨sound_start h, rfl⟩ hcalls
    exact hrun.1
  · intro calls hcalls
    exact runOps_induction (I := Sound base) (fun s c hs hc => (rx_step hs hc).1) (sound_start h) hcalls

/-- **The socket library agrees with the kernel's ring when it comes to copy no byte.**  For every page after
`spsc_init` and every sequence of calls of the two sides, the ring delivers what is written if all calls are
harmless; and on a page whose word at offset 16 is 0 only if they are, for any other call divides by zero. -/
theorem socketLaw_run (base : UInt64) (m : Mem) :
    (∀ calls,
      let harmless := Admissible (exec (TxCall.program base)) (fun s c => c.Harmless base s)
        (Duct.init base m) calls
      let law := DuctLaw base (runOps (exec (TxCall.program base)) (Duct.init base m) calls)
      (harmless → law) ∧ (m.read64 (base + ringCapacityOff) = 0 → law → harmless)) ∧
    ∀ calls,
      let harmless := Admissible (exec (RxCall.program base)) (fun s c => c.Harmless base s)
        (Duct.init base m) calls
      let law := DuctLaw base (runOps (exec (RxCall.program base)) (Duct.init base m) calls)
      (harmless → law) ∧ (m.read64 (base + ringCapacityOff) = 0 → law → harmless) := by
  obtain ⟨page, hinit, hgood, hpage⟩ := exists_page base m
  rw [hinit]
  obtain ⟨htx, hrx⟩ := sound_run hgood
  constructor
  · intro calls harmless law
    refine ⟨fun h => (htx calls h).law, ?_⟩
    intro hzero hlaw
    apply admissible_of_not_divided
      (I := fun s => Sound base s ∧ s.written = [] ∧ s.mem.read64 (base + ringCapacityOff) = 0)
      _ _ _ hlaw.divided
    · rintro s c ⟨hsound, hempty, hword⟩ hc
      obtain ⟨hsound', hempty', hword'⟩ := tx_step hsound hempty hc
      exact ⟨hsound', hempty', hword'.trans hword⟩
    · rintro s c ⟨-, -, hword⟩ hc
      exact tx_divides hword hc
    · exact ⟨sound_start hgood, rfl, hpage.trans hzero⟩
  · intro calls harmless law
    refine ⟨fun h => (hrx calls h).law, ?_⟩
    intro hzero hlaw
    apply admissible_of_not_divided
      (I := fun s => Sound base s ∧ s.mem.read64 (base + ringCapacityOff) = 0) _ _ _ hlaw.divided
    · rintro s c ⟨hsound, hword⟩ hc
      obtain ⟨hsound', hword'⟩ := rx_step hsound hc
      exact ⟨hsound', hword'.trans hword⟩
    · rintro s c ⟨-, hword⟩ hc
      exact rx_divides hword hc
    · exact ⟨sound_start hgood, hpage.trans hzero⟩

/-- A write of one byte on a connected socket, whose ring is a page of zeros after `spsc_init`. -/
theorem not_socketLaw_write : ¬ DuctLaw 0x1000
    (runOps (exec (TxCall.program 0x1000)) (Duct.init 0x1000 fun _ => 0)
    [.write ⟨0, 0x1000, stateConnected⟩ (fun _ => 65) 1]) := by
  obtain ⟨page, hinit, hgood, hpage⟩ := exists_page 0x1000 fun _ => 0
  rw [hinit]
  intro hlaw
  have hhead : page.read64 (0x1000 + ringHeadOff) = 0 := UInt64.toNat_inj.mp hgood.head
  have htail : page.read64 (0x1000 + ringTailOff) = dataCapacity := hgood.cap
  have hword : page.read64 (0x1000 + ringCapacityOff) = 0 := hpage.trans (Mem.read64_zero _)
  have hbad : ¬ (TxCall.write ⟨0, 0x1000, stateConnected⟩ (fun _ => 65) 1).Harmless 0x1000
      ⟨page, [], [], false, []⟩ := by
    unfold TxCall.Harmless freeSpace
    rw [hhead, htail, hword]
    decide
  exact Bool.noConfusion ((tx_divides hword hbad).symm.trans hlaw.divided)

end Keuos.Ipc.Socket
