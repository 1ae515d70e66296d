import Keuos.Scheduler.ChaseLev

/-!
# The work-stealing deques

A deque that `work_deque_init` has set up behaves as the list of its tasks (`workDeque_refines`): the two
indices only grow apart by a push, and the slot of an index is found again as long as at most 1024
indices lie between them.  The scan of the idle loop is passed the number of the calling core where it
expects the number of cores, so it looks at the lower cores only (`idleSteal_iff`).
-/

namespace Keuos.ChaseLev

/-! ### Indices -/

theorem toInt_sub_of {a b : Int64} (hlo : -2 ^ 63 ≤ a.toInt - b.toInt)
    (hhi : a.toInt - b.toInt < 2 ^ 63) : (a - b).toInt = a.toInt - b.toInt := by
  rw [Int64.toInt_sub]
  exact Int.bmod_eq_of_le (by omega) (by omega)

theorem toInt_add_of {a b : Int64} (hlo : -2 ^ 63 ≤ a.toInt + b.toInt)
    (hhi : a.toInt + b.toInt < 2 ^ 63) : (a + b).toInt = a.toInt + b.toInt := by
  rw [Int64.toInt_add]
  exact Int.bmod_eq_of_le (by omega) (by omega)

theorem toNat_toUInt64 {a : Int64} (h : 0 ≤ a.toInt) : a.toUInt64.toNat = a.toInt.toNat := by
  have hcond : a.toInt = (a.toUInt64.toNat : Int) := by
    change a.toBitVec.toInt = (a.toBitVec.toNat : Int)
    change 0 ≤ a.toBitVec.toInt at h
    have hlt := a.toBitVec.isLt
    rw [BitVec.toInt_eq_toNat_cond] at h ⊢
    split at h
    · rename_i hsmall
      rw [if_pos hsmall]
    · omega
  omega

/-- The word of index `i`, counted as a natural number. -/
def cell (buffer : UInt64) (i : Nat) : UInt64 :=
  buffer + UInt64.ofNat (i % 1024)

theorem toNat_ofNat_mod (i : Nat) : (UInt64.ofNat (i % 1024)).toNat = i % 1024 :=
  UInt64.toNat_ofNat_of_lt' (Nat.lt_of_lt_of_le (Nat.mod_lt i (by decide)) (by decide))

theorem cell_ne {buffer : UInt64} {i j : Nat} (h : i % 1024 ≠ j % 1024) :
    cell buffer i ≠ cell buffer j := by
  intro heq
  apply h
  have hcells := UInt64.toNat_inj.mpr (add_left_cancel heq)
  rwa [toNat_ofNat_mod, toNat_ofNat_mod] at hcells

theorem slot_eq {q : WorkDeque} {i : Int64} (hmask : q.mask = 1023) (hi : 0 ≤ i.toInt) :
    q.slot i = cell q.buffer i.toInt.toNat := by
  unfold WorkDeque.slot cell
  rw [hmask]
  congr 1
  apply UInt64.toNat_inj.mp
  have hand : (i &&& 1023).toUInt64 = i.toUInt64 &&& 1023 := rfl
  rw [hand, UInt64.toNat_and, toNat_toUInt64 hi, toNat_ofNat_mod]
  exact Nat.and_two_pow_sub_one_eq_mod _ 10

/-! ### One deque -/

/-- The deque holds the tasks `l`, and at most `n` more calls follow. -/
structure Holds (n : Nat) (s : DequeBuffers × WorkDeque) (l : List UInt64) : Prop where
  mask : s.2.mask = 1023
  top : 0 ≤ s.2.top.toInt
  bottom : s.2.bottom.toInt = s.2.top.toInt + l.length
  small : s.2.bottom.toInt + n < 2 ^ 62
  fits : l.length ≤ 1024
  task : ∀ k < l.length, l[k]? = some (s.1 (cell s.2.buffer (s.2.top.toInt.toNat + k)))

/-- What the result of a call stands for: null is no task. -/
def answer : DequeResult (Option UInt64) → DequeResult UInt64 :=
  DequeResult.map (·.getD 0)

theorem Holds.push {n : Nat} {s : DequeBuffers × WorkDeque} {l : List UInt64} (h : Holds (n + 1) s l)
    (task : UInt64) (hfits : (l ++ [task]).length ≤ 1024) :
    Holds n (ChaseLev.push s.1 s.2 task) (l ++ [task]) := by
  obtain ⟨hmask, htop, hbottom, hsmall, -, htask⟩ := h
  rw [List.length_append, List.length_singleton] at hfits
  have hone : (1 : Int64).toInt = 1 := rfl
  have hnext : (s.2.bottom + 1).toInt = s.2.bottom.toInt + 1 := toInt_add_of (by omega) (by omega)
  have hslot : s.2.slot s.2.bottom = cell s.2.buffer (s.2.top.toInt.toNat + l.length) := by
    rw [slot_eq hmask (by omega)]
    congr 1
    omega
  refine ⟨hmask, htop, ?_, ?_, by simpa using hfits, ?_⟩
  · simp only [ChaseLev.push, hnext, List.length_append, List.length_singleton]
    omega
  · simp only [ChaseLev.push, hnext]
    omega
  · intro k hk
    simp only [ChaseLev.push, hslot]
    rw [List.length_append, List.length_singleton] at hk
    rcases Nat.lt_succ_iff_lt_or_eq.mp hk with hlt | rfl
    · -- an older task: its index differs from the new one by less than the capacity
      rw [List.getElem?_append_left hlt, Function.update_of_ne (cell_ne (by omega))]
      exact htask k hlt
    · rw [Function.update_self, List.getElem?_append_right (Nat.le_refl _), Nat.sub_self]
      rfl

theorem Holds.pop {n : Nat} {s : DequeBuffers × WorkDeque} {l : List UInt64} (h : Holds (n + 1) s l) :
    (ChaseLev.pop s.1 s.2).1 = l.getLast?.getD 0 ∧
      Holds n (s.1, (ChaseLev.pop s.1 s.2).2) l.dropLast := by
  obtain ⟨hmask, htop, hbottom, hsmall, hfits, htask⟩ := h
  have hone : (1 : Int64).toInt = 1 := rfl
  have hzero : (0 : Int64).toInt = 0 := rfl
  have hdec : (s.2.bottom - 1).toInt = s.2.bottom.toInt - 1 := toInt_sub_of (by omega) (by omega)
  have hsize : (s.2.bottom - 1 - s.2.top).toInt = (l.length : Int) - 1 := by
    rw [toInt_sub_of (by omega) (by omega)]
    omega
  unfold ChaseLev.pop
  dsimp only
  by_cases hempty : l = []
  · -- nothing to pop: `bottom` is set back to `top`
    subst hempty
    simp only [List.length_nil] at hsize hbottom
    rw [if_pos (Int64.lt_iff_toInt_lt.mpr (by omega))]
    refine ⟨rfl, hmask, htop, ?_, ?_, Nat.zero_le _, fun k hk => absurd hk (Nat.not_lt_zero k)⟩
    · simp
    · dsimp only
      omega
  · have hpos : 0 < l.length := List.length_pos_iff.mpr hempty
    -- the slot below `bottom` holds the last task
    have hlast : l.getLast? = some (s.1 (cell s.2.buffer (s.2.top.toInt.toNat + (l.length - 1)))) := by
      rw [List.getLast?_eq_getElem?]
      exact htask _ (by omega)
    have hslot : s.2.slot (s.2.bottom - 1) = cell s.2.buffer (s.2.top.toInt.toNat + (l.length - 1)) := by
      rw [slot_eq hmask (by omega)]
      congr 1
      omega
    rw [if_neg (by rw [Int64.lt_iff_toInt_lt]; omega), hslot, hlast, Option.getD_some]
    by_cases hmany : 1 < l.length
    · rw [if_pos (Int64.lt_iff_toInt_lt.mpr (by omega))]
      refine ⟨rfl, hmask, htop, ?_, ?_, ?_, ?_⟩
      · simp only [List.length_dropLast, hdec]
        omega
      · dsimp only
        omega
      · rw [List.length_dropLast]
        omega
      · intro k hk
        rw [List.length_dropLast] at hk
        rw [List.getElem?_dropLast, if_pos hk]
        exact htask k (by omega)
    · -- the last task: both indices move past it
      rw [if_neg (by rw [gt_iff_lt, Int64.lt_iff_toInt_lt]; omega)]
      have hnext : (s.2.top + 1).toInt = s.2.top.toInt + 1 := toInt_add_of (by omega) (by omega)
      have hnil : l.dropLast = [] := List.length_eq_zero_iff.mp (by rw [List.length_dropLast]; omega)
      rw [hnil]
      refine ⟨rfl, hmask, ?_, ?_, ?_, Nat.zero_le _, fun k hk => absurd hk (Nat.not_lt_zero k)⟩
      · dsimp only
        omega
      · simp
      · dsimp only
        omega

theorem Holds.steal {n : Nat} {s : DequeBuffers × WorkDeque} {l : List UInt64} (h : Holds (n + 1) s l) :
    (ChaseLev.steal s.1 s.2).1 = l.head?.getD 0 ∧
      Holds n (s.1, (ChaseLev.steal s.1 s.2).2) l.tail := by
  obtain ⟨hmask, htop, hbottom, hsmall, hfits, htask⟩ := h
  have hone : (1 : Int64).toInt = 1 := rfl
  have hzero : (0 : Int64).toInt = 0 := rfl
  have hsize : (s.2.bottom - s.2.top).toInt = (l.length : Int) := by
    rw [toInt_sub_of (by omega) (by omega)]
    omega
  unfold ChaseLev.steal
  dsimp only
  cases l with
  | nil =>
    simp only [List.length_nil] at hsize hbottom
    rw [if_pos (Int64.le_iff_toInt_le.mpr (by omega))]
    exact ⟨rfl, hmask, htop, hbottom, by dsimp only; omega, hfits, htask⟩
  | cons a l =>
    simp only [List.length_cons] at hsize hbottom hfits htask
    have hnext : (s.2.top + 1).toInt = s.2.top.toInt + 1 := toInt_add_of (by omega) (by omega)
    have hfirst := htask 0 (by omega)
    rw [List.getElem?_cons_zero, Nat.add_zero, Option.some_inj] at hfirst
    rw [if_neg (by rw [Int64.le_iff_toInt_le]; omega), slot_eq hmask htop]
    refine ⟨hfirst.symm, hmask, ?_, ?_, ?_, ?_, ?_⟩
    · dsimp only
      omega
    · simp only [List.tail_cons, hnext]
      omega
    · dsimp only
      omega
    · simp only [List.tail_cons]
      omega
    · intro k hk
      rw [List.tail_cons] at hk
      have hshift := htask (k + 1) (Nat.succ_lt_succ hk)
      rw [List.getElem?_cons_succ] at hshift
      have hindex : s.2.top.toInt.toNat + (k + 1) = (s.2.top + 1).toInt.toNat + k := by
        rw [hnext]
        omega
      rw [List.tail_cons, hshift, hindex]

theorem Holds.exec {n : Nat} {s : DequeBuffers × WorkDeque} {l : List UInt64} (h : Holds (n + 1) s l)
    (o : DequeOp UInt64) (hfits : (o.exec l).2.length ≤ 1024) :
    (execDeque s o).1 = answer (o.exec l).1 ∧ Holds n (execDeque s o).2 (o.exec l).2 := by
  cases o with
  | push task => exact ⟨rfl, h.push task hfits⟩
  | pop => exact ⟨congrArg DequeResult.taken h.pop.1, h.pop.2⟩
  | steal => exact ⟨congrArg DequeResult.taken h.steal.1, h.steal.2⟩

theorem Holds.size {n : Nat} {s : DequeBuffers × WorkDeque} {l : List UInt64} (h : Holds n s l) :
    (ChaseLev.size s.2).toInt = l.length := by
  obtain ⟨-, htop, hbottom, hsmall, hfits, -⟩ := h
  have hzero : (0 : Int64).toInt = 0 := rfl
  have hsize : (s.2.bottom - s.2.top).toInt = (l.length : Int) := by
    rw [toInt_sub_of (by omega) (by omega)]
    omega
  unfold ChaseLev.size
  dsimp only
  rw [if_neg (by rw [Int64.lt_iff_toInt_lt]; omega), hsize]

theorem Holds.isEmpty {n : Nat} {s : DequeBuffers × WorkDeque} {l : List UInt64} (h : Holds n s l) :
    ChaseLev.isEmpty s.2 = l.isEmpty := by
  have hsize := h.size
  have hzero : (0 : Int64).toInt = 0 := rfl
  unfold ChaseLev.isEmpty
  rw [Bool.eq_iff_iff, decide_eq_true_iff, List.isEmpty_iff, ← List.length_eq_zero_iff,
    Int64.le_iff_toInt_le]
  omega

theorem holds_init (words : DequeBuffers) (coreId : Int64) {n : Nat} (hn : n < 2 ^ 62) :
    Holds n (workDequeInit words coreId dequeCapacity) [] := by
  refine ⟨rfl, Int.le_refl 0, rfl, ?_, Nat.zero_le _, fun k hk => absurd hk (Nat.not_lt_zero k)⟩
  simp only [workDequeInit]
  rw [show (0 : Int64).toInt = 0 from rfl]
  omega

/-- At most 1024 tasks are outstanding after the call. -/
def Fits (l : List UInt64) (o : DequeOp UInt64) : Prop :=
  (o.exec l).2.length ≤ 1024

instance (l : List UInt64) (o : DequeOp UInt64) : Decidable (Fits l o) :=
  inferInstanceAs (Decidable (_ ≤ _))

/-- **A deque is a double-ended queue.** The calls return what they return on the list of the tasks, with
null for no task; `size` and `is_empty` tell the length of the list; what is pushed is what is returned
and what is left; and where no task is null, null is returned exactly from the empty deque. -/
theorem workDeque_refines (words : DequeBuffers) (coreId : Int64) (ops : List (DequeOp UInt64))
    (hcount : ops.length < 2 ^ 62)
    (hfits : Admissible (fun l o => (DequeOp.exec l o).2) Fits [] ops) :
    let code := runOut execDeque (workDequeInit words coreId dequeCapacity) ops
    let spec := runOut DequeOp.exec [] ops
    code.1 = spec.1.map answer ∧
      (size code.2.2).toInt = spec.2.length ∧ isEmpty code.2.2 = spec.2.isEmpty ∧
      (pushes ops).Perm (takes spec.1 ++ spec.2) ∧
      ((∀ task ∈ pushes ops, task ≠ 0) →
        ∀ r ∈ spec.1, answer r = .taken 0 ↔ r = .taken none) := by
  intro code spec
  have hperm : (pushes ops).Perm (takes spec.1 ++ spec.2) := by
    simpa using pushes_perm [] ops
  obtain ⟨houts, hlast⟩ : List.Forall₂ (fun c r => c = answer r) code.1 spec.1 ∧ Holds 0 code.2 spec.2 :=
    runOut_refines (fun n s l o h hok => h.exec o hok) (holds_init words coreId hcount) hfits
  refine ⟨?_, hlast.size, hlast.isEmpty, hperm, ?_⟩
  · exact List.forall₂_eq_eq_eq ▸ List.forall₂_map_right_iff.mpr houts
  · intro htasks r hr
    rcases r with _ | (_ | task)
    · exact ⟨nofun, nofun⟩
    · exact ⟨fun _ => rfl, fun _ => rfl⟩
    · have hmem : task ∈ pushes ops :=
        hperm.mem_iff.mpr (List.mem_append_left _ (mem_takes hr))
      constructor
      · intro hnull
        exact absurd (DequeResult.taken.inj hnull) (htasks task hmem)
      · exact nofun

/-- A task is popped, one is stolen, and a third call finds nothing. -/
theorem workDeque_refines_twoTasks :
    (runOut execDeque (workDequeInit (fun _ => 0) 3 dequeCapacity)
      [.push 0x1000, .push 0x2000, .pop, .steal, .steal]).1 =
      ([.pushed, .pushed, .taken (some 0x2000), .taken (some 0x1000), .taken none] :
        List (DequeResult (Option UInt64))).map answer :=
  (workDeque_refines (fun _ => 0) 3 [.push 0x1000, .push 0x2000, .pop, .steal, .steal] (by decide)
    (by decide)).1

/-! ### The scan of the idle loop -/

/-- The task at the front of a core's deque. -/
def firstTask (s : Deques) (core : Int64) : UInt64 :=
  s.words ((s.deques core).slot (s.deques core).top)

/-- A scan that looks at the core comes back with a task: the deque is set up, it has a task, and null is
not what is in front. -/
def Stealable (s : Deques) (core : Int64) : Prop :=
  (s.deques core).mask > 0 ∧ isEmpty (s.deques core) = false ∧ firstTask s core ≠ 0

/-- The call took the front task of the core. -/
structure Taken (s : Deques) (r : UInt64 × Deques) (core : Int64) : Prop where
  task : r.1 = firstTask s core
  notNull : r.1 ≠ 0
  wasThere : isEmpty (s.deques core) = false
  gone : r.2.deques core = { s.deques core with top := (s.deques core).top + 1 }

theorem isEmpty_eq_false_iff (q : WorkDeque) : isEmpty q = false ↔ ¬q.bottom - q.top ≤ 0 := by
  unfold isEmpty size
  dsimp only
  rw [decide_eq_false_iff_not]
  split
  · rename_i hneg
    rw [Int64.lt_iff_toInt_lt] at hneg
    simp only [Int64.le_iff_toInt_le]
    omega
  · exact Iff.rfl

theorem trySteal_deques (s : Deques) {core other : Int64} (h : other ≠ core) :
    (trySteal s core).2.deques other = s.deques other := by
  unfold trySteal
  split
  · rfl
  · dsimp only
    split
    · exact Function.update_of_ne h _ _
    · rfl

theorem trySteal_words (s : Deques) (core : Int64) : (trySteal s core).2.words = s.words := by
  unfold trySteal
  split
  · rfl
  · dsimp only
    split
    · rfl
    · rfl

theorem trySteal_spec (s : Deques) {core : Int64} (hcore : ¬(core < 0 ∨ core ≥ maxCpus)) :
    (Stealable s core → Taken s (trySteal s core) core) ∧
      (¬Stealable s core → (trySteal s core).1 = 0) := by
  unfold trySteal
  rw [if_neg hcore]
  dsimp only
  constructor
  · rintro ⟨hmask, hthere, htask⟩
    have hsteal : steal s.words (s.deques core) =
        (firstTask s core, { s.deques core with top := (s.deques core).top + 1 }) :=
      if_neg ((isEmpty_eq_false_iff _).mp hthere)
    rw [if_pos hmask, hsteal]
    exact ⟨rfl, htask, hthere, Function.update_self _ _ _⟩
  · intro hnot
    by_cases hmask : (s.deques core).mask > 0
    · rw [if_pos hmask]
      by_cases hthere : isEmpty (s.deques core) = false
      · -- a null task is taken, and the scan goes on
        have hnull : firstTask s core = 0 := by
          by_contra htask
          exact hnot ⟨hmask, hthere, htask⟩
        exact (congrArg Prod.fst (if_neg ((isEmpty_eq_false_iff _).mp hthere))).trans hnull
      · rw [isEmpty_eq_false_iff, not_not] at hthere
        exact congrArg Prod.fst (if_pos hthere)
    · rw [if_neg hmask]

/-- The cores that the scan looks at, with `n` offsets left. -/
def targets (myCpu maxCores : Int64) : Nat → Int64 → List Int64
  | 0, _ => []
  | n + 1, offset => (myCpu + offset) % maxCores :: targets myCpu maxCores n (offset + 1)

/-- The scan of a list of cores. -/
def scan : List Int64 → Deques → UInt64 × Deques
  | [], s => (0, s)
  | core :: cores, s => if (trySteal s core).1 ≠ 0 then trySteal s core else scan cores (trySteal s core).2

theorem stealScanFrom_eq (myCpu maxCores : Int64) (n : Nat) (offset : Int64) (s : Deques) :
    stealScanFrom myCpu maxCores n offset s = scan (targets myCpu maxCores n offset) s := by
  induction n generalizing offset s with
  | zero => rfl
  | succ n ih =>
    simp only [stealScanFrom, targets, scan]
    rw [ih]

theorem scan_deques {cores : List Int64} {other : Int64} (h : other ∉ cores) (s : Deques) :
    (scan cores s).2.deques other = s.deques other := by
  induction cores generalizing s with
  | nil => rfl
  | cons core cores ih =>
    rw [List.mem_cons, not_or] at h
    unfold scan
    split
    · exact trySteal_deques s h.1
    · rw [ih h.2]
      exact trySteal_deques s h.1

theorem scan_spec {cores : List Int64} (hcores : ∀ core ∈ cores, ¬(core < 0 ∨ core ≥ maxCpus))
    (hnodup : cores.Nodup) (s : Deques) :
    ((∃ core ∈ cores, Stealable s core) → ∃ core ∈ cores, Taken s (scan cores s) core) ∧
      ((∀ core ∈ cores, ¬Stealable s core) → (scan cores s).1 = 0) := by
  induction cores generalizing s with
  | nil => exact ⟨fun ⟨core, hmem, _⟩ => absurd hmem List.not_mem_nil, fun _ => rfl⟩
  | cons core cores ih =>
    obtain ⟨hfirst, hrest⟩ := List.nodup_cons.mp hnodup
    obtain ⟨htaken, hnull⟩ := trySteal_spec s (hcores core List.mem_cons_self)
    by_cases hsteal : Stealable s core
    · have hscan : scan (core :: cores) s = trySteal s core := if_pos (htaken hsteal).notNull
      rw [hscan]
      refine ⟨fun _ => ⟨core, List.mem_cons_self, htaken hsteal⟩, fun hnone => ?_⟩
      exact absurd hsteal (hnone core List.mem_cons_self)
    · have hscan : scan (core :: cores) s = scan cores (trySteal s core).2 :=
        if_neg (not_not.mpr (hnull hsteal))
      -- the attempt on this core leaves the deques of the others alone
      have hsame : ∀ other ∈ cores, (trySteal s core).2.deques other = s.deques other := fun other hmem =>
        trySteal_deques s (fun heq => hfirst (heq ▸ hmem))
      have htask : ∀ other ∈ cores, firstTask (trySteal s core).2 other = firstTask s other := by
        intro other hmem
        unfold firstTask
        rw [trySteal_words, hsame other hmem]
      have hiff : ∀ other ∈ cores, Stealable (trySteal s core).2 other ↔ Stealable s other := by
        intro other hmem
        unfold Stealable
        rw [htask other hmem, hsame other hmem]
      obtain ⟨hfound, hnone⟩ := ih (fun other hmem => hcores other (List.mem_cons_of_mem _ hmem)) hrest
        (trySteal s core).2
      rw [hscan]
      constructor
      · rintro ⟨other, hmem, hother⟩
        rcases List.mem_cons.mp hmem with rfl | hmem
        · exact absurd hother hsteal
        · obtain ⟨victim, hvictim, ⟨hr, hne, hthere, hgone⟩⟩ :=
            hfound ⟨other, hmem, (hiff other hmem).mpr hother⟩
          rw [htask victim hvictim] at hr
          rw [hsame victim hvictim] at hthere hgone
          exact ⟨victim, List.mem_cons_of_mem _ hvictim, hr, hne, hthere, hgone⟩
      · intro hall
        exact hnone fun other hmem hother =>
          hall other (List.mem_cons_of_mem _ hmem) ((hiff other hmem).mp hother)

/-- The number of a core. -/
def coreId (core : Fin 16) : Int64 :=
  Int64.ofNat core.val

/-- The cores that the idle loop of core `cpu` looks at. -/
def lowerCores (cpu : Fin 16) : List (Fin 16) :=
  (List.finRange 16).filter fun core => 1 ≤ core.val ∧ core.val < cpu.val

theorem targets_idle (cpu : Fin 16) :
    targets (coreId cpu) (coreId cpu) ((coreId cpu).toInt - 1).toNat 1 =
      (lowerCores cpu).map coreId := by
  revert cpu
  decide

theorem coreId_injective : Function.Injective coreId := by
  intro a b
  revert a b
  decide

theorem coreId_bounds (core : Fin 16) : ¬(coreId core < 0 ∨ coreId core ≥ maxCpus) := by
  revert core
  decide

theorem mem_lowerCores {cpu core : Fin 16} :
    core ∈ lowerCores cpu ↔ 1 ≤ core.val ∧ core.val < cpu.val := by
  simp [lowerCores]

theorem idleSteal_eq (s : Deques) (cpu : Fin 16) :
    idleSteal s (UInt64.ofNat cpu.val) = scan ((lowerCores cpu).map coreId) s := by
  have hid : (UInt64.ofNat cpu.val).toInt64 = coreId cpu := rfl
  unfold idleSteal chaseLevStealScan stealScan
  rw [hid, stealScanFrom_eq, targets_idle]

/-- An iteration of the idle loop of core `cpu` finds work: where another core has a task, the call takes
a task of another core, and it never takes one of its own. -/
def FindsWork (s : Deques) (cpu : Fin 16) : Prop :=
  ((∃ core, core ≠ cpu ∧ isEmpty (s.deques (coreId core)) = false) →
    ∃ core, core ≠ cpu ∧ Taken s (idleSteal s (UInt64.ofNat cpu.val)) (coreId core)) ∧
  (idleSteal s (UInt64.ofNat cpu.val)).2.deques (coreId cpu) = s.deques (coreId cpu)

/-- **An idle core finds work** if and only if no other core has any, or one of the cores `1 .. cpu - 1`
has a task to steal: the loop passes its own number as the number of cores. -/
theorem idleSteal_iff (s : Deques) (cpu : Fin 16) :
    FindsWork s cpu ↔
      (∀ core, core ≠ cpu → isEmpty (s.deques (coreId core)) = true) ∨
        ∃ core : Fin 16, 1 ≤ core.val ∧ core.val < cpu.val ∧ Stealable s (coreId core) := by
  have hbounds : ∀ core ∈ (lowerCores cpu).map coreId, ¬(core < 0 ∨ core ≥ maxCpus) := by
    intro core hmem
    obtain ⟨i, -, rfl⟩ := List.mem_map.mp hmem
    exact coreId_bounds i
  have hnodup : ((lowerCores cpu).map coreId).Nodup :=
    ((List.nodup_finRange 16).filter _).map coreId_injective
  obtain ⟨hfound, hnone⟩ := scan_spec hbounds hnodup s
  have hown : coreId cpu ∉ (lowerCores cpu).map coreId := by
    intro hmem
    obtain ⟨i, hi, heq⟩ := List.mem_map.mp hmem
    rw [coreId_injective heq] at hi
    exact absurd (mem_lowerCores.mp hi).2 (Nat.lt_irrefl _)
  unfold FindsWork
  rw [idleSteal_eq]
  constructor
  · rintro ⟨hfinds, -⟩
    by_cases hwork : ∃ core, core ≠ cpu ∧ isEmpty (s.deques (coreId core)) = false
    · right
      obtain ⟨core, -, htaken⟩ := hfinds hwork
      by_contra hno
      refine htaken.notNull (hnone ?_)
      intro victim hmem hsteal
      obtain ⟨i, hi, rfl⟩ := List.mem_map.mp hmem
      obtain ⟨hone, hlt⟩ := mem_lowerCores.mp hi
      exact hno ⟨i, hone, hlt, hsteal⟩
    · left
      intro core hne
      by_contra hthere
      exact hwork ⟨core, hne, by simpa using hthere⟩
  · intro hcond
    refine ⟨?_, scan_deques hown s⟩
    rintro ⟨core, hne, hthere⟩
    rcases hcond with hempty | ⟨victim, hone, hlt, hsteal⟩
    · rw [hempty core hne] at hthere
      exact absurd hthere (by decide)
    · obtain ⟨taken, hmem, htaken⟩ := hfound
        ⟨coreId victim, List.mem_map_of_mem (mem_lowerCores.mpr ⟨hone, hlt⟩), hsteal⟩
      obtain ⟨i, hi, rfl⟩ := List.mem_map.mp hmem
      refine ⟨i, ?_, htaken⟩
      rintro rfl
      exact Nat.lt_irrefl _ (mem_lowerCores.mp hi).2

/-- Core 0 is idle and core 1 has a task, which the loop of core 0 does not find. -/
theorem not_findsWork_core0 :
    ¬∀ (s : Deques) (cpu : Fin 16), FindsWork s cpu := by
  intro h
  obtain ⟨core, -, htaken⟩ := (h ⟨fun _ => 0x1000, fun _ => ⟨0, 1, 0, 1023⟩⟩ 0).1
    ⟨1, by decide, by decide⟩
  exact htaken.notNull rfl

end Keuos.ChaseLev
