import Keuos.Process.Equiv.Running
import Mathlib.Data.Finset.Card

/-!
# The books of the process table

`PID_BITMAP`, `PROC_COUNT` and the states of the slots are three records of one fact: which processes
there are.  They agree as long as the processes leave with `process_exit`.  `sys_entity_exit` calls the
wrapper `process_dec_count` in place of `dec_count`, and the wrapper has no statements.

## Main results

* `booksKept_of_careful`: the records agree, pids are different and `alloc_pid` finds a free slot, in every
  run in which nobody leaves with `sys_entity_exit` (and the waits of the entity interface free zombies
  only, and a pid that is in use does not come around).
* `not_booksKept_entityExit`: the count is one too high after `sys_entity_exit`.
-/

namespace Keuos.Process

/-- The bit of a slot in `PID_BITMAP`. -/
def taken (p : Procs) (slot : UInt64) : Bool :=
  bit (p.pidBitmap (slot / 64)) (slot % 64).toNat

/-- The slots that are neither FREE nor ZOMBIE. -/
def aliveSlots (p : Procs) : Finset Nat :=
  (Finset.range 64).filter fun i => aliveState (p.state (UInt64.ofNat i)) = true

/-- `alloc_pid` answers a FREE slot, or all slots are taken. -/
def AllocFinds (p : Procs) : Prop :=
  (allocPid p).1 < maxProcs ∧ p.state (allocPid p).1 = procFree ∨
    (allocPid p).1 = maxProcs ∧ ∀ slot, slot < maxProcs → p.state slot ≠ procFree

/-- The bitmap has the slots that are not FREE, the count is that of the processes that are neither FREE
nor ZOMBIE, pids are different, and `alloc_pid` finds what it should. -/
structure BooksKept (p : Procs) : Prop where
  bits : ∀ slot, slot < maxProcs → (taken p slot = true ↔ p.state slot ≠ procFree)
  count : p.procCount = UInt64.ofNat (aliveSlots p).card
  pids : ∀ slot, slot < maxProcs → ∀ slot', slot' < maxProcs → p.state slot ≠ procFree →
    p.state slot' ≠ procFree → (p.table slot).pid = (p.table slot').pid → slot = slot'
  alloc : AllocFinds p

/-! ### The bitmap -/

section Bitmap

variable {p : Procs} {slot i : UInt64}

theorem slot_div (h : slot < maxProcs) : slot / 64 = 0 := by
  rw [toNat_lt_maxProcs] at h
  apply UInt64.toNat_inj.mp
  rw [UInt64.toNat_div, show (64 : UInt64).toNat = 64 from rfl, Nat.div_eq_of_lt h, UInt64.toNat_zero]

theorem slot_mod (h : slot < maxProcs) : slot % 64 = slot := by
  rw [toNat_lt_maxProcs] at h
  apply UInt64.toNat_inj.mp
  rw [UInt64.toNat_mod, show (64 : UInt64).toNat = 64 from rfl, Nat.mod_eq_of_lt h]

theorem taken_eq (h : slot < maxProcs) : taken p slot = bit (p.pidBitmap 0) slot.toNat := by
  unfold taken
  rw [slot_div h, slot_mod h]

theorem decide_toNat_eq (slot i : UInt64) : decide (slot.toNat = i.toNat) = decide (slot = i) := by
  rw [decide_eq_decide]
  exact UInt64.toNat_inj

theorem taken_claimSlot (hslot : slot < maxProcs) (hi : i < maxProcs) :
    taken (claimSlot p slot) i = (decide (slot = i) || taken p i) := by
  rw [taken_eq hi, taken_eq hi]
  unfold claimSlot Procs.modify
  dsimp only
  rw [slot_div hslot, slot_mod hslot, Function.update_self, bit_or,
    bit_one_shiftLeft (toNat_lt_maxProcs.mp hslot), decide_toNat_eq, Bool.or_comm]

theorem taken_setFree (hslot : slot < maxProcs) (hi : i < maxProcs) :
    taken (setState p slot procFree) i = (!decide (slot = i) && taken p i) := by
  rw [taken_eq hi, taken_eq hi]
  unfold setState Procs.modify
  dsimp only
  rw [if_pos (by decide), slot_div hslot, slot_mod hslot]
  dsimp only
  rw [Function.update_self, bit_and, bit_xor, bit_one_shiftLeft (toNat_lt_maxProcs.mp hslot), bit_allOnes,
    decide_eq_true (toNat_lt_maxProcs.mp hi), Bool.xor_true, decide_toNat_eq, Bool.and_comm]

theorem allocPid_of_full (h : freeMask p 0 = 0) : allocPid p = (maxProcs, p) := by
  have hhigh : freeMask p (0 + 1) = 0 ∧ freeMask p (0 + 1 + 1) = 0 ∧ freeMask p (0 + 1 + 1 + 1) = 0 := by
    unfold freeMask
    rw [if_pos (by decide), if_pos (by decide), if_pos (by decide)]
    exact ⟨rfl, rfl, rfl⟩
  unfold allocPid allocPidFrom
  dsimp only
  rw [h, if_pos (by decide)]
  unfold allocPidFrom
  dsimp only
  rw [hhigh.1, if_pos (by decide)]
  unfold allocPidFrom
  dsimp only
  rw [hhigh.2.1, if_pos (by decide)]
  unfold allocPidFrom
  dsimp only
  rw [hhigh.2.2, if_pos (by decide)]
  rfl

/-- **`alloc_pid`** takes a slot whose bit is clear, or all bits are set. -/
theorem allocPid_spec (p : Procs) :
    (∃ slot < maxProcs, taken p slot = false ∧ allocPid p = (slot, claimSlot p slot)) ∨
      allocPid p = (maxProcs, p) ∧ ∀ slot, slot < maxProcs → taken p slot = true := by
  have hmask : freeMask p 0 = p.pidBitmap 0 ^^^ allOnes := by
    unfold freeMask
    rw [if_neg (by decide), if_neg (by decide)]
  have hbit : ∀ slot : UInt64, slot < maxProcs → bit (freeMask p 0) slot.toNat = !taken p slot := by
    intro slot hslot
    rw [hmask, bit_xor, bit_allOnes, decide_eq_true (toNat_lt_maxProcs.mp hslot), Bool.xor_true,
      taken_eq hslot]
  by_cases hfull : freeMask p 0 = 0
  · refine .inr ⟨allocPid_of_full hfull, ?_⟩
    intro slot hslot
    have := hbit slot hslot
    rw [hfull, bit_zero] at this
    simpa using this.symm
  · obtain ⟨hlt, hset, -⟩ := ctz_spec hfull
    have hslot : ctz (freeMask p 0) < maxProcs := toNat_lt_maxProcs.mpr hlt
    refine .inl ⟨ctz (freeMask p 0), hslot, ?_, ?_⟩
    · rw [hbit _ hslot] at hset
      simpa using hset
    · unfold allocPid allocPidFrom
      dsimp only
      rw [if_neg (by simpa using hfull), UInt64.zero_mul, UInt64.zero_add,
        if_neg (UInt64.not_le.mpr hslot)]

end Bitmap

/-! ### The count -/

section Count

variable {p q : Procs} {slot : UInt64}

theorem mem_aliveSlots (hslot : slot < maxProcs) :
    slot.toNat ∈ aliveSlots p ↔ aliveState (p.state slot) = true := by
  unfold aliveSlots
  rw [Finset.mem_filter, Finset.mem_range, UInt64.ofNat_toNat]
  exact ⟨fun h => h.2, fun h => ⟨toNat_lt_maxProcs.mp hslot, h⟩⟩

theorem ofNat_lt_maxProcs {i : Nat} (hi : i < 64) :
    UInt64.ofNat i < maxProcs ∧ (UInt64.ofNat i).toNat = i := by
  have htoNat : (UInt64.ofNat i).toNat = i := by
    rw [UInt64.toNat_ofNat', Nat.mod_eq_of_lt (by omega)]
  exact ⟨toNat_lt_maxProcs.mpr (by rw [htoNat]; exact hi), htoNat⟩

theorem aliveSlots_congr (h : ∀ i, i < maxProcs → aliveState (q.state i) = aliveState (p.state i)) :
    aliveSlots q = aliveSlots p := by
  unfold aliveSlots
  apply Finset.filter_congr
  intro i hi
  rw [h _ (ofNat_lt_maxProcs (Finset.mem_range.mp hi)).1]

theorem card_aliveSlots (hslot : slot < maxProcs) (hdead : aliveState (p.state slot) = false)
    (halive : aliveState (q.state slot) = true)
    (hother : ∀ i, i ≠ slot → aliveState (q.state i) = aliveState (p.state i)) :
    (aliveSlots q).card = (aliveSlots p).card + 1 := by
  have hinsert : aliveSlots q = insert slot.toNat (aliveSlots p) := by
    ext i
    by_cases hi : i = slot.toNat
    · subst hi
      rw [mem_aliveSlots hslot]
      simp [halive]
    · have hne : UInt64.ofNat i ≠ slot ∨ 64 ≤ i := by
        by_cases hlt : i < 64
        · left
          rintro rfl
          exact hi (ofNat_lt_maxProcs hlt).2.symm
        · exact .inr (Nat.not_lt.mp hlt)
      unfold aliveSlots
      rw [Finset.mem_insert, Finset.mem_filter, Finset.mem_filter, Finset.mem_range]
      rcases hne with hne | hge
      · rw [hother _ hne]
        exact ⟨.inr, fun h => h.resolve_left hi⟩
      · constructor
        · rintro ⟨hlt, -⟩
          omega
        · rintro (rfl | ⟨hlt, -⟩)
          · exact absurd rfl hi
          · omega
  have hnot : slot.toNat ∉ aliveSlots p := by
    rw [mem_aliveSlots hslot, hdead]
    decide
  rw [hinsert, Finset.card_insert_of_notMem hnot]

end Count

/-! ### The invariant -/

/-- What is kept. -/
structure Books (p : Procs) : Prop where
  bits : ∀ slot, slot < maxProcs → (taken p slot = true ↔ p.state slot ≠ procFree)
  count : p.procCount = UInt64.ofNat (aliveSlots p).card
  pids : ∀ slot, slot < maxProcs → ∀ slot', slot' < maxProcs → p.state slot ≠ procFree →
    p.state slot' ≠ procFree → (p.table slot).pid = (p.table slot').pid → slot = slot'
  range : p.currentPid < maxProcs

/-- The next pid is not in use. -/
def PidUnused (p : Procs) : Prop :=
  ∀ slot, slot < maxProcs → p.state slot ≠ procFree → (p.table slot).pid ≠ p.nextPid

section Books

variable {p q : Procs} {slot : UInt64}

theorem Books.allocFinds (h : Books p) : AllocFinds p := by
  rcases allocPid_spec p with ⟨slot, hslot, hclear, halloc⟩ | ⟨halloc, hset⟩
  · refine .inl ?_
    rw [halloc]
    refine ⟨hslot, ?_⟩
    by_contra hne
    rw [(h.bits slot hslot).mpr hne] at hclear
    cases hclear
  · refine .inr ?_
    rw [halloc]
    exact ⟨rfl, fun slot hslot => (h.bits slot hslot).mp (hset slot hslot)⟩

theorem Books.kept (h : Books p) : BooksKept p := ⟨h.bits, h.count, h.pids, h.allocFinds⟩

theorem Books.congr (h : Books p) (hbitmap : q.pidBitmap = p.pidBitmap)
    (hcount : q.procCount = p.procCount) (hpid : ∀ i, (q.table i).pid = (p.table i).pid)
    (hfree : ∀ i, q.state i = procFree ↔ p.state i = procFree)
    (halive : ∀ i, aliveState (q.state i) = aliveState (p.state i)) (hrange : q.currentPid < maxProcs) :
    Books q := by
  refine ⟨?_, ?_, ?_, hrange⟩
  · intro i hi
    rw [taken, hbitmap, ne_eq, hfree i]
    exact h.bits i hi
  · rw [hcount, h.count, aliveSlots_congr fun i _ => halive i]
  · intro i hi i' hi' hne hne' heq
    rw [ne_eq, hfree] at hne hne'
    rw [hpid, hpid] at heq
    exact h.pids i hi i' hi' hne hne' heq

theorem Books.modify (h : Books p) {f : Pcb → Pcb} (hpid : (f (p.table slot)).pid = (p.table slot).pid)
    (hstate : (f (p.table slot)).state = p.state slot) : Books (p.modify slot f) := by
  have hsame : ∀ i, (p.modify slot f).state i = p.state i := by
    intro i
    rw [state_modify]
    split
    · next hi => rw [hi, hstate]
    · rfl
  refine h.congr rfl rfl ?_ ?_ ?_ h.range
  · intro i
    by_cases hi : i = slot
    · rw [hi, modify_self, hpid]
    · rw [modify_of_ne p hi]
  · intro i
    rw [hsame]
  · intro i
    rw [hsame]

theorem Books.setState (h : Books p) {state : UInt64} (halive : aliveState (p.state slot) = true)
    (hstate : aliveState state = true) : Books (setState p slot state) := by
  refine h.congr (pidBitmap_setState p slot (aliveState_iff.mp hstate).1) (procCount_setState ..) ?_ ?_ ?_ ?_
  · intro i
    rw [table_setState]
    split
    · next hi => rw [hi]
    · rfl
  · intro i
    rw [state_setState]
    split
    · next hi =>
      rw [hi]
      exact ⟨fun hf => absurd hf (aliveState_iff.mp hstate).1,
        fun hf => absurd hf (aliveState_iff.mp halive).1⟩
    · rfl
  · intro i
    rw [state_setState]
    split
    · next hi => rw [hi, hstate, halive]
    · rfl
  · rw [currentPid_setState]
    exact h.range

theorem Books.free_of_alloc (h : Books p) (hslot : slot < maxProcs)
    (halloc : allocPid p = (slot, claimSlot p slot)) : p.state slot = procFree := by
  rcases h.allocFinds with ⟨-, hfree⟩ | ⟨hfull, -⟩
  · rwa [halloc] at hfree
  · rw [halloc] at hfull
    exact absurd hfull (UInt64.ne_of_lt hslot)

theorem Books.claimSlot (h : Books p) (hunused : PidUnused p) (hslot : slot < maxProcs)
    (halloc : allocPid p = (slot, claimSlot p slot)) : Books (claimSlot p slot) := by
  have hfree := h.free_of_alloc hslot halloc
  refine ⟨?_, ?_, ?_, h.range⟩
  · intro i hi
    rw [taken_claimSlot hslot hi, state_claimSlot]
    by_cases hsi : i = slot
    · rw [if_pos hsi, hsi, decide_eq_true rfl, Bool.true_or]
      decide
    · rw [if_neg hsi, decide_eq_false (Ne.symm hsi), Bool.false_or]
      exact h.bits i hi
  · have hcard : (aliveSlots (Process.claimSlot p slot)).card = (aliveSlots p).card + 1 := by
      refine card_aliveSlots hslot ?_ ?_ ?_
      · rw [hfree]
        decide
      · rw [state_claimSlot, if_pos rfl]
        decide
      · intro i hi
        rw [state_claimSlot, if_neg hi]
    rw [hcard, UInt64.ofNat_add, ← h.count]
    rfl
  · intro i hi i' hi' hne hne' heq
    rw [state_claimSlot] at hne hne'
    rw [table_claimSlot, table_claimSlot] at heq
    by_cases hsi : i = slot
    · by_cases hsi' : i' = slot
      · rw [hsi, hsi']
      · rw [if_pos hsi, if_neg hsi'] at heq
        rw [if_neg hsi'] at hne'
        exact absurd heq.symm (hunused i' hi' hne')
    · rw [if_neg hsi] at hne
      by_cases hsi' : i' = slot
      · rw [if_neg hsi, if_pos hsi'] at heq
        exact absurd heq (hunused i hi hne)
      · rw [if_neg hsi, if_neg hsi'] at heq
        rw [if_neg hsi'] at hne'
        exact h.pids i hi i' hi' hne hne' heq

theorem steady_books : Steady Books (fun _ _ => True) PidUnused where
  range := Books.range
  state := fun h _ halive hstate => h.setState halive hstate
  mail := fun h _ _ _ _ _ _ => h.modify rfl rfl
  alive := fun _ => trivial
  current := fun h hslot => ⟨h.bits, h.count, h.pids, hslot⟩
  alloc := Books.claimSlot
  root := fun h _ _ => h.modify rfl rfl

theorem Books.zombie (h : Books p) (hslot : slot < maxProcs) (halive : aliveState (p.state slot) = true) :
    Books (decCount (Process.setState p slot procZombie)) := by
  have hstate : ∀ i, (decCount (Process.setState p slot procZombie)).state i =
      if i = slot then procZombie else p.state i := state_setState p slot procZombie
  have hfree := (aliveState_iff.mp halive).1
  refine ⟨?_, ?_, ?_, ?_⟩
  · intro i hi
    rw [hstate]
    have htaken : taken (decCount (Process.setState p slot procZombie)) i = taken p i := by
      unfold taken decCount
      rw [pidBitmap_setState p slot (by decide)]
    rw [htaken, h.bits i hi]
    split
    · next hsi => exact ⟨fun _ => by decide, fun _ => hsi ▸ hfree⟩
    · rfl
  · have hcard : (aliveSlots p).card =
        (aliveSlots (decCount (Process.setState p slot procZombie))).card + 1 := by
      refine card_aliveSlots hslot ?_ halive ?_
      · rw [hstate, if_pos rfl]
        decide
      · intro i hi
        rw [hstate, if_neg hi]
    unfold decCount at hcard ⊢
    dsimp only at hcard ⊢
    rw [procCount_setState, h.count, hcard, UInt64.ofNat_add]
    exact UInt64.add_sub_cancel ..
  · intro i hi i' hi' hne hne' heq
    have hpid : ∀ j, ((decCount (Process.setState p slot procZombie)).table j).pid = (p.table j).pid := by
      intro j
      change ((Process.setState p slot procZombie).table j).pid = _
      rw [table_setState]
      split
      · next hj => rw [hj]
      · rfl
    have hfree' : ∀ j, (decCount (Process.setState p slot procZombie)).state j ≠ procFree →
        p.state j ≠ procFree := by
      intro j hj
      rw [hstate] at hj
      split at hj
      · next hsj => exact hsj ▸ hfree
      · exact hj
    rw [hpid, hpid] at heq
    exact h.pids i hi i' hi' (hfree' i hne) (hfree' i' hne') heq
  · exact (currentPid_setState ..).symm ▸ h.range

theorem Books.free (h : Books p) (hslot : slot < maxProcs) (hzombie : p.state slot = procZombie) :
    Books (Process.setState p slot procFree) := by
  refine ⟨?_, ?_, ?_, ?_⟩
  · intro i hi
    rw [taken_setFree hslot hi, state_setState]
    by_cases hsi : i = slot
    · rw [if_pos hsi, hsi, decide_eq_true rfl, Bool.not_true, Bool.false_and]
      decide
    · rw [if_neg hsi, decide_eq_false (Ne.symm hsi), Bool.not_false, Bool.true_and]
      exact h.bits i hi
  · rw [procCount_setState, h.count]
    congr 2
    apply Eq.symm
    apply aliveSlots_congr
    intro i _
    rw [state_setState]
    split
    · next hi =>
      rw [hi, hzombie]
      decide
    · rfl
  · intro i hi i' hi' hne hne' heq
    rw [state_setState] at hne hne'
    rw [table_setState, table_setState] at heq
    by_cases hsi : i = slot
    · rw [if_pos hsi] at hne
      exact absurd rfl hne
    · by_cases hsi' : i' = slot
      · rw [if_pos hsi'] at hne'
        exact absurd rfl hne'
      · rw [if_neg hsi] at hne heq
        rw [if_neg hsi'] at hne' heq
        exact h.pids i hi i' hi' hne hne' heq
  · exact (currentPid_setState ..).symm ▸ h.range

end Books

/-! ### Runs -/

/-- The slot that a waiting call looks at. -/
def Waiting.childSlot : Waiting → UInt64
  | .child _ childSlot _ => childSlot
  | .entity _ childSlot => childSlot

/-- **The side condition.** Nobody leaves with `sys_entity_exit`, `sys_entity_wait` frees no slot that is
not a zombie's, and the next pid is not in use when one is taken. -/
def BooksCareful (s : Jobs) : JobOp → Prop
  | .alloc => PidUnused s.procs
  | .spawn => PidUnused s.procs
  | .ipcSend targetPid msg0 msg1 msg2 drained =>
    targetPid < maxProcs → s.procs.state targetPid = procIpcBlocked →
      Admissible (Request.apply s.slot) (Request.AllocOk PidUnused)
        (setIpcMsg (unblock s.procs targetPid) targetPid s.slot msg0 msg1 msg2) drained
  | .entityExit _ => s.idle = false
  | .poll =>
    ∀ entity childSlot, s.past.waits s.slot = some (.entity entity childSlot) →
      s.threads.status entity = 4 → s.procs.state childSlot = procZombie
  | _ => True

section Runs

variable {s : Jobs}

/-- The invariant of a run: the books are kept, and calls wait for slots of the table. -/
structure Jobs.Kept (s : Jobs) : Prop where
  books : Books s.procs
  slots : ∀ slot w, s.past.waits slot = some w → w.childSlot < maxProcs

theorem findChildFrom_spec (p : Procs) (targetPid callerPid : UInt64) {n : Nat} {i childSlot : UInt64}
    (hi : i.toNat + n ≤ 64) (hinit : childSlot = maxProcs ∨ childSlot < maxProcs ∧
      (p.table childSlot).pid = targetPid ∧ (p.table childSlot).parentPid = callerPid) :
    let found := findChildFrom p targetPid callerPid n i childSlot
    found = maxProcs ∨ found < maxProcs ∧
      (p.table found).pid = targetPid ∧ (p.table found).parentPid = callerPid := by
  induction n generalizing i childSlot with
  | zero => exact hinit
  | succ n ih =>
    unfold findChildFrom
    dsimp only
    have hlt : i.toNat < 64 := by omega
    have hstep : (i + 1).toNat = i.toNat + 1 := by
      rw [UInt64.toNat_add, UInt64.toNat_one, Nat.mod_eq_of_lt (by omega)]
    refine ih (by omega) ?_
    split
    · next hmatch =>
      rw [Bool.and_eq_true, beq_iff_eq, beq_iff_eq] at hmatch
      exact .inr ⟨toNat_lt_maxProcs.mpr hlt, hmatch⟩
    · exact hinit

/-- **The first loop of `sys_wait`** finds a slot with the pid and the parent, or none. -/
theorem findChild_spec (p : Procs) (targetPid : UInt64) :
    findChild p targetPid = maxProcs ∨ findChild p targetPid < maxProcs ∧
      (p.table (findChild p targetPid)).pid = targetPid ∧
      (p.table (findChild p targetPid)).parentPid = (p.table p.currentPid).pid :=
  findChildFrom_spec p targetPid _ (by decide) (.inl rfl)

theorem Jobs.Kept.withProcs (h : s.Kept) {p : Procs} (hp : Books p) : (s.withProcs p).Kept :=
  ⟨hp, h.slots⟩

theorem Jobs.Kept.congr (h : s.Kept) {s' : Jobs} (hprocs : s'.procs = s.procs)
    (hwaits : s'.past.waits = s.past.waits) : s'.Kept :=
  ⟨hprocs ▸ h.books, hwaits ▸ h.slots⟩

theorem Jobs.Kept.setWait (h : s.Kept) {w : Option Waiting}
    (hw : ∀ w', w = some w' → w'.childSlot < maxProcs) : (s.setWait w).Kept := by
  refine ⟨h.books, ?_⟩
  intro slot w' hslot
  change Function.update s.past.waits s.slot w slot = some w' at hslot
  by_cases heq : slot = s.slot
  · rw [heq, Function.update_self] at hslot
    exact hw w' hslot
  · rw [Function.update_of_ne heq] at hslot
    exact h.slots slot w' hslot

theorem Books.spawnChild {p : Procs} (h : Books p) (hunused : PidUnused p) : Books (spawnChild p).2 := by
  have halloc := steady_books.allocPid h hunused
  unfold Process.spawnChild
  dsimp only
  split
  · exact halloc
  · exact halloc.modify (f := fun b => { b with parentPid := _ }) rfl rfl

theorem procs_exitThread (t : Threads) (exitCode : UInt64) :
    (exitThread t exitCode).procs = processExit t.procs exitCode := by
  unfold exitThread Threads.destroyThread
  dsimp only
  split
  · rfl
  · rfl

theorem Books.processExit {p : Procs} (h : Books p) (halive : aliveState (p.state p.currentPid) = true)
    (exitCode : UInt64) : Books (processExit p exitCode) := by
  have hmail : Books (setIpcMsg p p.currentPid 0 exitCode 0 0) := h.modify rfl rfl
  refine steady_books.switchToNextReady (hmail.zombie h.range ?_) _
  rw [state_setIpcMsg]
  exact halive

theorem Books.reapChild {p : Procs} (h : Books p) {childSlot : UInt64} (hslot : childSlot < maxProcs) :
    Books (reapChild p childSlot).2 := by
  unfold Process.reapChild
  split
  · next hzombie => exact h.free hslot (beq_iff_eq.mp hzombie)
  · exact h

theorem Jobs.Kept.waited (h : s.Kept) (targetPid : UInt64) : (s.waited targetPid).Kept := by
  unfold Jobs.waited
  dsimp only
  rcases findChild_spec s.procs targetPid with hnone | ⟨hlt, -, -⟩
  · rw [if_pos (beq_iff_eq.mpr hnone)]
    exact h.congr rfl rfl
  · rw [if_neg (by simpa using UInt64.ne_of_lt hlt)]
    refine h.setWait ?_
    rintro w' hw
    obtain rfl := Option.some.inj hw
    exact hlt

theorem Jobs.Kept.polled (h : s.Kept) {targetPid childSlot : UInt64} {late : Bool}
    (hslot : childSlot < maxProcs) : (s.polled targetPid childSlot late).Kept := by
  have hbooks := h.books.reapChild hslot
  unfold Jobs.polled
  dsimp only
  generalize Process.reapChild s.procs childSlot = r at hbooks ⊢
  obtain ⟨exitCode | exitCode, p⟩ := r
  · exact h
  · refine ((h.withProcs hbooks).setWait (w := none) ?_).congr rfl rfl
    intro w' hw
    cases hw

theorem Jobs.Kept.polledEntity (h : s.Kept) {entity childSlot : UInt64} (hslot : childSlot < maxProcs)
    (hzombie : s.threads.status entity = 4 → s.procs.state childSlot = procZombie) :
    (s.polledEntity entity childSlot).Kept := by
  unfold Jobs.polledEntity reapEntity
  by_cases hended : s.threads.status entity = 4
  · rw [if_pos (beq_iff_eq.mpr hended)]
    have hfree := h.books.free hslot (hzombie hended)
    have hprocs : (if entity != 0 then s.threads.destroyThread entity else s.threads).procs = s.procs := by
      split
      · rfl
      · rfl
    dsimp only
    rw [hprocs]
    have hkept := h.withProcs
      (show Books (Procs.modify _ childSlot fun b => { b with ecsEntityVal := 0 }) from hfree.modify rfl rfl)
    refine (hkept.setWait (w := none) ?_).congr rfl rfl
    intro w' hw
    cases hw
  · rw [if_neg (by simpa using hended)]
    exact h

/-- **A careful step** keeps the books. -/
theorem Jobs.Kept.exec (h : s.Kept) {op : JobOp} (hok : BooksCareful s op) : (s.exec op).Kept := by
  cases op with
  | alloc => exact h.withProcs (steady_books.allocPid h.books hok)
  | spawn =>
    unfold Jobs.exec Jobs.spawned
    dsimp only
    have hspawned := h.withProcs (h.books.spawnChild hok)
    split_ifs
    · exact hspawned
    · exact hspawned.congr rfl rfl
    · exact h
  | setEntity slot entity =>
    unfold Jobs.exec
    dsimp only
    split
    · exact h.withProcs (h.books.modify rfl rfl)
    · exact h
  | setStatus status => exact h.congr rfl rfl
  | change slot state =>
    unfold Jobs.exec
    dsimp only
    split
    · next hlive =>
      rw [Bool.and_eq_true, Bool.and_eq_true] at hlive
      exact h.withProcs (h.books.setState hlive.1.2 hlive.2)
    · exact h
  | switch slot =>
    unfold Jobs.exec
    dsimp only
    split
    · next hlive =>
      rw [Bool.and_eq_true, decide_eq_true_eq] at hlive
      exact h.withProcs (steady_books.current h.books hlive.1)
    · exact h
  | ipcSend targetPid msg0 msg1 msg2 drained =>
    unfold Jobs.exec
    dsimp only
    split
    · exact h.withProcs (steady_books.sysIpcSend h.books msg0 msg1 msg2 (fun _ _ _ => trivial) hok)
    · exact h
  | ringSend slot targetPid msg0 msg1 => exact h.withProcs (steady_books.ringIpcSend h.books ..)
  | exit exitCode =>
    unfold Jobs.exec
    dsimp only
    split
    · next hidle =>
      have halive := (Bool.and_eq_true_iff.mp hidle).1
      -- the exit leaves the slot of the thread as a zombie
      have hbooks : Books (exitThread s.threads exitCode).procs := by
        rw [procs_exitThread]
        exact h.books.processExit halive exitCode
      exact ⟨hbooks, h.slots⟩
    · exact h
  | entityExit exitCode =>
    -- the condition on the run: no thread that runs makes this call
    have hidle : s.idle = false := hok
    unfold Jobs.exec
    dsimp only
    rw [hidle, if_neg Bool.false_ne_true]
    exact h
  | wait targetPid =>
    unfold Jobs.exec
    dsimp only
    split
    · exact h.waited targetPid
    · exact h
  | entityWait entity =>
    unfold Jobs.exec
    dsimp only
    split
    · next hcall =>
      rw [Bool.and_eq_true, decide_eq_true_eq] at hcall
      refine h.setWait ?_
      intro w' hw
      obtain rfl := Option.some.inj hw
      exact hcall.2
    · exact h
  | poll =>
    unfold Jobs.exec
    dsimp only
    split
    · exact h
    · next targetPid childSlot late hwait => exact h.polled (h.slots _ _ hwait)
    · next entity childSlot hwait =>
      exact h.polledEntity (h.slots _ _ hwait) (hok entity childSlot hwait)

theorem kept_boot : Jobs.boot.Kept := by
  refine ⟨⟨?_, ?_, ?_, by decide⟩, ?_⟩
  · intro slot _
    unfold taken Jobs.boot
    exact ⟨fun h => absurd h (by simp [Jobs.procs, Procs.zero]), fun h => absurd rfl h⟩
  · have hnone : aliveSlots Jobs.boot.procs = ∅ := by
      unfold aliveSlots
      apply Finset.filter_eq_empty_iff.mpr
      intro i _ halive
      exact absurd halive (by decide +revert)
    rw [hnone]
    rfl
  · intro slot _ slot' _ hne
    exact absurd rfl hne
  · intro slot w hw
    cases hw

end Runs

/-- **The books are kept**, in every run in which each step is careful. -/
theorem booksKept_of_careful {ops : List JobOp} (hok : Admissible Jobs.exec BooksCareful Jobs.boot ops) :
    BooksKept (runOps Jobs.exec Jobs.boot ops).procs :=
  (runOps_induction (I := Jobs.Kept) (fun _ _ h hstep => h.exec hstep) kept_boot hok).books.kept

/-- Two processes; the second one exits and is reaped by the first. -/
theorem booksKept_reaped :
    BooksKept (runOps Jobs.exec Jobs.boot
      [.alloc, .spawn, .switch 1, .exit 7, .switch 0, .wait 2, .poll]).procs := by
  refine booksKept_of_careful ⟨?_, ?_, trivial, trivial, trivial, trivial, ?_, trivial⟩
  · intro slot _ hne
    exact absurd rfl hne
  · intro slot _ hne
    have halloc : (Jobs.boot.exec .alloc).procs = claimSlot Procs.zero 0 := rfl
    rw [halloc] at hne ⊢
    rw [state_claimSlot] at hne
    rw [table_claimSlot]
    split
    · decide
    · next hslot =>
      rw [if_neg hslot] at hne
      exact absurd rfl hne
  · intro entity childSlot hwait
    have hchild : (runOps Jobs.exec Jobs.boot [.alloc, .spawn, .switch 1, .exit 7, .switch 0,
        .wait 2]).past.waits (runOps Jobs.exec Jobs.boot [.alloc, .spawn, .switch 1, .exit 7, .switch 0,
        .wait 2]).slot = some (.child 2 1 false) := by decide +kernel
    simp only [runOps_cons, runOps_nil] at hchild
    rw [hchild] at hwait
    cases hwait

/-- **A process that leaves with `sys_entity_exit`** is still counted. -/
theorem not_booksKept_entityExit :
    ¬ BooksKept (runOps Jobs.exec Jobs.boot [.alloc, .entityExit 7]).procs := by
  intro h
  exact absurd h.count (by decide)

end Keuos.Process
