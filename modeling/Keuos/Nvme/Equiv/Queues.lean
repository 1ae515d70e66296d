import Keuos.Lib.PhaseBit
import Keuos.Nvme.Defs

/-!
# The queues between the driver and the controller

`sqList` is the commands that the controller has not taken, `cqList` the completions that the driver has not
seen.  Every operation of either side is one on these lists: a command is appended by the driver and taken by
the controller, a completion is appended by the controller and, by its phase bit, taken by the driver.
-/

namespace Keuos.Nvme

open Circular PhaseBit

/-! ### Indices and phases -/

theorem toNat_nextIndex {i : UInt32} (hi : i.toNat < 32) : (nextIndex i).toNat = (i.toNat + 1) % 32 := by
  have hsucc : (i + 1).toNat = i.toNat + 1 := by
    rw [UInt32.toNat_add]
    exact Nat.mod_eq_of_lt (by simp; omega)
  unfold nextIndex
  by_cases hwrap : 32 ≤ i + 1
  · have hle : 32 ≤ i.toNat + 1 := by
      rw [← hsucc]
      exact UInt32.le_iff_toNat_le.mp hwrap
    rw [if_pos hwrap, show i.toNat + 1 = 32 by omega]
    rfl
  · have hlt : i.toNat + 1 < 32 := by
      rw [← hsucc]
      exact UInt32.lt_iff_toNat_lt.mp (UInt32.not_le.mp hwrap)
    rw [if_neg hwrap, hsucc, Nat.mod_eq_of_lt hlt]

theorem wraps_iff {i : UInt32} (hi : i.toNat < 32) : 32 ≤ i + 1 ↔ ¬ i.toNat + 1 < 32 := by
  rw [UInt32.le_iff_toNat_le, UInt32.toNat_add, Nat.mod_eq_of_lt (by simp; omega)]
  exact Nat.not_lt.symm

/-- A phase is one bit. -/
def IsPhase (phase : UInt16) : Prop := phase = 0 ∨ phase = 1

theorem nextPhase_eq {i : UInt32} {phase : UInt16} (hi : i.toNat < 32) (hphase : IsPhase phase) :
    IsPhase (if 32 ≤ i + 1 then if phase = 1 then 0 else 1 else phase) ∧
    decide ((if 32 ≤ i + 1 then if phase = 1 then 0 else 1 else phase) = 1) =
      nextPhase 32 i.toNat (decide (phase = 1)) := by
  unfold nextPhase
  by_cases hwrap : i.toNat + 1 < 32
  · rw [if_neg (mt (wraps_iff hi).mp (not_not.mpr hwrap)), if_pos hwrap]
    exact ⟨hphase, rfl⟩
  · rw [if_pos ((wraps_iff hi).mpr hwrap), if_neg hwrap]
    rcases hphase with rfl | rfl
    · exact ⟨.inr rfl, rfl⟩
    · exact ⟨.inl rfl, rfl⟩

theorem and_one_isPhase (x : UInt16) : IsPhase (x &&& 1) := by
  have hle : (x &&& 1).toNat ≤ 1 := by
    rw [UInt16.toNat_and]
    exact Nat.and_le_right
  rcases Nat.le_one_iff_eq_zero_or_eq_one.mp hle with hzero | hone
  · exact .inl (UInt16.toNat_inj.mp hzero)
  · exact .inr (UInt16.toNat_inj.mp hone)

theorem phase_eq_iff {a b : UInt16} (ha : IsPhase a) (hb : IsPhase b) :
    decide (a = 1) = decide (b = 1) ↔ a = b := by
  rcases ha with rfl | rfl <;> rcases hb with rfl | rfl <;> decide

/-! ### The lists -/

/-- The commands that the controller has not taken. -/
def sqList (ctrl : NvmeController) (dev : Device) : List SqEntry :=
  contents ctrl.iosq 32 dev.sqHead.toNat ctrl.iosqTail.toNat

/-- The completions that the driver has not seen. -/
def cqList (ctrl : NvmeController) (dev : Device) : List CqEntry :=
  contents ctrl.iocq 32 ctrl.iocqHead.toNat dev.cqTail.toNat

/-- The phase bit of a completion. -/
def phaseBit (iocq : Nat → CqEntry) (k : Nat) : Bool :=
  decide ((iocq k).status &&& 1 = 1)

structure QueuesInv (ctrl : NvmeController) (dev : Device) : Prop where
  tail_lt : ctrl.iosqTail.toNat < 32
  sqHead_lt : dev.sqHead.toNat < 32
  tdbl : ctrl.sq1Tdbl = ctrl.iosqTail
  hdbl : ctrl.cq1Hdbl = ctrl.iocqHead
  phase : IsPhase dev.phase
  expected : IsPhase ctrl.iocqPhase
  phased : Phased (phaseBit ctrl.iocq) 32 dev.cqTail.toNat ctrl.iocqHead.toNat (decide (dev.phase = 1))
    (decide (ctrl.iocqPhase = 1))

section Queues

variable {ctrl : NvmeController} {dev : Device}

theorem queuesInv_init (disk : Disk) : QueuesInv {} { disk } where
  tail_lt := (by decide : 0 < 32)
  sqHead_lt := (by decide : 0 < 32)
  tdbl := rfl
  hdbl := rfl
  phase := .inr rfl
  expected := .inr rfl
  phased := phased_init (by decide) fun _ _ => (by decide : decide ((0 : UInt16) &&& 1 = 1) = false)

theorem length_sqList : (sqList ctrl dev).length = span 32 dev.sqHead.toNat ctrl.iosqTail.toNat :=
  length_contents

/-- **The driver submits** a command, while the queue has room. -/
theorem submitIoCmd_spec (h : QueuesInv ctrl dev) (hroom : (sqList ctrl dev).length + 1 < 32)
    (cmd : SqEntry) :
    QueuesInv (submitIoCmd ctrl cmd) dev ∧
      sqList (submitIoCmd ctrl cmd) dev = sqList ctrl dev ++ [cmd] ∧
      cqList (submitIoCmd ctrl cmd) dev = cqList ctrl dev := by
  rw [length_sqList] at hroom
  have hnext := toNat_nextIndex h.tail_lt
  refine ⟨⟨?_, h.sqHead_lt, rfl, h.hdbl, h.phase, h.expected, h.phased⟩, ?_, rfl⟩
  · exact hnext ▸ Nat.mod_lt _ (by decide)
  · have hother : contents (submitIoCmd ctrl cmd).iosq 32 dev.sqHead.toNat ctrl.iosqTail.toNat =
        sqList ctrl dev :=
      contents_congr_head h.sqHead_lt h.tail_lt fun k _ hk => Function.update_of_ne hk _ _
    unfold sqList
    rw [show (submitIoCmd ctrl cmd).iosqTail = nextIndex ctrl.iosqTail from rfl, hnext,
      contents_head h.sqHead_lt h.tail_lt hroom, hother]
    congr 2
    exact Function.update_self ..

/-- **The controller takes** the first command. -/
theorem sqList_next (h : QueuesInv ctrl dev) (hne : dev.sqHead ≠ ctrl.sq1Tdbl) (inflight : List SqEntry) :
    let dev' := { dev with sqHead := nextIndex dev.sqHead, inflight }
    QueuesInv ctrl dev' ∧ sqList ctrl dev = ctrl.iosq dev.sqHead.toNat :: sqList ctrl dev' ∧
      cqList ctrl dev' = cqList ctrl dev := by
  have hnext := toNat_nextIndex h.sqHead_lt
  have htail : ctrl.iosqTail.toNat ≠ dev.sqHead.toNat := by
    rw [h.tdbl] at hne
    exact fun heq => hne (UInt32.toNat_inj.mp heq).symm
  refine ⟨⟨h.tail_lt, hnext ▸ Nat.mod_lt _ (by decide), h.tdbl, h.hdbl, h.phase, h.expected, h.phased⟩, ?_,
    rfl⟩
  unfold sqList
  rw [contents_tail h.sqHead_lt h.tail_lt htail]
  dsimp only
  rw [hnext]

theorem cqList_eq_nil_iff (h : QueuesInv ctrl dev) :
    cqList ctrl dev = [] ↔ dev.cqTail.toNat = ctrl.iocqHead.toNat := by
  unfold cqList
  rw [← List.length_eq_zero_iff, length_contents, span_eq_zero_iff h.phased.head_lt h.phased.tail_lt]

theorem phaseBit_iff (h : QueuesInv ctrl dev) :
    (ctrl.iocq ctrl.iocqHead.toNat).status &&& 1 = ctrl.iocqPhase ↔ cqList ctrl dev ≠ [] := by
  have hbit := h.phased.expected_iff
  unfold phaseBit at hbit
  rw [phase_eq_iff (and_one_isPhase _) h.expected] at hbit
  rw [hbit, ne_comm]
  exact not_congr (cqList_eq_nil_iff h).symm

/-- **The driver finds nothing** in an empty queue. -/
theorem processIoCq_nil (h : QueuesInv ctrl dev) (hnil : cqList ctrl dev = []) :
    processIoCq ctrl = (.ok (-1), ctrl) := by
  have hbit : ¬ (ctrl.iocq ctrl.iocqHead.toNat).status &&& 1 = ctrl.iocqPhase := fun heq =>
    (phaseBit_iff h).mp heq hnil
  unfold processIoCq
  dsimp only
  rw [if_neg hbit]

/-- **The driver takes** the first completion. -/
theorem processIoCq_cons (h : QueuesInv ctrl dev) {entry : CqEntry} {rest : List CqEntry}
    (hcons : cqList ctrl dev = entry :: rest) (hok : entry.status >>> 1 = 0) :
    ∃ ctrl', processIoCq ctrl = (.ok entry.commandId.toNat, ctrl') ∧ QueuesInv ctrl' dev ∧
      sqList ctrl' dev = sqList ctrl dev ∧ cqList ctrl' dev = rest := by
  -- the queue is not empty, and the phase bit of the entry at the head shows it
  have hbit := (phaseBit_iff h).mpr (by simp [hcons])
  have hhead := h.phased.head_lt
  have hne : dev.cqTail.toNat ≠ ctrl.iocqHead.toNat := by
    intro heq
    rw [(cqList_eq_nil_iff h).mpr heq] at hcons
    exact nomatch hcons
  have htail : ctrl.iocq ctrl.iocqHead.toNat :: contents ctrl.iocq 32 ((ctrl.iocqHead.toNat + 1) % 32)
      dev.cqTail.toNat = entry :: rest := by
    rw [← hcons, ← contents_tail hhead h.phased.tail_lt hne]
    rfl
  obtain ⟨hentry, hrest⟩ := List.cons_eq_cons.mp htail
  obtain ⟨hphase, hdecide⟩ := nextPhase_eq hhead h.expected
  let ctrl' := { ctrl with
    iocqHead := nextIndex ctrl.iocqHead
    iocqPhase := if 32 ≤ ctrl.iocqHead + 1 then if ctrl.iocqPhase = 1 then 0 else 1 else ctrl.iocqPhase
    cq1Hdbl := nextIndex ctrl.iocqHead }
  refine ⟨ctrl', ?_, ⟨h.tail_lt, h.sqHead_lt, h.tdbl, rfl, h.phase, hphase, ?_⟩, rfl, ?_⟩
  · unfold processIoCq
    dsimp only
    rw [if_pos hbit, hentry, if_neg (not_not.mpr hok)]
  · dsimp only [ctrl']
    rw [hdecide, toNat_nextIndex hhead]
    exact h.phased.consume (Ne.symm hne)
  · unfold cqList
    dsimp only [ctrl']
    rw [toNat_nextIndex hhead, hrest]

/-- **The controller posts** a completion, while the queue has room. -/
theorem cqList_post (h : QueuesInv ctrl dev) (hroom : nextIndex dev.cqTail ≠ ctrl.cq1Hdbl) {entry : CqEntry}
    (hentry : entry.status &&& 1 = dev.phase) (inflight : List SqEntry) (disk : Disk) :
    let ctrl' := { ctrl with iocq := Function.update ctrl.iocq dev.cqTail.toNat entry }
    let dev' : Device := { dev with
      cqTail := nextIndex dev.cqTail
      phase := if 32 ≤ dev.cqTail + 1 then if dev.phase = 1 then 0 else 1 else dev.phase
      inflight, disk }
    QueuesInv ctrl' dev' ∧ sqList ctrl' dev' = sqList ctrl dev ∧ cqList ctrl' dev' =
      cqList ctrl dev ++ [entry] := by
  have hhead := h.phased.head_lt
  have htail := h.phased.tail_lt
  have hnext := toNat_nextIndex htail
  -- the doorbell is the head of the driver
  have hne : (dev.cqTail.toNat + 1) % 32 ≠ ctrl.iocqHead.toNat := by
    rw [← hnext, ← h.hdbl]
    exact fun heq => hroom (UInt32.toNat_inj.mp heq)
  obtain ⟨hphase, hdecide⟩ := nextPhase_eq htail h.phase
  refine ⟨⟨h.tail_lt, h.sqHead_lt, h.tdbl, h.hdbl, hphase, h.expected, ?_⟩, rfl, ?_⟩
  · dsimp only
    rw [hdecide, hnext]
    refine h.phased.produce hne ?_ fun k _ hk => ?_
    · unfold phaseBit
      rw [Function.update_self, hentry]
    · unfold phaseBit
      rw [Function.update_of_ne hk]
  · unfold cqList
    dsimp only
    rw [hnext, contents_head hhead htail (span_succ_lt hhead htail hne), Function.update_self,
      contents_congr_head hhead htail fun k _ hk => Function.update_of_ne hk _ _]

end Queues

end Keuos.Nvme
