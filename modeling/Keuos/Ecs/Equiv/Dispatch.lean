import Keuos.Ecs.Equiv.Handles
import Keuos.Ecs.Equiv.Reclaim
import Keuos.Ecs.Equiv.Scheduler
import Keuos.Lib.Run

/-!
# A thread runs on one core

The scheduler moves threads between three statuses: a tick makes a runnable thread running, a yield and a
block take it from there, and a wakeup or a packet makes a blocked thread runnable.  Each of them looks at the
status first, so that a call for a thread with another status does nothing.

## Main results

* `dispatch_law`: in every run, a thread that a tick returned is not returned by a tick of any core until it
  yields, blocks or is destroyed, and a thread that blocked is not returned until it is woken.
-/

namespace Keuos.Ecs

/-! ### The status of a thread -/

/-- The table of an edit. -/
def Edit.table : Edit → Table
  | .insert t _ _ => t
  | .store t _ _ => t

/-- The status of a thread. -/
def status (w : World) (e : Entity) : Option UInt32 :=
  (getComponent w.threads e).map ThreadState.status

theorem find_modify_self {α : Type} (m : Bindings α) (e : Entity) (f : α → α) :
    (m.modify e f).find e = (m.find e).map f := by
  unfold Bindings.modify Bindings.find
  cases hm : m e.id with
  | none => simp [hm]
  | some p =>
    obtain ⟨gen, c⟩ := p
    by_cases hgen : gen = e.gen
    · simp [hgen]
    · simp [hgen, hm]

section Status

variable {w w' : World} {e x : Entity}

theorem status_store (hw : w.SetsInv) (f : ThreadState → ThreadState) (x e : Entity) :
    status { w with threads := storeThrough w.threads (threadSetGetMut w.threads x) f } e =
      if e = x then (getComponent w.threads e).map fun t => (f t).status else status w e := by
  have hspec := (storeThrough_spec (show w.threads.Inv from hw .thread) x f).2
  unfold status
  dsimp only
  change ((getComponent (storeThrough w.threads (setGet w.threads x) f) e).map _) = _
  rw [getComponent_eq_find, getComponent_eq_find, hspec]
  by_cases heq : e = x
  · subst heq
    rw [if_pos rfl, find_modify_self, Option.map_map]
    rfl
  · rw [if_neg heq, find_modify_of_ne _ (Ne.symm heq)]

theorem setsInv_store (hw : w.SetsInv) (f : ThreadState → ThreadState) (x : Entity) :
    World.SetsInv { w with threads := storeThrough w.threads (threadSetGetMut w.threads x) f } :=
  Edit.setsInv_exec hw (.store .thread x f)

theorem status_moveStatus (hw : w.SetsInv) (x e : Entity) (before after : UInt32) :
    status (moveStatus w x before after) e =
      if e = x ∧ status w e = some before then some after else status w e := by
  unfold moveStatus
  rw [status_store hw]
  by_cases heq : e = x
  · simp only [heq, true_and, if_true]
    unfold status
    cases getComponent w.threads x with
    | none => simp
    | some t =>
      by_cases hstatus : t.status = before
      · simp [hstatus]
      · simp [hstatus]
  · simp only [heq, false_and, if_false]

/-- **A tick picks a runnable thread**, which is running then, or does nothing. -/
theorem tick_cases (hw : w.SetsInv) (coreId : UInt32) :
    schedulerSystemTick w coreId = (⟨invalid, 0⟩, w) ∨
    ∃ e, e.id ≠ invalid ∧ status w e = some threadRunnable ∧ schedulerSystemTick w coreId =
      (e, { w with
        threads := storeThrough w.threads (threadSetGetMut w.threads e) fun t =>
          { t with status := threadRunning } }) := by
  have hspec := scanMin_spec (eligible w coreId · = true) (rowLevel w) 0xFFFFFFFF w.threads.rows
  rcases hspec with ⟨hscan, -⟩ | ⟨i, hscan, -, hmin⟩
  · exact .inl (schedulerSystemTick_of_none hscan)
  · have hmem : i ∈ w.threads.rows := by
      obtain ⟨-, pre, post, hrows, -⟩ := hmin
      simp [hrows]
    have hi := SparseSet.mem_rows.mp hmem
    have hthreads : w.threads.Inv := hw .thread
    have hid : (w.threads.entityMap i).id ≠ invalid :=
      ne_invalid_of_le (UInt32.le_of_lt (hthreads.id_lt i hi))
    refine .inr ⟨w.threads.entityMap i, hid, ?_, ?_⟩
    · unfold status
      rw [getComponent_row hthreads hi, Option.map_some, (eligible_eq_true_iff.mp hmin.holds).1]
    · unfold schedulerSystemTick
      rw [foldl_tickRow_rows, hscan]
      simp [bestOf, hid]

theorem getComponent_edit (hw : w.SetsInv) (edit : Edit) {t : Table}
    (hother : edit.table = t → edit.handle.id ≠ e.id) :
    getComponent ((edit.exec w).table t) e = getComponent (w.table t) e := by
  by_cases htable : edit.table = t
  · exact find_edit_of_id_ne hw edit (hother htable) t
  · cases edit with
    | insert u d c =>
      have hne : t ≠ u := fun heq => htable heq.symm
      rw [Edit.exec, World.table_setTable_of_ne w hne]
    | store u d f =>
      have hne : t ≠ u := fun heq => htable heq.symm
      rw [Edit.exec, World.table_setTable_of_ne w hne]

theorem getComponent_edits (edits : List Edit) (hw : w.SetsInv) {t : Table}
    (hother : ∀ edit ∈ edits, edit.table = t → edit.handle.id ≠ e.id) :
    getComponent ((edits.foldl Edit.exec w).table t) e = getComponent (w.table t) e := by
  induction edits generalizing w with
  | nil => rfl
  | cons edit edits ih =>
    rw [List.foldl_cons, ih (edit.setsInv_exec hw) fun x hx => hother x (List.mem_cons_of_mem _ hx)]
    exact getComponent_edit hw edit (hother edit List.mem_cons_self)

end Status

/-! ### Runs of the scheduler -/

inductive SchedOp where
  | tick (coreId : UInt32)
  | yield (current : Entity)
  | block (current : Entity)
  | wakeup (entity : Entity)
  | deliver (ringEntity : UInt32)
  | call (call : Call)

/-- The world after a call. -/
def SchedOp.exec (w : World) : SchedOp → World
  | .tick coreId => (schedulerSystemTick w coreId).2
  | .yield current => schedulerSystemYield w current
  | .block current => schedulerSystemBlock w current
  | .wakeup entity => schedulerSystemWakeup w entity
  | .deliver ringEntity => (ipcDeliverPacket w ringEntity).2
  | .call c => c.exec w

/-- A call of the bridge, or a command, that stores a thread with the id of `e`. -/
def Stores (e : Entity) (w : World) (call : Call) : Prop :=
  ∃ edit ∈ call.edits w, edit.table = .thread ∧ edit.handle.id = e.id

/-- The thread yields, blocks or is destroyed, or a call stores it. -/
def Releases (e : Entity) (w : World) : SchedOp → Prop
  | .yield x | .block x => x = e
  | .call c => c.event w = some (.destroyed e) ∨ Stores e w c
  | .tick _ | .wakeup _ | .deliver _ => False

/-- The thread is woken, or a call stores it. -/
def Wakes (e : Entity) (w : World) : SchedOp → Prop
  | .wakeup x => x = e
  | .deliver ringEntity => (ipcDeliverPacket w ringEntity).1 = e
  | .call c => Stores e w c
  | .tick _ | .yield _ | .block _ => False

section Steps

variable {w : World} {e : Entity}

theorem setsInv_base (hw : w.SetsInv) (call : Call) : (call.base w).SetsInv := by
  unfold Call.base
  split
  · intro t
    rw [table_worldSpawn]
    exact hw t
  · exact hw.worldDestroy _
  · exact hw

theorem deliver_cases (w : World) (ringEntity : UInt32) :
    ipcDeliverPacket w ringEntity = (⟨invalid, 0⟩, w) ∨
    ∃ x, ipcDeliverPacket w ringEntity = (x, moveStatus w x threadBlocked threadRunnable) := by
  unfold ipcDeliverPacket
  split
  · exact .inl rfl
  · dsimp only
    split
    · exact .inl rfl
    · exact .inr ⟨_, rfl⟩

theorem setsInv_exec (hw : w.SetsInv) (op : SchedOp) : (op.exec w).SetsInv := by
  cases op with
  | tick coreId =>
    change (schedulerSystemTick w coreId).2.SetsInv
    rcases tick_cases hw coreId with htick | ⟨x, -, -, htick⟩
    · rw [htick]
      exact hw
    · rw [htick]
      exact setsInv_store hw _ x
  | yield current => exact setsInv_store hw _ current
  | block current => exact setsInv_store hw _ current
  | wakeup entity => exact setsInv_store hw _ entity
  | deliver ringEntity =>
    change (ipcDeliverPacket w ringEntity).2.SetsInv
    rcases deliver_cases w ringEntity with hdeliver | ⟨x, hdeliver⟩
    · rw [hdeliver]
      exact hw
    · rw [hdeliver]
      exact setsInv_store hw _ x
  | call call =>
    change (call.exec w).SetsInv
    rw [Call.exec_eq]
    exact setsInv_foldl_edits _ (setsInv_base hw call)

theorem status_call (hw : w.SetsInv) (call : Call) (hstores : ¬ Stores e w call) :
    status (call.exec w) e = if call.event w = some (.destroyed e) then none else status w e := by
  have hedits : status (call.exec w) e = status (call.base w) e := by
    have hthreads := getComponent_edits (e := e) (t := .thread) (call.edits w) (setsInv_base hw call)
      fun edit hedit htable hid => hstores ⟨edit, hedit, htable, hid⟩
    unfold status
    rw [Call.exec_eq]
    exact congrArg (Option.map ThreadState.status) hthreads
  rw [hedits]
  unfold Call.base
  split
  case h_1 x hevent =>
    rw [if_neg (by rw [hevent]; simp)]
    rfl
  case h_2 x hevent =>
    have hremove : getComponent (worldDestroy w x).threads e = (w.threads.bindings.remove x).find e := by
      rw [getComponent_eq_find]
      exact congrArg (Bindings.find · e) (setRemove_spec (show w.threads.Inv from hw .thread) x).2
    unfold status
    rw [hevent, hremove]
    by_cases heq : x = e
    · subst heq
      rw [if_pos rfl, find_remove_self]
      rfl
    · rw [if_neg (by simp [heq]), find_remove_of_ne _ heq, getComponent_eq_find]
  case h_3 hevent => rw [if_neg (by rw [hevent]; simp)]

/-- **A running thread** stays so, unless it is released. -/
theorem running_exec (hw : w.SetsInv) (hrun : status w e = some threadRunning) {op : SchedOp}
    (hop : ¬ Releases e w op) : status (op.exec w) e = some threadRunning := by
  have hrunnable : (some threadRunning : Option UInt32) ≠ some threadRunnable := by decide
  have hblocked : (some threadRunning : Option UInt32) ≠ some threadBlocked := by decide
  -- What moves the status of a thread that is not running.
  have hmove : ∀ x after, status (moveStatus w x threadBlocked after) e = some threadRunning := by
    intro x after
    rw [status_moveStatus hw, if_neg fun h => hblocked (hrun.symm.trans h.2), hrun]
  -- What moves the status of another thread.
  have hother : ∀ x before after, ¬ x = e → status (moveStatus w x before after) e = some threadRunning := by
    intro x before after hne
    rw [status_moveStatus hw, if_neg fun h => hne h.1.symm, hrun]
  cases op with
  | tick coreId =>
    change status (schedulerSystemTick w coreId).2 e = _
    rcases tick_cases hw coreId with htick | ⟨x, -, hx, htick⟩
    · rw [htick]
      exact hrun
    · have hne : e ≠ x := by
        rintro rfl
        exact hrunnable (hrun.symm.trans hx)
      rw [htick]
      dsimp only
      rw [status_store hw, if_neg hne, hrun]
  | yield current => exact hother current _ _ hop
  | block current => exact hother current _ _ hop
  | wakeup entity => exact hmove entity _
  | deliver ringEntity =>
    change status (ipcDeliverPacket w ringEntity).2 e = _
    rcases deliver_cases w ringEntity with hdeliver | ⟨x, hdeliver⟩
    · rw [hdeliver]
      exact hrun
    · rw [hdeliver]
      exact hmove x _
  | call call =>
    obtain ⟨hevent, hstores⟩ := not_or.mp hop
    change status (call.exec w) e = _
    rw [status_call hw call hstores, if_neg hevent, hrun]

/-- The thread is neither runnable nor running. -/
def Asleep (w : World) (e : Entity) : Prop :=
  status w e ≠ some threadRunnable ∧ status w e ≠ some threadRunning

/-- **A thread that sleeps** goes on sleeping, unless it is woken. -/
theorem asleep_exec (hw : w.SetsInv) (hsleep : Asleep w e) {op : SchedOp} (hop : ¬ Wakes e w op) :
    Asleep (op.exec w) e := by
  obtain ⟨hrunnable, hrunning⟩ := hsleep
  have hsame : ∀ {w'}, status w' e = status w e → Asleep w' e := by
    intro w' heq
    unfold Asleep
    rw [heq]
    exact ⟨hrunnable, hrunning⟩
  -- What moves the status of a thread that is running.
  have hmove : ∀ x after, Asleep (moveStatus w x threadRunning after) e := fun x after =>
    hsame (by rw [status_moveStatus hw, if_neg fun h => hrunning h.2])
  -- What moves the status of another thread.
  have hother : ∀ x before after, ¬ x = e → Asleep (moveStatus w x before after) e :=
    fun x before after hne => hsame (by rw [status_moveStatus hw, if_neg fun h => hne h.1.symm])
  cases op with
  | tick coreId =>
    change Asleep (schedulerSystemTick w coreId).2 e
    rcases tick_cases hw coreId with htick | ⟨x, -, hx, htick⟩
    · rw [htick]
      exact ⟨hrunnable, hrunning⟩
    · have hne : e ≠ x := by
        rintro rfl
        exact hrunnable hx
      rw [htick]
      exact hsame (by rw [status_store hw, if_neg hne])
  | yield current => exact hmove current _
  | block current => exact hmove current _
  | wakeup entity => exact hother entity _ _ hop
  | deliver ringEntity =>
    change Asleep (ipcDeliverPacket w ringEntity).2 e
    change ¬ (ipcDeliverPacket w ringEntity).1 = e at hop
    rcases deliver_cases w ringEntity with hdeliver | ⟨x, hdeliver⟩
    · rw [hdeliver]
      exact ⟨hrunnable, hrunning⟩
    · rw [hdeliver] at hop ⊢
      exact hother x _ _ hop
  | call call =>
    change Asleep (call.exec w) e
    by_cases hevent : call.event w = some (.destroyed e)
    · have hnone := status_call hw call hop
      rw [if_pos hevent] at hnone
      unfold Asleep
      rw [hnone]
      exact ⟨nofun, nofun⟩
    · exact hsame (by rw [status_call hw call hop, if_neg hevent])

end Steps

/-! ### The law -/

section Law

variable {w : World} {e : Entity} {ops : List SchedOp}

theorem tick_ne (hw : w.SetsInv) (hid : e.id ≠ invalid) (h : status w e ≠ some threadRunnable)
    (coreId : UInt32) :
    (schedulerSystemTick w coreId).1 ≠ e := by
  rcases tick_cases hw coreId with htick | ⟨x, -, hx, htick⟩
  · rw [htick]
    rintro rfl
    exact hid rfl
  · rw [htick]
    rintro rfl
    exact h hx

theorem tick_ne_of_running (hw : w.SetsInv) (hid : e.id ≠ invalid) (hrun : status w e = some threadRunning)
    (hops : Admissible SchedOp.exec (fun w op => ¬ Releases e w op) w ops) (coreId : UInt32) :
    (schedulerSystemTick (runOps SchedOp.exec w ops) coreId).1 ≠ e := by
  have hend : (runOps SchedOp.exec w ops).SetsInv ∧ status (runOps SchedOp.exec w ops) e =
      some threadRunning :=
    runOps_induction (I := fun w => w.SetsInv ∧ status w e = some threadRunning)
      (fun w op h hop => ⟨setsInv_exec h.1 op, running_exec h.1 h.2 hop⟩) ⟨hw, hrun⟩ hops
  refine tick_ne hend.1 hid ?_ coreId
  rw [hend.2]
  decide

theorem tick_ne_of_asleep (hw : w.SetsInv) (hid : e.id ≠ invalid) (hsleep : Asleep w e)
    (hops : Admissible SchedOp.exec (fun w op => ¬ Wakes e w op) w ops) (coreId : UInt32) :
    (schedulerSystemTick (runOps SchedOp.exec w ops) coreId).1 ≠ e := by
  have hend : (runOps SchedOp.exec w ops).SetsInv ∧ Asleep (runOps SchedOp.exec w ops) e :=
    runOps_induction (I := fun w => w.SetsInv ∧ Asleep w e)
      (fun w op h hop => ⟨setsInv_exec h.1 op, asleep_exec h.1 h.2 hop⟩) ⟨hw, hsleep⟩ hops
  exact tick_ne hend.1 hid hend.2.1 coreId

theorem id_ne_invalid_of_status (hw : w.SetsInv) {v : UInt32} (h : status w e = some v) : e.id ≠ invalid := by
  obtain ⟨t, ht, -⟩ := Option.map_eq_some_iff.mp h
  have hthreads : w.threads.Inv := hw .thread
  obtain ⟨i, hi, hentity, -⟩ := row_of_getComponent hthreads ht
  rw [← hentity]
  exact ne_invalid_of_le (UInt32.le_of_lt (hthreads.id_lt i hi))

theorem running_tick (hw : w.SetsInv) {coreId : UInt32}
    (hid : (schedulerSystemTick w coreId).1.id ≠ invalid) :
    (schedulerSystemTick w coreId).2.SetsInv ∧
      status (schedulerSystemTick w coreId).2 (schedulerSystemTick w coreId).1 = some threadRunning := by
  rcases tick_cases hw coreId with htick | ⟨x, -, hx, htick⟩
  · rw [htick] at hid
    exact absurd rfl hid
  · rw [htick]
    refine ⟨setsInv_store hw _ x, ?_⟩
    dsimp only
    rw [status_store hw, if_pos rfl]
    unfold status at hx
    cases hthread : getComponent w.threads x with
    | none =>
      rw [hthread] at hx
      exact nomatch hx
    | some t => rfl

/-- **No thread runs on two cores, and none runs that sleeps.**  What a tick returned is not returned by a
tick of any core until it is released; and a running thread that blocks is not returned until it is woken. -/
theorem dispatch_law (hw : w.SetsInv) (coreId : UInt32) :
    ((schedulerSystemTick w coreId).1.id ≠ invalid →
      Admissible SchedOp.exec (fun w' op => ¬ Releases (schedulerSystemTick w coreId).1 w' op)
        (schedulerSystemTick w coreId).2 ops →
      ∀ coreId', (schedulerSystemTick (runOps SchedOp.exec (schedulerSystemTick w coreId).2 ops) coreId').1 ≠
        (schedulerSystemTick w coreId).1) ∧
    (status w e = some threadRunning →
      Admissible SchedOp.exec (fun w op => ¬ Wakes e w op) (schedulerSystemBlock w e) ops →
      ∀ coreId', (schedulerSystemTick (runOps SchedOp.exec (schedulerSystemBlock w e) ops) coreId').1 ≠
          e) := by
  refine ⟨fun hid hops coreId' => ?_, fun hrun hops coreId' => ?_⟩
  · obtain ⟨hset, hrun⟩ := running_tick hw hid
    exact tick_ne_of_running hset hid hrun hops coreId'
  · have hset : (schedulerSystemBlock w e).SetsInv := setsInv_store hw _ e
    have hblocked : status (schedulerSystemBlock w e) e = some threadBlocked := by
      unfold schedulerSystemBlock
      rw [status_moveStatus hw, if_pos ⟨rfl, hrun⟩]
    have hsleep : Asleep (schedulerSystemBlock w e) e := by
      unfold Asleep
      rw [hblocked]
      decide
    exact tick_ne_of_asleep hset (id_ne_invalid_of_status hw hrun) hsleep hops coreId'

/-- Another core ticks and a packet comes, while the one thread runs. -/
theorem dispatch_law_oneThread :
    (schedulerSystemTick (runOps SchedOp.exec (schedulerSystemTick (oneThread 3) 0).2 [.tick 1, .deliver 0])
      2).1 ≠
      ⟨0, 1⟩ := by
  refine (dispatch_law (e := ⟨0, 1⟩) (setsInv_oneThread 3) 0).1 (by decide) ?_ 2
  exact ⟨id, id, trivial⟩

end Law

end Keuos.Ecs
