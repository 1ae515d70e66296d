import Keuos.Ecs.Equiv.StaleHandles
import Mathlib.Data.List.TakeDrop

/-!
# Deferred commands

`commands_push` and `commands_apply` as a machine that takes one step at a time, so that commands are also
pushed while `commands_apply` runs.  A run is compared with the list of the commands pushed in each of its
periods, where a period ends when `commands_apply` swaps the buffers.

## Main results

* `pending_push`: a push appends to the pending commands, up to 4096 of them.
* `step_tracks`: what the machine holds follows from what was pushed in each period.
* `finished_apply`: `commands_apply` of `World.lean` is a run of the machine.
* `world_run`: **every accepted command is executed once, in order**, and by the `commands_apply` that follows
  its push.
-/

namespace Keuos.Ecs

/-! ### The machine -/

/-- The locals of `commands_apply` in its loop. -/
structure Loop where
  i : UInt32
  count : UInt32

/-- The queue, the world, and the `commands_apply` that is running. -/
structure Machine where
  cmds : Commands
  world : World
  loop : Option Loop

/-- What happens next. -/
inductive Action where
  /-- `commands_push`. -/
  | push (cmd : Command)
  /-- `commands_apply` swaps the buffers and takes the count. -/
  | swap
  /-- A round of the loop of `commands_apply`. -/
  | round
  /-- The loop of `commands_apply` ends. -/
  | finish

def commandsPendingCount (cmds : Commands) : UInt32 := cmds.count

def commandsIsEmpty (cmds : Commands) : Bool := cmds.count == 0

/-- The swap, and the reset of the count. -/
def Commands.swap (cmds : Commands) : Commands :=
  ⟨cmds.backBuffer, cmds.activeBuffer, 0⟩

/-- A step, if it can be taken. -/
def Machine.step (m : Machine) : Action → Option Machine
  | .push cmd => some { m with cmds := commandsPush m.cmds cmd }
  | .swap =>
    match m.loop with
    | none => some { m with cmds := m.cmds.swap, loop := some ⟨0, m.cmds.count⟩ }
    | some _ => none
  | .round =>
    match m.loop with
    | none => none
    | some l =>
      if l.i < l.count then
        some { m with
          world := applyCommand m.world (m.cmds.backBuffer l.i)
          loop := some ⟨l.i + 1, l.count⟩ }
      else none
  | .finish =>
    match m.loop with
    | none => none
    | some l => if l.i < l.count then none else some { m with loop := none }

/-- The steps of a list, one after the other. -/
def Machine.run (m : Machine) (as : List Action) : Option Machine :=
  as.foldlM Machine.step m

/-- The machine before the first step. -/
def Machine.start (active back : UInt32 → Command) (w : World) : Machine :=
  ⟨newCommands active back, w, none⟩

/-! ### Periods -/

/-- The commands pushed so far: those of the periods that have ended, and those of the present one. -/
structure Pushed where
  ended : List (List Command)
  present : List Command

def Pushed.step (p : Pushed) : Action → Pushed
  | .push cmd => { p with present := p.present ++ [cmd] }
  | .swap => ⟨p.ended ++ [p.present], []⟩
  | .round => p
  | .finish => p

/-- The commands that the steps push. -/
def pushed (as : List Action) : Pushed :=
  as.foldl Pushed.step ⟨[], []⟩

/-- The first 4096 commands pushed in a period are accepted. -/
def accepted (period : List Command) : List Command :=
  period.take 4096

/-- Execute commands one at a time. -/
def execute (w : World) (cmds : List Command) : World :=
  cmds.foldl applyCommand w

/-- Execute the accepted commands of one period after the other. -/
def executeAll (w : World) (periods : List (List Command)) : World :=
  periods.foldl (fun w period => execute w (accepted period)) w

/-! ### The queue -/

section Queue

variable (cmds : Commands) (cmd : Command)

theorem toNat_maxCommands : maxCommands.toNat = 4096 := rfl

/-- The first `n` entries of a buffer. -/
def entries (buffer : UInt32 → Command) (n : Nat) : List Command :=
  (List.range n).map fun i => buffer (UInt32.ofNat i)

theorem pending_eq : cmds.pending = entries cmds.activeBuffer cmds.count.toNat := rfl

@[simp] theorem length_entries (buffer : UInt32 → Command) (n : Nat) : (entries buffer n).length = n := by
  simp [entries]

theorem entries_succ (buffer : UInt32 → Command) (n : Nat) :
    entries buffer (n + 1) = entries buffer n ++ [buffer (UInt32.ofNat n)] := by
  simp [entries, List.range_succ]

theorem entries_update (buffer : UInt32 → Command) (c : UInt32) :
    entries (Function.update buffer c cmd) (c.toNat + 1) = entries buffer c.toNat ++ [cmd] := by
  have hlt := c.toNat_lt
  have hrest : entries (Function.update buffer c cmd) c.toNat = entries buffer c.toNat := by
    apply List.map_congr_left
    intro i hi
    rw [List.mem_range] at hi
    apply Function.update_of_ne
    intro heq
    rw [← UInt32.toNat_inj, UInt32.toNat_ofNat', Nat.mod_eq_of_lt (by omega)] at heq
    omega
  rw [entries_succ, hrest, UInt32.ofNat_toNat, Function.update_self]

theorem commandsPush_of_lt (h : cmds.count < maxCommands) : commandsPush cmds cmd =
    { cmds with
      activeBuffer := Function.update cmds.activeBuffer cmds.count cmd
      count := cmds.count + 1 } :=
  if_pos h

theorem commandsPush_of_ge (h : ¬ cmds.count < maxCommands) : commandsPush cmds cmd = cmds :=
  if_neg h

theorem backBuffer_push : (commandsPush cmds cmd).backBuffer = cmds.backBuffer := by
  by_cases h : cmds.count < maxCommands
  · rw [commandsPush_of_lt cmds cmd h]
  · rw [commandsPush_of_ge cmds cmd h]

variable {cmds} {period : List Command}

theorem count_eq (h : cmds.pending = accepted period) : cmds.count.toNat = (accepted period).length := by
  rw [← h, pending_eq, length_entries]

theorem isEmpty_iff (h : cmds.pending = accepted period) :
    commandsIsEmpty cmds = true ↔ accepted period = [] := by
  rw [commandsIsEmpty, beq_iff_eq, ← UInt32.toNat_inj, count_eq h, ← List.length_eq_zero_iff]
  rfl

/-- **A push appends to the pending commands**, unless 4096 of them are waiting. -/
theorem pending_push (h : cmds.pending = accepted period) :
    (commandsPush cmds cmd).pending = accepted (period ++ [cmd]) := by
  have hcount : cmds.count.toNat = min 4096 period.length := by
    rw [count_eq h, accepted, List.length_take]
  rw [pending_eq, accepted] at h
  by_cases hlt : cmds.count < maxCommands
  · have hlt' := UInt32.lt_iff_toNat_lt.mp hlt
    rw [toNat_maxCommands] at hlt'
    have hsucc : (cmds.count + 1).toNat = cmds.count.toNat + 1 := by
      rw [UInt32.toNat_add, UInt32.toNat_one]
      omega
    rw [commandsPush_of_lt cmds cmd hlt, accepted, pending_eq, hsucc, entries_update, h,
      List.take_of_length_le (by omega),
      List.take_of_length_le (by rw [List.length_append, List.length_singleton]; omega)]
  · have hge : ¬ cmds.count.toNat < 4096 := fun h => hlt (UInt32.lt_iff_toNat_lt.mpr h)
    rw [commandsPush_of_ge cmds cmd hlt, accepted, pending_eq, h, List.take_append_of_le_length (by omega)]

end Queue

/-! ### What the machine holds -/

/-- The world of the machine: between two runs of `commands_apply` all periods that have ended are executed,
and in the loop the last one only up to the present round. -/
def Machine.Executed (w₀ : World) (ended : List (List Command)) (m : Machine) : Prop :=
  match m.loop with
  | none => m.world = executeAll w₀ ended
  | some l => ∃ before last, ended = before ++ [last] ∧
      entries m.cmds.backBuffer l.count.toNat = accepted last ∧ l.i.toNat ≤ l.count.toNat ∧
      m.world = execute (executeAll w₀ before) ((accepted last).take l.i.toNat)

/-- The machine holds what the pushes of the periods say. -/
structure Tracks (w₀ : World) (p : Pushed) (m : Machine) : Prop where
  pending : m.cmds.pending = accepted p.present
  executed : m.Executed w₀ p.ended

section Steps

variable {w₀ : World} {p : Pushed} {m m' : Machine}

theorem executeAll_append (before : List (List Command)) (last : List Command) :
    executeAll w₀ (before ++ [last]) = execute (executeAll w₀ before) (accepted last) := by
  unfold executeAll
  rw [List.foldl_append]
  rfl

theorem execute_take_succ (w : World) {cmds : List Command} {i : Nat} (hi : i < cmds.length) :
    execute w (cmds.take (i + 1)) = applyCommand (execute w (cmds.take i)) cmds[i] := by
  unfold execute
  rw [List.take_succ_eq_append_getElem hi, List.foldl_append]
  rfl

/-- **A step keeps the account.** -/
theorem step_tracks {a : Action} (h : Tracks w₀ p m) (hstep : m.step a = some m') :
    Tracks w₀ (p.step a) m' := by
  obtain ⟨hpending, hexec⟩ := h
  obtain ⟨cmds, world, loop⟩ := m
  cases a with
  | push cmd =>
    cases hstep
    refine ⟨pending_push cmd hpending, ?_⟩
    unfold Machine.Executed at hexec ⊢
    cases loop with
    | none => exact hexec
    | some l =>
      -- a push goes to the back buffer, which the loop no longer reads
      obtain ⟨before, last, hended, hentries, hle, hworld⟩ := hexec
      exact ⟨before, last, hended, by rw [backBuffer_push]; exact hentries, hle, hworld⟩
  | swap =>
    cases loop with
    | some l => cases hstep
    | none =>
      cases hstep
      refine ⟨rfl, p.ended, p.present, rfl, ?_, Nat.zero_le _, ?_⟩
      · rw [pending_eq] at hpending
        exact hpending
      · have hworld : world = executeAll w₀ p.ended := hexec
        rw [hworld]
        rfl
  | round =>
    cases loop with
    | none => cases hstep
    | some l =>
      simp only [Machine.step, Option.ite_none_right_eq_some, Option.some.injEq] at hstep
      obtain ⟨hlt, rfl⟩ := hstep
      obtain ⟨before, last, hended, hentries, -, hworld⟩ := hexec
      have hlt' := UInt32.lt_iff_toNat_lt.mp hlt
      have hcount := l.count.toNat_lt
      have hsucc : (l.i + 1).toNat = l.i.toNat + 1 := by
        rw [UInt32.toNat_add, UInt32.toNat_one]
        omega
      have hlength : l.i.toNat < (accepted last).length := by
        rw [← hentries, length_entries]
        exact hlt'
      -- the round executes the next command of the period
      have hnext : (accepted last)[l.i.toNat] = cmds.backBuffer l.i := by
        simp [← hentries, entries]
      have hle : (l.i + 1).toNat ≤ l.count.toNat := by omega
      refine ⟨hpending, before, last, hended, hentries, hle, ?_⟩
      rw [hsucc, execute_take_succ _ hlength, hnext]
      exact congrArg (applyCommand · _) hworld
  | finish =>
    cases loop with
    | none => cases hstep
    | some l =>
      simp only [Machine.step, Option.ite_none_left_eq_some, Option.some.injEq] at hstep
      obtain ⟨hge, rfl⟩ := hstep
      obtain ⟨before, last, hended, hentries, hle, hworld⟩ := hexec
      refine ⟨hpending, ?_⟩
      -- the loop has executed the whole period
      have hall : (accepted last).length ≤ l.i.toNat := by
        rw [← hentries, length_entries]
        exact Nat.le_of_not_lt fun h => hge (UInt32.lt_iff_toNat_lt.mpr h)
      rw [List.take_of_length_le hall] at hworld
      show world = executeAll w₀ p.ended
      rw [hended, executeAll_append]
      exact hworld

theorem start_tracks (active back : UInt32 → Command) (w₀ : World) :
    Tracks w₀ ⟨[], []⟩ (Machine.start active back w₀) :=
  ⟨rfl, rfl⟩

/-- **A run keeps the account.** -/
theorem run_tracks {as : List Action} (h : Tracks w₀ p m) (hrun : m.run as = some m') :
    Tracks w₀ (as.foldl Pushed.step p) m' := by
  induction as generalizing p m with
  | nil =>
    cases hrun
    exact h
  | cons a as ih =>
    obtain ⟨m₁, hstep, hrest⟩ := Option.bind_eq_some_iff.mp hrun
    exact ih (step_tracks h hstep) hrest

/-! ### A whole `commands_apply` -/

theorem run_append (m : Machine) (as as' : List Action) :
    m.run (as ++ as') = (m.run as).bind (Machine.run · as') :=
  List.foldlM_append

theorem run_rounds (cmds : Commands) (w : World) (count : UInt32) {n : Nat} (hn : n ≤ count.toNat) :
    (Machine.mk cmds w (some ⟨0, count⟩)).run (List.replicate n .round) =
      some ⟨cmds, execute w (entries cmds.backBuffer n), some ⟨UInt32.ofNat n, count⟩⟩ := by
  induction n with
  | zero => rfl
  | succ n ih =>
    have hcount := count.toNat_lt
    have hlt : UInt32.ofNat n < count := by
      rw [UInt32.lt_iff_toNat_lt, UInt32.toNat_ofNat', Nat.mod_eq_of_lt (by omega)]
      omega
    have hsucc : UInt32.ofNat n + 1 = UInt32.ofNat (n + 1) := by
      rw [← UInt32.toNat_inj, UInt32.toNat_add, UInt32.toNat_ofNat', UInt32.toNat_ofNat', UInt32.toNat_one]
      omega
    have hlast : execute w (entries cmds.backBuffer (n + 1)) =
        applyCommand (execute w (entries cmds.backBuffer n)) (cmds.backBuffer (UInt32.ofNat n)) := by
      unfold execute
      rw [entries_succ, List.foldl_append]
      rfl
    rw [List.replicate_succ', run_append, ih (by omega), hlast]
    show Machine.step _ .round >>= _ = _
    simp only [Machine.step, hlt, if_true, hsucc]
    rfl

/-- **Nothing stops a `commands_apply`**, and without a push in between it is the function of `World.lean`. -/
theorem finished_apply (cmds : Commands) (w : World) :
    (Machine.mk cmds w none).run (.swap :: (List.replicate cmds.count.toNat .round ++ [.finish])) =
      some ⟨(commandsApply cmds w).1, (commandsApply cmds w).2, none⟩ := by
  have hrounds := run_rounds cmds.swap w cmds.count (Nat.le_refl _)
  rw [UInt32.ofNat_toNat] at hrounds
  show (Machine.mk cmds.swap w (some ⟨0, cmds.count⟩)).run _ = _
  rw [run_append, hrounds]
  show Machine.step _ .finish >>= _ = _
  simp only [Machine.step, UInt32.lt_irrefl, if_false]
  rfl

end Steps

/-- **Deferred commands are applied exactly once, in order.**  In every run, with pushes at any time except
in the middle of the swap, `commands_pending_count` is the number of the commands accepted in the present
period, and these are the ones that wait.  Whenever no `commands_apply` is running, the world is the one that
results from executing the accepted commands of every ended period, one at a time in the order of their
pushes; and while one is running, those of the last ended period are executed up to its present round. -/
theorem world_run (active back : UInt32 → Command) (w₀ : World) {as : List Action} {m : Machine}
    (hrun : (Machine.start active back w₀).run as = some m) :
    (commandsPendingCount m.cmds).toNat = (accepted (pushed as).present).length ∧
      (commandsIsEmpty m.cmds = true ↔ accepted (pushed as).present = []) ∧
      m.cmds.pending = accepted (pushed as).present ∧
      (m.loop = none → m.world = executeAll w₀ (pushed as).ended) ∧
      ∀ l, m.loop = some l → ∃ before last, (pushed as).ended = before ++ [last] ∧
        l.count.toNat = (accepted last).length ∧ l.i.toNat ≤ l.count.toNat ∧
        m.world = execute (executeAll w₀ before) ((accepted last).take l.i.toNat) := by
  obtain ⟨hpending, hexec⟩ := run_tracks (start_tracks active back w₀) hrun
  refine ⟨count_eq hpending, isEmpty_iff hpending, hpending, fun hidle => ?_, fun l hl => ?_⟩
  · unfold Machine.Executed at hexec
    rw [hidle] at hexec
    exact hexec
  · unfold Machine.Executed at hexec
    rw [hl] at hexec
    obtain ⟨before, last, hended, hentries, hle, hworld⟩ := hexec
    refine ⟨before, last, hended, ?_, hle, hworld⟩
    rw [← hentries, length_entries]

/-- Two commands are pushed and applied, and a third one is pushed in between. -/
def threeCommands : List Action :=
  [.push (updatePriority ⟨0, 1⟩), .push (updatePriority ⟨1, 1⟩), .swap, .round, .push (updatePriority ⟨2, 1⟩),
    .round, .finish]

theorem world_run_threeCommands :
    ∃ m, (Machine.start (fun _ => updatePriority ⟨0, 1⟩) (fun _ => updatePriority ⟨0, 1⟩)
        (newWorld zeroBlocks)).run threeCommands = some m ∧ m.cmds.pending = [updatePriority ⟨2, 1⟩] ∧
      m.world = executeAll (newWorld zeroBlocks) [[updatePriority ⟨0, 1⟩, updatePriority ⟨1, 1⟩]] := by
  have hrun : (Machine.start (fun _ => updatePriority ⟨0, 1⟩) (fun _ => updatePriority ⟨0, 1⟩)
      (newWorld zeroBlocks)).run threeCommands = some _ := rfl
  obtain ⟨-, -, hpending, hworld, -⟩ := world_run _ _ _ hrun
  exact ⟨_, hrun, hpending, hworld rfl⟩

end Keuos.Ecs
