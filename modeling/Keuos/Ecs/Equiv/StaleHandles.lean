import Keuos.Ecs.Equiv.World

/-!
# Calls through a stale handle

Let `d` be a destroyed handle and `e` a live entity, in any state of a sound run.  A get, a remove
or a destroy through `d` compares generations and so leaves `e` alone.  An insert does not compare:
when `e` reuses the id of `d`, an insert through `d` stores the generation of `d` over that of `e`,
and the component of `e` is no longer found.  `stale_call_harmless_iff` says that this is all that
can go wrong.
-/

namespace Keuos.Ecs

/-- Nothing that the sets and the allocator say about `e` differs between the two worlds. -/
def Unaffected (w w' : World) (e : Entity) : Prop :=
  (∀ t, getComponent (w'.table t) e = getComponent (w.table t) e) ∧
    worldIsAlive w' e = worldIsAlive w e

/-- The call inserts over a component of `e`. -/
def Overwrites (w : World) (d : Entity) (call : Call) (e : Entity) : Prop :=
  d.id = e.id ∧ ∃ t, call.inserts = some t ∧ getComponent (w.table t) e ≠ none

/-! ### The parts of a call -/

theorem worldIsAlive_congr {w w' : World} (h : w'.alloc.generations = w.alloc.generations)
    (e : Entity) : worldIsAlive w' e = worldIsAlive w e := by
  unfold worldIsAlive entityAllocatorIsAlive
  rw [h]

theorem unaffected_of_spawn {s : Life} (h : s.Inv) {e : Entity} (he : s.phase e = .live)
    (edits : List Edit) (hedits : ∀ x ∈ edits, x.handle = (worldSpawn s.world).1) :
    Unaffected s.world (edits.foldl Edit.exec (worldSpawn s.world).2) e := by
  have hsets : (worldSpawn s.world).2.SetsInv := fun t => by
    rw [table_worldSpawn]
    exact h.sets t
  have hid : ∀ x ∈ edits, x.handle.id ≠ e.id := by
    intro x hx heq
    rw [hedits x hx] at heq
    rcases allocate_spec h.tracks.inv with ⟨hinv, -⟩ | ⟨-, ha⟩
    · -- the invalid handle of a failed spawn has no id that an entity has
      have hlt := h.tracks.id_lt_maxEntities (h.tracks.live_lt e he)
      exact ne_invalid_of_le (UInt32.le_of_lt hlt) (heq ▸ hinv)
    · exact h.tracks.id_ne_of_allocated ha he heq.symm
  refine ⟨?_, ?_⟩
  · intro t
    rw [find_foldl_edits_of_id_ne edits hsets hid t, table_worldSpawn]
  · apply worldIsAlive_congr
    rw [alloc_foldl_edits]
    rcases allocate_spec h.tracks.inv with ⟨-, ha⟩ | ⟨-, ha⟩
    · exact congrArg EntityAllocator.generations ha
    · exact ha.generations

theorem unaffected_of_destroy {s : Life} (h : s.Inv) {d e : Entity}
    (hd : s.phase d = .destroyed) (hne : d ≠ e) :
    Unaffected s.world (worldDestroy s.world d) e := by
  refine ⟨?_, ?_⟩
  · intro t
    rw [table_worldDestroy, getComponent_eq_find, getComponent_eq_find,
      (setRemove_spec (h.sets t) d).2]
    exact find_remove_of_ne _ hne
  · apply worldIsAlive_congr
    exact congrArg EntityAllocator.generations
      (entityAllocatorFree_of_not_alive (h.tracks.not_alive_of_destroyed hd))

theorem unaffected_of_store {w : World} (h : w.SetsInv) {d e : Entity} (hne : d ≠ e) (t : Table)
    (f : t.Component → t.Component) : Unaffected w (Edit.exec w (.store t d f)) e := by
  refine ⟨?_, worldIsAlive_congr (by rw [Edit.alloc_exec]) e⟩
  intro u
  by_cases hu : u = t
  · subst hu
    rw [Edit.exec, World.table_setTable_self, getComponent_eq_find, getComponent_eq_find,
      (storeThrough_spec (h u) d f).2]
    exact find_modify_of_ne _ hne f
  · rw [Edit.exec, World.table_setTable_of_ne w hu]

/-- An insert through another handle hides the component that `e` has in that table when the ids
agree, and changes nothing else. -/
theorem unaffected_of_insert_iff {w : World} (h : w.SetsInv) {d e : Entity}
    (hlt : d.id < maxEntities) (hne : d ≠ e) (t : Table) (c : t.Component) :
    Unaffected w (Edit.exec w (.insert t d c)) e ↔
      ¬ (d.id = e.id ∧ getComponent (w.table t) e ≠ none) := by
  have hother : ∀ u, u ≠ t →
      getComponent ((Edit.exec w (.insert t d c)).table u) e = getComponent (w.table u) e := by
    intro u hu
    rw [Edit.exec, World.table_setTable_of_ne w hu]
  by_cases hid : d.id = e.id
  · have hgen : d.gen ≠ e.gen := by
      intro hgen
      exact hne (by cases d; cases e; simp_all)
    have hnone : getComponent ((Edit.exec w (.insert t d c)).table t) e = none := by
      rw [Edit.exec, World.table_setTable_self, getComponent_eq_find, (setInsert_spec (h t) d c).2]
      exact find_insert_of_gen_ne _ hlt hid hgen c
    constructor
    · rintro ⟨hsame, -⟩ ⟨-, hsome⟩
      rw [← hsame t, hnone] at hsome
      exact hsome rfl
    · intro hnot
      have hbefore : getComponent (w.table t) e = none := by
        by_contra hsome
        exact hnot ⟨hid, hsome⟩
      refine ⟨?_, worldIsAlive_congr (by rw [Edit.alloc_exec]) e⟩
      intro u
      by_cases hu : u = t
      · subst hu
        rw [hnone, hbefore]
      · exact hother u hu
  · constructor
    · rintro - ⟨heq, -⟩
      exact hid heq
    · intro _
      exact ⟨find_edit_of_id_ne h (.insert t d c) hid,
        worldIsAlive_congr (by rw [Edit.alloc_exec]) e⟩

/-! ### The calls through a handle -/

theorem exec_of_inserts (w : World) {d : Entity} {call : Call} (hthrough : call.Through d)
    {t : Table} (ht : call.inserts = some t) :
    ∃ c, call.exec w = Edit.exec w (.insert t d c) := by
  cases call with
  | command cmd =>
    obtain rfl : cmd.target = d := hthrough
    simp only [Call.inserts, Command.inserts] at ht
    simp only [Call.exec, applyCommand]
    split_ifs at ht with h₁ h₂ h₃ h₄ h₅
    all_goals
      obtain rfl := Option.some.inj ht
      simp only [beq_iff_eq] at *
      simp_all [cmdSpawnThread, cmdUpdatePriority, cmdUpdateState, cmdDestroyEntity,
        cmdGrantIpcCap, cmdSetAffinity, cmdSetMemoryMap, cmdOpenSocket]
      exact ⟨_, rfl⟩
  | grantMemoryMap val pml4Phys size =>
    obtain rfl : entityOf val = d := hthrough
    obtain rfl := Option.some.inj ht
    exact ⟨_, rfl⟩
  | grantIpcCap val ringPhys proofHint peerId dir =>
    obtain rfl : entityOf val = d := hthrough
    obtain rfl := Option.some.inj ht
    exact ⟨_, rfl⟩
  | grantOpenSocket val lp rp rip state ringEid =>
    obtain rfl : entityOf val = d := hthrough
    obtain rfl := Option.some.inj ht
    exact ⟨_, rfl⟩
  | storeName val namePtr nameLen =>
    obtain rfl : entityOf val = d := hthrough
    obtain rfl := Option.some.inj ht
    exact ⟨_, rfl⟩
  | retireEntity currentEpoch epochMarks entity =>
    obtain rfl : entity = d := hthrough
    obtain rfl := Option.some.inj ht
    exact ⟨_, rfl⟩
  | _ => simp [Call.inserts] at ht

theorem unaffected_of_inserts_eq_none {s : Life} (h : s.Inv) {d e : Entity} {call : Call}
    (hd : s.phase d = .destroyed) (he : s.phase e = .live) (hthrough : call.Through d)
    (hnone : call.inserts = none) : Unaffected s.world (call.exec s.world) e := by
  have hne : d ≠ e := by
    rintro rfl
    rw [hd] at he
    exact Phase.noConfusion he
  cases call with
  | command cmd =>
    obtain rfl : cmd.target = d := hthrough
    simp only [Call.exec, applyCommand]
    split_ifs with h₁ h₂ h₃ h₄ h₅ h₆ h₇ h₈
    · exact unaffected_of_spawn h he
        [.insert .thread (worldSpawn s.world).1 cmd.threadState,
          .insert .priority (worldSpawn s.world).1 cmd.priority]
        (by simp [Edit.handle])
    · simp [Call.inserts, Command.inserts, h₂] at hnone
    · exact unaffected_of_store h.sets hne .thread fun _ => cmd.threadState
    · exact unaffected_of_destroy h hd hne
    · simp [Call.inserts, Command.inserts, h₂, h₅] at hnone
    · simp [Call.inserts, Command.inserts, h₂, h₅, h₆] at hnone
    · simp [Call.inserts, Command.inserts, h₂, h₅, h₆, h₇] at hnone
    · simp [Call.inserts, Command.inserts, h₂, h₅, h₆, h₇, h₈] at hnone
    · exact ⟨fun _ => rfl, rfl⟩
  | setThreadStatus val status =>
    obtain rfl : entityOf val = d := hthrough
    exact unaffected_of_store h.sets hne .thread fun t : ThreadState => { t with status := status }
  | destroyThread val =>
    obtain rfl : entityOf val = d := hthrough
    exact unaffected_of_destroy h hd hne
  | worldDestroy entity =>
    obtain rfl : entity = d := hthrough
    exact unaffected_of_destroy h hd hne
  | updateMemoryMap val size =>
    obtain rfl : entityOf val = d := hthrough
    exact unaffected_of_store h.sets hne .memmap fun m : MemoryMap => { m with size := size }
  | incrementCounter val counterType =>
    obtain rfl : entityOf val = d := hthrough
    exact unaffected_of_store h.sets hne .perfCounters (bumpCounter counterType)
  | worldSpawn => exact absurd hthrough id
  | spawnThread => exact absurd hthrough id
  | spawnBareEntity => exact absurd hthrough id
  | _ => simp [Call.inserts] at hnone

/-- The state before a step decides whether a call through a stale handle is harmless. -/
theorem unaffected_iff {s : Life} (h : s.Inv) {d e : Entity} {call : Call}
    (hd : s.phase d = .destroyed) (he : s.phase e = .live) (hthrough : call.Through d) :
    Unaffected s.world (call.exec s.world) e ↔ ¬ Overwrites s.world d call e := by
  have hne : d ≠ e := by
    rintro rfl
    rw [hd] at he
    exact Phase.noConfusion he
  cases ht : call.inserts with
  | none =>
    constructor
    · rintro - ⟨-, t, ht', -⟩
      simp [ht] at ht'
    · intro _
      exact unaffected_of_inserts_eq_none h hd he hthrough ht
  | some t =>
    obtain ⟨c, hc⟩ := exec_of_inserts s.world hthrough ht
    have hlt := h.tracks.id_lt_maxEntities (h.tracks.destroyed_lt d hd)
    rw [hc, unaffected_of_insert_iff h.sets hlt hne t c]
    simp only [Overwrites, ht, Option.some.injEq, exists_eq_left']

/-! ### Runs -/

/-- **A call through a stale handle is harmless exactly when it does not insert over a component
of an entity that reuses the id**, in every state of a run whose destroys are of live handles. -/
theorem stale_call_harmless_iff (b : (t : Table) → Blocks t.Component)
    (active back : UInt32 → Command) (ops : List Op)
    (hsound : Admissible State.exec State.Sound (initState b active back) ops) :
    let s := (runOps State.exec (initState b active back) ops).life
    ∀ d e call, s.phase d = .destroyed → s.phase e = .live → call.Through d →
      worldIsAlive s.world e = true ∧
      (Unaffected s.world (call.exec s.world) e ↔ ¬ Overwrites s.world d call e) := by
  intro s d e call hd he hthrough
  have h : s.Inv := life_inv_run b active back hsound
  exact ⟨h.tracks.alive_of_live he, unaffected_iff h hd he hthrough⟩

/-- Blocks of zero bytes. -/
def zeroBlocks : (t : Table) → Blocks t.Component
  | .thread => ⟨fun _ => ⟨0, 0, 0, 0, 0, 0⟩, fun _ => 0, fun _ => ⟨0, 0⟩⟩
  | .priority => ⟨fun _ => ⟨0, 0⟩, fun _ => 0, fun _ => ⟨0, 0⟩⟩
  | .affinity => ⟨fun _ => ⟨0, 0⟩, fun _ => 0, fun _ => ⟨0, 0⟩⟩
  | .epochInfo => ⟨fun _ => ⟨0, 0⟩, fun _ => 0, fun _ => ⟨0, 0⟩⟩
  | .perfCounters => ⟨fun _ => ⟨0, 0, 0, 0, 0⟩, fun _ => 0, fun _ => ⟨0, 0⟩⟩
  | .memmap => ⟨fun _ => ⟨0, 0⟩, fun _ => 0, fun _ => ⟨0, 0⟩⟩
  | .ipcCap => ⟨fun _ => ⟨0, 0, 0, 0⟩, fun _ => 0, fun _ => ⟨0, 0⟩⟩
  | .socket => ⟨fun _ => ⟨0, 0, 0, 0, 0, 0⟩, fun _ => 0, fun _ => ⟨0, 0⟩⟩
  | .datablob => ⟨fun _ => ⟨0, 0, 0, 0⟩, fun _ => 0, fun _ => ⟨0, 0⟩⟩
  | .name => ⟨fun _ => ⟨0, 0⟩, fun _ => 0, fun _ => ⟨0, 0⟩⟩

/-- A command that gives `target` the priority level 3. -/
def updatePriority (target : Entity) : Command :=
  { cmdType := cmdUpdatePriority, target := target, priority := ⟨3, 10⟩, memMap := ⟨0, 0⟩
    threadState := ⟨0, 0, 0, 0, 0, 0⟩, ipcCap := ⟨0, 0, 0, 0⟩, affinity := ⟨0, 0⟩
    socket := ⟨0, 0, 0, 0, 0, 0⟩ }

/-- The first entity is destroyed, the second one reuses its id and gets a priority. -/
def reuseOps : List Op :=
  [.call .worldSpawn, .call (.worldDestroy ⟨0, 1⟩), .call .worldSpawn,
    .push (updatePriority ⟨0, 2⟩), .apply]

/-- The state after `reuseOps`. -/
def reuseState : State :=
  runOps State.exec
    (initState zeroBlocks (fun _ => updatePriority ⟨0, 0⟩) fun _ => updatePriority ⟨0, 0⟩) reuseOps

theorem sound_reuseOps : Admissible State.exec State.Sound
    (initState zeroBlocks (fun _ => updatePriority ⟨0, 0⟩) fun _ => updatePriority ⟨0, 0⟩)
    reuseOps := by
  refine ⟨?_, ?_, ?_, trivial, ?_, trivial⟩
  · intro e he
    exact absurd (Option.some.inj he) (by simp)
  · intro e he halive
    obtain rfl : (⟨0, 1⟩ : Entity) = e := by simpa [Call.event] using he
    exact ⟨by decide, by decide⟩
  · intro e he
    exact absurd (Option.some.inj he) (by simp)
  · refine ⟨?_, trivial⟩
    intro e he
    have hnone : (none : Option Event) = some (.destroyed e) := he
    simp at hnone

theorem stale_call_harmless_iff_reused :
    let s := reuseState.life
    s.phase ⟨0, 1⟩ = .destroyed ∧ s.phase ⟨0, 2⟩ = .live ∧
      (Unaffected s.world ((Call.setThreadStatus (entityVal ⟨0, 1⟩) 2).exec s.world) ⟨0, 2⟩ ↔
        ¬ Overwrites s.world ⟨0, 1⟩ (.setThreadStatus (entityVal ⟨0, 1⟩) 2) ⟨0, 2⟩) := by
  refine ⟨by decide, by decide, ?_⟩
  exact (stale_call_harmless_iff zeroBlocks _ _ reuseOps sound_reuseOps ⟨0, 1⟩ ⟨0, 2⟩
    (.setThreadStatus (entityVal ⟨0, 1⟩) 2) (by decide) (by decide) (entityOf_entityVal _)).2

/-- A deferred priority update of the destroyed handle hides the priority of the entity that reuses
its id. -/
theorem not_harmless_of_stale_priority :
    ¬ ∀ (ops : List Op) (d e : Entity) (call : Call),
      let s := (runOps State.exec (initState zeroBlocks (fun _ => updatePriority ⟨0, 0⟩)
        fun _ => updatePriority ⟨0, 0⟩) ops).life
      s.phase d = .destroyed → s.phase e = .live → call.Through d →
        Unaffected s.world (call.exec s.world) e := by
  intro h
  have hsame : getComponent ((Call.exec reuseState.life.world
      (.command (updatePriority ⟨0, 1⟩))).table .priority) ⟨0, 2⟩ =
      getComponent (reuseState.life.world.table .priority) ⟨0, 2⟩ :=
    (h reuseOps ⟨0, 1⟩ ⟨0, 2⟩ (.command (updatePriority ⟨0, 1⟩))
      (by decide) (by decide) rfl).1 .priority
  have hbefore : (getComponent (reuseState.life.world.table .priority) ⟨0, 2⟩).isSome = true := by
    decide
  rw [← hsame] at hbefore
  exact absurd hbefore (by decide)

end Keuos.Ecs
