import Keuos.Ecs.Lifecycle
import Keuos.Ecs.Equiv.SparseSet

/-!
# What a call does to the world

Every call takes the world to a base world, which `world_spawn` or `world_destroy` may have changed,
and then edits single tables (`Call.exec_eq`).  An edit is an insert or a store through the pointer
of a get, and acts on the map of one table only (`find_edit_of_ne`).

`EntityAllocator.Tracks` ties the lifecycles to the allocator: the ids on the free list are distinct and below
`next_fresh_id`, the handle of a live entity carries the current generation of its id and its id is
not free, and the generation of a destroyed handle is behind the current one.
-/

namespace Keuos.Ecs

/-! ### Reading a map through a handle -/

section Find

variable {α : Type}

/-- The component that the map binds for a handle. -/
def Bindings.find (m : Bindings α) (e : Entity) : Option α :=
  (m e.id).bind fun p => if p.1 = e.gen then some p.2 else none

/-- A store through the pointer of a get changes the component bound for the handle. -/
def Bindings.modify (m : Bindings α) (e : Entity) (f : α → α) : Bindings α :=
  if (m e.id).map Prod.fst = some e.gen then
    Function.update m e.id ((m e.id).map fun p => (p.1, f p.2))
  else m

theorem getComponent_eq_find (set : SparseSet α) (e : Entity) :
    getComponent set e = set.bindings.find e := by
  ext c
  rw [getComponent_eq_some_iff, Bindings.find]
  cases set.bindings e.id with
  | none => simp
  | some p =>
    obtain ⟨g, c'⟩ := p
    by_cases hg : g = e.gen
    · simp [hg]
    · simp [hg]

theorem find_insert_of_id_ne (m : Bindings α) {d e : Entity} (hid : d.id ≠ e.id) (c : α) :
    (m.insert d c).find e = m.find e := by
  unfold Bindings.insert Bindings.find
  split_ifs
  · rw [Function.update_of_ne hid.symm]
  · rfl

theorem find_insert_of_gen_ne (m : Bindings α) {d e : Entity} (hlt : d.id < maxEntities)
    (hid : d.id = e.id) (hgen : d.gen ≠ e.gen) (c : α) : (m.insert d c).find e = none := by
  unfold Bindings.insert Bindings.find
  rw [if_pos hlt, hid, Function.update_self]
  simp [hgen]

theorem find_remove_of_ne (m : Bindings α) {d e : Entity} (hne : d ≠ e) :
    (m.remove d).find e = m.find e := by
  unfold Bindings.remove Bindings.find
  split_ifs with hfound
  · by_cases hid : d.id = e.id
    · have hgen : d.gen ≠ e.gen := by
        intro hgen
        exact hne (by cases d; cases e; simp_all)
      rw [hid, Function.update_self]
      rw [hid, Option.map_eq_some_iff] at hfound
      obtain ⟨p, hp, hpg⟩ := hfound
      simp [hp, hpg, hgen]
    · rw [Function.update_of_ne (Ne.symm hid)]
  · rfl

theorem find_modify_of_ne (m : Bindings α) {d e : Entity} (hne : d ≠ e) (f : α → α) :
    (m.modify d f).find e = m.find e := by
  unfold Bindings.modify Bindings.find
  split_ifs with hfound
  · by_cases hid : d.id = e.id
    · have hgen : d.gen ≠ e.gen := by
        intro hgen
        exact hne (by cases d; cases e; simp_all)
      rw [hid, Function.update_self]
      rw [hid, Option.map_eq_some_iff] at hfound
      obtain ⟨p, hp, hpg⟩ := hfound
      simp [hp, hpg, hgen]
    · rw [Function.update_of_ne (Ne.symm hid)]
  · rfl

theorem storeThrough_spec {set : SparseSet α} (h : set.Inv) (e : Entity) (f : α → α) :
    (storeThrough set (setGet set e) f).Inv ∧
      (storeThrough set (setGet set e) f).bindings = set.bindings.modify e f := by
  cases hget : setGet set e with
  | none =>
    refine ⟨h, ?_⟩
    have hnot : ¬ (set.bindings e.id).map Prod.fst = some e.gen := by
      intro hfound
      obtain ⟨p, hp, hpg⟩ := Option.map_eq_some_iff.mp hfound
      have hsome := (getComponent_eq_some_iff set e p.2).mpr (by rw [hp, ← hpg])
      rw [getComponent, hget] at hsome
      simp at hsome
    rw [Bindings.modify, if_neg hnot]
    rfl
  | some row =>
    have hparts : e.id < maxEntities ∧ set.sparse e.id ≠ invalid ∧
        (set.entityMap row).gen = e.gen ∧ set.sparse e.id = row := by
      unfold setGet at hget
      grind
    obtain ⟨hid, hpresent, hgen, hrow⟩ := hparts
    refine ⟨⟨h.count_le, h.id_lt, h.sparse_id, h.row_lt, h.row_id⟩, ?_⟩
    have hbound : set.bindings e.id = some (e.gen, set.dense row) := by
      rw [SparseSet.bindings, if_pos hid, if_pos hpresent, hrow, hgen]
    rw [Bindings.modify, hbound]
    simp only [Option.map_some, ↓reduceIte]
    funext id
    by_cases heq : id = e.id
    · rw [heq, Function.update_self]
      rw [hrow] at hpresent
      simp only [storeThrough, SparseSet.bindings, hid, hpresent, hrow, hgen, ne_eq,
        not_false_eq_true, ↓reduceIte, Function.update_self]
    · rw [Function.update_of_ne heq]
      simp only [storeThrough, SparseSet.bindings]
      by_cases hid' : id < maxEntities
      · by_cases hp' : set.sparse id = invalid
        · simp [hid', hp']
        · have hother : set.sparse id ≠ row := by
            intro hsame
            apply heq
            rw [← h.row_id id hid' hp', hsame, ← hrow, h.row_id e.id hid hpresent]
          simp only [hid', hp', ne_eq, not_false_eq_true, ↓reduceIte,
            Function.update_of_ne hother]
      · simp [hid']

end Find

/-! ### Tables of the world -/

/-- The world with one table replaced. -/
def World.setTable (w : World) : (t : Table) → SparseSet t.Component → World
  | .thread, s => { w with threads := s }
  | .priority, s => { w with priorities := s }
  | .affinity, s => { w with cpuAffinities := s }
  | .epochInfo, s => { w with epochInfos := s }
  | .perfCounters, s => { w with perfCounters := s }
  | .memmap, s => { w with memMaps := s }
  | .ipcCap, s => { w with ipcCaps := s }
  | .socket, s => { w with openSockets := s }
  | .datablob, s => { w with datablobs := s }
  | .name, s => { w with names := s }

@[simp] theorem World.table_setTable_self (w : World) (t : Table) (s : SparseSet t.Component) :
    (w.setTable t s).table t = s := by
  cases t <;> rfl

theorem World.table_setTable_of_ne (w : World) {t u : Table} (h : u ≠ t)
    (s : SparseSet t.Component) : (w.setTable t s).table u = w.table u := by
  cases t <;> cases u <;> first | rfl | exact absurd rfl h

@[simp] theorem World.alloc_setTable (w : World) (t : Table) (s : SparseSet t.Component) :
    (w.setTable t s).alloc = w.alloc := by
  cases t <;> rfl

@[simp] theorem table_worldSpawn (w : World) (t : Table) :
    (worldSpawn w).2.table t = w.table t := by
  cases t <;> rfl

@[simp] theorem table_worldDestroy (w : World) (e : Entity) (t : Table) :
    (worldDestroy w e).table t = setRemove (w.table t) e := by
  cases t <;> rfl

/-- Every table of the world is well formed. -/
def World.SetsInv (w : World) : Prop :=
  ∀ t, (w.table t).Inv

/-! ### Edits -/

/-- What a call does to one table. -/
inductive Edit where
  | insert (t : Table) (e : Entity) (c : t.Component)
  | store (t : Table) (e : Entity) (f : t.Component → t.Component)

def Edit.exec (w : World) : Edit → World
  | .insert t e c => w.setTable t (setInsert (w.table t) e c)
  | .store t e f => w.setTable t (storeThrough (w.table t) (setGet (w.table t) e) f)

/-- The handle of an edit. -/
def Edit.handle : Edit → Entity
  | .insert _ e _ => e
  | .store _ e _ => e

@[simp] theorem Edit.alloc_exec (w : World) (edit : Edit) : (edit.exec w).alloc = w.alloc := by
  cases edit <;> simp [Edit.exec]

theorem Edit.setsInv_exec {w : World} (h : w.SetsInv) (edit : Edit) : (edit.exec w).SetsInv := by
  intro u
  cases edit with
  | insert t e c =>
    by_cases hu : u = t
    · subst hu
      rw [Edit.exec, World.table_setTable_self]
      exact (setInsert_spec (h u) e c).1
    · rw [Edit.exec, World.table_setTable_of_ne w hu]
      exact h u
  | store t e f =>
    by_cases hu : u = t
    · subst hu
      rw [Edit.exec, World.table_setTable_self]
      exact (storeThrough_spec (h u) e f).1
    · rw [Edit.exec, World.table_setTable_of_ne w hu]
      exact h u

theorem find_edit_of_id_ne {w : World} (h : w.SetsInv) (edit : Edit) {e : Entity}
    (hid : edit.handle.id ≠ e.id) (u : Table) :
    getComponent ((edit.exec w).table u) e = getComponent (w.table u) e := by
  cases edit with
  | insert t d c =>
    by_cases hu : u = t
    · subst hu
      rw [Edit.exec, World.table_setTable_self, getComponent_eq_find, getComponent_eq_find,
        (setInsert_spec (h u) d c).2]
      exact find_insert_of_id_ne _ hid c
    · rw [Edit.exec, World.table_setTable_of_ne w hu]
  | store t d f =>
    have hne : d ≠ e := by
      intro heq
      exact hid (congrArg Entity.id heq)
    by_cases hu : u = t
    · subst hu
      rw [Edit.exec, World.table_setTable_self, getComponent_eq_find, getComponent_eq_find,
        (storeThrough_spec (h u) d f).2]
      exact find_modify_of_ne _ hne f
    · rw [Edit.exec, World.table_setTable_of_ne w hu]

/-! ### Calls as edits of a base world -/

/-- The world after the allocator's part of a call. -/
def Call.base (w : World) (call : Call) : World :=
  match call.event w with
  | some (.spawned _) => (Ecs.worldSpawn w).2
  | some (.destroyed e) => Ecs.worldDestroy w e
  | none => w

/-- The edits of a command. -/
def Command.edits (w : World) (cmd : Command) : List Edit :=
  if cmd.cmdType == cmdSpawnThread then
    [.insert .thread (Ecs.worldSpawn w).1 cmd.threadState,
      .insert .priority (Ecs.worldSpawn w).1 cmd.priority]
  else if cmd.cmdType == cmdUpdatePriority then [.insert .priority cmd.target cmd.priority]
  else if cmd.cmdType == cmdUpdateState then [.store .thread cmd.target fun _ => cmd.threadState]
  else if cmd.cmdType == cmdDestroyEntity then []
  else if cmd.cmdType == cmdGrantIpcCap then [.insert .ipcCap cmd.target cmd.ipcCap]
  else if cmd.cmdType == cmdSetAffinity then [.insert .affinity cmd.target cmd.affinity]
  else if cmd.cmdType == cmdSetMemoryMap then [.insert .memmap cmd.target cmd.memMap]
  else if cmd.cmdType == cmdOpenSocket then [.insert .socket cmd.target cmd.socket]
  else []

/-- The edits of a call. -/
def Call.edits (w : World) : Call → List Edit
  | .worldSpawn => []
  | .worldDestroy _ => []
  | .spawnThread stepFn stackPtr stackBase =>
    let e := (Ecs.worldSpawn w).1
    [.insert .thread e ⟨1, stackPtr, stackBase, stepFn, 0, 0⟩, .insert .priority e ⟨128, 10⟩,
      .insert .perfCounters e ⟨0, 0, 0, 0, 0⟩]
  | .spawnBareEntity => []
  | .setThreadStatus val status =>
    [.store .thread (entityOf val) fun t : ThreadState => { t with status := status }]
  | .destroyThread _ => []
  | .grantMemoryMap val pml4Phys size => [.insert .memmap (entityOf val) ⟨size, pml4Phys⟩]
  | .updateMemoryMap val size =>
    [.store .memmap (entityOf val) fun m : MemoryMap => { m with size := size }]
  | .grantIpcCap val ringPhys proofHint peerId dir =>
    [.insert .ipcCap (entityOf val) ⟨ringPhys, proofHint, peerId, dir⟩]
  | .grantOpenSocket val lp rp rip state ringEid =>
    [.insert .socket (entityOf val) ⟨lp, rp, rip, state, ringEid, 0⟩]
  | .storeName val namePtr nameLen => [.insert .name (entityOf val) ⟨namePtr, nameLen⟩]
  | .incrementCounter val counterType =>
    [.store .perfCounters (entityOf val) (bumpCounter counterType)]
  | .retireEntity currentEpoch epochMarks entity =>
    [.insert .epochInfo entity ⟨currentEpoch, epochMarks (currentEpoch % 1024)⟩]
  | .command cmd => cmd.edits w

/-- **Every call edits a base world.** -/
theorem Call.exec_eq (w : World) (call : Call) :
    call.exec w = (call.edits w).foldl Edit.exec (call.base w) := by
  cases call with
  | command cmd =>
    simp only [Call.exec, Call.edits, Call.base, Call.event, applyCommand, Command.edits]
    -- the two tests of `Call.event` agree with the same tests of the dispatcher
    split_ifs <;> first
      | rfl
      | simp_all [cmdUpdatePriority, cmdUpdateState, cmdDestroyEntity]
  | _ => rfl

theorem Call.eq_of_spawned {w : World} {call : Call} {e : Entity}
    (h : call.event w = some (.spawned e)) : e = (Ecs.worldSpawn w).1 := by
  cases call <;> simp_all [Call.event]
  split_ifs at h <;> simp_all

theorem alloc_foldl_edits (edits : List Edit) (w : World) :
    (edits.foldl Edit.exec w).alloc = w.alloc := by
  induction edits generalizing w with
  | nil => rfl
  | cons edit edits ih => rw [List.foldl_cons, ih, Edit.alloc_exec]

theorem setsInv_foldl_edits (edits : List Edit) {w : World} (h : w.SetsInv) :
    (edits.foldl Edit.exec w).SetsInv := by
  induction edits generalizing w with
  | nil => exact h
  | cons edit edits ih => exact ih (edit.setsInv_exec h)

theorem find_foldl_edits_of_id_ne (edits : List Edit) {w : World} (h : w.SetsInv) {e : Entity}
    (hid : ∀ edit ∈ edits, edit.handle.id ≠ e.id) (u : Table) :
    getComponent ((edits.foldl Edit.exec w).table u) e = getComponent (w.table u) e := by
  induction edits generalizing w with
  | nil => rfl
  | cons edit edits ih =>
    rw [List.foldl_cons, ih (edit.setsInv_exec h) fun x hx => hid x (List.mem_cons_of_mem _ hx)]
    exact find_edit_of_id_ne h edit (hid edit (List.mem_cons_self ..)) u

theorem entityOf_entityVal (e : Entity) : entityOf (entityVal e) = e := by
  obtain ⟨id, gen⟩ := e
  unfold entityOf entityVal
  congr 1
  · rw [← UInt32.toBitVec_inj]
    ext i hi
    have hmask : (4294967295#32)[i] = true := by
      rw [show (4294967295#32) = BitVec.allOnes 32 from rfl, BitVec.getElem_allOnes]
    simp [hmask]
  · rw [← UInt32.toBitVec_inj]
    ext i hi
    have h₁ : 32 + i < 64 := by omega
    have h₂ : i < 64 := by omega
    simp [BitVec.getElem_setWidth, hi, h₁, h₂]

/-! ### The lifecycle invariant -/

/-- The position of a generation in the order in which an id goes through them, from 1 on. -/
def rank (gen : UInt32) : Nat :=
  (gen - 1).toNat

theorem rank_lt_rank_succ {gen : UInt32} (h : gen ≠ 0) : rank gen < rank (gen + 1) := by
  unfold rank
  have hsucc : gen + 1 - 1 = gen := by grind
  rw [hsucc, ← UInt32.lt_iff_toNat_lt]
  grind

/-- The ids on the free list are distinct ids that were handed out before. -/
structure EntityAllocator.Inv (a : EntityAllocator) : Prop where
  fresh_le : a.nextFreshId ≤ maxEntities
  free_lt : ∀ i < a.freeCount, a.freeIndices i < a.nextFreshId
  free_inj : ∀ i < a.freeCount, ∀ j < a.freeCount, a.freeIndices i = a.freeIndices j → i = j

/-- The id is on the free list. -/
def EntityAllocator.Free (a : EntityAllocator) (id : UInt32) : Prop :=
  ∃ i < a.freeCount, a.freeIndices i = id

theorem EntityAllocator.Inv.freeCount_le {a : EntityAllocator} (h : a.Inv) :
    a.freeCount ≤ a.nextFreshId := by
  rw [UInt32.le_iff_toNat_le]
  have hlt : ∀ {i : Nat}, i < a.freeCount.toNat → UInt32.ofNat i < a.freeCount := by
    intro i hi
    rw [UInt32.lt_iff_toNat_lt, UInt32.toNat_ofNat', Nat.mod_eq_of_lt
      (Nat.lt_trans hi a.freeCount.toNat_lt)]
    exact hi
  have hcard := Finset.card_le_card_of_injOn (s := Finset.range a.freeCount.toNat)
    (t := Finset.range a.nextFreshId.toNat) (fun i => (a.freeIndices (UInt32.ofNat i)).toNat)
    (by
      intro i hi
      have := h.free_lt _ (hlt (Finset.mem_range.mp (Finset.mem_coe.mp hi)))
      exact Finset.mem_coe.mpr (Finset.mem_range.mpr (UInt32.lt_iff_toNat_lt.mp this)))
    (by
      intro i hi j hj hij
      have hi' := Finset.mem_range.mp (Finset.mem_coe.mp hi)
      have hj' := Finset.mem_range.mp (Finset.mem_coe.mp hj)
      have heq := h.free_inj _ (hlt hi') _ (hlt hj') (UInt32.toNat_inj.mp hij)
      have := congrArg UInt32.toNat heq
      rwa [UInt32.toNat_ofNat', UInt32.toNat_ofNat',
        Nat.mod_eq_of_lt (Nat.lt_trans hi' a.freeCount.toNat_lt),
        Nat.mod_eq_of_lt (Nat.lt_trans hj' a.freeCount.toNat_lt)] at this)
  simpa using hcard

/-- The lifecycles and the allocator fit together. -/
structure EntityAllocator.Tracks (a : EntityAllocator) (phase : Entity → Phase) : Prop where
  inv : a.Inv
  live_lt : ∀ e, phase e = .live → e.id < a.nextFreshId
  live_gen : ∀ e, phase e = .live → a.generations e.id = e.gen
  live_not_free : ∀ e, phase e = .live → ¬ a.Free e.id
  destroyed_lt : ∀ d, phase d = .destroyed → d.id < a.nextFreshId
  destroyed_gen : ∀ d, phase d = .destroyed → rank d.gen < rank (a.generations d.id)

/-- What `entity_allocator_allocate` returns when it does not fail: an id that was free or never
handed out, with its current generation. -/
structure Allocated (a : EntityAllocator) (e : Entity) (a' : EntityAllocator) : Prop where
  inv : a'.Inv
  gen : e.gen = a.generations e.id
  generations : a'.generations = a.generations
  fresh_le : a.nextFreshId ≤ a'.nextFreshId
  id_lt : e.id < a'.nextFreshId
  not_free : ¬ a'.Free e.id
  free_of_free : ∀ id, a'.Free id → a.Free id
  unused : a.Free e.id ∨ e.id = a.nextFreshId

theorem allocate_spec {a : EntityAllocator} (h : a.Inv) :
    ((entityAllocatorAllocate a).1.id = invalid ∧ (entityAllocatorAllocate a).2 = a) ∨
      ((entityAllocatorAllocate a).1.id ≠ invalid ∧
        Allocated a (entityAllocatorAllocate a).1 (entityAllocatorAllocate a).2) := by
  unfold entityAllocatorAllocate
  by_cases hfc : a.freeCount > 0
  · right
    -- The last free row is reused, with the generation that its release gave it.
    simp only [hfc, ↓reduceIte]
    obtain ⟨hlast, hrest⟩ := rows_remove hfc
    have hid := h.free_lt _ hlast
    refine ⟨ne_invalid_of_le (UInt32.le_of_lt (UInt32.lt_of_lt_of_le hid h.fresh_le)), ?_⟩
    constructor
    · refine ⟨h.fresh_le, ?_, ?_⟩
      · intro i hi
        exact h.free_lt i ((hrest i).mp hi).1
      · intro i hi j hj
        exact h.free_inj i ((hrest i).mp hi).1 j ((hrest j).mp hj).1
    · rfl
    · rfl
    · exact UInt32.le_refl _
    · exact hid
    · rintro ⟨i, hi, heq⟩
      obtain ⟨hic, hil⟩ := (hrest i).mp hi
      exact hil (h.free_inj i hic _ hlast heq)
    · rintro id ⟨i, hi, heq⟩
      exact ⟨i, ((hrest i).mp hi).1, heq⟩
    · exact Or.inl ⟨_, hlast, rfl⟩
  · by_cases hfull : a.nextFreshId ≥ maxEntities
    · left
      simp only [hfc, hfull, ↓reduceIte, and_self]
    · right
      -- No free row: the next number that was never used.
      have hroom : a.nextFreshId < maxEntities := UInt32.not_le.mp hfull
      obtain ⟨hle, hids⟩ := rows_append hroom
      have hempty : a.freeCount = 0 := by grind
      simp only [hfc, hfull, ↓reduceIte]
      refine ⟨ne_invalid_of_le (UInt32.le_of_lt hroom), ?_⟩
      constructor
      · refine ⟨hle, ?_, h.free_inj⟩
        intro i hi
        exact (hids _).mpr (Or.inl (h.free_lt i hi))
      · rfl
      · rfl
      · exact UInt32.le_of_lt ((hids _).mpr (Or.inr rfl))
      · exact (hids _).mpr (Or.inr rfl)
      · rintro ⟨i, hi, heq⟩
        exact absurd (heq ▸ h.free_lt i hi) (UInt32.lt_irrefl _)
      · rintro id hid
        exact hid
      · exact Or.inr rfl

theorem free_spec {a : EntityAllocator} (h : a.Inv) {e : Entity} (hlt : e.id < a.nextFreshId)
    (hgen : a.generations e.id = e.gen) (hfree : ¬ a.Free e.id) :
    let a' := entityAllocatorFree a e
    a'.Inv ∧ a'.nextFreshId = a.nextFreshId ∧
      a'.generations = Function.update a.generations e.id (e.gen + 1) ∧
      ∀ id, a'.Free id → a.Free id ∨ id = e.id := by
  have hid : e.id < maxEntities := UInt32.lt_of_lt_of_le hlt h.fresh_le
  have hrows := lt_add_one_iff (UInt32.le_trans h.freeCount_le h.fresh_le)
  unfold entityAllocatorFree
  simp only [hid, hgen, ↓reduceIte, beq_self_eq_true]
  refine ⟨⟨h.fresh_le, ?_, ?_⟩, trivial, trivial, ?_⟩
  · intro i hi
    simp only [Function.update_apply]
    split_ifs with heq
    · exact hlt
    · exact h.free_lt i (((hrows i).mp hi).resolve_right heq)
  · intro i hi j hj hij
    simp only [Function.update_apply] at hij
    split_ifs at hij with h₁ h₂ h₂
    · rw [h₁, h₂]
    · exact absurd ⟨j, ((hrows j).mp hj).resolve_right h₂, hij.symm⟩ hfree
    · exact absurd ⟨i, ((hrows i).mp hi).resolve_right h₁, hij⟩ hfree
    · exact h.free_inj i (((hrows i).mp hi).resolve_right h₁) j
        (((hrows j).mp hj).resolve_right h₂) hij
  · rintro id ⟨i, hi, heq⟩
    simp only [Function.update_apply] at heq
    split_ifs at heq with h₁
    · exact Or.inr heq.symm
    · exact Or.inl ⟨i, ((hrows i).mp hi).resolve_right h₁, heq⟩

theorem entityAllocatorFree_of_not_alive {a : EntityAllocator} {e : Entity}
    (h : entityAllocatorIsAlive a e = false) : entityAllocatorFree a e = a := by
  unfold entityAllocatorIsAlive at h
  unfold entityAllocatorFree
  by_cases hid : e.id < maxEntities
  · have hge : ¬ e.id ≥ maxEntities := UInt32.not_le.mpr hid
    simp only [hge, ↓reduceIte] at h
    simp only [h, Bool.false_eq_true, ↓reduceIte, ite_self]
  · simp only [hid, ↓reduceIte]

namespace EntityAllocator.Tracks

variable {a : EntityAllocator} {phase : Entity → Phase}

theorem id_lt_maxEntities (h : a.Tracks phase) {id : UInt32} (hlt : id < a.nextFreshId) :
    id < maxEntities :=
  UInt32.lt_of_lt_of_le hlt h.inv.fresh_le

theorem alive_of_live (h : a.Tracks phase) {e : Entity} (he : phase e = .live) :
    entityAllocatorIsAlive a e = true := by
  have hid := h.id_lt_maxEntities (h.live_lt e he)
  unfold entityAllocatorIsAlive
  rw [if_neg (UInt32.not_le.mpr hid), beq_iff_eq]
  exact h.live_gen e he

theorem not_alive_of_destroyed (h : a.Tracks phase) {d : Entity} (hd : phase d = .destroyed) :
    entityAllocatorIsAlive a d = false := by
  have hid := h.id_lt_maxEntities (h.destroyed_lt d hd)
  unfold entityAllocatorIsAlive
  rw [if_neg (UInt32.not_le.mpr hid), beq_eq_false_iff_ne]
  intro hgen
  have := h.destroyed_gen d hd
  rw [hgen] at this
  exact Nat.lt_irrefl _ this

theorem eq_of_live (h : a.Tracks phase) {e x : Entity} (he : phase e = .live)
    (hx : phase x = .live) (hid : e.id = x.id) : e = x := by
  have hgen := h.live_gen e he
  rw [hid, h.live_gen x hx] at hgen
  cases e
  cases x
  simp_all

theorem id_ne_of_allocated (h : a.Tracks phase) {e : Entity} {a' : EntityAllocator}
    (ha : Allocated a e a') {x : Entity} (hx : phase x = .live) : x.id ≠ e.id := by
  intro heq
  rcases ha.unused with hfree | hfresh
  · exact h.live_not_free x hx (heq ▸ hfree)
  · have hlt := h.live_lt x hx
    rw [heq, hfresh] at hlt
    exact UInt32.lt_irrefl _ hlt

theorem allocated (h : a.Tracks phase) {e : Entity} {a' : EntityAllocator}
    (ha : Allocated a e a') : a'.Tracks (Function.update phase e .live) := by
  constructor
  · exact ha.inv
  · intro x hx
    rw [Function.update_apply] at hx
    split_ifs at hx with heq
    · rw [heq]
      exact ha.id_lt
    · exact UInt32.lt_of_lt_of_le (h.live_lt x hx) ha.fresh_le
  · intro x hx
    rw [Function.update_apply] at hx
    rw [ha.generations]
    split_ifs at hx with heq
    · rw [heq]
      exact ha.gen.symm
    · exact h.live_gen x hx
  · intro x hx hfree
    rw [Function.update_apply] at hx
    split_ifs at hx with heq
    · exact ha.not_free (heq ▸ hfree)
    · exact h.live_not_free x hx (ha.free_of_free x.id hfree)
  · intro d hd
    rw [Function.update_apply] at hd
    split_ifs at hd with heq
    exact UInt32.lt_of_lt_of_le (h.destroyed_lt d hd) ha.fresh_le
  · intro d hd
    rw [Function.update_apply] at hd
    split_ifs at hd with heq
    rw [ha.generations]
    exact h.destroyed_gen d hd

theorem freed (h : a.Tracks phase) {e : Entity} (he : phase e = .live) (hgen : e.gen ≠ 0) :
    (entityAllocatorFree a e).Tracks (Function.update phase e .destroyed) := by
  obtain ⟨hinv, hfresh, hgens, hfree⟩ :=
    free_spec h.inv (h.live_lt e he) (h.live_gen e he) (h.live_not_free e he)
  have hid : ∀ x, phase x = .live → x ≠ e → x.id ≠ e.id := by
    intro x hx hne heq
    exact hne (h.eq_of_live hx he heq)
  constructor
  · exact hinv
  · intro x hx
    rw [Function.update_apply] at hx
    split_ifs at hx with heq
    rw [hfresh]
    exact h.live_lt x hx
  · intro x hx
    rw [Function.update_apply] at hx
    split_ifs at hx with heq
    rw [hgens, Function.update_of_ne (hid x hx heq)]
    exact h.live_gen x hx
  · intro x hx hxf
    rw [Function.update_apply] at hx
    split_ifs at hx with heq
    rcases hfree x.id hxf with hf | hf
    · exact h.live_not_free x hx hf
    · exact hid x hx heq hf
  · intro d hd
    rw [Function.update_apply] at hd
    rw [hfresh]
    split_ifs at hd with heq
    · rw [heq]
      exact h.live_lt e he
    · exact h.destroyed_lt d hd
  · intro d hd
    have hsucc := rank_lt_rank_succ hgen
    rw [Function.update_apply] at hd
    rw [hgens]
    split_ifs at hd with heq
    · rw [heq, Function.update_self]
      exact hsucc
    · by_cases hid' : d.id = e.id
      · have hlt := h.destroyed_gen d hd
        rw [hid', h.live_gen e he] at hlt
        rw [hid', Function.update_self]
        exact Nat.lt_trans hlt hsucc
      · rw [Function.update_of_ne hid']
        exact h.destroyed_gen d hd

end EntityAllocator.Tracks

/-- The tables are well formed and the lifecycles fit the allocator. -/
structure Life.Inv (s : Life) : Prop where
  sets : s.world.SetsInv
  tracks : s.world.alloc.Tracks s.phase

namespace Life.Inv

variable {s : Life}

theorem spawned (h : s.Inv) :
    Life.Inv ⟨(worldSpawn s.world).2, note s.phase (some (.spawned (worldSpawn s.world).1))⟩ := by
  refine ⟨fun t => by rw [table_worldSpawn]; exact h.sets t, ?_⟩
  show (entityAllocatorAllocate s.world.alloc).2.Tracks
    (if (entityAllocatorAllocate s.world.alloc).1.id = invalid then s.phase
      else Function.update s.phase (entityAllocatorAllocate s.world.alloc).1 .live)
  rcases allocate_spec h.tracks.inv with ⟨hid, ha⟩ | ⟨hid, ha⟩
  · rw [if_pos hid, ha]
    exact h.tracks
  · rw [if_neg hid]
    exact h.tracks.allocated ha

theorem destroyed (h : s.Inv) (e : Entity)
    (hsound : worldIsAlive s.world e = true → s.phase e = .live ∧ e.gen ≠ 0) :
    Life.Inv ⟨worldDestroy s.world e, note s.phase (some (.destroyed e))⟩ := by
  refine ⟨fun t => by rw [table_worldDestroy]; exact (setRemove_spec (h.sets t) e).1, ?_⟩
  show (entityAllocatorFree s.world.alloc e).Tracks
    (if s.phase e = .live then Function.update s.phase e .destroyed else s.phase)
  by_cases halive : worldIsAlive s.world e = true
  · obtain ⟨he, hgen⟩ := hsound halive
    rw [if_pos he]
    exact h.tracks.freed he hgen
  · have hnotlive : s.phase e ≠ .live := fun he => halive (h.tracks.alive_of_live he)
    rw [if_neg hnotlive, entityAllocatorFree_of_not_alive (Bool.eq_false_iff.mpr halive)]
    exact h.tracks

theorem base (h : s.Inv) (call : Call) (hsound : s.Sound call) :
    Life.Inv ⟨call.base s.world, note s.phase (call.event s.world)⟩ := by
  unfold Call.base
  cases hevent : call.event s.world with
  | none => exact h
  | some ev =>
    cases ev with
    | spawned e =>
      rw [Call.eq_of_spawned hevent]
      exact h.spawned
    | destroyed e => exact h.destroyed e (hsound e hevent)

/-- **A sound call keeps the invariant.** -/
theorem exec (h : s.Inv) (call : Call) (hsound : s.Sound call) : (s.exec call).Inv := by
  obtain ⟨hsets, htracks⟩ := h.base call hsound
  constructor
  · show (call.exec s.world).SetsInv
    rw [Call.exec_eq]
    exact setsInv_foldl_edits (call.edits s.world) hsets
  · show (call.exec s.world).alloc.Tracks _
    rw [Call.exec_eq, alloc_foldl_edits]
    exact htracks

end Life.Inv

theorem life_inv_newWorld (b : (t : Table) → Blocks t.Component) :
    Life.Inv ⟨newWorld b, fun _ => .unused⟩ := by
  refine ⟨?_, ⟨⟨?_, ?_, ?_⟩, ?_, ?_, ?_, ?_, ?_⟩⟩
  · intro t
    cases t <;> exact inv_newSet _
  · exact (by decide : (0 : UInt32) ≤ maxEntities)
  · intro i hi
    exact absurd hi (UInt32.not_lt.mpr UInt32.zero_le)
  · intro i hi
    exact absurd hi (UInt32.not_lt.mpr UInt32.zero_le)
  all_goals
    intro e he
    exact Phase.noConfusion he

/-- **The invariant holds in every state of a sound run.** -/
theorem life_inv_run (b : (t : Table) → Blocks t.Component) (active back : UInt32 → Command)
    {ops : List Op} (hsound : Admissible State.exec State.Sound (initState b active back) ops) :
    (runOps State.exec (initState b active back) ops).life.Inv := by
  refine runOps_induction (I := fun s => s.life.Inv) ?_ (life_inv_newWorld b) hsound
  intro s op hs hop
  cases op with
  | call call => exact hs.exec call hop
  | push cmd => exact hs
  | apply => exact runOps_induction (fun l call hl hc => hl.exec call hc) hs hop

end Keuos.Ecs
