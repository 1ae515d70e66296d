import Keuos.Ecs.Equiv.StaleHandles
import Keuos.Ecs.Equiv.World

/-!
# Handles of the world

A run of `world_spawn` and `world_destroy`, with edits of the component tables in between.  Beside the world
there are three records that the code does not keep: the handles that were returned, those of them that are
live (returned and not destroyed since), and how often a live handle of an id was destroyed.
-/

namespace Keuos.Ecs

/-- The world and the records described above. -/
structure Handles where
  world : World
  returned : List Entity
  live : List Entity
  destructions : UInt32 → Nat

/-- The world after `new_world`. -/
def Handles.init (b : (t : Table) → Blocks t.Component) : Handles :=
  ⟨newWorld b, [], [], fun _ => 0⟩

/-- `world_spawn`.  An invalid entity is not a handle. -/
def Handles.spawn (s : Handles) : Handles :=
  let (e, w) := worldSpawn s.world
  if e.id = invalid then { s with world := w }
  else { s with world := w, returned := e :: s.returned, live := e :: s.live }

/-- `world_destroy`. -/
def Handles.destroy (s : Handles) (e : Entity) : Handles :=
  { s with
    world := worldDestroy s.world e
    live := s.live.erase e
    destructions :=
      if e ∈ s.live then Function.update s.destructions e.id (s.destructions e.id + 1)
      else s.destructions }

inductive HandleOp where
  | spawn
  | destroy (e : Entity)
  | edit (edit : Edit)

/-- The state after a call. -/
def Handles.exec (s : Handles) : HandleOp → Handles
  | .spawn => s.spawn
  | .destroy e => s.destroy e
  | .edit edit => { s with world := edit.exec s.world }

/-- Only what `world_spawn` returned is destroyed. -/
def Handles.Returned (s : Handles) : HandleOp → Prop
  | .destroy e => e ∈ s.returned ∨ e = ⟨invalid, 0⟩
  | _ => True

instance (s : Handles) : ∀ op, Decidable (s.Returned op)
  | .destroy _ => inferInstanceAs (Decidable (_ ∨ _))
  | .spawn | .edit _ => isTrue trivial

end Keuos.Ecs

/-!
## Handles are unique

The ids below `next_fresh_id` are on the free list or belong to a live handle, each once.  The generation of
an id counts how often it was bumped, and a handle that was returned is live, or has one of the generations
before.  So as long as no generation has gone round, a handle is never returned twice, and the generation
check tells the live handles among those that were returned (`handles_sound`).

The check knows nothing of handles that were not returned: the generation of an id is there before the
handle is (`alive_before_spawn`).
-/

namespace Keuos.Ecs

/-! ### The free list -/

/-- The ids on the free list, the one that is taken next at the end. -/
def EntityAllocator.freeIds (a : EntityAllocator) : List UInt32 :=
  (List.range a.freeCount.toNat).map fun i => a.freeIndices (UInt32.ofNat i)

/-- The ids below `n`. -/
def idsBelow (n : Nat) : List UInt32 :=
  (List.range n).map UInt32.ofNat

theorem idsBelow_succ (n : Nat) : idsBelow (n + 1) = idsBelow n ++ [UInt32.ofNat n] := by
  unfold idsBelow
  rw [List.range_succ, List.map_append, List.map_singleton]

theorem mem_idsBelow {n : Nat} (hn : n ≤ 65536) {id : UInt32} : id ∈ idsBelow n ↔ id.toNat < n := by
  unfold idsBelow
  rw [List.mem_map]
  constructor
  · rintro ⟨i, hi, rfl⟩
    rw [List.mem_range] at hi
    rwa [UInt32.toNat_ofNat_of_lt' (by change i < 2 ^ 32; omega)]
  · intro hlt
    exact ⟨id.toNat, List.mem_range.mpr hlt, UInt32.ofNat_toNat⟩

theorem nodup_idsBelow {n : Nat} (hn : n ≤ 65536) : (idsBelow n).Nodup := by
  apply List.Nodup.map_on _ List.nodup_range
  intro i hi j hj heq
  rw [List.mem_range] at hi hj
  have hnat := congrArg UInt32.toNat heq
  rwa [UInt32.toNat_ofNat_of_lt' (by change i < 2 ^ 32; omega),
    UInt32.toNat_ofNat_of_lt' (by change j < 2 ^ 32; omega)] at hnat

/-- **What an allocation takes**: the last id of the free list, or else the next fresh id, or nothing. -/
theorem allocate_cases (a : EntityAllocator) :
    (∃ ids id, a.freeIds = ids ++ [id] ∧ (entityAllocatorAllocate a).1 = ⟨id, a.generations id⟩ ∧
      (entityAllocatorAllocate a).2.freeIds = ids ∧
      (entityAllocatorAllocate a).2.nextFreshId = a.nextFreshId ∧
      (entityAllocatorAllocate a).2.generations = a.generations) ∨
    (a.freeIds = [] ∧ a.nextFreshId < maxEntities ∧
      (entityAllocatorAllocate a).1 = ⟨a.nextFreshId, a.generations a.nextFreshId⟩ ∧
      (entityAllocatorAllocate a).2 = { a with nextFreshId := a.nextFreshId + 1 }) ∨
    (a.freeIds = [] ∧ maxEntities ≤ a.nextFreshId ∧ (entityAllocatorAllocate a).1 = ⟨invalid, 0⟩ ∧
      (entityAllocatorAllocate a).2 = a) := by
  unfold entityAllocatorAllocate
  by_cases hfc : a.freeCount > 0
  · left
    have hpos : 0 < a.freeCount.toNat := UInt32.lt_iff_toNat_lt.mp hfc
    have hone : (1 : UInt32).toNat = 1 := rfl
    have hpred : (a.freeCount - 1).toNat = a.freeCount.toNat - 1 := by
      rw [UInt32.toNat_sub_of_le _ _ (by rw [UInt32.le_iff_toNat_le, hone]; omega), hone]
    have hlast : UInt32.ofNat (a.freeCount.toNat - 1) = a.freeCount - 1 := by
      rw [← hpred, UInt32.ofNat_toNat]
    simp only [hfc, ↓reduceIte]
    refine ⟨(List.range (a.freeCount.toNat - 1)).map fun i => a.freeIndices (UInt32.ofNat i),
      a.freeIndices (a.freeCount - 1), ?_, rfl, ?_, trivial, trivial⟩
    · unfold EntityAllocator.freeIds
      rw [← hlast, ← List.map_singleton (f := fun i => a.freeIndices (UInt32.ofNat i)),
        ← List.map_append, ← List.range_succ, Nat.succ_eq_add_one, Nat.sub_add_cancel hpos]
    · unfold EntityAllocator.freeIds
      rw [hpred]
  · right
    have hzero : a.freeCount = 0 := by
      rw [← UInt32.toNat_inj, UInt32.toNat_zero]
      have hle := UInt32.le_iff_toNat_le.mp (UInt32.not_lt.mp hfc)
      rw [UInt32.toNat_zero] at hle
      omega
    have hnil : a.freeIds = [] := by
      unfold EntityAllocator.freeIds
      rw [hzero]
      rfl
    simp only [hfc, ↓reduceIte]
    by_cases hfull : a.nextFreshId ≥ maxEntities
    · right
      simp only [hfull, ↓reduceIte]
      exact ⟨hnil, trivial, trivial, trivial⟩
    · left
      simp only [hfull, ↓reduceIte]
      exact ⟨hnil, UInt32.not_le.mp hfull, trivial, trivial⟩

/-- **What a free of a live handle does**: its id goes to the end of the free list. -/
theorem free_alive {a : EntityAllocator} {e : Entity} (halive : entityAllocatorIsAlive a e = true)
    (hcount : a.freeCount.toNat < 65536) :
    (entityAllocatorFree a e).freeIds = a.freeIds ++ [e.id] ∧
      (entityAllocatorFree a e).nextFreshId = a.nextFreshId ∧
      (entityAllocatorFree a e).generations =
        Function.update a.generations e.id (a.generations e.id + 1) := by
  have hid : e.id < maxEntities := by
    unfold entityAllocatorIsAlive at halive
    by_contra hge
    rw [if_pos (UInt32.not_lt.mp hge)] at halive
    cases halive
  have hgen : a.generations e.id = e.gen := by
    unfold entityAllocatorIsAlive at halive
    rw [if_neg (UInt32.not_le.mpr hid)] at halive
    exact beq_iff_eq.mp halive
  have hone : (1 : UInt32).toNat = 1 := rfl
  have hsucc : (a.freeCount + 1).toNat = a.freeCount.toNat + 1 := by
    rw [UInt32.toNat_add, hone]
    exact Nat.mod_eq_of_lt (by omega)
  unfold entityAllocatorFree
  simp only [hid, hgen, ↓reduceIte, beq_self_eq_true]
  refine ⟨?_, trivial, trivial⟩
  unfold EntityAllocator.freeIds
  dsimp only
  rw [hsucc, List.range_succ, List.map_append, List.map_singleton, UInt32.ofNat_toNat,
    Function.update_self]
  congr 1
  apply List.map_congr_left
  intro i hi
  apply Function.update_of_ne
  rintro heq
  have hnat := congrArg UInt32.toNat heq
  rw [List.mem_range] at hi
  rw [UInt32.toNat_ofNat_of_lt' (by change i < 2 ^ 32; omega)] at hnat
  omega

theorem length_freeIds (a : EntityAllocator) : a.freeIds.length = a.freeCount.toNat := by
  unfold EntityAllocator.freeIds
  rw [List.length_map, List.length_range]

/-! ### Generations -/

/-- The generation of an id after `n` destructions. -/
def genAfter (n : Nat) : UInt32 :=
  UInt32.ofNat (n + 1)

theorem genAfter_succ (n : Nat) : genAfter (n + 1) = genAfter n + 1 := by
  unfold genAfter
  rw [UInt32.ofNat_add (n + 1) 1]
  rfl

theorem genAfter_inj {m n : Nat} (hm : m < 2 ^ 32) (hn : n < 2 ^ 32) (h : genAfter m = genAfter n) :
    m = n := by
  have hnat := congrArg UInt32.toNat h
  unfold genAfter at hnat
  rw [UInt32.toNat_ofNat', UInt32.toNat_ofNat'] at hnat
  omega

/-! ### The invariant -/

/-- The ids below `next_fresh_id` are shared out between the free list and the live handles, and a handle that
was returned and is not live has a generation that its id has left behind. -/
structure Handles.Inv (s : Handles) : Prop where
  sets : s.world.SetsInv
  fresh_le : s.world.alloc.nextFreshId.toNat ≤ 65536
  ids : (s.world.alloc.freeIds ++ s.live.map Entity.id).Perm
    (idsBelow s.world.alloc.nextFreshId.toNat)
  gens : ∀ id, s.world.alloc.generations id = genAfter (s.destructions id)
  live_gen : ∀ e ∈ s.live, s.world.alloc.generations e.id = e.gen
  live_returned : ∀ e ∈ s.live, e ∈ s.returned
  returned_lt : ∀ e ∈ s.returned, e.id.toNat < s.world.alloc.nextFreshId.toNat
  spent : ∀ e ∈ s.returned, e ∈ s.live ∨ ∃ k < s.destructions e.id, e.gen = genAfter k

theorem handles_inv_init (b : (t : Table) → Blocks t.Component) : (Handles.init b).Inv := by
  constructor
  · intro t
    cases t <;> exact inv_newSet _
  · exact Nat.zero_le _
  · exact List.Perm.refl _
  · intro id
    rfl
  all_goals
    intro e he
    cases he

namespace Handles.Inv

variable {s : Handles}

theorem length_add (h : s.Inv) :
    s.world.alloc.freeCount.toNat + s.live.length = s.world.alloc.nextFreshId.toNat := by
  have hlen := h.ids.length_eq
  unfold idsBelow at hlen
  rwa [List.length_append, length_freeIds, List.length_map, List.length_map, List.length_range] at hlen

theorem nodup_ids (h : s.Inv) : (s.world.alloc.freeIds ++ s.live.map Entity.id).Nodup :=
  h.ids.nodup_iff.mpr (nodup_idsBelow h.fresh_le)

theorem eq_of_live (h : s.Inv) {e x : Entity} (he : e ∈ s.live) (hx : x ∈ s.live)
    (hid : e.id = x.id) : e = x := by
  have hgen := h.live_gen e he
  rw [hid, h.live_gen x hx] at hgen
  cases e
  cases x
  cases hid
  cases hgen
  rfl

theorem id_lt (h : s.Inv) {e : Entity} (he : e ∈ s.returned) : e.id < maxEntities :=
  UInt32.lt_iff_toNat_lt.mpr (Nat.lt_of_lt_of_le (h.returned_lt e he) h.fresh_le)

/-- **The generation check** tells the live handles among those that were returned. -/
theorem alive_iff (h : s.Inv) (hfew : ∀ id, s.destructions id < 2 ^ 32) {e : Entity}
    (he : e ∈ s.returned) : worldIsAlive s.world e = true ↔ e ∈ s.live := by
  unfold worldIsAlive entityAllocatorIsAlive
  rw [if_neg (UInt32.not_le.mpr (h.id_lt he)), beq_iff_eq]
  constructor
  · intro hgen
    rcases h.spent e he with hlive | ⟨k, hk, hek⟩
    · exact hlive
    · -- a generation that was left behind is not the current one
      rw [h.gens, hek] at hgen
      exact absurd (genAfter_inj (hfew e.id) (Nat.lt_trans hk (hfew e.id)) hgen) (Nat.ne_of_gt hk)
  · exact h.live_gen e

theorem not_returned (h : s.Inv) (hfew : ∀ id, s.destructions id < 2 ^ 32) {e : Entity}
    (hgen : e.gen = s.world.alloc.generations e.id) (hid : e.id ∉ s.live.map Entity.id) :
    e ∉ s.returned := by
  intro he
  rcases h.spent e he with hlive | ⟨k, hk, hek⟩
  · exact hid (List.mem_map_of_mem hlive)
  · rw [h.gens, hek] at hgen
    exact absurd (genAfter_inj (Nat.lt_trans hk (hfew e.id)) (hfew e.id) hgen) (Nat.ne_of_lt hk)

end Handles.Inv

/-! ### Spawning -/

/-- An allocation that succeeds, beside the live handles `live`. -/
structure Issued (a : EntityAllocator) (live : List Entity) (e : Entity) (a' : EntityAllocator) :
    Prop where
  room : live.length < 65536
  id_lt : e.id.toNat < a'.nextFreshId.toNat
  gen : e.gen = a.generations e.id
  generations : a'.generations = a.generations
  fresh_mono : a.nextFreshId.toNat ≤ a'.nextFreshId.toNat
  fresh_le : a'.nextFreshId.toNat ≤ 65536
  ids : (a'.freeIds ++ (e :: live).map Entity.id).Perm (idsBelow a'.nextFreshId.toNat)

theorem Issued.id_ne_invalid {a a' : EntityAllocator} {live : List Entity} {e : Entity}
    (hi : Issued a live e a') : e.id ≠ invalid := by
  intro heq
  have hlt := Nat.lt_of_lt_of_le hi.id_lt hi.fresh_le
  rw [heq] at hlt
  exact absurd hlt (by decide)

theorem Issued.id_not_mem {a a' : EntityAllocator} {live : List Entity} {e : Entity}
    (hi : Issued a live e a') : e.id ∉ live.map Entity.id := by
  have hnodup := hi.ids.nodup_iff.mpr (nodup_idsBelow hi.fresh_le)
  rw [List.map_cons] at hnodup
  exact (List.nodup_cons.mp hnodup.of_append_right).1

/-- **What `world_spawn` does**: it fails when all ids are live, and else it issues a handle. -/
theorem spawn_cases {s : Handles} (h : s.Inv) :
    ((worldSpawn s.world).1 = ⟨invalid, 0⟩ ∧ s.live.length = 65536 ∧
      (worldSpawn s.world).2.alloc = s.world.alloc) ∨
    Issued s.world.alloc s.live (worldSpawn s.world).1 (worldSpawn s.world).2.alloc := by
  have hadd := h.length_add
  have hle := h.fresh_le
  show ((entityAllocatorAllocate s.world.alloc).1 = _ ∧ _ ∧
      (entityAllocatorAllocate s.world.alloc).2 = s.world.alloc) ∨
    Issued s.world.alloc s.live (entityAllocatorAllocate s.world.alloc).1
      (entityAllocatorAllocate s.world.alloc).2
  rcases allocate_cases s.world.alloc with ⟨ids, id, hfree, hfst, hids, hfresh, hgens⟩ |
    ⟨hnil, hroom, hfst, hsnd⟩ | ⟨hnil, hfull, hfst, hsnd⟩
  · -- an id is taken from the free list
    have hperm := h.ids
    have hlen := length_freeIds s.world.alloc
    rw [hfree, List.length_append, List.length_singleton] at hlen
    have hmem : id ∈ idsBelow s.world.alloc.nextFreshId.toNat := by
      apply hperm.mem_iff.mp
      rw [hfree]
      simp
    right
    constructor
    · omega
    · rw [hfst, hfresh]
      exact (mem_idsBelow hle).mp hmem
    · rw [hfst]
    · exact hgens
    · rw [hfresh]
    · rwa [hfresh]
    · rw [hfst, hids, hfresh]
      rwa [hfree, List.append_assoc] at hperm
  · -- a fresh id is taken
    have hlt : s.world.alloc.nextFreshId.toNat < 65536 := UInt32.lt_iff_toNat_lt.mp hroom
    have hsucc : (s.world.alloc.nextFreshId + 1).toNat = s.world.alloc.nextFreshId.toNat + 1 := by
      rw [UInt32.toNat_add]
      exact Nat.mod_eq_of_lt (by change _ + 1 < 2 ^ 32; omega)
    have hperm := h.ids
    rw [hnil, List.nil_append] at hperm
    have hfree : ({ s.world.alloc with nextFreshId := s.world.alloc.nextFreshId + 1 } :
        EntityAllocator).freeIds = [] := hnil
    right
    constructor
    · omega
    · rw [hfst, hsnd]
      show _ < (s.world.alloc.nextFreshId + 1).toNat
      rw [hsucc]
      exact Nat.lt_succ_self _
    · rw [hfst]
    · rw [hsnd]
    · rw [hsnd]
      show _ ≤ (s.world.alloc.nextFreshId + 1).toNat
      rw [hsucc]
      exact Nat.le_succ _
    · rw [hsnd]
      show (s.world.alloc.nextFreshId + 1).toNat ≤ _
      rw [hsucc]
      exact hlt
    · rw [hfst, hsnd, hfree, List.nil_append, List.map_cons]
      show List.Perm _ (idsBelow (s.world.alloc.nextFreshId + 1).toNat)
      rw [hsucc, idsBelow_succ, UInt32.ofNat_toNat]
      exact (hperm.cons _).trans (List.perm_append_singleton _ _).symm
  · left
    have hge : 65536 ≤ s.world.alloc.nextFreshId.toNat := UInt32.le_iff_toNat_le.mp hfull
    have hlen := length_freeIds s.world.alloc
    rw [hnil, List.length_nil] at hlen
    exact ⟨hfst, by omega, hsnd⟩

namespace Handles.Inv

variable {s : Handles}

theorem spawn (h : s.Inv) : s.spawn.Inv := by
  have hsets : (worldSpawn s.world).2.SetsInv := by
    intro t
    rw [table_worldSpawn]
    exact h.sets t
  unfold Handles.spawn
  dsimp only
  rcases spawn_cases h with ⟨hfst, -, halloc⟩ | hi
  · rw [hfst, if_pos rfl]
    refine ⟨hsets, ?_, ?_, ?_, ?_, h.live_returned, ?_, h.spent⟩
    all_goals rw [halloc]
    · exact h.fresh_le
    · exact h.ids
    · exact h.gens
    · exact h.live_gen
    · exact h.returned_lt
  · rw [if_neg hi.id_ne_invalid]
    constructor
    · exact hsets
    · exact hi.fresh_le
    · exact hi.ids
    · intro id
      show (worldSpawn s.world).2.alloc.generations id = _
      rw [hi.generations]
      exact h.gens id
    · intro e he
      show (worldSpawn s.world).2.alloc.generations e.id = _
      rw [hi.generations]
      rcases List.mem_cons.mp he with rfl | he
      · exact hi.gen.symm
      · exact h.live_gen e he
    · intro e he
      rcases List.mem_cons.mp he with rfl | he
      · exact List.mem_cons_self
      · exact List.mem_cons_of_mem _ (h.live_returned e he)
    · intro e he
      rcases List.mem_cons.mp he with rfl | he
      · exact hi.id_lt
      · exact Nat.lt_of_lt_of_le (h.returned_lt e he) hi.fresh_mono
    · intro e he
      rcases List.mem_cons.mp he with rfl | he
      · exact Or.inl List.mem_cons_self
      · rcases h.spent e he with hlive | hspent
        · exact Or.inl (List.mem_cons_of_mem _ hlive)
        · exact Or.inr hspent

end Handles.Inv

/-! ### Destroying -/

section Destroy

variable {s : Handles}

theorem Handles.Inv.free_of_not_live (h : s.Inv) (hfew : ∀ id, s.destructions id < 2 ^ 32) {e : Entity}
    (he : e ∈ s.returned ∨ e = ⟨invalid, 0⟩) (hlive : e ∉ s.live) :
    entityAllocatorFree s.world.alloc e = s.world.alloc := by
  apply entityAllocatorFree_of_not_alive
  rcases he with he | rfl
  · exact Bool.eq_false_iff.mpr (mt (h.alive_iff hfew he).mp hlive)
  · unfold entityAllocatorIsAlive
    rw [if_pos (by decide)]

theorem Handles.Inv.free_of_live (h : s.Inv) (hfew : ∀ id, s.destructions id < 2 ^ 32) {e : Entity}
    (he : e ∈ s.live) :
    (entityAllocatorFree s.world.alloc e).freeIds = s.world.alloc.freeIds ++ [e.id] ∧
      (entityAllocatorFree s.world.alloc e).nextFreshId = s.world.alloc.nextFreshId ∧
      (entityAllocatorFree s.world.alloc e).generations =
        Function.update s.world.alloc.generations e.id (s.world.alloc.generations e.id + 1) := by
  apply free_alive ((h.alive_iff hfew (h.live_returned e he)).mpr he)
  have hadd := h.length_add
  have hle := h.fresh_le
  have hpos := List.length_pos_of_mem he
  omega

theorem Handles.Inv.destroy (h : s.Inv) (hfew : ∀ id, s.destructions id < 2 ^ 32) {e : Entity}
    (he : e ∈ s.returned ∨ e = ⟨invalid, 0⟩) : (s.destroy e).Inv := by
  have hsets : (worldDestroy s.world e).SetsInv := by
    intro t
    rw [table_worldDestroy]
    exact (setRemove_spec (h.sets t) e).1
  have halloc : (worldDestroy s.world e).alloc = entityAllocatorFree s.world.alloc e := rfl
  unfold Handles.destroy
  by_cases hlive : e ∈ s.live
  · obtain ⟨hids, hfresh, hgens⟩ := h.free_of_live hfew hlive
    rw [if_pos hlive]
    -- the other live handles have other ids
    have hother : ∀ x ∈ s.live.erase e, x ∈ s.live ∧ x.id ≠ e.id := by
      intro x hx
      have hnodup : s.live.Nodup := h.nodup_ids.of_append_right.of_map
      have hmem := (hnodup.mem_erase_iff).mp hx
      exact ⟨hmem.2, fun hid => hmem.1 (h.eq_of_live hmem.2 hlive hid)⟩
    constructor
    · exact hsets
    · dsimp only
      rw [halloc, hfresh]
      exact h.fresh_le
    · dsimp only
      rw [halloc, hids, hfresh, List.append_assoc]
      apply List.Perm.trans _ h.ids
      apply List.Perm.append_left
      exact ((List.perm_cons_erase hlive).map Entity.id).symm
    · intro id
      dsimp only
      rw [halloc, hgens]
      by_cases hid : id = e.id
      · rw [hid, Function.update_self, Function.update_self, h.gens, genAfter_succ]
      · rw [Function.update_of_ne hid, Function.update_of_ne hid, h.gens]
    · intro x hx
      obtain ⟨hxlive, hid⟩ := hother x hx
      dsimp only
      rw [halloc, hgens, Function.update_of_ne hid]
      exact h.live_gen x hxlive
    · intro x hx
      exact h.live_returned x (hother x hx).1
    · intro x hx
      dsimp only
      rw [halloc, hfresh]
      exact h.returned_lt x hx
    · intro x hx
      dsimp only
      by_cases hxe : x = e
      · -- the generation of the handle is left behind
        rw [hxe, Function.update_self]
        right
        refine ⟨s.destructions e.id, Nat.lt_succ_self _, ?_⟩
        rw [← h.live_gen e hlive, h.gens]
      · rcases h.spent x hx with hxlive | ⟨k, hk, hxk⟩
        · exact Or.inl ((List.mem_erase_of_ne hxe).mpr hxlive)
        · refine Or.inr ⟨k, Nat.lt_of_lt_of_le hk ?_, hxk⟩
          rw [Function.update_apply]
          split_ifs with hid
          · rw [hid]
            exact Nat.le_succ _
          · exact Nat.le_refl _
  · rw [if_neg hlive, List.erase_of_not_mem hlive]
    rw [h.free_of_not_live hfew he hlive] at halloc
    refine ⟨hsets, ?_, ?_, ?_, ?_, h.live_returned, ?_, h.spent⟩
    all_goals
      dsimp only
      rw [halloc]
    · exact h.fresh_le
    · exact h.ids
    · exact h.gens
    · exact h.live_gen
    · exact h.returned_lt

theorem Handles.Inv.edit (h : s.Inv) (edit : Edit) :
    Handles.Inv { s with world := edit.exec s.world } := by
  have halloc := Edit.alloc_exec s.world edit
  refine ⟨edit.setsInv_exec h.sets, ?_, ?_, ?_, ?_, h.live_returned, ?_, h.spent⟩
  all_goals
    dsimp only
    rw [halloc]
  · exact h.fresh_le
  · exact h.ids
  · exact h.gens
  · exact h.live_gen
  · exact h.returned_lt

end Destroy

/-! ### Runs -/

theorem destructions_le_exec (id : UInt32) (s : Handles) (op : HandleOp) :
    s.destructions id ≤ (s.exec op).destructions id := by
  cases op with
  | spawn =>
    unfold Handles.exec Handles.spawn
    dsimp only
    split_ifs <;> exact Nat.le_refl _
  | destroy e =>
    unfold Handles.exec Handles.destroy
    dsimp only
    split_ifs
    · rw [Function.update_apply]
      split_ifs with hid
      · rw [hid]
        exact Nat.le_succ _
      · exact Nat.le_refl _
    · exact Nat.le_refl _
  | edit edit => exact Nat.le_refl _

theorem admissible_few {ops : List HandleOp} {s : Handles}
    (hfew : ∀ id, (runOps Handles.exec s ops).destructions id < 2 ^ 32) :
    Admissible Handles.exec (fun s _ => ∀ id, s.destructions id < 2 ^ 32) s ops := by
  induction ops generalizing s with
  | nil => trivial
  | cons op ops ih =>
    refine ⟨?_, ih hfew⟩
    intro id
    exact Nat.lt_of_le_of_lt (le_runOps (destructions_le_exec id) (op :: ops) s) (hfew id)

/-- **The invariant holds after every run.** -/
theorem handles_inv_run (b : (t : Table) → Blocks t.Component) {ops : List HandleOp}
    (hops : Admissible Handles.exec Handles.Returned (.init b) ops)
    (hfew : ∀ id, (runOps Handles.exec (.init b) ops).destructions id < 2 ^ 32) :
    (runOps Handles.exec (.init b) ops).Inv := by
  refine runOps_induction (I := Handles.Inv) ?_ (handles_inv_init b) (hops.and (admissible_few hfew))
  rintro s op hs ⟨hreturned, hfew⟩
  cases op with
  | spawn => exact hs.spawn
  | destroy e => exact hs.destroy hfew hreturned
  | edit edit => exact hs.edit edit

theorem Handles.Inv.count {s : Handles} (h : s.Inv) : (worldEntityCount s.world).toNat = s.live.length := by
  have hadd := h.length_add
  unfold worldEntityCount entityAllocatorCount
  rw [UInt32.toNat_sub_of_le _ _ (UInt32.le_iff_toNat_le.mpr (by omega))]
  omega

theorem find_remove_self {α : Type} (m : Bindings α) (e : Entity) : (m.remove e).find e = none := by
  unfold Bindings.remove Bindings.find
  split_ifs with hfound
  · rw [Function.update_self]
    rfl
  · cases hm : m e.id with
    | none => rfl
    | some p =>
      rw [hm] at hfound
      have hgen : p.1 ≠ e.gen := fun heq => hfound (congrArg some heq)
      simp [hgen]

theorem getComponent_worldDestroy {w : World} (h : w.SetsInv) (e x : Entity) (t : Table) :
    getComponent ((worldDestroy w e).table t) x =
      if x = e then none else getComponent (w.table t) x := by
  rw [table_worldDestroy, getComponent_eq_find, (setRemove_spec (h t) e).2]
  split_ifs with hx
  · rw [hx]
    exact find_remove_self _ e
  · rw [getComponent_eq_find]
    exact find_remove_of_ne _ (Ne.symm hx)

/-- The next spawn, the generation check of the handles that `known` singles out, the count and the next
destroy are as they should be. -/
structure Handles.Sound (s : Handles) (known : Entity → Prop) : Prop where
  fresh : (worldSpawn s.world).1 ≠ ⟨invalid, 0⟩ → (worldSpawn s.world).1 ∉ s.returned
  alive : ∀ e, known e → (worldIsAlive s.world e = true ↔ e ∈ s.live)
  count : s.live.Nodup ∧ (worldEntityCount s.world).toNat = s.live.length
  full : (worldSpawn s.world).1 = ⟨invalid, 0⟩ ↔ s.live.length = 65536
  destroyed : ∀ e ∈ s.returned, ∀ t, getComponent ((worldDestroy s.world e).table t) e = none ∧
    ∀ x, x ≠ e → getComponent ((worldDestroy s.world e).table t) x = getComponent (s.world.table t) x

theorem Handles.Inv.sound {s : Handles} (h : s.Inv) (hfew : ∀ id, s.destructions id < 2 ^ 32) :
    s.Sound (· ∈ s.returned) := by
  constructor
  · intro hvalid
    rcases spawn_cases h with ⟨hfst, -⟩ | hi
    · exact absurd hfst hvalid
    · exact h.not_returned hfew hi.gen hi.id_not_mem
  · intro e he
    exact h.alive_iff hfew he
  · exact ⟨h.nodup_ids.of_append_right.of_map, h.count⟩
  · rcases spawn_cases h with ⟨hfst, hlen, -⟩ | hi
    · exact iff_of_true hfst hlen
    · apply iff_of_false
      · intro hfst
        exact hi.id_ne_invalid (congrArg Entity.id hfst)
      · exact Nat.ne_of_lt hi.room
  · intro e _ t
    constructor
    · rw [getComponent_worldDestroy h.sets, if_pos rfl]
    · intro x hx
      rw [getComponent_worldDestroy h.sets, if_neg hx]

/-- **Handles are unique.** After every run of spawns, of destroys of handles that were returned (stale ones
too) and of edits of the tables, in which no id is destroyed `2 ^ 32` times, the next valid handle is a new
one, the generation check tells the live handles among those that were returned, and a destroy takes away
the components of its handle and no others. -/
theorem handles_sound (b : (t : Table) → Blocks t.Component) {ops : List HandleOp}
    (hops : Admissible Handles.exec Handles.Returned (.init b) ops)
    (hfew : ∀ id, (runOps Handles.exec (.init b) ops).destructions id < 2 ^ 32) :
    (runOps Handles.exec (.init b) ops).Sound
      (· ∈ (runOps Handles.exec (.init b) ops).returned) :=
  (handles_inv_run b hops hfew).sound hfew

/-- A handle is destroyed twice, and its id is spawned again in between. -/
def staleDestroys : List HandleOp :=
  [.spawn, .destroy ⟨0, 1⟩, .spawn, .destroy ⟨0, 1⟩]

theorem handles_sound_staleDestroys :
    (runOps Handles.exec (.init zeroBlocks) staleDestroys).Sound
      (· ∈ (runOps Handles.exec (.init zeroBlocks) staleDestroys).returned) := by
  apply handles_sound zeroBlocks
  · decide
  · intro id
    apply Nat.lt_of_le_of_lt (m := 1) _ (by decide)
    show (Function.update (fun _ => 0) (0 : UInt32) 1 : UInt32 → Nat) id ≤ 1
    rw [Function.update_apply]
    split_ifs
    · exact Nat.le_refl _
    · exact Nat.zero_le _

/-- The generation check accepts the first handle before it is spawned. -/
theorem alive_before_spawn :
    ¬ (runOps Handles.exec (.init zeroBlocks) []).Sound fun _ => True := by
  intro h
  have halive := (h.alive ⟨0, 1⟩ trivial).mp rfl
  cases halive

end Keuos.Ecs
