import Mathlib.Data.Option.Basic
import Mathlib.Data.UInt
import Mathlib.Logic.Function.Basic

/-!
# The ECS of the lattice

`lattice_ecs/src/lib.rs`: sparse sets, the world, its queries, commands and schedules, and events.

`ι` is the type of the type ids and `C t` is the component type of `t`, so that the storage under a type id
has the right type by construction.  A result `none` is a panic: of an index that is out of bounds.  A mutable
reference is the index of its row, and a write through it is a `store` to the row.

What commands and systems do is given by the calls they make: a command of the crate makes one call of
`spawn`, and the commands and systems of its users may make any calls.  Resources are left out, as nothing
here reads them.
-/

namespace Keuos.LatticeEcs

/-- A handle. -/
structure Entity where
  val : UInt32
  deriving DecidableEq, Repr

/-! ### Sparse sets -/

structure SparseSet (α : Type) where
  dense : List α
  sparse : Entity → Option Nat
  denseToEntity : List Entity

namespace SparseSet

variable {α : Type}

def new : SparseSet α := ⟨[], fun _ => none, []⟩

def insert (s : SparseSet α) (entity : Entity) (component : α) : Option (SparseSet α) :=
  match s.sparse entity with
  | some idx => if idx < s.dense.length then some { s with dense := s.dense.set idx component } else none
  | none =>
    some
      { dense := s.dense ++ [component]
        denseToEntity := s.denseToEntity ++ [entity]
        sparse := Function.update s.sparse entity (some s.dense.length) }

def get (s : SparseSet α) (entity : Entity) : Option (Option α) :=
  match s.sparse entity with
  | some idx => (s.dense[idx]?).map some
  | none => some none

def getMut (s : SparseSet α) (entity : Entity) : Option (Option Nat) :=
  match s.sparse entity with
  | some idx => if idx < s.dense.length then some (some idx) else none
  | none => some none

/-- A write through a mutable reference. -/
def store (s : SparseSet α) (row : Nat) (component : α) : SparseSet α :=
  { s with dense := s.dense.set row component }

end SparseSet

/-! ### The world -/

variable {ι : Type} {C : ι → Type}

structure World (C : ι → Type) where
  nextEntity : UInt32
  components : (t : ι) → Option (SparseSet (C t))

/-- The components that `spawn` gives to an entity, in the order in which they are inserted.  The bundle of
the crate is a pair. -/
abbrev Bundle (C : ι → Type) := List (Σ t, C t)

namespace World

variable [DecidableEq ι]

def new : World C := ⟨0, fun _ => none⟩

def insert (w : World C) (t : ι) (entity : Entity) (component : C t) : Option (World C) := do
  let set ← ((w.components t).getD .new).insert entity component
  return { w with components := Function.update w.components t (some set) }

def spawn (w : World C) (components : Bundle C) : Option (Entity × World C) := do
  let entity : Entity := ⟨w.nextEntity⟩
  let w := { w with nextEntity := w.nextEntity + 1 }
  let w ← components.foldlM (fun w c => w.insert c.1 entity c.2) w
  return (entity, w)

def get (w : World C) (t : ι) (entity : Entity) : Option (Option (C t)) :=
  match w.components t with
  | none => some none
  | some s => s.get entity

def getMut (w : World C) (t : ι) (entity : Entity) : Option (Option Nat) :=
  match w.components t with
  | none => some none
  | some s => s.getMut entity

/-- A write through a mutable reference to a component of the type `t`. -/
def store (w : World C) (t : ι) (row : Nat) (component : C t) : World C :=
  { w with
    components := Function.update w.components t ((w.components t).map fun s => s.store row component) }

end World

/-! ### Queries -/

/-- The loops of the queries: the results of the entries for which there is one. -/
def collect {α β : Type} (f : α → Option (Option β)) (entries : List α) : Option (List β) :=
  entries.foldlM (fun results x => do
    match ← f x with
    | some r => return results ++ [r]
    | none => return results) []

namespace World

variable (w : World C)

/-- The query for `(&T1, &mut T2)`. -/
def queryRefMut (t₁ t₂ : ι) : Option (List (Entity × C t₁ × Nat)) :=
  match w.components t₁, w.components t₂ with
  | some s₁, some s₂ =>
    collect (fun entity => do
      let c₁ ← s₁.get entity
      let c₂ ← s₂.getMut entity
      match c₁, c₂ with
      | some c₁, some c₂ => return some (entity, c₁, c₂)
      | _, _ => return none) s₁.denseToEntity
  | _, _ => some []

/-- The query for `(&T1, &T2)`. -/
def queryRefRef (t₁ t₂ : ι) : Option (List (Entity × C t₁ × C t₂)) :=
  match w.components t₁, w.components t₂ with
  | some s₁, some s₂ =>
    collect (fun entity => do
      let c₁ ← s₁.get entity
      let c₂ ← s₂.get entity
      match c₁, c₂ with
      | some c₁, some c₂ => return some (entity, c₁, c₂)
      | _, _ => return none) s₁.denseToEntity
  | _, _ => some []

/-- The query for `&mut T`. -/
def queryMut (t : ι) : Option (List (Entity × Nat)) :=
  match w.components t with
  | some s =>
    collect (fun i => do
      let entity ← s.denseToEntity[i]?
      return (← s.getMut entity).map fun c => (entity, c)) (List.range s.denseToEntity.length)
  | none => some []

/-- The query for `&T`. -/
def queryRef (t : ι) : Option (List (Entity × C t)) :=
  match w.components t with
  | some s =>
    collect (fun entity => do
      return (← s.get entity).map fun c => (entity, c)) s.denseToEntity
  | none => some []

end World

/-! ### Calls -/

/-- The calls that change the world.  A mutable query is followed by writes through the references that it
has yielded, each given by the number of the item. -/
inductive Call (C : ι → Type) where
  | spawn (components : Bundle C)
  | insert (t : ι) (entity : Entity) (component : C t)
  | writeMut (t : ι) (entity : Entity) (component : C t)
  | writeQuery (t : ι) (writes : List (Nat × C t))
  | writeJoin (t₁ t₂ : ι) (hne : t₁ ≠ t₂) (writes : List (Nat × C t₂))

/-- A command does the calls of its list. -/
abbrev Command (C : ι → Type) := List (Call C)

/-- What a system does: calls on the world, and commands that it pushes. -/
inductive Step (C : ι → Type) where
  | call (c : Call C)
  | push (command : Command C)

abbrev System (C : ι → Type) := List (Step C)

section Exec

variable [DecidableEq ι]

/-- Writes through references, one after the other. -/
def storeAll {t : ι} (rows : List Nat) (w : World C) (writes : List (Nat × C t)) : World C :=
  writes.foldl (fun w write =>
    match rows[write.1]? with
    | some row => w.store t row write.2
    | none => w) w

def Call.exec (w : World C) : Call C → Option (World C)
  | .spawn components => do
    let (_, w) ← w.spawn components
    return w
  | .insert t entity component => w.insert t entity component
  | .writeMut t entity component => do
    match ← w.getMut t entity with
    | some row => return w.store t row component
    | none => return w
  | .writeQuery t writes => do
    let items ← w.queryMut t
    return storeAll (items.map (·.2)) w writes
  | .writeJoin t₁ t₂ _ writes => do
    let items ← w.queryRefMut t₁ t₂
    return storeAll (items.map (·.2.2)) w writes

/-- `Commands::apply`, for the commands in the queue. -/
def applyCommands (queue : List (Command C)) (w : World C) : Option (World C) :=
  queue.foldlM (fun w command => command.foldlM Call.exec w) w

/-- A step of a system, on the world and the queue of commands. -/
def Step.exec (s : World C × List (Command C)) : Step C → Option (World C × List (Command C))
  | .call c => do
    let w ← c.exec s.1
    return (w, s.2)
  | .push command => some (s.1, s.2 ++ [command])

/-- `Schedule::run`. -/
def runSchedule (systems : List (System C)) (w : World C) : Option (World C) := do
  let (w, queue) ← systems.foldlM (fun s system => system.foldlM Step.exec s) (w, [])
  applyCommands queue w

/-- What a program does with the world. -/
inductive Op (C : ι → Type) where
  | call (c : Call C)
  | apply (queue : List (Command C))
  | schedule (systems : List (System C))

def Op.exec (w : World C) : Op C → Option (World C)
  | .call c => c.exec w
  | .apply queue => applyCommands queue w
  | .schedule systems => runSchedule systems w

end Exec

/-! ### Events -/

structure Events (α : Type) where
  events : List α

def Events.new {α : Type} : Events α := ⟨[]⟩

def Events.send {α : Type} (e : Events α) (event : α) : Events α :=
  ⟨e.events ++ [event]⟩

structure EventReader where
  lastEventCount : Nat

def EventReader.new : EventReader := ⟨0⟩

/-- `EventReader::iter`: the events that the iterator yields, and the reader after the call. -/
def EventReader.iter {α : Type} (r : EventReader) (e : Events α) : Option (List α × EventReader) :=
  let start := r.lastEventCount
  if start ≤ e.events.length then some (e.events.drop start, ⟨e.events.length⟩) else none

end Keuos.LatticeEcs
