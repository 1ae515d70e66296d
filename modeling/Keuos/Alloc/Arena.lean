import Keuos.Lib.Run
import Mathlib.Data.UInt

/-!
# The arena

`user/alloc/arena.salt`: one block of memory from which pieces are taken in order of address.  Nothing is
freed but by moving the offset back, to 0 or to any earlier value.
-/

namespace Keuos.Alloc

def netHeadroom : UInt64 := 54

/-- `ARENA_BASE`, `ARENA_CAPACITY` and `ARENA_OFFSET`. -/
structure Arena where
  base : UInt64
  capacity : UInt64
  offset : UInt64
  deriving DecidableEq, Repr

def init (basePtr capacity : UInt64) : Arena := ⟨basePtr, capacity, 0⟩

def alloc (a : Arena) (size align : UInt64) : UInt64 × Arena :=
  let currentAddr := a.base + a.offset
  let remainder := currentAddr % align
  let padding := if remainder != 0 then align - remainder else 0
  let maxU64 : UInt64 := 0xFFFFFFFFFFFFFFFF
  if size > maxU64 - padding then (0, a)
  else
    let totalSize := size + padding
    if totalSize > a.capacity - a.offset then (0, a)
    else (currentAddr + padding, { a with offset := a.offset + totalSize })

def allocNetBuffer (a : Arena) (payloadSize align : UInt64) : UInt64 × Arena :=
  if payloadSize > 0xFFFFFFFFFFFFFFFF - netHeadroom then (0, a)
  else
    let totalRequest := payloadSize + netHeadroom
    if totalRequest > 0 then
      let baseAlloc := alloc a totalRequest align
      if baseAlloc.1 == 0 then (0, baseAlloc.2) else (baseAlloc.1 + netHeadroom, baseAlloc.2)
    else (0, a)

def resetAll (a : Arena) : Arena := { a with offset := 0 }

def resetTo (a : Arena) (checkpoint : UInt64) : Arena :=
  if checkpoint ≤ a.offset then { a with offset := checkpoint } else a

/-! ### Blocks in use -/

/-- A block that a call has returned, with the headroom that is in front of a network buffer. -/
structure Block where
  start : Nat
  size : Nat
  align : Nat
  deriving DecidableEq, Repr

def Block.stop (b : Block) : Nat := b.start + b.size

/-- No address belongs to both blocks. -/
def Block.Apart (b c : Block) : Prop := b.stop ≤ c.start ∨ c.stop ≤ b.start

instance (b c : Block) : Decidable (b.Apart c) := inferInstanceAs (Decidable (_ ∨ _))

inductive Op where
  | alloc (size align : UInt64)
  | allocNetBuffer (payloadSize align : UInt64)
  | getCheckpoint
  | resetTo (checkpoint : UInt64)
  | resetAll
  deriving DecidableEq, Repr

/-- The arena, and the blocks that have not been released. -/
structure Usage where
  arena : Arena
  blocks : List Block

/-- A call that returns a block adds it.  A checkpoint below the end of a block releases it. -/
def Usage.exec (s : Usage) : Op → Usage
  | .alloc size align =>
    let r := Alloc.alloc s.arena size align
    { arena := r.2
      blocks := if r.1 = 0 then s.blocks else ⟨r.1.toNat, size.toNat, align.toNat⟩ :: s.blocks }
  | .allocNetBuffer payloadSize align =>
    let r := Alloc.allocNetBuffer s.arena payloadSize align
    { arena := r.2
      blocks :=
        if r.1 = 0 then s.blocks
        else ⟨r.1.toNat - 54, payloadSize.toNat + 54, align.toNat⟩ :: s.blocks }
  | .getCheckpoint => s
  | .resetTo checkpoint =>
    { arena := Alloc.resetTo s.arena checkpoint
      blocks := s.blocks.filter fun b => b.stop ≤ s.arena.base.toNat + checkpoint.toNat }
  | .resetAll => { arena := Alloc.resetAll s.arena, blocks := [] }

/-- Sizes are positive, and alignments are powers of two. -/
def Op.Valid : Op → Prop
  | .alloc size align => 0 < size ∧ ∃ k, align.toNat = 2 ^ k
  | .allocNetBuffer payloadSize align => 0 < payloadSize ∧ ∃ k, align.toNat = 2 ^ k
  | _ => True

/-- Before the first call. -/
def Usage.start (basePtr capacity : UInt64) : Usage := ⟨init basePtr capacity, []⟩

end Keuos.Alloc
