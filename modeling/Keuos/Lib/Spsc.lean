import Keuos.Lib.Run

/-!
# Rings with one producer and one consumer

A ring of `size` slots has two indices: the producer stores events at `head` and the consumer takes them from
`tail`, and the ring is empty where the two are equal.  One slot is never used, for otherwise a full ring
would look like an empty one.

The two sides are machines of their own.  A step reads an index, compares the two, copies one field of an
event between the caller and a slot, or writes an index, and the steps of the two sides come in any order.
Beside the ring there are three records: the events that were accepted, those that were popped, and for each
push how many events were queued when it read the tail, with its outcome.
-/

namespace Keuos.Spsc

universe u v

/-- A ring over the indices `ι` with the events `α`.  An event is copied in several steps, one for each of
`copies`, and all together they copy it whole. -/
structure Ring (ι : Type u) (α : Type v) where
  size : Nat
  zero : ι
  next : ι → ι
  pos : ι → Nat
  copies : List (α → α → α)
  one_lt_size : 1 < size
  pos_zero : pos zero = 0
  pos_next : ∀ i, pos i < size → pos (next i) = (pos i + 1) % size
  pos_inj : ∀ i j, pos i = pos j → i = j
  copy_all : ∀ source target, copies.foldl (fun slot copy => copy source slot) target = source

/-- Where a push stands. -/
inductive Producer (ι : Type u) (α : Type v) where
  | idle
  | readTail (event : α) (head : ι)
  | compare (event : α) (head tail : ι) (queued : Nat)
  | write (event : α) (head : ι) (written : Nat)

/-- Where a pop stands. -/
inductive Consumer (ι : Type u) (α : Type v) where
  | idle
  | readTail (out : α) (head : ι)
  | compare (out : α) (head tail : ι)
  | read (out : α) (tail : ι) (copied : Nat)

structure State (ι : Type u) (α : Type v) where
  slots : Nat → α
  head : ι
  tail : ι
  producer : Producer ι α
  consumer : Consumer ι α
  accepted : List α
  popped : List α
  verdicts : List (Nat × Bool)

/-- The producer or the consumer takes a step.  An idle producer begins to push the event, and an idle
consumer begins to pop into a variable that holds `out`. -/
inductive Op (α : Type v) where
  | produce (event : α)
  | consume (out : α)

section Machine

variable {ι : Type u} {α : Type v} [DecidableEq ι] (r : Ring ι α)

/-- The empty ring. -/
def State.init (slots : Nat → α) : State ι α where
  slots := slots
  head := r.zero
  tail := r.zero
  producer := .idle
  consumer := .idle
  accepted := []
  popped := []
  verdicts := []

/-- The number of events that are accepted and not popped. -/
def State.queued (s : State ι α) : Nat :=
  s.accepted.length - s.popped.length

/-- A step of a push. -/
def pushStep (s : State ι α) (event : α) : State ι α :=
  match s.producer with
  | .idle => { s with producer := .readTail event s.head }
  | .readTail event head => { s with producer := .compare event head s.tail s.queued }
  | .compare event head tail queued =>
    if r.next head ≠ tail then
      { s with producer := .write event head 0, verdicts := (queued, true) :: s.verdicts }
    else { s with producer := .idle, verdicts := (queued, false) :: s.verdicts }
  | .write event head written =>
    match r.copies[written]? with
    | some copy =>
      { s with
        slots := Function.update s.slots (r.pos head) (copy event (s.slots (r.pos head)))
        producer := .write event head (written + 1) }
    | none =>
      { s with head := r.next head, producer := .idle, accepted := s.accepted ++ [event] }

/-- A step of a pop. -/
def popStep (s : State ι α) (out : α) : State ι α :=
  match s.consumer with
  | .idle => { s with consumer := .readTail out s.head }
  | .readTail out head => { s with consumer := .compare out head s.tail }
  | .compare out head tail =>
    if head = tail then { s with consumer := .idle }
    else { s with consumer := .read out tail 0 }
  | .read out tail copied =>
    match r.copies[copied]? with
    | some copy =>
      { s with consumer := .read (copy (s.slots (r.pos tail)) out) tail (copied + 1) }
    | none => { s with tail := r.next tail, consumer := .idle, popped := s.popped ++ [out] }

def exec (s : State ι α) : Op α → State ι α
  | .produce event => pushStep r s event
  | .consume out => popStep r s out

/-- The events in the slots from the tail up to the head. -/
def State.content (s : State ι α) : List α :=
  (List.range ((r.pos s.head + r.size - r.pos s.tail) % r.size)).map fun k =>
    s.slots ((r.pos s.tail + k) % r.size)

/-- The positions of the slots that the two sides are about to access. -/
def State.positions (s : State ι α) : List Nat :=
  (match s.producer with
    | .write _ head _ => [r.pos head]
    | _ => []) ++
  (match s.consumer with
    | .read _ tail _ => [r.pos tail]
    | _ => [])

/-- **A ring is lossless**: what was popped, and then what is in the slots, is what was accepted, a push was
rejected when all slots but one were taken, and all accesses are to slots of the ring. -/
structure State.Lossless (s : State ι α) : Prop where
  fifo : s.popped ++ s.content r = s.accepted
  room : (s.content r).length ≤ r.size - 1
  rejected_iff : ∀ verdict ∈ s.verdicts, verdict.2 = false ↔ verdict.1 = r.size - 1
  bounds : ∀ position ∈ r.pos s.head :: r.pos s.tail :: s.positions r, position < r.size

end Machine

/-! ### Positions -/

theorem add_mod_size {t n size : Nat} (ht : t < size) (hn : n ≤ size) :
    (t + n) % size = if t + n < size then t + n else t + n - size := by
  split_ifs with hlt
  · exact Nat.mod_eq_of_lt hlt
  · rw [Nat.mod_eq_sub_mod (Nat.not_lt.mp hlt)]
    exact Nat.mod_eq_of_lt (by omega)

theorem add_mod_inj {t m n size : Nat} (ht : t < size) (hm : m < size) (hn : n < size)
    (h : (t + m) % size = (t + n) % size) : m = n := by
  rw [add_mod_size ht (Nat.le_of_lt hm), add_mod_size ht (Nat.le_of_lt hn)] at h
  split_ifs at h <;> omega

section Entries

variable {α : Type v}

/-- The `n` entries from the position `start` on. -/
def entries (slots : Nat → α) (size start n : Nat) : List α :=
  (List.range n).map fun k => slots ((start + k) % size)

theorem length_entries (slots : Nat → α) (size start n : Nat) :
    (entries slots size start n).length = n := by
  unfold entries
  rw [List.length_map, List.length_range]

theorem entries_update {slots : Nat → α} {size start n : Nat} (hstart : start < size) (hn : n < size)
    (a : α) :
    entries (Function.update slots ((start + n) % size) a) size start n =
      entries slots size start n := by
  unfold entries
  apply List.map_congr_left
  intro k hk
  apply Function.update_of_ne
  intro heq
  rw [List.mem_range] at hk
  exact Nat.ne_of_lt hk (add_mod_inj hstart (Nat.lt_trans hk hn) hn heq)

theorem entries_succ (slots : Nat → α) (size start n : Nat) :
    entries slots size start (n + 1) =
      entries slots size start n ++ [slots ((start + n) % size)] := by
  unfold entries
  rw [List.range_succ, List.map_append, List.map_singleton]

theorem entries_cons {slots : Nat → α} {size start : Nat} (hstart : start < size) (n : Nat) :
    entries slots size start (n + 1) =
      slots start :: entries slots size ((start + 1) % size) n := by
  unfold entries
  rw [List.range_succ_eq_map, List.map_cons, List.map_map, Nat.add_zero, Nat.mod_eq_of_lt hstart]
  congr 1
  apply List.map_congr_left
  intro k _
  rw [Function.comp_apply, Nat.mod_add_mod, Nat.succ_eq_add_one, Nat.add_assoc, Nat.add_comm 1]

end Entries

/-! ### The invariant -/

section Invariant

variable {ι : Type u} {α : Type v} (r : Ring ι α)

/-- `n` fields of the event are copied to `target`. -/
def Ring.Copied (source : α) (n : Nat) (target : α) : Prop :=
  n ≤ r.copies.length ∧
    ∃ old, target = (r.copies.take n).foldl (fun slot copy => copy source slot) old

theorem Ring.copied_zero (source target : α) : r.Copied source 0 target :=
  ⟨Nat.zero_le _, target, rfl⟩

theorem Ring.Copied.step {source target : α} {n : Nat} (h : r.Copied source n target)
    {copy : α → α → α} (hcopy : r.copies[n]? = some copy) :
    r.Copied source (n + 1) (copy source target) := by
  obtain ⟨-, old, htarget⟩ := h
  obtain ⟨hlt, hget⟩ := List.getElem?_eq_some_iff.mp hcopy
  refine ⟨hlt, old, ?_⟩
  rw [List.take_succ_eq_append_getElem hlt, List.foldl_append, hget, ← htarget]
  rfl

theorem Ring.Copied.done {source target : α} {n : Nat} (h : r.Copied source n target)
    (hnone : r.copies[n]? = none) : target = source := by
  obtain ⟨-, old, htarget⟩ := h
  rw [htarget, List.take_of_length_le (List.getElem?_eq_none_iff.mp hnone)]
  exact r.copy_all source old

/-- What the push in progress knows: the head is its own, and it has found room that nobody takes away. -/
def State.PushInv (s : State ι α) : Prop :=
  match s.producer with
  | .idle => True
  | .readTail _ head => head = s.head
  | .compare _ head tail queued =>
    head = s.head ∧ (r.next head = tail ↔ queued = r.size - 1) ∧
      (r.next head ≠ tail → s.queued + 1 < r.size)
  | .write event head written =>
    head = s.head ∧ s.queued + 1 < r.size ∧ r.Copied event written (s.slots (r.pos head))

/-- What the pop in progress knows: the tail is its own, and it has found an event that nobody takes away. -/
def State.PopInv (s : State ι α) : Prop :=
  match s.consumer with
  | .idle => True
  | .readTail _ head => head ≠ s.tail → 0 < s.queued
  | .compare _ head tail => tail = s.tail ∧ (head ≠ tail → 0 < s.queued)
  | .read out tail copied =>
    tail = s.tail ∧ 0 < s.queued ∧ r.Copied (s.slots (r.pos tail)) copied out

structure State.Inv (s : State ι α) : Prop where
  tail_lt : r.pos s.tail < r.size
  head_eq : r.pos s.head = (r.pos s.tail + s.queued) % r.size
  queued_lt : s.queued < r.size
  fifo : s.accepted = s.popped ++ entries s.slots r.size (r.pos s.tail) s.queued
  push : s.PushInv r
  pop : s.PopInv r
  rejected_iff : ∀ verdict ∈ s.verdicts, verdict.2 = false ↔ verdict.1 = r.size - 1

theorem inv_init (slots : Nat → α) : (State.init r slots).Inv r := by
  have hpos : 0 < r.size := Nat.lt_trans Nat.zero_lt_one r.one_lt_size
  constructor
  · show r.pos r.zero < r.size
    rwa [r.pos_zero]
  · show r.pos r.zero = (r.pos r.zero + 0) % r.size
    rw [r.pos_zero]
    exact (Nat.zero_mod _).symm
  · exact hpos
  · rfl
  · trivial
  · trivial
  · intro verdict hmem
    cases hmem

namespace State.Inv

variable {r} {s : State ι α}

theorem length_accepted (h : s.Inv r) : s.accepted.length = s.popped.length + s.queued := by
  conv_lhs => rw [h.fifo]
  rw [List.length_append, length_entries]

theorem head_lt (h : s.Inv r) : r.pos s.head < r.size := by
  rw [h.head_eq]
  exact Nat.mod_lt _ (Nat.lt_of_le_of_lt (Nat.zero_le _) h.tail_lt)

theorem head_eq_tail_iff (h : s.Inv r) : s.head = s.tail ↔ s.queued = 0 := by
  have heq := h.head_eq
  rw [add_mod_size h.tail_lt (Nat.le_of_lt h.queued_lt)] at heq
  have hlt := h.queued_lt
  constructor
  · intro hidx
    rw [hidx] at heq
    split_ifs at heq <;> omega
  · intro hzero
    apply r.pos_inj
    have htail := h.tail_lt
    rw [hzero] at heq
    rwa [Nat.add_zero, if_pos htail] at heq

theorem next_head_eq_tail_iff (h : s.Inv r) : r.next s.head = s.tail ↔ s.queued = r.size - 1 := by
  have hnext := r.pos_next s.head h.head_lt
  have htail := h.tail_lt
  have hlt := h.queued_lt
  rw [h.head_eq, Nat.mod_add_mod, Nat.add_assoc, add_mod_size htail hlt] at hnext
  constructor
  · intro hidx
    rw [hidx] at hnext
    split_ifs at hnext <;> omega
  · intro hfull
    apply r.pos_inj
    rw [hnext]
    split_ifs <;> omega

theorem pos_tail_ne (h : s.Inv r) (hpos : 0 < s.queued) : r.pos s.tail ≠ r.pos s.head := by
  intro heq
  have hzero := h.head_eq_tail_iff.mp (r.pos_inj _ _ heq.symm)
  omega

/-- **A step of a push keeps the invariant.** -/
theorem pushStep [DecidableEq ι] (h : s.Inv r) (event : α) : (pushStep r s event).Inv r := by
  have hpush := h.push
  unfold PushInv at hpush
  unfold Spsc.pushStep
  cases hproducer : s.producer with
  | idle => exact { h with push := rfl }
  | readTail event head =>
    rw [hproducer] at hpush
    obtain rfl : head = s.head := hpush
    refine { h with push := ⟨rfl, h.next_head_eq_tail_iff, ?_⟩ }
    intro hroom
    have hne := mt h.next_head_eq_tail_iff.mpr hroom
    have hlt := h.queued_lt
    show s.queued + 1 < r.size
    omega
  | compare event head tail queued =>
    rw [hproducer] at hpush
    obtain ⟨rfl, hfull, hroom⟩ := hpush
    dsimp only
    split_ifs with hnext
    · refine { h with push := ⟨rfl, hroom hnext, r.copied_zero _ _⟩, rejected_iff := ?_ }
      intro verdict hmem
      rcases List.mem_cons.mp hmem with rfl | hmem
      · exact iff_of_false Bool.noConfusion (mt hfull.mpr hnext)
      · exact h.rejected_iff verdict hmem
    · refine { h with push := trivial, rejected_iff := ?_ }
      intro verdict hmem
      rcases List.mem_cons.mp hmem with rfl | hmem
      · exact iff_of_true rfl (hfull.mp (not_not.mp hnext))
      · exact h.rejected_iff verdict hmem
  | write event head written =>
    rw [hproducer] at hpush
    obtain ⟨rfl, hroom, hcopied⟩ := hpush
    have hslot : (r.pos s.tail + s.queued) % r.size = r.pos s.head := h.head_eq.symm
    dsimp only
    cases hcopy : r.copies[written]? with
    | some copy =>
      -- the slot at the head is not one of the queued ones
      refine { h with fifo := ?_, push := ⟨rfl, hroom, ?_⟩, pop := ?_ }
      · show s.accepted = s.popped ++ entries (Function.update s.slots (r.pos s.head) _) r.size
          (r.pos s.tail) s.queued
        rw [← hslot, entries_update h.tail_lt h.queued_lt]
        exact h.fifo
      · dsimp only
        rw [Function.update_self]
        exact hcopied.step r hcopy
      · have hpop := h.pop
        unfold PopInv at hpop ⊢
        dsimp only
        cases hconsumer : s.consumer with
        | idle => trivial
        | readTail out head =>
          rw [hconsumer] at hpop
          exact hpop
        | compare out head tail =>
          rw [hconsumer] at hpop
          exact hpop
        | read out tail copied =>
          rw [hconsumer] at hpop
          obtain ⟨rfl, hpos, hout⟩ := hpop
          refine ⟨rfl, hpos, ?_⟩
          rwa [Function.update_of_ne (h.pos_tail_ne hpos)]
    | none =>
      -- the event is whole, and the write of the head adds it to the queue
      have hevent := hcopied.done r hcopy
      have hlen := h.length_accepted
      have hqueued : (s.accepted ++ [event]).length - s.popped.length = s.queued + 1 := by
        rw [List.length_append, List.length_singleton]
        omega
      constructor
      · exact h.tail_lt
      · show r.pos (r.next s.head) = (r.pos s.tail + ((s.accepted ++ [event]).length - _)) % r.size
        rw [hqueued, r.pos_next _ h.head_lt, h.head_eq, Nat.mod_add_mod, Nat.add_assoc]
      · show (s.accepted ++ [event]).length - _ < r.size
        rw [hqueued]
        exact hroom
      · show s.accepted ++ [event] = s.popped ++ entries s.slots r.size (r.pos s.tail)
          ((s.accepted ++ [event]).length - _)
        rw [hqueued, entries_succ, hslot, hevent, ← List.append_assoc, ← h.fifo]
      · trivial
      · have hpop := h.pop
        unfold PopInv State.queued at hpop ⊢
        dsimp only
        rw [hqueued]
        cases hconsumer : s.consumer with
        | idle => trivial
        | readTail out head => exact fun _ => Nat.succ_pos _
        | compare out head tail =>
          rw [hconsumer] at hpop
          exact ⟨hpop.1, fun _ => Nat.succ_pos _⟩
        | read out tail copied =>
          rw [hconsumer] at hpop
          exact ⟨hpop.1, Nat.succ_pos _, hpop.2.2⟩
      · exact h.rejected_iff

/-- **A step of a pop keeps the invariant.** -/
theorem popStep [DecidableEq ι] (h : s.Inv r) (out : α) : (popStep r s out).Inv r := by
  have hpop := h.pop
  unfold PopInv at hpop
  unfold Spsc.popStep
  cases hconsumer : s.consumer with
  | idle =>
    refine { h with pop := ?_ }
    intro hne
    exact Nat.pos_of_ne_zero (mt h.head_eq_tail_iff.mpr hne)
  | readTail out head =>
    rw [hconsumer] at hpop
    exact { h with pop := ⟨rfl, hpop⟩ }
  | compare out head tail =>
    rw [hconsumer] at hpop
    obtain ⟨rfl, hfound⟩ := hpop
    dsimp only
    split_ifs with hempty
    · exact { h with pop := trivial }
    · exact { h with pop := ⟨rfl, hfound hempty, r.copied_zero _ _⟩ }
  | read out tail copied =>
    rw [hconsumer] at hpop
    obtain ⟨rfl, hpos, hcopied⟩ := hpop
    dsimp only
    cases hcopy : r.copies[copied]? with
    | some copy => exact { h with pop := ⟨rfl, hpos, hcopied.step r hcopy⟩ }
    | none =>
      -- the event is whole, and the write of the tail takes it from the queue
      have hout := hcopied.done r hcopy
      have hlen := h.length_accepted
      have hqueued : s.accepted.length - (s.popped ++ [out]).length = s.queued - 1 := by
        rw [List.length_append, List.length_singleton]
        omega
      obtain ⟨n, hn⟩ : ∃ n, s.queued = n + 1 := ⟨s.queued - 1, by omega⟩
      have hnext := r.pos_next s.tail h.tail_lt
      rw [hn, Nat.add_sub_cancel] at hqueued
      constructor
      · show r.pos (r.next s.tail) < r.size
        rw [hnext]
        exact Nat.mod_lt _ (Nat.lt_of_le_of_lt (Nat.zero_le _) h.tail_lt)
      · show r.pos s.head = (r.pos (r.next s.tail) + (_ - (s.popped ++ [out]).length)) % r.size
        rw [hqueued, hnext, Nat.mod_add_mod, h.head_eq, hn, Nat.add_assoc, Nat.add_comm 1]
      · show _ - (s.popped ++ [out]).length < r.size
        rw [hqueued]
        have hlt := h.queued_lt
        omega
      · show s.accepted = (s.popped ++ [out]) ++ entries s.slots r.size (r.pos (r.next s.tail))
          (_ - (s.popped ++ [out]).length)
        rw [hqueued, hnext, hout, List.append_assoc, List.singleton_append, ← entries_cons h.tail_lt,
          ← hn]
        exact h.fifo
      · have hpush := h.push
        unfold PushInv State.queued at hpush ⊢
        dsimp only
        rw [hqueued]
        have hold : s.accepted.length - s.popped.length = n + 1 := hn
        rw [hold] at hpush
        cases hproducer : s.producer with
        | idle => trivial
        | readTail event head =>
          rw [hproducer] at hpush
          exact hpush
        | compare event head tail queued =>
          rw [hproducer] at hpush
          exact ⟨hpush.1, hpush.2.1, fun hne => Nat.lt_of_succ_lt (hpush.2.2 hne)⟩
        | write event head written =>
          rw [hproducer] at hpush
          exact ⟨hpush.1, Nat.lt_of_succ_lt hpush.2.1, hpush.2.2⟩
      · trivial
      · exact h.rejected_iff

theorem exec [DecidableEq ι] (h : s.Inv r) (op : Op α) : (exec r s op).Inv r := by
  cases op with
  | produce event => exact h.pushStep event
  | consume out => exact h.popStep out

/-- **What the invariant says of the ring.** -/
theorem lossless (h : s.Inv r) : s.Lossless r := by
  -- The count that a reader computes from the two positions is the number of queued elements.
  have hcount : (r.pos s.head + r.size - r.pos s.tail) % r.size = s.queued := by
    have htail := h.tail_lt
    have hlt := h.queued_lt
    rw [h.head_eq, add_mod_size htail (Nat.le_of_lt hlt)]
    split_ifs
    · rw [show r.pos s.tail + s.queued + r.size - r.pos s.tail = s.queued + r.size by omega,
        Nat.add_mod_right, Nat.mod_eq_of_lt hlt]
    · rw [show r.pos s.tail + s.queued - r.size + r.size - r.pos s.tail = s.queued by omega,
        Nat.mod_eq_of_lt hlt]
  have hcontent : s.content r = entries s.slots r.size (r.pos s.tail) s.queued := by
    unfold content entries
    rw [hcount]
  constructor
  · rw [hcontent]
    exact h.fifo.symm
  · rw [hcontent, length_entries]
    have hlt := h.queued_lt
    omega
  · exact h.rejected_iff
  · intro position hmem
    have hpush := h.push
    have hpop := h.pop
    unfold PushInv at hpush
    unfold PopInv at hpop
    unfold positions at hmem
    rw [List.mem_cons, List.mem_cons, List.mem_append] at hmem
    rcases hmem with rfl | rfl | hmem | hmem
    · exact h.head_lt
    · exact h.tail_lt
    · cases hproducer : s.producer with
      | write event head written =>
        rw [hproducer] at hpush hmem
        rw [List.mem_singleton.mp hmem, hpush.1]
        exact h.head_lt
      | _ =>
        rw [hproducer] at hmem
        cases hmem
    · cases hconsumer : s.consumer with
      | read out tail copied =>
        rw [hconsumer] at hpop hmem
        rw [List.mem_singleton.mp hmem, hpop.1]
        exact h.tail_lt
      | _ =>
        rw [hconsumer] at hmem
        cases hmem

end State.Inv

/-- **A ring is lossless in every state of every run.** -/
theorem lossless_run [DecidableEq ι] (slots : Nat → α) (ops : List (Op α)) :
    (runOps (exec r) (State.init r slots) ops).Lossless r :=
  (runOps_invariant (I := State.Inv r) (fun _ op hs => hs.exec op) (inv_init r slots) ops).lossless

end Invariant

end Keuos.Spsc
