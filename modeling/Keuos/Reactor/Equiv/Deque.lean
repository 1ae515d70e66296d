import Keuos.Reactor.Deque
import Keuos.Scheduler.Equiv.ChaseLev

/-!
# The deque of the reactor keeps its tasks

The elements of the deque are those from the top up to the limit (`Line.live`), which is the bottom, or one
more while a `pop_bottom` has lowered the bottom and has not decided.  The owner relies on the thieves to move
the top up and nothing else; a thief relies on the others not to touch the element at the top without moving
the top (`dequeProtocol`).  So the value that a thief has read from the slot at the top is the right one when
its compare-and-swap succeeds, whatever happened meanwhile.

## Main results

* `deque_verified`: every call keeps the protocol.
* `dequeLaw_run`: in every interleaving no task is lost and none is returned twice.
-/

namespace Keuos.Reactor

open ChaseLev (toInt_sub_of toInt_add_of)

variable {α : Type}

/-! ### Indices -/

theorem toInt_mod_capacity {i : Int64} (h : 0 ≤ i.toInt) : (i % dequeCapacity).toInt = i.toInt % 256 := by
  rw [Int64.toInt_mod, show dequeCapacity.toInt = 256 from rfl, Int.tmod_eq_emod_of_nonneg h]

theorem toInt_one : (1 : Int64).toInt = 1 := rfl

/-- The task in the slot of the element with the number `n`. -/
def Buffer.cell (d : Buffer α) (n : Int) : α :=
  d.slots (Int64.ofInt (n % 256))

theorem index_eq {i : Int64} (h : 0 ≤ i.toInt) : i % dequeCapacity = Int64.ofInt (i.toInt % 256) := by
  rw [← Int64.toInt_inj, toInt_mod_capacity h, Int64.toInt_ofInt_of_le (by omega) (by omega)]

theorem task_eq (d : Buffer α) {i : Int64} (h : 0 ≤ i.toInt) : d.task i = d.cell i.toInt := by
  unfold Buffer.task Buffer.cell
  rw [index_eq h]

theorem slot_ne {i : Int64} (h : 0 ≤ i.toInt) {n : Int} (hlt : n < i.toInt) (hfits : i.toInt < n + 256) :
    Int64.ofInt (n % 256) ≠ i % dequeCapacity := by
  intro heq
  have hnat := congrArg Int64.toInt heq
  rw [toInt_mod_capacity h, Int64.toInt_ofInt_of_le (by omega) (by omega)] at hnat
  omega

theorem used_index {i : Int64} (h : 0 ≤ i.toInt) : 0 ≤ i % dequeCapacity ∧ i % dequeCapacity ≤ 255 := by
  rw [Int64.le_iff_toInt_le, Int64.le_iff_toInt_le, toInt_mod_capacity h]
  show (0 : Int) ≤ _ ∧ _ ≤ (255 : Int)
  omega

/-! ### The elements -/

/-- The number after that of the last element. -/
def Line.limit (s : Line α) : Int :=
  s.deque.bottom.toInt + if s.lowered then 1 else 0

/-- The elements of the deque, from the top on. -/
def Line.live (s : Line α) : List α :=
  stretch s.deque.cell s.deque.top.toInt s.limit

/-- Every accepted task has been returned, is in the hand of the owner, or is in the deque, in push order. -/
structure Good (s : Line α) : Prop where
  top : 0 ≤ s.deque.top.toInt
  le : s.deque.top.toInt ≤ s.limit
  fits : s.limit ≤ s.deque.top.toInt + 256
  count : s.limit ≤ s.accepted.length
  small : s.accepted.length < 2 ^ 63
  conserved : s.accepted.Perm (s.returned ++ (s.hand ++ s.live))
  order : s.live.Sublist s.accepted
  used : ∀ i ∈ s.used, 0 ≤ i ∧ i ≤ 255

/-- What the owner relies on: the thieves move the top up. -/
structure OwnerRely (s s' : Line α) : Prop where
  bottom : s'.deque.bottom = s.deque.bottom
  slots : s'.deque.slots = s.deque.slots
  accepted : s'.accepted = s.accepted
  lowered : s'.lowered = s.lowered
  hand : s'.hand = s.hand
  top : s.deque.top.toInt ≤ s'.deque.top.toInt

/-- What a thief relies on: the element at the top stays until the top moves up. -/
structure ThiefRely (s s' : Line α) : Prop where
  top : s.deque.top.toInt ≤ s'.deque.top.toInt
  first : s'.deque.top = s.deque.top → s.deque.top.toInt < s.limit →
    s.deque.top.toInt < s'.limit ∧ s'.deque.cell s.deque.top.toInt = s.deque.cell s.deque.top.toInt

theorem ThiefRely.refl (s : Line α) : ThiefRely s s :=
  ⟨Int.le_refl _, fun _ h => ⟨h, rfl⟩⟩

theorem ThiefRely.of_lt {s s' : Line α} (h : s.deque.top.toInt < s'.deque.top.toInt) : ThiefRely s s' := by
  refine ⟨Int.le_of_lt h, ?_⟩
  intro heq
  rw [heq] at h
  exact absurd h (Int.lt_irrefl _)

theorem ThiefRely.trans {s₁ s₂ s₃ : Line α} (h : ThiefRely s₁ s₂)
    (h' : ThiefRely s₂ s₃) : ThiefRely s₁ s₃ := by
  refine ⟨Int.le_trans h.top h'.top, ?_⟩
  intro heq hlt
  have hsame : s₂.deque.top = s₁.deque.top := by
    have htop := h.top
    have htop' := h'.top
    rw [heq] at htop'
    exact Int64.toInt_inj.mp (Int.le_antisymm htop' htop)
  obtain ⟨hlt₂, hcell₂⟩ := h.first hsame hlt
  have hfirst := h'.first (heq.trans hsame.symm)
  rw [hsame] at hfirst
  obtain ⟨hlt₃, hcell₃⟩ := hfirst hlt₂
  exact ⟨hlt₃, hcell₃.trans hcell₂⟩

/-! ### What a step does to the tasks -/

theorem Good.use {s : Line α} (h : Good s) {i : Int64} (hi : 0 ≤ i.toInt) :
    Good { s with used := s.used ++ [i % dequeCapacity] } := by
  refine ⟨h.top, h.le, h.fits, h.count, h.small, h.conserved, h.order, ?_⟩
  intro j hj
  rcases List.mem_append.mp hj with hj | hj
  · exact h.used j hj
  · obtain rfl := List.mem_singleton.mp hj
    exact used_index hi

/-- **Stealing the first element** hands it out. -/
theorem Good.steal {s : Line α} (h : Good s) (hlt : s.deque.top.toInt < s.limit) :
    let s' : Line α := { s with
      deque := { s.deque with top := s.deque.top + 1 }
      returned := s.returned ++ [s.deque.cell s.deque.top.toInt] }
    Good s' ∧ s'.deque.top.toInt = s.deque.top.toInt + 1 := by
  intro s'
  have htop := h.top
  have hcount := h.count
  have hsmall := h.small
  have hnext : s'.deque.top.toInt = s.deque.top.toInt + 1 := by
    show (s.deque.top + 1).toInt = _
    rw [toInt_add_of, toInt_one]
    · rw [toInt_one]
      omega
    · rw [toInt_one]
      omega
  have hlive : s.live = s.deque.cell s.deque.top.toInt :: s'.live := by
    unfold Line.live
    rw [hnext]
    exact stretch_cons hlt
  refine ⟨⟨?_, ?_, ?_, hcount, hsmall, ?_, ?_, h.used⟩, hnext⟩
  · rw [hnext]
    omega
  · rw [hnext]
    exact hlt
  · rw [hnext]
    have hfits := h.fits
    show s.limit ≤ _
    omega
  · have hconserved := h.conserved
    rw [hlive] at hconserved
    refine hconserved.trans ?_
    show (s.returned ++ (s.hand ++ s.deque.cell s.deque.top.toInt :: s'.live)).Perm
      (s.returned ++ [s.deque.cell s.deque.top.toInt] ++ (s.hand ++ s'.live))
    rw [List.append_assoc]
    exact List.perm_middle.append_left _
  · have horder := h.order
    rw [hlive] at horder
    exact (List.sublist_cons_self _ _).trans horder

/-- The state after the task is stored. -/
def Line.put (s : Line α) (b : Int64) (taskId : α) : Line α :=
  { s with
    deque := { s.deque with slots := Function.update s.deque.slots (b % dequeCapacity) taskId }
    used := s.used ++ [b % dequeCapacity] }

theorem Good.put {s : Line α} (h : Good s) {b : Int64} (hb : s.limit = b.toInt)
    (hroom : b.toInt < s.deque.top.toInt + 256) (taskId : α) :
    Good (s.put b taskId) ∧ ThiefRely s (s.put b taskId) := by
  have htop := h.top
  have hle := h.le
  have hcell : ∀ n, s.deque.top.toInt ≤ n → n < b.toInt → (s.put b taskId).deque.cell n = s.deque.cell n := by
    intro n hlo hhi
    exact Function.update_of_ne (slot_ne (by omega) hhi (by omega)) _ _
  have hlive : (s.put b taskId).live = s.live := by
    apply stretch_congr
    intro n hlo hhi
    exact hcell n hlo (lt_of_lt_of_eq hhi hb)
  refine ⟨⟨h.top, h.le, h.fits, h.count, h.small, ?_, ?_, ?_⟩, ?_, ?_⟩
  · rw [hlive]
    exact h.conserved
  · rw [hlive]
    exact h.order
  · exact (h.use (i := b) (by omega)).used
  · exact Int.le_refl _
  · intro _ hlt
    exact ⟨hlt, hcell _ (Int.le_refl _) (by omega)⟩

/-- The state after the bottom has moved over the stored task. -/
def Line.accept (s : Line α) (b : Int64) (taskId : α) : Line α :=
  { s with deque := { s.deque with bottom := b + 1 }, accepted := s.accepted ++ [taskId] }

/-- **Moving the bottom over the stored task** accepts it. -/
theorem Good.accept {s : Line α} (h : Good s) {b : Int64} (hb : s.deque.bottom = b)
    (hlowered : s.lowered = false)
    (hroom : b.toInt < s.deque.top.toInt + 256) {taskId : α} (hcell : s.deque.task b = taskId)
    (hsmall : s.accepted.length + 1 < 2 ^ 63) :
    Good (s.accept b taskId) ∧ ThiefRely s (s.accept b taskId) := by
  have htop := h.top
  have hle := h.le
  have hcount := h.count
  have hlimit : s.limit = b.toInt := by
    unfold Line.limit
    rw [hlowered, hb]
    simp
  have hnext : (b + 1).toInt = b.toInt + 1 := by
    rw [toInt_add_of, toInt_one]
    · rw [toInt_one]
      omega
    · rw [toInt_one]
      omega
  have hlimit' : (s.accept b taskId).limit = b.toInt + 1 := by
    show (b + 1).toInt + (if s.lowered then 1 else 0) = _
    rw [hlowered, hnext]
    simp
  have hlive : (s.accept b taskId).live = s.live ++ [taskId] := by
    unfold Line.live
    rw [hlimit', hlimit, ← hcell, task_eq _ (by omega)]
    have hlo : s.deque.top.toInt ≤ b.toInt := by omega
    exact stretch_concat hlo
  have hlength : (s.accept b taskId).accepted.length = s.accepted.length + 1 := by
    simp [Line.accept]
  refine ⟨⟨h.top, ?_, ?_, ?_, ?_, ?_, ?_, h.used⟩, ?_, ?_⟩
  · rw [hlimit']
    show s.deque.top.toInt ≤ _
    omega
  · rw [hlimit']
    show _ ≤ s.deque.top.toInt + 256
    omega
  · rw [hlimit', hlength]
    omega
  · rw [hlength]
    exact hsmall
  · rw [hlive]
    show (s.accepted ++ [taskId]).Perm (s.returned ++ (s.hand ++ (s.live ++ [taskId])))
    rw [← List.append_assoc s.hand, ← List.append_assoc s.returned]
    exact h.conserved.append_right _
  · rw [hlive]
    exact h.order.append_right _
  · exact Int.le_refl _
  · intro _ hlt
    refine ⟨?_, rfl⟩
    rw [hlimit']
    omega

theorem Good.relimit {s : Line α} (h : Good s) {b : Int64} {lowered : Bool}
    (hsame : Line.limit { s with deque := { s.deque with bottom := b }, lowered := lowered } = s.limit) :
    let s' : Line α := { s with deque := { s.deque with bottom := b }, lowered := lowered }
    Good s' ∧ ThiefRely s s' := by
  intro s'
  have hlive : s'.live = s.live := by
    unfold Line.live
    rw [hsame]
    rfl
  refine ⟨⟨h.top, ?_, ?_, ?_, h.small, ?_, ?_, h.used⟩, Int.le_refl _, ?_⟩
  · rw [hsame]
    exact h.le
  · rw [hsame]
    exact h.fits
  · rw [hsame]
    exact h.count
  · rw [hlive]
    exact h.conserved
  · rw [hlive]
    exact h.order
  · intro _ hlt
    rw [hsame]
    exact ⟨hlt, rfl⟩

/-- The state after the bottom is lowered. -/
def Line.lower (s : Line α) : Line α :=
  { s with deque := { s.deque with bottom := s.deque.bottom - 1 }, lowered := true }

theorem toInt_sub_one {b : Int64} (h : 0 ≤ b.toInt) : (b - 1).toInt = b.toInt - 1 := by
  have hlt := b.toInt_lt
  rw [toInt_sub_of, toInt_one]
  · rw [toInt_one]
    omega
  · rw [toInt_one]
    omega

theorem Good.lower {s : Line α} (h : Good s) (hlowered : s.lowered = false) :
    Good s.lower ∧ ThiefRely s s.lower := by
  have hlimit : s.limit = s.deque.bottom.toInt := by
    unfold Line.limit
    rw [hlowered]
    simp
  have hnonneg : 0 ≤ s.deque.bottom.toInt := by
    have htop := h.top
    have hle := h.le
    omega
  apply h.relimit
  rw [hlimit]
  show (s.deque.bottom - 1).toInt + 1 = _
  rw [toInt_sub_one hnonneg]
  omega

/-- The state after the owner has taken the last of several elements. -/
def Line.takeLast (s : Line α) : Line α :=
  { s with lowered := false, hand := [s.deque.task s.deque.bottom] }

/-- **Taking the last of several elements** needs no compare-and-swap. -/
theorem Good.takeLast {s : Line α} (h : Good s) (hlowered : s.lowered = true) (hhand : s.hand = [])
    (hlt : s.deque.top < s.deque.bottom) : Good s.takeLast ∧ ThiefRely s s.takeLast := by
  rw [Int64.lt_iff_toInt_lt] at hlt
  have hlimit : s.limit = s.deque.bottom.toInt + 1 := by
    unfold Line.limit
    rw [hlowered]
    simp
  have htop := h.top
  have hfits := h.fits
  have hcount := h.count
  have hlimit' : s.takeLast.limit = s.deque.bottom.toInt := by
    show s.deque.bottom.toInt + (if false = true then 1 else 0) = _
    simp
  have hlive : s.live = s.takeLast.live ++ [s.deque.task s.deque.bottom] := by
    unfold Line.live
    rw [hlimit, hlimit', task_eq _ (by omega)]
    exact stretch_concat (Int.le_of_lt hlt)
  refine ⟨⟨h.top, ?_, ?_, ?_, h.small, ?_, ?_, h.used⟩, Int.le_refl _, ?_⟩
  · rw [hlimit']
    exact Int.le_of_lt hlt
  · rw [hlimit']
    show _ ≤ s.deque.top.toInt + 256
    omega
  · rw [hlimit']
    show _ ≤ (s.accepted.length : Int)
    omega
  · have hconserved := h.conserved
    rw [hlive, hhand, List.nil_append] at hconserved
    exact hconserved.trans (List.perm_append_comm.append_left _)
  · have horder := h.order
    rw [hlive] at horder
    exact (List.sublist_append_left _ _).trans horder
  · intro _ _
    rw [hlimit']
    exact ⟨hlt, rfl⟩

/-- The state after the bottom is set to `v` again. -/
def Line.raise (s : Line α) (v : Int64) : Line α :=
  { s with deque := { s.deque with bottom := v }, lowered := false }

theorem Good.raise {s : Line α} (h : Good s) {v : Int64} (hv : v.toInt = s.limit) :
    Good (s.raise v) ∧ ThiefRely s (s.raise v) := by
  apply h.relimit
  rw [← hv]
  show v.toInt + (if false = true then 1 else 0) = _
  simp

/-- The state after the owner has won the last element. -/
def Line.claim (s : Line α) : Line α :=
  { s with deque := { s.deque with top := s.deque.top + 1 }, hand := [s.deque.task s.deque.top] }

theorem Good.claim {s : Line α} (h : Good s) (hhand : s.hand = []) (hlt : s.deque.top.toInt < s.limit) :
    Good s.claim ∧ s.claim.deque.top.toInt = s.deque.top.toInt + 1 := by
  obtain ⟨hgood, hnext⟩ := h.steal hlt
  refine ⟨⟨hgood.top, hgood.le, hgood.fits, hgood.count, hgood.small, ?_, hgood.order, hgood.used⟩, hnext⟩
  have hconserved : s.accepted.Perm
      (s.returned ++ [s.deque.cell s.deque.top.toInt] ++ (s.hand ++ s.claim.live)) := hgood.conserved
  rw [hhand, List.nil_append, List.append_assoc] at hconserved
  show s.accepted.Perm (s.returned ++ ([s.deque.task s.deque.top] ++ s.claim.live))
  rw [task_eq _ h.top]
  exact hconserved

theorem live_eq_contents {s : Line α} (h : Good s) (hlowered : s.lowered = false) : s.live =
    s.deque.contents := by
  have hlimit : s.limit = s.deque.bottom.toInt := by
    unfold Line.limit
    rw [hlowered]
    simp
  have htop := h.top
  have hle := h.le
  have hcount := h.count
  have hsmall := h.small
  rw [hlimit] at hle hcount
  unfold Line.live stretch Buffer.contents
  rw [hlimit, toInt_sub_of (by omega) (by omega)]
  apply List.map_congr_left
  intro k hk
  rw [List.mem_range] at hk
  have hindex : (s.deque.top + Int64.ofNat k).toInt = s.deque.top.toInt + k := by
    have hk' : (Int64.ofNat k).toInt = k := Int64.toInt_ofNat_of_lt (by omega)
    rw [toInt_add_of, hk']
    · rw [hk']
      omega
    · rw [hk']
      omega
  rw [task_eq _ (by omega), hindex]

theorem accepted_le_afterOwner (s : Line α) (c : OwnerCall α) (o : DequeAccess α) :
    s.accepted.length ≤ (afterOwner s c o).accepted.length := by
  unfold afterOwner
  split
  · simp
  · exact Nat.le_refl _
  · split <;> exact Nat.le_refl _
  · split <;> exact Nat.le_refl _
  · exact Nat.le_refl _

/-! ### The protocol -/

/-- The protocol of the deque, for runs with fewer than 2^63 accepted pushes. -/
def dequeProtocol (α : Type) [Inhabited α] : Protocol (dequeMachine α) where
  Inv := Good
  Rely
    | .owner => OwnerRely
    | .thief _ => ThiefRely
  Idle
    | .owner => fun s => s.lowered = false ∧ s.hand = []
    | .thief _ => fun _ => True
  Guard i c o s := ((dequeMachine α).step i c o s).2.accepted.length < 2 ^ 63
  rely_refl := by
    rintro (_ | n) s
    · exact ⟨rfl, rfl, rfl, rfl, rfl, Int.le_refl _⟩
    · exact ThiefRely.refl s
  rely_trans := by
    rintro (_ | n) s₁ s₂ s₃ h h'
    · exact ⟨h'.bottom.trans h.bottom, h'.slots.trans h.slots, h'.accepted.trans h.accepted,
        h'.lowered.trans h.lowered, h'.hand.trans h.hand, Int.le_trans h.top h'.top⟩
    · exact ThiefRely.trans h h'
  idle_stable := by
    rintro (_ | n) s s' h hr
    · exact ⟨hr.lowered.trans h.1, hr.hand.trans h.2⟩
    · trivial

variable [Inhabited α]

/-- What must hold of the program that is left of a call of the owner. -/
abbrev OwnerWp {β : Type} (c : OwnerCall α) (p : DequeProg α β) (Q : β → Line α → Line α → Prop)
    (s s₁ : Line α) : Prop :=
  (dequeProtocol α).wp (i := .owner) c p Q s s₁

/-- What must hold of the program that is left of a call of a thief. -/
abbrev ThiefWp {β : Type} (n : Nat) (p : DequeProg α β) (Q : β → Line α → Line α → Prop)
  (s s₁ : Line α) : Prop :=
  (dequeProtocol α).wp (i := .thief n) () p Q s s₁

theorem guar_owner {s s' : Line α} (h : ThiefRely s s') : (dequeProtocol α).Guar .owner s s' := by
  intro j hj
  cases j with
  | owner => exact absurd rfl hj
  | thief n => exact h

theorem guar_thief {n : Nat} {s s' : Line α} (h : OwnerRely s s') (h' : ThiefRely s s') :
    (dequeProtocol α).Guar (.thief n) s s' := by
  intro j _
  cases j with
  | owner => exact h
  | thief m => exact h'

/-! ### Thieves -/

section Thief

variable {n : Nat}

/-- What a thief knows in a call: the top was `t`, and as long as it is, an element is there, whose task is
`x` once it has been read. -/
structure ThiefKnows (t : Int64) (x : Option α) (s : Line α) : Prop where
  nonneg : 0 ≤ t.toInt
  top : t.toInt ≤ s.deque.top.toInt
  first : s.deque.top = t → t.toInt < s.limit ∧ ∀ a, x = some a → s.deque.cell t.toInt = a

theorem ThiefKnows.stable (t : Int64) (x : Option α) : (dequeProtocol α).Stable (.thief n)
    (ThiefKnows t x) := by
  rintro s s' - hr hK
  refine ⟨hK.nonneg, Int.le_trans hK.top hr.top, ?_⟩
  intro htop
  have hsame : s.deque.top = t := by
    have hle := hr.top
    rw [htop] at hle
    exact Int64.toInt_inj.mp (Int.le_antisymm hle hK.top)
  obtain ⟨hlt, hcell⟩ := hK.first hsame
  obtain ⟨hlt', hcell'⟩ := hr.first (htop.trans hsame.symm) (by rw [hsame]; exact hlt)
  rw [hsame] at hlt' hcell'
  exact ⟨hlt', fun a ha => hcell'.trans (hcell a ha)⟩

theorem step_thief_load (i : Index) (s : Line α) :
    (dequeMachine α).step (.thief n) () (.load i) s = (.index (s.deque.get i), s) := by
  simp [dequeMachine, DequeAccess.sem, DequeAccess.slots]

theorem done_thief {s : Line α} (h : Good s) {a : Outcome α} (ha : a.tasks = []) :
    (dequeProtocol α).Done (i := .thief n) () a s s := by
  have hfinish : (dequeMachine α).finish (.thief n) () a s s = s := by
    simp [dequeMachine, ha]
  unfold Protocol.Done
  rw [hfinish]
  exact ⟨h, Protocol.guar_refl _ s, trivial⟩

theorem step_cas_won {t d : Int64} {s : Line α} (h : s.deque.top = t) :
    (dequeMachine α).step (.thief n) () (.casTop t d) s =
      (.index t, { s with deque := { s.deque with top := d } }) := by
  simp [dequeMachine, DequeAccess.sem, DequeAccess.slots, h]

theorem step_cas_lost {t d : Int64} {s : Line α} (h : s.deque.top ≠ t) :
    (dequeMachine α).step (.thief n) () (.casTop t d) s = (.index s.deque.top, s) := by
  simp [dequeMachine, DequeAccess.sem, DequeAccess.slots, h]

/-- **A `steal_top` keeps the protocol.** -/
theorem wp_stealTop {s : Line α} (h : Good s) :
    ThiefWp n stealTop ((dequeProtocol α).Done (i := .thief n) ()) s s := by
  have htrue : (dequeProtocol α).Stable (.thief n) fun _ => True := fun _ _ _ _ _ => trivial
  refine Protocol.wp_op htrue ?_ h (Protocol.guar_refl _ s) trivial
  intro s₁ h₁ _ _
  rw [step_thief_load]
  dsimp only [Prog.bind, Word.toIndex, Buffer.get]
  generalize htop : s₁.deque.top = t
  have hstable : (dequeProtocol α).Stable (.thief n) fun s : Line α => t.toInt ≤ s.deque.top.toInt :=
    fun s s' _ hr hle => Int.le_trans hle hr.top
  refine Protocol.wp_op hstable ?_ h₁ (Protocol.guar_refl _ s₁) (by rw [htop])
  intro s₂ h₂ hle _
  rw [step_thief_load]
  dsimp only [Prog.bind, Word.toIndex, Buffer.get]
  have hnonneg : 0 ≤ t.toInt := by
    rw [← htop]
    exact h₁.top
  by_cases hempty : t ≥ s₂.deque.bottom
  · rw [if_pos hempty]
    exact done_thief h₂ rfl
  rw [if_neg hempty]
  -- the bottom was above `t`, so if the top is still `t` then an element is there
  have hK : ThiefKnows t (none : Option α) s₂ := by
    refine ⟨hnonneg, hle, ?_⟩
    intro _
    refine ⟨?_, fun a ha => nomatch ha⟩
    rw [ge_iff_le, Int64.le_iff_toInt_le] at hempty
    unfold Line.limit
    split <;> omega
  refine Protocol.wp_op (ThiefKnows.stable t none) ?_ h₂ (Protocol.guar_refl _ s₂) hK
  intro s₃ h₃ hK₃ _
  have hload : (dequeMachine α).step (.thief n) () (.loadSlot (t % dequeCapacity)) s₃ =
      (.task (s₃.deque.cell t.toInt), { s₃ with used := s₃.used ++ [t % dequeCapacity] }) := by
    rw [← task_eq _ hnonneg]
    rfl
  rw [hload]
  dsimp only [Prog.bind, Word.toTask]
  have hguar : (dequeProtocol α).Guar (.thief n) s₃ { s₃ with used := s₃.used ++ [t % dequeCapacity] } :=
    guar_thief ⟨rfl, rfl, rfl, rfl, rfl, Int.le_refl _⟩ ⟨Int.le_refl _, fun _ hlt => ⟨hlt, rfl⟩⟩
  have hK' : ThiefKnows t (some (s₃.deque.cell t.toInt))
      { s₃ with used := s₃.used ++ [t % dequeCapacity] } := by
    refine ⟨hnonneg, hK₃.top, ?_⟩
    intro heq
    refine ⟨(hK₃.first heq).1, ?_⟩
    rintro a ha
    exact Option.some.inj ha
  refine Protocol.wp_op (ThiefKnows.stable t _) ?_ (h₃.use hnonneg) hguar hK'
  intro s₄ h₄ hK₄ _
  by_cases hwon : s₄.deque.top = t
  · rw [step_cas_won hwon]
    dsimp only [Prog.bind, Word.toIndex]
    rw [if_neg (by simp)]
    obtain ⟨hlt, hcell⟩ := hK₄.first hwon
    obtain ⟨hgood, hnext⟩ := h₄.steal (by rw [hwon]; exact hlt)
    rw [hwon, hcell _ rfl] at hgood
    rw [hwon] at hnext
    have hmoves : s₄.deque.top.toInt < (t + 1).toInt := by
      have hnext' : (t + 1).toInt = t.toInt + 1 := hnext
      rw [hwon]
      omega
    exact ⟨hgood, guar_thief ⟨rfl, rfl, rfl, rfl, rfl, Int.le_of_lt hmoves⟩ (ThiefRely.of_lt hmoves), trivial⟩
  · rw [step_cas_lost hwon]
    dsimp only [Prog.bind, Word.toIndex]
    rw [if_pos (by simpa using hwon)]
    exact done_thief h₄ rfl

end Thief

/-! ### The owner -/

section Owner

/-- What the owner knows in a call: the records and the bottom are its own, the slots are written by nobody
else, and the top is at least `t`. -/
structure OwnerKnows (lowered : Bool) (hand : List α) (b : Int64) (slots : Int64 → α) (t : Int) (s : Line α) :
    Prop where
  lowered : s.lowered = lowered
  hand : s.hand = hand
  bottom : s.deque.bottom = b
  slots : s.deque.slots = slots
  top : t ≤ s.deque.top.toInt

theorem OwnerKnows.stable (lowered : Bool) (hand : List α) (b : Int64) (slots : Int64 → α) (t : Int) :
    (dequeProtocol α).Stable .owner (OwnerKnows lowered hand b slots t) := by
  rintro s s' - hr hK
  exact ⟨hr.lowered.trans hK.lowered, hr.hand.trans hK.hand, hr.bottom.trans hK.bottom,
    hr.slots.trans hK.slots,
    Int.le_trans hK.top hr.top⟩

theorem done_owner {c : OwnerCall α} {s s' : Line α} (h : Good s') (hrely : ThiefRely s s') {a : Outcome α}
    (ha : a.tasks = s'.hand) (hlowered : s'.lowered = false) :
    (dequeProtocol α).Done (i := .owner) c a s s' := by
  refine ⟨⟨h.top, h.le, h.fits, h.count, h.small, ?_, h.order, h.used⟩,
    guar_owner ⟨hrely.top, hrely.first⟩, hlowered, rfl⟩
  show s'.accepted.Perm (s'.returned ++ a.tasks ++ ([] ++ s'.live))
  rw [ha, List.append_assoc]
  exact h.conserved

theorem step_push_load (taskId : α) (i : Index) (s : Line α) :
    (dequeMachine α).step .owner (.push taskId) (.load i) s = (.index (s.deque.get i), s) := by
  simp [dequeMachine, DequeAccess.sem, DequeAccess.slots, afterOwner]

theorem step_load_bottom (c : OwnerCall α) (s : Line α) :
    (dequeMachine α).step .owner c (.load .bottom) s = (.index s.deque.bottom, s) := by
  cases c <;> simp [dequeMachine, DequeAccess.sem, DequeAccess.slots, afterOwner, Buffer.get]

/-! ### Pushes -/

theorem step_push_storeSlot (taskId : α) (b : Int64) (s : Line α) :
    (dequeMachine α).step .owner (.push taskId) (.storeSlot (b % dequeCapacity) taskId) s =
      (.index 0, s.put b taskId) := by
  rfl

theorem step_push_store (taskId : α) (b : Int64) (s : Line α) :
    (dequeMachine α).step .owner (.push taskId) (.store .bottom (b + 1)) s =
      (.index 0, s.accept b taskId) := by
  simp [dequeMachine, DequeAccess.sem, DequeAccess.slots, afterOwner, Buffer.set, Line.accept]

/-- **A `push_bottom` keeps the protocol.** -/
theorem wp_pushBottom (taskId : α) {s : Line α} (h : Good s) (hidle : s.lowered = false ∧ s.hand = []) :
    OwnerWp (.push taskId) (pushBottom taskId)
      ((dequeProtocol α).Done (i := .owner) (OwnerCall.push taskId)) s s := by
  have hK : OwnerKnows false [] s.deque.bottom s.deque.slots s.deque.top.toInt s :=
    ⟨hidle.1, hidle.2, rfl, rfl, Int.le_refl _⟩
  -- The load of the bottom.
  -- The load of the top.  A thief may raise it afterwards, never lower it, so the room found here remains.
  -- The store of the task, into a slot behind those of the deque.
  -- The store of the bottom: from here on a thief sees the task.
  refine Protocol.wp_op (OwnerKnows.stable _ _ _ _ _) ?_ h (Protocol.guar_refl _ s) hK
  generalize s.deque.bottom = b, s.deque.slots = f, s.deque.top.toInt = t₀
  intro s₁ h₁ hK₁ _
  rw [step_load_bottom, hK₁.bottom]
  dsimp only [Prog.bind, Word.toIndex]
  refine Protocol.wp_op (OwnerKnows.stable _ _ _ _ _) ?_ h₁ (Protocol.guar_refl _ s₁) hK₁
  intro s₂ h₂ hK₂ _
  rw [step_push_load]
  dsimp only [Prog.bind, Word.toIndex, Buffer.get]
  have hlimit : ∀ s : Line α, OwnerKnows false [] b f s₂.deque.top.toInt s → s.limit = b.toInt := by
    intro s hK
    unfold Line.limit
    rw [hK.lowered, hK.bottom]
    simp
  have hK₂' : OwnerKnows false [] b f s₂.deque.top.toInt s₂ :=
    ⟨hK₂.lowered, hK₂.hand, hK₂.bottom, hK₂.slots, Int.le_refl _⟩
  by_cases hfull : b - s₂.deque.top ≥ dequeCapacity
  · rw [if_pos hfull]
    exact done_owner h₂ (ThiefRely.refl s₂) hK₂.hand.symm hK₂.lowered
  rw [if_neg hfull]
  have htop := h₂.top
  have hle := h₂.le
  have hcount := h₂.count
  have hsmall := h₂.small
  rw [hlimit s₂ hK₂'] at hle hcount
  have hroom : b.toInt < s₂.deque.top.toInt + 256 := by
    rw [ge_iff_le, Int64.le_iff_toInt_le, toInt_sub_of (by omega) (by omega), show dequeCapacity.toInt =
      256 from rfl] at hfull
    omega
  generalize s₂.deque.top.toInt = t at *
  refine Protocol.wp_op (OwnerKnows.stable _ _ _ _ _) ?_ h₂ (Protocol.guar_refl _ s₂) hK₂'
  intro s₃ h₃ hK₃ _
  rw [step_push_storeSlot]
  have htop₃ := hK₃.top
  obtain ⟨hgood, hrely⟩ := h₃.put (hlimit s₃ hK₃) (by omega) taskId
  have hK₃' : OwnerKnows false [] b (Function.update f (b % dequeCapacity) taskId) t (s₃.put b taskId) := by
    refine ⟨hK₃.lowered, hK₃.hand, hK₃.bottom, ?_, hK₃.top⟩
    show Function.update s₃.deque.slots _ _ = _
    rw [hK₃.slots]
  refine Protocol.wp_op (OwnerKnows.stable _ _ _ _ _) ?_ hgood (guar_owner hrely) hK₃'
  intro s₄ h₄ hK₄ hguard
  rw [step_push_store]
  have htop₄ := hK₄.top
  have hcell : s₄.deque.task b = taskId := by
    unfold Buffer.task
    rw [hK₄.slots, Function.update_self]
  have hsmall₄ : s₄.accepted.length + 1 < 2 ^ 63 := by
    have hlt : ((dequeMachine α).step .owner (OwnerCall.push taskId) (.store .bottom (b + 1))
        s₄).2.accepted.length <
        2 ^ 63 := hguard
    rw [step_push_store] at hlt
    simpa [Line.accept] using hlt
  obtain ⟨hgood, hrely⟩ := h₄.accept hK₄.bottom hK₄.lowered (by omega) hcell hsmall₄
  exact done_owner hgood hrely hK₄.hand.symm hK₄.lowered

/-! ### Pops -/

theorem step_lower {b : Int64} (hb : 0 ≤ b.toInt) {s : Line α} (h : s.deque.bottom = b) :
    (dequeMachine α).step .owner .pop (.store .bottom (b - 1)) s = (.index 0, s.lower) := by
  have hlt : b - 1 < b := by
    rw [Int64.lt_iff_toInt_lt, toInt_sub_one hb]
    omega
  simp [dequeMachine, DequeAccess.sem, DequeAccess.slots, afterOwner, Buffer.set, Line.lower, h, hlt]

theorem step_load_top (s : Line α) :
    (dequeMachine α).step .owner .pop (.load .top) s =
      (.index s.deque.top, if s.deque.top < s.deque.bottom then s.takeLast else s) := by
  by_cases h : s.deque.top < s.deque.bottom
  · simp [dequeMachine, DequeAccess.sem, DequeAccess.slots, afterOwner, Buffer.get, Line.takeLast, h]
  · simp [dequeMachine, DequeAccess.sem, DequeAccess.slots, afterOwner, Buffer.get, h]

theorem step_raise {v : Int64} {s : Line α} (h : s.deque.bottom ≤ v) :
    (dequeMachine α).step .owner .pop (.store .bottom v) s = (.index 0, s.raise v) := by
  have hge : ¬ v < s.deque.bottom := Int64.not_lt.mpr h
  simp [dequeMachine, DequeAccess.sem, DequeAccess.slots, afterOwner, Buffer.set, Line.raise, hge]

theorem step_claim_won {t : Int64} {s : Line α} (h : s.deque.top = t) :
    (dequeMachine α).step .owner .pop (.casTop t (t + 1)) s = (.index t, s.claim) := by
  simp [dequeMachine, DequeAccess.sem, DequeAccess.slots, afterOwner, Line.claim, h]

theorem step_claim_lost {t d : Int64} {s : Line α} (h : s.deque.top ≠ t) :
    (dequeMachine α).step .owner .pop (.casTop t d) s = (.index s.deque.top, s) := by
  simp [dequeMachine, DequeAccess.sem, DequeAccess.slots, afterOwner, h]

theorem step_pop_loadSlot (i : Int64) (s : Line α) :
    (dequeMachine α).step .owner .pop (.loadSlot (i % dequeCapacity)) s =
      (.task (s.deque.task i), { s with used := s.used ++ [i % dequeCapacity] }) := by
  rfl

/-- The end of a `pop_bottom` that has lowered the bottom: the bottom is raised to `v`, where the limit is. -/
theorem wp_raise {p : DequeProg α (Outcome α)} {a : Outcome α} (hp : p = .ret a) {hand : List α} {b v : Int64}
    {f : Int64 → α} (hv : v.toInt = b.toInt + 1) (ha : a.tasks = hand) {s s₁ : Line α} (h : Good s₁)
    (hguar : (dequeProtocol α).Guar .owner s s₁) {t : Int} (hK : OwnerKnows true hand b f t s₁) :
    OwnerWp .pop ((store .bottom v).bind fun _ => p)
      ((dequeProtocol α).Done (i := .owner) OwnerCall.pop) s s₁ := by
  subst hp
  refine Protocol.wp_op (OwnerKnows.stable _ _ _ _ _) ?_ h hguar hK
  intro s₂ h₂ hK₂ _
  have hle : s₂.deque.bottom ≤ v := by
    rw [hK₂.bottom, Int64.le_iff_toInt_le]
    omega
  rw [step_raise hle]
  have hlimit : v.toInt = s₂.limit := by
    unfold Line.limit
    rw [hK₂.lowered, hK₂.bottom, hv]
    simp
  obtain ⟨hgood, hrely⟩ := h₂.raise hlimit
  exact done_owner hgood hrely (ha.trans hK₂.hand.symm) rfl

/-- **A `pop_bottom` keeps the protocol.** -/
theorem wp_popBottom {s : Line α} (h : Good s) (hidle : s.lowered = false ∧ s.hand = []) :
    OwnerWp .pop popBottom ((dequeProtocol α).Done (i := .owner) (OwnerCall.pop : OwnerCall α)) s s := by
  have hK : OwnerKnows false [] s.deque.bottom s.deque.slots s.deque.top.toInt s :=
    ⟨hidle.1, hidle.2, rfl, rfl, Int.le_refl _⟩
  refine Protocol.wp_op (OwnerKnows.stable _ _ _ _ _) ?_ h (Protocol.guar_refl _ s) hK
  -- from here on only what the owner knows about the state is used
  generalize s.deque.bottom = b, s.deque.slots = f, s.deque.top.toInt = t₀
  intro s₁ h₁ hK₁ _
  rw [step_load_bottom, hK₁.bottom]
  dsimp only [Prog.bind, Word.toIndex]
  -- the bottom is not below the top, which is not negative
  have hb : 0 ≤ b.toInt := by
    have htop := h₁.top
    have hle := h₁.le
    unfold Line.limit at hle
    rw [hK₁.lowered, hK₁.bottom] at hle
    simp at hle
    omega
  refine Protocol.wp_op (OwnerKnows.stable _ _ _ _ _) ?_ h₁ (Protocol.guar_refl _ s₁) hK₁
  intro s₂ h₂ hK₂ _
  rw [step_lower hb hK₂.bottom]
  -- the store of the lowered bottom
  obtain ⟨hgood, hrely⟩ := h₂.lower hK₂.lowered
  have hnewB : (b - 1).toInt = b.toInt - 1 := toInt_sub_one hb
  have hK₂' : OwnerKnows true [] (b - 1) f t₀ s₂.lower := by
    refine ⟨rfl, hK₂.hand, ?_, hK₂.slots, hK₂.top⟩
    show s₂.deque.bottom - 1 = _
    rw [hK₂.bottom]
  generalize b - 1 = newB at *
  refine Protocol.wp_op (OwnerKnows.stable _ _ _ _ _) ?_ hgood (guar_owner hrely) hK₂'
  intro s₃ h₃ hK₃ _
  rw [step_load_top]
  dsimp only [Prog.bind, Word.toIndex]
  have hle₃ := h₃.le
  -- the limit of the thieves is still the old bottom
  have hlimit : s₃.limit = newB.toInt + 1 := by
    unfold Line.limit
    rw [hK₃.lowered, hK₃.bottom]
    simp
  rw [hlimit] at hle₃
  have htop₃ := h₃.top
  have hK₃' : OwnerKnows true [] newB f s₃.deque.top.toInt s₃ :=
    ⟨hK₃.lowered, hK₃.hand, hK₃.bottom, hK₃.slots, Int.le_refl _⟩
  by_cases hempty : s₃.deque.top > newB
  · -- the deque is empty, and the top cannot move
    rw [if_pos hempty, if_neg (by rw [hK₃.bottom]; exact Int64.not_lt.mpr (Int64.le_of_lt hempty))]
    rw [gt_iff_lt, Int64.lt_iff_toInt_lt] at hempty
    exact wp_raise rfl (by omega) rfl h₃ (Protocol.guar_refl _ s₃) hK₃'
  rw [if_neg hempty]
  by_cases hmore : s₃.deque.top < newB
  · -- more than one element: the last one is the owner's from here on
    have hmore' : s₃.deque.top < s₃.deque.bottom := by
      rw [hK₃.bottom]
      exact hmore
    rw [if_pos hmore']
    obtain ⟨hgood, hrely⟩ := h₃.takeLast hK₃.lowered hK₃.hand hmore'
    have hnonneg : 0 ≤ newB.toInt := by
      rw [Int64.lt_iff_toInt_lt] at hmore
      omega
    have hK₄ : OwnerKnows false [f (newB % dequeCapacity)] newB f s₃.deque.top.toInt s₃.takeLast := by
      refine ⟨rfl, ?_, hK₃.bottom, hK₃.slots, Int.le_refl _⟩
      show [s₃.deque.slots (s₃.deque.bottom % dequeCapacity)] = _
      rw [hK₃.bottom, hK₃.slots]
    refine Protocol.wp_op (OwnerKnows.stable _ _ _ _ _) ?_ hgood (guar_owner hrely) hK₄
    intro s₅ h₅ hK₅ _
    rw [step_pop_loadSlot]
    dsimp only [Prog.bind, Word.toTask]
    rw [if_pos hmore]
    have hhand : [s₅.deque.task newB] = s₅.hand := by
      unfold Buffer.task
      rw [hK₅.slots, hK₅.hand]
    exact done_owner (s := s₅) (a := .task (s₅.deque.task newB)) (h₅.use hnonneg)
      ⟨Int.le_refl _, fun _ hlt => ⟨hlt, rfl⟩⟩ hhand hK₅.lowered
  · -- exactly one element
    have hmore' : ¬ s₃.deque.top < s₃.deque.bottom := by
      rw [hK₃.bottom]
      exact hmore
    rw [if_neg hmore']
    have heq : s₃.deque.top = newB := Int64.le_antisymm (Int64.not_lt.mp hempty) (Int64.not_lt.mp hmore)
    rw [heq] at htop₃ hK₃' ⊢
    refine Protocol.wp_op (OwnerKnows.stable _ _ _ _ _) ?_ h₃ (Protocol.guar_refl _ s₃) hK₃'
    intro s₄ h₄ hK₄ _
    rw [step_pop_loadSlot]
    dsimp only [Prog.bind, Word.toTask]
    rw [if_neg Int64.lt_irrefl]
    have hK₄' : OwnerKnows true [] newB f newB.toInt { s₄ with used := s₄.used ++ [newB % dequeCapacity] } :=
      ⟨hK₄.lowered, hK₄.hand, hK₄.bottom, hK₄.slots, hK₄.top⟩
    have htask : s₄.deque.task newB = f (newB % dequeCapacity) := by
      unfold Buffer.task
      rw [hK₄.slots]
    rw [htask]
    refine Protocol.wp_op (OwnerKnows.stable _ _ _ _ _) ?_ (h₄.use htop₃)
      (guar_owner ⟨Int.le_refl _, fun _ hlt => ⟨hlt, rfl⟩⟩) hK₄'
    intro s₅ h₅ hK₅ _
    have hlimit₅ : s₅.limit = newB.toInt + 1 := by
      unfold Line.limit
      rw [hK₅.lowered, hK₅.bottom]
      simp
    have hle₅ := h₅.le
    have hcount₅ := h₅.count
    have hsmall₅ := h₅.small
    rw [hlimit₅] at hle₅ hcount₅
    -- the counters stay below 2^63
    have hnext : (newB + 1).toInt = newB.toInt + 1 := by
      rw [toInt_add_of, toInt_one]
      · rw [toInt_one]
        omega
      · rw [toInt_one]
        omega
    by_cases hwon : s₅.deque.top = newB
    · rw [step_claim_won hwon]
      dsimp only [Prog.bind, Word.toIndex]
      obtain ⟨hgood, hmoved⟩ := h₅.claim hK₅.hand (by rw [hlimit₅, hwon]; omega)
      have hK₆ : OwnerKnows true [f (newB % dequeCapacity)] newB f newB.toInt s₅.claim := by
        refine ⟨hK₅.lowered, ?_, hK₅.bottom, hK₅.slots, ?_⟩
        · show [s₅.deque.slots (s₅.deque.top % dequeCapacity)] = _
          rw [hwon, hK₅.slots]
        · rw [hmoved, hwon]
          omega
      have hrely : ThiefRely s₅ s₅.claim := ThiefRely.of_lt (by rw [hmoved]; omega)
      have hsame : (newB == newB) = true := beq_self_eq_true newB
      rw [hsame]
      exact wp_raise (if_pos rfl) hnext rfl hgood (guar_owner hrely) hK₆
    · rw [step_claim_lost hwon]
      dsimp only [Prog.bind, Word.toIndex]
      have hother : (s₅.deque.top == newB) = false := beq_false_of_ne hwon
      rw [hother]
      exact wp_raise (if_neg Bool.false_ne_true) hnext rfl h₅ (Protocol.guar_refl _ s₅) hK₅

end Owner

/-! ### Runs -/

/-- **Every call keeps the protocol.** -/
theorem deque_verified (α : Type) [Inhabited α] : (dequeProtocol α).Verified := by
  rintro (_ | n) c s h hidle
  · cases (c : OwnerCall α) with
    | push taskId => exact wp_pushBottom taskId h hidle
    | pop => exact wp_popBottom h hidle
  · exact wp_stealTop h

theorem accepted_le_step (i : Core) (c : (dequeMachine α).Call i) (o : DequeAccess α) (s : Line α) :
    s.accepted.length ≤ ((dequeMachine α).step i c o s).2.accepted.length := by
  cases i with
  | thief n => exact Nat.le_refl _
  | owner => exact accepted_le_afterOwner s c o

theorem accepted_finish (i : Core) (c : (dequeMachine α).Call i) (a : (dequeMachine α).Res i)
    (before s : Line α) : ((dequeMachine α).finish i c a before s).accepted.length = s.accepted.length := by
  cases i <;> rfl

theorem good_init : Good (Line.init : Line α) := by
  have hlive : (Line.init : Line α).live = [] := stretch_nil (Int.le_refl _)
  refine ⟨Int.le_refl _, Int.le_refl _, ?_, Int.le_refl _, ?_, ?_, ?_, ?_⟩
  · show (0 : Int) ≤ 0 + 256
    decide
  · show 0 < 2 ^ 63
    decide
  · rw [hlive]
    exact .refl _
  · rw [hlive]
    exact List.nil_sublist _
  · intro i hi
    exact absurd hi List.not_mem_nil

/-- **The deque of the reactor loses no task and returns none twice.**  In every interleaving of the owner and
of any number of thieves after `deque_init`, with fewer than 2^63 accepted pushes, the law of the deque
holds. -/
theorem dequeLaw_run (events : List (dequeMachine α).Event)
    (hpushes : (runOps Machine.exec (Machine.start Line.init) events).shared.accepted.length < 2 ^ 63) :
    DequeLaw (runOps Machine.exec (Machine.start (M := dequeMachine α) Line.init) events) := by
  have hidle : ∀ i, (dequeProtocol α).Idle i Line.init := by
    rintro (_ | n)
    · exact ⟨rfl, rfl⟩
    · trivial
  have hrun := Protocol.configOk_bounded (f := fun s : Line α => s.accepted.length) (deque_verified α)
    accepted_le_step accepted_finish (fun _ _ _ _ h => h) good_init hidle hpushes
  generalize runOps Machine.exec (Machine.start (M := dequeMachine α) Line.init) events = cfg at hrun
  obtain ⟨hgood, hthreads⟩ : Good cfg.shared ∧ _ := hrun
  refine ⟨?_, hgood.used, ?_⟩
  · have hsub : cfg.shared.returned.Subperm (cfg.shared.returned ++ (cfg.shared.hand ++ cfg.shared.live)) :=
      (List.sublist_append_left _ _).subperm
    exact hsub.trans hgood.conserved.symm.subperm
  · intro hquiet
    have howner := hthreads .owner
    unfold Protocol.ThreadOk at howner
    rw [hquiet .owner] at howner
    obtain ⟨hlowered, hhand⟩ : cfg.shared.lowered = false ∧ cfg.shared.hand = [] := howner
    have hlimit : cfg.shared.limit = cfg.shared.deque.bottom.toInt := by
      unfold Line.limit
      rw [hlowered]
      simp
    have hconserved := hgood.conserved
    have hle := hgood.le
    have hfits := hgood.fits
    rw [hhand, List.nil_append, live_eq_contents hgood hlowered] at hconserved
    rw [hlimit] at hle hfits
    refine ⟨hconserved, ?_, Int64.le_iff_toInt_le.mpr hle, by omega⟩
    rw [← live_eq_contents hgood hlowered]
    exact hgood.order

/-- A push, and a pop that is interrupted by a thief. -/
def popUnderSteal : List (dequeMachine Nat).Event :=
  [.call .owner (OwnerCall.push 7), .step .owner, .step .owner, .step .owner, .step .owner,
    .call (.thief 0) (), .step (.thief 0), .call .owner OwnerCall.pop, .step .owner, .step (.thief 0)]

theorem dequeLaw_popUnderSteal :
    (runOps Machine.exec (Machine.start (M := dequeMachine Nat) Line.init) popUnderSteal).shared.accepted =
      [7] ∧
      DequeLaw (runOps Machine.exec (Machine.start (M := dequeMachine Nat) Line.init) popUnderSteal) := by
  have haccepted :
      (runOps Machine.exec (Machine.start (M := dequeMachine Nat) Line.init) popUnderSteal).shared.accepted =
        [7] := by
    decide
  refine ⟨haccepted, dequeLaw_run popUnderSteal ?_⟩
  rw [haccepted]
  decide

end Keuos.Reactor
