import Keuos.Slab.Defs

/-!
# An object cache under interleaving

The free list is the segment of links from the head to the null pointer.  Each object of the pages has one
owner: the list, a caller, or the core that carves, pushes or has just popped it.  A step moves objects from
one owner to another or lets a core store into an object of its own, and a compare-and-swap of `alloc` that
finds the link which the core has read moves the head of the list to that core.

With another link it would not: the head that the core has read may have been popped, used and pushed again
since.

## Main results

* `Inv.step`, `Inv.exec`: a step that meets the condition keeps the invariant.
* `safe_of_admissible`: in every run whose steps meet it, no object is returned twice and none is lost.
* `not_safe`: a run of two cores in which an object is returned twice.
-/

namespace Keuos.Slab.Smp

/-! ### Segments of links -/

/-- The links from `a` on visit the objects of the list and come to `b`. -/
def Seg (next : Nat → Nat) : Nat → List Nat → Nat → Prop
  | a, [], b => a = b
  | a, x :: xs, b => a = x ∧ x ≠ 0 ∧ Seg next (next x) xs b

section Seg

variable {next : Nat → Nat} {a b c p v : Nat} {xs ys : List Nat}

theorem Seg.append (h : Seg next a xs b) (h' : Seg next b ys c) : Seg next a (xs ++ ys) c := by
  induction xs generalizing a with
  | nil =>
    obtain rfl : a = b := h
    exact h'
  | cons x xs ih => exact ⟨h.1, h.2.1, ih h.2.2⟩

theorem Seg.update (h : Seg next a xs b) (hp : p ∉ xs) : Seg (Function.update next p v) a xs b := by
  induction xs generalizing a with
  | nil => exact h
  | cons x xs ih =>
    obtain ⟨rfl, hne, hrest⟩ := h
    have hpx : a ≠ p := fun heq => hp (heq ▸ List.mem_cons_self)
    refine ⟨rfl, hne, ?_⟩
    rw [Function.update_of_ne hpx]
    exact ih hrest fun hmem => hp (List.mem_cons_of_mem _ hmem)

theorem Seg.concat (h : Seg next a xs p) (hp : p ≠ 0) (hnext : next p = b) : Seg next a (xs ++ [p]) b :=
  h.append ⟨rfl, hp, hnext⟩

theorem Seg.of_concat (h : Seg next a (xs ++ [p]) b) : Seg next a xs p := by
  induction xs generalizing a with
  | nil => exact h.1
  | cons x xs ih => exact ⟨h.1, h.2.1, ih h.2.2⟩

end Seg

/-! ### The objects of a page -/

section Objects

variable {size : Nat}

/-- The slots of a page. -/
def objects (size page : Nat) : List Nat := (List.range (objectsPerPage size)).map (slotAddr size page)

/-- The sizes of which a page has a slot. -/
def Fits (size : Nat) : Prop := size + 8 ≤ 4096

theorem objectsPerPage_pos (hfits : Fits size) : 0 < objectsPerPage size :=
  Nat.div_pos hfits (by omega)

theorem slotAddr_inj {page i j : Nat} (h : slotAddr size page i = slotAddr size page j) : i = j := by
  rw [slotAddr, slotAddr] at h
  exact Nat.eq_of_mul_eq_mul_right (by omega : 0 < size + 8) (by omega)

theorem objects_nodup (size page : Nat) : (objects size page).Nodup :=
  List.Nodup.map (fun _ _ h => slotAddr_inj h) List.nodup_range

theorem objects_inside {page a : Nat} (ha : a ∈ objects size page) : page ≤ a ∧ a < page + 4096 := by
  obtain ⟨i, hi, rfl⟩ := List.mem_map.mp ha
  have hlt := List.mem_range.mp hi
  have hmul := Nat.mul_le_mul_right (size + 8) (show i + 1 ≤ objectsPerPage size by omega)
  have hdiv : objectsPerPage size * (size + 8) ≤ 4096 := Nat.div_mul_le_self _ _
  rw [Nat.succ_mul] at hmul
  rw [slotAddr]
  omega

/-- **Pages have no object in common.** -/
theorem page_eq_of_mem {page page' a : Nat} (hpage : page % 4096 = 0) (hpage' : page' % 4096 = 0)
    (ha : a ∈ objects size page) (ha' : a ∈ objects size page') : page = page' := by
  have h := objects_inside ha
  have h' := objects_inside ha'
  omega

theorem slotAddr_mem {page i : Nat} (hi : i < objectsPerPage size) : slotAddr size page i ∈
    objects size page :=
  List.mem_map.mpr ⟨i, List.mem_range.mpr hi, rfl⟩

theorem lastSlot_mem (hfits : Fits size) (page : Nat) : lastSlot size page ∈ objects size page :=
  slotAddr_mem (Nat.sub_lt (objectsPerPage_pos hfits) Nat.one_pos)

/-- All slots of a page but the last. -/
def initSlots (size page : Nat) : List Nat :=
  (List.range (objectsPerPage size - 1)).map (slotAddr size page)

theorem objects_eq_concat (hfits : Fits size) (page : Nat) :
    objects size page = initSlots size page ++ [lastSlot size page] := by
  have hpos := objectsPerPage_pos hfits
  rw [objects, initSlots, lastSlot, ← List.map_singleton, ← List.map_append, ← List.range_succ]
  congr 2
  omega

theorem lastSlot_notMem_init (page : Nat) : lastSlot size page ∉ initSlots size page := by
  intro hmem
  obtain ⟨i, hi, heq⟩ := List.mem_map.mp hmem
  have hlt := List.mem_range.mp hi
  have hij := slotAddr_inj heq
  omega

end Objects

/-! ### Owners -/

/-- To whom an address belongs. -/
inductive Owner where
  | outside
  | listed
  | caller
  | core (i : Nat)

/-- The objects that a core works on. -/
def held (size : Nat) : Core → List Nat
  | .clear allocated => [allocated]
  | .wire page _ _ => objects size page
  | .growStore page _ => objects size page
  | .growCas page _ => objects size page
  | .freeHead ptr => [ptr]
  | .freeStore ptr _ => [ptr]
  | .freeCas ptr _ => [ptr]
  | _ => []

/-- What a core knows of the links of its objects. -/
def CoreInv (size : Nat) (next : Nat → Nat) : Core → Prop
  | .allocNext head => head ≠ 0
  | .allocCas head _ => head ≠ 0
  | .wire page k _ => k ≤ objectsPerPage size ∧
      Seg next page ((List.range (min k (objectsPerPage size - 1))).map (slotAddr size page))
        (slotAddr size page (min k (objectsPerPage size - 1)))
  | .growStore page _ => Seg next page (initSlots size page) (lastSlot size page)
  | .growCas page currentHead => Seg next page (objects size page) currentHead
  | .freeCas ptr currentHead => next ptr = currentHead
  | _ => True

/-- No object is returned while it is live. -/
def Alternates : List Event → Prop
  | [] => True
  | .returned p :: log => ¬ Live log p ∧ Alternates log
  | .freed p :: log => Live log p ∧ Alternates log

/-- **The invariant**, with the owners of the objects and the free list. -/
structure Inv (size : Nat) (s : State) (owner : Nat → Owner) (free : List Nat) : Prop where
  path : Seg s.next s.head free 0
  nodup : free.Nodup
  listed : ∀ a, owner a = .listed ↔ a ∈ free
  caller : ∀ a, owner a = .caller ↔ Live s.log a
  held : ∀ a i, owner a = .core i ↔ a ∈ held size (s.cores i)
  objects : ∀ a, owner a ≠ .outside ↔ ∃ page ∈ s.pages, a ∈ objects size page
  pages : ∀ page ∈ s.pages, page % 4096 = 0 ∧ page ≠ 0
  cores : ∀ i, CoreInv size s.next (s.cores i)
  alternates : Alternates s.log

theorem CoreInv.update {size p v : Nat} {next : Nat → Nat} {core : Core} (hfits : Fits size)
    (h : CoreInv size next core) (hp : p ∉ held size core) : CoreInv size
        (Function.update next p v) core := by
  cases core with
  | wire page k oldHead =>
    refine ⟨h.1, h.2.update fun hmem => hp ?_⟩
    obtain ⟨i, hi, rfl⟩ := List.mem_map.mp hmem
    have hlt := List.mem_range.mp hi
    exact slotAddr_mem (by omega)
  | growStore page currentHead =>
    refine Seg.update h fun hmem => hp ?_
    rw [held, objects_eq_concat hfits]
    exact List.mem_append_left _ hmem
  | growCas page currentHead => exact Seg.update h hp
  | freeCas ptr currentHead =>
    have hne : ptr ≠ p := fun heq => hp (List.mem_singleton.mpr heq.symm)
    change Function.update next p v ptr = currentHead
    rw [Function.update_of_ne hne]
    exact h
  | idle => exact h
  | allocHead => exact h
  | allocNext head => exact h
  | allocCas head next => exact h
  | clear allocated => exact h
  | growHead => exact h
  | growPage oldHead => exact h
  | freeHead ptr => exact h
  | freeStore ptr currentHead => exact h

/-- The objects `xs` belong to somebody else now. -/
def move (owner : Nat → Owner) (xs : List Nat) (o : Owner) : Nat → Owner := fun a =>
    if a ∈ xs then o else owner a

section Move

variable {owner : Nat → Owner} {xs : List Nat} {o o' source : Owner} {a : Nat}

theorem move_to : move owner xs o a = o ↔ a ∈ xs ∨ owner a = o := by
  unfold move
  by_cases ha : a ∈ xs
  · rw [if_pos ha]
    exact iff_of_true rfl (.inl ha)
  · rw [if_neg ha]
    exact ⟨.inr, fun h => h.resolve_left ha⟩

theorem move_from (ho : o ≠ o') : move owner xs o a = o' ↔ a ∉ xs ∧ owner a = o' := by
  unfold move
  by_cases ha : a ∈ xs
  · rw [if_pos ha]
    exact iff_of_false ho fun h => h.1 ha
  · rw [if_neg ha]
    exact ⟨fun h => ⟨ha, h⟩, fun h => h.2⟩

theorem move_other (hsource : ∀ a ∈ xs, owner a = source) (hne : source ≠ o') (ho : o ≠ o') :
    move owner xs o a = o' ↔ owner a = o' := by
  rw [move_from ho]
  exact and_iff_right_of_imp fun hown hmem => hne ((hsource a hmem).symm.trans hown)

theorem core_ne_core {i j : Nat} (hj : j ≠ i) : Owner.core i ≠ .core j := fun h => hj (Owner.core.inj h).symm

end Move

section Steps

variable {size : Nat} {s : State} {owner : Nat → Owner} {free : List Nat} {i : Nat}

/-! ### Steps that move nothing -/

theorem Inv.owner_eq (h : Inv size s owner free) {a : Nat}
    (ha : a ∈ Smp.held size (s.cores i)) : owner a = .core i :=
  (h.held a i).mpr ha

theorem Inv.notMem_free (h : Inv size s owner free) {a : Nat}
    (ha : a ∈ Smp.held size (s.cores i)) : a ∉ free :=
  fun hmem => by
    have hlisted := (h.listed a).mpr hmem
    rw [h.owner_eq ha] at hlisted
    cases hlisted

theorem Inv.notMem_held (h : Inv size s owner free) {a j : Nat}
    (ha : a ∈ Smp.held size (s.cores i)) (hj : j ≠ i) :
    a ∉ Smp.held size (s.cores j) := fun hmem => by
  have hcore := (h.held a j).mpr hmem
  rw [h.owner_eq ha] at hcore
  exact hj (Owner.core.inj hcore).symm

theorem Inv.ne_zero (h : Inv size s owner free) {a : Nat} (ha : a ∈ Smp.held size (s.cores i)) : a ≠ 0 := by
  have hin : owner a ≠ .outside := by
    rw [h.owner_eq ha]
    simp
  obtain ⟨page, hmem, hobj⟩ := (h.objects a).mp hin
  have hinside := objects_inside hobj
  have hpage := (h.pages page hmem).2
  omega

theorem forall_cores {cores : Nat → Core} {core : Core} {P : Nat → Core → Prop} (hi : P i core)
    (hne : ∀ j, j ≠ i → P j (cores j)) (j : Nat) : P j (Function.update cores i core j) := by
  by_cases hj : j = i
  · subst hj
    rw [Function.update_self]
    exact hi
  · rw [Function.update_of_ne hj]
    exact hne j hj

theorem held_update {cores : Nat → Core} {core : Core} {a : Nat}
    (hi : owner a = .core i ↔ a ∈ Smp.held size core)
    (hne : ∀ j, j ≠ i → (owner a = .core j ↔ a ∈ Smp.held size (cores j))) (j : Nat) :
    owner a = .core j ↔ a ∈ Smp.held size (Function.update cores i core j) :=
  forall_cores (P := fun j core => owner a = .core j ↔ a ∈ Smp.held size core) hi hne j

theorem coreInv_update {cores : Nat → Core} {core : Core} {next : Nat → Nat} (hi : CoreInv size next core)
    (hne : ∀ j, j ≠ i → CoreInv size next (cores j)) (j : Nat) :
    CoreInv size next (Function.update cores i core j) :=
  forall_cores (P := fun _ core => CoreInv size next core) hi hne j

theorem Inv.setCore (h : Inv size s owner free) {core : Core}
    (hheld : Smp.held size core = Smp.held size (s.cores i))
    (hcore : CoreInv size s.next core) : Inv size (s.setCore i core) owner free where
  path := h.path
  nodup := h.nodup
  listed := h.listed
  caller := h.caller
  held a := held_update (hheld ▸ h.held a i) fun j _ => h.held a j
  objects := h.objects
  pages := h.pages
  cores := coreInv_update hcore fun j _ => h.cores j
  alternates := h.alternates

/-- **A core stores into an object of its own.** -/
theorem Inv.store (h : Inv size s owner free) (hfits : Fits size) {core : Core} {p v : Nat}
    (hp : p ∈ Smp.held size (s.cores i)) (hheld : Smp.held size core = Smp.held size (s.cores i))
    (hcore : CoreInv size (Function.update s.next p v) core) :
    Inv size ((s.setCore i core).setNext p v) owner free where
  path := h.path.update (h.notMem_free hp)
  nodup := h.nodup
  listed := h.listed
  caller := h.caller
  held a := held_update (hheld ▸ h.held a i) fun j _ => h.held a j
  objects := h.objects
  pages := h.pages
  cores := coreInv_update hcore fun j hj => (h.cores j).update hfits (h.notMem_held hp hj)
  alternates := h.alternates

theorem Inv.write (h : Inv size s owner free) (hfits : Fits size) {p v : Nat} (hp : Live s.log p) :
    Inv size (s.setNext p v) owner free := by
  have hown : owner p = .caller := (h.caller p).mpr hp
  refine { h with path := h.path.update fun hmem => ?_, cores := fun j =>
    (h.cores j).update hfits fun hmem => ?_ }
  · rw [(h.listed p).mpr hmem] at hown
    cases hown
  · rw [(h.held p j).mpr hmem] at hown
    cases hown

/-! ### Steps that move objects -/

/-- **The head of the list moves to the core** that has read its link as it is. -/
theorem Inv.pop (h : Inv size s owner free) {next : Nat} (hcore : s.cores i = .allocCas s.head next)
    (hnext : s.next s.head = next) :
    ∃ owner' free', Inv size { s.setCore i (.clear s.head) with head := next } owner' free' := by
  have hne : s.head ≠ 0 := by
    have hinv := h.cores i
    rw [hcore] at hinv
    exact hinv
  have hpath := h.path
  cases hfree : free with
  | nil =>
    rw [hfree] at hpath
    exact absurd hpath hne
  | cons x rest =>
    rw [hfree] at hpath
    obtain ⟨rfl, -, hrest⟩ := hpath
    have hlisted : owner s.head = .listed := (h.listed _).mpr (hfree ▸ List.mem_cons_self)
    have hnodup := h.nodup
    rw [hfree, List.nodup_cons] at hnodup
    have hsource : ∀ a ∈ [s.head], owner a = .listed := fun a ha => List.mem_singleton.mp ha ▸ hlisted
    refine ⟨move owner [s.head] (.core i), rest, ?_⟩
    refine { path := hnext ▸ hrest, nodup := hnodup.2, listed := fun a => ?_, caller := fun a => ?_,
             held := fun a => held_update ?_ fun j hj => ?_, objects := fun a => ?_, pages := h.pages,
             cores := coreInv_update trivial fun j _ => h.cores j,
             alternates := h.alternates }
    · rw [move_from (by simp), List.mem_singleton, h.listed, hfree, List.mem_cons]
      exact ⟨fun hmem => hmem.2.resolve_left hmem.1, fun hmem =>
        ⟨fun heq => hnodup.1 (heq ▸ hmem), .inr hmem⟩⟩
    · rw [move_other hsource (by simp) (by simp)]
      exact h.caller a
    · rw [move_to, h.held, hcore]
      exact or_iff_left List.not_mem_nil
    · rw [move_other hsource (by simp) (core_ne_core hj)]
      exact h.held a j
    · rw [ne_eq, move_other hsource (by simp) (by simp)]
      exact h.objects a

/-- **The object moves to the caller**, once its first word is cleared. -/
theorem Inv.returned (h : Inv size s owner free) (hfits : Fits size) {obj : Nat}
    (hcore : s.cores i = .clear obj) :
    Inv size { (s.setCore i .idle).setNext obj 0 with log := .returned obj :: s.log }
      (move owner [obj] .caller) free := by
  have hmem : obj ∈ Smp.held size (s.cores i) := by rw [hcore]; exact List.mem_singleton.mpr rfl
  have hown : owner obj = .core i := h.owner_eq hmem
  have hsource : ∀ a ∈ [obj], owner a = .core i := fun a ha => List.mem_singleton.mp ha ▸ hown
  refine { path := h.path.update (h.notMem_free hmem), nodup := h.nodup, listed := fun a => ?_,
           caller := fun a => ?_,
           held := fun a => held_update ?_ fun j hj => ?_, objects := fun a => ?_, pages := h.pages,
           cores := coreInv_update trivial fun j hj => (h.cores j).update hfits (h.notMem_held hmem hj),
           alternates := ⟨fun hlive => ?_, h.alternates⟩ }
  · rw [move_other hsource (by simp) (by simp)]
    exact h.listed a
  · rw [move_to, List.mem_singleton, h.caller, Live, eq_comm]
  · rw [move_from (by simp), h.held, hcore]
    exact iff_of_false (fun hboth => hboth.1 hboth.2) List.not_mem_nil
  · rw [move_other hsource (core_ne_core hj) (by simp)]
    exact h.held a j
  · rw [ne_eq, move_other hsource (by simp) (by simp)]
    exact h.objects a
  · rw [(h.caller obj).mpr hlive] at hown
    cases hown

/-- **The object moves to the core** that its caller has asked to free it. -/
theorem Inv.freed (h : Inv size s owner free) {ptr : Nat} (hcore : s.cores i = .idle)
    (hlive : Live s.log ptr) :
    Inv size { s.setCore i (.freeHead ptr) with log := .freed ptr :: s.log }
      (move owner [ptr] (.core i)) free := by
  have hown : owner ptr = .caller := (h.caller ptr).mpr hlive
  have hsource : ∀ a ∈ [ptr], owner a = .caller := fun a ha => List.mem_singleton.mp ha ▸ hown
  refine { path := h.path, nodup := h.nodup, listed := fun a => ?_, caller := fun a => ?_,
           held := fun a => held_update ?_ fun j hj => ?_, objects := fun a => ?_, pages := h.pages,
           cores := coreInv_update trivial fun j _ => h.cores j,
           alternates := ⟨hlive, h.alternates⟩ }
  · rw [move_other hsource (by simp) (by simp)]
    exact h.listed a
  · rw [move_from (by simp), List.mem_singleton, h.caller, Live, ne_comm]
  · rw [move_to, h.held, hcore]
    exact or_iff_left List.not_mem_nil
  · rw [move_other hsource (by simp) (core_ne_core hj)]
    exact h.held a j
  · rw [ne_eq, move_other hsource (by simp) (by simp)]
    exact h.objects a

/-- **The objects of a core move to the list**, when the links from the new head lead through them to the old
one. -/
theorem Inv.push (h : Inv size s owner free) {xs : List Nat} {head : Nat} {core : Core}
    (hheld : Smp.held size (s.cores i) = xs) (hnodup : xs.Nodup) (hseg : Seg s.next head xs s.head)
    (hnone : Smp.held size core = []) (hcore : CoreInv size s.next core) :
    Inv size { s.setCore i core with head := head } (move owner xs .listed) (xs ++ free) := by
  have hsource : ∀ a ∈ xs, owner a = .core i := fun a ha => h.owner_eq (hheld ▸ ha)
  refine { path := hseg.append h.path, nodup := ?_, listed := fun a => ?_, caller := fun a => ?_,
           held := fun a => held_update ?_ fun j hj => ?_, objects := fun a => ?_, pages := h.pages,
           cores := coreInv_update hcore fun j _ => h.cores j,
           alternates := h.alternates }
  · exact List.nodup_append.mpr ⟨hnodup, h.nodup, fun a ha b hb hab => h.notMem_free (hheld ▸ ha) (hab ▸ hb)⟩
  · rw [move_to, List.mem_append, h.listed]
  · rw [move_other hsource (by simp) (by simp)]
    exact h.caller a
  · rw [move_from (by simp), h.held, hheld, hnone]
    exact iff_of_false (fun hboth => hboth.1 hboth.2) List.not_mem_nil
  · rw [move_other hsource (core_ne_core hj) (by simp)]
    exact h.held a j
  · rw [ne_eq, move_other hsource (by simp) (by simp)]
    exact h.objects a

/-- **The slots of a new page move to the core** that carves it. -/
theorem Inv.carve (h : Inv size s owner free) {page oldHead : Nat} (hcore : s.cores i = .growPage oldHead)
    (hpage : page % 4096 = 0) (hzero : page ≠ 0) (hnew : page ∉ s.pages) :
    Inv size { s.setCore i (.wire page 0 oldHead) with pages := page :: s.pages }
      (move owner (Smp.objects size page) (.core i)) free := by
  have hsource : ∀ a ∈ Smp.objects size page, owner a = .outside := by
    intro a ha
    by_contra hin
    obtain ⟨page', hmem, ha'⟩ := (h.objects a).mp hin
    exact hnew (page_eq_of_mem hpage (h.pages page' hmem).1 ha ha' ▸ hmem)
  refine { path := h.path, nodup := h.nodup, listed := fun a => ?_, caller := fun a => ?_,
           held := fun a => held_update ?_ fun j hj => ?_, objects := fun a => ?_,
           pages := List.forall_mem_cons.mpr ⟨⟨hpage, hzero⟩, h.pages⟩,
           cores := coreInv_update ⟨Nat.zero_le _, ?_⟩ fun j _ => h.cores j,
           alternates := h.alternates }
  · rw [move_other hsource (by simp) (by simp)]
    exact h.listed a
  · rw [move_other hsource (by simp) (by simp)]
    exact h.caller a
  · rw [move_to, h.held, hcore]
    exact or_iff_left List.not_mem_nil
  · rw [move_other hsource (by simp) (core_ne_core hj)]
    exact h.held a j
  · rw [ne_eq, move_from (by simp), List.exists_mem_cons_iff, ← h.objects, not_and_or, not_not]
  · rw [Nat.zero_min, slotAddr, Nat.zero_mul]
    rfl

/-! ### All steps -/

/-- The core's next step is no compare-and-swap of `alloc` that finds the head which the core has read with
another link. -/
def SameLink (s : State) : Core → Prop
  | .allocCas head next => s.head = head → s.next head = next
  | _ => True

instance instDecidableSameLink (s : State) : ∀ core, Decidable (SameLink s core)
  | .allocCas head next => inferInstanceAs (Decidable (s.head = head → s.next head = next))
  | .idle | .allocHead | .allocNext _ | .clear _ | .growHead | .growPage _ | .wire _ _ _ | .growStore _ _
  | .growCas _ _ | .freeHead _ | .freeStore _ _ | .freeCas _ _ => isTrue trivial

/-- The condition on a step: a compare-and-swap of `alloc` that finds the head which the core has read also
finds the link of that object as the core has read it. -/
def Ok (s : State) : Op → Prop
  | .step i _ => SameLink s (s.cores i)
  | _ => True

instance instDecidableOk (s : State) : ∀ o, Decidable (Ok s o)
  | .step i _ => instDecidableSameLink s (s.cores i)
  | .alloc _ | .free _ _ | .write _ _ => isTrue trivial

theorem Ok.link {phys : Option Nat} {head next : Nat} (hok : Ok s (.step i phys))
    (hcore : s.cores i = .allocCas head next) (heq : s.head = head) : s.next head = next := by
  rw [Ok, hcore] at hok
  exact hok heq

/-- **A core takes a step.** -/
theorem Inv.step (h : Inv size s owner free) (hfits : Fits size) {phys : Option Nat}
    (hok : Ok s (.step i phys)) :
    ∃ owner' free', Inv size (Smp.step size s i phys) owner' free' := by
  have hinv := h.cores i
  have hpos := objectsPerPage_pos hfits
  unfold Smp.step
  cases hcore : s.cores i with
  | idle => exact ⟨owner, free, h⟩
  | allocHead =>
    refine ⟨owner, free, h.setCore ?_ ?_⟩
    · rw [hcore]
      split <;> rfl
    · split
      · trivial
      · assumption
  | allocNext head =>
    rw [hcore] at hinv
    exact ⟨owner, free, h.setCore (by rw [hcore]; rfl) hinv⟩
  | allocCas head next =>
    simp only
    by_cases heq : s.head = head
    · rw [if_pos heq]
      subst heq
      -- the head is still the one that was read, and its link too
      exact h.pop hcore (hok.link hcore rfl)
    · rw [if_neg heq]
      exact ⟨owner, free, h.setCore (by rw [hcore]; rfl) trivial⟩
  | clear allocated => exact ⟨_, _, h.returned hfits hcore⟩
  | growHead => exact ⟨owner, free, h.setCore (by rw [hcore]; rfl) trivial⟩
  | growPage oldHead =>
    cases phys with
    | none => exact ⟨owner, free, h.setCore (by rw [hcore]; rfl) trivial⟩
    | some page =>
      simp only
      by_cases hpage : page % 4096 = 0 ∧ page ≠ 0 ∧ page ∉ s.pages
      · rw [if_pos hpage]
        -- a new page: its objects are held by the core until they are linked in
        exact ⟨_, _, h.carve hcore hpage.1 hpage.2.1 hpage.2.2⟩
      · rw [if_neg hpage]
        exact ⟨owner, free, h⟩
  | wire page k oldHead =>
    rw [hcore] at hinv
    obtain ⟨hk, hseg⟩ := hinv
    simp only
    by_cases hmore : k < objectsPerPage size
    swap
    · rw [if_neg hmore]
      -- all links but the last are written
      rw [show min k (objectsPerPage size - 1) = objectsPerPage size - 1 by omega] at hseg
      exact ⟨owner, free, h.setCore (by rw [hcore]; rfl) hseg⟩
    rw [if_pos hmore]
    by_cases hlink : k < objectsPerPage size - 1
    swap
    · rw [if_neg hlink]
      rw [show min k (objectsPerPage size - 1) = min (k + 1) (objectsPerPage size - 1) by omega] at hseg
      exact ⟨owner, free, h.setCore (by rw [hcore]; rfl) ⟨hmore, hseg⟩⟩
    rw [if_pos hlink]
    -- the core writes the link of an object that it holds
    have hmem : slotAddr size page k ∈ Smp.held size (s.cores i) := by
      rw [hcore]
      exact slotAddr_mem hmore
    refine ⟨owner, free, h.store hfits hmem (by rw [hcore]; rfl) ⟨hmore, ?_⟩⟩
    rw [show min k (objectsPerPage size - 1) = k by omega] at hseg
    rw [show min (k + 1) (objectsPerPage size - 1) = k + 1 by omega, List.range_succ, List.map_append]
    refine (hseg.update fun hin => ?_).concat (h.ne_zero hmem) ?_
    · obtain ⟨j, hj, heq⟩ := List.mem_map.mp hin
      have hjk := slotAddr_inj heq
      have hlt := List.mem_range.mp hj
      omega
    · rw [Function.update_self, slotAddr, slotAddr, Nat.succ_mul, Nat.add_assoc]
  | growStore page currentHead =>
    rw [hcore] at hinv
    -- the last object gets the head that was read
    have hmem : lastSlot size page ∈ Smp.held size (s.cores i) := by
      rw [hcore]
      exact lastSlot_mem hfits page
    refine ⟨owner, free, h.store hfits hmem (by rw [hcore]; rfl) ?_⟩
    rw [CoreInv, objects_eq_concat hfits]
    exact (Seg.update hinv (lastSlot_notMem_init page)).concat (h.ne_zero hmem) (Function.update_self ..)
  | growCas page currentHead =>
    rw [hcore] at hinv
    simp only
    by_cases heq : s.head = currentHead
    · rw [if_pos heq]
      exact ⟨_, _, h.push (by rw [hcore]; rfl) (objects_nodup size page) (heq ▸ hinv) rfl trivial⟩
    · rw [CoreInv, objects_eq_concat hfits] at hinv
      rw [if_neg heq]
      exact ⟨owner, free, h.setCore (by rw [hcore]; rfl) hinv.of_concat⟩
  | freeHead ptr => exact ⟨owner, free, h.setCore (by rw [hcore]; rfl) trivial⟩
  | freeStore ptr currentHead =>
    exact ⟨owner, free, h.store hfits (by rw [hcore]; exact List.mem_singleton.mpr rfl) (by rw [hcore]; rfl)
      (Function.update_self ..)⟩
  | freeCas ptr currentHead =>
    rw [hcore] at hinv
    simp only
    by_cases heq : s.head = currentHead
    · have hne : ptr ≠ 0 := h.ne_zero (by rw [hcore]; exact List.mem_singleton.mpr rfl)
      rw [if_pos heq]
      exact ⟨_, _, h.push (by rw [hcore]; rfl) (List.nodup_singleton ptr)
        ⟨rfl, hne, hinv.trans heq.symm⟩ rfl trivial⟩
    · rw [if_neg heq]
      exact ⟨owner, free, h.setCore (by rw [hcore]; rfl) trivial⟩

/-- **Every step that meets the condition keeps the invariant.** -/
theorem Inv.exec (h : Inv size s owner free) (hfits : Fits size) {o : Op} (hok : Ok s o) :
    ∃ owner' free', Inv size (Smp.exec size s o) owner' free' := by
  cases o with
  | alloc i =>
    rw [Smp.exec]
    by_cases hidle : s.cores i = .idle
    · rw [if_pos hidle]
      exact ⟨owner, free, h.setCore (by rw [hidle]; rfl) trivial⟩
    · rw [if_neg hidle]
      exact ⟨owner, free, h⟩
  | free i ptr =>
    rw [Smp.exec]
    by_cases hcall : s.cores i = .idle ∧ Live s.log ptr
    · rw [if_pos hcall]
      exact ⟨_, _, h.freed hcall.1 hcall.2⟩
    · rw [if_neg hcall]
      exact ⟨owner, free, h⟩
  | step i phys => exact h.step hfits hok
  | write obj v =>
    rw [Smp.exec]
    by_cases hlive : Live s.log obj
    · rw [if_pos hlive]
      exact ⟨owner, free, h.write hfits hlive⟩
    · rw [if_neg hlive]
      exact ⟨owner, free, h⟩

end Steps

/-! ### Runs -/

/-- **The cache is safe**: no object was returned while it was live, and each object of its pages is live, or
is on the free list, or is one that a core carves, pushes or has just popped. -/
structure Safe (size : Nat) (s : State) : Prop where
  alternates : Alternates s.log
  kept : ∃ free, Seg s.next s.head free 0 ∧ free.Nodup ∧ ∀ page ∈ s.pages, ∀ obj ∈ objects size page,
    Live s.log obj ∨ obj ∈ free ∨ ∃ i, obj ∈ held size (s.cores i)

theorem Inv.safe {size : Nat} {s : State} {owner : Nat → Owner} {free : List Nat}
    (h : Inv size s owner free) :
    Safe size s where
  alternates := h.alternates
  kept := ⟨free, h.path, h.nodup, fun page hpage obj hobj => by
    cases hown : owner obj with
    | outside => exact absurd hown ((h.objects obj).mpr ⟨page, hpage, hobj⟩)
    | listed => exact .inr (.inl ((h.listed obj).mp hown))
    | caller => exact .inl ((h.caller obj).mp hown)
    | core i => exact .inr (.inr ⟨i, (h.held obj i).mp hown⟩)⟩

theorem inv_init (size : Nat) (next : Nat → Nat) : Inv size (.init next) (fun _ => .outside) [] where
  path := rfl
  nodup := List.nodup_nil
  listed a := iff_of_false (by simp) List.not_mem_nil
  caller a := iff_of_false (by simp) id
  held a i := iff_of_false (by simp) List.not_mem_nil
  objects a := iff_of_false (by simp) (by simp [State.init])
  pages page hpage := absurd hpage List.not_mem_nil
  cores _ := trivial
  alternates := trivial

/-- **In every run whose steps meet the condition the cache is safe**, for any number of cores and any order
of their steps. -/
theorem safe_of_admissible {size : Nat} (hsize : size + 8 ≤ 4096) (next : Nat → Nat) {ops : List Op}
    (hok : Admissible (exec size) Ok (.init next) ops) : Safe size (runOps (exec size) (.init next) ops) := by
  have hinv : ∃ owner free, Inv size (runOps (exec size) (.init next) ops) owner free :=
    runOps_induction (I := fun s => ∃ owner free, Inv size s owner free)
      (fun s o ⟨owner, free, h⟩ hok => h.exec hsize hok) ⟨_, _, inv_init size next⟩ hok
  obtain ⟨owner, free, h⟩ := hinv
  exact h.safe

/-! ### The head is popped, used and pushed again -/

/-- Core `i` takes `n` steps, and a page from `pmm` is that at 4096. -/
def steps (i n : Nat) : List Op := List.replicate n (.step i (some 4096))

/-- Core 0 carves two objects out of a page and takes the first one. -/
def firstObject : List Op := .alloc 0 :: steps 0 12

/-- Core 0 frees it again, and core 1 reads the head and its link.  Then core 0 takes both objects and frees
the first, and core 1 goes on: its compare-and-swap finds the head that it has read. -/
def reuse : List Op :=
  firstObject ++ .free 0 4096 :: steps 0 3 ++ .alloc 1 :: steps 1 2 ++
    .alloc 0 :: steps 0 4 ++ .alloc 0 :: steps 0 4 ++ .free 0 4096 :: steps 0 3 ++ steps 1 2 ++
    .alloc 0 :: steps 0 4

/-- While core 0 frees its object, core 1 has read the head and its link: its compare-and-swap fails, and it
takes the object that core 0 has freed. -/
def race : List Op :=
  firstObject ++ .free 0 4096 :: .alloc 1 :: steps 1 2 ++ steps 0 3 ++ steps 1 5

theorem safe_of_admissible_race :
    (runOps (exec 2040) (.init fun _ => 0) race).log = [.returned 4096, .freed 4096, .returned 4096] ∧
      Safe 2040 (runOps (exec 2040) (.init fun _ => 0) race) :=
  ⟨by decide +kernel, safe_of_admissible (by decide) _ (by decide +kernel)⟩

/-- **With another link the cache is not safe**: the second object is returned while it is live. -/
theorem not_safe :
    ¬ ∀ (size : Nat) (next : Nat → Nat) (ops : List Op), size + 8 ≤ 4096 →
      Safe size (runOps (exec size) (.init next) ops) := by
  intro h
  have hlog : (runOps (exec 2040) (.init fun _ => 0) reuse).log =
      [.returned 6144, .returned 4096, .freed 4096, .returned 6144, .returned 4096, .freed 4096,
        .returned 4096] := by
    decide +kernel
  have halternates := (h 2040 (fun _ => 0) reuse (by decide)).alternates
  rw [hlog] at halternates
  exact halternates.1 (by decide)

end Keuos.Slab.Smp
