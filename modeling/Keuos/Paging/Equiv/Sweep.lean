import Keuos.Paging.Equiv.Teardown
import Keuos.Paging.Equiv.Supply

/-!
# The sweep as a walk

`atomic_page_sweep` clears the entries that it follows.  The tables of an address space form a tree, so
the sweep never comes back to a word that it has cleared: it frees what a walk over the old memory
collects, whether a page is marked as shared or not.

## Main results

* `atomicPageSweep_eq`: the sweep frees the list `allUser`.
* `allUser_of_unmarked`: without marks this is what `destroy_user_pml4` frees before the top table.
-/

namespace Keuos.Paging

/-! ### The walk -/

/-- The pages of a table. -/
def allPt (m : Mem) (pt : UInt64) : List UInt64 :=
  destroyFrom m (fun entry => [entry &&& addrMask]) pt pml4Entries 0

def allPd (m : Mem) (pd : UInt64) : List UInt64 :=
  destroyFrom m (destroyEntry (allPt m)) pd pml4Entries 0

def allPdp (m : Mem) (pdp : UInt64) : List UInt64 :=
  destroyFrom m (destroyEntry (allPd m)) pdp pml4Entries 0

/-- The tables below the top table, and the pages. -/
def allUser (m : Mem) (root : UInt64) : List UInt64 :=
  destroyFrom m (destroyEntry (allPdp m)) root userEntries 0

/-! ### Subtrees -/

/-- The tables below the end of a path. -/
def Under (m : Mem) (root : UInt64) (q : List UInt64) (x : UInt64) : Prop :=
  ∃ r, UserPath (q ++ r) ∧ table m root (q ++ r) = some x

/-- The tables in `S` have the entries that they have in `m₀`. -/
def Agrees (m₀ m : Mem) (S : UInt64 → Prop) : Prop :=
  ∀ x, S x → ∀ j : UInt64, j.toNat < 512 → m.read64 (entryAddr x j) = m₀.read64 (entryAddr x j)

/-- Only entries of tables in `S` have changed. -/
def Outside (S : UInt64 → Prop) (m m' : Mem) : Prop :=
  ∀ x, PageAligned x → ¬ S x → ∀ j : UInt64, j.toNat < 512 →
    m'.read64 (entryAddr x j) = m.read64 (entryAddr x j)

section Subtrees

variable {roots : Set UInt64} {m₀ : Mem} {root t x i j : UInt64} {q : List UInt64}

theorem under_self (hq : UserPath q) (ht : table m₀ root q = some t) : Under m₀ root q t :=
  ⟨[], by rwa [List.append_nil], by rwa [List.append_nil]⟩

theorem Under.init (h : Under m₀ root (q ++ [j]) x) : Under m₀ root q x := by
  obtain ⟨r, hr, hx⟩ := h
  rw [List.append_assoc] at hr hx
  exact ⟨[j] ++ r, hr, hx⟩

theorem Under.pageAligned (h : Tables roots m₀) (hroot : root ∈ roots) (hx : Under m₀ root q x) :
    PageAligned x := by
  obtain ⟨r, -, hx⟩ := hx
  exact h.pageAligned hroot hx

theorem not_under_entry (h : Tables roots m₀) (hroot : root ∈ roots) (hq : UserPath q)
    (ht : table m₀ root q = some t) (j : UInt64) : ¬ Under m₀ root (q ++ [j]) t := by
  rintro ⟨r, hr, hx⟩
  have hpaths := (h.separated root hroot root hroot _ _ hq hr t ht hx).2
  have hlength := congrArg List.length hpaths
  rw [List.length_append, List.length_append, List.length_singleton] at hlength
  omega

theorem Under.entry_eq (h : Tables roots m₀) (hroot : root ∈ roots) (hi : Under m₀ root (q ++ [i]) x)
    (hj : Under m₀ root (q ++ [j]) x) : i = j := by
  obtain ⟨r, hr, hx⟩ := hi
  obtain ⟨r', hr', hx'⟩ := hj
  have hpaths := (h.separated root hroot root hroot _ _ hr hr' x hx hx').2
  rw [List.append_assoc, List.append_assoc] at hpaths
  exact (List.cons.inj (List.append_cancel_left hpaths)).1

theorem read64_clear_of_ne {m : Mem} (ht : PageAligned t) (hx : PageAligned x) (hi : i.toNat < 512)
    (hj : j.toNat < 512) (hne : ¬ (x = t ∧ j = i)) :
    (m.write64 (entryAddr t i) 0).read64 (entryAddr x j) = m.read64 (entryAddr x j) := by
  refine Mem.read64_write64_of_ne (entryAddr_aligned ht i) (entryAddr_aligned hx j) ?_
  intro heq
  exact hne (entryAddr_inj hx ht hj hi heq)

end Subtrees

/-! ### The loop -/

section Loop

variable {roots : Set UInt64} {m₀ : Mem} {root t : UInt64} {q : List UInt64}

/-- **The loop of a sweep** frees what the walk over the old memory collects, and stores only into the
tables below. -/
theorem sweepFrom_eq (h : Tables roots m₀) (hroot : root ∈ roots) (hq : UserPath q)
    (ht : table m₀ root q = some t) {live : UInt64 → Bool} {act : UInt64 → Mem → List UInt64 × Mem}
    {freed : UInt64 → List UInt64} {stop : Nat} (hstop : stop ≤ 512)
    (hlive : ∀ j : UInt64, j.toNat < stop →
      live (m₀.read64 (entryAddr t j)) = entryPresent (m₀.read64 (entryAddr t j)))
    (hact : ∀ j : UInt64, j.toNat < stop → entryPresent (m₀.read64 (entryAddr t j)) = true → ∀ m,
      Agrees m₀ m (Under m₀ root (q ++ [j])) → ∃ m', act (m₀.read64 (entryAddr t j)) m =
        (freed (m₀.read64 (entryAddr t j)), m') ∧ Outside (Under m₀ root (q ++ [j])) m m') :
    ∀ (n : Nat) (i : UInt64) (m : Mem), i.toNat + n = stop →
      (∀ j : UInt64, i.toNat ≤ j.toNat → j.toNat < stop →
        m.read64 (entryAddr t j) = m₀.read64 (entryAddr t j) ∧
          Agrees m₀ m (Under m₀ root (q ++ [j]))) →
      ∃ m', sweepFrom live act t n i m = (destroyFrom m₀ freed t n i, m') ∧
        Outside (Under m₀ root q) m m' := by
  have htp := h.pageAligned hroot ht
  intro n
  induction n with
  | zero =>
    intro i m _ _
    exact ⟨m, rfl, fun _ _ _ _ _ => rfl⟩
  | succ n ih =>
    intro i m hi hm
    have hnext : (i + 1).toNat = i.toNat + 1 := by
      rw [UInt64.toNat_add, show (1 : UInt64).toNat = 1 from rfl]
      omega
    obtain ⟨hentry, hagrees⟩ := hm i (Nat.le_refl _) (by omega)
    rw [sweepFrom, destroyFrom]
    dsimp only
    rw [hentry, hlive i (by omega)]
    by_cases hpresent : entryPresent (m₀.read64 (entryAddr t i)) = true
    · rw [if_pos hpresent, if_pos hpresent]
      obtain ⟨m₁, hhere, hout⟩ := hact i (by omega) hpresent m hagrees
      rw [hhere]
      dsimp only
      -- what comes later is as it was
      have hlater : ∀ j : UInt64, (i + 1).toNat ≤ j.toNat → j.toNat < stop →
          (m₁.write64 (entryAddr t i) 0).read64 (entryAddr t j) = m₀.read64 (entryAddr t j) ∧
            Agrees m₀ (m₁.write64 (entryAddr t i) 0) (Under m₀ root (q ++ [j])) := by
        intro j hij hj
        have hne : j ≠ i := by
          rintro rfl
          omega
        obtain ⟨hread, hbelow⟩ := hm j (by omega) hj
        refine ⟨?_, ?_⟩
        · rw [read64_clear_of_ne htp htp (by omega) (by omega) fun hat => hne hat.2,
            hout t htp (not_under_entry h hroot hq ht i) j (by omega), hread]
        · intro x hx k hk
          have hxp := hx.pageAligned h hroot
          have hxt : ¬ (x = t ∧ k = i) := by
            rintro ⟨rfl, -⟩
            exact not_under_entry h hroot hq ht j hx
          rw [read64_clear_of_ne htp hxp (by omega) hk hxt,
            hout x hxp (fun hxi => hne (hx.entry_eq h hroot hxi)) k hk, hbelow x hx k hk]
      obtain ⟨m₂, hrest, hout₂⟩ := ih (i + 1) _ (by omega) hlater
      rw [hrest]
      refine ⟨m₂, rfl, ?_⟩
      intro x hx hnot j hj
      have hxt : ¬ (x = t ∧ j = i) := by
        rintro ⟨rfl, -⟩
        exact hnot (under_self hq ht)
      rw [hout₂ x hx hnot j hj, read64_clear_of_ne htp hx (by omega) hj hxt,
        hout x hx (fun hxi => hnot hxi.init) j hj]
    · rw [if_neg hpresent, if_neg hpresent]
      exact ih (i + 1) m (by omega) fun j hij hj => hm j (by omega) hj

theorem sweepLevel_eq (h : Tables roots m₀) (hroot : root ∈ roots) (hq : UserPath q)
    (ht : table m₀ root q = some t) {live : UInt64 → Bool} {below : Mem → UInt64 → List UInt64 × Mem}
    {freed : UInt64 → List UInt64} {stop : Nat} (hstop : stop ≤ 512)
    (hpath : ∀ j : UInt64, j.toNat < stop → UserPath (q ++ [j]))
    (hlive : ∀ j : UInt64, j.toNat < stop →
      live (m₀.read64 (entryAddr t j)) = entryPresent (m₀.read64 (entryAddr t j)))
    (hbelow : ∀ j : UInt64, j.toNat < stop → ∀ t', table m₀ root (q ++ [j]) = some t' → ∀ m,
      Agrees m₀ m (Under m₀ root (q ++ [j])) →
        ∃ m', below m t' = (freed t', m') ∧ Outside (Under m₀ root (q ++ [j])) m m')
    {m : Mem} (hm : Agrees m₀ m (Under m₀ root q)) :
    ∃ m', sweepFrom live (sweepEntry below) t stop 0 m =
      (destroyFrom m₀ (destroyEntry freed) t stop 0, m') ∧ Outside (Under m₀ root q) m m' := by
  refine sweepFrom_eq h hroot hq ht hstop hlive ?_ stop 0 m (by simp) ?_
  · intro j hj hpresent m hagrees
    have hlive' : m₀.read64 (entryAddr t j) &&& ptePresent ≠ 0 := by simpa [entryPresent] using hpresent
    have hsmall := h.small root hroot q j t (hpath j hj) ht hlive'
    have htable := table_append_follow ht (follow_of_entryPresent hpresent)
    obtain ⟨m', hsweep, hout⟩ := hbelow j hj _ htable m hagrees
    refine ⟨m', ?_, hout⟩
    unfold sweepEntry destroyEntry
    dsimp only
    rw [if_neg (by simpa using hsmall), hsweep]
  · intro j _ hj
    exact ⟨hm t (under_self hq ht) j (by omega), fun x hx => hm x hx.init⟩

section Levels

variable (h : Tables roots m₀) (hroot : root ∈ roots) (hq : UserPath q) (ht : table m₀ root q = some t)

include h hroot hq ht

theorem sweepPt_eq (hlength : q.length = 3) {m : Mem} (hm : Agrees m₀ m (Under m₀ root q)) :
    ∃ m', sweepPt m t = (allPt m₀ t, m') ∧ Outside (Under m₀ root q) m m' := by
  unfold sweepPt allPt
  refine sweepFrom_eq h hroot hq ht (show pml4Entries ≤ 512 by decide) (fun _ _ => rfl) ?_ pml4Entries 0 m
    (by simp) ?_
  · intro j _ _ m _
    exact ⟨m, rfl, fun _ _ _ _ _ => rfl⟩
  · intro j _ hj
    refine ⟨hm t (under_self hq ht) j hj, ?_⟩
    -- there are no tables below a page
    rintro x ⟨r, hr, -⟩
    have hle := hr.length_le
    rw [List.length_append, List.length_append, List.length_singleton] at hle
    omega

theorem sweepPd_eq (hlength : q.length = 2) {m : Mem} (hm : Agrees m₀ m (Under m₀ root q)) :
    ∃ m', sweepPd m t = (allPd m₀ t, m') ∧ Outside (Under m₀ root q) m m' := by
  have hstep : ∀ j : UInt64, j.toNat < 512 → UserPath (q ++ [j]) := fun j hj =>
    hq.snoc (by omega) (by rintro rfl; exact absurd hlength (by decide)) hj
  refine sweepLevel_eq h hroot hq ht (show pml4Entries ≤ 512 by decide) hstep (fun _ _ => rfl) ?_ hm
  intro j hj t' ht' m hagrees
  exact sweepPt_eq h hroot (hstep j hj) ht' (by simp [hlength]) hagrees

theorem sweepPdpt_eq (hlength : q.length = 1) {m : Mem} (hm : Agrees m₀ m (Under m₀ root q)) :
    ∃ m', sweepPdpt m t = (allPdp m₀ t, m') ∧ Outside (Under m₀ root q) m m' := by
  have hstep : ∀ j : UInt64, j.toNat < 512 → UserPath (q ++ [j]) := fun j hj =>
    hq.snoc (by omega) (by rintro rfl; exact absurd hlength (by decide)) hj
  refine sweepLevel_eq h hroot hq ht (show pml4Entries ≤ 512 by decide) hstep (fun _ _ => rfl) ?_ hm
  intro j hj t' ht' m hagrees
  exact sweepPd_eq h hroot (hstep j hj) ht' (by simp [hlength]) hagrees

end Levels

/-- **What the sweep frees.** -/
theorem atomicPageSweep_eq (h : Tables roots m₀) (huser : UserEntries roots m₀) (hroot : root ∈ roots)
    (hne : root ≠ 0) : (atomicPageSweep m₀ root).1 = allUser m₀ root := by
  have hnil : UserPath [] := ⟨by simp, by simp, by simp⟩
  have hlive : ∀ j : UInt64, j.toNat < userEntries →
      (entryPresent (m₀.read64 (entryAddr root j)) && m₀.read64 (entryAddr root j) &&& pteUser != 0) =
        entryPresent (m₀.read64 (entryAddr root j)) := by
    intro j hj
    by_cases hpresent : entryPresent (m₀.read64 (entryAddr root j)) = true
    · have hbit := huser root hroot j hj (by simpa [entryPresent] using hpresent)
      rw [hpresent, Bool.true_and, bne_iff_ne]
      exact hbit
    · rw [Bool.eq_false_iff.mpr hpresent, Bool.false_and]
  obtain ⟨m', hsweep, -⟩ := @sweepLevel_eq roots m₀ root root [] h hroot hnil rfl
    (fun entry => entryPresent entry && entry &&& pteUser != 0) sweepPdpt (allPdp m₀) userEntries
    (by decide) (fun j hj => userPath_singleton hj) hlive
    (fun j hj t' ht' m hagrees => sweepPdpt_eq h hroot (userPath_singleton hj) ht' rfl hagrees) m₀
    fun _ _ _ _ => rfl
  unfold atomicPageSweep allUser
  rw [if_neg (by simpa using hne), hsweep]

end Loop

/-! ### Marks -/

section Marks

variable {m : Mem} {root : UInt64}

/-- No page of the address space is marked as shared. -/
def Unmarked (m : Mem) (root : UInt64) : Prop :=
  ∀ v, v < userAddrLimit → getUserPte m root v &&& ptePresent ≠ 0 → getUserPte m root v &&& pteSharedBit = 0

theorem destroyFrom_congr {act act' : UInt64 → List UInt64} {t : UInt64} {stop : Nat}
    (h : ∀ j : UInt64, j.toNat < stop → entryPresent (m.read64 (entryAddr t j)) = true →
      act (m.read64 (entryAddr t j)) = act' (m.read64 (entryAddr t j))) :
    ∀ (n : Nat) (i : UInt64), i.toNat + n ≤ stop → stop ≤ 512 →
      destroyFrom m act t n i = destroyFrom m act' t n i := by
  intro n
  induction n with
  | zero =>
    intro i _ _
    rfl
  | succ n ih =>
    intro i hi hstop
    have hnext : (i + 1).toNat = i.toNat + 1 := by
      rw [UInt64.toNat_add, show (1 : UInt64).toNat = 1 from rfl]
      omega
    rw [destroyFrom, destroyFrom, ih (i + 1) (by omega) hstop]
    split
    · next hpresent => rw [h i (by omega) hpresent]
    · rfl

theorem destroyLevel_congr {below below' : UInt64 → List UInt64} {q : List UInt64} {t : UInt64}
    (ht : table m root q = some t) {stop : Nat} (hstop : stop ≤ 512)
    (h : ∀ j : UInt64, j.toNat < stop → ∀ t', table m root (q ++ [j]) = some t' → below t' = below' t') :
    destroyFrom m (destroyEntry below) t stop 0 = destroyFrom m (destroyEntry below') t stop 0 := by
  refine destroyFrom_congr ?_ stop 0 (by simp) hstop
  intro j hj hpresent
  unfold destroyEntry
  rw [h j hj _ (table_append_follow ht (follow_of_entryPresent hpresent))]

theorem exists_leaf {q : List UInt64} {t j : UInt64} (hq : UserPath q) (hlength : q.length = 3)
    (ht : table m root q = some t) (hj : j.toNat < 512) :
    ∃ v, v < userAddrLimit ∧ leaf m root v = m.read64 (entryAddr t j) := by
  obtain ⟨a, b, c, rfl⟩ := List.length_eq_three.mp hlength
  obtain ⟨v, hv, hpath, hindex⟩ := exists_vaddr hq hj
  refine ⟨v, hv, ?_⟩
  rw [← hpath] at ht
  rw [leaf_of_table ht, hindex]

section Unmarked

variable (h : Unmarked m root) {q : List UInt64} {t : UInt64} (hq : UserPath q)
  (ht : table m root q = some t)

include h hq ht

theorem allPt_of_unmarked (hlength : q.length = 3) : allPt m t = destroyPt m t := by
  unfold allPt destroyPt
  refine destroyFrom_congr ?_ pml4Entries 0 (Nat.le_refl _) (by decide)
  intro j hj hpresent
  obtain ⟨v, hv, hleaf⟩ := exists_leaf hq hlength ht hj
  have hbit := h v hv
  rw [getUserPte_eq_leaf, hleaf] at hbit
  rw [if_pos (beq_iff_eq.mpr (hbit (by simpa [entryPresent] using hpresent)))]

theorem allPd_of_unmarked (hlength : q.length = 2) : allPd m t = destroyPd m t := by
  refine destroyLevel_congr ht (show pml4Entries ≤ 512 by decide) fun j hj t' ht' => ?_
  refine allPt_of_unmarked h (hq.snoc (by omega) ?_ hj) ht' (by simp [hlength])
  rintro rfl
  exact absurd hlength (by decide)

theorem allPdp_of_unmarked (hlength : q.length = 1) : allPdp m t = destroyPdp m t := by
  refine destroyLevel_congr ht (show pml4Entries ≤ 512 by decide) fun j hj t' ht' => ?_
  refine allPd_of_unmarked h (hq.snoc (by omega) ?_ hj) ht' (by simp [hlength])
  rintro rfl
  exact absurd hlength (by decide)

end Unmarked

/-- **Without marks** the two walks free the same pages, apart from the top table. -/
theorem allUser_of_unmarked (h : Unmarked m root) : allUser m root ++ [root] = destroyUserPml4 m root := by
  unfold allUser destroyUserPml4
  have hnil : table m root [] = some root := rfl
  rw [destroyLevel_congr hnil (show userEntries ≤ 512 by decide) fun j hj t' ht' =>
    allPdp_of_unmarked h (userPath_singleton hj) ht' rfl]

/-- **Every page** is freed by the sweep. -/
theorem mem_allUser {v : UInt64} (hv : v < userAddrLimit) (hpresent : leaf m root v &&& ptePresent ≠ 0) :
    leaf m root v &&& addrMask ∈ allUser m root := by
  obtain ⟨pt, hpt⟩ := exists_table_of_present hpresent
  rw [leaf_of_table hpt] at hpresent ⊢
  exact mem_destroyLevels hv hpt hpresent (List.mem_singleton_self _)

end Marks

end Keuos.Paging
