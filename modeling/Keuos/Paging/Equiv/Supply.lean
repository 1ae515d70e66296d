import Keuos.Paging.Equiv.Map

/-!
# Mapping pages when `pmm.alloc` may fail

The answers of `pmm.alloc` are a list in which 0 is a failure.  `Supply` says that the other answers are
different pages and no tables.

How many tables the walk to a page creates depends on the paths at which there are tables already, and
a mapped page adds the prefixes of its own path to these.  `wants` counts the tables from such a set of
paths, without the memory, so that the tables for a sequence of pages can be counted in advance.
`mapUserPage_served` is `map_user_page` with enough answers for its tables, and any answers after them.

Stores elsewhere keep the tables and the leaf entries (`SameEntries`).
-/

namespace Keuos.Paging

open Pmm (physToVirt)

/-! ### Answers with failures -/

/-- The pages among the answers are different, and no tables. -/
def Supply (roots : Set UInt64) (m : Mem) (answers : List UInt64) : Prop :=
  FreshAnswers roots m (answers.filter (· != 0))

section Supply

variable {roots : Set UInt64} {m m' : Mem} {a : UInt64} {answers : List UInt64}

theorem FreshFrame.congr (h : FreshFrame roots m a)
    (hnew : ∀ r ∈ roots, ∀ q, UserPath q → table m' r q = some a → table m r q = some a) :
    FreshFrame roots m' a :=
  ⟨h.ne_zero, h.aligned, h.small, fun r hr q hq hx => h.not_table r hr q hq (hnew r hr q hq hx)⟩

theorem Supply.frame (h : Supply roots m answers) (ha : a ∈ answers) (hne : a ≠ 0) :
    FreshFrame roots m a :=
  h.fresh a (List.mem_filter.mpr ⟨ha, bne_iff_ne.mpr hne⟩)

theorem Supply.tail (h : Supply roots m (a :: answers)) : Supply roots m answers := by
  unfold Supply at h ⊢
  by_cases ha : (a != 0) = true
  · rw [List.filter_cons, if_pos ha] at h
    exact ⟨(List.nodup_cons.mp h.nodup).2, fun b hb => h.fresh b (List.mem_cons_of_mem _ hb)⟩
  · rw [List.filter_cons, if_neg ha] at h
    exact h

theorem Supply.not_mem (h : Supply roots m (a :: answers)) (ha : a ≠ 0) : a ∉ answers := by
  unfold Supply at h
  rw [List.filter_cons, if_pos (bne_iff_ne.mpr ha)] at h
  intro hmem
  exact (List.nodup_cons.mp h.nodup).1 (List.mem_filter.mpr ⟨hmem, bne_iff_ne.mpr ha⟩)

theorem Supply.congr (h : Supply roots m answers)
    (hnew : ∀ a ∈ answers, a ≠ 0 → ∀ r ∈ roots, ∀ q, UserPath q → table m' r q = some a →
      table m r q = some a) : Supply roots m' answers := by
  refine ⟨h.nodup, ?_⟩
  intro b hb
  obtain ⟨hmem, hne⟩ := List.mem_filter.mp hb
  exact (h.fresh b hb).congr (hnew b hmem (bne_iff_ne.mp hne))

theorem Supply.take {used rest : List UInt64} (h : Supply roots m (used ++ rest))
    (hused : ∀ b ∈ used, b ≠ 0) : FreshAnswers roots m used ∧ Supply roots m rest ∧
      ∀ b ∈ used, b ∉ rest := by
  have hfilter : used.filter (· != 0) = used :=
    List.filter_eq_self.mpr fun b hb => bne_iff_ne.mpr (hused b hb)
  unfold Supply at h
  rw [List.filter_append, hfilter] at h
  obtain ⟨hnodup, hrest, hdisjoint⟩ := List.nodup_append.mp h.nodup
  refine ⟨⟨hnodup, fun b hb => h.fresh b (List.mem_append_left _ hb)⟩,
    ⟨hrest, fun b hb => h.fresh b (List.mem_append_right _ hb)⟩, ?_⟩
  intro b hb hmem
  exact hdisjoint b hb b (List.mem_filter.mpr ⟨hmem, bne_iff_ne.mpr (hused b hb)⟩) rfl

end Supply

/-! ### Counting tables -/

/-- The paths of the user half at which an address space has tables. -/
def tabled (m : Mem) (root : UInt64) (q : List UInt64) : Bool :=
  (table m root q).isSome

/-- `missing`, for an address space with tables at the paths in `known`. -/
def wants (known : List UInt64 → Bool) (q : List UInt64) : List UInt64 → Nat
  | [] => 0
  | i :: rest => if known (q ++ [i]) then wants known (q ++ [i]) rest else rest.length + 1

/-- The paths at which there are tables after a page has been mapped. -/
def reached (known : List UInt64 → Bool) (vaddr : UInt64) (q : List UInt64) : Bool :=
  known q || q.isPrefixOf (path vaddr)

theorem missing_eq_wants (m : Mem) (root : UInt64) (q rest : List UInt64) :
    missing m root q rest = wants (tabled m root) q rest := by
  induction rest generalizing q with
  | nil => rfl
  | cons i rest ih =>
    unfold missing wants tabled
    cases table m root (q ++ [i]) with
    | none => rfl
    | some x => exact ih (q ++ [i])

theorem wants_congr {known known' : List UInt64 → Bool}
    (h : ∀ q, UserPath q → known q = known' q) {q rest : List UInt64} (hq : UserPath (q ++ rest)) :
    wants known q rest = wants known' q rest := by
  induction rest generalizing q with
  | nil => rfl
  | cons i rest ih =>
    have hq' := userPath_step hq
    unfold wants
    rw [h _ (userPath_of_append hq'), ih hq']

theorem table_of_append {m : Mem} {root x : UInt64} {q rest : List UInt64}
    (h : table m root (q ++ rest) = some x) : ∃ y, table m root q = some y := by
  unfold table Forest.walk at h ⊢
  rw [List.foldlM_append] at h
  obtain ⟨y, hy, -⟩ := Option.bind_eq_some_iff.mp h
  exact ⟨y, hy⟩

/-! ### One page -/

/-- What `map_user_page` has done when it stored the leaf entry `e`, with the new tables `used`. -/
structure PageMapped (roots : Set UInt64) (m m' : Mem) (root vaddr e : UInt64) (used : List UInt64) :
    Prop where
  tables : Tables roots m'
  leaves : ∀ r ∈ roots, ∀ v, v < userAddrLimit →
    leaf m' r v = if r = root ∧ v >>> 12 = vaddr >>> 12 then e else leaf m r v
  tabled_eq : ∀ q, UserPath q → tabled m' root q = reached (tabled m root) vaddr q
  keeps : ∀ r ∈ roots, ∀ q, UserPath q → ∀ x, table m r q = some x → table m' r q = some x
  adds : ∀ r ∈ roots, ∀ q, UserPath q → ∀ x, table m' r q = some x → table m r q = some x ∨ x ∈ used
  placed : ∀ a ∈ used, ∃ q, UserPath q ∧ q ≠ [] ∧ table m' root q = some a
  only : OnlyTables m m' root

section Served

variable {roots : Set UInt64} {m : Mem} {root vaddr : UInt64}

theorem PageMapped.of_grown {s s' : Vm} {pt e : UInt64} {used : List UInt64} (hroot : root ∈ roots)
    (hvaddr : vaddr < userAddrLimit) (hg : Grown roots s s' root (path vaddr) pt used) :
    PageMapped roots s.mem (s'.mem.write64 (entryAddr pt (ptIndex vaddr)) e) root vaddr e used := by
  have hpath := userPath_path hvaddr
  obtain ⟨htables, hsame, hleaves⟩ := hg.tables.storeLeaf hvaddr hg.table_eq
    (hg.tables.storesEntry_write hroot hpath hg.table_eq (ptIndex_lt vaddr) (e := e))
  have hplaced : ∀ a ∈ used, ∃ q, UserPath q ∧ q ≠ [] ∧ q <+: path vaddr ∧
      table (s'.mem.write64 (entryAddr pt (ptIndex vaddr)) e) root q = some a := by
    intro a ha
    obtain ⟨q, hne, hpre, hq⟩ := hg.placed a ha
    have huser : UserPath q := by
      obtain ⟨rest, hrest⟩ := hpre
      rw [← hrest] at hpath
      exact userPath_of_append hpath
    exact ⟨q, huser, hne, hpre, (hsame root hroot q huser).trans hq⟩
  refine ⟨htables, ?_, ?_, ?_, ?_, ?_, ?_⟩
  · intro r hr v hv
    rw [hleaves r hr v hv, hg.leaves r hr v hv]
  · intro q hq
    rw [Bool.eq_iff_iff]
    unfold tabled reached
    rw [hsame root hroot q hq, Bool.or_eq_true, Option.isSome_iff_exists, List.isPrefixOf_iff_prefix]
    constructor
    · rintro ⟨x, hx⟩
      obtain hold | ⟨-, hused⟩ := hg.adds root hroot q hq x hx
      · exact .inl (Option.isSome_iff_exists.mpr ⟨x, hold⟩)
      · obtain ⟨q', huser, -, hpre, hq'⟩ := hplaced x hused
        have heq := (htables.separated root hroot root hroot q q' hq huser x
          ((hsame root hroot q hq).trans hx) hq').2
        exact .inr (heq ▸ hpre)
    · rintro (hold | ⟨rest, hrest⟩)
      · obtain ⟨x, hx⟩ := Option.isSome_iff_exists.mp hold
        exact ⟨x, hg.keeps root hroot q hq x hx⟩
      · have hpt := hg.table_eq
        rw [← hrest] at hpt
        exact table_of_append hpt
  · intro r hr q hq x hx
    exact (hsame r hr q hq).trans (hg.keeps r hr q hq x hx)
  · intro r hr q hq x hx
    obtain hold | ⟨-, hused⟩ := hg.adds r hr q hq x ((hsame r hr q hq).symm.trans hx)
    · exact .inl hold
    · exact .inr hused
  · intro a ha
    obtain ⟨q, huser, hne, -, hq⟩ := hplaced a ha
    exact ⟨q, huser, hne, hq⟩
  · intro y hy
    have hyt := hy _ pt hpath ((hsame root hroot _ hpath).trans hg.table_eq)
    rw [Mem.write64_of_not_mem fun hin => hyt (inBlock_entry (ptIndex_lt vaddr) hin)]
    exact hg.only y fun q t hq ht => hy q t hq ((hsame root hroot q hq).trans ht)

/-- **`map_user_page` with enough pages for its tables.** -/
theorem mapUserPage_served (h : Tables roots m) (hroot : root ∈ roots) (hvaddr : vaddr < userAddrLimit)
    {used : List UInt64} (hfresh : FreshAnswers roots m used)
    (hused : used.length = wants (tabled m root) [] (path vaddr)) (rest : List UInt64)
    (paddr flags : UInt64) :
    ∃ m', mapUserPage ⟨m, used ++ rest⟩ root vaddr paddr flags = ⟨m', rest⟩ ∧
      PageMapped roots m m' root vaddr (paddr ||| flags) used := by
  rw [← missing_eq_wants] at hused
  obtain ⟨pt, s', used', hmap, hg, hmissing⟩ | ⟨-, -, -, hshort, -⟩ :=
    walk_spec (s := ⟨m, used⟩) h hroot hvaddr hfresh paddr flags
  swap
  · exact absurd hused (Nat.ne_of_lt hshort)
  -- the walk has used all the answers
  have hall : used = used' ++ s'.answers := hg.answers
  have hlen : used'.length = used.length := by
    rw [hused]
    exact hmissing.symm
  have hnil : s'.answers = [] := by
    have := congrArg List.length hall
    rw [List.length_append, hlen] at this
    exact List.length_eq_zero_iff.mp (by omega)
  rw [hnil, List.append_nil] at hall
  subst hall
  refine ⟨_, ?_, PageMapped.of_grown hroot hvaddr hg⟩
  rw [hmap rest, hnil, List.nil_append]

theorem PageMapped.table_of_ne {m' : Mem} {e : UInt64} {used : List UInt64}
    (h : PageMapped roots m m' root vaddr e used) (hroot : root ∈ roots) {r : UInt64} (hr : r ∈ roots)
    (hne : r ≠ root) {q : List UInt64} (hq : UserPath q) : table m' r q = table m r q := by
  cases hx : table m r q with
  | some x => exact h.keeps r hr q hq x hx
  | none =>
    cases hx' : table m' r q with
    | none => rfl
    | some x =>
      obtain hold | hused := h.adds r hr q hq x hx'
      · rw [hx] at hold
        exact absurd hold (by simp)
      · obtain ⟨q', hq', -, hplaced⟩ := h.placed x hused
        exact absurd (h.tables.separated r hr root hroot q q' hq hq' x hx' hplaced).1 hne

theorem PageMapped.supply {m' : Mem} {e : UInt64} {used rest : List UInt64}
    (hmapped : PageMapped roots m m' root vaddr e used) (h : Supply roots m rest)
    (hdisjoint : ∀ b ∈ used, b ∉ rest) : Supply roots m' rest := by
  refine h.congr ?_
  intro a ha _ r hr q hq hx
  obtain hold | hused := hmapped.adds r hr q hq a hx
  · exact hold
  · exact absurd ha (hdisjoint a hused)

end Served

/-! ### Any answers -/

/-- What `map_user_page` has done with the answers `taken`: it stored the leaf entry `e`, or it stopped
because a table was missing. -/
structure PageTried (roots : Set UInt64) (m m' : Mem) (root vaddr e : UInt64) (taken : List UInt64) :
    Prop where
  tables : Tables roots m'
  keeps : ∀ r ∈ roots, ∀ q, UserPath q → ∀ x, table m r q = some x → table m' r q = some x
  adds : ∀ r ∈ roots, ∀ q, UserPath q → ∀ x, table m' r q = some x →
    table m r q = some x ∨ (x ∈ taken ∧ x ≠ 0)
  leaves : (∀ r ∈ roots, ∀ v, v < userAddrLimit →
      leaf m' r v = if r = root ∧ v >>> 12 = vaddr >>> 12 then e else leaf m r v) ∨
    (leaf m root vaddr = 0 ∧ ∀ r ∈ roots, ∀ v, v < userAddrLimit → leaf m' r v = leaf m r v)

section Tried

variable {roots : Set UInt64} {m : Mem} {root vaddr : UInt64} {answers : List UInt64}

theorem dropWhile_failure (answers : List UInt64) :
    answers.dropWhile (· != 0) = [] ∨ ∃ rest, answers.dropWhile (· != 0) = 0 :: rest := by
  cases hdrop : answers.dropWhile (· != 0) with
  | nil => exact .inl rfl
  | cons a rest =>
    have hhead := List.head?_dropWhile_not (· != 0) answers
    rw [hdrop, List.head?_cons] at hhead
    have ha : a = 0 := by simpa using hhead
    exact .inr ⟨rest, by rw [ha]⟩

theorem ne_zero_of_mem_takeWhile {answers : List UInt64} {a : UInt64}
    (ha : a ∈ answers.takeWhile (· != 0)) : a ≠ 0 :=
  bne_iff_ne.mp (List.all_eq_true.mp List.all_takeWhile a ha)

theorem exists_failure (answers : List UInt64) :
    ∃ served after, answers = served ++ after ∧ (∀ a ∈ served, a ≠ 0) ∧
      (after = [] ∨ ∃ rest, after = 0 :: rest) :=
  ⟨_, _, List.takeWhile_append_dropWhile.symm, fun _ ha => ne_zero_of_mem_takeWhile ha,
    dropWhile_failure answers⟩

/-- The answers have the tables that a page needs, when there are tables at the paths in `known`. -/
def Ready (known : List UInt64 → Bool) (answers : List UInt64) (vaddr : UInt64) : Prop :=
  wants known [] (path vaddr) ≤ answers.length ∧
    ∀ b ∈ answers.take (wants known [] (path vaddr)), b ≠ 0

instance (known : List UInt64 → Bool) (answers : List UInt64) (vaddr : UInt64) :
    Decidable (Ready known answers vaddr) :=
  inferInstanceAs (Decidable (_ ≤ _ ∧ ∀ b ∈ answers.take (wants known [] (path vaddr)), b ≠ 0))

theorem ready_append_iff {known : List UInt64 → Bool} {served after : List UInt64}
    (hserved : ∀ a ∈ served, a ≠ 0) (hafter : after = [] ∨ ∃ rest, after = 0 :: rest) :
    Ready known (served ++ after) vaddr ↔ wants known [] (path vaddr) ≤ served.length := by
  constructor
  · rintro ⟨hlength, hne⟩
    by_contra hlt
    obtain rfl | ⟨rest, rfl⟩ := hafter
    · rw [List.append_nil] at hlength
      exact hlt hlength
    · refine hne 0 (List.mem_take_iff_getElem.mpr ⟨served.length, ?_, ?_⟩) rfl
      · rw [List.length_append, List.length_cons]
        omega
      · rw [List.getElem_append_right (Nat.le_refl _)]
        simp
  · intro hle
    refine ⟨?_, ?_⟩
    · rw [List.length_append]
      omega
    · rw [List.take_append_of_le_length hle]
      exact fun b hb => hserved b (List.mem_of_mem_take hb)

/-- The paths at which there are tables after the walk to a page has created `count` of its tables. -/
def begun (known : List UInt64 → Bool) (vaddr : UInt64) (count : Nat) (q : List UInt64) : Bool :=
  known q || (q.isPrefixOf (path vaddr) && q.length + wants known [] (path vaddr) ≤ count + 3)

/-- What `map_user_page` has done when it stopped because a table was missing, with the new tables
`used`. -/
structure PageStopped (roots : Set UInt64) (m m' : Mem) (root vaddr : UInt64) (used : List UInt64) :
    Prop where
  tables : Tables roots m'
  leaves : ∀ r ∈ roots, ∀ v, v < userAddrLimit → leaf m' r v = leaf m r v
  absent : leaf m root vaddr = 0
  tabled_eq : ∀ q, UserPath q → tabled m' root q = begun (tabled m root) vaddr used.length q
  keeps : ∀ r ∈ roots, ∀ q, UserPath q → ∀ x, table m r q = some x → table m' r q = some x
  adds : ∀ r ∈ roots, ∀ q, UserPath q → ∀ x, table m' r q = some x → table m r q = some x ∨ x ∈ used
  only : OnlyTables m m' root

theorem Grown.tabled_stopped {s s' : Vm} {q rest used : List UInt64} {x : UInt64}
    (hg : Grown roots s s' root q x used) (hroot : root ∈ roots) (hvaddr : vaddr < userAddrLimit)
    (hpath : path vaddr = q ++ rest)
    (hwants : wants (tabled s.mem root) [] (path vaddr) = used.length + rest.length)
    {p : List UInt64} (hp : UserPath p) :
    tabled s'.mem root p = begun (tabled s.mem root) vaddr used.length p := by
  have huser := userPath_path hvaddr
  have hlength : q.length + rest.length = 3 := by
    rw [← List.length_append, ← hpath, path_length]
  have hle : q.length + (used.length + rest.length) = used.length + 3 := by omega
  rw [Bool.eq_iff_iff]
  unfold tabled begun
  rw [Bool.or_eq_true, Bool.and_eq_true, Option.isSome_iff_exists, List.isPrefixOf_iff_prefix,
    decide_eq_true_iff, show (fun q => (table s.mem root q).isSome) = tabled s.mem root from rfl, hwants]
  constructor
  · rintro ⟨y, hy⟩
    rcases hg.adds root hroot p hp y hy with hold | ⟨-, hused⟩
    · exact .inl (Option.isSome_iff_exists.mpr ⟨y, hold⟩)
    · obtain ⟨q', -, hpre, hq'⟩ := hg.placed y hused
      have huser' : UserPath q' := by
        obtain ⟨tail, rfl⟩ := hpre
        rw [hpath, List.append_assoc] at huser
        exact userPath_of_append huser
      obtain rfl := (hg.tables.separated root hroot root hroot p q' hp huser' y hy hq').2
      have hshort := hpre.length_le
      refine .inr ⟨hpre.trans ⟨rest, hpath.symm⟩, ?_⟩
      omega
  · rintro (hold | ⟨hpre, hshort⟩)
    · obtain ⟨y, hy⟩ := Option.isSome_iff_exists.mp hold
      exact ⟨y, hg.keeps root hroot p hp y hy⟩
    · -- a prefix of the path that is no longer than `q` is a prefix of `q`
      have hq : p <+: q :=
        List.prefix_of_prefix_length_le hpre ⟨rest, hpath.symm⟩ (by omega)
      obtain ⟨tail, rfl⟩ := hq
      exact table_of_append hg.table_eq

/-- **`map_user_page` without enough pages for its tables** takes the answers up to a failure, and stores
no leaf entry. -/
theorem mapUserPage_stopped (h : Tables roots m) (hroot : root ∈ roots) (hvaddr : vaddr < userAddrLimit)
    (hsupply : Supply roots m answers) (hshort : ¬ Ready (tabled m root) answers vaddr)
    (paddr flags : UInt64) :
    ∃ m', mapUserPage ⟨m, answers⟩ root vaddr paddr flags =
        ⟨m', (answers.dropWhile (· != 0)).tail⟩ ∧
      PageStopped roots m m' root vaddr (answers.takeWhile (· != 0)) := by
  have hserved := fun a => @ne_zero_of_mem_takeWhile answers a
  have hafter := dropWhile_failure answers
  have hsplit := List.takeWhile_append_dropWhile (p := (· != 0)) (l := answers)
  generalize answers.takeWhile (· != 0) = served at *
  generalize answers.dropWhile (· != 0) = after at *
  subst hsplit
  rw [ready_append_iff hserved hafter, ← missing_eq_wants, Nat.not_le] at hshort
  obtain ⟨hfresh, -, -⟩ := hsupply.take hserved
  obtain ⟨pt, s', used, -, hg, hmissing⟩ |
      ⟨s', hmap, hnil, -, ⟨q, below, x, used, hpath, hg, hcount⟩, hzero⟩ :=
    walk_spec (s := ⟨m, served⟩) h hroot hvaddr hfresh paddr flags
  · have hall : served = used ++ s'.answers := hg.answers
    rw [show missing m root [] (path vaddr) = used.length from hmissing, hall, List.length_append] at hshort
    omega
  have hall : served = used ++ s'.answers := hg.answers
  rw [hnil, List.append_nil] at hall
  subst hall
  -- a table is missing, so there is no leaf entry
  have habsent : leaf m root vaddr = 0 := by
    refine leaf_of_none ?_
    cases htable : table m root (path vaddr) with
    | none => rfl
    | some pt =>
      have hzero : missing m root [] (path vaddr) = 0 := missing_eq_zero htable
      rw [hzero] at hshort
      exact absurd hshort (Nat.not_lt_zero _)
  rw [missing_eq_wants] at hcount
  have hstopped : PageStopped roots m s'.mem root vaddr served :=
    { tables := hg.tables
      leaves := hg.leaves
      absent := habsent
      tabled_eq := fun p hp => hg.tabled_stopped hroot hvaddr hpath hcount hp
      keeps := hg.keeps
      adds := fun r hr p hp y hy => (hg.adds r hr p hp y hy).imp_right fun hnew => hnew.2
      only := hg.only }
  refine ⟨s'.mem, ?_, hstopped⟩
  obtain rfl | ⟨rest, rfl⟩ := hafter
  · rw [List.append_nil, hmap, List.tail_nil, ← hnil]
  · exact hzero rest

theorem mapUserPage_short (h : Tables roots m) (hroot : root ∈ roots) (hvaddr : vaddr < userAddrLimit)
    (hsupply : Supply roots m answers) (hshort : ¬ Ready (tabled m root) answers vaddr)
    (paddr flags : UInt64) :
    ∃ m' taken rest, mapUserPage ⟨m, answers⟩ root vaddr paddr flags = ⟨m', rest⟩ ∧
      answers = taken ++ rest ∧ Tables roots m' ∧
      (∀ r ∈ roots, ∀ q, UserPath q → ∀ x, table m r q = some x → table m' r q = some x) ∧
      (∀ r ∈ roots, ∀ q, UserPath q → ∀ x, table m' r q = some x →
        table m r q = some x ∨ (x ∈ taken ∧ x ≠ 0)) ∧
      leaf m root vaddr = 0 ∧ ∀ r ∈ roots, ∀ v, v < userAddrLimit → leaf m' r v = leaf m r v := by
  obtain ⟨m', hmap, hstopped⟩ := mapUserPage_stopped h hroot hvaddr hsupply hshort paddr flags
  have hadds : ∀ taken : List UInt64, (∀ a ∈ answers.takeWhile (· != 0), a ∈ taken) → ∀ r ∈ roots, ∀ q,
      UserPath q → ∀ x, table m' r q = some x → table m r q = some x ∨ (x ∈ taken ∧ x ≠ 0) := by
    intro taken htaken r hr q hq x hx
    rcases hstopped.adds r hr q hq x hx with hold | hused
    · exact .inl hold
    · exact .inr ⟨htaken x hused, ne_zero_of_mem_takeWhile hused⟩
  have hsplit := List.takeWhile_append_dropWhile (p := (· != 0)) (l := answers)
  obtain hnil | ⟨rest, hcons⟩ := dropWhile_failure answers
  · rw [hnil] at hmap
    rw [hnil, List.append_nil] at hsplit
    exact ⟨m', answers, [], hmap, (List.append_nil _).symm, hstopped.tables, hstopped.keeps,
      hadds answers fun a ha => hsplit ▸ ha, hstopped.absent, hstopped.leaves⟩
  · rw [hcons] at hmap hsplit
    refine ⟨m', answers.takeWhile (· != 0) ++ [0], rest, hmap, ?_, hstopped.tables, hstopped.keeps,
      hadds _ fun a ha => List.mem_append_left [0] ha, hstopped.absent, hstopped.leaves⟩
    rw [List.append_assoc, List.singleton_append, hsplit]

/-- **`map_user_page` with enough pages for its tables** stores the leaf entry. -/
theorem mapUserPage_ready (h : Tables roots m) (hroot : root ∈ roots) (hvaddr : vaddr < userAddrLimit)
    (hsupply : Supply roots m answers) (hready : Ready (tabled m root) answers vaddr)
    (paddr flags : UInt64) :
    ∃ m', mapUserPage ⟨m, answers⟩ root vaddr paddr flags =
        ⟨m', answers.drop (wants (tabled m root) [] (path vaddr))⟩ ∧
      PageMapped roots m m' root vaddr (paddr ||| flags)
        (answers.take (wants (tabled m root) [] (path vaddr))) := by
  obtain ⟨hlength, hne⟩ := hready
  have hsplit := hsupply
  rw [← List.take_append_drop (wants (tabled m root) [] (path vaddr)) answers] at hsplit
  obtain ⟨hfresh, -, -⟩ := hsplit.take hne
  obtain ⟨m', hmap, hpage⟩ := mapUserPage_served h hroot hvaddr hfresh
    (by rw [List.length_take, Nat.min_eq_left hlength])
    (answers.drop (wants (tabled m root) [] (path vaddr))) paddr flags
  rw [List.take_append_drop] at hmap
  exact ⟨m', hmap, hpage⟩

/-- **`map_user_page` with any answers.** -/
theorem mapUserPage_tried (h : Tables roots m) (hroot : root ∈ roots) (hvaddr : vaddr < userAddrLimit)
    (hsupply : Supply roots m answers) (paddr flags : UInt64) :
    ∃ m' taken rest, mapUserPage ⟨m, answers⟩ root vaddr paddr flags = ⟨m', rest⟩ ∧
      answers = taken ++ rest ∧ PageTried roots m m' root vaddr (paddr ||| flags) taken := by
  by_cases hready : Ready (tabled m root) answers vaddr
  · obtain ⟨m', hmap, hpage⟩ := mapUserPage_ready h hroot hvaddr hsupply hready paddr flags
    refine ⟨m', _, _, hmap, (List.take_append_drop _ _).symm, hpage.tables, hpage.keeps, ?_,
      .inl hpage.leaves⟩
    intro r hr q hq x hx
    rcases hpage.adds r hr q hq x hx with hold | hused
    · exact .inl hold
    · exact .inr ⟨hused, hready.2 x hused⟩
  · obtain ⟨m', taken, rest, hmap, hanswers, htables, hkeeps, hadds, habsent, hleaves⟩ :=
      mapUserPage_short h hroot hvaddr hsupply hready paddr flags
    exact ⟨m', taken, rest, hmap, hanswers, htables, hkeeps, hadds, .inr ⟨habsent, hleaves⟩⟩

end Tried

/-! ### Stores elsewhere -/

/-- The tables have the same entries in both memories. -/
def SameEntries (roots : Set UInt64) (m m' : Mem) : Prop :=
  ∀ r ∈ roots, ∀ q x, UserPath q → table m r q = some x → ∀ j : UInt64, j.toNat < 512 →
    m'.read64 (entryAddr x j) = m.read64 (entryAddr x j)

section SameEntries

variable {roots : Set UInt64} {m m' : Mem}

theorem SameEntries.of_outside (h : ∀ r ∈ roots, ∀ q x, UserPath q → table m r q = some x →
    ∀ y, InBlock (physToVirt x) 4096 y → m' y = m y) : SameEntries roots m m' := by
  intro r hr q x hq hx j hj
  refine Mem.read64_congr ?_
  intro y hy
  exact h r hr q x hq hx y (inBlock_entry hj hy)

theorem SameEntries.table (h : SameEntries roots m m') {r : UInt64} (hr : r ∈ roots) {q : List UInt64}
    (hq : UserPath q) : table m' r q = table m r q := by
  refine table_congr ?_ hq
  intro q j x hqj hx
  exact follow_congr (h r hr q x hqj.init hx j hqj.last_lt)

theorem SameEntries.tables (h : SameEntries roots m m') (htables : Tables roots m) :
    Tables roots m' := by
  refine htables.of_same (fun r hr q hq => h.table hr hq) ?_
  intro r hr q j x hqj hx
  rw [h r hr q x hqj.init hx j hqj.last_lt]
  exact htables.small r hr q j x hqj hx

theorem SameEntries.leaf (h : SameEntries roots m m') {r v : UInt64} (hr : r ∈ roots)
    (hv : v < userAddrLimit) : leaf m' r v = leaf m r v := by
  have hpath := userPath_path hv
  cases hx : Paging.table m r (path v) with
  | none => rw [leaf_of_none hx, leaf_of_none ((h.table hr hpath).trans hx)]
  | some x =>
    rw [leaf_of_table hx, leaf_of_table ((h.table hr hpath).trans hx)]
    exact h r hr _ x hpath hx _ (ptIndex_lt v)

theorem SameEntries.supply (h : SameEntries roots m m') {answers : List UInt64}
    (hs : Supply roots m answers) : Supply roots m' answers := by
  refine hs.congr ?_
  intro a _ _ r hr q hq hx
  exact (h.table hr hq).symm.trans hx

theorem SameEntries.tabled (h : SameEntries roots m m') {r : UInt64} (hr : r ∈ roots) {q : List UInt64}
    (hq : UserPath q) : tabled m' r q = tabled m r q := by
  unfold Paging.tabled
  rw [h.table hr hq]

end SameEntries

/-! ### An empty address space -/

theorem freshFrame_zeros {roots : Set UInt64} {a : UInt64} (hne : a ≠ 0) (haligned : PageAligned a)
    (hsmall : a.toNat < 2 ^ 52) (hroots : a ∉ roots) : FreshFrame roots (fun _ => 0) a := by
  refine ⟨hne, haligned, hsmall, ?_⟩
  intro r hr q _ hx
  rw [(table_of_empty (zero_entry _) hx).2] at hroots
  exact hroots hr

theorem freshFrame_zero {a : UInt64} (hne : a ≠ 0) (haligned : PageAligned a) (hsmall : a.toNat < 2 ^ 52)
    (hroot : a ≠ 0x1000) : FreshFrame {0x1000} (fun _ => 0) a :=
  freshFrame_zeros hne haligned hsmall hroot

theorem tabled_zero {root : UInt64} {q : List UInt64} (hq : q ≠ []) :
    tabled (fun _ => 0) root q = false := by
  cases hx : table (fun _ => 0) root q with
  | none =>
    unfold tabled
    rw [hx]
    rfl
  | some x => exact absurd (table_of_empty (zero_entry _) hx).1 hq

theorem leaf_zero (root v : UInt64) : leaf (fun _ => 0) root v = 0 := by
  refine leaf_of_none ?_
  cases hx : table (fun _ => 0) root (path v) with
  | none => rfl
  | some x => exact absurd (table_of_empty (zero_entry _) hx).1 (by simp [path])

theorem getUserPte_zero (v : UInt64) : getUserPte (fun _ => 0) 0x1000 v = 0 := by
  rw [getUserPte_eq_leaf, leaf_zero]

theorem translateUserAddr_zero (v : UInt64) : translateUserAddr (fun _ => 0) 0x1000 v = 0 := by
  rw [translateUserAddr_eq_leaf, ← getUserPte_eq_leaf, getUserPte_zero]
  rfl

theorem wants_zero (root v : UInt64) : wants (tabled (fun _ => 0) root) [] (path v) = 3 := by
  unfold path wants
  rw [tabled_zero (by simp), if_neg (by simp)]
  rfl

end Keuos.Paging

/-!
## The user bit of the top entries

`atomic_page_sweep` follows an entry of the top table when its user bit is set.  A walk for a user page
sets it, and no walk takes it away.
-/

namespace Keuos.Paging

/-- The entries of the user half of the top tables are user entries. -/
def UserEntries (roots : Set UInt64) (m : Mem) : Prop :=
  ∀ r ∈ roots, ∀ j : UInt64, j.toNat < 256 → m.read64 (entryAddr r j) &&& ptePresent ≠ 0 →
    m.read64 (entryAddr r j) &&& pteUser ≠ 0

theorem path_ne_nil (v : UInt64) : path v ≠ [] := by
  unfold path
  exact List.cons_ne_nil _ _

section UserEntries

variable {roots : Set UInt64} {m m' : Mem} {root t i e : UInt64} {p : List UInt64}

theorem UserEntries.store (h : UserEntries roots m) (hs : StoresEntry roots m m' root t i e p)
    (ht : table m root p = some t) (hnew : p = [] → e &&& ptePresent ≠ 0 → e &&& pteUser ≠ 0) :
    UserEntries roots m' := by
  intro r hr j hj hpresent
  by_cases hat : r = root ∧ [] = p ∧ j = i
  · obtain ⟨rfl, rfl, rfl⟩ := hat
    obtain rfl : r = t := Option.some.inj ht
    rw [hs.self] at hpresent ⊢
    exact hnew rfl hpresent
  · rw [hs.other r hr [] r ⟨by simp, by simp, by simp⟩ rfl j (by omega) hat] at hpresent ⊢
    exact h r hr j hj hpresent

theorem UserEntries.of_sameEntries (h : UserEntries roots m) (hsame : SameEntries roots m m') :
    UserEntries roots m' := by
  intro r hr j hj hpresent
  rw [hsame r hr [] r ⟨by simp, by simp, by simp⟩ rfl j (by omega)] at hpresent ⊢
  exact h r hr j hj hpresent

/-- **`walk_or_create`** for a user page, or through a table that is there. -/
theorem UserEntries.walkOrCreate {s s' : Vm} {x flags : UInt64} (hu : UserEntries roots s.mem)
    (h : Tables roots s.mem) (hroot : root ∈ roots) (hp : UserPath (p ++ [i]))
    (ht : table s.mem root p = some t) (hfresh : FreshAnswers roots s.mem s.answers)
    (hflags : flags &&& pteUser ≠ 0 ∨ s.mem.read64 (entryAddr t i) &&& ptePresent ≠ 0)
    (heq : walkOrCreate s t i flags = (x, s')) : UserEntries roots s'.mem := by
  have hallowed : flags &&& pteUser ≠ 0 → flags &&& (pteUser ||| pteWrite) &&& pteUser ≠ 0 := by
    intro hne
    rw [UInt64.and_assoc, show (pteUser ||| pteWrite) &&& pteUser = pteUser from by decide]
    exact hne
  by_cases habsent : s.mem.read64 (entryAddr t i) &&& ptePresent = 0
  · have huser := hflags.resolve_right fun hne => hne habsent
    cases hanswers : s.answers with
    | nil =>
      rw [walkOrCreate_none habsent hanswers] at heq
      obtain ⟨-, rfl⟩ := Prod.mk.inj heq
      exact hu
    | cons a answers =>
      have ha : FreshFrame roots s.mem a := hfresh.fresh a (by rw [hanswers]; exact List.mem_cons_self ..)
      rw [walkOrCreate_absent rfl habsent hanswers ha.ne_zero] at heq
      obtain ⟨-, rfl⟩ := Prod.mk.inj heq
      exact hu.store (h.storesEntry_install hroot hp.init ht hp.last_lt ha) ht
        fun _ _ => or_and_ne_zero _ (hallowed huser)
  · have hps := h.small root hroot p i t hp ht habsent
    rcases walkOrCreate_present (s := s) flags rfl habsent hps with hsame | hset
    · rw [hsame] at heq
      obtain ⟨-, rfl⟩ := Prod.mk.inj heq
      exact hu
    · rw [hset] at heq
      obtain ⟨-, rfl⟩ := Prod.mk.inj heq
      refine hu.store (h.storesEntry_write hroot hp.init ht hp.last_lt) ht ?_
      rintro rfl -
      obtain rfl : root = t := Option.some.inj ht
      rw [UInt64.or_comm]
      exact or_and_ne_zero _ (hu root hroot i (hp.user i rfl) habsent)

theorem present_of_table {q rest : List UInt64} {x y : UInt64} (hx : table m root q = some x)
    (hy : table m root (q ++ i :: rest) = some y) : m.read64 (entryAddr x i) &&& ptePresent ≠ 0 := by
  have hstep : q ++ i :: rest = (q ++ [i]) ++ rest := by rw [List.append_assoc]; rfl
  rw [hstep] at hy
  obtain ⟨z, hz⟩ := table_of_append hy
  obtain ⟨x', hx', hfollow⟩ := (Forest.walk_append_singleton_eq_some _).mp hz
  obtain rfl : x = x' := Option.some.inj (hx.symm.trans hx')
  exact (follow_eq_some.mp hfollow).1

/-- A page is mapped for the user, or at an address that has its tables. -/
def ForUser (m : Mem) (root vaddr flags : UInt64) : Prop :=
  flags &&& pteUser ≠ 0 ∨ ∃ pt, table m root (path vaddr) = some pt

theorem UserEntries.mapUserPage_fresh {s : Vm} {vaddr flags : UInt64} (hu : UserEntries roots s.mem)
    (h : Tables roots s.mem) (hroot : root ∈ roots) (hvaddr : vaddr < userAddrLimit)
    (hfresh : FreshAnswers roots s.mem s.answers) (hflags : ForUser s.mem root vaddr flags)
    (paddr : UInt64) : UserEntries roots (mapUserPage s root vaddr paddr flags).mem := by
  have hpath := userPath_path hvaddr
  have hpath₁ : UserPath ([] ++ [pml4Index vaddr]) := userPath_of_append hpath
  have hpath₂ : UserPath ([pml4Index vaddr] ++ [pdpIndex vaddr]) := userPath_of_append hpath
  have hpath₃ : UserPath ([pml4Index vaddr, pdpIndex vaddr] ++ [pdIndex vaddr]) := hpath
  have hlevel : ∀ {s' : Vm} {q rest : List UInt64} {x j : UInt64}, path vaddr = q ++ j :: rest →
      table s'.mem root q = some x → ForUser s'.mem root vaddr flags →
      flags &&& pteUser ≠ 0 ∨ s'.mem.read64 (entryAddr x j) &&& ptePresent ≠ 0 := by
    rintro s' q rest x j hsplit hx (huser | ⟨pt, hpt⟩)
    · exact .inl huser
    · rw [hsplit] at hpt
      exact .inr (present_of_table hx hpt)
  have hkeep : ∀ {s₁ s₂ : Vm} {q used : List UInt64} {x : UInt64}, Grown roots s₁ s₂ root q x used →
      ForUser s₁.mem root vaddr flags → ForUser s₂.mem root vaddr flags := by
    rintro s₁ s₂ q used x hg (huser | ⟨pt, hpt⟩)
    · exact .inl huser
    · exact .inr ⟨pt, hg.keeps root hroot _ hpath pt hpt⟩
  obtain ⟨pdp, s₁, used₁, heq₁, hg₁, -⟩ | ⟨heq₁, -, -, -⟩ :=
    walkOrCreate_spec flags h hroot (p := []) hpath rfl hfresh
  swap
  · rw [mapUserPage_of_noPdp hvaddr heq₁ paddr]
    exact hu
  have hpdp := hg₁.tables.nonzero root hroot _ _ pdp hpath₁ hg₁.table_eq
  have hu₁ := hu.walkOrCreate h hroot hpath₁ rfl hfresh (@hlevel s [] _ _ _ rfl rfl hflags) heq₁
  have hflags₁ := hkeep hg₁ hflags
  obtain ⟨pd, s₂, used₂, heq₂, hg₂, -⟩ | ⟨heq₂, -, -, -⟩ :=
    walkOrCreate_spec flags hg₁.tables hroot hpath hg₁.table_eq hg₁.fresh
  swap
  · rw [mapUserPage_of_noPd hvaddr heq₁ hpdp heq₂ paddr]
    exact hu₁
  have hpd := hg₂.tables.nonzero root hroot _ _ pd hpath₂ hg₂.table_eq
  have hu₂ := hu₁.walkOrCreate hg₁.tables hroot hpath₂ hg₁.table_eq hg₁.fresh
    (hlevel rfl hg₁.table_eq hflags₁) heq₂
  have hflags₂ := hkeep hg₂ hflags₁
  obtain ⟨pt, s₃, used₃, heq₃, hg₃, -⟩ | ⟨heq₃, -, -, -⟩ :=
    walkOrCreate_spec flags hg₂.tables hroot hpath hg₂.table_eq hg₂.fresh
  swap
  · rw [mapUserPage_of_noPt hvaddr heq₁ hpdp heq₂ hpd heq₃ paddr]
    exact hu₂
  have hpt := hg₃.tables.nonzero root hroot _ _ pt hpath₃ hg₃.table_eq
  have hu₃ := hu₂.walkOrCreate hg₂.tables hroot hpath₃ hg₂.table_eq hg₂.fresh
    (hlevel rfl hg₂.table_eq hflags₂) heq₃
  rw [mapUserPage_of_walks hvaddr heq₁ hpdp heq₂ hpd heq₃ hpt paddr]
  exact hu₃.store (hg₃.tables.storesEntry_write hroot hpath hg₃.table_eq (ptIndex_lt vaddr))
    hg₃.table_eq fun hnil => absurd hnil (path_ne_nil vaddr)

/-- **`map_user_page`** keeps the user bits. -/
theorem UserEntries.mapUserPage {vaddr flags : UInt64} {answers : List UInt64} (hu : UserEntries roots m)
    (h : Tables roots m) (hroot : root ∈ roots) (hsupply : Supply roots m answers)
    (hflags : ForUser m root vaddr flags) (paddr : UInt64) :
    UserEntries roots (mapUserPage ⟨m, answers⟩ root vaddr paddr flags).mem := by
  by_cases hvaddr : vaddr < userAddrLimit
  swap
  · unfold Paging.mapUserPage
    rw [if_pos (UInt64.not_lt.mp hvaddr)]
    exact hu
  obtain ⟨served, after, rfl, hserved, hafter⟩ := exists_failure answers
  obtain ⟨hfresh, -, -⟩ := hsupply.take hserved
  have hfirst := hu.mapUserPage_fresh (s := ⟨m, served⟩) h hroot hvaddr hfresh hflags paddr
  -- the answers after the first failure are not looked at
  obtain ⟨pt, s', used, hmap, -, -⟩ | ⟨s', hmap, hnil, -, -, hzero⟩ :=
    walk_spec (s := ⟨m, served⟩) h hroot hvaddr hfresh paddr flags
  · have hmap₀ := hmap []
    rw [List.append_nil] at hmap₀
    rw [hmap₀] at hfirst
    rw [hmap after]
    exact hfirst
  · rw [hmap] at hfirst
    obtain rfl | ⟨rest, rfl⟩ := hafter
    · rw [List.append_nil, hmap]
      exact hfirst
    · rw [hzero rest]
      exact hfirst

/-- **`unmap_user_page`** keeps the user bits. -/
theorem UserEntries.unmapUserPage {vaddr : UInt64} (hu : UserEntries roots m) (h : Tables roots m)
    (hroot : root ∈ roots) (hvaddr : vaddr < userAddrLimit) :
    UserEntries roots (unmapUserPage m root vaddr).2 := by
  by_cases hpresent : leaf m root vaddr &&& ptePresent = 0
  · rw [unmapUserPage_of_absent hpresent]
    exact hu
  · obtain ⟨pt, hpt⟩ := exists_table_of_present hpresent
    rw [leaf_of_table hpt] at hpresent
    rw [unmapUserPage_of_present hpt rfl hpresent]
    exact hu.store (h.storesEntry_write hroot (userPath_path hvaddr) hpt (ptIndex_lt vaddr)) hpt
      fun hnil => absurd hnil (path_ne_nil vaddr)

end UserEntries

end Keuos.Paging
