import Keuos.Paging.Equiv.Supply
import Keuos.Syscall.Memory

/-!
# New frames for a range of pages

The loop that `sys_brk` and `sys_mmap` share takes a frame for each page of a range and calls
`map_user_page`, which answers nothing: it does not tell when it has mapped nothing.  `Served` says that
this does not happen: each page that gets a frame may be mapped, and `pmm.alloc` then has the pages for
its tables.  It speaks of the state before the loop only.

`mapFresh_spec` says what the loop does in that case.  It maps the pages in order, all of them or up to
the first for which there is no frame, and every frame that it took is mapped or is a table.
-/

namespace Keuos.Syscall

open Process Paging

/-- The control block of the running process. -/
abbrev Machine.caller (s : Machine) : Pcb :=
  s.procs.table s.procs.currentPid

theorem caller_modify (p : Procs) (f : Pcb → Pcb) (vm : Vm) :
    Machine.caller ⟨p.modify p.currentPid f, vm⟩ = f (p.table p.currentPid) :=
  modify_self p p.currentPid f

/-- The `n` pages from an address on. -/
def pagesFrom : Nat → UInt64 → List UInt64
  | 0, _ => []
  | n + 1, cursor => cursor :: pagesFrom n (cursor + pageSize)

/-- Every page that gets a frame from `answers` is one that `fits`, and is followed by the answers for
the tables that it needs, when there are tables at the paths in `known`. -/
def Served (fits : UInt64 → Prop) : (List UInt64 → Bool) → List UInt64 → List UInt64 → Prop
  | _, [], _ => True
  | _, _ :: _, [] => True
  | known, v :: pages, a :: answers =>
    a = 0 ∨ (fits v ∧ wants known [] (path v) ≤ answers.length ∧
      (∀ b ∈ answers.take (wants known [] (path v)), b ≠ 0) ∧
      Served fits (reached known v) pages (answers.drop (wants known [] (path v))))

/-! ### Pages of a range -/

theorem toNat_add_pageSize {v : UInt64} (h : v.toNat + 4096 < 2 ^ 64) :
    (v + pageSize).toNat = v.toNat + 4096 := by
  rw [UInt64.toNat_add, show pageSize.toNat = 4096 from rfl, Nat.mod_eq_of_lt h]

theorem mem_pagesFrom {n : Nat} {cursor w : UInt64} (hwrap : cursor.toNat + 4096 * n < 2 ^ 64) :
    w ∈ pagesFrom n cursor ↔ ∃ j < n, w.toNat = cursor.toNat + 4096 * j := by
  induction n generalizing cursor with
  | zero => simp [pagesFrom]
  | succ n ih =>
    rw [Nat.mul_succ, ← Nat.add_assoc] at hwrap
    have hnext := toNat_add_pageSize (v := cursor) (by omega)
    rw [pagesFrom, List.mem_cons, ih (by omega), hnext]
    constructor
    · rintro (rfl | ⟨j, hj, hw⟩)
      · exact ⟨0, Nat.succ_pos n, by omega⟩
      · exact ⟨j + 1, by omega, by omega⟩
    · rintro ⟨j, hj, hw⟩
      cases j with
      | zero => exact .inl (UInt64.toNat_inj.mp (by omega))
      | succ j => exact .inr ⟨j, by omega, by omega⟩

theorem toNat_shiftRight_twelve (v : UInt64) : (v >>> 12).toNat = v.toNat / 4096 := by
  rw [UInt64.toNat_shiftRight, Nat.shiftRight_eq_div_pow]
  rfl

theorem not_samePage_of_mem {n : Nat} {cursor w : UInt64}
    (hwrap : cursor.toNat + 4096 * n + 4096 < 2 ^ 64) (hw : w ∈ pagesFrom n (cursor + pageSize)) :
    cursor >>> 12 ≠ w >>> 12 := by
  have hnext := toNat_add_pageSize (v := cursor) (by omega)
  obtain ⟨j, -, hj⟩ := (mem_pagesFrom (by omega)).mp hw
  intro heq
  have hdiv := congrArg UInt64.toNat heq
  rw [toNat_shiftRight_twelve, toNat_shiftRight_twelve] at hdiv
  omega

theorem toNat_pageEnd {addr : UInt64} (h : addr.toNat + 4095 < 2 ^ 64) :
    (pageEnd addr).toNat = (addr.toNat + 4095) / 4096 * 4096 := by
  unfold pageEnd
  rw [UInt64.toNat_and, show (0xFFFFFFFFFFFFF000 : UInt64).toNat = 2 ^ 64 - 2 ^ 12 from rfl,
    UInt64.toNat_add, show (0xFFF : UInt64).toNat = 4095 from rfl, Nat.mod_eq_of_lt h,
    and_highBits (by decide) h]
  rfl

theorem toNat_pageEnd_mod (addr : UInt64) : (pageEnd addr).toNat % 4096 = 0 := by
  unfold pageEnd
  rw [UInt64.toNat_and, show (0xFFFFFFFFFFFFF000 : UInt64).toNat = 2 ^ 64 - 2 ^ 12 from rfl,
    and_highBits (by decide) (addr + 0xFFF).toNat_lt]
  exact Nat.mul_mod_left _ _

theorem samePage_of_toNat {v w : UInt64} (h : v.toNat / 4096 = w.toNat / 4096) :
    v >>> 12 = w >>> 12 := by
  rw [← UInt64.toNat_inj, toNat_shiftRight_twelve, toNat_shiftRight_twelve]
  exact h

/-- The leaf entry of a page that has a frame. -/
def HasFrame (e : UInt64) : Prop :=
  ∃ a : UInt64, a ≠ 0 ∧ PageAligned a ∧ a.toNat < 2 ^ 52 ∧ e = a ||| userPageFlags

theorem hasFrame_present {a : UInt64} (ha : PageAligned a) (hsmall : a.toNat < 2 ^ 52) :
    (a ||| userPageFlags) &&& ptePresent ≠ 0 ∧ (a ||| userPageFlags) &&& addrMask = a := by
  have haddr := and_addrMask_of_aligned ha hsmall
  constructor
  · rw [and_or_distrib, addr_and_eq_zero haddr (by decide)]
    decide
  · rw [and_or_distrib, haddr, show userPageFlags &&& addrMask = 0 from by decide, UInt64.or_zero]

theorem HasFrame.translate {m : Mem} {root v : UInt64} (h : HasFrame (leaf m root v)) :
    translateUserAddr m root v ≠ 0 := by
  obtain ⟨a, hne, haligned, hsmall, heq⟩ := h
  obtain ⟨hpresent, haddr⟩ := hasFrame_present haligned hsmall
  rw [translateUserAddr_eq_leaf, heq, if_neg (by simpa using hpresent), haddr]
  intro hzero
  have hoff : (v &&& 0xFFF).toNat ≤ 4095 := by
    rw [UInt64.toNat_and]
    exact Nat.and_le_right
  have hnat := congrArg UInt64.toNat hzero
  rw [UInt64.toNat_add, UInt64.toNat_zero, Nat.mod_eq_of_lt (by omega)] at hnat
  exact hne (UInt64.toNat_inj.mp (by rw [UInt64.toNat_zero]; omega))

/-! ### The loop -/

/-- What the loop has done when it mapped `pages` and took the answers `used`. -/
structure Filled (roots : Set UInt64) (root : UInt64) (vm vm' : Vm) (pages used : List UInt64) :
    Prop where
  answers : vm.answers = used ++ vm'.answers
  tables : Tables roots vm'.mem
  supply : Supply roots vm'.mem vm'.answers
  mapped : ∀ w ∈ pages, ∃ a, FreshFrame roots vm.mem a ∧ leaf vm'.mem root w = a ||| userPageFlags
  others : ∀ r ∈ roots, ∀ v, v < userAddrLimit →
    (r = root → ∀ w ∈ pages, v >>> 12 ≠ w >>> 12) → leaf vm'.mem r v = leaf vm.mem r v
  keeps : ∀ r ∈ roots, ∀ q, UserPath q → ∀ x, table vm.mem r q = some x → table vm'.mem r q = some x
  adds : ∀ r ∈ roots, ∀ q, UserPath q → ∀ x, table vm'.mem r q = some x →
    table vm.mem r q = some x ∨ x ∈ used
  placed : ∀ a ∈ used, a ≠ 0 → (∃ w ∈ pages, leaf vm'.mem root w = a ||| userPageFlags) ∨
    ∃ q, UserPath q ∧ q ≠ [] ∧ table vm'.mem root q = some a
  only : OnlyTables vm.mem vm'.mem root

section Loop

variable {roots : Set UInt64} {root : UInt64} {vm : Vm}

theorem Filled.nil (h : Tables roots vm.mem) {used answers : List UInt64}
    (hanswers : vm.answers = used ++ answers) (hused : ∀ a ∈ used, a = 0)
    (hs : Supply roots vm.mem answers) : Filled roots root vm ⟨vm.mem, answers⟩ [] used := by
  refine ⟨hanswers, h, hs, ?_, fun _ _ _ _ _ => rfl, fun _ _ _ _ _ hx => hx,
    fun _ _ _ _ _ hx => .inl hx, ?_, fun _ _ => rfl⟩
  · intro w hw
    exact absurd hw (by simp)
  · intro a ha hne
    exact absurd (hused a ha) hne

theorem Filled.cons {v a : UInt64} {used rest used' pages : List UInt64} {m' : Mem} {vm' : Vm}
    (hroot : root ∈ roots) (hv : v < userAddrLimit) (ha : FreshFrame roots vm.mem a)
    (hanswers : vm.answers = a :: (used ++ rest))
    (hpage : PageMapped roots vm.mem m' root v (a ||| userPageFlags) used)
    (hrest : Filled roots root ⟨m', rest⟩ vm' pages used')
    (hfirst : ∀ w ∈ pages, v >>> 12 ≠ w >>> 12) :
    Filled roots root vm vm' (v :: pages) (a :: (used ++ used')) := by
  have hself : leaf vm'.mem root v = a ||| userPageFlags := by
    rw [hrest.others root hroot v hv fun _ => hfirst, hpage.leaves root hroot v hv,
      if_pos ⟨rfl, rfl⟩]
  refine ⟨?_, hrest.tables, hrest.supply, ?_, ?_, ?_, ?_, ?_, ?_⟩
  · rw [hanswers, show rest = used' ++ vm'.answers from hrest.answers]
    simp
  · intro w hw
    obtain rfl | hw := List.mem_cons.mp hw
    · exact ⟨a, ha, hself⟩
    · obtain ⟨b, hb, hleaf⟩ := hrest.mapped w hw
      exact ⟨b, hb.congr fun r hr q hq hx => hpage.keeps r hr q hq b hx, hleaf⟩
  · intro r hr x hx hne
    rw [hrest.others r hr x hx fun hrr w hw => hne hrr w (List.mem_cons_of_mem _ hw),
      hpage.leaves r hr x hx]
    refine if_neg ?_
    rintro ⟨hrr, hsame⟩
    exact hne hrr v (List.mem_cons_self ..) hsame
  · intro r hr q hq x hx
    exact hrest.keeps r hr q hq x (hpage.keeps r hr q hq x hx)
  · intro r hr q hq x hx
    obtain hmid | hused := hrest.adds r hr q hq x hx
    · obtain hold | hused := hpage.adds r hr q hq x hmid
      · exact .inl hold
      · exact .inr (List.mem_cons_of_mem _ (List.mem_append_left _ hused))
    · exact .inr (List.mem_cons_of_mem _ (List.mem_append_right _ hused))
  · intro b hb hne
    obtain rfl | hb := List.mem_cons.mp hb
    · exact .inl ⟨v, List.mem_cons_self .., hself⟩
    · obtain hb | hb := List.mem_append.mp hb
      · obtain ⟨q, hq, hqne, hx⟩ := hpage.placed b hb
        exact .inr ⟨q, hq, hqne, hrest.keeps root hroot q hq b hx⟩
      · obtain ⟨w, hw, hleaf⟩ | htable := hrest.placed b hb hne
        · exact .inl ⟨w, List.mem_cons_of_mem _ hw, hleaf⟩
        · exact .inr htable
  · exact hpage.only.trans hrest.only (hrest.keeps root hroot)

theorem served_page {fits : UInt64 → Prop} (hfits : ∀ v, fits v → v < userAddrLimit)
    (hroot : root ∈ roots) {m : Mem} {v a : UInt64} {pages answers : List UInt64}
    {known : List UInt64 → Bool} (h : Tables roots m) (hs : Supply roots m (a :: answers)) (ha : a ≠ 0)
    (hknown : ∀ q, UserPath q → known q = tabled m root q)
    (hserved : Served fits known (v :: pages) (a :: answers)) :
    ∃ used rest m', answers = used ++ rest ∧
      mapUserPage ⟨m, answers⟩ root v a userPageFlags = ⟨m', rest⟩ ∧
      PageMapped roots m m' root v (a ||| userPageFlags) used ∧ Supply roots m' rest ∧ fits v ∧
      Served fits (reached known v) pages rest ∧
      ∀ q, UserPath q → reached known v q = tabled m' root q := by
  obtain ⟨hfit, hlen, hne, hserved⟩ := hserved.resolve_left ha
  have hv := hfits v hfit
  have hwants : wants known [] (path v) = wants (tabled m root) [] (path v) :=
    wants_congr hknown (userPath_path hv)
  rw [hwants] at hlen hne hserved
  generalize hk : wants (tabled m root) [] (path v) = count at hlen hne hserved
  have hsplit : answers = answers.take count ++ answers.drop count :=
    (List.take_append_drop count answers).symm
  have hsupply : Supply roots m (answers.take count ++ answers.drop count) := by
    rw [← hsplit]
    exact hs.tail
  obtain ⟨hfresh, hrest, hdisjoint⟩ := hsupply.take hne
  obtain ⟨m', hmap, hpage⟩ := mapUserPage_served h hroot hv hfresh
    ((List.length_take_of_le hlen).trans hk.symm) (answers.drop count) a userPageFlags
  rw [← hsplit] at hmap
  refine ⟨_, _, m', hsplit, hmap, hpage, hpage.supply hrest hdisjoint, hfit, hserved, ?_⟩
  intro q hq
  rw [hpage.tabled_eq q hq, reached, hknown q hq, reached]

/-- **The loop**, when every page that gets a frame can be mapped. -/
theorem mapFreshFrom_spec {fits : UInt64 → Prop} (hfits : ∀ v, fits v → v < userAddrLimit)
    (hroot : root ∈ roots) {stop : UInt64} {n : Nat} {cursor : UInt64}
    (hstop : cursor.toNat + 4096 * n = stop.toNat) {known : List UInt64 → Bool}
    (h : Tables roots vm.mem) (hs : Supply roots vm.mem vm.answers)
    (hknown : ∀ q, UserPath q → known q = tabled vm.mem root q)
    (hserved : Served fits known (pagesFrom n cursor) vm.answers) :
    ∃ ok vm' k used, mapFreshFrom root stop n cursor vm = (ok, vm') ∧ k ≤ n ∧ (ok = true → k = n) ∧
      (∀ w ∈ pagesFrom k cursor, fits w) ∧ Filled roots root vm vm' (pagesFrom k cursor) used := by
  have hbound := stop.toNat_lt
  -- The induction is over the pages that remain, and `known` grows with the tables of each page.
  induction n generalizing cursor vm known with
  | zero =>
    refine ⟨true, vm, 0, [], rfl, Nat.le_refl 0, fun _ => rfl, ?_, Filled.nil h rfl (by simp) hs⟩
    intro w hw
    exact absurd hw (by simp [pagesFrom])
  | succ n ih =>
    obtain ⟨m, answers⟩ := vm
    have hlt : cursor < stop := by
      rw [UInt64.lt_iff_toNat_lt]
      omega
    have hnext := toNat_add_pageSize (v := cursor) (by omega)
    have hnone : ∀ w ∈ pagesFrom 0 cursor, fits w := by
      intro w hw
      exact absurd hw (by simp [pagesFrom])
    rw [mapFreshFrom, if_pos hlt]
    cases answers with
    | nil =>
      exact ⟨false, ⟨m, []⟩, 0, [], rfl, Nat.zero_le _, by simp, hnone,
        Filled.nil h rfl (by simp) hs⟩
    | cons a answers =>
      -- No frame for this page: the loop ends with what is mapped so far.
      by_cases ha : a = 0
      · refine ⟨false, ⟨m, answers⟩, 0, [a], ?_, Nat.zero_le _, by simp, hnone,
          Filled.nil h rfl (by simpa using ha) hs.tail⟩
        dsimp only [Vm.alloc]
        rw [if_pos (beq_iff_eq.mpr ha)]
      · obtain ⟨used, rest, m', hsplit, hmap, hpage, hrest, hfit, hserved, hknown'⟩ :=
          served_page hfits hroot h hs ha hknown hserved
        obtain ⟨ok, vm', k, used', hloop, hkn, hall, hfitted, hfilled⟩ :=
          ih (show (cursor + pageSize).toNat + 4096 * n = stop.toNat by omega)
            (show Tables roots (⟨m', rest⟩ : Vm).mem from hpage.tables) hrest hknown' hserved
        refine ⟨ok, vm', k + 1, a :: (used ++ used'), ?_, by omega, fun hok => by rw [hall hok], ?_, ?_⟩
        · dsimp only [Vm.alloc]
          rw [if_neg (by simpa using ha), hmap]
          exact hloop
        · intro w hw
          obtain rfl | hw := List.mem_cons.mp hw
          · exact hfit
          · exact hfitted w hw
        · refine Filled.cons hroot (hfits cursor hfit) (hs.frame (List.mem_cons_self ..) ha) ?_ hpage
            hfilled ?_
          · rw [← hsplit]
          · intro w hw
            exact not_samePage_of_mem (n := k) (by omega) hw

theorem Filled.covers {vm' : Vm} {start v : UInt64} {k : Nat} {used : List UInt64}
    (hfilled : Filled roots root vm vm' (pagesFrom k start) used)
    (hpages : ∀ w ∈ pagesFrom k start, w < userAddrLimit) (haligned : PageAligned start)
    (hbound : start.toNat + 4096 * k < 2 ^ 64) (hv : start.toNat ≤ v.toNat)
    (hlt : v.toNat < start.toNat + 4096 * k) :
    v < userAddrLimit ∧ HasFrame (leaf vm'.mem root v) := by
  unfold PageAligned at haligned
  -- the page that `v` lies in
  obtain ⟨w, hw⟩ : ∃ w : UInt64, w.toNat = v.toNat / 4096 * 4096 := by
    refine ⟨UInt64.ofNat (v.toNat / 4096 * 4096), ?_⟩
    rw [UInt64.toNat_ofNat', Nat.mod_eq_of_lt (by have := v.toNat_lt; omega)]
  have hmem : w ∈ pagesFrom k start := by
    refine (mem_pagesFrom hbound).mpr ⟨(w.toNat - start.toNat) / 4096, ?_, ?_⟩
    · omega
    · omega
  have hsame : v >>> 12 = w >>> 12 := samePage_of_toNat (by omega)
  obtain ⟨a, ha, hleaf⟩ := hfilled.mapped w hmem
  refine ⟨lt_limit_of_samePage (hpages w hmem) hsame, a, ha.ne_zero, ha.aligned, ha.small, ?_⟩
  rw [leaf_of_samePage _ _ hsame]
  exact hleaf

end Loop

end Keuos.Syscall
