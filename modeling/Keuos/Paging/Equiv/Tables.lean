import Keuos.Lib.Bits
import Keuos.Lib.Forest
import Keuos.Paging.Defs

/-!
# Page tables as a forest

The tables of the user half form trees: `follow m` is the link from a table to the next level, and the
table at the end of a path of indices is `table m root q`.  `Tables roots m` says that the tables of
the address spaces `roots` are disjoint and hold no huge pages.  `leaf m root vaddr` is the leaf entry
of a page, and the read-only walks of the kernel are functions of it.

Three stores change the tables: an upgrade of the permissions of an entry, a new table, and a store of
a leaf entry.  Each has one lemma that says what it does to the tables and to the leaf entries of every
address space.
-/

namespace Keuos.Paging

open Pmm (physToVirt)

theorem handedOut_eq {before after : Vm} {taken : List UInt64}
    (h : before.answers = taken ++ after.answers) :
    handedOut before after = taken.filter (· != 0) := by
  unfold handedOut
  rw [h, List.length_append, Nat.add_sub_cancel, List.take_left]

/-! ### Entries -/

/-- The address of a page. -/
def PageAligned (p : UInt64) : Prop := p.toNat % 4096 = 0

theorem toNat_and_addrMask (e : UInt64) :
    (e &&& addrMask).toNat = e.toNat % 2 ^ 52 / 2 ^ 12 * 2 ^ 12 := by
  rw [UInt64.toNat_and, show addrMask.toNat = 2 ^ 52 - 2 ^ 12 from by decide, and_midBits (by decide)]

theorem pageAligned_and_addrMask (e : UInt64) : PageAligned (e &&& addrMask) := by
  unfold PageAligned
  rw [toNat_and_addrMask]
  omega

theorem physToVirt_inj {p q : UInt64} (h : physToVirt p = physToVirt q) : p = q := by
  unfold physToVirt at h
  grind

theorem PageAligned.physToVirt {p : UInt64} (h : PageAligned p) : (physToVirt p).toNat % 4096 = 0 := by
  unfold PageAligned at h
  unfold Pmm.physToVirt Pmm.kernelBase
  rw [UInt64.toNat_add, show (0xFFFFFFFF80000000 : UInt64).toNat = 0xFFFFFFFF80000000 from rfl]
  omega

section EntryAddr

variable {t t' i i' : UInt64}

theorem entryAddr_sub (hi : i.toNat < 512) :
    (entryAddr t i - physToVirt t).toNat = i.toNat * 8 := by
  unfold entryAddr
  have hsub : physToVirt t + i * 8 - physToVirt t = i * 8 := by grind
  rw [hsub, UInt64.toNat_mul, show (8 : UInt64).toNat = 8 from rfl, Nat.mod_eq_of_lt (by omega)]

theorem inBlock_entry (hi : i.toNat < 512) {x : UInt64} (hx : InBlock (entryAddr t i) 8 x) :
    InBlock (physToVirt t) 4096 x := by
  unfold InBlock at hx ⊢
  have hadd : x - physToVirt t = (x - entryAddr t i) + (entryAddr t i - physToVirt t) := by grind
  rw [hadd, UInt64.toNat_add, entryAddr_sub hi]
  omega

theorem entryAddr_aligned (ht : PageAligned t) (i : UInt64) :
    (entryAddr t i).toNat % 8 = 0 := by
  have hpage := ht.physToVirt
  unfold entryAddr
  rw [UInt64.toNat_add, UInt64.toNat_mul, show (8 : UInt64).toNat = 8 from rfl]
  omega

theorem pages_disjoint (ht : PageAligned t) (ht' : PageAligned t') (hne : t ≠ t') :
    BlocksDisjoint (physToVirt t) 4096 (physToVirt t') 4096 :=
  disjoint_of_aligned (by decide) ht.physToVirt ht'.physToVirt fun h => hne (physToVirt_inj h)

theorem entryAddr_inj (ht : PageAligned t) (ht' : PageAligned t') (hi : i.toNat < 512)
    (hi' : i'.toNat < 512) (h : entryAddr t i = entryAddr t' i') : t = t' ∧ i = i' := by
  have hself : ∀ a : UInt64, InBlock a 8 a := by
    intro a
    unfold InBlock
    rw [UInt64.sub_self]
    decide
  have hin := inBlock_entry (t := t) hi (hself (entryAddr t i))
  have hin' := inBlock_entry (t := t') hi' (hself (entryAddr t' i'))
  rw [← h] at hin'
  have htt : t = t' := by
    by_contra hne
    exact pages_disjoint ht ht' hne _ hin hin'
  subst htt
  refine ⟨rfl, ?_⟩
  have hoff : i.toNat * 8 = i'.toNat * 8 := by
    rw [← entryAddr_sub (t := t) hi, ← entryAddr_sub (t := t) hi', h]
  rw [← UInt64.toNat_inj]
  omega

end EntryAddr

/-! ### Tables -/

/-- The table one level below an entry. -/
def follow (m : Mem) (t i : UInt64) : Option UInt64 :=
  let e := m.read64 (entryAddr t i)
  if e &&& ptePresent == 0 then none else some (e &&& addrMask)

/-- The table at the end of a path of indices. -/
def table (m : Mem) (root : UInt64) (q : List UInt64) : Option UInt64 :=
  Forest.walk (follow m) root q

/-- The paths to tables of the user half. -/
structure UserPath (q : List UInt64) : Prop where
  length_le : q.length ≤ 3
  index_lt : ∀ i ∈ q, i.toNat < 512
  user : ∀ i, q.head? = some i → i.toNat < 256

theorem UserPath.init {q : List UInt64} {j : UInt64} (h : UserPath (q ++ [j])) : UserPath q := by
  refine ⟨?_, ?_, ?_⟩
  · have := h.length_le
    rw [List.length_append] at this
    omega
  · intro i hi
    exact h.index_lt i (List.mem_append_left _ hi)
  · intro i hi
    refine h.user i ?_
    rw [List.head?_append, hi]
    rfl

theorem userPath_of_append {q rest : List UInt64} (h : UserPath (q ++ rest)) : UserPath q := by
  induction rest using List.reverseRecOn with
  | nil =>
    rw [List.append_nil] at h
    exact h
  | append_singleton rest j ih =>
    rw [← List.append_assoc] at h
    exact ih h.init

theorem UserPath.last_lt {q : List UInt64} {j : UInt64} (h : UserPath (q ++ [j])) :
    j.toNat < 512 :=
  h.index_lt j (by simp)

/-- The tables of the address spaces `roots` are disjoint trees without huge pages. -/
structure Trees (roots : Set UInt64) (m : Mem) : Prop where
  aligned : ∀ r ∈ roots, PageAligned r
  separated : Forest.Separated (follow m) UserPath roots
  small : ∀ r ∈ roots, ∀ q j x, UserPath (q ++ [j]) → table m r q = some x →
    m.read64 (entryAddr x j) &&& ptePresent ≠ 0 → m.read64 (entryAddr x j) &&& ptePs = 0

/-- No entry leads to page 0, which the kernel's walks take for a failure. -/
def NoPageZero (roots : Set UInt64) (m : Mem) : Prop :=
  ∀ r ∈ roots, ∀ q j x, UserPath (q ++ [j]) → table m r (q ++ [j]) = some x → x ≠ 0

structure Tables (roots : Set UInt64) (m : Mem) : Prop extends Trees roots m where
  nonzero : NoPageZero roots m

section Tables

variable {roots : Set UInt64} {m : Mem}

theorem follow_eq_some {t i x : UInt64} :
    follow m t i = some x ↔ m.read64 (entryAddr t i) &&& ptePresent ≠ 0 ∧
      x = m.read64 (entryAddr t i) &&& addrMask := by
  unfold follow
  dsimp only
  generalize m.read64 (entryAddr t i) = e
  by_cases he : e &&& ptePresent = 0
  · rw [if_pos (beq_iff_eq.mpr he)]
    exact ⟨fun h => absurd h (by simp), fun h => absurd he h.1⟩
  · rw [if_neg (by simpa using he)]
    exact ⟨fun h => ⟨he, (Option.some.inj h).symm⟩, fun h => by rw [h.2]⟩

theorem follow_eq_none {t i : UInt64} :
    follow m t i = none ↔ m.read64 (entryAddr t i) &&& ptePresent = 0 := by
  unfold follow
  dsimp only
  generalize m.read64 (entryAddr t i) = e
  by_cases he : e &&& ptePresent = 0
  · simp [he]
  · simp [he]

theorem follow_congr {m' : Mem} {t i : UInt64}
    (h : m'.read64 (entryAddr t i) = m.read64 (entryAddr t i)) : follow m' t i = follow m t i := by
  unfold follow
  rw [h]

theorem Tables.pageAligned (h : Tables roots m) {r x : UInt64} (hr : r ∈ roots) {q : List UInt64}
    (hx : table m r q = some x) : PageAligned x := by
  induction q using List.reverseRecOn with
  | nil =>
    obtain rfl : r = x := Option.some.inj hx
    exact h.aligned r hr
  | append_singleton q j _ =>
    obtain ⟨y, -, hyx⟩ := (Forest.walk_append_singleton_eq_some _).mp hx
    obtain ⟨-, rfl⟩ := follow_eq_some.mp hyx
    exact pageAligned_and_addrMask _

/-- **A store to an entry of a table** changes no other entry of a table. -/
theorem Tables.read64_write (h : Tables roots m) {root t i e : UInt64} {p : List UInt64}
    (hroot : root ∈ roots) (hp : UserPath p) (ht : table m root p = some t) (hi : i.toNat < 512)
    {r x j : UInt64} {q : List UInt64} (hr : r ∈ roots) (hq : UserPath q)
    (hx : table m r q = some x) (hj : j.toNat < 512) (hne : ¬ (r = root ∧ q = p ∧ j = i)) (m' : Mem) :
    (m'.write64 (entryAddr t i) e).read64 (entryAddr x j) = m'.read64 (entryAddr x j) := by
  have htp := h.pageAligned hroot ht
  have hxp := h.pageAligned hr hx
  refine Mem.read64_write64_of_ne (entryAddr_aligned htp i) (entryAddr_aligned hxp j) ?_
  intro heq
  obtain ⟨rfl, rfl⟩ := entryAddr_inj hxp htp hj hi heq
  obtain ⟨rfl, rfl⟩ := h.separated r hr root hroot q p hq hp x hx ht
  exact hne ⟨rfl, rfl, rfl⟩

theorem Tables.subset (h : Tables roots m) {roots' : Set UInt64} (hsub : ∀ r ∈ roots', r ∈ roots) :
    Tables roots' m where
  aligned := fun r hr => h.aligned r (hsub r hr)
  separated := fun r hr r' hr' => h.separated r (hsub r hr) r' (hsub r' hr')
  small := fun r hr => h.small r (hsub r hr)
  nonzero := fun r hr => h.nonzero r (hsub r hr)

theorem table_congr {m' : Mem} {r : UInt64}
    (hsame : ∀ q j x, UserPath (q ++ [j]) → table m r q = some x → follow m' x j = follow m x j)
    {q : List UInt64} (hq : UserPath q) : table m' r q = table m r q :=
  Forest.walk_congr (fun _ _ => UserPath.init) hsame hq

end Tables

/-! ### Leaf entries -/

/-- The indices of the tables above a page. -/
def path (vaddr : UInt64) : List UInt64 :=
  [pml4Index vaddr, pdpIndex vaddr, pdIndex vaddr]

theorem path_length (vaddr : UInt64) : (path vaddr).length = 3 := rfl

/-- The leaf entry of a page, 0 if it has none. -/
def leaf (m : Mem) (root vaddr : UInt64) : UInt64 :=
  ((table m root (path vaddr)).map fun t => m.read64 (entryAddr t (ptIndex vaddr))).getD 0

theorem leaf_of_table {m : Mem} {root vaddr t : UInt64} (h : table m root (path vaddr) = some t) :
    leaf m root vaddr = m.read64 (entryAddr t (ptIndex vaddr)) := by
  rw [leaf, h, Option.map_some, Option.getD_some]

theorem leaf_of_none {m : Mem} {root vaddr : UInt64} (h : table m root (path vaddr) = none) :
    leaf m root vaddr = 0 := by
  rw [leaf, h, Option.map_none, Option.getD_none]

theorem exists_table_of_present {m : Mem} {root vaddr : UInt64}
    (h : leaf m root vaddr &&& ptePresent ≠ 0) : ∃ t, table m root (path vaddr) = some t := by
  cases hx : table m root (path vaddr) with
  | some t => exact ⟨t, rfl⟩
  | none =>
    rw [leaf_of_none hx, UInt64.zero_and] at h
    exact absurd rfl h

theorem toNat_and_indexMask (x : UInt64) : (x &&& indexMask).toNat = x.toNat % 512 := by
  rw [UInt64.toNat_and, show indexMask.toNat = 2 ^ 9 - 1 from rfl, Nat.and_two_pow_sub_one_eq_mod]

theorem toNat_pml4Index (v : UInt64) : (pml4Index v).toNat = v.toNat / 2 ^ 39 % 512 := by
  unfold pml4Index
  rw [toNat_and_indexMask, UInt64.toNat_shiftRight, Nat.shiftRight_eq_div_pow]
  rfl

theorem toNat_pdpIndex (v : UInt64) : (pdpIndex v).toNat = v.toNat / 2 ^ 30 % 512 := by
  unfold pdpIndex
  rw [toNat_and_indexMask, UInt64.toNat_shiftRight, Nat.shiftRight_eq_div_pow]
  rfl

theorem toNat_pdIndex (v : UInt64) : (pdIndex v).toNat = v.toNat / 2 ^ 21 % 512 := by
  unfold pdIndex
  rw [toNat_and_indexMask, UInt64.toNat_shiftRight, Nat.shiftRight_eq_div_pow]
  rfl

theorem toNat_ptIndex (v : UInt64) : (ptIndex v).toNat = v.toNat / 2 ^ 12 % 512 := by
  unfold ptIndex
  rw [toNat_and_indexMask, UInt64.toNat_shiftRight, Nat.shiftRight_eq_div_pow]
  rfl

theorem ptIndex_lt (v : UInt64) : (ptIndex v).toNat < 512 := by
  rw [toNat_ptIndex]
  exact Nat.mod_lt _ (by decide)

theorem toNat_lt_of_user {v : UInt64} (hv : v < userAddrLimit) : v.toNat < 2 ^ 47 := by
  rw [UInt64.lt_iff_toNat_lt] at hv
  exact hv

theorem lt_of_mem_path {v i : UInt64} (hi : i ∈ path v) : i.toNat < 512 := by
  simp only [path, List.mem_cons, List.not_mem_nil, or_false] at hi
  obtain rfl | rfl | rfl := hi
  · rw [toNat_pml4Index]
    exact Nat.mod_lt _ (by decide)
  · rw [toNat_pdpIndex]
    exact Nat.mod_lt _ (by decide)
  · rw [toNat_pdIndex]
    exact Nat.mod_lt _ (by decide)

theorem userPath_path {v : UInt64} (hv : v < userAddrLimit) : UserPath (path v) := by
  have hlt := toNat_lt_of_user hv
  refine ⟨Nat.le_refl 3, fun i hi => lt_of_mem_path hi, ?_⟩
  · intro i hi
    obtain rfl : pml4Index v = i := Option.some.inj hi
    rw [toNat_pml4Index]
    omega

theorem samePage_of_indices {v w : UInt64} (hv : v < userAddrLimit) (hw : w < userAddrLimit)
    (hpath : path v = path w) (hpt : ptIndex v = ptIndex w) : v >>> 12 = w >>> 12 := by
  have hlt := toNat_lt_of_user hv
  have hlt' := toNat_lt_of_user hw
  simp only [path, List.cons.injEq, and_true] at hpath
  obtain ⟨h₁, h₂, h₃⟩ := hpath
  have k₁ := congrArg UInt64.toNat h₁
  have k₂ := congrArg UInt64.toNat h₂
  have k₃ := congrArg UInt64.toNat h₃
  have k₄ := congrArg UInt64.toNat hpt
  rw [toNat_pml4Index, toNat_pml4Index] at k₁
  rw [toNat_pdpIndex, toNat_pdpIndex] at k₂
  rw [toNat_pdIndex, toNat_pdIndex] at k₃
  rw [toNat_ptIndex, toNat_ptIndex] at k₄
  rw [← UInt64.toNat_inj, UInt64.toNat_shiftRight, UInt64.toNat_shiftRight,
    Nat.shiftRight_eq_div_pow, Nat.shiftRight_eq_div_pow, show (12 : UInt64).toNat % 64 = 12 from rfl]
  omega

theorem indices_of_samePage {v w : UInt64} (h : v >>> 12 = w >>> 12) :
    path v = path w ∧ ptIndex v = ptIndex w := by
  have hdiv := congrArg UInt64.toNat h
  rw [UInt64.toNat_shiftRight, UInt64.toNat_shiftRight, Nat.shiftRight_eq_div_pow,
    Nat.shiftRight_eq_div_pow, show (12 : UInt64).toNat % 64 = 12 from rfl] at hdiv
  have h₁ : pml4Index v = pml4Index w := by
    rw [← UInt64.toNat_inj, toNat_pml4Index, toNat_pml4Index]
    omega
  have h₂ : pdpIndex v = pdpIndex w := by
    rw [← UInt64.toNat_inj, toNat_pdpIndex, toNat_pdpIndex]
    omega
  have h₃ : pdIndex v = pdIndex w := by
    rw [← UInt64.toNat_inj, toNat_pdIndex, toNat_pdIndex]
    omega
  have h₄ : ptIndex v = ptIndex w := by
    rw [← UInt64.toNat_inj, toNat_ptIndex, toNat_ptIndex]
    omega
  refine ⟨?_, h₄⟩
  unfold path
  rw [h₁, h₂, h₃]

theorem leaf_of_samePage (m : Mem) (r : UInt64) {v w : UInt64} (h : v >>> 12 = w >>> 12) :
    leaf m r v = leaf m r w := by
  obtain ⟨hpath, hindex⟩ := indices_of_samePage h
  unfold leaf
  rw [hpath, hindex]

/-! ### The read-only walks -/

theorem follow_of_absent {m : Mem} {t i : UInt64}
    (h : (m.read64 (entryAddr t i) &&& ptePresent == 0) = true) : follow m t i = none :=
  follow_eq_none.mpr (beq_iff_eq.mp h)

theorem follow_of_present {m : Mem} {t i : UInt64}
    (h : ¬ (m.read64 (entryAddr t i) &&& ptePresent == 0) = true) :
    follow m t i = some (m.read64 (entryAddr t i) &&& addrMask) :=
  follow_eq_some.mpr ⟨fun heq => h (beq_iff_eq.mpr heq), rfl⟩

theorem table_path (m : Mem) (root a b c : UInt64) :
    table m root [a, b, c] =
      (follow m root a).bind fun x => (follow m x b).bind fun y => follow m y c := by
  unfold table Forest.walk
  simp only [List.foldlM_cons, List.foldlM_nil, Option.bind_eq_bind, Option.pure_def,
    Option.bind_fun_some]

theorem getUserPte_eq_leaf (m : Mem) (root v : UInt64) : getUserPte m root v = leaf m root v := by
  unfold getUserPte leaf path
  rw [table_path]
  dsimp only
  split
  · next h => rw [follow_of_absent h, Option.bind_none, Option.map_none, Option.getD_none]
  · next h =>
    rw [follow_of_present h, Option.bind_some]
    split
    · next h => rw [follow_of_absent h, Option.bind_none, Option.map_none, Option.getD_none]
    · next h =>
      rw [follow_of_present h, Option.bind_some]
      split
      · next h => rw [follow_of_absent h, Option.map_none, Option.getD_none]
      · next h => rw [follow_of_present h, Option.map_some, Option.getD_some]

theorem translateUserAddr_eq_leaf (m : Mem) (root v : UInt64) :
    translateUserAddr m root v =
      if leaf m root v &&& ptePresent == 0 then 0
      else (leaf m root v &&& addrMask) + (v &&& 0xFFF) := by
  rw [← getUserPte_eq_leaf]
  unfold translateUserAddr getUserPte
  dsimp only
  split
  · rfl
  · split
    · rfl
    · split
      · rfl
      · rfl

/-! ### Stores -/

section Stores

variable {roots : Set UInt64} {m m' : Mem} {root t i e : UInt64} {p : List UInt64}

/-- The memory `m'` has the entry `e` with index `i` in the table at the end of `p`, and otherwise the
entries that the tables have in `m`. -/
structure StoresEntry (roots : Set UInt64) (m m' : Mem) (root t i e : UInt64) (p : List UInt64) :
    Prop where
  self : m'.read64 (entryAddr t i) = e
  other : ∀ r ∈ roots, ∀ q x, UserPath q → table m r q = some x → ∀ j : UInt64, j.toNat < 512 →
    ¬ (r = root ∧ q = p ∧ j = i) → m'.read64 (entryAddr x j) = m.read64 (entryAddr x j)

theorem Tables.storesEntry_write (h : Tables roots m) (hroot : root ∈ roots) (hp : UserPath p)
    (ht : table m root p = some t) (hi : i.toNat < 512) :
    StoresEntry roots m (m.write64 (entryAddr t i) e) root t i e p :=
  ⟨Mem.read64_write64_self .., fun _ hr _ _ hq hx _ hj hne =>
    h.read64_write hroot hp ht hi hr hq hx hj hne m⟩

theorem StoresEntry.leaf_of_short (hs : StoresEntry roots m m' root t i e p)
    (hp : UserPath (p ++ [i])) {r v x : UInt64} (hr : r ∈ roots) (hv : v < userAddrLimit)
    (hx : table m r (path v) = some x) (hx' : table m' r (path v) = some x) :
    leaf m' r v = leaf m r v := by
  rw [leaf_of_table hx, leaf_of_table hx']
  refine hs.other r hr _ x (userPath_path hv) hx _ (ptIndex_lt v) ?_
  -- the table of a leaf entry is at the end of a longer path
  rintro ⟨-, hlen, -⟩
  have hle := hp.length_le
  rw [← hlen, List.length_append, path_length, List.length_singleton] at hle
  omega

theorem Tables.of_same (h : Tables roots m)
    (htables : ∀ r ∈ roots, ∀ q, UserPath q → table m' r q = table m r q)
    (hsmall : ∀ r ∈ roots, ∀ q j x, UserPath (q ++ [j]) → table m r q = some x →
      m'.read64 (entryAddr x j) &&& ptePresent ≠ 0 → m'.read64 (entryAddr x j) &&& ptePs = 0) :
    Tables roots m' := by
  refine ⟨⟨h.aligned, ?_, ?_⟩, ?_⟩
  · intro r hr r' hr' q q' hq hq' x hx hx'
    refine h.separated r hr r' hr' q q' hq hq' x ?_ ?_
    · exact (htables r hr q hq).symm.trans hx
    · exact (htables r' hr' q' hq').symm.trans hx'
  · intro r hr q j x hqj hx
    exact hsmall r hr q j x hqj ((htables r hr q hqj.init).symm.trans hx)
  · intro r hr q j x hqj hx
    exact h.nonzero r hr q j x hqj ((htables r hr _ hqj).symm.trans hx)

/-- **Upgrading the permissions of an entry** that leads to a table changes no table. -/
theorem Tables.upgrade (h : Tables roots m) (hroot : root ∈ roots) (hp : UserPath (p ++ [i]))
    (ht : table m root p = some t) (hs : StoresEntry roots m m' root t i e p)
    (hpresent : e &&& ptePresent = m.read64 (entryAddr t i) &&& ptePresent)
    (haddr : e &&& addrMask = m.read64 (entryAddr t i) &&& addrMask)
    (hps : e &&& ptePs = m.read64 (entryAddr t i) &&& ptePs) :
    Tables roots m' ∧ (∀ r ∈ roots, ∀ q, UserPath q → table m' r q = table m r q) ∧
      ∀ r ∈ roots, ∀ v, v < userAddrLimit → leaf m' r v = leaf m r v := by
  have hfollow : ∀ r ∈ roots, ∀ q j x, UserPath (q ++ [j]) → table m r q = some x →
      follow m' x j = follow m x j := by
    intro r hr q j x hqj hx
    by_cases hedge : r = root ∧ q = p ∧ j = i
    · obtain ⟨rfl, rfl, rfl⟩ := hedge
      obtain rfl : t = x := Option.some.inj (ht.symm.trans hx)
      unfold follow
      dsimp only
      rw [hs.self, hpresent, haddr]
    · exact follow_congr (hs.other r hr q x hqj.init hx j hqj.last_lt hedge)
  have htables : ∀ r ∈ roots, ∀ q, UserPath q → table m' r q = table m r q :=
    fun r hr q hq => table_congr (hfollow r hr) hq
  refine ⟨h.of_same htables ?_, htables, ?_⟩
  · intro r hr q j x hqj hx
    by_cases hedge : r = root ∧ q = p ∧ j = i
    · obtain ⟨rfl, rfl, rfl⟩ := hedge
      obtain rfl : t = x := Option.some.inj (ht.symm.trans hx)
      rw [hs.self, hpresent, hps]
      exact h.small r hr q j t hqj ht
    · rw [hs.other r hr q x hqj.init hx j hqj.last_lt hedge]
      exact h.small r hr q j x hqj hx
  · intro r hr v hv
    have hpath := userPath_path hv
    cases hx : table m r (path v) with
    | none => rw [leaf_of_none hx, leaf_of_none ((htables r hr _ hpath).trans hx)]
    | some x => exact hs.leaf_of_short hp hr hv hx ((htables r hr _ hpath).trans hx)

/-- A page that `pmm.alloc` may return: it is no table. -/
structure FreshFrame (roots : Set UInt64) (m : Mem) (a : UInt64) : Prop where
  ne_zero : a ≠ 0
  aligned : PageAligned a
  small : a.toNat < 2 ^ 52
  not_table : ∀ r ∈ roots, ∀ q, UserPath q → table m r q ≠ some a

theorem Tables.storesEntry_install (h : Tables roots m) (hroot : root ∈ roots) (hp : UserPath p)
    (ht : table m root p = some t) (hi : i.toNat < 512) {a : UInt64} (ha : FreshFrame roots m a) :
    StoresEntry roots m ((zeroPage m a).write64 (entryAddr t i) e) root t i e p := by
  refine ⟨Mem.read64_write64_self .., ?_⟩
  intro r hr q x hq hx j hj hne
  have hxp := h.pageAligned hr hx
  have hxa : x ≠ a := by
    rintro rfl
    exact ha.not_table r hr q hq hx
  have hzero : (zeroPage m a).read64 (entryAddr x j) = m.read64 (entryAddr x j) := by
    refine Mem.read64_fill_of_disjoint (by decide) m ?_
    intro y hy hy'
    exact pages_disjoint hxp ha.aligned hxa y (inBlock_entry hj hy) hy'
  rw [← hzero]
  exact h.read64_write hroot hp ht hi hr hq hx hj hne _

theorem Tables.read64_new (h : Tables roots m) (hroot : root ∈ roots) (hp : UserPath p)
    (ht : table m root p = some t) (hi : i.toNat < 512) {a : UInt64} (ha : FreshFrame roots m a)
    {j : UInt64} (hj : j.toNat < 512) :
    ((zeroPage m a).write64 (entryAddr t i) e).read64 (entryAddr a j) = 0 := by
  have htp := h.pageAligned hroot ht
  rw [Mem.read64_write64_of_ne (entryAddr_aligned htp i) (entryAddr_aligned ha.aligned j)]
  · exact Mem.read64_fill_zero (by decide) m fun y hy => inBlock_entry hj hy
  · intro heq
    obtain ⟨rfl, -⟩ := entryAddr_inj ha.aligned htp hj hi heq
    exact ha.not_table root hroot p hp ht

/-- **Installing a new table** in an absent entry adds one table, and no leaf entry. -/
theorem Tables.install (h : Tables roots m) (hroot : root ∈ roots) (hp : UserPath (p ++ [i]))
    (ht : table m root p = some t) (habsent : m.read64 (entryAddr t i) &&& ptePresent = 0)
    {a : UInt64} (ha : FreshFrame roots m a) (hs : StoresEntry roots m m' root t i e p)
    (hnew : ∀ j : UInt64, j.toNat < 512 → m'.read64 (entryAddr a j) = 0)
    (hpresent : e &&& ptePresent ≠ 0) (haddr : e &&& addrMask = a) (hps : e &&& ptePs = 0) :
    Tables roots m' ∧
      (∀ r ∈ roots, ∀ q, UserPath q → ∀ x, table m' r q = some x ↔
        table m r q = some x ∨ (r = root ∧ q = p ++ [i] ∧ x = a)) ∧
      ∀ r ∈ roots, ∀ v, v < userAddrLimit → leaf m' r v = leaf m r v := by
  -- Walks that end before the entry, or take another entry, read what they read before.
  have hwalk : ∀ r ∈ roots, ∀ q, UserPath q → ∀ x, table m' r q = some x ↔
      table m r q = some x ∨ (r = root ∧ q = p ++ [i] ∧ x = a) := by
    intro r hr q hq x
    refine Forest.walk_install (fun _ _ => UserPath.init) ht (follow_eq_none.mpr habsent) ?_ ?_ ?_ hq
    · refine follow_eq_some.mpr ⟨?_, ?_⟩
      · rw [hs.self]
        exact hpresent
      · rw [hs.self, haddr]
    · intro j hj
      refine follow_eq_none.mpr ?_
      rw [hnew j hj.last_lt, UInt64.zero_and]
    · intro q j x hqj hx hne
      exact follow_congr (hs.other r hr q x hqj.init hx j hqj.last_lt hne)
  refine ⟨⟨⟨h.aligned, ?_, ?_⟩, ?_⟩, hwalk, ?_⟩
  · exact h.separated.install hwalk ha.not_table
  · intro r hr q j x hqj hx
    obtain hold | ⟨-, -, rfl⟩ := (hwalk r hr q hqj.init x).mp hx
    -- The entry itself points to a table and is no large page; the new table has no entries.
    · by_cases hedge : r = root ∧ q = p ∧ j = i
      · obtain ⟨rfl, rfl, rfl⟩ := hedge
        obtain rfl : t = x := Option.some.inj (ht.symm.trans hold)
        rw [hs.self]
        exact fun _ => hps
      · rw [hs.other r hr q x hqj.init hold j hqj.last_lt hedge]
        exact h.small r hr q j x hqj hold
    · rw [hnew j hqj.last_lt, UInt64.zero_and]
      exact fun hne => absurd rfl hne
  · intro r hr q j x hqj hx
    obtain hold | ⟨-, -, rfl⟩ := (hwalk r hr _ hqj x).mp hx
    · exact h.nonzero r hr q j x hqj hold
    · exact ha.ne_zero
  · intro r hr v hv
    have hpath := userPath_path hv
    -- A leaf entry is where it was, or in the new table, which is empty.
    cases hx : table m r (path v) with
    | some x => exact hs.leaf_of_short hp hr hv hx ((hwalk r hr _ hpath x).mpr (.inl hx))
    | none =>
      rw [leaf_of_none hx]
      cases hx' : table m' r (path v) with
      | none => exact leaf_of_none hx'
      | some x =>
        obtain hold | ⟨-, -, rfl⟩ := (hwalk r hr _ hpath x).mp hx'
        · rw [hx] at hold
          exact absurd hold (by simp)
        · rw [leaf_of_table hx']
          exact hnew _ (ptIndex_lt v)

/-- **Storing a leaf entry** changes no table and no other leaf entry. -/
theorem Tables.storeLeaf (h : Tables roots m) {w : UInt64} (hw : w < userAddrLimit)
    (ht : table m root (path w) = some t)
    (hs : StoresEntry roots m m' root t (ptIndex w) e (path w)) :
    Tables roots m' ∧ (∀ r ∈ roots, ∀ q, UserPath q → table m' r q = table m r q) ∧
      ∀ r ∈ roots, ∀ v, v < userAddrLimit →
        leaf m' r v = if r = root ∧ v >>> 12 = w >>> 12 then e else leaf m r v := by
  have hinner : ∀ r ∈ roots, ∀ q j x, UserPath (q ++ [j]) → table m r q = some x →
      m'.read64 (entryAddr x j) = m.read64 (entryAddr x j) := by
    intro r hr q j x hqj hx
    refine hs.other r hr q x hqj.init hx j hqj.last_lt ?_
    rintro ⟨-, rfl, -⟩
    have hle := hqj.length_le
    rw [List.length_append, path_length, List.length_singleton] at hle
    omega
  have htables : ∀ r ∈ roots, ∀ q, UserPath q → table m' r q = table m r q :=
    fun r hr q hq => table_congr (fun q j x hqj hx => follow_congr (hinner r hr q j x hqj hx)) hq
  refine ⟨h.of_same htables ?_, htables, ?_⟩
  · intro r hr q j x hqj hx
    rw [hinner r hr q j x hqj hx]
    exact h.small r hr q j x hqj hx
  · intro r hr v hv
    have hpath := userPath_path hv
    by_cases hsame : r = root ∧ v >>> 12 = w >>> 12
    · rw [if_pos hsame]
      obtain ⟨rfl, hpage⟩ := hsame
      obtain ⟨hpv, hiv⟩ := indices_of_samePage hpage
      have hx : table m' r (path v) = some t := by
        rw [htables r hr _ hpath, hpv]
        exact ht
      rw [leaf_of_table hx, hiv]
      exact hs.self
    · rw [if_neg hsame]
      cases hx : table m r (path v) with
      | none => rw [leaf_of_none hx, leaf_of_none ((htables r hr _ hpath).trans hx)]
      | some x =>
        rw [leaf_of_table hx, leaf_of_table ((htables r hr _ hpath).trans hx)]
        refine hs.other r hr _ x hpath hx _ (ptIndex_lt v) ?_
        rintro ⟨hrr, hpv, hiv⟩
        exact hsame ⟨hrr, samePage_of_indices hv hw hpv hiv⟩

end Stores

end Keuos.Paging
