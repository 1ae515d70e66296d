import Keuos.Paging.Defs
import Keuos.Paging.Equiv.Map

/-!
# Guard pages change one translation

A tree of page tables is followed by `link`, which stops at large pages, so the tables are the nodes of a
forest as in `Keuos.Lib.Forest`, with other edges than those of `follow`.  To split a large page adds one node
and changes no translation (`Tree.split`); to change a leaf entry changes the translation of one page
(`Tree.lookup_storeLeaf`).  `vmm_clear_present` is the second after the first, and `vmm_set_present` stores
the old leaf entry again.
-/

namespace Keuos.Paging

open Pmm (physToVirt)

/-! ### Trees -/

/-- The table that an entry leads to, if it is present and no large page. -/
def link (m : Mem) (t i : UInt64) : Option UInt64 :=
  let e := m.read64 (entryAddr t i)
  if e &&& ptePresent == 0 || e &&& ptePs != 0 then none else some (e &&& addrMask)

/-- The paths to tables. -/
structure TablePath (q : List UInt64) : Prop where
  length_le : q.length ≤ 3
  index_lt : ∀ i ∈ q, i.toNat < 512

/-- The table at the end of a path. -/
def node (m : Mem) (root : UInt64) (q : List UInt64) : Option UInt64 :=
  Forest.walk (link m) root q

/-- A tree of page tables without pages of 1 GiB.  No table is reached twice, and the frame of a page of 2 MiB
is a multiple of 2 MiB. -/
structure Tree (root : UInt64) (m : Mem) : Prop where
  aligned : PageAligned root
  separated : Forest.Separated (link m) TablePath {root}
  noGiant : ∀ q x j, q.length < 2 → TablePath (q ++ [j]) → node m root q = some x →
    m.read64 (entryAddr x j) &&& ptePresent ≠ 0 → m.read64 (entryAddr x j) &&& ptePs = 0
  large : ∀ q x j, q.length = 2 → TablePath (q ++ [j]) → node m root q = some x →
    m.read64 (entryAddr x j) &&& ptePresent ≠ 0 → m.read64 (entryAddr x j) &&& ptePs ≠ 0 →
    (m.read64 (entryAddr x j)).toNat / 2 ^ 12 % 2 ^ 9 = 0

/-- A page that is no table of the tree. -/
structure Fresh (root : UInt64) (m : Mem) (a : UInt64) : Prop where
  aligned : PageAligned a
  small : a.toNat < 2 ^ 52
  not_node : ∀ q, TablePath q → node m root q ≠ some a

section Trees

variable {root : UInt64} {m m' : Mem}

theorem link_eq_some {t i x : UInt64} :
    link m t i = some x ↔ m.read64 (entryAddr t i) &&& ptePresent ≠ 0 ∧
      m.read64 (entryAddr t i) &&& ptePs = 0 ∧ x = m.read64 (entryAddr t i) &&& addrMask := by
  unfold link
  dsimp only
  generalize m.read64 (entryAddr t i) = e
  by_cases hleads : e &&& ptePresent ≠ 0 ∧ e &&& ptePs = 0
  · obtain ⟨hpresent, hps⟩ := hleads
    rw [beq_false_of_ne hpresent, hps, bne_self_eq_false, Bool.or_false, if_neg Bool.false_ne_true,
      Option.some.injEq]
    exact ⟨fun heq => ⟨hpresent, rfl, heq.symm⟩, fun h => h.2.2.symm⟩
  · have hstop : (e &&& ptePresent == 0 || e &&& ptePs != 0) = true := by
      rw [Bool.or_eq_true, beq_iff_eq, bne_iff_ne]
      tauto
    rw [if_pos hstop]
    exact ⟨nofun, fun h => absurd ⟨h.1, h.2.1⟩ hleads⟩

theorem link_congr {t i : UInt64} (h : m'.read64 (entryAddr t i) = m.read64 (entryAddr t i)) :
    link m' t i = link m t i := by
  unfold link
  rw [h]

theorem TablePath.init {q : List UInt64} {j : UInt64} (h : TablePath (q ++ [j])) : TablePath q := by
  have hle := h.length_le
  rw [List.length_append, List.length_singleton] at hle
  exact ⟨by omega, fun i hi => h.index_lt i (List.mem_append_left _ hi)⟩

theorem TablePath.last_lt {q : List UInt64} {j : UInt64} (h : TablePath (q ++ [j])) : j.toNat < 512 :=
  h.index_lt j (by simp)

theorem tablePath_path (v : UInt64) : TablePath (path v) :=
  ⟨Nat.le_refl 3, fun _ hi => lt_of_mem_path hi⟩

theorem Tree.pageAligned (h : Tree root m) {q : List UInt64} {x : UInt64} (hx : node m root q = some x) :
    PageAligned x := by
  induction q using List.reverseRecOn with
  | nil =>
    obtain rfl : root = x := Option.some.inj hx
    exact h.aligned
  | append_singleton q j _ =>
    obtain ⟨y, -, hyx⟩ := (Forest.walk_append_singleton_eq_some _).mp hx
    obtain ⟨-, -, rfl⟩ := link_eq_some.mp hyx
    exact pageAligned_and_addrMask _

theorem Tree.read64_write (h : Tree root m) {p q : List UInt64} {t i e x j : UInt64} (hp : TablePath p)
    (ht : node m root p = some t) (hi : i.toNat < 512) (hq : TablePath q) (hx : node m root q = some x)
    (hj : j.toNat < 512) (hne : ¬ (q = p ∧ j = i)) :
    (m.write64 (entryAddr t i) e).read64 (entryAddr x j) = m.read64 (entryAddr x j) := by
  have htp := h.pageAligned ht
  have hxp := h.pageAligned hx
  refine Mem.read64_write64_of_ne (entryAddr_aligned htp i) (entryAddr_aligned hxp j) ?_
  intro heq
  obtain ⟨rfl, rfl⟩ := entryAddr_inj hxp htp hj hi heq
  obtain ⟨-, rfl⟩ := h.separated root rfl root rfl q p hq hp x hx ht
  exact hne ⟨rfl, rfl⟩

theorem node_path (m : Mem) (root a b c : UInt64) :
    node m root [a, b, c] = (link m root a).bind fun x => (link m x b).bind fun y => link m y c := by
  unfold node Forest.walk
  simp only [List.foldlM_cons, List.foldlM_nil, Option.bind_eq_bind, Option.pure_def, Option.bind_fun_some]

theorem node_pair (m : Mem) (root a b : UInt64) :
    node m root [a, b] = (link m root a).bind fun x => link m x b := by
  unfold node Forest.walk
  simp only [List.foldlM_cons, List.foldlM_nil, Option.bind_eq_bind, Option.pure_def, Option.bind_fun_some]

/-! ### The walk of the processor -/

theorem not_beq_of_ne {x y : UInt64} (h : x ≠ y) : ¬ (x == y) = true := by
  rwa [beq_iff_eq]

theorem lookup_congr (h : Tree root m) {v : UInt64}
    (hsame : ∀ q x j rest, path v ++ [ptIndex v] = q ++ j :: rest → node m root q = some x →
      m'.read64 (entryAddr x j) = m.read64 (entryAddr x j)) : lookup m' root v = lookup m root v := by
  have hpath := tablePath_path v
  have hpath₁ : TablePath [pml4Index v] := TablePath.init (j := pdpIndex v) (TablePath.init hpath)
  have hpath₂ : TablePath [pml4Index v, pdpIndex v] := TablePath.init hpath
  unfold lookup
  dsimp only
  rw [hsame [] root (pml4Index v) _ rfl rfl]
  by_cases hpresent₁ : m.read64 (entryAddr root (pml4Index v)) &&& ptePresent = 0
  · rw [if_pos (beq_iff_eq.mpr hpresent₁), if_pos (beq_iff_eq.mpr hpresent₁)]
  · rw [if_neg (not_beq_of_ne hpresent₁), if_neg (not_beq_of_ne hpresent₁)]
    have hps₁ := h.noGiant [] root (pml4Index v) (by decide) hpath₁ rfl hpresent₁
    have hnode₁ : node m root [pml4Index v] = some (m.read64 (entryAddr root (pml4Index v)) &&& addrMask) :=
      (Forest.walk_append_singleton_eq_some (q := []) _).mpr
        ⟨root, rfl, link_eq_some.mpr ⟨hpresent₁, hps₁, rfl⟩⟩
    rw [hsame [pml4Index v] _ (pdpIndex v) _ rfl hnode₁]
    generalize m.read64 (entryAddr root (pml4Index v)) &&& addrMask = t₁ at hnode₁ ⊢
    by_cases hpresent₂ : m.read64 (entryAddr t₁ (pdpIndex v)) &&& ptePresent = 0
    · rw [if_pos (beq_iff_eq.mpr hpresent₂), if_pos (beq_iff_eq.mpr hpresent₂)]
    · have hps₂ := h.noGiant [pml4Index v] t₁ (pdpIndex v) (show 1 < 2 by decide) hpath₂ hnode₁ hpresent₂
      rw [if_neg (not_beq_of_ne hpresent₂), if_neg (not_beq_of_ne hpresent₂), hps₂]
      have hnode₂ : node m root [pml4Index v, pdpIndex v] =
          some (m.read64 (entryAddr t₁ (pdpIndex v)) &&& addrMask) :=
        (Forest.walk_append_singleton_eq_some (q := [pml4Index v]) _).mpr
          ⟨t₁, hnode₁, link_eq_some.mpr ⟨hpresent₂, hps₂, rfl⟩⟩
      rw [hsame [pml4Index v, pdpIndex v] _ (pdIndex v) _ rfl hnode₂]
      generalize m.read64 (entryAddr t₁ (pdpIndex v)) &&& addrMask = t₂ at hnode₂ ⊢
      by_cases hleads : m.read64 (entryAddr t₂ (pdIndex v)) &&& ptePresent ≠ 0 ∧
          m.read64 (entryAddr t₂ (pdIndex v)) &&& ptePs = 0
      · have hnode₃ : node m root (path v) = some (m.read64 (entryAddr t₂ (pdIndex v)) &&& addrMask) :=
          (Forest.walk_append_singleton_eq_some (q := [pml4Index v, pdpIndex v]) _).mpr
            ⟨t₂, hnode₂, link_eq_some.mpr ⟨hleads.1, hleads.2, rfl⟩⟩
        rw [hsame (path v) _ (ptIndex v) _ rfl hnode₃]
      · by_cases hpresent₃ : m.read64 (entryAddr t₂ (pdIndex v)) &&& ptePresent = 0
        · rw [if_pos (beq_iff_eq.mpr hpresent₃), if_pos (beq_iff_eq.mpr hpresent₃)]
        · have hps₃ : m.read64 (entryAddr t₂ (pdIndex v)) &&& ptePs ≠ 0 := fun hps => hleads ⟨hpresent₃, hps⟩
          rw [if_pos (bne_iff_ne.mpr hps₃), if_pos (bne_iff_ne.mpr hps₃)]

/-- The rights that the three levels of tables grant. -/
def upperRights (m : Mem) (root v : UInt64) : UInt64 :=
  let e₁ := m.read64 (entryAddr root (pml4Index v))
  let e₂ := m.read64 (entryAddr (e₁ &&& addrMask) (pdpIndex v))
  e₁ &&& e₂ &&& m.read64 (entryAddr (e₂ &&& addrMask) (pdIndex v))

theorem links_of_node {v pt : UInt64} (hpt : node m root (path v) = some pt) :
    ∃ t₁ t₂, link m root (pml4Index v) = some t₁ ∧ link m t₁ (pdpIndex v) = some t₂ ∧
      link m t₂ (pdIndex v) = some pt := by
  unfold path at hpt
  rw [node_path] at hpt
  obtain ⟨t₁, hlink₁, hpt⟩ := Option.bind_eq_some_iff.mp hpt
  obtain ⟨t₂, hlink₂, hlink₃⟩ := Option.bind_eq_some_iff.mp hpt
  exact ⟨t₁, t₂, hlink₁, hlink₂, hlink₃⟩

theorem lookup_of_node {v pt : UInt64} (hpt : node m root (path v) = some pt) :
    lookup m root v =
      let e := m.read64 (entryAddr pt (ptIndex v))
      if e &&& ptePresent == 0 then none
      else some (.of ((e &&& addrMask) + (v &&& 0xFFF)) (upperRights m root v &&& e)) := by
  obtain ⟨t₁, t₂, hlink₁, hlink₂, hlink₃⟩ := links_of_node hpt
  obtain ⟨hpresent₁, -, rfl⟩ := link_eq_some.mp hlink₁
  obtain ⟨hpresent₂, hps₂, rfl⟩ := link_eq_some.mp hlink₂
  obtain ⟨hpresent₃, hps₃, rfl⟩ := link_eq_some.mp hlink₃
  unfold lookup upperRights
  dsimp only
  rw [if_neg (not_beq_of_ne hpresent₁), if_neg (not_beq_of_ne hpresent₂), hps₂, if_neg (by decide),
    if_neg (not_beq_of_ne hpresent₃), hps₃, if_neg (by decide)]

theorem lookup_of_large {v pd : UInt64} (hpd : node m root [pml4Index v, pdpIndex v] = some pd)
    (hpresent : m.read64 (entryAddr pd (pdIndex v)) &&& ptePresent ≠ 0)
    (hps : m.read64 (entryAddr pd (pdIndex v)) &&& ptePs ≠ 0) :
    lookup m root v = some (.of ((m.read64 (entryAddr pd (pdIndex v)) &&& 0x000FFFFFFFE00000) +
      (v &&& 0x1FFFFF))
      (upperRights m root v)) := by
  rw [node_pair] at hpd
  obtain ⟨t₁, hlink₁, hlink₂⟩ := Option.bind_eq_some_iff.mp hpd
  obtain ⟨hpresent₁, -, rfl⟩ := link_eq_some.mp hlink₁
  obtain ⟨hpresent₂, hps₂, rfl⟩ := link_eq_some.mp hlink₂
  unfold lookup upperRights
  dsimp only
  rw [if_neg (not_beq_of_ne hpresent₁), if_neg (not_beq_of_ne hpresent₂), hps₂, if_neg (by decide),
    if_neg (not_beq_of_ne hpresent), if_pos (bne_iff_ne.mpr hps)]

/-- **A mapped address** has a leaf table with its page, or a large page. -/
theorem Tree.mapped_cases (h : Tree root m) {v : UInt64} (hmapped : lookup m root v ≠ none) :
    (∃ pt, node m root (path v) = some pt ∧ m.read64 (entryAddr pt (ptIndex v)) &&& ptePresent ≠ 0) ∨
      ∃ pd, node m root [pml4Index v, pdpIndex v] = some pd ∧
        m.read64 (entryAddr pd (pdIndex v)) &&& ptePresent ≠ 0 ∧
        m.read64 (entryAddr pd (pdIndex v)) &&& ptePs ≠ 0 := by
  have hpath := tablePath_path v
  have hpath₁ : TablePath [pml4Index v] := TablePath.init (j := pdpIndex v) (TablePath.init hpath)
  have hpath₂ : TablePath [pml4Index v, pdpIndex v] := TablePath.init hpath
  unfold lookup at hmapped
  dsimp only at hmapped
  by_cases hpresent₁ : m.read64 (entryAddr root (pml4Index v)) &&& ptePresent = 0
  · rw [if_pos (beq_iff_eq.mpr hpresent₁)] at hmapped
    exact absurd rfl hmapped
  rw [if_neg (not_beq_of_ne hpresent₁)] at hmapped
  have hps₁ := h.noGiant [] root (pml4Index v) (by decide) hpath₁ rfl hpresent₁
  have hnode₁ : node m root [pml4Index v] = some (m.read64 (entryAddr root (pml4Index v)) &&& addrMask) :=
    (Forest.walk_append_singleton_eq_some (q := []) _).mpr
      ⟨root, rfl, link_eq_some.mpr ⟨hpresent₁, hps₁, rfl⟩⟩
  generalize m.read64 (entryAddr root (pml4Index v)) &&& addrMask = t₁ at hnode₁ hmapped
  by_cases hpresent₂ : m.read64 (entryAddr t₁ (pdpIndex v)) &&& ptePresent = 0
  · rw [if_pos (beq_iff_eq.mpr hpresent₂)] at hmapped
    exact absurd rfl hmapped
  have hps₂ := h.noGiant [pml4Index v] t₁ (pdpIndex v) (show 1 < 2 by decide) hpath₂ hnode₁ hpresent₂
  rw [if_neg (not_beq_of_ne hpresent₂), hps₂, if_neg (by decide)] at hmapped
  have hnode₂ : node m root [pml4Index v, pdpIndex v] =
      some (m.read64 (entryAddr t₁ (pdpIndex v)) &&& addrMask) :=
    (Forest.walk_append_singleton_eq_some (q := [pml4Index v]) _).mpr
      ⟨t₁, hnode₁, link_eq_some.mpr ⟨hpresent₂, hps₂, rfl⟩⟩
  generalize m.read64 (entryAddr t₁ (pdpIndex v)) &&& addrMask = t₂ at hnode₂ hmapped
  by_cases hpresent₃ : m.read64 (entryAddr t₂ (pdIndex v)) &&& ptePresent = 0
  · rw [if_pos (beq_iff_eq.mpr hpresent₃)] at hmapped
    exact absurd rfl hmapped
  by_cases hps₃ : m.read64 (entryAddr t₂ (pdIndex v)) &&& ptePs = 0
  · have hnode₃ : node m root (path v) = some (m.read64 (entryAddr t₂ (pdIndex v)) &&& addrMask) :=
      (Forest.walk_append_singleton_eq_some (q := [pml4Index v, pdpIndex v]) _).mpr
        ⟨t₂, hnode₂, link_eq_some.mpr ⟨hpresent₃, hps₃, rfl⟩⟩
    refine .inl ⟨_, hnode₃, fun habsent => hmapped ?_⟩
    rw [if_neg (not_beq_of_ne hpresent₃), hps₃, if_neg (by decide), if_pos (beq_iff_eq.mpr habsent)]
  · exact .inr ⟨t₂, hnode₂, hpresent₃, hps₃⟩

/-! ### Leaf entries -/

theorem splits_path {v j : UInt64} {q rest : List UInt64} (h : path v ++ [ptIndex v] = q ++ j :: rest) :
    TablePath q ∧ j.toNat < 512 ∧ (q.length = 3 → q = path v ∧ j = ptIndex v) := by
  have hlength := congrArg List.length h
  rw [List.length_append, path_length, List.length_singleton, List.length_append, List.length_cons] at hlength
  have hlt : ∀ i ∈ path v ++ [ptIndex v], i.toNat < 512 := by
    intro i hi
    rcases List.mem_append.mp hi with hi | hi
    · exact (tablePath_path v).index_lt i hi
    · rw [List.mem_singleton.mp hi]
      exact ptIndex_lt v
  refine ⟨⟨by omega, fun i hi => hlt i ?_⟩, hlt j ?_, ?_⟩
  · rw [h]
    exact List.mem_append_left _ hi
  · rw [h]
    exact List.mem_append_right _ (List.mem_cons_self ..)
  · intro hq
    obtain ⟨hpath, hlast⟩ := List.append_inj h (by rw [path_length, hq])
    exact ⟨hpath.symm, (List.cons.inj hlast).1.symm⟩

theorem Tree.node_storeLeaf (h : Tree root m) {w pt e : UInt64} (hpt : node m root (path w) = some pt)
    {q : List UInt64} (hq : TablePath q) :
    node (m.write64 (entryAddr pt (ptIndex w)) e) root q = node m root q := by
  refine Forest.walk_congr (fun _ _ => TablePath.init) ?_ hq
  intro q j x hqj hx
  refine link_congr (h.read64_write (tablePath_path w) hpt (ptIndex_lt w) hqj.init hx hqj.last_lt ?_)
  rintro ⟨rfl, -⟩
  have hle := hqj.length_le
  rw [List.length_append, path_length, List.length_singleton] at hle
  omega

/-- **A store to a leaf entry** keeps the translation of the other pages. -/
theorem Tree.lookup_storeLeaf (h : Tree root m) {w pt e v : UInt64} (hpt : node m root (path w) = some pt)
    (hv : ¬ (path v = path w ∧ ptIndex v = ptIndex w)) :
    lookup (m.write64 (entryAddr pt (ptIndex w)) e) root v = lookup m root v := by
  apply lookup_congr h
  intro q x j rest hsplit hx
  obtain ⟨hq, hj, hlast⟩ := splits_path hsplit
  refine h.read64_write (tablePath_path w) hpt (ptIndex_lt w) hq hx hj ?_
  rintro ⟨rfl, rfl⟩
  obtain ⟨hpath, hindex⟩ := hlast (path_length w)
  exact hv ⟨hpath.symm, hindex.symm⟩

theorem Tree.lookup_clearEntry (h : Tree root m) {w pt v : UInt64} (hpt : node m root (path w) = some pt)
    (hv : path v = path w ∧ ptIndex v = ptIndex w) : lookup (clearEntry m pt w) root v = none := by
  have hnode : node (clearEntry m pt w) root (path v) = some pt := by
    unfold clearEntry
    dsimp only
    rw [h.node_storeLeaf hpt (tablePath_path v), hv.1, hpt]
  have hentry : (clearEntry m pt w).read64 (entryAddr pt (ptIndex v)) &&& ptePresent = 0 := by
    unfold clearEntry
    dsimp only
    rw [hv.2, Mem.read64_write64_self, UInt64.and_assoc,
      show (ptePresent ^^^ 0xFFFFFFFFFFFFFFFF) &&& ptePresent = 0 from by decide, UInt64.and_zero]
  rw [lookup_of_node hnode]
  exact if_pos (beq_iff_eq.mpr hentry)

theorem clear_or_present {e : UInt64} (he : e &&& ptePresent ≠ 0) :
    e &&& (ptePresent ^^^ 0xFFFFFFFFFFFFFFFF) ||| ptePresent = e := by
  have hones : ∀ i, bit 0xFFFFFFFFFFFFFFFF i = decide (i < 64) := fun i =>
    Nat.testBit_two_pow_sub_one 64 i
  -- bit 0 is the only one that is cleared
  have hlow : bit e 0 = true := by
    obtain ⟨i, -, hi⟩ := exists_bit_of_ne_zero he
    rw [bit_and, Bool.and_eq_true] at hi
    have hzero : 0 = i := by simpa [ptePresent, bit_one] using hi.2
    rw [hzero]
    exact hi.1
  apply eq_of_bit_eq
  intro i
  rw [bit_or, bit_and, bit_xor, hones]
  unfold ptePresent
  rw [bit_one]
  by_cases hi : 0 = i
  · subst hi
    rw [hlow]
    rfl
  · by_cases hlt : i < 64
    · simp [hi, hlt]
    · simp [hi, bit_of_le e (Nat.not_lt.mp hlt)]

/-- **Clearing and setting** the present bit of a page that is mapped restores every translation. -/
theorem Tree.lookup_setEntry (h : Tree root m) {w pt : UInt64} (hpt : node m root (path w) = some pt)
    (hpresent : m.read64 (entryAddr pt (ptIndex w)) &&& ptePresent ≠ 0) (v : UInt64) :
    lookup (setEntry (clearEntry m pt w) pt w) root v = lookup m root v := by
  have hpath := tablePath_path w
  apply lookup_congr h
  intro q x j rest hsplit hx
  obtain ⟨hq, hj, -⟩ := splits_path hsplit
  unfold setEntry clearEntry
  dsimp only
  rw [Mem.read64_write64_self]
  by_cases hleaf : q = path w ∧ j = ptIndex w
  · obtain ⟨rfl, rfl⟩ := hleaf
    obtain rfl : pt = x := Option.some.inj (hpt.symm.trans hx)
    rw [Mem.read64_write64_self, clear_or_present hpresent]
  · have hxp := h.pageAligned hx
    have htp := h.pageAligned hpt
    have hne : entryAddr x j ≠ entryAddr pt (ptIndex w) := by
      intro heq
      obtain ⟨rfl, rfl⟩ := entryAddr_inj hxp htp hj (ptIndex_lt w) heq
      obtain ⟨-, rfl⟩ := h.separated root rfl root rfl q (path w) hq hpath x hx hpt
      exact hleaf ⟨rfl, rfl⟩
    rw [Mem.read64_write64_of_ne (entryAddr_aligned htp _) (entryAddr_aligned hxp j) hne]
    exact h.read64_write hpath hpt (ptIndex_lt w) hq hx hj hleaf

/-! ### Splitting a large page -/

theorem populate_spec (base flags : UInt64) {pt : UInt64} (hpt : PageAligned pt) {n : Nat} {i : UInt64}
    (hi : i.toNat + n ≤ 512) (m : Mem) :
    (∀ y, ¬ InBlock (physToVirt pt) 4096 y → populate pt base flags n i m y = m y) ∧
    ∀ j : UInt64, j.toNat < 512 → (populate pt base flags n i m).read64 (entryAddr pt j) =
      if i.toNat ≤ j.toNat ∧ j.toNat < i.toNat + n then (base + j * 4096) ||| flags
      else m.read64 (entryAddr pt j) := by
  induction n generalizing i m with
  | zero =>
    unfold populate
    refine ⟨fun _ _ => rfl, ?_⟩
    intro j _
    rw [if_neg (by omega)]
  | succ n ih =>
    have hnext : (i + 1).toNat = i.toNat + 1 := by
      rw [UInt64.toNat_add, UInt64.toNat_one]
      omega
    obtain ⟨houtside, hentries⟩ := ih (i := i + 1) (by omega)
      (m.write64 (entryAddr pt i) ((base + i * 4096) ||| flags))
    unfold populate
    constructor
    · intro y hy
      rw [houtside y hy]
      exact Mem.write64_of_not_mem fun hin => hy (inBlock_entry (by omega) hin)
    · intro j hj
      rw [hentries j hj, hnext]
      by_cases hji : j = i
      · subst hji
        rw [if_neg (by omega), if_pos (by omega), Mem.read64_write64_self]
      · have hne : entryAddr pt j ≠ entryAddr pt i := fun heq =>
          hji (entryAddr_inj hpt hpt hj (by omega) heq).2
        have hjiNat : j.toNat ≠ i.toNat := fun h => hji (UInt64.toNat_inj.mp h)
        rw [Mem.read64_write64_of_ne (entryAddr_aligned hpt i) (entryAddr_aligned hpt j) hne]
        by_cases hin : i.toNat ≤ j.toNat ∧ j.toNat < i.toNat + (n + 1)
        · rw [if_pos hin, if_pos (by omega)]
        · rw [if_neg hin, if_neg (by omega)]

/-- The flags that the parts of a large page inherit. -/
def inherited (e : UInt64) : UInt64 :=
  e &&& (ptePresent ||| pteWrite ||| pteUser)

theorem inherited_and (e : UInt64) {mask : UInt64}
    (hmask : (ptePresent ||| pteWrite ||| pteUser) &&& mask = mask) :
    inherited e &&& mask = e &&& mask := by
  unfold inherited
  rw [UInt64.and_assoc, hmask]

theorem inherited_and_eq_zero (e : UInt64) {mask : UInt64}
    (hmask : (ptePresent ||| pteWrite ||| pteUser) &&& mask = 0) : inherited e &&& mask = 0 := by
  unfold inherited
  rw [UInt64.and_assoc, hmask, UInt64.and_zero]

theorem frameEntry {a : UInt64} (ha : a &&& addrMask = a) (e : UInt64) :
    (a ||| inherited e) &&& addrMask = a ∧ (a ||| inherited e) &&& ptePs = 0 ∧
      ∀ mask, (ptePresent ||| pteWrite ||| pteUser) &&& mask = mask → addrMask &&& mask = 0 →
        (a ||| inherited e) &&& mask = e &&& mask := by
  refine ⟨?_, ?_, ?_⟩
  · rw [and_or_distrib, ha, inherited_and_eq_zero e (by decide), UInt64.or_zero]
  · rw [and_or_distrib, addr_and_eq_zero ha (by decide), inherited_and_eq_zero e (by decide), UInt64.or_zero]
  · intro mask hmask haddr
    rw [and_or_distrib, addr_and_eq_zero ha haddr, inherited_and e hmask, UInt64.zero_or]

/-- The parts of a large page are frames, and their bytes are those of the large page. -/
theorem part_spec {e v : UInt64} (hlarge : e.toNat / 2 ^ 12 % 2 ^ 9 = 0) :
    ((e &&& addrMask) + ptIndex v * 4096) &&& addrMask = (e &&& addrMask) + ptIndex v * 4096 ∧
      (e &&& addrMask) + ptIndex v * 4096 + (v &&& 0xFFF) =
        (e &&& 0x000FFFFFFFE00000) + (v &&& 0x1FFFFF) := by
  have hbase := toNat_and_addrMask e
  have hindex := toNat_ptIndex v
  have hpart : ((e &&& addrMask) + ptIndex v * 4096).toNat =
      e.toNat % 2 ^ 52 / 2 ^ 12 * 2 ^ 12 + v.toNat / 2 ^ 12 % 512 * 4096 := by
    rw [UInt64.toNat_add, UInt64.toNat_mul, hbase, hindex, show (4096 : UInt64).toNat = 4096 from rfl]
    omega
  constructor
  · apply and_addrMask_of_aligned
    · unfold PageAligned
      rw [hpart]
      omega
    · rw [hpart]
      omega
  · rw [← UInt64.toNat_inj, UInt64.toNat_add, hpart, UInt64.toNat_add, UInt64.toNat_and, UInt64.toNat_and,
      UInt64.toNat_and, show (0xFFF : UInt64).toNat = 2 ^ 12 - 1 from rfl,
      show (0x1FFFFF : UInt64).toNat = 2 ^ 21 - 1 from rfl,
      show (0x000FFFFFFFE00000 : UInt64).toNat = 2 ^ 52 - 2 ^ 21 from by decide,
      Nat.and_two_pow_sub_one_eq_mod, Nat.and_two_pow_sub_one_eq_mod, and_midBits (by decide)]
    omega

/-- The rights that the two upper levels grant. -/
def pdpRights (m : Mem) (root v : UInt64) : UInt64 :=
  let e₁ := m.read64 (entryAddr root (pml4Index v))
  e₁ &&& m.read64 (entryAddr (e₁ &&& addrMask) (pdpIndex v))

theorem upperRights_of_node {v pd : UInt64} (hpd : node m root [pml4Index v, pdpIndex v] = some pd) :
    upperRights m root v = pdpRights m root v &&& m.read64 (entryAddr pd (pdIndex v)) := by
  rw [node_pair] at hpd
  obtain ⟨t₁, hlink₁, hlink₂⟩ := Option.bind_eq_some_iff.mp hpd
  obtain ⟨-, -, rfl⟩ := link_eq_some.mp hlink₁
  obtain ⟨-, -, rfl⟩ := link_eq_some.mp hlink₂
  rfl

theorem and_and_mask (r a b mask : UInt64) :
    (r &&& a &&& b) &&& mask = r &&& (a &&& mask) &&& (b &&& mask) := by
  apply eq_of_bit_eq
  intro i
  simp only [bit_and]
  cases bit r i <;> cases bit a i <;> cases bit b i <;> cases bit mask i <;> rfl

section Split

variable {w pd pt : UInt64}

/-- What a large page becomes: an entry that leads to a new table, with entries for its parts. -/
structure Splits (root w pd pt : UInt64) (m m' : Mem) : Prop where
  other : ∀ q x j, TablePath q → node m root q = some x → j.toNat < 512 →
    ¬ (q = [pml4Index w, pdpIndex w] ∧ j = pdIndex w) → m'.read64 (entryAddr x j) = m.read64 (entryAddr x j)
  edge : m'.read64 (entryAddr pd (pdIndex w)) = pt ||| inherited (m.read64 (entryAddr pd (pdIndex w)))
  parts : ∀ j : UInt64, j.toNat < 512 → m'.read64 (entryAddr pt j) =
    ((m.read64 (entryAddr pd (pdIndex w)) &&& addrMask) + j * 4096) |||
      inherited (m.read64 (entryAddr pd (pdIndex w)))

theorem Tree.splits_splitLarge (h : Tree root m) (hpd : node m root [pml4Index w, pdpIndex w] = some pd)
    (hfresh : Fresh root m pt) :
    Splits root w pd pt m (splitLarge m pd (pdIndex w) (m.read64 (entryAddr pd (pdIndex w))) pt) := by
  have hpath : TablePath [pml4Index w, pdpIndex w] := TablePath.init (tablePath_path w)
  have hindex : (pdIndex w).toNat < 512 := (tablePath_path w).index_lt _ (by simp [path])
  have hpdAligned := h.pageAligned hpd
  have hne : pt ≠ pd := by
    rintro rfl
    exact hfresh.not_node _ hpath hpd
  have hpopulate := fun base flags =>
    populate_spec base flags hfresh.aligned (n := 512) (i := 0) (by decide) m
  obtain ⟨houtside, hentries⟩ := hpopulate (m.read64 (entryAddr pd (pdIndex w)) &&& addrMask)
    (inherited (m.read64 (entryAddr pd (pdIndex w))))
  unfold splitLarge
  dsimp only
  rw [show m.read64 (entryAddr pd (pdIndex w)) &&& (ptePresent ||| pteWrite ||| pteUser) =
    inherited (m.read64 (entryAddr pd (pdIndex w))) from rfl]
  refine ⟨?_, Mem.read64_write64_self .., ?_⟩
  · intro q x j hq hx hj hedge
    have hxAligned := h.pageAligned hx
    have hxt : x ≠ pt := by
      rintro rfl
      exact hfresh.not_node q hq hx
    have hentry : entryAddr x j ≠ entryAddr pd (pdIndex w) := by
      intro heq
      obtain ⟨rfl, rfl⟩ := entryAddr_inj hxAligned hpdAligned hj hindex heq
      obtain ⟨-, rfl⟩ := h.separated root rfl root rfl q _ hq hpath x hx hpd
      exact hedge ⟨rfl, rfl⟩
    rw [Mem.read64_write64_of_ne (entryAddr_aligned hpdAligned _) (entryAddr_aligned hxAligned j) hentry]
    exact Mem.read64_congr fun y hy => houtside y fun hin =>
      pages_disjoint hxAligned hfresh.aligned hxt y (inBlock_entry hj hy) hin
  · intro j hj
    have hentry : entryAddr pt j ≠ entryAddr pd (pdIndex w) := fun heq =>
      hne (entryAddr_inj hfresh.aligned hpdAligned hj hindex heq).1
    have hrange : (0 : UInt64).toNat ≤ j.toNat ∧ j.toNat < (0 : UInt64).toNat + 512 := by
      rw [UInt64.toNat_zero]
      omega
    rw [Mem.read64_write64_of_ne (entryAddr_aligned hpdAligned _) (entryAddr_aligned hfresh.aligned j) hentry,
      hentries j hj, if_pos hrange]

/-- **A split keeps the tree**, and adds its table. -/
theorem Tree.split (h : Tree root m) (hpd : node m root [pml4Index w, pdpIndex w] = some pd)
    (hpresent : m.read64 (entryAddr pd (pdIndex w)) &&& ptePresent ≠ 0)
    (hps : m.read64 (entryAddr pd (pdIndex w)) &&& ptePs ≠ 0) (hfresh : Fresh root m pt)
    (hsplit : Splits root w pd pt m m') :
    Tree root m' ∧ ∀ q, TablePath q → ∀ x, node m' root q = some x ↔
      node m root q = some x ∨ (q = path w ∧ x = pt) := by
  have hpath := tablePath_path w
  have haddr := and_addrMask_of_aligned hfresh.aligned hfresh.small
  obtain ⟨hframe, hsmall, hflag⟩ := frameEntry haddr (m.read64 (entryAddr pd (pdIndex w)))
  have hpresent' := hflag ptePresent (by decide) (by decide)
  -- the entry of the 2 MiB page becomes a link to the new table, and nothing else changes
  have hwalk : ∀ r ∈ ({root} : Set UInt64), ∀ q, TablePath q → ∀ x, Forest.walk (link m') r q = some x ↔
      Forest.walk (link m) r q = some x ∨
        (r = root ∧ q = [pml4Index w, pdpIndex w] ++ [pdIndex w] ∧ x = pt) := by
    rintro r rfl q hq x
    refine Forest.walk_install (fun _ _ => TablePath.init) hpd ?_ ?_ ?_ ?_ hq
    · unfold link
      dsimp only
      rw [bne_iff_ne.mpr hps, Bool.or_true]
      rfl
    · refine link_eq_some.mpr ⟨?_, ?_, ?_⟩
      · rw [hsplit.edge, hpresent']
        exact hpresent
      · rw [hsplit.edge, hsmall]
      · rw [hsplit.edge, hframe]
    · intro j hj
      exact absurd hj.length_le (by simp)
    · intro q j x hqj hx hne
      exact link_congr (hsplit.other q x j hqj.init hx hqj.last_lt fun hedge => hne ⟨rfl, hedge⟩)
  have hnode : ∀ q, TablePath q → ∀ x, node m' root q = some x ↔
      node m root q = some x ∨ (q = path w ∧ x = pt) := by
    intro q hq x
    refine (hwalk root rfl q hq x).trans (or_congr_right ?_)
    exact and_iff_right rfl
  refine ⟨⟨h.aligned, ?_, ?_, ?_⟩, hnode⟩
  · refine h.separated.install hwalk ?_
    rintro r rfl q hq
    exact hfresh.not_node q hq
  · intro q x j hlength hq hx
    rcases (hnode q hq.init x).mp hx with hold | ⟨rfl, -⟩
    · rw [hsplit.other q x j hq.init hold hq.last_lt ?_]
      · exact h.noGiant q x j hlength hq hold
      · rintro ⟨rfl, -⟩
        exact absurd hlength (by simp)
    · exact absurd hlength (by simp [path])
  · intro q x j hlength hq hx
    rcases (hnode q hq.init x).mp hx with hold | ⟨rfl, -⟩
    · by_cases hedge : q = [pml4Index w, pdpIndex w] ∧ j = pdIndex w
      · obtain ⟨rfl, rfl⟩ := hedge
        obtain rfl : pd = x := Option.some.inj (hpd.symm.trans hold)
        rw [hsplit.edge, hsmall]
        exact fun _ hne => absurd rfl hne
      · rw [hsplit.other q x j hq.init hold hq.last_lt hedge]
        exact h.large q x j hlength hq hold
    · exact absurd hlength (by simp [path])

/-- **A split keeps every translation.** -/
theorem Tree.lookup_split (h : Tree root m) (hpd : node m root [pml4Index w, pdpIndex w] = some pd)
    (hpresent : m.read64 (entryAddr pd (pdIndex w)) &&& ptePresent ≠ 0)
    (hps : m.read64 (entryAddr pd (pdIndex w)) &&& ptePs ≠ 0) (hfresh : Fresh root m pt)
    (hsplit : Splits root w pd pt m m') (v : UInt64) : lookup m' root v = lookup m root v := by
  have hpath := tablePath_path w
  have hpair : TablePath [pml4Index w, pdpIndex w] := TablePath.init hpath
  by_cases hv : path v = path w
  · -- the address is in the large page
    obtain ⟨-, hnode⟩ := h.split hpd hpresent hps hfresh hsplit
    have hleaf : node m' root (path v) = some pt := by
      rw [hv]
      exact (hnode _ hpath pt).mpr (.inr ⟨rfl, rfl⟩)
    simp only [path, List.cons.injEq, and_true] at hv
    obtain ⟨h₁, h₂, h₃⟩ := hv
    have hpd' : node m' root [pml4Index w, pdpIndex w] = some pd := (hnode _ hpair pd).mpr (.inl hpd)
    have hlarge := h.large _ pd (pdIndex w) rfl hpath hpd hpresent hps
    have hrights : pdpRights m' root v = pdpRights m root v := by
      rw [node_pair] at hpd
      obtain ⟨t₁, hlink₁, -⟩ := Option.bind_eq_some_iff.mp hpd
      have hnode₁ : node m root [pml4Index w] = some t₁ :=
        (Forest.walk_append_singleton_eq_some (q := []) _).mpr ⟨root, rfl, hlink₁⟩
      obtain ⟨-, -, rfl⟩ := link_eq_some.mp hlink₁
      unfold pdpRights
      dsimp only
      have hnil : TablePath [] := ⟨by decide, fun _ hi => absurd hi List.not_mem_nil⟩
      rw [h₁, h₂, hsplit.other [] root _ hnil rfl (hpath.index_lt _ (by simp [path])) (by simp),
        hsplit.other _ _ _ hpair.init hnode₁ (hpath.index_lt _ (by simp [path])) (by simp)]
    obtain ⟨hpart, hbytes⟩ := part_spec (v := v) hlarge
    obtain ⟨hframe, -, hflag⟩ := frameEntry hpart (m.read64 (entryAddr pd (pdIndex w)))
    have haddr := and_addrMask_of_aligned hfresh.aligned hfresh.small
    obtain ⟨-, -, hedge⟩ := frameEntry haddr (m.read64 (entryAddr pd (pdIndex w)))
    rw [← h₁, ← h₂] at hpd hpd'
    rw [lookup_of_node hleaf, lookup_of_large hpd (by rwa [h₃]) (by rwa [h₃]), upperRights_of_node hpd,
      upperRights_of_node hpd', hrights, h₃, hsplit.edge, hsplit.parts _ (ptIndex_lt v)]
    dsimp only
    rw [hflag ptePresent (by decide) (by decide), if_neg (not_beq_of_ne hpresent), hframe, hbytes]
    unfold Mapping.of
    rw [and_and_mask, and_and_mask, hflag pteWrite (by decide) (by decide),
      hflag pteUser (by decide) (by decide),
      hedge pteWrite (by decide) (by decide), hedge pteUser (by decide) (by decide)]
    have htwice : ∀ r e mask : UInt64, r &&& (e &&& mask) &&& (e &&& mask) = r &&& e &&& mask := by
      intro r e mask
      rw [UInt64.and_assoc, UInt64.and_self, UInt64.and_assoc]
    rw [htwice, htwice]
  · apply lookup_congr h
    intro q x j rest hpath hx
    obtain ⟨hq, hj, -⟩ := splits_path hpath
    refine hsplit.other q x j hq hx hj ?_
    rintro ⟨rfl, rfl⟩
    apply hv
    simp only [path, List.cons_append, List.nil_append, List.cons.injEq] at hpath ⊢
    exact ⟨hpath.1, hpath.2.1, hpath.2.2.1, trivial⟩

end Split

/-! ### The two functions -/

section Calls

variable {cr3 vaddr pd pt : UInt64} {s : Vm}

theorem vmmClearPresent_of_node (hpt : node s.mem (cr3 &&& addrMask) (path vaddr) = some pt) :
    vmmClearPresent cr3 s vaddr = (some (.page vaddr), { s with mem := clearEntry s.mem pt vaddr }) := by
  obtain ⟨t₁, t₂, hlink₁, hlink₂, hlink₃⟩ := links_of_node hpt
  obtain ⟨hpresent₁, -, rfl⟩ := link_eq_some.mp hlink₁
  obtain ⟨hpresent₂, -, rfl⟩ := link_eq_some.mp hlink₂
  obtain ⟨hpresent₃, hps, rfl⟩ := link_eq_some.mp hlink₃
  unfold vmmClearPresent
  dsimp only
  rw [if_neg (not_beq_of_ne hpresent₁), if_neg (not_beq_of_ne hpresent₂),
    if_neg (not_beq_of_ne hpresent₃), hps,
    if_neg (by decide)]

theorem vmmSetPresent_of_node (hpt : node s.mem (cr3 &&& addrMask) (path vaddr) = some pt) :
    vmmSetPresent cr3 s vaddr = (some (.page vaddr), { s with mem := setEntry s.mem pt vaddr }) := by
  obtain ⟨t₁, t₂, hlink₁, hlink₂, hlink₃⟩ := links_of_node hpt
  obtain ⟨hpresent₁, -, rfl⟩ := link_eq_some.mp hlink₁
  obtain ⟨hpresent₂, -, rfl⟩ := link_eq_some.mp hlink₂
  obtain ⟨hpresent₃, hps, rfl⟩ := link_eq_some.mp hlink₃
  unfold vmmSetPresent
  dsimp only
  rw [if_neg (not_beq_of_ne hpresent₁), if_neg (not_beq_of_ne hpresent₂), hps, if_neg (by decide),
    if_neg (not_beq_of_ne hpresent₃)]

/-- `vmm_clear_present` of a page in a large page: a page is allocated, and the large page is split. -/
theorem vmmClearPresent_of_large
    (hpd : node s.mem (cr3 &&& addrMask) [pml4Index vaddr, pdpIndex vaddr] = some pd)
    (hpresent : s.mem.read64 (entryAddr pd (pdIndex vaddr)) &&& ptePresent ≠ 0)
    (hps : s.mem.read64 (entryAddr pd (pdIndex vaddr)) &&& ptePs ≠ 0) :
    vmmClearPresent cr3 s vaddr =
      if s.alloc.1 == 0 then (none, s.alloc.2)
      else (some (.cr3 (cr3 &&& 0x7FFFFFFFFFFFFFFF)), { s.alloc.2 with
        mem := clearEntry (splitLarge s.alloc.2.mem pd (pdIndex vaddr)
          (s.mem.read64 (entryAddr pd (pdIndex vaddr))) s.alloc.1) s.alloc.1 vaddr }) := by
  rw [node_pair] at hpd
  obtain ⟨t₁, hlink₁, hlink₂⟩ := Option.bind_eq_some_iff.mp hpd
  obtain ⟨hpresent₁, -, rfl⟩ := link_eq_some.mp hlink₁
  obtain ⟨hpresent₂, -, rfl⟩ := link_eq_some.mp hlink₂
  unfold vmmClearPresent
  dsimp only
  rw [if_neg (not_beq_of_ne hpresent₁), if_neg (not_beq_of_ne hpresent₂), if_neg (not_beq_of_ne hpresent),
    if_pos (bne_iff_ne.mpr hps)]

theorem alloc_mem (s : Vm) : s.alloc.2.mem = s.mem := by
  obtain ⟨m, answers⟩ := s
  cases answers with
  | nil => rfl
  | cons a rest => rfl

end Calls

theorem samePage_of_canonical {v w : UInt64} (hv : Canonical v) (hw : Canonical w) (hpath : path v = path w)
    (hindex : ptIndex v = ptIndex w) : v >>> 12 = w >>> 12 := by
  simp only [path, List.cons.injEq, and_true] at hpath
  obtain ⟨h₁, h₂, h₃⟩ := hpath
  have k₁ := congrArg UInt64.toNat h₁
  have k₂ := congrArg UInt64.toNat h₂
  have k₃ := congrArg UInt64.toNat h₃
  have k₄ := congrArg UInt64.toNat hindex
  rw [toNat_pml4Index, toNat_pml4Index] at k₁
  rw [toNat_pdpIndex, toNat_pdpIndex] at k₂
  rw [toNat_pdIndex, toNat_pdIndex] at k₃
  rw [toNat_ptIndex, toNat_ptIndex] at k₄
  have hvlt := v.toNat_lt
  have hwlt := w.toNat_lt
  unfold Canonical at hv hw
  rw [← UInt64.toNat_inj, UInt64.toNat_shiftRight, UInt64.toNat_shiftRight, Nat.shiftRight_eq_div_pow,
    Nat.shiftRight_eq_div_pow, show (12 : UInt64).toNat % 64 = 12 from rfl]
  omega

/-- What a guard page does to the translations: those of its page go, the others stay, and all come back. -/
structure Guards (root vaddr : UInt64) (m cleared restored : Mem) : Prop where
  gone : ∀ v : UInt64, v >>> 12 = vaddr >>> 12 → lookup cleared root v = none
  others : ∀ v : UInt64, Canonical v → v >>> 12 ≠ vaddr >>> 12 → lookup cleared root v = lookup m root v
  back : ∀ v : UInt64, lookup restored root v = lookup m root v

theorem Tree.guards (h : Tree root m) {w pt : UInt64} (hw : Canonical w)
    (hpt : node m root (path w) = some pt)
    (hpresent : m.read64 (entryAddr pt (ptIndex w)) &&& ptePresent ≠ 0) :
    Guards root w m (clearEntry m pt w) (setEntry (clearEntry m pt w) pt w) where
  gone := fun _ hv => h.lookup_clearEntry hpt (indices_of_samePage hv)
  others := fun _ hcanonical hv => h.lookup_storeLeaf hpt fun hsame =>
    hv (samePage_of_canonical hcanonical hw hsame.1 hsame.2)
  back := h.lookup_setEntry hpt hpresent

/-- `vaddr` lies in a page of 2 MiB. -/
def InLarge (m : Mem) (root vaddr : UInt64) : Prop :=
  ∃ pd, node m root [pml4Index vaddr, pdpIndex vaddr] = some pd ∧
    m.read64 (entryAddr pd (pdIndex vaddr)) &&& ptePresent ≠ 0 ∧
      m.read64 (entryAddr pd (pdIndex vaddr)) &&& ptePs ≠ 0

end Trees

/-- A tree of three tables, with the large page at 0. -/
def sampleTree : Mem :=
  ((Mem.write64 (fun _ => 0) (entryAddr 0x1000 0) 0x2007).write64 (entryAddr 0x2000 0) 0x3007).write64
    (entryAddr 0x3000 0) 0x87

theorem sampleTree_entry {x j : UInt64} (hx : x.toNat % 4096 = 0) (hj : j.toNat < 512) :
    sampleTree.read64 (entryAddr x j) =
      if x = 0x3000 ∧ j = 0 then 0x87 else if x = 0x2000 ∧ j = 0 then 0x3007
      else if x = 0x1000 ∧ j = 0 then 0x2007 else 0 := by
  have hstore : ∀ (m : Mem) (t e : UInt64), t.toNat % 4096 = 0 →
      (m.write64 (entryAddr t 0) e).read64 (entryAddr x j) =
      if x = t ∧ j = 0 then e else m.read64 (entryAddr x j) := by
    intro m t e ht
    split_ifs with heq
    · obtain ⟨rfl, rfl⟩ := heq
      exact Mem.read64_write64_self ..
    · refine Mem.read64_write64_of_ne (entryAddr_aligned ht 0) (entryAddr_aligned hx j) fun hsame => heq ?_
      exact entryAddr_inj hx ht hj (by decide) hsame
  unfold sampleTree
  rw [hstore _ _ _ (by decide), hstore _ _ _ (by decide), hstore _ _ _ (by decide), Mem.read64_zero]

theorem sampleTree_node {q : List UInt64} {x : UInt64} (hq : TablePath q)
    (hx : node sampleTree 0x1000 q = some x) :
    (q = [] ∧ x = 0x1000) ∨ (q = [0] ∧ x = 0x2000) ∨ (q = [0, 0] ∧ x = 0x3000) := by
  induction q using List.reverseRecOn generalizing x with
  | nil => exact .inl ⟨rfl, (Option.some.inj hx).symm⟩
  | append_singleton q j ih =>
    obtain ⟨y, hy, hyx⟩ := (Forest.walk_append_singleton_eq_some _).mp hx
    obtain ⟨hpresent, hps, rfl⟩ := link_eq_some.mp hyx
    have hj := hq.last_lt
    rcases ih hq.init hy with ⟨rfl, rfl⟩ | ⟨rfl, rfl⟩ | ⟨rfl, rfl⟩
    · rw [sampleTree_entry (by decide) hj] at hpresent ⊢
      by_cases hzero : j = 0
      · subst hzero
        exact .inr (.inl ⟨rfl, by decide⟩)
      · simp [hzero] at hpresent
    · rw [sampleTree_entry (by decide) hj] at hpresent ⊢
      by_cases hzero : j = 0
      · subst hzero
        exact .inr (.inr ⟨rfl, by decide⟩)
      · simp [hzero] at hpresent
    · -- the only entry of the last table is a large page
      rw [sampleTree_entry (by decide) hj] at hpresent hps
      by_cases hzero : j = 0
      · subst hzero
        exact absurd hps (by decide)
      · simp [hzero] at hpresent

theorem tree_sampleTree : Tree 0x1000 sampleTree where
  aligned := rfl
  separated := by
    rintro r rfl r' rfl q q' hq hq' x hx hx'
    refine ⟨rfl, ?_⟩
    rcases sampleTree_node hq hx with ⟨rfl, rfl⟩ | ⟨rfl, rfl⟩ | ⟨rfl, rfl⟩ <;>
      rcases sampleTree_node hq' hx' with ⟨rfl, h⟩ | ⟨rfl, h⟩ | ⟨rfl, h⟩ <;>
      first | rfl | exact absurd h (by decide)
  noGiant := by
    intro q x j hlength hq hx _
    rcases sampleTree_node hq.init hx with ⟨rfl, rfl⟩ | ⟨rfl, rfl⟩ | ⟨rfl, rfl⟩
    · rw [sampleTree_entry (by decide) hq.last_lt]
      split_ifs <;> first | decide | simp_all
    · rw [sampleTree_entry (by decide) hq.last_lt]
      split_ifs <;> first | decide | simp_all
    · exact absurd hlength (by decide)
  large := by
    intro q x j hlength hq hx _ _
    rcases sampleTree_node hq.init hx with ⟨rfl, rfl⟩ | ⟨rfl, rfl⟩ | ⟨rfl, rfl⟩
    · exact absurd hlength (by decide)
    · exact absurd hlength (by decide)
    · rw [sampleTree_entry (by decide) hq.last_lt]
      split_ifs <;> first | decide | simp_all

end Keuos.Paging
