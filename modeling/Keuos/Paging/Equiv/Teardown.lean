import Keuos.Paging.Defs
import Keuos.Paging.Equiv.Map

/-!
# What the teardown of an address space frees

`Reaches m root n depth x` says that a path of at most `depth` entries, the first of them below entry
`n`, leads from the table at `root` to the page `x`.

## Main results

* `atomicPageSweep_reaches`: the sweep frees only pages that the entries of the user half lead to.
* `destroyUserPml4_spec`: `destroy_user_pml4` frees the tables and the pages that are not marked as
  shared, each once if they are different.
* `mem_destroyUserPml4`: it frees every page that is not marked.
-/

namespace Keuos.Paging

/-- A path of at most `depth` entries, the first of them below entry `n`, leads to `x`. -/
def Reaches (m : Mem) (root : UInt64) (n depth : Nat) (x : UInt64) : Prop :=
  ∃ (j : UInt64) (q : List UInt64), j.toNat < n ∧ q.length < depth ∧ (∀ i ∈ q, i.toNat < 512) ∧
    table m root (j :: q) = some x

section Reaches

variable {m : Mem} {root t j x : UInt64} {n depth : Nat}

theorem table_cons (q : List UInt64) :
    table m root (j :: q) = (follow m root j).bind fun t => table m t q := by
  unfold table Forest.walk
  rw [List.foldlM_cons]
  rfl

theorem reaches_of_follow (hj : j.toNat < n) (hfollow : follow m root j = some x) :
    Reaches m root n (depth + 1) x := by
  refine ⟨j, [], hj, Nat.succ_pos depth, fun i hi => absurd hi List.not_mem_nil, ?_⟩
  rw [table_cons, hfollow, Option.bind_some]
  exact Forest.walk_nil _ x

theorem Reaches.up (hj : j.toNat < n) (hfollow : follow m root j = some t)
    (h : Reaches m t 512 depth x) : Reaches m root n (depth + 1) x := by
  obtain ⟨k, q, hk, hlength, hq, hx⟩ := h
  refine ⟨j, k :: q, hj, Nat.succ_lt_succ hlength, ?_, ?_⟩
  · intro i hi
    rcases List.mem_cons.mp hi with rfl | hi
    · exact hk
    · exact hq i hi
  · rw [table_cons, hfollow, Option.bind_some]
    exact hx

end Reaches

/-! ### The sweep -/

/-- Every aligned word is as it was in `m₀`, or was cleared. -/
def Cleared (m₀ m : Mem) : Prop :=
  ∀ a : UInt64, a.toNat % 8 = 0 → m.read64 a = m₀.read64 a ∨ m.read64 a = 0

section Sweep

variable {m₀ : Mem}

theorem cleared_refl (m : Mem) : Cleared m m := fun _ _ => .inl rfl

theorem Cleared.clear {m : Mem} (h : Cleared m₀ m) {t : UInt64} (ht : PageAligned t) (i : UInt64) :
    Cleared m₀ (m.write64 (entryAddr t i) 0) := by
  intro a ha
  by_cases hne : a = entryAddr t i
  · rw [hne, Mem.read64_write64_self]
    exact .inr rfl
  · rw [Mem.read64_write64_of_ne (entryAddr_aligned ht i) ha hne]
    exact h a ha

theorem Cleared.follow {m : Mem} (h : Cleared m₀ m) {t i : UInt64} (ht : PageAligned t)
    (hlive : entryPresent (m.read64 (entryAddr t i)) = true) :
    follow m₀ t i = some (m.read64 (entryAddr t i) &&& addrMask) := by
  unfold entryPresent at hlive
  rcases h (entryAddr t i) (entryAddr_aligned ht i) with hsame | hzero
  · rw [follow_eq_some, ← hsame]
    exact ⟨by simpa using hlive, rfl⟩
  · rw [hzero] at hlive
    exact absurd hlive (by decide)

/-- What an action on an entry may do: it frees the page of the entry and pages below it, and only
clears words. -/
def Acts (m₀ : Mem) (depth : Nat) (act : UInt64 → Mem → List UInt64 × Mem) : Prop :=
  ∀ entry m, Cleared m₀ m → Cleared m₀ (act entry m).2 ∧ ∀ x ∈ (act entry m).1,
    x = entry &&& addrMask ∨ Reaches m₀ (entry &&& addrMask) 512 depth x

/-- **The loop of a sweep** frees pages that its entries lead to. -/
theorem sweepFrom_reaches {live : UInt64 → Bool} {act : UInt64 → Mem → List UInt64 × Mem}
    {depth : Nat} (hlive : ∀ entry, live entry = true → entryPresent entry = true)
    (hact : Acts m₀ depth act) {t : UInt64} (ht : PageAligned t) {stop : Nat} :
    ∀ (n : Nat) (i : UInt64) (m : Mem), i.toNat + n ≤ stop → Cleared m₀ m →
      Cleared m₀ (sweepFrom live act t n i m).2 ∧
        ∀ x ∈ (sweepFrom live act t n i m).1, Reaches m₀ t stop (depth + 1) x := by
  intro n
  induction n with
  | zero =>
    intro i m _ hm
    exact ⟨hm, fun x hx => absurd hx List.not_mem_nil⟩
  | succ n ih =>
    intro i m hi hm
    have hnext : (i + 1).toNat + n ≤ stop := by
      rw [UInt64.toNat_add, show (1 : UInt64).toNat = 1 from rfl]
      omega
    rw [sweepFrom]
    by_cases hentry : live (m.read64 (entryAddr t i)) = true
    · rw [if_pos hentry]
      obtain ⟨hm₁, hfreed⟩ := hact (m.read64 (entryAddr t i)) m hm
      obtain ⟨hm₂, hrest⟩ := ih (i + 1) _ hnext (hm₁.clear ht i)
      refine ⟨hm₂, fun x hx => ?_⟩
      rcases List.mem_append.mp hx with hx | hx
      · have hfollow := hm.follow ht (hlive _ hentry)
        have hi' : i.toNat < stop := by omega
        rcases hfreed x hx with rfl | hbelow
        · exact reaches_of_follow hi' hfollow
        · exact hbelow.up hi' hfollow
      · exact hrest x hx
    · rw [if_neg hentry]
      exact ih (i + 1) m hnext hm

theorem acts_sweepEntry {depth : Nat} {below : Mem → UInt64 → List UInt64 × Mem}
    (hbelow : ∀ m t, Cleared m₀ m → PageAligned t →
      Cleared m₀ (below m t).2 ∧ ∀ x ∈ (below m t).1, Reaches m₀ t 512 depth x) :
    Acts m₀ depth (sweepEntry below) := by
  intro entry m hm
  unfold sweepEntry
  dsimp only
  split
  · exact ⟨hm, fun x hx => .inl (List.mem_singleton.mp hx)⟩
  · obtain ⟨hm', hfreed⟩ := hbelow m _ hm (pageAligned_and_addrMask entry)
    refine ⟨hm', fun x hx => ?_⟩
    rcases List.mem_append.mp hx with hx | hx
    · exact .inr (hfreed x hx)
    · exact .inl (List.mem_singleton.mp hx)

variable {m : Mem} {t : UInt64}

theorem sweepPt_reaches (hm : Cleared m₀ m) (ht : PageAligned t) :
    Cleared m₀ (sweepPt m t).2 ∧ ∀ x ∈ (sweepPt m t).1, Reaches m₀ t 512 1 x := by
  unfold sweepPt
  refine sweepFrom_reaches (fun _ h => h) ?_ ht pml4Entries 0 m (by decide) hm
  exact fun entry m hm => ⟨hm, fun x hx => .inl (List.mem_singleton.mp hx)⟩

theorem sweepPd_reaches (hm : Cleared m₀ m) (ht : PageAligned t) :
    Cleared m₀ (sweepPd m t).2 ∧ ∀ x ∈ (sweepPd m t).1, Reaches m₀ t 512 2 x := by
  unfold sweepPd
  exact sweepFrom_reaches (fun _ h => h) (acts_sweepEntry fun _ _ => sweepPt_reaches) ht
    pml4Entries 0 m (by decide) hm

theorem sweepPdpt_reaches (hm : Cleared m₀ m) (ht : PageAligned t) :
    Cleared m₀ (sweepPdpt m t).2 ∧ ∀ x ∈ (sweepPdpt m t).1, Reaches m₀ t 512 3 x := by
  unfold sweepPdpt
  exact sweepFrom_reaches (fun _ h => h) (acts_sweepEntry fun _ _ => sweepPd_reaches) ht
    pml4Entries 0 m (by decide) hm

end Sweep

/-- **The sweep** frees only pages that the entries of the user half lead to. -/
theorem atomicPageSweep_reaches {m : Mem} {pml4 : UInt64} (hpml4 : PageAligned pml4) :
    ∀ x ∈ (atomicPageSweep m pml4).1, Reaches m pml4 userEntries 4 x := by
  intro x hx
  unfold atomicPageSweep at hx
  by_cases hzero : (pml4 == 0) = true
  · rw [if_pos hzero] at hx
    exact absurd hx List.not_mem_nil
  · rw [if_neg hzero] at hx
    refine (sweepFrom_reaches ?_ (acts_sweepEntry fun _ _ => sweepPdpt_reaches) hpml4
      userEntries 0 m (by decide) (cleared_refl m)).2 x hx
    intro entry hentry
    exact (Bool.and_eq_true_iff.mp hentry).1

/-! ### The recursive walk -/

/-- The walk frees the page `x` at the end of the path `p`: a table, or a page of the address space that
is not marked as shared. -/
inductive Frees (m : Mem) (root : UInt64) : List UInt64 → UInt64 → Prop
  | table {p : List UInt64} {x : UInt64} (hp : UserPath p) (hx : table m root p = some x) :
    Frees m root p x
  | page {v : UInt64} (hv : v < userAddrLimit) (hpresent : leaf m root v &&& ptePresent ≠ 0)
      (hprivate : leaf m root v &&& pteSharedBit = 0) :
    Frees m root (path v ++ [ptIndex v]) (leaf m root v &&& addrMask)

theorem Frees.inv {m : Mem} {root x : UInt64} {p : List UInt64} (h : Frees m root p x) :
    (UserPath p ∧ Paging.table m root p = some x) ∨ ∃ v, v < userAddrLimit ∧
      leaf m root v &&& ptePresent ≠ 0 ∧ leaf m root v &&& pteSharedBit = 0 ∧
      p = path v ++ [ptIndex v] ∧ x = leaf m root v &&& addrMask := by
  cases h with
  | table hp hx => exact .inl ⟨hp, hx⟩
  | page hv hpresent hprivate => exact .inr ⟨_, hv, hpresent, hprivate, rfl, rfl⟩

section Destroy

variable {m : Mem}

theorem destroyFrom_spec {R : List UInt64 → UInt64 → Prop}
    (hinj : ∀ p p' x, R p x → R p' x → p = p') {t : UInt64} {q : List UInt64}
    {act : UInt64 → List UInt64} {stop : Nat}
    (hact : ∀ j : UInt64, j.toNat < stop → entryPresent (m.read64 (entryAddr t j)) = true →
      (act (m.read64 (entryAddr t j))).Nodup ∧
        ∀ x ∈ act (m.read64 (entryAddr t j)), ∃ r, R (q ++ j :: r) x) :
    ∀ (n : Nat) (i : UInt64), i.toNat + n ≤ stop → stop ≤ 512 →
      (destroyFrom m act t n i).Nodup ∧ ∀ x ∈ destroyFrom m act t n i,
        ∃ (j : UInt64) (r : List UInt64), i.toNat ≤ j.toNat ∧ R (q ++ j :: r) x := by
  intro n
  induction n with
  | zero =>
    intro i _ _
    exact ⟨List.nodup_nil, fun x hx => absurd hx List.not_mem_nil⟩
  | succ n ih =>
    intro i hi hstop
    have hnext : (i + 1).toNat = i.toNat + 1 := by
      rw [UInt64.toNat_add, show (1 : UInt64).toNat = 1 from rfl]
      omega
    obtain ⟨hnodup, hrest⟩ := ih (i + 1) (by omega) hstop
    rw [hnext] at hrest
    rw [destroyFrom]
    by_cases hpresent : entryPresent (m.read64 (entryAddr t i)) = true
    · rw [if_pos hpresent]
      obtain ⟨hhere, hmem⟩ := hact i (by omega) hpresent
      refine ⟨List.nodup_append.mpr ⟨hhere, hnodup, ?_⟩, ?_⟩
      · -- the two parts come from different entries
        rintro x hx y hy rfl
        obtain ⟨r, hr⟩ := hmem x hx
        obtain ⟨j, r', hj, hr'⟩ := hrest x hy
        have hpaths := List.append_cancel_left (hinj _ _ x hr hr')
        rw [(List.cons.inj hpaths).1] at hj
        omega
      · intro x hx
        rcases List.mem_append.mp hx with hx | hx
        · obtain ⟨r, hr⟩ := hmem x hx
          exact ⟨i, r, Nat.le_refl _, hr⟩
        · obtain ⟨j, r, hj, hr⟩ := hrest x hx
          exact ⟨j, r, by omega, hr⟩
    · rw [if_neg hpresent]
      refine ⟨hnodup, fun x hx => ?_⟩
      obtain ⟨j, r, hj, hr⟩ := hrest x hx
      exact ⟨j, r, by omega, hr⟩

theorem nodup_destroyEntry {R : List UInt64 → UInt64 → Prop}
    (hinj : ∀ p p' x, R p x → R p' x → p = p') {below : UInt64 → List UInt64} {entry : UInt64}
    {p : List UInt64} (hself : R p (entry &&& addrMask)) (hnodup : (below (entry &&& addrMask)).Nodup)
    (hbelow : ∀ x ∈ below (entry &&& addrMask), ∃ (j : UInt64) (r : List UInt64), R (p ++ j :: r) x) :
    (destroyEntry below entry).Nodup ∧ ∀ x ∈ destroyEntry below entry, ∃ r, R (p ++ r) x := by
  unfold destroyEntry
  refine ⟨List.nodup_append.mpr ⟨hnodup, List.nodup_singleton _, ?_⟩, ?_⟩
  · rintro x hx y hy rfl
    rw [List.mem_singleton.mp hy] at hx
    obtain ⟨j, r, hr⟩ := hbelow _ hx
    have hlength := congrArg List.length (hinj _ _ _ hr hself)
    rw [List.length_append, List.length_cons] at hlength
    omega
  · intro x hx
    rcases List.mem_append.mp hx with hx | hx
    · obtain ⟨j, r, hr⟩ := hbelow x hx
      exact ⟨j :: r, hr⟩
    · rw [List.mem_singleton.mp hx]
      exact ⟨[], by rw [List.append_nil]; exact hself⟩

variable {root : UInt64}

theorem exists_vaddr {a b c d : UInt64} (hq : UserPath [a, b, c]) (hd : d.toNat < 512) :
    ∃ v : UInt64, v < userAddrLimit ∧ path v = [a, b, c] ∧ ptIndex v = d := by
  have ha := hq.user a rfl
  have hb := hq.index_lt b (by simp)
  have hc := hq.index_lt c (by simp)
  obtain ⟨v, hnat⟩ : ∃ v : UInt64, v.toNat =
      a.toNat * 2 ^ 39 + b.toNat * 2 ^ 30 + c.toNat * 2 ^ 21 + d.toNat * 2 ^ 12 := by
    refine ⟨UInt64.ofNat _, UInt64.toNat_ofNat_of_lt' ?_⟩
    rw [show UInt64.size = 2 ^ 64 from rfl]
    omega
  have h₁ : pml4Index v = a := by
    rw [← UInt64.toNat_inj, toNat_pml4Index, hnat]
    omega
  have h₂ : pdpIndex v = b := by
    rw [← UInt64.toNat_inj, toNat_pdpIndex, hnat]
    omega
  have h₃ : pdIndex v = c := by
    rw [← UInt64.toNat_inj, toNat_pdIndex, hnat]
    omega
  have h₄ : ptIndex v = d := by
    rw [← UInt64.toNat_inj, toNat_ptIndex, hnat]
    omega
  refine ⟨v, ?_, ?_, h₄⟩
  · rw [UInt64.lt_iff_toNat_lt, hnat, show userAddrLimit.toNat = 2 ^ 47 from rfl]
    omega
  · unfold path
    rw [h₁, h₂, h₃]

theorem table_append_follow {q : List UInt64} {t j x : UInt64} (ht : table m root q = some t)
    (hx : follow m t j = some x) : table m root (q ++ [j]) = some x :=
  (Forest.walk_append_singleton_eq_some _).mpr ⟨t, ht, hx⟩

theorem follow_of_entryPresent {t j : UInt64} (h : entryPresent (m.read64 (entryAddr t j)) = true) :
    follow m t j = some (m.read64 (entryAddr t j) &&& addrMask) :=
  follow_eq_some.mpr ⟨by simpa [entryPresent] using h, rfl⟩

theorem UserPath.snoc {q : List UInt64} (hq : UserPath q) (hlength : q.length ≤ 2) (hne : q ≠ [])
    {j : UInt64} (hj : j.toNat < 512) : UserPath (q ++ [j]) := by
  refine ⟨?_, ?_, ?_⟩
  · rw [List.length_append, List.length_singleton]
    omega
  · intro i hi
    rcases List.mem_append.mp hi with hi | hi
    · exact hq.index_lt i hi
    · rw [List.mem_singleton.mp hi]
      exact hj
  · intro i hi
    obtain ⟨k, q, rfl⟩ := List.exists_cons_of_ne_nil hne
    exact hq.user i hi

theorem userPath_singleton {j : UInt64} (hj : j.toNat < 256) : UserPath [j] := by
  refine ⟨by simp, ?_, ?_⟩
  · intro i hi
    rw [List.mem_singleton.mp hi]
    omega
  · intro i hi
    obtain rfl : j = i := Option.some.inj hi
    exact hj

section Levels

variable (hinj : ∀ p p' x, Frees m root p x → Frees m root p' x → p = p')
include hinj

theorem destroyPt_spec {q : List UInt64} {t : UInt64} (hq : UserPath q) (hlength : q.length = 3)
    (ht : table m root q = some t) :
    (destroyPt m t).Nodup ∧ ∀ x ∈ destroyPt m t,
      ∃ (j : UInt64) (r : List UInt64), Frees m root (q ++ j :: r) x := by
  have hact : ∀ j : UInt64, j.toNat < 512 → entryPresent (m.read64 (entryAddr t j)) = true →
      (if m.read64 (entryAddr t j) &&& pteSharedBit == 0 then [m.read64 (entryAddr t j) &&& addrMask]
        else []).Nodup ∧
      ∀ x ∈ (if m.read64 (entryAddr t j) &&& pteSharedBit == 0 then
        [m.read64 (entryAddr t j) &&& addrMask] else []), ∃ r, Frees m root (q ++ j :: r) x := by
    intro j hj hpresent
    split
    · next hprivate =>
      refine ⟨List.nodup_singleton _, fun x hx => ⟨[], ?_⟩⟩
      rw [List.mem_singleton.mp hx]
      obtain ⟨a, b, c, rfl⟩ := List.length_eq_three.mp hlength
      obtain ⟨v, hv, hpath, hindex⟩ := exists_vaddr hq hj
      have hleaf : leaf m root v = m.read64 (entryAddr t j) := by
        rw [← hpath] at ht
        rw [leaf_of_table ht, hindex]
      have hlive : leaf m root v &&& ptePresent ≠ 0 := by
        rw [hleaf]
        simpa [entryPresent] using hpresent
      have hfrees := Frees.page hv hlive (by rw [hleaf]; exact beq_iff_eq.mp hprivate)
      rw [hleaf, hpath, hindex] at hfrees
      exact hfrees
    · exact ⟨List.nodup_nil, fun x hx => absurd hx List.not_mem_nil⟩
  obtain ⟨hnodup, hmem⟩ := @destroyFrom_spec m (Frees m root) hinj t q
    (fun entry => if entry &&& pteSharedBit == 0 then [entry &&& addrMask] else []) 512 hact
    pml4Entries 0 (by decide) (by decide)
  refine ⟨hnodup, fun x hx => ?_⟩
  obtain ⟨j, r, -, hr⟩ := hmem x hx
  exact ⟨j, r, hr⟩

theorem destroyLevel_spec {q : List UInt64} {t : UInt64} {below : UInt64 → List UInt64} {n : Nat}
    (hn : n ≤ 512) (hq : ∀ j : UInt64, j.toNat < n → UserPath (q ++ [j]))
    (ht : table m root q = some t)
    (hbelow : ∀ j : UInt64, j.toNat < n → ∀ t', table m root (q ++ [j]) = some t' →
      (below t').Nodup ∧ ∀ x ∈ below t', ∃ (j' : UInt64) (r : List UInt64),
        Frees m root (q ++ [j] ++ j' :: r) x) :
    (destroyFrom m (destroyEntry below) t n 0).Nodup ∧
      ∀ x ∈ destroyFrom m (destroyEntry below) t n 0,
        ∃ (j : UInt64) (r : List UInt64), Frees m root (q ++ j :: r) x := by
  have hact : ∀ j : UInt64, j.toNat < n → entryPresent (m.read64 (entryAddr t j)) = true →
      (destroyEntry below (m.read64 (entryAddr t j))).Nodup ∧
        ∀ x ∈ destroyEntry below (m.read64 (entryAddr t j)), ∃ r, Frees m root (q ++ j :: r) x := by
    intro j hj hpresent
    have htable := table_append_follow ht (follow_of_entryPresent hpresent)
    obtain ⟨hnodup, hmem⟩ := hbelow j hj _ htable
    obtain ⟨hentry, hentryMem⟩ :=
      nodup_destroyEntry hinj (.table (hq j hj) htable) hnodup hmem
    refine ⟨hentry, fun x hx => ?_⟩
    obtain ⟨r, hr⟩ := hentryMem x hx
    rw [List.append_assoc] at hr
    exact ⟨r, hr⟩
  obtain ⟨hnodup, hmem⟩ := destroyFrom_spec hinj hact n 0
    (by rw [UInt64.toNat_zero, Nat.zero_add]) hn
  refine ⟨hnodup, fun x hx => ?_⟩
  obtain ⟨j, r, -, hr⟩ := hmem x hx
  exact ⟨j, r, hr⟩

theorem destroyPd_spec {q : List UInt64} {t : UInt64} (hq : UserPath q) (hlength : q.length = 2)
    (ht : table m root q = some t) :
    (destroyPd m t).Nodup ∧ ∀ x ∈ destroyPd m t,
      ∃ (j : UInt64) (r : List UInt64), Frees m root (q ++ j :: r) x := by
  have hstep : ∀ j : UInt64, j.toNat < 512 → UserPath (q ++ [j]) := fun j hj =>
    hq.snoc (by omega) (by rintro rfl; exact absurd hlength (by decide)) hj
  refine destroyLevel_spec hinj (n := pml4Entries) (by decide) hstep ht ?_
  intro j hj t' ht'
  exact destroyPt_spec hinj (hstep j hj) (by simp [hlength]) ht'

theorem destroyPdp_spec {q : List UInt64} {t : UInt64} (hq : UserPath q) (hlength : q.length = 1)
    (ht : table m root q = some t) :
    (destroyPdp m t).Nodup ∧ ∀ x ∈ destroyPdp m t,
      ∃ (j : UInt64) (r : List UInt64), Frees m root (q ++ j :: r) x := by
  have hstep : ∀ j : UInt64, j.toNat < 512 → UserPath (q ++ [j]) := fun j hj =>
    hq.snoc (by omega) (by rintro rfl; exact absurd hlength (by decide)) hj
  refine destroyLevel_spec hinj (n := pml4Entries) (by decide) hstep ht ?_
  intro j hj t' ht'
  exact destroyPd_spec hinj (hstep j hj) (by simp [hlength]) ht'

/-- **What `destroy_user_pml4` frees.** -/
theorem destroyUserPml4_spec :
    (destroyUserPml4 m root).Nodup ∧ ∀ x ∈ destroyUserPml4 m root, ∃ p, Frees m root p x := by
  have hroot : Frees m root [] root := .table ⟨by decide, by simp, by simp⟩ rfl
  obtain ⟨hnodup, hmem⟩ := destroyLevel_spec (q := []) (t := root) (n := userEntries) hinj
    (by decide) (fun j hj => userPath_singleton hj) rfl fun j hj t' ht' =>
      destroyPdp_spec hinj (userPath_singleton hj) rfl ht'
  unfold destroyUserPml4
  refine ⟨List.nodup_append.mpr ⟨hnodup, List.nodup_singleton _, ?_⟩, ?_⟩
  · rintro x hx y hy rfl
    rw [List.mem_singleton.mp hy] at hx
    obtain ⟨j, r, hr⟩ := hmem root hx
    exact absurd (hinj _ _ _ hr hroot) (by simp)
  · intro x hx
    rcases List.mem_append.mp hx with hx | hx
    · obtain ⟨j, r, hr⟩ := hmem x hx
      exact ⟨_, hr⟩
    · rw [List.mem_singleton.mp hx]
      exact ⟨[], hroot⟩

end Levels

/-! ### Pages that are not marked -/

theorem mem_destroyFrom {act : UInt64 → List UInt64} {t x j : UInt64}
    (hpresent : m.read64 (entryAddr t j) &&& ptePresent ≠ 0)
    (hx : x ∈ act (m.read64 (entryAddr t j))) :
    ∀ (n : Nat) (i : UInt64), i.toNat ≤ j.toNat → j.toNat < i.toNat + n → i.toNat + n ≤ 512 →
      x ∈ destroyFrom m act t n i := by
  have hlive : entryPresent (m.read64 (entryAddr t j)) = true := by simpa [entryPresent] using hpresent
  intro n
  induction n with
  | zero =>
    intro i hij hji _
    omega
  | succ n ih =>
    intro i hij hji hi
    rw [destroyFrom]
    by_cases heq : i = j
    · subst heq
      rw [if_pos hlive]
      exact List.mem_append_left _ hx
    · have hnext : (i + 1).toNat = i.toNat + 1 := by
        rw [UInt64.toNat_add, show (1 : UInt64).toNat = 1 from rfl]
        omega
      have hne : i.toNat ≠ j.toNat := fun h => heq (UInt64.toNat_inj.mp h)
      have hrest := ih (i + 1) (by omega) (by omega) (by omega)
      split
      · exact List.mem_append_right _ hrest
      · exact hrest

theorem mem_destroyTable {act : UInt64 → List UInt64} {t x j : UInt64} {n : Nat}
    (hpresent : m.read64 (entryAddr t j) &&& ptePresent ≠ 0) (hj : j.toNat < n) (hn : n ≤ 512)
    (hx : x ∈ act (m.read64 (entryAddr t j))) : x ∈ destroyFrom m act t n 0 := by
  refine mem_destroyFrom hpresent hx n 0 (Nat.zero_le _) ?_ ?_
  · rw [UInt64.toNat_zero, Nat.zero_add]
    exact hj
  · rw [UInt64.toNat_zero, Nat.zero_add]
    exact hn

theorem mem_destroyLevels {act : UInt64 → List UInt64} {v pt x : UInt64} (hv : v < userAddrLimit)
    (hpt : table m root (path v) = some pt)
    (hpresent : m.read64 (entryAddr pt (ptIndex v)) &&& ptePresent ≠ 0)
    (hx : x ∈ act (m.read64 (entryAddr pt (ptIndex v)))) :
    x ∈ destroyFrom m (destroyEntry fun pdp => destroyFrom m (destroyEntry fun pd =>
      destroyFrom m (destroyEntry fun pt => destroyFrom m act pt pml4Entries 0) pd pml4Entries 0)
        pdp pml4Entries 0) root userEntries 0 := by
  obtain ⟨pml4e, pdpe, pde, ⟨rfl, h₁⟩, ⟨rfl, h₂⟩, ⟨rfl, h₃⟩, rfl⟩ := entries_of_table hpt
  have hpath := userPath_path hv
  refine mem_destroyTable h₁ (hpath.user (pml4Index v) rfl) (by decide) (List.mem_append_left _ ?_)
  refine mem_destroyTable h₂ (hpath.index_lt (pdpIndex v) (by simp [path])) (by decide)
    (List.mem_append_left _ ?_)
  refine mem_destroyTable h₃ (hpath.index_lt (pdIndex v) (by simp [path])) (by decide)
    (List.mem_append_left _ ?_)
  exact mem_destroyTable hpresent (ptIndex_lt v) (by decide) hx

/-- **Every page that is not marked as shared is freed.** -/
theorem mem_destroyUserPml4 {v : UInt64} (hv : v < userAddrLimit)
    (hpresent : leaf m root v &&& ptePresent ≠ 0) (hprivate : leaf m root v &&& pteSharedBit = 0) :
    leaf m root v &&& addrMask ∈ destroyUserPml4 m root := by
  obtain ⟨pt, hpt⟩ := exists_table_of_present hpresent
  rw [leaf_of_table hpt] at hpresent hprivate ⊢
  unfold destroyUserPml4
  refine List.mem_append_left _ (mem_destroyLevels hv hpt hpresent ?_)
  rw [if_pos (beq_iff_eq.mpr hprivate)]
  exact List.mem_singleton_self _

end Destroy

end Keuos.Paging
