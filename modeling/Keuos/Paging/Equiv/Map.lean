import Keuos.Paging.Equiv.Tables

/-!
# Mapping and unmapping a page

`walkOrCreate_spec` says what one level of the walk does: it ends at a table of the next level, which
was there or is new, and no leaf entry of any address space changes.  Three of them and one store of a
leaf entry make `map_user_page`, so mapping a page changes the leaf entries of that page only.
-/

namespace Keuos.Paging

/-! ### Entry bits -/

theorem and_addrMask_of_aligned {a : UInt64} (ha : PageAligned a) (hsmall : a.toNat < 2 ^ 52) :
    a &&& addrMask = a := by
  unfold PageAligned at ha
  rw [← UInt64.toNat_inj, UInt64.toNat_and, show addrMask.toNat = 2 ^ 52 - 2 ^ 12 from rfl,
    and_highBits (by decide) hsmall]
  omega

theorem addr_and_eq_zero {a mask : UInt64} (ha : a &&& addrMask = a)
    (hmask : addrMask &&& mask = 0) : a &&& mask = 0 := by
  rw [← ha, UInt64.and_assoc, hmask, UInt64.and_zero]

theorem allowed_and_eq_zero (flags : UInt64) {mask : UInt64}
    (hmask : (pteUser ||| pteWrite) &&& mask = 0) :
    (flags &&& (pteUser ||| pteWrite)) &&& mask = 0 := by
  rw [UInt64.and_assoc, hmask, UInt64.and_zero]

section Entry

variable {a flags : UInt64}

theorem newEntry_addr (ha : a &&& addrMask = a) :
    (a ||| ptePresent ||| (flags &&& (pteUser ||| pteWrite))) &&& addrMask = a := by
  rw [and_or_distrib, and_or_distrib, ha, allowed_and_eq_zero flags (by decide),
    show ptePresent &&& addrMask = 0 from by decide, UInt64.or_zero, UInt64.or_zero]

theorem newEntry_ps (ha : a &&& addrMask = a) :
    (a ||| ptePresent ||| (flags &&& (pteUser ||| pteWrite))) &&& ptePs = 0 := by
  rw [and_or_distrib, and_or_distrib, addr_and_eq_zero ha (by decide),
    allowed_and_eq_zero flags (by decide), show ptePresent &&& ptePs = 0 from by decide,
    UInt64.or_zero, UInt64.or_zero]

theorem newEntry_present (ha : a &&& addrMask = a) :
    (a ||| ptePresent ||| (flags &&& (pteUser ||| pteWrite))) &&& ptePresent ≠ 0 := by
  rw [and_or_distrib, and_or_distrib, addr_and_eq_zero ha (by decide),
    allowed_and_eq_zero flags (by decide)]
  decide

end Entry

/-! ### One level -/

/-- The answers of `pmm.alloc` are different pages that are no tables. -/
structure FreshAnswers (roots : Set UInt64) (m : Mem) (answers : List UInt64) : Prop where
  nodup : answers.Nodup
  fresh : ∀ a ∈ answers, FreshFrame roots m a

/-- The number of tables that a walk along `rest`, from the end of `q` on, has to create. -/
def missing (m : Mem) (root : UInt64) (q : List UInt64) : List UInt64 → Nat
  | [] => 0
  | i :: rest =>
    if (table m root (q ++ [i])).isNone then rest.length + 1 else missing m root (q ++ [i]) rest

theorem missing_le_length (m : Mem) (root : UInt64) (q rest : List UInt64) :
    missing m root q rest ≤ rest.length := by
  induction rest generalizing q with
  | nil => exact Nat.le_refl 0
  | cons i rest ih =>
    unfold missing
    split
    · exact Nat.le_refl _
    · exact Nat.le_succ_of_le (ih (q ++ [i]))

theorem missing_congr {m m' : Mem} {root : UInt64} {q rest : List UInt64}
    (h : ∀ q', UserPath q' → table m' root q' = table m root q') (hq : UserPath (q ++ rest)) :
    missing m' root q rest = missing m root q rest := by
  induction rest generalizing q with
  | nil => rfl
  | cons i rest ih =>
    have hassoc : q ++ i :: rest = q ++ [i] ++ rest := by simp
    rw [hassoc] at hq
    unfold missing
    rw [h (q ++ [i]) (userPath_of_append hq), ih hq]

theorem missing_eq_zero {m : Mem} {root x : UInt64} {q rest : List UInt64}
    (h : table m root (q ++ rest) = some x) : missing m root q rest = 0 := by
  induction rest generalizing q with
  | nil => rfl
  | cons i rest ih =>
    have hassoc : q ++ i :: rest = q ++ [i] ++ rest := by simp
    rw [hassoc] at h
    have hsome : ∃ y, table m root (q ++ [i]) = some y := by
      unfold table Forest.walk at h ⊢
      rw [List.foldlM_append] at h
      obtain ⟨y, hy, -⟩ := Option.bind_eq_some_iff.mp h
      exact ⟨y, hy⟩
    obtain ⟨y, hy⟩ := hsome
    rw [missing, hy, Option.isNone_some, if_neg (by decide), ih h]

/-- What a walk that ends at the table `x`, at the end of `q`, has done. -/
structure Walked (roots : Set UInt64) (s s' : Vm) (root : UInt64) (q : List UInt64) (x : UInt64) :
    Prop where
  tables : Tables roots s'.mem
  table_eq : table s'.mem root q = some x
  leaves : ∀ r ∈ roots, ∀ v, v < userAddrLimit → leaf s'.mem r v = leaf s.mem r v
  fresh : FreshAnswers roots s'.mem s'.answers

/-- The stores that led from `m` to `m'` went to tables of `root`. -/
def OnlyTables (m m' : Mem) (root : UInt64) : Prop :=
  ∀ y, (∀ q t, UserPath q → table m' root q = some t → ¬ InBlock (Pmm.physToVirt t) 4096 y) →
    m' y = m y

/-- A walk that has created the tables `used` on its path, and no others. -/
structure Grown (roots : Set UInt64) (s s' : Vm) (root : UInt64) (q : List UInt64) (x : UInt64)
    (used : List UInt64) : Prop extends Walked roots s s' root q x where
  answers : s.answers = used ++ s'.answers
  keeps : ∀ r ∈ roots, ∀ q, UserPath q → ∀ x, table s.mem r q = some x → table s'.mem r q = some x
  adds : ∀ r ∈ roots, ∀ q, UserPath q → ∀ x, table s'.mem r q = some x →
    table s.mem r q = some x ∨ (r = root ∧ x ∈ used)
  placed : ∀ a ∈ used, ∃ q', q' ≠ [] ∧ q' <+: q ∧ table s'.mem root q' = some a
  only : OnlyTables s.mem s'.mem root

section Walk

variable {roots : Set UInt64} {s : Vm} {root t i flags : UInt64} {p : List UInt64}

theorem walkOrCreate_present (flags : UInt64) {e : UInt64} (he : s.mem.read64 (entryAddr t i) = e)
    (hpresent : e &&& ptePresent ≠ 0) (hps : e &&& ptePs = 0) :
    walkOrCreate s t i flags = (e &&& addrMask, s) ∨
      walkOrCreate s t i flags = (e &&& addrMask,
        { s with mem := s.mem.write64 (entryAddr t i) (e ||| (flags &&& (pteUser ||| pteWrite))) }) := by
  unfold walkOrCreate
  dsimp only
  rw [he, if_pos (bne_iff_ne.mpr hpresent), if_neg (by simpa using hps)]
  split
  · exact .inr rfl
  · exact .inl rfl

theorem walkOrCreate_absent {e a : UInt64} {rest : List UInt64}
    (he : s.mem.read64 (entryAddr t i) = e) (habsent : e &&& ptePresent = 0)
    (hanswers : s.answers = a :: rest) (ha : a ≠ 0) :
    walkOrCreate s t i flags =
      (a, { mem := (zeroPage s.mem a).write64 (entryAddr t i)
              (a ||| ptePresent ||| (flags &&& (pteUser ||| pteWrite)))
            answers := rest }) := by
  have halloc : s.alloc = (a, { s with answers := rest }) := by
    unfold Vm.alloc
    rw [hanswers]
  unfold walkOrCreate
  dsimp only
  rw [he, if_neg (by simpa using habsent), halloc]
  dsimp only
  rw [if_neg (by simpa using ha)]

theorem table_append_of_present (ht : table s.mem root p = some t) {e : UInt64}
    (he : s.mem.read64 (entryAddr t i) = e) (hpresent : e &&& ptePresent ≠ 0) :
    table s.mem root (p ++ [i]) = some (e &&& addrMask) := by
  unfold table at ht ⊢
  rw [Forest.walk_append_singleton, ht, Option.bind_some]
  refine follow_eq_some.mpr ⟨?_, ?_⟩
  · rw [he]
    exact hpresent
  · rw [he]

theorem table_append_of_absent {m : Mem} (ht : table m root p = some t)
    (habsent : m.read64 (entryAddr t i) &&& ptePresent = 0) : table m root (p ++ [i]) = none := by
  unfold table at ht ⊢
  rw [Forest.walk_append_singleton, ht, Option.bind_some]
  exact follow_eq_none.mpr habsent

theorem Grown.of_install (h : Tables roots s.mem) (hroot : root ∈ roots) (hp : UserPath (p ++ [i]))
    (ht : table s.mem root p = some t)
    (habsent : s.mem.read64 (entryAddr t i) &&& ptePresent = 0) {a e : UInt64}
    {answers : List UInt64} (hanswers : s.answers = a :: answers)
    (hfresh : FreshAnswers roots s.mem s.answers) {m' : Mem}
    (hs : StoresEntry roots s.mem m' root t i e p)
    (hnew : ∀ j : UInt64, j.toNat < 512 → m'.read64 (entryAddr a j) = 0)
    (hpresent : e &&& ptePresent ≠ 0) (haddr : e &&& addrMask = a) (hps : e &&& ptePs = 0)
    (honly : ∀ y, ¬ InBlock (Pmm.physToVirt a) 4096 y → ¬ InBlock (Pmm.physToVirt t) 4096 y →
      m' y = s.mem y) :
    Grown roots s ⟨m', answers⟩ root (p ++ [i]) a [a] := by
  rw [hanswers] at hfresh
  have ha := hfresh.fresh a (List.mem_cons_self ..)
  obtain ⟨hnot, hnodup⟩ := List.nodup_cons.mp hfresh.nodup
  obtain ⟨htables, hwalk, hleaves⟩ := h.install hroot hp ht habsent ha hs hnew hpresent haddr hps
  have hself : table m' root (p ++ [i]) = some a :=
    (hwalk root hroot _ hp a).mpr (.inr ⟨rfl, rfl, rfl⟩)
  refine ⟨⟨htables, hself, hleaves, hnodup, ?_⟩, hanswers, ?_, ?_, ?_, ?_⟩
  · intro b hb
    have hb' := hfresh.fresh b (List.mem_cons_of_mem _ hb)
    refine ⟨hb'.ne_zero, hb'.aligned, hb'.small, ?_⟩
    intro r hr q hq hx
    obtain hold | ⟨-, -, rfl⟩ := (hwalk r hr q hq b).mp hx
    · exact hb'.not_table r hr q hq hold
    · exact hnot hb
  · intro r hr q hq x hx
    exact (hwalk r hr q hq x).mpr (.inl hx)
  · intro r hr q hq x hx
    obtain hold | ⟨hr, -, hx⟩ := (hwalk r hr q hq x).mp hx
    · exact .inl hold
    · exact .inr ⟨hr, List.mem_singleton.mpr hx⟩
  · intro b hb
    rw [List.mem_singleton.mp hb]
    exact ⟨p ++ [i], by simp, List.prefix_refl _, hself⟩
  · intro y hy
    exact honly y (hy _ a hp hself) (hy p t hp.init ((hwalk root hroot p hp.init t).mpr (.inl ht)))

theorem Grown.of_same (hfresh : FreshAnswers roots s.mem s.answers) {m' : Mem}
    (htables : Tables roots m')
    (hsame : ∀ r ∈ roots, ∀ q, UserPath q → table m' r q = table s.mem r q)
    (hleaves : ∀ r ∈ roots, ∀ v, v < userAddrLimit → leaf m' r v = leaf s.mem r v)
    (hroot : root ∈ roots) {q : List UInt64} (hq : UserPath q) {x : UInt64}
    (hx : table s.mem root q = some x) (honly : OnlyTables s.mem m' root) :
    Grown roots s ⟨m', s.answers⟩ root q x [] := by
  refine ⟨⟨htables, (hsame root hroot q hq).trans hx, hleaves, hfresh.nodup, ?_⟩, rfl, ?_, ?_, ?_,
    honly⟩
  · intro b hb
    have hb' := hfresh.fresh b hb
    refine ⟨hb'.ne_zero, hb'.aligned, hb'.small, ?_⟩
    intro r hr q hq hx
    exact hb'.not_table r hr q hq ((hsame r hr q hq).symm.trans hx)
  · intro r hr q hq x hx
    exact (hsame r hr q hq).trans hx
  · intro r hr q hq x hx
    exact .inl ((hsame r hr q hq).symm.trans hx)
  · intro b hb
    exact absurd hb (by simp)

theorem OnlyTables.trans {m m₁ m₂ : Mem} (h : OnlyTables m m₁ root) (h' : OnlyTables m₁ m₂ root)
    (hkeeps : ∀ q, UserPath q → ∀ x, table m₁ root q = some x → table m₂ root q = some x) :
    OnlyTables m m₂ root := by
  intro y hy
  rw [h' y hy]
  exact h y fun q t hq ht => hy q t hq (hkeeps q hq t ht)

theorem Grown.trans {s₁ s₂ : Vm} {q q' : List UInt64} {x x' : UInt64} {used used' : List UInt64}
    (hroot : root ∈ roots) (hq : UserPath q) (hqq' : q <+: q')
    (h : Grown roots s s₁ root q x used) (h' : Grown roots s₁ s₂ root q' x' used') :
    Grown roots s s₂ root q' x' (used ++ used') := by
  refine ⟨⟨h'.tables, h'.table_eq, ?_, h'.fresh⟩, ?_, ?_, ?_, ?_, ?_⟩
  · intro r hr v hv
    rw [h'.leaves r hr v hv, h.leaves r hr v hv]
  · rw [List.append_assoc, ← h'.answers, h.answers]
  · intro r hr q hq x hx
    exact h'.keeps r hr q hq x (h.keeps r hr q hq x hx)
  · intro r hr q hq x hx
    obtain hmid | ⟨hr, hx⟩ := h'.adds r hr q hq x hx
    · obtain hold | ⟨hr, hx⟩ := h.adds r hr q hq x hmid
      · exact .inl hold
      · exact .inr ⟨hr, List.mem_append_left _ hx⟩
    · exact .inr ⟨hr, List.mem_append_right _ hx⟩
  · intro a ha
    obtain ha | ha := List.mem_append.mp ha
    · obtain ⟨q₁, hne, hpre, hq₁⟩ := h.placed a ha
      obtain ⟨rest, rfl⟩ := hpre
      exact ⟨q₁, hne, (List.prefix_append q₁ rest).trans hqq',
        h'.keeps root hroot q₁ (userPath_of_append hq) a hq₁⟩
    · exact h'.placed a ha
  · exact h.only.trans h'.only (h'.keeps root hroot)

theorem Grown.table_eq_of_nil {s' : Vm} {q : List UInt64} {x : UInt64}
    (h : Grown roots s s' root q x []) {r : UInt64} (hr : r ∈ roots) {q' : List UInt64}
    (hq' : UserPath q') : table s'.mem r q' = table s.mem r q' := by
  cases hx : table s.mem r q' with
  | some y => exact h.keeps r hr q' hq' y hx
  | none =>
    cases hy : table s'.mem r q' with
    | none => rfl
    | some y =>
      obtain hold | ⟨-, hmem⟩ := h.adds r hr q' hq' y hy
      · rw [hx] at hold
        exact absurd hold (by simp)
      · exact absurd hmem (by simp)

theorem userPath_step {rest : List UInt64} (hp : UserPath (p ++ i :: rest)) :
    UserPath (p ++ [i] ++ rest) := by
  rw [List.append_assoc]
  exact hp

theorem Grown.missing_eq {s' : Vm} {x : UInt64} {used : List UInt64}
    (h : Grown roots s s' root (p ++ [i]) x used) (hroot : root ∈ roots) {rest : List UInt64}
    (hp : UserPath (p ++ i :: rest))
    (hused : used = if (table s.mem root (p ++ [i])).isNone then [x] else []) :
    missing s.mem root p (i :: rest) = used.length + missing s'.mem root (p ++ [i]) rest := by
  have hpi : UserPath (p ++ [i]) := userPath_of_append (userPath_step hp)
  rw [missing]
  cases hold : table s.mem root (p ++ [i]) with
  | some y =>
    rw [hold, Option.isNone_some, if_neg (by decide)] at hused
    subst hused
    rw [Option.isNone_some, if_neg (by decide), List.length_nil, Nat.zero_add]
    exact (missing_congr (fun q hq => h.table_eq_of_nil hroot hq) (userPath_step hp)).symm
  | none =>
    rw [hold, Option.isNone_none, if_pos rfl] at hused
    subst hused
    rw [Option.isNone_none, if_pos rfl, List.length_singleton, Nat.add_comm 1]
    congr 1
    -- the new table is empty
    cases rest with
    | nil => rfl
    | cons j rest =>
      have hnone : table s'.mem root (p ++ [i] ++ [j]) = none := by
        have hpj : UserPath (p ++ [i] ++ [j]) :=
          userPath_of_append (show UserPath (_ ++ rest) by simpa using userPath_step hp)
        cases hx : table s'.mem root (p ++ [i] ++ [j]) with
        | none => rfl
        | some y =>
          obtain hy | ⟨-, hy⟩ := h.adds root hroot _ hpj y hx
          · unfold table at hy hold
            rw [Forest.walk_append_singleton, hold] at hy
            exact absurd hy (by simp)
          · rw [List.mem_singleton.mp hy] at hx
            have hpaths := (h.tables.separated root hroot root hroot _ _ hpj hpi x hx h.table_eq).2
            exact absurd (congrArg List.length hpaths) (by simp)
      rw [missing, hnone, Option.isNone_none, if_pos rfl]
      rfl

theorem walkOrCreate_spec_absent (flags : UInt64) (h : Tables roots s.mem) (hroot : root ∈ roots)
    (hp : UserPath (p ++ [i])) (ht : table s.mem root p = some t)
    (hfresh : FreshAnswers roots s.mem s.answers) {a : UInt64} {answers : List UInt64}
    (hanswers : s.answers = a :: answers)
    (habsent : s.mem.read64 (entryAddr t i) &&& ptePresent = 0) :
    ∃ s', walkOrCreate s t i flags = (a, s') ∧ Grown roots s s' root (p ++ [i]) a [a] := by
  have ha : FreshFrame roots s.mem a := hfresh.fresh a (by rw [hanswers]; exact List.mem_cons_self ..)
  have haddr := and_addrMask_of_aligned ha.aligned ha.small
  refine ⟨_, walkOrCreate_absent rfl habsent hanswers ha.ne_zero, ?_⟩
  exact Grown.of_install h hroot hp ht habsent hanswers hfresh
    (h.storesEntry_install hroot hp.init ht hp.last_lt ha)
    (fun j hj => h.read64_new hroot hp.init ht hp.last_lt ha hj)
    (newEntry_present haddr) (newEntry_addr haddr) (newEntry_ps haddr) (by
      intro y hya hyt
      rw [Mem.write64_of_not_mem fun hin => hyt (inBlock_entry hp.last_lt hin)]
      exact (Mem.fill_apply 0 (by decide) _ s.mem y).trans (if_neg hya))

theorem walkOrCreate_spec_present (flags : UInt64) (h : Tables roots s.mem) (hroot : root ∈ roots)
    (hp : UserPath (p ++ [i])) (ht : table s.mem root p = some t)
    (hfresh : FreshAnswers roots s.mem s.answers) {e : UInt64}
    (he : s.mem.read64 (entryAddr t i) = e) (hpresent : e &&& ptePresent ≠ 0) :
    ∃ s', walkOrCreate s t i flags = (e &&& addrMask, s') ∧
      Grown roots s s' root (p ++ [i]) (e &&& addrMask) [] := by
  have hsome := table_append_of_present ht he hpresent
  have hps : e &&& ptePs = 0 := by
    have hsmall := h.small root hroot p i t hp ht
    rw [he] at hsmall
    exact hsmall hpresent
  have hkeep : ∀ mask, (pteUser ||| pteWrite) &&& mask = 0 →
      (e ||| (flags &&& (pteUser ||| pteWrite))) &&& mask =
        s.mem.read64 (entryAddr t i) &&& mask := by
    intro mask hmask
    rw [he, and_or_distrib, allowed_and_eq_zero flags hmask, UInt64.or_zero]
  obtain heq | heq := walkOrCreate_present (s := s) flags he hpresent hps
  · exact ⟨_, heq, Grown.of_same hfresh h (fun _ _ _ _ => rfl) (fun _ _ _ _ => rfl) hroot hp hsome
      fun _ _ => rfl⟩
  · obtain ⟨htables, hsame, hleaves⟩ := h.upgrade hroot hp ht
      (h.storesEntry_write hroot hp.init ht hp.last_lt)
      (hkeep ptePresent (by decide)) (hkeep addrMask (by decide)) (hkeep ptePs (by decide))
    refine ⟨_, heq, Grown.of_same hfresh htables hsame hleaves hroot hp hsome ?_⟩
    intro y hy
    have hyt := hy p t hp.init ((hsame root hroot p hp.init).trans ht)
    exact Mem.write64_of_not_mem fun hin => hyt (inBlock_entry hp.last_lt hin)

theorem walkOrCreate_none (habsent : s.mem.read64 (entryAddr t i) &&& ptePresent = 0)
    (hanswers : s.answers = []) : walkOrCreate s t i flags = (0, s) := by
  have halloc : s.alloc = (0, s) := by
    unfold Vm.alloc
    rw [hanswers]
  unfold walkOrCreate
  dsimp only
  rw [if_neg (by simpa using habsent), halloc]
  rfl

theorem walkOrCreate_zero (habsent : s.mem.read64 (entryAddr t i) &&& ptePresent = 0)
    (rest : List UInt64) : walkOrCreate ⟨s.mem, 0 :: rest⟩ t i flags = (0, ⟨s.mem, rest⟩) := by
  unfold walkOrCreate
  dsimp only [Vm.alloc]
  rw [if_neg (by simpa using habsent), if_pos (beq_self_eq_true _)]

theorem walkOrCreate_append {m : Mem} {answers : List UInt64} {x : UInt64} {s' : Vm} (hx : x ≠ 0)
    (h : walkOrCreate ⟨m, answers⟩ t i flags = (x, s')) (rest : List UInt64) :
    walkOrCreate ⟨m, answers ++ rest⟩ t i flags = (x, ⟨s'.mem, s'.answers ++ rest⟩) := by
  unfold walkOrCreate at h ⊢
  dsimp only at h ⊢
  generalize m.read64 (entryAddr t i) = e at h ⊢
  by_cases hpresent : (e &&& ptePresent != 0) = true
  · rw [if_pos hpresent] at h ⊢
    split_ifs at h ⊢ with hps hflags
    · exact absurd (congrArg Prod.fst h).symm hx
    · obtain ⟨rfl, rfl⟩ := Prod.mk.inj h
      rfl
    · obtain ⟨rfl, rfl⟩ := Prod.mk.inj h
      rfl
  · rw [if_neg hpresent] at h ⊢
    cases answers with
    | nil => exact absurd (congrArg Prod.fst h).symm hx
    | cons a answers =>
      unfold Vm.alloc at h ⊢
      dsimp only [List.cons_append] at h ⊢
      by_cases ha : (a == 0) = true
      · rw [if_pos ha] at h
        exact absurd (congrArg Prod.fst h).symm hx
      · rw [if_neg ha] at h ⊢
        obtain ⟨rfl, rfl⟩ := Prod.mk.inj h
        rfl

/-- **One level of the walk** ends at a table, for which a missing one is created, and changes no leaf
entry; or it stops, because a table is missing and `pmm.alloc` fails. -/
theorem walkOrCreate_spec (flags : UInt64) (h : Tables roots s.mem) (hroot : root ∈ roots)
    {rest : List UInt64} (hp : UserPath (p ++ i :: rest)) (ht : table s.mem root p = some t)
    (hfresh : FreshAnswers roots s.mem s.answers) :
    (∃ x s' used, walkOrCreate s t i flags = (x, s') ∧ Grown roots s s' root (p ++ [i]) x used ∧
      missing s.mem root p (i :: rest) = used.length + missing s'.mem root (p ++ [i]) rest) ∨
    (walkOrCreate s t i flags = (0, s) ∧ s.answers = [] ∧
      missing s.mem root p (i :: rest) = rest.length + 1 ∧
      ∀ rest, walkOrCreate ⟨s.mem, 0 :: rest⟩ t i flags = (0, ⟨s.mem, rest⟩)) := by
  have hpi : UserPath (p ++ [i]) := userPath_of_append (userPath_step hp)
  by_cases habsent : s.mem.read64 (entryAddr t i) &&& ptePresent = 0
  · have hnone := table_append_of_absent ht habsent
    cases hanswers : s.answers with
    | nil =>
      refine .inr ⟨walkOrCreate_none habsent hanswers, rfl, ?_, walkOrCreate_zero habsent⟩
      rw [missing, hnone, Option.isNone_none, if_pos rfl]
    | cons a answers =>
      obtain ⟨s', heq, hgrown⟩ := walkOrCreate_spec_absent flags h hroot hpi ht hfresh hanswers habsent
      refine .inl ⟨a, s', [a], heq, hgrown, hgrown.missing_eq hroot hp ?_⟩
      rw [hnone, Option.isNone_none, if_pos rfl]
  · obtain ⟨s', heq, hgrown⟩ := walkOrCreate_spec_present flags h hroot hpi ht hfresh rfl
      habsent
    refine .inl ⟨_, s', [], heq, hgrown, hgrown.missing_eq hroot hp ?_⟩
    rw [table_append_of_present ht rfl habsent, Option.isNone_some, if_neg (by decide)]

end Walk

/-! ### Small memories -/

theorem table_of_empty {m : Mem} {root : UInt64}
    (h : ∀ i, m.read64 (entryAddr root i) &&& ptePresent = 0) {q : List UInt64} {x : UInt64}
    (hx : table m root q = some x) : q = [] ∧ x = root := by
  cases q with
  | nil => exact ⟨rfl, (Option.some.inj hx).symm⟩
  | cons i q =>
    unfold table Forest.walk at hx
    rw [List.foldlM_cons, follow_eq_none.mpr (h i)] at hx
    exact absurd hx (by simp)

theorem zero_entry (t i : UInt64) :
    Mem.read64 (fun _ => 0) (entryAddr t i) &&& ptePresent = 0 := by
  rw [Mem.read64_zero, UInt64.zero_and]

theorem tables_zeros {roots : Set UInt64} (hroots : ∀ r ∈ roots, PageAligned r) :
    Tables roots (fun _ => 0) := by
  refine ⟨⟨hroots, ?_, ?_⟩, ?_⟩
  · intro r _ r' _ q q' _ _ x hx hx'
    obtain ⟨rfl, rfl⟩ := table_of_empty (zero_entry r) hx
    obtain ⟨rfl, rfl⟩ := table_of_empty (zero_entry r') hx'
    exact ⟨rfl, rfl⟩
  · intro r _ q j x _ _ hpresent
    exact absurd (zero_entry x j) hpresent
  · intro r _ q j x _ hx
    exact absurd (table_of_empty (zero_entry r) hx).1 (by simp)

theorem tables_zero {root : UInt64} (hroot : PageAligned root) : Tables {root} (fun _ => 0) := by
  apply tables_zeros
  rintro r rfl
  exact hroot

/-- The root `0x1000`, with an entry that leads to page 0, in a memory of zeros. -/
def pageZeroMem : Mem :=
  Mem.write64 (fun _ => 0) (entryAddr 0x1000 0) 1

theorem pageAligned_0x1000 : PageAligned 0x1000 := by
  unfold PageAligned
  decide

theorem pageAligned_zero : PageAligned 0 := by
  unfold PageAligned
  decide

theorem storesEntry_pageZeroMem :
    StoresEntry {0x1000} (fun _ => 0) pageZeroMem 0x1000 0x1000 0 1 [] :=
  (tables_zero pageAligned_0x1000).storesEntry_write (by simp) ⟨by simp, by simp, by simp⟩ rfl
    (by decide)

theorem pageZeroMem_zero {j : UInt64} (hj : j.toNat < 512) :
    pageZeroMem.read64 (entryAddr 0 j) = 0 := by
  unfold pageZeroMem
  rw [Mem.read64_write64_of_ne (entryAddr_aligned pageAligned_0x1000 0)
    (entryAddr_aligned pageAligned_zero j), Mem.read64_zero]
  intro heq
  exact absurd (entryAddr_inj pageAligned_zero pageAligned_0x1000 hj (by decide) heq).1 (by decide)

theorem table_pageZeroMem {q : List UInt64} (hq : UserPath q) (x : UInt64) :
    table pageZeroMem 0x1000 q = some x ↔
      table (fun _ => 0) 0x1000 q = some x ∨ ((0x1000 : UInt64) = 0x1000 ∧ q = [] ++ [0] ∧ x = 0) := by
  have hs := storesEntry_pageZeroMem
  refine Forest.walk_install (fun _ _ => UserPath.init) (t := 0x1000) rfl
    (follow_eq_none.mpr (zero_entry _ _)) ?_ ?_ ?_ hq
  · refine follow_eq_some.mpr ⟨?_, ?_⟩
    · rw [hs.self]
      decide
    · rw [hs.self]
      decide
  · intro j hj
    refine follow_eq_none.mpr ?_
    rw [pageZeroMem_zero hj.last_lt, UInt64.zero_and]
  · intro q j x hqj hx hne
    exact follow_congr (hs.other _ rfl q x hqj.init hx j hqj.last_lt hne)

theorem trees_pageZeroMem : Trees {0x1000} pageZeroMem := by
  have h := tables_zero pageAligned_0x1000
  have hs := storesEntry_pageZeroMem
  refine ⟨h.aligned, ?_, ?_⟩
  · have hwalk : ∀ r ∈ ({0x1000} : Set UInt64), ∀ q, UserPath q → ∀ x,
        table pageZeroMem r q = some x ↔
          table (fun _ => 0) r q = some x ∨ (r = 0x1000 ∧ q = [] ++ [0] ∧ x = 0) := by
      rintro r rfl q hq x
      exact table_pageZeroMem hq x
    refine h.separated.install hwalk ?_
    rintro r rfl q - hx
    exact absurd (table_of_empty (zero_entry _) hx).2 (by decide)
  · rintro r rfl q j x hqj hx
    obtain hold | ⟨-, -, rfl⟩ := (table_pageZeroMem hqj.init x).mp hx
    · obtain ⟨rfl, rfl⟩ := table_of_empty (zero_entry _) hold
      by_cases hj : j = 0
      · rw [hj, hs.self]
        decide
      · rw [hs.other _ rfl [] _ hqj.init hold j hqj.last_lt (fun h => hj h.2.2)]
        exact fun hpresent => absurd (zero_entry _ j) hpresent
    · rw [pageZeroMem_zero hqj.last_lt, UInt64.zero_and]
      exact fun hne => absurd rfl hne

/-! ### The laws -/

section Laws

variable {roots : Set UInt64} {s : Vm} {root vaddr : UInt64}

theorem mapUserPage_of_walks {s₁ s₂ s₃ : Vm} {pdp pd pt flags : UInt64} (hvaddr : vaddr < userAddrLimit)
    (h₁ : walkOrCreate s root (pml4Index vaddr) flags = (pdp, s₁)) (hpdp : pdp ≠ 0)
    (h₂ : walkOrCreate s₁ pdp (pdpIndex vaddr) flags = (pd, s₂)) (hpd : pd ≠ 0)
    (h₃ : walkOrCreate s₂ pd (pdIndex vaddr) flags = (pt, s₃)) (hpt : pt ≠ 0) (paddr : UInt64) :
    mapUserPage s root vaddr paddr flags =
      ⟨s₃.mem.write64 (entryAddr pt (ptIndex vaddr)) (paddr ||| flags), s₃.answers⟩ := by
  unfold mapUserPage mapKptiPage
  dsimp only
  rw [if_neg (by simpa using hvaddr), h₁, if_neg (by simpa using hpdp), h₂, if_neg (by simpa using hpd),
    h₃, if_neg (by simpa using hpt)]

theorem mapUserPage_of_noPdp {s' : Vm} {flags : UInt64} (hvaddr : vaddr < userAddrLimit)
    (h : walkOrCreate s root (pml4Index vaddr) flags = (0, s')) (paddr : UInt64) :
    mapUserPage s root vaddr paddr flags = s' := by
  unfold mapUserPage mapKptiPage
  dsimp only
  rw [if_neg (by simpa using hvaddr), h, if_pos (beq_self_eq_true _)]

theorem mapUserPage_of_noPd {s₁ s' : Vm} {pdp flags : UInt64} (hvaddr : vaddr < userAddrLimit)
    (h₁ : walkOrCreate s root (pml4Index vaddr) flags = (pdp, s₁)) (hpdp : pdp ≠ 0)
    (h : walkOrCreate s₁ pdp (pdpIndex vaddr) flags = (0, s')) (paddr : UInt64) :
    mapUserPage s root vaddr paddr flags = s' := by
  unfold mapUserPage mapKptiPage
  dsimp only
  rw [if_neg (by simpa using hvaddr), h₁, if_neg (by simpa using hpdp), h,
    if_pos (beq_self_eq_true _)]

theorem mapUserPage_of_noPt {s₁ s₂ s' : Vm} {pdp pd flags : UInt64} (hvaddr : vaddr < userAddrLimit)
    (h₁ : walkOrCreate s root (pml4Index vaddr) flags = (pdp, s₁)) (hpdp : pdp ≠ 0)
    (h₂ : walkOrCreate s₁ pdp (pdpIndex vaddr) flags = (pd, s₂)) (hpd : pd ≠ 0)
    (h : walkOrCreate s₂ pd (pdIndex vaddr) flags = (0, s')) (paddr : UInt64) :
    mapUserPage s root vaddr paddr flags = s' := by
  unfold mapUserPage mapKptiPage
  dsimp only
  rw [if_neg (by simpa using hvaddr), h₁, if_neg (by simpa using hpdp), h₂, if_neg (by simpa using hpd),
    h, if_pos (beq_self_eq_true _)]

/-- A walk down to the table of a page creates what is missing, or uses up the answers: then it has
stopped at the table at the end of some `q`, and all tables below it are missing. -/
theorem walk_spec (h : Tables roots s.mem) (hroot : root ∈ roots) (hvaddr : vaddr < userAddrLimit)
    (hfresh : FreshAnswers roots s.mem s.answers) (paddr flags : UInt64) :
    (∃ pt s' used, (∀ rest, mapUserPage ⟨s.mem, s.answers ++ rest⟩ root vaddr paddr flags =
        ⟨s'.mem.write64 (entryAddr pt (ptIndex vaddr)) (paddr ||| flags), s'.answers ++ rest⟩) ∧
      Grown roots s s' root (path vaddr) pt used ∧
      missing s.mem root [] (path vaddr) = used.length) ∨
    (∃ s', mapUserPage s root vaddr paddr flags = s' ∧ s'.answers = [] ∧
      s.answers.length < missing s.mem root [] (path vaddr) ∧
      (∃ q rest x used, path vaddr = q ++ rest ∧ Grown roots s s' root q x used ∧
        missing s.mem root [] (path vaddr) = used.length + rest.length) ∧
      ∀ rest, mapUserPage ⟨s.mem, s.answers ++ 0 :: rest⟩ root vaddr paddr flags = ⟨s'.mem, rest⟩) := by
  have hpath := userPath_path hvaddr
  have hpath₁ : UserPath [pml4Index vaddr] := userPath_of_append hpath
  have hpath₂ : UserPath [pml4Index vaddr, pdpIndex vaddr] := userPath_of_append hpath
  obtain ⟨pdp, s₁, used₁, heq₁, hg₁, hmiss₁⟩ | ⟨heq₁, hnil₁, hall₁, hzero₁⟩ :=
    walkOrCreate_spec flags h hroot (p := []) hpath rfl hfresh
  swap
  · have hsame : Grown roots s s root [] root [] :=
      Grown.of_same hfresh h (fun _ _ _ _ => rfl) (fun _ _ _ _ => rfl) hroot
        (userPath_of_append hpath) rfl fun _ _ => rfl
    refine .inr ⟨s, mapUserPage_of_noPdp hvaddr heq₁ paddr, hnil₁, ?_,
      ⟨[], path vaddr, _, _, rfl, hsame, ?_⟩, ?_⟩
    · rw [hnil₁, List.length_nil]
      exact hall₁ ▸ Nat.succ_pos _
    · rw [List.length_nil, Nat.zero_add]
      exact hall₁
    · intro rest
      rw [hnil₁, List.nil_append]
      exact mapUserPage_of_noPdp hvaddr (hzero₁ rest) paddr
  -- the page directory pointer table is there
  have hpdp := hg₁.tables.nonzero root hroot _ _ pdp hpath₁ hg₁.table_eq
  obtain ⟨pd, s₂, used₂, heq₂, hg₂, hmiss₂⟩ | ⟨heq₂, hnil₂, hall₂, hzero₂⟩ :=
    walkOrCreate_spec flags hg₁.tables hroot hpath hg₁.table_eq hg₁.fresh
  swap
  · refine .inr ⟨s₁, mapUserPage_of_noPd hvaddr heq₁ hpdp heq₂ paddr, hnil₂, ?_,
      ⟨[pml4Index vaddr], [pdpIndex vaddr, pdIndex vaddr], _, _, rfl, hg₁, ?_⟩, ?_⟩
    · rw [hg₁.answers, hnil₂, List.append_nil]
      exact hmiss₁ ▸ Nat.lt_add_of_pos_right (hall₂ ▸ Nat.succ_pos _)
    · exact hmiss₁.trans (congrArg _ hall₂)
    · intro rest
      have happ := walkOrCreate_append hpdp heq₁ (0 :: rest)
      rw [hnil₂, List.nil_append] at happ
      exact mapUserPage_of_noPd hvaddr happ hpdp (hzero₂ rest) paddr
  have hg₁₂ := hg₁.trans hroot hpath₁ (List.prefix_append _ _) hg₂
  -- and so is the page directory
  have hpd := hg₂.tables.nonzero root hroot _ _ pd hpath₂ hg₂.table_eq
  obtain ⟨pt, s₃, used₃, heq₃, hg₃, hmiss₃⟩ | ⟨heq₃, hnil₃, hall₃, hzero₃⟩ :=
    walkOrCreate_spec flags hg₂.tables hroot hpath hg₂.table_eq hg₂.fresh
  swap
  · refine .inr ⟨s₂, mapUserPage_of_noPt hvaddr heq₁ hpdp heq₂ hpd heq₃ paddr, hnil₃, ?_,
      ⟨[pml4Index vaddr, pdpIndex vaddr], [pdIndex vaddr], _, _, rfl, hg₁₂, ?_⟩, ?_⟩
    · rw [hg₁₂.answers, hnil₃, List.append_nil, List.length_append]
      have hmiss : missing s.mem root [] (path vaddr) = used₁.length + (used₂.length + (0 + 1)) :=
        hmiss₁.trans (congrArg _ (hmiss₂.trans (congrArg _ hall₃)))
      omega
    · have hmiss : missing s.mem root [] (path vaddr) = used₁.length + (used₂.length + (0 + 1)) :=
        hmiss₁.trans (congrArg _ (hmiss₂.trans (congrArg _ hall₃)))
      rw [hmiss, List.length_append, List.length_singleton]
      omega
    · intro rest
      have happ₁ := walkOrCreate_append hpdp heq₁ (0 :: rest)
      have happ₂ := walkOrCreate_append hpd heq₂ (0 :: rest)
      rw [hnil₃, List.nil_append] at happ₂
      exact mapUserPage_of_noPt hvaddr happ₁ hpdp happ₂ hpd (hzero₃ rest) paddr
  -- all three tables are there, and the leaf entry is stored
  have hpt := hg₃.tables.nonzero root hroot _ _ pt hpath hg₃.table_eq
  refine .inl ⟨pt, s₃, _, ?_, hg₁₂.trans hroot hpath₂ (List.prefix_append _ _) hg₃, ?_⟩
  · intro rest
    exact mapUserPage_of_walks hvaddr (walkOrCreate_append hpdp heq₁ rest) hpdp
      (walkOrCreate_append hpd heq₂ rest) hpd (walkOrCreate_append hpt heq₃ rest) hpt paddr
  · have hmiss : missing s.mem root [] (path vaddr) =
        used₁.length + (used₂.length + (used₃.length + 0)) :=
      hmiss₁.trans (congrArg _ (hmiss₂.trans (congrArg _ hmiss₃)))
    rw [hmiss, List.length_append, List.length_append]
    omega

/-- **What `map_user_page` does**, when its allocations succeed: it stores one leaf entry. -/
theorem mapUserPage_spec (h : Tables roots s.mem) (hroot : root ∈ roots)
    (hvaddr : vaddr < userAddrLimit) (hfresh : FreshAnswers roots s.mem s.answers)
    (henough : missing s.mem root [] (path vaddr) ≤ s.answers.length) (paddr flags : UInt64) :
    ∃ s', mapUserPage s root vaddr paddr flags = s' ∧ Tables roots s'.mem ∧
      (∃ pt, table s'.mem root (path vaddr) = some pt) ∧
      ∀ r ∈ roots, ∀ v, v < userAddrLimit →
        leaf s'.mem r v =
          if r = root ∧ v >>> 12 = vaddr >>> 12 then paddr ||| flags else leaf s.mem r v := by
  have hpath := userPath_path hvaddr
  obtain ⟨pt, s₃, used, hmap, hg, -⟩ | ⟨-, -, -, hshort, -⟩ :=
    walk_spec h hroot hvaddr hfresh paddr flags
  swap
  · exact absurd henough (Nat.not_le.mpr hshort)
  replace hmap := hmap []
  rw [List.append_nil, List.append_nil] at hmap
  obtain ⟨htables, hsame, hleaves⟩ := hg.tables.storeLeaf hvaddr hg.table_eq
    (hg.tables.storesEntry_write hroot hpath hg.table_eq (ptIndex_lt vaddr) (e := paddr ||| flags))
  refine ⟨_, hmap, htables, ⟨pt, (hsame root hroot _ hpath).trans hg.table_eq⟩, ?_⟩
  intro r hr v hv
  exact (hleaves r hr v hv).trans (by rw [hg.leaves r hr v hv])

/-- **What `map_user_page` does** in general: it takes a page for every missing table, and stores the
leaf entry if there were enough. -/
theorem mapUserPage_run (h : Tables roots s.mem) (hroot : root ∈ roots)
    (hvaddr : vaddr < userAddrLimit) (hfresh : FreshAnswers roots s.mem s.answers)
    (paddr flags : UInt64) :
    ∃ s', mapUserPage s root vaddr paddr flags = s' ∧
      s'.answers = s.answers.drop (missing s.mem root [] (path vaddr)) ∧
      ∀ r ∈ roots, ∀ v, v < userAddrLimit →
        leaf s'.mem r v =
          if missing s.mem root [] (path vaddr) ≤ s.answers.length ∧ r = root ∧
              v >>> 12 = vaddr >>> 12 then paddr ||| flags
          else leaf s.mem r v := by
  have hpath := userPath_path hvaddr
  obtain ⟨pt, s₃, used, hmap, hg, hmissing⟩ | ⟨s', hmap, hnil, hshort, ⟨q, below, x, used, -, hg, -⟩, -⟩ :=
    walk_spec h hroot hvaddr hfresh paddr flags
  · replace hmap := hmap []
    rw [List.append_nil, List.append_nil] at hmap
    obtain ⟨-, -, hleaves⟩ := hg.tables.storeLeaf hvaddr hg.table_eq
      (hg.tables.storesEntry_write hroot hpath hg.table_eq (ptIndex_lt vaddr) (e := paddr ||| flags))
    refine ⟨_, hmap, ?_, ?_⟩
    · rw [hg.answers, hmissing, List.drop_left]
    · intro r hr v hv
      have henough : missing s.mem root [] (path vaddr) ≤ s.answers.length := by
        rw [hg.answers, hmissing, List.length_append]
        exact Nat.le_add_right _ _
      rw [← hg.leaves r hr v hv]
      simp only [henough, true_and]
      exact hleaves r hr v hv
  · refine ⟨s', hmap, ?_, ?_⟩
    · rw [hnil, List.drop_eq_nil_of_le (Nat.le_of_lt hshort)]
    · intro r hr v hv
      rw [if_neg (fun hx => absurd hx.1 (Nat.not_le.mpr hshort))]
      exact hg.leaves r hr v hv

theorem mapUserPage_present (h : Tables roots s.mem) (hroot : root ∈ roots)
    (hvaddr : vaddr < userAddrLimit) (hfresh : FreshAnswers roots s.mem s.answers) {pt : UInt64}
    (ht : table s.mem root (path vaddr) = some pt) (paddr flags : UInt64) :
    ∃ s', mapUserPage s root vaddr paddr flags = s' ∧ Tables roots s'.mem ∧
      s'.answers = s.answers ∧ FreshAnswers roots s'.mem s'.answers ∧
      (∀ r ∈ roots, ∀ q, UserPath q → table s'.mem r q = table s.mem r q) ∧
      ∀ r ∈ roots, ∀ v, v < userAddrLimit →
        leaf s'.mem r v =
          if r = root ∧ v >>> 12 = vaddr >>> 12 then paddr ||| flags else leaf s.mem r v := by
  have hpath := userPath_path hvaddr
  have hzero : missing s.mem root [] (path vaddr) = 0 := missing_eq_zero ht
  obtain ⟨pt', s₃, used, hmap, hg, hmissing⟩ | ⟨-, -, -, hshort, -⟩ :=
    walk_spec h hroot hvaddr hfresh paddr flags
  swap
  · rw [hzero] at hshort
    exact absurd hshort (Nat.not_lt_zero _)
  obtain rfl : used = [] := List.length_eq_zero_iff.mp (hmissing.symm.trans hzero)
  replace hmap := hmap []
  rw [List.append_nil, List.append_nil] at hmap
  obtain ⟨htables, hsame, hleaves⟩ := hg.tables.storeLeaf hvaddr hg.table_eq
    (hg.tables.storesEntry_write hroot hpath hg.table_eq (ptIndex_lt vaddr) (e := paddr ||| flags))
  refine ⟨_, hmap, htables, hg.answers.symm, ⟨hg.fresh.nodup, ?_⟩, ?_, ?_⟩
  · intro b hb
    have hb' := hg.fresh.fresh b hb
    refine ⟨hb'.ne_zero, hb'.aligned, hb'.small, ?_⟩
    intro r hr q hq hx
    exact hb'.not_table r hr q hq ((hsame r hr q hq).symm.trans hx)
  · intro r hr q hq
    exact (hsame r hr q hq).trans (hg.table_eq_of_nil hr hq)
  · intro r hr v hv
    exact (hleaves r hr v hv).trans (by rw [hg.leaves r hr v hv])

theorem entries_of_table {m : Mem} {pt : UInt64} (ht : table m root (path vaddr) = some pt) :
    ∃ pml4e pdpe pde,
      (m.read64 (entryAddr root (pml4Index vaddr)) = pml4e ∧ pml4e &&& ptePresent ≠ 0) ∧
      (m.read64 (entryAddr (pml4e &&& addrMask) (pdpIndex vaddr)) = pdpe ∧ pdpe &&& ptePresent ≠ 0) ∧
      (m.read64 (entryAddr (pdpe &&& addrMask) (pdIndex vaddr)) = pde ∧ pde &&& ptePresent ≠ 0) ∧
      pde &&& addrMask = pt := by
  unfold path at ht
  rw [table_path] at ht
  obtain ⟨x, hx, ht⟩ := Option.bind_eq_some_iff.mp ht
  obtain ⟨y, hy, hpt⟩ := Option.bind_eq_some_iff.mp ht
  obtain ⟨h₁, rfl⟩ := follow_eq_some.mp hx
  obtain ⟨h₂, rfl⟩ := follow_eq_some.mp hy
  obtain ⟨h₃, rfl⟩ := follow_eq_some.mp hpt
  exact ⟨_, _, _, ⟨rfl, h₁⟩, ⟨rfl, h₂⟩, ⟨rfl, h₃⟩, rfl⟩

theorem unmapUserPage_of_present {m : Mem} {pt e : UInt64}
    (ht : table m root (path vaddr) = some pt)
    (he : m.read64 (entryAddr pt (ptIndex vaddr)) = e) (hpresent : e &&& ptePresent ≠ 0) :
    unmapUserPage m root vaddr = (true, m.write64 (entryAddr pt (ptIndex vaddr)) 0) := by
  obtain ⟨pml4e, pdpe, pde, ⟨he₁, h₁⟩, ⟨he₂, h₂⟩, ⟨he₃, h₃⟩, rfl⟩ := entries_of_table ht
  unfold unmapUserPage
  dsimp only
  rw [he₁, if_neg (by simpa using h₁), he₂, if_neg (by simpa using h₂), he₃,
    if_neg (by simpa using h₃), he, if_neg (by simpa using hpresent)]

theorem unmapUserPage_of_absent {m : Mem} (habsent : leaf m root vaddr &&& ptePresent = 0) :
    unmapUserPage m root vaddr = (false, m) := by
  rw [← getUserPte_eq_leaf] at habsent
  unfold getUserPte at habsent
  unfold unmapUserPage
  dsimp only at habsent ⊢
  split
  · rfl
  · next h₁ =>
    rw [if_neg h₁] at habsent
    split
    · rfl
    · next h₂ =>
      rw [if_neg h₂] at habsent
      split
      · rfl
      · next h₃ =>
        rw [if_neg h₃] at habsent
        exact if_pos (beq_iff_eq.mpr habsent)

/-- **What `unmap_user_page` does** to a page that is mapped. -/
theorem unmapUserPage_spec {m : Mem} (h : Tables roots m) (hroot : root ∈ roots)
    (hvaddr : vaddr < userAddrLimit) {pt : UInt64} (ht : table m root (path vaddr) = some pt)
    (hpresent : leaf m root vaddr &&& ptePresent ≠ 0) :
    ∃ m', unmapUserPage m root vaddr = (true, m') ∧ Tables roots m' ∧
      ∀ r ∈ roots, ∀ v, v < userAddrLimit →
        leaf m' r v = if r = root ∧ v >>> 12 = vaddr >>> 12 then 0 else leaf m r v := by
  rw [leaf_of_table ht] at hpresent
  obtain ⟨htables, -, hleaves⟩ := h.storeLeaf hvaddr ht
    (h.storesEntry_write hroot (userPath_path hvaddr) ht (ptIndex_lt vaddr) (e := 0))
  exact ⟨_, unmapUserPage_of_present ht rfl hpresent, htables, hleaves⟩

/-- The laws of a mapping: the page translates to its frame, nothing else changes, and unmapping the
page undoes it. -/
def MapLaws (roots : Set UInt64) (s : Vm) (pml4 vaddr paddr flags : UInt64) : Prop :=
  let m₁ := (mapUserPage s pml4 vaddr paddr flags).mem
  let m₂ := (unmapUserPage m₁ pml4 vaddr).2
  (∀ v : UInt64, v >>> 12 = vaddr >>> 12 → translateUserAddr m₁ pml4 v = paddr + (v &&& 0xFFF)) ∧
    getUserPte m₁ pml4 vaddr = paddr ||| flags ∧
    (∀ r ∈ roots, ∀ v, v < userAddrLimit → ¬ (r = pml4 ∧ v >>> 12 = vaddr >>> 12) →
      translateUserAddr m₁ r v = translateUserAddr s.mem r v ∧
        getUserPte m₁ r v = getUserPte s.mem r v) ∧
    translateUserAddr m₂ pml4 vaddr = 0 ∧
    ∀ r ∈ roots, ∀ v, v < userAddrLimit → ¬ (r = pml4 ∧ v >>> 12 = vaddr >>> 12) →
      translateUserAddr m₂ r v = translateUserAddr s.mem r v ∧
        getUserPte m₂ r v = getUserPte s.mem r v

theorem walks_eq_of_leaf_eq {m m' : Mem} {r v : UInt64} (h : leaf m' r v = leaf m r v) :
    translateUserAddr m' r v = translateUserAddr m r v ∧ getUserPte m' r v = getUserPte m r v := by
  rw [translateUserAddr_eq_leaf, translateUserAddr_eq_leaf, getUserPte_eq_leaf, getUserPte_eq_leaf, h]
  exact ⟨rfl, rfl⟩

theorem lt_limit_of_samePage {v w : UInt64} (hw : w < userAddrLimit) (h : v >>> 12 = w >>> 12) :
    v < userAddrLimit := by
  have hlt := toNat_lt_of_user hw
  have hdiv := congrArg UInt64.toNat h
  rw [UInt64.toNat_shiftRight, UInt64.toNat_shiftRight, Nat.shiftRight_eq_div_pow,
    Nat.shiftRight_eq_div_pow, show (12 : UInt64).toNat % 64 = 12 from rfl] at hdiv
  rw [UInt64.lt_iff_toNat_lt, show userAddrLimit.toNat = 2 ^ 47 from rfl]
  omega

theorem leafEntry_addr {paddr flags : UInt64} (halign : paddr &&& 0xFFF = 0)
    (hbound : paddr.toNat < 2 ^ 52) (hflags : paddr ||| (flags &&& addrMask) = paddr) :
    (paddr ||| flags) &&& addrMask = paddr := by
  have haligned : PageAligned paddr := by
    have hnat := congrArg UInt64.toNat halign
    rwa [UInt64.toNat_and, show (0xFFF : UInt64).toNat = 2 ^ 12 - 1 from rfl,
      Nat.and_two_pow_sub_one_eq_mod] at hnat
  rw [and_or_distrib, and_addrMask_of_aligned haligned hbound, hflags]

/-- A call of `map_user_page` whose allocations succeed: the tables are disjoint trees, the page is in
the user half, and `pmm.alloc` answers with pages that are no tables. -/
structure MapCall (roots : Set UInt64) (s : Vm) (pml4 vaddr paddr flags : UInt64) : Prop where
  trees : Trees roots s.mem
  root : pml4 ∈ roots
  user : vaddr < userAddrLimit
  aligned : paddr &&& 0xFFF = 0
  bounded : paddr.toNat < 2 ^ 52
  present : flags &&& ptePresent ≠ 0
  fresh : FreshAnswers roots s.mem s.answers
  enough : missing s.mem pml4 [] (path vaddr) ≤ s.answers.length

/-- **Mapping and unmapping a page**, for flags that set no address bit that the frame lacks. -/
theorem mapLaws_of_flags (roots : Set UInt64) (s : Vm) (pml4 vaddr paddr flags : UInt64)
    (h : MapCall roots s pml4 vaddr paddr flags) (hzero : NoPageZero roots s.mem)
    (hflags : paddr ||| (flags &&& addrMask) = paddr) : MapLaws roots s pml4 vaddr paddr flags := by
  obtain ⟨htrees, hroot, hvaddr, halign, hbound, hpresent, hfresh, henough⟩ := h
  obtain ⟨s₁, hmap, htables, ⟨pt, ht⟩, hleaves⟩ := mapUserPage_spec ⟨htrees, hzero⟩ hroot
    hvaddr hfresh henough paddr flags
  have hmapped : ∀ v : UInt64, v >>> 12 = vaddr >>> 12 → leaf s₁.mem pml4 v = paddr ||| flags := by
    intro v hv
    rw [hleaves pml4 hroot v (lt_limit_of_samePage hvaddr hv), if_pos ⟨rfl, hv⟩]
  have hset : (paddr ||| flags) &&& ptePresent ≠ 0 := by
    rw [and_or_distrib]
    intro hzero
    apply hpresent
    apply eq_of_bit_eq
    intro i
    have hbit := congrArg (fun x => bit x i) hzero
    simp only [bit_or, bit_zero, Bool.or_eq_false_iff] at hbit
    rw [hbit.2, bit_zero]
  obtain ⟨m₂, hunmap, -, hleaves₂⟩ := unmapUserPage_spec htables hroot hvaddr ht
    (by rw [hmapped vaddr rfl]; exact hset)
  unfold MapLaws
  dsimp only
  rw [hmap, hunmap]
  refine ⟨?_, ?_, ?_, ?_, ?_⟩
  · intro v hv
    rw [translateUserAddr_eq_leaf, hmapped v hv, if_neg (by simpa using hset),
      leafEntry_addr halign hbound hflags]
  · rw [getUserPte_eq_leaf, hmapped vaddr rfl]
  · intro r hr v hv hne
    exact walks_eq_of_leaf_eq (by rw [hleaves r hr v hv, if_neg hne])
  · have hcleared : leaf m₂ pml4 vaddr = 0 := by
      rw [hleaves₂ pml4 hroot vaddr hvaddr, if_pos ⟨rfl, rfl⟩]
    rw [translateUserAddr_eq_leaf, hcleared, UInt64.zero_and, if_pos (by decide)]
  · intro r hr v hv hne
    exact walks_eq_of_leaf_eq (by rw [hleaves₂ r hr v hv, if_neg hne, hleaves r hr v hv, if_neg hne])

theorem answers_ok {a : UInt64} (ha : a ∈ [(0x2000 : UInt64), 0x3000, 0x4000]) :
    a ≠ 0 ∧ PageAligned a ∧ a.toNat < 2 ^ 52 ∧ a ≠ 0x1000 := by
  unfold PageAligned
  simp only [List.mem_cons, List.not_mem_nil, or_false] at ha
  obtain rfl | rfl | rfl := ha
  · decide
  · decide
  · decide

theorem mapCall_zeroMem {flags : UInt64} (hflags : flags &&& ptePresent ≠ 0) :
    MapCall {0x1000} ⟨fun _ => 0, [0x2000, 0x3000, 0x4000]⟩ 0x1000 0 0x5000 flags := by
  refine ⟨(tables_zero pageAligned_0x1000).toTrees, rfl, by decide, by decide, by decide, hflags,
    ⟨by decide, ?_⟩, missing_le_length ..⟩
  intro a ha
  obtain ⟨hzero, haligned, hsmall, hroot⟩ := answers_ok ha
  refine ⟨hzero, haligned, hsmall, ?_⟩
  rintro r rfl q - hx
  exact hroot (table_of_empty (zero_entry _) hx).2

theorem mapLaws_of_flags_zeroMem :
    MapLaws {0x1000} ⟨fun _ => 0, [0x2000, 0x3000, 0x4000]⟩ 0x1000 0 0x5000 7 := by
  refine mapLaws_of_flags _ _ _ _ _ _ ?_ (tables_zero pageAligned_0x1000).nonzero (by decide)
  exact mapCall_zeroMem (by decide)

theorem mapCall_pageZeroMem :
    MapCall {0x1000} ⟨pageZeroMem, [0x2000, 0x3000, 0x4000]⟩ 0x1000 0 0x5000 7 := by
  refine ⟨trees_pageZeroMem, rfl, by decide, by decide, by decide, by decide, ⟨by decide, ?_⟩,
    missing_le_length ..⟩
  intro a ha
  obtain ⟨hzero, haligned, hsmall, hroot⟩ := answers_ok ha
  refine ⟨hzero, haligned, hsmall, ?_⟩
  rintro r rfl q hq hx
  obtain hold | ⟨-, -, hx⟩ := (table_pageZeroMem hq a).mp hx
  · exact hroot (table_of_empty (zero_entry _) hold).2
  · exact hzero hx

/-- The walk stops at the entry that leads to page 0. -/
theorem translateUserAddr_pageZeroMem :
    translateUserAddr (mapUserPage ⟨pageZeroMem, [0x2000, 0x3000, 0x4000]⟩ 0x1000 0 0x5000 7).mem
      0x1000 0 = 0 := by
  have hself : pageZeroMem.read64 (entryAddr 0x1000 0) = 1 := storesEntry_pageZeroMem.self
  have hstop : ∀ {s s' : Vm}, walkOrCreate s 0x1000 0 7 = (0, s') →
      mapUserPage s 0x1000 0 0x5000 7 = s' := by
    intro s s' h
    unfold mapUserPage mapKptiPage
    rw [if_neg (by decide), show pml4Index 0 = 0 from by decide]
    dsimp only
    rw [h, if_pos (beq_self_eq_true _)]
  have hleaf : ∀ {m : Mem} {e : UInt64}, m.read64 (entryAddr 0x1000 0) = e → e &&& addrMask = 0 →
      m.read64 (entryAddr 0 0) = 0 → translateUserAddr m 0x1000 0 = 0 := by
    intro m e he haddr hzero
    unfold translateUserAddr
    dsimp only
    rw [show pml4Index 0 = 0 from by decide, show pdpIndex 0 = 0 from by decide, he, haddr, hzero]
    simp
  obtain heq | heq := walkOrCreate_present (s := ⟨pageZeroMem, [0x2000, 0x3000, 0x4000]⟩)
    7 hself (by decide) (by decide)
  · rw [hstop heq]
    exact hleaf hself (by decide) (pageZeroMem_zero (by decide))
  · rw [hstop heq]
    refine hleaf (Mem.read64_write64_self ..) (by decide) ?_
    rw [Mem.read64_write64_of_ne (entryAddr_aligned pageAligned_0x1000 0)
      (entryAddr_aligned pageAligned_zero 0) (by decide)]
    exact pageZeroMem_zero (by decide)

/-- Flags with an address bit change the frame, and an entry that leads to page 0 stops the walk. -/
theorem not_mapLaws :
    (MapCall {0x1000} ⟨fun _ => 0, [0x2000, 0x3000, 0x4000]⟩ 0x1000 0 0x5000 0x2001 ∧
      ¬ MapLaws {0x1000} ⟨fun _ => 0, [0x2000, 0x3000, 0x4000]⟩ 0x1000 0 0x5000 0x2001) ∧
    (MapCall {0x1000} ⟨pageZeroMem, [0x2000, 0x3000, 0x4000]⟩ 0x1000 0 0x5000 7 ∧
      ¬ MapLaws {0x1000} ⟨pageZeroMem, [0x2000, 0x3000, 0x4000]⟩ 0x1000 0 0x5000 7) := by
  refine ⟨⟨mapCall_zeroMem (by decide), ?_⟩, mapCall_pageZeroMem, ?_⟩
  · intro hlaws
    have hcall := @mapCall_zeroMem 0x2001 (by decide)
    obtain ⟨s₁, hmap, -, -, hleaves⟩ := mapUserPage_spec (tables_zero pageAligned_0x1000) hcall.root
      hcall.user hcall.fresh hcall.enough 0x5000 0x2001
    have hleaf := hleaves 0x1000 rfl 0 (by decide)
    rw [if_pos ⟨rfl, rfl⟩] at hleaf
    have htranslate := hlaws.1 0 rfl
    rw [hmap, translateUserAddr_eq_leaf, hleaf] at htranslate
    exact absurd htranslate (by decide)
  · intro hlaws
    have htranslate := hlaws.1 0 rfl
    rw [translateUserAddr_pageZeroMem] at htranslate
    exact absurd htranslate (by decide)

end Laws

end Keuos.Paging
