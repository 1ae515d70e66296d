import Keuos.Ebr.Equiv.Grace
import Mathlib.Algebra.BigOperators.Fin
import Mathlib.Data.List.Count

/-!
# Conservation of retired pointers

`sweep_spec` says what the in-place compaction of `ebr_reclaim` does to a list that lies in its
region: the list becomes its entries that are not yet safe, in order and with their epochs, the
pointers of the others are pushed in order, every store stays inside the region, and no other
list changes.  From it and from the append of `ebr_retire`, `Conserved` is an invariant of every
run in which no retirement meets a full list that the reclaim cannot shorten (`Room`).

Without that condition the invariant fails: `ebr_retire` appends whether or not the reclaim made
room, so the 513th retirement is stored in the first entry of the next cpu's region
(`not_placed_of_overflow`).
-/

namespace Keuos.Ebr

open Finset

/-! ### Regions -/

/-- The entry at position `i` of a cpu's list, by a natural number. -/
def State.entryAt (s : State) (k : Cpu) (i : Nat) : UInt64 × UInt64 :=
  s.entry k (UInt64.ofNat i)

/-- The first `n` entries of a cpu's list. -/
def State.firstEntries (s : State) (k : Cpu) (n : Nat) : List (UInt64 × UInt64) :=
  (List.range n).map (s.entryAt k)

/-- The retire list of a cpu: the entries its count covers. -/
def State.entries (s : State) (k : Cpu) : List (UInt64 × UInt64) :=
  s.firstEntries k (s.retireCount k).toNat

/-- A store to `RETIRE_LIST` that stays in the 1024 words of the cpu it is made for. -/
def InOwnRegion (x : Cpu × UInt64) : Prop :=
  1024 * x.1.val ≤ x.2.toNat ∧ x.2.toNat < 1024 * x.1.val + 1024

theorem toNat_ofNat_lt {i : Nat} (hi : i < 512) : (UInt64.ofNat i).toNat = i := by
  rw [UInt64.toNat_ofNat', Nat.mod_eq_of_lt (by omega)]

theorem inArray_of_lt (k : Cpu) {i : UInt64} (hi : i.toNat < 512) : InArray k i := by
  have hk : k.val < 16 := k.isLt
  unfold InArray
  omega

theorem inArray_ofNat (k : Cpu) {i : Nat} (hi : i < 512) : InArray k (UInt64.ofNat i) :=
  inArray_of_lt k (by rw [toNat_ofNat_lt hi]; exact hi)

theorem toNat_offset (k : Cpu) {i : Nat} (hi : i < 512) :
    (base k + UInt64.ofNat i * 2).toNat = 1024 * k.val + 2 * i := by
  rw [toNat_base_add (inArray_ofNat k hi), toNat_ofNat_lt hi]

theorem offset_inj {k k' : Cpu} {i j : Nat} (hi : i < 512) (hj : j < 512)
    (h : base k + UInt64.ofNat i * 2 = base k' + UInt64.ofNat j * 2) : k = k' ∧ i = j := by
  have h' := congrArg UInt64.toNat h
  rw [toNat_offset k hi, toNat_offset k' hj] at h'
  exact ⟨Fin.ext (by omega), by omega⟩

theorem entryAt_setEntry (s : State) (cpu k : Cpu) {i j : Nat} (hi : i < 512) (hj : j < 512)
    (epoch ptr : UInt64) :
    (s.setEntry cpu (UInt64.ofNat i) epoch ptr).entryAt k j =
      if k = cpu ∧ j = i then (epoch, ptr) else s.entryAt k j := by
  unfold State.entryAt
  rw [entry_setEntry s (inArray_ofNat cpu hi) (inArray_ofNat k hj)]
  by_cases h : k = cpu ∧ j = i
  · obtain ⟨rfl, rfl⟩ := h
    simp
  · rw [if_neg h, if_neg]
    intro hoff
    exact h (offset_inj hj hi hoff)

theorem entryAt_setCount (s : State) (cpu k : Cpu) (n : UInt64) {j : Nat} (hj : j < 512) :
    (s.setCount cpu n).entryAt k j = s.entryAt k j :=
  entry_setCount s cpu n (inArray_ofNat k hj)

theorem inOwnRegion_setEntry (s : State) (cpu : Cpu) {i : Nat} (hi : i < 512)
    (epoch ptr : UInt64) :
    ∃ ws, (s.setEntry cpu (UInt64.ofNat i) epoch ptr).writes = s.writes ++ ws ∧
      ∀ x ∈ ws, InOwnRegion x := by
  refine ⟨[(cpu, base cpu + UInt64.ofNat i * 2), (cpu, base cpu + UInt64.ofNat i * 2 + 1)],
    by simp [State.setEntry, State.setWord], ?_⟩
  have hoff := toNat_offset cpu hi
  have hk : cpu.val < 16 := cpu.isLt
  have hoff' : (base cpu + UInt64.ofNat i * 2 + 1).toNat = 1024 * cpu.val + 2 * i + 1 := by
    rw [UInt64.toNat_add, hoff, UInt64.toNat_one]
    omega
  intro x hx
  simp only [List.mem_cons, List.not_mem_nil, or_false] at hx
  rcases hx with rfl | rfl
  · exact ⟨by simp only [hoff]; omega, by simp only [hoff]; omega⟩
  · exact ⟨by simp only [hoff']; omega, by simp only [hoff']; omega⟩

/-! ### The compaction -/

/-- An entry that `ebr_reclaim` with safe epoch `safe` keeps. -/
def kept (safe : UInt64) (x : UInt64 × UInt64) : Bool := !decide (x.1 < safe)

/-- What a sweep of the entries `r .. r + n - 1` does when the entries below `w ≤ r` are already
compacted. -/
structure SweepSpec (cpu : Cpu) (safe : UInt64) (n r w : Nat) (s : State)
    (res : State × UInt64) : Prop where
  writeIdx : res.2 = UInt64.ofNat
    (w + (((List.range n).map fun i => s.entryAt cpu (r + i)).filter (kept safe)).length)
  pushed : res.1.pushed = s.pushed ++
    (((List.range n).map fun i => s.entryAt cpu (r + i)).filter fun x => !kept safe x).map Prod.snd
  list : res.1.firstEntries cpu
      (w + (((List.range n).map fun i => s.entryAt cpu (r + i)).filter (kept safe)).length) =
    s.firstEntries cpu w ++ ((List.range n).map fun i => s.entryAt cpu (r + i)).filter (kept safe)
  others : ∀ k j, k ≠ cpu → j < 512 → res.1.entryAt k j = s.entryAt k j
  writes : ∃ ws, res.1.writes = s.writes ++ ws ∧ ∀ x ∈ ws, InOwnRegion x

theorem firstEntries_succ (s : State) (k : Cpu) (n : Nat) :
    s.firstEntries k (n + 1) = s.firstEntries k n ++ [s.entryAt k n] := by
  unfold State.firstEntries
  rw [List.range_succ, List.map_append]
  rfl

theorem map_entryAt_succ (s : State) (cpu : Cpu) (n r : Nat) :
    ((List.range (n + 1)).map fun i => s.entryAt cpu (r + i)) =
      s.entryAt cpu r :: (List.range n).map fun i => s.entryAt cpu (r + 1 + i) := by
  rw [List.range_succ_eq_map, List.map_cons, List.map_map]
  congr 1
  apply List.map_congr_left
  intro i _
  show s.entryAt cpu (r + (i + 1)) = s.entryAt cpu (r + 1 + i)
  congr 1
  omega

/-- One compaction step: the entry at `r` now stands at position `w` too, and no other entry has
changed. -/
theorem entryAt_compact (s : State) (cpu k : Cpu) {w r j : Nat} (hw : w ≤ r) (hr : r < 512)
    (hj : j < 512) :
    (if (UInt64.ofNat w != UInt64.ofNat r) = true then
        s.setEntry cpu (UInt64.ofNat w) (s.entry cpu (UInt64.ofNat r)).1
          (s.entry cpu (UInt64.ofNat r)).2
      else s).entryAt k j = if k = cpu ∧ j = w then s.entryAt cpu r else s.entryAt k j := by
  by_cases hwr : w = r
  · subst hwr
    rw [bne_self_eq_false, if_neg Bool.false_ne_true]
    by_cases h : k = cpu ∧ j = w
    · obtain ⟨rfl, rfl⟩ := h
      rw [if_pos ⟨rfl, rfl⟩]
    · rw [if_neg h]
  · have hne : (UInt64.ofNat w != UInt64.ofNat r) = true := by
      rw [bne_iff_ne]
      intro heq
      have := congrArg UInt64.toNat heq
      rw [UInt64.toNat_ofNat', UInt64.toNat_ofNat', Nat.mod_eq_of_lt (by omega),
        Nat.mod_eq_of_lt (by omega)] at this
      exact hwr this
    rw [if_pos hne, entryAt_setEntry s cpu k (by omega) hj]
    rfl

/-- **The compaction loop.** -/
theorem sweep_spec (cpu : Cpu) (safe : UInt64) : ∀ (n r w : Nat) (s : State), w ≤ r →
    r + n ≤ 512 →
    SweepSpec cpu safe n r w s (sweep cpu safe n (UInt64.ofNat r) (UInt64.ofNat w) s) := by
  intro n
  induction n with
  | zero =>
    intro r w s _ _
    exact ⟨by simp [sweep], by simp [sweep], by simp [sweep], by simp [sweep],
      [], by simp [sweep], by simp⟩
  | succ n ih =>
    intro r w s hw hr
    have hr1 : UInt64.ofNat r + 1 = UInt64.ofNat (r + 1) := by
      rw [UInt64.ofNat_add]
      rfl
    have hw1 : UInt64.ofNat w + 1 = UInt64.ofNat (w + 1) := by
      rw [UInt64.ofNat_add]
      rfl
    rw [sweep]
    simp only
    by_cases hold : (s.entry cpu (UInt64.ofNat r)).1 < safe
    · -- The entry is safe: it is pushed and the compaction position stays.
      rw [if_pos hold, hr1]
      have hk : kept safe (s.entryAt cpu r) = false := by simp [kept, State.entryAt, hold]
      obtain ⟨h1, h2, h3, h4, h5⟩ := ih (r + 1) w (s.pushStack (s.entry cpu (UInt64.ofNat r)).2)
        (by omega) (by omega)
      refine ⟨?_, ?_, ?_, h4, h5⟩
      · rw [h1, map_entryAt_succ, List.filter_cons_of_neg (by simp [hk])]
        rfl
      · rw [h2, map_entryAt_succ, List.filter_cons_of_pos (by simp [hk]), List.map_cons]
        show s.pushed ++ [(s.entryAt cpu r).2] ++ _ = s.pushed ++ (s.entryAt cpu r).2 :: _
        rw [List.append_assoc]
        rfl
      · rw [map_entryAt_succ, List.filter_cons_of_neg (by simp [hk])]
        exact h3
    · rw [if_neg hold, hr1, hw1]
      have hk : kept safe (s.entryAt cpu r) = true := by simp [kept, State.entryAt, hold]
      -- the entry is kept: it moves to the compaction position
      set x := s.entryAt cpu r with hx
      set s' := if (UInt64.ofNat w != UInt64.ofNat r) = true then
          s.setEntry cpu (UInt64.ofNat w) (s.entry cpu (UInt64.ofNat r)).1
            (s.entry cpu (UInt64.ofNat r)).2
        else s with hs'
      have hentry : ∀ k j, j < 512 →
          s'.entryAt k j = if k = cpu ∧ j = w then x else s.entryAt k j :=
        fun k j hj => entryAt_compact s cpu k hw (by omega) hj
      have hpushed : s'.pushed = s.pushed := by
        rw [hs']
        split <;> rfl
      have hwrites : ∃ ws, s'.writes = s.writes ++ ws ∧ ∀ y ∈ ws, InOwnRegion y := by
        rw [hs']
        split
        · exact inOwnRegion_setEntry s cpu (by omega) _ _
        · exact ⟨[], by simp, by simp⟩
      -- the compaction position is not ahead, so the entries still to be read are as before
      have hrest : ((List.range n).map fun i => s'.entryAt cpu (r + 1 + i)) =
          (List.range n).map fun i => s.entryAt cpu (r + 1 + i) := by
        apply List.map_congr_left
        intro i hi
        rw [List.mem_range] at hi
        rw [hentry cpu (r + 1 + i) (by omega), if_neg (by omega)]
      -- the entries kept so far, with this one
      have hdone : s'.firstEntries cpu (w + 1) = s.firstEntries cpu w ++ [x] := by
        rw [firstEntries_succ, hentry cpu w (by omega), if_pos ⟨rfl, rfl⟩]
        congr 1
        apply List.map_congr_left
        intro i hi
        rw [List.mem_range] at hi
        rw [hentry cpu i (by omega), if_neg (by omega)]
      obtain ⟨h1, h2, h3, h4, ws₂, h5, h6⟩ := ih (r + 1) (w + 1) s' (by omega) (by omega)
      rw [hrest] at h1 h2 h3
      rw [hpushed] at h2
      rw [hdone] at h3
      refine ⟨?_, ?_, ?_, ?_, ?_⟩
      · rw [h1, map_entryAt_succ, List.filter_cons_of_pos hk, List.length_cons]
        congr 1
        omega
      · rw [h2, map_entryAt_succ, List.filter_cons_of_neg (by rw [← hx, hk]; simp)]
      · rw [map_entryAt_succ, List.filter_cons_of_pos hk, List.length_cons]
        rw [List.append_assoc, List.singleton_append] at h3
        rw [← h3]
        congr 1
        omega
      · intro k j hkc hj
        rw [h4 k j hkc hj, hentry k j hj, if_neg (by tauto)]
      · obtain ⟨ws₁, hws₁, hin₁⟩ := hwrites
        refine ⟨ws₁ ++ ws₂, by rw [h5, hws₁, List.append_assoc], ?_⟩
        intro y hy
        rcases List.mem_append.mp hy with hy | hy
        · exact hin₁ y hy
        · exact h6 y hy

/-! ### The two operations that touch a retire list -/

theorem ebrReclaim_spec (s : State) (cpu : Cpu) (hcount : ∀ k, (s.retireCount k).toNat ≤ 512) :
    (ebrReclaim s cpu).entries cpu = (s.entries cpu).filter (kept (safeEpoch s)) ∧
    (∀ k, k ≠ cpu → (ebrReclaim s cpu).entries k = s.entries k) ∧
    (ebrReclaim s cpu).pushed =
      s.pushed ++ ((s.entries cpu).filter fun x => !kept (safeEpoch s) x).map Prod.snd ∧
    (∃ ws, (ebrReclaim s cpu).writes = s.writes ++ ws ∧ ∀ x ∈ ws, InOwnRegion x) := by
  obtain ⟨h1, h2, h3, h4, h5⟩ := sweep_spec cpu (safeEpoch s) (s.retireCount cpu).toNat 0 0 s
    (le_refl _) (by simpa using hcount cpu)
  have hall : ((List.range (s.retireCount cpu).toNat).map fun i => s.entryAt cpu (0 + i)) =
      s.entries cpu := by
    simp [State.entries, State.firstEntries]
  rw [hall] at h1 h2 h3
  simp only [Nat.zero_add] at h1 h3
  have hlen : (s.entries cpu).length = (s.retireCount cpu).toNat := by
    simp [State.entries, State.firstEntries]
  have hkept := List.length_filter_le (kept (safeEpoch s)) (s.entries cpu)
  have hcpu := hcount cpu
  have hnew : (UInt64.ofNat ((s.entries cpu).filter (kept (safeEpoch s))).length).toNat =
      ((s.entries cpu).filter (kept (safeEpoch s))).length := by
    rw [UInt64.toNat_ofNat', Nat.mod_eq_of_lt (by omega)]
  obtain ⟨hframe, -⟩ := sweep_retireCount cpu (safeEpoch s) (s.retireCount cpu).toNat 0 0 s
    UInt64.le_rfl (by simp only [UInt64.toNat_zero]; omega)
  refine ⟨?_, ?_, h2, h5⟩
  · have hcnt : (ebrReclaim s cpu).retireCount cpu =
        UInt64.ofNat ((s.entries cpu).filter (kept (safeEpoch s))).length := by
      rw [← h1]
      exact Function.update_self ..
    unfold State.entries at hcnt ⊢
    rw [hcnt, ← State.entries, hnew]
    have hnil : s.firstEntries cpu 0 = [] := rfl
    rw [hnil, List.nil_append] at h3
    refine Eq.trans ?_ h3
    apply List.map_congr_left
    intro i hi
    rw [List.mem_range] at hi
    exact entryAt_setCount _ cpu cpu _ (by omega)
  · intro k hk
    have hcnt : (ebrReclaim s cpu).retireCount k = s.retireCount k := by
      rw [← hframe]
      exact Function.update_of_ne hk ..
    unfold State.entries
    rw [hcnt]
    apply List.map_congr_left
    intro i hi
    rw [List.mem_range] at hi
    have hk' := hcount k
    rw [← h4 k i hk (by omega)]
    exact entryAt_setCount _ cpu k _ (by omega)

theorem append_spec (s : State) (cpu : Cpu) (hcount : ∀ k, (s.retireCount k).toNat ≤ 512)
    (hroom : (s.retireCount cpu).toNat < 512) (epoch ptr : UInt64) :
    let s' := (s.setEntry cpu (s.retireCount cpu) epoch ptr).setCount cpu (s.retireCount cpu + 1)
    s'.entries cpu = s.entries cpu ++ [(epoch, ptr)] ∧
    (∀ k, k ≠ cpu → s'.entries k = s.entries k) ∧
    (∃ ws, s'.writes = s.writes ++ ws ∧ ∀ x ∈ ws, InOwnRegion x) := by
  intro s'
  have hidx : UInt64.ofNat (s.retireCount cpu).toNat = s.retireCount cpu := UInt64.ofNat_toNat
  have hsucc : (s.retireCount cpu + 1).toNat = (s.retireCount cpu).toNat + 1 := by
    rw [UInt64.toNat_add, UInt64.toNat_one, Nat.mod_eq_of_lt (by omega)]
  have hentry : ∀ k j, j < 512 → s'.entryAt k j =
      if k = cpu ∧ j = (s.retireCount cpu).toNat then (epoch, ptr) else s.entryAt k j := by
    intro k j hj
    have := entryAt_setEntry s cpu k hroom hj epoch ptr
    rw [hidx] at this
    rw [← this]
    exact entryAt_setCount _ cpu k _ hj
  refine ⟨?_, ?_, ?_⟩
  · have hcnt : s'.retireCount cpu = s.retireCount cpu + 1 := Function.update_self ..
    unfold State.entries
    rw [hcnt, hsucc, firstEntries_succ, hentry cpu _ hroom, if_pos ⟨rfl, rfl⟩]
    congr 1
    apply List.map_congr_left
    intro i hi
    rw [List.mem_range] at hi
    rw [hentry cpu i (by omega), if_neg (by omega)]
  · intro k hk
    have hcnt : s'.retireCount k = s.retireCount k := by
      rw [← retireCount_setEntry s (inArray_of_lt cpu hroom) epoch ptr]
      exact Function.update_of_ne hk ..
    unfold State.entries
    rw [hcnt]
    apply List.map_congr_left
    intro i hi
    rw [List.mem_range] at hi
    have hk' := hcount k
    rw [hentry k i (by omega), if_neg (by tauto)]
  · obtain ⟨ws, h1, h2⟩ := inOwnRegion_setEntry s cpu hroom epoch ptr
    rw [hidx] at h1
    exact ⟨ws, h1, h2⟩

/-! ### The invariant -/

/-- How often a pointer waits in a cpu's list. -/
def State.waitingCount (s : State) (k : Cpu) (ptr : UInt64) : Nat :=
  ((s.entries k).map Prod.snd).count ptr

/-- The lists are in their regions, every store was, every waiting entry is a retirement of its
list's cpu, and each retirement of a pointer is accounted for by one waiting entry or one
push. -/
structure Conserved (s : State) : Prop where
  count_le : ∀ k, (s.retireCount k).toNat ≤ 512
  writes : ∀ x ∈ s.writes, InOwnRegion x
  origin : ∀ k, ∀ x ∈ s.entries k, (k, x) ∈ s.retired
  balance : ∀ ptr, (s.retired.map fun x => x.2.2).count ptr =
    s.pushed.count ptr + ∑ k, s.waitingCount k ptr

theorem conserved_init : Conserved init := by
  refine ⟨by simp [init], by simp [init], ?_, ?_⟩
  · intro k x hx
    simp [State.entries, State.firstEntries, init] at hx
  · intro ptr
    simp [State.waitingCount, State.entries, State.firstEntries, init]

theorem sum_add_of_update {f g : Cpu → Nat} (cpu : Cpu) (hother : ∀ k, k ≠ cpu → g k = f k)
    {d u : Nat} (h : g cpu + d = f cpu + u) : (∑ k, g k) + d = (∑ k, f k) + u := by
  rw [← Finset.add_sum_erase univ g (mem_univ cpu), ← Finset.add_sum_erase univ f (mem_univ cpu)]
  have hrest : ∑ k ∈ univ.erase cpu, g k = ∑ k ∈ univ.erase cpu, f k := by
    apply Finset.sum_congr rfl
    intro k hk
    exact hother k (Finset.ne_of_mem_erase hk)
  omega

theorem count_filter_add (p : UInt64 × UInt64 → Bool) (l : List (UInt64 × UInt64))
    (ptr : UInt64) :
    ((l.filter p).map Prod.snd).count ptr + ((l.filter fun x => !p x).map Prod.snd).count ptr =
      (l.map Prod.snd).count ptr := by
  induction l with
  | nil => simp
  | cons x l ih =>
    cases hp : p x <;> simp [hp, List.count_cons] <;> omega

theorem length_entries (s : State) (k : Cpu) : (s.entries k).length = (s.retireCount k).toNat := by
  simp [State.entries, State.firstEntries]

theorem Conserved.reclaim {s : State} (h : Conserved s) (cpu : Cpu) :
    Conserved (ebrReclaim s cpu) := by
  obtain ⟨h1, h2, h3, ws, h4, h5⟩ := ebrReclaim_spec s cpu h.count_le
  have hretired : (ebrReclaim s cpu).retired = s.retired :=
    (sweep_frame cpu (safeEpoch s) (s.retireCount cpu).toNat 0 0 s).2.2.2
  refine ⟨?_, ?_, ?_, ?_⟩
  · intro k
    rw [← length_entries]
    by_cases hk : k = cpu
    · subst hk
      rw [h1]
      have := List.length_filter_le (kept (safeEpoch s)) (s.entries k)
      rw [length_entries] at this
      exact this.trans (h.count_le k)
    · rw [h2 k hk, length_entries]
      exact h.count_le k
  · intro x hx
    rw [h4] at hx
    rcases List.mem_append.mp hx with hx | hx
    · exact h.writes x hx
    · exact h5 x hx
  · intro k x hx
    rw [hretired]
    by_cases hk : k = cpu
    · subst hk
      rw [h1] at hx
      exact h.origin k x (List.mem_of_mem_filter hx)
    · rw [h2 k hk] at hx
      exact h.origin k x hx
  · intro ptr
    have hsum := sum_add_of_update (f := fun k => s.waitingCount k ptr)
      (g := fun k => (ebrReclaim s cpu).waitingCount k ptr) cpu
      (d := (((s.entries cpu).filter fun x => !kept (safeEpoch s) x).map Prod.snd).count ptr)
      (u := 0) (fun k hk => by simp only [State.waitingCount, h2 k hk])
      (by simp only [State.waitingCount, h1]; exact count_filter_add _ _ _)
    rw [hretired, h.balance ptr, h3, List.count_append]
    omega

theorem Conserved.append {s : State} (h : Conserved s) (cpu : Cpu) (ptr : UInt64)
    (hroom : (s.retireCount cpu).toNat < 512) :
    Conserved { (s.setEntry cpu (s.retireCount cpu) s.globalEpoch ptr).setCount cpu
        (s.retireCount cpu + 1) with
      retired := s.retired ++ [(cpu, s.globalEpoch, ptr)] } := by
  obtain ⟨h1, h2, ws, h3, h4⟩ := append_spec s cpu h.count_le hroom s.globalEpoch ptr
  set s' := (s.setEntry cpu (s.retireCount cpu) s.globalEpoch ptr).setCount cpu
    (s.retireCount cpu + 1) with hs'
  refine ⟨?_, ?_, ?_, ?_⟩
  · intro k
    show (s'.retireCount k).toNat ≤ 512
    rw [← length_entries]
    by_cases hk : k = cpu
    · subst hk
      rw [h1, List.length_append, length_entries]
      exact hroom
    · rw [h2 k hk, length_entries]
      exact h.count_le k
  · intro x hx
    have hx' : x ∈ s'.writes := hx
    rw [h3] at hx'
    rcases List.mem_append.mp hx' with hx' | hx'
    · exact h.writes x hx'
    · exact h4 x hx'
  · intro k x hx
    have hx' : x ∈ s'.entries k := hx
    by_cases hk : k = cpu
    · subst hk
      rw [h1] at hx'
      rcases List.mem_append.mp hx' with hx' | hx'
      · exact List.mem_append_left _ (h.origin k x hx')
      · rw [List.mem_singleton] at hx'
        rw [hx']
        exact List.mem_append_right _ (List.mem_singleton.mpr rfl)
    · rw [h2 k hk] at hx'
      exact List.mem_append_left _ (h.origin k x hx')
  · intro q
    -- One retirement more, and one waiting entry more, in the list of this core.
    have hsum := sum_add_of_update (f := fun k => s.waitingCount k q)
      (g := fun k => s'.waitingCount k q) cpu (d := 0) (u := [ptr].count q)
      (fun k hk => by simp only [State.waitingCount, h2 k hk])
      (by simp only [State.waitingCount, h1, List.map_append, List.count_append]; rfl)
    show ((s.retired ++ [(cpu, s.globalEpoch, ptr)]).map fun x => x.2.2).count q =
      s.pushed.count q + ∑ k, s'.waitingCount k q
    rw [List.map_append, List.count_append, h.balance q]
    simp only [List.map_cons, List.map_nil]
    omega

/-- The condition on a step: a retirement finds room, or its list holds an entry that the reclaim
it triggers will free. -/
def Room (s : State) : Op → Prop
  | .retire cpu _ => s.retireCount cpu < maxRetirePerCore ∨
      ∃ j, j < s.retireCount cpu ∧ (s.entry cpu j).1 < safeEpoch s
  | _ => True

theorem retireCount_ebrReclaim_lt {s : State} (h : Conserved s) (cpu : Cpu) {j : UInt64}
    (hj : j < s.retireCount cpu) (hsafe : (s.entry cpu j).1 < safeEpoch s) :
    ((ebrReclaim s cpu).retireCount cpu).toNat < 512 := by
  obtain ⟨h1, -⟩ := ebrReclaim_spec s cpu h.count_le
  have hmem : s.entry cpu j ∈ s.entries cpu := by
    unfold State.entries State.firstEntries State.entryAt
    rw [List.mem_map]
    exact ⟨j.toNat, List.mem_range.mpr (UInt64.lt_iff_toNat_lt.mp hj), by rw [UInt64.ofNat_toNat]⟩
  have hlt : ((s.entries cpu).filter (kept (safeEpoch s))).length < (s.entries cpu).length :=
    List.length_filter_lt_length_iff_exists.mpr ⟨_, hmem, by simp [kept, hsafe]⟩
  rw [← length_entries, h1]
  have := h.count_le cpu
  rw [length_entries] at hlt
  omega

/-- **One step**: a call that meets `Room` keeps the invariant. -/
theorem Conserved.exec {s : State} (h : Conserved s) (o : Op) (ho : Room s o) :
    Conserved (exec s o) := by
  cases o with
  | enter cpu => exact ⟨h.count_le, h.writes, h.origin, h.balance⟩
  | exit cpu => exact ⟨h.count_le, h.writes, h.origin, h.balance⟩
  | advance =>
    show Conserved (ebrAdvanceEpoch s)
    unfold ebrAdvanceEpoch
    simp only
    split
    · exact ⟨h.count_le, h.writes, h.origin, h.balance⟩
    · exact h
  | reclaim cpu => exact h.reclaim cpu
  | retire cpu ptr =>
    show Conserved (ebrRetire s cpu ptr)
    unfold ebrRetire
    by_cases hfull : s.retireCount cpu ≥ maxRetirePerCore
    · simp only [hfull, ↓reduceIte]
      rcases ho with hlt | ⟨j, hj, hsafe⟩
      · exact absurd hlt (UInt64.not_lt.mpr hfull)
      · exact (h.reclaim cpu).append cpu ptr (retireCount_ebrReclaim_lt h cpu hj hsafe)
    · simp only [hfull, ↓reduceIte]
      refine h.append cpu ptr ?_
      have := UInt64.lt_iff_toNat_lt.mp (UInt64.not_le.mp hfull)
      exact this

/-! ### Every retired pointer is in exactly one place -/

/-- The pointers retired by a sequence of calls, in order. -/
def retiredPtrs : List Op → List UInt64
  | [] => []
  | .retire _ ptr :: ops => ptr :: retiredPtrs ops
  | _ :: ops => retiredPtrs ops

theorem retired_runOps (ops : List Op) : ∀ s : State,
    ((runOps exec s ops).retired.map fun x => x.2.2) =
      (s.retired.map fun x => x.2.2) ++ retiredPtrs ops := by
  induction ops with
  | nil =>
    intro s
    simp [retiredPtrs]
  | cons o ops ih =>
    intro s
    rw [runOps_cons, ih]
    cases o with
    | enter cpu => rfl
    | exit cpu => rfl
    | advance =>
      have : (ebrAdvanceEpoch s).retired = s.retired := by
        unfold ebrAdvanceEpoch
        simp only
        split <;> rfl
      rw [exec, this]
      rfl
    | reclaim cpu =>
      have : (ebrReclaim s cpu).retired = s.retired :=
        (sweep_frame cpu (safeEpoch s) (s.retireCount cpu).toNat 0 0 s).2.2.2
      rw [exec, this]
      rfl
    | retire cpu ptr =>
      have : (ebrRetire s cpu ptr).retired.map (fun x => x.2.2) =
          (s.retired.map fun x => x.2.2) ++ [ptr] := by
        have hreclaim : (ebrReclaim s cpu).retired = s.retired :=
          (sweep_frame cpu (safeEpoch s) (s.retireCount cpu).toNat 0 0 s).2.2.2
        unfold ebrRetire State.setCount State.setEntry State.setWord
        simp only [List.map_append]
        split
        · rw [hreclaim]
          rfl
        · rfl
      rw [exec, this, retiredPtrs, List.append_assoc]
      rfl

/-- Where the retirement `(cpu, epoch, ptr)` is: once in the retire list of its cpu with its
epoch, in no other entry and not pushed; or pushed once and in no list. -/
def PlacedOnce (s : State) (x : Cpu × UInt64 × UInt64) : Prop :=
  (s.pushed.count x.2.2 = 0 ∧ (s.entries x.1).count x.2 = 1 ∧
    ∀ k, ∀ y ∈ s.entries k, y.2 = x.2.2 → k = x.1 ∧ y = x.2) ∨
  (s.pushed.count x.2.2 = 1 ∧ ∀ k, ∀ y ∈ s.entries k, y.2 ≠ x.2.2)

/-- The three properties of a state: counts, stores and places. -/
def Accounted (s : State) : Prop :=
  (∀ k, s.retireCount k ≤ maxRetirePerCore) ∧ (∀ x ∈ s.writes, InOwnRegion x) ∧
  ∀ x ∈ s.retired, PlacedOnce s x

theorem count_eq_count_snd {l : List (UInt64 × UInt64)} {x : UInt64 × UInt64}
    (h : ∀ y ∈ l, y.2 = x.2 → y = x) : l.count x = (l.map Prod.snd).count x.2 := by
  induction l with
  | nil => rfl
  | cons y l ih =>
    have ih' := ih fun z hz => h z (List.mem_cons_of_mem _ hz)
    rw [List.map_cons, List.count_cons, List.count_cons, ih']
    by_cases hy : y.2 = x.2
    · have : y = x := h y (List.mem_cons_self ..) hy
      simp [this]
    · have : y ≠ x := fun he => hy (by rw [he])
      simp [this, hy]

theorem Conserved.placedOnce {s : State} (h : Conserved s)
    (hnodup : (s.retired.map fun x => x.2.2).Nodup) {x : Cpu × UInt64 × UInt64}
    (hx : x ∈ s.retired) : PlacedOnce s x := by
  have hmem : x.2.2 ∈ s.retired.map fun x => x.2.2 := List.mem_map_of_mem hx
  have hone : s.pushed.count x.2.2 + ∑ k, s.waitingCount k x.2.2 = 1 := by
    rw [← h.balance, List.count_eq_one_of_mem hnodup hmem]
  -- A waiting entry of this pointer is the retirement itself, since pointers are distinct.
  have horigin : ∀ k, ∀ y ∈ s.entries k, y.2 = x.2.2 → k = x.1 ∧ y = x.2 := by
    intro k y hy hptr
    have heq : (k, y) = x := List.inj_on_of_nodup_map hnodup (h.origin k y hy) hx hptr
    rw [← heq]
    exact ⟨rfl, rfl⟩
  have hwait : ∀ k, k ≠ x.1 → s.waitingCount k x.2.2 = 0 := by
    intro k hk
    unfold State.waitingCount
    rw [List.count_eq_zero]
    intro hin
    obtain ⟨y, hy, hyp⟩ := List.mem_map.mp hin
    exact hk (horigin k y hy hyp).1
  have hsum : ∑ k, s.waitingCount k x.2.2 = s.waitingCount x.1 x.2.2 :=
    Finset.sum_eq_single x.1 (fun k _ hk => hwait k hk) (fun hn => absurd (mem_univ _) hn)
  rw [hsum] at hone
  rcases Nat.eq_zero_or_pos (s.pushed.count x.2.2) with hzero | hpos
  · left
    refine ⟨hzero, ?_, horigin⟩
    rw [count_eq_count_snd fun y hy hptr => (horigin x.1 y hy hptr).2]
    unfold State.waitingCount at hone
    omega
  · right
    refine ⟨by omega, ?_⟩
    intro k y hy hptr
    obtain ⟨rfl, -⟩ := horigin k y hy hptr
    have hzero : s.waitingCount x.1 x.2.2 = 0 := by omega
    unfold State.waitingCount at hzero
    rw [List.count_eq_zero] at hzero
    exact hzero (by rw [← hptr]; exact List.mem_map_of_mem hy)

/-- **Conservation.** In every run whose retirements all find room, retiring distinct pointers,
every count is at most 512, every store to `RETIRE_LIST` stays in the region of its cpu, and
every retired pointer is in exactly one place. -/
theorem accounted_of_room (ops : List Op) (hptrs : (retiredPtrs ops).Nodup)
    (hroom : Admissible exec Room init ops) : Accounted (run ops) := by
  have h : Conserved (run ops) :=
    runOps_induction (I := Conserved) (fun s o hs ho => hs.exec o ho) conserved_init hroom
  have hnodup : ((run ops).retired.map fun x => x.2.2).Nodup := by
    unfold run
    rw [retired_runOps]
    simpa [init] using hptrs
  refine ⟨?_, h.writes, fun x hx => h.placedOnce hnodup hx⟩
  intro k
  rw [UInt64.le_iff_toNat_le]
  exact h.count_le k

/-- Two retirements, an advance and a reclaim: the first pointer is pushed, the second waits. -/
theorem accounted_of_room_two :
    Accounted (run [.retire 0 7, .advance, .retire 3 8, .reclaim 0]) :=
  accounted_of_room [.retire 0 7, .advance, .retire 3 8, .reclaim 0] (by decide)
    ⟨Or.inl (by decide), trivial, Or.inl (by decide), trivial, trivial⟩

/-! ### The 513th retirement -/

theorem sweep_zero (cpu : Cpu) : ∀ (n : Nat) (r w : UInt64) (s : State),
    (sweep cpu 0 n r w s).2 = w + UInt64.ofNat n := by
  intro n
  induction n with
  | zero =>
    intro r w s
    simp [sweep]
  | succ n ih =>
    intro r w s
    rw [sweep]
    simp only
    rw [if_neg UInt64.not_lt_zero, ih, UInt64.ofNat_add]
    show w + 1 + UInt64.ofNat n = w + (UInt64.ofNat n + 1)
    grind

theorem retireCount_ebrRetire_zero (s : State) (cpu : Cpu) (ptr : UInt64)
    (h0 : s.globalEpoch = 0) :
    (ebrRetire s cpu ptr).retireCount cpu = s.retireCount cpu + 1 ∧
    (ebrRetire s cpu ptr).globalEpoch = 0 := by
  have hsafe : safeEpoch s = 0 := by
    have := (foldl_safe_le s (List.finRange 16) s.globalEpoch).1
    rw [h0] at this
    exact UInt64.le_zero_iff.mp (by unfold safeEpoch; rw [h0]; exact this)
  have hcount : (ebrReclaim s cpu).retireCount cpu = s.retireCount cpu := by
    unfold ebrReclaim
    simp only [hsafe, State.setCount, Function.update_self]
    rw [sweep_zero, UInt64.ofNat_toNat, UInt64.zero_add]
  have hglobal : (ebrReclaim s cpu).globalEpoch = 0 := by
    rw [← h0]
    exact (sweep_frame cpu (safeEpoch s) (s.retireCount cpu).toNat 0 0 s).1
  unfold ebrRetire
  simp only [State.setCount, Function.update_self]
  split
  · exact ⟨by rw [hcount], hglobal⟩
  · exact ⟨rfl, h0⟩

theorem retireCount_fill (cpu : Cpu) : ∀ (ptrs : List UInt64) (s : State), s.globalEpoch = 0 →
    (runOps exec s (ptrs.map (Op.retire cpu))).retireCount cpu =
      s.retireCount cpu + UInt64.ofNat ptrs.length := by
  intro ptrs
  induction ptrs with
  | nil =>
    intro s _
    simp
  | cons p ptrs ih =>
    intro s h0
    obtain ⟨h1, h2⟩ := retireCount_ebrRetire_zero s cpu p h0
    rw [List.map_cons, runOps_cons, exec, ih _ h2, h1, List.length_cons, UInt64.ofNat_add]
    show s.retireCount cpu + 1 + UInt64.ofNat ptrs.length =
      s.retireCount cpu + (UInt64.ofNat ptrs.length + 1)
    grind

theorem retiredPtrs_fill (c cpu : Cpu) (ptrs : List UInt64) :
    retiredPtrs (.enter c :: ptrs.map (Op.retire cpu)) = ptrs := by
  rw [retiredPtrs]
  · induction ptrs with
    | nil => rfl
    | cons p ptrs ih => rw [List.map_cons, retiredPtrs, ih]
  · simp

/-- The pointers `1 .. 513`. -/
def ptrs513 : List UInt64 := (List.range 513).map fun i => UInt64.ofNat (i + 1)

/-- While core 0 is inside a critical section it retires 513 pointers: the last one is stored
past the end of its region. -/
theorem not_placed_of_overflow :
    ¬ ∀ ops : List Op, (retiredPtrs ops).Nodup → Accounted (run ops) := by
  intro h
  have hnodup : ptrs513.Nodup := by
    unfold ptrs513
    refine List.Nodup.map_on ?_ List.nodup_range
    intro i hi j hj heq
    rw [List.mem_range] at hi hj
    have := congrArg UInt64.toNat heq
    rw [UInt64.toNat_ofNat', UInt64.toNat_ofNat', Nat.mod_eq_of_lt (by omega),
      Nat.mod_eq_of_lt (by omega)] at this
    omega
  have hcount := (h (.enter 0 :: ptrs513.map (Op.retire 0)) 
    (by rw [retiredPtrs_fill]; exact hnodup)).1 0
  have hrun : (run (.enter 0 :: ptrs513.map (Op.retire 0))).retireCount 0 = 513 := by
    unfold run
    rw [runOps_cons, retireCount_fill 0 ptrs513 _ rfl]
    simp [ptrs513, exec, ebrEnterEpoch, init]
  rw [hrun] at hcount
  exact absurd hcount (by decide)

end Keuos.Ebr
