import Keuos.Paging.Equiv.Teardown
import Keuos.Reclaim.Defs

/-!
# Who frees the pages of a ring

A page that `init_ring` has obtained is to be passed to `pmm.free` once, and until then the entry of
`RING_TABLE` is the only record of it.  Two things go wrong.  A second `init_ring` overwrites the entry of
the first, whose pages are then lost.  And no path unmaps the pages of a ring: `destroy_ring` frees them,
and the sweep of `keuos_reclaim`, which finds them in the page tables, frees them again.

## Main results

* `ringPages_of_careful`: in every run in which no process maps a ring over an active one and no
  reclamation finds a page of a ring in the page tables, every page of a ring is freed once.
* `not_freedOnce_remap`: a process that maps its ring twice and exits has lost two pages.
-/

namespace Keuos.Reclaim

open Paging Process RingAbi Ledger

/-- The entry is active and records the page. -/
def RingEntry.Holds (e : RingEntry) (x : UInt64) : Prop :=
  e.active = 1 ∧ x ∈ e.pages

/-- Since a page was allocated for a ring it was freed at most once, and as long as it was not, the
entry of that ring records it.  After an exit, which clears the entry, it was freed. -/
structure FreedOnce (k : Kernel) : Prop where
  once : ∀ x slot, owner x k.log = some (.ring slot) → frees x k.log ≤ 1
  kept : ∀ x slot, owner x k.log = some (.ring slot) → frees x k.log = 0 → (k.rings slot).Holds x

section Careful

variable (k : Kernel)

/-- The page was last allocated for a ring. -/
def OfRing (x : UInt64) : Prop := ∃ slot, owner x k.log = some (.ring slot)

/-- The page was allocated for a ring and not freed since. -/
def Out (x : UInt64) : Prop := OfRing k x ∧ frees x k.log = 0

/-- What `pmm.alloc` promises: pages that are not in use. -/
structure Fresh (answers : List UInt64) : Prop where
  nodup : (answers.filter (· != 0)).Nodup
  unused : ∀ a ∈ answers, a ≠ 0 → ¬ Out k a

/-- Both allocations of `init_ring` succeed. -/
def Obtains (answers : List UInt64) : Prop :=
  ∃ sq cq rest, answers = sq :: cq :: rest ∧ sq ≠ 0 ∧ cq ≠ 0

/-- **The side condition.** A ring is not mapped over an active one; the entries that a reclamation
walks do not lead to a page of a ring; the other pages that are freed are not pages of a ring, and
`pmm.alloc` hands out no page that is in use.  Slots from 16 on have no entry in `RING_TABLE`. -/
def Careful : Op → Prop
  | .ringMap capFlags answers =>
    capFlags &&& capFlagRingAbi ≠ 0 →
      k.procs.currentPid < ringTableLen ∧ Fresh k answers ∧
        ((k.rings k.procs.currentPid).active = 1 → ¬ Obtains answers)
  | .exit _ =>
    k.procs.currentPid < ringTableLen ∧ ∀ x ∈ fdPages k k.procs.currentPid, ¬ OfRing k x
  | .reclaim pid =>
    pid < ringTableLen ∧
      ((k.procs.table pid).userPml4 ≠ 0 → PageAligned (k.procs.table pid).userPml4 ∧
        ∀ x, Reaches k.mem (k.procs.table pid).userPml4 userEntries 4 x → ¬ OfRing k x) ∧
      ∀ x ∈ kernelStackPages k.procs pid, ¬ OfRing k x
  | .other _ _ allocated => ∀ a ∈ allocated, ¬ Out k a

end Careful

/-! ### The invariant -/

/-- `FreedOnce`, with what the active entries record: pages that are allocated for that ring. -/
structure Sound (k : Kernel) : Prop extends FreedOnce k where
  held : ∀ slot, (k.rings slot).active = 1 → ∀ x ∈ (k.rings slot).pages,
    owner x k.log = some (.ring slot) ∧ frees x k.log = 0
  nodup : ∀ slot, (k.rings slot).active = 1 → (k.rings slot).pages.Nodup

theorem sound_start (mem : Mem) (procs : Procs) : Sound (Kernel.start mem procs) where
  once := fun _ _ h => nomatch h
  kept := fun _ _ h => nomatch h
  held := fun _ h => absurd h (by change ¬ (0 : UInt64) = 1; decide)
  nodup := fun _ h => absurd h (by change ¬ (0 : UInt64) = 1; decide)

section Steps

variable {k : Kernel}

theorem Sound.congr (h : Sound k) {k' : Kernel} (hrings : k'.rings = k.rings) (hlog : k'.log = k.log) :
    Sound k' := by
  obtain ⟨⟨honce, hkept⟩, hheld, hnodup⟩ := h
  rw [← hlog] at honce hkept hheld
  rw [← hrings] at hkept hheld hnodup
  exact ⟨⟨honce, hkept⟩, hheld, hnodup⟩

theorem Sound.freeOthers (h : Sound k) {xs : List UInt64} (hxs : ∀ x ∈ xs, ¬ OfRing k x) :
    Sound { k with log := freeAll xs k.log } := by
  have hfrees : ∀ x slot, owner x k.log = some (.ring slot) →
      frees x (freeAll xs k.log) = frees x k.log := by
    intro x slot hx
    rw [frees_freeAll, List.count_eq_zero.mpr fun hmem => hxs x hmem ⟨slot, hx⟩, Nat.add_zero]
  refine ⟨⟨?_, ?_⟩, ?_, h.nodup⟩
  · intro x slot hx
    rw [owner_freeAll] at hx
    rw [hfrees x slot hx]
    exact h.once x slot hx
  · intro x slot hx hzero
    rw [owner_freeAll] at hx
    rw [hfrees x slot hx] at hzero
    exact h.kept x slot hx hzero
  · intro slot hactive x hx
    obtain ⟨howner, hzero⟩ := h.held slot hactive x hx
    exact ⟨(owner_freeAll ..).trans howner, (hfrees x slot howner).trans hzero⟩

theorem Sound.handOthers (h : Sound k) {xs : List UInt64} (hxs : ∀ x ∈ xs, ¬ Out k x) :
    Sound { k with log := handAll .other xs k.log } := by
  -- a page that a ring owns afterwards was not handed out
  have hback : ∀ x slot, owner x (handAll .other xs k.log) = some (.ring slot) → x ∉ xs := by
    intro x slot hx hmem
    rw [owner_handAll_of_mem Owner.other k.log hmem] at hx
    cases hx
  refine ⟨⟨?_, ?_⟩, ?_, h.nodup⟩
  · intro x slot hx
    have hx' := hback x slot hx
    rw [owner_handAll_of_not_mem _ _ hx'] at hx
    rw [frees_handAll_of_not_mem _ _ hx']
    exact h.once x slot hx
  · intro x slot hx hzero
    have hx' := hback x slot hx
    rw [owner_handAll_of_not_mem _ _ hx'] at hx
    rw [frees_handAll_of_not_mem _ _ hx'] at hzero
    exact h.kept x slot hx hzero
  · intro slot hactive x hx
    obtain ⟨howner, hzero⟩ := h.held slot hactive x hx
    have hx' : x ∉ xs := fun hmem => hxs x hmem ⟨⟨slot, howner⟩, hzero⟩
    exact ⟨(owner_handAll_of_not_mem _ _ hx').trans howner,
      (frees_handAll_of_not_mem _ _ hx').trans hzero⟩

/-- **The end of a ring**: its entry is cleared, and its pages are freed. -/
theorem Sound.destroyRing (h : Sound k) (slot : UInt64) : Sound (destroyRing k slot) := by
  unfold Reclaim.destroyRing
  by_cases hactive : (k.rings slot).active = 1
  · rw [if_neg (by rw [hactive]; decide)]
    -- only the pages of this ring are freed, each of them once
    have hcount : ∀ x slot', owner x k.log = some (.ring slot') → slot' ≠ slot →
        (k.rings slot).pages.count x = 0 := by
      intro x slot' hx hne
      refine List.count_eq_zero.mpr fun hmem => hne ?_
      have howner := (h.held slot hactive x hmem).1.symm.trans hx
      cases howner
      rfl
    refine ⟨⟨?_, ?_⟩, ?_, ?_⟩
    · intro x slot' hx
      dsimp only at hx ⊢
      rw [owner_freeAll] at hx
      rw [frees_freeAll]
      by_cases hmem : x ∈ (k.rings slot).pages
      · rw [(h.held slot hactive x hmem).2, Nat.zero_add]
        exact List.nodup_iff_count_le_one.mp (h.nodup slot hactive) x
      · rw [List.count_eq_zero.mpr hmem, Nat.add_zero]
        exact h.once x slot' hx
    · intro x slot' hx hzero
      dsimp only at hx hzero ⊢
      rw [owner_freeAll] at hx
      rw [frees_freeAll] at hzero
      have hheld := h.kept x slot' hx (by omega)
      by_cases hne : slot' = slot
      · subst hne
        have hpos := List.count_pos_iff.mpr hheld.2
        omega
      · rw [Function.update_of_ne hne]
        exact hheld
    · intro slot' hactive' x hx
      dsimp only at hactive' hx ⊢
      by_cases hne : slot' = slot
      · subst hne
        rw [Function.update_self] at hactive'
        exact absurd hactive' (by decide)
      · rw [Function.update_of_ne hne] at hactive' hx
        obtain ⟨howner, hzero⟩ := h.held slot' hactive' x hx
        refine ⟨(owner_freeAll ..).trans howner, ?_⟩
        rw [frees_freeAll, hzero, hcount x slot' howner hne]
    · intro slot' hactive'
      dsimp only at hactive' ⊢
      by_cases hne : slot' = slot
      · subst hne
        rw [Function.update_self] at hactive'
        exact absurd hactive' (by decide)
      · rw [Function.update_of_ne hne] at hactive' ⊢
        exact h.nodup slot' hactive'
  · rw [if_pos (by simpa using hactive)]
    exact h

theorem Sound.giveBack (h : Sound k) (slot : UInt64) {sq : UInt64} (hsq : ¬ Out k sq) :
    Sound { k with log := .freed sq :: .handed (.ring slot) sq :: k.log } := by
  have hother : ∀ x, sq ≠ x → owner x (.freed sq :: .handed (.ring slot) sq :: k.log) = owner x k.log ∧
      frees x (.freed sq :: .handed (.ring slot) sq :: k.log) = frees x k.log := by
    intro x hx
    exact ⟨(owner_freed.trans (owner_handed_of_ne hx)),
      (frees_freed_of_ne hx).trans (frees_handed_of_ne hx)⟩
  have hself : frees sq (.freed sq :: .handed (Owner.ring slot) sq :: k.log) = 1 := by
    rw [frees_freed_self, frees_handed_self]
  refine ⟨⟨?_, ?_⟩, ?_, h.nodup⟩
  · intro x slot' hx
    dsimp only at hx ⊢
    by_cases hne : sq = x
    · subst hne
      rw [hself]
    · rw [(hother x hne).1] at hx
      rw [(hother x hne).2]
      exact h.once x slot' hx
  · intro x slot' hx hzero
    dsimp only at hx hzero ⊢
    by_cases hne : sq = x
    · subst hne
      rw [hself] at hzero
      exact absurd hzero (by decide)
    · rw [(hother x hne).1] at hx
      rw [(hother x hne).2] at hzero
      exact h.kept x slot' hx hzero
  · intro slot' hactive x hx
    obtain ⟨howner, hzero⟩ := h.held slot' hactive x hx
    have hne : sq ≠ x := by
      rintro rfl
      exact hsq ⟨⟨slot', howner⟩, hzero⟩
    exact ⟨(hother x hne).1.trans howner, (hother x hne).2.trans hzero⟩

/-- **A new ring** takes over an entry that is not active. -/
theorem Sound.newRing (h : Sound k) {slot sq cq : UInt64} (hidle : (k.rings slot).active ≠ 1)
    (hsq : ¬ Out k sq) (hcq : ¬ Out k cq) (hne : sq ≠ cq) {e : RingEntry}
    (hpages : e.pages = [sq, cq]) (hactive : e.active = 1) :
    Sound { k with
      rings := Function.update k.rings slot e
      log := .handed (.ring slot) cq :: .handed (.ring slot) sq :: k.log } := by
  have hnew : ∀ x ∈ e.pages,
      owner x (.handed (.ring slot) cq :: .handed (.ring slot) sq :: k.log) = some (.ring slot) ∧
        frees x (.handed (Owner.ring slot) cq :: .handed (.ring slot) sq :: k.log) = 0 := by
    intro x hx
    rw [hpages, List.mem_cons, List.mem_singleton] at hx
    rcases hx with rfl | rfl
    · rw [owner_handed_of_ne (Ne.symm hne), frees_handed_of_ne (Ne.symm hne)]
      exact ⟨owner_handed_self, frees_handed_self⟩
    · exact ⟨owner_handed_self, frees_handed_self⟩
  have hold : ∀ x, x ∉ e.pages →
      owner x (.handed (.ring slot) cq :: .handed (.ring slot) sq :: k.log) = owner x k.log ∧
        frees x (.handed (Owner.ring slot) cq :: .handed (.ring slot) sq :: k.log) =
          frees x k.log := by
    intro x hx
    rw [hpages, List.mem_cons, List.mem_singleton, not_or] at hx
    have hx₁ := Ne.symm hx.1
    have hx₂ := Ne.symm hx.2
    rw [owner_handed_of_ne hx₂, owner_handed_of_ne hx₁, frees_handed_of_ne hx₂,
      frees_handed_of_ne hx₁]
    exact ⟨rfl, rfl⟩
  -- a page that another ring holds is in use, so it is not one of the new pages
  have hapart : ∀ slot' x, (k.rings slot').active = 1 → x ∈ (k.rings slot').pages → x ∉ e.pages := by
    intro slot' x hactive' hx hmem
    obtain ⟨howner, hzero⟩ := h.held slot' hactive' x hx
    rw [hpages, List.mem_cons, List.mem_singleton] at hmem
    rcases hmem with rfl | rfl
    · exact hsq ⟨⟨slot', howner⟩, hzero⟩
    · exact hcq ⟨⟨slot', howner⟩, hzero⟩
  refine ⟨⟨?_, ?_⟩, ?_, ?_⟩
  · intro x slot' hx
    dsimp only at hx ⊢
    by_cases hmem : x ∈ e.pages
    · rw [(hnew x hmem).2]
      exact Nat.zero_le 1
    · rw [(hold x hmem).1] at hx
      rw [(hold x hmem).2]
      exact h.once x slot' hx
  · intro x slot' hx hzero
    dsimp only at hx hzero ⊢
    by_cases hmem : x ∈ e.pages
    · rw [(hnew x hmem).1] at hx
      cases hx
      rw [Function.update_self]
      exact ⟨hactive, hmem⟩
    · rw [(hold x hmem).1] at hx
      rw [(hold x hmem).2] at hzero
      have hheld := h.kept x slot' hx hzero
      rw [Function.update_of_ne]
      · exact hheld
      · rintro rfl
        exact hidle hheld.1
  · intro slot' hactive' x hx
    dsimp only at hactive' hx ⊢
    by_cases hslot : slot' = slot
    · subst hslot
      rw [Function.update_self] at hx
      exact hnew x hx
    · rw [Function.update_of_ne hslot] at hactive' hx
      have hmem := hapart slot' x hactive' hx
      rw [(hold x hmem).1, (hold x hmem).2]
      exact h.held slot' hactive' x hx
  · intro slot' hactive'
    dsimp only at hactive' ⊢
    by_cases hslot : slot' = slot
    · subst hslot
      rw [Function.update_self, hpages]
      simpa using hne
    · rw [Function.update_of_ne hslot] at hactive' ⊢
      exact h.nodup slot' hactive'

/-! ### The calls -/

theorem alloc_cons (m : Mem) (a : UInt64) (answers : List UInt64) :
    (⟨m, a :: answers⟩ : Vm).alloc = (a, ⟨m, answers⟩) := rfl

theorem mem_of_handedOut {before after : Vm} {x : UInt64} (hx : x ∈ handedOut before after) :
    x ∈ before.answers.filter (· != 0) := by
  unfold handedOut at hx
  rw [List.mem_filter] at hx ⊢
  exact ⟨List.mem_of_mem_take hx.1, hx.2⟩

theorem Sound.installRing (h : Sound k) {slot sq cq : UInt64} {rest : List UInt64}
    (hsq : sq ≠ 0) (hcq : cq ≠ 0) (hfresh : Fresh k (sq :: cq :: rest))
    (hidle : (k.rings slot).active ≠ 1) : Sound (installRing k slot sq cq rest) := by
  obtain ⟨hnodup, hunused⟩ := hfresh
  rw [List.filter_cons_of_pos (by simpa using hsq), List.filter_cons_of_pos (by simpa using hcq),
    List.nodup_cons, List.nodup_cons, List.mem_cons, not_or] at hnodup
  obtain ⟨⟨hne, hsqRest⟩, hcqRest, -⟩ := hnodup
  have hring := h.newRing hidle (hunused sq (by simp) hsq) (hunused cq (by simp) hcq) hne
    (e := ⟨⟨Pmm.physToVirt sq, Pmm.physToVirt cq, 1⟩, sq, cq⟩)
    (by
      unfold RingEntry.pages
      rw [if_pos (by simpa using hsq), if_pos (by simpa using hcq)]
      rfl)
    rfl
  refine (hring.handOthers ?_).congr rfl rfl
  intro x hx hout
  have hrest := mem_of_handedOut hx
  have hxsq : sq ≠ x := by
    rintro rfl
    exact hsqRest hrest
  have hxcq : cq ≠ x := by
    rintro rfl
    exact hcqRest hrest
  obtain ⟨⟨slot', howner⟩, hzero⟩ := hout
  dsimp only at howner hzero
  rw [owner_handed_of_ne hxcq, owner_handed_of_ne hxsq] at howner
  rw [frees_handed_of_ne hxcq, frees_handed_of_ne hxsq] at hzero
  obtain ⟨hmem, hx0⟩ := List.mem_filter.mp hrest
  exact hunused x (by simp [hmem]) (by simpa using hx0) ⟨⟨slot', howner⟩, hzero⟩

theorem Sound.initRing (h : Sound k) {slot : UInt64} {answers : List UInt64}
    (hfresh : Fresh k answers) (hidle : (k.rings slot).active = 1 → ¬ Obtains answers) :
    Sound (initRing k slot answers).2 := by
  unfold Reclaim.initRing
  rcases answers with _ | ⟨sq, rest⟩
  · exact h
  · rw [alloc_cons]
    dsimp only
    by_cases hsq : sq = 0
    · rw [if_pos (beq_iff_eq.mpr hsq)]
      exact h
    · rw [if_neg (by simpa using hsq)]
      have hback := h.giveBack slot (hfresh.unused sq (by simp) hsq)
      rcases rest with _ | ⟨cq, rest⟩
      · exact hback
      · rw [alloc_cons]
        dsimp only
        by_cases hcq : cq = 0
        · rw [if_pos (beq_iff_eq.mpr hcq)]
          exact hback
        · rw [if_neg (by simpa using hcq)]
          exact h.installRing hsq hcq hfresh fun hactive =>
            hidle hactive ⟨sq, cq, rest, rfl, hsq, hcq⟩

theorem Sound.exitProcess (h : Sound k) (exitCode : UInt64)
    (hfd : ∀ x ∈ fdPages k k.procs.currentPid, ¬ OfRing k x) : Sound (exitProcess k exitCode) := by
  have hclosed : Sound (destroyFdTable k k.procs.currentPid) :=
    (h.freeOthers hfd).congr rfl rfl
  exact (hclosed.destroyRing k.procs.currentPid).congr rfl rfl

theorem ofRing_destroyRing {slot x : UInt64} : OfRing (destroyRing k slot) x ↔ OfRing k x := by
  unfold OfRing destroyRing
  split
  · exact Iff.rfl
  · simp only [owner_freeAll]

theorem destroyRing_mem (slot : UInt64) : (destroyRing k slot).mem = k.mem := by
  unfold destroyRing
  split
  · rfl
  · rfl

theorem destroyRing_procs (slot : UInt64) : (destroyRing k slot).procs = k.procs := by
  unfold destroyRing
  split
  · rfl
  · rfl

theorem Sound.keuosReclaim (h : Sound k) {pid : UInt64}
    (htables : (k.procs.table pid).userPml4 ≠ 0 → PageAligned (k.procs.table pid).userPml4 ∧
      ∀ x, Reaches k.mem (k.procs.table pid).userPml4 userEntries 4 x → ¬ OfRing k x)
    (hstack : ∀ x ∈ kernelStackPages k.procs pid, ¬ OfRing k x) : Sound (keuosReclaim k pid) := by
  refine ((h.destroyRing pid).freeOthers ?_).congr rfl rfl
  rw [destroyRing_mem, destroyRing_procs]
  intro x hx
  rw [ofRing_destroyRing]
  rcases List.mem_append.mp hx with hx | hx
  · by_cases hzero : (k.procs.table pid).userPml4 = 0
    · rw [hzero, atomicPageSweep, if_pos (beq_self_eq_true _)] at hx
      exact absurd hx List.not_mem_nil
    · obtain ⟨haligned, hreaches⟩ := htables hzero
      exact hreaches x (atomicPageSweep_reaches haligned x hx)
  · exact hstack x hx

theorem Sound.sysRingMap (h : Sound k) {capFlags : UInt64} {answers : List UInt64}
    (hok : Careful k (.ringMap capFlags answers)) : Sound (sysRingMap k capFlags answers).2 := by
  unfold Reclaim.sysRingMap
  by_cases hcap : capFlags &&& capFlagRingAbi = 0
  · rw [if_pos (beq_iff_eq.mpr hcap)]
    exact h
  · rw [if_neg (by simpa using hcap)]
    obtain ⟨-, hfresh, hidle⟩ := hok hcap
    exact h.initRing hfresh hidle

/-- **A careful step** keeps the invariant. -/
theorem Sound.exec (h : Sound k) {op : Op} (hok : Careful k op) : Sound (exec k op) := by
  cases op with
  | ringMap capFlags answers => exact h.sysRingMap hok
  | exit exitCode => exact h.exitProcess exitCode hok.2
  | reclaim pid => exact h.keuosReclaim hok.2.1 hok.2.2
  | other mem procs allocated => exact (h.handOthers hok).congr rfl rfl

end Steps

/-! ### Runs -/

/-- **Every page of a ring is freed once**, in every run in which each step is careful. -/
theorem ringPages_of_careful {mem : Mem} {procs : Procs} {ops : List Op}
    (hok : Admissible exec Careful (Kernel.start mem procs) ops) :
    FreedOnce (runOps exec (Kernel.start mem procs) ops) :=
  (runOps_induction (fun _ _ h hstep => h.exec hstep) (sound_start mem procs) hok).toFreedOnce

/-- A process maps its ring and exits. -/
theorem ringPages_of_careful_exit :
    FreedOnce (runOps exec (Kernel.start (fun _ => 0) Procs.zero)
      [.ringMap 4 [0x5000, 0x6000, 0x1000, 0x2000, 0x3000], .exit 0]) := by
  refine ringPages_of_careful ⟨fun _ => ⟨by decide, ⟨by decide, ?_⟩, ?_⟩, ⟨by decide, ?_⟩, trivial⟩
  · rintro a - - ⟨⟨slot, howner⟩, -⟩
    cases howner
  · intro hactive
    exact absurd hactive (by change ¬ (0 : UInt64) = 1; decide)
  · intro x hx
    exact absurd hx List.not_mem_nil

/-! ### A second ring -/

section Remap

variable {k : Kernel} {slot sq cq : UInt64} {rest : List UInt64}

theorem sysRingMap_obtains (hsq : sq ≠ 0) (hcq : cq ≠ 0) :
    (sysRingMap k 4 (sq :: cq :: rest)).2 = installRing k k.procs.currentPid sq cq rest := by
  unfold sysRingMap initRing
  rw [if_neg (by decide), alloc_cons]
  dsimp only
  rw [if_neg (by simpa using hsq), alloc_cons]
  dsimp only
  rw [if_neg (by simpa using hcq)]

theorem installRing_sq (hne : sq ≠ cq) (hrest : sq ∉ rest) :
    owner sq (installRing k slot sq cq rest).log = some (.ring slot) ∧
      frees sq (installRing k slot sq cq rest).log = 0 := by
  have hmem : ∀ m after, sq ∉ handedOut ⟨m, rest⟩ after := fun m after hx =>
    hrest (List.mem_filter.mp (mem_of_handedOut hx)).1
  unfold installRing
  dsimp only
  rw [owner_handAll_of_not_mem _ _ (hmem _ _), frees_handAll_of_not_mem _ _ (hmem _ _),
    owner_handed_of_ne (Ne.symm hne), frees_handed_of_ne (Ne.symm hne)]
  exact ⟨owner_handed_self, frees_handed_self⟩

theorem installRing_of_not_mem {x : UInt64} (hx : x ∉ sq :: cq :: rest) :
    owner x (installRing k slot sq cq rest).log = owner x k.log ∧
      frees x (installRing k slot sq cq rest).log = frees x k.log := by
  rw [List.mem_cons, List.mem_cons, not_or, not_or] at hx
  obtain ⟨hsq, hcq, hrest⟩ := hx
  have hmem : ∀ m after, x ∉ handedOut ⟨m, rest⟩ after := fun m after hx =>
    hrest (List.mem_filter.mp (mem_of_handedOut hx)).1
  unfold installRing
  dsimp only
  rw [owner_handAll_of_not_mem _ _ (hmem _ _), frees_handAll_of_not_mem _ _ (hmem _ _),
    owner_handed_of_ne (Ne.symm hcq), owner_handed_of_ne (Ne.symm hsq),
    frees_handed_of_ne (Ne.symm hcq), frees_handed_of_ne (Ne.symm hsq)]
  exact ⟨rfl, rfl⟩

theorem exitProcess_of_ring (exitCode : UInt64) (hfd : (k.procs.table k.procs.currentPid).fdTable = 0)
    (hactive : (k.rings k.procs.currentPid).active = 1) :
    (exitProcess k exitCode).log = freeAll (k.rings k.procs.currentPid).pages k.log ∧
      (exitProcess k exitCode).rings k.procs.currentPid = RingEntry.zero := by
  have hpages : fdPages k k.procs.currentPid = [] := by
    unfold fdPages
    rw [hfd]
    exact if_pos (beq_self_eq_true _)
  unfold exitProcess destroyRing destroyFdTable
  dsimp only
  rw [hpages, if_neg (by rw [hactive]; decide)]
  exact ⟨rfl, Function.update_self ..⟩

theorem installRing_procs : (installRing k slot sq cq rest).procs = k.procs := by
  unfold installRing
  rfl

theorem installRing_rings :
    (installRing k slot sq cq rest).rings slot =
      ⟨⟨Pmm.physToVirt sq, Pmm.physToVirt cq, 1⟩, sq, cq⟩ := by
  unfold installRing
  dsimp only
  rw [Function.update_self]

/-- The first page of a ring is lost when another ring is mapped over it and the process exits. -/
theorem lost_of_remap {sq' cq' : UInt64} {rest' : List UInt64} (exitCode : UInt64)
    (hfd : (k.procs.table k.procs.currentPid).fdTable = 0) (hne : sq ≠ cq) (hrest : sq ∉ rest)
    (hnew : sq ∉ sq' :: cq' :: rest') :
    ¬ FreedOnce (exitProcess
      (installRing (installRing k k.procs.currentPid sq cq rest) k.procs.currentPid sq' cq' rest')
      exitCode) := by
  intro h
  obtain ⟨howner, hzero⟩ := @installRing_sq k k.procs.currentPid sq cq rest hne hrest
  generalize hk₁ : installRing k k.procs.currentPid sq cq rest = k₁ at h howner hzero
  obtain ⟨howner', hzero'⟩ := @installRing_of_not_mem k₁ k.procs.currentPid sq' cq' rest' sq hnew
  have hprocs : (installRing k₁ k.procs.currentPid sq' cq' rest').procs = k.procs := by
    rw [installRing_procs, ← hk₁, installRing_procs]
  have hrings := @installRing_rings k₁ k.procs.currentPid sq' cq' rest'
  generalize installRing k₁ k.procs.currentPid sq' cq' rest' = k₂ at h howner' hzero' hprocs hrings
  rw [← hprocs] at hfd hrings
  obtain ⟨hlog, hclear⟩ := exitProcess_of_ring exitCode hfd (by rw [hrings])
  have hmem : sq ∉ (k₂.rings k₂.procs.currentPid).pages := by
    rw [hrings]
    unfold RingEntry.pages
    rw [List.mem_cons, List.mem_cons, not_or, not_or] at hnew
    intro hmem
    rcases List.mem_append.mp hmem with hmem | hmem
    · split at hmem
      · exact hnew.1 (List.mem_singleton.mp hmem)
      · exact absurd hmem List.not_mem_nil
    · split at hmem
      · exact hnew.2.1 (List.mem_singleton.mp hmem)
      · exact absurd hmem List.not_mem_nil
  have hheld := h.kept sq k₂.procs.currentPid
    (by rw [hlog, owner_freeAll, howner', howner, hprocs])
    (by rw [hlog, frees_freeAll, hzero', hzero, List.count_eq_zero.mpr hmem])
  rw [hclear] at hheld
  exact absurd hheld.1 (by decide)

end Remap

/-- **A ring that is mapped twice loses pages**: after the exit no entry of `RING_TABLE` records the
page at `0x5000`, which was never freed. -/
theorem not_freedOnce_remap :
    ¬ FreedOnce (runOps exec (Kernel.start (fun _ => 0) Procs.zero)
      [.ringMap 4 [0x5000, 0x6000, 0x1000, 0x2000, 0x3000], .ringMap 4 [0x7000, 0x8000], .exit 0]) := by
  rw [runOps_cons, runOps_cons, runOps_cons, runOps_nil, exec, exec, exec,
    sysRingMap_obtains (by decide) (by decide), sysRingMap_obtains (by decide) (by decide), installRing_procs]
  exact lost_of_remap 0 rfl (by decide) (by decide) (by decide)

end Keuos.Reclaim
