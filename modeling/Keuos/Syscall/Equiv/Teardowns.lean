import Keuos.Paging.Equiv.Sweep
import Keuos.Syscall.Equiv.Ownership
import Mathlib.Data.Bool.AllAny

/-!
# The two teardowns

`destroy_user_pml4` leaves the pages alone that are marked with `PTE_SHARED`, and `atomic_page_sweep` does
not look at the mark.  The two agree on an address space exactly when none of its pages is marked.

## Main results

* `teardownsAgree_iff`: in every run, for every address space, the two free the same pages, each once, if
  and only if no page is marked.
* `not_teardownsAgree_granted`: a page that was granted.
-/

namespace Keuos.Syscall

open Process Paging Ledger

/-- Both teardowns free every page once, and they free the same pages, apart from the top table. -/
structure TeardownsAgree (m : Mem) (root : UInt64) : Prop where
  sweepOnce : (atomicPageSweep m root).1.Nodup
  destroyOnce : (destroyUserPml4 m root).Nodup
  same : ∀ x, x ∈ (atomicPageSweep m root).1 ↔ x ∈ destroyUserPml4 m root ∧ x ≠ root

section Agree

variable {roots : Set UInt64} {m : Mem} {log : List (Entry Holder UInt64)} {root : UInt64}

theorem Owned.teardownsAgree (h : Owned roots m log) (huser : UserEntries roots m) (hroot : root ∈ roots)
    (hne : root ≠ 0) (hunmarked : Unmarked m root) : TeardownsAgree m root := by
  have hsweep := atomicPageSweep_eq h.tables huser hroot hne
  have hdestroy := allUser_of_unmarked hunmarked
  obtain ⟨hnodup, -⟩ := destroyUserPml4_spec (h.frees_inj hroot)
  have hparts := hnodup
  rw [← hdestroy, List.nodup_append] at hparts
  obtain ⟨hall, -, hdisjoint⟩ := hparts
  refine ⟨by rw [hsweep]; exact hall, hnodup, ?_⟩
  intro x
  rw [hsweep, ← hdestroy, List.mem_append, List.mem_singleton]
  constructor
  · intro hx
    exact ⟨.inl hx, hdisjoint x hx root (List.mem_singleton_self root)⟩
  · rintro ⟨hx | hx, hxroot⟩
    · exact hx
    · exact absurd hx hxroot

/-- **A page that is marked** is freed by the sweep only. -/
theorem Owned.not_mem_destroy (h : Owned roots m log) (hroot : root ∈ roots) {v : UInt64}
    (hv : v < userAddrLimit) (hpresent : leaf m root v &&& ptePresent ≠ 0)
    (hmarked : leaf m root v &&& pteSharedBit ≠ 0) : leaf m root v &&& addrMask ∉ destroyUserPml4 m root := by
  intro hx
  obtain ⟨p, hp⟩ := (destroyUserPml4_spec (h.frees_inj hroot)).2 _ hx
  rcases hp.inv with ⟨hp, hx⟩ | ⟨v', hv', hpresent', hprivate, -, hframe⟩
  · exact h.apart root hroot v hv hpresent root hroot p hp hx
  · by_cases hsame : v' >>> 12 = v >>> 12
    · rw [leaf_of_samePage m root hsame] at hprivate
      exact hmarked hprivate
    · exact h.marked root hroot v' hv' hpresent' root hroot v hv hpresent hframe.symm
        (fun hat => hsame hat.2) hprivate

theorem Owned.unmarked_of_agree (h : Owned roots m log) (huser : UserEntries roots m) (hroot : root ∈ roots)
    (hne : root ≠ 0) (hagree : TeardownsAgree m root) : Unmarked m root := by
  intro v hv hpresent
  rw [getUserPte_eq_leaf] at hpresent ⊢
  by_contra hmarked
  have hx := mem_allUser hv hpresent
  rw [← atomicPageSweep_eq h.tables huser hroot hne] at hx
  exact h.not_mem_destroy hroot hv hpresent hmarked ((hagree.same _).mp hx).1

end Agree

/-! ### Runs -/

/-- A careful step, with `USER_PAGE_FLAGS` for new pages. -/
def BuildCareful (s : Spaces) (op : SpaceOp) : Prop :=
  Careful s op ∧ ∀ root vaddr flags answers, op = .map root vaddr flags answers → flags = userPageFlags

/-- The invariant of a state. -/
structure Spaces.Built (s : Spaces) : Prop where
  sound : s.Sound
  user : UserEntries {r | r ∈ s.live} s.mem
  nonzero : ∀ r ∈ s.live, r ≠ 0

section Runs

variable {s : Spaces}

/-- **A step** keeps the user bits. -/
theorem Spaces.Built.user_exec (h : s.Built) {op : SpaceOp} (hok : BuildCareful s op) :
    UserEntries {r | r ∈ (s.exec op).live} (s.exec op).mem := by
  obtain ⟨hcareful, hflags⟩ := hok
  cases op with
  | create kernelPml4 answers =>
    obtain ⟨a, vm, heq, -, huser⟩ := h.sound.createUserPml4 hcareful kernelPml4
    have hcreated := huser h.user
    unfold Spaces.exec
    dsimp only
    rw [heq]
    by_cases ha : a = 0
    · rw [if_pos ha] at hcreated
      rw [if_pos (beq_iff_eq.mpr ha)]
      exact hcreated
    · rw [if_neg ha] at hcreated
      rw [if_neg (by simpa using ha)]
      have hroots : {r | r ∈ a :: s.live} = insert a {r | r ∈ s.live} := by
        ext r
        simp
      dsimp only
      rw [hroots]
      exact hcreated
  | map root vaddr flags answers =>
    obtain ⟨hroot, hzero, hstock⟩ := hcareful
    obtain ⟨vm, heq, -, huser⟩ := Owned.mapNewPage h.sound hroot hstock hzero vaddr
    obtain rfl := hflags root vaddr flags answers rfl
    unfold Spaces.exec
    dsimp only
    rw [heq]
    exact huser (by decide) h.user
  | shmGrant targetPid srcVaddr dstVaddr numPages answers =>
    obtain ⟨hsrc, htarget, hstock⟩ := hcareful
    obtain ⟨vm, heq, -, huser⟩ :=
      Owned.sysShmGrant h.sound hstock hsrc htarget srcVaddr dstVaddr numPages
    unfold Spaces.exec
    dsimp only
    rw [heq]
    exact huser h.user
  | ringGrant slot targetPid srcVaddr dstVaddr answers =>
    have heq := ringShmGrant_refused ⟨s.mem, answers⟩ hcareful
    unfold Spaces.exec
    dsimp only
    rw [heq]
    exact h.user
  | destroy root =>
    intro r hr
    exact h.user r (List.mem_filter.mp hr).1
  | other mem procs allocated => exact h.user.of_sameEntries hcareful.1

theorem nonzero_exec (h : ∀ r ∈ s.live, r ≠ 0) (op : SpaceOp) : ∀ r ∈ (s.exec op).live, r ≠ 0 := by
  intro r hr
  rcases mem_live_exec hr with hold | ⟨_, _, -, hne, -⟩
  · exact h r hold
  · exact hne

theorem Spaces.Built.exec (h : s.Built) {op : SpaceOp} (hok : BuildCareful s op) : (s.exec op).Built :=
  ⟨h.sound.exec hok.1, h.user_exec hok, nonzero_exec h.nonzero op⟩

theorem built_start (mem : Mem) (procs : Procs) : (Spaces.start mem procs).Built :=
  ⟨sound_start mem procs, fun _ hr => absurd hr List.not_mem_nil, fun _ hr => absurd hr List.not_mem_nil⟩

/-- **A run** keeps the invariant. -/
theorem built_run {mem : Mem} {procs : Procs} {ops : List SpaceOp}
    (hok : Admissible Spaces.exec BuildCareful (Spaces.start mem procs) ops) :
    (runOps Spaces.exec (Spaces.start mem procs) ops).Built :=
  runOps_induction (fun _ _ h hok => h.exec hok) (built_start mem procs) hok

end Runs

/-- **The two teardowns agree** on an address space exactly when none of its pages is marked as shared. -/
theorem teardownsAgree_iff {mem : Mem} {procs : Procs} {ops : List SpaceOp}
    (hok : Admissible Spaces.exec BuildCareful (Spaces.start mem procs) ops) {root : UInt64}
    (hroot : root ∈ (runOps Spaces.exec (Spaces.start mem procs) ops).live) :
    TeardownsAgree (runOps Spaces.exec (Spaces.start mem procs) ops).mem root ↔
      Unmarked (runOps Spaces.exec (Spaces.start mem procs) ops).mem root := by
  have hbuilt := built_run hok
  have hne := hbuilt.nonzero root hroot
  exact ⟨Owned.unmarked_of_agree hbuilt.sound hbuilt.user hroot hne,
    Owned.teardownsAgree hbuilt.sound hbuilt.user hroot hne⟩

/-! ### A page that is granted -/

theorem mem_exec_shmGrant (procs : Procs) (mem : Mem) (live : List UInt64) (log : List (Entry Holder UInt64))
    (targetPid srcVaddr dstVaddr numPages : UInt64) (answers : List UInt64) :
    ((Spaces.mk procs mem live log).exec (.shmGrant targetPid srcVaddr dstVaddr numPages answers)).mem =
      (sysShmGrant ⟨procs, ⟨mem, answers⟩⟩ targetPid srcVaddr dstVaddr numPages).2.vm.mem := rfl

theorem not_unmarked_of_marked {m : Mem} {root v : UInt64} (hv : v < userAddrLimit)
    (hmarked : Marked m root v) : ¬ Unmarked m root := by
  intro h
  have hbit := h v hv
  rw [getUserPte_eq_leaf] at hbit
  exact hmarked.2 (hbit hmarked.1)

section GrantRun

theorem admissible_grantRun :
    Admissible Spaces.exec BuildCareful (Spaces.start (fun _ => 0) twoSpaces) grantRun := by
  refine careful_grantRun.and ⟨nofun, nofun, ?_, nofun, trivial⟩
  rintro root vaddr flags answers heq
  injection heq with _ _ hflags
  exact hflags.symm

/-- The two teardowns after a grant. -/
theorem teardownsAgree_iff_grantRun :
    TeardownsAgree (runOps Spaces.exec (Spaces.start (fun _ => 0) twoSpaces) grantRun).mem 0x1000 ↔
      Unmarked (runOps Spaces.exec (Spaces.start (fun _ => 0) twoSpaces) grantRun).mem 0x1000 :=
  teardownsAgree_iff admissible_grantRun live_grantRun

theorem leaves_mapped :
    ∃ m₁, mapNewPage ⟨fun _ => 0, [0x8000, 0x3000, 0x4000, 0x5000]⟩ 0x1000 0 7 = ⟨m₁, []⟩ ∧
    leaf m₁ 0x1000 0 = 0x8007 ∧ leaf m₁ 0x2000 0 = 0 := by
  obtain ⟨m₁, hmap, hpage⟩ := exists_onePage
  exact ⟨m₁, by rw [mapNewPage_cons (by decide)]; exact hmap, leaf_onePage hpage, leaf_onePage_target hpage⟩

theorem marked_grantPage {roots : Set UInt64} {m : Mem} {log : List (Entry Holder UInt64)}
    {answers : List UInt64} (h : Owned roots m log) (hstock : Stock log answers)
    (hsrc : (0x1000 : UInt64) ∈ roots) (htarget : (0x2000 : UInt64) ∈ roots)
    (hleaf₁ : leaf m 0x1000 0 = 0x8007) (hleaf₂ : leaf m 0x2000 0 = 0) :
    ∃ vm, (sysShmGrant ⟨twoSpaces, ⟨m, answers⟩⟩ 2 0 0 1).2.vm = vm ∧ Marked vm.mem 0x1000 0 := by
  have hpresent : (0x8007 : UInt64) &&& ptePresent ≠ 0 := by decide
  obtain ⟨vm, hgrant, -, -, hmarked⟩ := h.grantPage hstock hsrc htarget 0 (by decide) hleaf₁ hpresent
  refine ⟨vm, ?_, hmarked⟩
  have hvalid : validateShmRequest twoSpaces 2 0 0 1 = true := by decide
  have hspaces : ((twoSpaces.table twoSpaces.currentPid).userPml4 == 0 ||
      (twoSpaces.table 2).userPml4 == 0) = false := by decide
  have hloop : mapShmPages ⟨m, answers⟩ 0x1000 0x2000 0 0 1 = (true, vm) := by
    unfold mapShmPages
    rw [show (1 : UInt64).toNat = 0 + 1 from rfl, mapShmPagesFrom]
    dsimp only
    rw [show (0 : UInt64) + 0 * pageSize = 0 from by decide, getUserPte_eq_leaf, getUserPte_eq_leaf, hleaf₁,
      hleaf₂, if_neg (by decide), if_neg (by decide), hgrant, mapShmPagesFrom]
  have hroot₁ : (twoSpaces.table twoSpaces.currentPid).userPml4 = 0x1000 := by decide
  have hroot₂ : (twoSpaces.table 2).userPml4 = 0x2000 := by decide
  unfold sysShmGrant
  dsimp only
  rw [hvalid, hspaces, if_neg (by decide), if_neg (by decide), hroot₁, hroot₂, hloop]

/-- **The teardowns do not agree** on a page that was granted: the sweep frees it. -/
theorem not_teardownsAgree_granted :
    ¬ TeardownsAgree (runOps Spaces.exec (Spaces.start (fun _ => 0) twoSpaces) grantRun).mem 0x1000 := by
  intro hagree
  obtain ⟨m₁, hmap, hleaf₁, hleaf₂⟩ := leaves_mapped
  have hsplit : grantRun = [.create 0 [0x1000], .create 0 [0x2000],
      .map 0x1000 0 7 [0x8000, 0x3000, 0x4000, 0x5000]] ++ [.shmGrant 2 0 0 1 [0x6000, 0x7000, 0x9000]] := rfl
  have hbuilt := built_run admissible_grantRun
  have hunmarked := Owned.unmarked_of_agree hbuilt.sound hbuilt.user live_grantRun (by decide) hagree
  -- the state before the grant
  have hok := admissible_grantRun
  rw [hsplit] at hok
  obtain ⟨hbefore, ⟨-, -, hstock⟩, -⟩ := hok.split
  have hsound := (built_run hbefore).sound
  obtain ⟨log, hstate⟩ : ∃ log, runOps Spaces.exec (Spaces.start (fun _ => 0) twoSpaces)
      [.create 0 [0x1000], .create 0 [0x2000], .map 0x1000 0 7 [0x8000, 0x3000, 0x4000, 0x5000]] =
        ⟨twoSpaces, m₁, [0x2000, 0x1000], log⟩ := by
    have hcreates : runOps Spaces.exec (Spaces.start (fun _ => 0) twoSpaces) ([.create 0 [0x1000],
        .create 0 [0x2000]] ++ [.map 0x1000 0 7 [0x8000, 0x3000, 0x4000, 0x5000]]) = _ :=
      runOps_append ..
    rw [exec_creates, runOps_cons, runOps_nil] at hcreates
    obtain ⟨log, hmapped⟩ : ∃ log, (Spaces.mk twoSpaces (fun _ => 0) [0x2000, 0x1000]
        (handAll .space [0x2000] (handAll .space [0x1000] []))).exec
        (.map 0x1000 0 7 [0x8000, 0x3000, 0x4000, 0x5000]) = ⟨twoSpaces, m₁, [0x2000, 0x1000], log⟩ := by
      unfold Spaces.exec Spaces.after
      dsimp only
      rw [hmap]
      exact ⟨_, rfl⟩
    exact ⟨log, hcreates.trans hmapped⟩
  rw [hstate] at hsound hstock
  have howned : Owned {r | r ∈ [(0x2000 : UInt64), 0x1000]} m₁ log := hsound
  obtain ⟨vm, hgrant, hpresent, hmark⟩ := marked_grantPage howned hstock
    (List.mem_cons_of_mem _ List.mem_cons_self) List.mem_cons_self hleaf₁ hleaf₂
  rw [hsplit, runOps_append, hstate, runOps_cons, runOps_nil, mem_exec_shmGrant, hgrant] at hunmarked
  refine not_unmarked_of_marked ?_ ⟨hpresent, hmark⟩ hunmarked
  decide

end GrantRun

end Keuos.Syscall
