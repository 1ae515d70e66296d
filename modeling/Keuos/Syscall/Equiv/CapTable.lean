import Keuos.Syscall.Capability
import Keuos.Syscall.Equiv.Mappings
import Keuos.Syscall.Equiv.Ownership
import Mathlib.Data.Bool.AllAny

/-!
# The discipline of the capability table

A call on a capability does nothing unless the caller owns it.  The page of a MAPPED capability is mapped
at its address in the owner's address space, at no other address of any process, and it is freed by a
hand-off only, after it was unmapped.  `sys_ring_map` ignores that `map_user_page` can fail: the capability
is then MAPPED, and the page is not.

## Main results

* `capLaw_of_careful`: the discipline holds in every run in which `map_user_page` does not fail in
  `sys_ring_map`.
* `not_capLaw_noTables`: a capability is MAPPED, and its page is not, when there is no page for a table.
-/

namespace Keuos.Syscall

open Process Paging Ledger

/-- The page table of a slot. -/
def CapWorld.root (s : CapWorld) (slot : UInt64) : UInt64 := (s.procs.table slot).userPml4

/-- The entry of a capability's address in the address space of its owner. -/
def CapWorld.pte (s : CapWorld) (capabilityId : UInt64) : UInt64 :=
  getUserPte s.mem (s.root (s.caps.owner capabilityId)) (s.caps.vaddr capabilityId)

/-- The discipline of the capability table, where `roots` are the page tables of the processes. -/
structure CapLaw (roots : Set UInt64) (s : CapWorld) : Prop where
  owner : ∀ op c, op.capability = some c →
    s.caps.owner c ≠ s.procs.currentPid ∨ s.caps.state c = capStateFree → s.exec op = s
  distinct : ∀ c, c < maxCapabilities → ∀ c', c' < maxCapabilities → s.caps.state c = capStateMapped →
    s.caps.state c' = capStateMapped → c ≠ c' → s.caps.phys c ≠ s.caps.phys c'
  mapped : ∀ c, c < maxCapabilities → s.caps.state c = capStateMapped →
    s.pte c &&& ptePresent ≠ 0 ∧ s.pte c &&& addrMask = s.caps.phys c
  once : ∀ x, frees x s.log ≤ 1
  gone : ∀ x, 0 < frees x s.log → ∀ r ∈ roots, ∀ v, v < userAddrLimit →
    getUserPte s.mem r v &&& ptePresent ≠ 0 → getUserPte s.mem r v &&& addrMask ≠ x
  reads : ∀ d ∈ s.reads, InBlock (Pmm.physToVirt d.1) 4096 d.2

/-! ### Calls that are refused -/

section Refused

variable {s : CapWorld} {c : UInt64}

theorem capAllowed_iff {required : UInt64} {caps : Caps} {pid : UInt64} :
    capAllowed required caps pid c = true ↔
      (c ≠ 0 ∧ c < maxCapabilities) ∧ caps.owner c = pid ∧ caps.state c = required := by
  unfold capAllowed
  split_ifs with h₁ h₂ h₃
  · rw [Bool.or_eq_true, beq_iff_eq, decide_eq_true_eq] at h₁
    refine ⟨fun h => absurd h (by decide), ?_⟩
    rintro ⟨⟨hne, hlt⟩, -⟩
    rcases h₁ with rfl | hge
    · exact absurd rfl hne
    · exact absurd hlt (UInt64.not_lt.mpr hge)
  · rw [bne_iff_ne] at h₂
    exact ⟨fun h => absurd h (by decide), fun h => absurd h.2.1 h₂⟩
  · rw [bne_iff_ne] at h₃
    exact ⟨fun h => absurd h (by decide), fun h => absurd h.2.2 h₃⟩
  · rw [Bool.or_eq_true, not_or, beq_iff_eq, decide_eq_true_eq] at h₁
    rw [bne_iff_ne, not_not] at h₂ h₃
    exact ⟨fun _ => ⟨⟨h₁.1, UInt64.not_le.mp h₁.2⟩, h₂, h₃⟩, fun _ => rfl⟩

theorem ringMapAllowed_iff {caps : Caps} {pid : UInt64} : ringMapAllowed caps pid c = true ↔
    (c ≠ 0 ∧ c < maxCapabilities) ∧ caps.owner c = pid ∧ caps.state c = capStateBound :=
  capAllowed_iff

theorem capUnmapAllowed_iff {caps : Caps} {pid : UInt64} : capUnmapAllowed caps pid c = true ↔
    (c ≠ 0 ∧ c < maxCapabilities) ∧ caps.owner c = pid ∧ caps.state c = capStateMapped :=
  capAllowed_iff

theorem after_of_answers (s : CapWorld) {answers : List UInt64} {m : CapMachine}
    (h : m.vm.answers = answers) :
    s.after answers m = { s with procs := m.procs, mem := m.vm.mem, caps := m.caps } := by
  have hsame : (⟨s.mem, answers⟩ : Vm).answers = [] ++ m.vm.answers := h.symm
  have hnone : handedOut ⟨s.mem, answers⟩ m.vm = [] := handedOut_eq hsame
  unfold CapWorld.after
  rw [hnone]
  rfl

theorem after_machine (s : CapWorld) (answers : List UInt64) : s.after answers (s.machine answers) = s := by
  have hanswers : (s.machine answers).vm.answers = answers := rfl
  rw [after_of_answers s hanswers]
  rfl

theorem sysRingMap_refused {m : CapMachine} (h : ringMapAllowed m.caps m.procs.currentPid c = false) :
    sysRingMap m c = (0, m) := by
  unfold sysRingMap
  dsimp only
  rw [h, if_pos (by decide)]

theorem sysCapUnmap_refused {m : CapMachine} (h : capUnmapAllowed m.caps m.procs.currentPid c = false) :
    sysCapUnmap m c = (0, m) := by
  unfold sysCapUnmap
  dsimp only
  rw [h, if_pos (by decide)]

theorem fastpathHandoff_refused {m : CapMachine} (h : capUnmapAllowed m.caps m.procs.currentPid c = false)
    (fast : FastPath) (payloadOffset payloadLen : UInt32) :
    fastpathHandoff m fast c payloadOffset payloadLen = ⟨m, fast, [], []⟩ := by
  unfold fastpathHandoff
  dsimp only
  rw [sysCapUnmap_refused h, if_pos (beq_self_eq_true _)]
  split
  · rfl
  · rfl

theorem exec_ringMap_refused (h : ringMapAllowed s.caps s.procs.currentPid c = false)
    (answers : List UInt64) : s.exec (.ringMap c answers) = s := by
  have hcall := sysRingMap_refused (m := s.machine answers) h
  unfold CapWorld.exec
  dsimp only
  rw [hcall]
  exact after_machine s answers

theorem exec_unmap_refused (h : capUnmapAllowed s.caps s.procs.currentPid c = false) :
    s.exec (.unmap c) = s := by
  have hcall := sysCapUnmap_refused (m := s.machine []) h
  unfold CapWorld.exec
  dsimp only
  rw [hcall]
  exact after_machine s []

theorem exec_handoff_refused (h : capUnmapAllowed s.caps s.procs.currentPid c = false)
    (payloadOffset payloadLen : UInt32) : s.exec (.handoff c payloadOffset payloadLen) = s := by
  have hcall := fastpathHandoff_refused (m := s.machine []) h s.fast payloadOffset payloadLen
  unfold CapWorld.exec
  dsimp only
  rw [hcall]
  dsimp only
  rw [after_machine]
  rfl

/-- **A call on a capability** that the caller does not own, or that is FREE, does nothing. -/
theorem exec_of_not_owner {op : CapOp} (hop : op.capability = some c)
    (h : s.caps.owner c ≠ s.procs.currentPid ∨ s.caps.state c = capStateFree) : s.exec op = s := by
  have hmap : ringMapAllowed s.caps s.procs.currentPid c = false := by
    rw [Bool.eq_false_iff]
    intro hallowed
    obtain ⟨-, howner, hstate⟩ := ringMapAllowed_iff.mp hallowed
    rcases h with hne | hfree
    · exact hne howner
    · rw [hfree] at hstate
      exact absurd hstate (by decide)
  have hunmap : capUnmapAllowed s.caps s.procs.currentPid c = false := by
    rw [Bool.eq_false_iff]
    intro hallowed
    obtain ⟨-, howner, hstate⟩ := capUnmapAllowed_iff.mp hallowed
    rcases h with hne | hfree
    · exact hne howner
    · rw [hfree] at hstate
      exact absurd hstate (by decide)
  cases op with
  | bind flags => cases hop
  | ringMap capabilityId answers =>
    obtain rfl := Option.some.inj hop
    exact exec_ringMap_refused hmap answers
  | unmap capabilityId =>
    obtain rfl := Option.some.inj hop
    exact exec_unmap_refused hunmap
  | handoff capabilityId payloadOffset payloadLen =>
    obtain rfl := Option.some.inj hop
    exact exec_handoff_refused hunmap payloadOffset payloadLen
  | switch slot => cases hop

end Refused

/-! ### The invariant -/

/-- The entry of a page in the page tables of its owner. -/
structure PageEntry (a e : UInt64) : Prop where
  present : e &&& ptePresent ≠ 0
  addr : e &&& addrMask = a
  unmarked : e &&& pteSharedBit = 0

theorem pageEntry_userPage {a : UInt64} (haligned : PageAligned a) (hsmall : a.toNat < 2 ^ 52) :
    PageEntry a (a ||| userPageFlags) := by
  have ha := and_addrMask_of_aligned haligned hsmall
  refine ⟨?_, ?_, ?_⟩
  · rw [and_or_distrib, addr_and_eq_zero ha (by decide)]
    decide
  · rw [and_or_distrib, ha, show userPageFlags &&& addrMask = 0 from by decide, UInt64.or_zero]
  · rw [and_or_distrib, addr_and_eq_zero ha (by decide)]
    decide

/-- The page of a capability is mapped at its address, below the end of the mappings of its owner. -/
structure CapHeld (users : Set UInt64) (s : CapWorld) (c : UInt64) : Prop where
  user : s.caps.owner c ∈ users
  range : s.caps.vaddr c < userAddrLimit
  entry : PageEntry (s.caps.phys c) (leaf s.mem (s.root (s.caps.owner c)) (s.caps.vaddr c))
  below : (s.caps.vaddr c).toNat + 4096 ≤ (s.procs.table (s.caps.owner c)).mmapBase.toNat

/-- The invariant of a run, where `users` are the slots of the processes. -/
structure CapInv (users roots : Set UInt64) (s : CapWorld) : Prop where
  owned : Owned roots s.mem s.log
  current : s.procs.currentPid ∈ users
  spaces : ∀ u ∈ users, s.root u ∈ roots
  inj : ∀ u ∈ users, ∀ u' ∈ users, s.root u = s.root u' → u = u'
  held : ∀ c, c < maxCapabilities → s.caps.state c = capStateMapped → CapHeld users s c
  apart : ∀ c, c < maxCapabilities → ∀ c', c' < maxCapabilities → s.caps.state c = capStateMapped →
    s.caps.state c' = capStateMapped → c ≠ c' → s.caps.owner c = s.caps.owner c' →
    s.caps.vaddr c >>> 12 ≠ s.caps.vaddr c' >>> 12
  reads : ∀ d ∈ s.reads, InBlock (Pmm.physToVirt d.1) 4096 d.2

section Inv

variable {users roots : Set UInt64} {s : CapWorld} {c : UInt64}

theorem CapInv.place_ne (h : CapInv users roots s) {c' : UInt64} (hc : c < maxCapabilities)
    (hc' : c' < maxCapabilities) (hmapped : s.caps.state c = capStateMapped)
    (hmapped' : s.caps.state c' = capStateMapped) (hne : c ≠ c') :
    ¬ (s.root (s.caps.owner c) = s.root (s.caps.owner c') ∧
      s.caps.vaddr c >>> 12 = s.caps.vaddr c' >>> 12) := by
  rintro ⟨hroot, hpage⟩
  have howner := h.inj _ (h.held c hc hmapped).user _ (h.held c' hc' hmapped').user hroot
  exact h.apart c hc c' hc' hmapped hmapped' hne howner hpage

/-- **The invariant gives the law.** -/
theorem CapInv.law (h : CapInv users roots s) : CapLaw roots s where
  owner := fun _ _ hop hnot => exec_of_not_owner hop hnot
  distinct := by
    intro c hc c' hc' hmapped hmapped' hne heq
    obtain ⟨huser, hrange, hentry, -⟩ := h.held c hc hmapped
    obtain ⟨huser', hrange', hentry', -⟩ := h.held c' hc' hmapped'
    refine h.owned.marked _ (h.spaces _ huser) _ hrange hentry.present _ (h.spaces _ huser') _ hrange'
      hentry'.present ?_ (h.place_ne hc hc' hmapped hmapped' hne) hentry.unmarked
    rw [hentry.addr, hentry'.addr, heq]
  mapped := by
    intro c hc hmapped
    have hentry := (h.held c hc hmapped).entry
    rw [CapWorld.pte, getUserPte_eq_leaf]
    exact ⟨hentry.present, hentry.addr⟩
  once := h.owned.once
  gone := by
    intro x hx r hr v hv hpresent heq
    rw [getUserPte_eq_leaf] at hpresent heq
    have hfrees := (h.owned.ofPage r hr v hv hpresent).2
    rw [heq] at hfrees
    omega
  reads := h.reads

theorem capBindFrom_cases (caps : Caps) (pid flags : UInt64) {n : Nat} {i : UInt64} (hi : 0 < i.toNat)
    (hn : i.toNat + n ≤ 64) :
    capBindFrom caps pid flags n i = (0, caps) ∨
      ∃ c, c ≠ 0 ∧ caps.state c = capStateFree ∧ capBindFrom caps pid flags n i =
        (c, { state := Function.update caps.state c capStateBound
              owner := Function.update caps.owner c pid
              phys := Function.update caps.phys c 0
              vaddr := Function.update caps.vaddr c 0
              flags := Function.update caps.flags c flags }) := by
  induction n generalizing i with
  | zero => exact .inl rfl
  | succ n ih =>
    unfold capBindFrom
    split
    · next hfree =>
      refine .inr ⟨i, ?_, beq_iff_eq.mp hfree, rfl⟩
      rintro rfl
      exact absurd hi (by decide)
    · have hnext : (i + 1).toNat = i.toNat + 1 := by
        rw [UInt64.toNat_add, show (1 : UInt64).toNat = 1 from rfl, Nat.mod_eq_of_lt (by omega)]
      exact ih (by omega) (by omega)

theorem CapInv.of_fewer (h : CapInv users roots s) {s' : CapWorld} (howned : Owned roots s'.mem s'.log)
    (hprocs : s'.procs = s.procs)
    (hreads : ∀ d ∈ s'.reads, InBlock (Pmm.physToVirt d.1) 4096 d.2)
    (hcaps : ∀ c, c < maxCapabilities → s'.caps.state c = capStateMapped →
      s.caps.state c = capStateMapped ∧ s'.caps.owner c = s.caps.owner c ∧
      s'.caps.phys c = s.caps.phys c ∧ s'.caps.vaddr c = s.caps.vaddr c ∧
      leaf s'.mem (s.root (s.caps.owner c)) (s.caps.vaddr c) =
        leaf s.mem (s.root (s.caps.owner c)) (s.caps.vaddr c)) : CapInv users roots s' := by
  have hroot : ∀ u, s'.root u = s.root u := fun u => by rw [CapWorld.root, hprocs, CapWorld.root]
  refine ⟨howned, hprocs ▸ h.current, ?_, ?_, ?_, ?_, hreads⟩
  · intro u hu
    rw [hroot]
    exact h.spaces u hu
  · intro u hu u' hu' heq
    rw [hroot, hroot] at heq
    exact h.inj u hu u' hu' heq
  · intro c hc hmapped
    obtain ⟨hmapped, howner, hphys, hvaddr, hleaf⟩ := hcaps c hc hmapped
    obtain ⟨huser, hrange, hentry, hbelow⟩ := h.held c hc hmapped
    refine ⟨?_, ?_, ?_, ?_⟩
    · rw [howner]
      exact huser
    · rw [hvaddr]
      exact hrange
    · rw [howner, hroot, hvaddr, hphys, hleaf]
      exact hentry
    · rw [howner, hvaddr, hprocs]
      exact hbelow
  · intro c hc c' hc' hmapped hmapped' hne hsame
    obtain ⟨hmapped, howner, -, hvaddr, -⟩ := hcaps c hc hmapped
    obtain ⟨hmapped', howner', -, hvaddr', -⟩ := hcaps c' hc' hmapped'
    rw [howner, howner'] at hsame
    rw [hvaddr, hvaddr']
    exact h.apart c hc c' hc' hmapped hmapped' hne hsame

theorem CapInv.bind (h : CapInv users roots s) (flags : UInt64) :
    CapInv users roots (s.exec (.bind flags)) := by
  have hafter : s.exec (.bind flags) =
      { s with caps := (capBindFrom s.caps s.procs.currentPid flags 63 1).2 } := rfl
  rw [hafter]
  refine h.of_fewer h.owned rfl h.reads ?_
  intro c hc hmapped
  rcases capBindFrom_cases s.caps s.procs.currentPid flags (n := 63) (i := 1) (by decide) (by decide) with
    hsame | ⟨i, -, hfree, htake⟩
  · rw [hsame] at hmapped
    dsimp only
    rw [hsame]
    exact ⟨hmapped, rfl, rfl, rfl, rfl⟩
  · rw [htake] at hmapped
    have hne : c ≠ i := by
      rintro rfl
      exact absurd hmapped (by simp [capStateBound, capStateMapped])
    dsimp only
    rw [htake]
    dsimp only at hmapped ⊢
    rw [Function.update_of_ne hne] at hmapped
    rw [Function.update_of_ne hne, Function.update_of_ne hne, Function.update_of_ne hne]
    exact ⟨hmapped, rfl, rfl, rfl, rfl⟩

theorem unmapUserPage_keeps {m : Mem} {root vaddr : UInt64} (h : Tables roots m) (hroot : root ∈ roots)
    (hvaddr : vaddr < userAddrLimit) (hpresent : leaf m root vaddr &&& ptePresent ≠ 0) :
    ∃ m', unmapUserPage m root vaddr = (true, m') ∧
      (∀ r ∈ roots, ∀ q, UserPath q → table m' r q = table m r q) ∧
      ∀ r ∈ roots, ∀ v, v < userAddrLimit →
        leaf m' r v = if r = root ∧ v >>> 12 = vaddr >>> 12 then 0 else leaf m r v := by
  obtain ⟨pt, hpt⟩ := exists_table_of_present hpresent
  obtain ⟨-, hsame, hleaves⟩ := h.storeLeaf hvaddr hpt
    (h.storesEntry_write hroot (userPath_path hvaddr) hpt (ptIndex_lt vaddr) (e := 0))
  rw [leaf_of_table hpt] at hpresent
  exact ⟨_, unmapUserPage_of_present hpt rfl hpresent, hsame, hleaves⟩

theorem Owned.free {m : Mem} {log : List (Entry Holder UInt64)} {x : UInt64} (h : Owned roots m log)
    (hx : InSpace log x) (htable : ∀ r ∈ roots, ∀ q, UserPath q → table m r q ≠ some x)
    (hleaf : ∀ r ∈ roots, ∀ v, v < userAddrLimit → leaf m r v &&& ptePresent ≠ 0 →
      leaf m r v &&& addrMask ≠ x) : Owned roots m (freeAll [x] log) := by
  have hkeep : ∀ {y}, InSpace log y → y ≠ x → InSpace (freeAll [x] log) y := by
    intro y hy hne
    exact ⟨(owner_freeAll ..).trans hy.1, by
      rw [frees_freeAll, hy.2, List.count_singleton, if_neg (by simpa using hne.symm)]⟩
  refine ⟨h.tables, ?_, ?_, h.apart, h.marked, ?_⟩
  · intro r hr q hq y hy
    refine hkeep (h.ofTable r hr q hq y hy) ?_
    rintro rfl
    exact htable r hr q hq hy
  · intro r hr v hv hpresent
    exact hkeep (h.ofPage r hr v hv hpresent) (hleaf r hr v hv hpresent)
  · intro y
    rw [frees_freeAll]
    by_cases hy : y = x
    · rw [hy, hx.2, List.count_singleton_self]
    · rw [List.count_singleton, if_neg (by simpa using Ne.symm hy)]
      exact h.once y

theorem sysCapUnmap_allowed {m : CapMachine} {unmapped : Bool × Mem}
    (h : capUnmapAllowed m.caps m.procs.currentPid c = true)
    (hmem : unmapUserPage m.vm.mem (m.procs.table m.procs.currentPid).userPml4 (m.caps.vaddr c) = unmapped) :
    sysCapUnmap m c = (m.caps.phys c, ⟨⟨m.procs, ⟨unmapped.2, m.vm.answers⟩⟩,
      { m.caps with
        state := Function.update m.caps.state c capStateFree
        owner := Function.update m.caps.owner c 0
        phys := Function.update m.caps.phys c 0
        vaddr := Function.update m.caps.vaddr c 0 }⟩) := by
  unfold sysCapUnmap
  dsimp only
  rw [h, if_neg (by decide), hmem]

/-- The state after a capability was given up, with the memory `mem`. -/
def CapWorld.unmapped (s : CapWorld) (c : UInt64) (mem : Mem) : CapWorld :=
  { s with
    mem := mem
    caps := { s.caps with
      state := Function.update s.caps.state c capStateFree
      owner := Function.update s.caps.owner c 0
      phys := Function.update s.caps.phys c 0
      vaddr := Function.update s.caps.vaddr c 0 } }

section Unmap

variable {m' : Mem} (hallowed : capUnmapAllowed s.caps s.procs.currentPid c = true)
  (hmem : unmapUserPage s.mem (s.root s.procs.currentPid) (s.caps.vaddr c) = (true, m'))

include hallowed hmem

theorem sysCapUnmap_machine :
    sysCapUnmap (s.machine []) c = (s.caps.phys c, (s.unmapped c m').machine []) := by
  have hcall : unmapUserPage (s.machine []).vm.mem
      ((s.machine []).procs.table (s.machine []).procs.currentPid).userPml4 ((s.machine []).caps.vaddr c) =
      (true, m') := hmem
  rw [sysCapUnmap_allowed hallowed hcall]
  rfl

theorem exec_unmap_allowed : s.exec (.unmap c) = s.unmapped c m' := by
  have hanswers : ((s.unmapped c m').machine []).vm.answers = [] := rfl
  unfold CapWorld.exec
  dsimp only
  rw [sysCapUnmap_machine hallowed hmem, after_of_answers s hanswers]
  rfl

/-- **`sys_cap_unmap`** keeps the invariant. -/
theorem CapInv.unmapped (h : CapInv users roots s) : CapInv users roots (s.unmapped c m') := by
  obtain ⟨⟨-, hc⟩, howner, hmapped⟩ := capUnmapAllowed_iff.mp hallowed
  obtain ⟨huser, hrange, hentry, -⟩ := h.held c hc hmapped
  rw [howner] at huser hentry
  have hroot := h.spaces _ huser
  have howned : Owned roots m' s.log := by
    have := h.owned.unmapUserPage hroot hrange
    rwa [hmem] at this
  refine h.of_fewer howned rfl h.reads ?_
  intro c' hc' hmapped'
  have hne : c' ≠ c := by
    rintro rfl
    unfold CapWorld.unmapped at hmapped'
    dsimp only at hmapped'
    rw [Function.update_self] at hmapped'
    exact absurd hmapped' (by decide)
  unfold CapWorld.unmapped at hmapped' ⊢
  dsimp only at hmapped' ⊢
  rw [Function.update_of_ne hne] at hmapped'
  rw [Function.update_of_ne hne, Function.update_of_ne hne, Function.update_of_ne hne]
  refine ⟨hmapped', rfl, rfl, rfl, ?_⟩
  obtain ⟨huser', hrange', -, -⟩ := h.held c' hc' hmapped'
  have hplace := h.place_ne hc' hc hmapped' hmapped hne
  rw [howner] at hplace
  obtain ⟨m₁, hunmap, -, hleaves⟩ := unmapUserPage_keeps h.owned.tables hroot hrange hentry.present
  obtain rfl : m' = m₁ := congrArg Prod.snd (hmem.symm.trans hunmap)
  rw [hleaves _ (h.spaces _ huser') _ hrange', if_neg hplace]

/-- **The page of a capability is gone** from all address spaces when it was unmapped. -/
theorem CapInv.freed (h : CapInv users roots s) : Owned roots m' (freeAll [s.caps.phys c] s.log) := by
  obtain ⟨⟨-, hc⟩, howner, hmapped⟩ := capUnmapAllowed_iff.mp hallowed
  have howned : Owned roots m' s.log := (h.unmapped hallowed hmem).owned
  obtain ⟨huser, hrange, hentry, -⟩ := h.held c hc hmapped
  rw [howner] at huser hentry
  have hroot := h.spaces _ huser
  obtain ⟨m₁, hunmap, htables, hleaves⟩ := unmapUserPage_keeps h.owned.tables hroot hrange hentry.present
  obtain rfl : m' = m₁ := congrArg Prod.snd (hmem.symm.trans hunmap)
  have hspace := h.owned.ofPage _ hroot _ hrange hentry.present
  rw [hentry.addr] at hspace
  refine howned.free hspace ?_ ?_
  · intro r hr q hq hx
    rw [htables r hr q hq] at hx
    have hapart := h.owned.apart _ hroot _ hrange hentry.present r hr q hq
    rw [hentry.addr] at hapart
    exact hapart hx
  · intro r hr v hv hpresent heq
    rw [hleaves r hr v hv] at hpresent heq
    split at hpresent
    · exact hpresent UInt64.zero_and
    · next hplace =>
      rw [if_neg hplace] at heq
      refine h.owned.marked _ hroot _ hrange hentry.present r hr v hv hpresent ?_ ?_ hentry.unmarked
      · rw [hentry.addr, heq]
      · intro hat
        exact hplace ⟨hat.1.symm, hat.2.symm⟩

end Unmap

theorem CapInv.exists_unmapped (h : CapInv users roots s)
    (hallowed : capUnmapAllowed s.caps s.procs.currentPid c = true) :
    ∃ m', unmapUserPage s.mem (s.root s.procs.currentPid) (s.caps.vaddr c) = (true, m') := by
  obtain ⟨⟨-, hc⟩, howner, hmapped⟩ := capUnmapAllowed_iff.mp hallowed
  obtain ⟨huser, hrange, hentry, -⟩ := h.held c hc hmapped
  rw [howner] at huser hentry
  obtain ⟨m', hunmap, -⟩ := unmapUserPage_keeps h.owned.tables (h.spaces _ huser) hrange hentry.present
  exact ⟨m', hunmap⟩

theorem inBlock_payload (a : UInt64) {off len : UInt32} (hfits : off.toUInt64 + len.toUInt64 ≤ 4096)
    (hlen : ¬ len.toUInt64 < 14) {k : UInt64} (hk : k < 14) :
    InBlock (Pmm.physToVirt a) 4096 (Pmm.physToVirt a + off.toUInt64 + k) := by
  have hoff := off.toNat_lt
  have hlen' := len.toNat_lt
  rw [UInt64.le_iff_toNat_le, UInt64.toNat_add, UInt32.toNat_toUInt64, UInt32.toNat_toUInt64] at hfits
  rw [UInt64.lt_iff_toNat_lt, UInt32.toNat_toUInt64] at hlen
  rw [UInt64.lt_iff_toNat_lt] at hk
  rw [show (4096 : UInt64).toNat = 4096 from rfl, Nat.mod_eq_of_lt (by omega)] at hfits
  rw [show (14 : UInt64).toNat = 14 from rfl] at hlen hk
  unfold InBlock
  have hsub : Pmm.physToVirt a + off.toUInt64 + k - Pmm.physToVirt a = off.toUInt64 + k := by
    rw [UInt64.add_assoc, UInt64.add_comm, UInt64.add_sub_cancel]
  rw [hsub, UInt64.toNat_add, UInt32.toNat_toUInt64, Nat.mod_eq_of_lt (by omega)]
  omega

theorem fastpathHandoff_allowed {m m₁ : CapMachine} {phys : UInt64} (hc : c < maxCapabilities)
    (hcall : sysCapUnmap m c = (phys, m₁)) (fast : FastPath) (payloadOffset payloadLen : UInt32)
    {r : Handoff} (hr : fastpathHandoff m fast c payloadOffset payloadLen = r) :
    r.machine = m₁ ∧ (r.freed = [] ∨ r.freed = [phys]) ∧
      ∀ a ∈ r.read, InBlock (Pmm.physToVirt phys) 4096 a := by
  have hin : ¬ c ≥ 64 := UInt64.not_le.mpr hc
  unfold fastpathHandoff at hr
  dsimp only at hr
  rw [if_neg hin, hcall] at hr
  dsimp only at hr
  split at hr
  · subst hr
    exact ⟨rfl, .inl rfl, fun a ha => absurd ha List.not_mem_nil⟩
  · split at hr
    · subst hr
      exact ⟨rfl, .inr rfl, fun a ha => absurd ha List.not_mem_nil⟩
    · next hfits =>
      split at hr
      · subst hr
        exact ⟨rfl, .inr rfl, fun a ha => absurd ha List.not_mem_nil⟩
      · next hlen =>
        subst hr
        refine ⟨rfl, .inr rfl, fun a ha => ?_⟩
        have hfits := UInt64.not_lt.mp hfits
        rcases List.mem_pair.mp ha with rfl | rfl
        · exact inBlock_payload phys hfits hlen (by decide)
        · exact inBlock_payload phys hfits hlen (by decide)

/-- **A hand-off** keeps the invariant. -/
theorem CapInv.handoff (h : CapInv users roots s) (c : UInt64) (payloadOffset payloadLen : UInt32) :
    CapInv users roots (s.exec (.handoff c payloadOffset payloadLen)) := by
  by_cases hallowed : capUnmapAllowed s.caps s.procs.currentPid c = true
  swap
  · rw [exec_handoff_refused (Bool.eq_false_iff.mpr hallowed)]
    exact h
  obtain ⟨m', hmem⟩ := h.exists_unmapped hallowed
  have hunmapped := h.unmapped hallowed hmem
  have hfreed := h.freed hallowed hmem
  have hanswers : ((s.unmapped c m').machine []).vm.answers = [] := rfl
  have hc := (capUnmapAllowed_iff.mp hallowed).1.2
  unfold CapWorld.exec
  dsimp only
  generalize hr : fastpathHandoff (s.machine []) s.fast c payloadOffset payloadLen = r
  obtain ⟨hmachine, hpages, hread⟩ :=
    fastpathHandoff_allowed hc (sysCapUnmap_machine hallowed hmem) s.fast payloadOffset payloadLen hr
  rw [hmachine, after_of_answers s hanswers]
  refine hunmapped.of_fewer ?_ rfl ?_ (fun c' _ hmapped' => ⟨hmapped', rfl, rfl, rfl, rfl⟩)
  · dsimp only
    rcases hpages with hnone | hone
    · rw [hnone]
      exact hunmapped.owned
    · rw [hone]
      exact hfreed
  · intro d hd
    rcases List.mem_append.mp hd with hnew | hold
    · rcases hpages with hnone | hone
      · rw [hnone] at hnew
        exact absurd hnew List.not_mem_nil
      · rw [hone, List.flatMap_singleton] at hnew
        obtain ⟨a, ha, rfl⟩ := List.mem_map.mp hnew
        exact hread a ha
    · exact h.reads d hold

/-! ### A new page -/

/-- The state after a capability was given the page `a`, with the memory `mem`. -/
def CapWorld.ringMapped (s : CapWorld) (c a : UInt64) (mem : Mem) (log : List (Entry Holder UInt64)) :
    CapWorld :=
  let pid := s.procs.currentPid
  let vaddr := (s.procs.table pid).mmapBase
  { s with
    procs := s.procs.modify pid fun b => { b with mmapBase := vaddr + pageSize }
    mem := mem
    log := log
    caps := { s.caps with
      state := Function.update s.caps.state c capStateMapped
      phys := Function.update s.caps.phys c a
      vaddr := Function.update s.caps.vaddr c vaddr } }

section RingMap

variable {a : UInt64} {answers used rest : List UInt64} {m' : Mem}

theorem exec_ringMap_allowed (hallowed : ringMapAllowed s.caps s.procs.currentPid c = true) (ha : a ≠ 0)
    (hmap : mapUserPage ⟨s.mem, used ++ rest⟩ (s.root s.procs.currentPid)
      (s.procs.table s.procs.currentPid).mmapBase a userPageFlags = ⟨m', rest⟩) :
    s.exec (.ringMap c (a :: (used ++ rest))) = s.ringMapped c a (writeRingHeader m' a)
      (handAll .space ((a :: used).filter (· != 0)) s.log) := by
  have hcall : sysRingMap (s.machine (a :: (used ++ rest))) c =
      ((s.procs.table s.procs.currentPid).mmapBase,
        ⟨⟨(s.ringMapped c a m' s.log).procs, ⟨writeRingHeader m' a, rest⟩⟩,
          (s.ringMapped c a m' s.log).caps⟩) := by
    unfold sysRingMap CapWorld.machine
    dsimp only [Vm.alloc]
    rw [hallowed, if_neg (by decide), if_neg (by simpa using ha)]
    unfold CapWorld.root at hmap
    rw [hmap]
    rfl
  have hanswers : (⟨s.mem, a :: (used ++ rest)⟩ : Vm).answers = (a :: used) ++ rest := rfl
  unfold CapWorld.exec
  dsimp only
  rw [hcall]
  unfold CapWorld.after
  dsimp only
  rw [handedOut_eq (show _ = _ ++ (⟨writeRingHeader m' a, rest⟩ : Vm).answers from hanswers)]
  rfl

theorem exec_ringMap_noPage (hallowed : ringMapAllowed s.caps s.procs.currentPid c = true)
    (hnone : answers = [] ∨ answers.head? = some 0) : s.exec (.ringMap c answers) = s := by
  obtain ⟨taken, rest, hanswers, htaken, halloc⟩ : ∃ taken rest, answers = taken ++ rest ∧
      taken.filter (· != 0) = [] ∧ (⟨s.mem, answers⟩ : Vm).alloc = (0, ⟨s.mem, rest⟩) := by
    rcases hnone with rfl | hzero
    · exact ⟨[], [], rfl, rfl, rfl⟩
    · obtain ⟨rest, rfl⟩ := List.head?_eq_some_iff.mp hzero
      exact ⟨[0], rest, rfl, rfl, rfl⟩
  have hcall : sysRingMap (s.machine answers) c = (0, ⟨⟨s.procs, ⟨s.mem, rest⟩⟩, s.caps⟩) := by
    unfold sysRingMap CapWorld.machine
    dsimp only
    rw [hallowed, if_neg (by decide), halloc, if_pos (beq_self_eq_true _)]
  unfold CapWorld.exec
  dsimp only
  rw [hcall]
  unfold CapWorld.after
  dsimp only
  rw [handedOut_eq (show _ = _ ++ (⟨s.mem, rest⟩ : Vm).answers from hanswers), htaken]
  rfl

theorem root_ringMapped (s : CapWorld) (c a : UInt64) (mem : Mem) (log : List (Entry Holder UInt64))
    (u : UInt64) : (s.ringMapped c a mem log).root u = s.root u := by
  unfold CapWorld.ringMapped CapWorld.root
  dsimp only
  by_cases hu : u = s.procs.currentPid
  · rw [hu, modify_self]
  · rw [modify_of_ne _ hu]

theorem mmapBase_ringMapped (hfit : (s.procs.table s.procs.currentPid).mmapBase < userAddrLimit)
    (c a : UInt64) (mem : Mem) (log : List (Entry Holder UInt64)) (u : UInt64) :
    ((s.ringMapped c a mem log).procs.table u).mmapBase.toNat =
      (s.procs.table u).mmapBase.toNat + if u = s.procs.currentPid then 4096 else 0 := by
  have hbase := toNat_lt_of_user hfit
  unfold CapWorld.ringMapped
  dsimp only
  by_cases hu : u = s.procs.currentPid
  · rw [if_pos hu, hu, modify_self]
    exact toNat_add_pageSize (by omega)
  · rw [if_neg hu, modify_of_ne _ hu, Nat.add_zero]

theorem CapInv.ne_mmapBase (h : CapInv users roots s) {c' : UInt64} (hc' : c' < maxCapabilities)
    (hmapped' : s.caps.state c' = capStateMapped) (howner : s.caps.owner c' = s.procs.currentPid) :
    s.caps.vaddr c' >>> 12 ≠ (s.procs.table s.procs.currentPid).mmapBase >>> 12 := by
  have hbelow := (h.held c' hc' hmapped').below
  rw [howner] at hbelow
  intro heq
  have hdiv := congrArg UInt64.toNat heq
  rw [toNat_shiftRight_twelve, toNat_shiftRight_twelve] at hdiv
  omega

/-- **A new page** keeps the invariant when it is mapped. -/
theorem CapInv.ringMapped (h : CapInv users roots s)
    (hallowed : ringMapAllowed s.caps s.procs.currentPid c = true) {log : List (Entry Holder UInt64)}
    (hfit : (s.procs.table s.procs.currentPid).mmapBase < userAddrLimit) (howned : Owned roots m' log)
    (hentry : PageEntry a (leaf m' (s.root s.procs.currentPid) (s.procs.table s.procs.currentPid).mmapBase))
    (hleaves : ∀ r ∈ roots, ∀ v, v < userAddrLimit →
      ¬ (r = s.root s.procs.currentPid ∧
        v >>> 12 = (s.procs.table s.procs.currentPid).mmapBase >>> 12) →
      leaf m' r v = leaf s.mem r v) : CapInv users roots (s.ringMapped c a m' log) := by
  obtain ⟨⟨-, hc⟩, howner, hbound⟩ := ringMapAllowed_iff.mp hallowed
  have hroot := root_ringMapped s c a m' log
  have hbase := mmapBase_ringMapped hfit c a m' log
  have hself : (s.ringMapped c a m' log).caps.vaddr c = (s.procs.table s.procs.currentPid).mmapBase :=
    Function.update_self ..
  -- the other capabilities are as before
  have hother : ∀ c', c' ≠ c → (s.ringMapped c a m' log).caps.state c' = s.caps.state c' ∧
      (s.ringMapped c a m' log).caps.phys c' = s.caps.phys c' ∧
      (s.ringMapped c a m' log).caps.vaddr c' = s.caps.vaddr c' := fun c' hne =>
    ⟨Function.update_of_ne hne .., Function.update_of_ne hne .., Function.update_of_ne hne ..⟩
  have hcurrent := h.current
  refine ⟨howned, hcurrent, ?_, ?_, ?_, ?_, h.reads⟩
  · intro u hu
    rw [hroot]
    exact h.spaces u hu
  · intro u hu u' hu' heq
    rw [hroot, hroot] at heq
    exact h.inj u hu u' hu' heq
  · intro c' hc' hmapped'
    by_cases hne : c' = c
    · subst hne
      have howner' : (s.ringMapped c' a m' log).caps.owner c' = s.procs.currentPid := howner
      have hphys : (s.ringMapped c' a m' log).caps.phys c' = a := Function.update_self ..
      refine ⟨?_, ?_, ?_, ?_⟩
      · rw [howner']
        exact hcurrent
      · rw [hself]
        exact hfit
      · rw [howner', hroot, hself, hphys]
        exact hentry
      · rw [howner', hself, hbase, if_pos rfl]
    · obtain ⟨hstate, hphys, hvaddr⟩ := hother c' hne
      rw [hstate] at hmapped'
      obtain ⟨huser, hrange, hheld, hbelow⟩ := h.held c' hc' hmapped'
      -- the new page is at the top of the area, above the pages mapped so far
      have hplace : ¬ (s.root (s.caps.owner c') = s.root s.procs.currentPid ∧
          s.caps.vaddr c' >>> 12 = (s.procs.table s.procs.currentPid).mmapBase >>> 12) := by
        rintro ⟨hsame, hpage⟩
        exact h.ne_mmapBase hc' hmapped' (h.inj _ huser _ hcurrent hsame) hpage
      refine ⟨huser, ?_, ?_, ?_⟩
      · rw [hvaddr]
        exact hrange
      · rw [hroot, hvaddr, hphys]
        show PageEntry _ (leaf m' (s.root (s.caps.owner c')) _)
        rw [hleaves _ (h.spaces _ huser) _ hrange hplace]
        exact hheld
      · rw [hvaddr, hbase]
        exact hbelow.trans (Nat.le_add_right ..)
  · have hapart : ∀ c', c' < maxCapabilities → c' ≠ c → s.caps.state c' = capStateMapped →
        s.caps.owner c' = s.caps.owner c →
        s.caps.vaddr c' >>> 12 ≠ (s.procs.table s.procs.currentPid).mmapBase >>> 12 :=
      fun c' hc' _ hmapped' hsame => h.ne_mmapBase hc' hmapped' (hsame.trans howner)
    -- two capabilities of one owner are at different pages
    intro c₁ hc₁ c₂ hc₂ hmapped₁ hmapped₂ hne hsame
    by_cases h₁ : c₁ = c
    · subst h₁
      obtain ⟨hstate, -, hvaddr⟩ := hother c₂ hne.symm
      rw [hstate] at hmapped₂
      rw [hself, hvaddr]
      exact (hapart c₂ hc₂ hne.symm hmapped₂ hsame.symm).symm
    · obtain ⟨hstate₁, -, hvaddr₁⟩ := hother c₁ h₁
      rw [hstate₁] at hmapped₁
      by_cases h₂ : c₂ = c
      · subst h₂
        rw [hself, hvaddr₁]
        exact hapart c₁ hc₁ h₁ hmapped₁ hsame
      · obtain ⟨hstate₂, -, hvaddr₂⟩ := hother c₂ h₂
        rw [hstate₂] at hmapped₂
        rw [hvaddr₁, hvaddr₂]
        exact h.apart c₁ hc₁ c₂ hc₂ hmapped₁ hmapped₂ hne hsame

/-- **`sys_ring_map`** keeps the invariant when there are pages for the tables that it needs. -/
theorem CapInv.ringMap (h : CapInv users roots s) (hstock : Stock s.log answers)
    (hserved : ringMapAllowed s.caps s.procs.currentPid c = true → Served (· < userAddrLimit)
      (tabled s.mem (s.root s.procs.currentPid)) [(s.procs.table s.procs.currentPid).mmapBase] answers) :
    CapInv users roots (s.exec (.ringMap c answers)) := by
  by_cases hallowed : ringMapAllowed s.caps s.procs.currentPid c = true
  swap
  · rw [exec_ringMap_refused (Bool.eq_false_iff.mpr hallowed)]
    exact h
  cases answers with
  | nil =>
    rw [exec_ringMap_noPage hallowed (.inl rfl)]
    exact h
  | cons a answers =>
    by_cases ha : a = 0
    · have hzero : (a :: answers).head? = some 0 := congrArg some ha
      rw [exec_ringMap_noPage hallowed (.inr hzero)]
      exact h
    have hroot := h.spaces _ h.current
    obtain ⟨haligned, hsmall, hfree⟩ := hstock.page a (List.mem_cons_self ..) ha
    obtain ⟨used, rest, m', rfl, hmap, hpage, -, hfit, -, -⟩ := served_page (fun _ hv => hv) hroot
      h.owned.tables (h.owned.supply hstock) ha (fun _ _ => rfl) (hserved hallowed)
    -- the page belongs to an address space before `map_user_page` takes the tables
    have hfilter : [a].filter (· != 0) = [a] := by simp [ha]
    have hrest := Stock.remaining (show Stock _ ([a] ++ _) from hstock)
    rw [hfilter] at hrest
    have hmay : MayMap roots s.mem (handAll .space [a] s.log) (s.root s.procs.currentPid)
        (s.procs.table s.procs.currentPid).mmapBase a userPageFlags :=
      h.owned.mayMap_new hfree haligned hsmall (by decide)
    obtain ⟨m₁, taken, rest₁, hmap₁, htaken, howned, htried, -⟩ :=
      (h.owned.hand [a]).mapUserPage hroot hrest hmay
    obtain ⟨rfl, rfl⟩ := Vm.mk.inj (hmap.symm.trans hmap₁)
    obtain rfl := List.append_cancel_right htaken
    have hnot := not_table_tried hrest (htried hfit) hmay.inSpace hmay.notTable
    have hsame : SameEntries roots m' (writeRingHeader m' a) := by
      refine SameEntries.of_onlyPages hpage.tables (onlyPages_writeRingHeader m' a) ?_ ?_
      · intro f hf
        rw [List.mem_singleton.mp hf]
        exact haligned
      · intro f hf
        rw [List.mem_singleton.mp hf]
        exact hnot
    rw [exec_ringMap_allowed hallowed ha hmap]
    refine h.ringMapped hallowed hfit ?_ ?_ ?_
    · have hcons : (a :: used).filter (· != 0) = [a] ++ used.filter (· != 0) := by
        rw [← List.singleton_append, List.filter_append, hfilter]
      rw [hcons, handAll_append]
      exact howned.of_sameEntries hsame
    · rw [hsame.leaf hroot hfit, hpage.leaves _ hroot _ hfit, if_pos ⟨rfl, rfl⟩]
      exact pageEntry_userPage haligned hsmall
    · intro r hr v hv hplace
      rw [hsame.leaf hr hv, hpage.leaves r hr v hv, if_neg hplace]

end RingMap

/-! ### Runs -/

/-- `map_user_page` does not fail in `sys_ring_map`, and the scheduler chooses processes. -/
def CapCareful (users : Set UInt64) (s : CapWorld) : CapOp → Prop
  | .ringMap c answers => Stock s.log answers ∧
    (ringMapAllowed s.caps s.procs.currentPid c = true → Served (· < userAddrLimit)
      (tabled s.mem (s.root s.procs.currentPid)) [(s.procs.table s.procs.currentPid).mmapBase] answers)
  | .switch slot => slot ∈ users
  | _ => True

theorem CapInv.switch (h : CapInv users roots s) {slot : UInt64} (hslot : slot ∈ users) :
    CapInv users roots (s.exec (.switch slot)) :=
  ⟨h.owned, hslot, h.spaces, h.inj, fun c hc hmapped =>
    ⟨(h.held c hc hmapped).user, (h.held c hc hmapped).range, (h.held c hc hmapped).entry,
      (h.held c hc hmapped).below⟩, h.apart, h.reads⟩

/-- **One call** keeps the invariant. -/
theorem CapInv.exec (h : CapInv users roots s) {op : CapOp} (hok : CapCareful users s op) :
    CapInv users roots (s.exec op) := by
  cases op with
  | bind flags => exact h.bind flags
  | ringMap c answers => exact h.ringMap hok.1 hok.2
  | unmap c =>
    by_cases hallowed : capUnmapAllowed s.caps s.procs.currentPid c = true
    · obtain ⟨m', hmem⟩ := h.exists_unmapped hallowed
      rw [exec_unmap_allowed hallowed hmem]
      exact h.unmapped hallowed hmem
    · rw [exec_unmap_refused (Bool.eq_false_iff.mpr hallowed)]
      exact h
  | handoff c payloadOffset payloadLen => exact h.handoff c payloadOffset payloadLen
  | switch slot => exact h.switch hok

/-- The state before the first call: every slot in `users` has page tables of its own, and no capability
is MAPPED. -/
structure CapStart (users roots : Set UInt64) (s : CapWorld) : Prop where
  owned : Owned roots s.mem s.log
  current : s.procs.currentPid ∈ users
  spaces : ∀ u ∈ users, s.root u ∈ roots
  inj : ∀ u ∈ users, ∀ u' ∈ users, s.root u = s.root u' → u = u'
  caps : ∀ c, c < maxCapabilities → s.caps.state c ≠ capStateMapped
  reads : s.reads = []

theorem CapStart.inv (h : CapStart users roots s) : CapInv users roots s where
  owned := h.owned
  current := h.current
  spaces := h.spaces
  inj := h.inj
  held := fun c hc hmapped => absurd hmapped (h.caps c hc)
  apart := fun c hc _ _ hmapped => absurd hmapped (h.caps c hc)
  reads := by
    rw [h.reads]
    exact fun d hd => absurd hd List.not_mem_nil

/-- **The discipline of the capability table**, in every run in which `map_user_page` does not fail in
`sys_ring_map`. -/
theorem capLaw_of_careful (hstart : CapStart users roots s) {ops : List CapOp}
    (h : Admissible CapWorld.exec (CapCareful users) s ops) :
    CapLaw roots (runOps CapWorld.exec s ops) := by
  have hinv : CapInv users roots (runOps CapWorld.exec s ops) :=
    runOps_induction (fun _ _ hinv hok => hinv.exec hok) hstart.inv h
  exact hinv.law

end Inv

/-! ### One process -/

/-- The process in slot 1 has empty page tables at `0x1000`, and all capabilities are FREE. -/
def oneSpace : CapWorld where
  procs :=
    { Procs.zero with
      currentPid := 1
      table := fun i =>
        if i == 1 then { Pcb.zero with state := procRunning, userPml4 := 0x1000, mmapBase := 0x10000000 }
        else Pcb.zero }
  mem := fun _ => 0
  caps := ⟨fun _ => 0, fun _ => 0, fun _ => 0, fun _ => 0, fun _ => 0⟩
  fast := ⟨fun _ => 0, fun _ => 0, fun _ => 0⟩
  log := handAll .space [0x1000] []
  reads := []

section OneSpace

theorem capStart_oneSpace : CapStart {1} {0x1000} oneSpace where
  owned := by
    have hempty : ∀ v, ¬ leaf oneSpace.mem 0x1000 v &&& ptePresent ≠ 0 := by
      intro v hpresent
      refine hpresent ?_
      rw [show oneSpace.mem = fun _ => 0 from rfl, leaf_zero]
      exact UInt64.zero_and
    refine ⟨tables_zero pageAligned_0x1000, ?_, ?_, ?_, ?_, ?_⟩
    · rintro r rfl q - x hx
      rw [(table_of_empty (zero_entry _) hx).2]
      exact inSpace_handAll_of_mem List.mem_cons_self
    · rintro r rfl v - hpresent
      exact absurd hpresent (hempty v)
    · rintro r rfl v - hpresent
      exact absurd hpresent (hempty v)
    · rintro r rfl v - hpresent
      exact absurd hpresent (hempty v)
    · intro x
      exact (frees_handAll_le .space x [0x1000] []).trans (Nat.zero_le 1)
  current := rfl
  spaces := by
    rintro u rfl
    rfl
  inj := by
    rintro u rfl u' rfl -
    rfl
  caps := fun _ _ hmapped => absurd (show (0 : UInt64) = capStateMapped from hmapped) (by decide)
  reads := rfl

/-- A capability is bound, given a page and handed off. -/
theorem capLaw_handoff :
    CapLaw {0x1000} (runOps CapWorld.exec oneSpace
      [.bind 3, .ringMap 1 [0x8000, 0x3000, 0x4000, 0x5000], .handoff 1 0 64]) := by
  refine capLaw_of_careful capStart_oneSpace
    ⟨trivial, ⟨?_, fun _ => .inr ⟨by decide, ?_, ?_, trivial⟩⟩, trivial, trivial⟩
  · exact stock_of_unused (by decide) (List.all_iff_forall_prop.mp (by decide))
      (List.all_iff_forall_prop.mp (by decide))
  · exact (wants_zero 0x1000 0x10000000).le
  · have hwants : wants (tabled (oneSpace.exec (.bind 3)).mem 0x1000) [] (path 0x10000000) = 3 :=
      wants_zero 0x1000 0x10000000
    have htake : ∀ b ∈ [(0x3000 : UInt64), 0x4000, 0x5000].take 3, b ≠ 0 :=
      List.all_iff_forall_prop.mp (by decide)
    intro b hb
    refine htake b ?_
    rw [← hwants]
    exact hb

/-- **A capability without its page**: there is a page for the ring, but none for a table. -/
theorem not_capLaw_noTables : CapStart {1} {0x1000} oneSpace ∧
    ¬ CapLaw {0x1000} (runOps CapWorld.exec oneSpace [.bind 3, .ringMap 1 [0x8000]]) := by
  refine ⟨capStart_oneSpace, ?_⟩
  intro h
  have hmap : mapUserPage ⟨(oneSpace.exec (.bind 3)).mem, [] ++ []⟩ 0x1000 0x10000000 0x8000 userPageFlags =
      ⟨fun _ => 0, []⟩ :=
    mapUserPage_of_noPdp (by decide) (walkOrCreate_none (zero_entry _ _) rfl) 0x8000
  have hexec : (oneSpace.exec (.bind 3)).exec (.ringMap 1 [0x8000]) =
      (oneSpace.exec (.bind 3)).ringMapped 1 0x8000 (writeRingHeader (fun _ => 0) 0x8000)
        (handAll .space [0x8000] (oneSpace.exec (.bind 3)).log) :=
    exec_ringMap_allowed (by decide) (by decide) hmap
  have hsame : SameEntries {0x1000} (fun _ => 0) (writeRingHeader (fun _ => 0) 0x8000) := by
    refine SameEntries.of_onlyPages (tables_zero pageAligned_0x1000) (onlyPages_writeRingHeader _ _) ?_ ?_
    · rintro f hf
      rw [List.mem_singleton.mp hf]
      unfold PageAligned
      decide
    · rintro f hf r rfl q - hx
      rw [List.mem_singleton.mp hf] at hx
      exact absurd (table_of_empty (zero_entry _) hx).2 (by decide)
  rw [runOps_cons, runOps_cons, runOps_nil, hexec] at h
  have hpresent := (h.mapped 1 (by decide) rfl).1
  have hpte : ((oneSpace.exec (.bind 3)).ringMapped 1 0x8000 (writeRingHeader (fun _ => 0) 0x8000)
      (handAll .space [0x8000] (oneSpace.exec (.bind 3)).log)).pte 1 =
      getUserPte (writeRingHeader (fun _ => 0) 0x8000) 0x1000 0x10000000 := rfl
  refine hpresent ?_
  rw [hpte, getUserPte_eq_leaf, hsame.leaf rfl (by decide), leaf_zero]
  exact UInt64.zero_and

end OneSpace

end Keuos.Syscall
