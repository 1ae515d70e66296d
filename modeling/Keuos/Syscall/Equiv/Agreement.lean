import Keuos.Paging.Equiv.Supply
import Keuos.Syscall.Spaces
import Mathlib.Data.Bool.AllAny

/-!
# Requests through the ring and through system calls

Four requests can be made by a system call and through the submission queue.  The two versions of `brk`
and of `mmap` are the same function.  A message to a blocked process is delivered by both; the system
call also switches to that process.  A grant of a page passes the same checks and maps the same frame
with the same permissions; the entries differ in the mark `PTE_SHARED`.  `ringRequests_agree` puts these
together, for targets that both versions let through or that both reject.
-/

namespace Keuos.Syscall

open Process Paging

/-! ### Grants of one page -/

section Grant

variable {s : Machine} {targetPid srcVaddr dstVaddr : UInt64}

/-- The page tables of a process. -/
abbrev Machine.root (s : Machine) (slot : UInt64) : UInt64 :=
  (s.procs.table slot).userPml4

/-- The leaf entry of a page of the caller. -/
abbrev Machine.callerPte (s : Machine) (vaddr : UInt64) : UInt64 :=
  getUserPte s.vm.mem (s.root s.procs.currentPid) vaddr

/-- The checks that both versions of a grant make, apart from the range of the target. -/
structure GrantOk (s : Machine) (targetPid srcVaddr dstVaddr : UInt64) : Prop where
  alive : s.procs.state targetPid ≠ procFree
  srcAligned : srcVaddr &&& 0xFFF = 0
  dstAligned : dstVaddr &&& 0xFFF = 0
  srcUser : srcVaddr < userAddrLimit
  dstUser : dstVaddr < userAddrLimit
  srcEnd : srcVaddr + pageSize ≤ userAddrLimit
  dstEnd : dstVaddr + pageSize ≤ userAddrLimit
  srcRoot : s.root s.procs.currentPid ≠ 0
  targetRoot : s.root targetPid ≠ 0
  srcPresent : s.callerPte srcVaddr &&& ptePresent ≠ 0
  dstAbsent : getUserPte s.vm.mem (s.root targetPid) dstVaddr &&& ptePresent = 0

theorem ringShmGrant_of_ok (htarget : targetPid < 16) (h : GrantOk s targetPid srcVaddr dstVaddr) :
    ringShmGrant s s.procs.currentPid targetPid srcVaddr dstVaddr =
      (0, ⟨s.procs, mapUserPage s.vm (s.root targetPid) dstVaddr (s.callerPte srcVaddr &&& addrMask)
        (grantFlags (ptePresent ||| pteUser) (s.callerPte srcVaddr))⟩) := by
  unfold ringShmGrant
  dsimp only
  rw [if_neg (UInt64.not_le.mpr htarget), if_neg (by simpa using h.alive),
    if_neg (by simp [h.srcAligned, h.dstAligned]), if_neg (by simp [h.srcUser, h.dstUser]),
    if_neg (by simp [h.srcEnd, h.dstEnd]), if_neg (by simpa using h.srcRoot),
    if_neg (by simpa using h.targetRoot), if_neg (by simpa using h.srcPresent),
    if_neg (by simpa using h.dstAbsent)]

theorem ringShmGrant_of_not_ok (h : ¬ (targetPid < 16 ∧ GrantOk s targetPid srcVaddr dstVaddr)) :
    ringShmGrant s s.procs.currentPid targetPid srcVaddr dstVaddr = (0 - 1, s) := by
  unfold ringShmGrant
  dsimp only
  split_ifs with h₁ h₂ h₃ h₄ h₅ h₆ h₇ h₈ h₉
  all_goals try rfl
  rw [Bool.or_eq_true, not_or] at h₃ h₄ h₅
  refine absurd ⟨UInt64.not_le.mp h₁, ?_⟩ h
  exact ⟨by simpa using h₂, by simpa using h₃.1, by simpa using h₃.2, by simpa using h₄.1,
    by simpa using h₄.2, by simpa using h₅.1, by simpa using h₅.2, by simpa using h₆,
    by simpa using h₇, by simpa using h₈, by simpa using h₉⟩

theorem validateShmRequest_one :
    validateShmRequest s.procs targetPid srcVaddr dstVaddr 1 = true ↔
      targetPid < maxProcs ∧ s.procs.state targetPid ≠ procFree ∧ srcVaddr &&& 0xFFF = 0 ∧
        dstVaddr &&& 0xFFF = 0 ∧ srcVaddr < userAddrLimit ∧ dstVaddr < userAddrLimit ∧
        srcVaddr + pageSize ≤ userAddrLimit ∧ dstVaddr + pageSize ≤ userAddrLimit := by
  unfold validateShmRequest
  dsimp only
  rw [UInt64.one_mul]
  constructor
  · intro hvalid
    split_ifs at hvalid with h₁ h₂ h₃ h₄ h₅ h₆ h₇
    rw [Bool.or_eq_true, not_or] at h₃ h₅ h₆
    exact ⟨UInt64.not_le.mp h₁, by simpa using h₂, by simpa using h₃.1, by simpa using h₃.2,
      by simpa using h₅.1, by simpa using h₆.1, by simpa using h₅.2, by simpa using h₆.2⟩
  · rintro ⟨hrange, halive, hsrc, hdst, hsrcUser, hdstUser, hsrcEnd, hdstEnd⟩
    -- a page below the limit does not wrap around
    have hwrap : ∀ {v : UInt64}, v < userAddrLimit → ¬ v + pageSize < v := by
      intro v hv hlt
      have hnat := toNat_lt_of_user hv
      rw [UInt64.lt_iff_toNat_lt, UInt64.toNat_add, show pageSize.toNat = 4096 from rfl] at hlt
      omega
    rw [if_neg (UInt64.not_le.mpr hrange), if_neg (by simpa using halive),
      if_neg (by simp [hsrc, hdst]), if_neg (by decide), if_neg (by simp [hsrcUser, hsrcEnd]),
      if_neg (by simp [hdstUser, hdstEnd]), if_neg (by simp [hwrap hsrcUser, hwrap hdstUser])]

theorem mapShmPages_one (vm : Vm) (srcPml4 targetPml4 srcVaddr dstVaddr : UInt64) :
    mapShmPages vm srcPml4 targetPml4 srcVaddr dstVaddr 1 =
      if getUserPte vm.mem srcPml4 srcVaddr &&& ptePresent == 0 then (false, vm)
      else if getUserPte vm.mem targetPml4 dstVaddr &&& ptePresent != 0 then (false, vm)
      else
        (true, mapUserPage (mapUserPage vm srcPml4 srcVaddr
          (getUserPte vm.mem srcPml4 srcVaddr &&& addrMask)
          ((getUserPte vm.mem srcPml4 srcVaddr &&& 0xFFF) ||| pteShared)) targetPml4 dstVaddr
          (getUserPte vm.mem srcPml4 srcVaddr &&& addrMask)
          (grantFlags (ptePresent ||| pteUser ||| pteShared) (getUserPte vm.mem srcPml4 srcVaddr))) := by
  have hzero : ∀ v : UInt64, v + 0 * pageSize = v := by
    intro v
    rw [UInt64.zero_mul, UInt64.add_zero]
  unfold mapShmPages
  rw [show (1 : UInt64).toNat = 0 + 1 from rfl, mapShmPagesFrom]
  dsimp only
  rw [hzero, hzero]
  rfl

theorem sysShmGrant_of_ok (htarget : targetPid < maxProcs)
    (h : GrantOk s targetPid srcVaddr dstVaddr) :
    sysShmGrant s targetPid srcVaddr dstVaddr 1 =
      (0, ⟨s.procs, mapUserPage (mapUserPage s.vm (s.root s.procs.currentPid) srcVaddr
          (s.callerPte srcVaddr &&& addrMask) ((s.callerPte srcVaddr &&& 0xFFF) ||| pteShared))
        (s.root targetPid) dstVaddr (s.callerPte srcVaddr &&& addrMask)
        (grantFlags (ptePresent ||| pteUser ||| pteShared) (s.callerPte srcVaddr))⟩) := by
  have hvalid := validateShmRequest_one.mpr ⟨htarget, h.alive, h.srcAligned, h.dstAligned, h.srcUser,
    h.dstUser, h.srcEnd, h.dstEnd⟩
  have hpages := mapShmPages_one s.vm (s.root s.procs.currentPid) (s.root targetPid) srcVaddr dstVaddr
  rw [if_neg (by simpa using h.srcPresent), if_neg (by simpa using h.dstAbsent)] at hpages
  unfold sysShmGrant
  dsimp only
  rw [hvalid, if_neg (by decide), if_neg (by simp [h.srcRoot, h.targetRoot]), hpages, if_pos rfl]

theorem sysShmGrant_of_not_ok
    (h : ¬ (targetPid < maxProcs ∧ GrantOk s targetPid srcVaddr dstVaddr)) :
    sysShmGrant s targetPid srcVaddr dstVaddr 1 = (0 - 1, s) := by
  unfold sysShmGrant
  dsimp only
  by_cases hvalid : validateShmRequest s.procs targetPid srcVaddr dstVaddr 1 = true
  swap
  · rw [Bool.eq_false_iff.mpr hvalid]
    rfl
  rw [hvalid, if_neg (by decide)]
  obtain ⟨hrange, halive, hsrc, hdst, hsrcUser, hdstUser, hsrcEnd, hdstEnd⟩ :=
    validateShmRequest_one.mp hvalid
  by_cases hroots : (s.root s.procs.currentPid == 0 || s.root targetPid == 0) = true
  · rw [if_pos hroots]
  rw [if_neg hroots]
  rw [Bool.or_eq_true, not_or] at hroots
  have hpages := mapShmPages_one s.vm (s.root s.procs.currentPid) (s.root targetPid) srcVaddr dstVaddr
  split_ifs at hpages with hsrcPte hdstPte
  · rw [hpages]
    rfl
  · rw [hpages]
    rfl
  · exact absurd ⟨hrange, halive, hsrc, hdst, hsrcUser, hdstUser, hsrcEnd, hdstEnd,
      by simpa using hroots.1, by simpa using hroots.2, by simpa using hsrcPte,
      by simpa using hdstPte⟩ h

end Grant

/-! ### The page tables after a grant -/

/-- The bits of an entry other than `PTE_SHARED` and those above the address. -/
def entryMask : UInt64 := addrMask ||| 0xDFF

theorem and_or_left (x y z : UInt64) : x &&& (y ||| z) = x &&& y ||| x &&& z := by
  rw [UInt64.and_comm, and_or_distrib, UInt64.and_comm y, UInt64.and_comm z]

theorem shared_and_entryMask (pte : UInt64) :
    (pte &&& addrMask ||| (pte &&& 0xFFF ||| pteShared)) &&& entryMask = pte &&& entryMask := by
  rw [and_or_distrib, and_or_distrib, UInt64.and_assoc, UInt64.and_assoc,
    show addrMask &&& entryMask = addrMask from by decide,
    show 0xFFF &&& entryMask = 0xDFF from by decide, show pteShared &&& entryMask = 0 from by decide,
    UInt64.or_zero, ← and_or_left]
  rfl

theorem grantFlags_and_entryMask (frame pte : UInt64) :
    (frame ||| grantFlags (ptePresent ||| pteUser ||| pteShared) pte) &&& entryMask =
      (frame ||| grantFlags (ptePresent ||| pteUser) pte) &&& entryMask := by
  unfold grantFlags
  rw [and_or_distrib, and_or_distrib]
  split
  · rfl
  · rfl

/-- The page tables of the kernel: disjoint trees, and the pages of `pmm.alloc` are no tables. -/
structure WellMapped (roots : Set UInt64) (s : Machine) : Prop where
  tables : Tables roots s.vm.mem
  fresh : FreshAnswers roots s.vm.mem s.vm.answers
  root_mem : ∀ slot, s.root slot ≠ 0 → s.root slot ∈ roots

section Leaves

variable {roots : Set UInt64} {s : Machine} {targetPid srcVaddr dstVaddr : UInt64}

/-- **A grant through the ring and one by a system call** leave the same entries but for the mark, and
take the same pages. -/
theorem grant_leaves (hs : WellMapped roots s) (h : GrantOk s targetPid srcVaddr dstVaddr) :
    ∃ ring sys, mapUserPage s.vm (s.root targetPid) dstVaddr (s.callerPte srcVaddr &&& addrMask)
        (grantFlags (ptePresent ||| pteUser) (s.callerPte srcVaddr)) = ring ∧
      mapUserPage (mapUserPage s.vm (s.root s.procs.currentPid) srcVaddr
          (s.callerPte srcVaddr &&& addrMask) ((s.callerPte srcVaddr &&& 0xFFF) ||| pteShared))
        (s.root targetPid) dstVaddr (s.callerPte srcVaddr &&& addrMask)
        (grantFlags (ptePresent ||| pteUser ||| pteShared) (s.callerPte srcVaddr)) = sys ∧
      ring.answers = sys.answers ∧
      ∀ r ∈ roots, ∀ v, v < userAddrLimit →
        leaf ring.mem r v &&& entryMask = leaf sys.mem r v &&& entryMask := by
  have hsrcRoot := hs.root_mem _ h.srcRoot
  have htargetRoot := hs.root_mem _ h.targetRoot
  have hpte : s.callerPte srcVaddr = leaf s.vm.mem (s.root s.procs.currentPid) srcVaddr :=
    getUserPte_eq_leaf ..
  have hpresent := h.srcPresent
  rw [hpte] at hpresent ⊢
  -- the source is mapped, so its tables are there
  obtain ⟨pt, hpt⟩ := exists_table_of_present hpresent
  obtain ⟨ring, hring, hringAnswers, hringLeaves⟩ := mapUserPage_run hs.tables htargetRoot h.dstUser
    hs.fresh (leaf s.vm.mem (s.root s.procs.currentPid) srcVaddr &&& addrMask)
    (grantFlags (ptePresent ||| pteUser) (leaf s.vm.mem (s.root s.procs.currentPid) srcVaddr))
  obtain ⟨vm₁, hvm₁, htables₁, hanswers₁, hfresh₁, hsame₁, hleaves₁⟩ := mapUserPage_present hs.tables
    hsrcRoot h.srcUser hs.fresh hpt (leaf s.vm.mem (s.root s.procs.currentPid) srcVaddr &&& addrMask)
    (leaf s.vm.mem (s.root s.procs.currentPid) srcVaddr &&& 0xFFF ||| pteShared)
  obtain ⟨sys, hsys, hsysAnswers, hsysLeaves⟩ := mapUserPage_run htables₁ htargetRoot h.dstUser
    hfresh₁ (leaf s.vm.mem (s.root s.procs.currentPid) srcVaddr &&& addrMask)
    (grantFlags (ptePresent ||| pteUser ||| pteShared)
      (leaf s.vm.mem (s.root s.procs.currentPid) srcVaddr))
  have hmissing : missing vm₁.mem (s.root targetPid) [] (path dstVaddr) =
      missing s.vm.mem (s.root targetPid) [] (path dstVaddr) :=
    missing_congr (fun q hq => hsame₁ _ htargetRoot q hq) (userPath_path h.dstUser)
  rw [hmissing, hanswers₁] at hsysAnswers hsysLeaves
  refine ⟨ring, sys, hring, by rw [hvm₁, hsys], hringAnswers.trans hsysAnswers.symm, ?_⟩
  intro r hr v hv
  rw [hringLeaves r hr v hv, hsysLeaves r hr v hv]
  split
  · exact (grantFlags_and_entryMask ..).symm
  · rw [hleaves₁ r hr v hv]
    split
    · next hpage =>
      rw [shared_and_entryMask, hpage.1, leaf_of_samePage _ _ hpage.2]
    · rfl

end Leaves

/-! ### Agreement -/

/-- Results that show the same return value, process table, leaf entries and pages left to allocate,
where the entries are compared under a mask. -/
structure SameUpTo (mask : UInt64) (roots : Set UInt64) (ring sys : UInt64 × Machine) : Prop where
  result : ring.1 = sys.1
  procs : ring.2.procs = sys.2.procs
  answers : ring.2.vm.answers = sys.2.vm.answers
  entries : ∀ r ∈ roots, ∀ v, v < userAddrLimit →
    getUserPte ring.2.vm.mem r v &&& mask = getUserPte sys.2.vm.mem r v &&& mask

theorem SameUpTo.refl (mask : UInt64) (roots : Set UInt64) (r : UInt64 × Machine) :
    SameUpTo mask roots r r :=
  ⟨rfl, rfl, rfl, fun _ _ _ _ => rfl⟩

/-- A message to a blocked process is delivered by both versions, and the system call then switches to
that process.  Otherwise the ring answers -1 and changes nothing; so does the system call, unless the
target can keep the message. -/
def IpcAgrees (drainSq : UInt64 → Procs → Procs) (p : Procs) (targetPid msg0 msg1 : UInt64) : Prop :=
  let ring := ringIpcSend p p.currentPid targetPid msg0 msg1
  let sys := sysIpcSend drainSq p targetPid msg0 msg1 0
  if targetPid < maxProcs ∧ p.state targetPid = procIpcBlocked then
    ring.1 = 0 ∧ sys = (0, switchToProcess drainSq ring.2 p.currentPid targetPid)
  else
    ring = (0 - 1, p) ∧
      if targetPid < maxProcs ∧ p.state targetPid ≠ procFree ∧ (p.table targetPid).ipcSender = 0 then
        sys = (0, setIpcMsg p targetPid p.currentPid msg0 msg1 0)
      else sys = (0 - 1, p)

/-- Targets that both versions let through, or that both reject. -/
def SameRange (targetPid : UInt64) : Prop :=
  targetPid < 16 ∨ maxProcs ≤ targetPid

theorem SameRange.lt_iff {targetPid : UInt64} (h : SameRange targetPid) :
    targetPid < 16 ↔ targetPid < maxProcs := by
  constructor
  · intro hlt
    exact UInt64.lt_trans hlt (by decide)
  · intro hlt
    obtain h16 | hge := h
    · exact h16
    · exact absurd hlt (UInt64.not_lt.mpr hge)

theorem ipc_agrees (drainSq : UInt64 → Procs → Procs) (p : Procs) {targetPid : UInt64}
    (htarget : SameRange targetPid) (msg0 msg1 : UInt64) :
    IpcAgrees drainSq p targetPid msg0 msg1 := by
  have hrange := htarget.lt_iff
  unfold IpcAgrees ringIpcSend sysIpcSend
  dsimp only
  by_cases hlt : targetPid < maxProcs
  swap
  · rw [if_pos (UInt64.not_lt.mp fun h => hlt (hrange.mp h)), if_pos (UInt64.not_lt.mp hlt),
      if_neg (fun h => hlt h.1), if_neg (fun h => hlt h.1)]
    exact ⟨rfl, rfl⟩
  rw [if_neg (UInt64.not_le.mpr (hrange.mpr hlt)), if_neg (UInt64.not_le.mpr hlt)]
  by_cases hfree : p.state targetPid = procFree
  · have hblocked : ¬ (targetPid < maxProcs ∧ p.state targetPid = procIpcBlocked) := by
      rw [hfree]
      exact fun h => absurd h.2 (by decide)
    rw [if_pos (beq_iff_eq.mpr hfree), if_pos (beq_iff_eq.mpr hfree), if_neg hblocked,
      if_neg (fun h => h.2.1 hfree)]
    exact ⟨rfl, rfl⟩
  have hfree' : ¬ (p.state targetPid == procFree) = true := by simpa using hfree
  rw [if_neg hfree', if_neg hfree']
  by_cases hblocked : p.state targetPid = procIpcBlocked
  · rw [if_pos (beq_iff_eq.mpr hblocked), if_pos (beq_iff_eq.mpr hblocked),
      if_pos (And.intro hlt hblocked)]
    exact ⟨rfl, rfl⟩
  have hblocked' : ¬ (p.state targetPid == procIpcBlocked) = true := by simpa using hblocked
  have hnot : ¬ (targetPid < maxProcs ∧ p.state targetPid = procIpcBlocked) := fun h => hblocked h.2
  rw [if_neg hblocked', if_neg hblocked', if_neg hnot]
  refine ⟨rfl, ?_⟩
  by_cases hempty : (p.table targetPid).ipcSender = 0
  · rw [if_pos (beq_iff_eq.mpr hempty), if_pos ⟨hlt, hfree, hempty⟩]
  · have hempty' : ¬ ((p.table targetPid).ipcSender == 0) = true := by simpa using hempty
    rw [if_neg hempty', if_neg (fun h => hempty h.2.2)]

theorem grant_agrees {roots : Set UInt64} {s : Machine} (hs : WellMapped roots s) {targetPid : UInt64}
    (htarget : SameRange targetPid) (srcVaddr dstVaddr : UInt64) :
    SameUpTo entryMask roots (ringShmGrant s s.procs.currentPid targetPid srcVaddr dstVaddr)
      (sysShmGrant s targetPid srcVaddr dstVaddr 1) := by
  have hrange := htarget.lt_iff
  by_cases hok : targetPid < maxProcs ∧ GrantOk s targetPid srcVaddr dstVaddr
  · obtain ⟨hlt, hok⟩ := hok
    obtain ⟨ring, sys, hring, hsys, hanswers, hleaves⟩ := grant_leaves hs hok
    rw [ringShmGrant_of_ok (hrange.mpr hlt) hok, sysShmGrant_of_ok hlt hok, hring, hsys]
    refine ⟨rfl, rfl, hanswers, ?_⟩
    intro r hr v hv
    rw [getUserPte_eq_leaf, getUserPte_eq_leaf]
    exact hleaves r hr v hv
  · rw [ringShmGrant_of_not_ok (fun h => hok ⟨hrange.mp h.1, h.2⟩), sysShmGrant_of_not_ok hok]
    exact SameUpTo.refl ..

/-- **The ring and the system calls agree**: `brk` and `mmap` are the same, messages differ in the switch
and in what happens to a target that is not blocked, and grants differ in the mark. -/
theorem ringRequests_agree (s : Machine) (drainSq : UInt64 → Procs → Procs)
    (slabAlloc : Vm → UInt64 × Vm) :
    (∀ newBrk, ringBrk s s.procs.currentPid newBrk = sysBrk s newBrk) ∧
    (∀ length prot, ringMmap slabAlloc s s.procs.currentPid length prot =
      sysMmap slabAlloc s length prot) ∧
    (∀ targetPid, SameRange targetPid → ∀ msg0 msg1, IpcAgrees drainSq s.procs targetPid msg0 msg1) ∧
    ∀ roots, WellMapped roots s → ∀ targetPid, SameRange targetPid → ∀ srcVaddr dstVaddr,
      SameUpTo entryMask roots (ringShmGrant s s.procs.currentPid targetPid srcVaddr dstVaddr)
        (sysShmGrant s targetPid srcVaddr dstVaddr 1) := by
  refine ⟨fun _ => rfl, fun _ _ => rfl, ?_, ?_⟩
  · intro targetPid htarget msg0 msg1
    exact ipc_agrees drainSq s.procs htarget msg0 msg1
  · intro roots hs targetPid htarget srcVaddr dstVaddr
    exact grant_agrees hs htarget srcVaddr dstVaddr

/-- Two processes, with page tables at `0x1000` and at `0x2000`; the first one runs. -/
def twoSpaces : Procs :=
  { Procs.zero with
    currentPid := 1
    table := fun i =>
      if i == 1 then { Pcb.zero with state := procRunning, userPml4 := 0x1000 }
      else if i == 2 then { Pcb.zero with state := procReady, userPml4 := 0x2000 }
      else Pcb.zero }

theorem pageAligned_twoSpaces : ∀ r ∈ ({0x1000, 0x2000} : Set UInt64), PageAligned r := by
  rintro r (rfl | rfl)
  · unfold PageAligned
    decide
  · unfold PageAligned
    decide

theorem freshAnswers_twoSpaces (answers : List UInt64) (hnodup : answers.Nodup)
    (hanswers : ∀ a ∈ answers, a ≠ 0 ∧ a.toNat % 4096 = 0 ∧ a.toNat < 2 ^ 52 ∧ a ≠ 0x1000 ∧ a ≠ 0x2000) :
    FreshAnswers {0x1000, 0x2000} (fun _ => 0) answers := by
  refine ⟨hnodup, fun a ha => ?_⟩
  obtain ⟨hne, haligned, hsmall, h₁, h₂⟩ := hanswers a ha
  exact freshFrame_zeros hne haligned hsmall (by rintro (h | h); exacts [h₁ h, h₂ h])

/-- The pages of the tables that lead the first process to its page `0x8000` at 0. -/
abbrev OnePage (m : Mem) : Prop :=
  PageMapped {0x1000, 0x2000} (fun _ => 0) m 0x1000 0 (0x8000 ||| 7) [0x3000, 0x4000, 0x5000]

theorem exists_onePage : ∃ m,
    mapUserPage ⟨fun _ => 0, [0x3000, 0x4000, 0x5000]⟩ 0x1000 0 0x8000 7 = ⟨m, []⟩ ∧ OnePage m :=
  mapUserPage_served (tables_zeros pageAligned_twoSpaces) (.inl rfl)
    (show (0 : UInt64) < userAddrLimit by decide)
    (freshAnswers_twoSpaces [0x3000, 0x4000, 0x5000] (by decide)
      (List.all_iff_forall_prop.mp (by decide)))
    (wants_zero _ _).symm [] 0x8000 7

section OnePage

variable {m : Mem} (h : OnePage m)
include h

theorem leaf_onePage : leaf m 0x1000 0 = 0x8007 := by
  rw [h.leaves 0x1000 (.inl rfl) 0 (by decide), if_pos ⟨rfl, rfl⟩]
  rfl

theorem leaf_onePage_target : leaf m 0x2000 0 = 0 := by
  rw [h.leaves 0x2000 (.inr rfl) 0 (by decide), if_neg (fun h => absurd h.1 (by decide)), leaf_zero]

theorem freshAnswers_onePage : FreshAnswers {0x1000, 0x2000} m [0x6000, 0x7000, 0x9000] := by
  have hzero := freshAnswers_twoSpaces [0x6000, 0x7000, 0x9000] (by decide)
    (List.all_iff_forall_prop.mp (by decide))
  have hunused : ∀ a ∈ [(0x6000 : UInt64), 0x7000, 0x9000], a ∉ [(0x3000 : UInt64), 0x4000, 0x5000] :=
    List.all_iff_forall_prop.mp (by decide)
  refine ⟨hzero.nodup, fun a ha => (hzero.fresh a ha).congr ?_⟩
  intro r hr q hq hx
  exact (h.adds r hr q hq a hx).resolve_right (hunused a ha)

theorem grantOk_onePage (answers : List UInt64) : GrantOk ⟨twoSpaces, ⟨m, answers⟩⟩ 2 0 0 := by
  have halive : twoSpaces.state 2 ≠ procFree := by decide
  have hsource : (twoSpaces.table twoSpaces.currentPid).userPml4 ≠ 0 := by decide
  have htarget : (twoSpaces.table 2).userPml4 ≠ 0 := by decide
  refine ⟨halive, by decide, by decide, by decide, by decide, by decide, by decide, hsource, htarget,
    ?_, ?_⟩
  · change getUserPte m 0x1000 0 &&& ptePresent ≠ 0
    rw [getUserPte_eq_leaf, leaf_onePage h]
    decide
  · change getUserPte m 0x2000 0 &&& ptePresent = 0
    rw [getUserPte_eq_leaf, leaf_onePage_target h, UInt64.zero_and]

theorem wellMapped_onePage : WellMapped {0x1000, 0x2000} ⟨twoSpaces, ⟨m, [0x6000, 0x7000, 0x9000]⟩⟩ := by
  refine ⟨h.tables, freshAnswers_onePage h, fun slot hroot => ?_⟩
  unfold Machine.root twoSpaces at hroot ⊢
  dsimp only at hroot ⊢
  split_ifs at hroot ⊢
  · exact .inl rfl
  · exact .inr rfl
  · exact absurd rfl hroot

end OnePage

/-- The first process sends a message to the second one, and grants it its page. -/
theorem ringRequests_agree_onePage :
    SameRange 2 ∧ IpcAgrees (fun _ p => p) twoSpaces 2 7 8 ∧
      ∃ m, WellMapped {0x1000, 0x2000} ⟨twoSpaces, ⟨m, [0x6000, 0x7000, 0x9000]⟩⟩ ∧
        (ringShmGrant ⟨twoSpaces, ⟨m, [0x6000, 0x7000, 0x9000]⟩⟩ 1 2 0 0).1 = 0 ∧
        SameUpTo entryMask {0x1000, 0x2000} (ringShmGrant ⟨twoSpaces, ⟨m, [0x6000, 0x7000, 0x9000]⟩⟩ 1 2 0 0)
          (sysShmGrant ⟨twoSpaces, ⟨m, [0x6000, 0x7000, 0x9000]⟩⟩ 2 0 0 1) := by
  have hrange : SameRange 2 := .inl (by decide)
  obtain ⟨m, -, h⟩ := exists_onePage
  obtain ⟨-, -, hipc, hgrant⟩ :=
    ringRequests_agree ⟨twoSpaces, ⟨m, [0x6000, 0x7000, 0x9000]⟩⟩ (fun _ p => p) (fun vm => (0, vm))
  exact ⟨hrange, hipc 2 hrange 7 8, m, wellMapped_onePage h,
    congrArg Prod.fst (ringShmGrant_of_ok (by decide) (grantOk_onePage h _)),
    hgrant {0x1000, 0x2000} (wellMapped_onePage h) 2 hrange 0 0⟩

/-- The process in slot 1 runs, with the page tables at `0x1000`, and the one in slot 2 is ready. -/
def twoProcs : Machine where
  procs := { Procs.zero with
    currentPid := 1
    table := fun i =>
      if i == 1 then { Pcb.zero with state := procRunning, userPml4 := 0x1000 }
      else if i == 2 then { Pcb.zero with state := procReady }
      else Pcb.zero }
  vm := ⟨fun _ => 0, []⟩

theorem wellMapped_twoProcs : WellMapped {0x1000} twoProcs := by
  refine ⟨tables_zero pageAligned_0x1000, ⟨List.nodup_nil, fun a ha => absurd ha List.not_mem_nil⟩, ?_⟩
  intro slot hroot
  rw [Set.mem_singleton_iff]
  by_contra hne
  apply hroot
  have hslot : slot ≠ 1 := by
    rintro rfl
    exact hne rfl
  unfold Machine.root twoProcs
  dsimp only
  rw [if_neg (by simpa using hslot)]
  split
  · rfl
  · rfl

/-- The law without exceptions. -/
def RingLaw (drainSq : UInt64 → Procs → Procs) (slabAlloc : Vm → UInt64 × Vm) (roots : Set UInt64)
    (s : Machine) : Prop :=
  (∀ newBrk, ringBrk s s.procs.currentPid newBrk = sysBrk s newBrk) ∧
  (∀ length prot, ringMmap slabAlloc s s.procs.currentPid length prot =
    sysMmap slabAlloc s length prot) ∧
  (∀ targetPid msg0 msg1, ringIpcSend s.procs s.procs.currentPid targetPid msg0 msg1 =
    sysIpcSend drainSq s.procs targetPid msg0 msg1 0) ∧
  ∀ targetPid srcVaddr dstVaddr,
    SameUpTo allOnes roots (ringShmGrant s s.procs.currentPid targetPid srcVaddr dstVaddr)
      (sysShmGrant s targetPid srcVaddr dstVaddr 1)

/-- A message to a process that is ready: the system call keeps it for the process. -/
theorem not_ringLaw :
    ¬ ∀ (drainSq : UInt64 → Procs → Procs) (slabAlloc : Vm → UInt64 × Vm) (roots : Set UInt64)
      (s : Machine), WellMapped roots s → RingLaw drainSq slabAlloc roots s := by
  intro hall
  obtain ⟨-, -, hipc, -⟩ := hall (fun _ p => p) (fun vm => (0, vm)) {0x1000} twoProcs
    wellMapped_twoProcs
  have hresult := congrArg Prod.fst (hipc 2 7 8)
  have hring : (ringIpcSend twoProcs.procs twoProcs.procs.currentPid 2 7 8).1 = 0 - 1 := by
    decide +kernel
  have hsys : (sysIpcSend (fun _ p => p) twoProcs.procs 2 7 8 0).1 = 0 := by
    decide +kernel
  rw [hring, hsys] at hresult
  exact absurd hresult (by decide)

end Keuos.Syscall
