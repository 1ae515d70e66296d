import Keuos.Paging.Equiv.Sweep
import Keuos.Process.Equiv.Books
import Keuos.Reclaim.Defs
import Keuos.Syscall.Equiv.Ownership
import Mathlib.Data.Bool.AllAny

/-!
# What a reclamation leaves behind

`keuos_reclaim` frees the tables and the pages of an address space, except its top table, which nobody
frees after the slot has forgotten it.  (The kernel stack is passed to `pmm.free` by its virtual address,
the pages of a ring are freed twice, and the slot stays ZOMBIE.)

## Main results

* `reclaim_not_exact`: no reclamation of a process is exact.
* `not_exact_emptyProcess`: not even that of a process that maps nothing.
-/

namespace Keuos.Reclaim

open Paging Process Ledger Spawn

/-- The process in a slot holds a page: as a table or a page of its address space, as its kernel stack, or
for its ring. -/
inductive Held (k : Kernel) (slot : UInt64) : UInt64 → Prop
  | table {q : List UInt64} {x : UInt64} (hq : UserPath q)
      (hx : table k.mem (k.procs.table slot).userPml4 q = some x) : Held k slot x
  | page {v : UInt64} (hv : v < userAddrLimit)
      (hpresent : getUserPte k.mem (k.procs.table slot).userPml4 v &&& ptePresent ≠ 0) :
    Held k slot (getUserPte k.mem (k.procs.table slot).userPml4 v &&& addrMask)
  | stack (hstack : (k.procs.table slot).kernelStackBase ≠ 0) :
    Held k slot (virtToPhysRaw (k.procs.table slot).kernelStackBase)
  | ring {x : UInt64} (hactive : (k.rings slot).active = 1) (hx : x ∈ (k.rings slot).pages) :
    Held k slot x

/-- The reclamation of a slot is complete and exact. -/
structure Exact (k : Kernel) (slot : UInt64) : Prop where
  once : ∀ x, Held k slot x → (freedPages k slot).count x = 1
  only : ∀ x ∈ freedPages k slot, Held k slot x
  counted : pagesFreed k slot = UInt64.ofNat (freedPages k slot).length
  reusable : taken (keuosReclaim k slot).procs slot = false

/-! ### The top table -/

section TopTable

variable {roots : Set UInt64} {m : Mem} {log : List (Entry Syscall.Holder UInt64)} {root : UInt64}

theorem not_reaches_root (h : Syscall.Owned roots m log) (hroot : root ∈ roots) :
    ¬ Reaches m root userEntries 4 root := by
  rintro ⟨j, q, hj, hlength, hq, hx⟩
  have hnil : UserPath [] := ⟨by simp, by simp, by simp⟩
  by_cases hshort : q.length ≤ 2
  · -- a table below the top table
    have hpath : UserPath (j :: q) := by
      refine ⟨by simp; omega, ?_, ?_⟩
      · intro i hi
        rcases List.mem_cons.mp hi with rfl | hi
        · exact Nat.lt_trans hj (by decide)
        · exact hq i hi
      · intro i hi
        obtain rfl : j = i := Option.some.inj hi
        exact hj
    have hpaths := (h.tables.separated root hroot root hroot [] (j :: q) hnil hpath root rfl hx).2
    exact absurd hpaths (by simp)
  · -- a page
    obtain ⟨b, c, d, rfl⟩ := List.length_eq_three.mp (show q.length = 3 by omega)
    have hpath : UserPath [j, b, c] := by
      refine ⟨by simp, ?_, ?_⟩
      · intro i hi
        rcases List.mem_cons.mp hi with rfl | hi
        · exact Nat.lt_trans hj (by decide)
        · refine hq i ?_
          rcases List.mem_cons.mp hi with rfl | hi
          · simp
          · rw [List.mem_singleton.mp hi]
            simp
      · intro i hi
        obtain rfl : j = i := Option.some.inj hi
        exact hj
    have hsplit : [j, b, c, d] = [j, b, c] ++ [d] := rfl
    rw [hsplit] at hx
    obtain ⟨t, ht, hfollow⟩ := (Forest.walk_append_singleton_eq_some _).mp hx
    obtain ⟨hpresent, hframe⟩ := follow_eq_some.mp hfollow
    obtain ⟨v, hv, hleaf⟩ := exists_leaf hpath rfl ht (hq d (by simp))
    rw [← hleaf] at hpresent hframe
    exact h.apart root hroot v hv hpresent root hroot [] hnil (congrArg some hframe)

end TopTable

/-! ### Reclamations -/

/-- The process in a slot has one of the address spaces of `s`, a kernel stack in the direct map of the first
2 GiB, if any, and a ring, if any, whose pages are mapped. -/
structure Hosts (k : Kernel) (slot : UInt64) (s : Syscall.Spaces) : Prop where
  mem : k.mem = s.mem
  space : (k.procs.table slot).userPml4 ∈ s.live
  stack : (k.procs.table slot).kernelStackBase = 0 ∨ ∃ frame : UInt64, frame.toNat < 2 ^ 31 ∧
    (k.procs.table slot).kernelStackBase = Pmm.physToVirt frame
  ring : (k.rings slot).active = 1 → ∀ x ∈ (k.rings slot).pages, ∃ v, v < userAddrLimit ∧
    getUserPte k.mem (k.procs.table slot).userPml4 v &&& ptePresent ≠ 0 ∧
    getUserPte k.mem (k.procs.table slot).userPml4 v &&& addrMask = x

section Reclaim

variable {s : Syscall.Spaces} {k : Kernel} {slot : UInt64}

theorem toNat_physToVirt {frame : UInt64} (h : frame.toNat < 2 ^ 31) :
    (Pmm.physToVirt frame).toNat = frame.toNat + (2 ^ 64 - 2 ^ 31) := by
  unfold Pmm.physToVirt
  rw [UInt64.toNat_add, show Pmm.kernelBase.toNat = 2 ^ 64 - 2 ^ 31 from rfl]
  exact Nat.mod_eq_of_lt (by omega)

/-- **The top table** is not freed. -/
theorem Hosts.not_freed (h : Hosts k slot s) (hsound : s.Sound)
    (hsmall : (k.procs.table slot).userPml4.toNat < 2 ^ 52) :
    (k.procs.table slot).userPml4 ∉ freedPages k slot := by
  have hroot : (k.procs.table slot).userPml4 ∈ {r | r ∈ s.live} := h.space
  have howned : Syscall.Owned {r | r ∈ s.live} k.mem s.log := by
    rw [h.mem]
    exact hsound
  intro hx
  unfold freedPages at hx
  rcases List.mem_append.mp hx with hring | hx
  · split at hring
    · exact absurd hring List.not_mem_nil
    · next hactive =>
      rw [bne_iff_ne, not_not] at hactive
      obtain ⟨v, hv, hpresent, hframe⟩ := h.ring hactive _ hring
      rw [getUserPte_eq_leaf] at hpresent hframe
      exact howned.apart _ hroot v hv hpresent _ hroot [] ⟨by simp, by simp, by simp⟩
        (congrArg some hframe.symm)
  · rcases List.mem_append.mp hx with hswept | hstack
    · exact not_reaches_root howned hroot
        (atomicPageSweep_reaches (howned.tables.aligned _ hroot) _ hswept)
    · unfold kernelStackPages at hstack
      dsimp only at hstack
      split at hstack
      · next hne =>
        rcases h.stack with hzero | ⟨frame, hframe, hvirt⟩
        · rw [hzero] at hne
          exact absurd hne (by decide)
        · have heq := congrArg UInt64.toNat (List.mem_singleton.mp hstack)
          rw [hvirt, toNat_physToVirt hframe] at heq
          omega
      · exact absurd hstack List.not_mem_nil

/-- **A reclamation** is not exact. -/
theorem Hosts.not_exact (h : Hosts k slot s) (hsound : s.Sound)
    (hsmall : (k.procs.table slot).userPml4.toNat < 2 ^ 52) : ¬ Exact k slot := by
  intro hexact
  have hnil : UserPath [] := ⟨by simp, by simp, by simp⟩
  have honce := hexact.once _ (.table hnil rfl)
  rw [List.count_eq_zero.mpr (h.not_freed hsound hsmall)] at honce
  cases honce

theorem fst_createUserPml4 (vm : Vm) (kernelPml4 : UInt64) :
    (createUserPml4 vm kernelPml4).1 = vm.alloc.1 := by
  unfold createUserPml4
  dsimp only
  split
  · next h => exact (beq_iff_eq.mp h).symm
  · rfl

theorem small_exec (h : ∀ r ∈ s.live, r.toNat < 2 ^ 52) {op : Syscall.SpaceOp}
    (hok : Syscall.Careful s op) :
    ∀ r ∈ (s.exec op).live, r.toNat < 2 ^ 52 := by
  intro r hr
  rcases Syscall.mem_live_exec hr with hold | ⟨kernelPml4, answers, rfl, hne, rfl⟩
  · exact h r hold
  · rw [fst_createUserPml4] at hne ⊢
    cases answers with
    | nil => exact absurd rfl hne
    | cons a answers => exact (hok.page a List.mem_cons_self hne).2.1

theorem small_run {mem : Mem} {procs : Procs} {ops : List Syscall.SpaceOp}
    (hok : Admissible Syscall.Spaces.exec Syscall.Careful (Syscall.Spaces.start mem procs) ops) :
    ∀ r ∈ (runOps Syscall.Spaces.exec (Syscall.Spaces.start mem procs) ops).live, r.toNat < 2 ^ 52 :=
  runOps_induction (I := fun s : Syscall.Spaces => ∀ r ∈ s.live, r.toNat < 2 ^ 52)
    (fun _ _ h hstep => small_exec h hstep) (fun _ hr => absurd hr List.not_mem_nil) hok

end Reclaim

/-- **No reclamation is exact**, whatever the address space of the process is made of: the top table is one
of the pages that the process holds, and it is not freed. -/
theorem reclaim_not_exact {mem : Mem} {procs : Procs} {ops : List Syscall.SpaceOp}
    (hok : Admissible Syscall.Spaces.exec Syscall.Careful (Syscall.Spaces.start mem procs) ops)
    {k : Kernel} {slot : UInt64}
    (hhosts : Hosts k slot (runOps Syscall.Spaces.exec (Syscall.Spaces.start mem procs) ops)) :
    ¬ Exact k slot := by
  have hsound : (runOps Syscall.Spaces.exec (Syscall.Spaces.start mem procs) ops).Sound :=
    runOps_induction (fun _ _ h hstep => h.exec hstep) (Syscall.sound_start mem procs) hok
  exact hhosts.not_exact hsound (small_run hok _ hhosts.space)

/-! ### A process that maps nothing -/

/-- A process in slot 1 whose top table is at `0x1000` and whose kernel stack is at `0x8000`. -/
def emptyProcess : Kernel where
  mem := fun _ => 0
  procs := (claimSlot Procs.zero 1).modify 1 fun b =>
    { b with userPml4 := 0x1000, kernelStackBase := Pmm.physToVirt 0x8000 }
  rings := fun _ => RingEntry.zero
  log := []

section EmptyProcess

theorem exec_create :
    runOps Syscall.Spaces.exec (Syscall.Spaces.start (fun _ => 0) Syscall.twoSpaces) [.create 0 [0x1000]] =
      ⟨Syscall.twoSpaces, fun _ => 0, [0x1000], handAll .space [0x1000] []⟩ := by
  rw [runOps_cons, Syscall.exec_create_zeros rfl (by decide), runOps_nil]
  rfl

theorem admissible_create : Admissible Syscall.Spaces.exec Syscall.Careful
    (Syscall.Spaces.start (fun _ => 0) Syscall.twoSpaces) [.create 0 [0x1000]] :=
  ⟨Syscall.stock_of_unused (by decide) (List.all_iff_forall_prop.mp (by decide))
    (fun _ _ => rfl), trivial⟩

theorem hosts_emptyProcess : Hosts emptyProcess 1 (runOps Syscall.Spaces.exec
    (Syscall.Spaces.start (fun _ => 0) Syscall.twoSpaces) [.create 0 [0x1000]]) := by
  rw [exec_create]
  refine ⟨rfl, ?_, .inr ⟨0x8000, by decide, rfl⟩, ?_⟩
  · exact List.mem_singleton.mpr rfl
  · exact fun h => absurd h (by decide)

theorem reclaim_not_exact_empty : ¬ Exact emptyProcess 1 :=
  reclaim_not_exact admissible_create hosts_emptyProcess

/-- **A process that maps nothing**: the top table is not freed, and its kernel stack is passed to
`pmm.free` by its virtual address. -/
theorem not_exact_emptyProcess :
    Held emptyProcess 1 0x1000 ∧ Held emptyProcess 1 0x8000 ∧
      (freedPages emptyProcess 1).count 0x1000 = 0 ∧ (freedPages emptyProcess 1).count 0x8000 = 0 ∧
      taken (keuosReclaim emptyProcess 1).procs 1 = true ∧ ¬ Exact emptyProcess 1 := by
  have hnil : UserPath [] := ⟨by simp, by simp, by simp⟩
  have htable : Held emptyProcess 1 0x1000 := .table hnil rfl
  have hstack : Held emptyProcess 1 0x8000 := .stack (by decide)
  have hfreed : freedPages emptyProcess 1 = [Pmm.physToVirt 0x8000] := by decide +kernel
  refine ⟨htable, hstack, ?_, ?_, by decide +kernel, ?_⟩
  · rw [hfreed]
    decide
  · rw [hfreed]
    decide
  · intro hexact
    have honce := hexact.once _ htable
    rw [hfreed] at honce
    exact absurd honce (by decide)

end EmptyProcess

end Keuos.Reclaim
