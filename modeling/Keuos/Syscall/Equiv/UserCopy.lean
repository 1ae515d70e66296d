import Keuos.Lib.Memory
import Keuos.Paging.Equiv.Tables
import Keuos.Syscall.Memory

/-!
# Copies between the kernel and a process

A copy of `len` bytes through the page tables is the transfer of the bytes one by one to or from
`physToVirt (translateUserAddr …)`, as long as no byte that is written belongs to an entry that the walks of
the copy read.

## Main results

* `copyPages_spec`: the loop over the pages, up to the first page that stops it.
* `copyFromUser_spec`, `copyToUser_spec`: the two copies.
* `copies_exact`: both, with the bytes that change.
* `copyToUser_room`: how far `copy_to_user` gets.
-/

namespace Keuos.Syscall

open Process Paging
open Pmm (physToVirt)
open Serial (isValidUserPtr)

/-! ### The innermost loop -/

theorem copyBytes_eq (dst src : UInt64) (n : Nat) : ∀ (k : Nat) (m : Mem),
    copyBytes dst src n (UInt64.ofNat k) m =
      Mem.transfer (fun i => dst + UInt64.ofNat (k + i)) (fun i => src + UInt64.ofNat (k + i)) n m := by
  induction n with
  | zero => exact fun _ _ => rfl
  | succ n ih =>
    intro k m
    have hnext : UInt64.ofNat k + 1 = UInt64.ofNat (k + 1) := (UInt64.ofNat_add k 1).symm
    show copyBytes dst src n (UInt64.ofNat k + 1) _ = _
    rw [hnext, ih, Nat.add_comm n 1, Mem.transfer_add]
    simp only [Nat.add_assoc]
    rfl

/-! ### The loop over the pages -/

section Pages

variable {page : Mem → UInt64 → Option UInt64} {copy : UInt64 → UInt64 → UInt64 → Mem → Mem}
  {va current : UInt64} {dst src : Nat → UInt64} {len : Nat} {m : Mem}

/-- The copy of `len` bytes between `va` and `current` is the transfer from `src` to `dst`: the addresses of
a page follow each other, the transfer leaves the pages as they are, and the innermost loop does its part. -/
structure Paged (page : Mem → UInt64 → Option UInt64) (copy : UInt64 → UInt64 → UInt64 → Mem → Mem)
    (va current : UInt64) (dst src : Nat → UInt64) (len : Nat) (m : Mem) : Prop where
  within : ∀ k i p, k + i < len → page m (va + UInt64.ofNat k) = some p →
    (va.toNat + k) % 4096 + i < 4096 →
    page m (va + UInt64.ofNat (k + i)) = some (p + UInt64.ofNat i)
  stable : ∀ j ≤ len, (∀ i < j, (page m (va + UInt64.ofNat i)).isSome) → ∀ k < len,
    page (Mem.transfer dst src j m) (va + UInt64.ofNat k) = page m (va + UInt64.ofNat k)
  copies : ∀ k n p, k + n ≤ len → page m (va + UInt64.ofNat k) = some p →
    (va.toNat + k) % 4096 + n ≤ 4096 →
    ∀ t, copy (physToVirt p) (current + UInt64.ofNat k) (UInt64.ofNat n) t =
      Mem.transfer (fun i => dst (k + i)) (fun i => src (k + i)) n t

theorem toNat_and_pageMask (v : UInt64) : (v &&& 0xFFF).toNat = v.toNat % 4096 := by
  rw [UInt64.toNat_and]
  exact Nat.and_two_pow_sub_one_eq_mod v.toNat 12

theorem toNat_chunkSize {v remaining : UInt64} (hpos : remaining ≠ 0) :
    let chunkSize := if remaining > pageSize - (v &&& 0xFFF) then pageSize - (v &&& 0xFFF) else remaining
    0 < chunkSize.toNat ∧ chunkSize.toNat ≤ remaining.toNat ∧ v.toNat % 4096 + chunkSize.toNat ≤ 4096 ∧
      (chunkSize.toNat < remaining.toNat → v.toNat % 4096 + chunkSize.toNat = 4096) := by
  have hmask := toNat_and_pageMask v
  have hend : (pageSize - (v &&& 0xFFF)).toNat = 4096 - v.toNat % 4096 := by
    have hle : v &&& 0xFFF ≤ pageSize := by
      rw [UInt64.le_iff_toNat_le, hmask]
      have hsize : pageSize.toNat = 4096 := rfl
      omega
    rw [UInt64.toNat_sub_of_le _ _ hle, hmask]
    rfl
  have hrem : 0 < remaining.toNat := by
    have hne : remaining.toNat ≠ 0 := fun h => hpos (UInt64.toNat_inj.mp h)
    omega
  dsimp only
  split
  · rename_i h
    have hlt := UInt64.lt_iff_toNat_lt.mp h
    rw [hend] at hlt ⊢
    omega
  · rename_i h
    have hle := UInt64.le_iff_toNat_le.mp (UInt64.not_lt.mp h)
    rw [hend] at hle
    omega

/-- **The loop over the pages** transfers bytes up to the first page that stops it. -/
theorem copyPages_spec (h : Paged page copy va current dst src len m) (hlen : va.toNat + len < 2 ^ 64)
    (n : Nat) : ∀ k ≤ len, len ≤ k + n → (∀ i < k, (page m (va + UInt64.ofNat i)).isSome) →
      ∃ j ≤ len,
        copyPages page copy n (va + UInt64.ofNat k) (current + UInt64.ofNat k) (UInt64.ofNat (len - k))
          (Mem.transfer dst src k m) = (decide (j = len), Mem.transfer dst src j m) ∧
        (∀ i < j, (page m (va + UInt64.ofNat i)).isSome) ∧
        (j < len → page m (va + UInt64.ofNat j) = none) := by
  induction n with
  | zero =>
    intro k hk hlast hbefore
    have heq : k = len := by omega
    refine ⟨k, hk, ?_, hbefore, fun hlt => absurd heq (by omega)⟩
    rw [heq, decide_eq_true rfl]
    rfl
  | succ n ih =>
    intro k hk hlast hbefore
    have hrem : (UInt64.ofNat (len - k)).toNat = len - k := by
      rw [UInt64.toNat_ofNat', Nat.mod_eq_of_lt (by omega)]
    unfold copyPages
    by_cases hzero : len - k = 0
    · have heq : k = len := by omega
      refine ⟨k, hk, ?_, hbefore, fun hlt => absurd heq (by omega)⟩
      rw [hzero, if_pos (show (UInt64.ofNat 0 == 0) = true from rfl), heq, decide_eq_true rfl]
    · have hne : UInt64.ofNat (len - k) ≠ 0 := by
        intro heq
        rw [heq] at hrem
        exact hzero hrem.symm
      rw [if_neg (by simpa using hne), h.stable k hk hbefore k (by omega)]
      cases hpage : page m (va + UInt64.ofNat k) with
      | none =>
        refine ⟨k, hk, ?_, hbefore, fun _ => hpage⟩
        dsimp only
        rw [decide_eq_false (by omega)]
      | some phys =>
        dsimp only
        have hva : (va + UInt64.ofNat k).toNat = va.toNat + k := by
          rw [UInt64.toNat_add, UInt64.toNat_ofNat']
          omega
        -- the chunk ends with its page, or with the bytes that are left
        obtain ⟨hpos, hle, hfit, -⟩ := toNat_chunkSize (v := va + UInt64.ofNat k) hne
        rw [hrem] at hle
        rw [hva] at hfit
        generalize (if UInt64.ofNat (len - k) > pageSize - (va + UInt64.ofNat k &&& 0xFFF)
          then pageSize - (va + UInt64.ofNat k &&& 0xFFF) else UInt64.ofNat (len - k)) = chunkSize
          at hpos hle hfit ⊢
        have hchunk : chunkSize = UInt64.ofNat chunkSize.toNat := UInt64.ofNat_toNat.symm
        generalize chunkSize.toNat = c at hpos hle hfit hchunk
        have hrest : UInt64.ofNat (len - k) - UInt64.ofNat c = UInt64.ofNat (len - (k + c)) := by
          rw [← UInt64.toNat_inj, UInt64.toNat_sub_of_le _ _ (by
            rw [UInt64.le_iff_toNat_le, UInt64.toNat_ofNat', UInt64.toNat_ofNat',
              Nat.mod_eq_of_lt (by omega), Nat.mod_eq_of_lt (by omega)]
            exact hle), UInt64.toNat_ofNat', UInt64.toNat_ofNat', UInt64.toNat_ofNat',
            Nat.mod_eq_of_lt (by omega), Nat.mod_eq_of_lt (by omega), Nat.mod_eq_of_lt (by omega)]
          omega
        -- one page is mapped as a whole
        have hnext : ∀ i < k + c, (page m (va + UInt64.ofNat i)).isSome := by
          intro i hi
          by_cases hin : i < k
          · exact hbefore i hin
          · have hwithin := h.within k (i - k) phys (by omega) hpage (by omega)
            rw [show k + (i - k) = i by omega] at hwithin
            rw [hwithin]
            rfl
        obtain ⟨j, hj, hrun, hsome, hnone⟩ := ih (k + c) (by omega) (by omega) hnext
        refine ⟨j, hj, ?_, hsome, hnone⟩
        rw [hchunk, hrest, UInt64.add_assoc, UInt64.add_assoc, ← UInt64.ofNat_add,
          h.copies k c phys (by omega) hpage hfit, ← Mem.transfer_add]
        exact hrun

end Pages

/-! ### The walks -/

/-- The byte `x` belongs to one of the entries that the walk for `v` reads. -/
inductive OnWalk (m : Mem) (root v x : UInt64) : Prop
  | pml4 (h : InBlock (entryAddr root (pml4Index v)) 8 x)
  | pdp {a : UInt64} (ha : follow m root (pml4Index v) = some a) (h : InBlock (entryAddr a (pdpIndex v)) 8 x)
  | pd {a b : UInt64} (ha : follow m root (pml4Index v) = some a) (hb : follow m a (pdpIndex v) = some b)
    (h : InBlock (entryAddr b (pdIndex v)) 8 x)
  | pt {a b c : UInt64} (ha : follow m root (pml4Index v) = some a) (hb : follow m a (pdpIndex v) = some b)
    (hc : follow m b (pdIndex v) = some c) (h : InBlock (entryAddr c (ptIndex v)) 8 x)

/-- **A walk depends on its entries only.** -/
theorem leaf_of_walk {m m' : Mem} {root v : UInt64} (h : ∀ x, OnWalk m root v x → m' x = m x) :
    leaf m' root v = leaf m root v := by
  have hpml4 : follow m' root (pml4Index v) = follow m root (pml4Index v) :=
    follow_congr (Mem.read64_congr fun x hx => h x (.pml4 hx))
  unfold leaf path
  rw [table_path, table_path, hpml4]
  cases ha : follow m root (pml4Index v) with
  | none => rw [Option.bind_none, Option.bind_none, Option.map_none, Option.map_none]
  | some a =>
    have hpdp : follow m' a (pdpIndex v) = follow m a (pdpIndex v) :=
      follow_congr (Mem.read64_congr fun x hx => h x (.pdp ha hx))
    rw [Option.bind_some, Option.bind_some, hpdp]
    cases hb : follow m a (pdpIndex v) with
    | none => rw [Option.bind_none, Option.bind_none, Option.map_none, Option.map_none]
    | some b =>
      have hpd : follow m' b (pdIndex v) = follow m b (pdIndex v) :=
        follow_congr (Mem.read64_congr fun x hx => h x (.pd ha hb hx))
      rw [Option.bind_some, Option.bind_some, hpd]
      cases hc : follow m b (pdIndex v) with
      | none => rw [Option.map_none, Option.map_none]
      | some c =>
        have hpt : m'.read64 (entryAddr c (ptIndex v)) = m.read64 (entryAddr c (ptIndex v)) :=
          Mem.read64_congr fun x hx => h x (.pt ha hb hc hx)
        rw [Option.map_some, Option.map_some, Option.getD_some, Option.getD_some, hpt]

theorem translateUserAddr_ne_zero {m : Mem} {root v : UInt64} :
    translateUserAddr m root v ≠ 0 ↔ leaf m root v &&& ptePresent ≠ 0 ∧
      ¬(leaf m root v &&& addrMask = 0 ∧ v &&& 0xFFF = 0) := by
  rw [translateUserAddr_eq_leaf]
  by_cases hpresent : leaf m root v &&& ptePresent = 0
  · simp [hpresent]
  · rw [if_neg (by simpa using hpresent)]
    have hsum : (leaf m root v &&& addrMask) + (v &&& 0xFFF) = 0 ↔
        leaf m root v &&& addrMask = 0 ∧ v &&& 0xFFF = 0 := by
      have hmask := toNat_and_addrMask (leaf m root v)
      have hoff := toNat_and_pageMask v
      generalize leaf m root v &&& addrMask = a at hmask ⊢
      generalize v &&& 0xFFF = b at hoff ⊢
      have hbound : a.toNat + b.toNat < 2 ^ 64 := by omega
      have hadd : (a + b).toNat = a.toNat + b.toNat := by
        rw [UInt64.toNat_add, Nat.mod_eq_of_lt hbound]
      have hzero : ∀ x : UInt64, x = 0 ↔ x.toNat = 0 := fun x => UInt64.toNat_inj.symm
      rw [hzero, hzero a, hzero b, hadd]
      omega
    rw [ne_eq, hsum]
    simp only [hpresent, ne_eq, not_false_eq_true, true_and]

theorem samePage_add {v : UInt64} {i : Nat} (hfit : v.toNat % 4096 + i < 4096) :
    (v + UInt64.ofNat i) >>> 12 = v >>> 12 ∧
      (v + UInt64.ofNat i) &&& 0xFFF = (v &&& 0xFFF) + UInt64.ofNat i := by
  have hi : (UInt64.ofNat i).toNat = i := by
    rw [UInt64.toNat_ofNat', Nat.mod_eq_of_lt (by omega)]
  have hsum : (v + UInt64.ofNat i).toNat = v.toNat + i := by
    have := v.toNat_lt
    rw [UInt64.toNat_add, hi]
    omega
  constructor
  · rw [← UInt64.toNat_inj, UInt64.toNat_shiftRight, UInt64.toNat_shiftRight, Nat.shiftRight_eq_div_pow,
      Nat.shiftRight_eq_div_pow, hsum, show (12 : UInt64).toNat % 64 = 12 from rfl]
    omega
  · rw [← UInt64.toNat_inj, toNat_and_pageMask, UInt64.toNat_add (v &&& 0xFFF), toNat_and_pageMask, hsum, hi]
    omega

/-- **The addresses of a page follow each other.** -/
theorem translateUserAddr_add {m : Mem} {root v : UInt64} {i : Nat} (hfit : v.toNat % 4096 + i < 4096)
    (h : translateUserAddr m root v ≠ 0) :
    translateUserAddr m root (v + UInt64.ofNat i) = translateUserAddr m root v + UInt64.ofNat i ∧
      translateUserAddr m root (v + UInt64.ofNat i) ≠ 0 := by
  obtain ⟨hpresent, hframe⟩ := translateUserAddr_ne_zero.mp h
  obtain ⟨hsame, hoff⟩ := samePage_add hfit
  have hleaf := leaf_of_samePage m root hsame
  constructor
  · rw [translateUserAddr_eq_leaf, translateUserAddr_eq_leaf, hleaf, if_neg (by simpa using hpresent),
      if_neg (by simpa using hpresent), hoff, UInt64.add_assoc]
  · rw [translateUserAddr_ne_zero, hleaf, hoff]
    refine ⟨hpresent, fun hzero => hframe ⟨hzero.1, ?_⟩⟩
    have hnat := congrArg UInt64.toNat hzero.2
    rw [UInt64.toNat_add, toNat_and_pageMask, UInt64.toNat_ofNat', UInt64.toNat_zero] at hnat
    rw [← UInt64.toNat_inj, toNat_and_pageMask, UInt64.toNat_zero]
    omega

/-! ### Ranges -/

/-- The range is inside the user half. -/
def InUserHalf (v len : UInt64) : Prop := v < userAddrLimit ∧ v.toNat + len.toNat ≤ 2 ^ 47

theorem isValidUserPtr_iff (v len : UInt64) : isValidUserPtr v len = true ↔ InUserHalf v len := by
  have hlimit : userAddrLimit.toNat = 2 ^ 47 := rfl
  have hv := v.toNat_lt
  have hlen := len.toNat_lt
  have hadd := UInt64.toNat_add v len
  unfold isValidUserPtr InUserHalf
  by_cases hlow : v ≥ userAddrLimit
  · rw [if_pos hlow]
    exact ⟨fun h => absurd h Bool.false_ne_true, fun h => absurd h.1 (UInt64.not_lt.mpr hlow)⟩
  · have hlt := UInt64.not_le.mp hlow
    have hlt' := UInt64.lt_iff_toNat_lt.mp hlt
    rw [if_neg hlow]
    by_cases hwrap : v + len < v
    · rw [if_pos hwrap]
      have := UInt64.lt_iff_toNat_lt.mp hwrap
      exact ⟨fun h => absurd h Bool.false_ne_true, fun h => absurd h.2 (by omega)⟩
    · rw [if_neg hwrap]
      have hno : ¬(v + len).toNat < v.toNat := fun h => hwrap (UInt64.lt_iff_toNat_lt.mpr h)
      by_cases hend : v + len > userAddrLimit
      · rw [if_pos hend]
        have := UInt64.lt_iff_toNat_lt.mp hend
        exact ⟨fun h => absurd h Bool.false_ne_true, fun h => absurd h.2 (by omega)⟩
      · rw [if_neg hend]
        have hle : ¬userAddrLimit.toNat < (v + len).toNat := fun h => hend (UInt64.lt_iff_toNat_lt.mpr h)
        exact ⟨fun _ => ⟨hlt, by omega⟩, fun _ => rfl⟩

/-- The address is mapped. -/
def Mapped (m : Mem) (root v : UInt64) : Prop := getUserPte m root v &&& ptePresent ≠ 0

/-- The page of the address has the write bit. -/
def Writable (m : Mem) (root v : UInt64) : Prop := getUserPte m root v &&& pteWrite ≠ 0

/-- The address is mapped to the physical address 0. -/
def AtZero (m : Mem) (root v : UInt64) : Prop := getUserPte m root v &&& addrMask = 0 ∧ v &&& 0xFFF = 0

/-- Where the kernel finds the byte at a user address. -/
def kernAddr (m : Mem) (root v : UInt64) : UInt64 := physToVirt (translateUserAddr m root v)

theorem translate_ne_zero_iff {m : Mem} {root v : UInt64} :
    translateUserAddr m root v ≠ 0 ↔ Mapped m root v ∧ ¬AtZero m root v := by
  unfold Mapped AtZero
  rw [getUserPte_eq_leaf]
  exact translateUserAddr_ne_zero

/-- The bytes of the user range, those of the kernel range and the page tables are different ones. -/
structure Apart (m : Mem) (root user kern : UInt64) (len : Nat) : Prop where
  bytes : ∀ i < len, ∀ j < len, Mapped m root (user + UInt64.ofNat i) →
    kernAddr m root (user + UInt64.ofNat i) ≠ kern + UInt64.ofNat j
  kernTables : ∀ i < len, ∀ j < len, ¬OnWalk m root (user + UInt64.ofNat i) (kern + UInt64.ofNat j)
  userTables : ∀ i < len, ∀ j < len, Mapped m root (user + UInt64.ofNat j) →
    ¬OnWalk m root (user + UInt64.ofNat i) (kernAddr m root (user + UInt64.ofNat j))

section Pages

variable {m : Mem} {root user kern : UInt64} {len : Nat}

theorem readablePage_eq_some {p : UInt64} {v : UInt64} :
    readablePage root m v = some p ↔ translateUserAddr m root v ≠ 0 ∧ p = translateUserAddr m root v := by
  unfold readablePage
  dsimp only
  by_cases h : translateUserAddr m root v = 0
  · simp [h]
  · rw [if_neg (by simpa using h), Option.some.injEq]
    exact ⟨fun heq => ⟨h, heq.symm⟩, fun heq => heq.2.symm⟩

theorem writablePage_eq_some {p : UInt64} {v : UInt64} :
    writablePage root m v = some p ↔
      (translateUserAddr m root v ≠ 0 ∧ Writable m root v) ∧ p = translateUserAddr m root v := by
  unfold writablePage Writable
  rw [show pteWrite = 2 from rfl]
  dsimp only
  by_cases h : translateUserAddr m root v = 0
  · simp [h]
  · rw [if_neg (by simpa using h)]
    by_cases hwrite : getUserPte m root v &&& 2 = 0
    · simp [hwrite]
    · rw [if_neg (by simpa using hwrite), Option.some.injEq]
      exact ⟨fun heq => ⟨⟨h, hwrite⟩, heq.symm⟩, fun heq => heq.2.symm⟩

theorem isSome_readablePage {v : UInt64} :
    (readablePage root m v).isSome ↔ Mapped m root v ∧ ¬AtZero m root v := by
  rw [Option.isSome_iff_exists, ← translate_ne_zero_iff]
  simp only [readablePage_eq_some, exists_and_left, exists_eq, and_true]

theorem isSome_writablePage {v : UInt64} :
    (writablePage root m v).isSome ↔ (Mapped m root v ∧ ¬AtZero m root v) ∧ Writable m root v := by
  rw [Option.isSome_iff_exists, ← translate_ne_zero_iff]
  simp only [writablePage_eq_some, exists_and_left, exists_eq, and_true]

theorem pages_of_walk {m' : Mem} {v : UInt64} (h : ∀ x, OnWalk m root v x → m' x = m x) :
    readablePage root m' v = readablePage root m v ∧ writablePage root m' v = writablePage root m v := by
  have hleaf := leaf_of_walk h
  have htrans : translateUserAddr m' root v = translateUserAddr m root v := by
    rw [translateUserAddr_eq_leaf, translateUserAddr_eq_leaf, hleaf]
  unfold readablePage writablePage
  rw [getUserPte_eq_leaf, getUserPte_eq_leaf, hleaf, htrans]
  exact ⟨rfl, rfl⟩

theorem writable_add {v : UInt64} {i : Nat} (hfit : v.toNat % 4096 + i < 4096) :
    Writable m root (v + UInt64.ofNat i) ↔ Writable m root v := by
  unfold Writable
  rw [getUserPte_eq_leaf, getUserPte_eq_leaf, leaf_of_samePage m root (samePage_add hfit).1]

theorem physToVirt_add (p q : UInt64) : physToVirt (p + q) = physToVirt p + q := by
  unfold Pmm.physToVirt
  rw [UInt64.add_assoc, UInt64.add_comm q, ← UInt64.add_assoc]

theorem kernAddr_add {k i : Nat} (hlen : user.toNat + (k + i) < 2 ^ 64)
    (h : translateUserAddr m root (user + UInt64.ofNat k) ≠ 0) (hfit : (user.toNat + k) % 4096 + i < 4096) :
    kernAddr m root (user + UInt64.ofNat (k + i)) =
      physToVirt (translateUserAddr m root (user + UInt64.ofNat k)) + UInt64.ofNat i := by
  have hva : (user + UInt64.ofNat k).toNat = user.toNat + k := by
    rw [UInt64.toNat_add, UInt64.toNat_ofNat']
    omega
  rw [← hva] at hfit
  unfold kernAddr
  rw [UInt64.ofNat_add, ← UInt64.add_assoc, (translateUserAddr_add hfit h).1, physToVirt_add]

theorem paged_from (h : Apart m root user kern len) (hlen : user.toNat + len < 2 ^ 64) :
    Paged (readablePage root) (fun kernPtr dstPtr chunkSize => copyBytes dstPtr kernPtr chunkSize.toNat 0)
      user kern (fun i => kern + UInt64.ofNat i) (fun i => kernAddr m root (user + UInt64.ofNat i))
      len m where
  within k i p hki hp hfit := by
    obtain ⟨hne, rfl⟩ := readablePage_eq_some.mp hp
    have hva : (user + UInt64.ofNat k).toNat = user.toNat + k := by
      rw [UInt64.toNat_add, UInt64.toNat_ofNat']
      omega
    rw [← hva] at hfit
    obtain ⟨hadd, hne'⟩ := translateUserAddr_add hfit hne
    rw [UInt64.ofNat_add, ← UInt64.add_assoc, readablePage_eq_some]
    exact ⟨hne', hadd.symm⟩
  stable j hj _ k hk := by
    refine (pages_of_walk fun x hx => Mem.transfer_of_ne ?_ m).1
    rintro i hi rfl
    exact h.kernTables k hk i (by omega) hx
  copies k n p hkn hp hfit t := by
    obtain ⟨hne, rfl⟩ := readablePage_eq_some.mp hp
    have hn : (UInt64.ofNat n).toNat = n := by
      rw [UInt64.toNat_ofNat', Nat.mod_eq_of_lt (by omega)]
    show copyBytes _ _ (UInt64.ofNat n).toNat (UInt64.ofNat 0) t = _
    rw [hn, copyBytes_eq]
    apply Mem.transfer_congr
    · intro i _
      rw [Nat.zero_add, UInt64.ofNat_add, UInt64.add_assoc]
    · intro i hi
      rw [Nat.zero_add, kernAddr_add (by omega) hne (by omega)]

theorem paged_to (h : Apart m root user kern len) (hlen : user.toNat + len < 2 ^ 64) :
    Paged (writablePage root) (fun kernPtr srcPtr chunkSize => copyBytes kernPtr srcPtr chunkSize.toNat 0)
      user kern (fun i => kernAddr m root (user + UInt64.ofNat i)) (fun i => kern + UInt64.ofNat i)
      len m where
  within k i p hki hp hfit := by
    obtain ⟨⟨hne, hwrite⟩, rfl⟩ := writablePage_eq_some.mp hp
    have hva : (user + UInt64.ofNat k).toNat = user.toNat + k := by
      rw [UInt64.toNat_add, UInt64.toNat_ofNat']
      omega
    rw [← hva] at hfit
    obtain ⟨hadd, hne'⟩ := translateUserAddr_add hfit hne
    rw [UInt64.ofNat_add, ← UInt64.add_assoc, writablePage_eq_some, writable_add hfit]
    exact ⟨⟨hne', hwrite⟩, hadd.symm⟩
  stable j hj hsome k hk := by
    refine (pages_of_walk fun x hx => Mem.transfer_of_ne ?_ m).2
    rintro i hi rfl
    exact h.userTables k hk i (by omega) (isSome_writablePage.mp (hsome i hi)).1.1 hx
  copies k n p hkn hp hfit t := by
    obtain ⟨⟨hne, -⟩, rfl⟩ := writablePage_eq_some.mp hp
    have hn : (UInt64.ofNat n).toNat = n := by
      rw [UInt64.toNat_ofNat', Nat.mod_eq_of_lt (by omega)]
    show copyBytes _ _ (UInt64.ofNat n).toNat (UInt64.ofNat 0) t = _
    rw [hn, copyBytes_eq]
    apply Mem.transfer_congr
    · intro i hi
      rw [Nat.zero_add, kernAddr_add (by omega) hne (by omega)]
    · intro i _
      rw [Nat.zero_add, UInt64.ofNat_add, UInt64.add_assoc]

end Pages

/-! ### The copies -/

/-- The root of the page tables of the running process. -/
def Machine.userPml4 (s : Machine) : UInt64 := (s.procs.table s.procs.currentPid).userPml4

/-- The range is inside the user half, and every page of it is mapped, not counting an address that is
mapped to the physical address 0. -/
structure ReadableRange (m : Mem) (root user len : UInt64) : Prop where
  inside : InUserHalf user len
  mapped : ∀ i < len.toNat, Mapped m root (user + UInt64.ofNat i) ∧ ¬AtZero m root (user + UInt64.ofNat i)

/-- Every page of the range is writable, too. -/
structure WritableRange (m : Mem) (root user len : UInt64) : Prop extends ReadableRange m root user len where
  writable : ∀ i < len.toNat, Writable m root (user + UInt64.ofNat i)

theorem toInt_toInt64 {len : UInt64} (h : len.toNat < 2 ^ 63) : len.toInt64.toInt = len.toNat := by
  rw [← UInt64.ofNat_toNat (x := len), UInt64.toInt64_ofNat', Int64.toInt_ofNat_of_lt h,
    UInt64.ofNat_toNat]

section Copies

variable {s : Machine} {user kern len : UInt64}

theorem copyFromUser_eq (h : Apart s.vm.mem s.userPml4 user kern len.toNat) (hvalid : InUserHalf user len) :
    ∃ j ≤ len.toNat,
      copyFromUser s kern user len = (if j = len.toNat then len.toInt64 else -1,
        s.withMem (Mem.transfer (fun i => kern + UInt64.ofNat i)
          (fun i => kernAddr s.vm.mem s.userPml4 (user + UInt64.ofNat i)) j s.vm.mem)) ∧
      (∀ i < j, (readablePage s.userPml4 s.vm.mem (user + UInt64.ofNat i)).isSome) ∧
      (j < len.toNat → readablePage s.userPml4 s.vm.mem (user + UInt64.ofNat j) = none) := by
  have hlen : user.toNat + len.toNat < 2 ^ 64 := by
    have := hvalid.2
    omega
  obtain ⟨j, hj, hrun, hsome, hnone⟩ :=
    copyPages_spec (paged_from h hlen) hlen len.toNat 0 (Nat.zero_le _) (by omega) (by omega)
  rw [Nat.sub_zero, UInt64.ofNat_toNat, show UInt64.ofNat 0 = 0 from rfl, UInt64.add_zero,
    UInt64.add_zero] at hrun
  refine ⟨j, hj, ?_, hsome, hnone⟩
  unfold copyFromUser
  rw [if_neg (by simpa using (isValidUserPtr_iff user len).mpr hvalid)]
  change ((if (copyPages (readablePage s.userPml4) _ len.toNat user kern len s.vm.mem).1
    then len.toInt64 else -1),
    s.withMem (copyPages (readablePage s.userPml4) _ len.toNat user kern len s.vm.mem).2) = _
  change copyPages _ _ len.toNat user kern len s.vm.mem = _ at hrun
  rw [hrun]
  simp only [decide_eq_true_eq]

theorem copyToUser_eq (h : Apart s.vm.mem s.userPml4 user kern len.toNat) (hvalid : InUserHalf user len) :
    ∃ j ≤ len.toNat,
      copyToUser s user kern len = (if j = len.toNat then len.toInt64 else -1,
        s.withMem (Mem.transfer (fun i => kernAddr s.vm.mem s.userPml4 (user + UInt64.ofNat i))
          (fun i => kern + UInt64.ofNat i) j s.vm.mem)) ∧
      (∀ i < j, (writablePage s.userPml4 s.vm.mem (user + UInt64.ofNat i)).isSome) ∧
      (j < len.toNat → writablePage s.userPml4 s.vm.mem (user + UInt64.ofNat j) = none) := by
  have hlen : user.toNat + len.toNat < 2 ^ 64 := by
    have := hvalid.2
    omega
  obtain ⟨j, hj, hrun, hsome, hnone⟩ :=
    copyPages_spec (paged_to h hlen) hlen len.toNat 0 (Nat.zero_le _) (by omega) (by omega)
  rw [Nat.sub_zero, UInt64.ofNat_toNat, show UInt64.ofNat 0 = 0 from rfl, UInt64.add_zero,
    UInt64.add_zero] at hrun
  refine ⟨j, hj, ?_, hsome, hnone⟩
  unfold copyToUser
  rw [if_neg (by simpa using (isValidUserPtr_iff user len).mpr hvalid)]
  change ((if (copyPages (writablePage s.userPml4) _ len.toNat user kern len s.vm.mem).1
    then len.toInt64 else -1),
    s.withMem (copyPages (writablePage s.userPml4) _ len.toNat user kern len s.vm.mem).2) = _
  change copyPages _ _ len.toNat user kern len s.vm.mem = _ at hrun
  rw [hrun]
  simp only [decide_eq_true_eq]

theorem length_takeWhile_range {p : Nat → Bool} {n j : Nat} (hj : j ≤ n) (hall : ∀ i < j, p i = true)
    (hstop : j < n → p j = false) : ((List.range n).takeWhile p).length = j := by
  have hsplit : List.range n = List.range j ++ (List.range (n - j)).map (j + ·) := by
    rw [← List.range_add, Nat.add_sub_cancel' hj]
  rw [hsplit, List.takeWhile_append_of_pos fun i hi => hall i (List.mem_range.mp hi), List.length_append,
    List.length_range]
  cases hrest : n - j with
  | zero => rfl
  | succ k =>
    rw [List.range_succ_eq_map, List.map_cons, List.takeWhile_cons_of_neg]
    · rfl
    · rw [Nat.add_zero, hstop (by omega)]
      exact Bool.false_ne_true

/-- **`copy_to_user` stores as many bytes as there is room for.** -/
theorem copyToUser_room (h : Apart s.vm.mem s.userPml4 user kern len.toNat) :
    (copyToUser s user kern len).2 =
      s.withMem (Mem.transfer (fun i => kernAddr s.vm.mem s.userPml4 (user + UInt64.ofNat i))
        (fun i => kern + UInt64.ofNat i)
        (userRoom (fun a => (writablePage s.userPml4 s.vm.mem a).isSome) user len) s.vm.mem) := by
  unfold userRoom
  by_cases hvalid : InUserHalf user len
  · obtain ⟨j, hj, heq, hsome, hnone⟩ := copyToUser_eq h hvalid
    rw [heq, if_pos ((isValidUserPtr_iff user len).mpr hvalid),
      length_takeWhile_range hj hsome fun hlt => by rw [hnone hlt]; rfl]
  · have hinvalid : ¬isValidUserPtr user len = true := mt (isValidUserPtr_iff user len).mp hvalid
    unfold copyToUser
    rw [if_pos (by simpa using hinvalid), if_neg hinvalid]
    rfl

/-- What a copy from the process has done: its return value and the memory after it. -/
structure CopiesFrom (s : Machine) (kern user len : UInt64) (r : Int64 × Machine) : Prop where
  frame : r.2 = s.withMem r.2.vm.mem
  confined : ∀ x, (∀ i < len.toNat, x ≠ kern + UInt64.ofNat i) → r.2.vm.mem x = s.vm.mem x
  refused : ¬ReadableRange s.vm.mem s.userPml4 user len → r.1 = -1
  returned : ReadableRange s.vm.mem s.userPml4 user len → r.1 = len.toInt64 ∧ 0 ≤ r.1.toInt
  copied : ReadableRange s.vm.mem s.userPml4 user len → ∀ i < len.toNat,
    r.2.vm.mem (kern + UInt64.ofNat i) = s.vm.mem (kernAddr s.vm.mem s.userPml4 (user + UInt64.ofNat i))

/-- What a copy to the process has done.  Where pages of the range have the same frame, the last byte that
goes to an address stays there. -/
structure CopiesTo (s : Machine) (user kern len : UInt64) (r : Int64 × Machine) : Prop where
  frame : r.2 = s.withMem r.2.vm.mem
  confined : ∀ x, (∀ i < len.toNat, Mapped s.vm.mem s.userPml4 (user + UInt64.ofNat i) →
    Writable s.vm.mem s.userPml4 (user + UInt64.ofNat i) →
    x ≠ kernAddr s.vm.mem s.userPml4 (user + UInt64.ofNat i)) → r.2.vm.mem x = s.vm.mem x
  refused : ¬WritableRange s.vm.mem s.userPml4 user len → r.1 = -1
  returned : WritableRange s.vm.mem s.userPml4 user len → r.1 = len.toInt64 ∧ 0 ≤ r.1.toInt
  copied : WritableRange s.vm.mem s.userPml4 user len → ∀ i < len.toNat,
    (∀ j < len.toNat, i < j → kernAddr s.vm.mem s.userPml4 (user + UInt64.ofNat i) ≠
      kernAddr s.vm.mem s.userPml4 (user + UInt64.ofNat j)) →
    r.2.vm.mem (kernAddr s.vm.mem s.userPml4 (user + UInt64.ofNat i)) = s.vm.mem (kern + UInt64.ofNat i)

/-- **`copy_from_user`.** -/
theorem copyFromUser_spec (h : Apart s.vm.mem s.userPml4 user kern len.toNat) :
    CopiesFrom s kern user len (copyFromUser s kern user len) := by
  by_cases hvalid : InUserHalf user len
  · obtain ⟨j, hj, heq, hsome, hnone⟩ := copyFromUser_eq h hvalid
    have hlen := hvalid.2
    have hall : ReadableRange s.vm.mem s.userPml4 user len → j = len.toNat := by
      intro hrange
      by_contra hne
      have hstop := isSome_readablePage.mpr (hrange.mapped j (by omega))
      rw [hnone (by omega)] at hstop
      exact Bool.false_ne_true hstop
    rw [heq]
    constructor
    · rfl
    · intro x hx
      exact Mem.transfer_of_ne (fun i hi => hx i (by omega)) _
    · intro hrange
      refine if_neg fun hend => hrange ⟨hvalid, fun i hi => isSome_readablePage.mp (hsome i (by omega))⟩
    · intro hrange
      dsimp only
      rw [if_pos (hall hrange), toInt_toInt64 (by omega)]
      exact ⟨rfl, Int.natCast_nonneg _⟩
    · intro hrange i hi
      rw [hall hrange]
      refine Mem.transfer_apply_of_inj ?_ ?_ hi s.vm.mem
      · intro i hi k hk
        exact h.bytes i hi k hk (hrange.mapped i hi).1
      · intro i hi k hk hik
        have hofNat := (UInt64.add_right_inj kern).mp hik
        have hnat := congrArg UInt64.toNat hofNat
        rwa [UInt64.toNat_ofNat', UInt64.toNat_ofNat', Nat.mod_eq_of_lt (by omega),
          Nat.mod_eq_of_lt (by omega)] at hnat
  · have heq : copyFromUser s kern user len = (-1, s) := by
      unfold copyFromUser
      rw [if_pos (by simpa using (isValidUserPtr_iff user len).not.mpr hvalid)]
    rw [heq]
    exact ⟨rfl, fun _ _ => rfl, fun _ => rfl, fun hrange => absurd hrange.inside hvalid,
      fun hrange => absurd hrange.inside hvalid⟩

/-- **`copy_to_user`.** -/
theorem copyToUser_spec (h : Apart s.vm.mem s.userPml4 user kern len.toNat) :
    CopiesTo s user kern len (copyToUser s user kern len) := by
  by_cases hvalid : InUserHalf user len
  · obtain ⟨j, hj, heq, hsome, hnone⟩ := copyToUser_eq h hvalid
    have hlen := hvalid.2
    have hall : WritableRange s.vm.mem s.userPml4 user len → j = len.toNat := by
      intro hrange
      by_contra hne
      have hstop := isSome_writablePage.mpr ⟨hrange.mapped j (by omega), hrange.writable j (by omega)⟩
      rw [hnone (by omega)] at hstop
      exact Bool.false_ne_true hstop
    rw [heq]
    constructor
    · rfl
    · intro x hx
      refine Mem.transfer_of_ne (fun i hi => ?_) _
      obtain ⟨⟨hmapped, -⟩, hwrite⟩ := isSome_writablePage.mp (hsome i hi)
      exact hx i (by omega) hmapped hwrite
    · intro hrange
      refine if_neg fun hend => hrange ⟨⟨hvalid, ?_⟩, ?_⟩
      · exact fun i hi => (isSome_writablePage.mp (hsome i (by omega))).1
      · exact fun i hi => (isSome_writablePage.mp (hsome i (by omega))).2
    · intro hrange
      dsimp only
      rw [if_pos (hall hrange), toInt_toInt64 (by omega)]
      exact ⟨rfl, Int.natCast_nonneg _⟩
    · intro hrange i hi hlast
      rw [hall hrange]
      refine Mem.transfer_apply ?_ hi hlast s.vm.mem
      intro i hi k hk heq
      exact h.bytes k hk i hi (hrange.mapped k hk).1 heq.symm
  · have heq : copyToUser s user kern len = (-1, s) := by
      unfold copyToUser
      rw [if_pos (by simpa using (isValidUserPtr_iff user len).not.mpr hvalid)]
    rw [heq]
    exact ⟨rfl, fun _ _ => rfl, fun _ => rfl, fun hrange => absurd hrange.inside hvalid,
      fun hrange => absurd hrange.inside hvalid⟩

end Copies

/-- **User copies are exact and confined**, as long as the source, the destination and the page tables are in
different memory. -/
theorem copies_exact (s : Machine) (kern user len : UInt64)
    (h : Apart s.vm.mem s.userPml4 user kern len.toNat) :
    CopiesFrom s kern user len (copyFromUser s kern user len) ∧
      CopiesTo s user kern len (copyToUser s user kern len) :=
  ⟨copyFromUser_spec h, copyToUser_spec h⟩

theorem onWalk_iff {m : Mem} {root v x a b c : UInt64} (ha : follow m root (pml4Index v) = some a)
    (hb : follow m a (pdpIndex v) = some b) (hc : follow m b (pdIndex v) = some c) :
    OnWalk m root v x ↔ InBlock (entryAddr root (pml4Index v)) 8 x ∨ InBlock (entryAddr a (pdpIndex v)) 8 x ∨
      InBlock (entryAddr b (pdIndex v)) 8 x ∨ InBlock (entryAddr c (ptIndex v)) 8 x := by
  constructor
  · intro h
    cases h with
    | pml4 h => exact .inl h
    | pdp ha' h =>
      rw [ha] at ha'
      obtain rfl := Option.some.inj ha'
      exact .inr (.inl h)
    | pd ha' hb' h =>
      rw [ha] at ha'
      obtain rfl := Option.some.inj ha'
      rw [hb] at hb'
      obtain rfl := Option.some.inj hb'
      exact .inr (.inr (.inl h))
    | pt ha' hb' hc' h =>
      rw [ha] at ha'
      obtain rfl := Option.some.inj ha'
      rw [hb] at hb'
      obtain rfl := Option.some.inj hb'
      rw [hc] at hc'
      obtain rfl := Option.some.inj hc'
      exact .inr (.inr (.inr h))
  · rintro (h | h | h | h)
    · exact .pml4 h
    · exact .pdp ha h
    · exact .pd ha hb h
    · exact .pt ha hb hc h

/-- A process with two pages at `0x400000`, which have the frames `frame` and `0x6000`. -/
def twoPages (frame : UInt64) : Machine where
  procs := { Procs.zero with table := fun _ => { Pcb.zero with userPml4 := 0x1000 } }
  vm := ⟨((((Mem.write64 (fun _ => 0) (entryAddr 0x1000 0) 0x2007).write64 (entryAddr 0x2000 0)
    0x3007).write64 (entryAddr 0x3000 2) 0x4007).write64 (entryAddr 0x4000 0) (frame ||| 7)).write64
      (entryAddr 0x4000 1) 0x6007, []⟩

theorem apart_twoPages {frame : UInt64} (hframe : frame = 0 ∨ frame = 0x5000) :
    Apart (twoPages frame).vm.mem (twoPages frame).userPml4 0x400000 0xFFFFFFFF90000000 1 := by
  have hwalk : ∀ x, OnWalk (twoPages frame).vm.mem (twoPages frame).userPml4
      (0x400000 + UInt64.ofNat 0) x ↔ _ :=
    fun x => onWalk_iff (a := 0x2000) (b := 0x3000) (c := 0x4000)
      (by rcases hframe with rfl | rfl <;> decide +kernel)
      (by rcases hframe with rfl | rfl <;> decide +kernel)
      (by rcases hframe with rfl | rfl <;> decide +kernel)
  refine ⟨?_, ?_, ?_⟩
  · intro i hi j hj _
    obtain rfl : i = 0 := by omega
    obtain rfl : j = 0 := by omega
    rcases hframe with rfl | rfl <;> decide +kernel
  · intro i hi j hj
    obtain rfl : i = 0 := by omega
    obtain rfl : j = 0 := by omega
    rw [hwalk]
    rcases hframe with rfl | rfl <;> decide +kernel
  · intro i hi j hj _
    obtain rfl : i = 0 := by omega
    obtain rfl : j = 0 := by omega
    rw [hwalk]
    rcases hframe with rfl | rfl <;> decide +kernel

/-- Two bytes of the first page and one of the second, which have the frames `0x5000` and `0x6000`. -/
theorem apart_boundary :
    Apart (twoPages 0x5000).vm.mem (twoPages 0x5000).userPml4 0x400FFE 0xFFFFFFFF90000000 3 := by
  have hpdp : ∀ i < 3, follow (twoPages 0x5000).vm.mem (twoPages 0x5000).userPml4
      (pml4Index (0x400FFE + UInt64.ofNat i)) = some 0x2000 := by decide +kernel
  have hpd : ∀ i < 3, follow (twoPages 0x5000).vm.mem 0x2000
      (pdpIndex (0x400FFE + UInt64.ofNat i)) = some 0x3000 := by decide +kernel
  have hpt : ∀ i < 3, follow (twoPages 0x5000).vm.mem 0x3000
      (pdIndex (0x400FFE + UInt64.ofNat i)) = some 0x4000 := by decide +kernel
  refine ⟨?_, ?_, ?_⟩
  · rintro i hi j hj -
    revert i j
    decide +kernel
  · intro i hi j hj
    rw [onWalk_iff (hpdp i hi) (hpd i hi) (hpt i hi)]
    revert i j
    decide +kernel
  · rintro i hi j hj -
    rw [onWalk_iff (hpdp i hi) (hpd i hi) (hpt i hi)]
    revert i j
    decide +kernel

/-- Three bytes over the boundary of the pages. -/
theorem copies_exact_twoPages :
    CopiesFrom (twoPages 0x5000) 0xFFFFFFFF90000000 0x400FFE 3
        (copyFromUser (twoPages 0x5000) 0xFFFFFFFF90000000 0x400FFE 3) ∧
      CopiesTo (twoPages 0x5000) 0x400FFE 0xFFFFFFFF90000000 3
        (copyToUser (twoPages 0x5000) 0x400FFE 0xFFFFFFFF90000000 3) :=
  copies_exact (twoPages 0x5000) 0xFFFFFFFF90000000 0x400FFE 3 apart_boundary

/-- **A page with the frame 0** is mapped and writable, and neither copy gets at its first byte.  **A copy
over an entry of the page tables** stops at a page that was mapped when it began. -/
theorem not_copies_exact_twoPages :
    (Apart (twoPages 0).vm.mem (twoPages 0).userPml4 0x400000 0xFFFFFFFF90000000 1 ∧
      InUserHalf 0x400000 1 ∧ Mapped (twoPages 0).vm.mem (twoPages 0).userPml4 0x400000 ∧
      Writable (twoPages 0).vm.mem (twoPages 0).userPml4 0x400000 ∧
      (copyFromUser (twoPages 0) 0xFFFFFFFF90000000 0x400000 1).1 = -1 ∧
      (copyToUser (twoPages 0) 0x400000 0xFFFFFFFF90000000 1).1 = -1) ∧
    InUserHalf 0x400FFF 2 ∧ Mapped (twoPages 0x5000).vm.mem (twoPages 0x5000).userPml4 0x400FFF ∧
      Mapped (twoPages 0x5000).vm.mem (twoPages 0x5000).userPml4 0x401000 ∧
      (∀ i ∈ List.range 2, ∀ j ∈ List.range 2,
        kernAddr (twoPages 0x5000).vm.mem (twoPages 0x5000).userPml4 (0x400FFF + UInt64.ofNat i) ≠
          entryAddr 0x4000 1 + UInt64.ofNat j) ∧
      (copyFromUser (twoPages 0x5000) (entryAddr 0x4000 1) 0x400FFF 2).1 = -1 := by
  refine ⟨⟨apart_twoPages (.inl rfl), ⟨by decide, by decide⟩, ?_, ?_, ?_, ?_⟩, ⟨by decide, by decide⟩,
    ?_, ?_, ?_, ?_⟩
  · show getUserPte _ _ _ &&& ptePresent ≠ 0
    decide +kernel
  · show getUserPte _ _ _ &&& pteWrite ≠ 0
    decide +kernel
  · decide +kernel
  · decide +kernel
  · show getUserPte _ _ _ &&& ptePresent ≠ 0
    decide +kernel
  · show getUserPte _ _ _ &&& ptePresent ≠ 0
    decide +kernel
  · decide +kernel
  · decide +kernel

end Keuos.Syscall
