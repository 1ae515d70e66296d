import Keuos.Paging.Equiv.Supply
import Keuos.Paging.Equiv.Teardown
import Keuos.Syscall.Equiv.Agreement
import Keuos.Syscall.Spaces
import Mathlib.Data.Bool.AllAny

/-!
# Who frees a shared page

`destroy_user_pml4` frees the pages of an address space, except those that are marked with `PTE_SHARED`.
This is sound as long as a page that two address spaces map is marked in both, which `sys_shm_grant` sees
to.  `ring_shm_grant` marks neither side: the first of the two address spaces that is destroyed frees the
page that the other one still maps, and the second frees it again.

## Main results

* `framesOwned_of_careful`: in every run in which no grant is made through the ring, no page is freed that
  an address space maps, and no page is freed twice.
* `not_framesOwned_ringGrant`: a page is granted through the ring and freed under the other address space.
-/

namespace Keuos.Syscall

open Process Paging Ledger
open Spawn (createUserPml4 copyKernelHalf)

/-- No page is freed twice, and no page that an address space maps was freed. -/
structure FramesOwned (s : Spaces) : Prop where
  once : ∀ x, frees x s.log ≤ 1
  mapped : ∀ r ∈ s.live, ∀ v, v < userAddrLimit → getUserPte s.mem r v &&& ptePresent ≠ 0 →
    frees (getUserPte s.mem r v &&& addrMask) s.log = 0

/-! ### The ledger of the address spaces -/

/-- The page belongs to an address space. -/
def InSpace (log : List (Entry Holder UInt64)) (x : UInt64) : Prop :=
  owner x log = some .space ∧ frees x log = 0

/-- What `pmm.alloc` promises: different pages that do not belong to an address space. -/
structure Stock (log : List (Entry Holder UInt64)) (answers : List UInt64) : Prop where
  nodup : (answers.filter (· != 0)).Nodup
  page : ∀ a ∈ answers, a ≠ 0 → PageAligned a ∧ a.toNat < 2 ^ 52 ∧ ¬ InSpace log a

section Stock

variable {log : List (Entry Holder UInt64)} {x : UInt64} {xs answers taken rest : List UInt64}

theorem inSpace_handAll_of_mem (hx : x ∈ xs) : InSpace (handAll .space xs log) x :=
  ⟨owner_handAll_of_mem _ _ hx, frees_handAll_of_mem _ _ hx⟩

theorem inSpace_handAll_of_not_mem {o : Holder} (hx : x ∉ xs) :
    InSpace (handAll o xs log) x ↔ InSpace log x := by
  unfold InSpace
  rw [owner_handAll_of_not_mem _ _ hx, frees_handAll_of_not_mem _ _ hx]

theorem InSpace.handAll (h : InSpace log x) (xs : List UInt64) :
    InSpace (handAll .space xs log) x := by
  by_cases hx : x ∈ xs
  · exact inSpace_handAll_of_mem hx
  · exact (inSpace_handAll_of_not_mem hx).mpr h

theorem frees_handAll_le (o : Holder) (x : UInt64) (xs : List UInt64)
    (log : List (Entry Holder UInt64)) : frees x (Ledger.handAll o xs log) ≤ frees x log := by
  by_cases hx : x ∈ xs
  · rw [frees_handAll_of_mem _ _ hx]
    exact Nat.zero_le _
  · rw [frees_handAll_of_not_mem _ _ hx]

theorem Stock.remaining (h : Stock log (taken ++ rest)) :
    Stock (handAll .space (taken.filter (· != 0)) log) rest := by
  obtain ⟨hnodup, hpage⟩ := h
  rw [List.filter_append, List.nodup_append] at hnodup
  obtain ⟨-, hrest, hdisjoint⟩ := hnodup
  refine ⟨hrest, ?_⟩
  intro a ha hne
  obtain ⟨haligned, hsmall, hfree⟩ := hpage a (List.mem_append_right _ ha) hne
  refine ⟨haligned, hsmall, ?_⟩
  rw [inSpace_handAll_of_not_mem]
  · exact hfree
  · intro hmem
    exact hdisjoint a hmem a (List.mem_filter.mpr ⟨ha, bne_iff_ne.mpr hne⟩) rfl

end Stock

/-! ### The invariant -/

/-- The page tables `roots` are disjoint trees whose tables and pages belong to address spaces, and a
page that is mapped twice is marked in both places. -/
structure Owned (roots : Set UInt64) (m : Mem) (log : List (Entry Holder UInt64)) : Prop where
  tables : Tables roots m
  ofTable : ∀ r ∈ roots, ∀ q, UserPath q → ∀ x, table m r q = some x → InSpace log x
  ofPage : ∀ r ∈ roots, ∀ v, v < userAddrLimit → leaf m r v &&& ptePresent ≠ 0 →
    InSpace log (leaf m r v &&& addrMask)
  apart : ∀ r ∈ roots, ∀ v, v < userAddrLimit → leaf m r v &&& ptePresent ≠ 0 →
    ∀ r' ∈ roots, ∀ q, UserPath q → table m r' q ≠ some (leaf m r v &&& addrMask)
  marked : ∀ r ∈ roots, ∀ v, v < userAddrLimit → leaf m r v &&& ptePresent ≠ 0 →
    ∀ r' ∈ roots, ∀ v', v' < userAddrLimit → leaf m r' v' &&& ptePresent ≠ 0 →
      leaf m r v &&& addrMask = leaf m r' v' &&& addrMask → ¬ (r = r' ∧ v >>> 12 = v' >>> 12) →
        leaf m r v &&& pteSharedBit ≠ 0
  once : ∀ x, frees x log ≤ 1

section Owned

variable {roots : Set UInt64} {m : Mem} {log : List (Entry Holder UInt64)} {answers : List UInt64}

theorem Owned.hand (h : Owned roots m log) (xs : List UInt64) :
    Owned roots m (handAll .space xs log) where
  tables := h.tables
  ofTable := fun r hr q hq x hx => (h.ofTable r hr q hq x hx).handAll xs
  ofPage := fun r hr v hv hpresent => (h.ofPage r hr v hv hpresent).handAll xs
  apart := h.apart
  marked := h.marked
  once := fun x => (frees_handAll_le ..).trans (h.once x)

theorem Owned.supply (h : Owned roots m log) (hstock : Stock log answers) :
    Supply roots m answers := by
  refine ⟨hstock.nodup, ?_⟩
  intro a ha
  obtain ⟨hmem, hne⟩ := List.mem_filter.mp ha
  obtain ⟨haligned, hsmall, hfree⟩ := hstock.page a hmem (bne_iff_ne.mp hne)
  refine ⟨bne_iff_ne.mp hne, haligned, hsmall, ?_⟩
  intro r hr q hq hx
  exact hfree (h.ofTable r hr q hq a hx)

/-- A call has led to `vm`: it took some of the answers, and the invariant holds. -/
def Keeps (roots : Set UInt64) (log : List (Entry Holder UInt64)) (answers : List UInt64) (vm : Vm) :
    Prop :=
  ∃ taken, answers = taken ++ vm.answers ∧
    Owned roots vm.mem (handAll .space (taken.filter (· != 0)) log)

theorem Owned.keeps (h : Owned roots m log) (answers : List UInt64) : Keeps roots log answers ⟨m, answers⟩ :=
  ⟨[], rfl, h⟩

theorem Keeps.append {taken rest : List UInt64} {vm : Vm}
    (h : Keeps roots (handAll .space (taken.filter (· != 0)) log) rest vm) :
    Keeps roots log (taken ++ rest) vm := by
  obtain ⟨taken', rfl, h⟩ := h
  refine ⟨taken ++ taken', (List.append_assoc ..).symm, ?_⟩
  rw [List.filter_append, handAll_append]
  exact h

/-- A page that may be mapped at another address: it belongs to an address space and is no table, and
where else it is mapped it is marked, as the new entry is. -/
structure MayMap (roots : Set UInt64) (m : Mem) (log : List (Entry Holder UInt64))
    (root vaddr frame flags : UInt64) : Prop where
  addr : (frame ||| flags) &&& addrMask = frame
  inSpace : InSpace log frame
  notTable : ∀ r ∈ roots, ∀ q, UserPath q → table m r q ≠ some frame
  marked : ∀ r ∈ roots, ∀ v, v < userAddrLimit → leaf m r v &&& ptePresent ≠ 0 →
    leaf m r v &&& addrMask = frame → ¬ (r = root ∧ v >>> 12 = vaddr >>> 12) →
      leaf m r v &&& pteSharedBit ≠ 0 ∧ (frame ||| flags) &&& pteSharedBit ≠ 0

variable {m' : Mem} {root vaddr frame flags : UInt64} {taken rest : List UInt64}

theorem table_tried (hstock : Stock log (taken ++ rest))
    (htried : PageTried roots m m' root vaddr (frame ||| flags) taken) {r x : UInt64} (hr : r ∈ roots)
    {q : List UInt64} (hq : UserPath q) (hx : table m' r q = some x) :
    table m r q = some x ∨ (x ∈ taken.filter (· != 0) ∧ ¬ InSpace log x) := by
  rcases htried.adds r hr q hq x hx with hold | ⟨htaken, hne⟩
  · exact .inl hold
  · exact .inr ⟨List.mem_filter.mpr ⟨htaken, bne_iff_ne.mpr hne⟩,
      (hstock.page x (List.mem_append_left _ htaken) hne).2.2⟩

theorem not_table_tried (hstock : Stock log (taken ++ rest))
    (htried : PageTried roots m m' root vaddr (frame ||| flags) taken) {x : UInt64}
    (hx : InSpace log x) (hnot : ∀ r ∈ roots, ∀ q, UserPath q → table m r q ≠ some x) :
    ∀ r ∈ roots, ∀ q, UserPath q → table m' r q ≠ some x := by
  intro r hr q hq htable
  rcases table_tried hstock htried hr hq htable with hold | ⟨-, hfree⟩
  · exact hnot r hr q hq hold
  · exact hfree hx

/-- **Mapping a page** keeps the invariant. -/
theorem Owned.of_tried (h : Owned roots m log) (hstock : Stock log (taken ++ rest))
    (hpage : MayMap roots m log root vaddr frame flags)
    (htried : PageTried roots m m' root vaddr (frame ||| flags) taken) :
    Owned roots m' (handAll .space (taken.filter (· != 0)) log) := by
  -- a table is one of the old ones or a page that was taken now
  have hofTable : ∀ r ∈ roots, ∀ q, UserPath q → ∀ x, table m' r q = some x →
      InSpace (handAll .space (taken.filter (· != 0)) log) x := by
    intro r hr q hq x hx
    rcases table_tried hstock htried hr hq hx with hold | ⟨htaken, -⟩
    · exact (h.ofTable r hr q hq x hold).handAll _
    · exact inSpace_handAll_of_mem htaken
  have honce : ∀ x, frees x (handAll Holder.space (taken.filter (· != 0)) log) ≤ 1 := fun x =>
    (frees_handAll_le ..).trans (h.once x)
  rcases htried.leaves with hset | ⟨-, hsame⟩
  · -- a leaf entry of `m'` is the new one, or an old one elsewhere
    have hcases : ∀ r ∈ roots, ∀ v, v < userAddrLimit →
        (leaf m' r v = frame ||| flags ∧ r = root ∧ v >>> 12 = vaddr >>> 12) ∨
          (leaf m' r v = leaf m r v ∧ ¬ (r = root ∧ v >>> 12 = vaddr >>> 12)) := by
      intro r hr v hv
      rw [hset r hr v hv]
      by_cases hat : r = root ∧ v >>> 12 = vaddr >>> 12
      · exact .inl ⟨if_pos hat, hat⟩
      · exact .inr ⟨if_neg hat, hat⟩
    refine ⟨htried.tables, hofTable, ?_, ?_, ?_, honce⟩
    · intro r hr v hv hpresent
      rcases hcases r hr v hv with ⟨hnew, -⟩ | ⟨hold, -⟩
      · rw [hnew, hpage.addr]
        exact hpage.inSpace.handAll _
      · rw [hold] at hpresent ⊢
        exact (h.ofPage r hr v hv hpresent).handAll _
    · intro r hr v hv hpresent
      rcases hcases r hr v hv with ⟨hnew, -⟩ | ⟨hold, -⟩
      · rw [hnew, hpage.addr]
        exact not_table_tried hstock htried hpage.inSpace hpage.notTable
      · rw [hold] at hpresent ⊢
        exact not_table_tried hstock htried (h.ofPage r hr v hv hpresent) (h.apart r hr v hv hpresent)
    · intro r hr v hv hpresent r' hr' v' hv' hpresent' hframe hne
      rcases hcases r hr v hv with ⟨hnew, hat⟩ | ⟨hold, hat⟩
      · rcases hcases r' hr' v' hv' with ⟨-, hat'⟩ | ⟨hold', hat'⟩
        · exact absurd ⟨hat.1.trans hat'.1.symm, hat.2.trans hat'.2.symm⟩ hne
        · rw [hold'] at hpresent' hframe
          rw [hnew, hpage.addr] at hframe
          rw [hnew]
          exact (hpage.marked r' hr' v' hv' hpresent' hframe.symm hat').2
      · rw [hold] at hpresent hframe ⊢
        rcases hcases r' hr' v' hv' with ⟨hnew', -⟩ | ⟨hold', -⟩
        · rw [hnew', hpage.addr] at hframe
          exact (hpage.marked r hr v hv hpresent hframe hat).1
        · rw [hold'] at hpresent' hframe
          exact h.marked r hr v hv hpresent r' hr' v' hv' hpresent' hframe hne
  · refine ⟨htried.tables, hofTable, ?_, ?_, ?_, honce⟩
    · intro r hr v hv hpresent
      rw [hsame r hr v hv] at hpresent ⊢
      exact (h.ofPage r hr v hv hpresent).handAll _
    · intro r hr v hv hpresent
      rw [hsame r hr v hv] at hpresent ⊢
      exact not_table_tried hstock htried (h.ofPage r hr v hv hpresent) (h.apart r hr v hv hpresent)
    · intro r hr v hv hpresent r' hr' v' hv' hpresent' hframe hne
      rw [hsame r hr v hv] at hpresent hframe ⊢
      rw [hsame r' hr' v' hv'] at hpresent' hframe
      exact h.marked r hr v hv hpresent r' hr' v' hv' hpresent' hframe hne

/-- **`map_user_page`** keeps the invariant. -/
theorem Owned.mapUserPage (h : Owned roots m log) (hroot : root ∈ roots)
    (hstock : Stock log answers) (hpage : MayMap roots m log root vaddr frame flags) :
    ∃ m' taken rest, mapUserPage ⟨m, answers⟩ root vaddr frame flags = ⟨m', rest⟩ ∧
      answers = taken ++ rest ∧ Owned roots m' (handAll .space (taken.filter (· != 0)) log) ∧
      (vaddr < userAddrLimit → PageTried roots m m' root vaddr (frame ||| flags) taken) ∧
      (ForUser m root vaddr flags → UserEntries roots m → UserEntries roots m') := by
  by_cases hvaddr : vaddr < userAddrLimit
  · obtain ⟨m', taken, rest, hmap, rfl, htried⟩ :=
      mapUserPage_tried h.tables hroot hvaddr (h.supply hstock) frame flags
    refine ⟨m', taken, rest, hmap, rfl, h.of_tried hstock hpage htried, fun _ => htried, ?_⟩
    intro hflags hu
    have hkept := hu.mapUserPage h.tables hroot (h.supply hstock) hflags frame
    rwa [hmap] at hkept
  · refine ⟨m, [], answers, ?_, rfl, h, fun hlt => absurd hlt hvaddr, fun _ hu => hu⟩
    unfold Paging.mapUserPage
    rw [if_pos (UInt64.not_lt.mp hvaddr)]

theorem Owned.of_fewer (h : Owned roots m log) (htables : Tables roots m')
    (hsame : ∀ r ∈ roots, ∀ q, UserPath q → table m' r q = table m r q)
    (hold : ∀ r ∈ roots, ∀ v, v < userAddrLimit → leaf m' r v &&& ptePresent ≠ 0 →
      leaf m' r v = leaf m r v) : Owned roots m' log := by
  refine ⟨htables, ?_, ?_, ?_, ?_, h.once⟩
  · intro r hr q hq x hx
    rw [hsame r hr q hq] at hx
    exact h.ofTable r hr q hq x hx
  · intro r hr v hv hlive
    have heq := hold r hr v hv hlive
    rw [heq] at hlive ⊢
    exact h.ofPage r hr v hv hlive
  · intro r hr v hv hlive r' hr' q hq
    have heq := hold r hr v hv hlive
    rw [heq] at hlive ⊢
    rw [hsame r' hr' q hq]
    exact h.apart r hr v hv hlive r' hr' q hq
  · intro r hr v hv hlive r' hr' v' hv' hlive' hframe hne
    have heq := hold r hr v hv hlive
    have heq' := hold r' hr' v' hv' hlive'
    rw [heq] at hlive hframe ⊢
    rw [heq'] at hlive' hframe
    exact h.marked r hr v hv hlive r' hr' v' hv' hlive' hframe hne

/-- **`unmap_user_page`** keeps the invariant. -/
theorem Owned.unmapUserPage (h : Owned roots m log) (hroot : root ∈ roots)
    (hvaddr : vaddr < userAddrLimit) : Owned roots (unmapUserPage m root vaddr).2 log := by
  by_cases hpresent : leaf m root vaddr &&& ptePresent = 0
  · rw [unmapUserPage_of_absent hpresent]
    exact h
  · obtain ⟨pt, hpt⟩ := exists_table_of_present hpresent
    obtain ⟨htables, hsame, hleaves⟩ := h.tables.storeLeaf hvaddr hpt
      (h.tables.storesEntry_write hroot (userPath_path hvaddr) hpt (ptIndex_lt vaddr) (e := 0))
    rw [leaf_of_table hpt] at hpresent
    rw [unmapUserPage_of_present hpt rfl hpresent]
    refine h.of_fewer htables hsame ?_
    intro r hr v hv hlive
    rw [hleaves r hr v hv] at hlive ⊢
    split at hlive
    · exact absurd UInt64.zero_and hlive
    · next hat => exact if_neg hat

theorem Owned.of_sameEntries (h : Owned roots m log) (hsame : SameEntries roots m m') :
    Owned roots m' log :=
  h.of_fewer (hsame.tables h.tables) (fun _ hr _ hq => hsame.table hr hq)
    fun _ hr _ hv _ => hsame.leaf hr hv

theorem Owned.handOther (h : Owned roots m log) {xs : List UInt64} (hxs : ∀ x ∈ xs, ¬ InSpace log x) :
    Owned roots m (handAll .other xs log) := by
  have hkeep : ∀ {x}, InSpace log x → InSpace (handAll .other xs log) x := by
    intro x hx
    exact (inSpace_handAll_of_not_mem fun hmem => hxs x hmem hx).mpr hx
  exact ⟨h.tables, fun r hr q hq x hx => hkeep (h.ofTable r hr q hq x hx),
    fun r hr v hv hpresent => hkeep (h.ofPage r hr v hv hpresent), h.apart, h.marked,
    fun x => (frees_handAll_le ..).trans (h.once x)⟩

/-! ### Grants -/

theorem Owned.mayMap_source (h : Owned roots m log) (hroot : root ∈ roots)
    (hvaddr : vaddr < userAddrLimit) (hpresent : leaf m root vaddr &&& ptePresent ≠ 0)
    (haddr : (leaf m root vaddr &&& addrMask ||| flags) &&& addrMask = leaf m root vaddr &&& addrMask)
    (hmark : (leaf m root vaddr &&& addrMask ||| flags) &&& pteSharedBit ≠ 0) :
    MayMap roots m log root vaddr (leaf m root vaddr &&& addrMask) flags where
  addr := haddr
  inSpace := h.ofPage root hroot vaddr hvaddr hpresent
  notTable := h.apart root hroot vaddr hvaddr hpresent
  marked := fun r hr v hv hlive hframe hne =>
    ⟨h.marked r hr v hv hlive root hroot vaddr hvaddr hpresent hframe hne, hmark⟩

theorem Owned.mayMap_marked (h : Owned roots m log) {r₀ v₀ : UInt64} (hr₀ : r₀ ∈ roots)
    (hv₀ : v₀ < userAddrLimit) (hpresent : leaf m r₀ v₀ &&& ptePresent ≠ 0)
    (hmarked : leaf m r₀ v₀ &&& pteSharedBit ≠ 0)
    (haddr : (leaf m r₀ v₀ &&& addrMask ||| flags) &&& addrMask = leaf m r₀ v₀ &&& addrMask)
    (hmark : (leaf m r₀ v₀ &&& addrMask ||| flags) &&& pteSharedBit ≠ 0) :
    MayMap roots m log root vaddr (leaf m r₀ v₀ &&& addrMask) flags where
  addr := haddr
  inSpace := h.ofPage r₀ hr₀ v₀ hv₀ hpresent
  notTable := h.apart r₀ hr₀ v₀ hv₀ hpresent
  marked := by
    intro r hr v hv hlive hframe _
    refine ⟨?_, hmark⟩
    by_cases hsame : r = r₀ ∧ v >>> 12 = v₀ >>> 12
    · rw [hsame.1, leaf_of_samePage m r₀ hsame.2]
      exact hmarked
    · exact h.marked r hr v hv hlive r₀ hr₀ v₀ hv₀ hpresent hframe hsame

/-! The bits of the entries that a grant stores. -/

theorem or_and_self (x c : UInt64) : (x ||| c) &&& c = c := by
  apply eq_of_bit_eq
  intro i
  rw [bit_and, bit_or]
  cases bit x i <;> cases bit c i <;> rfl

theorem ne_zero_of_mark (x y : UInt64) : (x ||| (y ||| pteShared)) &&& pteSharedBit ≠ 0 := by
  rw [← UInt64.or_assoc, show pteSharedBit = pteShared from rfl, or_and_self]
  decide

theorem sharedEntry_addr (e : UInt64) :
    (e &&& addrMask ||| (e &&& 0xFFF ||| pteShared)) &&& addrMask = e &&& addrMask := by
  rw [and_or_distrib, and_or_distrib, UInt64.and_assoc, UInt64.and_self, UInt64.and_assoc,
    show 0xFFF &&& addrMask = 0 from by decide, show pteShared &&& addrMask = 0 from by decide,
    UInt64.and_zero, UInt64.or_zero, UInt64.or_zero]

theorem sharedEntry_present (e : UInt64) :
    (e &&& addrMask ||| (e &&& 0xFFF ||| pteShared)) &&& ptePresent = e &&& ptePresent := by
  rw [and_or_distrib, and_or_distrib, UInt64.and_assoc, UInt64.and_assoc,
    show addrMask &&& ptePresent = 0 from by decide, show 0xFFF &&& ptePresent = ptePresent from by decide,
    show pteShared &&& ptePresent = 0 from by decide, UInt64.and_zero, UInt64.or_zero, UInt64.zero_or]

theorem targetEntry_addr (e pte : UInt64) :
    (e &&& addrMask ||| grantFlags (ptePresent ||| pteUser ||| pteShared) pte) &&& addrMask =
      e &&& addrMask := by
  have hflags : grantFlags (ptePresent ||| pteUser ||| pteShared) pte &&& addrMask = 0 := by
    unfold grantFlags
    split
    · decide
    · decide
  rw [and_or_distrib, UInt64.and_assoc, UInt64.and_self, hflags, UInt64.or_zero]

theorem targetEntry_mark (e pte : UInt64) :
    (e ||| grantFlags (ptePresent ||| pteUser ||| pteShared) pte) &&& pteSharedBit ≠ 0 := by
  unfold grantFlags
  split
  · rw [show ptePresent ||| pteUser ||| pteShared ||| pteWrite =
      ptePresent ||| pteUser ||| pteWrite ||| pteShared from by decide]
    exact ne_zero_of_mark _ _
  · exact ne_zero_of_mark _ _

theorem targetEntry_present (e pte : UInt64) :
    (e ||| grantFlags (ptePresent ||| pteUser ||| pteShared) pte) &&& ptePresent ≠ 0 := by
  refine or_and_ne_zero _ ?_
  unfold grantFlags
  split
  · decide
  · decide

/-- A page is there and marked as shared. -/
def Marked (m : Mem) (root vaddr : UInt64) : Prop :=
  leaf m root vaddr &&& ptePresent ≠ 0 ∧ leaf m root vaddr &&& pteSharedBit ≠ 0

theorem grantFlags_user (e : UInt64) :
    grantFlags (ptePresent ||| pteUser ||| pteShared) e &&& pteUser ≠ 0 := by
  unfold grantFlags
  split
  · decide
  · decide

/-- **One page of a grant** keeps the invariant: the page is marked at its own address, and then mapped
at the other. -/
theorem Owned.grantPage (h : Owned roots m log) (hstock : Stock log answers)
    {src target srcVaddr e : UInt64} (hsrc : src ∈ roots) (htarget : target ∈ roots) (dstVaddr : UInt64)
    (hsrcVaddr : srcVaddr < userAddrLimit) (he : leaf m src srcVaddr = e)
    (hpresent : e &&& ptePresent ≠ 0) :
    ∃ vm, Paging.mapUserPage (Paging.mapUserPage ⟨m, answers⟩ src srcVaddr (e &&& addrMask)
        ((e &&& 0xFFF) ||| pteShared)) target dstVaddr (e &&& addrMask)
        (grantFlags (ptePresent ||| pteUser ||| pteShared) e) = vm ∧ Keeps roots log answers vm ∧
      (UserEntries roots m → UserEntries roots vm.mem) ∧ Marked vm.mem src srcVaddr := by
  subst he
  obtain ⟨m₁, taken₁, rest₁, hmap₁, rfl, h₁, htried₁, huser₁⟩ := h.mapUserPage hsrc hstock
    (h.mayMap_source hsrc hsrcVaddr hpresent (sharedEntry_addr _) (ne_zero_of_mark _ _))
  -- the table of the source is there, so its entry is marked now
  have hentry : leaf m₁ src srcVaddr =
      leaf m src srcVaddr &&& addrMask ||| (leaf m src srcVaddr &&& 0xFFF ||| pteShared) := by
    rcases (htried₁ hsrcVaddr).leaves with hset | ⟨hzero, -⟩
    · rw [hset src hsrc srcVaddr hsrcVaddr, if_pos ⟨rfl, rfl⟩]
    · rw [hzero, UInt64.zero_and] at hpresent
      exact absurd rfl hpresent
  have hframe : leaf m₁ src srcVaddr &&& addrMask = leaf m src srcVaddr &&& addrMask := by
    rw [hentry, sharedEntry_addr]
  have hpage : MayMap roots m₁ (handAll .space (taken₁.filter (· != 0)) log) target dstVaddr
      (leaf m₁ src srcVaddr &&& addrMask)
      (grantFlags (ptePresent ||| pteUser ||| pteShared) (leaf m src srcVaddr)) :=
    h₁.mayMap_marked hsrc hsrcVaddr (by rw [hentry, sharedEntry_present]; exact hpresent)
      (by rw [hentry]; exact ne_zero_of_mark _ _) (targetEntry_addr _ _) (targetEntry_mark _ _)
  rw [hframe] at hpage
  obtain ⟨m₂, taken₂, rest₂, hmap₂, rfl, h₂, htried₂, huser₂⟩ :=
    h₁.mapUserPage htarget (Stock.remaining hstock) hpage
  refine ⟨⟨m₂, rest₂⟩, by rw [hmap₁, hmap₂], Keeps.append ⟨taken₂, rfl, h₂⟩, ?_, ?_⟩
  · intro hu
    exact huser₂ (.inl (grantFlags_user _)) (huser₁ (.inr (exists_table_of_present hpresent)) hu)
  · have hmarked : Marked m₁ src srcVaddr := by
      unfold Marked
      rw [hentry, sharedEntry_present]
      exact ⟨hpresent, ne_zero_of_mark _ _⟩
    by_cases hdst : dstVaddr < userAddrLimit
    swap
    · have hsame : m₂ = m₁ := by
        unfold Paging.mapUserPage at hmap₂
        rw [if_pos (UInt64.not_lt.mp hdst)] at hmap₂
        exact (Vm.mk.inj hmap₂).1.symm
      rw [hsame]
      exact hmarked
    rcases (htried₂ hdst).leaves with hset | ⟨-, hsame⟩
    · unfold Marked
      rw [hset src hsrc srcVaddr hsrcVaddr]
      split
      · exact ⟨targetEntry_present _ _, targetEntry_mark _ _⟩
      · exact hmarked
    · unfold Marked
      rw [hsame src hsrc srcVaddr hsrcVaddr]
      exact hmarked

theorem Owned.unmapRollbackFrom (hroot : root ∈ roots) {dstVaddr : UInt64} {stop : Nat}
    (hdst : ∀ k : UInt64, k.toNat < stop → dstVaddr + k * pageSize < userAddrLimit) :
    ∀ (n : Nat) (j : UInt64) (m : Mem), j.toNat + n ≤ stop → Owned roots m log →
      Owned roots (unmapRollbackFrom root dstVaddr n j m) log ∧
        (UserEntries roots m → UserEntries roots (unmapRollbackFrom root dstVaddr n j m)) := by
  intro n
  induction n with
  | zero =>
    intro j m _ h
    unfold Syscall.unmapRollbackFrom
    exact ⟨h, fun hu => hu⟩
  | succ n ih =>
    intro j m hj h
    have hnext : (j + 1).toNat + n ≤ stop := by
      rw [UInt64.toNat_add, show (1 : UInt64).toNat = 1 from rfl]
      omega
    have hj' := hdst j (by omega)
    obtain ⟨hrest, huser⟩ := ih (j + 1) _ hnext (h.unmapUserPage hroot hj')
    unfold Syscall.unmapRollbackFrom
    exact ⟨hrest, fun hu => huser (hu.unmapUserPage h.tables hroot hj')⟩

theorem Owned.unmapRollback (h : Owned roots m log) (hroot : root ∈ roots) {dstVaddr count : UInt64}
    {stop : Nat} (hdst : ∀ k : UInt64, k.toNat < stop → dstVaddr + k * pageSize < userAddrLimit)
    (hcount : count.toNat ≤ stop) : Owned roots (unmapRollback m root dstVaddr count) log ∧
      (UserEntries roots m → UserEntries roots (unmapRollback m root dstVaddr count)) := by
  unfold Syscall.unmapRollback
  exact Owned.unmapRollbackFrom hroot hdst count.toNat 0 m (by simpa using hcount) h

/-- **The pages of a grant**, one after the other. -/
theorem Owned.mapShmPagesFrom {src target srcVaddr dstVaddr : UInt64} (hsrc : src ∈ roots)
    (htarget : target ∈ roots) {stop : Nat}
    (hsrcVaddr : ∀ k : UInt64, k.toNat < stop → srcVaddr + k * pageSize < userAddrLimit)
    (hdstVaddr : ∀ k : UInt64, k.toNat < stop → dstVaddr + k * pageSize < userAddrLimit) :
    ∀ (n : Nat) (i : UInt64) (m : Mem) (answers : List UInt64) (log : List (Entry Holder UInt64)),
      i.toNat + n ≤ stop → Owned roots m log → Stock log answers →
      ∃ ok vm, mapShmPagesFrom src target srcVaddr dstVaddr n i ⟨m, answers⟩ = (ok, vm) ∧
        Keeps roots log answers vm ∧ (UserEntries roots m → UserEntries roots vm.mem) := by
  intro n
  induction n with
  | zero =>
    intro i m answers log _ h _
    refine ⟨true, ⟨m, answers⟩, ?_, h.keeps answers, fun hu => hu⟩
    unfold Syscall.mapShmPagesFrom
    rfl
  | succ n ih =>
    intro i m answers log hi h hstock
    have hnext : (i + 1).toNat + n ≤ stop := by
      rw [UInt64.toNat_add, show (1 : UInt64).toNat = 1 from rfl]
      omega
    obtain ⟨hback, huserBack⟩ := h.unmapRollback htarget hdstVaddr (show i.toNat ≤ stop by omega)
    unfold Syscall.mapShmPagesFrom
    dsimp only
    rw [getUserPte_eq_leaf, getUserPte_eq_leaf]
    generalize he : leaf m src (srcVaddr + i * pageSize) = e
    by_cases habsent : (e &&& ptePresent == 0) = true
    · rw [if_pos habsent]
      exact ⟨false, _, rfl, hback.keeps answers, huserBack⟩
    rw [if_neg habsent]
    by_cases hthere : (leaf m target (dstVaddr + i * pageSize) &&& ptePresent != 0) = true
    · rw [if_pos hthere]
      exact ⟨false, _, rfl, hback.keeps answers, huserBack⟩
    rw [if_neg hthere]
    obtain ⟨vm₁, hmap, ⟨taken, rfl, h₁⟩, huser₁, -⟩ := h.grantPage hstock hsrc htarget _
      (hsrcVaddr i (by omega)) he (by simpa using habsent)
    rw [hmap]
    obtain ⟨ok, vm₂, hrest, h₂, huser₂⟩ := ih (i + 1) vm₁.mem vm₁.answers _ hnext h₁ hstock.remaining
    exact ⟨ok, vm₂, hrest, h₂.append, fun hu => huser₂ (huser₁ hu)⟩

theorem lt_limit_of_range {start numPages : UInt64} (hnum : numPages.toNat ≤ 16)
    (hstart : start < userAddrLimit) (hend : start + numPages * pageSize ≤ userAddrLimit) :
    ∀ k : UInt64, k.toNat < numPages.toNat → start + k * pageSize < userAddrLimit := by
  intro k hk
  have hlt := toNat_lt_of_user hstart
  rw [UInt64.le_iff_toNat_le, UInt64.toNat_add, UInt64.toNat_mul,
    show pageSize.toNat = 4096 from rfl, show userAddrLimit.toNat = 2 ^ 47 from rfl] at hend
  rw [UInt64.lt_iff_toNat_lt, UInt64.toNat_add, UInt64.toNat_mul,
    show pageSize.toNat = 4096 from rfl, show userAddrLimit.toNat = 2 ^ 47 from rfl]
  omega

theorem range_of_validate {p : Procs} {targetPid srcVaddr dstVaddr numPages : UInt64}
    (h : validateShmRequest p targetPid srcVaddr dstVaddr numPages = true) :
    (∀ k : UInt64, k.toNat < numPages.toNat → srcVaddr + k * pageSize < userAddrLimit) ∧
      ∀ k : UInt64, k.toNat < numPages.toNat → dstVaddr + k * pageSize < userAddrLimit := by
  unfold validateShmRequest at h
  dsimp only at h
  split_ifs at h with h₁ h₂ h₃ h₄ h₅ h₆ h₇
  rw [Bool.or_eq_true, not_or] at h₄ h₅ h₆
  have hnum : numPages.toNat ≤ 16 := by
    have hle := h₄.2
    rw [decide_eq_true_eq, UInt64.not_lt, UInt64.le_iff_toNat_le] at hle
    exact hle
  exact ⟨lt_limit_of_range hnum (by simpa using h₅.1) (by simpa using h₅.2),
    lt_limit_of_range hnum (by simpa using h₆.1) (by simpa using h₆.2)⟩

/-- **`sys_shm_grant`** keeps the invariant. -/
theorem Owned.sysShmGrant (h : Owned roots m log) (hstock : Stock log answers) {p : Procs}
    {targetPid : UInt64}
    (hsrc : (p.table p.currentPid).userPml4 ≠ 0 → (p.table p.currentPid).userPml4 ∈ roots)
    (htarget : (p.table targetPid).userPml4 ≠ 0 → (p.table targetPid).userPml4 ∈ roots)
    (srcVaddr dstVaddr numPages : UInt64) :
    ∃ vm, (sysShmGrant ⟨p, ⟨m, answers⟩⟩ targetPid srcVaddr dstVaddr numPages).2.vm = vm ∧
      Keeps roots log answers vm ∧ (UserEntries roots m → UserEntries roots vm.mem) := by
  unfold Syscall.sysShmGrant
  dsimp only
  by_cases hvalid : validateShmRequest p targetPid srcVaddr dstVaddr numPages = true
  swap
  · rw [if_pos (by simpa using hvalid)]
    exact ⟨_, rfl, h.keeps answers, fun hu => hu⟩
  rw [if_neg (by simpa using hvalid)]
  by_cases hzero : ((p.table p.currentPid).userPml4 == 0 || (p.table targetPid).userPml4 == 0) = true
  · rw [if_pos hzero]
    exact ⟨_, rfl, h.keeps answers, fun hu => hu⟩
  rw [if_neg hzero]
  rw [Bool.or_eq_true, not_or] at hzero
  obtain ⟨hsrcRange, hdstRange⟩ := range_of_validate hvalid
  obtain ⟨ok, vm, hgrant, hkeeps, huser⟩ :=
    Owned.mapShmPagesFrom (hsrc (by simpa using hzero.1)) (htarget (by simpa using hzero.2)) hsrcRange
      hdstRange numPages.toNat 0 m answers log (by simp) h hstock
  refine ⟨vm, ?_, hkeeps, huser⟩
  unfold mapShmPages
  rw [hgrant]

/-! ### The end of an address space -/

theorem Owned.inSpace_of_frees (h : Owned roots m log) (hroot : root ∈ roots) {p : List UInt64}
    {x : UInt64} (hx : Frees m root p x) : InSpace log x := by
  cases hx with
  | table hp hx => exact h.ofTable root hroot p hp x hx
  | page hv hpresent _ => exact h.ofPage root hroot _ hv hpresent

theorem Owned.frees_inj (h : Owned roots m log) (hroot : root ∈ roots) :
    ∀ p p' x, Frees m root p x → Frees m root p' x → p = p' := by
  intro p p' x hx hx'
  rcases hx.inv with ⟨hp, hx⟩ | ⟨v, hv, hpresent, hprivate, rfl, rfl⟩
  · rcases hx'.inv with ⟨hp', hx'⟩ | ⟨v, hv, hpresent, -, -, rfl⟩
    · exact (h.tables.separated root hroot root hroot p p' hp hp' x hx hx').2
    · exact absurd hx (h.apart root hroot v hv hpresent root hroot p hp)
  · rcases hx'.inv with ⟨hp', hx'⟩ | ⟨v', hv', hpresent', -, rfl, hframe⟩
    · exact absurd hx' (h.apart root hroot v hv hpresent root hroot p' hp')
    · by_cases hsame : v >>> 12 = v' >>> 12
      · obtain ⟨hpath, hindex⟩ := indices_of_samePage hsame
        rw [hpath, hindex]
      · exact absurd hprivate (h.marked root hroot v hv hpresent root hroot v' hv' hpresent' hframe
          fun hat => hsame hat.2)

/-- A page that is freed is aligned, and no table of another address space. -/
theorem Owned.destroyed (h : Owned roots m log) (hroot : root ∈ roots) {x : UInt64}
    (hx : x ∈ destroyUserPml4 m root) :
    PageAligned x ∧ ∀ r ∈ roots, r ≠ root → ∀ q, UserPath q → table m r q ≠ some x := by
  obtain ⟨p, hp⟩ := (destroyUserPml4_spec (h.frees_inj hroot)).2 x hx
  rcases hp.inv with ⟨hp, hx⟩ | ⟨v, hv, hpresent, -, -, rfl⟩
  · refine ⟨h.tables.pageAligned hroot hx, ?_⟩
    intro r hr hne q hq hx'
    exact hne (h.tables.separated r hr root hroot q p hq hp x hx' hx).1
  · exact ⟨pageAligned_and_addrMask _, fun r hr _ q hq => h.apart root hroot v hv hpresent r hr q hq⟩

/-- **`destroy_user_pml4`** keeps the invariant of the other address spaces. -/
theorem Owned.destroy (h : Owned roots m log) (hroot : root ∈ roots) {roots' : Set UInt64}
    (hroots' : ∀ r, r ∈ roots' ↔ r ∈ roots ∧ r ≠ root) :
    Owned roots' m (freeAll (destroyUserPml4 m root) log) := by
  obtain ⟨hnodup, hmem⟩ := destroyUserPml4_spec (h.frees_inj hroot)
  have hkeep : ∀ {x}, InSpace log x → x ∉ destroyUserPml4 m root →
      InSpace (freeAll (destroyUserPml4 m root) log) x := by
    intro x hx hnot
    refine ⟨(owner_freeAll ..).trans hx.1, ?_⟩
    rw [frees_freeAll, hx.2, List.count_eq_zero.mpr hnot]
  refine ⟨h.tables.subset fun r hr => ((hroots' r).mp hr).1, ?_, ?_, ?_, ?_, ?_⟩
  · intro r hr q hq x hx
    obtain ⟨hr, hne⟩ := (hroots' r).mp hr
    refine hkeep (h.ofTable r hr q hq x hx) fun hfreed => ?_
    exact (h.destroyed hroot hfreed).2 r hr hne q hq hx
  · intro r hr v hv hpresent
    obtain ⟨hr, hne⟩ := (hroots' r).mp hr
    refine hkeep (h.ofPage r hr v hv hpresent) fun hfreed => ?_
    obtain ⟨p, hp⟩ := hmem _ hfreed
    rcases hp.inv with ⟨hp, hx⟩ | ⟨v', hv', hpresent', hprivate, -, hframe⟩
    · exact h.apart r hr v hv hpresent root hroot p hp hx
    · -- the page is mapped by both, so it is marked in the address space that is destroyed
      exact h.marked root hroot v' hv' hpresent' r hr v hv hpresent hframe.symm
        (fun hat => hne hat.1.symm) hprivate
  · intro r hr v hv hpresent r' hr' q hq
    exact h.apart r ((hroots' r).mp hr).1 v hv hpresent r' ((hroots' r').mp hr').1 q hq
  · intro r hr v hv hpresent r' hr' v' hv' hpresent'
    exact h.marked r ((hroots' r).mp hr).1 v hv hpresent r' ((hroots' r').mp hr').1 v' hv' hpresent'
  · intro x
    rw [frees_freeAll]
    by_cases hfreed : x ∈ destroyUserPml4 m root
    · obtain ⟨p, hp⟩ := hmem x hfreed
      rw [(h.inSpace_of_frees hroot hp).2, Nat.zero_add]
      exact List.nodup_iff_count_le_one.mp hnodup x
    · rw [List.count_eq_zero.mpr hfreed, Nat.add_zero]
      exact h.once x

/-! ### A new address space -/

theorem copyKernelHalf_read {a : UInt64} (ha : PageAligned a) (kernVirt : UInt64) :
    ∀ (n : Nat) (i : UInt64) (m : Mem), 256 ≤ i.toNat → i.toNat + n ≤ 512 →
      ∀ t j : UInt64, PageAligned t → j.toNat < 512 → (t = a → j.toNat < 256) →
        (copyKernelHalf kernVirt (Pmm.physToVirt a) n i m).read64 (entryAddr t j) =
          m.read64 (entryAddr t j) := by
  intro n
  induction n with
  | zero =>
    intro i m _ _ t j _ _ _
    unfold copyKernelHalf
    rfl
  | succ n ih =>
    intro i m hlow hhigh t j ht hj hlower
    have hnext : (i + 1).toNat = i.toNat + 1 := by
      rw [UInt64.toNat_add, show (1 : UInt64).toNat = 1 from rfl]
      omega
    unfold copyKernelHalf
    rw [ih (i + 1) _ (by omega) (by omega) t j ht hj hlower]
    refine Mem.read64_write64_of_ne (entryAddr_aligned ha i) (entryAddr_aligned ht j) ?_
    intro heq
    obtain ⟨rfl, rfl⟩ := entryAddr_inj ht ha hj (by omega) heq
    have := hlower rfl
    omega

/-- A page becomes the top table of an address space that maps nothing. -/
structure NewRoot (roots : Set UInt64) (m m' : Mem) (a : UInt64) : Prop where
  fresh : FreshFrame roots m a
  same : SameEntries roots m m'
  empty : ∀ j : UInt64, j.toNat < 256 → m'.read64 (entryAddr a j) = 0

theorem newRoot_create (h : Tables roots m) {a : UInt64} (ha : FreshFrame roots m a)
    (kernVirt : UInt64) :
    NewRoot roots m (copyKernelHalf kernVirt (Pmm.physToVirt a) 256 256 (zeroPage m a)) a := by
  refine ⟨ha, ?_, ?_⟩
  · intro r hr q x hq hx j hj
    have hxp := h.pageAligned hr hx
    have hne : x ≠ a := by
      rintro rfl
      exact ha.not_table r hr q hq hx
    rw [copyKernelHalf_read ha.aligned kernVirt 256 256 _ (by decide) (by decide) x j hxp hj
      (fun heq => absurd heq hne)]
    refine Mem.read64_fill_of_disjoint (by decide) m ?_
    intro y hy hy'
    exact pages_disjoint hxp ha.aligned hne y (inBlock_entry hj hy) hy'
  · intro j hj
    rw [copyKernelHalf_read ha.aligned kernVirt 256 256 _ (by decide) (by decide) a j ha.aligned
      (by omega) (fun _ => hj)]
    exact Mem.read64_fill_zero (by decide) m fun y hy => inBlock_entry (by omega) hy

section NewRoot

variable {a : UInt64}

theorem NewRoot.table_self (h : NewRoot roots m m' a) {q : List UInt64} (hq : UserPath q) {x : UInt64}
    (hx : table m' a q = some x) : q = [] ∧ x = a := by
  cases q with
  | nil => exact ⟨rfl, (Option.some.inj hx).symm⟩
  | cons j q =>
    have hnone : follow m' a j = none := by
      rw [follow_eq_none, h.empty j (hq.user j rfl), UInt64.zero_and]
    rw [table_cons, hnone] at hx
    exact absurd hx (by simp)

theorem NewRoot.leaf_self (h : NewRoot roots m m' a) {v : UInt64} (hv : v < userAddrLimit) :
    leaf m' a v = 0 := by
  refine leaf_of_none ?_
  cases hx : table m' a (path v) with
  | none => rfl
  | some x => exact absurd (h.table_self (userPath_path hv) hx).1 (by simp [path])

theorem NewRoot.tables (h : NewRoot roots m m' a) (htables : Tables roots m) :
    Tables (insert a roots) m' := by
  have hold := h.same.tables htables
  have hnot : ∀ r ∈ roots, ∀ q, UserPath q → table m' r q ≠ some a := by
    intro r hr q hq hx
    exact h.fresh.not_table r hr q hq ((h.same.table hr hq).symm.trans hx)
  refine ⟨⟨?_, ?_, ?_⟩, ?_⟩
  · rintro r (rfl | hr)
    · exact h.fresh.aligned
    · exact hold.aligned r hr
  · rintro r (rfl | hr) r' (rfl | hr') q q' hq hq' x hx hx'
    · exact ⟨rfl, (h.table_self hq hx).1.trans (h.table_self hq' hx').1.symm⟩
    · rw [(h.table_self hq hx).2] at hx'
      exact absurd hx' (hnot r' hr' q' hq')
    · rw [(h.table_self hq' hx').2] at hx
      exact absurd hx (hnot r hr q hq)
    · exact hold.separated r hr r' hr' q q' hq hq' x hx hx'
  · rintro r (rfl | hr) q j x hqj hx
    · obtain ⟨rfl, rfl⟩ := h.table_self hqj.init hx
      rw [h.empty j (hqj.user j rfl), UInt64.zero_and]
      exact fun hne => absurd rfl hne
    · exact hold.small r hr q j x hqj hx
  · rintro r (rfl | hr) q j x hqj hx
    · exact absurd (h.table_self hqj hx).1 (by simp)
    · exact hold.nonzero r hr q j x hqj hx

theorem NewRoot.userEntries (h : NewRoot roots m m' a) (hu : UserEntries roots m) :
    UserEntries (insert a roots) m' := by
  rintro r (rfl | hr) j hj hpresent
  · rw [h.empty j hj, UInt64.zero_and] at hpresent
    exact absurd rfl hpresent
  · exact hu.of_sameEntries h.same r hr j hj hpresent

/-- **A new address space** keeps the invariant. -/
theorem Owned.create (h : Owned roots m log) (hnew : NewRoot roots m m' a) (hfree : ¬ InSpace log a) :
    Owned (insert a roots) m' (handAll .space [a] log) := by
  have hold : Owned roots m' (handAll .space [a] log) := (h.of_sameEntries hnew.same).hand [a]
  have hold' : Owned roots m' log := h.of_sameEntries hnew.same
  refine ⟨hnew.tables h.tables, ?_, ?_, ?_, ?_, hold.once⟩
  · rintro r (rfl | hr) q hq x hx
    · rw [(hnew.table_self hq hx).2]
      exact inSpace_handAll_of_mem (List.mem_singleton_self _)
    · exact hold.ofTable r hr q hq x hx
  · rintro r (rfl | hr) v hv hpresent
    · rw [hnew.leaf_self hv, UInt64.zero_and] at hpresent
      exact absurd rfl hpresent
    · exact hold.ofPage r hr v hv hpresent
  · rintro r (rfl | hr) v hv hpresent r' (rfl | hr') q hq hx
    · rw [hnew.leaf_self hv, UInt64.zero_and] at hpresent
      exact hpresent rfl
    · rw [hnew.leaf_self hv, UInt64.zero_and] at hpresent
      exact hpresent rfl
    · have hframe := hold'.ofPage r hr v hv hpresent
      rw [(hnew.table_self hq hx).2] at hframe
      exact hfree hframe
    · exact hold.apart r hr v hv hpresent r' hr' q hq hx
  · rintro r (rfl | hr) v hv hpresent r' (rfl | hr') v' hv' hpresent' hframe hne
    · rw [hnew.leaf_self hv, UInt64.zero_and] at hpresent
      exact absurd rfl hpresent
    · rw [hnew.leaf_self hv, UInt64.zero_and] at hpresent
      exact absurd rfl hpresent
    · rw [hnew.leaf_self hv', UInt64.zero_and] at hpresent'
      exact absurd rfl hpresent'
    · exact hold.marked r hr v hv hpresent r' hr' v' hv' hpresent' hframe hne

end NewRoot

/-! ### The calls -/

theorem Owned.createUserPml4 (h : Owned roots m log) (hstock : Stock log answers) (kernelPml4 : UInt64) :
    ∃ a vm, createUserPml4 ⟨m, answers⟩ kernelPml4 = (a, vm) ∧
      Keeps (if a = 0 then roots else insert a roots) log answers vm ∧
      (UserEntries roots m → UserEntries (if a = 0 then roots else insert a roots) vm.mem) := by
  unfold Spawn.createUserPml4
  cases answers with
  | nil => exact ⟨0, _, rfl, h.keeps [], fun hu => hu⟩
  | cons a rest =>
    dsimp only [Vm.alloc]
    by_cases ha : a = 0
    · subst ha
      rw [if_pos (beq_self_eq_true _)]
      exact ⟨0, _, rfl, ⟨[0], rfl, h⟩, fun hu => hu⟩
    · rw [if_neg (by simpa using ha)]
      refine ⟨a, ⟨copyKernelHalf (Pmm.physToVirt kernelPml4) (Pmm.physToVirt a) 256 256 (zeroPage m a),
        rest⟩, rfl, ?_⟩
      have hfree := (hstock.page a (List.mem_cons_self ..) ha).2.2
      have hfresh := (h.supply hstock).frame (List.mem_cons_self ..) ha
      have hfilter : [a].filter (· != 0) = [a] := by simp [ha]
      have hnew := newRoot_create h.tables hfresh (Pmm.physToVirt kernelPml4)
      have hcreated := h.create hnew hfree
      rw [if_neg ha]
      refine ⟨⟨[a], rfl, ?_⟩, ?_⟩
      · rw [hfilter]
        dsimp only
        exact hcreated
      · intro hu
        dsimp only
        exact hnew.userEntries hu

theorem Owned.mayMap_new (h : Owned roots m log) {a : UInt64} (hfree : ¬ InSpace log a)
    (haligned : PageAligned a) (hsmall : a.toNat < 2 ^ 52) (hflags : flags &&& addrMask = 0) :
    MayMap roots m (handAll .space [a] log) root vaddr a flags where
  addr := by rw [and_or_distrib, and_addrMask_of_aligned haligned hsmall, hflags, UInt64.or_zero]
  inSpace := inSpace_handAll_of_mem (List.mem_singleton_self a)
  notTable := fun r hr q hq hx => hfree (h.ofTable r hr q hq a hx)
  marked := by
    rintro r hr v hv hpresent rfl -
    exact absurd (h.ofPage r hr v hv hpresent) hfree

/-- **A new page** keeps the invariant. -/
theorem Owned.mapNewPage (h : Owned roots m log) (hroot : root ∈ roots) (hstock : Stock log answers)
    (hflags : flags &&& addrMask = 0) (vaddr : UInt64) :
    ∃ vm, mapNewPage ⟨m, answers⟩ root vaddr flags = vm ∧ Keeps roots log answers vm ∧
      (flags &&& pteUser ≠ 0 → UserEntries roots m → UserEntries roots vm.mem) := by
  unfold Syscall.mapNewPage
  cases answers with
  | nil => exact ⟨_, rfl, h.keeps [], fun _ hu => hu⟩
  | cons a rest =>
    dsimp only [Vm.alloc]
    by_cases ha : a = 0
    · subst ha
      rw [if_pos (beq_self_eq_true _)]
      exact ⟨_, rfl, ⟨[0], rfl, h⟩, fun _ hu => hu⟩
    · rw [if_neg (by simpa using ha)]
      obtain ⟨haligned, hsmall, hfree⟩ := hstock.page a (List.mem_cons_self ..) ha
      have hfilter : [a].filter (· != 0) = [a] := by simp [ha]
      have hrest := Stock.remaining (show Stock _ ([a] ++ _) from hstock)
      rw [hfilter] at hrest
      have hmay : MayMap roots m (handAll .space [a] log) root vaddr a flags :=
        h.mayMap_new hfree haligned hsmall hflags
      obtain ⟨m', taken, rest', hmap, hanswers, h', -, huser⟩ := (h.hand [a]).mapUserPage hroot hrest hmay
      have hkeeps : Keeps roots (handAll .space ([a].filter (· != 0)) log) rest ⟨m', rest'⟩ := by
        rw [hfilter]
        exact ⟨taken, hanswers, h'⟩
      rw [hmap]
      exact ⟨_, rfl, hkeeps.append, fun huserFlags => huser (.inl huserFlags)⟩

end Owned

/-! ### Runs -/

section Careful

variable (s : Spaces)

/-- The page tables of a slot are those of an address space that lives. -/
def LiveSlot (slot : UInt64) : Prop :=
  (s.procs.table slot).userPml4 ≠ 0 → (s.procs.table slot).userPml4 ∈ s.live

/-- **The side condition.** No grant through the ring passes its checks.  The calls are about address
spaces that live, `pmm.alloc` hands out no page that belongs to one, flags have no address bits, and
nothing else stores into page tables. -/
def Careful : SpaceOp → Prop
  | .create _ answers => Stock s.log answers
  | .map root _ flags answers => root ∈ s.live ∧ flags &&& addrMask = 0 ∧ Stock s.log answers
  | .shmGrant targetPid _ _ _ answers =>
    LiveSlot s s.procs.currentPid ∧ LiveSlot s targetPid ∧ Stock s.log answers
  | .ringGrant slot targetPid srcVaddr dstVaddr _ =>
    ¬ (targetPid < 16 ∧ GrantOk ⟨setCurrent s.procs slot, ⟨s.mem, []⟩⟩ targetPid srcVaddr dstVaddr)
  | .destroy root => root ∈ s.live
  | .other mem _ allocated =>
    SameEntries {r | r ∈ s.live} s.mem mem ∧ ∀ a ∈ allocated, ¬ InSpace s.log a

end Careful

theorem ringShmGrant_refused {p : Procs} (vm : Vm) {slot targetPid srcVaddr dstVaddr : UInt64}
    (h : ¬ (targetPid < 16 ∧ GrantOk ⟨setCurrent p slot, ⟨vm.mem, []⟩⟩ targetPid srcVaddr dstVaddr)) :
    (ringShmGrant ⟨p, vm⟩ slot targetPid srcVaddr dstVaddr).2.vm = vm := by
  unfold ringShmGrant
  dsimp only
  split_ifs with h₁ h₂ h₃ h₄ h₅ h₆ h₇ h₈ h₉
  all_goals try rfl
  rw [Bool.or_eq_true, not_or] at h₃ h₄ h₅
  rw [beq_iff_eq] at h₂ h₆ h₇ h₈
  rw [bne_iff_ne, not_not] at h₉
  refine absurd ⟨UInt64.not_le.mp h₁, ?_⟩ h
  exact ⟨h₂, by simpa using h₃.1, by simpa using h₃.2, by simpa using h₄.1, by simpa using h₄.2,
    by simpa using h₅.1, by simpa using h₅.2, h₆, h₇, h₈, h₉⟩

/-- The invariant of a state. -/
def Spaces.Sound (s : Spaces) : Prop := Owned {r | r ∈ s.live} s.mem s.log

section Runs

variable {s : Spaces}

/-- An address space was there before a step, or the step has created it. -/
theorem mem_live_exec {op : SpaceOp} {r : UInt64} (hr : r ∈ (s.exec op).live) :
    r ∈ s.live ∨ ∃ kernelPml4 answers, op = .create kernelPml4 answers ∧ r ≠ 0 ∧
      r = (createUserPml4 ⟨s.mem, answers⟩ kernelPml4).1 := by
  cases op with
  | create kernelPml4 answers =>
    unfold Spaces.exec at hr
    dsimp only at hr
    split at hr
    · exact .inl hr
    · next hne =>
      rcases List.mem_cons.mp hr with rfl | hr
      · exact .inr ⟨kernelPml4, answers, rfl, by simpa using hne, rfl⟩
      · exact .inl hr
  | map | shmGrant | ringGrant | other => exact .inl hr
  | destroy root => exact .inl (List.mem_filter.mp hr).1

theorem sound_start (mem : Mem) (procs : Procs) : (Spaces.start mem procs).Sound := by
  have hnone : ∀ r, r ∈ {r | r ∈ (Spaces.start mem procs).live} → False := fun r hr =>
    absurd hr List.not_mem_nil
  refine ⟨⟨⟨?_, ?_, ?_⟩, ?_⟩, ?_, ?_, ?_, ?_, fun x => Nat.zero_le 1⟩
  all_goals exact fun r hr => (hnone r hr).elim

theorem Spaces.Sound.framesOwned (h : s.Sound) : FramesOwned s where
  once := h.once
  mapped := by
    intro r hr v hv hpresent
    rw [getUserPte_eq_leaf] at hpresent ⊢
    exact (h.ofPage r hr v hv hpresent).2

theorem Keeps.sound {roots : Set UInt64} {vm : Vm} {answers : List UInt64}
    (h : Keeps roots s.log answers vm) :
    Owned roots (s.after ⟨s.mem, answers⟩ vm).mem (s.after ⟨s.mem, answers⟩ vm).log := by
  obtain ⟨taken, htaken, h⟩ := h
  have hhanded : handedOut ⟨s.mem, answers⟩ vm = taken.filter (· != 0) := handedOut_eq htaken
  unfold Spaces.after
  dsimp only
  rw [hhanded]
  exact h

/-- **A careful step** keeps the invariant. -/
theorem Spaces.Sound.exec (h : s.Sound) {op : SpaceOp} (hok : Careful s op) : (s.exec op).Sound := by
  cases op with
  | create kernelPml4 answers =>
    obtain ⟨a, vm, heq, hkeeps, -⟩ := h.createUserPml4 hok kernelPml4
    have hsound := hkeeps.sound
    unfold Spaces.exec
    dsimp only
    rw [heq]
    by_cases ha : a = 0
    · rw [if_pos ha] at hsound
      rw [if_pos (beq_iff_eq.mpr ha)]
      exact hsound
    · rw [if_neg ha] at hsound
      rw [if_neg (by simpa using ha)]
      have hroots : {r | r ∈ a :: s.live} = insert a {r | r ∈ s.live} := by
        ext r
        simp
      unfold Spaces.Sound
      dsimp only
      rw [hroots]
      exact hsound
  | map root vaddr flags answers =>
    obtain ⟨hroot, hflags, hstock⟩ := hok
    obtain ⟨vm, heq, hkeeps, -⟩ := Owned.mapNewPage h hroot hstock hflags vaddr
    unfold Spaces.exec
    dsimp only
    rw [heq]
    exact hkeeps.sound
  | shmGrant targetPid srcVaddr dstVaddr numPages answers =>
    obtain ⟨hsrc, htarget, hstock⟩ := hok
    obtain ⟨vm, heq, hkeeps, -⟩ := Owned.sysShmGrant h hstock hsrc htarget srcVaddr dstVaddr numPages
    unfold Spaces.exec
    dsimp only
    rw [heq]
    exact hkeeps.sound
  | ringGrant slot targetPid srcVaddr dstVaddr answers =>
    have heq := ringShmGrant_refused ⟨s.mem, answers⟩ hok
    unfold Spaces.exec
    dsimp only
    rw [heq]
    exact (Owned.keeps h answers).sound
  | destroy root =>
    refine Owned.destroy h hok ?_
    intro r
    change r ∈ s.live.filter (· != root) ↔ r ∈ s.live ∧ r ≠ root
    simp [List.mem_filter]
  | other mem procs allocated =>
    exact (Owned.of_sameEntries h hok.1).handOther hok.2

/-- **The links of `pmm.free`**: stores in the pages that a destroy frees are a careful step. -/
theorem Spaces.Sound.careful_links (h : s.Sound) {root : UInt64} (hroot : root ∈ s.live) {mem : Mem}
    (hmem : ∀ y, (∀ x ∈ destroyUserPml4 s.mem root, ¬ InBlock (Pmm.physToVirt x) 4096 y) → mem y = s.mem y)
    (procs : Procs) : Careful (s.exec (.destroy root)) (.other mem procs []) := by
  refine ⟨SameEntries.of_outside ?_, fun a ha => absurd ha List.not_mem_nil⟩
  intro r hr q t hq ht y hy
  have hr : r ∈ s.live ∧ r ≠ root := by simpa [Spaces.exec, List.mem_filter] using hr
  refine hmem y ?_
  intro x hx hin
  obtain ⟨haligned, hnot⟩ := Owned.destroyed h hroot hx
  have hne : t ≠ x := by
    rintro rfl
    exact hnot r hr.1 hr.2 q hq ht
  exact pages_disjoint (h.tables.pageAligned hr.1 ht) haligned hne y hy hin

end Runs

/-- **No page is freed twice or under an address space that maps it**, in every run in which each step is
careful. -/
theorem framesOwned_of_careful {mem : Mem} {procs : Procs} {ops : List SpaceOp}
    (hok : Admissible Spaces.exec Careful (Spaces.start mem procs) ops) :
    FramesOwned (runOps Spaces.exec (Spaces.start mem procs) ops) :=
  (runOps_induction (fun _ _ h hstep => h.exec hstep) (sound_start mem procs) hok).framesOwned

/-! ### A grant through the ring -/

theorem not_framesOwned_destroy {s : Spaces} {r r' v v' : UInt64} (hr' : r' ∈ s.live) (hne : r' ≠ r)
    (hv : v < userAddrLimit) (hv' : v' < userAddrLimit) (hpresent : leaf s.mem r v &&& ptePresent ≠ 0)
    (hprivate : leaf s.mem r v &&& pteSharedBit = 0) (hsame : leaf s.mem r' v' = leaf s.mem r v) :
    ¬ FramesOwned (s.exec (.destroy r)) := by
  intro h
  have hfreed := mem_destroyUserPml4 hv hpresent hprivate
  have hlive : r' ∈ s.live.filter (· != r) := List.mem_filter.mpr ⟨hr', bne_iff_ne.mpr hne⟩
  have hzero := h.mapped r' hlive v' hv'
  unfold Spaces.exec at hzero
  dsimp only at hzero
  rw [getUserPte_eq_leaf, hsame, frees_freeAll] at hzero
  have hcount := List.count_pos_iff.mpr hfreed
  have := hzero hpresent
  omega

section TwoSpaces

theorem mapNewPage_cons {m : Mem} {a : UInt64} (ha : a ≠ 0) (rest : List UInt64) (root vaddr flags : UInt64) :
    mapNewPage ⟨m, a :: rest⟩ root vaddr flags = mapUserPage ⟨m, rest⟩ root vaddr a flags := by
  unfold mapNewPage
  dsimp only [Vm.alloc]
  rw [if_neg (by simpa using ha)]

theorem exists_ringShared :
    ∃ m₁ m₂, mapNewPage ⟨fun _ => 0, [0x8000, 0x3000, 0x4000, 0x5000]⟩ 0x1000 0 7 = ⟨m₁, []⟩ ∧
      (ringShmGrant ⟨twoSpaces, ⟨m₁, [0x6000, 0x7000, 0x9000]⟩⟩ 1 2 0 0).2.vm = ⟨m₂, []⟩ ∧
      leaf m₂ 0x1000 0 = 0x8007 ∧ leaf m₂ 0x2000 0 = 0x8007 := by
  obtain ⟨m₁, hmap₁, hpage₁⟩ := exists_onePage
  have hleaf₁ := leaf_onePage hpage₁
  have hok := grantOk_onePage hpage₁ [0x6000, 0x7000, 0x9000]
  have hfresh := freshAnswers_onePage hpage₁
  have hwants : wants (tabled m₁ 0x2000) [] (path 0) = 3 := by
    rw [← wants_zero 0x2000 0]
    refine wants_congr (fun q hq => ?_) (userPath_path (by decide))
    unfold tabled
    rw [hpage₁.table_of_ne (.inl rfl) (.inr rfl) (by decide) hq]
  obtain ⟨m₂, hmap₂, hpage₂⟩ := mapUserPage_served hpage₁.tables (show (0x2000 : UInt64) ∈ _ from .inr rfl)
    (show (0 : UInt64) < userAddrLimit by decide) hfresh
    hwants.symm [] 0x8000 7
  have hpte : getUserPte m₁ 0x1000 0 = 0x8007 := (getUserPte_eq_leaf ..).trans hleaf₁
  have hgrant := ringShmGrant_of_ok (by decide) hok
  change ringShmGrant _ 1 2 0 0 = (0, ⟨twoSpaces, mapUserPage ⟨m₁, _⟩ 0x2000 0
    (getUserPte m₁ 0x1000 0 &&& addrMask) (grantFlags (ptePresent ||| pteUser) (getUserPte m₁ 0x1000 0))⟩)
    at hgrant
  rw [hpte, show (0x8007 : UInt64) &&& addrMask = 0x8000 from by decide,
    show grantFlags (ptePresent ||| pteUser) 0x8007 = 7 from by decide] at hgrant
  have hvm : (ringShmGrant ⟨twoSpaces, ⟨m₁, [0x6000, 0x7000, 0x9000]⟩⟩ 1 2 0 0).2.vm = ⟨m₂, []⟩ := by
    rw [hgrant]
    exact hmap₂
  rw [mapNewPage_cons (by decide)]
  refine ⟨m₁, m₂, hmap₁, hvm, ?_, ?_⟩
  · rw [hpage₂.leaves 0x1000 (.inl rfl) 0 (by decide), if_neg (fun h => absurd h.1 (by decide)), hleaf₁]
  · rw [hpage₂.leaves 0x2000 (.inr rfl) 0 (by decide), if_pos ⟨rfl, rfl⟩]
    rfl

theorem copyKernelHalf_zeros (kernVirt userVirt : UInt64) (n : Nat) (i : UInt64) :
    copyKernelHalf kernVirt userVirt n i (fun _ => 0) = fun _ => 0 := by
  induction n generalizing i with
  | zero => rfl
  | succ n ih =>
    unfold copyKernelHalf
    rw [Mem.read64_zero, Mem.write64_zeros]
    exact ih (i + 1)

theorem exec_create_zeros {s : Spaces} (hmem : s.mem = fun _ => 0) {a : UInt64} (ha : a ≠ 0) :
    s.exec (.create 0 [a]) =
      { s with live := a :: s.live, log := handAll .space [a] s.log } := by
  have hcreate : createUserPml4 ⟨fun _ => 0, [a]⟩ 0 = (a, ⟨fun _ => 0, []⟩) := by
    unfold Spawn.createUserPml4
    dsimp only [Vm.alloc]
    rw [if_neg (by simpa using ha)]
    unfold zeroPage
    rw [Mem.fill_zeros (by decide), copyKernelHalf_zeros]
  have hhanded : handedOut ⟨fun _ => 0, [a]⟩ ⟨fun _ => 0, []⟩ = [a] := by
    rw [handedOut_eq (show [a] = [a] ++ [] from rfl)]
    simp [ha]
  obtain ⟨procs, mem, live, log⟩ := s
  subst hmem
  unfold Spaces.exec
  dsimp only
  rw [hcreate]
  dsimp only
  rw [if_neg (by simpa using ha)]
  unfold Spaces.after
  dsimp only
  rw [hhanded]

/-- **A grant through the ring shares a page that nobody marks**: when the first process is destroyed, the
page is freed while the second process maps it. -/
theorem not_framesOwned_ringGrant :
    ¬ FramesOwned (runOps Spaces.exec (Spaces.start (fun _ => 0) twoSpaces)
      [.create 0 [0x1000], .create 0 [0x2000], .map 0x1000 0 7 [0x8000, 0x3000, 0x4000, 0x5000],
        .ringGrant 1 2 0 0 [0x6000, 0x7000, 0x9000], .destroy 0x1000]) := by
  obtain ⟨m₁, m₂, hmap, hgrant, hleaf₁, hleaf₂⟩ := exists_ringShared
  have hmapped : ∀ log, ∃ log', (Spaces.mk twoSpaces (fun _ => 0) [0x2000, 0x1000] log).exec
      (.map 0x1000 0 7 [0x8000, 0x3000, 0x4000, 0x5000]) = ⟨twoSpaces, m₁, [0x2000, 0x1000], log'⟩ := by
    intro log
    unfold Spaces.exec Spaces.after
    dsimp only
    rw [hmap]
    exact ⟨_, rfl⟩
  have hgranted : ∀ log, ∃ log', (Spaces.mk twoSpaces m₁ [0x2000, 0x1000] log).exec
      (.ringGrant 1 2 0 0 [0x6000, 0x7000, 0x9000]) = ⟨twoSpaces, m₂, [0x2000, 0x1000], log'⟩ := by
    intro log
    unfold Spaces.exec Spaces.after
    dsimp only
    rw [hgrant]
    exact ⟨_, rfl⟩
  rw [runOps_cons, exec_create_zeros rfl (by decide), runOps_cons, exec_create_zeros rfl (by decide),
    runOps_cons]
  unfold Spaces.start
  dsimp only
  obtain ⟨log₁, h₁⟩ := hmapped (handAll .space [0x2000] (handAll .space [0x1000] []))
  rw [h₁, runOps_cons]
  obtain ⟨log₂, h₂⟩ := hgranted log₁
  rw [h₂, runOps_cons, runOps_nil]
  have hlive : (0x2000 : UInt64) ∈ [(0x2000 : UInt64), 0x1000] := List.mem_cons_self
  refine not_framesOwned_destroy hlive (by decide) (show (0 : UInt64) < userAddrLimit by decide)
    (show (0 : UInt64) < userAddrLimit by decide) ?_ ?_ ?_
  · dsimp only
    rw [hleaf₁]
    decide
  · dsimp only
    rw [hleaf₁]
    decide
  · exact hleaf₂.trans hleaf₁.symm

theorem stock_of_unused {log : List (Entry Holder UInt64)} {answers : List UInt64}
    (hnodup : (answers.filter (· != 0)).Nodup)
    (hpages : ∀ a ∈ answers, a.toNat % 4096 = 0 ∧ a.toNat < 2 ^ 52)
    (hunused : ∀ a ∈ answers, owner a log = none) :
    Stock log answers := by
  refine ⟨hnodup, fun a ha _ => ⟨(hpages a ha).1, (hpages a ha).2, ?_⟩⟩
  rintro ⟨howner, -⟩
  rw [hunused a ha] at howner
  cases howner

theorem owner_after (s : Spaces) (before after : Vm) {a : UInt64} (ha : a ∉ before.answers) :
    owner a (s.after before after).log = owner a s.log := by
  refine owner_handAll_of_not_mem _ _ (fun hmem => ha ?_)
  exact List.mem_of_mem_take (List.mem_filter.mp hmem).1

/-- Two address spaces are created, the first is given a page, and grants it to the second. -/
def grantRun : List SpaceOp :=
  [.create 0 [0x1000], .create 0 [0x2000], .map 0x1000 0 7 [0x8000, 0x3000, 0x4000, 0x5000],
    .shmGrant 2 0 0 1 [0x6000, 0x7000, 0x9000]]

theorem exec_creates : runOps Spaces.exec (Spaces.start (fun _ => 0) twoSpaces)
    [.create 0 [0x1000], .create 0 [0x2000]] = ⟨twoSpaces, fun _ => 0, [0x2000, 0x1000],
      handAll .space [0x2000] (handAll .space [0x1000] [])⟩ := by
  rw [runOps_cons, exec_create_zeros rfl (by decide), runOps_cons, exec_create_zeros rfl (by decide),
    runOps_nil]
  rfl

theorem live_grantRun : (0x1000 : UInt64) ∈
    (runOps Spaces.exec (Spaces.start (fun _ => 0) twoSpaces) grantRun).live := by
  have hsplit : grantRun = [.create 0 [0x1000], .create 0 [0x2000]] ++
      [.map 0x1000 0 7 [0x8000, 0x3000, 0x4000, 0x5000], .shmGrant 2 0 0 1 [0x6000, 0x7000, 0x9000]] := rfl
  rw [hsplit, runOps_append, exec_creates]
  exact List.mem_cons_of_mem _ List.mem_cons_self

theorem careful_grantRun :
    Admissible Spaces.exec Careful (Spaces.start (fun _ => 0) twoSpaces) grantRun := by
  have hfirst : (Spaces.start (fun _ => 0) twoSpaces).exec (.create 0 [0x1000]) =
      ⟨twoSpaces, fun _ => 0, [0x1000], handAll .space [0x1000] []⟩ :=
    exec_create_zeros rfl (by decide)
  have hsecond : (Spaces.mk twoSpaces (fun _ => 0) [0x1000] (handAll .space [0x1000] [])).exec
      (.create 0 [0x2000]) = ⟨twoSpaces, fun _ => 0, [0x2000, 0x1000],
        handAll .space [0x2000] (handAll .space [0x1000] [])⟩ :=
    exec_create_zeros rfl (by decide)
  have hlive : (0x1000 : UInt64) ∈ [(0x2000 : UInt64), 0x1000] := List.mem_cons_of_mem _ List.mem_cons_self
  refine ⟨?_, ?_, ?_⟩
  · exact stock_of_unused (by decide) (List.all_iff_forall_prop.mp (by decide))
      (fun _ _ => rfl)
  · rw [hfirst]
    exact stock_of_unused (by decide) (List.all_iff_forall_prop.mp (by decide))
      (List.all_iff_forall_prop.mp (by decide))
  · rw [hfirst, hsecond]
    refine ⟨⟨hlive, by decide, ?_⟩, ⟨fun _ => hlive, fun _ => List.mem_cons_self, ?_⟩, trivial⟩
    · exact stock_of_unused (by decide) (List.all_iff_forall_prop.mp (by decide))
        (List.all_iff_forall_prop.mp (by decide))
    · refine stock_of_unused (by decide) (List.all_iff_forall_prop.mp (by decide)) (fun a ha => ?_)
      have hother : ∀ a ∈ [(0x6000 : UInt64), 0x7000, 0x9000],
          a ∉ [(0x8000 : UInt64), 0x3000, 0x4000, 0x5000] ∧
            owner a (handAll Holder.space [(0x2000 : UInt64)] (handAll .space [0x1000] [])) = none :=
        List.all_iff_forall_prop.mp (by decide)
      exact (owner_after _ _ _ (hother a ha).1).trans (hother a ha).2

/-- A run of careful steps: a page of the first process is granted with the system call, and the first
process is destroyed. -/
theorem framesOwned_shmGrant :
    FramesOwned (runOps Spaces.exec (Spaces.start (fun _ => 0) twoSpaces)
      [.create 0 [0x1000], .create 0 [0x2000], .map 0x1000 0 7 [0x8000, 0x3000, 0x4000, 0x5000],
        .shmGrant 2 0 0 1 [0x6000, 0x7000, 0x9000], .destroy 0x1000]) := by
  have hok : Admissible Spaces.exec Careful (Spaces.start (fun _ => 0) twoSpaces)
      (grantRun ++ [.destroy 0x1000]) := careful_grantRun.append ⟨live_grantRun, trivial⟩
  exact framesOwned_of_careful hok

end TwoSpaces

end Keuos.Syscall
