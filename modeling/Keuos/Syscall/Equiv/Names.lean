import Keuos.Ecs.Equiv.Handles
import Keuos.Ecs.Equiv.Reclaim
import Keuos.Lib.Run
import Keuos.Syscall.Names
import Mathlib.Data.List.GetD

/-!
# Names resolve to live entities

A row of the table of names has a live entity, and the page with the bytes of its last store.  `Inv` says so,
and that the pages of `pmm` and those of the rows are all pages, each of them once.

## Main results

* `lookupRows_spec`: the loop of the lookup finds the first row with the name.
* `names_resolve`: in every run that neither replaces a name nor destroys an entity that has one, a lookup
  finds the live entity with the name, and each page that a store got is freed once or still has a name.
* `not_namesReleased`: where an entity with a name is destroyed, its page is never freed.
-/

namespace Keuos.Names

open Ecs Ledger
open Pmm (physToVirt kernelBase)
open Serial (isValidUserPtr)

/-! ### The pages of frames -/

/-- `memory.virt_to_phys_raw`. -/
def virtToPhys (virt : UInt64) : UInt64 := virt - kernelBase

/-- The byte is on the page of the frame. -/
def OnPage (f x : UInt64) : Prop := InBlock (physToVirt f) 4096 x

/-- The memory is the same outside of the pages of the given frames. -/
def SameOutside (fs : List UInt64) (m m' : Mem) : Prop :=
  ∀ x, (∀ f ∈ fs, ¬ OnPage f x) → m' x = m x

theorem virtToPhys_physToVirt (f : UInt64) : virtToPhys (physToVirt f) = f := by
  unfold virtToPhys physToVirt
  grind

theorem physToVirt_aligned {f : UInt64} (h : f.toNat % 4096 = 0) : (physToVirt f).toNat % 4096 = 0 := by
  rw [physToVirt, UInt64.toNat_add, show kernelBase.toNat = 0xFFFFFFFF80000000 from rfl]
  omega

theorem onPage_unique {f g x : UInt64} (hf : f.toNat % 4096 = 0) (hg : g.toNat % 4096 = 0)
    (hfx : OnPage f x) (hgx : OnPage g x) : f = g := by
  by_contra hne
  refine disjoint_of_aligned (by decide) (physToVirt_aligned hf) (physToVirt_aligned hg) ?_ x hfx hgx
  intro heq
  rw [← virtToPhys_physToVirt f, heq, virtToPhys_physToVirt] at hne
  exact hne rfl

theorem SameOutside.trans {fs : List UInt64} {m m' m'' : Mem} (h : SameOutside fs m m')
    (h' : SameOutside fs m' m'') : SameOutside fs m m'' :=
  fun x hx => (h' x hx).trans (h x hx)

/-! ### Live handles -/

/-- The handles `live` are those that are live in the world: their ids and the free ones share out the ids,
and their generations are the current ones. -/
def Alive (w : World) (live : List Entity) : Prop :=
  ∃ destructions : UInt32 → Nat, (∀ id, destructions id < 2 ^ 32) ∧ Handles.Inv ⟨w, live, live, destructions⟩

section Alive

variable {w : World} {live : List Entity} {e x : Entity}

theorem alive_newWorld (b : (t : Table) → Blocks t.Component) : Alive (newWorld b) [] :=
  ⟨fun _ => 0, fun _ => Nat.two_pow_pos 32, handles_inv_init b⟩

theorem Alive.sets (h : Alive w live) : w.SetsInv := by
  obtain ⟨d, -, hinv⟩ := h
  exact hinv.sets

theorem Alive.id_lt (h : Alive w live) (he : e ∈ live) : e.id < maxEntities := by
  obtain ⟨d, -, hinv⟩ := h
  exact hinv.id_lt he

theorem Alive.eq_of_id (h : Alive w live) (he : e ∈ live) (hx : x ∈ live) (hid : e.id = x.id) : e = x := by
  obtain ⟨d, -, hinv⟩ := h
  exact hinv.eq_of_live he hx hid

theorem Alive.isAlive (h : Alive w live) (he : e ∈ live) : worldIsAlive w e = true := by
  obtain ⟨d, hfew, hinv⟩ := h
  exact (hinv.alive_iff hfew he).mpr he

theorem alive_of_inv {returned : List Entity} {d : UInt32 → Nat} (h : Handles.Inv ⟨w, returned, live, d⟩) :
    Alive w live := by
  refine ⟨fun id => d id % 2 ^ 32, fun id => Nat.mod_lt _ (by decide), h.sets, h.fresh_le,
    h.ids, fun id => ?_,
    h.live_gen, fun _ he => he, fun e he => h.returned_lt e (h.live_returned e he), fun _ he => Or.inl he⟩
  rw [show w.alloc.generations id = genAfter (d id) from h.gens id, ← UInt32.toNat_inj]
  unfold genAfter
  rw [UInt32.toNat_ofNat', UInt32.toNat_ofNat', Nat.mod_add_mod]

theorem Alive.spawn (h : Alive w live) : Alive (worldSpawn w).2
    (if (worldSpawn w).1.id = invalid then live else (worldSpawn w).1 :: live) := by
  obtain ⟨d, -, hinv⟩ := h
  have hspawn := hinv.spawn
  unfold Handles.spawn at hspawn
  dsimp only at hspawn
  split at hspawn
  case isTrue hfull =>
    rw [if_pos hfull]
    exact alive_of_inv hspawn
  case isFalse hfull =>
    rw [if_neg hfull]
    exact alive_of_inv hspawn

theorem Alive.destroy (h : Alive w live) (he : e ∈ live) : Alive (worldDestroy w e) (live.erase e) := by
  obtain ⟨d, hfew, hinv⟩ := h
  exact alive_of_inv (hinv.destroy hfew (Or.inl he))

theorem Alive.destroy_stale (h : Alive w live) (hstale : worldIsAlive w e = false) :
    Alive (worldDestroy w e) (live.erase e) := by
  have hnot : e ∉ live := fun he => by
    rw [h.isAlive he] at hstale
    exact absurd hstale (by decide)
  rw [List.erase_of_not_mem hnot]
  obtain ⟨d, hfew, hinv⟩ := h
  have halloc : (worldDestroy w e).alloc = w.alloc := entityAllocatorFree_of_not_alive hstale
  refine ⟨d, hfew, ?_, ?_, ?_, ?_, ?_, hinv.live_returned, ?_, hinv.spent⟩
  · intro t
    rw [table_worldDestroy]
    exact (setRemove_spec (hinv.sets t) e).1
  all_goals
    dsimp only
    rw [halloc]
  · exact hinv.fresh_le
  · exact hinv.ids
  · exact hinv.gens
  · exact hinv.live_gen
  · exact hinv.returned_lt

theorem Alive.storeName (h : Alive w live) (val namePtr nameLen : UInt64) :
    Alive (ecsBridgeStoreName w val namePtr nameLen) live := by
  obtain ⟨d, hfew, hinv⟩ := h
  exact ⟨d, hfew, hinv.edit (.insert .name (entityOf val) ⟨namePtr, nameLen⟩)⟩

end Alive

theorem entityVal_entityOf (val : UInt64) : entityVal (entityOf val) = val := by
  have hlow : (val &&& 0xFFFFFFFF).toNat = val.toNat % 2 ^ 32 := by
    rw [UInt64.toNat_and, show (0xFFFFFFFF : UInt64).toNat = 2 ^ 32 - 1 from rfl,
      Nat.and_two_pow_sub_one_eq_mod]
  have hhigh : (val >>> 32).toNat = val.toNat / 2 ^ 32 := by
    rw [UInt64.toNat_shiftRight, show (32 : UInt64).toNat % 64 = 32 from rfl, Nat.shiftRight_eq_div_pow]
  have hlt := val.toNat_lt
  unfold entityOf entityVal
  rw [← UInt64.toNat_inj, UInt64.toNat_or, UInt64.toNat_shiftLeft,
    show (32 : UInt64).toNat % 64 = 32 from rfl,
    UInt32.toNat_toUInt64, UInt32.toNat_toUInt64, UInt64.toNat_toUInt32, UInt64.toNat_toUInt32, hlow, hhigh,
    Nat.or_comm, Nat.mod_mod, Nat.mod_eq_of_lt (a := val.toNat / 2 ^ 32) (by omega), Nat.shiftLeft_eq,
    Nat.mul_comm, Nat.mod_eq_of_lt (b := 2 ^ 64) (by omega),
    ← Nat.two_pow_add_eq_or_of_lt (Nat.mod_lt _ (by decide)), Nat.div_add_mod]

/-! ### Bytes and rows -/

/-- The bytes `n` are in memory from `a` on. -/
def BytesAt (m : Mem) (a : UInt64) (n : List UInt8) : Prop :=
  ∀ j, j < n.length → m (a + UInt64.ofNat j) = n.getD j 0

theorem sameBytes_iff {m : Mem} {stored name : UInt64} {n k : List UInt8} (hn : BytesAt m stored n)
    (hk : BytesAt m name k) (hlen : n.length = k.length) (r j : Nat) (hj : j + r = n.length) :
    sameBytes m stored name r (UInt64.ofNat j) = true ↔ ∀ i, j ≤ i → i < n.length → n.getD i 0 =
      k.getD i 0 := by
  induction r generalizing j with
  | zero =>
    refine iff_of_true rfl fun i hle hlt => ?_
    omega
  | succ r ih =>
    have hsucc : UInt64.ofNat j + 1 = UInt64.ofNat (j + 1) := (UInt64.ofNat_add j 1).symm
    unfold sameBytes
    rw [hn j (by omega), hk j (by omega), hsucc]
    by_cases heq : n.getD j 0 = k.getD j 0
    · rw [if_neg (fun hne => bne_iff_ne.mp hne heq), ih (j + 1) (by omega)]
      constructor
      · intro h i hle hlt
        rcases Nat.eq_or_lt_of_le hle with rfl | hlt'
        · exact heq
        · exact h i hlt' hlt
      · exact fun h i hle => h i (by omega)
    · rw [if_pos (bne_iff_ne.mpr heq)]
      exact iff_of_false (by simp) fun h => heq (h j (le_refl j) (by omega))

theorem sameBytes_eq_true_iff {m : Mem} {stored name : UInt64} {n k : List UInt8} (hn : BytesAt m stored n)
    (hk : BytesAt m name k) (hlen : n.length = k.length) :
    sameBytes m stored name n.length 0 = true ↔ n = k := by
  rw [show (0 : UInt64) = UInt64.ofNat 0 from rfl, sameBytes_iff hn hk hlen n.length 0 (by omega)]
  constructor
  · intro h
    apply List.ext_getElem hlen
    intro i hi hi'
    have := h i (Nat.zero_le i) hi
    rwa [List.getD_eq_getElem _ _ hi, List.getD_eq_getElem _ _ hi'] at this
  · rintro rfl i _ _
    rfl

/-- The row `i` of the table of names. -/
def rowEntity (w : World) (i : Nat) : Entity := w.names.entityMap (UInt32.ofNat i)

def rowName (w : World) (i : Nat) : NameComponent := w.names.dense (UInt32.ofNat i)

/-- The number of rows. -/
def rows (w : World) : Nat := w.names.count.toNat

/-- The row `i` says that its entity has the name `n`. -/
def Row (w : World) (m : Mem) (i : Nat) (n : List UInt8) : Prop :=
  (rowName w i).nameLen.toNat = n.length ∧ BytesAt m (rowName w i).namePtr n

/-- **The loop of the lookup**: it ends at the first row with the name, and returns 0 if there is none. -/
theorem lookupRows_spec {w : World} {m : Mem} {nameKern nameLen : UInt64} {k : List UInt8}
    (hk : BytesAt m nameKern k) (hlen : nameLen.toNat = k.length) (names : Nat → List UInt8)
    (hrow : ∀ i < rows w, Row w m i (names i)) (r i : Nat) (hi : i + r = rows w) :
    (∃ j < rows w, names j = k ∧
      lookupRows w.names m nameKern nameLen r (UInt32.ofNat i) = entityVal (rowEntity w j)) ∨
    ((∀ j, i ≤ j → j < rows w → names j ≠ k) ∧
      lookupRows w.names m nameKern nameLen r (UInt32.ofNat i) = 0) := by
  induction r generalizing i with
  | zero => exact .inr ⟨fun j hle hlt => by omega, rfl⟩
  | succ r ih =>
    obtain ⟨hnlen, hbytes⟩ := hrow i (by omega)
    have hsucc : UInt32.ofNat i + 1 = UInt32.ofNat (i + 1) := (UInt32.ofNat_add i 1).symm
    unfold lookupRows
    rw [hsucc]
    change (∃ j < rows w, names j = k ∧ (if (rowName w i).nameLen == nameLen &&
        sameBytes m (rowName w i).namePtr nameKern nameLen.toNat 0 then entityVal (rowEntity w i)
        else _) = entityVal (rowEntity w j)) ∨ _ ∧ (if (rowName w i).nameLen == nameLen &&
        sameBytes m (rowName w i).namePtr nameKern nameLen.toNat 0 then entityVal (rowEntity w i)
        else _) = 0
    -- The row matches where its name is `k`.
    have hmatch : ((rowName w i).nameLen == nameLen &&
        sameBytes m (rowName w i).namePtr nameKern nameLen.toNat 0) = true ↔ names i = k := by
      rw [Bool.and_eq_true, beq_iff_eq, ← UInt64.toNat_inj, hnlen, hlen]
      constructor
      · rintro ⟨heq, hsame⟩
        rw [← heq] at hsame
        exact (sameBytes_eq_true_iff hbytes hk heq).mp hsame
      · intro heq
        have heqlen : (names i).length = k.length := by rw [heq]
        rw [← heqlen]
        exact ⟨rfl, (sameBytes_eq_true_iff hbytes hk heqlen).mpr heq⟩
    by_cases hfound : names i = k
    · rw [if_pos (hmatch.mpr hfound)]
      exact .inl ⟨i, by omega, hfound, rfl⟩
    · rw [if_neg (mt hmatch.mp hfound)]
      rcases ih (i + 1) (by omega) with hex | ⟨hnone, hzero⟩
      · exact .inl hex
      · refine .inr ⟨fun j hle hlt => ?_, hzero⟩
        rcases Nat.eq_or_lt_of_le hle with rfl | hlt'
        · exact hfound
        · exact hnone j hlt' hlt

/-! ### The invariant -/

/-- A page that `pmm` can hand out. -/
def IsPage (p : UInt64) : Prop := p ≠ 0 ∧ p.toNat % 4096 = 0

instance (p : UInt64) : Decidable (IsPage p) := inferInstanceAs (Decidable (p ≠ 0 ∧ p.toNat % 4096 = 0))

/-- The pages of the names. -/
def namePages (w : World) : List UInt64 :=
  (List.range (rows w)).map fun i => virtToPhys (rowName w i).namePtr

/-- The pages `P` are those of `pmm` and those of the names, each of them once.  A row has a live entity, with
the name of its last store; and a page that was handed out has been freed once, or not at all if it is the
page of a name. -/
structure Inv (P : List UInt64) (s : Kernel) : Prop where
  alive : Alive s.world s.live
  nodup : P.Nodup
  isPage : ∀ p ∈ P, IsPage p
  perm : (s.pool ++ namePages s.world).Perm P
  rowLive : ∀ i < rows s.world, rowEntity s.world i ∈ s.live
  row : ∀ i < rows s.world, ∃ n, s.stored (rowEntity s.world i) = some n ∧ n.length ≤ 4096 ∧
    Row s.world s.mem i n
  rowPage : ∀ i < rows s.world, physToVirt (virtToPhys (rowName s.world i).namePtr) =
    (rowName s.world i).namePtr
  nonzero : ∀ i < rows s.world, entityVal (rowEntity s.world i) ≠ 0
  hasRow : ∀ e n, s.stored e = some n → ∃ i < rows s.world, rowEntity s.world i = e
  freed : ∀ p, owner p s.ledger ≠ none → frees p s.ledger = if p ∈ namePages s.world then 0 else 1

section Inv

variable {P : List UInt64} {s : Kernel}

theorem Inv.pool_mem (h : Inv P s) {p : UInt64} (hp : p ∈ s.pool) : p ∈ P :=
  h.perm.mem_iff.mp (List.mem_append_left _ hp)

theorem Inv.namePages_mem (h : Inv P s) {p : UInt64} (hp : p ∈ namePages s.world) : p ∈ P :=
  h.perm.mem_iff.mp (List.mem_append_right _ hp)

theorem Inv.pool_not_named (h : Inv P s) {p : UInt64} (hp : p ∈ s.pool) : p ∉ namePages s.world := fun hn =>
  (List.nodup_append.mp (h.perm.nodup_iff.mpr h.nodup)).2.2 p hp p hn rfl

theorem mem_namePages {w : World} {i : Nat} (hi : i < rows w) :
    virtToPhys (rowName w i).namePtr ∈ namePages w :=
  List.mem_map.mpr ⟨i, List.mem_range.mpr hi, rfl⟩

theorem row_same {m' : Mem} {i : Nat} {n : List UInt8} {page : UInt64} (h : Inv P s) (hi : i < rows s.world)
    (hrow : Row s.world s.mem i n) (hlen : n.length ≤ 4096) (hpage : IsPage page)
    (hnot : page ∉ namePages s.world) (hsame : SameOutside [page] s.mem m') : Row s.world m' i n := by
  refine ⟨hrow.1, fun j hj => ?_⟩
  rw [← hrow.2 j hj]
  refine hsame _ fun f hf hon => hnot ?_
  rw [List.mem_singleton] at hf
  subst hf
  have hmem := mem_namePages hi
  have hname : OnPage (virtToPhys (rowName s.world i).namePtr)
      ((rowName s.world i).namePtr + UInt64.ofNat j) := by
    unfold OnPage
    rw [h.rowPage i hi]
    exact inBlock_add (by omega)
  rwa [onPage_unique (h.isPage _ (h.namePages_mem hmem)).2 hpage.2 hname hon] at hmem

/-- **A change beside the names** keeps the invariant: the world, the names and what is stored are the same,
and only a page that is no name's has changed. -/
theorem Inv.beside {s' : Kernel} {page : UInt64} (h : Inv P s) (hpage : IsPage page)
    (hnot : page ∉ namePages s.world) (hworld : s'.world = s.world) (hlive : s'.live = s.live)
    (hstored : s'.stored = s.stored) (hmem : SameOutside [page] s.mem s'.mem) (hpool : s'.pool.Perm s.pool)
    (hfreed : ∀ p, owner p s'.ledger ≠ none → frees p s'.ledger = if p ∈ namePages s.world then 0 else 1) :
    Inv P s' := by
  refine ⟨?_, h.nodup, h.isPage, ?_, ?_, ?_, ?_, ?_, ?_, ?_⟩
  · rw [hworld, hlive]
    exact h.alive
  · rw [hworld]
    exact (hpool.append_right _).trans h.perm
  all_goals rw [hworld]
  · rw [hlive]
    exact h.rowLive
  · intro i hi
    obtain ⟨n, hn, hlen, hrow⟩ := h.row i hi
    rw [hstored]
    exact ⟨n, hn, hlen, row_same h hi hrow hlen hpage hnot hmem⟩
  · exact h.rowPage
  · exact h.nonzero
  · rw [hstored]
    exact h.hasRow
  · exact hfreed

end Inv

/-! ### Pages that are handed out -/

section Pages

variable {P : List UInt64} {s : Kernel} {k : Nat} {page : UInt64} {caller : Caller}

theorem choice_eq_some (h : s.choice = some (k, page)) : s.pool[k]? = some page := by
  unfold Kernel.choice at h
  split at h
  case h_1 k' rest _ =>
    obtain ⟨p, hp, heq⟩ := Option.map_eq_some_iff.mp h
    obtain ⟨rfl, rfl⟩ := Prod.mk.inj heq
    exact hp
  case h_2 => exact nomatch h

theorem pmmAlloc_none (h : s.choice = none) : pmmAlloc caller s =
    (0, { s with choices := s.choices.tail }) := by
  unfold pmmAlloc
  rw [h]

theorem pmmAlloc_some (h : s.choice = some (k, page)) : pmmAlloc caller s =
    (page, { s with
      pool := s.pool.eraseIdx k
      choices := s.choices.tail
      ledger := .handed caller page :: s.ledger }) := by
  unfold pmmAlloc
  rw [h]

theorem Inv.choices (h : Inv P s) (choices : List (Option Nat)) : Inv P { s with choices := choices } :=
  ⟨h.alive, h.nodup, h.isPage, h.perm, h.rowLive, h.row, h.rowPage, h.nonzero, h.hasRow, h.freed⟩

theorem Inv.choice (h : Inv P s) (hchoice : s.choice = some (k, page)) :
    IsPage page ∧ page ∉ namePages s.world ∧ (page :: s.pool.eraseIdx k).Perm s.pool := by
  have hget := choice_eq_some hchoice
  have hmem := List.mem_of_getElem? hget
  obtain ⟨hk, hpage⟩ := List.getElem?_eq_some_iff.mp hget
  exact ⟨h.isPage _ (h.pool_mem hmem), h.pool_not_named hmem, hpage ▸ List.getElem_cons_eraseIdx_perm hk⟩

theorem sameOutside_link {m : Mem} {v : UInt64} : SameOutside [page] m (m.write64 (physToVirt page) v) := by
  intro x hx
  refine Mem.write64_of_not_mem fun hin => hx page List.mem_cons_self ?_
  unfold OnPage InBlock at *
  omega

/-- **A page that a call gets and gives back.** -/
theorem Inv.temporary {s' : Kernel} (h : Inv P s) (hchoice : s.choice = some (k, page))
    (hmem : SameOutside [page] s.mem s'.mem) (hworld : s'.world = s.world) (hlive : s'.live = s.live)
    (hstored : s'.stored = s.stored) (hpool : s'.pool = s.pool.eraseIdx k)
    (hledger : s'.ledger = .handed caller page :: s.ledger) : Inv P (pmmFree page s') := by
  obtain ⟨hpage, hnot, hperm⟩ := h.choice hchoice
  have hlink : SameOutside [page] s.mem (s'.mem.write64 (physToVirt page) s'.poolHead) :=
    hmem.trans sameOutside_link
  have hback : (page :: s'.pool).Perm s.pool := by
    rw [hpool]
    exact hperm
  unfold pmmFree
  refine h.beside hpage hnot hworld hlive hstored hlink hback fun p hp => ?_
  dsimp only at hp ⊢
  rw [owner_freed, hledger] at hp
  rw [hledger]
  by_cases heq : page = p
  · subst heq
    rw [frees_freed_self, frees_handed_self, if_neg hnot]
  · rw [frees_freed_of_ne heq, frees_handed_of_ne heq]
    rw [owner_handed_of_ne heq] at hp
    exact h.freed p hp

theorem sameOutside_copyIn {m : Mem} {f : Nat → UInt8} {n : Nat} (hn : n ≤ 4096) :
    SameOutside [page] m (Mem.copyIn f n (physToVirt page) m) := by
  intro x hx
  unfold Mem.copyIn
  refine if_neg fun hin => hx page List.mem_cons_self ?_
  unfold OnPage InBlock at *
  omega

end Pages

/-! ### A new row -/

section Insert

variable {w : World} {live : List Entity} {e : Entity} {c : NameComponent}

theorem rows_insert (h : Alive w live) (he : e ∈ live) (hlive : ∀ i < rows w, rowEntity w i ∈ live)
    (hnone : ∀ i < rows w, rowEntity w i ≠ e) {w' : World}
        (hw' : w' = { w with names := nameSetInsert w.names e c }) :
    rows w' = rows w + 1 ∧ rowEntity w' (rows w) = e ∧ rowName w' (rows w) = c ∧
      ∀ i < rows w, rowEntity w' i = rowEntity w i ∧ rowName w' i = rowName w i := by
  have hset : w.names.Inv := h.sets .name
  have hid := h.id_lt he
  have habsent : w.names.sparse e.id = invalid := by
    by_contra hpresent
    have hlt := hset.row_lt e.id hid hpresent
    have hrow := hset.row_id e.id hid hpresent
    have hi : (w.names.sparse e.id).toNat < rows w := UInt32.lt_iff_toNat_lt.mp hlt
    have heq : rowEntity w (w.names.sparse e.id).toNat = w.names.entityMap (w.names.sparse e.id) := by
      unfold rowEntity
      rw [UInt32.ofNat_toNat]
    refine hnone _ hi (h.eq_of_id (hlive _ hi) he ?_)
    rw [heq, hrow]
  have hroom : w.names.count < maxEntities := by
    by_contra hfull
    exact hset.present_of_full (UInt32.not_lt.mp hfull) hid habsent
  have hnames : w'.names =
      { dense := Function.update w.names.dense w.names.count c
        entityMap := Function.update w.names.entityMap w.names.count e
        sparse := Function.update w.names.sparse e.id w.names.count
        count := w.names.count + 1 } := by
    rw [hw']
    change setInsert w.names e c = _
    unfold setInsert
    dsimp only
    rw [if_neg (UInt32.not_le.mpr hid), if_neg (by simp [habsent]), if_neg (UInt32.not_le.mpr hroom)]
  have hne : ∀ i < rows w, UInt32.ofNat i ≠ w.names.count := fun i hi heq => by
    have := congrArg UInt32.toNat heq
    rw [toNat_row hi] at this
    exact absurd this (Nat.ne_of_lt hi)
  unfold rows rowEntity rowName
  rw [hnames]
  refine ⟨?_, ?_, ?_, fun i hi => ⟨?_, ?_⟩⟩
  · have hmax := UInt32.lt_iff_toNat_lt.mp hroom
    have hsize : maxEntities.toNat = 65536 := rfl
    rw [UInt32.toNat_add, UInt32.toNat_one]
    omega
  · dsimp only
    rw [UInt32.ofNat_toNat, Function.update_self]
  · dsimp only
    rw [UInt32.ofNat_toNat, Function.update_self]
  · exact Function.update_of_ne (hne i hi) e w.names.entityMap
  · exact Function.update_of_ne (hne i hi) c w.names.dense

end Insert

/-- **A store for a live entity without a name.** -/
theorem Inv.insert {P : List UInt64} {s s' : Kernel} {k : Nat} {page val nameLen : UInt64} {n : List UInt8}
    (h : Inv P s) (hchoice : s.choice = some (k, page)) (hval : val ≠ 0) (he : entityOf val ∈ s.live)
    (hnone : s.stored (entityOf val) = none) (hn : n.length ≤ 4096) (hlen : nameLen.toNat = n.length)
    (hmem : SameOutside [page] s.mem s'.mem) (hbytes : BytesAt s'.mem (physToVirt page) n)
    (hworld : s'.world = ecsBridgeStoreName s.world val (physToVirt page) nameLen) (hlive : s'.live = s.live)
    (hstored : s'.stored = Function.update s.stored (entityOf val) (some n))
    (hpool : s'.pool = s.pool.eraseIdx k)
        (hledger : s'.ledger = .handed .store page :: s.ledger) : Inv P s' := by
  obtain ⟨hpage, hnot, hperm⟩ := h.choice hchoice
  have hnew : ∀ i < rows s.world, rowEntity s.world i ≠ entityOf val := by
    intro i hi heq
    obtain ⟨n', hn', -⟩ := h.row i hi
    rw [heq, hnone] at hn'
    exact nomatch hn'
  obtain ⟨hrows, hentity, hname, hsame⟩ := rows_insert h.alive he h.rowLive hnew hworld
  have hpages : namePages s'.world = namePages s.world ++ [page] := by
    have hmap : (List.range (rows s.world)).map (fun i => virtToPhys (rowName s'.world i).namePtr) =
        namePages s.world :=
      List.map_congr_left fun i hi => by rw [(hsame i (List.mem_range.mp hi)).2]
    unfold namePages
    rw [hrows, List.range_succ, List.map_append, hmap, List.map_singleton, hname]
    dsimp only
    rw [virtToPhys_physToVirt]
    rfl
  -- A row of the new table is an old one or the last one.
  have hcases : ∀ i < rows s'.world, i < rows s.world ∨ i = rows s.world := fun i hi => by omega
  refine ⟨?_, h.nodup, h.isPage, ?_, fun i hi => ?_, fun i hi => ?_, fun i hi => ?_, fun i hi => ?_,
    fun e m hm => ?_,
    fun p hp => ?_⟩
  · rw [hworld, hlive]
    exact h.alive.storeName ..
  · rw [hpages, hpool]
    refine List.Perm.trans ?_ h.perm
    refine List.Perm.trans ?_ (hperm.append_right _)
    rw [← List.append_assoc]
    exact List.perm_append_comm
  · rw [hlive]
    rcases hcases i hi with hi | rfl
    · rw [(hsame i hi).1]
      exact h.rowLive i hi
    · rw [hentity]
      exact he
  · rw [hstored]
    rcases hcases i hi with hi | rfl
    · obtain ⟨n', hn', hlen', hrow⟩ := h.row i hi
      rw [(hsame i hi).1, Function.update_of_ne (hnew i hi)]
      refine ⟨n', hn', hlen', ?_⟩
      have hrow' := row_same h hi hrow hlen' hpage hnot hmem
      unfold Row at hrow' ⊢
      rwa [(hsame i hi).2]
    · rw [hentity, Function.update_self]
      refine ⟨n, rfl, hn, ?_⟩
      unfold Row
      rw [hname]
      exact ⟨hlen, hbytes⟩
  · rcases hcases i hi with hi | rfl
    · rw [(hsame i hi).2]
      exact h.rowPage i hi
    · rw [hname]
      dsimp only
      rw [virtToPhys_physToVirt]
  · rcases hcases i hi with hi | rfl
    · rw [(hsame i hi).1]
      exact h.nonzero i hi
    · rw [hentity, entityVal_entityOf]
      exact hval
  · rw [hstored] at hm
    by_cases heq : e = entityOf val
    · exact ⟨rows s.world, by omega, hentity.trans heq.symm⟩
    · rw [Function.update_of_ne heq] at hm
      obtain ⟨i, hi, hrow⟩ := h.hasRow e m hm
      exact ⟨i, by omega, (hsame i hi).1.trans hrow⟩
  · rw [hledger] at hp ⊢
    rw [hpages]
    by_cases heq : page = p
    · subst heq
      rw [frees_handed_self, if_pos (List.mem_append_right _ List.mem_cons_self)]
    · rw [owner_handed_of_ne heq] at hp
      rw [frees_handed_of_ne heq, h.freed p hp]
      simp [List.mem_append, Ne.symm heq]

/-! ### The calls -/

section Calls

variable {P : List UInt64} {s : Kernel} {val namePtr nameLen : UInt64} {user : List UInt8}

/-- The pointer or the length is refused. -/
def Refused (namePtr nameLen : UInt64) : Prop :=
  (namePtr = 0 ∨ nameLen = 0 ∨ nameLen > 4096) ∨ (!isValidUserPtr namePtr nameLen) = true

/-- A call that takes a name fails: the name is refused, `pmm_alloc` fails, or the bytes cannot be read. -/
def Fails (namePtr nameLen : UInt64) (user : List UInt8) (s : Kernel) : Prop :=
  Refused namePtr nameLen ∨ s.choice = none ∨ user.length < nameLen.toNat

theorem toInt64_pos {n : UInt64} (hpos : n ≠ 0) (hle : ¬ n > 4096) : ¬ n.toInt64 ≤ 0 := by
  have hzero : n.toNat ≠ 0 := fun h => hpos (UInt64.toNat_inj.mp h)
  have hmax : n.toNat ≤ 4096 := UInt64.le_iff_toNat_le.mp (UInt64.not_lt.mp hle)
  have hint : n.toInt64.toInt = n.toNat := by
    rw [← Int64.toInt_toBitVec]
    change n.toBitVec.toInt = _
    rw [BitVec.toInt_eq_toNat_of_lt]
    · rfl
    · rw [UInt64.toNat_toBitVec]
      omega
  rw [Int64.le_iff_toInt_le, hint]
  simp
  omega

theorem negative : (-1 : Int64) ≤ 0 := by
  decide

theorem bytesAt_copyIn {m : Mem} {a : UInt64} {n : Nat} (hn : n ≤ user.length) (hsmall : n ≤ 4096) :
    BytesAt (Mem.copyIn (fun i => user.getD i 0) n a m) a (user.take n) := by
  intro j hj
  rw [List.length_take, Nat.min_eq_left hn] at hj
  have hsub : (a + UInt64.ofNat j - a).toNat = j := by
    have : a + UInt64.ofNat j - a = UInt64.ofNat j := by grind
    rw [this, UInt64.toNat_ofNat', Nat.mod_eq_of_lt (by omega)]
  unfold Mem.copyIn
  rw [if_pos (inBlock_add hj), hsub]
  dsimp only
  rw [List.getD_eq_getElem?_getD, List.getD_eq_getElem?_getD, List.getElem?_take_of_lt hj]

theorem length_le (hrefused : ¬ Refused namePtr nameLen) : nameLen.toNat ≤ 4096 := by
  have hle : ¬ nameLen > 4096 := fun h => hrefused (.inl (.inr (.inr h)))
  exact UInt64.le_iff_toNat_le.mp (UInt64.not_lt.mp hle)

/-- A call has got `page` from `s`, and has copied a name to it: `bytes` is what the copy returns, and `s'`
the state after it. -/
structure Copied (s : Kernel) (caller : Caller) (k : Nat) (page nameLen : UInt64) (user : List UInt8)
    (bytes : Int64) (s' : Kernel) : Prop where
  mem : SameOutside [page] s.mem s'.mem
  world : s'.world = s.world
  live : s'.live = s.live
  stored : s'.stored = s.stored
  pool : s'.pool = s.pool.eraseIdx k
  ledger : s'.ledger = .handed caller page :: s.ledger
  /-- The copy fails where the bytes end before the name. -/
  short : user.length < nameLen.toNat → bytes ≤ 0
  long : nameLen.toNat ≤ user.length →
    ¬ bytes ≤ 0 ∧ bytes.toUInt64 = nameLen ∧ BytesAt s'.mem (physToVirt page) (user.take nameLen.toNat)

theorem copyFromUser_eq (hrefused : ¬ Refused namePtr nameLen) (dst : UInt64) (s : Kernel) :
    copyFromUser dst namePtr nameLen user s = (if user.length < nameLen.toNat then -1 else nameLen.toInt64,
      { s with mem := Mem.copyIn (fun i => user.getD i 0) (min user.length nameLen.toNat) dst s.mem }) := by
  unfold copyFromUser
  exact if_neg fun h => hrefused (.inr h)

theorem copied (hrefused : ¬ Refused namePtr nameLen) {k : Nat} {page : UInt64}
    (hchoice : s.choice = some (k, page)) (caller : Caller) (user : List UInt8) :
    ∃ s₁ bytes s₂, pmmAlloc caller s = (page, s₁) ∧
      copyFromUser (physToVirt page) namePtr nameLen user s₁ = (bytes, s₂) ∧
        Copied s caller k page nameLen user bytes s₂ := by
  have hzero : nameLen ≠ 0 := fun hz => hrefused (.inl (.inr (.inl hz)))
  have hmax : ¬ nameLen > 4096 := fun hm => hrefused (.inl (.inr (.inr hm)))
  have hle := length_le hrefused
  refine ⟨_, _, _, pmmAlloc_some hchoice, copyFromUser_eq hrefused _ _, ?_⟩
  refine ⟨sameOutside_copyIn (by omega), rfl, rfl, rfl, rfl, rfl, fun hshort => ?_, fun hlong => ?_⟩
  · rw [if_pos hshort]
    exact negative
  · rw [if_neg (Nat.not_lt.mpr hlong), Nat.min_eq_right hlong]
    exact ⟨toInt64_pos hzero hmax, rfl, bytesAt_copyIn hlong hle⟩

theorem sysEntityStore_eq (hval : val ≠ 0) (hrefused : ¬ Refused namePtr nameLen) {page : UInt64}
    {s₁ s₂ : Kernel}
    {bytes : Int64} (halloc : pmmAlloc .store s = (page, s₁)) (hpage : page ≠ 0)
    (hcopied : copyFromUser (physToVirt page) namePtr nameLen user s₁ = (bytes, s₂)) :
    sysEntityStore val namePtr nameLen user s = if bytes ≤ 0 then (0 - 1, pmmFree page s₂)
      else (0, { s₂ with world := ecsBridgeStoreName s₂.world val (physToVirt page) bytes.toUInt64 }) := by
  unfold sysEntityStore
  rw [if_neg hval, if_neg fun h => hrefused (.inl h), if_neg fun h => hrefused (.inr h), halloc]
  dsimp only
  rw [if_neg hpage, hcopied]

theorem sysEntityLookup_eq (hrefused : ¬ Refused namePtr nameLen) {page : UInt64} {s₁ s₂ : Kernel}
    {bytes : Int64}
    (halloc : pmmAlloc .lookup s = (page, s₁)) (hpage : page ≠ 0)
    (hcopied : copyFromUser (physToVirt page) namePtr nameLen user s₁ = (bytes, s₂)) :
    sysEntityLookup namePtr nameLen user s = if bytes ≤ 0 then (0, pmmFree page s₂)
      else (ecsBridgeLookupByName s₂.world s₂.mem (physToVirt page) bytes.toUInt64, pmmFree page s₂) := by
  unfold sysEntityLookup
  rw [if_neg fun h => hrefused (.inl h), if_neg fun h => hrefused (.inr h), halloc]
  dsimp only
  rw [if_neg hpage, hcopied]

theorem sysEntityLookup_refused (hrefused : Refused namePtr nameLen) :
    sysEntityLookup namePtr nameLen user s = (0, s) := by
  unfold sysEntityLookup
  rcases hrefused with hfirst | hsecond
  · rw [if_pos hfirst]
  · rw [if_pos hsecond, ite_self]

theorem sysEntityStore_refused (hrefused : val = 0 ∨ Refused namePtr nameLen) :
    sysEntityStore val namePtr nameLen user s = (0 - 1, s) := by
  unfold sysEntityStore
  rcases hrefused with hval | hfirst | hsecond
  · rw [if_pos hval]
  · rw [if_pos hfirst, ite_self]
  · rw [if_pos hsecond, ite_self, ite_self]

theorem sysEntityLookup_none (hrefused : ¬ Refused namePtr nameLen) (hchoice : s.choice = none) :
    sysEntityLookup namePtr nameLen user s = (0, { s with choices := s.choices.tail }) := by
  unfold sysEntityLookup
  rw [if_neg fun h => hrefused (.inl h), if_neg fun h => hrefused (.inr h), pmmAlloc_none hchoice]
  exact if_pos rfl

theorem sysEntityStore_none (hval : val ≠ 0) (hrefused : ¬ Refused namePtr nameLen)
    (hchoice : s.choice = none) :
    sysEntityStore val namePtr nameLen user s = (0 - 1, { s with choices := s.choices.tail }) := by
  unfold sysEntityStore
  rw [if_neg hval, if_neg fun h => hrefused (.inl h), if_neg fun h => hrefused (.inr h),
    pmmAlloc_none hchoice]
  exact if_pos rfl

/-- A live entity whose last store was the bytes `n`. -/
def Named (s : Kernel) (n : List UInt8) : Prop :=
  ∃ e ∈ s.live, s.stored e = some n

/-- A lookup of `n` answers `r`: a live entity with this name, or 0 where there is none. -/
def Finds (s : Kernel) (n : List UInt8) (r : UInt64) : Prop :=
  (r ≠ 0 → ∃ e ∈ s.live, s.stored e = some n ∧ r = entityVal e) ∧ (r = 0 ↔ ¬ Named s n)

/-- **The search for a name** that is on a page of the call. -/
theorem search_spec (h : Inv P s) {m : Mem} {page : UInt64} (hpage : IsPage page)
    (hnot : page ∉ namePages s.world) (hmem : SameOutside [page] s.mem m)
        (hlong : nameLen.toNat ≤ user.length)
    (hname : BytesAt m (physToVirt page) (user.take nameLen.toNat)) :
    Finds s (user.take nameLen.toNat) (ecsBridgeLookupByName s.world m (physToVirt page) nameLen) := by
  have hklen : nameLen.toNat = (user.take nameLen.toNat).length := by
    rw [List.length_take, Nat.min_eq_left hlong]
  -- The names of the rows are those of the last stores.
  have hnames : ∀ i < rows s.world, s.stored (rowEntity s.world i) =
      some ((s.stored (rowEntity s.world i)).getD []) := by
    intro i hi
    obtain ⟨n, hn, -⟩ := h.row i hi
    rw [hn, Option.getD_some]
  have hrow : ∀ i < rows s.world, Row s.world m i ((s.stored (rowEntity s.world i)).getD []) := by
    intro i hi
    obtain ⟨n, hn, hnlen, hrow⟩ := h.row i hi
    rw [hn, Option.getD_some]
    exact row_same h hi hrow hnlen hpage hnot hmem
  have hloop := lookupRows_spec hname hklen _ hrow (rows s.world) 0 (Nat.zero_add _)
  change (∃ j < rows s.world, _ ∧ ecsBridgeLookupByName s.world m (physToVirt page) nameLen = _) ∨
    _ ∧ ecsBridgeLookupByName s.world m (physToVirt page) nameLen = 0 at hloop
  generalize ecsBridgeLookupByName s.world m (physToVirt page) nameLen = r at hloop ⊢
  refine ⟨fun hne => ?_, ?_⟩
  · rcases hloop with ⟨j, hj, hfound, heq⟩ | ⟨-, heq⟩
    · exact ⟨_, h.rowLive j hj, (hnames j hj).trans (congrArg some hfound), heq⟩
    · exact absurd heq hne
  · rcases hloop with ⟨j, hj, hfound, heq⟩ | ⟨hnone, heq⟩
    · refine iff_of_false (heq.trans_ne (h.nonzero j hj)) (not_not.mpr ⟨_, h.rowLive j hj, ?_⟩)
      exact (hnames j hj).trans (congrArg some hfound)
    · refine iff_of_true heq ?_
      rintro ⟨e, -, he⟩
      obtain ⟨i, hi, rfl⟩ := h.hasRow e _ he
      refine hnone i (Nat.zero_le i) hi ?_
      rw [he, Option.getD_some]

/-- **`sys_entity_lookup`.**  It finds the live entity with the name, unless it fails, when it answers 0. -/
theorem lookup_spec (h : Inv P s) (namePtr nameLen : UInt64) (user : List UInt8) :
    Inv P (sysEntityLookup namePtr nameLen user s).2 ∧
      (Fails namePtr nameLen user s → (sysEntityLookup namePtr nameLen user s).1 = 0) ∧
      (¬ Fails namePtr nameLen user s →
        Finds s (user.take nameLen.toNat) (sysEntityLookup namePtr nameLen user s).1) := by
  by_cases hrefused : Refused namePtr nameLen
  · rw [sysEntityLookup_refused hrefused]
    exact ⟨h, fun _ => rfl, fun hok => absurd (.inl hrefused) hok⟩
  cases hchoice : s.choice with
  | none =>
    rw [sysEntityLookup_none hrefused hchoice]
    exact ⟨h.choices _, fun _ => rfl, fun hok => absurd (.inr (.inl hchoice)) hok⟩
  | some choice =>
    obtain ⟨k, page⟩ := choice
    obtain ⟨hpage, hnot, -⟩ := h.choice hchoice
    obtain ⟨s₁, bytes, s₂, halloc, hcopy, hs⟩ := copied hrefused hchoice .lookup user
    have hinv := h.temporary hchoice hs.mem hs.world hs.live hs.stored hs.pool hs.ledger
    rw [sysEntityLookup_eq hrefused halloc hpage.1 hcopy]
    by_cases hshort : user.length < nameLen.toNat
    · rw [if_pos (hs.short hshort)]
      exact ⟨hinv, fun _ => rfl, fun hok => absurd (.inr (.inr hshort)) hok⟩
    · have hlong := Nat.not_lt.mp hshort
      obtain ⟨hpos, hword, hname⟩ := hs.long hlong
      rw [if_neg hpos, hword, hs.world]
      refine ⟨hinv, fun hfails => ?_, fun _ => search_spec h hpage hnot hs.mem hlong hname⟩
      rcases hfails with hr | hn | hs'
      · exact absurd hr hrefused
      · rw [hchoice] at hn
        exact nomatch hn
      · exact absurd hs' hshort

theorem exec_store {r : UInt64} {s' : Kernel} (hcall : sysEntityStore val namePtr nameLen user s = (r, s')) :
    (Op.store val namePtr nameLen user).exec s = (r, { s' with
      stored := if r = 0 then Function.update s.stored (entityOf val) (some (user.take nameLen.toNat))
        else s.stored }) := by
  simp only [Op.exec, hcall]

theorem pmmFree_stored (page : UInt64) (s : Kernel) : (pmmFree page s).stored = s.stored := by
  unfold pmmFree
  generalize s.mem.write64 (physToVirt page) s.poolHead = m
  rfl

theorem exec_store_failed {s' : Kernel} (hcall : sysEntityStore val namePtr nameLen user s = (0 - 1, s'))
    (hstored : s'.stored = s.stored) : (Op.store val namePtr nameLen user).exec s = (0 - 1, s') := by
  have hminus : (0 - 1 : UInt64) ≠ 0 := by decide
  rw [exec_store hcall, if_neg hminus, ← hstored]

/-- **`sys_entity_store`.**  It returns 0 unless it fails, and then a live entity without a name gets one. -/
theorem store_spec (h : Inv P s)
    (hok : (val = 0 ∨ Fails namePtr nameLen user s) ∨ entityOf val ∈ s.live ∧
        s.stored (entityOf val) = none) :
    Inv P (step s (.store val namePtr nameLen user)) ∧
      (((Op.store val namePtr nameLen user).exec s).1 = 0 ↔ ¬ (val = 0 ∨ Fails namePtr nameLen user s)) := by
  have hminus : (0 - 1 : UInt64) ≠ 0 := by decide
  unfold step
  by_cases hrefused : val = 0 ∨ Refused namePtr nameLen
  · rw [exec_store_failed (sysEntityStore_refused hrefused) rfl]
    exact ⟨h, iff_of_false hminus (not_not.mpr (hrefused.imp_right .inl))⟩
  obtain ⟨hval, hname⟩ := not_or.mp hrefused
  cases hchoice : s.choice with
  | none =>
    rw [exec_store_failed (sysEntityStore_none hval hname hchoice) rfl]
    exact ⟨h.choices _, iff_of_false hminus (not_not.mpr (.inr (.inr (.inl hchoice))))⟩
  | some choice =>
    obtain ⟨k, page⟩ := choice
    obtain ⟨hpage, hnot, -⟩ := h.choice hchoice
    obtain ⟨s₁, bytes, s₂, halloc, hcopy, hs⟩ := copied hname hchoice .store user
    have hcall := sysEntityStore_eq hval hname halloc hpage.1 hcopy
    by_cases hshort : user.length < nameLen.toNat
    · rw [if_pos (hs.short hshort)] at hcall
      have hinv := h.temporary hchoice hs.mem hs.world hs.live hs.stored hs.pool hs.ledger
      rw [exec_store_failed hcall ((pmmFree_stored page s₂).trans hs.stored)]
      exact ⟨hinv, iff_of_false hminus (not_not.mpr (.inr (.inr (.inr hshort))))⟩
    · have hlong := Nat.not_lt.mp hshort
      have hle := length_le hname
      obtain ⟨hpos, hword, hbytes⟩ := hs.long hlong
      have hfails : ¬ (val = 0 ∨ Fails namePtr nameLen user s) := by
        rintro (hz | hr | hn | hs')
        · exact hval hz
        · exact hname hr
        · rw [hchoice] at hn
          exact nomatch hn
        · exact hshort hs'
      obtain ⟨he, hnone⟩ := hok.resolve_left hfails
      rw [if_neg hpos, hword, hs.world] at hcall
      have hexec : (Op.store val namePtr nameLen user).exec s = (0, { s₂ with
          world := ecsBridgeStoreName s.world val (physToVirt page) nameLen
          stored := Function.update s.stored (entityOf val) (some (user.take nameLen.toNat)) }) := by
        rw [exec_store hcall, if_pos rfl]
      have hklen : nameLen.toNat = (user.take nameLen.toNat).length := by
        rw [List.length_take, Nat.min_eq_left hlong]
      rw [hexec]
      refine ⟨h.insert hchoice hval he hnone (by omega) hklen ?_ ?_ ?_ ?_ ?_ ?_ ?_, iff_of_true rfl hfails⟩
      all_goals dsimp only
      · exact hs.mem
      · exact hbytes
      · exact hs.live
      · exact hs.pool
      · exact hs.ledger

end Calls

/-! ### Entities -/

section Entities

variable {P : List UInt64} {s : Kernel}

theorem Inv.handles (h : Inv P s) {w : World} {live : List Entity} (hnames : w.names = s.world.names)
    (halive : Alive w live) (hlive : ∀ i < rows s.world, rowEntity s.world i ∈ live) :
    Inv P { s with world := w, live := live } := by
  have hrows : rows w = rows s.world := by rw [rows, rows, hnames]
  have hentity : rowEntity w = rowEntity s.world := by
    funext i
    rw [rowEntity, rowEntity, hnames]
  have hname : rowName w = rowName s.world := by
    funext i
    rw [rowName, rowName, hnames]
  have hpages : namePages w = namePages s.world := by rw [namePages, namePages, hrows, hname]
  have hrow : Row w = Row s.world := by
    funext m i n
    rw [Row, Row, hname]
  constructor <;> try dsimp only
  · exact halive
  · exact h.nodup
  · exact h.isPage
  · rw [hpages]
    exact h.perm
  · rw [hrows, hentity]
    exact hlive
  · rw [hrows, hentity, hrow]
    exact h.row
  · rw [hrows, hname]
    exact h.rowPage
  · rw [hrows, hentity]
    exact h.nonzero
  · rw [hrows, hentity]
    exact h.hasRow
  · rw [hpages]
    exact h.freed

theorem spawn_spec (h : Inv P s) : Inv P (step s .spawn) := by
  refine h.handles (w := (worldSpawn s.world).2) rfl h.alive.spawn fun i hi => ?_
  split
  case isTrue => exact h.rowLive i hi
  case isFalse => exact List.mem_cons_of_mem _ (h.rowLive i hi)

theorem nameSetRemove_eq_self {w : World} (h : w.SetsInv) {e : Entity}
    (hnone : ∀ i < rows w, rowEntity w i ≠ e) :
    nameSetRemove w.names e = w.names := by
  have hset : w.names.Inv := h .name
  change setRemove w.names e = _
  unfold setRemove
  dsimp only
  by_cases hid : e.id ≥ maxEntities
  · rw [if_pos hid]
  by_cases habsent : w.names.sparse e.id = invalid
  · rw [if_neg hid, if_neg (by simp [habsent])]
  have hlt := UInt32.not_le.mp hid
  have hgen : (w.names.entityMap (w.names.sparse e.id)).gen ≠ e.gen := by
    intro hgen
    refine hnone (w.names.sparse e.id).toNat (UInt32.lt_iff_toNat_lt.mp (hset.row_lt e.id hlt habsent)) ?_
    unfold rowEntity
    rw [UInt32.ofNat_toNat]
    exact eq_of_id_of_gen (hset.row_id e.id hlt habsent) hgen
  rw [if_neg hid, if_pos (bne_iff_ne.mpr habsent), if_neg (by simp [hgen])]

/-- **An entity without a name is destroyed**, or its handle is not alive. -/
theorem destroy_spec (h : Inv P s) {e : Entity} (hnone : s.stored e = none)
    (hlive : e ∈ s.live ∨ worldIsAlive s.world e = false) : Inv P (step s (.destroy e)) := by
  have hrow : ∀ i < rows s.world, rowEntity s.world i ≠ e := by
    intro i hi heq
    obtain ⟨n, hn, -⟩ := h.row i hi
    rw [heq, hnone] at hn
    exact nomatch hn
  refine h.handles (w := worldDestroy s.world e) (nameSetRemove_eq_self h.alive.sets hrow) ?_ fun i hi => ?_
  · exact hlive.elim h.alive.destroy h.alive.destroy_stale
  · exact (List.mem_erase_of_ne (hrow i hi)).mpr (h.rowLive i hi)

end Entities

/-! ### Runs -/

/-- Where a call is as it should be: a store is for a live entity without a name, a destroyed entity is live
(or its handle is not alive) and has no name, and a failing lookup is for a name that no live entity has. -/
def Op.Sound (s : Kernel) : Op → Prop
  | .spawn => True
  | .destroy e => s.stored e = none ∧ (e ∈ s.live ∨ worldIsAlive s.world e = false)
  | .store val namePtr nameLen user =>
    (val = 0 ∨ Fails namePtr nameLen user s) ∨ entityOf val ∈ s.live ∧ s.stored (entityOf val) = none
  | .lookup namePtr nameLen user => Fails namePtr nameLen user s → ¬ Named s (user.take nameLen.toNat)

/-- The page `p` keeps the name of a live entity. -/
def Keeps (s : Kernel) (p : UInt64) : Prop :=
  ∃ e ∈ s.live, s.stored e ≠ none ∧ ∃ c, getComponent s.world.names e = some c ∧ c.namePtr = physToVirt p

/-- A page that was last handed out to a store keeps a name, and then it is not given back; otherwise it was
given back once. -/
def PagesReleased (s : Kernel) : Prop :=
  ∀ p, owner p s.ledger = some .store →
    Keeps s p ∧ frees p s.ledger = 0 ∧ p ∉ s.pool ∨ ¬ Keeps s p ∧ frees p s.ledger = 1

/-- Names resolve to live entities in the run `ops` from `s`, and their pages are released. -/
def NamesResolve (s : Kernel) (ops : List Op) : Prop :=
  (∀ before namePtr nameLen user after, ops = before ++ Op.lookup namePtr nameLen user :: after →
    Finds (runOps step s before) (user.take nameLen.toNat)
      (sysEntityLookup namePtr nameLen user (runOps step s before)).1) ∧
    PagesReleased (runOps step s ops)

section Runs

variable {P : List UInt64} {s : Kernel}

theorem inv_boot (b : (t : Table) → Blocks t.Component) (m : Mem) (poolHead : UInt64)
    (choices : List (Option Nat)) (hnodup : P.Nodup) (hpage : ∀ p ∈ P, IsPage p) :
    Inv P (boot (newWorld b) m P poolHead choices) where
  alive := alive_newWorld b
  nodup := hnodup
  isPage := hpage
  perm := by
    change (P ++ []).Perm P
    rw [List.append_nil]
  rowLive := fun i hi => absurd hi (Nat.not_lt_zero i)
  row := fun i hi => absurd hi (Nat.not_lt_zero i)
  rowPage := fun i hi => absurd hi (Nat.not_lt_zero i)
  nonzero := fun i hi => absurd hi (Nat.not_lt_zero i)
  hasRow := fun _ _ h => nomatch h
  freed := fun _ h => absurd rfl h

theorem Inv.step (h : Inv P s) (op : Op) (hok : op.Sound s) : Inv P (Names.step s op) := by
  cases op with
  | spawn => exact spawn_spec h
  | destroy e => exact destroy_spec h hok.1 hok.2
  | store val namePtr nameLen user => exact (store_spec h hok).1
  | lookup namePtr nameLen user => exact (lookup_spec h namePtr nameLen user).1

theorem Inv.keeps_iff (h : Inv P s) {p : UInt64} : Keeps s p ↔ p ∈ namePages s.world := by
  have hset : s.world.names.Inv := h.alive.sets .name
  constructor
  · rintro ⟨e, -, -, c, hc, hptr⟩
    obtain ⟨i, hi, -, hdense⟩ := row_of_getComponent hset hc
    have hin := mem_namePages (w := s.world) (i := i.toNat) (UInt32.lt_iff_toNat_lt.mp hi)
    unfold rowName at hin
    rwa [UInt32.ofNat_toNat, hdense, hptr, virtToPhys_physToVirt] at hin
  · intro hp
    obtain ⟨i, hi, rfl⟩ := List.mem_map.mp hp
    have hi := List.mem_range.mp hi
    obtain ⟨n, hn, -⟩ := h.row i hi
    refine ⟨rowEntity s.world i, h.rowLive i hi, fun hnone => ?_, rowName s.world i, ?_,
      (h.rowPage i hi).symm⟩
    · rw [hn] at hnone
      exact nomatch hnone
    · refine getComponent_row hset (UInt32.lt_iff_toNat_lt.mpr ?_)
      rw [toNat_row hi]
      exact hi

theorem Inv.pagesReleased (h : Inv P s) : PagesReleased s := by
  intro p hp
  have hfreed := h.freed p (by simp [hp])
  by_cases hin : p ∈ namePages s.world
  · rw [if_pos hin] at hfreed
    exact .inl ⟨h.keeps_iff.mpr hin, hfreed, fun hpool => h.pool_not_named hpool hin⟩
  · rw [if_neg hin] at hfreed
    exact .inr ⟨mt h.keeps_iff.mp hin, hfreed⟩

/-- **Names resolve to live entities, and their pages are released**, in every run whose calls are sound. -/
theorem names_resolve (b : (t : Table) → Blocks t.Component) (m : Mem) (pool : List UInt64)
    (poolHead : UInt64)
    (choices : List (Option Nat)) (hnodup : pool.Nodup) (hpage : ∀ p ∈ pool, IsPage p) {ops : List Op}
    (hops : Admissible step Op.Sound (boot (newWorld b) m pool poolHead choices) ops) :
    NamesResolve (boot (newWorld b) m pool poolHead choices) ops := by
  have hrun : ∀ {ops}, Admissible step Op.Sound (boot (newWorld b) m pool poolHead choices) ops →
      Inv pool (runOps step (boot (newWorld b) m pool poolHead choices) ops) :=
    runOps_induction (fun s op h hok => Inv.step h op hok) (inv_boot b m poolHead choices hnodup hpage)
  refine ⟨?_, (hrun hops).pagesReleased⟩
  rintro before namePtr nameLen user after rfl
  obtain ⟨hbefore, hsound⟩ := hops.split
  obtain ⟨-, hfails, hfinds⟩ := lookup_spec (hrun hbefore) namePtr nameLen user
  by_cases hfail : Fails namePtr nameLen user
      (runOps step (boot (newWorld b) m pool poolHead choices) before)
  · rw [hfails hfail]
    exact ⟨fun hne => absurd rfl hne, iff_of_true rfl (hsound hfail)⟩
  · exact hfinds hfail

end Runs

/-- A kernel with two pages. -/
def firstKernel : Kernel :=
  boot (newWorld zeroBlocks) (fun _ => 0) [0x1000, 0x2000] 0 [some 0, some 0]

theorem isPage_firstPages : ∀ p ∈ [(0x1000 : UInt64), 0x2000], IsPage p :=
  List.forall_mem_cons.mpr ⟨by decide, List.forall_mem_singleton.mpr (by decide)⟩

/-- The first entity gets a name of two bytes, and is looked up. -/
def firstName : List Op :=
  [.spawn, .store 0x100000000 0x400000 2 [107, 101], .lookup 0x400000 2 [107, 101]]

/-- The first entity is destroyed while it has a name. -/
def namedDestroyed : List Op :=
  [.spawn, .store 0x100000000 0x400000 2 [107, 101], .destroy ⟨0, 1⟩]

theorem names_resolve_firstName : NamesResolve firstKernel firstName := by
  apply names_resolve zeroBlocks (fun _ => 0) [0x1000, 0x2000] 0 [some 0, some 0] (by decide)
    isPage_firstPages
  refine ⟨trivial, .inr ⟨List.mem_cons_self, rfl⟩, fun hfails => ?_, trivial⟩
  exact absurd hfails (by unfold Fails Refused; decide)

theorem not_namesReleased : ¬ ∀ (b : (t : Table) → Blocks t.Component) (m : Mem) (pool : List UInt64)
    (poolHead : UInt64) (choices : List (Option Nat)), pool.Nodup → (∀ p ∈ pool, IsPage p) → ∀ ops : List Op,
    NamesResolve (boot (newWorld b) m pool poolHead choices) ops := by
  intro h
  have hrun := (h zeroBlocks (fun _ => 0) [0x1000, 0x2000] 0 [some 0, some 0] (by decide)
    isPage_firstPages namedDestroyed).2 0x1000 (by decide)
  rcases hrun with ⟨⟨e, he, -⟩, -⟩ | ⟨-, hfrees⟩
  · change e ∈ [] at he
    exact absurd he List.not_mem_nil
  · exact absurd hfrees (by decide)

end Keuos.Names
