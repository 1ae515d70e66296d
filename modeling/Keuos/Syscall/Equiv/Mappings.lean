import Keuos.Lib.Run
import Keuos.Syscall.Capability
import Keuos.Syscall.Equiv.Areas
import Mathlib.Data.Bool.AllAny

/-!
# Mappings of a process

`sys_mmap`, `ring_mmap` and `sys_ring_map` all map pages at `mmap_base` of the process and move it on.
The ranges that they answer are disjoint and mapped (`MmapLaws`) as long as each call is one for which
the end of the range does not wrap around, every page that gets a frame lies below the address limit,
and gets its tables (`MapOk`).  Otherwise `map_user_page` does nothing for some page, and the call
succeeds nevertheless.

## Main results

* `mappings_of_served`: the law, for runs of such calls.
* `not_mmapLaws_wrap`: a length for which the range ends at address 0 moves `mmap_base` back to 0.
-/

namespace Keuos.Syscall

open Process Paging
open Pmm (physToVirt)
open Slab (Cache NewPage OnlyPages freeListHead)

/-! ### Calls -/

/-- The calls that map pages for the running process. -/
inductive MapOp where
  | mmap (length prot : UInt64)
  | ringMmap (length prot : UInt64)
  | ringMap (capabilityId : UInt64)
  deriving DecidableEq, Repr

/-- The call, with the cache of the areas at `base`. -/
def MapOp.call (base : UInt64) (s : CapMachine) : MapOp → UInt64 × CapMachine
  | mmap length prot =>
    let r := sysMmap (Slab.alloc base) s.toMachine length prot
    (r.1, { s with toMachine := r.2 })
  | ringMmap length prot =>
    let r := Syscall.ringMmap (Slab.alloc base) s.toMachine s.procs.currentPid length prot
    (r.1, { s with toMachine := r.2 })
  | ringMap capabilityId => sysRingMap s capabilityId

/-- The state after a call. -/
def mapExec (base : UInt64) (s : CapMachine) (op : MapOp) : CapMachine :=
  (op.call base s).2

/-- The bytes that a call asks for. -/
def MapOp.request : MapOp → Nat
  | mmap length _ => length.toNat
  | ringMmap length _ => length.toNat
  | ringMap _ => 4096

/-- The bytes of the range that a call answers. -/
def MapOp.span : MapOp → Nat
  | mmap length _ => (pageEnd length).toNat
  | ringMmap length _ => (pageEnd length).toNat
  | ringMap _ => 4096

/-- The range that a call answers, if it succeeds. -/
def MapOp.range (base : UInt64) (s : CapMachine) (op : MapOp) : Option (Nat × Nat) :=
  let start := (op.call base s).1
  if start = 0 then none else some (start.toNat, start.toNat + op.span)

/-- The ranges that the calls of a run answer. -/
def ranges (base : UInt64) : CapMachine → List MapOp → List (Nat × Nat)
  | _, [] => []
  | s, op :: ops => (op.range base s).toList ++ ranges base (mapExec base s op) ops

/-- A range lies in the user half, is as long as requested, and is mapped. -/
structure GoodRange (s : Machine) (request : Nat) (r : Nat × Nat) : Prop where
  below : r.2 ≤ 2 ^ 47
  long : request ≤ r.2 - r.1
  mapped : ∀ v : UInt64, r.1 ≤ v.toNat → v.toNat < r.2 →
    translateUserAddr s.vm.mem s.caller.userPml4 v ≠ 0

/-- The law of the mappings, for the calls `ops` from `s₀` on. -/
structure MmapLaws (base : UInt64) (s₀ : CapMachine) (ops : List MapOp) : Prop where
  disjoint : (ranges base s₀ ops).Pairwise fun r r' => r.2 ≤ r'.1 ∨ r'.2 ≤ r.1
  good : ∀ before op after, ops = before ++ op :: after →
    let s := runOps (mapExec base) s₀ before
    ∀ r, op.range base s = some r → GoodRange (mapExec base s op).toMachine op.request r
  grows : ∀ before op after, ops = before ++ op :: after →
    let s := runOps (mapExec base) s₀ before
    s.caller.mmapBase ≤ (mapExec base s op).caller.mmapBase

/-- The requests for memory that map what they take frames for. -/
def MmapOk (base : UInt64) (s : Machine) (length : UInt64) : Prop :=
  let start := s.caller.mmapBase
  let alignedLength := pageEnd length
  alignedLength = 0 ∨ VmaFails s.vm base ∨
    (start.toNat + alignedLength.toNat < 2 ^ 64 ∧
      Served (· < userAddrLimit) (tabled s.vm.mem s.caller.userPml4)
        (pagesFrom (alignedLength.toNat / 4096) start) (answersAfterVma s.vm base))

/-- The calls that map what they take frames for. -/
def MapOk (base : UInt64) (s : CapMachine) : MapOp → Prop
  | .mmap length _ => MmapOk base s.toMachine length
  | .ringMmap length _ => MmapOk base s.toMachine length
  | .ringMap capabilityId =>
    ringMapAllowed s.caps s.procs.currentPid capabilityId = false ∨
      Served (· < userAddrLimit) (tabled s.vm.mem s.caller.userPml4) [s.caller.mmapBase] s.vm.answers

/-- A process with mappings up to `mmap_base`, which is the end of a page. -/
structure MapStart (roots : Set UInt64) (reg base : UInt64) (s : Machine) : Prop where
  root : s.caller.userPml4 ∈ roots
  store : ∃ pages free, Store roots reg base s.vm pages free
  aligned : PageAligned s.caller.mmapBase

/-! ### One call -/

/-- `span` bytes have been mapped at the end of the mappings. -/
structure Extended (s s' : Machine) (span : Nat) : Prop where
  pml4 : s'.caller.userPml4 = s.caller.userPml4
  base : s'.caller.mmapBase.toNat = s.caller.mmapBase.toNat + span
  below : s.caller.mmapBase.toNat + span ≤ 2 ^ 47
  mapped : ∀ v : UInt64, s.caller.mmapBase.toNat ≤ v.toNat → v.toNat < s.caller.mmapBase.toNat + span →
    translateUserAddr s'.vm.mem s'.caller.userPml4 v ≠ 0

section Call

variable {roots : Set UInt64} {reg base : UInt64} {s : Machine}

theorem le_pageEnd {length : UInt64} (h : pageEnd length ≠ 0) : length.toNat ≤ (pageEnd length).toNat := by
  by_cases hwrap : length.toNat + 4095 < 2 ^ 64
  · rw [toNat_pageEnd hwrap]
    omega
  · exfalso
    apply h
    have hlt := length.toNat_lt
    rw [← UInt64.toNat_inj]
    unfold pageEnd
    rw [UInt64.toNat_and, show (0xFFFFFFFFFFFFF000 : UInt64).toNat = 2 ^ 64 - 2 ^ 12 from rfl,
      and_highBits (by decide) (length + 0xFFF).toNat_lt, UInt64.toNat_add,
      show (0xFFF : UInt64).toNat = 4095 from rfl, UInt64.toNat_zero]
    omega

theorem end_le_limit {n : Nat} {start : UInt64} (haligned : PageAligned start) (hpos : 0 < n)
    (hbound : start.toNat + 4096 * n < 2 ^ 64) (h : ∀ w ∈ pagesFrom n start, w < userAddrLimit) :
    start.toNat + 4096 * n ≤ 2 ^ 47 := by
  unfold PageAligned at haligned
  obtain ⟨w, hw⟩ : ∃ w : UInt64, w.toNat = start.toNat + 4096 * (n - 1) := by
    refine ⟨UInt64.ofNat (start.toNat + 4096 * (n - 1)), ?_⟩
    rw [UInt64.toNat_ofNat', Nat.mod_eq_of_lt (by omega)]
  have hlt := toNat_lt_of_user (h w ((mem_pagesFrom hbound).mpr ⟨n - 1, by omega, hw⟩))
  omega

theorem caller_modify₂ (p : Procs) (f g : Pcb → Pcb) (vm : Vm) :
    Machine.caller ⟨(p.modify p.currentPid f).modify p.currentPid g, vm⟩ =
      g (f (p.table p.currentPid)) := by
  refine (modify_self (p.modify p.currentPid f) p.currentPid g).trans ?_
  rw [modify_self]

theorem Extended.of_caller {s' : Machine} {span : Nat} {b : Pcb} (hcaller : s'.caller = b)
    (hpml4 : b.userPml4 = s.caller.userPml4)
    (hbase : b.mmapBase.toNat = s.caller.mmapBase.toNat + span)
    (hbelow : s.caller.mmapBase.toNat + span ≤ 2 ^ 47)
    (hframes : ∀ v : UInt64, s.caller.mmapBase.toNat ≤ v.toNat →
      v.toNat < s.caller.mmapBase.toNat + span → HasFrame (leaf s'.vm.mem s.caller.userPml4 v)) :
    Extended s s' span := by
  refine ⟨?_, ?_, hbelow, ?_⟩
  · rw [hcaller, hpml4]
  · rw [hcaller, hbase]
  · intro v hv hlt
    rw [hcaller, hpml4]
    exact (hframes v hv hlt).translate

/-- **The loop at the end of the mappings.** -/
theorem extend_spec {vm : Vm} {root start : UInt64} {n : Nat} (hroot : root ∈ roots)
    (haligned : PageAligned start) (htables : Tables roots vm.mem)
    (hsupply : Supply roots vm.mem vm.answers) (hbound : start.toNat + 4096 * n < 2 ^ 64) (hpos : 0 < n)
    {known : List UInt64 → Bool} (hknown : ∀ q, UserPath q → known q = tabled vm.mem root q)
    (hserved : Served (· < userAddrLimit) known (pagesFrom n start) vm.answers) {stop : UInt64}
    (hstop : start.toNat + 4096 * n = stop.toNat) :
    ∃ ok vm' mapped used, mapFresh vm root start stop = (ok, vm') ∧
      Filled roots root vm vm' mapped used ∧
      (ok = true → start.toNat + 4096 * n ≤ 2 ^ 47 ∧
        ∀ v : UInt64, start.toNat ≤ v.toNat → v.toNat < start.toNat + 4096 * n →
          v < userAddrLimit ∧ HasFrame (leaf vm'.mem root v)) := by
  obtain ⟨ok, vm', k, used, hloop, -, hall, hfits, hfilled⟩ := mapFreshFrom_spec
    (fun _ hv => hv) hroot hstop htables hsupply hknown hserved
  refine ⟨ok, vm', _, used, ?_, hfilled, ?_⟩
  · unfold mapFresh
    rw [show (stop.toNat - start.toNat) / 4096 = n from by omega]
    exact hloop
  · intro hok
    rw [hall hok] at hfits hfilled
    refine ⟨end_le_limit haligned hpos hbound hfits, ?_⟩
    intro v hv hlt
    exact hfilled.covers hfits haligned hbound hv hlt

/-- **`sys_mmap`** fails and leaves the process alone, or extends its mappings. -/
theorem sysMmap_spec {length : UInt64} (prot : UInt64) (hs : MapStart roots reg base s)
    (hok : MmapOk base s length) :
    ∃ result s' pages free, sysMmap (Slab.alloc base) s length prot = (result, s') ∧
      Store roots reg base s'.vm pages free ∧
      ((result = 0 ∧ s'.procs = s.procs) ∨ (result = s.caller.mmapBase ∧ pageEnd length ≠ 0 ∧
        Extended s s' (pageEnd length).toNat)) := by
  obtain ⟨pages, free, hstore⟩ := hs.store
  unfold sysMmap
  dsimp only
  by_cases hzero : pageEnd length = 0
  · rw [if_pos (beq_iff_eq.mpr hzero)]
    exact ⟨0, s, pages, free, rfl, hstore, .inl ⟨rfl, rfl⟩⟩
  rw [if_neg (by simpa using hzero)]
  obtain ⟨-, hvma⟩ | ⟨p, m, pages', free', hvmaOk, hvma, hp, hused, hsame, hstore'⟩ :=
    hstore.vmaAlloc s.caller.mmapBase (s.caller.mmapBase + pageEnd length) prot
  · -- no object for the area
    rw [hvma, if_pos (beq_self_eq_true _)]
    refine ⟨0, _, pages, free, rfl, ?_, .inl ⟨rfl, rfl⟩⟩
    cases hanswers : s.vm.answers with
    | nil =>
      have hnil := hstore
      rw [show s.vm = ⟨s.vm.mem, []⟩ from by rw [← hanswers]] at hnil
      exact hnil
    | cons a rest => exact hstore.tail hanswers
  rw [hvma, if_neg (by simpa using hp)]
  obtain ⟨hbound, hserved⟩ := (hok.resolve_left hzero).resolve_left hvmaOk
  have hmod := toNat_pageEnd_mod length
  have hpos : (pageEnd length).toNat ≠ 0 := fun h => hzero (UInt64.toNat_inj.mp h)
  have hstop : s.caller.mmapBase.toNat + 4096 * ((pageEnd length).toNat / 4096) =
      (s.caller.mmapBase + pageEnd length).toNat := by
    rw [UInt64.toNat_add, Nat.mod_eq_of_lt hbound]
    omega
  obtain ⟨ok, vm', mapped, used, hloop, hfilled, hall⟩ := extend_spec hs.root hs.aligned
    hstore'.tables hstore'.supply (by omega) (by omega)
    (fun q hq => (hsame.tabled hs.root hq).symm) hserved hstop
  have hstore₂ := hstore'.filled hs.root hfilled
  rw [hloop]
  cases ok with
  | false => exact ⟨0, _, pages', free', rfl, hstore₂, .inl ⟨rfl, rfl⟩⟩
  | true =>
    obtain ⟨hbelow, hframes⟩ := hall rfl
    -- the link to the next area is in the object
    generalize hhead : ((s.procs.modify s.procs.currentPid
      fun b => { b with mmapBase := s.caller.mmapBase + pageEnd length }).table
        s.procs.currentPid).vmaListHead = head
    obtain ⟨hsame₃, hstore₃⟩ := hstore₂.write hused
      (show ∀ y, ¬ InBlock p 40 y → vm'.mem.write64 (p + 24) head y = vm'.mem y from
        fun y hy => write64_outside (i := 24) (by omega) hy _ _)
    refine ⟨_, _, pages', free', rfl, hstore₃, .inr ⟨rfl, hzero, ?_⟩⟩
    refine Extended.of_caller (caller_modify₂ s.procs _ _ _) rfl ?_ ?_ ?_
    · rw [← hstop]
      omega
    · omega
    · intro v hv hlt
      obtain ⟨huser, hframe⟩ := hframes v hv (by omega)
      dsimp only
      rw [hsame₃.leaf hs.root huser]
      exact hframe

theorem onlyPages_writeRingHeader (m : Mem) (a : UInt64) : OnlyPages m (writeRingHeader m a) [a] := by
  intro y hy
  have hnot := hy a (List.mem_singleton.mpr rfl)
  have hword : ∀ (m : Mem) (v : UInt64) (off : Nat), off + 8 ≤ 4096 →
      m.write64 (physToVirt a + UInt64.ofNat off) v y = m y := by
    intro m v off hoff
    refine Mem.write64_of_not_mem fun hin => hnot ?_
    have := (inBlock_offset_iff (by omega)).mp hin
    unfold InBlock
    omega
  have hfirst : m.write64 (physToVirt a) 0 y = m y :=
    Mem.write64_of_not_mem fun hin => hnot (hin.mono (by omega))
  exact (hword _ 0 128 (by omega)).trans ((hword _ 0 64 (by omega)).trans
    ((hword _ dataCapacity 8 (by omega)).trans hfirst))

/-- **Stores to a page** that is neither a table nor a page of the cache. -/
theorem Store.write_page {vm : Vm} {pages free : List UInt64} (h : Store roots reg base vm pages free)
    {a : UInt64} {m' : Mem} (honly : OnlyPages vm.mem m' [a]) (haligned : PageAligned a)
    (hnot : ∀ r ∈ roots, ∀ q, UserPath q → table vm.mem r q ≠ some a) (hcache : a ∉ reg :: pages) :
    SameEntries roots vm.mem m' ∧ Store roots reg base ⟨m', vm.answers⟩ pages free := by
  have hsame : SameEntries roots vm.mem m' := by
    refine SameEntries.of_onlyPages h.tables honly ?_ ?_
    · intro f hf
      rw [List.mem_singleton.mp hf]
      exact haligned
    · intro f hf
      rw [List.mem_singleton.mp hf]
      exact hnot
  refine ⟨hsame, h.of_same hsame (h.cache.congr_pages ?_)⟩
  intro f hf y hy
  refine honly y ?_
  intro g hg hin
  rw [List.mem_singleton.mp hg] at hin
  have hne : f ≠ a := by
    rintro rfl
    exact hcache hf
  exact pages_disjoint (h.cache.aligned f hf) haligned hne y hy hin

/-- **`sys_ring_map`** fails and leaves the process alone, or extends its mappings by a page. -/
theorem sysRingMap_spec {s : CapMachine} {capabilityId : UInt64}
    (hs : MapStart roots reg base s.toMachine)
    (hok : ringMapAllowed s.caps s.procs.currentPid capabilityId = false ∨
      Served (· < userAddrLimit) (tabled s.vm.mem s.caller.userPml4) [s.caller.mmapBase] s.vm.answers) :
    ∃ result s' pages free, sysRingMap s capabilityId = (result, s') ∧
      Store roots reg base s'.vm pages free ∧
      ((result = 0 ∧ s'.procs = s.procs) ∨
        (result = s.caller.mmapBase ∧ Extended s.toMachine s'.toMachine 4096)) := by
  obtain ⟨pages, free, hstore⟩ := hs.store
  unfold sysRingMap
  dsimp only
  by_cases hallowed : ringMapAllowed s.caps s.procs.currentPid capabilityId = false
  · rw [hallowed, if_pos (by decide)]
    exact ⟨0, s, pages, free, rfl, hstore, .inl ⟨rfl, rfl⟩⟩
  have hserved := hok.resolve_left hallowed
  rw [Bool.not_eq_false] at hallowed
  rw [hallowed, if_neg (by decide)]
  cases hanswers : s.vm.answers with
  | nil =>
    have hnone : s.vm.alloc = (0, s.vm) := by
      unfold Vm.alloc
      rw [hanswers]
    rw [hnone, if_pos (beq_self_eq_true _)]
    exact ⟨0, _, pages, free, rfl, hstore, .inl ⟨rfl, rfl⟩⟩
  | cons a answers =>
    have halloc : s.vm.alloc = (a, ⟨s.vm.mem, answers⟩) := by
      unfold Vm.alloc
      rw [hanswers]
    rw [halloc]
    by_cases ha : a = 0
    · rw [if_pos (beq_iff_eq.mpr ha)]
      exact ⟨0, _, pages, free, rfl, hstore.tail hanswers, .inl ⟨rfl, rfl⟩⟩
    rw [if_neg (by simpa using ha)]
    have hsupply := hstore.supply
    rw [hanswers] at hsupply hserved
    have hframe : FreshFrame roots s.vm.mem a := hsupply.frame (List.mem_cons_self ..) ha
    have hnew := hstore.new a (by rw [hanswers]; exact List.mem_cons_self ..) ha
    obtain ⟨used, rest, m', hsplit, hmap, hpage, hrest, hfit, -, -⟩ := served_page (fun _ hv => hv)
      hs.root hstore.tables hsupply ha (fun _ _ => rfl) hserved
    have hbase := toNat_lt_of_user hfit
    have hfilled : Filled roots s.caller.userPml4 s.vm ⟨m', rest⟩ (pagesFrom 1 s.caller.mmapBase)
        (a :: (used ++ [])) := by
      refine Filled.cons hs.root hfit hframe ?_ hpage
        (Filled.nil hpage.tables (show rest = [] ++ rest from rfl) (by simp) hrest) (by simp [pagesFrom])
      rw [hanswers, hsplit]
    have hstore' := hstore.filled hs.root hfilled
    -- the frame is not one of the new tables
    have hnot : ∀ r ∈ roots, ∀ q, UserPath q → table m' r q ≠ some a := by
      intro r hr q hq hx
      obtain hold | hmem := hpage.adds r hr q hq a hx
      · exact hframe.not_table r hr q hq hold
      · refine hsupply.not_mem ha ?_
        rw [hsplit]
        exact List.mem_append_left _ hmem
    have hcache : a ∉ reg :: pages := by
      intro hin
      obtain heq | hin := List.mem_cons.mp hin
      · exact hnew.registry heq
      · exact hnew.new hin
    obtain ⟨hsame, hstore₃⟩ := hstore'.write_page (onlyPages_writeRingHeader m' a) hnew.aligned hnot
      hcache
    rw [hmap]
    refine ⟨_, _, pages, free, rfl, hstore₃, .inr ⟨rfl, ?_⟩⟩
    have haligned := hs.aligned
    refine Extended.of_caller (caller_modify ..) rfl ?_ ?_ ?_
    · exact toNat_add_pageSize (v := s.caller.mmapBase) (by omega)
    · unfold PageAligned at haligned
      omega
    · intro v hv hlt
      obtain ⟨huser, hframes⟩ := hfilled.covers (k := 1)
        (by intro w hw; rw [List.mem_singleton.mp hw]; exact hfit) haligned (by omega) hv (by omega)
      dsimp only
      rw [hsame.leaf hs.root huser]
      exact hframes

end Call

/-! ### Runs -/

section Runs

variable {roots : Set UInt64} {reg base : UInt64} {s : CapMachine} {op : MapOp}

theorem call_mmap_spec {length : UInt64} (prot : UInt64) (hs : MapStart roots reg base s.toMachine)
    (hok : MmapOk base s.toMachine length) :
    ∃ result s' pages free, (MapOp.mmap length prot).call base s = (result, s') ∧
      Store roots reg base s'.vm pages free ∧
      ((result = 0 ∧ s'.procs = s.procs) ∨ (result = s.caller.mmapBase ∧
        length.toNat ≤ (pageEnd length).toNat ∧ (pageEnd length).toNat % 4096 = 0 ∧
          Extended s.toMachine s'.toMachine (pageEnd length).toNat)) := by
  obtain ⟨result, s', pages, free, hcall, hstore, hcases⟩ := sysMmap_spec prot hs hok
  refine ⟨result, { s with toMachine := s' }, pages, free, ?_, hstore, ?_⟩
  · unfold MapOp.call
    dsimp only
    rw [hcall]
  · obtain hfail | ⟨hres, hne, hext⟩ := hcases
    · exact .inl hfail
    · exact .inr ⟨hres, le_pageEnd hne, toNat_pageEnd_mod length, hext⟩

/-- **One call** fails and leaves the process alone, or extends its mappings. -/
theorem call_spec (hs : MapStart roots reg base s.toMachine) (hok : MapOk base s op) :
    ∃ result s' pages free, op.call base s = (result, s') ∧ Store roots reg base s'.vm pages free ∧
      ((result = 0 ∧ s'.procs = s.procs) ∨ (result = s.caller.mmapBase ∧ op.request ≤ op.span ∧
        op.span % 4096 = 0 ∧ Extended s.toMachine s'.toMachine op.span)) := by
  cases op with
  | mmap length prot => exact call_mmap_spec prot hs hok
  | ringMmap length prot => exact call_mmap_spec prot hs hok
  | ringMap capabilityId =>
    obtain ⟨result, s', pages, free, hcall, hstore, hfail | ⟨hres, hext⟩⟩ := sysRingMap_spec hs hok
    · exact ⟨result, s', pages, free, hcall, hstore, .inl hfail⟩
    · exact ⟨result, s', pages, free, hcall, hstore,
        .inr ⟨hres, Nat.le_refl _, Nat.mod_self 4096, hext⟩⟩

/-- What a call does to a process with good mappings. -/
structure MapStep (roots : Set UInt64) (reg base : UInt64) (s : CapMachine) (op : MapOp) : Prop where
  start : MapStart roots reg base (mapExec base s op).toMachine
  grows : s.caller.mmapBase.toNat ≤ (mapExec base s op).caller.mmapBase.toNat
  range : ∀ r, op.range base s = some r → r.1 = s.caller.mmapBase.toNat ∧
    r.2 = (mapExec base s op).caller.mmapBase.toNat ∧
    GoodRange (mapExec base s op).toMachine op.request r

/-- **The step lemma.** -/
theorem MapStart.step (hs : MapStart roots reg base s.toMachine) (hok : MapOk base s op) :
    MapStep roots reg base s op := by
  obtain ⟨result, s', pages, free, hcall, hstore, ⟨rfl, hprocs⟩ | ⟨rfl, hlong, hmod, hext⟩⟩ :=
    call_spec hs hok
  · have hexec : mapExec base s op = s' := congrArg Prod.snd hcall
    have hcaller : s'.caller = s.caller := by
      unfold Machine.caller
      rw [hprocs]
    refine ⟨⟨?_, ⟨pages, free, ?_⟩, ?_⟩, ?_, ?_⟩
    · rw [hexec, hcaller]
      exact hs.root
    · rw [hexec]
      exact hstore
    · rw [hexec, hcaller]
      exact hs.aligned
    · rw [hexec, hcaller]
    · intro r hr
      unfold MapOp.range at hr
      rw [hcall] at hr
      exact absurd hr (by simp)
  · have hexec : mapExec base s op = s' := congrArg Prod.snd hcall
    have haligned := hs.aligned
    refine ⟨⟨?_, ⟨pages, free, ?_⟩, ?_⟩, ?_, ?_⟩
    · rw [hexec, hext.pml4]
      exact hs.root
    · rw [hexec]
      exact hstore
    · unfold PageAligned at haligned ⊢
      rw [hexec, hext.base]
      omega
    · rw [hexec, hext.base]
      exact Nat.le_add_right _ _
    · intro r hr
      unfold MapOp.range at hr
      rw [hcall] at hr
      dsimp only at hr
      split at hr
      · exact absurd hr (by simp)
      · obtain rfl := Option.some.inj hr
        rw [hexec, hext.base]
        refine ⟨rfl, rfl, hext.below, ?_, hext.mapped⟩
        dsimp only
        omega

theorem MapStart.run (hs : MapStart roots reg base s.toMachine) {ops : List MapOp}
    (hok : Admissible (mapExec base) (MapOk base) s ops) :
    MapStart roots reg base (runOps (mapExec base) s ops).toMachine :=
  runOps_induction (I := fun s : CapMachine => MapStart roots reg base s.toMachine)
    (fun _ _ hs hstep => (hs.step hstep).start) hs hok

theorem ranges_sorted (hs : MapStart roots reg base s.toMachine) {ops : List MapOp}
    (hok : Admissible (mapExec base) (MapOk base) s ops) :
    (∀ r ∈ ranges base s ops, s.caller.mmapBase.toNat ≤ r.1) ∧
      (ranges base s ops).Pairwise fun r r' => r.2 ≤ r'.1 ∨ r'.2 ≤ r.1 := by
  induction ops generalizing s with
  | nil => exact ⟨by simp [ranges], List.Pairwise.nil⟩
  | cons op ops ih =>
    have hstep := hs.step hok.1
    obtain ⟨hafter, hpairs⟩ := ih hstep.start hok.2
    have hgrows := hstep.grows
    rw [ranges]
    cases hr : op.range base s with
    | none =>
      rw [Option.toList_none, List.nil_append]
      exact ⟨fun r hmem => Nat.le_trans hgrows (hafter r hmem), hpairs⟩
    | some r =>
      obtain ⟨hfirst, hlast, -⟩ := hstep.range r hr
      rw [Option.toList_some, List.singleton_append]
      refine ⟨?_, List.pairwise_cons.mpr ⟨?_, hpairs⟩⟩
      · intro r' hmem
        obtain rfl | hmem := List.mem_cons.mp hmem
        · exact Nat.le_of_eq hfirst.symm
        · exact Nat.le_trans hgrows (hafter r' hmem)
      · intro r' hmem
        refine .inl ?_
        rw [hlast]
        exact hafter r' hmem

end Runs

/-- **The law of the mappings**, for calls that map what they take frames for. -/
theorem mappings_of_served (roots : Set UInt64) (reg base : UInt64) (s₀ : CapMachine)
    (hs₀ : MapStart roots reg base s₀.toMachine) (ops : List MapOp)
    (hok : Admissible (mapExec base) (MapOk base) s₀ ops) : MmapLaws base s₀ ops := by
  have hat : ∀ before op after, ops = before ++ op :: after →
      MapStep roots reg base (runOps (mapExec base) s₀ before) op := by
    intro before op after hops
    rw [hops] at hok
    obtain ⟨hbefore, hstep⟩ := hok.split
    exact (hs₀.run hbefore).step hstep
  refine ⟨(ranges_sorted hs₀ hok).2, ?_, ?_⟩
  · intro before op after hops s r hr
    exact ((hat before op after hops).range r hr).2.2
  · intro before op after hops s
    rw [UInt64.le_iff_toNat_le]
    exact (hat before op after hops).grows

/-! ### Runs -/

/-- A process with the page tables at `0x1000` and mappings from `0x400000000000` on. -/
def mapProc (answers : List UInt64) : CapMachine where
  procs := { Procs.zero with
    table := fun _ => { Pcb.zero with userPml4 := 0x1000, mmapBase := 0x400000000000 } }
  vm := ⟨areaMem, answers⟩
  caps := ⟨fun _ => 0, fun _ => 0, fun _ => 0, fun _ => 0, fun _ => 0⟩

theorem mapStart_mapProc {answers : List UInt64} (hnodup : (answers.filter (· != 0)).Nodup)
    (hanswers : ∀ a ∈ answers, a ≠ 0 → PageAligned a ∧ a.toNat < 2 ^ 31 ∧ a ≠ 0x1000 ∧ a ≠ 0x9000) :
    MapStart {0x1000} 0x9000 (physToVirt 0x9000) (mapProc answers).toMachine := by
  refine ⟨rfl, ⟨[], [], store_areaMem hnodup hanswers⟩, ?_⟩
  show PageAligned 0x400000000000
  unfold PageAligned
  decide

theorem mapStart_fivePages :
    MapStart {0x1000} 0x9000 (physToVirt 0x9000)
      (mapProc [0x2000, 0x3000, 0x4000, 0x5000, 0x6000]).toMachine := by
  refine mapStart_mapProc (by decide) ?_
  intro a ha _
  unfold PageAligned
  simp only [List.mem_cons, List.not_mem_nil, or_false] at ha
  obtain rfl | rfl | rfl | rfl | rfl := ha
  · decide
  · decide
  · decide
  · decide
  · decide

theorem wants_areaMem {v : UInt64} (hv : v < userAddrLimit) :
    wants (tabled areaMem 0x1000) [] (path v) = 3 := by
  rw [← wants_zero 0x1000 v]
  exact wants_congr (fun q hq => sameEntries_areaMem.tabled rfl hq) (userPath_path hv)

theorem mapOk_fivePages :
    MapOk (physToVirt 0x9000) (mapProc [0x2000, 0x3000, 0x4000, 0x5000, 0x6000]) (.mmap 1 7) := by
  refine .inr (.inr ⟨by decide, ?_⟩)
  have hhead : freeListHead areaMem (physToVirt 0x9000) = 0 := cache_areaMem.1.links
  have hrest : answersAfterVma ⟨areaMem, [0x2000, 0x3000, 0x4000, 0x5000, 0x6000]⟩ (physToVirt 0x9000) =
      [0x3000, 0x4000, 0x5000, 0x6000] := by
    unfold answersAfterVma
    rw [if_pos hhead]
    rfl
  show Served (· < userAddrLimit) (tabled areaMem 0x1000) [0x400000000000]
    (answersAfterVma ⟨areaMem, [0x2000, 0x3000, 0x4000, 0x5000, 0x6000]⟩ (physToVirt 0x9000))
  rw [hrest]
  refine .inr ⟨by decide, ?_⟩
  rw [wants_areaMem (by decide)]
  exact ⟨Nat.le_refl 3, List.all_iff_forall_prop.mp (by decide), trivial⟩

/-- One byte, and so one page. -/
theorem mappings_of_served_fivePages :
    MapStart {0x1000} 0x9000 (physToVirt 0x9000)
        (mapProc [0x2000, 0x3000, 0x4000, 0x5000, 0x6000]).toMachine ∧
      MmapLaws (physToVirt 0x9000) (mapProc [0x2000, 0x3000, 0x4000, 0x5000, 0x6000]) [.mmap 1 7] := by
  have hok : Admissible (mapExec (physToVirt 0x9000)) (MapOk (physToVirt 0x9000))
      (mapProc [0x2000, 0x3000, 0x4000, 0x5000, 0x6000]) [.mmap 1 7] := ⟨mapOk_fivePages, trivial⟩
  exact ⟨mapStart_fivePages, mappings_of_served {0x1000} 0x9000 _ _ mapStart_fivePages _ hok⟩

theorem sysMmap_of_wrap {roots : Set UInt64} {reg base : UInt64} {s : Machine}
    (length prot : UInt64) (hs : MapStart roots reg base s) (hne : pageEnd length ≠ 0)
    (hvma : ¬ VmaFails s.vm base) (hwrap : 2 ^ 64 ≤ s.caller.mmapBase.toNat + (pageEnd length).toNat) :
    ∃ s', sysMmap (Slab.alloc base) s length prot = (s.caller.mmapBase, s') ∧
      s'.caller.mmapBase = s.caller.mmapBase + pageEnd length := by
  obtain ⟨pages, free, hstore⟩ := hs.store
  obtain ⟨hfail, -⟩ | ⟨p, m, pages', free', -, hcall, hp, -, -, -⟩ :=
    hstore.vmaAlloc s.caller.mmapBase (s.caller.mmapBase + pageEnd length) prot
  · exact absurd hfail hvma
  have hlt := (pageEnd length).toNat_lt
  have hempty : ∀ vm, mapFresh vm s.caller.userPml4 s.caller.mmapBase
      (s.caller.mmapBase + pageEnd length) = (true, vm) := by
    intro vm
    have hnat : (s.caller.mmapBase + pageEnd length).toNat - s.caller.mmapBase.toNat = 0 := by
      rw [UInt64.toNat_add]
      omega
    unfold mapFresh
    rw [hnat, Nat.zero_div]
    rfl
  unfold sysMmap
  dsimp only
  rw [if_neg (by simpa using hne), hcall, if_neg (by simpa using hp), hempty]
  refine ⟨_, rfl, ?_⟩
  exact congrArg Pcb.mmapBase (caller_modify₂ s.procs _ _ _)

theorem mapExec_mmap {base length prot result : UInt64} {s : CapMachine} {s' : Machine}
    (h : sysMmap (Slab.alloc base) s.toMachine length prot = (result, s')) :
    mapExec base s (.mmap length prot) = { s with toMachine := s' } := by
  unfold mapExec MapOp.call
  dsimp only
  rw [h]

/-- **A length up to the end of the address space** moves `mmap_base` to 0. -/
theorem not_mmapLaws_wrap :
    MapStart {0x1000} 0x9000 (physToVirt 0x9000) (mapProc [0x2000]).toMachine ∧
      ¬ MmapLaws (physToVirt 0x9000) (mapProc [0x2000]) [.mmap 0xFFFFC00000000000 7] := by
  have hstart : MapStart {0x1000} 0x9000 (physToVirt 0x9000) (mapProc [0x2000]).toMachine := by
    refine mapStart_mapProc (by decide) ?_
    intro a ha _
    rw [List.mem_singleton.mp ha]
    unfold PageAligned
    decide
  refine ⟨hstart, ?_⟩
  intro hlaws
  have hvma : ¬ VmaFails (mapProc [0x2000]).vm (physToVirt 0x9000) := fun hfail =>
    absurd (show (0x2000 : UInt64) = 0 from hfail.2) (by decide)
  obtain ⟨s', hcall, hbase⟩ := sysMmap_of_wrap 0xFFFFC00000000000 7 hstart (by decide) hvma
    (by decide)
  have hgrows := hlaws.grows [] (.mmap 0xFFFFC00000000000 7) [] rfl
  simp only [runOps_nil, mapExec_mmap hcall, hbase] at hgrows
  exact absurd hgrows (by decide)

end Keuos.Syscall
