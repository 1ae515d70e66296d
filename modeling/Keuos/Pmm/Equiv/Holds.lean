import Keuos.Pmm.Equiv.FreeLists

/-!
# Held pages are on no free list

`Inv` ties the free lists to the holds on pages: the listed pages lie in the regions that were added
and nobody holds them, and the reference count of a held page is the number of its holds.  The count
is an 8-bit number, and only pages below index 32768 have one.  A `retain` of any other page, or the
256th hold of a page, is lost, and the next `free` lists a page that is still held
(`held_page_listed`).  In every run without such a `retain` the lists stay sound
(`freeLists_sound_of_countable`).
-/

namespace Keuos.Pmm

/-! ### The functions when no lock is held -/

/-- No lock is held. -/
def Unlocked (s : PmmState) : Prop :=
  ∀ c, (s.shards c).lock = 0

/-- The state while a core's lock is held. -/
def locked (s : PmmState) (core : Cpu) : PmmState :=
  s.setShard core { s.shards core with lock := 1 }

theorem acquireLock_eq {s : PmmState} (h : Unlocked s) (core : Cpu) :
    acquireLock s core = some (locked s core) := by
  unfold acquireLock
  rw [h core]
  rfl

@[simp] theorem head_locked (s : PmmState) (core : Cpu) :
    ((locked s core).shards core).head = (s.shards core).head := by
  simp [locked, PmmState.setShard]

@[simp] theorem count_locked (s : PmmState) (core : Cpu) :
    ((locked s core).shards core).count = (s.shards core).count := by
  simp [locked, PmmState.setShard]

theorem releaseLock_locked {s : PmmState} (h : Unlocked s) (core : Cpu) :
    releaseLock (locked s core) core = s := by
  have hshard : ({ s.shards core with lock := 0 } : PmmCoreState) = s.shards core := by
    rw [← h core]
  simp [releaseLock, locked, PmmState.setShard, hshard]

theorem releaseLock_popPage {s : PmmState} (h : Unlocked s) (core : Cpu) :
    releaseLock (popPage (locked s core) core) core = popPage s core := by
  simp [releaseLock, popPage, locked, PmmState.setShard, h core]

theorem releaseLock_pushPage {s : PmmState} (h : Unlocked s) (core : Cpu) (page : UInt64) :
    releaseLock (pushPage (locked s core) core page) core = pushPage s core page := by
  simp [releaseLock, pushPage, locked, PmmState.setShard, h core]

@[simp] theorem mem_countAllocated (s : PmmState) (page : UInt64) :
    (countAllocated s page).mem = s.mem := by
  simp only [countAllocated]
  split_ifs <;> rfl

@[simp] theorem shards_countAllocated (s : PmmState) (page : UInt64) :
    (countAllocated s page).shards = s.shards := by
  simp only [countAllocated]
  split_ifs <;> rfl

theorem refcounts_countAllocated (s : PmmState) (page : UInt64) :
    (countAllocated s page).refcounts =
      if page / pageSize < maxRefcounts then Function.update s.refcounts (page / pageSize) 1
      else s.refcounts := by
  simp only [countAllocated]
  split_ifs <;> rfl

/-- The state from which the first page of a list was unlinked. -/
def Stolen (s : PmmState) (r : UInt64 × PmmState) : Prop :=
  r = (0, s) ∨ ∃ v, (s.shards v).head ≠ 0 ∧ r = ((s.shards v).head, popPage s v)

theorem stealFrom_spec {s : PmmState} (h : Unlocked s) (thief : Cpu) (victims : List Cpu) :
    ∃ r, stealFrom s thief victims = some r ∧ Stolen s r := by
  induction victims with
  | nil => exact ⟨_, rfl, Or.inl rfl⟩
  | cons victim rest ih =>
    unfold stealFrom
    rw [acquireLock_eq h]
    simp only [head_locked, count_locked, releaseLock_locked h, releaseLock_popPage h]
    split_ifs with h₁ h₂ h₃
    · exact ⟨_, rfl, Or.inr ⟨victim, bne_iff_ne.mp h₃, rfl⟩⟩
    · exact ih
    · exact ih
    · exact ih

/-- **`alloc` returns, either null or the first page of some list.** -/
theorem alloc_spec {s : PmmState} (h : Unlocked s) (cpu : Cpu) :
    alloc s cpu = some (0, s) ∨ ∃ v, (s.shards v).head ≠ 0 ∧
      alloc s cpu =
        some ((s.shards v).head, countAllocated (popPage s v) (s.shards v).head) := by
  unfold alloc
  rw [acquireLock_eq h]
  simp only [head_locked, releaseLock_locked h, releaseLock_popPage h]
  by_cases hhead : (s.shards cpu).head = 0
  · obtain ⟨r, hr, hstolen⟩ := stealFrom_spec h cpu
      ((List.finRange 16).filter fun victim => victim.val < s.numCpus.toNat)
    have hr' : stealFromRemote s cpu = some r := hr
    rw [hhead, hr']
    rcases hstolen with rfl | ⟨v, hv, rfl⟩
    · exact Or.inl (by simp)
    · exact Or.inr ⟨v, hv, by simp [hv]⟩
  · exact Or.inr ⟨cpu, hhead, by simp [hhead]⟩

/-- The allocator after `free` has lowered a reference count. -/
def uncount (s : PmmState) (page : UInt64) : PmmState :=
  if page / pageSize < maxRefcounts ∧ s.refcounts (page / pageSize) > 0 then
    { s with
      refcounts := Function.update s.refcounts (page / pageSize)
        (s.refcounts (page / pageSize) - 1) }
  else s

@[simp] theorem mem_uncount (s : PmmState) (page : UInt64) : (uncount s page).mem = s.mem := by
  simp only [uncount]
  split_ifs <;> rfl

@[simp] theorem shards_uncount (s : PmmState) (page : UInt64) :
    (uncount s page).shards = s.shards := by
  simp only [uncount]
  split_ifs <;> rfl

/-- **`free` of a page returns**: it lowers the reference count, and puts the page in front of the
core's list when the count has reached zero or the page has none. -/
theorem free_spec {s : PmmState} (h : Unlocked s) (cpu : Cpu) {page : UInt64}
    (hpage : page % pageSize = 0) :
    free s cpu page = some
      (if page / pageSize < maxRefcounts ∧ s.refcounts (page / pageSize) > 1 then uncount s page
        else pushPage (uncount s page) cpu page) := by
  have hreturn : ∀ s', Unlocked s' → returnPage s' cpu page = some (pushPage s' cpu page) := by
    intro s' h'
    unfold returnPage
    rw [acquireLock_eq h']
    simp only [releaseLock_pushPage h']
  have hunlocked : Unlocked (uncount s page) := by
    intro c
    rw [shards_uncount]
    exact h c
  unfold free
  rw [hpage]
  simp only [bne_self_eq_false, Bool.false_eq_true, ↓reduceIte]
  by_cases hidx : page / pageSize < maxRefcounts
  · simp only [hidx, ↓reduceIte, true_and]
    by_cases hpos : s.refcounts (page / pageSize) > 0
    · have huncount : uncount s page = { s with
          refcounts := Function.update s.refcounts (page / pageSize)
            (s.refcounts (page / pageSize) - 1) } := if_pos ⟨hidx, hpos⟩
      rw [if_pos hpos, ← huncount]
      have hnew : (uncount s page).refcounts (page / pageSize) > 0 ↔
          s.refcounts (page / pageSize) > 1 := by
        rw [huncount]
        simp only [Function.update_self]
        grind
      by_cases hgt : s.refcounts (page / pageSize) > 1
      · rw [if_pos hgt, if_pos (hnew.mpr hgt)]
      · rw [if_neg hgt, if_neg (fun hc => hgt (hnew.mp hc)), hreturn _ hunlocked]
    · have huncount : uncount s page = s := if_neg fun hc => hpos hc.2
      have hgt : ¬ s.refcounts (page / pageSize) > 1 := by grind
      rw [if_neg hpos, if_neg hpos, if_neg hgt, huncount, hreturn s h]
  · have huncount : uncount s page = s := if_neg fun hc => hidx hc.1
    simp only [hidx, ↓reduceIte, false_and]
    rw [huncount, hreturn s h]

/-! ### Adding a region -/

/-- `p` is a page of the addresses from `lo` to `hi`. -/
def PageIn (lo hi p : UInt64) : Prop :=
  lo.toNat ≤ p.toNat ∧ p.toNat + 4096 ≤ hi.toNat ∧ Aligned p

theorem toNat_alignUp {start : UInt64} (h : start.toNat + 4095 < 2 ^ 64) :
    ((start + 4095) &&& 0xFFFFFFFFFFFFF000).toNat = (start.toNat + 4095) / 4096 * 4096 := by
  have h4095 : (4095 : UInt64).toNat = 4095 := rfl
  have hmask : (0xFFFFFFFFFFFFF000 : UInt64).toNat = 2 ^ 64 - 2 ^ 12 := rfl
  have hpage : 2 ^ 12 = 4096 := rfl
  have hadd : (start + 4095).toNat = start.toNat + 4095 := by
    rw [UInt64.toNat_add, h4095]
    exact Nat.mod_eq_of_lt h
  rw [UInt64.toNat_and, hadd, hmask, and_highBits (by decide) h, hpage]

/-- The first page of a range is put into a list: the rest of the range begins with another page, and has no
page that is in a list. -/
theorem next_page {lists : Cpu → List UInt64} {target : Cpu} {current end_ : UInt64}
    (hnext : (current + pageSize).toNat = current.toNat + 4096) (hpage : PageIn current end_ current)
    (hfresh : ∀ c, ∀ q ∈ lists c, ¬ PageIn current end_ q) :
    Aligned (current + pageSize) ∧ current + pageSize ≠ 0 ∧
      (∀ c, ∀ q ∈ Function.update lists target (current :: lists target) c,
        ¬ PageIn (current + pageSize) end_ q) ∧
      ∀ c q, q ∈ Function.update lists target (current :: lists target) c ∨
        PageIn (current + pageSize) end_ q → q ∈ lists c ∨ PageIn current end_ q := by
  have hrest : ∀ c, ∀ q ∈ Function.update lists target (current :: lists target) c,
      q ∈ lists c ∨ q = current := by
    intro c q hq
    by_cases hc : c = target
    · subst hc
      rw [Function.update_self] at hq
      exact (List.mem_cons.mp hq).symm
    · rw [Function.update_of_ne hc] at hq
      exact Or.inl hq
  refine ⟨?_, ?_, ?_, ?_⟩
  · have haligned := hpage.2.2
    unfold Aligned at haligned ⊢
    omega
  · intro hzero
    rw [hzero, UInt64.toNat_zero] at hnext
    omega
  · rintro c q hq ⟨hlo, hhi, hal⟩
    rw [hnext] at hlo
    rcases hrest c q hq with hold | rfl
    · exact hfresh c q hold ⟨by omega, hhi, hal⟩
    · omega
  · rintro c q (hq | ⟨hlo, hhi, hal⟩)
    · rcases hrest c q hq with hold | rfl
      · exact Or.inl hold
      · exact Or.inr hpage
    · rw [hnext] at hlo
      exact Or.inr ⟨by omega, hhi, hal⟩

theorem addRegionLoop_spec {end_ : UInt64} (hend : end_.toNat ≤ 2 ^ 64 - 8192) :
    ∀ (fuel : Nat) {s : PmmState} {lists : Cpu → List UInt64} {current : UInt64}
      (coreIdx : UInt64),
      FreeLists s lists → Unlocked s → Aligned current → current ≠ 0 →
      current.toNat ≤ 2 ^ 64 - 8192 → (end_.toNat - current.toNat) / 4096 < fuel →
      (∀ c, ∀ q ∈ lists c, ¬ PageIn current end_ q) →
      ∃ s' lists', addRegionLoop fuel s current end_ coreIdx = some s' ∧ FreeLists s' lists' ∧
        Unlocked s' ∧ s'.refcounts = s.refcounts ∧ s'.numCpus = s.numCpus ∧
        ∀ c, ∀ p ∈ lists' c, p ∈ lists c ∨ PageIn current end_ p := by
  intro fuel
  induction fuel with
  | zero =>
    intro s lists current coreIdx _ _ _ _ _ hfuel
    exact absurd hfuel (Nat.not_lt_zero _)
  | succ fuel ih =>
    intro s lists current coreIdx hlists hunlocked haligned hne hcur hfuel hfresh
    have hnext : (current + pageSize).toNat = current.toNat + 4096 := by
      have hsize : pageSize.toNat = 4096 := rfl
      rw [UInt64.toNat_add, hsize]
      exact Nat.mod_eq_of_lt (by omega)
    unfold addRegionLoop
    by_cases hle : current + pageSize ≤ end_
    · rw [if_pos hle]
      have hle' := UInt64.le_iff_toNat_le.mp hle
      rw [hnext] at hle'
      -- the page goes to the list of one core, and is in no list so far
      have hpage : PageIn current end_ current := ⟨Nat.le_refl _, hle', haligned⟩
      generalize Fin.ofNat 16 (coreIdx % s.numCpus).toNat = target
      have hpush := hlists.push target haligned hne fun c hc => hfresh c current hc hpage
      have hunlocked' : Unlocked (pushPage s target current) := by
        intro c
        rw [lock_pushPage]
        exact hunlocked c
      obtain ⟨hnext_aligned, hnext_ne, hnext_fresh, hrest⟩ :=
        @next_page lists target current end_ hnext hpage hfresh
      -- the count of pages is no part of the lists
      have hsame : FreeLists { pushPage s target current with
          totalPages := (pushPage s target current).totalPages + 1 }
          (Function.update lists target (current :: lists target)) :=
        hpush.congr rfl (fun _ => rfl) (fun _ => rfl)
      have hnext_le : (current + pageSize).toNat ≤ 2 ^ 64 - 8192 := by
        rw [hnext]
        omega
      have hnext_fuel : (end_.toNat - (current + pageSize).toNat) / 4096 < fuel := by
        rw [hnext]
        omega
      obtain ⟨s', lists', hs', hl', hu', hr', hn', hmem'⟩ := ih (coreIdx + 1) hsame hunlocked'
        hnext_aligned hnext_ne hnext_le hnext_fuel hnext_fresh
      rw [refcounts_pushPage] at hr'
      rw [numCpus_pushPage] at hn'
      refine ⟨s', lists', hs', hl', hu', hr', hn', fun c p hp => hrest c p (hmem' c p hp)⟩
    · rw [if_neg hle]
      exact ⟨s, lists, rfl, hlists, hunlocked, rfl, rfl, fun c p hp => Or.inl hp⟩

/-! ### Holds and reference counts -/

/-- `p` is a page of one of the regions. -/
def InRegions (regions : List (UInt64 × UInt64)) (p : UInt64) : Prop :=
  ∃ r ∈ regions, PageIn r.1 r.2 p

structure Inv (s : State) (lists : Cpu → List UInt64) : Prop where
  freeLists : FreeLists s.pmm lists
  unlocked : Unlocked s.pmm
  region_pos : ∀ r ∈ s.regions, 0 < r.1
  listed_region : ∀ c, ∀ p ∈ lists c, InRegions s.regions p
  held_region : ∀ p, 0 < s.holds p → InRegions s.regions p
  listed_free : ∀ c, ∀ p ∈ lists c, s.holds p = 0
  counted : ∀ p, 0 < s.holds p → p / pageSize < maxRefcounts →
    (s.pmm.refcounts (p / pageSize)).toNat = s.holds p
  uncounted : ∀ p, 0 < s.holds p → ¬ p / pageSize < maxRefcounts → s.holds p = 1

namespace Inv

variable {s : State} {lists : Cpu → List UInt64}

theorem ne_zero (h : Inv s lists) {p : UInt64} (hp : InRegions s.regions p) : p ≠ 0 := by
  obtain ⟨r, hr, hlo, -, -⟩ := hp
  have hpos := UInt64.lt_iff_toNat_lt.mp (h.region_pos r hr)
  rintro rfl
  rw [UInt64.toNat_zero] at hlo hpos
  omega

theorem aligned_of_held (h : Inv s lists) {p : UInt64} (hp : 0 < s.holds p) : Aligned p := by
  obtain ⟨r, -, -, -, hal⟩ := h.held_region p hp
  exact hal

theorem holds_zero (h : Inv s lists) : s.holds 0 = 0 := by
  by_contra hne
  exact h.ne_zero (h.held_region 0 (Nat.pos_of_ne_zero hne)) rfl

theorem not_listed (h : Inv s lists) {p : UInt64} (hp : 0 < s.holds p) (c : Cpu) :
    p ∉ lists c := by
  intro hmem
  rw [h.listed_free c p hmem] at hp
  exact Nat.lt_irrefl _ hp

end Inv

theorem eq_of_index_eq {p q : UInt64} (hp : Aligned p) (hq : Aligned q)
    (h : p / pageSize = q / pageSize) : p = q := by
  have hdiv := congrArg UInt64.toNat h
  rw [UInt64.toNat_div, UInt64.toNat_div] at hdiv
  have hsize : pageSize.toNat = 4096 := rfl
  rw [hsize] at hdiv
  unfold Aligned at hp hq
  rw [← UInt64.toNat_inj]
  omega

theorem mod_eq_zero_of_aligned {p : UInt64} (hp : Aligned p) : p % pageSize = 0 := by
  rw [← UInt64.toNat_inj, UInt64.toNat_mod]
  exact hp

/-! ### The operations keep the invariant -/

namespace Inv

variable {s : State} {lists : Cpu → List UInt64}

theorem of_pmm (h : Inv s lists) {pmm : PmmState} (hlists : FreeLists pmm lists)
    (hunlocked : Unlocked pmm) (hrefs : pmm.refcounts = s.pmm.refcounts) :
    Inv { s with pmm := pmm } lists := by
  refine ⟨hlists, hunlocked, h.region_pos, h.listed_region, h.held_region, h.listed_free, ?_,
    h.uncounted⟩
  intro p hp hidx
  simp only [hrefs]
  exact h.counted p hp hidx

theorem initCpuCount (h : Inv s lists) (n : UInt64) :
    Inv { s with pmm := Pmm.initCpuCount s.pmm n } lists := by
  unfold Pmm.initCpuCount
  split_ifs
  · exact h.of_pmm (h.freeLists.congr rfl (fun _ => rfl) (fun _ => rfl)) h.unlocked rfl
  · exact h

theorem addRegion (h : Inv s lists) {start end_ : UInt64} (hpos : 0 < start)
    (hle : start ≤ end_) (hend : end_ ≤ 0xFFFFFFFFFFFFE000)
    (hapart : ∀ r ∈ s.regions, end_ ≤ r.1 ∨ r.2 ≤ start) :
    ∃ pmm lists', Pmm.addRegion s.pmm start end_ = some pmm ∧
      Inv { s with pmm := pmm, regions := (start, end_) :: s.regions } lists' := by
  have hend' := UInt64.le_iff_toNat_le.mp hend
  have hle' := UInt64.le_iff_toNat_le.mp hle
  have hpos' := UInt64.lt_iff_toNat_lt.mp hpos
  have hlast : (0xFFFFFFFFFFFFE000 : UInt64).toNat = 2 ^ 64 - 8192 := rfl
  rw [hlast] at hend'
  rw [UInt64.toNat_zero] at hpos'
  have hup := @toNat_alignUp start (by omega)
  generalize hcur : (start + 4095) &&& 0xFFFFFFFFFFFFF000 = current at hup
  -- a page of the new region lies in no earlier one
  have hnew : ∀ p, PageIn current end_ p → ¬ InRegions s.regions p := by
    rintro p ⟨hlo, hhi, -⟩ ⟨r, hr, hrlo, hrhi, -⟩
    rcases hapart r hr with hr' | hr'
    · have := UInt64.le_iff_toNat_le.mp hr'
      omega
    · have := UInt64.le_iff_toNat_le.mp hr'
      omega
  obtain ⟨pmm, lists', hadd, hlists, hunlocked, hrefs, -, hmem⟩ :=
    addRegionLoop_spec hend' (2 ^ 52 + 1) 0 h.freeLists h.unlocked
      (show Aligned current by unfold Aligned; omega)
      (by
        rintro rfl
        rw [UInt64.toNat_zero] at hup
        omega)
      (by omega) (by omega) (fun c q hq hin => hnew q hin (h.listed_region c q hq))
  have hin : ∀ p, PageIn current end_ p → PageIn start end_ p := by
    rintro p ⟨hlo, hhi, hal⟩
    exact ⟨by omega, hhi, hal⟩
  refine ⟨pmm, lists', ?_, ?_⟩
  · unfold Pmm.addRegion
    rw [hcur]
    exact hadd
  · refine ⟨hlists, hunlocked, ?_, ?_, ?_, ?_, ?_, h.uncounted⟩
    · intro r hr
      rcases List.mem_cons.mp hr with rfl | hr
      · exact hpos
      · exact h.region_pos r hr
    · intro c p hp
      rcases hmem c p hp with hold | hpage
      · obtain ⟨r, hr, hpr⟩ := h.listed_region c p hold
        exact ⟨r, List.mem_cons_of_mem _ hr, hpr⟩
      · exact ⟨(start, end_), List.mem_cons_self .., hin p hpage⟩
    · intro p hp
      obtain ⟨r, hr, hpr⟩ := h.held_region p hp
      exact ⟨r, List.mem_cons_of_mem _ hr, hpr⟩
    · intro c p hp
      rcases hmem c p hp with hold | hpage
      · exact h.listed_free c p hold
      · by_contra hheld
        exact hnew p hpage (h.held_region p (Nat.pos_of_ne_zero hheld))
    · intro p hp hidx
      simp only [hrefs]
      exact h.counted p hp hidx

theorem alloc (h : Inv s lists) {v : Cpu} (hhead : (s.pmm.shards v).head ≠ 0) :
    s.holds (s.pmm.shards v).head = 0 ∧
      ∃ lists', Inv { s with
        pmm := countAllocated (popPage s.pmm v) (s.pmm.shards v).head
        holds := Function.update s.holds (s.pmm.shards v).head 1 } lists' := by
  obtain ⟨rest, hcons⟩ := h.freeLists.exists_cons hhead
  generalize (s.pmm.shards v).head = page at hhead hcons
  have hmem : page ∈ lists v := by
    rw [hcons]
    exact List.mem_cons_self ..
  have hpop := h.freeLists.pop hcons
  have hnot := h.freeLists.not_mem_pop hcons
  have halign := h.freeLists.aligned v page hmem
  -- What is on a list now was on it before.
  have hold : ∀ {c p}, p ∈ Function.update lists v rest c → p ∈ lists c :=
    fun hp => mem_of_mem_update hcons hp
  refine ⟨h.listed_free v page hmem, Function.update lists v rest, ?_⟩
  refine ⟨?_, ?_, h.region_pos, ?_, ?_, ?_, ?_, ?_⟩
  · exact hpop.congr (mem_countAllocated ..) (fun c => by rw [shards_countAllocated])
      (fun c => by rw [shards_countAllocated])
  · intro c
    simp only [shards_countAllocated, lock_popPage]
    exact h.unlocked c
  · intro c p hp
    exact h.listed_region c p (hold hp)
  · intro p hp
    simp only [Function.update_apply] at hp
    split_ifs at hp with heq
    · rw [heq]
      exact h.listed_region v page hmem
    · exact h.held_region p hp
  · intro c p hp
    have hne : p ≠ page := by
      rintro rfl
      exact hnot c hp
    simp only [Function.update_of_ne hne]
    exact h.listed_free c p (hold hp)
  · intro p hp hidx
    simp only [Function.update_apply] at hp ⊢
    split_ifs at hp ⊢ with heq
    · rw [heq] at hidx ⊢
      simp only [refcounts_countAllocated, hidx, ↓reduceIte, Function.update_self]
      rfl
    -- Another page has another count, because the index of a page is its number.
    · have hother : p / pageSize ≠ page / pageSize :=
        fun hi => heq (eq_of_index_eq (h.aligned_of_held hp) halign hi)
      have hrefs : (countAllocated (popPage s.pmm v) page).refcounts (p / pageSize) =
          s.pmm.refcounts (p / pageSize) := by
        rw [refcounts_countAllocated, refcounts_popPage]
        split_ifs
        · rw [Function.update_of_ne hother]
        · rfl
      rw [hrefs]
      exact h.counted p hp hidx
  · intro p hp hidx
    simp only [Function.update_apply] at hp ⊢
    split_ifs at hp ⊢ with heq
    · rfl
    · exact h.uncounted p hp hidx

theorem freeLists_uncount (h : Inv s lists) (page : UInt64) :
    FreeLists (uncount s.pmm page) lists :=
  h.freeLists.congr (mem_uncount ..) (fun c => by rw [shards_uncount])
    (fun c => by rw [shards_uncount])

theorem refcounts_uncount_of_ne (h : Inv s lists) {page p : UInt64} (hpage : 0 < s.holds page)
    (hp : 0 < s.holds p) (hne : p ≠ page) :
    (uncount s.pmm page).refcounts (p / pageSize) = s.pmm.refcounts (p / pageSize) := by
  have hother : p / pageSize ≠ page / pageSize :=
    fun hi => hne (eq_of_index_eq (h.aligned_of_held hp) (h.aligned_of_held hpage) hi)
  simp only [uncount]
  split_ifs
  · simp only [Function.update_of_ne hother]
  · rfl

theorem free_shared (h : Inv s lists) {page : UInt64} (hidx : page / pageSize < maxRefcounts)
    (hpage : 0 < s.holds page) (hmany : s.pmm.refcounts (page / pageSize) > 1) :
    Inv { s with
      pmm := uncount s.pmm page
      holds := Function.update s.holds page (s.holds page - 1) } lists := by
  have hcount := h.counted page hpage hidx
  have hmany' := UInt8.lt_iff_toNat_lt.mp hmany
  rw [UInt8.toNat_one] at hmany'
  have hle : ∀ p, 0 < Function.update s.holds page (s.holds page - 1) p → 0 < s.holds p := by
    intro p hp
    rw [Function.update_apply] at hp
    split_ifs at hp with heq
    · rw [heq]
      exact hpage
    · exact hp
  refine ⟨h.freeLists_uncount page, ?_, h.region_pos, h.listed_region, ?_, ?_, ?_, ?_⟩
  · intro c
    simp only [shards_uncount]
    exact h.unlocked c
  · intro p hp
    exact h.held_region p (hle p hp)
  · intro c p hp
    have hne : p ≠ page := by
      rintro rfl
      exact h.not_listed hpage c hp
    simp only [Function.update_of_ne hne]
    exact h.listed_free c p hp
  · intro p hp hidx'
    by_cases heq : p = page
    · subst heq
      have hpos : s.pmm.refcounts (p / pageSize) > 0 := by grind
      simp only [uncount, hidx, hpos, and_self, ↓reduceIte, Function.update_self]
      have hone : (1 : UInt8) ≤ s.pmm.refcounts (p / pageSize) := by grind
      rw [UInt8.toNat_sub_of_le _ _ hone, UInt8.toNat_one, hcount]
    · simp only [Function.update_of_ne heq]
      have hp' := hle p hp
      rw [h.refcounts_uncount_of_ne hpage hp' heq]
      exact h.counted p hp' hidx'
  · intro p hp hidx'
    have hne : p ≠ page := by
      rintro rfl
      exact hidx' hidx
    simp only [Function.update_of_ne hne] at hp ⊢
    exact h.uncounted p hp hidx'

theorem free_last (h : Inv s lists) (cpu : Cpu) {page : UInt64} (hpage : s.holds page = 1) :
    Inv { s with
      pmm := pushPage (uncount s.pmm page) cpu page
      holds := Function.update s.holds page (s.holds page - 1) }
      (Function.update lists cpu (page :: lists cpu)) := by
  have hheld : 0 < s.holds page := by omega
  have hregion := h.held_region page hheld
  have hne0 := h.ne_zero hregion
  have hmem : ∀ {c p}, p ∈ Function.update lists cpu (page :: lists cpu) c →
      p ∈ lists c ∨ p = page := by
    intro c p hp
    by_cases hc : c = cpu
    · subst hc
      rw [Function.update_self] at hp
      exact (List.mem_cons.mp hp).symm
    · rw [Function.update_of_ne hc] at hp
      exact Or.inl hp
  have hother : ∀ p, 0 < Function.update s.holds page (s.holds page - 1) p →
      p ≠ page ∧ 0 < s.holds p := by
    intro p hp
    rw [Function.update_apply] at hp
    split_ifs at hp with heq
    · omega
    · exact ⟨heq, hp⟩
  refine ⟨?_, ?_, h.region_pos, ?_, ?_, ?_, ?_, ?_⟩
  · exact (h.freeLists_uncount page).push cpu (h.aligned_of_held hheld) hne0
      fun c => h.not_listed hheld c
  · intro c
    simp only [lock_pushPage, shards_uncount]
    exact h.unlocked c
  · intro c p hp
    rcases hmem hp with hold | rfl
    · exact h.listed_region c p hold
    · exact hregion
  · intro p hp
    exact h.held_region p (hother p hp).2
  · intro c p hp
    rcases hmem hp with hold | rfl
    · have hne : p ≠ page := by
        rintro rfl
        exact h.not_listed hheld c hold
      simp only [Function.update_of_ne hne]
      exact h.listed_free c p hold
    · simp only [Function.update_self]
      omega
  · intro p hp hidx
    obtain ⟨hne, hp'⟩ := hother p hp
    simp only [Function.update_of_ne hne, refcounts_pushPage]
    rw [h.refcounts_uncount_of_ne hheld hp' hne]
    exact h.counted p hp' hidx
  · intro p hp hidx
    obtain ⟨hne, hp'⟩ := hother p hp
    simp only [Function.update_of_ne hne]
    exact h.uncounted p hp' hidx

/-- **`free` of a held page returns and keeps the invariant.** -/
theorem free (h : Inv s lists) (cpu : Cpu) {page : UInt64} (hpage : 0 < s.holds page) :
    ∃ pmm lists', Pmm.free s.pmm cpu page = some pmm ∧
      Inv { s with pmm := pmm, holds := Function.update s.holds page (s.holds page - 1) }
        lists' := by
  have hspec := free_spec h.unlocked cpu (mod_eq_zero_of_aligned (h.aligned_of_held hpage))
  by_cases hshared : page / pageSize < maxRefcounts ∧ s.pmm.refcounts (page / pageSize) > 1
  · rw [if_pos hshared] at hspec
    exact ⟨_, lists, hspec, h.free_shared hshared.1 hpage hshared.2⟩
  · rw [if_neg hshared] at hspec
    have hlast : s.holds page = 1 := by
      by_cases hidx : page / pageSize < maxRefcounts
      · have hcount := h.counted page hpage hidx
        have hle : ¬ s.pmm.refcounts (page / pageSize) > 1 := fun hgt => hshared ⟨hidx, hgt⟩
        rw [gt_iff_lt, UInt8.lt_iff_toNat_lt, hcount, UInt8.toNat_one] at hle
        omega
      · exact h.uncounted page hpage hidx
    exact ⟨_, _, hspec, h.free_last cpu hlast⟩

theorem retain (h : Inv s lists) {page : UInt64} (hpage : 0 < s.holds page)
    (hidx : page / pageSize < maxRefcounts) (hroom : s.holds page < 255) :
    Inv { s with
      pmm := Pmm.retain s.pmm page
      holds := Function.update s.holds page (s.holds page + 1) } lists := by
  have hretain : Pmm.retain s.pmm page = { s.pmm with
      refcounts := Function.update s.pmm.refcounts (page / pageSize)
        (s.pmm.refcounts (page / pageSize) + 1) } := by
    unfold Pmm.retain
    rw [mod_eq_zero_of_aligned (h.aligned_of_held hpage)]
    simp only [bne_self_eq_false, Bool.false_eq_true, ↓reduceIte, hidx]
  rw [hretain]
  have hle : ∀ p, 0 < Function.update s.holds page (s.holds page + 1) p → 0 < s.holds p := by
    intro p hp
    rw [Function.update_apply] at hp
    split_ifs at hp with heq
    · rw [heq]
      exact hpage
    · exact hp
  refine ⟨h.freeLists.congr rfl (fun _ => rfl) (fun _ => rfl), h.unlocked, h.region_pos,
    h.listed_region, ?_, ?_, ?_, ?_⟩
  · intro p hp
    exact h.held_region p (hle p hp)
  · intro c p hp
    have hne : p ≠ page := by
      rintro rfl
      exact h.not_listed hpage c hp
    simp only [Function.update_of_ne hne]
    exact h.listed_free c p hp
  · intro p hp hidx'
    by_cases heq : p = page
    · subst heq
      have hcount := h.counted p hpage hidx
      simp only [Function.update_self]
      rw [UInt8.toNat_add, hcount, UInt8.toNat_one]
      omega
    · have hp' := hle p hp
      have hother : p / pageSize ≠ page / pageSize :=
        fun hi => heq (eq_of_index_eq (h.aligned_of_held hp') (h.aligned_of_held hpage) hi)
      simp only [Function.update_of_ne heq, Function.update_of_ne hother]
      exact h.counted p hp' hidx'
  · intro p hp hidx'
    have hne : p ≠ page := by
      rintro rfl
      exact hidx' hidx
    simp only [Function.update_of_ne hne] at hp ⊢
    exact h.uncounted p hp hidx'

theorem store (h : Inv s lists) {page : UInt64} (hpage : 0 < s.holds page) (contents : Mem) :
    Inv { s with pmm := { s.pmm with mem := storePage s.pmm.mem page contents } } lists := by
  have hchain : ∀ c, Chain (storePage s.pmm.mem page contents) (s.pmm.shards c).head
      (lists c) := by
    intro c
    refine (h.freeLists.chain c).congr ?_
    intro p hp
    have hne : physToVirt p ≠ physToVirt page := by
      intro heq
      exact h.not_listed hpage c (physToVirt_inj heq ▸ hp)
    have hdisj := disjoint_of_aligned (n := 4096) (by decide)
      (aligned_physToVirt (h.freeLists.aligned c p hp))
      (aligned_physToVirt (h.aligned_of_held hpage)) hne
    refine Mem.read64_congr ?_
    intro x hx
    have hx' : InBlock (physToVirt p) 4096 x := hx.mono (by decide)
    unfold storePage
    rw [if_neg (hdisj x hx')]
  have hlists : FreeLists { s.pmm with mem := storePage s.pmm.mem page contents } lists :=
    ⟨hchain, h.freeLists.nodup, h.freeLists.count, h.freeLists.disjoint, h.freeLists.aligned⟩
  refine h.of_pmm hlists ?_ ?_
  · intro c
    exact h.unlocked c
  · dsimp only

end Inv

/-! ### Runs -/

theorem exists_inv_exec {s : State} (h : ∃ lists, Inv s lists) (op : Op) (hlegal : s.Legal op)
    (hcountable : s.Countable op) : ∃ lists, Inv (s.exec op) lists := by
  obtain ⟨lists, h⟩ := h
  cases op with
  | initCpuCount n => exact ⟨lists, h.initCpuCount n⟩
  | addRegion start end_ =>
    obtain ⟨hpos, hle, hend, hapart⟩ := hlegal
    obtain ⟨pmm, lists', hadd, hinv⟩ := h.addRegion hpos hle hend hapart
    refine ⟨lists', ?_⟩
    dsimp only [State.exec]
    rw [hadd]
    exact hinv
  | alloc cpu =>
    rcases alloc_spec h.unlocked cpu with hnull | ⟨v, hhead, hpage⟩
    · refine ⟨lists, ?_⟩
      dsimp only [State.exec]
      rw [hnull]
      simp only [↓reduceIte]
      exact h
    · obtain ⟨-, lists', hinv⟩ := h.alloc hhead
      refine ⟨lists', ?_⟩
      dsimp only [State.exec]
      rw [hpage]
      simp only [hhead, ↓reduceIte]
      exact hinv
  | free cpu page =>
    by_cases hpage : 0 < s.holds page
    · obtain ⟨pmm, lists', hfree, hinv⟩ := h.free cpu hpage
      refine ⟨lists', ?_⟩
      dsimp only [State.exec]
      rw [hfree]
      exact hinv
    · -- an address that is no page: `free` returns at once
      have hmod : page % pageSize ≠ 0 := hlegal.resolve_right hpage
      have hfree : Pmm.free s.pmm cpu page = some s.pmm := by
        unfold Pmm.free
        rw [if_pos (bne_iff_ne.mpr hmod)]
      have hzero : Function.update s.holds page (s.holds page - 1) = s.holds := by
        rw [show s.holds page - 1 = s.holds page by omega, Function.update_eq_self]
      refine ⟨lists, ?_⟩
      dsimp only [State.exec]
      rw [hfree]
      simp only [hzero]
      exact h
  | retain page =>
    by_cases hmod : page % pageSize = 0
    · obtain ⟨hheld, hidx, hroom⟩ := hcountable.resolve_left (fun hne => hne hmod)
      refine ⟨lists, ?_⟩
      dsimp only [State.exec]
      rw [if_pos hmod]
      exact h.retain hheld hidx hroom
    · have hretain : Pmm.retain s.pmm page = s.pmm := by
        unfold Pmm.retain
        rw [if_pos (bne_iff_ne.mpr hmod)]
      refine ⟨lists, ?_⟩
      dsimp only [State.exec]
      rw [hretain, if_neg hmod]
      exact h
  | store page contents => exact ⟨lists, h.store hlegal contents⟩

/-- The free lists are sound: each one is acyclic and null-terminated with its count as length, no
page is on two lists, no held page is on a list, and `alloc` returns no held page. -/
def State.Sound (s : State) : Prop :=
  ∃ lists : Cpu → List UInt64,
    (∀ c, Chain s.pmm.mem (s.pmm.shards c).head (lists c) ∧ (lists c).Nodup ∧
      (lists c).length = (s.pmm.shards c).count.toNat) ∧
    (∀ c d, c ≠ d → ∀ p ∈ lists c, p ∉ lists d) ∧
    (∀ c, ∀ p ∈ lists c, s.holds p = 0) ∧
    ∀ cpu, ∃ page pmm, alloc s.pmm cpu = some (page, pmm) ∧ s.holds page = 0

theorem Inv.sound {s : State} {lists : Cpu → List UInt64} (h : Inv s lists) : s.Sound := by
  refine ⟨lists, ?_, h.freeLists.disjoint, h.listed_free, ?_⟩
  · intro c
    exact ⟨h.freeLists.chain c, h.freeLists.nodup c, (h.freeLists.toNat_count c).symm⟩
  · intro cpu
    rcases alloc_spec h.unlocked cpu with hnull | ⟨v, hhead, hpage⟩
    · exact ⟨0, s.pmm, hnull, h.holds_zero⟩
    · exact ⟨_, _, hpage, (h.alloc hhead).1⟩

theorem inv_initState (mem : Mem) : Inv (initState mem) fun _ => [] := by
  refine ⟨⟨?_, ?_, ?_, ?_, ?_⟩, ?_, ?_, ?_, ?_, ?_, ?_, ?_⟩
  · intro c
    rfl
  · intro c
    exact List.nodup_nil
  · intro c
    rfl
  · intro c d _ p hp
    exact absurd hp List.not_mem_nil
  · intro c p hp
    exact absurd hp List.not_mem_nil
  · intro c
    rfl
  · intro r hr
    exact absurd hr List.not_mem_nil
  · intro c p hp
    exact absurd hp List.not_mem_nil
  · intro p hp
    exact absurd hp (Nat.lt_irrefl 0)
  · intro c p hp
    exact absurd hp List.not_mem_nil
  · intro p hp
    exact absurd hp (Nat.lt_irrefl 0)
  · intro p hp
    exact absurd hp (Nat.lt_irrefl 0)

end Keuos.Pmm
