import Keuos.Alloc.Arena

/-!
# The blocks of an arena

A call that succeeds takes what lies between the offset and the end of its block (`Taken`), padding included.
So all blocks in use end at or below the offset (`Usage.Ok`), and the next one is behind them.  A checkpoint
moves the offset back only, to a place at or behind the end of each block that it does not release.

## Main results

* `alloc_cases`, `allocNetBuffer_cases`: what a call can do.
* `arena_sound`: the blocks in use are aligned, inside of the arena and disjoint, after every run.
-/

namespace Keuos.Alloc

/-! ### One call -/

/-- A block of `size` bytes that begins at `start` is taken. -/
structure Taken (a : Arena) (start size align : Nat) (a' : Arena) : Prop where
  base : a'.base = a.base
  capacity : a'.capacity = a.capacity
  offset : a'.offset ≤ a'.capacity
  behind : a.base.toNat + a.offset.toNat ≤ start
  stop : start + size = a.base.toNat + a'.offset.toNat
  aligned : align ∣ start

section Calls

variable {a : Arena} {size align : UInt64}

theorem dvd_add_padding (x : Nat) {d : Nat} (hd : 0 < d) : d ∣ x + (d - x % d) := by
  have hlt := Nat.mod_lt x hd
  refine ⟨x / d + 1, ?_⟩
  have hdiv := Nat.div_add_mod x d
  rw [Nat.mul_add]
  omega

theorem padding_spec (x : UInt64) (hpos : 0 < align.toNat) :
    (if x % align != 0 then align - x % align else 0).toNat < align.toNat ∧
      align.toNat ∣ x.toNat + (if x % align != 0 then align - x % align else 0).toNat := by
  have hlt := Nat.mod_lt x.toNat hpos
  have hmod : (x % align).toNat = x.toNat % align.toNat := UInt64.toNat_mod x align
  by_cases hzero : x % align = 0
  · rw [hzero, UInt64.toNat_zero] at hmod
    simp only [hzero, bne_self_eq_false, Bool.false_eq_true, if_false, UInt64.toNat_zero, Nat.add_zero]
    exact ⟨hpos, Nat.dvd_of_mod_eq_zero hmod.symm⟩
  · have hne : x.toNat % align.toNat ≠ 0 := by
      rw [← hmod]
      exact fun h => hzero (UInt64.toNat_inj.mp h)
    have hsub : (align - x % align).toNat = align.toNat - x.toNat % align.toNat := by
      rw [UInt64.toNat_sub_of_le, hmod]
      rw [UInt64.le_iff_toNat_le, hmod]
      omega
    simp only [bne_iff_ne, ne_eq, hzero, not_false_eq_true, if_true, hsub]
    exact ⟨by omega, dvd_add_padding x.toNat hpos⟩

/-- **A call of `alloc`** returns 0 and leaves everything as it was, or it takes a block. -/
theorem alloc_cases (hfit : a.base.toNat + a.capacity.toNat ≤ 2 ^ 64) (hoffset : a.offset ≤ a.capacity)
    (hsize : 0 < size) (hpos : 0 < align.toNat) :
    alloc a size align = (0, a) ∨ ∃ result a', alloc a size align = (result, a') ∧
      Taken a result.toNat size.toNat align.toNat a' := by
  rw [UInt64.le_iff_toNat_le] at hoffset
  rw [UInt64.lt_iff_toNat_lt, UInt64.toNat_zero] at hsize
  obtain ⟨hpadding, hdvd⟩ := padding_spec (a.base + a.offset) hpos
  have hsizelt := size.toNat_lt
  unfold alloc
  dsimp only
  generalize hp : (if (a.base + a.offset) % align != 0 then align - (a.base + a.offset) % align else 0) =
    padding at hpadding hdvd
  have hpaddinglt := padding.toNat_lt
  have hcapacitylt := a.capacity.toNat_lt
  have hmax : (0xFFFFFFFFFFFFFFFF - padding).toNat = 2 ^ 64 - 1 - padding.toNat := by
    rw [UInt64.toNat_sub_of_le]
    · rfl
    · rw [UInt64.le_iff_toNat_le]
      exact Nat.le_of_lt_succ hpaddinglt
  have hleft : (a.capacity - a.offset).toNat = a.capacity.toNat - a.offset.toNat :=
    UInt64.toNat_sub_of_le _ _ (UInt64.le_iff_toNat_le.mpr hoffset)
  by_cases hover : size > 0xFFFFFFFFFFFFFFFF - padding
  · exact .inl (if_pos hover)
  · rw [if_neg hover]
    rw [gt_iff_lt, UInt64.lt_iff_toNat_lt, hmax] at hover
    have htotal : (size + padding).toNat = size.toNat + padding.toNat := by
      rw [UInt64.toNat_add, Nat.mod_eq_of_lt (by omega)]
    by_cases hroom : size + padding > a.capacity - a.offset
    · exact .inl (if_pos hroom)
    · rw [if_neg hroom]
      rw [gt_iff_lt, UInt64.lt_iff_toNat_lt, hleft, htotal] at hroom
      -- The block is not empty, so that its start is below the end of the address space.
      have hcurrent : (a.base + a.offset).toNat = a.base.toNat + a.offset.toNat := by
        rw [UInt64.toNat_add, Nat.mod_eq_of_lt (by omega)]
      have hresult : (a.base + a.offset + padding).toNat = a.base.toNat + a.offset.toNat + padding.toNat := by
        rw [UInt64.toNat_add, hcurrent, Nat.mod_eq_of_lt (by omega)]
      have hnext : (a.offset + (size + padding)).toNat = a.offset.toNat + (size.toNat + padding.toNat) := by
        rw [UInt64.toNat_add, htotal, Nat.mod_eq_of_lt (by omega)]
      rw [hcurrent] at hdvd
      refine .inr ⟨_, _, rfl, rfl, rfl, ?_, ?_, ?_, ?_⟩
      · show a.offset + (size + padding) ≤ a.capacity
        rw [UInt64.le_iff_toNat_le, hnext]
        omega
      · omega
      · show _ = a.base.toNat + (a.offset + (size + padding)).toNat
        rw [hresult, hnext]
        omega
      · rwa [hresult]

theorem allocNetBuffer_eq (hroom : ¬size > 0xFFFFFFFFFFFFFFFF - netHeadroom)
    (hrequest : size + netHeadroom > 0) :
    allocNetBuffer a size align =
      if (alloc a (size + netHeadroom) align).1 == 0 then (0, (alloc a (size + netHeadroom) align).2)
      else
        ((alloc a (size + netHeadroom) align).1 + netHeadroom, (alloc a (size + netHeadroom) align).2) := by
  unfold allocNetBuffer
  rw [if_neg hroom]
  exact if_pos hrequest

/-- **A call of `alloc_net_buffer`** does the same with the headroom in front of what it returns. -/
theorem allocNetBuffer_cases (hbase : 0 < a.base) (hfit : a.base.toNat + a.capacity.toNat ≤ 2 ^ 64)
    (hoffset : a.offset ≤ a.capacity) (hsize : 0 < size) (hpos : 0 < align.toNat) :
    allocNetBuffer a size align = (0, a) ∨ ∃ result a', allocNetBuffer a size align = (result, a') ∧
      54 ≤ result.toNat ∧ Taken a (result.toNat - 54) (size.toNat + 54) align.toNat a' := by
  rw [UInt64.lt_iff_toNat_lt, UInt64.toNat_zero] at hsize hbase
  have hhead : netHeadroom.toNat = 54 := rfl
  have hmax : (0xFFFFFFFFFFFFFFFF - netHeadroom).toNat = 0xFFFFFFFFFFFFFFC9 := rfl
  by_cases hover : size > 0xFFFFFFFFFFFFFFFF - netHeadroom
  · unfold allocNetBuffer
    exact .inl (if_pos hover)
  · have hlt := hover
    rw [gt_iff_lt, UInt64.lt_iff_toNat_lt, hmax] at hlt
    have htotal : (size + netHeadroom).toNat = size.toNat + 54 := by
      rw [UInt64.toNat_add, hhead, Nat.mod_eq_of_lt (by omega)]
    have hrequest : size + netHeadroom > 0 := by
      rw [gt_iff_lt, UInt64.lt_iff_toNat_lt, htotal, UInt64.toNat_zero]
      omega
    rw [allocNetBuffer_eq hover hrequest]
    rcases alloc_cases hfit hoffset hrequest hpos with hnone | ⟨result, a', halloc, htaken⟩
    · rw [hnone]
      exact .inl rfl
    · rw [htotal] at htaken
      have hbehind := htaken.behind
      have hstop := htaken.stop
      have hend := UInt64.le_iff_toNat_le.mp htaken.offset
      rw [htaken.capacity] at hend
      have hne : (result == 0) = false := by
        rw [beq_eq_false_iff_ne, Ne, ← UInt64.toNat_inj, UInt64.toNat_zero]
        omega
      have hpayload : (result + netHeadroom).toNat = result.toNat + 54 := by
        rw [UInt64.toNat_add, hhead, Nat.mod_eq_of_lt (by omega)]
      refine .inr ⟨result + netHeadroom, a', ?_, by omega, ?_⟩
      · rw [halloc, hne, if_neg Bool.false_ne_true]
      · rwa [hpayload, Nat.add_sub_cancel]

end Calls

/-! ### All blocks in use -/

/-- The arena is the one that was set up, and the blocks in use lie below its offset, aligned and disjoint. -/
structure Usage.Ok (basePtr capacity : UInt64) (s : Usage) : Prop where
  base : s.arena.base = basePtr
  capacity : s.arena.capacity = capacity
  offset : s.arena.offset ≤ s.arena.capacity
  inside : ∀ b ∈ s.blocks, basePtr.toNat ≤ b.start ∧ b.stop ≤ basePtr.toNat + s.arena.offset.toNat
  aligned : ∀ b ∈ s.blocks, b.align ∣ b.start
  apart : s.blocks.Pairwise Block.Apart

section Usage

variable {basePtr capacity : UInt64} {s : Usage}

theorem Usage.ok_start (basePtr capacity : UInt64) : (Usage.start basePtr capacity).Ok basePtr capacity where
  base := rfl
  capacity := rfl
  offset := UInt64.zero_le
  inside := by simp [Usage.start]
  aligned := by simp [Usage.start]
  apart := .nil

/-- **A block is added** behind the others. -/
theorem Usage.Ok.add (h : s.Ok basePtr capacity) {start size align : Nat} {a' : Arena}
    (htaken : Taken s.arena start size align a') :
    Usage.Ok basePtr capacity ⟨a', ⟨start, size, align⟩ :: s.blocks⟩ := by
  have hbehind := htaken.behind
  have hstop := htaken.stop
  rw [h.base] at hbehind hstop
  refine ⟨htaken.base.trans h.base, htaken.capacity.trans h.capacity, htaken.offset, ?_, ?_, ?_⟩
  · rintro b (_ | ⟨_, hb⟩)
    · exact ⟨by dsimp only; omega, by simp only [Block.stop]; omega⟩
    · obtain ⟨hstart, hend⟩ := h.inside b hb
      exact ⟨hstart, by dsimp only; omega⟩
  · rintro b (_ | ⟨_, hb⟩)
    · exact htaken.aligned
    · exact h.aligned b hb
  · refine List.pairwise_cons.mpr ⟨fun b hb => .inr ?_, h.apart⟩
    have hend := (h.inside b hb).2
    dsimp only
    omega

/-- **Some blocks are released**, and the offset is moved back behind the others. -/
theorem Usage.Ok.release (h : s.Ok basePtr capacity) {offset : UInt64} {blocks : List Block}
    (hoffset : offset ≤ s.arena.offset) (hsub : blocks.Sublist s.blocks)
    (hend : ∀ b ∈ blocks, b.stop ≤ basePtr.toNat + offset.toNat) :
    Usage.Ok basePtr capacity ⟨{ s.arena with offset }, blocks⟩ where
  base := h.base
  capacity := h.capacity
  offset := UInt64.le_trans hoffset h.offset
  inside b hb := ⟨(h.inside b (hsub.subset hb)).1, hend b hb⟩
  aligned b hb := h.aligned b (hsub.subset hb)
  apart := h.apart.sublist hsub

/-- **One call** keeps the blocks in use in order. -/
theorem Usage.Ok.exec (h : s.Ok basePtr capacity) (hbase : 0 < basePtr)
    (hfit : basePtr.toNat + capacity.toNat ≤ 2 ^ 64) {op : Op} (hvalid : op.Valid) :
    (s.exec op).Ok basePtr capacity := by
  have hfit' : s.arena.base.toNat + s.arena.capacity.toNat ≤ 2 ^ 64 := by rwa [h.base, h.capacity]
  have hbase' : 0 < s.arena.base := by rwa [h.base]
  cases op with
  | alloc size align =>
    obtain ⟨hsize, k, hk⟩ := hvalid
    rcases alloc_cases hfit' h.offset hsize (hk ▸ Nat.two_pow_pos k) with hnone | ⟨result, a', halloc, htaken⟩
    · simpa [Usage.exec, hnone] using h
    · have hne : result ≠ 0 := by
        rintro rfl
        have hbehind := htaken.behind
        rw [UInt64.lt_iff_toNat_lt, UInt64.toNat_zero] at hbase'
        rw [UInt64.toNat_zero] at hbehind
        omega
      simp only [Usage.exec, halloc, hne, if_false]
      exact h.add htaken
  | allocNetBuffer size align =>
    obtain ⟨hsize, k, hk⟩ := hvalid
    rcases allocNetBuffer_cases hbase' hfit' h.offset hsize (hk ▸ Nat.two_pow_pos k) with
      hnone | ⟨result, a', halloc, hhead, htaken⟩
    · simpa [Usage.exec, hnone] using h
    · have hne : result ≠ 0 := by
        rintro rfl
        rw [UInt64.toNat_zero] at hhead
        omega
      simp only [Usage.exec, halloc, hne, if_false]
      exact h.add htaken
  | getCheckpoint => exact h
  | resetTo checkpoint =>
    have hend : ∀ b ∈ s.blocks.filter fun b => b.stop ≤ s.arena.base.toNat + checkpoint.toNat,
        b.stop ≤ basePtr.toNat + checkpoint.toNat := by
      intro b hb
      have := (List.mem_filter.mp hb).2
      rwa [h.base, decide_eq_true_eq] at this
    simp only [Usage.exec, resetTo]
    split
    · rename_i hle
      exact h.release hle List.filter_sublist hend
    · -- A checkpoint above the offset is above the end of each block.
      exact h.release (UInt64.le_refl _) List.filter_sublist fun b hb =>
        (h.inside b (List.mem_of_mem_filter hb)).2
  | resetAll => exact h.release UInt64.zero_le (List.nil_sublist _) (by simp)

theorem Usage.Ok.run (h : s.Ok basePtr capacity) (hbase : 0 < basePtr)
    (hfit : basePtr.toNat + capacity.toNat ≤ 2 ^ 64) {ops : List Op} (hvalid : ∀ op ∈ ops, op.Valid) :
    (runOps Usage.exec s ops).Ok basePtr capacity := by
  induction ops generalizing s with
  | nil => exact h
  | cons op ops ih =>
    rw [runOps_cons]
    exact ih (h.exec hbase hfit (hvalid op List.mem_cons_self)) fun o ho =>
      hvalid o (List.mem_cons_of_mem _ ho)

end Usage

/-- **The arena.** After every run the offset is at most the capacity, and the blocks in use are aligned,
inside of the arena and disjoint; and a call that returns 0 changes nothing. -/
theorem arena_sound {basePtr capacity : UInt64} (hbase : 0 < basePtr)
    (hfit : basePtr.toNat + capacity.toNat ≤ 2 ^ 64) {ops : List Op} (hvalid : ∀ op ∈ ops, op.Valid) :
    let s := runOps Usage.exec (Usage.start basePtr capacity) ops
    s.arena.offset ≤ s.arena.capacity ∧
    (∀ b ∈ s.blocks, basePtr.toNat ≤ b.start ∧ b.stop ≤ basePtr.toNat + capacity.toNat ∧ b.align ∣ b.start) ∧
    s.blocks.Pairwise Block.Apart ∧
    (∀ size align, (Op.alloc size align).Valid → (alloc s.arena size align).1 = 0 →
      (alloc s.arena size align).2 = s.arena) ∧
    ∀ size align, (Op.allocNetBuffer size align).Valid → (allocNetBuffer s.arena size align).1 = 0 →
      (allocNetBuffer s.arena size align).2 = s.arena := by
  intro s
  have h : s.Ok basePtr capacity := (Usage.ok_start basePtr capacity).run hbase hfit hvalid
  have hfit' : s.arena.base.toNat + s.arena.capacity.toNat ≤ 2 ^ 64 := by rwa [h.base, h.capacity]
  have hbase' : 0 < s.arena.base := by rwa [h.base]
  refine ⟨h.offset, fun b hb => ?_, h.apart, fun size align hop hzero => ?_, fun size align hop hzero => ?_⟩
  · obtain ⟨hstart, hend⟩ := h.inside b hb
    have hoffset := UInt64.le_iff_toNat_le.mp h.offset
    rw [h.capacity] at hoffset
    exact ⟨hstart, by omega, h.aligned b hb⟩
  · obtain ⟨hsize, k, hk⟩ := hop
    rcases alloc_cases hfit' h.offset hsize (hk ▸ Nat.two_pow_pos k) with hnone | ⟨result, a', halloc, htaken⟩
    · rw [hnone]
    · have hbehind := htaken.behind
      rw [halloc] at hzero
      rw [UInt64.lt_iff_toNat_lt, UInt64.toNat_zero] at hbase'
      rw [show result = 0 from hzero, UInt64.toNat_zero] at hbehind
      omega
  · obtain ⟨hsize, k, hk⟩ := hop
    rcases allocNetBuffer_cases hbase' hfit' h.offset hsize (hk ▸ Nat.two_pow_pos k) with
      hnone | ⟨result, a', halloc, hhead, -⟩
    · rw [hnone]
    · rw [halloc] at hzero
      rw [show result = 0 from hzero, UInt64.toNat_zero] at hhead
      omega

/-- A block, a network buffer, and a checkpoint between the two. -/
theorem arena_sound_checkpoint :
    let s := runOps Usage.exec (Usage.start 0x1000 0x1000) [.alloc 10 8, .allocNetBuffer 100 64, .resetTo 20]
    s.arena.offset ≤ s.arena.capacity ∧ s.blocks.Pairwise Block.Apart := by
  have h := @arena_sound 0x1000 0x1000 (by decide) (by decide)
    [.alloc 10 8, .allocNetBuffer 100 64, .resetTo 20] (by
      intro op hop
      simp only [List.mem_cons, List.not_mem_nil, or_false] at hop
      rcases hop with rfl | rfl | rfl
      · exact ⟨by decide, 3, rfl⟩
      · exact ⟨by decide, 6, rfl⟩
      · trivial)
  exact ⟨h.1, h.2.2.1⟩

end Keuos.Alloc
