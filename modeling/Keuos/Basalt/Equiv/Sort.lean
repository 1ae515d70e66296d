import Keuos.Basalt.Equiv.Pivot

/-!
# Quicksort sorts

The ranges that an iteration pushes are the two parts next to its pivot.  A range on the work stack is sorted
before anything below it is popped (`rangeDone`): this is an induction on its length, and the part behind the
pivot, which is pushed last, comes first.

While that part is sorted, the part before the pivot waits on the stack.  `pendingPairs` counts the pairs of
slots that are in use at once.

## Main results

* `quicksortI64_sorts`: the range is sorted, by a rearrangement of its elements, and no other element is
  accessed.
* `quicksortI64_slots_iff`: the work stack of 128 slots suffices exactly for 64 pending pairs.
-/

namespace Keuos.Basalt

open Traced

/-! ### Pending pairs -/

/-- The place of the pivot of a range. -/
def pivotIdx (a : Int → Int64) (low high : Int) : Int := (placePivot low high).val ⟨a, fun _ => 0⟩

/-- The array with the pivot of a range in its place. -/
def placed (a : Int → Int64) (low high : Int) : Int → Int64 :=
    ((placePivot low high).next ⟨a, fun _ => 0⟩).arr

/-- The number of ranges that are on the work stack at once, at most, from the pop of a range until it is
sorted; `n` bounds the length of the range.  A part with fewer than two elements is not pushed, and the part
before the pivot is waiting while the part behind it is sorted. -/
def pendingPairs : Nat → (Int → Int64) → Int → Int → Nat
  | 0, _, _, _ => 1
  | n + 1, a, low, high =>
    let p := pivotIdx a low high
    let b := placed a low high
    let left := if low < p - 1 then pendingPairs n b low (p - 1) else 0
    let right := if p + 1 < high then (if low < p - 1 then 1 else 0) + pendingPairs n b (p + 1) high else 0
    max 1 (max left right)

section PendingPairs

variable {n : Nat} {a b : Int → Int64} {low high : Int}

theorem one_le_pendingPairs (n : Nat) (a : Int → Int64) (low high : Int) : 1 ≤ pendingPairs n a low high := by
  cases n with
  | zero => exact Nat.le_refl 1
  | succ n => exact Nat.le_max_left _ _

theorem placePivot_eq {s : Store} (hlt : low < high) (hs : ∀ k, low ≤ k → k ≤ high → s.arr k = a k) :
    (placePivot low high).val s = pivotIdx a low high ∧
      ∀ k, low ≤ k → k ≤ high → ((placePivot low high).next s).arr k = placed a low high k :=
  placePivot_agrees hlt hs

theorem pendingPairs_congr (hlt : low < high) (hab : ∀ k, low ≤ k → k ≤ high → a k = b k) :
    pendingPairs n a low high = pendingPairs n b low high := by
  induction n generalizing a b low high with
  | zero => rfl
  | succ n ih =>
    obtain ⟨hp, hb⟩ := placePivot_eq (s := ⟨a, fun _ => 0⟩) hlt hab
    obtain ⟨-, hplaced⟩ := placePivot_spec hlt ⟨a, fun _ => 0⟩
    have hp' : pivotIdx a low high = pivotIdx b low high := hp
    have hle := hplaced.le_high
    have hge := hplaced.low_le
    change pivotIdx a low high ≤ high at hle
    change low ≤ pivotIdx a low high at hge
    unfold pendingPairs
    rw [← hp']
    dsimp only
    refine congrArg (max 1) (congrArg₂ max ?_ ?_)
    · by_cases hleft : low < pivotIdx a low high - 1
      · rw [if_pos hleft, if_pos hleft]
        exact ih hleft fun k hk hk' => hb k hk (by omega)
      · rw [if_neg hleft, if_neg hleft]
    · by_cases hright : pivotIdx a low high + 1 < high
      · rw [if_pos hright, if_pos hright]
        congr 1
        exact ih hright fun k hk hk' => hb k (by omega) hk'
      · rw [if_neg hright, if_neg hright]

theorem pendingPairs_succ (hlt : low < high) (n : Nat) {s u : Store} {p : Int}
    (hp : (placePivot low high).val s = p) (hu : (placePivot low high).next s = u) :
    pendingPairs (n + 1) s.arr low high =
      max 1 (max (if low < p - 1 then pendingPairs n u.arr low (p - 1) else 0)
        (if p + 1 < high then
          (if low < p - 1 then 1 else 0) + pendingPairs n u.arr (p + 1) high else 0)) := by
  obtain ⟨hp', hu'⟩ := placePivot_eq (a := s.arr) hlt fun _ _ _ => rfl
  have hplaced := (placePivot_spec hlt s).2
  rw [hp, hu] at hplaced
  rw [hp] at hp'
  rw [hu] at hu'
  have hle := hplaced.le_high
  have hge := hplaced.low_le
  rw [pendingPairs, ← hp']
  refine congrArg (max 1) (congrArg₂ max ?_ ?_)
  · by_cases hleft : low < p - 1
    · rw [if_pos hleft, if_pos hleft]
      exact pendingPairs_congr hleft fun k hk hk' => (hu' k hk (by omega)).symm
    · rw [if_neg hleft, if_neg hleft]
  · by_cases hright : p + 1 < high
    · rw [if_pos hright, if_pos hright]
      congr 1
      exact pendingPairs_congr hright fun k hk hk' => (hu' k (by omega) hk').symm
    · rw [if_neg hright, if_neg hright]

end PendingPairs

/-! ### Runs of the loop -/

/-- After `k` tests from the state `s`, the loop is at the state `t`. -/
structure Runs (k : Nat) (top : Int) (s : Store) (events : List Access) (top' : Int) (t : Store) : Prop where
  val : ∀ fuel, (quicksortLoop (k + fuel) top).val s = (quicksortLoop fuel top').val t
  next : ∀ fuel, (quicksortLoop (k + fuel) top).next s = (quicksortLoop fuel top').next t
  log : ∀ fuel, (quicksortLoop (k + fuel) top).log s = events ++ (quicksortLoop fuel top').log t

theorem Runs.refl (top : Int) (s : Store) : Runs 0 top s [] top s := by
  constructor
  · intro fuel
    rw [Nat.zero_add]
  · intro fuel
    rw [Nat.zero_add]
  · intro fuel
    rw [Nat.zero_add, List.nil_append]

theorem Runs.trans {k k' : Nat} {top top' top'' : Int} {s t u : Store} {events events' : List Access}
    (h : Runs k top s events top' t) (h' : Runs k' top' t events' top'' u) :
    Runs (k + k') top s (events ++ events') top'' u := by
  constructor
  · intro fuel
    rw [Nat.add_assoc, h.val, h'.val]
  · intro fuel
    rw [Nat.add_assoc, h.next, h'.next]
  · intro fuel
    rw [Nat.add_assoc, h.log, h'.log, List.append_assoc]

theorem runs_iteration {s : Store} {base low high : Int} (hbase : -1 ≤ base) (hlt : low < high)
    (hhigh : s.stack (base + 2) = high) (hlow : s.stack (base + 1) = low) {p : Int} {u : Store}
    (hp : (placePivot low high).val s = p) (hu : (placePivot low high).next s = u) :
    Runs 1 (base + 2) s ([.slot (base + 2), .slot (base + 1)] ++ (placePivot low high).log s ++
      (pushParts base low high p).log u) ((pushParts base low high p).val u)
        ((pushParts base low high p).next u) := by
  subst hp
  subst hu
  have hpos : base + 2 ≥ 0 := by omega
  have hslot : base + 2 - 1 = base + 1 := by omega
  have htop : base + 2 - 2 = base := by omega
  have hnot : ¬ low ≥ high := by omega
  have hloop : ∀ fuel, quicksortLoop (1 + fuel) (base + 2) = quicksortLoop (fuel + 1) (base + 2) :=
    fun fuel => by rw [Nat.add_comm]
  constructor
  all_goals
    intro fuel
    rw [hloop, quicksortLoop, if_pos hpos, hslot, htop]
  · rw [val_bind, val_readSlot, next_readSlot, val_bind, val_readSlot, next_readSlot, hhigh,
      hlow, if_neg hnot,
      val_bind, val_bind]
  · rw [next_bind, val_readSlot, next_readSlot, next_bind, val_readSlot, next_readSlot, hhigh,
      hlow, if_neg hnot,
      next_bind, next_bind]
  · rw [log_bind, val_readSlot, next_readSlot, log_bind, val_readSlot, next_readSlot, hhigh,
      hlow, if_neg hnot]
    rw [log_bind, log_bind]
    simp only [List.append_assoc]
    rfl

/-! ### The pushes of an iteration -/

/-- The top of the stack above a range that is on it, if it has more than one element. -/
def topAfter (base low high : Int) : Int := if low < high then base + 2 else base

/-- The push of a range, if it has more than one element. -/
structure Pushed (base low high : Int) (u v : Store) (events : List Access) : Prop where
  arr : v.arr = u.arr
  below : ∀ i ≤ base, v.stack i = u.stack i
  part : low < high → v.stack (base + 2) = high ∧ v.stack (base + 1) = low
  slots : ∀ e ∈ events, ∃ i, e = .slot i ∧ base < i ∧ i ≤ topAfter base low high

section Pushes

variable {base low high : Int}

theorem push_spec (hlt : low < high) (u : Store) :
    Pushed base low high u ((push base low high).next u) ((push base low high).log u) := by
  have hstack : ((push base low high).next u).stack =
    Function.update (Function.update u.stack (base + 1) low) (base + 2) high := rfl
  have hlog : (push base low high).log u = [.slot (base + 1), .slot (base + 2)] := rfl
  refine ⟨rfl, ?_, ?_, ?_⟩
  · intro i hi
    have hne : i ≠ base + 2 := by omega
    have hne' : i ≠ base + 1 := by omega
    rw [hstack, Function.update_of_ne hne, Function.update_of_ne hne']
  · intro _
    have hne : base + 1 ≠ base + 2 := by omega
    rw [hstack, Function.update_self, Function.update_of_ne hne, Function.update_self]
    exact ⟨rfl, rfl⟩
  · have htop : topAfter base low high = base + 2 := if_pos hlt
    rw [hlog, htop]
    intro e he
    rcases List.mem_cons.mp he with rfl | he
    · exact ⟨base + 1, rfl, by omega, by omega⟩
    · obtain rfl := List.mem_singleton.mp he
      exact ⟨base + 2, rfl, by omega, by omega⟩

theorem pushPart_spec (base low high : Int) (u : Store) :
    (pushPart base low high).val u = topAfter base low high ∧
      Pushed base low high u ((pushPart base low high).next u) ((pushPart base low high).log u) := by
  by_cases hlt : low < high
  · have hpush : pushPart base low high = push base low high := if_pos hlt
    have htop : topAfter base low high = base + 2 := if_pos hlt
    rw [hpush, htop]
    exact ⟨rfl, push_spec hlt u⟩
  · have hpush : pushPart base low high = pure base := if_neg hlt
    have htop : topAfter base low high = base := if_neg hlt
    rw [hpush, htop]
    exact ⟨rfl, rfl, fun _ _ => rfl, fun h => absurd h hlt, by simp⟩

/-- **The pushes of an iteration**: the left part, and on top of it the right part. -/
theorem pushParts_spec (base low high p : Int) (u : Store) :
    (pushParts base low high p).val u = topAfter (topAfter base low (p - 1)) (p + 1) high ∧
      ∃ v events events', (pushParts base low high p).log u = events ++ events' ∧
        Pushed base low (p - 1) u v events ∧
        Pushed (topAfter base low (p - 1)) (p + 1) high v ((pushParts base low high p).next u) events' := by
  obtain ⟨hval, hleft⟩ := pushPart_spec base low (p - 1) u
  obtain ⟨hval', hright⟩ := pushPart_spec (topAfter base low (p - 1)) (p + 1) high
    ((pushPart base low (p - 1)).next u)
  unfold pushParts
  rw [val_bind, next_bind, log_bind, hval]
  exact ⟨hval', _, _, _, rfl, hleft, hright⟩

end Pushes

/-! ### A range is sorted -/

/-- The access is to an element of the range or to one of the slots. -/
def Covered (low high first last : Int) : Access → Prop
  | .array i => low ≤ i ∧ i ≤ high
  | .slot i => first ≤ i ∧ i ≤ last

theorem Covered.mono {low high first last low' high' first' last' : Int} {e : Access}
    (h : Covered low' high' first' last' e) (hlow : low ≤ low') (hhigh : high' ≤ high)
        (hfirst : first ≤ first')
    (hlast : last' ≤ last) : Covered low high first last e := by
  cases e with
  | array i =>
    unfold Covered at h ⊢
    omega
  | slot i =>
    unfold Covered at h ⊢
    omega

/-- From the state `s`, where the range is on the work stack at `base` unless it has fewer than two elements,
the loop sorts the range and comes down to `base`.  It uses `pairs` pairs of slots above `base`. -/
structure RangeDone (low high base : Int) (pairs : Nat) (s : Store) (k : Nat) (events : List Access)
    (t : Store) : Prop where
  short : (k : Int) ≤ max 0 (high - low)
  runs : Runs k (topAfter base low high) s events base t
  perm : PermOn low high s.arr t.arr
  sorted : SortedOn (· ≤ ·) low high t.arr
  stack : ∀ i ≤ base, t.stack i = s.stack i
  covered : ∀ e ∈ events, low < high ∧ Covered low high (base + 1) (base + 2 * pairs) e
  reached : low < high → .slot (base + 2 * pairs) ∈ events

theorem rangeDone_of_le {low high : Int} (hle : high ≤ low) (base : Int) (pairs : Nat) (s : Store) :
    RangeDone low high base pairs s 0 [] s where
  short := by omega
  runs := by
    have htop : topAfter base low high = base := if_neg (by omega)
    rw [htop]
    exact .refl base s
  perm := .refl low high s.arr
  sorted := .of_le hle
  stack := fun _ _ => rfl
  covered := by simp
  reached := fun hlt => by omega

theorem sorted_of_parts {low high p : Int} {a b c : Int → Int64} (hplaced : Placed low high p a)
    (hright : PermOn (p + 1) high a b) (hrsorted : SortedOn (· ≤ ·) (p + 1) high b)
    (hleft : PermOn low (p - 1) b c) (hlsorted : SortedOn (· ≤ ·) low (p - 1) c) :
    SortedOn (· ≤ ·) low high c := by
  have hpivot : c p = a p := by
    rw [hleft.apply_of_outside (by omega), hright.apply_of_outside (by omega)]
  have hbefore : ∀ i, low ≤ i ∧ i ≤ p - 1 → c i ≤ a p := by
    apply hleft.forall_range (p := (· ≤ a p))
    intro i hi
    rw [hright.apply_of_outside (by omega)]
    exact hplaced.before i hi.1 (by omega)
  have hbehind : ∀ i, p + 1 ≤ i ∧ i ≤ high → a p ≤ c i := by
    intro i hi
    rw [hleft.apply_of_outside (by omega)]
    exact hright.forall_range (p := (a p ≤ ·)) (fun k hk => hplaced.behind k (by omega) hk.2) i hi
  refine SortedOn.stitch (p := p) Int64.le_trans hlsorted ?_ ?_ ?_
  · exact hrsorted.congr fun i hi hi' => hleft.apply_of_outside (by omega)
  · intro i hi hip
    rw [hpivot]
    exact hbefore i ⟨hi, by omega⟩
  · intro i hip hi
    rw [hpivot]
    exact hbehind i ⟨by omega, hi⟩

/-- The slots of the parts and those of the range, when `mid` is the top of the stack above the left part. -/
structure PairsOf (low high p base mid : Int) (left right pairs : Nat) : Prop where
  pos : 1 ≤ pairs
  mid_le : mid ≤ base + 2
  le_mid : base ≤ mid
  left_le : low < p - 1 → left ≤ pairs
  right_le : p + 1 < high → mid + 2 * right ≤ base + 2 * pairs
  attained : pairs = 1 ∨ (low < p - 1 ∧ pairs = left) ∨ (p + 1 < high ∧ base + 2 * pairs = mid + 2 * right)

theorem pairsOf_max (low high p base : Int) {left right : Nat} :
    PairsOf low high p base (topAfter base low (p - 1)) left right
      (max 1 (max (if low < p - 1 then left else 0)
        (if p + 1 < high then (if low < p - 1 then 1 else 0) + right else 0))) := by
  unfold topAfter
  by_cases hleft : low < p - 1
  · by_cases hright : p + 1 < high
    · simp only [hleft, hright, if_true]
      constructor <;> omega
    · simp only [hleft, hright, if_true, if_false]
      constructor <;> omega
  · by_cases hright : p + 1 < high
    · simp only [hleft, hright, if_true, if_false]
      constructor <;> omega
    · simp only [hleft, hright, if_false]
      constructor <;> omega

/-- **A range is sorted** before the loop comes back to what is below it. -/
theorem rangeDone (n : Nat) {low high base : Int} {s : Store} (hbase : -1 ≤ base) (hn : high - low ≤ n)
    (hstack : low < high → s.stack (base + 2) = high ∧ s.stack (base + 1) = low) :
    ∃ k events t, RangeDone low high base (pendingPairs n s.arr low high) s k events t := by
  induction n generalizing low high base s with
  | zero => exact ⟨0, [], s, rangeDone_of_le (by omega) base _ s⟩
  | succ n ih =>
    by_cases hlt : low < high
    · obtain ⟨hhigh, hlow⟩ := hstack hlt
      obtain ⟨hre, hplaced⟩ := placePivot_spec hlt s
      generalize hp : (placePivot low high).val s = p at *
      generalize hu : (placePivot low high).next s = u at *
      have hiter := runs_iteration hbase hlt hhigh hlow hp hu
      have hpairs := pendingPairs_succ hlt n hp hu
      obtain ⟨hval, v, pushed, pushed', hlog, hpl, hpr⟩ := pushParts_spec base low high p u
      rw [hval, hlog] at hiter
      generalize (pushParts base low high p).next u = w at *
      have hge := hplaced.low_le
      have hle := hplaced.le_high
      have hwu : w.arr = u.arr := hpr.arr.trans hpl.arr
      have hmid := @pairsOf_max low high p base (pendingPairs n u.arr low (p - 1))
          (pendingPairs n u.arr (p + 1) high)
      rw [← hpairs] at hmid
      have htop : low < p - 1 → topAfter base low (p - 1) = base + 2 := fun hparts => if_pos hparts
      generalize hmidtop : topAfter base low (p - 1) = mid at *
      have hmid_le := hmid.mid_le
      have hle_mid := hmid.le_mid
      -- The right part is on top of the left one.
      obtain ⟨k, events, t, hright⟩ := @ih (p + 1) high mid w (by omega) (by omega) hpr.part
      obtain ⟨k', events', t', hleft⟩ := @ih low (p - 1) base t hbase (by omega) (fun hparts => by
        have hmid' := htop hparts
        rw [hright.stack _ (by omega), hright.stack _ (by omega), hpr.below _ (by omega),
          hpr.below _ (by omega)]
        exact hpl.part hparts)
      have hshort := hright.short
      have hshort' := hleft.short
      have hsame : ∀ i, low ≤ i → i ≤ p - 1 → t.arr i = u.arr i := by
        intro i hi hip
        rw [hright.perm.apply_of_outside (by omega), hwu]
      rw [hwu] at hright
      have hlruns := hleft.runs
      rw [hmidtop] at hlruns
      have hruns := (hiter.trans hright.runs).trans hlruns
      have htop' : topAfter base low high = base + 2 := if_pos hlt
      refine ⟨1 + k + k', [.slot (base + 2), .slot (base + 1)] ++ (placePivot low high).log s ++
        (pushed ++ pushed') ++ events ++ events', t', ?_, ?_, ?_, ?_, ?_, ?_, ?_⟩
      · omega
      · rw [htop']
        exact hruns
      · have hperm := hre.perm
        rw [hu] at hperm
        exact (hperm.trans (hwu ▸ hright.perm.mono (by omega) (by omega))).trans
          (hleft.perm.mono (by omega) (by omega))
      · exact sorted_of_parts hplaced (hwu ▸ hright.perm) hright.sorted hleft.perm hleft.sorted
      · intro i hi
        rw [hleft.stack i hi, hright.stack i (by omega), hpr.below i (by omega), hpl.below i hi,
          ← hu, hre.stack]
      · intro e he
        refine ⟨hlt, ?_⟩
        have hpos := hmid.pos
        simp only [List.mem_append, List.mem_cons, List.not_mem_nil, or_false] at he
        rcases he with ((((rfl | rfl) | he) | he | he) | he) | he
        · unfold Covered
          omega
        · unfold Covered
          omega
        · have hin := hre.inside e he
          cases e with
          | array i => exact hin
          | slot i => exact hin.elim
        · obtain ⟨i, rfl, hi, hi'⟩ := hpl.slots e he
          unfold Covered
          omega
        · obtain ⟨i, rfl, hi, hi'⟩ := hpr.slots e he
          have hright_le := hmid.right_le
          have hone := one_le_pendingPairs n u.arr (p + 1) high
          unfold topAfter at hi'
          unfold Covered
          split_ifs at hi' with hparts
          · have := hright_le hparts
            omega
          · omega
        · obtain ⟨hparts, hcov⟩ := hright.covered e he
          have hright_le := hmid.right_le hparts
          exact hcov.mono (by omega) (by omega) (by omega) (by omega)
        · obtain ⟨hparts, hcov⟩ := hleft.covered e he
          have hleft_le := hmid.left_le hparts
          rw [pendingPairs_congr hparts hsame] at hcov
          exact hcov.mono (by omega) (by omega) (by omega) (by omega)
      · intro _
        simp only [List.mem_append, List.mem_cons, List.not_mem_nil, or_false]
        rcases hmid.attained with hone | ⟨hparts, heq⟩ | ⟨hparts, heq⟩
        · have hslot : base + 2 * (pendingPairs (n + 1) s.arr low high : Int) = base + 2 := by omega
          rw [hslot]
          simp
        · have hreach := hleft.reached hparts
          rw [pendingPairs_congr hparts hsame, ← heq] at hreach
          exact .inr hreach
        · have hreach := hright.reached hparts
          rw [← heq] at hreach
          exact .inl (.inr hreach)
    · exact ⟨0, [], s, rangeDone_of_le (by omega) base _ s⟩

/-! ### The whole function -/

section Quicksort

variable {low high : Int} {stack : UInt64} {fuel : Nat}

theorem quicksortI64_of_le (h : high ≤ low ∨ stack = 0) (fuel : Nat) : quicksortI64 fuel stack low high =
    pure true := by
  unfold quicksortI64
  rcases h with hle | hzero
  · rw [if_pos hle]
  · rw [if_pos hzero, ite_self]

theorem quicksortI64_run (s : Store) (hlt : low < high) (hstack : stack ≠ 0) (hfuel : high - low < fuel) :
    ∃ events t, (quicksortI64 fuel stack low high).val s = true ∧
      (quicksortI64 fuel stack low high).next s = t ∧
      (quicksortI64 fuel stack low high).log s = [.slot 0, .slot 1] ++ events ∧
      ∃ u k, u.arr = s.arr ∧
        RangeDone low high (-1) (pendingPairs (high - low).toNat s.arr low high) u k events t := by
  have hrun : quicksortI64 fuel stack low high = (do
      let top ← push (-1) low high
      quicksortLoop fuel top) := by
    unfold quicksortI64
    rw [if_neg (Int.not_le.mpr hlt), if_neg hstack]
  have hpush := @push_spec (-1) low high hlt s
  have hlog : (push (-1) low high).log s = [.slot 0, .slot 1] := rfl
  have htop : (push (-1) low high).val s = -1 + 2 := rfl
  generalize hu : (push (-1) low high).next s = u at *
  obtain ⟨k, events, t, hdone⟩ := rangeDone (high - low).toNat (s := u) (Int.le_refl (-1))
      (by omega) hpush.part
  have hruns := hdone.runs
  have htop' : topAfter (-1) low high = -1 + 2 := if_pos hlt
  rw [htop'] at hruns
  have hshort := hdone.short
  obtain ⟨rest, rfl⟩ : ∃ rest, fuel = k + (rest + 1) := ⟨fuel - k - 1, by omega⟩
  have hend : quicksortLoop (rest + 1) (-1) = pure true := by
    rw [quicksortLoop, if_neg (by omega)]
  rw [hpush.arr] at hdone
  refine ⟨events, t, ?_, ?_, ?_, u, k, hpush.arr, hdone⟩
  · rw [hrun, val_bind, htop, hu, hruns.val, hend, val_pure]
  · rw [hrun, next_bind, htop, hu, hruns.next, hend, next_pure]
  · rw [hrun, log_bind, htop, hu, hruns.log, hend, log_pure, hlog, List.append_nil]

/-- The program sorts the range, and touches no other element. -/
structure Sorts (low high : Int) (s : Store) (x : Sorter Bool) : Prop where
  ended : x.val s = true
  sorted : ∀ i j, low ≤ i → i ≤ j → j ≤ high → (x.next s).arr i ≤ (x.next s).arr j
  perm : PermOn low high s.arr (x.next s).arr
  others : ∀ i, ¬(low ≤ i ∧ i ≤ high) → (x.next s).arr i = s.arr i
  inside : ∀ i, Access.array i ∈ x.log s → low ≤ i ∧ i ≤ high

/-- **Quicksort sorts** the range, if it gets a work stack. -/
theorem quicksortI64_sorts (s : Store) {low high : Int} {stack : UInt64} {fuel : Nat} (hstack : stack ≠ 0)
    (hfuel : high - low < fuel) : Sorts low high s (quicksortI64 fuel stack low high) := by
  by_cases hlt : low < high
  · obtain ⟨events, t, hval, hnext, hlog, u, k, hu, hdone⟩ := quicksortI64_run s hlt hstack hfuel
    have hperm := hdone.perm
    rw [hu] at hperm
    refine ⟨hval, ?_, hnext ▸ hperm, ?_, ?_⟩
    · intro i j hi hij hj
      rw [hnext]
      by_cases heq : i = j
      · rw [heq]
        exact Int64.le_refl _
      · exact hdone.sorted i j hi (by omega) hj
    · intro i hi
      rw [hnext]
      exact hperm.apply_of_outside hi
    · intro i hi
      rw [hlog] at hi
      simp only [List.cons_append, List.nil_append, List.mem_cons, reduceCtorEq, false_or] at hi
      exact (hdone.covered _ hi).2
  · rw [quicksortI64_of_le (.inl (Int.not_lt.mp hlt))]
    refine ⟨rfl, ?_, .refl low high s.arr, fun _ _ => rfl, by simp⟩
    intro i j hi hij hj
    have heq : i = j := by omega
    rw [heq]
    exact Int64.le_refl _

/-- Elements that are not sorted, some of them equal. -/
def unsorted : Store := ⟨fun i => Int64.ofInt (7 * i % 5 - 2), fun _ => 0⟩

/-- A range of nine elements, on a work stack at `0x1000`. -/
theorem quicksortI64_sorts_unsorted : Sorts 4 12 unsorted (quicksortI64 9 0x1000 4 12) :=
  quicksortI64_sorts unsorted (by decide) (by decide)

/-- **The work stack** of 128 slots suffices exactly when no more than 64 ranges are ever pending. -/
theorem quicksortI64_slots_iff (s : Store) {low high : Int} {stack : UInt64} {fuel : Nat}
    (hfuel : high - low < fuel) :
    (∀ i, Access.slot i ∈ (quicksortI64 fuel stack low high).log s → 0 ≤ i ∧ i ≤ 127) ↔
      stack = 0 ∨ pendingPairs (high - low).toNat s.arr low high ≤ 64 := by
  by_cases hnone : high ≤ low ∨ stack = 0
  · rw [quicksortI64_of_le hnone]
    refine iff_of_true (by simp) ?_
    rcases hnone with hle | hzero
    · have hn : (high - low).toNat = 0 := by omega
      rw [hn]
      exact .inr (by decide : 1 ≤ 64)
    · exact .inl hzero
  · push Not at hnone
    obtain ⟨hle, hstack⟩ := hnone
    have hlt : low < high := by omega
    obtain ⟨events, t, -, -, hlog, u, k, -, hdone⟩ := quicksortI64_run s hlt hstack hfuel
    have hpos := one_le_pendingPairs (high - low).toNat s.arr low high
    generalize pendingPairs (high - low).toNat s.arr low high = pairs at *
    rw [hlog]
    constructor
    · intro h
      have hlast := h _ (List.mem_append_right _ (hdone.reached hlt))
      exact .inr (by omega)
    · rintro (hzero | hle) i hi
      · exact absurd hzero hstack
      · rcases List.mem_append.mp hi with hi | hi
        · simp only [List.mem_cons, Access.slot.injEq, List.not_mem_nil, or_false] at hi
          omega
        · have hcov := (hdone.covered _ hi).2
          unfold Covered at hcov
          omega

/-- The same range of nine elements. -/
theorem quicksortI64_slots_iff_unsorted :
    (∀ i, Access.slot i ∈ (quicksortI64 9 0x1000 4 12).log unsorted → 0 ≤ i ∧ i ≤ 127) ↔
      (0x1000 : UInt64) = 0 ∨ pendingPairs ((12 : Int) - 4).toNat unsorted.arr 4 12 ≤ 64 :=
  quicksortI64_slots_iff unsorted (by decide)

end Quicksort

end Keuos.Basalt
