import Keuos.Lib.Recency
import Keuos.Netd.Defs
import Mathlib.Data.Finset.Card
import Mathlib.Data.List.Nodup
import Mathlib.Tactic.FinCases

/-!
# The ARP cache is an exact LRU map

A use is an `update` or a `lookup` that succeeds.  The stamps order the valid entries by their
latest use, so the addresses in the table are the first 256 of the order of latest use of the
whole run (`Lru`), and the entry that a full table gives up is the last of them.

## Main results

* `Lru.exec`: one call keeps the invariant.
* `lru_run`: what the table holds, what a `lookup` returns and what an `update` evicts after any
  sequence of fewer than `2 ^ 64` calls.
-/

namespace Keuos.Netd.Arp

/-! ### The history of a run -/

/-- The address that a call uses. -/
def used (s : ArpState) : Call → Option UInt32
  | .lookup ip outMac => if (lookup s ip outMac).1 then some ip else none
  | .update ip _ => some ip

/-- The addresses used by a sequence of calls, in order. -/
def usesFrom (s : ArpState) : List Call → List UInt32
  | [] => []
  | c :: cs => (used s c).toList ++ usesFrom (exec s c) cs

/-- The MAC of the latest `update` of an address. -/
def latestMac (calls : List Call) (ip : UInt32) : Option Mac :=
  calls.foldl (fun m c =>
    match c with
    | .update ip' mac => if ip' = ip then some mac else m
    | .lookup _ _ => m) none

theorem latestMac_lookup (calls : List Call) (ip ip' : UInt32) (outMac : Mac) :
    latestMac (calls ++ [.lookup ip' outMac]) ip = latestMac calls ip := by
  simp [latestMac]

theorem latestMac_update (calls : List Call) (ip ip' : UInt32) (mac : Mac) :
    latestMac (calls ++ [.update ip' mac]) ip =
      if ip' = ip then some mac else latestMac calls ip := by
  simp [latestMac]

/-! ### The scans -/

theorem scanFrom_eq_some {p : ArpEntry → Bool} {table : Nat → ArpEntry} {i : Nat} :
    ∀ {n lo : Nat}, scanFrom p table n lo = some i → i < lo + n ∧ p (table i) = true := by
  intro n
  induction n with
  | zero =>
    intro lo h
    cases h
  | succ n ih =>
    intro lo h
    rw [scanFrom] at h
    split at h
    · rename_i hp
      cases h
      exact ⟨by omega, hp⟩
    · obtain ⟨hlt, hp⟩ := ih h
      exact ⟨by omega, hp⟩

theorem scanFrom_eq_none {p : ArpEntry → Bool} {table : Nat → ArpEntry} :
    ∀ {n lo : Nat}, scanFrom p table n lo = none → ∀ i, lo ≤ i → i < lo + n →
      p (table i) = false := by
  intro n
  induction n with
  | zero =>
    intro lo _ i hlo hi
    omega
  | succ n ih =>
    intro lo h i hlo hi
    rw [scanFrom] at h
    split at h
    · cases h
    · rename_i hp
      rcases Nat.eq_or_lt_of_le hlo with rfl | hlt
      · simpa using hp
      · exact ih h i hlt (by omega)

theorem oldestFrom_spec (table : Nat → ArpEntry) : ∀ (n i idx : Nat) (ts : UInt64),
    idx < i → (table idx).timestamp = ts → (∀ j < i, ts ≤ (table j).timestamp) →
    oldestFrom table n i idx ts < i + n ∧
    ∀ j < i + n, (table (oldestFrom table n i idx ts)).timestamp ≤ (table j).timestamp := by
  intro n
  induction n with
  | zero =>
    intro i idx ts hidx hts hmin
    refine ⟨hidx, ?_⟩
    intro j hj
    show (table idx).timestamp ≤ _
    rw [hts]
    exact hmin j hj
  | succ n ih =>
    intro i idx ts hidx hts hmin
    rw [oldestFrom, show i + (n + 1) = i + 1 + n by omega]
    split
    · rename_i hlt
      apply ih (i + 1) i _ (Nat.lt_succ_self i) rfl
      intro j hj
      rcases Nat.eq_or_lt_of_le (Nat.le_of_lt_succ hj) with rfl | hji
      · exact UInt64.le_refl _
      · exact UInt64.le_trans (UInt64.le_of_lt hlt) (hmin j hji)
    · rename_i hge
      apply ih (i + 1) idx ts (by omega) hts
      intro j hj
      rcases Nat.eq_or_lt_of_le (Nat.le_of_lt_succ hj) with rfl | hji
      · exact UInt64.not_lt.mp hge
      · exact hmin j hji

theorem copyMac_eq (out mac : Mac) : copyMac out mac = mac := by
  funext j
  fin_cases j <;> rfl

/-! ### The order of the stamps -/

/-- The addresses of a list of entries. -/
def ips (s : ArpState) (order : List Nat) : List UInt32 :=
  order.map fun i => (s.table i).ip

/-- The valid entries, the most recently stamped one first. -/
structure Stamped (s : ArpState) (order : List Nat) : Prop where
  nodup : order.Nodup
  mem_iff : ∀ i, i ∈ order ↔ i < arpTableSize ∧ (s.table i).valid = true
  stamps : order.Pairwise fun i j => (s.table j).timestamp < (s.table i).timestamp
  le_clock : ∀ i ∈ order, (s.table i).timestamp ≤ s.clock

/-- Entry `i` is written with the next value of the clock. -/
def stamp (s : ArpState) (i : Nat) (ip : UInt32) (mac : Mac) : ArpState :=
  ArpState.set { s with clock := s.clock + 1 } i ⟨ip, mac, true, s.clock + 1⟩

@[simp] theorem stamp_self (s : ArpState) (i : Nat) (ip : UInt32) (mac : Mac) :
    (stamp s i ip mac).table i = ⟨ip, mac, true, s.clock + 1⟩ :=
  Function.update_self ..

theorem stamp_of_ne (s : ArpState) {i j : Nat} (ip : UInt32) (mac : Mac) (h : j ≠ i) :
    (stamp s i ip mac).table j = s.table j :=
  Function.update_of_ne h ..

@[simp] theorem stamp_clock (s : ArpState) (i : Nat) (ip : UInt32) (mac : Mac) :
    (stamp s i ip mac).clock = s.clock + 1 := rfl

theorem clock_lt_succ {c : UInt64} (h : c.toNat + 1 < 2 ^ 64) : c < c + 1 := by
  rw [UInt64.lt_iff_toNat_lt, UInt64.toNat_add, UInt64.toNat_one]
  omega

/-- **The stamped entry becomes the first of the order.** -/
theorem Stamped.stamp {s : ArpState} {order : List Nat} (h : Stamped s order) {i : Nat}
    (hi : i < arpTableSize) (ip : UInt32) (mac : Mac) (hclock : s.clock.toNat + 1 < 2 ^ 64) :
    Stamped (stamp s i ip mac) (i :: order.filter (· ≠ i)) := by
  have hlt := clock_lt_succ hclock
  have hmem : ∀ {j : Nat}, j ∈ order.filter (· ≠ i) ↔ j ∈ order ∧ j ≠ i := by
    intro j
    simp
  constructor
  · rw [List.nodup_cons]
    exact ⟨fun hin => (hmem.mp hin).2 rfl, h.nodup.filter _⟩
  · intro j
    by_cases hj : j = i
    · rw [hj, stamp_self]
      exact ⟨fun _ => ⟨hi, rfl⟩, fun _ => List.mem_cons_self⟩
    · rw [List.mem_cons, hmem, stamp_of_ne s ip mac hj, h.mem_iff]
      constructor
      · rintro (heq | ⟨hvalid, -⟩)
        · exact absurd heq hj
        · exact hvalid
      · intro hvalid
        exact Or.inr ⟨hvalid, hj⟩
  · rw [List.pairwise_cons]
    constructor
    · intro j hin
      obtain ⟨hin', hj⟩ := hmem.mp hin
      rw [stamp_self, stamp_of_ne s ip mac hj]
      exact UInt64.lt_of_le_of_lt (h.le_clock j hin') hlt
    · apply (h.stamps.filter _).imp_of_mem
      intro j k hj hk hjk
      rw [stamp_of_ne s ip mac (hmem.mp hj).2, stamp_of_ne s ip mac (hmem.mp hk).2]
      exact hjk
  · intro j hin
    rw [stamp_clock]
    rcases List.mem_cons.mp hin with rfl | hin
    · rw [stamp_self]
      exact UInt64.le_refl _
    · obtain ⟨hin', hj⟩ := hmem.mp hin
      rw [stamp_of_ne s ip mac hj]
      exact UInt64.le_of_lt (UInt64.lt_of_le_of_lt (h.le_clock j hin') hlt)

theorem ips_stamp (s : ArpState) (order : List Nat) (i : Nat) (ip : UInt32) (mac : Mac) :
    ips (stamp s i ip mac) (i :: order.filter (· ≠ i)) = ip :: ips s (order.filter (· ≠ i)) := by
  unfold ips
  rw [List.map_cons, stamp_self]
  congr 1
  apply List.map_congr_left
  intro j hj
  rw [stamp_of_ne s ip mac (by simpa using (List.mem_filter.mp hj).2)]

/-! ### The calls by the entry they stamp -/

theorem holds_iff {ip : UInt32} {e : ArpEntry} :
    e.holds ip = true ↔ e.valid = true ∧ e.ip = ip := by
  simp [ArpEntry.holds]

/-- A call that finds its address stamps that entry. -/
theorem set_eq_stamp {s : ArpState} {i : Nat} {ip : UInt32} {mac : Mac}
    (h : (s.table i).holds ip = true) :
    ArpState.set { s with clock := s.clock + 1 } i
        { s.table i with mac := mac, timestamp := s.clock + 1 } = stamp s i ip mac := by
  obtain ⟨hvalid, hip⟩ := holds_iff.mp h
  unfold stamp
  rw [← hvalid, ← hip]

theorem lookup_of_some {s : ArpState} {i : Nat} {ip : UInt32} (outMac : Mac)
    (h : scanFrom (ArpEntry.holds ip) s.table arpTableSize 0 = some i) :
    lookup s ip outMac = (true, (s.table i).mac, stamp s i ip (s.table i).mac) := by
  unfold lookup
  rw [h]
  simp only
  rw [copyMac_eq, ← set_eq_stamp (scanFrom_eq_some h).2]

theorem lookup_of_none {s : ArpState} {ip : UInt32} (outMac : Mac)
    (h : scanFrom (ArpEntry.holds ip) s.table arpTableSize 0 = none) :
    lookup s ip outMac = (false, outMac, s) := by
  unfold lookup
  rw [h]

/-- The entry that a full table gives up. -/
def oldest (s : ArpState) : Nat :=
  oldestFrom s.table (arpTableSize - 1) 1 0 (s.table 0).timestamp

theorem oldest_lt (s : ArpState) : oldest s < arpTableSize :=
  (oldestFrom_spec s.table (arpTableSize - 1) 1 0 _ Nat.zero_lt_one rfl (by
    intro j hj
    rw [Nat.lt_one_iff.mp hj]
    exact UInt64.le_refl _)).1

theorem oldest_le (s : ArpState) {j : Nat} (hj : j < arpTableSize) :
    (s.table (oldest s)).timestamp ≤ (s.table j).timestamp :=
  (oldestFrom_spec s.table (arpTableSize - 1) 1 0 _ Nat.zero_lt_one rfl (by
    intro j hj
    rw [Nat.lt_one_iff.mp hj]
    exact UInt64.le_refl _)).2 j hj

theorem update_cases (s : ArpState) (ip : UInt32) (mac : Mac) :
    (∃ i < arpTableSize, (s.table i).holds ip = true ∧ update s ip mac = stamp s i ip mac) ∨
    (∃ i < arpTableSize, (∀ j < arpTableSize, (s.table j).holds ip = false) ∧
      (s.table i).valid = false ∧ update s ip mac = stamp s i ip mac) ∨
    ((∀ j < arpTableSize, (s.table j).holds ip = false) ∧
      (∀ j < arpTableSize, (s.table j).valid = true) ∧
      update s ip mac = stamp s (oldest s) ip mac) := by
  unfold update
  simp only
  cases hfind : scanFrom (ArpEntry.holds ip) s.table arpTableSize 0 with
  | some i =>
    obtain ⟨hi, hholds⟩ := scanFrom_eq_some hfind
    exact Or.inl ⟨i, by omega, hholds, set_eq_stamp hholds⟩
  | none =>
    have hnone : ∀ j < arpTableSize, (s.table j).holds ip = false := fun j hj =>
      scanFrom_eq_none hfind j (Nat.zero_le j) (by omega)
    cases hfree : scanFrom (fun e => !e.valid) s.table arpTableSize 0 with
    | some i =>
      obtain ⟨hi, hvalid⟩ := scanFrom_eq_some hfree
      exact Or.inr (Or.inl ⟨i, by omega, hnone, by simpa using hvalid, rfl⟩)
    | none =>
      refine Or.inr (Or.inr ⟨hnone, ?_, rfl⟩)
      intro j hj
      simpa using scanFrom_eq_none hfree j (Nat.zero_le j) (by omega)

/-! ### The invariant -/

/-- After the calls `calls`, which have used the addresses `uses`: the stamps order the valid
entries by their latest use, and each of them has the MAC of the latest update of its address. -/
structure Lru (s : ArpState) (uses : List UInt32) (calls : List Call) (order : List Nat) :
    Prop where
  stamped : Stamped s order
  ips_eq : ips s order = (recent uses).take arpTableSize
  mac_eq : ∀ i ∈ order, latestMac calls (s.table i).ip = some (s.table i).mac
  clock_le : s.clock.toNat ≤ calls.length

namespace Lru

variable {s : ArpState} {uses : List UInt32} {calls : List Call} {order : List Nat}

theorem ip_inj (h : Lru s uses calls order) {i j : Nat} (hi : i ∈ order) (hj : j ∈ order)
    (heq : (s.table i).ip = (s.table j).ip) : i = j := by
  have hnodup : (order.map fun i => (s.table i).ip).Nodup := by
    show (ips s order).Nodup
    rw [h.ips_eq]
    exact (nodup_recent uses).sublist (List.take_sublist _ _)
  exact List.inj_on_of_nodup_map hnodup hi hj heq

theorem mem_take_iff (h : Lru s uses calls order) {ip : UInt32} :
    ip ∈ (recent uses).take arpTableSize ↔ ∃ i < arpTableSize, (s.table i).holds ip = true := by
  rw [← h.ips_eq]
  unfold ips
  rw [List.mem_map]
  constructor
  · rintro ⟨i, hi, hip⟩
    obtain ⟨hlt, hvalid⟩ := (h.stamped.mem_iff i).mp hi
    exact ⟨i, hlt, holds_iff.mpr ⟨hvalid, hip⟩⟩
  · rintro ⟨i, hlt, hholds⟩
    obtain ⟨hvalid, hip⟩ := holds_iff.mp hholds
    exact ⟨i, (h.stamped.mem_iff i).mpr ⟨hlt, hvalid⟩, hip⟩

theorem notMem_take (h : Lru s uses calls order) {ip : UInt32}
    (hnone : ∀ j < arpTableSize, (s.table j).holds ip = false) :
    ip ∉ (recent uses).take arpTableSize := by
  intro hin
  obtain ⟨i, hlt, hholds⟩ := h.mem_take_iff.mp hin
  rw [hnone i hlt] at hholds
  exact Bool.false_ne_true hholds

theorem ips_filter (h : Lru s uses calls order) {i : Nat} (hi : i ∈ order) :
    ips s (order.filter (· ≠ i)) = (ips s order).filter (· ≠ (s.table i).ip) := by
  unfold ips
  rw [List.filter_map]
  congr 1
  apply List.filter_congr
  intro j hj
  have hiff : j ≠ i ↔ (s.table j).ip ≠ (s.table i).ip :=
    not_congr ⟨fun heq => by rw [heq], h.ip_inj hj hi⟩
  simp only [Function.comp, decide_eq_decide]
  exact hiff

theorem order_eq_of_full (h : Lru s uses calls order)
    (hfull : ∀ j < arpTableSize, (s.table j).valid = true) :
    order.length = arpTableSize ∧ order = order.filter (· ≠ oldest s) ++ [oldest s] := by
  have hset : order.toFinset = Finset.range arpTableSize := by
    ext j
    rw [List.mem_toFinset, Finset.mem_range, h.stamped.mem_iff]
    exact ⟨fun hj => hj.1, fun hj => ⟨hj, hfull j hj⟩⟩
  have hlen : order.length = arpTableSize := by
    rw [← List.toFinset_card_of_nodup h.stamped.nodup, hset, Finset.card_range]
  have hne : order ≠ [] := List.ne_nil_of_length_pos (by rw [hlen]; decide)
  have hsplit := List.dropLast_append_getLast hne
  have hstamps := h.stamped.stamps
  have hnodup := h.stamped.nodup
  rw [← hsplit] at hstamps hnodup
  have hlast : order.getLast hne = oldest s := by
    have hin : oldest s ∈ order := (h.stamped.mem_iff _).mpr ⟨oldest_lt s, hfull _ (oldest_lt s)⟩
    rw [← hsplit, List.mem_append, List.mem_singleton] at hin
    rcases hin with hin | hin
    · -- An earlier entry of the order has a larger stamp than the last one.
      have hgt := (List.pairwise_append.mp hstamps).2.2 _ hin _ (List.mem_singleton.mpr rfl)
      have hmem := List.getLast_mem hne
      exact absurd hgt (UInt64.not_lt.mpr (oldest_le s ((h.stamped.mem_iff _).mp hmem).1))
    · exact hin.symm
  refine ⟨hlen, ?_⟩
  have hnotMem : oldest s ∉ order.dropLast := by
    intro hin
    exact (List.nodup_append.mp hnodup).2.2 _ hin _ (List.mem_singleton.mpr rfl) hlast.symm
  have hkeep : order.dropLast.filter (· ≠ oldest s) = order.dropLast := by
    apply List.filter_eq_self.mpr
    intro j hj
    have hjne : j ≠ oldest s := by
      rintro rfl
      exact hnotMem hj
    simpa using hjne
  conv_lhs => rw [← hsplit, hlast]
  congr 1
  conv_rhs => rw [← hsplit, hlast, List.filter_append, hkeep]
  simp

/-- Stamping entry `i` for the address `ip`, when the addresses left beside it are the right
ones and `calls'` has the new MAC of `ip`. -/
theorem stamp (h : Lru s uses calls order) {i : Nat} (hi : i < arpTableSize) {ip : UInt32}
    {mac : Mac} {calls' : List Call}
    (hips : ip :: ips s (order.filter (· ≠ i)) = (recent (uses ++ [ip])).take arpTableSize)
    (hself : latestMac calls' ip = some mac)
    (hothers : ∀ j ∈ order, j ≠ i →
      latestMac calls' (s.table j).ip = latestMac calls (s.table j).ip)
    (hlen : calls'.length = calls.length + 1) (hbound : calls'.length < 2 ^ 64) :
    Lru (stamp s i ip mac) (uses ++ [ip]) calls' (i :: order.filter (· ≠ i)) := by
  have hclock := h.clock_le
  refine ⟨h.stamped.stamp hi ip mac (by omega), ?_, ?_, ?_⟩
  · rw [ips_stamp]
    exact hips
  · intro j hj
    rcases List.mem_cons.mp hj with rfl | hj
    · rw [stamp_self]
      exact hself
    · have hne : j ≠ i := by simpa using (List.mem_filter.mp hj).2
      rw [stamp_of_ne s ip mac hne, hothers j (List.mem_filter.mp hj).1 hne]
      exact h.mac_eq j (List.mem_filter.mp hj).1
  · rw [stamp_clock, UInt64.toNat_add, UInt64.toNat_one]
    omega

theorem ips_of_holds (h : Lru s uses calls order) {i : Nat} (hi : i < arpTableSize) {ip : UInt32}
    (hholds : (s.table i).holds ip = true) :
    ip :: ips s (order.filter (· ≠ i)) = (recent (uses ++ [ip])).take arpTableSize := by
  obtain ⟨hvalid, hip⟩ := holds_iff.mp hholds
  rw [h.ips_filter ((h.stamped.mem_iff i).mpr ⟨hi, hvalid⟩), h.ips_eq, hip,
    take_recent_of_mem (h.mem_take_iff.mpr ⟨i, hi, hholds⟩)]

theorem ips_of_free (h : Lru s uses calls order) {i : Nat} (hi : i < arpTableSize) {ip : UInt32}
    (hnone : ∀ j < arpTableSize, (s.table j).holds ip = false) (hfree : (s.table i).valid = false) :
    ip :: ips s (order.filter (· ≠ i)) = (recent (uses ++ [ip])).take arpTableSize := by
  have hnot : i ∉ order := by
    intro hin
    rw [((h.stamped.mem_iff i).mp hin).2] at hfree
    exact Bool.noConfusion hfree
  have hkeep : order.filter (· ≠ i) = order := by
    apply List.filter_eq_self.mpr
    intro j hj
    have hne : j ≠ i := by
      rintro rfl
      exact hnot hj
    simpa using hne
  -- The table has room, so the addresses are all that were ever used.
  have hroom : order.length ≤ arpTableSize - 1 := by
    have hsub : order.toFinset ⊆ (Finset.range arpTableSize).erase i := by
      intro j hj
      rw [List.mem_toFinset] at hj
      rw [Finset.mem_erase, Finset.mem_range]
      exact ⟨fun he => hnot (he ▸ hj), ((h.stamped.mem_iff j).mp hj).1⟩
    have hcard := Finset.card_le_card hsub
    rwa [List.toFinset_card_of_nodup h.stamped.nodup,
      Finset.card_erase_of_mem (Finset.mem_range.mpr hi), Finset.card_range] at hcard
  have hlen : ((recent uses).take arpTableSize).length = order.length := by
    rw [← h.ips_eq, ips, List.length_map]
  have hmiss := h.notMem_take hnone
  rw [List.length_take] at hlen
  have hall : (recent uses).length ≤ arpTableSize - 1 := by
    have : arpTableSize = 256 := rfl
    omega
  have htake : (recent uses).take arpTableSize = (recent uses).take (arpTableSize - 1) := by
    rw [List.take_of_length_le hall, List.take_of_length_le (hall.trans (Nat.sub_le _ _))]
  rw [htake] at hmiss
  rw [hkeep, h.ips_eq, htake]
  exact (take_recent_of_notMem hmiss).symm

theorem ips_of_full (h : Lru s uses calls order) {ip : UInt32}
    (hnone : ∀ j < arpTableSize, (s.table j).holds ip = false)
    (hfull : ∀ j < arpTableSize, (s.table j).valid = true) :
    ip :: ips s (order.filter (· ≠ oldest s)) = (recent (uses ++ [ip])).take arpTableSize := by
  obtain ⟨hlen, hsplit⟩ := h.order_eq_of_full hfull
  have hips := h.ips_eq
  have hmiss := h.notMem_take hnone
  have hlong : arpTableSize ≤ (recent uses).length := by
    have hcount : (ips s order).length = arpTableSize := by
      rw [ips, List.length_map, hlen]
    rw [hips, List.length_take] at hcount
    omega
  have hlenRest : (ips s (order.filter (· ≠ oldest s))).length = arpTableSize - 1 := by
    have := congrArg List.length hsplit
    rw [List.length_append, List.length_singleton, hlen] at this
    rw [ips, List.length_map]
    omega
  have hrest : ips s (order.filter (· ≠ oldest s)) = (recent uses).take (arpTableSize - 1) := by
    rw [hsplit] at hips
    unfold ips at hips hlenRest ⊢
    rw [List.map_append] at hips
    have htake := congrArg (List.take (arpTableSize - 1)) hips
    rwa [List.take_left' hlenRest, List.take_take, Nat.min_eq_left (Nat.sub_le _ _)] at htake
  have hmiss' : ip ∉ (recent uses).take (arpTableSize - 1) := fun hin =>
    hmiss (List.take_subset_take_left _ (Nat.sub_le _ _) hin)
  rw [hrest]
  exact (take_recent_of_notMem hmiss').symm

/-- **One call** keeps the invariant. -/
theorem exec (h : Lru s uses calls order) (c : Call) (hbound : calls.length + 1 < 2 ^ 64) :
    ∃ order', Lru (exec s c) (uses ++ (used s c).toList) (calls ++ [c]) order' := by
  have hlen : (calls ++ [c]).length = calls.length + 1 := List.length_append
  cases c with
  | lookup ip outMac =>
    cases hfind : scanFrom (ArpEntry.holds ip) s.table arpTableSize 0 with
    | none =>
      have hmiss := lookup_of_none outMac hfind
      refine ⟨order, ?_⟩
      unfold used Arp.exec
      simp only
      rw [hmiss, if_neg Bool.false_ne_true, Option.toList_none, List.append_nil]
      refine ⟨h.stamped, h.ips_eq, ?_, ?_⟩
      · intro i hi
        rw [latestMac_lookup]
        exact h.mac_eq i hi
      · rw [hlen]
        exact h.clock_le.trans (Nat.le_succ _)
    | some i =>
      obtain ⟨hi, hholds⟩ := scanFrom_eq_some hfind
      have hi' : i < arpTableSize := by omega
      obtain ⟨hvalid, hip⟩ := holds_iff.mp hholds
      have hhit := lookup_of_some outMac hfind
      refine ⟨i :: order.filter (· ≠ i), ?_⟩
      unfold used Arp.exec
      simp only
      rw [hhit, if_pos rfl, Option.toList_some]
      apply h.stamp hi' (h.ips_of_holds hi' hholds) _ _ hlen (by omega)
      · rw [latestMac_lookup, ← hip]
        exact h.mac_eq i ((h.stamped.mem_iff i).mpr ⟨hi', hvalid⟩)
      · intro j _ _
        rw [latestMac_lookup]
  | update ip mac =>
    have hself : latestMac (calls ++ [.update ip mac]) ip = some mac := by
      rw [latestMac_update, if_pos rfl]
    -- The entries that stay are those of other addresses.
    have hothers : ∀ j ∈ order, (s.table j).ip ≠ ip →
        latestMac (calls ++ [.update ip mac]) (s.table j).ip = latestMac calls (s.table j).ip := by
      intro j _ hne
      rw [latestMac_update, if_neg fun he => hne he.symm]
    have hmissing : (∀ j < arpTableSize, (s.table j).holds ip = false) →
        ∀ j ∈ order, (s.table j).ip ≠ ip := by
      intro hnone j hj heq
      obtain ⟨hlt, hvalid⟩ := (h.stamped.mem_iff j).mp hj
      have hfalse := hnone j hlt
      rw [holds_iff.mpr ⟨hvalid, heq⟩] at hfalse
      exact Bool.noConfusion hfalse
    unfold used Arp.exec
    simp only [Option.toList_some]
    rcases update_cases s ip mac with ⟨i, hi, hholds, heq⟩ | ⟨i, hi, hnone, hfree, heq⟩ |
      ⟨hnone, hfull, heq⟩
    · obtain ⟨hvalid, hip⟩ := holds_iff.mp hholds
      have hmem := (h.stamped.mem_iff i).mpr ⟨hi, hvalid⟩
      rw [heq]
      refine ⟨_, h.stamp hi (h.ips_of_holds hi hholds) hself ?_ hlen (by omega)⟩
      intro j hj hne
      exact hothers j hj fun he => hne (h.ip_inj hj hmem (he.trans hip.symm))
    · rw [heq]
      refine ⟨_, h.stamp hi (h.ips_of_free hi hnone hfree) hself ?_ hlen (by omega)⟩
      intro j hj _
      exact hothers j hj (hmissing hnone j hj)
    · rw [heq]
      refine ⟨_, h.stamp (oldest_lt s) (h.ips_of_full hnone hfull) hself ?_ hlen (by omega)⟩
      intro j hj _
      exact hothers j hj (hmissing hnone j hj)

end Lru

theorem lru_clear (s : ArpState) : Lru (clear s) [] [] [] := by
  refine ⟨⟨List.nodup_nil, ?_, List.Pairwise.nil, ?_⟩, rfl, ?_, Nat.le_refl 0⟩
  · intro i
    constructor
    · intro hin
      exact absurd hin List.not_mem_nil
    · rintro ⟨hlt, hvalid⟩
      unfold clear at hvalid
      simp [hlt] at hvalid
  · intro i hin
    exact absurd hin List.not_mem_nil
  · intro i hin
    exact absurd hin List.not_mem_nil

/-- **A sequence of calls** keeps the invariant, as long as the clock does not wrap. -/
theorem lru_runOps : ∀ {cs : List Call} {s : ArpState} {uses : List UInt32} {calls : List Call}
    {order : List Nat}, Lru s uses calls order → calls.length + cs.length < 2 ^ 64 →
    ∃ order', Lru (runOps exec s cs) (uses ++ usesFrom s cs) (calls ++ cs) order' := by
  intro cs
  induction cs with
  | nil =>
    intro s uses calls order h _
    rw [usesFrom, List.append_nil, List.append_nil]
    exact ⟨order, h⟩
  | cons c cs ih =>
    intro s uses calls order h hbound
    rw [List.length_cons] at hbound
    obtain ⟨order₁, h₁⟩ := h.exec c (by omega)
    obtain ⟨order', h'⟩ := ih h₁ (by rw [List.length_append, List.length_singleton]; omega)
    refine ⟨order', ?_⟩
    rw [List.append_assoc, List.append_assoc] at h'
    exact h'

/-! ### The cache after a run -/

/-- Some valid entry has the address and the MAC. -/
def Cached (s : ArpState) (ip : UInt32) (mac : Mac) : Prop :=
  ∃ i < arpTableSize, (s.table i).valid = true ∧ (s.table i).ip = ip ∧ (s.table i).mac = mac

namespace Lru

variable {s : ArpState} {uses : List UInt32} {calls : List Call} {order : List Nat}

theorem distinct (h : Lru s uses calls order) {i j : Nat} (hi : i < arpTableSize)
    (hj : j < arpTableSize) (hvi : (s.table i).valid = true) (hvj : (s.table j).valid = true)
    (hne : i ≠ j) : (s.table i).ip ≠ (s.table j).ip ∧
      (s.table i).timestamp ≠ (s.table j).timestamp := by
  have hmi := (h.stamped.mem_iff i).mpr ⟨hi, hvi⟩
  have hmj := (h.stamped.mem_iff j).mpr ⟨hj, hvj⟩
  refine ⟨fun heq => hne (h.ip_inj hmi hmj heq), ?_⟩
  have hnodup : (order.map fun i => (s.table i).timestamp).Nodup := by
    apply List.pairwise_map.mpr
    apply h.stamped.stamps.imp
    intro a b hlt
    exact (UInt64.ne_of_lt hlt).symm
  exact fun heq => hne (List.inj_on_of_nodup_map hnodup hmi hmj heq)

/-- A `lookup` answers for the most recently used addresses, with the MAC of the latest update. -/
theorem lookup_spec (h : Lru s uses calls order) (ip : UInt32) (outMac : Mac) :
    ((lookup s ip outMac).1 = true ↔ ip ∈ (recent uses).take arpTableSize) ∧
    ((lookup s ip outMac).1 = true → latestMac calls ip = some (lookup s ip outMac).2.1) := by
  rw [h.mem_take_iff]
  cases hfind : scanFrom (ArpEntry.holds ip) s.table arpTableSize 0 with
  | none =>
    rw [lookup_of_none outMac hfind]
    refine ⟨⟨fun hc => absurd hc Bool.false_ne_true, ?_⟩, fun hc => absurd hc Bool.false_ne_true⟩
    rintro ⟨i, hi, hholds⟩
    rw [scanFrom_eq_none hfind i (Nat.zero_le i) (by omega)] at hholds
    exact hholds
  | some i =>
    obtain ⟨hi, hholds⟩ := scanFrom_eq_some hfind
    obtain ⟨hvalid, hip⟩ := holds_iff.mp hholds
    rw [lookup_of_some outMac hfind]
    refine ⟨⟨fun _ => ⟨i, by omega, hholds⟩, fun _ => rfl⟩, ?_⟩
    intro _
    rw [← hip]
    exact h.mac_eq i ((h.stamped.mem_iff i).mpr ⟨by omega, hvalid⟩)

/-- An `update` of a new address in a full table evicts the least recently used entry. -/
theorem update_evicts (h : Lru s uses calls order) {ip : UInt32} (mac : Mac)
    (hnew : ∀ j < arpTableSize, (s.table j).ip ≠ ip)
    (hfull : ∀ j < arpTableSize, (s.table j).valid = true) :
    ∃ lru, (recent uses)[arpTableSize - 1]? = some lru ∧ (∃ m, Cached s lru m) ∧
      ∀ ip' mac', Cached (update s ip mac) ip' mac' ↔
        (ip' = ip ∧ mac' = mac) ∨ (ip' ≠ lru ∧ Cached s ip' mac') := by
  have hnone : ∀ j < arpTableSize, (s.table j).holds ip = false := by
    intro j hj
    rw [Bool.eq_false_iff]
    exact fun hholds => hnew j hj (holds_iff.mp hholds).2
  have hupdate : update s ip mac = Arp.stamp s (oldest s) ip mac := by
    rcases update_cases s ip mac with ⟨i, hi, hholds, -⟩ | ⟨i, hi, -, hfree, -⟩ | ⟨-, -, heq⟩
    · rw [hnone i hi] at hholds
      exact absurd hholds Bool.false_ne_true
    · rw [hfull i hi] at hfree
      exact Bool.noConfusion hfree
    · exact heq
  obtain ⟨hlen, hsplit⟩ := h.order_eq_of_full hfull
  have hmem : ∀ {j : Nat}, j < arpTableSize → j ∈ order := fun hj =>
    (h.stamped.mem_iff _).mpr ⟨hj, hfull _ hj⟩
  refine ⟨(s.table (oldest s)).ip, ?_, ⟨_, oldest s, oldest_lt s, hfull _ (oldest_lt s), rfl, rfl⟩,
    ?_⟩
  · -- The last entry of the order is the last of the first 256 addresses.
    have hrest : (order.filter (· ≠ oldest s)).length = arpTableSize - 1 := by
      have := congrArg List.length hsplit
      rw [List.length_append, List.length_singleton, hlen] at this
      omega
    have hlast : (ips s order)[arpTableSize - 1]? = some (s.table (oldest s)).ip := by
      rw [ips, List.getElem?_map, hsplit, List.getElem?_append_right (by omega), hrest,
        Nat.sub_self]
      rfl
    rwa [h.ips_eq, List.getElem?_take_of_lt (by decide)] at hlast
  · intro ip' mac'
    rw [hupdate]
    constructor
    · rintro ⟨j, hj, hvalid, hip, hmac⟩
      by_cases hjo : j = oldest s
      · rw [hjo, stamp_self] at hip hmac
        exact Or.inl ⟨hip.symm, hmac.symm⟩
      · rw [stamp_of_ne s ip mac hjo] at hvalid hip hmac
        right
        refine ⟨?_, j, hj, hvalid, hip, hmac⟩
        rw [← hip]
        exact fun heq => hjo (h.ip_inj (hmem hj) (hmem (oldest_lt s)) heq)
    · rintro (⟨rfl, rfl⟩ | ⟨hne, j, hj, hvalid, hip, hmac⟩)
      · exact ⟨oldest s, oldest_lt s, by rw [stamp_self], by rw [stamp_self], by rw [stamp_self]⟩
      · have hjo : j ≠ oldest s := by
          rintro rfl
          exact hne hip.symm
        refine ⟨j, hj, ?_⟩
        rw [stamp_of_ne s ip mac hjo]
        exact ⟨hvalid, hip, hmac⟩

end Lru

/-- **The ARP cache is an exact LRU map.** After any sequence of fewer than `2 ^ 64` calls on a
cleared table, valid entries have distinct addresses and stamps; a `lookup` succeeds exactly for
the 256 most recently used addresses, with the MAC of the latest update; and an `update` of a new
address in a full table evicts exactly the least recently used entry. -/
theorem lru_run (s₀ : ArpState) {calls : List Call} (hbound : calls.length < 2 ^ 64) :
    (∀ i < arpTableSize, ∀ j < arpTableSize, ((run s₀ calls).table i).valid = true →
      ((run s₀ calls).table j).valid = true → i ≠ j →
      ((run s₀ calls).table i).ip ≠ ((run s₀ calls).table j).ip ∧
      ((run s₀ calls).table i).timestamp ≠ ((run s₀ calls).table j).timestamp) ∧
    (∀ ip outMac,
      ((lookup (run s₀ calls) ip outMac).1 = true ↔
        ip ∈ (recent (usesFrom (clear s₀) calls)).take arpTableSize) ∧
      ((lookup (run s₀ calls) ip outMac).1 = true →
        latestMac calls ip = some (lookup (run s₀ calls) ip outMac).2.1)) ∧
    (∀ ip mac, (∀ j < arpTableSize, ((run s₀ calls).table j).valid = true) →
      (∀ j < arpTableSize, ((run s₀ calls).table j).ip ≠ ip) →
      ∃ lru, (recent (usesFrom (clear s₀) calls))[arpTableSize - 1]? = some lru ∧
        (∃ m, Cached (run s₀ calls) lru m) ∧
        ∀ ip' mac', Cached (update (run s₀ calls) ip mac) ip' mac' ↔
          (ip' = ip ∧ mac' = mac) ∨ (ip' ≠ lru ∧ Cached (run s₀ calls) ip' mac')) := by
  obtain ⟨order, h⟩ := @lru_runOps calls _ _ _ _ (lru_clear s₀) (by simpa using hbound)
  rw [List.nil_append, List.nil_append] at h
  refine ⟨?_, fun ip outMac => h.lookup_spec ip outMac, ?_⟩
  · intro i hi j hj hvi hvj hne
    exact h.distinct hi hj hvi hvj hne
  · intro ip mac hfull hnew
    exact h.update_evicts mac hnew hfull

/-- Two updates and a lookup: address 1 has been used last. -/
theorem lru_run_three :
    recent (usesFrom (clear ⟨fun _ => ⟨0, 0, false, 0⟩, 0⟩)
      [.update 1 0, .update 2 0, .lookup 1 0]) = [1, 2] ∧
    ((lookup (run ⟨fun _ => ⟨0, 0, false, 0⟩, 0⟩ [.update 1 0, .update 2 0, .lookup 1 0]) 2 0).1 =
        true ↔
      2 ∈ (recent (usesFrom (clear ⟨fun _ => ⟨0, 0, false, 0⟩, 0⟩)
        [.update 1 0, .update 2 0, .lookup 1 0])).take arpTableSize) :=
  ⟨by decide +kernel, ((lru_run ⟨fun _ => ⟨0, 0, false, 0⟩, 0⟩ (by decide)).2.1 2 0).1⟩

end Keuos.Netd.Arp
