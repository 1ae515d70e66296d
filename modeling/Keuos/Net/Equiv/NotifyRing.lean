import Keuos.Net.NotifyRing

/-!
# The notification ring

A notification is accepted when there is room for 8 bytes, and then its other 4 bytes fit as well: the ring
holds whole records, and 3904 bytes are 325 records and 4 bytes.  The bytes between `tail` and `head` are the
records of the accepted notifications (`records_intact`) until `head` has run through all 64-bit values.
There the index `head % capacity` jumps, since 3904 does not divide `2 ^ 64`, and a record is written over
one that Ring 3 has not removed (`not_intact_of_wrap`).
-/

namespace Keuos.Net

/-! ### Records -/

/-- The `n` low bytes of a word, the lowest first. -/
def leBytes (n : Nat) (v : UInt64) : List UInt8 :=
  (List.range n).map fun i => ((v >>> (UInt64.ofNat i * 8)) &&& 0xFF).toUInt8

def recordBytes (r : UInt64 × UInt32) : List UInt8 :=
  leBytes 8 r.1 ++ leBytes 4 r.2.toUInt64

@[simp] theorem length_leBytes (n : Nat) (v : UInt64) : (leBytes n v).length = n := by
  simp [leBytes]

@[simp] theorem length_recordBytes (r : UInt64 × UInt32) : (recordBytes r).length = 12 := by
  simp [recordBytes]

theorem length_flatMap_recordBytes (rs : List (UInt64 × UInt32)) :
    (rs.flatMap recordBytes).length = 12 * rs.length := by
  induction rs with
  | nil => rfl
  | cons r rs ih =>
    rw [List.flatMap_cons, List.length_append, ih, length_recordBytes, List.length_cons]
    omega

/-! ### Positions -/

/-- The position of the byte number `i`. -/
def slot (i : Nat) : UInt64 :=
  UInt64.ofNat (i % 3904)

theorem toNat_slot (i : Nat) : (slot i).toNat = i % 3904 :=
  UInt64.toNat_ofNat_of_lt' (Nat.lt_of_lt_of_le (Nat.mod_lt i (by decide)) (by decide))

theorem slot_ne {i j : Nat} (hij : i < j) (hj : j < i + 3904) : slot i ≠ slot j := by
  intro heq
  have hnat := congrArg UInt64.toNat heq
  rw [toNat_slot, toNat_slot] at hnat
  omega

theorem mod_capacity {head : UInt64} {k : Nat} (h : head.toNat + k < 2 ^ 64) :
    (head + UInt64.ofNat k) % 3904 = slot (head.toNat + k) := by
  apply UInt64.toNat_inj.mp
  have hk : (UInt64.ofNat k).toNat = k := UInt64.toNat_ofNat_of_lt' (by change k < 2 ^ 64; omega)
  rw [toNat_slot, UInt64.toNat_mod, UInt64.toNat_add, hk, Nat.mod_eq_of_lt h]
  rfl

/-- The `n` bytes of the ring from number `t` on. -/
def bytesFrom (data : UInt64 → UInt8) (t n : Nat) : List UInt8 :=
  (List.range n).map fun k => data (slot (t + k))

theorem bytesFrom_add (data : UInt64 → UInt8) (t m n : Nat) :
    bytesFrom data t (m + n) = bytesFrom data t m ++ bytesFrom data (t + m) n := by
  unfold bytesFrom
  rw [List.range_add, List.map_append, List.map_map]
  congr 1
  apply List.map_congr_left
  intro k _
  simp only [Function.comp_apply, Nat.add_assoc]

theorem putBytes_spec (head val : UInt64) (n j : Nat) (data : UInt64 → UInt8)
    (hwrap : head.toNat + (j + n) < 2 ^ 64) (hn : n ≤ 3904) :
    (∀ k, j ≤ k → k < j + n → putBytes head 3904 val n (UInt64.ofNat j) data (slot (head.toNat + k)) =
        ((val >>> (UInt64.ofNat k * 8)) &&& 0xFF).toUInt8) ∧
      ∀ p, (∀ k, j ≤ k → k < j + n → p ≠ slot (head.toNat + k)) →
        putBytes head 3904 val n (UInt64.ofNat j) data p = data p := by
  induction n generalizing j data with
  | zero => exact ⟨fun k hjk hk => absurd hk (by omega), fun p _ => rfl⟩
  | succ n ih =>
    have hnext : UInt64.ofNat j + 1 = UInt64.ofNat (j + 1) := (UInt64.ofNat_add j 1).symm
    obtain ⟨hin, hout⟩ := ih (j + 1)
      (Function.update data (slot (head.toNat + j)) ((val >>> (UInt64.ofNat j * 8)) &&& 0xFF).toUInt8)
      (by omega) (by omega)
    unfold putBytes
    dsimp only
    rw [hnext, mod_capacity (by omega)]
    constructor
    · intro k hjk hk
      rcases Nat.eq_or_lt_of_le hjk with rfl | hlt
      · -- the later bytes go to other positions
        rw [hout _ fun i hi hin => slot_ne (by omega) (by omega), Function.update_self]
      · exact hin k hlt (by omega)
    · intro p hp
      rw [hout p fun k hk hkn => hp k (by omega) (by omega),
        Function.update_of_ne (hp j (Nat.le_refl j) (by omega))]

theorem bytesFrom_putBytes {head val : UInt64} {t m n : Nat} (data : UInt64 → UInt8)
    (hhead : head.toNat = t + m) (hwrap : t + m + n < 2 ^ 64) (hroom : m + n ≤ 3904) :
    bytesFrom (putBytes head 3904 val n 0 data) t (m + n) = bytesFrom data t m ++ leBytes n val := by
  obtain ⟨hin, hout⟩ := putBytes_spec head val n 0 data (by omega) (by omega)
  rw [bytesFrom_add]
  congr 1
  · apply List.map_congr_left
    intro k hk
    rw [List.mem_range] at hk
    exact hout _ fun i _ hi => slot_ne (by omega) (by omega)
  · apply List.map_congr_left
    intro k hk
    rw [List.mem_range] at hk
    have hbyte := hin k (Nat.zero_le k) (by omega)
    rwa [hhead] at hbyte

/-! ### The invariant -/

/-- The `n` bytes of the ring from `tail` on. -/
def NotifyRing.bytes (r : NotifyRing) (n : Nat) : List UInt8 :=
  (List.range n).map fun k => r.data ((r.tail + UInt64.ofNat k) % r.capacity)

/-- No record is torn: the ring holds whole records, at most as many as fit, and they are the accepted ones
that Ring 3 has not removed. -/
def Intact (s : Notified) : Prop :=
  (s.ring.head - s.ring.tail).toNat % 12 = 0 ∧ (s.ring.head - s.ring.tail).toNat ≤ 3904 ∧
    s.ring.bytes (s.ring.head - s.ring.tail).toNat =
      (s.accepted.drop s.consumed).flatMap recordBytes

/-- `head` counts the accepted bytes and `tail` the removed ones. -/
structure Good (s : Notified) : Prop where
  capacity : s.ring.capacity = 3904
  head : s.ring.head.toNat = 12 * s.accepted.length
  tail : s.ring.tail.toNat = 12 * s.consumed
  consumed : s.consumed ≤ s.accepted.length
  room : 12 * (s.accepted.length - s.consumed) ≤ 3904
  data : bytesFrom s.ring.data (12 * s.consumed) (12 * (s.accepted.length - s.consumed)) =
    (s.accepted.drop s.consumed).flatMap recordBytes

theorem toNat_ofNat_small {n : Nat} (hn : n ≤ 3904) : (UInt64.ofNat n).toNat = n :=
  UInt64.toNat_ofNat_of_lt' (Nat.lt_of_le_of_lt hn (by decide))

theorem Good.head_eq {s : Notified} (h : Good s) :
    s.ring.head = s.ring.tail + UInt64.ofNat (12 * (s.accepted.length - s.consumed)) := by
  have hlt := s.ring.head.toNat_lt
  have hhead := h.head
  have hle := h.consumed
  apply UInt64.toNat_inj.mp
  rw [UInt64.toNat_add, toNat_ofNat_small h.room, h.tail, Nat.mod_eq_of_lt (by omega), h.head]
  omega

theorem Good.used {s : Notified} (h : Good s) {c : Nat} (hc : c ≤ 3904) :
    (s.ring.head + UInt64.ofNat c - s.ring.tail).toNat = 12 * (s.accepted.length - s.consumed) + c := by
  have hroom := h.room
  rw [h.head_eq, UInt64.add_assoc, UInt64.add_comm, UInt64.add_sub_cancel, UInt64.toNat_add,
    toNat_ofNat_small hroom, toNat_ofNat_small hc]
  exact Nat.mod_eq_of_lt (by omega)

theorem Good.toNat_sub {s : Notified} (h : Good s) :
    (s.ring.head - s.ring.tail).toNat = 12 * (s.accepted.length - s.consumed) := by
  rw [h.head_eq, UInt64.add_comm, UInt64.add_sub_cancel, toNat_ofNat_small h.room]

theorem Good.intact {s : Notified} (h : Good s) : Intact s := by
  have hlt := s.ring.head.toNat_lt
  have hhead := h.head
  have hle := h.consumed
  unfold Intact
  rw [h.toNat_sub]
  refine ⟨Nat.mul_mod_right 12 _, h.room, ?_⟩
  rw [← h.data]
  apply List.map_congr_left
  intro k hk
  rw [List.mem_range] at hk
  have htail := h.tail
  rw [h.capacity, mod_capacity (by omega), htail]

theorem notify_refused {r : NotifyRing} (h : r.head + 8 - r.tail > r.capacity) (buf : UInt64)
    (len : UInt32) : notify r buf len = ((false, false), r) := by
  unfold notify ringPushU64
  rw [if_pos h]
  rfl

theorem notify_accepted {r : NotifyRing} (h : ¬r.head + 8 - r.tail > r.capacity)
    (h' : ¬r.head + 8 + 4 - r.tail > r.capacity) (buf : UInt64) (len : UInt32) :
    notify r buf len = ((true, true),
      { r with
        data := putBytes (r.head + 8) r.capacity len.toUInt64 4 0
          (putBytes r.head r.capacity buf 8 0 r.data)
        head := r.head + 8 + 4 }) := by
  unfold notify ringPushU64
  rw [if_neg h]
  unfold ringPushU32
  dsimp only
  rw [if_pos rfl, if_neg h']

theorem Good.notify_eq {s : Notified} (h : Good s)
    (hfits : 12 * (s.accepted.length - s.consumed) + 12 ≤ 3904) (buf : UInt64) (len : UInt32) :
    Net.notify s.ring buf len = ((true, true),
      { s.ring with
        data := putBytes (s.ring.head + 8) s.ring.capacity len.toUInt64 4 0
          (putBytes s.ring.head s.ring.capacity buf 8 0 s.ring.data)
        head := s.ring.head + 8 + 4 }) := by
  have hused : (s.ring.head + 8 - s.ring.tail).toNat = 12 * (s.accepted.length - s.consumed) + 8 :=
    h.used (by decide)
  have hused₂ : (s.ring.head + 8 + 4 - s.ring.tail).toNat =
      12 * (s.accepted.length - s.consumed) + 12 := by
    rw [UInt64.add_assoc]
    exact h.used (c := 12) (by decide)
  apply notify_accepted
  · rw [gt_iff_lt, UInt64.lt_iff_toNat_lt, hused, h.capacity]
    change ¬3904 < _
    omega
  · rw [gt_iff_lt, UInt64.lt_iff_toNat_lt, hused₂, h.capacity]
    change ¬3904 < _
    omega

theorem Good.notify_full {s : Notified} (h : Good s)
    (hfull : ¬12 * (s.accepted.length - s.consumed) + 12 ≤ 3904) (buf : UInt64) (len : UInt32) :
    Net.notify s.ring buf len = ((false, false), s.ring) := by
  have hused : (s.ring.head + 8 - s.ring.tail).toNat = 12 * (s.accepted.length - s.consumed) + 8 :=
    h.used (by decide)
  apply notify_refused
  rw [gt_iff_lt, UInt64.lt_iff_toNat_lt, hused, h.capacity]
  change 3904 < _
  omega

theorem ring_exec_notify (s : Notified) (buf : UInt64) (len : UInt32) :
    (s.exec (.notify buf len)).ring = (Net.notify s.ring buf len).2 := rfl

theorem consumed_exec_notify (s : Notified) (buf : UInt64) (len : UInt32) :
    (s.exec (.notify buf len)).consumed = s.consumed := rfl

theorem Good.accepted_notify {s : Notified} (h : Good s)
    (hfits : 12 * (s.accepted.length - s.consumed) + 12 ≤ 3904) (buf : UInt64) (len : UInt32) :
    (s.exec (.notify buf len)).accepted = s.accepted ++ [(buf, len)] := by
  dsimp only [Notified.exec]
  rw [h.notify_eq hfits, if_pos rfl]

/-- **A notification is accepted as a whole or refused as a whole.** -/
theorem Good.notify {s : Notified} (h : Good s) (buf : UInt64) (len : UInt32)
    (hwrap : 12 * (s.exec (.notify buf len)).accepted.length < 2 ^ 64) :
    Good (s.exec (.notify buf len)) := by
  have hroom := h.room
  have hle := h.consumed
  by_cases hfits : 12 * (s.accepted.length - s.consumed) + 12 ≤ 3904
  · rw [h.accepted_notify hfits, List.length_append, List.length_singleton] at hwrap
    have hhead := h.head
    have hnext : (s.ring.head + 8).toNat = 12 * s.accepted.length + 8 := by
      rw [UInt64.toNat_add, hhead]
      exact Nat.mod_eq_of_lt (by change 12 * s.accepted.length + 8 < 2 ^ 64; omega)
    have hlen : (s.accepted ++ [(buf, len)]).length = s.accepted.length + 1 := by
      rw [List.length_append, List.length_singleton]
    unfold Notified.exec
    dsimp only
    rw [h.notify_eq hfits]
    refine ⟨h.capacity, ?_, h.tail, ?_, ?_, ?_⟩
    · simp only [if_true, hlen]
      rw [UInt64.toNat_add, hnext]
      exact Nat.mod_eq_of_lt (by change 12 * s.accepted.length + 8 + 4 < 2 ^ 64; omega)
    · simp only [if_true, hlen]
      omega
    · simp only [if_true, hlen]
      omega
    · have hpending : 12 * (s.accepted.length + 1 - s.consumed) =
          12 * (s.accepted.length - s.consumed) + 8 + 4 := by omega
      simp only [if_true, hlen]
      rw [hpending, h.capacity, List.drop_append_of_le_length hle, List.flatMap_append,
        bytesFrom_putBytes (t := 12 * s.consumed) (n := 4) _ (by omega) (by omega) (by omega),
        bytesFrom_putBytes (t := 12 * s.consumed) (n := 8) _ (by omega) (by omega) (by omega), h.data,
        List.append_assoc, List.flatMap_cons, List.flatMap_nil, List.append_nil]
      rfl
  · -- no room for the address: nothing changes
    unfold Notified.exec
    dsimp only
    rw [h.notify_full hfits]
    exact h

/-- Ring 3 removes whole records that are there. -/
def Whole (s : Notified) : RingOp → Prop
  | .notify _ _ => True
  | .consume n => 12 * n ≤ (s.ring.head - s.ring.tail).toNat

instance (s : Notified) : ∀ o, Decidable (Whole s o)
  | .notify _ _ => isTrue trivial
  | .consume _ => inferInstanceAs (Decidable (_ ≤ _))

theorem Good.consume {s : Notified} (h : Good s) {n : Nat} (hn : Whole s (.consume n)) :
    Good (s.exec (.consume n)) := by
  have hroom := h.room
  have hle := h.consumed
  have hhead := h.head
  have htail := h.tail
  have hlt := s.ring.head.toNat_lt
  change 12 * n ≤ _ at hn
  rw [h.toNat_sub] at hn
  refine ⟨h.capacity, h.head, ?_, ?_, ?_, ?_⟩
  · dsimp only [Notified.exec]
    rw [UInt64.toNat_add, toNat_ofNat_small (by omega), htail, Nat.mod_eq_of_lt (by omega)]
    omega
  · dsimp only [Notified.exec]
    omega
  · dsimp only [Notified.exec]
    omega
  · dsimp only [Notified.exec]
    have hsplit : 12 * (s.accepted.length - s.consumed) =
        12 * n + 12 * (s.accepted.length - (s.consumed + n)) := by omega
    have hdrop : s.accepted.drop s.consumed =
        (s.accepted.drop s.consumed).take n ++ s.accepted.drop (s.consumed + n) := by
      rw [← List.drop_drop, List.take_append_drop]
    have hdata := h.data
    rw [hsplit, bytesFrom_add, hdrop, List.flatMap_append] at hdata
    have htake : (bytesFrom s.ring.data (12 * s.consumed) (12 * n)).length =
        (((s.accepted.drop s.consumed).take n).flatMap recordBytes).length := by
      rw [length_flatMap_recordBytes, List.length_take, List.length_drop, bytesFrom, List.length_map,
        List.length_range]
      omega
    rw [Nat.mul_add]
    exact (List.append_inj hdata htake).2

theorem good_start (data : UInt64 → UInt8) : Good (Notified.start data) :=
  ⟨rfl, rfl, rfl, Nat.le_refl 0, Nat.zero_le _, rfl⟩

theorem accepted_le (s : Notified) (o : RingOp) :
    12 * s.accepted.length ≤ 12 * (s.exec o).accepted.length := by
  cases o with
  | notify buf len =>
    dsimp only [Notified.exec]
    split
    · rw [List.length_append]
      omega
    · exact Nat.le_refl _
  | consume n => exact Nat.le_refl _

/-- **No notification record is torn** while fewer than `2 ^ 64` bytes have been accepted. -/
theorem records_intact (data : UInt64 → UInt8) (ops : List RingOp)
    (hwhole : Admissible Notified.exec Whole (Notified.start data) ops)
    (hfew : 12 * (runOps Notified.exec (Notified.start data) ops).accepted.length < 2 ^ 64) :
    Intact (runOps Notified.exec (Notified.start data) ops) := by
  have hsmall : Admissible Notified.exec (fun s o => 12 * (s.exec o).accepted.length < 2 ^ 64)
      (Notified.start data) ops :=
    admissible_of_measure_lt (f := fun s : Notified => 12 * s.accepted.length) accepted_le
      (fun _ _ h => h) hfew
  refine (runOps_induction (I := Good) ?_ (good_start data) (hwhole.and hsmall)).intact
  intro s o h hok
  cases o with
  | notify buf len => exact h.notify buf len hok.2
  | consume n => exact h.consume hok.1

/-- Two notifications, the first of which Ring 3 removes. -/
theorem records_intact_twoRecords :
    Intact (runOps Notified.exec (Notified.start fun _ => 0)
      [.notify 0x1000 60, .notify 0x1600 90, .consume 1]) :=
  records_intact (fun _ => 0) _ (by decide +kernel) (by decide +kernel)

/-! ### `head` at the end of its range -/

/-- `n` times a notification that Ring 3 removes. -/
def rounds (n : Nat) : List RingOp :=
  (List.replicate n [RingOp.notify 0 0, RingOp.consume 1]).flatten

theorem rounds_spec (n : Nat) {s : Notified} (h : Good s) (hempty : s.consumed = s.accepted.length)
    (hfew : 12 * (s.accepted.length + n) < 2 ^ 64) :
    Admissible Notified.exec Whole s (rounds n) ∧ Good (runOps Notified.exec s (rounds n)) ∧
      (runOps Notified.exec s (rounds n)).accepted.length = s.accepted.length + n ∧
      (runOps Notified.exec s (rounds n)).consumed = s.accepted.length + n := by
  induction n generalizing s with
  | zero => exact ⟨trivial, h, rfl, hempty⟩
  | succ n ih =>
    have hacc := h.accepted_notify (by omega) 0 0
    have hlen : (s.exec (.notify 0 0)).accepted.length = s.accepted.length + 1 := by
      rw [hacc, List.length_append, List.length_singleton]
    have hgood := h.notify 0 0 (by rw [hlen]; omega)
    have hcons : (s.exec (.notify 0 0)).consumed = s.consumed := rfl
    have hwhole : Whole (s.exec (.notify 0 0)) (.consume 1) := by
      change 12 * 1 ≤ _
      rw [hgood.toNat_sub, hlen, hcons]
      omega
    have hlen₂ : ((s.exec (.notify 0 0)).exec (.consume 1)).accepted.length = s.accepted.length + 1 := hlen
    have hcons₂ : ((s.exec (.notify 0 0)).exec (.consume 1)).consumed = s.accepted.length + 1 := by
      rw [← hempty]
      rfl
    obtain ⟨hadm, hg, hl, hc⟩ := ih (hgood.consume hwhole) (by rw [hcons₂, hlen₂]) (by omega)
    rw [hlen₂] at hl hc
    have hrounds : rounds (n + 1) = RingOp.notify 0 0 :: RingOp.consume 1 :: rounds n := rfl
    rw [hrounds]
    exact ⟨⟨trivial, hwhole, hadm⟩, hg, by rw [runOps_cons, runOps_cons, hl]; omega,
      by rw [runOps_cons, runOps_cons, hc]; omega⟩

theorem notifies_spec (n : Nat) {s : Notified} (h : Good s)
    (hroom : 12 * (s.accepted.length - s.consumed + n) ≤ 3904)
    (hfew : 12 * (s.accepted.length + n) < 2 ^ 64) :
    Admissible Notified.exec Whole s (List.replicate n (.notify 0 0)) ∧
      Good (runOps Notified.exec s (List.replicate n (.notify 0 0))) ∧
      (runOps Notified.exec s (List.replicate n (.notify 0 0))).accepted =
        s.accepted ++ List.replicate n (0, 0) ∧
      (runOps Notified.exec s (List.replicate n (.notify 0 0))).consumed = s.consumed := by
  induction n generalizing s with
  | zero => exact ⟨trivial, h, (List.append_nil _).symm, rfl⟩
  | succ n ih =>
    have hacc := h.accepted_notify (by omega) 0 0
    have hlen : (s.exec (.notify 0 0)).accepted.length = s.accepted.length + 1 := by
      rw [hacc, List.length_append, List.length_singleton]
    have hcons : (s.exec (.notify 0 0)).consumed = s.consumed := rfl
    have hle := h.consumed
    obtain ⟨hadm, hg, ha, hc⟩ := ih (h.notify 0 0 (by rw [hlen]; omega)) (by rw [hlen, hcons]; omega)
      (by omega)
    rw [List.replicate_succ]
    refine ⟨⟨trivial, hadm⟩, hg, ?_, hc⟩
    rw [runOps_cons, ha, hacc, List.append_assoc]
    rfl

/-- The number of records before the last `2944` bytes of the range of `head`, which is a multiple of the
capacity there. -/
def beforeWrap : Nat := 1537228672809129056

theorem putBytes_wrap (data : UInt64 → UInt8) :
    putBytes 4 3904 0 4 0 (putBytes 0xFFFFFFFFFFFFFFFC 3904 0xFFFFFFFFFFFFFFFF 8 0 data) 0 = 0xFF := by
  have hbyte : (((0xFFFFFFFFFFFFFFFF : UInt64) >>> 32) &&& 0xFF).toUInt8 = 0xFF := by decide
  simpa [putBytes, Function.update] using hbyte

theorem NotifyRing.head?_bytes (r : NotifyRing) {n : Nat} (hn : 0 < n) :
    (r.bytes n).head? = some (r.data (r.tail % r.capacity)) := by
  obtain ⟨n, rfl⟩ := Nat.exists_eq_succ_of_ne_zero (Nat.pos_iff_ne_zero.mp hn)
  unfold NotifyRing.bytes
  rw [List.range_succ_eq_map, List.map_cons, List.head?_cons]
  simp

/-- The ring holds 245 records of zeros, and there is room for the record that overwrites the first one. -/
theorem torn_of_wrap {s : Notified} (h : Good s) (hlen : s.accepted.length = beforeWrap + 245)
    (hconsumed : s.consumed = beforeWrap) (hzeros : s.accepted.drop beforeWrap = List.replicate 245 (0, 0)) :
    ¬Intact (s.exec (.notify 0xFFFFFFFFFFFFFFFF 0)) := by
  have hfits : 12 * (s.accepted.length - s.consumed) + 12 ≤ 3904 := by
    rw [hlen, hconsumed]
    decide
  have hhead : s.ring.head = 0xFFFFFFFFFFFFFFFC := by
    apply UInt64.toNat_inj.mp
    rw [h.head, hlen]
    decide
  have htail : s.ring.tail = 0xFFFFFFFFFFFFF480 := by
    apply UInt64.toNat_inj.mp
    rw [h.tail, hconsumed]
    decide
  have hring := ring_exec_notify s 0xFFFFFFFFFFFFFFFF 0
  have hfour : (0xFFFFFFFFFFFFFFFC : UInt64) + 8 = 4 := by decide
  have height : (4 : UInt64) + 4 = 8 := by decide
  have hlow : (0 : UInt32).toUInt64 = 0 := by decide
  rw [h.notify_eq hfits, hhead, h.capacity, hfour, height, hlow] at hring
  have hhead' := congrArg NotifyRing.head hring
  have htail' := congrArg NotifyRing.tail hring
  have hcap' := congrArg NotifyRing.capacity hring
  have hdata' := congrArg NotifyRing.data hring
  dsimp only at hhead' htail' hcap' hdata'
  have hpos : 0 < ((s.exec (.notify 0xFFFFFFFFFFFFFFFF 0)).ring.head -
      (s.exec (.notify 0xFFFFFFFFFFFFFFFF 0)).ring.tail).toNat := by
    rw [hhead', htail', htail]
    decide
  have hslot : (0xFFFFFFFFFFFFF480 : UInt64) % 3904 = 0 := by decide
  have hpending : (s.accepted ++ [(0xFFFFFFFFFFFFFFFF, 0)]).drop beforeWrap =
      (0, 0) :: (List.replicate 244 (0, 0) ++ [(0xFFFFFFFFFFFFFFFF, 0)]) := by
    rw [List.drop_append_of_le_length (by omega), hzeros]
    rfl
  rintro ⟨-, -, hbytes⟩
  -- the byte at `tail` should be the first one of a record of zeros
  have hfirst := congrArg List.head? hbytes
  rw [NotifyRing.head?_bytes _ hpos, htail', hcap', hdata', htail, h.capacity, hslot, putBytes_wrap,
    h.accepted_notify hfits, consumed_exec_notify, hconsumed, hpending, List.flatMap_cons] at hfirst
  have hbyte : recordBytes (0, 0) = 0 :: List.replicate 11 0 := by decide
  rw [hbyte, List.cons_append, List.head?_cons] at hfirst
  exact absurd hfirst (by decide)

/-- A run that fills the ring over the end of the range. -/
def wrapRun : List RingOp :=
  rounds beforeWrap ++ (List.replicate 245 (.notify 0 0) ++ [.notify 0xFFFFFFFFFFFFFFFF 0])

theorem not_intact_of_wrap :
    ¬∀ data ops, Admissible Notified.exec Whole (Notified.start data) ops →
      Intact (runOps Notified.exec (Notified.start data) ops) := by
  intro hintact
  obtain ⟨hadm₁, hgood₁, hlen₁, hcons₁⟩ := rounds_spec beforeWrap (good_start fun _ => 0) rfl (by decide)
  have hstart : (Notified.start fun _ => 0).accepted.length + beforeWrap = beforeWrap := Nat.zero_add _
  rw [hstart] at hlen₁ hcons₁
  obtain ⟨hadm₂, hgood₂, hacc₂, hcons₂⟩ := notifies_spec 245 hgood₁ (by rw [hlen₁, hcons₁]; decide)
    (by rw [hlen₁]; decide)
  rw [hcons₁] at hcons₂
  have hrun := hintact (fun _ => 0) wrapRun (hadm₁.append (hadm₂.append ⟨trivial, trivial⟩))
  unfold wrapRun at hrun
  rw [runOps_append, runOps_append, runOps_cons, runOps_nil] at hrun
  apply torn_of_wrap hgood₂ _ hcons₂ _ hrun
  · rw [hacc₂, List.length_append, hlen₁, List.length_replicate]
  · rw [hacc₂]
    exact List.drop_left' hlen₁

end Keuos.Net
