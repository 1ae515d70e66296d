import Keuos.Net.Virtio
import Mathlib.Data.List.Nodup

/-!
# The bookkeeping of a virtqueue

`QueueInv` places every descriptor: it is free, available, taken by the device, or used.  The free ones are
chained through the descriptor table, the available and the used ones are the entries of the two rings
between the indices of the driver and of the device.  Each operation moves one descriptor from one place
to the next, under the condition that there is room in the ring that it writes (`Room`), which there always
is where the size of the queue is a power of two.

The chain has no end mark: it is as long as `num_free` says, and what follows is never read.
-/

namespace Keuos.Virtio

/-! ### Descriptors -/

theorem toUInt32_injective : Function.Injective UInt16.toUInt32 := by
  intro d e h
  have hnat := congrArg UInt32.toNat h
  rw [UInt16.toNat_toUInt32, UInt16.toNat_toUInt32] at hnat
  exact UInt16.toNat_inj.mp hnat

/-- The numbers `i`, …, `i + n - 1`. -/
def idsFrom (i n : Nat) : List UInt16 :=
  (List.range' i n).map UInt16.ofNat

theorem idsFrom_succ (i n : Nat) : idsFrom i (n + 1) = UInt16.ofNat i :: idsFrom (i + 1) n := by
  unfold idsFrom
  rw [List.range'_succ, List.map_cons]

theorem toNat_ofNat_of_lt {k : Nat} (hk : k < 2 ^ 16) : (UInt16.ofNat k).toNat = k :=
  UInt16.toNat_ofNat_of_lt' hk

theorem nodup_idsFrom {i n : Nat} (h : i + n ≤ 2 ^ 16) : (idsFrom i n).Nodup := by
  unfold idsFrom
  refine List.Nodup.map_on ?_ List.nodup_range'
  intro j hj k hk heq
  rw [List.mem_range'_1] at hj hk
  have hnat := congrArg UInt16.toNat heq
  rwa [toNat_ofNat_of_lt (by omega), toNat_ofNat_of_lt (by omega)] at hnat

/-! ### The free list -/

/-- The descriptors `l` are chained from `head` on. -/
def Chain (desc : UInt32 → VirtqDesc) : UInt16 → List UInt16 → Prop
  | _, [] => True
  | head, d :: l => head = d ∧ Chain desc (desc d.toUInt32).next l

theorem Chain.congr {desc desc' : UInt32 → VirtqDesc} {head : UInt16} {l : List UInt16}
    (h : Chain desc head l) (hsame : ∀ d ∈ l, (desc' d.toUInt32).next = (desc d.toUInt32).next) :
    Chain desc' head l := by
  induction l generalizing head with
  | nil => trivial
  | cons d l ih =>
    refine ⟨h.1, ?_⟩
    rw [hsame d List.mem_cons_self]
    exact ih h.2 fun e he => hsame e (List.mem_cons_of_mem _ he)

theorem Chain.update {desc : UInt32 → VirtqDesc} {head : UInt16} {l : List UInt16}
    (h : Chain desc head l) {d : UInt16} (hd : d ∉ l) (x : VirtqDesc) :
    Chain (Function.update desc d.toUInt32 x) head l := by
  refine h.congr fun e he => ?_
  rw [Function.update_of_ne]
  intro heq
  exact hd (toUInt32_injective heq ▸ he)

theorem chain_idsFrom {desc : UInt32 → VirtqDesc} {i n : Nat}
    (h : ∀ k, i ≤ k → k + 1 < i + n → (desc (UInt16.ofNat k).toUInt32).next = UInt16.ofNat (k + 1)) :
    Chain desc (UInt16.ofNat i) (idsFrom i n) := by
  induction n generalizing i with
  | zero => trivial
  | succ n ih =>
    rw [idsFrom_succ]
    refine ⟨rfl, ?_⟩
    cases n with
    | zero => trivial
    | succ n =>
      rw [h i (Nat.le_refl i) (by omega)]
      exact ih fun k hk hlt => h k (by omega) (by omega)

theorem chainFrom_spec (n d : Nat) (m : VirtqMem) (hn : d + n ≤ 2 ^ 16) (k : Nat) (hk : k < 2 ^ 16) :
    ((chainFrom n (UInt16.ofNat d) m).desc (UInt16.ofNat k).toUInt32).next =
      if d ≤ k ∧ k < d + n then UInt16.ofNat (k + 1)
      else (m.desc (UInt16.ofNat k).toUInt32).next := by
  induction n generalizing d m with
  | zero =>
    rw [if_neg (by omega)]
    rfl
  | succ n ih =>
    unfold chainFrom
    rw [show UInt16.ofNat d + 1 = UInt16.ofNat (d + 1) from (UInt16.ofNat_add d 1).symm,
      ih (d + 1) _ (by omega)]
    by_cases hkd : k = d
    · subst hkd
      rw [if_neg (by omega), if_pos (by omega)]
      dsimp only
      rw [Function.update_self]
    · have hne : (UInt16.ofNat k).toUInt32 ≠ (UInt16.ofNat d).toUInt32 := by
        intro heq
        have hnat := congrArg UInt16.toNat (toUInt32_injective heq)
        rw [toNat_ofNat_of_lt hk, toNat_ofNat_of_lt (by omega)] at hnat
        exact hkd hnat
      dsimp only
      rw [Function.update_of_ne hne]
      by_cases hin : d + 1 ≤ k ∧ k < d + 1 + n
      · rw [if_pos hin, if_pos (by omega)]
      · rw [if_neg hin, if_neg (by omega)]

theorem add_ofNat_length_cons (i d : UInt16) (l : List UInt16) :
    i + UInt16.ofNat (d :: l).length = i + 1 + UInt16.ofNat l.length := by
  rw [List.length_cons, UInt16.ofNat_add, UInt16.add_assoc, UInt16.add_comm 1]
  rfl

theorem add_ofNat_length_append (i d : UInt16) (l : List UInt16) :
    i + UInt16.ofNat (l ++ [d]).length = i + UInt16.ofNat l.length + 1 := by
  rw [List.length_append, List.length_singleton, UInt16.ofNat_add, ← UInt16.add_assoc]
  rfl

/-! ### Where a descriptor goes -/

section Places

variable {d id : UInt16} {inflight avail used : List UInt16}

theorem perm_fetch : (avail ++ (inflight ++ [d]) ++ used).Perm (d :: avail ++ inflight ++ used) := by
  apply List.Perm.append_right used
  rw [← List.append_assoc]
  exact List.perm_append_comm

theorem perm_complete (hid : id ∈ inflight) :
    (avail ++ inflight.erase id ++ (used ++ [id])).Perm (avail ++ inflight ++ used) := by
  have herase : (id :: inflight.erase id).Perm inflight := (List.perm_cons_erase hid).symm
  rw [List.append_assoc, List.append_assoc]
  apply List.Perm.append_left avail
  rw [← List.append_assoc]
  apply List.perm_append_comm.trans
  rw [← List.append_assoc]
  exact herase.append_right used

theorem perm_add : (avail ++ [d] ++ inflight ++ used).Perm (d :: (avail ++ inflight ++ used)) := by
  have hassoc : avail ++ [d] ++ inflight ++ used = avail ++ d :: (inflight ++ used) := by simp
  rw [hassoc, List.append_assoc]
  exact List.perm_middle

end Places

/-! ### The invariant -/

/-- Where the descriptors are: `free`, available (`avail`), taken by the device (`inflight`) or `used`. -/
structure QueueInv (q : Virtq) (lastAvail : UInt16) (inflight free avail used : List UInt16) : Prop where
  size : q.vq.size.toNat ≤ 2 ^ 15
  chain : Chain q.mem.desc q.vq.freeHead free
  numFree : q.vq.numFree.toNat = free.length
  availRing : window q.mem.availRing q.vq.size lastAvail avail.length = avail
  availIdx : q.mem.availIdx = lastAvail + UInt16.ofNat avail.length
  driverIdx : q.vq.availIdx = q.mem.availIdx
  usedRing : (window q.mem.usedRing q.vq.size q.vq.lastUsedIdx used.length).map (·.id) =
    used.map UInt16.toUInt32
  usedIdx : q.mem.usedIdx = q.vq.lastUsedIdx + UInt16.ofNat used.length
  descs : (free ++ (avail ++ inflight ++ used)).Perm (idsFrom 0 q.vq.size.toNat)

/-- The queue after `virtq_add_buf` has used descriptor `d`. -/
def Virtq.added (q : Virtq) (d : UInt16) (bufPhys : UInt64) (bufLen : UInt32) (write : Bool) : Virtq :=
  { vq := { q.vq with
      freeHead := (q.mem.desc d.toUInt32).next
      numFree := q.vq.numFree - 1
      availIdx := q.vq.availIdx + 1 }
    mem := { q.mem with
      desc := Function.update q.mem.desc d.toUInt32
        { addr := bufPhys, len := bufLen, flags := if write then virtqDescFWrite else 0, next := 0 }
      availRing := Function.update q.mem.availRing (q.vq.availIdx % q.vq.size) d
      availIdx := q.vq.availIdx + 1 } }

/-- The queue after `virtq_poll_used` has freed descriptor `d`. -/
def Virtq.freed (q : Virtq) (d : UInt16) : Virtq :=
  { vq := { q.vq with
      lastUsedIdx := q.vq.lastUsedIdx + 1
      freeHead := d
      numFree := q.vq.numFree + 1 }
    mem := q.mem.setNext d.toUInt32 q.vq.freeHead }

/-- What the descriptor tells the device is not the link. -/
@[simp] theorem addr_freed (q : Virtq) (d : UInt16) (i : UInt32) :
    ((q.freed d).mem.desc i).addr = (q.mem.desc i).addr := by
  unfold Virtq.freed VirtqMem.setNext
  by_cases hi : i = d.toUInt32
  · subst hi
    simp
  · simp [Function.update_of_ne hi]

@[simp] theorem len_freed (q : Virtq) (d : UInt16) (i : UInt32) :
    ((q.freed d).mem.desc i).len = (q.mem.desc i).len := by
  unfold Virtq.freed VirtqMem.setNext
  by_cases hi : i = d.toUInt32
  · subst hi
    simp
  · simp [Function.update_of_ne hi]

namespace QueueInv

variable {q : Virtq} {lastAvail d : UInt16} {inflight free avail used : List UInt16}

theorem nodup (h : QueueInv q lastAvail inflight free avail used) :
    (free ++ (avail ++ inflight ++ used)).Nodup := by
  rw [h.descs.nodup_iff]
  apply nodup_idsFrom
  have hsize := h.size
  omega

theorem length_eq (h : QueueInv q lastAvail inflight free avail used) :
    free.length + (avail.length + inflight.length + used.length) = q.vq.size.toNat := by
  have hlen := h.descs.length_eq
  simpa [idsFrom, Nat.add_assoc] using hlen

theorem lt_size (h : QueueInv q lastAvail inflight free avail used)
    (hd : d ∈ free ++ (avail ++ inflight ++ used)) : d < q.vq.size := by
  obtain ⟨k, hk, rfl⟩ := List.mem_map.mp (h.descs.mem_iff.mp hd)
  rw [List.mem_range'_1] at hk
  have hsize := h.size
  rw [UInt16.lt_iff_toNat_lt, toNat_ofNat_of_lt (by omega)]
  omega

theorem index_ne {n : Nat} (hn : n + 1 ≤ 2 ^ 15) (i : UInt16) : i ≠ i + UInt16.ofNat (n + 1) := by
  intro heq
  rw [UInt16.left_eq_add] at heq
  have hnat := congrArg UInt16.toNat heq
  rw [toNat_ofNat_of_lt (by omega)] at hnat
  exact absurd hnat (Nat.succ_ne_zero n)

theorem fetch (h : QueueInv q lastAvail inflight free (d :: avail) used) :
    lastAvail ≠ q.mem.availIdx ∧ q.mem.availRing (lastAvail % q.vq.size) = d ∧
      QueueInv q (lastAvail + 1) (inflight ++ [d]) free avail used := by
  have hlen := h.length_eq
  have hsize := h.size
  have hring := h.availRing
  rw [List.length_cons, window_succ, List.cons.injEq] at hring
  rw [List.length_cons] at hlen
  -- the device takes the first entry of the window, and the rest is the window from the next index on
  refine ⟨?_, hring.1, h.size, h.chain, h.numFree, hring.2, ?_, h.driverIdx, h.usedRing, h.usedIdx, ?_⟩
  · rw [h.availIdx, List.length_cons]
    exact index_ne (by omega) _
  · rw [h.availIdx]
    exact add_ofNat_length_cons _ _ _
  · exact (perm_fetch.append_left free).trans h.descs

theorem fetch_nil (h : QueueInv q lastAvail inflight free [] used) : lastAvail = q.mem.availIdx := by
  rw [h.availIdx]
  exact (UInt16.add_zero _).symm

theorem complete (h : QueueInv q lastAvail inflight free avail used) {id : UInt16} (hid : id ∈ inflight)
    (hroom : Room q.vq.size q.vq.lastUsedIdx used.length) (len : UInt32) :
    QueueInv (q.returnUsed id len) lastAvail (inflight.erase id) free avail (used ++ [id]) := by
  -- only the used ring is written, at a position that no entry in it has
  refine ⟨h.size, h.chain, h.numFree, h.availRing, h.availIdx, h.driverIdx, ?_, ?_, ?_⟩
  · dsimp only [Virtq.returnUsed]
    rw [List.length_append, List.length_singleton, h.usedIdx, window_push_of_room hroom,
      List.map_append, h.usedRing, List.map_append]
    rfl
  · dsimp only [Virtq.returnUsed]
    rw [h.usedIdx]
    exact (add_ofNat_length_append _ _ _).symm
  · exact ((perm_complete hid).append_left free).trans h.descs

theorem poll (h : QueueInv q lastAvail inflight free avail (d :: used)) :
    (∃ len, virtqPollUsed q = (some (d.toUInt32, len), q.freed d)) ∧
      QueueInv (q.freed d) lastAvail inflight (d :: free) avail used := by
  have hlen := h.length_eq
  have hsize := h.size
  have hring := h.usedRing
  have hfree : d ∉ free := by
    intro hmem
    have hdisj := (List.nodup_append.mp h.nodup).2.2 d hmem d (by simp)
    exact hdisj rfl
  rw [List.length_cons, window_succ, List.map_cons, List.map_cons, List.cons.injEq] at hring
  rw [List.length_cons] at hlen
  have hne : q.vq.lastUsedIdx ≠ q.mem.usedIdx := by
    rw [h.usedIdx, List.length_cons]
    exact index_ne (by omega) _
  constructor
  · refine ⟨(q.mem.usedRing (q.vq.lastUsedIdx % q.vq.size)).len, ?_⟩
    unfold virtqPollUsed
    rw [if_neg (by simpa using hne)]
    dsimp only
    rw [hring.1, UInt16.toUInt16_toUInt32]
    rfl
  -- the descriptor is the new head of the chain, and its link is the old head
  · refine ⟨h.size, ?_, ?_, h.availRing, h.availIdx, h.driverIdx, hring.2, ?_, ?_⟩
    · refine ⟨rfl, ?_⟩
      dsimp only [Virtq.freed, VirtqMem.setNext]
      rw [Function.update_self]
      exact h.chain.update hfree _
    · dsimp only [Virtq.freed]
      rw [UInt16.toNat_add, h.numFree, List.length_cons]
      have hone : (1 : UInt16).toNat = 1 := rfl
      rw [hone]
      exact Nat.mod_eq_of_lt (by omega)
    · dsimp only [Virtq.freed, VirtqMem.setNext]
      rw [h.usedIdx]
      exact add_ofNat_length_cons _ _ _
    · refine List.Perm.trans ?_ h.descs
      exact List.perm_middle.symm.trans (List.perm_middle.symm.append_left free)

theorem poll_nil (h : QueueInv q lastAvail inflight free avail []) : virtqPollUsed q = (none, q) := by
  have heq : q.vq.lastUsedIdx = q.mem.usedIdx := by
    rw [h.usedIdx]
    exact (UInt16.add_zero _).symm
  unfold virtqPollUsed
  rw [if_pos (beq_iff_eq.mpr heq)]

theorem add (h : QueueInv q lastAvail inflight (d :: free) avail used)
    (hroom : Room q.vq.size lastAvail avail.length) (bufPhys : UInt64) (bufLen : UInt32) (write : Bool) :
    virtqAddBuf q bufPhys bufLen write = some (d, q.added d bufPhys bufLen write) ∧
      QueueInv (q.added d bufPhys bufLen write) lastAvail inflight free (avail ++ [d]) used := by
  have hhead : q.vq.freeHead = d := h.chain.1
  have hfree : d ∉ free := by
    have hnodup := h.nodup
    rw [List.cons_append] at hnodup
    have hnot := (List.nodup_cons.mp hnodup).1
    exact fun hmem => hnot (List.mem_append_left _ hmem)
  have hcount := h.numFree
  rw [List.length_cons] at hcount
  constructor
  · have hnum : ¬(q.vq.numFree == 0) = true := by
      rw [beq_iff_eq]
      intro hzero
      rw [hzero] at hcount
      exact absurd hcount.symm (Nat.succ_ne_zero _)
    unfold virtqAddBuf
    rw [if_neg hnum]
    dsimp only
    rw [hhead]
    rfl
  -- the entry of the descriptor loses its link, which the rest of the chain does not need
  · refine ⟨h.size, ?_, ?_, ?_, ?_, rfl, h.usedRing, h.usedIdx, ?_⟩
    · have hrest := h.chain.2
      exact hrest.update hfree _
    · dsimp only [Virtq.added]
      have hone : (1 : UInt16).toNat = 1 := rfl
      have hle : 1 ≤ q.vq.numFree := by
        rw [UInt16.le_iff_toNat_le, hone]
        omega
      rw [UInt16.toNat_sub_of_le _ _ hle, hone, hcount, Nat.add_sub_cancel]
    · dsimp only [Virtq.added]
      rw [List.length_append, List.length_singleton, h.driverIdx, h.availIdx, window_push_of_room hroom,
        h.availRing]
    · dsimp only [Virtq.added]
      rw [h.driverIdx, h.availIdx, add_ofNat_length_append]
    · refine List.Perm.trans ?_ h.descs
      exact (perm_add.append_left free).trans List.perm_middle

theorem add_nil (h : QueueInv q lastAvail inflight [] avail used) (bufPhys : UInt64) (bufLen : UInt32)
    (write : Bool) : virtqAddBuf q bufPhys bufLen write = none := by
  have hzero : q.vq.numFree = 0 := UInt16.toNat_inj.mp h.numFree
  unfold virtqAddBuf
  rw [hzero]
  rfl

end QueueInv

theorem size_virtqInit (qsz : UInt16) : (virtqInit qsz).vq.size = qsz := by
  unfold virtqInit
  split
  · next hzero => exact (beq_iff_eq.mp hzero).symm
  · rfl

/-- **`virtq_init` makes every descriptor free.** -/
theorem queueInv_virtqInit {qsz : UInt16} (hpos : 0 < qsz.toNat) (hle : qsz.toNat ≤ 2 ^ 15) :
    QueueInv (virtqInit qsz) 0 [] (idsFrom 0 qsz.toNat) [] [] := by
  have hzero : ¬(qsz == 0) = true := by
    rw [beq_iff_eq]
    rintro rfl
    exact absurd hpos (by decide)
  have hq : virtqInit qsz =
      ⟨{ size := qsz, freeHead := 0, numFree := qsz, lastUsedIdx := 0, availIdx := 0 },
        { (chainFrom qsz.toNat 0 .zero).setNext (qsz - 1).toUInt32 0 with
          availFlags := 1, availIdx := 0 }⟩ := if_neg hzero
  have hused : ∀ n d m, (chainFrom n d m).usedIdx = m.usedIdx := by
    intro n
    induction n with
    | zero => exact fun d m => rfl
    | succ n ih => exact fun d m => ih _ _
  rw [hq]
  refine ⟨hle, ?_, ?_, rfl, rfl, rfl, rfl, ?_, ?_⟩
  · refine chain_idsFrom (i := 0) fun k _ hk => ?_
    -- the link that is stored last is behind the last descriptor, which `num_free` does not reach
    have hlast : (UInt16.ofNat k).toUInt32 ≠ (qsz - 1).toUInt32 := by
      intro heq
      have hnat := congrArg UInt16.toNat (toUInt32_injective heq)
      have hone : (1 : UInt16).toNat = 1 := rfl
      rw [toNat_ofNat_of_lt (by omega), UInt16.toNat_sub_of_le _ _ (by
        rw [UInt16.le_iff_toNat_le, hone]
        omega), hone] at hnat
      omega
    dsimp only [VirtqMem.setNext]
    rw [Function.update_of_ne hlast]
    have hchain := chainFrom_spec qsz.toNat 0 .zero (by omega) k (by omega)
    rw [if_pos (by omega)] at hchain
    exact hchain
  · simp [idsFrom]
  · dsimp only [VirtqMem.setNext]
    exact hused _ _ _
  · simp

/-! ### Runs -/

/-- What is claimed of a state, in which `free` are the descriptors of the chain from `free_head` on, as
many as `num_free` says. -/
structure Queue.SoundFor (s : Queue) (free : List UInt16) : Prop where
  chain : Chain s.q.mem.desc s.q.vq.freeHead free
  length : free.length = s.q.vq.numFree.toNat
  nodup : (free ++ s.outstanding).Nodup
  bounded : ∀ d ∈ free ++ s.outstanding, d < s.q.vq.size
  total : s.q.vq.numFree.toNat + s.outstanding.length = s.q.vq.size.toNat
  fresh : ∀ bufPhys bufLen write r, virtqAddBuf s.q bufPhys bufLen write = some r → r.1 ∉ s.outstanding
  availIdx : s.q.vq.availIdx = UInt16.ofNat s.handed.length
  lastUsedIdx : s.q.vq.lastUsedIdx = UInt16.ofNat s.polled.length
  handed : s.handed = s.taken ++
    window s.q.mem.availRing s.q.vq.size s.lastAvail (s.q.vq.availIdx - s.lastAvail).toNat
  returned : s.returned.map UInt16.toUInt32 = s.polled.map UInt16.toUInt32 ++
    (window s.q.mem.usedRing s.q.vq.size s.q.vq.lastUsedIdx
      (s.q.mem.usedIdx - s.q.vq.lastUsedIdx).toNat).map (·.id)

/-- The queue keeps its books. -/
def Queue.Sound (s : Queue) : Prop :=
  ∃ free, s.SoundFor free

structure Queue.Inv (s : Queue) (qsz : UInt16) (free avail used : List UInt16) : Prop where
  queue : QueueInv s.q s.lastAvail s.inflight free avail used
  size : s.q.vq.size = qsz
  outstanding : s.outstanding.Perm (avail ++ s.inflight ++ used)
  handed : s.handed = s.taken ++ avail
  returned : s.returned = s.polled ++ used
  availIdx : s.q.vq.availIdx = UInt16.ofNat s.handed.length
  lastUsedIdx : s.q.vq.lastUsedIdx = UInt16.ofNat s.polled.length

namespace Queue.Inv

variable {s : Queue} {qsz : UInt16} {free avail used : List UInt16}

theorem toNat_distance (i : UInt16) {l : List UInt16} (hl : l.length ≤ 2 ^ 15) :
    (i + UInt16.ofNat l.length - i).toNat = l.length := by
  rw [UInt16.add_comm, UInt16.add_sub_cancel, toNat_ofNat_of_lt (by omega)]

theorem sound (h : s.Inv qsz free avail used) : s.Sound := by
  have hlen := h.queue.length_eq
  have hsize := h.queue.size
  have hperm : (free ++ s.outstanding).Perm (free ++ (avail ++ s.inflight ++ used)) :=
    h.outstanding.append_left free
  have hnodup : (free ++ s.outstanding).Nodup := hperm.nodup_iff.mpr h.queue.nodup
  refine ⟨free, h.queue.chain, h.queue.numFree.symm, hnodup, ?_, ?_, ?_, h.availIdx, h.lastUsedIdx, ?_, ?_⟩
  · intro d hd
    exact h.queue.lt_size (hperm.mem_iff.mp hd)
  · rw [h.queue.numFree, h.outstanding.length_eq, ← hlen]
    simp [Nat.add_assoc]
  · intro bufPhys bufLen write r hr hmem
    -- the descriptor that is handed out is the head of the chain
    cases hfree : free with
    | nil =>
      rw [hfree] at h
      rw [h.queue.add_nil] at hr
      exact absurd hr (by simp)
    | cons d rest =>
      have hhead : s.q.vq.freeHead = d := by
        have hchain := h.queue.chain
        rw [hfree] at hchain
        exact hchain.1
      have hd : r.1 = d := by
        unfold virtqAddBuf at hr
        split at hr
        · exact absurd hr (by simp)
        · rw [Option.some_inj] at hr
          rw [← hr]
          exact hhead
      rw [hfree] at hnodup
      rw [hd] at hmem
      exact (List.nodup_append.mp hnodup).2.2 d List.mem_cons_self d hmem rfl
  · have hdist : (s.q.vq.availIdx - s.lastAvail).toNat = avail.length := by
      rw [h.queue.driverIdx, h.queue.availIdx]
      exact toNat_distance _ (by omega)
    rw [hdist, h.queue.availRing]
    exact h.handed
  · have hdist : (s.q.mem.usedIdx - s.q.vq.lastUsedIdx).toNat = used.length := by
      rw [h.queue.usedIdx]
      exact toNat_distance _ (by omega)
    rw [hdist, h.queue.usedRing, h.returned, List.map_append]

theorem addBuf (h : s.Inv qsz free avail used) (hsize : qsz.toNat ∣ 2 ^ 16) (bufPhys : UInt64)
    (bufLen : UInt32) (write : Bool) :
    ∃ free' avail', (s.addBuf bufPhys bufLen write).Inv qsz free' avail' used := by
  cases free with
  | nil =>
    refine ⟨[], avail, ?_⟩
    unfold Queue.addBuf
    rw [h.queue.add_nil]
    exact h
  | cons d free =>
    have hlen := h.queue.length_eq
    rw [List.length_cons] at hlen
    -- there are fewer available descriptors than entries, since this one is free
    have hroom : Room s.q.vq.size s.lastAvail avail.length := by
      rw [h.size]
      apply room_of_lt hsize
      rw [← h.size]
      omega
    obtain ⟨hadd, hinv⟩ := h.queue.add hroom bufPhys bufLen write
    refine ⟨free, avail ++ [d], ?_⟩
    unfold Queue.addBuf
    rw [hadd]
    refine ⟨hinv, h.size, ?_, ?_, h.returned, ?_, h.lastUsedIdx⟩
    · have hsame : (s.outstanding ++ [d]).Perm (avail ++ s.inflight ++ used ++ [d]) :=
        h.outstanding.append_right [d]
      exact (hsame.trans (List.perm_append_singleton d _)).trans perm_add.symm
    · dsimp only
      rw [h.handed, List.append_assoc]
    · dsimp only [Virtq.added]
      rw [h.availIdx, List.length_append, List.length_singleton, UInt16.ofNat_add]
      rfl

theorem pollUsed (h : s.Inv qsz free avail used) :
    ∃ free' used', s.pollUsed.Inv qsz free' avail used' := by
  cases used with
  | nil =>
    refine ⟨free, [], ?_⟩
    unfold Queue.pollUsed
    rw [h.queue.poll_nil]
    exact h
  | cons d used =>
    obtain ⟨⟨len, hpoll⟩, hinv⟩ := h.queue.poll
    refine ⟨d :: free, used, ?_⟩
    unfold Queue.pollUsed
    rw [hpoll]
    dsimp only
    rw [UInt16.toUInt16_toUInt32]
    refine ⟨hinv, h.size, ?_, h.handed, ?_, h.availIdx, ?_⟩
    · have herase : (s.outstanding.erase d).Perm ((d :: (avail ++ s.inflight ++ used)).erase d) := by
        apply List.Perm.erase
        exact h.outstanding.trans List.perm_middle
      rwa [List.erase_cons_head] at herase
    · rw [h.returned]
      simp
    · dsimp only [Virtq.freed]
      rw [h.lastUsedIdx, List.length_append, List.length_singleton, UInt16.ofNat_add]
      rfl

theorem fetch (h : s.Inv qsz free avail used) : ∃ avail', s.fetch.Inv qsz free avail' used := by
  unfold Queue.fetch
  cases avail with
  | nil =>
    rw [if_pos (beq_iff_eq.mpr h.queue.fetch_nil)]
    exact ⟨[], h⟩
  | cons d avail =>
    obtain ⟨hne, hd, hinv⟩ := h.queue.fetch
    rw [if_neg (by simpa using hne)]
    dsimp only
    rw [hd]
    refine ⟨avail, hinv, h.size, ?_, ?_, h.returned, h.availIdx, h.lastUsedIdx⟩
    · exact h.outstanding.trans perm_fetch.symm
    · dsimp only
      rw [h.handed]
      simp

theorem complete (h : s.Inv qsz free avail used) (hsize : qsz.toNat ∣ 2 ^ 16) (id : UInt16)
    (len : UInt32) : ∃ used', (s.complete id len).Inv qsz free avail used' := by
  unfold Queue.complete
  split
  · rename_i hid
    have hlen := h.queue.length_eq
    have hpos := List.length_pos_of_mem hid
    -- there are fewer used descriptors than entries, since this one is in flight
    have hroom : Room s.q.vq.size s.q.vq.lastUsedIdx used.length := by
      rw [h.size]
      apply room_of_lt hsize
      rw [← h.size]
      omega
    refine ⟨used ++ [id], h.queue.complete hid hroom len, h.size, ?_, h.handed, ?_, h.availIdx,
      h.lastUsedIdx⟩
    · exact h.outstanding.trans (perm_complete hid).symm
    · dsimp only
      rw [h.returned, List.append_assoc]
  · exact ⟨used, h⟩

end Queue.Inv

theorem exists_inv_queueExec {qsz : UInt16} (hsize : qsz.toNat ∣ 2 ^ 16) {s : Queue}
    (h : ∃ free avail used, s.Inv qsz free avail used) (op : QueueOp) :
    ∃ free avail used, (s.exec op).Inv qsz free avail used := by
  obtain ⟨free, avail, used, hinv⟩ := h
  cases op with
  | addBuf bufPhys bufLen write =>
    obtain ⟨free', avail', h'⟩ := hinv.addBuf hsize bufPhys bufLen write
    exact ⟨free', avail', used, h'⟩
  | pollUsed =>
    obtain ⟨free', used', h'⟩ := hinv.pollUsed
    exact ⟨free', avail, used', h'⟩
  | fetch =>
    obtain ⟨avail', h'⟩ := hinv.fetch
    exact ⟨free, avail', used, h'⟩
  | complete id len =>
    obtain ⟨used', h'⟩ := hinv.complete hsize id len
    exact ⟨free, avail, used', h'⟩

/-- **The books of a virtqueue are right for ever**, whatever the driver calls and in whatever order the
device returns the descriptors. -/
theorem queue_sound {qsz : UInt16} {k : Nat} (hk : k ≤ 15) (hsize : qsz.toNat = 2 ^ k)
    (ops : List QueueOp) : (runOps Queue.exec (Queue.init qsz) ops).Sound := by
  have hdvd : qsz.toNat ∣ 2 ^ 16 := by
    rw [hsize]
    exact Nat.pow_dvd_pow 2 (by omega)
  have hpos : 0 < qsz.toNat := by
    rw [hsize]
    exact Nat.two_pow_pos k
  have hle : qsz.toNat ≤ 2 ^ 15 := by
    rw [hsize]
    exact Nat.pow_le_pow_right (by omega) hk
  have hvq : (virtqInit qsz).vq =
      { size := qsz, freeHead := 0, numFree := qsz, lastUsedIdx := 0, availIdx := 0 } := by
    have hzero : ¬(qsz == 0) = true := by
      rw [beq_iff_eq]
      rintro rfl
      exact absurd hpos (by decide)
    unfold virtqInit
    rw [if_neg hzero]
  have hstart : (Queue.init qsz).Inv qsz (idsFrom 0 qsz.toNat) [] [] := by
    refine ⟨queueInv_virtqInit hpos hle, ?_, List.Perm.refl _, rfl, rfl, ?_, ?_⟩
    · unfold Queue.init
      rw [hvq]
    · unfold Queue.init
      rw [hvq]
      rfl
    · unfold Queue.init
      rw [hvq]
      rfl
  obtain ⟨free, avail, used, hinv⟩ :=
    runOps_invariant (I := fun s => ∃ free avail used, Queue.Inv s qsz free avail used)
      (fun s op h => exists_inv_queueExec hdvd h op) ⟨_, [], [], hstart⟩ ops
  exact hinv.sound

theorem queue_sound_twoHundredAndFiftySix :
    (runOps Queue.exec (Queue.init 256)
      [.addBuf 0x440000 70 false, .addBuf 0x440600 80 false, .fetch, .fetch, .complete 1 0,
        .pollUsed]).Sound :=
  queue_sound (k := 8) (by decide) (by decide) _

end Keuos.Virtio
