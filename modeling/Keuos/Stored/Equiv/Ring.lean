import Keuos.Stored.Ring
import Mathlib.Algebra.Group.Nat.Defs

/-!
# Each command is answered once

The counters of both rings are numbers of bytes on 64 bits.  Over the runs in which no counter has to wrap
around a capacity that does not divide `2 ^ 64`, an index is the record's number modulo the number of records,
and each of the two rings keeps the list of what has gone through it (`RingInv`).

## Main results

* `slot_toNat`: the index of a record.
* `answersOnce_of_admissible`: in every run whose steps meet the conditions, each command is answered once.
* `not_answersOnce`: without room in the completion ring a completion is overwritten.
-/

namespace Keuos.Stored

/-! ### Counters and indices -/

/-- A counter of bytes leads to the right index: it has not wrapped around, or the capacity divides `2 ^
64`. -/
def Counts (cap count : Nat) : Prop := cap ∣ 2 ^ 64 ∨ count < 2 ^ 64

instance (cap count : Nat) : Decidable (Counts cap count) := inferInstanceAs (Decidable (_ ∨ _))

theorem Counts.mono {cap a b : Nat} (h : Counts cap b) (hab : a ≤ b) : Counts cap a :=
  h.imp_right fun hlt => by omega

/-- **The index of a record** of `w` bytes in a ring of `n` records, and of a byte of it. -/
theorem slot_toNat {w n i j : Nat} {cap : UInt64} (hcap : cap.toNat = w * n) (hj : j < w)
    (hcounts : Counts (w * n) (w * i + j)) : (UInt64.ofNat (w * i + j) % cap).toNat = w * (i % n) + j := by
  have hw : 0 < w := Nat.zero_lt_of_lt hj
  -- the counter has lost its multiples of 2^64, which a capacity that divides 2^64 does not see
  have hmod : (w * i + j) % 2 ^ 64 % (w * n) = (w * i + j) % (w * n) := by
    rcases hcounts with hdvd | hlt
    · exact Nat.mod_mod_of_dvd _ hdvd
    · rw [Nat.mod_eq_of_lt hlt]
  rw [UInt64.toNat_mod, hcap, UInt64.toNat_ofNat', hmod, Nat.mod_mul, Nat.mul_add_mod, Nat.mod_eq_of_lt hj,
    Nat.mul_add_div hw, Nat.div_eq_of_lt hj, Nat.add_zero, Nat.add_comm]

theorem mod_ne_of_near {n a b : Nat} (hlt : a < b) (hnear : b < a + n) : a % n ≠ b % n := by
  intro h
  have hdvd : n ∣ b - a := Nat.dvd_of_mod_eq_zero (Nat.sub_mod_eq_zero_of_mod_eq h.symm)
  have hle := Nat.le_of_dvd (by omega) hdvd
  omega

/-! ### Pages -/

theorem Page.set_self (p : Page) (o : Nat) (v : UInt64) : p.set o v o = v := if_pos rfl

theorem Page.set_ne (p : Page) {o o' : Nat} (v : UInt64) (h : o' ≠ o) : p.set o v o' = p o' := if_neg h

/-- What is read at a slot of `w` bytes depends on its words only. -/
def Framed {α : Type} (slot : Page → Nat → α) (w : Nat) : Prop :=
  ∀ ring start o v, o < dataOff + start ∨ dataOff + start + w ≤ o →
    slot (Page.set ring o v) start = slot ring start

theorem framed_command : Framed commandIn 256 := by
  intro ring start o v h
  funext k
  have hk := k.isLt
  exact Page.set_ne _ _ (by omega)

theorem framed_completion : Framed completionIn 32 := by
  intro ring start o v h
  unfold completionIn
  rw [Page.set_ne _ _ (by omega), Page.set_ne _ _ (by omega), Page.set_ne _ _ (by omega),
    Page.set_ne _ _ (by omega)]

/-- The first `n` bytes from `ptr` on are outside of the region. -/
def Apart (base ptr : UInt64) (n : Nat) : Prop := ∀ i < n, 8192 ≤ (ptr + UInt64.ofNat i - base).toNat

instance (base ptr : UInt64) (n : Nat) : Decidable (Apart base ptr n) :=
  inferInstanceAs (Decidable (∀ _ < _, _))

/-- **A read into a buffer outside of the region** changes neither page. -/
theorem fill_of_apart {base ptr : UInt64} {data : List UInt8} (h : Apart base ptr data.length) (p : Page)
    {k : Nat} (hk : k ≤ 4096) : p.fill (base + UInt64.ofNat k) ptr data = p := by
  funext o
  unfold Page.fill
  split
  · next ho =>
    have hread : ∀ m : Mem, (Mem.copyIn (fun i => data.getD i 0) data.length ptr m).read64
        (base + UInt64.ofNat k + UInt64.ofNat o) = m.read64 (base + UInt64.ofNat k + UInt64.ofNat o) := by
      intro m
      rw [UInt64.add_assoc, ← UInt64.ofNat_add]
      refine Mem.read64_congr fun x hx => ?_
      have hin := (inBlock_offset_iff (by omega)).mp hx
      unfold Mem.copyIn
      refine if_neg fun hbuf => ?_
      -- the byte is one of the buffer
      have hfar := h (x - ptr).toNat hbuf
      rw [UInt64.ofNat_toNat, show ptr + (x - ptr) - base = x - base by grind] at hfar
      omega
    dsimp only
    rw [hread, Mem.read64_write64_self]
  · rfl

/-! ### A ring of records -/

/-- A ring of `n` slots of `w` bytes: `records` has gone in, the first `out` have come out, and the slots of
those from the first `kept` on are as they were written. -/
structure RingInv {α : Type} (slot : Page → Nat → α) (w n : Nat) (ring : Page) (records : List α)
    (kept out : Nat) : Prop where
  head : ring 0 = UInt64.ofNat (w * records.length)
  tail : ring 8 = UInt64.ofNat (w * out)
  cap : (ring 16).toNat = w * n
  small : w * n ≤ 3968
  kept_le : kept ≤ out
  tail_le : out ≤ records.length
  room : records.length ≤ out + n
  counts : Counts (w * n) (w * records.length)
  slots : ∀ i c, kept ≤ i → records[i]? = some c → slot ring (w * (i % n)) = c

namespace RingInv

variable {α : Type} {slot : Page → Nat → α} {w n : Nat} {ring : Page} {records : List α} {kept out : Nat}

theorem index (h : RingInv slot w n ring records kept out) (hw : 0 < w) {i : Nat} (hi : i ≤ records.length) :
    (UInt64.ofNat (w * i) % ring 16).toNat = w * (i % n) := by
  have hslot := slot_toNat h.cap hw
    (show Counts (w * n) (w * i + 0) from h.counts.mono (Nat.mul_le_mul_left w hi))
  rwa [Nat.add_zero, Nat.add_zero] at hslot

theorem distance (h : RingInv slot w n ring records kept out) :
    (ring 0 - ring 8).toNat = w * (records.length - out) := by
  have hle : w * out ≤ w * records.length := Nat.mul_le_mul_left w h.tail_le
  have hroom : w * records.length ≤ w * out + w * n := by
    rw [← Nat.mul_add]
    exact Nat.mul_le_mul_left w h.room
  have hsmall := h.small
  rw [h.head, h.tail, UInt64.toNat_sub, UInt64.toNat_ofNat', UInt64.toNat_ofNat', Nat.mul_sub]
  omega

/-- **A store into the data**, outside of the slots that are kept. -/
theorem store (h : RingInv slot w n ring records kept out) (hslot : Framed slot w) {o : Nat} (v : UInt64)
    (ho : dataOff ≤ o) (hout : ∀ i, kept ≤ i → i < records.length →
      o < dataOff + w * (i % n) ∨ dataOff + w * (i % n) + w ≤ o) :
    RingInv slot w n (ring.set o v) records kept out := by
  have hheader : ∀ k ≤ 16, ring.set o v k = ring k := fun k hk =>
    Page.set_ne _ _ (by unfold dataOff at ho; omega)
  -- the three counters are below the data
  refine { h with head := ?_, tail := ?_, cap := ?_, slots := fun i c hi hc => ?_ }
  · rw [hheader 0 (by decide), h.head]
  · rw [hheader 8 (by decide), h.tail]
  · rw [hheader 16 (by decide), h.cap]
  · rw [hslot ring _ o v (hout i hi (List.getElem?_eq_some_iff.mp hc).1)]
    exact h.slots i c hi hc

/-- **The record at the tail comes out**, and its slot may be kept for a while. -/
theorem pop (h : RingInv slot w n ring records kept out) (hslot : Framed slot w) {kept' : Nat}
    (hkept : kept ≤ kept') (hkept' : kept' ≤ out + 1) (hmore : out < records.length) :
    RingInv slot w n (ring.set 8 (ring 8 + UInt64.ofNat w)) records kept' (out + 1) := by
  have hroom := h.room
  refine ⟨?_, ?_, ?_, h.small, hkept', hmore, by omega, h.counts, fun i c hi hc => ?_⟩
  · rw [Page.set_ne _ _ (by decide), h.head]
  · rw [Page.set_self, h.tail, Nat.mul_succ, UInt64.ofNat_add]
  · rw [Page.set_ne _ _ (by decide), h.cap]
  · rw [hslot ring _ 8 _ (.inl (by unfold dataOff; omega))]
    exact h.slots i c (Nat.le_trans hkept hi) hc

/-- **The record at the head goes in.** -/
theorem push (h : RingInv slot w n ring records kept out) (hslot : Framed slot w)
    (hroom : records.length < out + n) (hcounts : Counts (w * n) (w * (records.length + 1))) {c : α}
    (hc : slot ring (w * (records.length % n)) = c) :
    RingInv slot w n (ring.set 0 (ring 0 + UInt64.ofNat w)) (records ++ [c]) kept out := by
  have hlength : (records ++ [c]).length = records.length + 1 := List.length_append
  refine ⟨?_, ?_, ?_, h.small, h.kept_le, ?_, ?_, ?_, fun i d hi hd => ?_⟩
  · rw [Page.set_self, h.head, hlength, Nat.mul_succ, UInt64.ofNat_add]
  · rw [Page.set_ne _ _ (by decide), h.tail]
  · rw [Page.set_ne _ _ (by decide), h.cap]
  · rw [hlength]
    exact Nat.le_succ_of_le h.tail_le
  · rw [hlength]
    exact hroom
  · rw [hlength]
    exact hcounts
  · rw [hslot ring _ 0 _ (.inl (by unfold dataOff; omega))]
    by_cases hlt : i < records.length
    · rw [List.getElem?_append_left hlt] at hd
      exact h.slots i d hi hd
    -- the new record was stored before the head is moved
    · have heq : i = records.length := by
        have hle := (List.getElem?_eq_some_iff.mp hd).1
        omega
      rw [heq, List.getElem?_concat_length, Option.some_inj] at hd
      rw [heq, hc, hd]

end RingInv

theorem ringInv_init {α : Type} {slot : Page → Nat → α} {w n : Nat} {cap : UInt64} (hcap : cap.toNat = w * n)
    (hsmall : cap.toNat ≤ 3968) (ring : Page) :
    RingInv slot w n (((ring.set 0 0).set 8 0).set 16 cap) [] 0 0 where
  head := by rw [Page.set_ne _ _ (by decide), Page.set_ne _ _ (by decide), Page.set_self]; rfl
  tail := by rw [Page.set_ne _ _ (by decide), Page.set_self]; rfl
  cap := by rw [Page.set_self, hcap]
  small := by omega
  kept_le := Nat.le_refl _
  tail_le := Nat.le_refl _
  room := Nat.zero_le _
  counts := .inr (by rw [List.length_nil, Nat.mul_zero]; decide)
  slots i c _ hc := by cases hc

/-! ### The invariant -/

/-- How many slots of commands that are not executed yet are given back. -/
def Daemon.lent : Daemon → Nat
  | .released _ => 1
  | _ => 0

/-- The call of the host for a command. -/
def hostCall (c : Command) : Option Call := callOf (c 0) (c 2) (c 3) (c 4) fun i => c (i.natAdd 4)

/-- What the daemon has read is the command. -/
structure Fields (t : Taken) (c : Command) : Prop where
  op : t.op = c 0
  id : t.id = c 1
  fd : t.fd = c 2
  size : t.size = c 3

/-- The daemon has read the next command that is to be executed. -/
def Holds (n : Nat) (s : State) (t : Taken) : Prop :=
  t.start.toNat = 256 * (s.called.length % n) ∧ ∃ c, s.submitted[s.called.length]? = some c ∧ Fields t c

/-- What the variables of the daemon are. -/
def DaemonInv (n : Nat) (s : State) : Daemon → Prop
  | .idle => s.called.length = s.posted.length
  | .taken tail t => s.called.length = s.posted.length ∧ tail = s.cmdRing 8 ∧ Holds n s t
  | .released t => s.called.length = s.posted.length ∧ Holds n s t
  | .executed completion => s.called.length = s.posted.length + 1 ∧
      ∃ c, s.submitted[s.posted.length]? = some c ∧ completion.id = c 1

/-- A word of a page. -/
def OnPage (offset : Nat) : Prop := 8 ∣ offset ∧ offset + 8 ≤ 4096

/-- **The invariant of the machine.** -/
structure Inv (n m : Nat) (s : State) : Prop where
  cmd : RingInv commandIn 256 n s.cmdRing s.submitted s.called.length (s.called.length + s.daemon.lent)
  comp : RingInv completionIn 32 m s.compRing s.posted s.received.length s.received.length
  called : s.called = (s.submitted.take s.called.length).map hostCall
  ids : s.posted.map Completion.id = (s.submitted.take s.posted.length).map fun c => c 1
  received : s.received = s.posted.take s.received.length
  daemon : DaemonInv n s s.daemon
  inside : ∀ o ∈ s.touched, OnPage o

/-- The condition on a step.  The host reads into a buffer outside of the region; the daemon posts a
completion only when the completion ring has room; the application does not store into the slot of the
command that the daemon is executing; and no counter wraps around a capacity that does not divide
`2 ^ 64`. -/
def Ok (s : State) : Op → Prop
  | .serve _ data =>
    match s.daemon with
    | .released t => t.op = opRead →
        Apart s.base (s.cmdRing (dataOff + t.start.toNat + 32)) (data.take t.size.toNat).length
    | .executed _ => (s.compRing 0 - s.compRing 8).toNat + 32 ≤ (s.compRing 16).toNat ∧
        Counts (s.compRing 16).toNat (32 * (s.posted.length + 1))
    | _ => True
  | .store word _ =>
    match s.daemon with
    | .released t => 8 * word < t.start.toNat ∨ t.start.toNat + 256 ≤ 8 * word
    | _ => True
  | .submit => Counts (s.cmdRing 16).toNat (256 * (s.submitted.length + 1))
  | .receive => True

instance (s : State) (op : Op) : Decidable (Ok s op) := by
  unfold Ok
  split <;> try split
  all_goals infer_instance

section Steps

variable {n m : Nat} {s : State}

/-! ### The daemon -/

theorem inside_append {offsets touched : List Nat} (ho : ∀ o ∈ offsets, OnPage o)
    (h : ∀ o ∈ touched, OnPage o) : ∀ o ∈ offsets ++ touched, OnPage o :=
  fun o hmem => (List.mem_append.mp hmem).elim (ho o) (h o)

/-- The words of a slot are on the page. -/
theorem RingInv.onPage {α : Type} {slot : Page → Nat → α} {w : Nat} {ring : Page} {records : List α}
    {kept out : Nat} (h : RingInv slot w n ring records kept out) (hw : 8 ∣ w) (hn : 0 < n) (i : Nat)
    {o : Nat} (ho : 8 ∣ o) (hlt : o < w) : OnPage (dataOff + w * (i % n) + o) := by
  obtain ⟨k, rfl⟩ := hw
  have hsmall := h.small
  have hend : 8 * k * (i % n) + 8 * k ≤ 8 * k * n := by
    rw [← Nat.mul_succ]
    exact Nat.mul_le_mul_left _ (Nat.mod_lt i hn)
  unfold OnPage dataOff
  rw [Nat.mul_assoc] at hend ⊢
  omega

theorem commandIn_called (h : Inv n m s) {c : Command} (hc : s.submitted[s.called.length]? = some c) :
    commandIn s.cmdRing (256 * (s.called.length % n)) = c := h.cmd.slots _ c (Nat.le_refl _) hc

theorem Inv.posted_le (h : Inv n m s) : s.posted.length ≤ s.submitted.length := by
  have hlength := congrArg List.length h.ids
  rw [List.length_map, List.length_map, List.length_take] at hlength
  omega

/-- **The command at the tail is read**, if there is one. -/
theorem inv_idle (hn : 0 < n) (h : Inv n m { s with daemon := .idle }) (answer : Option UInt64)
    (data : List UInt8) : Inv n m (serve { s with daemon := .idle } answer data) := by
  have hcmd : RingInv commandIn 256 n s.cmdRing s.submitted s.called.length s.called.length := h.cmd
  have heq : s.called.length = s.posted.length := h.daemon
  have hdata := fun o (ho : 8 ∣ o) (hlt : o < 256) => hcmd.onPage (by decide) hn s.called.length ho hlt
  unfold serve
  dsimp only
  split
  · exact { h with inside := inside_append (by simp [OnPage]) h.inside }
  · next hne =>
    have hmore : s.called.length < s.submitted.length := by
      by_contra hnot
      have hle := hcmd.tail_le
      exact hne (by rw [hcmd.head, hcmd.tail, show s.submitted.length = s.called.length by omega])
    have hstart : (s.cmdRing 8 % s.cmdRing 16).toNat = 256 * (s.called.length % n) := by
      rw [hcmd.tail]
      exact hcmd.index (by decide) hcmd.tail_le
    have hget := List.getElem?_eq_getElem hmore
    have hslot := commandIn_called h hget
    refine { h with cmd := hcmd, daemon := ?_, inside := inside_append ?_ h.inside }
    · refine ⟨heq, rfl, hstart, _, hget, ?_⟩
      dsimp only at hslot
      rw [← hslot, hstart]
      exact ⟨rfl, rfl, rfl, rfl⟩
    · rw [hstart]
      have hfirst := hdata 0 (by decide) (by decide)
      have hfields := And.intro (hdata 8 (by decide) (by decide))
        (And.intro (hdata 16 (by decide) (by decide)) (hdata 24 (by decide) (by decide)))
      simp only [List.forall_mem_cons]
      exact ⟨by simp [OnPage], by simp [OnPage], by simp [OnPage], hfirst, hfields.1, hfields.2.1,
        hfields.2.2, by simp⟩

/-- **The record is released**, and its slot is still needed. -/
theorem inv_taken {tail : UInt64} {t : Taken} (h : Inv n m { s with daemon := .taken tail t })
    (answer : Option UInt64) (data : List UInt8) :
    Inv n m (serve { s with daemon := .taken tail t } answer data) := by
  obtain ⟨heq, rfl, hstart, c, hc, hfields⟩ :
    s.called.length = s.posted.length ∧ tail = s.cmdRing 8 ∧ Holds n s t := h.daemon
  have hmore := (List.getElem?_eq_some_iff.mp hc).1
  -- the tail moves, but the slots are still kept from the command on
  exact { h with
    cmd := RingInv.pop h.cmd framed_command (Nat.le_refl _) (Nat.le_succ _) hmore
    daemon := ⟨heq, hstart, c, hc, hfields⟩
    inside := inside_append (by simp [OnPage] : ∀ o ∈ [8], OnPage o) h.inside }

/-- **The host is called** for the first command that has not been executed. -/
theorem inv_released (hn : 0 < n) {t : Taken} (h : Inv n m { s with daemon := .released t })
    (answer : Option UInt64) (data : List UInt8)
    (hok : Ok { s with daemon := .released t } (.serve answer data)) :
    Inv n m (serve { s with daemon := .released t } answer data) := by
  obtain ⟨heq, hstart, c, hc, hop, hid, hfd, hsize⟩ :
    s.called.length = s.posted.length ∧ Holds n s t := h.daemon
  have hcmd : RingInv commandIn 256 n s.cmdRing s.submitted s.called.length (s.called.length + 1) := h.cmd
  have hslot := commandIn_called h hc
  have hword : ∀ k : Fin 32, s.cmdRing (dataOff + t.start.toNat + 8 * k) = c k := by
    intro k
    rw [hstart, ← hslot]
    rfl
  -- the buffer of a read is apart from both pages
  have hfill : Apart s.base (s.cmdRing (dataOff + t.start.toNat + 32))
      (if t.op = opRead then data.take t.size.toNat else []).length := by
    split
    · next hread => exact hok hread
    · exact fun i hi => absurd hi (Nat.not_lt_zero i)
  have hpath : (fun i : Fin 28 => s.cmdRing (dataOff + t.start.toNat + 32 + 8 * i)) =
      fun i => c (i.natAdd 4) := by
    funext i
    rw [← hword, Fin.val_natAdd, Nat.mul_add, Nat.add_assoc _ 32]
  have hcompletion : (completionOf t.op t.id answer).id = c 1 := by
    rw [← hid]
    unfold completionOf
    split_ifs <;> first | rfl | (cases answer <;> rfl)
  have hcmdPage := fill_of_apart hfill s.cmdRing (Nat.zero_le 4096)
  have hcompPage := fill_of_apart hfill s.compRing (Nat.le_refl 4096)
  rw [show UInt64.ofNat 0 = 0 from rfl, UInt64.add_zero] at hcmdPage
  rw [show UInt64.ofNat 4096 = 4096 from rfl] at hcompPage
  have hcall : s.called ++ [callOf t.op t.fd t.size (c 4) fun i => c (i.natAdd 4)] =
      (s.submitted.take (s.called.length + 1)).map hostCall := by
    rw [List.take_add_one, hc, List.map_append, ← h.called, hop, hfd, hsize]
    rfl
  unfold serve
  dsimp only
  rw [hcmdPage, hcompPage, hpath, show s.cmdRing (dataOff + t.start.toNat + 32) = c 4 from hword 4, hcall]
  have hlength : ((s.submitted.take (s.called.length + 1)).map hostCall).length = s.called.length + 1 := by
    rw [← hcall, List.length_append, List.length_singleton]
  refine { h with cmd := ?_, called := ?_, daemon := ?_, inside := inside_append ?_ h.inside }
  -- the slot of the command is given back for good
  · dsimp only [Daemon.lent]
    rw [hlength]
    exact { hcmd with kept_le := Nat.le_refl _, slots := fun i c hi => hcmd.slots i c (by omega) }
  · dsimp only
    rw [hlength]
  · refine ⟨?_, c, heq ▸ hc, hcompletion⟩
    dsimp only
    rw [hlength, heq]
  · intro o ho
    obtain ⟨k, hk, rfl⟩ := List.mem_map.mp ho
    have hk := List.mem_range.mp hk
    rw [hstart, Nat.add_assoc _ 32]
    exact hcmd.onPage (by decide) hn _ (by omega) (by omega)

/-- **The completion is posted** into the slot at the head, and no completion is there that waits. -/
theorem inv_executed (hm : 0 < m) {completion : Completion}
    (h : Inv n m { s with daemon := .executed completion }) (answer : Option UInt64) (data : List UInt8)
    (hok : Ok { s with daemon := .executed completion } (.serve answer data)) :
    Inv n m (serve { s with daemon := .executed completion } answer data) := by
  obtain ⟨heq, c, hc, hid⟩ : s.called.length = s.posted.length + 1 ∧
    ∃ c, s.submitted[s.posted.length]? = some c ∧ completion.id = c 1 := h.daemon
  have hcomp : RingInv completionIn 32 m s.compRing s.posted s.received.length s.received.length := h.comp
  obtain ⟨hroom, hcounts⟩ : (s.compRing 0 - s.compRing 8).toNat + 32 ≤ (s.compRing 16).toNat ∧
    Counts (s.compRing 16).toNat (32 * (s.posted.length + 1)) := hok
  rw [hcomp.distance, hcomp.cap] at hroom
  rw [hcomp.cap] at hcounts
  -- the room in bytes is room for one completion
  have hless : s.posted.length < s.received.length + m := by
    have := hcomp.tail_le
    omega
  have hindex : (s.compRing 0 % s.compRing 16).toNat = 32 * (s.posted.length % m) := by
    rw [hcomp.head]
    exact hcomp.index (by decide) (Nat.le_refl _)
  have hpage := fun o (ho : 8 ∣ o) (hlt : o < 32) => hcomp.onPage (by decide) hm s.posted.length ho hlt
  -- the four words go into a slot that no waiting completion has
  have hstore : ∀ {ring : Page} (o : Nat) (v : UInt64), o < 32 →
      RingInv completionIn 32 m ring s.posted s.received.length s.received.length →
      RingInv completionIn 32 m (ring.set (dataOff + 32 * (s.posted.length % m) + o) v) s.posted
        s.received.length s.received.length := by
    intro ring o v ho hring
    refine hring.store framed_completion v (by unfold dataOff; omega) fun i hi hlt => ?_
    have hne := mod_ne_of_near (n := m) hlt (by omega)
    omega
  have hfour := hstore 24 completion.size (by decide) (hstore 16 completion.fd (by decide)
    (hstore 8 completion.status (by decide) (hstore 0 completion.id (by decide) hcomp)))
  unfold serve
  dsimp only
  rw [hindex]
  refine { h with comp := ?_, ids := ?_, received := ?_, daemon := ?_, inside := inside_append ?_ h.inside }
  · have hpush := hfour.push framed_completion hless hcounts (c := completion) ?_
    · rwa [Page.set_ne _ _ (by unfold dataOff; omega), Page.set_ne _ _ (by unfold dataOff; omega),
        Page.set_ne _ _ (by unfold dataOff; omega), Page.set_ne _ _ (by unfold dataOff; omega)] at hpush
    · unfold completionIn
      simp [Page.set]
  · rw [List.map_append, List.length_append, List.length_singleton, List.take_add_one, hc,
      List.map_append, h.ids]
    simp [hid]
  · rw [List.take_append_of_le_length hcomp.tail_le]
    exact h.received
  · dsimp only [DaemonInv]
    rw [List.length_append, List.length_singleton]
    exact heq
  · simp only [List.forall_mem_cons]
    exact ⟨by simp [OnPage], by simp [OnPage], hpage 0 (by decide) (by decide),
      hpage 8 (by decide) (by decide), hpage 16 (by decide) (by decide),
      hpage 24 (by decide) (by decide), by simp⟩

/-! ### The application -/

/-- The application moves neither the daemon nor the tail of the command ring. -/
theorem DaemonInv.grows {s' : State} (h : DaemonInv n s s.daemon) (hdaemon : s'.daemon = s.daemon)
    (hcalled : s'.called = s.called) (hposted : s'.posted = s.posted) (htail : s'.cmdRing 8 = s.cmdRing 8)
    (hsubmitted : s.submitted <+: s'.submitted) : DaemonInv n s' s'.daemon := by
  obtain ⟨more, hmore⟩ := hsubmitted
  have hkeep : ∀ {k : Nat} {c : Command}, s.submitted[k]? = some c → s'.submitted[k]? = some c := by
    intro k c hc
    rw [← hmore, List.getElem?_append_left (List.getElem?_eq_some_iff.mp hc).1, hc]
  have hholds : ∀ {t : Taken}, Holds n s t → Holds n s' t := by
    rintro t ⟨hstart, c, hc, hfields⟩
    unfold Holds
    rw [hcalled]
    exact ⟨hstart, c, hkeep hc, hfields⟩
  rw [hdaemon]
  cases hd : s.daemon with
  | idle =>
    rw [hd] at h
    simpa only [DaemonInv, hcalled, hposted] using h
  | taken tail t =>
    rw [hd] at h
    rw [DaemonInv, hcalled, hposted, htail]
    exact ⟨h.1, h.2.1, hholds h.2.2⟩
  | released t =>
    rw [hd] at h
    rw [DaemonInv, hcalled, hposted]
    exact ⟨h.1, hholds h.2⟩
  | executed completion =>
    rw [hd] at h
    obtain ⟨heq, c, hc, hid⟩ := h
    rw [DaemonInv, hcalled, hposted]
    exact ⟨heq, c, hkeep hc, hid⟩

theorem inv_submit (h : Inv n m s) (hok : Ok s .submit) : Inv n m (submit s) := by
  unfold submit
  split
  swap
  · exact h
  next hroom =>
    rw [h.cmd.distance, h.cmd.cap] at hroom
    have hle := h.cmd.tail_le
    have hcalled : s.called.length ≤ s.submitted.length := Nat.le_trans h.cmd.kept_le hle
    have hindex : (s.cmdRing 0 % s.cmdRing 16).toNat = 256 * (s.submitted.length % n) := by
      rw [h.cmd.head]
      exact h.cmd.index (by decide) (Nat.le_refl _)
    rw [hindex]
    refine { h with
      cmd := h.cmd.push framed_command (by omega) (h.cmd.cap ▸ hok) rfl
      called := ?_
      ids := ?_
      daemon := h.daemon.grows rfl rfl rfl
        (Page.set_ne s.cmdRing (s.cmdRing 0 + 256) (by decide : 8 ≠ 0)) (List.prefix_append _ _) }
    · dsimp only
      rw [List.take_append_of_le_length hcalled]
      exact h.called
    · dsimp only
      rw [List.take_append_of_le_length h.posted_le]
      exact h.ids

theorem inv_store (h : Inv n m s) {word : Nat} {v : UInt64} (hok : Ok s (.store word v)) :
    Inv n m (store s word v) := by
  unfold store
  split
  swap
  · exact h
  next hfree =>
    -- a byte of a waiting slot is between the tail and the head
    have hout : ∀ i, s.called.length ≤ i → i < s.submitted.length →
        dataOff + 8 * word < dataOff + 256 * (i % n) ∨
          dataOff + 256 * (i % n) + 256 ≤ dataOff + 8 * word := by
      intro i hi hlt
      -- a command waits behind the tail, or its slot is lent to the daemon
      by_cases hwaits : s.called.length + s.daemon.lent ≤ i
      · by_contra hinside
        have hj : 8 * word - 256 * (i % n) < 256 := by omega
        have hbyte := hfree.2 (256 * (i - (s.called.length + s.daemon.lent)) + (8 * word - 256 * (i % n)))
          (by rw [h.cmd.distance]; omega)
        rw [h.cmd.tail, ← UInt64.ofNat_add, show 256 * (s.called.length + s.daemon.lent) +
          (256 * (i - (s.called.length + s.daemon.lent)) + (8 * word - 256 * (i % n))) =
            256 * i + (8 * word - 256 * (i % n)) by omega,
          slot_toNat h.cmd.cap hj (h.cmd.counts.mono (by omega))] at hbyte
        omega
      · -- the slot is the one that the daemon still reads
        have hdaemon := h.daemon
        unfold Ok at hok
        cases hd : s.daemon with
        | released t =>
          rw [hd] at hdaemon hok hwaits
          have heq : i = s.called.length := by
            simp only [Daemon.lent] at hwaits
            omega
          have hstart := hdaemon.2.1
          dsimp only at hok
          rw [heq, ← hstart]
          omega
        | _ =>
          rw [hd] at hwaits
          simp only [Daemon.lent] at hwaits
          omega
    exact { h with
      cmd := h.cmd.store framed_command v (Nat.le_add_right _ _) hout
      daemon := h.daemon.grows rfl rfl rfl (Page.set_ne _ _ (by unfold dataOff; omega)) (List.prefix_refl _) }

theorem inv_receive (h : Inv n m s) : Inv n m (receive s) := by
  unfold receive
  split
  swap
  · exact h
  next hmore =>
    have hlt : s.received.length < s.posted.length := by
      by_contra hnot
      have hle := h.comp.tail_le
      exact hmore (by rw [h.comp.head, h.comp.tail, show s.received.length = s.posted.length by omega])
    have hget := List.getElem?_eq_getElem hlt
    have hslot := h.comp.slots _ _ (Nat.le_refl _) hget
    have hlength : ∀ c, (s.received ++ [c]).length = s.received.length + 1 := fun _ => List.length_append
    rw [h.comp.tail, h.comp.index (by decide) h.comp.tail_le, hslot, ← h.comp.tail]
    refine { h with
      comp := ?_, received := ?_, daemon := h.daemon.grows rfl rfl rfl rfl (List.prefix_refl _) }
    · rw [hlength]
      exact h.comp.pop framed_completion (Nat.le_succ _) (Nat.le_refl _) hlt
    · dsimp only
      rw [hlength, List.take_add_one, hget, ← h.received]
      rfl

/-- **Every step keeps the invariant.** -/
theorem inv_exec (hn : 0 < n) (hm : 0 < m) (h : Inv n m s) {o : Op} (hok : Ok s o) : Inv n m (exec s o) := by
  cases o with
  | serve answer data =>
    -- the step is that of the place where the daemon stands
    obtain ⟨base, cmdRing, compRing, daemon, submitted, called, posted, received, touched⟩ := s
    let t : State := ⟨base, cmdRing, compRing, .idle, submitted, called, posted, received, touched⟩
    cases daemon with
    | idle => exact inv_idle (s := t) hn h answer data
    | taken tail command => exact inv_taken (s := t) h answer data
    | released command => exact inv_released (s := t) hn h answer data hok
    | executed completion => exact inv_executed (s := t) hm h answer data hok
  | store word v => exact inv_store h hok
  | submit => exact inv_submit h hok
  | receive => exact inv_receive h

end Steps

/-! ### Runs -/

/-- **Each command is answered once**: the commands are executed once and in the order in which they were
submitted, each has one completion with its id, the completions are received as they were posted, none is
overwritten before that, and the daemon stays on the pages.  When it finds the command ring empty, everything
has been answered. -/
structure AnswersOnce (s : State) : Prop where
  called : s.called = (s.submitted.take s.called.length).map hostCall
  called_le : s.called.length ≤ s.submitted.length
  ids : s.posted.map Completion.id = (s.submitted.take s.posted.length).map fun c => c 1
  posted_le : s.posted.length ≤ s.called.length
  le_posted : s.called.length ≤ s.posted.length + 1
  received : s.received = s.posted.take s.received.length
  kept : ∀ i c, s.received.length ≤ i → s.posted[i]? = some c →
    completionIn s.compRing (UInt64.ofNat (32 * i) % s.compRing 16).toNat = c
  inside : ∀ o ∈ s.touched, OnPage o
  finished : s.daemon = .idle → s.cmdRing 0 = s.cmdRing 8 →
    s.called.length = s.submitted.length ∧ s.posted.length = s.submitted.length

theorem Inv.answersOnce {n m : Nat} {s : State} (h : Inv n m s) : AnswersOnce s := by
  have hposted : s.posted.length ≤ s.called.length ∧ s.called.length ≤ s.posted.length + 1 := by
    have hdaemon := h.daemon
    cases hd : s.daemon <;> rw [hd] at hdaemon <;> simp only [DaemonInv] at hdaemon <;> omega
  refine ⟨h.called, Nat.le_trans h.cmd.kept_le h.cmd.tail_le, h.ids, hposted.1, hposted.2, h.received,
    fun i c hi hc => ?_, h.inside, fun hidle hempty => ?_⟩
  · rw [h.comp.index (by decide) (Nat.le_of_lt (List.getElem?_eq_some_iff.mp hc).1)]
    exact h.comp.slots i c hi hc
  · have hdaemon := h.daemon
    have hdistance := h.cmd.distance
    have hle := h.cmd.tail_le
    rw [hempty, UInt64.sub_self, UInt64.toNat_zero, hidle] at hdistance
    rw [hidle] at hdaemon hle
    simp only [DaemonInv, Daemon.lent] at hdaemon hdistance hle
    omega

/-- **In every run whose steps meet the conditions, each command is answered once**, for all capacities that
the protocol allows, all answers of the host and all orders of the steps of the two parties. -/
theorem answersOnce_of_admissible (base : UInt64) {cmdCap compCap : UInt64}
    (hcmd : 256 ∣ cmdCap.toNat ∧ 0 < cmdCap.toNat ∧ cmdCap.toNat ≤ 3840)
    (hcomp : 32 ∣ compCap.toNat ∧ 0 < compCap.toNat ∧ compCap.toNat ≤ 3968) (cmdRing compRing : Page)
    {ops : List Op} (hok : Admissible exec Ok (.init base cmdCap compCap cmdRing compRing) ops) :
    AnswersOnce (runOps exec (.init base cmdCap compCap cmdRing compRing) ops) := by
  obtain ⟨⟨n, hn⟩, hn0, hn15⟩ := hcmd
  obtain ⟨⟨m, hm⟩, hm0, hm124⟩ := hcomp
  have hinit : Inv n m (.init base cmdCap compCap cmdRing compRing) :=
    ⟨ringInv_init hn (by omega) cmdRing, ringInv_init hm hm124 compRing, rfl, rfl, rfl, rfl,
      fun o ho => absurd ho List.not_mem_nil⟩
  have hinv := runOps_induction (I := Inv n m)
    (fun s o h hok => inv_exec (by omega) (by omega) h hok) hinit hok
  exact hinv.answersOnce

/-- Two commands are submitted and answered, and both answers are taken: a file is opened, and four of its
bytes are read into a buffer behind the region. -/
def twoAnswers : List Op :=
  [.store 0 opOpen, .store 1 1, .submit, .serve none [], .store 32 opRead, .store 33 2, .store 34 9,
    .store 35 4, .store 36 0x610000010000, .submit, .serve none [], .serve (some 9) [], .serve none [],
    .receive, .serve none [], .serve none [], .serve (some 4) [1, 2, 3, 4], .serve none [], .receive]

theorem answersOnce_of_admissible_twoAnswers :
    let s := runOps exec (.init 0x610000002000 512 64 (fun _ => 0) fun _ => 0) twoAnswers
    s.received = [⟨1, 0, 9, 0⟩, ⟨2, 0, 0, 4⟩] ∧ AnswersOnce s :=
  ⟨by decide +kernel,
    answersOnce_of_admissible 0x610000002000 (by decide) (by decide) _ _ (by decide +kernel)⟩

/-! ### A completion ring that is full -/

/-- Two commands with the ids 1 and 2 are submitted, and the daemon answers both. -/
def twoUnread : List Op :=
  [.store 1 1, .submit, .store 33 2, .submit] ++ List.replicate 8 (.serve none [])

/-- **Without room in the completion ring** the completion of the first command is overwritten by that of the
second one before the application has received it. -/
theorem not_answersOnce :
    ¬ ∀ (base cmdCap compCap : UInt64) (cmdRing compRing : Page) (ops : List Op),
      (256 ∣ cmdCap.toNat ∧ 0 < cmdCap.toNat ∧ cmdCap.toNat ≤ 3840) →
      (32 ∣ compCap.toNat ∧ 0 < compCap.toNat ∧ compCap.toNat ≤ 3968) →
      AnswersOnce (runOps exec (.init base cmdCap compCap cmdRing compRing) ops) := by
  intro h
  have hkept := (h 0x610000002000 512 32 (fun _ => 0) (fun _ => 0) twoUnread (by decide) (by decide)).kept 0
    ⟨1, 0, 0, 0⟩ (by decide +kernel) (by decide +kernel)
  exact absurd hkept (by decide +kernel)

end Keuos.Stored
