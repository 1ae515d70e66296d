import Keuos.RingAbi.Equiv.Bounds

/-!
# Completions

A process submits, drains happen, and the process consumes completions, in any order.  `Inv` relates the
words of the two pages to the history: the pending submissions and the unread completions lie in the
pages, in order.  `kept` are the submissions whose completion found room.  `completions_eq` says that the
completions that the process has read, followed by those in the queue, are one for each of these.

The completion of a submission that is dispatched while 32 completions are unread is dropped, although
the submission is consumed (`lost_completion`).
-/

namespace Keuos.RingAbi

/-! ### Pages as words -/

/-- The word at an offset of the page at `base`. -/
def page (m : Mem) (base : UInt64) (n : Nat) : UInt64 :=
  m.read64 (base + UInt64.ofNat n)

/-- The offset of a word of a page. -/
def WordOffset (n : Nat) : Prop := n < 4096 ∧ n % 8 = 0

theorem toNat_word {base : UInt64} (hbase : base.toNat % 4096 = 0) {n : Nat} (hn : WordOffset n) :
    (base + UInt64.ofNat n).toNat = base.toNat + n := by
  have hlt := base.toNat_lt
  have hn' := hn.1
  rw [UInt64.toNat_add, UInt64.toNat_ofNat', Nat.mod_eq_of_lt (by omega : n < 2 ^ 64)]
  omega

theorem page_write {b b' v : UInt64} (hb : b.toNat % 4096 = 0) (hb' : b'.toNat % 4096 = 0) {n n' : Nat}
    (hn : WordOffset n) (hn' : WordOffset n') (m : Mem) :
    page (m.write64 (b + UInt64.ofNat n) v) b' n' =
      if b' = b ∧ n' = n then v else page m b' n' := by
  unfold page
  by_cases hsame : b' = b ∧ n' = n
  · rw [if_pos hsame, hsame.1, hsame.2, Mem.read64_write64_self]
  · rw [if_neg hsame]
    have h₁ := toNat_word hb hn
    have h₂ := toNat_word hb' hn'
    obtain ⟨hlt, hmod⟩ := hn
    obtain ⟨hlt', hmod'⟩ := hn'
    refine Mem.read64_write64_of_ne (by omega) (by omega) ?_
    intro heq
    rw [← UInt64.toNat_inj, h₁, h₂] at heq
    refine hsame ⟨?_, by omega⟩
    rw [← UInt64.toNat_inj]
    omega

/-- The submission in a place of the queue. -/
def sqeAt (w : Nat → UInt64) (j : Nat) : Sqe :=
  ⟨w (64 + j * 64), w (72 + j * 64), w (80 + j * 64), w (88 + j * 64), w (96 + j * 64)⟩

/-- The completion in a place of the queue. -/
def cqeAt (w : Nat → UInt64) (j : Nat) : Cqe :=
  ⟨w (64 + j * 32), w (72 + j * 32), w (80 + j * 32)⟩

section Words

variable {m : Mem} {b x : UInt64}

theorem sqeAddr_add (b x : UInt64) (k : Nat) :
    sqeAddr b x + UInt64.ofNat k = b + UInt64.ofNat (64 + x.toNat % 32 * 64 + k) := by
  have hoffset : headerSize + (x &&& ringMask) * sqeSize + UInt64.ofNat k =
      UInt64.ofNat (64 + x.toNat % 32 * 64 + k) := by
    rw [← UInt64.toNat_inj, UInt64.toNat_add, UInt64.toNat_add, UInt64.toNat_mul, UInt64.toNat_and,
      UInt64.toNat_ofNat', UInt64.toNat_ofNat', show ringMask.toNat = 2 ^ 5 - 1 from rfl,
      Nat.and_two_pow_sub_one_eq_mod, show headerSize.toNat = 64 from rfl,
      show sqeSize.toNat = 64 from rfl]
    omega
  unfold sqeAddr
  rw [← hoffset]
  grind

theorem cqeAddr_add (b x : UInt64) (k : Nat) :
    cqeAddr b x + UInt64.ofNat k = b + UInt64.ofNat (64 + x.toNat % 32 * 32 + k) := by
  have hoffset : headerSize + (x &&& ringMask) * cqeSize + UInt64.ofNat k =
      UInt64.ofNat (64 + x.toNat % 32 * 32 + k) := by
    rw [← UInt64.toNat_inj, UInt64.toNat_add, UInt64.toNat_add, UInt64.toNat_mul, UInt64.toNat_and,
      UInt64.toNat_ofNat', UInt64.toNat_ofNat', show ringMask.toNat = 2 ^ 5 - 1 from rfl,
      Nat.and_two_pow_sub_one_eq_mod, show headerSize.toNat = 64 from rfl,
      show cqeSize.toNat = 32 from rfl]
    omega
  unfold cqeAddr
  rw [← hoffset]
  grind

theorem read64_sqe (m : Mem) (b x : UInt64) {k c : Nat} (hc : 64 + k = c) :
    m.read64 (sqeAddr b x + UInt64.ofNat k) = page m b (c + x.toNat % 32 * 64) := by
  unfold page
  rw [sqeAddr_add, ← hc]
  congr 3
  omega

theorem read64_cqe (m : Mem) (b x : UInt64) {k c : Nat} (hc : 64 + k = c) :
    m.read64 (cqeAddr b x + UInt64.ofNat k) = page m b (c + x.toNat % 32 * 32) := by
  unfold page
  rw [cqeAddr_add, ← hc]
  congr 3
  omega

theorem readSqe_eq (m : Mem) (b x : UInt64) :
    readSqe m (sqeAddr b x) = sqeAt (page m b) (x.toNat % 32) := by
  have h₀ := read64_sqe m b x (k := 0) rfl
  have h₁ := read64_sqe m b x (k := 8) rfl
  have h₂ := read64_sqe m b x (k := 16) rfl
  have h₃ := read64_sqe m b x (k := 24) rfl
  have h₄ := read64_sqe m b x (k := 32) rfl
  unfold readSqe sqeAt
  rw [← h₀, ← h₁, ← h₂, ← h₃, ← h₄]
  rfl

theorem readCqe_eq (m : Mem) (b x : UInt64) :
    readCqe m (cqeAddr b x) = cqeAt (page m b) (x.toNat % 32) := by
  have h₀ := read64_cqe m b x (k := 0) rfl
  have h₁ := read64_cqe m b x (k := 8) rfl
  have h₂ := read64_cqe m b x (k := 16) rfl
  unfold readCqe cqeAt
  rw [← h₀, ← h₁, ← h₂]
  rfl

end Words

/-! ### Stores of entries -/

section Stores

variable {b b' : UInt64} (hb : b.toNat % 4096 = 0) (hb' : b'.toNat % 4096 = 0)

include hb hb'

theorem page_writeSqe (m : Mem) (x : UInt64) (e : Sqe) :
    sqeAt (page (writeSqe m (sqeAddr b x) e) b) (x.toNat % 32) = e ∧
      ∀ n, WordOffset n → (b' = b → n < 64 + x.toNat % 32 * 64 ∨ 128 + x.toNat % 32 * 64 ≤ n) →
        page (writeSqe m (sqeAddr b x) e) b' n = page m b' n := by
  have hwrite : writeSqe m (sqeAddr b x) e =
      ((((m.write64 (b + UInt64.ofNat (64 + x.toNat % 32 * 64 + 0)) e.opCode).write64
        (b + UInt64.ofNat (64 + x.toNat % 32 * 64 + 8)) e.fd).write64
        (b + UInt64.ofNat (64 + x.toNat % 32 * 64 + 16)) e.bufferAddr).write64
        (b + UInt64.ofNat (64 + x.toNat % 32 * 64 + 24)) e.length).write64
        (b + UInt64.ofNat (64 + x.toNat % 32 * 64 + 32)) e.userData := by
    rw [← sqeAddr_add, ← sqeAddr_add, ← sqeAddr_add, ← sqeAddr_add, ← sqeAddr_add]
    rfl
  have hj : x.toNat % 32 < 32 := Nat.mod_lt _ (by decide)
  generalize x.toNat % 32 = j at *
  have hpage : ∀ (c : UInt64), c.toNat % 4096 = 0 → ∀ n, WordOffset n →
      page (writeSqe m (sqeAddr b x) e) c n =
        if c = b ∧ n = 64 + j * 64 + 32 then e.userData
        else if c = b ∧ n = 64 + j * 64 + 24 then e.length
        else if c = b ∧ n = 64 + j * 64 + 16 then e.bufferAddr
        else if c = b ∧ n = 64 + j * 64 + 8 then e.fd
        else if c = b ∧ n = 64 + j * 64 + 0 then e.opCode
        else page m c n := by
    intro c hc n hn
    rw [hwrite, page_write hb hc ⟨by omega, by omega⟩ hn, page_write hb hc ⟨by omega, by omega⟩ hn,
      page_write hb hc ⟨by omega, by omega⟩ hn, page_write hb hc ⟨by omega, by omega⟩ hn,
      page_write hb hc ⟨by omega, by omega⟩ hn]
  constructor
  · unfold sqeAt
    rw [hpage b hb _ ⟨by omega, by omega⟩, hpage b hb _ ⟨by omega, by omega⟩,
      hpage b hb _ ⟨by omega, by omega⟩, hpage b hb _ ⟨by omega, by omega⟩,
      hpage b hb _ ⟨by omega, by omega⟩]
    have h₁ : 72 + j * 64 = 64 + j * 64 + 8 := by omega
    have h₂ : 80 + j * 64 = 64 + j * 64 + 16 := by omega
    have h₃ : 88 + j * 64 = 64 + j * 64 + 24 := by omega
    have h₄ : 96 + j * 64 = 64 + j * 64 + 32 := by omega
    rw [h₁, h₂, h₃, h₄]
    simp
  · intro n hn hout
    rw [hpage b' hb' n hn, if_neg, if_neg, if_neg, if_neg, if_neg]
    all_goals
      rintro ⟨hsame, heq⟩
      have := hout hsame
      omega

theorem page_writeCqe (m : Mem) (x : UInt64) (e : Cqe) :
    cqeAt (page (writeCqe m (cqeAddr b x) e) b) (x.toNat % 32) = e ∧
      ∀ n, WordOffset n → (b' = b → n < 64 + x.toNat % 32 * 32 ∨ 96 + x.toNat % 32 * 32 ≤ n) →
        page (writeCqe m (cqeAddr b x) e) b' n = page m b' n := by
  have hwrite : writeCqe m (cqeAddr b x) e =
      ((m.write64 (b + UInt64.ofNat (64 + x.toNat % 32 * 32 + 0)) e.userData).write64
        (b + UInt64.ofNat (64 + x.toNat % 32 * 32 + 8)) e.result).write64
        (b + UInt64.ofNat (64 + x.toNat % 32 * 32 + 16)) e.flags := by
    rw [← cqeAddr_add, ← cqeAddr_add, ← cqeAddr_add]
    rfl
  have hj : x.toNat % 32 < 32 := Nat.mod_lt _ (by decide)
  generalize x.toNat % 32 = j at *
  have hpage : ∀ (c : UInt64), c.toNat % 4096 = 0 → ∀ n, WordOffset n →
      page (writeCqe m (cqeAddr b x) e) c n =
        if c = b ∧ n = 64 + j * 32 + 16 then e.flags
        else if c = b ∧ n = 64 + j * 32 + 8 then e.result
        else if c = b ∧ n = 64 + j * 32 + 0 then e.userData
        else page m c n := by
    intro c hc n hn
    rw [hwrite, page_write hb hc ⟨by omega, by omega⟩ hn, page_write hb hc ⟨by omega, by omega⟩ hn,
      page_write hb hc ⟨by omega, by omega⟩ hn]
  constructor
  · unfold cqeAt
    rw [hpage b hb _ ⟨by omega, by omega⟩, hpage b hb _ ⟨by omega, by omega⟩,
      hpage b hb _ ⟨by omega, by omega⟩]
    have h₁ : 72 + j * 32 = 64 + j * 32 + 8 := by omega
    have h₂ : 80 + j * 32 = 64 + j * 32 + 16 := by omega
    rw [h₁, h₂]
    simp
  · intro n hn hout
    rw [hpage b' hb' n hn, if_neg, if_neg, if_neg]
    all_goals
      rintro ⟨hsame, heq⟩
      have := hout hsame
      omega

end Stores

theorem sqeAt_congr {w w' : Nat → UInt64} {j : Nat}
    (h : ∀ n, WordOffset n → 64 + j * 64 ≤ n → n < 128 + j * 64 → w' n = w n) (hj : j < 32) :
    sqeAt w' j = sqeAt w j := by
  unfold sqeAt
  rw [h _ ⟨by omega, by omega⟩ (by omega) (by omega), h _ ⟨by omega, by omega⟩ (by omega) (by omega),
    h _ ⟨by omega, by omega⟩ (by omega) (by omega), h _ ⟨by omega, by omega⟩ (by omega) (by omega),
    h _ ⟨by omega, by omega⟩ (by omega) (by omega)]

theorem cqeAt_congr {w w' : Nat → UInt64} {j : Nat}
    (h : ∀ n, WordOffset n → 64 + j * 32 ≤ n → n < 96 + j * 32 → w' n = w n) (hj : j < 32) :
    cqeAt w' j = cqeAt w j := by
  unfold cqeAt
  rw [h _ ⟨by omega, by omega⟩ (by omega) (by omega), h _ ⟨by omega, by omega⟩ (by omega) (by omega),
    h _ ⟨by omega, by omega⟩ (by omega) (by omega)]

theorem pages_tail (m : Mem) {b c : UInt64} (hb : b.toNat % 4096 = 0) (hc : c.toNat % 4096 = 0)
    (hbc : b ≠ c) (v : UInt64) :
    ∃ m', m.write64 (b + hdrTail) v = m' ∧ page m' b 8 = v ∧
      (∀ n, WordOffset n → n ≠ 8 → page m' b n = page m b n) ∧
      ∀ n, WordOffset n → page m' c n = page m c n := by
  have height : WordOffset 8 := ⟨by decide, by decide⟩
  have hstore : ∀ (d : UInt64), d.toNat % 4096 = 0 → ∀ n, WordOffset n →
      page (m.write64 (b + hdrTail) v) d n = if d = b ∧ n = 8 then v else page m d n :=
    fun d hd n hn => page_write hb hd height hn m
  generalize m.write64 (b + hdrTail) v = m' at *
  refine ⟨m', rfl, ?_, ?_, ?_⟩
  · rw [hstore b hb 8 height, if_pos ⟨rfl, rfl⟩]
  · intro n hn hne
    rw [hstore b hb n hn, if_neg (fun hx => hne hx.2)]
  · intro n hn
    rw [hstore c hc n hn, if_neg (fun hx => hbc hx.1.symm)]

/-- Two pages of the kernel's memory. -/
structure Pages (ring : ProcessRing) : Prop where
  sq : ring.sqKern.toNat % 4096 = 0
  cq : ring.cqKern.toNat % 4096 = 0
  ne : ring.sqKern ≠ ring.cqKern

section Steps

variable {ring : ProcessRing} (h : Pages ring)

include h

theorem pages_submit (m : Mem) (head : UInt64) (e : Sqe) :
    ∃ m', (writeSqe m (sqeAddr ring.sqKern head) e).write64 (ring.sqKern + hdrHead) (head + 1) = m' ∧
      page m' ring.sqKern 0 = head + 1 ∧ page m' ring.sqKern 8 = page m ring.sqKern 8 ∧
      (∀ j, j < 32 → sqeAt (page m' ring.sqKern) j =
        if j = head.toNat % 32 then e else sqeAt (page m ring.sqKern) j) ∧
      ∀ n, WordOffset n → page m' ring.cqKern n = page m ring.cqKern n := by
  obtain ⟨hself, hother⟩ := page_writeSqe h.sq h.sq m head e
  obtain ⟨-, hcq⟩ := page_writeSqe h.sq h.cq m head e
  have hj' : head.toNat % 32 < 32 := Nat.mod_lt _ (by decide)
  generalize writeSqe m (sqeAddr ring.sqKern head) e = m₁ at *
  generalize head.toNat % 32 = k at *
  have hzero : WordOffset 0 := ⟨by decide, by decide⟩
  have hstore : ∀ (b : UInt64), b.toNat % 4096 = 0 → ∀ n, WordOffset n →
      page (m₁.write64 (ring.sqKern + hdrHead) (head + 1)) b n =
        if b = ring.sqKern ∧ n = 0 then head + 1 else page m₁ b n :=
    fun b hb n hn => page_write h.sq hb hzero hn m₁
  generalize m₁.write64 (ring.sqKern + hdrHead) (head + 1) = m' at *
  refine ⟨m', rfl, ?_, ?_, ?_, ?_⟩
  · rw [hstore _ h.sq 0 hzero, if_pos ⟨rfl, rfl⟩]
  · have height : WordOffset 8 := ⟨by decide, by decide⟩
    rw [hstore _ h.sq 8 height, if_neg (by rintro ⟨-, hc⟩; omega),
      hother 8 height (fun _ => .inl (by omega))]
  · intro j hj
    have hsame : sqeAt (page m' ring.sqKern) j = sqeAt (page m₁ ring.sqKern) j := by
      refine sqeAt_congr (fun n hn hlo _ => ?_) hj
      rw [hstore _ h.sq n hn, if_neg (by rintro ⟨-, hc⟩; omega)]
    rw [hsame]
    by_cases hjk : j = k
    · rw [if_pos hjk, hjk, hself]
    · rw [if_neg hjk]
      refine sqeAt_congr (fun n hn hlo hhi => hother n hn fun _ => ?_) hj
      obtain hlt | hgt := Nat.lt_or_gt_of_ne hjk
      · exact .inl (by omega)
      · exact .inr (by omega)
  · intro n hn
    rw [hstore _ h.cq n hn, if_neg (by rintro ⟨hc, -⟩; exact h.ne hc.symm),
      hcq n hn (fun hc => absurd hc.symm h.ne)]

theorem pages_postCqe {m : Mem} {head : UInt64} (hhead : page m ring.cqKern 0 = head)
    (hroom : cqFull m ring.cqKern = false) (e : Cqe) :
    ∃ m', postCqe m ring.cqKern e = m' ∧
      page m' ring.cqKern 0 = head + 1 ∧ page m' ring.cqKern 8 = page m ring.cqKern 8 ∧
      (∀ j, j < 32 → cqeAt (page m' ring.cqKern) j =
        if j = head.toNat % 32 then e else cqeAt (page m ring.cqKern) j) ∧
      ∀ n, WordOffset n → page m' ring.sqKern n = page m ring.sqKern n := by
  have hread : m.read64 (ring.cqKern + hdrHead) = head := hhead
  have hpost : postCqe m ring.cqKern e =
      (writeCqe m (cqeAddr ring.cqKern head) e).write64 (ring.cqKern + hdrHead) (head + 1) := by
    unfold postCqe
    dsimp only
    rw [hroom, if_neg (by decide), hread]
  obtain ⟨hself, hother⟩ := page_writeCqe h.cq h.cq m head e
  obtain ⟨-, hsq⟩ := page_writeCqe h.cq h.sq m head e
  have hj' : head.toNat % 32 < 32 := Nat.mod_lt _ (by decide)
  rw [hpost]
  generalize writeCqe m (cqeAddr ring.cqKern head) e = m₁ at *
  generalize head.toNat % 32 = k at *
  have hzero : WordOffset 0 := ⟨by decide, by decide⟩
  have hstore : ∀ (b : UInt64), b.toNat % 4096 = 0 → ∀ n, WordOffset n →
      page (m₁.write64 (ring.cqKern + hdrHead) (head + 1)) b n =
        if b = ring.cqKern ∧ n = 0 then head + 1 else page m₁ b n :=
    fun b hb n hn => page_write h.cq hb hzero hn m₁
  clear hpost
  generalize m₁.write64 (ring.cqKern + hdrHead) (head + 1) = m' at *
  refine ⟨m', rfl, ?_, ?_, ?_, ?_⟩
  · rw [hstore _ h.cq 0 hzero, if_pos ⟨rfl, rfl⟩]
  · have height : WordOffset 8 := ⟨by decide, by decide⟩
    rw [hstore _ h.cq 8 height, if_neg (by rintro ⟨-, hc⟩; omega),
      hother 8 height (fun _ => .inl (by omega))]
  · intro j hj
    have hsame : cqeAt (page m' ring.cqKern) j = cqeAt (page m₁ ring.cqKern) j := by
      refine cqeAt_congr (fun n hn hlo _ => ?_) hj
      rw [hstore _ h.cq n hn, if_neg (by rintro ⟨-, hc⟩; omega)]
    rw [hsame]
    by_cases hjk : j = k
    · rw [if_pos hjk, hjk, hself]
    · rw [if_neg hjk]
      refine cqeAt_congr (fun n hn hlo hhi => hother n hn fun _ => ?_) hj
      obtain hlt | hgt := Nat.lt_or_gt_of_ne hjk
      · exact .inl (by omega)
      · exact .inr (by omega)
  · intro n hn
    rw [hstore _ h.sq n hn, if_neg (by rintro ⟨hc, -⟩; exact h.ne hc),
      hsq n hn (fun hc => absurd hc h.ne)]

end Steps

/-! ### The invariant -/

/-- The data of the submissions whose completion found room. -/
def kept (consumed : List (Sqe × Bool)) : List UInt64 :=
  (consumed.filter Prod.snd).map fun p => p.1.userData

theorem kept_append (consumed : List (Sqe × Bool)) (e : Sqe) (room : Bool) :
    kept (consumed ++ [(e, room)]) = if room then kept consumed ++ [e.userData] else kept consumed := by
  unfold kept
  cases room with
  | true => simp
  | false => simp

/-- The submissions of one drain, with `unread` completions in the queue before it: each finds room
while fewer than 32 are unread. -/
def complete : Nat → List Sqe → List (Sqe × Bool)
  | _, [] => []
  | unread, e :: es =>
    (e, decide (unread < 32)) :: complete (if unread < 32 then unread + 1 else unread) es

theorem length_complete (unread : Nat) (es : List Sqe) : (complete unread es).length = es.length := by
  induction es generalizing unread with
  | nil => rfl
  | cons e es ih => rw [complete, List.length_cons, List.length_cons, ih]

theorem kept_complete (unread : Nat) (es : List Sqe) :
    kept (complete unread es) = (es.take (32 - unread)).map Sqe.userData := by
  induction es generalizing unread with
  | nil => simp [complete, kept]
  | cons e es ih =>
    rw [complete]
    by_cases hroom : unread < 32
    · have hsub : 32 - unread = 32 - (unread + 1) + 1 := by omega
      have hcons : kept ((e, true) :: complete (unread + 1) es) =
          e.userData :: kept (complete (unread + 1) es) := rfl
      rw [if_pos hroom, decide_eq_true hroom, hcons, ih, hsub, List.take_succ_cons, List.map_cons]
    · have hcons : kept ((e, false) :: complete unread es) = kept (complete unread es) := rfl
      rw [if_neg hroom, decide_eq_false hroom, hcons, ih, Nat.sub_eq_zero_of_le (by omega)]
      rfl

/-- The pages hold the pending submissions and the unread completions. -/
structure Inv (ring : ProcessRing) (s : Session) : Prop where
  sqHead : page s.mem ring.sqKern 0 = UInt64.ofNat s.submitted.length
  sqTail : page s.mem ring.sqKern 8 = UInt64.ofNat s.consumed.length
  cqHead : page s.mem ring.cqKern 0 = UInt64.ofNat (kept s.consumed).length
  cqTail : page s.mem ring.cqKern 8 = UInt64.ofNat s.received.length
  consumed_lt : s.consumed.length < 2 ^ 64
  consumed_le : s.consumed.length ≤ s.submitted.length
  pending_le : s.submitted.length ≤ s.consumed.length + 32
  received_le : s.received.length ≤ (kept s.consumed).length
  unread_le : (kept s.consumed).length ≤ s.received.length + 32
  consumed_eq : s.consumed.map Prod.fst = s.submitted.take s.consumed.length
  received_eq : s.received.map Cqe.userData = (kept s.consumed).take s.received.length
  pending : ∀ i, s.consumed.length ≤ i → i < s.submitted.length →
    s.submitted[i]? = some (sqeAt (page s.mem ring.sqKern) (i % 32))
  unread : ∀ i, s.received.length ≤ i → i < (kept s.consumed).length →
    (kept s.consumed)[i]? = some (cqeAt (page s.mem ring.cqKern) (i % 32)).userData

theorem toNat_sub_counters {c n : Nat} (hle : c ≤ n) (hn : n ≤ c + 32) :
    (UInt64.ofNat n - UInt64.ofNat c).toNat = n - c := by
  rw [UInt64.toNat_sub, UInt64.toNat_ofNat', UInt64.toNat_ofNat']
  omega

theorem ofNat_succ (n : Nat) : UInt64.ofNat n + 1 = UInt64.ofNat (n + 1) := by
  rw [← UInt64.toNat_inj, UInt64.toNat_add, UInt64.toNat_ofNat', UInt64.toNat_ofNat',
    UInt64.toNat_one]
  omega

theorem place_ofNat (n : Nat) : (UInt64.ofNat n).toNat % 32 = n % 32 := by
  rw [UInt64.toNat_ofNat']
  omega

theorem Inv.completions {ring : ProcessRing} {s : Session} (h : Inv ring s) :
    (s.received ++ cqContents ring s.mem).map Cqe.userData = kept s.consumed := by
  have hhead : s.mem.read64 (ring.cqKern + hdrHead) = UInt64.ofNat (kept s.consumed).length := h.cqHead
  have htail : s.mem.read64 (ring.cqKern + hdrTail) = UInt64.ofNat s.received.length := h.cqTail
  have hcontents : (cqContents ring s.mem).map Cqe.userData =
      (kept s.consumed).drop s.received.length := by
    unfold cqContents
    dsimp only
    rw [hhead, htail, toNat_sub_counters h.received_le h.unread_le]
    apply List.ext_getElem?
    intro i
    rw [List.map_map, List.getElem?_map, List.getElem?_drop]
    by_cases hi : i < (kept s.consumed).length - s.received.length
    · rw [List.getElem?_range hi, Option.map_some,
        h.unread (s.received.length + i) (Nat.le_add_right _ _) (by omega)]
      rw [Function.comp_apply, readCqe_eq]
      have hplace : (UInt64.ofNat s.received.length + UInt64.ofNat i).toNat % 32 =
          (s.received.length + i) % 32 := by
        rw [UInt64.toNat_add, UInt64.toNat_ofNat', UInt64.toNat_ofNat']
        omega
      rw [hplace]
    · rw [List.getElem?_eq_none (by rw [List.length_range]; omega), Option.map_none,
        List.getElem?_eq_none (by omega)]
  rw [List.map_append, h.received_eq, hcontents, List.take_append_drop]

theorem Inv.length_cqContents {ring : ProcessRing} {s : Session} (h : Inv ring s) :
    (cqContents ring s.mem).length = (kept s.consumed).length - s.received.length := by
  have hlen := congrArg List.length h.completions
  rw [List.length_map, List.length_append] at hlen
  omega

/-! ### Steps of the process -/

section Process

variable {ring : ProcessRing} (hring : Pages ring)

include hring

theorem Inv.submit {s : Session} (h : Inv ring s) (e : Sqe) : Inv ring (submit ring s e) := by
  have hhead : s.mem.read64 (ring.sqKern + hdrHead) = UInt64.ofNat s.submitted.length := h.sqHead
  have htail : s.mem.read64 (ring.sqKern + hdrTail) = UInt64.ofNat s.consumed.length := h.sqTail
  unfold RingAbi.submit
  dsimp only
  rw [hhead, htail]
  by_cases hfree : UInt64.ofNat s.submitted.length - UInt64.ofNat s.consumed.length < ringCapacity
  · rw [if_pos hfree]
    rw [UInt64.lt_iff_toNat_lt, toNat_sub_counters h.consumed_le h.pending_le,
      show ringCapacity.toNat = 32 from rfl] at hfree
    have hle := h.consumed_le
    obtain ⟨m', heq, h0, h8, hentries, hcq⟩ := pages_submit hring s.mem
      (UInt64.ofNat s.submitted.length) e
    rw [heq]
    refine ⟨?_, ?_, ?_, ?_, h.consumed_lt, ?_, ?_, h.received_le, h.unread_le, ?_, h.received_eq, ?_, ?_⟩
    · rw [List.length_append, List.length_singleton, ← ofNat_succ]
      exact h0
    · exact h8.trans h.sqTail
    · exact (hcq 0 ⟨by decide, by decide⟩).trans h.cqHead
    · exact (hcq 8 ⟨by decide, by decide⟩).trans h.cqTail
    · rw [List.length_append]
      exact Nat.le_trans hle (Nat.le_add_right _ _)
    · rw [List.length_append, List.length_singleton]
      exact Nat.add_le_add_right (by omega : s.submitted.length ≤ s.consumed.length + 31) 1
    · rw [List.take_append_of_le_length hle]
      exact h.consumed_eq
    · intro i hlo hhi
      rw [List.length_append, List.length_singleton] at hhi
      rw [hentries (i % 32) (Nat.mod_lt _ (by decide)), place_ofNat]
      have hlo' : s.consumed.length ≤ i := hlo
      by_cases hi : i = s.submitted.length
      · rw [if_pos (by rw [hi]), hi, List.getElem?_append_right (Nat.le_refl _), Nat.sub_self]
        rfl
      · rw [if_neg (by omega), List.getElem?_append_left (by omega)]
        exact h.pending i hlo' (by omega)
    · intro i hlo hhi
      rw [cqeAt_congr (fun n hn _ _ => hcq n hn) (Nat.mod_lt _ (by decide))]
      exact h.unread i hlo hhi
  · rw [if_neg hfree]
    exact h

theorem Inv.consume {s : Session} (h : Inv ring s) : Inv ring (consume ring s) := by
  have hhead : s.mem.read64 (ring.cqKern + hdrHead) = UInt64.ofNat (kept s.consumed).length := h.cqHead
  have htail : s.mem.read64 (ring.cqKern + hdrTail) = UInt64.ofNat s.received.length := h.cqTail
  have hle := h.received_le
  have hbound := h.unread_le
  unfold RingAbi.consume
  dsimp only
  rw [hhead, htail]
  by_cases hempty : UInt64.ofNat s.received.length = UInt64.ofNat (kept s.consumed).length
  · rw [if_pos (beq_iff_eq.mpr hempty)]
    exact h
  · rw [if_neg (by simpa using hempty)]
    have hlt : s.received.length < (kept s.consumed).length := by
      refine Nat.lt_of_le_of_ne hle fun heq => hempty ?_
      rw [heq]
    have hread : (readCqe s.mem (cqeAddr ring.cqKern (UInt64.ofNat s.received.length))).userData =
        (cqeAt (page s.mem ring.cqKern) (s.received.length % 32)).userData := by
      rw [readCqe_eq, place_ofNat]
    generalize readCqe s.mem (cqeAddr ring.cqKern (UInt64.ofNat s.received.length)) = e at hread ⊢
    obtain ⟨m', heq, h8, hcq, hsq⟩ := pages_tail s.mem hring.cq hring.sq hring.ne.symm
      (UInt64.ofNat s.received.length + 1)
    rw [heq]
    have hzero : WordOffset 0 := ⟨by decide, by decide⟩
    refine ⟨?_, ?_, ?_, ?_, h.consumed_lt, h.consumed_le, h.pending_le, ?_, ?_, h.consumed_eq, ?_, ?_,
      ?_⟩
    · exact (hsq 0 hzero).trans h.sqHead
    · exact (hsq 8 ⟨by decide, by decide⟩).trans h.sqTail
    · exact (hcq 0 hzero (by decide)).trans h.cqHead
    · rw [List.length_append, List.length_singleton, ← ofNat_succ]
      exact h8
    · rw [List.length_append, List.length_singleton]
      exact hlt
    · rw [List.length_append, List.length_singleton]
      exact Nat.le_trans hbound (by omega)
    · rw [List.length_append, List.length_singleton, List.map_append, h.received_eq, List.take_add_one,
        h.unread _ (Nat.le_refl _) hlt, ← hread]
      rfl
    · intro i hlo hhi
      rw [sqeAt_congr (fun n hn _ _ => hsq n hn) (Nat.mod_lt _ (by decide))]
      exact h.pending i hlo hhi
    · intro i hlo hhi
      rw [List.length_append, List.length_singleton] at hlo
      rw [cqeAt_congr (fun n hn hn' _ => hcq n hn (by omega)) (Nat.mod_lt _ (by decide))]
      exact h.unread i (by omega) hhi

end Process

/-! ### A drain -/

/-- The handlers leave the two ring pages alone. -/
def KeepsPages (ring : ProcessRing) (ops : RingOps) : Prop :=
  ∀ (e : Sqe) (m : Mem) (n : Nat), WordOffset n →
    page (ops.handle e m).2 ring.sqKern n = page m ring.sqKern n ∧
      page (ops.handle e m).2 ring.cqKern n = page m ring.cqKern n

theorem dispatchSqe_mem (ops : RingOps) (cqKern entry : UInt64) (d : Drained) :
    (dispatchSqe ops cqKern entry d).mem =
      postCqe (ops.handle (readSqe d.mem entry) d.mem).2 cqKern
        ⟨(readSqe d.mem entry).userData, (ops.handle (readSqe d.mem entry) d.mem).1, 0⟩ := rfl

theorem dispatchSqe_sqes (ops : RingOps) (cqKern entry : UInt64) (d : Drained) :
    (dispatchSqe ops cqKern entry d).sqes =
      d.sqes ++ [(readSqe d.mem entry,
        !cqFull (ops.handle (readSqe d.mem entry) d.mem).2 cqKern)] := rfl

section Drain

variable {ring : ProcessRing} (hring : Pages ring) {ops : RingOps}

theorem Inv.congr {s : Session} (h : Inv ring s) {m : Mem}
    (hsq : ∀ n, WordOffset n → page m ring.sqKern n = page s.mem ring.sqKern n)
    (hcq : ∀ n, WordOffset n → page m ring.cqKern n = page s.mem ring.cqKern n) :
    Inv ring { s with mem := m } := by
  have hzero : WordOffset 0 := ⟨by decide, by decide⟩
  have height : WordOffset 8 := ⟨by decide, by decide⟩
  refine ⟨(hsq 0 hzero).trans h.sqHead, (hsq 8 height).trans h.sqTail, (hcq 0 hzero).trans h.cqHead,
    (hcq 8 height).trans h.cqTail, h.consumed_lt, h.consumed_le, h.pending_le, h.received_le,
    h.unread_le, h.consumed_eq, h.received_eq, ?_, ?_⟩
  · intro i hlo hhi
    rw [sqeAt_congr (fun n hn _ _ => hsq n hn) (Nat.mod_lt _ (by decide))]
    exact h.pending i hlo hhi
  · intro i hlo hhi
    rw [cqeAt_congr (fun n hn _ _ => hcq n hn) (Nat.mod_lt _ (by decide))]
    exact h.unread i hlo hhi

theorem Inv.cqFull_iff {s : Session} (h : Inv ring s) :
    cqFull s.mem ring.cqKern = true ↔ 32 ≤ (kept s.consumed).length - s.received.length := by
  have hhead : s.mem.read64 (ring.cqKern + hdrHead) = UInt64.ofNat (kept s.consumed).length := h.cqHead
  have htail : s.mem.read64 (ring.cqKern + hdrTail) = UInt64.ofNat s.received.length := h.cqTail
  unfold cqFull
  rw [hhead, htail, decide_eq_true_eq, ge_iff_le, UInt64.le_iff_toNat_le,
    toNat_sub_counters h.received_le h.unread_le, show ringCapacity.toNat = 32 from rfl]

include hring

/-- **A completion** is stored if there is room, and otherwise dropped. -/
theorem Inv.postCqe {s : Session} (h : Inv ring s) {e : Sqe}
    (he : s.submitted[s.consumed.length]? = some e) (hlt : s.consumed.length + 1 < 2 ^ 64)
    (result : UInt64) {room : Bool} (hroom : room = !cqFull s.mem ring.cqKern) :
    ∃ m', (postCqe s.mem ring.cqKern ⟨e.userData, result, 0⟩).write64 (ring.sqKern + hdrTail)
        (UInt64.ofNat s.consumed.length + 1) = m' ∧
      Inv ring { s with mem := m', consumed := s.consumed ++ [(e, room)] } := by
  have hzero : WordOffset 0 := ⟨by decide, by decide⟩
  have height : WordOffset 8 := ⟨by decide, by decide⟩
  obtain ⟨hpend, hget⟩ := List.getElem?_eq_some_iff.mp he
  -- what is left of the completion queue, whether or not the completion found room
  have hpost : ∃ m₁, RingAbi.postCqe s.mem ring.cqKern ⟨e.userData, result, 0⟩ = m₁ ∧
      (∀ n, WordOffset n → page m₁ ring.sqKern n = page s.mem ring.sqKern n) ∧
      page m₁ ring.cqKern 0 = UInt64.ofNat (kept (s.consumed ++ [(e, room)])).length ∧
      page m₁ ring.cqKern 8 = UInt64.ofNat s.received.length ∧
      (kept (s.consumed ++ [(e, room)])).length ≤ s.received.length + 32 ∧
      ∀ i, s.received.length ≤ i → i < (kept (s.consumed ++ [(e, room)])).length →
        (kept (s.consumed ++ [(e, room)]))[i]? =
          some (cqeAt (page m₁ ring.cqKern) (i % 32)).userData := by
    cases hfull : cqFull s.mem ring.cqKern with
    | true =>
      have hkept : kept (s.consumed ++ [(e, room)]) = kept s.consumed := by
        rw [hroom, hfull, kept_append]
        rfl
      rw [hkept]
      refine ⟨s.mem, ?_, fun n _ => rfl, h.cqHead, h.cqTail, h.unread_le, h.unread⟩
      unfold RingAbi.postCqe
      dsimp only
      rw [hfull, if_pos rfl]
    | false =>
      have hkept : kept (s.consumed ++ [(e, room)]) = kept s.consumed ++ [e.userData] := by
        rw [hroom, hfull, kept_append]
        rfl
      have hfree : ¬ 32 ≤ (kept s.consumed).length - s.received.length := by
        rw [← h.cqFull_iff, hfull]
        decide
      have hle := h.received_le
      obtain ⟨m₁, hm₁, h0, h8, hentries, hsq⟩ := pages_postCqe hring h.cqHead hfull
        ⟨e.userData, result, 0⟩
      rw [hkept, List.length_append, List.length_singleton, ← ofNat_succ]
      refine ⟨m₁, hm₁, hsq, h0, h8.trans h.cqTail, by omega, ?_⟩
      intro i hlo hhi
      rw [hentries (i % 32) (Nat.mod_lt _ (by decide)), place_ofNat]
      by_cases hi : i = (kept s.consumed).length
      · rw [if_pos (by rw [hi]), hi, List.getElem?_append_right (Nat.le_refl _), Nat.sub_self]
        rfl
      · rw [if_neg (by omega), List.getElem?_append_left (by omega)]
        exact h.unread i hlo (by omega)
  obtain ⟨m₁, hm₁, hsq₁, h0, h8, hbound, hunread⟩ := hpost
  obtain ⟨m', heq, h8', hsq', hcq'⟩ := pages_tail m₁ hring.sq hring.cq hring.ne
    (UInt64.ofNat s.consumed.length + 1)
  rw [hm₁, heq]
  have hlen : (s.consumed ++ [(e, room)]).length = s.consumed.length + 1 := by
    rw [List.length_append, List.length_singleton]
  have hgrow : ∃ more, kept (s.consumed ++ [(e, room)]) = kept s.consumed ++ more := by
    rw [kept_append]
    split
    · exact ⟨_, rfl⟩
    · exact ⟨[], (List.append_nil _).symm⟩
  obtain ⟨more, hmore⟩ := hgrow
  have hrec := h.received_le
  have hpending := h.pending_le
  refine ⟨m', rfl, ?_, ?_, ?_, ?_, ?_, ?_, ?_, ?_, hbound, ?_, ?_, ?_, ?_⟩
  · exact (hsq' 0 hzero (by decide)).trans ((hsq₁ 0 hzero).trans h.sqHead)
  · dsimp only
    rw [hlen, ← ofNat_succ]
    exact h8'
  · exact (hcq' 0 hzero).trans h0
  · exact (hcq' 8 height).trans h8
  · dsimp only
    rw [hlen]
    exact hlt
  · dsimp only
    rw [hlen]
    exact hpend
  · dsimp only
    rw [hlen]
    omega
  · dsimp only
    rw [hmore, List.length_append]
    omega
  · dsimp only
    rw [hlen, List.map_append, h.consumed_eq, List.take_add_one, he]
    rfl
  · dsimp only
    rw [hmore, List.take_append_of_le_length hrec]
    exact h.received_eq
  · intro i hlo hhi
    dsimp only at hlo hhi
    rw [hlen] at hlo
    dsimp only
    rw [sqeAt_congr (fun n hn hn' _ => (hsq' n hn (by omega)).trans (hsq₁ n hn))
      (Nat.mod_lt _ (by decide))]
    exact h.pending i (by omega) hhi
  · intro i hlo hhi
    dsimp only
    rw [cqeAt_congr (fun n hn _ _ => hcq' n hn) (Nat.mod_lt _ (by decide))]
    exact hunread i hlo hhi

/-- The submission at the tail is dispatched, its completion is posted or dropped, and the tail moves
past it. -/
theorem Inv.dispatchSqe (hkeep : KeepsPages ring ops) {d : Drained} {submitted : List Sqe}
    {consumed : List (Sqe × Bool)} {received : List Cqe}
    (h : Inv ring ⟨d.mem, submitted, consumed, received⟩) (hlt : consumed.length < submitted.length)
    (hbound : consumed.length + 1 < 2 ^ 64) :
    ∃ e room m', submitted[consumed.length]? = some e ∧
      room = decide ((kept consumed).length - received.length < 32) ∧
      (dispatchSqe ops ring.cqKern (sqeAddr ring.sqKern (UInt64.ofNat consumed.length)) d).sqes =
        d.sqes ++ [(e, room)] ∧
      (dispatchSqe ops ring.cqKern
        (sqeAddr ring.sqKern (UInt64.ofNat consumed.length)) d).mem.write64 (ring.sqKern + hdrTail)
          (UInt64.ofNat consumed.length + 1) = m' ∧
      Inv ring ⟨m', submitted, consumed ++ [(e, room)], received⟩ := by
  have hsqe : submitted[consumed.length]? =
      some (readSqe d.mem (sqeAddr ring.sqKern (UInt64.ofNat consumed.length))) := by
    rw [readSqe_eq, place_ofNat]
    exact h.pending _ (Nat.le_refl _) hlt
  have hsqes := dispatchSqe_sqes ops ring.cqKern
    (sqeAddr ring.sqKern (UInt64.ofNat consumed.length)) d
  have hmem := dispatchSqe_mem ops ring.cqKern (sqeAddr ring.sqKern (UInt64.ofNat consumed.length)) d
  generalize RingAbi.dispatchSqe ops ring.cqKern
    (sqeAddr ring.sqKern (UInt64.ofNat consumed.length)) d = d' at hsqes hmem ⊢
  generalize readSqe d.mem (sqeAddr ring.sqKern (UInt64.ofNat consumed.length)) = e
    at hsqes hmem hsqe
  -- the handler may change anything but the ring pages
  have hpages := hkeep e d.mem
  generalize ops.handle e d.mem = r at hsqes hmem hpages
  obtain ⟨result, m₁⟩ := r
  dsimp only at hsqes hmem hpages
  have h₁ : Inv ring ⟨m₁, submitted, consumed, received⟩ :=
    h.congr (fun n hn => (hpages n hn).1) (fun n hn => (hpages n hn).2)
  obtain ⟨room, hroom⟩ : ∃ room, room = !cqFull m₁ ring.cqKern := ⟨_, rfl⟩
  obtain ⟨m', heq, hinv⟩ := h₁.postCqe hring hsqe hbound result hroom
  rw [← hroom] at hsqes
  dsimp only at heq
  rw [← hmem] at heq
  refine ⟨e, room, m', hsqe, ?_, hsqes, heq, hinv⟩
  have hfull := h₁.cqFull_iff
  rw [hroom, Bool.eq_iff_iff, Bool.not_eq_true', Bool.eq_false_iff, Ne, hfull, decide_eq_true_eq]
  exact Nat.not_le

/-- **The loop of a drain** consumes every pending submission. -/
theorem Inv.drainLoop (hkeep : KeepsPages ring ops) {submitted : List Sqe}
    {before : List (Sqe × Bool)} {received : List Cqe} {head : UInt64}
    (hhead : head.toNat = submitted.length) {n : Nat} {d : Drained}
    (hn : n = submitted.length - (before ++ d.sqes).length)
    (h : Inv ring ⟨d.mem, submitted, before ++ d.sqes, received⟩) :
    ∃ d', drainLoop ring ops head n (UInt64.ofNat (before ++ d.sqes).length) d = d' ∧
      Inv ring ⟨d'.mem, submitted, before ++ d'.sqes, received⟩ ∧
      d'.sqes = d.sqes ++ complete ((kept (before ++ d.sqes)).length - received.length)
        (submitted.drop (before ++ d.sqes).length) := by
  induction n generalizing d with
  | zero =>
    refine ⟨d, rfl, h, ?_⟩
    rw [List.drop_eq_nil_of_le (by omega), complete, List.append_nil]
  | succ n ih =>
    have hmore : (before ++ d.sqes).length < submitted.length := by omega
    have hlast := head.toNat_lt
    have htail : UInt64.ofNat (before ++ d.sqes).length < head := by
      rw [UInt64.lt_iff_toNat_lt, UInt64.toNat_ofNat', Nat.mod_eq_of_lt h.consumed_lt, hhead]
      exact hmore
    obtain ⟨e, room, m', hsqe, hroom, hsqes, hmem, h'⟩ := h.dispatchSqe hring hkeep hmore (by omega)
    rw [RingAbi.drainLoop, if_pos htail]
    dsimp only
    rw [hmem, ofNat_succ]
    generalize RingAbi.dispatchSqe ops ring.cqKern
      (sqeAddr ring.sqKern (UInt64.ofNat (before ++ d.sqes).length)) d = d₁ at hsqes ⊢
    have happ : before ++ d₁.sqes = before ++ d.sqes ++ [(e, room)] := by
      rw [hsqes, List.append_assoc]
    have hlen : (before ++ d₁.sqes).length = (before ++ d.sqes).length + 1 := by
      rw [happ]
      exact List.length_append
    rw [← hlen]
    obtain ⟨d', heq, hinv, hall⟩ := ih (d := { d₁ with mem := m' }) (by dsimp only; omega)
      (by dsimp only; rw [happ]; exact h')
    refine ⟨d', heq, hinv, hall.trans ?_⟩
    -- the submission dispatched now is the first of the pending ones
    have hdrop : submitted.drop (before ++ d.sqes).length =
        e :: submitted.drop ((before ++ d.sqes).length + 1) := by
      obtain ⟨hi, hget⟩ := List.getElem?_eq_some_iff.mp hsqe
      rw [List.drop_eq_getElem_cons hi, hget]
    have hunread : (kept (before ++ d₁.sqes)).length - received.length =
        if (kept (before ++ d.sqes)).length - received.length < 32 then
          (kept (before ++ d.sqes)).length - received.length + 1
        else (kept (before ++ d.sqes)).length - received.length := by
      have hle := h.received_le
      dsimp only at hle
      rw [happ, kept_append, hroom]
      simp only [decide_eq_true_eq]
      split
      · rw [List.length_append, List.length_singleton]
        omega
      · rfl
    dsimp only
    rw [hunread, hlen, hdrop, complete, ← hroom, hsqes, List.append_assoc]
    rfl

/-- **A drain** consumes every pending submission.  When the counter of the submissions has wrapped
around and that of the consumed ones has not, it consumes nothing. -/
theorem Inv.drainSq (hkeep : KeepsPages ring ops) (hactive : ring.active = 1) {s : Session}
    (h : Inv ring s) :
    ∃ d, drainSq ring ops s.mem = d ∧
      Inv ring { s with mem := d.mem, consumed := s.consumed ++ d.sqes } ∧
      d.sqes = if s.submitted.length < 2 ^ 64 then
        complete ((kept s.consumed).length - s.received.length) (s.submitted.drop s.consumed.length)
      else [] := by
  have hhead : s.mem.read64 (ring.sqKern + hdrHead) = UInt64.ofNat s.submitted.length := h.sqHead
  have htail : s.mem.read64 (ring.sqKern + hdrTail) = UInt64.ofNat s.consumed.length := h.sqTail
  have hstart : Inv ring ⟨s.mem, s.submitted, s.consumed ++ [], s.received⟩ := by
    rw [List.append_nil]
    exact h
  have hlt := h.consumed_lt
  unfold RingAbi.drainSq
  rw [if_neg (by simp [hactive])]
  dsimp only
  rw [hhead, htail, UInt64.toNat_ofNat' (n := s.consumed.length), Nat.mod_eq_of_lt hlt]
  by_cases hwrap : s.submitted.length < 2 ^ 64
  · have hnat : (UInt64.ofNat s.submitted.length).toNat = s.submitted.length := by
      rw [UInt64.toNat_ofNat', Nat.mod_eq_of_lt hwrap]
    have hn : (UInt64.ofNat s.submitted.length).toNat - s.consumed.length =
        s.submitted.length - (s.consumed ++ []).length := by
      rw [hnat, List.append_nil]
    obtain ⟨d, heq, hinv, hall⟩ :=
      Inv.drainLoop hring hkeep (d := ⟨s.mem, [], [], []⟩) hnat hn hstart
    dsimp only at heq hall
    rw [List.append_nil] at heq hall
    rw [if_pos hwrap]
    exact ⟨d, heq, hinv, hall⟩
  · have hfuel : (UInt64.ofNat s.submitted.length).toNat - s.consumed.length = 0 := by
      have hpending := h.pending_le
      rw [UInt64.toNat_ofNat']
      omega
    rw [hfuel, if_neg hwrap]
    exact ⟨_, rfl, hstart, rfl⟩

end Drain

/-! ### Runs -/

theorem page_initHeader (m : Mem) {b c : UInt64} (hb : b.toNat % 4096 = 0) (hc : c.toNat % 4096 = 0)
    {n : Nat} (hn : n = 0 ∨ n = 8) :
    page (initHeader m b) c n = if c = b then 0 else page m c n := by
  have hword : WordOffset n := by
    unfold WordOffset
    omega
  have hstore : ∀ (m : Mem) (k : Nat) (v : UInt64), WordOffset k →
      page (m.write64 (b + UInt64.ofNat k) v) c n = if c = b ∧ n = k then v else page m c n :=
    fun m k v hk => page_write hb hc hk hword m
  have heq : initHeader m b = (((m.write64 (b + UInt64.ofNat 0) 0).write64 (b + UInt64.ofNat 8) 0).write64
      (b + UInt64.ofNat 16) ringCapacity).write64 (b + UInt64.ofNat 24) ringMask := rfl
  rw [heq, hstore _ 24 _ ⟨by decide, by decide⟩, hstore _ 16 _ ⟨by decide, by decide⟩,
    hstore _ 8 _ ⟨by decide, by decide⟩, hstore _ 0 _ ⟨by decide, by decide⟩]
  by_cases hsame : c = b
  · obtain rfl | rfl := hn
    · simp [hsame]
    · simp [hsame]
  · simp [hsame]

theorem Inv.init {ring : ProcessRing} (hring : Pages ring) (m : Mem) : Inv ring (Session.init ring m) := by
  have hcq : ∀ n, n = 0 ∨ n = 8 → page (initPages m ring.sqKern ring.cqKern) ring.cqKern n = 0 := by
    intro n hn
    unfold initPages
    rw [page_initHeader _ hring.cq hring.cq hn, if_pos rfl]
  have hsq : ∀ n, n = 0 ∨ n = 8 → page (initPages m ring.sqKern ring.cqKern) ring.sqKern n = 0 := by
    intro n hn
    unfold initPages
    rw [page_initHeader _ hring.cq hring.sq hn, if_neg hring.ne, page_initHeader _ hring.sq hring.sq hn,
      if_pos rfl]
  unfold Session.init
  generalize initPages m ring.sqKern ring.cqKern = m' at hcq hsq
  refine ⟨hsq 0 (.inl rfl), hsq 8 (.inr rfl), hcq 0 (.inl rfl), hcq 8 (.inr rfl), Nat.two_pow_pos 64,
    Nat.le_refl _, Nat.zero_le _, Nat.le_refl _, Nat.zero_le _, rfl, rfl, ?_, ?_⟩
  · intro i _ hi
    exact absurd hi (Nat.not_lt_zero i)
  · intro i _ hi
    exact absurd hi (Nat.not_lt_zero i)

theorem Inv.submits {ring : ProcessRing} (hring : Pages ring) {ops : RingOps} {s : Session}
    (h : Inv ring s) (es : List Sqe)
    (hfree : s.submitted.length + es.length ≤ s.consumed.length + 32) :
    ∃ m', runOps (exec ring ops) s (es.map Event.submit) =
        ⟨m', s.submitted ++ es, s.consumed, s.received⟩ ∧
      Inv ring ⟨m', s.submitted ++ es, s.consumed, s.received⟩ := by
  induction es generalizing s with
  | nil =>
    rw [List.append_nil]
    exact ⟨s.mem, rfl, h⟩
  | cons e es ih =>
    rw [List.length_cons] at hfree
    have hle := h.consumed_le
    have hstep : ∃ m₁, RingAbi.submit ring s e = ⟨m₁, s.submitted ++ [e], s.consumed, s.received⟩ := by
      have hhead : s.mem.read64 (ring.sqKern + hdrHead) = UInt64.ofNat s.submitted.length := h.sqHead
      have htail : s.mem.read64 (ring.sqKern + hdrTail) = UInt64.ofNat s.consumed.length := h.sqTail
      unfold RingAbi.submit
      dsimp only
      rw [hhead, htail, if_pos]
      · exact ⟨_, rfl⟩
      · rw [UInt64.lt_iff_toNat_lt, toNat_sub_counters hle h.pending_le,
          show ringCapacity.toNat = 32 from rfl]
        omega
    obtain ⟨m₁, heq₁⟩ := hstep
    have h₁ := h.submit hring e
    rw [heq₁] at h₁
    obtain ⟨m', heq, hinv⟩ := ih h₁ (by
      dsimp only
      rw [List.length_append, List.length_singleton]
      omega)
    rw [List.append_assoc, List.singleton_append] at heq hinv
    refine ⟨m', ?_, hinv⟩
    rw [List.map_cons, runOps_cons, ← heq, ← heq₁]
    rfl

section Runs

variable {ring : ProcessRing} (hring : Pages ring) (hactive : ring.active = 1) {ops : RingOps}
  (hkeep : KeepsPages ring ops)

include hring hactive hkeep

theorem Inv.drain {s : Session} (h : Inv ring s) :
    ∃ m', exec ring ops s .drain = ⟨m', s.submitted, s.consumed ++
        (if s.submitted.length < 2 ^ 64 then
          complete ((kept s.consumed).length - s.received.length) (s.submitted.drop s.consumed.length)
        else []), s.received⟩ ∧
      Inv ring (exec ring ops s .drain) := by
  obtain ⟨d, heq, hinv, hsqes⟩ := h.drainSq hring hkeep hactive
  unfold exec
  dsimp only
  rw [heq, ← hsqes]
  exact ⟨d.mem, rfl, hinv⟩

theorem Inv.exec {s : Session} (h : Inv ring s) (event : Event) : Inv ring (exec ring ops s event) := by
  cases event with
  | submit e => exact h.submit hring e
  | consume => exact h.consume hring
  | drain =>
    obtain ⟨m', -, hinv⟩ := h.drain hring hactive hkeep
    exact hinv

theorem Inv.run (m : Mem) (events : List Event) :
    Inv ring (runOps (RingAbi.exec ring ops) (Session.init ring m) events) := by
  have hrun : ∀ s, Inv ring s → Inv ring (runOps (RingAbi.exec ring ops) s events) := by
    induction events with
    | nil =>
      intro s hs
      exact hs
    | cons event events ih =>
      intro s hs
      exact ih _ (hs.exec hring hactive hkeep event)
  exact hrun _ (Inv.init hring m)

theorem Inv.round {s : Session} (h : Inv ring s) (es : List Sqe)
    (hdrained : s.submitted.length = s.consumed.length) (hes : es.length ≤ 32)
    (hlt : s.submitted.length + es.length < 2 ^ 64) :
    ∃ s', runOps (RingAbi.exec ring ops) s (es.map Event.submit ++ [.drain]) = s' ∧ Inv ring s' ∧
      s'.submitted = s.submitted ++ es ∧ s'.received = s.received ∧
      s'.consumed = s.consumed ++ complete ((kept s.consumed).length - s.received.length) es := by
  obtain ⟨m₁, heq₁, h₁⟩ := @Inv.submits ring hring ops s h es (by omega)
  obtain ⟨m₂, heq₂, h₂⟩ := h₁.drain hring hactive hkeep
  rw [runOps_append, heq₁, runOps_cons, runOps_nil]
  refine ⟨_, rfl, h₂, ?_, ?_, ?_⟩
  · rw [heq₂]
  · rw [heq₂]
  · rw [heq₂, ← hdrained]
    dsimp only
    rw [if_pos (by rw [List.length_append]; exact hlt), List.drop_left]

/-- **The completions of a ring.**  In every state, the completions that the process has read followed
by those in the queue are one for each consumed submission whose completion found room, with its data
and in the order of submission; and a drain gives room while fewer than 32 completions are unread. -/
theorem completions_eq (m : Mem) (events : List Event) :
    let s := runOps (RingAbi.exec ring ops) (Session.init ring m) events
    (s.received ++ cqContents ring s.mem).map Cqe.userData = kept s.consumed ∧
      s.consumed.map Prod.fst <+: s.submitted ∧
      s.mem.read64 (ring.sqKern + hdrTail) = UInt64.ofNat s.consumed.length ∧
      (RingAbi.exec ring ops s .drain).consumed = s.consumed ++
        if s.submitted.length < 2 ^ 64 then
          complete (cqContents ring s.mem).length (s.submitted.drop s.consumed.length)
        else [] := by
  have h := Inv.run hring hactive hkeep m events
  dsimp only
  generalize runOps (RingAbi.exec ring ops) (Session.init ring m) events = s at h ⊢
  refine ⟨h.completions, ?_, h.sqTail, ?_⟩
  · rw [h.consumed_eq]
    exact List.take_prefix _ _
  · obtain ⟨m', heq, -⟩ := h.drain hring hactive hkeep
    rw [heq, h.length_cqContents]

end Runs

/-- The law without the exception for a full queue: every consumed submission has one completion. -/
def CompletionLaw (ring : ProcessRing) (s : Session) : Prop :=
  (s.received ++ cqContents ring s.mem).map Cqe.userData = s.consumed.map fun p => p.1.userData

theorem RingOps.idle_keepsPages (ring : ProcessRing) : KeepsPages ring RingOps.idle := by
  intro e m n _
  have hmem : (RingOps.idle.handle e m).2 = m := by
    unfold RingOps.handle
    split_ifs <;> rfl
  rw [hmem]
  exact ⟨rfl, rfl⟩

theorem completions_eq_idle :
    let ring : ProcessRing := ⟨0x1000, 0x2000, 1⟩
    let s := runOps (exec ring RingOps.idle) (Session.init ring fun _ => 0)
      [.submit ⟨0, 0, 0, 0, 7⟩, .drain, .consume]
    (s.received ++ cqContents ring s.mem).map Cqe.userData = kept s.consumed :=
  (completions_eq ⟨by decide, by decide, by decide⟩ rfl (RingOps.idle_keepsPages _) _ _).1

/-- A process that submits 32 entries, then one more, and reads no completion loses one. -/
theorem lost_completion {ring : ProcessRing} (hring : Pages ring) (hactive : ring.active = 1)
    {ops : RingOps} (hkeep : KeepsPages ring ops) (m : Mem) (es : List Sqe) (hes : es.length = 32)
    (e : Sqe) :
    ¬ CompletionLaw ring (runOps (exec ring ops) (Session.init ring m)
      (es.map Event.submit ++ .drain :: ([e].map Event.submit ++ [.drain]))) := by
  have hkept : kept (complete 0 es) = es.map Sqe.userData := by
    rw [kept_complete, List.take_of_length_le (by omega)]
  -- the completions of the first 32 fill the queue
  obtain ⟨s₁, heq₁, h₁, hsub₁, hrec₁, hcon₁⟩ := (Inv.init hring m).round hring hactive hkeep
    es rfl (by omega) (by rw [hes]; exact (by decide : 0 + 32 < 2 ^ 64))
  have hsub : s₁.submitted = es := hsub₁
  have hcon : s₁.consumed = complete 0 es := hcon₁
  have hrec : s₁.received = [] := hrec₁
  -- so the last finds no room
  obtain ⟨s₂, heq₂, h₂, -, -, hcon₂⟩ := h₁.round hring hactive hkeep [e]
    (by rw [hsub, hcon, length_complete]) (by rw [List.length_singleton]; decide)
    (by rw [hsub, hes, List.length_singleton]; decide)
  have hlost : complete 32 [e] = [(e, false)] := rfl
  rw [hcon, hrec, hkept, List.length_map, hes, List.length_nil, Nat.sub_zero, hlost] at hcon₂
  intro hlaw
  rw [← List.singleton_append, ← List.append_assoc, runOps_append, heq₁, heq₂] at hlaw
  unfold CompletionLaw at hlaw
  rw [h₂.completions, hcon₂] at hlaw
  have hlen := congrArg List.length hlaw
  rw [kept_append, if_neg (by decide), hkept, List.length_map, List.length_map, List.length_append,
    length_complete, List.length_singleton] at hlen
  omega

theorem not_completionLaw :
    ¬ ∀ (ring : ProcessRing), Pages ring → ring.active = 1 → ∀ (ops : RingOps), KeepsPages ring ops →
      ∀ (m : Mem) (events : List Event),
        CompletionLaw ring (runOps (exec ring ops) (Session.init ring m) events) := by
  intro hall
  have hring : Pages ⟨0x1000, 0x2000, 1⟩ := ⟨by decide, by decide, by decide⟩
  have hkeep := RingOps.idle_keepsPages ⟨0x1000, 0x2000, 1⟩
  exact lost_completion hring rfl hkeep (fun _ => 0) (List.replicate 32 ⟨0, 0, 0, 0, 7⟩)
    List.length_replicate ⟨0, 0, 0, 0, 8⟩ (hall _ hring rfl _ hkeep _ _)

end Keuos.RingAbi
