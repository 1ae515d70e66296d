import Keuos.Lettuce.Resp
import Keuos.Lib.ByteString
import Keuos.Lib.Decimal

/-!
# The parser on a byte string

What `resp_parse` returns, in terms of the bytes of its view.  The first line of a value is its prefix, the
bytes up to the first `\r\n` and the `\r\n`; a number is what these bytes stand for when they are taken for
digits, reduced to 64 bits.

## Main results

* `findCrlf_spec`: the first `\r\n`.
* `parseIntFromView_spec`: the number of a line.
* `respParse_line`: the prefix decides what is parsed.
* `bulkString_whole`, `bulkString_short`, `bulkString_wrapped`: the three ways of a bulk string.
-/

namespace Keuos.Lettuce

/-! ### Lengths -/

theorem toInt_ofNat64 {n : Nat} (h : n < 2 ^ 63) : (Int64.ofNat n).toInt = n :=
  Int64.toInt_ofNat_of_lt h

theorem ofNat64_lt {a b : Nat} (ha : a < 2 ^ 63) (hb : b < 2 ^ 63) :
    Int64.ofNat a < Int64.ofNat b ↔ a < b := by
  rw [Int64.lt_iff_toInt_lt, toInt_ofNat64 ha, toInt_ofNat64 hb, Int.ofNat_lt]

theorem ofNat64_le {a b : Nat} (ha : a < 2 ^ 63) (hb : b < 2 ^ 63) :
    Int64.ofNat a ≤ Int64.ofNat b ↔ a ≤ b := by
  rw [Int64.le_iff_toInt_le, toInt_ofNat64 ha, toInt_ofNat64 hb, Int.ofNat_le]

theorem ofNat64_inj {a b : Nat} (ha : a < 2 ^ 63) (hb : b < 2 ^ 63) :
    Int64.ofNat a = Int64.ofNat b ↔ a = b := by
  rw [← Int64.toInt_inj, toInt_ofNat64 ha, toInt_ofNat64 hb, Int.natCast_inj]

theorem ofNat64_sub {a b : Nat} (h : a ≤ b) : Int64.ofNat b - Int64.ofNat a = Int64.ofNat (b - a) := by
  rw [Int64.sub_eq_iff_eq_add, ← Int64.ofNat_add, Nat.sub_add_cancel h]

theorem ofNat64_add_two (n : Nat) : Int64.ofNat n + 2 = Int64.ofNat (n + 2) :=
  (Int64.ofNat_add n 2).symm

theorem ofNat64_wrapped {n : Nat} (h : 2 ^ 63 ≤ n) (hn : n < 2 ^ 64) :
    (Int64.ofNat n).toInt = (n : Int) - 2 ^ 64 := by
  have hsub : Int64.ofNat n = Int64.ofInt ((n : Int) - 2 ^ 64) := by
    rw [Int64.ofInt_sub, Int64.ofInt_eq_ofNat]
    exact (Int64.sub_zero _).symm
  rw [hsub, Int64.toInt_ofInt_of_le (by omega) (by omega)]

theorem exists_ofNat64 {x : Int64} (h : ¬x < 0) : ∃ d < 2 ^ 63, x = Int64.ofNat d ∧ x.toNatClampNeg = d := by
  have hle : 0 ≤ x := Int64.not_lt.mp h
  exact ⟨x.toNatClampNeg, x.toNatClampNeg_lt, (Int64.ofNat_toNatClampNeg x hle).symm, rfl⟩

/-! ### Views of a byte string -/

/-- The view is one of the bytes. -/
structure Reads (m : Mem) (v : StringView) (bytes : List UInt8) : Prop where
  length : v.length = Int64.ofNat bytes.length
  lt : bytes.length < 2 ^ 63
  holds : Holds m v.ptr bytes

theorem exists_reads (m : Mem) {v : StringView} (h : 0 ≤ v.length) : ∃ bytes, Reads m v bytes := by
  refine ⟨(List.range v.length.toNatClampNeg).map fun i => m (v.ptr + UInt64.ofNat i), ?_, ?_, ?_⟩
  · rw [List.length_map, List.length_range, Int64.ofNat_toNatClampNeg v.length h]
  · rw [List.length_map, List.length_range]
    exact v.length.toNatClampNeg_lt
  · intro i hi
    rw [List.getElem_map, List.getElem_range]

theorem reads_store {bytes : List UInt8} (h : bytes.length < 2 ^ 63) (a : UInt64) (m : Mem) :
    Reads (Mem.store a bytes m) ⟨a, Int64.ofNat bytes.length⟩ bytes :=
  ⟨rfl, h, Mem.holds_store (by omega) a m⟩

section Views

variable {m : Mem} {v : StringView} {bytes : List UInt8}

theorem Reads.byteAt (h : Reads m v bytes) {i : Nat} (hi : i < bytes.length) :
    v.byteAt m (Int64.ofNat i) = .ok bytes[i] := by
  have hlt := h.lt
  have hzero : (0 : Int64) ≤ Int64.ofNat i := (ofNat64_le (by decide) (by omega)).mpr (Nat.zero_le i)
  unfold StringView.byteAt
  rw [if_pos ⟨hzero, by rw [h.length, ofNat64_lt (by omega) hlt]; exact hi⟩, Int64.toUInt64_ofNat',
    h.holds i hi]

/-- **A slice** is a view of the bytes between. -/
theorem Reads.slice (h : Reads m v bytes) {a b : Nat} (hab : a ≤ b) (hb : b ≤ bytes.length) :
    v.slice (Int64.ofNat a) (Int64.ofNat b) = .ok ⟨v.ptr + UInt64.ofNat a, Int64.ofNat (b - a)⟩ ∧
      Reads m ⟨v.ptr + UInt64.ofNat a, Int64.ofNat (b - a)⟩ ((bytes.take b).drop a) := by
  have hlt := h.lt
  have hlen : ((bytes.take b).drop a).length = b - a := by
    rw [List.length_drop, List.length_take_of_le hb]
  constructor
  · have hzero : (0 : Int64) ≤ Int64.ofNat a := (ofNat64_le (by decide) (by omega)).mpr (Nat.zero_le a)
    unfold StringView.slice
    rw [h.length, if_pos ⟨hzero, (ofNat64_le (by omega) (by omega)).mpr hab,
      (ofNat64_le (by omega) hlt).mpr hb⟩, Int64.toUInt64_ofNat', ofNat64_sub hab]
  · refine ⟨by rw [hlen], by rw [hlen]; omega, ?_⟩
    exact (h.holds.take b).drop (by rw [List.length_take_of_le hb]; exact hab)

theorem slice_fault {a b : Int64} (hab : a.toInt < 0 ∨ b.toInt < a.toInt) : v.slice a b = .error .bounds := by
  unfold StringView.slice
  rw [if_neg]
  rintro ⟨hzero, hle, -⟩
  rw [Int64.le_iff_toInt_le] at hzero hle
  rw [Int64.toInt_zero] at hzero
  omega

theorem Reads.rest {pre rest : List UInt8} (h : Reads m v (pre ++ rest)) :
    ∃ w, v.slice (Int64.ofNat pre.length) v.length = .ok w ∧ Reads m w rest := by
  obtain ⟨hslice, hreads⟩ := h.slice (a := pre.length) (b := (pre ++ rest).length) (by simp) (Nat.le_refl _)
  rw [← h.length] at hslice
  rw [List.take_length, List.drop_left] at hreads
  exact ⟨_, hslice, hreads⟩

end Views

/-! ### Lines -/

/-- The bytes have no `\r\n`. -/
def NoCrlf (l : List UInt8) : Prop := ¬[13, 10] <:+: l

theorem noCrlf_nil : NoCrlf [] := by
  intro h
  have := h.length_le
  simp at this

theorem NoCrlf.tail {b : UInt8} {l : List UInt8} (h : NoCrlf (b :: l)) : NoCrlf l :=
  fun hin => h (hin.trans (List.suffix_cons b l).isInfix)

theorem line_unique {line line' rest rest' : List UInt8} (h : NoCrlf line) (h' : NoCrlf line')
    (heq : line ++ 13 :: 10 :: rest = line' ++ 13 :: 10 :: rest') : line = line' ∧ rest = rest' := by
  have hprefix : ∀ {l l' r r' c : List UInt8}, NoCrlf l' → l' = l ++ c →
      13 :: 10 :: r = c ++ 13 :: 10 :: r' → c = [] := by
    intro l l' r r' c hno hl' hc
    cases c with
    | nil => rfl
    | cons x c =>
      rw [List.cons_append, List.cons.injEq] at hc
      cases c with
      | nil =>
        rw [List.nil_append, List.cons.injEq] at hc
        exact absurd hc.2.1 (by decide)
      | cons y c =>
        rw [List.cons_append, List.cons.injEq] at hc
        refine absurd ?_ hno
        rw [hl', ← hc.1, ← hc.2.1]
        exact ⟨l, c, by simp⟩
  rcases List.append_eq_append_iff.mp heq with ⟨c, hl, hr⟩ | ⟨c, hl, hr⟩
  · have hc := hprefix h' hl hr
    rw [hc, List.append_nil] at hl
    rw [hc, List.nil_append, List.cons.injEq, List.cons.injEq] at hr
    exact ⟨hl.symm, hr.2.2⟩
  · have hc := hprefix h hl hr
    rw [hc, List.append_nil] at hl
    rw [hc, List.nil_append, List.cons.injEq, List.cons.injEq] at hr
    exact ⟨hl, hr.2.2.symm⟩

theorem exists_line (t : List UInt8) :
    NoCrlf t ∨ ∃ line rest, t = line ++ 13 :: 10 :: rest ∧ NoCrlf line := by
  induction t with
  | nil => exact .inl noCrlf_nil
  | cons x t ih =>
    by_cases hhere : ∃ rest, x :: t = 13 :: 10 :: rest
    · obtain ⟨rest, heq⟩ := hhere
      exact .inr ⟨[], rest, heq, noCrlf_nil⟩
    · -- `\r\n` is not in front, so it is in the tail or nowhere.
      have hcons : ∀ l, l <+: t → NoCrlf l → NoCrlf (x :: l) := by
        intro l hpre hl hin
        rcases List.infix_cons_iff.mp hin with hfirst | hlater
        · obtain ⟨c, hc⟩ := hfirst
          obtain ⟨r, hr⟩ := hpre
          refine hhere ⟨c ++ r, ?_⟩
          rw [← hr, ← List.cons_append, ← hc]
          rfl
        · exact hl hlater
      rcases ih with hno | ⟨line, rest, heq, hno⟩
      · exact .inl (hcons t (List.prefix_refl t) hno)
      · exact .inr ⟨x :: line, rest, by rw [heq, List.cons_append],
          hcons line ⟨13 :: 10 :: rest, heq.symm⟩ hno⟩

section Lines

variable {m : Mem} {v : StringView}

/-- **The first `\r\n`**, from the end of `pre` on. -/
theorem findCrlf_spec {t : List UInt8} : ∀ {pre : List UInt8} {n : Nat}, Reads m v (pre ++ t) → t.length < n →
    (∀ line rest, t = line ++ 13 :: 10 :: rest → NoCrlf line →
      findCrlf m v n (Int64.ofNat pre.length) = .ok (Int64.ofNat (pre.length + line.length))) ∧
    (NoCrlf t → findCrlf m v n (Int64.ofNat pre.length) = .ok (-1)) := by
  induction t with
  | nil =>
    intro pre n h hn
    obtain ⟨n, rfl⟩ : ∃ k, n = k + 1 := ⟨n - 1, by simp at hn; omega⟩
    have hlt := h.lt
    refine ⟨fun line rest heq _ => absurd heq (by simp), fun _ => ?_⟩
    unfold findCrlf
    rw [if_neg]
    · rfl
    · rw [h.length, List.append_nil, Int64.lt_iff_toInt_lt]
      rw [List.append_nil] at hlt
      by_cases hzero : pre.length = 0
      · rw [hzero]
        decide
      · rw [show (1 : Int64) = Int64.ofNat 1 from rfl, ofNat64_sub (Nat.pos_of_ne_zero hzero),
          toInt_ofNat64 hlt, toInt_ofNat64 (by omega)]
        omega
  | cons x t ih =>
    intro pre n h hn
    obtain ⟨n, rfl⟩ : ∃ k, n = k + 1 := ⟨n - 1, by simp at hn; omega⟩
    have hlt := h.lt
    have hlen : (pre ++ x :: t).length = pre.length + (t.length + 1) := by simp
    rw [hlen] at hlt
    -- The last byte is not looked at: a `\r` there cannot begin a line end.
    have hcond : Int64.ofNat pre.length < v.length - 1 ↔ t ≠ [] := by
      rw [h.length, hlen, show (1 : Int64) = Int64.ofNat 1 from rfl, ofNat64_sub (by omega),
        ofNat64_lt (by omega) (by omega), ← List.length_pos_iff]
      omega
    have hnext : Int64.ofNat pre.length + 1 = Int64.ofNat (pre ++ [x]).length := by
      rw [List.length_append, List.length_singleton, Int64.ofNat_add]
      rfl
    cases t with
    | nil =>
      refine ⟨fun line rest heq _ => ?_, fun _ => ?_⟩
      · have := congrArg List.length heq
        simp at this
        omega
      · unfold findCrlf
        rw [if_neg (by rw [hcond]; simp)]
        rfl
    | cons y t =>
      -- With two bytes or more, one turn looks at both and goes on by one.
      have hstep : findCrlf m v (n + 1) (Int64.ofNat pre.length) =
          if x == 13 && y == 10 then .ok (Int64.ofNat pre.length)
          else findCrlf m v n (Int64.ofNat (pre ++ [x]).length) := by
        conv_lhs => unfold findCrlf
        rw [if_pos (hcond.mpr (List.cons_ne_nil y t)), h.byteAt (by simp), hnext, h.byteAt (by simp)]
        simp only [List.length_append, List.length_singleton, List.getElem_append_right (Nat.le_refl _),
          List.getElem_append_right (Nat.le_add_right _ 1), Nat.sub_self, Nat.add_sub_cancel_left,
          List.getElem_cons_zero, List.getElem_cons_succ]
        rfl
      have ih := @ih (pre ++ [x]) n (by rwa [List.append_assoc]) (Nat.lt_of_succ_lt_succ hn)
      rw [hstep]
      by_cases hhere : x = 13 ∧ y = 10
      · rw [if_pos (by rw [hhere.1, hhere.2]; rfl)]
        refine ⟨fun line rest heq hno => ?_, fun hno => ?_⟩
        · rw [hhere.1, hhere.2] at heq
          obtain ⟨rfl, -⟩ := @line_unique [] line t rest noCrlf_nil hno heq
          rfl
        · exact absurd ⟨[], t, by rw [hhere.1, hhere.2]; rfl⟩ hno
      · rw [if_neg (by simpa using hhere)]
        refine ⟨fun line rest heq hno => ?_, fun hno => ih.2 hno.tail⟩
        cases line with
        | nil =>
          rw [List.nil_append, List.cons.injEq, List.cons.injEq] at heq
          exact absurd ⟨heq.1, heq.2.1⟩ hhere
        | cons z line =>
          rw [List.cons_append, List.cons.injEq] at heq
          rw [ih.1 line rest heq.2 hno.tail, List.length_append, List.length_singleton, List.length_cons,
            Nat.add_assoc, Nat.add_comm 1]

/-! ### Numbers -/

theorem digit_eq (b : UInt8) : b.toUInt64.toInt64 - 48 = Int64.ofInt ((b.toNat : Int) - 48) := by
  rw [Int64.ofInt_sub, Int64.ofInt_eq_ofNat, ← UInt64.toInt64_ofNat', UInt64.ofNat_uInt8ToNat]
  rfl

theorem parseDigits_spec {post ds : List UInt8} : ∀ {pre : List UInt8} {n : Nat} (r : Int),
    Reads m v (pre ++ (ds ++ post)) → ds.length < n →
    parseDigits m v (Int64.ofNat (pre.length + ds.length)) n (Int64.ofNat pre.length) (Int64.ofInt r) =
      .ok (Int64.ofInt (valueFrom r ds)) := by
  induction ds with
  | nil =>
    intro pre n r h hn
    obtain ⟨n, rfl⟩ : ∃ k, n = k + 1 := ⟨n - 1, by simp at hn; omega⟩
    unfold parseDigits
    rw [if_neg (by simp)]
    rfl
  | cons b ds ih =>
    intro pre n r h hn
    obtain ⟨n, rfl⟩ : ∃ k, n = k + 1 := ⟨n - 1, by simp at hn; omega⟩
    have hlt := h.lt
    have hlen : (pre ++ (b :: ds ++ post)).length = pre.length + (ds.length + 1 + post.length) := by
      simp only [List.length_append, List.length_cons]
    rw [hlen] at hlt
    have hnext : Int64.ofNat pre.length + 1 = Int64.ofNat (pre ++ [b]).length := by
      rw [List.length_append, List.length_singleton, Int64.ofNat_add]
      rfl
    have hvalue : Int64.ofInt r * 10 + Int64.ofInt ((b.toNat : Int) - 48) =
        Int64.ofInt (r * 10 + ((b.toNat : Int) - 48)) := by
      rw [Int64.ofInt_add, Int64.ofInt_mul]
      rfl
    have hstop : pre.length + (b :: ds).length = (pre ++ [b]).length + ds.length := by
      simp only [List.length_cons, List.length_append, List.length_nil]
      omega
    unfold parseDigits
    rw [if_pos (by rw [ofNat64_lt (by omega) (by simp; omega)]; simp), h.byteAt (by simp)]
    show parseDigits m v _ n (Int64.ofNat pre.length + 1) (Int64.ofInt r * 10 + (_ - 48)) = _
    rw [digit_eq, List.getElem_append_right (Nat.le_refl _)]
    simp only [Nat.sub_self, List.cons_append, List.getElem_cons_zero]
    rw [hvalue, hnext, hstop, valueFrom_cons]
    exact ih _ (by rwa [List.append_assoc]) (Nat.lt_of_succ_lt_succ hn)

/-- The number of a line. -/
def declared (line : List UInt8) : Int64 := Int64.ofInt (number line)

/-- **The number of a line.** -/
theorem parseIntFromView_spec {b : UInt8} {line post : List UInt8} (h : Reads m v (b :: (line ++ post))) :
    parseIntFromView m v 1 (Int64.ofNat (line.length + 1)) = .ok (declared line) := by
  have hlt := h.lt
  have hlen : (b :: (line ++ post)).length = line.length + post.length + 1 := by simp
  rw [hlen] at hlt
  have hrounds : v.length.toNatClampNeg = line.length + post.length + 1 := by
    rw [h.length, hlen, Int64.toNatClampNeg_ofNat_of_lt hlt]
  have hone : (1 : Int64) = Int64.ofNat 1 := rfl
  have hcond : Int64.ofNat 1 < Int64.ofNat (line.length + 1) ↔ 0 < line.length := by
    rw [ofNat64_lt (by decide) (by omega)]
    omega
  unfold parseIntFromView
  rw [hrounds, hone]
  cases line with
  | nil =>
    have hdigits := @parseDigits_spec m v post [] [b] (post.length + 1 + 1) 0 h (by simp)
    rw [if_neg (by rw [hcond]; simp)]
    simp only [List.length_nil, Nat.zero_add] at hdigits ⊢
    simp only [pure_bind, Bool.false_eq_true, if_false, bind_pure]
    exact hdigits
  | cons c line =>
    rw [if_pos (by rw [hcond]; simp), h.byteAt (by simp)]
    by_cases hsign : c = 45
    · have hdigits := @parseDigits_spec m v post line [b, c] ((c :: line).length + post.length + 1 + 1) 0 h
        (by simp; omega)
      have hstop : [b, c].length + line.length = (c :: line).length + 1 := by
        simp only [List.length_cons, List.length_nil]
        omega
      rw [hstop] at hdigits
      have hneg : (c == 45) = true := beq_iff_eq.mpr hsign
      show (parseDigits m v _ _
          (if (c == 45) = true then Int64.ofNat 1 + Int64.ofNat 1 else Int64.ofNat 1) 0).bind
        (fun result => .ok (if (c == 45) = true then 0 - result else result)) = _
      rw [hneg, if_pos rfl, ← Int64.ofNat_add]
      refine (congrArg (Except.bind · _) hdigits).trans ?_
      show Except.ok (0 - Int64.ofInt (valueFrom 0 line)) = _
      unfold declared number
      rw [List.head?_cons, if_pos (by rw [hsign]), List.tail_cons, Int64.ofInt_neg, Int64.zero_sub]
    · have hdigits := @parseDigits_spec m v post (c :: line) [b]
        ((c :: line).length + post.length + 1 + 1) 0 h
        (by simp; omega)
      have hneg : (c == 45) = false := beq_eq_false_iff_ne.mpr hsign
      rw [List.length_singleton, Nat.add_comm 1] at hdigits
      show (parseDigits m v _ _
          (if (c == 45) = true then Int64.ofNat 1 + Int64.ofNat 1 else Int64.ofNat 1) 0).bind
        (fun result => .ok (if (c == 45) = true then 0 - result else result)) = _
      rw [hneg, if_neg Bool.false_ne_true]
      refine (congrArg (Except.bind · _) hdigits).trans ?_
      show Except.ok (Int64.ofInt (valueFrom 0 (c :: line))) = _
      unfold declared number
      rw [List.head?_cons, if_neg (by rw [Option.some.injEq]; exact hsign)]

/-! ### The first line of a value -/

theorem respParse_nil (h : Reads m v []) (depth : Nat) : respParse m (depth + 1) v = .ok respNil := by
  have hlen : v.length = 0 := h.length
  unfold respParse
  dsimp only
  rw [hlen]
  rfl

theorem length_ne_zero {b : UInt8} {t : List UInt8} (h : Reads m v (b :: t)) : (v.length == 0) = false := by
  rw [beq_eq_false_iff_ne, h.length, show (0 : Int64) = Int64.ofNat 0 from rfl, Ne,
    ofNat64_inj h.lt (by decide)]
  exact Nat.succ_ne_zero _

theorem rounds_eq {bytes : List UInt8} (h : Reads m v bytes) : v.length.toNatClampNeg = bytes.length := by
  rw [h.length, Int64.toNatClampNeg_ofNat_of_lt h.lt]

theorem respParse_noLine {b : UInt8} {t : List UInt8} (h : Reads m v (b :: t)) (hno : NoCrlf t)
    (depth : Nat) :
    respParse m (depth + 1) v = .ok respNil := by
  have hfind := (@findCrlf_spec m v t [b] (v.length.toNatClampNeg + 1) h (by
    rw [rounds_eq h, List.length_cons]
    omega)).2 hno
  have hbyte : v.byteAt m 0 = .ok b := h.byteAt (i := 0) (Nat.succ_pos _)
  unfold respParse
  dsimp only
  rw [length_ne_zero h, if_neg Bool.false_ne_true, hbyte]
  show (findCrlf m v _ 1).bind _ = _
  exact congrArg (Except.bind · _) hfind

/-- **The prefix decides** what is parsed. -/
theorem respParse_line {b : UInt8} {line rest : List UInt8} (h : Reads m v (b :: (line ++ 13 :: 10 :: rest)))
    (hno : NoCrlf line) (depth : Nat) :
    respParse m (depth + 1) v =
      if b == 43 then parseRespSimpleString v (Int64.ofNat (line.length + 1))
      else if b == 45 then parseRespError v (Int64.ofNat (line.length + 1))
      else if b == 58 then parseRespInteger m v (Int64.ofNat (line.length + 1))
      else if b == 36 then parseRespBulkString m v (Int64.ofNat (line.length + 1)) v.length
      else if b == 42 then parseRespArray m (respParse m depth) v (Int64.ofNat (line.length + 1)) v.length
      else .ok respNil := by
  have hlt := h.lt
  simp only [List.length_cons, List.length_append] at hlt
  have hfind := (@findCrlf_spec m v (line ++ 13 :: 10 :: rest) [b] (v.length.toNatClampNeg + 1) h (by
    rw [rounds_eq h, List.length_cons]
    omega)).1 line rest rfl hno
  have hbyte : v.byteAt m 0 = .ok b := h.byteAt (i := 0) (Nat.succ_pos _)
  have hpos : ¬Int64.ofNat (line.length + 1) < 0 := by
    rw [show (0 : Int64) = Int64.ofNat 0 from rfl, ofNat64_lt (by omega) (by decide)]
    exact Nat.not_lt_zero _
  rw [List.length_singleton, Nat.add_comm 1] at hfind
  conv_lhs => unfold respParse
  dsimp only
  rw [length_ne_zero h, if_neg Bool.false_ne_true, hbyte]
  show (findCrlf m v _ (Int64.ofNat 1)).bind _ = _
  rw [hfind]
  show (if Int64.ofNat (line.length + 1) < 0 then _ else _) = _
  rw [if_neg hpos]
  rfl

section Kinds

variable {b : UInt8} {line rest : List UInt8} (h : Reads m v (b :: (line ++ 13 :: 10 :: rest)))

include h

theorem length_line : line.length + 3 + rest.length < 2 ^ 63 := by
  have hlt := h.lt
  simp only [List.length_cons, List.length_append] at hlt
  omega

theorem slice_text : v.slice 1 (Int64.ofNat (line.length + 1)) =
    .ok ⟨v.ptr + 1, Int64.ofNat line.length⟩ :=
  (h.slice (a := 1) (b := line.length + 1) (by omega) (by simp)).1

theorem parseRespText_eq (typeTag : Int64) : parseRespText typeTag v (Int64.ofNat (line.length + 1)) =
    .ok ⟨typeTag, 0, v.ptr + 1, Int64.ofNat line.length, 0, Int64.ofNat (line.length + 3)⟩ := by
  unfold parseRespText
  rw [slice_text h]
  show Except.ok (RespValue.mk typeTag 0 _ _ 0 (Int64.ofNat (line.length + 1) + 2)) = _
  rw [ofNat64_add_two]

theorem parseRespInteger_eq : parseRespInteger m v (Int64.ofNat (line.length + 1)) =
    .ok ⟨respInteger, declared line, 0, 0, 0, Int64.ofNat (line.length + 3)⟩ := by
  unfold parseRespInteger
  rw [parseIntFromView_spec h]
  show Except.ok (RespValue.mk respInteger _ 0 0 0 (Int64.ofNat (line.length + 1) + 2)) = _
  rw [ofNat64_add_two]

theorem bulkString_null (hneg : declared line < 0) :
    parseRespBulkString m v (Int64.ofNat (line.length + 1)) v.length =
      .ok ⟨respNull, 0, 0, 0, 0, Int64.ofNat (line.length + 3)⟩ := by
  unfold parseRespBulkString
  rw [parseIntFromView_spec h]
  show (if declared line < 0 then Except.ok (RespValue.mk respNull 0 0 0 0
    (Int64.ofNat (line.length + 1) + 2)) else _) = _
  rw [if_pos hneg, ofNat64_add_two]

theorem bulkString_eq {d : Nat} (hd : declared line = Int64.ofNat d) (hlt : d < 2 ^ 63) :
    parseRespBulkString m v (Int64.ofNat (line.length + 1)) v.length =
      if Int64.ofNat (line.length + 3 + d) > v.length then .ok respNil
      else (v.slice (Int64.ofNat (line.length + 3)) (Int64.ofNat (line.length + 3 + d))).map fun sv =>
        ⟨respBulkString, 0, sv.ptr, sv.length, 0, Int64.ofNat (line.length + 3 + d + 2)⟩ := by
  have hpos : ¬declared line < 0 := by
    rw [hd, show (0 : Int64) = Int64.ofNat 0 from rfl, ofNat64_lt hlt (by decide)]
    exact Nat.not_lt_zero _
  unfold parseRespBulkString
  rw [parseIntFromView_spec h]
  show (if declared line < 0 then _ else _) = _
  rw [if_neg hpos, hd]
  simp only [ofNat64_add_two, ← Int64.ofNat_add]
  split
  · rfl
  · cases v.slice (Int64.ofNat (line.length + 1 + 2)) (Int64.ofNat (line.length + 1 + 2 + d)) with
    | error e => rfl
    | ok sv => rfl

/-- **The string is there.** -/
theorem bulkString_whole {d : Nat} (hd : declared line = Int64.ofNat d) (hfit : d ≤ rest.length) :
    parseRespBulkString m v (Int64.ofNat (line.length + 1)) v.length =
      .ok ⟨respBulkString, 0, v.ptr + UInt64.ofNat (line.length + 3), Int64.ofNat d, 0,
        Int64.ofNat (line.length + 3 + d + 2)⟩ := by
  have hlen := length_line h
  have hbytes : (b :: (line ++ 13 :: 10 :: rest)).length = line.length + 3 + rest.length := by
    simp only [List.length_cons, List.length_append]
    omega
  rw [bulkString_eq h hd (by omega), h.length, hbytes, if_neg,
    (h.slice (a := line.length + 3) (b := line.length + 3 + d) (by omega) (by rw [hbytes]; omega)).1,
    Nat.add_sub_cancel_left]
  · rfl
  · rw [gt_iff_lt, ofNat64_lt (by omega) (by omega)]
    omega

/-- **The string is not there yet.** -/
theorem bulkString_short {d : Nat} (hd : declared line = Int64.ofNat d) (hshort : rest.length < d)
    (hsum : line.length + 3 + d < 2 ^ 63) :
    parseRespBulkString m v (Int64.ofNat (line.length + 1)) v.length = .ok respNil := by
  have hlen := length_line h
  have hbytes : (b :: (line ++ 13 :: 10 :: rest)).length = line.length + 3 + rest.length := by
    simp only [List.length_cons, List.length_append]
    omega
  rw [bulkString_eq h hd (by omega), h.length, hbytes, if_pos]
  rw [gt_iff_lt, ofNat64_lt (by omega) (by omega)]
  omega

/-- **The end of the string wraps around.** -/
theorem bulkString_wrapped {d : Nat} (hd : declared line = Int64.ofNat d) (hlt : d < 2 ^ 63)
    (hsum : 2 ^ 63 ≤ line.length + 3 + d) :
    parseRespBulkString m v (Int64.ofNat (line.length + 1)) v.length = .error .bounds := by
  have hlen := length_line h
  have hend := ofNat64_wrapped hsum (by omega)
  rw [bulkString_eq h hd hlt, if_neg, slice_fault]
  · rfl
  · rw [hend, toInt_ofNat64 (by omega)]
    omega
  · rw [gt_iff_lt, Int64.lt_iff_toInt_lt, hend, h.length, toInt_ofNat64 h.lt]
    omega

theorem array_null (respParse : StringView → Except Fault RespValue) (hneg : declared line < 0) :
    parseRespArray m respParse v (Int64.ofNat (line.length + 1)) v.length =
      .ok ⟨respNull, 0, 0, 0, 0, Int64.ofNat (line.length + 3)⟩ := by
  unfold parseRespArray
  rw [parseIntFromView_spec h]
  show (if declared line < 0 then Except.ok (RespValue.mk respNull 0 0 0 0
    (Int64.ofNat (line.length + 1) + 2)) else _) = _
  rw [if_pos hneg, ofNat64_add_two]

theorem array_eq (respParse : StringView → Except Fault RespValue) {d : Nat}
    (hd : declared line = Int64.ofNat d) (hlt : d < 2 ^ 63) :
    parseRespArray m respParse v (Int64.ofNat (line.length + 1)) v.length =
      (parseElems respParse v v.length d (Int64.ofNat (line.length + 3))).bind fun offset =>
        if offset > v.length then .ok respNil
        else (v.slice (Int64.ofNat (line.length + 3)) offset).map fun sv =>
          ⟨respArray, 0, sv.ptr, offset - Int64.ofNat (line.length + 3), Int64.ofNat d, offset⟩ := by
  have hpos : ¬declared line < 0 := by
    rw [hd, show (0 : Int64) = Int64.ofNat 0 from rfl, ofNat64_lt hlt (by decide)]
    exact Nat.not_lt_zero _
  have hcount : (declared line).toNatClampNeg = d := by
    rw [hd, Int64.toNatClampNeg_ofNat_of_lt hlt]
  unfold parseRespArray
  rw [parseIntFromView_spec h]
  show (if declared line < 0 then _ else _) = _
  rw [if_neg hpos, hcount, hd]
  simp only [ofNat64_add_two]
  refine congrArg (Except.bind _) (funext fun offset => ?_)
  split
  · rfl
  · cases v.slice (Int64.ofNat (line.length + 1 + 2)) offset with
    | error e => rfl
    | ok sv => rfl

end Kinds

end Lines

end Keuos.Lettuce
