import Keuos.Lettuce.Equiv.Parse

/-!
# What the writers write

Each writer stores a byte string into its buffer: the prefix, the text or the number, and `\r\n`.  A number is
written as its digits, which a loop finds from the last one on and a second loop copies in reverse.  The least
number has no opposite, so that it is written as a sign without digits.

## Main results

* `writeI64ToBuf_eq`: the text of a number.
* `writeInteger_eq`, `writeBulkString_eq`, `writeText_eq`: what is in the buffer afterwards.
* `parse_write_iff`: the parser gives back what was written, except for the least number.
-/

namespace Keuos.Lettuce

/-! ### The digits -/

theorem digit_written {n : Nat} (hn : n < 2 ^ 63) :
    (Int64.ofNat n % 10 + 48).toUInt64.toUInt8 = UInt8.ofNat (n % 10 + 48) := by
  have hmod : Int64.ofNat n % 10 = Int64.ofNat (n % 10) := (Int64.ofNat_mod hn (by decide)).symm
  rw [hmod, show (48 : Int64) = Int64.ofNat 48 from rfl, ← Int64.ofNat_add, Int64.toUInt64_ofNat']
  exact UInt64.toUInt8_ofNat' _

/-- **The digits are found from the last one on.** -/
theorem writeDigits_spec : ∀ {rounds n c : Nat} {tmp : List UInt8}, n < 2 ^ 63 → tmp.length < 2 ^ 63 →
    (digitsOf n).length < rounds → c + (digitsOf n).length ≤ tmp.length →
    ∃ tmp', writeDigits rounds (Int64.ofNat n) tmp (Int64.ofNat c) =
        .ok (tmp', Int64.ofNat (c + (digitsOf n).length)) ∧
      tmp'.length = tmp.length ∧
      tmp'.take (c + (digitsOf n).length) = tmp.take c ++ (digitsOf n).reverse := by
  intro rounds
  induction rounds with
  | zero =>
    intro n c tmp _ _ h
    exact absurd h (Nat.not_lt_zero _)
  | succ rounds ih =>
    intro n c tmp hn htmp hrounds hroom
    unfold writeDigits
    by_cases hzero : n = 0
    · rw [hzero, if_neg (by decide), digitsOf_zero]
      exact ⟨tmp, rfl, rfl, by simp⟩
    · have hpos : 0 < n := Nat.pos_of_ne_zero hzero
      have hcond : Int64.ofNat n > 0 := (ofNat64_lt (by decide) hn).mpr hpos
      have hlen : (digitsOf n).length = (digitsOf (n / 10)).length + 1 := by
        rw [digitsOf_step hpos, List.length_append, List.length_singleton]
      rw [hlen] at hrounds hroom ⊢
      have hc : (Int64.ofNat c).toNatClampNeg = c := Int64.toNatClampNeg_ofNat_of_lt (by omega)
      have hindex : 0 ≤ Int64.ofNat c ∧ (Int64.ofNat c).toNatClampNeg < tmp.length :=
        ⟨(ofNat64_le (by decide) (by omega)).mpr (Nat.zero_le c), by rw [hc]; omega⟩
      have hdiv : Int64.ofNat n / 10 = Int64.ofNat (n / 10) := (Int64.ofNat_div hn (by decide)).symm
      have hnext : Int64.ofNat c + 1 = Int64.ofNat (c + 1) := (Int64.ofNat_add c 1).symm
      rw [if_pos hcond, if_pos hindex, hc, digit_written hn, hdiv, hnext]
      obtain ⟨tmp', heq, hsize, htake⟩ := @ih (n / 10) (c + 1) (tmp.set c (UInt8.ofNat (n % 10 + 48)))
        (by omega) (by rwa [List.length_set]) (by omega) (by rw [List.length_set]; omega)
      have hsum : c + 1 + (digitsOf (n / 10)).length = c + ((digitsOf (n / 10)).length + 1) := by omega
      have hset : (tmp.set c (UInt8.ofNat (n % 10 + 48))).take (c + 1) =
          tmp.take c ++ [UInt8.ofNat (n % 10 + 48)] := by
        rw [List.take_add_one, List.getElem?_set_self (by omega), List.take_set_of_le (Nat.le_refl c)]
        rfl
      rw [hsum] at heq htake
      refine ⟨tmp', heq, by rw [hsize, List.length_set], ?_⟩
      rw [htake, hset, digitsOf_step hpos, List.reverse_append, List.append_assoc]
      rfl

/-- **The copy in reverse.** -/
theorem reverseCopy_spec {buf : UInt64} {tmp : List UInt8} : ∀ {k rounds p : Nat} {m : Mem}, k < rounds →
    k ≤ tmp.length → k < 2 ^ 63 →
    reverseCopy buf tmp rounds (Int64.ofNat k - 1) (Int64.ofNat p) m =
      .ok (Int64.ofNat (p + k), m.store (buf + UInt64.ofNat p) (tmp.take k).reverse) := by
  intro k
  induction k with
  | zero =>
    intro rounds p m hrounds _ _
    obtain ⟨rounds, rfl⟩ : ∃ r, rounds = r + 1 := ⟨rounds - 1, by omega⟩
    unfold reverseCopy
    rw [if_neg (by decide)]
    rfl
  | succ k ih =>
    intro rounds p m hrounds hk hlt
    obtain ⟨rounds, rfl⟩ : ∃ r, rounds = r + 1 := ⟨rounds - 1, by omega⟩
    have hlast : Int64.ofNat (k + 1) - 1 = Int64.ofNat k := ofNat64_sub (Nat.le_add_left 1 k)
    have hcond : Int64.ofNat k ≥ 0 := (ofNat64_le (by decide) (by omega)).mpr (Nat.zero_le k)
    have hnext : Int64.ofNat p + 1 = Int64.ofNat (p + 1) := (Int64.ofNat_add p 1).symm
    have htake : (tmp.take (k + 1)).reverse = tmp[k] :: (tmp.take k).reverse := by
      rw [List.take_add_one, List.getElem?_eq_getElem (by omega), Option.toList_some, List.reverse_append]
      rfl
    unfold reverseCopy
    rw [hlast, if_pos hcond, Int64.toNatClampNeg_ofNat_of_lt (by omega), List.getElem?_eq_getElem (by omega)]
    dsimp only
    rw [hnext, ih (by omega) (by omega) (by omega), htake, Mem.store_cons, Int64.toUInt64_ofNat',
      ← add_ofNat_add, Nat.add_assoc, Nat.add_comm 1 k]
    rfl

/-! ### The text of a number -/

/-- What is written for a number: the least one has a sign only. -/
def written (v : Int64) : List UInt8 :=
  if v = Int64.minValue then [45] else decimal v.toInt

theorem copy_digits {n p : Nat} (hn : n < 2 ^ 63) (buf : UInt64) (m : Mem) :
    ((writeDigits 21 (Int64.ofNat n) (List.replicate 20 0) 0).bind fun x =>
        reverseCopy buf x.1 21 (x.2 - 1) (Int64.ofNat p) m) =
      .ok (Int64.ofNat (p + (digitsOf n).length), m.store (buf + UInt64.ofNat p) (digitsOf n)) := by
  have hlen : (digitsOf n).length ≤ 19 := length_digitsOf_le (by omega)
  obtain ⟨tmp, heq, hsize, htake⟩ := @writeDigits_spec 21 n 0 (List.replicate 20 0) hn (by decide) (by omega)
    (by rw [List.length_replicate]; omega)
  rw [Nat.zero_add, List.take_zero, List.nil_append] at htake
  rw [List.length_replicate] at hsize
  rw [Nat.zero_add] at heq
  refine (congrArg (Except.bind · _) heq).trans ?_
  show reverseCopy buf tmp 21 (Int64.ofNat (digitsOf n).length - 1) _ m = _
  rw [reverseCopy_spec (by omega) (by omega) (by omega), htake, List.reverse_reverse]

theorem opposite {v : Int64} (hneg : v < 0) (hmin : v ≠ Int64.minValue) :
    v.toInt.natAbs < 2 ^ 63 ∧ 0 - v = Int64.ofNat v.toInt.natAbs := by
  have hlow := Int64.le_toInt v
  have hne : v.toInt ≠ -2 ^ 63 := fun h => hmin (Int64.toInt_inj.mp h)
  rw [Int64.lt_iff_toInt_lt, Int64.toInt_zero] at hneg
  refine ⟨by omega, ?_⟩
  rw [Int64.zero_sub, ← Int64.ofInt_eq_ofNat, ← Int64.ofInt_toInt v, ← Int64.ofInt_neg, Int64.ofInt_toInt]
  congr 1
  omega

/-- **The text of a number is written.** -/
theorem writeI64ToBuf_eq (buf : UInt64) (v : Int64) (m : Mem) :
    writeI64ToBuf buf v m = .ok (Int64.ofNat (written v).length, m.store buf (written v)) := by
  unfold writeI64ToBuf written
  by_cases hzero : v = 0
  · rw [hzero]
    rfl
  · have hbeq : (v == 0) = false := beq_eq_false_iff_ne.mpr hzero
    have hint : v.toInt ≠ 0 := fun h => hzero (Int64.toInt_inj.mp h)
    rw [hbeq, if_neg Bool.false_ne_true]
    by_cases hmin : v = Int64.minValue
    · -- `0 - v` is `v` again, so that no digit is found.
      rw [hmin]
      rfl
    · rw [if_neg hmin]
      by_cases hneg : v < 0
      · obtain ⟨hlt, hopp⟩ := opposite hneg hmin
        have hint' : v.toInt < 0 := Int64.lt_iff_toInt_lt.mp hneg
        have hcopy := @copy_digits v.toInt.natAbs 1 hlt buf (m.write8 buf 45)
        rw [decide_eq_true hneg]
        simp only [if_true]
        rw [hopp]
        refine hcopy.trans ?_
        unfold decimal
        rw [if_neg hint, if_pos hint', List.length_cons, Nat.add_comm 1, Mem.store_cons]
        rfl
      · have hpos : ¬v.toInt < 0 := fun h => hneg (Int64.lt_iff_toInt_lt.mpr h)
        have hlt := Int64.toInt_lt v
        have hnat : v = Int64.ofNat v.toInt.natAbs := by
          rw [← Int64.ofInt_eq_ofNat, Int.natAbs_of_nonneg (Int.not_lt.mp hpos), Int64.ofInt_toInt]
        have hcopy := @copy_digits v.toInt.natAbs 0 (by omega) buf m
        rw [← hnat, Nat.zero_add, show UInt64.ofNat 0 = 0 from rfl, UInt64.add_zero] at hcopy
        rw [decide_eq_false hneg]
        simp only [Bool.false_eq_true, if_false]
        refine hcopy.trans ?_
        unfold decimal
        rw [if_neg hint, if_neg hpos]

theorem declared_written_iff (v : Int64) : declared (written v) = v ↔ v ≠ Int64.minValue := by
  unfold written declared
  by_cases hmin : v = Int64.minValue
  · rw [if_pos hmin, hmin]
    decide
  · rw [if_neg hmin, number_decimal, Int64.ofInt_toInt]
    exact iff_of_true rfl hmin

theorem noCrlf_of_digits {l : List UInt8} (h : ∀ b ∈ l, b ≠ 13) : NoCrlf l :=
  fun hin => h 13 (hin.subset (List.mem_cons_self ..)) rfl

theorem noCrlf_written (v : Int64) : NoCrlf (written v) := by
  refine noCrlf_of_digits ?_
  rintro b hb rfl
  unfold written at hb
  split at hb
  · exact absurd hb (by decide)
  · rcases mem_decimal hb with h | h
    · exact absurd h (by decide)
    · exact absurd h.1 (by decide)

theorem length_written_le (v : Int64) : (written v).length ≤ 20 := by
  have hlow := Int64.le_toInt v
  have hhigh := Int64.toInt_lt v
  have hdigits : (digitsOf v.toInt.natAbs).length ≤ 19 := length_digitsOf_le (by omega)
  unfold written decimal
  split
  · decide
  · split
    · decide
    · split
      · rw [List.length_cons]
        omega
      · omega

/-! ### What is in the buffer -/

/-- A line: the prefix, the text and `\r\n`. -/
def lineBytes (b : UInt8) (text : List UInt8) : List UInt8 :=
  b :: (text ++ [13, 10])

/-- A bulk string: the line with the length, the string and `\r\n`. -/
def bulkBytes (text : List UInt8) : List UInt8 :=
  lineBytes 36 (written (Int64.ofNat text.length)) ++ (text ++ [13, 10])

theorem length_lineBytes (b : UInt8) (text : List UInt8) :
    (lineBytes b text).length = 1 + text.length + 2 := by
  unfold lineBytes
  simp only [List.length_cons, List.length_append, List.length_nil]
  omega

theorem writeCrlf_eq (buf : UInt64) (k : Nat) (m : Mem) :
    writeCrlf buf (Int64.ofNat k) m = m.store (buf + UInt64.ofNat k) [13, 10] := by
  unfold writeCrlf
  rw [show Int64.ofNat k + 1 = Int64.ofNat (k + 1) from (Int64.ofNat_add k 1).symm, Int64.toUInt64_ofNat',
    Int64.toUInt64_ofNat', ← add_ofNat_add]
  rfl

theorem store_lineBytes (b : UInt8) (text : List UInt8) (buf : UInt64) (m : Mem) :
    writeCrlf buf (Int64.ofNat (1 + text.length)) ((m.write8 buf b).store (buf + 1) text) =
      m.store buf (lineBytes b text) := by
  have hcons : m.store buf (lineBytes b text) = (m.write8 buf b).store (buf + 1) (text ++ [13, 10]) := rfl
  rw [hcons, Mem.store_append, writeCrlf_eq, ← add_ofNat_add]
  rfl

theorem memcpy_eq {m : Mem} {src : UInt64} {text : List UInt8} (h : Holds m src text)
    (hlt : text.length < 2 ^ 63) (dst : UInt64) :
    memcpy dst src (Int64.ofNat text.length) m = m.store dst text := by
  unfold memcpy
  rw [Int64.toNatClampNeg_ofNat_of_lt hlt]
  exact Mem.copyIn_eq_store h (by omega) dst m

/-- **A number.** -/
theorem writeInteger_eq (buf : UInt64) (v : Int64) (m : Mem) :
    writeInteger buf v m =
      .ok (Int64.ofNat (lineBytes 58 (written v)).length, m.store buf (lineBytes 58 (written v))) := by
  unfold writeInteger
  rw [writeI64ToBuf_eq, ← store_lineBytes, length_lineBytes]
  show Except.ok (1 + Int64.ofNat _ + 2, writeCrlf buf (1 + Int64.ofNat _) _) = _
  rw [show (1 : Int64) = Int64.ofNat 1 from rfl, show (2 : Int64) = Int64.ofNat 2 from rfl, Int64.ofNat_add,
    Int64.ofNat_add]

theorem holds_apart {m : Mem} {src buf : UInt64} {text done : List UInt8} {n : Nat} (h : Holds m src text)
    (hapart : ∀ i < text.length, ¬InBlock buf n (src + UInt64.ofNat i)) (hle : done.length ≤ n)
    (hn : n < 2 ^ 64) : Holds (m.store buf done) src text := by
  refine h.congr fun i hi => Mem.store_of_not_mem ?_ (by omega) m
  exact fun hin => hapart i hi (Nat.lt_of_lt_of_le hin hle)

/-- **A line.** -/
theorem writeText_eq {m : Mem} {msg : StringView} {text : List UInt8} (h : Reads m msg text) (b : UInt8)
    (buf : UInt64) (hlen : (lineBytes b text).length < 2 ^ 63)
    (hapart : ∀ i < text.length, ¬InBlock buf (lineBytes b text).length (msg.ptr + UInt64.ofNat i)) :
    writeText b buf msg m = (Int64.ofNat (lineBytes b text).length, m.store buf (lineBytes b text)) := by
  have hheld : Holds (m.write8 buf b) msg.ptr text :=
    @holds_apart m msg.ptr buf text [b] _ h.holds hapart (Nat.succ_le_succ (Nat.zero_le _)) (by omega)
  unfold writeText
  dsimp only
  rw [h.length, memcpy_eq hheld h.lt, ← store_lineBytes, length_lineBytes,
    show (1 : Int64) = Int64.ofNat 1 from rfl, show (2 : Int64) = Int64.ofNat 2 from rfl, Int64.ofNat_add,
    Int64.ofNat_add]

/-- **A string.** -/
theorem writeBulkString_eq {m : Mem} {data : StringView} {text : List UInt8} (h : Reads m data text)
    (buf : UInt64) (hlen : (bulkBytes text).length < 2 ^ 63)
    (hapart : ∀ i < text.length, ¬InBlock buf (bulkBytes text).length (data.ptr + UInt64.ofNat i)) :
    writeBulkString buf data m = .ok (Int64.ofNat (bulkBytes text).length, m.store buf (bulkBytes text)) := by
  have hhead : (lineBytes 36 (written (Int64.ofNat text.length))).length ≤ (bulkBytes text).length := by
    unfold bulkBytes
    rw [List.length_append]
    omega
  have hheld := holds_apart h.holds hapart hhead (by omega)
  have hline := length_lineBytes 36 (written (Int64.ofNat text.length))
  have hcast : Int64.ofNat (1 + (written (Int64.ofNat text.length)).length) + 2 =
      Int64.ofNat (lineBytes 36 (written (Int64.ofNat text.length))).length := by
    rw [hline, Int64.ofNat_add (1 + _)]
    rfl
  have htext : (bulkBytes text).length =
      (lineBytes 36 (written (Int64.ofNat text.length))).length + text.length + 2 := by
    unfold bulkBytes
    rw [List.length_append, List.length_append, Nat.add_assoc]
    rfl
  unfold writeBulkString
  rw [h.length]
  dsimp only
  rw [writeI64ToBuf_eq]
  show Except.ok (1 + Int64.ofNat _ + 2 + Int64.ofNat _ + 2,
    writeCrlf buf (1 + Int64.ofNat _ + 2 + Int64.ofNat _) (memcpy (buf + (1 + Int64.ofNat _ + 2).toUInt64) _ _
      (writeCrlf buf (1 + Int64.ofNat _) _))) = _
  rw [show (1 : Int64) = Int64.ofNat 1 from rfl, ← Int64.ofNat_add, store_lineBytes, hcast,
    memcpy_eq hheld h.lt, Int64.toUInt64_ofNat', ← Int64.ofNat_add, writeCrlf_eq, htext, ofNat64_add_two,
    ← add_ofNat_add, ← Mem.store_append, ← Mem.store_append]
  rfl

/-! ### What is read again -/

/-- The parser returns `r` for every view that begins with `n` bytes of the buffer, whatever is behind
them. -/
def ParsesTo (m : Mem) (buf : UInt64) (n : Nat) (r : RespValue) : Prop :=
  ∀ len depth, Int64.ofNat n ≤ len → len.toNatClampNeg < depth → respParse m depth ⟨buf, len⟩ = .ok r

theorem reads_stored {bytes : List UInt8} (hlt : bytes.length < 2 ^ 63) (buf : UInt64) (m : Mem) {len : Int64}
    (hle : Int64.ofNat bytes.length ≤ len) :
    ∃ rest, Reads (m.store buf bytes) ⟨buf, len⟩ (bytes ++ rest) := by
  have hzero : (0 : Int64) ≤ Int64.ofNat bytes.length :=
    (ofNat64_le (by decide) hlt).mpr (Nat.zero_le _)
  obtain ⟨k, hk, rfl, -⟩ := exists_ofNat64 (Int64.not_lt.mpr (Int64.le_trans hzero hle))
  rw [ofNat64_le hlt hk] at hle
  obtain ⟨rest, hrest⟩ := exists_reads (m.store buf bytes)
    (v := ⟨buf + UInt64.ofNat bytes.length, Int64.ofNat (k - bytes.length)⟩)
    ((ofNat64_le (by decide) (by omega)).mpr (Nat.zero_le _))
  have hsize := (ofNat64_inj (by omega) hrest.lt).mp hrest.length
  have hlen : (bytes ++ rest).length = k := by
    rw [List.length_append]
    omega
  refine ⟨rest, by rw [hlen], by rw [hlen]; exact hk, ?_⟩
  exact holds_append.mpr ⟨Mem.holds_store (by omega) buf m, hrest.holds⟩

theorem lineBytes_append (b : UInt8) (text rest : List UInt8) :
    lineBytes b text ++ rest = b :: (text ++ 13 :: 10 :: rest) := by
  unfold lineBytes
  rw [List.cons_append, List.append_assoc]
  rfl

section Parse

variable {buf : UInt64} {m : Mem}

theorem parsesTo_of_reads {bytes : List UInt8} {r : RespValue} (hlt : bytes.length < 2 ^ 63)
    (hparse : ∀ (len : Int64) (rest : List UInt8) (e : Nat),
      Reads (m.store buf bytes) ⟨buf, len⟩ (bytes ++ rest) →
      respParse (m.store buf bytes) (e + 1) ⟨buf, len⟩ = .ok r) :
    ParsesTo (m.store buf bytes) buf bytes.length r := by
  intro len depth hle hdepth
  obtain ⟨rest, hreads⟩ := reads_stored hlt buf m hle
  obtain ⟨e, rfl⟩ : ∃ e, depth = e + 1 := ⟨depth - 1, by omega⟩
  exact hparse len rest e hreads

theorem length_line_eq (b : UInt8) (text : List UInt8) : text.length + 3 = (lineBytes b text).length := by
  rw [length_lineBytes]
  omega

/-- **A stored number.** -/
theorem parsesTo_integer {text : List UInt8} (hno : NoCrlf text) (hlt : (lineBytes 58 text).length < 2 ^ 63) :
    ParsesTo (m.store buf (lineBytes 58 text)) buf (lineBytes 58 text).length
      ⟨respInteger, declared text, 0, 0, 0, Int64.ofNat (lineBytes 58 text).length⟩ := by
  refine parsesTo_of_reads hlt fun len rest e hreads => ?_
  rw [lineBytes_append] at hreads
  rw [← length_line_eq]
  exact (respParse_line hreads hno e).trans (parseRespInteger_eq hreads)

/-- **A stored text.** -/
theorem parsesTo_text {b : UInt8} {typeTag : Int64} {text : List UInt8} (hno : NoCrlf text)
    (hlt : (lineBytes b text).length < 2 ^ 63)
    (hkind : b = 43 ∧ typeTag = respSimpleString ∨ b = 45 ∧ typeTag = respError) :
    ParsesTo (m.store buf (lineBytes b text)) buf (lineBytes b text).length
      ⟨typeTag, 0, buf + 1, Int64.ofNat text.length, 0, Int64.ofNat (lineBytes b text).length⟩ := by
  refine parsesTo_of_reads hlt fun len rest e hreads => ?_
  rw [lineBytes_append] at hreads
  rw [← length_line_eq]
  rcases hkind with ⟨rfl, rfl⟩ | ⟨rfl, rfl⟩
  · exact (respParse_line hreads hno e).trans (parseRespText_eq hreads _)
  · exact (respParse_line hreads hno e).trans (parseRespText_eq hreads _)

theorem holds_text {b : UInt8} {text : List UInt8} (hlt : (lineBytes b text).length < 2 ^ 63) :
    Holds (m.store buf (lineBytes b text)) (buf + 1) text := by
  have hheld := Mem.holds_store (show (lineBytes b text).length < 2 ^ 64 by omega) buf m
  exact (holds_append.mp (holds_cons.mp hheld).2).1

theorem bulkBytes_append (text rest : List UInt8) :
    bulkBytes text ++ rest =
      36 :: (written (Int64.ofNat text.length) ++ 13 :: 10 :: (text ++ 13 :: 10 :: rest)) := by
  unfold bulkBytes
  rw [List.append_assoc, lineBytes_append, List.append_assoc]
  rfl

theorem length_bulkBytes (text : List UInt8) :
    (bulkBytes text).length = (written (Int64.ofNat text.length)).length + 3 + text.length + 2 := by
  unfold bulkBytes
  rw [List.length_append, ← length_line_eq, List.length_append]
  rfl

/-- **A stored string**, which is where the parser says. -/
theorem parsesTo_bulk {text : List UInt8} (hlt : (bulkBytes text).length < 2 ^ 63) :
    ∃ ptr, ParsesTo (m.store buf (bulkBytes text)) buf (bulkBytes text).length
        ⟨respBulkString, 0, ptr, Int64.ofNat text.length, 0, Int64.ofNat (bulkBytes text).length⟩ ∧
      Holds (m.store buf (bulkBytes text)) ptr text := by
  have hlen := length_bulkBytes text
  refine ⟨buf + UInt64.ofNat ((written (Int64.ofNat text.length)).length + 3), ?_, ?_⟩
  · refine parsesTo_of_reads hlt fun len rest e hreads => ?_
    have hsize : declared (written (Int64.ofNat text.length)) = Int64.ofNat text.length := by
      rw [declared_written_iff]
      intro hmin
      have hneg : (Int64.ofNat text.length).toInt = -2 ^ 63 := congrArg Int64.toInt hmin
      rw [toInt_ofNat64 (by omega)] at hneg
      omega
    rw [bulkBytes_append] at hreads
    rw [hlen]
    exact (respParse_line hreads (noCrlf_written _) e).trans (bulkString_whole hreads hsize (by simp))
  · have hheld := Mem.holds_store (show (bulkBytes text).length < 2 ^ 64 by omega) buf m
    have hsplit : bulkBytes text =
        lineBytes 36 (written (Int64.ofNat text.length)) ++ (text ++ [13, 10]) := rfl
    rw [length_line_eq 36]
    conv at hheld =>
      rhs
      rw [hsplit]
    exact (holds_append.mp (holds_append.mp hheld).2).1

end Parse

/-- **The parser gives back what was written**, except for the least number, which is written without its
digits.  A string and a text are read at a place where the memory holds them. -/
theorem parse_write_iff (buf : UInt64) (m : Mem) :
    (∀ v, ∃ bytes, writeInteger buf v m = .ok (Int64.ofNat bytes.length, m.store buf bytes) ∧
      (ParsesTo (m.store buf bytes) buf bytes.length ⟨respInteger, v, 0, 0, 0, Int64.ofNat bytes.length⟩ ↔
        v ≠ Int64.minValue)) ∧
    (∀ data text, Reads m data text → (bulkBytes text).length < 2 ^ 63 →
      (∀ i < text.length, ¬InBlock buf (bulkBytes text).length (data.ptr + UInt64.ofNat i)) →
      ∃ bytes ptr, writeBulkString buf data m = .ok (Int64.ofNat bytes.length, m.store buf bytes) ∧
        ParsesTo (m.store buf bytes) buf bytes.length
          ⟨respBulkString, 0, ptr, Int64.ofNat text.length, 0, Int64.ofNat bytes.length⟩ ∧
        Holds (m.store buf bytes) ptr text) ∧
    ∀ msg text, Reads m msg text → NoCrlf text → (lineBytes 43 text).length < 2 ^ 63 →
      (∀ i < text.length, ¬InBlock buf (lineBytes 43 text).length (msg.ptr + UInt64.ofNat i)) →
      (∃ bytes ptr, writeSimpleString buf msg m = (Int64.ofNat bytes.length, m.store buf bytes) ∧
        ParsesTo (m.store buf bytes) buf bytes.length
          ⟨respSimpleString, 0, ptr, Int64.ofNat text.length, 0, Int64.ofNat bytes.length⟩ ∧
        Holds (m.store buf bytes) ptr text) ∧
      ∃ bytes ptr, writeError buf msg m = (Int64.ofNat bytes.length, m.store buf bytes) ∧
        ParsesTo (m.store buf bytes) buf bytes.length
          ⟨respError, 0, ptr, Int64.ofNat text.length, 0, Int64.ofNat bytes.length⟩ ∧
        Holds (m.store buf bytes) ptr text := by
  refine ⟨fun v => ?_, fun data text hreads hlt hapart => ?_, fun msg text hreads hno hlt hapart => ?_⟩
  · have hlen : (lineBytes 58 (written v)).length < 2 ^ 63 := by
      have hshort := length_written_le v
      rw [length_lineBytes]
      omega
    have hparse := @parsesTo_integer buf m (written v) (noCrlf_written v) hlen
    refine ⟨lineBytes 58 (written v), writeInteger_eq buf v m, ?_⟩
    rw [← declared_written_iff]
    constructor
    · intro hback
      have hle := Int64.le_refl (Int64.ofNat (lineBytes 58 (written v)).length)
      have heq := (hparse _ _ hle (Nat.lt_succ_self _)).symm.trans (hback _ _ hle (Nat.lt_succ_self _))
      exact congrArg RespValue.intVal (Except.ok.inj heq)
    · intro hvalue
      rwa [hvalue] at hparse
  · obtain ⟨ptr, hparse, hheld⟩ := @parsesTo_bulk buf m text hlt
    exact ⟨bulkBytes text, ptr, writeBulkString_eq hreads buf hlt hapart, hparse, hheld⟩
  · have hheld : ∀ b, Holds (m.store buf (lineBytes b text)) (buf + 1) text :=
      fun b => holds_text (by rwa [length_lineBytes] at hlt ⊢)
    constructor
    · exact ⟨lineBytes 43 text, buf + 1, writeText_eq hreads 43 buf hlt hapart,
        parsesTo_text hno hlt (.inl ⟨rfl, rfl⟩), hheld 43⟩
    · exact ⟨lineBytes 45 text, buf + 1, writeText_eq hreads 45 buf hlt hapart,
        parsesTo_text hno hlt (.inr ⟨rfl, rfl⟩), hheld 45⟩

/-- One letter, as a string and as a text. -/
theorem parse_write_iff_letter :
    (∃ bytes ptr, writeBulkString 0 ⟨1000, 1⟩ (Mem.store 1000 [97] fun _ => 0) =
        .ok (Int64.ofNat bytes.length, Mem.store 0 bytes (Mem.store 1000 [97] fun _ => 0)) ∧
      ParsesTo (Mem.store 0 bytes (Mem.store 1000 [97] fun _ => 0)) 0 bytes.length
        ⟨respBulkString, 0, ptr, 1, 0, Int64.ofNat bytes.length⟩ ∧
      Holds (Mem.store 0 bytes (Mem.store 1000 [97] fun _ => 0)) ptr [97]) ∧
    ∃ bytes ptr, writeSimpleString 0 ⟨1000, 1⟩ (Mem.store 1000 [97] fun _ => 0) =
        (Int64.ofNat bytes.length, Mem.store 0 bytes (Mem.store 1000 [97] fun _ => 0)) ∧
      ParsesTo (Mem.store 0 bytes (Mem.store 1000 [97] fun _ => 0)) 0 bytes.length
        ⟨respSimpleString, 0, ptr, 1, 0, Int64.ofNat bytes.length⟩ ∧
      Holds (Mem.store 0 bytes (Mem.store 1000 [97] fun _ => 0)) ptr [97] := by
  have hreads := @reads_store [97] (by decide) 1000 fun _ => 0
  have hlen : (bulkBytes [97]).length ≤ 26 := by
    have hshort := length_written_le (Int64.ofNat [97].length)
    rw [length_bulkBytes]
    change _ + 3 + 1 + 2 ≤ 26
    omega
  have hapart : ∀ n ≤ 26, ∀ i < [(97 : UInt8)].length, ¬InBlock 0 n (1000 + UInt64.ofNat i) := by
    intro n hn i hi hin
    obtain rfl : i = 0 := Nat.lt_one_iff.mp hi
    exact absurd (Nat.lt_of_lt_of_le hin hn) (by decide)
  have hno : NoCrlf [97] := fun h => absurd h.length_le (by decide)
  have hall := parse_write_iff 0 (Mem.store 1000 [97] fun _ => 0)
  exact ⟨hall.2.1 ⟨1000, 1⟩ [97] hreads (by omega) (hapart _ hlen),
    (hall.2.2 ⟨1000, 1⟩ [97] hreads hno (by decide) (hapart _ (by decide))).1⟩

/-- The least number is written as `:-\r\n`, which is parsed as 0. -/
theorem not_parse_writeInteger : ¬∀ (buf : UInt64) (v : Int64) (m : Mem), ∃ n m',
    writeInteger buf v m = .ok (Int64.ofNat n, m') ∧
      ParsesTo m' buf n ⟨respInteger, v, 0, 0, 0, Int64.ofNat n⟩ := by
  intro hall
  obtain ⟨n, m', hwrite, hback⟩ := hall 0 Int64.minValue fun _ => 0
  rw [writeInteger_eq] at hwrite
  obtain ⟨hn, rfl⟩ := Prod.mk.inj (Except.ok.inj hwrite)
  have hfour : Int64.ofNat n = 4 := hn.symm
  have hparse : respParse (Mem.store 0 [58, 45, 13, 10] fun _ => 0) 5 ⟨0, 4⟩ = .ok ⟨3, 0, 0, 0, 0, 4⟩ := by
    decide +kernel
  have hvalue := hparse.symm.trans (hback 4 5 (by rw [hfour]; decide) (by decide))
  have hleast : (0 : Int64) = Int64.minValue := congrArg RespValue.intVal (Except.ok.inj hvalue)
  exact absurd hleast (by decide)

end Keuos.Lettuce
