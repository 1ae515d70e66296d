import Keuos.Lettuce.Equiv.Parse

/-!
# The parser and the end of its input

An array is parsed element by element, and the parser does not look whether an element was there: one that is
not counts as an element of no bytes.  A bulk string is taken to have two more bytes after its text.  So an
array is returned whose elements have not all arrived, and more bytes are consumed than there are.

`Values n bytes` says what the protocol calls `n` complete values; an array before `n` more values is its
header and the values that follow it.  `Takes` and `LoopTakes` say how many bytes the parser moves on by.

## Main results

* `loopTakes_of_values`: complete values are taken one by one.
* `outcome`: what a value can be that is not complete.
* `parse_inside_iff`: when the parser stays inside of its input.
-/

namespace Keuos.Lettuce

/-! ### Complete values -/

/-- The bytes are `n` complete values. -/
inductive Values : Nat → List UInt8 → Prop
  | nil : Values 0 []
  | line {n : Nat} {b : UInt8} {line rest : List UInt8} (hb : b = 43 ∨ b = 45 ∨ b = 58) (hno : NoCrlf line)
      (h : Values n rest) : Values (n + 1) (b :: (line ++ 13 :: 10 :: rest))
  | null {n : Nat} {b : UInt8} {line rest : List UInt8} (hb : b = 36 ∨ b = 42) (hno : NoCrlf line)
      (hneg : declared line < 0) (h : Values n rest) : Values (n + 1) (b :: (line ++ 13 :: 10 :: rest))
  | bulk {n d : Nat} {line text rest : List UInt8} (hno : NoCrlf line) (hd : declared line = Int64.ofNat d)
      (hlen : text.length = d + 2) (h : Values n rest) :
      Values (n + 1) (36 :: (line ++ 13 :: 10 :: (text ++ rest)))
  | array {n d : Nat} {line rest : List UInt8} (hno : NoCrlf line) (hd : declared line = Int64.ofNat d)
      (hlt : d < 2 ^ 63) (h : Values (d + n) rest) : Values (n + 1) (42 :: (line ++ 13 :: 10 :: rest))

/-- **The values of one string after those of another.** -/
theorem Values.append {n k : Nat} {x y : List UInt8} (hx : Values n x) (hy : Values k y) :
    Values (n + k) (x ++ y) := by
  induction hx with
  | nil => rwa [Nat.zero_add, List.nil_append]
  | line hb hno _ ih =>
    rw [Nat.add_right_comm, List.cons_append, List.append_assoc]
    exact .line hb hno ih
  | null hb hno hneg _ ih =>
    rw [Nat.add_right_comm, List.cons_append, List.append_assoc]
    exact .null hb hno hneg ih
  | bulk hno hd hlen _ ih =>
    rw [Nat.add_right_comm, List.cons_append, List.append_assoc, List.cons_append, List.cons_append,
      List.append_assoc]
    exact .bulk hno hd hlen ih
  | array hno hd hlt _ ih =>
    rw [Nat.add_right_comm, List.cons_append, List.append_assoc]
    refine .array hno hd hlt ?_
    rw [← Nat.add_assoc]
    exact ih

/-- **The first of the values and the others.** -/
theorem Values.split {n : Nat} {x : List UInt8} (h : Values n x) : ∀ {a b : Nat}, n = a + b →
    ∃ y z, x = y ++ z ∧ Values a y ∧ Values b z := by
  induction h with
  | nil =>
    intro a b hab
    obtain ⟨rfl, rfl⟩ : a = 0 ∧ b = 0 := by omega
    exact ⟨[], [], rfl, .nil, .nil⟩
  | @line n c line rest hb hno h ih =>
    intro a b hab
    cases a with
    | zero =>
      rw [Nat.zero_add] at hab
      exact ⟨[], _, rfl, .nil, hab ▸ .line hb hno h⟩
    | succ a =>
      obtain ⟨y, z, heq, hy, hz⟩ := @ih a b (by omega)
      refine ⟨c :: (line ++ 13 :: 10 :: y), z, ?_, .line hb hno hy, hz⟩
      rw [heq, List.cons_append, List.append_assoc]
      rfl
  | @null n c line rest hb hno hneg h ih =>
    intro a b hab
    cases a with
    | zero =>
      rw [Nat.zero_add] at hab
      exact ⟨[], _, rfl, .nil, hab ▸ .null hb hno hneg h⟩
    | succ a =>
      obtain ⟨y, z, heq, hy, hz⟩ := @ih a b (by omega)
      refine ⟨c :: (line ++ 13 :: 10 :: y), z, ?_, .null hb hno hneg hy, hz⟩
      rw [heq, List.cons_append, List.append_assoc]
      rfl
  | @bulk n d line text rest hno hd hlen h ih =>
    intro a b hab
    cases a with
    | zero =>
      rw [Nat.zero_add] at hab
      exact ⟨[], _, rfl, .nil, hab ▸ .bulk hno hd hlen h⟩
    | succ a =>
      obtain ⟨y, z, heq, hy, hz⟩ := @ih a b (by omega)
      refine ⟨36 :: (line ++ 13 :: 10 :: (text ++ y)), z, ?_, .bulk hno hd hlen hy, hz⟩
      rw [heq, List.cons_append, List.append_assoc, List.cons_append, List.cons_append, List.append_assoc]
  | @array n d line rest hno hd hlt h ih =>
    intro a b hab
    cases a with
    | zero =>
      rw [Nat.zero_add] at hab
      exact ⟨[], _, rfl, .nil, hab ▸ .array hno hd hlt h⟩
    | succ a =>
      obtain ⟨y, z, heq, hy, hz⟩ := @ih (d + a) b (by omega)
      refine ⟨42 :: (line ++ 13 :: 10 :: y), z, ?_, .array hno hd hlt hy, hz⟩
      rw [heq, List.cons_append, List.append_assoc]
      rfl

/-! ### How far the parser goes -/

/-- The parser returns a value for the bytes and says that it consumed `k` of them. -/
def Takes (bytes : List UInt8) (k : Nat) : Prop :=
  ∀ m v depth, Reads m v bytes → bytes.length < depth →
    ∃ r, respParse m depth v = .ok r ∧ r.bytesConsumed = Int64.ofNat k

/-- The parser goes out of its input. -/
def Faults (bytes : List UInt8) : Prop :=
  ∀ m v depth, Reads m v bytes → bytes.length < depth → respParse m depth v = .error .bounds

/-- The loop over `n` elements, which begin at `rest`, moves on by `k` bytes. -/
def LoopTakes (n : Nat) (rest : List UInt8) (k : Nat) : Prop :=
  ∀ m v depth pre, Reads m v (pre ++ rest) → rest.length < depth →
    parseElems (respParse m depth) v v.length n (Int64.ofNat pre.length) = .ok (Int64.ofNat (pre.length + k))

def LoopFaults (n : Nat) (rest : List UInt8) : Prop :=
  ∀ m v depth pre, Reads m v (pre ++ rest) → rest.length < depth →
    parseElems (respParse m depth) v v.length n (Int64.ofNat pre.length) = .error .bounds

theorem parseElems_add (f : StringView → Except Fault RespValue) (v : StringView) (len : Int64) (n k : Nat) :
    ∀ offset, parseElems f v len (n + k) offset =
      (parseElems f v len n offset).bind (parseElems f v len k) := by
  induction n with
  | zero =>
    intro offset
    rw [Nat.zero_add]
    rfl
  | succ n ih =>
    intro offset
    rw [Nat.add_right_comm]
    unfold parseElems
    cases v.slice offset len with
    | error e => rfl
    | ok w =>
      show (f w).bind _ = ((f w).bind _).bind _
      cases f w with
      | error e => rfl
      | ok r => exact ih _

section Loop

variable {rest : List UInt8} {n k j : Nat}

theorem loopTakes_zero (rest : List UInt8) : LoopTakes 0 rest 0 :=
  fun _ _ _ _ _ _ => rfl

theorem parseElems_succ {m : Mem} {v : StringView} {depth : Nat} {pre : List UInt8}
    (h : Reads m v (pre ++ rest)) (hdepth : rest.length < depth) (ht : Takes rest k) (n : Nat) :
    parseElems (respParse m depth) v v.length (n + 1) (Int64.ofNat pre.length) =
      parseElems (respParse m depth) v v.length n (Int64.ofNat (pre.length + k)) := by
  obtain ⟨w, hslice, hw⟩ := h.rest
  obtain ⟨r, hr, hk⟩ := ht m w depth hw hdepth
  conv_lhs => unfold parseElems
  rw [hslice, Int64.ofNat_add, ← hk]
  show (respParse m depth w).bind _ = _
  rw [hr]
  rfl

/-- **Some elements and then others.** -/
theorem LoopTakes.append {i : Nat} (ht : LoopTakes n rest k) (hk : k ≤ rest.length)
    (hl : LoopTakes i (rest.drop k) j) : LoopTakes (n + i) rest (k + j) := by
  intro m v depth pre h hdepth
  have hmore := hl m v depth (pre ++ rest.take k)
    (by rwa [List.append_assoc, List.take_append_drop]) (by rw [List.length_drop]; omega)
  rw [List.length_append, List.length_take_of_le hk] at hmore
  rw [parseElems_add, ht m v depth pre h hdepth]
  show parseElems _ v v.length i (Int64.ofNat (pre.length + k)) = _
  rw [hmore, Nat.add_assoc]

theorem LoopTakes.last (ht : Takes rest k) : LoopTakes 1 rest k :=
  fun _ _ _ _ h hdepth => parseElems_succ h hdepth ht 0

/-- **One more element.** -/
theorem LoopTakes.succ (ht : Takes rest k) (hk : k ≤ rest.length) (hl : LoopTakes n (rest.drop k) j) :
    LoopTakes (n + 1) rest (k + j) := by
  rw [Nat.add_comm n]
  exact (LoopTakes.last ht).append hk hl

theorem LoopFaults.succ (ht : Takes rest k) (hk : k ≤ rest.length) (hl : LoopFaults n (rest.drop k)) :
    LoopFaults (n + 1) rest := by
  intro m v depth pre h hdepth
  have hmore := hl m v depth (pre ++ rest.take k)
    (by rwa [List.append_assoc, List.take_append_drop]) (by rw [List.length_drop]; omega)
  rw [List.length_append, List.length_take_of_le hk] at hmore
  rw [parseElems_succ h hdepth ht, hmore]

theorem LoopFaults.first (hf : Faults rest) (n : Nat) : LoopFaults (n + 1) rest := by
  intro m v depth pre h hdepth
  obtain ⟨w, hslice, hw⟩ := h.rest
  unfold parseElems
  rw [hslice]
  show (respParse m depth w).bind _ = _
  rw [hf m w depth hw hdepth]
  rfl

theorem LoopTakes.stuck (ht : Takes rest 0) (n : Nat) : LoopTakes n rest 0 := by
  induction n with
  | zero => exact loopTakes_zero rest
  | succ n ih => exact LoopTakes.succ ht (Nat.zero_le _) ih

theorem LoopFaults.beyond {gap : Nat} (ht : Takes rest (rest.length + gap)) (hpos : 0 < gap)
    (hgap : gap ≤ 2) (n : Nat) : LoopFaults (n + 2) rest := by
  intro m v depth pre h hdepth
  have hlt := h.lt
  rw [List.length_append] at hlt
  rw [parseElems_succ h hdepth ht]
  unfold parseElems
  rw [slice_fault]
  · rfl
  · rw [h.length, toInt_ofNat64 h.lt, List.length_append]
    by_cases hwrap : pre.length + (rest.length + gap) < 2 ^ 63
    · rw [toInt_ofNat64 hwrap]
      omega
    · rw [ofNat64_wrapped (Nat.not_lt.mp hwrap) (by omega)]
      omega

end Loop

/-! ### One value -/

/-- A bulk string whose text is there, but not the two bytes after it; `gap` of these are missing. -/
structure Cut (bytes line rest : List UInt8) (gap : Nat) : Prop where
  eq : bytes = 36 :: (line ++ 13 :: 10 :: rest)
  noCrlf : NoCrlf line
  length : ∃ d, declared line = Int64.ofNat d ∧ d ≤ rest.length ∧ rest.length + gap = d + 2
  pos : 0 < gap

section Value

variable {b : UInt8} {line rest : List UInt8} {d k gap : Nat}

theorem length_value (b : UInt8) (line rest : List UInt8) :
    (b :: (line ++ 13 :: 10 :: rest)).length = line.length + 3 + rest.length := by
  simp only [List.length_cons, List.length_append]
  omega

theorem value_eq (b : UInt8) (line rest : List UInt8) :
    b :: (line ++ 13 :: 10 :: rest) = (b :: (line ++ [13, 10])) ++ rest := by
  simp

theorem length_header (b : UInt8) (line : List UInt8) :
    (b :: (line ++ [13, 10])).length = line.length + 3 := by
  simp

theorem exists_depth {b : UInt8} {line rest : List UInt8} {depth : Nat}
    (h : (b :: (line ++ 13 :: 10 :: rest)).length < depth) : ∃ e, depth = e + 1 ∧ rest.length < e := by
  rw [length_value] at h
  exact ⟨depth - 1, by omega, by omega⟩

theorem takes_line (hb : b = 43 ∨ b = 45 ∨ b = 58) (hno : NoCrlf line) :
    Takes (b :: (line ++ 13 :: 10 :: rest)) (line.length + 3) := by
  intro m v depth h hdepth
  obtain ⟨e, rfl, -⟩ := exists_depth hdepth
  rw [respParse_line h hno]
  rcases hb with rfl | rfl | rfl
  · exact ⟨_, parseRespText_eq h respSimpleString, rfl⟩
  · exact ⟨_, parseRespText_eq h respError, rfl⟩
  · exact ⟨_, parseRespInteger_eq h, rfl⟩

theorem takes_null (hb : b = 36 ∨ b = 42) (hno : NoCrlf line) (hneg : declared line < 0) :
    Takes (b :: (line ++ 13 :: 10 :: rest)) (line.length + 3) := by
  intro m v depth h hdepth
  obtain ⟨e, rfl, -⟩ := exists_depth hdepth
  rw [respParse_line h hno]
  rcases hb with rfl | rfl
  · exact ⟨_, bulkString_null h hneg, rfl⟩
  · exact ⟨_, array_null h _ hneg, rfl⟩

theorem takes_bulk (hno : NoCrlf line) (hd : declared line = Int64.ofNat d) (hfit : d ≤ rest.length) :
    Takes (36 :: (line ++ 13 :: 10 :: rest)) (line.length + 3 + d + 2) := by
  intro m v depth h hdepth
  obtain ⟨e, rfl, -⟩ := exists_depth hdepth
  rw [respParse_line h hno]
  exact ⟨_, bulkString_whole h hd hfit, rfl⟩

theorem Cut.le_two {bytes : List UInt8} (h : Cut bytes line rest gap) : gap ≤ 2 := by
  obtain ⟨d, -, hfit, hgap⟩ := h.length
  omega

theorem Cut.takes {bytes : List UInt8} (h : Cut bytes line rest gap) :
    Takes bytes (bytes.length + gap) := by
  obtain ⟨rfl, hno, ⟨d, hd, hfit, hgap⟩, -⟩ := h
  have ht : Takes (36 :: (line ++ 13 :: 10 :: rest)) _ := takes_bulk hno hd hfit
  rwa [length_value, Nat.add_assoc (line.length + 3) rest.length, hgap, ← Nat.add_assoc]

/-- **An array**, when the loop has moved on by `k` bytes inside of the input. -/
theorem array_value {m : Mem} {v : StringView} {depth : Nat}
    (h : Reads m v (42 :: (line ++ 13 :: 10 :: rest))) (hno : NoCrlf line)
    (hd : declared line = Int64.ofNat d) (hlt : d < 2 ^ 63) (hl : LoopTakes d rest k) (hk : k ≤ rest.length)
    (hdepth : rest.length < depth) :
    respParse m (depth + 1) v = .ok ⟨respArray, 0, v.ptr + UInt64.ofNat (line.length + 3), Int64.ofNat k,
      Int64.ofNat d, Int64.ofNat (line.length + 3 + k)⟩ := by
  have hlen := length_line h
  have hloop := hl m v depth (42 :: (line ++ [13, 10])) (by rwa [← value_eq]) hdepth
  rw [length_header] at hloop
  rw [respParse_line h hno]
  show parseRespArray m (respParse m depth) v _ v.length = _
  rw [array_eq h _ hd hlt, hloop]
  show (if Int64.ofNat (line.length + 3 + k) > v.length then _ else _) = _
  rw [if_neg, (h.slice (a := line.length + 3) (b := line.length + 3 + k) (by omega)
    (by rw [length_value]; omega)).1]
  · show Except.ok (RespValue.mk respArray 0 _ (Int64.ofNat (line.length + 3 + k) - _) _ _) = _
    rw [ofNat64_sub (by omega), Nat.add_sub_cancel_left]
  · rw [gt_iff_lt, h.length, length_value, ofNat64_lt (by omega) (by omega)]
    omega

theorem array_beyond {m : Mem} {v : StringView} {depth : Nat}
    (h : Reads m v (42 :: (line ++ 13 :: 10 :: rest))) (hno : NoCrlf line)
    (hd : declared line = Int64.ofNat d) (hlt : d < 2 ^ 63) (hl : LoopTakes d rest (rest.length + gap))
    (hpos : 0 < gap) (hfit : (42 :: (line ++ 13 :: 10 :: rest)).length + gap < 2 ^ 63)
    (hdepth : rest.length < depth) : respParse m (depth + 1) v = .ok respNil := by
  have hloop := hl m v depth (42 :: (line ++ [13, 10])) (by rwa [← value_eq]) hdepth
  rw [length_header, ← Nat.add_assoc, ← length_value 42] at hloop
  rw [respParse_line h hno]
  show parseRespArray m (respParse m depth) v _ v.length = _
  rw [array_eq h _ hd hlt, hloop]
  show (if Int64.ofNat _ > v.length then _ else _) = _
  rw [if_pos]
  rw [gt_iff_lt, h.length, ofNat64_lt h.lt hfit]
  omega

theorem array_wrapped {m : Mem} {v : StringView} {depth : Nat}
    (h : Reads m v (42 :: (line ++ 13 :: 10 :: rest))) (hno : NoCrlf line)
    (hd : declared line = Int64.ofNat d) (hlt : d < 2 ^ 63) (hl : LoopTakes d rest (rest.length + gap))
    (hgap : gap ≤ 2) (hwrap : 2 ^ 63 ≤ (42 :: (line ++ 13 :: 10 :: rest)).length + gap)
    (hdepth : rest.length < depth) : respParse m (depth + 1) v = .error .bounds := by
  have hlen := h.lt
  have hloop := hl m v depth (42 :: (line ++ [13, 10])) (by rwa [← value_eq]) hdepth
  rw [length_header, ← Nat.add_assoc, ← length_value 42] at hloop
  have hend := ofNat64_wrapped hwrap (by omega)
  rw [respParse_line h hno]
  show parseRespArray m (respParse m depth) v _ v.length = _
  rw [array_eq h _ hd hlt, hloop]
  show (if Int64.ofNat _ > v.length then _ else _) = _
  rw [if_neg, slice_fault]
  · rfl
  · rw [hend, toInt_ofNat64 (by rw [length_value] at hlen; omega)]
    omega
  · rw [gt_iff_lt, Int64.lt_iff_toInt_lt, hend, h.length, toInt_ofNat64 h.lt]
    omega

theorem array_fault {m : Mem} {v : StringView} {depth : Nat}
    (h : Reads m v (42 :: (line ++ 13 :: 10 :: rest))) (hno : NoCrlf line)
    (hd : declared line = Int64.ofNat d) (hlt : d < 2 ^ 63) (hl : LoopFaults d rest)
    (hdepth : rest.length < depth) : respParse m (depth + 1) v = .error .bounds := by
  have hloop := hl m v depth (42 :: (line ++ [13, 10])) (by rwa [← value_eq]) hdepth
  rw [length_header] at hloop
  rw [respParse_line h hno]
  show parseRespArray m (respParse m depth) v _ v.length = _
  rw [array_eq h _ hd hlt, hloop]
  rfl

theorem takes_array (hno : NoCrlf line) (hd : declared line = Int64.ofNat d) (hlt : d < 2 ^ 63)
    (hl : LoopTakes d rest k) (hk : k ≤ rest.length) :
    Takes (42 :: (line ++ 13 :: 10 :: rest)) (line.length + 3 + k) := by
  intro m v depth h hdepth
  obtain ⟨e, rfl, he⟩ := exists_depth hdepth
  exact ⟨_, array_value h hno hd hlt hl hk he, rfl⟩

theorem takes_nothing {bytes : List UInt8} (h : ∀ b line rest, bytes = b :: (line ++ 13 :: 10 :: rest) →
    NoCrlf line → b ≠ 43 ∧ b ≠ 45 ∧ b ≠ 58 ∧ b ≠ 36 ∧ b ≠ 42) {m : Mem} {v : StringView} {depth : Nat}
    (hv : Reads m v bytes) : respParse m (depth + 1) v = .ok respNil := by
  cases bytes with
  | nil => exact respParse_nil hv depth
  | cons b t =>
    rcases exists_line t with hno | ⟨line, rest, rfl, hno⟩
    · exact respParse_noLine hv hno depth
    · obtain ⟨h1, h2, h3, h4, h5⟩ := h b line rest rfl hno
      rw [respParse_line hv hno]
      simp only [beq_iff_eq, h1, h2, h3, h4, h5, if_false]

end Value

/-! ### Complete values are taken -/

theorem loopTakes_of_first {n k j : Nat} {x y z : List UInt8} (ht : Takes (x ++ (y ++ z)) k)
    (hk : k = x.length) (hl : LoopTakes n (y ++ z) j) (hj : j = y.length) :
    LoopTakes (n + 1) ((x ++ y) ++ z) (x ++ y).length := by
  rw [List.append_assoc, List.length_append, ← hk, ← hj]
  refine LoopTakes.succ ht (by rw [hk, List.length_append]; omega) ?_
  rw [hk, List.drop_left]
  exact hl

/-- **Complete values are taken one by one.** -/
theorem loopTakes_of_values : ∀ {size n : Nat} {x : List UInt8}, x.length ≤ size → Values n x →
    ∀ y, LoopTakes n (x ++ y) x.length := by
  intro size
  induction size with
  | zero =>
    intro n x hsize h y
    cases h with
    | nil => exact loopTakes_zero y
    | line | null | bulk | array => simp at hsize
  | succ size ih =>
    intro n x hsize h y
    cases h with
    | nil => exact loopTakes_zero y
    | @line n b line rest hb hno h =>
      rw [length_value] at hsize
      have ht := @takes_line b line (rest ++ y) hb hno
      rw [value_eq] at ht ⊢
      exact loopTakes_of_first ht (length_header b line).symm (ih (by omega) h y) rfl
    | @null n b line rest hb hno hneg h =>
      rw [length_value] at hsize
      have ht := @takes_null b line (rest ++ y) hb hno hneg
      rw [value_eq] at ht ⊢
      exact loopTakes_of_first ht (length_header b line).symm (ih (by omega) h y) rfl
    | @bulk n d line text rest hno hd hlen h =>
      rw [length_value, List.length_append] at hsize
      have ht := @takes_bulk line (text ++ (rest ++ y)) d hno hd (by rw [List.length_append]; omega)
      rw [value_eq, ← List.append_assoc] at ht ⊢
      refine loopTakes_of_first ht ?_ (ih (by omega) h y) rfl
      rw [List.length_append, length_header, hlen]
      omega
    | @array n d line rest hno hd hlt h =>
      rw [length_value] at hsize
      obtain ⟨a, b, rfl, ha, hb⟩ := h.split rfl
      rw [List.length_append] at hsize
      have hl := ih (by omega) ha (b ++ y)
      have ht := takes_array hno hd hlt hl (by rw [List.length_append]; omega)
      rw [value_eq, ← List.append_assoc] at ht ⊢
      refine loopTakes_of_first ht ?_ (ih (by omega) hb y) rfl
      rw [List.length_append, length_header]

theorem Values.loopTakes {n k : Nat} {bytes : List UInt8} (h : Values n (bytes.take k))
    (hk : k ≤ bytes.length) :
    LoopTakes n bytes k := by
  have hl := loopTakes_of_values (Nat.le_refl _) h (bytes.drop k)
  rwa [List.take_append_drop, List.length_take_of_le hk] at hl

/-- **The last element is cut.** -/
theorem LoopTakes.cut {n k gap : Nat} {rest line text : List UInt8} (h : Values n (rest.take k))
    (hk : k ≤ rest.length) (hc : Cut (rest.drop k) line text gap) :
    LoopTakes (n + 1) rest (rest.length + gap) := by
  have hl := LoopTakes.append (h.loopTakes hk) hk (LoopTakes.last hc.takes)
  rwa [List.length_drop, ← Nat.add_assoc, Nat.add_sub_cancel' hk] at hl

/-! ### What else a value can be -/

/-- A value is complete; or it is not, and what the parser finds behind it is not there; or it is a bulk
string that is cut; or it makes the parser go out of its input. -/
inductive Outcome (bytes : List UInt8) : Prop
  | whole {k : Nat} (hk : k ≤ bytes.length) (h : Values 1 (bytes.take k)) (ht : Takes bytes k)
  | stuck {k : Nat} (hk : k ≤ bytes.length) (ht : Takes bytes k) (hs : Takes (bytes.drop k) 0)
  | cut {line rest : List UInt8} {gap : Nat} (hc : Cut bytes line rest gap)
  | fault (h : Faults bytes)

theorem Outcome.nothing {bytes : List UInt8} (h : ∀ m v depth, Reads m v bytes → bytes.length < depth →
    respParse m depth v = .ok respNil) : Outcome bytes :=
  .stuck (Nat.zero_le _) (fun m v depth hv hdepth => ⟨_, h m v depth hv hdepth, rfl⟩)
    fun m v depth hv hdepth => ⟨_, h m v depth hv hdepth, rfl⟩

/-- The same for the loop over `n` elements. -/
inductive LoopOutcome (n : Nat) (rest : List UInt8) : Prop
  | whole {k : Nat} (hk : k ≤ rest.length) (h : Values n (rest.take k)) (ht : LoopTakes n rest k)
  | stuck {k : Nat} (hk : k ≤ rest.length) (ht : LoopTakes n rest k) (hs : Takes (rest.drop k) 0)
  | cut {i k gap : Nat} {line text : List UInt8} (hn : n = i + 1) (hk : k ≤ rest.length)
      (h : Values i (rest.take k)) (hc : Cut (rest.drop k) line text gap)
  | fault (h : LoopFaults n rest)

/-- **What the loop can find**, when this is known for one value. -/
theorem loop_outcome {size : Nat} (hone : ∀ x : List UInt8, x.length ≤ size → Outcome x) :
    ∀ (n : Nat) (rest : List UInt8), rest.length ≤ size → LoopOutcome n rest := by
  intro n
  induction n with
  | zero => exact fun rest _ => .whole (Nat.zero_le _) .nil (loopTakes_zero rest)
  | succ n ih =>
    intro rest hsize
    cases hone rest hsize with
    | fault h => exact .fault (LoopFaults.first h n)
    | cut hc =>
      cases n with
      | zero => exact .cut rfl (Nat.zero_le _) .nil hc
      | succ n => exact .fault (LoopFaults.beyond hc.takes hc.pos hc.le_two n)
    | @stuck k hk ht hs => exact .stuck hk (LoopTakes.succ ht hk (LoopTakes.stuck hs n)) hs
    | @whole k hk h ht =>
      have hvalues : ∀ {i j : Nat}, j ≤ (rest.drop k).length → Values i ((rest.drop k).take j) →
          k + j ≤ rest.length ∧ Values (i + 1) (rest.take (k + j)) := by
        intro i j hj hv
        rw [List.length_drop] at hj
        rw [List.take_add, Nat.add_comm i]
        exact ⟨by omega, h.append hv⟩
      cases ih (rest.drop k) (by rw [List.length_drop]; omega) with
      | fault h => exact .fault (LoopFaults.succ ht hk h)
      | stuck hj hl hs =>
        rw [List.drop_drop] at hs
        rw [List.length_drop] at hj
        exact .stuck (by omega) (LoopTakes.succ ht hk hl) hs
      | whole hj hv hl => exact .whole (hvalues hj hv).1 (hvalues hj hv).2 (LoopTakes.succ ht hk hl)
      | cut hn hj hv hc =>
        rw [List.drop_drop] at hc
        exact .cut (by rw [hn]) (hvalues hj hv).1 (hvalues hj hv).2 hc

/-- **What one value can be.** -/
theorem outcome : ∀ {size : Nat} {bytes : List UInt8}, bytes.length ≤ size → size + 2 < 2 ^ 63 →
    Outcome bytes := by
  intro size
  induction size with
  -- Without a byte the parser takes nothing.
  | zero =>
    intro bytes hsize _
    obtain rfl := List.length_eq_zero_iff.mp (Nat.le_zero.mp hsize)
    have hnil : Takes [] 0 := by
      intro m v depth h hdepth
      obtain ⟨e, rfl⟩ : ∃ e, depth = e + 1 := ⟨depth - 1, by omega⟩
      exact ⟨_, respParse_nil h e, rfl⟩
    exact .stuck (Nat.le_refl 0) hnil hnil
  | succ size ih =>
    intro bytes hsize hfit
    -- A value begins with one of five bytes and a line.
    by_cases hkind : ∃ b line rest, bytes = b :: (line ++ 13 :: 10 :: rest) ∧ NoCrlf line ∧
        (b = 43 ∨ b = 45 ∨ b = 58 ∨ b = 36 ∨ b = 42)
    · obtain ⟨b, line, rest, rfl, hno, hb⟩ := hkind
      have htake : (b :: (line ++ 13 :: 10 :: rest)).take (line.length + 3) =
          b :: (line ++ 13 :: 10 :: []) := by
        rw [value_eq, ← length_header b line, List.take_left, value_eq, List.append_nil]
      have hshort : line.length + 3 ≤ (b :: (line ++ 13 :: 10 :: rest)).length := by
        rw [length_value]
        omega
      by_cases hline : b = 43 ∨ b = 45 ∨ b = 58
      · refine .whole hshort ?_ (takes_line hline hno)
        rw [htake]
        exact .line hline hno .nil
      · have hb : b = 36 ∨ b = 42 := by tauto
        -- A negative length is the null value, for a bulk string and for an array.
        by_cases hneg : declared line < 0
        · refine .whole hshort ?_ (takes_null hb hno hneg)
          rw [htake]
          exact .null hb hno hneg .nil
        · obtain ⟨d, hlt, hd, -⟩ := exists_ofNat64 hneg
          rw [length_value] at hsize
          rcases hb with rfl | rfl
          -- The offset of the end wraps around for a length close to `2 ^ 63`.
          · by_cases hsum : 2 ^ 63 ≤ line.length + 3 + d
            · refine .fault fun m v depth h hdepth => ?_
              obtain ⟨e, rfl, -⟩ := exists_depth hdepth
              rw [respParse_line h hno]
              exact bulkString_wrapped h hd hlt hsum
            by_cases htext : d ≤ rest.length
            -- The text is there, but perhaps not the two bytes behind it.
            · by_cases hend : d + 2 ≤ rest.length
              · refine .whole (by rw [length_value]; omega) ?_ (takes_bulk hno hd htext)
                rw [value_eq, Nat.add_assoc, ← length_header 36 line, List.take_length_add_append,
                  ← value_eq, ← List.append_nil (List.take _ rest)]
                exact .bulk hno hd (List.length_take_of_le hend) .nil
              · exact .cut ⟨rfl, hno, ⟨d, hd, htext, Nat.add_sub_cancel' (by omega)⟩, by omega⟩
            · refine .nothing fun m v depth h hdepth => ?_
              obtain ⟨e, rfl, -⟩ := exists_depth hdepth
              rw [respParse_line h hno]
              exact bulkString_short h hd (by omega) (by omega)
          -- An array ends as its loop over the elements does.
          · cases loop_outcome (fun x hx => ih hx (by omega)) d rest (by omega) with
            | fault hl =>
              refine .fault fun m v depth h hdepth => ?_
              obtain ⟨e, rfl, he⟩ := exists_depth hdepth
              exact array_fault h hno hd hlt hl he
            | @cut i k gap _ _ hn hk hv hc =>
              refine .nothing fun m v depth h hdepth => ?_
              obtain ⟨e, rfl, he⟩ := exists_depth hdepth
              have hgap := hc.le_two
              refine array_beyond h hno hd hlt ?_ hc.pos (by rw [length_value]; omega) he
              rw [hn]
              exact LoopTakes.cut hv hk hc
            | @stuck k hk hl hs =>
              refine .stuck (by rw [length_value]; omega) (takes_array hno hd hlt hl hk) ?_
              rwa [value_eq, ← length_header 42 line, List.drop_length_add_append]
            | @whole k hk hv hl =>
              refine .whole (by rw [length_value]; omega) ?_ (takes_array hno hd hlt hl hk)
              rw [value_eq, ← length_header 42 line, List.take_length_add_append, ← value_eq]
              exact .array hno hd hlt hv
    · refine .nothing fun m v depth h hdepth => ?_
      obtain ⟨e, rfl⟩ : ∃ e, depth = e + 1 := ⟨depth - 1, by omega⟩
      refine takes_nothing (fun b line rest heq hno => ?_) h
      have hother : ¬(b = 43 ∨ b = 45 ∨ b = 58 ∨ b = 36 ∨ b = 42) :=
        fun hb => hkind ⟨b, line, rest, heq, hno, hb⟩
      tauto

/-! ### Inside of the input -/

/-- The value stays inside of the bytes: the bytes it consumes, its text, and the elements of an array, which
are complete and end where the value ends. -/
structure Inside (v : StringView) (bytes : List UInt8) (r : RespValue) : Prop where
  consumed : ∃ k ≤ bytes.length, r.bytesConsumed = Int64.ofNat k
  text : r.typeTag = respSimpleString ∨ r.typeTag = respError ∨ r.typeTag = respBulkString →
    ∃ a n, a + n ≤ bytes.length ∧ r.strPtr = v.ptr + UInt64.ofNat a ∧ r.strLen = Int64.ofNat n
  elements : r.typeTag = respArray → ∃ a n d, a + n ≤ bytes.length ∧ r.strPtr = v.ptr + UInt64.ofNat a ∧
    r.strLen = Int64.ofNat n ∧ r.bytesConsumed = Int64.ofNat (a + n) ∧ d < 2 ^ 63 ∧
    r.arrayCount = Int64.ofNat d ∧ Values d ((bytes.drop a).take n)

/-- What the parser takes for granted: a bulk string that has arrived is followed by two more bytes, and an
array has arrived as a whole, unless its last element is a bulk string that is cut. -/
structure Expected (bytes : List UInt8) : Prop where
  bulk : ∀ line rest d, bytes = 36 :: (line ++ 13 :: 10 :: rest) → NoCrlf line → d < 2 ^ 63 →
    declared line = Int64.ofNat d →
    line.length + 3 + d < 2 ^ 63 ∧ (rest.length < d ∨ d + 2 ≤ rest.length)
  array : ∀ line rest d, bytes = 42 :: (line ++ 13 :: 10 :: rest) → NoCrlf line → d < 2 ^ 63 →
    declared line = Int64.ofNat d →
    (∃ k ≤ rest.length, Values d (rest.take k)) ∨
    ∃ i k cutLine text gap, d = i + 1 ∧ k ≤ rest.length ∧ Values i (rest.take k) ∧
      Cut (rest.drop k) cutLine text gap ∧ bytes.length + gap < 2 ^ 63

section Inside

variable {m : Mem} {v : StringView} {bytes : List UInt8}

theorem inside_nil (v : StringView) (bytes : List UInt8) : Inside v bytes respNil where
  consumed := ⟨0, Nat.zero_le _, rfl⟩
  text h := by
    rcases h with h | h | h
    · exact absurd h (by decide)
    · exact absurd h (by decide)
    · exact absurd h (by decide)
  elements h := absurd h (by decide)

theorem inside_line {r : RespValue} {k : Nat} (hk : k ≤ bytes.length) (hr : r.bytesConsumed = Int64.ofNat k)
    (htag : r.typeTag = respInteger ∨ r.typeTag = respNull) : Inside v bytes r where
  consumed := ⟨k, hk, hr⟩
  text h := by
    rcases htag with htag | htag <;> rw [htag] at h <;> exact absurd h (by decide)
  elements h := by
    rcases htag with htag | htag <;> rw [htag] at h <;> exact absurd h (by decide)

theorem inside_text {r : RespValue} {a n k : Nat} (hk : k ≤ bytes.length) (han : a + n ≤ bytes.length)
    (hr : r.bytesConsumed = Int64.ofNat k) (hptr : r.strPtr = v.ptr + UInt64.ofNat a)
    (hlen : r.strLen = Int64.ofNat n) (htag : r.typeTag ≠ respArray) : Inside v bytes r where
  consumed := ⟨k, hk, hr⟩
  text _ := ⟨a, n, han, hptr, hlen⟩
  elements h := absurd h htag

variable {line rest : List UInt8} {d : Nat}

/-- An array that was returned is inside of the input if and only if its elements are complete. -/
theorem inside_array_iff (h : Reads m v (42 :: (line ++ 13 :: 10 :: rest))) {k : Nat} (hk : k ≤ rest.length)
    (hlt : d < 2 ^ 63) :
    Inside v (42 :: (line ++ 13 :: 10 :: rest)) ⟨respArray, 0, v.ptr + UInt64.ofNat (line.length + 3),
      Int64.ofNat k, Int64.ofNat d, Int64.ofNat (line.length + 3 + k)⟩ ↔ Values d (rest.take k) := by
  have hlen := h.lt
  have hregion : (42 :: (line ++ 13 :: 10 :: rest)).drop (line.length + 3) = rest := by
    rw [value_eq, ← length_header 42 line, List.drop_left]
  constructor
  · intro hin
    obtain ⟨a, n, d', han, hptr, hn, -, hlt', hd', hvalues⟩ := hin.elements rfl
    have hd : d = d' := (ofNat64_inj hlt hlt').mp hd'
    have hn : k = n := (ofNat64_inj (by rw [length_value] at hlen; omega) (by omega)).mp hn
    have ha : line.length + 3 = a := by
      have hnat := congrArg UInt64.toNat ((UInt64.add_right_inj v.ptr).mp hptr)
      rw [length_value] at hlen
      rwa [UInt64.toNat_ofNat', UInt64.toNat_ofNat', Nat.mod_eq_of_lt (by omega),
        Nat.mod_eq_of_lt (by rw [length_value] at han; omega)] at hnat
    rwa [hd, hn, ← hregion, ha]
  · intro hvalues
    refine ⟨⟨line.length + 3 + k, by rw [length_value]; omega, rfl⟩, ?_, fun _ => ?_⟩
    · intro htag
      change respArray = _ ∨ respArray = _ ∨ respArray = _ at htag
      exact absurd htag (by decide)
    · refine ⟨line.length + 3, k, d, by rw [length_value]; omega, rfl, rfl, rfl, hlt, rfl, ?_⟩
      rwa [hregion]

/-! ### What is expected of one value -/

/-- Nothing is expected of a value that is neither a bulk string nor an array with a count. -/
theorem expected_other (h : ∀ line rest, bytes = 36 :: (line ++ 13 :: 10 :: rest) ∨
    bytes = 42 :: (line ++ 13 :: 10 :: rest) → NoCrlf line → declared line < 0) : Expected bytes := by
  have hneg : ∀ {line : List UInt8} {d : Nat}, d < 2 ^ 63 → declared line = Int64.ofNat d →
      ¬declared line < 0 := by
    intro line d hlt hd
    rw [hd, show (0 : Int64) = Int64.ofNat 0 from rfl, ofNat64_lt hlt (by decide)]
    exact Nat.not_lt_zero _
  constructor
  · intro line rest d heq hno hlt hd
    exact absurd (h line rest (.inl heq) hno) (hneg hlt hd)
  · intro line rest d heq hno hlt hd
    exact absurd (h line rest (.inr heq) hno) (hneg hlt hd)

theorem expected_bulk_iff (hno : NoCrlf line) (hlt : d < 2 ^ 63) (hd : declared line = Int64.ofNat d) :
    Expected (36 :: (line ++ 13 :: 10 :: rest)) ↔
      line.length + 3 + d < 2 ^ 63 ∧ (rest.length < d ∨ d + 2 ≤ rest.length) := by
  constructor
  · exact fun h => h.bulk line rest d rfl hno hlt hd
  · intro h
    constructor
    · intro line' rest' d' heq hno' hlt' hd'
      obtain ⟨rfl, rfl⟩ := line_unique hno hno' (List.cons.inj heq).2
      obtain rfl := (ofNat64_inj hlt hlt').mp (hd.symm.trans hd')
      exact h
    · intro line' rest' d' heq
      exact absurd (List.cons.inj heq).1 (by decide)

theorem expected_array_iff (hno : NoCrlf line) (hlt : d < 2 ^ 63) (hd : declared line = Int64.ofNat d) :
    Expected (42 :: (line ++ 13 :: 10 :: rest)) ↔
      (∃ k ≤ rest.length, Values d (rest.take k)) ∨
      ∃ i k cutLine text gap, d = i + 1 ∧ k ≤ rest.length ∧ Values i (rest.take k) ∧
        Cut (rest.drop k) cutLine text gap ∧ (42 :: (line ++ 13 :: 10 :: rest)).length + gap < 2 ^ 63 := by
  constructor
  · exact fun h => h.array line rest d rfl hno hlt hd
  · intro h
    constructor
    · intro line' rest' d' heq
      exact absurd (List.cons.inj heq).1 (by decide)
    · intro line' rest' d' heq hno' hlt' hd'
      obtain ⟨rfl, rfl⟩ := line_unique hno hno' (List.cons.inj heq).2
      obtain rfl := (ofNat64_inj hlt hlt').mp (hd.symm.trans hd')
      exact h

/-! ### When the parser stays inside -/

/-- The parser ends, and it stays inside if and only if `p`. -/
def StaysIff (m : Mem) (v : StringView) (depth : Nat) (bytes : List UInt8) (p : Prop) : Prop :=
  respParse m depth v ≠ .error .fuel ∧ ((∃ r, respParse m depth v = .ok r ∧ Inside v bytes r) ↔ p)

theorem staysIff_ok {depth : Nat} {r : RespValue} {p : Prop} (hr : respParse m depth v = .ok r)
    (h : Inside v bytes r ↔ p) : StaysIff m v depth bytes p := by
  refine ⟨fun hfuel => ?_, ?_⟩
  · rw [hr] at hfuel
    cases hfuel
  · rw [← h]
    constructor
    · rintro ⟨r', hr', hin⟩
      rw [hr] at hr'
      obtain rfl := Except.ok.inj hr'
      exact hin
    · exact fun hin => ⟨r, hr, hin⟩

theorem staysIff_fault {depth : Nat} {p : Prop} (hr : respParse m depth v = .error .bounds) (h : ¬p) :
    StaysIff m v depth bytes p := by
  refine ⟨fun hfuel => ?_, fun ⟨r, hok, _⟩ => ?_, fun hp => absurd hp h⟩
  · rw [hr] at hfuel
    exact absurd (Except.error.inj hfuel) (by decide)
  · rw [hr] at hok
    cases hok

/-- **A bulk string.** -/
theorem staysIff_bulk (h : Reads m v (36 :: (line ++ 13 :: 10 :: rest))) (hno : NoCrlf line)
    (hlt : d < 2 ^ 63) (hd : declared line = Int64.ofNat d) (depth : Nat) :
    StaysIff m v (depth + 1) (36 :: (line ++ 13 :: 10 :: rest))
      (line.length + 3 + d < 2 ^ 63 ∧ (rest.length < d ∨ d + 2 ≤ rest.length)) := by
  have hlen := h.lt
  have hparse : respParse m (depth + 1) v = _ := respParse_line h hno depth
  change _ = parseRespBulkString m v _ v.length at hparse
  by_cases hsum : 2 ^ 63 ≤ line.length + 3 + d
  · rw [bulkString_wrapped h hd hlt hsum] at hparse
    exact staysIff_fault hparse (by omega)
  by_cases htext : d ≤ rest.length
  · rw [bulkString_whole h hd htext] at hparse
    refine staysIff_ok hparse ⟨?_, fun hok => ?_⟩
    · rintro ⟨⟨k, hk, hconsumed⟩, -, -⟩
      change Int64.ofNat (line.length + 3 + d + 2) = Int64.ofNat k at hconsumed
      rw [length_value] at hk hlen
      have hright : (Int64.ofNat k).toInt = k := toInt_ofNat64 (by omega)
      rw [← Int64.toInt_inj, hright] at hconsumed
      by_cases hwrap : line.length + 3 + d + 2 < 2 ^ 63
      · rw [toInt_ofNat64 hwrap] at hconsumed
        omega
      · rw [ofNat64_wrapped (by omega) (by omega)] at hconsumed
        omega
    · exact inside_text (by rw [length_value]; omega) (by rw [length_value]; omega) rfl rfl rfl
        (show respBulkString ≠ respArray by decide)
  · rw [bulkString_short h hd (by omega) (by omega)] at hparse
    exact staysIff_ok hparse ⟨fun _ => by omega, fun _ => inside_nil v _⟩

/-- **An array.** -/
theorem staysIff_array (h : Reads m v (42 :: (line ++ 13 :: 10 :: rest))) (hno : NoCrlf line)
    (hlt : d < 2 ^ 63) (hd : declared line = Int64.ofNat d) {depth : Nat} (hdepth : rest.length < depth) :
    StaysIff m v (depth + 1) (42 :: (line ++ 13 :: 10 :: rest))
      ((∃ k ≤ rest.length, Values d (rest.take k)) ∨
      ∃ i k cutLine text gap, d = i + 1 ∧ k ≤ rest.length ∧ Values i (rest.take k) ∧
        Cut (rest.drop k) cutLine text gap ∧
        (42 :: (line ++ 13 :: 10 :: rest)).length + gap < 2 ^ 63) := by
  have hlen := h.lt
  have hsize : rest.length + 2 < 2 ^ 63 := by
    rw [length_value] at hlen
    omega
  -- What the loop does is the same for any way to describe the elements.
  have hloop : ∀ {j j' : Nat}, LoopTakes d rest j → LoopTakes d rest j' →
      Int64.ofNat (line.length + 3 + j) = Int64.ofNat (line.length + 3 + j') := by
    intro j j' hj hj'
    have hrun := hj m v depth (42 :: (line ++ [13, 10])) (by rwa [← value_eq]) hdepth
    have hrun' := hj' m v depth (42 :: (line ++ [13, 10])) (by rwa [← value_eq]) hdepth
    rw [length_header] at hrun hrun'
    exact Except.ok.inj (hrun.symm.trans hrun')
  have hfault : ∀ {j : Nat}, LoopTakes d rest j → ¬LoopFaults d rest := by
    intro j hj hf
    have hrun := hj m v depth (42 :: (line ++ [13, 10])) (by rwa [← value_eq]) hdepth
    rw [hf m v depth (42 :: (line ++ [13, 10])) (by rwa [← value_eq]) hdepth] at hrun
    cases hrun
  have hbeyond : ∀ {k gap : Nat}, k ≤ rest.length → 0 < gap → gap ≤ 2 → LoopTakes d rest k →
      ¬LoopTakes d rest (rest.length + gap) := by
    intro k gap hk hpos hgap hin hout
    have heq := hloop hin hout
    rw [length_value] at hlen
    rw [← Int64.toInt_inj, toInt_ofNat64 (by omega)] at heq
    by_cases hwrap : line.length + 3 + (rest.length + gap) < 2 ^ 63
    · rw [toInt_ofNat64 hwrap] at heq
      omega
    · rw [ofNat64_wrapped (by omega) (by omega)] at heq
      omega
  have hcut : ∀ {i k gap : Nat} {cutLine text : List UInt8}, d = i + 1 → k ≤ rest.length →
      Values i (rest.take k) → Cut (rest.drop k) cutLine text gap →
      LoopTakes d rest (rest.length + gap) := by
    rintro i k gap cutLine text rfl hk hv hc
    exact LoopTakes.cut hv hk hc
  cases loop_outcome (fun x hx => outcome hx hsize) d rest (Nat.le_refl _) with
  | fault hl =>
    refine staysIff_fault (array_fault h hno hd hlt hl hdepth) ?_
    rintro (⟨k, hk, hv⟩ | ⟨i, k, cutLine, text, gap, hn, hk, hv, hc, -⟩)
    · exact hfault (hv.loopTakes hk) hl
    · exact hfault (hcut hn hk hv hc) hl
  | @whole k hk hv hl =>
    refine staysIff_ok (array_value h hno hd hlt hl hk hdepth) ?_
    rw [inside_array_iff h hk hlt]
    exact ⟨fun _ => .inl ⟨k, hk, hv⟩, fun _ => hv⟩
  | @stuck k hk hl hs =>
    refine staysIff_ok (array_value h hno hd hlt hl hk hdepth) ?_
    rw [inside_array_iff h hk hlt]
    refine ⟨fun hv => .inl ⟨k, hk, hv⟩, ?_⟩
    rintro (⟨k', hk', hv⟩ | ⟨i, k', cutLine, text, gap, hn, hk', hv, hc, -⟩)
    · have heq := hloop hl (hv.loopTakes hk')
      rw [length_value] at hlen
      rw [ofNat64_inj (by omega) (by omega)] at heq
      rwa [show k = k' by omega]
    · exact absurd (hcut hn hk' hv hc) (hbeyond hk hc.pos hc.le_two hl)
  | @cut i k gap cutLine text hn hk hv hc =>
    have hl := hcut hn hk hv hc
    by_cases hfit : (42 :: (line ++ 13 :: 10 :: rest)).length + gap < 2 ^ 63
    · refine staysIff_ok (array_beyond h hno hd hlt hl hc.pos hfit hdepth) ⟨fun _ => ?_, fun _ => ?_⟩
      · exact .inr ⟨i, k, cutLine, text, gap, hn, hk, hv, hc, hfit⟩
      · exact inside_nil v _
    · refine staysIff_fault (array_wrapped h hno hd hlt hl hc.le_two (by omega) hdepth) ?_
      rintro (⟨k', hk', hv'⟩ | ⟨i', k', cutLine', text', gap', hn', hk', hv', hc', hfit'⟩)
      · exact hbeyond hk' hc.pos hc.le_two (hv'.loopTakes hk') hl
      · -- Both ways say that the loop ends at the same place behind the input.
        have heq := hloop hl (hcut hn' hk' hv' hc')
        have hgap := hc.le_two
        rw [length_value] at hfit hfit' hlen
        rw [← Int64.toInt_inj, ofNat64_wrapped (by omega) (by omega), toInt_ofNat64 (by omega)] at heq
        omega

end Inside

/-- **The parser stays inside of its input** if and only if the input is as it expects: a bulk string whose
text is there has two more bytes, and the elements of an array have all arrived, or all but the end of the
last one.  It ends in any case. -/
theorem parse_inside_iff {m : Mem} {v : StringView} {bytes : List UInt8} {depth : Nat} (h : Reads m v bytes)
    (hdepth : bytes.length < depth) :
    respParse m depth v ≠ .error .fuel ∧
      ((∃ r, respParse m depth v = .ok r ∧ Inside v bytes r) ↔ Expected bytes) := by
  show StaysIff m v depth bytes (Expected bytes)
  by_cases hkind : ∃ b line rest, bytes = b :: (line ++ 13 :: 10 :: rest) ∧ NoCrlf line ∧
      (b = 43 ∨ b = 45 ∨ b = 58 ∨ b = 36 ∨ b = 42)
  · obtain ⟨b, line, rest, rfl, hno, hb⟩ := hkind
    obtain ⟨e, rfl, he⟩ := exists_depth hdepth
    have hparse := respParse_line h hno e
    have hlen : line.length + 3 ≤ (b :: (line ++ 13 :: 10 :: rest)).length := by
      rw [length_value]
      omega
    have hother : b ≠ 36 → b ≠ 42 → Expected (b :: (line ++ 13 :: 10 :: rest)) := by
      intro h36 h42
      refine expected_other fun line' rest' heq _ => ?_
      rcases heq with heq | heq
      · exact absurd (List.cons.inj heq).1 h36
      · exact absurd (List.cons.inj heq).1 h42
    have hneg : declared line < 0 → Expected (b :: (line ++ 13 :: 10 :: rest)) := by
      intro hneg
      refine expected_other fun line' rest' heq hno' => ?_
      obtain ⟨rfl, -⟩ := line_unique hno hno' (heq.elim (fun heq => (List.cons.inj heq).2)
        fun heq => (List.cons.inj heq).2)
      exact hneg
    rcases hb with rfl | rfl | rfl | rfl | rfl
    · exact staysIff_ok (hparse.trans (parseRespText_eq h _)) (iff_of_true
        (inside_text hlen (show 1 + line.length ≤ _ by omega) rfl rfl rfl
          (show respSimpleString ≠ respArray by decide))
        (hother (by decide) (by decide)))
    · exact staysIff_ok (hparse.trans (parseRespText_eq h _)) (iff_of_true
        (inside_text hlen (show 1 + line.length ≤ _ by omega) rfl rfl rfl
          (show respError ≠ respArray by decide))
        (hother (by decide) (by decide)))
    · exact staysIff_ok (hparse.trans (parseRespInteger_eq h)) (iff_of_true
        (inside_line hlen rfl (.inl rfl)) (hother (by decide) (by decide)))
    · by_cases hd : declared line < 0
      · exact staysIff_ok (hparse.trans (bulkString_null h hd)) (iff_of_true
          (inside_line hlen rfl (.inr rfl)) (hneg hd))
      · obtain ⟨d, hlt, hd, -⟩ := exists_ofNat64 hd
        rw [expected_bulk_iff hno hlt hd]
        exact staysIff_bulk h hno hlt hd e
    · by_cases hd : declared line < 0
      · exact staysIff_ok (hparse.trans (array_null h _ hd)) (iff_of_true
          (inside_line hlen rfl (.inr rfl)) (hneg hd))
      · obtain ⟨d, hlt, hd, -⟩ := exists_ofNat64 hd
        rw [expected_array_iff hno hlt hd]
        exact staysIff_array h hno hlt hd he
  · obtain ⟨e, rfl⟩ : ∃ e, depth = e + 1 := ⟨depth - 1, by omega⟩
    have hnone : ∀ b line rest, bytes = b :: (line ++ 13 :: 10 :: rest) → NoCrlf line →
        b ≠ 43 ∧ b ≠ 45 ∧ b ≠ 58 ∧ b ≠ 36 ∧ b ≠ 42 := by
      intro b line rest heq hno
      have hother : ¬(b = 43 ∨ b = 45 ∨ b = 58 ∨ b = 36 ∨ b = 42) :=
        fun hb => hkind ⟨b, line, rest, heq, hno, hb⟩
      tauto
    refine staysIff_ok (takes_nothing hnone h) (iff_of_true (inside_nil v bytes) ?_)
    refine expected_other fun line rest heq hno => ?_
    rcases heq with heq | heq
    · exact absurd rfl (hnone 36 line rest heq hno).2.2.2.1
    · exact absurd rfl (hnone 42 line rest heq hno).2.2.2.2

/-- An array of one complete string, `*1\r\n+a\r\n`. -/
theorem parse_inside_iff_one :
    ∃ r, respParse (Mem.store 0 [42, 49, 13, 10, 43, 97, 13, 10] fun _ => 0) 9 ⟨0, 8⟩ = .ok r ∧
      Inside ⟨0, 8⟩ [42, 49, 13, 10, 43, 97, 13, 10] r := by
  have hreads := @reads_store [42, 49, 13, 10, 43, 97, 13, 10] (by decide) 0 fun _ => 0
  refine (parse_inside_iff hreads (by decide)).2.mpr ?_
  have hcount : NoCrlf [49] := fun h => absurd h.length_le (by decide)
  have htext : NoCrlf [97] := fun h => absurd h.length_le (by decide)
  have hvalue : Values 1 [43, 97, 13, 10] := .line (.inl rfl) htext .nil
  exact (@expected_array_iff [49] [43, 97, 13, 10] 1 hcount (by decide) rfl).mpr
    (.inl ⟨4, Nat.le_refl 4, hvalue⟩)

/-- An empty bulk string whose last line has not arrived, `$0\r\n`, is returned with six bytes consumed. -/
theorem not_parse_inside : ¬∀ (m : Mem) (v : StringView) (bytes : List UInt8) (depth : Nat), Reads m v bytes →
    bytes.length < depth → ∃ r, respParse m depth v = .ok r ∧ Inside v bytes r := by
  intro h
  obtain ⟨r, hr, hin⟩ := h (Mem.store 0 [36, 48, 13, 10] fun _ => 0) ⟨0, 4⟩ [36, 48, 13, 10] 5
    (@reads_store [36, 48, 13, 10] (by decide) 0 fun _ => 0) (by decide)
  have hparse : respParse (Mem.store 0 [36, 48, 13, 10] fun _ => 0) 5 ⟨0, 4⟩ = .ok ⟨4, 0, 4, 0, 0, 6⟩ := by
    decide +kernel
  obtain rfl := Except.ok.inj (hparse.symm.trans hr)
  obtain ⟨k, hk, hconsumed⟩ := hin.consumed
  rw [show (6 : Int64) = Int64.ofNat 6 from rfl, ofNat64_inj (by decide) (Nat.lt_of_le_of_lt hk (by decide))]
    at hconsumed
  change k ≤ 4 at hk
  omega

end Keuos.Lettuce
