import Keuos.Lib.Memory

/-!
# RESP

The parser and the writers of the Redis protocol (`user/lettuce/resp.salt`).

A `StringView` of the standard library is an address and a length.  `byteAt` and `slice` are valid only inside
of it, and so are the accesses to the array `tmp` of `write_i64_to_buf`: any other one is the fault `bounds`.
A loop whose rounds are used up is the fault `fuel`; `resp_parse` has rounds for its recursion.
-/

namespace Keuos.Lettuce

inductive Fault
  | bounds
  | fuel
  deriving DecidableEq, Repr

/-! ### Views -/

structure StringView where
  ptr : UInt64
  length : Int64
  deriving DecidableEq, Repr

def StringView.byteAt (m : Mem) (v : StringView) (i : Int64) : Except Fault UInt8 :=
  if 0 ≤ i ∧ i < v.length then .ok (m (v.ptr + i.toUInt64)) else .error .bounds

def StringView.slice (v : StringView) (a b : Int64) : Except Fault StringView :=
  if 0 ≤ a ∧ a ≤ b ∧ b ≤ v.length then .ok ⟨v.ptr + a.toUInt64, b - a⟩ else .error .bounds

/-! ### Values -/

def respSimpleString : Int64 := 1
def respError : Int64 := 2
def respInteger : Int64 := 3
def respBulkString : Int64 := 4
def respArray : Int64 := 5
def respNull : Int64 := 6

structure RespValue where
  typeTag : Int64
  intVal : Int64
  strPtr : UInt64
  strLen : Int64
  arrayCount : Int64
  bytesConsumed : Int64
  deriving DecidableEq, Repr

def respNil : RespValue := ⟨respNull, 0, 0, 0, 0, 0⟩

/-! ### The parser -/

/-- `find_crlf`, from the index `i` on, with `n` rounds left. -/
def findCrlf (m : Mem) (input : StringView) : Nat → Int64 → Except Fault Int64
  | 0, _ => .error .fuel
  | n + 1, i =>
    if i < input.length - 1 then do
      let a ← input.byteAt m i
      let b ← input.byteAt m (i + 1)
      if a == 13 && b == 10 then pure i else findCrlf m input n (i + 1)
    else pure (-1)

/-- The loop of `parse_int_from_view`, with `n` rounds left. -/
def parseDigits (m : Mem) (input : StringView) (stop : Int64) : Nat → Int64 → Int64 → Except Fault Int64
  | 0, _, _ => .error .fuel
  | n + 1, i, result =>
    if i < stop then do
      let b ← input.byteAt m i
      parseDigits m input stop n (i + 1) (result * 10 + (b.toUInt64.toInt64 - 48))
    else pure result

def parseIntFromView (m : Mem) (input : StringView) (start stop : Int64) : Except Fault Int64 := do
  let neg ← if start < stop then do
      let b ← input.byteAt m start
      pure (b == 45)
    else pure false
  let i := if neg then start + 1 else start
  let result ← parseDigits m input stop (input.length.toNatClampNeg + 1) i 0
  pure (if neg then 0 - result else result)

/-- A value of one line that is its text. -/
def parseRespText (typeTag : Int64) (input : StringView) (crlf : Int64) : Except Fault RespValue := do
  let sv ← input.slice 1 crlf
  pure ⟨typeTag, 0, sv.ptr, sv.length, 0, crlf + 2⟩

def parseRespSimpleString (input : StringView) (crlf : Int64) : Except Fault RespValue :=
  parseRespText respSimpleString input crlf

def parseRespError (input : StringView) (crlf : Int64) : Except Fault RespValue :=
  parseRespText respError input crlf

def parseRespInteger (m : Mem) (input : StringView) (crlf : Int64) : Except Fault RespValue := do
  let val ← parseIntFromView m input 1 crlf
  pure ⟨respInteger, val, 0, 0, 0, crlf + 2⟩

def parseRespBulkString (m : Mem) (input : StringView) (crlf len : Int64) : Except Fault RespValue := do
  let strLen ← parseIntFromView m input 1 crlf
  if strLen < 0 then pure ⟨respNull, 0, 0, 0, 0, crlf + 2⟩
  else
    let dataStart := crlf + 2
    let dataEnd := dataStart + strLen
    if dataEnd > len then pure respNil
    else do
      let sv ← input.slice dataStart dataEnd
      pure ⟨respBulkString, 0, sv.ptr, sv.length, 0, dataEnd + 2⟩

/-- The loop of `parse_resp_array`, when `n` elements are left. -/
def parseElems (respParse : StringView → Except Fault RespValue) (input : StringView) (len : Int64) :
    Nat → Int64 → Except Fault Int64
  | 0, offset => pure offset
  | n + 1, offset => do
    let remaining ← input.slice offset len
    let elem ← respParse remaining
    parseElems respParse input len n (offset + elem.bytesConsumed)

def parseRespArray (m : Mem) (respParse : StringView → Except Fault RespValue) (input : StringView)
    (crlf len : Int64) : Except Fault RespValue := do
  let count ← parseIntFromView m input 1 crlf
  if count < 0 then pure ⟨respNull, 0, 0, 0, 0, crlf + 2⟩
  else do
    let offset ← parseElems respParse input len count.toNatClampNeg (crlf + 2)
    let elemsStart := crlf + 2
    if offset > len then pure respNil
    else do
      let sv ← input.slice elemsStart offset
      pure ⟨respArray, 0, sv.ptr, offset - elemsStart, count, offset⟩

def respParse (m : Mem) : Nat → StringView → Except Fault RespValue
  | 0, _ => .error .fuel
  | depth + 1, input =>
    let len := input.length
    if len == 0 then pure respNil
    else do
      let prefixByte ← input.byteAt m 0
      let crlf ← findCrlf m input (len.toNatClampNeg + 1) 1
      if crlf < 0 then pure respNil
      else if prefixByte == 43 then parseRespSimpleString input crlf
      else if prefixByte == 45 then parseRespError input crlf
      else if prefixByte == 58 then parseRespInteger m input crlf
      else if prefixByte == 36 then parseRespBulkString m input crlf len
      else if prefixByte == 42 then parseRespArray m (respParse m depth) input crlf len
      else pure respNil

/-! ### The writers

A writer returns how many bytes it has written, and the memory. -/

/-- The loop of `write_i64_to_buf` over the digits, with `n` rounds left. -/
def writeDigits : Nat → Int64 → List UInt8 → Int64 → Except Fault (List UInt8 × Int64)
  | 0, _, _, _ => .error .fuel
  | n + 1, v, tmp, count =>
    if v > 0 then
      if 0 ≤ count ∧ count.toNatClampNeg < tmp.length then
        writeDigits n (v / 10) (tmp.set count.toNatClampNeg (v % 10 + 48).toUInt64.toUInt8) (count + 1)
      else .error .bounds
    else pure (tmp, count)

/-- The reverse copy of `write_i64_to_buf`, with `n` rounds left. -/
def reverseCopy (buf : UInt64) (tmp : List UInt8) : Nat → Int64 → Int64 → Mem → Except Fault (Int64 × Mem)
  | 0, _, _, _ => .error .fuel
  | n + 1, i, pos, m =>
    if i ≥ 0 then
      match tmp[i.toNatClampNeg]? with
      | none => .error .bounds
      | some b => reverseCopy buf tmp n (i - 1) (pos + 1) (m.write8 (buf + pos.toUInt64) b)
    else pure (pos, m)

def writeI64ToBuf (buf : UInt64) (val : Int64) (m : Mem) : Except Fault (Int64 × Mem) :=
  if val == 0 then pure (1, m.write8 buf 48)
  else do
    let neg := decide (val < 0)
    let v := if neg then 0 - val else val
    let (tmp, count) ← writeDigits 21 v (List.replicate 20 0) 0
    let pos : Int64 := if neg then 1 else 0
    let m := if neg then m.write8 buf 45 else m
    reverseCopy buf tmp 21 (count - 1) pos m

def memcpy (dst src : UInt64) (n : Int64) (m : Mem) : Mem :=
  m.copyIn (fun i => m (src + UInt64.ofNat i)) n.toNatClampNeg dst

/-- `\r\n` at an offset of the buffer. -/
def writeCrlf (buf : UInt64) (pos : Int64) (m : Mem) : Mem :=
  (m.write8 (buf + pos.toUInt64) 13).write8 (buf + (pos + 1).toUInt64) 10

/-- A line with the text `msg`. -/
def writeText (first : UInt8) (buf : UInt64) (msg : StringView) (m : Mem) : Int64 × Mem :=
  let m := m.write8 buf first
  let ml := msg.length
  let m := memcpy (buf + 1) msg.ptr ml m
  (1 + ml + 2, writeCrlf buf (1 + ml) m)

def writeSimpleString (buf : UInt64) (msg : StringView) (m : Mem) : Int64 × Mem := writeText 43 buf msg m

def writeError (buf : UInt64) (msg : StringView) (m : Mem) : Int64 × Mem := writeText 45 buf msg m

def writeInteger (buf : UInt64) (val : Int64) (m : Mem) : Except Fault (Int64 × Mem) := do
  let (numLen, m) ← writeI64ToBuf (buf + 1) val (m.write8 buf 58)
  pure (1 + numLen + 2, writeCrlf buf (1 + numLen) m)

def writeBulkString (buf : UInt64) (data : StringView) (m : Mem) : Except Fault (Int64 × Mem) := do
  let dl := data.length
  let (lenStr, m) ← writeI64ToBuf (buf + 1) dl (m.write8 buf 36)
  let pos := 1 + lenStr
  let m := writeCrlf buf pos m
  let pos := pos + 2
  let m := memcpy (buf + pos.toUInt64) data.ptr dl m
  let pos := pos + dl
  pure (pos + 2, writeCrlf buf pos m)

end Keuos.Lettuce
