import Mathlib.Data.UInt
import Mathlib.Tactic.Common

/-!
# SYN cookies (`kernel/net/tcp_syn_cookie.salt`)

A SYN is answered with an initial sequence number that holds what the kernel would otherwise remember: five
bits of the time in windows of 64 ticks, three bits for the segment size, and 24 bits of a keyed hash of the
connection.  `netd_tcp.salt` has the same functions once more.

The key and the tick counter are globals of the source; here they are arguments.
-/

namespace Keuos.Tcp

/-! ### SipHash-2-4 -/

def rotl64 (x n : UInt64) : UInt64 := (x <<< n) ||| (x >>> (64 - n))

structure SipState where
  v0 : UInt64
  v1 : UInt64
  v2 : UInt64
  v3 : UInt64

/-- `sip_round`, statement by statement. -/
def sipRound (s : SipState) : SipState :=
  let s := { s with v0 := s.v0 + s.v1 }
  let s := { s with v1 := rotl64 s.v1 13 }
  let s := { s with v1 := s.v1 ^^^ s.v0 }
  let s := { s with v0 := rotl64 s.v0 32 }
  let s := { s with v2 := s.v2 + s.v3 }
  let s := { s with v3 := rotl64 s.v3 16 }
  let s := { s with v3 := s.v3 ^^^ s.v2 }
  let s := { s with v0 := s.v0 + s.v3 }
  let s := { s with v3 := rotl64 s.v3 21 }
  let s := { s with v3 := s.v3 ^^^ s.v0 }
  let s := { s with v2 := s.v2 + s.v1 }
  let s := { s with v1 := rotl64 s.v1 17 }
  let s := { s with v1 := s.v1 ^^^ s.v2 }
  { s with v2 := rotl64 s.v2 32 }

/-- One block of the message: two rounds between two exclusive ors. -/
def sipBlock (s : SipState) (m : UInt64) : SipState :=
  let s := sipRound (sipRound { s with v3 := s.v3 ^^^ m })
  { s with v0 := s.v0 ^^^ m }

def siphash24 (k0 k1 m0 m1 : UInt64) : UInt64 :=
  let s : SipState :=
    { v0 := k0 ^^^ 0x736f6d6570736575
      v1 := k1 ^^^ 0x646f72616e646f6d
      v2 := k0 ^^^ 0x6c7967656e657261
      v3 := k1 ^^^ 0x7465646279746573 }
  let s := sipBlock (sipBlock (sipBlock s m0) m1) ((16 : UInt64) <<< 56)
  let s := { s with v2 := s.v2 ^^^ 0xFF }
  let s := sipRound (sipRound (sipRound (sipRound s)))
  s.v0 ^^^ s.v1 ^^^ s.v2 ^^^ s.v3

/-! ### Cookies -/

/-- The addresses and ports of a connection. -/
structure Tuple where
  srcIp : UInt32
  dstIp : UInt32
  srcPort : UInt16
  dstPort : UInt16

/-- The secret key. -/
structure Secret where
  k0 : UInt64
  k1 : UInt64

def mssDefault : UInt32 := 3

/-- The low 24 bits of a cookie. -/
def cookieHash (key : Secret) (t : Tuple) (clientIsn : UInt32) : UInt32 :=
  let tupleHi := (t.srcIp.toUInt64 <<< 32) ||| t.dstIp.toUInt64
  let tupleLo := (t.srcPort.toUInt64 <<< 16) ||| t.dstPort.toUInt64
  ((siphash24 key.k0 key.k1 tupleHi tupleLo).toUInt32 + clientIsn) &&& 0x00FFFFFF

/-- The window of 64 ticks, in five bits. -/
def window (tick : UInt64) : UInt32 := (tick >>> 6).toUInt32 &&& 31

/-- `generate_syn_cookie`, also `handle_syn`. -/
def generateSynCookie (key : Secret) (tick : UInt64) (t : Tuple) (clientIsn : UInt32) : UInt32 :=
  let cookie := (window tick <<< 27) ||| ((mssDefault &&& 7) <<< 24) ||| cookieHash key t clientIsn
  if cookie == 0 then 1 else cookie

/-- `validate_syn_cookie`, also the checks of `handle_ack`. -/
def validateSynCookie (key : Secret) (tick : UInt64) (cookie : UInt32) (t : Tuple)
    (clientIsn : UInt32) : Bool :=
  let tCookie := (cookie >>> 27) &&& 31
  let tNow := window tick
  let dt := if tNow ≥ tCookie then tNow - tCookie else tCookie - tNow
  if dt > 2 then false else cookie &&& 0x00FFFFFF == cookieHash key t clientIsn

def mssIndexToValue (idx : UInt32) : UInt32 :=
  if idx == 0 then 536
  else if idx == 1 then 1220
  else if idx == 2 then 1440
  else if idx == 3 then 1460
  else if idx == 4 then 4312
  else if idx == 5 then 8960
  else if idx == 6 then 16384
  else if idx == 7 then 65495
  else 1460

def extractMss (cookie : UInt32) : UInt32 := mssIndexToValue ((cookie >>> 24) &&& 7)

end Keuos.Tcp
