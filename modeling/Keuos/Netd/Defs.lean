import Keuos.Lib.Memory
import Keuos.Lib.Run
import Keuos.Lib.Traced
import Mathlib.Data.Fintype.Pi
import Mathlib.Data.UInt

/-!
# The ARP cache of NetD (`kernel/net/netd_arp.salt`)

A table of 256 entries and a logical clock.  `lookup` and `update` stamp the entry that they use
with the next value of the clock; `update` on a full table overwrites the entry with the smallest
stamp.
-/

namespace Keuos.Netd.Arp

def arpTableSize : Nat := 256

/-- `[u8; 6]`. -/
abbrev Mac := Fin 6 → UInt8

structure ArpEntry where
  ip : UInt32
  mac : Mac
  valid : Bool
  timestamp : UInt64

/-- `ARP_TABLE`, of which the entries below 256 exist, and `ARP_CLOCK`. -/
structure ArpState where
  table : Nat → ArpEntry
  clock : UInt64

/-- `ARP_TABLE[i] = e`. -/
def ArpState.set (s : ArpState) (i : Nat) (e : ArpEntry) : ArpState :=
  { s with table := Function.update s.table i e }

/-- A scan `while i < ARP_TABLE_SIZE` that stops at the first entry with `p`, with `n` entries
left. -/
def scanFrom (p : ArpEntry → Bool) (table : Nat → ArpEntry) : Nat → Nat → Option Nat
  | 0, _ => none
  | n + 1, i => if p (table i) then some i else scanFrom p table n (i + 1)

/-- `ARP_TABLE[i].valid && ARP_TABLE[i].ip == ip`. -/
def ArpEntry.holds (ip : UInt32) (e : ArpEntry) : Bool := e.valid && e.ip == ip

/-- The loop over `j` that copies a MAC byte by byte. -/
def copyMac (out mac : Mac) : Mac :=
  (List.finRange 6).foldl (fun out j => Function.update out j (mac j)) out

/-- `lookup`: the result, `out_mac` and the state when it returns. -/
def lookup (s : ArpState) (ip : UInt32) (outMac : Mac) : Bool × Mac × ArpState :=
  match scanFrom (ArpEntry.holds ip) s.table arpTableSize 0 with
  | some i =>
    let clock := s.clock + 1
    let s' := { s with clock := clock }
    (true, copyMac outMac (s.table i).mac, s'.set i { s.table i with timestamp := clock })
  | none => (false, outMac, s)

/-- The loop of `update` over the full table, with `n` entries left. -/
def oldestFrom (table : Nat → ArpEntry) : Nat → Nat → Nat → UInt64 → Nat
  | 0, _, oldestIdx, _ => oldestIdx
  | n + 1, i, oldestIdx, oldestTs =>
    if (table i).timestamp < oldestTs then oldestFrom table n (i + 1) i (table i).timestamp
    else oldestFrom table n (i + 1) oldestIdx oldestTs

def update (s : ArpState) (ip : UInt32) (mac : Mac) : ArpState :=
  let clock := s.clock + 1
  let s' := { s with clock := clock }
  -- 1. Scan for existing entry to update
  match scanFrom (ArpEntry.holds ip) s.table arpTableSize 0 with
  | some i => s'.set i { s.table i with mac := mac, timestamp := clock }
  | none =>
    -- 2. Find a free slot
    match scanFrom (fun e => !e.valid) s.table arpTableSize 0 with
    | some i => s'.set i ⟨ip, mac, true, clock⟩
    | none =>
      -- 3. Table full
      let oldestIdx := oldestFrom s.table (arpTableSize - 1) 1 0 (s.table 0).timestamp
      s'.set oldestIdx ⟨ip, mac, true, clock⟩

/-- `clear`, which leaves the MACs where they are. -/
def clear (s : ArpState) : ArpState where
  table := fun i =>
    if i < arpTableSize then { s.table i with valid := false, ip := 0, timestamp := 0 }
    else s.table i
  clock := 0

/-- The calls of a run. -/
inductive Call where
  | lookup (ip : UInt32) (outMac : Mac)
  | update (ip : UInt32) (mac : Mac)

/-- The state after one call. -/
def exec (s : ArpState) : Call → ArpState
  | .lookup ip outMac => (lookup s ip outMac).2.2
  | .update ip mac => update s ip mac

/-- The state after a sequence of calls on a cleared table. -/
def run (s : ArpState) (calls : List Call) : ArpState :=
  runOps exec (clear s) calls

end Keuos.Netd.Arp

/-!
## DER nodes

`decode_length` and `parse_tlv_node` of `user/netd/tls/asn1.salt`, as programs over a memory of bytes that
report the address of each byte that they read.
-/

namespace Keuos.Netd.Asn1

open Traced

abbrev Asn1M := Traced Mem UInt64

def load8 (a : UInt64) : Asn1M UInt8 := fun m => (m a, m, [a])

def store8 (a : UInt64) (v : UInt8) : Asn1M Unit := modify fun m => m.write8 a v

def store32 (a : UInt64) (v : UInt32) : Asn1M Unit := modify fun m => m.write32 a v

/-- The loop over the octets of a length, with `n` of them left. -/
def lengthOctets (bufferPtr : UInt64) (offset : UInt32) : Nat → UInt32 → UInt32 → Asn1M UInt32
  | 0, _, actualLen => return actualLen
  | n + 1, i, actualLen => do
    let nextByte ← load8 (bufferPtr + (offset + 1 + i).toUInt64)
    lengthOctets bufferPtr offset n (i + 1) (actualLen * 256 + nextByte.toUInt32)

/-- The length above the offset of the payload. -/
def pack (actualLen offset headerBytes : UInt32) : UInt64 :=
  actualLen.toUInt64 * 4294967296 + (offset + headerBytes).toUInt64

def decodeLength (bufferPtr : UInt64) (maxLen offset : UInt32) : Asn1M UInt64 :=
  if offset ≥ maxLen then return 0
  else do
    let lengthByte ← load8 (bufferPtr + offset.toUInt64)
    if lengthByte ≤ 0x7F then return pack lengthByte.toUInt32 offset 1
    else
      let numBytes := (lengthByte &&& 0x7F).toUInt32
      if numBytes = 0 ∨ numBytes > 4 then return 0
      else if offset + 1 + numBytes > maxLen then return 0
      else do
        let actualLen ← lengthOctets bufferPtr offset numBytes.toNat 0 0
        return pack actualLen offset (1 + numBytes)

/-- What `parse_tlv_node` writes. -/
structure TlvNode where
  tag : UInt8
  length : UInt32
  payloadOffset : UInt32
  deriving DecidableEq, Repr

def storeNode (outNodePtr : UInt64) (node : TlvNode) : Asn1M Unit := do
  store8 outNodePtr node.tag
  store32 (outNodePtr + 4) node.length
  store32 (outNodePtr + 8) node.payloadOffset

def parseTlvNode (bufferPtr : UInt64) (maxLen targetIdx : UInt32) (outNodePtr : UInt64) : Asn1M UInt32 :=
  if targetIdx ≥ maxLen then return 0
  else do
    let tag ← load8 (bufferPtr + targetIdx.toUInt64)
    let packedLenRes ← decodeLength bufferPtr maxLen (targetIdx + 1)
    if packedLenRes = 0 then return 0
    else do
      let actualLen := (packedLenRes / 4294967296).toUInt32
      let payloadOffset := (packedLenRes % 4294967296).toUInt32
      if payloadOffset + actualLen > maxLen then return 0
      else do
        storeNode outNodePtr { tag, length := actualLen, payloadOffset }
        return payloadOffset + actualLen

end Keuos.Netd.Asn1

/-!
## Numbers of 256 bits

`user/netd/crypto/bigint.salt`.  A number is 32 bytes in memory, the lowest first, and a buffer is its
address. The arrays `temp_a` and `base` on the stack are buffers too, whose addresses are arguments.  A loop
over an index is a fold over its range.
-/

namespace Keuos.Netd.BigInt

/-- The byte `i` of a buffer. -/
def byte (m : Mem) (a : UInt64) (i : Nat) : UInt8 := m (a + UInt64.ofNat i)

def setByte (m : Mem) (a : UInt64) (i : Nat) (v : UInt8) : Mem := m.write8 (a + UInt64.ofNat i) v

/-- One byte of `u256_add`, with the carry. -/
def addStep (aPtr bPtr resPtr : UInt64) (s : UInt32 × Mem) (i : Nat) : UInt32 × Mem :=
  let (carry, m) := s
  let sum : UInt32 := (byte m aPtr i).toUInt32 + (byte m bPtr i).toUInt32 + carry
  (sum / 256, setByte m resPtr i (sum &&& 0xFF).toUInt8)

def u256Add (aPtr bPtr resPtr : UInt64) (m : Mem) : UInt32 × Mem :=
  (List.range 32).foldl (addStep aPtr bPtr resPtr) (0, m)

/-- One byte of `u256_sub`, with the borrow. -/
def subStep (aPtr bPtr resPtr : UInt64) (s : UInt32 × Mem) (i : Nat) : UInt32 × Mem :=
  let (borrow, m) := s
  let diff : Int := (byte m aPtr i).toNat - (byte m bPtr i).toNat - borrow.toNat
  if diff < 0 then (1, setByte m resPtr i (UInt8.ofNat (diff + 256).toNat))
  else (0, setByte m resPtr i (UInt8.ofNat diff.toNat))

def u256Sub (aPtr bPtr resPtr : UInt64) (m : Mem) : UInt32 × Mem :=
  (List.range 32).foldl (subStep aPtr bPtr resPtr) (0, m)

/-- The loop of `u256_cmp`, with the lowest `n` bytes left. -/
def cmpFrom (m : Mem) (aPtr bPtr : UInt64) : Nat → Int
  | 0 => 0
  | n + 1 =>
    if byte m aPtr n > byte m bPtr n then 1
    else if byte m aPtr n < byte m bPtr n then -1
    else cmpFrom m aPtr bPtr n

def u256Cmp (m : Mem) (aPtr bPtr : UInt64) : Int := cmpFrom m aPtr bPtr 32

/-- One byte of `u256_shift_left_1`, with the carry. -/
def shiftStep (aPtr resPtr : UInt64) (s : UInt32 × Mem) (i : Nat) : UInt32 × Mem :=
  let (carry, m) := s
  let sum : UInt32 := (byte m aPtr i).toUInt32 * 2 + carry
  (sum / 256, setByte m resPtr i (sum &&& 0xFF).toUInt8)

/-- `u256_shift_left_1`.  The last carry is dropped. -/
def u256ShiftLeft1 (aPtr resPtr : UInt64) (m : Mem) : Mem :=
  ((List.range 32).foldl (shiftStep aPtr resPtr) (0, m)).2

def u256ModAdd (aPtr bPtr pPtr resPtr : UInt64) (m : Mem) : Mem :=
  let (carry, m) := u256Add aPtr bPtr resPtr m
  if carry > 0 ∨ u256Cmp m resPtr pPtr ≥ 0 then (u256Sub resPtr pPtr resPtr m).2 else m

/-- The loop that sets a buffer to zero. -/
def zero (ptr : UInt64) (m : Mem) : Mem :=
  (List.range 32).foldl (fun m i => setByte m ptr i 0) m

/-- The loop that copies a buffer. -/
def copy (dst src : UInt64) (m : Mem) : Mem :=
  (List.range 32).foldl (fun m i => setByte m dst i (byte m src i)) m

/-- A bit of a byte. -/
def bitSet (v : UInt8) (bitIdx : Nat) : Bool := v &&& (1 <<< UInt8.ofNat bitIdx) != 0

/-- The doubling of `temp_a` modulo `p`. -/
def doubleStep (tempA pPtr : UInt64) (m : Mem) : Mem :=
  let m := u256ShiftLeft1 tempA tempA m
  if u256Cmp m tempA pPtr ≥ 0 then (u256Sub tempA pPtr tempA m).2 else m

/-- One bit of `u256_mul_mod`. -/
def mulStep (tempA pPtr resPtr : UInt64) (bVal : UInt8) (m : Mem) (bitIdx : Nat) : Mem :=
  let m := if bitSet bVal bitIdx then u256ModAdd resPtr tempA pPtr resPtr m else m
  doubleStep tempA pPtr m

/-- `u256_mul_mod`, with `temp_a` at `tempA`. -/
def u256MulMod (tempA aPtr bPtr pPtr resPtr : UInt64) (m : Mem) : Mem :=
  let m := zero resPtr m
  let m := copy tempA aPtr (zero tempA m)
  (List.range 32).foldl (fun m byteIdx =>
    (List.range 8).foldl (mulStep tempA pPtr resPtr (byte m bPtr byteIdx)) m) m

/-- One bit of `u256_mod_inverse`. -/
def inverseStep (tempA base pPtr resPtr : UInt64) (expVal : UInt8) (m : Mem) (bitIdx : Nat) : Mem :=
  let m := if bitSet expVal bitIdx then u256MulMod tempA resPtr base pPtr resPtr m else m
  u256MulMod tempA base base pPtr base m

/-- `u256_mod_inverse`, with `base` at `base` and the `temp_a` of its calls at `tempA`. -/
def u256ModInverse (tempA base aPtr pPtr pMinus2Ptr resPtr : UInt64) (m : Mem) : Mem :=
  let m := setByte (zero resPtr m) resPtr 0 1
  let m := copy base aPtr (zero base m)
  (List.range 32).foldl (fun m byteIdx =>
    (List.range 8).foldl (inverseStep tempA base pPtr resPtr (byte m pMinus2Ptr byteIdx)) m) m

end Keuos.Netd.BigInt

/-!
## The checksums of the network daemon

`user/netd/tcp/checksum.salt`.  A buffer is its address.  The loop over 16-bit words is given with the rounds
that are left, of which the buffer's length is enough.
-/

namespace Keuos.Netd.Checksum

/-- The loop over the words, with `n` rounds left: the index after it, and the sum. -/
def sumWords (m : Mem) (base : UInt64) (len : UInt32) : Nat → UInt32 → UInt32 → UInt32 × UInt32
  | 0, i, sum => (i, sum)
  | n + 1, i, sum =>
    if i + 1 < len then
      let hiByte := m (base + i.toUInt64)
      let loByte := m (base + i.toUInt64 + 1)
      let word : UInt32 := (hiByte.toUInt32 <<< 8) + loByte.toUInt32
      sumWords m base len n (i + 2) (sum + word)
    else (i, sum)

/-- The words, and the odd byte behind them. -/
def sumBytes (m : Mem) (base : UInt64) (len sum : UInt32) : UInt32 :=
  let (i, sum) := sumWords m base len len.toNat 0 sum
  if i < len then
    let lastByte := m (base + i.toUInt64)
    sum + (lastByte.toUInt32 <<< 8)
  else sum

/-- The loop that folds the sum.  A sum of 32 bits needs two rounds. -/
def foldSum : Nat → UInt32 → UInt32
  | 0, sum => sum
  | n + 1, sum =>
    let low : UInt32 := sum &&& 0xFFFF
    if sum >>> 16 > 0 then foldSum n (low + (sum >>> 16)) else sum

def computeChecksum (m : Mem) (dataBase : UInt64) (len : UInt32) : UInt16 :=
  let sum := sumBytes m dataBase len 0
  (foldSum 2 sum).toUInt16 ^^^ 0xFFFF

/-- The pseudo-header. -/
def pseudoHeader (srcIp dstIp tcpLen : UInt32) : UInt32 :=
  let low (ip : UInt32) : UInt32 := ip &&& 0xFFFF
  (srcIp >>> 16) + low srcIp + (dstIp >>> 16) + low dstIp + 6 + tcpLen

def computeTcpChecksum (m : Mem) (srcIp dstIp : UInt32) (tcpBase : UInt64) (tcpLen : UInt32) : UInt16 :=
  let sum := sumBytes m tcpBase tcpLen (pseudoHeader srcIp dstIp tcpLen)
  (foldSum 2 sum).toUInt16 ^^^ 0xFFFF

end Keuos.Netd.Checksum
