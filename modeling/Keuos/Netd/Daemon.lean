import Keuos.Lib.Memory
import Keuos.Lib.Traced

/-!
# The frames of the network daemon

`parse_headers` and `process_frame` of `user/netd/daemon.salt`, and `encapsulate_tcp_frame` of
`user/netd/encap.salt`.

The functions are programs over a memory of bytes that report what they read and write.  Words are loaded and
stored as the machine does it, the low byte first.
-/

namespace Keuos.Netd.Daemon

open Traced

/-- What a program does to the memory, and the payloads that it hands out. -/
inductive Event where
  | read (a : UInt64) (n : Nat)
  | write (a : UInt64) (n : Nat)
  | push (ring payload len : UInt64)
  deriving DecidableEq, Repr

abbrev NetdM := Traced Mem Event

/-! ### Memory -/

def load8 (a : UInt64) : NetdM UInt8 := fun m => (m a, m, [.read a 1])

/-- A word of 16 bits. -/
def load16 (a : UInt64) : NetdM UInt16 := fun m =>
  (UInt16.ofNat (m.byteAt a 0 + m.byteAt a 1 * 256), m, [.read a 2])

/-- A word of 32 bits. -/
def load32 (a : UInt64) : NetdM UInt32 := fun m =>
  (UInt32.ofNat (m.byteAt a 0 + m.byteAt a 1 * 256 + m.byteAt a 2 * 256 ^ 2 + m.byteAt a 3 * 256 ^ 3), m,
    [.read a 4])

def load64 (a : UInt64) : NetdM UInt64 := fun m => (m.read64 a, m, [.read a 8])

def store8 (a : UInt64) (v : UInt8) : NetdM Unit := fun m => ((), m.write8 a v, [.write a 1])

def store64 (a v : UInt64) : NetdM Unit := fun m => ((), m.write64 a v, [.write a 8])

/-- Stores at consecutive addresses. -/
def storeBytes (a : UInt64) : List UInt8 → NetdM Unit
  | [] => pure ()
  | b :: bs => do
    store8 a b
    storeBytes (a + 1) bs

/-- The loop that copies a hardware address, with `n` bytes left. -/
def copyBytes (dst src : UInt64) : Nat → NetdM Unit
  | 0 => pure ()
  | n + 1 => do
    let b ← load8 src
    store8 dst b
    copyBytes (dst + 1) (src + 1) n

/-! ### Parsing -/

def ethHeaderSize : UInt32 := 14
def minIpv4HeaderSize : UInt32 := 20
def minTcpHeaderSize : UInt32 := 20
def minTotalHeader : UInt32 := 54
def ethertypeIpv4 : UInt16 := 0x0800
def ipProtoTcp : UInt8 := 6

structure PacketInfo where
  srcPort : UInt16
  dstPort : UInt16
  seqNum : UInt32
  ackNum : UInt32
  flags : UInt8
  payloadOffset : UInt32
  payloadLen : UInt32
  valid : UInt8
  deriving DecidableEq, Repr

/-- What is returned for a frame that is dropped. -/
def PacketInfo.invalid : PacketInfo := ⟨0, 0, 0, 0, 0, 0, 0, 0⟩

/-- The fields of the TCP header, once the frame is known to hold it. -/
def parseTcpFields (tcpStart : UInt64) (ipIhl frameLen : UInt32) : NetdM PacketInfo := do
  let srcPort ← load16 (tcpStart + 0)
  let dstPort ← load16 (tcpStart + 2)
  let seqNum ← load32 (tcpStart + 4)
  let ackNum ← load32 (tcpStart + 8)
  let flags ← load8 (tcpStart + 13)
  let dataOff ← load8 (tcpStart + 12)
  let tcpDataOff := ((dataOff >>> 4) &&& 0x0F).toUInt32 * 4
  let payloadOffset := ethHeaderSize + ipIhl + tcpDataOff
  let payloadLen := if frameLen > payloadOffset then frameLen - payloadOffset else 0
  return { srcPort, dstPort, seqNum, ackNum, flags, payloadOffset, payloadLen, valid := 1 }

def parseHeaders (frameBase : UInt64) (frameLen : UInt32) : NetdM PacketInfo :=
  if frameLen < minTotalHeader then return .invalid
  else do
    let ethertype ← load16 (frameBase + 12)
    if ethertype != ethertypeIpv4 then return .invalid
    else do
      let ipStart := frameBase + ethHeaderSize.toUInt64
      let ipVhl ← load8 ipStart
      let ipIhl := (ipVhl &&& 0x0F).toUInt32 * 4
      if ipIhl < minIpv4HeaderSize then return .invalid
      else do
        let ipProto ← load8 (ipStart + 9)
        if ipProto != ipProtoTcp then return .invalid
        else
          let headerEnd := ethHeaderSize + ipIhl + minTcpHeaderSize
          if frameLen < headerEnd then return .invalid
          else parseTcpFields (ipStart + ipIhl.toUInt64) ipIhl frameLen

/-! ### Handing out the payload -/

/-- `ring_push`.  The length of the payload is not stored. -/
def ringPush (ringBase payload len : UInt64) : NetdM UInt64 := do
  let head ← load64 (ringBase + 0)
  let capacity ← load64 (ringBase + 8)
  let tail ← load64 (ringBase + 64)
  let nextHead := (head + 8) % capacity
  if nextHead == tail then return 0
  else do
    store64 (ringBase + 192 + head) payload
    emit (.push ringBase payload len)
    store64 (ringBase + 0) nextHead
    return 1

def processFrame (frameBase : UInt64) (frameLen : UInt32) (streams : UInt64) : NetdM Unit := do
  let info ← parseHeaders frameBase frameLen
  if info.valid == 0 then return
  else do
    let streamHandle ← load64 (streams + info.dstPort.toUInt64 * 8)
    if streamHandle == 0 then return
    else do
      let _ ← ringPush streamHandle (frameBase + info.payloadOffset.toUInt64) info.payloadLen.toUInt64

/-! ### Encapsulation -/

def bytes16 (v : UInt16) : List UInt8 := [(v >>> 8).toUInt8, (v &&& 0xFF).toUInt8]

def bytes32 (v : UInt32) : List UInt8 :=
  [(v >>> 24).toUInt8, ((v >>> 16) &&& 0xFF).toUInt8, ((v >>> 8) &&& 0xFF).toUInt8, (v &&& 0xFF).toUInt8]

/-- The arguments of `encapsulate_tcp_frame`.  The hardware addresses are given by where they are stored. -/
structure Segment where
  payloadPtr : UInt64
  payloadLen : UInt32
  localPort : UInt16
  remotePort : UInt16
  seqNum : UInt32
  ackNum : UInt32
  srcIp : UInt32
  dstIp : UInt32
  srcMac : UInt64
  dstMac : UInt64

def encapsulateTcpFrame (g : Segment) : NetdM UInt64 := do
  let tcpStart := g.payloadPtr - 20
  let ipStart := tcpStart - 20
  let ethStart := ipStart - 14
  storeBytes tcpStart (bytes16 g.localPort ++ bytes16 g.remotePort ++ bytes32 g.seqNum ++ bytes32 g.ackNum ++
    [0x50, 0x18, 0xFF, 0xFF, 0, 0, 0, 0])
  let totalIpLen := (20 + 20 + g.payloadLen).toUInt16
  storeBytes ipStart ([0x45, 0] ++ bytes16 totalIpLen ++ [0, 0, 0x40, 0, 64, 6, 0, 0] ++ bytes32 g.srcIp ++
    bytes32 g.dstIp)
  copyBytes ethStart g.dstMac 6
  copyBytes (ethStart + 6) g.srcMac 6
  storeBytes (ethStart + 12) [0x08, 0x00]
  return ethStart

end Keuos.Netd.Daemon
