import Keuos.Lib.Traced
import Keuos.Net.NotifyRing
import Keuos.Net.Virtio
import Keuos.Tcp.Defs
import Mathlib.Data.Fin.VecNotation

/-!
# Frames

The parsers and builders of `kernel/net/eth.salt`, `ip.salt`, `udp.salt`, `icmp.salt`, `arp.salt` and
`netd_tcp_parse.salt`, and the transmission of a frame.

The functions are programs over the state `Stack` that report each byte that they read and write.  A pointer
carries the object that it was made from: the received packet, the packet in the loopback slot, the frame
`TX_SCRATCH`, or another one.  The lines on the serial console are left out, and so are the descriptors of
the transmission: whether one is free is given as a list of answers.
-/

namespace Keuos.Net

open Traced

abbrev Mac := Fin 6 → UInt8

/-- What a pointer points into. -/
inductive Obj where
  | packet
  | loopback
  | scratch
  | other
  deriving DecidableEq, Repr

/-- A pointer: the object, its address, and an offset. -/
structure Ptr where
  obj : Obj
  base : UInt64
  off : UInt64
  deriving DecidableEq, Repr

def Ptr.addr (p : Ptr) : UInt64 := p.base + p.off

/-- Pointer arithmetic. -/
def Ptr.add (p : Ptr) (i : UInt64) : Ptr := { p with off := p.off + i }

@[simp] theorem Ptr.obj_add (p : Ptr) (i : UInt64) : (p.add i).obj = p.obj := rfl
@[simp] theorem Ptr.off_add (p : Ptr) (i : UInt64) : (p.add i).off = p.off + i := rfl

inductive Event where
  | read (p : Ptr)
  | write (p : Ptr)
  /-- A packet is handed to `handle_ipv4`. -/
  | ipv4 (p : Ptr) (bytes : List UInt8)
  /-- A buffer is given back to the network card. -/
  | repost (buf : UInt64)
  | push64 (val : UInt64)
  | push32 (val : UInt32)
  | ipcSend (pid msg0 msg1 msg2 : UInt64)
  deriving DecidableEq, Repr

structure ArpEntry where
  ip : UInt32
  mac : Mac
  valid : Bool
  deriving DecidableEq

/-- The globals of the network stack, the connections with the memory, the packets that the network card has
received, and whether a descriptor is free at each transmission to come. -/
structure Stack where
  tcp : Tcp.Net
  ring : NotifyRing
  rxNotifyPtr : UInt64
  netdNotifyPid : UInt64
  usingRtl8125 : Bool
  virtioMac : Mac
  rtlMac : Mac
  rx : List (UInt64 × UInt32)
  txFree : List Bool
  txCount : UInt64
  txScratch : UInt64
  loopbackBuf : UInt64
  loopbackLen : UInt32
  loopbackSrcMac : Mac
  icmpReplyReceived : Bool
  icmpReplySrcIp : UInt32
  udpPacketsHandled : UInt64
  arpTable : Fin 16 → ArpEntry

/-- The address of the active driver. -/
def Stack.ourMac (s : Stack) : Mac :=
  if s.usingRtl8125 then s.rtlMac else s.virtioMac

abbrev NetM := Traced Stack Event

/-! ### Memory -/

def load (p : Ptr) : NetM UInt8 := fun s => (s.tcp.mem p.addr, s, [.read p])

def store (p : Ptr) (v : UInt8) : NetM Unit := fun s =>
  ((), { s with tcp := { s.tcp with mem := s.tcp.mem.write8 p.addr v } }, [.write p])

/-- Two bytes, the high one first. -/
def load16 (p : Ptr) : NetM UInt16 := do
  let hi ← load p
  let lo ← load (p.add 1)
  return (hi.toUInt16 <<< 8) ||| lo.toUInt16

/-- Four bytes, the highest first. -/
def load32 (p : Ptr) : NetM UInt32 := do
  let b0 ← load p
  let b1 ← load (p.add 1)
  let b2 ← load (p.add 2)
  let b3 ← load (p.add 3)
  return (b0.toUInt32 <<< 24) ||| (b1.toUInt32 <<< 16) ||| (b2.toUInt32 <<< 8) ||| b3.toUInt32

def loadMac (p : Ptr) : NetM Mac := do
  let b0 ← load p
  let b1 ← load (p.add 1)
  let b2 ← load (p.add 2)
  let b3 ← load (p.add 3)
  let b4 ← load (p.add 4)
  let b5 ← load (p.add 5)
  return ![b0, b1, b2, b3, b4, b5]

/-- Stores at consecutive addresses. -/
def storeBytes (p : Ptr) : List UInt8 → NetM Unit
  | [] => pure ()
  | b :: bs => do
    store p b
    storeBytes (p.add 1) bs

/-- `fast_memcpy` and the copy loop of `rtl8125.tx_send`, with `n` bytes left. -/
def copyBytes (dst src : Ptr) : Nat → NetM Unit
  | 0 => pure ()
  | n + 1 => do
    let b ← load src
    store dst b
    copyBytes (dst.add 1) (src.add 1) n

def bytes16 (v : UInt16) : List UInt8 := [(v >>> 8).toUInt8, (v &&& 0xFF).toUInt8]

def bytes32 (v : UInt32) : List UInt8 :=
  [((v >>> 24) &&& 0xFF).toUInt8, ((v >>> 16) &&& 0xFF).toUInt8, ((v >>> 8) &&& 0xFF).toUInt8,
    (v &&& 0xFF).toUInt8]

/-! ### Ethernet -/

structure EthernetHeader where
  dst : Mac
  src : Mac
  ethertype : UInt16

def ethParse (buf : Ptr) (len : UInt32) : NetM EthernetHeader :=
  if len < 14 then return ⟨0, 0, 0⟩
  else do
    let dst ← loadMac buf
    let src ← loadMac (buf.add 6)
    let ethertype ← load16 (buf.add 12)
    return ⟨dst, src, ethertype⟩

def ethBuild (buf : Ptr) (dst src : Mac) (ethertype : UInt16) : NetM UInt32 := do
  storeBytes buf (List.ofFn dst ++ List.ofFn src ++ bytes16 ethertype)
  return 14

def macMatches (a b : Mac) : Bool :=
  (List.finRange 6).all fun i => a i == b i

def isBroadcast (mac : Mac) : Bool :=
  (List.finRange 6).all fun i => mac i == 0xFF

/-! ### IPv4 -/

structure IPv4Header where
  srcIp : UInt32
  dstIp : UInt32
  protocol : UInt8
  totalLen : UInt16
  ttl : UInt8
  ihl : UInt8

def ipParse (buf : Ptr) (len : UInt32) : NetM IPv4Header :=
  if len < 20 then return ⟨0, 0, 0, 0, 0, 0⟩
  else do
    let byte0 ← load buf
    let ihl := (byte0 &&& 0x0F) * 4
    let totalLen ← load16 (buf.add 2)
    let ttl ← load (buf.add 8)
    let protocol ← load (buf.add 9)
    let srcIp ← load32 (buf.add 12)
    let dstIp ← load32 (buf.add 16)
    return { srcIp, dstIp, protocol, totalLen, ttl, ihl }

/-- The loop of the checksums over words of 16 bits, with `n` rounds left: the index after it, and the sum. -/
def sumWords (buf : Ptr) (len : UInt32) : Nat → UInt32 → UInt32 → NetM (UInt32 × UInt32)
  | 0, i, sum => return (i, sum)
  | n + 1, i, sum =>
    if i + 1 < len then do
      let hi ← load (buf.add i.toUInt64)
      let lo ← load ((buf.add i.toUInt64).add 1)
      sumWords buf len n (i + 2) (sum + ((hi.toUInt32 <<< 8) ||| lo.toUInt32))
    else return (i, sum)

/-- The words, and the odd byte behind them. -/
def sumBytes (buf : Ptr) (len sum : UInt32) : NetM UInt32 := do
  let r ← sumWords buf len len.toNat 0 sum
  if r.1 < len then do
    let hi ← load (buf.add r.1.toUInt64)
    return r.2 + (hi.toUInt32 <<< 8)
  else return r.2

/-- The loop that folds the sum.  A sum of 32 bits needs two rounds. -/
def foldSum : Nat → UInt32 → UInt32
  | 0, sum => sum
  | n + 1, sum =>
    let low : UInt32 := sum &&& 0xFFFF
    if sum >>> 16 != 0 then foldSum n (low + (sum >>> 16)) else sum

/-- `checksum` of `ip.salt`. -/
def checksum (buf : Ptr) (len : UInt32) : NetM UInt16 := do
  let sum ← sumBytes buf len 0
  return (foldSum 2 sum ^^^ 0xFFFF).toUInt16

def ipBuild (buf : Ptr) (srcIp dstIp : UInt32) (protocol : UInt8) (payloadLen : UInt16) :
    NetM UInt32 := do
  let totalLen : UInt16 := 20 + payloadLen
  storeBytes buf ([0x45, 0] ++ bytes16 totalLen ++ [0, 0, 0x40, 0, 64, protocol, 0, 0] ++
    bytes32 srcIp ++ bytes32 dstIp)
  let csum ← checksum buf 20
  storeBytes (buf.add 10) (bytes16 csum)
  return 20

/-! ### UDP -/

structure UDPHeader where
  srcPort : UInt16
  dstPort : UInt16
  length : UInt16

def udpParse (buf : Ptr) (len : UInt32) : NetM UDPHeader :=
  if len < 8 then return ⟨0, 0, 0⟩
  else do
    let srcPort ← load16 buf
    let dstPort ← load16 (buf.add 2)
    let length ← load16 (buf.add 4)
    return { srcPort, dstPort, length }

def udpBuild (buf : Ptr) (srcPort dstPort payloadLen : UInt16) : NetM UInt32 := do
  let udpLen : UInt16 := 8 + payloadLen
  storeBytes buf (bytes16 srcPort ++ bytes16 dstPort ++ bytes16 udpLen ++ [0, 0])
  return 8

/-! ### TCP -/

def buildTcp (buf : Ptr) (srcPort dstPort : UInt16) (seq ack : UInt32) (flags window : UInt16) :
    NetM UInt32 := do
  let offsetAndFlags : UInt16 := ((5 : UInt16) <<< 12) ||| (flags &&& 0x01FF)
  storeBytes buf (bytes16 srcPort ++ bytes16 dstPort ++ bytes32 seq ++ bytes32 ack ++
    bytes16 offsetAndFlags ++ bytes16 window ++ [0, 0, 0, 0])
  return 20

/-- The header that `parse_tcp` returns.  The offset of the data is in words of 32 bits. -/
structure TcpHeader where
  srcPort : UInt16
  dstPort : UInt16
  seqNum : UInt32
  ackNum : UInt32
  dataOffset : UInt8
  flags : UInt16
  window : UInt16
  checksum : UInt16
  urgent : UInt16
  deriving DecidableEq

def parseTcp (buf : Ptr) (len : UInt64) : NetM TcpHeader :=
  if len < 20 then return ⟨0, 0, 0, 0, 0, 0, 0, 0, 0⟩
  else do
    let srcPort ← load16 buf
    let dstPort ← load16 (buf.add 2)
    let seqNum ← load32 (buf.add 4)
    let ackNum ← load32 (buf.add 8)
    let offsetAndFlags ← load16 (buf.add 12)
    let dataOffset := ((offsetAndFlags >>> 12) &&& 0x000F).toUInt8
    let flags := offsetAndFlags &&& 0x01FF
    let window ← load16 (buf.add 14)
    let checksum ← load16 (buf.add 16)
    let urgent ← load16 (buf.add 18)
    return { srcPort, dstPort, seqNum, ackNum, dataOffset, flags, window, checksum, urgent }

def tcpChecksum (buf : Ptr) (hdrLen payloadLen srcIp dstIp : UInt32) : NetM UInt16 := do
  let high (ip : UInt32) : UInt32 := (ip >>> 16) &&& 0xFFFF
  let low (ip : UInt32) : UInt32 := ip &&& 0xFFFF
  let pseudo := high srcIp + low srcIp + high dstIp + low dstIp + 6 + (hdrLen + payloadLen)
  let sum ← sumBytes buf hdrLen pseudo
  let sum ← sumBytes (buf.add hdrLen.toUInt64) payloadLen sum
  return ((foldSum 2 sum ^^^ 0xFFFF) &&& 0xFFFF).toUInt16

/-! ### Transmission -/

/-- `TX_POOL_PHYS`, as a virtual address. -/
def txBufVirt : UInt64 := 0x440000 + Virtio.kernelBase

/-- The next answer to the question for a free descriptor. -/
def txDescriptor : NetM Bool :=
  call fun s =>
    match s.txFree with
    | [] => (false, s)
    | free :: rest => (free, { s with txFree := rest })

/-- `pmm.alloc`. -/
def pmmAlloc : NetM UInt64 :=
  call fun s => (s.tcp.allocPage.1, { s with tcp := s.tcp.allocPage.2 })

def netTxSend (pkt : Ptr) (pktLen : UInt32) : NetM Bool :=
  if pktLen > Virtio.bufSize - 10 then return false
  else do
    let free ← txDescriptor
    if !free then return false
    else do
      let s ← get
      let slot := s.txCount % 64
      let buf : Ptr := ⟨.other, txBufVirt + slot * 1524, 0⟩
      storeBytes buf (List.replicate 10 0)
      copyBytes (buf.add 10) pkt pktLen.toNat
      modify fun s => { s with txCount := s.txCount + 1 }
      return true

/-- `rtl8125.tx_send`. -/
def rtlTxSend (pkt : Ptr) (pktLen : UInt32) : NetM Bool := do
  let free ← txDescriptor
  if !free then return false
  else do
    let bufPhys ← pmmAlloc
    copyBytes ⟨.other, bufPhys + Virtio.kernelBase, 0⟩ pkt pktLen.toNat
    return true

/-- Transmission with the active driver. -/
def txSend (pkt : Ptr) (pktLen : UInt32) : NetM Bool := do
  let s ← get
  if s.usingRtl8125 then rtlTxSend pkt pktLen else netTxSend pkt pktLen

/-! ### ARP -/

local instance neZero_arpEntries : NeZero 16 := ⟨by decide⟩

def arpTableUpdate (table : Fin 16 → ArpEntry) (ip : UInt32) (mac : Mac) : Fin 16 → ArpEntry :=
  match (List.finRange 16).find? fun i => (table i).valid && (table i).ip == ip with
  | some i => Function.update table i { table i with mac }
  | none =>
    match (List.finRange 16).find? fun i => !(table i).valid with
    | some j => Function.update table j { ip, mac, valid := true }
    | none => Function.update table 0 { table 0 with ip, mac }

def sendArpReply (targetMac : Mac) (targetIp : UInt32) (ourMac : Mac) : NetM Unit := do
  let frame : Ptr := ⟨.other, 0xFFFFFFFF80460000, 0⟩
  let _ ← ethBuild frame targetMac ourMac 0x0806
  storeBytes (frame.add 14) ([0, 1, 0x08, 0x00, 6, 4, 0, 2] ++ List.ofFn ourMac ++ bytes32 0x0A00020F ++
    List.ofFn targetMac ++ bytes32 targetIp)
  let _ ← netTxSend frame 42

def arpHandle (pktBase : Ptr) (arpOffset pktLen : UInt32) (ourMac : Mac) : NetM Unit :=
  if pktLen < arpOffset + 28 then return
  else do
    let arp := pktBase.add arpOffset.toUInt64
    let oper ← load16 (arp.add 6)
    let sha ← loadMac (arp.add 8)
    let spa ← load32 (arp.add 14)
    let tpa ← load32 (arp.add 24)
    modify fun s => { s with arpTable := arpTableUpdate s.arpTable spa sha }
    if oper == 1 && tpa == 0x0A00020F then sendArpReply sha spa ourMac else return

/-! ### ICMP -/

/-- `icmp_checksum`, which is `checksum` once more. -/
def icmpChecksum (data : Ptr) (len : UInt32) : NetM UInt16 :=
  checksum data len

def handleIcmp (packet : Ptr) (len : UInt32) : NetM Bool :=
  if len < 8 then return false
  else do
    let icmpType ← load packet
    if icmpType != 8 then return false
    else do
      store packet 0
      storeBytes (packet.add 2) [0, 0]
      let csum ← icmpChecksum packet len
      storeBytes (packet.add 2) (bytes16 csum)
      return true

def sendIcmpReply (buf : Ptr) (payloadLen dstIp : UInt32) : NetM Unit := do
  let ipSz ← ipBuild buf 0x0A00020F dstIp 1 payloadLen.toUInt16
  let eth : Ptr := { buf with off := buf.off - 14 }
  let srcMac ← loadMac eth
  let dstMac ← loadMac (eth.add 6)
  let ethSz ← ethBuild eth dstMac srcMac 0x0800
  let _ ← txSend eth (ethSz + ipSz + payloadLen)

end Keuos.Net
