import Keuos.Net.Frames

/-!
# The packet dispatcher (`kernel/net/netcore.salt`)

`process_one` with the handlers that it reaches: the UDP echo, `handle_server_syn` of `icmp_xmit.salt`,
`tcp_handle_incoming` of `tcp_dispatch.salt`, and the replies to ARP and ICMP requests.  The connections are
those of `Tcp.Defs`, whose functions for the pool are used here.

The three places that send over the loopback (the SYN and the final ACK of `tcp_client_connect`, and
`tcp_send_data`) are one operation with the frame as a parameter: a page from `pmm.alloc` is filled, its part
behind the Ethernet header is enqueued, and the page is freed.  The packet then lies in a page that
`pmm.alloc` hands out again, so the stores of other code (`netcore_send_icmp_request`, `tcp_send_data` to a
remote address and `sys_meminfo`, which all take a page, fill it and free it) are steps of their own.
-/

namespace Keuos.Net

open Traced
open Tcp (noSlot)

/-! ### UDP -/

def sendUdpReply (dstIp : UInt32) (dstMac : Mac) (dstPort srcPort : UInt16) (payload : Ptr)
    (payloadLen : UInt32) : NetM Unit := do
  let s ← get
  let frame : Ptr := ⟨.scratch, s.txScratch, 0⟩
  let ethSz ← ethBuild frame dstMac s.ourMac 0x0800
  let ipOffset := ethSz
  let udpTotal : UInt16 := 8 + payloadLen.toUInt16
  let ipSz ← ipBuild (frame.add ipOffset.toUInt64) 0x0A00020F dstIp 17 udpTotal
  let udpOffset := ipOffset + ipSz
  let udpSz ← udpBuild (frame.add udpOffset.toUInt64) srcPort dstPort payloadLen.toUInt16
  let payloadOffset := udpOffset + udpSz
  copyBytes (frame.add payloadOffset.toUInt64) payload payloadLen.toNat
  let _ ← txSend frame (payloadOffset + payloadLen)

def handleUdp (buf : Ptr) (len srcIp : UInt32) (srcMac : Mac) : NetM Unit := do
  let hdr ← udpParse buf len
  if hdr.dstPort == 0 then return
  else if hdr.dstPort == 7 then do
    sendUdpReply srcIp srcMac hdr.srcPort 7 (buf.add 8) (len - 8)
    modify fun s => { s with udpPacketsHandled := s.udpPacketsHandled + 1 }
  else return

/-! ### TCP -/

/-- A change of the connection in `slot`. -/
def modifyTcb (slot : UInt64) (f : Tcp.Tcb → Tcp.Tcb) : NetM Unit :=
  modify fun s => { s with tcp := s.tcp.modify slot f }

/-- A function of the pool that may take a page. -/
def tcpCall {α : Type} (f : Tcp.Net → α × Tcp.Net) : NetM α :=
  call fun s => ((f s.tcp).1, { s with tcp := (f s.tcp).2 })

/-- The SYN-ACK of `handle_server_syn`, in the page `pkt`. -/
def buildSynAck (pkt : Ptr) (srcIp : UInt32) (srcPort dstPort : UInt16) (serverIsn clientIsn : UInt32) :
    NetM UInt32 := do
  let s ← get
  let ourMac : Mac := if Tcp.isLoopback srcIp then ![0x52, 0x54, 0x00, 0x12, 0x34, 0x56] else s.virtioMac
  let ethSz ← ethBuild pkt (fun _ => 0xFF) ourMac 0x0800
  let ipSz ← ipBuild (pkt.add ethSz.toUInt64) 0x0A00020F srcIp 6 20
  let tcp := (pkt.add ethSz.toUInt64).add ipSz.toUInt64
  let _ ← buildTcp tcp dstPort srcPort serverIsn (clientIsn + 1) 0x0012 8192
  let csum ← tcpChecksum tcp 20 0 0x0A00020F srcIp
  storeBytes (tcp.add 16) (bytes16 csum)
  return ethSz + ipSz + 20

/-- The client's connection when it is on this machine. -/
def establishClient (srcPort dstPort : UInt16) (serverIsn clientIsn : UInt32) : NetM Unit := do
  let s ← get
  let first := Tcp.lookup s.tcp.pool srcPort 0x7F000001 dstPort
  let client := if first == noSlot then Tcp.lookup s.tcp.pool srcPort 0x0A00020F dstPort else first
  if client != noSlot then
    modifyTcb client fun c => { c with state := 4, seqRcv := serverIsn + 1, seqSnd := clientIsn + 1 }
  else return

/-- The SYN-ACK is transmitted, or takes effect at once when the client is on this machine. -/
def deliverSynAck (pkt : Ptr) (total srcIp : UInt32) (srcPort dstPort : UInt16)
    (serverIsn clientIsn : UInt32) : NetM Unit :=
  if Tcp.isLoopback srcIp then establishClient srcPort dstPort serverIsn clientIsn
  else do
    let _ ← netTxSend pkt total
    return

/-- `handle_server_syn` after it has allocated the child. -/
def serverSynAck (srcIp : UInt32) (srcPort dstPort : UInt16) (clientIsn : UInt32)
    (listenSlot child : UInt64) : NetM Bool := do
  let serverIsn : UInt32 := 0xFEEDC0DE + child.toUInt32
  modifyTcb child fun c => { c with seqSnd := serverIsn, seqRcv := clientIsn + 1 }
  let pktPhys ← pmmAlloc
  if pktPhys == 0 then do
    modify fun s => { s with tcp := Tcp.free s.tcp child }
    return false
  else do
    let pkt : Ptr := ⟨.other, Pmm.physToVirt pktPhys, 0⟩
    let total ← buildSynAck pkt srcIp srcPort dstPort serverIsn clientIsn
    deliverSynAck pkt total srcIp srcPort dstPort serverIsn clientIsn
    modifyTcb child fun c => { c with state := 3 }
    modify fun s => { s with tcp := Tcp.acceptEnqueue s.tcp listenSlot child }
    return true

def handleServerSyn (buf : Ptr) (len srcIp : UInt32) : NetM Bool :=
  if len < 20 then return false
  else do
    let srcPort ← load16 buf
    let dstPort ← load16 (buf.add 2)
    let s ← get
    let listenSlot := Tcp.lookupListen s.tcp.pool dstPort
    if listenSlot == noSlot then return false
    else do
      let clientIsn ← load32 (buf.add 4)
      let child ← tcpCall fun t => Tcp.tcpAllocClient t 0 dstPort srcIp srcPort
      if child == noSlot then return false
      else serverSynAck srcIp srcPort dstPort clientIsn listenSlot child

/-- The copy loop of `tcp_handle_incoming`, with `n` rounds left: the number of bytes that were copied. -/
def copyIn (data : Ptr) (recv : Ptr) (payloadLen head : UInt32) : Nat → UInt32 → NetM UInt32
  | 0, pi => return pi
  | n + 1, pi =>
    if pi < payloadLen && head + pi < 4096 then do
      let b ← load (data.add pi.toUInt64)
      store (recv.add (head + pi).toUInt64) b
      copyIn data recv payloadLen head n (pi + 1)
    else return pi

/-- The data of a segment for the connection in `slot`. -/
def storeData (buf : Ptr) (len hdrLen : UInt32) (slot : UInt64) : NetM Unit :=
  if len > hdrLen then do
    let s ← get
    let recvVirt := Tcp.recvBufVirt s.tcp.pool slot
    if recvVirt != 0 then do
      let payloadLen := len - hdrLen
      let head := (s.tcp.pool slot).recvHead
      let copied ← copyIn (buf.add hdrLen.toUInt64) ⟨.other, recvVirt, 0⟩ payloadLen head
        payloadLen.toNat 0
      modifyTcb slot fun c => { c with recvHead := head + copied, seqRcv := c.seqRcv + payloadLen }
    else return
  else return

def tcpHandleIncoming (buf : Ptr) (len srcIp : UInt32) : NetM Bool :=
  if len < 20 then return false
  else do
    let srcPort ← load16 buf
    let dstPort ← load16 (buf.add 2)
    let word ← load16 (buf.add 12)
    let flags : UInt16 := word &&& 0x01FF
    let dataOff := (word >>> 12).toUInt8
    let s ← get
    let slot := Tcp.lookup s.tcp.pool dstPort srcIp srcPort
    let state := (s.tcp.pool slot).state
    let isAck := flags &&& 0x0010 != 0 && flags &&& 0x0002 == 0
    if flags &&& 0x0012 == 0x0012 && (slot != noSlot && state == 1) then do
      let serverIsn ← load32 (buf.add 4)
      modifyTcb slot fun c => { c with state := 4, seqRcv := serverIsn + 1, recvTail := 0 }
      return true
    else if isAck && (slot != noSlot && state == 3) then do
      modifyTcb slot fun c => { c with state := 4 }
      return true
    else if isAck && (slot != noSlot && state == 4) then do
      storeData buf len (dataOff.toUInt32 * 4) slot
      return true
    else if flags &&& 0x0001 != 0 && slot != noSlot then do
      modifyTcb slot fun c => { c with recvFin := true }
      return true
    else return false

/-! ### Notifications -/

/-- `ring_push_u64(RX_NOTIFY_PTR, val)`. -/
def pushU64 (val : UInt64) : NetM Bool := fun s =>
  let r := ringPushU64 s.ring val
  (r.1, { s with ring := r.2 }, if r.1 then [.push64 val] else [])

/-- `ring_push_u32(RX_NOTIFY_PTR, val)`. -/
def pushU32 (val : UInt32) : NetM Bool := fun s =>
  let r := ringPushU32 s.ring val
  (r.1, { s with ring := r.2 }, if r.1 then [.push32 val] else [])

/-- The record of a packet: the second push is made if the first one succeeds. -/
def pushRecord (buf : UInt64) (len : UInt32) : NetM Unit := do
  let ok ← pushU64 buf
  if ok then do
    let _ ← pushU32 len
    return
  else return

/-- The record, and the message to NetD. -/
def notifyRing3 (buf : UInt64) (len : UInt32) (msg1 : UInt64) : NetM Unit := do
  pushRecord buf len
  let s ← get
  if s.netdNotifyPid != 0 then emit (.ipcSend s.netdNotifyPid 1 msg1 0) else return

/-- The first part of `handle_tcp_notify`: the SYN for a listening socket. -/
def synFirst (buf : Ptr) (len srcIp : UInt32) : NetM Bool :=
  if len ≥ 20 then do
    let word ← load16 (buf.add 12)
    if word &&& 0x01FF == 0x0002 then handleServerSyn buf len srcIp else return false
  else return false

def handleTcpNotify (buf : Ptr) (len srcIp : UInt32) : NetM Unit := do
  let syn ← synFirst buf len srcIp
  if syn then return
  else do
    let taken ← tcpHandleIncoming buf len srcIp
    if taken then return
    else do
      let s ← get
      if s.rxNotifyPtr != 0 then notifyRing3 buf.addr len srcIp.toUInt64 else return

/-! ### IPv4 -/

/-- An echo reply is recorded for `sys_ping`. -/
def recordReply (icmpType : UInt8) (srcIp : UInt32) : NetM Unit :=
  if icmpType == 0 then
    modify fun s => { s with icmpReplyReceived := true, icmpReplySrcIp := srcIp }
  else return

/-- The ICMP branch of `handle_ipv4`. -/
def handleIcmpPacket (buf payload : Ptr) (payloadLen srcIp : UInt32) : NetM Unit := do
  let icmpType ← load payload
  recordReply icmpType srcIp
  let reply ← handleIcmp payload payloadLen
  if reply then sendIcmpReply buf payloadLen srcIp else return

/-- The bytes of a packet, as they are in memory. -/
def Stack.bytes (s : Stack) (addr : UInt64) (len : UInt32) : List UInt8 :=
  (List.range len.toNat).map fun i => s.tcp.mem (addr + UInt64.ofNat i)

def handleIpv4 (buf : Ptr) (len : UInt32) (srcMac : Mac) : NetM Unit := do
  let s ← get
  emit (.ipv4 buf (s.bytes buf.addr len))
  let hdr ← ipParse buf len
  if hdr.ihl < 20 then return
  else if hdr.dstIp != 0x0A00020F && hdr.dstIp != 0x7F000001 then return
  else do
    let payloadOffset := hdr.ihl.toUInt32
    let payloadLen := len - payloadOffset
    let payload := buf.add payloadOffset.toUInt64
    if hdr.protocol == 17 then handleUdp payload payloadLen hdr.srcIp srcMac
    else if hdr.protocol == 6 then handleTcpNotify payload payloadLen hdr.srcIp
    else if hdr.protocol == 1 then handleIcmpPacket buf payload payloadLen hdr.srcIp
    else return

/-! ### The dispatcher -/

/-- The poll of the active driver. -/
def rxPoll : NetM (Option (UInt64 × UInt32)) :=
  call fun s =>
    match s.rx with
    | [] => (none, s)
    | p :: rest => (some p, { s with rx := rest })

/-- The frame in a received buffer, behind the header of VirtIO, and its length. -/
def frameOf (rtl : Bool) (buf : UInt64) (len : UInt32) : Ptr × UInt32 :=
  if rtl then (⟨.packet, buf, 0⟩, len) else (⟨.packet, buf, 10⟩, len - 10)

/-- The dispatch of a frame for this machine by its EtherType. -/
def dispatch (eth : Ptr) (ethLen : UInt32) (hdr : EthernetHeader) : NetM Unit := do
  let s ← get
  if hdr.ethertype == 0x0806 then arpHandle eth 14 ethLen s.ourMac
  else if hdr.ethertype == 0x0800 then
    if ethLen ≥ 34 then handleIpv4 (eth.add 14) (ethLen - 14) hdr.src else return
  else return

/-- The end of `process_one`: Ring 3 is notified of the packet, or its buffer is reposted. -/
def passOn (buf : UInt64) (len : UInt32) : NetM Unit := do
  let s ← get
  if s.rxNotifyPtr != 0 then notifyRing3 buf len 0 else emit (.repost buf)

/-- `process_one` with a packet of the network card. -/
def processPacket (buf : UInt64) (len : UInt32) : NetM Unit := do
  let s ← get
  let frame := frameOf s.usingRtl8125 buf len
  if frame.2 < 14 then emit (.repost buf)
  else do
    let hdr ← ethParse frame.1 frame.2
    if !macMatches hdr.dst s.ourMac && !isBroadcast hdr.dst then passOn buf len
    else do
      dispatch frame.1 frame.2 hdr
      passOn buf len

def processOne : NetM Bool := do
  let s ← get
  if s.loopbackBuf != 0 then do
    modify fun s => { s with loopbackBuf := 0, loopbackLen := 0 }
    handleIpv4 ⟨.loopback, s.loopbackBuf, 0⟩ s.loopbackLen s.loopbackSrcMac
    return true
  else do
    let got ← rxPoll
    match got with
    | none => return false
    | some (buf, len) => do
      processPacket buf len
      return true

/-! ### Loopback -/

def loopbackEnqueue (s : Stack) (buf : UInt64) (len : UInt32) (srcMac : Mac) : Stack :=
  { s with loopbackBuf := buf, loopbackLen := len, loopbackSrcMac := srcMac }

/-- `pmm.free` puts its link into the first word of a page. -/
def pmmFree (s : Stack) (page link : UInt64) : Stack :=
  { s with tcp := { s.tcp with mem := s.tcp.mem.write64 page link } }

/-- The page of a frame number, with the frame in it. -/
def fillPage (s : Stack) (pfn : UInt64) (frame : List UInt8) : UInt64 × Stack :=
  let page := Pmm.physToVirt (pfn * 4096)
  (page, (storeBytes ⟨.other, page, 0⟩ frame).next s)

/-- A send over the loopback: the frame is written to the page, its part behind the Ethernet header is
enqueued, and the page is freed. -/
def loopbackSend (s : Stack) (pfn : UInt64) (frame : List UInt8) (ipLen : UInt32) (link : UInt64) : Stack :=
  let page := fillPage s pfn frame
  pmmFree (loopbackEnqueue page.2 (page.1 + 14) ipLen 0) page.1 link

/-- The stack, the packets that were enqueued, as they were then, and those that `handle_ipv4` was given. -/
structure Looped where
  stack : Stack
  enqueued : List (List UInt8)
  handed : List (List UInt8)

/-- `send` is a send over the loopback, `poll` a call of `process_one`, and `store` any other code's store:
into a page that it has from `pmm.alloc`, or of the link of a page that it frees. -/
inductive LoopOp where
  | send (pfn : UInt64) (frame : List UInt8) (ipLen : UInt32) (link : UInt64)
  | store (addr : UInt64) (bytes : List UInt8)
  | poll

/-- The packets of the loopback that `handle_ipv4` is given. -/
def handedBy (es : List Event) : List (List UInt8) :=
  es.filterMap fun
    | .ipv4 p bytes => if p.obj = .loopback then some bytes else none
    | _ => none

def Looped.exec (l : Looped) : LoopOp → Looped
  | .send pfn frame ipLen link =>
    let page := fillPage l.stack pfn frame
    { l with
      stack := loopbackSend l.stack pfn frame ipLen link
      enqueued := l.enqueued ++ [page.2.bytes (page.1 + 14) ipLen] }
  | .store addr bytes => { l with stack := (storeBytes ⟨.other, addr, 0⟩ bytes).next l.stack }
  | .poll =>
    { l with stack := processOne.next l.stack, handed := l.handed ++ handedBy (processOne.log l.stack) }

end Keuos.Net
