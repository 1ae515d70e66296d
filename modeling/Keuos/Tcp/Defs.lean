import Keuos.Lib.Memory
import Keuos.Lib.Run
import Keuos.Pmm.Defs
import Keuos.Syscall.Memory
import Keuos.Tcp.SynCookie

/-!
# TCP connections

The pool of connections of `kernel/net/netd_tcp.salt`, the dispatch of received segments and the calls
of a process in `kernel/net/tcp_dispatch.salt`, and the active and passive open of
`kernel/net/icmp_xmit.salt`.

The answers of `pmm.alloc` are given as a list.  The pages that were taken for receive buffers, and those
that were given back, are recorded with the slot of the connection.  Left out are what is transmitted, the
windows and times of a connection, which nothing reads, and the entities of the connections.
-/

namespace Keuos.Tcp

open Pmm (physToVirt)

def tcpClosed : UInt8 := 0
def tcpListenState : UInt8 := 1
def tcpSynReceived : UInt8 := 3
def tcpEstablished : UInt8 := 4

def maxTcpSockets : UInt64 := 1024

/-- The answer of the functions that find no slot. -/
def noSlot : UInt64 := 0xFFFFFFFF

/-- The empty `pending_accept`, and the answer of a failed call. -/
def none64 : UInt64 := 0xFFFFFFFFFFFFFFFF

/-- `TcpConnection`. -/
structure Tcb where
  state : UInt8
  localPort : UInt16
  remotePort : UInt16
  remoteIp : UInt32
  seqSnd : UInt32
  seqRcv : UInt32
  ownerPid : UInt64
  recvBufPhys : UInt64
  recvHead : UInt32
  recvTail : UInt32
  recvFin : Bool
  pendingAccept : UInt64
  listenSlot : UInt64
  deriving DecidableEq, Repr

/-- A connection at boot, and after `free`. -/
def Tcb.zero : Tcb := ⟨tcpClosed, 0, 0, 0, 0, 0, 0, 0, 0, 0, false, none64, none64⟩

/-- `TCP_POOL`. -/
abbrev Pool := UInt64 → Tcb

/-- `TCP_POOL[slot] = f(TCP_POOL[slot])`. -/
def Pool.modify (pool : Pool) (slot : UInt64) (f : Tcb → Tcb) : Pool :=
  Function.update pool slot (f (pool slot))

/-- The pool, the memory, the answers of `pmm.alloc`, and the receive buffers that were taken and
released. -/
structure Net where
  pool : Pool
  mem : Mem
  answers : List UInt64
  taken : List (UInt64 × UInt64)
  released : List (UInt64 × UInt64)

def Net.modify (s : Net) (slot : UInt64) (f : Tcb → Tcb) : Net :=
  { s with pool := s.pool.modify slot f }

/-- `pmm.alloc`. -/
def Net.allocPage (s : Net) : UInt64 × Net :=
  match s.answers with
  | [] => (0, s)
  | a :: answers => (a, { s with answers := answers })

/-! ### The pool -/

/-- The first slot from `i` on, of `n`, that passes a test. -/
def scan (p : UInt64 → Bool) : Nat → UInt64 → UInt64
  | 0, _ => noSlot
  | n + 1, i => if p i then i else scan p n (i + 1)

/-- The slot that `alloc` takes. -/
def closedSlot (pool : Pool) : UInt64 :=
  scan (fun i => (pool i).state == tcpClosed) 1024 0

def alloc (s : Net) : UInt64 × Net :=
  let slot := closedSlot s.pool
  if slot == noSlot then (noSlot, s)
  else (slot, s.modify slot fun c => { c with state := tcpListenState })

/-- `free`, which does not free the receive buffer. -/
def free (s : Net) (idx : UInt64) : Net :=
  if idx ≥ maxTcpSockets then s else s.modify idx fun _ => Tcb.zero

/-- The connection belongs to the local port and the remote end. -/
def Tcb.isFor (c : Tcb) (localPort : UInt16) (remoteIp : UInt32) (remotePort : UInt16) : Bool :=
  c.localPort == localPort && c.remoteIp == remoteIp && c.remotePort == remotePort

def lookup (pool : Pool) (localPort : UInt16) (remoteIp : UInt32) (remotePort : UInt16) : UInt64 :=
  scan (fun i => (pool i).state != tcpClosed && (pool i).isFor localPort remoteIp remotePort) 1024 0

def lookupListen (pool : Pool) (port : UInt16) : UInt64 :=
  scan (fun i => (pool i).state == tcpListenState && (pool i).localPort == port) 1024 0

def activeCount (pool : Pool) : Nat :=
  (List.range 1024).countP fun i => (pool (UInt64.ofNat i)).state != tcpClosed

def tcpAllocClient (s : Net) (pid : UInt64) (localPort : UInt16) (remoteIp : UInt32)
    (remotePort : UInt16) : UInt64 × Net :=
  let slot := alloc s
  if slot.1 == noSlot then (noSlot, slot.2)
  else
    let buf := slot.2.allocPage
    if buf.1 == 0 then (noSlot, free buf.2 slot.1)
    else
      let s := buf.2.modify slot.1 fun c =>
        { c with
          ownerPid := pid
          localPort := localPort
          remoteIp := remoteIp
          remotePort := remotePort
          recvBufPhys := buf.1
          recvHead := 0
          recvTail := 0
          recvFin := false }
      (slot.1, { s with taken := s.taken ++ [(slot.1, buf.1)] })

/-- `tcp_get_recv_buf_virt`. -/
def recvBufVirt (pool : Pool) (slot : UInt64) : UInt64 :=
  if slot ≥ maxTcpSockets then 0
  else if (pool slot).recvBufPhys == 0 then 0
  else physToVirt (pool slot).recvBufPhys

def tcpListen (s : Net) (port : UInt16) (ownerPid : UInt64) : UInt64 × Net :=
  let slot := alloc s
  if slot.1 == noSlot then (noSlot, slot.2)
  else
    (slot.1, slot.2.modify slot.1 fun c =>
      { c with
        state := tcpListenState
        localPort := port
        ownerPid := ownerPid
        pendingAccept := none64 })

def tcpAccept (s : Net) (listenSlot : UInt64) : UInt64 × Net :=
  if listenSlot ≥ maxTcpSockets then (none64, s)
  else if (s.pool listenSlot).state != tcpListenState then (none64, s)
  else
    let child := (s.pool listenSlot).pendingAccept
    if child != none64 then
      (child, s.modify listenSlot fun c => { c with pendingAccept := none64 })
    else (child, s)

def acceptEnqueue (s : Net) (listenSlot childSlot : UInt64) : Net :=
  if listenSlot ≥ maxTcpSockets || childSlot ≥ maxTcpSockets then s
  else
    (s.modify listenSlot fun c => { c with pendingAccept := childSlot }).modify childSlot fun c =>
      { c with listenSlot := listenSlot }

/-- `handle_ack`: a connection without a receive buffer. -/
def handleAck (key : Secret) (tick : UInt64) (s : Net) (t : Tuple) (clientIsn ackIsn : UInt32) :
    UInt64 × Net :=
  if !validateSynCookie key tick ackIsn t clientIsn then (noSlot, s)
  else
    let existing := lookup s.pool t.dstPort t.srcIp t.srcPort
    if existing != noSlot then (existing, s)
    else
      let slot := alloc s
      if slot.1 == noSlot then (noSlot, slot.2)
      else
        (slot.1, slot.2.modify slot.1 fun c =>
          { c with
            state := tcpEstablished
            localPort := t.dstPort
            remotePort := t.srcPort
            remoteIp := t.srcIp
            seqSnd := ackIsn + 1
            seqRcv := clientIsn + 1 })

/-! ### Received segments -/

/-- A received segment: the bytes from its header on, and their number. -/
structure Packet where
  srcIp : UInt32
  buf : UInt64 → UInt8
  len : UInt32

namespace Packet

variable (p : Packet)

/-- A field of two bytes. -/
def word (i : UInt64) : UInt16 := ((p.buf i).toUInt16 <<< 8) ||| (p.buf (i + 1)).toUInt16

def srcPort : UInt16 := p.word 0
def dstPort : UInt16 := p.word 2
def flags : UInt16 := p.word 12 &&& 0x01FF
def dataOff : UInt8 := (p.word 12 >>> 12).toUInt8

/-- The sequence number. -/
def seq : UInt32 :=
  ((p.buf 4).toUInt32 <<< 24) ||| ((p.buf 5).toUInt32 <<< 16) ||| ((p.buf 6).toUInt32 <<< 8) |||
    (p.buf 7).toUInt32

def hdrLen : UInt32 := p.dataOff.toUInt32 * 4
def payloadLen : UInt32 := p.len - p.hdrLen

/-- SYN and ACK. -/
def isSynAck : Bool := p.flags &&& 0x0012 == 0x0012

/-- ACK and not SYN. -/
def isAck : Bool := p.flags &&& 0x0010 != 0 && p.flags &&& 0x0002 == 0

def isFin : Bool := p.flags &&& 0x0001 != 0

/-- SYN alone. -/
def isSyn : Bool := p.len ≥ 20 && p.flags == 0x0002

end Packet

/-- The copy loop of `tcp_handle_incoming`: the number of bytes that were copied, and the memory. -/
def copyIn (p : Packet) (recvVirt : UInt64) (head : UInt32) : Nat → UInt32 → Mem → UInt32 × Mem
  | 0, pi, m => (pi, m)
  | n + 1, pi, m =>
    if pi < p.payloadLen && head + pi < 4096 then
      copyIn p recvVirt head n (pi + 1)
        (m.write8 (recvVirt + (head + pi).toUInt64) (p.buf (p.hdrLen.toUInt64 + pi.toUInt64)))
    else (pi, m)

/-- The data of a segment for the connection in `slot`. -/
def storeData (s : Net) (slot : UInt64) (p : Packet) : Net :=
  if p.len > p.hdrLen then
    let recvVirt := recvBufVirt s.pool slot
    if recvVirt != 0 then
      let head := (s.pool slot).recvHead
      let copied := copyIn p recvVirt head p.payloadLen.toNat 0 s.mem
      { s.modify slot fun c =>
          { c with recvHead := head + copied.1, seqRcv := c.seqRcv + p.payloadLen }
        with mem := copied.2 }
    else s
  else s

def tcpHandleIncoming (s : Net) (p : Packet) : Bool × Net :=
  if p.len < 20 then (false, s)
  else
    let slot := lookup s.pool p.dstPort p.srcIp p.srcPort
    let state := (s.pool slot).state
    -- the states are bare numbers here: a client is still in state 1, LISTEN
    if p.isSynAck && (slot != noSlot && state == 1) then
      (true, s.modify slot fun c => { c with state := 4, seqRcv := p.seq + 1, recvTail := 0 })
    else if p.isAck && (slot != noSlot && state == 3) then
      (true, s.modify slot fun c => { c with state := 4 })
    else if p.isAck && (slot != noSlot && state == 4) then (true, storeData s slot p)
    else if p.isFin && slot != noSlot then
      (true, s.modify slot fun c => { c with recvFin := true })
    else (false, s)

/-- The addresses of the loopback. -/
def isLoopback (ip : UInt32) : Bool := ip == 0x7F000001 || ip == 0x0A00020F

/-- `handle_server_syn` when the client is on this machine: its connection is established at once. -/
def loopbackSynAck (s : Net) (p : Packet) (serverIsn : UInt32) : Net :=
  let first := lookup s.pool p.srcPort 0x7F000001 p.dstPort
  let client := if first == noSlot then lookup s.pool p.srcPort 0x0A00020F p.dstPort else first
  if client != noSlot then
    s.modify client fun c => { c with state := 4, seqRcv := serverIsn + 1, seqSnd := p.seq + 1 }
  else s

/-- `handle_server_syn` after it has allocated the child. -/
def serverSynAck (s : Net) (p : Packet) (listenSlot child : UInt64) : Bool × Net :=
  let serverIsn : UInt32 := 0xFEEDC0DE + child.toUInt32
  let s := s.modify child fun c => { c with seqSnd := serverIsn, seqRcv := p.seq + 1 }
  let pkt := s.allocPage
  if pkt.1 == 0 then (false, free pkt.2 child)
  else
    let s := if isLoopback p.srcIp then loopbackSynAck pkt.2 p serverIsn else pkt.2
    let s := s.modify child fun c => { c with state := 3 }
    (true, acceptEnqueue s listenSlot child)

def handleServerSyn (s : Net) (p : Packet) : Bool × Net :=
  if p.len < 20 then (false, s)
  else
    let listenSlot := lookupListen s.pool p.dstPort
    if listenSlot == noSlot then (false, s)
    else
      let child := tcpAllocClient s 0 p.dstPort p.srcIp p.srcPort
      if child.1 == noSlot then (false, child.2)
      else serverSynAck child.2 p listenSlot child.1

/-- `handle_tcp_notify` (`kernel/net/netcore.salt`), without the message to NetD. -/
def handleTcpNotify (s : Net) (p : Packet) : Net :=
  if p.isSyn then
    let r := handleServerSyn s p
    if r.1 then r.2 else (tcpHandleIncoming r.2 p).2
  else (tcpHandleIncoming s p).2

/-! ### Calls -/

/-- The arguments `buf` and `len` of `tcp_recv_data`, and where the process that calls has writable pages. -/
structure UserBuf where
  addr : UInt64
  len : UInt64
  writable : UInt64 → Bool

/-- The number of bytes that `tcp_recv_data` wants to copy. -/
def recvCount (s : Net) (connId : UInt64) (buf : UserBuf) : UInt64 :=
  let avail := ((s.pool connId).recvHead - (s.pool connId).recvTail).toUInt64
  if avail > buf.len then buf.len else avail

/-- `tcp_recv_data`: the answer, the bytes that reach the process, and the state.  The failure of
`copy_to_user` is ignored.  The pages of the process are no receive buffers. -/
def tcpRecvData (s : Net) (connId : UInt64) (buf : UserBuf) : UInt64 × List UInt8 × Net :=
  if connId ≥ 1024 then (0, [], s)
  else if (s.pool connId).state != 4 then (0, [], s)
  else
    let head := (s.pool connId).recvHead
    let tail := (s.pool connId).recvTail
    if head == tail then
      if (s.pool connId).recvFin then (none64, [], s) else (0, [], s)
    else
      let recvVirt := recvBufVirt s.pool connId
      if recvVirt == 0 then (0, [], s)
      else
        let count := recvCount s connId buf
        let bytes := (List.range (Syscall.userRoom buf.writable buf.addr count)).map fun i =>
          s.mem (recvVirt + tail.toUInt64 + UInt64.ofNat i)
        (count, bytes, s.modify connId fun c => { c with recvTail := tail + count.toUInt32 })

def tcpCloseConn (s : Net) (connId : UInt64) : Net :=
  if connId ≥ 1024 then s
  else
    let bufPhys := (s.pool connId).recvBufPhys
    let s := if bufPhys != 0 then { s with released := s.released ++ [(connId, bufPhys)] } else s
    free s connId

/-- The local port of every active open: `42000 + pid * 10` with `pid` 1. -/
def clientPort : UInt16 := 42010

/-- `tcp_client_connect` until it has sent its SYN. -/
def connectBegin (s : Net) (dstIp : UInt32) (dstPort : UInt16) : UInt64 × Net :=
  let slot := tcpAllocClient s 1 clientPort dstIp dstPort
  if slot.1 == noSlot then (none64, slot.2)
  else
    let pkt := slot.2.allocPage
    if pkt.1 == 0 then (none64, free pkt.2 slot.1) else (slot.1, pkt.2)

/-- `tcp_client_connect` after it has polled: the connection is established, or its slot is freed. -/
def connectEnd (s : Net) (slot : UInt64) : Net :=
  if (s.pool slot).state != 4 then free s slot
  else
    -- the page of the final ACK is freed again, and a failure to get one is ignored
    let s := s.allocPage.2
    s.modify slot fun c => { c with seqSnd := 0xB00BFACE + 1 }

/-! ### Runs -/

/-- The connections, and the slot of a call of `tcp_client_connect` that polls. -/
structure Sys where
  net : Net
  connecting : Option UInt64

/-- The connections at boot. -/
def Sys.boot (mem : Mem) (answers : List UInt64) : Sys :=
  ⟨⟨fun _ => Tcb.zero, mem, answers, [], []⟩, none⟩

/-- A segment is received; a cookie ACK; and the calls of processes.  `connected` is the end of the
polling of an active open. -/
inductive Event where
  | receive (p : Packet)
  | ack (key : Secret) (tick : UInt64) (t : Tuple) (clientIsn ackIsn : UInt32)
  | listen (port : UInt16) (ownerPid : UInt64)
  | accept (listenSlot : UInt64)
  | recv (connId : UInt64) (buf : UserBuf)
  | close (connId : UInt64)
  | connect (dstIp : UInt32) (dstPort : UInt16)
  | connected

/-- A local call.  It waits while an active open polls. -/
def Sys.call (s : Sys) (f : Net → Net) : Sys :=
  if s.connecting.isSome then s else { s with net := f s.net }

def exec (s : Sys) : Event → Sys
  | .receive p => { s with net := handleTcpNotify s.net p }
  | .ack key tick t clientIsn ackIsn => { s with net := (handleAck key tick s.net t clientIsn ackIsn).2 }
  | .listen port ownerPid => s.call fun n => (tcpListen n port ownerPid).2
  | .accept listenSlot => s.call fun n => (tcpAccept n listenSlot).2
  | .recv connId buf => s.call fun n => (tcpRecvData n connId buf).2.2
  | .close connId => s.call fun n => tcpCloseConn n connId
  | .connect dstIp dstPort =>
    if s.connecting.isSome then s
    else
      let r := connectBegin s.net dstIp dstPort
      ⟨r.2, if r.1 == none64 then none else some r.1⟩
  | .connected =>
    match s.connecting with
    | some slot => ⟨connectEnd s.net slot, none⟩
    | none => s

end Keuos.Tcp
