import Keuos.Lib.Circular
import Keuos.Lib.Memory
import Keuos.Lib.Prog

/-!
# The RTL8125 network card (`kernel/drivers/rtl8125.salt`)

The driver and the card share two rings of 256 descriptors of 16 bytes: the flags, and in the words at 8 and
12 the physical address of a buffer.  A descriptor whose `DESC_OWN` bit is set belongs to the card, which goes
through each ring in order and hands a descriptor back by clearing the bit.

Each access of the memory and of `RX_CUR` is one atomic operation, so the card may act between any two of
them.  The fences change nothing of the state.  The card starts after `init_rings`, whose `pmm.alloc` is a
parameter of the model.
-/

namespace Keuos.Rtl8125

def kernelBase : UInt64 := 0xFFFFFFFF80000000

def descSize : UInt64 := 16

def numRxDesc : UInt64 := 256

def numTxDesc : UInt64 := 256

def descOwn : UInt32 := 0x80000000

def descEor : UInt32 := 0x40000000

/-! ### Operations -/

/-- `get` and `set` are for `RX_CUR`. -/
inductive CardOp where
  | load32 (a : UInt64)
  | store32 (a : UInt64) (v : UInt32)
  | get
  | set (v : UInt64)
  | handBack (ring : UInt64) (flags : UInt32)
  deriving DecidableEq, Repr

/-- The state of the driver, which is `RX_CUR`, and of the card, whose next descriptor in the ring is the one
at `position`. -/
structure Card where
  mem : Mem
  rxCur : UInt64
  position : Nat

/-- The address of the word at the offset `off` of the descriptor with the index `i`. -/
def descWord (ring : UInt64) (i off : Nat) : UInt64 :=
  ring + UInt64.ofNat (16 * i + off)

/-- The card owns the descriptor. -/
def Owned (ring : UInt64) (m : Mem) (i : Nat) : Prop :=
  m.read32 (descWord ring i 0) &&& descOwn ≠ 0

instance (ring : UInt64) (m : Mem) (i : Nat) : Decidable (Owned ring m i) :=
  inferInstanceAs (Decidable (_ ≠ _))

/-- The address in the descriptor. -/
def page (ring : UInt64) (m : Mem) (i : Nat) : UInt64 :=
  join (m.read32 (descWord ring i 8)) (m.read32 (descWord ring i 12))

/-- The card hands back its next descriptor of a ring, if it owns it. -/
def Card.handBack (s : Card) (ring : UInt64) (flags : UInt32) : Card :=
  if Owned ring s.mem (s.position % 256) then
    { s with
      mem := s.mem.write32 (descWord ring (s.position % 256) 0) (flags &&& ~~~descOwn)
      position := s.position + 1 }
  else s

/-- The response to an operation and the state after it. -/
def CardOp.sem : CardOp → Card → UInt64 × Card
  | .load32 a, s => ((s.mem.read32 a).toUInt64, s)
  | .store32 a v, s => (0, { s with mem := s.mem.write32 a v })
  | .get, s => (s.rxCur, s)
  | .set v, s => (0, { s with rxCur := v })
  | .handBack ring flags, s => (0, s.handBack ring flags)

abbrev CardProg := Prog CardOp UInt64

def load32 (a : UInt64) : CardProg UInt32 :=
  .op (.load32 a) fun r => .ret r.toUInt32

def store32 (a : UInt64) (v : UInt32) : CardProg Unit :=
  .op (.store32 a v) fun _ => .ret ()

def get : CardProg UInt64 :=
  .op .get .ret

def set (v : UInt64) : CardProg Unit :=
  .op (.set v) fun _ => .ret ()

/-! ### Initialization -/

/-- The first loop of `init_rings`, before the descriptor `n`, which gets the page `alloc n`. -/
def initRxRing (rxRing : UInt64) (alloc : Nat → UInt64) : Nat → Mem → Mem
  | 0, m => m
  | idx + 1, m =>
    let m := initRxRing rxRing alloc idx m
    let descPtr := rxRing + UInt64.ofNat idx * descSize
    let bufPhys := alloc idx
    let flags := descOwn ||| 1514
    let flags := if UInt64.ofNat idx == numRxDesc - 1 then flags ||| descEor else flags
    let m := m.write32 (descPtr + 0) flags
    let m := m.write32 (descPtr + 4) 0
    let m := m.write32 (descPtr + 8) (bufPhys &&& 0xFFFFFFFF).toUInt32
    m.write32 (descPtr + 12) ((bufPhys >>> 32) &&& 0xFFFFFFFF).toUInt32

/-- The second loop of `init_rings`, before the descriptor `n`. -/
def initTxRing (txRing : UInt64) : Nat → Mem → Mem
  | 0, m => m
  | idx + 1, m =>
    let m := initTxRing txRing idx m
    let descPtr := txRing + UInt64.ofNat idx * descSize
    m.write32 (descPtr + 0) (if UInt64.ofNat idx == numTxDesc - 1 then descEor else 0)

/-- `init_rings`, whose call number `n` of `pmm.alloc` returns `alloc n`. -/
def initRings (alloc : Nat → UInt64) (s : Card) : Card :=
  let rxRingVirt := alloc 0 + kernelBase
  let txRingVirt := alloc 1 + kernelBase
  let m := initRxRing rxRingVirt (fun idx => alloc (idx + 2)) 256 s.mem
  { s with mem := initTxRing txRingVirt 256 m }

/-! ### The functions -/

/-- `rx_poll`: the buffer and the length of the frame. -/
def rxPoll (rxRing : UInt64) : CardProg (Option (UInt64 × UInt32)) := do
  let cur ← get
  let descPtr := rxRing + cur * descSize
  let flags ← load32 (descPtr + 0)
  if flags &&& descOwn != 0 then pure none
  else do
    let pktLen := flags &&& 0x3FFF
    let bufPhysLow ← load32 (descPtr + 8)
    let bufPhysHigh ← load32 (descPtr + 12)
    let bufVirt := join bufPhysLow bufPhysHigh + kernelBase
    let cur ← get
    set ((cur + 1) % numRxDesc)
    pure (some (bufVirt, pktLen))

def rxRepost (rxRing bufVirt : UInt64) : CardProg Unit := do
  let cur ← get
  let targetIdx := (cur + numRxDesc - 1) % numRxDesc
  let descPtr := rxRing + targetIdx * descSize
  let bufPhys := bufVirt - kernelBase
  store32 (descPtr + 8) (bufPhys &&& 0xFFFFFFFF).toUInt32
  store32 (descPtr + 12) ((bufPhys >>> 32) &&& 0xFFFFFFFF).toUInt32
  let flags := descOwn ||| 1514
  store32 (descPtr + 0) (if targetIdx == numRxDesc - 1 then flags ||| descEor else flags)

/-! ### The driver and the card -/

inductive Side where
  | driver | card
  deriving DecidableEq, Repr

inductive RxCall where
  | poll
  | repost (bufVirt : UInt64)

/-- The state, the frames that the card has received (the buffer and the length), those that `rx_poll` has
returned, the buffers that it has returned and that have not been reposted, and for each poll whether it
returned a frame and how many frames were waiting when it read the flags.  `waiting` is that number for the
poll in progress. -/
structure RxLine where
  card : Card
  received : List (UInt64 × UInt32)
  returned : List (UInt64 × UInt32)
  held : List UInt64
  answers : List (Bool × Nat)
  waiting : Nat

/-- The driver counts the frames that are waiting. -/
def RxLine.count (s : RxLine) : RxLine :=
  { s with waiting := s.received.length - s.returned.length }

/-- What an operation of the driver does to the records. -/
def afterRx (rxRing : UInt64) (s : RxLine) : CardOp → RxLine
  | .load32 a => if a = descWord rxRing s.card.rxCur.toNat 0 then s.count else s
  | _ => s

/-- The card stores a frame into the buffer of its next descriptor, if it owns it, and hands it back. -/
def RxLine.receive (s : RxLine) (rxRing : UInt64) (flags : UInt32) : RxLine :=
  { s with
    card := s.card.handBack rxRing flags
    received :=
      if Owned rxRing s.card.mem (s.card.position % 256) then
        s.received ++ [(page rxRing s.card.mem (s.card.position % 256), flags &&& 0x3FFF)]
      else s.received }

/-- The driver and the card, at the receive ring. -/
def rxMachine (rxRing : UInt64) : Machine Side CardOp UInt64 RxLine where
  Call
    | .driver => RxCall
    | .card => UInt32
  Res
    | .driver => Option (UInt64 × UInt32)
    | .card => Unit
  body
    | .driver, (c : RxCall) =>
      match c with
      | .poll => rxPoll rxRing
      | .repost bufVirt => do
        rxRepost rxRing bufVirt
        pure none
    | .card, (flags : UInt32) => .op (.handBack rxRing flags) fun _ => .ret ()
  step
    | .driver, _, o, s => ((o.sem s.card).1, { afterRx rxRing s o with card := (o.sem s.card).2 })
    | .card, (flags : UInt32), _, s => (0, s.receive rxRing flags)
  finish
    | .driver, (c : RxCall), (a : Option (UInt64 × UInt32)), _, s =>
      match c with
      | .poll =>
        { s with
          returned := s.returned ++ a.toList
          held := s.held ++ (a.map Prod.fst).toList
          answers := s.answers ++ [(a.isSome, s.waiting)] }
      | .repost _ => { s with held := s.held.tail }
    | .card, _, _, _, s => s

/-- The receive ring after `init_rings` (`freshRx_initRings`): the card owns all of the descriptors, and their
buffers are different. -/
structure FreshRx (rxRing : UInt64) (s : Card) : Prop where
  rx : s.rxCur = 0
  position : s.position = 0
  owned : ∀ i < 256, Owned rxRing s.mem i
  distinct : ∀ i < 256, ∀ j < 256, page rxRing s.mem i = page rxRing s.mem j → i = j

def RxLine.init (s : Card) : RxLine :=
  ⟨s, [], [], [], [], 0⟩

/-- The frame as `rx_poll` returns it. -/
def virtFrame (frame : UInt64 × UInt32) : UInt64 × UInt32 :=
  (frame.1 + kernelBase, frame.2)

/-- **Every received frame is delivered once**: the polls return the received frames, in order, each with its
buffer, and find a frame exactly when one is waiting; no buffer is in two descriptors; and when all frames
have been polled and all buffers reposted, the card owns all descriptors again. -/
structure RxLaw (rxRing : UInt64) (cfg : (rxMachine rxRing).Config) : Prop where
  order : cfg.shared.returned <+: cfg.shared.received.map virtFrame
  answers : ∀ x ∈ cfg.shared.answers, x.1 = true ↔ 0 < x.2
  distinct : ∀ i < 256, ∀ j < 256,
    page rxRing cfg.shared.card.mem i = page rxRing cfg.shared.card.mem j → i = j
  owned : cfg.thread .driver = none → cfg.shared.held = [] →
    cfg.shared.returned.length = cfg.shared.received.length → ∀ i < 256, Owned rxRing cfg.shared.card.mem i

/-- A repost is for the buffer that has been held longest. -/
def Ordered (rxRing : UInt64) (cfg : (rxMachine rxRing).Config) : (rxMachine rxRing).Event → Prop
  | .call .driver (.repost bufVirt) => cfg.shared.held.head? = some bufVirt
  | _ => True

instance (rxRing : UInt64) (cfg : (rxMachine rxRing).Config) : ∀ e, Decidable (Ordered rxRing cfg e)
  | .call .driver (.repost bufVirt) => inferInstanceAs (Decidable (cfg.shared.held.head? = some bufVirt))
  | .call .driver .poll => isTrue trivial
  | .call .card _ => isTrue trivial
  | .step _ => isTrue trivial

/-- The condition on a step under which the frames are delivered: a repost is for the only buffer that is
held, and a poll is made while fewer than 256 are. -/
def OneHeld (rxRing : UInt64) : (i : Side) → (rxMachine rxRing).Call i → CardOp → RxLine → Prop
  | .driver, .repost bufVirt, .get, s => s.held = [bufVirt]
  | .driver, .poll, .get, s => s.held.length < 256
  | _, _, _, _ => True

instance (rxRing : UInt64) : ∀ i c o s, Decidable (OneHeld rxRing i c o s)
  | .card, _, _, _ => isTrue trivial
  | .driver, .repost bufVirt, .get, s => inferInstanceAs (Decidable (s.held = [bufVirt]))
  | .driver, .poll, .get, s => inferInstanceAs (Decidable (s.held.length < 256))
  | .driver, .repost _, .load32 _, _ => isTrue trivial
  | .driver, .repost _, .store32 _ _, _ => isTrue trivial
  | .driver, .repost _, .set _, _ => isTrue trivial
  | .driver, .repost _, .handBack _ _, _ => isTrue trivial
  | .driver, .poll, .load32 _, _ => isTrue trivial
  | .driver, .poll, .store32 _ _, _ => isTrue trivial
  | .driver, .poll, .set _, _ => isTrue trivial
  | .driver, .poll, .handBack _ _, _ => isTrue trivial

end Keuos.Rtl8125
