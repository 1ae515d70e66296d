import Keuos.Lib.Memory
import Keuos.Lib.Run

/-!
# `user/stored/main.salt`: the rings between an application and the storage daemon

An application appends commands of 256 bytes to a command ring and takes completions of 32 bytes from a
completion ring, which are the two pages of the region at `base`.  A page is a function from the byte offsets
of its 64-bit words.

Both parties take steps in any order.  `process_app_ring` has four: it reads the command at the tail, releases
it, has the host execute it, and posts the completion.  In a run that meets the condition (`Ok`), at most one
access of a step is to a word that the application uses at that time, so smaller steps would make no
difference.  The application goes by the rules of the protocol: a step that breaks these changes nothing.

The host is outside: what it answers to a call is part of the step, and so are the bytes that it stores at the
address in the command when it reads a file.  The daemon's own memory has no address here, so a read into it
is left out.  Beside the memory there are records of what was submitted, called, posted and received, and of
the offsets that the daemon has accessed.
-/

namespace Keuos.Stored

/-! ### The protocol -/

abbrev Page := Nat → UInt64

def opOpen : UInt64 := 1
def opRead : UInt64 := 2
def opWrite : UInt64 := 3
def opClose : UInt64 := 4
def opMkdir : UInt64 := 5
def opUnlink : UInt64 := 6
def opExists : UInt64 := 7
def opMmap : UInt64 := 8

/-- `VfsCommand`, as its 32 words: the operation, the id, the descriptor, the size, and 28 words of the
path. -/
abbrev Command := Fin 32 → UInt64

/-- `VfsCompletion` -/
structure Completion where
  id : UInt64
  status : UInt64
  fd : UInt64
  size : UInt64
  deriving DecidableEq, Repr

/-- A call of the host. -/
inductive Call where
  | exists (path : Fin 28 → UInt64)
  | createDir (path : Fin 28 → UInt64)
  | removeFile (path : Fin 28 → UInt64)
  | openFile (path : Fin 28 → UInt64) (flags : UInt64)
  | readFile (fd bufPtr size : UInt64)
  | writeFile (fd bufPtr size : UInt64)
  | closeFile (fd : UInt64)
  | mmapFile (fd size offset : UInt64)

/-- The call for a command, and none for an operation that is not of the protocol. -/
def callOf (op fd size bufPtr : UInt64) (path : Fin 28 → UInt64) : Option Call :=
  if op = opExists then some (.exists path)
  else if op = opMkdir then some (.createDir path)
  else if op = opUnlink then some (.removeFile path)
  else if op = opOpen then some (.openFile path 0x0202)
  else if op = opRead then some (.readFile fd bufPtr size)
  else if op = opWrite then some (.writeFile fd bufPtr size)
  else if op = opClose then some (.closeFile fd)
  else if op = opMmap then some (.mmapFile fd size bufPtr)
  else none

/-- The completion, where the host has answered with a value or with an error. -/
def completionOf (op id : UInt64) (answer : Option UInt64) : Completion :=
  if op = opExists then ⟨id, if answer.isSome then 0 else 2, 0, 0⟩
  else if op = opMkdir ∨ op = opUnlink ∨ op = opClose then ⟨id, if answer.isSome then 0 else -1, 0, 0⟩
  else if op = opOpen ∨ op = opMmap then
    match answer with
    | some value => ⟨id, 0, value, 0⟩
    | none => ⟨id, -1, 0, 0⟩
  else if op = opRead ∨ op = opWrite then
    match answer with
    | some value => ⟨id, 0, 0, value⟩
    | none => ⟨id, -1, 0, 0⟩
  else ⟨id, 0, 0, 0⟩

/-! ### The state -/

/-- What `process_app_ring` has read of a command: where it is, and its first four words. -/
structure Taken where
  start : UInt64
  op : UInt64
  id : UInt64
  fd : UInt64
  size : UInt64

/-- Where `process_app_ring` stands. -/
inductive Daemon where
  | idle
  | taken (tail : UInt64) (command : Taken)
  | released (command : Taken)
  | executed (completion : Completion)

structure State where
  base : UInt64
  cmdRing : Page
  compRing : Page
  daemon : Daemon
  submitted : List Command
  called : List (Option Call)
  posted : List Completion
  received : List Completion
  touched : List Nat

/-- The offset of a ring's data. -/
def dataOff : Nat := 128

/-- A word is stored. -/
def Page.set (p : Page) (offset : Nat) (v : UInt64) : Page := fun o => if o = offset then v else p o

/-- The words of the page at the address `page`, after `data` has been stored at `ptr`. -/
def Page.fill (p : Page) (page ptr : UInt64) (data : List UInt8) : Page := fun o =>
  if o + 8 ≤ 4096 then
    let word := Mem.write64 (fun _ => 0) (page + UInt64.ofNat o) (p o)
    (Mem.copyIn (fun i => data.getD i 0) data.length ptr word).read64 (page + UInt64.ofNat o)
  else p o

/-- The command in a slot. -/
def commandIn (ring : Page) (start : Nat) : Command := fun k => ring (dataOff + start + 8 * k)

/-- The completion in a slot. -/
def completionIn (ring : Page) (start : Nat) : Completion :=
  ⟨ring (dataOff + start), ring (dataOff + start + 8), ring (dataOff + start + 16),
    ring (dataOff + start + 24)⟩

/-- The application has set up two empty rings. -/
def State.init (base cmdCap compCap : UInt64) (cmdRing compRing : Page) : State where
  base := base
  cmdRing := ((cmdRing.set 0 0).set 8 0).set 16 cmdCap
  compRing := ((compRing.set 0 0).set 8 0).set 16 compCap
  daemon := .idle
  submitted := []
  called := []
  posted := []
  received := []
  touched := []

/-! ### The daemon -/

/-- The next part of `process_app_ring`, with the host's answer to the call, and the bytes that it stores for
a read. -/
def serve (s : State) (answer : Option UInt64) (data : List UInt8) : State :=
  match s.daemon with
  | .idle =>
    let head := s.cmdRing 0
    let tail := s.cmdRing 8
    if head = tail then { s with touched := [0, 8] ++ s.touched }
    else
      let start := tail % s.cmdRing 16
      let data := dataOff + start.toNat
      { s with
        daemon := .taken tail
          ⟨start, s.cmdRing data, s.cmdRing (data + 8), s.cmdRing (data + 16), s.cmdRing (data + 24)⟩
        touched := [0, 8, 16, data, data + 8, data + 16, data + 24] ++ s.touched }
  -- The record is released before its pointer and its path are read.
  | .taken tail command =>
    { s with cmdRing := s.cmdRing.set 8 (tail + 256), daemon := .released command, touched := 8 :: s.touched }
  | .released command =>
    let pathPtr := dataOff + command.start.toNat + 32
    let path : Fin 28 → UInt64 := fun i => s.cmdRing (pathPtr + 8 * i)
    let bufPtr := s.cmdRing pathPtr
    let stored := if command.op = opRead then data.take command.size.toNat else []
    { s with
      cmdRing := s.cmdRing.fill s.base bufPtr stored
      compRing := s.compRing.fill (s.base + 4096) bufPtr stored
      daemon := .executed (completionOf command.op command.id answer)
      called := s.called ++ [callOf command.op command.fd command.size bufPtr path]
      touched := (List.range 28).map (pathPtr + 8 * ·) ++ s.touched }
  -- The room in the completion ring is not checked.
  | .executed completion =>
    let compHead := s.compRing 0
    let compData := dataOff + (compHead % s.compRing 16).toNat
    { s with
      compRing := ((((s.compRing.set compData completion.id).set (compData + 8) completion.status).set
        (compData + 16) completion.fd).set (compData + 24) completion.size).set 0 (compHead + 32)
      daemon := .idle
      posted := s.posted ++ [completion]
      touched := [0, 16, compData, compData + 8, compData + 16, compData + 24] ++ s.touched }

/-! ### The application -/

/-- The byte of the command ring's data is not one of the commands that are between the tail and the head. -/
def State.FreeByte (s : State) (offset : Nat) : Prop :=
  ∀ j < (s.cmdRing 0 - s.cmdRing 8).toNat, ((s.cmdRing 8 + UInt64.ofNat j) % s.cmdRing 16).toNat ≠ offset

instance instDecidableFreeByte (s : State) (offset : Nat) : Decidable (s.FreeByte offset) :=
  inferInstanceAs (Decidable (∀ _ < _, _))

/-- A word of a command goes into free space. -/
def store (s : State) (word : Nat) (v : UInt64) : State :=
  if 8 * word < (s.cmdRing 16).toNat ∧ s.FreeByte (8 * word) then
    { s with cmdRing := s.cmdRing.set (dataOff + 8 * word) v }
  else s

/-- The command at the head is submitted when there is room for it. -/
def submit (s : State) : State :=
  if (s.cmdRing 0 - s.cmdRing 8).toNat + 256 ≤ (s.cmdRing 16).toNat then
    { s with
      cmdRing := s.cmdRing.set 0 (s.cmdRing 0 + 256)
      submitted := s.submitted ++ [commandIn s.cmdRing (s.cmdRing 0 % s.cmdRing 16).toNat] }
  else s

/-- The completion at the tail is taken when there is one. -/
def receive (s : State) : State :=
  if s.compRing 8 ≠ s.compRing 0 then
    { s with
      compRing := s.compRing.set 8 (s.compRing 8 + 32)
      received := s.received ++ [completionIn s.compRing (s.compRing 8 % s.compRing 16).toNat] }
  else s

/-! ### The machine -/

inductive Op where
  | serve (answer : Option UInt64) (data : List UInt8)
  | store (word : Nat) (v : UInt64)
  | submit
  | receive

def exec (s : State) : Op → State
  | .serve answer data => serve s answer data
  | .store word v => store s word v
  | .submit => submit s
  | .receive => receive s

end Keuos.Stored
