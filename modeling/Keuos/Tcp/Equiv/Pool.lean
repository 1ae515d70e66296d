import Keuos.Tcp.Defs

/-!
# The connection pool

What each function does to the slots of the pool, said once.  A function takes at most one closed slot, and
every other slot is only edited: `Tcb.Kept` says that it keeps its ends and its receive buffer, and that a
closed slot stays as it was.

## Main results

* `scan_none`, `scan_found` – what the scans of the pool answer.
* `tcpAllocClient_refused`, `tcpAllocClient_accepted` – a slot and a receive buffer are taken, or nothing
  happens.
-/

namespace Keuos.Tcp

/-! ### Scans -/

section Scan

variable {p : UInt64 → Bool}

theorem scan_cases (n : Nat) (i : UInt64) (hn : i.toNat + n ≤ 1024) :
    (scan p n i = noSlot ∧ ∀ j, i ≤ j → j.toNat < i.toNat + n → p j = false) ∨
      (i ≤ scan p n i ∧ (scan p n i).toNat < i.toNat + n ∧ p (scan p n i) = true ∧
        ∀ j, i ≤ j → j < scan p n i → p j = false) := by
  induction n generalizing i with
  | zero =>
    refine .inl ⟨rfl, fun j hij hj => ?_⟩
    have := UInt64.le_iff_toNat_le.mp hij
    omega
  | succ n ih =>
    unfold scan
    have hnext : (i + 1).toNat = i.toNat + 1 := by
      rw [UInt64.toNat_add, UInt64.toNat_one]
      omega
    -- the slots from `i` on are `i` and the slots from `i + 1` on
    have hsplit : ∀ j, i ≤ j → j = i ∨ i + 1 ≤ j := by
      intro j hij
      have hij' := UInt64.le_iff_toNat_le.mp hij
      by_cases hj : j.toNat = i.toNat
      · exact .inl (UInt64.toNat_inj.mp hj)
      · refine .inr (UInt64.le_iff_toNat_le.mpr ?_)
        omega
    by_cases hp : p i = true
    · rw [if_pos hp]
      refine .inr ⟨UInt64.le_refl i, by omega, hp, fun j hij hji => ?_⟩
      exact absurd hij (UInt64.not_le.mpr hji)
    · rw [if_neg hp]
      have hp : p i = false := by simpa using hp
      rcases ih (i + 1) (by omega) with ⟨hnone, hall⟩ | ⟨hle, hlt, hfound, hall⟩
      · refine .inl ⟨hnone, fun j hij hj => ?_⟩
        rcases hsplit j hij with rfl | hj'
        · exact hp
        · exact hall j hj' (by omega)
      · refine .inr ⟨?_, by omega, hfound, fun j hij hj => ?_⟩
        · have := UInt64.le_iff_toNat_le.mp hle
          exact UInt64.le_iff_toNat_le.mpr (by omega)
        · rcases hsplit j hij with rfl | hj'
          · exact hp
          · exact hall j hj' hj

theorem scan_none (h : scan p 1024 0 = noSlot) {i : UInt64} (hi : i < maxTcpSockets) : p i = false := by
  have hi' : i.toNat < 1024 := UInt64.lt_iff_toNat_lt.mp hi
  rcases scan_cases (p := p) 1024 0 (by decide) with ⟨-, hall⟩ | ⟨-, hlt, -⟩
  · exact hall i (UInt64.le_iff_toNat_le.mpr (Nat.zero_le _)) (by simpa using hi')
  · rw [h] at hlt
    exact absurd hlt (by decide)

theorem scan_found (h : scan p 1024 0 ≠ noSlot) :
    scan p 1024 0 < maxTcpSockets ∧ p (scan p 1024 0) = true ∧
      ∀ j < scan p 1024 0, p j = false := by
  rcases scan_cases (p := p) 1024 0 (by decide) with ⟨hnone, -⟩ | ⟨-, hlt, hfound, hall⟩
  · exact absurd hnone h
  · have hlt' : (scan p 1024 0).toNat < 1024 := by simpa using hlt
    refine ⟨UInt64.lt_iff_toNat_lt.mpr hlt', hfound, fun j hj => ?_⟩
    exact hall j (UInt64.le_iff_toNat_le.mpr (Nat.zero_le _)) hj

end Scan

theorem lt_maxTcpSockets_ne {i : UInt64} (h : i < maxTcpSockets) : i ≠ noSlot ∧ i ≠ none64 := by
  constructor
  · rintro rfl
    exact absurd h (by decide)
  · rintro rfl
    exact absurd h (by decide)

section Found

variable {pool : Pool}

theorem closedSlot_found (h : closedSlot pool ≠ noSlot) :
    closedSlot pool < maxTcpSockets ∧ (pool (closedSlot pool)).state = tcpClosed := by
  obtain ⟨hlt, hfound, -⟩ := scan_found h
  exact ⟨hlt, beq_iff_eq.mp hfound⟩

/-- The ends of a connection. -/
def Tcb.ends (c : Tcb) : UInt16 × UInt32 × UInt16 := (c.localPort, c.remoteIp, c.remotePort)

theorem isFor_iff (c : Tcb) (localPort : UInt16) (remoteIp : UInt32) (remotePort : UInt16) :
    c.isFor localPort remoteIp remotePort = true ↔ c.ends = (localPort, remoteIp, remotePort) := by
  unfold Tcb.isFor Tcb.ends
  simp [and_assoc]

theorem lookup_found {localPort : UInt16} {remoteIp : UInt32} {remotePort : UInt16}
    (h : lookup pool localPort remoteIp remotePort ≠ noSlot) :
    lookup pool localPort remoteIp remotePort < maxTcpSockets ∧
      (pool (lookup pool localPort remoteIp remotePort)).state ≠ tcpClosed ∧
      (pool (lookup pool localPort remoteIp remotePort)).ends = (localPort, remoteIp, remotePort) := by
  obtain ⟨hlt, hfound, -⟩ := scan_found h
  obtain ⟨hstate, hends⟩ := Bool.and_eq_true_iff.mp hfound
  exact ⟨hlt, bne_iff_ne.mp hstate, (isFor_iff ..).mp hends⟩

theorem lookup_none {localPort : UInt16} {remoteIp : UInt32} {remotePort : UInt16}
    (h : lookup pool localPort remoteIp remotePort = noSlot) {i : UInt64} (hi : i < maxTcpSockets)
    (hstate : (pool i).state ≠ tcpClosed) : (pool i).ends ≠ (localPort, remoteIp, remotePort) := by
  intro hends
  have hfalse := scan_none h hi
  rw [(isFor_iff ..).mpr hends] at hfalse
  simp [hstate] at hfalse

theorem lookupListen_found {port : UInt16} (h : lookupListen pool port ≠ noSlot) :
    lookupListen pool port < maxTcpSockets ∧
      (pool (lookupListen pool port)).state = tcpListenState ∧
      (pool (lookupListen pool port)).localPort = port := by
  obtain ⟨hlt, hfound, -⟩ := scan_found h
  obtain ⟨hstate, hport⟩ := Bool.and_eq_true_iff.mp hfound
  exact ⟨hlt, beq_iff_eq.mp hstate, beq_iff_eq.mp hport⟩

/-- `lookup_listen` finds the lowest slot. -/
theorem lookupListen_below {port : UInt16} (h : lookupListen pool port ≠ noSlot) {j : UInt64}
    (hj : j < lookupListen pool port) (hstate : (pool j).state = tcpListenState) :
    (pool j).localPort ≠ port := by
  obtain ⟨-, -, hbelow⟩ := scan_found h
  intro hport
  have hno := hbelow j hj
  rw [hstate, hport] at hno
  simp at hno

end Found

/-! ### Edits -/

@[simp] theorem modify_self (pool : Pool) (slot : UInt64) (f : Tcb → Tcb) :
    pool.modify slot f slot = f (pool slot) :=
  Function.update_self ..

theorem modify_of_ne (pool : Pool) {slot i : UInt64} (hi : i ≠ slot) (f : Tcb → Tcb) :
    pool.modify slot f i = pool i :=
  Function.update_of_ne hi ..

@[simp] theorem pool_modify (s : Net) (slot : UInt64) (f : Tcb → Tcb) :
    (s.modify slot f).pool = s.pool.modify slot f := rfl

@[simp] theorem pool_allocPage (s : Net) : s.allocPage.2.pool = s.pool := by
  unfold Net.allocPage
  split
  · rfl
  · rfl

/-- What an edit keeps of a connection.  Its state stays, or becomes ESTABLISHED. -/
structure Tcb.Kept (c c' : Tcb) : Prop where
  ends : c'.ends = c.ends
  buf : c'.recvBufPhys = c.recvBufPhys
  closed : c.state = tcpClosed → c' = c
  state : c'.state = c.state ∨ c.state ≠ tcpClosed ∧ c'.state = tcpEstablished

theorem Tcb.Kept.refl (c : Tcb) : c.Kept c := ⟨rfl, rfl, fun _ => rfl, .inl rfl⟩

theorem Tcb.Kept.open_iff {c c' : Tcb} (h : c.Kept c') : c'.state = tcpClosed ↔ c.state = tcpClosed := by
  rcases h.state with hs | ⟨hopen, hs⟩
  · rw [hs]
  · rw [hs]
    exact ⟨fun h => absurd h (by decide), fun h => absurd h hopen⟩

theorem Tcb.Kept.of_open {c c' : Tcb} (hopen : c.state ≠ tcpClosed) (hends : c'.ends = c.ends)
    (hbuf : c'.recvBufPhys = c.recvBufPhys) (hstate : c'.state = c.state ∨ c'.state = tcpEstablished) :
    c.Kept c' where
  ends := hends
  buf := hbuf
  closed h := absurd h hopen
  state := hstate.imp_right fun h => ⟨hopen, h⟩

/-! ### Taking a slot -/

/-- The closed slots are as at boot. -/
def ClosedEmpty (pool : Pool) : Prop := ∀ i, (pool i).state = tcpClosed → pool i = Tcb.zero

@[simp] theorem taken_allocPage (s : Net) : s.allocPage.2.taken = s.taken := by
  unfold Net.allocPage
  split
  · rfl
  · rfl

@[simp] theorem released_allocPage (s : Net) : s.allocPage.2.released = s.released := by
  unfold Net.allocPage
  split
  · rfl
  · rfl

theorem allocPage_modify (s : Net) (slot : UInt64) (f : Tcb → Tcb) :
    (s.modify slot f).allocPage = (s.allocPage.1, s.allocPage.2.modify slot f) := by
  unfold Net.allocPage Net.modify
  dsimp only
  split
  · rfl
  · rfl

theorem modify_modify (pool : Pool) (slot : UInt64) (f g : Tcb → Tcb) :
    (pool.modify slot f).modify slot g = pool.modify slot (g ∘ f) := by
  unfold Pool.modify
  rw [Function.update_self, Function.update_idem]
  rfl

theorem ClosedEmpty.modify_zero {pool : Pool} (h : ClosedEmpty pool) {slot : UInt64}
    (hslot : (pool slot).state = tcpClosed) {f : Tcb → Tcb} (hf : ∀ c, f c = Tcb.zero) :
    pool.modify slot f = pool := by
  unfold Pool.modify
  rw [hf, ← h slot hslot, Function.update_eq_self]

theorem alloc_none {s : Net} (h : closedSlot s.pool = noSlot) : alloc s = (noSlot, s) := by
  unfold alloc
  dsimp only
  rw [if_pos (beq_iff_eq.mpr h)]

theorem alloc_some {s : Net} (h : closedSlot s.pool ≠ noSlot) :
    alloc s = (closedSlot s.pool,
      s.modify (closedSlot s.pool) fun c => { c with state := tcpListenState }) := by
  unfold alloc
  dsimp only
  rw [if_neg (mt beq_iff_eq.mp h)]

/-- `tcp_alloc_client` finds a slot and a page. -/
def canAlloc (s : Net) : Bool := closedSlot s.pool != noSlot && s.allocPage.1 != 0

/-- The connection that `tcp_alloc_client` sets up. -/
def clientTcb (pid : UInt64) (localPort : UInt16) (remoteIp : UInt32) (remotePort : UInt16)
    (buf : UInt64) : Tcb :=
  { Tcb.zero with
    state := tcpListenState
    ownerPid := pid
    localPort := localPort
    remoteIp := remoteIp
    remotePort := remotePort
    recvBufPhys := buf }

section Alloc

variable {s : Net} (h : ClosedEmpty s.pool) (pid : UInt64) (localPort : UInt16) (remoteIp : UInt32)
  (remotePort : UInt16)

include h

theorem tcpAllocClient_refused (hno : canAlloc s = false) :
    (tcpAllocClient s pid localPort remoteIp remotePort).1 = noSlot ∧
      (tcpAllocClient s pid localPort remoteIp remotePort).2.pool = s.pool ∧
      (tcpAllocClient s pid localPort remoteIp remotePort).2.taken = s.taken ∧
      (tcpAllocClient s pid localPort remoteIp remotePort).2.released = s.released := by
  unfold tcpAllocClient
  by_cases hslot : closedSlot s.pool = noSlot
  · rw [alloc_none hslot]
    dsimp only
    rw [if_pos (beq_self_eq_true _)]
    exact ⟨rfl, rfl, rfl, rfl⟩
  · obtain ⟨hlt, hclosed⟩ := closedSlot_found hslot
    have hpage : s.allocPage.1 = 0 := by simpa [canAlloc, hslot] using hno
    rw [alloc_some hslot]
    dsimp only
    rw [if_neg (mt beq_iff_eq.mp hslot), allocPage_modify, hpage,
      if_pos (beq_self_eq_true _)]
    unfold free
    rw [if_neg (UInt64.not_le.mpr hlt)]
    refine ⟨rfl, ?_, taken_allocPage s, released_allocPage s⟩
    simp only [pool_modify, pool_allocPage]
    rw [modify_modify]
    exact h.modify_zero hclosed fun _ => rfl

theorem tcpAllocClient_accepted (hok : canAlloc s = true) :
    (tcpAllocClient s pid localPort remoteIp remotePort).1 = closedSlot s.pool ∧
      (tcpAllocClient s pid localPort remoteIp remotePort).2 =
        { s.allocPage.2 with
          pool := Function.update s.pool (closedSlot s.pool)
            (clientTcb pid localPort remoteIp remotePort s.allocPage.1)
          taken := s.taken ++ [(closedSlot s.pool, s.allocPage.1)] } := by
  obtain ⟨hslot, hpage⟩ := Bool.and_eq_true_iff.mp hok
  have hslot := bne_iff_ne.mp hslot
  obtain ⟨-, hclosed⟩ := closedSlot_found hslot
  unfold tcpAllocClient
  rw [alloc_some hslot]
  dsimp only
  rw [if_neg (mt beq_iff_eq.mp hslot), allocPage_modify,
    if_neg (mt beq_iff_eq.mp (bne_iff_ne.mp hpage))]
  refine ⟨rfl, ?_⟩
  unfold Net.modify
  dsimp only
  rw [modify_modify, pool_allocPage, taken_allocPage]
  unfold Pool.modify
  rw [h _ hclosed]
  rfl

end Alloc

end Keuos.Tcp
