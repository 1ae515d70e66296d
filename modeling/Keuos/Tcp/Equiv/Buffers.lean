import Keuos.Tcp.Equiv.Calls

/-!
# The receive buffers

A connection gets a page for its receive buffer with its slot, and `tcp_close_conn` gives it back.  Where the
set-up of a connection fails later, the slot is freed with `tcp_free`, which forgets the page.

## Main results

* `buffers_of_complete` – in every run in which no set-up fails after it has its buffer, the pages taken for a
  slot are those that were given back, in the same order, and then the one it has.
-/

namespace Keuos.Tcp

/-- The pages of a slot, in order. -/
def pagesOf (slot : UInt64) (l : List (UInt64 × UInt64)) : List UInt64 :=
  (l.filter fun x => x.1 == slot).map Prod.snd

@[simp] theorem pagesOf_append (slot : UInt64) (l l' : List (UInt64 × UInt64)) :
    pagesOf slot (l ++ l') = pagesOf slot l ++ pagesOf slot l' := by
  unfold pagesOf
  rw [List.filter_append, List.map_append]

theorem pagesOf_self (slot page : UInt64) : pagesOf slot [(slot, page)] = [page] := by
  simp [pagesOf]

theorem pagesOf_of_ne {slot i : UInt64} (h : i ≠ slot) (page : UInt64) : pagesOf i [(slot, page)] = [] := by
  have hne : (slot == i) = false := by simpa using h.symm
  simp [pagesOf, hne]

/-- The receive buffer of a connection. -/
def bufferOf (c : Tcb) : List UInt64 := if c.recvBufPhys = 0 then [] else [c.recvBufPhys]

theorem bufferOf_eq {c c' : Tcb} (h : c'.recvBufPhys = c.recvBufPhys) : bufferOf c' = bufferOf c := by
  unfold bufferOf
  rw [h]

/-- Every page that was taken for a slot was given back, or is its buffer. -/
def Conserved (s : Sys) : Prop :=
  ∀ i, pagesOf i s.net.taken = pagesOf i s.net.released ++ bufferOf (s.net.pool i)

/-- A set-up that gets a receive buffer does not fail later. -/
def Complete (s : Sys) : Event → Prop
  | .receive p => p.isSyn = true → takesBuffer s.net p = true → acceptsSyn s.net p = true
  | .connect .. => s.connecting = none → canAlloc s.net = true → canConnect s.net = true
  | .connected => ∀ slot, s.connecting = some slot → (s.net.pool slot).state = tcpEstablished
  | _ => True

section Conserved

variable {s : Sys} (h : Conserved s) {net : Net} {connecting : Option UInt64}

include h

theorem Conserved.same (htaken : net.taken = s.net.taken) (hreleased : net.released = s.net.released)
    (hbuf : ∀ i, (net.pool i).recvBufPhys = (s.net.pool i).recvBufPhys) : Conserved ⟨net, connecting⟩ := by
  intro i
  dsimp only
  rw [htaken, hreleased, bufferOf_eq (hbuf i)]
  exact h i

theorem Conserved.take {slot page : UInt64} (hempty : s.net.pool slot = Tcb.zero) (hpage : page ≠ 0)
    (htaken : net.taken = s.net.taken ++ [(slot, page)]) (hreleased : net.released = s.net.released)
    (hslot : (net.pool slot).recvBufPhys = page)
    (hothers : ∀ i ≠ slot, (net.pool i).recvBufPhys = (s.net.pool i).recvBufPhys) :
    Conserved ⟨net, connecting⟩ := by
  intro i
  dsimp only
  rw [htaken, hreleased, pagesOf_append, h i]
  by_cases hi : i = slot
  · rw [hi, hempty, pagesOf_self]
    unfold bufferOf
    rw [hslot, if_neg hpage, if_pos (show Tcb.zero.recvBufPhys = 0 from rfl), List.append_nil]
  · rw [pagesOf_of_ne hi, List.append_nil, bufferOf_eq (hothers i hi)]

theorem Conserved.open {slot : UInt64} {c : Tcb} (hempty : s.net.pool slot = Tcb.zero)
    (hc : c.recvBufPhys = 0) :
    Conserved ⟨{ s.net with pool := Function.update s.net.pool slot c }, connecting⟩ := by
  refine h.same rfl rfl fun i => ?_
  dsimp only
  by_cases hi : i = slot
  · rw [hi, Function.update_self, hempty, hc]
    rfl
  · rw [Function.update_of_ne hi]

theorem Conserved.close {slot : UInt64} (hslot : slot < maxTcpSockets) :
    Conserved ⟨tcpCloseConn s.net slot, connecting⟩ := by
  intro i
  rw [tcpCloseConn_eq slot hslot]
  dsimp only
  rw [pagesOf_append, h i]
  by_cases hi : i = slot
  · rw [hi, Function.update_self]
    unfold bufferOf
    by_cases hbuf : (s.net.pool slot).recvBufPhys = 0
    · rw [if_pos hbuf, if_pos hbuf, if_pos (show Tcb.zero.recvBufPhys = 0 from rfl),
        show pagesOf slot [] = [] from rfl, List.append_nil, List.append_nil]
    · rw [if_neg hbuf, if_neg hbuf, if_pos (show Tcb.zero.recvBufPhys = 0 from rfl), pagesOf_self,
        List.append_nil]
  · have hnone : pagesOf i (if (s.net.pool slot).recvBufPhys = 0 then []
        else [(slot, (s.net.pool slot).recvBufPhys)]) = [] := by
      split
      · rfl
      · exact pagesOf_of_ne hi _
    rw [hnone, List.append_nil, Function.update_of_ne hi]

end Conserved

/-- **One step** that completes what it sets up conserves the pages. -/
theorem Conserved.step {s s' : Sys} {e : Event} (h : Conserved s) (hwf : WellFormed s)
    (hcomplete : Complete s e) (hstep : Step s e s') : Conserved s' := by
  have hpage : canAlloc s.net = true → s.net.allocPage.1 ≠ 0 :=
    fun hok => bne_iff_ne.mp (Bool.and_eq_true_iff.mp hok).2
  have hempty : closedSlot s.net.pool ≠ noSlot → s.net.pool (closedSlot s.net.pool) = Tcb.zero :=
    fun hslot => hwf.closed _ (closedSlot_found hslot).2
  have hslot_of : canAlloc s.net = true → closedSlot s.net.pool ≠ noSlot :=
    fun hok => bne_iff_ne.mp (Bool.and_eq_true_iff.mp hok).1
  cases hstep with
  | wait | ackRefused | listenFull | closeNone | connectedNone => exact h
  | synAccepted p hsyn hok =>
    have halloc := canAlloc_of_acceptsSyn hok
    obtain ⟨-, hreleased, htaken, -, -, hbuf, hothers⟩ := handleServerSyn_accepted hwf.closed hok
    exact h.take (hempty (hslot_of halloc)) (hpage halloc) htaken hreleased hbuf
      fun i hi => (hothers i hi).1.buf
  | synRefused p hsyn hno =>
    obtain ⟨-, hpool, hreleased, htaken⟩ := handleServerSyn_refused hwf.closed hno
    -- a refused SYN has taken no buffer
    have hnone : ¬takesBuffer s.net p = true := by
      intro htakes
      rw [hcomplete hsyn htakes] at hno
      cases hno
    rw [if_neg hnone] at htaken
    exact h.same htaken hreleased fun i => by rw [hpool]
  | segment p hsyn =>
    obtain ⟨htaken, hreleased, hreceived⟩ := tcpHandleIncoming_received s.net p
    exact h.same htaken hreleased fun i => (hreceived i).buf
  | ackAccepted key tick t clientIsn ackIsn hok =>
    exact h.open (hempty (bne_iff_ne.mp (Bool.and_eq_true_iff.mp hok).2)) rfl
  | listen port ownerPid hnone hslot => exact h.open (hempty hslot) rfl
  | accept listenSlot hnone =>
    obtain ⟨htaken, hreleased, hused⟩ := tcpAccept_used (s := s.net) listenSlot
    exact h.same htaken hreleased fun i => (hused i).buf
  | recv connId buf hnone =>
    obtain ⟨htaken, hreleased, hused⟩ := tcpRecvData_used (s := s.net) connId buf
    exact h.same htaken hreleased fun i => (hused i).1.buf
  | close connId hnone hid => exact h.close hid
  | connectRefused dstIp dstPort hnone hno =>
    obtain ⟨-, hpool, hreleased, htaken⟩ := connectBegin_refused hwf.closed hno dstIp dstPort
    have hnoalloc : ¬canAlloc s.net = true := by
      intro halloc
      rw [hcomplete hnone halloc] at hno
      cases hno
    rw [if_neg hnoalloc] at htaken
    exact h.same htaken hreleased fun i => by rw [hpool]
  | connectAccepted dstIp dstPort hnone hok =>
    have halloc := canAlloc_of_canConnect hok
    obtain ⟨-, hpool, hreleased, htaken⟩ := connectBegin_accepted hwf.closed hok dstIp dstPort
    refine h.take (hempty (hslot_of halloc)) (hpage halloc) htaken hreleased ?_ fun i hi => ?_
    · rw [hpool, Function.update_self]
      rfl
    · rw [hpool, Function.update_of_ne hi]
  | connectedFailed slot hpolls hstate => exact absurd (hcomplete slot hpolls) hstate
  | connectedOk slot hpolls hstate =>
    obtain ⟨htaken, hreleased, hused⟩ := connectEnd_used (s := s.net) hstate
    exact h.same htaken hreleased fun i => (hused i).1.buf

/-- **The receive buffers are conserved** in every run in which no set-up of a connection fails after it
has its buffer: the pages that were given back for a slot are the first of those that were taken for it, so
each is given back at most once, and they are all of them when the slot is closed. -/
theorem buffers_of_complete (mem : Mem) (answers : List UInt64) (es : List Event)
    (hok : Admissible exec Complete (Sys.boot mem answers) es) (i : UInt64) :
    pagesOf i (runOps exec (Sys.boot mem answers) es).net.released <+:
        pagesOf i (runOps exec (Sys.boot mem answers) es).net.taken ∧
      (((runOps exec (Sys.boot mem answers) es).net.pool i).state = tcpClosed →
        pagesOf i (runOps exec (Sys.boot mem answers) es).net.taken =
          pagesOf i (runOps exec (Sys.boot mem answers) es).net.released) := by
  have hboot : Conserved (Sys.boot mem answers) := fun _ => rfl
  obtain ⟨hwf, hconserved⟩ := runOps_induction (I := fun s => WellFormed s ∧ Conserved s)
    (fun s e hs hcomplete =>
      ⟨hs.1.step (exec_step hs.1 e), hs.2.step hs.1 hcomplete (exec_step hs.1 e)⟩)
    ⟨wellFormed_boot mem answers, hboot⟩ hok
  refine ⟨⟨_, (hconserved i).symm⟩, fun hclosed => ?_⟩
  rw [hconserved i, hwf.closed i hclosed]
  exact List.append_nil _

/-- A SYN gets a page for its buffer and one for the answer, and its connection is closed again. -/
def openAndClose : List Event :=
  [.listen 80 0, .receive (bareSegment 1 5 80 2), .close 1]

theorem buffers_of_complete_openAndClose :
    pagesOf 1 (runOps exec (Sys.boot (fun _ => 0) [0x1000, 0x2000]) openAndClose).net.taken = [0x1000] ∧
      pagesOf 1 (runOps exec (Sys.boot (fun _ => 0) [0x1000, 0x2000]) openAndClose).net.taken =
        pagesOf 1 (runOps exec (Sys.boot (fun _ => 0) [0x1000, 0x2000]) openAndClose).net.released := by
  have hok : Admissible exec Complete (Sys.boot (fun _ => 0) [0x1000, 0x2000]) openAndClose := by
    refine ⟨trivial, fun _ _ => ?_, trivial, trivial⟩
    rw [exec_boot_listen]
    decide +kernel
  refine ⟨?_, (buffers_of_complete (fun _ => 0) [0x1000, 0x2000] openAndClose hok 1).2 ?_⟩
  · unfold openAndClose
    rw [runOps_cons, exec_boot_listen]
    decide +kernel
  · unfold openAndClose
    rw [runOps_cons, exec_boot_listen]
    decide +kernel

/-- An active open that finds one page: its buffer is lost. -/
theorem not_conserved_of_failed_connect :
    ¬∀ (mem : Mem) (answers : List UInt64) (es : List Event) (i : UInt64),
      ((runOps exec (Sys.boot mem answers) es).net.pool i).state = tcpClosed →
        pagesOf i (runOps exec (Sys.boot mem answers) es).net.taken =
          pagesOf i (runOps exec (Sys.boot mem answers) es).net.released := by
  intro h
  obtain ⟨-, hpool, hreleased, htaken⟩ := connectBegin_refused
    (wellFormed_boot (fun _ => 0) [0x1000]).closed (by decide +kernel) 1 8080
  have h := h (fun _ => 0) [0x1000] [.connect 1 8080] 0
  have hidle : (Sys.boot (fun _ => 0) [0x1000]).connecting = none := rfl
  rw [runOps_cons, runOps_nil] at h
  unfold exec at h
  dsimp only at h
  rw [hidle, if_neg (by decide), hpool, hreleased, htaken] at h
  exact absurd (h rfl) (by decide +kernel)

end Keuos.Tcp
