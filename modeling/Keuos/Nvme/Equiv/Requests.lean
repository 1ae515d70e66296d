import Keuos.Nvme.Equiv.Commands
import Keuos.Nvme.Equiv.Queues
import Keuos.Nvme.Equiv.Slots

/-!
# The block device is an atomic disk

In the abstract, a request is served at one moment: `Atomic` has the disk and, for each task, its request
before that moment and the bytes of its buffer after it.  The tasks, the queues and the controller simulate
this disk: a request is served when the controller completes its command.

## Main results

* `requests_atomic`: whatever the order of the steps, the calls and returns of the block device are those of
  the atomic disk, with the same bytes, and the disks end up the same.
-/

namespace Keuos.Nvme

/-! ### The atomic disk -/

inductive Pending where
  | idle
  | pending (req : BlockRequest)
  | served (req : BlockRequest) (buffer : Bytes)

structure Atomic (τ : Type) where
  disk : Disk
  tasks : τ → Pending

inductive AtomicAct (τ : Type) where
  | call (t : τ) (req : BlockRequest)
  | serve (t : τ)
  | ret (t : τ)

/-- The blocks after a request. -/
def BlockRequest.serveDisk (req : BlockRequest) (disk : Disk) : Disk :=
  if req.isWrite then writeBlocks disk req.lba.toNat req.count.toNat req.buffer else disk

/-- The buffer after a request. -/
def BlockRequest.serveBuffer (req : BlockRequest) (disk : Disk) : Bytes :=
  if req.isWrite then req.buffer
  else copyBytes (req.count.toNat * 512) (readBlocks disk req.lba.toNat) req.buffer

section Exec

variable {τ : Type} [DecidableEq τ]

def Atomic.exec (a : Atomic τ) : AtomicAct τ → List (Event τ) × Atomic τ
  | .call t req =>
    match a.tasks t with
    | .idle => ([.call t req], { a with tasks := Function.update a.tasks t (.pending req) })
    | _ => ([], a)
  | .serve t =>
    match a.tasks t with
    | .pending req =>
      ([], ⟨req.serveDisk a.disk, Function.update a.tasks t (.served req (req.serveBuffer a.disk))⟩)
    | _ => ([], a)
  | .ret t =>
    match a.tasks t with
    | .served _ buffer => ([.ret t buffer], { a with tasks := Function.update a.tasks t .idle })
    | _ => ([], a)

end Exec

/-! ### The simulation -/

/-- The slot and the stage of a task. -/
def Task.view : Task → Option (Nat × Stage)
  | .inside _ r stage => some (r, stage)
  | .idle | .called _ => none

/-- The controller has completed the command, where `undone` says that it still has it. -/
def Stage.Served (undone : Prop) : Stage → Prop
  | .allocated | .copied => False
  | .waiting | .polling | .marking _ | .leaving => ¬ undone

/-- A task and its request in the abstract. -/
def TaskSim (undone : Nat → Prop) (bounce : Nat → Bytes) (p : Pending) : Task → Prop
  | .idle => p = .idle
  | .called req => req.Fits ∧ p = .pending req
  | .inside req r stage =>
    req.Fits ∧
    (stage ≠ .allocated → req.isWrite → ∀ i < req.count.toNat * 512, bounce r i = req.buffer i) ∧
    (stage.Served (undone r) → p = .served req (copyOut req (bounce r))) ∧
    (¬ stage.Served (undone r) → p = .pending req)

section Sim

variable {τ : Type}

namespace System

variable (s : System τ)

/-- The slots and the stages of the tasks. -/
def view (t : τ) : Option (Nat × Stage) := (s.tasks t).view

/-- The commands that the controller has not completed. -/
def undone : List SqEntry := sqList s.nvmeCtrl s.device ++ s.device.inflight

/-- The ids in the queues. -/
def ids : List Nat :=
  s.undone.map cmdId ++ (cqList s.nvmeCtrl s.device).map fun entry => entry.commandId.toNat

def state (r : Nat) : UInt32 := (s.requestTable r).state

def bouncePhys (r : Nat) : UInt64 := (s.requestTable r).bouncePhys

/-- The bounce page of a slot. -/
def bounce (r : Nat) : Bytes := s.pages (s.bouncePhys r)

def Undone (r : Nat) : Prop := r ∈ s.undone.map cmdId

end System

structure Sim (s : System τ) (a : Atomic τ) : Prop where
  running : s.panicked = none
  queues : QueuesInv s.nvmeCtrl s.device
  ok : ∀ entry ∈ cqList s.nvmeCtrl s.device, entry.status >>> 1 = 0
  slots : SlotsInv s.view s.state s.ids
  inj : ∀ r < 32, ∀ r' < 32, s.bouncePhys r = s.bouncePhys r' → r = r'
  spare : ∃ r < 32, s.state r = 0
  sent : ∀ cmd ∈ s.undone, ∃ t req r stage, s.tasks t = .inside req r stage ∧ stage.Submitted ∧
    cmd = command req r (s.bouncePhys r)
  disk : a.disk = s.device.disk
  tasks : ∀ t, TaskSim s.Undone s.bounce (a.tasks t) (s.tasks t)

theorem TaskSim.congr {undone undone' : Nat → Prop} {bounce bounce' : Nat → Bytes} {p : Pending} {task : Task}
    (h : TaskSim undone bounce p task)
    (hsame : ∀ r stage, task.view = some (r, stage) → (undone' r ↔ undone r) ∧ bounce' r = bounce r) :
    TaskSim undone' bounce' p task := by
  cases task with
  | idle | called req => exact h
  | inside req r stage =>
    obtain ⟨hundone, hbounce⟩ := hsame r stage rfl
    change _ ∧ _ ∧ _ ∧ _ at h ⊢
    rw [hbounce, propext hundone]
    exact h

theorem view_eq {s : System τ} {t : τ} {req : BlockRequest} {r : Nat} {stage : Stage}
    (ht : s.tasks t = .inside req r stage) : s.view t = some (r, stage) := by
  unfold System.view
  rw [ht]
  rfl

theorem state_setState (table : Nat → NvmeRequest) (r : Nat) (v : UInt32) :
    (fun x => (setState table r v x).state) = Function.update (fun x => (table x).state) r v := by
  funext x
  unfold setState
  by_cases heq : x = r
  · subst heq
    simp
  · simp [heq]

theorem bouncePhys_setState (table : Nat → NvmeRequest) (r x : Nat) (v : UInt32) :
    (setState table r v x).bouncePhys = (table x).bouncePhys := by
  unfold setState
  by_cases heq : x = r
  · subst heq
    simp
  · simp [heq]

section Facts

variable {s : System τ} {a : Atomic τ} {t : τ} {req : BlockRequest} {r : Nat} {stage : Stage}

theorem Sim.bounce_update (h : Sim s a) (hr : r < 32) {r' : Nat} (hr' : r' < 32) (page : Bytes) :
    Function.update s.pages (s.bouncePhys r) page (s.bouncePhys r') = if r' =
      r then page else s.bounce r' := by
  by_cases heq : r' = r
  · rw [if_pos heq, heq, Function.update_self]
  · rw [if_neg heq, Function.update_of_ne fun hphys => heq (h.inj r' hr' r hr hphys)]
    rfl

theorem Sim.slot_ne (h : Sim s a) (ht : s.view t = some (r, stage)) {t' : τ} (hne : t' ≠ t) {r' : Nat}
    {stage' : Stage} (ht' : s.view t' = some (r', stage')) : r' < 32 ∧ r' ≠ r := by
  refine ⟨(h.slots.slot ht').1, ?_⟩
  rintro rfl
  exact hne (h.slots.owner ht' ht)

/-- The bounce page of a request after its command. -/
def BlockRequest.servePage (req : BlockRequest) (disk : Disk) (page : Bytes) : Bytes :=
  if req.isWrite then page else copyBytes (req.count.toNat * 512) (readBlocks disk req.lba.toNat) page

theorem perform_eq (hr : r < 32) (hfits : req.Fits)
    (hbounce : req.isWrite → ∀ i < req.count.toNat * 512, s.bounce r i = req.buffer i) (disk : Disk) :
    perform (command req r (s.bouncePhys r)) disk s.pages = (req.serveDisk disk,
      Function.update s.pages (s.bouncePhys r) (req.servePage disk (s.bounce r))) := by
  rw [perform_command hr hfits]
  unfold BlockRequest.serveDisk BlockRequest.servePage
  by_cases hwrite : req.isWrite = true
  · have hdata : writeBlocks disk req.lba.toNat req.count.toNat (s.pages (s.bouncePhys r)) = _ :=
      writeBlocks_congr (hbounce hwrite) disk req.lba.toNat
    rw [if_pos hwrite, if_pos hwrite, if_pos hwrite, hdata, show s.bounce r =
      s.pages (s.bouncePhys r) from rfl,
      Function.update_eq_self]
  · rw [if_neg hwrite, if_neg hwrite, if_neg hwrite]
    rfl

theorem copyOut_servePage (hfits : req.Fits) (disk : Disk) (page : Bytes) :
    copyOut req (req.servePage disk page) = req.serveBuffer disk := by
  unfold copyOut BlockRequest.servePage BlockRequest.serveBuffer
  split
  · rfl
  · rw [toNat_count hfits, copyBytes_copyBytes]

theorem status_completion {phase : UInt16} (hphase : IsPhase phase) (cmd : SqEntry) :
    (completion cmd phase 0).status &&& 1 = phase ∧ (completion cmd phase 0).status >>> 1 = 0 := by
  change (phase ||| (0 : UInt16) <<< 1) &&& 1 = phase ∧ (phase ||| (0 : UInt16) <<< 1) >>> 1 = 0
  rcases hphase with rfl | rfl
  · decide
  · decide

theorem Sim.pending (h : Sim s a) (ht : s.tasks t = .inside req r stage) (hundone : s.Undone r) :
    a.tasks t = .pending req := by
  have hself := h.tasks t
  rw [ht] at hself
  refine hself.2.2.2 ?_
  cases stage with
  | allocated | copied => exact id
  | waiting | polling | marking _ | leaving => exact fun hnot => hnot hundone

/-- **The controller takes a command.** -/
theorem Sim.fetch (h : Sim s a) : Sim s.fetch a := by
  unfold System.fetch
  split
  case isFalse => exact h
  case isTrue hne =>
    obtain ⟨hqueues, hsq, hcq⟩ := sqList_next h.queues hne
      (s.device.inflight ++ [s.nvmeCtrl.iosq s.device.sqHead.toNat])
    generalize hs : ({ s with device := { s.device with
      sqHead := nextIndex s.device.sqHead
      inflight := s.device.inflight ++ [s.nvmeCtrl.iosq s.device.sqHead.toNat] } } : System τ) = s₁
    -- the command moves from the queue to the controller, and is completed in neither place
    have hperm : s₁.undone.Perm s.undone := by
      subst hs
      unfold System.undone
      rw [hsq, List.cons_append, ← List.append_assoc]
      exact List.perm_append_singleton _ _
    have hmem : s₁.Undone = s.Undone := funext fun x => propext (hperm.map cmdId).mem_iff
    have hids : s.ids.Perm s₁.ids := by
      subst hs
      exact ((hperm.map cmdId).append_right _).symm
    have hsent : ∀ cmd ∈ s₁.undone, ∃ t₁ req₁ r₁ stage₁, s.tasks t₁ = .inside req₁ r₁ stage₁ ∧
        stage₁.Submitted ∧ cmd = command req₁ r₁ (s.bouncePhys r₁) := fun cmd hcmd =>
      h.sent cmd (hperm.mem_iff.mp hcmd)
    have htasks : ∀ t', TaskSim s₁.Undone s.bounce (a.tasks t') (s.tasks t') := by
      rw [hmem]
      exact h.tasks
    have hslots := h.slots.perm hids
    subst hs
    exact ⟨h.running, hqueues, h.ok, hslots, h.inj, h.spare, hsent, h.disk, htasks⟩

/-- The system after `init`, with the bounce pages of the slots. -/
def System.boot (bouncePhys : Nat → UInt64) (pages : UInt64 → Bytes) (disk : Disk) : System τ where
  requestTable i := ⟨UInt32.ofNat i, 0, bouncePhys i⟩
  nvmeCtrl := {}
  pages
  device := { disk }
  tasks _ := .idle

theorem sim_boot {bouncePhys : Nat → UInt64}
    (hinj : ∀ r < 32, ∀ r' < 32, bouncePhys r = bouncePhys r' → r = r') (pages : UInt64 → Bytes)
    (disk : Disk) :
    Sim (System.boot bouncePhys pages disk : System τ) ⟨disk, fun _ => .idle⟩ := by
  have hsq : sqList {} { disk } = [] := Circular.contents_self (by decide : 0 < 32)
  have hcq : cqList {} { disk } = [] := Circular.contents_self (by decide : 0 < 32)
  generalize hs : (System.boot bouncePhys pages disk : System τ) = s
  have hctrl : s.nvmeCtrl = {} := hs ▸ rfl
  have hdevice : s.device = { disk } := hs ▸ rfl
  have hundone : s.undone = [] := by
    unfold System.undone
    rw [hctrl, hdevice, hsq]
    rfl
  have hids : s.ids = [] := by
    unfold System.ids
    rw [hundone, hctrl, hdevice, hcq]
    rfl
  have hview : s.view = fun _ => none := hs ▸ rfl
  refine ⟨hs ▸ rfl, ?_, ?_, ?_, ?_, ⟨0, by decide, hs ▸ rfl⟩, ?_, hs ▸ rfl, fun t => ?_⟩
  · rw [hctrl, hdevice]
    exact queuesInv_init disk
  · rw [hctrl, hdevice, hcq]
    exact nofun
  · rw [hview, hids]
    exact ⟨nofun, nofun, fun h => h.elim nofun nofun, nofun, List.nodup_nil⟩
  · subst hs
    exact hinj
  · rw [hundone]
    exact nofun
  · subst hs
    exact rfl

end Facts

section Steps

variable [DecidableEq τ] {s : System τ} {a : Atomic τ} {t : τ} {req : BlockRequest} {r : Nat} {stage : Stage}

theorem view_goto (s : System τ) (t : τ) (task : Task) : (s.goto t task).view =
    Function.update s.view t task.view := by
  funext t'
  unfold System.view System.goto
  by_cases heq : t' = t
  · subst heq
    simp
  · simp [heq]

theorem tasks_goto {task : Task} {p : Pending} {undone' : Nat → Prop} {bounce' : Nat → Bytes}
    (hother : ∀ t' ≠ t, TaskSim undone' bounce' (a.tasks t') (s.tasks t'))
        (hself : TaskSim undone' bounce' p task)
    (t' : τ) : TaskSim undone' bounce' (Function.update a.tasks t p t')
      (Function.update s.tasks t task t') := by
  by_cases heq : t' = t
  · subst heq
    rw [Function.update_self, Function.update_self]
    exact hself
  · rw [Function.update_of_ne heq, Function.update_of_ne heq]
    exact hother t' heq

theorem tasks_goto_self {task : Task} {undone' : Nat → Prop} {bounce' : Nat → Bytes}
    (hother : ∀ t' ≠ t, TaskSim undone' bounce' (a.tasks t') (s.tasks t'))
    (hself : TaskSim undone' bounce' (a.tasks t) task) (t' : τ) :
    TaskSim undone' bounce' (a.tasks t') (Function.update s.tasks t task t') := by
  have h := tasks_goto hother hself t'
  rw [Function.update_eq_self] at h
  exact h

theorem sent_goto (h : Sim s a) (ht : s.tasks t = .inside req r stage) {stage' : Stage}
    (hsubmitted : stage.Submitted → s.Undone r → stage'.Submitted) (cmd : SqEntry) (hcmd : cmd ∈ s.undone) :
    ∃ t₁ req₁ r₁ stage₁, (Function.update s.tasks t (.inside req r stage')) t₁ = .inside req₁ r₁ stage₁ ∧
      stage₁.Submitted ∧ cmd = command req₁ r₁ (s.bouncePhys r₁) := by
  obtain ⟨t₁, req₁, r₁, stage₁, ht₁, hsub, rfl⟩ := h.sent cmd hcmd
  by_cases heq : t₁ = t
  · subst heq
    rw [ht] at ht₁
    obtain ⟨rfl, rfl, rfl⟩ := Task.inside.inj ht₁
    have hlt := (h.slots.slot (view_eq ht)).1
    have hundone : s.Undone r := List.mem_map.mpr ⟨_, hcmd, cmdId_command hlt _⟩
    exact ⟨t₁, req, r, stage', Function.update_self .., hsubmitted hsub hundone, rfl⟩
  · exact ⟨t₁, req₁, r₁, stage₁, by rw [Function.update_of_ne heq, ht₁], hsub, rfl⟩

/-- **A task moves on**, where the stages mark no slot. -/
theorem Sim.goto (h : Sim s a) (ht : s.tasks t = .inside req r stage) {stage' : Stage}
    (hmarks : stage.marks = stage'.marks) (hok : stage'.Ok (s.state r) (Flying s.view s.ids r))
    (hserved : stage'.Served (s.Undone r) ↔ stage.Served (s.Undone r)) (hcopied : stage ≠ .allocated) :
    Sim (s.goto t (.inside req r stage')) a := by
  refine ⟨h.running, h.queues, h.ok, ?_, h.inj, h.spare, ?_, h.disk, ?_⟩
  · rw [view_goto]
    exact h.slots.goto (view_eq ht) hmarks hok
  · refine sent_goto h ht fun _ hundone => ?_
    exact (hok.submitted (.inl (List.mem_append_left _ hundone))).1
  · refine tasks_goto_self (fun t' _ => h.tasks t') ?_
    have hself := h.tasks t
    rw [ht] at hself
    obtain ⟨hfits, hbounce, hdone, hpending⟩ := hself
    exact ⟨hfits, fun _ => hbounce hcopied, fun hs => hdone (hserved.mp hs), fun hs =>
      hpending (mt hserved.mpr hs)⟩

/-- The system after a task has moved and stored the state of a slot. -/
def System.store (s : System τ) (r : Nat) (v : UInt32) (t : τ) (task : Task) : System τ :=
  { s with requestTable := setState s.requestTable r v }.goto t task

section Store

variable {v : UInt32} {task : Task}

theorem view_store : (s.store r v t task).view = Function.update s.view t task.view :=
  view_goto ..

theorem state_store : (s.store r v t task).state = Function.update s.state r v :=
  state_setState ..

theorem bouncePhys_store : (s.store r v t task).bouncePhys = s.bouncePhys :=
  funext fun x => bouncePhys_setState _ _ x _

theorem bounce_store : (s.store r v t task).bounce = s.bounce := by
  funext x
  unfold System.bounce
  rw [bouncePhys_store]
  rfl

/-- **A task stores the state of a slot**, and moves. -/
theorem Sim.store (h : Sim s a) {p : Pending}
    (hslots : SlotsInv (Function.update s.view t task.view) (Function.update s.state r v) s.ids)
    (hspare : ∃ r' < 32, Function.update s.state r v r' = 0)
    (hsent : ∀ cmd ∈ s.undone, ∃ t₁ req₁ r₁ stage₁, Function.update s.tasks t task t₁ =
        .inside req₁ r₁ stage₁ ∧
      stage₁.Submitted ∧ cmd = command req₁ r₁ (s.bouncePhys r₁))
    (htask : TaskSim s.Undone s.bounce p task) :
    Sim (s.store r v t task) { a with tasks := Function.update a.tasks t p } := by
  refine ⟨h.running, h.queues, h.ok, ?_, ?_, ?_, ?_, h.disk, ?_⟩
  · rw [view_store, state_store]
    exact hslots
  · rw [bouncePhys_store]
    exact h.inj
  · rw [state_store]
    exact hspare
  · rw [bouncePhys_store]
    exact hsent
  · rw [bounce_store]
    exact tasks_goto (fun t' _ => h.tasks t') htask

end Store

theorem Atomic.update_self (a : Atomic τ)
    (t : τ) : { a with tasks := Function.update a.tasks t (a.tasks t) } = a := by
  rw [Function.update_eq_self]

/-- **A request takes a slot.** -/
theorem Sim.alloc (h : Sim s a) (ht : s.tasks t = .called req) (hr : r < 32) (hfree : s.state r = 0)
    (hspare : ∃ r' < 32, r' ≠ r ∧ s.state r' = 0) : Sim (s.store r 1 t (.inside req r .allocated)) a := by
  have hview : s.view t = none := by
    unfold System.view
    rw [ht]
    rfl
  have hself := h.tasks t
  rw [ht] at hself
  obtain ⟨hfits, hpending⟩ := hself
  rw [← a.update_self t]
  refine h.store (h.slots.alloc hview hr hfree) ?_ (fun cmd hcmd => ?_)
    ⟨hfits, fun hne => (hne rfl).elim, False.elim,
    fun _ => hpending⟩
  · obtain ⟨r', hlt, hne, hzero⟩ := hspare
    exact ⟨r', hlt, by rw [Function.update_of_ne hne, hzero]⟩
  · obtain ⟨t₁, req₁, r₁, stage₁, ht₁, hsub⟩ := h.sent cmd hcmd
    have hne : t₁ ≠ t := by
      rintro rfl
      rw [ht] at ht₁
      exact nomatch ht₁
    exact ⟨t₁, req₁, r₁, stage₁, by rw [Function.update_of_ne hne, ht₁], hsub⟩

/-- **A task marks a request as complete.** -/
theorem Sim.mark (h : Sim s a) {c : Nat} (ht : s.tasks t = .inside req r (.marking c)) :
    Sim (s.store c 2 t (.inside req r .waiting)) a := by
  have hself := h.tasks t
  rw [ht] at hself
  obtain ⟨hfits, hbounce, hdone, hpending⟩ := hself
  rw [← a.update_self t]
  refine h.store (h.slots.mark (view_eq ht)) ?_ (sent_goto h ht fun _ _ => trivial)
    ⟨hfits, fun _ => hbounce nofun, hdone, hpending⟩
  obtain ⟨r', hlt, hzero⟩ := h.spare
  have hne : r' ≠ c := by
    rintro rfl
    exact (h.slots.not_owned hzero).2 (.inr ⟨t, marksOf_of_view (view_eq ht)⟩)
  exact ⟨r', hlt, by rw [Function.update_of_ne hne, hzero]⟩

/-- **A request returns.** -/
theorem Sim.finish (h : Sim s a) (ht : s.tasks t = .inside req r .leaving) :
    a.tasks t = .served req (copyOut req (s.bounce r)) ∧
      Sim (s.store r 0 t .idle) { a with tasks := Function.update a.tasks t .idle } := by
  have hself := h.tasks t
  rw [ht] at hself
  obtain ⟨hfits, hbounce, hdone, hpending⟩ := hself
  obtain ⟨hlt, -, hnot⟩ := h.slots.slot (view_eq ht)
  have hundone : ¬ s.Undone r := fun hmem => hnot (.inl (List.mem_append_left _ hmem))
  refine ⟨hdone hundone, h.store (h.slots.finish (view_eq ht)) ⟨r, hlt, Function.update_self ..⟩
    (fun cmd hcmd => ?_) rfl⟩
  obtain ⟨t₁, req₁, r₁, stage₁, ht₁, hsub, hcommand⟩ := h.sent cmd hcmd
  have hne : t₁ ≠ t := by
    rintro rfl
    rw [ht] at ht₁
    obtain ⟨rfl, rfl, rfl⟩ := Task.inside.inj ht₁
    exact hsub
  exact ⟨t₁, req₁, r₁, stage₁, by rw [Function.update_of_ne hne, ht₁], hsub, hcommand⟩

/-- **A task copies its bytes** to the bounce page. -/
theorem Sim.copyIn (h : Sim s a) (ht : s.tasks t = .inside req r .allocated) {page : Bytes}
    (hpage : req.isWrite → ∀ i < req.count.toNat * 512, page i = req.buffer i) :
    Sim ({ s with pages := Function.update s.pages (s.bouncePhys r) page }.goto t (.inside req r .copied))
      a := by
  have hview := view_eq ht
  obtain ⟨hlt, hok⟩ := h.slots.slot hview
  have hself := h.tasks t
  rw [ht] at hself
  obtain ⟨hfits, -, -, hpending⟩ := hself
  refine ⟨h.running, h.queues, h.ok, ?_, h.inj, h.spare, sent_goto h ht fun hsub _ => hsub.elim, h.disk, ?_⟩
  · rw [view_goto]
    exact h.slots.goto hview rfl hok
  · refine tasks_goto_self (fun t' hne => (h.tasks t').congr fun r' stage' ht' => ⟨Iff.rfl, ?_⟩)
      ⟨hfits, fun _ hwrite => ?_, False.elim, fun _ => hpending id⟩
    · obtain ⟨hlt', hne'⟩ := h.slot_ne hview hne ht'
      exact (h.bounce_update hlt hlt' page).trans (if_neg hne')
    · intro i hi
      exact (congrFun ((h.bounce_update hlt hlt page).trans (if_pos rfl)) i).trans (hpage hwrite i hi)

/-! ### Queues -/

theorem Sim.length_lt (h : Sim s a) (hview : s.view t = some (r, .copied)) :
    (sqList s.nvmeCtrl s.device).length + 1 < 32 := by
  obtain ⟨r', hlt, hzero⟩ := h.spare
  have hlength := (h.slots.submit hview (List.Perm.refl _)).length_lt hlt hzero
  unfold System.ids System.undone at hlength
  simp only [List.length_cons, List.length_append, List.length_map] at hlength
  omega

/-- **A task submits the command** of its request. -/
theorem Sim.submit (h : Sim s a) (ht : s.tasks t = .inside req r .copied) :
    Sim ({ s with nvmeCtrl := submitBlock s.nvmeCtrl req r (s.bouncePhys r) }.goto t (.inside req r .waiting))
      a := by
  have hview := view_eq ht
  obtain ⟨hlt, hok⟩ := h.slots.slot hview
  rw [submitBlock_eq]
  obtain ⟨hqueues, hsq, hcq⟩ := submitIoCmd_spec h.queues (h.length_lt hview) (command req r (s.bouncePhys r))
  have hself := h.tasks t
  rw [ht] at hself
  obtain ⟨hfits, hbounce, -, hpending⟩ := hself
  generalize hs : ({ s with nvmeCtrl := submitIoCmd s.nvmeCtrl (command req r (s.bouncePhys r)) } : System τ)
    = s₁
  have hundone : s₁.undone = sqList s.nvmeCtrl s.device ++ [command req r (s.bouncePhys r)] ++
      s.device.inflight := by
    subst hs
    unfold System.undone
    rw [hsq]
  -- one more command is not completed: that of the slot `r`
  have hperm : s₁.undone.Perm (command req r (s.bouncePhys r) :: s.undone) := by
    rw [hundone, List.append_assoc]
    exact List.perm_middle
  have hmem : ∀ x, s₁.Undone x ↔ x = r ∨ s.Undone x := by
    intro x
    unfold System.Undone
    rw [(hperm.map cmdId).mem_iff, List.map_cons, List.mem_cons, cmdId_command hlt]
  have hids : s₁.ids.Perm (r :: s.ids) := by
    have hmap := hperm.map cmdId
    rw [List.map_cons, cmdId_command hlt] at hmap
    have hcq' : cqList s₁.nvmeCtrl s₁.device = cqList s.nvmeCtrl s.device := by
      subst hs
      exact hcq
    unfold System.ids
    rw [hcq']
    exact hmap.append_right _
  have hsent : ∀ cmd ∈ s₁.undone, ∃ t₁ req₁ r₁ stage₁, Function.update s.tasks t (.inside req r .waiting) t₁ =
      .inside req₁ r₁ stage₁ ∧ stage₁.Submitted ∧ cmd = command req₁ r₁ (s.bouncePhys r₁) := by
    intro cmd hcmd
    rcases List.mem_cons.mp (hperm.mem_iff.mp hcmd) with rfl | hcmd
    · exact ⟨t, req, r, .waiting, Function.update_self .., trivial, rfl⟩
    · exact sent_goto h ht (fun hsub _ => hsub.elim) cmd hcmd
  have htasks : ∀ t', TaskSim s₁.Undone s.bounce (a.tasks t')
      (Function.update s.tasks t (.inside req r .waiting) t') := by
    refine tasks_goto_self (fun t' hne => (h.tasks t').congr fun r' stage' ht' => ⟨?_, rfl⟩)
      ⟨hfits, fun _ => hbounce nofun, fun hs => absurd ((hmem r).mpr (.inl rfl)) hs, fun _ => hpending id⟩
    rw [hmem, or_iff_right (h.slot_ne hview hne ht').2]
  have hslots := h.slots.submit hview hids
  subst hs
  refine ⟨h.running, hqueues, ?_, ?_, h.inj, h.spare, hsent, h.disk, htasks⟩
  · change ∀ entry ∈ cqList (submitIoCmd s.nvmeCtrl _) s.device, _
    rw [hcq]
    exact h.ok
  · rw [view_goto]
    exact hslots

/-- **A task finds a completion.** -/
theorem Sim.found (h : Sim s a) (ht : s.tasks t = .inside req r .polling) {entry : CqEntry}
    {rest : List CqEntry} (hcons : cqList s.nvmeCtrl s.device = entry :: rest) {ctrl' : NvmeController}
    (hqueues : QueuesInv ctrl' s.device) (hsq : sqList ctrl' s.device = sqList s.nvmeCtrl s.device)
    (hcq : cqList ctrl' s.device = rest) :
    Sim ({ s with nvmeCtrl := ctrl' }.goto t (.inside req r (.marking entry.commandId.toNat))) a := by
  have hview := view_eq ht
  have hself := h.tasks t
  rw [ht] at hself
  obtain ⟨hfits, hbounce, hdone, hpending⟩ := hself
  generalize hs : ({ s with nvmeCtrl := ctrl' } : System τ) = s₁
  have hundone : s₁.undone = s.undone := by
    subst hs
    unfold System.undone
    rw [hsq]
  have hmem : s₁.Undone = s.Undone := by
    unfold System.Undone
    rw [hundone]
  -- the id leaves the completion queue, and from now on the task holds it
  have hids : s.ids.Perm (entry.commandId.toNat :: s₁.ids) := by
    have hcq' : cqList s₁.nvmeCtrl s₁.device = rest := by
      subst hs
      exact hcq
    unfold System.ids
    rw [hundone, hcons, hcq', List.map_cons]
    exact List.perm_middle
  have hsent : ∀ cmd ∈ s₁.undone, ∃ t₁ req₁ r₁ stage₁,
      Function.update s.tasks t (.inside req r (.marking entry.commandId.toNat)) t₁ = .inside req₁ r₁ stage₁ ∧
      stage₁.Submitted ∧ cmd = command req₁ r₁ (s.bouncePhys r₁) := by
    rw [hundone]
    exact sent_goto h ht fun _ _ => trivial
  have htasks : ∀ t', TaskSim s₁.Undone s.bounce (a.tasks t')
      (Function.update s.tasks t (.inside req r (.marking entry.commandId.toNat)) t') := by
    rw [hmem]
    exact tasks_goto_self (fun t' _ => h.tasks t') ⟨hfits, fun _ => hbounce nofun, hdone, hpending⟩
  have hslots := h.slots.found hview hids
  subst hs
  refine ⟨h.running, hqueues, ?_, ?_, h.inj, h.spare, hsent, h.disk, htasks⟩
  · change ∀ e ∈ cqList ctrl' s.device, _
    rw [hcq]
    exact fun e he => h.ok e (hcons ▸ List.mem_cons_of_mem _ he)
  · rw [view_goto]
    exact hslots

/-! ### Completion -/

/-- **A request is served**, when its command leaves the controller with a completion. -/
theorem Sim.served (h : Sim s a) (ht : s.tasks t = .inside req r stage) (hsub : stage.Submitted)
    {s₁ : System τ} (hrunning : s₁.panicked = s.panicked) (htasks : s₁.tasks = s.tasks)
    (htable : s₁.requestTable = s.requestTable)
    (hpages : s₁.pages = Function.update s.pages (s.bouncePhys r) (req.servePage s.device.disk (s.bounce r)))
    (hdisk : s₁.device.disk = req.serveDisk s.device.disk) (hqueues : QueuesInv s₁.nvmeCtrl s₁.device)
    (hperm : s.undone.Perm (command req r (s.bouncePhys r) :: s₁.undone))
    (hcq : cqList s₁.nvmeCtrl s₁.device =
      cqList s.nvmeCtrl s.device ++ [completion (command req r (s.bouncePhys r)) s.device.phase 0]) :
    Sim s₁ ⟨req.serveDisk a.disk, Function.update a.tasks t (.served req (req.serveBuffer a.disk))⟩ := by
  have hview := view_eq ht
  have hlt := (h.slots.slot hview).1
  have hself := h.tasks t
  rw [ht] at hself
  obtain ⟨hfits, hbounce, -, -⟩ := hself
  have hcopied : stage ≠ .allocated := by
    rintro rfl
    exact hsub
  -- the id moves from the commands to the completions
  have hids : s.ids.Perm s₁.ids := by
    unfold System.ids
    rw [hcq, List.map_append, ← List.append_assoc]
    refine ((hperm.map cmdId).append_right _).trans ?_
    rw [List.map_cons, List.cons_append]
    exact (List.perm_append_singleton _ _).symm
  have hmap := hperm.map cmdId
  rw [List.map_cons, cmdId_command hlt] at hmap
  -- no other command has the same id, so none of the slot `r` is left
  have hdone : ¬ s₁.Undone r :=
    (List.nodup_cons.mp (hmap.nodup (List.Nodup.of_append_left h.slots.nodup))).1
  have hother : ∀ x, x ≠ r → (s₁.Undone x ↔ s.Undone x) := by
    intro x hx
    unfold System.Undone
    rw [hmap.mem_iff, List.mem_cons, or_iff_right hx]
  have hphys : s₁.bouncePhys = s.bouncePhys := by
    unfold System.bouncePhys
    rw [htable]
  have hstate : s₁.state = s.state := by
    unfold System.state
    rw [htable]
  -- the bounce pages are different, and the controller writes to that of the slot `r` only
  have hbounce₁ : ∀ r' < 32, s₁.bounce r' = if r' = r then req.servePage s.device.disk (s.bounce r) else
      s.bounce r' := by
    intro r' hr'
    unfold System.bounce
    rw [hphys, hpages]
    exact h.bounce_update hlt hr' _
  have hpage := (hbounce₁ r hlt).trans (if_pos rfl)
  refine ⟨hrunning.trans h.running, hqueues, ?_, ?_, ?_, ?_, fun cmd hcmd => ?_, ?_, ?_⟩
  · rw [hcq]
    intro entry hentry
    rcases List.mem_append.mp hentry with hentry | hentry
    · exact h.ok entry hentry
    · rw [List.mem_singleton.mp hentry]
      exact (status_completion h.queues.phase _).2
  · have hsame : s₁.view = s.view := by
      unfold System.view
      rw [htasks]
    rw [hsame, hstate]
    exact h.slots.perm hids
  · rw [hphys]
    exact h.inj
  · rw [hstate]
    exact h.spare
  · rw [htasks, hphys]
    exact h.sent cmd (hperm.mem_iff.mpr (List.mem_cons_of_mem _ hcmd))
  · rw [hdisk, h.disk]
  · have hall : ∀ t', TaskSim s₁.Undone s₁.bounce
        (Function.update a.tasks t (.served req (req.serveBuffer a.disk)) t')
        (Function.update s.tasks t (.inside req r stage) t') :=
      tasks_goto (fun t' hne => (h.tasks t').congr fun r' stage' ht' => ?_)
        ⟨hfits, fun _ hwrite => ?_, fun _ => ?_, fun hnot => ?_⟩
    · rw [← ht, Function.update_eq_self, ← htasks] at hall
      exact hall
    · obtain ⟨hlt', hne'⟩ := h.slot_ne hview hne ht'
      exact ⟨hother r' hne', (hbounce₁ r' hlt').trans (if_neg hne')⟩
    · rw [hpage]
      unfold BlockRequest.servePage
      rw [if_pos hwrite]
      exact hbounce hcopied hwrite
    · rw [hpage, copyOut_servePage hfits, h.disk]
    · refine absurd ?_ hnot
      cases stage with
      | allocated | copied | leaving => exact hsub.elim
      | waiting | polling | marking _ => exact hdone

/-- **The controller completes a command**, and its request is served. -/
theorem Sim.complete (h : Sim s a) (k : Nat) : ∃ ps, trace Atomic.exec a ps = [] ∧
    Sim (s.complete k 0) (final Atomic.exec a ps) := by
  unfold System.complete
  split
  case h_1 => exact ⟨[], rfl, h⟩
  case h_2 cmd hk =>
    split
    case isTrue => exact ⟨[], rfl, h⟩
    case isFalse hroom =>
      have hinflight : s.device.inflight.Perm (cmd :: s.device.inflight.eraseIdx k) := by
        obtain ⟨hlt, rfl⟩ := List.getElem?_eq_some_iff.mp hk
        exact (List.getElem_cons_eraseIdx_perm hlt).symm
      have hcmd : cmd ∈ s.undone := List.mem_append_right _ (hinflight.mem_iff.mpr List.mem_cons_self)
      -- the task that has sent the command is still inside the device
      obtain ⟨t, req, r, stage, ht, hsub, rfl⟩ := h.sent cmd hcmd
      have hlt := (h.slots.slot (view_eq ht)).1
      have hself := h.tasks t
      rw [ht] at hself
      obtain ⟨hfits, hbounce, -, -⟩ := hself
      have hcopied : stage ≠ .allocated := by
        rintro rfl
        exact hsub
      have hserve : Atomic.exec a (.serve t) = ([], ⟨req.serveDisk a.disk,
          Function.update a.tasks t (.served req (req.serveBuffer a.disk))⟩) := by
        simp only [Atomic.exec, h.pending ht (List.mem_map.mpr ⟨_, hcmd, cmdId_command hlt _⟩)]
      refine ⟨[.serve t], by rw [trace_cons, hserve]; rfl, ?_⟩
      rw [final_cons, hserve, final_nil, perform_eq hlt hfits (hbounce hcopied)]
      obtain ⟨hqueues, hsq, hcq⟩ := cqList_post h.queues hroom
        (status_completion h.queues.phase (command req r (s.bouncePhys r))).1
        (s.device.inflight.eraseIdx k) (req.serveDisk s.device.disk)
      refine h.served ht hsub rfl rfl rfl rfl rfl hqueues ?_ hcq
      unfold System.undone
      dsimp only
      rw [hsq]
      exact (hinflight.append_left _).trans List.perm_middle

/-! ### Runs -/

/-- The requests fit in a page, a request that takes a slot leaves another one free, and no command fails. -/
def StepOk (s : System τ) : Act τ → Prop
  | .call _ req => req.Fits
  | .alloc _ => ∃ r < 32, ∃ r' < 32, r' ≠ r ∧ s.state r = 0 ∧ s.state r' = 0
  | .complete _ sctSc => sctSc = 0
  | _ => True

theorem Sim.silent {s' : System τ} (h : Sim s' a) : ∃ ps, trace Atomic.exec a ps = [] ∧
    Sim s' (final Atomic.exec a ps) :=
  ⟨[], rfl, h⟩

theorem Sim.call (h : Sim s a) (ht : s.tasks t = .idle) (hfits : req.Fits) :
    ∃ ps, trace Atomic.exec a ps = [.call t req] ∧ Sim (s.goto t (.called req)) (final Atomic.exec a ps) := by
  have hself := h.tasks t
  rw [ht] at hself
  have hcall : Atomic.exec a (.call t req) =
      ([.call t req], { a with tasks := Function.update a.tasks t (.pending req) }) := by
    simp only [Atomic.exec, show a.tasks t = .idle from hself]
  refine ⟨[.call t req], by rw [trace_cons, hcall]; rfl, ?_⟩
  rw [final_cons, hcall, final_nil]
  -- the task has no slot, neither before nor after
  have hview : (s.goto t (.called req)).view = s.view := by
    have hnone : s.view t = none := by
      unfold System.view
      rw [ht]
      rfl
    rw [view_goto, show (Task.called req).view = s.view t from hnone.symm, Function.update_eq_self]
  refine ⟨h.running, h.queues, h.ok, ?_, h.inj, h.spare, fun cmd hcmd => ?_, h.disk,
    tasks_goto (fun t' _ => h.tasks t') ⟨hfits, rfl⟩⟩
  · rw [hview]
    exact h.slots
  · obtain ⟨t₁, req₁, r₁, stage₁, ht₁, hsub⟩ := h.sent cmd hcmd
    have hne : t₁ ≠ t := by
      rintro rfl
      rw [ht] at ht₁
      exact nomatch ht₁
    exact ⟨t₁, req₁, r₁, stage₁, (Function.update_of_ne hne _ _).trans ht₁, hsub⟩

/-- **A task looks at its slot**: it polls while the request is pending, and leaves when it is complete. -/
theorem Sim.check (h : Sim s a) (ht : s.tasks t = .inside req r .waiting) :
    Sim (s.goto t (.inside req r (if s.state r = 1 then .polling else .leaving))) a := by
  have hok := (h.slots.slot (view_eq ht)).2
  by_cases hstate : s.state r = 1
  · rw [if_pos hstate]
    exact h.goto ht rfl hok Iff.rfl nofun
  · rw [if_neg hstate]
    exact h.goto ht rfl (hok.resolve_left fun hpending => hstate hpending.1) Iff.rfl nofun

/-- **A task looks for a completion.** -/
theorem Sim.process (h : Sim s a) (ht : s.tasks t = .inside req r .polling) :
    ∃ compId : Int, ∃ ctrl', processIoCq s.nvmeCtrl = (.ok compId, ctrl') ∧
      Sim ({ s with nvmeCtrl := ctrl' }.goto t
        (.inside req r (if compId ≠ -1 then .marking compId.toNat else .waiting))) a := by
  cases hcq : cqList s.nvmeCtrl s.device with
  | nil =>
    refine ⟨-1, s.nvmeCtrl, processIoCq_nil h.queues hcq, ?_⟩
    rw [if_neg (not_not.mpr rfl)]
    exact h.goto ht rfl (h.slots.slot (view_eq ht)).2 Iff.rfl nofun
  | cons entry rest =>
    obtain ⟨ctrl', hprocess, hqueues, hsq, hrest⟩ := processIoCq_cons h.queues hcq
      (h.ok entry (hcq ▸ List.mem_cons_self))
    refine ⟨entry.commandId.toNat, ctrl', hprocess, ?_⟩
    rw [if_pos (by omega)]
    exact h.found ht hcq hqueues hsq hrest

/-- **A step of the system** is a run of the atomic disk. -/
theorem Sim.exec (h : Sim s a) (act : Act τ) (hok : StepOk s act) :
    ∃ ps, trace Atomic.exec a ps = (s.exec act).1 ∧ Sim (s.exec act).2 (final Atomic.exec a ps) := by
  unfold System.exec
  rw [if_pos h.running]
  cases act with
  | call t req =>
    unfold System.step
    dsimp only
    split
    case h_1 ht => exact h.call ht hok
    case h_2 => exact h.silent
  | alloc t =>
    obtain ⟨r₁, hr₁, r₂, hr₂, hne, hfree₁, hfree₂⟩ := hok
    unfold System.step
    dsimp only
    split
    case h_1 req ht =>
      split
      case h_1 hnone =>
        -- cannot be: two slots are free
        have hfull := List.find?_eq_none.mp hnone r₁ (List.mem_range.mpr hr₁)
        exact absurd (decide_eq_true hfree₁) hfull
      case h_2 r hsome =>
        unfold allocReqSlot at hsome
        have hr := List.mem_range.mp (List.mem_of_find?_eq_some hsome)
        have hfree : s.state r = 0 := of_decide_eq_true
            (List.find?_some (p := fun i => decide (s.state i = 0)) hsome)
        refine (h.alloc ht hr hfree ?_).silent
        by_cases heq : r = r₁
        · exact ⟨r₂, hr₂, heq ▸ hne, hfree₂⟩
        · exact ⟨r₁, hr₁, Ne.symm heq, hfree₁⟩
    case h_2 => exact h.silent
  | copyIn t =>
    unfold System.step
    dsimp only
    split
    case h_1 req r ht =>
      have hself := h.tasks t
      rw [ht] at hself
      rw [if_neg (not_tooLarge hself.1)]
      refine (h.copyIn ht fun hwrite i hi => ?_).silent
      rw [if_pos hwrite, copyBytes_of_lt (by rw [toNat_count hself.1]; exact hi)]
    case h_2 => exact h.silent
  | submit t =>
    unfold System.step
    dsimp only
    split
    case h_1 req r ht => exact (h.submit ht).silent
    case h_2 => exact h.silent
  | check t =>
    unfold System.step
    dsimp only
    split
    case h_1 req r ht =>
      have hcheck := h.check ht
      split
      case isTrue hstate =>
        rw [show s.state r = 1 from hstate, if_pos rfl] at hcheck
        exact hcheck.silent
      case isFalse hstate =>
        rw [if_neg (show ¬ s.state r = 1 from hstate)] at hcheck
        exact hcheck.silent
    case h_2 => exact h.silent
  | process t =>
    unfold System.step
    dsimp only
    split
    case h_1 req r ht =>
      obtain ⟨compId, ctrl', hprocess, hsim⟩ := h.process ht
      rw [hprocess]
      dsimp only
      split
      case isTrue hid =>
        rw [if_pos hid] at hsim
        exact hsim.silent
      case isFalse hid =>
        rw [if_neg hid] at hsim
        exact hsim.silent
    case h_2 => exact h.silent
  | mark t =>
    unfold System.step
    dsimp only
    split
    case h_1 req r c ht => exact (h.mark ht).silent
    case h_2 => exact h.silent
  | finish t =>
    unfold System.step
    dsimp only
    split
    case h_1 req r ht =>
      obtain ⟨hserved, hsim⟩ := h.finish ht
      have hret : Atomic.exec a (.ret t) = ([.ret t (copyOut req (s.bounce r))],
          { a with tasks := Function.update a.tasks t .idle }) := by
        simp only [Atomic.exec, hserved]
      refine ⟨[.ret t], by rw [trace_cons, hret]; rfl, ?_⟩
      rw [final_cons, hret, final_nil]
      exact hsim
    case h_2 => exact h.silent
  | fetch => exact h.fetch.silent
  | complete k sctSc =>
    obtain rfl : sctSc = 0 := hok
    exact h.complete k

/-- **The block device is an atomic disk.**  In every run of tasks and controller, as long as the requests fit
in a page, one slot stays free and no command fails, each request takes effect at one moment between its call
and its return, and the driver does not panic. -/
theorem requests_atomic {bouncePhys : Nat → UInt64}
    (hinj : ∀ r < 32, ∀ r' < 32, bouncePhys r = bouncePhys r' → r = r') (pages : UInt64 → Bytes) (disk : Disk)
    {acts : List (Act τ)}
    (hok : Admissible (fun s act => (System.exec s act).2) StepOk (.boot bouncePhys pages disk) acts) :
    ∃ ps, trace Atomic.exec ⟨disk, fun _ => .idle⟩ ps = trace System.exec (.boot bouncePhys pages disk) acts ∧
      (final Atomic.exec ⟨disk, fun _ => .idle⟩ ps).disk =
        (final System.exec (.boot bouncePhys pages disk) acts).device.disk ∧
      (final System.exec (.boot bouncePhys pages disk) acts).panicked = none := by
  obtain ⟨ps, htrace, hsim⟩ := trace_simulates (fun s a act (h : Sim s a) hok => h.exec act hok)
    (sim_boot hinj pages disk) hok
  exact ⟨ps, htrace, hsim.disk, hsim.running⟩

/-- Task 1 reads a block and task 0 writes one; the write is completed first, and task 1 finds it. -/
theorem requests_atomic_twoTasks :
    let write : BlockRequest := { isWrite := true, lba := 5, count := 1, buffer := fun i => UInt8.ofNat i }
    let read : BlockRequest := { isWrite := false, lba := 9, count := 2, buffer := fun _ => 0 }
    let s : System Nat := .boot (fun i => UInt64.ofNat (4096 * i)) (fun _ _ => 0) fun _ _ => 7
    let acts := [.call 0 write, .call 1 read, .alloc 0, .alloc 1, .copyIn 1, .copyIn 0, .submit 1, .submit 0,
      .fetch, .fetch, .complete 1 0, .check 1, .process 1, .mark 1, .complete 0 0, .check 1, .process 1,
      .mark 1, .check 1, .finish 1, .check 0, .finish 0]
    ∃ ps, trace Atomic.exec ⟨fun _ _ => 7, fun _ => .idle⟩ ps = trace System.exec s acts ∧
      (final Atomic.exec ⟨fun _ _ => 7, fun _ => .idle⟩ ps).disk = (final System.exec s acts).device.disk ∧
      (final System.exec s acts).panicked = none := by
  refine requests_atomic (by decide) _ _ ⟨⟨by decide, by decide⟩, ⟨by decide, by decide⟩, ?_, ?_, trivial,
    trivial, trivial, trivial, trivial, trivial, rfl, trivial, trivial, trivial, rfl, trivial, trivial,
    trivial, trivial, trivial, trivial, trivial, trivial⟩
  · exact ⟨0, by decide, 1, by decide, by decide, rfl, rfl⟩
  · exact ⟨1, by decide, 2, by decide, by decide, rfl, rfl⟩

end Steps

end Sim

end Keuos.Nvme
