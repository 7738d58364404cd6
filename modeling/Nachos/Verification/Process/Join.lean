import Nachos.Verification.Process.Consistency
import Nachos.Verification.Process.PcbObject

/-! # One Join and one Exit

The interleavings of a parent's `JoinUpdate` with its child's `ExitUpdate`, from any state
in which neither call has begun. Both calls pass through few phases; a step of the kernel
by one of the two threads is a step from phase to phase. -/

namespace Nachos

open Runs

namespace Kernel

/-! ## Equations of the two calls -/

variable (k : Kernel) (t : Tid) (pID : ℕ) (a : Addr) (ec : ℤ)

theorem joinSemP_of_zero {p : PCB} {queue : List Tid} (h : p.joinsem = ⟨0, queue⟩) :
    k.joinSemP t pID a p =
      (k.putPCB a { p with joinsem := ⟨0, queue ++ [t]⟩ }).sleep t (.joinWait pID a) := by
  simp [joinSemP, Semaphore.p, h]

theorem joinSemP_of_succ {p : PCB} {n : ℕ} {queue : List Tid} (h : p.joinsem = ⟨n + 1, queue⟩) :
    k.joinSemP t pID a p =
      (k.putPCB a { p with joinsem := ⟨n, queue⟩ }).goto t (.joinCode pID a) := by
  simp [joinSemP, Semaphore.p, h]

theorem exitSemP_of_zero {p : PCB} {queue : List Tid} (h : p.exitsem = ⟨0, queue⟩) :
    k.exitSemP t pID ec a p =
      (k.putPCB a { p with exitsem := ⟨0, queue ++ [t]⟩ }).sleep t (.exitWait pID a ec) := by
  simp [exitSemP, Semaphore.p, h]

theorem exitSemP_of_succ {p : PCB} {n : ℕ} {queue : List Tid} (h : p.exitsem = ⟨n + 1, queue⟩) :
    k.exitSemP t pID ec a p =
      (k.putPCB a { p with exitsem := ⟨n, queue⟩ }).goto t (.exitRemove pID ec) := by
  simp [exitSemP, Semaphore.p, h]

variable {k t pID a ec} {th : Thread} {p : PCB}

/-- `JoinUpdate` gets to `JoinWait`. -/
theorem joinUpdate_of_parent (hrange : 0 < pID ∧ pID < maxProcess) (hslot : k.pcb pID = some a)
    (hheap : k.heap a = some p) (hparent : th.processID = p.parentID) :
    k.joinUpdate t th pID = k.joinSemP t pID a p.joinWait := by
  have hpID : ¬ ((pID : ℤ) ≤ 0 ∨ 9 < (pID : ℤ)) := by
    unfold maxProcess at hrange
    omega
  unfold joinUpdate
  rw [if_neg hpID, Int.toNat_natCast, hslot]
  dsimp only
  rw [hheap]
  dsimp only
  rw [if_neg (not_not.mpr hparent)]

/-- `JoinUpdate` turns a process away that is not the parent. -/
theorem joinUpdate_of_stranger (hrange : 0 < pID ∧ pID < maxProcess) (hslot : k.pcb pID = some a)
    (hheap : k.heap a = some p) (hparent : th.processID ≠ p.parentID) :
    k.joinUpdate t th pID = k.goto t (.returned (-1)) := by
  have hpID : ¬ ((pID : ℤ) ≤ 0 ∨ 9 < (pID : ℤ)) := by
    unfold maxProcess at hrange
    omega
  unfold joinUpdate
  rw [if_neg hpID, Int.toNat_natCast, hslot]
  dsimp only
  rw [hheap]
  dsimp only
  rw [if_pos hparent]

/-- `JoinUpdate` follows a pointer to a deleted object. -/
theorem joinUpdate_of_dangling (hrange : 0 < pID ∧ pID < maxProcess)
    (hslot : k.pcb pID = some a) (hheap : k.heap a = none) :
    k.joinUpdate t th pID = k.stop .undefined := by
  have hpID : ¬ ((pID : ℤ) ≤ 0 ∨ 9 < (pID : ℤ)) := by
    unfold maxProcess at hrange
    omega
  unfold joinUpdate
  rw [if_neg hpID, Int.toNat_natCast, hslot]
  dsimp only
  rw [hheap]

/-- `ExitUpdate` of a joined process up to the end of `JoinRelease`. -/
theorem exitUpdate_joined (hchild : th.processID ≠ 0) (hexist : k.isExist th.processID = true)
    (hderef : k.deref th.processID = some (a, p)) (hjoined : p.joinStatus ≠ -1) :
    k.exitUpdate t th ec =
      ((k.putPCB a { { p with exitcode := ec }.decNumWait with joinsem := p.joinsem.v.1 }).wake
        p.joinsem.v.2).goto t (.exitRelease th.processID ec) := by
  simp [exitUpdate, hexist, hchild, hderef, hjoined]

end Kernel

/-- The fields of a PCB that the two calls use. -/
def PCB.shared (p : PCB) : ℕ × ℤ × ℤ × Semaphore × Semaphore :=
  (p.parentID, p.joinStatus, p.exitcode, p.joinsem, p.exitsem)

inductive Party
  | parent
  | child
deriving DecidableEq, Repr

theorem Party.forall {P : Party → Prop} (hparent : P .parent) (hchild : P .child) (party : Party) :
    P party := by
  cases party with
  | parent => exact hparent
  | child => exact hchild

/-- The threads of the two processes, their process numbers, the child's exit code, the
address of its PCB and the name in it, of which `SC_Exec` has copied in at most 33
characters. -/
structure Meeting where
  parent : Tid
  parentID : ℕ
  child : Tid
  id : ℕ
  ec : ℤ
  pcb : Addr
  name : List Byte
  parentID_lt : parentID < maxProcess
  length_name : name.length ≤ 33

namespace Meeting

/-- The parent that the child's PCB names. -/
def recorded (m : Meeting) : ℕ :=
  PCB.parentBehind m.parentID m.name

theorem recorded_eq_iff (m : Meeting) :
    m.recorded = m.parentID ↔ PCB.KeepsParent m.parentID m.name :=
  PCB.parentBehind_eq_iff (m.parentID_lt.trans (by decide)) m.length_name

def tid (m : Meeting) : Party → Tid
  | .parent => m.parent
  | .child => m.child

/-- The input for the next step of a call; none when the call has returned, or when the
thread cannot make it yet. -/
def input (m : Meeting) (th : Thread) : Party → Option Input
  | .parent =>
      match th.mode with
      | .user => some (.join m.id)
      | .joinWait _ _ | .joinCode _ _ => some .go
      | _ => none
  | .child =>
      match th.mode with
      | .user => if th.exited ∨ th.space.pages = 0 then none else some (.exit m.ec)
      | .exitRelease _ _ | .exitWait _ _ _ | .exitRemove _ _ => some .go
      | _ => none

/-- The next step of one of the calls. -/
def step (m : Meeting) (k : Kernel) (party : Party) : Option Kernel :=
  (k.threads (m.tid party)).bind fun th =>
    (m.input th party).bind fun i => k.step (m.tid party, i)

/-! ## Phases -/

/-- Thread `t` of process `pID` is in the given mode, has pages and has not exited. -/
structure InMode (k : Kernel) (t : Tid) (pID : ℕ) (mode : Mode) (asleep : Bool) (th : Thread) :
    Prop where
  thread : k.threads t = some th
  processID : th.processID = pID
  mode : th.mode = mode
  asleep : th.asleep = asleep
  pages : th.space.pages ≠ 0
  exited : th.exited = false

/-- The child is not inside `Exit`: it is being loaded, runs its program or is in another
call. -/
def early : Mode → Bool
  | .exitRelease _ _ | .exitWait _ _ _ | .exitRemove _ _ => false
  | _ => true

/-- The child's thread, before it calls `Exit`. -/
def ChildEarly (m : Meeting) (k : Kernel) : Prop :=
  ∃ th, k.threads m.child = some th ∧ th.processID = m.id ∧ early th.mode = true ∧
    th.exited = false

/-- The parent is in its user program. -/
def ParentUser (m : Meeting) (k : Kernel) : Prop :=
  ∃ th, InMode k m.parent m.parentID .user false th

/-- What happens between the steps of the two calls: other threads run, the child goes on
before its `Exit`, the parent before its `Join`; the slot and what the calls use of the PCB
are as they were. -/
structure Undisturbed (m : Meeting) (k k' : Kernel) : Prop where
  status : k'.status = k.status
  parent : k'.threads m.parent = k.threads m.parent ∨ m.ParentUser k ∧ m.ParentUser k'
  child : k'.threads m.child = k.threads m.child ∨ m.ChildEarly k ∧ m.ChildEarly k'
  slot : k'.pcb m.id = k.pcb m.id
  marked : k'.isExist m.id = k.isExist m.id
  object : (k'.heap m.pcb).map PCB.shared = (k.heap m.pcb).map PCB.shared

/-- An interleaving of the two calls from one state to another: the steps of the two
parties in this order, and what happens in between. -/
inductive Interleaving (m : Meeting) : Kernel → List Party → Kernel → Prop
  | nil (k) : Interleaving m k [] k
  | step {k k₁ k' party σ} (taken : m.step k party = some k₁) (rest : Interleaving m k₁ σ k') :
      Interleaving m k (party :: σ) k'
  | other {k k₁ k' σ} (taken : m.Undisturbed k k₁) (rest : Interleaving m k₁ σ k') :
      Interleaving m k σ k'

/-- The child is in the given mode; without one it has not called `Exit`. -/
def ChildAt (m : Meeting) (k : Kernel) (mode : Option Mode) (asleep : Bool) : Prop :=
  match mode with
  | none => m.ChildEarly k
  | some mode => ∃ th, InMode k m.child m.id mode asleep th

/-- What the fields of the PCB hold. -/
structure Holds (k : Kernel) (m : Meeting) (joinsem exitsem : Semaphore) (joined : Bool)
    (code : Option ℤ) (p : PCB) : Prop where
  heap : k.heap m.pcb = some p
  parentID : p.parentID = m.recorded
  joinsem : p.joinsem = joinsem
  exitsem : p.exitsem = exitsem
  joined : p.joinStatus ≠ -1 ↔ joined = true
  code : ∀ ec ∈ code, p.exitcode = ec

/-- What the two calls see while the PCB is there. -/
structure Live (m : Meeting) (k : Kernel) (parentMode : Mode) (parentAsleep : Bool)
    (childMode : Option Mode) (childAsleep : Bool) (joinsem exitsem : Semaphore) (joined : Bool)
    (code : Option ℤ) : Prop where
  status : k.status = .running
  distinct : m.parent ≠ m.child
  range : 0 < m.id ∧ m.id < maxProcess
  slot : k.pcb m.id = some m.pcb
  marked : k.isExist m.id = true
  parent : ∃ th, InMode k m.parent m.parentID parentMode parentAsleep th
  child : m.ChildAt k childMode childAsleep
  object : ∃ p, Holds k m joinsem exitsem joined code p

/-- The PCB has been deleted and the child is back in its user program. -/
structure Gone (m : Meeting) (k : Kernel) (parentMode : Mode) : Prop where
  status : k.status = .running
  range : 0 < m.id ∧ m.id < maxProcess
  slot : k.pcb m.id = some m.pcb
  heap : k.heap m.pcb = none
  parent : ∃ th, InMode k m.parent m.parentID parentMode false th
  child : ∃ th, k.threads m.child = some th ∧ th.mode = .user ∧ th.exited = true

end Meeting

/-- The phases of the meeting; the flag tells whether the child sleeps in `ExitWait`. In
`denied` and `deserted` the PCB names another parent and the join has been turned away. -/
inductive MeetingPhase
  | ready
  | waiting
  | woken (blocked : Bool)
  | reading (blocked : Bool)
  | refused (blocked : Bool)
  | freed (blocked : Bool)
  | removing
  | finished
  | orphan
  | crashed
  | denied
  | deserted
deriving DecidableEq, Repr

namespace MeetingPhase

def next (own zero : Bool) : MeetingPhase → Party → Option MeetingPhase
  | .ready, .parent => some (if own then .waiting else .denied)
  | .ready, .child => some .orphan
  | .waiting, .child => some (.woken false)
  | .woken blocked, .parent => some (.reading blocked)
  | .woken false, .child => some (.woken true)
  | .reading blocked, .parent => some (if zero then .freed blocked else .refused blocked)
  | .reading false, .child => some (.reading true)
  | .refused false, .child => some (.refused true)
  | .freed _, .child => some .removing
  | .removing, .child => some .finished
  | .orphan, .parent => some .crashed
  | .denied, .child => some .deserted
  | _, _ => none

/-- The phases before the child has called `Exit`. -/
def early : MeetingPhase → Bool
  | .ready | .waiting | .denied => true
  | _ => false

end MeetingPhase

namespace Meeting

def childMode (m : Meeting) (blocked : Bool) : Option Mode :=
  some (if blocked then .exitWait m.id m.pcb m.ec else .exitRelease m.id m.ec)

def exitsem (m : Meeting) (blocked : Bool) : Semaphore :=
  if blocked then ⟨0, [m.child]⟩ else ⟨0, []⟩

/-- Neither call has begun: the parent is in user mode, the child is anywhere before its
`Exit`, and its PCB is as `ExecUpdate` made it. -/
def Ready (m : Meeting) (k : Kernel) : Prop :=
  m.Live k .user false none false ⟨0, []⟩ ⟨0, []⟩ false none

/-- The kernel is in the given phase of the meeting. -/
def At (m : Meeting) (k : Kernel) : MeetingPhase → Prop
  | .ready => m.Ready k
  | .waiting => m.Live k (.joinWait m.id m.pcb) true none false ⟨0, [m.parent]⟩ ⟨0, []⟩ true none
  | .woken blocked => m.Live k (.joinWait m.id m.pcb) false (m.childMode blocked) blocked
      ⟨1, []⟩ (m.exitsem blocked) true (some m.ec)
  | .reading blocked => m.Live k (.joinCode m.id m.pcb) false (m.childMode blocked) blocked
      ⟨0, []⟩ (m.exitsem blocked) true (some m.ec)
  | .refused blocked => m.Live k (.returned (-1)) false (m.childMode blocked) blocked
      ⟨0, []⟩ (m.exitsem blocked) true (some m.ec)
  | .freed blocked => m.Live k (.returned 0) false (m.childMode blocked) false
      ⟨0, []⟩ ⟨1, []⟩ true (some m.ec)
  | .removing => m.Live k (.returned 0) false (some (.exitRemove m.id m.ec)) false
      ⟨0, []⟩ ⟨0, []⟩ true (some m.ec)
  | .finished => m.Gone k (.returned 0)
  | .orphan => m.Gone k .user
  | .crashed => k.status = .undefined ∧ ∃ th, k.threads m.parent = some th ∧ th.mode = .user
  | .denied => m.Live k (.returned (-1)) false none false ⟨0, []⟩ ⟨0, []⟩ false none
  | .deserted => m.Gone k (.returned (-1))

/-- The phases of this meeting: its PCB may name another parent, its exit code may be 0. -/
def next (m : Meeting) : MeetingPhase → Party → Option MeetingPhase :=
  MeetingPhase.next (decide (m.recorded = m.parentID)) (decide (m.ec = 0))

/-! ## What the kernel operations change -/

variable {m : Meeting} {k : Kernel} {pm mode : Mode} {cm : Option Mode} {pa ca : Bool}
  {js es : Semaphore} {jd : Bool} {code : Option ℤ}

theorem InMode.self {t : Tid} {pID : ℕ} {mode : Mode} {asleep : Bool} {th : Thread}
    (h : InMode k t pID mode asleep th) (mode' : Mode) (asleep' : Bool) :
    InMode (k.modifyThread t fun th => { th with mode := mode', asleep := asleep' }) t pID mode'
      asleep' { th with mode := mode', asleep := asleep' } :=
  ⟨by simp [Kernel.modifyThread, h.thread], h.processID, rfl, rfl, h.pages, h.exited⟩

theorem InMode.congr {k' : Kernel} {t : Tid} {pID : ℕ} {asleep : Bool} {th : Thread}
    (h : InMode k t pID mode asleep th) (hthreads : k'.threads t = k.threads t) :
    InMode k' t pID mode asleep th :=
  ⟨hthreads.trans h.thread, h.processID, h.mode, h.asleep, h.pages, h.exited⟩

theorem ChildAt.congr {k' : Kernel} (h : m.ChildAt k cm ca)
    (hthreads : k'.threads m.child = k.threads m.child) : m.ChildAt k' cm ca := by
  cases cm with
  | none =>
      obtain ⟨th, hth, hrest⟩ := h
      exact ⟨th, hthreads.trans hth, hrest⟩
  | some mode =>
      obtain ⟨th, hth⟩ := h
      exact ⟨th, hth.congr hthreads⟩

namespace Live

theorem putPCB (h : m.Live k pm pa cm ca js es jd code) {p : PCB} {js' es' : Semaphore}
    {jd' : Bool} {code' : Option ℤ}
    (hp : Holds (k.putPCB m.pcb p) m js' es' jd' code' p) :
    m.Live (k.putPCB m.pcb p) pm pa cm ca js' es' jd' code' := by
  obtain ⟨th, hth⟩ := h.parent
  exact ⟨h.status, h.distinct, h.range, h.slot, h.marked, ⟨th, hth.congr rfl⟩, h.child.congr rfl,
    p, hp⟩

/-- The parent's thread changes its mode. -/
theorem parent_to (h : m.Live k pm pa cm ca js es jd code) (mode : Mode) (asleep : Bool) :
    m.Live (k.modifyThread m.parent fun th => { th with mode := mode, asleep := asleep }) mode
      asleep cm ca js es jd code := by
  obtain ⟨th, hth⟩ := h.parent
  obtain ⟨p, hp⟩ := h.object
  exact ⟨h.status, h.distinct, h.range, h.slot, h.marked, ⟨_, hth.self mode asleep⟩,
    h.child.congr (Function.update_of_ne h.distinct.symm _ _), p, hp.heap, hp.parentID, hp.joinsem,
    hp.exitsem, hp.joined, hp.code⟩

/-- The child's thread changes its mode. -/
theorem child_to (h : m.Live k pm pa (some mode) ca js es jd code) (mode' : Mode)
    (asleep : Bool) :
    m.Live (k.modifyThread m.child fun th => { th with mode := mode', asleep := asleep }) pm pa
      (some mode') asleep js es jd code := by
  obtain ⟨th, hth⟩ := h.parent
  obtain ⟨uh, huh⟩ := h.child
  obtain ⟨p, hp⟩ := h.object
  exact ⟨h.status, h.distinct, h.range, h.slot, h.marked,
    ⟨th, hth.congr (Function.update_of_ne h.distinct _ _)⟩, ⟨_, huh.self mode' asleep⟩, p,
    hp.heap, hp.parentID, hp.joinsem, hp.exitsem, hp.joined, hp.code⟩

theorem goto_parent (h : m.Live k pm pa cm ca js es jd code) (mode : Mode) :
    m.Live (k.goto m.parent mode) mode pa cm ca js es jd code := by
  obtain ⟨th, hth⟩ := h.parent
  have heq : k.goto m.parent mode =
      k.modifyThread m.parent fun th => { th with mode := mode, asleep := pa } := by
    simp [Kernel.goto, Kernel.modifyThread, hth.thread, hth.asleep]
  rw [heq]
  exact h.parent_to mode pa

theorem goto_child (h : m.Live k pm pa (some mode) ca js es jd code) (mode' : Mode) :
    m.Live (k.goto m.child mode') pm pa (some mode') ca js es jd code := by
  obtain ⟨th, hth⟩ := h.child
  have heq : k.goto m.child mode' =
      k.modifyThread m.child fun th => { th with mode := mode', asleep := ca } := by
    simp [Kernel.goto, Kernel.modifyThread, hth.thread, hth.asleep]
  rw [heq]
  exact h.child_to mode' ca

theorem wake_parent (h : m.Live k pm pa cm ca js es jd code) :
    m.Live (k.wake (some m.parent)) pm false cm ca js es jd code := by
  obtain ⟨th, hth⟩ := h.parent
  have heq : k.wake (some m.parent) =
      k.modifyThread m.parent fun th => { th with mode := pm, asleep := false } := by
    simp [Kernel.wake, Kernel.modifyThread, hth.thread, hth.mode]
  rw [heq]
  exact h.parent_to pm false

theorem wake_child (h : m.Live k pm pa (some mode) ca js es jd code) :
    m.Live (k.wake (some m.child)) pm pa (some mode) false js es jd code := by
  obtain ⟨th, hth⟩ := h.child
  have heq : k.wake (some m.child) =
      k.modifyThread m.child fun th => { th with mode := mode, asleep := false } := by
    simp [Kernel.wake, Kernel.modifyThread, hth.thread, hth.mode]
  rw [heq]
  exact h.child_to mode false

/-- The child gets to its `Exit`. -/
theorem at_exit (h : m.Live k pm pa none ca js es jd code)
    (hchild : m.ChildAt k (some .user) false) : m.Live k pm pa (some .user) false js es jd code :=
  ⟨h.status, h.distinct, h.range, h.slot, h.marked, h.parent, hchild, h.object⟩

end Live

/-! ## The steps of the two calls -/

theorem step_of_inMode {t : Tid} {pID : ℕ} {mode : Mode} {th : Thread}
    (hstatus : k.status = .running) (h : InMode k t pID mode false th) (i : Input) :
    k.step (t, i) = k.modeStep t th i := by
  simp [Kernel.step, hstatus, h.thread, h.asleep]

theorem step_asleep {t : Tid} {pID : ℕ} {mode : Mode} {th : Thread}
    (h : InMode k t pID mode true th) (i : Input) : k.step (t, i) = none := by
  simp [Kernel.step, h.thread, h.asleep]

variable {th : Thread}

/-- The step of the parent in a mode in which its call goes on. -/
theorem step_parent (hstatus : k.status = .running)
    (hth : InMode k m.parent m.parentID pm false th) {i : Input}
    (hi : m.input th .parent = some i) : m.step k .parent = k.modeStep m.parent th i := by
  simp only [step, tid, hth.thread, Option.bind_some, hi, step_of_inMode hstatus hth]

theorem step_child (hstatus : k.status = .running) (hth : InMode k m.child m.id mode false th)
    {i : Input} (hi : m.input th .child = some i) :
    m.step k .child = k.modeStep m.child th i := by
  simp only [step, tid, hth.thread, Option.bind_some, hi, step_of_inMode hstatus hth]

theorem join_begins (hown : m.recorded = m.parentID) (h : m.At k .ready) :
    ∃ k', m.step k .parent = some k' ∧ m.At k' .waiting := by
  obtain ⟨th, hth⟩ := h.parent
  obtain ⟨p, hp⟩ := h.object
  have hinput : m.input th .parent = some (.join m.id) := by
    simp [input, hth.mode]
  have hjoinsem : p.joinWait.joinsem = ⟨0, []⟩ := hp.joinsem
  refine ⟨_, (step_parent h.status hth hinput).trans
    (Kernel.modeStep_user hth.mode hth.pages _), ?_⟩
  have hparent : th.processID = p.parentID := by rw [hth.processID, hp.parentID, hown]
  rw [Kernel.joinUpdate_of_parent h.range h.slot hp.heap hparent,
    Kernel.joinSemP_of_zero _ _ _ _ hjoinsem]
  refine Live.parent_to (h.putPCB ?_) _ true
  exact ⟨by simp [Kernel.putPCB], hp.parentID, rfl, hp.exitsem, by simp [PCB.joinWait], nofun⟩

/-- The name has made another process the parent. -/
theorem join_denied (hown : m.recorded ≠ m.parentID) (h : m.At k .ready) :
    ∃ k', m.step k .parent = some k' ∧ m.At k' .denied := by
  obtain ⟨th, hth⟩ := h.parent
  obtain ⟨p, hp⟩ := h.object
  have hinput : m.input th .parent = some (.join m.id) := by
    simp [input, hth.mode]
  have hparent : th.processID ≠ p.parentID := by
    rw [hth.processID, hp.parentID]
    exact hown.symm
  refine ⟨_, (step_parent h.status hth hinput).trans
    (Kernel.modeStep_user hth.mode hth.pages _), ?_⟩
  rw [Kernel.joinUpdate_of_stranger h.range h.slot hp.heap hparent]
  exact Live.goto_parent h _

/-- The child's `Remove` of its own slot. -/
theorem gone_removeSelf (h : m.Live k pm false (some mode) false js es jd code) :
    m.Gone (k.removeSelf m.child m.id) pm := by
  obtain ⟨th, hth⟩ := h.parent
  obtain ⟨uh, huh⟩ := h.child
  obtain ⟨p, hp⟩ := h.object
  have htest : k.bm.test ⟨m.id, h.range.2⟩ = true :=
    (Kernel.isExist_eq_test k h.range.2).symm.trans h.marked
  have hremove := Kernel.remove_of_live k htest h.slot hp.heap
  refine ⟨?_, h.range, ?_, ?_, ⟨th, ?_, hth.processID, hth.mode, hth.asleep, hth.pages,
    hth.exited⟩, ⟨{ uh with mode := .user, exited := true }, ?_, rfl, rfl⟩⟩
  all_goals simp [Kernel.removeSelf, Kernel.modifyThread, hremove, hth.thread, huh.thread,
    h.distinct, h.status, h.slot]

/-- `Exit` of a child that nobody has joined. -/
theorem exit_alone (h : m.Live k pm false none false ⟨0, []⟩ ⟨0, []⟩ false none)
    (hchild : m.ChildAt k (some .user) false) :
    ∃ k', m.step k .child = some k' ∧ m.Gone k' pm := by
  have h := Live.at_exit h hchild
  obtain ⟨th, hth⟩ := h.child
  obtain ⟨p, hp⟩ := h.object
  have hinput : m.input th .child = some (.exit m.ec) := by
    simp [input, hth.mode, hth.exited, hth.pages]
  have hchild : th.processID ≠ 0 := by
    rw [hth.processID]
    exact h.range.1.ne'
  have halone : p.joinStatus = -1 := by
    by_contra hjoined
    cases hp.joined.mp hjoined
  refine ⟨_, (step_child h.status hth hinput).trans (Kernel.modeStep_user hth.mode hth.pages _), ?_⟩
  rw [Kernel.exitUpdate_alone hchild (hth.processID ▸ h.marked)
    (Kernel.deref_eq_some.mpr ⟨hth.processID ▸ h.slot, hp.heap⟩) halone, hth.processID]
  have hput : m.Live (k.putPCB m.pcb { p with exitcode := m.ec }) pm false (some .user) false
      ⟨0, []⟩ ⟨0, []⟩ false none :=
    h.putPCB ⟨by simp [Kernel.putPCB], hp.parentID, hp.joinsem, hp.exitsem, hp.joined, nofun⟩
  exact gone_removeSelf hput

/-- `Exit` of a child that the parent waits for, up to `JoinRelease`. -/
theorem exit_releases (h : m.At k .waiting) (hchild : m.ChildAt k (some .user) false) :
    ∃ k', m.step k .child = some k' ∧ m.At k' (.woken false) := by
  have h := Live.at_exit h hchild
  obtain ⟨th, hth⟩ := h.child
  obtain ⟨p, hp⟩ := h.object
  have hinput : m.input th .child = some (.exit m.ec) := by
    simp [input, hth.mode, hth.exited, hth.pages]
  have hchild : th.processID ≠ 0 := by
    rw [hth.processID]
    exact h.range.1.ne'
  have hv : p.joinsem.v = (⟨1, []⟩, some m.parent) := by
    simp [Semaphore.v, hp.joinsem]
  refine ⟨_, (step_child h.status hth hinput).trans (Kernel.modeStep_user hth.mode hth.pages _), ?_⟩
  rw [Kernel.exitUpdate_joined hchild (hth.processID ▸ h.marked)
    (Kernel.deref_eq_some.mpr ⟨hth.processID ▸ h.slot, hp.heap⟩) (hp.joined.mpr rfl), hv,
    hth.processID]
  refine Live.goto_child (Live.wake_parent (h.putPCB ?_)) _
  exact ⟨by simp [Kernel.putPCB], hp.parentID, rfl, hp.exitsem, hp.joined,
    fun ec hec => Option.some.inj hec⟩

/-- The woken parent takes the token of `joinsem`. -/
theorem join_wakes {blocked : Bool} (h : m.At k (.woken blocked)) :
    ∃ k', m.step k .parent = some k' ∧ m.At k' (.reading blocked) := by
  obtain ⟨th, hth⟩ := h.parent
  obtain ⟨p, hp⟩ := h.object
  have hinput : m.input th .parent = some .go := by
    simp [input, hth.mode]
  have hmode : k.modeStep m.parent th .go = some (k.joinWait m.parent m.id m.pcb) := by
    simp [Kernel.modeStep, hth.mode]
  refine ⟨_, (step_parent h.status hth hinput).trans hmode, ?_⟩
  unfold Kernel.joinWait
  rw [hp.heap]
  dsimp only
  rw [Kernel.joinSemP_of_succ _ _ _ _ hp.joinsem]
  refine Live.goto_parent (h.putPCB ?_) _
  exact ⟨by simp [Kernel.putPCB], hp.parentID, rfl, hp.exitsem, hp.joined, hp.code⟩

/-- `ExitWait` with an empty `exitsem`. -/
theorem exit_waits (h : m.Live k pm pa (m.childMode false) false js (m.exitsem false) jd code) :
    ∃ k', m.step k .child = some k' ∧
      m.Live k' pm pa (m.childMode true) true js (m.exitsem true) jd code := by
  obtain ⟨th, hth⟩ := h.child
  obtain ⟨p, hp⟩ := h.object
  have hthmode : th.mode = .exitRelease m.id m.ec := hth.mode
  have hinput : m.input th .child = some .go := by
    simp [input, hthmode]
  have hmode : k.modeStep m.child th .go = some (k.exitRelease m.child m.id m.ec) := by
    simp [Kernel.modeStep, hthmode]
  refine ⟨_, (step_child h.status hth hinput).trans hmode, ?_⟩
  unfold Kernel.exitRelease
  rw [Kernel.deref_eq_some.mpr ⟨h.slot, hp.heap⟩]
  dsimp only
  rw [Kernel.exitSemP_of_zero _ _ _ _ _ hp.exitsem]
  refine Live.child_to (h.putPCB ?_) _ true
  exact ⟨by simp [Kernel.putPCB], hp.parentID, hp.joinsem, rfl, hp.joined, hp.code⟩

/-- The parent reads an exit code other than 0 and gives it up. -/
theorem join_refuses {blocked : Bool} (hec : m.ec ≠ 0) (h : m.At k (.reading blocked)) :
    ∃ k', m.step k .parent = some k' ∧ m.At k' (.refused blocked) := by
  obtain ⟨th, hth⟩ := h.parent
  obtain ⟨p, hp⟩ := h.object
  have hinput : m.input th .parent = some .go := by
    simp [input, hth.mode]
  have hmode : k.modeStep m.parent th .go = some (k.joinCode m.parent m.id) := by
    simp [Kernel.modeStep, hth.mode]
  have hcode : p.exitcode ≠ 0 := by
    rw [hp.code m.ec rfl]
    exact hec
  refine ⟨_, (step_parent h.status hth hinput).trans hmode, ?_⟩
  unfold Kernel.joinCode
  rw [Kernel.deref_eq_some.mpr ⟨h.slot, hp.heap⟩]
  dsimp only
  rw [if_pos hcode]
  exact Live.goto_parent h _

/-- The parent reads the exit code 0 and frees the child. -/
theorem join_frees {blocked : Bool} (hec : m.ec = 0) (h : m.At k (.reading blocked)) :
    ∃ k', m.step k .parent = some k' ∧ m.At k' (.freed blocked) := by
  obtain ⟨th, hth⟩ := h.parent
  obtain ⟨p, hp⟩ := h.object
  have hinput : m.input th .parent = some .go := by
    simp [input, hth.mode]
  have hmode : k.modeStep m.parent th .go = some (k.joinCode m.parent m.id) := by
    simp [Kernel.modeStep, hth.mode]
  have hcode : ¬ p.exitcode ≠ 0 := by
    rw [hp.code m.ec rfl]
    exact not_not.mpr hec
  refine ⟨_, (step_parent h.status hth hinput).trans hmode, ?_⟩
  unfold Kernel.joinCode
  rw [Kernel.deref_eq_some.mpr ⟨h.slot, hp.heap⟩]
  dsimp only
  rw [if_neg hcode]
  -- `exitsem->V()` wakes the child when it already sleeps in `ExitWait`
  cases blocked with
  | false =>
      have hv : p.exitsem.v = (⟨1, []⟩, none) := by
        simp [Semaphore.v, hp.exitsem, exitsem]
      rw [hv]
      refine Live.goto_parent (h.putPCB ?_) _
      exact ⟨by simp [Kernel.putPCB], hp.parentID, hp.joinsem, rfl, hp.joined, hp.code⟩
  | true =>
      have hv : p.exitsem.v = (⟨1, []⟩, some m.child) := by
        simp [Semaphore.v, hp.exitsem, exitsem]
      rw [hv]
      refine Live.goto_parent (Live.wake_child (h.putPCB ?_)) _
      exact ⟨by simp [Kernel.putPCB], hp.parentID, hp.joinsem, rfl, hp.joined, hp.code⟩

/-- The freed child takes the token of `exitsem`. -/
theorem exit_proceeds {blocked : Bool} (h : m.At k (.freed blocked)) :
    ∃ k', m.step k .child = some k' ∧ m.At k' .removing := by
  obtain ⟨th, hth⟩ := h.child
  obtain ⟨p, hp⟩ := h.object
  have hstep : m.step k .child =
      some (k.exitSemP m.child m.id m.ec m.pcb p) := by
    have hthmode := hth.mode
    cases blocked with
    | false =>
        change th.mode = .exitRelease m.id m.ec at hthmode
        rw [step_child h.status hth (i := .go) (by simp [input, hthmode])]
        simp [Kernel.modeStep, hthmode, Kernel.exitRelease,
          Kernel.deref_eq_some.mpr ⟨h.slot, hp.heap⟩]
    | true =>
        change th.mode = .exitWait m.id m.pcb m.ec at hthmode
        rw [step_child h.status hth (i := .go) (by simp [input, hthmode])]
        simp [Kernel.modeStep, hthmode, Kernel.exitWait, hp.heap]
  refine ⟨_, hstep, ?_⟩
  rw [Kernel.exitSemP_of_succ _ _ _ _ _ hp.exitsem]
  refine Live.goto_child (h.putPCB ?_) _
  exact ⟨by simp [Kernel.putPCB], hp.parentID, hp.joinsem, rfl, hp.joined, hp.code⟩

theorem exit_removes (h : m.At k .removing) :
    ∃ k', m.step k .child = some k' ∧ m.At k' .finished := by
  obtain ⟨th, hth⟩ := h.child
  have hinput : m.input th .child = some .go := by
    simp [input, hth.mode]
  have hmode : k.modeStep m.child th .go = some (k.removeSelf m.child m.id) := by
    simp [Kernel.modeStep, hth.mode]
  exact ⟨_, (step_child h.status hth hinput).trans hmode, gone_removeSelf h⟩

/-- `Join` of a child that has removed itself. -/
theorem join_dangles (h : m.At k .orphan) :
    ∃ k', m.step k .parent = some k' ∧ m.At k' .crashed := by
  obtain ⟨th, hth⟩ := h.parent
  have hinput : m.input th .parent = some (.join m.id) := by
    simp [input, hth.mode]
  refine ⟨_, (step_parent h.status hth hinput).trans
    (Kernel.modeStep_user hth.mode hth.pages _), ?_⟩
  rw [Kernel.joinUpdate_of_dangling h.range h.slot h.heap]
  exact ⟨rfl, th, hth.thread, hth.mode⟩

/-! ## Where a party has no next step -/

theorem step_returned {r : ℤ} (hth : InMode k m.parent m.parentID (.returned r) false th) :
    m.step k .parent = none := by
  simp [step, tid, hth.thread, input, hth.mode]

theorem step_parent_asleep (hth : InMode k m.parent m.parentID pm true th) :
    m.step k .parent = none := by
  simp [step, tid, hth.thread, step_asleep hth]

theorem step_child_asleep (hth : InMode k m.child m.id mode true th) :
    m.step k .child = none := by
  simp [step, tid, hth.thread, step_asleep hth]

theorem step_exited (h : m.Gone k pm) : m.step k .child = none := by
  obtain ⟨th, hth, hmode, hexited⟩ := h.child
  simp [step, tid, hth, input, hmode, hexited]

theorem step_stopped (h : k.status ≠ .running) (party : Party) : m.step k party = none := by
  simp [step, Kernel.step, h]

/-- Before its `Exit`, the child's next step is the call. -/
theorem at_exit_of_step {k' : Kernel} (h : m.ChildEarly k) (hstep : m.step k .child = some k') :
    m.ChildAt k (some .user) false := by
  obtain ⟨th, hth, hprocess, hearly, hexited⟩ := h
  obtain ⟨th', hth', hstep⟩ := Option.bind_eq_some_iff.mp hstep
  cases hth.symm.trans hth'
  obtain ⟨i, hi, hstep⟩ := Option.bind_eq_some_iff.mp hstep
  obtain ⟨th', hth', -, hasleep, -⟩ := Kernel.step_eq_some hstep
  cases hth.symm.trans hth'
  have huser : th.mode = .user ∧ th.space.pages ≠ 0 := by
    unfold input at hi
    generalize th.mode = mode at hearly hi
    cases mode with
    | user =>
        have hcall : th.space.pages ≠ 0 ∧ Input.exit m.ec = i := by simpa [hexited] using hi
        exact ⟨rfl, hcall.1⟩
    | exitRelease pID ec => cases hearly
    | exitWait pID a ec => cases hearly
    | exitRemove pID ec => cases hearly
    | _ => cases hi
  exact ⟨th, hth, hprocess, huser.1, hasleep, huser.2, hexited⟩

/-! ## What happens in between -/

theorem Undisturbed.parentIn {k' : Kernel} (hother : m.Undisturbed k k')
    (h : ∃ th, InMode k m.parent m.parentID pm pa th) :
    ∃ th, InMode k' m.parent m.parentID pm pa th := by
  obtain ⟨th, hth⟩ := h
  rcases hother.parent with hsame | ⟨⟨uh, huh⟩, huser⟩
  · exact ⟨th, hth.congr hsame⟩
  · cases hth.thread.symm.trans huh.thread
    cases hth.mode.symm.trans huh.mode
    cases hth.asleep.symm.trans huh.asleep
    exact huser

theorem Undisturbed.childAt {k' : Kernel} (hother : m.Undisturbed k k') (h : m.ChildAt k cm ca)
    (hlate : ∀ mode ∈ cm, early mode = false) : m.ChildAt k' cm ca := by
  rcases hother.child with hsame | ⟨⟨uh, huh, -, hearly, -⟩, hchild⟩
  · exact h.congr hsame
  · cases cm with
    | none => exact hchild
    | some mode =>
        obtain ⟨th, hth⟩ := h
        cases hth.thread.symm.trans huh
        rw [hth.mode, hlate mode rfl] at hearly
        cases hearly

theorem Holds.congr {k' : Kernel} {p : PCB} (h : Holds k m js es jd code p)
    (hother : m.Undisturbed k k') : ∃ p', Holds k' m js es jd code p' := by
  have hobject := hother.object
  rw [h.heap] at hobject
  obtain ⟨p', hheap, hshared⟩ := Option.map_eq_some_iff.mp hobject
  simp only [PCB.shared, Prod.mk.injEq] at hshared
  obtain ⟨hparent, hjoined, hcode, hjoinsem, hexitsem⟩ := hshared
  exact ⟨p', hheap, hparent.trans h.parentID, hjoinsem.trans h.joinsem, hexitsem.trans h.exitsem,
    hjoined ▸ h.joined, fun ec hec => hcode.trans (h.code ec hec)⟩

theorem Live.congr {k' : Kernel} (h : m.Live k pm pa cm ca js es jd code)
    (hother : m.Undisturbed k k') (hlate : ∀ mode ∈ cm, early mode = false) :
    m.Live k' pm pa cm ca js es jd code := by
  obtain ⟨p, hp⟩ := h.object
  exact ⟨hother.status.trans h.status, h.distinct, h.range, hother.slot.trans h.slot,
    hother.marked.trans h.marked, hother.parentIn h.parent, hother.childAt h.child hlate,
    hp.congr hother⟩

theorem Gone.congr {k' : Kernel} (h : m.Gone k pm) (hother : m.Undisturbed k k') :
    m.Gone k' pm := by
  obtain ⟨uh, huh, hmode, hexited⟩ := h.child
  have hchild : k'.threads m.child = some uh := by
    rcases hother.child with hsame | ⟨⟨th, hth, -, -, hearly⟩, -⟩
    · exact hsame.trans huh
    · cases huh.symm.trans hth
      cases hexited.symm.trans hearly
  have hgone : k'.heap m.pcb = none := by
    simpa [h.heap] using hother.object
  exact ⟨hother.status.trans h.status, h.range, hother.slot.trans h.slot, hgone,
    hother.parentIn h.parent, ⟨uh, hchild, hmode, hexited⟩⟩

theorem early_childMode (m : Meeting) (blocked : Bool) :
    ∀ mode ∈ m.childMode blocked, early mode = false := by
  rintro mode ⟨rfl⟩
  cases blocked <;> rfl

theorem at_congr {k' : Kernel} {φ : MeetingPhase} (h : m.At k φ) (hother : m.Undisturbed k k') :
    m.At k' φ := by
  cases φ with
  | ready => exact Live.congr h hother nofun
  | waiting => exact Live.congr h hother nofun
  | woken blocked => exact Live.congr h hother (m.early_childMode blocked)
  | reading blocked => exact Live.congr h hother (m.early_childMode blocked)
  | refused blocked => exact Live.congr h hother (m.early_childMode blocked)
  | freed blocked => exact Live.congr h hother (m.early_childMode blocked)
  | removing =>
      apply Live.congr h hother
      rintro mode ⟨rfl⟩
      rfl
  | finished => exact Gone.congr h hother
  | orphan => exact Gone.congr h hother
  | denied => exact Live.congr h hother nofun
  | deserted => exact Gone.congr h hother
  | crashed =>
      obtain ⟨hstatus, th, hth, hmode⟩ := h
      refine ⟨hother.status.trans hstatus, ?_⟩
      rcases hother.parent with hsame | ⟨-, uh, huh⟩
      · exact ⟨th, hsame.trans hth, hmode⟩
      · exact ⟨uh, huh.thread, huh.mode⟩

/-! ## Runs of the two calls -/

theorem rel_of_step {x : Option Kernel} {φ : MeetingPhase} (h : ∃ k', x = some k' ∧ m.At k' φ) :
    Option.Rel m.At x (some φ) := by
  obtain ⟨k', rfl, hk'⟩ := h
  exact .some hk'

theorem rel_of_none {x : Option Kernel} (h : x = none) : Option.Rel m.At x none := by
  rw [h]
  exact .none

/-- The child calls `Exit`, or it is not there yet. -/
theorem exits_or_early {φ φ' : MeetingPhase} (hφ : φ.early = true) (hchild : m.ChildEarly k)
    (hexit : m.ChildAt k (some .user) false → ∃ k', m.step k .child = some k' ∧ m.At k' φ') :
    Option.Rel m.At (m.step k .child) (some φ') ∨ φ.early = true ∧ m.step k .child = none := by
  cases hstep : m.step k .child with
  | none => exact .inr ⟨hφ, rfl⟩
  | some k' => exact .inl (hstep ▸ rel_of_step (hexit (at_exit_of_step hchild hstep)))

/-- The kernel and the phases move together, but that the child may not be at its `Exit`
yet. -/
theorem step_cases {φ : MeetingPhase} (h : m.At k φ) (party : Party) :
    Option.Rel m.At (m.step k party) (m.next φ party) ∨
      φ.early = true ∧ m.step k party = none := by
  unfold next
  cases φ with
  | ready =>
      cases party with
      | parent =>
          left
          by_cases hown : m.recorded = m.parentID
          · simp only [MeetingPhase.next, hown, decide_true, if_true]
            exact rel_of_step (join_begins hown h)
          · simp only [MeetingPhase.next, hown, decide_false, Bool.false_eq_true, if_false]
            exact rel_of_step (join_denied hown h)
      | child => exact exits_or_early (φ := .ready) rfl h.child (exit_alone h)
  | waiting =>
      cases party with
      | parent => exact .inl (rel_of_none (step_parent_asleep h.parent.choose_spec))
      | child => exact exits_or_early (φ := .waiting) rfl h.child (exit_releases h)
  | woken blocked =>
      cases party with
      | parent => exact .inl (rel_of_step (join_wakes h))
      | child =>
          cases blocked with
          | false => exact .inl (rel_of_step (exit_waits h))
          | true => exact .inl (rel_of_none (step_child_asleep h.child.choose_spec))
  | reading blocked =>
      cases party with
      | parent =>
          by_cases hec : m.ec = 0
          · simp only [MeetingPhase.next, hec, decide_true, if_true]
            exact .inl (rel_of_step (join_frees hec h))
          · simp only [MeetingPhase.next, hec, decide_false, Bool.false_eq_true, if_false]
            exact .inl (rel_of_step (join_refuses hec h))
      | child =>
          cases blocked with
          | false => exact .inl (rel_of_step (exit_waits h))
          | true => exact .inl (rel_of_none (step_child_asleep h.child.choose_spec))
  | refused blocked =>
      cases party with
      | parent =>
          have hnone := step_returned h.parent.choose_spec
          cases blocked with
          | false => exact .inl (rel_of_none hnone)
          | true => exact .inl (rel_of_none hnone)
      | child =>
          cases blocked with
          | false => exact .inl (rel_of_step (exit_waits h))
          | true => exact .inl (rel_of_none (step_child_asleep h.child.choose_spec))
  | freed blocked =>
      cases party with
      | parent => exact .inl (rel_of_none (step_returned h.parent.choose_spec))
      | child => exact .inl (rel_of_step (exit_proceeds h))
  | removing =>
      cases party with
      | parent => exact .inl (rel_of_none (step_returned h.parent.choose_spec))
      | child => exact .inl (rel_of_step (exit_removes h))
  | finished =>
      cases party with
      | parent => exact .inl (rel_of_none (step_returned h.parent.choose_spec))
      | child => exact .inl (rel_of_none (step_exited h))
  | orphan =>
      cases party with
      | parent => exact .inl (rel_of_step (join_dangles h))
      | child => exact .inl (rel_of_none (step_exited h))
  | crashed =>
      have hstopped : k.status ≠ .running := by
        rw [h.1]
        nofun
      exact .inl (rel_of_none (step_stopped hstopped party))
  | denied =>
      cases party with
      | parent => exact .inl (rel_of_none (step_returned h.parent.choose_spec))
      | child => exact exits_or_early (φ := .denied) rfl h.child (exit_alone h)
  | deserted =>
      cases party with
      | parent => exact .inl (rel_of_none (step_returned h.parent.choose_spec))
      | child => exact .inl (rel_of_none (step_exited h))

end Meeting

namespace MeetingPhase

/-- What `JoinUpdate` has returned. -/
def result : MeetingPhase → Option ℤ
  | .refused _ | .denied | .deserted => some (-1)
  | .freed _ | .removing | .finished => some 0
  | _ => none

/-- The phases before anything has been returned and before the child has called `Exit`. -/
def Pending : MeetingPhase → Prop
  | .ready | .waiting => True
  | _ => False

/-- The phases behind a `Join` that came first and was let in. -/
def Joined (zero : Bool) : MeetingPhase → Prop
  | .waiting | .woken _ | .reading _ => True
  | .refused _ => zero = false
  | .freed _ | .removing | .finished => zero = true
  | _ => False

/-- The phases behind a `Join` that came first and was turned away. -/
def Denied : MeetingPhase → Prop
  | .denied | .deserted => True
  | _ => False

/-- The phases behind an `Exit` that came first. -/
def Orphaned : MeetingPhase → Prop
  | .orphan | .crashed => True
  | _ => False

/-- How many steps the two calls still take at most. -/
def rank : MeetingPhase → ℕ
  | .ready => 7
  | .waiting => 6
  | .woken false => 5
  | .woken true | .reading false => 4
  | .reading true => 3
  | .freed _ => 2
  | .removing | .refused false | .orphan | .denied => 1
  | .refused true | .finished | .crashed | .deserted => 0

variable {own zero : Bool} {φ φ' : MeetingPhase} {party : Party} {σ : List Party}

theorem rank_next (h : φ.next own zero party = some φ') : φ'.rank < φ.rank := by
  rcases φ with _ | _ | (_ | _) | (_ | _) | (_ | _) | (_ | _) | _ | _ | _ | _ | _ | _ <;>
    cases party <;> cases own <;> cases zero <;> cases h <;> decide

theorem pending_next_parent (hφ : φ.Pending) (h : φ.next true zero .parent = some φ') :
    φ'.Pending := by
  cases φ <;> cases hφ <;> cases h
  trivial

theorem joined_next (hφ : φ.Joined zero) (h : φ.next own zero party = some φ') :
    φ'.Joined zero := by
  rcases φ with _ | _ | (_ | _) | (_ | _) | (_ | _) | (_ | _) | _ | _ | _ | _ | _ | _ <;>
    cases party <;> cases zero <;> cases h <;> trivial

theorem denied_next (hφ : φ.Denied) (h : φ.next own zero party = some φ') : φ'.Denied := by
  cases φ <;> cases hφ <;> cases party <;> cases h
  trivial

theorem orphaned_next (hφ : φ.Orphaned) (h : φ.next own zero party = some φ') :
    φ'.Orphaned := by
  cases φ <;> cases hφ <;> cases party <;> cases h
  trivial

theorem early_next (hφ : φ.early = false) (h : φ.next own zero party = some φ') :
    φ'.early = false := by
  rcases φ with _ | _ | (_ | _) | (_ | _) | (_ | _) | (_ | _) | _ | _ | _ | _ | _ | _ <;>
    cases party <;> cases zero <;> cases hφ <;> cases h <;> rfl

theorem early_next_child (h : φ.next own zero .child = some φ') : φ'.early = false := by
  rcases φ with _ | _ | (_ | _) | (_ | _) | (_ | _) | (_ | _) | _ | _ | _ | _ | _ | _ <;>
    cases h <;> rfl

/-- The call of `Exit` ends the early phases. -/
theorem not_early_of_child_mem (hσ : .child ∈ σ) (h : exec (next own zero) φ σ = some φ') :
    φ'.early = false := by
  induction σ generalizing φ with
  | nil => cases hσ
  | cons party σ ih =>
      obtain ⟨φ₁, hstep, hrest⟩ := Option.bind_eq_some_iff.mp h
      cases party with
      | parent =>
          have hmem : Party.child ∈ σ := by simpa using hσ
          exact ih hmem hrest
      | child =>
          apply exec_keep (fun φ : MeetingPhase => φ.early = false) (fun _ => True) ?_
            (early_next_child hstep) (fun _ _ => trivial) hrest
          intro φ party φ' _ hφ hnext
          exact early_next hφ hnext

/-- Before a `JoinUpdate` that is let in has returned anything, the child has called
`Exit`. -/
theorem child_mem_of_result {r : ℤ} (h : exec (next true zero) .ready σ = some φ)
    (hr : φ.result = some r) : .child ∈ σ := by
  by_contra hσ
  have hpending : φ.Pending := by
    refine exec_keep (fun φ : MeetingPhase => φ.Pending) (· = Party.parent) ?_
      (show Pending .ready from trivial) ?_ h
    · rintro φ party φ' rfl hφ hstep
      exact pending_next_parent hφ hstep
    · intro party hmem
      cases party with
      | parent => rfl
      | child => exact absurd hmem hσ
  cases φ <;> cases hpending <;> cases hr

/-- Each step lowers the rank, so the two calls take at most seven steps. -/
theorem length_le_rank (h : exec (next own zero) φ σ = some φ') : σ.length ≤ φ.rank := by
  induction σ generalizing φ with
  | nil => exact Nat.zero_le _
  | cons party σ ih =>
      obtain ⟨φ₁, hstep, hrest⟩ := Option.bind_eq_some_iff.mp h
      exact (Nat.succ_le_succ (ih hrest)).trans (rank_next hstep)

theorem result_of_joined (hφ : φ.Joined zero) (hend : ∀ party, φ.next own zero party = none) :
    φ.result = some (if zero then 0 else -1) := by
  cases φ with
  | waiting => cases hend .child
  | woken blocked => cases hend .parent
  | reading blocked => cases hend .parent
  | freed blocked => cases hend .child
  | removing => cases hend .child
  | refused blocked =>
      cases zero with
      | false => rfl
      | true => cases hφ
  | finished =>
      cases zero with
      | false => cases hφ
      | true => rfl
  | _ => cases hφ

theorem result_of_denied (hφ : φ.Denied) : φ.result = some (-1) := by
  cases φ <;> first | rfl | cases hφ

theorem result_of_orphaned (hφ : φ.Orphaned) : φ.result = none := by
  cases φ <;> first | rfl | cases hφ

/-- What every step keeps holds at the end of a run. -/
theorem exec_next {P : MeetingPhase → Prop} (h : exec (next own zero) φ σ = some φ')
    (hnext : ∀ {φ φ' party}, P φ → φ.next own zero party = some φ' → P φ') (hφ : P φ) : P φ' :=
  exec_keep P (fun _ => True) (fun _ _ _ _ hφ hstep => hnext hφ hstep) hφ (fun _ _ => trivial) h

/-- The result of a complete run: who comes first, whom the PCB names and the exit code decide
it. -/
theorem result_of_complete (h : exec (next own zero) .ready σ = some φ)
    (hend : ∀ party, φ.next own zero party = none) :
    φ.result = if σ.head? = some .parent then some (if own ∧ zero then 0 else -1) else none := by
  cases σ with
  | nil =>
      cases h
      cases hend .parent
  | cons party σ =>
      obtain ⟨φ₁, hstep, hrest⟩ := Option.bind_eq_some_iff.mp h
      cases party with
      | parent =>
          cases own with
          | true =>
              cases hstep
              have hjoined : φ.Joined zero := exec_next hrest joined_next trivial
              simpa using result_of_joined hjoined hend
          | false =>
              cases hstep
              have hdenied : φ.Denied := exec_next hrest denied_next trivial
              simpa using result_of_denied hdenied
      | child =>
          cases hstep
          have horphaned : φ.Orphaned := exec_next hrest orphaned_next trivial
          simpa using result_of_orphaned horphaned

end MeetingPhase

/-- What a call returns to the user program. -/
def Mode.result : Mode → Option ℤ
  | .returned r => some r
  | _ => none

namespace Meeting

variable {m : Meeting} {k : Kernel} {φ : MeetingPhase} {σ : List Party}

/-- What `JoinUpdate` has returned to the parent. -/
def result (m : Meeting) (k : Kernel) : Option ℤ :=
  (k.threads m.parent).bind fun th => th.mode.result

/-- `JoinUpdate` has returned the child's exit code at the end of the interleaving, and at
no time before the child called `Exit`. -/
structure JoinOK (m : Meeting) (k : Kernel) (σ : List Party) (k' : Kernel) : Prop where
  returns : m.result k' = some m.ec
  after_exit : ∀ σ₁ σ₂ k₁ r, σ = σ₁ ++ σ₂ → m.Interleaving k σ₁ k₁ → m.Interleaving k₁ σ₂ k' →
    m.result k₁ = some r → .child ∈ σ₁

theorem result_of_inMode {pID : ℕ} {mode : Mode} {asleep : Bool} {th : Thread}
    (h : InMode k m.parent pID mode asleep th) :
    m.result k = mode.result := by
  simp [result, h.thread, h.mode]

theorem result_of_at (h : m.At k φ) : m.result k = φ.result := by
  cases φ with
  | crashed =>
      obtain ⟨-, th, hth, hmode⟩ := h
      simp [result, hth, hmode, Mode.result, MeetingPhase.result]
  | ready => exact result_of_inMode h.parent.choose_spec
  | waiting => exact result_of_inMode h.parent.choose_spec
  | woken blocked => exact result_of_inMode h.parent.choose_spec
  | reading blocked => exact result_of_inMode h.parent.choose_spec
  | refused blocked => exact result_of_inMode h.parent.choose_spec
  | freed blocked => exact result_of_inMode h.parent.choose_spec
  | removing => exact result_of_inMode h.parent.choose_spec
  | finished => exact result_of_inMode h.parent.choose_spec
  | orphan => exact result_of_inMode h.parent.choose_spec
  | denied => exact result_of_inMode h.parent.choose_spec
  | deserted => exact result_of_inMode h.parent.choose_spec

/-- An interleaving of the two calls is a run of the phases. -/
theorem interleaving_phase {k' : Kernel} (φ : MeetingPhase) (h : m.Interleaving k σ k')
    (hat : m.At k φ) :
    ∃ φ', exec m.next φ σ = some φ' ∧ m.At k' φ' := by
  induction h generalizing φ with
  | nil k => exact ⟨φ, rfl, hat⟩
  | other hother _ ih => exact ih φ (at_congr hat hother)
  | @step k k₁ k' party σ hstep _ ih =>
      have hrel := (step_cases hat party).resolve_right fun hnone => by
        cases hstep.symm.trans hnone.2
      rw [hstep] at hrel
      cases hnext : m.next φ party with
      | none =>
          rw [hnext] at hrel
          cases hrel
      | some φ₁ =>
          rw [hnext] at hrel
          cases hrel with
          | some hat₁ =>
              obtain ⟨φ', hexec, hat'⟩ := ih φ₁ hat₁
              refine ⟨φ', ?_, hat'⟩
              rw [exec, hnext]
              exact hexec

/-- The first step of an interleaving, with what happens before it. -/
theorem Interleaving.head {k' : Kernel} {party : Party} (h : m.Interleaving k (party :: σ) k') :
    ∃ k₁, m.Interleaving k [party] k₁ ∧ m.Interleaving k₁ σ k' := by
  generalize hcons : party :: σ = τ at h
  induction h with
  | nil k => cases hcons
  | @step k k₁ k' party σ hstep hrest _ =>
      cases hcons
      exact ⟨k₁, .step hstep (.nil k₁), hrest⟩
  | other hother _ ih =>
      obtain ⟨k₁, hhead, hrest⟩ := ih hcons
      exact ⟨k₁, .other hother hhead, hrest⟩

/-- No interleaving of the two calls goes on for ever. -/
theorem length_le_of_interleaving {k' : Kernel} (h : m.Ready k) (hrun : m.Interleaving k σ k') :
    σ.length ≤ 7 := by
  obtain ⟨φ, hφ, -⟩ := interleaving_phase .ready hrun h
  exact MeetingPhase.length_le_rank hφ

/-- A `Join` that comes first and is turned away has returned before the child calls
`Exit`. -/
theorem not_joinOK_of_denied {k' : Kernel} (hown : m.recorded ≠ m.parentID) (h : m.Ready k)
    (hrun : m.Interleaving k (.parent :: σ) k') : ¬ m.JoinOK k (.parent :: σ) k' := by
  intro hok
  obtain ⟨k₁, hhead, hrest⟩ := hrun.head
  obtain ⟨φ, hφ, hat⟩ := interleaving_phase .ready hhead h
  have hdenied : φ = .denied := by
    simp only [exec, next, MeetingPhase.next, hown, decide_false, Bool.false_eq_true, if_false,
      Option.bind_some, Option.some.injEq] at hφ
    exact hφ.symm
  subst hdenied
  have hmem := hok.after_exit [.parent] σ k₁ (-1) rfl hhead hrest (result_of_at hat)
  simp at hmem

/-- From any state in which neither call has begun, and for every interleaving of the calls
up to where the child has called `Exit` and neither call can go on, `Join` returns the exit
code exactly when the name has left the child its parent, the parent comes first and the
code is 0 or -1. -/
theorem joinOK_iff {k' : Kernel} (h : m.Ready k) (hrun : m.Interleaving k σ k')
    (hcalled : .child ∈ σ) (hend : ∀ party, m.step k' party = none) :
    m.JoinOK k σ k' ↔
      PCB.KeepsParent m.parentID m.name ∧ σ.head? = some .parent ∧ (m.ec = 0 ∨ m.ec = -1) := by
  obtain ⟨φ, hφ, hat⟩ := interleaving_phase .ready hrun h
  have hlast : ∀ party, m.next φ party = none := by
    intro party
    have hlate := MeetingPhase.not_early_of_child_mem hcalled hφ
    have hrel := (step_cases hat party).resolve_right fun hearly => by
      cases hlate.symm.trans hearly.1
    rw [hend party] at hrel
    generalize m.next φ party = x at hrel ⊢
    cases hrel
    rfl
  have hresult := (result_of_at hat).trans (MeetingPhase.result_of_complete hφ hlast)
  rw [← m.recorded_eq_iff]
  by_cases hfirst : σ.head? = some .parent
  · by_cases hown : m.recorded = m.parentID
    · have hafter : ∀ σ₁ σ₂ k₁ r, σ = σ₁ ++ σ₂ → m.Interleaving k σ₁ k₁ →
          m.Interleaving k₁ σ₂ k' → m.result k₁ = some r → .child ∈ σ₁ := by
        intro σ₁ σ₂ k₁ r _ hrun₁ _ hr
        obtain ⟨φ₁, hφ₁, hat₁⟩ := interleaving_phase .ready hrun₁ h
        rw [next, hown, decide_eq_true rfl] at hφ₁
        exact MeetingPhase.child_mem_of_result hφ₁ ((result_of_at hat₁).symm.trans hr)
      have hreturns : m.JoinOK k σ k' ↔ m.result k' = some m.ec :=
        ⟨fun hok => hok.returns, fun hr => ⟨hr, hafter⟩⟩
      rw [hreturns, hresult]
      by_cases hec : m.ec = 0
      · simp [hfirst, hown, hec]
      · simp [hfirst, hown, hec, eq_comm]
    · obtain ⟨party, σ, rfl⟩ := List.exists_cons_of_ne_nil (List.ne_nil_of_mem hcalled)
      cases hfirst
      exact ⟨fun hok => absurd hok (not_joinOK_of_denied hown h hrun),
        fun hcond => absurd hcond.1 hown⟩
  · rw [if_neg hfirst] at hresult
    constructor
    · intro hok
      cases hresult.symm.trans hok.returns
    · intro hcond
      exact absurd hcond.2.1 hfirst

theorem Interleaving.of_exec {k' : Kernel} (h : exec m.step k σ = some k') :
    m.Interleaving k σ k' := by
  induction σ generalizing k with
  | nil =>
      cases h
      exact .nil _
  | cons party σ ih =>
      obtain ⟨k₁, hstep, hrest⟩ := Option.bind_eq_some_iff.mp h
      exact .step hstep (ih hrest)

theorem root_lt : 0 < maxProcess := by decide

theorem length_childName : (chars "A").length ≤ 33 := by decide

/-- The main program and a child that calls `Exit(ec)`. -/
def family (ec : ℤ) : Meeting :=
  ⟨0, 0, 1, 1, ec, 0, chars "A", root_lt, length_childName⟩

/-- The main program has started a child and both are in user mode. -/
def started : Kernel :=
  (exec Kernel.step Kernel.boot
    (Kernel.loadRun 0 ++ Kernel.execRun 0 ++ Kernel.loadRun 1)).getD Kernel.boot

theorem started_ready (ec : ℤ) : (family ec).Ready started := by
  have hparent : started.threads 0 =
      some ⟨0, .user, false, .built (.ofFrames [0, 1, 2]), false⟩ := by decide +kernel
  have hchild : started.threads 1 =
      some ⟨1, .user, false, .built (.ofFrames [3, 4, 5]), false⟩ := by decide +kernel
  have hheap : started.heap 0 = some { PCB.create 1 0 0 with
      fileName := chars "A", thread := some 1 } := by decide +kernel
  have hslot : started.pcb 1 = some 0 := by decide +kernel
  have hmarked : started.isExist 1 = true := by decide +kernel
  have hstatus : started.status = .running := by decide +kernel
  generalize started = k at hparent hchild hheap hslot hmarked hstatus ⊢
  have hrange : 0 < 1 ∧ 1 < maxProcess := by decide
  exact ⟨hstatus, Nat.zero_ne_one, hrange, hslot, hmarked,
    ⟨_, hparent, rfl, rfl, rfl, Nat.succ_ne_zero 2, rfl⟩,
    ⟨_, hchild, rfl, rfl, rfl⟩, _, hheap, rfl, rfl, rfl, by decide, nofun⟩

/-- The parent joins first; both calls overlap and run to their end. -/
def joinFirst : List Party :=
  [.parent, .child, .child, .parent, .parent, .child, .child]

theorem joinOK_iff_of_zero : ∃ k', (family 0).Interleaving started joinFirst k' ∧
    (family 0).JoinOK started joinFirst k' := by
  have hsome : ((exec (family 0).step started joinFirst).map fun k =>
      (((family 0).step k .parent).isNone, ((family 0).step k .child).isNone)) =
      some (true, true) := by
    decide +kernel
  obtain ⟨k', hexec, hend⟩ := Option.map_eq_some_iff.mp hsome
  simp only [Prod.mk.injEq, Option.isNone_iff_eq_none] at hend
  have hrun := Interleaving.of_exec hexec
  have hstop : ∀ party, (family 0).step k' party = none := Party.forall hend.1 hend.2
  exact ⟨k', hrun, (joinOK_iff (started_ready 0) hrun (by decide) hstop).mpr
    ⟨.inl (by decide), rfl, .inl rfl⟩⟩

/-- `Exit(5)` of a child that has been joined: `JoinUpdate` returns -1. -/
theorem join_loses_exit_code :
    (family 5).Ready started ∧ ∃ k',
      (family 5).Interleaving started [.parent, .child, .child, .parent, .parent] k' ∧
        (∀ party, (family 5).step k' party = none) ∧ (family 5).result k' = some (-1) ∧
        ¬ (family 5).JoinOK started [.parent, .child, .child, .parent, .parent] k' := by
  have hsome : ((exec (family 5).step started [.parent, .child, .child, .parent, .parent]).map
      fun k => (((family 5).step k .parent).isNone, ((family 5).step k .child).isNone,
        (family 5).result k)) = some (true, true, some (-1)) := by
    decide +kernel
  obtain ⟨k', hexec, hend⟩ := Option.map_eq_some_iff.mp hsome
  simp only [Prod.mk.injEq, Option.isNone_iff_eq_none] at hend
  have hstop : ∀ party, (family 5).step k' party = none := Party.forall hend.1 hend.2.1
  refine ⟨started_ready 5, k', .of_exec hexec, hstop, hend.2.2, fun hok => ?_⟩
  cases hend.2.2.symm.trans hok.returns

end Meeting

end Nachos
