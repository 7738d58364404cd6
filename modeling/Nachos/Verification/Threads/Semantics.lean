import Nachos.Model.Threads

/-! # The rules of the thread system

One rule for each branch of `System.step`, and the view of the system that the properties
of the scheduler, the wait queues and the user contexts are about. -/

namespace Nachos.System

/-! ## One field of all threads -/

/-- The frames of the thread that has control. -/
def frames (s : System) : List Frame :=
  (s.threads s.currentThread).frames

def statusOf (s : System) (t : Tid) : ThreadStatus :=
  (s.threads t).status

def framesOf (s : System) (t : Tid) : List Frame :=
  (s.threads t).frames

def spaceOf (s : System) (t : Tid) : Option UserSpace :=
  (s.threads t).space

def registersOf (s : System) (t : Tid) : Registers :=
  (s.threads t).userRegisters

section Fields

variable (s : System) (t : Tid) (status : ThreadStatus) (fs : List Frame)

theorem proj_modify {α : Type} (g : Thread → α) (f : Thread → Thread) :
    (fun u => g ((s.modify t f).threads u)) =
      Function.update (fun u => g (s.threads u)) t (g (f (s.threads t))) := by
  funext u
  by_cases hu : u = t
  · subst hu
    simp [modify]
  · simp [modify, hu]

end Fields

/-! ## The view -/

/-- The system without the interrupt level and the flags of the machine. -/
structure View where
  currentThread : Tid
  readyList : List Tid
  status : Tid → ThreadStatus
  frames : Tid → List Frame
  space : Tid → Option UserSpace
  userRegisters : Tid → Registers
  semaphores : SemId → Semaphore
  locks : LockId → Lock
  threadToBeDestroyed : Option Tid
  context : Context
  log : List Event

def view (s : System) : View where
  currentThread := s.currentThread
  readyList := s.readyList
  status := s.statusOf
  frames := s.framesOf
  space := s.spaceOf
  userRegisters := s.registersOf
  semaphores := s.semaphores
  locks := s.locks
  threadToBeDestroyed := s.threadToBeDestroyed
  context := s.context
  log := s.log

namespace View

def top (v : View) : List Frame :=
  v.frames v.currentThread

def setFrames (v : View) (fs : List Frame) : View :=
  { v with frames := Function.update v.frames v.currentThread fs }

@[simp] theorem top_setFrames (v : View) (fs : List Frame) : (v.setFrames fs).top = fs := by
  simp [top, setFrames]

def setStatus (v : View) (t : Tid) (status : ThreadStatus) : View :=
  { v with status := Function.update v.status t status }

def emit (v : View) (event : Event) : View :=
  { v with log := v.log ++ [event] }

def setSem (v : View) (sem : SemId) (semaphore : Semaphore) : View :=
  { v with semaphores := Function.update v.semaphores sem semaphore }

def setLock (v : View) (lock : LockId) (l : Lock) : View :=
  { v with locks := Function.update v.locks lock l }

def setRegisters (v : View) (registers : Registers) : View :=
  { v with context := { v.context with registers := registers } }

def readyToRun (v : View) (t : Tid) : View :=
  ({ v with readyList := v.readyList ++ [t] }.setStatus t .ready).emit (.readied t)

/-- The thread appends itself to a queue, or finishes, and sleeps. -/
def sleep (v : View) (rest : List Frame) : View :=
  (v.setStatus v.currentThread .blocked).setFrames (.sleep :: rest)

def saveUserState (v : View) : View :=
  match v.space v.currentThread with
  | none => v
  | some _ =>
      { v with
        userRegisters := Function.update v.userRegisters v.currentThread v.context.registers
      }.emit (.entered v.currentThread v.context)

def run (v : View) (next : Tid) (rest : List Frame) (level : IntStatus) : View :=
  ({ v.saveUserState.setFrames (.afterSwitch :: rest) with currentThread := next }.setStatus next
    .running).emit (.switch next level)

def restoreUserState (v : View) : View :=
  match v.space v.currentThread with
  | none => v
  | some space =>
      let context : Context :=
        ⟨v.userRegisters v.currentThread, some space.pageTable, space.numPages⟩
      { v with context := context }.emit (.returned v.currentThread context)

def startProcess (v : View) (space : UserSpace) : View :=
  { v with
    space := Function.update v.space v.currentThread (some space)
    context := ⟨space.initRegisters, some space.pageTable, space.numPages⟩ }

def fork (v : View) (t : Tid) : View :=
  { v with frames := Function.update v.frames t [.threadRoot] }.readyToRun t

section Fields

variable (v : View) (fs : List Frame) (t : Tid) (event : Event) (lock : LockId) (l : Lock)

@[simp] theorem log_setFrames : (v.setFrames fs).log = v.log := rfl

@[simp] theorem log_setLock : (v.setLock lock l).log = v.log := rfl

@[simp] theorem log_sleep : (v.sleep fs).log = v.log := rfl

@[simp] theorem log_emit : (v.emit event).log = v.log ++ [event] := rfl

@[simp] theorem log_readyToRun : (v.readyToRun t).log = v.log ++ [Event.readied t] := rfl

@[simp] theorem locks_setFrames : (v.setFrames fs).locks = v.locks := rfl

@[simp] theorem locks_setLock : (v.setLock lock l).locks = Function.update v.locks lock l := rfl

@[simp] theorem locks_sleep : (v.sleep fs).locks = v.locks := rfl

@[simp] theorem locks_emit : (v.emit event).locks = v.locks := rfl

@[simp] theorem locks_readyToRun : (v.readyToRun t).locks = v.locks := rfl

end Fields

end View

section Equations

variable (s : System) (t : Tid) (status : ThreadStatus) (fs rest : List Frame)

theorem frames_eq : s.frames = s.view.top := rfl

/-- A change of one thread, field by field. -/
theorem view_modify (f : Thread → Thread) : (s.modify t f).view = { s.view with
    status := Function.update s.statusOf t (f (s.threads t)).status
    frames := Function.update s.framesOf t (f (s.threads t)).frames
    space := Function.update s.spaceOf t (f (s.threads t)).space
    userRegisters := Function.update s.registersOf t (f (s.threads t)).userRegisters } := by
  have h₁ : (s.modify t f).statusOf = _ := s.proj_modify t Thread.status f
  have h₂ : (s.modify t f).framesOf = _ := s.proj_modify t Thread.frames f
  have h₃ : (s.modify t f).spaceOf = _ := s.proj_modify t Thread.space f
  have h₄ : (s.modify t f).registersOf = _ := s.proj_modify t Thread.userRegisters f
  unfold view
  rw [h₁, h₂, h₃, h₄]
  rfl

theorem update_statusOf : Function.update s.statusOf t (s.threads t).status = s.statusOf :=
  Function.update_eq_self t s.statusOf

theorem update_framesOf : Function.update s.framesOf t (s.threads t).frames = s.framesOf :=
  Function.update_eq_self t s.framesOf

theorem update_spaceOf : Function.update s.spaceOf t (s.threads t).space = s.spaceOf :=
  Function.update_eq_self t s.spaceOf

theorem update_registersOf :
    Function.update s.registersOf t (s.threads t).userRegisters = s.registersOf :=
  Function.update_eq_self t s.registersOf

@[simp] theorem view_setFrames : (s.setFrames fs).view = s.view.setFrames fs := by
  unfold setFrames
  rw [view_modify, update_statusOf, update_spaceOf, update_registersOf]
  rfl

@[simp] theorem view_setStatus : (s.setStatus t status).view = s.view.setStatus t status := by
  unfold setStatus
  rw [view_modify, update_framesOf, update_spaceOf, update_registersOf]
  rfl

@[simp] theorem view_emit (event : Event) : (s.emit event).view = s.view.emit event := rfl

@[simp] theorem view_readyToRun : (s.readyToRun t).view = s.view.readyToRun t := by
  unfold readyToRun
  rw [view_emit, view_setStatus]
  rfl

theorem view_sleep (hlevel : s.level = .intOff) : (s.sleep rest).view = s.view.sleep rest := by
  unfold sleep
  rw [if_pos hlevel, view_setFrames, view_setStatus]
  rfl

@[simp] theorem view_saveUserState : s.saveUserState.view = s.view.saveUserState := by
  unfold saveUserState View.saveUserState
  change _ = match (s.threads s.currentThread).space with | none => _ | some _ => _
  cases (s.threads s.currentThread).space with
  | none => rfl
  | some space =>
      dsimp only
      rw [view_emit, view_modify, update_statusOf, update_framesOf, update_spaceOf]
      rfl

@[simp] theorem view_restoreUserState : s.restoreUserState.view = s.view.restoreUserState := by
  unfold restoreUserState View.restoreUserState
  change _ = match (s.threads s.currentThread).space with | none => _ | some space => _
  cases (s.threads s.currentThread).space with
  | none => rfl
  | some space => rfl

@[simp] theorem view_startProcess (space : UserSpace) :
    (s.startProcess space).view = s.view.startProcess space := by
  have hview := s.view_modify s.currentThread fun th => { th with space := some space }
  rw [update_statusOf, update_framesOf, update_registersOf] at hview
  unfold startProcess View.startProcess
  exact congrArg (fun v : View => { v with
    context := ⟨space.initRegisters, some space.pageTable, space.numPages⟩ }) hview

/-- The flags that the view leaves out. -/
structure SameFlags (s s' : System) : Prop where
  level : s'.level = s.level
  inHandler : s'.inHandler = s.inHandler
  stop : s'.stop = s.stop

theorem sameFlags_saveUserState : SameFlags s s.saveUserState := by
  unfold saveUserState
  split
  · exact ⟨rfl, rfl, rfl⟩
  · exact ⟨rfl, rfl, rfl⟩

theorem sameFlags_restoreUserState : SameFlags s s.restoreUserState := by
  unfold restoreUserState
  split
  · exact ⟨rfl, rfl, rfl⟩
  · exact ⟨rfl, rfl, rfl⟩

theorem sameFlags_run (next : Tid) : SameFlags s (s.run next rest) := by
  have h := s.sameFlags_saveUserState
  exact ⟨h.level, h.inHandler, h.stop⟩

theorem view_run (next : Tid) : (s.run next rest).view = s.view.run next rest s.level := by
  have hlevel := s.sameFlags_saveUserState.level
  have hframes : (s.saveUserState.setFrames (.afterSwitch :: rest)).view =
      s.view.saveUserState.setFrames (.afterSwitch :: rest) := by
    rw [view_setFrames, view_saveUserState]
  unfold run View.run
  dsimp only
  rw [view_emit, view_setStatus, ← hframes, ← hlevel]
  rfl

end Equations

/-! ## Equations of the operations -/

def setSem (s : System) (sem : SemId) (semaphore : Semaphore) : System :=
  { s with semaphores := Function.update s.semaphores sem semaphore }

def setLock (s : System) (lock : LockId) (l : Lock) : System :=
  { s with locks := Function.update s.locks lock l }

@[simp] theorem view_setSem (s : System) (sem : SemId) (semaphore : Semaphore) :
    (s.setSem sem semaphore).view = s.view.setSem sem semaphore := rfl

@[simp] theorem view_setLock (s : System) (lock : LockId) (l : Lock) :
    (s.setLock lock l).view = s.view.setLock lock l := rfl

section Operations

variable {s : System} {sem : SemId} {lock : LockId} {oldLevel : IntStatus} {base : List Frame}
  {t : Tid} {threads : List Tid}

theorem testP_of_zero (h : (s.semaphores sem).value = 0) :
    s.testP sem oldLevel base =
      ((s.setSem sem ⟨0, (s.semaphores sem).queue ++ [s.currentThread]⟩).emit
        (.tested sem s.currentThread false)).sleep (.body (.p sem) oldLevel :: base) := by
  have hp : (s.semaphores sem).p s.currentThread =
      (⟨0, (s.semaphores sem).queue ++ [s.currentThread]⟩, false) := by
    simp [Semaphore.p, h]
  unfold testP
  rw [hp]
  rfl

theorem testP_of_pos (h : (s.semaphores sem).value ≠ 0) :
    s.testP sem oldLevel base =
      ((s.setSem sem ⟨(s.semaphores sem).value - 1, (s.semaphores sem).queue⟩).emit
        (.tested sem s.currentThread true)).setFrames (.restore (.p sem) oldLevel :: base) := by
  have hp : (s.semaphores sem).p s.currentThread =
      (⟨(s.semaphores sem).value - 1, (s.semaphores sem).queue⟩, true) := by
    simp [Semaphore.p, h]
  unfold testP
  rw [hp]
  rfl

theorem bodyV_of_nil (h : (s.semaphores sem).queue = []) :
    s.bodyV sem = (s.setSem sem ⟨(s.semaphores sem).value + 1, []⟩).emit (.v sem none) := by
  have hv : (s.semaphores sem).v = (⟨(s.semaphores sem).value + 1, []⟩, none) := by
    simp [Semaphore.v, h]
  unfold bodyV
  rw [hv]
  rfl

theorem bodyV_of_cons (h : (s.semaphores sem).queue = t :: threads) :
    s.bodyV sem = ((s.setSem sem ⟨(s.semaphores sem).value + 1, threads⟩).readyToRun t).emit
      (.v sem (some t)) := by
  have hv : (s.semaphores sem).v = (⟨(s.semaphores sem).value + 1, threads⟩, some t) := by
    simp [Semaphore.v, h]
  unfold bodyV
  rw [hv]
  rfl

theorem acquire_of_held (h : (s.locks lock).ownerThread = some s.currentThread) :
    s.acquire lock oldLevel base = (s.emit (.acquire lock s.currentThread)).setFrames
      (.restore (.acquire lock) oldLevel :: base) := by
  unfold acquire
  exact if_pos h

theorem acquire_of_free (h : (s.locks lock).ownerThread ≠ some s.currentThread)
    (hfree : (s.locks lock).stat = .free) :
    s.acquire lock oldLevel base =
      (((s.emit (.acquire lock s.currentThread)).setLock lock
        ⟨.busy, some s.currentThread, (s.locks lock).queue⟩).emit
        (.granted lock s.currentThread)).setFrames (.restore (.acquire lock) oldLevel :: base) := by
  have ha : ((s.emit (.acquire lock s.currentThread)).locks lock).acquire
      (s.emit (.acquire lock s.currentThread)).currentThread =
      (⟨.busy, some s.currentThread, (s.locks lock).queue⟩, true) := by
    change (s.locks lock).acquire s.currentThread = _
    simp [Lock.acquire, Lock.isHeldByCurrentThread, h, hfree]
  unfold acquire
  refine (if_neg h).trans ?_
  rw [ha]
  rfl

theorem acquire_of_busy (h : (s.locks lock).ownerThread ≠ some s.currentThread)
    (hbusy : (s.locks lock).stat ≠ .free) :
    s.acquire lock oldLevel base =
      ((s.emit (.acquire lock s.currentThread)).setLock lock
        { s.locks lock with queue := (s.locks lock).queue ++ [s.currentThread] }).sleep
        (.restore (.acquire lock) oldLevel :: base) := by
  have ha : ((s.emit (.acquire lock s.currentThread)).locks lock).acquire
      (s.emit (.acquire lock s.currentThread)).currentThread =
      ({ s.locks lock with queue := (s.locks lock).queue ++ [s.currentThread] }, false) := by
    change (s.locks lock).acquire s.currentThread = _
    simp [Lock.acquire, Lock.isHeldByCurrentThread, h, hbusy]
  unfold acquire
  refine (if_neg h).trans ?_
  rw [ha]
  rfl

theorem release_of_foreign (h : (s.locks lock).ownerThread ≠ some s.currentThread) :
    s.release lock oldLevel base = (s.emit (.release lock s.currentThread)).setFrames
      (.restore (.release lock) oldLevel :: base) := by
  have hr : ((s.emit (.release lock s.currentThread)).locks lock).release
      (s.emit (.release lock s.currentThread)).currentThread =
      (s.locks lock, none) := by
    change (s.locks lock).release s.currentThread = _
    simp [Lock.release, Lock.isHeldByCurrentThread, h]
  have hsame : Function.update s.locks lock (s.locks lock) = s.locks :=
    Function.update_eq_self lock s.locks
  unfold release
  dsimp only
  rw [hr]
  change ({ s.emit (.release lock s.currentThread) with
    locks := Function.update s.locks lock (s.locks lock) } : System).setFrames _ = _
  rw [hsame]
  rfl

theorem release_of_nil (h : (s.locks lock).ownerThread = some s.currentThread)
    (hqueue : (s.locks lock).queue = []) :
    s.release lock oldLevel base =
      ((s.emit (.release lock s.currentThread)).setLock lock ⟨.free, none, []⟩).setFrames
        (.restore (.release lock) oldLevel :: base) := by
  have hr : ((s.emit (.release lock s.currentThread)).locks lock).release
      (s.emit (.release lock s.currentThread)).currentThread =
      (⟨.free, none, []⟩, none) := by
    change (s.locks lock).release s.currentThread = _
    simp [Lock.release, Lock.isHeldByCurrentThread, h, hqueue]
  unfold release
  dsimp only
  rw [hr]
  rfl

theorem release_of_cons (h : (s.locks lock).ownerThread = some s.currentThread)
    (hqueue : (s.locks lock).queue = t :: threads) :
    s.release lock oldLevel base =
      ((((s.emit (.release lock s.currentThread)).setLock lock
        ⟨(s.locks lock).stat, some t, threads⟩).readyToRun t).emit (.granted lock t)).setFrames
        (.restore (.release lock) oldLevel :: base) := by
  have hr : ((s.emit (.release lock s.currentThread)).locks lock).release
      (s.emit (.release lock s.currentThread)).currentThread =
      (⟨(s.locks lock).stat, some t, threads⟩, some t) := by
    change (s.locks lock).release s.currentThread = _
    simp [Lock.release, Lock.isHeldByCurrentThread, h, hqueue]
  unfold release
  dsimp only
  rw [hr]
  rfl

theorem yield_of_nil (h : s.readyList = []) :
    s.yield oldLevel base = s.setFrames (.restore .yield oldLevel :: base) := by
  unfold yield
  rw [h]

theorem yield_of_cons (h : s.readyList = t :: threads) :
    s.yield oldLevel base = ({ s with readyList := threads }.readyToRun s.currentThread).run t
      (.restore .yield oldLevel :: base) := by
  unfold yield
  rw [h]

theorem view_fork :
    (s.fork t oldLevel base).view =
      (s.view.fork t).setFrames (.restore (.fork t) oldLevel :: base) := by
  have hview := s.view_modify t fun th => { th with frames := [.threadRoot] }
  rw [update_statusOf, update_spaceOf, update_registersOf] at hview
  unfold fork View.fork
  rw [view_setFrames, view_readyToRun, hview]
  rfl

theorem SameFlags.trans {s₁ s₂ s₃ : System} (h : SameFlags s₁ s₂) (h' : SameFlags s₂ s₃) :
    SameFlags s₁ s₃ :=
  ⟨h'.level.trans h.level, h'.inHandler.trans h.inHandler, h'.stop.trans h.stop⟩

theorem sameFlags_emit (s : System) (event : Event) : SameFlags s (s.emit event) :=
  ⟨rfl, rfl, rfl⟩

theorem sameFlags_setLock (s : System) (lock : LockId) (l : Lock) :
    SameFlags s (s.setLock lock l) :=
  ⟨rfl, rfl, rfl⟩

theorem sameFlags_readyToRun (s : System) (t : Tid) : SameFlags s (s.readyToRun t) :=
  ⟨rfl, rfl, rfl⟩

theorem sameFlags_bodyV (s : System) (sem : SemId) : SameFlags s (s.bodyV sem) := by
  cases hqueue : (s.semaphores sem).queue with
  | nil =>
      rw [bodyV_of_nil hqueue]
      exact ⟨rfl, rfl, rfl⟩
  | cons t threads =>
      rw [bodyV_of_cons hqueue]
      exact ⟨rfl, rfl, rfl⟩

end Operations

/-! ## Interrupts -/

/-- While a handler runs. -/
def inside (s : System) (registers : Registers) : System :=
  { s with
    context := { s.context with registers := registers }
    inHandler := true
    machineStatus := .systemMode }

/-- What `CheckIfDue` does when an interrupt fires with interrupts off. -/
inductive Fired (s : System) : Handler → System → Prop
  | undefined (handler : Handler) : Fired s handler { s with stop := some .undefined }
  | timer (registers : Registers) : Fired s .timer { s.inside registers with
      yieldOnReturn := true, machineStatus := s.machineStatus, inHandler := false }
  | device (sem : SemId) (registers : Registers) : Fired s (.device sem)
      { ((s.inside registers).bodyV sem).emit (.handlerV sem .intOff .intOff) with
        machineStatus := s.machineStatus, inHandler := false }
  | poll (registers : Registers) : Fired s .poll { s.inside registers with
      machineStatus := s.machineStatus, inHandler := false }

theorem fire_fired {s : System} (handler : Handler) (hlevel : s.level = .intOff) :
    Fired s handler (s.fire handler) := by
  unfold fire
  rw [if_neg (by simp [hlevel])]
  cases delayedLoad s.context.registers with
  | none => exact .undefined handler
  | some registers =>
      cases handler with
      | timer => exact .timer registers
      | poll => exact .poll registers
      | device sem =>
          have hoff : (s.inside registers).level = .intOff := hlevel
          have hsame : ({ s.inside registers with level := .intOff } : System) =
              s.inside registers := by
            rw [← hoff]
          have hkeep : ({ (s.inside registers).bodyV sem with level := .intOff } : System) =
              (s.inside registers).bodyV sem := by
            rw [← hoff, ← (sameFlags_bodyV (s.inside registers) sem).level]
          have hhandle : (s.inside registers).handlerV sem =
              ((s.inside registers).bodyV sem).emit (.handlerV sem .intOff .intOff) := by
            unfold handlerV
            dsimp only
            rw [hsame, hoff, if_neg (by simp), hkeep]
          have hfired := Fired.device (s := s) sem registers
          rw [← hhandle] at hfired
          exact hfired

/-! ## Rules -/

inductive Rule (s : System) : Label → System → Prop
  | call (op : Op) {rest} (at_func : s.frames = .func :: rest) :
      Rule s (.call op) (s.call op (.func :: rest))
  | finish {rest} (at_func : s.frames = .func :: rest) : Rule s .finish s.finish
  | setLevel (now : IntStatus) {rest} (at_func : s.frames = .func :: rest) :
      Rule s (.setLevel now) (s.setLevel now (.func :: rest))
  | setStatus (status : MachineStatus) {rest} (at_func : s.frames = .func :: rest) :
      Rule s (.setStatus status) { s with machineStatus := status }
  | writeRegisters (registers : Registers) {rest} (at_func : s.frames = .func :: rest) :
      Rule s (.writeRegisters registers)
        { s with context := { s.context with registers := registers } }
  | instruction (registers : Registers) {rest} (at_func : s.frames = .func :: rest)
      (user : (s.spaceOf s.currentThread).isSome) :
      Rule s (.instruction registers) ({ s with
        context := { s.context with registers := registers }
        machineStatus := .userMode }.oneTick (.func :: rest))
  | startProcess (space : UserSpace) {rest} (at_func : s.frames = .func :: rest) :
      Rule s (.startProcess space) (s.startProcess space)
  | halt {rest} (at_func : s.frames = .func :: rest) :
      Rule s .halt { s with stop := some .halted }
  | threadRoot {rest} (at_root : s.frames = .threadRoot :: rest) :
      Rule s .go (s.setLevel .intOn (.func :: rest))
  | bodyP {sem oldLevel rest} (at_body : s.frames = .body (.p sem) oldLevel :: rest) :
      Rule s .go (s.testP sem oldLevel rest)
  | bodyV {sem oldLevel rest} (at_body : s.frames = .body (.v sem) oldLevel :: rest) :
      Rule s .go ((s.bodyV sem).setFrames (.restore (.v sem) oldLevel :: rest))
  | bodyAcquire {lock oldLevel rest} (at_body : s.frames = .body (.acquire lock) oldLevel :: rest) :
      Rule s .go (s.acquire lock oldLevel rest)
  | bodyRelease {lock oldLevel rest} (at_body : s.frames = .body (.release lock) oldLevel :: rest) :
      Rule s .go (s.release lock oldLevel rest)
  | bodyFork {t oldLevel rest} (at_body : s.frames = .body (.fork t) oldLevel :: rest)
      (created : s.statusOf t = .justCreated) : Rule s .go (s.fork t oldLevel rest)
  | bodyYield {oldLevel rest} (at_body : s.frames = .body .yield oldLevel :: rest) :
      Rule s .go (s.yield oldLevel rest)
  | restore {op oldLevel rest} (at_restore : s.frames = .restore op oldLevel :: rest) :
      Rule s .go (s.setLevel oldLevel (.ret op oldLevel :: rest))
  | ret {op oldLevel rest} (at_ret : s.frames = .ret op oldLevel :: rest) :
      Rule s .go ((s.emit (.left s.currentThread op s.level)).setFrames rest)
  | tickInterrupt (handler : Handler) {old rest} (at_tick : s.frames = .oneTick old :: rest) :
      Rule s (.interrupt handler) (s.fire handler)
  | tickQuiet {old rest} (at_tick : s.frames = .oneTick old :: rest) :
      Rule s .quiet (s.endTick old rest)
  | afterYield {old rest} (at_yield : s.frames = .afterYield old :: rest) :
      Rule s .go ({ s with machineStatus := old }.setFrames rest)
  | dispatch {rest next readyList} (at_sleep : s.frames = .sleep :: rest)
      (ready : s.readyList = next :: readyList) :
      Rule s .go ({ s with readyList := readyList }.run next rest)
  | beginIdle (handler : Handler) {rest} (at_sleep : s.frames = .sleep :: rest)
      (ready : s.readyList = []) : Rule s (.interrupt handler) (s.beginIdle handler rest)
  | haltIdle {rest} (at_sleep : s.frames = .sleep :: rest) (ready : s.readyList = []) :
      Rule s .quiet s.haltIdle
  | idleInterrupt (handler : Handler) {rest} (at_idle : s.frames = .idle :: rest) :
      Rule s (.interrupt handler) (s.fire handler)
  | idleQuiet {rest} (at_idle : s.frames = .idle :: rest) : Rule s .quiet (s.endIdle rest)
  | afterSwitch {rest} (at_switch : s.frames = .afterSwitch :: rest) :
      Rule s .go (s.afterSwitch rest)

theorem body_rule {s s' : System} {op : Op} {oldLevel : IntStatus} {rest : List Frame}
    (hframes : s.frames = .body op oldLevel :: rest) (h : s.body op oldLevel rest = some s') :
    Rule s .go s' := by
  cases op with
  | p sem =>
      cases h
      exact .bodyP hframes
  | v sem =>
      cases h
      exact .bodyV hframes
  | acquire lock =>
      cases h
      exact .bodyAcquire hframes
  | release lock =>
      cases h
      exact .bodyRelease hframes
  | fork t =>
      simp only [body] at h
      split at h
      · rename_i hcreated
        cases h
        exact .bodyFork hframes hcreated
      · cases h
  | yield =>
      cases h
      exact .bodyYield hframes

/-- Every step follows a rule. -/
theorem step_rule {s s' : System} {label : Label} (h : s.step label = some s') :
    s.stop = none ∧ Rule s label s' := by
  unfold step at h
  split at h
  · cases h
  · rename_i hstop
    refine ⟨by simpa using hstop, ?_⟩
    have hframes : s.frames = (s.threads s.currentThread).frames := rfl
    generalize (s.threads s.currentThread).frames = frames at h hframes
    split at h
    · cases h
      exact .call _ hframes
    · cases h
      exact .finish hframes
    · cases h
      exact .setLevel _ hframes
    · cases h
      exact .setStatus _ hframes
    · cases h
      exact .writeRegisters _ hframes
    · split at h
      · rename_i huser
        cases h
        exact .instruction _ hframes huser
      · cases h
    · cases h
      exact .startProcess _ hframes
    · cases h
      exact .halt hframes
    · cases h
      exact .threadRoot hframes
    · exact body_rule hframes h
    · cases h
      exact .restore hframes
    · cases h
      exact .ret hframes
    · cases h
      exact .tickInterrupt _ hframes
    · cases h
      exact .tickQuiet hframes
    · cases h
      exact .afterYield hframes
    · split at h
      · cases h
      · rename_i hready
        cases h
        exact .dispatch hframes hready
    · split at h
      · rename_i hready
        cases h
        exact .beginIdle _ hframes hready
      · cases h
    · split at h
      · rename_i hready
        cases h
        exact .haltIdle hframes hready
      · cases h
    · cases h
      exact .idleInterrupt _ hframes
    · cases h
      exact .idleQuiet hframes
    · cases h
      exact .afterSwitch hframes
    · cases h

end Nachos.System
