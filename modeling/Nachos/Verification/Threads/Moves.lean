import Nachos.Verification.Threads.Semantics

/-! # The moves of the thread system

What a step does to the view, without the interrupt level. The conditions of a move say
what the frames of `currentThread` are at that point. -/

namespace Nachos.System

/-! ## What the frames of a thread tell -/

/-- What a thread can wait for. -/
inductive Wait
  | sem (sem : SemId)
  | lock (lock : LockId)
deriving DecidableEq, Repr

/-- What the thread went to sleep for. -/
def waits : List Frame → Option Wait
  | .idle :: rest => waits rest
  | .sleep :: rest => waits rest
  | .afterSwitch :: rest => waits rest
  | .body (.p sem) _ :: _ => some (.sem sem)
  | .restore (.acquire lock) _ :: _ => some (.lock lock)
  | _ => none

/-- The thread is in the loop of `Sleep`. -/
def asleep : List Frame → Bool
  | .sleep :: _ => true
  | .idle :: _ => true
  | _ => false

/-- The thread has called `Finish`. -/
def ended : List Frame → Bool
  | [.sleep] => true
  | [.idle, .sleep] => true
  | [.afterSwitch] => true
  | _ => false

/-- The thread is in `Run`, behind `SWITCH`. -/
def suspended : List Frame → Bool
  | .afterSwitch :: _ => true
  | _ => false

/-- The thread has control and is neither asleep nor in `Run`. -/
def Plain : List Frame → Prop
  | [] => False
  | .sleep :: _ => False
  | .idle :: _ => False
  | .afterSwitch :: _ => False
  | _ => True

/-- The operation that the frame belongs to, with the level at which it was called. -/
def callOf : Frame → Option (Op × IntStatus)
  | .body op oldLevel => some (op, oldLevel)
  | .restore op oldLevel => some (op, oldLevel)
  | .ret op oldLevel => some (op, oldLevel)
  | _ => none

/-- The operations that the thread has called and not left, the innermost first. -/
def calls (fs : List Frame) : List (Op × IntStatus) :=
  fs.filterMap callOf

def lockOf : Op → Option LockId
  | .acquire lock => some lock
  | _ => none

/-- The lock whose `Acquire` the frame is about to leave. -/
def acquiredBy : Frame → Option LockId
  | .restore op _ => lockOf op
  | .ret op _ => lockOf op
  | _ => none

def acquired (fs : List Frame) : List LockId :=
  fs.filterMap acquiredBy

/-- The frames can go on when they get control at the given level. -/
def Returns : IntStatus → List Frame → Prop
  | _, .func :: rest => rest = []
  | level, .ret _ oldLevel :: rest => level = oldLevel ∧ Returns oldLevel rest
  | level, .afterYield _ :: rest => level = .intOn ∧ Returns .intOn rest
  | _, _ => False

/-- Only `Yield` is called from inside another operation, by `OneTick`. -/
def CalledFrom (op : Op) (base : List Frame) : Prop :=
  op = .yield ∨ base = [.func]

/-- The frames of an operation in which a thread can lose control. -/
def Resumes : List Frame → Prop
  | .body op oldLevel :: rest => Returns oldLevel rest ∧ CalledFrom op rest
  | .restore _ oldLevel :: rest => Returns oldLevel rest
  | _ => False

/-- What `Run` and `Sleep` return to; a finished thread returns to nothing. -/
def Waiting (rest : List Frame) : Prop :=
  rest = [] ∨ Resumes rest

/-- The frames of a thread that does not have control. -/
def Parked : List Frame → Prop
  | .afterSwitch :: rest => Waiting rest
  | .threadRoot :: rest => rest = []
  | _ => False

theorem Returns.plain {level : IntStatus} {fs : List Frame} (h : Returns level fs) : Plain fs := by
  match fs, h with
  | .func :: rest, h => trivial
  | .ret _ _ :: rest, h => trivial
  | .afterYield _ :: rest, h => trivial

theorem Resumes.plain {fs : List Frame} (h : Resumes fs) : Plain fs := by
  match fs, h with
  | .body _ _ :: rest, h => trivial
  | .restore _ _ :: rest, h => trivial

theorem Plain.active {fs : List Frame} (h : Plain fs) :
    asleep fs = false ∧ ended fs = false ∧ suspended fs = false := by
  match fs, h with
  | .func :: rest, h => exact ⟨rfl, rfl, rfl⟩
  | .threadRoot :: rest, h => exact ⟨rfl, rfl, rfl⟩
  | .body _ _ :: rest, h => exact ⟨rfl, rfl, rfl⟩
  | .restore _ _ :: rest, h => exact ⟨rfl, rfl, rfl⟩
  | .ret _ _ :: rest, h => exact ⟨rfl, rfl, rfl⟩
  | .oneTick _ :: rest, h => exact ⟨rfl, rfl, rfl⟩
  | .afterYield _ :: rest, h => exact ⟨rfl, rfl, rfl⟩

theorem Plain.awake {fs : List Frame} (h : Plain fs) : asleep fs = false :=
  h.active.1

theorem Plain.not_ended {fs : List Frame} (h : Plain fs) : ended fs = false :=
  h.active.2.1

theorem Plain.not_suspended {fs : List Frame} (h : Plain fs) : suspended fs = false :=
  h.active.2.2

theorem Parked.awake {fs : List Frame} (h : Parked fs) : asleep fs = false := by
  match fs, h with
  | .afterSwitch :: rest, h => rfl
  | .threadRoot :: rest, h => rfl

theorem ended_sleep_iff (rest : List Frame) : ended (.sleep :: rest) = true ↔ rest = [] := by
  cases rest with
  | nil => simp [ended]
  | cons frame rest => simp [ended]

theorem ended_afterSwitch_iff (rest : List Frame) :
    ended (.afterSwitch :: rest) = true ↔ rest = [] := by
  cases rest with
  | nil => simp [ended]
  | cons frame rest => simp [ended]

theorem waits_of_ended {fs : List Frame} (h : ended fs = true) : waits fs = none := by
  match fs, h with
  | [.sleep], _ => rfl
  | [.idle, .sleep], _ => rfl
  | [.afterSwitch], _ => rfl

/-! ## Saving and restoring the user state -/

namespace View

section UserState

variable (v : View) (next : Tid) (rest : List Frame) (level : IntStatus)

/-- The entry that `Run` leaves in the log when it saves a user state. -/
def entering : List Event :=
  match v.space v.currentThread with
  | none => []
  | some _ => [.entered v.currentThread v.context]

def returning : List Event :=
  match v.space v.currentThread with
  | none => []
  | some space => [.returned v.currentThread
      ⟨v.userRegisters v.currentThread, some space.pageTable, space.numPages⟩]

theorem saveUserState_eq : ∃ registers, v.saveUserState =
    { v with userRegisters := registers, log := v.log ++ v.entering } := by
  unfold saveUserState entering
  cases v.space v.currentThread with
  | none => exact ⟨v.userRegisters, by simp⟩
  | some space => exact ⟨_, rfl⟩

theorem restoreUserState_eq : ∃ context, v.restoreUserState =
    { v with context := context, log := v.log ++ v.returning } := by
  unfold restoreUserState returning
  cases v.space v.currentThread with
  | none => exact ⟨v.context, by simp⟩
  | some space => exact ⟨_, rfl⟩

/-- `Run`, but for the user registers that it saves. -/
theorem run_eq : ∃ registers, v.run next rest level =
    { v with
      currentThread := next
      status := Function.update v.status next .running
      frames := Function.update v.frames v.currentThread (.afterSwitch :: rest)
      userRegisters := registers
      log := v.log ++ v.entering ++ [Event.switch next level] } := by
  obtain ⟨registers, h⟩ := v.saveUserState_eq
  refine ⟨registers, ?_⟩
  unfold run
  rw [h]
  rfl

end UserState

end View

/-! ## Moves -/

/-- The running thread goes from one frame to the next inside its operations. -/
structure Goes (fs fs' : List Frame) : Prop where
  now : Plain fs
  next : Plain fs'
  untested : ∀ sem, waits fs ≠ some (.sem sem)
  sameCalls : calls fs' = calls fs
  acquired_sub : acquired fs' ⊆ acquired fs

/-- The sleeping thread stays in the loop of `Sleep`. -/
structure Dozes (fs fs' : List Frame) : Prop where
  now : asleep fs = true
  next : asleep fs' = true
  sameWait : waits fs' = waits fs
  sameEnd : ended fs' = ended fs
  sameCalls : calls fs' = calls fs
  sameAcquired : acquired fs' = acquired fs

namespace View

/-- The queue of a semaphore or a lock. -/
def queue (v : View) : Wait → List Tid
  | .sem sem => (v.semaphores sem).queue
  | .lock lock => (v.locks lock).queue

/-- The destructor of the thread that has finished. -/
def delete (v : View) (t : Tid) : View :=
  { v with threadToBeDestroyed := none }.emit (.deleted t)

def finish (v : View) : View :=
  ({ v with threadToBeDestroyed := some v.currentThread }.emit (.finished v.currentThread)).sleep []

/-- The moves of a step with the given label. -/
inductive Move (label : Label) (v : View) : View → Prop
  | registers (registers : Registers) : Move label v (v.setRegisters registers)
  | startProcess (space : UserSpace) (at_func : v.top = [.func]) :
      Move label v (v.startProcess space)
  | go {fs : List Frame} (goes : Goes v.top fs) : Move label v (v.setFrames fs)
  | doze {fs : List Frame} (dozes : Dozes v.top fs) : Move label v (v.setFrames fs)
  | call (op : Op) (level : IntStatus) {base : List Frame} (goes : Goes v.top base) :
      Move label v ((v.emit (.called v.currentThread op level)).setFrames (.body op level :: base))
  | leave {op level rest} (at_ret : v.top = .ret op level :: rest) (next : Returns level rest) :
      Move label v ((v.emit (.left v.currentThread op level)).setFrames rest)
  | handlerV (sem : SemId) (level : IntStatus) : Move label v (v.emit (.handlerV sem level level))
  | take {sem oldLevel base} (at_body : v.top = .body (.p sem) oldLevel :: base)
      (pos : (v.semaphores sem).value ≠ 0) :
      Move label v (((v.setSem sem ⟨(v.semaphores sem).value - 1, (v.semaphores sem).queue⟩).emit
        (.tested sem v.currentThread true)).setFrames (.restore (.p sem) oldLevel :: base))
  | block {sem oldLevel base} (at_body : v.top = .body (.p sem) oldLevel :: base)
      (zero : (v.semaphores sem).value = 0) :
      Move label v (((v.setSem sem ⟨0, (v.semaphores sem).queue ++ [v.currentThread]⟩).emit
        (.tested sem v.currentThread false)).sleep (.body (.p sem) oldLevel :: base))
  | token {sem} (empty : (v.semaphores sem).queue = []) :
      Move label v ((v.setSem sem ⟨(v.semaphores sem).value + 1, []⟩).emit (.v sem none))
  | wake {sem t threads} (first : (v.semaphores sem).queue = t :: threads) :
      Move label v (((v.setSem sem ⟨(v.semaphores sem).value + 1, threads⟩).readyToRun t).emit
        (.v sem (some t)))
  | reacquire {lock oldLevel base} (at_body : v.top = .body (.acquire lock) oldLevel :: base)
      (held : (v.locks lock).ownerThread = some v.currentThread) :
      Move label v ((v.emit (.acquire lock v.currentThread)).setFrames
        (.restore (.acquire lock) oldLevel :: base))
  | acquire {lock oldLevel base} (at_body : v.top = .body (.acquire lock) oldLevel :: base)
      (other : (v.locks lock).ownerThread ≠ some v.currentThread)
      (free : (v.locks lock).stat = .free) :
      Move label v ((((v.emit (.acquire lock v.currentThread)).setLock lock
        ⟨.busy, some v.currentThread, (v.locks lock).queue⟩).emit
        (.granted lock v.currentThread)).setFrames (.restore (.acquire lock) oldLevel :: base))
  | enqueue {lock oldLevel base} (at_body : v.top = .body (.acquire lock) oldLevel :: base)
      (other : (v.locks lock).ownerThread ≠ some v.currentThread)
      (busy : (v.locks lock).stat ≠ .free) :
      Move label v (((v.emit (.acquire lock v.currentThread)).setLock lock
        { v.locks lock with queue := (v.locks lock).queue ++ [v.currentThread] }).sleep
        (.restore (.acquire lock) oldLevel :: base))
  | foreignRelease {lock oldLevel base} (at_body : v.top = .body (.release lock) oldLevel :: base)
      (other : (v.locks lock).ownerThread ≠ some v.currentThread) :
      Move label v ((v.emit (.release lock v.currentThread)).setFrames
        (.restore (.release lock) oldLevel :: base))
  | release {lock oldLevel} (at_body : v.top = [.body (.release lock) oldLevel, .func])
      (held : (v.locks lock).ownerThread = some v.currentThread)
      (empty : (v.locks lock).queue = []) :
      Move label v
        (((v.emit (.release lock v.currentThread)).setLock lock ⟨.free, none, []⟩).setFrames
          [.restore (.release lock) oldLevel, .func])
  | handOff {lock oldLevel t threads} (at_body : v.top = [.body (.release lock) oldLevel, .func])
      (held : (v.locks lock).ownerThread = some v.currentThread)
      (first : (v.locks lock).queue = t :: threads) :
      Move label v (((((v.emit (.release lock v.currentThread)).setLock lock
        ⟨(v.locks lock).stat, some t, threads⟩).readyToRun t).emit (.granted lock t)).setFrames
        [.restore (.release lock) oldLevel, .func])
  | fork {t oldLevel base} (at_body : v.top = .body (.fork t) oldLevel :: base)
      (created : v.status t = .justCreated) :
      Move label v ((v.fork t).setFrames (.restore (.fork t) oldLevel :: base))
  | finish (called : label = .finish) (at_func : v.top = [.func]) : Move label v v.finish
  | yield {oldLevel base next readyList} (at_body : v.top = .body .yield oldLevel :: base)
      (ready : v.readyList = next :: readyList) (rest : Returns oldLevel base) :
      Move label v (({ v with readyList := readyList }.readyToRun v.currentThread).run next
        (.restore .yield oldLevel :: base) .intOff)
  | dispatch {rest next readyList} (at_sleep : v.top = .sleep :: rest)
      (ready : v.readyList = next :: readyList) (waiting : Waiting rest) :
      Move label v ({ v with readyList := readyList }.run next rest .intOff)
  | delete {t rest} (at_switch : v.top = .afterSwitch :: rest)
      (destroy : v.threadToBeDestroyed = some t) : Move label v (v.delete t)
  | resume {rest} (at_switch : v.top = .afterSwitch :: rest) (next : Resumes rest)
      (destroy : v.threadToBeDestroyed = none) : Move label v (v.restoreUserState.setFrames rest)

abbrev Moves (label : Label) : View → View → Prop :=
  Relation.ReflTransGen (Move label)

/-- What every move keeps is kept by a step. -/
theorem Moves.keep {label : Label} {P : View → Prop}
    (hkeep : ∀ v v', Move label v v' → P v → P v') {v v' : View} (h : Moves label v v')
    (hv : P v) : P v' := by
  induction h with
  | refl => exact hv
  | tail _ hmove ih => exact hkeep _ _ hmove ih

end View

end Nachos.System
