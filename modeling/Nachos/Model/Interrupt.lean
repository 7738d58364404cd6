import Nachos.Model.List
import Nachos.Model.Threads

/-! # The interrupt queue and the clock

`machine/interrupt.cc` with the ticks of `machine/stats.h`. An interrupt handler is a value
of `α`, the procedure with its argument; what it does is left open. -/

namespace Nachos

def systemTick : ℤ := 10
def userTick : ℤ := 1

inductive IntType
  | timerInt
  | diskInt
  | consoleWriteInt
  | consoleReadInt
  | networkSendInt
  | networkRecvInt
deriving DecidableEq, Repr

/-- `serial` tells the objects apart: it counts the calls of `Schedule` before. -/
structure PendingInterrupt (α : Type) where
  serial : ℕ
  handler : α
  when : ℤ
  type : IntType
deriving DecidableEq, Repr

/-- The arguments of `Schedule`. -/
structure Request (α : Type) where
  handler : α
  fromNow : ℤ
  type : IntType
deriving DecidableEq, Repr

/-- The calls a handler may make. -/
inductive HandlerCall (α : Type)
  | schedule (request : Request α)
  | yieldOnReturn
deriving DecidableEq, Repr

/-- `scheduled` and `fired` are history variables: what was scheduled, and what was handled
with the time of it. -/
structure Interrupt (α : Type) where
  level : IntStatus
  pending : List (ListElement (PendingInterrupt α))
  inHandler : Bool
  yieldOnReturn : Bool
  status : MachineStatus
  totalTicks : ℤ
  idleTicks : ℤ
  systemTicks : ℤ
  userTicks : ℤ
  stop : Option Stop
  scheduled : List (PendingInterrupt α)
  fired : List (PendingInterrupt α × ℤ)

namespace Interrupt

variable {α : Type}

def create : Interrupt α where
  level := .intOff
  pending := []
  inHandler := false
  yieldOnReturn := false
  status := .systemMode
  totalTicks := 0
  idleTicks := 0
  systemTicks := 0
  userTicks := 0
  stop := none
  scheduled := []
  fired := []

/-- A failed ASSERT. -/
def abort (s : Interrupt α) : Interrupt α :=
  { s with stop := some .aborted }

/-- Signed overflow: what follows has no meaning. -/
def overflow (s : Interrupt α) : Interrupt α :=
  { s with stop := some .undefined }

def schedule (s : Interrupt α) (request : Request α) : Interrupt α :=
  let when := s.totalTicks + request.fromNow
  if intMax < when then s.overflow
  else if request.fromNow ≤ 0 then s.abort
  else
    let toOccur := ⟨s.scheduled.length, request.handler, when, request.type⟩
    { s with
      pending := sortedInsert toOccur when s.pending
      scheduled := s.scheduled ++ [toOccur] }

/-- A call made by a handler. A call that stops the machine is the last one. -/
def call (s : Interrupt α) (c : HandlerCall α) : Interrupt α :=
  if s.stop.isSome then s
  else
    match c with
    | .schedule request => s.schedule request
    | .yieldOnReturn =>
        if s.inHandler = true then { s with yieldOnReturn := true } else s.abort

section Handlers

-- a handler knows the whole history, so it may do something else each time it runs
variable (handlers : α → Interrupt α → List (HandlerCall α))

/-- `CheckIfDue` from `inHandler = TRUE` on. -/
def invoke (s : Interrupt α) (toOccur : PendingInterrupt α) : Interrupt α :=
  let entered := { s with
    inHandler := true
    status := .systemMode
    fired := s.fired ++ [(toOccur, s.totalTicks)] }
  let left := (handlers toOccur.handler entered).foldl call entered
  if left.stop.isSome then left else { left with status := s.status, inHandler := false }

/-- `CheckIfDue` behind the test of the time; `toOccur` is off the list. -/
def deliver (s : Interrupt α) (toOccur : PendingInterrupt α) (when : ℤ) : Interrupt α × Bool :=
  if s.status = .idleMode ∧ toOccur.type = .timerInt ∧ s.pending.isEmpty = true then
    ({ s with pending := sortedInsert toOccur when s.pending }, false)
  else (s.invoke handlers toOccur, true)

def checkIfDue (advanceClock : Bool) (s : Interrupt α) : Interrupt α × Bool :=
  if s.level = .intOn then (s.abort, false)
  else
    match s.pending with
    | [] => (s, false)
    | ⟨toOccur, when⟩ :: rest =>
        if advanceClock = true ∧ s.totalTicks < when then
          { s with
            pending := rest
            idleTicks := s.idleTicks + (when - s.totalTicks)
            totalTicks := when }.deliver handlers toOccur when
        else if s.totalTicks < when then
          ({ s with pending := sortedInsert toOccur when rest }, false)
        else { s with pending := rest }.deliver handlers toOccur when

/-- `while (CheckIfDue(FALSE))`. There is no result when the loop has not ended after `fuel`
tests. -/
def whileDue : ℕ → Interrupt α → Option (Interrupt α)
  | 0, _ => none
  | fuel + 1, s =>
      if s.stop.isSome then some s
      else
        match s.checkIfDue handlers false with
        | (s', true) => whileDue fuel s'
        | (s', false) => some s'

/-- The first part of `OneTick`. Every part is at most the total, so that the total is the
first to overflow. -/
def advance (s : Interrupt α) : Interrupt α :=
  if s.status = .systemMode then
    if intMax < s.totalTicks + systemTick then s.overflow
    else { s with
      totalTicks := s.totalTicks + systemTick
      systemTicks := s.systemTicks + systemTick }
  else
    if intMax < s.totalTicks + userTick then s.overflow
    else { s with
      totalTicks := s.totalTicks + userTick
      userTicks := s.userTicks + userTick }

/-- The last part of `OneTick`. Other calls are made inside the `Yield`, and `status = old`
comes behind them. -/
def afterTick (s : Interrupt α) : Interrupt α :=
  if s.stop.isSome then s
  else if s.yieldOnReturn = true then
    { s with level := .intOn, yieldOnReturn := false, status := .systemMode }
  else { s with level := .intOn }

def oneTick (fuel : ℕ) (s : Interrupt α) : Option (Interrupt α) :=
  ({ s.advance with level := .intOff }.whileDue handlers fuel).map afterTick

def setLevel (fuel : ℕ) (s : Interrupt α) (now : IntStatus) : Option (Interrupt α) :=
  if now = .intOn ∧ s.inHandler = true then some s.abort
  else if now = .intOn ∧ s.level = .intOff then { s with level := now }.oneTick handlers fuel
  else some { s with level := now }

/-- `Idle` behind its loop. -/
def afterIdle (s : Interrupt α) : Interrupt α :=
  if s.stop.isSome then s
  else { s with yieldOnReturn := false, status := .systemMode }

def idle (fuel : ℕ) (s : Interrupt α) : Option (Interrupt α) :=
  match { s with status := .idleMode }.checkIfDue handlers true with
  | (s', true) => (s'.whileDue handlers fuel).map afterIdle
  | (s', false) => some (if s'.stop.isSome then s' else { s' with stop := some .halted })

end Handlers

/-- The calls from outside the handlers. -/
inductive Label (α : Type)
  | schedule (request : Request α)
  | setLevel (now : IntStatus)
  | oneTick
  | idle
  | setStatus (status : MachineStatus)
deriving DecidableEq, Repr

/-- One call, with a test of the loop for every pending interrupt and one more. Nobody calls
`setStatus(IdleMode)`. -/
def step (handlers : α → Interrupt α → List (HandlerCall α)) (s : Interrupt α)
    (label : Label α) : Option (Interrupt α) :=
  if s.stop.isSome then none
  else
    match label with
    | .schedule request => some (s.schedule request)
    | .setLevel now => s.setLevel handlers (s.pending.length + 1) now
    | .oneTick => s.oneTick handlers (s.pending.length + 1)
    | .idle => s.idle handlers (s.pending.length + 1)
    | .setStatus status => if status = .idleMode then none else some { s with status := status }

end Interrupt
end Nachos
