import Mathlib
import Nachos.Model.Exception
import Nachos.Model.Synch

/-! # Threads, the scheduler and interrupts

`threads/thread.cc`, `threads/scheduler.cc`, `threads/synch.cc` and the part of
`machine/interrupt.cc` that runs handlers. A thread is where its stack says; one step is
what `currentThread` does up to its next choice. Which interrupts are due at a tick is left
open, so a run stands for every timing. -/

namespace Nachos

inductive IntStatus
  | intOff
  | intOn
deriving DecidableEq, Repr

inductive MachineStatus
  | idleMode
  | systemMode
  | userMode
deriving DecidableEq, Repr

inductive ThreadStatus
  | justCreated
  | running
  | ready
  | blocked
deriving DecidableEq, Repr

abbrev SemId := ℕ
abbrev LockId := ℕ

inductive Op
  | p (sem : SemId)
  | v (sem : SemId)
  | acquire (lock : LockId)
  | release (lock : LockId)
  | fork (thread : Tid)
  | yield
deriving DecidableEq, Repr

/-- A stack frame: where the thread goes on when it gets control back. -/
inductive Frame
  /-- the forked procedure, or `main` -/
  | func
  /-- `ThreadRoot`, before `InterruptEnable` -/
  | threadRoot
  /-- the body of an operation that was called at `oldLevel`; in `P`, the loop test -/
  | body (op : Op) (oldLevel : IntStatus)
  /-- the last `SetLevel(oldLevel)` of an operation -/
  | restore (op : Op) (oldLevel : IntStatus)
  /-- the return from an operation -/
  | ret (op : Op) (oldLevel : IntStatus)
  /-- `while (CheckIfDue(FALSE))` in `OneTick` -/
  | oneTick (old : MachineStatus)
  /-- `status = old` behind the `Yield` of `OneTick` -/
  | afterYield (old : MachineStatus)
  /-- `while ((nextThread = scheduler->FindNextToRun()) == NULL)` in `Sleep` -/
  | sleep
  /-- `while (CheckIfDue(FALSE))` in `Idle` -/
  | idle
  /-- `Run` behind `SWITCH` -/
  | afterSwitch
deriving DecidableEq, Repr

/-- An address space as a context switch sees it: the pointer to its page table and
`numPages`. -/
structure UserSpace where
  pageTable : ℕ
  numPages : ℕ
deriving DecidableEq, Repr

/-- The user registers, `machine->pageTable` and `machine->pageTableSize`. -/
structure Context where
  registers : Registers
  pageTable : Option ℕ
  pageTableSize : ℕ

def stackReg : Reg := 29

/-- `InitRegisters` -/
def UserSpace.initRegisters (space : UserSpace) : Registers :=
  Function.update (Function.update (fun _ => 0#32) nextPCReg 4#32) stackReg
    (BitVec.ofNat 32 (space.numPages * pageSize) - 16#32)

/-- What has happened, in the order in which it happened. -/
inductive Event
  | called (thread : Tid) (op : Op) (level : IntStatus)
  | left (thread : Tid) (op : Op) (level : IntStatus)
  | handlerV (sem : SemId) (called left : IntStatus)
  | v (sem : SemId) (woken : Option Tid)
  | tested (sem : SemId) (thread : Tid) (taken : Bool)
  | acquire (lock : LockId) (thread : Tid)
  | release (lock : LockId) (thread : Tid)
  | granted (lock : LockId) (thread : Tid)
  | readied (thread : Tid)
  | switch (next : Tid) (level : IntStatus)
  | entered (thread : Tid) (context : Context)
  | returned (thread : Tid) (context : Context)
  | finished (thread : Tid)
  | deleted (thread : Tid)

/-- The interrupt handlers: the timer asks for a time slice, a device runs `V` on the
semaphore of its driver, and a poll that finds nothing does nothing. -/
inductive Handler
  | timer
  | device (sem : SemId)
  | poll
deriving DecidableEq, Repr

namespace System

/-- A `Thread` object. -/
structure Thread where
  status : ThreadStatus
  frames : List Frame
  space : Option UserSpace
  userRegisters : Registers

def Thread.create : Thread :=
  ⟨.justCreated, [], none, fun _ => 0#32⟩

end System

/-- The globals of the kernel. `log` is a history variable. -/
structure System where
  level : IntStatus
  inHandler : Bool
  yieldOnReturn : Bool
  machineStatus : MachineStatus
  currentThread : Tid
  readyList : List Tid
  threads : Tid → System.Thread
  semaphores : SemId → Semaphore
  locks : LockId → Lock
  threadToBeDestroyed : Option Tid
  context : Context
  stop : Option Stop
  log : List Event

namespace System

/-- `Initialize` before it enables interrupts: the main thread runs. -/
def boot (initialValue : SemId → ℕ) : System where
  level := .intOff
  inHandler := false
  yieldOnReturn := false
  machineStatus := .systemMode
  currentThread := 0
  readyList := []
  threads := Function.update (fun _ => .create) 0 { Thread.create with
    status := .running, frames := [.func] }
  semaphores sem := .create (initialValue sem)
  locks _ := .create
  threadToBeDestroyed := none
  context := ⟨fun _ => 0#32, none, 0⟩
  stop := none
  log := []

def modify (s : System) (t : Tid) (f : Thread → Thread) : System :=
  { s with threads := Function.update s.threads t (f (s.threads t)) }

def setStatus (s : System) (t : Tid) (status : ThreadStatus) : System :=
  s.modify t fun th => { th with status := status }

/-- `currentThread` goes on in the given frames. -/
def setFrames (s : System) (frames : List Frame) : System :=
  s.modify s.currentThread fun th => { th with frames := frames }

def emit (s : System) (event : Event) : System :=
  { s with log := s.log ++ [event] }

/-- A failed ASSERT. -/
def abort (s : System) : System :=
  { s with stop := some .aborted }

/-! ## The interrupt level -/

/-- `OneTick` up to its loop. -/
def oneTick (s : System) (rest : List Frame) : System :=
  { s with level := .intOff }.setFrames (.oneTick s.machineStatus :: rest)

/-- `SetLevel(now)` by `currentThread`, which then goes on in `rest`. -/
def setLevel (s : System) (now : IntStatus) (rest : List Frame) : System :=
  if now = .intOn ∧ s.inHandler = true then s.abort
  else if now = .intOn ∧ s.level = .intOff then { s with level := now }.oneTick rest
  else { s with level := now }.setFrames rest

/-! ## The scheduler -/

def readyToRun (s : System) (t : Tid) : System :=
  ({ s with readyList := s.readyList ++ [t] }.setStatus t .ready).emit (.readied t)

/-- `Sleep` up to its loop. -/
def sleep (s : System) (rest : List Frame) : System :=
  if s.level = .intOff then (s.setStatus s.currentThread .blocked).setFrames (.sleep :: rest)
  else s.abort

/-- The first part of `Run`. -/
def saveUserState (s : System) : System :=
  match (s.threads s.currentThread).space with
  | none => s
  | some _ => (s.modify s.currentThread fun th =>
      { th with userRegisters := s.context.registers }).emit (.entered s.currentThread s.context)

/-- `Run(next)` up to and with `SWITCH`. -/
def run (s : System) (next : Tid) (rest : List Frame) : System :=
  let s := s.saveUserState.setFrames (.afterSwitch :: rest)
  ({ s with currentThread := next }.setStatus next .running).emit (.switch next s.level)

/-- The last part of `Run`. -/
def restoreUserState (s : System) : System :=
  match (s.threads s.currentThread).space with
  | none => s
  | some space =>
      let context : Context :=
        ⟨(s.threads s.currentThread).userRegisters, some space.pageTable, space.numPages⟩
      { s with context := context }.emit (.returned s.currentThread context)

/-- `Run` behind `SWITCH`, with the ASSERT of `~Thread`. -/
def afterSwitch (s : System) (rest : List Frame) : System :=
  match s.threadToBeDestroyed with
  | none => s.restoreUserState.setFrames rest
  | some t =>
      if t = s.currentThread then s.abort
      else ({ s with threadToBeDestroyed := none }.emit
        (.deleted t)).restoreUserState.setFrames rest

/-! ## Operations

Each begins with `oldLevel = interrupt->SetLevel(IntOff)`, which is the call; what follows
is the body. `base` is the caller. -/

def call (s : System) (op : Op) (base : List Frame) : System :=
  ({ s with level := .intOff }.emit (.called s.currentThread op s.level)).setFrames
    (.body op s.level :: base)

/-- One test of the loop of `P`. -/
def testP (s : System) (sem : SemId) (oldLevel : IntStatus) (base : List Frame) : System :=
  match (s.semaphores sem).p s.currentThread with
  | (semaphore, true) =>
      ({ s with semaphores := Function.update s.semaphores sem semaphore }.emit
        (.tested sem s.currentThread true)).setFrames (.restore (.p sem) oldLevel :: base)
  | (semaphore, false) =>
      ({ s with semaphores := Function.update s.semaphores sem semaphore }.emit
        (.tested sem s.currentThread false)).sleep (.body (.p sem) oldLevel :: base)

/-- The body of `V`. -/
def bodyV (s : System) (sem : SemId) : System :=
  match (s.semaphores sem).v with
  | (semaphore, none) =>
      { s with semaphores := Function.update s.semaphores sem semaphore }.emit (.v sem none)
  | (semaphore, some t) =>
      ({ s with semaphores := Function.update s.semaphores sem semaphore }.readyToRun t).emit
        (.v sem (some t))

def acquire (s : System) (lock : LockId) (oldLevel : IntStatus) (base : List Frame) : System :=
  let s := s.emit (.acquire lock s.currentThread)
  let l := s.locks lock
  if l.isHeldByCurrentThread s.currentThread then
    s.setFrames (.restore (.acquire lock) oldLevel :: base)
  else match l.acquire s.currentThread with
    | (l, true) =>
        ({ s with locks := Function.update s.locks lock l }.emit
          (.granted lock s.currentThread)).setFrames (.restore (.acquire lock) oldLevel :: base)
    | (l, false) =>
        { s with locks := Function.update s.locks lock l }.sleep
          (.restore (.acquire lock) oldLevel :: base)

def release (s : System) (lock : LockId) (oldLevel : IntStatus) (base : List Frame) : System :=
  let s := s.emit (.release lock s.currentThread)
  match (s.locks lock).release s.currentThread with
  | (l, none) =>
      { s with locks := Function.update s.locks lock l }.setFrames
        (.restore (.release lock) oldLevel :: base)
  | (l, some t) =>
      (({ s with locks := Function.update s.locks lock l }.readyToRun t).emit
        (.granted lock t)).setFrames (.restore (.release lock) oldLevel :: base)

/-- `thread->Fork(func, arg)`: `StackAllocate` makes the new thread start in `ThreadRoot`. -/
def fork (s : System) (t : Tid) (oldLevel : IntStatus) (base : List Frame) : System :=
  ((s.modify t fun th => { th with frames := [.threadRoot] }).readyToRun t).setFrames
    (.restore (.fork t) oldLevel :: base)

def yield (s : System) (oldLevel : IntStatus) (base : List Frame) : System :=
  match s.readyList with
  | [] => s.setFrames (.restore .yield oldLevel :: base)
  | next :: readyList =>
      ({ s with readyList := readyList }.readyToRun s.currentThread).run next
        (.restore .yield oldLevel :: base)

/-- `Finish`; nothing behind the call of `Sleep` is reached. -/
def finish (s : System) : System :=
  ({ s with level := .intOff, threadToBeDestroyed := some s.currentThread }.emit
    (.finished s.currentThread)).sleep []

/-! ## Interrupts -/

/-- `V` called by a handler. -/
def handlerV (s : System) (sem : SemId) : System :=
  let oldLevel := s.level
  let s := { s with level := .intOff }.bodyV sem
  if oldLevel = .intOn ∧ s.inHandler = true then s.abort
  else { s with level := oldLevel }.emit (.handlerV sem oldLevel oldLevel)

def handle (s : System) : Handler → System
  | .timer =>
      if s.machineStatus = .idleMode then s
      else if s.inHandler = true then { s with yieldOnReturn := true }
      else s.abort
  | .device sem => s.handlerV sem
  | .poll => s

/-- `machine->DelayedLoad(0, 0)` -/
def delayedLoad (registers : Registers) : Option Registers :=
  ((⟨registers, fun _ => 0#8, none, none⟩ : Machine).delayedLoad 0#32 0#32).map
    Machine.registers

/-- `CheckIfDue` when it fires an interrupt. -/
def fire (s : System) (handler : Handler) : System :=
  if s.level = .intOn then s.abort
  else match delayedLoad s.context.registers with
    | none => { s with stop := some .undefined }
    | some registers =>
        let old := s.machineStatus
        let s := { s with
          context := { s.context with registers := registers }
          inHandler := true
          machineStatus := .systemMode }.handle handler
        { s with machineStatus := old, inHandler := false }

/-- The rest of `OneTick` when `CheckIfDue` finds nothing due any more. -/
def endTick (s : System) (old : MachineStatus) (rest : List Frame) : System :=
  if s.level = .intOn then s.abort
  else if s.yieldOnReturn = true then
    { s with level := .intOn, yieldOnReturn := false, machineStatus := .systemMode }.call
      .yield (.afterYield old :: rest)
  else { s with level := .intOn }.setFrames rest

/-- `Idle` when an interrupt is pending: the clock advances to it. -/
def beginIdle (s : System) (handler : Handler) (rest : List Frame) : System :=
  ({ s with machineStatus := .idleMode }.fire handler).setFrames (.idle :: .sleep :: rest)

/-- The rest of `Idle` when `CheckIfDue` finds nothing due any more. -/
def endIdle (s : System) (rest : List Frame) : System :=
  if s.level = .intOn then s.abort
  else { s with yieldOnReturn := false, machineStatus := .systemMode }.setFrames rest

/-- `Idle` without a pending interrupt. -/
def haltIdle (s : System) : System :=
  if s.level = .intOn then s.abort else { s with stop := some .halted }

/-! ## Steps -/

/-- What the environment decides: what the running code does next, and which interrupts
are due. -/
inductive Label
  | call (op : Op)
  | finish
  | setLevel (now : IntStatus)
  | setStatus (status : MachineStatus)
  | writeRegisters (registers : Registers)
  | instruction (registers : Registers)
  | startProcess (space : UserSpace)
  | halt
  | go
  | interrupt (handler : Handler)
  | quiet

/-- The body of an operation. `Fork` is called once for a thread. -/
def body (s : System) (op : Op) (oldLevel : IntStatus) (base : List Frame) : Option System :=
  match op with
  | .p sem => some (s.testP sem oldLevel base)
  | .v sem => some ((s.bodyV sem).setFrames (.restore (.v sem) oldLevel :: base))
  | .acquire lock => some (s.acquire lock oldLevel base)
  | .release lock => some (s.release lock oldLevel base)
  | .fork t =>
      if (s.threads t).status = .justCreated then some (s.fork t oldLevel base) else none
  | .yield => some (s.yield oldLevel base)

/-- `StartProcess` and `MyStartProcess` behind the constructor of the address space. -/
def startProcess (s : System) (space : UserSpace) : System :=
  { s.modify s.currentThread fun th => { th with space := some space } with
    context := ⟨space.initRegisters, some space.pageTable, space.numPages⟩ }

def step (s : System) (label : Label) : Option System :=
  if s.stop.isSome then none
  else match (s.threads s.currentThread).frames, label with
    | .func :: rest, .call op => some (s.call op (.func :: rest))
    | .func :: _, .finish => some s.finish
    | .func :: rest, .setLevel now => some (s.setLevel now (.func :: rest))
    | .func :: _, .setStatus status => some { s with machineStatus := status }
    | .func :: _, .writeRegisters registers =>
        some { s with context := { s.context with registers := registers } }
    | .func :: rest, .instruction registers =>
        if (s.threads s.currentThread).space.isSome then
          some ({ s with
            context := { s.context with registers := registers }
            machineStatus := .userMode }.oneTick (.func :: rest))
        else none
    | .func :: _, .startProcess space => some (s.startProcess space)
    | .func :: _, .halt => some { s with stop := some .halted }
    | .threadRoot :: rest, .go => some (s.setLevel .intOn (.func :: rest))
    | .body op oldLevel :: rest, .go => s.body op oldLevel rest
    | .restore op oldLevel :: rest, .go => some (s.setLevel oldLevel (.ret op oldLevel :: rest))
    | .ret op _ :: rest, .go =>
        some ((s.emit (.left s.currentThread op s.level)).setFrames rest)
    | .oneTick _ :: _, .interrupt handler => some (s.fire handler)
    | .oneTick old :: rest, .quiet => some (s.endTick old rest)
    | .afterYield old :: rest, .go => some ({ s with machineStatus := old }.setFrames rest)
    | .sleep :: rest, .go =>
        match s.readyList with
        | [] => none
        | next :: readyList => some ({ s with readyList := readyList }.run next rest)
    | .sleep :: rest, .interrupt handler =>
        if s.readyList = [] then some (s.beginIdle handler rest) else none
    | .sleep :: _, .quiet => if s.readyList = [] then some s.haltIdle else none
    | .idle :: _, .interrupt handler => some (s.fire handler)
    | .idle :: rest, .quiet => some (s.endIdle rest)
    | .afterSwitch :: rest, .go => some (s.afterSwitch rest)
    | _, _ => none

end System

end Nachos
