import Nachos.Model.AddrSpace
import Nachos.Model.PcbObject

/-! # Processes (`threads/pcb.cc`, `threads/ptable.cc`)

The kernel as a system of threads. A step runs one thread from one place where it can lose
the CPU to the next: the end of a semaphore or lock operation, of `Thread::Fork`, of a file
operation, or of a user instruction. Between these places interrupts cannot switch
threads, so the code there is one step.

PCB objects live in `heap` under addresses that are not used twice; a deleted object is
`none`. An access to a deleted object ends the run with status `undefined`. -/

namespace Nachos

abbrev Addr := ℕ

def maxProcess : ℕ := 10

structure PCB where
  joinsem : Semaphore
  exitsem : Semaphore
  mutex : Semaphore
  exitcode : ℤ
  thread : Option Tid
  pid : ℕ
  numwait : ℕ
  fileName : List Byte
  parentID : ℕ
  joinStatus : ℤ
  /-- not in the source: the thread that ran the constructor -/
  creator : Tid
deriving DecidableEq, Repr

namespace PCB

/-- The constructor, run by `currentThread` of process `processID`. -/
def create (id : ℕ) (currentThread : Tid) (processID : ℕ) : PCB where
  joinsem := .create 0
  exitsem := .create 0
  mutex := .create 1
  exitcode := 0
  thread := none
  pid := id
  numwait := 0
  fileName := if id = 0 then chars "./test/scheduler" else []
  parentID := if id = 0 then 0 else processID
  joinStatus := -1
  creator := currentThread

/-- The value of `parentID` behind `strcpy(FileName, fn)`: what of the name does not fit into
`char FileName[32]` falls on it, as the bytes of the object lie. -/
def parentBehind (parentID : ℕ) (fn : List Byte) : ℕ :=
  if fn.length < PCBObject.fileNameSize then parentID
  else
    (PCBObject.parentID
      (PCBObject.setFileName (PCBObject.create (fun _ => 0#8) (BitVec.ofNat 32 parentID))
        fn)).toNat

/-- `SetFileName` copies the name with its NUL into `char FileName[32]` and goes on into
`parentID`. A name that goes on into `JoinStatus` ends the run; `SC_Exec` copies at most 33
characters in. -/
def setFileName (p : PCB) (fn : List Byte) : Option PCB :=
  if fn.length < PCBObject.fileNameSize + 4 then
    some { p with fileName := fn, parentID := parentBehind p.parentID fn }
  else none

/-- `JoinWait` before its `joinsem->P()`. -/
def joinWait (p : PCB) : PCB :=
  { p with joinStatus := p.parentID, numwait := p.numwait + 1 }

/-- `DecNumWait`, the first statement of `JoinRelease`. -/
def decNumWait (p : PCB) : PCB :=
  { p with numwait := p.numwait - 1 }

end PCB

/-- What `currentThread->space` refers to. `unset` is an object whose constructor returned
before it assigned `numPages` and `pageTable`. -/
inductive Space
  | null
  | unset
  | built (space : AddrSpace)
deriving DecidableEq, Repr

/-- Where a thread is. The modes `execWait`, `joinWait` and `exitWait` are inside
`Semaphore::P`; `loading` is inside or behind `addrLock->Acquire()`. -/
inductive Mode
  | startProcess
  | myStartProcess
  | loading (noffH : NoffHeader)
  | outOfMemory
  | loaded
  | user
  | execWait (filename : List Byte)
  | execOpen (filename : List Byte)
  | execSlot (filename : List Byte)
  | execFork (id : ℕ) (pcb : Addr)
  | execUnlock (id : ℕ) (pcb : Addr)
  | execDone (result : ℤ)
  | joinWait (pID : ℕ) (pcb : Addr)
  | joinCode (pID : ℕ) (pcb : Addr)
  | exitRelease (pID : ℕ) (ec : ℤ)
  | exitWait (pID : ℕ) (pcb : Addr) (ec : ℤ)
  | exitRemove (pID : ℕ) (ec : ℤ)
  | returned (result : ℤ)
deriving DecidableEq, Repr

structure Thread where
  processID : ℕ
  mode : Mode
  /-- the status is BLOCKED -/
  asleep : Bool
  space : Space
  /-- not in the source: the handler of `SC_Exit` has run `Remove` and returned -/
  exited : Bool
deriving DecidableEq, Repr

inductive Status
  | running
  | halted
  | aborted
  | undefined
deriving DecidableEq, Repr

structure Kernel where
  bm : BitMap maxProcess
  pcb : ℕ → Option Addr
  heap : Addr → Option PCB
  nextAddr : Addr
  bmsem : Semaphore
  gPhysPageBitMap : BitMap numPhysPages
  addrLock : Lock
  threads : Tid → Option Thread
  nextTid : Tid
  status : Status

/-- What a step takes from outside: what the user program does, and the answers of the
file system and of the host. -/
inductive Input
  /-- nothing is needed -/
  | go
  /-- a user instruction other than the calls below -/
  | instr
  /-- an exception of the user program, or `Halt()` -/
  | trap
  | exec (filename : List Byte)
  | join (pID : ℤ)
  | exit (ec : ℤ)
  /-- whether `fileSystem->Open` in `ExecUpdate` returns a file -/
  | opened (ok : Bool)
  /-- whether the name equals `currentThread->getName()`, whose buffer may be deleted -/
  | sameName (same : Bool)
  /-- whether `new Thread` returns an object -/
  | allocated (ok : Bool)
  /-- the header of the file that `AddrSpace(char*)` opens, if it opens -/
  | executable (file : Option NoffHeader)
deriving DecidableEq, Repr

namespace Kernel

/-- After `Initialize` with `pTab = new PTable(10)`; the main thread runs `StartProcess`. -/
def create (words : Vector (BitVec 32) (divRoundUp maxProcess bitsInWord))
    (frameWords : Vector (BitVec 32) (divRoundUp numPhysPages bitsInWord)) : Kernel where
  bm := (BitMap.create words).mark ⟨0, by decide⟩
  pcb _ := none
  heap _ := none
  nextAddr := 0
  bmsem := .create 1
  gPhysPageBitMap := .create frameWords
  addrLock := .create
  threads t := if t = 0 then some ⟨0, .startProcess, false, .null, false⟩ else none
  nextTid := 1
  status := .running

/-! ## Threads -/

def modifyThread (k : Kernel) (t : Tid) (f : Thread → Thread) : Kernel :=
  { k with threads := Function.update k.threads t ((k.threads t).map f) }

/-- The thread goes on to `mode`. -/
def goto (k : Kernel) (t : Tid) (mode : Mode) : Kernel :=
  k.modifyThread t fun th => { th with mode := mode }

/-- The thread sleeps inside `mode`. -/
def sleep (k : Kernel) (t : Tid) (mode : Mode) : Kernel :=
  k.modifyThread t fun th => { th with mode := mode, asleep := true }

/-- `scheduler->ReadyToRun` for the thread taken from a queue, if there is one. -/
def wake (k : Kernel) : Option Tid → Kernel
  | none => k
  | some u => k.modifyThread u fun th => { th with asleep := false }

def setSpace (k : Kernel) (t : Tid) (space : Space) : Kernel :=
  k.modifyThread t fun th => { th with space := space }

def stop (k : Kernel) (status : Status) : Kernel :=
  { k with status := status }

def putPCB (k : Kernel) (a : Addr) (p : PCB) : Kernel :=
  { k with heap := Function.update k.heap a (some p) }

/-- `bmsem->V()` -/
def bmsemV (k : Kernel) : Kernel :=
  { k with bmsem := k.bmsem.v.1 }.wake k.bmsem.v.2

/-- `addrLock->Release()` -/
def releaseLock (k : Kernel) (t : Tid) : Kernel :=
  { k with addrLock := (k.addrLock.release t).1 }.wake (k.addrLock.release t).2

/-! ## The process table -/

/-- `PTable::IsExist` -/
def isExist (k : Kernel) (pID : ℕ) : Bool :=
  if h : pID < maxProcess then k.bm.test ⟨pID, h⟩ else false

/-- The object that `pcb[pID]` points to, when the pointer may be followed. -/
def deref (k : Kernel) (pID : ℕ) : Option (Addr × PCB) :=
  (k.pcb pID).bind fun a => (k.heap a).map fun p => (a, p)

/-- `PTable::GetName`, for a process that exists. -/
def getName (k : Kernel) (pID : ℕ) : Option (List Byte) :=
  if k.isExist pID then (k.deref pID).map fun r => r.2.fileName else none

/-- `PTable::Remove`. The pointer `pcb[pID]` keeps its value. -/
def remove (k : Kernel) (pID : ℕ) : Kernel :=
  if h : pID < maxProcess then
    if k.bm.test ⟨pID, h⟩ then
      let k := { k with bm := k.bm.clear ⟨pID, h⟩ }
      match k.pcb pID with
      | none => k
      | some a =>
          match k.heap a with
          | none => k.stop .undefined
          | some _ => { k with heap := Function.update k.heap a none }
    else k
  else k

/-- `Remove` by the process itself, at the end of `ExitUpdate`. Without a further step the
handler puts the result into r2, advances the program counters and returns to the user
program. -/
def removeSelf (k : Kernel) (t : Tid) (pID : ℕ) : Kernel :=
  (k.remove pID).modifyThread t fun th => { th with mode := .user, exited := true }

/-- `ExecUpdate` up to `bmsem->P()`; also the test after the thread was woken in it. -/
def execUpdate (k : Kernel) (t : Tid) (filename : List Byte) : Kernel :=
  match k.bmsem.p t with
  | (sem, true) => { k with bmsem := sem }.goto t (.execOpen filename)
  | (sem, false) => { k with bmsem := sem }.sleep t (.execWait filename)

/-- A failed check of `ExecUpdate`: `bmsem->V()` and `return -1`. -/
def execFail (k : Kernel) (t : Tid) : Kernel :=
  k.bmsemV.goto t (.returned (-1))

def execOpen (k : Kernel) (t : Tid) (filename : List Byte) (ok : Bool) : Kernel :=
  if ok then k.goto t (.execSlot filename) else k.execFail t

/-- From the comparison of names to the end of `mutex->P()` in `PCB::Exec`; the mutex is
new, so this `P` does not wait. -/
def execSlot (k : Kernel) (t : Tid) (th : Thread) (filename : List Byte) (same : Bool) :
    Kernel :=
  if same then k.execFail t
  else
    let (id, bm) := k.bm.find
    if id = -1 then k.execFail t
    else
      match (BitMap.index? id : Option (Fin maxProcess)) with
      | none => k.stop .aborted
      | some i =>
          match (PCB.create i t th.processID).setFileName filename with
          | none => k.stop .undefined
          | some p =>
              { k with
                bm := bm.mark i
                pcb := Function.update k.pcb i (some k.nextAddr)
                heap := Function.update k.heap k.nextAddr
                  (some { p with mutex := (p.mutex.p t).1 })
                nextAddr := k.nextAddr + 1 }.goto t (.execFork i k.nextAddr)

/-- `new Thread` and `Fork` in `PCB::Exec`, or the branch for `thread == NULL`. -/
def execFork (k : Kernel) (t : Tid) (id : ℕ) (a : Addr) (ok : Bool) : Kernel :=
  match k.heap a with
  | none => k.stop .undefined
  | some p =>
      if ok then
        { k with
          heap := Function.update k.heap a (some { p with thread := some k.nextTid })
          threads := Function.update k.threads k.nextTid
            (some ⟨id, .myStartProcess, false, .null, false⟩)
          nextTid := k.nextTid + 1 }.goto t (.execUnlock id a)
      else
        ((k.putPCB a { p with mutex := p.mutex.v.1 }).wake p.mutex.v.2).goto t (.execDone (-1))

/-- `mutex->V()` after `Fork`. -/
def execUnlock (k : Kernel) (t : Tid) (id : ℕ) (a : Addr) : Kernel :=
  match k.heap a with
  | none => k.stop .undefined
  | some p =>
      ((k.putPCB a { p with mutex := p.mutex.v.1 }).wake p.mutex.v.2).goto t (.execDone id)

/-- `bmsem->V()` and `return pID`. -/
def execDone (k : Kernel) (t : Tid) (result : ℤ) : Kernel :=
  k.bmsemV.goto t (.returned result)

/-- One test of `joinsem->P()`. -/
def joinSemP (k : Kernel) (t : Tid) (pID : ℕ) (a : Addr) (p : PCB) : Kernel :=
  match p.joinsem.p t with
  | (sem, true) => (k.putPCB a { p with joinsem := sem }).goto t (.joinCode pID a)
  | (sem, false) => (k.putPCB a { p with joinsem := sem }).sleep t (.joinWait pID a)

/-- `JoinUpdate` up to `joinsem->P()` in `JoinWait`. -/
def joinUpdate (k : Kernel) (t : Tid) (th : Thread) (pID : ℤ) : Kernel :=
  if pID ≤ 0 ∨ 9 < pID then k.goto t (.returned (-1))
  else
    match k.pcb pID.toNat with
    | none => k.goto t (.returned (-1))
    | some a =>
        match k.heap a with
        | none => k.stop .undefined
        | some p =>
            if th.processID ≠ p.parentID then k.goto t (.returned (-1))
            else k.joinSemP t pID.toNat a p.joinWait

/-- The test of `joinsem->P()` after the thread was woken in it. -/
def joinWait (k : Kernel) (t : Tid) (pID : ℕ) (a : Addr) : Kernel :=
  match k.heap a with
  | none => k.stop .undefined
  | some p => k.joinSemP t pID a p

/-- `JoinUpdate` behind `JoinWait`. -/
def joinCode (k : Kernel) (t : Tid) (pID : ℕ) : Kernel :=
  match k.deref pID with
  | none => k.stop .undefined
  | some (a, p) =>
      if p.exitcode ≠ 0 then k.goto t (.returned (-1))
      else
        ((k.putPCB a { p with exitsem := p.exitsem.v.1 }).wake p.exitsem.v.2).goto t (.returned 0)

/-- `ExitUpdate` up to the end of `JoinRelease`, or to its end when nobody joins. -/
def exitUpdate (k : Kernel) (t : Tid) (th : Thread) (ec : ℤ) : Kernel :=
  if k.isExist th.processID = false then k.goto t (.returned (-1))
  else if th.processID = 0 then k.stop .halted
  else
    match k.deref th.processID with
    | none => k.stop .undefined
    | some (a, p) =>
        let p := { p with exitcode := ec }
        if p.joinStatus ≠ -1 then
          ((k.putPCB a { p.decNumWait with joinsem := p.joinsem.v.1 }).wake p.joinsem.v.2).goto t
            (.exitRelease th.processID ec)
        else (k.putPCB a p).removeSelf t th.processID

/-- One test of `exitsem->P()`. -/
def exitSemP (k : Kernel) (t : Tid) (pID : ℕ) (ec : ℤ) (a : Addr) (p : PCB) : Kernel :=
  match p.exitsem.p t with
  | (sem, true) => (k.putPCB a { p with exitsem := sem }).goto t (.exitRemove pID ec)
  | (sem, false) => (k.putPCB a { p with exitsem := sem }).sleep t (.exitWait pID a ec)

/-- `pcb[pID]->ExitWait()` -/
def exitRelease (k : Kernel) (t : Tid) (pID : ℕ) (ec : ℤ) : Kernel :=
  match k.deref pID with
  | none => k.stop .undefined
  | some (a, p) => k.exitSemP t pID ec a p

/-- The test of `exitsem->P()` after the thread was woken in it. -/
def exitWait (k : Kernel) (t : Tid) (pID : ℕ) (a : Addr) (ec : ℤ) : Kernel :=
  match k.heap a with
  | none => k.stop .undefined
  | some p => k.exitSemP t pID ec a p

/-! ## Loading -/

/-- `AddrSpace(char*)` from `Open` to `Acquire`. When the file does not open, the
constructor returns and the process starts with the object as it is. -/
def openExecutable (k : Kernel) (t : Tid) (file : Option NoffHeader) : Kernel :=
  match file with
  | none => (k.setSpace t .unset).goto t .user
  | some noffH =>
      if noffH.noffMagic ≠ noffMagic then k.stop .aborted
      else
        match k.addrLock.acquire t with
        | (lock, true) => { k with addrLock := lock }.goto t (.loading noffH)
        | (lock, false) => { k with addrLock := lock }.sleep t (.loading noffH)

/-- `MyStartProcess`: `GetName` follows `pcb[pID]`. -/
def myStartProcess (k : Kernel) (t : Tid) (th : Thread) (file : Option NoffHeader) : Kernel :=
  if k.isExist th.processID then
    match k.deref th.processID with
    | none => k.stop .undefined
    | some _ => k.openExecutable t file
  else k.stop .undefined

/-- From the return of `Acquire` to the end of the next `Release`. -/
def loadPages (k : Kernel) (t : Tid) (noffH : NoffHeader) : Kernel :=
  if k.gPhysPageBitMap.numClear < noffH.numPages then
    (k.releaseLock t).goto t .outOfMemory
  else
    let (frames, b) := AddrSpace.allocate noffH.numPages k.gPhysPageBitMap
    (({ k with gPhysPageBitMap := b }.releaseLock t).setSpace t (.built (.ofFrames frames))).goto t
      .loaded

/-- The constructor goes on with `numPages = 0` and releases the lock again. -/
def loadEmpty (k : Kernel) (t : Tid) : Kernel :=
  ((k.releaseLock t).setSpace t (.built (.ofFrames []))).goto t .loaded

/-! ## Steps -/

/-- A thread in user mode fetches an instruction before it does anything else: without
pages this raises `AddressErrorException`, with an unset page table it is undefined. -/
def userStep (k : Kernel) (t : Tid) (th : Thread) (i : Input) : Option Kernel :=
  match th.space with
  | .null => some (k.stop .undefined)
  | .unset => some (k.stop .undefined)
  | .built space =>
      if space.numPages = 0 then some (k.stop .halted)
      else
        match i with
        | .instr => some k
        | .trap => some (k.stop .halted)
        | .exec filename => some (k.execUpdate t filename)
        | .join pID => some (k.joinUpdate t th pID)
        | .exit ec => some (k.exitUpdate t th ec)
        | _ => none

/-- The step of thread `t` at its mode. -/
def modeStep (k : Kernel) (t : Tid) (th : Thread) (i : Input) : Option Kernel :=
  match th.mode, i with
  | .startProcess, .executable file => some (k.openExecutable t file)
  | .myStartProcess, .executable file => some (k.myStartProcess t th file)
  | .loading noffH, .go => some (k.loadPages t noffH)
  | .outOfMemory, .go => some (k.loadEmpty t)
  | .loaded, .go => some (k.goto t .user)
  | .user, i => k.userStep t th i
  | .execWait filename, .go => some (k.execUpdate t filename)
  | .execOpen filename, .opened ok => some (k.execOpen t filename ok)
  | .execSlot filename, .sameName same => some (k.execSlot t th filename same)
  | .execFork id a, .allocated ok => some (k.execFork t id a ok)
  | .execUnlock id a, .go => some (k.execUnlock t id a)
  | .execDone result, .go => some (k.execDone t result)
  | .joinWait pID a, .go => some (k.joinWait t pID a)
  | .joinCode pID _, .go => some (k.joinCode t pID)
  | .exitRelease pID ec, .go => some (k.exitRelease t pID ec)
  | .exitWait pID a ec, .go => some (k.exitWait t pID a ec)
  | .exitRemove pID _, .go => some (k.removeSelf t pID)
  | .returned _, .go => some (k.goto t .user)
  | _, _ => none

/-- One step of the kernel: a thread that exists and is not blocked runs. -/
def step (k : Kernel) (label : Tid × Input) : Option Kernel :=
  if k.status = .running then
    match k.threads label.1 with
    | none => none
    | some th => if th.asleep then none else k.modeStep label.1 th label.2
  else none

end Kernel

end Nachos
