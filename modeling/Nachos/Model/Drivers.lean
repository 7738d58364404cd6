import Nachos.Model.Disk
import Nachos.Model.Synch

/-! # The drivers of the disk, the display and the keyboard

`filesys/synchdisk.cc` over `machine/disk.cc`, and the `Write` and `Read` of
`threads/synchcons.cc` over `machine/console.cc`, called by any number of threads. `P`, `V`,
`Acquire` and `Release` run with interrupts off and a request has no call inside it that
enables them, so each is one step; any thread that does not sleep may take the next one, and a
completion interrupt may come between any two. -/

namespace Nachos

/-! ## Devices -/

/-- A device that serves one request at a time, and the semaphore of its driver: `active` of
`Disk` or `putBusy` of `Console`, the number of completion interrupts that are scheduled, and
`semaphore` or `synchWriteAvail`. -/
structure Device where
  busy : Bool
  scheduled : ℕ
  done : Semaphore
deriving DecidableEq, Repr

namespace Device

def create : Device :=
  ⟨false, 0, .create 0⟩

/-- The part of a request that the devices share: `none` when `ASSERT(!active)` or
`ASSERT(putBusy == FALSE)` fails. -/
def request (d : Device) : Option Device :=
  if d.busy then none else some { d with busy := true, scheduled := d.scheduled + 1 }

/-- `HandleInterrupt` with `RequestDone`, or `WriteDone` with `SynchWriteFunct`: the flag is
cleared and the handler runs `V`, which may wake a thread. -/
def interrupt (d : Device) : Option (Device × Option Tid) :=
  if d.scheduled = 0 then none
  else some (⟨false, d.scheduled - 1, d.done.v.1⟩, d.done.v.2)

/-- One test of the loop of `P` on the semaphore of the driver. -/
def wait (d : Device) (t : Tid) : Device × Bool :=
  ({ d with done := (d.done.p t).1 }, (d.done.p t).2)

end Device

/-! ## The disk -/

namespace SynchDisk

/-- The calls `ReadSector(sectorNumber, data)` and `WriteSector(sectorNumber, data)`. -/
inductive Request
  | read (sectorNumber : ℤ)
  | write (sectorNumber : ℤ) (data : Sector)

/-- Where a thread is in `ReadSector` or `WriteSector`. From the request on, `data` is the
buffer of the caller. -/
inductive Place
  | outside
  /-- at `lock->Acquire()` -/
  | acquire (request : Request)
  /-- asleep in `Acquire` -/
  | queued (request : Request)
  /-- at `disk->ReadRequest` or `disk->WriteRequest` -/
  | request (request : Request)
  /-- at the loop test of `semaphore->P()` -/
  | wait (request : Request) (data : Sector)
  /-- asleep in `P` -/
  | asleep (request : Request) (data : Sector)
  /-- at `lock->Release()` -/
  | release (request : Request) (data : Sector)
  /-- behind `Release` -/
  | ret (request : Request) (data : Sector)

inductive Event
  | issued (thread : Tid) (request : Request)
  | completed
  | returned (thread : Tid) (request : Request) (data : Sector)

/-- `log` is a history variable. -/
structure State where
  disk : Disk
  device : Device
  lock : Lock
  places : Tid → Place
  stop : Option Stop
  log : List Event

def create (disk : Disk) : State where
  disk := disk
  device := .create
  lock := .create
  places _ := .outside
  stop := none
  log := []

namespace State

variable (s : State)

def goto (t : Tid) (place : Place) : State :=
  { s with places := Function.update s.places t place }

def abort : State :=
  { s with stop := some .aborted }

/-- `Release` makes the thread the owner of the lock it waits for. -/
def grant : Option Tid → State
  | none => s
  | some t =>
      match s.places t with
      | .queued request => s.goto t (.request request)
      | _ => s

/-- `V` makes the thread ready; it tests again. -/
def wake : Option Tid → State
  | none => s
  | some t =>
      match s.places t with
      | .asleep request data => s.goto t (.wait request data)
      | _ => s

def acquire (t : Tid) (request : Request) : State :=
  match s.lock.acquire t with
  | (lock, true) => { s with lock := lock }.goto t (.request request)
  | (lock, false) => { s with lock := lock }.goto t (.queued request)

/-- `ReadRequest` and `WriteRequest` do their work on the file of the disk at once. -/
def issue (t : Tid) (request : Request) : State :=
  match s.device.request with
  | none => s.abort
  | some device =>
      let s' := { s with device := device, log := s.log ++ [Event.issued t request] }
      match request with
      | .read sectorNumber =>
          match s.disk.readSector sectorNumber with
          | .error _ => s.abort
          | .ok data => s'.goto t (.wait request data)
      | .write sectorNumber data =>
          match s.disk.writeSector sectorNumber data with
          | .error _ => s.abort
          | .ok disk => { s' with disk := disk }.goto t (.wait request data)

def wait (t : Tid) (request : Request) (data : Sector) : State :=
  match s.device.wait t with
  | (device, true) => { s with device := device }.goto t (.release request data)
  | (device, false) => { s with device := device }.goto t (.asleep request data)

def release (t : Tid) (request : Request) (data : Sector) : State :=
  { s.goto t (.ret request data) with lock := (s.lock.release t).1 }.grant (s.lock.release t).2

def interrupt : Option State :=
  s.device.interrupt.map fun (device, woken) =>
    { s with device := device, log := s.log ++ [Event.completed] }.wake woken

inductive Label
  | call (thread : Tid) (request : Request)
  | go (thread : Tid)
  | interrupt

def step (s : State) (label : Label) : Option State :=
  if s.stop.isSome then none
  else match label with
    | .interrupt => s.interrupt
    | .call t request =>
        match s.places t with
        | .outside => some (s.goto t (.acquire request))
        | _ => none
    | .go t =>
        match s.places t with
        | .acquire request => some (s.acquire t request)
        | .request request => some (s.issue t request)
        | .wait request data => some (s.wait t request data)
        | .release request data => some (s.release t request data)
        | .ret request data =>
            some ({ s with log := s.log ++ [Event.returned t request data] }.goto t .outside)
        | .outside | .queued _ | .asleep _ _ => none

end State

end SynchDisk

/-! ## The display -/

namespace SynchWrite

/-- The call `Write(from, numBytes)`. -/
structure Call where
  source : Bytes
  numBytes : ℤ

/-- The characters that the loop of `Write` sends. -/
def Call.chars (call : Call) : List Byte :=
  (List.range call.numBytes.toNat).map call.source

/-- Where a thread is in `Write`. -/
inductive Place
  | outside
  /-- at the loop test of `WLineBlock->P()` -/
  | line (call : Call)
  /-- asleep in `WLineBlock->P()` -/
  | lineAsleep (call : Call)
  /-- at `loop < numBytes` -/
  | loop (call : Call) (loop : ℕ)
  /-- at the loop test of `synchWriteAvail->P()` -/
  | wait (call : Call) (loop : ℕ)
  /-- asleep in `synchWriteAvail->P()` -/
  | asleep (call : Call) (loop : ℕ)

/-- `display` is what was written to the file of the display; `finished` is a history
variable. -/
structure State where
  display : List Byte
  device : Device
  lineBlock : Semaphore
  places : Tid → Place
  stop : Option Stop
  finished : List (Tid × Call)

def create : State where
  display := []
  device := .create
  lineBlock := .create 1
  places _ := .outside
  stop := none
  finished := []

namespace State

variable (s : State)

def goto (t : Tid) (place : Place) : State :=
  { s with places := Function.update s.places t place }

def abort : State :=
  { s with stop := some .aborted }

/-- `V` makes the thread ready; it tests again. -/
def wake : Option Tid → State
  | none => s
  | some t =>
      match s.places t with
      | .lineAsleep call => s.goto t (.line call)
      | .asleep call loop => s.goto t (.wait call loop)
      | _ => s

def enter (t : Tid) (call : Call) : State :=
  match s.lineBlock.p t with
  | (lineBlock, true) => { s with lineBlock := lineBlock }.goto t (.loop call 0)
  | (lineBlock, false) => { s with lineBlock := lineBlock }.goto t (.lineAsleep call)

def putChar (t : Tid) (call : Call) (loop : ℕ) : State :=
  match s.device.request with
  | none => s.abort
  | some device =>
      { s with device := device, display := s.display ++ [call.source loop] }.goto t
        (.wait call loop)

/-- `WLineBlock->V()`, with which the call is finished. -/
def leave (t : Tid) (call : Call) : State :=
  { s.goto t .outside with
    lineBlock := s.lineBlock.v.1
    finished := s.finished ++ [(t, call)] }.wake s.lineBlock.v.2

def wait (t : Tid) (call : Call) (loop : ℕ) : State :=
  match s.device.wait t with
  | (device, true) => { s with device := device }.goto t (.loop call (loop + 1))
  | (device, false) => { s with device := device }.goto t (.asleep call loop)

def interrupt : Option State :=
  s.device.interrupt.map fun (device, woken) => { s with device := device }.wake woken

inductive Label
  | call (thread : Tid) (call : Call)
  | go (thread : Tid)
  | interrupt

def step (s : State) (label : Label) : Option State :=
  if s.stop.isSome then none
  else match label with
    | .interrupt => s.interrupt
    | .call t call =>
        match s.places t with
        | .outside => some (s.goto t (.line call))
        | _ => none
    | .go t =>
        match s.places t with
        | .line call => some (s.enter t call)
        | .loop call loop =>
            some (if (loop : ℤ) < call.numBytes then s.putChar t call loop else s.leave t call)
        | .wait call loop => some (s.wait t call loop)
        | .outside | .lineAsleep _ | .asleep _ _ => none

end State

end SynchWrite

/-! ## The keyboard -/

namespace SynchRead

open SynchConsole

/-- The local variables of `Read`: `into` is the part of the buffer that is filled, so `loop`
is its length. -/
structure Reading where
  numBytes : ℤ
  into : List Byte
  ch : Byte
  eolncond : Bool

/-- `ch` is not initialised. -/
def Reading.start (numBytes : ℤ) (ch : Byte) : Reading :=
  ⟨numBytes, [], ch, false⟩

/-- What `Read` does with a character that is not `EOF`. -/
def Reading.put (r : Reading) (ch : Byte) : Reading :=
  if ch = newline ∨ ch = controlA then { r with ch := ch, eolncond := true }
  else { r with ch := ch, into := r.into ++ [ch] }

def Reading.result (r : Reading) : ℤ :=
  if r.ch = controlA then -1 else r.into.length

/-- Where a thread is in `Read`. -/
inductive Place
  | outside
  /-- at the loop test of `RLineBlock->P()` -/
  | line (r : Reading)
  /-- asleep in `RLineBlock->P()` -/
  | lineAsleep (r : Reading)
  /-- at `(loop < numBytes) && (eolncond == FALSE)` -/
  | loop (r : Reading)
  /-- at the loop test of `synchReadAvail->P()` -/
  | avail (r : Reading)
  /-- asleep in `synchReadAvail->P()` -/
  | availAsleep (r : Reading)
  /-- at `ch = cons->GetChar()` -/
  | getChar (r : Reading)

/-- `input` is what has not been read from the file of the keyboard; `finished` is a history
variable. -/
structure State where
  input : List Byte
  incoming : Byte
  readAvail : Semaphore
  lineBlock : Semaphore
  places : Tid → Place
  finished : List (Tid × Reading)

def create (stream : List Byte) : State where
  input := stream
  incoming := eof
  readAvail := .create 0
  lineBlock := .create 1
  places _ := .outside
  finished := []

namespace State

variable (s : State)

def goto (t : Tid) (place : Place) : State :=
  { s with places := Function.update s.places t place }

/-- `V` makes the thread ready; it tests again. -/
def wake : Option Tid → State
  | none => s
  | some t =>
      match s.places t with
      | .lineAsleep r => s.goto t (.line r)
      | .availAsleep r => s.goto t (.avail r)
      | _ => s

def enter (t : Tid) (r : Reading) : State :=
  match s.lineBlock.p t with
  | (lineBlock, true) => { s with lineBlock := lineBlock }.goto t (.loop r)
  | (lineBlock, false) => { s with lineBlock := lineBlock }.goto t (.lineAsleep r)

def wait (t : Tid) (r : Reading) : State :=
  match s.readAvail.p t with
  | (readAvail, true) => { s with readAvail := readAvail }.goto t (.getChar r)
  | (readAvail, false) => { s with readAvail := readAvail }.goto t (.availAsleep r)

/-- `GetChar`, and the loop around it that skips `EOF`. -/
def getChar (t : Tid) (r : Reading) : State :=
  let s' := { s with incoming := eof }
  if s.incoming = eof then s'.goto t (.avail { r with ch := eof })
  else s'.goto t (.loop (r.put s.incoming))

/-- `RLineBlock->V()`, with which the call is finished. -/
def leave (t : Tid) (r : Reading) : State :=
  { s.goto t .outside with
    lineBlock := s.lineBlock.v.1
    finished := s.finished ++ [(t, r)] }.wake s.lineBlock.v.2

/-- `CheckCharAvail`; `ready` is the answer of `PollFile` when there is something to read. -/
def poll (ready : Bool) : State :=
  match s.input with
  | [] => s
  | c :: input =>
      if s.incoming ≠ eof ∨ ready = false then s
      else { s with input := input, incoming := c, readAvail := s.readAvail.v.1 }.wake
        s.readAvail.v.2

inductive Label
  | call (thread : Tid) (numBytes : ℤ) (ch : Byte)
  | go (thread : Tid)
  | poll (ready : Bool)

def step (s : State) : Label → Option State
  | .poll ready => some (s.poll ready)
  | .call t numBytes ch =>
      match s.places t with
      | .outside => some (s.goto t (.line (.start numBytes ch)))
      | _ => none
  | .go t =>
      match s.places t with
      | .line r => some (s.enter t r)
      | .loop r =>
          some (if (r.into.length : ℤ) < r.numBytes ∧ r.eolncond = false then s.goto t (.avail r)
            else s.leave t r)
      | .avail r => some (s.wait t r)
      | .getChar r => some (s.getChar t r)
      | .outside | .lineAsleep _ | .availAsleep _ => none

end State

end SynchRead

end Nachos
