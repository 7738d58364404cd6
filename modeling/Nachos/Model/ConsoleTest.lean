import Nachos.Model.Drivers

/-! # The console test (`ConsoleTest` of `userprog/progtest.cc`)

One thread echoes what is typed, over `machine/console.cc`: the keyboard is polled, and a
character that was put on the display is reported by an interrupt. `P` and `V` run with
interrupts off, so each is one step, and an interrupt may come between any two. -/

namespace Nachos.ConsoleTest

open SynchConsole

def quit : Byte := 113#8

/-- Where the thread is in the loop of `ConsoleTest`. -/
inductive Place
  /-- at the loop test of `readAvail->P()` -/
  | avail
  /-- asleep in `readAvail->P()` -/
  | availAsleep
  /-- at `ch = console->GetChar()` -/
  | getChar
  /-- at `console->PutChar(ch)` -/
  | putChar (ch : Byte)
  /-- at the loop test of `writeDone->P()` -/
  | wait (ch : Byte)
  /-- asleep in `writeDone->P()` -/
  | asleep (ch : Byte)
  /-- at `if (ch == 'q')` -/
  | test (ch : Byte)
  | returned
deriving DecidableEq, Repr

/-- `input` is what has not been read from the file of the keyboard, `incoming` the buffer of
the console, and `display` what was written to the file of the display; `device` has `putBusy`
and `writeDone`. -/
structure State where
  input : List Byte
  incoming : Byte
  readAvail : Semaphore
  display : List Byte
  device : Device
  place : Place
  stop : Option Stop
deriving DecidableEq, Repr

def create (stream : List Byte) : State where
  input := stream
  incoming := eof
  readAvail := .create 0
  display := []
  device := .create
  place := .avail
  stop := none

/-- The thread that runs `ConsoleTest`. -/
def main : Tid := 0

namespace State

variable (s : State)

/-- `V` makes the thread ready; it tests again. -/
def wake : Option Tid → State
  | none => s
  | some _ =>
      match s.place with
      | .availAsleep => { s with place := .avail }
      | .asleep ch => { s with place := .wait ch }
      | _ => s

def avail : State :=
  match s.readAvail.p main with
  | (readAvail, true) => { s with readAvail := readAvail, place := .getChar }
  | (readAvail, false) => { s with readAvail := readAvail, place := .availAsleep }

def getChar : State :=
  { s with incoming := eof, place := .putChar s.incoming }

/-- `WriteFile` puts the character on the display at once. -/
def putChar (ch : Byte) : State :=
  match s.device.request with
  | none => { s with stop := some .aborted }
  | some device => { s with device := device, display := s.display ++ [ch], place := .wait ch }

def wait (ch : Byte) : State :=
  match s.device.wait main with
  | (device, true) => { s with device := device, place := .test ch }
  | (device, false) => { s with device := device, place := .asleep ch }

/-- `CheckCharAvail` with `ReadAvail`; `ready` is the answer of `PollFile` when there is
something to read. -/
def poll (ready : Bool) : State :=
  match s.input with
  | [] => s
  | c :: input =>
      if s.incoming ≠ eof ∨ ready = false then s
      else { s with input := input, incoming := c, readAvail := s.readAvail.v.1 }.wake
        s.readAvail.v.2

/-- `WriteDone` of the console with that of the test. -/
def interrupt : Option State :=
  s.device.interrupt.map fun (device, woken) => { s with device := device }.wake woken

inductive Label
  | go
  | poll (ready : Bool)
  | interrupt

def step (s : State) (label : Label) : Option State :=
  if s.stop.isSome then none
  else match label with
    | .poll ready => some (s.poll ready)
    | .interrupt => s.interrupt
    | .go =>
        match s.place with
        | .avail => some s.avail
        | .getChar => some s.getChar
        | .putChar ch => some (s.putChar ch)
        | .wait ch => some (s.wait ch)
        | .test ch => some { s with place := if ch = quit then .returned else .avail }
        | .availAsleep | .asleep _ | .returned => none

end State

end Nachos.ConsoleTest
