import Nachos.Model.Machine

/-! # The synchronous console (`threads/synchcons.cc`), as seen by one call

The input is the sequence of bytes that will ever be typed; a `Read` that needs more of
them waits for ever. Output is the sequence of bytes sent to the display. -/

namespace Nachos

structure SynchConsole where
  input : List Byte
  output : List Byte
deriving DecidableEq, Repr

namespace SynchConsole

def newline : Byte := 10#8
def controlA : Byte := 1#8
/-- `EOF` as a `char`; the loop of `Read` skips it. -/
def eof : Byte := 255#8

/-- What the loop of `Read` leaves: the bytes put into the buffer, the last character
fetched (`ch`) and the input that remains. -/
structure Line where
  stored : List Byte
  last : Byte
  rest : List Byte
deriving DecidableEq, Repr

/-- The `while` loop of `Read` with `room` bytes left in the buffer; `ch` is the value of
the local variable. `none`: the input ends and the call waits for ever. -/
def readLoop (room : ℕ) (ch : Byte) : List Byte → Option Line
  | [] => if room = 0 then some ⟨[], ch, []⟩ else none
  | c :: input =>
      if room = 0 then some ⟨[], ch, c :: input⟩
      else if c = eof then readLoop room c input
      else if c = newline || c = controlA then some ⟨[], c, input⟩
      else (readLoop (room - 1) c input).map fun line => { line with stored := c :: line.stored }

/-- `Read(into, numBytes)`. The buffer is filled with zeros first, so `into` holds
`line.stored` followed by zeros. The count is `-1` when the last character fetched was
control-A; `ch` is the value of the uninitialised local variable. -/
def read (c : SynchConsole) (ch : Byte) (numBytes : ℤ) :
    Option (ℤ × List Byte × SynchConsole) :=
  (readLoop numBytes.toNat ch c.input).map fun line =>
    (if line.last = controlA then -1 else line.stored.length, line.stored,
      { c with input := line.rest })

def write (c : SynchConsole) (bytes : List Byte) : SynchConsole :=
  { c with output := c.output ++ bytes }

end SynchConsole

end Nachos
