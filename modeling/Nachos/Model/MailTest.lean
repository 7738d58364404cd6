import Nachos.Model.Exception
import Nachos.Model.Network

/-! # The network test (`network/nettest.cc`)

`MailTest` on any set of machines, each with the thread that runs it and its postal worker. It
is what the thread does between its calls of the post office; the calls are those of
`network/post.cc`, step by step. -/

namespace Nachos.Post.MailTest

/-- The thread that runs `MailTest`. -/
def main : Tid := 1

/-- The characters of a string constant, with the NUL. -/
def constant (s : String) : List Byte :=
  chars s ++ [0#8]

def data : List Byte := constant "Hello there!"
def ack : List Byte := constant "Got it!"

/-- What `printf("Got \"%s\" from %d, box %d\n", ...)` is given. -/
structure Line where
  text : List Byte
  fromAddr : NetworkAddress
  fromBox : MailBoxAddress
deriving DecidableEq, Repr

/-- Where `MailTest` is: in front of its first call, in one of the four calls, or behind them. -/
inductive Stage
  | start
  | sending
  | receiving
  | acking
  | waiting
  | halted
deriving DecidableEq, Repr

/-- The local variables of `MailTest`, and what it has printed. -/
structure Test where
  farAddr : NetworkAddress
  stage : Stage
  outPktHdr : PacketHeader
  outMailHdr : MailHeader
  inPktHdr : PacketHeader
  inMailHdr : MailHeader
  buffer : Bytes
  printed : List Line

namespace Test

/-- Nothing is initialised but `farAddr`. -/
def create (farAddr : NetworkAddress) (outPktHdr inPktHdr : PacketHeader)
    (outMailHdr inMailHdr : MailHeader) (buffer : Bytes) : Test :=
  ⟨farAddr, .start, outPktHdr, outMailHdr, inPktHdr, inMailHdr, buffer, []⟩

variable (test : Test)

/-- What `Get` copies out. -/
def receive (mail : Mail) : Test :=
  { test with
    inPktHdr := mail.pktHdr
    inMailHdr := mail.mailHdr
    buffer := bcopy mail.data test.buffer 0 mail.mailHdr.length.toNat }

/-- The string in the array `buffer`. -/
def text : List Byte :=
  ((List.range maxMailSize).map test.buffer).takeWhile (· ≠ 0#8)

def print : Test :=
  { test with printed := test.printed ++
    [⟨test.text, test.inPktHdr.fromAddr, test.inMailHdr.fromBox⟩] }

/-- The headers of the original message. -/
def original : Test :=
  { test with
    outPktHdr := { test.outPktHdr with toAddr := test.farAddr }
    outMailHdr := ⟨0#32, 1#32, BitVec.ofNat 32 data.length⟩ }

/-- The headers of the acknowledgment. -/
def reply : Test :=
  { test with
    outPktHdr := { test.outPktHdr with toAddr := test.inPktHdr.fromAddr }
    outMailHdr := { test.outMailHdr with
      toBox := test.inMailHdr.fromBox
      length := BitVec.ofNat 32 ack.length } }

def call (constant : List Byte) : Call :=
  ⟨test.outPktHdr, test.outMailHdr, fun k => constant.getD k 0#8⟩

/-- Up to the next call of the post office, or up to `Halt` (`none`). -/
def next (buffer : Bytes) : Option (Test × Option Host.Action) :=
  match test.stage with
  | .start =>
      let test := { test.original with stage := .sending }
      some (test, some (.call main (test.call data) buffer))
  | .sending => some ({ test with stage := .receiving }, some (.receive main 0#32))
  | .receiving =>
      let test := { test.print.reply with stage := .acking }
      some (test, some (.call main (test.call ack) buffer))
  | .acking => some ({ test with stage := .waiting }, some (.receive main 1#32))
  | .waiting => some ({ test.print with stage := .halted }, none)
  | .halted => none

end Test

structure State where
  net : Net
  tests : NetworkAddress → Test

namespace State

variable (s : State)

def setTest (addr : NetworkAddress) (test : Test) : State :=
  { s with tests := Function.update s.tests addr test }

/-- `MailTest` goes on when the call it was in has returned. -/
def next (addr : NetworkAddress) (buffer : Bytes) : Option State :=
  match (s.net.hosts addr).up, (s.net.hosts addr).places main, (s.tests addr).next buffer with
  | true, .outside, some (test, some action) =>
      (s.net.step (addr, action)).map fun net => { s with net := net }.setTest addr test
  | true, .outside, some (test, none) =>
      let h := s.net.hosts addr
      some ({ s with net := s.net.set addr { h with up := false } }.setTest addr test)
  | _, _, _ => none

/-- A step behind which the call of `Receive` returns has copied the mail out. -/
def copyOut (addr : NetworkAddress) (action : Host.Action) : State :=
  match action, (s.net.hosts addr).places main with
  | .go t _, .got mail => if t = main then s.setTest addr ((s.tests addr).receive mail) else s
  | _, _ => s

inductive Action
  | next (buffer : Bytes)
  | net (action : Host.Action)

/-- No other thread calls the post office. -/
def step (label : NetworkAddress × Action) : Option State :=
  match label with
  | (addr, .next buffer) => s.next addr buffer
  | (_, .net (.call _ _ _)) => none
  | (_, .net (.receive _ _)) => none
  | (addr, .net action) =>
      (s.net.step (addr, action)).map fun net => { s.copyOut addr action with net := net }

end State

/-- The machines at the start of their tests. -/
def boot (net : Net) (farAddr : NetworkAddress → NetworkAddress)
    (outPktHdr inPktHdr : NetworkAddress → PacketHeader)
    (outMailHdr inMailHdr : NetworkAddress → MailHeader) (buffer : NetworkAddress → Bytes) :
    State where
  net := net
  tests addr := .create (farAddr addr) (outPktHdr addr) (inPktHdr addr) (outMailHdr addr)
    (inMailHdr addr) (buffer addr)

end Nachos.Post.MailTest
