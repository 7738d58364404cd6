import Nachos.Model.Disk
import Nachos.Model.Synch

/-! # Mail between machines

`network/post.cc` over `machine/network.cc`, on any set of machines with any number of threads
each. `P`, `V`, `Acquire` and `Release` run with interrupts off, and `Network::Send` and
`Network::Receive` have no call inside them that enables them, so each is one step. What `new`
returns has any contents. -/

namespace Nachos.Post

/-! ## Headers in memory -/

abbrev NetworkAddress := Word
abbrev MailBoxAddress := Word

/-- `toAddr` and `fromAddr` are `to` and `from`. -/
structure PacketHeader where
  toAddr : NetworkAddress
  fromAddr : NetworkAddress
  length : Word
deriving DecidableEq, Repr

/-- `toBox` and `fromBox` are `to` and `from`. -/
structure MailHeader where
  toBox : MailBoxAddress
  fromBox : MailBoxAddress
  length : Word
deriving DecidableEq, Repr

def sizeofPacketHeader : ℕ := 12
def sizeofMailHeader : ℕ := 12
def maxWireSize : ℕ := 64
def maxPacketSize : ℕ := maxWireSize - sizeofPacketHeader
def maxMailSize : ℕ := maxPacketSize - sizeofMailHeader

/-- Three words in memory, as the headers are. -/
def threeWords (first second third : Word) : Bytes :=
  fun k => byteOf (if k < 4 then first else if k < 8 then second else third) (k % 4)

/-- `buffer + offset` -/
def behind (buffer : Bytes) (offset : ℕ) : Bytes :=
  fun k => buffer (offset + k)

namespace PacketHeader

def toBytes (hdr : PacketHeader) : Bytes :=
  threeWords hdr.toAddr hdr.fromAddr hdr.length

/-- `*(PacketHeader *)buffer` -/
def ofBytes (buffer : Bytes) : PacketHeader :=
  ⟨wordAt buffer 0, wordAt buffer 4, wordAt buffer 8⟩

end PacketHeader

namespace MailHeader

def toBytes (hdr : MailHeader) : Bytes :=
  threeWords hdr.toBox hdr.fromBox hdr.length

/-- `*(MailHeader *)buffer` -/
def ofBytes (buffer : Bytes) : MailHeader :=
  ⟨wordAt buffer 0, wordAt buffer 4, wordAt buffer 8⟩

end MailHeader

/-- `data` is the array from its start on, of which the first `maxMailSize` bytes are there. -/
structure Mail where
  pktHdr : PacketHeader
  mailHdr : MailHeader
  data : Bytes

/-- `Mail::Mail`, with the contents of the new array; `none` when the ASSERT fails. -/
def Mail.create (pktH : PacketHeader) (mailH : MailHeader) (msgData data : Bytes) :
    Option Mail :=
  if mailH.length.toNat ≤ maxMailSize then
    some ⟨pktH, mailH, bcopy msgData data 0 mailH.length.toNat⟩
  else none

/-- A datagram. -/
abbrev Packet := Fin maxWireSize → Byte

namespace Packet

/-- What `SendToSocket` takes from the buffer. -/
def ofBuffer (buffer : Bytes) : Packet :=
  fun k => buffer k

/-- The buffer after `ReadFromSocket`. -/
def read (packet : Packet) (buffer : Bytes) : Bytes :=
  fun k => if h : k < maxWireSize then packet ⟨k, h⟩ else buffer k

end Packet

/-! ## One machine -/

/-- The call `PostOffice::Send(pktHdr, mailHdr, data)`. -/
structure Call where
  pktHdr : PacketHeader
  mailHdr : MailHeader
  data : Bytes

/-- The call and the local variables of `Send`. -/
structure Outgoing where
  call : Call
  pktHdr : PacketHeader
  buffer : Bytes

/-- Where a thread is in `PostOffice::Send`, in `PostOffice::Receive` or, for the postal
worker, in `PostalDelivery`. -/
inductive Place
  | outside
  /-- at `sendLock->Acquire()` -/
  | acquire (o : Outgoing)
  /-- asleep in `sendLock->Acquire()` -/
  | queued (o : Outgoing)
  /-- at `network->Send` -/
  | send (o : Outgoing)
  /-- at the loop test of `messageSent->P()` -/
  | wait
  /-- asleep in `messageSent->P()` -/
  | asleep
  /-- at `sendLock->Release()` -/
  | release
  /-- at the `lock->Acquire()` of `Remove` -/
  | getAcquire (box : MailBoxAddress)
  /-- asleep in it -/
  | getQueued (box : MailBoxAddress)
  /-- at `list->IsEmpty()` -/
  | remove (box : MailBoxAddress)
  /-- at the `lock->Release()` of `Remove` -/
  | getRelease (box : MailBoxAddress) (mail : Mail)
  /-- behind it -/
  | got (mail : Mail)
  /-- at the loop test of `messageAvailable->P()` -/
  | available
  /-- asleep in `messageAvailable->P()` -/
  | availableAsleep
  /-- at `network->Receive` -/
  | receive
  /-- at the `lock->Acquire()` of `Append` -/
  | putAcquire (mail : Mail)
  /-- asleep in it -/
  | putQueued (mail : Mail)
  /-- at `list->Append` -/
  | append (mail : Mail)
  /-- at the `lock->Release()` of `Append` -/
  | putRelease (box : MailBoxAddress)

/-- The `SynchList` of a mail box; `put` is a history variable. -/
structure MailBox where
  list : List Mail
  lock : Lock
  put : List Mail

def MailBox.create : MailBox :=
  ⟨[], .create, []⟩

/-- The thread that runs `PostalDelivery`. -/
def postalWorker : Tid := 0

/-- The Nachos that has an address, with its `Network` and its `PostOffice`. `up` is false when
there is none or an ASSERT has failed, `scheduled` is the number of `NetworkSendDone` interrupts
that are scheduled, and `buffer` is that of the postal worker. -/
structure Host where
  up : Bool
  sendBusy : Bool
  scheduled : ℕ
  socket : List Packet
  inHdr : PacketHeader
  inbox : Bytes
  numBoxes : ℤ
  boxes : MailBoxAddress → MailBox
  messageAvailable : Semaphore
  messageSent : Semaphore
  sendLock : Lock
  buffer : Bytes
  places : Tid → Place

/-- Except for its length, `inHdr` is not initialised, nor are `inbox` and `buffer`. -/
def Host.create (up : Bool) (numBoxes : ℤ) (inHdr : PacketHeader) (inbox buffer : Bytes) :
    Host where
  up := up
  sendBusy := false
  scheduled := 0
  socket := []
  inHdr := { inHdr with length := 0#32 }
  inbox := inbox
  numBoxes := numBoxes
  boxes _ := .create
  messageAvailable := .create 0
  messageSent := .create 0
  sendLock := .create
  buffer := buffer
  places t := if t = postalWorker then .available else .outside

namespace Host

variable (h : Host)

def goto (t : Tid) (place : Place) : Host :=
  { h with places := Function.update h.places t place }

def abort : Host :=
  { h with up := false }

/-- `V` makes the thread ready; it tests again. -/
def wake : Option Tid → Host
  | none => h
  | some t =>
      match h.places t with
      | .asleep => h.goto t .wait
      | .availableAsleep => h.goto t .available
      | _ => h

/-- `Release` makes the thread the owner of the lock it waits for. -/
def grant : Option Tid → Host
  | none => h
  | some t =>
      match h.places t with
      | .queued o => h.goto t (.send o)
      | .getQueued box => h.goto t (.remove box)
      | .putQueued mail => h.goto t (.append mail)
      | _ => h

/-! ### `machine/network.cc` -/

/-- `CheckPktAvail` with `IncomingPacket`; `ready` is the answer of `PollSocket` when there is
a packet. -/
def checkPktAvail (ident : NetworkAddress) (ready : Bool) (buffer : Bytes) : Host :=
  if h.inHdr.length ≠ 0#32 then h
  else match h.socket with
  | [] => h
  | packet :: socket =>
      if ready = false then h
      else
        let buffer := packet.read buffer
        let inHdr := PacketHeader.ofBytes buffer
        if inHdr.toAddr = ident ∧ inHdr.length.toNat ≤ maxPacketSize then
          { h with
            socket := socket
            inHdr := inHdr
            inbox := bcopy (behind buffer sizeofPacketHeader) h.inbox 0 inHdr.length.toNat
            messageAvailable := h.messageAvailable.v.1 }.wake h.messageAvailable.v.2
        else h.abort

/-- `SendDone` with `PacketSent`. -/
def sendDone : Option Host :=
  if h.scheduled = 0 then none
  else some ({ h with
    sendBusy := false
    scheduled := h.scheduled - 1
    messageSent := h.messageSent.v.1 }.wake h.messageSent.v.2)

/-! ### `PostOffice::Send` -/

/-- Up to `sendLock->Acquire()`. -/
def start (netAddr : NetworkAddress) (t : Tid) (call : Call) (buffer : Bytes) : Host :=
  let mailHdr := call.mailHdr
  if mailHdr.length.toNat ≤ maxMailSize ∧ 0 ≤ mailHdr.toBox.toInt ∧
      mailHdr.toBox.toInt < h.numBoxes then
    h.goto t (.acquire {
      call := call
      pktHdr := { call.pktHdr with
        fromAddr := netAddr
        length := mailHdr.length + BitVec.ofNat 32 sizeofMailHeader }
      buffer := bcopy call.data (bcopy mailHdr.toBytes buffer 0 sizeofMailHeader)
        sizeofMailHeader mailHdr.length.toNat })
  else h.abort

def acquire (t : Tid) (o : Outgoing) : Host :=
  match h.sendLock.acquire t with
  | (lock, true) => { h with sendLock := lock }.goto t (.send o)
  | (lock, false) => { h with sendLock := lock }.goto t (.queued o)

def wait (t : Tid) : Host :=
  match h.messageSent.p t with
  | (messageSent, true) => { h with messageSent := messageSent }.goto t .release
  | (messageSent, false) => { h with messageSent := messageSent }.goto t .asleep

def release (t : Tid) : Host :=
  { h.goto t .outside with sendLock := (h.sendLock.release t).1 }.grant (h.sendLock.release t).2

/-! ### The mail boxes -/

def setBox (box : MailBoxAddress) (mailBox : MailBox) : Host :=
  { h with boxes := Function.update h.boxes box mailBox }

def acquireBox (t : Tid) (box : MailBoxAddress) (inside queued : Place) : Host :=
  match (h.boxes box).lock.acquire t with
  | (lock, true) => (h.setBox box { h.boxes box with lock := lock }).goto t inside
  | (lock, false) => (h.setBox box { h.boxes box with lock := lock }).goto t queued

def releaseBox (t : Tid) (box : MailBoxAddress) (place : Place) : Host :=
  ((h.setBox box { h.boxes box with lock := ((h.boxes box).lock.release t).1 }).goto t
    place).grant ((h.boxes box).lock.release t).2

/-- `list->Append(item)`; `Signal` does nothing. -/
def append (t : Tid) (mail : Mail) : Host :=
  let box := mail.mailHdr.toBox
  (h.setBox box { h.boxes box with
    list := (h.boxes box).list ++ [mail]
    put := (h.boxes box).put ++ [mail] }).goto t (.putRelease box)

/-- `Wait`, when the list is empty, is `ASSERT(FALSE)`. -/
def remove (t : Tid) (box : MailBoxAddress) : Host :=
  match (h.boxes box).list with
  | [] => h.abort
  | mail :: list =>
      (h.setBox box { h.boxes box with list := list }).goto t (.getRelease box mail)

/-- `PostOffice::Receive` up to the call of `Get`. -/
def startReceive (t : Tid) (box : MailBoxAddress) : Host :=
  if 0 ≤ box.toInt ∧ box.toInt < h.numBoxes then h.goto t (.getAcquire box) else h.abort

/-- The rest of `Get` and `Receive`, with the last ASSERT. -/
def got (t : Tid) (mail : Mail) : Host :=
  if mail.mailHdr.length.toNat ≤ maxMailSize then h.goto t .outside else h.abort

/-! ### The postal worker -/

def available (t : Tid) : Host :=
  match h.messageAvailable.p t with
  | (messageAvailable, true) =>
      { h with messageAvailable := messageAvailable }.goto t .receive
  | (messageAvailable, false) =>
      { h with messageAvailable := messageAvailable }.goto t .availableAsleep

/-- `Network::Receive`: the header, and what is then in the buffer of the worker. -/
def networkReceive : PacketHeader × Host :=
  (h.inHdr, { h with
    inHdr := { h.inHdr with length := 0#32 }
    buffer := if h.inHdr.length ≠ 0#32 then bcopy h.inbox h.buffer 0 h.inHdr.length.toNat
      else h.buffer })

/-- From `network->Receive` to the `Mail` that `Put` makes, in the new memory `data`. -/
def receive (t : Tid) (data : Bytes) : Host :=
  let (pktHdr, h') := h.networkReceive
  let mailHdr := MailHeader.ofBytes h'.buffer
  if 0 ≤ mailHdr.toBox.toInt ∧ mailHdr.toBox.toInt < h.numBoxes ∧
      mailHdr.length.toNat ≤ maxMailSize then
    match Mail.create pktHdr mailHdr (behind h'.buffer sizeofMailHeader) data with
    | some mail => h'.goto t (.putAcquire mail)
    | none => h.abort
  else h.abort

/-! ### Steps -/

/-- What happens on one machine: a call, the next step of a thread, and the interrupts.
`buffer` and `data` are new memory, and a packet that is `lost` is one that `Random` drops. -/
inductive Action
  | call (thread : Tid) (call : Call) (buffer : Bytes)
  | receive (thread : Tid) (box : MailBoxAddress)
  | go (thread : Tid) (data : Bytes)
  | send (thread : Tid) (lost : Bool) (buffer : Bytes)
  | poll (ready : Bool) (buffer : Bytes)
  | sendDone

/-- The steps other than `network->Send`. -/
def step (addr : NetworkAddress) : Action → Option Host
  | .call t call buffer =>
      match h.places t with
      | .outside => some (h.start addr t call buffer)
      | _ => none
  | .receive t box =>
      match h.places t with
      | .outside => some (h.startReceive t box)
      | _ => none
  | .go t data =>
      match h.places t with
      | .acquire o => some (h.acquire t o)
      | .wait => some (h.wait t)
      | .release => some (h.release t)
      | .getAcquire box => some (h.acquireBox t box (.remove box) (.getQueued box))
      | .remove box => some (h.remove t box)
      | .getRelease box mail => some (h.releaseBox t box (.got mail))
      | .got mail => some (h.got t mail)
      | .available => some (h.available t)
      | .receive => some (h.receive t data)
      | .putAcquire mail =>
          some (h.acquireBox t mail.mailHdr.toBox (.append mail) (.putQueued mail))
      | .append mail => some (h.append t mail)
      | .putRelease box => some (h.releaseBox t box .available)
      | .outside | .queued _ | .send _ | .asleep | .getQueued _ | .availableAsleep
      | .putQueued _ => none
  | .send _ _ _ => none
  | .poll ready buffer => some (h.checkPktAvail addr ready buffer)
  | .sendDone => h.sendDone

end Host

/-! ## All machines -/

/-- A call of `Network::Send`, by the machine it was made on and the call of
`PostOffice::Send` it was made for. -/
structure Sent where
  sender : NetworkAddress
  call : Call

/-- `sent` is a history variable. -/
structure Net where
  hosts : NetworkAddress → Host
  sent : List Sent

namespace Net

/-- No address has more than one machine. -/
def start (hosts : NetworkAddress → Host) : Net :=
  ⟨hosts, []⟩

variable (net : Net)

def set (addr : NetworkAddress) (h : Host) : Net :=
  { net with hosts := Function.update net.hosts addr h }

/-- `SendToSocket`, which aborts when no socket has the name. -/
def sendTo (addr toAddr : NetworkAddress) (packet : Packet) : Net :=
  let h := net.hosts toAddr
  if h.up then net.set toAddr { h with socket := h.socket ++ [packet] }
  else net.set addr (net.hosts addr).abort

/-- `Network::Send` -/
def send (addr : NetworkAddress) (t : Tid) (o : Outgoing) (lost : Bool) (buffer : Bytes) :
    Net :=
  let h := net.hosts addr
  let hdr := o.pktHdr
  if h.sendBusy = false ∧ 0 < hdr.length.toNat ∧ hdr.length.toNat ≤ maxPacketSize ∧
      hdr.fromAddr = addr then
    let net' := { net.set addr ({ h with scheduled := h.scheduled + 1 }.goto t .wait) with
      sent := net.sent ++ [⟨addr, o.call⟩] }
    if lost then net'
    else net'.sendTo addr hdr.toAddr (.ofBuffer (bcopy o.buffer
      (bcopy hdr.toBytes buffer 0 sizeofPacketHeader) sizeofPacketHeader hdr.length.toNat))
  else net.set addr h.abort

/-- A step on the machine at the address. -/
def step (label : NetworkAddress × Host.Action) : Option Net :=
  let (addr, action) := label
  let h := net.hosts addr
  if h.up = false then none
  else match action with
  | .send t lost buffer =>
      match h.places t with
      | .send o => some (net.send addr t o lost buffer)
      | _ => none
  | action => (h.step addr action).map (net.set addr)

end Net

end Nachos.Post
