import Nachos.Library.Channels
import Nachos.Library.Runs
import Nachos.Verification.Network.Headers

/-! # Mail arrives in order

Between the socket and the box, a letter is in the device or in the hand of the postal worker.
The device is read only when it is empty, and the token of `messageAvailable` is there, or the
worker has it, exactly while the device is full: no letter is overwritten and none is taken
twice. -/

namespace Nachos.Post

open Channels Runs

/-! ## The postal worker -/

inductive Stage
  | other
  | idle
  | receiving
  | holding (mail : Mail)

namespace Place

/-- What the postal worker has to do; `other` at the places of the other threads. -/
def stage : Place → Stage
  | .available | .availableAsleep | .putRelease _ => .idle
  | .receive => .receiving
  | .putAcquire mail | .putQueued mail | .append mail => .holding mail
  | _ => .other

/-- A thread that is going to send has the packet of its call. -/
def Ok (addr : NetworkAddress) : Place → Prop
  | .acquire o | .queued o | .send o => o.Ok addr
  | _ => True

end Place

/-- The letter in the hand of the worker. -/
def Stage.hand : Stage → List Letter
  | .holding mail => [mail.letter]
  | _ => []

/-- The worker has taken the token of the letter in the device. -/
def Stage.token : Stage → ℕ
  | .receiving => 1
  | _ => 0

def Packet.letter (packet : Packet) : Letter :=
  letterIn packet.hdr packet.payload

namespace Host

/-- The letter in the device. -/
def buffered (h : Host) : List Letter :=
  if h.inHdr.length = 0#32 then [] else [letterIn h.inHdr h.inbox]

/-- The letters that have arrived and are not in a box, the first one first. -/
def transit (h : Host) : List Letter :=
  (h.places postalWorker).stage.hand ++ h.buffered ++ h.socket.map Packet.letter

/-- The letters that were put into a box. -/
def put (h : Host) (box : MailBoxAddress) : List Letter :=
  (h.boxes box).put.map Mail.letter

/-- Nothing has happened to the mail. -/
structure Same (addr : NetworkAddress) (h h' : Host) : Prop where
  stage : ∀ t, (h'.places t).stage = (h.places t).stage
  ok : ∀ t, (h.places t).Ok addr → (h'.places t).Ok addr
  put : ∀ box, (h'.boxes box).put = (h.boxes box).put
  inHdr : h'.inHdr = h.inHdr
  inbox : h'.inbox = h.inbox
  socket : h'.socket = h.socket
  value : h'.messageAvailable.value = h.messageAvailable.value

structure Inv (addr : NetworkAddress) (h : Host) : Prop where
  ok : ∀ t, (h.places t).Ok addr
  worker : ∀ t, (h.places t).stage ≠ .other → t = postalWorker
  token : h.messageAvailable.value + (h.places postalWorker).stage.token =
    if h.inHdr.length = 0#32 then 0 else 1
  inbox : h.inHdr.length ≠ 0#32 → Sound h.inHdr h.inbox
  socket : ∀ packet ∈ h.socket, Sound packet.hdr packet.payload

/-- What a step on the machine does to its mail: letters go on towards the boxes. -/
structure Advances (addr : NetworkAddress) (h h' : Host) : Prop where
  inv : h'.Inv addr
  routed : ∀ sent, Routed Letter.box sent h.transit h.put →
    Routed Letter.box sent h'.transit h'.put

variable {addr : NetworkAddress} {h h' h'' : Host} {t : Tid} {old place : Place}

/-! ## Steps that leave the mail alone -/

namespace Same

theorem refl (addr : NetworkAddress) (h : Host) : Same addr h h :=
  ⟨fun _ => rfl, fun _ => id, fun _ => rfl, rfl, rfl, rfl, rfl⟩

theorem trans (hab : Same addr h h') (hbc : Same addr h' h'') : Same addr h h'' where
  stage t := (hbc.stage t).trans (hab.stage t)
  ok t hok := hbc.ok t (hab.ok t hok)
  put box := (hbc.put box).trans (hab.put box)
  inHdr := hbc.inHdr.trans hab.inHdr
  inbox := hbc.inbox.trans hab.inbox
  socket := hbc.socket.trans hab.socket
  value := hbc.value.trans hab.value

theorem inv (hsame : Same addr h h') (hinv : h.Inv addr) : h'.Inv addr where
  ok t := hsame.ok t (hinv.ok t)
  worker t := by
    rw [hsame.stage t]
    exact hinv.worker t
  token := by
    rw [hsame.value, hsame.stage, hsame.inHdr]
    exact hinv.token
  inbox := by
    rw [hsame.inHdr, hsame.inbox]
    exact hinv.inbox
  socket := by
    rw [hsame.socket]
    exact hinv.socket

theorem transit (hsame : Same addr h h') : h'.transit = h.transit := by
  unfold Host.transit buffered
  rw [hsame.stage, hsame.inHdr, hsame.inbox, hsame.socket]

theorem put_eq (hsame : Same addr h h') : h'.put = h.put := by
  funext box
  unfold Host.put
  rw [hsame.put]

theorem advances (hsame : Same addr h h') (hinv : h.Inv addr) : Advances addr h h' where
  inv := hsame.inv hinv
  routed sent hrouted := by
    rw [hsame.transit, hsame.put_eq]
    exact hrouted

end Same

theorem same_goto (h : Host) (hold : h.places t = old) (hstage : place.stage = old.stage)
    (hok : old.Ok addr → place.Ok addr) : Same addr h (h.goto t place) where
  stage := (Function.forall_update_iff h.places
    fun u p => p.stage = (h.places u).stage).mpr ⟨by rw [hold, hstage], fun _ _ => rfl⟩
  ok := (Function.forall_update_iff h.places
    fun u p => (h.places u).Ok addr → p.Ok addr).mpr ⟨by rwa [hold], fun _ _ => id⟩
  put _ := rfl
  inHdr := rfl
  inbox := rfl
  socket := rfl
  value := rfl

theorem same_abort (addr : NetworkAddress) (h : Host) : Same addr h h.abort :=
  ⟨fun _ => rfl, fun _ => id, fun _ => rfl, rfl, rfl, rfl, rfl⟩

theorem same_wake (addr : NetworkAddress) (h : Host) (woken : Option Tid) :
    Same addr h (h.wake woken) := by
  cases woken with
  | none => exact .refl addr h
  | some t =>
      unfold wake
      dsimp only
      split
      · rename_i hplace
        exact same_goto h hplace rfl fun _ => trivial
      · rename_i hplace
        exact same_goto h hplace rfl fun _ => trivial
      · exact .refl addr h

theorem same_grant (addr : NetworkAddress) (h : Host) (woken : Option Tid) :
    Same addr h (h.grant woken) := by
  cases woken with
  | none => exact .refl addr h
  | some t =>
      unfold grant
      dsimp only
      split
      · rename_i o hplace
        exact same_goto h hplace rfl id
      · rename_i box hplace
        exact same_goto h hplace rfl fun _ => trivial
      · rename_i mail hplace
        exact same_goto h hplace rfl fun _ => trivial
      · exact .refl addr h

theorem same_setBox (addr : NetworkAddress) (h : Host) {box : MailBoxAddress} {mailBox : MailBox}
    (hput : mailBox.put = (h.boxes box).put) : Same addr h (h.setBox box mailBox) where
  stage _ := rfl
  ok _ := id
  put := (Function.forall_update_iff h.boxes
    fun b mailBox => mailBox.put = (h.boxes b).put).mpr ⟨hput, fun _ _ => rfl⟩
  inHdr := rfl
  inbox := rfl
  socket := rfl
  value := rfl

theorem same_start (hplace : h.places t = .outside) (call : Call) (buffer : Bytes) :
    Same addr h (h.start addr t call buffer) := by
  unfold start
  dsimp only
  split
  · rename_i hrange
    exact same_goto h hplace rfl fun _ => ok_start addr call buffer hrange.1
  · exact same_abort addr h

theorem same_startReceive (hplace : h.places t = .outside) (box : MailBoxAddress) :
    Same addr h (h.startReceive t box) := by
  unfold startReceive
  split
  · exact same_goto h hplace rfl fun _ => trivial
  · exact same_abort addr h

theorem same_acquire {o : Outgoing} (hplace : h.places t = .acquire o) :
    Same addr h (h.acquire t o) := by
  have hlock (lock : Lock) : Same addr h { h with sendLock := lock } :=
    ⟨fun _ => rfl, fun _ => id, fun _ => rfl, rfl, rfl, rfl, rfl⟩
  unfold acquire
  split
  · exact (hlock _).trans (same_goto _ hplace rfl id)
  · exact (hlock _).trans (same_goto _ hplace rfl id)

theorem same_wait (hplace : h.places t = .wait) : Same addr h (h.wait t) := by
  have hsent (messageSent : Semaphore) : Same addr h { h with messageSent := messageSent } :=
    ⟨fun _ => rfl, fun _ => id, fun _ => rfl, rfl, rfl, rfl, rfl⟩
  unfold wait
  split
  · exact (hsent _).trans (same_goto _ hplace rfl fun _ => trivial)
  · exact (hsent _).trans (same_goto _ hplace rfl fun _ => trivial)

theorem same_release (hplace : h.places t = .release) : Same addr h (h.release t) := by
  have hgoto : Same addr h (h.goto t .outside) :=
    same_goto h hplace rfl fun _ => trivial
  refine (hgoto.trans ?_).trans (same_grant addr _ _)
  exact ⟨fun _ => rfl, fun _ => id, fun _ => rfl, rfl, rfl, rfl, rfl⟩

theorem same_lockBox (addr : NetworkAddress) (h : Host) (box : MailBoxAddress) (lock : Lock) :
    Same addr h (h.setBox box { h.boxes box with lock := lock }) :=
  same_setBox addr h rfl

theorem same_acquireBox {box : MailBoxAddress} {inside queued : Place} (hold : h.places t = old)
    (hinside : inside.stage = old.stage) (hinsideOk : inside.Ok addr)
    (hqueued : queued.stage = old.stage) (hqueuedOk : queued.Ok addr) :
    Same addr h (h.acquireBox t box inside queued) := by
  unfold acquireBox
  split
  · exact (same_lockBox addr h box _).trans (same_goto _ hold hinside fun _ => hinsideOk)
  · exact (same_lockBox addr h box _).trans (same_goto _ hold hqueued fun _ => hqueuedOk)

theorem same_releaseBox {box : MailBoxAddress} (hold : h.places t = old)
    (hstage : place.stage = old.stage) (hok : place.Ok addr) :
    Same addr h (h.releaseBox t box place) :=
  ((same_lockBox addr h box _).trans (same_goto _ hold hstage fun _ => hok)).trans
    (same_grant addr _ _)

theorem same_remove {box : MailBoxAddress} (hplace : h.places t = .remove box) :
    Same addr h (h.remove t box) := by
  unfold remove
  split
  · exact same_abort addr h
  · rename_i mail list _
    have hbox : Same addr h (h.setBox box { h.boxes box with list := list }) :=
      same_setBox addr h rfl
    exact hbox.trans (same_goto _ hplace rfl fun _ => trivial)

theorem same_got {mail : Mail} (hplace : h.places t = .got mail) :
    Same addr h (h.got t mail) := by
  unfold got
  split
  · exact same_goto h hplace rfl fun _ => trivial
  · exact same_abort addr h

theorem same_sendDone (hstep : h.sendDone = some h') : Same addr h h' := by
  unfold sendDone at hstep
  split at hstep
  · cases hstep
  · cases hstep
    refine Same.trans ?_ (same_wake addr _ _)
    exact ⟨fun _ => rfl, fun _ => id, fun _ => rfl, rfl, rfl, rfl, rfl⟩

/-! ## Steps of the mail -/

namespace Inv

/-- Only the worker is at its places. -/
theorem goto_worker (hinv : h.Inv addr) (hworker : (h.places t).stage ≠ .other) (place : Place)
    (hok : place.Ok addr) :
    t = postalWorker ∧ (∀ u, ((h.goto t place).places u).Ok addr) ∧
      (∀ u, ((h.goto t place).places u).stage ≠ .other → u = postalWorker) ∧
      (h.goto t place).places postalWorker = place := by
  have ht := hinv.worker t hworker
  refine ⟨ht, ?_, ?_, ?_⟩
  · exact (Function.forall_update_iff h.places fun _ p => p.Ok addr).mpr
      ⟨hok, fun u _ => hinv.ok u⟩
  · exact (Function.forall_update_iff h.places
      fun u p => p.stage ≠ .other → u = postalWorker).mpr
      ⟨fun _ => ht, fun u _ => hinv.worker u⟩
  · show Function.update h.places t place postalWorker = place
    rw [ht, Function.update_self]

/-- The worker takes the token of the letter that is in the device. -/
theorem available (hinv : h.Inv addr) (hplace : h.places t = .available) :
    Advances addr h (h.available t) := by
  unfold Host.available Semaphore.p
  by_cases hzero : h.messageAvailable.value = 0
  · rw [if_pos hzero]
    have hsleep : Same addr h (h.goto t .availableAsleep) :=
      same_goto h hplace rfl fun _ => trivial
    have hqueued : Same addr h ({ h with messageAvailable :=
        { h.messageAvailable with queue := h.messageAvailable.queue ++ [t] } }.goto t
          .availableAsleep) :=
      ⟨hsleep.stage, hsleep.ok, hsleep.put, rfl, rfl, rfl, rfl⟩
    exact hqueued.advances hinv
  · rw [if_neg hzero]
    obtain ⟨ht, hok, hworker, hat⟩ :=
      hinv.goto_worker (by rw [hplace]; simp [Place.stage]) .receive trivial
    have hstage : (h.places postalWorker).stage = .idle := by
      rw [← ht, hplace]
      rfl
    have htoken := hinv.token
    rw [hstage] at htoken
    refine ⟨⟨hok, hworker, ?_, hinv.inbox, hinv.socket⟩, fun sent hrouted => ?_⟩
    · show h.messageAvailable.value - 1 + ((h.goto t .receive).places postalWorker).stage.token = _
      rw [hat]
      show h.messageAvailable.value - 1 + 1 = _
      rw [Nat.sub_add_cancel (Nat.pos_of_ne_zero hzero)]
      exact htoken
    · unfold transit at hrouted ⊢
      rw [hstage] at hrouted
      show Routed Letter.box sent (((h.goto t .receive).places postalWorker).stage.hand ++ _ ++ _) _
      rw [hat]
      exact hrouted

/-- The letter goes from the device to the worker. -/
theorem receive (hinv : h.Inv addr) (hplace : h.places t = .receive) (data : Bytes) :
    Advances addr h (h.receive t data) := by
  have hreceiving : (h.places t).stage = .receiving := by rw [hplace]; rfl
  have ht := hinv.worker t (by rw [hreceiving]; simp)
  -- The worker has the token, so there is a letter.
  have htoken := hinv.token
  rw [← ht, hreceiving] at htoken
  have hfull : h.inHdr.length ≠ 0#32 := by
    intro hempty
    rw [if_pos hempty] at htoken
    simp [Stage.token] at htoken
  have hvalue : h.messageAvailable.value = 0 := by
    rw [if_neg hfull] at htoken
    simpa [Stage.token] using htoken
  obtain ⟨hsound, hletter⟩ := (hinv.inbox hfull).bcopy h.buffer
  unfold Host.receive networkReceive
  dsimp only
  rw [if_pos hfull]
  split
  · split
    · rename_i mail hmail
      have hmailLetter := (letter_create hmail).trans hletter
      obtain ⟨-, hok, hworker, hat⟩ :=
        hinv.goto_worker (by rw [hreceiving]; simp) (.putAcquire mail) trivial
      refine ⟨⟨hok, hworker, ?_, fun hne => absurd rfl hne, hinv.socket⟩, fun sent hrouted => ?_⟩
      · show h.messageAvailable.value +
          ((h.goto t (.putAcquire mail)).places postalWorker).stage.token = _
        rw [hat, hvalue]
        rfl
      · unfold transit buffered at hrouted ⊢
        rw [← ht, hreceiving, if_neg hfull] at hrouted
        show Routed Letter.box sent
          (((h.goto t (.putAcquire mail)).places postalWorker).stage.hand ++ [] ++ _) _
        rw [hat]
        show Routed Letter.box sent ([mail.letter] ++ [] ++ _) _
        rw [hmailLetter, List.append_nil]
        exact hrouted
    · exact (same_abort addr h).advances hinv
  · exact (same_abort addr h).advances hinv

/-- The letter goes from the worker into its box. -/
theorem append (hinv : h.Inv addr) {mail : Mail} (hplace : h.places t = .append mail) :
    Advances addr h (h.append t mail) := by
  have hholding : (h.places t).stage = .holding mail := by rw [hplace]; rfl
  obtain ⟨ht, hok, hworker, hat⟩ :=
    hinv.goto_worker (by rw [hholding]; simp) (.putRelease mail.mailHdr.toBox) trivial
  have htoken := hinv.token
  rw [← ht, hholding] at htoken
  refine ⟨⟨hok, hworker, ?_, hinv.inbox, hinv.socket⟩, fun sent hrouted => ?_⟩
  · show h.messageAvailable.value +
      ((h.goto t (.putRelease mail.mailHdr.toBox)).places postalWorker).stage.token = _
    rw [hat]
    exact htoken
  · have hput : (h.append t mail).put =
        Function.update h.put mail.letter.box (h.put mail.letter.box ++ [mail.letter]) := by
      funext box
      by_cases hbox : box = mail.mailHdr.toBox
      · subst hbox
        simp [Host.put, Host.append, setBox, goto, Mail.letter, Letter.box]
      · simp [Host.put, Host.append, setBox, goto, Mail.letter, Letter.box, hbox]
    have htransit : h.transit = mail.letter :: (h.append t mail).transit := by
      unfold transit
      show _ = mail.letter ::
        (((h.goto t (.putRelease mail.mailHdr.toBox)).places postalWorker).stage.hand ++ _ ++ _)
      rw [hat, ← ht, hholding]
      rfl
    rw [hput]
    rw [htransit] at hrouted
    exact hrouted.deliver

/-- The first packet of the socket goes into the empty device. -/
theorem checkPktAvail (hinv : h.Inv addr) (ready : Bool) (buffer : Bytes) :
    Advances addr h (h.checkPktAvail addr ready buffer) := by
  unfold Host.checkPktAvail
  split
  · exact (Same.refl addr h).advances hinv
  · rename_i hempty
    rw [not_not] at hempty
    split
    · exact (Same.refl addr h).advances hinv
    · rename_i packet socket hsocket
      split
      · exact (Same.refl addr h).advances hinv
      · dsimp only
        split
        · have hpacket := hinv.socket packet (by rw [hsocket]; exact List.mem_cons_self)
          obtain ⟨hread, hreadLetter⟩ := Packet.payload_read hpacket buffer
          obtain ⟨hinbox, hinboxLetter⟩ := hread.bcopy h.inbox
          have hhdr := packet.ofBytes_read buffer
          rw [hhdr]
          have htoken := hinv.token
          rw [if_pos hempty] at htoken
          have hvalue : h.messageAvailable.v.1.value = h.messageAvailable.value + 1 := by
            unfold Semaphore.v
            split <;> rfl
          have hnonzero := hpacket.length_ne_zero
          have hmoved : Advances addr h { h with
              socket := socket
              inHdr := packet.hdr
              inbox := bcopy (behind (packet.read buffer) sizeofPacketHeader) h.inbox 0
                packet.hdr.length.toNat
              messageAvailable := h.messageAvailable.v.1 } := by
            refine ⟨⟨hinv.ok, hinv.worker, ?_, fun _ => hinbox, fun p hp => hinv.socket p ?_⟩,
              fun sent hrouted => ?_⟩
            · show h.messageAvailable.v.1.value + (h.places postalWorker).stage.token =
                if packet.hdr.length = 0#32 then 0 else 1
              rw [if_neg hnonzero, hvalue]
              omega
            · rw [hsocket]
              exact List.mem_cons_of_mem _ hp
            · unfold transit buffered at hrouted ⊢
              rw [if_pos hempty, hsocket, List.append_nil] at hrouted
              show Routed Letter.box sent ((h.places postalWorker).stage.hand ++
                (if packet.hdr.length = 0#32 then [] else [letterIn packet.hdr _]) ++ _) _
              rw [if_neg hnonzero, hinboxLetter, hreadLetter, List.append_assoc]
              exact hrouted
          have hwake := (same_wake addr { h with
              socket := socket
              inHdr := packet.hdr
              inbox := bcopy (behind (packet.read buffer) sizeofPacketHeader) h.inbox 0
                packet.hdr.length.toNat
              messageAvailable := h.messageAvailable.v.1 } h.messageAvailable.v.2).advances
            hmoved.inv
          exact ⟨hwake.inv, fun sent hrouted => hwake.routed sent (hmoved.routed sent hrouted)⟩
        · exact (same_abort addr h).advances hinv

theorem create (addr : NetworkAddress) (up : Bool) (numBoxes : ℤ) (inHdr : PacketHeader)
    (inbox buffer : Bytes) : (Host.create up numBoxes inHdr inbox buffer).Inv addr where
  ok t := by
    unfold Host.create
    dsimp only
    split <;> trivial
  worker t hstage := by
    by_contra ht
    exact hstage (by simp [Host.create, ht, Place.stage])
  token := rfl
  inbox hne := absurd rfl hne
  socket := by simp [Host.create]

theorem step (hinv : h.Inv addr) {action : Action} (hstep : h.step addr action = some h') :
    Advances addr h h' := by
  cases action with
  | call t call buffer =>
      simp only [Host.step] at hstep
      split at hstep
      · rename_i hplace
        cases hstep
        exact (same_start hplace call buffer).advances hinv
      · cases hstep
  | receive t box =>
      simp only [Host.step] at hstep
      split at hstep
      · rename_i hplace
        cases hstep
        exact (same_startReceive hplace box).advances hinv
      · cases hstep
  | go t data =>
      simp only [Host.step] at hstep
      split at hstep
      · rename_i o hplace
        cases hstep
        exact (same_acquire hplace).advances hinv
      · rename_i hplace
        cases hstep
        exact (same_wait hplace).advances hinv
      · rename_i hplace
        cases hstep
        exact (same_release hplace).advances hinv
      · rename_i box hplace
        cases hstep
        have hsame : Same addr h (h.acquireBox t box (.remove box) (.getQueued box)) :=
          same_acquireBox hplace rfl trivial rfl trivial
        exact hsame.advances hinv
      · rename_i box hplace
        cases hstep
        exact (same_remove hplace).advances hinv
      · rename_i box mail hplace
        cases hstep
        have hsame : Same addr h (h.releaseBox t box (.got mail)) :=
          same_releaseBox hplace rfl trivial
        exact hsame.advances hinv
      · rename_i mail hplace
        cases hstep
        exact (same_got hplace).advances hinv
      · rename_i hplace
        cases hstep
        exact hinv.available hplace
      · rename_i hplace
        cases hstep
        exact hinv.receive hplace data
      · rename_i mail hplace
        cases hstep
        have hsame : Same addr h
            (h.acquireBox t mail.mailHdr.toBox (.append mail) (.putQueued mail)) :=
          same_acquireBox hplace rfl trivial rfl trivial
        exact hsame.advances hinv
      · rename_i mail hplace
        cases hstep
        exact hinv.append hplace
      · rename_i box hplace
        cases hstep
        have hsame : Same addr h (h.releaseBox t box .available) :=
          same_releaseBox hplace rfl trivial
        exact hsame.advances hinv
      all_goals cases hstep
  | send t lost buffer => cases hstep
  | poll ready buffer =>
      cases hstep
      exact hinv.checkPktAvail ready buffer
  | sendDone => exact (same_sendDone hstep).advances hinv

end Inv

end Host

/-! ## All machines -/

/-- The letters for a machine, in the order in which they were sent. -/
def lettersTo (sent : List Sent) (addr : NetworkAddress) : List Letter :=
  (sent.filter fun e => e.call.pktHdr.toAddr = addr).map Sent.letter

/-- Every machine is in order, and the letters on their way to it are some of those sent to
it. -/
structure Net.Inv (net : Net) : Prop where
  hosts : ∀ addr, (net.hosts addr).Inv addr
  routed : ∀ addr, Routed Letter.box (lettersTo net.sent addr) (net.hosts addr).transit
    (net.hosts addr).put

section Sending

variable {sent : List Sent} {e : Sent} {addr : NetworkAddress}

theorem lettersTo_append_of_eq (haddr : e.call.pktHdr.toAddr = addr) :
    lettersTo (sent ++ [e]) addr = lettersTo sent addr ++ [e.letter] := by
  simp [lettersTo, haddr]

theorem lettersTo_append_of_ne (haddr : e.call.pktHdr.toAddr ≠ addr) :
    lettersTo (sent ++ [e]) addr = lettersTo sent addr := by
  simp [lettersTo, haddr]

theorem routed_lose {transit : List Letter} {put : MailBoxAddress → List Letter}
    (h : Routed Letter.box (lettersTo sent addr) transit put) (e : Sent) :
    Routed Letter.box (lettersTo (sent ++ [e]) addr) transit put := by
  by_cases haddr : e.call.pktHdr.toAddr = addr
  · rw [lettersTo_append_of_eq haddr]
    exact h.lose e.letter
  · rwa [lettersTo_append_of_ne haddr]

end Sending

namespace Net.Inv

open Post.Host

variable {net net' : Net} {addr : NetworkAddress} {t : Tid}

/-- A step on one machine. -/
theorem set (hinv : net.Inv) {h : Host} (hadvances : Advances addr (net.hosts addr) h) :
    (net.set addr h).Inv where
  hosts := (Function.forall_update_iff net.hosts fun a h => h.Inv a).mpr
    ⟨hadvances.inv, fun a _ => hinv.hosts a⟩
  routed := (Function.forall_update_iff net.hosts fun a h =>
    Routed Letter.box (lettersTo net.sent a) h.transit h.put).mpr
    ⟨hadvances.routed _ (hinv.routed addr), fun a _ => hinv.routed a⟩

theorem abort (hinv : net.Inv) (addr : NetworkAddress) :
    (net.set addr (net.hosts addr).abort).Inv :=
  hinv.set ((same_abort addr _).advances (hinv.hosts addr))

/-- A packet that is lost. -/
theorem lose (hinv : net.Inv) (e : Sent) : { net with sent := net.sent ++ [e] }.Inv where
  hosts := hinv.hosts
  routed a := routed_lose (hinv.routed a) e

/-- A packet that comes to the socket of its machine. -/
theorem arrive (hinv : net.Inv) {e : Sent} {packet : Packet}
    (hsound : Sound packet.hdr packet.payload) (hletter : packet.letter = e.letter) :
    ({ net with sent := net.sent ++ [e] }.set e.call.pktHdr.toAddr
      { net.hosts e.call.pktHdr.toAddr with
        socket := (net.hosts e.call.pktHdr.toAddr).socket ++ [packet] }).Inv where
  hosts := by
    refine (Function.forall_update_iff net.hosts fun a h => h.Inv a).mpr
      ⟨?_, fun a _ => hinv.hosts a⟩
    obtain ⟨hok, hworker, htoken, hinbox, hsocket⟩ := hinv.hosts e.call.pktHdr.toAddr
    refine ⟨hok, hworker, htoken, hinbox, fun p hp => ?_⟩
    rcases List.mem_append.mp hp with hold | hnew
    · exact hsocket p hold
    · rw [List.mem_singleton.mp hnew]
      exact hsound
  routed := by
    refine (Function.forall_update_iff net.hosts fun a h =>
      Routed Letter.box (lettersTo (net.sent ++ [e]) a) h.transit h.put).mpr
      ⟨?_, fun a _ => routed_lose (hinv.routed a) e⟩
    rw [lettersTo_append_of_eq rfl]
    have hsend := (hinv.routed e.call.pktHdr.toAddr).send e.letter
    unfold transit at hsend ⊢
    rw [← hletter, List.append_assoc, ← List.map_singleton (f := Packet.letter),
      ← List.map_append] at hsend
    rw [← hletter]
    exact hsend

theorem send (hinv : net.Inv) {o : Outgoing} (hplace : (net.hosts addr).places t = .send o)
    (lost : Bool) (buffer : Bytes) : (net.send addr t o lost buffer).Inv := by
  have hok : o.Ok addr := by
    have hplaceOk := (hinv.hosts addr).ok t
    rwa [hplace] at hplaceOk
  unfold Net.send
  dsimp only
  split
  · have hscheduled : Same addr (net.hosts addr)
        { net.hosts addr with scheduled := (net.hosts addr).scheduled + 1 } :=
      ⟨fun _ => rfl, fun _ => id, fun _ => rfl, rfl, rfl, rfl, rfl⟩
    have hwait : Same addr (net.hosts addr)
        ({ net.hosts addr with scheduled := (net.hosts addr).scheduled + 1 }.goto t .wait) :=
      hscheduled.trans (same_goto _ hplace rfl fun _ => trivial)
    have hset := hinv.set (hwait.advances (hinv.hosts addr))
    split
    · exact hset.lose ⟨addr, o.call⟩
    · unfold sendTo
      dsimp only
      split
      · obtain ⟨-, hsound, hletter⟩ := packet_of_sound hok.sound buffer _ rfl
        rw [hok.toAddr]
        exact hset.arrive (e := ⟨addr, o.call⟩) hsound (hletter.trans hok.letter)
      · exact (hset.lose ⟨addr, o.call⟩).abort addr
  · exact hinv.abort addr

theorem step (hinv : net.Inv) {label : NetworkAddress × Action}
    (hstep : net.step label = some net') : net'.Inv := by
  obtain ⟨addr, action⟩ := label
  unfold Net.step at hstep
  dsimp only at hstep
  split at hstep
  · cases hstep
  · split at hstep
    · split at hstep
      · rename_i hplace
        cases hstep
        exact hinv.send hplace _ _
      · cases hstep
    · obtain ⟨h, hlocal, rfl⟩ := Option.map_eq_some_iff.mp hstep
      exact hinv.set ((hinv.hosts addr).step hlocal)

end Net.Inv

/-- The machines at the start. -/
def boot (up : NetworkAddress → Bool) (numBoxes : NetworkAddress → ℤ)
    (inHdr : NetworkAddress → PacketHeader) (inbox buffer : NetworkAddress → Bytes) : Net :=
  .start fun addr => .create (up addr) (numBoxes addr) (inHdr addr) (inbox addr) (buffer addr)

/-- What is put into a box of a machine and comes from another machine was sent to that box by
that machine, in the same order and each letter once. -/
theorem put_sublist_sent (up : NetworkAddress → Bool) (numBoxes : NetworkAddress → ℤ)
    (inHdr : NetworkAddress → PacketHeader) (inbox buffer : NetworkAddress → Bytes)
    (labels : List (NetworkAddress × Host.Action)) :
    AllStates Net.step (fun net => ∀ sender addr box,
      ((((net.hosts addr).boxes box).put.filter fun mail =>
        mail.pktHdr.fromAddr = sender).map Mail.letter).Sublist
      ((net.sent.filter fun e => e.sender = sender ∧ e.call.pktHdr.toAddr = addr ∧
        e.call.mailHdr.toBox = box).map Sent.letter))
      (boot up numBoxes inHdr inbox buffer) labels := by
  have hboot : (boot up numBoxes inHdr inbox buffer).Inv :=
    ⟨fun addr => .create addr _ _ _ _ _, fun addr => Routed.nil Letter.box⟩
  refine (allStates_of_keep (fun net label net' hstep hinv => hinv.step hstep) labels
    hboot).mono fun net hinv sender addr box => ?_
  have hsub := (hinv.routed addr).sublist box fun letter => letter.sender = sender
  rw [Host.put, lettersTo, List.filter_map, List.filter_map, List.filter_filter] at hsub
  have hkind : (net.sent.filter fun e => e.sender = sender ∧ e.call.pktHdr.toAddr = addr ∧
      e.call.mailHdr.toBox = box) = net.sent.filter fun e =>
        ((fun letter : Letter => decide (letter.sender = sender ∧ letter.box = box)) ∘
          Sent.letter) e && decide (e.call.pktHdr.toAddr = addr) := by
    refine List.filter_congr fun e _ => ?_
    rw [Function.comp_apply, ← Bool.decide_and, decide_eq_decide]
    exact ⟨fun ⟨hs, ha, hb⟩ => ⟨⟨hs, hb⟩, ha⟩, fun ⟨⟨hs, hb⟩, ha⟩ => ⟨hs, ha, hb⟩⟩
  rw [hkind]
  exact hsub

/-- A mail of two bytes from machine 0 to box 3 of machine 1. -/
example :
    let call : Call := ⟨⟨1#32, 0#32, 0#32⟩, ⟨3#32, 5#32, 2#32⟩, fun k => BitVec.ofNat 8 k⟩
    let garbage : Bytes := fun _ => 0xff#8
    (exec Net.step (boot (fun _ => true) (fun _ => 10) (fun _ => ⟨0#32, 0#32, 0#32⟩)
      (fun _ => garbage) fun _ => garbage)
      [(0#32, .call 1 call garbage), (0#32, .go 1 garbage), (0#32, .send 1 false garbage),
        (1#32, .poll true garbage), (1#32, .go 0 garbage), (1#32, .go 0 garbage),
        (1#32, .go 0 garbage), (1#32, .go 0 garbage)]).map
      (fun net => ((net.hosts 1#32).boxes 3#32).put.map Mail.letter) =
    some [⟨0#32, ⟨3#32, 5#32, 2#32⟩, [0#8, 1#8]⟩] := by
  decide +kernel

end Nachos.Post
