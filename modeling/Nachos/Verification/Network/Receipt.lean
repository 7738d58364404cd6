import Nachos.Verification.Network.Delivery

/-! # What is received was put into the box

A mail in a box, or in the hand of a thread that is in `Receive`, was put into that box. The
steps of the other threads and of the devices do not move a thread that is outside, nor one
that is in `Receive`, to another call. -/

namespace Nachos.Post

namespace Place

/-- The packet that the thread is going to send. -/
def outgoing : Place → Option Outgoing
  | .acquire o | .queued o | .send o => some o
  | _ => none

/-- The mail that the thread has received, and the box it comes from. -/
def received : Place → Option (MailBoxAddress × Mail)
  | .getRelease box mail => some (box, mail)
  | .got mail => some (mail.mailHdr.toBox, mail)
  | _ => none

/-- The box for which the thread is in `Receive`. -/
def asks : Place → Option MailBoxAddress
  | .getAcquire box | .getQueued box | .remove box | .getRelease box _ => some box
  | .got mail => some mail.mailHdr.toBox
  | _ => none

end Place

namespace Host

/-- Every mail in a box or in a hand was put into the box it is to. -/
structure Held (h : Host) : Prop where
  list : ∀ box, ∀ mail ∈ (h.boxes box).list, mail ∈ (h.boxes box).put
  box : ∀ box, ∀ mail ∈ (h.boxes box).put, mail.mailHdr.toBox = box
  received : ∀ t box mail, (h.places t).received = some (box, mail) →
    mail ∈ (h.boxes box).put

/-- A step that begins no call and ends none that is in `Receive`. -/
structure Steady (h h' : Host) : Prop where
  outgoing : ∀ t o, (h'.places t).outgoing = some o → (h.places t).outgoing = some o
  asks : ∀ t, (h'.places t).asks = (h.places t).asks
  outside : ∀ t, h.places t = .outside → h'.places t = .outside
  put : ∀ box, ∀ mail ∈ (h.boxes box).put, mail ∈ (h'.boxes box).put
  held : h'.Held
  up : h'.up = true → h.up = true

variable {addr : NetworkAddress} {h h' h'' : Host} {t : Tid} {old place : Place}
  {box : MailBoxAddress}

namespace Steady

theorem refl (hheld : h.Held) : Steady h h :=
  ⟨fun _ _ => id, fun _ => rfl, fun _ => id, fun _ _ => id, hheld, id⟩

theorem trans (hab : Steady h h') (hbc : Steady h' h'') : Steady h h'' where
  outgoing t o ho := hab.outgoing t o (hbc.outgoing t o ho)
  asks t := (hbc.asks t).trans (hab.asks t)
  outside t hplace := hbc.outside t (hab.outside t hplace)
  put box mail hmail := hbc.put box mail (hab.put box mail hmail)
  held := hbc.held
  up hup := hab.up (hbc.up hup)

end Steady

theorem places_create (up : Bool) (numBoxes : ℤ) (inHdr : PacketHeader) (inbox buffer : Bytes)
    (t : Tid) : (Host.create up numBoxes inHdr inbox buffer).places t = .available ∨
      (Host.create up numBoxes inHdr inbox buffer).places t = .outside := by
  unfold Host.create
  dsimp only
  split
  · exact .inl rfl
  · exact .inr rfl

theorem outgoing_create (up : Bool) (numBoxes : ℤ) (inHdr : PacketHeader) (inbox buffer : Bytes)
    (t : Tid) : ((Host.create up numBoxes inHdr inbox buffer).places t).outgoing = none := by
  rcases places_create up numBoxes inHdr inbox buffer t with hplace | hplace <;> rw [hplace] <;> rfl

theorem Held.create (up : Bool) (numBoxes : ℤ) (inHdr : PacketHeader) (inbox buffer : Bytes) :
    (Host.create up numBoxes inHdr inbox buffer).Held := by
  refine ⟨fun box mail hmail => hmail, fun box mail hmail => ?_, fun t box mail hmail => ?_⟩
  · cases hmail
  · rcases places_create up numBoxes inHdr inbox buffer t with hplace | hplace
    · rw [hplace] at hmail
      cases hmail
    · rw [hplace] at hmail
      cases hmail

/-! ## The parts of the steps -/

/-- Only the places and the boxes matter. -/
theorem Held.congr (hheld : h.Held) (hplaces : h'.places = h.places) (hboxes : h'.boxes = h.boxes) :
    h'.Held := by
  obtain ⟨hlist, hbox, hreceived⟩ := hheld
  rw [← hboxes] at hlist hbox hreceived
  rw [← hplaces] at hreceived
  exact ⟨hlist, hbox, hreceived⟩

theorem steady_congr (hheld : h.Held) (hplaces : h'.places = h.places)
    (hboxes : h'.boxes = h.boxes) (hup : h'.up = h.up) : Steady h h' where
  outgoing t o := by rw [hplaces]; exact id
  asks t := by rw [hplaces]
  outside t := by rw [hplaces]; exact id
  put box mail := by rw [hboxes]; exact id
  held := hheld.congr hplaces hboxes
  up := by rw [hup]; exact id

theorem steady_abort (hheld : h.Held) : Steady h h.abort :=
  ⟨fun _ _ => id, fun _ => rfl, fun _ => id, fun _ _ => id, hheld.congr rfl rfl, by simp [abort]⟩

theorem steady_goto (hheld : h.Held) (hold : h.places t = old) (hne : old ≠ .outside)
    (houtgoing : ∀ o, place.outgoing = some o → old.outgoing = some o)
    (hasks : place.asks = old.asks)
    (hreceived : ∀ box mail, place.received = some (box, mail) → mail ∈ (h.boxes box).put) :
    Steady h (h.goto t place) where
  outgoing := (Function.forall_update_iff h.places fun u p =>
    ∀ o, p.outgoing = some o → (h.places u).outgoing = some o).mpr
    ⟨by rwa [hold], fun _ _ _ => id⟩
  asks := (Function.forall_update_iff h.places fun u p => p.asks = (h.places u).asks).mpr
    ⟨by rw [hold, hasks], fun _ _ => rfl⟩
  outside := (Function.forall_update_iff h.places fun u p =>
    h.places u = .outside → p = .outside).mpr
    ⟨fun houtside => absurd (hold.symm.trans houtside) hne, fun _ _ => id⟩
  put _ _ := id
  held := ⟨hheld.list, hheld.box, (Function.forall_update_iff h.places fun u p =>
    ∀ box mail, p.received = some (box, mail) → mail ∈ (h.boxes box).put).mpr
    ⟨hreceived, fun u _ => hheld.received u⟩⟩
  up := id

/-- A thread goes on in the same call, with nothing in its hand. -/
theorem steady_move (hheld : h.Held) (hold : h.places t = old) (hne : old ≠ .outside)
    (houtgoing : ∀ o, place.outgoing = some o → old.outgoing = some o)
    (hasks : place.asks = old.asks) (hreceived : place.received = none) :
    Steady h (h.goto t place) := by
  refine steady_goto hheld hold hne houtgoing hasks fun box mail hmail => ?_
  rw [hreceived] at hmail
  cases hmail

theorem steady_setBox (hheld : h.Held) {mailBox : MailBox}
    (hlist : ∀ mail ∈ mailBox.list, mail ∈ mailBox.put)
    (hput : ∀ mail ∈ (h.boxes box).put, mail ∈ mailBox.put)
    (hbox : ∀ mail ∈ mailBox.put, mail.mailHdr.toBox = box) :
    Steady h (h.setBox box mailBox) where
  outgoing _ _ := id
  asks _ := rfl
  outside _ := id
  put := (Function.forall_update_iff h.boxes fun b mailBox =>
    ∀ mail ∈ (h.boxes b).put, mail ∈ mailBox.put).mpr ⟨hput, fun _ _ _ => id⟩
  held := by
    refine ⟨(Function.forall_update_iff h.boxes fun _ mailBox =>
      ∀ mail ∈ mailBox.list, mail ∈ mailBox.put).mpr ⟨hlist, fun b _ => hheld.list b⟩,
      (Function.forall_update_iff h.boxes fun b mailBox =>
        ∀ mail ∈ mailBox.put, mail.mailHdr.toBox = b).mpr ⟨hbox, fun b _ => hheld.box b⟩, ?_⟩
    intro t b mail hmail
    have hold := hheld.received t b mail hmail
    show mail ∈ (Function.update h.boxes box mailBox b).put
    by_cases hb : b = box
    · subst hb
      rw [Function.update_self]
      exact hput mail hold
    · rwa [Function.update_of_ne hb]
  up := id

theorem steady_lockBox (hheld : h.Held) (box : MailBoxAddress) (lock : Lock) :
    Steady h (h.setBox box { h.boxes box with lock := lock }) :=
  steady_setBox hheld (hheld.list box) (fun _ => id) (hheld.box box)

theorem steady_wake (hheld : h.Held) (woken : Option Tid) : Steady h (h.wake woken) := by
  cases woken with
  | none => exact .refl hheld
  | some t =>
      unfold wake
      dsimp only
      split
      · rename_i hplace
        exact steady_move hheld hplace (by simp) (fun _ => id) rfl rfl
      · rename_i hplace
        exact steady_move hheld hplace (by simp) (fun _ => id) rfl rfl
      · exact .refl hheld

theorem steady_grant (hheld : h.Held) (woken : Option Tid) : Steady h (h.grant woken) := by
  cases woken with
  | none => exact .refl hheld
  | some t =>
      unfold grant
      dsimp only
      split
      · rename_i o hplace
        exact steady_move hheld hplace (by simp) (fun _ => id) rfl rfl
      · rename_i box hplace
        exact steady_move hheld hplace (by simp) (fun _ => id) rfl rfl
      · rename_i mail hplace
        exact steady_move hheld hplace (by simp) (fun _ => id) rfl rfl
      · exact .refl hheld

/-! ## The steps -/

theorem Steady.move (hsteady : Steady h h') (hold : h'.places t = old) (hne : old ≠ .outside)
    (houtgoing : ∀ o, place.outgoing = some o → old.outgoing = some o)
    (hasks : place.asks = old.asks) (hreceived : place.received = none) :
    Steady h (h'.goto t place) :=
  hsteady.trans (steady_move hsteady.held hold hne houtgoing hasks hreceived)

theorem steady_acquire (hheld : h.Held) {o : Outgoing} (hplace : h.places t = .acquire o) :
    Steady h (h.acquire t o) := by
  have hlock (lock : Lock) : Steady h { h with sendLock := lock } :=
    steady_congr hheld rfl rfl rfl
  unfold acquire
  split
  · exact (hlock _).move hplace (by simp) (fun _ => id) rfl rfl
  · exact (hlock _).move hplace (by simp) (fun _ => id) rfl rfl

theorem steady_wait (hheld : h.Held) (hplace : h.places t = .wait) : Steady h (h.wait t) := by
  have hsent (messageSent : Semaphore) : Steady h { h with messageSent := messageSent } :=
    steady_congr hheld rfl rfl rfl
  unfold wait
  split
  · exact (hsent _).move hplace (by simp) (fun _ => id) rfl rfl
  · exact (hsent _).move hplace (by simp) (fun _ => id) rfl rfl

theorem steady_release (hheld : h.Held) (hplace : h.places t = .release) :
    Steady h (h.release t) := by
  have hgoto : Steady h (h.goto t .outside) :=
    steady_move hheld hplace (by simp) (fun _ => id) rfl rfl
  have hlock : Steady h { h.goto t .outside with sendLock := (h.sendLock.release t).1 } :=
    hgoto.trans (steady_congr hgoto.held rfl rfl rfl)
  exact hlock.trans (steady_grant hlock.held _)

theorem steady_acquireBox (hheld : h.Held) {inside queued : Place} (hold : h.places t = old)
    (hne : old ≠ .outside) (hinside : inside.outgoing = none ∧ inside.asks = old.asks ∧
      inside.received = none)
    (hqueued : queued.outgoing = none ∧ queued.asks = old.asks ∧ queued.received = none) :
    Steady h (h.acquireBox t box inside queued) := by
  unfold acquireBox
  split
  · refine (steady_lockBox hheld box _).move hold hne (fun o ho => ?_) hinside.2.1 hinside.2.2
    cases hinside.1.symm.trans ho
  · refine (steady_lockBox hheld box _).move hold hne (fun o ho => ?_) hqueued.2.1 hqueued.2.2
    cases hqueued.1.symm.trans ho

/-- The mail goes from one hand into the other. -/
theorem steady_releaseBox (hheld : h.Held) (hold : h.places t = old) (hne : old ≠ .outside)
    (houtgoing : ∀ o, place.outgoing = some o → old.outgoing = some o)
    (hasks : place.asks = old.asks)
    (hreceived : ∀ box mail, place.received = some (box, mail) →
      old.received = some (box, mail)) : Steady h (h.releaseBox t box place) := by
  have hlock := steady_lockBox hheld box ((h.boxes box).lock.release t).1
  have hgoto := hlock.trans (steady_goto hlock.held hold hne houtgoing hasks
    fun b mail hmail => hlock.held.received t b mail (hold ▸ hreceived b mail hmail))
  exact hgoto.trans (steady_grant hgoto.held _)

theorem steady_remove (hheld : h.Held) (hplace : h.places t = .remove box) :
    Steady h (h.remove t box) := by
  unfold remove
  split
  · exact steady_abort hheld
  · rename_i mail list hlist
    have hin := hheld.list box
    rw [hlist] at hin
    have hbox : Steady h (h.setBox box { h.boxes box with list := list }) :=
      steady_setBox hheld (fun m hm => hin m (List.mem_cons_of_mem mail hm)) (fun _ => id)
        (hheld.box box)
    refine hbox.trans (steady_goto hbox.held hplace (by simp) (by simp [Place.outgoing]) rfl ?_)
    intro b m hm
    cases hm
    exact hbox.put box mail (hin mail List.mem_cons_self)

theorem steady_append (hheld : h.Held) {mail : Mail} (hplace : h.places t = .append mail) :
    Steady h (h.append t mail) := by
  unfold append
  dsimp only
  refine (steady_setBox hheld ?_ ?_ ?_).move hplace (by simp) (by simp [Place.outgoing]) rfl rfl
  · intro m hm
    rcases List.mem_append.mp hm with hold | hnew
    · exact List.mem_append_left _ (hheld.list _ m hold)
    · exact List.mem_append_right _ hnew
  · exact fun m hm => List.mem_append_left _ hm
  · intro m hm
    rcases List.mem_append.mp hm with hold | hnew
    · exact hheld.box _ m hold
    · rw [List.mem_singleton.mp hnew]

theorem steady_available (hheld : h.Held) (hplace : h.places t = .available) :
    Steady h (h.available t) := by
  have havailable (messageAvailable : Semaphore) :
      Steady h { h with messageAvailable := messageAvailable } := steady_congr hheld rfl rfl rfl
  unfold available
  split
  · exact (havailable _).move hplace (by simp) (fun _ => id) rfl rfl
  · exact (havailable _).move hplace (by simp) (fun _ => id) rfl rfl

theorem steady_receive (hheld : h.Held) (hplace : h.places t = .receive) (data : Bytes) :
    Steady h (h.receive t data) := by
  have hnetwork : Steady h h.networkReceive.2 := steady_congr hheld rfl rfl rfl
  unfold receive
  dsimp only
  split
  · split
    · exact hnetwork.move hplace (by simp) (fun _ => id) rfl rfl
    · exact steady_abort hheld
  · exact steady_abort hheld

theorem steady_checkPktAvail (hheld : h.Held) (ready : Bool) (buffer : Bytes) :
    Steady h (h.checkPktAvail addr ready buffer) := by
  unfold checkPktAvail
  split
  · exact .refl hheld
  · split
    · exact .refl hheld
    · split
      · exact .refl hheld
      · dsimp only
        split
        · refine Steady.trans ?_ (steady_wake ?_ _)
          · exact steady_congr hheld rfl rfl rfl
          · exact hheld.congr rfl rfl
        · exact steady_abort hheld

theorem steady_sendDone (hheld : h.Held) (hstep : h.sendDone = some h') : Steady h h' := by
  unfold sendDone at hstep
  split at hstep
  · cases hstep
  · cases hstep
    refine Steady.trans ?_ (steady_wake ?_ _)
    · exact steady_congr hheld rfl rfl rfl
    · exact hheld.congr rfl rfl

/-- A step of a thread, or of a device, that does not begin a call: either the mail of a
`Receive` goes to its caller, or the calls go on. -/
theorem steady_step (hheld : h.Held) {action : Action} (hstep : h.step addr action = some h')
    (hcall : ∀ t call buffer, action ≠ .call t call buffer)
    (hreceive : ∀ t box, action ≠ .receive t box) :
    Steady h h' ∨ ∃ t data mail, action = .go t data ∧ h.places t = .got mail ∧
      h' = h.got t mail := by
  cases action with
  | call t call buffer => exact absurd rfl (hcall t call buffer)
  | receive t box => exact absurd rfl (hreceive t box)
  | go t data =>
      simp only [Host.step] at hstep
      split at hstep
      all_goals rename_i hplace
      · cases hstep
        exact .inl (steady_acquire hheld hplace)
      · cases hstep
        exact .inl (steady_wait hheld hplace)
      · cases hstep
        exact .inl (steady_release hheld hplace)
      · cases hstep
        exact .inl (steady_acquireBox hheld hplace (by simp) ⟨rfl, rfl, rfl⟩ ⟨rfl, rfl, rfl⟩)
      · cases hstep
        exact .inl (steady_remove hheld hplace)
      · rename_i box mail
        cases hstep
        have hbox := hheld.received t box mail (by rw [hplace]; rfl)
        refine .inl (steady_releaseBox hheld hplace (by simp) (by simp [Place.outgoing]) ?_ ?_)
        · exact congrArg some (hheld.box box mail hbox)
        · intro b m hm
          cases hm
          rw [hheld.box box mail hbox]
          rfl
      · cases hstep
        exact .inr ⟨t, data, _, rfl, hplace, rfl⟩
      · cases hstep
        exact .inl (steady_available hheld hplace)
      · cases hstep
        exact .inl (steady_receive hheld hplace data)
      · cases hstep
        exact .inl (steady_acquireBox hheld hplace (by simp) ⟨rfl, rfl, rfl⟩ ⟨rfl, rfl, rfl⟩)
      · cases hstep
        exact .inl (steady_append hheld hplace)
      · cases hstep
        exact .inl (steady_releaseBox hheld hplace (by simp) (by simp [Place.outgoing]) rfl
          (by simp [Place.received]))
      all_goals cases hstep
  | send t lost buffer => cases hstep
  | poll ready buffer =>
      cases hstep
      exact .inl (steady_checkPktAvail hheld ready buffer)
  | sendDone => exact .inl (steady_sendDone hheld hstep)

end Host

/-! ## All machines -/

namespace Net

open Post.Host Channels

variable {net net' : Net} {addr : NetworkAddress} {t : Tid}

/-- A machine that goes on while the others stay. -/
theorem steady_set (hheld : ∀ a, (net.hosts a).Held) {h : Host}
    (hsteady : Steady (net.hosts addr) h) : ∀ a, Steady (net.hosts a) ((net.set addr h).hosts a) :=
  (Function.forall_update_iff net.hosts fun a h => Steady (net.hosts a) h).mpr
    ⟨hsteady, fun a _ => .refl (hheld a)⟩

theorem steady_sendTo {hosts : NetworkAddress → Host}
    (hsteady : ∀ a, Steady (hosts a) (net.hosts a)) (addr toAddr : NetworkAddress)
    (packet : Packet) : ∀ a, Steady (hosts a) ((net.sendTo addr toAddr packet).hosts a) := by
  have hheld (a : NetworkAddress) := (hsteady a).held
  unfold sendTo
  dsimp only
  split
  · have hsocket : Steady (net.hosts toAddr)
        { net.hosts toAddr with socket := (net.hosts toAddr).socket ++ [packet] } :=
      steady_congr (hheld toAddr) rfl rfl rfl
    exact fun a => (hsteady a).trans (steady_set hheld hsocket a)
  · exact fun a => (hsteady a).trans (steady_set hheld (steady_abort (hheld addr)) a)

theorem sent_sendTo (net : Net) (addr toAddr : NetworkAddress) (packet : Packet) :
    (net.sendTo addr toAddr packet).sent = net.sent := by
  unfold sendTo
  dsimp only
  split <;> rfl

theorem steady_send (hheld : ∀ a, (net.hosts a).Held) {o : Outgoing}
    (hplace : (net.hosts addr).places t = .send o) (lost : Bool) (buffer : Bytes) :
    (∀ a, Steady (net.hosts a) ((net.send addr t o lost buffer).hosts a)) ∧
      ((net.send addr t o lost buffer).sent = net.sent ∨
        (net.send addr t o lost buffer).sent = net.sent ++ [⟨addr, o.call⟩]) := by
  unfold send
  dsimp only
  split
  · have hscheduled : Steady (net.hosts addr)
        { net.hosts addr with scheduled := (net.hosts addr).scheduled + 1 } :=
      steady_congr (hheld addr) rfl rfl rfl
    have hwait : Steady (net.hosts addr)
        ({ net.hosts addr with scheduled := (net.hosts addr).scheduled + 1 }.goto t .wait) :=
      hscheduled.move hplace (by simp) (by simp [Place.outgoing]) rfl rfl
    have hset := steady_set hheld hwait
    split
    · exact ⟨hset, .inr rfl⟩
    · refine ⟨steady_sendTo ?_ _ _ _, .inr (sent_sendTo _ _ _ _)⟩
      exact hset
  · exact ⟨steady_set hheld (steady_abort (hheld addr)), .inl rfl⟩

/-- A step that does not begin a call, on one of the machines. -/
theorem steady_step (hheld : ∀ a, (net.hosts a).Held) {action : Action}
    (hstep : net.step (addr, action) = some net')
    (hcall : ∀ t call buffer, action ≠ .call t call buffer)
    (hreceive : ∀ t box, action ≠ .receive t box) :
    ((∀ a, Steady (net.hosts a) (net'.hosts a)) ∧ (net'.sent = net.sent ∨
        ∃ t o, ((net.hosts addr).places t).outgoing = some o ∧
          net'.sent = net.sent ++ [⟨addr, o.call⟩])) ∨
      ∃ t data mail, action = .go t data ∧ (net.hosts addr).places t = .got mail ∧
        net' = net.set addr ((net.hosts addr).got t mail) := by
  unfold Net.step at hstep
  dsimp only at hstep
  split at hstep
  · cases hstep
  · split at hstep
    · split at hstep
      · rename_i t lost buffer _ o hplace
        cases hstep
        obtain ⟨hsteady, hsent⟩ := steady_send hheld hplace lost buffer
        refine .inl ⟨hsteady, hsent.imp id fun hsent => ⟨t, o, ?_, hsent⟩⟩
        rw [hplace]
        rfl
      · cases hstep
    · obtain ⟨h, hlocal, rfl⟩ := Option.map_eq_some_iff.mp hstep
      rcases Host.steady_step (hheld addr) hlocal hcall hreceive with hsteady | hgot
      · exact .inl ⟨steady_set hheld hsteady, .inl rfl⟩
      · obtain ⟨t, data, mail, haction, hplace, rfl⟩ := hgot
        exact .inr ⟨t, data, mail, haction, hplace, rfl⟩

theorem Inv.boot (up : NetworkAddress → Bool) (numBoxes : NetworkAddress → ℤ)
    (inHdr : NetworkAddress → PacketHeader) (inbox buffer : NetworkAddress → Bytes) :
    (Post.boot up numBoxes inHdr inbox buffer).Inv :=
  ⟨fun addr => .create addr _ _ _ _ _, fun _ => Routed.nil Letter.box⟩

/-- What is in a box was sent to it. -/
theorem Inv.exists_sent (hinv : net.Inv) {box : MailBoxAddress} {mail : Mail}
    (hmail : mail ∈ ((net.hosts addr).boxes box).put) :
    ∃ e ∈ net.sent, e.call.pktHdr.toAddr = addr ∧ e.call.mailHdr.toBox = box ∧
      mail.letter = e.letter := by
  have hput : mail.letter ∈ (net.hosts addr).put box := List.mem_map_of_mem hmail
  have hletter := (hinv.routed addr box).delivered_sublist.subset hput
  obtain ⟨hto, hbox⟩ := List.mem_filter.mp hletter
  obtain ⟨e, he, heq⟩ := List.mem_map.mp hto
  obtain ⟨hsent, haddr⟩ := List.mem_filter.mp he
  refine ⟨e, hsent, by simpa using haddr, ?_, heq.symm⟩
  rw [← heq] at hbox
  exact of_decide_eq_true hbox

end Net

end Nachos.Post
