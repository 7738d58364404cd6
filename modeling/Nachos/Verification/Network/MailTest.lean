import Nachos.Model.MailTest
import Nachos.Verification.Network.Receipt

/-! # What the network test prints

Every call of `Send` is an original message or an acknowledgment, and an acknowledgment is sent
only to the machine whose original message was printed. What comes out of a box is therefore
what `MailTest` expects there. -/

namespace Nachos.Post.MailTest

open Runs

def hello : List Byte := chars "Hello there!"
def gotIt : List Byte := chars "Got it!"

/-! ## What is sent and what is printed -/

/-- The line is the original message of a machine that tests the connection to this one. -/
structure Greets (tests : NetworkAddress → Test) (addr : NetworkAddress) (line : Line) : Prop where
  text : line.text = hello
  fromBox : line.fromBox = 1#32
  farAddr : (tests line.fromAddr).farAddr = addr

/-- The line is the acknowledgment of the machine that this one has written to, which has
printed the original message of this one. -/
structure Acknowledges (tests : NetworkAddress → Test) (addr : NetworkAddress) (line : Line) :
    Prop where
  text : line.text = gotIt
  fromBox : line.fromBox = 1#32
  fromAddr : line.fromAddr = (tests addr).farAddr
  printed : (tests line.fromAddr).printed.head? = some ⟨hello, addr, 1#32⟩

/-- What a machine has printed at each stage of its test. -/
def Printed (tests : NetworkAddress → Test) (addr : NetworkAddress) : Prop :=
  match (tests addr).stage with
  | .start | .sending | .receiving => (tests addr).printed = []
  | .acking | .waiting => ∃ first, (tests addr).printed = [first] ∧ Greets tests addr first
  | .halted => ∃ first second, (tests addr).printed = [first, second] ∧
      Greets tests addr first ∧ Acknowledges tests addr second

/-- The call of a test that sends its original message. -/
structure Original (test : Test) (call : Call) : Prop where
  toAddr : call.pktHdr.toAddr = test.farAddr
  mailHdr : call.mailHdr = ⟨0#32, 1#32, 13#32⟩
  data : contents call.data call.mailHdr.length = data

/-- The call of a test that acknowledges the message it has printed. -/
structure Reply (test : Test) (call : Call) : Prop where
  mailHdr : call.mailHdr = ⟨1#32, 1#32, 8#32⟩
  data : contents call.data call.mailHdr.length = ack
  printed : test.printed.head? = some ⟨hello, call.pktHdr.toAddr, 1#32⟩

def Legit (test : Test) (call : Call) : Prop :=
  Original test call ∨ Reply test call

/-- The same test, which may have gone on. -/
structure Later (test test' : Test) : Prop where
  farAddr : test'.farAddr = test.farAddr
  printed : test.printed <+: test'.printed

section Later

variable {test test' : Test} {tests : NetworkAddress → Test} {addr a : NetworkAddress} {line : Line}
  {call : Call}

theorem Later.refl (test : Test) : Later test test :=
  ⟨rfl, List.prefix_rfl⟩

theorem Later.head (h : Later test test') (hhead : test.printed.head? = some line) :
    test'.printed.head? = some line := by
  obtain ⟨rest, hrest⟩ := h.printed
  rw [← hrest, List.head?_append, hhead]
  rfl

theorem Legit.later (h : Legit test call) (hlater : Later test test') : Legit test' call := by
  rcases h with ⟨hto, hhdr, hdata⟩ | ⟨hhdr, hdata, hprinted⟩
  · exact .inl ⟨hto.trans hlater.farAddr.symm, hhdr, hdata⟩
  · exact .inr ⟨hhdr, hdata, hlater.head hprinted⟩

theorem later_update (hlater : Later (tests addr) test') (a : NetworkAddress) :
    Later (tests a) (Function.update tests addr test' a) :=
  (Function.forall_update_iff tests fun a test => Later (tests a) test).mpr
    ⟨hlater, fun a _ => .refl (tests a)⟩ a

theorem Greets.later {tests' : NetworkAddress → Test} (h : Greets tests addr line)
    (hlater : ∀ a, Later (tests a) (tests' a)) : Greets tests' addr line :=
  ⟨h.text, h.fromBox, (hlater line.fromAddr).farAddr.trans h.farAddr⟩

theorem Acknowledges.later {tests' : NetworkAddress → Test} (h : Acknowledges tests addr line)
    (hlater : ∀ a, Later (tests a) (tests' a)) : Acknowledges tests' addr line :=
  ⟨h.text, h.fromBox, h.fromAddr.trans (hlater addr).farAddr.symm,
    (hlater line.fromAddr).head h.printed⟩

/-- A test that has not gone on, while others may have. -/
theorem Printed.later {tests' : NetworkAddress → Test} (h : Printed tests addr)
    (hlater : ∀ a, Later (tests a) (tests' a)) (hstage : (tests' addr).stage = (tests addr).stage)
    (hprinted : (tests' addr).printed = (tests addr).printed) : Printed tests' addr := by
  unfold Printed at h ⊢
  rw [hstage, hprinted]
  split at h
  · exact h
  · exact h
  · exact h
  · obtain ⟨first, hfirst, hgreets⟩ := h
    exact ⟨first, hfirst, hgreets.later hlater⟩
  · obtain ⟨first, hfirst, hgreets⟩ := h
    exact ⟨first, hfirst, hgreets.later hlater⟩
  · obtain ⟨first, second, hboth, hgreets, hacknowledges⟩ := h
    exact ⟨first, second, hboth, hgreets.later hlater, hacknowledges.later hlater⟩

end Later

/-- The first line of a test is an original message to it. -/
theorem Printed.greets {tests : NetworkAddress → Test} {addr : NetworkAddress} {line : Line}
    (h : Printed tests addr) (hhead : (tests addr).printed.head? = some line) :
    Greets tests addr line := by
  unfold Printed at h
  split at h
  · rw [h] at hhead
    cases hhead
  · rw [h] at hhead
    cases hhead
  · rw [h] at hhead
    cases hhead
  · obtain ⟨first, hfirst, hgreets⟩ := h
    rw [hfirst] at hhead
    cases hhead
    exact hgreets
  · obtain ⟨first, hfirst, hgreets⟩ := h
    rw [hfirst] at hhead
    cases hhead
    exact hgreets
  · obtain ⟨first, second, hboth, hgreets, -⟩ := h
    rw [hboth] at hhead
    cases hhead
    exact hgreets

/-! ## What is received -/

/-- The local variables have what the mail says. -/
structure Test.Has (test : Test) (mail : Mail) : Prop where
  pktHdr : test.inPktHdr = mail.pktHdr
  mailHdr : test.inMailHdr = mail.mailHdr
  buffer : contents test.buffer mail.mailHdr.length = contents mail.data mail.mailHdr.length

theorem has_receive (test : Test) (mail : Mail) : (test.receive mail).Has mail :=
  ⟨rfl, rfl, contents_congr fun _ hk => bcopy_of_lt _ _ hk⟩

/-- A string constant in the buffer is printed. -/
theorem text_of_contents {test : Test} {l : List Byte} (hl : ∀ c ∈ l, c ≠ 0#8)
    (hlength : l.length < maxMailSize)
    (hbuffer : (List.range (l.length + 1)).map test.buffer = l ++ [0#8]) : test.text = l := by
  obtain ⟨rest, hrest⟩ : ∃ rest, maxMailSize = l.length + 1 + rest :=
    ⟨maxMailSize - (l.length + 1), by omega⟩
  rw [Test.text, hrest, List.range_add, List.map_append, hbuffer, List.append_assoc,
    List.takeWhile_append_of_pos (by simpa using hl), List.singleton_append,
    List.takeWhile_cons_of_neg (by simp), List.append_nil]

/-- What a test expects to be in its variables when the call it is in returns. -/
def Stage.expects : Stage → Option MailBoxAddress
  | .receiving => some 0#32
  | .waiting => some 1#32
  | _ => none

/-- The thread is in `Receive` for the box, or has come out with a mail that was put there. -/
def InReceive (h : Host) (test : Test) (box : MailBoxAddress) : Prop :=
  (h.places main).asks = some box ∨
    h.places main = .outside ∧ ∃ mail ∈ (h.boxes box).put, test.Has mail

structure Inv (s : State) : Prop where
  net : s.net.Inv
  held : ∀ a, (s.net.hosts a).Held
  outgoing : ∀ a t o, ((s.net.hosts a).places t).outgoing = some o → Legit (s.tests a) o.call
  sent : ∀ e ∈ s.net.sent, Legit (s.tests e.sender) e.call
  printed : ∀ a, Printed s.tests a
  fromBox : ∀ a, (s.tests a).stage ≠ .start → (s.tests a).outMailHdr.fromBox = 1#32
  receives : ∀ a box, (s.net.hosts a).up = true → (s.tests a).stage.expects = some box →
    InReceive (s.net.hosts a) (s.tests a) box

/-! ## Steps of the network -/

section CopyOut

variable {s : State} {addr a : NetworkAddress} {action : Host.Action}

/-- The variables are overwritten only while the mail is still in the hand of the post
office. -/
theorem copyOut_cases (s : State) (addr : NetworkAddress) (action : Host.Action) :
    s.copyOut addr action = s ∨ ∃ mail data, action = .go main data ∧
      (s.net.hosts addr).places main = .got mail ∧
      s.copyOut addr action = s.setTest addr ((s.tests addr).receive mail) := by
  unfold State.copyOut
  split
  · rename_i t data mail hplace
    split
    · rename_i ht
      subst ht
      exact .inr ⟨mail, data, rfl, hplace, rfl⟩
    · exact .inl rfl
  · exact .inl rfl

/-- What a test has printed does not change when a mail comes out. -/
structure Unprinted (test test' : Test) : Prop where
  farAddr : test'.farAddr = test.farAddr
  stage : test'.stage = test.stage
  printed : test'.printed = test.printed
  outMailHdr : test'.outMailHdr = test.outMailHdr

theorem Unprinted.later {test test' : Test} (h : Unprinted test test') : Later test test' :=
  ⟨h.farAddr, h.printed ▸ List.prefix_rfl⟩

theorem unprinted_copyOut (s : State) (addr : NetworkAddress) (action : Host.Action)
    (a : NetworkAddress) : Unprinted (s.tests a) ((s.copyOut addr action).tests a) := by
  rcases copyOut_cases s addr action with hsame | ⟨mail, -, -, -, hcopied⟩
  · rw [hsame]
    exact ⟨rfl, rfl, rfl, rfl⟩
  · have hreceive : Unprinted (s.tests addr) ((s.tests addr).receive mail) :=
      ⟨rfl, rfl, rfl, rfl⟩
    rw [hcopied]
    exact (Function.forall_update_iff s.tests fun a test => Unprinted (s.tests a) test).mpr
      ⟨hreceive, fun _ _ => ⟨rfl, rfl, rfl, rfl⟩⟩ a

/-- A thread outside the post office keeps its variables. -/
theorem tests_copyOut_of_outside (houtside : (s.net.hosts a).places main = .outside) :
    (s.copyOut addr action).tests a = s.tests a := by
  rcases copyOut_cases s addr action with hsame | ⟨mail, -, -, hplace, hcopied⟩
  · rw [hsame]
  · rw [hcopied]
    refine Function.update_of_ne ?_ _ _
    rintro rfl
    cases houtside.symm.trans hplace

end CopyOut

namespace Inv

variable {s : State} {net : Net} {addr : NetworkAddress} {action : Host.Action}

/-- A step that begins no call and prints nothing. -/
theorem copyOut (h : Inv s) (hnet : net.Inv) (hheld : ∀ a, (net.hosts a).Held)
    (houtgoing : ∀ a t o, ((net.hosts a).places t).outgoing = some o →
      ((s.net.hosts a).places t).outgoing = some o)
    (hsent : net.sent = s.net.sent ∨ ∃ t o, ((s.net.hosts addr).places t).outgoing = some o ∧
      net.sent = s.net.sent ++ [⟨addr, o.call⟩])
    (hreceives : ∀ a box, (net.hosts a).up = true → (s.tests a).stage.expects = some box →
      InReceive (net.hosts a) ((s.copyOut addr action).tests a) box) :
    Inv { s.copyOut addr action with net := net } := by
  have hunprinted := unprinted_copyOut s addr action
  have hlater (a : NetworkAddress) := (hunprinted a).later
  refine ⟨hnet, hheld, ?_, ?_, ?_, ?_, ?_⟩
  · exact fun a t o ho => (h.outgoing a t o (houtgoing a t o ho)).later (hlater a)
  · have hold : ∀ e ∈ s.net.sent, Legit ((s.copyOut addr action).tests e.sender) e.call :=
      fun e he => (h.sent e he).later (hlater e.sender)
    rcases hsent with hsame | ⟨t, o, ho, hnew⟩
    · exact hsame ▸ hold
    · intro e he
      rw [hnew] at he
      rcases List.mem_append.mp he with he | he
      · exact hold e he
      · rw [List.mem_singleton.mp he]
        exact (h.outgoing addr t o ho).later (hlater addr)
  · exact fun a => (h.printed a).later hlater (hunprinted a).stage (hunprinted a).printed
  · intro a hstage
    rw [(hunprinted a).stage] at hstage
    exact (hunprinted a).outMailHdr ▸ h.fromBox a hstage
  · intro a box hup hexpects
    rw [(hunprinted a).stage] at hexpects
    exact hreceives a box hup hexpects

/-- A thread that is in a call stays in it, and one that has come out keeps its variables. -/
theorem inReceive_of_steady {a : NetworkAddress} {box : MailBoxAddress} {h' : Host}
    (hsteady : Host.Steady (s.net.hosts a) h')
    (hin : InReceive (s.net.hosts a) (s.tests a) box) :
    InReceive h' ((s.copyOut addr action).tests a) box := by
  rcases hin with hasks | ⟨houtside, mail, hput, hhas⟩
  · exact .inl ((hsteady.asks main).trans hasks)
  · refine .inr ⟨hsteady.outside main houtside, mail, hsteady.put box mail hput, ?_⟩
    rwa [tests_copyOut_of_outside houtside]

/-- The calls go on, perhaps with a `Network::Send`. -/
theorem steady (h : Inv s) (hnet : net.Inv)
    (hsteady : ∀ a, Host.Steady (s.net.hosts a) (net.hosts a))
    (hsent : net.sent = s.net.sent ∨ ∃ t o, ((s.net.hosts addr).places t).outgoing = some o ∧
      net.sent = s.net.sent ++ [⟨addr, o.call⟩]) :
    Inv { s.copyOut addr action with net := net } :=
  h.copyOut hnet (fun a => (hsteady a).held) (fun a => (hsteady a).outgoing) hsent
    fun a box hup hexpects =>
      inReceive_of_steady (hsteady a) (h.receives a box ((hsteady a).up hup) hexpects)

/-- `Receive` returns to the thread, which has the mail in its variables. -/
theorem inReceive_of_got (h : Inv s) {t : Tid} {data : Bytes} {mail : Mail} {box : MailBoxAddress}
    (hplace : (s.net.hosts addr).places t = .got mail)
    (hin : InReceive (s.net.hosts addr) (s.tests addr) box) :
    InReceive ((s.net.hosts addr).goto t .outside)
      ((s.copyOut addr (.go t data)).tests addr) box := by
  by_cases ht : main = t
  · subst ht
    have hcopied : s.copyOut addr (.go main data) =
        s.setTest addr ((s.tests addr).receive mail) := by
      unfold State.copyOut
      rw [hplace]
      exact if_pos rfl
    have hbox : mail.mailHdr.toBox = box := by
      rcases hin with hasks | ⟨houtside, -⟩
      · rw [hplace] at hasks
        exact Option.some.inj hasks
      · cases houtside.symm.trans hplace
    have hput := (h.held addr).received main mail.mailHdr.toBox mail (by rw [hplace]; rfl)
    rw [hbox] at hput
    have htest : (s.copyOut addr (.go main data)).tests addr = (s.tests addr).receive mail := by
      rw [hcopied]
      exact Function.update_self _ _ _
    rw [htest]
    exact .inr ⟨Function.update_self main _ (s.net.hosts addr).places, mail, hput,
      has_receive _ mail⟩
  · -- another thread
    have hmain : ((s.net.hosts addr).goto t .outside).places main =
        (s.net.hosts addr).places main := Function.update_of_ne ht _ _
    rcases hin with hasks | ⟨houtside, mail', hput, hhas⟩
    · exact .inl (hmain ▸ hasks)
    · refine .inr ⟨hmain.trans houtside, mail', hput, ?_⟩
      rwa [tests_copyOut_of_outside houtside]

theorem got (h : Inv s) {t : Tid} {data : Bytes} {mail : Mail}
    (hplace : (s.net.hosts addr).places t = .got mail)
    (hnet : (s.net.set addr ((s.net.hosts addr).got t mail)).Inv) :
    Inv { s.copyOut addr (.go t data) with
      net := s.net.set addr ((s.net.hosts addr).got t mail) } := by
  unfold Host.got at hnet ⊢
  split at hnet
  · rename_i hlength
    rw [if_pos hlength]
    have hheld := h.held addr
    refine h.copyOut hnet ?_ ?_ (.inl rfl) ?_
    · refine (Function.forall_update_iff s.net.hosts fun _ h => h.Held).mpr
        ⟨⟨hheld.list, hheld.box, ?_⟩, fun a _ => h.held a⟩
      refine (Function.forall_update_iff (s.net.hosts addr).places fun _ p => ∀ box mail,
        p.received = some (box, mail) → mail ∈ ((s.net.hosts addr).boxes box).put).mpr
        ⟨?_, fun u _ => hheld.received u⟩
      intro box mail' hmail
      cases hmail
    · refine (Function.forall_update_iff s.net.hosts fun a h => ∀ t o,
        (h.places t).outgoing = some o → ((s.net.hosts a).places t).outgoing = some o).mpr
        ⟨?_, fun a _ t o => id⟩
      refine (Function.forall_update_iff (s.net.hosts addr).places fun u p => ∀ o,
        p.outgoing = some o → ((s.net.hosts addr).places u).outgoing = some o).mpr
        ⟨?_, fun u _ o => id⟩
      intro o ho
      cases ho
    · refine (Function.forall_update_iff s.net.hosts fun a h => ∀ box, h.up = true →
        (s.tests a).stage.expects = some box → InReceive h _ box).mpr ⟨?_, ?_⟩
      · exact fun box hup hexpects => h.inReceive_of_got hplace (h.receives addr box hup hexpects)
      · exact fun a _ box hup hexpects =>
          inReceive_of_steady (.refl (h.held a)) (h.receives a box hup hexpects)
  · rename_i hlength
    rw [if_neg hlength]
    exact h.steady hnet (Net.steady_set h.held (Host.steady_abort (h.held addr))) (.inl rfl)

theorem net_step (h : Inv s) (hstep : s.net.step (addr, action) = some net)
    (hcall : ∀ t call buffer, action ≠ .call t call buffer)
    (hreceive : ∀ t box, action ≠ .receive t box) :
    Inv { s.copyOut addr action with net := net } := by
  have hnet := h.net.step hstep
  rcases Net.steady_step h.held hstep hcall hreceive with ⟨hsteady, hsent⟩ | hgot
  · exact h.steady hnet hsteady hsent
  · obtain ⟨t, data, mail, rfl, hplace, rfl⟩ := hgot
    exact h.got hplace hnet

end Inv

/-! ## Steps of the test -/

/-- Out of a box comes what one of the tests has sent to it. -/
theorem Inv.exists_sent {s : State} (h : Inv s) {a : NetworkAddress} {box : MailBoxAddress}
    {mail : Mail} (hput : mail ∈ ((s.net.hosts a).boxes box).put) (hhas : (s.tests a).Has mail) :
    ∃ e ∈ s.net.sent, e.call.pktHdr.toAddr = a ∧ e.call.mailHdr.toBox = box ∧
      (s.tests a).inPktHdr.fromAddr = e.sender ∧ (s.tests a).inMailHdr = e.call.mailHdr ∧
      contents (s.tests a).buffer e.call.mailHdr.length =
        contents e.call.data e.call.mailHdr.length := by
  obtain ⟨e, he, hto, hbox, hletter⟩ := h.net.exists_sent hput
  have hsender : mail.pktHdr.fromAddr = e.sender := congrArg Letter.sender hletter
  have hhdr : mail.mailHdr = e.call.mailHdr := congrArg Letter.mailHdr hletter
  have hdata : contents mail.data mail.mailHdr.length =
      contents e.call.data e.call.mailHdr.length := congrArg Letter.data hletter
  refine ⟨e, he, hto, hbox, ?_, hhas.mailHdr.trans hhdr, ?_⟩
  · rw [hhas.pktHdr, hsender]
  · rw [← hdata, ← hhas.buffer, hhdr]

/-- What `MailTest` prints next. -/
def Test.line (test : Test) : Line :=
  ⟨test.text, test.inPktHdr.fromAddr, test.inMailHdr.fromBox⟩

section Lines

variable {s : State} {a : NetworkAddress} {mail : Mail}

theorem Inv.greets (h : Inv s) (hput : mail ∈ ((s.net.hosts a).boxes 0#32).put)
    (hhas : (s.tests a).Has mail) :
    Greets s.tests a (s.tests a).line ∧ (s.tests a).inMailHdr.fromBox = 1#32 := by
  obtain ⟨e, he, hto, hbox, hsender, hhdr, hbuffer⟩ := h.exists_sent hput hhas
  rcases h.sent e he with ⟨hfar, hmailHdr, hdata⟩ | ⟨hmailHdr, -, -⟩
  · rw [hdata, hmailHdr] at hbuffer
    rw [hmailHdr] at hhdr
    have hfrom : (s.tests a).inMailHdr.fromBox = 1#32 := by rw [hhdr]
    refine ⟨⟨text_of_contents (by decide) (by decide) hbuffer, hfrom, ?_⟩, hfrom⟩
    show (s.tests (s.tests a).inPktHdr.fromAddr).farAddr = a
    rw [hsender, ← hfar, hto]
  · rw [hmailHdr] at hbox
    exact absurd hbox (by decide)

theorem Inv.acknowledges (h : Inv s) (hput : mail ∈ ((s.net.hosts a).boxes 1#32).put)
    (hhas : (s.tests a).Has mail) : Acknowledges s.tests a (s.tests a).line := by
  obtain ⟨e, he, hto, hbox, hsender, hhdr, hbuffer⟩ := h.exists_sent hput hhas
  rcases h.sent e he with ⟨-, hmailHdr, -⟩ | ⟨hmailHdr, hdata, hprinted⟩
  · rw [hmailHdr] at hbox
    exact absurd hbox (by decide)
  · rw [hdata, hmailHdr] at hbuffer
    rw [hmailHdr] at hhdr
    rw [hto] at hprinted
    have hfar := ((h.printed e.sender).greets hprinted).farAddr
    refine ⟨text_of_contents (by decide) (by decide) hbuffer, ?_, ?_, ?_⟩
    · show (s.tests a).inMailHdr.fromBox = 1#32
      rw [hhdr]
    · show (s.tests a).inPktHdr.fromAddr = (s.tests a).farAddr
      rw [hsender]
      exact hfar.symm
    · show (s.tests (s.tests a).inPktHdr.fromAddr).printed.head? = some ⟨hello, a, 1#32⟩
      rw [hsender]
      exact hprinted

end Lines

/-! ### The calls -/

section Calls

variable {h : Host}

/-- What a call that begins does to the hands of the threads. -/
theorem held_goto (hheld : h.Held) {place : Place} (hreceived : place.received = none) :
    (h.goto main place).Held := by
  refine ⟨hheld.list, hheld.box, (Function.forall_update_iff h.places fun _ p => ∀ box mail,
    p.received = some (box, mail) → mail ∈ (h.boxes box).put).mpr
    ⟨fun box mail hmail => ?_, fun t _ => hheld.received t⟩⟩
  rw [hreceived] at hmail
  cases hmail

theorem outgoing_goto {place : Place} {P : Outgoing → Prop}
    (hplace : ∀ o, place.outgoing = some o → P o) :
    ∀ t o, ((h.goto main place).places t).outgoing = some o →
      P o ∨ (h.places t).outgoing = some o :=
  (Function.forall_update_iff h.places fun t p => ∀ o, p.outgoing = some o →
    P o ∨ (h.places t).outgoing = some o).mpr
    ⟨fun o ho => .inl (hplace o ho), fun _ _ _ => .inr⟩

/-- A call of `Send` begins. -/
theorem start_spec (hheld : h.Held) (addr : NetworkAddress) (call : Call) (buffer : Bytes) :
    (h.start addr main call buffer).Held ∧
      ∀ t o, ((h.start addr main call buffer).places t).outgoing = some o →
        o.call = call ∨ (h.places t).outgoing = some o := by
  unfold Host.start
  dsimp only
  split
  · refine ⟨held_goto hheld rfl, outgoing_goto fun o ho => ?_⟩
    cases ho
    rfl
  · exact ⟨hheld.congr rfl rfl, fun _ _ => .inr⟩

/-- A call of `Receive` begins. -/
theorem startReceive_spec (hheld : h.Held) (box : MailBoxAddress) :
    (h.startReceive main box).Held ∧
      (∀ t o, ((h.startReceive main box).places t).outgoing = some o →
        (h.places t).outgoing = some o) ∧
      ((h.startReceive main box).up = true →
        ((h.startReceive main box).places main).asks = some box) := by
  unfold Host.startReceive
  split
  · refine ⟨held_goto hheld rfl, fun t o ho => ?_, fun _ => ?_⟩
    · refine (outgoing_goto (P := fun _ => False) (fun o ho => ?_) t o ho).resolve_left id
      cases ho
    · exact congrArg Place.asks (Function.update_self main _ h.places)
  · refine ⟨hheld.congr rfl rfl, fun _ _ => id, fun hup => ?_⟩
    cases hup

end Calls

/-! ### From call to call -/

namespace Inv

variable {s : State} {net : Net} {addr : NetworkAddress} {test : Test}

/-- Two functions that are updated at the same place. -/
theorem forall_update₂ {α : Type*} [DecidableEq α] {β γ : Type*} {f : α → β} {g : α → γ} {a : α}
    {x : β} {y : γ} {P : α → β → γ → Prop} (hx : P a x y) (hother : ∀ b, P b (f b) (g b)) :
    ∀ b, P b (Function.update f a x b) (Function.update g a y b) := by
  intro b
  by_cases hb : b = a
  · subst hb
    rwa [Function.update_self, Function.update_self]
  · rw [Function.update_of_ne hb, Function.update_of_ne hb]
    exact hother b

/-- One machine and its test go on. -/
theorem set (h : Inv s) {host : Host} (hnet : (s.net.set addr host).Inv) (hheld : host.Held)
    (houtgoing : ∀ t o, (host.places t).outgoing = some o →
      Legit test o.call ∨ ((s.net.hosts addr).places t).outgoing = some o)
    (hlater : Later (s.tests addr) test)
    (hprinted : Printed (Function.update s.tests addr test) addr)
    (hfromBox : test.stage ≠ .start → test.outMailHdr.fromBox = 1#32)
    (hreceives : ∀ box, host.up = true → test.stage.expects = some box →
      InReceive host test box) :
    Inv ({ s with net := s.net.set addr host }.setTest addr test) := by
  have hlaterAll := later_update hlater
  refine ⟨hnet, ?_, ?_, ?_, ?_, ?_, ?_⟩
  · exact (Function.forall_update_iff s.net.hosts fun _ h => h.Held).mpr
      ⟨hheld, fun a _ => h.held a⟩
  · refine forall_update₂ (P := fun _ (h : Host) test => ∀ t o,
      (h.places t).outgoing = some o → Legit test o.call) (fun t o ho => ?_) h.outgoing
    rcases houtgoing t o ho with hnew | hold
    · exact hnew
    · exact (h.outgoing addr t o hold).later hlater
  · exact fun e he => (h.sent e he).later (hlaterAll e.sender)
  · intro a
    by_cases ha : a = addr
    · exact ha ▸ hprinted
    · have hsame : Function.update s.tests addr test a = s.tests a := Function.update_of_ne ha _ _
      exact (h.printed a).later hlaterAll (congrArg Test.stage hsame)
        (congrArg Test.printed hsame)
  · exact (Function.forall_update_iff s.tests fun _ test => test.stage ≠ .start →
      test.outMailHdr.fromBox = 1#32).mpr ⟨hfromBox, fun a _ => h.fromBox a⟩
  · exact forall_update₂ (P := fun _ (h : Host) (test : Test) => ∀ box, h.up = true →
      test.stage.expects = some box → InReceive h test box) hreceives h.receives

variable (hup : (s.net.hosts addr).up = true) (houtside : (s.net.hosts addr).places main = .outside)

include hup houtside

theorem call (h : Inv s) {call : Call} {buffer : Bytes}
    (hstep : s.net.step (addr, .call main call buffer) = some net)
    (hlegit : Legit test call) (hlater : Later (s.tests addr) test)
    (hprinted : Printed (Function.update s.tests addr test) addr)
    (hfromBox : test.outMailHdr.fromBox = 1#32) (hexpects : test.stage.expects = none) :
    Inv ({ s with net := net }.setTest addr test) := by
  have hnet := h.net.step hstep
  have hset : net = s.net.set addr ((s.net.hosts addr).start addr main call buffer) := by
    simpa [Net.step, Host.step, hup, houtside] using hstep.symm
  subst hset
  obtain ⟨hheld, houtgoing⟩ := start_spec (h.held addr) addr call buffer
  refine h.set hnet hheld (fun t o ho => (houtgoing t o ho).imp_left ?_) hlater hprinted
    (fun _ => hfromBox) fun box _ hbox => ?_
  · rintro rfl
    exact hlegit
  · cases hexpects.symm.trans hbox

theorem receive (h : Inv s) {box : MailBoxAddress}
    (hstep : s.net.step (addr, .receive main box) = some net)
    (hlater : Later (s.tests addr) test)
    (hprinted : Printed (Function.update s.tests addr test) addr)
    (hfromBox : test.outMailHdr.fromBox = 1#32) (hexpects : test.stage.expects = some box) :
    Inv ({ s with net := net }.setTest addr test) := by
  have hnet := h.net.step hstep
  have hset : net = s.net.set addr ((s.net.hosts addr).startReceive main box) := by
    simpa [Net.step, Host.step, hup, houtside] using hstep.symm
  subst hset
  obtain ⟨hheld, houtgoing, hasks⟩ := startReceive_spec (h.held addr) box
  refine h.set hnet hheld (fun t o ho => .inr (houtgoing t o ho)) hlater hprinted
    (fun _ => hfromBox) fun box' hup' hbox' => ?_
  cases hexpects.symm.trans hbox'
  exact .inl (hasks hup')

end Inv

theorem contents_data :
    contents (fun k => data.getD k 0#8) (BitVec.ofNat 32 data.length) = data := by
  decide

theorem contents_ack :
    contents (fun k => ack.getD k 0#8) (BitVec.ofNat 32 ack.length) = ack := by
  decide

/-- `MailTest` goes on with a call. -/
theorem Inv.next_call {s : State} {net : Net} {addr : NetworkAddress} {buffer : Bytes}
    {test : Test} {action : Host.Action} (h : Inv s) (hup : (s.net.hosts addr).up = true)
    (houtside : (s.net.hosts addr).places main = .outside)
    (hnext : (s.tests addr).next buffer = some (test, some action))
    (hstep : s.net.step (addr, action) = some net) :
    Inv ({ s with net := net }.setTest addr test) := by
  have hold := h.printed addr
  unfold Printed at hold
  cases hstage : (s.tests addr).stage with
  | start =>
      rw [hstage] at hold
      rw [Test.next, hstage] at hnext
      cases hnext
      refine h.call hup houtside hstep (.inl ⟨rfl, rfl, contents_data⟩) ⟨rfl, List.prefix_rfl⟩ ?_
        rfl rfl
      unfold Printed
      rw [Function.update_self]
      exact hold
  | sending =>
      rw [hstage] at hold
      rw [Test.next, hstage] at hnext
      cases hnext
      refine h.receive hup houtside hstep ⟨rfl, List.prefix_rfl⟩ ?_
        (h.fromBox addr (by rw [hstage]; simp)) rfl
      unfold Printed
      rw [Function.update_self]
      exact hold
  | receiving =>
      rw [hstage] at hold
      rw [Test.next, hstage] at hnext
      cases hnext
      have hfromBox := h.fromBox addr (by rw [hstage]; simp)
      rcases h.receives addr 0#32 hup (by rw [hstage]; rfl) with hasks | ⟨-, mail, hput, hhas⟩
      · rw [houtside] at hasks
        cases hasks
      · obtain ⟨hgreets, hbox⟩ := h.greets hput hhas
        have hlater : Later (s.tests addr) { (s.tests addr).print.reply with stage := .acking } :=
          ⟨rfl, List.prefix_append _ _⟩
        have hprinted : (s.tests addr).print.printed = [(s.tests addr).line] := by
          rw [Test.print, hold]
          rfl
        refine h.call hup houtside hstep (.inr ⟨?_, contents_ack, ?_⟩) hlater ?_ hfromBox rfl
        · show MailHeader.mk (s.tests addr).inMailHdr.fromBox
            (s.tests addr).outMailHdr.fromBox _ = _
          rw [hbox, hfromBox]
          rfl
        · show (s.tests addr).print.printed.head? =
            some ⟨hello, (s.tests addr).inPktHdr.fromAddr, 1#32⟩
          have hline : (s.tests addr).line = ⟨hello, (s.tests addr).inPktHdr.fromAddr, 1#32⟩ :=
            congrArg₂ (Line.mk · (s.tests addr).inPktHdr.fromAddr ·) hgreets.text hbox
          rw [hprinted, hline]
          rfl
        · unfold Printed
          rw [Function.update_self]
          exact ⟨_, hprinted, hgreets.later (later_update hlater)⟩
  | acking =>
      rw [hstage] at hold
      rw [Test.next, hstage] at hnext
      cases hnext
      obtain ⟨first, hfirst, hgreets⟩ := hold
      have hlater : Later (s.tests addr) { s.tests addr with stage := .waiting } :=
        ⟨rfl, List.prefix_rfl⟩
      refine h.receive hup houtside hstep hlater ?_ (h.fromBox addr (by rw [hstage]; simp)) rfl
      unfold Printed
      rw [Function.update_self]
      exact ⟨first, hfirst, hgreets.later (later_update hlater)⟩
  | waiting =>
      rw [Test.next, hstage] at hnext
      cases hnext
  | halted =>
      rw [Test.next, hstage] at hnext
      cases hnext

/-- `MailTest` halts the machine. -/
theorem Inv.next_halt {s : State} {addr : NetworkAddress} {buffer : Bytes}
    {test : Test} (h : Inv s) (hup : (s.net.hosts addr).up = true)
    (houtside : (s.net.hosts addr).places main = .outside)
    (hnext : (s.tests addr).next buffer = some (test, none)) :
    Inv ({ s with net := s.net.set addr (s.net.hosts addr).abort }.setTest addr test) := by
  have hold := h.printed addr
  unfold Printed at hold
  cases hstage : (s.tests addr).stage with
  | waiting =>
      rw [hstage] at hold
      rw [Test.next, hstage] at hnext
      cases hnext
      obtain ⟨first, hfirst, hgreets⟩ := hold
      rcases h.receives addr 1#32 hup (by rw [hstage]; rfl) with hasks | ⟨-, mail, hput, hhas⟩
      · rw [houtside] at hasks
        cases hasks
      · have hack := h.acknowledges hput hhas
        have hlater : Later (s.tests addr) { (s.tests addr).print with stage := .halted } :=
          ⟨rfl, List.prefix_append _ _⟩
        have hsteady := Host.steady_abort (h.held addr)
        refine h.set (h.net.abort addr) hsteady.held
          (fun t o ho => .inr (hsteady.outgoing t o ho)) hlater ?_
          (fun _ => h.fromBox addr (by rw [hstage]; simp)) fun box hup' => ?_
        · unfold Printed
          rw [Function.update_self]
          refine ⟨first, (s.tests addr).line, ?_, hgreets.later (later_update hlater),
            hack.later (later_update hlater)⟩
          show (s.tests addr).printed ++ [(s.tests addr).line] = _
          rw [hfirst]
          rfl
        · cases hup'
  | start | sending | receiving | acking | halted =>
      rw [Test.next, hstage] at hnext
      cases hnext

theorem Inv.next {s s' : State} {addr : NetworkAddress} {buffer : Bytes} (h : Inv s)
    (hstep : s.next addr buffer = some s') : Inv s' := by
  unfold State.next at hstep
  split at hstep
  · rename_i test action hup houtside hnext
    obtain ⟨net, hnet, rfl⟩ := Option.map_eq_some_iff.mp hstep
    exact h.next_call hup houtside hnext hnet
  · rename_i test hup houtside hnext
    cases hstep
    exact h.next_halt hup houtside hnext
  · cases hstep

theorem Inv.step {s s' : State} {label : NetworkAddress × State.Action} (h : Inv s)
    (hstep : s.step label = some s') : Inv s' := by
  obtain ⟨addr, action⟩ := label
  cases action with
  | next buffer => exact h.next hstep
  | net action =>
      cases action with
      | call t call buffer => cases hstep
      | receive t box => cases hstep
      | go t data | send t lost buffer | poll ready buffer | sendDone =>
          obtain ⟨net, hnet, rfl⟩ := Option.map_eq_some_iff.mp hstep
          exact h.net_step hnet (by simp) (by simp)

/-- Whatever the machines, the timing and the losses: a machine prints a message that was sent
to it first, and then the acknowledgment of its own message, which the machine it has written
to has printed before. -/
theorem printed_messages (up : NetworkAddress → Bool) (numBoxes : NetworkAddress → ℤ)
    (inHdr : NetworkAddress → PacketHeader) (inbox hostBuffer : NetworkAddress → Bytes)
    (farAddr : NetworkAddress → NetworkAddress)
    (outPktHdr inPktHdr : NetworkAddress → PacketHeader)
    (outMailHdr inMailHdr : NetworkAddress → MailHeader) (buffer : NetworkAddress → Bytes)
    (labels : List (NetworkAddress × State.Action)) :
    AllStates State.step (fun s => ∀ addr, Printed s.tests addr)
      (boot (Post.boot up numBoxes inHdr inbox hostBuffer) farAddr outPktHdr inPktHdr outMailHdr
        inMailHdr buffer) labels := by
  have hheld (a : NetworkAddress) :
      ((Post.boot up numBoxes inHdr inbox hostBuffer).hosts a).Held := .create _ _ _ _ _
  have hboot : Inv (boot (Post.boot up numBoxes inHdr inbox hostBuffer) farAddr outPktHdr inPktHdr
      outMailHdr inMailHdr buffer) := by
    refine ⟨.boot _ _ _ _ _, hheld, ?_, ?_, ?_, ?_, ?_⟩
    · intro a t o ho
      cases ho.symm.trans (Host.outgoing_create _ _ _ _ _ t)
    · intro e he
      cases he
    · exact fun a => rfl
    · exact fun a hstage => absurd rfl hstage
    · intro a box _ hexpects
      cases hexpects
  exact (allStates_of_keep (fun s label s' hstep hinv => hinv.step hstep) labels hboot).mono
    fun s hinv => hinv.printed

/-- Machines 0 and 1, in step and without a loss, both reach `Halt`. -/
example :
    let garbage : Bytes := fun _ => 0xff#8
    let zeros : PacketHeader := ⟨0#32, 0#32, 0#32⟩
    let go (t : Tid) : State.Action := .net (.go t garbage)
    let send : List State.Action :=
      [.next garbage, go main, .net (.send main false garbage), .net .sendDone, go main, go main]
    let deliver : List State.Action :=
      .net (.poll true garbage) :: List.replicate 5 (go postalWorker)
    let receive : List State.Action := .next garbage :: List.replicate 4 (go main)
    let both (actions : List State.Action) : List (NetworkAddress × State.Action) :=
      actions.map (Prod.mk 0#32) ++ actions.map (Prod.mk 1#32)
    let round := both send ++ both deliver ++ both receive
    (exec State.step
      (boot (Post.boot (fun _ => true) (fun _ => 10) (fun _ => zeros) (fun _ => garbage)
        fun _ => garbage) (fun addr => 1#32 - addr) (fun _ => zeros) (fun _ => zeros)
        (fun _ => ⟨0#32, 0#32, 0#32⟩) (fun _ => ⟨0#32, 0#32, 0#32⟩) fun _ => garbage)
      (round ++ round ++ both [.next garbage])).map
      (fun s => [s.tests 0#32, s.tests 1#32].map fun test => (test.stage, test.printed)) =
    some [(.halted, [⟨hello, 1#32, 1#32⟩, ⟨gotIt, 1#32, 1#32⟩]),
      (.halted, [⟨hello, 0#32, 1#32⟩, ⟨gotIt, 0#32, 1#32⟩])] := by
  decide +kernel

end Nachos.Post.MailTest
