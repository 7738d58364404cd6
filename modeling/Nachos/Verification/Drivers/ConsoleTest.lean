import Nachos.Library.Runs
import Nachos.Model.ConsoleTest
import Nachos.Verification.Drivers.Device

/-! # The echo of the console test

A character is in one place at a time: on the display, in the variable `ch`, in the buffer of
the console or in the input. -/

namespace Nachos.ConsoleTest

open Runs State SynchConsole

/-! ## The echo -/

/-- What is typed, up to the first `q`. -/
def echo : List Byte → List Byte
  | [] => []
  | c :: stream => if c = quit then [c] else c :: echo stream

theorem echo_append {earlier : List Byte} (h : quit ∉ earlier) (rest : List Byte) :
    echo (earlier ++ rest) = earlier ++ echo rest := by
  induction earlier with
  | nil => rfl
  | cons c earlier ih =>
      rw [List.mem_cons, not_or] at h
      rw [List.cons_append, echo, if_neg (Ne.symm h.1), ih h.2]
      rfl

theorem prefix_echo_cons (c : Byte) (rest : List Byte) : [c] <+: echo (c :: rest) := by
  rw [echo]
  split
  · exact List.prefix_rfl
  · exact List.prefix_append [c] (echo rest)

theorem echo_quit (rest : List Byte) : echo (quit :: rest) = [quit] :=
  if_pos rfl

/-! ## Places -/

namespace Place

/-- The character that was fetched and is not on the display yet. -/
def fetched : Place → List Byte
  | .putChar ch => [ch]
  | _ => []

/-- The last character on the display, if the thread has yet to test it or has found it to be
a `q`. -/
def shown : Place → List Byte
  | .wait ch | .asleep ch | .test ch => [ch]
  | .returned => [quit]
  | _ => []

/-- How the thread is served by the display; `true` when it sleeps. -/
def served : Place → Option (Tid × Bool)
  | .wait _ => some (main, false)
  | .asleep _ => some (main, true)
  | _ => none

/-- The steps that are left until the thread is asleep in `readAvail->P()`, but for those that
an interrupt or a character in the buffer adds. -/
def work : Place → ℕ
  | .avail => 1
  | .availAsleep => 0
  | .getChar => 7
  | .putChar _ => 6
  | .wait _ => 3
  | .asleep _ => 2
  | .test _ => 2
  | .returned => 0

end Place

/-- The buffer of the console. -/
def buffered (incoming : Byte) : List Byte :=
  if incoming = eof then [] else [incoming]

theorem buffered_eof : buffered eof = [] :=
  if_pos rfl

theorem buffered_of_ne {c : Byte} (h : c ≠ eof) : buffered c = [c] :=
  if_neg h

theorem length_buffered_le (c : Byte) : (buffered c).length ≤ 1 := by
  rw [buffered]
  split <;> simp

theorem eq_eof_of_length {c : Byte} (h : (buffered c).length = 0) : c = eof := by
  by_contra hne
  rw [buffered_of_ne hne] at h
  cases h

/-! ## The invariant -/

structure Inv (stream : List Byte) (s : State) : Prop where
  running : s.stop = none
  all : s.display ++ s.place.fetched ++ buffered s.incoming ++ s.input = stream
  shown : ∃ earlier, quit ∉ earlier ∧ s.display = earlier ++ s.place.shown
  /-- The token in `readAvail` is that of the character in the buffer. -/
  token : s.readAvail.value + (if s.place = .getChar then 1 else 0) =
    (buffered s.incoming).length
  queue : s.readAvail.queue = if s.place = .availAsleep then [main] else []
  asleep : s.place = .availAsleep → s.incoming = eof
  serving : s.device.Serving s.place.served

/-- No step that is left changes anything. -/
def Settled (s : State) : Prop :=
  ∀ label s', s.step label = some s' → s' = s

/-- What holds of the echo at any time. -/
structure Echoing (stream : List Byte) (s : State) : Prop where
  running : s.stop = none
  shown : s.display <+: echo stream
  returned : s.place = .returned → quit ∈ stream ∧ s.display = echo stream
  settled : Settled s → s.display = echo stream

/-- The steps that are left for what has been typed. -/
def work (s : State) : ℕ :=
  8 * s.input.length + 7 * s.readAvail.value + s.place.work + 2 * s.device.scheduled

/-- The steps of a run that are not polls of the keyboard. -/
def moves (labels : List Label) : ℕ :=
  labels.countP fun
    | .poll _ => false
    | _ => true

namespace Inv

variable {stream : List Byte} {s s' : State} {ch : Byte}

theorem create (stream : List Byte) : Inv stream (create stream) where
  running := rfl
  all := rfl
  shown := ⟨[], List.not_mem_nil, rfl⟩
  token := rfl
  queue := rfl
  asleep := by simp [ConsoleTest.create]
  serving := Device.serving_create

/-! ### One lemma for each step -/

theorem avail (h : Inv stream s) (hplace : s.place = .avail) :
    Inv stream s.avail ∧ work s.avail < work s := by
  have hall := h.all
  have hshown := h.shown
  have htoken := h.token
  have hqueue := h.queue
  have hserving := h.serving
  rw [hplace] at hall hshown htoken hqueue hserving
  rw [if_neg (by simp), add_zero] at htoken
  rw [if_neg (by simp)] at hqueue
  unfold State.avail Semaphore.p
  by_cases hzero : s.readAvail.value = 0
  · rw [if_pos hzero]
    rw [hzero] at htoken
    refine ⟨⟨h.running, hall, hshown, ?_, ?_, ?_, hserving⟩, ?_⟩
    · simp [hzero, ← htoken]
    · simp [hqueue]
    · exact fun _ => eq_eof_of_length htoken.symm
    · simp [work, hplace, Place.work]
  · have hone : s.readAvail.value = 1 := by
      have := length_buffered_le s.incoming
      omega
    rw [if_neg hzero]
    refine ⟨⟨h.running, hall, hshown, ?_, ?_, by simp, hserving⟩, ?_⟩
    · simp [hone, ← htoken]
    · simpa using hqueue
    · simp [work, hplace, Place.work, hone]

theorem getChar (h : Inv stream s) (hplace : s.place = .getChar) :
    Inv stream s.getChar ∧ work s.getChar < work s := by
  have hall := h.all
  have hshown := h.shown
  have htoken := h.token
  have hqueue := h.queue
  have hserving := h.serving
  rw [hplace] at hall hshown htoken hqueue hserving
  rw [if_pos rfl] at htoken
  have hle := length_buffered_le s.incoming
  have hzero : s.readAvail.value = 0 := by omega
  have hne : s.incoming ≠ eof := by
    intro heof
    rw [heof, buffered_eof] at htoken
    cases htoken
  refine ⟨⟨h.running, ?_, hshown, ?_, hqueue, fun _ => rfl, hserving⟩, ?_⟩
  · -- the character moves from the buffer into the variable
    rw [buffered_of_ne hne] at hall
    simpa [State.getChar, Place.fetched, buffered_eof] using hall
  · simp [State.getChar, hzero, buffered_eof]
  · simp [work, State.getChar, hplace, Place.work]

theorem putChar (h : Inv stream s) (hplace : s.place = .putChar ch) :
    Inv stream (s.putChar ch) ∧ work (s.putChar ch) < work s := by
  have hall := h.all
  obtain ⟨earlier, hquit, hshown⟩ := h.shown
  have htoken := h.token
  have hqueue := h.queue
  have hserving := h.serving
  rw [hplace] at hall hshown htoken hqueue hserving
  obtain ⟨device, hdevice, hscheduled, hserving'⟩ := hserving.request main
  rw [State.putChar, hdevice]
  refine ⟨⟨h.running, ?_, ⟨earlier, hquit, ?_⟩, htoken, hqueue, by simp, hserving'⟩, ?_⟩
  · simpa [Place.fetched] using hall
  · simpa [Place.shown] using hshown
  · simp [work, hplace, Place.work, hscheduled]
    omega

theorem wait (h : Inv stream s) (hplace : s.place = .wait ch) :
    Inv stream (s.wait ch) ∧ work (s.wait ch) < work s := by
  have hall := h.all
  have hshown := h.shown
  have htoken := h.token
  have hqueue := h.queue
  have hserving := h.serving
  rw [hplace] at hall hshown htoken hqueue hserving
  unfold State.wait
  rcases hserving.wait with ⟨htaken, hquiet, hscheduled, hserving'⟩ |
    ⟨hasleep, hscheduled, hserving'⟩
  · rw [show s.device.wait main = ((s.device.wait main).1, true) from Prod.ext rfl htaken]
    refine ⟨⟨h.running, hall, hshown, htoken, hqueue, by simp, hserving'⟩, ?_⟩
    simp [work, hplace, Place.work, hscheduled, hquiet]
  · rw [show s.device.wait main = ((s.device.wait main).1, false) from Prod.ext rfl hasleep]
    refine ⟨⟨h.running, hall, hshown, htoken, hqueue, by simp, hserving'⟩, ?_⟩
    simp [work, hplace, Place.work, hscheduled]

theorem test (h : Inv stream s) (hplace : s.place = .test ch) :
    Inv stream { s with place := if ch = quit then .returned else .avail } ∧
      work { s with place := if ch = quit then .returned else .avail } < work s := by
  have hall := h.all
  obtain ⟨earlier, hquit, hshown⟩ := h.shown
  have htoken := h.token
  have hqueue := h.queue
  have hserving := h.serving
  rw [hplace] at hall hshown htoken hqueue hserving
  by_cases hch : ch = quit
  · rw [if_pos hch]
    rw [hch] at hshown
    refine ⟨⟨h.running, hall, ⟨earlier, hquit, hshown⟩, htoken, hqueue, by simp, hserving⟩, ?_⟩
    simp [work, hplace, Place.work]
  · rw [if_neg hch]
    refine ⟨⟨h.running, hall, ⟨earlier ++ [ch], ?_, ?_⟩, htoken, hqueue, by simp, hserving⟩, ?_⟩
    · simp [hquit, Ne.symm hch]
    · simpa [Place.shown] using hshown
    · simp [work, hplace, Place.work]

theorem poll (h : Inv stream s) (heof : eof ∉ stream) (ready : Bool) :
    Inv stream (s.poll ready) ∧ work (s.poll ready) ≤ work s := by
  unfold State.poll
  cases hinput : s.input with
  | nil => exact ⟨h, le_rfl⟩
  | cons c input =>
      dsimp only
      by_cases hfull : s.incoming ≠ eof ∨ ready = false
      · rw [if_pos hfull]
        exact ⟨h, le_rfl⟩
      · rw [if_neg hfull]
        obtain ⟨hincoming, -⟩ := not_or.mp hfull
        have hempty : s.incoming = eof := not_not.mp hincoming
        have hall := h.all
        have htoken := h.token
        have hqueue := h.queue
        rw [hempty, buffered_eof, hinput] at hall
        rw [hempty, buffered_eof, List.length_nil] at htoken
        have hzero : s.readAvail.value = 0 := by omega
        have hne : c ≠ eof := by
          rintro rfl
          exact heof (hall ▸ by simp)
        by_cases hplace : s.place = .availAsleep
        · -- the thread waits for this character
          rw [if_pos hplace] at hqueue
          have hserving := h.serving
          have hshown := h.shown
          rw [hplace] at hall hserving hshown
          simp only [State.wake, Semaphore.v, hqueue, hplace]
          refine ⟨⟨h.running, ?_, hshown, ?_, by simp, by simp, hserving⟩, ?_⟩
          · rw [buffered_of_ne hne]
            simpa [Place.fetched] using hall
          · simp [hzero, buffered_of_ne hne]
          · simp [work, hplace, hinput, hzero, Place.work]
            omega
        · rw [if_neg hplace] at hqueue
          have hgetChar : s.place ≠ .getChar := by
            intro hplace'
            rw [if_pos hplace'] at htoken
            omega
          simp only [State.wake, Semaphore.v, hqueue]
          refine ⟨⟨h.running, ?_, h.shown, ?_, ?_, fun hplace' => absurd hplace' hplace,
            h.serving⟩, ?_⟩
          · rw [buffered_of_ne hne]
            simpa using hall
          · simp [hzero, hgetChar, buffered_of_ne hne]
          · simp [hplace]
          · simp [work, hinput, hzero]
            omega

theorem interrupt (h : Inv stream s) (hstep : s.interrupt = some s') :
    Inv stream s' ∧ work s' < work s := by
  obtain ⟨⟨device, woken⟩, hinterrupt, rfl⟩ := Option.map_eq_some_iff.mp hstep
  obtain ⟨hscheduled, t, hserving', hwoken⟩ := h.serving.interrupt hinterrupt
  have hall := h.all
  have hshown := h.shown
  have htoken := h.token
  have hqueue := h.queue
  rcases hwoken with ⟨hserved, rfl⟩ | ⟨hserved, rfl⟩
  · cases hplace : s.place <;> rw [hplace] at hserved <;> cases hserved
    rename_i ch
    rw [hplace] at hall hshown htoken hqueue
    simp only [State.wake]
    refine ⟨⟨h.running, hall, hshown, htoken, hqueue, by simp, hserving'⟩, ?_⟩
    simp [work, hplace, Place.work, hscheduled]
    omega
  · have hserving : device.Serving s.place.served := hserved ▸ hserving'
    refine ⟨⟨h.running, hall, hshown, htoken, hqueue, h.asleep, hserving⟩, ?_⟩
    simp [work, State.wake, hscheduled]

/-! ### Runs -/

theorem step (h : Inv stream s) (heof : eof ∉ stream) {label : Label}
    (hstep : s.step label = some s') : Inv stream s' ∧ moves [label] + work s' ≤ work s := by
  unfold State.step at hstep
  rw [if_neg (by simp [h.running])] at hstep
  cases label with
  | poll ready =>
      cases hstep
      obtain ⟨hinv, hwork⟩ := h.poll heof ready
      exact ⟨hinv, by simpa [moves] using hwork⟩
  | interrupt =>
      obtain ⟨hinv, hwork⟩ := h.interrupt hstep
      exact ⟨hinv, by simp [moves]; omega⟩
  | go =>
      have hgo : Inv stream s' ∧ work s' < work s := by
        dsimp only at hstep
        split at hstep <;> rename_i hplace <;> cases hstep
        · exact h.avail hplace
        · exact h.getChar hplace
        · exact h.putChar hplace
        · exact h.wait hplace
        · exact h.test hplace
      exact ⟨hgo.1, by simp [moves]; omega⟩

theorem display_prefix (h : Inv stream s) : s.display <+: echo stream := by
  obtain ⟨earlier, hquit, hshown⟩ := h.shown
  rw [← h.all, hshown]
  simp only [List.append_assoc]
  rw [echo_append hquit, List.prefix_append_right_inj]
  cases s.place <;> first | exact List.nil_prefix | exact prefix_echo_cons _ _

theorem returned (h : Inv stream s) (hplace : s.place = .returned) :
    quit ∈ stream ∧ s.display = echo stream := by
  obtain ⟨earlier, hquit, hshown⟩ := h.shown
  rw [hplace] at hshown
  have hdisplay : s.display = earlier ++ [quit] := hshown
  rw [← h.all, hdisplay]
  refine ⟨by simp, ?_⟩
  simp only [List.append_assoc, List.cons_append, List.nil_append]
  rw [echo_append hquit, echo_quit]

/-- A step other than a poll is not idle. -/
theorem not_settled (h : Inv stream s) (heof : eof ∉ stream) {label : Label}
    (hmove : moves [label] = 1) (hstep : s.step label = some s') : ¬ Settled s := by
  intro hsettled
  have hwork := (h.step heof hstep).2
  rw [hsettled label s' hstep, hmove] at hwork
  omega

theorem settled (h : Inv stream s) (heof : eof ∉ stream) (hsettled : Settled s) :
    s.display = echo stream := by
  have hstop : ¬ s.stop.isSome = true := by simp [h.running]
  cases hplace : s.place with
  | returned => exact (h.returned hplace).2
  | availAsleep =>
      have hempty := h.asleep hplace
      cases hinput : s.input with
      | nil =>
          obtain ⟨earlier, hquit, hshown⟩ := h.shown
          have hall := h.all
          rw [hplace] at hall hshown
          rw [hempty, buffered_eof, hinput] at hall
          have hdisplay : s.display = earlier := by simpa [Place.shown] using hshown
          have hstream : s.display = stream := by simpa [Place.fetched] using hall
          rw [← hstream, hdisplay]
          simpa [echo] using (echo_append hquit []).symm
      | cons c input =>
          -- a poll would fetch the next character
          have hpoll : s.step (.poll true) = some (s.poll true) := if_neg hstop
          have hsame := congrArg State.input (hsettled _ _ hpoll)
          rw [State.poll, hinput] at hsame
          dsimp only at hsame
          rw [if_neg (by simp [hempty])] at hsame
          simp only [Semaphore.v, h.queue, hplace, if_pos, State.wake] at hsame
          exact absurd hsame.symm (List.cons_ne_self c input)
  | asleep ch =>
      have hserving := h.serving
      rw [hplace] at hserving
      have hdue : ∃ result, s.device.interrupt = some result := by
        generalize s.device = device at hserving
        cases hserving
        exact ⟨_, rfl⟩
      obtain ⟨result, hinterrupt⟩ := hdue
      have hstep : s.step .interrupt = some _ :=
        (if_neg hstop).trans (congrArg (Option.map _) hinterrupt)
      exact absurd hsettled (h.not_settled heof rfl hstep)
  | avail | getChar | putChar ch | wait ch | test ch =>
      have hgo : ∃ s', s.step .go = some s' := by
        rw [State.step, if_neg hstop, hplace]
        exact ⟨_, rfl⟩
      obtain ⟨s', hstep⟩ := hgo
      exact absurd hsettled (h.not_settled heof rfl hstep)

theorem echoing (h : Inv stream s) (heof : eof ∉ stream) : Echoing stream s :=
  ⟨h.running, h.display_prefix, h.returned, h.settled heof⟩

end Inv

theorem moves_cons (label : Label) (labels : List Label) :
    moves (label :: labels) = moves [label] + moves labels := by
  show moves ([label] ++ labels) = _
  rw [moves, List.countP_append]
  rfl

/-- What is typed bounds the steps that a run can take. -/
theorem moves_le {stream : List Byte} {s s' : State} {labels : List Label} (h : Inv stream s)
    (heof : eof ∉ stream) (hexec : exec State.step s labels = some s') :
    moves labels ≤ work s := by
  induction labels generalizing s with
  | nil => exact Nat.zero_le _
  | cons label labels ih =>
      obtain ⟨s₁, hstep, hrest⟩ := Option.bind_eq_some_iff.mp hexec
      obtain ⟨hinv, hwork⟩ := h.step heof hstep
      have := ih hinv hrest
      rw [moves_cons]
      omega

/-- Whatever the order of the thread, the polls and the interrupts: the ASSERT of `PutChar`
holds, the display shows the beginning of what is typed up to the first `q`, and all of it when
the test has returned or has nothing left to do, which it reaches after at most eight steps for
each character. -/
theorem console_echoes {stream : List Byte} (heof : eof ∉ stream) (labels : List Label) :
    AllStates State.step (Echoing stream) (create stream) labels ∧
      ∀ s, exec State.step (create stream) labels = some s →
        moves labels ≤ 8 * stream.length + 1 := by
  constructor
  · have hall : AllStates State.step (Inv stream) (create stream) labels :=
      allStates_of_keep (fun s label s' hstep h => (h.step heof hstep).1) labels (.create stream)
    exact hall.mono fun s h => h.echoing heof
  · intro s hexec
    exact moves_le (.create stream) heof hexec

/-- The second character is typed while the first one is on its way to the display. -/
def typedAhead : List Label :=
  [.go, .poll true, .go, .go, .poll true, .go, .go, .interrupt, .go, .go, .go, .go, .go, .interrupt,
    .go, .go]

theorem console_echoes_typedAhead :
    AllStates State.step (Echoing [97#8, quit, 98#8]) (create [97#8, quit, 98#8]) typedAhead ∧
      ∀ s, exec State.step (create [97#8, quit, 98#8]) typedAhead = some s →
        moves typedAhead ≤ 8 * [97#8, quit, 98#8].length + 1 :=
  console_echoes (by decide) typedAhead

example : (exec State.step (create [97#8, quit, 98#8]) typedAhead).map
    (fun s => (s.display, s.place)) = some ([97#8, quit], .returned) := by
  decide

end Nachos.ConsoleTest
