import Nachos.Library.Exclusion
import Nachos.Library.Runs
import Nachos.Verification.Drivers.Device

/-! # The output of the synchronous console

`WLineBlock` lets one thread at a time into the loop of `Write`, so the device serves no other,
and the token in `synchWriteAvail` is that of the last character sent. -/

namespace Nachos.SynchWrite

open Exclusion Runs State

/-! ## Places -/

namespace Place

/-- The call that has the line, and how many characters it has sent. -/
def sent : Place → Option (Call × ℕ)
  | .loop call n => some (call, n)
  | .wait call n | .asleep call n => some (call, n + 1)
  | _ => none

/-- The thread uses the device; `true` when it sleeps. -/
def served : Place → Option Bool
  | .wait _ _ => some false
  | .asleep _ _ => some true
  | _ => none

/-- The thread sleeps until the line is free. -/
def Queued (place : Place) : Prop :=
  ∃ call, place = .lineAsleep call

theorem exists_sent {place : Place} {b : Bool} (h : place.served = some b) :
    ∃ writing, place.sent = some writing := by
  cases place <;> first | exact ⟨_, rfl⟩ | cases h

theorem eq_asleep {place : Place} (h : place.served = some true) :
    ∃ call loop, place = .asleep call loop := by
  cases place <;> first | exact ⟨_, _, rfl⟩ | cases h

end Place

/-! ## The display -/

/-- The buffers of the calls, one behind the other. -/
def buffers (calls : List (Tid × Call)) : List Byte :=
  (calls.map fun entry => entry.2.chars).flatten

/-- What the thread that has the line has sent of its buffer. -/
def progress : Option (Tid × Call × ℕ) → List Byte
  | none => []
  | some (_, call, loop) => call.chars.take loop

/-- The display shows the complete buffers of the calls that are finished, and behind them
the beginning of the buffer of the one call, if any, that has the line. -/
def Atomic (s : State) : Prop :=
  ∃ writer, Sole Place.sent writer s.places ∧ s.display = buffers s.finished ++ progress writer

theorem buffers_append (calls : List (Tid × Call)) (t : Tid) (call : Call) :
    buffers (calls ++ [(t, call)]) = buffers calls ++ call.chars := by
  simp [buffers]

theorem length_chars (call : Call) : call.chars.length = call.numBytes.toNat := by
  simp [Call.chars]

/-- The loop is done when all characters have been sent. -/
theorem take_chars_of_done {call : Call} {loop : ℕ} (h : ¬ (loop : ℤ) < call.numBytes) :
    call.chars.take loop = call.chars := by
  apply List.take_of_length_le
  rw [length_chars]
  omega

/-- One more turn of the loop sends one more character. -/
theorem take_chars_succ {call : Call} {loop : ℕ} (h : (loop : ℤ) < call.numBytes) :
    call.chars.take (loop + 1) = call.chars.take loop ++ [call.source loop] := by
  have hlt : loop < call.chars.length := by
    rw [length_chars]
    omega
  rw [List.take_add_one, List.getElem?_eq_getElem hlt]
  simp [Call.chars]

/-! ## The invariant -/

/-- The one token of `WLineBlock` is there when no thread has the line. -/
structure Line (s : State) (writer : Option (Tid × Call × ℕ)) : Prop where
  sole : Sole Place.sent writer s.places
  token : s.lineBlock.value = if writer.isSome then 0 else 1
  display : s.display = buffers s.finished ++ progress writer

structure Inv (s : State) : Prop where
  running : s.stop = none
  waiting : Waiting Place.Queued s.lineBlock.queue s.places
  line : ∃ writer, Line s writer
  serving : ∃ served, s.device.Serving served ∧ Sole Place.served served s.places

namespace Inv

variable {s s' : State} {t : Tid} {loop : ℕ}

theorem create : Inv create where
  running := rfl
  waiting := .nil _
  line := ⟨none, by simp [Sole, SynchWrite.create, Place.sent], rfl, rfl⟩
  serving := ⟨none, Device.serving_create, by simp [Sole, SynchWrite.create, Place.served]⟩

/-- Only the thread that has the line can be served. -/
theorem served_eq (h : Inv s) {writing : Call × ℕ} (ht : (s.places t).sent = some writing)
    (u : Tid) (b : Bool) (hserved : (s.places u).served = some b) : u = t := by
  obtain ⟨writer, hline⟩ := h.line
  obtain ⟨writing', hu⟩ := Place.exists_sent hserved
  exact hline.sole.unique hu ht

/-- Only one thread has the line. -/
theorem sent_eq (h : Inv s) {writing : Call × ℕ} (ht : (s.places t).sent = some writing)
    (u : Tid) (writing' : Call × ℕ) (hu : (s.places u).sent = some writing') : u = t := by
  obtain ⟨writer, hline⟩ := h.line
  exact hline.sole.unique hu ht

theorem line_of_sent (h : Inv s) {writing : Call × ℕ} (ht : (s.places t).sent = some writing) :
    Line s (some (t, writing)) := by
  obtain ⟨writer, hline⟩ := h.line
  have hwriter := (hline.sole t writing).mpr ht
  exact hwriter ▸ hline

theorem call (h : Inv s) (hplace : s.places t = .outside) (call : Call) :
    Inv (s.goto t (.line call)) := by
  obtain ⟨writer, hline⟩ := h.line
  obtain ⟨served, hserving, htracked⟩ := h.serving
  refine ⟨h.running, h.waiting.move (by simp [hplace, Place.Queued]) _, ⟨writer, ?_⟩,
    served, hserving, htracked.move (by rw [hplace]; rfl)⟩
  exact ⟨hline.sole.move (by rw [hplace]; rfl), hline.token, hline.display⟩

variable {call : Call}

theorem enter (h : Inv s) (hplace : s.places t = .line call) : Inv (s.enter t call) := by
  obtain ⟨writer, hline⟩ := h.line
  obtain ⟨served, hserving, htracked⟩ := h.serving
  have hqueued : ¬ (s.places t).Queued := by simp [hplace, Place.Queued]
  have htoken := hline.token
  unfold State.enter Semaphore.p
  cases hwriter : writer with
  | some writing =>
      -- another thread has the line
      rw [hwriter] at htoken
      have hzero : s.lineBlock.value = 0 := htoken
      rw [if_pos hzero]
      refine ⟨h.running, h.waiting.enqueue hqueued ⟨call, rfl⟩, ⟨writer, ?_⟩,
        served, hserving, htracked.move (by rw [hplace]; rfl)⟩
      exact ⟨hline.sole.move (by rw [hplace]; rfl), hline.token, hline.display⟩
  | none =>
      have hsole := hline.sole
      rw [hwriter] at htoken hsole
      have hone : s.lineBlock.value = 1 := htoken
      rw [if_neg (by omega)]
      refine ⟨h.running, h.waiting.move hqueued _, ⟨some (t, call, 0), ?_⟩,
        served, hserving, htracked.move (by rw [hplace]; rfl)⟩
      refine ⟨Sole.set ?_ (Place.loop call 0), ?_, ?_⟩
      · intro u writing hu
        cases (hsole u writing).mpr hu
      · show s.lineBlock.value - 1 = 0
        omega
      · show s.display = _
        rw [hline.display, hwriter]
        rfl

theorem putChar (h : Inv s) (hplace : s.places t = .loop call loop)
    (hloop : (loop : ℤ) < call.numBytes) : Inv (s.putChar t call loop) := by
  obtain ⟨served, hserving, htracked⟩ := h.serving
  have hsent : (s.places t).sent = some (call, loop) := by rw [hplace]; rfl
  have hline := h.line_of_sent hsent
  have honly := h.served_eq hsent
  have hquiet : served = none := htracked.eq_none honly (by rw [hplace]; rfl)
  rw [hquiet] at hserving
  obtain ⟨device, hdevice, -, hserving'⟩ := hserving.request t
  unfold State.putChar
  rw [hdevice]
  refine ⟨h.running, h.waiting.move (by simp [hplace, Place.Queued]) _,
    ⟨some (t, call, loop + 1), ?_⟩, _, hserving', .set honly (.wait call loop)⟩
  refine ⟨.set (h.sent_eq hsent) (.wait call loop), hline.token, ?_⟩
  show s.display ++ [call.source loop] = buffers s.finished ++ call.chars.take (loop + 1)
  rw [hline.display, take_chars_succ hloop, ← List.append_assoc]
  rfl

theorem wait (h : Inv s) (hplace : s.places t = .wait call loop) :
    Inv (s.wait t call loop) := by
  obtain ⟨served, hserving, htracked⟩ := h.serving
  have hsent : (s.places t).sent = some (call, loop + 1) := by rw [hplace]; rfl
  have hline := h.line_of_sent hsent
  have honly := h.served_eq hsent
  have hserved : served = some (t, false) := (htracked t false).mpr (by rw [hplace]; rfl)
  have hqueued : ¬ (s.places t).Queued := by simp [hplace, Place.Queued]
  rw [hserved] at hserving
  unfold State.wait
  rcases hserving.wait with ⟨htaken, -, -, hserving'⟩ | ⟨hasleep, -, hserving'⟩
  · rw [show s.device.wait t = ((s.device.wait t).1, true) from Prod.ext rfl htaken]
    refine ⟨h.running, h.waiting.move hqueued _, ⟨some (t, call, loop + 1), ?_⟩,
      _, hserving', .set honly (.loop call (loop + 1))⟩
    exact ⟨hline.sole.move (by rw [hplace]; rfl), hline.token, hline.display⟩
  · rw [show s.device.wait t = ((s.device.wait t).1, false) from Prod.ext rfl hasleep]
    refine ⟨h.running, h.waiting.move hqueued _, ⟨some (t, call, loop + 1), ?_⟩,
      _, hserving', .set honly (.asleep call loop)⟩
    exact ⟨hline.sole.move (by rw [hplace]; rfl), hline.token, hline.display⟩

theorem leave (h : Inv s) (hplace : s.places t = .loop call loop)
    (hloop : ¬ (loop : ℤ) < call.numBytes) : Inv (s.leave t call) := by
  obtain ⟨served, hserving, htracked⟩ := h.serving
  have hsent : (s.places t).sent = some (call, loop) := by rw [hplace]; rfl
  have hline := h.line_of_sent hsent
  have htoken : s.lineBlock.value = 0 := hline.token
  have hwaiting := h.waiting.move (i := t) (by simp [hplace, Place.Queued]) .outside
  have htracked' : Sole Place.served served (Function.update s.places t .outside) :=
    htracked.move (by rw [hplace]; rfl)
  have hsole : Sole Place.sent none (Function.update s.places t .outside) :=
    .set (h.sent_eq hsent) .outside
  have hdisplay : s.display = buffers (s.finished ++ [(t, call)]) ++ progress none := by
    rw [hline.display, buffers_append]
    show _ ++ call.chars.take loop = _ ++ []
    rw [take_chars_of_done hloop, List.append_nil]
  unfold State.leave Semaphore.v
  cases hqueue : s.lineBlock.queue with
  | nil =>
      refine ⟨h.running, .nil _, ⟨none, hsole, ?_, hdisplay⟩, served, hserving, htracked'⟩
      show s.lineBlock.value + 1 = 1
      rw [htoken]
  | cons u queue =>
      rw [hqueue] at hwaiting
      obtain ⟨call', hu⟩ := hwaiting.sleeps u List.mem_cons_self
      simp only [State.wake, State.goto, hu]
      refine ⟨h.running, hwaiting.dequeue _, ⟨none, hsole.move (by rw [hu]; rfl), ?_, hdisplay⟩,
        served, hserving, htracked'.move (by rw [hu]; rfl)⟩
      show s.lineBlock.value + 1 = 1
      rw [htoken]

theorem interrupt (h : Inv s) (hstep : s.interrupt = some s') : Inv s' := by
  obtain ⟨served, hserving, htracked⟩ := h.serving
  obtain ⟨⟨device, woken⟩, hinterrupt, rfl⟩ := Option.map_eq_some_iff.mp hstep
  obtain ⟨-, t, hserving', hwoken⟩ := hserving.interrupt hinterrupt
  rcases hwoken with ⟨rfl, rfl⟩ | ⟨rfl, rfl⟩
  · obtain ⟨call, loop, hplace⟩ := Place.eq_asleep ((htracked t true).mp rfl)
    have hsent : (s.places t).sent = some (call, loop + 1) := by rw [hplace]; rfl
    have hline := h.line_of_sent hsent
    simp only [State.wake, State.goto, hplace]
    refine ⟨h.running, h.waiting.move (by simp [hplace, Place.Queued]) _,
      ⟨some (t, call, loop + 1), ?_⟩, _, hserving', .set (h.served_eq hsent) (.wait call loop)⟩
    exact ⟨hline.sole.move (by rw [hplace]; rfl), hline.token, hline.display⟩
  · obtain ⟨writer, hline⟩ := h.line
    exact ⟨h.running, h.waiting, ⟨writer, hline.sole, hline.token, hline.display⟩,
      _, hserving', htracked⟩

end Inv

/-! ## Runs -/

theorem Inv.step {s s' : State} {label : Label} (h : Inv s) (hstep : s.step label = some s') :
    Inv s' := by
  unfold State.step at hstep
  rw [if_neg (by simp [h.running])] at hstep
  cases label with
  | interrupt => exact h.interrupt hstep
  | call t call =>
      dsimp only at hstep
      split at hstep
      · rename_i hplace
        cases hstep
        exact h.call hplace call
      · cases hstep
  | go t =>
      dsimp only at hstep
      split at hstep
      · rename_i call hplace
        cases hstep
        exact h.enter hplace
      · rename_i call loop hplace
        cases hstep
        split
        · rename_i hloop
          exact h.putChar hplace hloop
        · rename_i hloop
          exact h.leave hplace hloop
      · rename_i call loop hplace
        cases hstep
        exact h.wait hplace
      · cases hstep
      · cases hstep
      · cases hstep

/-- Whatever the calls and the order of the threads and the interrupts: the ASSERT of `PutChar`
holds, and the outputs of the calls are not mixed. -/
theorem console_output_atomic (labels : List Label) :
    AllStates step (fun s => s.stop = none ∧ Atomic s) create labels := by
  have hall : AllStates step Inv create labels :=
    allStates_of_keep (fun s label s' hstep h => h.step hstep) labels Inv.create
  apply hall.mono
  intro s h
  obtain ⟨writer, hline⟩ := h.line
  exact ⟨h.running, writer, hline.sole, hline.display⟩

/-- Thread 2 calls `Write` while thread 1 waits for its first character. -/
def twoWriters : List Label :=
  [.call 1 ⟨fun i => if i = 0 then 97#8 else 98#8, 2⟩, .go 1, .go 1, .call 2 ⟨fun _ => 99#8, 1⟩,
    .go 2, .go 1, .interrupt, .go 1, .go 1, .interrupt, .go 1, .go 1, .go 2, .go 2]

example : (exec step create twoWriters).map State.display = some [97#8, 98#8, 99#8] := by
  decide

end Nachos.SynchWrite
