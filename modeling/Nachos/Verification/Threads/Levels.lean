import Nachos.Library.Logs
import Nachos.Verification.Threads.Invariant

/-! # The interrupt level

The level is one global variable, and its old values are in local variables of suspended
threads. Every operation finds at its return the level at which it was called. -/

namespace Nachos.System

open Runs View Logs

/-- The operations that a thread has called and not left, after one more event. -/
def callsAfter (t : Tid) (calls : List (Op × IntStatus)) : Event → List (Op × IntStatus)
  | .called t' op level => if t' = t then (op, level) :: calls else calls
  | .left t' _ _ => if t' = t then calls.tail else calls
  | _ => calls

/-- The operations that a thread has called and not left, with the level at the call, the
innermost first. -/
def openCalls (t : Tid) (log : List Event) : List (Op × IntStatus) :=
  log.foldl (callsAfter t) []

/-- An operation returns with the level at which it was called, and `SWITCH` runs with
interrupts off. -/
def LevelKept (before : List Event) : Event → Prop
  | .left t op level => (openCalls t before).head? = some (op, level)
  | .handlerV _ called left => left = called
  | .switch _ level => level = .intOff
  | _ => True

/-- The events that are about the level. -/
def aboutLevel : Event → Bool
  | .called _ _ _ => true
  | .left _ _ _ => true
  | .handlerV _ _ _ => true
  | .switch _ _ => true
  | _ => false

theorem openCalls_append (t : Tid) (log : List Event) (event : Event) :
    openCalls t (log ++ [event]) = callsAfter t (openCalls t log) event := by
  simp [openCalls]

/-- The frames of every thread agree with its calls, and the levels were kept so far. -/
structure Leveled (v : View) : Prop where
  calls : ∀ t, openCalls t v.log = calls (v.frames t)
  kept : Always LevelKept v.log

namespace Leveled

variable {v v' : View} {event : Event}

/-- An event that is neither a call nor a return. -/
theorem emit (h : Leveled v) (hcalls : ∀ t, callsAfter t (openCalls t v.log) event =
      openCalls t v.log) (hkept : LevelKept v.log event) : Leveled (v.emit event) := by
  refine ⟨?_, h.kept.append hkept⟩
  intro t
  change openCalls t (v.log ++ [event]) = _
  rw [openCalls_append, hcalls]
  exact h.calls t

theorem quiet (h : Leveled v) (hevent : aboutLevel event = false) : Leveled (v.emit event) := by
  refine h.emit ?_ ?_
  · intro t
    cases event <;> first | rfl | cases hevent
  · cases event <;> trivial

theorem keep (h : Leveled v) (hlog : v'.log = v.log)
    (hframes : ∀ t, System.calls (v'.frames t) = System.calls (v.frames t)) : Leveled v' := by
  refine ⟨?_, ?_⟩
  · intro t
    rw [hlog, hframes]
    exact h.calls t
  · rw [hlog]
    exact h.kept

theorem goto {fs : List Frame} (h : Leveled v) (hlog : v'.log = v.log)
    (hnew : v'.frames = Function.update v.frames v.currentThread fs)
    (hcalls : System.calls fs = System.calls v.top) : Leveled v' := by
  refine h.keep hlog fun t => ?_
  rw [hnew]
  by_cases heq : t = v.currentThread
  · subst heq
    rw [Function.update_self, hcalls]
    rfl
  · rw [Function.update_of_ne heq]

theorem run {next : Tid} {rest : List Frame} (h : Leveled v)
    (hcalls : System.calls rest = System.calls v.top) : Leveled (v.run next rest .intOff) := by
  obtain ⟨registers, hrun⟩ := v.run_eq next rest .intOff
  rw [hrun]
  have hentered : Leveled { v with log := v.log ++ v.entering } := by
    unfold entering
    split
    · simpa using h
    · exact h.quiet rfl
  have hswitched : Leveled { v with log := v.log ++ v.entering ++ [Event.switch next .intOff] } :=
    hentered.emit (fun _ => rfl) rfl
  exact hswitched.goto rfl rfl hcalls

theorem resume {rest : List Frame} (h : Leveled v) (hnow : v.top = .afterSwitch :: rest) :
    Leveled (v.restoreUserState.setFrames rest) := by
  obtain ⟨context, hrestore⟩ := v.restoreUserState_eq
  rw [hrestore]
  have hreturned : Leveled { v with context := context, log := v.log ++ v.returning } := by
    have hsame : Leveled { v with context := context } := h.keep rfl fun _ => rfl
    unfold returning
    split
    · simpa using hsame
    · exact hsame.quiet rfl
  refine hreturned.goto rfl rfl ?_
  change _ = System.calls v.top
  rw [hnow]
  rfl

theorem call {op : Op} {level : IntStatus} {base : List Frame} (h : Leveled v)
    (hcalls : System.calls base = System.calls v.top) :
    Leveled ((v.emit (.called v.currentThread op level)).setFrames (.body op level :: base)) := by
  refine ⟨?_, h.kept.append trivial⟩
  intro t
  change openCalls t (v.log ++ [Event.called v.currentThread op level]) =
    System.calls (Function.update v.frames v.currentThread (.body op level :: base) t)
  rw [openCalls_append, h.calls]
  by_cases heq : t = v.currentThread
  · subst heq
    rw [Function.update_self]
    change (if _ then (op, level) :: System.calls v.top else _) = (op, level) :: System.calls base
    rw [if_pos rfl, hcalls]
  · rw [Function.update_of_ne heq]
    exact if_neg (Ne.symm heq)

theorem leave {op : Op} {level : IntStatus} {rest : List Frame} (h : Leveled v)
    (hnow : v.top = .ret op level :: rest) :
    Leveled ((v.emit (.left v.currentThread op level)).setFrames rest) := by
  have hopen : openCalls v.currentThread v.log = (op, level) :: System.calls rest := by
    rw [h.calls]
    change System.calls v.top = _
    rw [hnow]
    rfl
  refine ⟨?_, h.kept.append ?_⟩
  · intro t
    change openCalls t (v.log ++ [Event.left v.currentThread op level]) =
      System.calls (Function.update v.frames v.currentThread rest t)
    rw [openCalls_append]
    by_cases heq : t = v.currentThread
    · subst heq
      rw [Function.update_self, hopen]
      exact if_pos rfl
    · rw [Function.update_of_ne heq, h.calls]
      exact if_neg (Ne.symm heq)
  · change (openCalls v.currentThread v.log).head? = _
    rw [hopen]
    rfl

theorem move (h : Leveled v) (hplaced : Placed v) {label : Label} (hmove : Move label v v') :
    Leveled v' := by
  have hbody : ∀ {op oldLevel base}, v.top = .body op oldLevel :: base →
      (op, oldLevel) :: System.calls base = System.calls v.top := by
    intro op oldLevel base hnow
    rw [hnow]
    rfl
  cases hmove with
  | registers registers => exact h.keep rfl fun _ => rfl
  | startProcess space at_func => exact h.keep rfl fun _ => rfl
  | go goes => exact h.goto rfl rfl goes.sameCalls
  | doze dozes => exact h.goto rfl rfl dozes.sameCalls
  | call op level goes => exact h.call goes.sameCalls
  | leave at_ret next => exact h.leave at_ret
  | handlerV sem level => exact h.emit (fun _ => rfl) rfl
  | take at_body pos => exact (h.quiet rfl).goto rfl rfl (hbody at_body)
  | block at_body zero => exact (h.quiet rfl).goto rfl rfl (hbody at_body)
  | token empty => exact (h.quiet rfl).keep rfl fun _ => rfl
  | wake first =>
      exact ((h.quiet rfl).quiet rfl).keep rfl fun _ => rfl
  | reacquire at_body held => exact (h.quiet rfl).goto rfl rfl (hbody at_body)
  | acquire at_body other free =>
      exact ((h.quiet rfl).quiet rfl).goto rfl rfl (hbody at_body)
  | enqueue at_body other busy =>
      exact (h.quiet rfl).goto rfl rfl (hbody at_body)
  | foreignRelease at_body other =>
      exact (h.quiet rfl).goto rfl rfl (hbody at_body)
  | release at_body held empty =>
      exact (h.quiet rfl).goto rfl rfl (hbody at_body)
  | handOff at_body held first =>
      exact (((h.quiet rfl).quiet rfl).quiet rfl).goto rfl rfl (hbody at_body)
  | fork at_body created =>
      rename_i t oldLevel base
      have hforked : Leveled (v.fork t) := by
        refine (h.quiet rfl).keep rfl fun u => ?_
        change System.calls (Function.update v.frames t [.threadRoot] u) =
          System.calls (v.frames u)
        by_cases heq : u = t
        · subst heq
          rw [Function.update_self, hplaced.framed.fresh u created]
          rfl
        · rw [Function.update_of_ne heq]
      refine hforked.goto rfl rfl ?_
      rw [hplaced.top_fork created]
      exact hbody at_body
  | finish called at_func =>
      refine (h.quiet rfl).goto rfl rfl ?_
      change _ = System.calls v.top
      rw [at_func]
      rfl
  | yield at_body ready rest =>
      rename_i oldLevel base next readyList
      have hreadied : Leveled
          (({ v with readyList := readyList } : View).readyToRun v.currentThread) :=
        (h.quiet rfl).keep rfl fun _ => rfl
      exact hreadied.run (hbody at_body)
  | dispatch at_sleep ready waiting =>
      rename_i rest next readyList
      have hremoved : Leveled { v with readyList := readyList } := h.keep rfl fun _ => rfl
      refine hremoved.run ?_
      change _ = System.calls v.top
      rw [at_sleep]
      rfl
  | delete at_switch destroy => exact (h.quiet rfl).keep rfl fun _ => rfl
  | resume at_switch next destroy => exact h.resume at_switch

end Leveled

/-- In every run no ASSERT fails, `SWITCH` runs with interrupts off, and every operation
returns with the level at which it was called. -/
theorem interrupt_level_discipline (initialValue : SemId → ℕ) (labels : List Label) :
    AllStates step (fun s => s.stop ≠ some .aborted ∧ Always LevelKept s.log)
      (boot initialValue) labels := by
  have hall := allStates_of_move (P := Leveled)
    (fun _ v v' hplaced hmove h => h.move hplaced hmove) initialValue ?_ labels
  · apply hall.mono
    rintro s ⟨hs, hleveled⟩
    exact ⟨hs.stop, hleveled.kept⟩
  · refine ⟨fun t => ?_, always_nil _⟩
    rw [frames_boot]
    by_cases hzero : t = 0 <;> simp [hzero, boot, view, openCalls, calls, callOf]

end Nachos.System
