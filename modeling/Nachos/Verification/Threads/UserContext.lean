import Nachos.Library.Logs
import Nachos.Verification.Threads.Invariant

/-! # User contexts

`Run` saves the registers of a thread that has an address space, and restores them with its
page table when the thread gets control back. -/

namespace Nachos.System

open Runs View Logs

/-- The user registers and the page table with which the thread last entered `Run`. -/
def lastEntered (t : Tid) (log : List Event) : Option Context :=
  log.foldl (fun last event =>
    match event with
    | .entered t' context => if t' = t then some context else last
    | _ => last) none

/-- A thread returns from `Run` with the context with which it entered. -/
def ContextKept (before : List Event) : Event → Prop
  | .returned t context => lastEntered t before = some context
  | _ => True

/-- The events that are not about user contexts. -/
def noContext : Event → Bool
  | .entered _ _ => false
  | .returned _ _ => false
  | _ => true

theorem lastEntered_append (t : Tid) (log : List Event) {event : Event}
    (h : noContext event = true) : lastEntered t (log ++ [event]) = lastEntered t log := by
  cases event with
  | entered t' context => cases h
  | returned t' context => cases h
  | _ => simp [lastEntered]

theorem not_suspended_of_asleep {fs : List Frame} (h : asleep fs = true) :
    suspended fs = false := by
  match fs, h with
  | .sleep :: _, _ => rfl
  | .idle :: _, _ => rfl

/-- What is left of a user context while another thread runs, and while its thread runs. -/
structure Saved (v : View) : Prop where
  saved : ∀ t space, v.space t = some space →
    (t ≠ v.currentThread ∨ suspended (v.frames t) = true) →
    lastEntered t v.log = some ⟨v.userRegisters t, some space.pageTable, space.numPages⟩
  installed : ∀ space, v.space v.currentThread = some space → suspended v.top = false →
    v.context.pageTable = some space.pageTable ∧ v.context.pageTableSize = space.numPages
  fresh : ∀ t, t ≠ v.currentThread → suspended (v.frames t) = false → v.space t = none
  kept : Always ContextKept v.log

namespace Saved

variable {v v' : View} {event : Event}

/-- Nothing that the contexts depend on changes. -/
theorem keep (h : Saved v) (hcurrent : v'.currentThread = v.currentThread)
    (hsuspended : ∀ t, suspended (v'.frames t) = suspended (v.frames t))
    (hspace : v'.space = v.space) (hregisters : v'.userRegisters = v.userRegisters)
    (htable : v'.context.pageTable = v.context.pageTable)
    (hsize : v'.context.pageTableSize = v.context.pageTableSize) (hlog : v'.log = v.log) :
    Saved v' := by
  refine ⟨?_, ?_, ?_, ?_⟩
  · rw [hspace, hcurrent, hregisters, hlog]
    intro t space ht hout
    rw [hsuspended] at hout
    exact h.saved t space ht hout
  · intro space ht hout
    rw [hspace, hcurrent] at ht
    have hout' : suspended v.top = false := by
      rw [← hout]
      unfold View.top
      rw [hcurrent, hsuspended]
    rw [htable, hsize]
    exact h.installed space ht hout'
  · rw [hspace, hcurrent]
    intro t ht hout
    rw [hsuspended] at hout
    exact h.fresh t ht hout
  · rw [hlog]
    exact h.kept

theorem emit (h : Saved v) (hevent : noContext event = true) : Saved (v.emit event) := by
  refine ⟨?_, h.installed, h.fresh, ?_⟩
  · intro t space ht hout
    change lastEntered t (v.log ++ [event]) = _
    rw [lastEntered_append t v.log hevent]
    exact h.saved t space ht hout
  · apply h.kept.append
    cases event with
    | returned t context => cases hevent
    | _ => trivial

/-- `currentThread` goes on outside `Run`. -/
theorem goto {fs : List Frame} (h : Saved v) (hcurrent : v'.currentThread = v.currentThread)
    (hframes : v'.frames = Function.update v.frames v.currentThread fs)
    (hspace : v'.space = v.space) (hregisters : v'.userRegisters = v.userRegisters)
    (hcontext : v'.context = v.context) (hlog : v'.log = v.log)
    (hsame : suspended fs = suspended v.top) : Saved v' := by
  refine h.keep hcurrent ?_ hspace hregisters (by rw [hcontext]) (by rw [hcontext]) hlog
  intro t
  rw [hframes]
  by_cases heq : t = v.currentThread
  · subst heq
    rw [Function.update_self, hsame]
    rfl
  · rw [Function.update_of_ne heq]

theorem startProcess (h : Saved v) (space : UserSpace) (hnow : suspended v.top = false) :
    Saved (v.startProcess space) := by
  have hother : ∀ t, t ≠ v.currentThread → (v.startProcess space).space t = v.space t :=
    fun t ht => Function.update_of_ne ht _ _
  refine ⟨?_, ?_, ?_, h.kept⟩
  · intro t space' ht hout
    have hne : t ≠ v.currentThread := by
      rintro rfl
      rcases hout with hne | hsuspended
      · exact hne rfl
      · cases hnow.symm.trans hsuspended
    rw [hother t hne] at ht
    exact h.saved t space' ht (.inl hne)
  · intro space' ht _
    have hself : (v.startProcess space).space v.currentThread = some space :=
      Function.update_self _ _ _
    cases hself.symm.trans ht
    exact ⟨rfl, rfl⟩
  · intro t ht hout
    rw [hother t ht]
    exact h.fresh t ht hout

/-- When `Run` has saved the user state, the contexts of all threads are saved. -/
theorem save (h : Saved v) (hnow : suspended v.top = false) :
    (∀ t space, v.space t = some space → lastEntered t v.saveUserState.log =
      some ⟨v.saveUserState.userRegisters t, some space.pageTable, space.numPages⟩) ∧
    Always ContextKept v.saveUserState.log := by
  unfold View.saveUserState
  cases hspace : v.space v.currentThread with
  | none =>
      refine ⟨?_, h.kept⟩
      intro t space ht
      apply h.saved t space ht
      refine .inl ?_
      rintro rfl
      rw [hspace] at ht
      cases ht
  | some space =>
      refine ⟨?_, h.kept.append trivial⟩
      intro t space' ht
      have hlast : lastEntered t (v.log ++ [Event.entered v.currentThread v.context]) =
          if v.currentThread = t then some v.context else lastEntered t v.log := by
        simp [lastEntered]
      change lastEntered t (v.log ++ [Event.entered v.currentThread v.context]) =
        some ⟨Function.update v.userRegisters v.currentThread v.context.registers t, _, _⟩
      rw [hlast]
      by_cases heq : t = v.currentThread
      · subst heq
        obtain ⟨htable, hsize⟩ := h.installed space' ht hnow
        rw [if_pos rfl, Function.update_self, ← htable, ← hsize]
      · rw [if_neg (Ne.symm heq), Function.update_of_ne heq]
        exact h.saved t space' ht (.inl heq)

/-- `Run` up to `SWITCH`. -/
theorem run {next : Tid} {rest : List Frame} {level : IntStatus} (h : Saved v)
    (hnow : suspended v.top = false) : Saved (v.run next rest level) := by
  obtain ⟨hsaved, hkept⟩ := h.save hnow
  obtain ⟨registers, heq⟩ := v.saveUserState_eq
  -- the thread that loses control is in `Run`; the others are where they were
  have hout : ∀ t, suspended (Function.update v.frames v.currentThread (.afterSwitch :: rest) t) =
      false → v.space t = none := by
    intro t ht
    have hne : t ≠ v.currentThread := by
      rintro rfl
      rw [Function.update_self] at ht
      cases ht
    rw [Function.update_of_ne hne] at ht
    exact h.fresh t hne ht
  unfold View.run
  rw [heq] at hsaved hkept ⊢
  refine emit ⟨fun t space ht _ => hsaved t space ht, ?_, fun t _ ht => hout t ht, hkept⟩ rfl
  intro space hspace ht
  have hnone := hout next ht
  change v.space next = some space at hspace
  rw [hnone] at hspace
  cases hspace

/-- `Run` behind `SWITCH`. -/
theorem resume {rest : List Frame} (h : Saved v) (hnow : v.top = .afterSwitch :: rest)
    (hrest : Resumes rest) : Saved (v.restoreUserState.setFrames rest) := by
  have hsuspended : suspended v.top = true := by
    rw [hnow]
    rfl
  have hplain : suspended rest = false := hrest.plain.not_suspended
  have hframes : ∀ t, t ≠ v.currentThread →
      Function.update v.frames v.currentThread rest t = v.frames t :=
    fun t ht => Function.update_of_ne ht _ _
  have hother : ∀ t, (t ≠ v.currentThread ∨
      suspended (Function.update v.frames v.currentThread rest t) = true) →
      t ≠ v.currentThread := by
    rintro t hout rfl
    rcases hout with hne | ht
    · exact hne rfl
    · rw [Function.update_self, hplain] at ht
      cases ht
  unfold View.restoreUserState
  cases hspace : v.space v.currentThread with
  | none =>
      refine ⟨?_, ?_, ?_, h.kept⟩
      · intro t space ht hout
        exact h.saved t space ht (.inl (hother t hout))
      · intro space ht _
        cases hspace.symm.trans ht
      · intro t ht hout
        change suspended (Function.update v.frames v.currentThread rest t) = false at hout
        rw [hframes t ht] at hout
        exact h.fresh t ht hout
  | some space =>
      have hlast := h.saved v.currentThread space hspace (.inr hsuspended)
      refine ⟨?_, ?_, ?_, h.kept.append hlast⟩
      · intro t space' ht hout
        have hne := hother t hout
        have hsame : ∀ context, lastEntered t (v.log ++ [Event.returned v.currentThread context]) =
            lastEntered t v.log := by
          intro context
          simp [lastEntered]
        refine (hsame _).trans ?_
        exact h.saved t space' ht (.inl hne)
      · intro space' ht _
        cases hspace.symm.trans ht
        exact ⟨rfl, rfl⟩
      · intro t ht hout
        change suspended (Function.update v.frames v.currentThread rest t) = false at hout
        rw [hframes t ht] at hout
        exact h.fresh t ht hout

theorem fork {t : Tid} (h : Saved v) (hplaced : Placed v) (hcreated : v.status t = .justCreated) :
    Saved (v.fork t) := by
  have hforked : Saved { v with frames := Function.update v.frames t [.threadRoot] } := by
    refine h.keep rfl ?_ rfl rfl rfl rfl rfl
    intro u
    change suspended (Function.update v.frames t [.threadRoot] u) = _
    by_cases heq : u = t
    · subst heq
      rw [Function.update_self, hplaced.framed.fresh u hcreated]
      rfl
    · rw [Function.update_of_ne heq]
  exact (hforked.emit rfl).keep rfl (fun _ => rfl) rfl rfl rfl rfl rfl

theorem move (h : Saved v) (hplaced : Placed v) {label : Label} (hmove : Move label v v') :
    Saved v' := by
  have htop : ∀ {fs}, v.top = fs → Plain fs → suspended v.top = false := by
    intro fs hfs hplain
    rw [hfs]
    exact hplain.not_suspended
  have hbody : ∀ {op oldLevel base}, v.top = .body op oldLevel :: base →
      false = suspended v.top := by
    intro op oldLevel base hnow
    rw [hnow]
    rfl
  cases hmove with
  | registers registers => exact h.keep rfl (fun _ => rfl) rfl rfl rfl rfl rfl
  | startProcess space at_func => exact h.startProcess space (htop at_func trivial)
  | go goes =>
      refine h.goto rfl rfl rfl rfl rfl rfl ?_
      rw [goes.next.not_suspended, goes.now.not_suspended]
  | doze dozes =>
      refine h.goto rfl rfl rfl rfl rfl rfl ?_
      rw [not_suspended_of_asleep dozes.next, not_suspended_of_asleep dozes.now]
  | call op level goes =>
      exact (h.emit rfl).goto rfl rfl rfl rfl rfl rfl goes.now.not_suspended.symm
  | leave at_ret next =>
      refine (h.emit rfl).goto rfl rfl rfl rfl rfl rfl ?_
      rw [next.plain.not_suspended]
      exact (htop at_ret trivial).symm
  | handlerV sem level => exact h.emit rfl
  | take at_body pos => exact (h.emit rfl).goto rfl rfl rfl rfl rfl rfl (hbody at_body)
  | block at_body zero => exact (h.emit rfl).goto rfl rfl rfl rfl rfl rfl (hbody at_body)
  | token empty => exact (h.emit rfl).keep rfl (fun _ => rfl) rfl rfl rfl rfl rfl
  | wake first => exact ((h.emit rfl).emit rfl).keep rfl (fun _ => rfl) rfl rfl rfl rfl rfl
  | reacquire at_body held => exact (h.emit rfl).goto rfl rfl rfl rfl rfl rfl (hbody at_body)
  | acquire at_body other free =>
      exact ((h.emit rfl).emit rfl).goto rfl rfl rfl rfl rfl rfl (hbody at_body)
  | enqueue at_body other busy => exact (h.emit rfl).goto rfl rfl rfl rfl rfl rfl (hbody at_body)
  | foreignRelease at_body other => exact (h.emit rfl).goto rfl rfl rfl rfl rfl rfl (hbody at_body)
  | release at_body held empty => exact (h.emit rfl).goto rfl rfl rfl rfl rfl rfl (hbody at_body)
  | handOff at_body held first =>
      exact (((h.emit rfl).emit rfl).emit rfl).goto rfl rfl rfl rfl rfl rfl (hbody at_body)
  | fork at_body created =>
      refine (h.fork hplaced created).goto rfl rfl rfl rfl rfl rfl ?_
      rw [hplaced.top_fork created]
      exact hbody at_body
  | finish called at_func =>
      exact (h.emit rfl).goto rfl rfl rfl rfl rfl rfl (htop at_func trivial).symm
  | yield at_body ready rest =>
      rename_i oldLevel base next readyList
      have hreadied : Saved
          (({ v with readyList := readyList } : View).readyToRun v.currentThread) :=
        (h.emit rfl).keep rfl (fun _ => rfl) rfl rfl rfl rfl rfl
      exact hreadied.run (hbody at_body).symm
  | dispatch at_sleep ready waiting =>
      rename_i rest next readyList
      have hremoved : Saved { v with readyList := readyList } :=
        h.keep rfl (fun _ => rfl) rfl rfl rfl rfl rfl
      apply hremoved.run
      change suspended v.top = false
      rw [at_sleep]
      rfl
  | delete at_switch destroy =>
      exact (h.emit rfl).keep rfl (fun _ => rfl) rfl rfl rfl rfl rfl
  | resume at_switch next destroy => exact h.resume at_switch next

end Saved

theorem saved_boot (initialValue : SemId → ℕ) : Saved (boot initialValue).view := by
  have hspace : ∀ t, (boot initialValue).view.space t = none := by
    intro t
    by_cases ht : t = 0
    · subst ht
      rfl
    · simp [boot, view, spaceOf, Thread.create, ht]
  refine ⟨?_, ?_, fun t _ _ => hspace t, always_nil _⟩
  · intro t space ht
    rw [hspace] at ht
    cases ht
  · intro space ht
    rw [hspace] at ht
    cases ht

/-- In every run, a user thread that returns from `Run` finds the registers and the page table
with which it entered `Run`. -/
theorem user_context_preserved (initialValue : SemId → ℕ) (labels : List Label) :
    AllStates step (fun s => Always ContextKept s.log) (boot initialValue) labels := by
  have hall := allStates_of_move (P := Saved)
    (fun _ v v' hplaced hmove h => h.move hplaced hmove) initialValue (saved_boot initialValue)
    labels
  apply hall.mono
  rintro s ⟨-, hsaved⟩
  exact hsaved.kept

end Nachos.System
