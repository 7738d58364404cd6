import Nachos.Verification.Threads.Scheduling

/-! # The destruction of finished threads

`Finish` leaves its thread in the one variable `threadToBeDestroyed`, and `Run` deletes it
behind `SWITCH`. A thread that starts in `ThreadRoot` does not pass this place. -/

namespace Nachos.System

open Runs View

/-- The threads whose object was deleted, in this order. -/
def deleted (log : List Event) : List Tid :=
  log.filterMap fun
    | .deleted t => some t
    | _ => none

@[simp] theorem deleted_append (log log' : List Event) :
    deleted (log ++ log') = deleted log ++ deleted log' :=
  List.filterMap_append

/-- Every finished thread that does not have control any more has been deleted once, but for
`threadToBeDestroyed`; and a deleted thread is in no list. -/
structure NoLeak (s : System) : Prop where
  destroyed : ∀ t ∈ finished s.log, t ≠ s.currentThread → s.threadToBeDestroyed ≠ some t →
    (deleted s.log).count t = 1
  once : ∀ t, (deleted s.log).count t ≤ 1
  gone : ∀ t ∈ deleted s.log,
    t ≠ s.currentThread ∧ t ∉ s.readyList ∧ ∀ w, t ∉ s.view.queue w

/-! ## The invariant -/

/-- The finished threads are the deleted ones and the one to be destroyed. -/
structure Cleared (destroy : Option Tid) (log : List Event) : Prop where
  pending : ∀ t ∈ finished log, destroy = some t ∨ t ∈ deleted log
  only_finished : ∀ t ∈ deleted log, t ∈ finished log
  nodup : (deleted log).Nodup
  apart : ∀ t, destroy = some t → t ∉ deleted log

namespace Cleared

variable {destroy : Option Tid} {log : List Event} {event : Event} {v v' : View}

theorem append {events : List Event} (h : Cleared destroy log)
    (hfinished : finished events = []) (hdeleted : deleted events = []) :
    Cleared destroy (log ++ events) := by
  have h₁ : finished (log ++ events) = finished log := by
    rw [finished_append, hfinished, List.append_nil]
  have h₂ : deleted (log ++ events) = deleted log := by
    rw [deleted_append, hdeleted, List.append_nil]
  refine ⟨?_, ?_, ?_, ?_⟩
  · rw [h₁, h₂]
    exact h.pending
  · rw [h₁, h₂]
    exact h.only_finished
  · rw [h₂]
    exact h.nodup
  · rw [h₂]
    exact h.apart

theorem delete {t : Tid} (h : Cleared (some t) log) (ht : t ∈ finished log) :
    Cleared none (log ++ [Event.deleted t]) := by
  have h₁ : finished (log ++ [Event.deleted t]) = finished log := by
    rw [finished_append]
    exact List.append_nil _
  have h₂ : deleted (log ++ [Event.deleted t]) = deleted log ++ [t] := by
    rw [deleted_append]
    rfl
  refine ⟨?_, ?_, ?_, nofun⟩
  · rw [h₁, h₂]
    intro u hu
    rcases h.pending u hu with heq | hmem
    · obtain rfl := Option.some.inj heq
      exact .inr (by simp)
    · exact .inr (by simp [hmem])
  · rw [h₁, h₂]
    intro u hu
    rcases List.mem_append.mp hu with hmem | hlast
    · exact h.only_finished u hmem
    · obtain rfl := List.mem_singleton.mp hlast
      exact ht
  · rw [h₂]
    apply h.nodup.append (List.nodup_singleton t)
    simpa using h.apart t rfl

theorem finish {t : Tid} (h : Cleared none log) (ht : t ∉ finished log) :
    Cleared (some t) (log ++ [Event.finished t]) := by
  have h₁ : finished (log ++ [Event.finished t]) = finished log ++ [t] := by
    rw [finished_append]
    rfl
  have h₂ : deleted (log ++ [Event.finished t]) = deleted log := by
    rw [deleted_append]
    exact List.append_nil _
  refine ⟨?_, ?_, ?_, ?_⟩
  · rw [h₁, h₂]
    intro u hu
    rcases List.mem_append.mp hu with hmem | hlast
    · rcases h.pending u hmem with heq | hmem
      · cases heq
      · exact .inr hmem
    · obtain rfl := List.mem_singleton.mp hlast
      exact .inl rfl
  · rw [h₁, h₂]
    intro u hu
    exact List.mem_append_left _ (h.only_finished u hu)
  · rw [h₂]
    exact h.nodup
  · rw [h₂]
    intro u hu hmem
    cases hu
    exact ht (h.only_finished t hmem)

theorem run {next : Tid} {rest : List Frame} {level : IntStatus}
    (h : Cleared v.threadToBeDestroyed v.log) :
    Cleared (v.run next rest level).threadToBeDestroyed (v.run next rest level).log := by
  obtain ⟨registers, hrun⟩ := v.run_eq next rest level
  rw [hrun]
  have hentered : Cleared v.threadToBeDestroyed (v.log ++ v.entering) := by
    unfold entering
    split
    · simpa using h
    · exact h.append rfl rfl
  exact hentered.append rfl rfl

theorem resume {rest : List Frame} (h : Cleared v.threadToBeDestroyed v.log) :
    Cleared (v.restoreUserState.setFrames rest).threadToBeDestroyed
      (v.restoreUserState.setFrames rest).log := by
  obtain ⟨context, hrestore⟩ := v.restoreUserState_eq
  rw [hrestore]
  change Cleared v.threadToBeDestroyed (v.log ++ v.returning)
  unfold returning
  split
  · simpa using h
  · exact h.append rfl rfl

theorem move (h : Cleared v.threadToBeDestroyed v.log) (hplaced : Placed v)
    (hrecorded : Recorded v) {label : Label}
    (hfinish : label = .finish → v.threadToBeDestroyed = none) (hmove : Move label v v') :
    Cleared v'.threadToBeDestroyed v'.log := by
  cases hmove with
  | registers registers => exact h
  | startProcess space at_func => exact h
  | go goes => exact h
  | doze dozes => exact h
  | call op level goes => exact h.append rfl rfl
  | leave at_ret next => exact h.append rfl rfl
  | handlerV sem level => exact h.append rfl rfl
  | take at_body pos => exact h.append rfl rfl
  | block at_body zero => exact h.append rfl rfl
  | token empty => exact h.append rfl rfl
  | wake first => exact (h.append rfl rfl).append rfl rfl
  | reacquire at_body held => exact h.append rfl rfl
  | acquire at_body other free => exact (h.append rfl rfl).append rfl rfl
  | enqueue at_body other busy => exact h.append rfl rfl
  | foreignRelease at_body other => exact h.append rfl rfl
  | release at_body held empty => exact h.append rfl rfl
  | handOff at_body held first =>
      rw [log_setFrames, log_emit, log_readyToRun, log_setLock, log_emit]
      exact ((h.append rfl rfl).append rfl rfl).append rfl rfl
  | fork at_body created => exact h.append rfl rfl
  | finish called at_func =>
      rw [hfinish called] at h
      apply h.finish
      rw [hrecorded]
      change ended v.top ≠ true
      rw [at_func]
      nofun
  | yield at_body ready rest => exact Cleared.run (h.append rfl rfl)
  | dispatch at_sleep ready waiting => exact Cleared.run h
  | delete at_switch destroy =>
      have hended := hplaced.destroy _ destroy
      rw [destroy] at h
      exact h.delete ((hrecorded _).mpr hended)
  | resume at_switch next destroy => exact h.resume

end Cleared

/-- A finished thread that still has control is the one to be destroyed. -/
def Own (v : View) : Prop :=
  ended v.top = true → v.threadToBeDestroyed = some v.currentThread

namespace Own

variable {v v' : View}

theorem of_not_ended (h : ended v.top = false) : Own v := by
  intro hended
  rw [h] at hended
  cases hended

theorem setFrames {fs : List Frame} (h : ended fs = false) : Own (v.setFrames fs) := by
  apply of_not_ended
  rw [top_setFrames]
  exact h

/-- The thread that gets control has not finished. -/
theorem of_running (hplaced : Placed v) (hrunning : v.status v.currentThread = .running) :
    Own v := by
  intro hended
  have hblocked := hplaced.framed.finished _ hended
  rw [hrunning] at hblocked
  cases hblocked

theorem status_run (v : View) (next : Tid) (rest : List Frame) (level : IntStatus) :
    (v.run next rest level).status (v.run next rest level).currentThread = .running := by
  obtain ⟨registers, hrun⟩ := v.run_eq next rest level
  rw [hrun]
  exact Function.update_self next _ v.status

theorem move (h : Own v) (hplaced : Placed v) {label : Label} (hmove : Move label v v') :
    Own v' := by
  have hplaced' := hplaced.move hmove
  cases hmove with
  | registers registers => exact h
  | startProcess space at_func => exact h
  | go goes => exact setFrames goes.next.not_ended
  | doze dozes =>
      intro hended
      rw [top_setFrames, dozes.sameEnd] at hended
      exact h hended
  | call op level goes => exact setFrames rfl
  | leave at_ret next => exact setFrames next.plain.not_ended
  | handlerV sem level => exact h
  | take at_body pos => exact setFrames rfl
  | block at_body zero => exact setFrames rfl
  | token empty => exact h
  | wake first => exact h
  | reacquire at_body held => exact setFrames rfl
  | acquire at_body other free => exact setFrames rfl
  | enqueue at_body other busy => exact setFrames rfl
  | foreignRelease at_body other => exact setFrames rfl
  | release at_body held empty => exact setFrames rfl
  | handOff at_body held first => exact setFrames rfl
  | fork at_body created => exact setFrames rfl
  | finish called at_func =>
      intro _
      rfl
  | yield at_body ready rest => exact of_running hplaced' (status_run _ _ _ _)
  | dispatch at_sleep ready waiting => exact of_running hplaced' (status_run _ _ _ _)
  | delete at_switch destroy =>
      apply of_running hplaced'
      apply hplaced.lists.current.mpr
      exact congrArg asleep at_switch
  | resume at_switch next destroy => exact setFrames next.plain.not_ended

end Own

/-! ## When no thread is leaked -/

/-- The code calls `Finish` only while no other thread is to be destroyed. -/
def FinishesAlone (s : System) : Label → Prop
  | .finish => s.threadToBeDestroyed = none
  | _ => True

/-- The invariant of a run in which no thread is leaked. -/
structure Clean (s : System) : Prop where
  wellFormed : WellFormed s
  recorded : Recorded s.view
  cleared : Cleared s.threadToBeDestroyed s.log
  own : Own s.view

theorem Clean.noLeak {s : System} (h : Clean s) : NoLeak s := by
  refine ⟨?_, ?_, ?_⟩
  · intro t ht _ hdestroy
    rcases h.cleared.pending t ht with heq | hmem
    · exact absurd heq hdestroy
    · exact List.count_eq_one_of_mem h.cleared.nodup hmem
  · exact List.nodup_iff_count_le_one.mp h.cleared.nodup
  · intro t ht
    have hended := (h.recorded t).mp (h.cleared.only_finished t ht)
    have hblocked := h.wellFormed.placed.framed.finished t hended
    refine ⟨?_, ?_, ?_⟩
    · rintro rfl
      exact h.cleared.apart _ (h.own hended) ht
    · intro hmem
      have hready := (h.wellFormed.placed.lists.ready_iff t).mp hmem
      rw [hblocked] at hready
      cases hready
    · intro w hmem
      have hwaits := ((h.wellFormed.placed.lists.queue_iff w t).mp hmem).2
      rw [waits_of_ended hended] at hwaits
      cases hwaits

theorem view_finish (s : System) : s.finish.view = s.view.finish := by
  unfold System.finish
  rw [view_sleep _ [] rfl]
  rfl

theorem Clean.finish {s : System} (h : Clean s) (hframes : s.frames = [.func])
    (halone : s.threadToBeDestroyed = none) : Clean s.finish := by
  have hfollows := follows_finish h.wellFormed hframes
  have hmove : Move .finish s.view s.view.finish := .finish rfl hframes
  have hview := view_finish s
  refine ⟨hfollows.wellFormed h.wellFormed, ?_, ?_, ?_⟩
  · rw [hview]
    exact h.recorded.move h.wellFormed.placed hmove
  · have hcleared := h.cleared.move h.wellFormed.placed h.recorded (fun _ => halone) hmove
    rw [← hview] at hcleared
    exact hcleared
  · rw [hview]
    exact h.own.move h.wellFormed.placed hmove

theorem Clean.step {s s' : System} {label : Label} (h : Clean s)
    (halone : FinishesAlone s label) (hstep : s.step label = some s') : Clean s' := by
  by_cases hlabel : label = .finish
  · subst hlabel
    obtain ⟨-, hrule⟩ := step_rule hstep
    cases hrule with
    | finish at_func =>
        obtain rfl := h.wellFormed.func at_func
        exact h.finish at_func halone
  · have hkeep : ∀ v v', Placed v → Move label v v' →
        (Recorded v ∧ Cleared v.threadToBeDestroyed v.log ∧ Own v) →
        Recorded v' ∧ Cleared v'.threadToBeDestroyed v'.log ∧ Own v' := by
      rintro v v' hplaced hmove ⟨hrecorded, hcleared, hown⟩
      exact ⟨hrecorded.move hplaced hmove, hcleared.move hplaced hrecorded
        (fun heq => absurd heq hlabel) hmove, hown.move hplaced hmove⟩
    obtain ⟨hwell, hrecorded, hcleared, hown⟩ :=
      h.wellFormed.step_keep hkeep hstep ⟨h.recorded, h.cleared, h.own⟩
    exact ⟨hwell, hrecorded, hcleared, hown⟩

/-- `Finish` with another thread to be destroyed forgets that thread. -/
theorem Clean.leaks {s s' : System} {label : Label} (h : Clean s)
    (halone : ¬ FinishesAlone s label) (hstep : s.step label = some s') : ¬ NoLeak s' := by
  obtain rfl : label = .finish := by
    by_contra hlabel
    cases label <;> simp_all [FinishesAlone]
  obtain ⟨t, ht⟩ := Option.ne_none_iff_exists'.mp halone
  obtain ⟨-, hrule⟩ := step_rule hstep
  cases hrule with
  | finish at_func =>
      obtain rfl := h.wellFormed.func at_func
      have hplain : Plain s.view.top := by
        rw [← frames_eq, at_func]
        trivial
      have hne : t ≠ s.currentThread := h.wellFormed.placed.not_destroy hplain ht
      have hfinished : t ∈ finished s.log :=
        (h.recorded t).mpr (h.wellFormed.placed.destroy t ht)
      have hlog : s.finish.log = s.log ++ [Event.finished s.currentThread] :=
        congrArg View.log (view_finish s)
      intro hnoLeak
      have hcount : (deleted s.finish.log).count t = 1 := by
        apply hnoLeak.destroyed
        · rw [hlog, finished_append]
          exact List.mem_append_left _ hfinished
        · exact hne
        · intro hdestroy
          exact hne (Option.some.inj hdestroy).symm
      have hout := h.cleared.apart t ht
      rw [hlog, deleted_append, List.count_append, List.count_eq_zero_of_not_mem hout] at hcount
      simp [deleted] at hcount

theorem clean_boot (initialValue : SemId → ℕ) : Clean (boot initialValue) :=
  ⟨wellFormed_boot initialValue, recorded_boot initialValue,
    ⟨nofun, nofun, List.nodup_nil, nofun⟩, nofun⟩

/-- Along a run every finished thread is destroyed exactly when `Finish` is never called
while another thread is to be destroyed. -/
theorem allStates_noLeak_iff (initialValue : SemId → ℕ) (labels : List Label) :
    AllStates step NoLeak (boot initialValue) labels ↔
      AllSteps step FinishesAlone (boot initialValue) labels := by
  refine allStates_iff_allSteps Clean (fun s h => h.noLeak) ?_ ?_ (clean_boot initialValue)
  · intro s label s' halone hstep h
    exact h.step halone hstep
  · intro s label s' halone hstep h
    exact h.leaks halone hstep

/-- `Fork` from the start to the return. -/
def forkRun (t : Tid) : List Label :=
  [.call (.fork t), .go, .go, .go]

/-- Thread 1 finishes, and the fresh thread 2 runs next and finishes too. -/
def finishTwice : List Label :=
  forkRun 1 ++ forkRun 2 ++ [.call .yield, .go, .go, .quiet, .finish, .go, .go, .quiet, .finish]

theorem thread_leaked : ¬ AllStates step NoLeak (boot fun _ => 0) finishTwice := by
  intro hall
  have hend : ((exec step (boot fun _ => 0) finishTwice).map fun s =>
      (finished s.log, deleted s.log, s.currentThread, s.threadToBeDestroyed)) =
        some ([1, 2], [], 2, some 2) := by
    decide +kernel
  obtain ⟨s, hexec, hs⟩ := Option.map_eq_some_iff.mp hend
  simp only [Prod.mk.injEq] at hs
  obtain ⟨hfinished, hdeleted, hcurrent, hdestroy⟩ := hs
  have hcount := (hall.exec hexec).destroyed 1
  simp [hfinished, hdeleted, hcurrent, hdestroy] at hcount

end Nachos.System
