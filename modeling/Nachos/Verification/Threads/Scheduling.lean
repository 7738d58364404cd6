import Nachos.Verification.Threads.Invariant

/-! # No thread is lost

Every thread that has been forked and has not finished is in one place, and the ready list
is served in order. -/

namespace Nachos.System

open Runs View

/-! ## The ready list and the log -/

/-- The threads that were appended to the ready list, in this order. -/
def readied (log : List Event) : List Tid :=
  log.filterMap fun
    | .readied t => some t
    | _ => none

/-- The threads that were dispatched, in this order. -/
def dispatched (log : List Event) : List Tid :=
  log.filterMap fun
    | .switch next _ => some next
    | _ => none

/-- The threads that have called `Finish`, in this order. -/
def finished (log : List Event) : List Tid :=
  log.filterMap fun
    | .finished t => some t
    | _ => none

@[simp] theorem readied_append (log log' : List Event) :
    readied (log ++ log') = readied log ++ readied log' :=
  List.filterMap_append

@[simp] theorem dispatched_append (log log' : List Event) :
    dispatched (log ++ log') = dispatched log ++ dispatched log' :=
  List.filterMap_append

@[simp] theorem finished_append (log log' : List Event) :
    finished (log ++ log') = finished log ++ finished log' :=
  List.filterMap_append

@[simp] theorem readied_entering (v : View) : readied v.entering = [] := by
  unfold entering
  split <;> rfl

@[simp] theorem dispatched_entering (v : View) : dispatched v.entering = [] := by
  unfold entering
  split <;> rfl

@[simp] theorem readied_returning (v : View) : readied v.returning = [] := by
  unfold returning
  split <;> rfl

@[simp] theorem dispatched_returning (v : View) : dispatched v.returning = [] := by
  unfold returning
  split <;> rfl

/-- The ready list is the part of the threads made ready that is still to be dispatched. -/
def InOrder (v : View) : Prop :=
  readied v.log = dispatched v.log ++ v.readyList

namespace InOrder

variable {v v' : View} {event : Event}

theorem emit (h : InOrder v) (hreadied : readied [event] = [])
    (hdispatched : dispatched [event] = []) : InOrder (v.emit event) := by
  rw [InOrder, log_emit, readied_append, dispatched_append, hreadied, hdispatched,
    List.append_nil, List.append_nil]
  exact h

theorem setFrames (h : InOrder v) (fs : List Frame) : InOrder (v.setFrames fs) := h

theorem setSem (h : InOrder v) (sem : SemId) (semaphore : Semaphore) :
    InOrder (v.setSem sem semaphore) := h

theorem setLock (h : InOrder v) (lock : LockId) (l : Lock) : InOrder (v.setLock lock l) := h

theorem readyToRun_of_split (next : List Tid) (t : Tid)
    (h : readied v.log = dispatched v.log ++ (next ++ v.readyList)) :
    readied (v.readyToRun t).log =
      dispatched (v.readyToRun t).log ++ (next ++ (v.readyList ++ [t])) := by
  rw [log_readyToRun, readied_append, dispatched_append, h]
  simp [readied, dispatched]

theorem readyToRun (h : InOrder v) (t : Tid) : InOrder (v.readyToRun t) :=
  readyToRun_of_split [] t h

/-- The thread that is dispatched was at the head of the list. -/
theorem run {next : Tid} {rest : List Frame} {level : IntStatus}
    (h : readied v.log = dispatched v.log ++ next :: v.readyList) :
    InOrder (v.run next rest level) := by
  obtain ⟨registers, hrun⟩ := v.run_eq next rest level
  rw [hrun, InOrder]
  dsimp only
  have hreadied : readied [.switch next level] = [] := rfl
  have hdispatched : dispatched [.switch next level] = [next] := rfl
  simp [h, hreadied, hdispatched]

theorem resume (h : InOrder v) (rest : List Frame) :
    InOrder (v.restoreUserState.setFrames rest) := by
  refine setFrames ?_ rest
  obtain ⟨context, hrestore⟩ := v.restoreUserState_eq
  rw [hrestore, InOrder]
  dsimp only
  have hlog : readied v.log = dispatched v.log ++ v.readyList := h
  simp [hlog]

theorem move (h : InOrder v) {label : Label} (hmove : Move label v v') : InOrder v' := by
  cases hmove with
  | registers registers => exact h
  | startProcess space at_func => exact h
  | go goes => exact h
  | doze dozes => exact h
  | call op level goes => exact h.emit rfl rfl
  | leave at_ret next => exact h.emit rfl rfl
  | handlerV sem level => exact h.emit rfl rfl
  | take at_body pos => exact h.emit rfl rfl
  | block at_body zero => exact h.emit rfl rfl
  | token empty => exact (h.setSem _ _).emit rfl rfl
  | wake first => exact ((h.setSem _ _).readyToRun _).emit rfl rfl
  | reacquire at_body held => exact h.emit rfl rfl
  | acquire at_body other free =>
      exact (((h.emit rfl rfl).setLock _ _).emit rfl rfl).setFrames _
  | enqueue at_body other busy => exact h.emit rfl rfl
  | foreignRelease at_body other => exact h.emit rfl rfl
  | release at_body held empty => exact ((h.emit rfl rfl).setLock _ _).setFrames _
  | handOff at_body held first =>
      exact ((((h.emit rfl rfl).setLock _ _).readyToRun _).emit rfl rfl).setFrames _
  | fork at_body created => exact h.readyToRun _
  | finish called at_func => exact h.emit rfl rfl
  | yield at_body ready rest =>
      rename_i oldLevel base next readyList
      apply run
      -- the list without its head and with the thread that yields
      have hlog : readied v.log = dispatched v.log ++ next :: readyList := by
        rw [← ready]
        exact h
      exact readyToRun_of_split [next] v.currentThread hlog
  | dispatch at_sleep ready waiting =>
      rename_i rest next readyList
      apply run
      have hlog : readied v.log = dispatched v.log ++ next :: readyList := by
        rw [← ready]
        exact h
      exact hlog
  | delete at_switch destroy => exact h.emit rfl rfl
  | resume at_switch next destroy => exact h.resume _

end InOrder

/-! ## Finished threads -/

/-- The log says which threads have finished. -/
def Recorded (v : View) : Prop :=
  ∀ t, t ∈ finished v.log ↔ ended (v.frames t) = true

namespace Recorded

variable {v v' : View} {event : Event} {fs : List Frame}

theorem emit (h : Recorded v) (hevent : finished [event] = []) : Recorded (v.emit event) := by
  intro t
  refine Iff.trans ?_ (h t)
  change t ∈ finished (v.log ++ [event]) ↔ _
  rw [finished_append, hevent, List.append_nil]

theorem setFrames (h : Recorded v) (hsame : ended fs = ended v.top) :
    Recorded (v.setFrames fs) := by
  intro t
  change t ∈ finished v.log ↔ ended (Function.update v.frames v.currentThread fs t) = true
  by_cases heq : t = v.currentThread
  · subst heq
    rw [Function.update_self, hsame]
    exact h _
  · rw [Function.update_of_ne heq]
    exact h t

theorem goto (h : Recorded v) (hnow : Plain v.top) (hnext : Plain fs) :
    Recorded (v.setFrames fs) := by
  apply h.setFrames
  rw [hnow.not_ended, hnext.not_ended]

theorem fork {t : Tid} (h : Recorded v) (hplaced : Placed v)
    (hcreated : v.status t = .justCreated) : Recorded (v.fork t) := by
  have hfork : Recorded { v with frames := Function.update v.frames t [.threadRoot] } := by
    intro u
    change u ∈ finished v.log ↔ ended (Function.update v.frames t [.threadRoot] u) = true
    by_cases heq : u = t
    · subst heq
      rw [h, hplaced.framed.fresh u hcreated, Function.update_self]
      rfl
    · rw [Function.update_of_ne heq]
      exact h u
  exact hfork.emit rfl

theorem finish (h : Recorded v) : Recorded v.finish := by
  intro t
  change t ∈ finished (v.log ++ [Event.finished v.currentThread]) ↔
    ended (Function.update v.frames v.currentThread [.sleep] t) = true
  have hlast : finished [.finished v.currentThread] = [v.currentThread] := rfl
  rw [finished_append, hlast, List.mem_append, List.mem_singleton]
  by_cases heq : t = v.currentThread
  · subst heq
    simp [ended]
  · rw [Function.update_of_ne heq, ← h t]
    simp [heq]

theorem run {next : Tid} {rest : List Frame} {level : IntStatus} (h : Recorded v)
    (hsame : ended (.afterSwitch :: rest) = ended v.top) : Recorded (v.run next rest level) := by
  have hsave : Recorded v.saveUserState := by
    unfold View.saveUserState
    split
    · exact h
    · exact h.emit rfl
  have hframes : Recorded (v.saveUserState.setFrames (.afterSwitch :: rest)) := by
    apply hsave.setFrames
    rw [hsame]
    obtain ⟨registers, hsaved⟩ := v.saveUserState_eq
    rw [hsaved]
    rfl
  exact hframes.emit rfl

theorem resume {rest : List Frame} (h : Recorded v) (hnow : v.top = .afterSwitch :: rest)
    (hrest : Resumes rest) : Recorded (v.restoreUserState.setFrames rest) := by
  have hrestore : Recorded v.restoreUserState := by
    unfold View.restoreUserState
    split
    · exact h
    · exact h.emit rfl
  apply hrestore.setFrames
  obtain ⟨context, hrestored⟩ := v.restoreUserState_eq
  rw [hrestored]
  change _ = ended v.top
  rw [hrest.plain.not_ended, hnow]
  cases rest with
  | nil => exact absurd hrest id
  | cons frame rest => rfl

theorem move (h : Recorded v) (hplaced : Placed v) {label : Label} (hmove : Move label v v') :
    Recorded v' := by
  have hbody : ∀ {op oldLevel base}, v.top = .body op oldLevel :: base → Plain v.top := by
    intro op oldLevel base htop
    rw [htop]
    trivial
  cases hmove with
  | registers registers => exact h
  | startProcess space at_func => exact h
  | go goes => exact h.goto goes.now goes.next
  | doze dozes => exact h.setFrames dozes.sameEnd
  | call op level goes => exact (h.emit rfl).goto goes.now trivial
  | leave at_ret next =>
      refine (h.emit rfl).goto ?_ next.plain
      change Plain v.top
      rw [at_ret]
      trivial
  | handlerV sem level => exact h.emit rfl
  | take at_body pos => exact (h.emit rfl).goto (hbody at_body) trivial
  | block at_body zero => exact (h.emit rfl).setFrames (hbody at_body).not_ended.symm
  | token empty => exact h.emit rfl
  | wake first => exact (h.emit rfl).emit rfl
  | reacquire at_body held => exact (h.emit rfl).goto (hbody at_body) trivial
  | acquire at_body other free =>
      exact ((h.emit rfl).emit rfl).goto (hbody at_body) trivial
  | enqueue at_body other busy => exact (h.emit rfl).setFrames (hbody at_body).not_ended.symm
  | foreignRelease at_body other => exact (h.emit rfl).goto (hbody at_body) trivial
  | release at_body held empty => exact (h.emit rfl).goto (hbody at_body) trivial
  | handOff at_body held first =>
      exact (((h.emit rfl).emit rfl).emit rfl).goto (hbody at_body) trivial
  | fork at_body created =>
      refine (h.fork hplaced created).goto ?_ trivial
      rw [hplaced.top_fork created]
      exact hbody at_body
  | finish called at_func => exact h.finish
  | yield at_body ready rest => exact Recorded.run (h.emit rfl) (hbody at_body).not_ended.symm
  | dispatch at_sleep ready waiting =>
      refine Recorded.run h ?_
      change _ = ended v.top
      rw [at_sleep, Bool.eq_iff_iff, ended_sleep_iff, ended_afterSwitch_iff]
  | delete at_switch destroy => exact h.emit rfl
  | resume at_switch next destroy => exact h.resume at_switch next

end Recorded

/-! ## One place for every thread -/

/-- The thread is current, or once in the ready list, or once in one queue. -/
inductive OnePlace (s : System) (t : Tid) : Prop
  | running (current : t = s.currentThread) (status : s.statusOf t = .running)
      (not_ready : t ∉ s.readyList) (not_queued : ∀ w, t ∉ s.view.queue w)
  | ready (not_current : t ≠ s.currentThread) (status : s.statusOf t = .ready)
      (once : s.readyList.count t = 1) (not_queued : ∀ w, t ∉ s.view.queue w)
  | waiting (w : Wait) (not_current : t ≠ s.currentThread) (status : s.statusOf t = .blocked)
      (not_ready : t ∉ s.readyList) (once : (s.view.queue w).count t = 1)
      (not_queued : ∀ w', w' ≠ w → t ∉ s.view.queue w')

theorem WellFormed.onePlace {s : System} (h : WellFormed s) (hrecorded : Recorded s.view)
    (hawake : asleep s.frames = false) {t : Tid} (hforked : s.statusOf t ≠ .justCreated)
    (hfinished : t ∉ finished s.log) : OnePlace s t := by
  have hlists := h.placed.lists
  have hrunning : s.statusOf s.currentThread = .running := hlists.current.mpr hawake
  have hcurrent : ∀ {status : ThreadStatus}, s.statusOf t = status → status ≠ .running →
      t ≠ s.currentThread := by
    rintro status hstatus hne rfl
    exact hne (hstatus.symm.trans hrunning)
  have hready : s.statusOf t ≠ .ready → t ∉ s.readyList := by
    intro hne hmem
    exact hne ((hlists.ready_iff t).mp hmem)
  cases hstatus : s.statusOf t with
  | justCreated => exact absurd hstatus hforked
  | running =>
      exact .running (hlists.running t hstatus) hstatus (hready (by simp [hstatus]))
        (hlists.not_mem_queue (by rw [show s.view.status t = _ from hstatus]; nofun))
  | ready =>
      have hmem : t ∈ s.readyList := (hlists.ready_iff t).mpr hstatus
      exact .ready (hcurrent hstatus nofun) hstatus
        (List.count_eq_one_of_mem hlists.ready_nodup hmem)
        (hlists.not_mem_queue (by rw [show s.view.status t = _ from hstatus]; nofun))
  | blocked =>
      have hended : ended (s.view.frames t) ≠ true := by
        rw [ne_eq, ← hrecorded t]
        exact hfinished
      obtain hend | ⟨w, hw⟩ := h.placed.framed.blocked t hstatus
      · exact absurd hend hended
      · have hmem : t ∈ s.view.queue w := (hlists.queue_iff w t).mpr ⟨hstatus, hw⟩
        refine .waiting w (hcurrent hstatus nofun) hstatus (hready (by simp [hstatus]))
          (List.count_eq_one_of_mem (hlists.queue_nodup w) hmem) ?_
        intro w' hne hmem'
        have hw' := ((hlists.queue_iff w' t).mp hmem').2
        rw [hw] at hw'
        exact hne (Option.some.inj hw').symm

theorem recorded_boot (initialValue : SemId → ℕ) : Recorded (boot initialValue).view := by
  intro t
  rw [frames_boot]
  by_cases ht : t = 0 <;> simp [ht, ended, boot, view, finished]

/-- Outside the loop of `Sleep`, every thread that has been forked and has not finished is
in one place; and threads are dispatched in the order in which they were made ready. -/
theorem thread_in_one_place (initialValue : SemId → ℕ) (labels : List Label) :
    AllStates step (fun s =>
      (asleep s.frames = false → ∀ t, s.statusOf t ≠ .justCreated → t ∉ finished s.log →
        OnePlace s t) ∧
      readied s.log = dispatched s.log ++ s.readyList) (boot initialValue) labels := by
  have hall := allStates_of_move (P := fun v => InOrder v ∧ Recorded v)
    (fun _ v v' hplaced hmove h => ⟨h.1.move hmove, h.2.move hplaced hmove⟩)
    initialValue ⟨rfl, recorded_boot initialValue⟩ labels
  apply hall.mono
  rintro s ⟨hs, horder, hrecorded⟩
  refine ⟨?_, horder⟩
  intro hawake t hforked hfinished
  exact hs.onePlace hrecorded hawake hforked hfinished

end Nachos.System
