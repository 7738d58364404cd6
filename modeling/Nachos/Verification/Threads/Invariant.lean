import Nachos.Library.Runs
import Nachos.Verification.Threads.Places

/-! # The invariant of the thread system

Every suspended frame expects the interrupt level that it will find. Every step keeps this
and makes moves of the view only. -/

namespace Nachos.System

open Runs View

/-- The frames of the thread that has control, at the given level. -/
def Control : IntStatus → List Frame → Prop
  | level, .threadRoot :: rest => level = .intOff ∧ rest = []
  | level, .body op oldLevel :: rest =>
      level = .intOff ∧ Returns oldLevel rest ∧ CalledFrom op rest
  | level, .restore _ oldLevel :: rest => level = .intOff ∧ Returns oldLevel rest
  | level, .oneTick _ :: rest => level = .intOff ∧ Returns .intOn rest
  | level, .sleep :: rest => level = .intOff ∧ Waiting rest
  | level, .idle :: rest => level = .intOff ∧ ∃ rest', rest = .sleep :: rest' ∧ Waiting rest'
  | level, .afterSwitch :: rest => level = .intOff ∧ Waiting rest
  | level, frames => Returns level frames

theorem Parked.control {fs : List Frame} (h : Parked fs) : Control .intOff fs := by
  match fs, h with
  | .afterSwitch :: rest, h => exact ⟨rfl, h⟩
  | .threadRoot :: rest, h => exact ⟨rfl, h⟩

theorem Returns.control {level : IntStatus} {fs : List Frame} (h : Returns level fs) :
    Control level fs := by
  match fs, h with
  | .func :: rest, h => exact h
  | .ret _ _ :: rest, h => exact h
  | .afterYield _ :: rest, h => exact h

theorem Resumes.control {fs : List Frame} (h : Resumes fs) : Control .intOff fs := by
  match fs, h with
  | .body _ _ :: rest, h => exact ⟨rfl, h⟩
  | .restore _ _ :: rest, h => exact ⟨rfl, h⟩

structure WellFormed (s : System) : Prop where
  placed : Placed s.view
  control : Control s.level s.frames
  inHandler : s.inHandler = false
  stop : s.stop ≠ some .aborted

/-- What a step does. -/
structure Follows (label : Label) (s s' : System) : Prop where
  moves : Moves label s.view s'.view
  control : Control s'.level s'.frames
  inHandler : s'.inHandler = false
  stop : s'.stop ≠ some .aborted

variable {label : Label} {s s' : System} {fs rest base : List Frame} {t : Tid} {sem : SemId}
  {lock : LockId}

theorem Follows.wellFormed (h : Follows label s s') (hs : WellFormed s) : WellFormed s' := by
  have hplaced : Placed s'.view := h.moves.keep (fun _ _ hmove hv => hv.move hmove) hs.placed
  exact ⟨hplaced, h.control, h.inHandler, h.stop⟩

theorem Follows.congr {s₁ : System} (h : Follows label s₁ s') (hview : s₁.view = s.view) :
    Follows label s s' := by
  refine ⟨?_, h.control, h.inHandler, h.stop⟩
  rw [← hview]
  exact h.moves

/-! ## From frame to frame -/

theorem goes_func : Goes [.func] [.func] :=
  ⟨trivial, trivial, nofun, rfl, fun _ hmem => hmem⟩

theorem Goes.tick (h : Goes fs rest) (old : MachineStatus) : Goes fs (.oneTick old :: rest) :=
  ⟨h.now, trivial, h.untested, h.sameCalls, h.acquired_sub⟩

/-- A frame that belongs to no operation is left. -/
theorem goes_pop {frame : Frame} (hplain : Plain (frame :: rest)) (hcall : callOf frame = none)
    (hrest : Plain rest) : Goes (frame :: rest) rest := by
  have hacquired : acquiredBy frame = none := by
    cases frame <;> simp_all [callOf, acquiredBy]
  refine ⟨hplain, hrest, ?_, ?_, ?_⟩
  · intro sem
    cases frame <;> simp_all [callOf, waits, Plain]
  · simp [calls, hcall]
  · simp [acquired, hacquired]

theorem goes_ret (op : Op) (oldLevel : IntStatus) :
    Goes (.restore op oldLevel :: rest) (.ret op oldLevel :: rest) := by
  refine ⟨trivial, trivial, ?_, rfl, fun _ hmem => hmem⟩
  intro sem
  cases op <;> nofun

theorem goes_body {op : Op} {oldLevel : IntStatus}
    (hop : waits (.body op oldLevel :: rest) = none) (hlock : lockOf op = none) :
    Goes (.body op oldLevel :: rest) (.restore op oldLevel :: rest) := by
  refine ⟨trivial, trivial, ?_, rfl, ?_⟩
  · intro sem
    rw [hop]
    nofun
  · rw [show acquired (.restore op oldLevel :: rest) = acquired rest by
      simp [acquired, acquiredBy, hlock]]
    exact fun _ hmem => hmem

theorem frames_setFrames (s : System) (fs : List Frame) : (s.setFrames fs).frames = fs := by
  rw [frames_eq, view_setFrames, top_setFrames]

theorem follows_goto (hgoes : Goes s.frames fs) (hcontrol : Control s.level fs)
    (hin : s.inHandler = false) (hstop : s.stop ≠ some .aborted) :
    Follows label s (s.setFrames fs) := by
  refine ⟨?_, ?_, hin, hstop⟩
  · rw [view_setFrames]
    exact .single (.go hgoes)
  · rw [frames_setFrames]
    exact hcontrol

theorem follows_setLevel {now : IntStatus} (hgoes : Goes s.frames rest) (hrest : Returns now rest)
    (hin : s.inHandler = false) (hstop : s.stop ≠ some .aborted) :
    Follows label s (s.setLevel now rest) := by
  unfold setLevel
  rw [if_neg (by simp [hin])]
  split
  · rename_i hon
    obtain ⟨rfl, -⟩ := hon
    have hfollows : Follows label { s with level := .intOff }
        (({ s with level := .intOff } : System).setFrames (.oneTick s.machineStatus :: rest)) :=
      follows_goto (hgoes.tick _) ⟨rfl, hrest⟩ hin hstop
    exact hfollows.congr rfl
  · have hfollows : Follows label { s with level := now }
        (({ s with level := now } : System).setFrames rest) :=
      follows_goto hgoes hrest.control hin hstop
    exact hfollows.congr rfl

/-! ## Operations -/

section Operations

variable {oldLevel : IntStatus} {op : Op}

theorem follows_call (hgoes : Goes s.frames base) (hbase : Returns s.level base)
    (hfrom : CalledFrom op base) (hin : s.inHandler = false) (hstop : s.stop ≠ some .aborted) :
    Follows label s (s.call op base) := by
  refine ⟨?_, ?_, hin, hstop⟩
  · unfold call
    rw [view_setFrames]
    exact .single (.call op s.level hgoes)
  · unfold call
    rw [frames_setFrames]
    exact ⟨rfl, hbase, hfrom⟩

theorem frames_sleep (hlevel : s.level = .intOff) : (s.sleep rest).frames = .sleep :: rest := by
  rw [frames_eq, view_sleep s rest hlevel]
  exact top_setFrames _ _

theorem sameFlags_sleep (rest : List Frame) (hlevel : s.level = .intOff) :
    SameFlags s (s.sleep rest) := by
  unfold sleep
  rw [if_pos hlevel]
  exact ⟨rfl, rfl, rfl⟩

/-- A thread that sleeps inside an operation. -/
theorem follows_sleep {s₁ : System} (hmove : Moves label s.view (s₁.view.sleep rest))
    (hlevel : s₁.level = .intOff) (hrest : Waiting rest) (hin : s₁.inHandler = false)
    (hstop : s₁.stop ≠ some .aborted) : Follows label s (s₁.sleep rest) := by
  have hflags := sameFlags_sleep rest hlevel
  refine ⟨?_, ?_, hflags.inHandler.trans hin, ?_⟩
  · rw [view_sleep s₁ rest hlevel]
    exact hmove
  · rw [frames_sleep hlevel, hflags.level]
    exact ⟨hlevel, hrest⟩
  · rw [hflags.stop]
    exact hstop

/-- The last part of an operation that does not sleep. -/
theorem follows_restore {s₁ : System} (hmove : Moves label s.view (s₁.view.setFrames
      (.restore op oldLevel :: base)))
    (hlevel : s₁.level = .intOff) (hbase : Returns oldLevel base) (hin : s₁.inHandler = false)
    (hstop : s₁.stop ≠ some .aborted) :
    Follows label s (s₁.setFrames (.restore op oldLevel :: base)) := by
  refine ⟨?_, ?_, hin, hstop⟩
  · rw [view_setFrames]
    exact hmove
  · rw [frames_setFrames]
    exact ⟨hlevel, hbase⟩

theorem WellFormed.body (h : WellFormed s) (hframes : s.frames = .body op oldLevel :: base) :
    s.level = .intOff ∧ Returns oldLevel base ∧ CalledFrom op base := by
  have hcontrol := h.control
  rw [hframes] at hcontrol
  exact hcontrol

theorem follows_testP (h : WellFormed s) (hframes : s.frames = .body (.p sem) oldLevel :: base) :
    Follows label s (s.testP sem oldLevel base) := by
  obtain ⟨hlevel, hbase, hfrom⟩ := h.body hframes
  by_cases hzero : (s.semaphores sem).value = 0
  · rw [testP_of_zero hzero]
    refine follows_sleep ?_ hlevel (.inr ⟨hbase, hfrom⟩) h.inHandler h.stop
    exact .single (.block hframes hzero)
  · rw [testP_of_pos hzero]
    refine follows_restore ?_ hlevel hbase h.inHandler h.stop
    exact .single (.take hframes hzero)

/-- The body of `V`, called by a thread or by a handler. -/
theorem moves_bodyV (label : Label) (s : System) (sem : SemId) :
    Moves label s.view (s.bodyV sem).view := by
  cases hqueue : (s.semaphores sem).queue with
  | nil =>
      rw [bodyV_of_nil hqueue]
      exact .single (.token hqueue)
  | cons t threads =>
      rw [bodyV_of_cons hqueue, view_emit, view_readyToRun]
      exact .single (.wake hqueue)

theorem top_bodyV (s : System) (sem : SemId) : (s.bodyV sem).view.top = s.view.top := by
  cases hqueue : (s.semaphores sem).queue with
  | nil =>
      rw [bodyV_of_nil hqueue]
      rfl
  | cons t threads =>
      rw [bodyV_of_cons hqueue, view_emit, view_readyToRun]
      rfl

theorem follows_bodyV (h : WellFormed s) (hframes : s.frames = .body (.v sem) oldLevel :: base) :
    Follows label s ((s.bodyV sem).setFrames (.restore (.v sem) oldLevel :: base)) := by
  obtain ⟨hlevel, hbase, -⟩ := h.body hframes
  have hflags := sameFlags_bodyV s sem
  refine follows_restore ?_ (hflags.level.trans hlevel) hbase
    (hflags.inHandler.trans h.inHandler) ?_
  · refine .tail (moves_bodyV label s sem) (.go ?_)
    rw [top_bodyV, ← frames_eq, hframes]
    exact goes_body rfl rfl
  · rw [hflags.stop]
    exact h.stop

theorem follows_acquire (h : WellFormed s)
    (hframes : s.frames = .body (.acquire lock) oldLevel :: base) :
    Follows label s (s.acquire lock oldLevel base) := by
  obtain ⟨hlevel, hbase, -⟩ := h.body hframes
  by_cases hheld : (s.locks lock).ownerThread = some s.currentThread
  · rw [acquire_of_held hheld]
    refine follows_restore ?_ hlevel hbase h.inHandler h.stop
    exact .single (.reacquire hframes hheld)
  · by_cases hfree : (s.locks lock).stat = .free
    · rw [acquire_of_free hheld hfree]
      refine follows_restore ?_ hlevel hbase h.inHandler h.stop
      exact .single (.acquire hframes hheld hfree)
    · rw [acquire_of_busy hheld hfree]
      refine follows_sleep ?_ hlevel (.inr hbase) h.inHandler h.stop
      exact .single (.enqueue hframes hheld hfree)

theorem follows_release (h : WellFormed s)
    (hframes : s.frames = .body (.release lock) oldLevel :: base) :
    Follows label s (s.release lock oldLevel base) := by
  obtain ⟨hlevel, hbase, hfrom⟩ := h.body hframes
  obtain rfl : base = [.func] := by
    rcases hfrom with hyield | hfunc
    · cases hyield
    · exact hfunc
  by_cases hheld : (s.locks lock).ownerThread = some s.currentThread
  · cases hqueue : (s.locks lock).queue with
    | nil =>
        rw [release_of_nil hheld hqueue]
        refine follows_restore ?_ hlevel hbase h.inHandler h.stop
        exact .single (.release hframes hheld hqueue)
    | cons t threads =>
        have hflags := (((sameFlags_emit s (.release lock s.currentThread)).trans
          (sameFlags_setLock _ lock ⟨(s.locks lock).stat, some t, threads⟩)).trans
          (sameFlags_readyToRun _ t)).trans (sameFlags_emit _ (.granted lock t))
        rw [release_of_cons hheld hqueue]
        refine follows_restore ?_ (hflags.level.trans hlevel) hbase
          (hflags.inHandler.trans h.inHandler) ?_
        · rw [view_emit, view_readyToRun]
          exact .single (.handOff hframes hheld hqueue)
        · rw [hflags.stop]
          exact h.stop
  · rw [release_of_foreign hheld]
    refine follows_restore ?_ hlevel hbase h.inHandler h.stop
    exact .single (.foreignRelease hframes hheld)

theorem follows_fork (h : WellFormed s) (hframes : s.frames = .body (.fork t) oldLevel :: base)
    (hcreated : s.statusOf t = .justCreated) : Follows label s (s.fork t oldLevel base) := by
  obtain ⟨hlevel, hbase, -⟩ := h.body hframes
  refine ⟨?_, ?_, h.inHandler, h.stop⟩
  · rw [view_fork]
    exact .single (.fork hframes hcreated)
  · unfold fork
    rw [frames_setFrames]
    exact ⟨hlevel, hbase⟩

theorem follows_finish (h : WellFormed s) (hframes : s.frames = [.func]) :
    Follows .finish s s.finish := by
  unfold System.finish
  refine follows_sleep ?_ rfl (.inl rfl) h.inHandler h.stop
  exact .single (.finish rfl hframes)

end Operations

/-! ## Dispatching -/

/-- The thread that gets control finds its frames as it left them. -/
theorem control_run {v : View} {next : Tid} {level : IntStatus} (hwaiting : Waiting rest)
    (hparked : next ≠ v.currentThread → Parked (v.frames next)) :
    Control .intOff (v.run next rest level).top := by
  obtain ⟨registers, hrun⟩ := v.run_eq next rest level
  rw [hrun]
  change Control .intOff (Function.update v.frames v.currentThread (.afterSwitch :: rest) next)
  by_cases heq : next = v.currentThread
  · subst heq
    rw [Function.update_self]
    exact ⟨rfl, hwaiting⟩
  · rw [Function.update_of_ne heq]
    exact (hparked heq).control

theorem follows_run {s₁ : System} {next : Tid}
    (hmove : Moves label s.view (s₁.view.run next rest .intOff)) (hlevel : s₁.level = .intOff)
    (hwaiting : Waiting rest) (hparked : next ≠ s₁.currentThread → Parked (s₁.view.frames next))
    (hin : s₁.inHandler = false) (hstop : s₁.stop ≠ some .aborted) :
    Follows label s (s₁.run next rest) := by
  have hflags := sameFlags_run s₁ rest next
  have hview := view_run s₁ rest next
  rw [hlevel] at hview
  refine ⟨?_, ?_, hflags.inHandler.trans hin, ?_⟩
  · rw [hview]
    exact hmove
  · rw [frames_eq, hview, hflags.level, hlevel]
    exact control_run hwaiting hparked
  · rw [hflags.stop]
    exact hstop

theorem follows_dispatch {next : Tid} {readyList : List Tid} (h : WellFormed s)
    (hframes : s.frames = .sleep :: rest) (hready : s.readyList = next :: readyList) :
    Follows label s ({ s with readyList := readyList }.run next rest) := by
  have hcontrol := h.control
  rw [hframes] at hcontrol
  obtain ⟨hlevel, hwaiting⟩ := hcontrol
  have hstatus := h.placed.ready_next hready
  refine follows_run ?_ hlevel hwaiting ?_ h.inHandler h.stop
  · exact .single (.dispatch hframes hready hwaiting)
  · intro hne
    exact h.placed.framed.parked next hne (by simp [hstatus])

theorem follows_yield {oldLevel : IntStatus} (h : WellFormed s)
    (hframes : s.frames = .body .yield oldLevel :: base) :
    Follows label s (s.yield oldLevel base) := by
  obtain ⟨hlevel, hbase, -⟩ := h.body hframes
  cases hready : s.readyList with
  | nil =>
      rw [yield_of_nil hready]
      refine follows_restore ?_ hlevel hbase h.inHandler h.stop
      refine .single (.go ?_)
      rw [← frames_eq, hframes]
      exact goes_body rfl rfl
  | cons next readyList =>
      rw [yield_of_cons hready]
      have hstatus := h.placed.ready_next hready
      refine follows_run ?_ hlevel (.inr hbase) ?_ h.inHandler h.stop
      · rw [view_readyToRun]
        exact .single (.yield hframes hready hbase)
      · intro hne
        rw [view_readyToRun]
        exact h.placed.framed.parked next hne (by simp [hstatus])

/-- A thread that has finished does not get control again. -/
theorem WellFormed.resumes (h : WellFormed s) (hframes : s.frames = .afterSwitch :: rest) :
    s.level = .intOff ∧ Resumes rest := by
  have hcontrol := h.control
  rw [hframes] at hcontrol
  obtain ⟨hlevel, hwaiting⟩ := hcontrol
  refine ⟨hlevel, ?_⟩
  rcases hwaiting with rfl | hrest
  · have hrunning : s.view.status s.currentThread = .running := by
      apply h.placed.lists.current.mpr
      exact congrArg asleep hframes
    have hended : ended (s.view.frames s.currentThread) = true := congrArg ended hframes
    have hblocked := h.placed.framed.finished s.currentThread hended
    rw [hrunning] at hblocked
    cases hblocked
  · exact hrest

theorem follows_resume {s₁ : System}
    (hmove : Moves label s.view (s₁.view.restoreUserState.setFrames rest))
    (hlevel : s₁.level = .intOff) (hrest : Resumes rest) (hin : s₁.inHandler = false)
    (hstop : s₁.stop ≠ some .aborted) : Follows label s (s₁.restoreUserState.setFrames rest) := by
  have hflags := sameFlags_restoreUserState s₁
  refine ⟨?_, ?_, hflags.inHandler.trans hin, ?_⟩
  · rw [view_setFrames, view_restoreUserState]
    exact hmove
  · rw [frames_setFrames]
    change Control s₁.restoreUserState.level rest
    rw [hflags.level, hlevel]
    exact hrest.control
  · change s₁.restoreUserState.stop ≠ _
    rw [hflags.stop]
    exact hstop

theorem follows_afterSwitch (h : WellFormed s) (hframes : s.frames = .afterSwitch :: rest) :
    Follows label s (s.afterSwitch rest) := by
  obtain ⟨hlevel, hrest⟩ := h.resumes hframes
  unfold afterSwitch
  cases hdestroy : s.threadToBeDestroyed with
  | none =>
      refine follows_resume ?_ hlevel hrest h.inHandler h.stop
      exact .single (.resume hframes hrest hdestroy)
  | some t =>
      -- the ASSERT of `~Thread`: the thread that is destroyed has finished
      have hne : t ≠ s.currentThread := by
        rintro rfl
        have hended := h.placed.destroy s.currentThread hdestroy
        change ended s.frames = true at hended
        rw [hframes, ended_afterSwitch_iff] at hended
        subst hended
        exact hrest
      dsimp only
      rw [if_neg hne]
      refine follows_resume ?_ hlevel hrest h.inHandler h.stop
      refine .tail (.single (.delete hframes hdestroy)) ?_
      exact .resume hframes hrest rfl

/-! ## Interrupts -/

/-- A handler leaves the interrupted thread where it is. -/
structure Handled (label : Label) (s s' : System) : Prop where
  moves : Moves label s.view s'.view
  top : s'.view.top = s.view.top
  level : s'.level = .intOff
  inHandler : s'.inHandler = false
  stop : s'.stop ≠ some .aborted

theorem handled_fire (label : Label) (h : WellFormed s) (hlevel : s.level = .intOff)
    (handler : Handler) :
    Handled label s (s.fire handler) := by
  have hfired := fire_fired handler hlevel
  generalize s.fire handler = s' at hfired
  cases hfired with
  | undefined => exact ⟨.refl, rfl, hlevel, h.inHandler, nofun⟩
  | timer registers => exact ⟨.single (.registers registers), rfl, hlevel, rfl, h.stop⟩
  | poll registers => exact ⟨.single (.registers registers), rfl, hlevel, rfl, h.stop⟩
  | device sem registers =>
      have hflags := sameFlags_bodyV (s.inside registers) sem
      have hbody := moves_bodyV label (s.inside registers) sem
      refine ⟨?_, ?_, hflags.level.trans hlevel, rfl, ?_⟩
      · refine .tail (.head (.registers registers) hbody) ?_
        exact .handlerV sem .intOff
      · exact top_bodyV (s.inside registers) sem
      · change ((s.inside registers).bodyV sem).stop ≠ _
        rw [hflags.stop]
        exact h.stop

theorem Handled.follows (h : Handled label s s') (hcontrol : Control .intOff s.frames) :
    Follows label s s' := by
  refine ⟨h.moves, ?_, h.inHandler, h.stop⟩
  rw [h.level, frames_eq, h.top, ← frames_eq]
  exact hcontrol

theorem follows_beginIdle (h : WellFormed s) (hframes : s.frames = .sleep :: rest)
    (handler : Handler) : Follows label s (s.beginIdle handler rest) := by
  have hcontrol := h.control
  rw [hframes] at hcontrol
  obtain ⟨hlevel, hwaiting⟩ := hcontrol
  have hidle : WellFormed { s with machineStatus := .idleMode } :=
    ⟨h.placed, h.control, h.inHandler, h.stop⟩
  have hfired := handled_fire label hidle hlevel handler
  have htop : (System.fire { s with machineStatus := .idleMode } handler).view.top =
      .sleep :: rest := hfired.top.trans hframes
  unfold beginIdle
  refine ⟨?_, ?_, hfired.inHandler, hfired.stop⟩
  · rw [view_setFrames]
    refine .tail hfired.moves (.doze ?_)
    rw [htop]
    exact ⟨rfl, rfl, rfl, by cases rest <;> rfl, rfl, rfl⟩
  · rw [frames_setFrames]
    exact ⟨hfired.level, rest, rfl, hwaiting⟩

theorem follows_endIdle (h : WellFormed s) (hframes : s.frames = .idle :: rest) :
    Follows label s (s.endIdle rest) := by
  have hcontrol := h.control
  rw [hframes] at hcontrol
  obtain ⟨hlevel, rest', rfl, hwaiting⟩ := hcontrol
  unfold endIdle
  rw [if_neg (by simp [hlevel])]
  refine ⟨?_, ?_, h.inHandler, h.stop⟩
  · rw [view_setFrames]
    refine .single (.doze ?_)
    change Dozes s.frames _
    rw [hframes]
    exact ⟨rfl, rfl, rfl, by cases rest' <;> rfl, rfl, rfl⟩
  · rw [frames_setFrames]
    exact ⟨hlevel, hwaiting⟩

theorem follows_endTick {old : MachineStatus} (h : WellFormed s)
    (hframes : s.frames = .oneTick old :: rest) : Follows label s (s.endTick old rest) := by
  have hcontrol := h.control
  rw [hframes] at hcontrol
  obtain ⟨hlevel, hrest⟩ := hcontrol
  have hgoes : Goes s.frames rest := by
    rw [hframes]
    exact goes_pop trivial rfl hrest.plain
  unfold endTick
  rw [if_neg (by simp [hlevel])]
  split
  · have hyield : Goes s.frames (.afterYield old :: rest) :=
      ⟨hgoes.now, trivial, hgoes.untested, hgoes.sameCalls, hgoes.acquired_sub⟩
    exact (follows_call (s := { s with
      level := .intOn, yieldOnReturn := false, machineStatus := .systemMode })
      hyield ⟨rfl, hrest⟩ (.inl rfl) h.inHandler h.stop).congr rfl
  · exact (follows_goto (s := { s with level := .intOn }) hgoes hrest.control h.inHandler
      h.stop).congr rfl

/-! ## Steps -/

theorem WellFormed.func (h : WellFormed s) (hframes : s.frames = .func :: rest) : rest = [] := by
  have hcontrol := h.control
  rw [hframes] at hcontrol
  exact hcontrol

theorem follows_instruction (h : WellFormed s) (hframes : s.frames = [.func])
    (registers : Registers) : Follows label s ({ s with
      context := { s.context with registers := registers }
      machineStatus := .userMode }.oneTick [.func]) := by
  refine ⟨?_, ?_, h.inHandler, h.stop⟩
  · unfold oneTick
    rw [view_setFrames]
    refine .tail (.single (.registers registers)) (.go ?_)
    change Goes s.frames _
    rw [hframes]
    exact goes_func.tick _
  · unfold oneTick
    rw [frames_setFrames]
    exact ⟨rfl, rfl⟩

theorem follows_startProcess (h : WellFormed s) (hframes : s.frames = [.func])
    (space : UserSpace) : Follows label s (s.startProcess space) := by
  refine ⟨?_, ?_, h.inHandler, h.stop⟩
  · rw [view_startProcess]
    exact .single (.startProcess space hframes)
  · rw [frames_eq, view_startProcess]
    exact h.control

theorem follows_threadRoot (h : WellFormed s) (hframes : s.frames = .threadRoot :: rest) :
    Follows label s (s.setLevel .intOn (.func :: rest)) := by
  have hcontrol := h.control
  rw [hframes] at hcontrol
  obtain ⟨-, rfl⟩ := hcontrol
  refine follows_setLevel ?_ rfl h.inHandler h.stop
  rw [hframes]
  exact ⟨trivial, trivial, nofun, rfl, fun _ hmem => hmem⟩

theorem follows_leave {op : Op} {oldLevel : IntStatus} (h : WellFormed s)
    (hframes : s.frames = .ret op oldLevel :: rest) :
    Follows label s ((s.emit (.left s.currentThread op s.level)).setFrames rest) := by
  have hcontrol := h.control
  rw [hframes] at hcontrol
  obtain ⟨hlevel, hrest⟩ := hcontrol
  refine ⟨?_, ?_, h.inHandler, h.stop⟩
  · rw [view_setFrames, hlevel]
    exact .single (.leave hframes hrest)
  · rw [frames_setFrames]
    change Control s.level rest
    rw [hlevel]
    exact hrest.control

theorem follows_afterYield {old : MachineStatus} (h : WellFormed s)
    (hframes : s.frames = .afterYield old :: rest) :
    Follows label s ({ s with machineStatus := old }.setFrames rest) := by
  have hcontrol := h.control
  rw [hframes] at hcontrol
  obtain ⟨hlevel, hrest⟩ := hcontrol
  have hgoes : Goes s.frames rest := by
    rw [hframes]
    exact goes_pop trivial rfl hrest.plain
  refine (follows_goto (s := { s with machineStatus := old }) hgoes ?_ h.inHandler h.stop).congr rfl
  change Control s.level rest
  rw [hlevel]
  exact hrest.control

theorem follows_haltIdle (h : WellFormed s) (hframes : s.frames = .sleep :: rest) :
    Follows label s s.haltIdle := by
  have hcontrol := h.control
  rw [hframes] at hcontrol
  unfold haltIdle
  rw [if_neg (by simp [hcontrol.1])]
  exact ⟨.refl, h.control, h.inHandler, nofun⟩

theorem follows_interrupt (h : WellFormed s) (hlevel : s.level = .intOff) (handler : Handler) :
    Follows label s (s.fire handler) := by
  apply (handled_fire label h hlevel handler).follows
  rw [← hlevel]
  exact h.control

theorem follows_rule (h : WellFormed s) (hrule : Rule s label s') :
    Follows label s s' := by
  have hcontrol := h.control
  cases hrule with
  | call op at_func =>
      obtain rfl := h.func at_func
      refine follows_call ?_ rfl (.inr rfl) h.inHandler h.stop
      rw [at_func]
      exact goes_func
  | finish at_func =>
      obtain rfl := h.func at_func
      exact follows_finish h at_func
  | setLevel now at_func =>
      obtain rfl := h.func at_func
      refine follows_setLevel ?_ rfl h.inHandler h.stop
      rw [at_func]
      exact goes_func
  | setStatus status at_func => exact ⟨.refl, h.control, h.inHandler, h.stop⟩
  | writeRegisters registers at_func =>
      exact ⟨.single (.registers registers), h.control, h.inHandler, h.stop⟩
  | instruction registers at_func user =>
      obtain rfl := h.func at_func
      exact follows_instruction h at_func registers
  | startProcess space at_func =>
      obtain rfl := h.func at_func
      exact follows_startProcess h at_func space
  | halt at_func => exact ⟨.refl, h.control, h.inHandler, nofun⟩
  | threadRoot at_root => exact follows_threadRoot h at_root
  | bodyP at_body => exact follows_testP h at_body
  | bodyV at_body => exact follows_bodyV h at_body
  | bodyAcquire at_body => exact follows_acquire h at_body
  | bodyRelease at_body => exact follows_release h at_body
  | bodyFork at_body created => exact follows_fork h at_body created
  | bodyYield at_body => exact follows_yield h at_body
  | restore at_restore =>
      rw [at_restore] at hcontrol
      refine follows_setLevel ?_ ⟨rfl, hcontrol.2⟩ h.inHandler h.stop
      rw [at_restore]
      exact goes_ret _ _
  | ret at_ret => exact follows_leave h at_ret
  | tickInterrupt handler at_tick =>
      rw [at_tick] at hcontrol
      exact follows_interrupt h hcontrol.1 handler
  | tickQuiet at_tick => exact follows_endTick h at_tick
  | afterYield at_yield => exact follows_afterYield h at_yield
  | dispatch at_sleep ready => exact follows_dispatch h at_sleep ready
  | beginIdle handler at_sleep ready => exact follows_beginIdle h at_sleep handler
  | haltIdle at_sleep ready => exact follows_haltIdle h at_sleep
  | idleInterrupt handler at_idle =>
      rw [at_idle] at hcontrol
      exact follows_interrupt h hcontrol.1 handler
  | idleQuiet at_idle => exact follows_endIdle h at_idle
  | afterSwitch at_switch => exact follows_afterSwitch h at_switch

/-- Every step of the code makes moves of the view, and keeps the invariant. -/
theorem step_follows (h : WellFormed s) (hstep : s.step label = some s') :
    Follows label s s' :=
  follows_rule h (step_rule hstep).2

theorem status_boot (initialValue : SemId → ℕ) (t : Tid) :
    (boot initialValue).view.status t = if t = 0 then .running else .justCreated := by
  by_cases ht : t = 0
  · subst ht
    rfl
  · simp [boot, view, statusOf, Thread.create, ht]

theorem frames_boot (initialValue : SemId → ℕ) (t : Tid) :
    (boot initialValue).view.frames t = if t = 0 then [.func] else [] := by
  by_cases ht : t = 0
  · subst ht
    rfl
  · simp [boot, view, framesOf, Thread.create, ht]

theorem placed_boot (initialValue : SemId → ℕ) : Placed (boot initialValue).view := by
  have hstatus := status_boot initialValue
  have hframes := frames_boot initialValue
  have hmain : ∀ t, t ≠ 0 → (boot initialValue).view.status t = .justCreated := by
    intro t ht
    rw [hstatus, if_neg ht]
  have hqueue : ∀ w, (boot initialValue).view.queue w = [] := by
    intro w
    cases w with
    | sem sem => rfl
    | lock lock => rfl
  refine ⟨⟨List.nodup_nil, ?_, ?_, ?_, ?_, nofun, ?_⟩, ⟨?_, ?_, ?_, ?_⟩, nofun⟩
  · intro t
    rw [hstatus]
    by_cases ht : t = 0 <;> simp [ht, boot, view]
  · intro w
    rw [hqueue]
    exact List.nodup_nil
  · intro w t
    rw [hqueue, hstatus]
    by_cases ht : t = 0 <;> simp [ht]
  · intro t ht
    by_contra hne
    rw [hmain t hne] at ht
    cases ht
  · exact ⟨fun _ => rfl, fun _ => rfl⟩
  · intro t ht hcreated
    exact absurd (hmain t ht) hcreated
  · intro t ht
    rw [hframes]
    by_cases hzero : t = 0
    · subst hzero
      cases ht
    · rw [if_neg hzero]
  · intro t ht
    rw [hframes] at ht
    by_cases hzero : t = 0 <;> simp [hzero, ended] at ht
  · intro t ht
    rw [hstatus] at ht
    by_cases hzero : t = 0 <;> simp [hzero] at ht

theorem wellFormed_boot (initialValue : SemId → ℕ) : WellFormed (boot initialValue) :=
  ⟨placed_boot initialValue, rfl, rfl, nofun⟩

/-- A property of the view that the moves of a step keep. -/
theorem WellFormed.step_keep {P : View → Prop}
    (hkeep : ∀ v v', Placed v → Move label v v' → P v → P v') (h : WellFormed s)
    (hstep : s.step label = some s') (hP : P s.view) : WellFormed s' ∧ P s'.view := by
  have hfollows := step_follows h hstep
  have hboth : Placed s'.view ∧ P s'.view := by
    apply hfollows.moves.keep (P := fun v => Placed v ∧ P v)
    · intro v v' hmove hv
      exact ⟨hv.1.move hmove, hkeep v v' hv.1 hmove hv.2⟩
    · exact ⟨h.placed, hP⟩
  exact ⟨hfollows.wellFormed h, hboth.2⟩

/-- A property of the view that every move keeps holds along every run. -/
theorem allStates_of_move {P : View → Prop}
    (hkeep : ∀ label v v', Placed v → Move label v v' → P v → P v') (initialValue : SemId → ℕ)
    (hboot : P (boot initialValue).view) (labels : List Label) :
    AllStates step (fun s => WellFormed s ∧ P s.view) (boot initialValue) labels := by
  apply allStates_of_keep
  · rintro s label s' hstep ⟨hs, hP⟩
    exact hs.step_keep (hkeep label) hstep hP
  · exact ⟨wellFormed_boot initialValue, hboot⟩

end Nachos.System
