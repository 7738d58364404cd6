import Nachos.Model.Timer
import Nachos.Verification.Interrupt.Punctual

/-! # The timer over whole runs

The timer schedules itself anew each time it is handled, and `Idle` takes it off the list only
when something else is pending. -/

namespace Nachos.Timer

open Interrupt List

variable {δ : Type} {s s' : Interrupt (Option δ)} {randomize : Bool}
  {random : Interrupt (Option δ) → ℕ}
  {devices : δ → Interrupt (Option δ) → List (HandlerCall (Option δ))}

/-! ### Intervals -/

def shortest (randomize : Bool) : ℤ :=
  if randomize then 1 else timerTicks

def longest (randomize : Bool) : ℤ :=
  if randomize then timerTicks * 2 else timerTicks

theorem timeOfNextInterrupt_mem (randomize : Bool) (random : ℕ) :
    shortest randomize ≤ timeOfNextInterrupt randomize random ∧
      timeOfNextInterrupt randomize random ≤ longest randomize := by
  unfold timeOfNextInterrupt shortest longest timerTicks
  cases randomize with
  | false => simp
  | true =>
      simp only [if_true]
      omega

/-- A request that another device makes. -/
def Foreign (request : Request (Option δ)) : Prop :=
  request.handler ≠ none ∧ request.type ≠ .timerInt

/-- The other devices leave the timer alone. -/
def LeavesTimer (devices : δ → Interrupt (Option δ) → List (HandlerCall (Option δ))) : Prop :=
  ∀ device s request, .schedule request ∈ devices device s → Foreign request

def isTimer (e : ListElement (PendingInterrupt (Option δ))) : Bool :=
  e.item.handler.isNone

/-- The timer interrupts that were handled, with the times of it. -/
def ticks (s : Interrupt (Option δ)) : List (PendingInterrupt (Option δ) × ℤ) :=
  s.fired.filter fun p => p.1.handler.isNone

/-- Each timer interrupt was scheduled when the one before was handled; `next` is the time of
the one that is pending. -/
inductive Ticks (shortest longest : ℤ) : List (PendingInterrupt (Option δ) × ℤ) → ℤ → Prop
  | created {next : ℤ} (hshort : shortest ≤ next) (hlong : next ≤ longest) :
      Ticks shortest longest [] next
  | handled {firings : List (PendingInterrupt (Option δ) × ℤ)}
      {p : PendingInterrupt (Option δ) × ℤ} {next : ℤ}
      (hbefore : Ticks shortest longest firings p.1.when)
      (hshort : p.2 + shortest ≤ next) (hlong : next ≤ p.2 + longest) :
      Ticks shortest longest (firings ++ [p]) next

/-- One timer interrupt is pending, and it comes in time. -/
structure Ticking (randomize : Bool) (s : Interrupt (Option δ)) : Prop where
  timer : ∃ e, s.pending.filter isTimer = [e] ∧ e.item.type = .timerInt ∧
    Ticks (shortest randomize) (longest randomize) (ticks s) e.item.when
  others : ∀ e ∈ s.pending, isTimer e = false → e.item.type ≠ .timerInt

/-- A stopped machine need not have a timer. -/
def Alive (randomize : Bool) (s : Interrupt (Option δ)) : Prop :=
  s.stop = none → Ticking randomize s

/-! ### The list -/

theorem filter_sortedInsert (item : PendingInterrupt (Option δ)) (when : ℤ)
    (elements : List (ListElement (PendingInterrupt (Option δ)))) :
    (sortedInsert item when elements).filter isTimer ~
      (⟨item, when⟩ :: elements : List (ListElement _)).filter isTimer :=
  (sortedInsert_perm item when elements).filter isTimer

/-- A list with one timer has it after an insertion of something else. -/
theorem filter_sortedInsert_foreign {item : PendingInterrupt (Option δ)} {when : ℤ}
    {elements : List (ListElement (PendingInterrupt (Option δ)))}
    (hitem : item.handler.isNone = false) {e : ListElement (PendingInterrupt (Option δ))}
    (h : elements.filter isTimer = [e]) :
    (sortedInsert item when elements).filter isTimer = [e] := by
  have hperm := filter_sortedInsert item when elements
  rw [filter_cons_of_neg (by simp [isTimer, hitem]), h] at hperm
  exact perm_singleton.mp hperm

theorem Ticking.congr (h : Ticking randomize s) (hpending : s'.pending = s.pending)
    (hfired : s'.fired = s.fired) : Ticking randomize s' where
  timer := by
    unfold ticks
    rw [hpending, hfired]
    exact h.timer
  others := hpending ▸ h.others

/-- What `Schedule` adds to the list. -/
def added {α : Type} (s : Interrupt α) (request : Request α) : PendingInterrupt α :=
  ⟨s.scheduled.length, request.handler, s.totalTicks + request.fromNow, request.type⟩

theorem schedule_running {α : Type} {s : Interrupt α} {request : Request α}
    (h : (s.schedule request).stop = none) :
    s.schedule request = { s with
      pending := sortedInsert (added s request) (added s request).when s.pending
      scheduled := s.scheduled ++ [added s request] } := by
  rw [Interrupt.schedule] at h ⊢
  dsimp only at h ⊢
  split at h
  · cases h
  split at h
  · cases h
  rename_i hoverflow hfromNow
  rw [if_neg hoverflow, if_neg hfromNow]
  rfl

theorem Ticking.schedule (h : Ticking randomize s) {request : Request (Option δ)}
    (hforeign : Foreign request) (hstop : (s.schedule request).stop = none) :
    Ticking randomize (s.schedule request) := by
  rw [schedule_running hstop]
  have hhandler : request.handler.isNone = false :=
    Option.isNone_eq_false_iff.mpr (Option.isSome_iff_ne_none.mpr hforeign.1)
  obtain ⟨e, hone, htype, hticks⟩ := h.timer
  refine ⟨⟨e, filter_sortedInsert_foreign hhandler hone, htype, hticks⟩, fun e' he' hother => ?_⟩
  rcases mem_sortedInsert.mp he' with rfl | he'
  · exact hforeign.2
  · exact h.others e' he' hother

theorem stop_call {α : Type} {s : Interrupt α} {c : HandlerCall α} (h : (s.call c).stop = none) :
    s.stop = none :=
  (called_call s c).stop h

theorem stop_calls {α : Type} {s : Interrupt α} {calls : List (HandlerCall α)}
    (h : (calls.foldl Interrupt.call s).stop = none) : s.stop = none :=
  (called_foldl calls s).stop h

/-- A call of another device. -/
theorem Alive.call (h : Alive randomize s) {c : HandlerCall (Option δ)}
    (hforeign : ∀ request, c = .schedule request → Foreign request) :
    Alive randomize (s.call c) := by
  intro hstop
  have hrunning := stop_call hstop
  have hticking := h hrunning
  unfold Interrupt.call at hstop ⊢
  rw [if_neg (by simp [hrunning])] at hstop ⊢
  cases c with
  | schedule request => exact hticking.schedule (hforeign request rfl) hstop
  | yieldOnReturn =>
      dsimp only at hstop ⊢
      split at hstop
      · rename_i hhandler
        rw [if_pos hhandler]
        exact hticking.congr rfl rfl
      · cases hstop

theorem Alive.calls (h : Alive randomize s) {calls : List (HandlerCall (Option δ))}
    (hforeign : ∀ request, .schedule request ∈ calls → Foreign request) :
    Alive randomize (calls.foldl Interrupt.call s) := by
  induction calls generalizing s with
  | nil => exact h
  | cons c calls ih =>
      refine ih (h.call fun request hc => hforeign request ?_) fun request hc =>
        hforeign request (mem_cons_of_mem _ hc)
      rw [← hc]
      exact mem_cons_self

/-! ### Handlers -/

/-- The state in which the handler returns. -/
def returned {α : Type} (handlers : α → Interrupt α → List (HandlerCall α)) (s : Interrupt α)
    (toOccur : PendingInterrupt α) : Interrupt α :=
  (handlers toOccur.handler (s.entered toOccur)).foldl Interrupt.call (s.entered toOccur)

theorem invoke_frame {α : Type} (handlers : α → Interrupt α → List (HandlerCall α))
    (s : Interrupt α) (toOccur : PendingInterrupt α) :
    (s.invoke handlers toOccur).pending = (returned handlers s toOccur).pending ∧
      (s.invoke handlers toOccur).fired = (returned handlers s toOccur).fired ∧
      (s.invoke handlers toOccur).stop = (returned handlers s toOccur).stop ∧
      (s.invoke handlers toOccur).yieldOnReturn = (returned handlers s toOccur).yieldOnReturn := by
  have hinvoke : s.invoke handlers toOccur =
      if (returned handlers s toOccur).stop.isSome then returned handlers s toOccur
      else { returned handlers s toOccur with status := s.status, inHandler := false } := rfl
  rw [hinvoke]
  split <;> exact ⟨rfl, rfl, rfl, rfl⟩

theorem skip_frame {α : Type} (s : Interrupt α) :
    s.skip.pending = s.pending ∧ s.skip.fired = s.fired ∧ (s.skip.stop = none → s.stop = none) := by
  unfold skip
  split
  · exact ⟨rfl, rfl, id⟩
  · split <;> exact ⟨rfl, rfl, id⟩

variable {toOccur : PendingInterrupt (Option δ)} {when : ℤ}
  {rest : List (ListElement (PendingInterrupt (Option δ)))}

/-- The interrupt of another device is handled. -/
theorem Alive.device (h : Alive randomize s) (hdevices : LeavesTimer devices) {device : δ}
    (hpending : s.pending = ⟨toOccur, when⟩ :: rest) (hhandler : toOccur.handler = some device) :
    Alive randomize
      (returned (handlers randomize random devices) { s with pending := rest } toOccur) := by
  rw [returned, hhandler]
  have hentered : Alive randomize (Interrupt.entered { s with pending := rest } toOccur) := by
    intro hstop
    obtain ⟨⟨e, hone, htype, hticks⟩, hothers⟩ := h hstop
    rw [hpending, filter_cons_of_neg (by simp [isTimer, hhandler])] at hone
    refine ⟨⟨e, hone, htype, ?_⟩, fun e' he' => hothers e' (hpending ▸ mem_cons_of_mem _ he')⟩
    have hsame : ticks (Interrupt.entered { s with pending := rest } toOccur) = ticks s := by
      simp [ticks, Interrupt.entered, hhandler]
    rw [hsame]
    exact hticks
  exact hentered.calls (hdevices device _)

/-- A list without a timer has the one that is inserted. -/
theorem filter_sortedInsert_timer {item : PendingInterrupt (Option δ)} {when : ℤ}
    {elements : List (ListElement (PendingInterrupt (Option δ)))}
    (hitem : item.handler = none) (h : elements.filter isTimer = []) :
    (sortedInsert item when elements).filter isTimer = [⟨item, when⟩] := by
  have hperm := filter_sortedInsert item when elements
  rw [filter_cons_of_pos (by simp [isTimer, hitem]), h] at hperm
  exact perm_singleton.mp hperm

/-- What `TimerExpired` does unless it stops the machine. -/
structure Expired (randomize : Bool) (s s' : Interrupt (Option δ))
    (item : PendingInterrupt (Option δ)) : Prop where
  running : s.stop = none
  handler : item.handler = none
  type : item.type = .timerInt
  short : s.totalTicks + shortest randomize ≤ item.when
  long : item.when ≤ s.totalTicks + longest randomize
  pending : s'.pending = sortedInsert item item.when s.pending
  fired : s'.fired = s.fired
  yieldOnReturn : s'.yieldOnReturn = true

theorem timerExpired_spec (n : ℕ) (hhandler : s.inHandler = true) (hstatus : s.status ≠ .idleMode)
    (hstop : ((timerExpired randomize n s).foldl Interrupt.call s).stop = none) :
    ∃ item, Expired randomize s ((timerExpired randomize n s).foldl Interrupt.call s) item := by
  have hcalls : (timerExpired randomize n s).foldl Interrupt.call s =
      (s.call (.schedule (request randomize n))).call .yieldOnReturn := by
    rw [timerExpired, timerInterruptHandler, if_pos hstatus]
    rfl
  rw [hcalls] at hstop ⊢
  have hscheduled := stop_call hstop
  have hrunning := stop_call hscheduled
  have hschedule : s.call (.schedule (request randomize n)) = s.schedule (request randomize n) := by
    unfold Interrupt.call
    rw [if_neg (by simp [hrunning])]
  rw [hschedule] at hscheduled ⊢
  obtain ⟨hshort, hlong⟩ := timeOfNextInterrupt_mem randomize n
  rw [schedule_running hscheduled]
  unfold Interrupt.call
  rw [if_neg (by simp [hrunning])]
  dsimp only
  rw [if_pos hhandler]
  refine ⟨added s (request randomize n), hrunning, rfl, rfl, ?_, ?_, rfl, rfl, rfl⟩
  · exact add_le_add_right hshort _
  · exact add_le_add_right hlong _

/-- The timer interrupt is handled: the next one is on the list. -/
theorem Alive.timer (h : Alive randomize s) (hpending : s.pending = ⟨toOccur, when⟩ :: rest)
    (hhandler : toOccur.handler = none) :
    Alive randomize
      (returned (handlers randomize random devices) { s with pending := rest } toOccur) := by
  intro hstop
  rw [returned, hhandler] at hstop ⊢
  obtain ⟨item, hexpired⟩ := timerExpired_spec _ rfl (show MachineStatus.systemMode ≠ .idleMode by
    decide) hstop
  obtain ⟨⟨e, hone, htype, hticks⟩, hothers⟩ := h hexpired.running
  rw [hpending, filter_cons_of_pos (by simp [isTimer, hhandler])] at hone
  obtain ⟨rfl, hnone⟩ := cons.inj hone
  refine ⟨⟨⟨item, item.when⟩, ?_, hexpired.type, ?_⟩, fun e' he' hother => ?_⟩
  · refine (congrArg _ hexpired.pending).trans ?_
    exact filter_sortedInsert_timer hexpired.handler hnone
  · have hfired : ticks ((handlers randomize random devices none
        (Interrupt.entered { s with pending := rest } toOccur)).foldl Interrupt.call
        (Interrupt.entered { s with pending := rest } toOccur)) =
        ticks s ++ [(toOccur, s.totalTicks)] := by
      unfold ticks
      refine (congrArg _ hexpired.fired).trans ?_
      simp [Interrupt.entered, hhandler]
    rw [hfired]
    exact .handled hticks hexpired.short hexpired.long
  · have hmem : e' ∈ sortedInsert item item.when rest := (congrArg (e' ∈ ·) hexpired.pending).mp he'
    rcases mem_sortedInsert.mp hmem with rfl | hmem
    · simp [isTimer, hexpired.handler] at hother
    · exact hothers e' (hpending ▸ mem_cons_of_mem _ hmem) hother

theorem alive_kept (hdevices : LeavesTimer devices) :
    KeptBy (handlers randomize random devices) (Alive randomize) where
  abort s h := by
    intro hstop
    cases hstop
  putBack := by
    intro s toOccur when rest hpending h hstop
    obtain ⟨⟨e, hone, htype, hticks⟩, hothers⟩ := h hstop
    have hperm := sortedInsert_perm toOccur when rest
    refine ⟨⟨e, ?_, htype, hticks⟩, fun e' he' => hothers e' (hpending ▸ hperm.mem_iff.mp he')⟩
    have hfilter := hperm.filter isTimer
    rw [← hpending, hone] at hfilter
    exact perm_singleton.mp hfilter
  invoke := by
    intro s toOccur when rest hpending hdue h hstop
    obtain ⟨hsame, hfired, hstop', -⟩ := invoke_frame (handlers randomize random devices)
      { s with pending := rest } toOccur
    rw [hstop'] at hstop
    cases hhandler : toOccur.handler with
    | none => exact (h.timer hpending hhandler hstop).congr hsame hfired
    | some device => exact (h.device hdevices hpending hhandler hstop).congr hsame hfired

/-! ### Calls -/

/-- The kernel leaves the timer alone, too. -/
def ForeignLabel : Label (Option δ) → Prop
  | .schedule request => Foreign request
  | _ => True

theorem Alive.frame (h : Alive randomize s) (hpending : s'.pending = s.pending)
    (hfired : s'.fired = s.fired) (hstop : s'.stop = none → s.stop = none) : Alive randomize s' :=
  fun hrunning => (h (hstop hrunning)).congr hpending hfired

theorem advance_frame {α : Type} (s : Interrupt α) :
    s.advance.fired = s.fired ∧ (s.advance.stop = none → s.stop = none) := by
  rw [advance]
  split <;> split
  · refine ⟨rfl, ?_⟩
    intro hstop
    cases hstop
  · exact ⟨rfl, id⟩
  · refine ⟨rfl, ?_⟩
    intro hstop
    cases hstop
  · exact ⟨rfl, id⟩

theorem pending_afterTick {α : Type} (s : Interrupt α) : s.afterTick.pending = s.pending := by
  rw [afterTick]
  split
  · rfl
  · split <;> rfl

theorem Alive.oneTick (h : Alive randomize s) (hdevices : LeavesTimer devices) {fuel : ℕ}
    (hrun : s.oneTick (handlers randomize random devices) fuel = some s') :
    Alive randomize s' := by
  obtain ⟨s₁, hloop, rfl⟩ := Option.map_eq_some_iff.mp hrun
  obtain ⟨hfired, hstop⟩ := advance_frame s
  have hoff : Alive randomize { s.advance with level := .intOff } :=
    h.frame (pending_advance s) hfired hstop
  have hdone := (alive_kept hdevices).whileDue hoff hloop
  exact hdone.frame (pending_afterTick s₁) (fired_afterTick s₁) (stop_afterTick s₁ ▸ id)

theorem Alive.idle (h : Alive randomize s) (hdevices : LeavesTimer devices) {fuel : ℕ}
    (hrun : s.idle (handlers randomize random devices) fuel = some s') : Alive randomize s' := by
  have hkept : KeptBy (handlers randomize random devices) (Alive randomize) :=
    alive_kept hdevices
  have hidle : Alive randomize { s with status := .idleMode } := h.frame rfl rfl id
  have hcheck : Alive randomize ({ s with status := .idleMode }.checkIfDue
      (handlers randomize random devices) true).1 := by
    by_cases hlevel : s.level = .intOn
    · unfold checkIfDue
      rw [if_pos hlevel]
      intro hhalted
      cases hhalted
    · rw [checkIfDue_skip (show { s with status := .idleMode }.level ≠ .intOn from hlevel)]
      have hskip := skip_frame { s with status := .idleMode }
      exact hkept.checkIfDue (hidle.frame hskip.1 hskip.2.1 hskip.2.2)
  rw [Interrupt.idle] at hrun
  rcases hresult : { s with status := .idleMode }.checkIfDue (handlers randomize random devices)
    true with ⟨s₁, fired⟩
  rw [hresult] at hrun hcheck
  cases fired with
  | true =>
      obtain ⟨s₂, hloop, rfl⟩ := Option.map_eq_some_iff.mp hrun
      have hdone := hkept.whileDue hcheck hloop
      rw [afterIdle]
      split
      · exact hdone
      · exact hdone.frame rfl rfl id
  | false =>
      cases hrun
      split
      · exact hcheck
      · intro hhalted
        cases hhalted

theorem Alive.step (h : Alive randomize s) (hdevices : LeavesTimer devices)
    {label : Label (Option δ)} (hlabel : ForeignLabel label)
    (hstep : Interrupt.step (handlers randomize random devices) s label = some s') :
    Alive randomize s' := by
  unfold Interrupt.step at hstep
  split at hstep
  · cases hstep
  rename_i hrunning
  cases label with
  | schedule request =>
      cases hstep
      exact fun hstop => (h (by simpa using hrunning)).schedule hlabel hstop
  | setLevel now =>
      dsimp only at hstep
      rw [setLevel] at hstep
      split at hstep
      · cases hstep
        intro hhalted
        cases hhalted
      split at hstep
      · have hon : Alive randomize { s with level := now } := h.frame rfl rfl id
        exact hon.oneTick hdevices hstep
      · cases hstep
        exact h.frame rfl rfl id
  | oneTick => exact h.oneTick hdevices hstep
  | idle => exact h.idle hdevices hstep
  | setStatus status =>
      dsimp only at hstep
      split at hstep
      · cases hstep
      · cases hstep
        exact h.frame rfl rfl id

/-! ### When `Idle` halts -/

/-- No handler halts the machine. -/
theorem invoke_not_halted {α : Type} (handlers : α → Interrupt α → List (HandlerCall α))
    {s : Interrupt α} (h : s.stop ≠ some .halted) (toOccur : PendingInterrupt α) :
    (s.invoke handlers toOccur).stop ≠ some .halted := by
  rw [(invoke_frame handlers s toOccur).2.2.1, returned]
  have hentered : (s.entered toOccur).stop ≠ some .halted := h
  generalize s.entered toOccur = s₁ at hentered ⊢
  generalize handlers toOccur.handler s₁ = calls
  induction calls generalizing s₁ with
  | nil => exact hentered
  | cons c calls ih =>
      refine ih _ ?_
      unfold Interrupt.call
      split
      · exact hentered
      cases c with
      | schedule request =>
          dsimp only
          rw [Interrupt.schedule]
          dsimp only
          split
          · intro hhalted
            cases hhalted
          · split
            · intro hhalted
              cases hhalted
            · exact hentered
      | yieldOnReturn =>
          dsimp only
          split
          · exact hentered
          · intro hhalted
            cases hhalted

theorem notHalted_kept {α : Type} (handlers : α → Interrupt α → List (HandlerCall α)) :
    KeptBy handlers fun s => s.stop ≠ some .halted where
  abort s h := by
    intro hstop
    cases hstop
  putBack hpending h := h
  invoke := by
    intro s toOccur when rest hpending hdue h
    have hrunning : { s with pending := rest }.stop ≠ some .halted := h
    exact invoke_not_halted handlers hrunning toOccur

/-- `Idle` delivers the first interrupt, whenever it is. -/
theorem checkIfDue_cons {α : Type} {handlers : α → Interrupt α → List (HandlerCall α)}
    {s : Interrupt α} {first : ListElement (PendingInterrupt α)}
    {rest : List (ListElement (PendingInterrupt α))} (hlevel : s.level ≠ .intOn)
    (hpending : s.pending = first :: rest) :
    s.checkIfDue handlers true =
      { s.skip with pending := rest }.deliver handlers first.item first.key := by
  have hskip := skip_frame s
  have hlevel' : s.skip.level ≠ .intOn := by
    unfold skip
    split
    · exact hlevel
    · split <;> exact hlevel
  have hdue : ¬ s.skip.totalTicks < first.key := by
    unfold skip
    rw [hpending]
    dsimp only
    split
    · exact lt_irrefl _
    · assumption
  rw [checkIfDue_skip hlevel]
  unfold checkIfDue
  rw [if_neg hlevel', hskip.1, hpending]
  dsimp only
  rw [if_neg (by simp), if_neg hdue]

theorem all_timers_iff {first : ListElement (PendingInterrupt (Option δ))}
    {rest : List (ListElement (PendingInterrupt (Option δ)))} (h : Ticking randomize s)
    (hpending : s.pending = first :: rest) :
    (∀ e ∈ s.pending, isTimer e = true) ↔ first.item.type = .timerInt ∧ rest.isEmpty = true := by
  obtain ⟨⟨e, hone, htype, -⟩, hothers⟩ := h
  constructor
  · intro hall
    rw [filter_eq_self.mpr hall, hpending] at hone
    obtain ⟨rfl, rfl⟩ := cons.inj hone
    exact ⟨htype, rfl⟩
  · rintro ⟨hfirst, hrest⟩ e' he'
    rw [isEmpty_iff.mp hrest] at hpending
    rw [hpending] at he'
    obtain rfl := mem_singleton.mp he'
    by_contra hother
    exact hothers e' (hpending ▸ mem_cons_self) (by simpa using hother) hfirst

/-- `Idle` halts when the timer is all that is pending. -/
theorem idle_halts_iff (h : Ticking randomize s) (hstop : s.stop = none)
    (hlevel : s.level = .intOff) {fuel : ℕ}
    (hrun : s.idle (handlers randomize random devices) fuel = some s') :
    s'.stop = some .halted ↔ ∀ e ∈ s.pending, isTimer e = true := by
  cases hpending : s.pending with
  | nil =>
      obtain ⟨⟨e, hone, -, -⟩, -⟩ := h
      rw [hpending] at hone
      cases hone
  | cons first rest =>
      rw [← hpending, all_timers_iff h hpending]
      rw [Interrupt.idle] at hrun
      generalize hs₁ : { s with status := .idleMode } = s₁ at hrun
      have hpending₁ : s₁.pending = first :: rest := hs₁ ▸ hpending
      have hlevel₁ : s₁.level ≠ .intOn := by
        rw [← hs₁]
        simp [hlevel]
      have hidle : s₁.skip.status = .idleMode ∧ s₁.skip.stop = none := by
        rw [← hs₁]
        unfold skip
        split
        · exact ⟨rfl, hstop⟩
        · split <;> exact ⟨rfl, hstop⟩
      rw [checkIfDue_cons hlevel₁ hpending₁, deliver] at hrun
      by_cases hlast : first.item.type = .timerInt ∧ rest.isEmpty = true
      · rw [if_pos ⟨hidle.1, hlast⟩] at hrun
        cases hrun
        exact iff_of_true (by simp [hidle.2]) hlast
      · rw [if_neg (fun hdeliver => hlast hdeliver.2)] at hrun
        obtain ⟨s₂, hloop, rfl⟩ := Option.map_eq_some_iff.mp hrun
        refine iff_of_false ?_ hlast
        have hrunning : { s₁.skip with pending := rest }.stop ≠ some .halted := by
          simp [hidle.2]
        have hfirst := invoke_not_halted (handlers randomize random devices) hrunning first.item
        have hdone := (notHalted_kept _).whileDue hfirst hloop
        rw [afterIdle]
        split
        · exact hdone
        · exact hdone

/-! ### Preemption -/

/-- The flag is set when a timer interrupt was handled since there were `n`. -/
def Preempting (n : ℕ) (s : Interrupt (Option δ)) : Prop :=
  s.stop = none → n < (ticks s).length → s.yieldOnReturn = true

theorem yieldOnReturn_calls {α : Type} {s : Interrupt α} (h : s.yieldOnReturn = true)
    (calls : List (HandlerCall α)) : (calls.foldl Interrupt.call s).yieldOnReturn = true := by
  induction calls generalizing s with
  | nil => exact h
  | cons c calls ih =>
      refine ih ?_
      unfold Interrupt.call
      split
      · exact h
      cases c with
      | schedule request =>
          dsimp only
          rw [Interrupt.schedule]
          dsimp only
          split
          · exact h
          · split <;> exact h
      | yieldOnReturn =>
          dsimp only
          split
          · rfl
          · exact h

theorem fired_calls {α : Type} (s : Interrupt α) (calls : List (HandlerCall α)) :
    (calls.foldl Interrupt.call s).fired = s.fired := by
  induction calls generalizing s with
  | nil => rfl
  | cons c calls ih =>
      refine (ih _).trans ?_
      unfold Interrupt.call
      split
      · rfl
      cases c with
      | schedule request =>
          dsimp only
          rw [Interrupt.schedule]
          dsimp only
          split
          · rfl
          · split <;> rfl
      | yieldOnReturn =>
          dsimp only
          split <;> rfl

theorem preempting_kept (n : ℕ) :
    KeptBy (handlers randomize random devices) (Preempting (δ := δ) n) where
  abort s h := by
    intro hstop
    cases hstop
  putBack hpending h := h
  invoke := by
    intro s toOccur when rest hpending hdue h hstop hlt
    obtain ⟨-, hfired, hstop', hyield⟩ := invoke_frame (handlers randomize random devices)
      { s with pending := rest } toOccur
    rw [hstop'] at hstop
    rw [ticks, hfired, returned, fired_calls] at hlt
    rw [hyield]
    cases hhandler : toOccur.handler with
    | none =>
        rw [returned, hhandler] at hstop ⊢
        obtain ⟨item, hexpired⟩ := timerExpired_spec _ rfl
          (show MachineStatus.systemMode ≠ .idleMode by decide) hstop
        exact hexpired.yieldOnReturn
    | some device =>
        have hrunning : s.stop = none := by
          rw [returned] at hstop
          exact (stop_calls hstop :)
        have hsame : ticks (Interrupt.entered { s with pending := rest } toOccur) = ticks s := by
          simp [ticks, Interrupt.entered, hhandler]
        have hentered :
            (Interrupt.entered { s with pending := rest } toOccur).yieldOnReturn = true :=
          h hrunning (hsame ▸ hlt)
        exact yieldOnReturn_calls hentered _

/-! ### Whole runs -/

/-- The times at which the timer interrupts were handled. -/
def tickTimes (s : Interrupt (Option δ)) : List ℤ :=
  (ticks s).map (·.2)

/-- What the timer promises. -/
structure Regular (randomize : Bool) (random : Interrupt (Option δ) → ℕ)
    (devices : δ → Interrupt (Option δ) → List (HandlerCall (Option δ)))
    (s : Interrupt (Option δ)) : Prop where
  one : (s.pending.filter isTimer).length = 1
  apart : (0 :: tickTimes s).IsChain fun t t' =>
    t + shortest randomize ≤ t' ∧ t' ≤ t + longest randomize + systemTick
  recent : s.totalTicks ≤ (0 :: tickTimes s).getLast (by simp) + longest randomize
  -- a timer interrupt in `OneTick` makes the thread yield
  preempts : ∀ fuel s', { s.advance with level := .intOff }.whileDue
    (handlers randomize random devices) fuel = some s' → s'.stop = none →
    (ticks s).length < (ticks s').length → s'.yieldOnReturn = true
  halts : s.level = .intOff → ∀ fuel s', s.idle (handlers randomize random devices) fuel = some s' →
    (s'.stop = some .halted ↔ ∀ e ∈ s.pending, isTimer e = true)

/-- Lateness is added to the intervals. -/
theorem Ticks.isChain {firings : List (PendingInterrupt (Option δ) × ℤ)} {shortest longest next : ℤ}
    (h : Ticks shortest longest firings next)
    (hfired : ∀ p ∈ firings, p.1.when ≤ p.2 ∧ p.2 ≤ p.1.when + systemTick) :
    (0 :: firings.map (·.2)).IsChain (fun t t' => t + shortest ≤ t' ∧
        t' ≤ t + longest + systemTick) ∧
      (0 :: firings.map (·.2)).getLast (by simp) + shortest ≤ next ∧
      next ≤ (0 :: firings.map (·.2)).getLast (by simp) + longest := by
  induction h with
  | created hshort hlong => exact ⟨.singleton 0, by simpa using hshort, by simpa using hlong⟩
  | handled hbefore hshort hlong ih =>
      rename_i firings p next
      obtain ⟨hchain, hmin, hmax⟩ := ih fun p' hp' => hfired p' (mem_append_left _ hp')
      obtain ⟨hearly, hlate⟩ := hfired p (by simp)
      have hlast : (0 :: (firings ++ [p]).map (·.2)).getLast (by simp) = p.2 := by
        simp
      refine ⟨?_, hlast ▸ hshort, hlast ▸ hlong⟩
      rw [map_append, ← cons_append, isChain_append]
      refine ⟨hchain, .singleton p.2, fun t ht t' ht' => ?_⟩
      obtain rfl : p.2 = t' := by simpa using ht'
      rw [getLast?_eq_some_getLast (by simp)] at ht
      obtain rfl := Option.some.inj ht
      exact ⟨hmin.trans hearly, by omega⟩

theorem Alive.regular (h : Alive randomize s) (hontime : s.OnTime) (hstop : s.stop = none) :
    Regular randomize random devices s := by
  have hticking := h hstop
  obtain ⟨e, hone, htype, hticks⟩ := hticking.timer
  have hfired : ∀ p ∈ ticks s, p.1.when ≤ p.2 ∧ p.2 ≤ p.1.when + systemTick := fun p hp =>
    ⟨hontime.inv.sound.notEarly p (mem_filter.mp hp).1, hontime.fired p (mem_filter.mp hp).1⟩
  obtain ⟨hchain, hmin, hmax⟩ := hticks.isChain hfired
  have hmem : e ∈ s.pending := (mem_filter.mp (hone ▸ mem_singleton_self e)).1
  refine ⟨by rw [hone]; rfl, hchain, (hontime.pending hstop e hmem).trans hmax, ?_, ?_⟩
  · intro fuel s' hrun hstop' hlt
    have hstart : Preempting (ticks s).length { s.advance with level := .intOff } := by
      intro _ hlt
      have hsame : ticks { s.advance with level := .intOff } = ticks s := by
        unfold ticks
        dsimp only
        rw [(advance_frame s).1]
      exact absurd (hsame ▸ hlt) (lt_irrefl _)
    exact (preempting_kept _).whileDue hstart hrun hstop' hlt
  · intro hlevel fuel s' hrun
    exact idle_halts_iff hticking hstop hlevel hrun

theorem alive_create (randomize : Bool) (n : ℕ) :
    Alive randomize (create (δ := δ) randomize n) ∧ (create (δ := δ) randomize n).OnTime := by
  obtain ⟨hshort, hlong⟩ := timeOfNextInterrupt_mem randomize n
  have hstep : step (handlers randomize (fun _ => n) fun _ _ => [])
      (Interrupt.create (α := Option δ)) (.schedule (request randomize n)) =
      some (create randomize n) := rfl
  refine ⟨fun hstop => ?_, onTime_create.step hstep⟩
  rw [create, schedule_running hstop]
  refine ⟨⟨⟨added Interrupt.create (request randomize n), _⟩, rfl, rfl, .created ?_ ?_⟩,
    fun e he hother => ?_⟩
  · exact hshort.trans_eq (zero_add _).symm
  · exact (zero_add _).trans_le hlong
  · obtain rfl := mem_singleton.mp he
    cases hother

/-- However the other devices and the kernel use the interrupt queue, exactly one timer interrupt
is pending, the timer interrupts are handled at their intervals up to a `SystemTick`, each one in
`OneTick` makes the thread yield, and `Idle` halts when the timer is all that is pending. -/
theorem timer_interrupts (hdevices : LeavesTimer devices) (n : ℕ)
    {labels : List (Label (Option δ))} (hlabels : ∀ label ∈ labels, ForeignLabel label) :
    Runs.AllStates (step (handlers randomize random devices))
      (fun s => s.stop = none → Regular randomize random devices s)
      (create randomize n) labels := by
  have hall : Runs.AllStates (step (handlers randomize random devices))
      (fun s => Alive randomize s ∧ s.OnTime) (create randomize n) labels :=
    Runs.allStates_of_allSteps (fun s label s' hlabel hstep h =>
        ⟨h.1.step hdevices hlabel hstep, h.2.step hstep⟩) (alive_create randomize n)
      (Runs.allSteps_of_forall hlabels _)
  exact hall.mono fun s h hstop => h.1.regular h.2 hstop

/-- A disk that makes one request while the timer runs at fixed intervals. -/
theorem timer_interrupts_disk :
    Runs.AllStates (step (handlers false (fun _ => 0) fun (_ : Unit) _ => [.yieldOnReturn]))
      (fun s => s.stop = none →
        Regular false (fun _ => 0) (fun (_ : Unit) _ => [.yieldOnReturn]) s)
      (create false 0)
      [.schedule ⟨some (), 30, .diskInt⟩, .setLevel .intOn, .oneTick, .setLevel .intOff,
        .idle] := by
  refine timer_interrupts (fun device s request hrequest => ?_) 0 fun label hlabel => ?_
  · simp at hrequest
  · simp only [mem_cons, not_mem_nil, or_false] at hlabel
    rcases hlabel with rfl | rfl | rfl | rfl | rfl
    · exact ⟨by decide, by decide⟩
    · trivial
    · trivial
    · trivial
    · trivial

/-- The disk, then the timer at 100, and `Idle` halts when only the timer is left. -/
example : (Runs.exec (step (handlers false (fun _ => 0) fun (_ : Unit) _ => [])) (create false 0)
      [.schedule ⟨some (), 30, .diskInt⟩, .schedule ⟨some (), 95, .diskInt⟩, .idle,
        .schedule ⟨some (), 80, .diskInt⟩, .idle, .idle, .idle, .idle]).map (fun s =>
        (tickTimes s, s.totalTicks, s.stop)) = some ([100], 200, some .halted) := by
  decide +kernel

end Nachos.Timer
