import Nachos.Library.Runs
import Nachos.Model.Interrupt
import Nachos.Verification.List.Sorted

/-! # The interrupt queue over whole runs

Nothing fires early, late or twice, whatever the handlers do. -/

namespace Nachos.Interrupt

open List

variable {α : Type} {s s' : Interrupt α} {toOccur : PendingInterrupt α} {when : ℤ}
  {rest : List (ListElement (PendingInterrupt α))}

/-! ### The invariant -/

/-- What holds before and behind every call, and inside the handlers. -/
structure Sound (s : Interrupt α) : Prop where
  keyed : ∀ e ∈ s.pending, e.key = e.item.when
  sorted : Sorted s.pending
  accounted : s.pending.map (·.item) ++ s.fired.map (·.1) ~ s.scheduled
  serials : s.scheduled.map (·.serial) = range s.scheduled.length
  notEarly : ∀ p ∈ s.fired, p.1.when ≤ p.2
  past : ∀ p ∈ s.fired, p.1.when ≤ s.totalTicks
  first : ∀ p ∈ s.fired, ∀ e ∈ s.pending, p.1.when ≤ e.key
  inOrder : s.fired.Pairwise fun p p' => p.1.when ≤ p'.1.when
  ticks : s.totalTicks = s.idleTicks + s.systemTicks + s.userTicks

theorem sound_create : (create : Interrupt α).Sound where
  keyed := by simp [create]
  sorted := Pairwise.nil
  accounted := Perm.nil
  serials := rfl
  notEarly := by simp [create]
  past := by simp [create]
  first := by simp [create]
  inOrder := Pairwise.nil
  ticks := rfl

theorem Sound.schedule (h : s.Sound) (request : Request α) : (s.schedule request).Sound := by
  rw [Interrupt.schedule]
  dsimp only
  split
  · exact { h with }
  split
  · exact { h with }
  rename_i hfromNow
  refine { h with keyed := ?_, sorted := h.sorted.sortedInsert, accounted := ?_, serials := ?_,
                  first := ?_ }
  · intro e he
    rcases mem_sortedInsert.mp he with rfl | he
    · rfl
    · exact h.keyed e he
  · have hnew := (sortedInsert_perm (⟨s.scheduled.length, request.handler,
      s.totalTicks + request.fromNow, request.type⟩ : PendingInterrupt α)
      (s.totalTicks + request.fromNow) s.pending).map (·.item)
    exact ((hnew.append_right _).trans (h.accounted.cons _)).trans (perm_append_singleton _ _).symm
  · simp [h.serials, range_succ]
  · intro p hp e he
    rcases mem_sortedInsert.mp he with rfl | he
    · have := h.past p hp
      dsimp only
      omega
    · exact h.first p hp e he

/-- The interrupt that was taken off is put back. -/
theorem Sound.putBack (h : Sound { s with pending := ⟨toOccur, when⟩ :: rest }) :
    Sound { s with pending := sortedInsert toOccur when rest } := by
  have hperm := sortedInsert_perm toOccur when rest
  exact { h with
    keyed := fun e he => h.keyed e (hperm.mem_iff.mp he)
    sorted := (sorted_cons.mp h.sorted).2.sortedInsert
    accounted := ((hperm.map (·.item)).append_right _).trans h.accounted
    first := fun p hp e he => h.first p hp e (hperm.mem_iff.mp he) }

/-- The interrupt that was taken off fires. -/
theorem Sound.fire (h : Sound { s with pending := ⟨toOccur, when⟩ :: rest })
    (hdue : when ≤ s.totalTicks) :
    Sound { s with pending := rest, fired := s.fired ++ [(toOccur, s.totalTicks)] } := by
  have hwhen : when = toOccur.when := h.keyed ⟨toOccur, when⟩ mem_cons_self
  obtain ⟨hfirst, hrest⟩ := sorted_cons.mp h.sorted
  have hfired : ∀ p ∈ s.fired, p.1.when ≤ when := fun p hp =>
    h.first p hp ⟨toOccur, when⟩ mem_cons_self
  refine { h with keyed := fun e he => h.keyed e (mem_cons_of_mem _ he), sorted := hrest,
                  accounted := ?_, notEarly := ?_, past := ?_, first := ?_, inOrder := ?_ }
  · have hlast : rest.map (·.item) ++ s.fired.map (·.1) ++ [toOccur] ~
        toOccur :: (rest.map (·.item) ++ s.fired.map (·.1)) := perm_append_singleton _ _
    refine Perm.trans ?_ h.accounted
    simpa using hlast
  · intro p hp
    rcases mem_append.mp hp with hp | hp
    · exact h.notEarly p hp
    · obtain rfl := mem_singleton.mp hp
      exact hwhen ▸ hdue
  · intro p hp
    rcases mem_append.mp hp with hp | hp
    · exact h.past p hp
    · obtain rfl := mem_singleton.mp hp
      exact hwhen ▸ hdue
  · intro p hp e he
    rcases mem_append.mp hp with hp | hp
    · exact h.first p hp e (mem_cons_of_mem _ he)
    · obtain rfl := mem_singleton.mp hp
      exact hwhen ▸ hfirst e he
  · refine pairwise_append.mpr ⟨h.inOrder, pairwise_singleton _ _, fun p hp p' hp' => ?_⟩
    obtain rfl := mem_singleton.mp hp'
    exact hwhen ▸ hfired p hp

/-- The clock goes forward. -/
theorem Sound.tick (h : s.Sound) {total idle system user : ℤ} (hle : s.totalTicks ≤ total)
    (hsum : total = idle + system + user) :
    Sound { s with totalTicks := total, idleTicks := idle, systemTicks := system,
                   userTicks := user } :=
  { h with past := fun p hp => (h.past p hp).trans hle, ticks := hsum }

/-! ### Handlers -/

/-- The number of interrupts that are due. -/
def due (s : Interrupt α) : ℕ :=
  s.pending.countP fun e => e.key ≤ s.totalTicks

/-- What the calls of a handler do. -/
structure Called (s s' : Interrupt α) : Prop where
  sound : s.Sound → s'.Sound
  level : s'.level = s.level
  totalTicks : s'.totalTicks = s.totalTicks
  due : s'.due = s.due
  stop : s'.stop = none → s.stop = none

theorem Called.refl (s : Interrupt α) : Called s s :=
  ⟨id, rfl, rfl, rfl, id⟩

theorem Called.trans {s₁ s₂ s₃ : Interrupt α} (h₁ : Called s₁ s₂) (h₂ : Called s₂ s₃) :
    Called s₁ s₃ where
  sound := h₂.sound ∘ h₁.sound
  level := h₂.level.trans h₁.level
  totalTicks := h₂.totalTicks.trans h₁.totalTicks
  due := h₂.due.trans h₁.due
  stop := h₁.stop ∘ h₂.stop

/-- What is scheduled is not due. -/
theorem due_schedule (s : Interrupt α) (request : Request α) :
    (s.schedule request).due = s.due := by
  rw [schedule]
  dsimp only
  split
  · rfl
  split
  · rfl
  rename_i hfromNow
  rw [due, (sortedInsert_perm _ _ _).countP_eq, countP_cons_of_neg]
  · rfl
  · simpa using hfromNow

theorem schedule_frame (s : Interrupt α) (request : Request α) :
    (s.schedule request).level = s.level ∧ (s.schedule request).status = s.status ∧
      (s.schedule request).totalTicks = s.totalTicks := by
  rw [schedule]
  dsimp only
  split
  · exact ⟨rfl, rfl, rfl⟩
  · split <;> exact ⟨rfl, rfl, rfl⟩

theorem called_schedule (s : Interrupt α) (request : Request α) (hstop : s.stop = none) :
    Called s (s.schedule request) where
  sound h := h.schedule request
  level := (schedule_frame s request).1
  totalTicks := (schedule_frame s request).2.2
  due := due_schedule s request
  stop _ := hstop

theorem called_call (s : Interrupt α) (c : HandlerCall α) : Called s (s.call c) := by
  unfold call
  split
  · exact Called.refl s
  rename_i hstop
  have hstop : s.stop = none := by simpa using hstop
  cases c with
  | schedule request => exact called_schedule s request hstop
  | yieldOnReturn =>
      dsimp only
      split <;> exact ⟨fun h => { h with }, rfl, rfl, rfl, fun _ => hstop⟩

/-- A handler makes one call after the other. -/
theorem called_foldl (calls : List (HandlerCall α)) (s : Interrupt α) :
    Called s (calls.foldl call s) := by
  induction calls generalizing s with
  | nil => exact Called.refl s
  | cons c calls ih => exact (called_call s c).trans (ih (s.call c))

variable (handlers : α → Interrupt α → List (HandlerCall α))

/-- The state in which the handler is entered. -/
def entered (s : Interrupt α) (toOccur : PendingInterrupt α) : Interrupt α :=
  { s with
    inHandler := true
    status := .systemMode
    fired := s.fired ++ [(toOccur, s.totalTicks)] }

theorem called_invoke (s : Interrupt α) (toOccur : PendingInterrupt α) :
    Called (s.entered toOccur) (s.invoke handlers toOccur) := by
  have hcalls := called_foldl (handlers toOccur.handler (s.entered toOccur)) (s.entered toOccur)
  rw [invoke]
  split
  · exact hcalls
  · exact hcalls.trans ⟨fun h => { h with }, rfl, rfl, rfl, id⟩

theorem status_invoke (s : Interrupt α) (toOccur : PendingInterrupt α)
    (hstop : (s.invoke handlers toOccur).stop = none) :
    (s.invoke handlers toOccur).status = s.status := by
  rw [invoke] at hstop ⊢
  split at hstop
  · rename_i hsome
    simp [hstop] at hsome
  · rename_i hnone
    rw [if_neg hnone]

/-! ### CheckIfDue -/

/-- What a part of `OneTick` or `Idle` keeps. -/
structure Keeps (s s' : Interrupt α) : Prop where
  sound : s.Sound → s'.Sound
  level : s'.level = s.level
  totalTicks : s.totalTicks ≤ s'.totalTicks
  stop : s'.stop = none → s.stop = none
  status : s'.stop = none → s'.status = s.status

theorem Keeps.trans {s₁ s₂ s₃ : Interrupt α} (h₁ : Keeps s₁ s₂) (h₂ : Keeps s₂ s₃) :
    Keeps s₁ s₃ where
  sound := h₂.sound ∘ h₁.sound
  level := h₂.level.trans h₁.level
  totalTicks := h₁.totalTicks.trans h₂.totalTicks
  stop := h₁.stop ∘ h₂.stop
  status hstop := (h₂.status hstop).trans (h₁.status (h₂.stop hstop))

theorem keeps_refl (s : Interrupt α) : Keeps s s :=
  ⟨id, rfl, le_rfl, id, fun _ => rfl⟩

theorem keeps_schedule (s : Interrupt α) (request : Request α) (hstop : s.stop = none) :
    Keeps s (s.schedule request) := by
  obtain ⟨hlevel, hstatus, hticks⟩ := schedule_frame s request
  exact ⟨fun h => h.schedule request, hlevel, hticks.ge, fun _ => hstop, fun _ => hstatus⟩

theorem Sound.cons (h : s.Sound) (hpending : s.pending = ⟨toOccur, when⟩ :: rest) :
    Sound { s with pending := ⟨toOccur, when⟩ :: rest } :=
  hpending ▸ { h with }

theorem keeps_deliver (hpending : s.pending = ⟨toOccur, when⟩ :: rest)
    (hdue : when ≤ s.totalTicks) :
    Keeps s ({ s with pending := rest }.deliver handlers toOccur when).1 := by
  rw [deliver]
  split
  · exact ⟨fun h => (h.cons hpending).putBack, rfl, le_rfl, id, fun _ => rfl⟩
  · have hcalled := called_invoke handlers { s with pending := rest } toOccur
    have hfired : s.Sound → Sound (entered { s with pending := rest } toOccur) := fun h =>
      { (h.cons hpending).fire hdue with }
    exact ⟨hcalled.sound ∘ hfired, hcalled.level, hcalled.totalTicks.ge, hcalled.stop,
      status_invoke handlers _ toOccur⟩

/-- `Idle` moves the clock to the next interrupt. -/
theorem keeps_advance (hlt : s.totalTicks < when) :
    Keeps s { s with
      idleTicks := s.idleTicks + (when - s.totalTicks)
      totalTicks := when } where
  sound h := h.tick hlt.le (by have := h.ticks; omega)
  level := rfl
  totalTicks := hlt.le
  stop := id
  status _ := rfl

theorem keeps_checkIfDue (advanceClock : Bool) (s : Interrupt α) :
    Keeps s (s.checkIfDue handlers advanceClock).1 := by
  unfold checkIfDue
  split
  · exact ⟨fun h => { h with }, rfl, le_rfl, nofun, nofun⟩
  split
  · exact keeps_refl s
  rename_i toOccur when rest hpending
  split
  · rename_i hadvance
    exact (keeps_advance hadvance.2).trans (keeps_deliver handlers hpending le_rfl)
  split
  · exact ⟨fun h => (h.cons hpending).putBack, rfl, le_rfl, id, fun _ => rfl⟩
  · rename_i hnot
    exact keeps_deliver handlers hpending (not_lt.mp hnot)

/-! ### The loops end -/

theorem due_deliver (hpending : s.pending = ⟨toOccur, when⟩ :: rest) (hdue : when ≤ s.totalTicks)
    (hfired : ({ s with pending := rest }.deliver handlers toOccur when).2 = true) :
    ({ s with pending := rest }.deliver handlers toOccur when).1.due < s.due := by
  rw [deliver] at hfired ⊢
  split at hfired
  · cases hfired
  · rename_i hdeliver
    have hcount : s.due = due { s with pending := rest } + 1 := by
      rw [due, hpending, countP_cons_of_pos (by simpa using hdue)]
      rfl
    rw [if_neg hdeliver, (called_invoke handlers _ toOccur).due, hcount]
    exact Nat.lt_succ_self _

/-- Every round of a loop handles an interrupt that was due. -/
theorem due_checkIfDue (hfired : (s.checkIfDue handlers false).2 = true) :
    (s.checkIfDue handlers false).1.due < s.due := by
  unfold checkIfDue at hfired ⊢
  split at hfired
  · cases hfired
  rename_i hlevel
  rw [if_neg hlevel]
  cases hpending : s.pending with
  | nil => simp [hpending] at hfired
  | cons element rest =>
      simp only [hpending, Bool.false_eq_true, false_and, if_false] at hfired ⊢
      split at hfired
      · cases hfired
      · rename_i hnot
        rw [if_neg hnot]
        exact due_deliver handlers hpending (not_lt.mp hnot) hfired

/-- `Idle` handles an interrupt first, so that it leaves fewer than were pending. -/
theorem due_checkIfDue_advance (hfired : (s.checkIfDue handlers true).2 = true) :
    (s.checkIfDue handlers true).1.due < s.pending.length := by
  unfold checkIfDue at hfired ⊢
  split at hfired
  · cases hfired
  rename_i hlevel
  rw [if_neg hlevel]
  cases hpending : s.pending with
  | nil => simp [hpending] at hfired
  | cons element rest =>
      simp only [hpending, true_and] at hfired ⊢
      split at hfired
      · rename_i hlt
        rw [if_pos hlt]
        refine (due_deliver handlers (s := { s with
          idleTicks := s.idleTicks + (element.key - s.totalTicks)
          totalTicks := element.key }) hpending le_rfl hfired).trans_le ?_
        exact hpending ▸ countP_le_length
      · rename_i hnot
        rw [if_neg hnot, if_neg hnot]
        refine (due_deliver handlers hpending (not_lt.mp hnot) hfired).trans_le ?_
        exact hpending ▸ countP_le_length

/-- The loop ends when no interrupt is due any more, or before. -/
theorem whileDue_ends (s : Interrupt α) :
    ∃ s', ∀ fuel, s.due < fuel → s.whileDue handlers fuel = some s' := by
  induction hn : s.due using Nat.strong_induction_on generalizing s with
  | _ n ih =>
      by_cases hstop : s.stop.isSome
      · refine ⟨s, fun fuel hfuel => ?_⟩
        obtain ⟨fuel, rfl⟩ := Nat.exists_eq_succ_of_ne_zero (Nat.ne_zero_of_lt hfuel)
        rw [whileDue, if_pos hstop]
      · rcases hcheck : s.checkIfDue handlers false with ⟨s₁, fired⟩
        cases fired with
        | false =>
            refine ⟨s₁, fun fuel hfuel => ?_⟩
            obtain ⟨fuel, rfl⟩ := Nat.exists_eq_succ_of_ne_zero (Nat.ne_zero_of_lt hfuel)
            rw [whileDue, if_neg hstop, hcheck]
        | true =>
            have hlt : s₁.due < n := by
              have := due_checkIfDue handlers (s := s) (by rw [hcheck])
              rwa [hcheck, hn] at this
            obtain ⟨s', hs'⟩ := ih s₁.due hlt s₁ rfl
            refine ⟨s', fun fuel hfuel => ?_⟩
            obtain ⟨fuel, rfl⟩ := Nat.exists_eq_succ_of_ne_zero (Nat.ne_zero_of_lt hfuel)
            rw [whileDue, if_neg hstop, hcheck]
            exact hs' fuel (hlt.trans_le (Nat.lt_succ_iff.mp hfuel))

theorem keeps_whileDue {fuel : ℕ} (hrun : s.whileDue handlers fuel = some s') : Keeps s s' := by
  induction fuel generalizing s with
  | zero => cases hrun
  | succ fuel ih =>
      rw [whileDue] at hrun
      split at hrun
      · cases hrun
        exact keeps_refl _
      have hkeeps := keeps_checkIfDue handlers false s
      rcases hcheck : s.checkIfDue handlers false with ⟨s₁, fired⟩
      rw [hcheck] at hrun hkeeps
      cases fired with
      | false =>
          cases hrun
          exact hkeeps
      | true => exact hkeeps.trans (ih hrun)

/-- No pending interrupt is due. -/
def Ahead (s : Interrupt α) : Prop :=
  ∀ e ∈ s.pending, s.totalTicks < e.item.when

/-- Outside `Idle` a test that fires nothing leaves nothing due. -/
theorem ahead_checkIfDue (hsound : s.Sound) (hlevel : s.level = .intOff)
    (hstatus : s.status ≠ .idleMode) (hcheck : s.checkIfDue handlers false = (s', false)) :
    s'.Ahead := by
  have hsound' : s'.Sound := by
    have := (keeps_checkIfDue handlers false s).sound hsound
    rwa [hcheck] at this
  suffices h : ∀ e ∈ s'.pending, s'.totalTicks < e.key from fun e he =>
    hsound'.keyed e he ▸ h e he
  unfold checkIfDue at hcheck
  rw [if_neg (by simp [hlevel])] at hcheck
  cases hpending : s.pending with
  | nil =>
      simp only [hpending] at hcheck
      cases hcheck
      simp [hpending]
  | cons element rest =>
      simp only [hpending, Bool.false_eq_true, false_and, if_false] at hcheck
      split at hcheck
      · rename_i hlt
        cases hcheck
        have hfirst := (sorted_cons.mp (hpending ▸ hsound.sorted)).1
        intro e he
        rcases mem_sortedInsert.mp he with rfl | he
        · exact hlt
        · exact hlt.trans_le (hfirst e he)
      · rw [deliver, if_neg (fun h => hstatus h.1)] at hcheck
        cases hcheck

theorem ahead_whileDue {fuel : ℕ} (hsound : s.Sound) (hlevel : s.level = .intOff)
    (hstatus : s.stop = none → s.status ≠ .idleMode)
    (hrun : s.whileDue handlers fuel = some s') (hstop : s'.stop = none) : s'.Ahead := by
  induction fuel generalizing s with
  | zero => cases hrun
  | succ fuel ih =>
      have hnone : s.stop = none := (keeps_whileDue handlers hrun).stop hstop
      rw [whileDue, if_neg (by simp [hnone])] at hrun
      have hkeeps := keeps_checkIfDue handlers false s
      rcases hcheck : s.checkIfDue handlers false with ⟨s₁, fired⟩
      rw [hcheck] at hrun hkeeps
      cases fired with
      | false =>
          cases hrun
          exact ahead_checkIfDue handlers hsound hlevel (hstatus hnone) hcheck
      | true =>
          refine ih (hkeeps.sound hsound) (hkeeps.level.trans hlevel) (fun hnone₁ => ?_) hrun
          exact (hkeeps.status hnone₁).symm ▸ hstatus hnone

/-! ### Calls -/

/-- What holds between two calls. -/
structure Inv (s : Interrupt α) : Prop where
  sound : s.Sound
  status : s.stop = none → s.status ≠ .idleMode

theorem inv_create : (create : Interrupt α).Inv :=
  ⟨sound_create, nofun⟩

/-- What a call keeps. -/
structure Forward (s s' : Interrupt α) : Prop where
  inv : s'.Inv
  totalTicks : s.totalTicks ≤ s'.totalTicks

theorem Keeps.forward (h : Keeps s s') (hinv : s.Inv) : Forward s s' where
  inv := ⟨h.sound hinv.sound, fun hstop => h.status hstop ▸ hinv.status (h.stop hstop)⟩
  totalTicks := h.totalTicks

theorem pending_advance (s : Interrupt α) : s.advance.pending = s.pending := by
  rw [advance]
  split <;> split <;> rfl

theorem keeps_tick (s : Interrupt α) (hstop : s.stop = none) :
    Keeps { s with level := .intOff } { s.advance with level := .intOff } := by
  rw [advance]
  split
  · split
    · exact ⟨fun h => { h with }, rfl, le_rfl, nofun, nofun⟩
    · refine ⟨fun h => ?_, rfl, ?_, fun _ => hstop, fun _ => rfl⟩
      · exact h.tick (by simp [systemTick]) (by have := h.ticks; dsimp only at this ⊢; omega)
      · simp [systemTick]
  · split
    · exact ⟨fun h => { h with }, rfl, le_rfl, nofun, nofun⟩
    · refine ⟨fun h => ?_, rfl, ?_, fun _ => hstop, fun _ => rfl⟩
      · exact h.tick (by simp [userTick]) (by have := h.ticks; dsimp only at this ⊢; omega)
      · simp [userTick]

theorem forward_afterTick (h : s.Inv) : Forward s s.afterTick := by
  rw [afterTick]
  split
  · exact ⟨h, le_rfl⟩
  split
  · exact ⟨⟨{ h.sound with }, nofun⟩, le_rfl⟩
  · exact ⟨⟨{ h.sound with }, h.status⟩, le_rfl⟩

theorem ahead_afterTick (h : s.Ahead) : s.afterTick.Ahead := by
  rw [afterTick]
  split
  · exact h
  · split <;> exact h

theorem stop_afterTick (s : Interrupt α) : s.afterTick.stop = s.stop := by
  rw [afterTick]
  split
  · rfl
  · split <;> rfl

theorem forward_oneTick {fuel : ℕ} (hinv : s.Inv) (hstop : s.stop = none)
    (hrun : s.oneTick handlers fuel = some s') : Forward s s' ∧ (s'.stop = none → s'.Ahead) := by
  obtain ⟨s₁, hloop, rfl⟩ := Option.map_eq_some_iff.mp hrun
  have hoff : Inv { s with level := .intOff } := ⟨{ hinv.sound with }, hinv.status⟩
  have htick := (keeps_tick s hstop).forward hoff
  have hforward := (keeps_whileDue handlers hloop).forward htick.inv
  have hafter := forward_afterTick hforward.inv
  refine ⟨⟨hafter.inv, ?_⟩, fun hnone => ahead_afterTick ?_⟩
  · exact (htick.totalTicks.trans hforward.totalTicks).trans hafter.totalTicks
  · rw [stop_afterTick] at hnone
    exact ahead_whileDue handlers htick.inv.sound rfl htick.inv.status hloop hnone

theorem oneTick_ends (s : Interrupt α) :
    ∃ s', ∀ fuel, s.pending.length < fuel → s.oneTick handlers fuel = some s' := by
  obtain ⟨s', hs'⟩ := whileDue_ends handlers { s.advance with level := .intOff }
  refine ⟨s'.afterTick, fun fuel hfuel => ?_⟩
  have hdue : due { s.advance with level := .intOff } ≤ s.pending.length :=
    pending_advance s ▸ countP_le_length
  rw [oneTick, hs' fuel (hdue.trans_lt hfuel)]
  rfl

theorem forward_setLevel {fuel : ℕ} {now : IntStatus} (hinv : s.Inv) (hstop : s.stop = none)
    (hrun : s.setLevel handlers fuel now = some s') : Forward s s' := by
  rw [setLevel] at hrun
  split at hrun
  · cases hrun
    exact ⟨⟨{ hinv.sound with }, nofun⟩, le_rfl⟩
  split at hrun
  · have hon : Inv { s with level := now } := ⟨{ hinv.sound with }, hinv.status⟩
    obtain ⟨hforward, -⟩ := forward_oneTick handlers hon hstop hrun
    exact ⟨hforward.inv, hforward.totalTicks⟩
  · cases hrun
    exact ⟨⟨{ hinv.sound with }, hinv.status⟩, le_rfl⟩

theorem forward_idle {fuel : ℕ} (hinv : s.Inv) (hrun : s.idle handlers fuel = some s') :
    Forward s s' := by
  have hkeeps := keeps_checkIfDue handlers true { s with status := .idleMode }
  have hidle : Sound { s with status := .idleMode } := { hinv.sound with }
  rw [idle] at hrun
  rcases hcheck : { s with status := .idleMode }.checkIfDue handlers true with ⟨s₁, fired⟩
  rw [hcheck] at hrun hkeeps
  cases fired with
  | true =>
      obtain ⟨s₂, hloop, rfl⟩ := Option.map_eq_some_iff.mp hrun
      have hall := hkeeps.trans (keeps_whileDue handlers hloop)
      rw [afterIdle]
      split
      · rename_i hsome
        exact ⟨⟨hall.sound hidle, fun hnone => by simp [hnone] at hsome⟩, hall.totalTicks⟩
      · exact ⟨⟨{ hall.sound hidle with }, nofun⟩, hall.totalTicks⟩
  | false =>
      cases hrun
      split
      · rename_i hsome
        exact ⟨⟨hkeeps.sound hidle, fun hnone => by simp [hnone] at hsome⟩, hkeeps.totalTicks⟩
      · exact ⟨⟨{ hkeeps.sound hidle with }, nofun⟩, hkeeps.totalTicks⟩

theorem idle_ends (s : Interrupt α) :
    ∃ s', ∀ fuel, s.pending.length < fuel → s.idle handlers fuel = some s' := by
  have hdue := due_checkIfDue_advance handlers (s := { s with status := .idleMode })
  rcases hcheck : { s with status := .idleMode }.checkIfDue handlers true with ⟨s₁, fired⟩
  rw [hcheck] at hdue
  cases fired with
  | true =>
      obtain ⟨s', hs'⟩ := whileDue_ends handlers s₁
      refine ⟨s'.afterIdle, fun fuel hfuel => ?_⟩
      rw [idle, hcheck]
      dsimp only
      rw [hs' fuel ((hdue rfl).trans hfuel)]
      rfl
  | false =>
      refine ⟨if s₁.stop.isSome then s₁ else { s₁ with stop := some .halted }, fun fuel _ => ?_⟩
      rw [idle, hcheck]

theorem forward_step {label : Label α} (hinv : s.Inv) (hstep : step handlers s label = some s') :
    Forward s s' := by
  unfold step at hstep
  split at hstep
  · cases hstep
  rename_i hrunning
  have hstop : s.stop = none := by simpa using hrunning
  cases label with
  | schedule request =>
      cases hstep
      exact (keeps_schedule s request hstop).forward hinv
  | setLevel now => exact forward_setLevel handlers hinv hstop hstep
  | oneTick => exact (forward_oneTick handlers hinv hstop hstep).1
  | idle => exact forward_idle handlers hinv hstep
  | setStatus status =>
      dsimp only at hstep
      split at hstep
      · cases hstep
      · rename_i hstatus
        cases hstep
        exact ⟨⟨{ hinv.sound with }, fun _ => hstatus⟩, le_rfl⟩

/-! ### Whole runs -/

/-- What the queue and the clock promise. -/
structure InOrder (s : Interrupt α) : Prop where
  sorted : s.pending.Pairwise fun e e' => e.item.when ≤ e'.item.when
  -- every interrupt is an object of its own, and it is pending or has fired, not both
  distinct : (s.scheduled.map (·.serial)).Nodup
  once : s.pending.map (·.item) ++ s.fired.map (·.1) ~ s.scheduled
  notEarly : ∀ p ∈ s.fired, p.1.when ≤ p.2
  firings : s.fired.Pairwise fun p p' => p.1.when ≤ p'.1.when
  ticks : s.totalTicks = s.idleTicks + s.systemTicks + s.userTicks

theorem Sound.toInOrder (h : s.Sound) : s.InOrder where
  sorted := h.sorted.imp_of_mem fun he he' hle => h.keyed _ he ▸ h.keyed _ he' ▸ hle
  distinct := h.serials ▸ nodup_range
  once := h.accounted
  notEarly := h.notEarly
  firings := h.inOrder
  ticks := h.ticks

/-- The loops of a call end, and behind `OneTick` every pending interrupt is in the future.
The call may also end the machine: a handler that overflows an `int` or fails an ASSERT. -/
structure Ends (s : Interrupt α) : Prop where
  oneTick : ∃ s', (∀ fuel, s.pending.length < fuel → s.oneTick handlers fuel = some s') ∧
    (s'.stop = none → ∀ e ∈ s'.pending, s'.totalTicks < e.item.when)
  idle : ∃ s', ∀ fuel, s.pending.length < fuel → s.idle handlers fuel = some s'

theorem Inv.ends (h : s.Inv) (hstop : s.stop = none) : s.Ends handlers := by
  obtain ⟨s', hs'⟩ := oneTick_ends handlers s
  have hahead := (forward_oneTick handlers h hstop (hs' _ (Nat.lt_succ_self _))).2
  exact ⟨⟨s', hs', hahead⟩, idle_ends handlers s⟩

/-- Whatever the handlers do, along every run of calls the queue keeps its order, every
interrupt fires at most once and not before its time, the loops end, and the clock only goes
forward. -/
theorem interrupts_in_order (labels : List (Label α)) :
    Runs.AllStates (step handlers) (fun s => s.InOrder ∧ (s.stop = none → s.Ends handlers))
      create labels ∧
    Runs.AllSteps (step handlers) (fun s label => ∀ s', step handlers s label = some s' →
      s.totalTicks ≤ s'.totalTicks) create labels := by
  have hall : Runs.AllStates (step handlers) Inv create labels :=
    Runs.allStates_of_keep (fun s label s' hstep hinv => (forward_step handlers hinv hstep).inv)
      labels inv_create
  constructor
  · exact hall.mono fun s hinv => ⟨hinv.sound.toInOrder, hinv.ends handlers⟩
  · exact hall.allSteps fun s label hinv s' hstep => (forward_step handlers hinv hstep).totalTicks

/-- A timer that re-schedules itself: not due at the first tick, then `Idle` finds a disk
interrupt behind it, and handles both. -/
example : (Runs.exec (step fun handler _ =>
      if handler = 0 then [.schedule ⟨0, 100, .timerInt⟩] else [.yieldOnReturn]) create
      [.schedule ⟨0, 25, .timerInt⟩, .schedule ⟨1, 30, .diskInt⟩, .setLevel .intOn,
        .setLevel .intOff, .idle, .idle]).map (fun s =>
        (s.fired.map fun p => (p.1.serial, p.2), s.pending.map (·.key), s.totalTicks)) =
    some ([(0, 25), (1, 30)], [125], 30) := by decide +kernel

end Nachos.Interrupt
