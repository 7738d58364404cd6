import Nachos.Verification.Interrupt.Queue

/-! # No interrupt is late

Between two calls nothing is overdue, and an interrupt is handled at most one `SystemTick`
behind its time. -/

namespace Nachos.Interrupt

open List

variable {α : Type} {s s' : Interrupt α} {toOccur : PendingInterrupt α} {when : ℤ}
  {rest : List (ListElement (PendingInterrupt α))}
  (handlers : α → Interrupt α → List (HandlerCall α))

/-! ### Invariants of the loops -/

/-- What keeps an invariant along the loops: an interrupt that is put back, and one that is
handled. -/
structure KeptBy (P : Interrupt α → Prop) : Prop where
  abort : ∀ s, P s → P s.abort
  putBack : ∀ {s : Interrupt α} {toOccur when rest}, s.pending = ⟨toOccur, when⟩ :: rest → P s →
    P { s with pending := sortedInsert toOccur when rest }
  invoke : ∀ {s : Interrupt α} {toOccur when rest}, s.pending = ⟨toOccur, when⟩ :: rest →
    when ≤ s.totalTicks → P s → P ({ s with pending := rest }.invoke handlers toOccur)

variable {handlers} {P : Interrupt α → Prop}

theorem KeptBy.deliver (hkept : KeptBy handlers P) (hpending : s.pending = ⟨toOccur, when⟩ :: rest)
    (hdue : when ≤ s.totalTicks) (h : P s) :
    P ({ s with pending := rest }.deliver handlers toOccur when).1 := by
  rw [Interrupt.deliver]
  split
  · have hback := hkept.putBack hpending h
    exact hback
  · exact hkept.invoke hpending hdue h

theorem KeptBy.checkIfDue (hkept : KeptBy handlers P) (h : P s) :
    P (s.checkIfDue handlers false).1 := by
  unfold Interrupt.checkIfDue
  split
  · exact hkept.abort s h
  split
  · exact h
  rename_i toOccur when rest hpending
  rw [if_neg (by simp)]
  split
  · exact hkept.putBack hpending h
  · rename_i hnot
    exact hkept.deliver hpending (not_lt.mp hnot) h

theorem KeptBy.whileDue (hkept : KeptBy handlers P) {fuel : ℕ} (h : P s)
    (hrun : s.whileDue handlers fuel = some s') : P s' := by
  induction fuel generalizing s with
  | zero => cases hrun
  | succ fuel ih =>
      rw [Interrupt.whileDue] at hrun
      split at hrun
      · cases hrun
        exact h
      have hcheck := hkept.checkIfDue h
      rcases hresult : s.checkIfDue handlers false with ⟨s₁, fired⟩
      rw [hresult] at hrun hcheck
      cases fired with
      | false =>
          cases hrun
          exact hcheck
      | true => exact ih hcheck hrun

/-- `Idle` sets the clock first, unless the next interrupt is due. -/
def skip (s : Interrupt α) : Interrupt α :=
  match s.pending with
  | [] => s
  | ⟨_, when⟩ :: _ =>
      if s.totalTicks < when then
        { s with
          idleTicks := s.idleTicks + (when - s.totalTicks)
          totalTicks := when }
      else s

theorem checkIfDue_skip (hlevel : s.level ≠ .intOn) :
    s.checkIfDue handlers true = s.skip.checkIfDue handlers false := by
  cases hpending : s.pending with
  | nil =>
      have hskip : s.skip = s := by
        unfold skip
        rw [hpending]
      rw [hskip]
      unfold Interrupt.checkIfDue
      rw [hpending]
  | cons element rest =>
      by_cases hlt : s.totalTicks < element.key
      · have hskip : s.skip = { s with
            idleTicks := s.idleTicks + (element.key - s.totalTicks)
            totalTicks := element.key } := by
          unfold skip
          rw [hpending]
          exact if_pos hlt
        rw [hskip]
        unfold Interrupt.checkIfDue
        rw [if_neg hlevel, if_neg hlevel]
        dsimp only
        rw [hpending]
        dsimp only
        rw [if_pos ⟨rfl, hlt⟩, if_neg (by simp), if_neg (lt_irrefl _)]
      · have hskip : s.skip = s := by
          unfold skip
          rw [hpending]
          exact if_neg hlt
        rw [hskip]
        unfold Interrupt.checkIfDue
        rw [if_neg hlevel, if_neg hlevel, hpending]
        dsimp only
        rw [if_neg (fun h => hlt h.2), if_neg hlt, if_neg (by simp)]

/-! ### Lateness -/

/-- Nothing pending is overdue by more than `slack`, and nothing was handled more than a
`SystemTick` late. -/
structure Prompt (slack : ℤ) (s : Interrupt α) : Prop where
  pending : ∀ e ∈ s.pending, s.totalTicks ≤ e.item.when + slack
  fired : ∀ p ∈ s.fired, p.2 ≤ p.1.when + systemTick

variable {slack : ℤ}

theorem Prompt.schedule (h : s.Prompt slack) (hslack : 0 ≤ slack) (request : Request α) :
    (s.schedule request).Prompt slack := by
  rw [Interrupt.schedule]
  dsimp only
  split
  · exact ⟨h.pending, h.fired⟩
  split
  · exact ⟨h.pending, h.fired⟩
  rename_i hfromNow
  refine ⟨fun e he => ?_, h.fired⟩
  rcases mem_sortedInsert.mp he with rfl | he
  · dsimp only
    omega
  · exact h.pending e he

theorem Prompt.call (h : s.Prompt slack) (hslack : 0 ≤ slack) (c : HandlerCall α) :
    (s.call c).Prompt slack := by
  unfold Interrupt.call
  split
  · exact h
  cases c with
  | schedule request => exact h.schedule hslack request
  | yieldOnReturn =>
      dsimp only
      split <;> exact ⟨h.pending, h.fired⟩

theorem Prompt.calls (h : s.Prompt slack) (hslack : 0 ≤ slack) (calls : List (HandlerCall α)) :
    (calls.foldl Interrupt.call s).Prompt slack := by
  induction calls generalizing s with
  | nil => exact h
  | cons c calls ih => exact ih (h.call hslack c)

theorem Prompt.putBack (h : s.Prompt slack) (hpending : s.pending = ⟨toOccur, when⟩ :: rest) :
    Prompt slack { s with pending := sortedInsert toOccur when rest } := by
  refine ⟨fun e he => h.pending e ?_, h.fired⟩
  rw [hpending]
  exact (sortedInsert_perm toOccur when rest).mem_iff.mp he

/-- The time of handling is the time of the clock. -/
theorem Prompt.entered (h : s.Prompt slack) (hle : slack ≤ systemTick)
    (hpending : s.pending = ⟨toOccur, when⟩ :: rest) :
    Prompt slack (Interrupt.entered { s with pending := rest } toOccur) := by
  refine ⟨fun e he => h.pending e (hpending ▸ mem_cons_of_mem _ he), fun p hp => ?_⟩
  rcases mem_append.mp hp with hp | hp
  · exact h.fired p hp
  · obtain rfl := mem_singleton.mp hp
    have hlate := h.pending ⟨toOccur, when⟩ (hpending ▸ mem_cons_self)
    dsimp only at hlate ⊢
    omega

theorem prompt_kept (hslack : 0 ≤ slack) (hle : slack ≤ systemTick) :
    KeptBy handlers (Prompt (α := α) slack) where
  abort s h := ⟨h.pending, h.fired⟩
  putBack hpending h := h.putBack hpending
  invoke := by
    intro s toOccur when rest hpending hdue h
    have hcalls := (h.entered hle hpending).calls hslack
      (handlers toOccur.handler (Interrupt.entered { s with pending := rest } toOccur))
    rw [Interrupt.invoke]
    split
    · exact hcalls
    · exact ⟨hcalls.pending, hcalls.fired⟩

theorem Prompt.skip (h : s.Prompt 0) (hsound : s.Sound) : s.skip.Prompt 0 := by
  unfold Interrupt.skip
  cases hpending : s.pending with
  | nil => exact h
  | cons element rest =>
      dsimp only
      split
      · refine ⟨fun e he => ?_, h.fired⟩
        have hmem : e ∈ element :: rest := hpending ▸ he
        have hkey := hsound.keyed e (hpending ▸ hmem)
        have hfirst := (sorted_cons.mp (hpending ▸ hsound.sorted)).1
        dsimp only
        rcases mem_cons.mp hmem with rfl | hmem
        · omega
        · have hle := hfirst e hmem
          omega
      · exact h

theorem Prompt.advance (h : s.Prompt 0) : s.advance.Prompt systemTick := by
  have hslack : s.Prompt systemTick :=
    ⟨fun e he => (h.pending e he).trans (by simp [systemTick]), h.fired⟩
  rw [Interrupt.advance]
  split
  · split
    · exact ⟨hslack.pending, hslack.fired⟩
    · refine ⟨fun e he => ?_, h.fired⟩
      have hle := h.pending e he
      dsimp only
      omega
  · split
    · exact ⟨hslack.pending, hslack.fired⟩
    · refine ⟨fun e he => ?_, h.fired⟩
      have hle := h.pending e he
      dsimp only [userTick, systemTick]
      omega

/-! ### Calls -/

/-- What holds between two calls; a stopped machine keeps what it has handled. -/
structure OnTime (s : Interrupt α) : Prop where
  inv : s.Inv
  pending : s.stop = none → ∀ e ∈ s.pending, s.totalTicks ≤ e.item.when
  fired : ∀ p ∈ s.fired, p.2 ≤ p.1.when + systemTick

theorem OnTime.prompt (h : s.OnTime) (hstop : s.stop = none) : s.Prompt 0 :=
  ⟨fun e he => (h.pending hstop e he).trans_eq (add_zero _).symm, h.fired⟩

theorem onTime_create : (create : Interrupt α).OnTime :=
  ⟨inv_create, by simp [create], by simp [create]⟩

theorem fired_afterTick (s : Interrupt α) : s.afterTick.fired = s.fired := by
  rw [afterTick]
  split
  · rfl
  · split <;> rfl

theorem OnTime.oneTick (h : s.OnTime) (hstop : s.stop = none) {fuel : ℕ}
    (hrun : s.oneTick handlers fuel = some s') : s'.OnTime := by
  obtain ⟨hforward, hahead⟩ := forward_oneTick handlers h.inv hstop hrun
  refine ⟨hforward.inv, fun hstop' e he => (hahead hstop' e he).le, ?_⟩
  obtain ⟨s₁, hloop, rfl⟩ := Option.map_eq_some_iff.mp hrun
  have hadvanced := (h.prompt hstop).advance
  have hoff : Prompt systemTick { s.advance with level := .intOff } :=
    ⟨hadvanced.pending, hadvanced.fired⟩
  rw [fired_afterTick]
  exact ((prompt_kept (by decide) le_rfl).whileDue hoff hloop).fired

theorem OnTime.setLevel (h : s.OnTime) (hstop : s.stop = none) {fuel : ℕ} {now : IntStatus}
    (hrun : s.setLevel handlers fuel now = some s') : s'.OnTime := by
  have hinv := (forward_setLevel handlers h.inv hstop hrun).inv
  rw [Interrupt.setLevel] at hrun
  split at hrun
  · cases hrun
    refine ⟨hinv, ?_, h.fired⟩
    intro hrunning
    cases hrunning
  split at hrun
  · have hon : OnTime { s with level := now } :=
      ⟨⟨{ h.inv.sound with }, h.inv.status⟩, h.pending, h.fired⟩
    exact hon.oneTick hstop hrun
  · cases hrun
    exact ⟨hinv, h.pending, h.fired⟩

theorem OnTime.idle (h : s.OnTime) (hstop : s.stop = none) {fuel : ℕ}
    (hrun : s.idle handlers fuel = some s') : s'.OnTime := by
  have hinv := (forward_idle handlers h.inv hrun).inv
  have hprompt : Prompt 0 { s with status := .idleMode } :=
    ⟨(h.prompt hstop).pending, (h.prompt hstop).fired⟩
  have hsound : Sound { s with status := .idleMode } := { h.inv.sound with }
  have hkept : KeptBy handlers (Prompt 0) := prompt_kept le_rfl (by decide)
  have hcheck : Prompt 0 ({ s with status := .idleMode }.checkIfDue handlers true).1 := by
    by_cases hlevel : s.level = .intOn
    · unfold Interrupt.checkIfDue
      rw [if_pos hlevel]
      exact ⟨hprompt.pending, hprompt.fired⟩
    · rw [checkIfDue_skip (show { s with status := .idleMode }.level ≠ .intOn from hlevel)]
      exact hkept.checkIfDue (hprompt.skip hsound)
  suffices hfinal : s'.Prompt 0 from
    ⟨hinv, fun _ e he => (hfinal.pending e he).trans_eq (add_zero _), hfinal.fired⟩
  rw [Interrupt.idle] at hrun
  rcases hresult : { s with status := .idleMode }.checkIfDue handlers true with ⟨s₁, fired⟩
  rw [hresult] at hrun hcheck
  cases fired with
  | true =>
      obtain ⟨s₂, hloop, rfl⟩ := Option.map_eq_some_iff.mp hrun
      have hdone := hkept.whileDue hcheck hloop
      rw [afterIdle]
      split
      · exact hdone
      · exact ⟨hdone.pending, hdone.fired⟩
  | false =>
      cases hrun
      split
      · exact hcheck
      · exact ⟨hcheck.pending, hcheck.fired⟩

theorem OnTime.step (h : s.OnTime) {label : Label α} (hstep : step handlers s label = some s') :
    s'.OnTime := by
  have hinv := (forward_step handlers h.inv hstep).inv
  unfold Interrupt.step at hstep
  split at hstep
  · cases hstep
  rename_i hrunning
  have hstop : s.stop = none := by simpa using hrunning
  cases label with
  | schedule request =>
      cases hstep
      have hprompt := (h.prompt hstop).schedule le_rfl request
      exact ⟨hinv, fun _ e he => (hprompt.pending e he).trans_eq (add_zero _), hprompt.fired⟩
  | setLevel now => exact h.setLevel hstop hstep
  | oneTick => exact h.oneTick hstop hstep
  | idle => exact h.idle hstop hstep
  | setStatus status =>
      dsimp only at hstep
      split at hstep
      · cases hstep
      · cases hstep
        exact ⟨hinv, h.pending, h.fired⟩

/-- Whatever the handlers do, no interrupt is handled more than a `SystemTick` late, and
between two calls none is overdue. -/
theorem interrupts_on_time (labels : List (Label α)) :
    Runs.AllStates (step handlers) (fun s =>
      (s.stop = none → ∀ e ∈ s.pending, s.totalTicks ≤ e.item.when) ∧
        ∀ p ∈ s.fired, p.1.when ≤ p.2 ∧ p.2 ≤ p.1.when + systemTick) create labels := by
  have hall : Runs.AllStates (step handlers) OnTime create labels :=
    Runs.allStates_of_keep (fun s label s' hstep h => h.step hstep) labels onTime_create
  exact hall.mono fun s h => ⟨h.pending, fun p hp => ⟨h.inv.sound.notEarly p hp, h.fired p hp⟩⟩

end Nachos.Interrupt
