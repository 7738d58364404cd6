import Mathlib.Tactic

/-! # Runs of a partial step function

A run from `s` is a list of labels. It is followed up to the first label that is not
enabled, so every list of labels is a run. -/

namespace Runs

variable {σ ι : Type*} (step : σ → ι → Option σ)

/-- The property holds in every state reached along the run, the first included. -/
def AllStates (P : σ → Prop) : σ → List ι → Prop
  | s, [] => P s
  | s, i :: labels => P s ∧ ∀ s', step s i = some s' → AllStates P s' labels

/-- Every step taken along the run starts in a state, and has a label, that the guard
admits. -/
def AllSteps (guard : σ → ι → Prop) : σ → List ι → Prop
  | _, [] => True
  | s, i :: labels => ∀ s', step s i = some s' → guard s i ∧ AllSteps guard s' labels

/-- Every label that is tried along the run is admitted, enabled or not. -/
def AllTried (guard : σ → ι → Prop) : σ → List ι → Prop
  | _, [] => True
  | s, i :: labels => guard s i ∧ ∀ s', step s i = some s' → AllTried guard s' labels

/-- The state at the end of a run whose labels are all enabled. -/
def exec : σ → List ι → Option σ
  | s, [] => some s
  | s, i :: labels => (step s i).bind fun s' => exec s' labels

variable {step}

theorem AllStates.mono {P Q : σ → Prop} (h : ∀ s, P s → Q s) :
    ∀ {s : σ} {labels : List ι}, AllStates step P s labels → AllStates step Q s labels := by
  intro s labels
  induction labels generalizing s with
  | nil => exact h s
  | cons i labels ih =>
      rintro ⟨hs, hrest⟩
      exact ⟨h s hs, fun s' hstep => ih (hrest s' hstep)⟩

theorem AllStates.head {P : σ → Prop} {s : σ} {labels : List ι}
    (h : AllStates step P s labels) : P s := by
  cases labels with
  | nil => exact h
  | cons i labels => exact h.1

/-- A run of concrete steps can be checked against a decidable guard. -/
instance AllSteps.decidable {guard : σ → ι → Prop} [∀ s i, Decidable (guard s i)] :
    ∀ (s : σ) (labels : List ι), Decidable (AllSteps step guard s labels)
  | _, [] => .isTrue trivial
  | s, i :: labels =>
      match h : step s i with
      | none => .isTrue fun _ hs => by cases h.symm.trans hs
      | some s' =>
          have : Decidable (AllSteps step guard s' labels) := AllSteps.decidable s' labels
          decidable_of_iff (guard s i ∧ AllSteps step guard s' labels) <| by
            constructor
            · intro hall s'' hs
              cases h.symm.trans hs
              exact hall
            · intro hall
              exact hall s' h

theorem AllSteps.cons {guard : σ → ι → Prop} {s s₁ : σ} {i : ι} {labels : List ι}
    (hstep : step s i = some s₁) (hguard : guard s i) (hrest : AllSteps step guard s₁ labels) :
    AllSteps step guard s (i :: labels) := by
  intro s' hs'
  cases hstep.symm.trans hs'
  exact ⟨hguard, hrest⟩

theorem AllSteps.mono {g g' : σ → ι → Prop} (h : ∀ s i, g s i → g' s i) {s : σ}
    {labels : List ι} (hsteps : AllSteps step g s labels) : AllSteps step g' s labels := by
  induction labels generalizing s with
  | nil => trivial
  | cons i labels ih =>
      intro s' hstep
      obtain ⟨hg, hrest⟩ := hsteps s' hstep
      exact ⟨h s i hg, ih hrest⟩

/-- A guard on the labels alone. -/
theorem allSteps_of_forall {allowed : ι → Prop} {labels : List ι}
    (h : ∀ i ∈ labels, allowed i) (s : σ) : AllSteps step (fun _ i => allowed i) s labels := by
  induction labels generalizing s with
  | nil => trivial
  | cons i labels ih =>
      intro s' _
      exact ⟨h i List.mem_cons_self, ih (fun j hj => h j (List.mem_cons_of_mem i hj)) s'⟩

/-- Two guards that agree in the states of an invariant, which the labels they admit keep. -/
theorem allTried_iff {Inv : σ → Prop} {g₀ g g' : σ → ι → Prop}
    (hiff : ∀ s i, Inv s → g₀ s i → (g s i ↔ g' s i))
    (hkeep : ∀ s i s', Inv s → g₀ s i → g' s i → step s i = some s' → Inv s')
    {s : σ} {labels : List ι} (hs : Inv s) (hall : AllTried step g₀ s labels) :
    AllTried step g s labels ↔ AllTried step g' s labels := by
  induction labels generalizing s with
  | nil => exact Iff.rfl
  | cons i labels ih =>
      have hhead := hiff s i hs hall.1
      constructor
      · rintro ⟨hg, hrest⟩
        have hg' := hhead.mp hg
        refine ⟨hg', fun s' hstep => ?_⟩
        exact (ih (hkeep s i s' hs hall.1 hg' hstep) (hall.2 s' hstep)).mp (hrest s' hstep)
      · rintro ⟨hg', hrest⟩
        refine ⟨hhead.mpr hg', fun s' hstep => ?_⟩
        exact (ih (hkeep s i s' hs hall.1 hg' hstep) (hall.2 s' hstep)).mpr (hrest s' hstep)

theorem exec_cons {s s₁ : σ} {i : ι} {labels : List ι} (hstep : step s i = some s₁) :
    exec step s (i :: labels) = exec step s₁ labels := by
  rw [exec, hstep, Option.bind_some]

theorem exec_append {s s₁ : σ} {labels rest : List ι} (hexec : exec step s labels = some s₁) :
    exec step s (labels ++ rest) = exec step s₁ rest := by
  induction labels generalizing s with
  | nil =>
      cases hexec
      rfl
  | cons i labels ih =>
      obtain ⟨s', hstep, hrest⟩ := Option.bind_eq_some_iff.mp hexec
      rw [List.cons_append, exec_cons hstep, ih hrest]

/-- A guard that follows from the first one in the states of an invariant. -/
theorem AllSteps.of_allStates {P : σ → Prop} {g g' : σ → ι → Prop}
    (h : ∀ s i, P s → g s i → g' s i) {s : σ} {labels : List ι}
    (hall : AllStates step P s labels) (hsteps : AllSteps step g s labels) :
    AllSteps step g' s labels := by
  induction labels generalizing s with
  | nil => trivial
  | cons i labels ih =>
      intro s' hstep
      obtain ⟨hg, hrest⟩ := hsteps s' hstep
      exact ⟨h s i hall.1 hg, ih (hall.2 s' hstep) hrest⟩

/-- A guard that holds in the states of an invariant. -/
theorem AllStates.allSteps {P : σ → Prop} {g : σ → ι → Prop} {s : σ} {labels : List ι}
    (hall : AllStates step P s labels) (h : ∀ s i, P s → g s i) : AllSteps step g s labels := by
  induction labels generalizing s with
  | nil => trivial
  | cons i labels ih => exact fun s' hstep => ⟨h s i hall.1, ih (hall.2 s' hstep)⟩

/-- The invariant rule: what holds first and is kept by every admitted step holds along
every run of admitted steps. -/
theorem allStates_of_allSteps {Inv : σ → Prop} {guard : σ → ι → Prop}
    (hkeep : ∀ s i s', guard s i → step s i = some s' → Inv s → Inv s')
    {s : σ} {labels : List ι} (hs : Inv s) (hsteps : AllSteps step guard s labels) :
    AllStates step Inv s labels := by
  induction labels generalizing s with
  | nil => exact hs
  | cons i labels ih =>
      refine ⟨hs, fun s' hstep => ?_⟩
      obtain ⟨hg, hrest⟩ := hsteps s' hstep
      exact ih (hkeep s i s' hg hstep hs) hrest

/-- The invariant rule without a guard. -/
theorem allStates_of_keep {Inv : σ → Prop}
    (hkeep : ∀ s i s', step s i = some s' → Inv s → Inv s')
    {s : σ} (labels : List ι) (hs : Inv s) : AllStates step Inv s labels := by
  induction labels generalizing s with
  | nil => exact hs
  | cons i labels ih => exact ⟨hs, fun s' hstep => ih (hkeep s i s' hstep hs)⟩

/-- When admitted steps keep an invariant that gives `P`, and every other step destroys
`P`, then `P` holds along a run exactly when all its steps are admitted. -/
theorem allStates_iff_allSteps (Inv : σ → Prop) {P : σ → Prop} {guard : σ → ι → Prop}
    (hP : ∀ s, Inv s → P s)
    (hkeep : ∀ s i s', guard s i → step s i = some s' → Inv s → Inv s')
    (hbreak : ∀ s i s', ¬ guard s i → step s i = some s' → Inv s → ¬ P s')
    {s : σ} {labels : List ι} (hs : Inv s) :
    AllStates step P s labels ↔ AllSteps step guard s labels := by
  constructor
  · intro hall
    induction labels generalizing s with
    | nil => trivial
    | cons i labels ih =>
        intro s' hstep
        have hrest := hall.2 s' hstep
        have hg : guard s i := by
          by_contra hg
          exact hbreak s i s' hg hstep hs hrest.head
        exact ⟨hg, ih (hkeep s i s' hg hstep hs) hrest⟩
  · intro hsteps
    exact (allStates_of_allSteps hkeep hs hsteps).mono hP

/-- The states behind an enabled part of a run are states of the run. -/
theorem AllStates.exec_append {P : σ → Prop} {s s' : σ} {labels rest : List ι}
    (h : AllStates step P s (labels ++ rest)) (hexec : exec step s labels = some s') :
    AllStates step P s' rest := by
  induction labels generalizing s with
  | nil =>
      cases hexec
      exact h
  | cons i labels ih =>
      obtain ⟨s₁, hstep, hrest⟩ := Option.bind_eq_some_iff.mp hexec
      exact ih (h.2 s₁ hstep) hrest

/-- A property of every state of a run holds in the state at its end. -/
theorem AllStates.exec {P : σ → Prop} {s s' : σ} {labels : List ι}
    (h : AllStates step P s labels) (hexec : exec step s labels = some s') : P s' := by
  rw [← List.append_nil labels] at h
  exact h.exec_append hexec

/-- What the allowed steps keep holds at the end of a run of allowed steps. -/
theorem exec_keep (P : σ → Prop) (allowed : ι → Prop)
    (hkeep : ∀ s i s', allowed i → P s → step s i = some s' → P s') {s s' : σ} {labels : List ι}
    (hs : P s) (hlabels : ∀ i ∈ labels, allowed i) (hexec : exec step s labels = some s') :
    P s' := by
  induction labels generalizing s with
  | nil =>
      cases hexec
      exact hs
  | cons i labels ih =>
      obtain ⟨s₁, hstep, hrest⟩ := Option.bind_eq_some_iff.mp hexec
      have hs₁ := hkeep s i s₁ (hlabels i List.mem_cons_self) hs hstep
      exact ih hs₁ (fun j hj => hlabels j (List.mem_cons_of_mem i hj)) hrest

/-- The first part of a run. -/
theorem AllSteps.left {g : σ → ι → Prop} {s : σ} {labels rest : List ι}
    (h : AllSteps step g s (labels ++ rest)) : AllSteps step g s labels := by
  induction labels generalizing s with
  | nil => trivial
  | cons i labels ih =>
      intro s' hstep
      obtain ⟨hi, hrest⟩ := h s' hstep
      exact ⟨hi, ih hrest⟩

/-- The steps behind an enabled part of a run are steps of the run. -/
theorem AllSteps.exec {g : σ → ι → Prop} {s s' : σ} {labels rest : List ι}
    (h : AllSteps step g s (labels ++ rest)) (hexec : exec step s labels = some s') :
    AllSteps step g s' rest := by
  induction labels generalizing s with
  | nil =>
      cases hexec
      exact h
  | cons i labels ih =>
      obtain ⟨s₁, hstep, hrest⟩ := Option.bind_eq_some_iff.mp hexec
      exact ih (h s₁ hstep).2 hrest

end Runs
