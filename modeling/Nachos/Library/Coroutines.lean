import Nachos.Library.Runs

/-! # Coroutines

One body of code runs at a time. It transfers control to another one by name, which goes on
with the context it left behind. A context is a value; how it is kept is left open. -/

structure Coroutines (ι κ : Type*) where
  current : ι
  now : κ
  suspended : ι → Option κ

namespace Coroutines

variable {ι κ : Type*}

/-- A transfer says with which context the running coroutine wants to be resumed. -/
inductive Label (ι κ : Type*)
  | run (context : κ)
  | create (i : ι) (context : κ)
  | transfer (context : κ) (next : ι)
  | destroy (i : ι)

variable [DecidableEq ι]

def step (s : Coroutines ι κ) : Label ι κ → Option (Coroutines ι κ)
  | .run context => some { s with now := context }
  | .create i context =>
      if i = s.current ∨ (s.suspended i).isSome then none
      else some { s with suspended := Function.update s.suspended i (some context) }
  | .transfer context next =>
      if next = s.current then none
      else (s.suspended next).map fun resumed =>
        { current := next
          now := resumed
          suspended := Function.update (Function.update s.suspended s.current (some context)) next
            none }
  | .destroy i =>
      if i = s.current then none
      else some { s with suspended := Function.update s.suspended i none }

/-- The label neither resumes nor destroys `i`. -/
def Label.Spares (i : ι) : Label ι κ → Prop
  | .run _ => True
  | .create _ _ => True
  | .transfer _ next => next ≠ i
  | .destroy j => j ≠ i

/-- The context of a suspended coroutine waits for it. -/
theorem suspended_step {s s' : Coroutines ι κ} {label : Label ι κ} {i : ι} {context : κ}
    (hspares : label.Spares i) (hne : s.current ≠ i) (hi : s.suspended i = some context)
    (hstep : s.step label = some s') : s'.current ≠ i ∧ s'.suspended i = some context := by
  cases label with
  | run context' =>
      cases hstep
      exact ⟨hne, hi⟩
  | create j context' =>
      rw [step] at hstep
      split_ifs at hstep with hj
      cases hstep
      refine ⟨hne, ?_⟩
      have hij : i ≠ j := by
        rintro rfl
        exact hj (.inr (by rw [hi]; rfl))
      rw [← hi]
      exact Function.update_of_ne hij _ _
  | transfer context' next =>
      rw [step] at hstep
      split_ifs at hstep with hnext
      obtain ⟨resumed, -, rfl⟩ := Option.map_eq_some_iff.mp hstep
      refine ⟨hspares, ?_⟩
      rw [← hi]
      dsimp only
      rw [Function.update_of_ne hspares.symm, Function.update_of_ne hne.symm]
  | destroy j =>
      rw [step] at hstep
      split_ifs at hstep with hj
      cases hstep
      refine ⟨hne, ?_⟩
      rw [← hi]
      exact Function.update_of_ne hspares.symm _ _

/-- A coroutine is resumed with the context with which it was suspended or created. -/
theorem resumed {s s' s'' : Coroutines ι κ} {labels : List (Label ι κ)} {i : ι}
    {context context' : κ} (hspares : ∀ label ∈ labels, label.Spares i)
    (hne : s.current ≠ i) (hi : s.suspended i = some context)
    (hexec : Runs.exec step s labels = some s')
    (hstep : s'.step (.transfer context' i) = some s'') :
    s''.current = i ∧ s''.now = context := by
  have hwaits := Runs.exec_keep (fun s : Coroutines ι κ =>
    s.current ≠ i ∧ s.suspended i = some context) (Label.Spares i)
    (fun s label s' hlabel hs hstep => suspended_step hlabel hs.1 hs.2 hstep) ⟨hne, hi⟩ hspares
    hexec
  rw [step, if_neg hwaits.1.symm, hwaits.2] at hstep
  cases hstep
  exact ⟨rfl, rfl⟩

end Coroutines
