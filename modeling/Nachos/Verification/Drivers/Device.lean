import Nachos.Model.Drivers

/-! # A device and the one thread that uses it

Between its request and the return from `P`, a thread is served by the device; the other
threads keep away from it. -/

namespace Nachos.Device

/-- Whom the device serves, and whether that thread sleeps in `P`. A request is outstanding,
or its completion has left a token. -/
inductive Serving : Device → Option (Tid × Bool) → Prop
  | quiet : Serving ⟨false, 0, ⟨0, []⟩⟩ none
  | requested (t : Tid) : Serving ⟨true, 1, ⟨0, []⟩⟩ (some (t, false))
  | asleep (t : Tid) : Serving ⟨true, 1, ⟨0, [t]⟩⟩ (some (t, true))
  | arrived (t : Tid) : Serving ⟨false, 0, ⟨1, []⟩⟩ (some (t, false))

variable {d d' : Device} {served : Option (Tid × Bool)} {t : Tid}

theorem serving_create : Serving create none :=
  .quiet

/-- At most one completion interrupt is scheduled, and only while the device is busy. -/
theorem Serving.scheduled (h : Serving d served) :
    d.scheduled = if d.busy then 1 else 0 := by
  cases h <;> rfl

theorem Serving.scheduled_quiet (h : Serving d none) : d.scheduled = 0 := by
  cases h
  rfl

/-- The ASSERT of a request holds when the device serves nobody. -/
theorem Serving.request (h : Serving d none) (t : Tid) :
    ∃ d', d.request = some d' ∧ d'.scheduled = d.scheduled + 1 ∧ Serving d' (some (t, false)) := by
  cases h
  exact ⟨_, rfl, rfl, .requested t⟩

/-- The thread that is served takes the token of its completion or goes to sleep. -/
theorem Serving.wait (h : Serving d (some (t, false))) :
    ((d.wait t).2 = true ∧ d.scheduled = 0 ∧ (d.wait t).1.scheduled = 0 ∧
        Serving (d.wait t).1 none) ∨
      ((d.wait t).2 = false ∧ (d.wait t).1.scheduled = d.scheduled ∧
        Serving (d.wait t).1 (some (t, true))) := by
  cases h with
  | requested => exact .inr ⟨rfl, rfl, .asleep t⟩
  | arrived => exact .inl ⟨rfl, rfl, rfl, .quiet⟩

/-- A completion interrupt is for the thread that is served, and wakes it if it sleeps. -/
theorem Serving.interrupt {woken : Option Tid} (h : Serving d served)
    (hinterrupt : d.interrupt = some (d', woken)) :
    d.scheduled = d'.scheduled + 1 ∧ ∃ t, Serving d' (some (t, false)) ∧
      ((served = some (t, true) ∧ woken = some t) ∨ (served = some (t, false) ∧ woken = none)) := by
  cases h with
  | quiet => cases hinterrupt
  | requested t =>
      cases hinterrupt
      exact ⟨rfl, t, .arrived t, .inr ⟨rfl, rfl⟩⟩
  | asleep t =>
      cases hinterrupt
      exact ⟨rfl, t, .arrived t, .inl ⟨rfl, rfl⟩⟩
  | arrived t => cases hinterrupt

end Nachos.Device
