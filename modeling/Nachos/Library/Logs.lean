import Mathlib.Tactic

/-! # Properties of a log

A log grows at its end. What is asked of an event may refer to the events before it. -/

namespace Logs

variable {ε : Type*}

/-- Every event of the log is as the property asks, given what came before it. -/
def Always (P : List ε → ε → Prop) (log : List ε) : Prop :=
  ∀ before event after, log = before ++ event :: after → P before event

theorem always_nil (P : List ε → ε → Prop) : Always P [] := by
  intro before event after h
  simp at h

theorem Always.append {P : List ε → ε → Prop} {log : List ε} (h : Always P log) {event : ε}
    (hevent : P log event) : Always P (log ++ [event]) := by
  intro before event' after heq
  -- the event that is looked at is the last one, or was in the log before
  rcases List.eq_nil_or_concat after with rfl | ⟨after, last, rfl⟩
  · obtain ⟨rfl, hlast⟩ := List.append_inj' heq rfl
    obtain rfl := List.singleton_inj.mp hlast
    exact hevent
  · have hsplit : log ++ [event] = (before ++ event' :: after) ++ [last] := by
      simpa using heq
    obtain ⟨rfl, -⟩ := List.append_inj' hsplit rfl
    exact h before event' after rfl

end Logs
