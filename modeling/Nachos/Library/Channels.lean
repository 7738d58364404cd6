import Mathlib.Tactic

/-! # Channels that lose messages and keep their order

`Lossy` is one channel, `Routed` one whose messages are put into boxes at its end. -/

namespace Channels

variable {α β : Type*}

/-- What has come out, and then what is under way, went in in this order. -/
def Lossy (sent transit delivered : List α) : Prop :=
  (delivered ++ transit).Sublist sent

namespace Lossy

variable {sent transit delivered : List α}

theorem send (h : Lossy sent transit delivered) (a : α) :
    Lossy (sent ++ [a]) (transit ++ [a]) delivered := by
  unfold Lossy
  rw [← List.append_assoc]
  exact List.Sublist.append h (List.Sublist.refl [a])

theorem lose (h : Lossy sent transit delivered) (a : α) :
    Lossy (sent ++ [a]) transit delivered :=
  List.Sublist.trans h (List.sublist_append_left sent [a])

theorem deliver {a : α} (h : Lossy sent (a :: transit) delivered) :
    Lossy sent transit (delivered ++ [a]) := by
  unfold Lossy
  rw [List.append_assoc]
  exact h

theorem delivered_sublist (h : Lossy sent transit delivered) : delivered.Sublist sent :=
  (List.sublist_append_left delivered transit).trans h

end Lossy

/-- A channel for the messages of each box. -/
def Routed [DecidableEq β] (box : α → β) (sent transit : List α) (boxes : β → List α) : Prop :=
  ∀ b, Lossy (sent.filter fun a => box a = b) (transit.filter fun a => box a = b) (boxes b)

namespace Routed

variable [DecidableEq β] {box : α → β} {sent transit : List α} {boxes : β → List α}

theorem nil (box : α → β) : Routed box [] [] (fun _ => []) :=
  fun _ => List.Sublist.refl []

theorem send (h : Routed box sent transit boxes) (a : α) :
    Routed box (sent ++ [a]) (transit ++ [a]) boxes := by
  intro b
  rw [List.filter_append, List.filter_append, List.filter_singleton]
  by_cases ha : box a = b
  · simpa [ha] using (h b).send a
  · simpa [ha] using h b

theorem lose (h : Routed box sent transit boxes) (a : α) :
    Routed box (sent ++ [a]) transit boxes := by
  intro b
  rw [List.filter_append, List.filter_singleton]
  by_cases ha : box a = b
  · simpa [ha] using (h b).lose a
  · simpa [ha] using h b

/-- The first message under way comes into its box. -/
theorem deliver {a : α} (h : Routed box sent (a :: transit) boxes) :
    Routed box sent transit (Function.update boxes (box a) (boxes (box a) ++ [a])) := by
  refine (Function.forall_update_iff boxes fun b delivered =>
    Lossy (sent.filter fun x => box x = b) (transit.filter fun x => box x = b)
      delivered).mpr ⟨?_, fun b hb => ?_⟩
  · have hbox := h (box a)
    rw [List.filter_cons_of_pos (by simp)] at hbox
    exact hbox.deliver
  · have hbox := h b
    rwa [List.filter_cons_of_neg (by simpa using hb.symm)] at hbox

/-- What is in a box, and of some kind, went in in this order. -/
theorem sublist (h : Routed box sent transit boxes) (b : β) (p : α → Prop) [DecidablePred p] :
    ((boxes b).filter p).Sublist (sent.filter fun a => p a ∧ box a = b) := by
  have hbox := (h b).delivered_sublist.filter fun a => p a
  rw [List.filter_filter] at hbox
  simpa only [Bool.decide_and] using hbox

end Routed

end Channels
