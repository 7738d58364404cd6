import Mathlib.Tactic

/-! # One party at a time

Every party is at a place. `Sole` names the one party, if any, whose place gives a value;
`Waiting` says that the parties in a queue sleep and that none stands in it twice; `Orderly`
says so of several queues, where a place tells in which queue a party sleeps. -/

namespace Exclusion

variable {ι κ α β : Type*}

/-- `who` is the only party whose place gives a value. -/
def Sole (value : α → Option β) (who : Option (ι × β)) (places : ι → α) : Prop :=
  ∀ i b, who = some (i, b) ↔ value (places i) = some b

structure Waiting (sleeps : α → Prop) (queue : List ι) (places : ι → α) : Prop where
  sleeps : ∀ i ∈ queue, sleeps (places i)
  nodup : queue.Nodup

/-- In every queue stand only parties that sleep in this one, each once. -/
def Orderly (sleepsIn : α → Option κ) (queues : κ → List ι) (places : ι → α) : Prop :=
  ∀ c, Waiting (fun p => sleepsIn p = some c) (queues c) places

namespace Sole

variable {value : α → Option β} {who : Option (ι × β)} {places : ι → α} {i j : ι} {b c : β}

theorem unique (h : Sole value who places) (hi : value (places i) = some b)
    (hj : value (places j) = some c) : i = j := by
  have hwho := (h i b).mpr hi
  rw [(h j c).mpr hj] at hwho
  exact (congrArg Prod.fst (Option.some.inj hwho)).symm

theorem eq {who' : Option (ι × β)} (h : Sole value who places) (h' : Sole value who' places) :
    who = who' := by
  apply Option.ext
  rintro ⟨i, b⟩
  exact (h i b).trans (h' i b).symm

/-- The only party that may have a value has none. -/
theorem eq_none (h : Sole value who places) (honly : ∀ j b, value (places j) = some b → j = i)
    (hnone : value (places i) = none) : who = none := by
  cases hwho : who with
  | none => rfl
  | some entry =>
      have hvalue := (h entry.1 entry.2).mp hwho
      rw [honly entry.1 entry.2 hvalue, hnone] at hvalue
      cases hvalue

variable [DecidableEq ι] {place : α}

/-- A party moves without taking or giving up a value. -/
theorem move (h : Sole value who places) (hvalue : value place = value (places i)) :
    Sole value who (Function.update places i place) := by
  refine (Function.forall_update_iff places
    fun j p => ∀ b, who = some (j, b) ↔ value p = some b).mpr ⟨?_, fun j _ => h j⟩
  rw [hvalue]
  exact h i

/-- The only party that may have a value moves. -/
theorem set (honly : ∀ j b, value (places j) = some b → j = i) (place : α) :
    Sole value ((value place).map fun b => (i, b)) (Function.update places i place) := by
  refine (Function.forall_update_iff places fun j p => ∀ b,
    (value place).map (fun b => (i, b)) = some (j, b) ↔ value p = some b).mpr ⟨?_, ?_⟩
  · intro b
    cases value place <;> simp
  · intro j hj b
    have hother : ¬ value (places j) = some b := fun hvalue => hj (honly j b hvalue)
    cases value place <;> simp [hother, Ne.symm hj]

end Sole

namespace Waiting

variable {sleeps : α → Prop} {queue : List ι} {places : ι → α} {i : ι} {place : α}

theorem nil (places : ι → α) : Waiting sleeps [] places :=
  ⟨by simp, List.nodup_nil⟩

theorem not_mem (h : Waiting sleeps queue places) (hplace : ¬ sleeps (places i)) : i ∉ queue :=
  fun hmem => hplace (h.sleeps i hmem)

variable [DecidableEq ι]

theorem update (h : Waiting sleeps queue places) (hnot : i ∉ queue) (place : α) :
    Waiting sleeps queue (Function.update places i place) where
  sleeps := by
    intro j hj
    have hne : j ≠ i := by
      rintro rfl
      exact hnot hj
    rw [Function.update_of_ne hne]
    exact h.sleeps j hj
  nodup := h.nodup

/-- A party that does not sleep in the queue moves. -/
theorem move (h : Waiting sleeps queue places) (hplace : ¬ sleeps (places i)) (place : α) :
    Waiting sleeps queue (Function.update places i place) :=
  h.update (h.not_mem hplace) place

theorem enqueue (h : Waiting sleeps queue places) (hplace : ¬ sleeps (places i))
    (hsleeps : sleeps place) : Waiting sleeps (queue ++ [i]) (Function.update places i place) where
  sleeps := by
    intro j hj
    rcases List.mem_append.mp hj with hold | hnew
    · exact (h.move hplace place).sleeps j hold
    · rw [List.mem_singleton.mp hnew, Function.update_self]
      exact hsleeps
  nodup := by
    have hnot := h.not_mem hplace
    refine h.nodup.append (List.nodup_singleton i) ?_
    simpa using hnot

/-- The first party in the queue is woken. -/
theorem dequeue (h : Waiting sleeps (i :: queue) places) (place : α) :
    Waiting sleeps queue (Function.update places i place) := by
  obtain ⟨hnot, hnodup⟩ := List.nodup_cons.mp h.nodup
  have hrest : Waiting sleeps queue places :=
    ⟨fun j hj => h.sleeps j (List.mem_cons_of_mem i hj), hnodup⟩
  exact hrest.update hnot place

end Waiting

namespace Orderly

variable {sleepsIn : α → Option κ} {queues queues' : κ → List ι} {places places' : ι → α} {i j : ι}
  {c : κ} {place : α} {rest : List ι}

/-- No queue gets longer and no sleeping party moves. -/
theorem congr (h : Orderly sleepsIn queues places)
    (hqueues : ∀ c, queues' c = queues c ∨ queues' c = [])
    (hplaces : ∀ i, sleepsIn (places i) ≠ none → places' i = places i) :
    Orderly sleepsIn queues' places' := by
  intro c
  rcases hqueues c with heq | heq
  · rw [heq]
    refine ⟨fun i hi => ?_, (h c).nodup⟩
    have hsleeps := (h c).sleeps i hi
    rw [hplaces i (by simp [hsleeps])]
    exact hsleeps
  · rw [heq]
    exact .nil places'

variable [DecidableEq κ] [DecidableEq ι]

theorem enqueue (h : Orderly sleepsIn queues places) (hawake : sleepsIn (places i) = none)
    (hsleeps : sleepsIn place = some c) :
    Orderly sleepsIn (Function.update queues c (queues c ++ [i]))
      (Function.update places i place) := by
  have hnot : ∀ d, ¬ sleepsIn (places i) = some d := by simp [hawake]
  refine (Function.forall_update_iff queues fun d queue =>
    Waiting (fun p => sleepsIn p = some d) queue (Function.update places i place)).mpr ⟨?_, ?_⟩
  · exact (h c).enqueue (hnot c) hsleeps
  · exact fun d _ => (h d).move (hnot d) place

/-- The first party in a queue is woken. -/
theorem dequeue (h : Orderly sleepsIn queues places) (hqueue : queues c = j :: rest) (place : α) :
    Orderly sleepsIn (Function.update queues c rest) (Function.update places j place) := by
  have hj : sleepsIn (places j) = some c :=
    (h c).sleeps j (hqueue ▸ List.mem_cons_self)
  refine (Function.forall_update_iff queues fun d queue =>
    Waiting (fun p => sleepsIn p = some d) queue (Function.update places j place)).mpr ⟨?_, ?_⟩
  · exact (hqueue ▸ h c).dequeue place
  · intro d hd
    refine (h d).move ?_ place
    rw [hj]
    exact fun heq => hd (Option.some.inj heq).symm

end Orderly

end Exclusion
