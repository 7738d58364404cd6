import Mathlib.Tactic

/-! # Queues ordered by keys

The elements of a queue are pending in the order in which they were inserted. The least key
comes first, and among equal keys the element that was inserted first. -/

namespace StableQueue

open List

variable {α κ : Type*} [LinearOrder κ] {key : α → κ} {contents pending before after l : List α}
  {x : α} {k : κ}

/-- The elements with a given key, in their order. -/
def withKey (key : α → κ) (k : κ) (l : List α) : List α :=
  l.filter fun x => key x = k

theorem withKey_append (key : α → κ) (k : κ) (before after : List α) :
    withKey key k (before ++ after) = withKey key k before ++ withKey key k after :=
  filter_append ..

theorem withKey_cons_self (key : α → κ) (x : α) (l : List α) :
    withKey key (key x) (x :: l) = x :: withKey key (key x) l :=
  filter_cons_of_pos (decide_eq_true rfl)

theorem withKey_cons_of_ne (h : key x ≠ k) : withKey key k (x :: l) = withKey key k l :=
  filter_cons_of_neg (mt of_decide_eq_true h)

theorem withKey_eq_nil (h : ∀ y ∈ l, key y ≠ k) : withKey key k l = [] :=
  filter_eq_nil_iff.mpr fun y hy => mt of_decide_eq_true (h y hy)

/-- The contents are the pending elements in the order of their keys; the elements with equal
keys stay in their order. -/
structure IsStableSort (key : α → κ) (contents pending : List α) : Prop where
  sorted : contents.Pairwise fun x y => key x ≤ key y
  stable : ∀ k, withKey key k contents = withKey key k pending

theorem IsStableSort.nil : IsStableSort key [] [] :=
  ⟨.nil, fun _ => rfl⟩

theorem IsStableSort.perm (h : IsStableSort key contents pending) : contents ~ pending := by
  classical
  have hcount : ∀ x l, count x (withKey key (key x) l) = count x l :=
    fun x l => count_filter (decide_eq_true rfl)
  refine perm_iff_count.mpr fun x => ?_
  rw [← hcount, h.stable, hcount]

/-! ## Insertion -/

/-- Behind every key that is not greater, in front of every key that is. -/
theorem IsStableSort.insert (h : IsStableSort key (before ++ after) pending)
    (hbefore : ∀ y ∈ before, key y ≤ key x) (hafter : ∀ y ∈ after, key x < key y) :
    IsStableSort key (before ++ x :: after) (pending ++ [x]) := by
  obtain ⟨hleft, hright, hbetween⟩ := pairwise_append.mp h.sorted
  refine ⟨pairwise_append.mpr ⟨hleft, pairwise_cons.mpr ⟨?_, hright⟩, ?_⟩, fun k => ?_⟩
  · exact fun y hy => (hafter y hy).le
  · intro y hy z hz
    rcases mem_cons.mp hz with rfl | hz
    · exact hbefore y hy
    · exact hbetween y hy z hz
  · rw [withKey_append, withKey_append, ← h.stable k, withKey_append]
    by_cases hk : key x = k
    · subst hk
      rw [withKey_cons_self, withKey_cons_self, withKey_eq_nil fun y hy => (hafter y hy).ne',
        append_nil]
      rfl
    · rw [withKey_cons_of_ne hk, withKey_cons_of_ne hk]
      exact (append_nil _).symm

/-! ## Removal -/

/-- The element that is removed next. -/
structure IsNext (key : α → κ) (pending before : List α) (x : α) (after : List α) : Prop where
  split : pending = before ++ x :: after
  earlier : ∀ y ∈ before, key x < key y
  later : ∀ y ∈ after, key x ≤ key y

/-- The first of the contents is the earliest of the elements with the least key. -/
theorem IsStableSort.tail (h : IsStableSort key (x :: contents) pending) :
    ∃ before after, IsNext key pending before x after ∧
      IsStableSort key contents (before ++ after) := by
  obtain ⟨hle, hsorted⟩ := pairwise_cons.mp h.sorted
  have hfirst := h.stable (key x)
  rw [withKey_cons_self] at hfirst
  obtain ⟨before, after, rfl, hbefore, -, hafter⟩ := filter_eq_cons_iff.mp hfirst.symm
  have hkey : ∀ y ∈ before ++ x :: after, key x ≤ key y := by
    intro y hy
    rcases mem_cons.mp (h.perm.mem_iff.mpr hy) with rfl | hy
    · exact le_rfl
    · exact hle y hy
  have hother : ∀ y ∈ before, key y ≠ key x := by
    intro y hy heq
    exact hbefore y hy (decide_eq_true heq)
  refine ⟨before, after, ⟨rfl, fun y hy => ?_, fun y hy => ?_⟩, hsorted, fun k => ?_⟩
  · exact lt_of_le_of_ne (hkey y (mem_append_left _ hy)) (hother y hy).symm
  · exact hkey y (mem_append_right _ (mem_cons_of_mem x hy))
  · have hk := h.stable k
    rw [withKey_append] at hk ⊢
    by_cases hx : key x = k
    · subst hx
      rw [withKey_eq_nil hother, nil_append]
      exact hafter.symm
    · rwa [withKey_cons_of_ne hx, withKey_cons_of_ne hx] at hk

/-- Removes the next element. -/
def takeNext (key : α → κ) : List α → Option (α × List α)
  | [] => none
  | x :: rest =>
      match takeNext key rest with
      | none => some (x, [])
      | some (y, rest') => if key y < key x then some (y, x :: rest') else some (x, rest)

theorem takeNext_eq_none_iff : takeNext key pending = none ↔ pending = [] := by
  cases pending with
  | nil => simp [takeNext]
  | cons x rest =>
      rw [takeNext]
      cases takeNext key rest with
      | none => simp
      | some r =>
          dsimp only
          split <;> simp

theorem takeNext_perm {rest : List α} (h : takeNext key pending = some (x, rest)) :
    pending ~ x :: rest := by
  induction pending generalizing x rest with
  | nil => cases h
  | cons y pending ih =>
      rw [takeNext] at h
      cases hrest : takeNext key pending with
      | none =>
          rw [hrest] at h
          cases h
          rw [takeNext_eq_none_iff.mp hrest]
      | some r =>
          rw [hrest] at h
          dsimp only at h
          split at h
          · cases h
            exact ((ih hrest).cons y).trans (Perm.swap ..)
          · cases h
            exact Perm.refl _

theorem IsNext.takeNext_eq (h : IsNext key pending before x after) :
    takeNext key pending = some (x, before ++ after) := by
  obtain ⟨rfl, hearlier, hlater⟩ := h
  induction before with
  | nil =>
      rw [nil_append, takeNext]
      cases hrest : takeNext key after with
      | none => rw [takeNext_eq_none_iff.mp hrest]; rfl
      | some r =>
          have hmem : r.1 ∈ after := (takeNext_perm hrest).mem_iff.mpr mem_cons_self
          exact if_neg (not_lt.mpr (hlater _ hmem))
  | cons y before ih =>
      rw [cons_append, takeNext, ih fun z hz => hearlier z (mem_cons_of_mem y hz)]
      exact if_pos (hearlier y mem_cons_self)

end StableQueue
