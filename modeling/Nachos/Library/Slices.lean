import Mathlib.Tactic

/-! # Reading and overwriting a part of a list -/

namespace Slices

variable {β : Type*}

/-- `count` entries from `position` on, as far as there are any. -/
def slice (l : List β) (position count : ℕ) : List β :=
  (l.drop position).take count

/-- The list with `chunk` at `position`, as far as it fits in. -/
def overwrite (l : List β) (position : ℕ) (chunk : List β) : List β :=
  l.take position ++ chunk.take (l.length - position) ++ l.drop (position + chunk.length)

@[simp] theorem length_slice (l : List β) (position count : ℕ) :
    (slice l position count).length = min count (l.length - position) := by
  rw [slice, List.length_take, List.length_drop]

@[simp] theorem length_overwrite (l : List β) (position : ℕ) (chunk : List β) :
    (overwrite l position chunk).length = l.length := by
  simp only [overwrite, List.length_append, List.length_take, List.length_drop]
  omega

theorem getElem?_slice (l : List β) (position count k : ℕ) :
    (slice l position count)[k]? = if k < count then l[position + k]? else none := by
  rw [slice, List.getElem?_take, List.getElem?_drop]

theorem getElem?_overwrite (l : List β) (position : ℕ) (chunk : List β) {k : ℕ}
    (hk : k < l.length) :
    (overwrite l position chunk)[k]? =
      if position ≤ k ∧ k < position + chunk.length then chunk[k - position]? else l[k]? := by
  rw [overwrite, List.append_assoc, List.getElem?_append, List.length_take]
  by_cases hbefore : k < position
  · rw [if_pos (by omega), if_neg (by omega), List.getElem?_take, if_pos hbefore]
  · rw [if_neg (by omega), List.getElem?_append, List.length_take,
      Nat.min_eq_left (show position ≤ l.length by omega)]
    by_cases hin : k < position + chunk.length
    · rw [if_pos (by omega), if_pos (by omega), List.getElem?_take, if_pos (by omega)]
    · rw [if_neg (by omega), if_neg (by omega), List.getElem?_drop]
      congr 1
      omega

/-- Two slices that follow each other. -/
theorem slice_append (l : List β) (position first second : ℕ) :
    slice l position first ++ slice l (position + (slice l position first).length) second =
      slice l position (first + second) := by
  rw [length_slice, slice, slice, slice, List.take_add, List.drop_drop]
  congr 1
  by_cases hfull : first ≤ l.length - position
  · rw [Nat.min_eq_left hfull]
  · rw [Nat.min_eq_right (by omega), List.drop_eq_nil_of_le (by omega),
      List.drop_eq_nil_of_le (by omega)]

/-- What follows a slice. -/
theorem slice_append_drop (l : List β) (position count : ℕ) :
    slice l position count ++ l.drop (position + (slice l position count).length) =
      l.drop position := by
  rw [← List.drop_drop, slice]
  exact List.prefix_iff_eq_append.mp (List.take_prefix count (l.drop position))

/-- Two chunks that follow each other. -/
theorem overwrite_append (l : List β) (position : ℕ) (first second : List β) :
    overwrite (overwrite l position first) (position + first.length) second =
      overwrite l position (first ++ second) := by
  refine List.ext_getElem? fun k => ?_
  by_cases hk : k < l.length
  · rw [getElem?_overwrite _ _ _ (by rwa [length_overwrite]), getElem?_overwrite _ _ _ hk,
      getElem?_overwrite _ _ _ hk, List.length_append, List.getElem?_append]
    by_cases hsecond : position + first.length ≤ k
    · have hoffset : k - (position + first.length) = k - position - first.length := by omega
      rw [if_neg (c := position ≤ k ∧ k < position + first.length) (by omega), hoffset]
      split_ifs <;> first | rfl | omega
    · rw [if_neg (by omega)]
      split_ifs <;> first | rfl | omega
  · rw [List.getElem?_eq_none (by simpa using hk), List.getElem?_eq_none (by simpa using hk)]

theorem overwrite_nil (l : List β) (position : ℕ) : overwrite l position [] = l := by
  rw [overwrite, List.take_nil, List.append_nil, List.length_nil, Nat.add_zero,
    List.take_append_drop]

theorem overwrite_all {l chunk : List β} (hlength : chunk.length = l.length) :
    overwrite l 0 chunk = chunk := by
  rw [overwrite, List.take_zero, List.nil_append, Nat.sub_zero, List.take_of_length_le hlength.le,
    List.drop_of_length_le (by omega), List.append_nil]

/-- What was written can be read. -/
theorem slice_overwrite (l : List β) (position : ℕ) {chunk : List β}
    (hfits : position + chunk.length ≤ l.length) :
    slice (overwrite l position chunk) position chunk.length = chunk := by
  refine List.ext_getElem? fun k => ?_
  rw [getElem?_slice]
  split
  · rw [getElem?_overwrite _ _ _ (by omega), if_pos (by omega), Nat.add_sub_cancel_left]
  · rw [List.getElem?_eq_none (by omega)]

end Slices
