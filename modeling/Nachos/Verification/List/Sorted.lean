import Nachos.Model.List

/-! # What a sorted insertion keeps -/

namespace Nachos

open List

variable {α : Type} {item : α} {sortKey : ℤ} {elements : List (ListElement α)}

theorem sortedInsert_perm (item : α) (sortKey : ℤ) (elements : List (ListElement α)) :
    sortedInsert item sortKey elements ~ ⟨item, sortKey⟩ :: elements := by
  induction elements with
  | nil => exact Perm.refl _
  | cons first rest ih =>
      rw [sortedInsert]
      split
      · exact Perm.refl _
      · exact (ih.cons first).trans (Perm.swap _ first rest)

theorem mem_sortedInsert {element : ListElement α} :
    element ∈ sortedInsert item sortKey elements ↔
      element = ⟨item, sortKey⟩ ∨ element ∈ elements := by
  rw [(sortedInsert_perm item sortKey elements).mem_iff, mem_cons]

/-- The keys do not decrease along the list. -/
def Sorted (elements : List (ListElement α)) : Prop :=
  elements.Pairwise fun e e' => e.key ≤ e'.key

theorem sorted_cons {first : ListElement α} :
    Sorted (first :: elements) ↔ (∀ e ∈ elements, first.key ≤ e.key) ∧ Sorted elements :=
  pairwise_cons

theorem Sorted.sortedInsert (h : Sorted elements) :
    Sorted (sortedInsert item sortKey elements) := by
  induction elements with
  | nil => exact pairwise_singleton _ _
  | cons first rest ih =>
      obtain ⟨hfirst, hrest⟩ := sorted_cons.mp h
      rw [Nachos.sortedInsert]
      split
      · rename_i hlt
        refine sorted_cons.mpr ⟨fun e he => ?_, h⟩
        rcases mem_cons.mp he with rfl | he
        · exact hlt.le
        · exact hlt.le.trans (hfirst e he)
      · rename_i hle
        refine sorted_cons.mpr ⟨fun e he => ?_, ih hrest⟩
        rcases mem_sortedInsert.mp he with rfl | he
        · exact not_lt.mp hle
        · exact hfirst e he

/-- A sorted insertion puts the item behind all elements with a key that is not greater. -/
theorem Sorted.sortedInsert_split (h : Sorted elements) (item : α) (sortKey : ℤ) :
    ∃ before after, elements = before ++ after ∧
      Nachos.sortedInsert item sortKey elements = before ++ ⟨item, sortKey⟩ :: after ∧
      (∀ e ∈ before, e.key ≤ sortKey) ∧ ∀ e ∈ after, sortKey < e.key := by
  induction elements with
  | nil => exact ⟨[], [], rfl, rfl, by simp, by simp⟩
  | cons first rest ih =>
      obtain ⟨hfirst, hrest⟩ := sorted_cons.mp h
      rw [Nachos.sortedInsert]
      by_cases hlt : sortKey < first.key
      · rw [if_pos hlt]
        refine ⟨[], first :: rest, rfl, rfl, by simp, fun e he => ?_⟩
        rcases mem_cons.mp he with rfl | he
        · exact hlt
        · exact hlt.trans_le (hfirst e he)
      · rw [if_neg hlt]
        obtain ⟨before, after, rfl, hinsert, hbefore, hafter⟩ := ih hrest
        refine ⟨first :: before, after, rfl, congrArg (first :: ·) hinsert, ?_, hafter⟩
        intro e he
        rcases mem_cons.mp he with rfl | he
        · exact not_lt.mp hlt
        · exact hbefore e he

end Nachos
