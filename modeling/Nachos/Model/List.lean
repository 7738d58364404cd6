import Mathlib.Tactic

/-! # Sorted lists

`threads/list.cc`: the order in which `SortedInsert` keeps the elements. -/

namespace Nachos

structure ListElement (α : Type) where
  item : α
  key : ℤ
deriving DecidableEq, Repr

/-- `SortedInsert`: in front of the first element with a larger key, else at the end. -/
def sortedInsert {α : Type} (item : α) (sortKey : ℤ) :
    List (ListElement α) → List (ListElement α)
  | [] => [⟨item, sortKey⟩]
  | first :: rest =>
      if sortKey < first.key then ⟨item, sortKey⟩ :: first :: rest
      else first :: sortedInsert item sortKey rest

end Nachos
