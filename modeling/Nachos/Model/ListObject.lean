import Mathlib.Data.List.AList
import Nachos.Model.List

/-! # The members of `List` as they stand (`threads/list.cc`)

The elements lie in a memory and point to each other; `item` is NULL or a pointer, and every
call that needs an element gets one from `new`. -/

namespace Nachos

/-- A `ListElement` in the memory. -/
structure ListElementObject (Addr α : Type) where
  next : Option Addr
  key : ℤ
  item : Option α
deriving DecidableEq, Repr

/-- How a member ends before it returns: it dereferences a pointer to no element, or its loop
has passed more elements than there are, so that it runs in a cycle. -/
inductive ListStop
  | dereference
  | endless
deriving DecidableEq, Repr

/-- A `List` with the elements of its memory. -/
structure ListObject (Addr α : Type) where
  elements : AList fun _ : Addr => ListElementObject Addr α
  first : Option Addr
  last : Option Addr

namespace ListObject

variable {Addr α : Type}

def isEmpty (l : ListObject Addr α) : Bool :=
  l.first.isNone

variable [DecidableEq Addr]

/-- `*ptr` -/
def load (l : ListObject Addr α) (ptr : Option Addr) :
    Except ListStop (ListElementObject Addr α) :=
  match ptr.bind l.elements.lookup with
  | some element => .ok element
  | none => .error .dereference

/-- `ptr->next = next` -/
def setNext (l : ListObject Addr α) (ptr next : Option Addr) :
    Except ListStop (ListObject Addr α) :=
  match ptr with
  | none => .error .dereference
  | some addr =>
      match l.elements.lookup addr with
      | some element => .ok { l with elements := l.elements.insert addr { element with next } }
      | none => .error .dereference

/-- `element = new ListElement(itemPtr, sortKey)` -/
def new (l : ListObject Addr α) (element : Addr) (itemPtr : Option α) (sortKey : ℤ) :
    ListObject Addr α :=
  { l with elements := l.elements.insert element ⟨none, sortKey, itemPtr⟩ }

/-- `delete element` -/
def delete (l : ListObject Addr α) (element : Option Addr) : ListObject Addr α :=
  match element with
  | some addr => { l with elements := l.elements.erase addr }
  | none => l

/-- The only element of an empty list. -/
def setOnly (l : ListObject Addr α) (element : Addr) : ListObject Addr α :=
  { l with first := some element, last := some element }

/-- `last->next = element; last = element` -/
def linkLast (l : ListObject Addr α) (element : Addr) : Except ListStop (ListObject Addr α) := do
  let l ← l.setNext l.last (some element)
  return { l with last := some element }

/-- `element->next = first; first = element` -/
def linkFirst (l : ListObject Addr α) (element : Addr) :
    Except ListStop (ListObject Addr α) := do
  let l ← l.setNext (some element) l.first
  return { l with first := some element }

def append (l : ListObject Addr α) (element : Addr) (item : Option α) :
    Except ListStop (ListObject Addr α) :=
  let l := l.new element item 0
  if l.isEmpty then .ok (l.setOnly element) else l.linkLast element

def prepend (l : ListObject Addr α) (element : Addr) (item : Option α) :
    Except ListStop (ListObject Addr α) :=
  let l := l.new element item 0
  if l.isEmpty then .ok (l.setOnly element) else l.linkFirst element

/-- The loop of `SortedInsert` from `ptr` on, and what follows it. -/
def insertFrom (l : ListObject Addr α) (element : Addr) (sortKey : ℤ) :
    ℕ → Option Addr → Except ListStop (ListObject Addr α)
  | 0, _ => .error .endless
  | bound + 1, ptr => do
      let current ← l.load ptr
      if current.next = none then l.linkLast element
      else
        let following ← l.load current.next
        if sortKey < following.key then
          let l ← l.setNext (some element) current.next
          l.setNext ptr (some element)
        else insertFrom l element sortKey bound current.next

def sortedInsert (l : ListObject Addr α) (element : Addr) (item : Option α) (sortKey : ℤ) :
    Except ListStop (ListObject Addr α) :=
  let l := l.new element item sortKey
  if l.isEmpty then .ok (l.setOnly element)
  else do
    let first ← l.load l.first
    if sortKey < first.key then l.linkFirst element
    else l.insertFrom element sortKey l.elements.keys.length l.first

/-- The result is `thing` with what is stored in `*keyPtr`, if anything is. -/
def sortedRemove (l : ListObject Addr α) (keyPtr : Bool) :
    Except ListStop ((Option α × Option ℤ) × ListObject Addr α) :=
  if l.isEmpty then .ok ((none, none), l)
  else do
    let element ← l.load l.first
    let l' :=
      if l.first = l.last then { l with first := none, last := none }
      else { l with first := element.next }
    return ((element.item, if keyPtr then some element.key else none), l'.delete l.first)

def remove (l : ListObject Addr α) : Except ListStop (Option α × ListObject Addr α) := do
  let (result, l) ← l.sortedRemove false
  return (result.1, l)

/-- The loop of `~List`. -/
def destroyFrom (l : ListObject Addr α) : ℕ → Except ListStop (ListObject Addr α)
  | 0 => .error .endless
  | bound + 1 => do
      let (thing, l) ← l.remove
      if thing.isNone then return l else destroyFrom l bound

/-- `~List` -/
def destroy (l : ListObject Addr α) : Except ListStop (ListObject Addr α) :=
  l.destroyFrom (l.elements.keys.length + 1)

/-- The loop of `Mapcar` from `ptr` on: the arguments of `func`, which does not change the
list. -/
def mapcarFrom (l : ListObject Addr α) : ℕ → Option Addr → Except ListStop (List (Option α))
  | _, none => .ok []
  | 0, some _ => .error .endless
  | bound + 1, some addr => do
      let element ← l.load (some addr)
      let items ← mapcarFrom l bound element.next
      return element.item :: items

def mapcar (l : ListObject Addr α) : Except ListStop (List (Option α)) :=
  l.mapcarFrom l.elements.keys.length l.first

end ListObject

end Nachos
