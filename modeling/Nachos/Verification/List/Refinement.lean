import Nachos.Library.DataRefinement
import Nachos.Library.StableQueue
import Nachos.Verification.List.Representation

/-! # The list refines the functional list

Every run of the members replies as the functional list does. A list that is used only by
`SortedInsert` and `SortedRemove` is a queue ordered by keys. -/

namespace Nachos.ListObject

open Chains DataRefinement StableQueue Tracking

variable {Addr α : Type}

/-! ## Calls -/

/-- A call, with the address that `new` returns. -/
inductive Call (Addr α : Type)
  | append (element : Addr) (item : Option α)
  | prepend (element : Addr) (item : Option α)
  | sortedInsert (element : Addr) (item : Option α) (sortKey : ℤ)
  | remove
  | sortedRemove (keyPtr : Bool)
deriving DecidableEq, Repr

/-- What a call returns, and what it stores in `*keyPtr`. -/
inductive Reply (α : Type)
  | done
  | removed (thing : Option α) (key : Option ℤ)
deriving DecidableEq, Repr

def Call.element? : Call Addr α → Option Addr
  | .append element _ | .prepend element _ | .sortedInsert element _ _ => some element
  | .remove | .sortedRemove _ => none

/-- What a call does to a functional list. -/
def listSpec : Call Addr α → List (ListElement (Option α)) →
    Reply α × List (ListElement (Option α))
  | .append _ item, contents => (.done, contents ++ [⟨item, 0⟩])
  | .prepend _ item, contents => (.done, ⟨item, 0⟩ :: contents)
  | .sortedInsert _ item sortKey, contents =>
      (.done, Nachos.sortedInsert item sortKey contents)
  | .remove, contents => (.removed (contents.head?.bind ListElement.item) none, contents.tail)
  | .sortedRemove keyPtr, contents =>
      (.removed (contents.head?.bind ListElement.item)
        (if keyPtr then contents.head?.map ListElement.key else none), contents.tail)

/-! ## Sorted use -/

inductive SortedCall (Addr α : Type)
  | sortedInsert (element : Addr) (item : Option α) (sortKey : ℤ)
  | sortedRemove (keyPtr : Bool)
deriving DecidableEq, Repr

namespace SortedCall

def toCall : SortedCall Addr α → Call Addr α
  | .sortedInsert element item sortKey => .sortedInsert element item sortKey
  | .sortedRemove keyPtr => .sortedRemove keyPtr

def inserted? : SortedCall Addr α → Option (ListElement (Option α))
  | .sortedInsert _ item sortKey => some ⟨item, sortKey⟩
  | .sortedRemove _ => none

end SortedCall

/-- The elements that wait, in the order of their insertion, and those that were removed. -/
structure Queue (α : Type) where
  pending : List (ListElement (Option α))
  removed : List (ListElement (Option α))

/-- `SortedRemove` takes the earliest element with the least key. -/
def queueSpec : SortedCall Addr α → Queue α → Reply α × Queue α
  | .sortedInsert _ item sortKey, q =>
      (.done, { q with pending := q.pending ++ [⟨item, sortKey⟩] })
  | .sortedRemove keyPtr, q =>
      match takeNext ListElement.key q.pending with
      | none => (.removed none none, q)
      | some (e, rest) =>
          (.removed e.item (if keyPtr then some e.key else none), ⟨rest, q.removed ++ [e]⟩)

variable {contents : List (ListElement (Option α))} {q : Queue α}

theorem queueSpec_related (c : SortedCall Addr α)
    (h : IsStableSort ListElement.key contents q.pending) :
    (listSpec c.toCall contents).1 = (queueSpec c q).1 ∧
      IsStableSort ListElement.key (listSpec c.toCall contents).2 (queueSpec c q).2.pending := by
  cases c with
  | sortedInsert element item sortKey =>
      obtain ⟨before, after, rfl, hinsert, hbefore, hafter⟩ :=
        Sorted.sortedInsert_split h.sorted item sortKey
      refine ⟨rfl, ?_⟩
      rw [SortedCall.toCall, listSpec, hinsert]
      exact h.insert hbefore hafter
  | sortedRemove keyPtr =>
      rw [SortedCall.toCall, listSpec, queueSpec]
      cases contents with
      | nil =>
          rw [takeNext_eq_none_iff.mpr h.perm.symm.eq_nil]
          refine ⟨by simp, h⟩
      | cons e contents =>
          obtain ⟨before, after, hnext, hrest⟩ := h.tail
          rw [hnext.takeNext_eq]
          exact ⟨rfl, hrest⟩

/-- Nothing is lost or duplicated. -/
theorem queueSpec_perm (calls : List (SortedCall Addr α)) (q : Queue α) :
    List.Perm (q.removed ++ q.pending ++ calls.filterMap SortedCall.inserted?)
      ((specRun queueSpec calls q).2.removed ++ (specRun queueSpec calls q).2.pending) := by
  induction calls generalizing q with
  | nil => simp [specRun]
  | cons c calls ih =>
      rw [specRun]
      refine List.Perm.trans ?_ (ih (queueSpec c q).2)
      cases c with
      | sortedInsert element item sortKey => simp [queueSpec, SortedCall.inserted?]
      | sortedRemove keyPtr =>
          rw [queueSpec, List.filterMap_cons_none rfl]
          refine List.Perm.append_right _ ?_
          cases hnext : takeNext ListElement.key q.pending with
          | none => exact List.Perm.refl _
          | some r =>
              have hperm := (takeNext_perm hnext).append_left q.removed
              simpa using hperm

/-- What becomes of the elements of a list that is used only by `SortedInsert` and
`SortedRemove`. -/
structure KeyOrder (calls : List (SortedCall Addr α)) (replies : List (Reply α))
    (contents : List (ListElement (Option α))) (q : Queue α) : Prop where
  replies : replies = (specRun queueSpec calls ⟨[], []⟩).1
  queue : q = (specRun queueSpec calls ⟨[], []⟩).2
  order : IsStableSort ListElement.key contents q.pending
  conserved : List.Perm (calls.filterMap SortedCall.inserted?) (q.removed ++ contents)
  placed : ∀ item sortKey, ∃ before after, contents = before ++ after ∧
    Nachos.sortedInsert item sortKey contents = before ++ ⟨item, sortKey⟩ :: after ∧
    (∀ e ∈ before, e.key ≤ sortKey) ∧ ∀ e ∈ after, sortKey < e.key
  next : ∀ e rest, contents = e :: rest →
    ∃ before after, IsNext ListElement.key q.pending before e after

theorem keyOrder (calls : List (SortedCall Addr α)) :
    KeyOrder calls (specRun listSpec (calls.map SortedCall.toCall) []).1
      (specRun listSpec (calls.map SortedCall.toCall) []).2
      (specRun queueSpec calls ⟨[], []⟩).2 := by
  rw [specRun_map]
  have hempty : IsStableSort ListElement.key [] (Queue.mk (α := α) [] []).pending := .nil
  obtain ⟨hreplies, horder⟩ := specRun_related (fun c => listSpec c.toCall) queueSpec
    (fun contents q => IsStableSort ListElement.key contents q.pending)
    (fun c _ _ h => queueSpec_related c h) calls hempty
  refine ⟨hreplies, rfl, horder, ?_, ?_, ?_⟩
  · have hperm := queueSpec_perm calls ⟨[], []⟩
    exact hperm.trans (horder.perm.symm.append_left _)
  · exact Sorted.sortedInsert_split horder.sorted
  · intro e rest hcontents
    rw [hcontents] at horder
    obtain ⟨before, after, hnext, -⟩ := horder.tail
    exact ⟨before, after, hnext⟩

/-! ## Runs -/

variable [DecidableEq Addr] {elements : AList fun _ : Addr => ListElementObject Addr α}

def call : Call Addr α → ListObject Addr α → Except ListStop (Reply α × ListObject Addr α)
  | .append element item, l => do
      let l ← l.append element item
      return (.done, l)
  | .prepend element item, l => do
      let l ← l.prepend element item
      return (.done, l)
  | .sortedInsert element item sortKey, l => do
      let l ← l.sortedInsert element item sortKey
      return (.done, l)
  | .remove, l => do
      let (thing, l) ← l.remove
      return (.removed thing none, l)
  | .sortedRemove keyPtr, l => do
      let ((thing, key), l) ← l.sortedRemove keyPtr
      return (.removed thing key, l)

/-- `new` returns an address that is not in use. -/
def NewIsFree (c : Call Addr α) (l : ListObject Addr α) : Prop :=
  ∀ a ∈ c.element?, a ∉ l.elements

instance decidableNewIsFree (c : Call Addr α) (l : ListObject Addr α) :
    Decidable (NewIsFree c l) :=
  inferInstanceAs (Decidable (∀ a ∈ c.element?, a ∉ l.elements))

theorem call_refines :
    Refines (@call Addr α _) listSpec NewIsFree (Holds elements) := by
  rintro c l contents hfree h
  have hnew : ∀ a ∈ c.element?, l.elements.lookup a = none :=
    fun a ha => AList.lookup_eq_none.mpr (hfree a ha)
  cases c with
  | append element item =>
      obtain ⟨l', happend, h'⟩ := append_spec h (hnew element rfl) item
      refine ⟨l', ?_, h'⟩
      rw [call, happend]
      rfl
  | prepend element item =>
      obtain ⟨l', hprepend, h'⟩ := prepend_spec h (hnew element rfl) item
      refine ⟨l', ?_, h'⟩
      rw [call, hprepend]
      rfl
  | sortedInsert element item sortKey =>
      obtain ⟨l', hinsert, h'⟩ := sortedInsert_spec h (hnew element rfl) item sortKey
      refine ⟨l', ?_, h'⟩
      rw [call, hinsert]
      rfl
  | remove =>
      obtain ⟨l', hremove, h'⟩ := remove_spec h
      refine ⟨l', ?_, h'⟩
      rw [call, hremove]
      rfl
  | sortedRemove keyPtr =>
      obtain ⟨l', hremove, h'⟩ := sortedRemove_spec h keyPtr
      refine ⟨l', ?_, h'⟩
      rw [call, hremove]
      rfl

/-- A run on an empty list. -/
structure RefinesList (elements : AList fun _ : Addr => ListElementObject Addr α)
    (calls : List (Call Addr α)) (l : ListObject Addr α) (cells : Cells Addr α) : Prop where
  replies : run call calls ⟨elements, none, none⟩ = .ok ((specRun listSpec calls []).1, l)
  contents : values cells = (specRun listSpec calls []).2
  chained : Chained elements l cells
  sorted : ∀ sortedCalls : List (SortedCall Addr α), calls = sortedCalls.map SortedCall.toCall →
    ∃ q, KeyOrder sortedCalls (specRun listSpec calls []).1 (values cells) q

theorem list_keeps_representation (elements : AList fun _ : Addr => ListElementObject Addr α)
    (calls : List (Call Addr α))
    (hfree : Admitted call NewIsFree calls ⟨elements, none, none⟩) :
    ∃ l cells, RefinesList elements calls l cells := by
  obtain ⟨l, hrun, cells, h, hvalues⟩ :=
    call_refines.run hfree ⟨[], represents_empty elements, rfl⟩
  refine ⟨l, cells, hrun, hvalues, h.chained, fun sortedCalls hsorted => ?_⟩
  subst hsorted
  rw [hvalues]
  exact ⟨_, keyOrder sortedCalls⟩

/-- Two items with the same key around one with a smaller key, and the first removal. -/
def tiedCalls : List (Call ℕ Char) :=
  [.sortedInsert 1 (some 'a') 5, .sortedInsert 2 (some 'b') 3, .sortedInsert 3 (some 'c') 5,
    .sortedRemove true]

theorem list_keeps_representation_tied :
    ∃ l cells, RefinesList ∅ tiedCalls l cells ∧
      values cells = [⟨some 'a', 5⟩, ⟨some 'c', 5⟩] := by
  obtain ⟨l, cells, h⟩ := list_keeps_representation ∅ tiedCalls (by decide)
  exact ⟨l, cells, h, h.contents⟩

end Nachos.ListObject
