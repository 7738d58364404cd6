import Mathlib.Data.List.TakeWhile
import Nachos.Library.Chains
import Nachos.Library.Tracking
import Nachos.Model.ListObject
import Nachos.Verification.List.Sorted

/-! # The chain of a list

The elements that can be reached from `first` form a chain that ends at `last`. Each member
changes the chain in one place, and no element outside it. -/

namespace Nachos.ListObject

open Chains Tracking

variable {Addr α : Type}

def layout : Layout Addr (ListElementObject Addr α) (ListElement (Option α)) where
  next element := element.next
  value element := ⟨element.item, element.key⟩

abbrev Cells (Addr α : Type) := List (Addr × ListElement (Option α))

variable [DecidableEq Addr] {elements : AList fun _ : Addr => ListElementObject Addr α}
  {l l' : ListObject Addr α} {cells before after : Cells Addr α} {element a b : Addr}
  {item : Option α} {sortKey : ℤ} {x y : ListElement (Option α)}

/-- The list has the chain `cells`; the rest of the memory is `elements`. -/
structure Represents (elements : AList fun _ : Addr => ListElementObject Addr α)
    (l : ListObject Addr α) (cells : Cells Addr α) : Prop where
  chain : Chain layout l.elements.lookup l.first cells none
  nodup : (addresses cells).Nodup
  last : l.last = (addresses cells).getLast?
  unused : ∀ a ∈ addresses cells, elements.lookup a = none
  others : ∀ a ∉ addresses cells, l.elements.lookup a = elements.lookup a

theorem represents_empty (elements : AList fun _ : Addr => ListElementObject Addr α) :
    Represents elements ⟨elements, none, none⟩ [] :=
  ⟨rfl, .nil, rfl, by simp, fun _ _ => rfl⟩

theorem lookup_insert_ite (elements : AList fun _ : Addr => ListElementObject Addr α)
    (a b : Addr) (e : ListElementObject Addr α) :
    (elements.insert b e).lookup a = if a = b then some e else elements.lookup a := by
  split
  · rename_i h
    rw [h, AList.lookup_insert]
  · rename_i h
    rw [AList.lookup_insert_ne h]

theorem lookup_erase_ite (elements : AList fun _ : Addr => ListElementObject Addr α)
    (a b : Addr) : (elements.erase b).lookup a = if a = b then none else elements.lookup a := by
  split
  · rename_i h
    rw [h, AList.lookup_erase]
  · rename_i h
    rw [AList.lookup_erase_ne h]

/-! ## Changes of the chain -/

namespace Represents

theorem notMem_of_lookup (h : Represents elements l cells) (hnew : l.elements.lookup a = none) :
    a ∉ addresses cells := by
  intro ha
  obtain ⟨cell, hcell⟩ := h.chain.exists_cell ha
  rw [hnew] at hcell
  cases hcell

theorem unused_of_lookup (h : Represents elements l cells) (hnew : l.elements.lookup a = none) :
    elements.lookup a = none := by
  rw [← h.others a (h.notMem_of_lookup hnew), hnew]

theorem isEmpty_iff (h : Represents elements l cells) : l.isEmpty = true ↔ cells = [] := by
  rw [isEmpty, Option.isNone_iff_eq_none, h.chain.start_eq, List.head?_eq_none_iff]
  exact List.map_eq_nil_iff

theorem insertFirst (h : Represents elements l cells) (hnew : l.elements.lookup element = none)
    (hlookup : ∀ a, l'.elements.lookup a =
      if a = element then some ⟨l.first, sortKey, item⟩ else l.elements.lookup a)
    (hfirst : l'.first = some element)
    (hlast : l'.last = if cells = [] then some element else l.last) :
    Represents elements l' ((element, ⟨item, sortKey⟩) :: cells) := by
  have hnot := h.notMem_of_lookup hnew
  have hkept : ∀ a ∈ addresses cells, l'.elements.lookup a = l.elements.lookup a := by
    intro a ha
    rw [hlookup, if_neg]
    rintro rfl
    exact hnot ha
  refine ⟨?_, List.nodup_cons.mpr ⟨hnot, h.nodup⟩, ?_, ?_, ?_⟩
  · exact ⟨hfirst, _, (hlookup element).trans (if_pos rfl), rfl, h.chain.congr hkept⟩
  · rw [hlast, h.last]
    cases cells with
    | nil => rfl
    | cons cell cells =>
        rw [if_neg (List.cons_ne_nil _ _), getLast?_addresses_cons_cons]
  · intro a ha
    rcases List.mem_cons.mp ha with rfl | ha
    · exact h.unused_of_lookup hnew
    · exact h.unused a ha
  · intro a ha
    obtain ⟨hne, ha⟩ := not_or.mp (mt List.mem_cons.mpr ha)
    rw [hlookup, if_neg hne, h.others a ha]

theorem insertAfter {cell : ListElementObject Addr α}
    (h : Represents elements l (before ++ (b, y) :: after))
    (hnew : l.elements.lookup element = none) (hcell : l.elements.lookup b = some cell)
    (hlookup : ∀ a, l'.elements.lookup a =
      if a = element then some ⟨cell.next, sortKey, item⟩
      else if a = b then some { cell with next := some element } else l.elements.lookup a)
    (hfirst : l'.first = l.first)
    (hlast : l'.last = if after = [] then some element else l.last) :
    Represents elements l' (before ++ (b, y) :: (element, ⟨item, sortKey⟩) :: after) := by
  have hnot := h.notMem_of_lookup hnew
  have hperm : (addresses (before ++ (b, y) :: (element, ⟨item, sortKey⟩) :: after)).Perm
      (element :: addresses (before ++ (b, y) :: after)) := by
    simp only [addresses_append, addresses_cons]
    exact ((List.Perm.swap element b _).append_left _).trans List.perm_middle
  have hmem : ∀ a, a ∈ addresses (before ++ (b, y) :: (element, ⟨item, sortKey⟩) :: after) ↔
      a = element ∨ a ∈ addresses (before ++ (b, y) :: after) := by
    intro a
    rw [hperm.mem_iff, List.mem_cons]
  have hb : b ∈ addresses (before ++ (b, y) :: after) := by simp
  have hbne : b ≠ element := by
    rintro rfl
    exact hnot hb
  have hlinked : l'.elements.lookup b = some { cell with next := some element } := by
    rw [hlookup, if_neg hbne, if_pos rfl]
  refine ⟨?_, hperm.nodup_iff.mpr (List.nodup_cons.mpr ⟨hnot, h.nodup⟩), ?_, ?_, ?_⟩
  · rw [hfirst]
    refine h.chain.insert_after h.nodup hcell hlinked rfl rfl
      ((hlookup element).trans (if_pos rfl)) rfl rfl fun a ha hne => ?_
    rw [hlookup, if_neg, if_neg hne]
    rintro rfl
    exact hnot ha
  · rw [hlast, h.last]
    cases after with
    | nil => simp
    | cons cell after =>
        rw [if_neg (List.cons_ne_nil _ _), getLast?_addresses_append_cons,
          getLast?_addresses_append_cons, getLast?_addresses_cons_cons,
          getLast?_addresses_cons_cons, getLast?_addresses_cons_cons]
  · intro a ha
    rcases (hmem a).mp ha with rfl | ha
    · exact h.unused_of_lookup hnew
    · exact h.unused a ha
  · intro a ha
    obtain ⟨hne, ha⟩ := not_or.mp (mt (hmem a).mpr ha)
    have hab : a ≠ b := by
      rintro rfl
      exact ha hb
    rw [hlookup, if_neg hne, if_neg hab, h.others a ha]

theorem removeFirst {cell : ListElementObject Addr α} (h : Represents elements l ((a, x) :: cells))
    (hcell : l.elements.lookup a = some cell)
    (hlookup : ∀ b, l'.elements.lookup b = if b = a then none else l.elements.lookup b)
    (hfirst : l'.first = cell.next) (hlast : l'.last = if cells = [] then none else l.last) :
    Represents elements l' cells := by
  obtain ⟨-, c, hc, -, hrest⟩ := h.chain
  obtain rfl : c = cell := Option.some.inj (hc.symm.trans hcell)
  obtain ⟨hnot, hnodup⟩ := List.nodup_cons.mp h.nodup
  refine ⟨?_, hnodup, ?_, fun b hb => h.unused b (List.mem_cons_of_mem a hb), fun b hb => ?_⟩
  · rw [hfirst]
    refine hrest.congr fun b hb => ?_
    rw [hlookup, if_neg]
    rintro rfl
    exact hnot hb
  · rw [hlast, h.last]
    cases cells with
    | nil => rfl
    | cons cell cells =>
        rw [if_neg (List.cons_ne_nil _ _), getLast?_addresses_cons_cons]
  · rw [hlookup]
    split
    · rename_i hba
      rw [hba, h.unused a List.mem_cons_self]
    · rename_i hba
      exact h.others b fun hmem => (List.mem_cons.mp hmem).elim hba hb

/-- A cell points to the one behind it. -/
theorem lookup_cell (h : Represents elements l (before ++ (a, x) :: after)) :
    l.elements.lookup a = some ⟨(addresses after).head?, x.key, x.item⟩ := by
  obtain ⟨-, -, -, cell, hcell, rfl, hafter⟩ := chain_append.mp h.chain
  rw [← hafter.start_eq]
  exact hcell

/-- `first == last` when the list has one element. -/
theorem first_eq_last_iff (h : Represents elements l ((a, x) :: cells)) :
    some a = l.last ↔ cells = [] := by
  rw [h.last]
  cases cells with
  | nil => exact iff_of_true rfl rfl
  | cons cell cells =>
      rw [getLast?_addresses_cons_cons]
      refine iff_of_false (fun heq => ?_) (List.cons_ne_nil _ _)
      exact (List.nodup_cons.mp h.nodup).1 (List.mem_of_getLast? heq.symm)

theorem length_le (h : Represents elements l cells) :
    cells.length ≤ l.elements.keys.length := by
  have hsubset : addresses cells ⊆ l.elements.keys := by
    intro a ha
    obtain ⟨cell, hcell⟩ := h.chain.exists_cell ha
    exact AList.mem_keys.mp (AList.lookup_isSome.mp (Option.isSome_of_eq_some hcell))
  have hle := (h.nodup.subperm hsubset).length_le
  rwa [addresses, List.length_map] at hle

end Represents

/-- The chain, and the places where it begins and ends. -/
structure Chained (elements : AList fun _ : Addr => ListElementObject Addr α)
    (l : ListObject Addr α) (cells : Cells Addr α) : Prop extends Represents elements l cells where
  reachable : ∀ a, Reaches layout l.elements.lookup l.first a ↔ a ∈ addresses cells
  lastNext : ∀ a, l.last = some a →
    ∃ element, l.elements.lookup a = some element ∧ element.next = none
  firstNull : l.first = none ↔ cells = []
  lastNull : l.last = none ↔ cells = []

theorem Represents.chained (h : Represents elements l cells) : Chained elements l cells := by
  refine ⟨h, fun _ => h.chain.reaches_iff, fun a ha => ?_, ?_, ?_⟩
  · rcases List.eq_nil_or_concat' cells with rfl | ⟨before, ⟨b, y⟩, rfl⟩
    · rw [h.last] at ha
      cases ha
    · rw [h.last, getLast?_addresses_append_cons] at ha
      cases ha
      exact ⟨_, h.lookup_cell, rfl⟩
  · rw [← h.isEmpty_iff, isEmpty, Option.isNone_iff_eq_none]
  · rw [h.last, List.getLast?_eq_none_iff]
    exact List.map_eq_nil_iff

/-! ## The members -/

@[simp] theorem lookup_new (l : ListObject Addr α) (element : Addr) (item : Option α)
    (sortKey : ℤ) (a : Addr) : (l.new element item sortKey).elements.lookup a =
      if a = element then some ⟨none, sortKey, item⟩ else l.elements.lookup a :=
  lookup_insert_ite ..

theorem load_eq {cell : ListElementObject Addr α} (h : l.elements.lookup a = some cell) :
    l.load (some a) = .ok cell := by
  rw [load, Option.bind_some, h]

theorem setNext_eq {cell : ListElementObject Addr α} (h : l.elements.lookup a = some cell)
    (next : Option Addr) : ∃ l', l.setNext (some a) next = .ok l' ∧ l'.first = l.first ∧
      l'.last = l.last ∧ ∀ b, l'.elements.lookup b =
        if b = a then some { cell with next } else l.elements.lookup b := by
  refine ⟨{ l with elements := l.elements.insert a { cell with next } }, ?_, rfl, rfl,
    fun b => lookup_insert_ite ..⟩
  simp only [setNext, h]

theorem setOnly_spec (h : Represents elements l []) (hnew : l.elements.lookup element = none) :
    Represents elements ((l.new element item sortKey).setOnly element)
      [(element, ⟨item, sortKey⟩)] := by
  refine h.insertFirst hnew (fun a => ?_) rfl rfl
  rw [h.chain.start_eq]
  exact lookup_new ..

theorem linkFirst_spec (h : Represents elements l cells)
    (hnew : l.elements.lookup element = none) (hne : cells ≠ []) :
    ∃ l', (l.new element item sortKey).linkFirst element = .ok l' ∧
      Represents elements l' ((element, ⟨item, sortKey⟩) :: cells) := by
  obtain ⟨l', hset, hfirst, hlast, hlookup⟩ := setNext_eq (l := l.new element item sortKey)
    (a := element) ((lookup_new ..).trans (if_pos rfl)) l.first
  refine ⟨{ l' with first := some element }, ?_, h.insertFirst hnew (fun a => ?_) rfl ?_⟩
  · rw [linkFirst, show (l.new element item sortKey).first = l.first from rfl, hset]
    rfl
  · rw [hlookup, lookup_new]
    split <;> rfl
  · rw [if_neg hne]
    exact hlast

/-- A cell of the chain after `new`. -/
theorem lookup_new_cell (item : Option α) (sortKey : ℤ)
    (h : Represents elements l (before ++ (b, y) :: after))
    (hnew : l.elements.lookup element = none) :
    b ≠ element ∧ (l.new element item sortKey).elements.lookup b =
      some ⟨(addresses after).head?, y.key, y.item⟩ := by
  have hne : b ≠ element := by
    rintro rfl
    exact h.notMem_of_lookup hnew (by simp)
  exact ⟨hne, (lookup_new ..).trans ((if_neg hne).trans h.lookup_cell)⟩

theorem linkLast_spec (h : Represents elements l (before ++ [(b, y)]))
    (hnew : l.elements.lookup element = none) :
    ∃ l', (l.new element item sortKey).linkLast element = .ok l' ∧
      Represents elements l' (before ++ [(b, y), (element, ⟨item, sortKey⟩)]) := by
  obtain ⟨hne, hcell⟩ := lookup_new_cell item sortKey h hnew
  have hlast : l.last = some b := by
    rw [h.last, getLast?_addresses_append_cons]
    rfl
  obtain ⟨l', hset, hfirst, -, hlookup⟩ := setNext_eq hcell (some element)
  refine ⟨{ l' with last := some element }, ?_,
    h.insertAfter hnew h.lookup_cell (fun a => ?_) hfirst (if_pos rfl).symm⟩
  · rw [linkLast, show (l.new element item sortKey).last = l.last from rfl, hlast, hset]
    rfl
  · rw [hlookup, lookup_new]
    by_cases ha : a = b
    · subst ha
      rw [if_pos rfl, if_neg hne, if_pos rfl]
    · rw [if_neg ha, if_neg ha]
      rfl

/-- The two assignments in the loop of `SortedInsert`. -/
theorem linkBetween_spec (item : Option α) (sortKey : ℤ)
    (h : Represents elements l (before ++ (b, y) :: after))
    (hnew : l.elements.lookup element = none) (hne : after ≠ []) :
    ∃ l₁ l', (l.new element item sortKey).setNext (some element) (addresses after).head? = .ok l₁ ∧
      l₁.setNext (some b) (some element) = .ok l' ∧
      Represents elements l' (before ++ (b, y) :: (element, ⟨item, sortKey⟩) :: after) := by
  obtain ⟨hb, hcell⟩ := lookup_new_cell item sortKey h hnew
  obtain ⟨l₁, hset₁, hfirst₁, hlast₁, hlookup₁⟩ := setNext_eq (l := l.new element item sortKey)
    (a := element) ((lookup_new ..).trans (if_pos rfl)) (addresses after).head?
  obtain ⟨l', hset, hfirst, hlast, hlookup⟩ := setNext_eq
    ((hlookup₁ b).trans ((if_neg hb).trans hcell)) (some element)
  refine ⟨l₁, l', hset₁, hset, h.insertAfter hnew h.lookup_cell (fun a => ?_)
    (hfirst.trans hfirst₁) ?_⟩
  · rw [hlookup, hlookup₁, lookup_new]
    by_cases ha : a = element
    · subst ha
      rw [if_neg hb.symm, if_pos rfl, if_pos rfl]
    · rw [if_neg ha, if_neg ha, if_neg ha]
  · rw [if_neg hne]
    exact hlast.trans hlast₁

/-- The loop goes on behind the cell at `b`, whose key is not greater than the new one. -/
theorem insertFrom_spec {bound : ℕ} (item : Option α) (sortKey : ℤ)
    (h : Represents elements l (before ++ (b, y) :: after))
    (hnew : l.elements.lookup element = none) (hbound : after.length < bound) :
    ∃ l' cells', (l.new element item sortKey).insertFrom element sortKey bound (some b) = .ok l' ∧
      Represents elements l' cells' ∧ values cells' =
        values before ++ y :: Nachos.sortedInsert item sortKey (values after) := by
  induction bound generalizing before b y after with
  | zero => cases hbound
  | succ bound ih =>
      obtain ⟨-, hcell⟩ := lookup_new_cell item sortKey h hnew
      rw [insertFrom, load_eq hcell, ok_bind]
      dsimp only
      cases after with
      | nil =>
          rw [if_pos (show (addresses ([] : Cells Addr α)).head? = none from rfl)]
          obtain ⟨l', hlink, h'⟩ := linkLast_spec h hnew
          exact ⟨l', _, hlink, h', by simp [Nachos.sortedInsert]⟩
      | cons cell after =>
          obtain ⟨c, z⟩ := cell
          have hsplit : before ++ (b, y) :: (c, z) :: after =
              (before ++ [(b, y)]) ++ (c, z) :: after := by simp
          have hnext := hsplit ▸ h
          obtain ⟨-, hfollowing⟩ := lookup_new_cell item sortKey hnext hnew
          obtain ⟨l₁, l', hset₁, hset, h'⟩ :=
            linkBetween_spec item sortKey h hnew (List.cons_ne_nil _ _)
          rw [addresses_cons, List.head?_cons] at hset₁ ⊢
          rw [if_neg (Option.some_ne_none c), load_eq hfollowing, ok_bind, values_cons,
            Nachos.sortedInsert]
          dsimp only
          by_cases hlt : sortKey < z.key
          · rw [if_pos hlt, if_pos hlt, hset₁, ok_bind]
            exact ⟨l', _, hset, h', by simp⟩
          · rw [if_neg hlt, if_neg hlt]
            obtain ⟨l', cells', hinsert, h', hvalues⟩ :=
              ih hnext (Nat.lt_of_succ_lt_succ hbound)
            refine ⟨l', cells', hinsert, h', ?_⟩
            rw [hvalues]
            simp

/-! ## The members and the functional list -/

/-- The chain holds the elements of a functional list. -/
def Holds (elements : AList fun _ : Addr => ListElementObject Addr α) (l : ListObject Addr α)
    (contents : List (ListElement (Option α))) : Prop :=
  ∃ cells, Represents elements l cells ∧ values cells = contents

theorem isEmpty_new (h : Represents elements l cells) :
    (l.new element item sortKey).isEmpty = true ↔ cells = [] :=
  h.isEmpty_iff

theorem length_keys_new (hnew : l.elements.lookup element = none) :
    (l.new element item sortKey).elements.keys.length = l.elements.keys.length + 1 := by
  have hnot : element ∉ l.elements.keys := by
    rw [← AList.mem_keys, ← AList.lookup_eq_none, hnew]
  rw [new, AList.keys_insert, List.erase_of_not_mem hnot, List.length_cons]

variable {contents : List (ListElement (Option α))}

theorem append_spec (h : Holds elements l contents) (hnew : l.elements.lookup element = none)
    (item : Option α) : ∃ l', l.append element item = .ok l' ∧
      Holds elements l' (contents ++ [⟨item, 0⟩]) := by
  obtain ⟨cells, h, rfl⟩ := h
  rw [append]
  rcases List.eq_nil_or_concat' cells with rfl | ⟨before, ⟨b, y⟩, rfl⟩
  · rw [if_pos ((isEmpty_new h).mpr rfl)]
    exact ⟨_, rfl, _, setOnly_spec h hnew, rfl⟩
  · rw [if_neg (mt (isEmpty_new h).mp (by simp))]
    obtain ⟨l', hlink, h'⟩ := linkLast_spec h hnew
    exact ⟨l', hlink, _, h', by simp⟩

theorem prepend_spec (h : Holds elements l contents) (hnew : l.elements.lookup element = none)
    (item : Option α) : ∃ l', l.prepend element item = .ok l' ∧
      Holds elements l' (⟨item, 0⟩ :: contents) := by
  obtain ⟨cells, h, rfl⟩ := h
  rw [prepend]
  by_cases hempty : cells = []
  · rw [if_pos ((isEmpty_new h).mpr hempty)]
    subst hempty
    exact ⟨_, rfl, _, setOnly_spec h hnew, rfl⟩
  · rw [if_neg (mt (isEmpty_new h).mp hempty)]
    obtain ⟨l', hlink, h'⟩ := linkFirst_spec h hnew hempty
    exact ⟨l', hlink, _, h', rfl⟩

theorem sortedInsert_spec (h : Holds elements l contents)
    (hnew : l.elements.lookup element = none) (item : Option α) (sortKey : ℤ) :
    ∃ l', l.sortedInsert element item sortKey = .ok l' ∧
      Holds elements l' (Nachos.sortedInsert item sortKey contents) := by
  obtain ⟨cells, h, rfl⟩ := h
  rw [sortedInsert]
  cases cells with
  | nil =>
      rw [if_pos ((isEmpty_new h).mpr rfl)]
      exact ⟨_, rfl, _, setOnly_spec h hnew, rfl⟩
  | cons cell cells =>
      obtain ⟨b, y⟩ := cell
      rw [if_neg (mt (isEmpty_new h).mp (List.cons_ne_nil _ _))]
      have hfirst : (l.new element item sortKey).first = some b := h.chain.start_eq
      have hsplit : Represents elements l ([] ++ (b, y) :: cells) := h
      obtain ⟨-, hcell⟩ := lookup_new_cell item sortKey hsplit hnew
      rw [hfirst, load_eq hcell, ok_bind, values_cons, Nachos.sortedInsert]
      dsimp only
      split
      · obtain ⟨l', hlink, h'⟩ := linkFirst_spec h hnew (List.cons_ne_nil _ _)
        exact ⟨l', hlink, _, h', rfl⟩
      · have hbound : cells.length < (l.new element item sortKey).elements.keys.length := by
          rw [length_keys_new hnew]
          exact Nat.lt_succ_of_lt (Nat.lt_of_succ_le h.length_le)
        obtain ⟨l', cells', hinsert, h', hvalues⟩ :=
          insertFrom_spec item sortKey hsplit hnew hbound
        exact ⟨l', hinsert, cells', h', hvalues⟩

/-- What `Remove` and `SortedRemove` take from a functional list. -/
theorem sortedRemove_spec (h : Holds elements l contents) (keyPtr : Bool) :
    ∃ l', l.sortedRemove keyPtr = .ok ((contents.head?.bind ListElement.item,
        if keyPtr then contents.head?.map ListElement.key else none), l') ∧
      Holds elements l' contents.tail := by
  obtain ⟨cells, h, rfl⟩ := h
  rw [sortedRemove]
  cases cells with
  | nil =>
      rw [if_pos (h.isEmpty_iff.mpr rfl)]
      exact ⟨l, by simp, [], h, rfl⟩
  | cons cell cells =>
      obtain ⟨a, x⟩ := cell
      rw [if_neg (mt h.isEmpty_iff.mp (List.cons_ne_nil _ _))]
      have hfirst : l.first = some a := h.chain.start_eq
      have hsplit : Represents elements l ([] ++ (a, x) :: cells) := h
      have hcell := hsplit.lookup_cell
      rw [hfirst, load_eq hcell, ok_bind]
      refine ⟨_, rfl, cells, h.removeFirst hcell (fun b => ?_) ?_ ?_, rfl⟩
      · split <;> exact lookup_erase_ite ..
      · split
        · rename_i hlast
          rw [(h.first_eq_last_iff).mp hlast]
          rfl
        · rfl
      · simp only [h.first_eq_last_iff]
        split <;> rfl

theorem remove_spec (h : Holds elements l contents) :
    ∃ l', l.remove = .ok (contents.head?.bind ListElement.item, l') ∧
      Holds elements l' contents.tail := by
  obtain ⟨l', hremove, h'⟩ := sortedRemove_spec h false
  refine ⟨l', ?_, h'⟩
  rw [remove, hremove]
  rfl

/-! ## The destructor and `Mapcar` -/

/-- The elements that `~List` leaves: those behind the first one whose item is NULL. -/
def undestroyed (contents : List (ListElement (Option α))) : List (ListElement (Option α)) :=
  (contents.dropWhile fun e => e.item.isSome).tail

theorem destroyFrom_spec {bound : ℕ} (h : Holds elements l contents)
    (hbound : contents.length < bound) :
    ∃ l', l.destroyFrom bound = .ok l' ∧ Holds elements l' (undestroyed contents) := by
  induction bound generalizing l contents with
  | zero => cases hbound
  | succ bound ih =>
      obtain ⟨l', hremove, h'⟩ := remove_spec h
      rw [destroyFrom, hremove, ok_bind]
      cases contents with
      | nil => exact ⟨l', rfl, h'⟩
      | cons e contents =>
          cases hitem : e.item with
          | none =>
              refine ⟨l', ?_, by simpa [undestroyed, hitem] using h'⟩
              simp only [List.head?_cons, Option.bind_some, hitem]
              rfl
          | some item =>
              obtain ⟨l'', hrest, h''⟩ := ih h' (Nat.lt_of_succ_lt_succ hbound)
              refine ⟨l'', ?_, by simpa [undestroyed, hitem] using h''⟩
              simpa [hitem] using hrest

theorem destroy_spec (h : Holds elements l contents) :
    ∃ l', l.destroy = .ok l' ∧ Holds elements l' (undestroyed contents) := by
  refine destroyFrom_spec h (Nat.lt_succ_of_le ?_)
  obtain ⟨cells, h, rfl⟩ := h
  rw [values, List.length_map]
  exact h.length_le

/-- Without a NULL among the items nothing of the list is left in the memory. -/
theorem destroy_frees (h : Holds elements l contents) (hitems : ∀ e ∈ contents, e.item ≠ none) :
    ∃ l', l.destroy = .ok l' ∧ ∀ a, l'.elements.lookup a = elements.lookup a := by
  obtain ⟨l', hdestroy, cells, h', hvalues⟩ := destroy_spec h
  have hall : contents.dropWhile (fun e => e.item.isSome) = [] :=
    List.dropWhile_eq_nil_iff.mpr fun e he => Option.isSome_iff_ne_none.mpr (hitems e he)
  rw [undestroyed, hall] at hvalues
  obtain rfl : cells = [] := List.map_eq_nil_iff.mp hvalues
  exact ⟨l', hdestroy, fun a => h'.others a List.not_mem_nil⟩

theorem mapcarFrom_spec {bound : ℕ} {start : Option Addr}
    (h : Chain layout l.elements.lookup start cells none) (hbound : cells.length ≤ bound) :
    l.mapcarFrom bound start = .ok ((values cells).map ListElement.item) := by
  induction cells generalizing bound start with
  | nil =>
      obtain rfl : start = none := h
      rw [mapcarFrom]
      rfl
  | cons cell cells ih =>
      obtain ⟨a, x⟩ := cell
      obtain ⟨rfl, e, he, rfl, hrest⟩ := h
      cases bound with
      | zero => cases hbound
      | succ bound =>
          have hitems : l.mapcarFrom bound e.next = _ := ih hrest (Nat.le_of_succ_le_succ hbound)
          rw [mapcarFrom, load_eq he, ok_bind, hitems]
          rfl

/-- `Mapcar` calls `func` once for every item, in the order of the list. -/
theorem mapcar_spec (h : Holds elements l contents) :
    l.mapcar = .ok (contents.map ListElement.item) := by
  obtain ⟨cells, h, rfl⟩ := h
  exact mapcarFrom_spec h.chain h.length_le

end Nachos.ListObject
