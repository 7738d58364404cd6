import Mathlib.Tactic

/-! # Chains of cells

A memory has a cell at some of its addresses, and a cell points to the next one. A chain is
the list of the cells between two pointers, with the value of each. -/

namespace Chains

variable {A γ β : Type*}

/-- Where a cell keeps the pointer to the next cell, and its value. -/
structure Layout (A γ β : Type*) where
  next : γ → Option A
  value : γ → β

variable {layout : Layout A γ β} {memory memory' : A → Option γ} {start stop : Option A}
  {cells before after : List (A × β)} {a b : A} {x y : β}

def addresses (cells : List (A × β)) : List A :=
  cells.map Prod.fst

def values (cells : List (A × β)) : List β :=
  cells.map Prod.snd

@[simp] theorem values_nil : values ([] : List (A × β)) = [] := rfl

@[simp] theorem values_cons (a : A) (x : β) (cells : List (A × β)) :
    values ((a, x) :: cells) = x :: values cells := rfl

@[simp] theorem values_append (before after : List (A × β)) :
    values (before ++ after) = values before ++ values after :=
  List.map_append

@[simp] theorem addresses_nil : addresses ([] : List (A × β)) = [] := rfl

@[simp] theorem addresses_cons (a : A) (x : β) (cells : List (A × β)) :
    addresses ((a, x) :: cells) = a :: addresses cells := rfl

@[simp] theorem addresses_append (before after : List (A × β)) :
    addresses (before ++ after) = addresses before ++ addresses after :=
  List.map_append

theorem getLast?_addresses_append_cons (before : List (A × β)) (cell : A × β)
    (after : List (A × β)) :
    (addresses (before ++ cell :: after)).getLast? = (addresses (cell :: after)).getLast? := by
  rw [addresses_append]
  exact List.getLast?_append_cons ..

theorem getLast?_addresses_cons_cons (cell cell' : A × β) (cells : List (A × β)) :
    (addresses (cell :: cell' :: cells)).getLast? = (addresses (cell' :: cells)).getLast? :=
  List.getLast?_cons_cons

/-- The cells from `start` up to the one at `stop`, which is not among them. -/
def Chain (layout : Layout A γ β) (memory : A → Option γ) :
    Option A → List (A × β) → Option A → Prop
  | start, [], stop => start = stop
  | start, (a, x) :: cells, stop =>
      start = some a ∧ ∃ cell, memory a = some cell ∧ layout.value cell = x ∧
        Chain layout memory (layout.next cell) cells stop

/-- Following the pointers from `start` leads to the address. -/
inductive Reaches (layout : Layout A γ β) (memory : A → Option γ) (start : Option A) : A → Prop
  | start {a : A} (h : start = some a) : Reaches layout memory start a
  | next {a b : A} {cell : γ} (h : Reaches layout memory start a) (hcell : memory a = some cell)
      (hnext : layout.next cell = some b) : Reaches layout memory start b

/-! ## Parts of a chain -/

theorem chain_append :
    Chain layout memory start (before ++ after) stop ↔
      ∃ middle, Chain layout memory start before middle ∧
        Chain layout memory middle after stop := by
  induction before generalizing start with
  | nil =>
      constructor
      · exact fun h => ⟨start, rfl, h⟩
      · rintro ⟨_, rfl, h⟩
        exact h
  | cons cell before ih =>
      simp only [List.cons_append, Chain, ih]
      constructor
      · rintro ⟨hstart, c, hc, hvalue, middle, hbefore, hafter⟩
        exact ⟨middle, ⟨hstart, c, hc, hvalue, hbefore⟩, hafter⟩
      · rintro ⟨middle, ⟨hstart, c, hc, hvalue, hbefore⟩, hafter⟩
        exact ⟨hstart, c, hc, hvalue, middle, hbefore, hafter⟩

/-- A chain looks only at its own cells. -/
theorem Chain.congr (h : Chain layout memory start cells stop)
    (hsame : ∀ a ∈ addresses cells, memory' a = memory a) :
    Chain layout memory' start cells stop := by
  induction cells generalizing start with
  | nil => exact h
  | cons cell cells ih =>
      obtain ⟨hstart, c, hc, hvalue, hrest⟩ := h
      refine ⟨hstart, c, ?_, hvalue, ih hrest fun a ha => hsame a (List.mem_cons_of_mem _ ha)⟩
      rw [hsame _ List.mem_cons_self, hc]

theorem Chain.exists_cell (h : Chain layout memory start cells stop)
    (ha : a ∈ addresses cells) : ∃ cell, memory a = some cell := by
  induction cells generalizing start with
  | nil => cases ha
  | cons head cells ih =>
      obtain ⟨-, c, hc, -, hrest⟩ := h
      rcases List.mem_cons.mp ha with rfl | ha
      · exact ⟨c, hc⟩
      · exact ih hrest ha

theorem Chain.start_eq (h : Chain layout memory start cells none) :
    start = (addresses cells).head? := by
  cases cells with
  | nil => exact h
  | cons cell cells => exact h.1

theorem Chain.start_mem (h : Chain layout memory (some b) cells none) :
    b ∈ addresses cells :=
  List.mem_of_head? h.start_eq.symm

/-! ## Reachability -/

theorem Reaches.of_next {cell : γ} (hcell : memory a = some cell)
    (h : Reaches layout memory (layout.next cell) b) : Reaches layout memory (some a) b := by
  induction h with
  | start hnext => exact .next (.start rfl) hcell hnext
  | next _ hcell' hnext ih => exact .next ih hcell' hnext

theorem Chain.reaches (h : Chain layout memory start cells stop) (ha : a ∈ addresses cells) :
    Reaches layout memory start a := by
  induction cells generalizing start with
  | nil => cases ha
  | cons head cells ih =>
      obtain ⟨rfl, c, hc, -, hrest⟩ := h
      rcases List.mem_cons.mp ha with rfl | ha
      · exact .start rfl
      · exact .of_next hc (ih hrest ha)

/-- The pointers do not lead out of a chain that ends with NULL. -/
theorem Chain.next_mem (h : Chain layout memory start cells none) (ha : a ∈ addresses cells)
    {cell : γ} (hcell : memory a = some cell) (hnext : layout.next cell = some b) :
    b ∈ addresses cells := by
  induction cells generalizing start with
  | nil => cases ha
  | cons head cells ih =>
      obtain ⟨-, c, hc, -, hrest⟩ := h
      refine List.mem_cons_of_mem _ ?_
      rcases List.mem_cons.mp ha with rfl | ha
      · obtain rfl : c = cell := Option.some.inj (hc.symm.trans hcell)
        rw [hnext] at hrest
        exact hrest.start_mem
      · exact ih hrest ha

theorem Chain.reaches_iff (h : Chain layout memory start cells none) :
    Reaches layout memory start a ↔ a ∈ addresses cells := by
  refine ⟨fun hreaches => ?_, h.reaches⟩
  induction hreaches with
  | start hstart =>
      subst hstart
      exact h.start_mem
  | next _ hcell hnext ih => exact h.next_mem ih hcell hnext

/-! ## Insertion -/

/-- A new cell behind the cell at `b`, whose value stays. -/
theorem Chain.insert_after
    (h : Chain layout memory start (before ++ (b, y) :: after) stop)
    (hnodup : (addresses (before ++ (b, y) :: after)).Nodup)
    {cell linked new : γ} (hcell : memory b = some cell)
    (hlinked : memory' b = some linked) (hvalue : layout.value linked = layout.value cell)
    (hnext : layout.next linked = some a) (hnew : memory' a = some new)
    (hnewValue : layout.value new = x) (hnewNext : layout.next new = layout.next cell)
    (hsame : ∀ c ∈ addresses (before ++ (b, y) :: after), c ≠ b → memory' c = memory c) :
    Chain layout memory' start (before ++ (b, y) :: (a, x) :: after) stop := by
  obtain ⟨middle, hbefore, hmiddle, c, hc, hy, hafter⟩ := chain_append.mp h
  obtain rfl : c = cell := Option.some.inj (hc.symm.trans hcell)
  rw [addresses_append, addresses_cons, List.nodup_middle, List.nodup_cons, List.mem_append,
    not_or] at hnodup
  simp only [addresses_append, addresses_cons, List.mem_append, List.mem_cons] at hsame
  have hbefore' : Chain layout memory' start before middle := by
    refine hbefore.congr fun d hd => hsame d (.inl hd) ?_
    rintro rfl
    exact hnodup.1.1 hd
  have hafter' : Chain layout memory' (layout.next c) after stop := by
    refine hafter.congr fun d hd => hsame d (.inr (.inr hd)) ?_
    rintro rfl
    exact hnodup.1.2 hd
  refine chain_append.mpr ⟨middle, hbefore', hmiddle, linked, hlinked, hvalue.trans hy, hnext,
    new, hnew, hnewValue, ?_⟩
  rw [hnewNext]
  exact hafter'

end Chains
