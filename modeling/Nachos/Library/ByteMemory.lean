import Mathlib.Algebra.BigOperators.Intervals
import Mathlib.Tactic

/-! # Little-endian byte memories

A memory is an array of bytes; a number is stored with its least significant byte first. Runs
of loads and stores of any sizes, and what a load returns after a store. -/

namespace ByteMemory

abbrev Memory := ℕ → BitVec 8

/-- The number in the `size` bytes from `addr` on. -/
def value (memory : Memory) (addr size : ℕ) : ℕ :=
  ∑ k ∈ Finset.range size, (memory (addr + k)).toNat * 256 ^ k

/-- The memory with the low `size` bytes of a number from `addr` on. -/
def put (memory : Memory) (addr size number : ℕ) : Memory :=
  fun p => if addr ≤ p ∧ p < addr + size then BitVec.ofNat 8 (number / 256 ^ (p - addr))
    else memory p

inductive Event (β : Type*)
  | loaded (addr size : ℕ) (result : β)
  | stored (addr size number : ℕ)

variable {β : Type*} {extend : ℕ → ℕ → β} {memory memory' : Memory} {addr size number : ℕ}
  {events : List (Event β)}

/-- The event stores nothing in the `size` bytes from `addr` on. -/
def Event.Apart (addr size : ℕ) : Event β → Prop
  | .loaded _ _ _ => True
  | .stored addr' size' _ => addr' + size' ≤ addr ∨ addr + size ≤ addr'

/-- The events one after the other; a load of `size` bytes returns what `extend size` makes of
their number. -/
inductive Run (extend : ℕ → ℕ → β) : Memory → List (Event β) → Memory → Prop
  | nil (memory : Memory) : Run extend memory [] memory
  | loaded {memory memory' : Memory} {events : List (Event β)} (addr size : ℕ)
      (hrest : Run extend memory events memory') :
      Run extend memory (.loaded addr size (extend size (value memory addr size)) :: events)
        memory'
  | stored {memory memory' : Memory} {events : List (Event β)} (addr size number : ℕ)
      (hrest : Run extend (put memory addr size number) events memory') :
      Run extend memory (.stored addr size number :: events) memory'

/-! ### One access -/

theorem put_of_outside {p : ℕ} (h : p < addr ∨ addr + size ≤ p) :
    put memory addr size number p = memory p :=
  if_neg (by omega)

theorem put_add {k : ℕ} (hk : k < size) :
    put memory addr size number (addr + k) = BitVec.ofNat 8 (number / 256 ^ k) := by
  rw [put, if_pos (by omega), Nat.add_sub_cancel_left]

theorem value_congr (h : ∀ k < size, memory' (addr + k) = memory (addr + k)) :
    value memory' addr size = value memory addr size :=
  Finset.sum_congr rfl fun k hk => by rw [h k (Finset.mem_range.mp hk)]

/-- The bytes of a number give it back. -/
theorem sum_bytes (number size : ℕ) :
    ∑ k ∈ Finset.range size, (BitVec.ofNat 8 (number / 256 ^ k)).toNat * 256 ^ k =
      number % 256 ^ size := by
  induction size with
  | zero => simp [Nat.mod_one]
  | succ size ih =>
      rw [Finset.sum_range_succ, ih, Nat.mod_pow_succ, BitVec.toNat_ofNat, Nat.mul_comm]

theorem value_put (memory : Memory) (addr size number : ℕ) :
    value (put memory addr size number) addr size = number % 256 ^ size := by
  rw [← sum_bytes]
  exact Finset.sum_congr rfl fun k hk => by rw [put_add (Finset.mem_range.mp hk)]

theorem value_put_of_apart {addr' size' : ℕ} (h : addr' + size' ≤ addr ∨ addr + size ≤ addr') :
    value (put memory addr' size' number) addr size = value memory addr size :=
  value_congr fun k hk => put_of_outside (by omega)

/-! ### Runs -/

/-- Up to an event of a run, and from it on. -/
theorem Run.append {before after : List (Event β)}
    (h : Run extend memory (before ++ after) memory') :
    ∃ memory₁, Run extend memory before memory₁ ∧ Run extend memory₁ after memory' := by
  induction before generalizing memory with
  | nil => exact ⟨memory, .nil memory, h⟩
  | cons event before ih =>
      cases h with
      | loaded addr size hrest =>
          obtain ⟨memory₁, hbefore, hafter⟩ := ih hrest
          exact ⟨memory₁, .loaded addr size hbefore, hafter⟩
      | stored addr size number hrest =>
          obtain ⟨memory₁, hbefore, hafter⟩ := ih hrest
          exact ⟨memory₁, .stored addr size number hbefore, hafter⟩

/-- Stores elsewhere do not change a number. -/
theorem Run.value_eq (h : Run extend memory events memory')
    (hapart : ∀ event ∈ events, event.Apart addr size) :
    value memory' addr size = value memory addr size := by
  induction h with
  | nil => rfl
  | loaded addr' size' hrest ih => exact ih fun event hevent => hapart event (.tail _ hevent)
  | stored addr' size' number hrest ih =>
      rw [ih fun event hevent => hapart event (.tail _ hevent)]
      exact value_put_of_apart (hapart _ (.head _))

/-- A load after a store at the same address returns what was stored. -/
theorem Run.loaded_after_stored {before between after : List (Event β)} {result : β}
    (h : Run extend memory
      (before ++ .stored addr size number :: (between ++ .loaded addr size result :: after))
      memory')
    (hapart : ∀ event ∈ between, event.Apart addr size) :
    result = extend size (number % 256 ^ size) := by
  obtain ⟨memory₁, -, hstored⟩ := h.append
  cases hstored with
  | stored _ _ _ hrest =>
      obtain ⟨memory₂, hbetween, hloaded⟩ := hrest.append
      cases hloaded with
      | loaded _ _ hrest => rw [hbetween.value_eq hapart, value_put]

end ByteMemory
