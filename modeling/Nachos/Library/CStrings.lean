import Mathlib.Tactic

/-! # Terminated strings in a memory

A memory is seen through its addresses: `view a` is the value at `a`, if `a` is mapped. The
address behind `a` is `next a`. -/

namespace CStrings

variable {α β : Type*} (next : α → α)

/-- The addresses of `n` values from `a` on. -/
def addresses : ℕ → α → List α
  | 0, _ => []
  | n + 1, a => a :: addresses n (next a)

/-- The values stand in the memory from `a` on. -/
def Holds (view : α → Option β) : α → List β → Prop
  | _, [] => True
  | a, c :: s => view a = some c ∧ Holds view (next a) s

instance Holds.decidable [DecidableEq β] (view : α → Option β) :
    ∀ (a : α) (s : List β), Decidable (Holds next view a s)
  | _, [] => isTrue trivial
  | a, c :: s =>
      have := Holds.decidable view (next a) s
      inferInstanceAs (Decidable (view a = some c ∧ Holds next view (next a) s))

/-- The string `s` and its terminator stand in the memory from `a` on. -/
structure Terminated (stop : β) (view : α → Option β) (a : α) (s : List β) : Prop where
  ne_stop : ∀ c ∈ s, c ≠ stop
  holds : Holds next view a (s ++ [stop])

variable {next} {stop : β} {view : α → Option β} {a : α} {s t : List β}

theorem addresses_of_le {n k : ℕ} (h : k ≤ n) (a : α) :
    addresses next k a <+: addresses next n a := by
  induction k generalizing n a with
  | zero => exact List.nil_prefix
  | succ k ih =>
      obtain ⟨n, rfl⟩ : ∃ m, n = m + 1 := ⟨n - 1, by omega⟩
      exact (List.prefix_cons_inj a).mpr (ih (Nat.le_of_succ_le_succ h) (next a))

/-- Values at the addresses `a, a + 1, ...`. -/
theorem holds_succ_iff {view : ℕ → Option β} {a : ℕ} :
    Holds Nat.succ view a s ↔ ∀ i (hi : i < s.length), view (a + i) = some s[i] := by
  induction s generalizing a with
  | nil => simp [Holds]
  | cons c s ih =>
      rw [Holds, ih]
      constructor
      · rintro ⟨hfirst, hrest⟩ i hi
        cases i with
        | zero => exact hfirst
        | succ i =>
            rw [← Nat.add_assoc, Nat.add_right_comm]
            exact hrest i (by simpa using hi)
      · intro h
        refine ⟨h 0 (by simp), fun i hi => ?_⟩
        rw [Nat.succ_add]
        exact h (i + 1) (by simpa using hi)

theorem Holds.drop (h : Holds next view a (s ++ t)) : Holds next view (next^[s.length] a) t := by
  induction s generalizing a with
  | nil => exact h
  | cons c s ih => exact ih h.2

/-- There is one string at an address. -/
theorem Terminated.eq (h : Terminated next stop view a s) (h' : Terminated next stop view a t) :
    s = t := by
  obtain ⟨hs, hholds⟩ := h
  obtain ⟨ht, hholds'⟩ := h'
  induction s generalizing a t with
  | nil =>
      cases t with
      | nil => rfl
      | cons d t =>
          have heq := Option.some.inj (hholds.1.symm.trans hholds'.1)
          exact absurd heq.symm (ht d List.mem_cons_self)
  | cons c s ih =>
      cases t with
      | nil =>
          have heq := Option.some.inj (hholds.1.symm.trans hholds'.1)
          exact absurd heq (hs c List.mem_cons_self)
      | cons d t =>
          have heq := Option.some.inj (hholds.1.symm.trans hholds'.1)
          rw [heq, ih (fun x hx => hs x (List.mem_cons_of_mem c hx)) hholds.2
            (fun x hx => ht x (List.mem_cons_of_mem d hx)) hholds'.2]

/-- Where the addresses repeat, a string ends before it meets itself. -/
theorem Terminated.length_lt (h : Terminated next stop view a s) {n : ℕ} (hn : 0 < n)
    (hperiod : next^[n] a = a) : s.length < n := by
  by_contra hlong
  have hlength : (s.take n).length = n := List.length_take_of_le (Nat.le_of_not_lt hlong)
  have hrest : Terminated next stop view a (s.drop n) := by
    refine ⟨fun c hc => h.ne_stop c (List.mem_of_mem_drop hc), ?_⟩
    have hholds := h.holds
    rw [← List.take_append_drop n s, List.append_assoc] at hholds
    have hdrop := hholds.drop
    rwa [hlength, hperiod] at hdrop
  have hsame := congrArg List.length (h.eq hrest)
  rw [List.length_drop] at hsame
  omega

end CStrings
