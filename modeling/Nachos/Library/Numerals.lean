import Mathlib.Tactic

/-! # Numerals written from the left

The digits of a number in base `b`, the most significant one first. -/

namespace Numerals

variable {b : ℕ}

def value (b : ℕ) (digits : List ℕ) : ℕ :=
  Nat.ofDigits b digits.reverse

/-- One more digit at the end. -/
theorem value_concat (b : ℕ) (digits : List ℕ) (d : ℕ) :
    value b (digits ++ [d]) = b * value b digits + d := by
  rw [value, List.reverse_concat, Nat.ofDigits_cons, Nat.add_comm]
  rfl

/-- One more digit in front. -/
theorem value_cons (b : ℕ) (d : ℕ) (digits : List ℕ) :
    value b (d :: digits) = d * b ^ digits.length + value b digits := by
  rw [value, List.reverse_cons, Nat.ofDigits_append, Nat.ofDigits_singleton, List.length_reverse,
    Nat.add_comm, Nat.mul_comm d]
  rfl

theorem value_lt (hb : 1 < b) {digits : List ℕ} (h : ∀ d ∈ digits, d < b) :
    value b digits < b ^ digits.length := by
  rw [value, ← List.length_reverse]
  exact Nat.ofDigits_lt_base_pow_length hb (by simpa using h)

/-- Among numerals of one length the first digit in which they differ decides. -/
theorem value_lt_value (hb : 1 < b) {d e : ℕ} {digits digits' : List ℕ} (hde : d < e)
    (hlength : digits.length = digits'.length) (h : ∀ x ∈ digits, x < b) :
    value b (d :: digits) < value b (e :: digits') := by
  have hrest := value_lt hb h
  have hmul : (d + 1) * b ^ digits.length ≤ e * b ^ digits.length := Nat.mul_le_mul_right _ hde
  rw [value_cons, value_cons, ← hlength]
  rw [Nat.succ_mul] at hmul
  omega

/-- A numeral with a first digit that is not zero has no shorter one of the same value. -/
theorem pow_le_value {d : ℕ} (hd : d ≠ 0) (digits : List ℕ) :
    b ^ digits.length ≤ value b (d :: digits) := by
  rw [value_cons]
  have hmul : 1 * b ^ digits.length ≤ d * b ^ digits.length :=
    Nat.mul_le_mul_right _ (Nat.one_le_iff_ne_zero.mpr hd)
  omega

/-! ## The numeral of a number -/

/-- The digits of `n` without leading zeros; zero has none. -/
def numeral (b n : ℕ) : List ℕ :=
  (Nat.digits b n).reverse

@[simp] theorem value_numeral (b n : ℕ) : value b (numeral b n) = n := by
  rw [value, numeral, List.reverse_reverse, Nat.ofDigits_digits]

@[simp] theorem numeral_zero (b : ℕ) : numeral b 0 = [] := by
  rw [numeral, Nat.digits_zero, List.reverse_nil]

/-- The last digit is the remainder, those before it are the quotient's. -/
theorem numeral_of_ne_zero (hb : 1 < b) {n : ℕ} (hn : n ≠ 0) :
    numeral b n = numeral b (n / b) ++ [n % b] := by
  rw [numeral, Nat.digits_eq_cons_digits_div hb hn, List.reverse_cons]
  rfl

theorem lt_of_mem_numeral (hb : 1 < b) {n d : ℕ} (h : d ∈ numeral b n) : d < b :=
  Nat.digits_lt_base hb (List.mem_reverse.mp h)

/-- A number that is not zero has a first digit, and it is not zero. -/
theorem exists_numeral_eq_cons {n : ℕ} (hn : n ≠ 0) :
    ∃ d digits, numeral b n = d :: digits ∧ d ≠ 0 := by
  have hne : Nat.digits b n ≠ [] := Nat.digits_ne_nil_iff_ne_zero.mpr hn
  refine ⟨(Nat.digits b n).getLast hne, (Nat.digits b n).dropLast.reverse, ?_,
    Nat.getLast_digit_ne_zero b hn⟩
  rw [numeral, ← List.reverse_concat, List.dropLast_append_getLast]

end Numerals
