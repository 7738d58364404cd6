import Nachos.Model.Interpreter
import Nachos.Verification.Mips.Multiply

/-! # MULT and MULTU of the interpreter

The interpreter leaves out what the lower products carry into the high word, and shifts the
products of a low and a high half as `int`s. -/

namespace Nachos.Interpreter

open Machine

/-! ## The high word -/

/-- The two products of a low and a high half are `int`s, and what lies below the high word does
not carry into it. -/
structure NoCarry (a b : Word) : Prop where
  left : a.toNat / 2 ^ 16 * (b.toNat % 2 ^ 16) < 2 ^ 31
  right : b.toNat / 2 ^ 16 * (a.toNat % 2 ^ 16) < 2 ^ 31
  carry : a.toNat / 2 ^ 16 * (b.toNat % 2 ^ 16) % 2 ^ 16 * 2 ^ 16 +
    b.toNat / 2 ^ 16 * (a.toNat % 2 ^ 16) % 2 ^ 16 * 2 ^ 16 +
    a.toNat % 2 ^ 16 * (b.toNat % 2 ^ 16) < 2 ^ 32

/-- An `int` is shifted with copies of its sign. -/
theorem toNat_sshiftRight (x : Word) :
    (x.sshiftRight 16).toNat =
      if x.toNat < 2 ^ 31 then x.toNat / 2 ^ 16 else x.toNat / 2 ^ 16 + (2 ^ 32 - 2 ^ 16) := by
  have hlt := x.isLt
  by_cases hsmall : x.toNat < 2 ^ 31
  · rw [if_pos hsmall, BitVec.sshiftRight_eq_of_msb_false (BitVec.msb_eq_false_iff_two_mul_lt.mpr
      (by omega)), BitVec.toNat_ushiftRight, Nat.shiftRight_eq_div_pow]
  · rw [if_neg hsmall, BitVec.sshiftRight_eq_of_msb_true (BitVec.msb_eq_true_iff_two_mul_ge.mpr
      (by omega)), BitVec.toNat_not, BitVec.toNat_ushiftRight, BitVec.toNat_not,
      Nat.shiftRight_eq_div_pow]
    omega

theorem toNat_low (a : Word) : (a &&& 0xffff#32).toNat = a.toNat % 2 ^ 16 :=
  Instruction.toNat_and_mask a 16 (by decide)

theorem toNat_high (a : Word) : (a.sshiftRight 16 &&& 0xffff#32).toNat = a.toNat / 2 ^ 16 := by
  have hlt := a.isLt
  rw [toNat_low, toNat_sshiftRight]
  split <;> omega

theorem mul_half_lt {x y : ℕ} (hx : x < 2 ^ 16) (hy : y < 2 ^ 16) :
    x * y ≤ (2 ^ 16 - 1) * (2 ^ 16 - 1) :=
  Nat.mul_le_mul (by omega) (by omega)

/-- A product by its four products of halves. -/
theorem mul_eq_halves (m n : ℕ) :
    m * n = m / 2 ^ 16 * (n / 2 ^ 16) * 2 ^ 32 + m / 2 ^ 16 * (n % 2 ^ 16) * 2 ^ 16 +
      n / 2 ^ 16 * (m % 2 ^ 16) * 2 ^ 16 + m % 2 ^ 16 * (n % 2 ^ 16) := by
  conv_lhs => rw [← Nat.div_add_mod m (2 ^ 16), ← Nat.div_add_mod n (2 ^ 16)]
  ring

theorem noCarry_iff {a b : Word} :
    NoCarry a b ↔ a.toNat / 2 ^ 16 * (b.toNat % 2 ^ 16) < 2 ^ 31 ∧
      b.toNat / 2 ^ 16 * (a.toNat % 2 ^ 16) < 2 ^ 31 ∧
      a.toNat / 2 ^ 16 * (b.toNat % 2 ^ 16) % 2 ^ 16 * 2 ^ 16 +
        b.toNat / 2 ^ 16 * (a.toNat % 2 ^ 16) % 2 ^ 16 * 2 ^ 16 +
        a.toNat % 2 ^ 16 * (b.toNat % 2 ^ 16) < 2 ^ 32 :=
  ⟨fun h => ⟨h.left, h.right, h.carry⟩, fun h => ⟨h.1, h.2.1, h.2.2⟩⟩

instance NoCarry.decidable (a b : Word) : Decidable (NoCarry a b) :=
  decidable_of_iff _ noCarry_iff.symm

theorem highWord_eq_iff (a b : Word) :
    (highWord a b).toNat = a.toNat * b.toNat / 2 ^ 32 ↔ NoCarry a b := by
  have ha := a.isLt
  have hb := b.isLt
  have hproduct : a.toNat * b.toNat / 2 ^ 32 < 2 ^ 32 :=
    Nat.div_lt_of_lt_mul (Nat.mul_lt_mul'' ha hb)
  have halow : a.toNat % 2 ^ 16 < 2 ^ 16 := Nat.mod_lt _ (by decide)
  have hblow : b.toNat % 2 ^ 16 < 2 ^ 16 := Nat.mod_lt _ (by decide)
  have hahigh : a.toNat / 2 ^ 16 < 2 ^ 16 := by omega
  have hbhigh : b.toNat / 2 ^ 16 < 2 ^ 16 := by omega
  have hleft := mul_half_lt hahigh hblow
  have hright := mul_half_lt hbhigh halow
  have hlow := mul_half_lt halow hblow
  have htop := mul_half_lt hahigh hbhigh
  rw [noCarry_iff]
  rw [mul_eq_halves] at hproduct ⊢
  simp only [highWord, BitVec.toNat_add, toNat_sshiftRight (_ * _), BitVec.toNat_mul, toNat_high]
  simp only [toNat_low]
  generalize a.toNat / 2 ^ 16 * (b.toNat % 2 ^ 16) = left at *
  generalize b.toNat / 2 ^ 16 * (a.toNat % 2 ^ 16) = right at *
  generalize a.toNat % 2 ^ 16 * (b.toNat % 2 ^ 16) = low at *
  generalize a.toNat / 2 ^ 16 * (b.toNat / 2 ^ 16) = top at *
  rw [Nat.mod_eq_of_lt (show left < 2 ^ 32 by omega),
    Nat.mod_eq_of_lt (show right < 2 ^ 32 by omega), Nat.mod_eq_of_lt (show top < 2 ^ 32 by omega)]
  -- A product that is no `int` takes 2^16 from the high word, the carry is at most 2.
  split_ifs <;> omega

/-! ## Against `Mult` -/

theorem eq_of_doubleWord {x y : Word × Word} (hlow : x.2 = y.2) :
    x = y ↔ x.1.toNat = (doubleWord y).toNat / 2 ^ 32 := by
  have hhigh : (doubleWord y).toNat / 2 ^ 32 = y.1.toNat := by
    have hlt := y.2.isLt
    rw [doubleWord, DoubleWords.toNat_append]
    omega
  rw [hhigh, BitVec.toNat_inj]
  exact ⟨fun h => h ▸ rfl, fun h => Prod.ext h hlow⟩

theorem low_of_toNat {a b : Word} {result : Word × Word}
    (h : (doubleWord result).toNat = a.toNat * b.toNat) : a * b = result.2 := by
  apply BitVec.eq_of_toNat_eq
  have hlt := result.2.isLt
  rw [doubleWord, DoubleWords.toNat_append] at h
  rw [BitVec.toNat_mul, ← h]
  omega

theorem multu_eq_iff (a b : Word) : multu a b = Nachos.mult a b false ↔ NoCarry a b := by
  rw [eq_of_doubleWord (low_of_toNat (toNat_mult a b)), toNat_mult, ← highWord_eq_iff]
  rfl

/-- `-a` is `a` for the least `int`. -/
def abs (a : Word) : Word :=
  if a.slt 0#32 then -a else a

/-- What both make of a product when one of the factors was negated. -/
def negated (neg : Bool) (result : Word × Word) : Word × Word :=
  if neg then
    (if ~~~result.2 + 1#32 = 0#32 then ~~~result.1 + 1#32 else ~~~result.1, ~~~result.2 + 1#32)
  else result

theorem negated_injective (neg : Bool) : Function.Injective (negated neg) := by
  intro x y h
  cases neg with
  | false => exact h
  | true =>
      obtain ⟨hhigh, hlow⟩ := Prod.ext_iff.mp h
      simp only [negated, if_true] at hhigh hlow
      rw [hlow] at hhigh
      refine Prod.ext ?_ ?_
      · split_ifs at hhigh
        · simpa using hhigh
        · simpa using hhigh
      · simpa using hlow

theorem mult_eq_negated (a b : Word) :
    mult a b = negated (a.slt 0#32 != b.slt 0#32) (multu (abs a) (abs b)) := rfl

theorem multu_zero_left (b : Word) : multu 0#32 b = (0#32, 0#32) := by
  simp [multu, highWord]

theorem multu_zero_right (a : Word) : multu a 0#32 = (0#32, 0#32) := by
  simp [multu, highWord]

theorem negated_zero (neg : Bool) : negated neg (0#32, 0#32) = (0#32, 0#32) := by
  cases neg <;> rfl

/-- A product with 0 has no carry. -/
theorem noCarry_zero {a b : Word} (h : a = 0#32 ∨ b = 0#32) : NoCarry (abs a) (abs b) := by
  have habs : abs 0#32 = 0#32 := rfl
  rcases h with rfl | rfl
  · rw [habs]
    constructor <;> simp
  · rw [habs]
    constructor <;> simp

theorem abs_ne_zero {a : Word} (h : a ≠ 0#32) : abs a ≠ 0#32 := by
  unfold abs
  split
  · simpa using h
  · exact h

/-- The two differ only in the high word of the product of the absolute values. -/
theorem mult_eq_iff (a b : Word) : mult a b = Nachos.mult a b true ↔ NoCarry (abs a) (abs b) := by
  rw [mult_eq_negated]
  by_cases hzero : a = 0#32 ∨ b = 0#32
  · rw [Nachos.mult, if_pos hzero]
    refine iff_of_true ?_ (noCarry_zero hzero)
    rcases hzero with rfl | rfl
    · exact (congrArg _ (multu_zero_left _)).trans (negated_zero _)
    · exact (congrArg _ (multu_zero_right _)).trans (negated_zero _)
  · obtain ⟨ha, hb⟩ := not_or.mp hzero
    have hsigned : Nachos.mult a b true = negated (a.slt 0#32 != b.slt 0#32)
        (multLoop 32 (abs a) (abs b) 0#32 0#32 0#32) := by
      rw [Nachos.mult, if_neg hzero]
      rfl
    have hunsigned : Nachos.mult (abs a) (abs b) false =
        multLoop 32 (abs a) (abs b) 0#32 0#32 0#32 := by
      rw [Nachos.mult, if_neg (not_or.mpr ⟨abs_ne_zero ha, abs_ne_zero hb⟩)]
      rfl
    rw [hsigned, (negated_injective _).eq_iff, ← hunsigned, multu_eq_iff]

theorem doubleWord_inj {x y : Word × Word} : doubleWord x = doubleWord y ↔ x = y := by
  constructor
  · intro h
    have hsum := congrArg BitVec.toNat h
    have hx := x.2.isLt
    have hy := y.2.isLt
    rw [doubleWord, doubleWord, DoubleWords.toNat_append, DoubleWords.toNat_append] at hsum
    refine Prod.ext ?_ ?_
    · exact BitVec.eq_of_toNat_eq (by omega)
    · exact BitVec.eq_of_toNat_eq (by omega)
  · intro h
    rw [h]

/-- HI and LO hold the product exactly when nothing is carried into the high word. -/
theorem product_exact_iff (a b : Word) :
    ((doubleWord (multu a b)).toNat = a.toNat * b.toNat ↔ NoCarry a b) ∧
      ((doubleWord (mult a b)).toInt = a.toInt * b.toInt ↔ NoCarry (abs a) (abs b)) := by
  constructor
  · rw [← multu_eq_iff, ← toNat_mult, BitVec.toNat_inj, doubleWord_inj]
  · rw [← mult_eq_iff, ← toInt_mult, BitVec.toInt_inj, doubleWord_inj]

end Nachos.Interpreter
