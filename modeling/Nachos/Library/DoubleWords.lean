import Mathlib.Tactic

/-! # Numbers of two words

`hi ++ lo` is added to, shifted and negated by operations on its two words; a product is the
sum of the shifted second factor over the bits of the first. -/

namespace DoubleWords

variable {w : ℕ} (hi lo hi' lo' : BitVec w)

theorem toNat_append : (hi ++ lo).toNat = 2 ^ w * hi.toNat + lo.toNat := by
  rw [BitVec.toNat_append, ← Nat.shiftLeft_add_eq_or_of_lt lo.isLt, Nat.shiftLeft_eq, mul_comm]

/-! ### Addition -/

theorem add_mod_mul {b y y' : ℕ} (hy : y < b) (hy' : y' < b) (x x' : ℕ) :
    (b * x + y + (b * x' + y')) % (b * b) =
      b * ((x + (if b ≤ y + y' then 1 else 0) + x') % b) + (y + y') % b := by
  have hb : 0 < b := by omega
  have hcarry : (y + y') / b = if b ≤ y + y' then 1 else 0 := by
    split
    · exact Nat.div_eq_of_lt_le (by omega) (by omega)
    · exact Nat.div_eq_of_lt (by omega)
  have hsum : b * x + y + (b * x' + y') = y + y' + b * (x + x') := by ring
  rw [hsum, Nat.mod_mul, Nat.add_mul_mod_self_left, Nat.add_mul_div_left _ _ hb, hcarry]
  ring_nf

theorem carry_iff : lo + lo' < lo' ↔ 2 ^ w ≤ lo.toNat + lo'.toNat := by
  have hlo := lo.isLt
  have hlo' := lo'.isLt
  rw [BitVec.lt_def, BitVec.toNat_add]
  constructor
  · intro hlt
    by_contra hle
    rw [Nat.mod_eq_of_lt (not_le.mp hle)] at hlt
    omega
  · intro hle
    rw [Nat.mod_eq_sub_mod hle, Nat.mod_eq_of_lt (by omega)]
    omega

/-- The sum of the low words has wrapped when it is less than one of them. -/
theorem add_append :
    ((if lo + lo' < lo' then hi + 1#w else hi) + hi') ++ (lo + lo') =
      (hi ++ lo) + (hi' ++ lo') := by
  apply BitVec.eq_of_toNat_eq
  rw [BitVec.toNat_add, toNat_append, toNat_append, toNat_append, pow_add,
    add_mod_mul lo.isLt lo'.isLt, BitVec.toNat_add lo]
  congr 2
  rw [BitVec.toNat_add]
  by_cases hcarry : lo + lo' < lo'
  · rw [if_pos hcarry, if_pos ((carry_iff lo lo').mp hcarry), BitVec.toNat_add]
    simp
  · rw [if_neg hcarry, if_neg (mt (carry_iff lo lo').mpr hcarry), add_zero]

/-! ### Shift and negation -/

theorem shiftLeft_one (x : BitVec w) : x <<< 1 = x + x := by
  apply BitVec.eq_of_toNat_eq
  rw [BitVec.toNat_shiftLeft, BitVec.toNat_add, Nat.shiftLeft_eq, pow_one, mul_two]

theorem shiftLeft_one_or_one (x : BitVec w) : x <<< 1 ||| 1#w = x + 1#w + x := by
  have hdisjoint : x <<< 1 &&& 1#w = 0#w := by
    apply BitVec.eq_of_getLsbD_eq
    intro i hi
    simp only [BitVec.getLsbD_and, BitVec.getLsbD_shiftLeft, BitVec.getLsbD_one,
      BitVec.getLsbD_zero]
    by_cases hzero : i = 0 <;> simp [hzero]
  rw [← BitVec.add_eq_or_of_and_eq_zero _ _ hdisjoint, shiftLeft_one, BitVec.add_assoc x x,
    BitVec.add_assoc x 1#w, BitVec.add_comm x 1#w]

/-- The top bit of the low word becomes the bottom bit of the high one. -/
theorem shiftLeft_append :
    (if lo.msb then hi <<< 1 ||| 1#w else hi <<< 1) ++ lo <<< 1 = (hi ++ lo) <<< 1 := by
  have hcarry : lo + lo < lo ↔ lo.msb = true := by
    rw [carry_iff, BitVec.msb_eq_true_iff_two_mul_ge, two_mul]
  rw [shiftLeft_one (hi ++ lo), ← add_append, shiftLeft_one lo, shiftLeft_one_or_one]
  simp only [hcarry, shiftLeft_one]
  split <;> rfl

/-- The sum with 1 carries when the low word becomes 0. -/
theorem neg_append (hw : 0 < w) :
    (if ~~~lo + 1#w = 0#w then ~~~hi + 1#w else ~~~hi) ++ (~~~lo + 1#w) = -(hi ++ lo) := by
  have hone : (0#w ++ 1#w : BitVec (w + w)) = 1#(w + w) := by
    apply BitVec.eq_of_toNat_eq
    rw [toNat_append, BitVec.toNat_one hw, BitVec.toNat_one (Nat.add_pos_left hw w)]
    simp
  have hcarry : ~~~lo + 1#w < 1#w ↔ ~~~lo + 1#w = 0#w := by
    rw [BitVec.lt_def, BitVec.toNat_one hw, Nat.lt_one_iff, ← BitVec.toNat_inj]
    simp
  rw [BitVec.neg_eq_not_add, BitVec.not_append, ← hone, ← add_append]
  simp only [hcarry, BitVec.add_zero]

/-! ### Shift and add -/

/-- One step of the multiplication by a number of `k + 1` bits. -/
theorem ofNat_mod_mul (n k : ℕ) (x : BitVec w) :
    BitVec.ofNat w (n % 2 ^ (k + 1)) * x =
      (if n % 2 = 1 then x else 0#w) + BitVec.ofNat w (n / 2 % 2 ^ k) * (x <<< 1) := by
  have hbit : BitVec.ofNat w (n % 2) * x = if n % 2 = 1 then x else 0#w := by
    rcases Nat.mod_two_eq_zero_or_one n with hzero | hone
    · rw [hzero, if_neg Nat.zero_ne_one]
      exact BitVec.zero_mul
    · rw [hone, if_pos rfl]
      exact BitVec.one_mul x
  rw [pow_succ', Nat.mod_mul, BitVec.ofNat_add, BitVec.ofNat_mul, BitVec.add_mul, hbit,
    shiftLeft_one, ← BitVec.two_mul]
  congr 1
  rw [BitVec.mul_comm (BitVec.ofNat w 2), BitVec.mul_assoc]

end DoubleWords
