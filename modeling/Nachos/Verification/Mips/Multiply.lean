import Nachos.Library.DoubleWords
import Nachos.Verification.Mips.Overflow

/-! # Multiplication

The loop of `Mult` adds the shifted second factor for every bit of the first. The shifts of the
first factor copy its sign, but no bit that they bring in is ever looked at. -/

namespace Nachos

open DoubleWords

/-- `hi` and `lo` as one number. -/
def doubleWord (result : Word × Word) : BitVec 64 :=
  result.1 ++ result.2

/-! ### The tests of the loop -/

theorem and_one_ne_zero_iff (a : Word) : a &&& 1#32 ≠ 0#32 ↔ a.toNat % 2 = 1 := by
  have hbit := Instruction.toNat_and_mask a 1 (by decide)
  rw [ne_eq, ← BitVec.toNat_inj, show (1#32 : Word) = BitVec.ofNat 32 (2 ^ 1 - 1) from rfl, hbit]
  simp

/-- Above its lowest bit `a` has no bits. -/
theorem and_rest_eq_zero_iff (a : Word) : a &&& 0xfffffffe#32 = 0#32 ↔ a.toNat / 2 = 0 := by
  have hrest : a &&& 0xfffffffe#32 = (a >>> 1) <<< 1 := by
    apply BitVec.eq_of_getLsbD_eq
    intro i hi
    rw [show (0xfffffffe#32 : Word) = ~~~BitVec.twoPow 32 0 from rfl]
    simp only [BitVec.getLsbD_and, BitVec.getLsbD_shiftLeft, BitVec.getLsbD_ushiftRight,
      BitVec.getLsbD_not, BitVec.getLsbD_twoPow]
    by_cases hzero : i = 0
    · simp [hzero]
    · have hback : 1 + (i - 1) = i := by omega
      simp [hi, hzero, hback]
      omega
  rw [hrest, ← BitVec.toNat_inj, BitVec.toNat_shiftLeft, BitVec.toNat_ushiftRight,
    Nat.shiftLeft_eq, Nat.shiftRight_eq_div_pow, BitVec.toNat_zero]
  have hlt := a.isLt
  omega

theorem and_topBit_ne_zero_iff (b : Word) : b &&& 0x80000000#32 ≠ 0#32 ↔ b.msb = true := by
  rw [show (0x80000000#32 : Word) = BitVec.twoPow 32 31 from rfl, Instruction.and_signBit_ne_zero,
    BitVec.msb_eq_getLsbD_last]
  simp

/-- Of a shifted factor the loop looks only at bits that were there before. -/
theorem toNat_sshiftRight_mod (a : Word) {n : ℕ} (hn : n < 32) :
    (a.sshiftRight 1).toNat % 2 ^ n = a.toNat / 2 % 2 ^ n := by
  apply Nat.eq_of_testBit_eq
  intro i
  rw [Nat.testBit_mod_two_pow, Nat.testBit_mod_two_pow, Nat.testBit_div_two]
  by_cases hi : i < n
  · rw [← BitVec.getLsbD, ← BitVec.getLsbD, BitVec.getLsbD_sshiftRight]
    simp [show ¬ 32 ≤ i by omega, show i + 1 < 32 by omega, Nat.add_comm 1 i]
  · simp [hi]

/-! ### The loop -/

/-- An iteration adds the shifted second factor if the bit is set. -/
theorem add_step (c : Prop) [Decidable c] (bLo bHi lo hi : Word) :
    (if c then (if (if c then lo + bLo else lo) < bLo then hi + 1#32 else hi) + bHi else hi) ++
        (if c then lo + bLo else lo) = (hi ++ lo) + if c then bHi ++ bLo else 0#(32 + 32) := by
  by_cases hc : c
  · simp only [if_pos hc]
    exact add_append hi lo bHi bLo
  · simp only [if_neg hc]
    exact (BitVec.add_zero _).symm

theorem shift_step (bLo bHi : Word) :
    (if bLo &&& 0x80000000#32 ≠ 0#32 then bHi <<< 1 ||| 1#32 else bHi <<< 1) ++ bLo <<< 1 =
      (bHi ++ bLo) <<< 1 := by
  simp only [and_topBit_ne_zero_iff]
  exact shiftLeft_append bHi bLo

/-- The rest of the loop adds the product with the bits of `a` that are left. -/
theorem multLoop_eq {n : ℕ} (hn : n ≤ 32) (a bLo bHi lo hi : Word) :
    doubleWord (multLoop n a bLo bHi lo hi) =
      (hi ++ lo) + BitVec.ofNat 64 (a.toNat % 2 ^ n) * (bHi ++ bLo) := by
  induction n generalizing a bLo bHi lo hi with
  | zero =>
      rw [pow_zero, Nat.mod_one]
      simp [multLoop, doubleWord]
  | succ n ih =>
      rw [multLoop]
      simp only [and_one_ne_zero_iff, and_rest_eq_zero_iff]
      rw [ofNat_mod_mul, ← BitVec.add_assoc, ← add_step, ← shift_step]
      split
      · rename_i hlast
        rw [hlast.2, Nat.zero_mod, BitVec.zero_mul, BitVec.add_zero]
        rfl
      · rw [ih (by omega), toNat_sshiftRight_mod a (by omega)]

/-- The loop multiplies two unsigned numbers. -/
theorem toNat_multLoop (a b : Word) :
    (doubleWord (multLoop 32 a b 0#32 0#32 0#32)).toNat = a.toNat * b.toNat := by
  have ha := a.isLt
  have hb := b.isLt
  have hproduct : a.toNat * b.toNat < 2 ^ 64 :=
    (Nat.mul_lt_mul'' ha hb).trans_eq (pow_add 2 32 32).symm
  have hfactor : (0#32 ++ b : BitVec (32 + 32)).toNat = b.toNat := by
    rw [DoubleWords.toNat_append, BitVec.toNat_zero, mul_zero, zero_add]
  have hzero : (0#32 ++ 0#32 : BitVec (32 + 32)) = 0#64 := rfl
  rw [multLoop_eq le_rfl, Nat.mod_eq_of_lt ha, hzero, BitVec.zero_add, BitVec.toNat_mul, hfactor,
    BitVec.toNat_ofNat, Nat.mod_eq_of_lt (ha.trans (by decide)),
    Nat.mod_eq_of_lt hproduct]

/-! ### Signs -/

theorem slt_zero (a : Word) : a.slt 0#32 = decide (a.toInt < 0) := by
  rw [BitVec.slt_eq_decide, BitVec.toInt_zero]

/-- The absolute value, as the unsigned number that the loop takes it for: `-a` is `a` when
`a` is the least `int`. -/
theorem toNat_abs (a : Word) : (if a.slt 0#32 then -a else a).toNat = a.toInt.natAbs := by
  have hlt := a.isLt
  have htoInt := BitVec.toInt_eq_toNat_cond a
  rw [slt_zero]
  by_cases hneg : a.toInt < 0
  · rw [if_pos (decide_eq_true hneg), BitVec.toNat_neg]
    split at htoInt <;> omega
  · rw [if_neg (by simpa using hneg)]
    split at htoInt <;> omega

theorem natAbs_toInt_le (a : Word) : a.toInt.natAbs ≤ 2 ^ 31 := by
  have hge := a.le_toInt
  have hlt := a.toInt_lt
  omega

theorem mul_eq_natAbs (x y : ℤ) :
    x * y = if (decide (x < 0) != decide (y < 0)) then -((x.natAbs * y.natAbs : ℕ) : ℤ)
      else ((x.natAbs * y.natAbs : ℕ) : ℤ) := by
  rw [← Int.natAbs_mul]
  rcases lt_or_ge x 0 with hx | hx <;> rcases lt_or_ge y 0 with hy | hy
  · have hsign := mul_nonneg_of_nonpos_of_nonpos hx.le hy.le
    simp [hx, hy, abs_of_nonneg hsign]
  · have hsign := mul_nonpos_of_nonpos_of_nonneg hx.le hy
    simp [hx, hy.not_gt, abs_of_nonpos hsign]
  · have hsign := mul_nonpos_of_nonneg_of_nonpos hx hy.le
    simp [hx.not_gt, hy, abs_of_nonpos hsign]
  · have hsign := mul_nonneg hx hy
    simp [hx.not_gt, hy.not_gt, abs_of_nonneg hsign]

/-- Up to `2 ^ 62` a number of two words and its negation are not cut off. -/
theorem toInt_ite_neg {product : BitVec 64} (hle : product.toNat ≤ 2 ^ 62) (c : Bool) :
    (if c then -product else product).toInt =
      if c then -(product.toNat : ℤ) else (product.toNat : ℤ) := by
  have htoInt : product.toInt = product.toNat :=
    BitVec.toInt_eq_toNat_of_lt (by omega)
  cases c with
  | false => exact htoInt
  | true =>
      have hne : product ≠ BitVec.intMin 64 := by
        rintro rfl
        exact absurd hle (by decide)
      exact (BitVec.toInt_neg_of_ne_intMin hne).trans (congrArg _ htoInt)

/-- `Mult` of two factors that are not 0. -/
theorem doubleWord_mult {a b : Word} (ha : a ≠ 0#32) (hb : b ≠ 0#32) (signedArith : Bool) :
    doubleWord (mult a b signedArith) =
      let product := doubleWord (multLoop 32 (if signedArith && a.slt 0#32 then -a else a)
        (if signedArith && b.slt 0#32 then -b else b) 0#32 0#32 0#32)
      if (signedArith && a.slt 0#32) != (signedArith && b.slt 0#32) then -product
      else product := by
  unfold mult
  rw [if_neg (not_or.mpr ⟨ha, hb⟩)]
  dsimp only
  split
  · exact neg_append _ _ (by decide)
  · rfl

theorem mult_zero {a b : Word} (h : a = 0#32 ∨ b = 0#32) (signedArith : Bool) :
    doubleWord (mult a b signedArith) = 0#64 := by
  rw [mult, if_pos h]
  rfl

theorem toInt_mult (a b : Word) : (doubleWord (mult a b true)).toInt = a.toInt * b.toInt := by
  by_cases hzero : a = 0#32 ∨ b = 0#32
  · rw [mult_zero hzero]
    rcases hzero with rfl | rfl <;> simp
  · obtain ⟨ha, hb⟩ := not_or.mp hzero
    have hproduct := toNat_multLoop (if a.slt 0#32 then -a else a) (if b.slt 0#32 then -b else b)
    rw [toNat_abs, toNat_abs] at hproduct
    have hle : a.toInt.natAbs * b.toInt.natAbs ≤ 2 ^ 62 :=
      (Nat.mul_le_mul (natAbs_toInt_le a) (natAbs_toInt_le b)).trans (by decide)
    rw [doubleWord_mult ha hb]
    simp only [Bool.true_and]
    rw [toInt_ite_neg (hproduct ▸ hle), hproduct, slt_zero, slt_zero, ← mul_eq_natAbs]

theorem toNat_mult (a b : Word) : (doubleWord (mult a b false)).toNat = a.toNat * b.toNat := by
  by_cases hzero : a = 0#32 ∨ b = 0#32
  · rw [mult_zero hzero]
    rcases hzero with rfl | rfl <;> simp
  · obtain ⟨ha, hb⟩ := not_or.mp hzero
    rw [doubleWord_mult ha hb]
    exact toNat_multLoop a b

/-- What `Mult` leaves in `hi` and `lo`. -/
structure MultExact (a b : Word) : Prop where
  signed : (doubleWord (mult a b true)).toInt = a.toInt * b.toInt
  unsigned : (doubleWord (mult a b false)).toNat = a.toNat * b.toNat

theorem mult_exact (a b : Word) : MultExact a b :=
  ⟨toInt_mult a b, toNat_mult a b⟩

/-! ### The instructions -/

namespace Machine

open Tracking

variable {m m' : Machine} {raw : Word} {l : Locals}

/-- A register that is neither written at the end of an instruction nor by its delayed load. -/
theorem readRegister_advance {num : Reg} (h : m.advance l = .ok m')
    (hnum : num ∉ [0, prevPCReg, pcReg, nextPCReg, loadReg, loadValueReg])
    (hload : num.val ≠ (m.readRegister loadReg).toNat) :
    m'.readRegister num = m.readRegister num := by
  obtain ⟨m₁, hdelayed, rfl⟩ := advance_eq_ok h
  obtain ⟨-, -, hregister⟩ := delayedLoad_spec hdelayed
  simp only [List.mem_cons, List.not_mem_nil, or_false, not_or] at hnum
  obtain ⟨hzero, hprev, hpc, hnext, hreg, hvalue⟩ := hnum
  simp only [readRegister_writeRegister, if_neg hprev, if_neg hpc, if_neg hnext, hregister,
    if_neg hzero, if_neg hreg, if_neg hvalue, if_neg hload]

/-- `registers[HiReg]` and `registers[LoReg]` as one number. -/
def hiLo (m : Machine) : BitVec 64 :=
  doubleWord (m.readRegister hiReg, m.readRegister loReg)

theorem multiply_decode (signedArith : Bool) :
    m.multiply (.decode raw) l signedArith =
      let result := mult (m.general (R2000.rs raw)) (m.general (R2000.rt raw)) signedArith
      .ok ((m.writeRegister hiReg result.1).writeRegister loReg result.2, l) := by
  rw [multiply, register_decode_rs, ok_bind, register_decode_rt, ok_bind]
  rfl

/-- The registers after MULT and MULTU. -/
structure ProductDone (m : Machine) (raw : Word) (m' : Machine) : Prop where
  signed : (Instruction.decode raw).opCode = .mult →
    m'.hiLo.toInt = (m.general (R2000.rs raw)).toInt * (m.general (R2000.rt raw)).toInt
  unsigned : (Instruction.decode raw).opCode = .multu →
    m'.hiLo.toNat = (m.general (R2000.rs raw)).toNat * (m.general (R2000.rt raw)).toNat
  others : ∀ n, m'.general n =
    if n = 0#5 then 0#32
    else if m.readRegister loadReg = n.setWidth 32 then m.readRegister loadValueReg
    else m.general n

theorem execute_multiply (hop : (Instruction.decode raw).opCode ∈ [.mult, .multu]) :
    ∃ result, m.execute (.decode raw) l =
        .ok ((m.writeRegister hiReg result.1).writeRegister loReg result.2, l) ∧
      ((Instruction.decode raw).opCode = .mult → (doubleWord result).toInt =
        (m.general (R2000.rs raw)).toInt * (m.general (R2000.rt raw)).toInt) ∧
      ((Instruction.decode raw).opCode = .multu → (doubleWord result).toNat =
        (m.general (R2000.rs raw)).toNat * (m.general (R2000.rt raw)).toNat) := by
  have hmultiply := @multiply_decode m raw l
  unfold execute
  generalize (Instruction.decode raw).opCode = opCode at hop hmultiply ⊢
  cases opCode with
  | mult =>
      refine ⟨_, hmultiply true, fun _ => toInt_mult _ _, fun hother => ?_⟩
      exact absurd hother (by decide)
  | multu =>
      refine ⟨_, hmultiply false, fun hother => ?_, fun _ => toNat_mult _ _⟩
      exact absurd hother (by decide)
  | _ => exact absurd hop (by decide)

theorem oneInstruction_multiply {m₁ : Machine}
    (hfetch : m.readMemOrRaise (m.readRegister pcReg) 4 = .ok (raw, m₁))
    (hop : (Instruction.decode raw).opCode ∈ [.mult, .multu])
    (hload : (m.readRegister loadReg).toNat < 32) :
    ∃ m', m.oneInstruction = .ok m' ∧ ProductDone m raw m' := by
  have hread : ∀ num, m₁.readRegister num = m.readRegister num :=
    fun num => congrFun (sameState_readMemOrRaise hfetch).registers num
  have hgeneral : ∀ n, m₁.general n = m.general n := fun n => hread _
  obtain ⟨result, hexecute, hsigned, hunsigned⟩ :=
    execute_multiply (m := m₁) (l := m₁.startLocals) hop
  rw [hgeneral, hgeneral] at hsigned hunsigned
  generalize hdone :
    (m₁.writeRegister hiReg result.1).writeRegister loReg result.2 = m₂ at hexecute
  have hwritten : ∀ num, m₂.readRegister num =
      if num = loReg then result.2 else if num = hiReg then result.1 else m.readRegister num := by
    intro num
    rw [← hdone, readRegister_writeRegister, readRegister_writeRegister, hread]
  have hpending : m₂.readRegister loadReg = m.readRegister loadReg := hwritten loadReg
  obtain ⟨m', hadvance⟩ := advance_exists (m := m₂) m₁.startLocals
    (hpending ▸ hload.trans (by decide))
  have hkept : ∀ num ∈ [hiReg, loReg], m'.readRegister num = m₂.readRegister num := by
    intro num hnum
    have hge : 32 ≤ num.val ∧ num ∉ [0, prevPCReg, pcReg, nextPCReg, loadReg, loadValueReg] := by
      revert num
      decide
    exact readRegister_advance hadvance hge.2 (by rw [hpending]; omega)
  have hproduct : m'.hiLo = doubleWord result := by
    rw [hiLo, hkept hiReg (by decide), hkept loReg (by decide), hwritten, hwritten]
    rfl
  refine ⟨m', ?_, ⟨fun h => hproduct ▸ hsigned h, fun h => hproduct ▸ hunsigned h, fun n => ?_⟩⟩
  · rw [oneInstruction_fetched hfetch, hexecute]
    exact hadvance
  · have hn : m₂.general n = m.general n := by
      rw [general, hwritten, if_neg (general_ne (by decide)), if_neg (general_ne (by decide))]
      rfl
    rw [general_advance hadvance, hpending, hwritten loadValueReg, hn]
    rfl

end Machine

end Nachos
