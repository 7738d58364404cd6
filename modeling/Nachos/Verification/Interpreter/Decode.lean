import Nachos.Model.Interpreter
import Nachos.Verification.Mips.Decode

/-! # The switches of the interpreter and the tables of the machine -/

namespace Nachos.Interpreter

variable {raw : Word}

/-! ## Fields -/

/-- A field does not reach the copies of the sign bit. -/
theorem sshiftRight_and (x mask : Word) {n k : ℕ} (hmask : mask.toNat < 2 ^ k)
    (hk : n + k ≤ 32) : x.sshiftRight n &&& mask = (x >>> n) &&& mask := by
  apply BitVec.eq_of_getLsbD_eq
  intro i hi
  rw [BitVec.getLsbD_and, BitVec.getLsbD_and, BitVec.getLsbD_sshiftRight,
    BitVec.getLsbD_ushiftRight]
  by_cases hik : i < k
  · have hin : n + i < 32 := by omega
    simp [show ¬ 32 ≤ i by omega, hin]
  · have hbit : mask.getLsbD i = false := by
      rw [BitVec.getLsbD, Nat.testBit_lt_two_pow]
      exact hmask.trans_le (Nat.pow_le_pow_right (by decide) (by omega))
    rw [hbit, Bool.and_false, Bool.and_false]

theorem field_eq (i : Word) {n : ℕ} (hn : n + 5 ≤ 32) : field i n = i.extractLsb' n 5 := by
  apply BitVec.eq_of_toNat_eq
  rw [field, sshiftRight_and i 0x1f#32 (k := 5) (by decide) hn, BitVec.toNat_setWidth,
    Instruction.toNat_field]
  exact Nat.mod_eq_of_lt (i.extractLsb' n 5).isLt

theorem rs_eq (i : Word) : rs i = R2000.rs i := field_eq i (by decide)
theorem rt_eq (i : Word) : rt i = R2000.rt i := field_eq i (by decide)
theorem rd_eq (i : Word) : rd i = R2000.rd i := field_eq i (by decide)
theorem shamt_eq (i : Word) : shamt i = R2000.shamt i := field_eq i (by decide)

/-- Masks that set or clear what lies above the sign bit `k` extend a number of `k + 1` bits. -/
theorem extended (x : Word) {high low : Word} (k : ℕ) (hk : k < 32)
    (hhigh : ∀ i < 32, i ≠ k → high.getLsbD i = decide (k < i))
    (hlow : ∀ i < 32, i ≠ k → low.getLsbD i = decide (i < k)) :
    (if x &&& BitVec.twoPow 32 k ≠ 0#32 then x ||| high else x &&& low) =
      (x.setWidth (k + 1)).signExtend 32 := by
  have hmsb : (x.setWidth (k + 1)).msb = x.getLsbD k := by
    simp [BitVec.msb_eq_getLsbD_last]
  have hsign : x &&& BitVec.twoPow 32 k ≠ 0#32 ↔ x.getLsbD k = true := by
    rw [Instruction.and_signBit_ne_zero, and_iff_left hk]
  apply BitVec.eq_of_getLsbD_eq
  intro i hi
  rw [BitVec.getLsbD_signExtend, hmsb, BitVec.getLsbD_setWidth]
  by_cases hneg : x.getLsbD k = true
  · rw [if_pos (hsign.mpr hneg), BitVec.getLsbD_or, hneg]
    by_cases hik : i = k
    · subst hik
      simp [hneg, hi]
    · rw [hhigh i hi hik]
      by_cases hlt : i < k + 1
      · simp [hi, hlt, show ¬ k < i by omega]
      · simp [hi, hlt, show k < i by omega]
  · rw [if_neg (mt hsign.mp hneg), BitVec.getLsbD_and]
    rw [Bool.not_eq_true] at hneg
    by_cases hik : i = k
    · subst hik
      simp [hneg]
    · rw [hlow i hi hik, hneg]
      by_cases hlt : i < k + 1
      · simp [hi, hlt, show i < k by omega]
      · simp [hi, hlt, show ¬ i < k by omega]

theorem immediate_eq (i : Word) : R2000.immediate i = i.setWidth 16 := by
  ext k hk
  simp [R2000.immediate, BitVec.getElem_eq_testBit_toNat]

theorem immed_eq (i : Word) : immed i = (R2000.immediate i).signExtend 32 := by
  rw [immediate_eq]
  exact extended i 15 (by decide) (by decide) (by decide)

/-! ## The switches -/

/-- The opcodes for which the interpreter has a case that goes on. -/
def handled : List OpCode :=
  [.add, .addi, .addiu, .addu, .and, .andi, .beq, .bgez, .bgezal, .bgtz, .blez, .bltz, .bltzal,
   .bne, .div, .divu, .j, .jal, .jalr, .jr, .lb, .lbu, .lh, .lhu, .lui, .lw, .lwl, .lwr, .mfhi,
   .mflo, .mthi, .mtlo, .mult, .multu, .nor, .or, .ori, .sb, .sh, .sll, .sllv, .slt, .slti,
   .sltiu, .sltu, .sra, .srav, .srl, .srlv, .sub, .subu, .sw, .xor, .xori]

theorem specialCase_eq : ∀ n : Fin 64, specialTable n ∈ handled →
    specialCase n = .ok (specialTable n) := by
  decide

theorem normalCase_eq : ∀ n : Fin 64, (opTable n).opCode ∈ handled →
    n.val ≠ 0 ∧ n.val ≠ 1 ∧ normalCase n = .ok (opTable n).opCode := by
  decide

theorem opTable_special : ∀ n : Fin 64, (opTable n).opCode = .special → n.val = 0 := by
  decide

theorem opTable_bcond : ∀ n : Fin 64, (opTable n).opCode = .bcond → n.val = 1 := by
  decide

/-- The number in the outer switch is a row of `opTable`. -/
theorem outer_eq (raw : Word) : (raw.sshiftRight 26 &&& 0x3f#32).toNat = row (raw >>> 26) := by
  rw [sshiftRight_and raw 0x3f#32 (k := 6) (by decide) (by decide)]
  rfl

/-- The mask of `Decode` leaves the field `rt` where it is. -/
theorem and_rtMask (raw : Word) :
    raw &&& 0x1f0000#32 = (R2000.rt raw).setWidth 32 <<< 16 := by
  apply BitVec.eq_of_getLsbD_eq
  intro i hi
  simp only [BitVec.getLsbD_and, BitVec.getLsbD_shiftLeft, BitVec.getLsbD_setWidth, R2000.rt,
    BitVec.getLsbD_extractLsb']
  interval_cases i <;> simp

theorem bcondCase_eq (raw : Word)
    (h : Instruction.decodeOpCode raw .bcond ∈ handled) :
    bcondCase (rt raw).toNat = .ok (Instruction.decodeOpCode raw .bcond) := by
  rw [rt_eq]
  rw [Instruction.decodeOpCode, and_rtMask] at h ⊢
  generalize R2000.rt raw = n at h ⊢
  revert n
  decide

/-- On the instructions that both know the two decode alike. -/
theorem dispatch_eq (h : (Instruction.decode raw).opCode ∈ handled) :
    dispatch raw = .ok (Instruction.decode raw).opCode := by
  have hopCode : (Instruction.decode raw).opCode =
      Instruction.decodeOpCode raw (opTable (row (raw >>> 26))).opCode := rfl
  rw [dispatch, outer_eq]
  rw [hopCode] at h ⊢
  rcases Instruction.opTable_hasCase (row (raw >>> 26)) with hspecial | hbcond | hcase
  · rw [hspecial] at h ⊢
    rw [opTable_special _ hspecial]
    exact specialCase_eq _ h
  · rw [hbcond] at h ⊢
    rw [opTable_bcond _ hbcond]
    exact bcondCase_eq raw h
  · rw [Instruction.decodeOpCode_of_hasCase hcase] at h ⊢
    obtain ⟨hzero, hone, hnormal⟩ := normalCase_eq _ h
    rw [← hnormal]
    split
    · exact absurd ‹_› hzero
    · exact absurd ‹_› hone
    · rfl

end Nachos.Interpreter
