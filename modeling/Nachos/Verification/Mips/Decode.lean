import Nachos.Model.Mips

/-! # Instruction words

The fields of an instruction word in the notation of the R2000 manual, and what `Decode`
makes of them. -/

namespace Nachos

/-! ## The fields of the manual -/

namespace R2000

def rs (word : Word) : BitVec 5 := word.extractLsb' 21 5
def rt (word : Word) : BitVec 5 := word.extractLsb' 16 5
def rd (word : Word) : BitVec 5 := word.extractLsb' 11 5
def shamt (word : Word) : BitVec 5 := word.extractLsb' 6 5
def immediate (word : Word) : BitVec 16 := word.extractLsb' 0 16

end R2000

namespace Instruction

/-! ## Masks -/

theorem toNat_and_mask (x : Word) (n : ℕ) (hn : n < 32) :
    (x &&& BitVec.ofNat 32 (2 ^ n - 1)).toNat = x.toNat % 2 ^ n := by
  have hlt : 2 ^ n - 1 < 2 ^ 32 := by
    have hpow : 2 ^ n < 2 ^ 32 := Nat.pow_lt_pow_right (by decide) hn
    omega
  rw [BitVec.toNat_and, BitVec.toNat_ofNat, Nat.mod_eq_of_lt hlt,
    Nat.and_two_pow_sub_one_eq_mod]

/-- `(value >> start) & 0x1f` is a field of five bits. -/
theorem toNat_field (value : Word) (start : ℕ) :
    ((value >>> start) &&& 0x1f#32).toNat = (value.extractLsb' start 5).toNat := by
  rw [show (0x1f#32 : Word) = BitVec.ofNat 32 (2 ^ 5 - 1) from rfl,
    toNat_and_mask _ 5 (by decide), BitVec.toNat_ushiftRight, BitVec.extractLsb'_toNat]

theorem and_signBit_ne_zero (x : Word) (k : ℕ) :
    x &&& BitVec.twoPow 32 k ≠ 0#32 ↔ x.getLsbD k = true ∧ k < 32 := by
  rw [BitVec.and_twoPow]
  by_cases hbit : x.getLsbD k = true
  · have hk : k < 32 := BitVec.lt_of_getLsbD hbit
    have hne : BitVec.twoPow 32 k ≠ 0#32 := by
      intro hzero
      have htoNat := congrArg BitVec.toNat hzero
      rw [BitVec.toNat_twoPow_of_lt hk] at htoNat
      simp at htoNat
    simp [hbit, hk, hne]
  · simp [hbit]

/-- The immediate operand is sign-extended. -/
theorem decodeExtra_ifmt (value : Word) :
    decodeExtra value .ifmt = (R2000.immediate value).signExtend 32 := by
  have hmask : (value &&& 0xffff#32).toNat = value.toNat % 2 ^ 16 :=
    toNat_and_mask value 16 (by decide)
  have himm : (R2000.immediate value).toNat = value.toNat % 2 ^ 16 := by
    rw [R2000.immediate, BitVec.extractLsb'_toNat, Nat.shiftRight_zero]
  have hsign : (value &&& 0xffff#32) &&& 0x8000#32 ≠ 0#32 ↔
      (R2000.immediate value).msb = true := by
    rw [show (0x8000#32 : Word) = BitVec.twoPow 32 15 from rfl, and_signBit_ne_zero]
    simp [BitVec.msb_eq_getLsbD_last, R2000.immediate]
  apply BitVec.eq_of_toNat_eq
  rw [BitVec.toNat_signExtend, BitVec.toNat_setWidth, himm]
  simp only [decodeExtra]
  by_cases hneg : (R2000.immediate value).msb = true
  · rw [if_pos (hsign.mpr hneg), if_pos hneg, BitVec.toNat_or, hmask, Nat.or_comm]
    have hor := Nat.shiftLeft_add_eq_or_of_lt
      (Nat.mod_lt value.toNat (by decide : 2 ^ 16 > 0)) 0xffff
    rw [show (0xffff0000#32 : Word).toNat = 0xffff <<< 16 from rfl, ← hor]
    omega
  · rw [if_neg (fun h => hneg (hsign.mp h)), if_neg hneg, hmask]
    omega

theorem decodeExtra_rfmt (value : Word) :
    (decodeExtra value .rfmt).toNat = (R2000.shamt value).toNat :=
  toNat_field value 6

/-! ## The fields of an instruction -/

/-- The register numbers of an instruction name general registers. -/
structure Fields (i : Instruction) : Prop where
  rs : i.rs < 32
  rt : i.rt < 32
  rd : i.rd < 32

def Fields.rsReg {i : Instruction} (h : i.Fields) : Reg := ⟨i.rs, h.rs.trans (by decide)⟩
def Fields.rtReg {i : Instruction} (h : i.Fields) : Reg := ⟨i.rt, h.rt.trans (by decide)⟩
def Fields.rdReg {i : Instruction} (h : i.Fields) : Reg := ⟨i.rd, h.rd.trans (by decide)⟩

@[simp] theorem decode_rs (value : Word) : (decode value).rs = (R2000.rs value).toNat :=
  toNat_field value 21

@[simp] theorem decode_rt (value : Word) : (decode value).rt = (R2000.rt value).toNat :=
  toNat_field value 16

@[simp] theorem decode_rd (value : Word) : (decode value).rd = (R2000.rd value).toNat :=
  toNat_field value 11

theorem decode_fields (value : Word) : (decode value).Fields where
  rs := decode_rs value ▸ (R2000.rs value).isLt
  rt := decode_rt value ▸ (R2000.rt value).isLt
  rd := decode_rd value ▸ (R2000.rd value).isLt

/-! ## The opcode -/

end Instruction

/-- `OneInstruction` has a case for the opcode before its default. -/
def OpCode.HasCase (opCode : OpCode) : Prop :=
  opCode ∉ [OpCode.rfe, .special, .bcond]

instance (opCode : OpCode) : Decidable opCode.HasCase :=
  inferInstanceAs (Decidable (_ ∉ _))

namespace Instruction

theorem opTable_hasCase : ∀ n : Fin 64,
    (opTable n).opCode = .special ∨ (opTable n).opCode = .bcond ∨ (opTable n).opCode.HasCase := by
  decide

theorem specialTable_hasCase : ∀ n : Fin 64, (specialTable n).HasCase := by
  decide

/-- The opcodes that `Decode` gives a BCOND. -/
def bcondOpCodes : List OpCode :=
  [.bltz, .bgez, .bltzal, .bgezal, .unimp]

theorem decodeOpCode_bcond (value : Word) : decodeOpCode value .bcond ∈ bcondOpCodes := by
  simp only [decodeOpCode]
  split_ifs <;> decide

theorem decodeOpCode_of_hasCase {opCode : OpCode} (h : opCode.HasCase) (value : Word) :
    decodeOpCode value opCode = opCode := by
  unfold decodeOpCode
  split
  · exact absurd h (by decide)
  · exact absurd h (by decide)
  · rfl

/-- Where the opcode of a word comes from. -/
theorem decode_opCode_cases (value : Word) :
    ((opTable (row (value >>> 26))).opCode = .special ∧
        (decode value).opCode = specialTable (row value)) ∨
      (decode value).opCode ∈ bcondOpCodes ∨
      ((decode value).opCode = (opTable (row (value >>> 26))).opCode ∧
        (decode value).opCode.HasCase) := by
  have hopCode : (decode value).opCode =
      decodeOpCode value (opTable (row (value >>> 26))).opCode := rfl
  rcases opTable_hasCase (row (value >>> 26)) with hspecial | hbcond | hcase
  · rw [hspecial] at hopCode
    exact .inl ⟨hspecial, hopCode⟩
  · rw [hbcond] at hopCode
    exact .inr (.inl (hopCode ▸ decodeOpCode_bcond value))
  · rw [decodeOpCode_of_hasCase hcase] at hopCode
    exact .inr (.inr ⟨hopCode, hopCode ▸ hcase⟩)

theorem decode_opCode_hasCase (value : Word) : (decode value).opCode.HasCase := by
  rcases decode_opCode_cases value with ⟨-, hopCode⟩ | hbcond | ⟨-, hcase⟩
  · rw [hopCode]
    exact specialTable_hasCase (row value)
  · have hall : ∀ opCode ∈ bcondOpCodes, opCode.HasCase := by decide
    exact hall _ hbcond
  · exact hcase

/-! ## The format of an opcode -/

/-- The instructions of I-format that compute, and the unaligned loads and stores. -/
def immediateOpCodes : List OpCode :=
  [.addiu, .andi, .lui, .ori, .slti, .sltiu, .xori, .lwl, .lwr, .swl, .swr]

/-- The instructions of R-format that compute and cannot overflow. -/
def registerOpCodes : List OpCode :=
  [.addu, .and, .nor, .or, .sll, .sllv, .slt, .sltu, .sra, .srav, .srl, .srlv, .subu, .xor]

theorem opTable_format : ∀ n : Fin 64,
    ((opTable n).opCode ∈ immediateOpCodes → (opTable n).format = .ifmt) ∧
      ((opTable n).opCode = .special → (opTable n).format = .rfmt) ∧
      (opTable n).opCode ∉ registerOpCodes := by
  decide

theorem specialTable_not_immediate : ∀ n : Fin 64, specialTable n ∉ immediateOpCodes := by
  decide

theorem decode_extra_immediate {value : Word} (h : (decode value).opCode ∈ immediateOpCodes) :
    (decode value).extra = (R2000.immediate value).signExtend 32 := by
  rcases decode_opCode_cases value with ⟨-, hopCode⟩ | hbcond | ⟨hopCode, -⟩
  · rw [hopCode] at h
    exact absurd h (specialTable_not_immediate _)
  · have hnone : ∀ opCode ∈ bcondOpCodes, opCode ∉ immediateOpCodes := by decide
    exact absurd h (hnone _ hbcond)
  · rw [hopCode] at h
    show decodeExtra value (opTable (row (value >>> 26))).format = _
    rw [(opTable_format _).1 h, decodeExtra_ifmt]

theorem decode_extra_register {value : Word} (h : (decode value).opCode ∈ registerOpCodes) :
    (decode value).extra.toNat = (R2000.shamt value).toNat := by
  rcases decode_opCode_cases value with ⟨hspecial, -⟩ | hbcond | ⟨hopCode, -⟩
  · show (decodeExtra value (opTable (row (value >>> 26))).format).toNat = _
    rw [(opTable_format _).2.1 hspecial, decodeExtra_rfmt]
  · have hnone : ∀ opCode ∈ bcondOpCodes, opCode ∉ registerOpCodes := by decide
    exact absurd h (hnone _ hbcond)
  · rw [hopCode] at h
    exact absurd h (opTable_format _).2.2

end Instruction

end Nachos
