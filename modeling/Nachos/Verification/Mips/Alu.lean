import Nachos.Verification.Mips.Exceptions

/-! # The arithmetic instructions

The results of the R2000 manual against what the switch of `OneInstruction` computes. OR
takes its first operand twice, and SRL and SRLV shift in copies of the sign bit. -/

namespace Nachos

/-! ## The manual -/

namespace R2000

def aluOpCodes : List OpCode :=
  [.addu, .addiu, .subu, .and, .andi, .or, .ori, .xor, .xori, .nor, .lui, .slt, .slti, .sltu,
   .sltiu, .sll, .sllv, .srl, .srlv, .sra, .srav]

/-- The result of an instruction on the values of its two registers. -/
def result (word rs rt : Word) : OpCode → Option Word
  | .addu => some (rs + rt)
  | .addiu => some (rs + (immediate word).signExtend 32)
  | .subu => some (rs - rt)
  | .and => some (rs &&& rt)
  | .andi => some (rs &&& (immediate word).setWidth 32)
  | .or => some (rs ||| rt)
  | .ori => some (rs ||| (immediate word).setWidth 32)
  | .xor => some (rs ^^^ rt)
  | .xori => some (rs ^^^ (immediate word).setWidth 32)
  | .nor => some (~~~(rs ||| rt))
  | .lui => some ((immediate word).setWidth 32 <<< 16)
  | .slt => some (if rs.toInt < rt.toInt then 1#32 else 0#32)
  | .slti => some (if rs.toInt < ((immediate word).signExtend 32).toInt then 1#32 else 0#32)
  | .sltu => some (if rs.toNat < rt.toNat then 1#32 else 0#32)
  | .sltiu => some (if rs.toNat < ((immediate word).signExtend 32).toNat then 1#32 else 0#32)
  | .sll => some (rt <<< (shamt word).toNat)
  | .sllv => some (rt <<< (rs.toNat % 32))
  | .srl => some (rt >>> (shamt word).toNat)
  | .srlv => some (rt >>> (rs.toNat % 32))
  | .sra => some (rt.sshiftRight (shamt word).toNat)
  | .srav => some (rt.sshiftRight (rs.toNat % 32))
  | _ => none

/-- `rt` for the immediate forms, `rd` for the register forms. -/
def destination (word : Word) (opCode : OpCode) : BitVec 5 :=
  if opCode ∈ Instruction.immediateOpCodes then rt word else rd word

end R2000

namespace Machine

open Tracking

variable {m m' : Machine} {l : Locals} {raw : Word}

/-! ## The operands -/

theorem signExtend_and_mask (x : BitVec 16) :
    x.signExtend 32 &&& 0xffff#32 = x.setWidth 32 := by
  apply BitVec.eq_of_toNat_eq
  rw [show (0xffff#32 : Word) = BitVec.ofNat 32 (2 ^ 16 - 1) from rfl,
    Instruction.toNat_and_mask _ 16 (by decide), BitVec.toNat_signExtend]
  have hlt := x.isLt
  simp only [BitVec.toNat_setWidth]
  split <;> omega

theorem signExtend_shiftLeft (x : BitVec 16) :
    x.signExtend 32 <<< 16 = x.setWidth 32 <<< 16 := by
  apply BitVec.eq_of_toNat_eq
  simp only [BitVec.toNat_shiftLeft, BitVec.toNat_signExtend, BitVec.toNat_setWidth,
    Nat.shiftLeft_eq]
  split <;> omega

theorem shiftAmount_eq (x : Word) : shiftAmount x = x.toNat % 32 :=
  Instruction.toNat_and_mask x 5 (by decide)

theorem flag_slt (x y : Word) : flag (x.slt y) = if x.toInt < y.toInt then 1#32 else 0#32 := by
  simp [flag, BitVec.slt_eq_decide]

theorem flag_ult (x y : Word) : flag (x.ult y) = if x.toNat < y.toNat then 1#32 else 0#32 := by
  simp [flag, BitVec.ult_eq_decide]

/-- The two right shifts differ when the sign bit is set and moves. -/
theorem sshiftRight_eq_ushiftRight_iff (x : Word) (n : ℕ) :
    x >>> n = x.sshiftRight n ↔ x.msb = false ∨ n = 0 := by
  constructor
  · intro h
    have hmsb := congrArg BitVec.msb h
    rw [BitVec.msb_ushiftRight, BitVec.msb_sshiftRight] at hmsb
    cases hx : x.msb with
    | false => exact .inl rfl
    | true =>
        rw [hx] at hmsb
        simpa using hmsb
  · rintro (hmsb | rfl)
    · rw [BitVec.sshiftRight_eq_of_msb_false hmsb]
    · simp

theorem or_eq_left_iff (x y : Word) : x ||| y = x ↔ y &&& ~~~x = 0#32 := by
  constructor
  · intro h
    apply BitVec.eq_of_getLsbD_eq
    intro k hk
    have hbit := congrArg (BitVec.getLsbD · k) h
    simp only [BitVec.getLsbD_or] at hbit
    cases hy : y.getLsbD k <;> simp_all
  · intro h
    apply BitVec.eq_of_getLsbD_eq
    intro k hk
    have hbit := congrArg (BitVec.getLsbD · k) h
    simp only [BitVec.getLsbD_and, BitVec.getLsbD_not] at hbit
    cases hy : y.getLsbD k <;> simp_all

/-! ## The switch -/

/-- When the switch computes the result of the manual. -/
def AluAgrees (m : Machine) (raw : Word) : Prop :=
  match (Instruction.decode raw).opCode with
  | .or => m.general (R2000.rt raw) &&& ~~~m.general (R2000.rs raw) = 0#32
  | .srl => (m.general (R2000.rt raw)).msb = false ∨ R2000.shamt raw = 0#5
  | .srlv =>
      (m.general (R2000.rt raw)).msb = false ∨ (m.general (R2000.rs raw)).toNat % 32 = 0
  | _ => True

/-- The register that an arithmetic instruction writes. -/
def destinationOf (raw : Word) : BitVec 5 :=
  R2000.destination raw (Instruction.decode raw).opCode

def destinationReg (raw : Word) : Reg :=
  ⟨(destinationOf raw).toNat, (destinationOf raw).isLt.trans (by decide)⟩

theorem setRd_decode (hop : (Instruction.decode raw).opCode ∉ Instruction.immediateOpCodes)
    (f : Word → Word → Word) :
    m.setRd (.decode raw) l f = .ok (m.writeRegister (destinationReg raw)
      (f (m.general (R2000.rs raw)) (m.general (R2000.rt raw))), l) := by
  have hrd : (Instruction.decode_fields raw).rdReg = destinationReg raw := by
    apply Fin.ext
    simp [destinationReg, destinationOf, R2000.destination, hop, Instruction.Fields.rdReg]
  rw [setRd, register_decode_rs, ok_bind, register_decode_rt, ok_bind,
    setRegister_rd m (Instruction.decode_fields raw), ok_bind, hrd]
  rfl

theorem setRt_decode (hop : (Instruction.decode raw).opCode ∈ Instruction.immediateOpCodes)
    (f : Word → Word → Word) :
    m.setRt (.decode raw) l f = .ok (m.writeRegister (destinationReg raw)
      (f (m.general (R2000.rs raw)) ((R2000.immediate raw).signExtend 32)), l) := by
  have hrt : (Instruction.decode_fields raw).rtReg = destinationReg raw := by
    apply Fin.ext
    simp [destinationReg, destinationOf, R2000.destination, hop, Instruction.Fields.rtReg]
  rw [setRt, register_decode_rs, ok_bind, Instruction.decode_extra_immediate hop,
    setRegister_eq m (Instruction.decode_fields raw).rt, ok_bind, ← hrt]
  rfl

/-- An arithmetic instruction writes its destination; the value is that of the manual
exactly when `AluAgrees` says so. -/
theorem execute_alu (hop : (Instruction.decode raw).opCode ∈ R2000.aluOpCodes) :
    ∃ value, m.execute (.decode raw) l = .ok (m.writeRegister (destinationReg raw) value, l) ∧
      (R2000.result raw (m.general (R2000.rs raw)) (m.general (R2000.rt raw))
        (Instruction.decode raw).opCode = some value ↔ m.AluAgrees raw) := by
  have hshamt := @Instruction.decode_extra_register raw
  have hrd := @setRd_decode m l raw
  have hrt := @setRt_decode m l raw
  unfold execute AluAgrees
  generalize (Instruction.decode raw).opCode = opCode at hop hshamt hrd hrt ⊢
  cases opCode with
  | addu | subu | and | xor | nor => exact ⟨_, hrd (by decide) _, by simp [R2000.result]⟩
  | addiu => exact ⟨_, hrt (by decide) _, by simp [R2000.result]⟩
  | andi | ori | xori =>
      exact ⟨_, hrt (by decide) _, by simp [R2000.result, signExtend_and_mask]⟩
  | lui => exact ⟨_, hrt (by decide) _, by simp [R2000.result, signExtend_shiftLeft]⟩
  | slt => exact ⟨_, hrd (by decide) _, by simp [R2000.result, flag_slt]⟩
  | sltu => exact ⟨_, hrd (by decide) _, by simp [R2000.result, flag_ult]⟩
  | slti => exact ⟨_, hrt (by decide) _, by simp [R2000.result, flag_slt]⟩
  | sltiu => exact ⟨_, hrt (by decide) _, by simp [R2000.result, flag_ult]⟩
  | sll | sra => exact ⟨_, hrd (by decide) _, by simp [R2000.result, hshamt (by decide)]⟩
  | sllv | srav => exact ⟨_, hrd (by decide) _, by simp [R2000.result, shiftAmount_eq]⟩
  | or =>
      refine ⟨_, hrd (by decide) _, ?_⟩
      simp only [R2000.result, Option.some.injEq, BitVec.or_self]
      exact or_eq_left_iff _ _
  | srl =>
      refine ⟨_, hrd (by decide) _, ?_⟩
      simp only [R2000.result, Option.some.injEq, hshamt (by decide)]
      rw [sshiftRight_eq_ushiftRight_iff, ← BitVec.toNat_inj]
      rfl
  | srlv =>
      refine ⟨_, hrd (by decide) _, ?_⟩
      simp only [R2000.result, Option.some.injEq, shiftAmount_eq]
      exact sshiftRight_eq_ushiftRight_iff _ _
  | _ => exact absurd hop (by decide)

/-! ## The whole instruction -/

theorem general_ne {n : BitVec 5} {num : Reg} (hnum : 32 ≤ num.val) :
    (⟨n.toNat, n.isLt.trans (by decide)⟩ : Reg) ≠ num := by
  intro heq
  have hlt := n.isLt
  have hval := congrArg Fin.val heq
  simp only at hval
  omega

theorem general_writeRegister (m : Machine) (d n : BitVec 5) (value : Word) :
    (m.writeRegister ⟨d.toNat, d.isLt.trans (by decide)⟩ value).general n =
      if n = d then value else m.general n := by
  have hiff : (⟨n.toNat, n.isLt.trans (by decide)⟩ : Reg) =
      ⟨d.toNat, d.isLt.trans (by decide)⟩ ↔ n = d := by
    rw [Fin.ext_iff, ← BitVec.toNat_inj]
  simp only [general, readRegister_writeRegister, hiff]

theorem readRegister_writeRegister_general (m : Machine) (d : BitVec 5) (value : Word) {num : Reg}
    (hnum : 32 ≤ num.val) :
    (m.writeRegister ⟨d.toNat, d.isLt.trans (by decide)⟩ value).readRegister num =
      m.readRegister num := by
  rw [readRegister_writeRegister, if_neg (general_ne hnum).symm]

/-- The general registers after a delayed load. -/
theorem general_delayedLoad {nextReg nextValue : Word}
    (h : m.delayedLoad nextReg nextValue = some m') (n : BitVec 5) :
    m'.general n =
      if n = 0#5 then 0#32
      else if m.readRegister loadReg = n.setWidth 32 then m.readRegister loadValueReg
      else m.general n := by
  obtain ⟨-, -, hregister⟩ := delayedLoad_spec h
  have hzero : (⟨n.toNat, n.isLt.trans (by decide)⟩ : Reg) = 0 ↔ n = 0#5 := by
    rw [Fin.ext_iff, ← BitVec.toNat_inj]
    rfl
  have hpending : n.toNat = (m.readRegister loadReg).toNat ↔
      m.readRegister loadReg = n.setWidth 32 := by
    have hlt := n.isLt
    rw [← BitVec.toNat_inj, BitVec.toNat_setWidth]
    omega
  simp only [general, hregister, hzero, general_ne (show 32 ≤ loadValueReg.val by decide),
    general_ne (show 32 ≤ loadReg.val by decide), if_false, hpending]

/-- The general registers after an instruction that has been executed. -/
theorem general_advance (h : m.advance l = .ok m') (n : BitVec 5) :
    m'.general n =
      if n = 0#5 then 0#32
      else if m.readRegister loadReg = n.setWidth 32 then m.readRegister loadValueReg
      else m.general n := by
  obtain ⟨m₁, hdelayed, rfl⟩ := advance_eq_ok h
  have hnext := general_ne (n := n) (show 32 ≤ nextPCReg.val by decide)
  have hpc := general_ne (n := n) (show 32 ≤ pcReg.val by decide)
  have hprev := general_ne (n := n) (show 32 ≤ prevPCReg.val by decide)
  rw [← general_delayedLoad hdelayed n]
  simp only [general, readRegister_writeRegister, hnext, hpc, hprev, if_false]

/-- The general registers after an arithmetic instruction, as the manual has them. -/
structure AluDone (m : Machine) (raw : Word) (m' : Machine) : Prop where
  destination : destinationOf raw ≠ 0#5 →
    R2000.result raw (m.general (R2000.rs raw)) (m.general (R2000.rt raw))
      (Instruction.decode raw).opCode = some (m'.general (destinationOf raw))
  others : ∀ n, n ≠ destinationOf raw → n ≠ 0#5 →
    m'.general n =
      if m.readRegister loadReg = n.setWidth 32 then m.readRegister loadValueReg else m.general n
  zero : m'.general 0#5 = 0#32

theorem general_writeRegister_destination (m : Machine) (raw value : Word) (n : BitVec 5) :
    (m.writeRegister (destinationReg raw) value).general n =
      if n = destinationOf raw then value else m.general n :=
  general_writeRegister m (destinationOf raw) n value

theorem readRegister_writeRegister_destination (m : Machine) (raw value : Word) {num : Reg}
    (hnum : 32 ≤ num.val) :
    (m.writeRegister (destinationReg raw) value).readRegister num = m.readRegister num :=
  readRegister_writeRegister_general m (destinationOf raw) value hnum

/-- What is left to show of an arithmetic instruction is its result. -/
theorem advance_alu {m₁ : Machine} {value : Word} (hsame : SameState m m₁)
    (h : (m₁.writeRegister (destinationReg raw) value).advance l = .ok m')
    (hpending : destinationOf raw ≠ 0#5 →
      m.readRegister loadReg ≠ (destinationOf raw).setWidth 32) :
    AluDone m raw m' ↔
      (destinationOf raw ≠ 0#5 →
        R2000.result raw (m.general (R2000.rs raw)) (m.general (R2000.rt raw))
          (Instruction.decode raw).opCode = some value) := by
  have hread : ∀ num, m₁.readRegister num = m.readRegister num :=
    fun num => congrFun hsame.registers num
  have hafter : ∀ n, m'.general n =
      if n = 0#5 then 0#32
      else if m.readRegister loadReg = n.setWidth 32 then m.readRegister loadValueReg
      else if n = destinationOf raw then value
      else m.general n := by
    intro n
    rw [general_advance h n, general_writeRegister_destination,
      readRegister_writeRegister_destination _ _ _ (by decide),
      readRegister_writeRegister_destination _ _ _ (by decide), hread, hread, general, hread]
    rfl
  have hdestination : destinationOf raw ≠ 0#5 → m'.general (destinationOf raw) = value := by
    intro hne
    rw [hafter, if_neg hne, if_neg (hpending hne), if_pos rfl]
  constructor
  · intro hdone hne
    rw [← hdestination hne]
    exact hdone.destination hne
  · intro hresult
    refine ⟨fun hne => (hresult hne).trans (congrArg some (hdestination hne).symm), ?_,
      (hafter 0#5).trans (if_pos rfl)⟩
    intro n hn hzero
    rw [hafter, if_neg hzero, if_neg hn]

/-- OR, SRL and SRLV apart, the arithmetic instructions do what the manual says; these three
do on the operands on which the two computations coincide. -/
theorem alu_matches_manual_iff (m m₁ : Machine) (raw : Word)
    (hfetch : m.readMemOrRaise (m.readRegister pcReg) 4 = .ok (raw, m₁))
    (hop : (Instruction.decode raw).opCode ∈ R2000.aluOpCodes)
    (hpending : destinationOf raw ≠ 0#5 →
      m.readRegister loadReg ≠ (destinationOf raw).setWidth 32) :
    (∃ m', m.oneInstruction = .ok m' ∧ AluDone m raw m') ↔
      (m.readRegister loadReg).toNat < 40 ∧ (destinationOf raw = 0#5 ∨ m.AluAgrees raw) := by
  have hsame := sameState_readMemOrRaise hfetch
  have hgeneral : ∀ n, m₁.general n = m.general n := fun n => congrFun hsame.registers _
  obtain ⟨value, hexecute, hagrees⟩ := @execute_alu m₁ m₁.startLocals raw hop
  have hsameAgrees : m₁.AluAgrees raw ↔ m.AluAgrees raw := by
    unfold AluAgrees
    simp only [hgeneral]
  rw [hsameAgrees, hgeneral, hgeneral] at hagrees
  have hload : (m₁.writeRegister (destinationReg raw) value).readRegister loadReg =
      m.readRegister loadReg :=
    (readRegister_writeRegister_destination _ _ _ (by decide)).trans
      (congrFun hsame.registers loadReg)
  rw [oneInstruction_fetched hfetch, hexecute, ok_bind]
  dsimp only
  constructor
  · rintro ⟨m', hadvance, hdone⟩
    obtain ⟨m₂, hdelayed, -⟩ := advance_eq_ok hadvance
    have hlt := (delayedLoad_spec hdelayed).1
    rw [hload] at hlt
    refine ⟨hlt, ?_⟩
    by_cases hne : destinationOf raw = 0#5
    · exact .inl hne
    · exact .inr (hagrees.mp ((advance_alu hsame hadvance hpending).mp hdone hne))
  · rintro ⟨hlt, hcondition⟩
    obtain ⟨m', hadvance⟩ := advance_exists (m := m₁.writeRegister (destinationReg raw) value)
      m₁.startLocals (hload ▸ hlt)
    refine ⟨m', hadvance, (advance_alu hsame hadvance hpending).mpr fun hne => ?_⟩
    exact hagrees.mpr (hcondition.resolve_left hne)

/-- ADDU r3, r1, r2 while register 5 waits for the value 7 -/
def adduInstruction : Machine :=
  onePage 0x00221821#32 (Function.update (Function.update (Function.update
    (Function.update (fun _ => 0#32) 1 0xffffffff#32) 2 2#32) loadReg 5#32) loadValueReg 7#32)

theorem alu_matches_manual_iff_addu :
    ∃ m', adduInstruction.oneInstruction = .ok m' ∧ AluDone adduInstruction 0x00221821#32 m' :=
  (alu_matches_manual_iff adduInstruction _ 0x00221821#32 rfl (by decide) (by decide)).mpr
    ⟨by decide, .inr trivial⟩

/-- OR r3, r1, r2 with 0 in `r1` and 1 in `r2` -/
def orInstruction : Machine :=
  onePage 0x00221825#32 (Function.update (fun _ => 0#32) 2 1#32)

/-- SRL r3, r1, 1 with the sign bit set in `r1` -/
def srlInstruction : Machine :=
  onePage 0x00011842#32 (Function.update (fun _ => 0#32) 1 0x80000000#32)

/-- The machine executes an arithmetic instruction as the manual says. -/
def FollowsManual (m : Machine) : Prop :=
  ∀ raw m₁, m.general 0#5 = 0#32 →
    m.readMemOrRaise (m.readRegister pcReg) 4 = .ok (raw, m₁) →
    (Instruction.decode raw).opCode ∈ R2000.aluOpCodes →
    (destinationOf raw ≠ 0#5 → m.readRegister loadReg ≠ (destinationOf raw).setWidth 32) →
    ∃ m', m.oneInstruction = .ok m' ∧ AluDone m raw m'

/-- OR leaves 0 where the manual has 1, and SRL `0xc0000000` where it has `0x40000000`. -/
theorem or_srl_contradict_manual :
    ¬ orInstruction.FollowsManual ∧ ¬ srlInstruction.FollowsManual := by
  constructor
  · intro h
    obtain ⟨m', hok, hdone⟩ := h 0x00221825#32 _ rfl rfl (by decide) (by decide)
    have hcomputed : orInstruction.oneInstruction.map (·.general 3#5) = .ok 0#32 := rfl
    rw [hok] at hcomputed
    have hvalue : m'.general 3#5 = 0#32 := Except.ok.inj hcomputed
    have hmanual : some 1#32 = some (m'.general 3#5) := hdone.destination (by decide)
    rw [hvalue] at hmanual
    exact absurd hmanual (by decide)
  · intro h
    obtain ⟨m', hok, hdone⟩ := h 0x00011842#32 _ rfl rfl (by decide) (by decide)
    have hcomputed : srlInstruction.oneInstruction.map (·.general 3#5) = .ok 0xc0000000#32 := rfl
    rw [hok] at hcomputed
    have hvalue : m'.general 3#5 = 0xc0000000#32 := Except.ok.inj hcomputed
    have hmanual : some 0x40000000#32 = some (m'.general 3#5) := hdone.destination (by decide)
    rw [hvalue] at hmanual
    exact absurd hmanual (by decide)

end Machine

end Nachos
