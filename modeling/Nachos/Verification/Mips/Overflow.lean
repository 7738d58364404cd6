import Nachos.Verification.Mips.Alu

/-! # Traps on overflow

ADD, ADDI and SUB look at the sign bits of their operands and of the sum that wraps around.
They trap exactly when the exact result is no `int`. -/

namespace Nachos

/-- The exact result of an instruction that may overflow, on the values of its registers. -/
def R2000.exact (word rs rt : Word) : OpCode → Option ℤ
  | .add => some (rs.toInt + rt.toInt)
  | .addi => some (rs.toInt + (immediate word).toInt)
  | .sub => some (rs.toInt - rt.toInt)
  | _ => none

/-- `rt` for ADDI, `rd` for the register forms. -/
def R2000.exactDestination (word : Word) (opCode : OpCode) : BitVec 5 :=
  if opCode = .addi then rt word else rd word

/-- A number is an `int`. -/
def IsInt (x : ℤ) : Prop :=
  -2 ^ 31 ≤ x ∧ x ≤ 2 ^ 31 - 1

instance (x : ℤ) : Decidable (IsInt x) :=
  inferInstanceAs (Decidable (_ ∧ _))

namespace Machine

open Tracking

variable {m m₁ m' : Machine} {raw : Word} {l : Locals}

/-! ## Sign bits -/

theorem negative_eq_msb (x : Word) : negative x = x.msb := by
  rw [Bool.eq_iff_iff, negative, decide_eq_true_iff,
    show signBit = BitVec.twoPow 32 31 from rfl, Instruction.and_signBit_ne_zero,
    BitVec.msb_eq_getLsbD_last]
  simp

theorem addOverflow_eq (rs rt : Word) : addOverflow rs rt = rs.saddOverflow rt := by
  rw [addOverflow, negative_eq_msb, negative_eq_msb, BitVec.saddOverflow_eq, BitVec.msb_xor,
    BitVec.msb_xor]
  cases rs.msb <;> cases rt.msb <;> cases (rs + rt).msb <;> rfl

/-- ADDI compares the sum with the other operand; the two have the same sign. -/
theorem addiOverflow_eq (rs extra : Word) : addiOverflow rs extra = rs.saddOverflow extra := by
  rw [addiOverflow, negative_eq_msb, negative_eq_msb, BitVec.saddOverflow_eq, BitVec.msb_xor,
    BitVec.msb_xor]
  cases rs.msb <;> cases extra.msb <;> cases (rs + extra).msb <;> rfl

theorem subOverflow_eq (rs rt : Word) : subOverflow rs rt = rs.ssubOverflow rt := by
  rw [subOverflow, negative_eq_msb, negative_eq_msb, BitVec.ssubOverflow_eq, BitVec.msb_xor,
    BitVec.msb_xor]
  cases rs.msb <;> cases rt.msb <;> cases (rs - rt).msb <;> rfl

theorem saddOverflow_iff (x y : Word) :
    x.saddOverflow y = true ↔ ¬ IsInt (x.toInt + y.toInt) := by
  rw [BitVec.saddOverflow, Bool.or_eq_true, decide_eq_true_iff, decide_eq_true_iff, IsInt]
  omega

theorem ssubOverflow_iff (x y : Word) :
    x.ssubOverflow y = true ↔ ¬ IsInt (x.toInt - y.toInt) := by
  rw [BitVec.ssubOverflow, Bool.or_eq_true, decide_eq_true_iff, decide_eq_true_iff, IsInt]
  omega

/-! ## The switch -/

/-- The register that the word writes unless it traps. -/
def exactDestinationOf (raw : Word) : BitVec 5 :=
  R2000.exactDestination raw (Instruction.decode raw).opCode

def exactDestinationReg (raw : Word) : Reg :=
  ⟨(exactDestinationOf raw).toNat, (exactDestinationOf raw).isLt.trans (by decide)⟩

theorem opTable_addi : ∀ n : Fin 64,
    ((opTable n).opCode = .addi → (opTable n).format = .ifmt) ∧ specialTable n ≠ .addi := by
  decide

theorem decode_extra_addi (h : (Instruction.decode raw).opCode = .addi) :
    (Instruction.decode raw).extra = (R2000.immediate raw).signExtend 32 := by
  rcases Instruction.decode_opCode_cases raw with ⟨-, hopCode⟩ | hbcond | ⟨hopCode, -⟩
  · rw [hopCode] at h
    exact absurd h (opTable_addi _).2
  · rw [h] at hbcond
    exact absurd hbcond (by decide)
  · rw [hopCode] at h
    show Instruction.decodeExtra raw (opTable (row (raw >>> 26))).format = _
    rw [(opTable_addi _).1 h, Instruction.decodeExtra_ifmt]

theorem setRdChecked_decode (hop : (Instruction.decode raw).opCode ≠ .addi)
    (f : Word → Word → Word) (overflow : Word → Word → Bool) :
    m.setRdChecked (.decode raw) l f overflow =
      if overflow (m.general (R2000.rs raw)) (m.general (R2000.rt raw)) then
        .error (m.raiseException .overflowException 0#32)
      else .ok (m.writeRegister (exactDestinationReg raw)
        (f (m.general (R2000.rs raw)) (m.general (R2000.rt raw))), l) := by
  have hrd : (Instruction.decode_fields raw).rdReg = exactDestinationReg raw := by
    apply Fin.ext
    simp [exactDestinationReg, exactDestinationOf, R2000.exactDestination, hop,
      Instruction.Fields.rdReg]
  rw [setRdChecked, register_decode_rs, ok_bind, register_decode_rt, ok_bind, setRd,
    register_decode_rs, ok_bind, register_decode_rt, ok_bind,
    setRegister_rd m (Instruction.decode_fields raw), ok_bind, hrd]
  rfl

theorem setRtChecked_decode (hop : (Instruction.decode raw).opCode = .addi)
    (f : Word → Word → Word) (overflow : Word → Word → Bool) :
    m.setRtChecked (.decode raw) l f overflow =
      if overflow (m.general (R2000.rs raw)) ((R2000.immediate raw).signExtend 32) then
        .error (m.raiseException .overflowException 0#32)
      else .ok (m.writeRegister (exactDestinationReg raw)
        (f (m.general (R2000.rs raw)) ((R2000.immediate raw).signExtend 32)), l) := by
  have hrt : (Instruction.decode_fields raw).rtReg = exactDestinationReg raw := by
    apply Fin.ext
    simp [exactDestinationReg, exactDestinationOf, R2000.exactDestination, hop,
      Instruction.Fields.rtReg]
  rw [setRtChecked, register_decode_rs, ok_bind, decode_extra_addi hop, setRt,
    register_decode_rs, ok_bind, decode_extra_addi hop,
    setRegister_eq m (Instruction.decode_fields raw).rt, ok_bind, ← hrt]
  rfl

/-- What the switch does with an exact result. -/
inductive ExactSpec (m : Machine) (raw : Word) (l : Locals) (x : ℤ) : Effect → Prop
  | result (value : Word) (hint : IsInt x) (hvalue : value.toInt = x) :
      ExactSpec m raw l x (.ok (m.writeRegister (exactDestinationReg raw) value, l))
  | trap (hnot : ¬ IsInt x) :
      ExactSpec m raw l x (.error (m.raiseException .overflowException 0#32))

/-- A check that fails exactly on overflow, and a result that is exact without one. -/
theorem exactSpec_ite {x : ℤ} {value : Word} {overflow : Bool}
    (hiff : overflow = true ↔ ¬ IsInt x) (hvalue : ¬ overflow = true → value.toInt = x) :
    ExactSpec m raw l x
      (if overflow then .error (m.raiseException .overflowException 0#32)
        else .ok (m.writeRegister (exactDestinationReg raw) value, l)) := by
  by_cases hoverflow : overflow = true
  · rw [if_pos hoverflow]
    exact .trap (hiff.mp hoverflow)
  · rw [if_neg hoverflow]
    exact .result value (not_not.mp (mt hiff.mpr hoverflow)) (hvalue hoverflow)

theorem execute_exact {x : ℤ} (hexact : R2000.exact raw (m.general (R2000.rs raw))
    (m.general (R2000.rt raw)) (Instruction.decode raw).opCode = some x) :
    ExactSpec m raw l x (m.execute (.decode raw) l) := by
  have hrd := @setRdChecked_decode m raw l
  have hrt := @setRtChecked_decode m raw l
  unfold execute
  generalize (Instruction.decode raw).opCode = opCode at hexact hrd hrt ⊢
  cases opCode with
  | add =>
      obtain rfl := Option.some.inj hexact
      dsimp only
      rw [hrd (by decide), addOverflow_eq]
      exact exactSpec_ite (saddOverflow_iff _ _) BitVec.toInt_add_of_not_saddOverflow
  | sub =>
      obtain rfl := Option.some.inj hexact
      dsimp only
      rw [hrd (by decide), subOverflow_eq]
      exact exactSpec_ite (ssubOverflow_iff _ _) BitVec.toInt_sub_of_not_ssubOverflow
  | addi =>
      obtain rfl := Option.some.inj hexact
      have hextend := BitVec.toInt_signExtend_of_le (x := R2000.immediate raw)
        (show 16 ≤ 32 by decide)
      dsimp only
      rw [hrt rfl, addiOverflow_eq, ← hextend]
      exact exactSpec_ite (saddOverflow_iff _ _) BitVec.toInt_add_of_not_saddOverflow
  | _ => cases hexact

/-! ## The whole instruction -/

/-- The general registers that an exception handler finds. -/
theorem general_raised {which which' : ExceptionType} {badVAddr : Word}
    (h : m.raiseException which' badVAddr = .raised which m') (n : BitVec 5) :
    m'.general n =
      if n = 0#5 then 0#32
      else if m.readRegister loadReg = n.setWidth 32 then m.readRegister loadValueReg
      else m.general n := by
  have hother : ∀ num : Reg, num ≠ badVAddrReg →
      (m.writeRegister badVAddrReg badVAddr).readRegister num = m.readRegister num := by
    intro num hnum
    rw [readRegister_writeRegister, if_neg hnum]
  rcases raiseException_cases m which' badVAddr with ⟨m₁, hdelayed, hraised⟩ | hraised
  · rw [h] at hraised
    cases hraised
    rw [general_delayedLoad hdelayed, hother loadReg (by decide), hother loadValueReg (by decide),
      general, hother _ (general_ne (by decide))]
    rfl
  · rw [h] at hraised
    cases hraised

theorem raiseException_exists (which : ExceptionType) (badVAddr : Word)
    (h : (m.readRegister loadReg).toNat < 40) :
    ∃ m', (.error (m.raiseException which badVAddr) : Except Abrupt Machine) =
      .error (.raised which m') := by
  obtain ⟨m', hdelayed⟩ :=
    delayedLoad_exists (m.writeRegister badVAddrReg badVAddr) 0#32 0#32 h
  rw [raiseException, hdelayed]
  exact ⟨m', rfl⟩

/-- What an instruction with the exact result `x` does; `m₁` is the machine when its word was
read. The delayed load of any instruction needs a register number in `LoadReg`. -/
structure TrapsExactly (m m₁ : Machine) (raw : Word) (x : ℤ) : Prop where
  calls : m₁.execute (.decode raw) m₁.startLocals =
    .error (m₁.raiseException .overflowException 0#32) ↔ ¬ IsInt x
  raises : (m.readRegister loadReg).toNat < 40 →
    ((∃ m', m.oneInstruction = .error (.raised .overflowException m')) ↔ ¬ IsInt x)
  unwritten : ∀ which m', m.oneInstruction = .error (.raised which m') → ∀ n,
    m'.general n =
      if n = 0#5 then 0#32
      else if m.readRegister loadReg = n.setWidth 32 then m.readRegister loadValueReg
      else m.general n
  returns : (m.readRegister loadReg).toNat < 40 →
    ((∃ m', m.oneInstruction = .ok m') ↔ IsInt x)
  result : ∀ m', m.oneInstruction = .ok m' → exactDestinationOf raw ≠ 0#5 →
    m.readRegister loadReg ≠ (exactDestinationOf raw).setWidth 32 →
    (m'.general (exactDestinationOf raw)).toInt = x

theorem overflow_traps_exactly (m m₁ : Machine) (raw : Word) {x : ℤ}
    (hfetch : m.readMemOrRaise (m.readRegister pcReg) 4 = .ok (raw, m₁))
    (hexact : R2000.exact raw (m.general (R2000.rs raw)) (m.general (R2000.rt raw))
      (Instruction.decode raw).opCode = some x) :
    TrapsExactly m m₁ raw x := by
  have hsame := sameState_readMemOrRaise hfetch
  have hread : ∀ num, m₁.readRegister num = m.readRegister num :=
    fun num => congrFun hsame.registers num
  have hgeneral : ∀ n, m₁.general n = m.general n := fun n => hread _
  rw [← hgeneral, ← hgeneral] at hexact
  have hspec := execute_exact (l := m₁.startLocals) hexact
  have hone := oneInstruction_fetched hfetch
  generalize heffect : m₁.execute (.decode raw) m₁.startLocals = effect at hspec hone
  cases hspec with
  | trap hnot =>
      have hone : m.oneInstruction = .error (m₁.raiseException .overflowException 0#32) := hone
      refine ⟨iff_of_true heffect hnot, fun hlt => iff_of_true ?_ hnot, ?_,
        fun _ => iff_of_false ?_ hnot, ?_⟩
      · rw [hone]
        exact raiseException_exists _ _ (hread loadReg ▸ hlt)
      · intro which m' hraised n
        rw [hone] at hraised
        rw [general_raised (Except.error.inj hraised), hread, hread, hgeneral]
      · rintro ⟨m', hok⟩
        rw [hone] at hok
        cases hok
      · intro m' hok
        rw [hone] at hok
        cases hok
  | result value hint hvalue =>
      have hone : m.oneInstruction =
        (m₁.writeRegister (exactDestinationReg raw) value).advance m₁.startLocals := hone
      have hkept : ∀ num : Reg, 32 ≤ num.val →
          (m₁.writeRegister (exactDestinationReg raw) value).readRegister num =
            m.readRegister num :=
        fun num hnum => (readRegister_writeRegister_general m₁ _ value hnum).trans (hread num)
      have hnever : ∀ which m', m.oneInstruction ≠ .error (.raised which m') := by
        intro which m' hraised
        rw [hone] at hraised
        cases advance_eq_error hraised
      refine ⟨iff_of_false ?_ (not_not.mpr hint),
        fun _ => iff_of_false (fun ⟨m', h⟩ => hnever _ m' h) (not_not.mpr hint),
        fun which m' h => absurd h (hnever which m'), fun hlt => iff_of_true ?_ hint, ?_⟩
      · rw [heffect]
        exact nofun
      · rw [hone]
        exact advance_exists _ (hkept loadReg (by decide) ▸ hlt)
      · intro m' hok hne hpending
        rw [hone] at hok
        have hwritten : (m₁.writeRegister (exactDestinationReg raw) value).general
            (exactDestinationOf raw) = value :=
          (general_writeRegister m₁ _ _ value).trans (if_pos rfl)
        rw [general_advance hok, if_neg hne, hkept loadReg (by decide), if_neg hpending, hwritten]
        exact hvalue

/-- ADD r3, r1, r2 with the greatest `int` in `r1` and 1 in `r2` -/
def overflowingAdd : Machine :=
  onePage 0x00221820#32
    (Function.update (Function.update (fun _ => 0#32) 1 0x7fffffff#32) 2 1#32)

theorem overflow_traps_exactly_add :
    ∃ m', overflowingAdd.oneInstruction = .error (.raised .overflowException m') ∧
      m'.general 3#5 = 0#32 := by
  have hexactly := overflow_traps_exactly overflowingAdd _ 0x00221820#32 (x := 2 ^ 31) rfl
    (by decide)
  obtain ⟨m', hraised⟩ := (hexactly.raises (by decide)).mpr (by decide)
  exact ⟨m', hraised, hexactly.unwritten _ m' hraised 3#5⟩

end Machine
end Nachos
