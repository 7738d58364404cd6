import Nachos.Verification.Interpreter.Multiply
import Nachos.Verification.Interpreter.Simulation
import Nachos.Verification.Mips.Overflow

/-! # The families of instructions in the machine and in the interpreter -/

namespace Nachos

namespace Instruction

variable {raw : Word}

/-- The instructions that both know and that have an immediate operand. -/
def immedOpCodes : List OpCode :=
  [.addi, .addiu, .andi, .beq, .bgez, .bgezal, .bgtz, .blez, .bltz, .bltzal, .bne, .lb, .lbu, .lh,
   .lhu, .lui, .lw, .ori, .sb, .sh, .slti, .sltiu, .sw, .xori]

theorem opTable_formats : ∀ n : Fin 64,
    ((opTable n).opCode ∈ immedOpCodes → (opTable n).format = .ifmt) ∧
      ((opTable n).opCode = .bcond → (opTable n).format = .ifmt) ∧
      ((opTable n).opCode ∈ [OpCode.j, .jal] → (opTable n).format = .jfmt) ∧
      specialTable n ∉ immedOpCodes ∧ specialTable n ∉ [OpCode.j, .jal] := by
  decide

theorem extra_immed (h : (decode raw).opCode ∈ immedOpCodes) :
    (decode raw).extra = Interpreter.immed raw := by
  have hextra : (decode raw).extra =
      decodeExtra raw (opTable (row (raw >>> 26))).format := rfl
  have hopCode : (decode raw).opCode = decodeOpCode raw (opTable (row (raw >>> 26))).opCode := rfl
  have htable := opTable_formats (row (raw >>> 26))
  rw [hextra, Interpreter.immed_eq]
  rw [hopCode] at h
  rcases opTable_hasCase (row (raw >>> 26)) with hspecial | hbcond | hcase
  · rw [hspecial] at h
    exact absurd h (opTable_formats _).2.2.2.1
  · rw [htable.2.1 hbcond, decodeExtra_ifmt]
  · rw [decodeOpCode_of_hasCase hcase] at h
    rw [htable.1 h, decodeExtra_ifmt]

theorem extra_jump (h : (decode raw).opCode ∈ [OpCode.j, .jal]) :
    (decode raw).extra = raw &&& 0x3ffffff#32 := by
  have hextra : (decode raw).extra =
      decodeExtra raw (opTable (row (raw >>> 26))).format := rfl
  have hopCode : (decode raw).opCode = decodeOpCode raw (opTable (row (raw >>> 26))).opCode := rfl
  have htable := opTable_formats (row (raw >>> 26))
  rw [hextra]
  rw [hopCode] at h
  rcases opTable_hasCase (row (raw >>> 26)) with hspecial | hbcond | hcase
  · rw [hspecial] at h
    exact absurd h (opTable_formats _).2.2.2.2
  · rw [hbcond] at h
    have hnone : ∀ opCode ∈ bcondOpCodes, opCode ∉ [OpCode.j, .jal] := by decide
    exact absurd h (hnone _ (decodeOpCode_bcond raw))
  · rw [decodeOpCode_of_hasCase hcase] at h
    rw [htable.2.2.1 h]
    rfl

theorem extra_shamt (h : (decode raw).opCode ∈ [OpCode.sll, .srl, .sra]) :
    (decode raw).extra.toNat = (Interpreter.shamt raw).toNat := by
  rw [Interpreter.shamt_eq]
  refine decode_extra_register ?_
  have hall : ∀ opCode ∈ [OpCode.sll, .srl, .sra], opCode ∈ registerOpCodes := by decide
  exact hall _ h

end Instruction

namespace Machine

open Tracking

variable {m : Machine} {l : Locals} {raw : Word}

theorem setRegister_general (m : Machine) (d : BitVec 5) (value : Word) :
    m.setRegister d.toNat value = .ok (m.setGeneral d value) :=
  setRegister_eq m d.isLt value

theorem setRd_general (f : Word → Word → Word) :
    m.setRd (.decode raw) l f = .ok (m.setGeneral (R2000.rd raw)
      (f (m.general (R2000.rs raw)) (m.general (R2000.rt raw))), l) := by
  rw [setRd, register_decode_rs, ok_bind, register_decode_rt, ok_bind, Instruction.decode_rd,
    setRegister_general, ok_bind]
  rfl

theorem setRt_general (f : Word → Word → Word) :
    m.setRt (.decode raw) l f = .ok (m.setGeneral (R2000.rt raw)
      (f (m.general (R2000.rs raw)) (Instruction.decode raw).extra), l) := by
  rw [setRt, register_decode_rs, ok_bind, Instruction.decode_rt, setRegister_general, ok_bind]
  rfl

theorem link_general (m : Machine) (d : BitVec 5) :
    m.link d.toNat = .ok (m.setGeneral d (m.readRegister nextPCReg + 4#32)) :=
  setRegister_general m d _

theorem effectiveAddress_general :
    m.effectiveAddress (.decode raw) =
      .ok (m.general (R2000.rs raw) + (Instruction.decode raw).extra) := by
  rw [effectiveAddress, register_decode_rs, ok_bind]
  rfl

end Machine

namespace Interpreter

open Machine Tracking

variable {m m' : Machine} {l l' : Locals} {s s' : Interpreter} {raw xpc : Word}
  {effect : Effect} {result : Except Stop Interpreter}

/-- When the machine executes the instruction, the interpreter does too and the states
correspond. -/
def Follows (effect : Effect) (result : Except Stop Interpreter) : Prop :=
  ∀ m' l', effect = .ok (m', l') → ∃ s', result = .ok s' ∧ Executing m' l' s'

theorem Executing.follows (h : Executing m l s) : Follows (.ok (m, l)) (.ok s) := by
  intro m' l' heq
  cases heq
  exact ⟨s, rfl, h⟩

theorem follows_error {e : Abrupt} : Follows (.error e) result := by
  intro m' l' heq
  cases heq

/-! ## Computing -/

section

variable (h : Executing m l s) (hl : l.NoLoad)

include h hl

theorem follows_setRd {f g : Word → Word → Word} (hidle : m.Idle (R2000.rd raw))
    (hfg : f (m.general (R2000.rs raw)) (m.general (R2000.rt raw)) =
      g (s.reg (R2000.rs raw)) (s.reg (R2000.rt raw))) :
    Follows (m.setRd (.decode raw) l f) (.ok (s.setRd raw g)) := by
  rw [setRd_general, setRd, rd_eq, rs_eq, rt_eq, hfg]
  exact (h.setGeneral hl hidle _).follows

theorem follows_setRt {f g : Word → Word → Word} (hidle : m.Idle (R2000.rt raw))
    (hfg : f (m.general (R2000.rs raw)) (Instruction.decode raw).extra =
      g (s.reg (R2000.rs raw)) (immed raw)) :
    Follows (m.setRt (.decode raw) l f) (.ok (s.setRt raw g)) := by
  rw [setRt_general, setRt, rt_eq, rs_eq, hfg]
  exact (h.setGeneral hl hidle _).follows

/-- The machine has stopped when the result overflows. -/
theorem follows_setRdChecked {f g : Word → Word → Word} (hidle : m.Idle (R2000.rd raw))
    (hfg : f (m.general (R2000.rs raw)) (m.general (R2000.rt raw)) =
      g (s.reg (R2000.rs raw)) (s.reg (R2000.rt raw))) (overflow : Word → Word → Bool) :
    Follows (m.setRdChecked (.decode raw) l f overflow) (.ok (s.setRd raw g)) := by
  rw [setRdChecked, register_decode_rs, ok_bind, register_decode_rt, ok_bind]
  split
  · exact follows_error
  · exact follows_setRd h hl hidle hfg

theorem follows_setRtChecked {f g : Word → Word → Word} (hidle : m.Idle (R2000.rt raw))
    (hfg : f (m.general (R2000.rs raw)) (Instruction.decode raw).extra =
      g (s.reg (R2000.rs raw)) (immed raw)) (overflow : Word → Word → Bool) :
    Follows (m.setRtChecked (.decode raw) l f overflow) (.ok (s.setRt raw g)) := by
  rw [setRtChecked, register_decode_rs, ok_bind]
  split
  · exact follows_error
  · exact follows_setRt h hl hidle hfg

theorem follows_shiftVariable {f : Word → Word → Word} {g : Word → ℕ → Word}
    (hidle : m.Idle (R2000.rd raw)) (hlt : (s.reg (R2000.rs raw)).toNat < 32)
    (hfg : f (m.general (R2000.rs raw)) (m.general (R2000.rt raw)) =
      g (s.reg (R2000.rt raw)) (s.reg (R2000.rs raw)).toNat) :
    Follows (m.setRd (.decode raw) l f) (s.shiftVariable raw g) := by
  rw [setRd_general, shiftVariable, rd_eq, rs_eq, rt_eq, if_pos hlt, hfg]
  exact (h.setGeneral hl hidle _).follows

theorem follows_moveFrom {source : Reg} {value : Word} (hidle : m.Idle (R2000.rd raw))
    (hvalue : m.readRegister source = value) :
    Follows (m.moveFrom (.decode raw) l source) (.ok (s.setReg (rd raw) value)) := by
  rw [moveFrom, Instruction.decode_rd, setRegister_general, ok_bind, rd_eq, hvalue]
  exact (h.setGeneral hl hidle _).follows

end

/-! ## HI and LO -/

section

variable (h : Executing m l s)

include h

/-- Two words for HI and LO, in the order in which they are written. -/
theorem Executing.setLoHi (hi lo : Word) :
    Executing ((m.writeRegister loReg lo).writeRegister hiReg hi) l
      { s with hi := hi, lo := lo } := by
  refine h.setHiLo ?_ ?_ ?_ rfl rfl
  · rw [readRegister_writeRegister, if_pos rfl]
  · rw [readRegister_writeRegister, if_neg (by decide), readRegister_writeRegister, if_pos rfl]
  · intro num hhi hlo
    rw [readRegister_writeRegister, if_neg hhi, readRegister_writeRegister, if_neg hlo]

theorem follows_moveTo_hi (hrs : s.reg (R2000.rs raw) = m.general (R2000.rs raw)) :
    Follows (m.moveTo (.decode raw) l hiReg) (.ok { s with hi := s.reg (rs raw) }) := by
  rw [moveTo, register_decode_rs, ok_bind, rs_eq, hrs]
  refine Executing.follows (h.setHiLo ?_ ?_ ?_ (Eq.refl m.entries) rfl)
  · rw [readRegister_writeRegister, if_pos rfl]
  · rw [readRegister_writeRegister, if_neg (by decide), h.lo]
  · intro num hhi hlo
    rw [readRegister_writeRegister, if_neg hhi]

theorem follows_moveTo_lo (hrs : s.reg (R2000.rs raw) = m.general (R2000.rs raw)) :
    Follows (m.moveTo (.decode raw) l loReg) (.ok { s with lo := s.reg (rs raw) }) := by
  rw [moveTo, register_decode_rs, ok_bind, rs_eq, hrs]
  refine Executing.follows (h.setHiLo ?_ ?_ ?_ (Eq.refl m.entries) rfl)
  · rw [readRegister_writeRegister, if_neg (by decide), h.hi]
  · rw [readRegister_writeRegister, if_pos rfl]
  · intro num hhi hlo
    rw [readRegister_writeRegister, if_neg hlo]

theorem follows_divide {f : Word → Word → Except Abrupt (Word × Word)}
    (hrs : s.reg (R2000.rs raw) = m.general (R2000.rs raw))
    (hrt : s.reg (R2000.rt raw) = m.general (R2000.rt raw))
    (hzero : m.general (R2000.rt raw) ≠ 0#32) :
    Follows (m.divide (.decode raw) l f) (s.divide raw f) := by
  rw [Machine.divide, register_decode_rs, ok_bind, register_decode_rt, ok_bind, if_neg hzero,
    divide, rs_eq, rt_eq, hrs, hrt]
  cases f (m.general (R2000.rs raw)) (m.general (R2000.rt raw)) with
  | error e => exact follows_error
  | ok quotient => exact (h.setLoHi quotient.2 quotient.1).follows

theorem follows_multiply {signedArith : Bool} {f : Word → Word → Word × Word}
    (hrs : s.reg (R2000.rs raw) = m.general (R2000.rs raw))
    (hrt : s.reg (R2000.rt raw) = m.general (R2000.rt raw))
    (hf : f (m.general (R2000.rs raw)) (m.general (R2000.rt raw)) =
      Nachos.mult (m.general (R2000.rs raw)) (m.general (R2000.rt raw)) signedArith) :
    Follows (m.multiply (.decode raw) l signedArith)
      (.ok (s.setHiLo (f (s.reg (rs raw)) (s.reg (rt raw))))) := by
  rw [multiply_decode, rs_eq, rt_eq, hrs, hrt, hf]
  refine Executing.follows (h.setHiLo ?_ ?_ ?_ (Eq.refl m.entries) rfl)
  · rw [readRegister_writeRegister, if_neg (by decide), readRegister_writeRegister, if_pos rfl]
  · rw [readRegister_writeRegister, if_pos rfl]
  · intro num hhi hlo
    rw [readRegister_writeRegister, if_neg hlo, readRegister_writeRegister, if_neg hhi]

end

/-! ## Branches and jumps -/

section

variable (h : Executing m l s) (hnext : m.readRegister nextPCReg = xpc + 4#32)

include h

/-- The link is the address behind the delay slot. -/
theorem Executing.link (hl : l.NoLoad) (hnext : m.readRegister nextPCReg = xpc + 4#32)
    {d : BitVec 5} (hidle : m.Idle d) :
    Executing (m.setGeneral d (m.readRegister nextPCReg + 4#32)) l (s.link xpc d) := by
  have hvalue : m.readRegister nextPCReg + 4#32 = xpc + 8#32 := by
    rw [hnext, BitVec.add_assoc]
    rfl
  rw [hvalue]
  exact h.setGeneral hl hidle _

include hnext in
theorem follows_branchIf (hextra : (Instruction.decode raw).extra = immed raw)
    {taken taken' : Bool} (htaken : taken = taken') :
    Follows (.ok (m.branchIf (.decode raw) l taken)) (.ok (s.branchIf xpc raw taken')) := by
  subst htaken
  cases taken with
  | false => exact h.follows
  | true =>
      refine Executing.follows (h.jump ?_)
      rw [hnext, hextra]
      rfl

include hnext in
theorem follows_branchTwo (hextra : (Instruction.decode raw).extra = immed raw)
    {taken : Word → Word → Bool} {taken' : Bool}
    (htaken : taken (m.general (R2000.rs raw)) (m.general (R2000.rt raw)) = taken') :
    Follows (m.branchTwo (.decode raw) l taken) (.ok (s.branchIf xpc raw taken')) := by
  rw [branchTwo, register_decode_rs, ok_bind, register_decode_rt, ok_bind]
  exact follows_branchIf h hnext hextra htaken

include hnext in
theorem follows_branchZero (hextra : (Instruction.decode raw).extra = immed raw)
    {taken : Word → Bool} {taken' : Bool} (htaken : taken (m.general (R2000.rs raw)) = taken') :
    Follows (m.branchZero (.decode raw) l taken) (.ok (s.branchIf xpc raw taken')) := by
  rw [branchZero, register_decode_rs, ok_bind]
  exact follows_branchIf h hnext hextra htaken

theorem follows_jump (hextra : (Instruction.decode raw).extra = raw &&& 0x3ffffff#32)
    (htarget : l.pcAfter &&& 0xf0000000#32 = xpc &&& 0xf0000000#32) :
    Follows (.ok (m.jump (.decode raw) l)) (.ok (s.jump xpc raw)) := by
  refine Executing.follows (h.jump ?_)
  rw [htarget, hextra]
  rfl

theorem follows_jumpRegister (hrs : s.reg (R2000.rs raw) = m.general (R2000.rs raw)) :
    Follows (m.jumpRegister (.decode raw) l) (.ok { s with npc := s.reg (rs raw) }) := by
  rw [jumpRegister, register_decode_rs, ok_bind]
  refine Executing.follows (h.jump ?_)
  rw [rs_eq, hrs]

include hnext in
/-- The machine reads the target behind the link, so the two registers must differ. -/
theorem follows_jalr (hl : l.NoLoad) (hidle : m.Idle (R2000.rd raw))
    (hrs : s.reg (R2000.rs raw) = m.general (R2000.rs raw))
    (hne : R2000.rs raw ≠ R2000.rd raw) :
    Follows (m.link (Instruction.decode raw).rd >>= fun m => m.jumpRegister (.decode raw) l)
      (.ok ({ s with npc := s.reg (rs raw) }.link xpc (rd raw))) := by
  rw [Instruction.decode_rd, link_general, ok_bind, jumpRegister, register_decode_rs, ok_bind,
    rd_eq]
  refine Executing.follows ((h.link hl hnext hidle).jump ?_)
  rw [general_setGeneral, if_neg hne, rs_eq, hrs]

end

/-! ## Loads and stores -/

section

variable (h : Executing m l s) (hl : l.NoLoad)

include h hl

/-- A load whose address was checked; the value is in the register of the interpreter at once. -/
theorem follows_loadFrom {size : ℕ} {extend : Word → Word}
    {fetch : Interpreter → Word → Except Stop Word} {a : Word} (haddress : s.address raw = a)
    (hfetch : ∀ value m', m.readMemOrRaise a size = .ok (value, m') →
      fetch s a = .ok (extend value) ∧ SameMemory m' s) :
    Follows (m.loadFrom (.decode raw) l size extend a) (s.loadFrom raw fetch) := by
  intro m' l' heq
  obtain ⟨⟨value, m₁⟩, hread, heq⟩ := except_bind_eq_ok.mp heq
  cases heq
  obtain ⟨hvalue, hmemory⟩ := hfetch value m' hread
  refine ⟨s.setReg (rt raw) (extend value), ?_, ?_⟩
  · rw [loadFrom, haddress, hvalue]
    rfl
  · have hrt : BitVec.ofNat 32 (Instruction.decode raw).rt = (R2000.rt raw).setWidth 32 := by
      rw [Instruction.decode_rt, BitVec.ofNat_toNat]
    rw [hrt, rt_eq]
    have hregisters := (sameState_readMemOrRaise hread).registers
    exact (h.setMemory hregisters rfl hmemory).load hl _ _

theorem follows_loadByte {extend : Word → Word} {fetch : Interpreter → Word → Except Stop Word}
    (haddress : s.address raw = m.general (R2000.rs raw) + (Instruction.decode raw).extra)
    (hfetch : ∀ a value m', m.readMemOrRaise a 1 = .ok (value, m') →
      fetch s a = .ok (extend value) ∧ SameMemory m' s) :
    Follows (m.loadByte (.decode raw) l extend) (s.loadFrom raw fetch) := by
  rw [loadByte, effectiveAddress_general, ok_bind]
  exact follows_loadFrom h hl haddress (hfetch _)

omit h hl in
theorem follows_unless {mask a : Word} (hfollows : Follows effect result) :
    Follows (m.raiseUnlessAligned mask a >>= fun _ => effect) result := by
  unfold raiseUnlessAligned
  split
  · exact follows_error
  · exact hfollows

theorem follows_loadHalf {extend : Word → Word} {fetch : Interpreter → Word → Except Stop Word}
    (haddress : s.address raw = m.general (R2000.rs raw) + (Instruction.decode raw).extra)
    (hfetch : ∀ a value m', m.readMemOrRaise a 2 = .ok (value, m') →
      fetch s a = .ok (extend value) ∧ SameMemory m' s) :
    Follows (m.loadHalf (.decode raw) l extend) (s.loadFrom raw fetch) := by
  rw [loadHalf, effectiveAddress_general, ok_bind]
  exact follows_unless (follows_loadFrom h hl haddress (hfetch _))

theorem follows_loadWord
    (haddress : s.address raw = m.general (R2000.rs raw) + (Instruction.decode raw).extra) :
    Follows (m.loadWord (.decode raw) l) (s.loadFrom raw Interpreter.fetch) := by
  rw [loadWord, effectiveAddress_general, ok_bind]
  exact follows_unless (follows_loadFrom h hl haddress fun _ _ hread => h.memory.fetch_eq hread)

omit hl in
theorem follows_storeReg {size : ℕ} (hsize : LegalSize size)
    (haddress : s.address raw = m.general (R2000.rs raw) + (Instruction.decode raw).extra)
    (hrt : s.reg (R2000.rt raw) = m.general (R2000.rt raw)) :
    Follows (m.storeReg (.decode raw) l size) (s.storeTo raw size) := by
  intro m' l' heq
  rw [storeReg, register_decode_rs, ok_bind, register_decode_rt, ok_bind] at heq
  obtain ⟨m₁, hwrite, heq⟩ := except_bind_eq_ok.mp heq
  cases heq
  rw [storeTo, haddress, rt_eq, hrt]
  obtain ⟨s', hstore, hmemory, hs', hregisters⟩ := h.memory.storeBytes_eq hsize hwrite
  exact ⟨s', hstore, h.setMemory hregisters hs' hmemory⟩

end

end Interpreter

end Nachos
