import Nachos.Verification.Machine.Translation
import Nachos.Verification.Mips.Decode

/-! # What one instruction can do

`execute_outcome` says once what the switch of `OneInstruction` can do: the instruction is
executed, or an exception is raised from a machine whose registers and memory are as they
were, or an ASSERT fails or the host divides where it cannot. -/

namespace Nachos.Machine

open Tracking

variable {m m' : Machine} {i : Instruction} {l : Locals}

/-! ## Registers -/

@[simp] theorem readRegister_writeRegister (m : Machine) (num num' : Reg) (value : Word) :
    (m.writeRegister num value).readRegister num' =
      if num' = num then value else m.readRegister num' := by
  simp [readRegister, writeRegister, Function.update_apply]

theorem register_eq (m : Machine) {n : ℕ} (h : n < 32) :
    m.register n = .ok (m.readRegister ⟨n, by omega⟩) :=
  dif_pos (by omega)

theorem setRegister_eq (m : Machine) {n : ℕ} (h : n < 32) (value : Word) :
    m.setRegister n value = .ok (m.writeRegister ⟨n, by omega⟩ value) :=
  dif_pos (by omega)

/-- A general register by its field in an instruction word. -/
def general (m : Machine) (n : BitVec 5) : Word :=
  m.readRegister ⟨n.toNat, n.isLt.trans (by decide)⟩

theorem register_decode_rs (m : Machine) (raw : Word) :
    m.register (Instruction.decode raw).rs = .ok (m.general (R2000.rs raw)) := by
  rw [Instruction.decode_rs]
  exact register_eq m (R2000.rs raw).isLt

theorem register_decode_rt (m : Machine) (raw : Word) :
    m.register (Instruction.decode raw).rt = .ok (m.general (R2000.rt raw)) := by
  rw [Instruction.decode_rt]
  exact register_eq m (R2000.rt raw).isLt

/-! ## The delayed load -/

theorem delayedLoad_exists (m : Machine) (nextReg nextValue : Word)
    (h : (m.readRegister loadReg).toNat < 40) :
    ∃ m', m.delayedLoad nextReg nextValue = some m' :=
  ⟨_, dif_pos h⟩

variable {nextReg nextValue : Word}

theorem delayedLoad_spec (h : m.delayedLoad nextReg nextValue = some m') :
    (m.readRegister loadReg).toNat < 40 ∧ m'.mainMemory = m.mainMemory ∧
      ∀ num : Reg, m'.readRegister num =
        if num = 0 then 0#32
        else if num = loadValueReg then nextValue
        else if num = loadReg then nextReg
        else if num.val = (m.readRegister loadReg).toNat then m.readRegister loadValueReg
        else m.readRegister num := by
  unfold delayedLoad at h
  split at h
  · rename_i hlt
    cases h
    refine ⟨hlt, rfl, fun num => ?_⟩
    simp only [readRegister_writeRegister, Fin.ext_iff]
  · cases h

/-! ## Memory -/

theorem readMemOrRaise_cases (m : Machine) (addr : Word) (size : ℕ) :
    (∃ value m', m.readMemOrRaise addr size = .ok (value, m') ∧ SameState m m') ∨
      (∃ which, m.readMemOrRaise addr size = .error (m.raiseException which addr)) ∨
      m.readMemOrRaise addr size = .error .memoryAssertion := by
  unfold readMemOrRaise
  cases hread : m.readMem addr size with
  | ok result => exact .inl ⟨result.1, result.2, rfl, sameState_readMem hread⟩
  | error trap =>
      cases trap with
      | exception which => exact .inr (.inl ⟨which, rfl⟩)
      | assertion => exact .inr (.inr rfl)

theorem sameState_readMemOrRaise {addr value : Word} {size : ℕ}
    (h : m.readMemOrRaise addr size = .ok (value, m')) : SameState m m' := by
  rcases readMemOrRaise_cases m addr size with ⟨value', m₁, hread, hsame⟩ | ⟨which, hread⟩ | hread
  · rw [h] at hread
    cases hread
    exact hsame
  · rw [h] at hread
    cases hread
  · rw [h] at hread
    cases hread

theorem writeMemOrRaise_cases (m : Machine) (addr : Word) (size : ℕ) (value : Word) :
    (∃ m', m.writeMemOrRaise addr size value = .ok m' ∧ m'.registers = m.registers) ∨
      (∃ which, m.writeMemOrRaise addr size value = .error (m.raiseException which addr)) ∨
      m.writeMemOrRaise addr size value = .error .memoryAssertion := by
  unfold writeMemOrRaise
  cases hwrite : m.writeMem addr size value with
  | ok m' => exact .inl ⟨m', rfl, registers_writeMem hwrite⟩
  | error trap =>
      cases trap with
      | exception which => exact .inr (.inl ⟨which, rfl⟩)
      | assertion => exact .inr (.inr rfl)

/-! ## The outcomes of the switch -/

/-- An instruction whose address is under an ASSERT is about to fail it. -/
def Unaligned (m : Machine) (i : Instruction) : Prop :=
  i.opCode ∈ [OpCode.lwl, .lwr, .swl, .swr] ∧
    ∃ tmp, m.effectiveAddress i = .ok tmp ∧ tmp &&& 3#32 ≠ 0#32

/-- DIV of the least `int` by -1. -/
def Overflows (m : Machine) (i : Instruction) : Prop :=
  i.opCode = .div ∧ m.register i.rs = .ok 0x80000000#32 ∧ m.register i.rt = .ok 0xffffffff#32

/-- What the switch leaves of the registers behind HI and LO, and what it asks of the delayed
load. -/
structure Executed (m m' : Machine) (l' : Locals) : Prop where
  control : ∀ num : Reg, 34 ≤ num.val → m'.registers num = m.registers num
  nextLoadReg : l'.nextLoadReg.toNat < 32

inductive Outcome (m : Machine) (i : Instruction) : Effect → Prop
  | executed {m' : Machine} {l' : Locals} : Executed m m' l' → Outcome m i (.ok (m', l'))
  | raised {m' : Machine} (which : ExceptionType) (badVAddr : Word) :
      SameState m m' → Outcome m i (.error (m'.raiseException which badVAddr))
  | memoryAssertion : Outcome m i (.error .memoryAssertion)
  | assertion : Unaligned m i → Outcome m i (.error .assertion)
  | division : Overflows m i → Outcome m i (.error .division)

/-- The delayed load is still the one `OneInstruction` starts with. -/
def Locals.NoLoad (l : Locals) : Prop :=
  l.nextLoadReg = 0#32

theorem Executed.refl (m : Machine) (hl : l.NoLoad) : Executed m m l where
  control := fun _ _ => rfl
  nextLoadReg := by simp [show l.nextLoadReg = 0#32 from hl]

theorem Executed.writeRegister (h : Executed m m' l) {num : Reg} (hnum : num.val < 34)
    (value : Word) : Executed m (m'.writeRegister num value) l where
  control := by
    intro num' hnum'
    have hne : num' ≠ num := by
      rintro rfl
      omega
    rw [← h.control num' hnum']
    exact Function.update_of_ne hne _ _
  nextLoadReg := h.nextLoadReg

theorem Executed.locals {l' : Locals} (h : Executed m m' l)
    (hload : l'.nextLoadReg = l.nextLoadReg) : Executed m m' l' where
  control := h.control
  nextLoadReg := hload ▸ h.nextLoadReg

theorem Executed.registers {m'' : Machine} (h : Executed m m' l)
    (hregisters : m''.registers = m'.registers) : Executed m m'' l where
  control := fun num hnum => (congrFun hregisters num).trans (h.control num hnum)
  nextLoadReg := h.nextLoadReg

/-! ## Host division -/

/-- The quotient of two `int`s is an `int`, unless it is `-INT_MIN`. -/
theorem tdiv_representable {a b : ℤ} (halow : -2 ^ 31 ≤ a) (hahigh : a < 2 ^ 31) (hb : b ≠ 0)
    (hmin : ¬ (a = -2 ^ 31 ∧ b = -1)) : -2 ^ 31 ≤ a.tdiv b ∧ a.tdiv b < 2 ^ 31 := by
  by_cases hone : b = 1
  · subst hone
    rw [Int.tdiv_one]
    exact ⟨halow, hahigh⟩
  · by_cases hneg : b = -1
    · subst hneg
      rw [Int.tdiv_neg, Int.tdiv_one]
      omega
    · have habs : (a.tdiv b).natAbs ≤ a.natAbs / 2 := by
        rw [Int.natAbs_tdiv]
        exact Nat.div_le_div_left (by omega) (by decide)
      omega

theorem toInt_eq_iff (x : Word) (n : ℤ) (hlow : -2 ^ 31 ≤ n) (hhigh : n < 2 ^ 31) :
    x.toInt = n ↔ x = BitVec.ofInt 32 n := by
  constructor
  · rintro rfl
    exact (BitVec.ofInt_toInt).symm
  · rintro rfl
    exact BitVec.toInt_ofInt_eq_self (by decide) hlow hhigh

theorem divideInt_error {a b : Word} {e : Abrupt} (hb : b ≠ 0#32)
    (h : divideInt a b = .error e) :
    e = .division ∧ a = 0x80000000#32 ∧ b = 0xffffffff#32 := by
  unfold divideInt at h
  split at h
  · cases h
  · rename_i hrange
    cases h
    refine ⟨rfl, ?_⟩
    by_contra hmin
    have hzero : b.toInt ≠ 0 := fun hz =>
      hb ((toInt_eq_iff b 0 (by decide) (by decide)).mp hz)
    obtain ⟨hlow, hhigh⟩ := tdiv_representable (BitVec.le_toInt a) (BitVec.toInt_lt) hzero (by
      rintro ⟨ha, hb⟩
      exact hmin ⟨(toInt_eq_iff a _ (by decide) (by decide)).mp ha,
        (toInt_eq_iff b _ (by decide) (by decide)).mp hb⟩)
    refine hrange ⟨hb, ?_, ?_⟩
    · simpa [intMax] using hlow
    · unfold intMax
      omega

theorem divideInt_overflow : divideInt 0x80000000#32 0xffffffff#32 = .error .division := by
  unfold divideInt
  rw [if_neg (by decide)]

theorem divideUnsigned_ok (a : Word) {b : Word} (hb : b ≠ 0#32) :
    divideUnsigned a b = .ok (a / b, a % b) :=
  if_pos hb

/-! ## The families of instructions -/

section Families

variable (m) (hi : i.Fields)

include hi

theorem register_rs : m.register i.rs = .ok (m.readRegister hi.rsReg) :=
  register_eq m hi.rs

theorem register_rt : m.register i.rt = .ok (m.readRegister hi.rtReg) :=
  register_eq m hi.rt

theorem setRegister_rd (value : Word) :
    m.setRegister i.rd value = .ok (m.writeRegister hi.rdReg value) :=
  setRegister_eq m hi.rd value

theorem setRd_eq (l : Locals) (f : Word → Word → Word) :
    m.setRd i l f = .ok
      (m.writeRegister hi.rdReg (f (m.readRegister hi.rsReg) (m.readRegister hi.rtReg)), l) := by
  rw [setRd, register_rs m hi, ok_bind, register_rt m hi, ok_bind, setRegister_rd m hi, ok_bind]
  rfl

theorem setRt_eq (l : Locals) (f : Word → Word → Word) :
    m.setRt i l f =
      .ok (m.writeRegister hi.rtReg (f (m.readRegister hi.rsReg) i.extra), l) := by
  rw [setRt, register_rs m hi, ok_bind, setRegister_eq m hi.rt, ok_bind]
  rfl

theorem effectiveAddress_eq :
    m.effectiveAddress i = .ok (m.readRegister hi.rsReg + i.extra) := by
  rw [effectiveAddress, register_rs m hi, ok_bind]
  rfl

variable {m}

theorem Executed.writeRd (h : Executed m m' l) (value : Word) :
    Executed m (m'.writeRegister hi.rdReg value) l :=
  h.writeRegister (hi.rd.trans (by decide)) value

theorem Executed.writeRt (h : Executed m m' l) (value : Word) :
    Executed m (m'.writeRegister hi.rtReg value) l :=
  h.writeRegister (hi.rt.trans (by decide)) value

theorem outcome_setRd (h : Executed m m l) (f : Word → Word → Word) :
    Outcome m i (m.setRd i l f) := by
  rw [setRd_eq m hi]
  exact .executed (h.writeRd hi _)

theorem outcome_setRt (h : Executed m m l) (f : Word → Word → Word) :
    Outcome m i (m.setRt i l f) := by
  rw [setRt_eq m hi]
  exact .executed (h.writeRt hi _)

theorem outcome_setRdChecked (h : Executed m m l) (f : Word → Word → Word)
    (overflow : Word → Word → Bool) : Outcome m i (m.setRdChecked i l f overflow) := by
  rw [setRdChecked, register_rs m hi, ok_bind, register_rt m hi, ok_bind]
  split
  · exact .raised _ _ (.refl m)
  · exact outcome_setRd hi h f

theorem outcome_setRtChecked (h : Executed m m l) (f : Word → Word → Word)
    (overflow : Word → Word → Bool) : Outcome m i (m.setRtChecked i l f overflow) := by
  rw [setRtChecked, register_rs m hi, ok_bind]
  split
  · exact .raised _ _ (.refl m)
  · exact outcome_setRt hi h f

omit hi in
theorem outcome_branchIf (h : Executed m m' l) (taken : Bool) :
    Outcome m i (.ok (m'.branchIf i l taken)) := by
  cases taken with
  | false => exact .executed h
  | true => exact .executed (h.locals rfl)

theorem outcome_branchTwo (h : Executed m m l) (taken : Word → Word → Bool) :
    Outcome m i (m.branchTwo i l taken) := by
  rw [branchTwo, register_rs m hi, ok_bind, register_rt m hi, ok_bind]
  exact outcome_branchIf h _

theorem outcome_branchZero (h : Executed m m' l) (taken : Word → Bool) :
    Outcome m i (m'.branchZero i l taken) := by
  rw [branchZero, register_rs m' hi, ok_bind]
  exact outcome_branchIf h _

omit hi in
theorem outcome_jump (h : Executed m m' l) : Outcome m i (.ok (m'.jump i l)) :=
  .executed (h.locals rfl)

theorem outcome_jumpRegister (h : Executed m m' l) : Outcome m i (m'.jumpRegister i l) := by
  rw [jumpRegister, register_rs m' hi, ok_bind]
  exact .executed (h.locals rfl)

omit hi in
/-- A jump or branch that links is one that does not, on the machine with the link. -/
theorem outcome_link (h : Executed m m l) {n : ℕ} (hn : n < 32) {k : Machine → Effect}
    (hk : ∀ m', Executed m m' l → Outcome m i (k m')) : Outcome m i (m.link n >>= k) := by
  rw [link, setRegister_eq m hn, ok_bind]
  exact hk _ (h.writeRegister (hn.trans (by decide)) _)

theorem outcome_divide (h : Executed m m l) {f : Word → Word → Except Abrupt (Word × Word)}
    (hf : ∀ e, m.readRegister hi.rtReg ≠ 0#32 →
      f (m.readRegister hi.rsReg) (m.readRegister hi.rtReg) = .error e →
        e = .division ∧ Overflows m i) : Outcome m i (m.divide i l f) := by
  rw [divide, register_rs m hi, ok_bind, register_rt m hi, ok_bind]
  split
  · exact .executed ((h.writeRegister (by decide) _).writeRegister (by decide) _)
  · rename_i hne
    cases hquotient : f (m.readRegister hi.rsReg) (m.readRegister hi.rtReg) with
    | ok result => exact .executed ((h.writeRegister (by decide) _).writeRegister (by decide) _)
    | error e =>
        obtain ⟨rfl, hoverflows⟩ := hf e hne hquotient
        exact .division hoverflows

theorem outcome_multiply (h : Executed m m l) (signedArith : Bool) :
    Outcome m i (m.multiply i l signedArith) := by
  rw [multiply, register_rs m hi, ok_bind, register_rt m hi, ok_bind]
  exact .executed ((h.writeRegister (by decide) _).writeRegister (by decide) _)

theorem outcome_moveFrom (h : Executed m m l) (source : Reg) :
    Outcome m i (m.moveFrom i l source) := by
  rw [moveFrom, setRegister_rd m hi, ok_bind]
  exact .executed (h.writeRd hi _)

theorem outcome_moveTo (h : Executed m m l) {target : Reg} (htarget : target.val < 34) :
    Outcome m i (m.moveTo i l target) := by
  rw [moveTo, register_rs m hi, ok_bind]
  exact .executed (h.writeRegister htarget _)

/-- The delayed load of a load instruction. -/
theorem executed_load (hsame : SameState m m') (pcAfter value : Word) :
    Executed m m' ⟨pcAfter, BitVec.ofNat 32 i.rt, value⟩ where
  control := fun num _ => congrFun hsame.registers num
  nextLoadReg := by
    have hrt := hi.rt
    rw [BitVec.toNat_ofNat]
    exact lt_of_le_of_lt (Nat.mod_le _ _) hrt

theorem outcome_loadFrom (size : ℕ) (extend : Word → Word) (tmp : Word) :
    Outcome m i (m.loadFrom i l size extend tmp) := by
  rw [loadFrom]
  rcases readMemOrRaise_cases m tmp size with ⟨value, m', hread, hsame⟩ | ⟨which, hread⟩ | hread
  · rw [hread, ok_bind]
    exact .executed (executed_load hi hsame _ _)
  · rw [hread]
    exact .raised which tmp (.refl m)
  · rw [hread]
    exact .memoryAssertion

theorem outcome_loadByte (extend : Word → Word) : Outcome m i (m.loadByte i l extend) := by
  rw [loadByte, effectiveAddress_eq m hi, ok_bind]
  exact outcome_loadFrom hi 1 extend _

omit hi in
theorem outcome_aligned (mask tmp : Word) {effect : Effect} (h : Outcome m i effect) :
    Outcome m i (m.raiseUnlessAligned mask tmp >>= fun _ => effect) := by
  unfold raiseUnlessAligned
  split
  · exact .raised .addressErrorException tmp (.refl m)
  · exact h

theorem outcome_loadHalf (extend : Word → Word) : Outcome m i (m.loadHalf i l extend) := by
  rw [loadHalf, effectiveAddress_eq m hi, ok_bind]
  exact outcome_aligned 1#32 _ (outcome_loadFrom hi 2 extend _)

theorem outcome_loadWord : Outcome m i (m.loadWord i l) := by
  rw [loadWord, effectiveAddress_eq m hi, ok_bind]
  exact outcome_aligned 3#32 _ (outcome_loadFrom hi 4 id _)

/-- The four instructions that assert the alignment of their address. -/
theorem outcome_asserted (hop : i.opCode ∈ [OpCode.lwl, .lwr, .swl, .swr])
    {k : Word → Effect} (hk : ∀ tmp, Outcome m i (k tmp)) :
    Outcome m i (m.effectiveAddress i >>= fun tmp => assertAligned tmp >>= fun _ => k tmp) := by
  have haddress := effectiveAddress_eq m hi
  rw [haddress, ok_bind, assertAligned]
  split
  · exact hk _
  · rename_i hne
    exact .assertion ⟨hop, _, haddress, hne⟩

theorem outcome_loadPart (hop : i.opCode ∈ [OpCode.lwl, .lwr, .swl, .swr])
    (merge : Word → Word → Word → Word) : Outcome m i (m.loadPart i l merge) := by
  refine outcome_asserted hi hop fun tmp => ?_
  rcases readMemOrRaise_cases m tmp 4 with ⟨value, m', hread, hsame⟩ | ⟨which, hread⟩ | hread
  · rw [hread, ok_bind]
    dsimp only
    rw [register_rt m' hi, ok_bind]
    exact .executed (executed_load hi hsame _ _)
  · rw [hread]
    exact .raised which tmp (.refl m)
  · rw [hread]
    exact .memoryAssertion

theorem outcome_storeReg (h : Executed m m l) (size : ℕ) : Outcome m i (m.storeReg i l size) := by
  rw [storeReg, register_rs m hi, ok_bind, register_rt m hi, ok_bind]
  rcases writeMemOrRaise_cases m (m.readRegister hi.rsReg + i.extra) size
    (m.readRegister hi.rtReg) with ⟨m', hwrite, hregisters⟩ | ⟨which, hwrite⟩ | hwrite
  · rw [hwrite, ok_bind]
    exact .executed (h.registers hregisters)
  · rw [hwrite]
    exact .raised which _ (.refl m)
  · rw [hwrite]
    exact .memoryAssertion

theorem outcome_storePart (hop : i.opCode ∈ [OpCode.lwl, .lwr, .swl, .swr])
    (h : Executed m m l) (merge : Word → Word → Word → Word) :
    Outcome m i (m.storePart i l merge) := by
  refine outcome_asserted hi hop fun tmp => ?_
  rcases readMemOrRaise_cases m (tmp &&& ~~~3#32) 4 with
    ⟨value, m', hread, hsame⟩ | ⟨which, hread⟩ | hread
  · rw [hread, ok_bind]
    dsimp only
    rw [register_rt m' hi, ok_bind]
    -- an exception of the write leaves the use bit of the read behind, nothing else
    rcases writeMemOrRaise_cases m' (tmp &&& ~~~3#32) 4
      (merge tmp value (m'.readRegister hi.rtReg)) with
      ⟨m'', hwrite, hregisters⟩ | ⟨which, hwrite⟩ | hwrite
    · rw [hwrite, ok_bind]
      exact .executed (h.registers (hregisters.trans hsame.registers))
    · rw [hwrite]
      exact .raised which _ hsame
    · rw [hwrite]
      exact .memoryAssertion
  · rw [hread]
    exact .raised which _ (.refl m)
  · rw [hread]
    exact .memoryAssertion

end Families

/-! ## One instruction -/

theorem execute_outcome (hi : i.Fields) (hcase : i.opCode.HasCase) (hl : l.NoLoad) :
    Outcome m i (m.execute i l) := by
  have h := Executed.refl m hl
  unfold execute
  cases hop : i.opCode with
  | add | sub => exact outcome_setRdChecked hi h _ _
  | addi => exact outcome_setRtChecked hi h _ _
  | addiu | andi | lui | ori | slti | sltiu | xori => exact outcome_setRt hi h _
  | addu | and | nor | or | sll | sllv | slt | sltu | sra | srav | srl | srlv | subu | xor =>
      exact outcome_setRd hi h _
  | beq | bne => exact outcome_branchTwo hi h _
  | bgez | bgtz | blez | bltz => exact outcome_branchZero hi h _
  | bgezal | bltzal =>
      exact outcome_link h (by decide) fun m' h' => outcome_branchZero hi h' _
  | div =>
      refine outcome_divide hi h fun e hne hdivide => ?_
      obtain ⟨rfl, hrs, hrt⟩ := divideInt_error hne hdivide
      exact ⟨rfl, hop, hrs ▸ register_rs m hi, hrt ▸ register_rt m hi⟩
  | divu =>
      refine outcome_divide hi h fun e hne hdivide => ?_
      rw [divideUnsigned_ok _ hne] at hdivide
      cases hdivide
  | j => exact outcome_jump h
  | jal => exact outcome_link h (by decide) fun m' h' => outcome_jump h'
  | jr => exact outcome_jumpRegister hi h
  | jalr => exact outcome_link h hi.rd fun m' h' => outcome_jumpRegister hi h'
  | lb | lbu => exact outcome_loadByte hi _
  | lh | lhu => exact outcome_loadHalf hi _
  | lw => exact outcome_loadWord hi
  | lwl | lwr => exact outcome_loadPart hi (by rw [hop]; decide) _
  | mfhi | mflo => exact outcome_moveFrom hi h _
  | mthi | mtlo => exact outcome_moveTo hi h (by decide)
  | mult | multu => exact outcome_multiply hi h _
  | sb | sh | sw => exact outcome_storeReg hi h _
  | swl | swr => exact outcome_storePart hi (by rw [hop]; decide) h _
  | syscall | res | unimp => exact .raised _ _ (.refl m)
  | rfe | special | bcond =>
      rw [hop] at hcase
      exact absurd hcase (by decide)

/-- The locals at the start of the switch. -/
def startLocals (m : Machine) : Locals :=
  { pcAfter := m.readRegister nextPCReg + 4#32, nextLoadReg := 0#32, nextLoadValue := 0#32 }

/-- The instruction after its word was read. -/
theorem oneInstruction_fetched {raw : Word}
    (hfetch : m.readMemOrRaise (m.readRegister pcReg) 4 = .ok (raw, m')) :
    m.oneInstruction =
      m'.execute (.decode raw) m'.startLocals >>= fun result => result.1.advance result.2 := by
  rw [oneInstruction, hfetch, ok_bind]
  rfl

/-- `OneInstruction` as a whole. -/
inductive Step (m : Machine) : Except Abrupt Machine → Prop
  | executed {m₁ : Machine} {l : Locals} : Executed m m₁ l → Step m (m₁.advance l)
  | raised {m₁ : Machine} (which : ExceptionType) (badVAddr : Word) :
      SameState m m₁ → Step m (.error (m₁.raiseException which badVAddr))
  | memoryAssertion : Step m (.error .memoryAssertion)
  | assertion {m₁ : Machine} {raw : Word} :
      m.readMemOrRaise (m.readRegister pcReg) 4 = .ok (raw, m₁) →
        Unaligned m₁ (.decode raw) → Step m (.error .assertion)
  | division {m₁ : Machine} {raw : Word} :
      m.readMemOrRaise (m.readRegister pcReg) 4 = .ok (raw, m₁) →
        Overflows m₁ (.decode raw) → Step m (.error .division)

theorem oneInstruction_step (m : Machine) : Step m m.oneInstruction := by
  rcases readMemOrRaise_cases m (m.readRegister pcReg) 4 with
    ⟨raw, m₁, hfetch, hsame⟩ | ⟨which, hfetch⟩ | hfetch
  · rw [oneInstruction_fetched hfetch]
    have houtcome : Outcome m₁ (.decode raw) (m₁.execute (.decode raw) m₁.startLocals) :=
      execute_outcome (Instruction.decode_fields raw) (Instruction.decode_opCode_hasCase raw) rfl
    generalize m₁.execute (.decode raw) m₁.startLocals = effect at houtcome ⊢
    cases houtcome with
    | executed h =>
        exact .executed ⟨fun num hnum =>
          (h.control num hnum).trans (congrFun hsame.registers num), h.nextLoadReg⟩
    | raised which badVAddr h => exact .raised which badVAddr (hsame.trans h)
    | memoryAssertion => exact .memoryAssertion
    | assertion h => exact .assertion hfetch h
    | division h => exact .division hfetch h
  · rw [oneInstruction, hfetch]
    exact .raised which _ (.refl m)
  · rw [oneInstruction, hfetch]
    exact .memoryAssertion

/-! ## The ends of an instruction -/

theorem advance_eq_ok {m' : Machine} {l : Locals} (h : m.advance l = .ok m') :
    ∃ m₁, m.delayedLoad l.nextLoadReg l.nextLoadValue = some m₁ ∧
      m' = ((m₁.writeRegister prevPCReg (m₁.readRegister pcReg)).writeRegister pcReg
        (m₁.readRegister nextPCReg)).writeRegister nextPCReg l.pcAfter := by
  unfold advance at h
  cases hload : m.delayedLoad l.nextLoadReg l.nextLoadValue with
  | none =>
      rw [hload] at h
      cases h
  | some m₁ =>
      rw [hload] at h
      refine ⟨m₁, rfl, ?_⟩
      cases h
      rfl

theorem advance_exists (l : Locals) (h : (m.readRegister loadReg).toNat < 40) :
    ∃ m', m.advance l = .ok m' := by
  obtain ⟨m₁, hdelayed⟩ := delayedLoad_exists m l.nextLoadReg l.nextLoadValue h
  unfold advance
  rw [hdelayed]
  exact ⟨_, rfl⟩

theorem advance_eq_error {e : Abrupt} {l : Locals} (h : m.advance l = .error e) :
    e = .outside := by
  unfold advance at h
  cases hload : m.delayedLoad l.nextLoadReg l.nextLoadValue with
  | none =>
      rw [hload] at h
      cases h
      rfl
  | some m₁ =>
      rw [hload] at h
      cases h

theorem raiseException_cases (m : Machine) (which : ExceptionType) (badVAddr : Word) :
    (∃ m', (m.writeRegister badVAddrReg badVAddr).delayedLoad 0#32 0#32 = some m' ∧
      m.raiseException which badVAddr = .raised which m') ∨
      m.raiseException which badVAddr = .outside := by
  unfold raiseException
  cases (m.writeRegister badVAddrReg badVAddr).delayedLoad 0#32 0#32 with
  | none => exact .inr rfl
  | some m' => exact .inl ⟨m', rfl, rfl⟩

end Nachos.Machine
