import Nachos.Verification.Mips.Semantics

/-! # Exceptions and aborts of an instruction

An exception is raised before the instruction has changed anything. Two of the ways an
instruction can end are no exceptions: an ASSERT of LWL, LWR, SWL or SWR fails, and the
host divides the least `int` by -1. -/

namespace Nachos.Machine

open Tracking

variable {m m' : Machine}

/-! ## Precision -/

/-- The machine that `ExceptionHandler` finds, compared with the one before the
instruction. -/
structure Precise (m m' : Machine) : Prop where
  mainMemory : m'.mainMemory = m.mainMemory
  pc : m'.readRegister pcReg = m.readRegister pcReg
  nextPC : m'.readRegister nextPCReg = m.readRegister nextPCReg
  prevPC : m'.readRegister prevPCReg = m.readRegister prevPCReg
  loadReg : m'.readRegister loadReg = 0#32
  loadValueReg : m'.readRegister loadValueReg = 0#32
  zero : m'.readRegister 0 = 0#32
  pending : ∀ num : Reg, num.val = (m.readRegister Nachos.loadReg).toNat → num ≠ 0 →
    m'.readRegister num = m.readRegister Nachos.loadValueReg
  others : ∀ num : Reg, num ≠ badVAddrReg → num ≠ Nachos.loadReg → num ≠ Nachos.loadValueReg →
    num.val ≠ (m.readRegister Nachos.loadReg).toNat → m'.readRegister num = m.readRegister num

/-- `RaiseException` when a general register, or none, waits for a load. -/
theorem precise_raiseException {m₁ : Machine} {which which' : ExceptionType} {badVAddr : Word}
    (hsame : SameState m m₁) (hzero : m.readRegister 0 = 0#32)
    (hload : (m.readRegister loadReg).toNat < 32)
    (h : m₁.raiseException which' badVAddr = .raised which m') : Precise m m' := by
  have hread : ∀ num : Reg, num ≠ badVAddrReg →
      (m₁.writeRegister badVAddrReg badVAddr).readRegister num = m.readRegister num := by
    intro num hnum
    rw [readRegister_writeRegister, if_neg hnum]
    exact congrFun hsame.registers num
  rcases raiseException_cases m₁ which' badVAddr with ⟨m₂, hdelayed, hraised⟩ | hraised
  · rw [h] at hraised
    cases hraised
    obtain ⟨-, hmemory, hregister⟩ := delayedLoad_spec hdelayed
    rw [hread loadReg (by decide), hread loadValueReg (by decide)] at hregister
    have hkept : ∀ num : Reg, num ≠ badVAddrReg → num ≠ loadReg → num ≠ loadValueReg →
        num.val ≠ (m.readRegister loadReg).toNat →
        m'.readRegister num = m.readRegister num := by
      intro num hbad hloadReg hloadValueReg hpending
      rw [hregister num, if_neg hloadValueReg, if_neg hloadReg, if_neg hpending, hread num hbad]
      by_cases hnum : num = 0
      · rw [if_pos hnum, hnum, hzero]
      · rw [if_neg hnum]
    exact {
      mainMemory := hmemory.trans hsame.mainMemory
      pc := hkept pcReg (by decide) (by decide) (by decide) (by simp [pcReg]; omega)
      nextPC := hkept nextPCReg (by decide) (by decide) (by decide) (by simp [nextPCReg]; omega)
      prevPC := hkept prevPCReg (by decide) (by decide) (by decide) (by simp [prevPCReg]; omega)
      loadReg := hregister Nachos.loadReg
      loadValueReg := hregister Nachos.loadValueReg
      zero := hregister 0
      pending := by
        intro num hnum hne
        have hlt : num.val < 32 := hnum ▸ hload
        have hloadReg : num ≠ Nachos.loadReg := by
          rintro rfl
          exact absurd hlt (by decide)
        have hloadValueReg : num ≠ Nachos.loadValueReg := by
          rintro rfl
          exact absurd hlt (by decide)
        rw [hregister num, if_neg hne, if_neg hloadValueReg, if_neg hloadReg, if_pos hnum]
      others := hkept }
  · rw [h] at hraised
    cases hraised

theorem exceptions_are_precise (m m' : Machine) (which : ExceptionType)
    (hzero : m.readRegister 0 = 0#32) (hload : (m.readRegister loadReg).toNat < 32)
    (h : m.oneInstruction = .error (.raised which m')) : Precise m m' := by
  have hstep := oneInstruction_step m
  generalize m.oneInstruction = result at hstep h
  cases hstep with
  | executed hexecuted => exact absurd (advance_eq_error h) (by simp)
  | raised which' badVAddr hsame =>
      exact precise_raiseException hsame hzero hload (Except.error.inj h)
  | memoryAssertion => cases h
  | assertion _ _ => cases h
  | division _ _ => cases h

/-- One page of memory with an instruction at address 0. -/
def onePage (word : Word) (registers : Registers) : Machine where
  registers := registers
  mainMemory := store (fun _ => 0#8) 0 word 4
  tlb := none
  pageTable := some [⟨0, 0, true, false, false, false⟩]

/-- A SYSCALL while register 5 waits for the value 7. -/
def syscallPending : Machine :=
  onePage 0x0000000c#32 (Function.update (Function.update (fun _ => 0#32) loadReg 5#32)
    loadValueReg 7#32)

theorem exceptions_are_precise_syscall :
    ∃ m', syscallPending.oneInstruction = .error (.raised .syscallException m') ∧
      Precise syscallPending m' ∧ m'.readRegister 5 = 7#32 := by
  refine ⟨_, rfl, exceptions_are_precise _ _ _ rfl (by decide) rfl, rfl⟩

/-! ## Aborts -/

section Aborts

variable {i : Instruction} {l : Locals} {tmp : Word}

theorem loadPart_of_unaligned (haddress : m.effectiveAddress i = .ok tmp)
    (hne : tmp &&& 3#32 ≠ 0#32) (merge : Word → Word → Word → Word) :
    m.loadPart i l merge = .error .assertion := by
  rw [loadPart, haddress, ok_bind, assertAligned, if_neg hne]
  rfl

theorem storePart_of_unaligned (haddress : m.effectiveAddress i = .ok tmp)
    (hne : tmp &&& 3#32 ≠ 0#32) (merge : Word → Word → Word → Word) :
    m.storePart i l merge = .error .assertion := by
  rw [storePart, haddress, ok_bind, assertAligned, if_neg hne]
  rfl

theorem execute_of_unaligned (h : Unaligned m i) : m.execute i l = .error .assertion := by
  obtain ⟨hop, tmp, haddress, hne⟩ := h
  simp only [List.mem_cons, List.not_mem_nil, or_false] at hop
  unfold execute
  rcases hop with hop | hop | hop | hop
  · rw [hop]
    exact loadPart_of_unaligned haddress hne mergeLwl
  · rw [hop]
    exact loadPart_of_unaligned haddress hne mergeLwr
  · rw [hop]
    exact storePart_of_unaligned haddress hne mergeSwl
  · rw [hop]
    exact storePart_of_unaligned haddress hne mergeSwr

theorem execute_of_overflows (h : Overflows m i) : m.execute i l = .error .division := by
  obtain ⟨hop, hrs, hrt⟩ := h
  unfold execute
  rw [hop]
  dsimp only
  rw [divide, hrs, ok_bind, hrt, ok_bind, if_neg (by decide), divideInt_overflow]
  rfl

end Aborts

/-- Whether the word in `raw` makes the simulator stop: LWL, LWR, SWL or SWR at an address
that is no multiple of four, or DIV of the least `int` by -1. -/
def StopsOn (m : Machine) (raw : Word) : Prop :=
  ((Instruction.decode raw).opCode ∈ [OpCode.lwl, .lwr, .swl, .swr] ∧
      (m.general (R2000.rs raw) + (R2000.immediate raw).signExtend 32) &&& 3#32 ≠ 0#32) ∨
    ((Instruction.decode raw).opCode = .div ∧ m.general (R2000.rs raw) = 0x80000000#32 ∧
      m.general (R2000.rt raw) = 0xffffffff#32)

theorem stopsOn_iff {m₁ : Machine} {raw : Word} (hsame : SameState m m₁) :
    m.StopsOn raw ↔ Unaligned m₁ (.decode raw) ∨ Overflows m₁ (.decode raw) := by
  have hgeneral : ∀ n, m₁.general n = m.general n := fun n => congrFun hsame.registers _
  have hrs := register_decode_rs m₁ raw
  have hrt := register_decode_rt m₁ raw
  rw [hgeneral] at hrs hrt
  refine or_congr (and_congr_right fun hop => ?_) (and_congr_right fun _ => ?_)
  · have himmediate : ∀ opCode ∈ [OpCode.lwl, .lwr, .swl, .swr],
        opCode ∈ Instruction.immediateOpCodes := by decide
    rw [effectiveAddress, hrs, ok_bind,
      Instruction.decode_extra_immediate (himmediate _ hop)]
    constructor
    · exact fun hne => ⟨_, rfl, hne⟩
    · rintro ⟨tmp, htmp, hne⟩
      exact Except.ok.inj htmp ▸ hne
  · rw [hrs, hrt, Except.ok.injEq, Except.ok.injEq]

theorem survives_iff (m : Machine) :
    (m.oneInstruction ≠ .error .assertion ∧ m.oneInstruction ≠ .error .division) ↔
      ∀ raw m₁, m.readMemOrRaise (m.readRegister pcReg) 4 = .ok (raw, m₁) → ¬ m.StopsOn raw := by
  constructor
  · rintro ⟨hassertion, hdivision⟩ raw m₁ hfetch hstops
    rcases (stopsOn_iff (sameState_readMemOrRaise hfetch)).mp hstops with hunaligned | hoverflows
    · apply hassertion
      rw [oneInstruction_fetched hfetch, execute_of_unaligned hunaligned]
      rfl
    · apply hdivision
      rw [oneInstruction_fetched hfetch, execute_of_overflows hoverflows]
      rfl
  · intro hnever
    have hstep := oneInstruction_step m
    generalize m.oneInstruction = result at hstep ⊢
    cases hstep with
    | executed _ =>
        exact ⟨fun h => absurd (advance_eq_error h) (by simp),
          fun h => absurd (advance_eq_error h) (by simp)⟩
    | @raised m₁ which badVAddr _ =>
        rcases raiseException_cases m₁ which badVAddr with ⟨m', -, hraised⟩ | hraised
        · simp [hraised]
        · simp [hraised]
    | memoryAssertion => simp
    | assertion hfetch h =>
        exact absurd ((stopsOn_iff (sameState_readMemOrRaise hfetch)).mpr (.inl h))
          (hnever _ _ hfetch)
    | division hfetch h =>
        exact absurd ((stopsOn_iff (sameState_readMemOrRaise hfetch)).mpr (.inr h))
          (hnever _ _ hfetch)

/-- LWL r2, 1(r0) -/
def unalignedLoad : Machine :=
  onePage 0x88020001#32 fun _ => 0#32

/-- DIV r1, r2 with the least `int` in `r1` and -1 in `r2` -/
def overflowingDivision : Machine :=
  onePage 0x0022001a#32
    (Function.update (Function.update (fun _ => 0#32) 1 0x80000000#32) 2 0xffffffff#32)

theorem user_program_stops_simulator :
    unalignedLoad.oneInstruction = .error .assertion ∧
      overflowingDivision.oneInstruction = .error .division :=
  ⟨rfl, rfl⟩

end Nachos.Machine
