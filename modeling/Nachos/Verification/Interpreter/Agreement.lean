import Nachos.Verification.Interpreter.Families

/-! # The two interpreters of the instruction set

As long as the machine executes instructions that are `Alike` and raises no exception, the
interpreter executes the same ones and reaches a state that represents that of the machine. -/

namespace Nachos.Interpreter

open Machine Tracking

/-- The registers that an instruction reads, or writes at once. -/
def touched (raw : Word) : OpCode → List (BitVec 5)
  | .sll | .srl | .sra => [R2000.rt raw, R2000.rd raw]
  | .mfhi | .mflo => [R2000.rd raw]
  | .mthi | .mtlo | .jr | .bltz | .bgez | .blez | .bgtz | .lb | .lbu | .lh | .lhu | .lw =>
      [R2000.rs raw]
  | .bltzal | .bgezal => [R2000.rs raw, 31#5]
  | .jalr => [R2000.rs raw, R2000.rd raw]
  | .j => []
  | .jal => [31#5]
  | .lui => [R2000.rt raw]
  | .addi | .addiu | .slti | .sltiu | .andi | .ori | .xori | .beq | .bne | .mult | .multu | .div
  | .divu | .sb | .sh | .sw => [R2000.rs raw, R2000.rt raw]
  | _ => [R2000.rs raw, R2000.rt raw, R2000.rd raw]

/-- The values of `rs` and `rt` on which the two compute the same. -/
def SameResult (raw rs rt : Word) : OpCode → Prop
  | .or => rt &&& ~~~rs = 0#32
  | .srl => rt.msb = false ∨ (shamt raw).toNat = 0
  | .sllv | .srav => rs.toNat < 32
  | .srlv => rs.toNat < 32 ∧ (rt.msb = false ∨ rs.toNat = 0)
  | .andi => (R2000.immediate raw).msb = false ∨ rs &&& 0xffff0000#32 = 0#32
  | .ori => (R2000.immediate raw).msb = false ∨ rs &&& 0xffff0000#32 = 0xffff0000#32
  | .xori => (R2000.immediate raw).msb = false
  | .mult => NoCarry (abs rs) (abs rt)
  | .multu => NoCarry rs rt
  | .div | .divu => rt ≠ 0#32
  | .jalr => R2000.rs raw ≠ R2000.rd raw
  | .lwl | .lwr => False
  | _ => True

/-- The program counters from which the two go to the same address. -/
def SameTarget (pc nextPC : Word) : OpCode → Prop
  | .beq | .bne | .blez | .bgtz | .bltz | .bgez | .bltzal | .bgezal | .jalr => nextPC = pc + 4#32
  | .j => (nextPC + 4#32) &&& 0xf0000000#32 = pc &&& 0xf0000000#32
  | .jal => nextPC = pc + 4#32 ∧ (nextPC + 4#32) &&& 0xf0000000#32 = pc &&& 0xf0000000#32
  | _ => True

/-- An instruction that the two execute alike. -/
structure Alike (m : Machine) (raw : Word) : Prop where
  handled : (Instruction.decode raw).opCode ∈ handled
  idle : ∀ n ∈ touched raw (Instruction.decode raw).opCode, m.Idle n
  result : SameResult raw (m.general (R2000.rs raw)) (m.general (R2000.rt raw))
    (Instruction.decode raw).opCode
  target : SameTarget (m.readRegister pcReg) (m.readRegister nextPCReg)
    (Instruction.decode raw).opCode

instance SameResult.decidable (raw rs rt : Word) (opCode : OpCode) :
    Decidable (SameResult raw rs rt opCode) := by
  cases opCode <;> unfold SameResult <;> infer_instance

instance SameTarget.decidable (pc nextPC : Word) (opCode : OpCode) :
    Decidable (SameTarget pc nextPC opCode) := by
  cases opCode <;> unfold SameTarget <;> infer_instance

theorem alike_iff {m : Machine} {raw : Word} :
    Alike m raw ↔ (Instruction.decode raw).opCode ∈ handled ∧
      (∀ n ∈ touched raw (Instruction.decode raw).opCode, m.Idle n) ∧
      SameResult raw (m.general (R2000.rs raw)) (m.general (R2000.rt raw))
        (Instruction.decode raw).opCode ∧
      SameTarget (m.readRegister pcReg) (m.readRegister nextPCReg)
        (Instruction.decode raw).opCode :=
  ⟨fun h => ⟨h.handled, h.idle, h.result, h.target⟩,
    fun h => ⟨h.1, h.2.1, h.2.2.1, h.2.2.2⟩⟩

instance Alike.decidable (m : Machine) (raw : Word) : Decidable (Alike m raw) :=
  decidable_of_iff _ alike_iff.symm

variable {m m' m₁ : Machine} {l : Locals} {s : Interpreter} {raw : Word}

theorem negative_eq_slt (x : Word) : negative x = x.slt 0#32 := by
  rw [negative_eq_msb, BitVec.slt_zero_eq_msb]

theorem not_negative_eq_sle (x : Word) : (!negative x) = (0#32).sle x := by
  rw [negative_eq_msb, BitVec.zero_sle_eq_not_msb]

/-- Both have set register 31 before they look at `rs`. -/
theorem follows_linkBranch (h : Executing m l s) (hl : l.NoLoad) (hreads : Reads m s)
    (hnext : m.readRegister nextPCReg = m.readRegister pcReg + 4#32)
    (hextra : (Instruction.decode raw).extra = immed raw) (hrs : m.Idle (R2000.rs raw))
    (hidle : m.Idle 31#5) {taken taken' : Word → Bool} (htaken : ∀ x, taken x = taken' x) :
    Follows (m.link r31 >>= fun m => m.branchZero (.decode raw) l taken)
      (.ok ((s.link (m.readRegister pcReg) 31#5).branchIf (m.readRegister pcReg) raw
        (taken' ((s.link (m.readRegister pcReg) 31#5).reg (rs raw))))) := by
  rw [show r31 = (31#5).toNat from rfl, link_general, ok_bind]
  have hread : (s.link (m.readRegister pcReg) 31#5).reg (R2000.rs raw) =
      (m.setGeneral 31#5 (m.readRegister nextPCReg + 4#32)).general (R2000.rs raw) := by
    have hvalue : m.readRegister nextPCReg + 4#32 = m.readRegister pcReg + 8#32 := by
      rw [hnext, BitVec.add_assoc]
      rfl
    rw [hvalue]
    have hload : (m.setGeneral 31#5 (m.readRegister pcReg + 8#32)).readRegister loadReg =
        m.readRegister loadReg := readRegister_setGeneral m _ _ (by decide)
    exact hreads.setGeneral 31#5 _ _ fun hpending => hrs (hload.symm.trans hpending)
  refine follows_branchZero (h.link hl hnext hidle) ?_ hextra ?_
  · rw [readRegister_setGeneral _ _ _ (by decide), hnext]
  · rw [htaken, rs_eq, hread]

/-! ## The switch -/

theorem immed_and_mask (hmsb : (R2000.immediate raw).msb = false) :
    immed raw &&& 0xffff#32 = immed raw := by
  rw [immed_eq, signExtend_and_mask, BitVec.signExtend_eq_setWidth_of_msb_false hmsb]

theorem andi_eq {rs : Word}
    (h : (R2000.immediate raw).msb = false ∨ rs &&& 0xffff0000#32 = 0#32) :
    rs &&& (immed raw &&& 0xffff#32) = rs &&& immed raw := by
  rcases h with hmsb | hhigh
  · rw [immed_and_mask hmsb]
  · have hlow : rs &&& 0xffff#32 = rs := by
      have hsplit : rs &&& (0xffff#32 ||| 0xffff0000#32) = rs := BitVec.and_allOnes
      rwa [BitVec.and_or_distrib_left, hhigh, BitVec.or_zero] at hsplit
    rw [BitVec.and_comm (immed raw), ← BitVec.and_assoc, hlow]

theorem ori_eq {rs : Word}
    (h : (R2000.immediate raw).msb = false ∨ rs &&& 0xffff0000#32 = 0xffff0000#32) :
    rs ||| (immed raw &&& 0xffff#32) = rs ||| immed raw := by
  rcases h with hmsb | hhigh
  · rw [immed_and_mask hmsb]
  · have hhigh' : rs ||| 0xffff0000#32 = rs := by
      rw [← hhigh, BitVec.or_comm]
      apply BitVec.eq_of_getLsbD_eq
      intro i hi
      cases hbit : rs.getLsbD i <;> simp [hbit]
    have hsplit : (immed raw &&& 0xffff#32) ||| 0xffff0000#32 = immed raw ||| 0xffff0000#32 := by
      apply BitVec.eq_of_getLsbD_eq
      intro i hi
      simp only [BitVec.getLsbD_or, BitVec.getLsbD_and]
      interval_cases i <;> simp
    rw [← hhigh', BitVec.or_assoc, BitVec.or_comm 0xffff0000#32, hsplit, BitVec.or_assoc,
      BitVec.or_comm 0xffff0000#32]

theorem immed_shiftLeft (raw : Word) : immed raw <<< 16 = raw <<< 16 := by
  rw [immed_eq, signExtend_shiftLeft, immediate_eq]
  apply BitVec.eq_of_toNat_eq
  simp only [BitVec.toNat_shiftLeft, BitVec.toNat_setWidth, Nat.shiftLeft_eq]
  omega

/-- One case for each instruction that both know. -/
theorem follows_execute (h : Executing m m.startLocals s) (hreads : Reads m s)
    (halike : Alike m raw) :
    Follows (m.execute (.decode raw) m.startLocals)
      (s.execute (m.readRegister pcReg) raw (Instruction.decode raw).opCode) := by
  have hl : m.startLocals.NoLoad := rfl
  have himmed := @Instruction.extra_immed raw
  have hjump := @Instruction.extra_jump raw
  have hshamt := @Instruction.extra_shamt raw
  have hmem := h.memory
  obtain ⟨hhandled, hidle, hresult, htarget⟩ := halike
  have hrs : R2000.rs raw ∈ touched raw (Instruction.decode raw).opCode →
      s.reg (R2000.rs raw) = m.general (R2000.rs raw) := fun hmem => hreads _ (hidle _ hmem)
  have hrt : R2000.rt raw ∈ touched raw (Instruction.decode raw).opCode →
      s.reg (R2000.rt raw) = m.general (R2000.rt raw) := fun hmem => hreads _ (hidle _ hmem)
  have haddress : (Instruction.decode raw).opCode ∈ Instruction.immedOpCodes →
      R2000.rs raw ∈ touched raw (Instruction.decode raw).opCode →
      s.address raw = m.general (R2000.rs raw) + (Instruction.decode raw).extra := by
    intro hop hmem
    rw [address, rs_eq, hrs hmem, himmed hop]
  unfold Machine.execute execute
  generalize (Instruction.decode raw).opCode = opCode at *
  cases opCode with
  | addu | subu | and | xor | nor | slt | sltu =>
      refine follows_setRd h hl (hidle _ (by simp [touched])) ?_
      rw [hrs (by simp [touched]), hrt (by simp [touched])]
  | add | sub =>
      refine follows_setRdChecked h hl (hidle _ (by simp [touched])) ?_ _
      rw [hrs (by simp [touched]), hrt (by simp [touched])]
  | or =>
      refine follows_setRd h hl (hidle _ (by simp [touched])) ?_
      rw [hrs (by simp [touched]), hrt (by simp [touched]), BitVec.or_self]
      exact ((or_eq_left_iff _ _).mpr hresult).symm
  | addi =>
      refine follows_setRtChecked h hl (hidle _ (by simp [touched])) ?_ _
      rw [hrs (by simp [touched]), himmed (by decide)]
  | addiu | slti | sltiu =>
      refine follows_setRt h hl (hidle _ (by simp [touched])) ?_
      rw [hrs (by simp [touched]), himmed (by decide)]
  | andi =>
      refine follows_setRt h hl (hidle _ (by simp [touched])) ?_
      rw [hrs (by simp [touched]), himmed (by decide)]
      exact andi_eq hresult
  | ori =>
      refine follows_setRt h hl (hidle _ (by simp [touched])) ?_
      rw [hrs (by simp [touched]), himmed (by decide)]
      exact ori_eq hresult
  | xori =>
      refine follows_setRt h hl (hidle _ (by simp [touched])) ?_
      rw [hrs (by simp [touched]), himmed (by decide), immed_and_mask hresult]
  | lui =>
      dsimp only
      rw [setRt_general, himmed (by decide), rt_eq, immed_shiftLeft]
      exact (h.setGeneral hl (hidle _ (by simp [touched])) _).follows
  | sll | sra =>
      refine follows_setRd h hl (hidle _ (by simp [touched])) ?_
      rw [hrt (by simp [touched]), hshamt (by decide)]
  | srl =>
      refine follows_setRd h hl (hidle _ (by simp [touched])) ?_
      rw [hrt (by simp [touched]), hshamt (by decide)]
      exact ((sshiftRight_eq_ushiftRight_iff _ _).mpr hresult).symm
  | sllv | srav =>
      have hrs := hrs (by simp [touched])
      refine follows_shiftVariable h hl (hidle _ (by simp [touched])) (hrs ▸ hresult) ?_
      rw [hrs, hrt (by simp [touched]), shiftAmount_eq, Nat.mod_eq_of_lt hresult]
  | srlv =>
      have hrs := hrs (by simp [touched])
      refine follows_shiftVariable h hl (hidle _ (by simp [touched])) (hrs ▸ hresult.1) ?_
      rw [hrs, hrt (by simp [touched]), shiftAmount_eq, Nat.mod_eq_of_lt hresult.1]
      exact ((sshiftRight_eq_ushiftRight_iff _ _).mpr hresult.2).symm
  | mfhi => exact follows_moveFrom h hl (hidle _ (by simp [touched])) h.hi.symm
  | mflo => exact follows_moveFrom h hl (hidle _ (by simp [touched])) h.lo.symm
  | mthi => exact follows_moveTo_hi h (hrs (by simp [touched]))
  | mtlo => exact follows_moveTo_lo h (hrs (by simp [touched]))
  | mult =>
      exact follows_multiply h (hrs (by simp [touched])) (hrt (by simp [touched]))
        ((mult_eq_iff _ _).mpr hresult)
  | multu =>
      exact follows_multiply h (hrs (by simp [touched])) (hrt (by simp [touched]))
        ((multu_eq_iff _ _).mpr hresult)
  | div | divu =>
      exact follows_divide h (hrs (by simp [touched])) (hrt (by simp [touched])) hresult
  | beq | bne =>
      refine follows_branchTwo h htarget (himmed (by decide)) ?_
      rw [rs_eq, rt_eq, hrs (by simp [touched]), hrt (by simp [touched])]
  | bgtz | blez =>
      refine follows_branchZero h htarget (himmed (by decide)) ?_
      rw [rs_eq, hrs (by simp [touched])]
  | bltz =>
      refine follows_branchZero h htarget (himmed (by decide)) ?_
      rw [rs_eq, hrs (by simp [touched]), negative_eq_slt]
  | bgez =>
      refine follows_branchZero h htarget (himmed (by decide)) ?_
      rw [rs_eq, hrs (by simp [touched]), not_negative_eq_sle]
  | bltzal =>
      exact follows_linkBranch h hl hreads htarget (himmed (by decide))
        (hidle _ (by simp [touched])) (hidle _ (by simp [touched])) negative_eq_slt
  | bgezal =>
      exact follows_linkBranch h hl hreads htarget (himmed (by decide))
        (hidle _ (by simp [touched])) (hidle _ (by simp [touched])) not_negative_eq_sle
  | j => exact follows_jump h (hjump (by decide)) htarget
  | jal =>
      dsimp only
      rw [show r31 = (31#5).toNat from rfl, link_general, ok_bind]
      exact follows_jump (h.link hl htarget.1 (hidle _ (by simp [touched]))) (hjump (by decide))
        htarget.2
  | jr => exact follows_jumpRegister h (hrs (by simp [touched]))
  | jalr =>
      exact follows_jalr h htarget hl (hidle _ (by simp [touched])) (hrs (by simp [touched]))
        hresult
  | lb =>
      exact follows_loadByte h hl (haddress (by decide) (by simp [touched]))
        fun _ _ _ hread => (h.memory.ucfetch_eq hread).2
  | lbu =>
      refine follows_loadByte h hl (haddress (by decide) (by simp [touched])) ?_
      intro a value m' hread
      obtain ⟨hfetch, -, hmemory⟩ := h.memory.ucfetch_eq hread
      exact ⟨hfetch, hmemory⟩
  | lh =>
      exact follows_loadHalf h hl (haddress (by decide) (by simp [touched]))
        fun _ _ _ hread => (h.memory.usfetch_eq hread).2
  | lhu =>
      refine follows_loadHalf h hl (haddress (by decide) (by simp [touched])) ?_
      intro a value m' hread
      obtain ⟨hfetch, -, hmemory⟩ := h.memory.usfetch_eq hread
      exact ⟨hfetch, hmemory⟩
  | lw => exact follows_loadWord h hl (haddress (by decide) (by simp [touched]))
  | sb | sh | sw =>
      exact follows_storeReg h (by decide) (haddress (by decide) (by simp [touched]))
        (hrt (by simp [touched]))
  | lwl | lwr => exact hresult.elim
  | swl | swr | syscall | unimp | res | rfe | special | bcond => exact absurd hhandled (by decide)

/-! ## The whole instruction -/

/-- The word 0 is SLL r0, r0, 0 to the machine and nothing to the interpreter. -/
theorem follows_zero (h : Executing m m.startLocals s) :
    Follows (m.execute (.decode 0#32) m.startLocals) (.ok s) := by
  rw [show m.execute (.decode 0#32) m.startLocals =
    m.setRd (.decode 0#32) m.startLocals fun _ rt => rt <<< 0 from rfl, setRd_general]
  exact (h.setZero rfl _).follows

theorem step_agrees (h : Represents m s)
    (hfetch : m.readMemOrRaise (m.readRegister pcReg) 4 = .ok (raw, m₁)) (halike : Alike m raw)
    (hok : m.oneInstruction = .ok m') : ∃ s', s.step = .ok s' ∧ Represents m' s' := by
  have hsame := sameState_readMemOrRaise hfetch
  have hread (num : Reg) : m₁.readRegister num = m.readRegister num :=
    congrFun hsame.registers num
  have hgeneral (n : BitVec 5) : m₁.general n = m.general n := hread _
  have halike₁ : Alike m₁ raw := by
    obtain ⟨hhandled, hidle, hresult, htarget⟩ := halike
    refine ⟨hhandled, fun n hn hpending => hidle n hn ?_, ?_, ?_⟩
    · rw [← hread]
      exact hpending
    · rw [hgeneral, hgeneral]
      exact hresult
    · rw [hread, hread]
      exact htarget
  obtain ⟨hword, hmemory⟩ := h.memory.fetch_eq hfetch
  obtain ⟨hexecuting, hreads⟩ := h.executing hsame hmemory
  rw [oneInstruction_fetched hfetch] at hok
  obtain ⟨⟨m₂, l⟩, hexecute, hadvance⟩ := except_bind_eq_ok.mp hok
  have hpc : s.pc = m₁.readRegister pcReg := by
    rw [h.pc, hread]
  have hstep : s.step =
      if raw ≠ 0#32 then
        dispatch raw >>= fun opCode => (started s).execute (m₁.readRegister pcReg) raw opCode
      else .ok (started s) := by
    have hifetch : { s with pc := s.npc, npc := s.npc + 4#32 }.ifetch s.pc = .ok raw := by
      rw [h.pc]
      exact hword
    rw [step, hifetch, ok_bind, hpc]
    rfl
  have hfollows : Follows (m₁.execute (.decode raw) m₁.startLocals) s.step := by
    rw [hstep]
    by_cases hzero : raw = 0#32
    · subst hzero
      rw [if_neg (not_not.mpr rfl)]
      exact follows_zero hexecuting
    · rw [if_pos hzero, dispatch_eq halike.handled, ok_bind]
      exact follows_execute hexecuting hreads halike₁
  obtain ⟨s', hs', hdone⟩ := hfollows m₂ l hexecute
  obtain ⟨m₃, hm₃, hrepresents⟩ := hdone.advance
  cases hadvance.symm.trans hm₃
  exact ⟨s', hs', hrepresents⟩

/-! ## Runs -/

/-- A run of the machine: `n` instructions without an exception, each one `Alike`. -/
inductive AlikeRun : ℕ → Machine → Machine → Prop
  | zero (m : Machine) : AlikeRun 0 m m
  | succ {n : ℕ} {m m₀ m₁ m' : Machine} {raw : Word}
      (hfetch : m.readMemOrRaise (m.readRegister pcReg) 4 = .ok (raw, m₀))
      (halike : Alike m raw) (hok : m.oneInstruction = .ok m₁) (hrest : AlikeRun n m₁ m') :
      AlikeRun (n + 1) m m'

/-- Whether the next `n` instructions are such a run. -/
def executesAlike : ℕ → Machine → Bool
  | 0, _ => true
  | n + 1, m =>
      match m.readMemOrRaise (m.readRegister pcReg) 4, m.oneInstruction with
      | .ok (raw, _), .ok m' => Alike m raw && executesAlike n m'
      | _, _ => false

theorem exists_alikeRun {n : ℕ} (h : executesAlike n m = true) : ∃ m', AlikeRun n m m' := by
  induction n generalizing m with
  | zero => exact ⟨m, .zero m⟩
  | succ n ih =>
      unfold executesAlike at h
      split at h
      · rename_i raw m₀ m₁ hfetch hok
        obtain ⟨halike, hrest⟩ := Bool.and_eq_true_iff.mp h
        obtain ⟨m', hrun⟩ := ih hrest
        exact ⟨m', .succ hfetch (of_decide_eq_true halike) hok hrun⟩
      · cases h

/-- On these instructions the two interpreters compute the same registers, program counters and
memory. -/
theorem run_agrees {n : ℕ} (h : Represents m s) (hrun : AlikeRun n m m') :
    ∃ s', s.run n = .ok s' ∧ Represents m' s' := by
  induction hrun generalizing s with
  | zero m => exact ⟨s, rfl, h⟩
  | succ hfetch halike hok hrest ih =>
      obtain ⟨s₁, hstep, h₁⟩ := step_agrees h hfetch halike hok
      obtain ⟨s', hrun, h'⟩ := ih h₁
      refine ⟨s', ?_, h'⟩
      rw [run, hstep]
      exact hrun

/-- The first page of the interpreter's memory in frame 0. -/
def firstPage (registers : Registers) (memory : ℕ → Byte) : Machine where
  registers := registers
  mainMemory := memory
  tlb := some [⟨0x80000, 0, true, false, false, false⟩]
  pageTable := none

theorem address_firstPage {registers : Registers} {memory : ℕ → Byte} {a : Word} {p : ℕ}
    (h : (firstPage registers memory).address false a = some p) :
    a.toNat = 0x10000000 + p ∧ p < pageSize := by
  obtain ⟨m', htranslate⟩ := exists_of_address h
  rw [translate_eq_findEntry] at htranslate
  split_ifs at htranslate
  obtain ⟨⟨i, entry⟩, hfound, htranslate⟩ := except_bind_eq_ok.mp htranslate
  have hpage : a.toNat / pageSize = 0x80000 ∧ entry.physicalPage = 0 := by
    unfold findEntry at hfound
    dsimp only [firstPage] at hfound
    by_cases hvpn : toUnsigned 0x80000 = a.toNat / pageSize
    · have hfind : [(⟨0x80000, 0, true, false, false, false⟩ : TranslationEntry)].findIdx?
          (fun e => e.valid && toUnsigned e.virtualPage = a.toNat / pageSize) = some 0 := by
        simp [hvpn]
      rw [hfind] at hfound
      cases hfound
      exact ⟨hvpn.symm, rfl⟩
    · have hfind : [(⟨0x80000, 0, true, false, false, false⟩ : TranslationEntry)].findIdx?
          (fun e => e.valid && toUnsigned e.virtualPage = a.toNat / pageSize) = none := by
        simp [hvpn]
      rw [hfind] at hfound
      cases hfound
  dsimp only at htranslate
  cases htranslated : translateEntry entry (a.toNat % pageSize) 1 false with
  | error trap =>
      rw [htranslated] at htranslate
      cases htranslate
  | ok translated =>
      rw [htranslated] at htranslate
      cases htranslate
      obtain ⟨-, haddress, -, -⟩ := translateEntry_eq_ok_iff.mp htranslated
      rw [hpage.2, show toUnsigned 0 = 0 from rfl, zero_mul, zero_add] at haddress
      unfold pageSize at *
      omega

theorem sameMemory_firstPage (registers : Registers) (memory : ℕ → Byte) {s : Interpreter}
    (hmem : s.mem = memory) : SameMemory (firstPage registers memory) s := by
  have hoffset {a : Word} {p : ℕ} (h : (firstPage registers memory).address false a = some p) :
      (a - memoffset).toNat = p ∧ p < pageSize := by
    obtain ⟨ha, hp⟩ := address_firstPage h
    rw [BitVec.toNat_sub, memoffset, BitVec.toNat_ofNat]
    unfold pageSize at *
    omega
  refine ⟨fun h => ?_, fun h => ?_, fun h h' => ?_⟩
  · rw [(hoffset h).1]
    exact (hoffset h).2.trans (by decide)
  · rw [(hoffset h).1, hmem]
    rfl
  · apply BitVec.eq_of_toNat_eq
    rw [(address_firstPage h).1, (address_firstPage h').1]

/-- LW r2, 256(r1), then ADDIU r3, r0, 5 while the load is on its way, then ADDU r4, r2, r3. -/
def loadAndAdd : Machine :=
  firstPage (Function.update (Function.update (Function.update (fun _ => 0#32) 1 0x10000000#32)
      pcReg 0x10000000#32) nextPCReg 0x10000004#32)
    (store (store (store (store (fun _ => 0#8) 0 0x8c220100#32 4) 4 0x24030005#32 4)
      8 0x00432021#32 4) 256 37#32 4)

def loadAndAddInterpreter : Interpreter where
  reg := Function.update (fun _ => 0#32) 1#5 0x10000000#32
  hi := 0#32
  lo := 0#32
  pc := 0x10000000#32
  npc := 0x10000004#32
  mem := loadAndAdd.mainMemory

theorem run_agrees_loadAndAdd : ∃ m' s', loadAndAddInterpreter.run 3 = .ok s' ∧
    Represents m' s' ∧ s'.reg 4#5 = 42#32 := by
  have h : Represents loadAndAdd loadAndAddInterpreter :=
    ⟨by decide, rfl, by decide, rfl, rfl, rfl, rfl, sameMemory_firstPage _ _ rfl⟩
  obtain ⟨m', hrun⟩ := exists_alikeRun (show executesAlike 3 loadAndAdd = true by decide +kernel)
  obtain ⟨s', hs', hrepresents⟩ := run_agrees h hrun
  have hvalue : (loadAndAddInterpreter.run 3).map (·.reg 4#5) = .ok 42#32 := rfl
  rw [hs'] at hvalue
  exact ⟨m', s', hs', hrepresents, Except.ok.inj hvalue⟩

end Nachos.Interpreter
