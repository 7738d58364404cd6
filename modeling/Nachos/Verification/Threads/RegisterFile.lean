import Nachos.Verification.Exception.Registers
import Nachos.Verification.Mips.Exceptions
import Nachos.Verification.Threads.UserContext

/-! # The register file along a run

Register 0 holds zero and the delayed load has a general register as its target, whatever a
user program does, whichever system calls it makes, and whenever it is interrupted or loses
the processor. -/

namespace Nachos

open Runs

/-- What `OneInstruction` needs to find in the registers. -/
structure Registers.Safe (registers : Registers) : Prop where
  zero : registers 0 = 0#32
  load : (registers loadReg).toNat < 32

/-! ## Instructions and exceptions -/

namespace Machine

variable {m m' : Machine}

theorem safe_delayedLoad {nextReg nextValue : Word} (hnext : nextReg.toNat < 32)
    (h : m.delayedLoad nextReg nextValue = some m') : m'.registers.Safe := by
  obtain ⟨-, -, hregister⟩ := delayedLoad_spec h
  refine ⟨hregister 0, ?_⟩
  have hload : m'.registers loadReg = nextReg := hregister loadReg
  rw [hload]
  exact hnext

theorem safe_advance {l : Locals} (hnext : l.nextLoadReg.toNat < 32) (h : m.advance l = .ok m') :
    m'.registers.Safe := by
  obtain ⟨m₁, hdelayed, rfl⟩ := advance_eq_ok h
  have hsafe := safe_delayedLoad hnext hdelayed
  exact ⟨hsafe.zero, hsafe.load⟩

theorem safe_raiseException {which which' : ExceptionType} {badVAddr : Word}
    (h : m.raiseException which badVAddr = .raised which' m') : m'.registers.Safe := by
  rcases raiseException_cases m which badVAddr with ⟨m₁, hdelayed, hraised⟩ | hraised
  · rw [h] at hraised
    cases hraised
    exact safe_delayedLoad (by decide) hdelayed
  · rw [h] at hraised
    cases hraised

/-- An instruction that is executed leaves the registers safe. -/
theorem safe_executed (h : m.oneInstruction = .ok m') : m'.registers.Safe := by
  have hstep := oneInstruction_step m
  generalize m.oneInstruction = result at hstep h
  cases hstep with
  | executed hexecuted => exact safe_advance hexecuted.nextLoadReg h
  | raised _ _ _ => cases h
  | memoryAssertion => cases h
  | assertion _ _ => cases h
  | division _ _ => cases h

/-- An exception finds the registers safe. -/
theorem safe_raised {which : ExceptionType} (h : m.oneInstruction = .error (.raised which m')) :
    m'.registers.Safe := by
  have hstep := oneInstruction_step m
  generalize m.oneInstruction = result at hstep h
  cases hstep with
  | executed _ => exact absurd (advance_eq_error h) (by simp)
  | raised _ _ _ => exact safe_raiseException (Except.error.inj h)
  | memoryAssertion => cases h
  | assertion _ _ => cases h
  | division _ _ => cases h

theorem raiseException_ne_outside (hload : (m.readRegister loadReg).toNat < 32)
    (which : ExceptionType) (badVAddr : Word) : m.raiseException which badVAddr ≠ .outside := by
  have hlt : ((m.writeRegister badVAddrReg badVAddr).readRegister loadReg).toNat < 40 := by
    rw [readRegister_writeRegister, if_neg (by decide)]
    omega
  obtain ⟨m', hdelayed⟩ := delayedLoad_exists _ 0#32 0#32 hlt
  unfold raiseException
  rw [hdelayed]
  simp

/-- With safe registers no access of an instruction is outside the register file. -/
theorem oneInstruction_ne_outside (h : m.registers.Safe) :
    m.oneInstruction ≠ .error .outside := by
  have hstep := oneInstruction_step m
  generalize m.oneInstruction = result at hstep ⊢
  cases hstep with
  | @executed m₁ l hexecuted =>
      have hload : m₁.registers loadReg = m.registers loadReg :=
        hexecuted.control loadReg (by decide)
      obtain ⟨m', hadvance⟩ := advance_exists (m := m₁) l (by
        show (m₁.registers loadReg).toNat < 40
        have hlt := h.load
        rw [hload]
        omega)
      simp [hadvance]
  | @raised m₁ which badVAddr hsame =>
      have hload : m₁.registers loadReg = m.registers loadReg := congrFun hsame.registers loadReg
      have hlt : (m₁.readRegister loadReg).toNat < 32 := by
        show (m₁.registers loadReg).toNat < 32
        rw [hload]
        exact h.load
      simpa using raiseException_ne_outside hlt which badVAddr
  | memoryAssertion => simp
  | assertion _ _ => simp
  | division _ _ => simp

/-- With safe registers a delayed load changes general registers only, but for its own two. -/
theorem delayedLoad_confined (h : m.registers.Safe) (nextReg nextValue : Word) :
    ∃ m', m.delayedLoad nextReg nextValue = some m' ∧
      ∀ num : Reg, 32 ≤ num.val → num ≠ loadReg → num ≠ loadValueReg →
        m'.readRegister num = m.readRegister num := by
  have hlt : (m.readRegister loadReg).toNat < 32 := h.load
  obtain ⟨m', hdelayed⟩ := delayedLoad_exists m nextReg nextValue (by omega)
  refine ⟨m', hdelayed, fun num hnum hload hvalue => ?_⟩
  obtain ⟨-, -, hregister⟩ := delayedLoad_spec hdelayed
  have hzero : num ≠ 0 := by
    rintro rfl
    exact absurd hnum (by decide)
  rw [hregister num, if_neg hzero, if_neg hvalue, if_neg hload, if_neg (by omega)]

end Machine

/-! ## System calls -/

theorem Registers.Safe.update {registers : Registers} (h : registers.Safe) {num : Reg}
    (hnum : num ∈ handlerRegs) (value : Word) :
    Registers.Safe (Function.update registers num value) := by
  have hzero : 0 ≠ num := by
    rintro rfl
    exact absurd hnum (by decide)
  have hload : loadReg ≠ num := by
    rintro rfl
    exact absurd hnum (by decide)
  refine ⟨?_, ?_⟩
  · rw [Function.update_of_ne hzero]
    exact h.zero
  · rw [Function.update_of_ne hload]
    exact h.load

theorem safe_exceptionHandler {env : Env} {which : ExceptionType} {w w' : World}
    (h : w.machine.registers.Safe) (hret : exceptionHandler env which w = .ok ((), w')) :
    w'.machine.registers.Safe := by
  have hzero : w'.machine.registers 0 = w.machine.registers 0 :=
    keepsRegister_exceptionHandler (by decide) which w () w' hret
  have hload : w'.machine.registers loadReg = w.machine.registers loadReg :=
    keepsRegister_exceptionHandler (by decide) which w () w' hret
  refine ⟨hzero.trans h.zero, ?_⟩
  rw [hload]
  exact h.load

/-! ## Where the registers of a run come from -/

/-- A write to the registers of the running thread: an exception is raised by an instruction
in some memory or by an access of the kernel to user memory, the handler writes one register,
or it has returned. -/
inductive KernelWrite (registers : Registers) : Registers → Prop
  | raised {m m' : Machine} {which : ExceptionType} (before : m.registers = registers)
      (raised : m.oneInstruction = .error (.raised which m')) : KernelWrite registers m'.registers
  | faulted {m m' : Machine} {which : ExceptionType} {badVAddr : Word}
      (before : m.registers = registers)
      (raised : m.raiseException which badVAddr = .raised which m') :
      KernelWrite registers m'.registers
  | write {num : Reg} (handler : num ∈ handlerRegs) (value : Word) :
      KernelWrite registers (Function.update registers num value)
  | handled {env : Env} {which : ExceptionType} {w w' : World}
      (before : w.machine.registers = registers)
      (returned : exceptionHandler env which w = .ok ((), w')) :
      KernelWrite registers w'.machine.registers

/-- The turn of `Machine::Run` in which the instruction is executed in some memory, or raised
an exception whose handler has returned. -/
inductive UserTurn (registers : Registers) : Registers → Prop
  | executed {m m' : Machine} (before : m.registers = registers)
      (executed : m.oneInstruction = .ok m') : UserTurn registers m'.registers
  | handled : UserTurn registers registers

/-- The registers that a label brings are those of a user program or of a system call. -/
def System.FromCode (s : System) : System.Label → Prop
  | .writeRegisters registers => KernelWrite s.context.registers registers
  | .instruction registers => UserTurn s.context.registers registers
  | _ => True

theorem KernelWrite.safe {registers registers' : Registers} (h : KernelWrite registers registers')
    (hsafe : registers.Safe) : registers'.Safe := by
  cases h with
  | raised _ raised => exact Machine.safe_raised raised
  | faulted _ raised => exact Machine.safe_raiseException raised
  | write handler value => exact hsafe.update handler value
  | handled before returned => exact safe_exceptionHandler (before ▸ hsafe) returned

theorem UserTurn.safe {registers registers' : Registers} (h : UserTurn registers registers')
    (hsafe : registers.Safe) : registers'.Safe := by
  cases h with
  | executed _ executed => exact Machine.safe_executed executed
  | handled => exact hsafe

theorem safe_initRegisters (space : UserSpace) : space.initRegisters.Safe := by
  have hne : ∀ num : Reg, num ≠ stackReg → num ≠ nextPCReg → space.initRegisters num = 0#32 := by
    intro num hstack hnext
    rw [UserSpace.initRegisters, Function.update_of_ne hstack, Function.update_of_ne hnext]
  refine ⟨hne 0 (by decide) (by decide), ?_⟩
  rw [hne loadReg (by decide) (by decide)]
  decide

namespace System

/-! ## The invariant -/

/-- The registers in the machine, and those with which a thread has lost it, are safe. -/
structure Tame (s : System) : Prop where
  context : s.context.registers.Safe
  entered : ∀ t context, Event.entered t context ∈ s.log → context.registers.Safe
  defined : s.stop ≠ some .undefined

/-- The events that bring no registers into the log. -/
def notEntered : Event → Bool
  | .entered _ _ => false
  | _ => true

namespace Tame

variable {s s' : System}

theorem keep (h : Tame s) (hcontext : s'.context = s.context) (hlog : s'.log = s.log)
    (hstop : s'.stop = s.stop) : Tame s' where
  context := hcontext ▸ h.context
  entered := hlog ▸ h.entered
  defined := hstop ▸ h.defined

theorem abort (h : Tame s) : Tame s.abort :=
  ⟨h.context, h.entered, by simp [System.abort]⟩

theorem emit {event : Event} (h : Tame s) (hevent : notEntered event = true) :
    Tame (s.emit event) := by
  refine ⟨h.context, ?_, h.defined⟩
  intro t context hmem
  rcases List.mem_append.mp hmem with hold | hnew
  · exact h.entered t context hold
  · rw [List.mem_singleton] at hnew
    subst hnew
    cases hevent

theorem setFrames {fs : List Frame} (h : Tame s) : Tame (s.setFrames fs) :=
  h.keep rfl rfl rfl

theorem setLevel {now : IntStatus} {rest : List Frame} (h : Tame s) :
    Tame (s.setLevel now rest) := by
  unfold System.setLevel
  split
  · exact h.abort
  · split
    · exact h.keep rfl rfl rfl
    · exact h.keep rfl rfl rfl

theorem sleep {rest : List Frame} (h : Tame s) : Tame (s.sleep rest) := by
  unfold System.sleep
  split
  · exact h.keep rfl rfl rfl
  · exact h.abort

theorem readyToRun {t : Tid} (h : Tame s) : Tame (s.readyToRun t) := by
  unfold System.readyToRun
  exact emit (h.keep rfl rfl rfl) rfl

theorem call {op : Op} {base : List Frame} (h : Tame s) : Tame (s.call op base) := by
  unfold System.call
  exact setFrames (emit (h.keep rfl rfl rfl) rfl)

theorem testP {sem : SemId} {oldLevel : IntStatus} {base : List Frame} (h : Tame s) :
    Tame (s.testP sem oldLevel base) := by
  unfold System.testP
  split
  · exact setFrames (emit (h.keep rfl rfl rfl) rfl)
  · exact sleep (emit (h.keep rfl rfl rfl) rfl)

theorem bodyV {sem : SemId} (h : Tame s) : Tame (s.bodyV sem) := by
  unfold System.bodyV
  split
  · exact emit (h.keep rfl rfl rfl) rfl
  · exact emit (readyToRun (h.keep rfl rfl rfl)) rfl

theorem acquire {lock : LockId} {oldLevel : IntStatus} {base : List Frame} (h : Tame s) :
    Tame (s.acquire lock oldLevel base) := by
  have hcalled : Tame (s.emit (.acquire lock s.currentThread)) := h.emit rfl
  unfold System.acquire
  dsimp only
  split
  · exact hcalled.setFrames
  · split
    · exact setFrames (emit (hcalled.keep rfl rfl rfl) rfl)
    · exact sleep (hcalled.keep rfl rfl rfl)

theorem release {lock : LockId} {oldLevel : IntStatus} {base : List Frame} (h : Tame s) :
    Tame (s.release lock oldLevel base) := by
  have hcalled : Tame (s.emit (.release lock s.currentThread)) := h.emit rfl
  unfold System.release
  dsimp only
  split
  · exact setFrames (hcalled.keep rfl rfl rfl)
  · exact setFrames (emit (readyToRun (hcalled.keep rfl rfl rfl)) rfl)

theorem fork {t : Tid} {oldLevel : IntStatus} {base : List Frame} (h : Tame s) :
    Tame (s.fork t oldLevel base) := by
  unfold System.fork
  exact setFrames (readyToRun (h.keep rfl rfl rfl))

theorem finish (h : Tame s) : Tame s.finish := by
  unfold System.finish
  exact sleep (emit (h.keep rfl rfl rfl) rfl)

/-- `Run` saves the registers of the machine. -/
theorem saveUserState (h : Tame s) : Tame s.saveUserState := by
  unfold System.saveUserState
  split
  · exact h
  · refine ⟨h.context, ?_, h.defined⟩
    intro t context hmem
    rcases List.mem_append.mp hmem with hold | hnew
    · exact h.entered t context hold
    · rw [List.mem_singleton] at hnew
      cases hnew
      exact h.context

theorem run {next : Tid} {rest : List Frame} (h : Tame s) : Tame (s.run next rest) := by
  unfold System.run
  exact emit (h.saveUserState.keep rfl rfl rfl) rfl

theorem yield {oldLevel : IntStatus} {base : List Frame} (h : Tame s) :
    Tame (s.yield oldLevel base) := by
  unfold System.yield
  split
  · exact h.setFrames
  · exact run (readyToRun (h.keep rfl rfl rfl))

theorem handlerV {sem : SemId} (h : Tame s) : Tame (s.handlerV sem) := by
  have hbody : Tame (({ s with level := .intOff } : System).bodyV sem) :=
    bodyV (h.keep rfl rfl rfl)
  unfold System.handlerV
  dsimp only
  split
  · exact hbody.abort
  · exact emit (hbody.keep rfl rfl rfl) rfl

theorem handle {handler : Handler} (h : Tame s) : Tame (s.handle handler) := by
  cases handler with
  | timer =>
      unfold System.handle
      dsimp only
      split
      · exact h
      · split
        · exact h.keep rfl rfl rfl
        · exact h.abort
  | device sem => exact h.handlerV
  | poll => exact h

/-- An interrupt finishes the load in progress. -/
theorem fire {handler : Handler} (h : Tame s) : Tame (s.fire handler) := by
  unfold System.fire
  split
  · exact h.abort
  · obtain ⟨m', hdelayed, -⟩ := Machine.delayedLoad_confined
      (m := ⟨s.context.registers, fun _ => 0#8, none, none⟩) h.context 0#32 0#32
    have hregisters : delayedLoad s.context.registers = some m'.registers := by
      rw [delayedLoad, hdelayed]
      rfl
    rw [hregisters]
    have hsafe := Machine.safe_delayedLoad (by decide) hdelayed
    have hinside : Tame { s with
        context := { s.context with registers := m'.registers }
        inHandler := true
        machineStatus := .systemMode } :=
      ⟨hsafe, h.entered, h.defined⟩
    exact (hinside.handle).keep rfl rfl rfl

theorem endTick {old : MachineStatus} {rest : List Frame} (h : Tame s) :
    Tame (s.endTick old rest) := by
  unfold System.endTick
  split
  · exact h.abort
  · split
    · exact call (h.keep rfl rfl rfl)
    · exact setFrames (h.keep rfl rfl rfl)

theorem endIdle {rest : List Frame} (h : Tame s) : Tame (s.endIdle rest) := by
  unfold System.endIdle
  split
  · exact h.abort
  · exact setFrames (h.keep rfl rfl rfl)

theorem haltIdle (h : Tame s) : Tame s.haltIdle := by
  unfold System.haltIdle
  split
  · exact h.abort
  · exact ⟨h.context, h.entered, by simp⟩

/-- The context with which a thread last entered `Run` is in the log. -/
theorem mem_of_lastEntered {t : Tid} {log : List Event} {context : Context}
    (h : lastEntered t log = some context) : Event.entered t context ∈ log := by
  induction log using List.reverseRecOn with
  | nil => cases h
  | append_singleton log event ih =>
      rw [List.mem_append, List.mem_singleton]
      cases event with
      | entered t' context' =>
          have hlast : lastEntered t (log ++ [Event.entered t' context']) =
              if t' = t then some context' else lastEntered t log := by
            simp [lastEntered]
          rw [hlast] at h
          split at h
          · rename_i heq
            subst heq
            cases h
            exact .inr rfl
          · exact .inl (ih h)
      | _ =>
          refine .inl (ih ?_)
          rw [← h]
          simp [lastEntered]

/-- `Run` restores registers with which the thread has entered it. -/
theorem restoreUserState (h : Tame s)
    (hentered : ∀ space, (s.threads s.currentThread).space = some space →
      ∃ context, Event.entered s.currentThread context ∈ s.log ∧
        context.registers = (s.threads s.currentThread).userRegisters) :
    Tame s.restoreUserState := by
  unfold System.restoreUserState
  cases hspace : (s.threads s.currentThread).space with
  | none => exact h
  | some space =>
      obtain ⟨context, hmem, hregisters⟩ := hentered space hspace
      have hsafe : (s.threads s.currentThread).userRegisters.Safe :=
        hregisters ▸ h.entered _ _ hmem
      have hrestored : Tame { s with context :=
          ⟨(s.threads s.currentThread).userRegisters, some space.pageTable, space.numPages⟩ } :=
        ⟨hsafe, h.entered, h.defined⟩
      exact hrestored.emit rfl

theorem afterSwitch {rest : List Frame} (h : Tame s) (hsaved : Saved s.view)
    (hnow : s.frames = .afterSwitch :: rest) : Tame (s.afterSwitch rest) := by
  have hentered : ∀ space, (s.threads s.currentThread).space = some space →
      ∃ context, Event.entered s.currentThread context ∈ s.log ∧
        context.registers = (s.threads s.currentThread).userRegisters := by
    intro space hspace
    have hlast := hsaved.saved s.currentThread space hspace (.inr (by
      change suspended s.frames = true
      rw [hnow]
      rfl))
    exact ⟨_, mem_of_lastEntered hlast, rfl⟩
  unfold System.afterSwitch
  split
  · exact setFrames (h.restoreUserState hentered)
  · split
    · exact h.abort
    · refine setFrames (restoreUserState (emit (h.keep rfl rfl rfl) rfl) ?_)
      intro space hspace
      obtain ⟨context, hmem, hregisters⟩ := hentered space hspace
      exact ⟨context, List.mem_append_left _ hmem, hregisters⟩

theorem rule {label : Label} (h : Tame s) (hsaved : Saved s.view) (hfrom : s.FromCode label)
    (hrule : Rule s label s') : Tame s' := by
  cases hrule with
  | call op _ => exact h.call
  | finish _ => exact h.finish
  | setLevel now _ => exact h.setLevel
  | setStatus status _ => exact h.keep rfl rfl rfl
  | writeRegisters registers _ => exact ⟨hfrom.safe h.context, h.entered, h.defined⟩
  | instruction registers _ _ =>
      have hturn : UserTurn s.context.registers registers := hfrom
      exact ⟨hturn.safe h.context, h.entered, h.defined⟩
  | startProcess space _ => exact ⟨safe_initRegisters space, h.entered, h.defined⟩
  | halt _ => exact ⟨h.context, h.entered, by simp⟩
  | threadRoot _ => exact h.setLevel
  | bodyP _ => exact h.testP
  | bodyV _ => exact setFrames h.bodyV
  | bodyAcquire _ => exact h.acquire
  | bodyRelease _ => exact h.release
  | bodyFork _ _ => exact h.fork
  | bodyYield _ => exact h.yield
  | restore _ => exact h.setLevel
  | ret _ => exact setFrames (h.emit rfl)
  | tickInterrupt handler _ => exact h.fire
  | tickQuiet _ => exact h.endTick
  | afterYield _ => exact setFrames (h.keep rfl rfl rfl)
  | dispatch _ _ => exact run (h.keep rfl rfl rfl)
  | beginIdle handler _ _ => exact setFrames (fire (h.keep rfl rfl rfl))
  | haltIdle _ _ => exact h.haltIdle
  | idleInterrupt handler _ => exact h.fire
  | idleQuiet _ => exact h.endIdle
  | afterSwitch hnow => exact h.afterSwitch hsaved hnow

end Tame

theorem tame_boot (initialValue : SemId → ℕ) : Tame (boot initialValue) where
  context := ⟨rfl, show (0#32).toNat < 32 by decide⟩
  entered := by simp [boot]
  defined := by simp [boot]

/-- What holds whenever an instruction is fetched with these registers, in any memory: no
access of the instruction is outside the register file, and the delayed load writes a general
register. -/
structure Fetchable (registers : Registers) : Prop where
  safe : registers.Safe
  inside : ∀ m : Machine, m.registers = registers → m.oneInstruction ≠ .error .outside
  confined : ∀ m : Machine, m.registers = registers → ∀ nextReg nextValue,
    ∃ m', m.delayedLoad nextReg nextValue = some m' ∧
      ∀ num : Reg, 32 ≤ num.val → num ≠ loadReg → num ≠ loadValueReg →
        m'.readRegister num = m.readRegister num

theorem fetchable_of_safe {registers : Registers} (h : registers.Safe) : Fetchable registers where
  safe := h
  inside := by
    rintro m rfl
    exact Machine.oneInstruction_ne_outside h
  confined := by
    rintro m rfl
    exact Machine.delayedLoad_confined h

theorem register_file_invariant (initialValue : SemId → ℕ) (labels : List Label)
    (hfrom : AllSteps step FromCode (boot initialValue) labels) :
    AllStates step (fun s => Fetchable s.context.registers ∧ s.stop ≠ some .undefined)
        (boot initialValue) labels ∧
      ∀ raw, (Instruction.decode raw).Fields ∧ (Instruction.decode raw).opCode.HasCase := by
  refine ⟨?_, fun raw =>
    ⟨Instruction.decode_fields raw, Instruction.decode_opCode_hasCase raw⟩⟩
  have hall : AllStates step (fun s => (WellFormed s ∧ Saved s.view) ∧ Tame s)
      (boot initialValue) labels := by
    apply allStates_of_allSteps ?_
      ⟨⟨wellFormed_boot initialValue, saved_boot initialValue⟩, tame_boot initialValue⟩ hfrom
    rintro s label s' hlabel hstep ⟨⟨hs, hsaved⟩, htame⟩
    refine ⟨hs.step_keep (fun v v' hplaced hmove h => h.move hplaced hmove) hstep hsaved, ?_⟩
    exact htame.rule hsaved hlabel (step_rule hstep).2
  apply hall.mono
  rintro s ⟨-, htame⟩
  exact ⟨fetchable_of_safe htame.context, htame.defined⟩

/-- LW r5, 0(r0) as the first instruction of a program with one page -/
def firstLoad : Machine :=
  Machine.onePage 0x8c050000#32 (UserSpace.initRegisters ⟨0, 1⟩)

def afterFirstLoad : Registers :=
  match firstLoad.oneInstruction with
  | .ok m => m.registers
  | .error _ => firstLoad.registers

/-- The program is started, executes its load and is interrupted while register 5 waits. -/
theorem register_file_invariant_load :
    afterFirstLoad loadReg = 5#32 ∧
      AllStates step (fun s => Fetchable s.context.registers ∧ s.stop ≠ some .undefined)
        (boot fun _ => 0)
        [.startProcess ⟨0, 1⟩, .instruction afterFirstLoad, .interrupt .poll, .quiet] := by
  refine ⟨rfl, (register_file_invariant _ _ ?_).1⟩
  refine AllSteps.cons rfl trivial (AllSteps.cons rfl ?_ (AllSteps.cons rfl trivial
    (AllSteps.cons rfl trivial trivial)))
  exact UserTurn.executed (m := firstLoad) rfl rfl

end System

end Nachos
