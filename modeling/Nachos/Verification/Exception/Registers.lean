import Nachos.Verification.Exception.ProgramCounter

/-! # The registers a system call can change

A handler that returns has changed no register but r2 and the program counters. -/

namespace Nachos

open Tracking

/-- The registers that `ExceptionHandler` writes. -/
def handlerRegs : List Reg :=
  [2, prevPCReg, pcReg, nextPCReg]

def World.register (num : Reg) (w : World) : Word :=
  w.machine.readRegister num

section

variable {env : Env} {num : Reg}

theorem keepsRegister {α : Type} {m : KernelM α} (h : Keeps World.registers m) :
    Keeps (World.register num) m :=
  h.map fun registers => registers num

variable (hnum : num ∉ handlerRegs)

include hnum

theorem keepsRegister_write {num' : Reg} (hnum' : num' ∈ handlerRegs) (value : Word) :
    Keeps (World.register num) (writeRegister num' value) := by
  refine keeps_modify fun w => ?_
  have hne : num ≠ num' := by
    rintro rfl
    exact hnum hnum'
  exact Function.update_of_ne hne _ _

theorem keepsRegister_result (value : Word) {k : KernelM Flow}
    (hk : Keeps (World.register num) k) :
    Keeps (World.register num) (do writeRegister 2 value; k) :=
  (keepsRegister_write hnum (by decide) value).bind fun _ => hk

theorem keepsRegister_increasePC : Keeps (World.register num) increasePC := by
  have hne : ∀ num' ∈ handlerRegs, num ≠ num' := by
    rintro num' hnum' rfl
    exact hnum hnum'
  refine keeps_modify fun w => ?_
  simp [World.register, Machine.increasePC, Machine.readRegister, Machine.writeRegister,
    hne prevPCReg (by decide), hne pcReg (by decide), hne nextPCReg (by decide)]

theorem keepsRegister_increasePC_flow (flow : Flow) :
    Keeps (World.register num) (do increasePC; return flow) :=
  (keepsRegister_increasePC hnum).bind fun _ => keeps_pure _

theorem keepsRegister_result_ret (value : Word) :
    Keeps (World.register num) (do writeRegister 2 value; increasePC; return Flow.ret) :=
  keepsRegister_result hnum value (keepsRegister_increasePC_flow hnum .ret)

theorem keepsRegister_tableCall (call : Word → Except Stop Word) :
    Keeps (World.register num) (tableCall env call) :=
  (keepsRegister (keeps_readRegister 4)).bind fun _ =>
    (keepsRegister (keeps_ask _)).bind fun _ => keepsRegister_result_ret hnum _

theorem keepsRegister_scExec : Keeps (World.register num) (scExec env) := by
  apply (keepsRegister (keeps_readRegister 4)).bind
  intro virtAddr
  apply (keepsRegister (keeps_user2System virtAddr _)).bind
  intro name
  cases name with
  | none => exact keepsRegister_result_ret hnum _
  | some name =>
      exact (keepsRegister (keeps_ask _)).bind fun id => keepsRegister_result_ret hnum id

theorem keepsRegister_scCreate : Keeps (World.register num) (scCreate env) := by
  apply (keepsRegister (keeps_readRegister 4)).bind
  intro virtAddr
  apply (keepsRegister (keeps_user2System virtAddr _)).bind
  intro name
  cases name with
  | none => exact keepsRegister_result hnum _ (keeps_pure _)
  | some filename =>
      apply (keepsRegister (keeps_ask _)).bind
      intro created
      exact tracks_ite (keepsRegister_result hnum _ (keeps_pure _))
        (keepsRegister_result hnum _ (keeps_pure _))

theorem keepsRegister_scOpen : Keeps (World.register num) (scOpen env) := by
  apply (keepsRegister (keeps_readRegister 4)).bind
  intro virtAddr
  apply (keepsRegister (keeps_user2System virtAddr _)).bind
  intro name
  have hend (opened : Bool) : Keeps (World.register num)
      (if opened then do writeRegister 2 0#32; return Flow.brk
        else do writeRegister 2 (-1#32); return Flow.ret) :=
    tracks_ite (keepsRegister_result hnum _ (keeps_pure _))
      (keepsRegister_result hnum _ (keeps_pure _))
  cases name with
  | none => exact hend false
  | some filename => exact (keepsRegister (keeps_ask _)).bind hend

theorem keepsRegister_scReadInt : Keeps (World.register num) (scReadInt env) := by
  apply (keepsRegister (keeps_consoleRead 255)).bind
  intro p
  obtain ⟨count, stored⟩ := p
  dsimp only
  cases parseInt count stored with
  | none => exact keepsRegister_result_ret hnum _
  | some number => exact keepsRegister_result_ret hnum _

theorem keepsRegister_scPrintInt : Keeps (World.register num) (scPrintInt env) :=
  (keepsRegister (keeps_readRegister 4)).bind fun _ =>
    (keepsRegister (keeps_consoleWrite _)).bind fun _ => keepsRegister_increasePC_flow hnum .ret

theorem keepsRegister_scPrintChar : Keeps (World.register num) (scPrintChar env) :=
  (keepsRegister (keeps_readRegister 4)).bind fun _ =>
    (keepsRegister (keeps_consoleWrite _)).bind fun _ => keepsRegister_increasePC_flow hnum .brk

theorem keepsRegister_scReadChar : Keeps (World.register num) (scReadChar env) := by
  apply (keepsRegister (keeps_consoleRead 255)).bind
  intro p
  obtain ⟨totalBytes, buffer⟩ := p
  have hend (value : Word) : Keeps (World.register num)
      (do writeRegister 2 value; increasePC; return Flow.brk) :=
    keepsRegister_result hnum value (keepsRegister_increasePC_flow hnum .brk)
  dsimp only
  split
  · exact hend _
  · split
    · exact hend _
    · exact hend _

theorem keepsRegister_scReadString : Keeps (World.register num) (scReadString env) := by
  apply (keepsRegister (keeps_readRegister 4)).bind
  intro userAddr
  apply (keepsRegister (keeps_readRegister 5)).bind
  intro length
  refine tracks_ite (tracks_throw _) (tracks_ite ?_ (keeps_pure _))
  apply (keepsRegister (keeps_consoleRead _)).bind
  intro p
  exact (keepsRegister (keeps_system2User _ _ _)).bind fun _ =>
    keepsRegister_increasePC_flow hnum .ret

theorem keepsRegister_scPrintString : Keeps (World.register num) (scPrintString env) := by
  apply (keepsRegister (keeps_readRegister 4)).bind
  intro userAddr
  apply (keepsRegister (keeps_stringLimit _ _)).bind
  intro limit
  apply (keepsRegister (keeps_user2System _ _)).bind
  intro kernelBuf
  cases kernelBuf with
  | none => exact keeps_pure _
  | some kernelBuf =>
      exact (keepsRegister (keeps_consoleWrite _)).bind fun _ =>
        keepsRegister_increasePC_flow hnum .ret

theorem keepsRegister_syscallCase (c : Option Syscall) :
    Keeps (World.register num) (syscallCase env c) := by
  cases c with
  | none => exact tracks_throw _
  | some c =>
      cases c with
      | halt => exact tracks_throw _
      | exit => exact keepsRegister_tableCall hnum _
      | exec => exact keepsRegister_scExec hnum
      | join => exact keepsRegister_tableCall hnum _
      | create => exact keepsRegister_scCreate hnum
      | «open» => exact keepsRegister_scOpen hnum
      | fork => exact keeps_pure _
      | yield => exact keeps_pure _
      | readInt => exact keepsRegister_scReadInt hnum
      | printInt => exact keepsRegister_scPrintInt hnum
      | readChar => exact keepsRegister_scReadChar hnum
      | printChar => exact keepsRegister_scPrintChar hnum
      | readString => exact keepsRegister_scReadString hnum
      | printString => exact keepsRegister_scPrintString hnum

/-- Whatever the exception, a handler that returns has kept every other register. -/
theorem keepsRegister_exceptionHandler (which : ExceptionType) :
    Keeps (World.register num) (exceptionHandler env which) := by
  apply (keepsRegister (keeps_readRegister 2)).bind
  intro type
  have hfault (which : ExceptionType) : Keeps (World.register num) (faultHandler which) :=
    tracks_ite (keeps_pure _) (tracks_throw _)
  cases which with
  | syscallException =>
      apply (keepsRegister_syscallCase hnum _).bind
      intro flow
      cases flow with
      | brk => exact keepsRegister_increasePC hnum
      | ret => exact keeps_pure _
  | _ => exact hfault _

end

end Nachos
