import Nachos.Library.I386
import Nachos.Model.Machine

/-! # Context switches on the i386

`threads/switch.s` and `threads/switch.h` for HOST_i386, with `Thread::StackAllocate`,
`Thread::CheckOverflow` and the call of `SWITCH` in `Scheduler::Run`. A `Thread` object is known
by its address. Only its first members, `stackTop` and `machineState`, are in the memory of the
model, since `switch.s` knows where they are. -/

namespace Nachos

def machineStateSize : ℕ := 18

/-- `StackSize`, in words. -/
def stackSize : ℕ := 4 * 1024

def stackFencepost : Word := 0xdeadbeef#32

namespace Switch

open I386 (Operand Register)

/-! ## `switch.h` -/

/-- `_ESP` to `_EDI` -/
def offset : Register → Word
  | .esp => 0#32
  | .eax => 4#32
  | .ebx => 8#32
  | .ecx => 12#32
  | .edx => 16#32
  | .ebp => 20#32
  | .esi => 24#32
  | .edi => 28#32

/-- `_PC` -/
def pcOffset : Word := 32#32

/-- An index into `machineState`. -/
def stateIndex (offset : Word) : Word :=
  offset.udiv 4#32 - 1#32

def pcState : Word := stateIndex pcOffset
def initialPCState : Word := stateIndex (offset .esi)
def initialArgState : Word := stateIndex (offset .edx)
def whenDonePCState : Word := stateIndex (offset .edi)
def startupPCState : Word := stateIndex (offset .ecx)

def initialPC : Register := .esi
def initialArg : Register := .edx
def whenDonePC : Register := .edi
def startupPC : Register := .ecx

/-- `&thread->machineState[i]` -/
def machineState (thread i : Word) : Word :=
  thread + 4#32 + 4#32 * i

/-! ## `switch.s` -/

/-- The addresses that the linker chooses. -/
structure Symbols where
  eaxSave : Word
  threadRoot : Word
  interruptEnable : Word
  threadFinish : Word

variable (symbols : Symbols)

def eax : Operand := .register .eax
def ebx : Operand := .register .ebx
def savedAt (r : Register) : Operand := .indirect (offset r) .eax

/-- `SWITCH` up to the point where `eax` points to `t2`. -/
def saveCode : List I386.Instruction :=
  [.movl eax (.absolute symbols.eaxSave),
   .movl (.indirect 4#32 .esp) eax,
   .movl ebx (savedAt .ebx),
   .movl (.register .ecx) (savedAt .ecx),
   .movl (.register .edx) (savedAt .edx),
   .movl (.register .esi) (savedAt .esi),
   .movl (.register .edi) (savedAt .edi),
   .movl (.register .ebp) (savedAt .ebp),
   .movl (.register .esp) (savedAt .esp),
   .movl (.absolute symbols.eaxSave) ebx,
   .movl ebx (savedAt .eax),
   .movl (.indirect 0#32 .esp) ebx,
   .movl ebx (.indirect pcOffset .eax)]

/-- The rest of `SWITCH`, but for its `ret`. -/
def restoreCode : List I386.Instruction :=
  [.movl (.indirect 8#32 .esp) eax,
   .movl (savedAt .eax) ebx,
   .movl ebx (.absolute symbols.eaxSave),
   .movl (savedAt .ebx) ebx,
   .movl (savedAt .ecx) (.register .ecx),
   .movl (savedAt .edx) (.register .edx),
   .movl (savedAt .esi) (.register .esi),
   .movl (savedAt .edi) (.register .edi),
   .movl (savedAt .ebp) (.register .ebp),
   .movl (savedAt .esp) (.register .esp),
   .movl (.indirect pcOffset .eax) eax,
   .movl eax (.indirect 4#32 .esp),
   .movl (.absolute symbols.eaxSave) eax]

/-- `SWITCH`. The result is where it returns to, and the state there. -/
def switch (s : I386.State) : Word × I386.State :=
  ((s.run (saveCode symbols)).run (restoreCode symbols)).ret

/-- What a procedure at an address does from its first instruction up to its `ret`. -/
abbrev Callee := Word → I386.State → I386.State

/-- `call *r` in `ThreadRoot`, followed by the procedure. `calls` are the addresses that were
called, with the states in which the procedures were entered. -/
def callThrough (callee : Callee) (returnAddress : Word) (r : Register)
    (s : List (Word × I386.State) × I386.State) : List (Word × I386.State) × I386.State :=
  let entered := s.2.call returnAddress
  (s.1 ++ [(s.2.registers r, entered)], callee (s.2.registers r) entered)

/-- `ThreadRoot` up to the end of the last procedure; `returns` are the addresses behind its
three calls. -/
def threadRoot (callee : Callee) (returns : Word × Word × Word) (s : I386.State) :
    List (Word × I386.State) × I386.State :=
  let s := s.run [.pushl (.register .ebp), .movl (.register .esp) (.register .ebp),
    .pushl (.register initialArg)]
  callThrough callee returns.2.2 whenDonePC <| callThrough callee returns.2.1 initialPC <|
    callThrough callee returns.1 startupPC ([], s)

/-! ## `thread.cc` and `scheduler.cc` -/

/-- `thread->StackAllocate(func, arg)` when `AllocBoundedArray` returns `stack`, as far as it
writes to memory. -/
def stackAllocate (memory : I386.Memory) (thread stack func arg : Word) : I386.Memory :=
  let stackTop := stack + 4#32 * (BitVec.ofNat 32 stackSize - 4#32)
  let memory := I386.store memory thread stackTop
  let stackTop := stackTop - 4#32
  let memory := I386.store memory thread stackTop
  let memory := I386.store memory stackTop symbols.threadRoot
  let memory := I386.store memory stack stackFencepost
  let memory := I386.store memory (machineState thread pcState) symbols.threadRoot
  let memory := I386.store memory (machineState thread startupPCState) symbols.interruptEnable
  let memory := I386.store memory (machineState thread initialPCState) func
  let memory := I386.store memory (machineState thread initialArgState) arg
  I386.store memory (machineState thread whenDonePCState) symbols.threadFinish

end Switch

/-- The processor of the host, with what the kernel knows of its threads: `threads` are the
objects that have a stack, `stack` is the member of this name, NULL for the main thread.
`pc` is where the current thread goes on. -/
structure Processor where
  state : I386.State
  pc : Word
  currentThread : Word
  threads : List Word
  stack : Word → Option Word
  aborted : Bool

namespace Processor

open Switch

/-- `Initialize`: the main thread has no stack of its own. -/
def boot (state : I386.State) (pc mainThread : Word) : Processor where
  state := state
  pc := pc
  currentThread := mainThread
  threads := [mainThread]
  stack _ := none
  aborted := false

/-- The condition of the ASSERT in `CheckOverflow`. -/
def checkOverflow (p : Processor) (thread : Word) : Bool :=
  match p.stack thread with
  | none => true
  | some stack => I386.load p.state.memory stack = stackFencepost

/-- The code that the compiler makes of a call of `SWITCH(oldThread, nextThread)`. -/
def callSwitch (s : I386.State) (oldThread nextThread returnAddress : Word) : I386.State :=
  ((s.push nextThread).push oldThread).call returnAddress

/-- `code` is what the code of the current thread does between two other labels. -/
inductive Label
  | code (state : I386.State) (pc : Word)
  | fork (thread stack func arg : Word)
  | run (nextThread returnAddress : Word)
  | delete (thread : Word)

variable (symbols : Symbols)

/-- `Scheduler::Run` from `CheckOverflow` to the return from `SWITCH`. -/
def run (p : Processor) (nextThread returnAddress : Word) : Processor :=
  if p.checkOverflow p.currentThread then
    let (pc, state) :=
      switch symbols (callSwitch p.state p.currentThread nextThread returnAddress)
    { p with state := state, pc := pc, currentThread := nextThread }
  else { p with aborted := true }

def step (p : Processor) (label : Label) : Option Processor :=
  if p.aborted then none
  else
    match label with
    | .code state pc => some { p with state := state, pc := pc }
    | .fork thread stack func arg =>
        if thread ∈ p.threads then none
        else some { p with
          state := { p.state with
            memory := stackAllocate symbols p.state.memory thread stack func arg }
          threads := thread :: p.threads
          stack := Function.update p.stack thread (some stack) }
    | .run nextThread returnAddress =>
        if nextThread ∈ p.threads ∧ nextThread ≠ p.currentThread then
          some (p.run symbols nextThread returnAddress)
        else none
    | .delete thread =>
        if thread = p.currentThread then none
        else some { p with threads := p.threads.filter (· ≠ thread) }

end Processor
end Nachos
