import Nachos.Model.Console

/-! # System calls (`userprog/exception.cc`)

One activation of `ExceptionHandler` runs on the machine and the console. What it asks
from the rest of the kernel and from the host (allocation, the file system, the process
table) is a parameter, so a result about the handler holds whatever these answer. -/

namespace Nachos

/-- Ways in which the kernel does not come back to the caller: `Interrupt::Halt`, a failed
ASSERT or uncaught exception of the host, waiting or looping for ever, and an access
outside an array. -/
inductive Stop
  | halted
  | aborted
  | blocked
  | undefined
deriving DecidableEq, Repr

structure World where
  machine : Machine
  console : SynchConsole

abbrev KernelM := StateT World (Except Stop)

/-- The answers of the code around the handler. -/
structure Env where
  /-- whether `new char[size]` returns a buffer -/
  newChar : ℕ → Bool
  fileCreate : List Byte → Except Stop Bool
  fileOpen : List Byte → Except Stop Bool
  execUpdate : List Byte → Except Stop Word
  joinUpdate : Word → Except Stop Word
  exitUpdate : Word → Except Stop Word
  /-- the registers that other threads leave in the machine -/
  others : Registers → Registers
  /-- the value of an uninitialised `char` -/
  garbage : Byte

namespace Machine

/-- `IncreasePC` -/
def increasePC (m : Machine) : Machine :=
  let counter := m.readRegister pcReg
  let m := m.writeRegister prevPCReg counter
  let counter := m.readRegister nextPCReg
  let m := m.writeRegister pcReg counter
  m.writeRegister nextPCReg (counter + 4#32)

/-- `Thread::SaveUserState` -/
def saveUserState (m : Machine) : Registers :=
  fun i => m.readRegister i

/-- `Thread::RestoreUserState` -/
def restoreUserState (userRegisters : Registers) (m : Machine) : Machine :=
  (List.finRange 40).foldl (fun m i => m.writeRegister i (userRegisters i)) m

end Machine

section Kernel

variable (env : Env)

def readRegister (num : Reg) : KernelM Word :=
  return (← get).machine.readRegister num

def writeRegister (num : Reg) (value : Word) : KernelM Unit :=
  modify fun w => { w with machine := w.machine.writeRegister num value }

def increasePC : KernelM Unit :=
  modify fun w => { w with machine := w.machine.increasePC }

/-- A call that may put the thread to sleep: `Scheduler::Run` saves the user registers,
other threads use the machine, and the registers are restored. -/
def resume : KernelM Unit :=
  modify fun w =>
    let m := { w.machine with registers := env.others w.machine.registers }
    { w with machine := m.restoreUserState w.machine.saveUserState }

/-- The answer of code outside the handler, during which other threads may run. -/
def ask {α : Type} (answer : Except Stop α) : KernelM α := do
  let a ← liftM answer
  resume env
  return a

/-- The branches of `ExceptionHandler` for the exceptions that a memory access can raise. -/
def faultHandler (which : ExceptionType) : KernelM Unit :=
  if which = .noException then pure () else throw .halted

/-- `Machine::RaiseException`, for an exception other than a system call. -/
def raiseFault (which : ExceptionType) (badVAddr : Word) : KernelM Unit := do
  writeRegister badVAddrReg badVAddr
  match (← get).machine.delayedLoad 0#32 0#32 with
  | none => throw .undefined
  | some m => set { (← get) with machine := m }
  faultHandler which

/-- `ReadMem` and `WriteMem` would return FALSE after the handler; no handler comes back. -/
def trap {α : Type} (t : Machine.Trap) (addr : Word) : KernelM α :=
  match t with
  | .assertion => throw .aborted
  | .exception which => do
      raiseFault which addr
      throw .halted

def readMem (addr : Word) (size : ℕ) : KernelM Word := do
  match (← get).machine.readMem addr size with
  | .ok (value, m) =>
      set { (← get) with machine := m }
      return value
  | .error t => trap t addr

def writeMem (addr : Word) (size : ℕ) (value : Word) : KernelM Unit := do
  match (← get).machine.writeMem addr size value with
  | .ok m => set { (← get) with machine := m }
  | .error t => trap t addr

/-- The loop of `User2System` with `room` characters left, up to the first NUL. -/
def user2SystemLoop : ℕ → Word → KernelM (List Byte)
  | 0, _ => return []
  | room + 1, virtAddr => do
      let oneChar ← readMem virtAddr 1
      if oneChar = 0#32 then return []
      else return oneChar.truncate 8 :: (← user2SystemLoop room (virtAddr + 1#32))

/-- `User2System`: the buffer is cleared first, so its contents are the C string of the
characters read. `none` is the NULL pointer. -/
def user2System (virtAddr : Word) (limit : ℕ) : KernelM (Option (List Byte)) := do
  if env.newChar (limit + 1) then return some (← user2SystemLoop limit virtAddr)
  else return none

/-- The `do`/`while` loop of `System2User`, with `len` passes left; the result is the
number of passes. -/
def system2UserLoop : ℕ → Word → List Byte → KernelM ℕ
  | 0, _, _ => return 0
  | _ + 1, _, [] => throw .undefined
  | len + 1, virtAddr, oneChar :: buffer => do
      writeMem virtAddr 1 (oneChar.signExtend 32)
      if oneChar = 0#8 then return 1
      else return 1 + (← system2UserLoop len (virtAddr + 1#32) buffer)

def system2User (virtAddr : Word) (len : ℤ) (buffer : List Byte) : KernelM ℤ := do
  if len < 0 then return -1
  else return (← system2UserLoop len.toNat virtAddr buffer : ℕ)

def consoleRead (numBytes : ℤ) : KernelM (ℤ × List Byte) := do
  match (← get).console.read env.garbage numBytes with
  | none => throw .blocked
  | some (count, stored, console) =>
      set { (← get) with console := console }
      resume env
      return (count, stored)

def consoleWrite (bytes : List Byte) : KernelM Unit := do
  modify fun w => { w with console := w.console.write bytes }
  resume env

/-- How a case of the inner `switch` ends: `break` reaches the `IncreasePC` behind the
switch, `return` leaves the handler. -/
inductive Flow
  | brk
  | ret
deriving DecidableEq, Repr

def scCreate : KernelM Flow := do
  let virtAddr ← readRegister 4
  match ← user2System env virtAddr 33 with
  | none =>
      writeRegister 2 (-1#32)
      return .ret
  | some filename =>
      if ← ask env (env.fileCreate filename) then
        writeRegister 2 0#32
        return .brk
      else
        writeRegister 2 (-1#32)
        return .ret

/-- `filename` is not compared with NULL here; the NULL pointer does not open. -/
def scOpen : KernelM Flow := do
  let virtAddr ← readRegister 4
  let filename ← user2System env virtAddr 32
  let opened ← match filename with
    | none => pure false
    | some filename => ask env (env.fileOpen filename)
  if opened then
    writeRegister 2 0#32
    return .brk
  else
    writeRegister 2 (-1#32)
    return .ret

end Kernel

/-! ## ReadInt and PrintInt -/

def chars (s : String) : List Byte :=
  s.toList.map fun c => BitVec.ofNat 8 c.toNat

/-- `strcmp(s, t) > 0` for C strings given by the bytes before the NUL. -/
def strcmpPos : List Byte → List Byte → Bool
  | [], _ => false
  | _ :: _, [] => true
  | a :: s, b :: t => if a = b then strcmpPos s t else b.toNat < a.toNat

/-- The validation loop from position `i` on: the number of characters before the point
or the end, or `none` when the line is rejected. Characters are signed. -/
def checkDigits : ℕ → List Byte → Option ℕ
  | i, [] => some i
  | i, c :: rest =>
      if c = 46#8 then if rest.all (· = 48#8) then some i else none
      else if c.toInt < 48 ∨ 57 < c.toInt then none
      else checkDigits (i + 1) rest

/-- `number = number * 10 + (int)(buffer[i] - 48)` over the digits. -/
def parseDigits (digits : List Byte) : Word :=
  digits.foldl (fun number c => number * 10#32 + (c.signExtend 32 - 48#32)) 0#32

/-- The number that `SC_ReadInt` puts into r2 for a buffer filled by `Read`; a rejected
line gives `none` (and 0 in r2). -/
def parseInt (count : ℤ) (stored : List Byte) : Option Word :=
  let first := stored.headD 0#8
  let isNegative := first = 45#8
  let firstIndex := if first = 45#8 ∨ first = 43#8 then 1 else 0
  let buffer := stored.takeWhile (· ≠ 0#8)
  match checkDigits firstIndex ((stored.take count.toNat).drop firstIndex) with
  | none => none
  | some last =>
      let numberofNum : ℤ := if count < 0 then count else last
      let tooBig :=
        if firstIndex = 1 then
          11 < numberofNum ∨ numberofNum = 11 ∧
            (if isNegative then strcmpPos buffer (chars "-2147483648")
             else strcmpPos buffer (chars "+2147483647")) = true
        else 10 < numberofNum ∨ numberofNum = 10 ∧ strcmpPos buffer (chars "2147483647") = true
      if tooBig then none
      else
        let number := parseDigits ((stored.take numberofNum.toNat).drop firstIndex)
        some (if isNegative then number * -1#32 else number)

/-- `while (nn) { numberofNum++; nn /= 10; }`; ten passes are enough for 32 bits. -/
def countDigits : ℕ → Word → ℕ
  | 0, _ => 0
  | fuel + 1, nn => if nn = 0#32 then 0 else 1 + countDigits fuel (nn.sdiv 10#32)

/-- The loop that fills the buffer from its right end. -/
def digitChars : ℕ → Word → List Byte
  | 0, _ => []
  | k + 1, number =>
      digitChars k (number.sdiv 10#32) ++ [(number.srem 10#32 + 48#32).truncate 8]

/-- The characters that `SC_PrintInt` writes. -/
def printIntChars (number : Word) : List Byte :=
  if number = 0#32 then [48#8]
  else if number.slt 0#32 then
    let number := number * -1#32
    45#8 :: digitChars (countDigits 11 number) number
  else digitChars (countDigits 11 number) number

section Kernel

variable (env : Env)

def scReadInt : KernelM Flow := do
  let (count, stored) ← consoleRead env 255
  match parseInt count stored with
  | none => writeRegister 2 0#32
  | some number => writeRegister 2 number
  increasePC
  return .ret

def scPrintInt : KernelM Flow := do
  let number ← readRegister 4
  consoleWrite env (printIntChars number)
  increasePC
  return .ret

def scReadChar : KernelM Flow := do
  let (totalBytes, buffer) ← consoleRead env 255
  if 1 < totalBytes then writeRegister 2 0#32
  else if totalBytes = 0 then writeRegister 2 0#32
  else writeRegister 2 ((buffer.headD 0#8).signExtend 32)
  increasePC
  return .brk

def scPrintChar : KernelM Flow := do
  let c ← readRegister 4
  consoleWrite env [c.truncate 8]
  increasePC
  return .brk

/-- `new char[length + 1]` with a negative size does not return. -/
def scReadString : KernelM Flow := do
  let userAddr ← readRegister 4
  let length ← readRegister 5
  let size := (length + 1#32).toInt
  if size < 0 then throw .aborted
  else if env.newChar size.toNat then
    let (numCharRead, stored) ← consoleRead env length.toInt
    let kernelBuf := stored ++ List.replicate (size.toNat - stored.length) 0#8
    let _ ← system2User userAddr (numCharRead + 1) kernelBuf
    increasePC
    return .ret
  else return .ret

/-- The loop of `SC_PrintString` that looks for the end of the string. After `2 ^ 32`
passes every address was seen, so the loop does not end. -/
def stringLimit : ℕ → Word → KernelM ℕ
  | 0, _ => throw .blocked
  | fuel + 1, addr => do
      let ch ← readMem addr 1
      if 0 < ch.toInt then return 1 + (← stringLimit fuel (addr + 1#32))
      else return 0

def scPrintString : KernelM Flow := do
  let userAddr ← readRegister 4
  let limit ← stringLimit (2 ^ 32) userAddr
  match ← user2System env userAddr limit with
  | none => return .ret
  | some kernelBuf =>
      consoleWrite env kernelBuf
      increasePC
      return .ret

def maxFileLength : ℕ := 32

def scExec : KernelM Flow := do
  let virtAddr ← readRegister 4
  match ← user2System env virtAddr (maxFileLength + 1) with
  | none =>
      writeRegister 2 (-1#32)
      increasePC
      return .ret
  | some name =>
      let id ← ask env (env.execUpdate name)
      writeRegister 2 id
      increasePC
      return .ret

/-- The common body of the cases `SC_Join` and `SC_Exit`: the answer of the process table
for r4 goes to r2. -/
def tableCall (call : Word → Except Stop Word) : KernelM Flow := do
  let arg ← readRegister 4
  let res ← ask env (call arg)
  writeRegister 2 res
  increasePC
  return .ret

def scJoin : KernelM Flow :=
  tableCall env env.joinUpdate

def scExit : KernelM Flow :=
  tableCall env env.exitUpdate

/-! ## The handler -/

inductive Syscall
  | halt | exit | exec | join | create | «open» | fork | yield
  | readInt | printInt | readChar | printChar | readString | printString
deriving DecidableEq, Repr

/-- The cases of the switch. `SC_Read`, `SC_Write` and `SC_Close` (6, 7, 8) have none. -/
def Syscall.ofCode (type : Word) : Option Syscall :=
  match type.toNat with
  | 0 => some .halt
  | 1 => some .exit
  | 2 => some .exec
  | 3 => some .join
  | 4 => some .create
  | 5 => some .open
  | 9 => some .fork
  | 10 => some .yield
  | 11 => some .readInt
  | 12 => some .printInt
  | 13 => some .readChar
  | 14 => some .printChar
  | 15 => some .readString
  | 16 => some .printString
  | _ => none

def syscallCase : Option Syscall → KernelM Flow
  | some .halt => throw .halted
  | some .exit => scExit env
  | some .exec => scExec env
  | some .join => scJoin env
  | some .create => scCreate env
  | some .open => scOpen env
  | some .fork => return .brk
  | some .yield => return .brk
  | some .readInt => scReadInt env
  | some .printInt => scPrintInt env
  | some .readChar => scReadChar env
  | some .printChar => scPrintChar env
  | some .readString => scReadString env
  | some .printString => scPrintString env
  | none => throw .halted

def exceptionHandler (which : ExceptionType) : KernelM Unit := do
  let type ← readRegister 2
  match which with
  | .syscallException =>
      let flow ← syscallCase env (Syscall.ofCode type)
      match flow with
      | .brk => increasePC
      | .ret => return ()
  | which => faultHandler which

end Kernel

end Nachos
