import Mathlib.Tactic

/-! # The simulated machine (`machine/machine.h`, `machine/translate.cc`)

Registers are 32-bit words. `mainMemory` is indexed by physical byte address; the last
ASSERT of `Translate` keeps the accesses made through it below `memorySize`. -/

namespace Nachos

def pageSize : ℕ := 512
def numPhysPages : ℕ := 128
def memorySize : ℕ := numPhysPages * pageSize

inductive ExceptionType
  | noException
  | syscallException
  | pageFaultException
  | readOnlyException
  | busErrorException
  | addressErrorException
  | overflowException
  | illegalInstrException
  | numExceptionTypes
deriving DecidableEq, Repr

abbrev Word := BitVec 32
abbrev Byte := BitVec 8

/-- The largest `int`. -/
def intMax : ℤ := 2 ^ 31 - 1

/-- `NumTotalRegs` registers. -/
abbrev Reg := Fin 40

instance neZeroNumTotalRegs : NeZero (40 : ℕ) := ⟨by decide⟩

def pcReg : Reg := 34
def nextPCReg : Reg := 35
def prevPCReg : Reg := 36
def loadReg : Reg := 37
def loadValueReg : Reg := 38
def badVAddrReg : Reg := 39

abbrev Registers := Reg → Word

structure TranslationEntry where
  virtualPage : ℤ
  physicalPage : ℤ
  valid : Bool
  readOnly : Bool
  use : Bool
  dirty : Bool
deriving DecidableEq, Repr

structure Machine where
  registers : Registers
  mainMemory : ℕ → Byte
  tlb : Option (List TranslationEntry)
  pageTable : Option (List TranslationEntry)

namespace Machine

def readRegister (m : Machine) (num : Reg) : Word :=
  m.registers num

def writeRegister (m : Machine) (num : Reg) (value : Word) : Machine :=
  { m with registers := Function.update m.registers num value }

/-- Why a memory access does not complete: a MIPS exception, or a failed ASSERT. -/
inductive Trap
  | exception (which : ExceptionType)
  | assertion
deriving DecidableEq, Repr

/-- A signed field of an entry assigned to an `unsigned int`. -/
def toUnsigned (x : ℤ) : ℕ :=
  (x % 2 ^ 32).toNat

/-- `(size == 4 && (virtAddr & 0x3)) || (size == 2 && (virtAddr & 0x1))` -/
def misaligned (virtAddr : Word) (size : ℕ) : Bool :=
  (size = 4 && virtAddr &&& 3#32 ≠ 0#32) || (size = 2 && virtAddr &&& 1#32 ≠ 0#32)

/-- The part of `Translate` after the entry was found. The result is the physical address
and the entry with its use and dirty bits set. -/
def translateEntry (entry : TranslationEntry) (offset size : ℕ) (writing : Bool) :
    Except Trap (ℕ × TranslationEntry) :=
  if entry.readOnly && writing then .error (.exception .readOnlyException)
  else
    let pageFrame := toUnsigned entry.physicalPage
    if numPhysPages ≤ pageFrame then .error (.exception .busErrorException)
    else
      let physAddr := pageFrame * pageSize + offset
      if physAddr + size ≤ memorySize then
        .ok (physAddr, { entry with use := true, dirty := entry.dirty || writing })
      else .error .assertion

/-- `Translate`. The result is the physical address and the machine whose entry has its
use and dirty bits set. -/
def translate (m : Machine) (virtAddr : Word) (size : ℕ) (writing : Bool) :
    Except Trap (ℕ × Machine) :=
  if misaligned virtAddr size then .error (.exception .addressErrorException)
  else
    let vpn := virtAddr.toNat / pageSize
    let offset := virtAddr.toNat % pageSize
    match m.tlb, m.pageTable with
    | none, some table =>
        match table[vpn]? with
        | none => .error (.exception .addressErrorException)
        | some entry =>
            if entry.valid = false then .error (.exception .pageFaultException)
            else do
              let (physAddr, entry) ← translateEntry entry offset size writing
              .ok (physAddr, { m with pageTable := some (table.set vpn entry) })
    | some tlb, none =>
        match tlb.findIdx? (fun e => e.valid && toUnsigned e.virtualPage = vpn) with
        | none => .error (.exception .pageFaultException)
        | some i =>
            match tlb[i]? with
            | none => .error .assertion
            | some entry => do
                let (physAddr, entry) ← translateEntry entry offset size writing
                .ok (physAddr, { m with tlb := some (tlb.set i entry) })
    | _, _ => .error .assertion

/-- `DelayedLoad`. A pending load register that is no register number would index outside
the array `registers`: `none`. -/
def delayedLoad (m : Machine) (nextReg nextValue : Word) : Option Machine :=
  if h : (m.readRegister loadReg).toNat < 40 then
    let m := m.writeRegister ⟨(m.readRegister loadReg).toNat, h⟩ (m.readRegister loadValueReg)
    some (((m.writeRegister loadReg nextReg).writeRegister loadValueReg
      nextValue).writeRegister 0 0#32)
  else none

/-- The bytes `addr .. addr + size - 1` as a little-endian number, as a little-endian host
reads them. -/
def load (memory : ℕ → Byte) (addr : ℕ) : ℕ → ℕ
  | 0 => 0
  | size + 1 => (memory addr).toNat + 256 * load memory (addr + 1) size

/-- The low `size` bytes of `value`, the least significant at `addr`. -/
def store (memory : ℕ → Byte) (addr : ℕ) (value : Word) : ℕ → ℕ → Byte
  | 0 => memory
  | size + 1 => store (Function.update memory addr (value.truncate 8)) (addr + 1)
      (value >>> 8) size

/-- `ReadMem`: one byte is sign-extended as a `char`, two bytes are zero-extended. -/
def readMem (m : Machine) (addr : Word) (size : ℕ) : Except Trap (Word × Machine) := do
  let (physAddr, m) ← m.translate addr size false
  match size with
  | 1 => .ok ((m.mainMemory physAddr).signExtend 32, m)
  | 2 => .ok (BitVec.ofNat 32 (load m.mainMemory physAddr 2), m)
  | 4 => .ok (BitVec.ofNat 32 (load m.mainMemory physAddr 4), m)
  | _ => .error .assertion

/-- `WriteMem`. -/
def writeMem (m : Machine) (addr : Word) (size : ℕ) (value : Word) : Except Trap Machine := do
  let (physAddr, m) ← m.translate addr size true
  if size = 1 ∨ size = 2 ∨ size = 4 then
    .ok { m with mainMemory := store m.mainMemory physAddr value size }
  else .error .assertion

end Machine

end Nachos
