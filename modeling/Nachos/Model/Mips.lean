import Nachos.Model.Machine

/-! # The instruction set (`machine/mipssim.cc`, `machine/mipssim.h`)

A host `int` is a 32-bit word; `+`, `-`, `<<` and the negation wrap around. The fields `rs`,
`rt` and `rd` of an instruction are numbers, so an access outside the array `registers`
can be said. -/

namespace Nachos

inductive OpCode
  | add | addi | addiu | addu | and | andi | beq | bgez | bgezal | bgtz | blez | bltz | bltzal
  | bne | div | divu | j | jal | jalr | jr | lb | lbu | lh | lhu | lui | lw | lwl | lwr | mfhi
  | mflo | mthi | mtlo | mult | multu | nor | or | ori | rfe | sb | sh | sll | sllv | slt | slti
  | sltiu | sltu | sra | srav | srl | srlv | sub | subu | sw | swl | swr | xor | xori | syscall
  | unimp | res
  | special | bcond
deriving DecidableEq, Repr

inductive Format
  | ifmt | jfmt | rfmt
deriving DecidableEq, Repr

structure OpInfo where
  opCode : OpCode
  format : Format
deriving DecidableEq, Repr

/-- The rows of `opTable`. -/
def opRows : List OpInfo :=
  [⟨.special, .rfmt⟩, ⟨.bcond, .ifmt⟩, ⟨.j, .jfmt⟩, ⟨.jal, .jfmt⟩,
   ⟨.beq, .ifmt⟩, ⟨.bne, .ifmt⟩, ⟨.blez, .ifmt⟩, ⟨.bgtz, .ifmt⟩,
   ⟨.addi, .ifmt⟩, ⟨.addiu, .ifmt⟩, ⟨.slti, .ifmt⟩, ⟨.sltiu, .ifmt⟩,
   ⟨.andi, .ifmt⟩, ⟨.ori, .ifmt⟩, ⟨.xori, .ifmt⟩, ⟨.lui, .ifmt⟩,
   ⟨.unimp, .ifmt⟩, ⟨.unimp, .ifmt⟩, ⟨.unimp, .ifmt⟩, ⟨.unimp, .ifmt⟩,
   ⟨.res, .ifmt⟩, ⟨.res, .ifmt⟩, ⟨.res, .ifmt⟩, ⟨.res, .ifmt⟩,
   ⟨.res, .ifmt⟩, ⟨.res, .ifmt⟩, ⟨.res, .ifmt⟩, ⟨.res, .ifmt⟩,
   ⟨.res, .ifmt⟩, ⟨.res, .ifmt⟩, ⟨.res, .ifmt⟩, ⟨.res, .ifmt⟩,
   ⟨.lb, .ifmt⟩, ⟨.lh, .ifmt⟩, ⟨.lwl, .ifmt⟩, ⟨.lw, .ifmt⟩,
   ⟨.lbu, .ifmt⟩, ⟨.lhu, .ifmt⟩, ⟨.lwr, .ifmt⟩, ⟨.res, .ifmt⟩,
   ⟨.sb, .ifmt⟩, ⟨.sh, .ifmt⟩, ⟨.swl, .ifmt⟩, ⟨.sw, .ifmt⟩,
   ⟨.res, .ifmt⟩, ⟨.res, .ifmt⟩, ⟨.swr, .ifmt⟩, ⟨.res, .ifmt⟩,
   ⟨.unimp, .ifmt⟩, ⟨.unimp, .ifmt⟩, ⟨.unimp, .ifmt⟩, ⟨.unimp, .ifmt⟩,
   ⟨.res, .ifmt⟩, ⟨.res, .ifmt⟩, ⟨.res, .ifmt⟩, ⟨.res, .ifmt⟩,
   ⟨.unimp, .ifmt⟩, ⟨.unimp, .ifmt⟩, ⟨.unimp, .ifmt⟩, ⟨.unimp, .ifmt⟩,
   ⟨.res, .ifmt⟩, ⟨.res, .ifmt⟩, ⟨.res, .ifmt⟩, ⟨.res, .ifmt⟩]

/-- The rows of `specialTable`. -/
def specialRows : List OpCode :=
  [.sll, .res, .srl, .sra, .sllv, .res, .srlv, .srav,
   .jr, .jalr, .res, .res, .syscall, .unimp, .res, .res,
   .mfhi, .mthi, .mflo, .mtlo, .res, .res, .res, .res,
   .mult, .multu, .div, .divu, .res, .res, .res, .res,
   .add, .addu, .sub, .subu, .and, .or, .xor, .nor,
   .res, .res, .slt, .sltu, .res, .res, .res, .res,
   .res, .res, .res, .res, .res, .res, .res, .res,
   .res, .res, .res, .res, .res, .res, .res, .res]

def opTable (n : Fin 64) : OpInfo :=
  opRows.get ⟨n, n.isLt⟩

def specialTable (n : Fin 64) : OpCode :=
  specialRows.get ⟨n, n.isLt⟩

/-- `x & 0x3f`, the index of a row. -/
def row (x : Word) : Fin 64 :=
  ⟨(x &&& 0x3f#32).toNat, by
    rw [BitVec.toNat_and]
    exact Nat.and_lt_two_pow _ (by decide : _ < 2 ^ 6)⟩

structure Instruction where
  value : Word
  opCode : OpCode
  rs : ℕ
  rt : ℕ
  rd : ℕ
  extra : Word
deriving DecidableEq, Repr

namespace Instruction

/-- The field `extra` in each format. -/
def decodeExtra (value : Word) : Format → Word
  | .ifmt =>
      let extra := value &&& 0xffff#32
      if extra &&& 0x8000#32 ≠ 0#32 then extra ||| 0xffff0000#32 else extra
  | .rfmt => (value >>> 6) &&& 0x1f#32
  | .jfmt => value &&& 0x3ffffff#32

/-- The second look at the word: `specialTable`, or the field `rt` of a BCOND. -/
def decodeOpCode (value : Word) : OpCode → OpCode
  | .special => specialTable (row value)
  | .bcond =>
      let i := value &&& 0x1f0000#32
      if i = 0#32 then .bltz
      else if i = 0x10000#32 then .bgez
      else if i = 0x100000#32 then .bltzal
      else if i = 0x110000#32 then .bgezal
      else .unimp
  | opCode => opCode

def decode (value : Word) : Instruction :=
  let info := opTable (row (value >>> 26))
  { value := value
    opCode := decodeOpCode value info.opCode
    rs := ((value >>> 21) &&& 0x1f#32).toNat
    rt := ((value >>> 16) &&& 0x1f#32).toNat
    rd := ((value >>> 11) &&& 0x1f#32).toNat
    extra := decodeExtra value info.format }

end Instruction

def hiReg : Reg := 32
def loReg : Reg := 33
def r31 : ℕ := 31

def signBit : Word := 0x80000000#32

def indexToAddr (x : Word) : Word :=
  x <<< 2

/-! ## Host arithmetic -/

/-- The loop of `Mult`: `n` more iterations. The result is `hi` and `lo`. -/
def multLoop : ℕ → Word → Word → Word → Word → Word → Word × Word
  | 0, _, _, _, lo, hi => (hi, lo)
  | n + 1, a, bLo, bHi, lo, hi =>
      let add := a &&& 1#32 ≠ 0#32
      let lo' := if add then lo + bLo else lo
      let hi' := if add then (if lo' < bLo then hi + 1#32 else hi) + bHi else hi
      if add ∧ a &&& 0xfffffffe#32 = 0#32 then (hi', lo')
      else
        multLoop n (a.sshiftRight 1) (bLo <<< 1)
          (if bLo &&& 0x80000000#32 ≠ 0#32 then bHi <<< 1 ||| 1#32 else bHi <<< 1) lo' hi'

/-- `Mult`. The result is `*hiPtr` and `*loPtr`. -/
def mult (a b : Word) (signedArith : Bool) : Word × Word :=
  if a = 0#32 ∨ b = 0#32 then (0#32, 0#32)
  else
    let negateA := signedArith && a.slt 0#32
    let negateB := signedArith && b.slt 0#32
    let a := if negateA then -a else a
    let b := if negateB then -b else b
    let (hi, lo) := multLoop 32 a b 0#32 0#32 0#32
    if negateA != negateB then
      let lo := ~~~lo + 1#32
      (if lo = 0#32 then ~~~hi + 1#32 else ~~~hi, lo)
    else (hi, lo)

namespace Machine

/-- How `OneInstruction` ends before the instruction is executed: `ExceptionHandler` is
entered with the machine `m`; an ASSERT of `OneInstruction`, or one of `ReadMem`, `WriteMem`
and `Translate`, fails; `/` or `%` of the host is applied where it is undefined; an index is
outside the array `registers`. -/
inductive Abrupt
  | raised (which : ExceptionType) (m : Machine)
  | assertion
  | memoryAssertion
  | division
  | outside

/-- `/` and `%` on `int`s, defined when the quotient is an `int`. -/
def divideInt (a b : Word) : Except Abrupt (Word × Word) :=
  if b ≠ 0#32 ∧ -intMax - 1 ≤ a.toInt.tdiv b.toInt ∧ a.toInt.tdiv b.toInt ≤ intMax then
    .ok (BitVec.ofInt 32 (a.toInt.tdiv b.toInt), BitVec.ofInt 32 (a.toInt.tmod b.toInt))
  else .error .division

/-- `/` and `%` on `unsigned int`s. -/
def divideUnsigned (a b : Word) : Except Abrupt (Word × Word) :=
  if b ≠ 0#32 then .ok (a / b, a % b) else .error .division

/-! ## Registers and memory -/

/-- `registers[n]` -/
def register (m : Machine) (n : ℕ) : Except Abrupt Word :=
  if h : n < 40 then .ok (m.readRegister ⟨n, h⟩) else .error .outside

/-- `registers[n] = value` -/
def setRegister (m : Machine) (n : ℕ) (value : Word) : Except Abrupt Machine :=
  if h : n < 40 then .ok (m.writeRegister ⟨n, h⟩ value) else .error .outside

/-- `RaiseException` up to the call of `ExceptionHandler`. -/
def raiseException (m : Machine) (which : ExceptionType) (badVAddr : Word) : Abrupt :=
  match (m.writeRegister badVAddrReg badVAddr).delayedLoad 0#32 0#32 with
  | some m => .raised which m
  | none => .outside

/-- What `ReadMem` and `WriteMem` do about a `Translate` that fails. -/
def orRaise {α : Type} (m : Machine) (addr : Word) : Except Trap α → Except Abrupt α
  | .ok result => .ok result
  | .error (.exception which) => .error (m.raiseException which addr)
  | .error .assertion => .error .memoryAssertion

def readMemOrRaise (m : Machine) (addr : Word) (size : ℕ) : Except Abrupt (Word × Machine) :=
  m.orRaise addr (m.readMem addr size)

def writeMemOrRaise (m : Machine) (addr : Word) (size : ℕ) (value : Word) :
    Except Abrupt Machine :=
  m.orRaise addr (m.writeMem addr size value)

/-! ## The instructions -/

/-- The local variables of `OneInstruction` that are used after the switch. -/
structure Locals where
  pcAfter : Word
  nextLoadReg : Word
  nextLoadValue : Word
deriving DecidableEq, Repr

abbrev Effect := Except Abrupt (Machine × Locals)

variable (m : Machine) (i : Instruction) (l : Locals)

/-- `registers[rd] = f(registers[rs], registers[rt])` -/
def setRd (f : Word → Word → Word) : Effect := do
  let rs ← m.register i.rs
  let rt ← m.register i.rt
  let m ← m.setRegister i.rd (f rs rt)
  return (m, l)

/-- `registers[rt] = f(registers[rs], extra)` -/
def setRt (f : Word → Word → Word) : Effect := do
  let rs ← m.register i.rs
  let m ← m.setRegister i.rt (f rs i.extra)
  return (m, l)

/-- `setRd` unless `overflow`. -/
def setRdChecked (f : Word → Word → Word) (overflow : Word → Word → Bool) : Effect := do
  let rs ← m.register i.rs
  let rt ← m.register i.rt
  if overflow rs rt then .error (m.raiseException .overflowException 0#32)
  else m.setRd i l f

/-- `setRt` unless `overflow`. -/
def setRtChecked (f : Word → Word → Word) (overflow : Word → Word → Bool) : Effect := do
  let rs ← m.register i.rs
  if overflow rs i.extra then .error (m.raiseException .overflowException 0#32)
  else m.setRt i l f

/-- `x & SIGN_BIT` -/
def negative (x : Word) : Bool :=
  x &&& signBit ≠ 0#32

/-- ADD, with `sum = rs + rt` -/
def addOverflow (rs rt : Word) : Bool :=
  !negative (rs ^^^ rt) && negative (rs ^^^ (rs + rt))

/-- ADDI, with `sum = rs + extra` -/
def addiOverflow (rs extra : Word) : Bool :=
  !negative (rs ^^^ extra) && negative (extra ^^^ (rs + extra))

/-- SUB, with `diff = rs - rt` -/
def subOverflow (rs rt : Word) : Bool :=
  negative (rs ^^^ rt) && negative (rs ^^^ (rs - rt))

/-- `registers[n] = registers[NextPCReg] + 4` -/
def link (n : ℕ) : Except Abrupt Machine :=
  m.setRegister n (m.readRegister nextPCReg + 4#32)

/-- `if (taken) pcAfter = registers[NextPCReg] + IndexToAddr(extra)` -/
def branchIf (taken : Bool) : Machine × Locals :=
  (m, if taken then { l with pcAfter := m.readRegister nextPCReg + indexToAddr i.extra } else l)

/-- A branch on `registers[rs]` and `registers[rt]`. -/
def branchTwo (taken : Word → Word → Bool) : Effect := do
  let rs ← m.register i.rs
  let rt ← m.register i.rt
  return m.branchIf i l (taken rs rt)

/-- A branch on `registers[rs]`. -/
def branchZero (taken : Word → Bool) : Effect := do
  let rs ← m.register i.rs
  return m.branchIf i l (taken rs)

def jump : Machine × Locals :=
  (m, { l with pcAfter := (l.pcAfter &&& 0xf0000000#32) ||| indexToAddr i.extra })

def jumpRegister : Effect := do
  let rs ← m.register i.rs
  return (m, { l with pcAfter := rs })

/-- DIV and DIVU: LO and HI are 0 when the divisor is. -/
def divide (f : Word → Word → Except Abrupt (Word × Word)) : Effect := do
  let rs ← m.register i.rs
  let rt ← m.register i.rt
  if rt = 0#32 then
    return ((m.writeRegister loReg 0#32).writeRegister hiReg 0#32, l)
  else
    let (quotient, remainder) ← f rs rt
    return ((m.writeRegister loReg quotient).writeRegister hiReg remainder, l)

def multiply (signedArith : Bool) : Effect := do
  let rs ← m.register i.rs
  let rt ← m.register i.rt
  let (hi, lo) := mult rs rt signedArith
  return ((m.writeRegister hiReg hi).writeRegister loReg lo, l)

/-- MFHI and MFLO -/
def moveFrom (source : Reg) : Effect := do
  let m ← m.setRegister i.rd (m.readRegister source)
  return (m, l)

/-- MTHI and MTLO -/
def moveTo (target : Reg) : Effect := do
  let rs ← m.register i.rs
  return (m.writeRegister target rs, l)

/-- `tmp = registers[rs] + extra` -/
def effectiveAddress : Except Abrupt Word := do
  let rs ← m.register i.rs
  return rs + i.extra

/-- `if (tmp & mask) RaiseException(AddressErrorException, tmp)` -/
def raiseUnlessAligned (mask tmp : Word) : Except Abrupt Unit :=
  if tmp &&& mask ≠ 0#32 then .error (m.raiseException .addressErrorException tmp) else .ok ()

/-- `ASSERT((tmp & 0x3) == 0)` -/
def assertAligned (tmp : Word) : Except Abrupt Unit :=
  if tmp &&& 3#32 = 0#32 then .ok () else .error .assertion

/-- A load that replaces the whole register, from the call of `ReadMem` on. -/
def loadFrom (size : ℕ) (extend : Word → Word) (tmp : Word) : Effect := do
  let (value, m) ← m.readMemOrRaise tmp size
  return (m, { l with nextLoadReg := BitVec.ofNat 32 i.rt, nextLoadValue := extend value })

def loadByte (extend : Word → Word) : Effect := do
  let tmp ← m.effectiveAddress i
  m.loadFrom i l 1 extend tmp

def loadHalf (extend : Word → Word) : Effect := do
  let tmp ← m.effectiveAddress i
  m.raiseUnlessAligned 1#32 tmp
  m.loadFrom i l 2 extend tmp

def loadWord : Effect := do
  let tmp ← m.effectiveAddress i
  m.raiseUnlessAligned 3#32 tmp
  m.loadFrom i l 4 id tmp

/-- LB -/
def signExtendByte (value : Word) : Word :=
  if value &&& 0x80#32 ≠ 0#32 then value ||| 0xffffff00#32 else value &&& 0xff#32

/-- LBU -/
def zeroExtendByte (value : Word) : Word :=
  value &&& 0xff#32

/-- LH -/
def signExtendHalf (value : Word) : Word :=
  if value &&& 0x8000#32 ≠ 0#32 then value ||| 0xffff0000#32 else value &&& 0xffff#32

/-- LHU -/
def zeroExtendHalf (value : Word) : Word :=
  value &&& 0xffff#32

/-- LWL and LWR: `merge` gives the new value from `tmp`, the value the register has or is
about to get, and the word in memory. -/
def loadPart (merge : Word → Word → Word → Word) : Effect := do
  let tmp ← m.effectiveAddress i
  assertAligned tmp
  let (value, m) ← m.readMemOrRaise tmp 4
  let rt ← m.register i.rt
  let nextLoadValue :=
    if m.readRegister loadReg = BitVec.ofNat 32 i.rt then m.readRegister loadValueReg else rt
  return (m, { l with
    nextLoadReg := BitVec.ofNat 32 i.rt
    nextLoadValue := merge tmp nextLoadValue value })

/-- The switch of LWL on `tmp & 0x3`. -/
def mergeLwl (tmp old value : Word) : Word :=
  match (tmp &&& 3#32).toNat with
  | 0 => value
  | 1 => (old &&& 0xff#32) ||| (value <<< 8)
  | 2 => (old &&& 0xffff#32) ||| (value <<< 16)
  | _ => (old &&& 0xffffff#32) ||| (value <<< 24)

/-- The switch of LWR; `>>` is on `int`s. -/
def mergeLwr (tmp old value : Word) : Word :=
  match (tmp &&& 3#32).toNat with
  | 0 => (old &&& 0xffffff00#32) ||| (value.sshiftRight 24 &&& 0xff#32)
  | 1 => (old &&& 0xffff0000#32) ||| (value.sshiftRight 16 &&& 0xffff#32)
  | 2 => (old &&& 0xff000000#32) ||| (value.sshiftRight 8 &&& 0xffffff#32)
  | _ => value

def storeReg (size : ℕ) : Effect := do
  let rs ← m.register i.rs
  let rt ← m.register i.rt
  let m ← m.writeMemOrRaise (rs + i.extra) size rt
  return (m, l)

/-- SWL and SWR: `merge` gives the new word from `tmp`, the word in memory and the
register. -/
def storePart (merge : Word → Word → Word → Word) : Effect := do
  let tmp ← m.effectiveAddress i
  assertAligned tmp
  let (value, m) ← m.readMemOrRaise (tmp &&& ~~~3#32) 4
  let rt ← m.register i.rt
  let m ← m.writeMemOrRaise (tmp &&& ~~~3#32) 4 (merge tmp value rt)
  return (m, l)

/-- The switch of SWL. -/
def mergeSwl (tmp value rt : Word) : Word :=
  match (tmp &&& 3#32).toNat with
  | 0 => rt
  | 1 => (value &&& 0xff000000#32) ||| (rt.sshiftRight 8 &&& 0xffffff#32)
  | 2 => (value &&& 0xffff0000#32) ||| (rt.sshiftRight 16 &&& 0xffff#32)
  | _ => (value &&& 0xffffff00#32) ||| (rt.sshiftRight 24 &&& 0xff#32)

/-- The switch of SWR. -/
def mergeSwr (tmp value rt : Word) : Word :=
  match (tmp &&& 3#32).toNat with
  | 0 => (value &&& 0xffffff#32) ||| (rt <<< 24)
  | 1 => (value &&& 0xffff#32) ||| (rt <<< 16)
  | 2 => (value &&& 0xff#32) ||| (rt <<< 8)
  | _ => rt

/-- An `int` that is 1 or 0. -/
def flag (b : Bool) : Word :=
  if b then 1#32 else 0#32

/-- `x & 0x1f` as a shift amount. -/
def shiftAmount (x : Word) : ℕ :=
  (x &&& 0x1f#32).toNat

/-- The switch of `OneInstruction`. OR has the register `rs` twice, and the shifts of SRL and
SRLV are on an `int`. -/
def execute : Effect :=
  match i.opCode with
  | .add => m.setRdChecked i l (· + ·) addOverflow
  | .addi => m.setRtChecked i l (· + ·) addiOverflow
  | .addiu => m.setRt i l (· + ·)
  | .addu => m.setRd i l (· + ·)
  | .and => m.setRd i l (· &&& ·)
  | .andi => m.setRt i l fun rs extra => rs &&& (extra &&& 0xffff#32)
  | .beq => m.branchTwo i l fun rs rt => rs = rt
  | .bgezal => do (← m.link r31).branchZero i l fun rs => !negative rs
  | .bgez => m.branchZero i l fun rs => !negative rs
  | .bgtz => m.branchZero i l fun rs => (0#32).slt rs
  | .blez => m.branchZero i l fun rs => rs.sle 0#32
  | .bltzal => do (← m.link r31).branchZero i l negative
  | .bltz => m.branchZero i l negative
  | .bne => m.branchTwo i l fun rs rt => rs ≠ rt
  | .div => m.divide i l divideInt
  | .divu => m.divide i l divideUnsigned
  | .jal => do return (← m.link r31).jump i l
  | .j => .ok (m.jump i l)
  | .jalr => do (← m.link i.rd).jumpRegister i l
  | .jr => m.jumpRegister i l
  | .lb => m.loadByte i l signExtendByte
  | .lbu => m.loadByte i l zeroExtendByte
  | .lh => m.loadHalf i l signExtendHalf
  | .lhu => m.loadHalf i l zeroExtendHalf
  | .lui => m.setRt i l fun _ extra => extra <<< 16
  | .lw => m.loadWord i l
  | .lwl => m.loadPart i l mergeLwl
  | .lwr => m.loadPart i l mergeLwr
  | .mfhi => m.moveFrom i l hiReg
  | .mflo => m.moveFrom i l loReg
  | .mthi => m.moveTo i l hiReg
  | .mtlo => m.moveTo i l loReg
  | .mult => m.multiply i l true
  | .multu => m.multiply i l false
  | .nor => m.setRd i l fun rs rt => ~~~(rs ||| rt)
  | .or => m.setRd i l fun rs _ => rs ||| rs
  | .ori => m.setRt i l fun rs extra => rs ||| (extra &&& 0xffff#32)
  | .sb => m.storeReg i l 1
  | .sh => m.storeReg i l 2
  | .sll => m.setRd i l fun _ rt => rt <<< i.extra.toNat
  | .sllv => m.setRd i l fun rs rt => rt <<< shiftAmount rs
  | .slt => m.setRd i l fun rs rt => flag (rs.slt rt)
  | .slti => m.setRt i l fun rs extra => flag (rs.slt extra)
  | .sltiu => m.setRt i l fun rs extra => flag (rs.ult extra)
  | .sltu => m.setRd i l fun rs rt => flag (rs.ult rt)
  | .sra => m.setRd i l fun _ rt => rt.sshiftRight i.extra.toNat
  | .srav => m.setRd i l fun rs rt => rt.sshiftRight (shiftAmount rs)
  | .srl => m.setRd i l fun _ rt => rt.sshiftRight i.extra.toNat
  | .srlv => m.setRd i l fun rs rt => rt.sshiftRight (shiftAmount rs)
  | .sub => m.setRdChecked i l (· - ·) subOverflow
  | .subu => m.setRd i l (· - ·)
  | .sw => m.storeReg i l 4
  | .swl => m.storePart i l mergeSwl
  | .swr => m.storePart i l mergeSwr
  | .syscall => .error (m.raiseException .syscallException 0#32)
  | .xor => m.setRd i l (· ^^^ ·)
  | .xori => m.setRt i l fun rs extra => rs ^^^ (extra &&& 0xffff#32)
  | .res | .unimp => .error (m.raiseException .illegalInstrException 0#32)
  | .rfe | .special | .bcond => .error .assertion

/-- The end of `OneInstruction`: the delayed load, then the program counters. -/
def advance : Except Abrupt Machine :=
  match m.delayedLoad l.nextLoadReg l.nextLoadValue with
  | none => .error .outside
  | some m =>
      let m := m.writeRegister prevPCReg (m.readRegister pcReg)
      let m := m.writeRegister pcReg (m.readRegister nextPCReg)
      .ok (m.writeRegister nextPCReg l.pcAfter)

def oneInstruction : Except Abrupt Machine := do
  let (raw, m) ← m.readMemOrRaise (m.readRegister pcReg) 4
  let (m, l) ← m.execute (Instruction.decode raw)
    { pcAfter := m.readRegister nextPCReg + 4#32, nextLoadReg := 0#32, nextLoadValue := 0#32 }
  m.advance l

end Machine

end Nachos
