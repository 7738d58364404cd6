import Nachos.Model.Mips

/-! # The stand-alone interpreter

`runprogram` of `bin/execute.c`, with the fields of `bin/instr.h`, the opcodes of `bin/encode.h`
and the memory of `bin/int.h`, on a little-endian host whose `char` is signed. A host `int` is a
32-bit word that wraps around. -/

namespace Nachos

/-- `MEMSIZE` -/
def memSize : ℕ := 2 ^ 24

def memoffset : Word := 0x10000000#32

structure Interpreter where
  reg : BitVec 5 → Word
  hi : Word
  lo : Word
  pc : Word
  npc : Word
  mem : ℕ → Byte

namespace Interpreter

/-- Why `runprogram` does not reach the next instruction by itself: the host leaves undefined what
happens, `u` or the test for coprocessors ends the process, or `system.c` is entered. -/
inductive Stop
  | undefined
  | unimplemented
  | coprocessor
  | systemTrap
  | systemBreak
deriving DecidableEq, Repr

/-! ## Instruction words -/

/-- `((i) >> n) & 0x1f` -/
def field (i : Word) (n : ℕ) : BitVec 5 :=
  (i.sshiftRight n &&& 0x1f#32).setWidth 5

def rd (i : Word) : BitVec 5 := field i 11
def rt (i : Word) : BitVec 5 := field i 16
def rs (i : Word) : BitVec 5 := field i 21
def shamt (i : Word) : BitVec 5 := field i 6

def immed (i : Word) : Word :=
  if i &&& 0x8000#32 ≠ 0#32 then i ||| -0x8000#32 else i &&& 0x7fff#32

/-- The cases of `switch ( instr & 0x0000003f )`. -/
def specialCase : ℕ → Except Stop OpCode
  | 0o00 => .ok .sll
  | 0o02 => .ok .srl
  | 0o03 => .ok .sra
  | 0o04 => .ok .sllv
  | 0o06 => .ok .srlv
  | 0o07 => .ok .srav
  | 0o10 => .ok .jr
  | 0o11 => .ok .jalr
  | 0o14 => .error .systemTrap
  | 0o15 => .error .systemBreak
  | 0o20 => .ok .mfhi
  | 0o21 => .ok .mthi
  | 0o22 => .ok .mflo
  | 0o23 => .ok .mtlo
  | 0o30 => .ok .mult
  | 0o31 => .ok .multu
  | 0o32 => .ok .div
  | 0o33 => .ok .divu
  | 0o40 => .ok .add
  | 0o41 => .ok .addu
  | 0o42 => .ok .sub
  | 0o43 => .ok .subu
  | 0o44 => .ok .and
  | 0o45 => .ok .or
  | 0o46 => .ok .xor
  | 0o47 => .ok .nor
  | 0o52 => .ok .slt
  | 0o53 => .ok .sltu
  | _ => .error .unimplemented

/-- The cases of `switch ( rt(instr) )`. -/
def bcondCase : ℕ → Except Stop OpCode
  | 0o00 => .ok .bltz
  | 0o01 => .ok .bgez
  | 0o20 => .ok .bltzal
  | 0o21 => .ok .bgezal
  | _ => .error .unimplemented

/-- The cases of `switch ( (instr>>26) & 0x0000003f )` that have no switch inside. -/
def normalCase : ℕ → Except Stop OpCode
  | 0o02 => .ok .j
  | 0o03 => .ok .jal
  | 0o04 => .ok .beq
  | 0o05 => .ok .bne
  | 0o06 => .ok .blez
  | 0o07 => .ok .bgtz
  | 0o10 => .ok .addi
  | 0o11 => .ok .addiu
  | 0o12 => .ok .slti
  | 0o13 => .ok .sltiu
  | 0o14 => .ok .andi
  | 0o15 => .ok .ori
  | 0o16 => .ok .xori
  | 0o17 => .ok .lui
  | 0o20 | 0o21 | 0o22 | 0o23 => .error .coprocessor
  | 0o40 => .ok .lb
  | 0o41 => .ok .lh
  | 0o42 => .ok .lwl
  | 0o43 => .ok .lw
  | 0o44 => .ok .lbu
  | 0o45 => .ok .lhu
  | 0o46 => .ok .lwr
  | 0o50 => .ok .sb
  | 0o51 => .ok .sh
  | 0o52 => .error .unimplemented
  | 0o53 => .ok .sw
  | 0o56 => .error .unimplemented
  | 0o60 | 0o61 | 0o62 | 0o63 | 0o70 | 0o71 | 0o72 | 0o73 => .error .coprocessor
  | _ => .error .unimplemented

/-- Which case of the switches is taken. -/
def dispatch (instr : Word) : Except Stop OpCode :=
  match (instr.sshiftRight 26 &&& 0x3f#32).toNat with
  | 0o00 => specialCase (instr &&& 0x3f#32).toNat
  | 0o01 => bcondCase (rt instr).toNat
  | n => normalCase n

/-! ## Memory -/

variable (s : Interpreter)

/-- The index of `(mem-memoffset)[addr]` in `mem`. An access outside `mem`, or one that is not
aligned, is undefined. -/
def index (addr : Word) (size : ℕ) : Except Stop ℕ :=
  let i := (addr - memoffset).toNat
  if i + size ≤ memSize ∧ i % size = 0 then .ok i else .error .undefined

def fetch (addr : Word) : Except Stop Word := do
  return BitVec.ofNat 32 (Machine.load s.mem (← index addr 4) 4)

def ifetch (addr : Word) : Except Stop Word :=
  s.fetch addr

def sfetch (addr : Word) : Except Stop Word := do
  return (BitVec.ofNat 16 (Machine.load s.mem (← index addr 2) 2)).signExtend 32

def usfetch (addr : Word) : Except Stop Word := do
  return (BitVec.ofNat 16 (Machine.load s.mem (← index addr 2) 2)).setWidth 32

def cfetch (addr : Word) : Except Stop Word := do
  return (s.mem (← index addr 1)).signExtend 32

def ucfetch (addr : Word) : Except Stop Word := do
  return (s.mem (← index addr 1)).setWidth 32

/-- `store`, `sstore` and `cstore`, of 4, 2 and 1 bytes. -/
def storeBytes (size : ℕ) (addr value : Word) : Except Stop Interpreter := do
  return { s with mem := Machine.store s.mem (← index addr size) value size }

/-! ## The instructions -/

/-- `Reg[d] = value` -/
def setReg (d : BitVec 5) (value : Word) : Interpreter :=
  { s with reg := Function.update s.reg d value }

variable (xpc instr : Word)

/-- `Reg[rd(instr)] = f(Reg[rs(instr)], Reg[rt(instr)])` -/
def setRd (f : Word → Word → Word) : Interpreter :=
  s.setReg (rd instr) (f (s.reg (rs instr)) (s.reg (rt instr)))

/-- `Reg[rt(instr)] = f(Reg[rs(instr)], immed(instr))` -/
def setRt (f : Word → Word → Word) : Interpreter :=
  s.setReg (rt instr) (f (s.reg (rs instr)) (immed instr))

/-- A shift by `Reg[rs(instr)]`, which is defined below 32. -/
def shiftVariable (f : Word → ℕ → Word) : Except Stop Interpreter :=
  if (s.reg (rs instr)).toNat < 32 then
    .ok (s.setReg (rd instr) (f (s.reg (rt instr)) (s.reg (rs instr)).toNat))
  else .error .undefined

/-- `if ( taken ) npc = xpc + 4 + (immed(instr)<<2);` -/
def branchIf (taken : Bool) : Interpreter :=
  if taken then { s with npc := xpc + 4#32 + immed instr <<< 2 } else s

/-- `Reg[n] = xpc + 8` -/
def link (n : BitVec 5) : Interpreter :=
  s.setReg n (xpc + 8#32)

/-- `npc = (xpc & 0xf0000000) | ((instr & 0x03ffffff) << 2);` -/
def jump : Interpreter :=
  { s with npc := (xpc &&& 0xf0000000#32) ||| ((instr &&& 0x03ffffff#32) <<< 2) }

/-- The high word as MULT and MULTU put it together. -/
def highWord (t1 t2 : Word) : Word :=
  let t1l := t1 &&& 0xffff#32
  let t1h := t1.sshiftRight 16 &&& 0xffff#32
  let t2l := t2 &&& 0xffff#32
  let t2h := t2.sshiftRight 16 &&& 0xffff#32
  t1h * t2h + (t1h * t2l).sshiftRight 16 + (t2h * t1l).sshiftRight 16

/-- MULT. The result is `HI` and `LO`. -/
def mult (t1 t2 : Word) : Word × Word :=
  let neg := t1.slt 0#32 != t2.slt 0#32
  let t1 := if t1.slt 0#32 then -t1 else t1
  let t2 := if t2.slt 0#32 then -t2 else t2
  let lo := t1 * t2
  let hi := highWord t1 t2
  if neg then
    let lo := ~~~lo + 1#32
    (if lo = 0#32 then ~~~hi + 1#32 else ~~~hi, lo)
  else (hi, lo)

def multu (t1 t2 : Word) : Word × Word :=
  (highWord t1 t2, t1 * t2)

def setHiLo (result : Word × Word) : Interpreter :=
  { s with hi := result.1, lo := result.2 }

/-- DIV and DIVU. -/
def divide (f : Word → Word → Except Machine.Abrupt (Word × Word)) : Except Stop Interpreter :=
  match f (s.reg (rs instr)) (s.reg (rt instr)) with
  | .ok (quotient, remainder) => .ok { s with hi := remainder, lo := quotient }
  | .error _ => .error .undefined

/-- `Reg[rs(instr)] + immed(instr)` -/
def address : Word :=
  s.reg (rs instr) + immed instr

/-- `Reg[rt(instr)] = fetch(Reg[rs(instr)] + immed(instr))` -/
def loadFrom (fetch : Interpreter → Word → Except Stop Word) : Except Stop Interpreter := do
  return s.setReg (rt instr) (← fetch s (s.address instr))

/-- `-1 >> n` leaves all the bits, so nothing of the register is masked. -/
def loadLeft : Except Stop Interpreter := do
  let i := s.address instr
  let word ← s.fetch (i &&& 0xfffffffc#32)
  let kept := s.reg (rt instr) &&& (-1#32).sshiftRight (8 * (-i &&& 3#32).toNat)
  return s.setReg (rt instr) (kept ||| word <<< (8 * (i &&& 3#32).toNat))

def loadRight : Except Stop Interpreter := do
  let i := s.address instr
  let word ← s.fetch (i &&& 0xfffffffc#32)
  let kept := s.reg (rt instr) &&& (-1#32) <<< (8 * (i &&& 3#32).toNat)
  let kept := if i &&& 3#32 = 0#32 then 0#32 else kept
  return s.setReg (rt instr) (kept ||| word.sshiftRight (8 * (-i &&& 3#32).toNat))

/-- `store(Reg[rs(instr)] + immed(instr), Reg[rt(instr)])` -/
def storeTo (size : ℕ) : Except Stop Interpreter :=
  s.storeBytes size (s.address instr) (s.reg (rt instr))

/-- What stands behind the cases of the switches. -/
def execute : OpCode → Except Stop Interpreter
  | .sll => .ok (s.setRd instr fun _ rt => rt <<< (shamt instr).toNat)
  | .srl => .ok (s.setRd instr fun _ rt => rt >>> (shamt instr).toNat)
  | .sra => .ok (s.setRd instr fun _ rt => rt.sshiftRight (shamt instr).toNat)
  | .sllv => s.shiftVariable instr fun rt n => rt <<< n
  | .srlv => s.shiftVariable instr fun rt n => rt >>> n
  | .srav => s.shiftVariable instr fun rt n => rt.sshiftRight n
  | .jr => .ok { s with npc := s.reg (rs instr) }
  | .jalr => .ok ({ s with npc := s.reg (rs instr) }.link xpc (rd instr))
  | .mfhi => .ok (s.setReg (rd instr) s.hi)
  | .mthi => .ok { s with hi := s.reg (rs instr) }
  | .mflo => .ok (s.setReg (rd instr) s.lo)
  | .mtlo => .ok { s with lo := s.reg (rs instr) }
  | .mult => .ok (s.setHiLo (mult (s.reg (rs instr)) (s.reg (rt instr))))
  | .multu => .ok (s.setHiLo (multu (s.reg (rs instr)) (s.reg (rt instr))))
  | .div => s.divide instr Machine.divideInt
  | .divu => s.divide instr Machine.divideUnsigned
  | .add | .addu => .ok (s.setRd instr (· + ·))
  | .sub | .subu => .ok (s.setRd instr (· - ·))
  | .and => .ok (s.setRd instr (· &&& ·))
  | .or => .ok (s.setRd instr (· ||| ·))
  | .xor => .ok (s.setRd instr (· ^^^ ·))
  | .nor => .ok (s.setRd instr fun rs rt => ~~~(rs ||| rt))
  | .slt => .ok (s.setRd instr fun rs rt => Machine.flag (rs.slt rt))
  | .sltu => .ok (s.setRd instr fun rs rt => Machine.flag (rs.ult rt))
  | .bltz => .ok (s.branchIf xpc instr ((s.reg (rs instr)).slt 0#32))
  | .bgez => .ok (s.branchIf xpc instr ((0#32).sle (s.reg (rs instr))))
  | .bltzal =>
      let s := s.link xpc 31#5
      .ok (s.branchIf xpc instr ((s.reg (rs instr)).slt 0#32))
  | .bgezal =>
      let s := s.link xpc 31#5
      .ok (s.branchIf xpc instr ((0#32).sle (s.reg (rs instr))))
  | .j => .ok (s.jump xpc instr)
  | .jal => .ok ((s.link xpc 31#5).jump xpc instr)
  | .beq => .ok (s.branchIf xpc instr (s.reg (rs instr) = s.reg (rt instr)))
  | .bne => .ok (s.branchIf xpc instr (s.reg (rs instr) ≠ s.reg (rt instr)))
  | .blez => .ok (s.branchIf xpc instr ((s.reg (rs instr)).sle 0#32))
  | .bgtz => .ok (s.branchIf xpc instr ((0#32).slt (s.reg (rs instr))))
  | .addi | .addiu => .ok (s.setRt instr (· + ·))
  | .slti => .ok (s.setRt instr fun rs immed => Machine.flag (rs.slt immed))
  | .sltiu => .ok (s.setRt instr fun rs immed => Machine.flag (rs.ult immed))
  | .andi => .ok (s.setRt instr (· &&& ·))
  | .ori => .ok (s.setRt instr (· ||| ·))
  | .xori => .ok (s.setRt instr (· ^^^ ·))
  | .lui => .ok (s.setReg (rt instr) (instr <<< 16))
  | .lb => s.loadFrom instr cfetch
  | .lh => s.loadFrom instr sfetch
  | .lwl => s.loadLeft instr
  | .lw => s.loadFrom instr fetch
  | .lbu => s.loadFrom instr ucfetch
  | .lhu => s.loadFrom instr usfetch
  | .lwr => s.loadRight instr
  | .sb => s.storeTo instr 1
  | .sh => s.storeTo instr 2
  | .sw => s.storeTo instr 4
  | .rfe | .swl | .swr | .syscall | .unimp | .res | .special | .bcond => .error .unimplemented

/-- One round of the loop of `runprogram`. -/
def step : Except Stop Interpreter := do
  let xpc := s.pc
  let s := { s with pc := s.npc, npc := s.npc + 4#32 }
  let instr ← s.ifetch xpc
  let s := s.setReg 0#5 0#32
  if instr ≠ 0#32 then s.execute xpc instr (← dispatch instr) else .ok s

/-- `n` rounds of the loop. -/
def run : ℕ → Interpreter → Except Stop Interpreter
  | 0, s => .ok s
  | n + 1, s => do run n (← s.step)

end Interpreter

end Nachos
