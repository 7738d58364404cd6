import Nachos.Model.Machine

/-! # User memory on a host of either byte order

`ReadMem` and `WriteMem` of `machine/translate.cc` read and write the array `mainMemory` through
pointers to integers of the host, and swap their bytes when `HOST_IS_BIG_ENDIAN` is defined. -/

namespace Nachos

/-- The byte order of the host and the configuration of the build. -/
structure Host where
  bigEndian : Bool
  /-- `HOST_IS_BIG_ENDIAN` is defined -/
  hostIsBigEndian : Bool
deriving DecidableEq, Repr

namespace Host

/-! ## Integers of the host -/

/-- The number in `size` bytes, the most significant first. -/
def loadBig (memory : ℕ → Byte) (addr : ℕ) : ℕ → ℕ
  | 0 => 0
  | size + 1 => (memory (addr + size)).toNat + 256 * loadBig memory addr size

def storeBig (memory : ℕ → Byte) (addr : ℕ) (value : Word) : ℕ → ℕ → Byte
  | 0 => memory
  | size + 1 => storeBig (Function.update memory (addr + size) (value.truncate 8)) addr
      (value >>> 8) size

/-- `*(unsigned int *) &memory[addr]`, or `unsigned short` -/
def load (host : Host) (memory : ℕ → Byte) (addr size : ℕ) : ℕ :=
  if host.bigEndian then loadBig memory addr size else Machine.load memory addr size

def store (host : Host) (memory : ℕ → Byte) (addr : ℕ) (value : Word) (size : ℕ) : ℕ → Byte :=
  if host.bigEndian then storeBig memory addr value size
  else Machine.store memory addr value size

/-- The ASSERT of `CheckEndian`, on the bytes 1, 2, 3 and 4. -/
def checkEndian (host : Host) : Bool :=
  let intword := host.load (fun k => BitVec.ofNat 8 (k + 1)) 0 4
  if host.hostIsBigEndian then intword = 0x01020304 else intword = 0x04030201

/-! ## Conversions -/

def wordToHost (host : Host) (word : Word) : Word :=
  if host.hostIsBigEndian then
    ((word >>> 24) &&& 0x000000ff#32) ||| ((word >>> 8) &&& 0x0000ff00#32) |||
      ((word <<< 8) &&& 0x00ff0000#32) ||| ((word <<< 24) &&& 0xff000000#32)
  else word

/-- The shifts are on `int`s. -/
def shortToHost (host : Host) (shortword : BitVec 16) : BitVec 16 :=
  if host.hostIsBigEndian then
    let word := shortword.setWidth 32
    ((word <<< 8) &&& 0xff00#32).setWidth 16 ||| ((word >>> 8) &&& 0x00ff#32).setWidth 16
  else shortword

def wordToMachine (host : Host) (word : Word) : Word :=
  host.wordToHost word

def shortToMachine (host : Host) (shortword : BitVec 16) : BitVec 16 :=
  host.shortToHost shortword

/-! ## `ReadMem` and `WriteMem` -/

def readMem (host : Host) (m : Machine) (addr : Word) (size : ℕ) :
    Except Machine.Trap (Word × Machine) := do
  let (physAddr, m) ← m.translate addr size false
  match size with
  | 1 => .ok ((m.mainMemory physAddr).signExtend 32, m)
  | 2 =>
      let data := host.load m.mainMemory physAddr 2
      .ok ((host.shortToHost (BitVec.ofNat 16 data)).setWidth 32, m)
  | 4 =>
      let data := host.load m.mainMemory physAddr 4
      .ok (host.wordToHost (BitVec.ofNat 32 data), m)
  | _ => .error .assertion

def writeMem (host : Host) (m : Machine) (addr : Word) (size : ℕ) (value : Word) :
    Except Machine.Trap Machine := do
  let (physAddr, m) ← m.translate addr size true
  match size with
  | 1 => .ok { m with
      mainMemory := Function.update m.mainMemory physAddr ((value &&& 0xff#32).setWidth 8) }
  | 2 =>
      let data := host.shortToMachine ((value &&& 0xffff#32).setWidth 16)
      .ok { m with mainMemory := host.store m.mainMemory physAddr (data.setWidth 32) 2 }
  | 4 => .ok { m with
      mainMemory := host.store m.mainMemory physAddr (host.wordToMachine value) 4 }
  | _ => .error .assertion

end Host
end Nachos
