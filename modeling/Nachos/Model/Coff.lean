import Nachos.Library.Slices
import Nachos.Model.AddrSpace
import Nachos.Model.Disk

/-! # The object converter (`bin/coff2noff.c`, `bin/coff.h`)

`long` has 32 bits, and host words are little-endian. A file is read as far as there are
bytes; what is written arrives. `none` is `exit(1)`. -/

namespace Nachos.Coff

open Slices

/-- The fields of a section header that the converter uses. -/
structure Scnhdr where
  s_name : List Byte
  s_paddr : Word
  s_size : Word
  s_scnptr : Word
deriving DecidableEq, Repr

def MIPSELMAGIC : BitVec 16 := 0x0162#16
def OMAGIC : BitVec 16 := 0o407#16

/-- The sizes of the structures. -/
def sizeofFilehdr : ℕ := 20
def sizeofAouthdr : ℕ := 56
def sizeofScnhdr : ℕ := 40
def sizeofNoffHeader : ℕ := 40

def word (file : List Byte) (addr : ℕ) : Word :=
  wordAt (fun p => file.getD p 0#8) addr

def short (file : List Byte) (addr : ℕ) : BitVec 16 :=
  BitVec.ofNat 16 (Machine.load (fun p => file.getD p 0#8) addr 2)

namespace Scnhdr

/-- The header at `addr`. -/
def ofFile (file : List Byte) (addr : ℕ) : Scnhdr where
  s_name := slice file addr 8
  s_paddr := word file (addr + 8)
  s_size := word file (addr + 16)
  s_scnptr := word file (addr + 20)

/-- `!strcmp(s_name, name)`. A name of eight characters has no NUL, but the names it is
compared with are shorter. -/
def isNamed (s : Scnhdr) (name : String) : Bool :=
  s.s_name.take (name.length + 1) = chars name ++ [0#8]

end Scnhdr

/-- `read(fd, buf, nBytes)` at a position: the result and the bytes. A negative count is too
large as a `size_t`. -/
def readSys (file : List Byte) (position : ℕ) (nBytes : ℤ) : ℤ × List Byte :=
  if nBytes < 0 then (-1, [])
  else ((slice file position nBytes.toNat).length, slice file position nBytes.toNat)

/-- `Read`: the bytes and the position behind them. -/
def read (file : List Byte) (position : ℕ) (nBytes : ℤ) : Option (List Byte × ℕ) :=
  let (result, buf) := readSys file position nBytes
  if result ≠ nBytes then none else some (buf, position + buf.length)

/-- `lseek(fd, offset, 0)` fails for a negative offset, and nobody looks. -/
def lseek (position : ℕ) (offset : ℤ) : ℕ :=
  if offset < 0 then position else offset.toNat

/-- The variables of the loop over the sections: the position in the input, the header, the
`int` that follows the position in the output, and what the output has behind the header. -/
structure Converter where
  fdIn : ℕ
  noffH : NoffHeader
  inNoffFile : Word
  fdOut : List Byte
deriving DecidableEq, Repr

namespace Converter

variable (file : List Byte)

/-- The raw bytes of a section go from one file to the other. A size of -1 is what the failed
`read` and `write` return, so it passes both checks. -/
def copySection (c : Converter) (s : Scnhdr) : Option Converter := do
  let (buffer, fdIn) ← read file (lseek c.fdIn s.s_scnptr.toInt) s.s_size.toInt
  some { c with
    fdIn := fdIn
    fdOut := c.fdOut ++ buffer
    inNoffFile := c.inNoffFile + s.s_size }

/-- One pass of the loop over the sections. -/
def convertSection (c : Converter) (s : Scnhdr) : Option Converter :=
  if s.s_size = 0#32 then some c
  else if s.isNamed ".text" then
    copySection file
      { c with noffH := { c.noffH with code := ⟨s.s_paddr, c.inNoffFile, s.s_size⟩ } } s
  else if s.isNamed ".data" || s.isNamed ".rdata" then
    if c.noffH.initData.size ≠ 0#32 then none
    else
      copySection file
        { c with noffH := { c.noffH with initData := ⟨s.s_paddr, c.inNoffFile, s.s_size⟩ } } s
  else if s.isNamed ".bss" || s.isNamed ".sbss" then
    let uninitData := c.noffH.uninitData
    if uninitData.size ≠ 0#32 then
      if s.s_paddr = uninitData.virtualAddr + uninitData.size then none
      else
        some { c with noffH := { c.noffH with
          uninitData := { uninitData with size := uninitData.size + s.s_size } } }
    else
      some { c with noffH := { c.noffH with
        uninitData := { uninitData with virtualAddr := s.s_paddr, size := s.s_size } } }
  else none

end Converter

/-- The section headers. -/
def sections (file : List Byte) : List Scnhdr :=
  (List.range (short file 2).toNat).map fun i =>
    Scnhdr.ofFile file (sizeofFilehdr + sizeofAouthdr + i * sizeofScnhdr)

/-- The header before the loop; the other fields are uninitialised. -/
def initialHeader (garbage : NoffHeader) : NoffHeader :=
  { garbage with
    noffMagic := noffMagic
    code := { garbage.code with size := 0#32 }
    initData := { garbage.initData with size := 0#32 }
    uninitData := { garbage.uninitData with size := 0#32 } }

/-- `main`, from the contents of the COFF file to those of the NOFF file. -/
def coff2noff (garbage : NoffHeader) (file : List Byte) : Option (List Byte) := do
  let (_, fdIn) ← read file 0 sizeofFilehdr
  if short file 0 ≠ MIPSELMAGIC then none
  else
    let (_, fdIn) ← read file fdIn sizeofAouthdr
    if short file sizeofFilehdr ≠ OMAGIC then none
    else
      let (_, fdIn) ← read file fdIn ((short file 2).toNat * sizeofScnhdr)
      let c ← (sections file).foldlM (Converter.convertSection file)
        ⟨fdIn, initialHeader garbage, BitVec.ofNat 32 sizeofNoffHeader, []⟩
      some (c.noffH.bytes ++ c.fdOut)

end Nachos.Coff
