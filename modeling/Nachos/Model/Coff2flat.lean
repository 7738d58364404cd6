import Nachos.Model.Coff

/-! # The flat converter (`bin/coff2flat.c`)

The input is read as by `coff2noff`. A hole in the output reads as zeros. -/

namespace Nachos.Coff

def stackSize : Word := 1024#32

/-- `write(fd, buf, nBytes)` at a position of the output. -/
def writeAt (file : List Byte) (position : ℕ) (buf : List Byte) : List Byte :=
  file.take position ++ .replicate (position - file.length) 0#8 ++ buf ++
    file.drop (position + buf.length)

/-- The variables of the loop over the sections: the position in the input, the end of the
sections so far in memory, and the output. -/
structure Flattener where
  fdIn : ℕ
  top : Word
  fdOut : List Byte
deriving DecidableEq, Repr

namespace Flattener

/-- One pass of the loop over the sections. -/
def copySection (file : List Byte) (c : Flattener) (s : Scnhdr) : Option Flattener :=
  let top := if c.top.toInt < (s.s_paddr + s.s_size).toInt then s.s_paddr + s.s_size else c.top
  if s.isNamed ".bss" || s.isNamed ".sbss" then some { c with top := top }
  else do
    let (buffer, fdIn) ← read file (lseek c.fdIn s.s_scnptr.toInt) s.s_size.toInt
    some ⟨fdIn, top, c.fdOut ++ buffer⟩

/-- The blank word at the end. -/
def finish (c : Flattener) : List Byte :=
  writeAt c.fdOut (lseek c.fdOut.length (c.top + stackSize - 4#32).toInt) (.replicate 4 0#8)

end Flattener

/-- `main`, from the contents of the COFF file to those of the flat file. -/
def coff2flat (file : List Byte) : Option (List Byte) := do
  let (_, fdIn) ← read file 0 sizeofFilehdr
  if short file 0 ≠ MIPSELMAGIC then none
  else
    let (_, fdIn) ← read file fdIn sizeofAouthdr
    if short file sizeofFilehdr ≠ OMAGIC then none
    else
      let (_, fdIn) ← read file fdIn ((short file 2).toNat * sizeofScnhdr)
      let c ← (sections file).foldlM (Flattener.copySection file) ⟨fdIn, 0#32, []⟩
      some c.finish

end Nachos.Coff
