import Nachos.Model.BitMap
import Nachos.Model.Exception

/-! # The disk

`machine/disk.cc` as `filesys/synchdisk.cc` shows it to the file system: a request returns
when it is done. Then the layout of `int`s and arrays in the memory of the host. -/

namespace Nachos

/-- The memory from a `char *` on. -/
abbrev Bytes := ℕ → Byte

def sectorSize : ℕ := 512

abbrev Sector := Fin sectorSize → Byte

namespace Disk

def sectorsPerTrack : ℕ := 32
def numTracks : ℕ := 32
def numSectors : ℕ := sectorsPerTrack * numTracks

theorem numSectors_pos : 0 < numSectors := by decide

end Disk

abbrev Disk := Fin Disk.numSectors → Sector

namespace Disk

/-- `ASSERT((sectorNumber >= 0) && (sectorNumber < NumSectors))` -/
def sector (sectorNumber : ℤ) : Except Stop (Fin numSectors) :=
  match BitMap.index? sectorNumber with
  | some sector => .ok sector
  | none => .error .aborted

def readSector (disk : Disk) (sectorNumber : ℤ) : Except Stop Sector := do
  let sector ← sector sectorNumber
  return disk sector

def writeSector (disk : Disk) (sectorNumber : ℤ) (data : Sector) : Except Stop Disk := do
  let sector ← sector sectorNumber
  return Function.update disk sector data

end Disk

/-- The sector from a pointer to it on. -/
def Sector.bytes (s : Sector) : Bytes :=
  fun k => if h : k < sectorSize then s ⟨k, h⟩ else 0#8

/-- The `i`-th sector of a buffer. -/
def sectorAt (buf : Bytes) (i : ℕ) : Sector :=
  fun k => buf (i * sectorSize + k)

/-- `bcopy(src, &dst[start], length)` -/
def bcopy (src dst : Bytes) (start length : ℕ) : Bytes :=
  fun k => if start ≤ k ∧ k < start + length then src (k - start) else dst k

/-- The `k`-th byte of an `int`, the least significant first. -/
def byteOf (w : Word) (k : ℕ) : Byte :=
  w.extractLsb' (8 * k) 8

/-- The `int` at `addr`. -/
def wordAt (bytes : Bytes) (addr : ℕ) : Word :=
  BitVec.ofNat 32 (Machine.load bytes addr 4)

/-- The macro `divRoundUp(n, s)` on `int`s. -/
def divRoundUpInt (n s : ℤ) : ℤ :=
  n.tdiv s + if 0 < n.tmod s then 1 else 0

end Nachos
