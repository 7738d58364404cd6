import Nachos.Model.OpenFile

/-! # What a transfer touches

`ReadAt` and `WriteAt` of `filesys/openfile.cc` once more, with the elements of `dataSectors`
and the parts of the temporary buffer that they use, in order, instead of the data. -/

namespace Nachos

inductive Access
  /-- `dataSectors[i]` -/
  | dataSector (i : ℤ)
  /-- `length` bytes from `&buf[start]` on; `buf` was allocated with `size` bytes -/
  | buffer (size start length : ℤ)
deriving DecidableEq, Repr

namespace OpenFile

/-- One round of a loop: `hdr->ByteToSector(i * SectorSize)` and the sector at
`&buf[(i - firstSector) * SectorSize]`. -/
def sectorAccesses (size firstSector i : ℤ) : List Access :=
  [.dataSector ((i * sectorSize).tdiv sectorSize),
    .buffer size ((i - firstSector) * sectorSize) sectorSize]

/-- `for (i = firstSector; i <= lastSector; i++)` -/
def loopAccesses (size firstSector lastSector : ℤ) : List Access :=
  (List.range (1 + lastSector - firstSector).toNat).flatMap fun (i : ℕ) =>
    sectorAccesses size firstSector (firstSector + i)

/-- `ReadAt`, with its result. -/
def readAccesses (file : OpenFile) (numBytes position : ℤ) : Except Stop (ℤ × List Access) := do
  match ← file.request numBytes position with
  | none => return (0, [])
  | some numBytes =>
      let firstSector := position.tdiv sectorSize
      let lastSector := (position + numBytes - 1).tdiv sectorSize
      let numSectors := 1 + lastSector - firstSector
      let size := numSectors * sectorSize
      return (numBytes, loopAccesses size firstSector lastSector ++
        [.buffer size (position - firstSector * sectorSize) numBytes])

/-- `ReadAt(&buf[start], SectorSize, position)` in `WriteAt`. -/
def readInAccesses (file : OpenFile) (size start position : ℤ) : Except Stop (List Access) := do
  let (result, accesses) ← file.readAccesses sectorSize position
  return accesses ++ [.buffer size start result]

/-- `WriteAt` reads in the first sector if it is to be partially modified. -/
def firstAccesses (file : OpenFile) (size firstSector : ℤ) (firstAligned : Bool) :
    Except Stop (List Access) :=
  if firstAligned = false then file.readInAccesses size 0 (firstSector * sectorSize)
  else .ok []

/-- The same for the last sector, unless it is the first one and read in already. -/
def lastAccesses (file : OpenFile) (size firstSector lastSector : ℤ)
    (firstAligned lastAligned : Bool) : Except Stop (List Access) :=
  if lastAligned = false ∧ (firstSector ≠ lastSector ∨ firstAligned = true) then
    file.readInAccesses size ((lastSector - firstSector) * sectorSize) (lastSector * sectorSize)
  else .ok []

/-- `WriteAt`, with its result. -/
def writeAccesses (file : OpenFile) (numBytes position : ℤ) : Except Stop (ℤ × List Access) := do
  match ← file.request numBytes position with
  | none => return (0, [])
  | some numBytes =>
      let firstSector := position.tdiv sectorSize
      let lastSector := (position + numBytes - 1).tdiv sectorSize
      let numSectors := 1 + lastSector - firstSector
      let size := numSectors * sectorSize
      let firstAligned := decide (position = firstSector * sectorSize)
      let lastAligned := decide (position + numBytes = (lastSector + 1) * sectorSize)
      let first ← file.firstAccesses size firstSector firstAligned
      let last ← file.lastAccesses size firstSector lastSector firstAligned lastAligned
      return (numBytes, first ++ last ++
        [.buffer size (position - firstSector * sectorSize) numBytes] ++
        loopAccesses size firstSector lastSector)

end OpenFile
end Nachos
