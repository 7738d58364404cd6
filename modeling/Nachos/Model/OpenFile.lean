import Nachos.Model.Disk

/-! # File headers and open files

`filesys/filehdr.cc` and `filesys/openfile.cc`. -/

namespace Nachos

def numDirect : ℕ := (sectorSize - 2 * 4) / 4
def maxFileSize : ℕ := numDirect * sectorSize

structure FileHeader where
  numBytes : Word
  numSectors : Word
  dataSectors : Fin numDirect → Word

namespace FileHeader

/-! ## The header in its sector -/

/-- The object as an array of `int`s. -/
def word (hdr : FileHeader) (i : ℕ) : Word :=
  if i = 0 then hdr.numBytes
  else if i = 1 then hdr.numSectors
  else if h : i - 2 < numDirect then hdr.dataSectors ⟨i - 2, h⟩
  else 0#32

def toSector (hdr : FileHeader) : Sector :=
  fun k => byteOf (hdr.word (k / 4)) (k % 4)

def ofSector (s : Sector) : FileHeader where
  numBytes := wordAt (Sector.bytes s) 0
  numSectors := wordAt (Sector.bytes s) 4
  dataSectors i := wordAt (Sector.bytes s) (8 + 4 * i)

def fetchFrom (disk : Disk) (sector : ℤ) : Except Stop FileHeader := do
  let s ← disk.readSector sector
  return ofSector s

def writeBack (hdr : FileHeader) (disk : Disk) (sector : ℤ) : Except Stop Disk :=
  disk.writeSector sector hdr.toSector

/-- The value of `dataSectors[i]`. The two fields lie in front of the array, so that `-1` and
`-2` are still inside the object. -/
def dataSector (hdr : FileHeader) (i : ℤ) : Except Stop ℤ :=
  if 0 ≤ i + 2 ∧ i + 2 < numDirect + 2 then .ok (hdr.word (i + 2).toNat).toInt
  else .error .undefined

def byteToSector (hdr : FileHeader) (offset : ℤ) : Except Stop ℤ :=
  hdr.dataSector (offset.tdiv sectorSize)

def fileLength (hdr : FileHeader) : ℤ :=
  hdr.numBytes.toInt

/-! ## Allocation -/

/-- `dataSectors[i] = freeMap->Find()`, `count` times. -/
def findSectors (i : ℕ) :
    ℕ → FileHeader → BitMap Disk.numSectors → Except Stop (FileHeader × BitMap Disk.numSectors)
  | 0, hdr, freeMap => .ok (hdr, freeMap)
  | count + 1, hdr, freeMap =>
      let (sector, freeMap) := freeMap.find
      if h : i < numDirect then
        findSectors (i + 1) count { hdr with
          dataSectors := Function.update hdr.dataSectors ⟨i, h⟩ (BitVec.ofInt 32 sector) } freeMap
      else .error .undefined

/-- The header may be a fresh object, so nothing is known of its fields before. -/
def allocate (hdr : FileHeader) (freeMap : BitMap Disk.numSectors) (fileSize : ℤ) :
    Except Stop (Bool × FileHeader × BitMap Disk.numSectors) := do
  let numSectors := divRoundUpInt fileSize sectorSize
  let hdr := { hdr with
    numBytes := BitVec.ofInt 32 fileSize
    numSectors := BitVec.ofInt 32 numSectors }
  if freeMap.numClear < numSectors then return (false, hdr, freeMap)
  else
    let found ← findSectors 0 numSectors.toNat hdr freeMap
    return (true, found)

/-- `ASSERT(freeMap->Test(sector)); freeMap->Clear(sector)` -/
def freeSector (freeMap : BitMap Disk.numSectors) (sector : ℤ) :
    Except Stop (BitMap Disk.numSectors) := do
  let which ← Disk.sector sector
  if freeMap.test which = true then return freeMap.clear which else throw .aborted

/-- The loop of `Deallocate` over the data sectors from the `i`-th on. -/
def freeSectors (hdr : FileHeader) (i : ℕ) :
    ℕ → BitMap Disk.numSectors → Except Stop (BitMap Disk.numSectors)
  | 0, freeMap => .ok freeMap
  | count + 1, freeMap => do
      let sector ← hdr.dataSector i
      let freeMap ← freeSector freeMap sector
      freeSectors hdr (i + 1) count freeMap

def deallocate (hdr : FileHeader) (freeMap : BitMap Disk.numSectors) :
    Except Stop (BitMap Disk.numSectors) :=
  hdr.freeSectors 0 hdr.numSectors.toInt.toNat freeMap

end FileHeader

structure OpenFile where
  hdr : FileHeader
  seekPosition : ℤ

namespace OpenFile

def create (disk : Disk) (sector : ℤ) : Except Stop OpenFile := do
  let hdr ← FileHeader.fetchFrom disk sector
  return ⟨hdr, 0⟩

def seek (file : OpenFile) (position : ℤ) : OpenFile :=
  { file with seekPosition := position }

/-- The check of a request: the number of bytes to transfer, `none` when there is nothing to
do. The sum is one of `int`s. -/
def request (file : OpenFile) (numBytes position : ℤ) : Except Stop (Option ℤ) :=
  let fileLength := file.hdr.fileLength
  if numBytes ≤ 0 ∨ fileLength ≤ position then .ok none
  else if intMax < position + numBytes then .error .undefined
  else if fileLength < position + numBytes then .ok (some (fileLength - position))
  else .ok (some numBytes)

/-- The loop of `ReadAt`: `count` sectors from number `firstSector + i` on, into `buf`. -/
def readSectors (hdr : FileHeader) (disk : Disk) (firstSector : ℤ) (i : ℕ) :
    ℕ → Bytes → Except Stop Bytes
  | 0, buf => .ok buf
  | count + 1, buf => do
      let sector ← hdr.byteToSector ((firstSector + i) * sectorSize)
      let data ← disk.readSector sector
      readSectors hdr disk firstSector (i + 1) count
        (bcopy (Sector.bytes data) buf (i * sectorSize) sectorSize)

/-- The loop of `WriteAt`. -/
def writeSectors (hdr : FileHeader) (buf : Bytes) (firstSector : ℤ) (i : ℕ) :
    ℕ → Disk → Except Stop Disk
  | 0, disk => .ok disk
  | count + 1, disk => do
      let sector ← hdr.byteToSector ((firstSector + i) * sectorSize)
      let disk ← disk.writeSector sector (sectorAt buf i)
      writeSectors hdr buf firstSector (i + 1) count disk

/-- `ReadAt`: the result and what `into` holds then. Of the new buffer only bytes that were
read are used. -/
def readAt (disk : Disk) (file : OpenFile) (into : Bytes) (numBytes position : ℤ) :
    Except Stop (ℤ × Bytes) := do
  match ← file.request numBytes position with
  | none => return (0, into)
  | some numBytes =>
      let firstSector := position.tdiv sectorSize
      let lastSector := (position + numBytes - 1).tdiv sectorSize
      let numSectors := 1 + lastSector - firstSector
      let buf ← readSectors file.hdr disk firstSector 0 numSectors.toNat fun _ => 0#8
      let start := position - firstSector * sectorSize
      -- a copy from in front of the buffer
      if start < 0 then throw .undefined
      return (numBytes, bcopy (fun k => buf (start.toNat + k)) into 0 numBytes.toNat)

/-- `WriteAt` reads in the first sector if it is to be partially modified. -/
def readFirst (disk : Disk) (file : OpenFile) (firstSector : ℤ) (firstAligned : Bool)
    (buf : Bytes) : Except Stop Bytes :=
  if firstAligned = false then
    Prod.snd <$> file.readAt disk buf sectorSize (firstSector * sectorSize)
  else .ok buf

/-- The same for the last sector, unless it is the first one and read in already. -/
def readLast (disk : Disk) (file : OpenFile) (firstSector lastSector : ℤ)
    (firstAligned lastAligned : Bool) (buf : Bytes) : Except Stop Bytes :=
  let last := ((lastSector - firstSector) * sectorSize).toNat
  if lastAligned = false ∧ (firstSector ≠ lastSector ∨ firstAligned = true) then
    (fun read => bcopy read.2 buf last sectorSize) <$>
      file.readAt disk (fun k => buf (last + k)) sectorSize (lastSector * sectorSize)
  else .ok buf

/-- `WriteAt`; `heap` is what the new buffer holds. -/
def writeAt (disk : Disk) (file : OpenFile) (heap source : Bytes) (numBytes position : ℤ) :
    Except Stop (ℤ × Disk) := do
  match ← file.request numBytes position with
  | none => return (0, disk)
  | some numBytes =>
      let firstSector := position.tdiv sectorSize
      let lastSector := (position + numBytes - 1).tdiv sectorSize
      let numSectors := 1 + lastSector - firstSector
      let firstAligned := decide (position = firstSector * sectorSize)
      let lastAligned := decide (position + numBytes = (lastSector + 1) * sectorSize)
      let buf ← file.readFirst disk firstSector firstAligned heap
      let buf ← file.readLast disk firstSector lastSector firstAligned lastAligned buf
      let start := position - firstSector * sectorSize
      -- a copy to in front of the buffer
      if start < 0 then throw .undefined
      let buf := bcopy source buf start.toNat numBytes.toNat
      let disk ← writeSectors file.hdr buf firstSector 0 numSectors.toNat disk
      return (numBytes, disk)

def read (disk : Disk) (file : OpenFile) (into : Bytes) (numBytes : ℤ) :
    Except Stop (ℤ × Bytes × OpenFile) := do
  let (result, into) ← file.readAt disk into numBytes file.seekPosition
  return (result, into, { file with seekPosition := file.seekPosition + result })

def write (disk : Disk) (file : OpenFile) (heap source : Bytes) (numBytes : ℤ) :
    Except Stop (ℤ × Disk × OpenFile) := do
  let (result, disk) ← file.writeAt disk heap source numBytes file.seekPosition
  return (result, disk, { file with seekPosition := file.seekPosition + result })

end OpenFile
end Nachos
