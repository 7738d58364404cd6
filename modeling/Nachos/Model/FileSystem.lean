import Nachos.Model.Directory

/-! # The file system

`filesys/filesys.cc`, and `FetchFrom` and `WriteBack` of `userprog/bitmap.cc`. -/

namespace Nachos

namespace BitMap

variable {n : ℕ}

def numWords (n : ℕ) : ℕ := divRoundUp n bitsInWord

def toBytes (b : BitMap n) : Bytes :=
  fun k => if h : k / 4 < divRoundUp n bitsInWord then byteOf b.map[k / 4] (k % 4) else 0#8

def ofBytes (bytes : Bytes) : BitMap n where
  map := Vector.ofFn fun i => wordAt bytes (4 * i)

def fetchFrom (b : BitMap n) (disk : Disk) (file : OpenFile) : Except Stop (BitMap n) := do
  let (_, bytes) ← file.readAt disk b.toBytes (numWords n * 4 : ℕ) 0
  return ofBytes bytes

def writeBack (b : BitMap n) (disk : Disk) (file : OpenFile) (heap : Bytes) : Except Stop Disk :=
  Prod.snd <$> file.writeAt disk heap b.toBytes (numWords n * 4 : ℕ) 0

end BitMap

namespace FileSystem

def freeMapSector : ℤ := 0
def directorySector : ℤ := 1
def freeMapFileSize : ℤ := Disk.numSectors / 8
def numDirEntries : ℕ := 10
def directoryFileSize : ℤ := DirectoryEntry.size * numDirEntries

/-- What the objects made by `new` hold before they are assigned: the headers and buffers of
a call in the order in which they are made. -/
structure Garbage where
  header : ℕ → FileHeader
  table : Fin numDirEntries → DirectoryEntry
  words : Vector Word (divRoundUp Disk.numSectors bitsInWord)
  buffer : ℕ → Bytes

/-- An `OpenFile` that `Open` has returned. That the file was at `sector`, and whether it has
been removed, is history. -/
structure Handle where
  sector : ℤ
  file : OpenFile
  removed : Bool

end FileSystem

structure FileSystem where
  disk : Disk
  freeMapFile : OpenFile
  directoryFile : OpenFile
  handles : List FileSystem.Handle
  stop : Option Stop

namespace FileSystem

/-- `ASSERT(hdr->Allocate(freeMap, fileSize))` -/
def mustAllocate (hdr : FileHeader) (freeMap : BitMap Disk.numSectors) (fileSize : ℤ) :
    Except Stop (FileHeader × BitMap Disk.numSectors) := do
  let (success, found) ← hdr.allocate freeMap fileSize
  if success = true then return found else throw .aborted

/-- The constructor with `format = TRUE`. -/
def format (g : Garbage) (disk : Disk) : Except Stop FileSystem := do
  let freeMap : BitMap Disk.numSectors := .create g.words
  let directory : Directory numDirEntries := .create g.table
  let freeMap := freeMap.mark (← Disk.sector freeMapSector)
  let freeMap := freeMap.mark (← Disk.sector directorySector)
  let (mapHdr, freeMap) ← mustAllocate (g.header 0) freeMap freeMapFileSize
  let (dirHdr, freeMap) ← mustAllocate (g.header 1) freeMap directoryFileSize
  let disk ← mapHdr.writeBack disk freeMapSector
  let disk ← dirHdr.writeBack disk directorySector
  let freeMapFile ← OpenFile.create disk freeMapSector
  let directoryFile ← OpenFile.create disk directorySector
  let disk ← freeMap.writeBack disk freeMapFile (g.buffer 0)
  let disk ← directory.writeBack disk directoryFile (g.buffer 1)
  return ⟨disk, freeMapFile, directoryFile, [], none⟩

/-- The constructor with `format = FALSE`. -/
def mount (disk : Disk) : Except Stop FileSystem := do
  let freeMapFile ← OpenFile.create disk freeMapSector
  let directoryFile ← OpenFile.create disk directorySector
  return ⟨disk, freeMapFile, directoryFile, [], none⟩

/-- `new Directory(NumDirEntries)` and `FetchFrom(directoryFile)` -/
def fetchDirectory (s : FileSystem) (g : Garbage) : Except Stop (Directory numDirEntries) :=
  (Directory.create g.table).fetchFrom s.disk s.directoryFile

/-- `new BitMap(NumSectors)` and `FetchFrom(freeMapFile)` -/
def fetchFreeMap (s : FileSystem) (g : Garbage) : Except Stop (BitMap Disk.numSectors) :=
  (BitMap.create g.words).fetchFrom s.disk s.freeMapFile

def create (s : FileSystem) (g : Garbage) (name : Bytes) (initialSize : ℤ) :
    Except Stop (Bool × FileSystem) := do
  let directory ← s.fetchDirectory g
  if directory.find name ≠ -1 then return (false, s)
  else
    let freeMap ← s.fetchFreeMap g
    let (sector, freeMap) := freeMap.find
    if sector = -1 then return (false, s)
    else
      let (added, directory) := directory.add name sector
      if added = false then return (false, s)
      else
        let (allocated, hdr, freeMap) ← (g.header 0).allocate freeMap initialSize
        if allocated = false then return (false, s)
        else
          let disk ← hdr.writeBack s.disk sector
          let disk ← directory.writeBack disk s.directoryFile (g.buffer 0)
          let disk ← freeMap.writeBack disk s.freeMapFile (g.buffer 1)
          return (true, { s with disk := disk })

def openFile (s : FileSystem) (g : Garbage) (name : Bytes) :
    Except Stop (Option OpenFile × FileSystem) := do
  let directory ← s.fetchDirectory g
  let sector := directory.find name
  if 0 ≤ sector then
    let file ← OpenFile.create s.disk sector
    return (some file, { s with handles := s.handles ++ [⟨sector, file, false⟩] })
  else return (none, s)

/-- The handles of a file that is being removed. -/
def Handle.remove (sector : ℤ) (handle : Handle) : Handle :=
  { handle with removed := handle.removed || decide (handle.sector = sector) }

def remove (s : FileSystem) (g : Garbage) (name : Bytes) : Except Stop (Bool × FileSystem) := do
  let directory ← s.fetchDirectory g
  let sector := directory.find name
  if sector = -1 then return (false, s)
  else
    let fileHdr ← FileHeader.fetchFrom s.disk sector
    let freeMap ← s.fetchFreeMap g
    let freeMap ← fileHdr.deallocate freeMap
    let which ← Disk.sector sector
    let freeMap := freeMap.clear which
    let (_, directory) := directory.remove name
    let disk ← freeMap.writeBack s.disk s.freeMapFile (g.buffer 0)
    let disk ← directory.writeBack disk s.directoryFile (g.buffer 1)
    return (true, { s with disk := disk, handles := s.handles.map (Handle.remove sector) })

/-- `handle` is the number of a handle, in the order in which `Open` has returned them. -/
inductive Label
  | create (g : Garbage) (name : Bytes) (initialSize : ℤ)
  | openFile (g : Garbage) (name : Bytes)
  | remove (g : Garbage) (name : Bytes)
  | seek (handle : ℕ) (position : ℤ)
  | readAt (handle : ℕ) (into : Bytes) (numBytes position : ℤ)
  | writeAt (handle : ℕ) (heap source : Bytes) (numBytes position : ℤ)
  | read (handle : ℕ) (into : Bytes) (numBytes : ℤ)
  | write (handle : ℕ) (heap source : Bytes) (numBytes : ℤ)

def setFile (s : FileSystem) (handle : ℕ) (file : OpenFile) : FileSystem :=
  { s with handles := s.handles.modify handle fun h => { h with file := file } }

/-- One call; on a handle there must be such a handle. -/
def call (s : FileSystem) : Label → Option (Except Stop FileSystem)
  | .create g name initialSize => some (Prod.snd <$> s.create g name initialSize)
  | .openFile g name => some (Prod.snd <$> s.openFile g name)
  | .remove g name => some (Prod.snd <$> s.remove g name)
  | .seek handle position => do
      let h ← s.handles[handle]?
      return .ok (s.setFile handle (h.file.seek position))
  | .readAt handle into numBytes position => do
      let h ← s.handles[handle]?
      return (fun _ => s) <$> h.file.readAt s.disk into numBytes position
  | .writeAt handle heap source numBytes position => do
      let h ← s.handles[handle]?
      return (fun (_, disk) => { s with disk := disk }) <$>
        h.file.writeAt s.disk heap source numBytes position
  | .read handle into numBytes => do
      let h ← s.handles[handle]?
      return (fun (_, _, file) => s.setFile handle file) <$> h.file.read s.disk into numBytes
  | .write handle heap source numBytes => do
      let h ← s.handles[handle]?
      return (fun (_, disk, file) => { s with disk := disk }.setFile handle file) <$>
        h.file.write s.disk heap source numBytes

/-- A failed ASSERT and a request that has no meaning stop the machine. -/
def step (s : FileSystem) (label : Label) : Option FileSystem :=
  if s.stop.isSome then none
  else
    match s.call label with
    | none => none
    | some (.ok s') => some s'
    | some (.error stop) => some { s with stop := some stop }

end FileSystem
end Nachos
