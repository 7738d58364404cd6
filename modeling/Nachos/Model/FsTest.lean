import Nachos.Library.Tracking
import Nachos.Model.FileSystem

/-! # The tests of the file system (`filesys/fstest.cc`)

`Copy`, `Print` and `PerformanceTest` over the real file system. What the objects made by
`new` hold is `g` for the calls of the file system, in their order, and `heap` for the buffers
of `Write`, by what is left to do. -/

namespace Nachos.FsTest

open Tracking

/-- `delete openFile`, for the file that was opened last. -/
def close (s : FileSystem) : FileSystem :=
  { s with handles := s.handles.dropLast }

/-! ## `Copy` -/

def transferSize : ℕ := 10

/-- The loop of `Copy`; `fp` is what is left of the UNIX file. -/
def copyLoop (heap : ℕ → Bytes) (disk : Disk) (openFile : OpenFile) (fp : List Byte) :
    Except Stop Disk :=
  let buffer := fp.take transferSize
  if _ : 0 < buffer.length then do
    let (_, disk, openFile) ←
      openFile.write disk (heap fp.length) (fun k => buffer.getD k 0#8) buffer.length
    copyLoop heap disk openFile (fp.drop transferSize)
  else return disk
termination_by fp.length
decreasing_by
  have hunread : 0 < (fp.take transferSize).length := ‹_›
  rw [List.length_take] at hunread
  rw [List.length_drop]
  omega

/-- What `Copy` says: nothing if it has copied the file. -/
inductive CopyError
  | couldntOpen
  | couldntCreate
deriving DecidableEq, Repr

/-- `fp` is the UNIX file `from`, `none` when it cannot be opened; `name` is `to`. -/
def copy (s : FileSystem) (g : ℕ → FileSystem.Garbage) (heap : ℕ → Bytes)
    (fp : Option (List Byte)) (name : Bytes) : Except Stop (Option CopyError × FileSystem) := do
  match fp with
  | none => return (some .couldntOpen, s)
  | some fp =>
      let fileLength := (BitVec.ofNat 32 fp.length).toInt
      let (created, s) ← s.create (g 0) name fileLength
      if created = false then return (some .couldntCreate, s)
      else
        let (openFile, s) ← s.openFile (g 1) name
        match openFile with
        | none => throw .aborted
        | some openFile =>
            let disk ← copyLoop heap s.disk openFile fp
            return (none, close { s with disk := disk })

/-! ## `Print` -/

/-- A read that returns something brings the cursor closer to the end of the file. -/
theorem read_advances {disk : Disk} {openFile openFile' : OpenFile} {into into' : Bytes}
    {numBytes result : ℤ}
    (hread : openFile.read disk into numBytes = .ok (result, into', openFile'))
    (hpos : 0 < result) :
    (openFile'.hdr.fileLength - openFile'.seekPosition).toNat <
      (openFile.hdr.fileLength - openFile.seekPosition).toNat := by
  rw [OpenFile.read] at hread
  obtain ⟨⟨n, bytes⟩, hreadAt, hread⟩ := except_bind_eq_ok.mp hread
  cases hread
  rw [OpenFile.readAt] at hreadAt
  obtain ⟨request, hrequest, hreadAt⟩ := except_bind_eq_ok.mp hreadAt
  cases request with
  | none =>
      cases hreadAt
      exact absurd hpos (lt_irrefl 0)
  | some m =>
      have hlt : openFile.seekPosition < openFile.hdr.fileLength := by
        unfold OpenFile.request at hrequest
        dsimp only at hrequest
        split at hrequest
        · cases hrequest
        · omega
      show (openFile.hdr.fileLength - (openFile.seekPosition + result)).toNat <
        (openFile.hdr.fileLength - openFile.seekPosition).toNat
      omega

/-- The loop of `Print`: the characters that are printed. -/
def printLoop (disk : Disk) (openFile : OpenFile) (buffer : Bytes) : Except Stop (List Byte) :=
  match _ : openFile.read disk buffer transferSize with
  | .error stop => .error stop
  | .ok (amountRead, buffer, openFile) =>
      if _ : 0 < amountRead then
        ((List.range amountRead.toNat).map buffer ++ ·) <$> printLoop disk openFile buffer
      else .ok []
termination_by (openFile.hdr.fileLength - openFile.seekPosition).toNat
decreasing_by exact read_advances ‹_› ‹_›

/-- `none` when the file cannot be opened. -/
def print (s : FileSystem) (g : FileSystem.Garbage) (name buffer : Bytes) :
    Except Stop (Option (List Byte) × FileSystem) := do
  let (openFile, s) ← s.openFile g name
  match openFile with
  | none => return (none, s)
  | some openFile =>
      let printed ← printLoop s.disk openFile buffer
      return (some printed, close s)

/-! ## `PerformanceTest` -/

def fileName : Bytes := fun k => (chars "TestFile").getD k 0#8
def contents : List Byte := chars "1234567890"
def contentSize : ℕ := contents.length
def fileSize : ℕ := contentSize * 5000

/-- What is behind `"Perf test: "`. -/
inductive PerfError
  | cantCreate
  | unableToOpen
  | unableToWrite
  | unableToOpenFile
  | unableToRead
  | unableToRemove
deriving DecidableEq, Repr

/-- The loop of `FileWrite`, by the number of rounds that are left. -/
def writeLoop (heap : ℕ → Bytes) : ℕ → Disk → OpenFile → Except Stop (Option PerfError × Disk)
  | 0, disk, _ => .ok (none, disk)
  | rounds + 1, disk, openFile => do
      let (numBytes, disk, openFile) ←
        openFile.write disk (heap rounds) (fun k => contents.getD k 0#8) contentSize
      if numBytes < 10 then return (some .unableToWrite, disk)
      else writeLoop heap rounds disk openFile

def fileWrite (s : FileSystem) (g : ℕ → FileSystem.Garbage) (heap : ℕ → Bytes) :
    Except Stop (Option PerfError × FileSystem) := do
  let (created, s) ← s.create (g 0) fileName 0
  if created = false then return (some .cantCreate, s)
  else
    let (openFile, s) ← s.openFile (g 1) fileName
    match openFile with
    | none => return (some .unableToOpen, s)
    | some openFile =>
        let (error, disk) ← writeLoop heap (fileSize / contentSize) s.disk openFile
        return (error, close { s with disk := disk })

/-- The loop of `FileRead`. -/
def readLoop (disk : Disk) : ℕ → OpenFile → Bytes → Except Stop (Option PerfError)
  | 0, _, _ => .ok none
  | rounds + 1, openFile, buffer => do
      let (numBytes, buffer, openFile) ← openFile.read disk buffer contentSize
      if numBytes < 10 ∨ strncmp buffer (fun k => contents.getD k 0#8) contentSize = false then
        return some .unableToRead
      else readLoop disk rounds openFile buffer

def fileRead (s : FileSystem) (g : ℕ → FileSystem.Garbage) (buffer : Bytes) :
    Except Stop (Option PerfError × FileSystem) := do
  let (openFile, s) ← s.openFile (g 2) fileName
  match openFile with
  | none => return (some .unableToOpenFile, s)
  | some openFile =>
      let error ← readLoop s.disk (fileSize / contentSize) openFile buffer
      return (error, close s)

/-- The errors of `FileWrite`, of `FileRead` and of `Remove`. -/
def performanceTest (s : FileSystem) (g : ℕ → FileSystem.Garbage) (heap : ℕ → Bytes)
    (buffer : Bytes) : Except Stop (List PerfError × FileSystem) := do
  let (writing, s) ← fileWrite s g heap
  let (reading, s) ← fileRead s g buffer
  let (removed, s) ← s.remove (g 3) fileName
  return (writing.toList ++ reading.toList ++ if removed = true then [] else [.unableToRemove], s)

end Nachos.FsTest
