import Nachos.Model.FileSystem

/-! # The file system as calls to UNIX

The class under `FILESYS_STUB` of `filesys/filesys.h`, and what it uses of
`machine/sysdep.cc`. Of UNIX it needs a directory of files. -/

namespace Nachos

/-- A text of at most `FileNameMaxLen` characters. -/
structure Name where
  chars : List Byte
  noNul : 0#8 ∉ chars
  short : chars.length ≤ fileNameMaxLen
  deriving DecidableEq

/-- The name as a `char *`. -/
def Name.cString (name : Name) : Bytes :=
  fun k => name.chars.getD k 0#8

/-- The files in a UNIX directory with their contents. -/
abbrev Unix := Name → Option (List Byte)

namespace Unix

/-- `open(name, O_RDWR|O_CREAT|O_TRUNC, 0666)`. The descriptor is known by its file; `none`
is `-1`. -/
def openCreate (unix : Unix) (name : Name) : Option Name × Unix :=
  (some name, Function.update unix name (some []))

/-- `open(name, O_RDWR, 0)` -/
def openExisting (unix : Unix) (name : Name) : Option Name :=
  if (unix name).isSome then some name else none

/-- `unlink(name)` -/
def unlink (unix : Unix) (name : Name) : ℤ × Unix :=
  if (unix name).isSome then (0, Function.update unix name none) else (-1, unix)

end Unix

/-- `ASSERT(fd >= 0)` -/
def openForWrite (unix : Unix) (name : Name) : Except Stop (Option Name × Unix) :=
  let (fd, unix) := unix.openCreate name
  if fd.isSome then .ok (fd, unix) else .error .aborted

def openForReadWrite (unix : Unix) (name : Name) (crashOnError : Bool) :
    Except Stop (Option Name) :=
  let fd := unix.openExisting name
  if crashOnError = false ∨ fd.isSome then .ok fd else .error .aborted

namespace FileSystemStub

/-- A stub file keeps the size that is asked for nowhere. -/
def create (unix : Unix) (name : Name) (_initialSize : ℤ) : Except Stop (Bool × Unix) := do
  let (fileDescriptor, unix) ← openForWrite unix name
  if fileDescriptor.isNone then return (false, unix)
  return (true, unix)

/-- The open file, `none` for `NULL`. -/
def openFile (unix : Unix) (name : Name) : Except Stop (Option Name) := do
  let fileDescriptor ← openForReadWrite unix name false
  match fileDescriptor with
  | none => return none
  | some fd => return some fd

def remove (unix : Unix) (name : Name) : Bool × Unix :=
  let (result, unix) := unix.unlink name
  (decide (result = 0), unix)

end FileSystemStub
end Nachos
