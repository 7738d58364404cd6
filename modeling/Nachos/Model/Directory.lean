import Nachos.Model.OpenFile

/-! # The directory

`filesys/directory.cc`. A name is the memory from a `char *` on, as no more than
`FileNameMaxLen` characters of it are read. -/

namespace Nachos

def fileNameMaxLen : ℕ := 9

/-- `strncmp(a, b, n) == 0` -/
def strncmp : Bytes → Bytes → ℕ → Bool
  | _, _, 0 => true
  | a, b, n + 1 =>
      if a 0 ≠ b 0 then false
      else if a 0 = 0#8 then true
      else strncmp (fun k => a (k + 1)) (fun k => b (k + 1)) n

/-- `strncpy(dst, src, n)`: behind the end of `src` it fills up with zeros. -/
def strncpy : Bytes → Bytes → ℕ → Bytes
  | dst, _, 0 => dst
  | dst, src, n + 1 => fun
      | 0 => src 0
      | k + 1 =>
          strncpy (fun k => dst (k + 1))
            (if src 0 = 0#8 then fun _ => 0#8 else fun k => src (k + 1)) n k

/-- `inUse` is a `bool` in a byte. `padding` is what lies between the fields. -/
structure DirectoryEntry where
  inUse : Byte
  sector : Word
  name : Fin (fileNameMaxLen + 1) → Byte
  padding : Fin 5 → Byte

namespace DirectoryEntry

/-- `sizeof(DirectoryEntry)` -/
def size : ℕ := 20

def nameBytes (entry : DirectoryEntry) : Bytes :=
  fun k => if h : k < fileNameMaxLen + 1 then entry.name ⟨k, h⟩ else 0#8

def toBytes (entry : DirectoryEntry) : Bytes
  | 0 => entry.inUse
  | 1 => entry.padding 0
  | 2 => entry.padding 1
  | 3 => entry.padding 2
  | 18 => entry.padding 3
  | 19 => entry.padding 4
  | k => if k < 8 then byteOf entry.sector (k - 4) else entry.nameBytes (k - 8)

def ofBytes (bytes : Bytes) : DirectoryEntry where
  inUse := bytes 0
  sector := wordAt bytes 4
  name i := bytes (8 + i)
  padding := ![bytes 1, bytes 2, bytes 3, bytes 18, bytes 19]

/-- `table[i].inUse && !strncmp(table[i].name, name, FileNameMaxLen)` -/
def isNamed (entry : DirectoryEntry) (name : Bytes) : Bool :=
  entry.inUse ≠ 0#8 && strncmp entry.nameBytes name fileNameMaxLen

end DirectoryEntry

structure Directory (tableSize : ℕ) where
  table : Fin tableSize → DirectoryEntry

namespace Directory

variable {tableSize : ℕ}

def toBytes (directory : Directory tableSize) : Bytes :=
  fun k =>
    if h : k / DirectoryEntry.size < tableSize then
      (directory.table ⟨k / DirectoryEntry.size, h⟩).toBytes (k % DirectoryEntry.size)
    else 0#8

def ofBytes (bytes : Bytes) : Directory tableSize where
  table i := .ofBytes fun k => bytes (i * DirectoryEntry.size + k)

/-- The constructor: `new DirectoryEntry[size]` leaves `garbage`. -/
def create (garbage : Fin tableSize → DirectoryEntry) : Directory tableSize where
  table i := { garbage i with inUse := 0#8 }

def fetchFrom (directory : Directory tableSize) (disk : Disk) (file : OpenFile) :
    Except Stop (Directory tableSize) := do
  let (_, bytes) ← file.readAt disk directory.toBytes (tableSize * DirectoryEntry.size : ℕ) 0
  return ofBytes bytes

def writeBack (directory : Directory tableSize) (disk : Disk) (file : OpenFile) (heap : Bytes) :
    Except Stop Disk :=
  Prod.snd <$> file.writeAt disk heap directory.toBytes (tableSize * DirectoryEntry.size : ℕ) 0

/-- `none` is `-1`. -/
def findIndex (directory : Directory tableSize) (name : Bytes) : Option (Fin tableSize) :=
  (List.finRange tableSize).find? fun i => (directory.table i).isNamed name

def find (directory : Directory tableSize) (name : Bytes) : ℤ :=
  match directory.findIndex name with
  | some i => (directory.table i).sector.toInt
  | none => -1

/-- The first entry that is not in use. -/
def freeIndex (directory : Directory tableSize) : Option (Fin tableSize) :=
  (List.finRange tableSize).find? fun i => (directory.table i).inUse = 0#8

def set (directory : Directory tableSize) (i : Fin tableSize) (entry : DirectoryEntry) :
    Directory tableSize :=
  ⟨Function.update directory.table i entry⟩

/-- The entry that `Add` makes of a free one. -/
def newEntry (entry : DirectoryEntry) (name : Bytes) (newSector : ℤ) : DirectoryEntry :=
  { entry with
    inUse := 1#8
    name := fun k => strncpy entry.nameBytes name fileNameMaxLen k
    sector := BitVec.ofInt 32 newSector }

def add (directory : Directory tableSize) (name : Bytes) (newSector : ℤ) :
    Bool × Directory tableSize :=
  match directory.findIndex name with
  | some _ => (false, directory)
  | none =>
      match directory.freeIndex with
      | some i => (true, directory.set i (newEntry (directory.table i) name newSector))
      | none => (false, directory)

def remove (directory : Directory tableSize) (name : Bytes) : Bool × Directory tableSize :=
  match directory.findIndex name with
  | some i => (true, directory.set i { directory.table i with inUse := 0#8 })
  | none => (false, directory)

end Directory
end Nachos
