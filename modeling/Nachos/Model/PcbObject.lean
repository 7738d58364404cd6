import Nachos.Model.Disk

/-! # The name in a process control block (`threads/pcb.h`, `threads/pcb.cc`)

The members of a PCB object from `FileName` on, as they lie in the memory of the host: the
array of 32 characters, then the `int`s `parentID` and `JoinStatus`. -/

namespace Nachos

/-- `strcpy(dst, src)`: the string and its NUL, however long it is. -/
def strcpy (dst : Bytes) (src : List Byte) : Bytes :=
  bcopy (fun k => src.getD k 0#8) dst 0 (src.length + 1)

namespace PCBObject

/-- `sizeof(FileName)` -/
def fileNameSize : ℕ := 32

def parentID (pcb : Bytes) : Word :=
  wordAt pcb fileNameSize

def joinStatus (pcb : Bytes) : Word :=
  wordAt pcb (fileNameSize + 4)

/-- The constructor for a process other than the first: the array is not written. -/
def create (garbage : Bytes) (processID : Word) : Bytes :=
  fun k =>
    if k < fileNameSize then garbage k
    else if k < fileNameSize + 4 then byteOf processID (k - fileNameSize)
    else if k < fileNameSize + 8 then byteOf (-1#32) (k - (fileNameSize + 4))
    else garbage k

def setFileName (pcb : Bytes) (fn : List Byte) : Bytes :=
  strcpy pcb fn

end PCBObject

end Nachos
