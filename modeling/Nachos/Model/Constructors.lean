import Nachos.Model.AddrSpace

/-! # The constructors of `AddrSpace`, statement by statement

Thread `t` runs a constructor on an executable with the contents `file`, from the read of the
header on. Between its statements other threads take and release `addrLock`, and change the
bitmap and the memory as they like. -/

namespace Nachos.Constructor

/-- What the constructor does with the executable and the lock. -/
inductive Use
  | readAt
  | acquire
  | release
  | delete
deriving DecidableEq, Repr

/-- The statement that comes next. -/
inductive Place
  | header
  | acquire
  /-- asleep in `Acquire` -/
  | asleep
  /-- the size check -/
  | check
  /-- `delete executable` behind the failed check -/
  | deleteFailed
  /-- `addrLock->Release()` behind the failed check -/
  | releaseFailed
  | newTable
  /-- the allocation loop, with the frames found so far -/
  | allocate (found : List ℤ)
  | release
  /-- the loop over the pages of the code, at page `i` -/
  | copyCode (i : ℕ)
  | copyData (i : ℕ)
  | delete
  | done
deriving DecidableEq, Repr

structure State where
  gPhysPageBitMap : BitMap numPhysPages
  mainMemory : ℕ → Byte
  addrLock : Lock
  numPages : ℕ
  pageTable : Option (List TranslationEntry)
  /-- what `NumClear` has returned -/
  numclear : Option ℕ
  uses : List Use
  place : Place

inductive Label
  /-- the next statement of the constructor -/
  | go
  /-- other threads -/
  | acquire (u : Tid)
  | release (u : Tid)
  | change (b : BitMap numPhysPages) (memory : ℕ → Byte)

namespace State

def start (b : BitMap numPhysPages) (memory : ℕ → Byte) (lock : Lock) : State where
  gPhysPageBitMap := b
  mainMemory := memory
  addrLock := lock
  numPages := 0
  pageTable := none
  numclear := none
  uses := []
  place := .header

def use (s : State) (u : Use) : State :=
  { s with uses := s.uses ++ [u] }

def goto (s : State) (place : Place) : State :=
  { s with place := place }

variable (t : Tid) (ctor : Ctor) (file : List Byte)

/-- `addrLock->Acquire()` -/
def acquire (s : State) : State :=
  match s.addrLock.acquire t with
  | (lock, true) => ({ s with addrLock := lock }.use .acquire).goto .check
  | (lock, false) => ({ s with addrLock := lock }.use .acquire).goto .asleep

/-- `addrLock->Release()`, which makes another thread ready. -/
def release (s : State) (place : Place) : State :=
  ({ s with addrLock := (s.addrLock.release t).1 }.use .release).goto place

/-- The size check. `AddrSpace(OpenFile*)` alone asserts that the pages are not too many. -/
def check (s : State) : Option State :=
  let numPages := (NoffHeader.read file).numPages
  let numclear := s.gPhysPageBitMap.numClear
  if ctor = .fromFile ∧ numPhysPages < numPages then none
  else if numclear < numPages then
    some { s with numPages := 0, numclear := some numclear, place := .deleteFailed }
  else some { s with numPages := numPages, numclear := some numclear, place := .newTable }

/-- One pass of the allocation loop, or its end. -/
def allocate (s : State) (found : List ℤ) : State :=
  if found.length < s.numPages then
    let (frame, b) := s.gPhysPageBitMap.find
    { s with
      gPhysPageBitMap := b
      pageTable := some (AddrSpace.table (found ++ [frame]))
      place := .allocate (found ++ [frame]) }
  else s.goto .release

/-- One pass of the loop that copies a segment, or its end. -/
def copy (s : State) (segment : Segment) (i : ℕ) (next after : Place) : Option State :=
  if 0 < segment.size.toInt ∧ i < s.numPages then do
    let entry ← (s.pageTable.getD [])[i]?
    let memory ← (copyPage file segment i entry.physicalPage s.mainMemory).toOption
    some (({ s with mainMemory := memory }.use .readAt).goto next)
  else some (s.goto after)

/-- The next statement. A failed ASSERT, and a thread that sleeps or is done, has none. -/
def go (s : State) : Option State :=
  match s.place with
  | .header =>
      if (NoffHeader.read file).noffMagic = noffMagic then some ((s.use .readAt).goto .acquire)
      else none
  | .acquire => some (s.acquire t)
  | .asleep => none
  | .check => s.check ctor file
  | .deleteFailed => some ((s.use .delete).goto .releaseFailed)
  | .releaseFailed =>
      match ctor with
      | .fromFile => some (s.release t .done)
      -- no `return` here
      | .fromName => some (s.release t .newTable)
  | .newTable => some { s with pageTable := some [], place := .allocate [] }
  | .allocate found => some (s.allocate found)
  | .release => some (s.release t (.copyCode 0))
  | .copyCode i => s.copy file (NoffHeader.read file).code i (.copyCode (i + 1)) (.copyData 0)
  | .copyData i =>
      s.copy file (NoffHeader.read file).initData i (.copyData (i + 1))
        (match ctor with
        | .fromFile => .done
        | .fromName => .delete)
  | .delete => some ((s.use .delete).goto .done)
  | .done => none

/-- One step. The thread that sleeps in `Acquire` goes on when the lock is handed to it. -/
def step (s : State) : Label → Option State
  | .go => s.go t ctor file
  | .acquire u => if u = t then none else some { s with addrLock := (s.addrLock.acquire u).1 }
  | .release u =>
      if u = t then none
      else
        let (lock, woken) := s.addrLock.release u
        let s := { s with addrLock := lock }
        if woken = some t ∧ s.place = .asleep then some (s.goto .check) else some s
  | .change b memory => some { s with gPhysPageBitMap := b, mainMemory := memory }

end State

end Nachos.Constructor
