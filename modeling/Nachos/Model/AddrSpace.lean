import Nachos.Model.BitMap
import Nachos.Model.Synch
import Nachos.Model.Exception

/-! # Address spaces (`userprog/addrspace.cc`, `bin/noff.h`)

The two constructors and the destructor, and the system of threads that run them. Host
words are little-endian, so `WordToHost` and `SwapHeader` change nothing. -/

namespace Nachos

structure Segment where
  virtualAddr : Word
  inFileAddr : Word
  size : Word
deriving DecidableEq, Repr

structure NoffHeader where
  noffMagic : Word
  code : Segment
  initData : Segment
  uninitData : Segment
deriving DecidableEq, Repr

def noffMagic : Word := 0xbadfad#32
def userStackSize : Word := 1024#32

namespace NoffHeader

/-- `size`: a sum of signed fields assigned to an `unsigned int`. -/
def size (h : NoffHeader) : Word :=
  h.code.size + h.initData.size + h.uninitData.size + userStackSize

/-- `numPages = divRoundUp(size, PageSize)` -/
def numPages (h : NoffHeader) : ℕ :=
  divRoundUp h.size.toNat pageSize

/-- The word at byte `4 * i` of the file. -/
def word (file : List Byte) (i : ℕ) : Word :=
  BitVec.ofNat 32 (Machine.load (fun p => file.getD p 0#8) (4 * i) 4)

/-- `executable->ReadAt((char *)&noffH, sizeof(noffH), 0)` -/
def read (file : List Byte) : NoffHeader where
  noffMagic := word file 0
  code := ⟨word file 1, word file 2, word file 3⟩
  initData := ⟨word file 4, word file 5, word file 6⟩
  uninitData := ⟨word file 7, word file 8, word file 9⟩

/-- The header as it stands in the file. -/
def bytes (noffH : NoffHeader) : List Byte :=
  [noffH.noffMagic, noffH.code.virtualAddr, noffH.code.inFileAddr, noffH.code.size,
    noffH.initData.virtualAddr, noffH.initData.inFileAddr, noffH.initData.size,
    noffH.uninitData.virtualAddr, noffH.uninitData.inFileAddr, noffH.uninitData.size].flatMap
      fun word : Word => [word.truncate 8, (word >>> 8).truncate 8, (word >>> 16).truncate 8,
        (word >>> 24).truncate 8]

end NoffHeader

/-- `pageTable` is `none` when the constructor never assigned the pointer. -/
structure AddrSpace where
  numPages : ℕ
  pageTable : Option (List TranslationEntry)
deriving DecidableEq, Repr

namespace AddrSpace

/-- The loop over `gPhysPageBitMap->Find()`: the frames in the order of the pages. -/
def allocate : ℕ → BitMap numPhysPages → List ℤ × BitMap numPhysPages
  | 0, b => ([], b)
  | k + 1, b =>
      let (frame, b) := b.find
      let (frames, b) := allocate k b
      (frame :: frames, b)

/-- The page table whose page `i` is in frame `frames[i]`. -/
def table (frames : List ℤ) : List TranslationEntry :=
  frames.mapIdx fun i frame => ⟨i, frame, true, false, false, false⟩

def ofFrames (frames : List ℤ) : AddrSpace :=
  ⟨frames.length, some (table frames)⟩

/-- The frames in the entries that the destructor visits. -/
def frames (s : AddrSpace) : List ℤ :=
  ((s.pageTable.getD []).take s.numPages).map TranslationEntry.physicalPage

/-- The destructor: each frame is cleared, with the ASSERT of `Clear`. It does not take
`addrLock`. -/
def destroy (s : AddrSpace) (b : BitMap numPhysPages) : Option (BitMap numPhysPages) :=
  s.frames.foldlM (fun b frame => (BitMap.index? frame).map b.clear) b

/-- `RestoreState`: the machine uses the first `numPages` entries of the table. -/
def restoreState (s : AddrSpace) (m : Machine) : Machine :=
  { m with pageTable := s.pageTable.map fun table => table.take s.numPages }

end AddrSpace

/-! ## Copying the segments -/

/-- `executable->ReadAt(&mainMemory[virtualAddr] + physicalPage * PageSize, PageSize,
inFileAddr + i * PageSize)`: `Lseek` asserts that the position is not negative, and the
read stops at the end of the file. -/
def copyPage (file : List Byte) (segment : Segment) (i : ℕ) (physicalPage : ℤ)
    (memory : ℕ → Byte) : Except Stop (ℕ → Byte) :=
  let position := (segment.inFileAddr + BitVec.ofNat 32 (i * pageSize)).toInt
  if position < 0 then .error .aborted
  else
    let bytes := (file.drop position.toNat).take pageSize
    let dest := segment.virtualAddr.toInt + physicalPage * pageSize
    if bytes = [] then .ok memory
    else if 0 ≤ dest ∧ dest + bytes.length ≤ memorySize then
      .ok fun p =>
        if dest.toNat ≤ p ∧ p < dest.toNat + bytes.length then bytes.getD (p - dest.toNat) 0#8
        else memory p
    else .error .undefined

/-- The loop over the pages, from page `i` on. -/
def copyPages (file : List Byte) (segment : Segment) :
    ℕ → List ℤ → (ℕ → Byte) → Except Stop (ℕ → Byte)
  | _, [], memory => .ok memory
  | i, frame :: frames, memory => do
      let memory ← copyPage file segment i frame memory
      copyPages file segment (i + 1) frames memory

def copySegment (file : List Byte) (segment : Segment) (frames : List ℤ)
    (memory : ℕ → Byte) : Except Stop (ℕ → Byte) :=
  if 0 < segment.size.toInt then copyPages file segment 0 frames memory else .ok memory

/-- `AddrSpace(char*)` on the contents of a file that opened, run without interruption.
With too few frames it goes on with `numPages = 0`. -/
def AddrSpace.load (file : List Byte) (b : BitMap numPhysPages) (memory : ℕ → Byte) :
    Except Stop (AddrSpace × BitMap numPhysPages × (ℕ → Byte)) :=
  let noffH := NoffHeader.read file
  if noffH.noffMagic ≠ noffMagic then .error .aborted
  else
    let numPages := if b.numClear < noffH.numPages then 0 else noffH.numPages
    let (frames, b) := allocate numPages b
    do
      let memory ← copySegment file noffH.code frames memory
      let memory ← copySegment file noffH.initData frames memory
      .ok (.ofFrames frames, b, memory)

/-! ## Threads that construct and destroy address spaces -/

inductive Ctor
  | fromFile
  | fromName
deriving DecidableEq, Repr

/-- Where a thread is in a constructor: queued in `Acquire`, owning the lock before the
size check, in the allocation loop with the frames found so far, or, in `AddrSpace(char*)`
after the failed size check, between its two calls of `Release`. -/
inductive Phase
  | idle
  | waiting (ctor : Ctor) (noffH : NoffHeader)
  | holding (ctor : Ctor) (noffH : NoffHeader)
  | allocating (numPages : ℕ) (found : List ℤ)
  | again
deriving DecidableEq, Repr

/-- The threads with the bitmap and the lock. The copy loops are no step here: they run behind
the last `Release`, read no bit and write none, and what they write is in `mainMemory`; a copy
that goes outside of it ends the run (`AddrSpace.load`). -/
structure Loaders where
  gPhysPageBitMap : BitMap numPhysPages
  addrLock : Lock
  phase : Tid → Phase
  live : List AddrSpace

inductive LoaderLabel
  | construct (t : Tid) (ctor : Ctor) (noffH : NoffHeader)
  | continue (t : Tid)
  | destroy (i : ℕ)
deriving DecidableEq, Repr

namespace Loaders

def create (garbage : Vector (BitVec 32) (divRoundUp numPhysPages bitsInWord)) : Loaders where
  gPhysPageBitMap := .create garbage
  addrLock := .create
  phase _ := .idle
  live := []

def goto (s : Loaders) (t : Tid) (phase : Phase) : Loaders :=
  { s with phase := Function.update s.phase t phase }

/-- `addrLock->Release()` by `t`; a thread that gets the lock goes on after its `Acquire`. -/
def release (s : Loaders) (t : Tid) : Loaders :=
  let (lock, woken) := s.addrLock.release t
  let s := { s with addrLock := lock }
  match woken with
  | none => s
  | some u =>
      match s.phase u with
      | .waiting ctor noffH => s.goto u (.holding ctor noffH)
      | _ => s

/-- From the header read to the return of `Acquire`, or to sleep in it. -/
def construct (s : Loaders) (t : Tid) (ctor : Ctor) (noffH : NoffHeader) : Loaders :=
  match s.addrLock.acquire t with
  | (lock, true) => { s with addrLock := lock }.goto t (.holding ctor noffH)
  | (lock, false) => { s with addrLock := lock }.goto t (.waiting ctor noffH)

/-- The size check. `none` is the failed `ASSERT(numPages <= NumPhysPages)`. -/
def check (s : Loaders) (t : Tid) (ctor : Ctor) (noffH : NoffHeader) : Option Loaders :=
  match ctor with
  | .fromFile =>
      if numPhysPages < noffH.numPages then none
      else if s.gPhysPageBitMap.numClear < noffH.numPages then
        let s := (s.release t).goto t .idle
        some { s with live := s.live ++ [⟨0, none⟩] }
      else some (s.goto t (.allocating noffH.numPages []))
  | .fromName =>
      if s.gPhysPageBitMap.numClear < noffH.numPages then some ((s.release t).goto t .again)
      else some (s.goto t (.allocating noffH.numPages []))

/-- One pass of the allocation loop, or the code behind it up to the end of `Release`. -/
def allocate (s : Loaders) (t : Tid) (numPages : ℕ) (found : List ℤ) : Loaders :=
  if found.length < numPages then
    let (frame, b) := s.gPhysPageBitMap.find
    { s with gPhysPageBitMap := b }.goto t (.allocating numPages (found ++ [frame]))
  else
    let s := (s.release t).goto t .idle
    { s with live := s.live ++ [.ofFrames found] }

/-- The rest of `AddrSpace(char*)` after its first `Release` with too few frames. -/
def releaseAgain (s : Loaders) (t : Tid) : Loaders :=
  let s := (s.release t).goto t .idle
  { s with live := s.live ++ [.ofFrames []] }

/-- One step between lock operations. A step that aborts is no step. -/
def step (s : Loaders) : LoaderLabel → Option Loaders
  | .construct t ctor noffH =>
      match s.phase t with
      | .idle => if noffH.noffMagic = noffMagic then some (s.construct t ctor noffH) else none
      | _ => none
  | .continue t =>
      match s.phase t with
      | .idle => none
      | .waiting _ _ => none
      | .holding ctor noffH => s.check t ctor noffH
      | .allocating numPages found => some (s.allocate t numPages found)
      | .again => some (s.releaseAgain t)
  | .destroy i =>
      match s.live[i]? with
      | none => none
      | some space =>
          (space.destroy s.gPhysPageBitMap).map fun b =>
            { s with gPhysPageBitMap := b, live := s.live.eraseIdx i }

end Loaders

end Nachos
