import Nachos.Model.BitMap

/-! # The members of `BitMap` as they stand (`userprog/bitmap.cc`)

`BitMap` of `Model.BitMap` has bit numbers that are in range. Here an argument is an `int`, and
`map` is the array that the constructor allocates. -/

namespace Nachos

/-- How a member ends before it returns: its ASSERT fails, or it indexes `map` outside the
array. -/
inductive BitMapStop
  | assertion
  | outside
deriving DecidableEq, Repr

structure BitMapObject where
  numBits : ℕ
  numWords : ℕ
  map : Array (BitVec 32)
deriving DecidableEq, Repr

namespace BitMapObject

/-- `map[index]` -/
def readWord (b : BitMapObject) (index : ℕ) : Except BitMapStop (BitVec 32) :=
  match b.map[index]? with
  | some word => .ok word
  | none => .error .outside

/-- `map[index] = word` -/
def writeWord (b : BitMapObject) (index : ℕ) (word : BitVec 32) :
    Except BitMapStop BitMapObject :=
  if h : index < b.map.size then .ok { b with map := b.map.set index word h }
  else .error .outside

/-- `ASSERT(which >= 0 && which < numBits)` -/
def assertIndex (b : BitMapObject) (which : ℤ) : Except BitMapStop ℕ :=
  if 0 ≤ which ∧ which < b.numBits then .ok which.toNat else .error .assertion

def mark (b : BitMapObject) (which : ℤ) : Except BitMapStop BitMapObject := do
  let which ← b.assertIndex which
  let word ← b.readWord (which / bitsInWord)
  b.writeWord (which / bitsInWord) (word ||| (1#32 <<< (which % bitsInWord)))

def clear (b : BitMapObject) (which : ℤ) : Except BitMapStop BitMapObject := do
  let which ← b.assertIndex which
  let word ← b.readWord (which / bitsInWord)
  b.writeWord (which / bitsInWord) (word &&& ~~~(1#32 <<< (which % bitsInWord)))

def test (b : BitMapObject) (which : ℤ) : Except BitMapStop Bool := do
  let which ← b.assertIndex which
  let word ← b.readWord (which / bitsInWord)
  return word &&& (1#32 <<< (which % bitsInWord)) ≠ 0#32

/-- The loop of the constructor from `i` on, with `left` more iterations. -/
def clearFrom (b : BitMapObject) (i : ℕ) : ℕ → Except BitMapStop BitMapObject
  | 0 => .ok b
  | left + 1 => do
      let b ← b.clear i
      clearFrom b (i + 1) left

/-- The constructor. `new unsigned int[numWords]` leaves the words `garbage`. -/
def create (nitems : ℕ) (garbage : ℕ → BitVec 32) : Except BitMapStop BitMapObject :=
  let numWords := divRoundUp nitems bitsInWord
  clearFrom ⟨nitems, numWords, Array.ofFn fun i : Fin numWords => garbage i⟩ 0 nitems

/-- The loop of `Find` from `i` on, with `left` more iterations. -/
def findFrom (b : BitMapObject) (i : ℕ) : ℕ → Except BitMapStop (ℤ × BitMapObject)
  | 0 => .ok (-1, b)
  | left + 1 => do
      let set ← b.test i
      if set then findFrom b (i + 1) left
      else
        let b ← b.mark i
        return (i, b)

def find (b : BitMapObject) : Except BitMapStop (ℤ × BitMapObject) :=
  b.findFrom 0 b.numBits

/-- The loop of `NumClear` from `i` on, with `left` more iterations. -/
def numClearFrom (b : BitMapObject) (count i : ℕ) : ℕ → Except BitMapStop ℕ
  | 0 => .ok count
  | left + 1 => do
      let set ← b.test i
      numClearFrom b (if set then count else count + 1) (i + 1) left

def numClear (b : BitMapObject) : Except BitMapStop ℕ :=
  b.numClearFrom 0 0 b.numBits

end BitMapObject

end Nachos
