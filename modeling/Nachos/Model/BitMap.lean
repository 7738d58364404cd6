import Mathlib.Data.List.FinRange
import Mathlib.Data.Fintype.Fin
import Mathlib.Tactic

/-! # The packed bitmap (`userprog/bitmap.cc`)

A bitmap of `numBits` bits is an array of 32-bit words. The ASSERT on the argument
of `Mark`, `Clear` and `Test` is the type `Fin numBits`; `BitMap.index?` is the
check itself, for callers that pass a signed integer. -/

namespace Nachos

/-- The macro `divRoundUp(n, s)` of `threads/utility.h`. -/
def divRoundUp (n s : ℕ) : ℕ :=
  n / s + if 0 < n % s then 1 else 0

def bitsInWord : ℕ := 32

theorem word_lt_of_lt {n which : ℕ} (h : which < n) :
    which / bitsInWord < divRoundUp n bitsInWord := by
  unfold divRoundUp bitsInWord
  split <;> omega

structure BitMap (numBits : ℕ) where
  map : Vector (BitVec 32) (divRoundUp numBits bitsInWord)
deriving DecidableEq

namespace BitMap

variable {n : ℕ}

/-- `ASSERT(which >= 0 && which < numBits)`: `none` is the failed assertion. -/
def index? (which : ℤ) : Option (Fin n) :=
  if h : 0 ≤ which ∧ which < n then some ⟨which.toNat, by omega⟩ else none

/-- The word `map[which / BitsInWord]`. -/
def word (b : BitMap n) (which : Fin n) : BitVec 32 :=
  have := word_lt_of_lt which.isLt
  b.map[which.val / bitsInWord]

/-- The one-bit word `1 << (which % BitsInWord)`. -/
def mask (which : Fin n) : BitVec 32 :=
  1#32 <<< (which.val % bitsInWord)

def setWord (b : BitMap n) (which : Fin n) (w : BitVec 32) : BitMap n :=
  { map := b.map.set (which / bitsInWord) w (word_lt_of_lt which.isLt) }

def mark (b : BitMap n) (which : Fin n) : BitMap n :=
  b.setWord which (b.word which ||| mask which)

def clear (b : BitMap n) (which : Fin n) : BitMap n :=
  b.setWord which (b.word which &&& ~~~ mask which)

def test (b : BitMap n) (which : Fin n) : Bool :=
  b.word which &&& mask which ≠ 0#32

/-- The constructor: `new unsigned int[numWords]` leaves the words `garbage`, and the
loop clears the bits `0 .. numBits - 1` one after the other. -/
def create (garbage : Vector (BitVec 32) (divRoundUp n bitsInWord)) : BitMap n :=
  (List.finRange n).foldl clear ⟨garbage⟩

/-- The first clear bit, which is marked; `-1` when every bit is set. -/
def find (b : BitMap n) : ℤ × BitMap n :=
  match (List.finRange n).find? (fun i => !b.test i) with
  | some i => (i, b.mark i)
  | none => (-1, b)

def numClear (b : BitMap n) : ℕ :=
  (List.finRange n).countP (fun i => !b.test i)

end BitMap

end Nachos
