import Mathlib

/-! # A part of the i386

Registers of 32 bits, a memory of bytes, and the instructions that move words. Straight-line
code is a list of instructions; the addresses of code only show in what `call` pushes and `ret`
pops. -/

namespace I386

abbrev Word := BitVec 32
abbrev Memory := Word → BitVec 8

inductive Register
  | eax | ebx | ecx | edx | ebp | esi | edi | esp
deriving DecidableEq, Repr

/-! ## Memory -/

/-- The little-endian word in the four bytes from `a` on. -/
def load (memory : Memory) (a : Word) : Word :=
  memory (a + 3#32) ++ memory (a + 2#32) ++ memory (a + 1#32) ++ memory a

def store (memory : Memory) (a value : Word) : Memory := fun p =>
  if (p - a).toNat < 4 then value.extractLsb' (8 * (p - a).toNat) 8 else memory p

/-- The `size` bytes from `a` on. -/
def range (a : Word) (size : ℕ) : Set Word :=
  {p | (p - a).toNat < size}

/-- The bytes of a word. -/
abbrev word (a : Word) : Set Word :=
  range a 4

instance decidableMemRange (a : Word) (size : ℕ) (p : Word) : Decidable (p ∈ range a size) :=
  inferInstanceAs (Decidable ((p - a).toNat < size))

section Memory

variable {memory memory' : Memory} {a b value p : Word} {size : ℕ}

theorem mem_range : p ∈ range a size ↔ (p - a).toNat < size := Iff.rfl

theorem mem_word_add {k : ℕ} (hk : k < 2 ^ 32 - 3) :
    p ∈ word (a + BitVec.ofNat 32 k) ↔ k ≤ (p - a).toNat ∧ (p - a).toNat < k + 4 := by
  have hlt := (p - a).isLt
  have hmod : k % 2 ^ 32 = k := Nat.mod_eq_of_lt (by omega)
  rw [mem_range, ← sub_sub, BitVec.toNat_sub, BitVec.toNat_ofNat, hmod]
  omega

/-- A word at an offset lies in the range. -/
theorem word_subset_range {k : ℕ} (hk : k + 4 ≤ size) (hsize : size ≤ 2 ^ 32 - 1) :
    word (a + BitVec.ofNat 32 k) ⊆ range a size := by
  intro p hp
  have h := (mem_word_add (by omega)).mp hp
  exact lt_of_lt_of_le h.2 hk

theorem word_disjoint_of_offsets {i j : ℕ} (h : i + 4 ≤ j ∨ j + 4 ≤ i) (hi : i < 2 ^ 32 - 3)
    (hj : j < 2 ^ 32 - 3) :
    Disjoint (word (a + BitVec.ofNat 32 i)) (word (a + BitVec.ofNat 32 j)) := by
  rw [Set.disjoint_left]
  intro p hp hp'
  have h₁ := (mem_word_add hi).mp hp
  have h₂ := (mem_word_add hj).mp hp'
  omega

theorem range_disjoint {m n : ℕ} (hm : m ≤ (b - a).toNat) (hn : n ≤ (a - b).toNat)
    (hne : a ≠ b) : Disjoint (range a m) (range b n) := by
  rw [Set.disjoint_left]
  intro p hp hq
  rw [mem_range] at hp hq
  bv_omega

theorem range_subset {m n : ℕ} (h : (a - b).toNat + m ≤ n) (hn : n < 2 ^ 32) :
    range a m ⊆ range b n := by
  intro p hp
  rw [mem_range] at hp ⊢
  bv_omega

theorem store_of_not_mem (h : p ∉ word a) : store memory a value p = memory p :=
  if_neg h

theorem load_congr (h : ∀ p ∈ word a, memory p = memory' p) : load memory a = load memory' a := by
  have hbyte (k : Word) (hk : k.toNat < 4) : memory (a + k) = memory' (a + k) :=
    h _ (by rw [mem_range, add_sub_cancel_left]; exact hk)
  have hzero := hbyte 0#32 (by decide)
  rw [BitVec.add_zero] at hzero
  rw [load, load, hbyte 3#32 (by decide), hbyte 2#32 (by decide), hbyte 1#32 (by decide), hzero]

theorem load_store_of_disjoint (h : Disjoint (word a) (word b)) :
    load (store memory b value) a = load memory a :=
  load_congr fun _ hp => store_of_not_mem (Set.disjoint_left.mp h hp)

theorem bytes_append (value : Word) :
    value.extractLsb' 24 8 ++ value.extractLsb' 16 8 ++ value.extractLsb' 8 8 ++
      value.extractLsb' 0 8 = value := by
  apply BitVec.eq_of_getLsbD_eq
  intro i hi
  simp only [BitVec.getLsbD_append, BitVec.getLsbD_extractLsb']
  grind

theorem load_store (memory : Memory) (a value : Word) : load (store memory a value) a = value := by
  have hbyte (k : Word) (hk : k.toNat < 4) :
      store memory a value (a + k) = value.extractLsb' (8 * k.toNat) 8 := by
    rw [store, add_sub_cancel_left, if_pos hk]
  have hzero := hbyte 0#32 (by decide)
  rw [BitVec.add_zero] at hzero
  rw [load, hbyte 3#32 (by decide), hbyte 2#32 (by decide), hbyte 1#32 (by decide), hzero]
  exact bytes_append value

end Memory

/-! ## Instructions -/

inductive Operand
  | register (r : Register)
  /-- `disp(base)` -/
  | indirect (disp : Word) (base : Register)
  | absolute (a : Word)
deriving DecidableEq, Repr

inductive Instruction
  | movl (source target : Operand)
  | pushl (source : Operand)
  | popl (target : Register)
deriving DecidableEq, Repr

structure State where
  registers : Register → Word
  memory : Memory

namespace State

variable (s : State)

def read : Operand → Word
  | .register r => s.registers r
  | .indirect disp base => load s.memory (s.registers base + disp)
  | .absolute a => load s.memory a

def write (value : Word) : Operand → State
  | .register r => { s with registers := Function.update s.registers r value }
  | .indirect disp base => { s with memory := store s.memory (s.registers base + disp) value }
  | .absolute a => { s with memory := store s.memory a value }

def push (value : Word) : State where
  registers := Function.update s.registers .esp (s.registers .esp - 4#32)
  memory := store s.memory (s.registers .esp - 4#32) value

/-- The word on top of the stack, and the state without it. -/
def pop : Word × State :=
  (load s.memory (s.registers .esp),
    { s with registers := Function.update s.registers .esp (s.registers .esp + 4#32) })

def exec : Instruction → State
  | .movl source target => s.write (s.read source) target
  | .pushl source => s.push (s.read source)
  | .popl target => s.pop.2.write s.pop.1 (.register target)

def run (code : List Instruction) : State :=
  code.foldl exec s

/-- `call` up to the first instruction of the procedure. -/
def call (returnAddress : Word) : State :=
  s.push returnAddress

/-- `ret`: where it goes, and the state there. -/
def ret : Word × State :=
  s.pop

@[simp] theorem run_nil : s.run [] = s := rfl

@[simp] theorem run_cons (i : Instruction) (code : List Instruction) :
    s.run (i :: code) = (s.exec i).run code := rfl

theorem run_append (code code' : List Instruction) :
    s.run (code ++ code') = (s.run code).run code' :=
  List.foldl_append

end State
end I386
