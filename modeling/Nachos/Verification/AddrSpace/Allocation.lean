import Nachos.Model.AddrSpace
import Nachos.Verification.BitMap.Semantics

/-! # The allocation loop -/

namespace Nachos.AddrSpace

/-- What the loop over `Find` does when there are enough clear bits: it takes `n` clear
frames in increasing order. -/
structure AllocateSpec (n : ℕ) (b : BitMap numPhysPages)
    (result : List ℤ × BitMap numPhysPages) (found : List (Fin numPhysPages)) : Prop where
  frames : result.1 = found.map fun i => (i.val : ℤ)
  length : found.length = n
  increasing : found.Pairwise (· < ·)
  clear : ∀ i ∈ found, b.test i = false
  test : ∀ j, result.2.test j = (b.test j || decide (j ∈ found))
  numClear : result.2.numClear + n = b.numClear

theorem allocate_eq_take (n : ℕ) (b : BitMap numPhysPages) : allocate n b = b.take n := by
  induction n generalizing b with
  | zero => rfl
  | succ n ih =>
      rw [allocate, BitMap.take]
      dsimp only
      rw [ih]

theorem allocate_spec (n : ℕ) (b : BitMap numPhysPages) (hroom : n ≤ b.numClear) :
    ∃ found, AllocateSpec n b (allocate n b) found := by
  obtain ⟨found, h⟩ := BitMap.take_spec n b hroom
  rw [allocate_eq_take]
  exact ⟨found, h.numbers, h.length, h.increasing, h.clear, h.test, h.numClear⟩

/-- The first `n` clear frames. -/
def freeFrames (b : BitMap numPhysPages) (n : ℕ) : List ℕ :=
  (((List.finRange numPhysPages).filter fun i => !b.test i).take n).map Fin.val

/-- After `Find` has marked the first clear bit, the clear bits are the rest. -/
theorem filter_mark {b : BitMap numPhysPages} {i : Fin numPhysPages} (hclear : b.test i = false)
    (hleast : ∀ j < i, b.test j = true) :
    (List.finRange numPhysPages).filter (fun j => !b.test j) =
      i :: (List.finRange numPhysPages).filter fun j => !(b.mark i).test j := by
  obtain ⟨as, bs, happ⟩ := List.append_of_mem (List.mem_finRange i)
  have hsorted := List.pairwise_lt_finRange numPhysPages
  rw [happ, List.pairwise_append, List.pairwise_cons] at hsorted
  obtain ⟨-, ⟨hbehind, -⟩, hbefore⟩ := hsorted
  have has : ∀ j ∈ as, b.test j = true := fun j hj => hleast j (hbefore j hj i List.mem_cons_self)
  have hbs : ∀ j ∈ bs, (!(b.mark i).test j) = !b.test j := by
    intro j hj
    rw [BitMap.test_mark, decide_eq_false (hbehind j hj).ne, Bool.false_or]
  have hnil : as.filter (fun j => !b.test j) = [] := by
    rw [List.filter_eq_nil_iff]
    intro j hj
    simp [has j hj]
  have hnil' : as.filter (fun j => !(b.mark i).test j) = [] := by
    rw [List.filter_eq_nil_iff]
    intro j hj
    simp [has j hj]
  rw [happ, List.filter_append, List.filter_append, hnil, hnil', List.filter_cons,
    List.filter_cons, List.filter_congr hbs]
  simp [hclear]

/-- The loop takes the first clear frames. -/
theorem allocate_frames (n : ℕ) (b : BitMap numPhysPages) (hroom : n ≤ b.numClear) :
    (allocate n b).1 = (freeFrames b n).map fun frame : ℕ => (frame : ℤ) := by
  induction n generalizing b with
  | zero => simp [allocate, freeFrames]
  | succ n ih =>
      have hspec := b.find_spec
      rw [allocate]
      generalize b.find = r at hspec
      cases hspec with
      | full hfull =>
          obtain ⟨i, hi⟩ := (BitMap.numClear_pos_iff b).mp (by omega)
          rw [hfull i] at hi
          cases hi
      | found i hclear hleast =>
          have hcount := BitMap.numClear_mark b i hclear
          have hrest := ih (b.mark i) (by omega)
          simp only [freeFrames, filter_mark hclear hleast, List.take_succ_cons, List.map_cons]
          exact congrArg _ hrest

theorem length_freeFrames {n : ℕ} {b : BitMap numPhysPages} (hroom : n ≤ b.numClear) :
    (freeFrames b n).length = n := by
  rw [BitMap.numClear, List.countP_eq_length_filter] at hroom
  simp [freeFrames, hroom]

theorem freeFrames_increasing (b : BitMap numPhysPages) (n : ℕ) :
    (freeFrames b n).Pairwise (· < ·) := by
  refine List.Pairwise.map _ (fun _ _ h => h) ?_
  exact ((List.pairwise_lt_finRange numPhysPages).filter _).sublist (List.take_sublist _ _)

theorem lt_of_mem_freeFrames {b : BitMap numPhysPages} {n frame : ℕ}
    (h : frame ∈ freeFrames b n) : frame < numPhysPages := by
  obtain ⟨i, -, rfl⟩ := List.mem_map.mp h
  exact i.isLt

theorem length_allocate (n : ℕ) (b : BitMap numPhysPages) : (allocate n b).1.length = n := by
  induction n generalizing b with
  | zero => rfl
  | succ n ih => simp [allocate, ih]

theorem numSet_allocate (n : ℕ) (b : BitMap numPhysPages) (hroom : n ≤ b.numClear) :
    (allocate n b).2.numSet = b.numSet + n := by
  obtain ⟨found, hspec⟩ := allocate_spec n b hroom
  have hbefore := b.numSet_add_numClear
  have hafter := (allocate n b).2.numSet_add_numClear
  have hnum := hspec.numClear
  omega

end Nachos.AddrSpace
