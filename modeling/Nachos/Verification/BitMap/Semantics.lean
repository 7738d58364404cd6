import Nachos.Model.BitMap

/-! # The bitmap as a set of bits

`Mark`, `Clear` and `Test` act on single bits although they work on words. `Find` and
`NumClear` are described by the bits alone, so no later proof looks at a word. -/

namespace Nachos.BitMap

variable {n : ℕ}

/-! ## One bit of one word -/

theorem getLsbD_mask (i : Fin n) (k : ℕ) :
    (mask i).getLsbD k = decide (k = i.val % bitsInWord) := by
  have hlt : i.val % bitsInWord < 32 := Nat.mod_lt _ (by decide)
  simp only [mask, BitVec.getLsbD_shiftLeft, BitVec.getLsbD_one]
  by_cases h : k = i.val % bitsInWord
  · subst h
    simp [hlt]
  · simp only [h, decide_false]
    by_cases hk : k < i.val % bitsInWord
    · simp [hk]
    · have : ¬ k - i.val % bitsInWord = 0 := by omega
      simp [this]

theorem test_eq_getLsbD (b : BitMap n) (i : Fin n) :
    b.test i = (b.word i).getLsbD (i.val % bitsInWord) := by
  have hlt : i.val % bitsInWord < 32 := Nat.mod_lt _ (by decide)
  unfold test
  by_cases h : (b.word i).getLsbD (i.val % bitsInWord) = true
  · rw [h, decide_eq_true_iff]
    intro hzero
    have hbit := congrArg (fun w => w.getLsbD (i.val % bitsInWord)) hzero
    simp [BitVec.getLsbD_and, getLsbD_mask, h] at hbit
  · rw [Bool.not_eq_true] at h
    rw [h, decide_eq_false_iff_not, not_not]
    apply BitVec.eq_of_getLsbD_eq
    intro k _
    rw [BitVec.getLsbD_and, getLsbD_mask, BitVec.getLsbD_zero]
    by_cases hk : k = i.val % bitsInWord
    · subst hk
      simp [h]
    · simp [hk]

theorem word_setWord (b : BitMap n) (i j : Fin n) (w : BitVec 32) :
    (b.setWord i w).word j =
      if i.val / bitsInWord = j.val / bitsInWord then w else b.word j := by
  simp only [setWord, word, Vector.getElem_set]

/-- Two bits are the same bit exactly when they have the same word and the same place. -/
theorem eq_iff_word_and_place (i j : Fin n) :
    i = j ↔ i.val / bitsInWord = j.val / bitsInWord ∧
      i.val % bitsInWord = j.val % bitsInWord := by
  constructor
  · rintro rfl
    exact ⟨rfl, rfl⟩
  · rintro ⟨hword, hplace⟩
    apply Fin.ext
    rw [← Nat.div_add_mod i.val bitsInWord, ← Nat.div_add_mod j.val bitsInWord, hword, hplace]

theorem word_congr (b : BitMap n) {i j : Fin n}
    (h : i.val / bitsInWord = j.val / bitsInWord) : b.word i = b.word j := by
  simp only [word, h]

@[simp] theorem test_mark (b : BitMap n) (i j : Fin n) :
    (b.mark i).test j = (decide (i = j) || b.test j) := by
  rw [test_eq_getLsbD, test_eq_getLsbD, mark, word_setWord]
  by_cases hword : i.val / bitsInWord = j.val / bitsInWord
  · rw [if_pos hword, BitVec.getLsbD_or, getLsbD_mask, b.word_congr hword]
    simp only [eq_iff_word_and_place, hword, true_and, eq_comm, Bool.or_comm]
  · rw [if_neg hword]
    simp [eq_iff_word_and_place, hword]

@[simp] theorem test_clear (b : BitMap n) (i j : Fin n) :
    (b.clear i).test j = (!decide (i = j) && b.test j) := by
  have hlt : j.val % bitsInWord < 32 := Nat.mod_lt _ (by decide)
  rw [test_eq_getLsbD, test_eq_getLsbD, clear, word_setWord]
  by_cases hword : i.val / bitsInWord = j.val / bitsInWord
  · rw [if_pos hword, BitVec.getLsbD_and, BitVec.getLsbD_not, getLsbD_mask, b.word_congr hword]
    simp only [eq_iff_word_and_place, hword, hlt, true_and, eq_comm, decide_true,
      Bool.true_and, Bool.and_comm]
  · rw [if_neg hword]
    simp [eq_iff_word_and_place, hword]

/-! ## Construction -/

theorem test_foldl_clear (l : List (Fin n)) (b : BitMap n) (j : Fin n) :
    (l.foldl clear b).test j = (decide (j ∉ l) && b.test j) := by
  induction l generalizing b with
  | nil => simp
  | cons i l ih =>
      rw [List.foldl_cons, ih, test_clear]
      by_cases hi : i = j
      · simp [hi]
      · simp [hi, Ne.symm hi]

@[simp] theorem test_create (garbage : Vector (BitVec 32) (divRoundUp n bitsInWord))
    (j : Fin n) : (create garbage).test j = false := by
  simp [create, test_foldl_clear]

/-! ## Find and NumClear -/

@[simp] theorem index?_coe (i : Fin n) : index? (i.val : ℤ) = some i := by
  simp [index?]

/-- What one call of `Find` does: it takes the least clear bit, or it fails and every
bit is set. -/
inductive FindSpec (b : BitMap n) : ℤ × BitMap n → Prop
  | found (i : Fin n) (hclear : b.test i = false) (hleast : ∀ j < i, b.test j = true) :
      FindSpec b (i, b.mark i)
  | full (hfull : ∀ i, b.test i = true) : FindSpec b (-1, b)

theorem find_spec (b : BitMap n) : FindSpec b b.find := by
  unfold find
  cases hfind : (List.finRange n).find? (fun i => !b.test i) with
  | none =>
      apply FindSpec.full
      intro i
      have := List.find?_eq_none.mp hfind i (List.mem_finRange i)
      simpa using this
  | some i =>
      refine .found i ?_ ?_
      · simpa using List.find?_some hfind
      · intro j hj
        obtain ⟨_, as, bs, happ, hbefore⟩ := List.find?_eq_some_iff_append.mp hfind
        have hsorted := List.pairwise_lt_finRange n
        rw [happ, List.pairwise_append] at hsorted
        have hmem : j ∈ as ++ i :: bs := happ ▸ List.mem_finRange j
        rcases List.mem_append.mp hmem with hleft | hright
        · simpa using hbefore j hleft
        · rcases List.mem_cons.mp hright with rfl | htail
          · exact absurd hj (lt_irrefl _)
          · have := (List.pairwise_cons.mp hsorted.2.1).1 j htail
            exact absurd hj (not_lt.mpr this.le)

theorem find_eq {b : BitMap n} {i : Fin n} (hclear : b.test i = false)
    (hleast : ∀ j < i, b.test j = true) : b.find = ((i : ℤ), b.mark i) := by
  have hspec := b.find_spec
  generalize b.find = r at hspec
  cases hspec with
  | full hfull => simp [hfull i] at hclear
  | found j hclear' hleast' =>
      have hij : i = j := by
        rcases lt_trichotomy i j with hlt | heq | hgt
        · simp [hleast' i hlt] at hclear
        · exact heq
        · simp [hleast j hgt] at hclear'
      rw [hij]

/-- The clear bits as a finite set; `NumClear` is its size. -/
def clearBits (b : BitMap n) : Finset (Fin n) :=
  Finset.univ.filter (fun i => b.test i = false)

@[simp] theorem mem_clearBits (b : BitMap n) (i : Fin n) :
    i ∈ b.clearBits ↔ b.test i = false := by
  simp [clearBits]

theorem numClear_eq_card (b : BitMap n) : b.numClear = b.clearBits.card := by
  have hperm : (List.finRange n).filter (fun i => !b.test i) = b.clearBits.val := by
    simp [clearBits, Finset.filter, Fin.univ_def, Multiset.filter_coe]
  rw [numClear, List.countP_eq_length_filter, Finset.card, ← hperm, Multiset.coe_card]

theorem numClear_le (b : BitMap n) : b.numClear ≤ n := by
  rw [numClear]
  exact (List.countP_le_length).trans_eq (List.length_finRange)

theorem clearBits_mark (b : BitMap n) (i : Fin n) :
    (b.mark i).clearBits = b.clearBits.erase i := by
  ext j
  simp only [mem_clearBits, test_mark, Finset.mem_erase, Bool.or_eq_false_iff,
    decide_eq_false_iff_not, ne_comm (a := j), ne_eq]

theorem numClear_mark (b : BitMap n) (i : Fin n) (h : b.test i = false) :
    (b.mark i).numClear + 1 = b.numClear := by
  rw [numClear_eq_card, numClear_eq_card, clearBits_mark]
  exact Finset.card_erase_add_one (by simpa using h)

theorem numClear_pos_iff (b : BitMap n) : 0 < b.numClear ↔ ∃ i, b.test i = false := by
  rw [numClear_eq_card, Finset.card_pos]
  simp [Finset.Nonempty]

/-! ## Find in a loop -/

/-- `Find`, called `k` times. -/
def take : ℕ → BitMap n → List ℤ × BitMap n
  | 0, b => ([], b)
  | k + 1, b =>
      let (which, b) := b.find
      let (found, b) := take k b
      (which :: found, b)

/-- What the loop does when there are enough clear bits: it takes the first `k` clear bits in
increasing order. -/
structure TakeSpec (k : ℕ) (b : BitMap n) (result : List ℤ × BitMap n) (found : List (Fin n)) :
    Prop where
  numbers : result.1 = found.map fun i => (i.val : ℤ)
  length : found.length = k
  increasing : found.Pairwise (· < ·)
  clear : ∀ i ∈ found, b.test i = false
  least : ∀ i ∈ found, ∀ j < i, b.test j = true ∨ j ∈ found
  test : ∀ j, result.2.test j = (b.test j || decide (j ∈ found))
  numClear : result.2.numClear + k = b.numClear

theorem take_spec (k : ℕ) (b : BitMap n) (hroom : k ≤ b.numClear) :
    ∃ found, TakeSpec k b (take k b) found := by
  induction k generalizing b with
  | zero => exact ⟨[], ⟨rfl, rfl, .nil, by simp, by simp, by simp [take], rfl⟩⟩
  | succ k ih =>
      have hspec := b.find_spec
      rw [take]
      generalize b.find = r at hspec
      cases hspec with
      | full hfull =>
          obtain ⟨i, hi⟩ := (numClear_pos_iff b).mp (by omega)
          rw [hfull i] at hi
          cases hi
      | found i hclear hleast =>
          have hcount := numClear_mark b i hclear
          obtain ⟨found, ⟨hnumbers, hlength, hincr, hclears, hfirst, htest, hnum⟩⟩ :=
            ih (b.mark i) (by omega)
          -- a bit that is still clear lies behind the least clear bit of `b`
          have hbehind : ∀ j ∈ found, i < j ∧ b.test j = false := by
            intro j hj
            have hj := hclears j hj
            rw [test_mark, Bool.or_eq_false_iff, decide_eq_false_iff_not] at hj
            refine ⟨?_, hj.2⟩
            by_contra hle
            have hset := hleast j (lt_of_le_of_ne (not_lt.mp hle) (Ne.symm hj.1))
            rw [hj.2] at hset
            cases hset
          refine ⟨i :: found, ?_, ?_, ?_, ?_, ?_, ?_, ?_⟩
          · simp [hnumbers]
          · simp [hlength]
          · exact List.pairwise_cons.mpr ⟨fun j hj => (hbehind j hj).1, hincr⟩
          · intro j hj
            rcases List.mem_cons.mp hj with rfl | hj
            · exact hclear
            · exact (hbehind j hj).2
          · intro j hj l hl
            rcases List.mem_cons.mp hj with rfl | hj
            · exact .inl (hleast l hl)
            · have hl := hfirst j hj l hl
              rw [test_mark, Bool.or_eq_true, decide_eq_true_iff] at hl
              rw [List.mem_cons]
              tauto
          · intro j
            rw [htest, test_mark, Bool.or_right_comm, Bool.or_comm, ← Bool.decide_or]
            simp only [List.mem_cons, eq_comm]
          · simp only
            omega

/-- The set bits, counted. -/
def numSet (b : BitMap n) : ℕ :=
  (List.finRange n).countP (fun i => b.test i)

theorem numSet_add_numClear (b : BitMap n) : b.numSet + b.numClear = n := by
  have h := List.length_eq_countP_add_countP (fun i => b.test i) (l := List.finRange n)
  simp only [List.length_finRange] at h
  simpa [numSet, numClear] using h.symm

end Nachos.BitMap
