import Nachos.Library.DataRefinement
import Nachos.Library.Tracking
import Nachos.Model.BitMapObject
import Nachos.Verification.BitMap.Semantics

/-! # The bitmap refines a finite set

The members of the object keep to the operations on `BitMap n`, whose bits are a subset of the
first `n` numbers. -/

namespace Nachos

open DataRefinement Tracking

namespace BitMap

variable {n : ℕ}

/-! ## Calls and the set -/

/-- A call with an argument in range. -/
inductive Call (n : ℕ)
  | mark (which : Fin n)
  | clear (which : Fin n)
  | test (which : Fin n)
  | find
  | numClear
deriving DecidableEq, Repr

inductive Reply
  | done
  | flag (set : Bool)
  | number (value : ℤ)
deriving DecidableEq, Repr

/-- What a call does to a set of numbers below `n`. -/
def setSpec : Call n → Finset (Fin n) → Reply × Finset (Fin n)
  | .mark which, set => (.done, insert which set)
  | .clear which, set => (.done, set.erase which)
  | .test which, set => (.flag (decide (which ∈ set)), set)
  | .find, set =>
      if h : setᶜ.Nonempty then (.number (setᶜ.min' h).val, insert (setᶜ.min' h) set)
      else (.number (-1), set)
  | .numClear, set => (.number (n - set.card), set)

/-- The same call on a bitmap. -/
def callSpec : Call n → BitMap n → Reply × BitMap n
  | .mark which, b => (.done, b.mark which)
  | .clear which, b => (.done, b.clear which)
  | .test which, b => (.flag (b.test which), b)
  | .find, b => (.number b.find.1, b.find.2)
  | .numClear, b => (.number b.numClear, b)

/-- The set bits. -/
def IsSet (b : BitMap n) (set : Finset (Fin n)) : Prop :=
  ∀ i, b.test i = decide (i ∈ set)

theorem clearBits_of_isSet {b : BitMap n} {set : Finset (Fin n)} (h : b.IsSet set) :
    b.clearBits = setᶜ := by
  ext i
  rw [mem_clearBits, h i, decide_eq_false_iff_not, Finset.mem_compl]

theorem find_of_isSet {b : BitMap n} {set : Finset (Fin n)} (hset : b.IsSet set)
    (h : setᶜ.Nonempty) : b.find = (((setᶜ.min' h).val : ℤ), b.mark (setᶜ.min' h)) := by
  refine find_eq ?_ fun j hj => ?_
  · rw [hset, decide_eq_false_iff_not, ← Finset.mem_compl]
    exact setᶜ.min'_mem h
  · rw [hset, decide_eq_true_iff]
    by_contra hnot
    exact absurd (setᶜ.min'_le j (Finset.mem_compl.mpr hnot)) (not_le.mpr hj)

theorem find_of_full {b : BitMap n} {set : Finset (Fin n)} (hset : b.IsSet set)
    (h : ¬ setᶜ.Nonempty) : b.find = (-1, b) := by
  have hspec := b.find_spec
  generalize b.find = r at hspec
  cases hspec with
  | full => rfl
  | found i hclear =>
      rw [hset, decide_eq_false_iff_not, ← Finset.mem_compl] at hclear
      exact absurd ⟨i, hclear⟩ h

theorem find_eq_neg_one_iff {b : BitMap n} {set : Finset (Fin n)} (hset : b.IsSet set) :
    b.find = (-1, b) ↔ set = Finset.univ := by
  rw [← Finset.compl_eq_empty_iff, ← Finset.not_nonempty_iff_eq_empty]
  refine ⟨fun h hroom => ?_, find_of_full hset⟩
  rw [find_of_isSet hset hroom] at h
  have hneg := congrArg Prod.fst h
  dsimp only at hneg
  omega

theorem isSet_mark {b : BitMap n} {set : Finset (Fin n)} (h : b.IsSet set) (which : Fin n) :
    (b.mark which).IsSet (insert which set) := by
  intro i
  rw [test_mark, h i, ← Bool.decide_or]
  simp only [Finset.mem_insert, eq_comm]

theorem isSet_clear {b : BitMap n} {set : Finset (Fin n)} (h : b.IsSet set) (which : Fin n) :
    (b.clear which).IsSet (set.erase which) := by
  intro i
  rw [test_clear, h i, ← decide_not, ← Bool.decide_and]
  simp only [Finset.mem_erase, ne_eq, eq_comm]

theorem find_refines {b : BitMap n} {set : Finset (Fin n)} (hset : b.IsSet set) :
    Reply.number b.find.1 = (setSpec .find set).1 ∧ b.find.2.IsSet (setSpec .find set).2 := by
  rw [setSpec]
  by_cases h : setᶜ.Nonempty
  · rw [dif_pos h, find_of_isSet hset h]
    exact ⟨rfl, isSet_mark hset _⟩
  · rw [dif_neg h, find_of_full hset h]
    exact ⟨rfl, hset⟩

theorem numClear_of_isSet {b : BitMap n} {set : Finset (Fin n)} (hset : b.IsSet set) :
    (b.numClear : ℤ) = n - set.card := by
  have hle := set.card_le_univ
  rw [Fintype.card_fin] at hle
  rw [numClear_eq_card, clearBits_of_isSet hset, Finset.card_compl, Fintype.card_fin,
    Nat.cast_sub hle]

theorem callSpec_refines :
    Refines (fun i b => (.ok (callSpec i b) : Except BitMapStop (Reply × BitMap n))) setSpec
      (fun _ _ => True) IsSet := by
  rintro i b set - hset
  suffices h : (callSpec i b).1 = (setSpec i set).1 ∧ (callSpec i b).2.IsSet (setSpec i set).2 from
    ⟨_, congrArg Except.ok (Prod.ext h.1 rfl), h.2⟩
  cases i with
  | mark which => exact ⟨rfl, isSet_mark hset which⟩
  | clear which => exact ⟨rfl, isSet_clear hset which⟩
  | test which => exact ⟨congrArg Reply.flag (hset which), hset⟩
  | find => exact find_refines hset
  | numClear => exact ⟨congrArg Reply.number (numClear_of_isSet hset), hset⟩

end BitMap

namespace BitMapObject

variable {n : ℕ}

/-! ## The members -/

/-- The object that holds the words of a bitmap. -/
def ofBitMap (b : BitMap n) : BitMapObject :=
  ⟨n, divRoundUp n bitsInWord, b.map.toArray⟩

theorem assertIndex_ofBitMap (b : BitMap n) (which : Fin n) :
    (ofBitMap b).assertIndex which.val = .ok which.val := by
  rw [assertIndex, if_pos]
  · rfl
  · exact ⟨Int.natCast_nonneg _, Int.ofNat_lt.mpr which.isLt⟩

theorem readWord_ofBitMap (b : BitMap n) (which : Fin n) :
    (ofBitMap b).readWord (which.val / bitsInWord) = .ok (b.word which) := by
  have hlt : which.val / bitsInWord < b.map.toArray.size :=
    (word_lt_of_lt which.isLt).trans_eq b.map.size_toArray.symm
  rw [readWord, ofBitMap, Array.getElem?_eq_getElem hlt]
  rfl

theorem writeWord_ofBitMap (b : BitMap n) (which : Fin n) (word : BitVec 32) :
    (ofBitMap b).writeWord (which.val / bitsInWord) word =
      .ok (ofBitMap (b.setWord which word)) := by
  have hlt : which.val / bitsInWord < b.map.toArray.size :=
    (word_lt_of_lt which.isLt).trans_eq b.map.size_toArray.symm
  rw [writeWord, ofBitMap, dif_pos hlt]
  rfl

theorem mark_ofBitMap (b : BitMap n) (which : Fin n) :
    (ofBitMap b).mark which.val = .ok (ofBitMap (b.mark which)) := by
  rw [mark, assertIndex_ofBitMap, ok_bind, readWord_ofBitMap, ok_bind, writeWord_ofBitMap]
  rfl

theorem clear_ofBitMap (b : BitMap n) (which : Fin n) :
    (ofBitMap b).clear which.val = .ok (ofBitMap (b.clear which)) := by
  rw [clear, assertIndex_ofBitMap, ok_bind, readWord_ofBitMap, ok_bind, writeWord_ofBitMap]
  rfl

theorem test_ofBitMap (b : BitMap n) (which : Fin n) :
    (ofBitMap b).test which.val = .ok (b.test which) := by
  rw [test, assertIndex_ofBitMap, ok_bind, readWord_ofBitMap, ok_bind]
  rfl

theorem ofBitMap_injective : Function.Injective (ofBitMap (n := n)) := by
  intro b b' h
  cases b
  cases b'
  simpa [ofBitMap, Vector.toArray_inj] using h

/-! ## The loops -/

/-- The loop of the constructor clears the bits that are left. -/
theorem clearFrom_ofBitMap (b : BitMap n) {i left : ℕ} (h : i + left = n) :
    (ofBitMap b).clearFrom i left =
      .ok (ofBitMap (((List.finRange n).drop i).foldl BitMap.clear b)) := by
  induction left generalizing b i with
  | zero =>
      rw [List.drop_eq_nil_of_le (by simp; omega)]
      rfl
  | succ left ih =>
      have hi : i < n := by omega
      rw [clearFrom, clear_ofBitMap b ⟨i, hi⟩, ok_bind, ih _ (by omega),
        List.drop_eq_getElem_cons (show i < (List.finRange n).length by simpa using hi)]
      simp

theorem create_eq (garbage : ℕ → BitVec 32) :
    create n garbage = .ok (ofBitMap (BitMap.create (n := n) (.ofFn fun i => garbage i))) := by
  rw [create]
  exact clearFrom_ofBitMap ⟨.ofFn fun i => garbage i⟩ (Nat.zero_add n)

/-- The loop of `Find` has passed set bits only. -/
theorem findFrom_ofBitMap (b : BitMap n) {i left : ℕ} (h : i + left = n)
    (hset : ∀ j : Fin n, j.val < i → b.test j = true) :
    (ofBitMap b).findFrom i left = .ok (b.find.1, ofBitMap b.find.2) := by
  induction left generalizing i with
  | zero =>
      have hfull : b.IsSet Finset.univ := by
        intro j
        rw [hset j (by omega), decide_eq_true (Finset.mem_univ j)]
      rw [BitMap.find_of_full hfull (by simp)]
      rfl
  | succ left ih =>
      have hi : i < n := by omega
      rw [findFrom, test_ofBitMap b ⟨i, hi⟩, ok_bind]
      cases htest : b.test ⟨i, hi⟩ with
      | true =>
          refine ih (by omega) fun j hj => ?_
          rcases Nat.lt_succ_iff_lt_or_eq.mp hj with hlt | heq
          · exact hset j hlt
          · rwa [show j = ⟨i, hi⟩ from Fin.ext heq]
      | false =>
          rw [BitMap.find_eq htest fun j hj => hset j hj]
          dsimp only
          rw [if_neg Bool.false_ne_true, mark_ofBitMap b ⟨i, hi⟩]
          rfl

theorem find_ofBitMap (b : BitMap n) :
    (ofBitMap b).find = .ok (b.find.1, ofBitMap b.find.2) :=
  findFrom_ofBitMap b (Nat.zero_add n) fun j hj => absurd hj (Nat.not_lt_zero j)

/-- The loop of `NumClear` counts the clear bits that are left. -/
theorem numClearFrom_ofBitMap (b : BitMap n) (count : ℕ) {i left : ℕ} (h : i + left = n) :
    (ofBitMap b).numClearFrom count i left =
      .ok (count + ((List.finRange n).drop i).countP fun i => !b.test i) := by
  induction left generalizing count i with
  | zero =>
      rw [List.drop_eq_nil_of_le (by simp; omega)]
      rfl
  | succ left ih =>
      have hi : i < n := by omega
      rw [numClearFrom, test_ofBitMap b ⟨i, hi⟩, ok_bind, ih _ (by omega),
        List.drop_eq_getElem_cons (show i < (List.finRange n).length by simpa using hi),
        List.countP_cons, List.getElem_finRange]
      cases htest : b.test ⟨i, hi⟩ with
      | true => simp [htest]
      | false => simp [htest]; omega

theorem numClear_ofBitMap (b : BitMap n) : (ofBitMap b).numClear = .ok b.numClear := by
  have hloop := numClearFrom_ofBitMap b 0 (Nat.zero_add n)
  rwa [Nat.zero_add] at hloop

/-! ## Runs -/

def call : BitMap.Call n → BitMapObject → Except BitMapStop (BitMap.Reply × BitMapObject)
  | .mark which, b => do
      let b ← b.mark which.val
      return (.done, b)
  | .clear which, b => do
      let b ← b.clear which.val
      return (.done, b)
  | .test which, b => do
      let set ← b.test which.val
      return (.flag set, b)
  | .find, b => do
      let (which, b) ← b.find
      return (.number which, b)
  | .numClear, b => do
      let count ← b.numClear
      return (.number count, b)

theorem call_refines :
    Refines (call (n := n)) BitMap.callSpec (fun _ _ => True) fun o b => o = ofBitMap b := by
  rintro i _ b - rfl
  refine ⟨ofBitMap (BitMap.callSpec i b).2, ?_, rfl⟩
  cases i with
  | mark which =>
      rw [call, mark_ofBitMap, ok_bind]
      rfl
  | clear which =>
      rw [call, clear_ofBitMap, ok_bind]
      rfl
  | test which =>
      rw [call, test_ofBitMap, ok_bind]
      rfl
  | find =>
      rw [call, find_ofBitMap, ok_bind]
      rfl
  | numClear =>
      rw [call, numClear_ofBitMap, ok_bind]
      rfl

/-- The words of `map` represent a set of numbers below `n`; bits from `n` on are not looked
at. -/
structure Represents (o : BitMapObject) (set : Finset (Fin n)) : Prop where
  numBits : o.numBits = n
  numWords : o.numWords = divRoundUp n bitsInWord
  size : o.map.size = o.numWords
  bits : ∀ i : Fin n, (o.map[i.val / bitsInWord]?).map (·.getLsbD (i.val % bitsInWord)) =
    some (decide (i ∈ set))

theorem represents_ofBitMap {b : BitMap n} {set : Finset (Fin n)} (h : b.IsSet set) :
    (ofBitMap b).Represents set := by
  refine ⟨rfl, rfl, b.map.size_toArray, fun i => ?_⟩
  have hlt : i.val / bitsInWord < b.map.toArray.size :=
    (word_lt_of_lt i.isLt).trans_eq b.map.size_toArray.symm
  rw [← h i, BitMap.test_eq_getLsbD, ofBitMap, Array.getElem?_eq_getElem hlt]
  rfl

/-- A run from the constructor, and `Find` in the state that it leaves. -/
structure RefinesSet (garbage : ℕ → BitVec 32) (calls : List (BitMap.Call n))
    (o o' : BitMapObject) : Prop where
  constructed : create n garbage = .ok o
  empty : o.Represents (∅ : Finset (Fin n))
  replies : run call calls o = .ok ((specRun BitMap.setSpec calls ∅).1, o')
  represents : o'.Represents (specRun BitMap.setSpec calls ∅).2
  full : o'.find = .ok (-1, o') ↔ (specRun BitMap.setSpec calls ∅).2 = Finset.univ

theorem bitmap_refines_finite_set (n : ℕ) (garbage : ℕ → BitVec 32)
    (calls : List (BitMap.Call n)) : ∃ o o', RefinesSet garbage calls o o' := by
  have hrefines := (call_refines (n := n)).trans BitMap.callSpec_refines fun _ _ _ _ _ => trivial
  have hempty : (BitMap.create (n := n) (.ofFn fun i => garbage i)).IsSet ∅ := by
    intro i
    simp
  obtain ⟨o', hrun, b, rfl, hset⟩ := hrefines.run
    (admitted_of_forall (fun _ _ => trivial) calls _) ⟨_, rfl, hempty⟩
  refine ⟨_, _, create_eq garbage, represents_ofBitMap hempty, hrun, represents_ofBitMap hset, ?_⟩
  rw [find_ofBitMap, ← BitMap.find_eq_neg_one_iff hset, Except.ok.injEq, Prod.ext_iff,
    Prod.ext_iff, ofBitMap_injective.eq_iff]

end BitMapObject

end Nachos
