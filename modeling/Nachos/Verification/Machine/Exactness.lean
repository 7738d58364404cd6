import Nachos.Model.Translate
import Nachos.Verification.Machine.Translation

/-! # What `Translate` returns

One of five exceptions, the first that applies, with the machine as it was; or the address in
the frame of the matching entry, whose bits are set. -/

namespace Nachos

/-- A valid entry of a TLB for the page. -/
def TranslationEntry.Holds (entry : TranslationEntry) (vpn : ℕ) : Prop :=
  entry.valid = true ∧ Machine.toUnsigned entry.virtualPage = vpn

namespace Machine

open Tracking

variable {m m' : Machine} {virtAddr : Word} {vpn size i : ℕ} {writing : Bool}
  {entry : TranslationEntry} {which : ExceptionType}

/-- A TLB or a page table, and not both. -/
def OneTable (m : Machine) : Prop :=
  m.tlb.isSome ≠ m.pageTable.isSome

instance (m : Machine) : Decidable m.OneTable :=
  inferInstanceAs (Decidable (_ ≠ _))

/-- The entry at `i` translates the page: the valid one with this index in the page table, or
the first in the TLB that holds the page. -/
def Matches (m : Machine) (vpn i : ℕ) (entry : TranslationEntry) : Prop :=
  match m.tlb, m.pageTable with
  | none, some table => i = vpn ∧ table[i]? = some entry ∧ entry.valid = true
  | some tlb, none => tlb[i]? = some entry ∧ entry.Holds vpn ∧
      ∀ j < i, ∀ earlier, tlb[j]? = some earlier → ¬ earlier.Holds vpn
  | _, _ => False

/-- The first exception that applies to an access. -/
inductive Raises (m : Machine) (virtAddr : Word) (size : ℕ) (writing : Bool) :
    ExceptionType → Prop
  | misaligned (halign : ¬ size ∣ virtAddr.toNat) :
      Raises m virtAddr size writing .addressErrorException
  | outOfRange (halign : size ∣ virtAddr.toNat) (table : List TranslationEntry)
      (htable : m.pageTable = some table) (hrange : table.length ≤ virtAddr.toNat / pageSize) :
      Raises m virtAddr size writing .addressErrorException
  | noEntry (halign : size ∣ virtAddr.toNat)
      (hrange : ∀ table, m.pageTable = some table → virtAddr.toNat / pageSize < table.length)
      (hmissing : ∀ i entry, ¬ m.Matches (virtAddr.toNat / pageSize) i entry) :
      Raises m virtAddr size writing .pageFaultException
  | readOnly (halign : size ∣ virtAddr.toNat) (i : ℕ) (entry : TranslationEntry)
      (hmatches : m.Matches (virtAddr.toNat / pageSize) i entry)
      (hreadOnly : entry.readOnly = true) (hwriting : writing = true) :
      Raises m virtAddr size writing .readOnlyException
  | badFrame (halign : size ∣ virtAddr.toNat) (i : ℕ) (entry : TranslationEntry)
      (hmatches : m.Matches (virtAddr.toNat / pageSize) i entry)
      (hwritable : ¬ (entry.readOnly = true ∧ writing = true))
      (hframe : numPhysPages ≤ toUnsigned entry.physicalPage) :
      Raises m virtAddr size writing .busErrorException

/-- A translation through the entry at `i`. -/
structure Translates (m : Machine) (virtAddr : Word) (size : ℕ) (writing : Bool) (physAddr : ℕ)
    (m' : Machine) (i : ℕ) (entry : TranslationEntry) : Prop where
  aligned : size ∣ virtAddr.toNat
  hit : m.Matches (virtAddr.toNat / pageSize) i entry
  address : physAddr = toUnsigned entry.physicalPage * pageSize + virtAddr.toNat % pageSize
  frame : ∀ p, physAddr ≤ p → p < physAddr + size → p / pageSize = toUnsigned entry.physicalPage
  inside : physAddr + size ≤ memorySize
  machine : m' = m.setEntry i (touch entry writing)

/-! ### Alignment and lookup -/

theorem misaligned_eq_false_iff (hsize : LegalSize size) :
    misaligned virtAddr size = false ↔ size ∣ virtAddr.toNat := by
  have hword := and_mask_eq_zero virtAddr 2 (by decide)
  have hhalf := and_mask_eq_zero virtAddr 1 (by decide)
  rw [Nat.dvd_iff_mod_eq_zero]
  rcases hsize with rfl | rfl | rfl
  · simp [misaligned, Nat.mod_one]
  · simpa [misaligned] using hhalf
  · simpa [misaligned] using hword

/-- What the search for an entry finds. -/
inductive FindSpec (m : Machine) (vpn : ℕ) : Except Trap (ℕ × TranslationEntry) → Prop
  | found (i : ℕ) (entry : TranslationEntry) (hmatches : m.Matches vpn i entry) :
      FindSpec m vpn (.ok (i, entry))
  | outOfRange (table : List TranslationEntry) (htable : m.pageTable = some table)
      (hrange : table.length ≤ vpn) : FindSpec m vpn (.error (.exception .addressErrorException))
  | missing (hrange : ∀ table, m.pageTable = some table → vpn < table.length)
      (hmissing : ∀ i entry, ¬ m.Matches vpn i entry) :
      FindSpec m vpn (.error (.exception .pageFaultException))

theorem findEntry_table {table : List TranslationEntry} (htlb : m.tlb = none)
    (htable : m.pageTable = some table) (vpn : ℕ) : FindSpec m vpn (m.findEntry vpn) := by
  have hmatches : ∀ i entry, m.Matches vpn i entry ↔
      i = vpn ∧ table[i]? = some entry ∧ entry.valid = true := by
    intro i entry
    rw [Matches, htlb, htable]
  rw [findEntry, htlb, htable]
  dsimp only
  cases hentry : table[vpn]? with
  | none => exact .outOfRange table htable (List.getElem?_eq_none_iff.mp hentry)
  | some entry =>
      dsimp only
      by_cases hvalid : entry.valid = false
      · rw [if_pos hvalid]
        refine .missing (fun table' htable' => ?_) fun i entry' hmatch => ?_
        · rw [htable] at htable'
          obtain rfl := Option.some.inj htable'
          exact (List.getElem?_eq_some_iff.mp hentry).1
        · obtain ⟨rfl, hentry', hvalid'⟩ := (hmatches i entry').mp hmatch
          rw [hentry] at hentry'
          obtain rfl := Option.some.inj hentry'
          rw [hvalid] at hvalid'
          cases hvalid'
      · rw [if_neg hvalid]
        exact .found vpn entry ((hmatches _ _).mpr ⟨rfl, hentry, by simpa using hvalid⟩)

theorem findEntry_tlb {tlb : List TranslationEntry} (htlb : m.tlb = some tlb)
    (htable : m.pageTable = none) (vpn : ℕ) : FindSpec m vpn (m.findEntry vpn) := by
  have hmatches : ∀ i entry, m.Matches vpn i entry ↔
      tlb[i]? = some entry ∧ entry.Holds vpn ∧
        ∀ j < i, ∀ earlier, tlb[j]? = some earlier → ¬ earlier.Holds vpn := by
    intro i entry
    rw [Matches, htlb, htable]
  have hholds : ∀ e : TranslationEntry,
      (e.valid && toUnsigned e.virtualPage = vpn) = true ↔ e.Holds vpn := by
    intro e
    rw [Bool.and_eq_true, decide_eq_true_iff, TranslationEntry.Holds]
  rw [findEntry, htlb, htable]
  dsimp only
  cases hfind : tlb.findIdx? (fun e => e.valid && toUnsigned e.virtualPage = vpn) with
  | none =>
      refine .missing (by simp [htable]) fun i entry hmatch => ?_
      obtain ⟨hentry, hentryHolds, -⟩ := (hmatches i entry).mp hmatch
      have hnot := List.findIdx?_eq_none_iff.mp hfind entry (List.mem_of_getElem? hentry)
      rw [(hholds entry).mpr hentryHolds] at hnot
      cases hnot
  | some i =>
      obtain ⟨hlt, hhere, hbefore⟩ := List.findIdx?_eq_some_iff_getElem.mp hfind
      dsimp only
      rw [List.getElem?_eq_getElem hlt]
      refine .found i tlb[i] ((hmatches _ _).mpr
        ⟨List.getElem?_eq_getElem hlt, (hholds _).mp hhere, fun j hj earlier hearlier => ?_⟩)
      obtain ⟨hj', rfl⟩ := List.getElem?_eq_some_iff.mp hearlier
      exact mt (hholds _).mpr (hbefore j hj)

theorem findEntry_spec (hone : m.OneTable) (vpn : ℕ) : FindSpec m vpn (m.findEntry vpn) := by
  rw [OneTable] at hone
  cases htlb : m.tlb with
  | none =>
      cases htable : m.pageTable with
      | none => simp [htlb, htable] at hone
      | some table => exact findEntry_table htlb htable vpn
  | some tlb =>
      cases htable : m.pageTable with
      | none => exact findEntry_tlb htlb htable vpn
      | some table => simp [htlb, htable] at hone

/-! ### The translation -/

/-- What is returned is exact: a translation, or the first exception that applies and the
machine as it was. -/
def Exact (m : Machine) (virtAddr : Word) (size : ℕ) (writing : Bool)
    (returned : Option (ExceptionType × Option ℕ × Machine)) : Prop :=
  ∃ which physAddr m', returned = some (which, physAddr, m') ∧
    (which = .noException → ∃ i entry addr, physAddr = some addr ∧
      m.Translates virtAddr size writing addr m' i entry) ∧
    (which ≠ .noException → m' = m ∧ m.Raises virtAddr size writing which)

theorem Raises.exact (h : m.Raises virtAddr size writing which) :
    m.Exact virtAddr size writing (some (which, none, m)) := by
  refine ⟨which, none, m, rfl, fun hno => ?_, fun _ => ⟨rfl, h⟩⟩
  cases h <;> cases hno

theorem Translates.exact {physAddr : ℕ}
    (h : m.Translates virtAddr size writing physAddr m' i entry) :
    m.Exact virtAddr size writing (some (.noException, some physAddr, m')) :=
  ⟨_, _, _, rfl, fun _ => ⟨i, entry, physAddr, rfl, h⟩, fun hne => absurd rfl hne⟩

theorem touch_eq (entry : TranslationEntry) (writing : Bool) :
    (if writing then { entry with use := true, dirty := true } else { entry with use := true }) =
      touch entry writing := by
  cases writing with
  | true => simp [touch]
  | false => simp [touch]

theorem runTranslate_exact (hone : m.OneTable) (hsize : LegalSize size) (virtAddr : Word)
    (writing : Bool) :
    m.Exact virtAddr size writing (m.runTranslate virtAddr size writing) := by
  rw [runTranslate]
  dsimp only
  by_cases halign : misaligned virtAddr size = true
  · rw [if_pos halign]
    refine Raises.exact (.misaligned ?_)
    rw [← misaligned_eq_false_iff hsize, halign]
    simp
  rw [if_neg halign]
  have haligned : misaligned virtAddr size = false := by simpa using halign
  have hdvd := (misaligned_eq_false_iff hsize).mp haligned
  have hspec := findEntry_spec hone (virtAddr.toNat / pageSize)
  generalize m.findEntry (virtAddr.toNat / pageSize) = found at hspec ⊢
  cases hspec with
  | outOfRange table htable hrange => exact (Raises.outOfRange hdvd table htable hrange).exact
  | missing hrange hmissing => exact (Raises.noEntry hdvd hrange hmissing).exact
  | found i entry hmatches =>
      dsimp only
      by_cases hreadOnly : (entry.readOnly && writing) = true
      · rw [if_pos hreadOnly]
        rw [Bool.and_eq_true] at hreadOnly
        exact (Raises.readOnly hdvd i entry hmatches hreadOnly.1 hreadOnly.2).exact
      rw [if_neg hreadOnly]
      rw [Bool.and_eq_true] at hreadOnly
      by_cases hframe : numPhysPages ≤ toUnsigned entry.physicalPage
      · rw [if_pos hframe]
        exact (Raises.badFrame hdvd i entry hmatches hreadOnly hframe).exact
      rw [if_neg hframe, touch_eq]
      have hpage := offset_add_size_le hsize haligned
      have hinside : toUnsigned entry.physicalPage * pageSize + virtAddr.toNat % pageSize + size ≤
          memorySize := by
        unfold memorySize numPhysPages pageSize at *
        omega
      rw [if_pos hinside]
      refine Translates.exact ⟨hdvd, hmatches, rfl, fun p hlow hhigh => ?_, hinside, rfl⟩
      unfold pageSize at *
      omega

/-- Page 0 in frame 5. -/
def frameFive : Machine where
  registers := fun _ => 0#32
  mainMemory := fun _ => 0#8
  tlb := none
  pageTable := some [⟨0, 5, true, false, false, false⟩]

theorem runTranslate_exact_frameFive : frameFive.OneTable ∧ LegalSize 4 ∧
    frameFive.Exact 8#32 4 true (frameFive.runTranslate 8#32 4 true) :=
  ⟨by decide, by decide, runTranslate_exact (by decide) (by decide) 8#32 true⟩

/-! ### The translation of the other models -/

/-- `translate` by the entry that is found. -/
theorem translate_eq_findEntry (m : Machine) (virtAddr : Word) (size : ℕ) (writing : Bool) :
    m.translate virtAddr size writing =
      if misaligned virtAddr size then .error (.exception .addressErrorException)
      else m.findEntry (virtAddr.toNat / pageSize) >>= fun found =>
        (fun translated => (translated.1, m.setEntry found.1 translated.2)) <$>
          translateEntry found.2 (virtAddr.toNat % pageSize) size writing := by
  rw [translate, findEntry]
  dsimp only
  by_cases halign : misaligned virtAddr size = true
  · rw [if_pos halign, if_pos halign]
  rw [if_neg halign, if_neg halign]
  cases htlb : m.tlb with
  | none =>
      cases htable : m.pageTable with
      | none => rfl
      | some table =>
          dsimp only
          cases table[virtAddr.toNat / pageSize]? with
          | none => rfl
          | some entry =>
              dsimp only
              by_cases hvalid : entry.valid = false
              · rw [if_pos hvalid, if_pos hvalid]
                rfl
              · rw [if_neg hvalid, if_neg hvalid, ok_bind]
                simp only [setEntry, htlb, htable, Option.map_none, Option.map_some]
                rfl
  | some tlb =>
      cases htable : m.pageTable with
      | some table => rfl
      | none =>
          dsimp only
          cases tlb.findIdx? _ with
          | none => rfl
          | some i =>
              dsimp only
              cases tlb[i]? with
              | none => rfl
              | some entry =>
                  dsimp only
                  rw [ok_bind]
                  simp only [setEntry, htlb, htable, Option.map_none, Option.map_some]
                  rfl

/-- What the other models keep of the return. -/
def outcome : Option (ExceptionType × Option ℕ × Machine) → Except Trap (ℕ × Machine)
  | some (_, some physAddr, m) => .ok (physAddr, m)
  | some (which, none, _) => .error (.exception which)
  | none => .error .assertion

theorem translate_eq_runTranslate (m : Machine) (virtAddr : Word) (size : ℕ) (writing : Bool) :
    m.translate virtAddr size writing = outcome (m.runTranslate virtAddr size writing) := by
  rw [translate_eq_findEntry, runTranslate]
  dsimp only
  by_cases halign : misaligned virtAddr size = true
  · rw [if_pos halign, if_pos halign]
    rfl
  rw [if_neg halign, if_neg halign]
  cases m.findEntry (virtAddr.toNat / pageSize) with
  | error trap => cases trap <;> rfl
  | ok found =>
      obtain ⟨i, entry⟩ := found
      rw [ok_bind, translateEntry]
      dsimp only
      rw [touch_eq]
      split_ifs <;> rfl

end Machine
end Nachos
