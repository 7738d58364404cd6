import Nachos.Verification.Machine.Exactness

/-! # Hits in the TLB

When a page is in a TLB whose entries were copied from a page table, `Translate` returns the
same through either. -/

namespace Nachos

/-- A copy of an entry; the use and dirty bits of the two may have parted since. -/
structure TranslationEntry.IsCopy (copy entry : TranslationEntry) : Prop where
  virtualPage : copy.virtualPage = entry.virtualPage
  physicalPage : copy.physicalPage = entry.physicalPage
  valid : copy.valid = entry.valid
  readOnly : copy.readOnly = entry.readOnly

/-- Entry `i` is the one of page `i`, and `pageTableSize` is an `unsigned int`. -/
structure Indexed (table : List TranslationEntry) : Prop where
  virtualPage : ∀ (i : ℕ) entry, table[i]? = some entry → entry.virtualPage = i
  length_lt : table.length < 2 ^ 32

/-- The valid entries of the TLB are copies of valid entries of the table. -/
def Caches (tlb table : List TranslationEntry) : Prop :=
  ∀ copy ∈ tlb, copy.valid = true → ∃ entry ∈ table, entry.valid = true ∧ copy.IsCopy entry

namespace Machine

open Tracking

variable {m m₁ m₂ : Machine} {tlb table : List TranslationEntry} {virtAddr : Word}
  {vpn size i j : ℕ} {writing : Bool} {entry copy : TranslationEntry}

/-- The machine with the TLB, or with the page table. -/
def withTlb (m : Machine) (tlb : List TranslationEntry) : Machine :=
  { m with tlb := some tlb, pageTable := none }

def withPageTable (m : Machine) (table : List TranslationEntry) : Machine :=
  { m with tlb := none, pageTable := some table }

/-- The exception and the address that are returned. -/
def returned (m : Machine) (virtAddr : Word) (size : ℕ) (writing : Bool) :
    Option (ExceptionType × Option ℕ) :=
  (m.runTranslate virtAddr size writing).map fun result => (result.1, result.2.1)

/-! ### The lookups -/

/-- A page in the TLB is found, at some entry that holds it. -/
theorem findEntry_withTlb (m : Machine) (hpresent : ∃ copy ∈ tlb, copy.Holds vpn) :
    ∃ i copy, (m.withTlb tlb).findEntry vpn = .ok (i, copy) ∧ copy ∈ tlb ∧ copy.Holds vpn := by
  obtain ⟨copy, hmem, hvalid, hpage⟩ := hpresent
  rw [findEntry, withTlb]
  dsimp only
  cases hfind : tlb.findIdx? (fun e => e.valid && toUnsigned e.virtualPage = vpn) with
  | none =>
      have hnot := List.findIdx?_eq_none_iff.mp hfind copy hmem
      simp [hvalid, hpage] at hnot
  | some i =>
      obtain ⟨hlt, hhere, -⟩ := List.findIdx?_eq_some_iff_getElem.mp hfind
      rw [Bool.and_eq_true, decide_eq_true_iff] at hhere
      exact ⟨i, tlb[i], by simp [List.getElem?_eq_getElem hlt], List.getElem_mem hlt, hhere⟩

theorem findEntry_withPageTable (m : Machine) (hentry : table[vpn]? = some entry)
    (hvalid : entry.valid = true) :
    (m.withPageTable table).findEntry vpn = .ok (vpn, entry) := by
  rw [findEntry]
  simp only [withPageTable, hentry, hvalid]
  rfl

/-- What is returned depends on the frame and the read-only bit of the entry alone. -/
theorem returned_congr (h₁ : m₁.findEntry (virtAddr.toNat / pageSize) = .ok (i, copy))
    (h₂ : m₂.findEntry (virtAddr.toNat / pageSize) = .ok (j, entry))
    (hcopy : copy.IsCopy entry) (size : ℕ) (writing : Bool) :
    m₁.returned virtAddr size writing = m₂.returned virtAddr size writing := by
  rw [returned, returned, runTranslate, runTranslate]
  dsimp only
  rw [h₁, h₂]
  dsimp only
  rw [hcopy.readOnly, hcopy.physicalPage]
  split_ifs <;> rfl

/-! ### Agreement -/

/-- A page that is in the TLB is translated as by the page table. -/
theorem returned_withTlb (m : Machine) (hindexed : Indexed table) (hcaches : Caches tlb table)
    (hpresent : ∃ copy ∈ tlb, copy.valid = true ∧
      copy.virtualPage = (virtAddr.toNat / pageSize : ℕ)) (size : ℕ) (writing : Bool) :
    (m.withTlb tlb).returned virtAddr size writing =
      (m.withPageTable table).returned virtAddr size writing := by
  have hpage : ∃ copy ∈ tlb, copy.Holds (virtAddr.toNat / pageSize) := by
    obtain ⟨copy, hmem, hvalid, hpage⟩ := hpresent
    refine ⟨copy, hmem, hvalid, ?_⟩
    rw [hpage, toUnsigned]
    have hlt := virtAddr.isLt
    unfold pageSize
    omega
  obtain ⟨i, copy, hfound, hmem, hvalid, hunsigned⟩ := findEntry_withTlb m hpage
  obtain ⟨entry, hentry, hentryValid, hcopy⟩ := hcaches copy hmem hvalid
  obtain ⟨k, hk⟩ := List.getElem?_of_mem hentry
  -- the page of the copy is the index of the entry
  have hindex : k = virtAddr.toNat / pageSize := by
    have hlt := (List.getElem?_eq_some_iff.mp hk).1.trans hindexed.length_lt
    rw [hcopy.virtualPage, hindexed.virtualPage k entry hk, toUnsigned] at hunsigned
    omega
  subst hindex
  exact returned_congr hfound (findEntry_withPageTable m hk hentryValid) hcopy size writing

def twoPages : List TranslationEntry :=
  [⟨0, 7, true, true, false, false⟩, ⟨1, 9, true, false, false, false⟩]

theorem returned_withTlb_twoPages :
    Indexed twoPages ∧ Caches [⟨1, 9, true, false, true, true⟩] twoPages ∧
      (frameFive.withTlb [⟨1, 9, true, false, true, true⟩]).returned 516#32 4 true =
        (frameFive.withPageTable twoPages).returned 516#32 4 true := by
  have hindexed : Indexed twoPages := by
    refine ⟨fun i entry hentry => ?_, by decide⟩
    match i with
    | 0 => cases hentry; rfl
    | 1 => cases hentry; rfl
    | i + 2 => cases hentry
  have hcaches : Caches [⟨1, 9, true, false, true, true⟩] twoPages := by
    intro copy hmem _
    obtain rfl := List.mem_singleton.mp hmem
    exact ⟨⟨1, 9, true, false, false, false⟩, by decide, rfl, ⟨rfl, rfl, rfl, rfl⟩⟩
  exact ⟨hindexed, hcaches, returned_withTlb frameFive hindexed hcaches
    ⟨_, List.mem_singleton_self _, rfl, by decide⟩ 4 true⟩

end Machine
end Nachos
