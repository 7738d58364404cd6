import Nachos.Model.Machine
import Nachos.Library.Tracking

/-! # Address translation through a page table -/

namespace Nachos.Machine

open Tracking

/-- The sizes of a user program's loads and stores. -/
def LegalSize (size : ℕ) : Prop :=
  size = 1 ∨ size = 2 ∨ size = 4

instance (size : ℕ) : Decidable (LegalSize size) :=
  inferInstanceAs (Decidable (_ ∨ _))

/-! ## Alignment -/

theorem and_mask_eq_zero (x : Word) (n : ℕ) (hn : n < 32) :
    x &&& BitVec.ofNat 32 (2 ^ n - 1) = 0#32 ↔ x.toNat % 2 ^ n = 0 := by
  have hlt : 2 ^ n - 1 < 2 ^ 32 := by
    have hpow : 2 ^ n < 2 ^ 32 := Nat.pow_lt_pow_right (by decide) hn
    omega
  rw [← BitVec.toNat_inj, BitVec.toNat_and, BitVec.toNat_ofNat, Nat.mod_eq_of_lt hlt,
    Nat.and_two_pow_sub_one_eq_mod, BitVec.toNat_ofNat, Nat.zero_mod]

/-- An aligned access does not leave its page. -/
theorem offset_add_size_le {virtAddr : Word} {size : ℕ} (hsize : LegalSize size)
    (haligned : misaligned virtAddr size = false) :
    virtAddr.toNat % pageSize + size ≤ pageSize := by
  have hword := and_mask_eq_zero virtAddr 2 (by decide)
  have hhalf := and_mask_eq_zero virtAddr 1 (by decide)
  unfold pageSize
  rcases hsize with rfl | rfl | rfl
  · omega
  · have hzero : virtAddr &&& 1#32 = 0#32 := by simpa [misaligned] using haligned
    have hmod := hhalf.mp hzero
    omega
  · have hzero : virtAddr &&& 3#32 = 0#32 := by simpa [misaligned] using haligned
    have hmod := hword.mp hzero
    omega

/-! ## One entry -/

/-- A translation that succeeds: the entry admits the access and its frame exists. -/
structure EntryOK (entry : TranslationEntry) (writing : Bool) : Prop where
  writable : entry.readOnly = false ∨ writing = false
  frame : toUnsigned entry.physicalPage < numPhysPages

/-- The entry with its use bit, and when writing its dirty bit, set. -/
def touch (entry : TranslationEntry) (writing : Bool) : TranslationEntry :=
  { entry with use := true, dirty := entry.dirty || writing }

theorem translateEntry_eq_ok_iff {entry entry' : TranslationEntry} {offset size physAddr : ℕ}
    {writing : Bool} :
    translateEntry entry offset size writing = .ok (physAddr, entry') ↔
      EntryOK entry writing ∧ physAddr = toUnsigned entry.physicalPage * pageSize + offset ∧
        physAddr + size ≤ memorySize ∧ entry' = touch entry writing := by
  unfold translateEntry
  dsimp only
  constructor
  · intro h
    split at h
    · cases h
    · rename_i hwritable
      split at h
      · cases h
      · rename_i hframe
        split at h
        · rename_i hinside
          cases h
          have hbits : entry.readOnly = false ∨ writing = false := by
            cases hbit : entry.readOnly with
            | false => exact .inl rfl
            | true => simpa [hbit] using hwritable
          exact ⟨⟨hbits, not_le.mp hframe⟩, rfl, hinside, rfl⟩
        · cases h
  · rintro ⟨⟨hwritable, hframe⟩, rfl, hinside, rfl⟩
    have hbits : ¬ (entry.readOnly && writing) = true := by
      rcases hwritable with hbit | hbit
      · simp [hbit]
      · simp [hbit]
    rw [if_neg hbits, if_neg (not_le.mpr hframe), if_pos hinside]
    rfl

/-- An access that stays inside its page fails with an exception or not at all. -/
theorem translateEntry_error {entry : TranslationEntry} {offset size : ℕ} {writing : Bool}
    {trap : Trap} (hinside : offset + size ≤ pageSize)
    (h : translateEntry entry offset size writing = .error trap) :
    ∃ which, trap = .exception which := by
  unfold translateEntry at h
  dsimp only at h
  split at h
  · cases h
    exact ⟨_, rfl⟩
  · split at h
    · cases h
      exact ⟨_, rfl⟩
    · rename_i hframe
      rw [if_pos] at h
      · cases h
      · unfold memorySize
        have hpages : (toUnsigned entry.physicalPage + 1) * pageSize ≤ numPhysPages * pageSize :=
          Nat.mul_le_mul_right _ (not_le.mp hframe)
        rw [Nat.add_mul, Nat.one_mul] at hpages
        omega

/-! ## The page table -/

/-- What a successful translation has found. -/
structure Translated (m : Machine) (table : List TranslationEntry) (virtAddr : Word) (size : ℕ)
    (writing : Bool) (physAddr : ℕ) (m' : Machine) (entry : TranslationEntry) : Prop where
  aligned : misaligned virtAddr size = false
  lookup : table[virtAddr.toNat / pageSize]? = some entry
  valid : entry.valid = true
  ok : EntryOK entry writing
  address : physAddr = toUnsigned entry.physicalPage * pageSize + virtAddr.toNat % pageSize
  inside : physAddr + size ≤ memorySize
  machine : m' = { m with
    pageTable := some (table.set (virtAddr.toNat / pageSize) (touch entry writing)) }

variable {m m' : Machine} {table : List TranslationEntry} {virtAddr : Word} {size physAddr : ℕ}
  {writing : Bool}

/-- `Translate` without a TLB. -/
theorem translate_eq (htlb : m.tlb = none) (htable : m.pageTable = some table) :
    m.translate virtAddr size writing =
      if misaligned virtAddr size then .error (.exception .addressErrorException)
      else match table[virtAddr.toNat / pageSize]? with
        | none => .error (.exception .addressErrorException)
        | some entry =>
            if entry.valid = false then .error (.exception .pageFaultException)
            else (translateEntry entry (virtAddr.toNat % pageSize) size writing).map
              fun found => (found.1, { m with
                pageTable := some (table.set (virtAddr.toNat / pageSize) found.2) }) := by
  unfold translate
  rw [htlb, htable]
  dsimp only
  split
  · rfl
  · cases table[virtAddr.toNat / pageSize]? with
    | none => rfl
    | some entry =>
        dsimp only
        split
        · rfl
        · cases translateEntry entry (virtAddr.toNat % pageSize) size writing with
          | error trap => rfl
          | ok found => rfl

theorem translate_eq_ok_iff (htlb : m.tlb = none) (htable : m.pageTable = some table) :
    m.translate virtAddr size writing = .ok (physAddr, m') ↔
      ∃ entry, Translated m table virtAddr size writing physAddr m' entry := by
  rw [translate_eq htlb htable]
  constructor
  · intro h
    split at h
    · cases h
    · rename_i haligned
      split at h
      · cases h
      · rename_i entry hentry
        split at h
        · cases h
        · rename_i hvalid
          cases hfound : translateEntry entry (virtAddr.toNat % pageSize) size writing with
          | error trap =>
              rw [hfound] at h
              cases h
          | ok found =>
              obtain ⟨physAddr', entry'⟩ := found
              rw [hfound] at h
              cases h
              obtain ⟨hok, hphys, hinside, rfl⟩ := translateEntry_eq_ok_iff.mp hfound
              exact ⟨entry, by simpa using haligned, hentry, by simpa using hvalid, hok, hphys,
                hinside, rfl⟩
  · rintro ⟨entry, haligned, hentry, hvalid, hok, hphys, hinside, rfl⟩
    rw [if_neg (by simp [haligned]), hentry]
    dsimp only
    rw [if_neg (by simp [hvalid]), translateEntry_eq_ok_iff.mpr ⟨hok, hphys, hinside, rfl⟩]
    rfl

/-- A failed translation has raised an exception: no ASSERT of `Translate` fails. -/
theorem translate_error (htlb : m.tlb = none) (htable : m.pageTable = some table)
    (hsize : LegalSize size) {trap : Trap}
    (h : m.translate virtAddr size writing = .error trap) : ∃ which, trap = .exception which := by
  rw [translate_eq htlb htable] at h
  split at h
  · cases h
    exact ⟨_, rfl⟩
  · rename_i haligned
    split at h
    · cases h
      exact ⟨_, rfl⟩
    · split at h
      · cases h
        exact ⟨_, rfl⟩
      · rename_i entry _ _
        cases hfound : translateEntry entry (virtAddr.toNat % pageSize) size writing with
        | error trap' =>
            rw [hfound] at h
            cases h
            exact translateEntry_error (offset_add_size_le hsize (by simpa using haligned)) hfound
        | ok found =>
            rw [hfound] at h
            cases h

/-- The physical address, or the exception, is a matter of the table alone. -/
theorem translate_fst_eq (htlb : m.tlb = none) (htlb' : m'.tlb = none)
    (htable : m.pageTable = some table) (htable' : m'.pageTable = some table) :
    (m'.translate virtAddr size writing).map Prod.fst =
      (m.translate virtAddr size writing).map Prod.fst := by
  rw [translate_eq htlb htable, translate_eq htlb' htable']
  split
  · rfl
  · cases table[virtAddr.toNat / pageSize]? with
    | none => rfl
    | some entry =>
        dsimp only
        split
        · rfl
        · cases translateEntry entry (virtAddr.toNat % pageSize) size writing with
          | error trap => rfl
          | ok found => rfl

/-- The bytes of an access lie in the frame of its page. -/
theorem Translated.frame {entry : TranslationEntry}
    (h : Translated m table virtAddr size writing physAddr m' entry) (hsize : LegalSize size)
    {p : ℕ} (hlow : physAddr ≤ p) (hhigh : p < physAddr + size) :
    p / pageSize = toUnsigned entry.physicalPage := by
  have hpage := offset_add_size_le hsize h.aligned
  have hphys := h.address
  unfold pageSize at *
  omega

/-! ## What an access leaves alone -/

/-- The machine up to its translations. -/
structure SameState (m m' : Machine) : Prop where
  registers : m'.registers = m.registers
  mainMemory : m'.mainMemory = m.mainMemory

theorem SameState.refl (m : Machine) : SameState m m :=
  ⟨rfl, rfl⟩

theorem SameState.trans {m₁ m₂ m₃ : Machine} (h : SameState m₁ m₂) (h' : SameState m₂ m₃) :
    SameState m₁ m₃ :=
  ⟨h'.registers.trans h.registers, h'.mainMemory.trans h.mainMemory⟩

/-- `Translate` sets the use and dirty bits of an entry and nothing else. -/
theorem sameState_translate (h : m.translate virtAddr size writing = .ok (physAddr, m')) :
    SameState m m' := by
  unfold translate at h
  split at h
  · cases h
  · dsimp only at h
    split at h
    · split at h
      · cases h
      · split at h
        · cases h
        · simp only [bind, Except.bind] at h
          split at h
          · cases h
          · cases h
            exact ⟨rfl, rfl⟩
    · split at h
      · cases h
      · split at h
        · cases h
        · simp only [bind, Except.bind] at h
          split at h
          · cases h
          · cases h
            exact ⟨rfl, rfl⟩
    · cases h

theorem sameState_readMem {addr value : Word} (h : m.readMem addr size = .ok (value, m')) :
    SameState m m' := by
  simp only [readMem, bind, Except.bind] at h
  split at h
  · cases h
  · rename_i p hp
    have hsame := sameState_translate hp
    split at h <;> cases h <;> exact hsame

theorem registers_writeMem {addr value : Word} (h : m.writeMem addr size value = .ok m') :
    m'.registers = m.registers := by
  simp only [writeMem, bind, Except.bind] at h
  split at h
  · cases h
  · rename_i p hp
    have hsame := sameState_translate hp
    split at h <;> cases h
    exact hsame.registers

/-! ## Memory -/

theorem store_of_outside {memory : ℕ → Byte} {addr size p : ℕ} {value : Word}
    (h : p < addr ∨ addr + size ≤ p) : store memory addr value size p = memory p := by
  induction size generalizing memory addr value with
  | zero => rfl
  | succ size ih =>
      rw [store, ih (by omega), Function.update_of_ne (by omega)]

theorem load_congr {memory memory' : ℕ → Byte} {addr size : ℕ}
    (h : ∀ p, addr ≤ p → p < addr + size → memory' p = memory p) :
    load memory' addr size = load memory addr size := by
  induction size generalizing addr with
  | zero => rfl
  | succ size ih =>
      rw [load, load, h addr (by omega) (by omega), ih]
      intro p hlow hhigh
      exact h p (by omega) (by omega)

end Nachos.Machine
