import Nachos.Verification.Interpreter.Decode
import Nachos.Verification.Machine.Bytes
import Nachos.Verification.Machine.Endian
import Nachos.Verification.Machine.Exactness
import Nachos.Verification.Mips.Semantics

/-! # Virtual memory as the interpreter sees it

The machine finds a byte through its page table or its TLB, the interpreter at a fixed distance
in one array. -/

namespace Nachos

namespace Machine

open ByteMemory Tracking

variable {m m' : Machine} {a : Word} {size p : ℕ} {writing : Bool}

/-! ## Where the bytes of an access are -/

/-- The bytes of an access are next to each other. -/
theorem address_add (hsize : LegalSize size) (h : m.translate a size writing = .ok (p, m'))
    {k : ℕ} (hk : k < size) :
    m.address false (a + BitVec.ofNat 32 k) = some (p + k) ∧
      (a + BitVec.ofNat 32 k).toNat = a.toNat + k := by
  rw [translate_eq_findEntry] at h
  split_ifs at h with haligned
  have hpage := offset_add_size_le hsize (by simpa using haligned)
  have hsum : (a + BitVec.ofNat 32 k).toNat = a.toNat + k := by
    have hlt := a.isLt
    rw [BitVec.toNat_add, BitVec.toNat_ofNat]
    unfold pageSize at hpage
    omega
  have hdiv : (a.toNat + k) / pageSize = a.toNat / pageSize := by
    unfold pageSize at *
    omega
  have hmod : (a.toNat + k) % pageSize = a.toNat % pageSize + k := by
    unfold pageSize at *
    omega
  obtain ⟨⟨i, entry⟩, hfound, h⟩ := except_bind_eq_ok.mp h
  dsimp only at h
  cases htranslated : translateEntry entry (a.toNat % pageSize) size writing with
  | error trap =>
      rw [htranslated] at h
      cases h
  | ok translated =>
      rw [htranslated] at h
      cases h
      obtain ⟨hok, haddress, hinside, -⟩ := translateEntry_eq_ok_iff.mp htranslated
      refine ⟨?_, hsum⟩
      have hbyte : translateEntry entry (a.toNat % pageSize + k) 1 false =
          .ok (translated.1 + k, touch entry false) :=
        translateEntry_eq_ok_iff.mpr ⟨⟨.inr rfl, hok.frame⟩, by omega, by omega, rfl⟩
      rw [address, translate_eq_findEntry, if_neg (by simp [misaligned]), hsum, hdiv, hmod,
        hfound, ok_bind, hbyte]
      rfl

theorem entries_readMem {value : Word} (h : m.readMem a size = .ok (value, m')) :
    m'.entries = m.entries := by
  obtain ⟨⟨p, m₁⟩, htranslate, h⟩ := except_bind_eq_ok.mp h
  rw [← entries_translate htranslate]
  dsimp only at h
  split at h <;> cases h <;> rfl

theorem readMem_of_readMemOrRaise {value : Word}
    (h : m.readMemOrRaise a size = .ok (value, m')) : m.readMem a size = .ok (value, m') := by
  unfold readMemOrRaise at h
  cases hread : m.readMem a size with
  | ok result =>
      rw [hread] at h
      cases h
      rfl
  | error trap =>
      rw [hread] at h
      cases trap <;> cases h

theorem writeMem_of_writeMemOrRaise {value : Word}
    (h : m.writeMemOrRaise a size value = .ok m') : m.writeMem a size value = .ok m' := by
  unfold writeMemOrRaise at h
  cases hwrite : m.writeMem a size value with
  | ok result =>
      rw [hwrite] at h
      cases h
      rfl
  | error trap =>
      rw [hwrite] at h
      cases trap <;> cases h

/-! ## What the loads make of a number -/

theorem zeroExtendHalf_eq (x : Word) : zeroExtendHalf x = (x.setWidth 16).setWidth 32 := by
  apply BitVec.eq_of_toNat_eq
  rw [zeroExtendHalf, show (0xffff#32 : Word) = BitVec.ofNat 32 (2 ^ 16 - 1) from rfl,
    Instruction.toNat_and_mask x 16 (by decide), BitVec.toNat_setWidth, BitVec.toNat_setWidth]
  omega

theorem zeroExtendByte_eq (x : Word) : zeroExtendByte x = (x.setWidth 8).setWidth 32 := by
  apply BitVec.eq_of_toNat_eq
  rw [zeroExtendByte, show (0xff#32 : Word) = BitVec.ofNat 32 (2 ^ 8 - 1) from rfl,
    Instruction.toNat_and_mask x 8 (by decide), BitVec.toNat_setWidth, BitVec.toNat_setWidth]
  omega

theorem signExtendHalf_eq (x : Word) : signExtendHalf x = (x.setWidth 16).signExtend 32 :=
  Interpreter.extended x 15 (by decide) (by decide) (by decide)

theorem signExtendByte_eq (x : Word) : signExtendByte x = (x.setWidth 8).signExtend 32 :=
  Interpreter.extended x 7 (by decide) (by decide) (by decide)

end Machine

open ByteMemory Machine Tracking

/-- The interpreter has the bytes that the machine can reach, each address those of its own. -/
structure SameMemory (m : Machine) (s : Interpreter) : Prop where
  inside : ∀ {a p}, m.address false a = some p → (a - memoffset).toNat < memSize
  byte : ∀ {a p}, m.address false a = some p → s.mem (a - memoffset).toNat = m.mainMemory p
  injective : ∀ {a b p}, m.address false a = some p → m.address false b = some p → a = b

namespace SameMemory

variable {m m' : Machine} {s : Interpreter} {a value : Word} {size p : ℕ} {writing : Bool}

theorem congr (h : SameMemory m s) (hentries : m'.entries = m.entries)
    (hmemory : m'.mainMemory = m.mainMemory) {s' : Interpreter} (hmem : s'.mem = s.mem) :
    SameMemory m' s' where
  inside hp := h.inside (address_congr hentries ▸ hp)
  byte hp := by
    rw [hmem, hmemory]
    exact h.byte (address_congr hentries ▸ hp)
  injective hp hq := h.injective (address_congr hentries ▸ hp) (address_congr hentries ▸ hq)

/-- The bytes of an access in the array of the interpreter. -/
theorem offset_add (h : SameMemory m s) (hsize : LegalSize size)
    (htranslate : m.translate a size writing = .ok (p, m')) {k : ℕ} (hk : k < size) :
    (a + BitVec.ofNat 32 k - memoffset).toNat = (a - memoffset).toNat + k ∧
      (a - memoffset).toNat + k < memSize := by
  have hfirst := h.inside (address_add hsize htranslate (k := 0) (by omega)).1
  have hinside := h.inside (address_add hsize htranslate hk).1
  rw [show BitVec.ofNat 32 0 = 0#32 from rfl, BitVec.add_zero] at hfirst
  have hk4 : k < 4 := by
    rcases hsize with rfl | rfl | rfl <;> omega
  have hsum : (a + BitVec.ofNat 32 k - memoffset).toNat = (a - memoffset).toNat + k := by
    rw [show a + BitVec.ofNat 32 k - memoffset = a - memoffset + BitVec.ofNat 32 k by
      rw [BitVec.sub_eq_add_neg, BitVec.sub_eq_add_neg, BitVec.add_assoc, BitVec.add_assoc,
        BitVec.add_comm (BitVec.ofNat 32 k)]]
    rw [BitVec.toNat_add, BitVec.toNat_ofNat]
    unfold memSize at hfirst
    omega
  exact ⟨hsum, hsum ▸ hinside⟩

theorem index_eq (h : SameMemory m s) (hsize : LegalSize size)
    (htranslate : m.translate a size writing = .ok (p, m')) :
    Interpreter.index a size = .ok (a - memoffset).toNat := by
  have hlast := h.offset_add hsize htranslate (k := size - 1)
    (by rcases hsize with rfl | rfl | rfl <;> decide)
  have haligned : misaligned a size = false := by
    rw [translate_eq_findEntry] at htranslate
    split_ifs at htranslate with haligned
    simpa using haligned
  have hmod : (a - memoffset).toNat % size = 0 := by
    have hoffset : (a - memoffset).toNat % size = a.toNat % size := by
      rw [BitVec.toNat_sub, memoffset]
      rcases hsize with rfl | rfl | rfl <;>
        (simp only [BitVec.toNat_ofNat]; omega)
    rw [hoffset]
    exact Nat.mod_eq_zero_of_dvd ((misaligned_eq_false_iff hsize).mp haligned)
  unfold Interpreter.index
  dsimp only
  rw [if_pos]
  exact ⟨by rcases hsize with rfl | rfl | rfl <;> omega, hmod⟩

/-- The number in the bytes of an access. -/
theorem load_eq (h : SameMemory m s) (hsize : LegalSize size)
    (htranslate : m.translate a size writing = .ok (p, m')) :
    Machine.load s.mem (a - memoffset).toNat size = Machine.load m.mainMemory p size := by
  rw [Host.load_eq_value, Host.load_eq_value, ByteMemory.value, ByteMemory.value]
  refine Finset.sum_congr rfl fun k hk => ?_
  have hk := Finset.mem_range.mp hk
  rw [← (h.offset_add hsize htranslate hk).1, h.byte (address_add hsize htranslate hk).1]

theorem store (h : SameMemory m s) (hsize : LegalSize size)
    (htranslate : m.translate a size writing = .ok (p, m')) (value : Word) :
    SameMemory { m' with mainMemory := Machine.store m'.mainMemory p value size }
      { s with mem := Machine.store s.mem (a - memoffset).toNat value size } := by
  have hentries : m'.entries = m.entries := entries_translate htranslate
  have haddress :
      Machine.address { m' with mainMemory := Machine.store m'.mainMemory p value size } =
        m.address := address_congr hentries
  refine ⟨fun hq => h.inside (haddress ▸ hq), ?_,
    fun hq hq' => h.injective (haddress ▸ hq) (haddress ▸ hq')⟩
  intro b q hq
  rw [haddress] at hq
  dsimp only
  rw [(sameState_translate htranslate).mainMemory, Host.store_eq_put, Host.store_eq_put]
  by_cases hin : p ≤ q ∧ q < p + size
  · obtain ⟨k, rfl⟩ := Nat.exists_eq_add_of_le hin.1
    have hk : k < size := by omega
    rw [h.injective hq (address_add hsize htranslate hk).1,
      (h.offset_add hsize htranslate hk).1, put_add hk, put_add hk]
  · rw [put_of_outside (show q < p ∨ p + size ≤ q by omega), put_of_outside]
    · exact h.byte hq
    · by_contra hinside
      have hb := h.inside hq
      obtain ⟨k, hk⟩ := Nat.exists_eq_add_of_le
        (show (a - memoffset).toNat ≤ (b - memoffset).toNat by omega)
      have hlt : k < size := by omega
      have hsame : b = a + BitVec.ofNat 32 k := by
        rw [← (h.offset_add hsize htranslate hlt).1] at hk
        have hdiff := BitVec.eq_of_toNat_eq hk
        have hcancel := congrArg (· + memoffset) hdiff
        simpa using hcancel
      subst hsame
      rw [(address_add hsize htranslate hlt).1] at hq
      cases hq
      omega

/-! ## Reads and writes -/

theorem number_eq (h : SameMemory m s) (hsize : LegalSize size)
    (hread : m.readMemOrRaise a size = .ok (value, m')) :
    Interpreter.index a size = .ok (a - memoffset).toNat ∧
      value = extend size (Machine.load s.mem (a - memoffset).toNat size) ∧
      SameMemory m' s := by
  have hread := readMem_of_readMemOrRaise hread
  obtain ⟨⟨p, m₁⟩, htranslate, -⟩ := except_bind_eq_ok.mp hread
  obtain ⟨hvalue, hmemory⟩ := Host.readMem_spec htranslate hread
  refine ⟨h.index_eq hsize htranslate, ?_, h.congr (entries_readMem hread) hmemory rfl⟩
  rw [hvalue, h.load_eq hsize htranslate, Host.load_eq_value]

theorem fetch_eq (h : SameMemory m s) (hread : m.readMemOrRaise a 4 = .ok (value, m')) :
    s.fetch a = .ok value ∧ SameMemory m' s := by
  obtain ⟨hindex, hvalue, hsame⟩ := h.number_eq (.inr (.inr rfl)) hread
  refine ⟨?_, hsame⟩
  rw [Interpreter.fetch, hindex, ok_bind, hvalue]
  rfl

theorem usfetch_eq (h : SameMemory m s) (hread : m.readMemOrRaise a 2 = .ok (value, m')) :
    s.usfetch a = .ok (zeroExtendHalf value) ∧ s.sfetch a = .ok (signExtendHalf value) ∧
      SameMemory m' s := by
  obtain ⟨hindex, hvalue, hsame⟩ := h.number_eq (.inr (.inl rfl)) hread
  have hlow : value.setWidth 16 =
      BitVec.ofNat 16 (Machine.load s.mem (a - memoffset).toNat 2) := by
    rw [hvalue]
    simp [extend]
  refine ⟨?_, ?_, hsame⟩
  · rw [Interpreter.usfetch, hindex, ok_bind, zeroExtendHalf_eq, hlow]
    rfl
  · rw [Interpreter.sfetch, hindex, ok_bind, signExtendHalf_eq, hlow]
    rfl

theorem ucfetch_eq (h : SameMemory m s) (hread : m.readMemOrRaise a 1 = .ok (value, m')) :
    s.ucfetch a = .ok (zeroExtendByte value) ∧ s.cfetch a = .ok (signExtendByte value) ∧
      SameMemory m' s := by
  obtain ⟨hindex, hvalue, hsame⟩ := h.number_eq (.inl rfl) hread
  have hlow : value.setWidth 8 = s.mem (a - memoffset).toNat := by
    generalize (a - memoffset).toNat = n at hvalue ⊢
    rw [hvalue]
    ext i hi
    simp [extend, Machine.load, BitVec.getElem_signExtend, hi, show i < 32 by omega]
  refine ⟨?_, ?_, hsame⟩
  · rw [Interpreter.ucfetch, hindex, ok_bind, zeroExtendByte_eq, hlow]
    rfl
  · rw [Interpreter.cfetch, hindex, ok_bind, signExtendByte_eq, hlow]
    rfl

theorem storeBytes_eq (h : SameMemory m s) (hsize : LegalSize size)
    (hwrite : m.writeMemOrRaise a size value = .ok m') :
    ∃ s', s.storeBytes size a value = .ok s' ∧ SameMemory m' s' ∧
      s' = { s with mem := s'.mem } ∧ m'.registers = m.registers := by
  have hwrite := writeMem_of_writeMemOrRaise hwrite
  have hregisters := registers_writeMem hwrite
  obtain ⟨⟨p, m₁⟩, htranslate, hwrite⟩ := except_bind_eq_ok.mp hwrite
  dsimp only at hwrite
  have hlegal : size = 1 ∨ size = 2 ∨ size = 4 := hsize
  rw [if_pos hlegal] at hwrite
  cases hwrite
  refine ⟨_, ?_, h.store hsize htranslate value, rfl, hregisters⟩
  rw [Interpreter.storeBytes, h.index_eq hsize htranslate, ok_bind]
  rfl

end SameMemory

end Nachos
