import Nachos.Library.CStrings
import Nachos.Library.Tracking
import Nachos.Verification.Machine.Translation

/-! # The memory of a user program, byte by byte

An access sets use and dirty bits only, so where an address leads does not change while a
program runs. -/

namespace Nachos.Machine

open CStrings

/-- The entry without its use and dirty bits. -/
def bare (entry : TranslationEntry) : TranslationEntry :=
  { entry with use := false, dirty := false }

/-- The translations without the bits that an access sets. -/
def entries (m : Machine) : Option (List TranslationEntry) × Option (List TranslationEntry) :=
  (m.tlb.map (List.map bare), m.pageTable.map (List.map bare))

/-- The physical address of a byte that can be read, or written. -/
def address (m : Machine) (writing : Bool) (virtAddr : Word) : Option ℕ :=
  match m.translate virtAddr 1 writing with
  | .ok (physAddr, _) => some physAddr
  | .error _ => none

/-- The byte that a user program reads. -/
def byte (m : Machine) (virtAddr : Word) : Option Byte :=
  (m.address false virtAddr).map m.mainMemory

variable {m m' : Machine} {virtAddr : Word} {size physAddr : ℕ} {writing : Bool}

/-! ## Translations -/

theorem translateEntry_bare (entry : TranslationEntry) (offset : ℕ) :
    (translateEntry (bare entry) offset size writing).map Prod.fst =
      (translateEntry entry offset size writing).map Prod.fst := by
  have hreadOnly : (bare entry).readOnly = entry.readOnly := rfl
  have hframe : (bare entry).physicalPage = entry.physicalPage := rfl
  unfold translateEntry
  rw [hreadOnly, hframe]
  by_cases hwrite : entry.readOnly && writing
  · rw [if_pos hwrite, if_pos hwrite]
  · rw [if_neg hwrite, if_neg hwrite]
    dsimp only
    split
    · rfl
    · split <;> rfl

theorem bare_of_translateEntry {entry entry' : TranslationEntry} {offset : ℕ}
    (h : translateEntry entry offset size writing = .ok (physAddr, entry')) :
    bare entry' = bare entry := by
  obtain ⟨-, -, -, rfl⟩ := translateEntry_eq_ok_iff.mp h
  rfl

theorem map_set_bare {table : List TranslationEntry} {i : ℕ} {entry entry' : TranslationEntry}
    (hentry : table[i]? = some entry) (hbare : bare entry' = bare entry) :
    (table.set i entry').map bare = table.map bare := by
  obtain ⟨hi, rfl⟩ := List.getElem?_eq_some_iff.mp hentry
  have hlt : i < (table.map bare).length := by simpa using hi
  have hsame : (table.map bare).set i (table.map bare)[i] = table.map bare :=
    List.set_getElem_self hlt
  rwa [List.getElem_map, ← hbare, ← List.map_set] at hsame

/-- A translation leaves registers, memory and the entries alone. -/
theorem entries_translate (h : m.translate virtAddr size writing = .ok (physAddr, m')) :
    m'.entries = m.entries := by
  unfold translate at h
  split at h
  · cases h
  · dsimp only at h
    split at h
    · rename_i table htlb htable
      split at h
      · cases h
      · rename_i entry hentry
        split at h
        · cases h
        · obtain ⟨⟨p, entry'⟩, hfound, hm'⟩ := Tracking.except_bind_eq_ok.mp h
          cases hm'
          unfold entries
          rw [htable]
          dsimp only [Option.map_some]
          rw [map_set_bare hentry (bare_of_translateEntry hfound)]
    · rename_i tlb htlb htable
      split at h
      · cases h
      · split at h
        · cases h
        · rename_i entry hentry
          obtain ⟨⟨p, entry'⟩, hfound, hm'⟩ := Tracking.except_bind_eq_ok.mp h
          cases hm'
          unfold entries
          rw [htlb]
          dsimp only [Option.map_some]
          rw [map_set_bare hentry (bare_of_translateEntry hfound)]
    · cases h

/-- A machine with nothing but translations. -/
def translating (tables : Option (List TranslationEntry) × Option (List TranslationEntry)) :
    Machine where
  registers := fun _ => 0#32
  mainMemory := fun _ => 0#8
  tlb := tables.1
  pageTable := tables.2

theorem map_fst_bind (x : Except Trap (ℕ × TranslationEntry))
    (f : ℕ × TranslationEntry → Machine) :
    (x >>= fun found => .ok (found.1, f found)).map Prod.fst = x.map Prod.fst := by
  cases x with
  | error trap => rfl
  | ok found => rfl

/-- Where an access leads is a matter of the entries. -/
theorem fst_translate_entries (m : Machine) :
    (m.translate virtAddr size writing).map Prod.fst =
      ((translating m.entries).translate virtAddr size writing).map Prod.fst := by
  obtain ⟨registers, mainMemory, tlb, pageTable⟩ := m
  unfold translate
  split
  · rfl
  · cases tlb with
    | none =>
        cases pageTable with
        | none => rfl
        | some table =>
            dsimp only [translating, entries, Option.map_some, Option.map_none]
            rw [List.getElem?_map]
            cases table[virtAddr.toNat / pageSize]? with
            | none => rfl
            | some entry =>
                dsimp only [Option.map_some]
                have hvalid : (bare entry).valid = entry.valid := rfl
                rw [hvalid]
                split
                · rfl
                · rw [map_fst_bind, map_fst_bind, translateEntry_bare]
    | some tlb =>
        cases pageTable with
        | none =>
            dsimp only [translating, entries, Option.map_some, Option.map_none]
            rw [List.findIdx?_map]
            have hfind : ((fun e => e.valid &&
                decide (toUnsigned e.virtualPage = virtAddr.toNat / pageSize)) ∘ bare) =
              fun e => e.valid &&
                decide (toUnsigned e.virtualPage = virtAddr.toNat / pageSize) := rfl
            rw [hfind]
            split
            · rfl
            · rename_i i hi
              rw [List.getElem?_map]
              cases tlb[i]? with
              | none => rfl
              | some entry =>
                  dsimp only [Option.map_some]
                  rw [map_fst_bind, map_fst_bind, translateEntry_bare]
        | some table => rfl

theorem address_eq_map (m : Machine) (writing : Bool) (virtAddr : Word) :
    m.address writing virtAddr = ((m.translate virtAddr 1 writing).map Prod.fst).toOption := by
  unfold address
  cases m.translate virtAddr 1 writing with
  | error trap => rfl
  | ok found => rfl

/-- What can be written can be read. -/
theorem fst_translate_of_writing
    (h : (m.translate virtAddr size true).map Prod.fst = .ok physAddr) :
    (m.translate virtAddr size false).map Prod.fst = .ok physAddr := by
  have hentry (entry : TranslationEntry) (offset : ℕ)
      (hok : (translateEntry entry offset size true).map Prod.fst = .ok physAddr) :
      (translateEntry entry offset size false).map Prod.fst = .ok physAddr := by
    cases hfound : translateEntry entry offset size true with
    | error trap =>
        rw [hfound] at hok
        cases hok
    | ok found =>
        rw [hfound] at hok
        cases hok
        obtain ⟨hentryOK, hphys, hinside, -⟩ := translateEntry_eq_ok_iff.mp hfound
        rw [translateEntry_eq_ok_iff.mpr ⟨⟨.inr rfl, hentryOK.frame⟩, hphys, hinside, rfl⟩]
        rfl
  unfold translate at h ⊢
  split at h
  · cases h
  · rename_i haligned
    rw [if_neg haligned]
    dsimp only at h ⊢
    split at h
    · split at h
      · cases h
      · split at h
        · cases h
        · rename_i hvalid
          rw [if_neg hvalid]
          rw [map_fst_bind] at h ⊢
          exact hentry _ _ h
    · split at h
      · cases h
      · split at h
        · cases h
        · rw [map_fst_bind] at h ⊢
          exact hentry _ _ h
    · cases h

theorem address_false_of_true (h : m.address true virtAddr = some physAddr) :
    m.address false virtAddr = some physAddr := by
  rw [address_eq_map] at h ⊢
  cases hfound : (m.translate virtAddr 1 true).map Prod.fst with
  | error trap =>
      rw [hfound] at h
      cases h
  | ok p =>
      rw [hfound] at h
      cases h
      rw [fst_translate_of_writing hfound]
      rfl

theorem address_congr (h : m'.entries = m.entries) : m'.address = m.address := by
  funext writing virtAddr
  rw [address_eq_map, address_eq_map, fst_translate_entries m', fst_translate_entries m, h]

theorem byte_congr (hmemory : m'.mainMemory = m.mainMemory) (hentries : m'.entries = m.entries) :
    m'.byte = m.byte := by
  funext virtAddr
  unfold byte
  rw [address_congr hentries, hmemory]

theorem exists_of_address (h : m.address writing virtAddr = some physAddr) :
    ∃ m', m.translate virtAddr 1 writing = .ok (physAddr, m') := by
  unfold address at h
  split at h
  · rename_i p m' hfound
    cases h
    exact ⟨m', hfound⟩
  · cases h

/-! ## Accesses -/

theorem readMem_byte {c : Byte} (h : m.byte virtAddr = some c) :
    ∃ m', m.readMem virtAddr 1 = .ok (c.signExtend 32, m') ∧ SameState m m' ∧
      m'.entries = m.entries := by
  obtain ⟨physAddr, haddress, rfl⟩ := Option.map_eq_some_iff.mp h
  obtain ⟨m', hfound⟩ := exists_of_address haddress
  have hsame := sameState_translate hfound
  refine ⟨m', ?_, hsame, entries_translate hfound⟩
  unfold readMem
  rw [hfound, ← hsame.mainMemory]
  rfl

theorem writeMem_byte (h : m.address true virtAddr = some physAddr) (value : Word) :
    ∃ m', m.writeMem virtAddr 1 value = .ok m' ∧ m'.registers = m.registers ∧
      m'.entries = m.entries ∧
      m'.mainMemory = Function.update m.mainMemory physAddr (value.truncate 8) := by
  obtain ⟨m', hfound⟩ := exists_of_address h
  have hsame := sameState_translate hfound
  have hentries : m'.entries = m.entries := entries_translate hfound
  refine ⟨{ m' with mainMemory := store m'.mainMemory physAddr value 1 }, ?_,
    hsame.registers, hentries, ?_⟩
  · unfold writeMem
    rw [hfound]
    rfl
  · rw [← hsame.mainMemory]
    rfl

/-! ## Regions -/

/-- The address behind. -/
def next (virtAddr : Word) : Word :=
  virtAddr + 1#32

/-- `n` distinct bytes from `virtAddr` on can be written. -/
structure Region (m : Machine) (virtAddr : Word) (n : ℕ) : Prop where
  mapped : ∀ v ∈ addresses next n virtAddr, (m.address true v).isSome
  distinct : ((addresses next n virtAddr).map (m.address true)).Nodup

theorem Region.tail {n : ℕ} (h : m.Region virtAddr (n + 1)) : m.Region (next virtAddr) n where
  mapped v hv := h.mapped v (List.mem_cons_of_mem virtAddr hv)
  distinct := (List.nodup_cons.mp h.distinct).2

theorem Region.mono {n k : ℕ} (h : m.Region virtAddr n) (hk : k ≤ n) : m.Region virtAddr k := by
  have hstart : addresses next k virtAddr <+: addresses next n virtAddr :=
    addresses_of_le hk virtAddr
  exact ⟨fun v hv => h.mapped v (hstart.subset hv),
    h.distinct.sublist (hstart.sublist.map _)⟩

theorem Region.congr {n : ℕ} (h : m.Region virtAddr n) (hentries : m'.entries = m.entries) :
    m'.Region virtAddr n where
  mapped v hv := by
    rw [address_congr hentries]
    exact h.mapped v hv
  distinct := by
    rw [address_congr hentries]
    exact h.distinct

/-- The installed table maps its pages, for reading and writing, to frames of their own. -/
structure Mapped (m : Machine) (table : List TranslationEntry) : Prop where
  tlb : m.tlb = none
  installed : m.pageTable = some table
  valid : ∀ entry ∈ table, entry.valid = true ∧ entry.readOnly = false ∧
    0 ≤ entry.physicalPage ∧ entry.physicalPage < numPhysPages
  distinct : (table.map TranslationEntry.physicalPage).Nodup

section Mapped

variable {table : List TranslationEntry}

/-- The physical address of a byte of the address space. -/
theorem Mapped.address_eq (h : Mapped m table) {entry : TranslationEntry}
    (hentry : table[virtAddr.toNat / pageSize]? = some entry) :
    m.address writing virtAddr =
      some (toUnsigned entry.physicalPage * pageSize + virtAddr.toNat % pageSize) := by
  obtain ⟨hvalid, hwritable, hlow, hhigh⟩ := h.valid entry (List.mem_of_getElem? hentry)
  have hframe : toUnsigned entry.physicalPage < numPhysPages := by
    unfold toUnsigned
    unfold numPhysPages at *
    omega
  have hinside : toUnsigned entry.physicalPage * pageSize + virtAddr.toNat % pageSize + 1 ≤
      memorySize := by
    unfold memorySize numPhysPages pageSize at *
    omega
  have hfound : m.translate virtAddr 1 writing = _ :=
    (translate_eq_ok_iff h.tlb h.installed).mpr
      ⟨entry, rfl, hentry, hvalid, ⟨.inl hwritable, hframe⟩, rfl, hinside, rfl⟩
  unfold address
  rw [hfound]

/-- A byte that can be read lies in a page of the table. -/
theorem Mapped.page_lt (h : Mapped m table)
    (haddress : m.address writing virtAddr = some physAddr) :
    virtAddr.toNat / pageSize < table.length := by
  obtain ⟨m', hfound⟩ := exists_of_address haddress
  obtain ⟨entry, htranslated⟩ := (translate_eq_ok_iff h.tlb h.installed).mp hfound
  exact (List.getElem?_eq_some_iff.mp htranslated.lookup).1

/-- Different bytes of the address space are different bytes of the memory. -/
theorem Mapped.address_injective (h : Mapped m table) {v v' : Word}
    (hv : v.toNat / pageSize < table.length) (hv' : v'.toNat / pageSize < table.length)
    (heq : m.address writing v = m.address writing v') : v = v' := by
  obtain ⟨entry, hentry⟩ : ∃ e, table[v.toNat / pageSize]? = some e :=
    ⟨_, List.getElem?_eq_getElem hv⟩
  obtain ⟨entry', hentry'⟩ : ∃ e, table[v'.toNat / pageSize]? = some e :=
    ⟨_, List.getElem?_eq_getElem hv'⟩
  obtain ⟨-, -, hlow, hhigh⟩ := h.valid entry (List.mem_of_getElem? hentry)
  obtain ⟨-, -, hlow', hhigh'⟩ := h.valid entry' (List.mem_of_getElem? hentry')
  rw [h.address_eq hentry, h.address_eq hentry', Option.some.injEq] at heq
  have hframes : entry.physicalPage = entry'.physicalPage := by
    unfold toUnsigned at heq
    unfold pageSize numPhysPages at *
    omega
  have hpages : v.toNat / pageSize = v'.toNat / pageSize := by
    have hlength : v.toNat / pageSize < (table.map TranslationEntry.physicalPage).length := by
      simpa using hv
    refine (List.getElem?_inj hlength h.distinct).mp ?_
    rw [List.getElem?_map, List.getElem?_map, hentry, hentry', Option.map_some, Option.map_some,
      hframes]
  rw [hframes] at heq
  apply BitVec.eq_of_toNat_eq
  unfold pageSize at *
  omega

/-- A table has no more pages than there are frames. -/
theorem Mapped.length_le (h : Mapped m table) : table.length ≤ numPhysPages := by
  have hsubset : (table.map TranslationEntry.physicalPage).toFinset ⊆
      Finset.Ico (0 : ℤ) numPhysPages := by
    intro frame hframe
    obtain ⟨entry, hentry, rfl⟩ := List.mem_map.mp (List.mem_toFinset.mp hframe)
    obtain ⟨-, -, hlow, hhigh⟩ := h.valid entry hentry
    exact Finset.mem_Ico.mpr ⟨hlow, hhigh⟩
  have hcard := Finset.card_le_card hsubset
  rwa [List.toFinset_card_of_nodup h.distinct, List.length_map, Int.card_Ico, sub_zero,
    Int.toNat_natCast] at hcard

theorem mem_addresses {n : ℕ} {v : Word} (h : virtAddr.toNat + n ≤ 2 ^ 32)
    (hv : v ∈ addresses next n virtAddr) :
    virtAddr.toNat ≤ v.toNat ∧ v.toNat < virtAddr.toNat + n := by
  induction n generalizing virtAddr with
  | zero => cases hv
  | succ n ih =>
      rcases List.mem_cons.mp hv with rfl | hrest
      · omega
      · cases n with
        | zero => cases hrest
        | succ n =>
            have hnext : (next virtAddr).toNat = virtAddr.toNat + 1 := by
              unfold next
              rw [BitVec.toNat_add, BitVec.toNat_ofNat]
              omega
            have hbounds := ih (by omega) hrest
            omega

theorem nodup_addresses {n : ℕ} (h : virtAddr.toNat + n ≤ 2 ^ 32) :
    (addresses next n virtAddr).Nodup := by
  induction n generalizing virtAddr with
  | zero => exact List.nodup_nil
  | succ n ih =>
      cases n with
      | zero => exact List.nodup_singleton _
      | succ n =>
          have hnext : (next virtAddr).toNat = virtAddr.toNat + 1 := by
            unfold next
            rw [BitVec.toNat_add, BitVec.toNat_ofNat]
            omega
          refine List.nodup_cons.mpr ⟨fun hmem => ?_, ih (by omega)⟩
          have hbounds := mem_addresses (by omega) hmem
          omega

/-- The bytes of an address space are a region. -/
theorem Mapped.region (h : Mapped m table) {n : ℕ}
    (hend : virtAddr.toNat + n ≤ table.length * pageSize) : m.Region virtAddr n := by
  have hlength := h.length_le
  have hwrap : virtAddr.toNat + n ≤ 2 ^ 32 := by
    unfold numPhysPages pageSize at *
    omega
  have hpage : ∀ v ∈ addresses next n virtAddr, v.toNat / pageSize < table.length := by
    intro v hv
    have hbounds := mem_addresses hwrap hv
    unfold pageSize at *
    omega
  constructor
  · intro v hv
    rw [h.address_eq (List.getElem?_eq_getElem (hpage v hv))]
    rfl
  · exact (nodup_addresses hwrap).map_on fun v hv v' hv' heq =>
      h.address_injective (hpage v hv) (hpage v' hv') heq

end Mapped

end Nachos.Machine
