import Nachos.Model.FileSystemStub
import Nachos.Verification.FileSystem.Allocation

/-! # The stub and the real file system -/

namespace Nachos.FileSystemStub

open FileSystem Runs Tracking

/-- The two file systems side by side. -/
structure Both where
  real : FileSystem
  stub : Unix

inductive Call
  | create (g : Garbage) (name : Name) (initialSize : ℤ)
  | openFile (g : Garbage) (name : Name)
  | remove (g : Garbage) (name : Name)

namespace Both

/-- Whether the call succeeds on the real file system and on the stub. -/
def answer (s : Both) : Call → Except Stop ((Bool × Bool) × Both)
  | .create g name initialSize => do
      let (success, real) ← s.real.create g name.cString initialSize
      let (success', stub) ← create s.stub name initialSize
      return ((success, success'), ⟨real, stub⟩)
  | .openFile g name => do
      let (file, real) ← s.real.openFile g name.cString
      let file' ← openFile s.stub name
      return ((file.isSome, file'.isSome), ⟨real, s.stub⟩)
  | .remove g name => do
      let (success, real) ← s.real.remove g name.cString
      let (success', stub) := remove s.stub name
      return ((success, success'), ⟨real, stub⟩)

def step (s : Both) (call : Call) : Option Both :=
  match s.answer call with
  | .ok (_, s') => some s'
  | .error _ => none

/-- Both return the same, and a `Create` of a name that exists fails and leaves the file. -/
def Agree (s : Both) (call : Call) : Prop :=
  ∃ success s', s.answer call = .ok ((success, success), s') ∧
    ∀ g name initialSize, call = .create g name initialSize → (s.stub name).isSome →
      success = false ∧ s'.stub name = s.stub name ∧ s'.real.disk = s.real.disk

/-- There is room on the disk and in the directory for the file to create. -/
def HasRoom (s : Both) : Call → Prop
  | .create _ _ initialSize =>
      0 ≤ initialSize ∧ initialSize ≤ maxFileSize ∧
      (∃ i, ((directoryAt s.real.disk).table i).inUse = 0#8) ∧
      1 + divRoundUp initialSize.toNat sectorSize ≤ (freeMapAt s.real.disk).numClear
  | .openFile _ _ | .remove _ _ => True

/-- The file to create does not exist. -/
def NewName (s : Both) : Call → Prop
  | .create _ name _ => s.stub name = none
  | .openFile _ _ | .remove _ _ => True

/-- The directory has the names of the files of the stub. -/
structure Related (s : Both) : Prop where
  inv : ∃ files, s.real.Inv files
  names : ∀ name, (s.stub name).isSome ↔
    ∃ i, ((directoryAt s.real.disk).table i).isNamed name.cString = true

end Both

/-! ### Names of at most nine characters -/

theorem nameKey_getD {chars : List Byte} {n : ℕ} (hnul : 0#8 ∉ chars) (hn : chars.length ≤ n) :
    nameKey (fun k => chars.getD k 0#8) n = chars := by
  induction n generalizing chars with
  | zero => rw [List.length_eq_zero_iff.mp (Nat.le_zero.mp hn)]; rfl
  | succ n ih =>
      cases chars with
      | nil => rfl
      | cons c chars =>
          rw [List.mem_cons, not_or] at hnul
          have hrest := ih hnul.2 (by simpa using hn)
          rw [nameKey]
          simp only [List.getD_cons_zero, List.getD_cons_succ, if_neg (Ne.symm hnul.1), hrest]

theorem nameKey_cString (name : Name) : nameKey name.cString fileNameMaxLen = name.chars :=
  nameKey_getD name.noNul name.short

theorem isNamed_cString (entry : DirectoryEntry) (name : Name) :
    entry.isNamed name.cString = true ↔ entry.inUse ≠ 0#8 ∧ entry.key = name.chars := by
  rw [DirectoryEntry.isNamed_iff, nameKey_cString]

theorem Name.ext_chars {name name' : Name} (h : name.chars = name'.chars) : name = name' := by
  cases name
  cases name'
  cases h
  rfl

variable {s : Both}

namespace Both

theorem isSome_of_create (unix : Unix) (name name' : Name) :
    (Function.update unix name (some []) name').isSome ↔ name' = name ∨ (unix name').isSome := by
  by_cases h : name' = name
  · simp [h]
  · simp [h]

theorem isSome_of_remove (unix : Unix) (name name' : Name) :
    (Function.update unix name none name').isSome ↔ name' ≠ name ∧ (unix name').isSome := by
  by_cases h : name' = name
  · simp [h]
  · simp [h]

/-! ### Create -/

/-- The names after a new entry. -/
theorem exists_isNamed_set {directory : Directory numDirEntries} {i : Fin numDirEntries}
    (hfree : (directory.table i).inUse = 0#8) {name : Name} {sector : ℤ} (name' : Name) :
    (∃ j, ((directory.set i (Directory.newEntry (directory.table i) name.cString sector)).table
      j).isNamed name'.cString = true) ↔
      name' = name ∨ ∃ j, (directory.table j).isNamed name'.cString = true := by
  have hnew : (Directory.newEntry (directory.table i) name.cString sector).isNamed
      name'.cString = true ↔ name' = name := by
    rw [isNamed_cString, DirectoryEntry.key_newEntry, nameKey_cString]
    refine ⟨fun h => (Name.ext_chars h.2).symm, fun h => ⟨by simp [Directory.newEntry], ?_⟩⟩
    rw [h]
  rw [Directory.table_set]
  constructor
  · rintro ⟨j, hj⟩
    by_cases hji : j = i
    · rw [hji, Function.update_self] at hj
      exact .inl (hnew.mp hj)
    · rw [Function.update_of_ne hji] at hj
      exact .inr ⟨j, hj⟩
  · rintro (rfl | ⟨j, hj⟩)
    · exact ⟨i, by rw [Function.update_self]; exact hnew.mpr rfl⟩
    · have hji : j ≠ i := by
        rintro rfl
        exact ((DirectoryEntry.isNamed_iff _ _).mp hj).1 hfree
      exact ⟨j, by rw [Function.update_of_ne hji]; exact hj⟩

/-- A new name succeeds on both. -/
theorem answer_create_new (h : s.Related) (g : Garbage) {name : Name} {initialSize : ℤ}
    (hroom : s.HasRoom (.create g name initialSize)) (hnew : s.stub name = none) :
    ∃ s', s.answer (.create g name initialSize) = .ok ((true, true), s') ∧ s'.Related := by
  obtain ⟨files, hinv⟩ := h.inv
  obtain ⟨hnonneg, hmax, ⟨k, hfree⟩, hclear⟩ := hroom
  obtain ⟨size, rfl⟩ := Int.eq_ofNat_of_zero_le hnonneg
  obtain ⟨result, hcreate, hspec⟩ :=
    create_spec hinv.formatted g name.cString (by exact_mod_cast hmax)
  have hanswer : s.answer (.create g name size) = .ok ((result.1, true),
      ⟨result.2, Function.update s.stub name (some [])⟩) := by
    rw [answer, hcreate, ok_bind]
    rfl
  rw [Int.toNat_natCast] at hclear
  cases hspec with
  | failed hcannot =>
      exfalso
      rcases hcannot with ⟨i, hnamed⟩ | hfull | hused | hfew
      · have hsome := (h.names name).mpr ⟨i, hnamed⟩
        rw [hnew] at hsome
        cases hsome
      · obtain ⟨x, hx⟩ := (BitMap.numClear_pos_iff (freeMapAt s.real.disk)).mp (by omega)
        rw [hfull x] at hx
        cases hx
      · exact hused k hfree
      · omega
  | created disk' i sector found hcan hcreated =>
      refine ⟨_, hanswer, ⟨_, hinv.create hcreated⟩, fun name' => ?_⟩
      rw [isSome_of_create, h.names name']
      dsimp only
      rw [hcreated.directory]
      exact (exists_isNamed_set hcreated.free name').symm

/-- A name that exists fails on the real file system only. -/
theorem answer_create_old (h : s.Related) (g : Garbage) {name : Name} {initialSize : ℤ}
    (hroom : s.HasRoom (.create g name initialSize)) (hold : s.stub name ≠ none) :
    ∃ s', s.answer (.create g name initialSize) = .ok ((false, true), s') := by
  obtain ⟨files, hinv⟩ := h.inv
  obtain ⟨hnonneg, hmax, -⟩ := hroom
  obtain ⟨size, rfl⟩ := Int.eq_ofNat_of_zero_le hnonneg
  obtain ⟨result, hcreate, hspec⟩ :=
    create_spec hinv.formatted g name.cString (by exact_mod_cast hmax)
  obtain ⟨i, hnamed⟩ := (h.names name).mp (Option.isSome_iff_ne_none.mpr hold)
  cases hspec with
  | failed hcannot =>
      refine ⟨⟨s.real, Function.update s.stub name (some [])⟩, ?_⟩
      rw [answer, hcreate, ok_bind]
      rfl
  | created disk' j sector found hcan hcreated =>
      rw [hcreated.absent i] at hnamed
      cases hnamed

/-! ### Open and Remove -/

theorem Related.stub_eq_none (h : s.Related) {name : Name}
    (hindex : (directoryAt s.real.disk).findIndex name.cString = none) : s.stub name = none := by
  refine Option.not_isSome_iff_eq_none.mp fun hsome => ?_
  obtain ⟨i, hnamed⟩ := (h.names name).mp hsome
  rw [Directory.findIndex_eq_none_iff.mp hindex i] at hnamed
  cases hnamed

theorem openFile_stub (unix : Unix) (name : Name) :
    openFile unix name = .ok (unix.openExisting name) := by
  rw [openFile, openForReadWrite, if_pos (.inl rfl), ok_bind]
  cases unix.openExisting name with
  | none => rfl
  | some fd => rfl

theorem answer_openFile (h : s.Related) (g : Garbage) (name : Name) :
    ∃ success s', s.answer (.openFile g name) = .ok ((success, success), s') ∧ s'.Related := by
  obtain ⟨files, hinv⟩ := h.inv
  obtain ⟨hindex, hopen⟩ | ⟨i, file, hindex, hfile, hopen⟩ := hinv.openFile_spec g name.cString
  · refine ⟨false, s, ?_, h⟩
    rw [answer, hopen, ok_bind]
    dsimp only
    rw [openFile_stub, Unix.openExisting, h.stub_eq_none hindex]
    rfl
  · have hsome := (h.names name).mpr ⟨i, Directory.isNamed_of_findIndex hindex⟩
    refine ⟨true, ⟨{ s.real with handles := s.real.handles ++
      [⟨(file.sector : ℕ), ⟨headerAt s.real.disk file.sector, 0⟩, false⟩] }, s.stub⟩, ?_,
      ⟨files, hinv.addHandle hfile 0⟩, h.names⟩
    rw [answer, hopen, ok_bind]
    dsimp only
    rw [openFile_stub, Unix.openExisting, if_pos hsome]
    rfl

/-- The names after an entry has been freed. -/
theorem exists_isNamed_free {files : Files} {real : FileSystem} (h : real.Inv files)
    {i : Fin numDirEntries} {name : Name}
    (hnamed : ((directoryAt real.disk).table i).isNamed name.cString = true) (name' : Name) :
    (∃ j, (((directoryAt real.disk).set i { (directoryAt real.disk).table i with
      inUse := 0#8 }).table j).isNamed name'.cString = true) ↔
      name' ≠ name ∧ ∃ j, ((directoryAt real.disk).table j).isNamed name'.cString = true := by
  rw [Directory.table_set]
  constructor
  · rintro ⟨j, hj⟩
    by_cases hji : j = i
    · rw [hji, Function.update_self] at hj
      exact absurd rfl ((DirectoryEntry.isNamed_iff _ _).mp hj).1
    · rw [Function.update_of_ne hji] at hj
      refine ⟨?_, j, hj⟩
      rintro rfl
      have hindex := h.findIndex_of_isNamed hnamed
      rw [h.findIndex_of_isNamed hj] at hindex
      exact hji (Option.some.inj hindex)
  · rintro ⟨hne, j, hj⟩
    have hji : j ≠ i := by
      rintro rfl
      have hkey := ((isNamed_cString _ _).mp hj).2
      exact hne (Name.ext_chars (hkey.symm.trans ((isNamed_cString _ _).mp hnamed).2))
    exact ⟨j, by rw [Function.update_of_ne hji]; exact hj⟩

theorem answer_remove (h : s.Related) (g : Garbage) (name : Name) :
    ∃ success s', s.answer (.remove g name) = .ok ((success, success), s') ∧ s'.Related := by
  obtain ⟨files, hinv⟩ := h.inv
  obtain ⟨result, hremove, hspec⟩ := hinv.remove_spec g name.cString
  cases hspec with
  | missing hindex =>
      refine ⟨false, s, ?_, h⟩
      rw [answer, hremove, ok_bind]
      dsimp only
      rw [remove, Unix.unlink, h.stub_eq_none hindex]
      rfl
  | removed disk' i file hfile hremoved =>
      have hnamed := Directory.isNamed_of_findIndex hremoved.index
      have hsome := (h.names name).mpr ⟨i, hnamed⟩
      refine ⟨true, ⟨{ s.real with
        disk := disk'
        handles := s.real.handles.map (Handle.remove (file.sector : ℕ)) },
        Function.update s.stub name none⟩, ?_, ⟨_, hinv.remove hfile hremoved⟩, fun name' => ?_⟩
      · rw [answer, hremove, ok_bind]
        dsimp only
        rw [remove, Unix.unlink, if_pos hsome]
        rfl
      · rw [isSome_of_remove, h.names name']
        dsimp only
        rw [hremoved.directory]
        exact (exists_isNamed_free hinv hnamed name').symm

/-! ### Whole runs -/

/-- Of the calls for which there is room, only a `Create` of a name that exists sets the two
apart. -/
theorem answered (h : s.Related) {call : Call} (hroom : s.HasRoom call) :
    (s.NewName call ∧
      ∃ success s', s.answer call = .ok ((success, success), s') ∧ s'.Related) ∨
    ¬ s.NewName call ∧ ∃ s', s.answer call = .ok ((false, true), s') := by
  cases call with
  | create g name initialSize =>
      by_cases hnew : s.stub name = none
      · obtain ⟨s', hanswer, hrelated⟩ := answer_create_new h g hroom hnew
        exact .inl ⟨hnew, true, s', hanswer, hrelated⟩
      · exact .inr ⟨hnew, answer_create_old h g hroom hnew⟩
  | openFile g name => exact .inl ⟨trivial, answer_openFile h g name⟩
  | remove g name => exact .inl ⟨trivial, answer_remove h g name⟩

theorem agree_iff (h : s.Related) {call : Call} (hroom : s.HasRoom call) :
    s.Agree call ↔ s.NewName call := by
  obtain ⟨hnew, success, s', hanswer, -⟩ | ⟨hold, s', hanswer⟩ := answered h hroom
  · refine iff_of_true ⟨success, s', hanswer, ?_⟩ hnew
    rintro g name initialSize rfl hsome
    rw [show s.stub name = none from hnew] at hsome
    cases hsome
  · refine iff_of_false ?_ hold
    rintro ⟨success, s'', hanswer', -⟩
    cases hanswer.symm.trans hanswer'

theorem related_step (h : s.Related) {call : Call} (hroom : s.HasRoom call)
    (hnew : s.NewName call) {s' : Both} (hstep : s.step call = some s') : s'.Related := by
  obtain ⟨-, success, s'', hanswer, hrelated⟩ | ⟨hold, -⟩ := answered h hroom
  · rw [step, hanswer] at hstep
    cases hstep
    exact hrelated
  · exact absurd hnew hold

theorem allTried_agree_iff (h : s.Related) {calls : List Call}
    (hroom : AllTried step HasRoom s calls) :
    AllTried step Agree s calls ↔ AllTried step NewName s calls := by
  refine allTried_iff (fun s call h hroom => agree_iff h hroom) ?_ h hroom
  intro s call s' h hroom hnew hstep
  exact related_step h hroom hnew hstep

theorem related_fresh {real : FileSystem} (h : real.Fresh) : Related ⟨real, fun _ => none⟩ := by
  refine ⟨⟨_, h.inv⟩, fun name => ?_⟩
  simp [DirectoryEntry.isNamed_iff, h.entries]

theorem stub_agrees_iff (g : Garbage) (disk : Disk) :
    ∃ real, format g disk = .ok real ∧ ∀ calls,
      AllTried step HasRoom ⟨real, fun _ => none⟩ calls →
        (AllTried step Agree ⟨real, fun _ => none⟩ calls ↔
          AllTried step NewName ⟨real, fun _ => none⟩ calls) := by
  obtain ⟨real, hformat, hfresh⟩ := format_spec g disk
  exact ⟨real, hformat, fun calls hroom => allTried_agree_iff (related_fresh hfresh) hroom⟩

/-! ### Twice the same name -/

def nameA : Name := ⟨[97#8], by decide, by decide⟩

theorem hasRoom_fresh {real : FileSystem} (h : real.Fresh) (stub : Unix) :
    HasRoom ⟨real, stub⟩ (.create .zero nameA 0) := by
  refine ⟨le_rfl, by decide, ⟨⟨0, by decide⟩, h.entries _⟩, ?_⟩
  have hclear : (freeMapAt real.disk).test ⟨4, by decide⟩ = false := by
    rw [h.freeMap]
    rfl
  exact (BitMap.numClear_pos_iff _).mpr ⟨_, hclear⟩

theorem stub_agrees_iff_once :
    ∃ real, format .zero (fun _ _ => 0#8) = .ok real ∧
      AllTried step HasRoom ⟨real, fun _ => none⟩
        [.create .zero nameA 0, .openFile .zero nameA, .remove .zero nameA] ∧
      (AllTried step Agree ⟨real, fun _ => none⟩
          [.create .zero nameA 0, .openFile .zero nameA, .remove .zero nameA] ↔
        AllTried step NewName ⟨real, fun _ => none⟩
          [.create .zero nameA 0, .openFile .zero nameA, .remove .zero nameA]) := by
  obtain ⟨real, hformat, hall⟩ := stub_agrees_iff .zero fun _ _ => 0#8
  obtain ⟨real', hformat', hfresh⟩ := format_spec .zero fun _ _ => 0#8
  cases hformat.symm.trans hformat'
  have hroom : AllTried step HasRoom ⟨real, fun _ => none⟩
      [.create .zero nameA 0, .openFile .zero nameA, .remove .zero nameA] :=
    ⟨hasRoom_fresh hfresh _, fun _ _ => ⟨trivial, fun _ _ => ⟨trivial, fun _ _ => trivial⟩⟩⟩
  exact ⟨real, hformat, hroom, hall _ hroom⟩

/-- After one file of no bytes there is still room for another. -/
theorem hasRoom_second {real : FileSystem} (h : real.Fresh) {s' : Both}
    (hstep : step ⟨real, fun _ => none⟩ (.create .zero nameA 0) = some s') :
    s'.HasRoom (.create .zero nameA 0) ∧ s'.stub nameA ≠ none := by
  obtain ⟨result, hcreate, hspec⟩ :=
    create_spec h.formatted .zero nameA.cString (Nat.zero_le maxFileSize)
  have hanswer : answer ⟨real, fun _ => none⟩ (.create .zero nameA 0) = .ok ((result.1, true),
      ⟨result.2, Function.update (fun _ => none) nameA (some [])⟩) := by
    rw [answer]
    dsimp only
    rw [show (0 : ℤ) = ((0 : ℕ) : ℤ) from rfl, hcreate, ok_bind]
    rfl
  rw [step, hanswer] at hstep
  cases hstep
  cases hspec with
  | failed hcannot =>
      exact absurd hcannot (not_cannotCreate h.entries h.freeMap _ (by decide))
  | created disk' i sector found _ hcreated =>
      have hinv := h.inv.create hcreated
      obtain ⟨-, -, hholds⟩ := hinv.entry (Function.update_self ..)
      have hfound : found = [] := List.length_eq_zero_iff.mp
        (hholds.length.trans (show divRoundUp 0 sectorSize = 0 by decide))
      refine ⟨⟨le_rfl, by decide, ?_, ?_⟩, by simp⟩
      · obtain ⟨j, hj⟩ : ∃ j, j ≠ i := by
          by_cases hi : i = ⟨0, by decide⟩
          · exact ⟨⟨1, by decide⟩, by rw [hi]; decide⟩
          · exact ⟨⟨0, by decide⟩, Ne.symm hi⟩
        refine ⟨j, ?_⟩
        dsimp only
        rw [hcreated.directory, Directory.table_set, Function.update_of_ne hj]
        exact h.entries j
      · obtain ⟨x, hx, hne⟩ : ∃ x : Fin Disk.numSectors, 4 ≤ x.val ∧ x ≠ sector := by
          by_cases hs : sector = ⟨4, by decide⟩
          · exact ⟨⟨5, by decide⟩, by decide, by rw [hs]; decide⟩
          · exact ⟨⟨4, by decide⟩, le_rfl, Ne.symm hs⟩
        refine (BitMap.numClear_pos_iff _).mpr ⟨x, ?_⟩
        dsimp only
        rw [hcreated.freeMap, h.freeMap, hfound, Bool.or_eq_false_iff]
        exact ⟨decide_eq_false (by omega), decide_eq_false (by simpa using hne)⟩

theorem create_twice_disagrees :
    ∃ real, format .zero (fun _ _ => 0#8) = .ok real ∧
      AllTried step HasRoom ⟨real, fun _ => none⟩
        [.create .zero nameA 0, .create .zero nameA 0] ∧
      ¬ AllTried step Agree ⟨real, fun _ => none⟩
        [.create .zero nameA 0, .create .zero nameA 0] := by
  obtain ⟨real, hformat, hfresh⟩ := format_spec .zero fun _ _ => 0#8
  have hroom : AllTried step HasRoom ⟨real, fun _ => none⟩
      [.create .zero nameA 0, .create .zero nameA 0] :=
    ⟨hasRoom_fresh hfresh _, fun s' hstep =>
      ⟨(hasRoom_second hfresh hstep).1, fun _ _ => trivial⟩⟩
  refine ⟨real, hformat, hroom, fun hagree => ?_⟩
  obtain ⟨hnew, hrest⟩ := (allTried_agree_iff (related_fresh hfresh) hroom).mp hagree
  obtain ⟨s', hanswer, -⟩ := answer_create_new (related_fresh hfresh) .zero hroom.1 hnew
  have hstep : step ⟨real, fun _ => none⟩ (.create .zero nameA 0) = some s' := by
    rw [step, hanswer]
  exact (hasRoom_second hfresh hstep).2 (hrest s' hstep).1

end Both
end Nachos.FileSystemStub
