import Nachos.Library.Holdings
import Nachos.Library.Runs
import Nachos.Verification.FileSystem.Operations

/-! # The allocation of sectors over whole runs -/

namespace Nachos.FileSystem

open Holdings Tracking

/-! ### The files on a disk -/

/-- A file of `size` bytes: the sector of its header, and its data sectors in order. -/
structure File where
  sector : Fin Disk.numSectors
  size : ℕ
  data : List (Fin Disk.numSectors)

/-- The files by directory entry. -/
abbrev Files := Fin numDirEntries → Option File

/-- What a directory entry on the disk stands for. -/
inductive EntryOf (disk : Disk) (entry : DirectoryEntry) : Option File → Prop
  | free (hfree : entry.inUse = 0#8) : EntryOf disk entry none
  | inUse (file : File) (hused : entry.inUse ≠ 0#8)
      (hsector : entry.sector.toInt = file.sector)
      (hheader : (headerAt disk file.sector).Holds file.size file.data) :
      EntryOf disk entry (some file)

/-- The sectors of an entry, and those of the file system itself. -/
def held (files : Files) : Option (Fin numDirEntries) → List (Fin Disk.numSectors)
  | none => [freeMapHeader, directoryHeader, freeMapData, directoryData]
  | some i => (files i).elim [] fun file => file.sector :: file.data

/-- The disk and the open files fit to the files. -/
structure Inv (s : FileSystem) (files : Files) : Prop where
  formatted : s.Formatted
  freeMapHeader : headerAt s.disk freeMapHeader = s.freeMapFile.hdr
  directoryHeader : headerAt s.disk directoryHeader = s.directoryFile.hdr
  entries : ∀ i, EntryOf s.disk ((directoryAt s.disk).table i) (files i)
  exact : Exact (freeMapAt s.disk).test (held files)
  names : ∀ i j, ((directoryAt s.disk).table i).inUse ≠ 0#8 →
    ((directoryAt s.disk).table j).inUse ≠ 0#8 →
    ((directoryAt s.disk).table i).key = ((directoryAt s.disk).table j).key → i = j
  headers : ∀ handle ∈ s.handles, ∃ size data, handle.file.hdr.Holds size data ∧ data.Nodup
  handles : ∀ handle ∈ s.handles, handle.removed = false → ∃ i file, files i = some file ∧
    handle.sector = file.sector ∧ handle.file.hdr = headerAt s.disk file.sector
  stop : s.stop = none

variable {s s' : FileSystem} {files : Files} {i j : Fin numDirEntries} {file : File}

theorem EntryOf.some_of_inUse {disk : Disk} {entry : DirectoryEntry} {o : Option File}
    (h : EntryOf disk entry o) (hused : entry.inUse ≠ 0#8) :
    ∃ file, o = some file ∧ entry.sector.toInt = file.sector ∧
      (headerAt disk file.sector).Holds file.size file.data := by
  cases h with
  | free hfree => exact absurd hfree hused
  | inUse file _ hsector hheader => exact ⟨file, rfl, hsector, hheader⟩

theorem EntryOf.none_of_free {disk : Disk} {entry : DirectoryEntry} {o : Option File}
    (h : EntryOf disk entry o) (hfree : entry.inUse = 0#8) : o = none := by
  cases h with
  | free _ => rfl
  | inUse file hused _ _ => exact absurd hfree hused

theorem held_some (h : files i = some file) : held files (some i) = file.sector :: file.data := by
  rw [held, h]
  rfl

theorem held_update (files : Files) (i : Fin numDirEntries) (o : Option File) :
    held (Function.update files i o) =
      Function.update (held files) (some i) (o.elim [] fun file => file.sector :: file.data) := by
  funext owner
  cases owner with
  | none => rfl
  | some j =>
      by_cases hj : j = i
      · rw [hj, held, Function.update_self, Function.update_self]
      · rw [held, Function.update_of_ne hj, Function.update_of_ne (by simpa using hj), held]

namespace Inv

theorem entry (h : s.Inv files) (hfile : files i = some file) :
    ((directoryAt s.disk).table i).inUse ≠ 0#8 ∧
      ((directoryAt s.disk).table i).sector.toInt = file.sector ∧
      (headerAt s.disk file.sector).Holds file.size file.data := by
  have hentry := h.entries i
  rw [hfile] at hentry
  cases hentry with
  | inUse _ hused hsector hheader => exact ⟨hused, hsector, hheader⟩

/-- A sector of a file is none of the fixed ones. -/
theorem ne_fixed (h : s.Inv files) {sector fixed : Fin Disk.numSectors}
    (hsector : sector ∈ held files (some i)) (hfixed : fixed ∈ held files none) :
    sector ≠ fixed := by
  intro heq
  have hsame := h.exact.owner_unique hsector (heq ▸ hfixed)
  cases hsame

theorem nodup_file (h : s.Inv files) (hfile : files i = some file) :
    file.sector ∉ file.data ∧ file.data.Nodup := by
  have hnodup := h.exact.nodup (some i)
  rw [held_some hfile] at hnodup
  exact List.nodup_cons.mp hnodup

/-- Only data were written. -/
theorem write (h : s.Inv files) {disk' : Disk}
    (hfixed : ∀ x ∈ held files none, disk' x = s.disk x)
    (hheaders : ∀ j file', files j = some file' → disk' file'.sector = s.disk file'.sector) :
    Inv { s with disk := disk' } files := by
  have hdirectory : directoryAt disk' = directoryAt s.disk :=
    directoryAt_congr (hfixed _ (by simp [held]))
  have hfreeMap : freeMapAt disk' = freeMapAt s.disk := freeMapAt_congr (hfixed _ (by simp [held]))
  refine ⟨⟨h.formatted.1, h.formatted.2⟩, ?_, ?_, fun j => ?_, ?_, ?_, h.headers, ?_, h.stop⟩
  · exact (headerAt_congr (hfixed _ (by simp [held]))).trans h.freeMapHeader
  · exact (headerAt_congr (hfixed _ (by simp [held]))).trans h.directoryHeader
  · have hentry := h.entries j
    dsimp only
    rw [hdirectory]
    cases hfile' : files j with
    | none =>
        rw [hfile'] at hentry
        cases hentry with
        | free hfree => exact .free hfree
    | some file' =>
        obtain ⟨hused, hsector, hheader⟩ := h.entry hfile'
        refine .inUse file' hused hsector ?_
        rw [headerAt_congr (hheaders j file' hfile')]
        exact hheader
  · dsimp only
    rw [hfreeMap]
    exact h.exact
  · dsimp only
    rw [hdirectory]
    exact h.names
  · intro handle hhandle hlive
    obtain ⟨j, file', hfile', hsector, hhdr⟩ := h.handles handle hhandle hlive
    exact ⟨j, file', hfile', hsector, hhdr.trans (headerAt_congr (hheaders j file' hfile')).symm⟩

/-- One entry changes, and with it the free map; the headers of the other files stay. -/
theorem replace (h : s.Inv files) {disk' : Disk} {o : Option File} {entry' : DirectoryEntry}
    {handles' : List Handle}
    (hdirectory : directoryAt disk' = (directoryAt s.disk).set i entry')
    (hentry : EntryOf disk' entry' o)
    (hexact : Exact (freeMapAt disk').test (held (Function.update files i o)))
    (hmapHeader : disk' FileSystem.freeMapHeader = s.disk FileSystem.freeMapHeader)
    (hdirHeader : disk' FileSystem.directoryHeader = s.disk FileSystem.directoryHeader)
    (hheaders : ∀ j file, j ≠ i → files j = some file → disk' file.sector = s.disk file.sector)
    (hname : entry'.inUse ≠ 0#8 → ∀ j, j ≠ i → ((directoryAt s.disk).table j).inUse ≠ 0#8 →
      ((directoryAt s.disk).table j).key ≠ entry'.key)
    (hhdrs : ∀ handle ∈ handles', ∃ size data, handle.file.hdr.Holds size data ∧ data.Nodup)
    (hhandles : ∀ handle ∈ handles', handle.removed = false → ∃ j file, j ≠ i ∧
      files j = some file ∧ handle.sector = file.sector ∧
      handle.file.hdr = headerAt s.disk file.sector) :
    Inv { s with disk := disk', handles := handles' } (Function.update files i o) := by
  have hself : (directoryAt disk').table i = entry' := by
    rw [hdirectory, Directory.table_set, Function.update_self]
  have hothers : ∀ j, j ≠ i → (directoryAt disk').table j = (directoryAt s.disk).table j := by
    intro j hj
    rw [hdirectory, Directory.table_set, Function.update_of_ne hj]
  refine ⟨⟨h.formatted.1, h.formatted.2⟩, ?_, ?_, fun j => ?_, hexact, fun j k => ?_, hhdrs, ?_,
    h.stop⟩
  · exact (headerAt_congr hmapHeader).trans h.freeMapHeader
  · exact (headerAt_congr hdirHeader).trans h.directoryHeader
  · dsimp only
    by_cases hj : j = i
    · rw [hj, hself, Function.update_self]
      exact hentry
    · rw [hothers j hj, Function.update_of_ne hj]
      cases hfile : files j with
      | none =>
          have hold := h.entries j
          rw [hfile] at hold
          cases hold with
          | free hfree => exact .free hfree
      | some file' =>
          obtain ⟨hused, hsector, hheader⟩ := h.entry hfile
          refine .inUse file' hused hsector ?_
          rw [headerAt_congr (hheaders j file' hj hfile)]
          exact hheader
  · dsimp only
    by_cases hj : j = i
    · by_cases hk : k = i
      · intro _ _ _
        rw [hj, hk]
      · rw [hj, hself, hothers k hk]
        intro hused hused' hkey
        exact absurd hkey.symm (hname hused k hk hused')
    · by_cases hk : k = i
      · rw [hk, hself, hothers j hj]
        intro hused hused' hkey
        exact absurd hkey (hname hused' j hj hused)
      · rw [hothers j hj, hothers k hk]
        exact h.names j k
  · intro handle hhandle hlive
    obtain ⟨j, file', hj, hfile', hsector, hhdr⟩ := hhandles handle hhandle hlive
    refine ⟨j, file', ?_, hsector, hhdr.trans (headerAt_congr (hheaders j file' hj hfile')).symm⟩
    rw [Function.update_of_ne hj]
    exact hfile'

/-! ### Create -/

theorem create (h : s.Inv files) {disk' : Disk} {name : Bytes} {size : ℕ}
    {sector : Fin Disk.numSectors} {found : List (Fin Disk.numSectors)}
    (hcreated : Created s.disk disk' name size i sector found) :
    Inv { s with disk := disk' } (Function.update files i (some ⟨sector, size, found⟩)) := by
  have hnone : files i = none := (h.entries i).none_of_free hcreated.free
  have hfixed : ∀ x ∈ held files none, x ≠ sector := by
    rintro x hx rfl
    exact h.exact.not_mem_of_clear hcreated.clear none hx
  have hheaders : ∀ j file, j ≠ i → files j = some file →
      disk' file.sector = s.disk file.sector := by
    intro j file' _ hfile'
    have hmem : file'.sector ∈ held files (some j) := held_some hfile' ▸ List.mem_cons_self
    refine hcreated.other _ ?_ (h.ne_fixed hmem (by simp [held])) (h.ne_fixed hmem (by simp [held]))
    rintro rfl
    exact h.exact.not_mem_of_clear hcreated.clear _ hmem
  refine h.replace hcreated.directory ?_ ?_ ?_ ?_ hheaders ?_ h.headers ?_
  · refine .inUse ⟨sector, size, found⟩ (by simp [Directory.newEntry]) ?_ ?_
    · exact FileHeader.toInt_ofInt_val sector
    · exact hcreated.header (hfixed _ (by simp [held])).symm (hfixed _ (by simp [held])).symm
  · rw [held_update]
    refine h.exact.acquire (by rw [held, hnone]; rfl) ?_ ?_ fun x => ?_
    · exact List.nodup_cons.mpr ⟨fun hmem => (hcreated.dataClear _ hmem).2 rfl, hcreated.nodup⟩
    · intro x hx
      rcases List.mem_cons.mp hx with rfl | hx
      · exact hcreated.clear
      · exact (hcreated.dataClear x hx).1
    · rw [hcreated.freeMap, Bool.or_eq_true, decide_eq_true_iff]
      rfl
  · exact hcreated.other _ (hfixed _ (by simp [held])) (by decide) (by decide)
  · exact hcreated.other _ (hfixed _ (by simp [held])) (by decide) (by decide)
  · intro _ j _ hused hkey
    rw [DirectoryEntry.key_newEntry] at hkey
    have hnamed := (DirectoryEntry.isNamed_iff _ name).mpr ⟨hused, hkey⟩
    rw [hcreated.absent j] at hnamed
    cases hnamed
  · intro handle hhandle hlive
    obtain ⟨j, file', hfile', hsector, hhdr⟩ := h.handles handle hhandle hlive
    refine ⟨j, file', ?_, hfile', hsector, hhdr⟩
    rintro rfl
    rw [hnone] at hfile'
    cases hfile'

/-! ### Remove and Open -/

theorem find_eq (h : s.Inv files) {name : Bytes}
    (hindex : (directoryAt s.disk).findIndex name = some i) :
    ∃ file, files i = some file ∧ (directoryAt s.disk).find name = (file.sector : ℕ) := by
  have hnamed := (DirectoryEntry.isNamed_iff _ _).mp (Directory.isNamed_of_findIndex hindex)
  obtain ⟨file, hfile, hsector, -⟩ := (h.entries i).some_of_inUse hnamed.1
  refine ⟨file, hfile, ?_⟩
  rw [Directory.find, hindex]
  exact hsector

/-- What a successful `Remove` does. -/
structure Removed (disk disk' : Disk) (name : Bytes) (i : Fin numDirEntries) (file : File) :
    Prop where
  index : (directoryAt disk).findIndex name = some i
  directory : directoryAt disk' =
    (directoryAt disk).set i { (directoryAt disk).table i with inUse := 0#8 }
  freeMap : ∀ x, (freeMapAt disk').test x =
    ((freeMapAt disk).test x && decide (x ∉ file.sector :: file.data))
  other : ∀ x, x ≠ FileSystem.freeMapData → x ≠ FileSystem.directoryData → disk' x = disk x

inductive RemoveSpec (s : FileSystem) (files : Files) (name : Bytes) :
    Bool × FileSystem → Prop
  | missing (hindex : (directoryAt s.disk).findIndex name = none) :
      RemoveSpec s files name (false, s)
  | removed (disk' : Disk) (i : Fin numDirEntries) (file : File) (hfile : files i = some file)
      (h : Removed s.disk disk' name i file) :
      RemoveSpec s files name (true, { s with
        disk := disk'
        handles := s.handles.map (Handle.remove (file.sector : ℕ)) })

/-- The free map is written back before the directory. -/
theorem writeBack_both (h : s.Formatted) (g : Garbage) (directory : Directory numDirEntries)
    (freeMap : BitMap Disk.numSectors) (handles' : List Handle) :
    ∃ disk', (do
        let disk ← freeMap.writeBack s.disk s.freeMapFile (g.buffer 0)
        let disk ← directory.writeBack disk s.directoryFile (g.buffer 1)
        return (true, { s with disk := disk, handles := handles' }) :
          Except Stop (Bool × FileSystem)) =
          .ok (true, { s with disk := disk', handles := handles' }) ∧
      directoryAt disk' = directory ∧ freeMapAt disk' = freeMap ∧
      ∀ x, x ≠ FileSystem.freeMapData → x ≠ FileSystem.directoryData → disk' x = s.disk x := by
  obtain ⟨disk₁, hfreeMap, hother₁, hfreeMapAt⟩ := writeBack_freeMap h.freeMapFile s.disk
    (g.buffer 0) freeMap
  obtain ⟨disk₂, hdirectory, hother₂, hdirectoryAt⟩ := writeBack_directory h.directoryFile disk₁
    (g.buffer 1) directory
  refine ⟨disk₂, ?_, hdirectoryAt, ?_, fun x hmap hdir => ?_⟩
  · rw [hfreeMap, ok_bind, hdirectory]
    rfl
  · rw [freeMapAt_congr (hother₂ _ (by decide)), hfreeMapAt]
  · rw [hother₂ x hdir, hother₁ x hmap]

/-- The ASSERT in `Deallocate` holds, as the sectors of a file are marked. -/
theorem remove_spec (h : s.Inv files) (g : Garbage) (name : Bytes) :
    ∃ result, s.remove g name = .ok result ∧ RemoveSpec s files name result := by
  cases hindex : (directoryAt s.disk).findIndex name with
  | none => exact ⟨_, remove_of_absent h.formatted g hindex, .missing hindex⟩
  | some i =>
      rw [FileSystem.remove, fetchDirectory_eq h.formatted, ok_bind]
      obtain ⟨file, hfile, hfind⟩ := h.find_eq hindex
      obtain ⟨-, -, hheader⟩ := h.entry hfile
      have hmarked : ∀ x ∈ file.sector :: file.data, (freeMapAt s.disk).test x = true := by
        intro x hx
        rw [← held_some hfile] at hx
        exact h.exact.marked_of_mem hx
      obtain ⟨hnot, hnodup⟩ := h.nodup_file hfile
      obtain ⟨freeMap', hfreed, htest⟩ := FileHeader.deallocate_spec hheader hnodup
        fun x hx => hmarked x (List.mem_cons_of_mem _ hx)
      have hfetch : FileHeader.fetchFrom s.disk (file.sector : ℕ) =
          .ok (headerAt s.disk file.sector) := by
        rw [FileHeader.fetchFrom, Disk.readSector_coe]
        rfl
      obtain ⟨disk', hwrite, hdirectoryAt, hfreeMapAt, hother⟩ := writeBack_both h.formatted g
        ((directoryAt s.disk).set i { (directoryAt s.disk).table i with inUse := 0#8 })
        (freeMap'.clear file.sector) (s.handles.map (Handle.remove (file.sector : ℕ)))
      refine ⟨_, ?_, .removed disk' i file hfile ⟨hindex, hdirectoryAt, fun x => ?_, hother⟩⟩
      · rw [hfind, if_neg (by omega), hfetch, ok_bind, fetchFreeMap_eq h.formatted, ok_bind,
          hfreed, ok_bind, Disk.sector_coe, ok_bind, Directory.remove, hindex]
        exact hwrite
      · rw [hfreeMapAt, BitMap.test_clear, htest, ← Bool.and_assoc, Bool.and_comm (!_),
          Bool.and_assoc, ← decide_not, ← Bool.decide_and]
        exact congrArg _ (decide_eq_decide.mpr (by rw [List.mem_cons, not_or, eq_comm]))

theorem remove (h : s.Inv files) {disk' : Disk} {name : Bytes} (hfile : files i = some file)
    (hremoved : Removed s.disk disk' name i file) :
    Inv { s with disk := disk', handles := s.handles.map (Handle.remove (file.sector : ℕ)) }
      (Function.update files i none) := by
  have hheaders : ∀ j file', j ≠ i → files j = some file' →
      disk' file'.sector = s.disk file'.sector := by
    intro j file' _ hfile'
    have hmem : file'.sector ∈ held files (some j) := held_some hfile' ▸ List.mem_cons_self
    exact hremoved.other _ (h.ne_fixed hmem (by simp [held])) (h.ne_fixed hmem (by simp [held]))
  refine h.replace hremoved.directory (.free rfl) ?_ ?_ ?_ hheaders (absurd rfl ·) ?_ ?_
  · rw [held_update]
    refine h.exact.release fun x => ?_
    rw [hremoved.freeMap, Bool.and_eq_true, decide_eq_true_iff, held_some hfile]
  · exact hremoved.other _ (by decide) (by decide)
  · exact hremoved.other _ (by decide) (by decide)
  · intro handle' hhandle'
    obtain ⟨handle, hhandle, rfl⟩ := List.mem_map.mp hhandle'
    exact h.headers handle hhandle
  · intro handle' hhandle' hlive
    obtain ⟨handle, hhandle, rfl⟩ := List.mem_map.mp hhandle'
    have hlive := Bool.or_eq_false_iff.mp hlive
    obtain ⟨j, file', hfile', hsector, hhdr⟩ := h.handles handle hhandle hlive.1
    refine ⟨j, file', ?_, hfile', hsector, hhdr⟩
    rintro rfl
    rw [hfile] at hfile'
    obtain rfl := Option.some.inj hfile'
    exact of_decide_eq_false hlive.2 hsector

theorem openFile_spec (h : s.Inv files) (g : Garbage) (name : Bytes) :
    (directoryAt s.disk).findIndex name = none ∧ s.openFile g name = .ok (none, s) ∨
    ∃ i file, (directoryAt s.disk).findIndex name = some i ∧ files i = some file ∧
      s.openFile g name = .ok (some ⟨headerAt s.disk file.sector, 0⟩, { s with
        handles :=
          s.handles ++ [⟨(file.sector : ℕ), ⟨headerAt s.disk file.sector, 0⟩, false⟩] }) := by
  rw [FileSystem.openFile, fetchDirectory_eq h.formatted, ok_bind]
  cases hindex : (directoryAt s.disk).findIndex name with
  | none =>
      refine .inl ⟨rfl, ?_⟩
      rw [find_of_findIndex_none hindex, if_neg (by decide)]
      rfl
  | some i =>
      obtain ⟨file, hfile, hfind⟩ := h.find_eq hindex
      refine .inr ⟨i, file, rfl, hfile, ?_⟩
      rw [hfind, if_pos (by omega), openFile_create]
      rfl

theorem addHandle (h : s.Inv files) (hfile : files i = some file) (seekPosition : ℤ) :
    Inv { s with
      handles := s.handles ++ [⟨(file.sector : ℕ), ⟨headerAt s.disk file.sector, seekPosition⟩,
        false⟩] } files := by
  have hmem : ∀ P : Handle → Prop, (∀ handle ∈ s.handles, P handle) →
      P ⟨(file.sector : ℕ), ⟨headerAt s.disk file.sector, seekPosition⟩, false⟩ →
      ∀ handle ∈ s.handles ++ [⟨(file.sector : ℕ), ⟨headerAt s.disk file.sector, seekPosition⟩,
        false⟩], P handle := by
    intro P hold hnew handle hhandle
    rcases List.mem_append.mp hhandle with hhandle | hhandle
    · exact hold handle hhandle
    · rw [List.mem_singleton.mp hhandle]
      exact hnew
  refine ⟨⟨h.formatted.1, h.formatted.2⟩, h.freeMapHeader, h.directoryHeader, h.entries, h.exact,
    h.names, hmem _ h.headers ?_, hmem _ h.handles ?_, h.stop⟩
  · exact ⟨file.size, file.data, (h.entry hfile).2.2, (h.nodup_file hfile).2⟩
  · exact fun _ => ⟨i, file, hfile, rfl, rfl⟩

/-! ### Open files -/

theorem setFile (h : s.Inv files) {k : ℕ} {old : Handle} (hold : s.handles[k]? = some old)
    {file' : OpenFile} (hhdr : file'.hdr = old.file.hdr) : Inv (s.setFile k file') files := by
  have hmem : ∀ P : Handle → Prop, (∀ handle ∈ s.handles, P handle) →
      P { old with file := file' } → ∀ handle ∈ (s.setFile k file').handles, P handle := by
    intro P hkept hnew handle hhandle
    obtain ⟨j, hj⟩ := List.mem_iff_getElem?.mp hhandle
    rw [FileSystem.setFile, List.getElem?_modify] at hj
    split at hj
    · rename_i heq
      rw [← heq, hold] at hj
      cases hj
      exact hnew
    · exact hkept handle (List.mem_of_getElem? (by simpa using hj))
  have hmemOld := List.mem_of_getElem? hold
  refine ⟨⟨h.formatted.1, h.formatted.2⟩, h.freeMapHeader, h.directoryHeader, h.entries, h.exact,
    h.names, hmem _ h.headers ?_, hmem _ h.handles ?_, h.stop⟩
  · dsimp only
    rw [hhdr]
    exact h.headers old hmemOld
  · dsimp only
    rw [hhdr]
    exact h.handles old hmemOld

end Inv
end Nachos.FileSystem
