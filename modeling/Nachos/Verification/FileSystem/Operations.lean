import Nachos.Verification.FileSystem.Names
import Nachos.Verification.FileSystem.Sectors

/-! # The operations of the file system

The free map and the directory lie in one sector each. An operation reads both, works on
the copies, and writes them back. -/

namespace Nachos.FileSystem

open Tracking

/-! ### The fixed sectors -/

def freeMapHeader : Fin Disk.numSectors := ⟨0, by decide⟩
def directoryHeader : Fin Disk.numSectors := ⟨1, by decide⟩
def freeMapData : Fin Disk.numSectors := ⟨2, by decide⟩
def directoryData : Fin Disk.numSectors := ⟨3, by decide⟩

/-- The header in a sector. -/
def headerAt (disk : Disk) (sector : Fin Disk.numSectors) : FileHeader :=
  .ofSector (disk sector)

/-- The free map on the disk. -/
def freeMapAt (disk : Disk) : BitMap Disk.numSectors :=
  .ofBytes (Sector.bytes (disk freeMapData))

/-- The directory on the disk. -/
def directoryAt (disk : Disk) : Directory numDirEntries :=
  .ofBytes (Sector.bytes (disk directoryData))

/-- The bitmap and directory files have the headers that formatting writes. -/
structure Formatted (s : FileSystem) : Prop where
  freeMapFile : s.freeMapFile.hdr.Holds 128 [freeMapData]
  directoryFile : s.directoryFile.hdr.Holds 200 [directoryData]

/-! ### Files in one sector -/

section OneSector

variable {file : OpenFile} {size : ℕ} {sector : Fin Disk.numSectors} {disk : Disk}

theorem content_singleton {k : ℕ} (hk : k < sectorSize) :
    content disk (FileHeader.sectorMap [sector]) k = Sector.bytes (disk sector) k := by
  have h := content_mul_add disk (FileHeader.sectorMap [sector]) 0 hk
  rwa [Nat.zero_mul, Nat.zero_add] at h

theorem readAt_singleton (h : file.hdr.Holds size [sector]) (hpos : 0 < size)
    (hsize : size ≤ sectorSize) (disk : Disk) (into : Bytes) :
    ∃ n into', file.readAt disk into size 0 = .ok (n, into') ∧
      ∀ k < size, into' k = Sector.bytes (disk sector) k := by
  have hsum : ((0 + size : ℕ) : ℤ) ≤ intMax := by
    unfold intMax sectorSize at *
    omega
  have hread := OpenFile.readAt_eq h.describes disk into hpos hpos hsum
  refine ⟨_, _, hread, fun k hk => ?_⟩
  have hmoved : OpenFile.moved size size 0 = size := by simp [OpenFile.moved]
  rw [bcopy, hmoved, if_pos ⟨Nat.zero_le _, by omega⟩, Nat.sub_zero, Nat.zero_add,
    content_singleton (hk.trans_le hsize)]

theorem writeAt_singleton (h : file.hdr.Holds size [sector]) (hpos : 0 < size)
    (hsize : size ≤ sectorSize) (disk : Disk) (heap source : Bytes) :
    ∃ n disk', file.writeAt disk heap source size 0 = .ok (n, disk') ∧
      (∀ other, other ≠ sector → disk' other = disk other) ∧
      ∀ k < size, Sector.bytes (disk' sector) k = source k := by
  have hsum : ((0 + size : ℕ) : ℤ) ≤ intMax := by
    unfold intMax sectorSize at *
    omega
  have hinj := h.sectorMap_inj (List.nodup_singleton sector)
  obtain ⟨disk', hwrite, hother, hcontent⟩ :=
    OpenFile.writeAt_spec h.describes hinj disk heap source hpos hpos hsum
  refine ⟨_, disk', hwrite, fun other hne => hother other fun i hi => ?_, fun k hk => ?_⟩
  · have hi : i < [sector].length := h.length ▸ FileHeader.lt_divRoundUp.mpr hi
    have hmem := FileHeader.sectorMap_mem hi
    rw [List.mem_singleton.mp hmem]
    exact hne.symm
  · have hmoved : OpenFile.moved size size 0 = size := by simp [OpenFile.moved]
    rw [← content_singleton (hk.trans_le hsize), hcontent k hk, hmoved,
      if_pos ⟨Nat.zero_le _, by omega⟩, Nat.sub_zero]

end OneSector

/-! ### Reading and writing the two files -/

variable {s : FileSystem} {file : OpenFile}

theorem fetchDirectory_eq (h : s.Formatted) (g : Garbage) :
    s.fetchDirectory g = .ok (directoryAt s.disk) := by
  obtain ⟨n, bytes, hread, hbytes⟩ := readAt_singleton h.directoryFile (by decide) (by decide)
    s.disk (Directory.create g.table).toBytes
  rw [fetchDirectory, Directory.fetchFrom]
  rw [show ((numDirEntries * DirectoryEntry.size : ℕ) : ℤ) = ((200 : ℕ) : ℤ) from rfl, hread]
  exact congrArg Except.ok (Directory.ofBytes_congr hbytes)

theorem fetchFreeMap_eq (h : s.Formatted) (g : Garbage) :
    s.fetchFreeMap g = .ok (freeMapAt s.disk) := by
  obtain ⟨n, bytes, hread, hbytes⟩ := readAt_singleton h.freeMapFile (by decide) (by decide)
    s.disk (BitMap.create g.words).toBytes
  rw [fetchFreeMap, BitMap.fetchFrom]
  rw [show ((BitMap.numWords Disk.numSectors * 4 : ℕ) : ℤ) = ((128 : ℕ) : ℤ) from rfl, hread]
  exact congrArg Except.ok (BitMap.ofBytes_congr hbytes)

theorem writeBack_directory (h : file.hdr.Holds 200 [directoryData]) (disk : Disk) (heap : Bytes)
    (directory : Directory numDirEntries) :
    ∃ disk', directory.writeBack disk file heap = .ok disk' ∧
      (∀ other, other ≠ directoryData → disk' other = disk other) ∧
      directoryAt disk' = directory := by
  obtain ⟨n, disk', hwrite, hother, hbytes⟩ :=
    writeAt_singleton h (by decide) (by decide) disk heap directory.toBytes
  refine ⟨disk', ?_, hother, Directory.ofBytes_eq hbytes⟩
  rw [Directory.writeBack,
    show ((numDirEntries * DirectoryEntry.size : ℕ) : ℤ) = ((200 : ℕ) : ℤ) from rfl, hwrite,
    map_ok]

theorem writeBack_freeMap (h : file.hdr.Holds 128 [freeMapData]) (disk : Disk) (heap : Bytes)
    (freeMap : BitMap Disk.numSectors) :
    ∃ disk', freeMap.writeBack disk file heap = .ok disk' ∧
      (∀ other, other ≠ freeMapData → disk' other = disk other) ∧ freeMapAt disk' = freeMap := by
  obtain ⟨n, disk', hwrite, hother, hbytes⟩ :=
    writeAt_singleton h (by decide) (by decide) disk heap freeMap.toBytes
  refine ⟨disk', ?_, hother, BitMap.ofBytes_eq hbytes⟩
  rw [BitMap.writeBack,
    show ((BitMap.numWords Disk.numSectors * 4 : ℕ) : ℤ) = ((128 : ℕ) : ℤ) from rfl, hwrite,
    map_ok]

theorem headerAt_congr {disk disk' : Disk} {sector : Fin Disk.numSectors}
    (h : disk' sector = disk sector) : headerAt disk' sector = headerAt disk sector := by
  rw [headerAt, headerAt, h]

theorem directoryAt_congr {disk disk' : Disk} (h : disk' directoryData = disk directoryData) :
    directoryAt disk' = directoryAt disk := by
  rw [directoryAt, directoryAt, h]

theorem freeMapAt_congr {disk disk' : Disk} (h : disk' freeMapData = disk freeMapData) :
    freeMapAt disk' = freeMapAt disk := by
  rw [freeMapAt, freeMapAt, h]

/-! ### Create -/

/-- The reasons for which `Create` fails: the name is there, there is no sector for the
header, the directory is full, or there are not enough sectors for the data besides the one
for the header. -/
inductive CannotCreate (disk : Disk) (name : Bytes) (size : ℕ) : Prop
  | present (i : Fin numDirEntries) (h : ((directoryAt disk).table i).isNamed name = true)
  | noHeader (h : ∀ sector, (freeMapAt disk).test sector = true)
  | noEntry (h : ∀ i, ((directoryAt disk).table i).inUse ≠ 0#8)
  | noSpace (h : (freeMapAt disk).numClear < 1 + divRoundUp size sectorSize)

/-- What a successful `Create` does: entry `i` gets the name and the header in `sector`, and
the data go to the sectors of the list. -/
structure Created (disk disk' : Disk) (name : Bytes) (size : ℕ) (i : Fin numDirEntries)
    (sector : Fin Disk.numSectors) (found : List (Fin Disk.numSectors)) : Prop where
  absent : ∀ j, ((directoryAt disk).table j).isNamed name = false
  free : ((directoryAt disk).table i).inUse = 0#8
  clear : (freeMapAt disk).test sector = false
  first : ∀ j < sector, (freeMapAt disk).test j = true
  least : ∀ x ∈ found, ∀ j < x, (freeMapAt disk).test j = true ∨ j ∈ sector :: found
  dataClear : ∀ x ∈ found, (freeMapAt disk).test x = false ∧ x ≠ sector
  nodup : found.Nodup
  header : sector ≠ freeMapData → sector ≠ directoryData → (headerAt disk' sector).Holds size found
  directory : directoryAt disk' =
    (directoryAt disk).set i (Directory.newEntry ((directoryAt disk).table i) name sector)
  freeMap : ∀ x, (freeMapAt disk').test x =
    ((freeMapAt disk).test x || decide (x ∈ sector :: found))
  other : ∀ x, x ≠ sector → x ≠ freeMapData → x ≠ directoryData → disk' x = disk x

inductive CreateSpec (s : FileSystem) (name : Bytes) (size : ℕ) : Bool × FileSystem → Prop
  | failed (h : CannotCreate s.disk name size) : CreateSpec s name size (false, s)
  | created (disk' : Disk) (i : Fin numDirEntries) (sector : Fin Disk.numSectors)
      (found : List (Fin Disk.numSectors)) (hcan : ¬ CannotCreate s.disk name size)
      (h : Created s.disk disk' name size i sector found) :
      CreateSpec s name size (true, { s with disk := disk' })

theorem find_of_findIndex_none {directory : Directory numDirEntries} {name : Bytes}
    (h : directory.findIndex name = none) : directory.find name = -1 := by
  rw [Directory.find, h]

/-- The three structures are written back, the header first. -/
theorem writeBack_all (h : s.Formatted) (g : Garbage) (hdr : FileHeader)
    (sector : Fin Disk.numSectors) (directory : Directory numDirEntries)
    (freeMap : BitMap Disk.numSectors) :
    ∃ disk', (do
        let disk ← hdr.writeBack s.disk (sector : ℕ)
        let disk ← directory.writeBack disk s.directoryFile (g.buffer 0)
        let disk ← freeMap.writeBack disk s.freeMapFile (g.buffer 1)
        return (true, { s with disk := disk }) : Except Stop (Bool × FileSystem)) =
          .ok (true, { s with disk := disk' }) ∧
      directoryAt disk' = directory ∧ freeMapAt disk' = freeMap ∧
      (sector ≠ freeMapData → sector ≠ directoryData → headerAt disk' sector = hdr) ∧
      ∀ x, x ≠ sector → x ≠ freeMapData → x ≠ directoryData → disk' x = s.disk x := by
  obtain ⟨disk₂, hdirectory, hother₂, hdirectoryAt⟩ := writeBack_directory h.directoryFile
    (Function.update s.disk sector hdr.toSector) (g.buffer 0) directory
  obtain ⟨disk₃, hfreeMap, hother₃, hfreeMapAt⟩ := writeBack_freeMap h.freeMapFile disk₂
    (g.buffer 1) freeMap
  refine ⟨disk₃, ?_, ?_, hfreeMapAt, fun hmap hdir => ?_, fun x hx hmap hdir => ?_⟩
  · rw [FileHeader.writeBack, Disk.writeSector_coe, ok_bind, hdirectory, ok_bind, hfreeMap]
    rfl
  · rw [directoryAt_congr (hother₃ directoryData (by decide)), hdirectoryAt]
  · rw [headerAt, hother₃ sector hmap, hother₂ sector hdir, Function.update_self,
      FileHeader.ofSector_toSector]
  · rw [hother₃ x hmap, hother₂ x hdir, Function.update_of_ne hx]

theorem create_of_present (h : s.Formatted) (g : Garbage) {name : Bytes} {size : ℤ}
    {i : Fin numDirEntries} (hindex : (directoryAt s.disk).findIndex name = some i) :
    s.create g name size = .ok (false, s) := by
  rw [create, fetchDirectory_eq h, ok_bind]
  split
  · rfl
  -- the sector of the entry reads as `-1`, and then `Add` finds the name
  rw [fetchFreeMap_eq h, ok_bind]
  generalize (freeMapAt s.disk).find = r
  obtain ⟨sector, freeMap⟩ := r
  dsimp only
  split
  · rfl
  · rw [Directory.add, hindex]
    rfl

theorem canCreate {disk : Disk} {name : Bytes} {size : ℕ} {i : Fin numDirEntries}
    {sector : Fin Disk.numSectors}
    (habsent : ∀ j, ((directoryAt disk).table j).isNamed name = false)
    (hfree : ((directoryAt disk).table i).inUse = 0#8)
    (hclear : (freeMapAt disk).test sector = false)
    (hroom : 1 + divRoundUp size sectorSize ≤ (freeMapAt disk).numClear) :
    ¬ CannotCreate disk name size := by
  rintro (⟨j, hj⟩ | hfull | hused | hfew)
  · simp [habsent j] at hj
  · simp [hfull sector] at hclear
  · exact hused i hfree
  · omega

/-- With nothing but the fixed sectors marked, the other 1020 are clear. -/
theorem numClear_of_fixed {disk : Disk}
    (hfreeMap : ∀ x, (freeMapAt disk).test x = decide (x.val < 4)) :
    1020 ≤ (freeMapAt disk).numClear := by
  have hsub : Finset.Ici (⟨4, by decide⟩ : Fin Disk.numSectors) ⊆ (freeMapAt disk).clearBits := by
    intro x hx
    have hle : (⟨4, by decide⟩ : Fin Disk.numSectors) ≤ x := Finset.mem_Ici.mp hx
    rw [BitMap.mem_clearBits, hfreeMap, decide_eq_false_iff_not, not_lt]
    exact hle
  have hcard := Finset.card_le_card hsub
  rwa [Fin.card_Ici, ← BitMap.numClear_eq_card] at hcard

/-- With an empty directory and nothing but the fixed sectors marked, a file of two sectors
can be created. -/
theorem not_cannotCreate {disk : Disk}
    (hentries : ∀ i, ((directoryAt disk).table i).inUse = 0#8)
    (hfreeMap : ∀ x, (freeMapAt disk).test x = decide (x.val < 4)) (name : Bytes) {size : ℕ}
    (hsize : divRoundUp size sectorSize ≤ 2) : ¬ CannotCreate disk name size := by
  have hclear : (freeMapAt disk).test ⟨4, by decide⟩ = false := by
    rw [hfreeMap]
    rfl
  have habsent : ∀ i, ((directoryAt disk).table i).isNamed name = false := by
    intro i
    rw [Bool.eq_false_iff]
    intro hnamed
    exact ((DirectoryEntry.isNamed_iff _ _).mp hnamed).1 (hentries i)
  have hroom := numClear_of_fixed hfreeMap
  exact canCreate habsent (hentries ⟨0, by decide⟩) hclear (by omega)

/-- The header has its sector before the data get theirs. -/
theorem Created.of_mark {disk disk' : Disk} {name : Bytes} {size : ℕ} {i : Fin numDirEntries}
    {sector : Fin Disk.numSectors} {found : List (Fin Disk.numSectors)}
    (habsent : ∀ j, ((directoryAt disk).table j).isNamed name = false)
    (hfree : ((directoryAt disk).table i).inUse = 0#8)
    (hclear : (freeMapAt disk).test sector = false)
    (hleast : ∀ j < sector, (freeMapAt disk).test j = true)
    (hnodup : found.Nodup)
    (hdata : ∀ x ∈ found, ((freeMapAt disk).mark sector).test x = false)
    (hfirst : ∀ x ∈ found, ∀ j < x, ((freeMapAt disk).mark sector).test j = true ∨ j ∈ found)
    (hheader : sector ≠ freeMapData → sector ≠ directoryData →
      (headerAt disk' sector).Holds size found)
    (hdirectory : directoryAt disk' =
      (directoryAt disk).set i (Directory.newEntry ((directoryAt disk).table i) name sector))
    (hfreeMap : ∀ x, (freeMapAt disk').test x =
      (((freeMapAt disk).mark sector).test x || decide (x ∈ found)))
    (hother : ∀ x, x ≠ sector → x ≠ freeMapData → x ≠ directoryData → disk' x = disk x) :
    Created disk disk' name size i sector found where
  absent := habsent
  free := hfree
  clear := hclear
  first := hleast
  least := by
    intro x hx j hj
    have hmarked := hfirst x hx j hj
    rw [BitMap.test_mark, Bool.or_eq_true, decide_eq_true_iff] at hmarked
    rcases hmarked with (heq | hset) | hmem
    · exact .inr (List.mem_cons.mpr (.inl heq.symm))
    · exact .inl hset
    · exact .inr (List.mem_cons_of_mem _ hmem)
  dataClear := by
    intro x hx
    have hunmarked := hdata x hx
    rw [BitMap.test_mark, Bool.or_eq_false_iff, decide_eq_false_iff_not] at hunmarked
    exact ⟨hunmarked.2, Ne.symm hunmarked.1⟩
  nodup := hnodup
  header := hheader
  directory := hdirectory
  freeMap := by
    intro x
    rw [hfreeMap, BitMap.test_mark, Bool.or_comm (decide _), Bool.or_assoc, ← Bool.decide_or]
    simp only [List.mem_cons, eq_comm]
  other := hother

/-- The entry of a new file has its name. -/
theorem Created.named {disk disk' : Disk} {name : Bytes} {size : ℕ} {i : Fin numDirEntries}
    {sector : Fin Disk.numSectors} {found : List (Fin Disk.numSectors)}
    (h : Created disk disk' name size i sector found) :
    ((directoryAt disk').table i).isNamed name = true := by
  rw [h.directory, Directory.table_set, Function.update_self, DirectoryEntry.isNamed_iff]
  exact ⟨by simp [Directory.newEntry], DirectoryEntry.key_newEntry _ _ _⟩

/-- A file takes one sector more than its data. -/
theorem Created.numClear_le {disk disk' : Disk} {name : Bytes} {size : ℕ} {i : Fin numDirEntries}
    {sector : Fin Disk.numSectors} {found : List (Fin Disk.numSectors)}
    (h : Created disk disk' name size i sector found) :
    (freeMapAt disk).numClear ≤ (freeMapAt disk').numClear + (1 + found.length) := by
  have hclear : (freeMapAt disk').clearBits =
      (freeMapAt disk).clearBits \ (sector :: found).toFinset := by
    ext x
    rw [BitMap.mem_clearBits, h.freeMap, Finset.mem_sdiff, BitMap.mem_clearBits, List.mem_toFinset,
      Bool.or_eq_false_iff, decide_eq_false_iff_not]
  have hcard := Finset.le_card_sdiff (sector :: found).toFinset (freeMapAt disk).clearBits
  have hlength := List.toFinset_card_le (sector :: found)
  rw [← hclear, ← BitMap.numClear_eq_card, ← BitMap.numClear_eq_card] at hcard
  rw [List.length_cons] at hlength
  omega

theorem create_spec (h : s.Formatted) (g : Garbage) (name : Bytes) {size : ℕ}
    (hsize : size ≤ maxFileSize) :
    ∃ result, s.create g name size = .ok result ∧ CreateSpec s name size result := by
  cases hindex : (directoryAt s.disk).findIndex name with
  | some i =>
      have hfailed : CannotCreate s.disk name size :=
        .present i (Directory.isNamed_of_findIndex hindex)
      exact ⟨(false, s), create_of_present h g hindex, .failed hfailed⟩
  | none =>
      have habsent := Directory.findIndex_eq_none_iff.mp hindex
      rw [create, fetchDirectory_eq h, ok_bind,
        if_neg (not_not.mpr (find_of_findIndex_none hindex)), fetchFreeMap_eq h, ok_bind]
      have hfind := (freeMapAt s.disk).find_spec
      generalize (freeMapAt s.disk).find = r at hfind
      cases hfind with
      | full hfull => exact ⟨_, rfl, .failed (.noHeader hfull)⟩
      | found sector hclear hleast =>
          dsimp only
          rw [if_neg (by omega), Directory.add, hindex]
          cases hfree : (directoryAt s.disk).freeIndex with
          | none =>
              exact ⟨_, rfl, .failed (.noEntry (Directory.freeIndex_eq_none_iff.mp hfree))⟩
          | some i =>
              dsimp only
              rw [if_neg (by decide)]
              have hunused := Directory.inUse_of_freeIndex hfree
              obtain ⟨result, hallocate, hspec⟩ :=
                FileHeader.allocate_spec (g.header 0) ((freeMapAt s.disk).mark sector) hsize
              have hcount := BitMap.numClear_mark _ sector hclear
              rw [hallocate, ok_bind]
              cases hspec with
              | full hdr hroom => exact ⟨_, rfl, .failed (.noSpace (by omega))⟩
              | allocated hdr freeMap' found hroom hholds hnodup hdata hfirst htest =>
                  dsimp only
                  rw [if_neg (by decide)]
                  obtain ⟨disk', hwrite, hdir, hmap, hheader, hother⟩ := writeBack_all h g hdr
                    sector ((directoryAt s.disk).set i (Directory.newEntry
                      ((directoryAt s.disk).table i) name sector)) freeMap'
                  have hcan : ¬ CannotCreate s.disk name size :=
                    canCreate habsent hunused hclear (by omega)
                  have hholds' : sector ≠ freeMapData → sector ≠ directoryData →
                      (headerAt disk' sector).Holds size found := by
                    intro hm hd
                    rw [hheader hm hd]
                    exact hholds
                  have hcreated : Created s.disk disk' name size i sector found :=
                    .of_mark habsent hunused hclear hleast hnodup hdata hfirst hholds' hdir
                      (fun x => by rw [hmap, htest]) hother
                  exact ⟨_, hwrite, .created disk' i sector found hcan hcreated⟩

theorem remove_of_absent (h : s.Formatted) (g : Garbage) {name : Bytes}
    (hindex : (directoryAt s.disk).findIndex name = none) :
    s.remove g name = .ok (false, s) := by
  rw [remove, fetchDirectory_eq h, ok_bind, if_pos (find_of_findIndex_none hindex)]
  rfl

/-! ### Formatting -/

/-- What formatting leaves: an empty directory, and the fixed sectors marked. -/
structure Fresh (s : FileSystem) : Prop where
  formatted : s.Formatted
  freeMapHeader : headerAt s.disk freeMapHeader = s.freeMapFile.hdr
  directoryHeader : headerAt s.disk directoryHeader = s.directoryFile.hdr
  entries : ∀ i, ((directoryAt s.disk).table i).inUse = 0#8
  freeMap : ∀ x, (freeMapAt s.disk).test x = decide (x.val < 4)
  handles : s.handles = []
  stop : s.stop = none

theorem openFile_create (disk : Disk) (sector : Fin Disk.numSectors) :
    OpenFile.create disk (sector : ℕ) = .ok ⟨headerAt disk sector, 0⟩ := by
  rw [OpenFile.create, FileHeader.fetchFrom, Disk.readSector_coe]
  rfl

theorem mustAllocate_one (hdr : FileHeader) {freeMap : BitMap Disk.numSectors} {size : ℕ}
    (hone : divRoundUp size sectorSize = 1) (hsize : size ≤ maxFileSize)
    {sector : Fin Disk.numSectors} (hclear : freeMap.test sector = false)
    (hleast : ∀ j < sector, freeMap.test j = true) :
    ∃ hdr', mustAllocate hdr freeMap size = .ok (hdr', freeMap.mark sector) ∧
      hdr'.Holds size [sector] := by
  obtain ⟨hdr', hallocate, hholds⟩ := hdr.allocate_one hone hsize hclear hleast
  refine ⟨hdr', ?_, hholds⟩
  rw [mustAllocate, hallocate]
  rfl

theorem test_mark_below (sector : Fin Disk.numSectors) {b : BitMap Disk.numSectors}
    (h : ∀ x, b.test x = decide (x.val < sector.val)) (x : Fin Disk.numSectors) :
    (b.mark sector).test x = decide (x.val < sector.val + 1) := by
  rw [BitMap.test_mark, h, ← Bool.decide_or]
  exact decide_eq_decide.mpr (by rw [Fin.ext_iff]; omega)

/-- In a map in which the sectors below `sector` are marked, `sector` is the first clear
one. -/
theorem mustAllocate_below (hdr : FileHeader) (size : ℕ) (sector : Fin Disk.numSectors)
    {freeMap : BitMap Disk.numSectors} (hone : divRoundUp size sectorSize = 1)
    (hsize : size ≤ maxFileSize) (h : ∀ x, freeMap.test x = decide (x.val < sector.val)) :
    ∃ hdr', mustAllocate hdr freeMap size = .ok (hdr', freeMap.mark sector) ∧
      hdr'.Holds size [sector] := by
  refine mustAllocate_one hdr hone hsize ?_ fun j hj => ?_
  · simp [h]
  · simpa [h] using hj

theorem format_spec (g : Garbage) (disk : Disk) : ∃ s, format g disk = .ok s ∧ s.Fresh := by
  -- the four marks, one after the other
  have htest₁ := test_mark_below freeMapHeader fun x =>
    (BitMap.test_create g.words x).trans (decide_eq_false (Nat.not_lt_zero _)).symm
  have htest₂ := test_mark_below directoryHeader htest₁
  have htest₃ := test_mark_below freeMapData htest₂
  have htest₄ := test_mark_below directoryData htest₃
  obtain ⟨mapHdr, hmap, hmapHolds⟩ :=
    mustAllocate_below (g.header 0) 128 freeMapData (by decide) (by decide) htest₂
  obtain ⟨dirHdr, hdir, hdirHolds⟩ :=
    mustAllocate_below (g.header 1) 200 directoryData (by decide) (by decide) htest₃
  generalize ((((BitMap.create g.words).mark freeMapHeader).mark directoryHeader).mark
    freeMapData).mark directoryData = freeMap at hdir htest₄
  obtain ⟨disk₂, hdisk₂⟩ : ∃ disk₂, disk₂ = Function.update
      (Function.update disk freeMapHeader mapHdr.toSector) directoryHeader dirHdr.toSector :=
    ⟨_, rfl⟩
  have hmapAt : headerAt disk₂ freeMapHeader = mapHdr := by
    rw [headerAt, hdisk₂, Function.update_of_ne (by decide), Function.update_self,
      FileHeader.ofSector_toSector]
  have hdirAt : headerAt disk₂ directoryHeader = dirHdr := by
    rw [headerAt, hdisk₂, Function.update_self, FileHeader.ofSector_toSector]
  have hmapFile : (OpenFile.mk (headerAt disk₂ freeMapHeader) 0).hdr.Holds 128 [freeMapData] :=
    hmapAt ▸ hmapHolds
  have hdirFile : (OpenFile.mk (headerAt disk₂ directoryHeader) 0).hdr.Holds 200
      [directoryData] := hdirAt ▸ hdirHolds
  obtain ⟨disk₃, hwrite₃, hother₃, hfreeMapAt⟩ := writeBack_freeMap hmapFile disk₂ (g.buffer 0)
    freeMap
  obtain ⟨disk₄, hwrite₄, hother₄, hdirectoryAt⟩ := writeBack_directory hdirFile disk₃
    (g.buffer 1) (Directory.create g.table)
  refine ⟨⟨disk₄, ⟨headerAt disk₂ freeMapHeader, 0⟩, ⟨headerAt disk₂ directoryHeader, 0⟩, [],
    none⟩, ?_, ⟨⟨hmapFile, hdirFile⟩, ?_, ?_, fun i => ?_, fun x => ?_, rfl, rfl⟩⟩
  · have hsector₀ : Disk.sector freeMapSector = .ok freeMapHeader := rfl
    have hsector₁ : Disk.sector directorySector = .ok directoryHeader := rfl
    have hheader₀ : mapHdr.writeBack disk freeMapSector =
        .ok (Function.update disk freeMapHeader mapHdr.toSector) := rfl
    have hheader₁ : dirHdr.writeBack (Function.update disk freeMapHeader mapHdr.toSector)
        directorySector = .ok disk₂ := by
      rw [hdisk₂]
      rfl
    have hopen₀ : OpenFile.create disk₂ freeMapSector =
        .ok ⟨headerAt disk₂ freeMapHeader, 0⟩ := rfl
    have hopen₁ : OpenFile.create disk₂ directorySector =
        .ok ⟨headerAt disk₂ directoryHeader, 0⟩ := rfl
    rw [format, hsector₀, ok_bind, hsector₁, ok_bind,
      show freeMapFileSize = ((128 : ℕ) : ℤ) from rfl,
      show directoryFileSize = ((200 : ℕ) : ℤ) from rfl]
    dsimp only
    rw [hmap, ok_bind]
    dsimp only
    rw [hdir, ok_bind]
    dsimp only
    rw [hheader₀, ok_bind, hheader₁, ok_bind, hopen₀, ok_bind, hopen₁, ok_bind, hwrite₃, ok_bind,
      hwrite₄]
    rfl
  · rw [headerAt_congr (hother₄ _ (by decide)), headerAt_congr (hother₃ _ (by decide))]
  · rw [headerAt_congr (hother₄ _ (by decide)), headerAt_congr (hother₃ _ (by decide))]
  · rw [hdirectoryAt]
    rfl
  · rw [freeMapAt_congr (hother₄ _ (by decide)), hfreeMapAt]
    exact htest₄ x

theorem mount_formatted {disk : Disk} (hmap : (headerAt disk freeMapHeader).Holds 128 [freeMapData])
    (hdir : (headerAt disk directoryHeader).Holds 200 [directoryData]) :
    ∃ s, mount disk = .ok s ∧ s.disk = disk ∧ s.Formatted :=
  ⟨⟨disk, ⟨headerAt disk freeMapHeader, 0⟩, ⟨headerAt disk directoryHeader, 0⟩, [], none⟩, rfl, rfl,
    hmap, hdir⟩

/-! ### Operations that fail -/

theorem eq_of_create_false {s' : FileSystem} {g : Garbage} {name : Bytes} {size : ℤ}
    (h : s.create g name size = .ok (false, s')) : s' = s := by
  rw [create] at h
  obtain ⟨directory, -, h⟩ := except_bind_eq_ok.mp h
  split at h
  · cases h
    rfl
  obtain ⟨freeMap, -, h⟩ := except_bind_eq_ok.mp h
  dsimp only at h
  split at h
  · cases h
    rfl
  split at h
  · cases h
    rfl
  obtain ⟨⟨allocated, hdr, freeMap'⟩, -, h⟩ := except_bind_eq_ok.mp h
  dsimp only at h
  split at h
  · cases h
    rfl
  -- every structure is written back, and the call succeeds
  obtain ⟨disk₁, -, h⟩ := except_bind_eq_ok.mp h
  obtain ⟨disk₂, -, h⟩ := except_bind_eq_ok.mp h
  obtain ⟨disk₃, -, h⟩ := except_bind_eq_ok.mp h
  cases h

theorem eq_of_remove_false {s' : FileSystem} {g : Garbage} {name : Bytes}
    (h : s.remove g name = .ok (false, s')) : s' = s := by
  rw [remove] at h
  obtain ⟨directory, -, h⟩ := except_bind_eq_ok.mp h
  dsimp only at h
  split at h
  · cases h
    rfl
  obtain ⟨fileHdr, -, h⟩ := except_bind_eq_ok.mp h
  obtain ⟨freeMap, -, h⟩ := except_bind_eq_ok.mp h
  obtain ⟨freeMap', -, h⟩ := except_bind_eq_ok.mp h
  obtain ⟨which, -, h⟩ := except_bind_eq_ok.mp h
  obtain ⟨disk₁, -, h⟩ := except_bind_eq_ok.mp h
  obtain ⟨disk₂, -, h⟩ := except_bind_eq_ok.mp h
  cases h

/-- Objects made by `new` whose memory happens to be zero. -/
def Garbage.zero : Garbage where
  header _ := ⟨0#32, 0#32, fun _ => 0#32⟩
  table _ := ⟨0#8, 0#32, fun _ => 0#8, fun _ => 0#8⟩
  words := .replicate _ 0#32
  buffer _ _ := 0#8

def oneLetter (c : Byte) : Bytes :=
  fun k => if k = 0 then c else 0#8

theorem failed_operations_change_nothing (h : s.Formatted) (g : Garbage) (name : Bytes) :
    (∀ size s', s.create g name size = .ok (false, s') → s'.disk = s.disk) ∧
    (∀ s', s.remove g name = .ok (false, s') → s'.disk = s.disk) ∧
    ∀ size : ℕ, size ≤ maxFileSize → ∃ success s', s.create g name size = .ok (success, s') ∧
      (success = false ↔ CannotCreate s.disk name size) := by
  refine ⟨fun size s' hcreate => ?_, fun s' hremove => ?_, fun size hsize => ?_⟩
  · rw [eq_of_create_false hcreate]
  · rw [eq_of_remove_false hremove]
  · obtain ⟨result, hcreate, hspec⟩ := create_spec h g name hsize
    cases hspec with
    | failed hcannot => exact ⟨false, s, hcreate, fun _ => hcannot, fun _ => rfl⟩
    | created disk' i sector found hcan _ =>
        exact ⟨true, _, hcreate, nofun, fun hcannot => absurd hcannot hcan⟩

/-- On a new disk `a` is created; then `a` cannot be created again, and there is no `b` to
remove. -/
theorem failed_operations_change_nothing_formatted :
    ∃ s s₁, format .zero (fun _ _ => 0#8) = .ok s ∧
      s.create .zero (oneLetter 97#8) (1000 : ℕ) = .ok (true, s₁) ∧
      (∃ s₂, s₁.create .zero (oneLetter 97#8) (1000 : ℕ) = .ok (false, s₂) ∧
        s₂.disk = s₁.disk) ∧
      ∃ s₂, s₁.remove .zero (oneLetter 98#8) = .ok (false, s₂) ∧ s₂.disk = s₁.disk := by
  obtain ⟨s, hformat, hfresh⟩ := format_spec .zero fun _ _ => 0#8
  obtain ⟨result, hcreate, hspec⟩ := create_spec hfresh.formatted .zero (oneLetter 97#8)
    (show 1000 ≤ maxFileSize by decide)
  have hcan := not_cannotCreate hfresh.entries hfresh.freeMap (oneLetter 97#8)
    (show divRoundUp 1000 sectorSize ≤ 2 by decide)
  cases hspec with
  | failed hfailed => exact absurd hfailed hcan
  | created disk' i sector found _ hcreated =>
      have hformatted : Formatted { s with disk := disk' } :=
        ⟨hfresh.formatted.freeMapFile, hfresh.formatted.directoryFile⟩
      obtain ⟨hcreateKeeps, -, hagain⟩ :=
        failed_operations_change_nothing hformatted .zero (oneLetter 97#8)
      obtain ⟨-, hremoveKeeps, -⟩ :=
        failed_operations_change_nothing hformatted .zero (oneLetter 98#8)
      obtain ⟨success, s₂, hcreate₂, hfails⟩ := hagain 1000 (by decide)
      rw [hfails.mpr (.present i hcreated.named)] at hcreate₂
      have habsent : (directoryAt disk').findIndex (oneLetter 98#8) = none := by
        rw [Directory.findIndex_eq_none_iff]
        intro j
        rw [hcreated.directory, Directory.table_set, Bool.eq_false_iff]
        intro hnamed
        obtain ⟨hused, hkey⟩ := (DirectoryEntry.isNamed_iff _ _).mp hnamed
        by_cases hj : j = i
        · subst hj
          rw [Function.update_self, DirectoryEntry.key_newEntry] at hkey
          revert hkey
          decide
        · rw [Function.update_of_ne hj] at hused
          exact hused (hfresh.entries j)
      have hremove := remove_of_absent hformatted .zero habsent
      exact ⟨s, _, hformat, hcreate, ⟨s₂, hcreate₂, hcreateKeeps _ s₂ hcreate₂⟩, _, hremove,
        hremoveKeeps _ hremove⟩

end Nachos.FileSystem
