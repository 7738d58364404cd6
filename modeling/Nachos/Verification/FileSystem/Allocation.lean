import Nachos.Verification.FileSystem.Steps
import Mathlib.Data.Rat.Floor

/-! # The free map marks the sectors that are in use

The marks are those of the disk, not of a copy in memory. -/

namespace Nachos.FileSystem

open Holdings Runs Tracking

/-! ### The sectors in use -/

/-- The data sectors that the header in `sector` names. -/
def dataSectorsAt (disk : Disk) (sector : ℤ) : List ℤ :=
  match BitMap.index? sector with
  | some x => (headerAt disk x).sectors
  | none => []

/-- The sectors of a directory entry. -/
def entrySectors (disk : Disk) (entry : DirectoryEntry) : List ℤ :=
  if entry.inUse = 0#8 then [] else entry.sector.toInt :: dataSectorsAt disk entry.sector.toInt

/-- The sectors in use: the headers of the bitmap and directory files, their data, and the
sectors of the entries. -/
def sectorsInUse (disk : Disk) : List ℤ :=
  freeMapSector :: directorySector ::
    (dataSectorsAt disk freeMapSector ++ dataSectorsAt disk directorySector) ++
    (List.finRange numDirEntries).flatMap fun i => entrySectors disk ((directoryAt disk).table i)

/-- A header has as many sectors as its bytes need. -/
def RightSize (hdr : FileHeader) : Prop :=
  hdr.numSectors.toInt = ⌈(hdr.numBytes.toInt : ℚ) / sectorSize⌉

/-- The headers of the bitmap and directory files and of the entries in use. -/
inductive IsHeader (disk : Disk) : FileHeader → Prop
  | freeMap : IsHeader disk (headerAt disk freeMapHeader)
  | directory : IsHeader disk (headerAt disk directoryHeader)
  | entry (i : Fin numDirEntries) (x : Fin Disk.numSectors)
      (hused : ((directoryAt disk).table i).inUse ≠ 0#8)
      (hsector : ((directoryAt disk).table i).sector.toInt = x) : IsHeader disk (headerAt disk x)

/-- `directoryAt` and `freeMapAt` are what the code reads from the disk. -/
structure Consistent (s : FileSystem) : Prop where
  fetchFreeMap : ∀ g, s.fetchFreeMap g = .ok (freeMapAt s.disk)
  fetchDirectory : ∀ g, s.fetchDirectory g = .ok (directoryAt s.disk)
  marked : ∀ x : Fin Disk.numSectors,
    (freeMapAt s.disk).test x = true ↔ (x.val : ℤ) ∈ sectorsInUse s.disk
  distinct : (sectorsInUse s.disk).Nodup
  range : ∀ x ∈ sectorsInUse s.disk, 0 ≤ x ∧ x < Disk.numSectors
  sizes : ∀ hdr, IsHeader s.disk hdr → RightSize hdr
  names : ∀ i j name, ((directoryAt s.disk).table i).isNamed name = true →
    ((directoryAt s.disk).table j).isNamed name = true → i = j

variable {s : FileSystem} {files : Files} {disk : Disk}

/-! ### The invariant gives this -/

theorem divRoundUp_eq_ceil (n : ℕ) :
    ((divRoundUp n sectorSize : ℕ) : ℤ) = ⌈(n : ℚ) / sectorSize⌉ := by
  have hpos : (0 : ℚ) < sectorSize := by norm_num [sectorSize]
  have hlow : divRoundUp n sectorSize * sectorSize < n + sectorSize := by
    unfold divRoundUp sectorSize
    split <;> omega
  have hhigh : n ≤ divRoundUp n sectorSize * sectorSize := by
    unfold divRoundUp sectorSize
    split <;> omega
  have hlow : ((divRoundUp n sectorSize : ℕ) : ℚ) * sectorSize < n + sectorSize := by
    exact_mod_cast hlow
  have hhigh : (n : ℚ) ≤ ((divRoundUp n sectorSize : ℕ) : ℚ) * sectorSize := by
    exact_mod_cast hhigh
  symm
  rw [Int.ceil_eq_iff, lt_div_iff₀ hpos, div_le_iff₀ hpos, Int.cast_natCast, sub_mul, one_mul]
  exact ⟨by linarith, hhigh⟩

theorem rightSize_of_holds {hdr : FileHeader} {size : ℕ} {data : List (Fin Disk.numSectors)}
    (h : hdr.Holds size data) : RightSize hdr := by
  rw [RightSize, h.numSectors, h.numBytes]
  exact divRoundUp_eq_ceil size

theorem sectorNumber_injective :
    Function.Injective fun x : Fin Disk.numSectors => (x.val : ℤ) := by
  intro x y hxy
  exact Fin.ext (Int.ofNat.inj hxy)

theorem dataSectorsAt_eq {x : Fin Disk.numSectors} {size : ℕ} {data : List (Fin Disk.numSectors)}
    (h : (headerAt disk x).Holds size data) :
    dataSectorsAt disk (x.val : ℤ) = data.map fun i => (i.val : ℤ) := by
  rw [dataSectorsAt, BitMap.index?_coe]
  exact h.sectors

namespace Inv

theorem entrySectors_eq (h : s.Inv files) (i : Fin numDirEntries) :
    entrySectors s.disk ((directoryAt s.disk).table i) =
      (held files (some i)).map fun x => (x.val : ℤ) := by
  cases hfile : files i with
  | none =>
      have hentry := h.entries i
      rw [hfile] at hentry
      cases hentry with
      | free hfree => rw [entrySectors, if_pos hfree, held, hfile]; rfl
  | some file =>
      obtain ⟨hused, hsector, hholds⟩ := h.entry hfile
      rw [entrySectors, if_neg hused, hsector, dataSectorsAt_eq hholds, held_some hfile,
        List.map_cons]

theorem sectorsInUse_eq (h : s.Inv files) :
    sectorsInUse s.disk = (held files none ++
      (List.finRange numDirEntries).flatMap fun i => held files (some i)).map
        fun x => (x.val : ℤ) := by
  have hmap : (headerAt s.disk FileSystem.freeMapHeader).Holds 128 [freeMapData] := by
    rw [h.freeMapHeader]
    exact h.formatted.freeMapFile
  have hdir : (headerAt s.disk FileSystem.directoryHeader).Holds 200 [directoryData] := by
    rw [h.directoryHeader]
    exact h.formatted.directoryFile
  rw [sectorsInUse, show freeMapSector = (FileSystem.freeMapHeader.val : ℤ) from rfl,
    show directorySector = (FileSystem.directoryHeader.val : ℤ) from rfl, dataSectorsAt_eq hmap,
    dataSectorsAt_eq hdir, List.map_append, List.map_flatMap]
  congr 1
  exact List.flatMap_congr fun i _ => h.entrySectors_eq i

theorem consistent (h : s.Inv files) : s.Consistent where
  fetchFreeMap := fetchFreeMap_eq h.formatted
  fetchDirectory := fetchDirectory_eq h.formatted
  marked x := by
    rw [h.sectorsInUse_eq, List.mem_map_of_injective sectorNumber_injective, h.exact.marked,
      List.mem_append, List.mem_flatMap, Option.exists]
    simp only [List.mem_finRange, true_and]
  distinct := by
    rw [h.sectorsInUse_eq]
    refine List.Nodup.map sectorNumber_injective ?_
    refine List.Nodup.append (h.exact.nodup none) ?_ fun x hnone hx => ?_
    · refine List.nodup_flatMap.mpr ⟨fun i _ => h.exact.nodup (some i), ?_⟩
      refine (List.nodup_finRange _).imp ?_
      intro i j hne
      exact h.exact.disjoint _ _ (by simpa using hne)
    · obtain ⟨i, -, hi⟩ := List.mem_flatMap.mp hx
      cases h.exact.owner_unique hnone hi
  range x hx := by
    rw [h.sectorsInUse_eq] at hx
    obtain ⟨y, -, rfl⟩ := List.mem_map.mp hx
    exact ⟨Int.natCast_nonneg _, by exact_mod_cast y.isLt⟩
  sizes hdr hhdr := by
    cases hhdr with
    | freeMap => exact rightSize_of_holds (h.freeMapHeader ▸ h.formatted.freeMapFile)
    | directory => exact rightSize_of_holds (h.directoryHeader ▸ h.formatted.directoryFile)
    | entry i x hused hsector =>
        obtain ⟨file, -, hsector', hholds⟩ := (h.entries i).some_of_inUse hused
        have hx : x = file.sector := Fin.ext (by exact_mod_cast hsector.symm.trans hsector')
        rw [hx]
        exact rightSize_of_holds hholds
  names i j name hi hj := by
    obtain ⟨hused, hkey⟩ := (DirectoryEntry.isNamed_iff _ _).mp hi
    obtain ⟨hused', hkey'⟩ := (DirectoryEntry.isNamed_iff _ _).mp hj
    exact h.names i j hused hused' (hkey.trans hkey'.symm)

end Inv

/-! ### Whole runs -/

theorem Fresh.inv (h : s.Fresh) : s.Inv fun _ => none where
  formatted := h.formatted
  freeMapHeader := h.freeMapHeader
  directoryHeader := h.directoryHeader
  entries i := .free (h.entries i)
  exact := by
    refine ⟨fun owner => ?_, fun owner owner' hne => ?_, fun x => ?_⟩
    · cases owner with
      | none => decide
      | some i => exact List.nodup_nil
    · cases owner with
      | none =>
          cases owner' with
          | none => exact absurd rfl hne
          | some i => exact List.disjoint_nil_right _
      | some i => exact List.disjoint_nil_left _
    · rw [h.freeMap, decide_eq_true_iff, Option.exists]
      simp only [held, Option.elim_none, List.not_mem_nil, exists_false, or_false, List.mem_cons,
        Fin.ext_iff, FileSystem.freeMapHeader, FileSystem.directoryHeader, freeMapData,
        directoryData]
      omega
  names i j hused := absurd (h.entries i) hused
  headers := by simp [h.handles]
  handles := by simp [h.handles]
  stop := h.stop

/-- The sizes are those that a header can describe, and the handles used are of files that
have not been removed. -/
def InDomain (s : FileSystem) : Label → Prop
  | .create _ _ initialSize => 0 ≤ initialSize ∧ initialSize ≤ maxFileSize
  | .openFile _ _ | .remove _ _ | .seek _ _ => True
  | .readAt k _ _ _ | .writeAt k _ _ _ _ | .read k _ _ | .write k _ _ _ =>
      ∀ handle, s.handles[k]? = some handle → handle.removed = false

/-- A request has nothing to do, or it is at a position in the file, and its end is an
`int`. -/
def RequestInRange (s : FileSystem) : Label → Prop
  | .create _ _ _ | .openFile _ _ | .remove _ _ | .seek _ _ => True
  | .readAt k _ numBytes position | .writeAt k _ _ numBytes position =>
      ∀ handle, s.handles[k]? = some handle → handle.file.InRange numBytes position
  | .read k _ numBytes | .write k _ _ numBytes =>
      ∀ handle, s.handles[k]? = some handle →
        handle.file.InRange numBytes handle.file.seekPosition

theorem Admitted.of_inDomain {label : Label} (hdomain : s.InDomain label)
    (hrange : s.RequestInRange label) : s.Admitted label := by
  cases label with
  | create g name size => exact hdomain
  | openFile g name => trivial
  | remove g name => trivial
  | seek k position => trivial
  | readAt k into numBytes position => exact hrange
  | read k into numBytes => exact hrange
  | writeAt k heap source numBytes position =>
      exact fun handle hget => ⟨hrange handle hget, .inl (hdomain handle hget)⟩
  | write k heap source numBytes =>
      exact fun handle hget => ⟨hrange handle hget, .inl (hdomain handle hget)⟩

theorem allStates_inv {labels : List Label} (hinv : ∃ files, s.Inv files)
    (hsteps : AllSteps step Admitted s labels) :
    AllStates step (fun s => ∃ files, s.Inv files) s labels := by
  refine allStates_of_allSteps ?_ hinv hsteps
  rintro s label s' hadmitted hstep ⟨files, h⟩
  obtain ⟨files', hspec⟩ := h.step hadmitted hstep
  exact ⟨files', hspec.inv⟩

theorem allocation_consistent (g : Garbage) (disk : Disk) :
    ∃ s, format g disk = .ok s ∧ ∀ labels,
      AllSteps step (fun s label => s.InDomain label ∧ s.RequestInRange label) s labels →
        AllStates step (fun s => s.Consistent ∧ s.stop = none) s labels := by
  obtain ⟨s, hformat, hfresh⟩ := format_spec g disk
  refine ⟨s, hformat, fun labels hsteps => ?_⟩
  have hall : AllStates step (fun s => ∃ files, s.Inv files) s labels := by
    refine allStates_of_allSteps ?_ ⟨_, hfresh.inv⟩ hsteps
    rintro s label s' ⟨hdomain, hrange⟩ hstep ⟨files, h⟩
    obtain ⟨files', hspec⟩ := h.step (.of_inDomain hdomain hrange) hstep
    exact ⟨files', hspec.inv⟩
  refine hall.mono ?_
  rintro s ⟨files, h⟩
  exact ⟨h.consistent, h.stop⟩

/-! ### A position in front of the file -/

/-- A write at `-512` goes to the sector whose number is the number of sectors. -/
theorem writeAt_before (file : OpenFile) {x y : Fin Disk.numSectors}
    (h : file.hdr.Holds 1000 [x, y]) (disk : Disk) (heap source : Bytes) :
    ∃ last, file.writeAt disk heap source 512 (-512) =
      .ok (512, Function.update (Function.update disk freeMapData (sectorAt source 0)) x last) := by
  have hlength : file.hdr.fileLength = 1000 := h.numBytes
  have hrequest : file.request 512 (-512) = .ok (some 512) := by
    rw [OpenFile.request, hlength]
    rfl
  have hrange : file.InRange sectorSize 0 := .inr (.inr ⟨le_rfl, by decide⟩)
  have hread := OpenFile.readAt_inRange h.describes disk (fun k => heap (512 + k)) hrange
  obtain ⟨buf, hlast⟩ : ∃ buf, file.readLast disk (-1) 0 true false heap = .ok buf := by
    rw [OpenFile.readLast, if_pos (by decide)]
    exact ⟨_, congrArg (Functor.map _) hread⟩
  have hbefore : file.hdr.byteToSector ((-1 + (0 : ℕ)) * sectorSize) = .ok (freeMapData : ℕ) := by
    have hcount : file.hdr.numSectors.toInt = 2 := h.numSectors
    exact congrArg Except.ok hcount
  have hfirst : file.hdr.byteToSector ((-1 + (1 : ℕ)) * sectorSize) = .ok (x : ℕ) :=
    h.dataSector (i := 0) (by simp)
  have hwrite : ∀ buf, OpenFile.writeSectors file.hdr buf (-1) 0 2 disk = .ok (Function.update
      (Function.update disk freeMapData (sectorAt buf 0)) x (sectorAt buf 1)) := by
    intro buf
    rw [OpenFile.writeSectors, hbefore, ok_bind, Disk.writeSector_coe, ok_bind,
      OpenFile.writeSectors, hfirst, ok_bind, Disk.writeSector_coe, ok_bind, OpenFile.writeSectors]
  refine ⟨sectorAt (bcopy source buf 0 512) 1, ?_⟩
  rw [OpenFile.writeAt, hrequest, ok_bind]
  have hsource : sectorAt (bcopy source buf 0 512) 0 = sectorAt source 0 := by
    funext k
    have hk : k.val < 512 := k.isLt
    rw [sectorAt, sectorAt, bcopy, if_pos (by omega), Nat.sub_zero]
  rw [← hsource]
  dsimp only
  rw [show (-512 : ℤ).tdiv sectorSize = -1 from rfl,
    show (-512 + 512 - 1 : ℤ).tdiv sectorSize = 0 from rfl,
    show decide ((-512 : ℤ) = -1 * sectorSize) = true from rfl,
    show decide ((-512 : ℤ) + 512 = (0 + 1) * sectorSize) = false from rfl,
    OpenFile.readFirst, if_neg (by decide), ok_bind, hlast, ok_bind, if_neg (by decide),
    show (1 + 0 - -1 : ℤ).toNat = 2 from rfl, show (-512 - -1 * sectorSize : ℤ).toNat = 0 from rfl,
    show (512 : ℤ).toNat = 512 from rfl, hwrite]
  rfl

/-- A first file, created and opened. -/
structure Opened (s : FileSystem) (files : Files) (name : Bytes) (i : Fin numDirEntries)
    (file : File) : Prop where
  inv : s.Inv files
  entry : files i = some file
  named : ((directoryAt s.disk).table i).isNamed name = true
  handles : s.handles = [⟨(file.sector : ℕ), ⟨headerAt s.disk file.sector, 0⟩, false⟩]

theorem Fresh.opened (h : s.Fresh) (g : Garbage) (name : Bytes) {size : ℕ}
    (hsize : size ≤ maxFileSize) (hsmall : divRoundUp size sectorSize ≤ 2) :
    ∃ s₁ s₂ i file, s.step (.create g name size) = some s₁ ∧
      s₁.step (.openFile g name) = some s₂ ∧ file.size = size ∧
      Created s.disk s₂.disk name size i file.sector file.data ∧
      Opened s₂ (Function.update (fun _ => none) i (some file)) name i file := by
  obtain ⟨disk', i, sector, found, hcreate, hcreated, hnamed⟩ :=
    h.inv.step_create g hsize (not_cannotCreate h.entries h.freeMap name hsmall)
  have h₁ := h.inv.create hcreated
  have hfile : Function.update (fun _ => none : Files) i (some ⟨sector, size, found⟩) i =
      some ⟨sector, size, found⟩ := Function.update_self ..
  have hopen := h₁.step_openFile g hfile hnamed
  refine ⟨_, _, i, ⟨sector, size, found⟩, hcreate, hopen, rfl, hcreated, h₁.addHandle hfile 0,
    hfile, hnamed, ?_⟩
  dsimp only
  rw [h.handles]
  rfl

/-- A file of two sectors, and a write of one sector at a position. -/
def writeOnce (position : ℤ) : List Label :=
  [.create .zero (oneLetter 97#8) (1000 : ℕ), .openFile .zero (oneLetter 97#8),
    .writeAt 0 (fun _ => 0#8) (fun _ => 0#8) 512 position]

theorem Fresh.writeOnce_inDomain (h : s.Fresh) {position : ℤ} (hposition : 0 ≤ position)
    (hsmall : position + 512 ≤ intMax) :
    AllSteps step (fun s label => s.InDomain label ∧ s.RequestInRange label) s
      (writeOnce position) := by
  obtain ⟨s₁, s₂, i, file, hstep₁, hstep₂, -, -, hopened⟩ :=
    h.opened .zero (oneLetter 97#8) (show 1000 ≤ maxFileSize by decide) (by decide)
  refine .cons hstep₁ ⟨⟨by decide, by decide⟩, trivial⟩
    (.cons hstep₂ ⟨trivial, trivial⟩ fun s₃ _ => ⟨⟨fun handle hhandle => ?_, fun handle _ => ?_⟩,
      trivial⟩)
  · rw [hopened.handles] at hhandle
    cases hhandle
    rfl
  · exact .inr (.inr ⟨hposition, hsmall⟩)

theorem allocation_consistent_writeOnce :
    ∃ s, format .zero (fun _ _ => 0#8) = .ok s ∧
      AllSteps step (fun s label => s.InDomain label ∧ s.RequestInRange label) s
        (writeOnce 488) ∧
      AllStates step (fun s => s.Consistent ∧ s.stop = none) s (writeOnce 488) := by
  obtain ⟨s, hformat, hall⟩ := allocation_consistent .zero fun _ _ => 0#8
  obtain ⟨s', hformat', hfresh⟩ := format_spec .zero fun _ _ => 0#8
  cases hformat.symm.trans hformat'
  have hsteps := hfresh.writeOnce_inDomain (show 0 ≤ (488 : ℤ) by decide) (by decide)
  exact ⟨s, hformat, hsteps, hall _ hsteps⟩

/-- The free map is in sector 2, and so it is erased. -/
theorem writeOnce_erases_freeMap :
    ∃ s, format .zero (fun _ _ => 0#8) = .ok s ∧ AllSteps step InDomain s (writeOnce (-512)) ∧
      ¬ AllStates step (fun s => s.Consistent ∧ s.stop = none) s (writeOnce (-512)) := by
  obtain ⟨s, hformat, hfresh⟩ := format_spec .zero fun _ _ => 0#8
  obtain ⟨s₁, s₂, i, file, hstep₁, hstep₂, hsize, -, hopened⟩ :=
    hfresh.opened .zero (oneLetter 97#8) (show 1000 ≤ maxFileSize by decide) (by decide)
  obtain ⟨-, -, hholds⟩ := hopened.inv.entry hopened.entry
  obtain ⟨x, y, hdata⟩ : ∃ x y, file.data = [x, y] := by
    refine List.length_eq_two.mp ?_
    rw [hholds.length, hsize]
    rfl
  have hx : x ≠ freeMapData := by
    refine hopened.inv.ne_fixed (i := i) ?_ (by simp [held])
    rw [held_some hopened.entry, hdata]
    simp
  rw [hsize, hdata] at hholds
  have hget : s₂.handles[0]? =
      some ⟨(file.sector : ℕ), ⟨headerAt s₂.disk file.sector, 0⟩, false⟩ := by
    rw [hopened.handles]
    rfl
  obtain ⟨last, hwrite⟩ := writeAt_before ⟨headerAt s₂.disk file.sector, 0⟩ hholds s₂.disk
    (fun _ => 0#8) fun _ => 0#8
  obtain ⟨s₃, hs₃⟩ : ∃ s₃ : FileSystem, s₃ = { s₂ with
      disk := Function.update (Function.update s₂.disk freeMapData (sectorAt (fun _ => 0#8) 0))
        x last } := ⟨_, rfl⟩
  have hstep₃ : s₂.step (.writeAt 0 (fun _ => 0#8) (fun _ => 0#8) 512 (-512)) = some s₃ := by
    refine hopened.inv.step_of_call ?_
    rw [call, hget, Option.bind_eq_bind, Option.bind_some]
    dsimp only
    rw [hwrite, hs₃]
    rfl
  refine ⟨s, hformat, ?_, fun hall => ?_⟩
  · refine .cons hstep₁ ⟨by decide, by decide⟩ (.cons hstep₂ trivial (.cons hstep₃ ?_ trivial))
    intro handle hhandle
    cases hget.symm.trans hhandle
    rfl
  · have hexec : exec step s (writeOnce (-512)) = some s₃ := by
      rw [writeOnce, exec_cons hstep₁, exec_cons hstep₂, exec_cons hstep₃, exec]
    obtain ⟨hconsistent, -⟩ := hall.exec hexec
    have hmarked := (hconsistent.marked freeMapHeader).mpr List.mem_cons_self
    have hzero : s₃.disk freeMapData = sectorAt (fun _ => 0#8) 0 := by
      rw [hs₃]
      dsimp only
      rw [Function.update_of_ne hx.symm, Function.update_self]
    rw [freeMapAt, hzero] at hmarked
    revert hmarked
    decide

end Nachos.FileSystem
