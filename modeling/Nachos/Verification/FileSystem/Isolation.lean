import Nachos.Verification.FileSystem.Allocation

/-! # Files do not interfere -/

namespace Nachos.FileSystem

open Runs Tracking

/-- A write changes no byte of the bitmap and directory files, nor of a file in the directory
that is not the one its handle was opened on. -/
def Isolated (s : FileSystem) (label : Label) : Prop :=
  ∀ s' handle w, s.step label = some s' → s.writing label = some (handle, w) →
    readFile s'.disk freeMapSector = readFile s.disk freeMapSector ∧
    readFile s'.disk directorySector = readFile s.disk directorySector ∧
    ∀ i, ((directoryAt s.disk).table i).inUse ≠ 0#8 →
      ¬ handle.Opens ((directoryAt s.disk).table i).sector.toInt →
      readFile s'.disk ((directoryAt s.disk).table i).sector.toInt =
        readFile s.disk ((directoryAt s.disk).table i).sector.toInt

/-- What is read through a handle are the bytes of its file. -/
def ReadsFile (s : FileSystem) : Prop :=
  ∀ handle ∈ s.handles, ∀ i, ((directoryAt s.disk).table i).inUse ≠ 0#8 →
    handle.Opens ((directoryAt s.disk).table i).sector.toInt →
    ∃ length bytes, readFile s.disk ((directoryAt s.disk).table i).sector.toInt =
        .ok ((length : ℕ), bytes) ∧
      ∀ into numBytes position, handle.file.InRange numBytes position →
        handle.file.readAt s.disk into numBytes position =
          .ok ((OpenFile.transferred length numBytes position : ℕ),
            bcopy (fun k => bytes (position.toNat + k)) into 0
              (OpenFile.transferred length numBytes position))

/-- What a run writes to the file whose header is in `sector`. -/
def writesTo (sector : ℤ) : FileSystem → List Label → List Write
  | _, [] => []
  | s, label :: labels =>
      (s.writeTo sector label).toList ++ (s.step label).elim [] fun s' => writesTo sector s' labels

/-- The bytes of a file after the writes. -/
def Write.applyAll (ws : List Write) (contents : ℤ × Bytes) : ℤ × Bytes :=
  ws.foldl (fun contents w => w.apply contents) contents

theorem Write.applyAll_append (first : Option Write) (ws : List Write) :
    applyAll (first.toList ++ ws) = applyAll ws ∘ first.elim id apply := by
  cases first with
  | none => rfl
  | some w => rfl

/-- No write interferes, reads see the file, and as long as a file stays in the directory its
bytes are those it had with the writes to it in order. -/
structure NonInterference (s : FileSystem) (labels : List Label) : Prop where
  writes : AllSteps step Isolated s labels
  reads : AllStates step ReadsFile s labels
  contents : ∀ before after s₁ s₂ i, labels = before ++ after → exec step s before = some s₁ →
    exec step s₁ after = some s₂ →
    AllStates step (fun t => ((directoryAt t.disk).table i).inUse ≠ 0#8) s₁ after →
    readFile s₂.disk ((directoryAt s₁.disk).table i).sector.toInt =
      Write.applyAll (writesTo ((directoryAt s₁.disk).table i).sector.toInt s₁ after) <$>
        readFile s₁.disk ((directoryAt s₁.disk).table i).sector.toInt
  running : AllStates step (fun t => t.stop = none) s labels

variable {s s' : FileSystem} {files : Files} {i : Fin numDirEntries} {file : File}

namespace Inv

theorem fixed_headers (h : s.Inv files) :
    (headerAt s.disk FileSystem.freeMapHeader).Holds 128 [freeMapData] ∧
    (headerAt s.disk FileSystem.directoryHeader).Holds 200 [directoryData] := by
  rw [h.freeMapHeader, h.directoryHeader]
  exact ⟨h.formatted.freeMapFile, h.formatted.directoryFile⟩

/-- The two files of the file system itself are read as before. -/
theorem readFile_fixed (h : s.Inv files) {disk' : Disk}
    (hfixed : ∀ x ∈ held files none, disk' x = s.disk x) :
    readFile disk' freeMapSector = readFile s.disk freeMapSector ∧
    readFile disk' directorySector = readFile s.disk directorySector := by
  rw [show freeMapSector = (FileSystem.freeMapHeader.val : ℤ) from rfl,
    show directorySector = (FileSystem.directoryHeader.val : ℤ) from rfl]
  constructor
  · refine readFile_congr h.fixed_headers.1 (hfixed _ (by simp [held])) fun x hx => ?_
    rw [List.mem_singleton.mp hx]
    exact hfixed _ (by simp [held])
  · refine readFile_congr h.fixed_headers.2 (hfixed _ (by simp [held])) fun x hx => ?_
    rw [List.mem_singleton.mp hx]
    exact hfixed _ (by simp [held])

theorem isolated (h : s.Inv files) {label : Label} (hadmitted : s.Admitted label) :
    s.Isolated label := by
  intro s' handle w hstep hwriting
  obtain ⟨files', hspec⟩ := h.step hadmitted hstep
  obtain ⟨rfl, hfixed⟩ := hspec.writes _ hwriting
  obtain ⟨hfreeMap, hdirectory⟩ := h.readFile_fixed hfixed
  refine ⟨hfreeMap, hdirectory, fun i hused hnot => ?_⟩
  obtain ⟨file, hfile, hsector, -⟩ := (h.entries i).some_of_inUse hused
  rw [hsector] at hnot ⊢
  obtain hnone | ⟨-, hread⟩ := hspec.kept i file hfile
  · rw [hfile] at hnone
    cases hnone
  · rw [hread, writeTo, hwriting, Option.bind_some]
    dsimp only
    rw [if_neg hnot]
    exact id_map _

theorem readsFile (h : s.Inv files) : s.ReadsFile := by
  intro handle hmem i hused hopens
  obtain ⟨file, hfile, hsector, hholds⟩ := (h.entries i).some_of_inUse hused
  obtain ⟨j, file', hfile', hsector', hhdr⟩ := h.handles handle hmem hopens.1
  have heq : file'.sector = file.sector := by
    have hint := hsector'.symm.trans (hopens.2.trans hsector)
    exact Fin.ext (by exact_mod_cast hint)
  rw [heq] at hhdr
  rw [hsector]
  refine ⟨file.size, _, readFile_eq hholds, fun into numBytes position hrange => ?_⟩
  rw [← hhdr] at hholds
  rw [OpenFile.readAt_inRange hholds.describes s.disk into hrange]
  congr 2
  refine bcopy_congr fun k hk => ?_
  have hlt := hrange.lt_length hholds.describes (Nat.le_add_right _ k) (by omega)
  rw [bcopy, if_pos ⟨Nat.zero_le _, by omega⟩, Nat.sub_zero]

/-- As long as the file stays, its bytes are those it had with the writes to it in order. -/
theorem readFile_exec {labels : List Label} (h : s.Inv files) (hfile : files i = some file)
    (hsteps : AllSteps FileSystem.step Admitted s labels)
    (hstays : AllStates FileSystem.step (fun t => ((directoryAt t.disk).table i).inUse ≠ 0#8) s
      labels)
    (hexec : exec FileSystem.step s labels = some s') :
    readFile s'.disk (file.sector : ℕ) =
      Write.applyAll (writesTo (file.sector : ℕ) s labels) <$>
        readFile s.disk (file.sector : ℕ) := by
  induction labels generalizing s files with
  | nil =>
      cases hexec
      exact (id_map _).symm
  | cons label labels ih =>
      obtain ⟨s₁, hstep, hrest⟩ := Option.bind_eq_some_iff.mp hexec
      obtain ⟨hadmitted, hsteps⟩ := hsteps s₁ hstep
      have hstays := hstays.2 s₁ hstep
      obtain ⟨files', hspec⟩ := h.step hadmitted hstep
      obtain hnone | ⟨hsome, hread⟩ := hspec.kept i file hfile
      · obtain ⟨file', hfile', -⟩ := (hspec.inv.entries i).some_of_inUse hstays.head
        rw [hnone] at hfile'
        cases hfile'
      · rw [ih hspec.inv hsome hsteps hstays hrest, hread, writesTo, hstep, Option.elim_some,
          Write.applyAll_append, comp_map]

end Inv

theorem nonInterference_of_inv (h : s.Inv files) {labels : List Label}
    (hsteps : AllSteps step Admitted s labels) : NonInterference s labels := by
  have hinv := allStates_inv ⟨files, h⟩ hsteps
  refine ⟨?_, ?_, ?_, ?_⟩
  · exact AllSteps.of_allStates (fun _ _ ⟨_, h⟩ hadmitted => h.isolated hadmitted) hinv hsteps
  · exact hinv.mono fun _ ⟨_, h⟩ => h.readsFile
  · rintro before after s₁ s₂ i rfl hbefore hafter hstays
    obtain ⟨files', h'⟩ := (hinv.exec_append hbefore).head
    obtain ⟨file, hfile, hsector, -⟩ := (h'.entries i).some_of_inUse hstays.head
    rw [hsector]
    exact h'.readFile_exec hfile (hsteps.exec hbefore) hstays hafter
  · exact hinv.mono fun _ ⟨_, h⟩ => h.stop

theorem files_do_not_interfere (g : Garbage) (disk : Disk) :
    ∃ s, format g disk = .ok s ∧
      ∀ labels, AllSteps step Admitted s labels → NonInterference s labels := by
  obtain ⟨s, hformat, hfresh⟩ := format_spec g disk
  exact ⟨s, hformat, fun labels hsteps => nonInterference_of_inv hfresh.inv hsteps⟩

/-- A write of one sector's length that crosses a sector boundary, through a handle. -/
def writeAcross (k : ℕ) : Label :=
  .writeAt k (fun _ => 0#8) (fun _ => 1#8) 512 488

/-- Two files are created, opened and written; then the first is removed, and both handles
are written through once more. -/
def twoFiles : List Label :=
  [.create .zero (oneLetter 97#8) (1000 : ℕ), .openFile .zero (oneLetter 97#8),
    .create .zero (oneLetter 98#8) (1000 : ℕ), .openFile .zero (oneLetter 98#8),
    writeAcross 0, writeAcross 1, .remove .zero (oneLetter 97#8), writeAcross 0, writeAcross 1]

theorem Inv.step_writeAcross (h : s.Inv files) {k : ℕ} {handle : Handle}
    (hget : s.handles[k]? = some handle)
    (hfree : handle.removed = false ∨ handle.Unused s.disk) :
    s.Admitted (writeAcross k) ∧ ∃ disk', s.step (writeAcross k) = some { s with disk := disk' } ∧
      Inv { s with disk := disk' } files ∧ ∀ x ∈ held files none, disk' x = s.disk x := by
  have hrange : handle.file.InRange 512 488 := .inr (.inr ⟨by decide, by decide⟩)
  obtain ⟨n, disk', hwrite, hwritten⟩ := h.writeAt (List.mem_of_getElem? hget) hfree (fun _ => 0#8)
    (w := ⟨fun _ => 1#8, 512, 488⟩) hrange
  refine ⟨fun handle' hget' => ?_, disk', h.step_of_call ?_,
    h.write hwritten.fixed hwritten.headers, hwritten.fixed⟩
  · cases hget.symm.trans hget'
    exact ⟨hrange, hfree⟩
  · rw [writeAcross, call, hget, Option.bind_eq_bind, Option.bind_some, hwrite]
    rfl

/-- Behind a first file there is room for a second one with another name. -/
theorem Created.second {disk disk' : Disk} {name name' : Bytes} {size size' : ℕ}
    {sector : Fin Disk.numSectors} {found : List (Fin Disk.numSectors)}
    (h : Created disk disk' name size i sector found)
    (hentries : ∀ j, ((directoryAt disk).table j).inUse = 0#8)
    (hfreeMap : ∀ x, (freeMapAt disk).test x = decide (x.val < 4))
    (hname : nameKey name fileNameMaxLen ≠ nameKey name' fileNameMaxLen)
    (hroom : 2 + found.length + divRoundUp size' sectorSize ≤ 1020) :
    ¬ CannotCreate disk' name' size' := by
  have hclear := numClear_of_fixed hfreeMap
  have hleft := h.numClear_le
  rintro (⟨j, hnamed⟩ | hfull | hused | hfew)
  · rw [h.directory, Directory.table_set] at hnamed
    obtain ⟨hused, hkey⟩ := (DirectoryEntry.isNamed_iff _ _).mp hnamed
    by_cases hj : j = i
    · rw [hj, Function.update_self, DirectoryEntry.key_newEntry] at hkey
      exact hname hkey
    · rw [Function.update_of_ne hj] at hused
      exact hused (hentries j)
  · have hnone : (freeMapAt disk').clearBits = ∅ := by
      ext x
      simp [hfull x]
    have hzero : (freeMapAt disk').numClear = 0 := by
      rw [BitMap.numClear_eq_card, hnone, Finset.card_empty]
    omega
  · obtain ⟨j, hj⟩ := (by decide : ∀ i : Fin numDirEntries, ∃ j, j ≠ i) i
    refine hused j ?_
    rw [h.directory, Directory.table_set, Function.update_of_ne hj, hentries]
  · omega

/-- A handle whose file has been removed, as long as nobody has got its sectors. -/
theorem Inv.Removed.unused {disk disk' : Disk} {name : Bytes}
    (h : Inv.Removed disk disk' name i file) {handle : Handle}
    (hholds : handle.file.hdr.Holds file.size file.data) :
    handle.Unused disk' := by
  intro x hx
  rw [hholds.sectors, List.mem_map] at hx
  obtain ⟨y, hy, heq⟩ := hx
  have hxy : x = y := Fin.ext (by exact_mod_cast heq.symm)
  rw [h.freeMap, hxy, decide_eq_false (not_not.mpr (List.mem_cons_of_mem _ hy)), Bool.and_false]

theorem files_do_not_interfere_twoFiles :
    ∃ s s', format .zero (fun _ _ => 0#8) = .ok s ∧ AllSteps step Admitted s twoFiles ∧
      exec step s twoFiles = some s' ∧ s'.handles.map Handle.removed = [true, false] ∧
      NonInterference s twoFiles := by
  obtain ⟨s, hformat, hall⟩ := files_do_not_interfere .zero fun _ _ => 0#8
  obtain ⟨s', hformat', hfresh⟩ := format_spec .zero fun _ _ => 0#8
  cases hformat.symm.trans hformat'
  obtain ⟨s₁, s₂, i, a, hstep₁, hstep₂, hsize, hcreated, hopened⟩ :=
    hfresh.opened .zero (oneLetter 97#8) (show 1000 ≤ maxFileSize by decide) (by decide)
  obtain ⟨-, -, hholds⟩ := hopened.inv.entry hopened.entry
  have hlength : a.data.length = 2 := by
    rw [hholds.length, hsize]
    rfl
  -- the second file
  have hcan : ¬ CannotCreate s₂.disk (oneLetter 98#8) 1000 :=
    hcreated.second hfresh.entries hfresh.freeMap (by decide) (by rw [hlength]; decide)
  obtain ⟨disk₃, j, sector, found, hstep₃, hcreated₃, hnamed₃⟩ :=
    hopened.inv.step_create .zero (show 1000 ≤ maxFileSize by decide) hcan
  have h₃ := hopened.inv.create hcreated₃
  have hij : i ≠ j := by
    rintro rfl
    exact ((DirectoryEntry.isNamed_iff _ _).mp hopened.named).1 hcreated₃.free
  obtain ⟨b, hb⟩ : ∃ b : File, b = ⟨sector, 1000, found⟩ := ⟨_, rfl⟩
  rw [← hb] at h₃
  have hfileb := Function.update_self j (some b)
    (Function.update (fun _ => none : Files) i (some a))
  have hfilea : Function.update (Function.update (fun _ => none : Files) i (some a)) j (some b) i =
      some a := by rw [Function.update_of_ne hij, hopened.entry]
  have hhandles₄ : s₂.handles ++ [⟨(b.sector : ℕ), ⟨headerAt disk₃ b.sector, 0⟩, false⟩] =
      [⟨(a.sector : ℕ), ⟨headerAt s₂.disk a.sector, 0⟩, false⟩,
        ⟨(b.sector : ℕ), ⟨headerAt disk₃ b.sector, 0⟩, false⟩] := by
    rw [hopened.handles]
    rfl
  have hstep₄ := h₃.step_openFile .zero hfileb hnamed₃
  have h₄ := h₃.addHandle hfileb 0
  dsimp only at hstep₄ h₄
  rw [hhandles₄] at hstep₄ h₄
  -- a write through each handle
  obtain ⟨hadm₅, disk₅, hstep₅, h₅, hfixed₅⟩ := h₄.step_writeAcross (k := 0) rfl (.inl rfl)
  obtain ⟨hadm₆, disk₆, hstep₆, h₆, hfixed₆⟩ := h₅.step_writeAcross (k := 1) rfl (.inl rfl)
  have hdirectory : directoryAt disk₆ = directoryAt disk₃ :=
    (directoryAt_congr (hfixed₆ _ (by simp [held]))).trans
      (directoryAt_congr (hfixed₅ _ (by simp [held])))
  have hnamed₆ : ((directoryAt disk₆).table i).isNamed (oneLetter 97#8) = true := by
    rw [hdirectory, hcreated₃.directory, Directory.table_set, Function.update_of_ne hij]
    exact hopened.named
  -- the first file is removed, and its sectors stay clear
  obtain ⟨disk₇, hstep₇, hremoved⟩ := h₆.step_remove .zero hfilea hnamed₆
  have h₇ := h₆.remove hfilea hremoved
  have hne : (b.sector : ℤ) ≠ (a.sector : ℕ) := by
    intro heq
    exact hij (h₆.opened_unique hfilea hfileb (Fin.ext (by exact_mod_cast heq.symm))).1
  have hhandles₇ : ([⟨(a.sector : ℕ), ⟨headerAt s₂.disk a.sector, 0⟩, false⟩,
      ⟨(b.sector : ℕ), ⟨headerAt disk₃ b.sector, 0⟩, false⟩] : List Handle).map
        (Handle.remove (a.sector : ℕ)) =
      [⟨(a.sector : ℕ), ⟨headerAt s₂.disk a.sector, 0⟩, true⟩,
        ⟨(b.sector : ℕ), ⟨headerAt disk₃ b.sector, 0⟩, false⟩] := by
    simp [Handle.remove, hne]
  dsimp only at hstep₇ h₇
  rw [hhandles₇] at hstep₇ h₇
  obtain ⟨hadm₈, disk₈, hstep₈, h₈, -⟩ := h₇.step_writeAcross (k := 0) rfl
    (.inr (hremoved.unused hholds))
  obtain ⟨hadm₉, disk₉, hstep₉, -, -⟩ := h₈.step_writeAcross (k := 1) rfl (.inl rfl)
  have hsteps : AllSteps step Admitted s twoFiles :=
    .cons hstep₁ ⟨by decide, by decide⟩ <| .cons hstep₂ trivial <|
      .cons hstep₃ ⟨by decide, by decide⟩ <| .cons hstep₄ trivial <| .cons hstep₅ hadm₅ <|
      .cons hstep₆ hadm₆ <| .cons hstep₇ trivial <| .cons hstep₈ hadm₈ <|
      .cons hstep₉ hadm₉ trivial
  refine ⟨s, { s₂ with
    disk := disk₉
    handles := [⟨(a.sector : ℕ), ⟨headerAt s₂.disk a.sector, 0⟩, true⟩,
      ⟨(b.sector : ℕ), ⟨headerAt disk₃ b.sector, 0⟩, false⟩] }, hformat, hsteps, ?_, rfl,
    hall _ hsteps⟩
  rw [twoFiles, exec_cons hstep₁, exec_cons hstep₂, exec_cons hstep₃, exec_cons hstep₄,
    exec_cons hstep₅, exec_cons hstep₆, exec_cons hstep₇, exec_cons hstep₈, exec_cons hstep₉, exec]

/-! ### A handle that outlives its file -/

/-- A write through the header of a file in the directory, whatever handle it belongs to. -/
theorem Inv.write_through (h : s.Inv files) (hfile : files i = some file) (through : OpenFile)
    (hholds : through.hdr.Holds file.size file.data) (heap : Bytes) (w : Write)
    (hrange : through.InRange w.numBytes w.position) :
    ∃ n disk', through.writeAt s.disk heap w.source w.numBytes w.position = .ok (n, disk') ∧
      Inv { s with disk := disk' } files ∧
      readFile disk' (file.sector : ℕ) = w.apply <$> readFile s.disk (file.sector : ℕ) := by
  obtain ⟨handle, rfl, hopens⟩ : ∃ handle : Handle, handle.file = through ∧
      handle.Opens (file.sector : ℕ) := ⟨⟨(file.sector : ℕ), through, false⟩, rfl, rfl, rfl⟩
  obtain ⟨n, disk', hwrite, hother, hcontent⟩ :=
    writeAt_sectors hholds (h.nodup_file hfile).2 s.disk heap hrange
  have hwritten := h.written_live hfile hopens hholds.describes hrange hother hcontent
  exact ⟨n, disk', hwrite, h.write hwritten.fixed hwritten.headers,
    hwritten.own i file hfile hopens⟩

/-- The first file on the disk has sectors 4 and 5. -/
theorem Created.first_sectors {disk disk' : Disk} {name : Bytes} {size : ℕ}
    {sector x : Fin Disk.numSectors} (h : Created disk disk' name size i sector [x])
    (hfreeMap : ∀ x, (freeMapAt disk).test x = decide (x.val < 4)) :
    sector = ⟨4, by decide⟩ ∧ x = ⟨5, by decide⟩ := by
  have hsector : sector = ⟨4, by decide⟩ := by
    have hclear := h.clear
    rw [hfreeMap, decide_eq_false_iff_not] at hclear
    rcases lt_or_eq_of_le (show (⟨4, by decide⟩ : Fin Disk.numSectors) ≤ sector from
      not_lt.mp hclear) with hlt | heq
    · have hset := h.first _ hlt
      rw [hfreeMap] at hset
      exact absurd (of_decide_eq_true hset) (by decide)
    · exact heq.symm
  refine ⟨hsector, ?_⟩
  obtain ⟨hclear, hne⟩ := h.dataClear x List.mem_cons_self
  rw [hfreeMap, decide_eq_false_iff_not] at hclear
  rw [hsector] at hne
  have hle : 5 ≤ x.val := by
    have hne : x.val ≠ 4 := fun heq => hne (Fin.ext heq)
    omega
  rcases lt_or_eq_of_le (show (⟨5, by decide⟩ : Fin Disk.numSectors) ≤ x from hle) with hlt | heq
  · obtain hset | hmem := h.least x List.mem_cons_self _ hlt
    · rw [hfreeMap] at hset
      exact absurd (of_decide_eq_true hset) (by decide)
    · rcases List.mem_cons.mp hmem with heq | hmem
      · rw [hsector] at heq
        exact absurd heq (by decide)
      · exact absurd (List.mem_singleton.mp hmem) hlt.ne
  · exact heq.symm

/-- One byte at the start of a file, through the first handle. -/
def writeByte (c : Byte) : Label :=
  .writeAt 0 (fun _ => 0#8) (fun _ => c) 1 0

/-- The file `a` is opened and removed, then `b` is created; two writes go through the handle
of `a`. -/
def staleWrite : List Label :=
  [.create .zero (oneLetter 97#8) (512 : ℕ), .openFile .zero (oneLetter 97#8),
    .remove .zero (oneLetter 97#8), .create .zero (oneLetter 98#8) (512 : ℕ),
    writeByte 0#8, writeByte 1#8]

/-- After the removal of the first file the disk is as if it had never been there, as far as
the directory and the free map go. -/
theorem Removed.of_created {disk disk₁ disk₂ : Disk} {name : Bytes} {size : ℕ}
    {x : Fin Disk.numSectors} (hcreated : Created disk disk₁ name size i file.sector file.data)
    (hremoved : Inv.Removed disk₁ disk₂ name i file) (hdata : file.data = [x])
    (hentries : ∀ j, ((directoryAt disk).table j).inUse = 0#8)
    (hfreeMap : ∀ x, (freeMapAt disk).test x = decide (x.val < 4)) :
    (∀ j, ((directoryAt disk₂).table j).inUse = 0#8) ∧
      ∀ x, (freeMapAt disk₂).test x = decide (x.val < 4) := by
  constructor
  · intro j
    rw [hremoved.directory, Directory.table_set]
    by_cases hj : j = i
    · rw [hj, Function.update_self]
    · rw [Function.update_of_ne hj, hcreated.directory, Directory.table_set,
        Function.update_of_ne hj, hentries]
  · intro y
    rw [hremoved.freeMap, hcreated.freeMap, hfreeMap]
    rw [hdata] at hcreated ⊢
    obtain ⟨hsector, hx⟩ := hcreated.first_sectors hfreeMap
    rw [hsector, hx]
    by_cases hmem : y ∈ [⟨4, by decide⟩, ⟨5, by decide⟩]
    · have hy : ¬ y.val < 4 := by
        simp only [List.mem_cons, List.not_mem_nil, or_false, Fin.ext_iff] at hmem
        omega
      rw [decide_eq_false (not_not.mpr hmem), Bool.and_false, decide_eq_false hy]
    · rw [decide_eq_false hmem, decide_eq_true hmem, Bool.or_false, Bool.and_true]

/-- The state `s'` is `s` with a byte written to the file. -/
theorem Inv.step_writeByte (h : s.Inv files) (hfile : files i = some file) {handle : Handle}
    {rest : List Handle} (hhandles : s.handles = handle :: rest)
    (hholds : handle.file.hdr.Holds file.size file.data) (c : Byte) :
    ∃ s', s.step (writeByte c) = some s' ∧ s'.Inv files ∧ s'.handles = s.handles ∧
      readFile s'.disk (file.sector : ℕ) =
        Write.apply ⟨fun _ => c, 1, 0⟩ <$> readFile s.disk (file.sector : ℕ) := by
  obtain ⟨n, disk', hwrite, hinv, hread⟩ := h.write_through hfile handle.file hholds (fun _ => 0#8)
    ⟨fun _ => c, 1, 0⟩ (.inr (.inr ⟨le_rfl, show (0 + 1 : ℤ) ≤ intMax by decide⟩))
  refine ⟨{ s with disk := disk' }, h.step_of_call ?_, hinv, rfl, hread⟩
  rw [writeByte, call, hhandles, List.getElem?_cons_zero, Option.bind_eq_bind, Option.bind_some,
    hwrite]
  rfl

theorem staleWrite_changes_other_file :
    ∃ s, format .zero (fun _ _ => 0#8) = .ok s ∧ ¬ AllSteps step Isolated s staleWrite := by
  obtain ⟨s, hformat, hfresh⟩ := format_spec .zero fun _ _ => 0#8
  refine ⟨s, hformat, fun hall => ?_⟩
  -- `a` gets sectors 4 and 5, and gives them back
  obtain ⟨s₁, s₂, i, a, hstep₁, hstep₂, hsize, hcreated, hopened⟩ :=
    hfresh.opened .zero (oneLetter 97#8) (show 512 ≤ maxFileSize by decide) (by decide)
  obtain ⟨-, -, hholds⟩ := hopened.inv.entry hopened.entry
  obtain ⟨x, hdata⟩ : ∃ x, a.data = [x] := by
    refine List.length_eq_one_iff.mp ?_
    rw [hholds.length, hsize]
    rfl
  obtain ⟨disk₃, hstep₃, hremoved⟩ := hopened.inv.step_remove .zero hopened.entry hopened.named
  have h₃ := hopened.inv.remove hopened.entry hremoved
  obtain ⟨hentries, hfreeMap⟩ :=
    Removed.of_created hcreated hremoved hdata hfresh.entries hfresh.freeMap
  -- `b` gets the same sectors
  obtain ⟨disk₄, j, sector, found, hstep₄, hcreated', hnamed⟩ :=
    h₃.step_create .zero (show 512 ≤ maxFileSize by decide)
      (not_cannotCreate hentries hfreeMap (oneLetter 98#8) (by decide))
  have h₄ := h₃.create hcreated'
  obtain ⟨b, hb⟩ : ∃ b : File, b = ⟨sector, 512, found⟩ := ⟨_, rfl⟩
  rw [← hb] at h₄
  have hfile := Function.update_self j (some b) (Function.update
    (Function.update (fun _ => none : Files) i (some a)) i none)
  obtain ⟨y, hfound⟩ : ∃ y, found = [y] := by
    have hlength := (h₄.entry hfile).2.2.length
    rw [hb] at hlength
    exact List.length_eq_one_iff.mp (hlength.trans (show divRoundUp 512 sectorSize = 1 by decide))
  have hsame : b.data = a.data := by
    rw [hfound] at hcreated'
    rw [hdata] at hcreated
    rw [hb, hfound, hdata, (hcreated.first_sectors hfresh.freeMap).2,
      (hcreated'.first_sectors hfreeMap).2]
  have hbsize : b.size = a.size := by rw [hb, hsize]
  -- the bytes written through the handle of `a` appear in `b`
  have hhandles : s₂.handles.map (Handle.remove (a.sector : ℕ)) =
      [⟨(a.sector : ℕ), ⟨headerAt s₂.disk a.sector, 0⟩, true⟩] := by
    rw [hopened.handles]
    simp [Handle.remove]
  rw [← hbsize, ← hsame] at hholds
  obtain ⟨s₅, hstep₅, h₅, hhandles₅, hread₅⟩ :=
    h₄.step_writeByte hfile hhandles hholds 0#8
  obtain ⟨s₆, hstep₆, -, -, hread₆⟩ :=
    h₅.step_writeByte hfile (hhandles₅.trans hhandles) hholds 1#8
  have hisolated : s₅.Isolated (writeByte 1#8) :=
    ((((((hall s₁ hstep₁).2 s₂ hstep₂).2 _ hstep₃).2 _ hstep₄).2 s₅ hstep₅).2 s₆ hstep₆).1
  obtain ⟨-, -, hbholds⟩ := h₄.entry hfile
  obtain ⟨hused, hsector, -⟩ := h₅.entry hfile
  obtain ⟨-, -, hother⟩ := hisolated s₆ _ _ hstep₆
    (by rw [writeByte, writing, hhandles₅.trans hhandles]; rfl)
  have heq := hother j hused (by simp [Handle.Opens])
  rw [hsector, hread₆, hread₅, readFile_eq hbholds, map_ok, map_ok, hbsize, hsize] at heq
  have hbyte : (1#8 : Byte) = 0#8 := congrFun (congrArg Prod.snd (Except.ok.inj heq)) 0
  cases hbyte

end Nachos.FileSystem
