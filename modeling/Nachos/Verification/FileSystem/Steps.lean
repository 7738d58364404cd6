import Nachos.Verification.FileSystem.Accesses

/-! # One call of the file system -/

namespace Nachos.FileSystem

open Tracking

/-- The calls that a consistent file system answers as it should: the size is one a header
can describe, a request is in range, and a write goes to a file that is in the directory, or
to sectors that nobody has got since it was removed. -/
def Admitted (s : FileSystem) : Label → Prop
  | .create _ _ initialSize => 0 ≤ initialSize ∧ initialSize ≤ maxFileSize
  | .openFile _ _ | .remove _ _ | .seek _ _ => True
  | .readAt k _ numBytes position =>
      ∀ handle, s.handles[k]? = some handle → handle.file.InRange numBytes position
  | .read k _ numBytes =>
      ∀ handle, s.handles[k]? = some handle →
        handle.file.InRange numBytes handle.file.seekPosition
  | .writeAt k _ _ numBytes position =>
      ∀ handle, s.handles[k]? = some handle → handle.file.InRange numBytes position ∧
        (handle.removed = false ∨ handle.Unused s.disk)
  | .write k _ _ numBytes =>
      ∀ handle, s.handles[k]? = some handle →
        handle.file.InRange numBytes handle.file.seekPosition ∧
        (handle.removed = false ∨ handle.Unused s.disk)

/-- The handle that a call writes through, and what it writes. -/
def writing (s : FileSystem) : Label → Option (Handle × Write)
  | .writeAt k _ source numBytes position =>
      (s.handles[k]?).map fun handle => (handle, ⟨source, numBytes, position⟩)
  | .write k _ source numBytes =>
      (s.handles[k]?).map fun handle => (handle, ⟨source, numBytes, handle.file.seekPosition⟩)
  | _ => none

/-- What a call writes to the file whose header is in `sector`. -/
def writeTo (s : FileSystem) (sector : ℤ) (label : Label) : Option Write :=
  (s.writing label).bind fun (handle, w) => if handle.Opens sector then some w else none

/-- What a call does to the files: a file is removed, or it stays with its sectors and gets
what was written to it. -/
structure StepSpec (s s' : FileSystem) (files files' : Files) (label : Label) : Prop where
  inv : s'.Inv files'
  kept : ∀ i file, files i = some file → files' i = none ∨ files' i = some file ∧
    readFile s'.disk (file.sector : ℕ) =
      (s.writeTo (file.sector : ℕ) label).elim id Write.apply <$>
        readFile s.disk (file.sector : ℕ)
  writes : ∀ p, s.writing label = some p →
    files' = files ∧ ∀ x ∈ held files none, s'.disk x = s.disk x

variable {s s' : FileSystem} {files : Files} {label : Label}

/-- A call on a handle that there is not, or one that does what it should. -/
def Answered (s : FileSystem) (files : Files) (label : Label) : Prop :=
  s.call label = none ∨
    ∃ s' files', s.call label = some (.ok s') ∧ StepSpec s s' files files' label

namespace StepSpec

theorem of_readFile {files' : Files} (hinv : s'.Inv files') (hwriting : s.writing label = none)
    (hkept : ∀ i file, files i = some file → files' i = none ∨ files' i = some file ∧
      readFile s'.disk (file.sector : ℕ) = readFile s.disk (file.sector : ℕ)) :
    StepSpec s s' files files' label := by
  refine ⟨hinv, fun i file hfile => (hkept i file hfile).imp_right fun hsame => ⟨hsame.1, ?_⟩,
    fun p hp => ?_⟩
  · rw [hsame.2, writeTo, hwriting]
    exact (id_map _).symm
  · rw [hwriting] at hp
    cases hp

/-- A call that leaves the disk. -/
theorem of_disk (hinv : s'.Inv files) (hwriting : s.writing label = none)
    (hdisk : s'.disk = s.disk) : StepSpec s s' files files label :=
  of_readFile hinv hwriting fun _ _ hfile => .inr ⟨hfile, by rw [hdisk]⟩

theorem of_written {handle : Handle} {w : Write} {disk' : Disk}
    (hwriting : s.writing label = some (handle, w))
    (hwritten : Inv.Written s files handle w disk') (hinv : s'.Inv files)
    (hdisk : s'.disk = disk') : StepSpec s s' files files label := by
  refine ⟨hinv, fun i file hfile => .inr ⟨hfile, ?_⟩, fun _ _ => ⟨rfl, hdisk ▸ hwritten.fixed⟩⟩
  rw [hdisk, writeTo, hwriting, Option.bind_some]
  dsimp only
  split
  · rename_i hopens
    exact hwritten.own i file hfile hopens
  · rename_i hnot
    rw [hwritten.other i file hfile hnot]
    exact (id_map _).symm

end StepSpec

namespace Inv

theorem call_create (h : s.Inv files) (g : Garbage) (name : Bytes) {initialSize : ℤ}
    (hsize : 0 ≤ initialSize ∧ initialSize ≤ maxFileSize) :
    ∃ s' files', s.call (.create g name initialSize) = some (.ok s') ∧
      StepSpec s s' files files' (.create g name initialSize) := by
  obtain ⟨size, rfl⟩ := Int.eq_ofNat_of_zero_le hsize.1
  obtain ⟨result, hcreate, hspec⟩ := create_spec h.formatted g name (by exact_mod_cast hsize.2)
  have hcall : s.call (.create g name size) = some (.ok result.2) := by
    rw [call, hcreate, map_ok]
  cases hspec with
  | failed hfailed => exact ⟨s, files, hcall, .of_disk h rfl rfl⟩
  | created disk' i sector found hcan hcreated =>
      refine ⟨_, _, hcall, .of_readFile (h.create hcreated) rfl fun j file hfile => .inr ?_⟩
      have hj : j ≠ i := by
        rintro rfl
        rw [(h.entries j).none_of_free hcreated.free] at hfile
        cases hfile
      have hkept : ∀ x ∈ file.sector :: file.data, disk' x = s.disk x := by
        intro x hx
        rw [← held_some hfile] at hx
        refine hcreated.other x ?_ (h.ne_fixed hx (by simp [held])) (h.ne_fixed hx (by simp [held]))
        rintro rfl
        exact h.exact.not_mem_of_clear hcreated.clear _ hx
      refine ⟨by rw [Function.update_of_ne hj, hfile], ?_⟩
      exact readFile_congr (h.entry hfile).2.2 (hkept _ List.mem_cons_self)
        fun x hx => hkept x (List.mem_cons_of_mem _ hx)

theorem call_remove (h : s.Inv files) (g : Garbage) (name : Bytes) :
    ∃ s' files', s.call (.remove g name) = some (.ok s') ∧
      StepSpec s s' files files' (.remove g name) := by
  obtain ⟨result, hremove, hspec⟩ := h.remove_spec g name
  have hcall : s.call (.remove g name) = some (.ok result.2) := by
    rw [call, hremove, map_ok]
  cases hspec with
  | missing hindex => exact ⟨s, files, hcall, .of_disk h rfl rfl⟩
  | removed disk' i file hfile hremoved =>
      refine ⟨_, _, hcall, .of_readFile (h.remove hfile hremoved) rfl fun j file' hfile' => ?_⟩
      by_cases hj : j = i
      · exact .inl (by rw [hj, Function.update_self])
      · have hkept : ∀ x ∈ file'.sector :: file'.data, disk' x = s.disk x := by
          intro x hx
          rw [← held_some hfile'] at hx
          exact hremoved.other x (h.ne_fixed hx (by simp [held])) (h.ne_fixed hx (by simp [held]))
        refine .inr ⟨by rw [Function.update_of_ne hj, hfile'], ?_⟩
        exact readFile_congr (h.entry hfile').2.2 (hkept _ List.mem_cons_self)
          fun x hx => hkept x (List.mem_cons_of_mem _ hx)

theorem call_openFile (h : s.Inv files) (g : Garbage) (name : Bytes) :
    ∃ s' files', s.call (.openFile g name) = some (.ok s') ∧
      StepSpec s s' files files' (.openFile g name) := by
  obtain ⟨-, hopen⟩ | ⟨i, file, -, hfile, hopen⟩ := h.openFile_spec g name
  · exact ⟨s, files, by rw [call, hopen, map_ok], .of_disk h rfl rfl⟩
  · exact ⟨_, files, by rw [call, hopen, map_ok], .of_disk (h.addHandle hfile 0) rfl rfl⟩

variable {handle : Handle}

theorem readAt (h : s.Inv files) (hmem : handle ∈ s.handles) (into : Bytes)
    {numBytes position : ℤ} (hrange : handle.file.InRange numBytes position) :
    ∃ result, handle.file.readAt s.disk into numBytes position = .ok result := by
  obtain ⟨size, data, hholds, -⟩ := h.headers handle hmem
  exact ⟨_, OpenFile.readAt_inRange hholds.describes s.disk into hrange⟩

theorem call_handle {k : ℕ} {f : Handle → Option (Except Stop FileSystem)}
    (hcall : s.call label = s.handles[k]?.bind f)
    (hsome : ∀ handle, s.handles[k]? = some handle →
      ∃ s', f handle = some (.ok s') ∧ StepSpec s s' files files label) :
    Answered s files label := by
  cases hget : s.handles[k]? with
  | none => exact .inl (by rw [hcall, hget, Option.bind_none])
  | some handle =>
      obtain ⟨s', hf, hspec⟩ := hsome handle hget
      exact .inr ⟨s', files, by rw [hcall, hget, Option.bind_some, hf], hspec⟩

theorem answered (h : s.Inv files) (hadmitted : s.Admitted label) : Answered s files label := by
  cases label with
  | create g name size => exact .inr (h.call_create g name hadmitted)
  | openFile g name => exact .inr (h.call_openFile g name)
  | remove g name => exact .inr (h.call_remove g name)
  | seek k position =>
      refine call_handle rfl fun handle hget => ⟨s.setFile k (handle.file.seek position), rfl, ?_⟩
      exact .of_disk (h.setFile hget rfl) rfl rfl
  | readAt k into numBytes position =>
      refine call_handle rfl fun handle hget => ⟨s, ?_, .of_disk h rfl rfl⟩
      obtain ⟨result, hread⟩ := h.readAt (List.mem_of_getElem? hget) into (hadmitted handle hget)
      rw [hread]
      rfl
  | read k into numBytes =>
      refine call_handle rfl fun handle hget => ?_
      obtain ⟨result, hread⟩ := h.readAt (List.mem_of_getElem? hget) into (hadmitted handle hget)
      refine ⟨s.setFile k ⟨handle.file.hdr, handle.file.seekPosition + result.1⟩, ?_, ?_⟩
      · rw [OpenFile.read, hread]
        rfl
      · exact .of_disk (h.setFile hget rfl) rfl rfl
  | writeAt k heap source numBytes position =>
      refine call_handle rfl fun handle hget => ?_
      obtain ⟨hrange, hfree⟩ := hadmitted handle hget
      obtain ⟨n, disk', hwrite, hwritten⟩ := h.writeAt (List.mem_of_getElem? hget) hfree heap
        (w := ⟨source, numBytes, position⟩) hrange
      refine ⟨{ s with disk := disk' }, ?_, ?_⟩
      · rw [hwrite]
        rfl
      · refine .of_written ?_ hwritten (h.write hwritten.fixed hwritten.headers) rfl
        rw [writing, hget, Option.map_some]
  | write k heap source numBytes =>
      refine call_handle rfl fun handle hget => ?_
      obtain ⟨hrange, hfree⟩ := hadmitted handle hget
      obtain ⟨n, disk', hwrite, hwritten⟩ := h.writeAt (List.mem_of_getElem? hget) hfree heap
        (w := ⟨source, numBytes, handle.file.seekPosition⟩) hrange
      have hinv := h.write hwritten.fixed hwritten.headers
      refine ⟨FileSystem.setFile { s with disk := disk' } k
        ⟨handle.file.hdr, handle.file.seekPosition + n⟩, ?_, ?_⟩
      · rw [OpenFile.write, hwrite]
        rfl
      · refine .of_written ?_ hwritten (hinv.setFile hget rfl) rfl
        rw [writing, hget, Option.map_some]

theorem step (h : s.Inv files) (hadmitted : s.Admitted label) (hstep : s.step label = some s') :
    ∃ files', StepSpec s s' files files' label := by
  rw [FileSystem.step, h.stop, if_neg (by simp)] at hstep
  obtain hnone | ⟨t, files', hok, hspec⟩ := h.answered hadmitted
  · rw [hnone] at hstep
    cases hstep
  · rw [hok] at hstep
    cases hstep
    exact ⟨files', hspec⟩

/-! ### Calls that succeed -/

theorem step_of_call (h : s.Inv files) (hcall : s.call label = some (.ok s')) :
    s.step label = some s' := by
  rw [FileSystem.step, h.stop, if_neg (by simp), hcall]

theorem step_create (h : s.Inv files) (g : Garbage) {name : Bytes} {size : ℕ}
    (hsize : size ≤ maxFileSize) (hcan : ¬ CannotCreate s.disk name size) :
    ∃ disk' i sector found, s.step (.create g name size) = some { s with disk := disk' } ∧
      Created s.disk disk' name size i sector found ∧
      ((directoryAt disk').table i).isNamed name = true := by
  obtain ⟨result, hcreate, hspec⟩ := create_spec h.formatted g name hsize
  have hstep := h.step_of_call (show s.call (.create g name size) = some (.ok result.2) by
    rw [call, hcreate, map_ok])
  cases hspec with
  | failed hfailed => exact absurd hfailed hcan
  | created disk' i sector found _ hcreated =>
      exact ⟨disk', i, sector, found, hstep, hcreated, hcreated.named⟩

theorem findIndex_of_isNamed (h : s.Inv files) {name : Bytes} {i : Fin numDirEntries}
    (hnamed : ((directoryAt s.disk).table i).isNamed name = true) :
    (directoryAt s.disk).findIndex name = some i := by
  cases hindex : (directoryAt s.disk).findIndex name with
  | none =>
      rw [Directory.findIndex_eq_none_iff.mp hindex i] at hnamed
      cases hnamed
  | some j =>
      obtain ⟨hused, hkey⟩ := (DirectoryEntry.isNamed_iff _ _).mp hnamed
      obtain ⟨hused', hkey'⟩ := (DirectoryEntry.isNamed_iff _ _).mp
        (Directory.isNamed_of_findIndex hindex)
      rw [h.names j i hused' hused (hkey'.trans hkey.symm)]

theorem step_openFile (h : s.Inv files) (g : Garbage) {name : Bytes} {i : Fin numDirEntries}
    {file : File} (hfile : files i = some file)
    (hnamed : ((directoryAt s.disk).table i).isNamed name = true) :
    s.step (.openFile g name) = some { s with
      handles := s.handles ++ [⟨(file.sector : ℕ), ⟨headerAt s.disk file.sector, 0⟩, false⟩] } := by
  have hindex := h.findIndex_of_isNamed hnamed
  refine h.step_of_call ?_
  obtain ⟨hnone, -⟩ | ⟨j, file', hindex', hfile', hopen⟩ := h.openFile_spec g name
  · rw [hnone] at hindex
    cases hindex
  · rw [hindex'] at hindex
    cases hindex
    rw [hfile] at hfile'
    cases hfile'
    rw [call, hopen, map_ok]

theorem step_remove (h : s.Inv files) (g : Garbage) {name : Bytes} {i : Fin numDirEntries}
    {file : File} (hfile : files i = some file)
    (hnamed : ((directoryAt s.disk).table i).isNamed name = true) :
    ∃ disk', s.step (.remove g name) = some { s with
        disk := disk', handles := s.handles.map (Handle.remove (file.sector : ℕ)) } ∧
      Removed s.disk disk' name i file := by
  have hindex := h.findIndex_of_isNamed hnamed
  obtain ⟨result, hremove, hspec⟩ := h.remove_spec g name
  have hstep := h.step_of_call (show s.call (.remove g name) = some (.ok result.2) by
    rw [call, hremove, map_ok])
  cases hspec with
  | missing hnone =>
      rw [hnone] at hindex
      cases hindex
  | removed disk' j file' hfile' hremoved =>
      have hij := hremoved.index
      rw [hindex] at hij
      cases hij
      rw [hfile] at hfile'
      cases hfile'
      exact ⟨disk', hstep, hremoved⟩

end Inv
end Nachos.FileSystem
