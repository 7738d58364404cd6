import Nachos.Verification.FileSystem.Consistency

/-! # Access to the files of the directory -/

namespace Nachos.FileSystem

open Tracking

/-! ### What is in a file -/

/-- What is read from the file whose header is in `sector`: its length and its bytes. -/
def readFile (disk : Disk) (sector : ℤ) : Except Stop (ℤ × Bytes) := do
  let file ← OpenFile.create disk sector
  file.readAt disk (fun _ => 0#8) file.hdr.fileLength 0

/-- What one `Write` or `WriteAt` puts into a file. -/
structure Write where
  source : Bytes
  numBytes : ℤ
  position : ℤ

def Write.apply (w : Write) : ℤ × Bytes → ℤ × Bytes
  | (length, bytes) => (length, bcopy w.source bytes w.position.toNat
      (OpenFile.transferred length.toNat w.numBytes w.position))

/-- The file whose header is in `sector` is the one that the handle was opened on. -/
def Handle.Opens (handle : Handle) (sector : ℤ) : Prop :=
  handle.removed = false ∧ handle.sector = sector

instance (handle : Handle) (sector : ℤ) : Decidable (handle.Opens sector) :=
  inferInstanceAs (Decidable (_ ∧ _))

/-- None of the sectors in the handle's header is in use. -/
def Handle.Unused (disk : Disk) (handle : Handle) : Prop :=
  ∀ x : Fin Disk.numSectors, (x.val : ℤ) ∈ handle.file.hdr.sectors → (freeMapAt disk).test x = false

section Contents

variable {disk disk' : Disk} {sector : Fin Disk.numSectors} {size : ℕ}
  {data : List (Fin Disk.numSectors)}

theorem content_congr (hlength : data.length = divRoundUp size sectorSize)
    (hdata : ∀ x ∈ data, disk' x = disk x) {k : ℕ} (hk : k < size) :
    content disk' (FileHeader.sectorMap data) k = content disk (FileHeader.sectorMap data) k := by
  have hlt : k / sectorSize < data.length := by
    rw [hlength, FileHeader.lt_divRoundUp]
    exact (Nat.div_mul_le_self k sectorSize).trans_lt hk
  rw [content, content, hdata _ (FileHeader.sectorMap_mem hlt)]

theorem readFile_eq (h : (headerAt disk sector).Holds size data) :
    readFile disk (sector : ℕ) =
      .ok ((size : ℕ), bcopy (content disk (FileHeader.sectorMap data)) (fun _ => 0#8) 0 size) := by
  have hrange : (OpenFile.mk (headerAt disk sector) 0).InRange (size : ℕ) 0 := by
    have hsmall := h.small
    refine .inr (.inr ⟨le_rfl, ?_⟩)
    unfold intMax
    unfold maxFileSize numDirect sectorSize at hsmall
    omega
  have hread := OpenFile.readAt_inRange h.describes disk (fun _ => 0#8) hrange
  have hlength : (headerAt disk sector).fileLength = (size : ℕ) := h.numBytes
  have hmoved : OpenFile.transferred size (size : ℕ) 0 = size := by
    rw [OpenFile.transferred]
    omega
  rw [readFile, openFile_create, ok_bind, hlength, hread, hmoved]
  simp only [Int.toNat_zero, Nat.zero_add]

theorem readFile_congr (h : (headerAt disk sector).Holds size data)
    (hsector : disk' sector = disk sector) (hdata : ∀ x ∈ data, disk' x = disk x) :
    readFile disk' (sector : ℕ) = readFile disk (sector : ℕ) := by
  have h' : (headerAt disk' sector).Holds size data := headerAt_congr hsector ▸ h
  rw [readFile_eq h, readFile_eq h', bcopy_congr fun k hk => content_congr h.length hdata hk]

end Contents

variable {s s' : FileSystem} {files : Files} {handle : Handle}

namespace Inv

/-! ### Writing through a handle -/

/-- What a write through a handle leaves: no sector changes but data of its own file, if this
is in the directory. -/
structure Written (s : FileSystem) (files : Files) (handle : Handle) (w : Write) (disk' : Disk) :
    Prop where
  fixed : ∀ x ∈ held files none, disk' x = s.disk x
  headers : ∀ j file, files j = some file → disk' file.sector = s.disk file.sector
  other : ∀ j file, files j = some file → ¬ handle.Opens (file.sector : ℕ) →
    readFile disk' (file.sector : ℕ) = readFile s.disk (file.sector : ℕ)
  own : ∀ j file, files j = some file → handle.Opens (file.sector : ℕ) →
    readFile disk' (file.sector : ℕ) = w.apply <$> readFile s.disk (file.sector : ℕ)

theorem not_mem_of_unused (h : s.Inv files) (hunused : handle.Unused s.disk) {size : ℕ}
    {data : List (Fin Disk.numSectors)} (hholds : handle.file.hdr.Holds size data)
    (owner : Option (Fin numDirEntries)) {x : Fin Disk.numSectors} (hx : x ∈ held files owner) :
    x ∉ data := by
  intro hdata
  have hmem : (x.val : ℤ) ∈ handle.file.hdr.sectors := by
    rw [hholds.sectors]
    exact List.mem_map_of_mem hdata
  exact h.exact.not_mem_of_clear (hunused x hmem) owner hx

/-- The file that a handle opens is the one at its entry. -/
theorem opened_unique (h : s.Inv files) {i j : Fin numDirEntries} {file file' : File}
    (hfile : files i = some file) (hfile' : files j = some file')
    (heq : file.sector = file'.sector) : i = j ∧ file = file' := by
  have hmem : file.sector ∈ held files (some i) := held_some hfile ▸ List.mem_cons_self
  have hmem' : file.sector ∈ held files (some j) := held_some hfile' ▸ heq ▸ List.mem_cons_self
  have hij : i = j := by simpa using h.exact.owner_unique hmem hmem'
  subst hij
  exact ⟨rfl, Option.some.inj (hfile.symm.trans hfile')⟩

/-- A write through a handle changes only the sectors in its header. -/
theorem writeAt_sectors {size : ℕ} {data : List (Fin Disk.numSectors)}
    (hholds : handle.file.hdr.Holds size data) (hnodup : data.Nodup) (disk : Disk) (heap : Bytes)
    {w : Write} (hrange : handle.file.InRange w.numBytes w.position) :
    ∃ n disk', handle.file.writeAt disk heap w.source w.numBytes w.position = .ok (n, disk') ∧
      (∀ x, x ∉ data → disk' x = disk x) ∧
      ∀ offset < size, content disk' (FileHeader.sectorMap data) offset =
        bcopy w.source (content disk (FileHeader.sectorMap data)) w.position.toNat
          (OpenFile.transferred size w.numBytes w.position) offset := by
  obtain ⟨disk', hwrite, hother, hcontent⟩ := OpenFile.writeAt_inRange hholds.describes
    (hholds.sectorMap_inj hnodup) disk heap w.source hrange
  refine ⟨_, disk', hwrite, fun x hx => hother x fun i hi heq => hx ?_, hcontent⟩
  have hlt : i < data.length := hholds.length ▸ FileHeader.lt_divRoundUp.mpr hi
  rw [← heq]
  exact FileHeader.sectorMap_mem hlt

theorem written_unused (h : s.Inv files) (hremoved : handle.removed ≠ false) {size : ℕ}
    {data : List (Fin Disk.numSectors)} (hholds : handle.file.hdr.Holds size data)
    (hunused : handle.Unused s.disk) (w : Write) {disk' : Disk}
    (hother : ∀ x, x ∉ data → disk' x = s.disk x) : Written s files handle w disk' := by
  have hkept : ∀ owner, ∀ x ∈ held files owner, disk' x = s.disk x :=
    fun owner x hx => hother x (h.not_mem_of_unused hunused hholds owner hx)
  have hfile : ∀ j file, files j = some file → ∀ x ∈ file.sector :: file.data,
      disk' x = s.disk x := by
    intro j file hfile x hx
    exact hkept (some j) x (held_some hfile ▸ hx)
  refine ⟨hkept none, ?_, ?_, ?_⟩
  · exact fun j file hj => hfile j file hj _ List.mem_cons_self
  · intro j file hj _
    exact readFile_congr (h.entry hj).2.2 (hfile j file hj _ List.mem_cons_self)
      fun x hx => hfile j file hj x (List.mem_cons_of_mem _ hx)
  · exact fun j file _ hopens => absurd hopens.1 hremoved

theorem written_live (h : s.Inv files) {i : Fin numDirEntries} {file : File}
    (hfile : files i = some file) (hopens : handle.Opens (file.sector : ℕ))
    (hdescribes : handle.file.hdr.Describes file.size (FileHeader.sectorMap file.data)) {w : Write}
    (hrange : handle.file.InRange w.numBytes w.position) {disk' : Disk}
    (hother : ∀ x, x ∉ file.data → disk' x = s.disk x)
    (hcontent : ∀ offset < file.size, content disk' (FileHeader.sectorMap file.data) offset =
      bcopy w.source (content s.disk (FileHeader.sectorMap file.data)) w.position.toNat
        (OpenFile.transferred file.size w.numBytes w.position) offset) :
    Written s files handle w disk' := by
  have hdata : ∀ x ∈ file.data, x ∈ held files (some i) :=
    fun x hx => held_some hfile ▸ List.mem_cons_of_mem _ hx
  have hdiff : ∀ j file', files j = some file' → j ≠ i → ∀ x ∈ file'.sector :: file'.data,
      disk' x = s.disk x := by
    intro j file' hfile' hne x hx
    refine hother x fun hmem => hne ?_
    have hsame := h.exact.owner_unique (held_some hfile' ▸ hx) (hdata x hmem)
    exact Option.some.inj hsame
  have hheader : disk' file.sector = s.disk file.sector := hother _ (h.nodup_file hfile).1
  obtain ⟨-, -, hholds⟩ := h.entry hfile
  refine ⟨fun x hx => ?_, fun j file' hfile' => ?_, fun j file' hfile' hnot => ?_,
    fun j file' hfile' hopens' => ?_⟩
  · exact hother x fun hmem => h.ne_fixed (hdata x hmem) hx rfl
  · by_cases hj : j = i
    · rw [hj, hfile] at hfile'
      cases hfile'
      exact hheader
    · exact hdiff j file' hfile' hj _ List.mem_cons_self
  · have hj : j ≠ i := by
      rintro rfl
      rw [hfile] at hfile'
      cases hfile'
      exact hnot hopens
    exact readFile_congr (h.entry hfile').2.2 (hdiff j file' hfile' hj _ List.mem_cons_self)
      fun x hx => hdiff j file' hfile' hj x (List.mem_cons_of_mem _ hx)
  · have hsector : file.sector = file'.sector := by
      have heq := hopens.2.symm.trans hopens'.2
      exact Fin.ext (by exact_mod_cast heq)
    obtain ⟨-, rfl⟩ := h.opened_unique hfile hfile' hsector
    have hholds' : (headerAt disk' file.sector).Holds file.size file.data :=
      headerAt_congr hheader ▸ hholds
    rw [readFile_eq hholds, readFile_eq hholds', map_ok, Write.apply, Int.toNat_natCast]
    congr 2
    funext k
    by_cases hk : k < file.size
    · rw [bcopy, if_pos (by omega), Nat.sub_zero, hcontent k hk, bcopy, bcopy, bcopy,
        if_pos (show 0 ≤ k ∧ k < 0 + file.size by omega), Nat.sub_zero]
    · have hout : ¬ (w.position.toNat ≤ k ∧
          k < w.position.toNat + OpenFile.transferred file.size w.numBytes w.position) :=
        fun hin => hk (hrange.lt_length hdescribes hin.1 hin.2)
      rw [bcopy, if_neg (by omega), bcopy, if_neg hout, bcopy, if_neg (by omega)]

theorem writeAt (h : s.Inv files) (hmem : handle ∈ s.handles)
    (hfree : handle.removed = false ∨ handle.Unused s.disk) (heap : Bytes) {w : Write}
    (hrange : handle.file.InRange w.numBytes w.position) :
    ∃ n disk', handle.file.writeAt s.disk heap w.source w.numBytes w.position = .ok (n, disk') ∧
      Written s files handle w disk' := by
  by_cases hlive : handle.removed = false
  · obtain ⟨i, file, hfile, hsector, hhdr⟩ := h.handles handle hmem hlive
    have hholds : handle.file.hdr.Holds file.size file.data := by
      rw [hhdr]
      exact (h.entry hfile).2.2
    obtain ⟨n, disk', hwrite, hother, hcontent⟩ :=
      writeAt_sectors hholds (h.nodup_file hfile).2 s.disk heap hrange
    exact ⟨n, disk', hwrite,
      h.written_live hfile ⟨hlive, hsector⟩ hholds.describes hrange hother hcontent⟩
  · obtain ⟨size, data, hholds, hnodup⟩ := h.headers handle hmem
    obtain ⟨n, disk', hwrite, hother, -⟩ := writeAt_sectors hholds hnodup s.disk heap hrange
    exact ⟨n, disk', hwrite,
      h.written_unused hlive hholds (hfree.resolve_left hlive) w hother⟩

end Inv
end Nachos.FileSystem
