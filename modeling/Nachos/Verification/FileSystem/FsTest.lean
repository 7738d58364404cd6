import Nachos.Model.FsTest
import Nachos.Verification.FileSystem.ByteArray
import Nachos.Verification.FileSystem.Isolation

/-! # The tests of the file system

`Print` prints what `Copy` has copied, whatever happens to other files in between.
`PerformanceTest` cannot write its file, since a file does not grow. -/

namespace Nachos.FsTest

open OpenFile FileSystem Runs Slices Tracking

/-! ## The loops -/

section Loops

variable {hdr : FileHeader} {n : ℕ} {sectors : ℕ → Fin Disk.numSectors}

/-- The bytes of a file. -/
def fileBytes (disk : Disk) (sectors : ℕ → Fin Disk.numSectors) (n : ℕ) : List Byte :=
  (List.range n).map (content disk sectors)

@[simp] theorem length_fileBytes (disk : Disk) (sectors : ℕ → Fin Disk.numSectors) (n : ℕ) :
    (fileBytes disk sectors n).length = n := by
  rw [fileBytes, List.length_map, List.length_range]

/-- The file with one cursor. -/
def oneCursor (disk : Disk) (sectors : ℕ → Fin Disk.numSectors) (n p : ℕ) : CursorFile n 1 where
  contents := fileBytes disk sectors n
  length_eq := length_fileBytes disk sectors n
  cursors _ := p

/-- A read returns a part of the file and advances behind it. -/
theorem read_slice (h : hdr.Describes n sectors) (disk : Disk) (into : Bytes) {p m : ℕ}
    (hp : p ≤ n) (hm : m ≤ maxFileSize) :
    ∃ into', OpenFile.read disk ⟨hdr, p⟩ into m =
        .ok (((slice (fileBytes disk sectors n) p m).length : ℕ), into',
          ⟨hdr, (p + (slice (fileBytes disk sectors n) p m).length : ℕ)⟩) ∧
      firstBytes into' (slice (fileBytes disk sectors n) p m).length =
        slice (fileBytes disk sectors n) p m := by
  have hsmall := h.length_le
  have hread : OpenFile.readAt disk ⟨hdr, p⟩ into m p = .ok (count n m p,
      fill (slice (fileBytes disk sectors n) (p : ℤ).toNat (count n m p).toNat) into) :=
    readAt_refines (s := (⟨disk, fun _ => ⟨hdr, p⟩⟩ : Session 1))
      (a := oneCursor disk sectors n p) h rfl into (Int.natCast_nonneg p)
      (by unfold maxFileSize numDirect sectorSize at *; omega)
  have hcount : count n m p = ((slice (fileBytes disk sectors n) p m).length : ℕ) := by
    rw [count, length_slice, length_fileBytes]
    omega
  have hslice : slice (fileBytes disk sectors n) p
      (slice (fileBytes disk sectors n) p m).length = slice (fileBytes disk sectors n) p m := by
    rw [length_slice, slice, slice, ← List.length_drop, ← List.take_take, List.take_length]
  rw [hcount, Int.toNat_natCast, Int.toNat_natCast, hslice] at hread
  refine ⟨fill (slice (fileBytes disk sectors n) p m) into, ?_, CursorFile.firstBytes_fill _ _⟩
  rw [OpenFile.read, hread]
  rfl

/-- A chunk that fits is written as a whole. -/
theorem write_overwrite (h : hdr.Describes n sectors)
    (hinj : ∀ i j, i * sectorSize < n → j * sectorSize < n → sectors i = sectors j → i = j)
    (disk : Disk) (heap : Bytes) (chunk : List Byte) {p : ℕ} (hfits : p + chunk.length ≤ n) :
    ∃ disk', OpenFile.write disk ⟨hdr, p⟩ heap (fun k => chunk.getD k 0#8) chunk.length =
        .ok ((chunk.length : ℕ), disk', ⟨hdr, (p + chunk.length : ℕ)⟩) ∧
      fileBytes disk' sectors n = overwrite (fileBytes disk sectors n) p chunk ∧
      ∀ sector, (∀ i, i * sectorSize < n → sectors i ≠ sector) → disk' sector = disk sector := by
  have hsmall := h.length_le
  have hsum : (p : ℤ) + chunk.length < 2 ^ 31 := by
    unfold maxFileSize numDirect sectorSize at *
    omega
  obtain ⟨disk', hwrite, hcontents, hother⟩ := writeAt_refines
    (s := (⟨disk, fun _ => ⟨hdr, p⟩⟩ : Session 1)) (a := oneCursor disk sectors n p) h hinj rfl
    heap (fun k => chunk.getD k 0#8) p (Int.natCast_nonneg p) hsum
  have hcount : count n chunk.length p = (chunk.length : ℕ) := by
    rw [count]
    omega
  have hbytes : overwrite (fileBytes disk sectors n) (p : ℤ).toNat
      (firstBytes (fun k => chunk.getD k 0#8) (count n chunk.length p).toNat) =
        fileBytes disk' sectors n := hcontents
  rw [hcount, Int.toNat_natCast, Int.toNat_natCast, CursorFile.firstBytes_getD] at hbytes
  refine ⟨disk', ?_, hbytes.symm, hother⟩
  rw [OpenFile.write, hwrite, hcount]
  rfl

theorem copyLoop_spec (h : hdr.Describes n sectors)
    (hinj : ∀ i j, i * sectorSize < n → j * sectorSize < n → sectors i = sectors j → i = j)
    (heap : ℕ → Bytes) (disk : Disk) (fp : List Byte) {p : ℕ} (hfits : p + fp.length ≤ n) :
    ∃ disk', copyLoop heap disk ⟨hdr, p⟩ fp = .ok disk' ∧
      fileBytes disk' sectors n = overwrite (fileBytes disk sectors n) p fp ∧
      ∀ sector, (∀ i, i * sectorSize < n → sectors i ≠ sector) → disk' sector = disk sector := by
  induction hlength : fp.length using Nat.strong_induction_on generalizing disk fp p with
  | _ length ih =>
      rw [copyLoop]
      by_cases hunread : 0 < (fp.take transferSize).length
      · have hdrop : (fp.drop transferSize).length < length := by
          rw [List.length_take] at hunread
          rw [List.length_drop]
          omega
        have hsum : (fp.take transferSize).length + (fp.drop transferSize).length = fp.length := by
          rw [← List.length_append, List.take_append_drop]
        obtain ⟨disk₁, hwrite, hbytes₁, hother₁⟩ := write_overwrite h hinj disk (heap fp.length)
          (fp.take transferSize) (p := p) (by omega)
        obtain ⟨disk₂, hrest, hbytes₂, hother₂⟩ := ih _ hdrop disk₁ (fp.drop transferSize)
          (p := p + (fp.take transferSize).length) (by omega) rfl
        refine ⟨disk₂, ?_, ?_, fun sector hsector => ?_⟩
        · rw [dif_pos hunread, hwrite, ok_bind]
          exact hrest
        · rw [hbytes₂, hbytes₁, overwrite_append, List.take_append_drop]
        · rw [hother₂ sector hsector, hother₁ sector hsector]
      · have hempty : fp = [] := by
          cases fp with
          | nil => rfl
          | cons c fp => exact absurd (Nat.succ_pos _) hunread
        subst hempty
        exact ⟨disk, rfl, (overwrite_nil _ _).symm, fun _ _ => rfl⟩

/-- The file is printed from the cursor on. -/
theorem printLoop_eq (h : hdr.Describes n sectors) (disk : Disk) (buffer : Bytes) {p : ℕ}
    (hp : p ≤ n) :
    printLoop disk ⟨hdr, p⟩ buffer = .ok ((fileBytes disk sectors n).drop p) := by
  induction hleft : n - p using Nat.strong_induction_on generalizing p buffer with
  | _ left ih =>
      obtain ⟨into', hread, hbytes⟩ := read_slice h disk buffer (m := transferSize) hp (by decide)
      rw [printLoop]
      split
      · rename_i stop hstop
        cases hstop.symm.trans hread
      · rename_i amountRead into openFile hread'
        cases hread'.symm.trans hread
        have hlength := length_slice (fileBytes disk sectors n) p transferSize
        rw [length_fileBytes] at hlength
        split
        · rename_i hpos
          rw [ih (n - (p + _)) (by omega) into' (by omega) rfl, map_ok]
          congr 1
          show firstBytes into' _ ++ _ = _
          rw [Int.toNat_natCast, hbytes, slice_append_drop]
        · rename_i hzero
          rw [List.drop_eq_nil_of_le]
          rw [length_fileBytes]
          unfold transferSize at hlength hzero
          omega

/-- Nothing is written to an empty file. -/
theorem writeLoop_empty (hlength : hdr.fileLength = 0) (heap : ℕ → Bytes) (rounds : ℕ)
    (disk : Disk) :
    writeLoop heap (rounds + 1) disk ⟨hdr, 0⟩ = .ok (some .unableToWrite, disk) := by
  have hrequest : OpenFile.request ⟨hdr, 0⟩ contentSize 0 = .ok none :=
    if_pos (.inr hlength.le)
  have hwrite : OpenFile.write disk ⟨hdr, 0⟩ (heap rounds) (fun k => contents.getD k 0#8)
      contentSize = .ok (0, disk, ⟨hdr, 0⟩) := by
    rw [OpenFile.write, OpenFile.writeAt]
    dsimp only
    rw [hrequest]
    rfl
  rw [writeLoop, hwrite]
  rfl

/-- `strncmp` with a text of that length. -/
theorem strncmp_getD (a : Bytes) {l : List Byte} (hl : ∀ c ∈ l, c ≠ 0#8) :
    strncmp a (fun k => l.getD k 0#8) l.length = true ↔ firstBytes a l.length = l := by
  induction l generalizing a with
  | nil => exact iff_of_true rfl rfl
  | cons c l ih =>
      have hc : c ≠ 0#8 := hl c List.mem_cons_self
      have hfirst : firstBytes a (c :: l).length =
          a 0 :: firstBytes (fun k => a (k + 1)) l.length := by
        rw [firstBytes, List.length_cons, List.range_succ_eq_map, List.map_cons, List.map_map]
        rfl
      rw [hfirst, List.cons.injEq, ← ih (fun k => a (k + 1)) fun d hd =>
        hl d (List.mem_cons_of_mem c hd), List.length_cons, strncmp]
      show (if a 0 ≠ c then false else if a 0 = 0#8 then true else _) = true ↔ _
      by_cases hac : a 0 = c
      · rw [if_neg (not_not.mpr hac), if_neg (hac ▸ hc)]
        exact (and_iff_right hac).symm
      · rw [if_pos hac]
        exact iff_of_false Bool.false_ne_true fun h => hac h.1

/-- What `FileRead` looks for. -/
def repeated (rounds : ℕ) : List Byte :=
  (List.replicate rounds contents).flatten

theorem length_repeated (rounds : ℕ) : (repeated rounds).length = contentSize * rounds := by
  rw [repeated, List.length_flatten, List.map_replicate, List.sum_replicate, smul_eq_mul,
    Nat.mul_comm]
  rfl

/-- One round more. -/
theorem slice_eq_repeated_succ (l : List Byte) (p rounds : ℕ) :
    slice l p (contentSize * (rounds + 1)) = repeated (rounds + 1) ↔
      slice l p contentSize = contents ∧
        slice l (p + contentSize) (contentSize * rounds) = repeated rounds := by
  have happend := slice_append l p contentSize (contentSize * rounds)
  rw [show contentSize * (rounds + 1) = contentSize + contentSize * rounds by ring]
  show _ = contents ++ repeated rounds ↔ _
  constructor
  · intro heq
    have hfirst : slice l p contentSize = contents := by
      have htake := congrArg (List.take contentSize) heq
      rw [slice, List.take_take, Nat.min_eq_left (Nat.le_add_right _ _)] at htake
      exact htake.trans (List.take_left' rfl)
    rw [hfirst] at happend
    exact ⟨hfirst, List.append_cancel_left (happend.trans heq)⟩
  · rintro ⟨hfirst, hrest⟩
    rw [hfirst] at happend
    rw [← happend]
    exact congrArg _ hrest

theorem readLoop_eq (h : hdr.Describes n sectors) (disk : Disk) (rounds : ℕ) (buffer : Bytes)
    {p : ℕ} (hp : p ≤ n) :
    readLoop disk rounds ⟨hdr, p⟩ buffer =
      .ok (if slice (fileBytes disk sectors n) p (contentSize * rounds) = repeated rounds
        then none else some .unableToRead) := by
  induction rounds generalizing p buffer with
  | zero => rfl
  | succ rounds ih =>
      obtain ⟨into', hread, hbytes⟩ := read_slice h disk buffer (m := contentSize) hp (by decide)
      have hlength := length_slice (fileBytes disk sectors n) p contentSize
      rw [length_fileBytes] at hlength
      have hten : contentSize = 10 := rfl
      have hcompare := strncmp_getD into' (l := contents) (by decide)
      have hsucc := slice_eq_repeated_succ (fileBytes disk sectors n) p rounds
      rw [readLoop, hread, ok_bind]
      dsimp only
      by_cases hsame : slice (fileBytes disk sectors n) p contentSize = contents
      · have hfull : (slice (fileBytes disk sectors n) p contentSize).length = contentSize :=
          congrArg List.length hsame
        rw [hfull] at hbytes ⊢
        have hgood : ¬ (((contentSize : ℕ) : ℤ) < 10 ∨
            strncmp into' (fun k => contents.getD k 0#8) contentSize = false) := by
          rw [not_or, Bool.not_eq_false]
          exact ⟨by omega, hcompare.mpr (hbytes.trans hsame)⟩
        rw [if_neg hgood, ih into' (by omega)]
        exact congrArg Except.ok (if_congr (hsucc.trans (and_iff_right hsame)).symm rfl rfl)
      · rw [if_neg fun heq => hsame (hsucc.mp heq).1]
        refine if_pos ?_
        by_cases hfull : (slice (fileBytes disk sectors n) p contentSize).length = contentSize
        · rw [hfull] at hbytes
          refine .inr (Bool.eq_false_iff.mpr fun htrue => hsame ?_)
          exact hbytes.symm.trans (hcompare.mp htrue)
        · exact .inl (by omega)

end Loops

/-! ## The files -/

section Files

variable {s s' : FileSystem} {files : Files} {i : Fin numDirEntries} {file : File} {name : Bytes}

/-- The bytes of a file of the directory. -/
def bytesOf (disk : Disk) (file : File) : List Byte :=
  fileBytes disk (FileHeader.sectorMap file.data) file.size

theorem bytesOf_congr {disk disk' : Disk} (hholds : (headerAt disk file.sector).Holds file.size
      file.data) (hholds' : (headerAt disk' file.sector).Holds file.size file.data)
    (hread : readFile disk' (file.sector : ℕ) = readFile disk (file.sector : ℕ)) :
    bytesOf disk' file = bytesOf disk file := by
  rw [readFile_eq hholds, readFile_eq hholds'] at hread
  have hbytes : bcopy (content disk' (FileHeader.sectorMap file.data)) (fun _ => 0#8) 0 file.size =
      bcopy (content disk (FileHeader.sectorMap file.data)) (fun _ => 0#8) 0 file.size :=
    congrArg Prod.snd (Except.ok.inj hread)
  refine List.map_congr_left fun k hk => ?_
  have hlt : 0 ≤ k ∧ k < 0 + file.size := ⟨Nat.zero_le k, by simpa using hk⟩
  have hbyte := congrFun hbytes k
  rwa [bcopy, bcopy, if_pos hlt, if_pos hlt] at hbyte

/-- No sector of the file is among those that do not hold its data. -/
theorem sectorMap_ne {hdr : FileHeader} {size : ℕ} {data : List (Fin Disk.numSectors)}
    (hholds : hdr.Holds size data) {x : Fin Disk.numSectors} (hx : x ∉ data) (k : ℕ)
    (hk : k * sectorSize < size) : FileHeader.sectorMap data k ≠ x := by
  rintro rfl
  exact hx (FileHeader.sectorMap_mem (hholds.length ▸ FileHeader.lt_divRoundUp.mpr hk))

/-- The files that were there have the same entries and the same bytes. -/
structure Kept (disk disk' : Disk) : Prop where
  entries : ∀ j, ((directoryAt disk).table j).inUse ≠ 0#8 →
    (directoryAt disk').table j = (directoryAt disk).table j
  bytes : ∀ j, ((directoryAt disk).table j).inUse ≠ 0#8 →
    readFile disk' ((directoryAt disk).table j).sector.toInt =
      readFile disk ((directoryAt disk).table j).sector.toInt

/-- Only sectors change that no file had, and the directory gets one entry more. -/
theorem kept_of_new (h : s.Inv files) {disk' : Disk}
    (hfree : ((directoryAt s.disk).table i).inUse = 0#8)
    (hdirectory : ∀ j, j ≠ i → (directoryAt disk').table j = (directoryAt s.disk).table j)
    (hother : ∀ j file, files j = some file → ∀ x ∈ file.sector :: file.data,
      disk' x = s.disk x) : Kept s.disk disk' where
  entries j hused := hdirectory j fun hj => hused (hj ▸ hfree)
  bytes j hused := by
    obtain ⟨file, hfile, hsector, hholds⟩ := (h.entries j).some_of_inUse hused
    rw [hsector]
    exact readFile_congr hholds (hother j file hfile _ List.mem_cons_self) fun x hx =>
      hother j file hfile x (List.mem_cons_of_mem _ hx)

/-- The sectors of the files that were there are not those of a new one. -/
theorem created_other (h : s.Inv files) {disk' : Disk} {size : ℕ} {sector : Fin Disk.numSectors}
    {found : List (Fin Disk.numSectors)}
    (hcreated : Created s.disk disk' name size i sector found) (j : Fin numDirEntries)
    (file : File) (hfile : files j = some file) (x : Fin Disk.numSectors)
    (hx : x ∈ file.sector :: file.data) : disk' x = s.disk x ∧ x ∉ found := by
  rw [← held_some hfile] at hx
  refine ⟨hcreated.other x ?_ (h.ne_fixed hx (by simp [held])) (h.ne_fixed hx (by simp [held])), ?_⟩
  · rintro rfl
    exact h.exact.not_mem_of_clear hcreated.clear _ hx
  · intro hmem
    exact h.exact.not_mem_of_clear (hcreated.dataClear x hmem).1 _ hx

/-- A file is created and opened. -/
structure Opened (s : FileSystem) (files : Files) (name : Bytes) (size : ℕ) (disk' : Disk)
    (i : Fin numDirEntries) (file : File) : Prop where
  created : Created s.disk disk' name size i file.sector file.data
  size : file.size = size
  inv : Inv { s with disk := disk' } (Function.update files i (some file))
  named : ((directoryAt disk').table i).isNamed name = true

theorem create_opened (h : s.Inv files) (g : Garbage) {size : ℕ} (hsize : size ≤ maxFileSize)
    (hcan : ¬ CannotCreate s.disk name size) :
    ∃ disk' i file, s.create g name size = .ok (true, { s with disk := disk' }) ∧
      Opened s files name size disk' i file := by
  obtain ⟨result, hcreate, hspec⟩ := create_spec h.formatted g name hsize
  cases hspec with
  | failed hfailed => exact absurd hfailed hcan
  | created disk' i sector found _ hcreated =>
      refine ⟨disk', i, ⟨sector, size, found⟩, hcreate, hcreated, rfl, h.create hcreated, ?_⟩
      rw [hcreated.directory, Directory.table_set, Function.update_self,
        DirectoryEntry.isNamed_iff]
      exact ⟨by simp [Directory.newEntry], DirectoryEntry.key_newEntry _ _ _⟩

theorem create_failed (h : s.Inv files) (g : Garbage) {size : ℕ} (hsize : size ≤ maxFileSize)
    (hcannot : CannotCreate s.disk name size) : s.create g name size = .ok (false, s) := by
  obtain ⟨result, hcreate, hspec⟩ := create_spec h.formatted g name hsize
  cases hspec with
  | failed _ => exact hcreate
  | created _ _ _ _ hcan _ => exact absurd hcannot hcan

/-- `Open` finds the file, and `delete` forgets it again. -/
theorem openFile_named (h : s.Inv files) (g : Garbage) (hfile : files i = some file)
    (hnamed : ((directoryAt s.disk).table i).isNamed name = true) :
    ∃ handles, s.openFile g name = .ok (some ⟨headerAt s.disk file.sector, 0⟩,
        { s with handles := handles }) ∧ handles.dropLast = s.handles := by
  obtain ⟨hnone, -⟩ | ⟨j, file', hindex, hfile', hopen⟩ := h.openFile_spec g name
  · rw [h.findIndex_of_isNamed hnamed] at hnone
    cases hnone
  · rw [h.findIndex_of_isNamed hnamed] at hindex
    cases hindex
    rw [hfile] at hfile'
    cases hfile'
    exact ⟨_, hopen, List.dropLast_concat⟩

theorem Opened.of_data {disk' disk'' : Disk} {size : ℕ} (h : s.Inv files)
    (hopened : Opened s files name size disk' i file)
    (hother : ∀ x, x ∉ file.data → disk'' x = disk' x) :
    Inv { s with disk := disk'' } (Function.update files i (some file)) ∧
      directoryAt disk'' = directoryAt disk' ∧ Kept s.disk disk'' := by
  have hself : Function.update files i (some file) i = some file := Function.update_self _ _ _
  have hdata : ∀ x ∈ file.data, x ∈ held (Function.update files i (some file)) (some i) :=
    fun x hx => held_some hself ▸ List.mem_cons_of_mem _ hx
  have hfixed : ∀ x ∈ held files none, disk'' x = disk' x := fun x hx =>
    hother x fun hmem => hopened.inv.ne_fixed (hdata x hmem) hx rfl
  have hdirectory : directoryAt disk'' = directoryAt disk' :=
    directoryAt_congr (hfixed _ (by simp [held]))
  refine ⟨hopened.inv.write hfixed fun j file' hfile' => hother _ fun hmem => ?_, hdirectory,
    kept_of_new h hopened.created.free (fun j hj => ?_) fun j file' hfile' x hx => ?_⟩
  · have hj : j = i := by
      have howner := hopened.inv.exact.owner_unique
        (held_some hfile' ▸ List.mem_cons_self) (hdata _ hmem)
      exact Option.some.inj howner
    subst hj
    rw [hself] at hfile'
    cases hfile'
    exact (hopened.inv.nodup_file hself).1 hmem
  · rw [hdirectory, hopened.created.directory, Directory.table_set, Function.update_of_ne hj]
  · obtain ⟨hsame, hnot⟩ := created_other h hopened.created j file' hfile' x hx
    rw [hother x hnot, hsame]

end Files

/-! ## `Copy` and `Print` -/

section CopyPrint

variable {s : FileSystem} {files : Files} {i : Fin numDirEntries} {file : File} {name : Bytes}

theorem print_named (h : s.Inv files) (g : Garbage) (buffer : Bytes) (hfile : files i = some file)
    (hnamed : ((directoryAt s.disk).table i).isNamed name = true) :
    print s g name buffer = .ok (some (bytesOf s.disk file), s) := by
  obtain ⟨handles, hopen, hclose⟩ := openFile_named h g hfile hnamed
  have hprint := printLoop_eq (h.entry hfile).2.2.describes s.disk buffer (Nat.zero_le file.size)
  rw [print, hopen, ok_bind]
  dsimp only
  rw [show printLoop s.disk ⟨headerAt s.disk file.sector, 0⟩ buffer = _ from hprint, ok_bind]
  show Except.ok (some (bytesOf s.disk file), close { s with handles := handles }) = _
  rw [close, hclose]

theorem fileLength_eq {fp : List Byte} (hsize : fp.length ≤ maxFileSize) :
    (BitVec.ofNat 32 fp.length).toInt = fp.length := by
  unfold maxFileSize numDirect sectorSize at hsize
  have hnat : (BitVec.ofNat 32 fp.length).toNat = fp.length := by
    rw [BitVec.toNat_ofNat, Nat.mod_eq_of_lt (by omega)]
  rw [BitVec.toInt_eq_toNat_of_lt (by omega), hnat]

theorem copy_created (h : s.Inv files) (g : ℕ → Garbage) (heap : ℕ → Bytes) {fp : List Byte}
    (hsize : fp.length ≤ maxFileSize) (hcan : ¬ CannotCreate s.disk name fp.length) :
    ∃ disk' i file, copy s g heap (some fp) name = .ok (none, { s with disk := disk' }) ∧
      Inv { s with disk := disk' } (Function.update files i (some file)) ∧
      ((directoryAt disk').table i).isNamed name = true ∧ bytesOf disk' file = fp ∧
      Kept s.disk disk' := by
  obtain ⟨disk₁, i, file, hcreate, hopened⟩ := create_opened h (g 0) hsize hcan
  have hself : Function.update files i (some file) i = some file := Function.update_self _ _ _
  obtain ⟨handles, hopen, hclose⟩ := openFile_named hopened.inv (g 1) hself hopened.named
  have hholds := (hopened.inv.entry hself).2.2
  have hnodup := (hopened.inv.nodup_file hself).2
  obtain ⟨disk₂, hloop, hbytes, hother⟩ := copyLoop_spec hholds.describes
    (hholds.sectorMap_inj hnodup) heap disk₁ fp (p := 0) (by rw [hopened.size, Nat.zero_add])
  obtain ⟨hinv, hdirectory, hkept⟩ := hopened.of_data h fun x hx =>
    hother x (sectorMap_ne hholds hx)
  refine ⟨disk₂, i, file, ?_, hinv, ?_, ?_, hkept⟩
  · rw [copy]
    dsimp only
    rw [fileLength_eq hsize, hcreate, ok_bind]
    dsimp only
    rw [if_neg (by simp), hopen, ok_bind]
    dsimp only
    rw [show copyLoop heap disk₁ ⟨headerAt disk₁ file.sector, 0⟩ fp = _ from hloop, ok_bind]
    show Except.ok (none, close { s with disk := disk₂, handles := handles }) = _
    rw [close, hclose]
  · rw [hdirectory]
    exact hopened.named
  · rw [bytesOf, hbytes, overwrite_all]
    rw [length_fileBytes, hopened.size]

theorem copy_failed (h : s.Inv files) (g : ℕ → Garbage) (heap : ℕ → Bytes) {fp : List Byte}
    (hsize : fp.length ≤ maxFileSize) (hcannot : CannotCreate s.disk name fp.length) :
    copy s g heap (some fp) name = .ok (some .couldntCreate, s) := by
  rw [copy]
  dsimp only
  rw [fileLength_eq hsize, create_failed h (g 0) hsize hcannot]
  rfl

/-- As long as a file stays in the directory it has the same sectors. -/
theorem exec_stays {labels : List Label} {s' : FileSystem} (h : s.Inv files)
    (hfile : files i = some file) (hsteps : AllSteps FileSystem.step Admitted s labels)
    (hstays : AllStates FileSystem.step (fun t => ((directoryAt t.disk).table i).inUse ≠ 0#8) s
      labels) (hexec : exec FileSystem.step s labels = some s') :
    ∃ files', s'.Inv files' ∧ files' i = some file := by
  induction labels generalizing s files with
  | nil =>
      cases hexec
      exact ⟨files, h, hfile⟩
  | cons label labels ih =>
      obtain ⟨s₁, hstep, hrest⟩ := Option.bind_eq_some_iff.mp hexec
      obtain ⟨hadmitted, hsteps⟩ := hsteps s₁ hstep
      have hstays := hstays.2 s₁ hstep
      obtain ⟨files', hspec⟩ := h.step hadmitted hstep
      obtain hnone | ⟨hsome, -⟩ := hspec.kept i file hfile
      · obtain ⟨file', hfile', -⟩ := (hspec.inv.entries i).some_of_inUse hstays.head
        rw [hnone] at hfile'
        cases hfile'
      · exact ih hspec.inv hsome hsteps hstays hrest

/-- Whatever happens as long as the file is not removed and not written, its text is printed. -/
theorem print_later {labels : List Label} {s' : FileSystem} (h : s.Inv files)
    (hfile : files i = some file) (hsteps : AllSteps FileSystem.step Admitted s labels)
    (hnamed : AllStates FileSystem.step
      (fun t => ((directoryAt t.disk).table i).isNamed name = true) s labels)
    (hexec : exec FileSystem.step s labels = some s')
    (hwrites : writesTo (file.sector : ℕ) s labels = []) (g : Garbage) (buffer : Bytes) :
    print s' g name buffer = .ok (some (bytesOf s.disk file), s') := by
  have hstays := hnamed.mono fun t ht => ((DirectoryEntry.isNamed_iff _ _).mp ht).1
  obtain ⟨files', h', hfile'⟩ := exec_stays h hfile hsteps hstays hexec
  have hread := h.readFile_exec hfile hsteps hstays hexec
  rw [hwrites] at hread
  rw [print_named h' g buffer hfile' (hnamed.exec hexec), bytesOf_congr (h.entry hfile).2.2
    (h'.entry hfile').2.2 (hread.trans (id_map _))]

end CopyPrint

/-- After any admitted calls, `Copy` fails exactly when the file cannot be created, and then
changes nothing. Otherwise it leaves the other files alone, and after any further admitted
calls that do not remove or write the copy, `Print` prints the UNIX file. -/
theorem print_after_copy (g₀ : Garbage) (disk : Disk) :
    ∃ s, format g₀ disk = .ok s ∧ ∀ before s₁, AllSteps FileSystem.step Admitted s before →
      exec FileSystem.step s before = some s₁ →
      ∀ (g : ℕ → Garbage) (heap : ℕ → Bytes) (fp : List Byte) (name : Bytes),
        fp.length ≤ maxFileSize →
        (CannotCreate s₁.disk name fp.length →
          copy s₁ g heap (some fp) name = .ok (some .couldntCreate, s₁)) ∧
        (¬ CannotCreate s₁.disk name fp.length → ∃ s₂ i,
          copy s₁ g heap (some fp) name = .ok (none, s₂) ∧ Kept s₁.disk s₂.disk ∧
          ((directoryAt s₂.disk).table i).isNamed name = true ∧
          ∀ after s₃, AllSteps FileSystem.step Admitted s₂ after →
            exec FileSystem.step s₂ after = some s₃ →
            AllStates FileSystem.step
              (fun t => ((directoryAt t.disk).table i).isNamed name = true) s₂ after →
            writesTo ((directoryAt s₂.disk).table i).sector.toInt s₂ after = [] →
            ∀ g buffer, print s₃ g name buffer = .ok (some fp, s₃)) := by
  obtain ⟨s, hformat, hfresh⟩ := format_spec g₀ disk
  refine ⟨s, hformat, fun before s₁ hsteps hexec g heap fp name hsize => ?_⟩
  obtain ⟨files, h⟩ := (allStates_inv ⟨_, hfresh.inv⟩ hsteps).exec hexec
  refine ⟨copy_failed h g heap hsize, fun hcan => ?_⟩
  obtain ⟨disk', i, file, hcopy, hinv, hnamed, hbytes, hkept⟩ := copy_created h g heap hsize hcan
  have hself : Function.update files i (some file) i = some file := Function.update_self _ _ _
  refine ⟨_, i, hcopy, hkept, hnamed, fun after s₃ hafter hexec' hstays hwrites g' buffer => ?_⟩
  rw [(hinv.entry hself).2.1] at hwrites
  rw [print_later hinv hself hafter hstays hexec' hwrites g' buffer, hbytes]

theorem print_after_copy_hello :
    ∃ s s₂, format .zero (fun _ _ => 0#8) = .ok s ∧
      copy s (fun _ => .zero) (fun _ _ => 0#8) (some (chars "Hello there!")) (oneLetter 97#8) =
        .ok (none, s₂) ∧
      print s₂ .zero (oneLetter 97#8) (fun _ => 0#8) = .ok (some (chars "Hello there!"), s₂) := by
  obtain ⟨s, hformat, hall⟩ := print_after_copy .zero fun _ _ => 0#8
  obtain ⟨s', hformat', hfresh⟩ := format_spec .zero fun _ _ => 0#8
  cases hformat.symm.trans hformat'
  obtain ⟨-, hcopied⟩ := hall [] s trivial rfl (fun _ => .zero) (fun _ _ => 0#8)
    (chars "Hello there!") (oneLetter 97#8) (by decide)
  obtain ⟨s₂, i, hcopy, -, hnamed, hprint⟩ :=
    hcopied (not_cannotCreate hfresh.entries hfresh.freeMap _ (by decide))
  exact ⟨s, s₂, hformat, hcopy, hprint [] s₂ trivial rfl hnamed rfl .zero fun _ => 0#8⟩

/-! ## `PerformanceTest` -/

section PerformanceTest

variable {s : FileSystem} {files : Files} {i : Fin numDirEntries} {file : File}

theorem rounds_eq : fileSize / contentSize = 5000 := by
  decide

/-- `FileRead` compares the whole file that should be there. -/
theorem fileRead_named (h : s.Inv files) (g : ℕ → Garbage) (buffer : Bytes)
    (hfile : files i = some file)
    (hnamed : ((directoryAt s.disk).table i).isNamed fileName = true) :
    fileRead s g buffer = .ok (if (bytesOf s.disk file).take fileSize = repeated 5000
      then none else some .unableToRead, s) := by
  obtain ⟨handles, hopen, hclose⟩ := openFile_named h (g 2) hfile hnamed
  have hread := readLoop_eq (h.entry hfile).2.2.describes s.disk 5000 buffer
    (Nat.zero_le file.size)
  rw [fileRead, hopen, ok_bind]
  dsimp only
  rw [rounds_eq, show readLoop s.disk 5000 ⟨headerAt s.disk file.sector, 0⟩ buffer = _ from hread,
    ok_bind]
  show Except.ok (_, close { s with handles := handles }) = _
  rw [close, hclose]
  rfl

/-- Without the file nothing can be read or removed. -/
theorem fileRead_absent (h : s.Inv files) (g : ℕ → Garbage) (buffer : Bytes)
    (habsent : (directoryAt s.disk).findIndex fileName = none) :
    fileRead s g buffer = .ok (some .unableToOpenFile, s) := by
  obtain ⟨-, hopen⟩ | ⟨i, file, hindex, -⟩ := h.openFile_spec (g 2) fileName
  · rw [fileRead, hopen]
    rfl
  · rw [habsent] at hindex
    cases hindex

theorem remove_absent (h : s.Inv files) (g : Garbage)
    (habsent : (directoryAt s.disk).findIndex fileName = none) :
    s.remove g fileName = .ok (false, s) := by
  obtain ⟨result, hremove, hspec⟩ := h.remove_spec g fileName
  cases hspec with
  | missing _ => exact hremove
  | removed _ _ _ _ hremoved =>
      have hindex := hremoved.index
      rw [habsent] at hindex
      cases hindex

theorem remove_named (h : s.Inv files) (g : Garbage) (hfile : files i = some file)
    (hnamed : ((directoryAt s.disk).table i).isNamed fileName = true) :
    ∃ disk', s.remove g fileName = .ok (true, { s with
        disk := disk', handles := s.handles.map (Handle.remove (file.sector : ℕ)) }) ∧
      Inv.Removed s.disk disk' fileName i file := by
  have hindex := h.findIndex_of_isNamed hnamed
  obtain ⟨result, hremove, hspec⟩ := h.remove_spec g fileName
  cases hspec with
  | missing hnone =>
      rw [hnone] at hindex
      cases hindex
  | removed disk' j file' hfile' hremoved =>
      have hij := hremoved.index
      rw [hindex] at hij
      cases hij
      rw [hfile] at hfile'
      cases hfile'
      exact ⟨disk', hremove, hremoved⟩

/-- The new file is empty and stays so. -/
theorem fileWrite_created (g : ℕ → Garbage) (heap : ℕ → Bytes) {disk' : Disk}
    (hcreate : s.create (g 0) fileName 0 = .ok (true, { s with disk := disk' }))
    (hopened : Opened s files fileName 0 disk' i file) :
    fileWrite s g heap = .ok (some .unableToWrite, { s with disk := disk' }) := by
  have hself : Function.update files i (some file) i = some file := Function.update_self _ _ _
  obtain ⟨handles, hopen, hclose⟩ := openFile_named hopened.inv (g 1) hself hopened.named
  have hlength : (headerAt disk' file.sector).fileLength = 0 := by
    have hbytes := (hopened.inv.entry hself).2.2.numBytes
    rw [hopened.size] at hbytes
    exact hbytes
  rw [fileWrite, hcreate, ok_bind]
  dsimp only
  rw [if_neg (by simp), hopen, ok_bind]
  dsimp only
  rw [rounds_eq, writeLoop_empty hlength, ok_bind]
  show Except.ok (some PerfError.unableToWrite, close { s with
    disk := disk', handles := handles }) = _
  rw [close, hclose]

theorem fileWrite_failed (h : s.Inv files) (g : ℕ → Garbage) (heap : ℕ → Bytes)
    (hcannot : CannotCreate s.disk fileName 0) :
    fileWrite s g heap = .ok (some .cantCreate, s) := by
  rw [fileWrite, show (0 : ℤ) = ((0 : ℕ) : ℤ) from rfl,
    create_failed h (g 0) (Nat.zero_le _) hcannot]
  rfl

/-- The disk after the file is removed again. -/
theorem Opened.removed {disk' disk'' : Disk} {size : ℕ} {name : Bytes} (h : s.Inv files)
    (hopened : Opened s files name size disk' i file)
    (hremoved : Inv.Removed disk' disk'' name i file) :
    Kept s.disk disk'' ∧
      (∀ x, (freeMapAt disk'').test x = (freeMapAt s.disk).test x) ∧
      ∀ j, ((directoryAt disk'').table j).inUse = 0#8 ↔
        ((directoryAt s.disk).table j).inUse = 0#8 := by
  have hdirectory : ∀ j, j ≠ i →
      (directoryAt disk'').table j = (directoryAt s.disk).table j := by
    intro j hj
    rw [hremoved.directory, Directory.table_set, Function.update_of_ne hj,
      hopened.created.directory, Directory.table_set, Function.update_of_ne hj]
  refine ⟨kept_of_new h hopened.created.free hdirectory fun j file' hfile' x hx => ?_,
    fun x => ?_, fun j => ?_⟩
  · have hheld := hx
    rw [← held_some hfile'] at hheld
    rw [hremoved.other x (h.ne_fixed hheld (by simp [held])) (h.ne_fixed hheld (by simp [held]))]
    exact (created_other h hopened.created j file' hfile' x hx).1
  · rw [hremoved.freeMap, hopened.created.freeMap]
    by_cases hx : x ∈ file.sector :: file.data
    · have hclear : (freeMapAt s.disk).test x = false := by
        rcases List.mem_cons.mp hx with rfl | hx
        · exact hopened.created.clear
        · exact (hopened.created.dataClear x hx).1
      rw [decide_eq_false (not_not.mpr hx), Bool.and_false, hclear]
    · rw [decide_eq_false hx, decide_eq_true hx, Bool.or_false, Bool.and_true]
  · by_cases hj : j = i
    · subst hj
      rw [hremoved.directory, Directory.table_set, Function.update_self]
      exact iff_of_true rfl hopened.created.free
    · rw [hdirectory j hj]

/-- No handle is open on a file that is new. -/
theorem Opened.handles_eq {disk' : Disk} {size : ℕ} {name : Bytes} (h : s.Inv files)
    (hopened : Opened s files name size disk' i file) :
    s.handles.map (Handle.remove (file.sector : ℕ)) = s.handles := by
  refine (List.map_congr_left fun handle hmem => ?_).trans (List.map_id s.handles)
  have hsector : handle.removed = true ∨ handle.sector ≠ (file.sector : ℕ) := by
    rw [← Bool.not_eq_false, ← imp_iff_not_or]
    intro hlive heq
    obtain ⟨j, file', hfile', hsector, -⟩ := h.handles handle hmem hlive
    have hmem' : file'.sector ∈ held files (some j) := held_some hfile' ▸ List.mem_cons_self
    have hsame : file'.sector = file.sector := Fin.ext (by exact_mod_cast hsector.symm.trans heq)
    exact h.exact.not_mem_of_clear hopened.created.clear _ (hsame ▸ hmem')
  obtain ⟨sector, openFile, removed⟩ := handle
  show Handle.mk sector openFile (removed || decide (sector = (file.sector : ℕ))) = _
  rcases hsector with hremoved | hne
  · rw [show removed = true from hremoved]
    rfl
  · rw [decide_eq_false hne, Bool.or_false]
    rfl

end PerformanceTest

/-- `FileWrite` never writes its file, as a file does not grow. `FileRead` succeeds exactly when
there already was a file that begins with the right text. When the file was not there it is not
there afterwards either, and nothing else has changed. -/
theorem performanceTest_outcome (g₀ : Garbage) (disk : Disk) :
    ∃ s, format g₀ disk = .ok s ∧ ∀ labels s₁, AllSteps FileSystem.step Admitted s labels →
      exec FileSystem.step s labels = some s₁ →
      ∀ (g : ℕ → Garbage) (heap : ℕ → Bytes) (buffer : Bytes),
        (∀ i, ((directoryAt s₁.disk).table i).isNamed fileName = true → ∃ l s₂,
          (∀ g buffer, print s₁ g fileName buffer = .ok (some l, s₁)) ∧
          s₁.remove (g 3) fileName = .ok (true, s₂) ∧
          performanceTest s₁ g heap buffer = .ok (if l.take fileSize = repeated 5000
            then [.cantCreate] else [.cantCreate, .unableToRead], s₂)) ∧
        ((∀ i, ((directoryAt s₁.disk).table i).isNamed fileName = false) →
          CannotCreate s₁.disk fileName 0 →
          performanceTest s₁ g heap buffer =
            .ok ([.cantCreate, .unableToOpenFile, .unableToRemove], s₁)) ∧
        (¬ CannotCreate s₁.disk fileName 0 → ∃ disk',
          performanceTest s₁ g heap buffer =
            .ok ([.unableToWrite, .unableToRead], { s₁ with disk := disk' }) ∧
          Kept s₁.disk disk' ∧
          (∀ x, (freeMapAt disk').test x = (freeMapAt s₁.disk).test x) ∧
          ∀ j, ((directoryAt disk').table j).inUse = 0#8 ↔
            ((directoryAt s₁.disk).table j).inUse = 0#8) := by
  obtain ⟨s, hformat, hfresh⟩ := format_spec g₀ disk
  refine ⟨s, hformat, fun labels s₁ hsteps hexec g heap buffer => ?_⟩
  obtain ⟨files, h⟩ := (allStates_inv ⟨_, hfresh.inv⟩ hsteps).exec hexec
  refine ⟨fun i hnamed => ?_, fun habsent hcannot => ?_, fun hcan => ?_⟩
  · -- the file is there
    obtain ⟨file, hfile, -⟩ := (h.entries i).some_of_inUse
      ((DirectoryEntry.isNamed_iff _ _).mp hnamed).1
    obtain ⟨disk', hremove, -⟩ := remove_named h (g 3) hfile hnamed
    refine ⟨bytesOf s₁.disk file, _, fun g buffer => print_named h g buffer hfile hnamed, hremove,
      ?_⟩
    rw [performanceTest, fileWrite_failed h g heap (.present i hnamed), ok_bind]
    dsimp only
    rw [fileRead_named h g buffer hfile hnamed, ok_bind]
    dsimp only
    rw [hremove]
    split <;> rfl
  · -- it is not there, nor can it be created
    have hindex := Directory.findIndex_eq_none_iff.mpr habsent
    rw [performanceTest, fileWrite_failed h g heap hcannot, ok_bind]
    dsimp only
    rw [fileRead_absent h g buffer hindex, ok_bind]
    dsimp only
    rw [remove_absent h (g 3) hindex]
    rfl
  · obtain ⟨disk', i, file, hcreate, hopened⟩ := create_opened h (g 0) (Nat.zero_le _) hcan
    have hself : Function.update files i (some file) i = some file := Function.update_self _ _ _
    obtain ⟨disk'', hremove, hremoved⟩ := remove_named hopened.inv (g 3) hself hopened.named
    have hempty : ¬ (bytesOf disk' file).take fileSize = repeated 5000 := by
      intro heq
      have hlength := congrArg List.length heq
      rw [List.length_take, bytesOf, length_fileBytes, hopened.size, length_repeated] at hlength
      exact absurd hlength (by decide)
    refine ⟨disk'', ?_, hopened.removed h hremoved⟩
    rw [performanceTest, fileWrite_created g heap hcreate hopened, ok_bind]
    dsimp only
    rw [fileRead_named hopened.inv g buffer hself hopened.named, ok_bind]
    dsimp only
    rw [hremove, if_neg hempty]
    show Except.ok ([PerfError.unableToWrite, PerfError.unableToRead], { s₁ with
      disk := disk'', handles := s₁.handles.map (Handle.remove (file.sector : ℕ)) }) = _
    rw [hopened.handles_eq h]

theorem performanceTest_outcome_formatted :
    ∃ s disk', format .zero (fun _ _ => 0#8) = .ok s ∧
      performanceTest s (fun _ => .zero) (fun _ _ => 0#8) (fun _ => 0#8) =
        .ok ([.unableToWrite, .unableToRead], { s with disk := disk' }) := by
  obtain ⟨s, hformat, hall⟩ := performanceTest_outcome .zero fun _ _ => 0#8
  obtain ⟨s', hformat', hfresh⟩ := format_spec .zero fun _ _ => 0#8
  cases hformat.symm.trans hformat'
  obtain ⟨-, -, htest⟩ := hall [] s trivial rfl (fun _ => .zero) (fun _ _ => 0#8) fun _ => 0#8
  obtain ⟨disk', hresult, -⟩ :=
    htest (not_cannotCreate hfresh.entries hfresh.freeMap fileName (by decide))
  exact ⟨s, disk', hformat, hresult⟩

end Nachos.FsTest
