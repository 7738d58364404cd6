import Nachos.Verification.AddrSpace.Copying

/-! # The memory image that `AddrSpace(char*)` builds

The copy loops take the segment's virtual address for an offset from the frame of each
page. Where the bytes of the file end up follows from the header, the length of the file
and the frames alone. -/

namespace Nachos

open Tracking

/-! ## Executables -/

/-- `sizeof(NoffHeader)` -/
def headerSize : ℕ := 40

namespace Segment

/-- The segment lies in the first `numPages` pages of virtual memory. -/
structure InSpace (s : Segment) (numPages : ℕ) : Prop where
  size : 0 ≤ s.size.toInt
  start : 0 < s.size.toInt → 0 ≤ s.virtualAddr.toInt
  stop : 0 < s.size.toInt → s.virtualAddr.toNat + s.size.toNat ≤ numPages * pageSize

/-- The bytes of the segment lie in the file. -/
structure InFile (s : Segment) (length : ℕ) : Prop where
  start : 0 < s.size.toInt → 0 ≤ s.inFileAddr.toInt
  stop : 0 < s.size.toInt → s.inFileAddr.toNat + s.size.toNat ≤ length

/-- The segments do not overlap in virtual memory. -/
def Apart (s t : Segment) : Prop :=
  0 < s.size.toInt → 0 < t.size.toInt →
    s.virtualAddr.toNat + s.size.toNat ≤ t.virtualAddr.toNat ∨
      t.virtualAddr.toNat + t.size.toNat ≤ s.virtualAddr.toNat

instance (s t : Segment) : Decidable (s.Apart t) :=
  inferInstanceAs (Decidable (_ → _))

end Segment

/-- The header of a NOFF file of the given length whose segments are disjoint and lie inside
virtual memory and the file. -/
structure NoffHeader.WellFormed (noffH : NoffHeader) (length : ℕ) : Prop where
  header : headerSize ≤ length
  magic : noffH.noffMagic = Nachos.noffMagic
  code_space : noffH.code.InSpace noffH.numPages
  initData_space : noffH.initData.InSpace noffH.numPages
  uninitData_space : noffH.uninitData.InSpace noffH.numPages
  code_file : noffH.code.InFile length
  initData_file : noffH.initData.InFile length
  code_initData : noffH.code.Apart noffH.initData
  code_uninitData : noffH.code.Apart noffH.uninitData
  initData_uninitData : noffH.initData.Apart noffH.uninitData

/-- The other file has the same header and the same length. -/
structure SameLayout (file file' : List Byte) : Prop where
  length : file'.length = file.length
  header : ∀ q < headerSize, file'.getD q 0#8 = file.getD q 0#8

theorem SameLayout.read {file file' : List Byte} (h : SameLayout file file') :
    NoffHeader.read file' = NoffHeader.read file := by
  have hword : ∀ i < 10, NoffHeader.word file' i = NoffHeader.word file i := by
    intro i hi
    have hbyte : ∀ o < 4, file'.getD (4 * i + o) 0#8 = file.getD (4 * i + o) 0#8 := by
      intro o ho
      apply h.header _
      unfold headerSize
      omega
    have h0 := hbyte 0 (by omega)
    have h1 := hbyte 1 (by omega)
    have h2 := hbyte 2 (by omega)
    have h3 := hbyte 3 (by omega)
    simp only [NoffHeader.word, Machine.load, Nat.add_assoc, Nat.add_zero] at h0 h1 h2 h3 ⊢
    rw [h0, h1, h2, h3]
  simp only [NoffHeader.read, hword 0 (by decide), hword 1 (by decide), hword 2 (by decide),
    hword 3 (by decide), hword 4 (by decide), hword 5 (by decide), hword 6 (by decide),
    hword 7 (by decide), hword 8 (by decide), hword 9 (by decide)]

/-! ## Reading through the page table -/

/-- The byte at a virtual address of the new process. -/
def AddrSpace.readByte (space : AddrSpace) (memory : ℕ → Byte) (addr : ℕ) : Option Byte :=
  let machine : Machine := ⟨fun _ => 0#32, memory, none, space.pageTable⟩
  match machine.translate (BitVec.ofNat 32 addr) 1 false with
  | .ok (physAddr, _) => some (memory physAddr)
  | .error _ => none

/-- The program's image. -/
structure ImageOK (file : List Byte) (space : AddrSpace) (memory : ℕ → Byte) : Prop where
  code : ∀ k < (NoffHeader.read file).code.size.toNat,
    space.readByte memory ((NoffHeader.read file).code.virtualAddr.toNat + k) =
      some (file.getD ((NoffHeader.read file).code.inFileAddr.toNat + k) 0#8)
  initData : ∀ k < (NoffHeader.read file).initData.size.toNat,
    space.readByte memory ((NoffHeader.read file).initData.virtualAddr.toNat + k) =
      some (file.getD ((NoffHeader.read file).initData.inFileAddr.toNat + k) 0#8)
  uninitData : ∀ k < (NoffHeader.read file).uninitData.size.toNat,
    space.readByte memory ((NoffHeader.read file).uninitData.virtualAddr.toNat + k) = some 0#8

/-- `AddrSpace(char*)` returns and has built the image. -/
def LoadsImage (file : List Byte) (b : BitMap numPhysPages) (memory : ℕ → Byte) : Prop :=
  ∃ space b' memory', AddrSpace.load file b memory = .ok (space, b', memory') ∧
    ImageOK file space memory'

/-- The physical address of a virtual one. -/
def physAddr (frames : List ℕ) (addr : ℕ) : ℕ :=
  frames.getD (addr / pageSize) 0 * pageSize + addr % pageSize

theorem readByte_ofFrames {frames : List ℕ} (hframes : ∀ frame ∈ frames, frame < numPhysPages)
    (hlength : frames.length ≤ numPhysPages) (memory : ℕ → Byte) {addr : ℕ}
    (haddr : addr < frames.length * pageSize) :
    (AddrSpace.ofFrames (frames.map fun frame : ℕ => (frame : ℤ))).readByte memory addr =
      some (memory (physAddr frames addr)) := by
  have hpage : addr / pageSize < frames.length := Nat.div_lt_of_lt_mul (by rwa [Nat.mul_comm])
  have hsmall : addr < 2 ^ 32 := by
    have hbound : frames.length * pageSize ≤ numPhysPages * pageSize :=
      Nat.mul_le_mul_right _ hlength
    have hmemory : numPhysPages * pageSize < 2 ^ 32 := by decide
    omega
  have hframe : frames.getD (addr / pageSize) 0 = frames[addr / pageSize] := by
    rw [List.getD_eq_getElem?_getD, List.getElem?_eq_getElem hpage]
    rfl
  have hlt : frames[addr / pageSize] < numPhysPages := hframes _ (List.getElem_mem hpage)
  have hunsigned : Machine.toUnsigned (frames[addr / pageSize] : ℤ) = frames[addr / pageSize] := by
    unfold Machine.toUnsigned
    unfold numPhysPages at hlt
    omega
  have hentry : (AddrSpace.table (frames.map fun frame : ℕ => (frame : ℤ)))[addr / pageSize]? =
      some ⟨addr / pageSize, frames[addr / pageSize], true, false, false, false⟩ := by
    simp [AddrSpace.table, hpage]
  have hinside : frames[addr / pageSize] * pageSize + addr % pageSize + 1 ≤ memorySize := by
    have hoffset : addr % pageSize < pageSize := Nat.mod_lt _ (by decide)
    have hpages : (frames[addr / pageSize] + 1) * pageSize ≤ numPhysPages * pageSize :=
      Nat.mul_le_mul_right _ hlt
    rw [Nat.add_mul, Nat.one_mul] at hpages
    unfold memorySize
    omega
  have htoNat : (BitVec.ofNat 32 addr).toNat = addr := by
    rw [BitVec.toNat_ofNat, Nat.mod_eq_of_lt hsmall]
  have htranslated : ∀ page : ℤ, Machine.translateEntry
      ⟨page, frames[addr / pageSize], true, false, false, false⟩ (addr % pageSize) 1 false =
        .ok (physAddr frames addr, ⟨page, frames[addr / pageSize], true, false, true, false⟩) := by
    intro page
    simp only [Machine.translateEntry, hunsigned, if_neg hlt.not_ge, if_pos hinside, physAddr,
      hframe]
    rfl
  simp only [AddrSpace.readByte, AddrSpace.ofFrames, Machine.translate, htoNat, hentry,
    htranslated]
  rfl

/-! ## Where the bytes of the file end up -/

/-- Byte `q` of the file is the last one that is copied to the physical address `p`: the
loop for `initData` runs after the loop for `code`. -/
def NoffHeader.Lands (noffH : NoffHeader) (length : ℕ) (frames : List ℕ) (p q : ℕ) : Prop :=
  noffH.initData.Copies length frames p q ∨
    (∀ q', ¬ noffH.initData.Copies length frames p q') ∧ noffH.code.Copies length frames p q

/-- Where the image has byte `k` of a segment. -/
def Segment.place (s : Segment) (frames : List ℕ) (k : ℕ) : ℕ :=
  physAddr frames (s.virtualAddr.toNat + k)

/-- The page of the virtual address of byte `k` and the page of its offset in the segment
are in frames that are as far apart as the pages. -/
def Segment.InPlace (s : Segment) (frames : List ℕ) (k : ℕ) : Prop :=
  frames.getD ((s.virtualAddr.toNat + k) / pageSize) 0 + k / pageSize =
    frames.getD (k / pageSize) 0 + (s.virtualAddr.toNat + k) / pageSize

/-- The byte of the file that the loop brings to the physical address `p`, if any: `p` less
the virtual address of the segment lies in a frame, and the page of this frame says which
page of the file goes there. -/
def Segment.source (s : Segment) (length : ℕ) (frames : List ℕ) (p : ℕ) : Option ℕ :=
  let offset := p - s.virtualAddr.toNat
  let q := s.inFileAddr.toNat + frames.idxOf (offset / pageSize) * pageSize + offset % pageSize
  if 0 < s.size.toInt ∧ s.virtualAddr.toNat ≤ p ∧ offset / pageSize ∈ frames ∧ q < length then
    some q
  else none

/-- The loop copies byte `k` of a segment to its place exactly when the frames are in
place. -/
theorem Segment.copies_own_iff {s : Segment} {length k : ℕ} {frames : List ℕ}
    (hsize : 0 < s.size.toInt) (hfile : s.inFileAddr.toNat + k < length)
    (hpage : k / pageSize < frames.length) :
    s.Copies length frames (s.place frames k) (s.inFileAddr.toNat + k) ↔ s.InPlace frames k := by
  have hframe : frames[k / pageSize]? = some (frames.getD (k / pageSize) 0) := by
    rw [List.getD_eq_getElem?_getD, List.getElem?_eq_getElem hpage]
    rfl
  unfold place physAddr InPlace
  generalize hf : frames.getD ((s.virtualAddr.toNat + k) / pageSize) 0 = f
  constructor
  · rintro ⟨-, j, frame, o, hj, ho, -, hposition, hdest⟩
    obtain ⟨rfl, rfl⟩ : j = k / pageSize ∧ o = k % pageSize := by
      unfold pageSize at ho hposition ⊢
      omega
    cases hframe.symm.trans hj
    unfold pageSize at hdest ⊢
    omega
  · intro hshift
    refine ⟨hsize, k / pageSize, _, k % pageSize, hframe, Nat.mod_lt _ (by decide), hfile, ?_, ?_⟩
    · rw [Nat.zero_add, Nat.add_assoc, Nat.div_add_mod']
    · unfold pageSize at hshift ⊢
      omega

/-- In frames that differ, at most one byte is brought to an address, and the address tells
which. -/
theorem Segment.copies_iff_source {s : Segment} {length p q : ℕ} {frames : List ℕ}
    (hnodup : frames.Nodup) : s.Copies length frames p q ↔ s.source length frames p = some q := by
  unfold source
  dsimp only
  constructor
  · rintro ⟨hsize, j, frame, o, hj, ho, hq, rfl, rfl⟩
    obtain ⟨hlt, rfl⟩ := List.getElem?_eq_some_iff.mp hj
    have hoffset : s.virtualAddr.toNat + frames[j] * pageSize + o - s.virtualAddr.toNat =
        frames[j] * pageSize + o := by omega
    have hpage : (frames[j] * pageSize + o) / pageSize = frames[j] := by
      unfold pageSize at ho ⊢
      omega
    have hrest : (frames[j] * pageSize + o) % pageSize = o := by
      unfold pageSize at ho ⊢
      omega
    rw [Nat.zero_add] at hq ⊢
    rw [hoffset, hpage, hrest, hnodup.idxOf_getElem j hlt,
      if_pos ⟨hsize, by omega, List.getElem_mem hlt, hq⟩]
  · intro hsource
    obtain ⟨⟨hsize, hle, hmem, hq⟩, heq⟩ := Option.ite_none_right_eq_some.mp hsource
    cases heq
    refine ⟨hsize, _, _, (p - s.virtualAddr.toNat) % pageSize, List.getElem?_idxOf hmem,
      Nat.mod_lt _ (by decide), hq, ?_, ?_⟩
    · rw [Nat.zero_add]
    · rw [Nat.add_assoc, Nat.div_add_mod', Nat.add_sub_cancel' hle]

/-- What the two loops leave at `p`. -/
theorem NoffHeader.lands_iff_source {noffH : NoffHeader} {length p q : ℕ} {frames : List ℕ}
    (hnodup : frames.Nodup) :
    noffH.Lands length frames p q ↔
      (noffH.initData.source length frames p).or (noffH.code.source length frames p) = some q := by
  unfold Lands
  rw [Option.or_eq_some_iff, Option.eq_none_iff_forall_ne_some]
  simp only [Segment.copies_iff_source hnodup, ne_eq]

/-- A well-formed file with its header, and the frames into which it is loaded. -/
structure Loading (file : List Byte) (b : BitMap numPhysPages) (noffH : NoffHeader)
    (frames : List ℕ) : Prop where
  read : NoffHeader.read file = noffH
  wellFormed : noffH.WellFormed file.length
  room : noffH.numPages ≤ b.numClear
  frames : frames = AddrSpace.freeFrames b noffH.numPages

theorem NoffHeader.WellFormed.starts {noffH : NoffHeader} {length : ℕ}
    (h : noffH.WellFormed length) : noffH.code.Starts ∧ noffH.initData.Starts :=
  ⟨fun hsize => ⟨h.code_space.start hsize, h.code_file.start hsize⟩,
    fun hsize => ⟨h.initData_space.start hsize, h.initData_file.start hsize⟩⟩

namespace Loading

variable {file : List Byte} {b : BitMap numPhysPages} {noffH : NoffHeader} {frames : List ℕ}
  {memory memory' : ℕ → Byte}

theorem length_frames (h : Loading file b noffH frames) : frames.length = noffH.numPages := by
  rw [h.frames, AddrSpace.length_freeFrames h.room]

theorem length_le (h : Loading file b noffH frames) : frames.length ≤ numPhysPages := by
  rw [h.length_frames]
  exact h.room.trans b.numClear_le

theorem increasing (h : Loading file b noffH frames) : frames.Pairwise (· < ·) := by
  rw [h.frames]
  exact AddrSpace.freeFrames_increasing b _

theorem frame_lt (h : Loading file b noffH frames) : ∀ frame ∈ frames, frame < numPhysPages := by
  intro frame hframe
  rw [h.frames] at hframe
  exact AddrSpace.lt_of_mem_freeFrames hframe

/-- The constructor is its two copy loops over the first clear frames. -/
theorem load_eq (h : Loading file b noffH frames) (memory : ℕ → Byte) :
    AddrSpace.load file b memory =
      (copySegment file noffH.code (frames.map fun frame : ℕ => (frame : ℤ)) memory >>=
        fun memory =>
          copySegment file noffH.initData (frames.map fun frame : ℕ => (frame : ℤ)) memory >>=
          fun memory => .ok (.ofFrames (frames.map fun frame : ℕ => (frame : ℤ)),
            (AddrSpace.allocate noffH.numPages b).2, memory)) := by
  unfold AddrSpace.load
  rw [h.read]
  dsimp only
  rw [if_neg (not_not.mpr h.wellFormed.magic), if_neg h.room.not_gt,
    AddrSpace.allocate_frames _ b h.room, h.frames]

/-- What a constructor that returns leaves in memory. -/
theorem load_spec (h : Loading file b noffH frames) {space : AddrSpace}
    {b' : BitMap numPhysPages}
    (hload : AddrSpace.load file b memory = .ok (space, b', memory')) :
    space = .ofFrames (frames.map fun frame : ℕ => (frame : ℤ)) ∧
      (∀ p q, noffH.Lands file.length frames p q → memory' p = file.getD q 0#8) ∧
      ∀ p, (∀ q, ¬ noffH.Lands file.length frames p q) → memory' p = memory p := by
  rw [h.load_eq] at hload
  obtain ⟨memory₁, hcode, hload⟩ := except_bind_eq_ok.mp hload
  obtain ⟨memory₂, hinit, hload⟩ := except_bind_eq_ok.mp hload
  simp only [Except.ok.injEq, Prod.mk.injEq] at hload
  obtain ⟨rfl, -, rfl⟩ := hload
  obtain ⟨hcode, hcodeKept⟩ :=
    Segment.copySegment_spec h.wellFormed.starts.1 h.increasing h.length_le hcode
  obtain ⟨hinit, hinitKept⟩ :=
    Segment.copySegment_spec h.wellFormed.starts.2 h.increasing h.length_le hinit
  refine ⟨rfl, ?_, ?_⟩
  · rintro p q (hq | ⟨hnone, hq⟩)
    · exact hinit p q hq
    · rw [hinitKept p hnone]
      exact hcode p q hq
  · intro p hnone
    have hinitNone : ∀ q, ¬ noffH.initData.Copies file.length frames p q :=
      fun q hq => hnone q (.inl hq)
    rw [hinitKept p hinitNone]
    exact hcodeKept p fun q hq => hnone q (.inr ⟨hinitNone, hq⟩)

/-- The constructor returns exactly when every read succeeds. -/
theorem load_ok_iff (h : Loading file b noffH frames) (memory : ℕ → Byte) :
    (∃ r, AddrSpace.load file b memory = .ok r) ↔
      noffH.code.Fits file.length frames ∧ noffH.initData.Fits file.length frames := by
  have hcode : ∀ memory : ℕ → Byte, (∃ memory', copySegment file noffH.code
      (frames.map fun frame : ℕ => (frame : ℤ)) memory = .ok memory') ↔
      noffH.code.Fits file.length frames := fun _ =>
    Segment.copySegment_ok_iff h.wellFormed.starts.1 h.length_le
  have hinit : ∀ memory : ℕ → Byte, (∃ memory', copySegment file noffH.initData
      (frames.map fun frame : ℕ => (frame : ℤ)) memory = .ok memory') ↔
      noffH.initData.Fits file.length frames := fun _ =>
    Segment.copySegment_ok_iff h.wellFormed.starts.2 h.length_le
  rw [h.load_eq]
  constructor
  · rintro ⟨r, hload⟩
    obtain ⟨memory₁, hcode₁, hload⟩ := except_bind_eq_ok.mp hload
    obtain ⟨memory₂, hinit₂, -⟩ := except_bind_eq_ok.mp hload
    exact ⟨(hcode memory).mp ⟨memory₁, hcode₁⟩, (hinit memory₁).mp ⟨memory₂, hinit₂⟩⟩
  · rintro ⟨hcodeFits, hinitFits⟩
    obtain ⟨memory₁, hcode₁⟩ := (hcode memory).mpr hcodeFits
    obtain ⟨memory₂, hinit₂⟩ := (hinit memory₁).mpr hinitFits
    exact ⟨_, except_bind_eq_ok.mpr ⟨memory₁, hcode₁,
      except_bind_eq_ok.mpr ⟨memory₂, hinit₂, rfl⟩⟩⟩

/-- Another file of the same layout. -/
theorem congr {file' : List Byte} (h : Loading file b noffH frames)
    (hlayout : SameLayout file file') : Loading file' b noffH frames :=
  ⟨hlayout.read.trans h.read, hlayout.length ▸ h.wellFormed, h.room, h.frames⟩

theorem readByte_eq (h : Loading file b noffH frames) {space : AddrSpace}
    {b' : BitMap numPhysPages}
    (hload : AddrSpace.load file b memory = .ok (space, b', memory')) {addr : ℕ}
    (haddr : addr < noffH.numPages * pageSize) :
    space.readByte memory' addr = some (memory' (physAddr frames addr)) := by
  obtain ⟨rfl, -⟩ := h.load_spec hload
  exact readByte_ofFrames h.frame_lt h.length_le memory' (h.length_frames ▸ haddr)

end Loading

/-! ## When the image is right -/

theorem byte_add_one_ne (byte : Byte) : byte + 1#8 ≠ byte := by
  revert byte
  decide

/-- Two bytes of the header that are equal. -/
def Twins (file : List Byte) (q p : ℕ) : Prop :=
  q < headerSize ∧ p < headerSize ∧ file.getD q 0#8 = file.getD p 0#8

/-- Bytes `q` and `p` of the file are the same byte, or two bytes of the header that are
equal. -/
def SameByte (file : List Byte) (q p : ℕ) : Prop :=
  q = p ∨ Twins file q p

/-- Every read succeeds; the bytes of `code` and `initData` are in place, and nothing of
`initData` is copied over `code`; the bytes of `uninitData` are zeros of the header. A byte
may also be right because an equal one is copied to its place. -/
structure Placed (file : List Byte) (noffH : NoffHeader) (frames : List ℕ) : Prop where
  code_fits : noffH.code.Fits file.length frames
  initData_fits : noffH.initData.Fits file.length frames
  code : ∀ k < noffH.code.size.toNat,
    noffH.initData.source file.length frames (noffH.code.place frames k) = none →
      noffH.code.InPlace frames k ∨
        ∃ q ∈ noffH.code.source file.length frames (noffH.code.place frames k),
          Twins file q (noffH.code.inFileAddr.toNat + k)
  code_kept : ∀ k < noffH.code.size.toNat,
    ∀ q ∈ noffH.initData.source file.length frames (noffH.code.place frames k),
      SameByte file q (noffH.code.inFileAddr.toNat + k)
  initData : ∀ k < noffH.initData.size.toNat,
    ∀ q ∈ noffH.initData.source file.length frames (noffH.initData.place frames k),
      noffH.initData.InPlace frames k ∨ Twins file q (noffH.initData.inFileAddr.toNat + k)
  initData_missed : ∀ k < noffH.initData.size.toNat,
    noffH.initData.source file.length frames (noffH.initData.place frames k) = none →
      ∃ q ∈ noffH.code.source file.length frames (noffH.initData.place frames k),
        SameByte file q (noffH.initData.inFileAddr.toNat + k)
  uninitData : ∀ k < noffH.uninitData.size.toNat, ∃ q < headerSize, file.getD q 0#8 = 0#8 ∧
    (noffH.initData.source file.length frames (noffH.uninitData.place frames k)).or
      (noffH.code.source file.length frames (noffH.uninitData.place frames k)) = some q

theorem Segment.InSpace.addr_lt {s : Segment} {numPages k : ℕ} (h : s.InSpace numPages)
    (hk : k < s.size.toNat) : s.virtualAddr.toNat + k < numPages * pageSize := by
  have hsize : 0 < s.size.toInt := by
    rw [toInt_eq_toNat h.size]
    omega
  have hstop := h.stop hsize
  omega

theorem Segment.InFile.position_lt {s : Segment} {numPages length k : ℕ} (h : s.InFile length)
    (hspace : s.InSpace numPages) (hk : k < s.size.toNat) : s.inFileAddr.toNat + k < length := by
  have hsize : 0 < s.size.toInt := by
    rw [toInt_eq_toNat hspace.size]
    omega
  have hstop := h.stop hsize
  omega

theorem SameByte.getD_eq {file file' : List Byte} {q p : ℕ} (h : SameByte file q p)
    (hlayout : SameLayout file file') : file'.getD q 0#8 = file'.getD p 0#8 := by
  rcases h with rfl | ⟨hq, hp, heq⟩
  · rfl
  · rw [hlayout.header q hq, hlayout.header p hp, heq]

namespace Loading

variable {file : List Byte} {b : BitMap numPhysPages} {noffH : NoffHeader} {frames : List ℕ}
  {memory memory' : ℕ → Byte}

theorem nodup (h : Loading file b noffH frames) : frames.Nodup :=
  h.increasing.imp ne_of_lt

/-- The loop for a segment brings its byte `k` to its place exactly when the frames are in
place. -/
theorem source_own_iff (h : Loading file b noffH frames) {s : Segment} {k : ℕ}
    (hspace : s.InSpace noffH.numPages) (hfile : s.InFile file.length) (hk : k < s.size.toNat) :
    s.source file.length frames (s.place frames k) = some (s.inFileAddr.toNat + k) ↔
      s.InPlace frames k := by
  have hsize : 0 < s.size.toInt := by
    rw [Segment.toInt_eq_toNat hspace.size]
    omega
  have haddr := hspace.addr_lt hk
  have hpage : k / pageSize < frames.length := by
    rw [h.length_frames, Nat.div_lt_iff_lt_mul (by decide)]
    omega
  rw [← Segment.copies_iff_source h.nodup,
    Segment.copies_own_iff hsize (hfile.position_lt hspace hk) hpage]

theorem lands_code_iff (h : Loading file b noffH frames) {k : ℕ}
    (hk : k < noffH.code.size.toNat) :
    (∃ q, SameByte file q (noffH.code.inFileAddr.toNat + k) ∧
      noffH.Lands file.length frames (noffH.code.place frames k) q) ↔
      (noffH.initData.source file.length frames (noffH.code.place frames k) = none →
        noffH.code.InPlace frames k ∨
          ∃ q ∈ noffH.code.source file.length frames (noffH.code.place frames k),
            Twins file q (noffH.code.inFileAddr.toNat + k)) ∧
      ∀ q ∈ noffH.initData.source file.length frames (noffH.code.place frames k),
        SameByte file q (noffH.code.inFileAddr.toNat + k) := by
  have hown := h.source_own_iff h.wellFormed.code_space h.wellFormed.code_file hk
  simp only [NoffHeader.lands_iff_source h.nodup]
  rw [← hown]
  cases noffH.initData.source file.length frames (noffH.code.place frames k) with
  | none =>
      simp only [Option.none_or, true_implies, reduceCtorEq, Option.mem_def, false_implies,
        implies_true, and_true, SameByte]
      constructor
      · rintro ⟨q, rfl | htwins, hq⟩
        · exact .inl hq
        · exact .inr ⟨q, hq, htwins⟩
      · rintro (hq | ⟨q, hq, htwins⟩)
        · exact ⟨_, .inl rfl, hq⟩
        · exact ⟨q, .inr htwins, hq⟩
  | some q =>
      simp [eq_comm]

theorem lands_initData_iff (h : Loading file b noffH frames) {k : ℕ}
    (hk : k < noffH.initData.size.toNat) :
    (∃ q, SameByte file q (noffH.initData.inFileAddr.toNat + k) ∧
      noffH.Lands file.length frames (noffH.initData.place frames k) q) ↔
      (∀ q ∈ noffH.initData.source file.length frames (noffH.initData.place frames k),
        noffH.initData.InPlace frames k ∨
          Twins file q (noffH.initData.inFileAddr.toNat + k)) ∧
      (noffH.initData.source file.length frames (noffH.initData.place frames k) = none →
        ∃ q ∈ noffH.code.source file.length frames (noffH.initData.place frames k),
          SameByte file q (noffH.initData.inFileAddr.toNat + k)) := by
  have hown := h.source_own_iff h.wellFormed.initData_space h.wellFormed.initData_file hk
  simp only [NoffHeader.lands_iff_source h.nodup]
  rw [← hown]
  cases noffH.initData.source file.length frames (noffH.initData.place frames k) with
  | none => simp [and_comm]
  | some q => simp [SameByte, eq_comm]

/-- A layout that is right builds the image of every file that has it. -/
theorem loadsImage_of_placed (h : Loading file b noffH frames) (hplaced : Placed file noffH frames)
    {file' : List Byte} (hlayout : SameLayout file file') (memory : ℕ → Byte) :
    LoadsImage file' b memory := by
  have h' := h.congr hlayout
  have hfits : noffH.code.Fits file'.length frames ∧ noffH.initData.Fits file'.length frames :=
    hlayout.length ▸ ⟨hplaced.code_fits, hplaced.initData_fits⟩
  obtain ⟨⟨space, b', memory'⟩, hload⟩ := (h'.load_ok_iff memory).mpr hfits
  obtain ⟨-, hlands, -⟩ := h'.load_spec hload
  rw [hlayout.length] at hlands
  refine ⟨space, b', memory', hload, ?_, ?_, ?_⟩
  all_goals rw [h'.read]
  · intro k hk
    obtain ⟨q, hsame, hq⟩ := (h.lands_code_iff hk).mpr ⟨hplaced.code k hk, hplaced.code_kept k hk⟩
    exact (h'.readByte_eq hload (h.wellFormed.code_space.addr_lt hk)).trans
      (congrArg some ((hlands _ q hq).trans (hsame.getD_eq hlayout)))
  · intro k hk
    obtain ⟨q, hsame, hq⟩ := (h.lands_initData_iff hk).mpr
      ⟨hplaced.initData k hk, hplaced.initData_missed k hk⟩
    exact (h'.readByte_eq hload (h.wellFormed.initData_space.addr_lt hk)).trans
      (congrArg some ((hlands _ q hq).trans (hsame.getD_eq hlayout)))
  · intro k hk
    obtain ⟨q, hheader, hzero, hq⟩ := hplaced.uninitData k hk
    rw [← NoffHeader.lands_iff_source h.nodup] at hq
    exact (h'.readByte_eq hload (h.wellFormed.uninitData_space.addr_lt hk)).trans
      (congrArg some ((hlands _ q hq).trans ((hlayout.header q hheader).trans hzero)))

/-- Whatever the file of this layout and the old memory contain, the constructor puts the
given byte of it at `p`. -/
def Shows (file : List Byte) (b : BitMap numPhysPages) (p : ℕ) (want : List Byte → Byte) : Prop :=
  ∀ file' memory, SameLayout file file' →
    ∃ space b' memory', AddrSpace.load file' b memory = .ok (space, b', memory') ∧
      memory' p = want file'

variable {p q : ℕ} {want : List Byte → Byte}

theorem exists_lands (h : Loading file b noffH frames) (hshows : Shows file b p want) :
    ∃ q, noffH.Lands file.length frames p q := by
  by_contra hnone
  have hnone : ∀ q, ¬ noffH.Lands file.length frames p q := not_exists.mp hnone
  -- a byte that nothing is copied to keeps its old value
  obtain ⟨space, b', memory', hload, hwant⟩ :=
    hshows file (fun _ => want file + 1#8) ⟨rfl, fun _ _ => rfl⟩
  rw [(h.load_spec hload).2.2 p hnone] at hwant
  exact byte_add_one_ne _ hwant

theorem want_eq (h : Loading file b noffH frames) (hshows : Shows file b p want)
    (hq : noffH.Lands file.length frames p q) {file' : List Byte}
    (hlayout : SameLayout file file') : want file' = file'.getD q 0#8 := by
  obtain ⟨space, b', memory', hload, hwant⟩ := hshows file' (fun _ => 0#8) hlayout
  rw [← hwant]
  exact ((h.congr hlayout).load_spec hload).2.1 p q (hlayout.length ▸ hq)

end Loading

/-! ## Changing one byte of the file -/

section

variable {file : List Byte} {p q : ℕ}

theorem sameLayout_set (hq : headerSize ≤ q) (byte : Byte) : SameLayout file (file.set q byte) := by
  refine ⟨List.length_set, fun p hp => ?_⟩
  rw [List.getD_eq_getElem?_getD, List.getElem?_set_ne (by omega), List.getD_eq_getElem?_getD]

theorem getD_set_self (hq : q < file.length) (byte : Byte) :
    (file.set q byte).getD q 0#8 = byte := by
  rw [List.getD_eq_getElem?_getD, List.getElem?_set_self hq]
  rfl

theorem getD_set_ne (hne : q ≠ p) (byte : Byte) :
    (file.set q byte).getD p 0#8 = file.getD p 0#8 := by
  rw [List.getD_eq_getElem?_getD, List.getElem?_set_ne hne, List.getD_eq_getElem?_getD]

/-- Two bytes that agree in every file of the layout. -/
theorem sameByte_of_forall (hp : p < file.length) (hq : q < file.length)
    (h : ∀ file', SameLayout file file' → file'.getD p 0#8 = file'.getD q 0#8) :
    SameByte file q p := by
  by_contra hdifferent
  have hne : q ≠ p := fun heq => hdifferent (.inl heq)
  have hself := h file ⟨rfl, fun _ _ => rfl⟩
  by_cases hpHeader : p < headerSize
  · by_cases hqHeader : q < headerSize
    · exact hdifferent (.inr ⟨hqHeader, hpHeader, hself.symm⟩)
    · have hchanged := h _ (sameLayout_set (not_lt.mp hqHeader) (file.getD q 0#8 + 1#8))
      rw [getD_set_ne hne, getD_set_self hq, hself] at hchanged
      exact byte_add_one_ne _ hchanged.symm
  · have hchanged := h _ (sameLayout_set (not_lt.mp hpHeader) (file.getD p 0#8 + 1#8))
    rw [getD_set_ne hne.symm, getD_set_self hp, ← hself] at hchanged
    exact byte_add_one_ne _ hchanged

/-- A byte that is zero in every file of the layout. -/
theorem header_of_forall_zero (hq : q < file.length)
    (h : ∀ file', SameLayout file file' → 0#8 = file'.getD q 0#8) : q < headerSize := by
  by_contra hheader
  have hchanged := h _ (sameLayout_set (not_lt.mp hheader) 1#8)
  rw [getD_set_self hq] at hchanged
  revert hchanged
  decide

theorem NoffHeader.Lands.lt_length {noffH : NoffHeader} {length : ℕ} {frames : List ℕ}
    (h : noffH.Lands length frames p q) : q < length := by
  rcases h with ⟨-, -, -, -, -, -, hq, -⟩ | ⟨-, -, -, -, -, -, -, hq, -⟩
  · exact hq
  · exact hq

end

namespace Loading

variable {file : List Byte} {b : BitMap numPhysPages} {noffH : NoffHeader} {frames : List ℕ}

/-- The address of a segment's byte shows what the image has there. -/
theorem shows_of_read (h : Loading file b noffH frames) {addr : ℕ} {want : List Byte → Byte}
    (haddr : addr < noffH.numPages * pageSize)
    (hall : ∀ file' memory, SameLayout file file' → LoadsImage file' b memory)
    (hread : ∀ file' space memory', SameLayout file file' → ImageOK file' space memory' →
      space.readByte memory' addr = some (want file')) :
    Shows file b (physAddr frames addr) want := by
  intro file' memory hlayout
  obtain ⟨space, b', memory', hload, himage⟩ := hall file' memory hlayout
  have hbyte := hread file' space memory' hlayout himage
  rw [(h.congr hlayout).readByte_eq hload haddr] at hbyte
  exact ⟨space, b', memory', hload, Option.some.inj hbyte⟩

/-- A byte of the image that is read from the file is placed right. -/
theorem exists_sameByte (h : Loading file b noffH frames) {addr position : ℕ}
    (haddr : addr < noffH.numPages * pageSize) (hposition : position < file.length)
    (hall : ∀ file' memory, SameLayout file file' → LoadsImage file' b memory)
    (hread : ∀ file' space memory', SameLayout file file' → ImageOK file' space memory' →
      space.readByte memory' addr = some (file'.getD position 0#8)) :
    ∃ q, SameByte file q position ∧ noffH.Lands file.length frames (physAddr frames addr) q := by
  have hshows := h.shows_of_read haddr hall hread
  obtain ⟨q, hq⟩ := h.exists_lands hshows
  exact ⟨q, sameByte_of_forall hposition hq.lt_length fun file' => h.want_eq hshows hq, hq⟩

theorem placed_of_loadsImage (h : Loading file b noffH frames)
    (hall : ∀ file' memory, SameLayout file file' → LoadsImage file' b memory) :
    Placed file noffH frames := by
  have hfits : noffH.code.Fits file.length frames ∧ noffH.initData.Fits file.length frames := by
    obtain ⟨space, b', memory', hload, -⟩ := hall file (fun _ => 0#8) ⟨rfl, fun _ _ => rfl⟩
    exact (h.load_ok_iff _).mp ⟨_, hload⟩
  have hcode : ∀ k < noffH.code.size.toNat,
      ∃ q, SameByte file q (noffH.code.inFileAddr.toNat + k) ∧
        noffH.Lands file.length frames (noffH.code.place frames k) q := by
    intro k hk
    refine h.exists_sameByte (h.wellFormed.code_space.addr_lt hk)
      (h.wellFormed.code_file.position_lt h.wellFormed.code_space hk) hall ?_
    intro file' space memory' hlayout himage
    have hcode := himage.code
    rw [(h.congr hlayout).read] at hcode
    exact hcode k hk
  have hinitData : ∀ k < noffH.initData.size.toNat,
      ∃ q, SameByte file q (noffH.initData.inFileAddr.toNat + k) ∧
        noffH.Lands file.length frames (noffH.initData.place frames k) q := by
    intro k hk
    refine h.exists_sameByte (h.wellFormed.initData_space.addr_lt hk)
      (h.wellFormed.initData_file.position_lt h.wellFormed.initData_space hk) hall ?_
    intro file' space memory' hlayout himage
    have hinit := himage.initData
    rw [(h.congr hlayout).read] at hinit
    exact hinit k hk
  refine ⟨hfits.1, hfits.2, fun k hk => ((h.lands_code_iff hk).mp (hcode k hk)).1,
    fun k hk => ((h.lands_code_iff hk).mp (hcode k hk)).2,
    fun k hk => ((h.lands_initData_iff hk).mp (hinitData k hk)).1,
    fun k hk => ((h.lands_initData_iff hk).mp (hinitData k hk)).2, ?_⟩
  intro k hk
  have hshows : Shows file b (noffH.uninitData.place frames k) fun _ => 0#8 := by
    apply h.shows_of_read (h.wellFormed.uninitData_space.addr_lt hk) hall
    intro file' space memory' hlayout himage
    have huninit := himage.uninitData
    rw [(h.congr hlayout).read] at huninit
    exact huninit k hk
  obtain ⟨q, hq⟩ := h.exists_lands hshows
  refine ⟨q, header_of_forall_zero hq.lt_length fun file' => h.want_eq hshows hq, ?_,
    (NoffHeader.lands_iff_source h.nodup).mp hq⟩
  exact (h.want_eq hshows hq ⟨rfl, fun _ _ => rfl⟩).symm

end Loading

/-- A program that has only code, linked at virtual address 0, is placed right in any
frames. -/
theorem Loading.placed_of_code {file : List Byte} {b : BitMap numPhysPages} {noffH : NoffHeader}
    {frames : List ℕ} (h : Loading file b noffH frames) (hstart : noffH.code.virtualAddr = 0#32)
    (hinitData : noffH.initData.size = 0#32) (huninitData : noffH.uninitData.size = 0#32)
    (hposition : noffH.code.inFileAddr.toNat + noffH.numPages * pageSize < 2 ^ 31) :
    Placed file noffH frames := by
  have hnone : ¬ 0 < noffH.initData.size.toInt := by
    rw [hinitData]
    decide
  have hzero : noffH.code.virtualAddr.toNat = 0 := by
    rw [hstart]
    rfl
  have hframe : ∀ j frame, frames[j]? = some frame → j < noffH.numPages ∧ frame < numPhysPages := by
    intro j frame hj
    obtain ⟨hlt, rfl⟩ := List.getElem?_eq_some_iff.mp hj
    exact ⟨h.length_frames ▸ hlt, h.frame_lt _ (List.getElem_mem hlt)⟩
  have hsource : ∀ p, noffH.initData.source file.length frames p = none := by
    intro p
    exact if_neg fun hcopied => hnone hcopied.1
  refine ⟨fun _ j frame hj => ?_, fun hsize => absurd hsize hnone, fun k _ _ => .inl ?_, ?_, ?_, ?_,
    ?_⟩
  · obtain ⟨hj, hlt⟩ := hframe j frame hj
    have hpage : j * pageSize ≤ noffH.numPages * pageSize := Nat.mul_le_mul_right _ hj.le
    have hinside : (frame + 1) * pageSize ≤ numPhysPages * pageSize := Nat.mul_le_mul_right _ hlt
    rw [Nat.add_mul, Nat.one_mul] at hinside
    refine ⟨by omega, fun o ho _ => ?_⟩
    unfold memorySize
    omega
  · rw [Segment.InPlace, hzero, Nat.zero_add]
  · intro k _ q hq
    rw [hsource] at hq
    cases hq
  all_goals intro k hk
  · rw [hinitData] at hk
    exact absurd hk (Nat.not_lt_zero k)
  · rw [hinitData] at hk
    exact absurd hk (Nat.not_lt_zero k)
  · rw [huninitData] at hk
    exact absurd hk (Nat.not_lt_zero k)

/-- For every header, length of the file and set of free frames: the image is right for all
contents of the file and of memory exactly when the bytes are placed right. -/
theorem loadsImage_iff_placed {file : List Byte} {b : BitMap numPhysPages}
    (hfile : (NoffHeader.read file).WellFormed file.length)
    (hroom : (NoffHeader.read file).numPages ≤ b.numClear) :
    (∀ file' memory, SameLayout file file' → LoadsImage file' b memory) ↔
      Placed file (NoffHeader.read file)
        (AddrSpace.freeFrames b (NoffHeader.read file).numPages) := by
  have h : Loading file b (NoffHeader.read file)
      (AddrSpace.freeFrames b (NoffHeader.read file).numPages) := ⟨rfl, hfile, hroom, rfl⟩
  constructor
  · intro hall
    exact h.placed_of_loadsImage hall
  · intro hplaced file' memory hlayout
    exact h.loadsImage_of_placed hplaced hlayout memory

/-! ## Two small programs -/

/-- Four bytes of code at virtual address 0, behind the header in the file. -/
def codeOnly : NoffHeader :=
  ⟨noffMagic, ⟨0, 40, 4⟩, ⟨0, 0, 0⟩, ⟨0, 0, 0⟩⟩

/-- The same program with four bytes of uninitialised data on its second page. -/
def withUninitData : NoffHeader :=
  ⟨noffMagic, ⟨0, 40, 4⟩, ⟨0, 0, 0⟩, ⟨512, 0, 4⟩⟩

def fileOf (noffH : NoffHeader) : List Byte :=
  noffH.bytes ++ [1#8, 2#8, 3#8, 4#8]

def emptyFrames : BitMap numPhysPages :=
  .create (Vector.replicate _ 0#32)

theorem wellFormed_codeOnly : codeOnly.WellFormed 44 :=
  ⟨by decide, rfl, ⟨by decide, by decide, by decide⟩, ⟨by decide, by decide, by decide⟩,
    ⟨by decide, by decide, by decide⟩, ⟨by decide, by decide⟩, ⟨by decide, by decide⟩, by decide,
    by decide, by decide⟩

theorem wellFormed_withUninitData : withUninitData.WellFormed 44 :=
  ⟨by decide, rfl, ⟨by decide, by decide, by decide⟩, ⟨by decide, by decide, by decide⟩,
    ⟨by decide, by decide, by decide⟩, ⟨by decide, by decide⟩, ⟨by decide, by decide⟩, by decide,
    by decide, by decide⟩

theorem loadsImage_codeOnly :
    (NoffHeader.read (fileOf codeOnly)).WellFormed (fileOf codeOnly).length ∧
      ∀ file' memory, SameLayout (fileOf codeOnly) file' → LoadsImage file' emptyFrames memory := by
  have hread : NoffHeader.read (fileOf codeOnly) = codeOnly := by decide +kernel
  have hlength : (fileOf codeOnly).length = 44 := by decide +kernel
  have hfile : (NoffHeader.read (fileOf codeOnly)).WellFormed (fileOf codeOnly).length := by
    rw [hread, hlength]
    exact wellFormed_codeOnly
  have hroom : (NoffHeader.read (fileOf codeOnly)).numPages ≤ emptyFrames.numClear := by
    decide +kernel
  refine ⟨hfile, (loadsImage_iff_placed hfile hroom).mpr ?_⟩
  refine Loading.placed_of_code ⟨rfl, hfile, hroom, rfl⟩ ?_ ?_ ?_ ?_
  all_goals rw [hread]
  all_goals decide

/-- The uninitialised data keeps what the frame held before. -/
theorem uninitData_not_cleared :
    (NoffHeader.read (fileOf withUninitData)).WellFormed (fileOf withUninitData).length ∧
      (NoffHeader.read (fileOf withUninitData)).numPages ≤ emptyFrames.numClear ∧
      ¬ LoadsImage (fileOf withUninitData) emptyFrames fun _ => 255#8 := by
  have hread : NoffHeader.read (fileOf withUninitData) = withUninitData := by decide +kernel
  have hlength : (fileOf withUninitData).length = 44 := by decide +kernel
  have hroom : withUninitData.numPages ≤ emptyFrames.numClear := by decide +kernel
  have hbyte : (AddrSpace.load (fileOf withUninitData) emptyFrames fun _ => 255#8).toOption.bind
      (fun r => r.1.readByte r.2.2 512) = some 255#8 := by
    decide +kernel
  refine ⟨?_, by rwa [hread], ?_⟩
  · rw [hread, hlength]
    exact wellFormed_withUninitData
  rintro ⟨space, b', memory', hload, himage⟩
  rw [hload] at hbyte
  have hzero := himage.uninitData
  rw [hread] at hzero
  cases hbyte.symm.trans (hzero 0 (by decide))

end Nachos
