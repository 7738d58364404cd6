import Mathlib.Data.List.TakeWhile
import Nachos.Verification.AddrSpace.Copying

/-! # Where the copy loops of `AddrSpace(char*)` write

Each pass of the loops puts what it reads as far behind a frame of the process as the
segment is behind virtual address 0. The bytes stay in the frames of the process exactly
when the frames that far behind belong to it too. -/

namespace Nachos

open Tracking

namespace Segment

/-- `inFileAddr + i * PageSize`, as the `int` that `ReadAt` is given. -/
def position (s : Segment) (i : ℕ) : ℤ :=
  (s.inFileAddr + BitVec.ofNat 32 (i * pageSize)).toInt

/-- How many bytes the read for page `i` brings. -/
def bytesRead (s : Segment) (length i : ℕ) : ℕ :=
  min pageSize (length - (s.position i).toNat)

/-- The index into `mainMemory` of the first of them. -/
def dest (s : Segment) (frame : ℤ) : ℤ :=
  s.virtualAddr.toInt + frame * pageSize

end Segment

/-- One pass of a copy loop. -/
structure CopyPass where
  segment : Segment
  page : ℕ
  frame : ℤ
deriving DecidableEq, Repr

namespace CopyPass

/-- `Lseek` accepts the position. -/
def Seeks (pass : CopyPass) : Prop :=
  0 ≤ pass.segment.position pass.page

instance (pass : CopyPass) : Decidable pass.Seeks :=
  inferInstanceAs (Decidable (_ ≤ _))

def run (file : List Byte) (memory : ℕ → Byte) (pass : CopyPass) : Except Stop (ℕ → Byte) :=
  copyPage file pass.segment pass.page pass.frame memory

/-- The indexes into `mainMemory` that the pass writes. -/
def written (length : ℕ) (pass : CopyPass) : List ℤ :=
  (List.range (pass.segment.bytesRead length pass.page)).map
    fun o : ℕ => pass.segment.dest pass.frame + (o : ℤ)

end CopyPass

namespace NoffHeader

/-- The passes of the two loops, in their order. -/
def passes (noffH : NoffHeader) (frames : List ℤ) : List CopyPass :=
  [noffH.code, noffH.initData].flatMap fun s =>
    if 0 < s.size.toInt then frames.mapIdx fun i frame => ⟨s, i, frame⟩ else []

/-- The passes up to the first that `Lseek` aborts. -/
def passesMade (noffH : NoffHeader) (frames : List ℤ) : List CopyPass :=
  (noffH.passes frames).takeWhile fun pass => pass.Seeks

/-- Every index into `mainMemory` that the loops write. -/
def written (noffH : NoffHeader) (length : ℕ) (frames : List ℤ) : List ℤ :=
  (noffH.passesMade frames).flatMap fun pass => pass.written length

/-- The two loops of the constructor. -/
def copyLoops (noffH : NoffHeader) (file : List Byte) (frames : List ℤ) (memory : ℕ → Byte) :
    Except Stop (ℕ → Byte) := do
  let memory ← copySegment file noffH.code frames memory
  copySegment file noffH.initData frames memory

/-- The frames of the new page table. -/
def frames (noffH : NoffHeader) (b : BitMap numPhysPages) : List ℤ :=
  (AddrSpace.allocate (if b.numClear < noffH.numPages then 0 else noffH.numPages) b).1

end NoffHeader

/-- `AddrSpace(char*)` in terms of the loops. -/
theorem AddrSpace.load_eq (file : List Byte) (b : BitMap numPhysPages) (memory : ℕ → Byte)
    (hmagic : (NoffHeader.read file).noffMagic = noffMagic) :
    (AddrSpace.load file b memory).map (fun result => result.2.2) =
      (NoffHeader.read file).copyLoops file ((NoffHeader.read file).frames b) memory := by
  unfold AddrSpace.load NoffHeader.copyLoops NoffHeader.frames
  dsimp only
  rw [if_neg (not_not.mpr hmagic)]
  cases copySegment file (NoffHeader.read file).code
      (AddrSpace.allocate (if b.numClear < (NoffHeader.read file).numPages then 0
        else (NoffHeader.read file).numPages) b).1 memory with
  | error stop => rfl
  | ok memory₁ =>
      change Except.map _ (Except.bind (copySegment file (NoffHeader.read file).initData _ memory₁)
        _) = copySegment file (NoffHeader.read file).initData _ memory₁
      cases copySegment file (NoffHeader.read file).initData
        (AddrSpace.allocate (if b.numClear < (NoffHeader.read file).numPages then 0
          else (NoffHeader.read file).numPages) b).1 memory₁ with
      | error stop => rfl
      | ok memory₂ => rfl

/-- Loading is confined: the loops write only into frames of the new page table, never
outside `mainMemory`, and leave every other byte as it was. -/
structure Confined (noffH : NoffHeader) (file : List Byte) (b : BitMap numPhysPages)
    (memory : ℕ → Byte) : Prop where
  written : ∀ a ∈ noffH.written file.length (noffH.frames b),
    ∃ frame ∈ noffH.frames b, frame * pageSize ≤ a ∧ a < (frame + 1) * pageSize
  defined : noffH.copyLoops file (noffH.frames b) memory ≠ .error .undefined
  others : ∀ memory', noffH.copyLoops file (noffH.frames b) memory = .ok memory' →
    ∀ p : ℕ, (p / pageSize : ℤ) ∉ noffH.frames b → memory' p = memory p

/-- The bytes that a pass reads are put into frames of the process: their first and their
last byte are. -/
def CopyPass.Inside (pass : CopyPass) (length : ℕ) (frames : List ℤ) : Prop :=
  0 < pass.segment.bytesRead length pass.page →
    pass.frame + pass.segment.virtualAddr.toInt / pageSize ∈ frames ∧
    pass.frame + (pass.segment.virtualAddr.toInt + pass.segment.bytesRead length pass.page - 1) /
      pageSize ∈ frames

/-! ## One pass -/

variable {file : List Byte} {memory memory' : ℕ → Byte} {pass : CopyPass}

theorem CopyPass.mem_written {length : ℕ} {a : ℤ} :
    a ∈ pass.written length ↔ pass.segment.dest pass.frame ≤ a ∧
      a < pass.segment.dest pass.frame + pass.segment.bytesRead length pass.page := by
  unfold CopyPass.written
  simp only [List.mem_map, List.mem_range]
  constructor
  · rintro ⟨o, ho, rfl⟩
    omega
  · rintro ⟨hlow, hhigh⟩
    exact ⟨(a - pass.segment.dest pass.frame).toNat, by omega, by omega⟩

theorem length_bytes (file : List Byte) (s : Segment) (i : ℕ) :
    ((file.drop (s.position i).toNat).take pageSize).length = s.bytesRead file.length i := by
  simp [Segment.bytesRead]

/-- A pass that returns writes its own indexes and no other. -/
theorem CopyPass.run_ok (h : pass.run file memory = .ok memory') :
    pass.Seeks ∧ ∀ p : ℕ, (p : ℤ) ∉ pass.written file.length → memory' p = memory p := by
  unfold CopyPass.run copyPage at h
  dsimp only at h
  split at h
  · cases h
  · rename_i hseek
    refine ⟨not_lt.mp hseek, ?_⟩
    split at h
    · cases h
      intro p _
      rfl
    · split at h
      · rename_i hin
        cases h
        intro p hp
        dsimp only
        rw [if_neg]
        intro hwithin
        apply hp
        rw [CopyPass.mem_written]
        change 0 ≤ pass.segment.dest pass.frame ∧ _ at hin
        change (pass.segment.dest pass.frame).toNat ≤ p ∧ p < (pass.segment.dest pass.frame).toNat +
          ((file.drop (pass.segment.position pass.page).toNat).take pageSize).length at hwithin
        rw [length_bytes] at hwithin
        omega
      · cases h

/-- A pass whose indexes are all inside memory is defined. -/
theorem CopyPass.run_ne_undefined (hin : ∀ a ∈ pass.written file.length, 0 ≤ a ∧ a < memorySize) :
    pass.run file memory ≠ .error .undefined := by
  unfold CopyPass.run copyPage
  dsimp only
  split
  · nofun
  · split
    · nofun
    · rename_i hbytes
      have hlength : 0 < pass.segment.bytesRead file.length pass.page := by
        rw [← length_bytes]
        exact List.length_pos_of_ne_nil hbytes
      have hfirst := hin (pass.segment.dest pass.frame) (CopyPass.mem_written.mpr (by omega))
      have hlast := hin (pass.segment.dest pass.frame +
        pass.segment.bytesRead file.length pass.page - 1) (CopyPass.mem_written.mpr (by omega))
      rw [if_pos]
      · nofun
      · change 0 ≤ pass.segment.dest pass.frame ∧ pass.segment.dest pass.frame +
          (((file.drop (pass.segment.position pass.page).toNat).take pageSize).length : ℤ) ≤ _
        rw [length_bytes]
        omega

theorem CopyPass.run_of_not_seeks (h : ¬ pass.Seeks) :
    pass.run file memory = .error .aborted := by
  unfold CopyPass.run copyPage
  exact if_pos (not_le.mp h)

/-! ## The loops -/

/-- The loop over the pages as a list of passes. -/
theorem copyPages_eq (s : Segment) (i : ℕ) (frames : List ℤ) :
    copyPages file s i frames memory =
      ((frames.mapIdx fun j frame => (⟨s, i + j, frame⟩ : CopyPass)).foldlM
        (CopyPass.run file) memory) := by
  induction frames generalizing i memory with
  | nil => rfl
  | cons frame frames ih =>
      rw [copyPages, List.mapIdx_cons, List.foldlM_cons]
      congr 1
      funext memory₁
      rw [ih]
      simp only [Nat.add_assoc, Nat.add_comm 1]

theorem copySegment_eq (s : Segment) (frames : List ℤ) :
    copySegment file s frames memory =
      ((if 0 < s.size.toInt then frames.mapIdx fun i frame => (⟨s, i, frame⟩ : CopyPass)
        else []).foldlM (CopyPass.run file) memory) := by
  unfold copySegment
  split
  · simpa using copyPages_eq s 0 frames
  · rfl

theorem copyLoops_eq (noffH : NoffHeader) (frames : List ℤ) :
    noffH.copyLoops file frames memory =
      (noffH.passes frames).foldlM (CopyPass.run file) memory := by
  unfold NoffHeader.copyLoops NoffHeader.passes
  simp only [copySegment_eq, List.flatMap_cons, List.flatMap_nil, List.append_nil,
    List.foldlM_append]

variable {passes : List CopyPass}

/-- A loop that returns has seeked for every pass, and has written only their indexes. -/
theorem foldlM_run_ok (h : passes.foldlM (CopyPass.run file) memory = .ok memory') :
    (∀ pass ∈ passes, pass.Seeks) ∧ ∀ p : ℕ,
      (∀ pass ∈ passes, (p : ℤ) ∉ pass.written file.length) → memory' p = memory p := by
  induction passes generalizing memory with
  | nil =>
      cases h
      exact ⟨by simp, fun p _ => rfl⟩
  | cons pass passes ih =>
      rw [List.foldlM_cons] at h
      obtain ⟨memory₁, hpass, hrest⟩ := except_bind_eq_ok.mp h
      obtain ⟨hseeks, hkept⟩ := CopyPass.run_ok hpass
      obtain ⟨hseeks', hkept'⟩ := ih hrest
      constructor
      · intro pass' hpass'
        rcases List.mem_cons.mp hpass' with rfl | hmem
        · exact hseeks
        · exact hseeks' pass' hmem
      · intro p hp
        rw [hkept' p fun pass' hmem => hp pass' (List.mem_cons_of_mem pass hmem)]
        exact hkept p (hp pass List.mem_cons_self)

theorem foldlM_run_ne_undefined
    (hin : ∀ pass ∈ passes.takeWhile (fun pass => pass.Seeks),
      ∀ a ∈ pass.written file.length, 0 ≤ a ∧ a < memorySize) :
    passes.foldlM (CopyPass.run file) memory ≠ .error .undefined := by
  induction passes generalizing memory with
  | nil => nofun
  | cons pass passes ih =>
      rw [List.foldlM_cons]
      by_cases hseeks : pass.Seeks
      · rw [List.takeWhile_cons_of_pos (by simpa using hseeks)] at hin
        have hpass : pass.run file memory ≠ .error .undefined :=
          CopyPass.run_ne_undefined (hin pass List.mem_cons_self)
        have hrest : ∀ memory₁, passes.foldlM (CopyPass.run file) memory₁ ≠ .error .undefined :=
          fun memory₁ => ih fun pass' hmem => hin pass' (List.mem_cons_of_mem pass hmem)
        cases hrun : pass.run file memory with
        | error stop =>
            intro h
            cases h
            exact hpass hrun
        | ok memory₁ => exact hrest memory₁
      · rw [CopyPass.run_of_not_seeks hseeks]
        nofun

/-! ## The frames -/

theorem frame_range {noffH : NoffHeader} {b : BitMap numPhysPages} {frame : ℤ}
    (h : frame ∈ noffH.frames b) : 0 ≤ frame ∧ frame < numPhysPages := by
  unfold NoffHeader.frames at h
  have hroom : (if b.numClear < noffH.numPages then 0 else noffH.numPages) ≤ b.numClear := by
    split <;> omega
  rw [AddrSpace.allocate_frames _ b hroom] at h
  obtain ⟨frame', hmem, rfl⟩ := List.mem_map.mp h
  have hlt := AddrSpace.lt_of_mem_freeFrames hmem
  omega

/-- The frame of an index. -/
theorem frame_of_index {frame a : ℤ} :
    frame * pageSize ≤ a ∧ a < (frame + 1) * pageSize ↔ frame = a / pageSize := by
  unfold pageSize
  omega

theorem exists_frame_iff {frames : List ℤ} {a : ℤ} :
    (∃ frame ∈ frames, frame * pageSize ≤ a ∧ a < (frame + 1) * pageSize) ↔
      a / pageSize ∈ frames := by
  simp only [frame_of_index]
  constructor
  · rintro ⟨frame, hmem, rfl⟩
    exact hmem
  · intro hmem
    exact ⟨_, hmem, rfl⟩

/-- The bytes of one read lie in one frame or in two neighbours, so the first and the last
of them tell. -/
theorem CopyPass.inside_iff {length : ℕ} {frames : List ℤ} :
    pass.Inside length frames ↔ ∀ a ∈ pass.written length, a / pageSize ∈ frames := by
  have hread : pass.segment.bytesRead length pass.page ≤ pageSize := min_le_left _ _
  have hshift : ∀ x : ℤ, pass.frame + (pass.segment.virtualAddr.toInt + x) / pageSize =
      (pass.segment.dest pass.frame + x) / pageSize := by
    intro x
    unfold Segment.dest pageSize
    omega
  have hfirst : pass.frame + pass.segment.virtualAddr.toInt / pageSize =
      pass.segment.dest pass.frame / pageSize := by
    simpa using hshift 0
  unfold CopyPass.Inside
  rw [hfirst, add_sub_assoc, hshift]
  simp only [CopyPass.mem_written]
  generalize pass.segment.dest pass.frame = dest
  generalize pass.segment.bytesRead length pass.page = n at hread ⊢
  constructor
  · rintro hin a ⟨hlow, hhigh⟩
    obtain ⟨hstart, hend⟩ := hin (by omega)
    have hframe : a / pageSize = dest / pageSize ∨
        a / pageSize = (dest + ((n : ℤ) - 1)) / pageSize := by
      unfold pageSize at hread ⊢
      omega
    rcases hframe with heq | heq
    · rwa [heq]
    · rwa [heq]
  · intro hall hpos
    exact ⟨hall dest (by omega), hall _ (by omega)⟩

/-- Loading is confined exactly when every read that brings anything is put into frames of
the process. -/
theorem confined_iff (noffH : NoffHeader) (file : List Byte) (b : BitMap numPhysPages)
    (memory : ℕ → Byte) :
    Confined noffH file b memory ↔
      ∀ pass ∈ noffH.passesMade (noffH.frames b), pass.Inside file.length (noffH.frames b) := by
  have hwritten : (∀ a ∈ noffH.written file.length (noffH.frames b), ∃ frame ∈ noffH.frames b,
      frame * pageSize ≤ a ∧ a < (frame + 1) * pageSize) ↔
      ∀ pass ∈ noffH.passesMade (noffH.frames b), pass.Inside file.length (noffH.frames b) := by
    simp only [exists_frame_iff, CopyPass.inside_iff, NoffHeader.written, List.mem_flatMap]
    constructor
    · intro h pass hpass a ha
      exact h a ⟨pass, hpass, ha⟩
    · rintro h a ⟨pass, hpass, ha⟩
      exact h pass hpass a ha
  constructor
  · intro h
    exact hwritten.mp h.written
  · intro h
    have hinside : ∀ pass ∈ noffH.passesMade (noffH.frames b), ∀ a ∈ pass.written file.length,
        a / pageSize ∈ noffH.frames b := fun pass hpass => CopyPass.inside_iff.mp (h pass hpass)
    refine ⟨hwritten.mpr h, ?_, ?_⟩
    · rw [copyLoops_eq]
      apply foldlM_run_ne_undefined
      intro pass hpass a ha
      have hrange := frame_range (hinside pass hpass a ha)
      unfold pageSize numPhysPages at hrange
      unfold memorySize numPhysPages pageSize
      omega
    · intro memory' hrun p hp
      rw [copyLoops_eq] at hrun
      obtain ⟨hseeks, hkept⟩ := foldlM_run_ok hrun
      have hmade : noffH.passesMade (noffH.frames b) = noffH.passes (noffH.frames b) :=
        List.takeWhile_eq_self_iff.mpr fun pass hpass => by simpa using hseeks pass hpass
      apply hkept p
      intro pass hpass hmem
      exact hp (hinside pass (hmade ▸ hpass) p hmem)

/-- A program with a page of code and a page of data behind it. -/
def twoSegments : NoffHeader :=
  ⟨noffMagic, ⟨0#32, 40#32, 512#32⟩, ⟨512#32, 552#32, 512#32⟩, ⟨0#32, 0#32, 0#32⟩⟩

/-- Every second frame is in use. -/
def everyOther : BitMap numPhysPages :=
  ⟨.replicate _ 0xaaaaaaaa#32⟩

/-- The data of the program lands in frame 1, which is in use by another process. -/
theorem data_written_outside :
    twoSegments.noffMagic = noffMagic ∧
      ¬ Confined twoSegments (List.replicate 1064 0#8) everyOther fun _ => 0#8 := by
  refine ⟨rfl, fun hconfined => ?_⟩
  have hframes : twoSegments.frames everyOther = [0, 2, 4, 6] := by decide +kernel
  rw [confined_iff, hframes, List.length_replicate] at hconfined
  have hmade : (⟨twoSegments.initData, 0, 0⟩ : CopyPass) ∈
      twoSegments.passesMade [0, 2, 4, 6] := by decide +kernel
  have hinside := hconfined _ hmade
  have hread : twoSegments.initData.bytesRead 1064 0 = 512 := by decide +kernel
  unfold CopyPass.Inside at hinside
  rw [hread] at hinside
  have hmem := (hinside (by decide)).1
  revert hmem
  decide +kernel

end Nachos
