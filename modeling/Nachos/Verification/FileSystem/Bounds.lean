import Nachos.Model.FileAccess
import Nachos.Verification.FileSystem.Sectors

/-! # The bounds of a transfer

The check of a request looks at the end of the file only. A position in front of the file, or
a sum that is not an `int`, passes it. -/

namespace Nachos

/-- In the part of `dataSectors` that the header uses, or in the buffer. -/
def Access.InBounds (numSectors : ℤ) : Access → Prop
  | .dataSector i => 0 ≤ i ∧ i < numSectors
  | .buffer size start length => 0 ≤ start ∧ start + length ≤ size

/-- The header of a file of `n` bytes. -/
structure FileHeader.Sized (hdr : FileHeader) (n : ℕ) : Prop where
  numBytes : hdr.numBytes.toInt = n
  numSectors : hdr.numSectors.toInt = divRoundUp n sectorSize
  small : n ≤ maxFileSize

theorem FileHeader.Holds.sized {hdr : FileHeader} {n : ℕ} {found : List (Fin Disk.numSectors)}
    (h : hdr.Holds n found) : hdr.Sized n :=
  ⟨h.numBytes, h.numSectors, h.small⟩

namespace OpenFile

open FileHeader Tracking

variable {file : OpenFile} {n : ℕ} {numBytes position result m size first last : ℤ}
  {accesses : List Access} {access : Access}

/-- What a request on a file of `n` bytes may return and touch. -/
structure Bounded (file : OpenFile) (n : ℕ) (numBytes position : ℤ) (result : ℤ)
    (accesses : List Access) : Prop where
  nonneg : 0 ≤ result
  le : result ≤ max 0 numBytes
  inside : 0 < result → position + result ≤ n
  inBounds : ∀ access ∈ accesses, access.InBounds file.hdr.numSectors.toInt

/-- The request returns, and it stays in bounds. -/
def StaysInBounds (file : OpenFile) (n : ℕ) (numBytes position : ℤ)
    (outcome : Except Stop (ℤ × List Access)) : Prop :=
  ∃ result accesses, outcome = .ok (result, accesses) ∧
    Bounded file n numBytes position result accesses

/-! ### The check -/

/-- What the check makes of a request on a file of `length` bytes. -/
inductive RequestSpec (length numBytes position : ℤ) : Except Stop (Option ℤ) → Prop
  | nothing (hnothing : numBytes ≤ 0 ∨ length ≤ position) :
      RequestSpec length numBytes position (.ok none)
  | overflow (hbytes : 0 < numBytes) (hposition : position < length)
      (hsum : intMax < position + numBytes) :
      RequestSpec length numBytes position (.error .undefined)
  | accepted (hbytes : 0 < numBytes) (hposition : position < length)
      (hsum : position + numBytes ≤ intMax) :
      RequestSpec length numBytes position (.ok (some (min numBytes (length - position))))

theorem request_spec (file : OpenFile) (numBytes position : ℤ) :
    RequestSpec file.hdr.fileLength numBytes position (file.request numBytes position) := by
  rw [request]
  by_cases hnothing : numBytes ≤ 0 ∨ file.hdr.fileLength ≤ position
  · rw [if_pos hnothing]
    exact .nothing hnothing
  rw [if_neg hnothing]
  push Not at hnothing
  obtain ⟨hbytes, hposition⟩ := hnothing
  by_cases hsum : intMax < position + numBytes
  · rw [if_pos hsum]
    exact .overflow hbytes hposition hsum
  rw [if_neg hsum]
  have haccepted := RequestSpec.accepted hbytes hposition (not_lt.mp hsum)
  by_cases hclip : file.hdr.fileLength < position + numBytes
  · rw [if_pos hclip]
    rwa [min_eq_right (by omega)] at haccepted
  · rw [if_neg hclip]
    rwa [min_eq_left (by omega)] at haccepted

/-! ### The sectors of a transfer -/

theorem mem_loopAccesses : access ∈ loopAccesses size first last ↔
    ∃ i, first ≤ i ∧ i ≤ last ∧
      (access = .dataSector i ∨ access = .buffer size ((i - first) * sectorSize) sectorSize) := by
  have hround : ∀ i, access ∈ sectorAccesses size first i ↔
      access = .dataSector i ∨ access = .buffer size ((i - first) * sectorSize) sectorSize := by
    intro i
    rw [sectorAccesses, Int.mul_tdiv_cancel _ (by decide), List.mem_cons, List.mem_singleton]
  rw [loopAccesses, List.mem_flatMap]
  constructor
  · rintro ⟨i, hi, haccess⟩
    have hi := List.mem_range.mp hi
    exact ⟨first + i, by omega, by omega, (hround _).mp haccess⟩
  · rintro ⟨i, hfirst, hlast, haccess⟩
    refine ⟨(i - first).toNat, List.mem_range.mpr (by omega), (hround _).mpr ?_⟩
    rwa [show first + ((i - first).toNat : ℤ) = i by omega]

/-- `m` bytes from `position` on lie in the sectors from number `first` to number `last`. -/
structure Covers (position m first last : ℤ) : Prop where
  first_nonneg : 0 ≤ first
  first_le : first * sectorSize ≤ position
  last_lt : last * sectorSize < position + m
  le_last : position + m ≤ (last + 1) * sectorSize

theorem covers_tdiv (hposition : 0 ≤ position) (hm : 0 < m) :
    Covers position m (position.tdiv sectorSize) ((position + m - 1).tdiv sectorSize) := by
  rw [Int.tdiv_eq_ediv_of_nonneg hposition, Int.tdiv_eq_ediv_of_nonneg (by omega)]
  refine ⟨?_, ?_, ?_, ?_⟩ <;> (unfold sectorSize; omega)

theorem Covers.copy_inBounds (h : Covers position m first last) {numSectors : ℤ} :
    (Access.buffer ((1 + last - first) * sectorSize) (position - first * sectorSize) m).InBounds
      numSectors := by
  obtain ⟨-, hlow, -, hhigh⟩ := h
  refine ⟨by omega, ?_⟩
  unfold sectorSize at *
  omega

/-- The loop stays in the header and in the buffer. -/
theorem loop_inBounds (h : file.hdr.Sized n) (hfirst : 0 ≤ first) (hlast : last * sectorSize < n)
    (haccess : access ∈ loopAccesses ((1 + last - first) * sectorSize) first last) :
    access.InBounds file.hdr.numSectors.toInt := by
  obtain ⟨i, hfirst_le, hle_last, rfl | rfl⟩ := mem_loopAccesses.mp haccess
  · obtain ⟨k, rfl⟩ := Int.eq_ofNat_of_zero_le (hfirst.trans hfirst_le)
    have hlt : (k : ℤ) * sectorSize < n :=
      (Int.mul_le_mul_of_nonneg_right hle_last (by decide)).trans_lt hlast
    refine ⟨Int.natCast_nonneg k, ?_⟩
    rw [h.numSectors]
    exact_mod_cast lt_divRoundUp.mpr (by exact_mod_cast hlt)
  · unfold sectorSize
    constructor <;> omega

/-! ### Requests in range -/

theorem readAccesses_inRange (h : file.hdr.Sized n) (hrange : file.InRange numBytes position) :
    file.StaysInBounds n numBytes position (file.readAccesses numBytes position) := by
  have hlength : file.hdr.fileLength = n := h.numBytes
  have hspec := request_spec file numBytes position
  rw [InRange] at hrange
  rw [StaysInBounds, readAccesses]
  generalize file.request numBytes position = outcome at hspec
  cases hspec with
  | nothing => exact ⟨0, [], rfl, le_rfl, by omega, by omega, by simp⟩
  | overflow hbytes hposition hsum => omega
  | accepted hbytes hposition hsum =>
      rw [hlength] at hposition ⊢
      have hcovers := covers_tdiv (show 0 ≤ position by omega)
        (show 0 < min numBytes (n - position) by omega)
      refine ⟨_, _, rfl, by omega, by omega, by omega, fun access haccess => ?_⟩
      rcases List.mem_append.mp haccess with hloop | hcopy
      · exact loop_inBounds h hcovers.first_nonneg (by have := hcovers.last_lt; omega) hloop
      · rw [List.mem_singleton.mp hcopy]
        exact hcovers.copy_inBounds

/-- `WriteAt` reads a sector of the file into its buffer. -/
theorem readInAccesses_bounded (h : file.hdr.Sized n) {i start : ℤ} (hi : 0 ≤ i)
    (hlt : i * sectorSize < n) (hstart : 0 ≤ start) (hsize : start + sectorSize ≤ size) :
    ∃ accesses, file.readInAccesses size start (i * sectorSize) = .ok accesses ∧
      ∀ access ∈ accesses, access.InBounds file.hdr.numSectors.toInt := by
  have hrange : file.InRange sectorSize (i * sectorSize) := by
    have hsmall := h.small
    unfold maxFileSize numDirect at hsmall
    unfold sectorSize at hsmall hlt ⊢
    refine .inr (.inr ⟨by omega, ?_⟩)
    unfold intMax
    push_cast
    omega
  obtain ⟨result, accesses, hread, hbounded⟩ := readAccesses_inRange h hrange
  refine ⟨accesses ++ [.buffer size start result], by rw [readInAccesses, hread]; rfl, ?_⟩
  intro access haccess
  rcases List.mem_append.mp haccess with hread | hinto
  · exact hbounded.inBounds access hread
  · have hle := hbounded.le
    rw [List.mem_singleton.mp hinto]
    refine ⟨hstart, ?_⟩
    unfold sectorSize at *
    omega

theorem firstAccesses_bounded (h : file.hdr.Sized n) (hfirst : 0 ≤ first)
    (hlt : first * sectorSize < n) (hle : first ≤ last) (firstAligned : Bool) :
    ∃ accesses, file.firstAccesses ((1 + last - first) * sectorSize) first firstAligned =
        .ok accesses ∧
      ∀ access ∈ accesses, access.InBounds file.hdr.numSectors.toInt := by
  rw [firstAccesses]
  split
  · refine readInAccesses_bounded h hfirst hlt le_rfl ?_
    unfold sectorSize
    omega
  · exact ⟨[], rfl, by simp⟩

theorem lastAccesses_bounded (h : file.hdr.Sized n) (hfirst : 0 ≤ first) (hle : first ≤ last)
    (hlast : last * sectorSize < n) (firstAligned lastAligned : Bool) :
    ∃ accesses, file.lastAccesses ((1 + last - first) * sectorSize) first last firstAligned
        lastAligned = .ok accesses ∧
      ∀ access ∈ accesses, access.InBounds file.hdr.numSectors.toInt := by
  rw [lastAccesses]
  split
  · refine readInAccesses_bounded h (hfirst.trans hle) hlast ?_ ?_ <;>
      (unfold sectorSize; omega)
  · exact ⟨[], rfl, by simp⟩

theorem writeAccesses_inRange (h : file.hdr.Sized n) (hrange : file.InRange numBytes position) :
    file.StaysInBounds n numBytes position (file.writeAccesses numBytes position) := by
  have hlength : file.hdr.fileLength = n := h.numBytes
  have hspec := request_spec file numBytes position
  rw [InRange] at hrange
  rw [StaysInBounds, writeAccesses]
  generalize file.request numBytes position = outcome at hspec
  cases hspec with
  | nothing => exact ⟨0, [], rfl, le_rfl, by omega, by omega, by simp⟩
  | overflow hbytes hposition hsum => omega
  | accepted hbytes hposition hsum =>
      rw [hlength] at hposition ⊢
      have hcovers := covers_tdiv (show 0 ≤ position by omega)
        (show 0 < min numBytes (n - position) by omega)
      rw [ok_bind]
      dsimp only
      generalize hm : min numBytes (n - position) = m at *
      generalize position.tdiv sectorSize = first at *
      generalize (position + m - 1).tdiv sectorSize = last at *
      have hlast : last * sectorSize < n := by
        have := hcovers.last_lt
        omega
      have hfirst := hcovers.first_nonneg
      have hfront := hcovers.first_le
      have hle : first ≤ last := by
        have hback := hcovers.le_last
        unfold sectorSize at hfront hback
        omega
      obtain ⟨firstAccesses, hfirstRead, hfirstBounds⟩ := firstAccesses_bounded h hfirst
        (show first * sectorSize < n by unfold sectorSize at *; omega) hle
        (decide (position = first * sectorSize))
      obtain ⟨lastAccesses, hlastRead, hlastBounds⟩ := lastAccesses_bounded h hfirst hle hlast
        (decide (position = first * sectorSize))
        (decide (position + m = (last + 1) * sectorSize))
      rw [hfirstRead, ok_bind, hlastRead, ok_bind]
      refine ⟨_, _, rfl, by omega, by omega, by omega, fun access haccess => ?_⟩
      rcases List.mem_append.mp haccess with hbefore | hloop
      · rcases List.mem_append.mp hbefore with hread | hcopy
        · exact (List.mem_append.mp hread).elim (hfirstBounds access) (hlastBounds access)
        · rw [List.mem_singleton.mp hcopy]
          exact hcovers.copy_inBounds
      · exact loop_inBounds h hfirst hlast hloop

/-! ### Requests out of range -/

/-- What both transfers touch when a request is accepted: they copy `m` bytes and go through
the loop. -/
def Transfers (position m : ℤ) (accesses : List Access) : Prop :=
  let first := position.tdiv sectorSize
  let last := (position + m - 1).tdiv sectorSize
  let size := (1 + last - first) * sectorSize
  .buffer size (position - first * sectorSize) m ∈ accesses ∧
    ∀ access ∈ loopAccesses size first last, access ∈ accesses

theorem readAccesses_transfers (hrequest : file.request numBytes position = .ok (some m))
    (hread : file.readAccesses numBytes position = .ok (result, accesses)) :
    Transfers position m accesses := by
  rw [readAccesses, hrequest] at hread
  cases hread
  exact ⟨List.mem_append_right _ (List.mem_singleton_self _),
    fun access haccess => List.mem_append_left _ haccess⟩

theorem writeAccesses_transfers (hrequest : file.request numBytes position = .ok (some m))
    (hwrite : file.writeAccesses numBytes position = .ok (result, accesses)) :
    Transfers position m accesses := by
  rw [writeAccesses, hrequest, ok_bind] at hwrite
  obtain ⟨first, -, hwrite⟩ := except_bind_eq_ok.mp hwrite
  obtain ⟨last, -, hwrite⟩ := except_bind_eq_ok.mp hwrite
  cases hwrite
  exact ⟨List.mem_append_left _ (List.mem_append_right _ (List.mem_singleton_self _)),
    fun access haccess => List.mem_append_right _ haccess⟩

theorem Transfers.dataSector (h : Transfers position m accesses) {i : ℤ}
    (hfirst : position.tdiv sectorSize ≤ i) (hlast : i ≤ (position + m - 1).tdiv sectorSize) :
    .dataSector i ∈ accesses :=
  h.2 _ (mem_loopAccesses.mpr ⟨i, hfirst, hlast, .inl rfl⟩)

/-- A transfer from in front of the file starts in front of the buffer or of `dataSectors`. -/
theorem Transfers.position_nonneg (h : Transfers position m accesses) (hm : 0 < m)
    {numSectors : ℤ} (hbounds : ∀ access ∈ accesses, access.InBounds numSectors) :
    0 ≤ position := by
  have hstart := (hbounds _ h.1).1
  have hle : position.tdiv sectorSize ≤ (position + m - 1).tdiv sectorSize :=
    Int.tdiv_le_tdiv (by decide) (by omega)
  have hfirst := (hbounds _ (h.dataSector le_rfl hle)).1
  unfold sectorSize at hstart hfirst
  omega

theorem StaysInBounds.inRange {outcome : Except Stop (ℤ × List Access)}
    (h : file.StaysInBounds n numBytes position outcome)
    (hoverflow : file.request numBytes position = .error .undefined →
      outcome = .error .undefined)
    (htransfers : ∀ m result accesses, file.request numBytes position = .ok (some m) →
      outcome = .ok (result, accesses) → Transfers position m accesses) :
    file.InRange numBytes position := by
  obtain ⟨result, accesses, rfl, hbounded⟩ := h
  have hspec := request_spec file numBytes position
  generalize hrequest : file.request numBytes position = checked at hspec
  cases hspec with
  | nothing hnothing => exact hnothing.imp id .inl
  | overflow => cases hoverflow hrequest
  | accepted hbytes hposition hsum =>
      have hcopied := htransfers _ _ _ hrequest rfl
      exact .inr (.inr ⟨hcopied.position_nonneg (by omega) hbounded.inBounds, hsum⟩)

/-! ### The same transfer -/

section Same

variable {file' : OpenFile} {disk disk' : Disk} {into into' heap source : Bytes}

/-- A read that returns has the result of its accesses. -/
theorem readAccesses_of_readAt (h : file.readAt disk into numBytes position = .ok (result, into')) :
    ∃ accesses, file.readAccesses numBytes position = .ok (result, accesses) := by
  rw [readAt] at h
  rw [readAccesses]
  cases hrequest : file.request numBytes position with
  | error e => rw [hrequest] at h; cases h
  | ok checked =>
      rw [hrequest, ok_bind] at h
      cases checked with
      | none => cases h; exact ⟨[], rfl⟩
      | some m =>
          obtain ⟨buf, -, h⟩ := except_bind_eq_ok.mp h
          dsimp only at h
          split at h
          · cases h
          · cases h; exact ⟨_, rfl⟩

theorem readInAccesses_of_readAt {start : ℤ} {returned : ℤ × Bytes}
    (h : file.readAt disk into sectorSize position = .ok returned) :
    ∃ accesses, file.readInAccesses size start position = .ok accesses := by
  obtain ⟨accesses, hread⟩ := readAccesses_of_readAt h
  exact ⟨_, by rw [readInAccesses, hread]; rfl⟩

theorem firstAccesses_of_readFirst {buf buf' : Bytes} {firstAligned : Bool}
    (h : file.readFirst disk first firstAligned buf = .ok buf') :
    ∃ accesses, file.firstAccesses size first firstAligned = .ok accesses := by
  rw [readFirst] at h
  rw [firstAccesses]
  split
  · rename_i hread
    rw [if_pos hread] at h
    cases hat : file.readAt disk buf sectorSize (first * sectorSize) with
    | error e => rw [hat] at h; cases h
    | ok returned => exact readInAccesses_of_readAt hat
  · exact ⟨[], rfl⟩

theorem lastAccesses_of_readLast {buf buf' : Bytes} {firstAligned lastAligned : Bool}
    (h : file.readLast disk first last firstAligned lastAligned buf = .ok buf') :
    ∃ accesses, file.lastAccesses size first last firstAligned lastAligned = .ok accesses := by
  rw [readLast] at h
  rw [lastAccesses]
  split
  · rename_i hread
    rw [if_pos hread] at h
    cases hat : file.readAt disk (fun k => buf (((last - first) * sectorSize).toNat + k))
        sectorSize (last * sectorSize) with
    | error e => rw [hat] at h; cases h
    | ok returned => exact readInAccesses_of_readAt hat
  · exact ⟨[], rfl⟩

/-- So has a write. -/
theorem writeAccesses_of_writeAt
    (h : file.writeAt disk heap source numBytes position = .ok (result, disk')) :
    ∃ accesses, file.writeAccesses numBytes position = .ok (result, accesses) := by
  rw [writeAt] at h
  rw [writeAccesses]
  cases hrequest : file.request numBytes position with
  | error e => rw [hrequest] at h; cases h
  | ok checked =>
      rw [hrequest, ok_bind] at h
      cases checked with
      | none => cases h; exact ⟨[], rfl⟩
      | some m =>
          obtain ⟨buf, hfirst, h⟩ := except_bind_eq_ok.mp h
          obtain ⟨buf', hlast, h⟩ := except_bind_eq_ok.mp h
          obtain ⟨firstPart, hfirst⟩ := firstAccesses_of_readFirst hfirst
          obtain ⟨lastPart, hlast⟩ := lastAccesses_of_readLast hlast
          rw [ok_bind]
          dsimp only
          rw [hfirst, ok_bind, hlast, ok_bind]
          dsimp only at h
          split at h
          · cases h
          · obtain ⟨disk'', -, h⟩ := except_bind_eq_ok.mp h
            cases h
            exact ⟨_, rfl⟩

theorem readSectors_congr {hdr hdr' : FileHeader} {i count : ℕ} (buf : Bytes)
    (h : ∀ j, i ≤ j → j < i + count → hdr'.dataSector (first + j) = hdr.dataSector (first + j)) :
    readSectors hdr' disk first i count buf = readSectors hdr disk first i count buf := by
  induction count generalizing i buf with
  | zero => rfl
  | succ count ih =>
      rw [readSectors, readSectors, byteToSector, byteToSector,
        Int.mul_tdiv_cancel _ (by decide), h i le_rfl (by omega)]
      have hrest := fun buf => ih (i := i + 1) buf fun j hle hlt => h j (by omega) (by omega)
      simp only [hrest]

theorem request_congr (hlength : file'.hdr.fileLength = file.hdr.fileLength) :
    file'.request numBytes position = file.request numBytes position := by
  rw [request, request, hlength]

/-- Of the header a read uses the length and the elements in its accesses, nothing else. -/
theorem readAt_congr (hlength : file'.hdr.fileLength = file.hdr.fileLength)
    (hread : file.readAccesses numBytes position = .ok (result, accesses))
    (hsame : ∀ i, .dataSector i ∈ accesses → file'.hdr.dataSector i = file.hdr.dataSector i) :
    file'.readAt disk into numBytes position = file.readAt disk into numBytes position := by
  rw [readAt, readAt, request_congr hlength]
  cases hchecked : file.request numBytes position with
  | error e => exact Eq.refl (Except.error e)
  | ok checked =>
      cases checked with
      | none => rw [ok_bind, ok_bind]
      | some m =>
          have htransfers := readAccesses_transfers hchecked hread
          rw [ok_bind, ok_bind]
          dsimp only
          rw [readSectors_congr _ fun j _ hj =>
            hsame _ (htransfers.dataSector (by omega) (by omega))]

theorem readInAccesses_eq_ok {start : ℤ}
    (h : file.readInAccesses size start position = .ok accesses) :
    ∃ result part, file.readAccesses sectorSize position = .ok (result, part) ∧
      ∀ access ∈ part, access ∈ accesses := by
  obtain ⟨⟨result, part⟩, hread, h⟩ := except_bind_eq_ok.mp h
  cases h
  exact ⟨result, part, hread, fun access haccess => List.mem_append_left _ haccess⟩

theorem readFirst_congr (disk : Disk) (buf : Bytes) {firstAligned : Bool}
    (hlength : file'.hdr.fileLength = file.hdr.fileLength)
    (hread : file.firstAccesses size first firstAligned = .ok accesses)
    (hsame : ∀ i, .dataSector i ∈ accesses → file'.hdr.dataSector i = file.hdr.dataSector i) :
    file'.readFirst disk first firstAligned buf = file.readFirst disk first firstAligned buf := by
  rw [firstAccesses] at hread
  rw [readFirst, readFirst]
  by_cases hpartial : firstAligned = false
  · rw [if_pos hpartial] at hread ⊢
    obtain ⟨result, part, hpart, hmem⟩ := readInAccesses_eq_ok hread
    rw [if_pos hpartial, readAt_congr hlength hpart fun i hi => hsame i (hmem _ hi)]
  · rw [if_neg hpartial, if_neg hpartial]

theorem readLast_congr (disk : Disk) (buf : Bytes) {firstAligned lastAligned : Bool}
    (hlength : file'.hdr.fileLength = file.hdr.fileLength)
    (hread : file.lastAccesses size first last firstAligned lastAligned = .ok accesses)
    (hsame : ∀ i, .dataSector i ∈ accesses → file'.hdr.dataSector i = file.hdr.dataSector i) :
    file'.readLast disk first last firstAligned lastAligned buf =
      file.readLast disk first last firstAligned lastAligned buf := by
  rw [lastAccesses] at hread
  rw [readLast, readLast]
  by_cases hpartial : lastAligned = false ∧ (first ≠ last ∨ firstAligned = true)
  · rw [if_pos hpartial] at hread ⊢
    obtain ⟨result, part, hpart, hmem⟩ := readInAccesses_eq_ok hread
    rw [if_pos hpartial, readAt_congr hlength hpart fun i hi => hsame i (hmem _ hi)]
  · rw [if_neg hpartial, if_neg hpartial]

theorem writeSectors_congr {hdr hdr' : FileHeader} (buf : Bytes) {i count : ℕ} (disk : Disk)
    (h : ∀ j, i ≤ j → j < i + count → hdr'.dataSector (first + j) = hdr.dataSector (first + j)) :
    writeSectors hdr' buf first i count disk = writeSectors hdr buf first i count disk := by
  induction count generalizing i disk with
  | zero => rfl
  | succ count ih =>
      rw [writeSectors, writeSectors, byteToSector, byteToSector,
        Int.mul_tdiv_cancel _ (by decide), h i le_rfl (by omega)]
      have hrest := fun disk => ih (i := i + 1) disk fun j hle hlt => h j (by omega) (by omega)
      simp only [hrest]

/-- The same for a write. -/
theorem writeAt_congr (hlength : file'.hdr.fileLength = file.hdr.fileLength)
    (hwrite : file.writeAccesses numBytes position = .ok (result, accesses))
    (hsame : ∀ i, .dataSector i ∈ accesses → file'.hdr.dataSector i = file.hdr.dataSector i) :
    file'.writeAt disk heap source numBytes position =
      file.writeAt disk heap source numBytes position := by
  rw [writeAt, writeAt, request_congr hlength]
  cases hchecked : file.request numBytes position with
  | error e => exact Eq.refl (Except.error e)
  | ok checked =>
      cases checked with
      | none => rw [ok_bind, ok_bind]
      | some m =>
          have htransfers := writeAccesses_transfers hchecked hwrite
          rw [writeAccesses, hchecked, ok_bind] at hwrite
          obtain ⟨firstPart, hfirst, hwrite⟩ := except_bind_eq_ok.mp hwrite
          obtain ⟨lastPart, hlast, hwrite⟩ := except_bind_eq_ok.mp hwrite
          have hfirstSame := fun buf => readFirst_congr disk buf hlength hfirst
            fun i hi => hsame i (by cases hwrite; simp [hi])
          have hlastSame := fun buf => readLast_congr disk buf hlength hlast
            fun i hi => hsame i (by cases hwrite; simp [hi])
          have hloop : ∀ j : ℕ, 0 ≤ j → j < 0 + (1 + (position + m - 1).tdiv sectorSize -
              position.tdiv sectorSize).toNat →
              file'.hdr.dataSector (position.tdiv sectorSize + j) =
                file.hdr.dataSector (position.tdiv sectorSize + j) :=
            fun j _ hj => hsame _ (htransfers.dataSector (by omega) (by omega))
          have hloopSame := fun buf => writeSectors_congr buf disk hloop
          rw [ok_bind, ok_bind]
          dsimp only
          simp only [hfirstSame, hlastSame, hloopSame]

end Same

/-! ### When a transfer stays in bounds -/

/-- Reads and writes stay in bounds exactly when the request is in range. -/
theorem transfers_bounded_iff (h : file.hdr.Sized n) (numBytes position : ℤ) :
    (file.StaysInBounds n numBytes position (file.readAccesses numBytes position) ↔
      file.InRange numBytes position) ∧
    (file.StaysInBounds n numBytes position (file.writeAccesses numBytes position) ↔
      file.InRange numBytes position) := by
  refine ⟨⟨fun hread => ?_, readAccesses_inRange h⟩, ⟨fun hwrite => ?_, writeAccesses_inRange h⟩⟩
  · exact hread.inRange (fun hoverflow => by rw [readAccesses, hoverflow]; rfl)
      fun m result accesses => readAccesses_transfers
  · exact hwrite.inRange (fun hoverflow => by rw [writeAccesses, hoverflow]; rfl)
      fun m result accesses => writeAccesses_transfers

/-- A file of 100 bytes. -/
def shortFile : OpenFile where
  hdr := { numBytes := 100#32, numSectors := 1#32, dataSectors := fun _ => 7#32 }
  seekPosition := 0

theorem transfers_bounded_iff_shortFile : shortFile.hdr.Sized 100 ∧
    shortFile.StaysInBounds 100 (2 ^ 31 - 1) 0 (shortFile.readAccesses (2 ^ 31 - 1) 0) ∧
    shortFile.StaysInBounds 100 (2 ^ 31 - 1) 0 (shortFile.writeAccesses (2 ^ 31 - 1) 0) := by
  have hsized : shortFile.hdr.Sized 100 := ⟨by decide, by decide, by decide⟩
  have hrange : shortFile.InRange (2 ^ 31 - 1) 0 := .inr (.inr (by decide))
  have hiff := transfers_bounded_iff hsized (2 ^ 31 - 1) 0
  exact ⟨hsized, hiff.1.mpr hrange, hiff.2.mpr hrange⟩

/-- `Seek(-100)` and a read of 50 bytes: they are copied from in front of the buffer. -/
theorem read_leaves_buffer : shortFile.hdr.Sized 100 ∧
    shortFile.readAccesses 50 (-100) =
      .ok (50, [.dataSector 0, .buffer 512 0 512, .buffer 512 (-100) 50]) ∧
    ¬ shortFile.StaysInBounds 100 50 (-100) (shortFile.readAccesses 50 (-100)) := by
  have htrace : shortFile.readAccesses 50 (-100) =
      .ok (50, [.dataSector 0, .buffer 512 0 512, .buffer 512 (-100) 50]) := by decide
  refine ⟨⟨by decide, by decide, by decide⟩, htrace, ?_⟩
  rintro ⟨result, accesses, heq, hbounded⟩
  rw [htrace] at heq
  cases heq
  have hstart := (hbounded.inBounds (.buffer 512 (-100) 50) (by simp)).1
  omega

end OpenFile
end Nachos
