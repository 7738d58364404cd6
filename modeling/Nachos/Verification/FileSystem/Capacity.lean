import Mathlib.Algebra.Order.Floor.Ring
import Nachos.Verification.FileSystem.Sectors

/-! # The capacity of a header

`Allocate` compares the size of the file with the free sectors only, not with what a header
can hold. -/

namespace Nachos.FileHeader

open Tracking

variable {hdr hdr' : FileHeader} {freeMap freeMap' : BitMap Disk.numSectors} {fileSize : ℤ}

/-- The header of a file of `fileSize` bytes, whose sectors were clear and are the bits that
`Allocate` has set. -/
structure Allocated (freeMap : BitMap Disk.numSectors) (fileSize : ℤ) (hdr : FileHeader)
    (freeMap' : BitMap Disk.numSectors) : Prop where
  nonneg : 0 ≤ fileSize
  small : fileSize ≤ maxFileSize
  numBytes : hdr.numBytes.toInt = fileSize
  numSectors : hdr.numSectors.toInt = ⌈(fileSize : ℚ) / sectorSize⌉
  direct : hdr.numSectors.toInt ≤ numDirect
  dataSectors : ∃ found : List (Fin Disk.numSectors),
    hdr.sectors = found.map (fun i => (i.val : ℤ)) ∧ found.Nodup ∧
      (∀ i ∈ found, freeMap.test i = false) ∧
      ∀ i, freeMap'.test i = (freeMap.test i || decide (i ∈ found))

/-- `Allocate` returns FALSE and the free map is as before, or TRUE with a file that it has
allocated. A write behind `dataSectors` is neither. -/
def AllocateRespects (hdr : FileHeader) (freeMap : BitMap Disk.numSectors) (fileSize : ℤ) : Prop :=
  match hdr.allocate freeMap fileSize with
  | .ok (false, _, freeMap') => freeMap' = freeMap
  | .ok (true, hdr', freeMap') => Allocated freeMap fileSize hdr' freeMap'
  | .error _ => False

/-! ### Rounding -/

theorem divRoundUpInt_nonpos (h : fileSize ≤ 0) : divRoundUpInt fileSize sectorSize ≤ 0 := by
  obtain ⟨n, hn⟩ := Int.exists_eq_neg_ofNat h
  have hdiv := Int.natCast_nonneg (n / sectorSize)
  have hmod := Int.natCast_nonneg (n % sectorSize)
  rw [divRoundUpInt, hn, Int.neg_tdiv, Int.neg_tmod, ← Int.ofNat_tdiv, ← Int.ofNat_tmod,
    if_neg (by omega)]
  omega

/-- There are fewer than `n` free sectors exactly when the file has more bytes than they. -/
theorem lt_divRoundUpInt_iff (n : ℕ) :
    (n : ℤ) < divRoundUpInt fileSize sectorSize ↔ (n * sectorSize : ℕ) < fileSize := by
  rcases le_total fileSize 0 with hneg | hpos
  · have hround := divRoundUpInt_nonpos hneg
    exact iff_of_false (by omega) (by omega)
  · obtain ⟨size, rfl⟩ := Int.eq_ofNat_of_zero_le hpos
    rw [divRoundUpInt_eq, Nat.cast_lt, Nat.cast_lt, lt_divRoundUp]

theorem divRoundUp_eq_ceil (size : ℕ) :
    ((divRoundUp size sectorSize : ℕ) : ℤ) = ⌈((size : ℤ) : ℚ) / sectorSize⌉ := by
  symm
  have hpos : (0 : ℚ) < sectorSize := by norm_num [sectorSize]
  rw [Int.ceil_eq_iff, lt_div_iff₀ hpos, div_le_iff₀ hpos]
  have hlow : ((divRoundUp size sectorSize : ℕ) : ℤ) * sectorSize < size + sectorSize := by
    unfold divRoundUp sectorSize
    split <;> omega
  have hhigh : (size : ℤ) ≤ (divRoundUp size sectorSize : ℕ) * sectorSize := by
    unfold divRoundUp sectorSize
    split <;> omega
  constructor
  · rw [sub_mul, one_mul, sub_lt_iff_lt_add]
    exact_mod_cast hlow
  · exact_mod_cast hhigh

/-! ### Sizes that do not fit -/

theorem findSectors_outside (i : ℕ) {count : ℕ} (hdr : FileHeader)
    (freeMap : BitMap Disk.numSectors) (hcount : numDirect < i + count) (hi : i ≤ numDirect) :
    findSectors i count hdr freeMap = .error .undefined := by
  induction count generalizing i hdr freeMap with
  | zero => omega
  | succ count ih =>
      rw [findSectors]
      dsimp only
      by_cases hlast : i < numDirect
      · rw [dif_pos hlast]
        exact ih (i + 1) _ _ (by omega) hlast
      · rw [dif_neg hlast]

theorem allocate_of_outside (hdr : FileHeader)
    (hroom : ¬ (freeMap.numClear * sectorSize : ℕ) < fileSize)
    (hlarge : maxFileSize < fileSize) : hdr.allocate freeMap fileSize = .error .undefined := by
  have hcount : (numDirect : ℤ) < divRoundUpInt fileSize sectorSize := by
    rw [lt_divRoundUpInt_iff]
    exact hlarge
  rw [allocate, if_neg (mt (lt_divRoundUpInt_iff _).mp hroom),
    findSectors_outside 0 _ _ (by omega) (Nat.zero_le _)]
  rfl

theorem not_respects_of_outside (hdr : FileHeader)
    (hroom : ¬ (freeMap.numClear * sectorSize : ℕ) < fileSize) (hlarge : maxFileSize < fileSize) :
    ¬ AllocateRespects hdr freeMap fileSize := by
  rw [AllocateRespects, allocate_of_outside hdr hroom hlarge]
  exact id

theorem allocate_of_full (hdr : FileHeader)
    (hfull : (freeMap.numClear * sectorSize : ℕ) < fileSize) :
    hdr.allocate freeMap fileSize = .ok (false, { hdr with
      numBytes := BitVec.ofInt 32 fileSize
      numSectors := BitVec.ofInt 32 (divRoundUpInt fileSize sectorSize) }, freeMap) := by
  rw [allocate, if_pos ((lt_divRoundUpInt_iff _).mpr hfull)]
  rfl

/-- A negative size has no sectors, and it is accepted. -/
theorem allocate_of_negative (hdr : FileHeader) (freeMap : BitMap Disk.numSectors)
    (hneg : fileSize < 0) :
    ∃ hdr', hdr.allocate freeMap fileSize = .ok (true, hdr', freeMap) := by
  have hround := divRoundUpInt_nonpos hneg.le
  rw [allocate, if_neg (by omega), Int.toNat_eq_zero.mpr hround]
  exact ⟨_, rfl⟩

/-! ### When the capacity is respected -/

theorem allocated_of_holds {size : ℕ} {found : List (Fin Disk.numSectors)}
    (hholds : hdr.Holds size found) (hnodup : found.Nodup)
    (hclear : ∀ i ∈ found, freeMap.test i = false)
    (htest : ∀ i, freeMap'.test i = (freeMap.test i || decide (i ∈ found))) :
    Allocated freeMap size hdr freeMap' where
  nonneg := Int.natCast_nonneg size
  small := by exact_mod_cast hholds.small
  numBytes := hholds.numBytes
  numSectors := by rw [hholds.numSectors, divRoundUp_eq_ceil]
  direct := by
    rw [hholds.numSectors]
    exact_mod_cast divRoundUp_le hholds.small
  dataSectors := ⟨found, hholds.sectors, hnodup, hclear, htest⟩

theorem allocate_respects_iff (hdr : FileHeader) (freeMap : BitMap Disk.numSectors)
    (fileSize : ℤ) :
    AllocateRespects hdr freeMap fileSize ↔
      (freeMap.numClear * sectorSize : ℕ) < fileSize ∨ 0 ≤ fileSize ∧ fileSize ≤ maxFileSize := by
  by_cases hfull : ((freeMap.numClear * sectorSize : ℕ) : ℤ) < fileSize
  · have hrefused := allocate_of_full hdr hfull
    refine iff_of_true ?_ (.inl hfull)
    rw [AllocateRespects, hrefused]
  by_cases hneg : fileSize < 0
  · obtain ⟨hdr', hnegative⟩ := allocate_of_negative hdr freeMap hneg
    refine iff_of_false (fun h => ?_) (by omega)
    rw [AllocateRespects, hnegative] at h
    exact absurd h.nonneg (by omega)
  by_cases hlarge : maxFileSize < fileSize
  · exact iff_of_false (not_respects_of_outside hdr hfull hlarge) (by omega)
  refine iff_of_true ?_ (.inr ⟨not_lt.mp hneg, not_lt.mp hlarge⟩)
  obtain ⟨size, rfl⟩ := Int.eq_ofNat_of_zero_le (not_lt.mp hneg)
  have hsmall : size ≤ maxFileSize := by exact_mod_cast not_lt.mp hlarge
  obtain ⟨result, hallocate, hspec⟩ := allocate_spec hdr freeMap hsmall
  rw [AllocateRespects, hallocate]
  cases hspec with
  | full hdr' hroom => rfl
  | allocated hdr' freeMap' found hroom hholds hnodup hclear hleast htest =>
      exact allocated_of_holds hholds hnodup hclear htest

/-- The map of a disk without a used sector. -/
def emptyMap : BitMap Disk.numSectors :=
  ⟨Vector.replicate _ 0#32⟩

theorem numClear_emptyMap : emptyMap.numClear = 1024 := by decide +kernel

/-- A file of 70000 bytes needs 137 sectors, and the header has room for 126. -/
theorem allocate_overruns : ¬ AllocateRespects ⟨0#32, 0#32, fun _ => 0#32⟩ emptyMap 70000 := by
  have hroom : ¬ ((emptyMap.numClear * sectorSize : ℕ) : ℤ) < 70000 := by
    rw [numClear_emptyMap]
    norm_num [sectorSize]
  have hlarge : (maxFileSize : ℤ) < 70000 := by
    norm_num [maxFileSize, numDirect, sectorSize]
  exact not_respects_of_outside _ hroom hlarge

end Nachos.FileHeader
