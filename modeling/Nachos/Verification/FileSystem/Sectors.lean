import Mathlib.Data.List.GetD
import Nachos.Verification.BitMap.Semantics
import Nachos.Verification.FileSystem.Transfer

/-! # The sectors of a file

`Allocate` takes clear sectors from the free map, and `Deallocate` gives them back. -/

namespace Nachos.FileHeader

open Tracking

variable {hdr : FileHeader} {freeMap : BitMap Disk.numSectors}

/-- The first `numSectors` entries of `dataSectors`. -/
def sectors (hdr : FileHeader) : List ℤ :=
  (List.range hdr.numSectors.toInt.toNat).map fun i => (hdr.word (i + 2)).toInt

/-- The file of `size` bytes in the sectors of the list. -/
structure Holds (hdr : FileHeader) (size : ℕ) (found : List (Fin Disk.numSectors)) : Prop where
  numBytes : hdr.numBytes.toInt = size
  numSectors : hdr.numSectors.toInt = divRoundUp size sectorSize
  small : size ≤ maxFileSize
  sectors : hdr.sectors = found.map fun i => (i.val : ℤ)

theorem divRoundUp_le {size : ℕ} (h : size ≤ maxFileSize) :
    divRoundUp size sectorSize ≤ numDirect := by
  unfold maxFileSize numDirect sectorSize at h
  unfold divRoundUp numDirect sectorSize
  split <;> omega

theorem lt_divRoundUp {size i : ℕ} : i < divRoundUp size sectorSize ↔ i * sectorSize < size := by
  unfold divRoundUp sectorSize
  split <;> omega

/-! ### Allocation -/

/-- The header with the numbers of the list from `dataSectors[i]` on. -/
def setSectors (hdr : FileHeader) (i : ℕ) (numbers : List ℤ) : FileHeader :=
  { hdr with
    dataSectors := fun j =>
      if i ≤ j ∧ j < i + numbers.length then BitVec.ofInt 32 (numbers.getD (j - i) 0)
      else hdr.dataSectors j }

theorem setSectors_nil (hdr : FileHeader) (i : ℕ) : hdr.setSectors i [] = hdr := by
  cases hdr
  simp only [setSectors, mk.injEq, true_and]
  funext j
  rw [if_neg (by rw [List.length_nil]; omega)]

theorem setSectors_cons (hdr : FileHeader) {i : ℕ} (hi : i < numDirect) (number : ℤ)
    (numbers : List ℤ) :
    setSectors { hdr with
        dataSectors := Function.update hdr.dataSectors ⟨i, hi⟩ (BitVec.ofInt 32 number) }
      (i + 1) numbers = hdr.setSectors i (number :: numbers) := by
  simp only [setSectors, mk.injEq, true_and]
  funext j
  rw [List.length_cons]
  rcases lt_trichotomy i j with hlt | heq | hgt
  · have hj : j.val - i = j - (i + 1) + 1 := by omega
    have hne : j ≠ ⟨i, hi⟩ := fun h => by simp [h] at hlt
    rw [Function.update_of_ne hne, hj, List.getD_cons_succ]
    exact if_congr (by omega) rfl rfl
  · have hj : j = ⟨i, hi⟩ := Fin.ext heq.symm
    rw [if_neg (by omega), if_pos (by omega), hj, Function.update_self, Nat.sub_self,
      List.getD_cons_zero]
  · have hne : j ≠ ⟨i, hi⟩ := fun h => by simp [h] at hgt
    rw [if_neg (by omega), if_neg (by omega), Function.update_of_ne hne]

theorem findSectors_eq (i : ℕ) {count : ℕ} (hdr : FileHeader) (freeMap : BitMap Disk.numSectors)
    (hcount : i + count ≤ numDirect) :
    findSectors i count hdr freeMap =
      .ok (hdr.setSectors i (freeMap.take count).1, (freeMap.take count).2) := by
  induction count generalizing i hdr freeMap with
  | zero => rw [findSectors, BitMap.take, setSectors_nil]
  | succ count ih =>
      rw [findSectors, BitMap.take]
      dsimp only
      rw [dif_pos (by omega), ih (i + 1) _ _ (by omega), setSectors_cons]

theorem divRoundUpInt_eq (n s : ℕ) : divRoundUpInt n s = divRoundUp n s := by
  rw [divRoundUpInt, divRoundUp, ← Int.ofNat_tdiv, ← Int.ofNat_tmod]
  push_cast
  congr 1
  exact if_congr (by omega) rfl rfl

theorem word_add_two (hdr : FileHeader) {i : ℕ} (hi : i < numDirect) :
    hdr.word (i + 2) = hdr.dataSectors ⟨i, hi⟩ := by
  rw [word, if_neg (by omega), if_neg (by omega), dif_pos (by simpa using hi)]
  rfl

theorem toInt_ofInt_val (i : Fin Disk.numSectors) :
    (BitVec.ofInt 32 (i.val : ℤ)).toInt = i.val := by
  have hlt : i.val < 1024 := i.isLt
  exact toInt_ofInt (by omega) (by unfold intMax; omega)

/-- The header that `Allocate` fills. -/
theorem holds_setSectors (hdr : FileHeader) {size : ℕ} (hsize : size ≤ maxFileSize)
    {found : List (Fin Disk.numSectors)} (hlength : found.length = divRoundUp size sectorSize) :
    Holds (setSectors { hdr with
        numBytes := BitVec.ofInt 32 size
        numSectors := BitVec.ofInt 32 (divRoundUp size sectorSize : ℕ) }
      0 (found.map fun i => (i.val : ℤ))) size found := by
  have hcount := divRoundUp_le hsize
  have hbytes : (BitVec.ofInt 32 (size : ℤ)).toInt = size := by
    unfold maxFileSize numDirect sectorSize at hsize
    exact toInt_ofInt (by omega) (by unfold intMax; omega)
  have hsectors : (BitVec.ofInt 32 ((divRoundUp size sectorSize : ℕ) : ℤ)).toInt =
      divRoundUp size sectorSize := by
    have hcount : divRoundUp size sectorSize ≤ 126 := hcount
    exact toInt_ofInt (by omega) (by unfold intMax; omega)
  refine ⟨hbytes, hsectors, hsize, ?_⟩
  rw [sectors]
  simp only [setSectors, hsectors, Int.toNat_natCast]
  apply List.ext_getElem
  · simp [hlength]
  · intro i hi hi'
    have hi : i < found.length := by simpa using hi'
    rw [List.getElem_map, List.getElem_map, List.getElem_range, word_add_two _ (by omega)]
    dsimp only
    rw [if_pos (by simp [hi]), Nat.sub_zero, List.getD_eq_getElem _ _ (by simpa using hi),
      List.getElem_map, toInt_ofInt_val]

/-- What `Allocate` does with a size that fits into a header. -/
inductive AllocateSpec (size : ℕ) (freeMap : BitMap Disk.numSectors) :
    Bool × FileHeader × BitMap Disk.numSectors → Prop
  | full (hdr : FileHeader) (hroom : freeMap.numClear < divRoundUp size sectorSize) :
      AllocateSpec size freeMap (false, hdr, freeMap)
  | allocated (hdr : FileHeader) (freeMap' : BitMap Disk.numSectors)
      (found : List (Fin Disk.numSectors))
      (hroom : divRoundUp size sectorSize ≤ freeMap.numClear) (hholds : hdr.Holds size found)
      (hnodup : found.Nodup) (hclear : ∀ i ∈ found, freeMap.test i = false)
      (hleast : ∀ i ∈ found, ∀ j < i, freeMap.test j = true ∨ j ∈ found)
      (htest : ∀ i, freeMap'.test i = (freeMap.test i || decide (i ∈ found))) :
      AllocateSpec size freeMap (true, hdr, freeMap')

theorem allocate_spec (hdr : FileHeader) (freeMap : BitMap Disk.numSectors) {size : ℕ}
    (hsize : size ≤ maxFileSize) :
    ∃ result, hdr.allocate freeMap size = .ok result ∧ AllocateSpec size freeMap result := by
  rw [allocate, divRoundUpInt_eq]
  split
  · rename_i hfew
    exact ⟨_, rfl, .full _ (by exact_mod_cast hfew)⟩
  · rename_i hroom
    have hroom : divRoundUp size sectorSize ≤ freeMap.numClear := by exact_mod_cast not_lt.mp hroom
    have hcount := divRoundUp_le hsize
    obtain ⟨found, hfound⟩ := BitMap.take_spec _ freeMap hroom
    rw [Int.toNat_natCast, findSectors_eq 0 _ _ (by omega), ok_bind]
    refine ⟨_, rfl, .allocated _ _ found hroom ?_ (hfound.increasing.imp ne_of_lt) hfound.clear
      hfound.least hfound.test⟩
    rw [hfound.numbers]
    exact holds_setSectors hdr hsize hfound.length

/-- A file that fits into one sector gets the first one that is clear. -/
theorem allocate_one (hdr : FileHeader) {freeMap : BitMap Disk.numSectors} {size : ℕ}
    (hone : divRoundUp size sectorSize = 1) (hsize : size ≤ maxFileSize)
    {sector : Fin Disk.numSectors} (hclear : freeMap.test sector = false)
    (hleast : ∀ j < sector, freeMap.test j = true) :
    ∃ hdr', hdr.allocate freeMap size = .ok (true, hdr', freeMap.mark sector) ∧
      hdr'.Holds size [sector] := by
  have hroom : 0 < freeMap.numClear := (BitMap.numClear_pos_iff freeMap).mpr ⟨sector, hclear⟩
  have hholds := holds_setSectors hdr hsize (show [sector].length = _ from hone.symm)
  refine ⟨_, ?_, hholds⟩
  rw [allocate, divRoundUpInt_eq, hone, if_neg (by omega), Int.toNat_natCast,
    findSectors_eq 0 _ _ (by decide), ok_bind]
  simp only [BitMap.take, BitMap.find_eq hclear hleast, List.map_cons, List.map_nil]
  rfl

/-! ### What a header holds -/

variable {size : ℕ} {found : List (Fin Disk.numSectors)}

theorem Holds.length (h : hdr.Holds size found) : found.length = divRoundUp size sectorSize := by
  have hlength := congrArg List.length h.sectors
  simpa [FileHeader.sectors, h.numSectors] using hlength.symm

theorem Holds.dataSector (h : hdr.Holds size found) {i : ℕ} (hi : i < found.length) :
    hdr.dataSector i = .ok (found[i] : ℕ) := by
  have hcount := divRoundUp_le h.small
  have hlength := h.length
  have hnumber : hdr.sectors[i]? = some ((found[i].val : ℕ) : ℤ) := by
    rw [h.sectors, List.getElem?_map, List.getElem?_eq_getElem hi]
    rfl
  rw [FileHeader.sectors, h.numSectors, Int.toNat_natCast, List.getElem?_map,
    List.getElem?_range (by omega)] at hnumber
  have hword := Option.some.inj hnumber
  dsimp only at hword
  rw [FileHeader.dataSector, if_pos (by omega), ← hword]
  rfl

/-- The sectors in the order of the file. -/
def sectorMap (found : List (Fin Disk.numSectors)) (i : ℕ) : Fin Disk.numSectors :=
  found.getD i ⟨0, Disk.numSectors_pos⟩

theorem sectorMap_of_lt {i : ℕ} (hi : i < found.length) : sectorMap found i = found[i] :=
  List.getD_eq_getElem _ _ hi

theorem sectorMap_mem {i : ℕ} (hi : i < found.length) : sectorMap found i ∈ found :=
  sectorMap_of_lt hi ▸ List.getElem_mem hi

theorem Holds.describes (h : hdr.Holds size found) : hdr.Describes size (sectorMap found) where
  fileLength := h.numBytes
  sector i hi := by
    have hi : i < found.length := h.length ▸ lt_divRoundUp.mpr hi
    rw [h.dataSector hi, sectorMap_of_lt hi]

theorem Holds.sectorMap_inj (h : hdr.Holds size found) (hnodup : found.Nodup) (i j : ℕ)
    (hi : i * sectorSize < size) (hj : j * sectorSize < size)
    (heq : sectorMap found i = sectorMap found j) : i = j := by
  have hi : i < found.length := h.length ▸ lt_divRoundUp.mpr hi
  have hj : j < found.length := h.length ▸ lt_divRoundUp.mpr hj
  rw [sectorMap_of_lt hi, sectorMap_of_lt hj] at heq
  exact (hnodup.getElem_inj_iff).mp heq

/-! ### Deallocation -/

theorem freeSectors_spec (hdr : FileHeader) (i : ℕ) (freeMap : BitMap Disk.numSectors)
    (hdata : ∀ j (hj : j < found.length), hdr.dataSector (i + j : ℕ) = .ok (found[j] : ℕ))
    (hnodup : found.Nodup) (hmarked : ∀ x ∈ found, freeMap.test x = true) :
    ∃ freeMap', hdr.freeSectors i found.length freeMap = .ok freeMap' ∧
      ∀ x, freeMap'.test x = (freeMap.test x && decide (x ∉ found)) := by
  induction found generalizing i freeMap with
  | nil => exact ⟨freeMap, rfl, by simp⟩
  | cons x rest ih =>
      obtain ⟨hx, hrest⟩ := List.nodup_cons.mp hnodup
      have hfirst : hdr.dataSector i = .ok (x : ℕ) := hdata 0 (by simp)
      have hfree : freeSector freeMap (x : ℕ) = .ok (freeMap.clear x) := by
        rw [freeSector, Disk.sector_coe, ok_bind, if_pos (hmarked x List.mem_cons_self)]
        rfl
      obtain ⟨freeMap', hfreed, htest⟩ := ih (i + 1) (freeMap.clear x)
        (fun j hj => by
          have := hdata (j + 1) (by simpa using hj)
          rwa [← Nat.add_assoc, Nat.add_right_comm] at this)
        hrest
        (fun y hy => by
          have hne : x ≠ y := fun h => hx (h ▸ hy)
          rw [BitMap.test_clear, hmarked y (List.mem_cons_of_mem x hy)]
          simp [hne])
      refine ⟨freeMap', ?_, fun y => ?_⟩
      · rw [List.length_cons, freeSectors, hfirst, ok_bind, hfree, ok_bind]
        exact hfreed
      · rw [htest, BitMap.test_clear]
        by_cases hxy : x = y
        · simp [hxy]
        · simp [hxy, Ne.symm hxy]

theorem deallocate_spec (h : hdr.Holds size found) (hnodup : found.Nodup)
    (hmarked : ∀ x ∈ found, freeMap.test x = true) :
    ∃ freeMap', hdr.deallocate freeMap = .ok freeMap' ∧
      ∀ x, freeMap'.test x = (freeMap.test x && decide (x ∉ found)) := by
  have hcount : hdr.numSectors.toInt.toNat = found.length := by
    rw [h.numSectors, Int.toNat_natCast, h.length]
  rw [deallocate, hcount]
  refine freeSectors_spec hdr 0 freeMap (fun j hj => ?_) hnodup hmarked
  rw [Nat.zero_add]
  exact h.dataSector hj

end Nachos.FileHeader
