import Nachos.Model.FileSystem

/-! # Objects on the disk

What is written byte by byte is read back as the object it was. -/

namespace Nachos

/-! ### Sectors -/

@[simp] theorem Disk.sector_coe (i : Fin Disk.numSectors) :
    Disk.sector ((i : ℕ) : ℤ) = .ok i := by
  have hlt : ((i : ℕ) : ℤ) < Disk.numSectors := by exact_mod_cast i.isLt
  simp [Disk.sector, BitMap.index?, hlt]

@[simp] theorem Disk.readSector_coe (disk : Disk) (i : Fin Disk.numSectors) :
    disk.readSector ((i : ℕ) : ℤ) = .ok (disk i) := by
  rw [Disk.readSector, Disk.sector_coe]
  rfl

@[simp] theorem Disk.writeSector_coe (disk : Disk) (i : Fin Disk.numSectors) (data : Sector) :
    disk.writeSector ((i : ℕ) : ℤ) data = .ok (Function.update disk i data) := by
  rw [Disk.writeSector, Disk.sector_coe]
  rfl

/-! ### Integers -/

theorem toNat_byteOf (w : Word) (k : ℕ) : (byteOf w k).toNat = w.toNat / 2 ^ (8 * k) % 256 := by
  rw [byteOf, BitVec.extractLsb'_toNat, Nat.shiftRight_eq_div_pow]

theorem wordAt_eq {bytes : Bytes} {addr : ℕ} {w : Word}
    (h : ∀ k < 4, bytes (addr + k) = byteOf w k) : wordAt bytes addr = w := by
  have h₀ := toNat_byteOf w 0
  have h₁ := toNat_byteOf w 1
  have h₂ := toNat_byteOf w 2
  have h₃ := toNat_byteOf w 3
  rw [← h 0 (by decide)] at h₀
  rw [← h 1 (by decide)] at h₁
  rw [← h 2 (by decide)] at h₂
  rw [← h 3 (by decide)] at h₃
  have hlt := w.isLt
  apply BitVec.eq_of_toNat_eq
  simp only [wordAt, Machine.load, BitVec.toNat_ofNat, Nat.add_assoc, Nat.reduceAdd, add_zero]
    at *
  omega

theorem wordAt_congr {a b : Bytes} {addr addr' : ℕ} (h : ∀ k < 4, a (addr + k) = b (addr' + k)) :
    wordAt a addr = wordAt b addr' := by
  have h₀ := h 0 (by decide)
  have h₁ := h 1 (by decide)
  have h₂ := h 2 (by decide)
  have h₃ := h 3 (by decide)
  simp only [wordAt, Machine.load, Nat.add_assoc, Nat.reduceAdd, add_zero] at *
  rw [h₀, h₁, h₂, h₃]

theorem toInt_ofInt {x : ℤ} (hlow : -(2 ^ 31) ≤ x) (hhigh : x ≤ intMax) :
    (BitVec.ofInt 32 x).toInt = x := by
  rw [BitVec.toInt_ofInt]
  exact Int.bmod_eq_of_le (by omega) (by unfold intMax at hhigh; omega)

/-! ### Sectors -/

@[simp] theorem Sector.bytes_of_lt (s : Sector) {k : ℕ} (h : k < sectorSize) :
    Sector.bytes s k = s ⟨k, h⟩ :=
  dif_pos h

theorem bytes_sectorAt (buf : Bytes) (i : ℕ) {k : ℕ} (h : k < sectorSize) :
    Sector.bytes (sectorAt buf i) k = buf (i * sectorSize + k) :=
  dif_pos h

/-! ### File headers -/

namespace FileHeader

theorem bytes_toSector (hdr : FileHeader) {i k : ℕ} (hi : i < 128) (hk : k < 4) :
    Sector.bytes hdr.toSector (4 * i + k) = byteOf (hdr.word i) k := by
  have hlt : 4 * i + k < sectorSize := by unfold sectorSize; omega
  rw [Sector.bytes_of_lt _ hlt, toSector]
  have hdiv : (4 * i + k) / 4 = i := by omega
  have hmod : (4 * i + k) % 4 = k := by omega
  simp only [hdiv, hmod]

theorem wordAt_toSector (hdr : FileHeader) {i : ℕ} (hi : i < 128) :
    wordAt (Sector.bytes hdr.toSector) (4 * i) = hdr.word i :=
  wordAt_eq fun _ hk => hdr.bytes_toSector hi hk

theorem ofSector_toSector (hdr : FileHeader) : ofSector hdr.toSector = hdr := by
  have hdata : ∀ i : Fin numDirect,
      wordAt (Sector.bytes hdr.toSector) (8 + 4 * i) = hdr.dataSectors i := by
    intro i
    have hi : i.val < 126 := i.isLt
    have hword := hdr.wordAt_toSector (i := i + 2) (by omega)
    rw [show 8 + 4 * i.val = 4 * (i.val + 2) by omega, hword, word, if_neg (by omega),
      if_neg (by omega), dif_pos (by simp)]
    rfl
  cases hdr
  simp only [ofSector, mk.injEq]
  exact ⟨wordAt_toSector _ (i := 0) (by decide), wordAt_toSector _ (i := 1) (by decide),
    funext hdata⟩

end FileHeader

/-! ### The directory -/

theorem DirectoryEntry.ofBytes_eq {bytes : Bytes} {entry : DirectoryEntry}
    (h : ∀ k < size, bytes k = entry.toBytes k) : ofBytes bytes = entry := by
  have hsector : wordAt bytes 4 = entry.sector := by
    refine wordAt_eq fun k hk => ?_
    rw [h (4 + k) (by unfold size; omega)]
    interval_cases k <;> rfl
  have hname : (fun i : Fin (fileNameMaxLen + 1) => bytes (8 + i)) = entry.name := by
    funext i
    rw [h (8 + i) (by have := i.isLt; unfold fileNameMaxLen size at *; omega)]
    fin_cases i <;> rfl
  have hpadding : ![bytes 1, bytes 2, bytes 3, bytes 18, bytes 19] = entry.padding := by
    rw [h 1 (by decide), h 2 (by decide), h 3 (by decide), h 18 (by decide), h 19 (by decide)]
    funext i
    fin_cases i <;> rfl
  rw [ofBytes, h 0 (by decide), hsector, hname, hpadding]
  rfl

theorem DirectoryEntry.ofBytes_congr {a b : Bytes} (h : ∀ k < size, a k = b k) :
    ofBytes a = ofBytes b := by
  have hsector : wordAt a 4 = wordAt b 4 := wordAt_congr fun k hk => h _ (by unfold size; omega)
  have hname : (fun i : Fin (fileNameMaxLen + 1) => a (8 + i)) =
      fun i : Fin (fileNameMaxLen + 1) => b (8 + i) := by
    funext i
    exact h _ (by have := i.isLt; unfold fileNameMaxLen size at *; omega)
  rw [ofBytes, ofBytes, h 0 (by decide), h 1 (by decide), h 2 (by decide), h 3 (by decide),
    h 18 (by decide), h 19 (by decide), hsector, hname]

/-- Only the bytes of the table are read. -/
theorem Directory.ofBytes_congr {tableSize : ℕ} {a b : Bytes}
    (h : ∀ k < tableSize * DirectoryEntry.size, a k = b k) :
    (ofBytes a : Directory tableSize) = ofBytes b := by
  refine congrArg mk (funext fun i => DirectoryEntry.ofBytes_congr fun k hk => h _ ?_)
  have hi := i.isLt
  unfold DirectoryEntry.size at *
  omega

theorem Directory.ofBytes_eq {tableSize : ℕ} {bytes : Bytes} {directory : Directory tableSize}
    (h : ∀ k < tableSize * DirectoryEntry.size, bytes k = directory.toBytes k) :
    ofBytes bytes = directory := by
  have htable : ∀ i : Fin tableSize,
      DirectoryEntry.ofBytes (fun k => bytes (i * DirectoryEntry.size + k)) =
        directory.table i := by
    intro i
    refine DirectoryEntry.ofBytes_eq fun k hk => ?_
    have hk : k < 20 := hk
    have hi := i.isLt
    have hdiv : (i.val * DirectoryEntry.size + k) / DirectoryEntry.size = i.val := by
      unfold DirectoryEntry.size; omega
    have hmod : (i.val * DirectoryEntry.size + k) % DirectoryEntry.size = k := by
      unfold DirectoryEntry.size; omega
    rw [h _ (by unfold DirectoryEntry.size; omega), toBytes]
    simp only [hdiv, hmod, hi, dif_pos]
  cases directory
  exact congrArg mk (funext htable)

/-! ### The bitmap -/

theorem BitMap.ofBytes_congr {n : ℕ} {a b : Bytes} (h : ∀ k < numWords n * 4, a k = b k) :
    (ofBytes a : BitMap n) = ofBytes b := by
  refine congrArg mk (congrArg Vector.ofFn (funext fun i => wordAt_congr fun k hk => h _ ?_))
  have hi := i.isLt
  unfold numWords
  omega

theorem BitMap.ofBytes_eq {n : ℕ} {bytes : Bytes} {b : BitMap n}
    (h : ∀ k < numWords n * 4, bytes k = b.toBytes k) : ofBytes bytes = b := by
  have hmap : ∀ i (hi : i < divRoundUp n bitsInWord), wordAt bytes (4 * i) = b.map[i] := by
    intro i hi
    refine wordAt_eq fun k hk => ?_
    have hdiv : (4 * i + k) / 4 = i := by omega
    have hmod : (4 * i + k) % 4 = k := by omega
    rw [h _ (by unfold numWords; omega), toBytes]
    simp only [hdiv, hmod, hi, dif_pos]
  cases b
  refine congrArg mk (Vector.ext fun i hi => ?_)
  rw [Vector.getElem_ofFn]
  exact hmap i hi

end Nachos
