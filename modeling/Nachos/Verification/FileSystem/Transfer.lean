import Nachos.Library.Tracking
import Nachos.Verification.FileSystem.Layout

/-! # Reading and writing through a header

A header describes a sequence of bytes that is spread over sectors. `ReadAt` and `WriteAt`
move whole sectors, and yet a read returns the bytes asked for and a write changes no
other. -/

namespace Nachos

/-! ### What a header describes -/

/-- A file of `length` bytes whose `i`-th sector is `sectors i`. -/
structure FileHeader.Describes (hdr : FileHeader) (length : ℕ)
    (sectors : ℕ → Fin Disk.numSectors) : Prop where
  fileLength : hdr.fileLength = length
  sector : ∀ i : ℕ, i * sectorSize < length → hdr.dataSector i = .ok (sectors i : ℕ)

/-- The byte at an offset of the file. -/
def content (disk : Disk) (sectors : ℕ → Fin Disk.numSectors) (offset : ℕ) : Byte :=
  Sector.bytes (disk (sectors (offset / sectorSize))) (offset % sectorSize)

theorem content_mul_add (disk : Disk) (sectors : ℕ → Fin Disk.numSectors) (i : ℕ) {k : ℕ}
    (hk : k < sectorSize) :
    content disk sectors (i * sectorSize + k) = Sector.bytes (disk (sectors i)) k := by
  have hdiv : (i * sectorSize + k) / sectorSize = i := by unfold sectorSize at *; omega
  have hmod : (i * sectorSize + k) % sectorSize = k := by unfold sectorSize at *; omega
  rw [content, hdiv, hmod]

theorem FileHeader.Describes.length_le {hdr : FileHeader} {length : ℕ}
    {sectors : ℕ → Fin Disk.numSectors} (h : hdr.Describes length sectors) :
    length ≤ maxFileSize := by
  by_contra hlt
  have hbad := h.sector numDirect (not_le.mp hlt)
  rw [dataSector, if_neg (by omega)] at hbad
  cases hbad

theorem bcopy_congr {src src' dst : Bytes} {start length : ℕ} (h : ∀ k < length, src k = src' k) :
    bcopy src dst start length = bcopy src' dst start length := by
  funext k
  rw [bcopy, bcopy]
  split
  · exact h _ (by omega)
  · rfl

namespace OpenFile

open FileHeader Tracking

variable {hdr : FileHeader} {length : ℕ} {sectors : ℕ → Fin Disk.numSectors} {disk : Disk}

theorem byteToSector_mul (h : hdr.Describes length sectors) {i : ℕ}
    (hi : i * sectorSize < length) :
    hdr.byteToSector ((i : ℤ) * sectorSize) = .ok (sectors i : ℕ) := by
  rw [byteToSector, Int.mul_tdiv_cancel _ (by decide)]
  exact h.sector i hi

/-! ### The loops over the sectors -/

theorem readSectors_spec (h : hdr.Describes length sectors) (disk : Disk) {first i count : ℕ}
    (buf : Bytes) (hlast : ∀ j, i ≤ j → j < i + count → (first + j) * sectorSize < length) :
    ∃ buf', readSectors hdr disk first i count buf = .ok buf' ∧
      ∀ k, buf' k = if i * sectorSize ≤ k ∧ k < (i + count) * sectorSize
        then content disk sectors (first * sectorSize + k) else buf k := by
  induction count generalizing i buf with
  | zero => exact ⟨buf, rfl, fun k => by rw [if_neg (by rw [add_zero]; omega)]⟩
  | succ count ih =>
      have hsector := byteToSector_mul h (hlast i le_rfl (by omega))
      have hrest : ∀ j, i + 1 ≤ j → j < i + 1 + count → (first + j) * sectorSize < length :=
        fun j hj hj' => hlast j (by omega) (by omega)
      obtain ⟨buf', hread, hbuf'⟩ := ih (bcopy (Sector.bytes (disk (sectors (first + i)))) buf
        (i * sectorSize) sectorSize) hrest
      refine ⟨buf', ?_, fun k => ?_⟩
      · rw [readSectors, show ((first : ℤ) + i) = ((first + i : ℕ) : ℤ) by push_cast; rfl, hsector,
          ok_bind, Disk.readSector_coe, ok_bind]
        exact hread
      · rw [hbuf', bcopy]
        have hnext : (i + 1) * sectorSize = i * sectorSize + sectorSize := by ring
        have hend : (i + 1 + count) * sectorSize = (i + (count + 1)) * sectorSize := by ring
        have hmono : (i + 1) * sectorSize ≤ (i + (count + 1)) * sectorSize :=
          Nat.mul_le_mul_right _ (by omega)
        rw [hend]
        by_cases hlater : (i + 1) * sectorSize ≤ k ∧ k < (i + (count + 1)) * sectorSize
        · rw [if_pos hlater, if_pos (by omega)]
        rw [if_neg hlater]
        by_cases hhere : i * sectorSize ≤ k ∧ k < i * sectorSize + sectorSize
        · have hk : k - i * sectorSize < sectorSize := by omega
          have hoffset : first * sectorSize + k =
              (first + i) * sectorSize + (k - i * sectorSize) := by
            rw [Nat.add_mul]
            omega
          rw [if_pos hhere, if_pos (by omega), hoffset, content_mul_add _ _ _ hk]
        · rw [if_neg hhere, if_neg (by omega)]

theorem writeSectors_spec (h : hdr.Describes length sectors) (buf : Bytes) {first i count : ℕ}
    (disk : Disk) (hlast : ∀ j, i ≤ j → j < i + count → (first + j) * sectorSize < length)
    (hinj : ∀ i j, i * sectorSize < length → j * sectorSize < length →
      sectors i = sectors j → i = j) :
    ∃ disk', writeSectors hdr buf first i count disk = .ok disk' ∧
      (∀ sector, (∀ j, i ≤ j → j < i + count → sectors (first + j) ≠ sector) →
        disk' sector = disk sector) ∧
      ∀ j, i ≤ j → j < i + count → disk' (sectors (first + j)) = sectorAt buf j := by
  induction count generalizing i disk with
  | zero => exact ⟨disk, rfl, fun _ _ => rfl, fun j hj hj' => by omega⟩
  | succ count ih =>
      have hi := hlast i le_rfl (by omega)
      have hrest : ∀ j, i + 1 ≤ j → j < i + 1 + count → (first + j) * sectorSize < length :=
        fun j hj hj' => hlast j (by omega) (by omega)
      obtain ⟨disk', hwrite, hother, hwritten⟩ :=
        ih (Function.update disk (sectors (first + i)) (sectorAt buf i)) hrest
      refine ⟨disk', ?_, fun sector hsector => ?_, fun j hj hj' => ?_⟩
      · rw [writeSectors, show ((first : ℤ) + i) = ((first + i : ℕ) : ℤ) by push_cast; rfl,
          byteToSector_mul h hi, ok_bind, Disk.writeSector_coe, ok_bind]
        exact hwrite
      · rw [hother sector fun j hj hj' => hsector j (by omega) (by omega)]
        exact Function.update_of_ne (hsector i le_rfl (by omega)).symm _ _
      · rcases eq_or_lt_of_le hj with rfl | hj
        · rw [hother _ fun j hj hj' heq => ?_, Function.update_self]
          have := hinj _ _ (hrest j hj hj') hi heq
          omega
        · exact hwritten j hj (by omega)

/-! ### Requests -/

variable {file : OpenFile}

/-- How many bytes a request moves. -/
def moved (length numBytes position : ℕ) : ℕ :=
  min numBytes (length - position)

theorem request_eq (h : file.hdr.Describes length sectors) {numBytes position : ℕ}
    (hbytes : 0 < numBytes) (hposition : position < length)
    (hsum : ((position + numBytes : ℕ) : ℤ) ≤ intMax) :
    file.request numBytes position = .ok (some (moved length numBytes position : ℕ)) := by
  push_cast at hsum
  rw [request, h.fileLength, if_neg (by omega), if_neg (by omega), moved]
  split
  · rw [Nat.min_eq_right (by omega)]
    congr 2
    omega
  · rw [Nat.min_eq_left (by omega)]

/-- The `count` sectors from number `first` on are those in which the bytes
`position .. position + m - 1` lie. -/
structure Spans (position m first count : ℕ) : Prop where
  low : first * sectorSize ≤ position
  front : position < first * sectorSize + sectorSize
  high : position + m ≤ (first + count) * sectorSize
  back : (first + count) * sectorSize < position + m + sectorSize

theorem spans_div (position : ℕ) {m : ℕ} (hm : 0 < m) :
    Spans position m (position / sectorSize)
      ((position + m - 1) / sectorSize + 1 - position / sectorSize) := by
  refine ⟨?_, ?_, ?_, ?_⟩ <;> (unfold sectorSize; omega)

theorem Spans.lt {position m first count length j : ℕ} (h : Spans position m first count)
    (hlength : position + m ≤ length) (hj : j < 0 + count) : (first + j) * sectorSize < length := by
  have hle : (first + (j + 1)) * sectorSize ≤ (first + count) * sectorSize :=
    Nat.mul_le_mul_right _ (by omega)
  have hsucc : (first + (j + 1)) * sectorSize = (first + j) * sectorSize + sectorSize := by ring
  have := h.back
  omega

/-- The sectors of a transfer, as the code computes them. -/
theorem sectors_eq (position : ℕ) {m : ℕ} (hm : 0 < m) :
    (position : ℤ).tdiv sectorSize = (position / sectorSize : ℕ) ∧
    ((position : ℤ) + m - 1).tdiv sectorSize = ((position + m - 1) / sectorSize : ℕ) ∧
    (1 + (((position + m - 1) / sectorSize : ℕ) : ℤ) - (position / sectorSize : ℕ)).toNat =
      (position + m - 1) / sectorSize + 1 - position / sectorSize := by
  refine ⟨(Int.ofNat_tdiv _ _).symm, ?_, by omega⟩
  rw [show (position : ℤ) + m - 1 = ((position + m - 1 : ℕ) : ℤ) by omega]
  exact (Int.ofNat_tdiv _ _).symm

/-- A read returns the bytes of the file from `position` on. -/
theorem readAt_eq (h : file.hdr.Describes length sectors) (disk : Disk) (into : Bytes)
    {numBytes position : ℕ} (hbytes : 0 < numBytes) (hposition : position < length)
    (hsum : ((position + numBytes : ℕ) : ℤ) ≤ intMax) :
    file.readAt disk into numBytes position =
      .ok ((moved length numBytes position : ℕ),
        bcopy (fun k => content disk sectors (position + k)) into 0
          (moved length numBytes position)) := by
  have hmoved : 0 < moved length numBytes position := by unfold moved; omega
  have hle : position + moved length numBytes position ≤ length := by unfold moved; omega
  generalize hm : moved length numBytes position = m at *
  obtain ⟨hfirst, hlast, hcount⟩ := sectors_eq position hmoved
  have hspans := spans_div position hmoved
  rw [readAt, request_eq h hbytes hposition hsum, hm, ok_bind]
  dsimp only
  rw [hfirst, hlast, hcount]
  generalize position / sectorSize = first at *
  generalize (position + m - 1) / sectorSize + 1 - first = count at *
  obtain ⟨buf, hread, hbuf⟩ := readSectors_spec h disk (fun _ => 0#8)
    (fun j _ hj => hspans.lt hle hj)
  have hstart :
      (position : ℤ) - first * sectorSize = ((position - first * sectorSize : ℕ) : ℤ) := by
    have := hspans.low
    push_cast [Nat.cast_sub this]
    ring
  rw [hread, ok_bind, hstart, if_neg (by omega), Int.toNat_natCast, Int.toNat_natCast]
  have hbytes : ∀ k < m, buf (position - first * sectorSize + k) =
      content disk sectors (position + k) := by
    intro k hk
    have hlow := hspans.low
    have hhigh := hspans.high
    rw [hbuf, zero_add, zero_mul, if_pos ⟨Nat.zero_le _, by rw [Nat.add_mul] at hhigh; omega⟩]
    congr 1
    omega
  rw [bcopy_congr hbytes]
  rfl

/-! ### Writing -/

/-- A read of a whole sector, as far as the file goes. -/
theorem readAt_sector (h : file.hdr.Describes length sectors) (disk : Disk) (into : Bytes) {i : ℕ}
    (hi : i * sectorSize < length) :
    ∃ m into', file.readAt disk into sectorSize ((i : ℤ) * sectorSize) = .ok (m, into') ∧
      ∀ k < sectorSize, i * sectorSize + k < length →
        into' k = content disk sectors (i * sectorSize + k) := by
  have hlength := h.length_le
  have hread := readAt_eq h disk into (show 0 < sectorSize by decide) hi (by
    unfold intMax
    unfold maxFileSize numDirect sectorSize at *
    push_cast
    omega)
  refine ⟨_, _, by exact_mod_cast hread, fun k hk hlt => ?_⟩
  rw [bcopy, if_pos ⟨Nat.zero_le _, by unfold moved; omega⟩, Nat.sub_zero]

theorem readFirst_spec (h : file.hdr.Describes length sectors) (disk : Disk) (buf : Bytes)
    {first : ℕ} (hfirst : first * sectorSize < length) (firstAligned : Bool) :
    ∃ buf', file.readFirst disk first firstAligned buf = .ok buf' ∧
      (firstAligned = false → ∀ k < sectorSize, first * sectorSize + k < length →
        buf' k = content disk sectors (first * sectorSize + k)) := by
  obtain ⟨m, buf', hread, hbuf'⟩ := readAt_sector h disk buf hfirst
  cases firstAligned with
  | false => exact ⟨buf', by rw [readFirst, if_pos rfl, hread, map_ok], fun _ => hbuf'⟩
  | true => exact ⟨buf, rfl, nofun⟩

/-- Behind both, the sectors that are partially modified are as far in the buffer as the file
goes. -/
theorem readLast_spec (h : file.hdr.Describes length sectors) (disk : Disk) (buf : Bytes)
    {first last : ℕ} (hle : first ≤ last) (hlast : last * sectorSize < length)
    {firstAligned : Bool} (lastAligned : Bool)
    (hfirst : firstAligned = false → ∀ k < sectorSize, first * sectorSize + k < length →
      buf k = content disk sectors (first * sectorSize + k)) :
    ∃ buf', file.readLast disk first last firstAligned lastAligned buf = .ok buf' ∧
      ∀ k, k < (last + 1 - first) * sectorSize → first * sectorSize + k < length →
        (firstAligned = false ∧ k < sectorSize ∨
          lastAligned = false ∧ (last - first) * sectorSize ≤ k) →
        buf' k = content disk sectors (first * sectorSize + k) := by
  have hoffset : (((last : ℤ) - first) * sectorSize).toNat = (last - first) * sectorSize := by
    rw [← Nat.cast_sub hle]
    exact_mod_cast Int.toNat_natCast _
  have hlength : (last + 1 - first) * sectorSize = (last - first) * sectorSize + sectorSize := by
    rw [Nat.succ_sub hle, Nat.succ_mul]
  have hbase : first * sectorSize + (last - first) * sectorSize = last * sectorSize := by
    rw [← Nat.add_mul, Nat.add_sub_cancel' hle]
  rw [readLast, hoffset, hlength]
  split
  · obtain ⟨m, part, hread, hpart⟩ := readAt_sector h disk
      (fun k => buf ((last - first) * sectorSize + k)) hlast
    refine ⟨bcopy part buf ((last - first) * sectorSize) sectorSize, by rw [hread, map_ok],
      fun k hk hlt hends => ?_⟩
    by_cases hin : (last - first) * sectorSize ≤ k
    · rw [bcopy, if_pos ⟨hin, hk⟩, hpart (k - (last - first) * sectorSize) (by omega) (by omega),
        ← hbase, Nat.add_assoc, Nat.add_sub_cancel' hin]
    · rw [bcopy, if_neg (fun h => hin h.1)]
      rcases hends with ⟨hunaligned, hk⟩ | ⟨-, hge⟩
      · exact hfirst hunaligned k hk hlt
      · exact absurd hge hin
  · rename_i hnot
    refine ⟨buf, rfl, fun k hk hlt hends => ?_⟩
    rcases hends with ⟨hunaligned, hk⟩ | ⟨hunaligned, hge⟩
    · exact hfirst hunaligned k hk hlt
    · -- the last sector is the first one, and that was read in
      push Not at hnot
      obtain ⟨hsame, hfirstAligned⟩ := hnot hunaligned
      have hsame : first = last := by exact_mod_cast hsame
      subst hsame
      exact hfirst (by simpa using hfirstAligned) k (by simpa using hk) hlt

/-- What the buffer holds when it is written back. -/
theorem buffer_spec {position m first count : ℕ} (hspans : Spans position m first (count + 1))
    {buf : Bytes}
    (hends : ∀ k, k < (first + count + 1 - first) * sectorSize → first * sectorSize + k < length →
      (decide ((position : ℤ) = first * sectorSize) = false ∧ k < sectorSize ∨
        decide ((position : ℤ) + m = (((first + count : ℕ) : ℤ) + 1) * sectorSize) = false ∧
          (first + count - first) * sectorSize ≤ k) →
      buf k = content disk sectors (first * sectorSize + k))
    (source : Bytes) {k : ℕ} (hk : k < (count + 1) * sectorSize)
    (hlt : first * sectorSize + k < length) :
    bcopy source buf (position - first * sectorSize) m k =
      if position ≤ first * sectorSize + k ∧ first * sectorSize + k < position + m
        then source (first * sectorSize + k - position)
        else content disk sectors (first * sectorSize + k) := by
  obtain ⟨hlow, hfront, hhigh, hback⟩ := hspans
  have hcount : (first + (count + 1)) * sectorSize =
      first * sectorSize + count * sectorSize + sectorSize := by ring
  rw [hcount] at hhigh hback
  rw [Nat.succ_mul] at hk
  rw [bcopy]
  by_cases hin : position - first * sectorSize ≤ k ∧ k < position - first * sectorSize + m
  · rw [if_pos hin, if_pos (by omega)]
    congr 1
    omega
  rw [if_neg hin, if_neg (by omega)]
  apply hends k
  · rw [show first + count + 1 - first = count + 1 by omega, Nat.succ_mul]
    exact hk
  · exact hlt
  -- in front of what is written, or behind it
  by_cases hbefore : k < position - first * sectorSize
  · refine .inl ⟨decide_eq_false ?_, by omega⟩
    intro heq
    have heq : position = first * sectorSize := by exact_mod_cast heq
    omega
  · rw [show first + count - first = count by omega]
    refine .inr ⟨decide_eq_false ?_, by omega⟩
    intro heq
    have heq : position + m = (first + (count + 1)) * sectorSize := by exact_mod_cast heq
    omega

/-- A write changes the bytes of the file from `position` on, and no sector outside the
file. -/
theorem writeAt_spec (h : file.hdr.Describes length sectors)
    (hinj : ∀ i j, i * sectorSize < length → j * sectorSize < length →
      sectors i = sectors j → i = j)
    (disk : Disk) (heap source : Bytes) {numBytes position : ℕ} (hbytes : 0 < numBytes)
    (hposition : position < length) (hsum : ((position + numBytes : ℕ) : ℤ) ≤ intMax) :
    ∃ disk', file.writeAt disk heap source numBytes position =
        .ok ((moved length numBytes position : ℕ), disk') ∧
      (∀ sector, (∀ i, i * sectorSize < length → sectors i ≠ sector) →
        disk' sector = disk sector) ∧
      ∀ offset < length, content disk' sectors offset =
        if position ≤ offset ∧ offset < position + moved length numBytes position
          then source (offset - position) else content disk sectors offset := by
  have hmoved : 0 < moved length numBytes position := by unfold moved; omega
  have hle : position + moved length numBytes position ≤ length := by unfold moved; omega
  generalize hm : moved length numBytes position = m at *
  obtain ⟨hfirst, hlast, hcount⟩ := sectors_eq position hmoved
  have hspans := spans_div position hmoved
  rw [writeAt, request_eq h hbytes hposition hsum, hm, ok_bind]
  dsimp only
  rw [hfirst, hlast, hcount]
  have hends : position / sectorSize ≤ (position + m - 1) / sectorSize :=
    Nat.div_le_div_right (by omega)
  generalize position / sectorSize = first at *
  generalize (position + m - 1) / sectorSize = last at *
  obtain ⟨count, rfl⟩ := Nat.exists_eq_add_of_le hends
  have hcount' : first + count + 1 - first = count + 1 := by omega
  rw [hcount'] at hspans ⊢
  have hlow := hspans.low
  obtain ⟨buf₁, hbuf₁, hread₁⟩ := readFirst_spec h disk heap (hlow.trans_lt hposition)
    (decide ((position : ℤ) = first * sectorSize))
  obtain ⟨buf₂, hbuf₂, hread₂⟩ := readLast_spec h disk buf₁ hends (hspans.lt hle (by omega))
    (decide ((position : ℤ) + m = (((first + count : ℕ) : ℤ) + 1) * sectorSize)) hread₁
  have hstart :
      (position : ℤ) - first * sectorSize = ((position - first * sectorSize : ℕ) : ℤ) := by
    push_cast [Nat.cast_sub hlow]
    ring
  rw [hbuf₁, ok_bind, hbuf₂, ok_bind, hstart, if_neg (by omega), Int.toNat_natCast,
    Int.toNat_natCast]
  obtain ⟨disk', hwrite, hother, hwritten⟩ := writeSectors_spec h
    (bcopy source buf₂ (position - first * sectorSize) m) disk
    (fun j _ hj => hspans.lt hle hj) hinj
  refine ⟨disk', by rw [hwrite]; rfl, fun sector hsector => ?_, fun offset hoffset => ?_⟩
  · exact hother sector fun j _ hj => hsector _ (hspans.lt hle hj)
  have hsplit := Nat.div_add_mod' offset sectorSize
  have hmod : offset % sectorSize < sectorSize := Nat.mod_lt _ (by decide)
  by_cases hin : first ≤ offset / sectorSize ∧ offset / sectorSize < first + (count + 1)
  · -- a sector that was written back
    obtain ⟨j, hj⟩ := Nat.exists_eq_add_of_le hin.1
    have hdata := hwritten j (Nat.zero_le _) (by omega)
    have hle' : (j + 1) * sectorSize ≤ (count + 1) * sectorSize :=
      Nat.mul_le_mul_right _ (by omega)
    rw [hj, Nat.add_mul] at hsplit
    rw [Nat.succ_mul] at hle'
    rw [content, hj, hdata, bytes_sectorAt _ _ hmod, buffer_spec hspans hread₂ source (by omega)
      (by omega), ← Nat.add_assoc, hsplit]
  · have hkept : disk' (sectors (offset / sectorSize)) = disk (sectors (offset / sectorSize)) := by
      refine hother _ fun j _ hj heq => hin ?_
      have hsame := hinj _ _ (hspans.lt hle hj) (by omega) heq
      omega
    have hout : ¬ (position ≤ offset ∧ offset < position + m) := by
      rintro ⟨hge, hlt⟩
      have hfirst : first ≤ offset / sectorSize :=
        (Nat.le_div_iff_mul_le (by decide)).mpr (hlow.trans hge)
      have hlast : offset / sectorSize < first + (count + 1) :=
        (Nat.div_lt_iff_lt_mul (by decide)).mpr (hlt.trans_le hspans.high)
      exact hin ⟨hfirst, hlast⟩
    rw [if_neg hout, content, content, hkept]

/-! ### Every request that stays in range -/

/-- A request with nothing to do, or one at a position in the file whose end is an `int`. -/
def InRange (file : OpenFile) (numBytes position : ℤ) : Prop :=
  numBytes ≤ 0 ∨ file.hdr.fileLength ≤ position ∨ 0 ≤ position ∧ position + numBytes ≤ intMax

/-- How many bytes it moves. -/
def transferred (length : ℕ) (numBytes position : ℤ) : ℕ :=
  (min numBytes (length - position)).toNat

theorem InRange.cases (h : file.hdr.Describes length sectors) {numBytes position : ℤ}
    (hrange : file.InRange numBytes position) :
    file.request numBytes position = .ok none ∧ transferred length numBytes position = 0 ∨
    ∃ n p : ℕ, numBytes = n ∧ position = p ∧ 0 < n ∧ p < length ∧
      ((p + n : ℕ) : ℤ) ≤ intMax ∧ transferred length numBytes position = moved length n p := by
  rw [InRange, h.fileLength] at hrange
  rw [request, h.fileLength, transferred]
  by_cases hnothing : numBytes ≤ 0 ∨ (length : ℤ) ≤ position
  · rw [if_pos hnothing]
    exact .inl ⟨rfl, by omega⟩
  · refine .inr ⟨numBytes.toNat, position.toNat, ?_⟩
    rw [moved]
    omega

/-- The bytes moved are bytes of the file. -/
theorem InRange.lt_length (h : file.hdr.Describes length sectors) {numBytes position : ℤ}
    (hrange : file.InRange numBytes position) {k : ℕ} (hle : position.toNat ≤ k)
    (hlt : k < position.toNat + transferred length numBytes position) : k < length := by
  obtain ⟨-, hzero⟩ | ⟨n, p, rfl, rfl, -, hposition, -, hmoved⟩ := hrange.cases h
  · omega
  · rw [hmoved, moved] at hlt
    omega

theorem readAt_inRange (h : file.hdr.Describes length sectors) (disk : Disk) (into : Bytes)
    {numBytes position : ℤ} (hrange : file.InRange numBytes position) :
    file.readAt disk into numBytes position =
      .ok ((transferred length numBytes position : ℕ),
        bcopy (fun k => content disk sectors (position.toNat + k)) into 0
          (transferred length numBytes position)) := by
  obtain ⟨hnone, hzero⟩ | ⟨n, p, rfl, rfl, hbytes, hposition, hsum, hmoved⟩ := hrange.cases h
  · have hinto : bcopy (fun k => content disk sectors (position.toNat + k)) into 0 0 = into := by
      funext k
      rw [bcopy, if_neg (by omega)]
    rw [readAt, hnone, ok_bind, hzero, hinto]
    rfl
  · rw [hmoved, Int.toNat_natCast]
    exact readAt_eq h disk into hbytes hposition hsum

theorem writeAt_inRange (h : file.hdr.Describes length sectors)
    (hinj : ∀ i j, i * sectorSize < length → j * sectorSize < length →
      sectors i = sectors j → i = j)
    (disk : Disk) (heap source : Bytes) {numBytes position : ℤ}
    (hrange : file.InRange numBytes position) :
    ∃ disk', file.writeAt disk heap source numBytes position =
        .ok ((transferred length numBytes position : ℕ), disk') ∧
      (∀ sector, (∀ i, i * sectorSize < length → sectors i ≠ sector) →
        disk' sector = disk sector) ∧
      ∀ offset < length, content disk' sectors offset =
        if position.toNat ≤ offset ∧ offset < position.toNat + transferred length numBytes position
          then source (offset - position.toNat) else content disk sectors offset := by
  obtain ⟨hnone, hzero⟩ | ⟨n, p, rfl, rfl, hbytes, hposition, hsum, hmoved⟩ := hrange.cases h
  · refine ⟨disk, ?_, fun _ _ => rfl, fun offset _ => ?_⟩
    · rw [writeAt, hnone, ok_bind, hzero]
      rfl
    · rw [hzero, if_neg (by omega)]
  · rw [hmoved, Int.toNat_natCast]
    exact writeAt_spec h hinj disk heap source hbytes hposition hsum

end OpenFile
end Nachos
