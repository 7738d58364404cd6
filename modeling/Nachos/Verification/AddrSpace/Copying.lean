import Nachos.Library.Tracking
import Nachos.Verification.AddrSpace.Allocation

/-! # The copy loops of `AddrSpace(char*)`

For every page of the process the loop reads a whole page of the file, and puts it as far
behind the start of a frame as the segment is behind virtual address 0. -/

namespace Nachos

namespace Segment

/-- The read for page `i` in the given frame succeeds: it does not seek to a negative
position, and no byte that it brings is put outside main memory. -/
structure PageFits (s : Segment) (length i frame : ℕ) : Prop where
  position : s.inFileAddr.toNat + i * pageSize < 2 ^ 31
  inside : ∀ o < pageSize, s.inFileAddr.toNat + i * pageSize + o < length →
    s.virtualAddr.toNat + frame * pageSize + o < memorySize

/-- The loop, from page `i` on, copies byte `q` of the file to the physical address `p`. -/
def CopiesFrom (s : Segment) (length i : ℕ) (frames : List ℕ) (p q : ℕ) : Prop :=
  ∃ j frame o, frames[j]? = some frame ∧ o < pageSize ∧ q < length ∧
    q = s.inFileAddr.toNat + (i + j) * pageSize + o ∧
    p = s.virtualAddr.toNat + frame * pageSize + o

/-- What the loop does to memory. -/
structure CopySpec (s : Segment) (file : List Byte) (i : ℕ) (frames : List ℕ)
    (memory memory' : ℕ → Byte) : Prop where
  copied : ∀ p q, s.CopiesFrom file.length i frames p q → memory' p = file.getD q 0#8
  kept : ∀ p, (∀ q, ¬ s.CopiesFrom file.length i frames p q) → memory' p = memory p

variable {s : Segment} {file : List Byte} {length i frame : ℕ} {frames : List ℕ}
  {memory memory' : ℕ → Byte}

theorem toNat_lt {x : Word} (h : 0 ≤ x.toInt) : x.toNat < 2 ^ 31 := by
  rw [BitVec.toInt_eq_toNat_cond] at h
  split at h <;> omega

theorem toInt_eq_toNat {x : Word} (h : 0 ≤ x.toInt) : x.toInt = x.toNat := by
  have hlt := toNat_lt h
  rw [BitVec.toInt_eq_toNat_cond, if_pos (by omega)]

theorem page_lt (hi : i < numPhysPages) : i * pageSize < 2 ^ 16 := by
  unfold numPhysPages at hi
  unfold pageSize
  omega

/-- The seek position in terms of the file address. -/
theorem position_eq (hfile : 0 ≤ s.inFileAddr.toInt) (hi : i < numPhysPages) :
    (s.inFileAddr + BitVec.ofNat 32 (i * pageSize)).toInt =
      if s.inFileAddr.toNat + i * pageSize < 2 ^ 31 then
        ((s.inFileAddr.toNat + i * pageSize : ℕ) : ℤ)
      else (s.inFileAddr.toNat + i * pageSize : ℕ) - 2 ^ 32 := by
  have hlt := toNat_lt hfile
  have hsmall := page_lt hi
  rw [BitVec.toInt_eq_toNat_cond, BitVec.toNat_add, BitVec.toNat_ofNat,
    Nat.mod_eq_of_lt (by omega : i * pageSize < 2 ^ 32), Nat.mod_eq_of_lt (by omega)]
  split <;> split <;> omega

/-- Memory after one read. -/
def paste (s : Segment) (file : List Byte) (i frame : ℕ) (memory : ℕ → Byte) : ℕ → Byte :=
  fun p =>
    let dest := s.virtualAddr.toNat + frame * pageSize
    let position := s.inFileAddr.toNat + i * pageSize
    if dest ≤ p ∧ p < dest + pageSize ∧ position + (p - dest) < file.length then
      file.getD (position + (p - dest)) 0#8
    else memory p

theorem paste_of_end (h : file.length ≤ s.inFileAddr.toNat + i * pageSize) :
    s.paste file i frame memory = memory := by
  funext p
  unfold paste
  rw [if_neg]
  omega

theorem paste_eq (dest : ℕ) (hdest : dest = s.virtualAddr.toNat + frame * pageSize)
    (bytes : List Byte)
    (hbytes : bytes = (file.drop (s.inFileAddr.toNat + i * pageSize)).take pageSize) :
    s.paste file i frame memory = fun p =>
      if dest ≤ p ∧ p < dest + bytes.length then bytes.getD (p - dest) 0#8 else memory p := by
  subst hdest hbytes
  funext p
  have hlength : ((file.drop (s.inFileAddr.toNat + i * pageSize)).take pageSize).length =
      min pageSize (file.length - (s.inFileAddr.toNat + i * pageSize)) := by simp
  unfold paste
  rw [hlength]
  split
  · rename_i hin
    rw [if_pos (by omega), List.getD_eq_getElem?_getD, List.getD_eq_getElem?_getD,
      List.getElem?_take_of_lt (by omega), List.getElem?_drop]
  · rw [if_neg (by omega)]

/-- One read either fails or puts its bytes into place. -/
theorem copyPage_eq_ok_iff (hvirtual : 0 ≤ s.virtualAddr.toInt) (hfile : 0 ≤ s.inFileAddr.toInt)
    (hi : i < numPhysPages) :
    copyPage file s i frame memory = .ok memory' ↔
      s.PageFits file.length i frame ∧ memory' = s.paste file i frame memory := by
  have hdest : s.virtualAddr.toInt + (frame : ℤ) * pageSize =
      ((s.virtualAddr.toNat + frame * pageSize : ℕ) : ℤ) := by
    rw [toInt_eq_toNat hvirtual]
    push_cast
    rfl
  have hlt := toNat_lt hfile
  have hsmall := page_lt hi
  have hpage : 0 < pageSize := by decide
  unfold copyPage
  rw [position_eq hfile hi, hdest]
  dsimp only
  by_cases hposition : s.inFileAddr.toNat + i * pageSize < 2 ^ 31
  · rw [if_pos hposition, if_neg (by omega), Int.toNat_natCast, Int.toNat_natCast]
    generalize hbytes : (file.drop (s.inFileAddr.toNat + i * pageSize)).take pageSize = bytes
    have hlength : bytes.length =
        min pageSize (file.length - (s.inFileAddr.toNat + i * pageSize)) := by
      rw [← hbytes]
      simp
    have hfits : s.PageFits file.length i frame ↔ bytes.length = 0 ∨
        s.virtualAddr.toNat + frame * pageSize + bytes.length ≤ memorySize := by
      constructor
      · intro hfits
        by_contra hout
        have hlast := hfits.inside (bytes.length - 1) (by omega) (by omega)
        omega
      · intro hin
        exact ⟨hposition, fun o ho hend => by omega⟩
    by_cases hnil : bytes = []
    · have hzero : bytes.length = 0 := List.length_eq_zero_iff.mpr hnil
      rw [if_pos hnil, paste_of_end (by omega), hfits]
      simp only [Except.ok.injEq, hzero, true_or, true_and, eq_comm]
    · have hne : bytes.length ≠ 0 := mt List.length_eq_zero_iff.mp hnil
      rw [if_neg hnil, hfits, or_iff_right hne, paste_eq _ rfl bytes hbytes.symm]
      split
      · rename_i hin
        simp only [Except.ok.injEq, eq_comm, and_iff_right (by omega :
          s.virtualAddr.toNat + frame * pageSize + bytes.length ≤ memorySize)]
      · rename_i hout
        constructor
        · nofun
        · rintro ⟨hin, -⟩
          omega
  · rw [if_neg hposition, if_pos (by omega)]
    constructor
    · nofun
    · rintro ⟨hfits, -⟩
      exact absurd hfits.position hposition

theorem copiesFrom_cons {p q : ℕ} :
    s.CopiesFrom length i (frame :: frames) p q ↔
      (∃ o < pageSize, q < length ∧ q = s.inFileAddr.toNat + i * pageSize + o ∧
        p = s.virtualAddr.toNat + frame * pageSize + o) ∨
      s.CopiesFrom length (i + 1) frames p q := by
  constructor
  · rintro ⟨j, frame', o, hj, ho, hq, hposition, hdest⟩
    cases j with
    | zero =>
        cases hj
        exact .inl ⟨o, ho, hq, hposition, hdest⟩
    | succ j =>
        refine .inr ⟨j, frame', o, hj, ho, hq, ?_, hdest⟩
        rw [hposition, Nat.add_assoc i 1 j, Nat.add_comm 1 j]
  · rintro (⟨o, ho, hq, hposition, hdest⟩ | ⟨j, frame', o, hj, ho, hq, hposition, hdest⟩)
    · exact ⟨0, frame, o, rfl, ho, hq, hposition, hdest⟩
    · refine ⟨j + 1, frame', o, hj, ho, hq, ?_, hdest⟩
      rw [hposition, Nat.add_assoc i 1 j, Nat.add_comm 1 j]

theorem paste_copied {o : ℕ} (ho : o < pageSize)
    (hend : s.inFileAddr.toNat + i * pageSize + o < file.length) :
    s.paste file i frame memory (s.virtualAddr.toNat + frame * pageSize + o) =
      file.getD (s.inFileAddr.toNat + i * pageSize + o) 0#8 := by
  unfold paste
  dsimp only
  rw [if_pos (by omega), Nat.add_sub_cancel_left]

theorem paste_kept {p : ℕ}
    (h : ∀ o < pageSize, s.inFileAddr.toNat + i * pageSize + o < file.length →
      p ≠ s.virtualAddr.toNat + frame * pageSize + o) :
    s.paste file i frame memory p = memory p := by
  unfold paste
  dsimp only
  rw [if_neg]
  rintro ⟨hlow, hhigh, hend⟩
  exact h (p - (s.virtualAddr.toNat + frame * pageSize)) (by omega) hend (by omega)

/-- Frames in increasing order are filled one behind the other. -/
theorem CopySpec.cons (hincreasing : (frame :: frames).Pairwise (· < ·))
    (h : s.CopySpec file (i + 1) frames (s.paste file i frame memory) memory') :
    s.CopySpec file i (frame :: frames) memory memory' := by
  have hbehind := (List.pairwise_cons.mp hincreasing).1
  constructor
  · intro p q hcopies
    rcases copiesFrom_cons.mp hcopies with ⟨o, ho, hq, rfl, rfl⟩ | hrest
    · rw [h.kept, paste_copied ho hq]
      rintro q ⟨j, frame', o', hj, ho', -, -, hdest⟩
      have hlt : frame < frame' := hbehind frame' (List.mem_of_getElem? hj)
      have hpages : (frame + 1) * pageSize ≤ frame' * pageSize := Nat.mul_le_mul_right _ hlt
      rw [Nat.add_mul, Nat.one_mul] at hpages
      omega
    · exact h.copied p q hrest
  · intro p hnone
    rw [h.kept p fun q hq => hnone q (copiesFrom_cons.mpr (.inr hq)), paste_kept]
    rintro o ho hend rfl
    exact hnone _ (copiesFrom_cons.mpr (.inl ⟨o, ho, hend, rfl, rfl⟩))

/-- A loop that runs to its end copies every page. -/
theorem copyPages_spec (hvirtual : 0 ≤ s.virtualAddr.toInt) (hfile : 0 ≤ s.inFileAddr.toInt)
    (hincreasing : frames.Pairwise (· < ·)) (hpages : i + frames.length ≤ numPhysPages)
    (h : copyPages file s i (frames.map fun frame : ℕ => (frame : ℤ)) memory = .ok memory') :
    s.CopySpec file i frames memory memory' := by
  induction frames generalizing i memory with
  | nil =>
      cases h
      refine ⟨?_, fun p _ => rfl⟩
      rintro p q ⟨j, frame, o, hj, -⟩
      cases hj
  | cons frame frames ih =>
      rw [List.length_cons] at hpages
      obtain ⟨memory₁, hpage, hrest⟩ := Tracking.except_bind_eq_ok.mp h
      obtain ⟨-, rfl⟩ := (copyPage_eq_ok_iff hvirtual hfile (by omega)).mp hpage
      exact .cons hincreasing (ih (List.pairwise_cons.mp hincreasing).2 (by omega) hrest)

/-- The loop runs to its end exactly when every read succeeds. -/
theorem copyPages_ok_iff (hvirtual : 0 ≤ s.virtualAddr.toInt) (hfile : 0 ≤ s.inFileAddr.toInt)
    (hpages : i + frames.length ≤ numPhysPages) :
    (∃ memory', copyPages file s i (frames.map fun frame : ℕ => (frame : ℤ)) memory = .ok memory') ↔
      ∀ j frame, frames[j]? = some frame → s.PageFits file.length (i + j) frame := by
  induction frames generalizing i memory with
  | nil =>
      refine iff_of_true ⟨memory, rfl⟩ ?_
      intro j frame hj
      cases hj
  | cons frame frames ih =>
      rw [List.length_cons] at hpages
      have hpage : ∀ memory₁, copyPage file s i frame memory = .ok memory₁ ↔
          s.PageFits file.length i frame ∧ memory₁ = s.paste file i frame memory := fun _ =>
        copyPage_eq_ok_iff hvirtual hfile (by omega)
      have hrest : (∃ memory', copyPages file s (i + 1) (frames.map fun frame : ℕ => (frame : ℤ))
          (s.paste file i frame memory) = .ok memory') ↔ ∀ j frame', frames[j]? = some frame' →
          s.PageFits file.length (i + 1 + j) frame' := ih (by omega)
      constructor
      · rintro ⟨memory', h⟩ j frame' hj
        obtain ⟨memory₁, hfirst, hothers⟩ := Tracking.except_bind_eq_ok.mp h
        obtain ⟨hfits, rfl⟩ := (hpage memory₁).mp hfirst
        cases j with
        | zero =>
            cases hj
            exact hfits
        | succ j =>
            have hnext := hrest.mp ⟨memory', hothers⟩ j frame' hj
            rwa [Nat.add_assoc, Nat.add_comm 1 j] at hnext
      · intro hfits
        have hothers : ∀ j frame', frames[j]? = some frame' →
            s.PageFits file.length (i + 1 + j) frame' := by
          intro j frame' hj
          rw [Nat.add_assoc, Nat.add_comm 1 j]
          exact hfits (j + 1) frame' hj
        obtain ⟨memory', h⟩ := hrest.mpr hothers
        have hfirst := (hpage _).mpr ⟨hfits 0 frame rfl, rfl⟩
        exact ⟨memory', Tracking.except_bind_eq_ok.mpr ⟨_, hfirst, h⟩⟩

/-! ## One segment -/

/-- The addresses of a segment that is copied are not negative. -/
def Starts (s : Segment) : Prop :=
  0 < s.size.toInt → 0 ≤ s.virtualAddr.toInt ∧ 0 ≤ s.inFileAddr.toInt

/-- Every read for the segment succeeds. -/
def Fits (s : Segment) (length : ℕ) (frames : List ℕ) : Prop :=
  0 < s.size.toInt → ∀ j frame, frames[j]? = some frame → s.PageFits length j frame

/-- The segment is copied, and byte `q` of the file gets to the physical address `p`. -/
def Copies (s : Segment) (length : ℕ) (frames : List ℕ) (p q : ℕ) : Prop :=
  0 < s.size.toInt ∧ s.CopiesFrom length 0 frames p q

theorem copySegment_ok_iff (hs : s.Starts) (hpages : frames.length ≤ numPhysPages) :
    (∃ memory', copySegment file s (frames.map fun frame : ℕ => (frame : ℤ)) memory =
      .ok memory') ↔ s.Fits file.length frames := by
  unfold copySegment Fits
  by_cases hsize : 0 < s.size.toInt
  · obtain ⟨hvirtual, hfile⟩ := hs hsize
    simp only [hsize, true_implies]
    simpa using copyPages_ok_iff hvirtual hfile (i := 0) (by simpa using hpages)
  · exact iff_of_true ⟨memory, if_neg hsize⟩ fun h => absurd h hsize

theorem copySegment_spec (hs : s.Starts) (hincreasing : frames.Pairwise (· < ·))
    (hpages : frames.length ≤ numPhysPages)
    (h : copySegment file s (frames.map fun frame : ℕ => (frame : ℤ)) memory = .ok memory') :
    (∀ p q, s.Copies file.length frames p q → memory' p = file.getD q 0#8) ∧
      ∀ p, (∀ q, ¬ s.Copies file.length frames p q) → memory' p = memory p := by
  unfold copySegment at h
  by_cases hsize : 0 < s.size.toInt
  · obtain ⟨hvirtual, hfile⟩ := hs hsize
    rw [if_pos hsize] at h
    have hspec := copyPages_spec hvirtual hfile hincreasing (by simpa using hpages) h
    exact ⟨fun p q hq => hspec.copied p q hq.2,
      fun p hp => hspec.kept p fun q hq => hp q ⟨hsize, hq⟩⟩
  · rw [if_neg hsize] at h
    cases h
    exact ⟨fun p q hq => absurd hq.1 hsize, fun p _ => rfl⟩

end Segment

end Nachos
