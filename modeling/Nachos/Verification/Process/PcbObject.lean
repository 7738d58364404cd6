import Mathlib.Data.List.GetD
import Nachos.Library.CStrings
import Nachos.Model.Process
import Nachos.Verification.FileSystem.Layout

/-! # What a name does to the object that holds it

`strcpy` writes the name and its NUL from `FileName` on. What does not fit falls on
`parentID`, the number that `JoinUpdate` checks. -/

namespace Nachos

open CStrings

/-- The string that a `char *` points to. -/
def PointsTo (p : Bytes) (s : List Byte) : Prop :=
  Terminated Nat.succ 0#8 (fun k => some (p k)) 0 s

/-! ## The object -/

section Object

variable {dst : Bytes} {src : List Byte} {k : ℕ}

theorem strcpy_of_lt (h : k < src.length) : strcpy dst src k = src[k] := by
  rw [strcpy, bcopy, if_pos (by omega), Nat.sub_zero, List.getD_eq_getElem _ _ h]

theorem strcpy_length (dst : Bytes) (src : List Byte) : strcpy dst src src.length = 0#8 := by
  rw [strcpy, bcopy, if_pos (by omega), Nat.sub_zero, List.getD_eq_default _ _ le_rfl]

theorem strcpy_of_gt (h : src.length < k) : strcpy dst src k = dst k := by
  rw [strcpy, bcopy, if_neg (by omega)]

theorem pointsTo_strcpy (hsrc : ∀ c ∈ src, c ≠ 0#8) : PointsTo (strcpy dst src) src := by
  refine ⟨hsrc, holds_succ_iff.mpr fun i hi => congrArg some ?_⟩
  rw [Nat.zero_add]
  rcases Nat.lt_or_ge i src.length with hlt | hge
  · rw [strcpy_of_lt hlt, List.getElem_append_left hlt]
  · have hi : i = src.length := by
      rw [List.length_append, List.length_singleton] at hi
      omega
    subst hi
    simp [strcpy_length]

namespace PCBObject

variable {pcb : Bytes} {name : List Byte}

theorem parentID_setFileName (h : name.length < fileNameSize) :
    parentID (setFileName pcb name) = parentID pcb :=
  wordAt_congr fun _ _ => strcpy_of_gt (by omega)

theorem joinStatus_setFileName (h : name.length < fileNameSize) :
    joinStatus (setFileName pcb name) = joinStatus pcb :=
  wordAt_congr fun _ _ => strcpy_of_gt (by omega)

theorem parentID_create (garbage : Bytes) (processID : Word) :
    parentID (create garbage processID) = processID := by
  refine wordAt_eq fun k hk => ?_
  rw [create, if_neg (by omega), if_pos (by omega), Nat.add_sub_cancel_left]

theorem joinStatus_create (garbage : Bytes) (processID : Word) :
    joinStatus (create garbage processID) = -1#32 := by
  refine wordAt_eq fun k hk => ?_
  rw [create, if_neg (by omega), if_neg (by omega), if_pos (by omega), Nat.add_sub_cancel_left]

end PCBObject

end Object

/-! ## The parent behind the name -/

namespace PCBObject

theorem byteOf_ofNat_succ {n : ℕ} (hn : n < 256) (k : ℕ) :
    byteOf (BitVec.ofNat 32 n) (k + 1) = 0#8 := by
  apply BitVec.eq_of_toNat_eq
  have hpow : 256 ≤ 2 ^ (8 * (k + 1)) := by
    rw [Nat.mul_succ, pow_add]
    exact Nat.le_mul_of_pos_left _ (by positivity)
  have hword : n < 2 ^ 32 := by omega
  rw [toNat_byteOf, BitVec.toNat_ofNat, Nat.mod_eq_of_lt hword,
    Nat.div_eq_of_lt (hn.trans_le hpow)]
  rfl

/-- One byte of a name of 32 or 33 characters, its NUL or its last character, falls on the
lowest byte of `parentID`. -/
theorem parentID_overwritten {garbage : Bytes} {n : ℕ} {fn : List Byte} (hn : n < 256)
    (hlow : fileNameSize ≤ fn.length) (hhigh : fn.length ≤ fileNameSize + 1) :
    parentID (setFileName (create garbage (BitVec.ofNat 32 n)) fn) =
      BitVec.ofNat 32 (fn.getD fileNameSize 0#8).toNat := by
  refine wordAt_eq fun k hk => ?_
  cases k with
  | zero =>
      have hcopied : setFileName (create garbage (BitVec.ofNat 32 n)) fn fileNameSize =
          fn.getD fileNameSize 0#8 := by
        rw [setFileName, strcpy, bcopy, if_pos (by omega), Nat.sub_zero]
      rw [add_zero, hcopied]
      apply BitVec.eq_of_toNat_eq
      rw [toNat_byteOf, BitVec.toNat_ofNat]
      have hlt := (fn.getD fileNameSize 0#8).isLt
      omega
  | succ k =>
      rw [byteOf_ofNat_succ (fn.getD fileNameSize 0#8).isLt]
      by_cases hnul : fileNameSize + (k + 1) = fn.length
      · rw [hnul]
        exact strcpy_length _ _
      · refine (strcpy_of_gt (by omega)).trans ?_
        rw [create, if_neg (by omega), if_pos (by omega), Nat.add_sub_cancel_left]
        exact byteOf_ofNat_succ hn k

end PCBObject

namespace PCB

variable {n : ℕ} {fn : List Byte}

theorem parentBehind_of_fits (h : fn.length < PCBObject.fileNameSize) :
    parentBehind n fn = n :=
  if_pos h

theorem setFileName_of_fits {p : PCB} (h : fn.length < PCBObject.fileNameSize) :
    p.setFileName fn = some { p with fileName := fn } := by
  rw [setFileName, if_pos (h.trans (by decide)), parentBehind_of_fits h]

theorem parentBehind_of_long (hn : n < 256) (hlow : PCBObject.fileNameSize ≤ fn.length)
    (hhigh : fn.length ≤ PCBObject.fileNameSize + 1) :
    parentBehind n fn = (fn.getD PCBObject.fileNameSize 0#8).toNat := by
  have hlt := (fn.getD PCBObject.fileNameSize 0#8).isLt
  rw [parentBehind, if_neg hlow.not_gt, PCBObject.parentID_overwritten hn hlow hhigh,
    BitVec.toNat_ofNat, Nat.mod_eq_of_lt (by omega)]

/-- The name fits, or the one byte of it that falls on `parentID` is the number there: the
NUL of a name of 32 characters, the last character of one of 33. -/
def KeepsParent (n : ℕ) (fn : List Byte) : Prop :=
  fn.length < PCBObject.fileNameSize ∨
    fn.length ≤ PCBObject.fileNameSize + 1 ∧ (fn.getD PCBObject.fileNameSize 0#8).toNat = n

instance instDecidableKeepsParent (n : ℕ) (fn : List Byte) : Decidable (KeepsParent n fn) :=
  inferInstanceAs (Decidable (_ ∨ _))

theorem parentBehind_of_keeps (h : KeepsParent n fn) : parentBehind n fn = n := by
  rcases Nat.lt_or_ge fn.length PCBObject.fileNameSize with hfits | hlow
  · exact parentBehind_of_fits hfits
  · obtain ⟨hhigh, hbyte⟩ := h.resolve_left hlow.not_gt
    have hn : n < 256 := hbyte ▸ (fn.getD PCBObject.fileNameSize 0#8).isLt
    exact (parentBehind_of_long hn hlow hhigh).trans hbyte

/-- A name that `SC_Exec` can copy in leaves the number of a process as it is exactly when
it keeps it so. -/
theorem parentBehind_eq_iff (hn : n < 256) (hlength : fn.length ≤ PCBObject.fileNameSize + 1) :
    parentBehind n fn = n ↔ KeepsParent n fn := by
  refine ⟨fun h => ?_, parentBehind_of_keeps⟩
  rcases Nat.lt_or_ge fn.length PCBObject.fileNameSize with hfits | hlow
  · exact .inl hfits
  · exact .inr ⟨hlength, (parentBehind_of_long hn hlow hlength).symm.trans h⟩

/-- Process 3 becomes process 0 in a PCB whose name has 32 characters. -/
example : parentBehind 3 (List.replicate 32 97#8) = 0 := by decide +kernel

end PCB

end Nachos
