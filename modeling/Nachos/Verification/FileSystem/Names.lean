import Nachos.Verification.FileSystem.Layout

/-! # Names in the directory

Two names are the same to `strncmp` when they agree up to their end or up to
`FileNameMaxLen` characters, whichever comes first. -/

namespace Nachos

/-! ### Comparison -/

/-- The characters of a name that `strncmp(_, _, n)` looks at. -/
def nameKey : Bytes → ℕ → List Byte
  | _, 0 => []
  | a, n + 1 => if a 0 = 0#8 then [] else a 0 :: nameKey (fun k => a (k + 1)) n

theorem strncmp_iff (a b : Bytes) (n : ℕ) : strncmp a b n = true ↔ nameKey a n = nameKey b n := by
  induction n generalizing a b with
  | zero => simp [strncmp, nameKey]
  | succ n ih =>
      rw [strncmp, nameKey, nameKey]
      by_cases hne : a 0 = b 0
      · by_cases hzero : b 0 = 0#8
        · simp [hne, hzero]
        · simp [hne, hzero, ih]
      · have hkeys : ¬ (if a 0 = 0#8 then [] else a 0 :: nameKey (fun k => a (k + 1)) n) =
            if b 0 = 0#8 then [] else b 0 :: nameKey (fun k => b (k + 1)) n := by
          split
          · rename_i hzero
            rw [if_neg fun hb => hne (hzero.trans hb.symm)]
            exact (List.cons_ne_nil _ _).symm
          · split
            · exact List.cons_ne_nil _ _
            · exact fun h => hne (List.cons.inj h).1
        simp [hne, hkeys]

theorem nameKey_congr {a b : Bytes} {n : ℕ} (h : ∀ k < n, a k = b k) :
    nameKey a n = nameKey b n := by
  induction n generalizing a b with
  | zero => rfl
  | succ n ih =>
      rw [nameKey, nameKey, h 0 (Nat.succ_pos n), ih fun k hk => h (k + 1) (Nat.succ_lt_succ hk)]

theorem nameKey_strncpy (dst src : Bytes) (n : ℕ) :
    nameKey (strncpy dst src n) n = nameKey src n := by
  induction n generalizing dst src with
  | zero => rfl
  | succ n ih =>
      rw [nameKey, nameKey]
      by_cases hzero : src 0 = 0#8
      · simp [strncpy, hzero]
      · simp only [strncpy, hzero, if_false, ih]

/-! ### Entries -/

namespace DirectoryEntry

/-- The name of an entry, as it is compared. -/
def key (entry : DirectoryEntry) : List Byte :=
  nameKey entry.nameBytes fileNameMaxLen

theorem isNamed_iff (entry : DirectoryEntry) (name : Bytes) :
    entry.isNamed name = true ↔
      entry.inUse ≠ 0#8 ∧ entry.key = nameKey name fileNameMaxLen := by
  rw [isNamed, Bool.and_eq_true, strncmp_iff, decide_eq_true_iff, key]

theorem key_newEntry (entry : DirectoryEntry) (name : Bytes) (newSector : ℤ) :
    (Directory.newEntry entry name newSector).key = nameKey name fileNameMaxLen := by
  rw [key, ← nameKey_strncpy entry.nameBytes name]
  refine nameKey_congr fun k hk => ?_
  exact dif_pos (Nat.lt_succ_of_lt hk)

end DirectoryEntry

namespace Directory

variable {tableSize : ℕ} {directory : Directory tableSize} {name : Bytes} {i : Fin tableSize}

theorem isNamed_of_findIndex (h : directory.findIndex name = some i) :
    (directory.table i).isNamed name = true := by
  rw [findIndex] at h
  simpa using List.find?_some h

theorem findIndex_eq_none_iff :
    directory.findIndex name = none ↔ ∀ i, (directory.table i).isNamed name = false := by
  rw [findIndex, List.find?_eq_none]
  simp

theorem inUse_of_freeIndex (h : directory.freeIndex = some i) :
    (directory.table i).inUse = 0#8 := by
  simpa using List.find?_some h

theorem freeIndex_eq_none_iff :
    directory.freeIndex = none ↔ ∀ i, (directory.table i).inUse ≠ 0#8 := by
  rw [freeIndex, List.find?_eq_none]
  simp

@[simp] theorem table_set (directory : Directory tableSize) (i : Fin tableSize)
    (entry : DirectoryEntry) :
    (directory.set i entry).table = Function.update directory.table i entry := rfl

end Directory
end Nachos
