import Nachos.Verification.FileSystem.Names

/-! # The directory as a map

From an empty directory on, `Add` and `Remove` keep a map whose keys are the names cut to
`FileNameMaxLen` characters. -/

namespace Nachos

/-! ### Names -/

/-- A name in memory; it ends at its first NUL. -/
def cString (name : List Byte) : Bytes :=
  fun k => name.getD k 0#8

/-- The characters of a name. -/
def text (name : List Byte) : List Byte :=
  name.takeWhile (· ≠ 0#8)

/-- The characters that the directory looks at. -/
def shortText (name : List Byte) : List Byte :=
  (text name).take fileNameMaxLen

theorem nameKey_cString (name : List Byte) (n : ℕ) :
    nameKey (cString name) n = (text name).take n := by
  induction n generalizing name with
  | zero => rfl
  | succ n ih =>
      cases name with
      | nil => rfl
      | cons c name =>
          have hfirst : cString (c :: name) 0 = c := rfl
          have hrest : (fun k => cString (c :: name) (k + 1)) = cString name := rfl
          rw [nameKey, hfirst, hrest, ih]
          by_cases hc : c = 0#8
          · simp [text, hc]
          · simp [text, hc]

/-! ### Changes -/

inductive Change
  | add (name : List Byte) (newSector : Word)
  | remove (name : List Byte)
deriving DecidableEq, Repr

def Change.name : Change → List Byte
  | .add name _ => name
  | .remove name => name

namespace Directory

variable {tableSize : ℕ}

def serve (directory : Directory tableSize) : Change → Bool × Directory tableSize
  | .add name newSector => directory.add (cString name) newSector.toInt
  | .remove name => directory.remove (cString name)

/-- The changes one after the other; each is remembered with its result. -/
def serveAll (directory : Directory tableSize) :
    List Change → List (Change × Bool) × Directory tableSize
  | [] => ([], directory)
  | change :: changes =>
      let (result, directory) := directory.serve change
      let (history, directory) := directory.serveAll changes
      ((change, result) :: history, directory)

end Directory

section Map

variable {κ : Type*} [DecidableEq κ] (key : List Byte → κ)

/-- What a change with its result makes of a map from keys to sectors. -/
def Change.apply (f : κ → Option Word) : Change × Bool → κ → Option Word
  | (.add name newSector, true) => Function.update f (key name) (some newSector)
  | (.add _ _, false) => f
  | (.remove name, _) => Function.update f (key name) none

/-- The sector of the latest successful `Add` of the key that no `Remove` has followed. -/
def latest (history : List (Change × Bool)) : κ → Option Word :=
  history.foldl (Change.apply key) fun _ => none

/-- The directory is the map `f`. -/
structure IsMap {tableSize : ℕ} (directory : Directory tableSize) (f : κ → Option Word) :
    Prop where
  find : ∀ name, directory.find (cString name) =
    match f (key name) with
    | some sector => sector.toInt
    | none => -1
  other : ∀ change name, key name ≠ key change.name →
    (directory.serve change).2.find (cString name) = directory.find (cString name)
  add : ∀ name (newSector : Word), (directory.add (cString name) newSector.toInt).1 = true ↔
    f (key name) = none ∧ ∃ i, (directory.table i).inUse = 0#8

/-- Whatever is added and removed, the directory is the map that the history says. -/
def DirectoryIsMap : Prop :=
  ∀ (tableSize : ℕ) (garbage : Fin tableSize → DirectoryEntry) (changes : List Change),
    IsMap key ((Directory.create garbage).serveAll changes).2
      (latest key ((Directory.create garbage).serveAll changes).1)

end Map

/-! ### One change -/

namespace Directory

variable {tableSize : ℕ} {directory : Directory tableSize} {f : List Byte → Option Word}
  {name : List Byte} {newSector : Word} {i j : Fin tableSize}

/-- The entries in use have different names, and `f` gives their sectors. -/
structure Refines (directory : Directory tableSize) (f : List Byte → Option Word) : Prop where
  unique : ∀ i j, (directory.table i).inUse ≠ 0#8 → (directory.table j).inUse ≠ 0#8 →
    (directory.table i).key = (directory.table j).key → i = j
  entry : ∀ k sector, f k = some sector ↔ ∃ i, (directory.table i).inUse ≠ 0#8 ∧
    (directory.table i).key = k ∧ (directory.table i).sector = sector

theorem refines_create (garbage : Fin tableSize → DirectoryEntry) :
    (create garbage).Refines fun _ => none where
  unique _ _ hi := absurd rfl hi
  entry _ _ := ⟨nofun, fun ⟨_, hi, _⟩ => absurd rfl hi⟩

/-- The entry of a name. -/
theorem findIndex_spec (h : directory.findIndex (cString name) = some i) :
    (directory.table i).inUse ≠ 0#8 ∧ (directory.table i).key = shortText name := by
  rw [shortText, ← nameKey_cString]
  exact ((directory.table i).isNamed_iff _).mp (isNamed_of_findIndex h)

namespace Refines

theorem of_findIndex (h : directory.Refines f) (hi : directory.findIndex (cString name) = some i) :
    f (shortText name) = some (directory.table i).sector := by
  obtain ⟨hinUse, hkey⟩ := findIndex_spec hi
  exact (h.entry _ _).mpr ⟨i, hinUse, hkey, rfl⟩

theorem findIndex_eq_none_iff (h : directory.Refines f) :
    directory.findIndex (cString name) = none ↔ f (shortText name) = none := by
  constructor
  · intro hnone
    by_contra hsome
    obtain ⟨sector, hsector⟩ := Option.ne_none_iff_exists'.mp hsome
    obtain ⟨i, hinUse, hkey, -⟩ := (h.entry _ _).mp hsector
    have hnamed := Directory.findIndex_eq_none_iff.mp hnone i
    rw [Bool.eq_false_iff, ne_eq, DirectoryEntry.isNamed_iff, nameKey_cString] at hnamed
    exact hnamed ⟨hinUse, hkey⟩
  · intro hnone
    cases hi : directory.findIndex (cString name) with
    | none => rfl
    | some i => rw [h.of_findIndex hi] at hnone; cases hnone

theorem find (h : directory.Refines f) (name : List Byte) :
    directory.find (cString name) =
      match f (shortText name) with
      | some sector => sector.toInt
      | none => -1 := by
  unfold Directory.find
  cases hi : directory.findIndex (cString name) with
  | none => rw [h.findIndex_eq_none_iff.mp hi]
  | some i => rw [h.of_findIndex hi]

/-- A free entry gets a name that is not there. -/
theorem set_new (h : directory.Refines f) (hfree : (directory.table i).inUse = 0#8)
    {entry : DirectoryEntry} (hinUse : entry.inUse ≠ 0#8) (hnone : f entry.key = none) :
    (directory.set i entry).Refines (Function.update f entry.key (some entry.sector)) := by
  have hother : ∀ j, (directory.table j).inUse ≠ 0#8 → j ≠ i := fun j hj heq => hj (heq ▸ hfree)
  have hkeys : ∀ j, (directory.table j).inUse ≠ 0#8 → (directory.table j).key ≠ entry.key := by
    intro j hj hkey
    rw [(h.entry _ _).mpr ⟨j, hj, hkey, rfl⟩] at hnone
    cases hnone
  constructor
  · intro j l hj hl heq
    rw [table_set] at hj hl heq
    by_cases hji : j = i
    · by_cases hli : l = i
      · rw [hji, hli]
      · rw [hji, Function.update_self, Function.update_of_ne hli] at heq
        rw [Function.update_of_ne hli] at hl
        exact absurd heq.symm (hkeys l hl)
    · rw [Function.update_of_ne hji] at hj heq
      by_cases hli : l = i
      · rw [hli, Function.update_self] at heq
        exact absurd heq (hkeys j hj)
      · rw [Function.update_of_ne hli] at hl heq
        exact h.unique j l hj hl heq
  · intro k sector
    rw [table_set]
    by_cases hk : k = entry.key
    · rw [hk, Function.update_self]
      constructor
      · intro heq
        refine ⟨i, ?_⟩
        rw [Function.update_self]
        exact ⟨hinUse, rfl, Option.some.inj heq⟩
      · rintro ⟨j, hj, hkey, hsector⟩
        by_cases hji : j = i
        · rw [hji, Function.update_self] at hsector
          rw [hsector]
        · rw [Function.update_of_ne hji] at hj hkey
          exact absurd hkey (hkeys j hj)
    · rw [Function.update_of_ne hk, h.entry]
      refine exists_congr fun j => ?_
      by_cases hji : j = i
      · rw [hji, Function.update_self]
        exact iff_of_false (fun hin => hin.1 hfree) fun hin => hk hin.2.1.symm
      · rw [Function.update_of_ne hji]

/-- An entry is freed. -/
theorem set_free (h : directory.Refines f) (hinUse : (directory.table i).inUse ≠ 0#8)
    {entry : DirectoryEntry} (hfree : entry.inUse = 0#8) :
    (directory.set i entry).Refines (Function.update f (directory.table i).key none) := by
  have hother : ∀ j, ((directory.set i entry).table j).inUse ≠ 0#8 →
      j ≠ i ∧ (directory.set i entry).table j = directory.table j := by
    intro j hj
    rw [table_set] at hj ⊢
    by_cases hji : j = i
    · rw [hji, Function.update_self] at hj
      exact absurd hfree hj
    · exact ⟨hji, Function.update_of_ne hji _ _⟩
  constructor
  · intro j l hj hl heq
    have hsame := (hother j hj).2
    have hsame' := (hother l hl).2
    rw [hsame] at hj heq
    rw [hsame'] at hl heq
    exact h.unique j l hj hl heq
  · intro k sector
    by_cases hk : k = (directory.table i).key
    · rw [hk, Function.update_self]
      refine iff_of_false nofun ?_
      rintro ⟨j, hj, hkey, -⟩
      obtain ⟨hji, hsame⟩ := hother j hj
      rw [hsame] at hj hkey
      exact hji (h.unique j i hj hinUse hkey)
    · rw [Function.update_of_ne hk, h.entry]
      refine exists_congr fun j => ?_
      by_cases hji : j = i
      · rw [hji, table_set, Function.update_self]
        exact iff_of_false (fun hin => hk hin.2.1.symm) fun hin => hin.1 hfree
      · rw [table_set, Function.update_of_ne hji]

theorem add (h : directory.Refines f) (name : List Byte) (newSector : Word) :
    ((directory.add (cString name) newSector.toInt).1 = true ↔
        f (shortText name) = none ∧ ∃ i, (directory.table i).inUse = 0#8) ∧
      (directory.add (cString name) newSector.toInt).2.Refines
        (Change.apply shortText f
          (.add name newSector, (directory.add (cString name) newSector.toInt).1)) := by
  cases hi : directory.findIndex (cString name) with
  | some i =>
      have hadd : directory.add (cString name) newSector.toInt = (false, directory) := by
        rw [Directory.add, hi]
      rw [hadd, h.of_findIndex hi]
      exact ⟨iff_of_false nofun nofun, h⟩
  | none =>
      have hnone := h.findIndex_eq_none_iff.mp hi
      cases hfree : directory.freeIndex with
      | none =>
          have hadd : directory.add (cString name) newSector.toInt = (false, directory) := by
            rw [Directory.add, hi, hfree]
          rw [hadd]
          refine ⟨iff_of_false nofun ?_, h⟩
          rintro ⟨-, i, hinUse⟩
          exact freeIndex_eq_none_iff.mp hfree i hinUse
      | some i =>
          have hinUse := inUse_of_freeIndex hfree
          let entry := newEntry (directory.table i) (cString name) newSector.toInt
          have hadd : directory.add (cString name) newSector.toInt =
              (true, directory.set i entry) := by rw [Directory.add, hi, hfree]
          have hkey : entry.key = shortText name := by
            rw [DirectoryEntry.key_newEntry, nameKey_cString, shortText]
          have hsector : entry.sector = newSector := BitVec.ofInt_toInt
          have hused : entry.inUse ≠ 0#8 := nofun
          have hset := h.set_new hinUse hused (hkey ▸ hnone)
          rw [hkey, hsector] at hset
          rw [hadd]
          exact ⟨iff_of_true rfl ⟨hnone, i, hinUse⟩, hset⟩

theorem remove (h : directory.Refines f) (name : List Byte) :
    (directory.remove (cString name)).2.Refines
      (Change.apply shortText f (.remove name, (directory.remove (cString name)).1)) := by
  cases hi : directory.findIndex (cString name) with
  | none =>
      have hremove : directory.remove (cString name) = (false, directory) := by
        rw [Directory.remove, hi]
      have hsame : Function.update f (shortText name) none = f := by
        rw [← h.findIndex_eq_none_iff.mp hi, Function.update_eq_self]
      rw [hremove, Change.apply, hsame]
      exact h
  | some i =>
      obtain ⟨hinUse, hkey⟩ := findIndex_spec hi
      let entry : DirectoryEntry := { directory.table i with inUse := 0#8 }
      have hfree : entry.inUse = 0#8 := rfl
      have hremove : directory.remove (cString name) = (true, directory.set i entry) := by
        rw [Directory.remove, hi]
      have hset := h.set_free hinUse hfree
      rw [hkey] at hset
      rw [hremove]
      exact hset

theorem serve (h : directory.Refines f) (change : Change) :
    (directory.serve change).2.Refines
      (Change.apply shortText f (change, (directory.serve change).1)) := by
  cases change with
  | add name newSector => exact (h.add name newSector).2
  | remove name => exact h.remove name

theorem serveAll (h : directory.Refines f) (changes : List Change) :
    (directory.serveAll changes).2.Refines
      ((directory.serveAll changes).1.foldl (Change.apply shortText) f) := by
  induction changes generalizing directory f with
  | nil => exact h
  | cons change changes ih => exact ih (h.serve change)

theorem isMap (h : directory.Refines f) : IsMap shortText directory f where
  find := h.find
  add name newSector := (h.add name newSector).1
  other change name hne := by
    have hkept : ∀ result, Change.apply shortText f (change, result) (shortText name) =
        f (shortText name) := by
      intro result
      cases change with
      | add name' newSector =>
          cases result with
          | false => rfl
          | true => exact Function.update_of_ne hne _ _
      | remove name' => exact Function.update_of_ne hne _ _
    rw [(h.serve change).find, h.find, hkept]

end Refines

end Directory

/-! ### The whole history -/

theorem directoryIsMap_shortText : DirectoryIsMap shortText :=
  fun _ garbage changes => ((Directory.refines_create garbage).serveAll changes).isMap

/-- A directory of ten entries after one `Add`. -/
def oneName : List (Change × Bool) × Directory 10 :=
  (Directory.create fun _ => ⟨0#8, 0#32, fun _ => 0#8, fun _ => 0#8⟩).serveAll
    [.add (chars "abcdefghi1") 5#32]

/-- `Find` of a name that was never added gives the sector of another name. -/
theorem long_names_collide : ¬ DirectoryIsMap text := by
  intro hmap
  have hone : IsMap text oneName.2 (latest text oneName.1) := hmap 10 _ _
  have hfind := hone.find (chars "abcdefghi2")
  have hfive : oneName.2.find (cString (chars "abcdefghi2")) = 5 := by decide +kernel
  have hnone : latest text oneName.1 (text (chars "abcdefghi2")) = none := by decide +kernel
  rw [hfive, hnone] at hfind
  cases hfind

end Nachos
