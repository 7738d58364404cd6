import Nachos.Model.AddrSpace
import Nachos.Verification.Machine.Translation

/-! # Memory isolation between processes

With the page table of one process installed, a store changes bytes of one frame of that
process and of no other. What another process reads through its own table does not depend
on these bytes. -/

namespace Nachos

open Tracking

/-- A store of a user program. -/
structure Store where
  addr : Word
  size : ℕ
  value : Word
  legal : Machine.LegalSize size

/-- The machine after the store. A store that raises an exception has changed nothing when
the handler is entered. -/
def Store.run (m : Machine) (store : Store) : Machine :=
  match m.writeMem store.addr store.size store.value with
  | .ok m' => m'
  | .error _ => m

/-- What `ReadMem` gives the user program: the value, or why there is none. -/
def Machine.fetch (m : Machine) (addr : Word) (size : ℕ) : Except Machine.Trap Word :=
  (m.readMem addr size).map Prod.fst

namespace AddrSpace

/-- The table was built and its physical pages exist. -/
structure InRange (s : AddrSpace) : Prop where
  built : s.pageTable.isSome
  frames : ∀ frame ∈ s.frames, 0 ≤ frame ∧ frame < numPhysPages

/-- The page table of the space is installed; its use and dirty bits may have changed. -/
structure Installed (s : AddrSpace) (m : Machine) (table : List TranslationEntry) : Prop where
  tlb : m.tlb = none
  installed : m.pageTable = some table
  frames : table.map TranslationEntry.physicalPage = s.frames

variable {s : AddrSpace} {m m' : Machine} {table : List TranslationEntry}

theorem InRange.restoreState (h : s.InRange) (htlb : m.tlb = none) :
    ∃ table, s.Installed (s.restoreState m) table := by
  obtain ⟨table, htable⟩ := Option.isSome_iff_exists.mp h.built
  refine ⟨table.take s.numPages, htlb, ?_, ?_⟩
  · simp [AddrSpace.restoreState, htable]
  · simp [AddrSpace.frames, htable]

/-- The frame that an access uses is one of the space. -/
theorem Installed.frame_mem (h : s.Installed m table) (hrange : s.InRange) {virtAddr : Word}
    {size physAddr : ℕ} {writing : Bool} {entry : TranslationEntry}
    (ht : Machine.Translated m table virtAddr size writing physAddr m' entry) :
    (Machine.toUnsigned entry.physicalPage : ℤ) ∈ s.frames := by
  have hmem : entry.physicalPage ∈ s.frames := by
    rw [← h.frames]
    exact List.mem_map_of_mem (List.mem_of_getElem? ht.lookup)
  obtain ⟨hlow, hhigh⟩ := hrange.frames _ hmem
  have hunsigned : (Machine.toUnsigned entry.physicalPage : ℤ) = entry.physicalPage := by
    unfold Machine.toUnsigned
    unfold numPhysPages at hhigh
    omega
  rwa [hunsigned]

theorem map_set_touch {i : ℕ} {entry : TranslationEntry} {writing : Bool}
    (h : table[i]? = some entry) :
    (table.set i (Machine.touch entry writing)).map TranslationEntry.physicalPage =
      table.map TranslationEntry.physicalPage := by
  obtain ⟨hi, rfl⟩ := List.getElem?_eq_some_iff.mp h
  apply List.ext_getElem
  · simp
  · intro j hj _
    simp only [List.getElem_map, List.getElem_set]
    split
    · rename_i heq
      subst heq
      rfl
    · rfl

theorem Installed.translated (h : s.Installed m table) {virtAddr : Word} {size physAddr : ℕ}
    {writing : Bool} {entry : TranslationEntry}
    (ht : Machine.Translated m table virtAddr size writing physAddr m' entry) :
    s.Installed m' (table.set (virtAddr.toNat / pageSize) (Machine.touch entry writing)) ∧
      m'.mainMemory = m.mainMemory := by
  obtain rfl := ht.machine
  exact ⟨⟨h.tlb, rfl, (map_set_touch ht.lookup).trans h.frames⟩, rfl⟩

/-! ## Stores -/

/-- The store has changed bytes of one frame of the space at most. -/
structure WritesOneFrame (s : AddrSpace) (m m' : Machine) (frame : ℕ) : Prop where
  mem : (frame : ℤ) ∈ s.frames
  others : ∀ p, p / pageSize ≠ frame → m'.mainMemory p = m.mainMemory p

/-- A store raises an exception, or changes one frame of the space. -/
theorem Installed.writeMem (h : s.Installed m table) (hrange : s.InRange) (store : Store) :
    (∃ which, m.writeMem store.addr store.size store.value = .error (.exception which)) ∨
    ∃ m' table' frame, m.writeMem store.addr store.size store.value = .ok m' ∧
      s.Installed m' table' ∧ WritesOneFrame s m m' frame := by
  unfold Machine.writeMem
  cases htrans : m.translate store.addr store.size true with
  | error trap =>
      obtain ⟨which, rfl⟩ := Machine.translate_error h.tlb h.installed store.legal htrans
      exact .inl ⟨which, rfl⟩
  | ok found =>
      obtain ⟨physAddr, m₁⟩ := found
      obtain ⟨entry, ht⟩ := (Machine.translate_eq_ok_iff h.tlb h.installed).mp htrans
      obtain ⟨hinstalled, hmemory⟩ := h.translated ht
      right
      refine ⟨{ m₁ with mainMemory := Machine.store m₁.mainMemory physAddr store.value store.size },
        _, Machine.toUnsigned entry.physicalPage, if_pos store.legal,
        ⟨hinstalled.tlb, hinstalled.installed, hinstalled.frames⟩, h.frame_mem hrange ht, ?_⟩
      intro p hp
      dsimp only
      rw [Machine.store_of_outside, hmemory]
      by_contra hin
      exact hp (ht.frame store.legal (by omega) (by omega))

theorem Installed.run (h : s.Installed m table) (hrange : s.InRange) (store : Store) :
    (∃ table', s.Installed (store.run m) table') ∧
      ∀ p : ℕ, (p / pageSize : ℤ) ∉ s.frames → (store.run m).mainMemory p = m.mainMemory p := by
  unfold Store.run
  rcases h.writeMem hrange store with ⟨which, hwrite⟩ | ⟨m', table', frame, hwrite, hm', hframe⟩
  · rw [hwrite]
    exact ⟨⟨table, h⟩, fun p _ => rfl⟩
  · rw [hwrite]
    refine ⟨⟨table', hm'⟩, ?_⟩
    intro p hp
    apply hframe.others
    rintro rfl
    exact hp hframe.mem

/-- Any number of stores leaves the bytes outside the frames of the space alone. -/
theorem Installed.runs (h : s.Installed m table) (hrange : s.InRange) (stores : List Store) :
    (stores.foldl Store.run m).tlb = none ∧
      ∀ p : ℕ, (p / pageSize : ℤ) ∉ s.frames →
        (stores.foldl Store.run m).mainMemory p = m.mainMemory p := by
  induction stores generalizing m table with
  | nil => exact ⟨h.tlb, fun p _ => rfl⟩
  | cons store stores ih =>
      obtain ⟨⟨table', hinstalled⟩, hkept⟩ := h.run hrange store
      obtain ⟨htlb, hrest⟩ := ih hinstalled
      exact ⟨htlb, fun p hp => (hrest p hp).trans (hkept p hp)⟩

/-! ## Loads -/

/-- `ReadMem` with the table installed depends on the bytes in the frames of the space. -/
theorem fetch_restoreState (hrange : s.InRange) {addr : Word} {size : ℕ}
    (hsize : Machine.LegalSize size) (htlb : m.tlb = none) (htlb' : m'.tlb = none)
    (hsame : ∀ p : ℕ, (p / pageSize : ℤ) ∈ s.frames → m'.mainMemory p = m.mainMemory p) :
    (s.restoreState m').fetch addr size = (s.restoreState m).fetch addr size := by
  obtain ⟨table, h⟩ := hrange.restoreState htlb
  have h' : s.Installed (s.restoreState m') table := ⟨htlb', h.installed, h.frames⟩
  have hmemory : (s.restoreState m').mainMemory = m'.mainMemory := rfl
  unfold Machine.fetch Machine.readMem
  cases htrans : (s.restoreState m).translate addr size false with
  | error trap =>
      have hfst : ((s.restoreState m').translate addr size false).map Prod.fst = .error trap := by
        rw [Machine.translate_fst_eq h.tlb h'.tlb h.installed h'.installed, htrans]
        rfl
      have htrans' : (s.restoreState m').translate addr size false = .error trap := by
        cases hfound : (s.restoreState m').translate addr size false with
        | error trap' =>
            rw [hfound] at hfst
            cases hfst
            rfl
        | ok found =>
            rw [hfound] at hfst
            cases hfst
      rw [htrans']
  | ok found =>
      obtain ⟨physAddr, m₁⟩ := found
      obtain ⟨entry, ht⟩ := (Machine.translate_eq_ok_iff h.tlb h.installed).mp htrans
      have ht' : Machine.Translated (s.restoreState m') table addr size false physAddr
          { s.restoreState m' with
            pageTable := some (table.set (addr.toNat / pageSize) (Machine.touch entry false)) }
          entry :=
        ⟨ht.aligned, ht.lookup, ht.valid, ht.ok, ht.address, ht.inside, rfl⟩
      have htrans' := (Machine.translate_eq_ok_iff h'.tlb h'.installed).mpr ⟨entry, ht'⟩
      have hbytes : ∀ p, physAddr ≤ p → p < physAddr + size →
          m'.mainMemory p = m.mainMemory p := by
        intro p hlow hhigh
        apply hsame
        have hframe := ht.frame hsize hlow hhigh
        have hmem := h.frame_mem hrange ht
        rw [← hframe] at hmem
        exact_mod_cast hmem
      obtain rfl := ht.machine
      rw [htrans']
      rcases hsize with rfl | rfl | rfl
      · change Except.ok ((m'.mainMemory physAddr).signExtend 32) =
          Except.ok ((m.mainMemory physAddr).signExtend 32)
        rw [hbytes physAddr le_rfl (by omega)]
      · change Except.ok (BitVec.ofNat 32 (Machine.load m'.mainMemory physAddr 2)) =
          Except.ok (BitVec.ofNat 32 (Machine.load m.mainMemory physAddr 2))
        rw [Machine.load_congr hbytes]
      · change Except.ok (BitVec.ofNat 32 (Machine.load m'.mainMemory physAddr 4)) =
          Except.ok (BitVec.ofNat 32 (Machine.load m.mainMemory physAddr 4))
        rw [Machine.load_congr hbytes]

end AddrSpace

/-! ## Two processes -/

/-- Process `a` cannot be observed by process `b` through its stores. -/
structure Isolated (a b : AddrSpace) : Prop where
  /-- with the table of `a` installed, a store raises an exception or changes one frame of `a` -/
  store : ∀ m table, a.Installed m table → ∀ store : Store,
    (∃ which, m.writeMem store.addr store.size store.value = .error (.exception which)) ∨
    ∃ m' frame, m.writeMem store.addr store.size store.value = .ok m' ∧
      a.WritesOneFrame m m' frame
  /-- what `b` reads is the same before and after any stores of `a` -/
  load : ∀ m : Machine, m.tlb = none → ∀ (stores : List Store) (addr : Word) (size : ℕ),
    Machine.LegalSize size →
    (b.restoreState (stores.foldl Store.run (a.restoreState m))).fetch addr size =
      (b.restoreState m).fetch addr size

theorem isolated_of_distinct (a b : AddrSpace) (ha : a.InRange) (hb : b.InRange)
    (hdistinct : (a.frames ++ b.frames).Nodup) : Isolated a b := by
  have hapart : ∀ frame ∈ b.frames, frame ∉ a.frames := by
    intro frame hmem hmem'
    exact (List.disjoint_of_nodup_append hdistinct) hmem' hmem
  constructor
  · intro m table hinstalled store
    rcases hinstalled.writeMem ha store with hraised | ⟨m', -, frame, hwrite, -, hframe⟩
    · exact .inl hraised
    · exact .inr ⟨m', frame, hwrite, hframe⟩
  · intro m htlb stores addr size hsize
    obtain ⟨table, hinstalled⟩ := ha.restoreState htlb
    obtain ⟨htlb', hkept⟩ := hinstalled.runs ha stores
    apply AddrSpace.fetch_restoreState hb hsize htlb htlb'
    intro p hp
    exact hkept p (hapart _ hp)

/-- Two processes of two pages each. -/
theorem isolated_two_pages :
    Isolated (.ofFrames [0, 1]) (.ofFrames [2, 3]) := by
  apply isolated_of_distinct
  · exact ⟨rfl, by decide⟩
  · exact ⟨rfl, by decide⟩
  · decide

end Nachos
