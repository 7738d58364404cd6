import Nachos.Verification.AddrSpace.OutOfMemory
import Nachos.Verification.BitMap.Semantics

/-! # The size of an address space

The constructors add up the sizes of the segments in 32 bits and do not look at the addresses
of the segments. -/

namespace Nachos

namespace NoffHeader

variable (noffH : NoffHeader)

def segments : List Segment :=
  [noffH.code, noffH.initData, noffH.uninitData]

/-- The sizes of the segments as integers, added up. -/
def segmentBytes : ℤ :=
  noffH.code.size.toInt + noffH.initData.size.toInt + noffH.uninitData.size.toInt

/-- The bytes of the segments and the stack, before the sum is cut to 32 bits. -/
def wanted : ℤ :=
  noffH.segmentBytes + userStackSize.toInt

/-- What is left of the last page. -/
def slack : ℤ :=
  -noffH.wanted % pageSize

/-- The end of the highest segment that has bytes. -/
def highestEnd : ℤ :=
  (noffH.segments.filter fun s => 0 < s.size.toInt).foldr
    (fun s top => max (s.virtualAddr.toInt + s.size.toInt) top) 0

/-- The segments lie in `numPages` pages, and the stack has room behind the highest one. -/
structure SizedSoundly (numPages : ℕ) : Prop where
  size : ∀ s ∈ noffH.segments, 0 ≤ s.size.toInt
  inside : ∀ s ∈ noffH.segments, 0 < s.size.toInt →
    0 ≤ s.virtualAddr.toInt ∧
      s.virtualAddr.toInt + s.size.toInt ≤ (numPages * pageSize : ℕ)
  stack : noffH.highestEnd + userStackSize.toInt ≤ (numPages * pageSize : ℕ)

/-- No segment is farther up than the sizes of all three account for. -/
structure Dense : Prop where
  size : ∀ s ∈ noffH.segments, 0 ≤ s.size.toInt
  small : noffH.wanted ≤ memorySize
  start : ∀ s ∈ noffH.segments, 0 < s.size.toInt →
    0 ≤ s.virtualAddr.toInt ∧
      s.virtualAddr.toInt + s.size.toInt ≤ noffH.segmentBytes + noffH.slack

/-- The sum wraps to more than there is memory, or the header is dense. -/
def SizesOK : Prop :=
  (memorySize : ℤ) < noffH.wanted % 2 ^ 32 ∨ noffH.Dense

variable {noffH}

/-! ### The sum in 32 bits -/

theorem size_eq (noffH : NoffHeader) : (noffH.size.toNat : ℤ) = noffH.wanted % 2 ^ 32 := by
  have hcode := BitVec.toInt_eq_toNat_cond noffH.code.size
  have hdata := BitVec.toInt_eq_toNat_cond noffH.initData.size
  have hrest := BitVec.toInt_eq_toNat_cond noffH.uninitData.size
  have hstack : userStackSize.toInt = 1024 := by decide
  have hstack' : userStackSize.toNat = 1024 := by decide
  simp only [size, wanted, segmentBytes, BitVec.toNat_add, hstack, hstack']
  omega

theorem numPages_mul (noffH : NoffHeader) :
    ((noffH.numPages * pageSize : ℕ) : ℤ) = noffH.wanted % 2 ^ 32 + noffH.slack := by
  have hsize := size_eq noffH
  unfold numPages slack divRoundUp pageSize
  split <;> omega

theorem numPages_pos_iff (noffH : NoffHeader) :
    0 < noffH.numPages ↔ noffH.wanted % 2 ^ 32 ≠ 0 := by
  have hsize := size_eq noffH
  unfold numPages divRoundUp pageSize
  split <;> omega

theorem numPages_le_iff (noffH : NoffHeader) :
    noffH.numPages ≤ numPhysPages ↔ noffH.wanted % 2 ^ 32 ≤ memorySize := by
  have hsize := size_eq noffH
  unfold numPages divRoundUp memorySize numPhysPages pageSize
  split <;> omega

theorem Dense.wanted_eq (h : noffH.Dense) : noffH.wanted % 2 ^ 32 = noffH.wanted := by
  have hmemory : (memorySize : ℤ) = 65536 := by decide
  have hstack : userStackSize.toInt = 1024 := by decide
  have hsize := h.size
  have hsmall := h.small
  simp only [segments, List.forall_mem_cons] at hsize
  unfold wanted segmentBytes at hsmall ⊢
  exact Int.emod_eq_of_lt (by omega) (by omega)

/-- Such a header asks for bytes. -/
theorem SizesOK.wanted_ne_zero (h : noffH.SizesOK) : noffH.wanted % 2 ^ 32 ≠ 0 := by
  rcases h with hmuch | hdense
  · have hmemory : (memorySize : ℤ) = 65536 := by decide
    omega
  · have hstack : userStackSize.toInt = 1024 := by decide
    have hsize := hdense.size
    simp only [segments, List.forall_mem_cons] at hsize
    rw [hdense.wanted_eq, wanted, segmentBytes]
    omega

/-! ### Segments in the pages -/

theorem foldr_max_le_iff {α : Type*} (f : α → ℤ) (l : List α) (bound : ℤ) :
    l.foldr (fun x top => max (f x) top) 0 ≤ bound ↔ 0 ≤ bound ∧ ∀ x ∈ l, f x ≤ bound := by
  induction l with
  | nil => simp
  | cons x l ih =>
      rw [List.foldr_cons, max_le_iff, ih, List.forall_mem_cons]
      tauto

theorem highestEnd_le_iff (bound : ℤ) :
    noffH.highestEnd ≤ bound ↔ 0 ≤ bound ∧ ∀ s ∈ noffH.segments, 0 < s.size.toInt →
      s.virtualAddr.toInt + s.size.toInt ≤ bound := by
  simp [highestEnd, foldr_max_le_iff]

theorem segmentBytes_eq (noffH : NoffHeader) :
    noffH.segmentBytes = (noffH.segments.map fun s => s.size.toInt).sum := by
  simp [segmentBytes, segments, add_assoc]

/-- A header that asks for no more pages than there are. -/
theorem sizedSoundly_iff_dense (hsmall : noffH.wanted % 2 ^ 32 ≤ memorySize) :
    noffH.SizedSoundly noffH.numPages ↔ noffH.Dense := by
  have hstack : userStackSize.toInt = 1024 := by decide
  have hmemory : (memorySize : ℤ) = 65536 := by decide
  have hslack : 0 ≤ noffH.slack := Int.emod_nonneg _ (by decide)
  have hwanted : noffH.wanted = noffH.segmentBytes + 1024 := by rw [wanted, hstack]
  have hpages := numPages_mul noffH
  constructor
  · rintro ⟨hsize, hinside, hend⟩
    -- each segment is smaller than the memory, so the sum has not wrapped
    have hless : ∀ s ∈ noffH.segments, s.size.toInt < 2 ^ 17 := by
      intro s hs
      have hrest : noffH.slack < 512 := Int.emod_lt_of_pos _ (by decide)
      have hinside := hinside s hs
      omega
    have hexact : noffH.wanted % 2 ^ 32 = noffH.wanted := by
      simp only [segments, List.forall_mem_cons] at hsize hless
      rw [segmentBytes] at hwanted
      exact Int.emod_eq_of_lt (by omega) (by omega)
    refine ⟨hsize, by omega, fun s hs hbytes => ⟨(hinside s hs hbytes).1, ?_⟩⟩
    have htop := ((highestEnd_le_iff _).mp le_rfl).2 s hs hbytes
    omega
  · rintro ⟨hsize, hsum, hstart⟩
    have hbytes : 0 ≤ noffH.segmentBytes := by
      rw [segmentBytes_eq]
      exact List.sum_nonneg (by simpa using hsize)
    rw [Dense.wanted_eq ⟨hsize, hsum, hstart⟩] at hpages
    refine ⟨hsize, fun s hs hs' => ⟨(hstart s hs hs').1, ?_⟩, ?_⟩
    · have hend := (hstart s hs hs').2
      omega
    · have htop : noffH.highestEnd ≤ (noffH.numPages * pageSize : ℕ) - 1024 := by
        refine (highestEnd_le_iff _).mpr ⟨by omega, fun s hs hs' => ?_⟩
        have hend := (hstart s hs hs').2
        omega
      omega

end NoffHeader

/-! ## The constructor -/

namespace Constructor

open Runs

/-- The page table has entries. -/
def State.HasPages (s : State) : Prop :=
  ∃ entry table, s.pageTable = some (entry :: table)

/-- The constructor has refused the file: its size check has failed, and none of its statements
has marked a frame or written a byte. -/
structure Refused (t : Tid) (file : List Byte) (start : State) (labels : List Label)
    (s : State) : Prop where
  outOfMemory : s.OutOfMemory file
  unchanged : AllSteps (State.step t .fromName file) (Unchanged t .fromName file) start labels

/-- A page table with entries that `AddrSpace(char*)` builds from the file is large enough,
whatever other threads do, and when the constructor is done without one it has refused the
file. -/
def SizingSound (file : List Byte) : Prop :=
  ∀ t b memory lock labels s,
    exec (State.step t .fromName file) (State.start b memory lock) labels = some s →
      (s.HasPages → (NoffHeader.read file).SizedSoundly s.numPages) ∧
      (s.place = .done → ¬ s.HasPages → Refused t file (State.start b memory lock) labels s)

variable {t : Tid} {ctor : Ctor} {file : List Byte} {s s' : State} {label : Label}

theorem State.not_hasPages (h : s.pageTable.getD [] = []) : ¬ s.HasPages := by
  rintro ⟨entry, table, heq⟩
  rw [heq] at h
  cases h

/-- The pages that a constructor has. -/
structure Paged (file : List Byte) (s : State) : Prop where
  early : before s.place ≠ none → s.pageTable = none
  numPages : s.numPages = 0 ∨
    s.numPages = (NoffHeader.read file).numPages ∧ s.numPages ≤ numPhysPages
  entries : s.HasPages → 0 < s.numPages

theorem paged_start (b : BitMap numPhysPages) (memory : ℕ → Byte) (lock : Lock) :
    Paged file (State.start b memory lock) :=
  ⟨fun _ => rfl, .inl rfl, fun hpages => absurd hpages (State.not_hasPages rfl)⟩

/-- A statement that leaves the pages alone. -/
theorem Paged.same (h : Paged file s) (hnumPages : s'.numPages = s.numPages)
    (htable : s'.pageTable = s.pageTable)
    (hplace : before s'.place ≠ none → before s.place ≠ none) :
    Paged file s' where
  early hearly := htable.trans (h.early (hplace hearly))
  numPages := hnumPages ▸ h.numPages
  entries hpages := hnumPages ▸ h.entries (by rwa [State.HasPages, htable] at hpages)

theorem Paged.copy (h : Paged file s) {segment : Segment} {i : ℕ} {next after : Place}
    (hnext : before next = none) (hafter : before after = none)
    (hcopy : s.copy file segment i next after = some s') : Paged file s' := by
  rw [State.copy] at hcopy
  split at hcopy
  · obtain ⟨entry, -, hcopy⟩ := Option.bind_eq_some_iff.mp hcopy
    obtain ⟨memory, -, heq⟩ := Option.bind_eq_some_iff.mp hcopy
    cases heq
    exact h.same rfl rfl fun hne => absurd hnext hne
  · cases hcopy
    exact h.same rfl rfl fun hne => absurd hafter hne

theorem Paged.check (h : Paged file s) (hplace : s.place = .check)
    (hcheck : s.check ctor file = some s') : Paged file s' := by
  have htable : s.pageTable = none := h.early (by simp [hplace, before])
  have hnone : s.pageTable.getD [] = [] := by rw [htable]; rfl
  unfold State.check at hcheck
  dsimp only at hcheck
  split at hcheck
  · cases hcheck
  · split at hcheck
    · cases hcheck
      exact ⟨fun hne => absurd rfl hne, .inl rfl,
        fun hpages => absurd hpages (State.not_hasPages hnone)⟩
    · rename_i hroom
      cases hcheck
      have hframes := s.gPhysPageBitMap.numClear_le
      exact ⟨fun hne => absurd rfl hne, .inr ⟨rfl, (not_lt.mp hroom).trans hframes⟩,
        fun hpages => absurd hpages (State.not_hasPages hnone)⟩

theorem Paged.allocate (h : Paged file s) (found : List ℤ) : Paged file (s.allocate found) := by
  unfold State.allocate
  split
  · rename_i hmore
    exact ⟨fun hne => absurd rfl hne, h.numPages, fun _ => Nat.zero_lt_of_lt hmore⟩
  · exact h.same rfl rfl fun hne => absurd rfl hne

theorem Paged.go (h : Paged file s) (hgo : s.go t ctor file = some s') : Paged file s' := by
  unfold State.go at hgo
  cases hs : s.place with
  | header =>
      rw [hs] at hgo
      dsimp only at hgo
      split at hgo
      · cases hgo
        exact h.same rfl rfl fun _ => by simp [hs, before]
      · cases hgo
  | acquire =>
      rw [hs] at hgo
      cases hgo
      unfold State.acquire
      split
      · exact h.same rfl rfl fun _ => by simp [hs, before]
      · exact h.same rfl rfl fun _ => by simp [hs, before]
  | asleep | done =>
      rw [hs] at hgo
      cases hgo
  | check =>
      rw [hs] at hgo
      exact h.check hs hgo
  | deleteFailed | release | delete =>
      rw [hs] at hgo
      cases hgo
      exact h.same rfl rfl fun hne => absurd rfl hne
  | releaseFailed =>
      rw [hs] at hgo
      cases ctor with
      | fromFile =>
          cases hgo
          exact h.same rfl rfl fun hne => absurd rfl hne
      | fromName =>
          cases hgo
          exact h.same rfl rfl fun hne => absurd rfl hne
  | newTable =>
      rw [hs] at hgo
      cases hgo
      exact ⟨fun hne => absurd rfl hne, h.numPages,
        fun hpages => absurd hpages (State.not_hasPages rfl)⟩
  | allocate found =>
      rw [hs] at hgo
      cases hgo
      exact h.allocate found
  | copyCode i =>
      rw [hs] at hgo
      exact h.copy rfl rfl hgo
  | copyData i =>
      rw [hs] at hgo
      cases ctor with
      | fromFile => exact h.copy rfl rfl hgo
      | fromName => exact h.copy rfl rfl hgo

theorem Paged.step (h : Paged file s) (hstep : s.step t ctor file label = some s') :
    Paged file s' := by
  by_cases hlabel : label = .go
  · subst hlabel
    exact h.go hstep
  · obtain ⟨hnumPages, htable, -, -, hplace⟩ := step_others hlabel hstep
    refine h.same hnumPages htable fun hne => ?_
    rcases hplace with hplace | ⟨hasleep, -⟩
    · rwa [← hplace]
    · simp [hasleep, before]

/-! ## Without pages -/

/-- Behind the first pass of the allocation loop, or behind the loop. -/
def looped : Place → Prop
  | .allocate found => found ≠ []
  | .release | .copyCode _ | .copyData _ | .delete | .done => True
  | _ => False

/-- A constructor that goes on without pages has failed the check. -/
structure Settled (file : List Byte) (s : State) : Prop where
  table : 0 < s.numPages → looped s.place → s.HasPages
  zero : before s.place = none → s.numPages = 0 → s.OutOfMemory file

theorem settled_start (b : BitMap numPhysPages) (memory : ℕ → Byte) (lock : Lock) :
    Settled file (State.start b memory lock) := by
  refine ⟨fun _ hlooped => absurd hlooped id, fun hbefore => ?_⟩
  cases hbefore

theorem Settled.same (h : Settled file s) (hnumPages : s'.numPages = s.numPages)
    (htable : s'.pageTable = s.pageTable) (hnumclear : s'.numclear = s.numclear)
    (hlooped : looped s'.place → looped s.place)
    (hbefore : before s'.place = none → before s.place = none) : Settled file s' where
  table hpos hplace := by
    rw [State.HasPages, htable]
    exact h.table (hnumPages ▸ hpos) (hlooped hplace)
  zero hplace hzero := by
    rw [State.OutOfMemory, hnumclear]
    exact h.zero (hbefore hplace) (hnumPages ▸ hzero)

theorem Settled.copy (h : Settled file s) {segment : Segment} {i : ℕ} {next after : Place}
    (hlooped : looped s.place) (hbefore : before s.place = none)
    (hcopy : s.copy file segment i next after = some s') : Settled file s' := by
  rw [State.copy] at hcopy
  split at hcopy
  · obtain ⟨entry, -, hcopy⟩ := Option.bind_eq_some_iff.mp hcopy
    obtain ⟨memory, -, heq⟩ := Option.bind_eq_some_iff.mp hcopy
    cases heq
    exact h.same rfl rfl rfl (fun _ => hlooped) fun _ => hbefore
  · cases hcopy
    exact h.same rfl rfl rfl (fun _ => hlooped) fun _ => hbefore

theorem Settled.allocate (h : Settled file s) {found : List ℤ}
    (hplace : s.place = .allocate found) : Settled file (s.allocate found) := by
  have hbefore : before s.place = none := by rw [hplace]; rfl
  unfold State.allocate
  split
  · refine ⟨fun _ _ => ?_, fun _ hzero => h.zero hbefore hzero⟩
    have hne : AddrSpace.table (found ++ [s.gPhysPageBitMap.find.1]) ≠ [] := by
      simp [AddrSpace.table]
    obtain ⟨entry, table, heq⟩ := List.exists_cons_of_ne_nil hne
    exact ⟨entry, table, congrArg some heq⟩
  · rename_i hend
    refine ⟨fun hpos _ => h.table hpos ?_, fun _ hzero => h.zero hbefore hzero⟩
    rw [hplace]
    rintro rfl
    exact hend hpos

theorem Settled.go (h : Settled file s) (hpos : 0 < (NoffHeader.read file).numPages)
    (hgo : s.go t .fromName file = some s') : Settled file s' := by
  unfold State.go at hgo
  cases hs : s.place with
  | header =>
      rw [hs] at hgo
      dsimp only at hgo
      split at hgo
      · cases hgo
        exact ⟨fun _ hlooped => absurd hlooped id, fun hbefore => by cases hbefore⟩
      · cases hgo
  | acquire =>
      rw [hs] at hgo
      cases hgo
      unfold State.acquire
      split
      · exact ⟨fun _ hlooped => absurd hlooped id, fun hbefore => by cases hbefore⟩
      · exact ⟨fun _ hlooped => absurd hlooped id, fun hbefore => by cases hbefore⟩
  | asleep | done =>
      rw [hs] at hgo
      cases hgo
  | check =>
      rw [hs] at hgo
      dsimp only [State.check] at hgo
      rw [if_neg (by simp)] at hgo
      split at hgo
      · rename_i hfew
        cases hgo
        exact ⟨fun _ hlooped => absurd hlooped id, fun _ _ => ⟨_, rfl, hfew⟩⟩
      · cases hgo
        exact ⟨fun _ hlooped => absurd hlooped id, fun _ hzero => absurd hzero hpos.ne'⟩
  | deleteFailed | releaseFailed =>
      rw [hs] at hgo
      cases hgo
      exact h.same rfl rfl rfl (fun hlooped => absurd hlooped id) fun _ => by rw [hs]; rfl
  | newTable =>
      rw [hs] at hgo
      cases hgo
      exact ⟨fun _ hlooped => absurd rfl hlooped, fun _ hzero => h.zero (by rw [hs]; rfl) hzero⟩
  | allocate found =>
      rw [hs] at hgo
      cases hgo
      exact h.allocate hs
  | release | delete =>
      rw [hs] at hgo
      cases hgo
      exact h.same rfl rfl rfl (fun _ => by rw [hs]; trivial) fun _ => by rw [hs]; rfl
  | copyCode i =>
      rw [hs] at hgo
      exact h.copy (by rw [hs]; trivial) (by rw [hs]; rfl) hgo
  | copyData i =>
      rw [hs] at hgo
      exact h.copy (by rw [hs]; trivial) (by rw [hs]; rfl) hgo

theorem Settled.step (h : Settled file s) (hpos : 0 < (NoffHeader.read file).numPages)
    (hstep : s.step t .fromName file label = some s') : Settled file s' := by
  by_cases hlabel : label = .go
  · subst hlabel
    exact h.go hpos hstep
  · obtain ⟨hnumPages, htable, hnumclear, -, hplace⟩ := step_others hlabel hstep
    refine h.same hnumPages htable hnumclear (fun hlooped => ?_) fun hbefore => ?_
    · rcases hplace with hplace | ⟨-, hcheck⟩
      · rwa [← hplace]
      · rw [hcheck] at hlooped
        exact absurd hlooped id
    · rcases hplace with hplace | ⟨-, hcheck⟩
      · rwa [← hplace]
      · rw [hcheck] at hbefore
        cases hbefore

/-! ## When the size is right -/

/-- A bitmap whose frames are all clear. -/
def emptyBitMap : BitMap numPhysPages :=
  ⟨Vector.replicate _ 0#32⟩

theorem numClear_emptyBitMap : emptyBitMap.numClear = numPhysPages := by decide +kernel

theorem check_of_room (hplace : s.place = .check)
    (hroom : (NoffHeader.read file).numPages ≤ s.gPhysPageBitMap.numClear) :
    s.step t .fromName file .go = some { s with
      numPages := (NoffHeader.read file).numPages
      numclear := some s.gPhysPageBitMap.numClear
      place := .newTable } := by
  rw [State.step, State.go, hplace]
  dsimp only
  rw [State.check, if_neg (by simp), if_neg (not_lt.mpr hroom)]

/-- `new` and one pass of the allocation loop. -/
theorem exists_entry (t : Tid) (file : List Byte) (s : State) (hplace : s.place = .newTable)
    (hpos : 0 < s.numPages) :
    ∃ s' entry table, exec (State.step t .fromName file) s [.go, .go] = some s' ∧
      s'.pageTable = some (entry :: table) ∧ s'.numPages = s.numPages := by
  have hnew : s.step t .fromName file .go =
      some { s with pageTable := some [], place := .allocate [] } := by
    rw [State.step, State.go, hplace]
  have hpass (s₁ : State) (h : s₁.place = .allocate []) :
      s₁.step t .fromName file .go = some (s₁.allocate []) := by
    rw [State.step, State.go, h]
  have hallocate (s₁ : State) (h : 0 < s₁.numPages) :
      ∃ entry, (s₁.allocate []).pageTable = some [entry] ∧
        (s₁.allocate []).numPages = s₁.numPages := by
    rw [State.allocate, if_pos (by exact h)]
    exact ⟨_, rfl, rfl⟩
  obtain ⟨entry, htable, hnumPages⟩ := hallocate
    { s with pageTable := some [], place := .allocate [] } hpos
  rw [exec_cons hnew, exec_cons (hpass _ rfl)]
  exact ⟨_, entry, [], rfl, htable, hnumPages⟩

/-- The constructor alone, up to the passed check. -/
theorem exists_checked (file : List Byte) (b : BitMap numPhysPages)
    (hmagic : (NoffHeader.read file).noffMagic = noffMagic)
    (hroom : (NoffHeader.read file).numPages ≤ b.numClear) :
    ∃ s, exec (State.step 0 .fromName file) (State.start b (fun _ => 0#8) .create)
        (List.replicate 3 .go) = some s ∧
      s.place = .newTable ∧ s.numPages = (NoffHeader.read file).numPages := by
  let s₁ : State := ((State.start b (fun _ => 0#8) .create).use .readAt).goto .acquire
  let s₂ : State := s₁.acquire 0
  have hheader : (State.start b (fun _ => 0#8) .create).step 0 .fromName file .go = some s₁ :=
    if_pos hmagic
  have hacquire : s₁.step 0 .fromName file .go = some s₂ := rfl
  have hcheck := check_of_room (t := 0) (s := s₂) rfl hroom
  rw [List.replicate, exec_cons hheader, List.replicate, exec_cons hacquire, List.replicate,
    exec_cons hcheck]
  exact ⟨_, rfl, rfl, rfl⟩

/-- The constructor alone, up to its first page. -/
theorem exists_page (file : List Byte) (b : BitMap numPhysPages)
    (hmagic : (NoffHeader.read file).noffMagic = noffMagic)
    (hpos : 0 < (NoffHeader.read file).numPages)
    (hroom : (NoffHeader.read file).numPages ≤ b.numClear) :
    ∃ s entry table, exec (State.step 0 .fromName file)
        (State.start b (fun _ => 0#8) .create) (List.replicate 3 .go ++ [.go, .go]) = some s ∧
      s.pageTable = some (entry :: table) ∧ s.numPages = (NoffHeader.read file).numPages := by
  obtain ⟨s₁, hrun, hplace, hnumPages⟩ := exists_checked file b hmagic hroom
  obtain ⟨s, entry, table, hrest, htable, hsame⟩ := exists_entry 0 file s₁ hplace
    (hnumPages ▸ hpos)
  exact ⟨s, entry, table, (exec_append hrun).trans hrest, htable, hsame.trans hnumPages⟩

/-- Without pages every loop is over at once. -/
theorem exists_done (t : Tid) (file : List Byte) (hplace : s.place = .newTable)
    (hzero : s.numPages = 0) :
    ∃ s', exec (State.step t .fromName file) s (List.replicate 6 .go) = some s' ∧
      s'.place = .done ∧ s'.pageTable = some [] := by
  let s₁ : State := { s with pageTable := some [], place := .allocate [] }
  let s₂ : State := s₁.goto .release
  let s₃ : State := s₂.release t (.copyCode 0)
  let s₄ : State := s₃.goto (.copyData 0)
  let s₅ : State := s₄.goto .delete
  have hnone (size : ℤ) : ¬ (0 < size ∧ 0 < s.numPages) := by
    rw [hzero]
    exact fun h => Nat.lt_irrefl 0 h.2
  have hnew : s.step t .fromName file .go = some s₁ := by
    rw [State.step, State.go, hplace]
  have hloop : s₁.step t .fromName file .go = some s₂ :=
    congrArg some (if_neg fun hlt => (Nat.not_lt_zero _ (hzero ▸ hlt)))
  have hrelease : s₂.step t .fromName file .go = some s₃ := rfl
  have hcode : s₃.step t .fromName file .go = some s₄ := if_neg (hnone _)
  have hdata : s₄.step t .fromName file .go = some s₅ := if_neg (hnone _)
  have hdelete : s₅.step t .fromName file .go = some ((s₅.use .delete).goto .done) := rfl
  simp only [List.replicate]
  rw [exec_cons hnew, exec_cons hloop, exec_cons hrelease, exec_cons hcode, exec_cons hdata,
    exec_cons hdelete]
  exact ⟨_, rfl, rfl, rfl⟩

/-- The constructor alone, from a header that asks for no pages to its end. -/
theorem not_sizingSound_of_empty (hmagic : (NoffHeader.read file).noffMagic = noffMagic)
    (hzero : (NoffHeader.read file).numPages = 0) : ¬ SizingSound file := by
  intro hsound
  have hroom (b : BitMap numPhysPages) : (NoffHeader.read file).numPages ≤ b.numClear := by
    rw [hzero]
    exact Nat.zero_le _
  obtain ⟨s, hrun, hplace, hnumPages⟩ := exists_checked file emptyBitMap hmagic (hroom _)
  obtain ⟨s', hrest, hdone, htable⟩ := exists_done 0 file hplace (hnumPages.trans hzero)
  have hrefused := (hsound _ _ _ _ _ s' ((exec_append hrun).trans hrest)).2 hdone
    (State.not_hasPages (by rw [htable]; rfl))
  obtain ⟨k, -, hlt⟩ := hrefused.outOfMemory
  rw [hzero] at hlt
  exact Nat.not_lt_zero k hlt

theorem sizing_sound_iff (file : List Byte)
    (hmagic : (NoffHeader.read file).noffMagic = noffMagic) :
    SizingSound file ↔ (NoffHeader.read file).SizesOK := by
  constructor
  · intro hsound
    by_cases hmuch : (memorySize : ℤ) < (NoffHeader.read file).wanted % 2 ^ 32
    · exact .inl hmuch
    have hsmall := not_lt.mp hmuch
    have hpos : 0 < (NoffHeader.read file).numPages := by
      by_contra hzero
      exact not_sizingSound_of_empty hmagic (Nat.eq_zero_of_not_pos hzero) hsound
    obtain ⟨s, entry, table, hrun, htable, hnumPages⟩ := exists_page file emptyBitMap hmagic hpos
      (((NoffHeader.numPages_le_iff _).mpr hsmall).trans_eq numClear_emptyBitMap.symm)
    have hsized := (hsound _ _ _ _ _ s hrun).1 ⟨entry, table, htable⟩
    rw [hnumPages] at hsized
    exact .inr ((NoffHeader.sizedSoundly_iff_dense hsmall).mp hsized)
  · intro hsizes t b memory lock labels s hrun
    have hpos := (NoffHeader.numPages_pos_iff _).mpr hsizes.wanted_ne_zero
    constructor
    · intro hpages
      have hpaged : Paged file s := exec_keep (Paged file) (fun _ => True)
        (fun _ _ _ _ hs hstep => hs.step hstep) (paged_start b memory lock) (fun _ _ => trivial)
        hrun
      obtain ⟨heq, hle⟩ := hpaged.numPages.resolve_left (hpaged.entries hpages).ne'
      rw [heq] at hle ⊢
      have hsmall := (NoffHeader.numPages_le_iff _).mp hle
      exact (NoffHeader.sizedSoundly_iff_dense hsmall).mpr
        (hsizes.resolve_left (not_lt.mpr hsmall))
    · intro hdone hnone
      have hsettled : Settled file s := exec_keep (Settled file) (fun _ => True)
        (fun _ _ _ _ hs hstep => hs.step hpos hstep) (settled_start b memory lock)
        (fun _ _ => trivial) hrun
      have hzero : s.numPages = 0 := by
        by_contra hne
        exact hnone (hsettled.table (Nat.pos_of_ne_zero hne) (by rw [hdone]; trivial))
      have hout := hsettled.zero (by rw [hdone]; rfl) hzero
      exact ⟨hout, unchanged_of_outOfMemory (.early rfl rfl) hrun hout⟩

/-- Two pages and a half in front of the stack, one segment behind the other. -/
def denseFile : List Byte :=
  NoffHeader.bytes ⟨noffMagic, ⟨0#32, 40#32, 1024#32⟩, ⟨1024#32, 1064#32, 240#32⟩,
    ⟨1264#32, 0#32, 16#32⟩⟩

theorem sizing_sound_dense : SizingSound denseFile :=
  (sizing_sound_iff denseFile (by decide +kernel)).mpr
    (.inr ⟨by decide +kernel, by decide +kernel, by decide +kernel⟩)

/-- The sum of the sizes and the stack is `2 ^ 32 + 1024`. -/
def wrappingFile : List Byte :=
  NoffHeader.bytes ⟨noffMagic, ⟨0#32, 40#32, 0x7fffffff#32⟩, ⟨0#32, 40#32, 0x7fffffff#32⟩,
    ⟨0#32, 0#32, 2#32⟩⟩

theorem sizing_wraps : ¬ SizingSound wrappingFile := by
  intro hsound
  have hpages : (NoffHeader.read wrappingFile).numPages = 2 := by decide +kernel
  obtain ⟨s, entry, table, hrun, htable, hnumPages⟩ := exists_page wrappingFile emptyBitMap
    (by decide +kernel) (by rw [hpages]; decide)
    (by rw [hpages, numClear_emptyBitMap]; decide)
  have hsized := (hsound _ _ _ _ _ s hrun).1 ⟨entry, table, htable⟩
  rw [hnumPages, hpages] at hsized
  -- the code does not fit into two pages
  have hcode := (hsized.inside _ List.mem_cons_self (by decide +kernel)).2
  revert hcode
  decide +kernel

end Constructor

end Nachos
