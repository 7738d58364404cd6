import Nachos.Library.Runs
import Nachos.Model.Constructors

/-! # Loading without enough memory

Behind the failed size check the constructors have no page to allocate or copy, so what they
still do with the executable and the lock is fixed. `AddrSpace(char*)` does not return there:
it releases and deletes once more. -/

namespace Nachos.Constructor

open Runs State

variable {t : Tid} {ctor : Ctor} {file : List Byte} {s s' : State} {label : Label}

/-- The size check has found too few clear frames. -/
def State.OutOfMemory (file : List Byte) (s : State) : Prop :=
  ∃ k, s.numclear = some k ∧ k < (NoffHeader.read file).numPages

/-- The statement leaves the bitmap and the memory alone. -/
def Unchanged (t : Tid) (ctor : Ctor) (file : List Byte) (s : State) (label : Label) : Prop :=
  label = .go → ∀ s', s.step t ctor file .go = some s' →
    s'.gPhysPageBitMap = s.gPhysPageBitMap ∧ s'.mainMemory = s.mainMemory

/-- The lock was released once, the executable was deleted once and not used any more, and
there are no pages. -/
structure State.Clean (s : State) : Prop where
  released : s.uses.count .release = 1
  deleted : s.uses.count .delete = 1
  unused : ∃ before after, s.uses = before ++ .delete :: after ∧
    .readAt ∉ after ∧ .delete ∉ after
  numPages : s.numPages = 0

/-! ## What is done at each place -/

/-- Before the check. -/
def before : Place → Option (List Use)
  | .header => some []
  | .acquire => some [.readAt]
  | .asleep | .check => some [.readAt, .acquire]
  | _ => none

/-- What follows the release behind the failed check. -/
def afterwards : Ctor → List Use
  | .fromFile => []
  | .fromName => [.release, .delete]

/-- What is still to come behind the failed check. -/
def remaining (ctor : Ctor) : Place → Option (List Use)
  | .deleteFailed => some (.delete :: .release :: afterwards ctor)
  | .releaseFailed => some (.release :: afterwards ctor)
  | .newTable | .allocate _ | .release =>
      if ctor = .fromName then some [.release, .delete] else none
  | .copyCode _ | .copyData _ | .delete => if ctor = .fromName then some [.delete] else none
  | .done => some []
  | _ => none

/-- All that is done when the check fails. -/
def total (ctor : Ctor) : List Use :=
  [.readAt, .acquire, .delete, .release] ++ afterwards ctor

/-- The state of a constructor whose check has failed. -/
structure Failed (ctor : Ctor) (file : List Byte) (s : State) : Prop where
  outOfMemory : s.OutOfMemory file
  numPages : s.numPages = 0
  uses : ∃ l, remaining ctor s.place = some l ∧ s.uses ++ l = total ctor

/-- The check has found enough clear frames. -/
structure Enough (file : List Byte) (s : State) : Prop where
  room : ∃ k, s.numclear = some k ∧ (NoffHeader.read file).numPages ≤ k
  behind : before s.place = none

/-- The states of a constructor. -/
inductive Inv (ctor : Ctor) (file : List Byte) (s : State) : Prop
  | early (huses : before s.place = some s.uses) (hnumclear : s.numclear = none)
  | enough (henough : Enough file s)
  | failed (hfailed : Failed ctor file s)

theorem Enough.not_outOfMemory (h : Enough file s) : ¬ s.OutOfMemory file := by
  obtain ⟨k, hk, hle⟩ := h.room
  rintro ⟨k', hk', hlt⟩
  rw [hk] at hk'
  cases hk'
  exact Nat.not_lt_of_le hle hlt

/-! ## One statement -/

/-- The steps of other threads leave the constructor where it is, or wake it. -/
theorem step_others (hlabel : label ≠ .go) (hstep : s.step t ctor file label = some s') :
    s'.numPages = s.numPages ∧ s'.pageTable = s.pageTable ∧ s'.numclear = s.numclear ∧
      s'.uses = s.uses ∧ (s'.place = s.place ∨ s.place = .asleep ∧ s'.place = .check) := by
  cases label with
  | go => exact absurd rfl hlabel
  | acquire u =>
      rw [State.step] at hstep
      split at hstep
      · cases hstep
      · cases hstep
        exact ⟨rfl, rfl, rfl, rfl, .inl rfl⟩
  | release u =>
      rw [State.step] at hstep
      split at hstep
      · cases hstep
      · dsimp only at hstep
        split at hstep
        · rename_i hwoken
          cases hstep
          exact ⟨rfl, rfl, rfl, rfl, .inr ⟨hwoken.2, rfl⟩⟩
        · cases hstep
          exact ⟨rfl, rfl, rfl, rfl, .inl rfl⟩
  | change b memory =>
      cases hstep
      exact ⟨rfl, rfl, rfl, rfl, .inl rfl⟩

/-- How far a place behind the failed check is from the end. -/
def rank : Place → ℕ
  | .deleteFailed => 8
  | .releaseFailed => 7
  | .newTable => 6
  | .allocate _ => 5
  | .release => 4
  | .copyCode _ => 3
  | .copyData _ => 2
  | .delete => 1
  | _ => 0

/-- What a statement behind the failed check does. -/
structure FailedStep (ctor : Ctor) (file : List Byte) (s s' : State) : Prop where
  failed : Failed ctor file s'
  gPhysPageBitMap : s'.gPhysPageBitMap = s.gPhysPageBitMap
  mainMemory : s'.mainMemory = s.mainMemory
  rank : rank s'.place < rank s.place

/-- There are no pages, so no loop has a pass. -/
theorem Failed.copy_eq (h : Failed ctor file s) (segment : Segment) (i : ℕ)
    (next after : Place) : s.copy file segment i next after = some (s.goto after) := by
  rw [State.copy, if_neg]
  rw [h.numPages]
  exact fun hlt => Nat.not_lt_zero i hlt.2

/-- The next statement uses the file or the lock, and no more. -/
theorem Failed.step_use (h : Failed ctor file s) {u : Use} {l : List Use}
    (hhere : remaining ctor s.place = some (u :: l)) (hnumPages : s'.numPages = s.numPages)
    (hnumclear : s'.numclear = s.numclear) (huses : s'.uses = s.uses ++ [u])
    (hnext : remaining ctor s'.place = some l) (hrank : rank s'.place < rank s.place)
    (hbitMap : s'.gPhysPageBitMap = s.gPhysPageBitMap)
    (hmemory : s'.mainMemory = s.mainMemory) : FailedStep ctor file s s' := by
  obtain ⟨l', hremaining, htotal⟩ := h.uses
  rw [hhere] at hremaining
  cases hremaining
  refine ⟨⟨?_, hnumPages.trans h.numPages, l, hnext, ?_⟩, hbitMap, hmemory,
    hrank⟩
  · obtain ⟨k, hk, hlt⟩ := h.outOfMemory
    exact ⟨k, hnumclear.trans hk, hlt⟩
  · rw [huses, List.append_assoc]
    exact htotal

/-- The next statement does not use them. -/
theorem Failed.step_silent (h : Failed ctor file s) (hnumPages : s'.numPages = s.numPages)
    (hnumclear : s'.numclear = s.numclear) (huses : s'.uses = s.uses)
    (hnext : remaining ctor s'.place = remaining ctor s.place)
    (hrank : rank s'.place < rank s.place) (hbitMap : s'.gPhysPageBitMap = s.gPhysPageBitMap)
    (hmemory : s'.mainMemory = s.mainMemory) : FailedStep ctor file s s' := by
  obtain ⟨l, hremaining, htotal⟩ := h.uses
  refine ⟨⟨?_, hnumPages.trans h.numPages, l, hnext.trans hremaining, ?_⟩, hbitMap, hmemory,
    hrank⟩
  · obtain ⟨k, hk, hlt⟩ := h.outOfMemory
    exact ⟨k, hnumclear.trans hk, hlt⟩
  · rw [huses]
    exact htotal

/-- Behind the failed check every statement but the end can be run. -/
theorem Failed.go (h : Failed ctor file s) (hplace : s.place ≠ .done) :
    ∃ s', s.go t ctor file = some s' ∧ FailedStep ctor file s s' := by
  obtain ⟨l, hremaining, -⟩ := h.uses
  unfold State.go
  cases hs : s.place with
  | header | acquire | asleep | check =>
      rw [hs] at hremaining
      cases hremaining
  | deleteFailed =>
      refine ⟨_, rfl, h.step_use (by rw [hs]; rfl) rfl rfl rfl rfl ?_ rfl rfl⟩
      rw [hs]
      exact Nat.lt_succ_self _
  | releaseFailed =>
      cases ctor with
      | fromFile =>
          refine ⟨_, rfl, h.step_use (by rw [hs]; rfl) rfl rfl rfl rfl ?_ rfl rfl⟩
          rw [hs]
          exact Nat.succ_pos _
      | fromName =>
          refine ⟨_, rfl, h.step_use (by rw [hs]; rfl) rfl rfl rfl rfl ?_ rfl rfl⟩
          rw [hs]
          exact Nat.lt_succ_self _
  | newTable =>
      refine ⟨_, rfl, h.step_silent rfl rfl rfl (by rw [hs]; rfl) ?_ rfl rfl⟩
      rw [hs]
      exact Nat.lt_succ_self _
  | allocate found =>
      have hnone : ¬ found.length < s.numPages := by
        rw [h.numPages]
        exact Nat.not_lt_zero _
      refine ⟨s.goto .release, congrArg some (if_neg hnone), ?_⟩
      refine h.step_silent rfl rfl rfl (by rw [hs]; rfl) ?_ rfl rfl
      rw [hs]
      exact Nat.lt_succ_self _
  | release =>
      cases ctor with
      | fromFile =>
          rw [hs] at hremaining
          cases hremaining
      | fromName =>
          refine ⟨_, rfl, h.step_use (by rw [hs]; rfl) rfl rfl rfl rfl ?_ rfl rfl⟩
          rw [hs]
          exact Nat.lt_succ_self _
  | copyCode i =>
      refine ⟨s.goto (.copyData 0), h.copy_eq _ i _ _, ?_⟩
      refine h.step_silent rfl rfl rfl (by rw [hs]; rfl) ?_ rfl rfl
      rw [hs]
      exact Nat.lt_succ_self _
  | copyData i =>
      cases ctor with
      | fromFile =>
          rw [hs] at hremaining
          cases hremaining
      | fromName =>
          refine ⟨s.goto .delete, h.copy_eq _ i _ _, ?_⟩
          refine h.step_silent rfl rfl rfl (by rw [hs]; rfl) ?_ rfl rfl
          rw [hs]
          exact Nat.lt_succ_self _
  | delete =>
      cases ctor with
      | fromFile =>
          rw [hs] at hremaining
          cases hremaining
      | fromName =>
          refine ⟨_, rfl, h.step_use (by rw [hs]; rfl) rfl rfl rfl rfl ?_ rfl rfl⟩
          rw [hs]
          exact Nat.lt_succ_self _
  | done => exact absurd hs hplace

/-- The constructor comes to its end. -/
theorem Failed.exists_done (h : Failed ctor file s) :
    ∃ n s', exec (State.step t ctor file) s (List.replicate n .go) = some s' ∧
      s'.place = .done ∧ Failed ctor file s' := by
  induction hrank : rank s.place using Nat.strongRecOn generalizing s with
  | ind r ih =>
      by_cases hplace : s.place = .done
      · exact ⟨0, s, rfl, hplace, h⟩
      · obtain ⟨s₁, hgo, hstep⟩ := h.go hplace
        obtain ⟨n, s', hexec, hdone⟩ := ih _ (hrank ▸ hstep.rank) hstep.failed rfl
        have hgo' : s.step t ctor file .go = some s₁ := hgo
        exact ⟨n + 1, s', (exec_cons hgo').trans hexec, hdone⟩

/-! ## Runs -/

theorem behind_copy {segment : Segment} {i : ℕ} {next after : Place}
    (hnext : before next = none) (hafter : before after = none)
    (h : s.copy file segment i next after = some s') :
    s'.numclear = s.numclear ∧ before s'.place = none := by
  rw [State.copy] at h
  split at h
  · obtain ⟨entry, -, hcopy⟩ := Option.bind_eq_some_iff.mp h
    obtain ⟨memory, -, heq⟩ := Option.bind_eq_some_iff.mp hcopy
    cases heq
    exact ⟨rfl, hnext⟩
  · cases h
    exact ⟨rfl, hafter⟩

/-- The check is passed once. -/
theorem behind_go (hplace : before s.place = none) (h : s.go t ctor file = some s') :
    s'.numclear = s.numclear ∧ before s'.place = none := by
  unfold State.go at h
  cases hs : s.place with
  | header | acquire | asleep | check =>
      rw [hs] at hplace
      cases hplace
  | deleteFailed | newTable | release | delete =>
      rw [hs] at h
      cases h
      exact ⟨rfl, rfl⟩
  | releaseFailed =>
      rw [hs] at h
      cases ctor with
      | fromFile =>
          cases h
          exact ⟨rfl, rfl⟩
      | fromName =>
          cases h
          exact ⟨rfl, rfl⟩
  | allocate found =>
      rw [hs] at h
      cases h
      unfold State.allocate
      split
      · exact ⟨rfl, rfl⟩
      · exact ⟨rfl, rfl⟩
  | copyCode i =>
      rw [hs] at h
      exact behind_copy rfl rfl h
  | copyData i =>
      rw [hs] at h
      cases ctor with
      | fromFile => exact behind_copy rfl rfl h
      | fromName => exact behind_copy rfl rfl h
  | done =>
      rw [hs] at h
      cases h

theorem Enough.step (h : Enough file s) (hstep : s.step t ctor file label = some s') :
    Enough file s' := by
  obtain ⟨k, hk, hle⟩ := h.room
  by_cases hlabel : label = .go
  · subst hlabel
    obtain ⟨hnumclear, hplace⟩ := behind_go h.behind hstep
    exact ⟨⟨k, hnumclear.trans hk, hle⟩, hplace⟩
  · obtain ⟨-, -, hnumclear, -, hplace | ⟨hasleep, -⟩⟩ := step_others hlabel hstep
    · exact ⟨⟨k, hnumclear.trans hk, hle⟩, by rw [hplace]; exact h.behind⟩
    · have hbehind := h.behind
      rw [hasleep] at hbehind
      cases hbehind

/-- A statement keeps the invariant, and until there is enough room it leaves the bitmap and
the memory alone. -/
theorem Inv.go (h : Inv ctor file s) (hgo : s.go t ctor file = some s') :
    Inv ctor file s' ∧ (¬ Enough file s' →
      s'.gPhysPageBitMap = s.gPhysPageBitMap ∧ s'.mainMemory = s.mainMemory) := by
  cases h with
  | enough henough =>
      have hstep : s.step t ctor file .go = some s' := hgo
      exact ⟨.enough (henough.step hstep), fun hnot => absurd (henough.step hstep) hnot⟩
  | failed hfailed =>
      have hplace : s.place ≠ .done := by
        intro hdone
        unfold State.go at hgo
        rw [hdone] at hgo
        cases hgo
      obtain ⟨s₁, hgo₁, hstep⟩ := hfailed.go (t := t) hplace
      rw [hgo] at hgo₁
      cases hgo₁
      exact ⟨.failed hstep.failed, fun _ => ⟨hstep.gPhysPageBitMap, hstep.mainMemory⟩⟩
  | early huses hnumclear =>
      unfold State.go at hgo
      cases hs : s.place with
      | header =>
          rw [hs] at hgo huses
          dsimp only at hgo
          split at hgo
          · cases hgo
            refine ⟨.early ?_ hnumclear, fun _ => ⟨rfl, rfl⟩⟩
            show _ = some (s.uses ++ [Use.readAt])
            rw [← Option.some.inj huses]
            rfl
          · cases hgo
      | acquire =>
          rw [hs] at hgo huses
          cases hgo
          unfold State.acquire
          have hkept : some [Use.readAt, .acquire] = some (s.uses ++ [Use.acquire]) := by
            rw [← Option.some.inj huses]
            rfl
          cases s.addrLock.acquire t with
          | mk lock got =>
              cases got with
              | true => exact ⟨.early hkept hnumclear, fun _ => ⟨rfl, rfl⟩⟩
              | false => exact ⟨.early hkept hnumclear, fun _ => ⟨rfl, rfl⟩⟩
      | asleep =>
          rw [hs] at hgo
          cases hgo
      | check =>
          rw [hs] at hgo huses
          dsimp only [State.check] at hgo
          split at hgo
          · cases hgo
          · split at hgo
            · rename_i hlt
              cases hgo
              refine ⟨.failed ⟨⟨_, rfl, hlt⟩, rfl, _, rfl, ?_⟩, fun _ => ⟨rfl, rfl⟩⟩
              rw [← Option.some.inj huses]
              rfl
            · rename_i hroom
              cases hgo
              exact ⟨.enough ⟨⟨_, rfl, Nat.le_of_not_lt hroom⟩, rfl⟩, fun _ => ⟨rfl, rfl⟩⟩
      | deleteFailed | releaseFailed | newTable | allocate | release | copyCode | copyData
      | delete | done =>
          rw [hs] at huses
          cases huses

theorem Failed.step (h : Failed ctor file s) (hstep : s.step t ctor file label = some s') :
    Failed ctor file s' := by
  obtain ⟨l, hremaining, htotal⟩ := h.uses
  by_cases hlabel : label = .go
  · subst hlabel
    have hplace : s.place ≠ .done := by
      intro hdone
      change s.go t ctor file = some s' at hstep
      unfold State.go at hstep
      rw [hdone] at hstep
      cases hstep
    obtain ⟨s₁, hgo, hfailed⟩ := h.go (t := t) hplace
    rw [← Option.some.inj (hstep.symm.trans hgo)] at hfailed
    exact hfailed.failed
  · obtain ⟨hnumPages, -, hnumclear, huses, hplace⟩ := step_others hlabel hstep
    obtain ⟨k, hk, hlt⟩ := h.outOfMemory
    refine ⟨⟨k, hnumclear.trans hk, hlt⟩, hnumPages.trans h.numPages, l, ?_, huses ▸ htotal⟩
    rcases hplace with hplace | ⟨hasleep, -⟩
    · rw [hplace, hremaining]
    · rw [hasleep] at hremaining
      cases hremaining

theorem Inv.step (h : Inv ctor file s) (hstep : s.step t ctor file label = some s') :
    Inv ctor file s' := by
  by_cases hlabel : label = .go
  · subst hlabel
    exact (h.go hstep).1
  · cases h with
    | early hearly hnumclear =>
        obtain ⟨-, -, hsame, huses, hplace⟩ := step_others hlabel hstep
        refine .early ?_ (hsame.trans hnumclear)
        rcases hplace with hplace | ⟨hasleep, hcheck⟩
        · rw [hplace, huses, hearly]
        · rw [hcheck, huses, ← hearly, hasleep]
          rfl
    | enough henough => exact .enough (henough.step hstep)
    | failed hfailed => exact .failed (hfailed.step hstep)

/-- In a run that finds too few frames no statement changes the bitmap or the memory. -/
theorem unchanged_of_outOfMemory {labels : List Label} (h : Inv ctor file s)
    (hrun : exec (State.step t ctor file) s labels = some s') (hout : s'.OutOfMemory file) :
    AllSteps (State.step t ctor file) (Unchanged t ctor file) s labels := by
  induction labels generalizing s with
  | nil => trivial
  | cons label labels ih =>
      obtain ⟨s₁, hstep, hrest⟩ := Option.bind_eq_some_iff.mp hrun
      refine .cons hstep ?_ (ih (h.step hstep) hrest)
      rintro rfl s₂ hgo
      rw [hstep] at hgo
      cases hgo
      refine (h.go hstep).2 fun henough => ?_
      have hend : Enough file s' := exec_keep (Enough file) (fun _ => True)
        (fun s i s' _ hs hs' => Enough.step hs hs') henough (fun _ _ => trivial) hrest
      exact hend.not_outOfMemory hout

/-- What has been done at the end fixes the constructor. -/
theorem clean_iff (h : Failed ctor file s) (hdone : s.place = .done) :
    s.Clean ↔ ctor = .fromFile := by
  obtain ⟨l, hremaining, htotal⟩ := h.uses
  rw [hdone] at hremaining
  cases hremaining
  rw [List.append_nil] at htotal
  cases ctor with
  | fromFile =>
      refine iff_of_true ⟨?_, ?_, ⟨[.readAt, .acquire], [.release], htotal, by decide, by decide⟩,
        h.numPages⟩ rfl
      · rw [htotal]
        decide
      · rw [htotal]
        decide
  | fromName =>
      refine iff_of_false (fun hclean => ?_) (by decide)
      have hreleased := hclean.released
      rw [htotal] at hreleased
      revert hreleased
      decide

theorem Inv.failed_of_outOfMemory (h : Inv ctor file s) (hout : s.OutOfMemory file) :
    Failed ctor file s := by
  cases h with
  | early huses hnumclear =>
      obtain ⟨k, hk, -⟩ := hout
      rw [hnumclear] at hk
      cases hk
  | enough henough => exact absurd hout henough.not_outOfMemory
  | failed hfailed => exact hfailed

/-- A constructor whose size check has failed ends cleanly, whatever other threads do, exactly
when it is `AddrSpace(OpenFile*)`. -/
theorem outOfMemory_clean_iff {b : BitMap numPhysPages} {memory : ℕ → Byte} {lock : Lock}
    {labels : List Label}
    (hrun : Runs.exec (State.step t ctor file) (State.start b memory lock) labels = some s)
    (hout : s.OutOfMemory file) :
    (∃ n s', Runs.exec (State.step t ctor file) (State.start b memory lock)
        (labels ++ List.replicate n .go) = some s' ∧
      AllSteps (State.step t ctor file) (Unchanged t ctor file) (State.start b memory lock)
        (labels ++ List.replicate n .go) ∧
      s'.place = .done ∧ s'.Clean) ↔ ctor = .fromFile := by
  have hstart : Inv ctor file (State.start b memory lock) := .early rfl rfl
  have hinv : Inv ctor file s := exec_keep (Inv ctor file) (fun _ => True)
    (fun _ _ _ _ hs hstep => hs.step hstep) hstart (fun _ _ => trivial) hrun
  have hfailed := hinv.failed_of_outOfMemory hout
  constructor
  · rintro ⟨n, s', hend, -, hdone, hclean⟩
    rw [exec_append hrun] at hend
    have hfailed' : Failed ctor file s' := exec_keep (Failed ctor file) (fun _ => True)
      (fun _ _ _ _ hs hstep => hs.step hstep) hfailed (fun _ _ => trivial) hend
    exact (clean_iff hfailed' hdone).mp hclean
  · intro hctor
    obtain ⟨n, s', hend, hdone, hfailed'⟩ := hfailed.exists_done (t := t)
    have hwhole := (exec_append hrun).trans hend
    exact ⟨n, s', hwhole, unchanged_of_outOfMemory hstart hwhole hfailed'.outOfMemory, hdone,
      (clean_iff hfailed' hdone).mpr hctor⟩

/-- A file whose header asks for two pages. -/
def smallFile : List Byte :=
  [173#8, 223#8, 186#8, 0#8] ++ List.replicate 36 0#8

/-- A bitmap without a clear frame. -/
def fullBitMap : BitMap numPhysPages :=
  ⟨Vector.replicate _ 0xffffffff#32⟩

/-- From the header to the end with a free lock. -/
theorem outOfMemory_clean_small :
    ∃ s, Runs.exec (State.step 1 .fromFile smallFile)
        (State.start fullBitMap (fun _ => 0#8) .create) (List.replicate 3 .go) = some s ∧
      ∃ n s', Runs.exec (State.step 1 .fromFile smallFile)
          (State.start fullBitMap (fun _ => 0#8) .create)
          (List.replicate 3 .go ++ List.replicate n .go) = some s' ∧
        AllSteps (State.step 1 .fromFile smallFile) (Unchanged 1 .fromFile smallFile)
          (State.start fullBitMap (fun _ => 0#8) .create)
          (List.replicate 3 .go ++ List.replicate n .go) ∧
        s'.place = .done ∧ s'.Clean := by
  have hcheck : (Runs.exec (State.step 1 .fromFile smallFile)
      (State.start fullBitMap (fun _ => 0#8) .create) (List.replicate 3 .go)).map
        State.numclear = some (some 0) := by decide +kernel
  obtain ⟨s, hrun, hnumclear⟩ := Option.map_eq_some_iff.mp hcheck
  exact ⟨s, hrun, (outOfMemory_clean_iff hrun ⟨0, hnumclear, by decide +kernel⟩).mpr rfl⟩

/-- `AddrSpace(char*)` releases twice and deletes twice. -/
theorem outOfMemory_deletes_twice :
    ∃ s, Runs.exec (State.step 1 .fromName smallFile)
        (State.start fullBitMap (fun _ => 0#8) .create) (List.replicate 11 .go) = some s ∧
      s.OutOfMemory smallFile ∧ s.place = .done ∧
      s.uses.count .release = 2 ∧ s.uses.count .delete = 2 ∧ ¬ s.Clean := by
  have hend : (Runs.exec (State.step 1 .fromName smallFile)
      (State.start fullBitMap (fun _ => 0#8) .create) (List.replicate 11 .go)).map
        (fun s => (s.numclear, s.place, s.uses)) =
      some (some 0, .done, [.readAt, .acquire, .delete, .release, .release, .delete]) := by
    decide +kernel
  obtain ⟨s, hrun, hstate⟩ := Option.map_eq_some_iff.mp hend
  obtain ⟨hnumclear, hplace, huses⟩ : s.numclear = some 0 ∧ s.place = .done ∧
      s.uses = [.readAt, .acquire, .delete, .release, .release, .delete] := by
    simpa only [Prod.mk.injEq] using hstate
  have hdeleted : s.uses.count .delete = 2 := by
    rw [huses]
    decide
  refine ⟨s, hrun, ⟨0, hnumclear, by decide +kernel⟩, hplace, ?_, hdeleted, fun hclean => ?_⟩
  · rw [huses]
    decide
  · have hone := hclean.deleted
    rw [hdeleted] at hone
    cases hone

end Nachos.Constructor
