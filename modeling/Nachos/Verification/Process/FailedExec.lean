import Nachos.Verification.Process.Join

/-! # Failed starts

`Exec` of a program that cannot be started, from the call up to where neither the caller
nor the new process goes on. The checks of `ExecUpdate` before `GetFreeSlot` give the
semaphore back and leave nothing behind; no later failure clears the bit of the slot. -/

namespace Nachos

open Runs

/-- The stage at which the start fails. -/
inductive ExecFailure
  | notOpened
  | sameName
  | noSlot
  /-- the branch of `PCB::Exec` for `thread == NULL` -/
  | noThread
  /-- `AddrSpace(char*)` does not open the file -/
  | fileGone
  /-- `AddrSpace(char*)` finds too few clear frames for this header -/
  | noFrames (noffH : NoffHeader)
deriving DecidableEq, Repr

namespace ExecFailure

/-- The file that `AddrSpace(char*)` opens. -/
def file : ExecFailure → Option NoffHeader
  | .noFrames noffH => some noffH
  | _ => none

/-- The failures before `GetFreeSlot` returns a slot. -/
def early : ExecFailure → Bool
  | .notOpened | .sameName | .noSlot => true
  | _ => false

/-- The failure comes from the state in which `Exec` is called. -/
def Fits (k : Kernel) : ExecFailure → Prop
  | .notOpened | .sameName => True
  | .noSlot => ∀ i, k.bm.test i = true
  | .noThread | .fileGone => ∃ i, k.bm.test i = false
  | .noFrames noffH => (∃ i, k.bm.test i = false) ∧ noffH.noffMagic = noffMagic ∧
      k.gPhysPageBitMap.numClear < noffH.numPages

end ExecFailure

/-- A call of `Exec`, the thread that it would create, and how it fails. -/
structure Attempt where
  caller : Tid
  child : Tid
  filename : List Byte
  failure : ExecFailure

namespace Attempt

def tid (m : Attempt) : Party → Tid
  | .parent => m.caller
  | .child => m.child

/-- The input for the next step: the caller runs `Exec` up to its return, the new thread
loads its program and executes an instruction. -/
def input (m : Attempt) : Party → Mode → Option Input
  | .parent, .user => some (.exec m.filename)
  | .parent, .execOpen _ => some (.opened (m.failure ≠ .notOpened))
  | .parent, .execSlot _ => some (.sameName (m.failure = .sameName))
  | .parent, .execFork _ _ => some (.allocated (m.failure ≠ .noThread))
  | .parent, .execUnlock _ _ => some .go
  | .parent, .execDone _ => some .go
  | .child, .myStartProcess => some (.executable m.failure.file)
  | .child, .loading _ => some .go
  | .child, .outOfMemory => some .go
  | .child, .loaded => some .go
  | .child, .user => some .instr
  | _, _ => none

def step (m : Attempt) (k : Kernel) (party : Party) : Option Kernel :=
  (k.threads (m.tid party)).bind fun th =>
    (m.input party th.mode).bind fun i => k.step (m.tid party, i)

/-- A thread in user mode calls `Exec` while nobody else is inside `ExecUpdate` or loads a
program. -/
structure Begins (m : Attempt) (k : Kernel) : Prop where
  status : k.status = .running
  thread : ∃ th, k.threads m.caller = some th ∧ th.mode = .user ∧ th.asleep = false ∧
    th.space.pages ≠ 0
  child : m.child = k.nextTid
  fresh : k.threads k.nextTid = none
  bmsem : 0 < k.bmsem.value
  addrLock : k.addrLock.stat = .free

/-- After the steps `σ` from `k` to `k'` the start has left no trace. -/
structure NoTrace (m : Attempt) (k : Kernel) (σ : List Party) (k' : Kernel) : Prop where
  bm : ∀ i, k'.bm.test i = k.bm.test i
  pcb : k'.pcb = k.pcb
  bmsem : k'.bmsem.value = k.bmsem.value
  frames : ∀ i, k'.gPhysPageBitMap.test i = k.gPhysPageBitMap.test i
  /-- the new thread has executed no instruction -/
  no_instr : ∀ σ₁ σ₂ k₁ th, σ = σ₁ ++ .child :: σ₂ → exec m.step k σ₁ = some k₁ →
    k₁.threads m.child = some th → th.mode ≠ .user
  status : k'.status = .running

end Attempt

/-! ## Bits of the process table

Only `Remove` clears a bit. -/

namespace Kernel

variable (k : Kernel) (t : Tid)

@[simp] theorem bm_goto (mode : Mode) : (k.goto t mode).bm = k.bm := rfl

@[simp] theorem bm_setSpace (space : Space) : (k.setSpace t space).bm = k.bm := rfl

@[simp] theorem bm_stop (status : Status) : (k.stop status).bm = k.bm := rfl

@[simp] theorem bm_putPCB (a : Addr) (p : PCB) : (k.putPCB a p).bm = k.bm := rfl

@[simp] theorem bm_wake (u : Option Tid) : (k.wake u).bm = k.bm := by
  cases u <;> rfl

@[simp] theorem bm_bmsemV : k.bmsemV.bm = k.bm := by
  simp [bmsemV]

@[simp] theorem bm_releaseLock : (k.releaseLock t).bm = k.bm := by
  simp [releaseLock]

theorem bm_execUpdate (filename : List Byte) : (k.execUpdate t filename).bm = k.bm := by
  unfold execUpdate
  split <;> rfl

theorem bm_execOpen (filename : List Byte) (ok : Bool) :
    (k.execOpen t filename ok).bm = k.bm := by
  cases ok <;> simp [execOpen, execFail]

theorem bm_execFork (id : ℕ) (a : Addr) (ok : Bool) : (k.execFork t id a ok).bm = k.bm := by
  unfold execFork
  split
  · rfl
  · cases ok <;> simp

theorem bm_execUnlock (id : ℕ) (a : Addr) : (k.execUnlock t id a).bm = k.bm := by
  unfold execUnlock
  split <;> simp

theorem bm_execDone (result : ℤ) : (k.execDone t result).bm = k.bm := by
  simp [execDone]

theorem bm_openExecutable (file : Option NoffHeader) : (k.openExecutable t file).bm = k.bm := by
  unfold openExecutable
  split
  · rfl
  · split
    · rfl
    · split <;> rfl

theorem bm_myStartProcess (th : Thread) (file : Option NoffHeader) :
    (k.myStartProcess t th file).bm = k.bm := by
  unfold myStartProcess
  split
  · split
    · rfl
    · exact k.bm_openExecutable t file
  · rfl

theorem bm_loadPages (noffH : NoffHeader) : (k.loadPages t noffH).bm = k.bm := by
  unfold loadPages
  split <;> simp

theorem bm_loadEmpty : (k.loadEmpty t).bm = k.bm := by
  simp [loadEmpty]

theorem bm_execSlot {th : Thread} {filename : List Byte} {same : Bool} {i : Fin maxProcess}
    (h : k.bm.test i = true) : (k.execSlot t th filename same).bm.test i = true := by
  unfold execSlot
  cases same with
  | true => simpa [execFail] using h
  | false =>
      have hspec := k.bm.find_spec
      generalize k.bm.find = r at hspec ⊢
      cases hspec with
      | full _ => simpa [execFail] using h
      | found j _ _ =>
          have hne : ((j : ℕ) : ℤ) ≠ -1 := by omega
          simp only [Bool.false_eq_true, if_false, if_neg hne, BitMap.index?_coe]
          split
          · exact h
          · simp [h]

end Kernel

namespace Attempt

variable {m : Attempt} {k k' : Kernel} {party : Party} {σ : List Party}

theorem step_eq_some (h : m.step k party = some k') :
    ∃ th i, k.threads (m.tid party) = some th ∧ th.asleep = false ∧ k.status = .running ∧
      m.input party th.mode = some i ∧ k.modeStep (m.tid party) th i = some k' := by
  obtain ⟨th, hth, h⟩ := Option.bind_eq_some_iff.mp h
  obtain ⟨i, hi, h⟩ := Option.bind_eq_some_iff.mp h
  obtain ⟨th', hth', hstatus, hasleep, hmode⟩ := Kernel.step_eq_some h
  cases hth.symm.trans hth'
  exact ⟨th, i, hth, hasleep, hstatus, hi, hmode⟩

/-- No step of the two threads clears a bit of the table. -/
theorem test_of_step {i : Fin maxProcess} (h : m.step k party = some k')
    (htest : k.bm.test i = true) : k'.bm.test i = true := by
  obtain ⟨th, input, -, -, -, hinput, hmode⟩ := step_eq_some h
  have hsame : k'.bm = k.bm → k'.bm.test i = true := fun hbm => hbm ▸ htest
  generalize hm : th.mode = mode at hinput
  unfold Kernel.modeStep at hmode
  rw [hm] at hmode
  cases party with
  | parent =>
      cases mode with
      | user =>
          cases hinput
          dsimp only at hmode
          unfold Kernel.userStep at hmode
          split at hmode
          · cases hmode
            exact htest
          · cases hmode
            exact htest
          · split at hmode
            · cases hmode
              exact htest
            · cases hmode
              exact hsame (k.bm_execUpdate _ _)
      | execOpen filename =>
          cases hinput
          cases hmode
          exact hsame (k.bm_execOpen _ _ _)
      | execSlot filename =>
          cases hinput
          cases hmode
          exact k.bm_execSlot _ htest
      | execFork id a =>
          cases hinput
          cases hmode
          exact hsame (k.bm_execFork _ _ _ _)
      | execUnlock id a =>
          cases hinput
          cases hmode
          exact hsame (k.bm_execUnlock _ _ _)
      | execDone result =>
          cases hinput
          cases hmode
          exact hsame (k.bm_execDone _ _)
      | _ => cases hinput
  | child =>
      cases mode with
      | myStartProcess =>
          cases hinput
          cases hmode
          exact hsame (k.bm_myStartProcess _ _ _)
      | loading noffH =>
          cases hinput
          obtain rfl := Option.some.inj hmode
          exact hsame (k.bm_loadPages _ _)
      | outOfMemory =>
          cases hinput
          cases hmode
          exact hsame (k.bm_loadEmpty _)
      | loaded =>
          cases hinput
          cases hmode
          exact htest
      | user =>
          cases hinput
          dsimp only at hmode
          unfold Kernel.userStep at hmode
          split at hmode
          · cases hmode
            exact htest
          · cases hmode
            exact htest
          · split at hmode
            · cases hmode
              exact htest
            · cases hmode
              exact htest
      | _ => cases hinput

/-- The run has marked a slot or has broken off. -/
def Tainted (k₀ k : Kernel) : Prop :=
  (∃ i, k₀.bm.test i = false ∧ k.bm.test i = true) ∨ k.status ≠ .running

theorem tainted_of_exec {k₀ : Kernel} (h : exec m.step k σ = some k') (hk : Tainted k₀ k) :
    Tainted k₀ k' := by
  refine exec_keep (Tainted k₀) (fun _ => True) ?_ hk (fun _ _ => trivial) h
  rintro k party k' - htainted hstep
  rcases htainted with ⟨i, hclear, htest⟩ | hstatus
  · exact .inl ⟨i, hclear, test_of_step hstep htest⟩
  · obtain ⟨th, i, -, -, hrunning, -⟩ := step_eq_some hstep
    exact absurd hrunning hstatus

theorem not_noTrace_of_tainted {k₀ : Kernel} (hk : Tainted k₀ k) : ¬ m.NoTrace k₀ σ k := by
  intro h
  rcases hk with ⟨i, hclear, htest⟩ | hstatus
  · rw [h.bm i, hclear] at htest
    cases htest
  · exact hstatus h.status

/-! ## The caller up to `GetFreeSlot` -/

/-- The caller is in `mode`, nothing has been taken but, when `held`, the token of
`bmsem`. -/
structure Calling (m : Attempt) (k₀ : Kernel) (mode : Mode) (held : Bool) (k : Kernel) :
    Prop where
  status : k.status = .running
  thread : ∃ th, k.threads m.caller = some th ∧ th.mode = mode ∧ th.asleep = false ∧
    th.space.pages ≠ 0
  fresh : k.threads m.child = none
  bm : k.bm = k₀.bm
  pcb : k.pcb = k₀.pcb
  bmsem : k.bmsem.value + held.toNat = k₀.bmsem.value
  frames : k.gPhysPageBitMap = k₀.gPhysPageBitMap

theorem Begins.calling (h : m.Begins k) : m.Calling k .user false k :=
  ⟨h.status, h.thread, h.child ▸ h.fresh, rfl, rfl, rfl, rfl⟩

namespace Calling

variable {k₀ : Kernel} {mode : Mode} {held : Bool}

theorem distinct (h : m.Calling k₀ mode held k) : m.caller ≠ m.child := by
  intro heq
  obtain ⟨th, hth, -⟩ := h.thread
  cases (heq ▸ h.fresh).symm.trans hth

theorem child_step (h : m.Calling k₀ mode held k) : m.step k .child = none := by
  simp [step, tid, h.fresh]

theorem goto (h : m.Calling k₀ mode held k) (mode' : Mode) :
    m.Calling k₀ mode' held (k.goto m.caller mode') := by
  obtain ⟨th, hth, -, hasleep, hpages⟩ := h.thread
  refine ⟨h.status, ⟨{ th with mode := mode' }, ?_, rfl, hasleep, hpages⟩, ?_, h.bm, h.pcb,
    h.bmsem, h.frames⟩
  · simp [Kernel.goto, Kernel.modifyThread, hth]
  · simp [Kernel.goto, Kernel.modifyThread, h.distinct.symm, h.fresh]

theorem wake (h : m.Calling k₀ mode held k) (u : Option Tid) :
    m.Calling k₀ mode held (k.wake u) := by
  cases u with
  | none => exact h
  | some u =>
      obtain ⟨th, hth, hmode, hasleep, hpages⟩ := h.thread
      have hthread : ∃ th', (k.wake (some u)).threads m.caller = some th' ∧ th'.mode = mode ∧
          th'.asleep = false ∧ th'.space.pages ≠ 0 := by
        by_cases hu : m.caller = u
        · subst hu
          exact ⟨{ th with asleep := false }, by simp [Kernel.wake, Kernel.modifyThread, hth],
            hmode, rfl, hpages⟩
        · exact ⟨th, by simp [Kernel.wake, Kernel.modifyThread, hu, hth], hmode, hasleep, hpages⟩
      refine ⟨h.status, hthread, ?_, h.bm, h.pcb, h.bmsem, h.frames⟩
      by_cases hu : m.child = u
      · subst hu
        simp [Kernel.wake, Kernel.modifyThread, h.fresh]
      · simp [Kernel.wake, Kernel.modifyThread, hu, h.fresh]

theorem execFail (h : m.Calling k₀ mode true k) :
    m.Calling k₀ (.returned (-1)) false (k.execFail m.caller) := by
  have hv : m.Calling k₀ mode false { k with bmsem := k.bmsem.v.1 } := by
    refine ⟨h.status, h.thread, h.fresh, h.bm, h.pcb, ?_, h.frames⟩
    have hvalue := h.bmsem
    simpa using hvalue
  exact goto (wake hv _) _

theorem parent_step (h : m.Calling k₀ mode held k) {i : Input}
    (hi : m.input .parent mode = some i) :
    ∃ th, th.mode = mode ∧ th.space.pages ≠ 0 ∧
      m.step k .parent = k.modeStep m.caller th i := by
  obtain ⟨th, hth, rfl, hasleep, hpages⟩ := h.thread
  refine ⟨th, rfl, hpages, ?_⟩
  simp [step, tid, hth, hi, Kernel.step, h.status, hasleep]

/-- `ExecUpdate` takes the token of `bmsem`. -/
theorem call (h : m.Calling k₀ .user false k) (hvalue : 0 < k₀.bmsem.value) :
    ∃ k', m.step k .parent = some k' ∧ m.Calling k₀ (.execOpen m.filename) true k' := by
  obtain ⟨th, hmode, hpages, hstep⟩ := h.parent_step (i := .exec m.filename) rfl
  refine ⟨_, hstep.trans (Kernel.modeStep_user hmode hpages _), ?_⟩
  have hpos : k.bmsem.value ≠ 0 := by
    have hbmsem := h.bmsem
    simp only [Bool.toNat_false] at hbmsem
    omega
  have hp : k.bmsem.p m.caller = ({ k.bmsem with value := k.bmsem.value - 1 }, true) := by
    simp [Semaphore.p, hpos]
  have htaken : m.Calling k₀ .user true
      { k with bmsem := { k.bmsem with value := k.bmsem.value - 1 } } := by
    refine ⟨h.status, h.thread, h.fresh, h.bm, h.pcb, ?_, h.frames⟩
    have hbmsem := h.bmsem
    simp only [Bool.toNat_false, Bool.toNat_true] at hbmsem ⊢
    omega
  simp only [Kernel.execUpdate, hp]
  exact htaken.goto _

theorem refused_open (h : m.Calling k₀ (.execOpen m.filename) true k)
    (hfail : m.failure = .notOpened) :
    ∃ k', m.step k .parent = some k' ∧ m.Calling k₀ (.returned (-1)) false k' := by
  obtain ⟨th, hmode, -, hstep⟩ := h.parent_step (i := .opened false) (by simp [input, hfail])
  have hresult : k.modeStep m.caller th (.opened false) =
      some (k.execOpen m.caller m.filename false) := by
    simp only [Kernel.modeStep, hmode]
  refine ⟨_, hstep.trans hresult, ?_⟩
  exact h.execFail

theorem opened (h : m.Calling k₀ (.execOpen m.filename) true k) (hfail : m.failure ≠ .notOpened) :
    ∃ k', m.step k .parent = some k' ∧ m.Calling k₀ (.execSlot m.filename) true k' := by
  obtain ⟨th, hmode, -, hstep⟩ := h.parent_step (i := .opened true) (by simp [input, hfail])
  have hresult : k.modeStep m.caller th (.opened true) =
      some (k.execOpen m.caller m.filename true) := by
    simp only [Kernel.modeStep, hmode]
  refine ⟨_, hstep.trans hresult, ?_⟩
  exact h.goto _

/-- The caller names its own program, or every slot is in use. -/
theorem refused_slot (h : m.Calling k₀ (.execSlot m.filename) true k)
    (hfail : m.failure = .sameName ∨ ∀ i, k₀.bm.test i = true) :
    ∃ k', m.step k .parent = some k' ∧ m.Calling k₀ (.returned (-1)) false k' := by
  obtain ⟨th, hmode, -, hstep⟩ := h.parent_step (i := .sameName (m.failure = .sameName)) rfl
  have hrefused : k.modeStep m.caller th (.sameName (m.failure = .sameName)) =
      some (k.execFail m.caller) := by
    simp only [Kernel.modeStep, hmode, Kernel.execSlot]
    by_cases hsame : m.failure = .sameName
    · simp [hsame]
    · have hfull := hfail.resolve_left hsame
      have hspec := k.bm.find_spec
      generalize k.bm.find = r at hspec ⊢
      cases hspec with
      | full _ => simp [hsame]
      | found j hclear _ =>
          rw [h.bm, hfull j] at hclear
          cases hclear
  refine ⟨_, hstep.trans hrefused, ?_⟩
  exact h.execFail

/-- A slot is found and marked, or the name does not fit into the PCB. -/
theorem slot (h : m.Calling k₀ (.execSlot m.filename) true k) (hname : m.failure ≠ .sameName)
    (hslot : ∃ i, k₀.bm.test i = false) :
    ∃ k', m.step k .parent = some k' ∧ Tainted k₀ k' := by
  obtain ⟨th, hmode, -, hstep⟩ :=
    h.parent_step (i := .sameName false) (by simp [input, hname])
  have hresult : k.modeStep m.caller th (.sameName false) =
      some (k.execSlot m.caller th m.filename false) := by
    simp only [Kernel.modeStep, hmode]
  refine ⟨_, hstep.trans hresult, ?_⟩
  unfold Kernel.execSlot
  have hspec := k.bm.find_spec
  generalize k.bm.find = r at hspec ⊢
  cases hspec with
  | full hfull =>
      obtain ⟨i, hi⟩ := hslot
      rw [← h.bm, hfull i] at hi
      cases hi
  | found j hclear _ =>
      have hne : ((j : ℕ) : ℤ) ≠ -1 := by omega
      simp only [Bool.false_eq_true, if_false, if_neg hne, BitMap.index?_coe]
      split
      · right
        intro hmode
        cases hmode
      · left
        exact ⟨j, h.bm ▸ hclear, by simp⟩

theorem returned (h : m.Calling k₀ (.returned (-1)) false k) (party : Party) :
    m.step k party = none := by
  cases party with
  | parent =>
      obtain ⟨th, hth, hmode, -⟩ := h.thread
      simp [step, tid, hth, hmode, input]
  | child => exact h.child_step

end Calling

/-! ## Complete runs -/

/-- Where only the caller can go on, a complete run goes on with it. -/
theorem exec_of_forced {k₁ : Kernel} (hparent : m.step k .parent = some k₁)
    (hchild : m.step k .child = none) (hexec : exec m.step k σ = some k')
    (hend : ∀ party, m.step k' party = none) :
    ∃ σ₁, σ = .parent :: σ₁ ∧ exec m.step k₁ σ₁ = some k' := by
  cases σ with
  | nil =>
      cases hexec
      cases (hend .parent).symm.trans hparent
  | cons party σ =>
      obtain ⟨k₂, hstep, hrest⟩ := Option.bind_eq_some_iff.mp hexec
      cases party with
      | parent =>
          cases hparent.symm.trans hstep
          exact ⟨σ, rfl, hrest⟩
      | child => cases hchild.symm.trans hstep

theorem exec_of_stuck (hstuck : ∀ party, m.step k party = none)
    (hexec : exec m.step k σ = some k') : σ = [] ∧ k = k' := by
  cases σ with
  | nil => exact ⟨rfl, Option.some.inj hexec⟩
  | cons party σ =>
      obtain ⟨k₁, hstep, -⟩ := Option.bind_eq_some_iff.mp hexec
      cases (hstuck party).symm.trans hstep

theorem Calling.noTrace {k₀ : Kernel} (h : m.Calling k₀ (.returned (-1)) false k)
    (hσ : .child ∉ σ) : m.NoTrace k₀ σ k where
  bm i := by rw [h.bm]
  pcb := h.pcb
  bmsem := h.bmsem
  frames i := by rw [h.frames]
  no_instr σ₁ σ₂ k₁ th hsplit := by
    rw [hsplit] at hσ
    exact absurd (List.mem_append_right σ₁ List.mem_cons_self) hσ
  status := h.status

/-- For every failed `Exec` and every order of the steps of the caller and the new thread,
the start leaves no trace exactly when it fails before `GetFreeSlot` returns a slot. -/
theorem noTrace_iff (h : m.Begins k) (hfits : m.failure.Fits k)
    (hexec : exec m.step k σ = some k') (hend : ∀ party, m.step k' party = none) :
    m.NoTrace k σ k' ↔ m.failure.early = true := by
  obtain ⟨k₁, hstep₁, hcall₁⟩ := h.calling.call h.bmsem
  obtain ⟨σ₁, rfl, hexec₁⟩ := exec_of_forced hstep₁ h.calling.child_step hexec hend
  by_cases hopen : m.failure = .notOpened
  · obtain ⟨k₂, hstep₂, hcall₂⟩ := hcall₁.refused_open hopen
    obtain ⟨σ₂, rfl, hexec₂⟩ := exec_of_forced hstep₂ hcall₁.child_step hexec₁ hend
    obtain ⟨rfl, rfl⟩ := exec_of_stuck hcall₂.returned hexec₂
    apply iff_of_true (hcall₂.noTrace (by simp))
    rw [hopen]
    rfl
  obtain ⟨k₂, hstep₂, hcall₂⟩ := hcall₁.opened hopen
  obtain ⟨σ₂, rfl, hexec₂⟩ := exec_of_forced hstep₂ hcall₁.child_step hexec₁ hend
  have hrefused : (m.failure = .sameName ∨ ∀ i, k.bm.test i = true) →
      m.NoTrace k (.parent :: .parent :: σ₂) k' := by
    intro hfail
    obtain ⟨k₃, hstep₃, hcall₃⟩ := hcall₂.refused_slot hfail
    obtain ⟨σ₃, rfl, hexec₃⟩ := exec_of_forced hstep₃ hcall₂.child_step hexec₂ hend
    obtain ⟨rfl, rfl⟩ := exec_of_stuck hcall₃.returned hexec₃
    exact hcall₃.noTrace (by simp)
  have hmarked : m.failure ≠ .sameName → (∃ i, k.bm.test i = false) →
      ¬ m.NoTrace k (.parent :: .parent :: σ₂) k' := by
    intro hname hslot
    obtain ⟨k₃, hstep₃, htainted⟩ := hcall₂.slot hname hslot
    obtain ⟨σ₃, rfl, hexec₃⟩ := exec_of_forced hstep₃ hcall₂.child_step hexec₂ hend
    exact not_noTrace_of_tainted (tainted_of_exec hexec₃ htainted)
  cases hfailure : m.failure with
  | notOpened => exact absurd hfailure hopen
  | sameName => exact iff_of_true (hrefused (.inl hfailure)) rfl
  | noSlot =>
      rw [hfailure] at hfits
      exact iff_of_true (hrefused (.inr hfits)) rfl
  | noThread =>
      rw [hfailure] at hfits hmarked
      exact iff_of_false (hmarked nofun hfits) nofun
  | fileGone =>
      rw [hfailure] at hfits hmarked
      exact iff_of_false (hmarked nofun hfits) nofun
  | noFrames noffH =>
      rw [hfailure] at hfits hmarked
      exact iff_of_false (hmarked nofun hfits.1) nofun

/-- The main program is in user mode and has started nothing. -/
def alone : Kernel :=
  (exec Kernel.step Kernel.boot (Kernel.loadRun 0)).getD Kernel.boot

/-- The main program calls `Exec("A")`. -/
def attempt (failure : ExecFailure) : Attempt :=
  ⟨0, 1, chars "A", failure⟩

theorem alone_begins (failure : ExecFailure) : (attempt failure).Begins alone := by
  have hthread : alone.threads 0 =
      some ⟨0, .user, false, .built (.ofFrames [0, 1, 2]), false⟩ := by decide +kernel
  have hfresh : alone.threads alone.nextTid = none := by decide +kernel
  have hnext : alone.nextTid = 1 := by decide +kernel
  have hvalue : 0 < alone.bmsem.value := by decide +kernel
  have hlock : alone.addrLock.stat = .free := by decide +kernel
  have hstatus : alone.status = .running := by decide +kernel
  generalize alone = k at hthread hfresh hnext hvalue hlock hstatus ⊢
  exact ⟨hstatus, ⟨_, hthread, rfl, rfl, Nat.succ_ne_zero 2⟩, hnext.symm, hfresh, hvalue, hlock⟩

/-- The file cannot be opened. -/
theorem noTrace_of_notOpened : ∃ k',
    exec (attempt .notOpened).step alone [.parent, .parent] = some k' ∧
      (attempt .notOpened).NoTrace alone [.parent, .parent] k' := by
  have hsome : ((exec (attempt .notOpened).step alone [.parent, .parent]).map fun k =>
      (((attempt .notOpened).step k .parent).isNone,
        ((attempt .notOpened).step k .child).isNone)) = some (true, true) := by
    decide +kernel
  obtain ⟨k', hexec, hend⟩ := Option.map_eq_some_iff.mp hsome
  simp only [Prod.mk.injEq, Option.isNone_iff_eq_none] at hend
  have hstop : ∀ party, (attempt .notOpened).step k' party = none := Party.forall hend.1 hend.2
  exact ⟨k', hexec, (noTrace_iff (alone_begins .notOpened) trivial hexec hstop).mpr rfl⟩

/-- An executable of 139 pages. -/
def bigProgram : NoffHeader :=
  ⟨noffMagic, ⟨0, 40, 70000⟩, ⟨0, 0, 0⟩, ⟨0, 0, 0⟩⟩

/-- `Exec` returns the number of a process that cannot be loaded; the process fetches an
instruction and this halts the machine. -/
theorem noFrames_halts :
    (attempt (.noFrames bigProgram)).Begins alone ∧
      (ExecFailure.noFrames bigProgram).Fits alone ∧
      ∃ k', exec (attempt (.noFrames bigProgram)).step alone
          (List.replicate 6 .parent ++ List.replicate 5 .child) = some k' ∧
        (∀ party, (attempt (.noFrames bigProgram)).step k' party = none) ∧
        ¬ (attempt (.noFrames bigProgram)).NoTrace alone
          (List.replicate 6 .parent ++ List.replicate 5 .child) k' := by
  have hsome : ((exec (attempt (.noFrames bigProgram)).step alone
      (List.replicate 6 .parent ++ List.replicate 5 .child)).map fun k =>
      (((attempt (.noFrames bigProgram)).step k .parent).isNone,
        ((attempt (.noFrames bigProgram)).step k .child).isNone, k.status)) =
      some (true, true, .halted) := by
    decide +kernel
  obtain ⟨k', hexec, hend⟩ := Option.map_eq_some_iff.mp hsome
  simp only [Prod.mk.injEq, Option.isNone_iff_eq_none] at hend
  have hstop : ∀ party, (attempt (.noFrames bigProgram)).step k' party = none :=
    Party.forall hend.1 hend.2.1
  have hfits : (ExecFailure.noFrames bigProgram).Fits alone :=
    ⟨⟨⟨1, by decide⟩, by decide +kernel⟩, rfl, by decide +kernel⟩
  refine ⟨alone_begins _, hfits, k', hexec, hstop, fun htrace => ?_⟩
  cases hend.2.2.symm.trans htrace.status

end Attempt

end Nachos
