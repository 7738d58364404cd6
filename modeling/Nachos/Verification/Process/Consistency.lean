import Nachos.Verification.Process.Ownership

/-! # The two records of a slot in use

`bm` and `pcb[]` agree until the first `Remove`, which clears the bit and deletes the
object but keeps the pointer. -/

namespace Nachos

open Runs

/-! ## Steps that remove -/

namespace Table

/-- The step executes `Remove`. -/
def Removes (s : Table) (t : Tid) (i : Input) : Prop :=
  ∃ q, s.procs t = some q ∧
    ((∃ pID, q.activity = .exitRemove pID) ∨
      ∃ ec a e, i = .exit ec ∧ s.Exits q a e ∧ e.joinStatus = -1)

/-- A join in progress names an address that has been used and a slot that has been used. -/
def Names (s : Table) : Activity → Prop
  | .joinWait pID a => a < s.nextAddr ∧ ∃ b, s.slot pID = some b
  | .joinCode pID _ => ∃ b, s.slot pID = some b
  | _ => True

/-- The table while nothing has been removed. -/
structure Unremoved (s : Table) : Prop where
  own : s.Own
  live : ∀ a < s.nextAddr, ∃ e, s.entries a = some e
  clear : ∀ i, s.marked i = false → s.slot i = none
  running : ∀ u q, s.procs u = some q → q.exited = false
  names : ∀ u q, s.procs u = some q → s.Names q.activity

namespace Unremoved

variable {s s' : Table} {t : Tid} {q : Proc} {i : Input}

/-- A step that leaves slots, entries and processes alone but for what `t` is doing. -/
theorem congr (h : Unremoved s) (hown : s'.Own) (halike : Alike s s')
    (hnames : ∀ u r, s'.procs u = some r → s.Names r.activity) : Unremoved s' where
  own := hown
  live a ha := by
    rw [halike.nextAddr] at ha
    obtain ⟨e, he⟩ := h.live a ha
    obtain ⟨e', he', -⟩ := halike.symm.entry he
    exact ⟨e', he'⟩
  clear i hi := by
    rw [halike.marked] at hi
    rw [halike.slot]
    exact h.clear i hi
  running u r hu := by
    obtain ⟨q, hq, -, hexited⟩ := halike.proc hu
    exact hexited ▸ h.running u q hq
  names u r hu := by
    have hr := hnames u r hu
    generalize r.activity = x at hr ⊢
    cases x with
    | joinWait pID a => exact ⟨halike.nextAddr ▸ hr.1, halike.slot ▸ hr.2⟩
    | joinCode pID a =>
        rw [Names, halike.slot]
        exact hr
    | _ => trivial

theorem act (h : Unremoved s) (hq : s.procs t = some q) {x : Activity} (hown : (s'.act t x).Own)
    (halike : Alike s s') (hprocs : s'.procs = s.procs) (hx : s.Names x) :
    Unremoved (s'.act t x) := by
  apply h.congr hown (halike.trans (.act s' t x))
  intro u r hu
  rw [procs_act (hprocs ▸ hq), hprocs] at hu
  rcases update_eq_some_iff.mp hu with ⟨-, rfl⟩ | ⟨-, hu⟩
  · exact hx
  · exact h.names u r hu

theorem load (h : Unremoved s) (hq : s.procs t = some q) {n : ℕ} {x : Activity}
    (hown : (s.load t n x).Own) (hx : s.Names x) : Unremoved (s.load t n x) := by
  apply h.congr hown (.load s t n x)
  intro u r hu
  simp only [Table.load, hq] at hu
  rcases update_eq_some_iff.mp hu with ⟨-, rfl⟩ | ⟨-, hu⟩
  · exact hx
  · exact h.names u r hu

theorem newEntry (h : Unremoved s) {j : ℕ} (hclear : s.marked j = false) (t : Tid)
    (parentID : ℕ) : Unremoved (s.newEntry j t parentID) where
  own := h.own.newEntry hclear t parentID
  live a ha := by
    by_cases hnew : a = s.nextAddr
    · subst hnew
      exact ⟨_, Function.update_self ..⟩
    · have hlt : a < s.nextAddr := lt_of_le_of_ne (Nat.lt_succ_iff.mp ha) hnew
      obtain ⟨e, he⟩ := h.live a hlt
      exact ⟨e, update_eq_some_iff.mpr (.inr ⟨hnew, he⟩)⟩
  clear i hi := by
    by_cases hij : i = j
    · subst hij
      simp [Table.newEntry] at hi
    · simp only [Table.newEntry, Function.update_of_ne hij] at hi ⊢
      exact h.clear i hi
  running := h.running
  names u r hu := by
    have hslot : ∀ pID, (∃ b, s.slot pID = some b) →
        ∃ b, (s.newEntry j t parentID).slot pID = some b := by
      rintro pID ⟨b, hb⟩
      by_cases hij : pID = j
      · subst hij
        exact ⟨_, Function.update_self ..⟩
      · exact ⟨b, update_eq_some_iff.mpr (.inr ⟨hij, hb⟩)⟩
    have hr := h.names u r hu
    generalize r.activity = x at hr ⊢
    cases x with
    | joinWait pID a => exact ⟨Nat.lt_succ_of_lt hr.1, hslot pID hr.2⟩
    | joinCode pID a => exact hslot pID hr
    | _ => trivial

theorem fork (h : Unremoved s) (hq : s.procs t = some q) {j : ℕ} {a : Addr} {e : Entry}
    (hown : ((s.newProc j a e).act t .kernel).Own) :
    Unremoved ((s.newProc j a e).act t .kernel) := by
  have hne : t ≠ s.nextTid := (h.own.tid t q hq).ne
  have hq' : (s.newProc j a e).procs t = some q :=
    update_eq_some_iff.mpr (.inr ⟨hne, hq⟩)
  have hproc : ∀ u r, ((s.newProc j a e).act t .kernel).procs u = some r →
      r.exited = false ∧ s.Names r.activity := by
    intro u r hu
    rw [procs_act hq'] at hu
    rcases update_eq_some_iff.mp hu with ⟨-, rfl⟩ | ⟨-, hu⟩
    · exact ⟨h.running t q hq, trivial⟩
    · rcases update_eq_some_iff.mp hu with ⟨-, rfl⟩ | ⟨-, hu⟩
      · exact ⟨rfl, trivial⟩
      · exact ⟨h.running u r hu, h.names u r hu⟩
  refine ⟨hown, ?_, h.clear, fun u r hu => (hproc u r hu).1, fun u r hu => (hproc u r hu).2⟩
  intro b hb
  by_cases hba : b = a
  · subst hba
    exact ⟨_, Function.update_self ..⟩
  · obtain ⟨e', he'⟩ := h.live b hb
    exact ⟨e', update_eq_some_iff.mpr (.inr ⟨hba, he'⟩)⟩

theorem joinTest (h : Unremoved s) (hq : s.procs t = some q) {pID : ℕ} {a : Addr} {e e' : Entry}
    (hown : (s.joinTest t pID a e').Own) (ha : s.entries a = some e)
    (hident : e'.ident = e.ident) (hslot : ∃ b, s.slot pID = some b) :
    Unremoved (s.joinTest t pID a e') := by
  obtain ⟨e₁, x, hident₁, hx, heq⟩ := s.joinTest_eq t pID a e'
  rw [heq] at hown ⊢
  apply h.act hq hown (.put ha (hident₁.trans hident)) rfl
  rcases hx with rfl | rfl
  · exact ⟨h.own.addr a e ha, hslot⟩
  · exact hslot

theorem exitTest (h : Unremoved s) (hq : s.procs t = some q) {pID : ℕ} {a : Addr} {e : Entry}
    (hown : (s.exitTest t pID a e).Own) (ha : s.entries a = some e) :
    Unremoved (s.exitTest t pID a e) := by
  obtain ⟨e₁, x, hident, hx, heq⟩ := s.exitTest_eq t pID a e
  rw [heq] at hown ⊢
  apply h.act hq hown (.put ha hident) rfl
  rcases hx with rfl | rfl
  · trivial
  · trivial

/-- Every step that is not a `Remove` keeps the table in this state. -/
theorem step (h : Unremoved s) (hremove : ¬ s.Removes t i) (hstep : s.Step t i s') :
    Unremoved s' := by
  have hown := h.own.step hstep
  rcases hstep with rfl | ⟨q, hq, -, hmove⟩
  · exact h
  cases hmove with
  | settle i x here next =>
      apply h.act hq hown (.refl s) rfl
      rcases next with rfl | rfl
      · trivial
      · trivial
  | wait i here => exact h.act hq hown (.refl s) rfl trivial
  | load i n x here next =>
      apply h.load hq hown
      rcases next with rfl | rfl
      · trivial
      · trivial
  | create j parentID here range clear least =>
      exact (h.newEntry clear t parentID).act hq hown (.refl _) rfl trivial
  | fork j a e here entry => exact h.fork hq hown
  | abandon j a here => exact h.act hq hown (.refl s) rfl trivial
  | join pID a e here pages range slot entry parent =>
      exact h.joinTest hq hown entry rfl ⟨a, slot⟩
  | joinAgain pID a e here entry =>
      have hname := h.names t q hq
      rw [here] at hname
      exact h.joinTest hq hown entry rfl hname.2
  | joinFail pID a b e here slot entry code => exact h.act hq hown (.refl s) rfl trivial
  | joinDone pID a b e here slot entry code =>
      refine h.act hq hown (.put entry ?_) rfl trivial
      rfl
  | exit ec a e call joined =>
      refine h.act hq hown (.put call.entry ?_) rfl trivial
      rfl
  | exitWait pID a e here slot entry => exact h.exitTest hq hown entry
  | exitAgain pID a e here entry => exact h.exitTest hq hown entry
  | exitAlone ec a e call alone =>
      exact absurd ⟨q, hq, .inr ⟨ec, a, e, rfl, call, alone⟩⟩ hremove
  | exitRemove pID here => exact absurd ⟨q, hq, .inl ⟨pID, here⟩⟩ hremove

end Unremoved

end Table

namespace Kernel

/-- The next step of the thread executes `PTable::Remove`: the thread has come out of
`ExitWait`, or a process other than 0 that nobody has joined calls `Exit`. -/
def Removes (k : Kernel) (label : Tid × Input) : Prop :=
  ∃ th, k.threads label.1 = some th ∧
    ((∃ pID ec, th.mode = .exitRemove pID ec) ∨
      ∃ ec a p, label.2 = .exit ec ∧ th.mode = .user ∧ th.space.pages ≠ 0 ∧
        th.processID ≠ 0 ∧ k.isExist th.processID = true ∧
        k.deref th.processID = some (a, p) ∧ p.joinStatus = -1)

variable {k k' : Kernel} {label : Tid × Input} {th : Thread}

theorem mode_of_exitRemove {mode : Mode} {pID : ℕ} (h : mode.activity = .exitRemove pID) :
    ∃ ec, mode = .exitRemove pID ec := by
  cases mode <;> simp only [Mode.activity, reduceCtorEq, Activity.exitRemove.injEq] at h
  subst h
  exact ⟨_, rfl⟩

theorem mode_of_user {mode : Mode} (h : mode.activity = .user) : mode = .user := by
  cases mode <;> simp only [Mode.activity, reduceCtorEq] at h
  rfl

theorem removes_of_view (h : k.view.Removes label.1 label.2) : k.Removes label := by
  obtain ⟨q, hq, h⟩ := h
  obtain ⟨th, hth, rfl⟩ := Option.map_eq_some_iff.mp hq
  refine ⟨th, hth, ?_⟩
  rcases h with ⟨pID, hact⟩ | ⟨ec, a, e, hi, hcall, halone⟩
  · obtain ⟨ec, hmode⟩ := mode_of_exitRemove hact
    exact .inl ⟨pID, ec, hmode⟩
  · obtain ⟨p, hp, rfl⟩ := Option.map_eq_some_iff.mp hcall.entry
    exact .inr ⟨ec, a, p, hi, mode_of_user hcall.user, hcall.pages, hcall.child, hcall.marked,
      deref_eq_some.mpr ⟨hcall.slot, hp⟩, halone⟩

theorem disciplined_of_running (h : k.view.Unremoved) : Disciplined k label := by
  intro hexited
  obtain ⟨th, hth, hexited⟩ := Option.map_eq_some_iff.mp hexited
  have hrun := h.running _ _ (procs_of_threads hth)
  rw [show th.exited = false from hrun] at hexited
  cases hexited

/-- What a step with `Remove` does to a consistent table: the bit is cleared, the pointer
stays, and the thread goes back to its user program. -/
structure Removed (k k' : Kernel) (t : Tid) (th : Thread) (i : Fin maxProcess) (a : Addr) :
    Prop where
  thread : k.threads t = some th
  asleep : th.asleep = false
  pos : 0 < i.val
  slot : k.pcb i = some a
  bm : k'.bm = k.bm.clear i
  pcb : k'.pcb = k.pcb
  frames : k'.gPhysPageBitMap = k.gPhysPageBitMap
  nextTid : k'.nextTid = k.nextTid
  threads : k'.threads =
    Function.update k.threads t (some { th with mode := .user, exited := true })
  status : k'.status = .running

theorem removed_removeSelf {t : Tid} {i : Fin maxProcess} {a : Addr} {p : PCB}
    (hth : k.threads t = some th) (hasleep : th.asleep = false) (hstatus : k.status = .running)
    (hpos : 0 < i.val) (htest : k.bm.test i = true) (hslot : k.pcb i = some a)
    (hheap : k.heap a = some p) : Removed k (k.removeSelf t i) t th i a := by
  have hremove := remove_of_live k htest hslot hheap
  refine ⟨hth, hasleep, hpos, hslot, ?_, ?_, ?_, ?_, ?_, ?_⟩
  all_goals simp [removeSelf, modifyThread, hremove, hth, hstatus]

/-- With pages, a thread in user mode executes its instruction. -/
theorem modeStep_user {t : Tid} (huser : th.mode = .user) (hpages : th.space.pages ≠ 0)
    (i : Input) :
    k.modeStep t th i =
      match i with
      | .instr => some k
      | .trap => some (k.stop .halted)
      | .exec filename => some (k.execUpdate t filename)
      | .join pID => some (k.joinUpdate t th pID)
      | .exit ec => some (k.exitUpdate t th ec)
      | _ => none := by
  cases hspace : th.space with
  | null => exact absurd (by rw [hspace]; rfl) hpages
  | unset => exact absurd (by rw [hspace]; rfl) hpages
  | built space =>
      have hne : space.numPages ≠ 0 := by
        rw [hspace] at hpages
        exact hpages
      cases i <;> simp only [modeStep, huser, userStep, hspace, if_neg hne]

/-- `Exit` of a process that nobody joins. -/
theorem exitUpdate_alone {t : Tid} {a : Addr} {p : PCB} {ec : ℤ} (hchild : th.processID ≠ 0)
    (hexist : k.isExist th.processID = true) (hderef : k.deref th.processID = some (a, p))
    (halone : p.joinStatus = -1) :
    k.exitUpdate t th ec =
      (k.putPCB a { p with exitcode := ec }).removeSelf t th.processID := by
  simp [exitUpdate, hexist, hchild, hderef, halone]

theorem removed_of_removes (h : k.step label = some k') (hremoves : k.Removes label)
    (hinv : k.view.Unremoved) : ∃ th i a, Removed k k' label.1 th i a := by
  obtain ⟨t, input⟩ := label
  obtain ⟨th, hth, hstatus, hasleep, hmode⟩ := step_eq_some h
  obtain ⟨th', hth', hkind⟩ := hremoves
  rw [hth] at hth'
  cases hth'
  have hproc := procs_of_threads hth
  rcases hkind with ⟨pID, ec, hexit⟩ |
    ⟨ec, a, p, rfl, huser, hpages, hchild, hexist, hderef, halone⟩
  · have hfits := hinv.own.fits t _ hproc
    rw [show th.proc.activity = .exitRemove pID from congrArg Mode.activity hexit] at hfits
    obtain ⟨-, rfl, hne⟩ := hfits
    obtain ⟨a, e, hslot, hentry, -, -, hmarked⟩ :=
      hinv.own.entry_of_proc hproc (hinv.running t _ hproc) hne
    obtain ⟨p, hheap, -⟩ := Option.map_eq_some_iff.mp hentry
    have hlt := lt_of_isExist k hmarked
    have htest : k.bm.test ⟨_, hlt⟩ = true := (isExist_eq_test k hlt).symm.trans hmarked
    have hk' : k' = k.removeSelf t th.processID := by
      unfold modeStep at hmode
      rw [hexit] at hmode
      cases input with
      | go => exact (Option.some.inj hmode).symm
      | _ => cases hmode
    rw [hk']
    exact ⟨th, ⟨_, hlt⟩, a, removed_removeSelf hth hasleep hstatus (Nat.pos_of_ne_zero hne) htest
      hslot hheap⟩
  · obtain ⟨hslot, hheap⟩ := deref_eq_some.mp hderef
    have hlt := lt_of_isExist k hexist
    have htest : k.bm.test ⟨_, hlt⟩ = true := (isExist_eq_test k hlt).symm.trans hexist
    rw [modeStep_user huser hpages] at hmode
    dsimp only at hmode
    rw [exitUpdate_alone hchild hexist hderef halone] at hmode
    cases hmode
    have hremoved := removed_removeSelf (k := k.putPCB a { p with exitcode := ec })
      (i := ⟨_, hlt⟩) hth hasleep hstatus (Nat.pos_of_ne_zero hchild) htest hslot
      (Function.update_self ..)
    exact ⟨th, ⟨_, hlt⟩, a, hremoved.thread, hremoved.asleep, hremoved.pos, hremoved.slot,
      hremoved.bm, hremoved.pcb, hremoved.frames, hremoved.nextTid, hremoved.threads,
      hremoved.status⟩

/-! ## The invariant of the table -/

/-- The PCB that a thread in the middle of `JoinUpdate` or `ExitUpdate` goes on to use is
allocated: it holds the object, or will fetch it from its slot. -/
def InUse (k : Kernel) : Mode → Prop
  | .joinWait _ a => k.heap a ≠ none
  | .joinCode pID _ => k.deref pID ≠ none
  | .exitRelease pID _ => k.deref pID ≠ none
  | .exitWait _ a _ => k.heap a ≠ none
  | .exitRemove pID _ => k.deref pID ≠ none
  | _ => True

/-- For the slots 1 to 9, the bit, the pointer and the object agree, and no pointer that
is in the table or in use is dangling. -/
structure TableOK (k : Kernel) : Prop where
  marked_iff : ∀ i : Fin maxProcess, 0 < i.val →
    (k.bm.test i = true ↔ ∃ a p, k.pcb i = some a ∧ k.heap a = some p ∧ p.pid = i)
  clear_iff : ∀ i : Fin maxProcess, 0 < i.val → (k.bm.test i = false ↔ k.pcb i = none)
  no_dangling : ∀ i a, k.pcb i = some a → k.heap a ≠ none
  in_use : ∀ t th, k.threads t = some th → k.InUse th.mode

theorem heap_ne_none {a : Addr} : k.heap a ≠ none ↔ ∃ e, k.view.entries a = some e := by
  simp [view, Option.ne_none_iff_exists']

theorem deref_ne_none {pID : ℕ} (h : ∃ a, k.pcb pID = some a ∧ k.heap a ≠ none) :
    k.deref pID ≠ none := by
  obtain ⟨a, hslot, hheap⟩ := h
  obtain ⟨p, hp⟩ := Option.ne_none_iff_exists'.mp hheap
  rw [deref_eq_some.mpr ⟨hslot, hp⟩]
  nofun

theorem tableOK_of_unremoved (h : k.view.Unremoved) : TableOK k := by
  have hlive : ∀ i a, k.pcb i = some a → k.heap a ≠ none := fun i a ha =>
    heap_ne_none.mpr (h.live a (h.own.slot_addr i a ha))
  have howner : ∀ t th pID, k.threads t = some th → pID = th.processID → pID ≠ 0 →
      k.deref pID ≠ none := by
    rintro t th pID hth rfl hne
    have hproc := procs_of_threads hth
    obtain ⟨a, e, hslot, -⟩ := h.own.entry_of_proc hproc (h.running t _ hproc) hne
    exact deref_ne_none ⟨a, hslot, hlive _ a hslot⟩
  refine ⟨?_, ?_, hlive, ?_⟩
  · intro i hi
    rw [← isExist_eq_test k i.isLt]
    constructor
    · intro hmarked
      obtain ⟨a, e, hslot, hentry⟩ := h.own.marked_entry i hmarked (Nat.ne_of_gt hi)
      obtain ⟨p, hp, rfl⟩ := Option.map_eq_some_iff.mp hentry
      exact ⟨a, p, hslot, hp, h.own.slot_pid i a _ hslot hentry⟩
    · rintro ⟨a, p, -, hp, hpid⟩
      exact hpid ▸ (h.own.entry_slot a _ (entries_of_heap hp)).2.1
  · intro i hi
    rw [← isExist_eq_test k i.isLt]
    constructor
    · exact h.clear i
    · intro hslot
      cases hset : k.isExist i with
      | false => rfl
      | true =>
          obtain ⟨a, e, hslot', -⟩ := h.own.marked_entry i hset (Nat.ne_of_gt hi)
          cases hslot.symm.trans hslot'
  · intro t th hth
    have hproc := procs_of_threads hth
    have hname := h.names t _ hproc
    have hfits := h.own.fits t _ hproc
    simp only [Thread.proc] at hname hfits
    generalize th.mode = mode at hname hfits ⊢
    cases mode with
    | joinWait pID a => exact heap_ne_none.mpr (h.live a hname.1)
    | joinCode pID a =>
        obtain ⟨b, hb⟩ := hname
        exact deref_ne_none ⟨b, hb, hlive pID b hb⟩
    | exitRelease pID ec => exact howner t th pID hth hfits.2.1 hfits.2.2
    | exitWait pID a ec => exact hlive pID a hfits.2.2.2
    | exitRemove pID ec => exact howner t th pID hth hfits.2.1 hfits.2.2
    | _ => trivial

theorem unremoved_create (words : Vector (BitVec 32) (divRoundUp maxProcess bitsInWord))
    (frameWords : Vector (BitVec 32) (divRoundUp numPhysPages bitsInWord)) :
    (Kernel.create words frameWords).view.Unremoved := by
  have hproc : ∀ u q, (Kernel.create words frameWords).view.procs u = some q →
      q.exited = false ∧ q.activity = .starting := by
    intro u q hu
    by_cases hzero : u = 0
    · subst hzero
      cases hu
      exact ⟨rfl, rfl⟩
    · simp [view, create, hzero] at hu
  refine ⟨own_create words frameWords, fun a ha => absurd ha (Nat.not_lt_zero a), fun _ _ => rfl,
    fun u q hu => (hproc u q hu).1, ?_⟩
  intro u q hu
  rw [(hproc u q hu).2]
  trivial

theorem unremoved_step (hstep : k.step label = some k') (hremove : ¬ k.Removes label)
    (h : k.view.Unremoved) : k'.view.Unremoved :=
  h.step (mt removes_of_view hremove) (step_view hstep (disciplined_of_running h))

/-- Along a run the table is consistent in every state exactly when no step of the run
executes `Remove`. -/
theorem allStates_tableOK_iff (words : Vector (BitVec 32) (divRoundUp maxProcess bitsInWord))
    (frameWords : Vector (BitVec 32) (divRoundUp numPhysPages bitsInWord))
    (run : List (Tid × Input)) :
    AllStates step TableOK (create words frameWords) run ↔
      AllSteps step (fun k label => ¬ k.Removes label) (create words frameWords) run := by
  refine allStates_iff_allSteps (fun k => k.view.Unremoved) (fun k => tableOK_of_unremoved)
    (fun k label k' hremove hstep h => unremoved_step hstep hremove h) ?_
    (unremoved_create words frameWords)
  intro k label k' hremoves hstep h hok
  obtain ⟨th, i, a, hr⟩ := removed_of_removes hstep (not_not.mp hremoves) h
  have hclear : k'.bm.test i = false := by simp [hr.bm]
  have hnull := (hok.clear_iff i hr.pos).mp hclear
  rw [hr.pcb, hr.slot] at hnull
  cases hnull

/-! ## A run that breaks it -/

/-- A kernel that has just booted. -/
def boot : Kernel :=
  create (Vector.replicate _ 0#32) (Vector.replicate _ 0#32)

/-- An executable of three pages without contents. -/
def smallProgram : NoffHeader :=
  ⟨noffMagic, ⟨0, 40, 16⟩, ⟨0, 0, 0⟩, ⟨0, 0, 0⟩⟩

/-- Thread `t` loads its program. -/
def loadRun (t : Tid) : List (Tid × Input) :=
  [(t, .executable (some smallProgram)), (t, .go), (t, .go)]

/-- Thread `t` runs `Exec("A")` from the call to its return. -/
def execRun (t : Tid) : List (Tid × Input) :=
  [(t, .exec (chars "A")), (t, .opened true), (t, .sameName false), (t, .allocated true),
    (t, .go), (t, .go), (t, .go)]

/-- The main program starts a child and the child calls `Exit(0)`: then bit 1 is clear and
`pcb[1]` points to a deleted object. -/
theorem tableOK_fails_after_exit :
    ¬ AllStates step TableOK boot (loadRun 0 ++ execRun 0 ++ loadRun 1 ++ [(1, .exit 0)]) := by
  intro hall
  have hend : ((exec step boot (loadRun 0 ++ execRun 0 ++ loadRun 1 ++ [(1, .exit 0)])).map
      fun k => (k.bm.test ⟨1, by decide⟩, k.pcb 1)) = some (false, some 0) := by
    decide +kernel
  obtain ⟨k, hexec, hk⟩ := Option.map_eq_some_iff.mp hend
  simp only [Prod.mk.injEq] at hk
  have hnull := ((hall.exec hexec).clear_iff ⟨1, by decide⟩ Nat.one_pos).mp hk.1
  cases hk.2.symm.trans hnull

end Kernel

end Nachos
