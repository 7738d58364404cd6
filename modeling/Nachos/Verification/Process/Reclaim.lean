import Nachos.Verification.Process.Consistency

/-! # Frames are not reclaimed

Nothing deletes the address space of a process that has exited, so its frames stay marked.
Up to the first `Remove` the marked frames are exactly those of the loaded processes. -/

namespace Nachos

open Runs

/-- Adding `n` to one summand that was zero. -/
theorem sum_update_of_zero {f : ℕ → ℕ} {m t : ℕ} (ht : t < m) (hzero : f t = 0) (n : ℕ) :
    ∑ u ∈ Finset.range m, Function.update f t n u = ∑ u ∈ Finset.range m, f u + n := by
  have hmem := Finset.mem_range.mpr ht
  have hself : Function.update f t 0 = f := by
    rw [← hzero, Function.update_eq_self]
  rw [← hself, Function.update_idem, Finset.sum_update_of_mem hmem,
    Finset.sum_update_of_mem hmem]
  omega

namespace Table

def pages (s : Table) (t : Tid) : ℕ :=
  ((s.procs t).map Proc.pages).getD 0

/-- A thread gets its pages once, and a process that exits has some. -/
def Paged (q : Proc) : Activity → Prop
  | .starting => q.pages = 0
  | .exitRelease _ => q.pages ≠ 0
  | .exitWait _ _ => q.pages ≠ 0
  | .exitRemove _ => q.pages ≠ 0
  | _ => True

/-- The frames in use are those of the threads, and nothing has been removed. -/
structure Accounted (s : Table) : Prop where
  unremoved : s.Unremoved
  paged : ∀ u q, s.procs u = some q → Paged q q.activity
  used : s.used = ∑ t ∈ Finset.range s.nextTid, s.pages t

namespace Accounted

variable {s s' : Table} {t : Tid} {q : Proc} {i : Input}

theorem pages_act (s : Table) (t : Tid) (x : Activity) : (s.act t x).pages = s.pages := by
  funext u
  by_cases hu : u = t
  · subst hu
    simp [pages, Table.act, Function.comp_def]
  · simp [pages, Table.act, hu]

theorem act (h : Accounted s) (hq : s.procs t = some q) {x : Activity}
    (hunremoved : (s'.act t x).Unremoved) (hprocs : s'.procs = s.procs)
    (hnextTid : s'.nextTid = s.nextTid) (hused : s'.used = s.used) (hx : Paged q x) :
    Accounted (s'.act t x) := by
  refine ⟨hunremoved, ?_, ?_⟩
  · intro u r hu
    rw [procs_act (hprocs ▸ hq), hprocs] at hu
    rcases update_eq_some_iff.mp hu with ⟨-, rfl⟩ | ⟨-, hu⟩
    · cases x <;> exact hx
    · exact h.paged u r hu
  · have hpages : (s'.act t x).pages = s.pages := by
      rw [pages_act]
      funext u
      simp [pages, hprocs]
    have hrange : (s'.act t x).nextTid = s.nextTid := hnextTid
    rw [hpages, hrange, ← h.used]
    exact hused

theorem load (h : Accounted s) (hq : s.procs t = some q) (hstart : q.activity = .starting) {n : ℕ}
    {x : Activity} (hunremoved : (s.load t n x).Unremoved) (hx : x = .user ∨ x = .kernel) :
    Accounted (s.load t n x) := by
  refine ⟨hunremoved, ?_, ?_⟩
  · intro u r hu
    simp only [Table.load, hq] at hu
    rcases update_eq_some_iff.mp hu with ⟨-, rfl⟩ | ⟨-, hu⟩
    · rcases hx with rfl | rfl
      · trivial
      · trivial
    · exact h.paged u r hu
  · have hzero : s.pages t = 0 := by
      have hpaged := h.paged t q hq
      rw [hstart] at hpaged
      rw [pages, hq]
      exact hpaged
    have hpages : (s.load t n x).pages = Function.update s.pages t n := by
      funext u
      by_cases hu : u = t
      · subst hu
        simp [pages, Table.load, hq]
      · simp [pages, Table.load, hu]
    have hsum := sum_update_of_zero (h.unremoved.own.tid t q hq) hzero n
    rw [← h.used] at hsum
    rw [hpages]
    exact hsum.symm

theorem fork (h : Accounted s) (hq : s.procs t = some q) {j : ℕ} {a : Addr} {e : Entry}
    (hunremoved : ((s.newProc j a e).act t .kernel).Unremoved) :
    Accounted ((s.newProc j a e).act t .kernel) := by
  have hne : t ≠ s.nextTid := (h.unremoved.own.tid t q hq).ne
  have hq' : (s.newProc j a e).procs t = some q := update_eq_some_iff.mpr (.inr ⟨hne, hq⟩)
  refine ⟨hunremoved, ?_, ?_⟩
  · intro u r hu
    rw [procs_act hq'] at hu
    rcases update_eq_some_iff.mp hu with ⟨-, rfl⟩ | ⟨-, hu⟩
    · trivial
    · rcases update_eq_some_iff.mp hu with ⟨-, rfl⟩ | ⟨-, hu⟩
      · rfl
      · exact h.paged u r hu
  · rw [pages_act]
    have hnew : (s.newProc j a e).pages s.nextTid = 0 := by
      simp [pages, Table.newProc]
    have hold : ∀ u ∈ Finset.range s.nextTid, (s.newProc j a e).pages u = s.pages u := by
      intro u hu
      have hne := (Finset.mem_range.mp hu).ne
      simp [pages, Table.newProc, hne]
    change s.used = ∑ u ∈ Finset.range (s.nextTid + 1), (s.newProc j a e).pages u
    rw [Finset.sum_range_succ, hnew, Finset.sum_congr rfl hold, ← h.used, Nat.add_zero]

theorem joinTest (h : Accounted s) (hq : s.procs t = some q) {pID : ℕ} {a : Addr} {e : Entry}
    (hunremoved : (s.joinTest t pID a e).Unremoved) : Accounted (s.joinTest t pID a e) := by
  obtain ⟨e₁, x, -, hx, heq⟩ := s.joinTest_eq t pID a e
  rw [heq] at hunremoved ⊢
  apply h.act hq hunremoved rfl rfl rfl
  rcases hx with rfl | rfl
  · exact trivial
  · exact trivial

theorem exitTest (h : Accounted s) (hq : s.procs t = some q) (hpages : q.pages ≠ 0) {pID : ℕ}
    {a : Addr} {e : Entry} (hunremoved : (s.exitTest t pID a e).Unremoved) :
    Accounted (s.exitTest t pID a e) := by
  obtain ⟨e₁, x, -, hx, heq⟩ := s.exitTest_eq t pID a e
  rw [heq] at hunremoved ⊢
  apply h.act hq hunremoved rfl rfl rfl
  rcases hx with rfl | rfl
  · exact hpages
  · exact hpages

theorem step (h : Accounted s) (hremove : ¬ s.Removes t i) (hstep : s.Step t i s') :
    Accounted s' := by
  have hunremoved := h.unremoved.step hremove hstep
  rcases hstep with rfl | ⟨q, hq, -, hmove⟩
  · exact h
  have hpaged := h.paged t q hq
  cases hmove with
  | settle i x here next =>
      apply h.act hq hunremoved rfl rfl rfl
      rcases next with rfl | rfl
      · trivial
      · trivial
  | wait i here =>
      rw [here] at hpaged
      exact h.act hq hunremoved rfl rfl rfl hpaged
  | load i n x here next => exact h.load hq here hunremoved next
  | create j parentID here range clear least =>
      have hcreated : (s.newEntry j t parentID).procs = s.procs := rfl
      exact h.act hq hunremoved hcreated rfl rfl trivial
  | fork j a e here entry => exact h.fork hq hunremoved
  | abandon j a here => exact h.act hq hunremoved rfl rfl rfl trivial
  | join pID a e here pages range slot entry parent => exact h.joinTest hq hunremoved
  | joinAgain pID a e here entry => exact h.joinTest hq hunremoved
  | joinFail pID a b e here slot entry code => exact h.act hq hunremoved rfl rfl rfl trivial
  | joinDone pID a b e here slot entry code => exact h.act hq hunremoved rfl rfl rfl trivial
  | exit ec a e call joined => exact h.act hq hunremoved rfl rfl rfl call.pages
  | exitWait pID a e here slot entry =>
      rw [here] at hpaged
      exact h.exitTest hq hpaged hunremoved
  | exitAgain pID a e here entry =>
      rw [here] at hpaged
      exact h.exitTest hq hpaged hunremoved
  | exitAlone ec a e call alone =>
      exact absurd ⟨q, hq, .inr ⟨ec, a, e, rfl, call, alone⟩⟩ hremove
  | exitRemove pID here => exact absurd ⟨q, hq, .inl ⟨pID, here⟩⟩ hremove

end Accounted

end Table

namespace Kernel

variable {k k' : Kernel} {label : Tid × Input} {th : Thread}

/-- The pages of the address space of thread `t`, unless its process has exited. -/
def pagesInUse (k : Kernel) (t : Tid) : ℕ :=
  match k.threads t with
  | none => 0
  | some th => if th.exited then 0 else th.space.pages

/-- The marked frames are those of the processes that are loaded and have not exited, so a
program of `n` pages fits exactly when it fits beside these processes. -/
structure Reclaimed (k : Kernel) : Prop where
  numSet : k.gPhysPageBitMap.numSet = ∑ t ∈ Finset.range k.nextTid, k.pagesInUse t
  fits : ∀ n, n ≤ k.gPhysPageBitMap.numClear ↔
    n + ∑ t ∈ Finset.range k.nextTid, k.pagesInUse t ≤ numPhysPages

theorem pagesInUse_eq_pages (hth : ∀ t th, k.threads t = some th → th.exited = false) :
    k.pagesInUse = k.view.pages := by
  funext t
  unfold pagesInUse Table.pages view
  cases h : k.threads t with
  | none => simp [h]
  | some th => simp [hth t th h, h, Thread.proc]

theorem reclaimed_of_accounted (h : k.view.Accounted) : Reclaimed k := by
  have hsum : k.gPhysPageBitMap.numSet = ∑ t ∈ Finset.range k.nextTid, k.pagesInUse t := by
    rw [pagesInUse_eq_pages fun t th hth => h.unremoved.running t _ (procs_of_threads hth)]
    exact h.used
  refine ⟨hsum, fun n => ?_⟩
  have htotal := k.gPhysPageBitMap.numSet_add_numClear
  rw [← hsum]
  omega

theorem accounted_create (words : Vector (BitVec 32) (divRoundUp maxProcess bitsInWord))
    (frameWords : Vector (BitVec 32) (divRoundUp numPhysPages bitsInWord)) :
    (Kernel.create words frameWords).view.Accounted := by
  refine ⟨unremoved_create words frameWords, ?_, ?_⟩
  · intro u q hu
    by_cases hzero : u = 0
    · subst hzero
      cases hu
      rfl
    · simp [view, create, hzero] at hu
  · have hclear : (BitMap.create frameWords).numSet = 0 := by
      simp [BitMap.numSet]
    exact hclear

/-- A process that exits keeps its frames. -/
theorem not_reclaimed_of_removes (hstep : k.step label = some k') (hremoves : k.Removes label)
    (h : k.view.Accounted) : ¬ Reclaimed k' := by
  obtain ⟨th, i, a, hr⟩ := removed_of_removes hstep hremoves h.unremoved
  have hpages : th.space.pages ≠ 0 := by
    obtain ⟨th', hth', hkind⟩ := hremoves
    rw [hr.thread] at hth'
    cases hth'
    rcases hkind with ⟨pID, ec, hmode⟩ | ⟨ec, b, p, -, -, hpages, -⟩
    · have hpaged := h.paged label.1 _ (procs_of_threads hr.thread)
      rw [show th.proc.activity = .exitRemove pID from congrArg Mode.activity hmode] at hpaged
      exact hpaged
    · exact hpages
  have hself : k.pagesInUse label.1 = th.space.pages := by
    have hrun : th.exited = false := h.unremoved.running _ _ (procs_of_threads hr.thread)
    simp [pagesInUse, hr.thread, hrun]
  have hupdate : k'.pagesInUse = Function.update k.pagesInUse label.1 0 := by
    funext u
    by_cases hu : u = label.1
    · subst hu
      simp [pagesInUse, hr.threads]
    · simp [pagesInUse, hr.threads, hu]
  have hsum := sum_update_of_zero (f := k'.pagesInUse)
    (h.unremoved.own.tid _ _ (procs_of_threads hr.thread)) (by simp [hupdate]) th.space.pages
  rw [hupdate, Function.update_idem, ← hself, Function.update_eq_self] at hsum
  intro hreclaimed
  have hbefore : k.gPhysPageBitMap.numSet = _ := (reclaimed_of_accounted h).numSet
  have hafter := hreclaimed.numSet
  rw [hr.frames, hr.nextTid, hupdate, hbefore] at hafter
  have hsum' : ∑ u ∈ Finset.range k.nextTid, k.pagesInUse u =
      ∑ u ∈ Finset.range k.nextTid, Function.update k.pagesInUse label.1 0 u +
        k.pagesInUse label.1 := hsum
  omega

/-- Along a run the frames are reclaimed in every state exactly when no step executes
`Remove`. -/
theorem allStates_reclaimed_iff (words : Vector (BitVec 32) (divRoundUp maxProcess bitsInWord))
    (frameWords : Vector (BitVec 32) (divRoundUp numPhysPages bitsInWord))
    (run : List (Tid × Input)) :
    AllStates step Reclaimed (create words frameWords) run ↔
      AllSteps step (fun k label => ¬ k.Removes label) (create words frameWords) run := by
  refine allStates_iff_allSteps (fun k => k.view.Accounted) (fun k => reclaimed_of_accounted) ?_ ?_
    (accounted_create words frameWords)
  · intro k label k' hremove hstep h
    exact h.step (mt removes_of_view hremove)
      (step_view hstep (disciplined_of_running h.unremoved))
  · intro k label k' hremoves hstep h
    exact not_reclaimed_of_removes hstep (not_not.mp hremoves) h

/-- After a child of three pages has exited, six frames are marked beside the three pages
of the main program. -/
theorem reclaimed_fails_after_exit :
    ¬ AllStates step Reclaimed boot (loadRun 0 ++ execRun 0 ++ loadRun 1 ++ [(1, .exit 0)]) := by
  intro hall
  have hend : ((exec step boot (loadRun 0 ++ execRun 0 ++ loadRun 1 ++ [(1, .exit 0)])).map
      fun k => (k.gPhysPageBitMap.numSet, k.nextTid, k.pagesInUse 0, k.pagesInUse 1)) =
        some (6, 2, 3, 0) := by
    decide +kernel
  obtain ⟨k, hexec, hk⟩ := Option.map_eq_some_iff.mp hend
  simp only [Prod.mk.injEq] at hk
  obtain ⟨hset, hnext, hmain, hchild⟩ := hk
  have hnum := (hall.exec hexec).numSet
  simp [hset, hnext, Finset.sum_range_succ, hmain, hchild] at hnum

end Kernel

end Nachos
