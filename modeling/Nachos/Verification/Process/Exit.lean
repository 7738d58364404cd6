import Nachos.Verification.Process.Consistency

/-! # Exit is not final

The handler of `SC_Exit` returns to the user program, so the first `Remove` leaves a thread
that goes on under a process number that is free again. Up to that point, and as long as
`new Thread` does not fail, every marked slot has exactly one thread. -/

namespace Nachos

open Runs

namespace Table

/-- The step takes the branch of `PCB::Exec` for `thread == NULL`. -/
def Abandons (s : Table) (t : Tid) (i : Input) : Prop :=
  ∃ q j a, s.procs t = some q ∧ q.activity = .forking j a ∧ i = .allocated false

/-- Every entry without a thread is about to get one, and the main thread is there. -/
structure Manned (s : Table) : Prop where
  unremoved : s.Unremoved
  forking : ∀ a e, s.entries a = some e → e.thread = none →
    ∃ u q, s.procs u = some q ∧ q.activity = .forking e.pid a
  main : ∃ q, s.procs 0 = some q ∧ q.processID = 0

namespace Manned

variable {s s' : Table} {t : Tid} {q : Proc} {i : Input}

theorem congr (h : Manned s) (hq : s.procs t = some q) (hunremoved : s'.Unremoved)
    (halike : Alike s s') (hprocs : ∀ u r, s.procs u = some r → u ≠ t → s'.procs u = some r)
    (hfork : ∀ j a, q.activity ≠ .forking j a) : Manned s' where
  unremoved := hunremoved
  forking a e ha hnone := by
    obtain ⟨e₀, ha₀, hpid, -, -, hthread⟩ := halike.entry ha
    obtain ⟨u, r, hu, hr⟩ := h.forking a e₀ ha₀ (hthread.trans hnone)
    have hut : u ≠ t := by
      rintro rfl
      rw [hq] at hu
      cases hu
      exact hfork _ _ hr
    exact ⟨u, r, hprocs u r hu hut, hpid ▸ hr⟩
  main := by
    obtain ⟨r, hr, hpid⟩ := h.main
    obtain ⟨r', hr', hpid', -⟩ := halike.symm.proc hr
    exact ⟨r', hr', hpid'.trans hpid⟩

theorem act (h : Manned s) (hq : s.procs t = some q) {x : Activity}
    (hunremoved : (s'.act t x).Unremoved) (halike : Alike s s') (hprocs : s'.procs = s.procs)
    (hfork : ∀ j a, q.activity ≠ .forking j a) : Manned (s'.act t x) := by
  refine h.congr hq hunremoved (halike.trans (.act s' t x)) (fun u r hu hut => ?_) hfork
  rw [procs_act (hprocs ▸ hq), hprocs]
  exact update_eq_some_iff.mpr (.inr ⟨hut, hu⟩)

theorem create (h : Manned s) (hq : s.procs t = some q) (hkernel : q.activity = .kernel)
    {j parentID : ℕ}
    (hunremoved : ((s.newEntry j t parentID).act t (.forking j s.nextAddr)).Unremoved) :
    Manned ((s.newEntry j t parentID).act t (.forking j s.nextAddr)) := by
  have hprocs := procs_act (s := s.newEntry j t parentID) hq (.forking j s.nextAddr)
  refine ⟨hunremoved, ?_, ?_⟩
  · intro a e ha hnone
    rw [hprocs]
    rcases update_eq_some_iff.mp ha with ⟨rfl, rfl⟩ | ⟨-, ha⟩
    · exact ⟨t, _, Function.update_self .., rfl⟩
    · obtain ⟨u, r, hu, hr⟩ := h.forking a e ha hnone
      have hut : u ≠ t := by
        rintro rfl
        rw [hq] at hu
        cases hu
        rw [hkernel] at hr
        cases hr
      exact ⟨u, r, update_eq_some_iff.mpr (.inr ⟨hut, hu⟩), hr⟩
  · obtain ⟨r, hr, hpid⟩ := h.main
    rw [hprocs]
    by_cases hzero : 0 = t
    · subst hzero
      rw [hq] at hr
      cases hr
      exact ⟨_, Function.update_self .., hpid⟩
    · exact ⟨r, update_eq_some_iff.mpr (.inr ⟨hzero, hr⟩), hpid⟩

theorem fork (h : Manned s) (hq : s.procs t = some q) {j : ℕ} {a : Addr} {e : Entry}
    (hfork : q.activity = .forking j a)
    (hunremoved : ((s.newProc j a e).act t .kernel).Unremoved) :
    Manned ((s.newProc j a e).act t .kernel) := by
  have hold : ∀ u r, s.procs u = some r → (s.newProc j a e).procs u = some r := fun u r hu =>
    update_eq_some_iff.mpr (.inr ⟨(h.unremoved.own.tid u r hu).ne, hu⟩)
  have hprocs := procs_act (hold t q hq) .kernel
  refine ⟨hunremoved, ?_, ?_⟩
  · intro b e' hb hnone
    rcases update_eq_some_iff.mp hb with ⟨rfl, rfl⟩ | ⟨hba, hb⟩
    · cases hnone
    · obtain ⟨u, r, hu, hr⟩ := h.forking b e' hb hnone
      have hut : u ≠ t := by
        rintro rfl
        rw [hq] at hu
        cases hu
        rw [hfork] at hr
        cases hr
        exact hba rfl
      rw [hprocs]
      exact ⟨u, r, update_eq_some_iff.mpr (.inr ⟨hut, hold u r hu⟩), hr⟩
  · obtain ⟨r, hr, hpid⟩ := h.main
    rw [hprocs]
    by_cases hzero : 0 = t
    · subst hzero
      rw [hq] at hr
      cases hr
      exact ⟨_, Function.update_self .., hpid⟩
    · exact ⟨r, update_eq_some_iff.mpr (.inr ⟨hzero, hold 0 r hr⟩), hpid⟩

theorem joinTest (h : Manned s) (hq : s.procs t = some q) {pID : ℕ} {a : Addr} {e e' : Entry}
    (hunremoved : (s.joinTest t pID a e').Unremoved) (ha : s.entries a = some e)
    (hident : e'.ident = e.ident) (hfork : ∀ j a, q.activity ≠ .forking j a) :
    Manned (s.joinTest t pID a e') := by
  obtain ⟨e₁, x, hident₁, -, heq⟩ := s.joinTest_eq t pID a e'
  rw [heq] at hunremoved ⊢
  exact h.act hq hunremoved (.put ha (hident₁.trans hident)) rfl hfork

theorem exitTest (h : Manned s) (hq : s.procs t = some q) {pID : ℕ} {a : Addr} {e : Entry}
    (hunremoved : (s.exitTest t pID a e).Unremoved) (ha : s.entries a = some e)
    (hfork : ∀ j a, q.activity ≠ .forking j a) : Manned (s.exitTest t pID a e) := by
  obtain ⟨e₁, x, hident, -, heq⟩ := s.exitTest_eq t pID a e
  rw [heq] at hunremoved ⊢
  exact h.act hq hunremoved (.put ha hident) rfl hfork

theorem step (h : Manned s) (hremove : ¬ s.Removes t i) (habandon : ¬ s.Abandons t i)
    (hstep : s.Step t i s') : Manned s' := by
  have hunremoved := h.unremoved.step hremove hstep
  rcases hstep with rfl | ⟨q, hq, -, hmove⟩
  · exact h
  cases hmove with
  | settle i x here next =>
      apply h.act hq hunremoved (.refl s) rfl
      intro j a hfork
      rw [hfork] at here
      rcases here with here | here <;> cases here
  | wait i here => exact h.act hq hunremoved (.refl s) rfl (by simp [here])
  | load i n x here next =>
      refine h.congr hq hunremoved (.load s t n x) (fun u r hu hut => ?_) (by simp [here])
      simpa [Table.load, hut] using hu
  | create j parentID here range clear least => exact h.create hq here hunremoved
  | fork j a e here entry => exact h.fork hq here hunremoved
  | abandon j a here => exact absurd ⟨q, j, a, hq, here, rfl⟩ habandon
  | join pID a e here pages range slot entry parent =>
      exact h.joinTest hq hunremoved entry rfl (by simp [here])
  | joinAgain pID a e here entry => exact h.joinTest hq hunremoved entry rfl (by simp [here])
  | joinFail pID a b e here slot entry code =>
      exact h.act hq hunremoved (.refl s) rfl (by simp [here])
  | joinDone pID a b e here slot entry code =>
      refine h.act hq hunremoved (.put entry ?_) rfl (by simp [here])
      rfl
  | exit ec a e call joined =>
      refine h.act hq hunremoved (.put call.entry ?_) rfl (by simp [call.user])
      rfl
  | exitWait pID a e here slot entry => exact h.exitTest hq hunremoved entry (by simp [here])
  | exitAgain pID a e here entry => exact h.exitTest hq hunremoved entry (by simp [here])
  | exitAlone ec a e call alone =>
      exact absurd ⟨q, hq, .inr ⟨ec, a, e, rfl, call, alone⟩⟩ hremove
  | exitRemove pID here => exact absurd ⟨q, hq, .inl ⟨pID, here⟩⟩ hremove

end Manned

end Table

namespace Kernel

variable {k k' : Kernel} {label : Tid × Input} {th : Thread}

/-- `new Thread` in `PCB::Exec` returns NULL at this step. -/
def Abandons (k : Kernel) (label : Tid × Input) : Prop :=
  ∃ th id a, k.threads label.1 = some th ∧ th.mode = .execFork id a ∧
    label.2 = .allocated false

theorem mode_of_forking {mode : Mode} {j : ℕ} {a : Addr} (h : mode.activity = .forking j a) :
    mode = .execFork j a := by
  cases mode <;> simp only [Mode.activity, reduceCtorEq, Activity.forking.injEq] at h
  rw [h.1, h.2]

theorem abandons_of_view (h : k.view.Abandons label.1 label.2) : k.Abandons label := by
  obtain ⟨q, j, a, hq, hact, hi⟩ := h
  obtain ⟨th, hth, rfl⟩ := Option.map_eq_some_iff.mp hq
  exact ⟨th, j, a, hth, mode_of_forking hact, hi⟩

/-- A thread whose `Exit` has run `Remove` executes nothing more; the threads that can
still execute have different process numbers; and a marked slot has exactly one such
thread, or the `ExecUpdate` that makes it is still running. -/
structure ExitFinal (k : Kernel) : Prop where
  stopped : ∀ t th i, k.threads t = some th → th.exited = true → k.step (t, i) = none
  distinct : ∀ t u th uh, k.threads t = some th → k.threads u = some uh →
    th.exited = false → uh.exited = false → th.processID = uh.processID → t = u
  owner : ∀ i : Fin maxProcess, k.bm.test i = true →
    (∃ t th a, k.threads t = some th ∧ th.mode = .execFork i a) ∨
      ∃! t, ∃ th, k.threads t = some th ∧ th.exited = false ∧ th.processID = i

theorem exitFinal_of_manned (h : k.view.Manned) : ExitFinal k := by
  have hrun : ∀ t th, k.threads t = some th → th.exited = false := fun t th hth =>
    h.unremoved.running t _ (procs_of_threads hth)
  have hdistinct : ∀ t u th uh, k.threads t = some th → k.threads u = some uh →
      th.exited = false → uh.exited = false → th.processID = uh.processID → t = u :=
    fun t u th uh hth huh hte hue heq =>
      h.unremoved.own.unique (procs_of_threads hth) (procs_of_threads huh) hte hue heq
  refine ⟨?_, hdistinct, ?_⟩
  · intro t th i hth hexited
    rw [hrun t th hth] at hexited
    cases hexited
  · intro i htest
    have hmarked : k.view.marked i = true := (isExist_eq_test k i.isLt).trans htest
    -- the thread found below is the only one, by `hdistinct`
    have hunique : ∀ t th, k.threads t = some th → th.processID = i →
        ∃! t, ∃ th, k.threads t = some th ∧ th.exited = false ∧ th.processID = i := by
      intro t th hth hpid
      refine ⟨t, ⟨th, hth, hrun t th hth, hpid⟩, ?_⟩
      rintro u ⟨uh, huh, hexited, hpid'⟩
      exact hdistinct u t uh th huh hth hexited (hrun t th hth) (hpid'.trans hpid.symm)
    by_cases hzero : i.val = 0
    · obtain ⟨q, hq, hpid⟩ := h.main
      obtain ⟨th, hth, rfl⟩ := Option.map_eq_some_iff.mp hq
      exact .inr (hunique 0 th hth (hpid.trans hzero.symm))
    · obtain ⟨a, e, hslot, ha⟩ := h.unremoved.own.marked_entry i hmarked hzero
      have hpid := h.unremoved.own.slot_pid i a e hslot ha
      cases hthread : e.thread with
      | none =>
          obtain ⟨u, q, hu, hact⟩ := h.forking a e ha hthread
          obtain ⟨th, hth, rfl⟩ := Option.map_eq_some_iff.mp hu
          rw [hpid] at hact
          exact .inl ⟨u, th, a, hth, mode_of_forking hact⟩
      | some u =>
          obtain ⟨q, hq, -, hq'⟩ := h.unremoved.own.thread_proc a e u ha hthread
          obtain ⟨th, hth, rfl⟩ := Option.map_eq_some_iff.mp hq
          exact .inr (hunique u th hth (hq'.trans hpid))

theorem manned_create (words : Vector (BitVec 32) (divRoundUp maxProcess bitsInWord))
    (frameWords : Vector (BitVec 32) (divRoundUp numPhysPages bitsInWord)) :
    (Kernel.create words frameWords).view.Manned :=
  ⟨unremoved_create words frameWords, nofun, _, rfl, rfl⟩

theorem not_exitFinal_of_removed {t : Tid} {i : Fin maxProcess} {a : Addr}
    (h : Removed k k' t th i a) : ¬ ExitFinal k' := by
  intro hfinal
  have hthread : k'.threads t = some { th with mode := .user, exited := true } := by
    rw [h.threads, Function.update_self]
  have hstop := hfinal.stopped t _ .instr hthread rfl
  simp only [step, h.status, hthread, h.asleep, if_true, Bool.false_eq_true, if_false, modeStep,
    userStep] at hstop
  split at hstop
  · cases hstop
  · cases hstop
  · split at hstop
    · cases hstop
    · cases hstop

/-- A failed `new Thread` leaves the slot marked with no thread that runs for it. -/
theorem not_exitFinal_of_abandons (hstep : k.step label = some k') (habandons : k.Abandons label)
    (h : k.view.Manned) : ¬ ExitFinal k' := by
  obtain ⟨t, input⟩ := label
  obtain ⟨th, j, a, hth, hmode, rfl⟩ := habandons
  obtain ⟨th', hth', -, -, hstep⟩ := step_eq_some hstep
  rw [hth] at hth'
  cases hth'
  have hown := h.unremoved.own
  have hproc := procs_of_threads hth
  have hfits := hown.fits t _ hproc
  rw [show th.proc.activity = .forking j a from congrArg Mode.activity hmode] at hfits
  obtain ⟨-, hslot, e, ha, hnone, hcreator⟩ := hfits
  have hpid := hown.slot_pid j a e hslot ha
  have hmarked : k.isExist j = true := hpid ▸ (hown.entry_slot a e ha).2.1
  obtain ⟨p, hheap, -⟩ := Option.map_eq_some_iff.mp ha
  have hk' : k'.view = k.view.act t .kernel := by
    unfold modeStep at hstep
    rw [hmode] at hstep
    cases hstep
    simp [execFork, hheap, view_mutexV hheap, Mode.activity]
  have hprocs := Table.procs_act hproc .kernel
  intro hfinal
  have hlt := lt_of_isExist k hmarked
  have htest : k'.bm.test ⟨j, hlt⟩ = true := by
    rw [← isExist_eq_test k' hlt, show k'.isExist = k.isExist from congrArg Table.marked hk',
      hmarked]
  rcases hfinal.owner ⟨j, hlt⟩ htest with ⟨u, uh, b, huh, humode⟩ | ⟨u, ⟨uh, huh, hexited, hu⟩, -⟩
  · have hproc' := procs_of_threads huh
    rw [hk', hprocs] at hproc'
    rcases update_eq_some_iff.mp hproc' with ⟨-, heq⟩ | ⟨hut, hproc'⟩
    · have hact := congrArg Proc.activity heq
      rw [show uh.proc.activity = .forking j b from congrArg Mode.activity humode] at hact
      cases hact
    · have hfits := hown.fits u _ hproc'
      rw [show uh.proc.activity = .forking j b from congrArg Mode.activity humode] at hfits
      obtain ⟨-, hslot', e', hb, -, hcreator'⟩ := hfits
      rw [hslot] at hslot'
      cases hslot'
      rw [ha] at hb
      cases hb
      exact hut (hcreator'.symm.trans hcreator)
  · have hproc' := procs_of_threads huh
    obtain ⟨r, hr, hrpid, hrexited⟩ := (hk' ▸ Table.Alike.act k.view t .kernel).proc hproc'
    have hj : r.processID = j := hrpid.trans hu
    obtain ⟨b, e', hslot', hb, hthread⟩ := hown.proc_entry u r hr (hrexited.trans hexited)
      (by rw [hj, ← hpid]; exact (hown.entry_slot a e ha).2.2)
    rw [hj, hslot] at hslot'
    cases hslot'
    rw [ha] at hb
    cases hb
    rw [hnone] at hthread
    cases hthread

/-- Along a run, exit is final in every state exactly when no step executes `Remove` and
no `new Thread` of an `Exec` fails. -/
theorem allStates_exitFinal_iff (words : Vector (BitVec 32) (divRoundUp maxProcess bitsInWord))
    (frameWords : Vector (BitVec 32) (divRoundUp numPhysPages bitsInWord))
    (run : List (Tid × Input)) :
    AllStates step ExitFinal (create words frameWords) run ↔
      AllSteps step (fun k label => ¬ k.Removes label ∧ ¬ k.Abandons label)
        (create words frameWords) run := by
  refine allStates_iff_allSteps (fun k => k.view.Manned) (fun k => exitFinal_of_manned) ?_ ?_
    (manned_create words frameWords)
  · rintro k label k' ⟨hremove, habandon⟩ hstep h
    exact h.step (mt removes_of_view hremove) (mt abandons_of_view habandon)
      (step_view hstep (disciplined_of_running h.unremoved))
  · intro k label k' hguard hstep h
    by_cases hremoves : k.Removes label
    · obtain ⟨th, i, a, hremoved⟩ := removed_of_removes hstep hremoves h.unremoved
      exact not_exitFinal_of_removed hremoved
    · by_cases habandons : k.Abandons label
      · exact not_exitFinal_of_abandons hstep habandons h
      · exact absurd ⟨hremoves, habandons⟩ hguard

/-- The main program starts a child and the child calls `Exit(0)`: its thread is not
stopped by this. -/
theorem exitFinal_fails_after_exit :
    ¬ AllStates step ExitFinal boot (loadRun 0 ++ execRun 0 ++ loadRun 1 ++ [(1, .exit 0)]) := by
  intro hall
  have hend : ((exec step boot (loadRun 0 ++ execRun 0 ++ loadRun 1 ++ [(1, .exit 0)])).map
      fun k => ((k.threads 1).map Thread.exited, (k.step (1, .instr)).isSome)) =
        some (some true, true) := by
    decide +kernel
  obtain ⟨k, hexec, hk⟩ := Option.map_eq_some_iff.mp hend
  simp only [Prod.mk.injEq] at hk
  obtain ⟨th, hth, hexited⟩ := Option.map_eq_some_iff.mp hk.1
  have hstop := (hall.exec hexec).stopped 1 th .instr hth hexited
  rw [hstop] at hk
  cases hk.2

end Kernel

end Nachos
