import Nachos.Verification.Threads.Invariant

/-! # Semaphores

A woken thread does not own the token: it tests again, and another thread may have taken it
before. The invariant counts the threads that `V` has woken and that have not tested yet. -/

namespace Nachos.System

open Runs View

/-! ## What the log says of a semaphore -/

/-- The calls of `V` that have been executed. -/
def executedV (sem : SemId) (log : List Event) : ℕ :=
  log.countP fun
    | .v sem' _ => sem' = sem
    | _ => false

/-- The calls of `P` that have taken a token. -/
def completedP (sem : SemId) (log : List Event) : ℕ :=
  log.countP fun
    | .tested sem' _ taken => sem' = sem && taken
    | _ => false

/-- The threads that `V` has removed from the queue and that have not tested again, after
one more event. -/
def wokenAfter (sem : SemId) (threads : List Tid) : Event → List Tid
  | .v sem' (some t) => if sem' = sem then threads ++ [t] else threads
  | .tested sem' t _ => if sem' = sem then threads.erase t else threads
  | _ => threads

def woken (sem : SemId) (log : List Event) : List Tid :=
  log.foldl (wokenAfter sem) []

/-- An event of another semaphore or of no semaphore. -/
def quietFor (sem : SemId) : Event → Bool
  | .v sem' _ => sem' ≠ sem
  | .tested sem' _ _ => sem' ≠ sem
  | _ => true

theorem woken_append (sem : SemId) (log : List Event) (event : Event) :
    woken sem (log ++ [event]) = wokenAfter sem (woken sem log) event := by
  simp [woken]

section Quiet

variable {sem : SemId} {log : List Event} {event : Event}

theorem woken_quiet (h : quietFor sem event = true) :
    woken sem (log ++ [event]) = woken sem log := by
  rw [woken_append]
  cases event with
  | v sem' woken =>
      have hne : sem' ≠ sem := by simpa [quietFor] using h
      cases woken <;> simp [wokenAfter, hne]
  | tested sem' t taken =>
      have hne : sem' ≠ sem := by simpa [quietFor] using h
      simp [wokenAfter, hne]
  | _ => rfl

theorem executedV_quiet (h : quietFor sem event = true) :
    executedV sem (log ++ [event]) = executedV sem log := by
  cases event with
  | v sem' woken =>
      have hne : sem' ≠ sem := by simpa [quietFor] using h
      simp [executedV, hne]
  | _ => simp [executedV]

theorem completedP_quiet (h : quietFor sem event = true) :
    completedP sem (log ++ [event]) = completedP sem log := by
  cases event with
  | tested sem' t taken =>
      have hne : sem' ≠ sem := by simpa [quietFor] using h
      simp [completedP, hne]
  | _ => simp [completedP]

end Quiet

/-! ## The invariant -/

/-- The tokens of a semaphore, and the threads that are on their way to them. -/
structure Tokens (initialValue : ℕ) (sem : SemId) (v : View) : Prop where
  count : (v.semaphores sem).value + completedP sem v.log = initialValue + executedV sem v.log
  nodup : (woken sem v.log).Nodup
  testing : ∀ t ∈ woken sem v.log, v.status t ≠ .blocked ∧ waits (v.frames t) = some (.sem sem)
  not_lost : (v.semaphores sem).queue ≠ [] →
    (v.semaphores sem).value ≤ (woken sem v.log).length

/-- The threads that are about to test the semaphore stay so. -/
def Keeps (sem : SemId) (v v' : View) : Prop :=
  ∀ t, v.status t ≠ .blocked → waits (v.frames t) = some (.sem sem) →
    v'.status t ≠ .blocked ∧ waits (v'.frames t) = some (.sem sem)

section Keeps

variable {sem : SemId} {v v' : View}

/-- A change of one thread that is not about to test the semaphore. -/
theorem keeps_other (u : Tid) (hu : waits (v.frames u) ≠ some (.sem sem))
    (hsame : ∀ t, t ≠ u → v'.status t = v.status t ∧ v'.frames t = v.frames t) :
    Keeps sem v v' := by
  intro t hstatus hwaits
  have hne : t ≠ u := by
    rintro rfl
    exact hu hwaits
  obtain ⟨h₁, h₂⟩ := hsame t hne
  rw [h₁, h₂]
  exact ⟨hstatus, hwaits⟩

theorem keeps_current {fs : List Frame} (h : waits v.top ≠ some (.sem sem)) :
    Keeps sem v (v.setFrames fs) :=
  keeps_other v.currentThread h fun _ ht => ⟨rfl, Function.update_of_ne ht _ _⟩

theorem keeps_same {fs : List Frame} (h : waits fs = waits v.top) :
    Keeps sem v (v.setFrames fs) := by
  intro t hstatus hwaits
  refine ⟨hstatus, ?_⟩
  change waits (Function.update v.frames v.currentThread fs t) = _
  by_cases ht : t = v.currentThread
  · subst ht
    rw [Function.update_self, h]
    exact hwaits
  · rw [Function.update_of_ne ht]
    exact hwaits

theorem Keeps.trans {v'' : View} (h : Keeps sem v v') (h' : Keeps sem v' v'') :
    Keeps sem v v'' := by
  intro t hstatus hwaits
  obtain ⟨hstatus', hwaits'⟩ := h t hstatus hwaits
  exact h' t hstatus' hwaits'

theorem keeps_sleep {rest : List Frame} (h : waits v.top ≠ some (.sem sem)) :
    Keeps sem v (v.sleep rest) :=
  keeps_other v.currentThread h fun _ ht =>
    ⟨Function.update_of_ne ht _ _, Function.update_of_ne ht _ _⟩

theorem keeps_readyToRun (v : View) (t : Tid) : Keeps sem v (v.readyToRun t) := by
  intro u hstatus hwaits
  refine ⟨?_, hwaits⟩
  change Function.update v.status t .ready u ≠ .blocked
  by_cases hu : u = t
  · subst hu
    simp
  · rw [Function.update_of_ne hu]
    exact hstatus

/-- The thread that loses control waits for what it has waited for. -/
theorem keeps_run {next : Tid} {rest : List Frame} {level : IntStatus}
    (h : waits (.afterSwitch :: rest) = waits v.top ∨ waits v.top ≠ some (.sem sem)) :
    Keeps sem v (v.run next rest level) := by
  obtain ⟨registers, hrun⟩ := v.run_eq next rest level
  rw [hrun]
  intro t hstatus hwaits
  refine ⟨?_, ?_⟩
  · change Function.update v.status next .running t ≠ .blocked
    by_cases ht : t = next
    · subst ht
      simp
    · rw [Function.update_of_ne ht]
      exact hstatus
  · change waits (Function.update v.frames v.currentThread (.afterSwitch :: rest) t) = _
    by_cases ht : t = v.currentThread
    · subst ht
      rw [Function.update_self]
      rcases h with h | h
      · exact h.trans hwaits
      · exact absurd hwaits h
    · rw [Function.update_of_ne ht]
      exact hwaits

end Keeps

namespace Tokens

variable {initialValue : ℕ} {sem : SemId} {v v' : View} {event : Event}

theorem emit (h : Tokens initialValue sem v) (hquiet : quietFor sem event = true) :
    Tokens initialValue sem (v.emit event) := by
  have hwoken : woken sem (v.emit event).log = woken sem v.log := woken_quiet hquiet
  refine ⟨?_, ?_, ?_, ?_⟩
  · change (v.semaphores sem).value + completedP sem (v.log ++ [event]) =
      initialValue + executedV sem (v.log ++ [event])
    rw [completedP_quiet hquiet, executedV_quiet hquiet]
    exact h.count
  · rw [hwoken]
    exact h.nodup
  · rw [hwoken]
    exact h.testing
  · rw [hwoken]
    exact h.not_lost

theorem keep (h : Tokens initialValue sem v) (hsem : v'.semaphores sem = v.semaphores sem)
    (hlog : v'.log = v.log) (hkeep : Keeps sem v v') : Tokens initialValue sem v' := by
  refine ⟨?_, ?_, ?_, ?_⟩
  · rw [hsem, hlog]
    exact h.count
  · rw [hlog]
    exact h.nodup
  · intro t ht
    rw [hlog] at ht
    obtain ⟨hstatus, hwaits⟩ := h.testing t ht
    exact hkeep t hstatus hwaits
  · rw [hsem, hlog]
    exact h.not_lost

theorem goto {fs : List Frame} (h : Tokens initialValue sem v)
    (hnow : waits v.top ≠ some (.sem sem)) : Tokens initialValue sem (v.setFrames fs) :=
  h.keep rfl rfl (keeps_current hnow)

theorem run {next : Tid} {rest : List Frame} {level : IntStatus} (h : Tokens initialValue sem v)
    (hnow : waits (.afterSwitch :: rest) = waits v.top ∨ waits v.top ≠ some (.sem sem)) :
    Tokens initialValue sem (v.run next rest level) := by
  have hkeep : Keeps sem v (v.run next rest level) := keeps_run hnow
  obtain ⟨registers, hrun⟩ := v.run_eq next rest level
  rw [hrun] at hkeep ⊢
  have hentered : Tokens initialValue sem { v with log := v.log ++ v.entering } := by
    unfold entering
    split
    · simpa using h
    · exact h.emit rfl
  have hswitched : Tokens initialValue sem
      { v with log := v.log ++ v.entering ++ [Event.switch next level] } := hentered.emit rfl
  exact hswitched.keep rfl rfl hkeep

theorem resume {rest : List Frame} (h : Tokens initialValue sem v)
    (hnow : v.top = .afterSwitch :: rest) :
    Tokens initialValue sem (v.restoreUserState.setFrames rest) := by
  obtain ⟨context, hrestore⟩ := v.restoreUserState_eq
  rw [hrestore]
  have hreturned : Tokens initialValue sem { v with log := v.log ++ v.returning } := by
    unfold returning
    split
    · simpa using h
    · exact h.emit rfl
  refine hreturned.keep rfl rfl (keeps_same ?_)
  change _ = waits v.top
  rw [hnow]
  rfl

/-! ## The operations of the semaphore itself -/

/-- `currentThread` tests the semaphore, which leaves it among the woken threads no more. -/
theorem tested {taken : Bool} {semaphore : Semaphore} {status : Tid → ThreadStatus}
    {fs : List Frame} (h : Tokens initialValue sem v)
    (hstatus : ∀ t, t ≠ v.currentThread → status t = v.status t)
    (hvalue : semaphore.value + taken.toNat = (v.semaphores sem).value)
    (hlost : semaphore.queue ≠ [] →
      semaphore.value ≤ ((woken sem v.log).erase v.currentThread).length) :
    Tokens initialValue sem
      ({ (v.setSem sem semaphore).emit (.tested sem v.currentThread taken) with
        status := status }.setFrames fs) := by
  have hwoken : woken sem (v.log ++ [Event.tested sem v.currentThread taken]) =
      (woken sem v.log).erase v.currentThread := by
    rw [woken_append]
    exact if_pos rfl
  have hcompleted : completedP sem (v.log ++ [Event.tested sem v.currentThread taken]) =
      completedP sem v.log + taken.toNat := by
    cases taken <;> simp [completedP]
  have hexecuted : executedV sem (v.log ++ [Event.tested sem v.currentThread taken]) =
      executedV sem v.log := by
    simp [executedV]
  have hsem : Function.update v.semaphores sem semaphore sem = semaphore :=
    Function.update_self _ _ _
  have hcount := h.count
  refine ⟨?_, ?_, ?_, ?_⟩
  · change (Function.update v.semaphores sem semaphore sem).value + completedP sem (v.log ++ _) =
      initialValue + executedV sem (v.log ++ _)
    rw [hsem, hcompleted, hexecuted]
    omega
  · change (woken sem (v.log ++ _)).Nodup
    rw [hwoken]
    exact h.nodup.erase _
  · intro t ht
    change t ∈ woken sem (v.log ++ _) at ht
    rw [hwoken] at ht
    obtain ⟨hne, hmem⟩ := (h.nodup.mem_erase_iff).mp ht
    change status t ≠ _ ∧ waits (Function.update v.frames v.currentThread fs t) = _
    rw [hstatus t hne, Function.update_of_ne hne]
    exact h.testing t hmem
  · change (Function.update v.semaphores sem semaphore sem).queue ≠ [] →
      (Function.update v.semaphores sem semaphore sem).value ≤ (woken sem (v.log ++ _)).length
    rw [hsem, hwoken]
    exact hlost

theorem take {oldLevel : IntStatus} {base : List Frame} (h : Tokens initialValue sem v)
    (hpos : (v.semaphores sem).value ≠ 0) :
    Tokens initialValue sem (((v.setSem sem ⟨(v.semaphores sem).value - 1,
      (v.semaphores sem).queue⟩).emit (.tested sem v.currentThread true)).setFrames
      (.restore (.p sem) oldLevel :: base)) := by
  refine h.tested (fun _ _ => rfl) ?_ ?_
  · exact Nat.sub_add_cancel (Nat.pos_of_ne_zero hpos)
  · -- a thread that has not been woken may take the token of one that has
    intro hqueue
    have hvalue := h.not_lost hqueue
    rw [List.length_erase]
    split
    · exact Nat.sub_le_sub_right hvalue 1
    · exact (Nat.sub_le _ 1).trans hvalue

theorem block {oldLevel : IntStatus} {base : List Frame} (h : Tokens initialValue sem v)
    (hzero : (v.semaphores sem).value = 0) :
    Tokens initialValue sem (((v.setSem sem ⟨0, (v.semaphores sem).queue ++
      [v.currentThread]⟩).emit (.tested sem v.currentThread false)).sleep
      (.body (.p sem) oldLevel :: base)) := by
  refine h.tested (fun t ht => Function.update_of_ne ht _ _) hzero.symm ?_
  intro _
  exact Nat.zero_le _

/-- `V` adds a token, and the thread that it removes from the queue to the woken ones. -/
theorem executed {removed : Option Tid} {semaphore : Semaphore} {status : Tid → ThreadStatus}
    {readyList : List Tid} {log : List Event} (h : Tokens initialValue sem { v with log := log })
    (hvalue : semaphore.value = (v.semaphores sem).value + 1)
    (hstatus : ∀ t, v.status t ≠ .blocked → status t ≠ .blocked)
    (hremoved : ∀ t ∈ removed, t ∉ woken sem log ∧ status t ≠ .blocked ∧
      waits (v.frames t) = some (.sem sem))
    (hlost : semaphore.queue ≠ [] →
      (v.semaphores sem).queue ≠ [] ∧ removed.isSome) :
    Tokens initialValue sem { v with
      semaphores := Function.update v.semaphores sem semaphore
      status := status
      readyList := readyList
      log := log ++ [Event.v sem removed] } := by
  have hwoken : woken sem (log ++ [Event.v sem removed]) = woken sem log ++ removed.toList := by
    rw [woken_append]
    cases removed with
    | none => simp [wokenAfter]
    | some t => exact if_pos rfl
  have hcompleted : completedP sem (log ++ [Event.v sem removed]) = completedP sem log := by
    simp [completedP]
  have hexecuted : executedV sem (log ++ [Event.v sem removed]) = executedV sem log + 1 := by
    simp [executedV]
  have hsem : Function.update v.semaphores sem semaphore sem = semaphore :=
    Function.update_self _ _ _
  have hcount : (v.semaphores sem).value + completedP sem log =
      initialValue + executedV sem log := h.count
  refine ⟨?_, ?_, ?_, ?_⟩
  · change (Function.update v.semaphores sem semaphore sem).value + completedP sem (log ++ _) =
      initialValue + executedV sem (log ++ _)
    rw [hsem, hcompleted, hexecuted]
    omega
  · change (woken sem (log ++ _)).Nodup
    rw [hwoken]
    refine List.Nodup.append h.nodup (by cases removed <;> simp) ?_
    intro t hmem ht
    exact (hremoved t (by simpa using ht)).1 hmem
  · intro t ht
    change t ∈ woken sem (log ++ _) at ht
    rw [hwoken, List.mem_append] at ht
    rcases ht with ht | ht
    · obtain ⟨hblocked, hwaits⟩ := h.testing t ht
      exact ⟨hstatus t hblocked, hwaits⟩
    · exact (hremoved t (by simpa using ht)).2
  · change (Function.update v.semaphores sem semaphore sem).queue ≠ [] →
      (Function.update v.semaphores sem semaphore sem).value ≤ (woken sem (log ++ _)).length
    rw [hsem, hwoken]
    intro hqueue
    obtain ⟨hne, hsome⟩ := hlost hqueue
    have hold : (v.semaphores sem).value ≤ (woken sem log).length := h.not_lost hne
    obtain ⟨t, rfl⟩ := Option.isSome_iff_exists.mp hsome
    simp only [Option.toList_some, List.length_append, List.length_singleton]
    omega

theorem token (h : Tokens initialValue sem v) :
    Tokens initialValue sem ((v.setSem sem ⟨(v.semaphores sem).value + 1, []⟩).emit
      (.v sem none)) :=
  h.executed rfl (fun _ ht => ht) nofun (fun hne => absurd rfl hne)

theorem wake {t : Tid} {threads : List Tid} (h : Tokens initialValue sem v) (hplaced : Placed v)
    (hfirst : (v.semaphores sem).queue = t :: threads) :
    Tokens initialValue sem (((v.setSem sem ⟨(v.semaphores sem).value + 1,
      threads⟩).readyToRun t).emit (.v sem (some t))) := by
  have hmem : t ∈ v.queue (.sem sem) := by
    change t ∈ (v.semaphores sem).queue
    rw [hfirst]
    exact List.mem_cons_self
  obtain ⟨hblocked, hwaits⟩ := (hplaced.lists.queue_iff _ t).mp hmem
  have hreadied : Tokens initialValue sem { v with log := v.log ++ [Event.readied t] } := h.emit rfl
  refine hreadied.executed rfl ?_ ?_ ?_
  · intro u hu
    change Function.update v.status t .ready u ≠ .blocked
    by_cases hut : u = t
    · subst hut
      simp
    · rw [Function.update_of_ne hut]
      exact hu
  · intro u hu
    cases hu
    refine ⟨?_, ?_, hwaits⟩
    · intro hwoken
      exact (hreadied.testing t hwoken).1 hblocked
    · change Function.update v.status t .ready t ≠ .blocked
      simp
  · intro _
    rw [hfirst]
    exact ⟨nofun, rfl⟩

/-- A move of another semaphore. -/
theorem other {sem' : SemId} {semaphore : Semaphore} (h : Tokens initialValue sem v)
    (hne : sem' ≠ sem) (hquiet : quietFor sem event = true)
    (hsems : v'.semaphores = Function.update v.semaphores sem' semaphore)
    (hlog : v'.log = v.log ++ [event]) (hkeep : Keeps sem v v') : Tokens initialValue sem v' := by
  refine (h.emit hquiet).keep ?_ hlog hkeep
  rw [hsems, Function.update_of_ne hne.symm]
  rfl

theorem move (h : Tokens initialValue sem v) (hplaced : Placed v) {label : Label}
    (hmove : Move label v v') :
    Tokens initialValue sem v' := by
  have htop : ∀ {fs}, v.top = fs → waits fs ≠ some (.sem sem) → waits v.top ≠ some (.sem sem) := by
    intro fs hfs hne
    rw [hfs]
    exact hne
  have hnone : ∀ {fs}, v.top = fs → waits fs = none → waits v.top ≠ some (.sem sem) := by
    intro fs hfs hwaits
    rw [hfs, hwaits]
    exact (Option.some_ne_none _).symm
  have hsame : Keeps sem v v := fun _ hstatus hwaits => ⟨hstatus, hwaits⟩
  cases hmove with
  | registers registers => exact h.keep rfl rfl hsame
  | startProcess space at_func => exact h.keep rfl rfl hsame
  | go goes => exact h.goto (goes.untested sem)
  | doze dozes => exact h.keep rfl rfl (keeps_same dozes.sameWait)
  | call op level goes => exact (h.emit rfl).goto (goes.untested sem)
  | leave at_ret next => exact (h.emit rfl).goto (hnone at_ret rfl)
  | handlerV sem level => exact h.emit rfl
  | take at_body pos =>
      rename_i sem' oldLevel base
      by_cases hsem : sem' = sem
      · subst hsem
        exact h.take pos
      · refine h.other hsem (by simpa [quietFor] using hsem) rfl rfl ?_
        exact keeps_current (htop at_body (by simpa [waits] using hsem))
  | block at_body zero =>
      rename_i sem' oldLevel base
      by_cases hsem : sem' = sem
      · subst hsem
        exact h.block zero
      · refine h.other hsem (by simpa [quietFor] using hsem) rfl rfl ?_
        exact keeps_sleep (htop at_body (by simpa [waits] using hsem))
  | token empty =>
      rename_i sem'
      by_cases hsem : sem' = sem
      · subst hsem
        exact h.token
      · exact h.other hsem (by simpa [quietFor] using hsem) rfl rfl hsame
  | wake first =>
      rename_i sem' t threads
      by_cases hsem : sem' = sem
      · subst hsem
        exact h.wake hplaced first
      · have hreadied : Tokens initialValue sem (v.readyToRun t) :=
          (h.emit rfl).keep rfl rfl (keeps_readyToRun v t)
        exact hreadied.other hsem (by simpa [quietFor] using hsem) rfl rfl fun _ h₁ h₂ => ⟨h₁, h₂⟩
  | reacquire at_body held => exact (h.emit rfl).goto (hnone at_body rfl)
  | acquire at_body other free =>
      exact ((h.emit rfl).emit rfl).keep rfl rfl (keeps_current (hnone at_body rfl))
  | enqueue at_body other busy =>
      exact (h.emit rfl).keep rfl rfl (keeps_sleep (hnone at_body rfl))
  | foreignRelease at_body other => exact (h.emit rfl).goto (hnone at_body rfl)
  | release at_body held empty =>
      exact (h.emit rfl).keep rfl rfl (keeps_current (hnone at_body rfl))
  | handOff at_body held first =>
      refine (((h.emit rfl).emit rfl).emit rfl).keep rfl rfl ?_
      exact (keeps_readyToRun v _).trans (keeps_current (hnone at_body rfl))
  | fork at_body created =>
      rename_i t oldLevel base
      refine (h.emit rfl).keep rfl rfl (Keeps.trans (?_ : Keeps sem _ (v.fork t)) ?_)
      · refine keeps_other t ?_ fun u hu => ⟨Function.update_of_ne hu _ _,
          Function.update_of_ne hu _ _⟩
        change waits (v.frames t) ≠ _
        rw [hplaced.framed.fresh t created]
        exact (Option.some_ne_none _).symm
      · apply keeps_current
        rw [hplaced.top_fork created]
        exact hnone at_body rfl
  | finish called at_func => exact (h.emit rfl).keep rfl rfl (keeps_sleep (hnone at_func rfl))
  | yield at_body ready rest =>
      rename_i oldLevel base next readyList
      have hreadied : Tokens initialValue sem
          (({ v with readyList := readyList } : View).readyToRun v.currentThread) :=
        (h.emit rfl).keep rfl rfl (keeps_readyToRun v _)
      exact hreadied.run (.inr (hnone at_body rfl))
  | dispatch at_sleep ready waiting =>
      rename_i rest next readyList
      have hremoved : Tokens initialValue sem { v with readyList := readyList } :=
        h.keep rfl rfl hsame
      refine hremoved.run (.inl ?_)
      change _ = waits v.top
      rw [at_sleep]
      rfl
  | delete at_switch destroy => exact (h.emit rfl).keep rfl rfl hsame
  | resume at_switch next destroy => exact h.resume at_switch

end Tokens

/-! ## No token and no wakeup is lost -/

/-- A woken thread is on its way to its test. -/
theorem Tokens.on_its_way {s : System} {initialValue : ℕ} {sem : SemId} {t : Tid}
    (h : Tokens initialValue sem s.view) (hs : WellFormed s) (ht : t ∈ woken sem s.log) :
    t ∈ s.readyList ∨ t = s.currentThread ∧ waits s.frames = some (.sem sem) := by
  obtain ⟨hblocked, hwaits⟩ := h.testing t ht
  cases hstatus : s.view.status t with
  | justCreated =>
      rw [hs.placed.framed.fresh t hstatus] at hwaits
      cases hwaits
  | running =>
      obtain rfl := hs.placed.lists.running t hstatus
      exact .inr ⟨rfl, hwaits⟩
  | ready => exact .inl ((hs.placed.lists.ready_iff t).mpr hstatus)
  | blocked => exact absurd hstatus hblocked

/-- In every interleaving, the tokens of a semaphore are accounted for; and while threads are
queued there are no more tokens than woken threads on their way to take them. -/
theorem semaphore_correct (initialValue : SemId → ℕ) (labels : List Label) :
    AllStates step (fun s => ∀ sem,
      (s.semaphores sem).value + completedP sem s.log = initialValue sem + executedV sem s.log ∧
      ((s.semaphores sem).queue ≠ [] →
        (s.semaphores sem).value ≤ (woken sem s.log).length) ∧
      (woken sem s.log).Nodup ∧
      ∀ t ∈ woken sem s.log,
        t ∈ s.readyList ∨ t = s.currentThread ∧ waits s.frames = some (.sem sem))
      (boot initialValue) labels := by
  have hall := allStates_of_move (P := fun v => ∀ sem, Tokens (initialValue sem) sem v)
    (fun _ v v' hplaced hmove h sem => (h sem).move hplaced hmove) initialValue ?_ labels
  · apply hall.mono
    rintro s ⟨hs, htokens⟩ sem
    have h := htokens sem
    exact ⟨h.count, h.not_lost, h.nodup, fun t ht => h.on_its_way hs ht⟩
  · intro sem
    exact ⟨rfl, List.nodup_nil, nofun, fun hne => absurd rfl hne⟩

end Nachos.System
