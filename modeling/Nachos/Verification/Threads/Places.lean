import Nachos.Verification.Threads.Moves

/-! # Where a thread is

The status and the frames of a thread tell in which list it is. -/

namespace Nachos.System

/-- Every thread is in the list that its status and its frames name, and there once. -/
structure PlacedAt (current : Tid) (readyList : List Tid) (status : Tid → ThreadStatus)
    (frames : Tid → List Frame) (queue : Wait → List Tid) : Prop where
  ready_nodup : readyList.Nodup
  ready_iff : ∀ t, t ∈ readyList ↔ status t = .ready
  queue_nodup : ∀ w, (queue w).Nodup
  queue_iff : ∀ w t, t ∈ queue w ↔ status t = .blocked ∧ waits (frames t) = some w
  running : ∀ t, status t = .running → t = current
  created : status current ≠ .justCreated
  current : status current = .running ↔ asleep (frames current) = false

/-- A thread that does not have control is parked, and a thread that is blocked has finished
or waits in a queue. -/
structure FramedAt (current : Tid) (status : Tid → ThreadStatus) (frames : Tid → List Frame) :
    Prop where
  parked : ∀ t, t ≠ current → status t ≠ .justCreated → Parked (frames t)
  fresh : ∀ t, status t = .justCreated → frames t = []
  finished : ∀ t, ended (frames t) = true → status t = .blocked
  blocked : ∀ t, status t = .blocked → ended (frames t) = true ∨ ∃ w, waits (frames t) = some w

namespace PlacedAt

variable {current next t : Tid} {readyList : List Tid} {status : Tid → ThreadStatus}
  {frames : Tid → List Frame} {queue : Wait → List Tid} {fs : List Frame} {w : Wait}

theorem not_mem_queue (h : PlacedAt current readyList status frames queue)
    (hrun : status t ≠ .blocked) (w : Wait) : t ∉ queue w := by
  intro hmem
  exact hrun ((h.queue_iff w t).mp hmem).1

/-- The running thread goes on in other frames. -/
theorem setFrames (h : PlacedAt current readyList status frames queue)
    (hrun : status current = .running) (hfs : asleep fs = false) :
    PlacedAt current readyList status (Function.update frames current fs) queue := by
  refine ⟨h.ready_nodup, h.ready_iff, h.queue_nodup, ?_, h.running, h.created, ?_⟩
  · intro w t
    rw [h.queue_iff]
    by_cases ht : t = current
    · subst ht
      simp [hrun]
    · rw [Function.update_of_ne ht]
  · simp [hrun, hfs]

/-- The sleeping thread goes on in the loop of `Sleep`. -/
theorem keepSleeping (h : PlacedAt current readyList status frames queue)
    (hsleep : asleep (frames current) = true) (hfs : asleep fs = true)
    (hwaits : waits fs = waits (frames current)) :
    PlacedAt current readyList status (Function.update frames current fs) queue := by
  refine ⟨h.ready_nodup, h.ready_iff, h.queue_nodup, ?_, h.running, h.created, ?_⟩
  · intro w t
    rw [h.queue_iff]
    by_cases ht : t = current
    · subst ht
      simp [hwaits]
    · rw [Function.update_of_ne ht]
  · rw [h.current]
    simp [hsleep, hfs]

/-- The running thread appends itself to a queue and sleeps. -/
theorem block (h : PlacedAt current readyList status frames queue) (fs : List Frame)
    (hrun : status current = .running) (hfs : asleep fs = true) (hwaits : waits fs = some w) :
    PlacedAt current readyList (Function.update status current .blocked)
      (Function.update frames current fs) (Function.update queue w (queue w ++ [current])) := by
  have hout := h.not_mem_queue (t := current) (by simp [hrun])
  refine ⟨h.ready_nodup, ?_, ?_, ?_, ?_, ?_, ?_⟩
  · intro t
    rw [h.ready_iff]
    by_cases ht : t = current
    · subst ht
      simp [hrun]
    · rw [Function.update_of_ne ht]
  · intro w'
    by_cases hw : w' = w
    · subst hw
      rw [Function.update_self]
      exact (h.queue_nodup w').append (List.nodup_singleton current)
        (by simpa using hout w')
    · rw [Function.update_of_ne hw]
      exact h.queue_nodup w'
  · intro w' t
    by_cases ht : t = current
    · subst ht
      by_cases hw : w' = w
      · subst hw
        simp [hwaits]
      · simp [Function.update_of_ne hw, hout w', hwaits, Ne.symm hw]
    · rw [Function.update_of_ne ht, Function.update_of_ne ht, ← h.queue_iff]
      by_cases hw : w' = w
      · subst hw
        simp [ht]
      · rw [Function.update_of_ne hw]
  · intro t ht
    by_cases heq : t = current
    · exact heq
    · rw [Function.update_of_ne heq] at ht
      exact h.running t ht
  · simp
  · simp [hfs]

/-- The running thread finishes: it sleeps and waits for nothing. -/
theorem finish (h : PlacedAt current readyList status frames queue)
    (hrun : status current = .running) :
    PlacedAt current readyList (Function.update status current .blocked)
      (Function.update frames current [.sleep]) queue := by
  have hout := h.not_mem_queue (t := current) (by simp [hrun])
  refine ⟨h.ready_nodup, ?_, h.queue_nodup, ?_, ?_, ?_, ?_⟩
  · intro t
    rw [h.ready_iff]
    by_cases ht : t = current
    · subst ht
      simp [hrun]
    · rw [Function.update_of_ne ht]
  · intro w t
    by_cases ht : t = current
    · subst ht
      simp [hout w, waits]
    · rw [Function.update_of_ne ht, Function.update_of_ne ht, h.queue_iff]
  · intro t ht
    by_cases heq : t = current
    · exact heq
    · rw [Function.update_of_ne heq] at ht
      exact h.running t ht
  · simp
  · simp [asleep]

/-- The first thread of a queue is made ready. -/
theorem wake (h : PlacedAt current readyList status frames queue) {rest : List Tid}
    (hqueue : queue w = t :: rest) :
    PlacedAt current (readyList ++ [t]) (Function.update status t .ready) frames
      (Function.update queue w rest) := by
  have hblocked : status t = .blocked ∧ waits (frames t) = some w := by
    rw [← h.queue_iff, hqueue]
    exact List.mem_cons_self
  have hnodup := h.queue_nodup w
  rw [hqueue, List.nodup_cons] at hnodup
  refine ⟨?_, ?_, ?_, ?_, ?_, ?_, ?_⟩
  · apply h.ready_nodup.append (List.nodup_singleton t)
    simp [h.ready_iff, hblocked.1]
  · intro u
    rw [List.mem_append, List.mem_singleton, h.ready_iff]
    by_cases hu : u = t
    · subst hu
      simp
    · rw [Function.update_of_ne hu]
      simp [hu]
  · intro w'
    by_cases hw : w' = w
    · subst hw
      rw [Function.update_self]
      exact hnodup.2
    · rw [Function.update_of_ne hw]
      exact h.queue_nodup w'
  · intro w' u
    by_cases hu : u = t
    · subst hu
      simp only [Function.update_self, reduceCtorEq, false_and, iff_false]
      by_cases hw : w' = w
      · subst hw
        rw [Function.update_self]
        exact hnodup.1
      · rw [Function.update_of_ne hw, h.queue_iff, hblocked.2]
        simp [Ne.symm hw]
    · rw [Function.update_of_ne hu, ← h.queue_iff]
      by_cases hw : w' = w
      · subst hw
        rw [Function.update_self, hqueue]
        simp [hu]
      · rw [Function.update_of_ne hw]
  · intro u hu
    by_cases heq : u = t
    · subst heq
      simp at hu
    · rw [Function.update_of_ne heq] at hu
      exact h.running u hu
  · by_cases heq : current = t
    · subst heq
      simp
    · rw [Function.update_of_ne heq]
      exact h.created
  · by_cases heq : current = t
    · subst heq
      have hsleep := h.current
      rw [hblocked.1] at hsleep
      simpa using hsleep
    · rw [Function.update_of_ne heq]
      exact h.current

/-- A new thread is made ready. -/
theorem fork (h : PlacedAt current readyList status frames queue)
    (hcreated : status t = .justCreated) :
    PlacedAt current (readyList ++ [t]) (Function.update status t .ready)
      (Function.update frames t fs) queue := by
  have hne : current ≠ t := by
    rintro rfl
    exact h.created hcreated
  refine ⟨?_, ?_, h.queue_nodup, ?_, ?_, ?_, ?_⟩
  · apply h.ready_nodup.append (List.nodup_singleton t)
    simp [h.ready_iff, hcreated]
  · intro u
    rw [List.mem_append, List.mem_singleton, h.ready_iff]
    by_cases hu : u = t
    · subst hu
      simp
    · rw [Function.update_of_ne hu]
      simp [hu]
  · intro w u
    rw [h.queue_iff]
    by_cases hu : u = t
    · subst hu
      simp [hcreated]
    · rw [Function.update_of_ne hu, Function.update_of_ne hu]
  · intro u hu
    by_cases heq : u = t
    · subst heq
      simp at hu
    · rw [Function.update_of_ne heq] at hu
      exact h.running u hu
  · rw [Function.update_of_ne hne]
    exact h.created
  · rw [Function.update_of_ne hne, Function.update_of_ne hne]
    exact h.current

/-- The sleeping thread gives the processor to the first thread of the ready list, which may
be itself. -/
theorem dispatch (h : PlacedAt current (next :: readyList) status frames queue)
    (hsleep : asleep (frames current) = true) (hwaits : waits fs = waits (frames current))
    (hfs : asleep fs = false) (hnext : next ≠ current → asleep (frames next) = false) :
    PlacedAt next readyList (Function.update status next .running)
      (Function.update frames current fs) queue := by
  have hnodup := h.ready_nodup
  rw [List.nodup_cons] at hnodup
  have hready : status next = .ready := (h.ready_iff next).mp List.mem_cons_self
  have hasleep : status current ≠ .running := by
    intro hrun
    rw [h.current, hsleep] at hrun
    cases hrun
  have hwaits' : ∀ u, waits (Function.update frames current fs u) = waits (frames u) := by
    intro u
    by_cases hu : u = current
    · subst hu
      rw [Function.update_self, hwaits]
    · rw [Function.update_of_ne hu]
  refine ⟨hnodup.2, ?_, h.queue_nodup, ?_, ?_, ?_, ?_⟩
  · intro u
    by_cases hu : u = next
    · subst hu
      simp [hnodup.1]
    · rw [Function.update_of_ne hu, ← h.ready_iff]
      simp [hu]
  · intro w u
    rw [hwaits', h.queue_iff]
    by_cases hu : u = next
    · subst hu
      simp [hready]
    · rw [Function.update_of_ne hu]
  · intro u hu
    by_cases heq : u = next
    · exact heq
    · rw [Function.update_of_ne heq] at hu
      obtain rfl := h.running u hu
      exact absurd hu hasleep
  · simp
  · by_cases heq : next = current
    · subst heq
      simp [hfs]
    · simp [Function.update_of_ne heq, hnext heq]

/-- The running thread puts itself on the ready list. -/
theorem yield (h : PlacedAt current (next :: readyList) status frames queue)
    (hrun : status current = .running) (hnext : asleep (frames next) = false) :
    PlacedAt next (readyList ++ [current])
      (Function.update (Function.update status current .ready) next .running)
      (Function.update frames current fs) queue := by
  have hnodup := h.ready_nodup
  rw [List.nodup_cons] at hnodup
  have hready : status next = .ready := (h.ready_iff next).mp List.mem_cons_self
  have hne : next ≠ current := by
    rintro rfl
    rw [hready] at hrun
    cases hrun
  have hout : current ∉ readyList := by
    intro hmem
    have hstatus := (h.ready_iff current).mp (List.mem_cons_of_mem next hmem)
    rw [hrun] at hstatus
    cases hstatus
  refine ⟨?_, ?_, h.queue_nodup, ?_, ?_, ?_, ?_⟩
  · apply hnodup.2.append (List.nodup_singleton current)
    simpa using hout
  · intro u
    by_cases hu : u = next
    · subst hu
      simp [hnodup.1, hne]
    · rw [Function.update_of_ne hu]
      by_cases hc : u = current
      · subst hc
        simp
      · rw [Function.update_of_ne hc, ← h.ready_iff]
        simp [hu, hc]
  · intro w u
    rw [h.queue_iff]
    by_cases hu : u = next
    · subst hu
      simp [hready]
    · rw [Function.update_of_ne hu]
      by_cases hc : u = current
      · subst hc
        simp [hrun]
      · rw [Function.update_of_ne hc, Function.update_of_ne hc]
  · intro u hu
    by_cases heq : u = next
    · exact heq
    · rw [Function.update_of_ne heq] at hu
      by_cases hc : u = current
      · subst hc
        simp at hu
      · rw [Function.update_of_ne hc] at hu
        exact absurd (h.running u hu) hc
  · simp
  · simp [Function.update_of_ne hne, hnext]

end PlacedAt

namespace FramedAt

variable {current next t : Tid} {status : Tid → ThreadStatus} {frames : Tid → List Frame}
  {fs : List Frame} {new : ThreadStatus}

/-- One thread gets a new status and new frames. -/
theorem update (h : FramedAt current status frames) (hcreated : new ≠ .justCreated)
    (hparked : t ≠ current → Parked fs) (hended : ended fs = true → new = .blocked)
    (hblocked : new = .blocked → ended fs = true ∨ ∃ w, waits fs = some w) :
    FramedAt current (Function.update status t new) (Function.update frames t fs) := by
  refine ⟨?_, ?_, ?_, ?_⟩
  · intro u hu hstatus
    by_cases heq : u = t
    · subst heq
      rw [Function.update_self]
      exact hparked hu
    · rw [Function.update_of_ne heq] at hstatus ⊢
      exact h.parked u hu hstatus
  · intro u hu
    by_cases heq : u = t
    · subst heq
      rw [Function.update_self] at hu
      exact absurd hu hcreated
    · rw [Function.update_of_ne heq] at hu ⊢
      exact h.fresh u hu
  · intro u hu
    by_cases heq : u = t
    · subst heq
      rw [Function.update_self] at hu ⊢
      exact hended hu
    · rw [Function.update_of_ne heq] at hu ⊢
      exact h.finished u hu
  · intro u hu
    by_cases heq : u = t
    · subst heq
      rw [Function.update_self] at hu ⊢
      exact hblocked hu
    · rw [Function.update_of_ne heq] at hu ⊢
      exact h.blocked u hu

theorem setFrames (h : FramedAt current status frames) (hcreated : status current ≠ .justCreated)
    (hended : ended fs = true → status current = .blocked)
    (hblocked : status current = .blocked → ended fs = true ∨ ∃ w, waits fs = some w) :
    FramedAt current status (Function.update frames current fs) := by
  have hupdate := h.update hcreated (fun hne => absurd rfl hne) hended hblocked
  rwa [Function.update_eq_self] at hupdate

theorem setRunning (h : FramedAt current status frames) (hrun : status current = .running)
    (hfs : Plain fs) : FramedAt current status (Function.update frames current fs) := by
  apply h.setFrames
  · rw [hrun]
    nofun
  · intro hended
    rw [hfs.not_ended] at hended
    cases hended
  · rw [hrun]
    nofun

theorem setStatus (h : FramedAt current status frames) (hcreated : status t ≠ .justCreated)
    (hnew : new ≠ .justCreated) (hended : ended (frames t) = true → new = .blocked)
    (hblocked : new ≠ .blocked) : FramedAt current (Function.update status t new) frames := by
  have hupdate := h.update hnew (fun hne => h.parked t hne hcreated) hended
    (fun hnew => absurd hnew hblocked)
  rwa [Function.update_eq_self] at hupdate

/-- Another thread gets control. -/
theorem switch (h : FramedAt current status frames) (hparked : Parked (frames current)) :
    FramedAt next status frames := by
  refine ⟨?_, h.fresh, h.finished, h.blocked⟩
  intro t ht hstatus
  by_cases heq : t = current
  · subst heq
    exact hparked
  · exact h.parked t heq hstatus

theorem run {rest : List Frame} (h : FramedAt current status frames)
    (hcreated : status current ≠ .justCreated)
    (hended : ended (.afterSwitch :: rest) = true → status current = .blocked)
    (hblocked : status current = .blocked →
      ended (.afterSwitch :: rest) = true ∨ ∃ w, waits (.afterSwitch :: rest) = some w)
    (hwaiting : Waiting rest) (hnext : status next = .ready) :
    FramedAt next (Function.update status next .running)
      (Function.update frames current (.afterSwitch :: rest)) := by
  have hframes := h.setFrames hcreated hended hblocked
  have hswitch : FramedAt next status (Function.update frames current (.afterSwitch :: rest)) := by
    apply hframes.switch
    rw [Function.update_self]
    exact hwaiting
  apply hswitch.setStatus
  · rw [hnext]
    nofun
  · nofun
  · intro hfs
    have hsleep := hswitch.finished next hfs
    rw [hnext] at hsleep
    cases hsleep
  · nofun

end FramedAt

/-! ## Moves keep the places -/

/-- What every view of a run satisfies. -/
structure Placed (v : View) : Prop where
  lists : PlacedAt v.currentThread v.readyList v.status v.frames v.queue
  framed : FramedAt v.currentThread v.status v.frames
  destroy : ∀ t, v.threadToBeDestroyed = some t → ended (v.frames t) = true

namespace View

theorem queue_setSem (v : View) (sem : SemId) (semaphore : Semaphore) :
    (v.setSem sem semaphore).queue = Function.update v.queue (.sem sem) semaphore.queue := by
  funext w
  cases w with
  | sem sem' =>
      by_cases h : sem' = sem
      · subst h
        simp [queue, setSem]
      · simp [queue, setSem, h]
  | lock lock => simp [queue, setSem]

theorem queue_setLock (v : View) (lock : LockId) (l : Lock) :
    (v.setLock lock l).queue = Function.update v.queue (.lock lock) l.queue := by
  funext w
  cases w with
  | sem sem => simp [queue, setLock]
  | lock lock' =>
      by_cases h : lock' = lock
      · subst h
        simp [queue, setLock]
      · simp [queue, setLock, h]

theorem queue_setSem_same (v : View) (sem : SemId) {semaphore : Semaphore}
    (h : semaphore.queue = (v.semaphores sem).queue) :
    (v.setSem sem semaphore).queue = v.queue := by
  rw [queue_setSem, h]
  exact Function.update_eq_self (Wait.sem sem) v.queue

theorem queue_setLock_same (v : View) (lock : LockId) {l : Lock}
    (h : l.queue = (v.locks lock).queue) : (v.setLock lock l).queue = v.queue := by
  rw [queue_setLock, h]
  exact Function.update_eq_self (Wait.lock lock) v.queue

end View

namespace Placed

variable {label : Label} {v v' : View} {fs rest : List Frame} {t : Tid}

theorem running (h : Placed v) (hplain : Plain v.top) : v.status v.currentThread = .running :=
  h.lists.current.mpr hplain.awake

/-- A thread that is to be destroyed does not run. -/
theorem not_destroy (h : Placed v) (hplain : Plain v.top)
    (ht : v.threadToBeDestroyed = some t) : t ≠ v.currentThread := by
  rintro rfl
  have hended := h.destroy v.currentThread ht
  change ended v.top = true at hended
  rw [hplain.not_ended] at hended
  cases hended

theorem goto (h : Placed v) (hnow : Plain v.top) (hnext : Plain fs) : Placed (v.setFrames fs) := by
  refine ⟨h.lists.setFrames (h.running hnow) hnext.awake, ?_, ?_⟩
  · exact h.framed.setRunning (h.running hnow) hnext
  · intro t ht
    change ended (Function.update v.frames v.currentThread fs t) = true
    rw [Function.update_of_ne (h.not_destroy hnow ht)]
    exact h.destroy t ht

theorem doze (h : Placed v) (hdoze : Dozes v.top fs) : Placed (v.setFrames fs) := by
  refine ⟨h.lists.keepSleeping hdoze.now hdoze.next hdoze.sameWait, ?_, ?_⟩
  · apply h.framed.setFrames h.lists.created
    · rw [hdoze.sameEnd]
      exact h.framed.finished v.currentThread
    · rw [hdoze.sameEnd, hdoze.sameWait]
      exact h.framed.blocked v.currentThread
  · intro t ht
    change ended (Function.update v.frames v.currentThread fs t) = true
    by_cases heq : t = v.currentThread
    · subst heq
      rw [Function.update_self, hdoze.sameEnd]
      exact h.destroy _ ht
    · rw [Function.update_of_ne heq]
      exact h.destroy t ht

section Queues

variable {w : Wait} {semaphores : SemId → Semaphore} {locks : LockId → Lock} {log : List Event}

/-- A change that leaves the queues alone. -/
theorem sameQueues (h : Placed v)
    (hqueue : ({ v with semaphores := semaphores, locks := locks } : View).queue = v.queue) :
    Placed { v with semaphores := semaphores, locks := locks, log := log } := by
  refine ⟨?_, h.framed, h.destroy⟩
  have hlists := h.lists
  rw [← hqueue] at hlists
  exact hlists

/-- The running thread is put on a queue and sleeps. -/
theorem enqueue (h : Placed v) (hnow : Plain v.top) (hwaits : waits rest = some w)
    (hqueue : ({ v with semaphores := semaphores, locks := locks } : View).queue =
      Function.update v.queue w (v.queue w ++ [v.currentThread])) :
    Placed ({ v with semaphores := semaphores, locks := locks, log := log }.sleep rest) := by
  refine ⟨?_, ?_, ?_⟩
  · have hlists := h.lists.block (.sleep :: rest) (h.running hnow) rfl hwaits
    rw [← hqueue] at hlists
    exact hlists
  · apply h.framed.update
    · nofun
    · exact fun hne => absurd rfl hne
    · intro _
      rfl
    · intro _
      exact .inr ⟨w, hwaits⟩
  · intro t ht
    change ended (Function.update v.frames v.currentThread (.sleep :: rest) t) = true
    rw [Function.update_of_ne (h.not_destroy hnow ht)]
    exact h.destroy t ht

/-- The first thread of a queue is made ready. -/
theorem wake {threads : List Tid} (h : Placed v) (hfirst : v.queue w = t :: threads)
    (hqueue : ({ v with semaphores := semaphores, locks := locks } : View).queue =
      Function.update v.queue w threads) :
    Placed ({ v with semaphores := semaphores, locks := locks, log := log }.readyToRun t) := by
  have hwaits : v.status t = .blocked ∧ waits (v.frames t) = some w := by
    rw [← h.lists.queue_iff, hfirst]
    exact List.mem_cons_self
  refine ⟨?_, ?_, h.destroy⟩
  · have hlists := h.lists.wake hfirst
    rw [← hqueue] at hlists
    exact hlists
  · apply h.framed.setStatus
    · rw [hwaits.1]
      nofun
    · nofun
    · intro hended
      have hnone := waits_of_ended hended
      rw [hwaits.2] at hnone
      cases hnone
    · nofun

end Queues

theorem fork (h : Placed v) (hcreated : v.status t = .justCreated) : Placed (v.fork t) := by
  refine ⟨h.lists.fork hcreated, ?_, ?_⟩
  · apply h.framed.update
    · nofun
    · exact fun _ => rfl
    · nofun
    · nofun
  · intro u hu
    have hended := h.destroy u hu
    change ended (Function.update v.frames t [.threadRoot] u) = true
    by_cases heq : u = t
    · subst heq
      rw [h.framed.fresh u hcreated] at hended
      cases hended
    · rw [Function.update_of_ne heq]
      exact hended

theorem top_fork (h : Placed v) (hcreated : v.status t = .justCreated) :
    (v.fork t).top = v.top := by
  have hne : v.currentThread ≠ t := by
    rintro rfl
    exact h.lists.created hcreated
  exact Function.update_of_ne hne _ v.frames

theorem finish (h : Placed v) (hnow : Plain v.top) : Placed v.finish := by
  refine ⟨h.lists.finish (h.running hnow), ?_, ?_⟩
  · apply h.framed.update
    · nofun
    · exact fun hne => absurd rfl hne
    · intro _
      rfl
    · intro _
      exact .inl rfl
  · intro t ht
    cases ht
    change ended (Function.update v.frames v.currentThread [.sleep] v.currentThread) = true
    rw [Function.update_self]
    rfl

/-- The thread at the head of the ready list, when it gets control. -/
theorem ready_next {next : Tid} {readyList : List Tid} (h : Placed v)
    (hready : v.readyList = next :: readyList) : v.status next = .ready := by
  rw [← h.lists.ready_iff, hready]
  exact List.mem_cons_self

theorem dispatch {next : Tid} {readyList : List Tid} (h : Placed v)
    (hnow : v.top = .sleep :: rest) (hready : v.readyList = next :: readyList)
    (hwaiting : Waiting rest) :
    Placed ({ v with readyList := readyList }.run next rest .intOff) := by
  have hstatus := h.ready_next hready
  have hlists := h.lists
  rw [hready] at hlists
  obtain ⟨registers, hrun⟩ := ({ v with readyList := readyList } : View).run_eq next rest .intOff
  rw [hrun]
  have hended : ended (.afterSwitch :: rest) = ended v.top := by
    rw [hnow, Bool.eq_iff_iff, ended_sleep_iff, ended_afterSwitch_iff]
  refine ⟨?_, ?_, ?_⟩
  · refine hlists.dispatch ?_ ?_ rfl ?_
    · exact congrArg asleep hnow
    · exact (congrArg waits hnow).symm
    · intro hne
      exact (h.framed.parked next hne (by simp [hstatus])).awake
  · refine h.framed.run h.lists.created ?_ ?_ hwaiting hstatus
    · rw [hended]
      exact h.framed.finished v.currentThread
    · have hwaits : waits (.afterSwitch :: rest) = waits v.top := by
        rw [hnow]
        rfl
      rw [hended, hwaits]
      exact h.framed.blocked v.currentThread
  · intro t ht
    change ended (Function.update v.frames v.currentThread (.afterSwitch :: rest) t) = true
    by_cases heq : t = v.currentThread
    · subst heq
      rw [Function.update_self, hended]
      exact h.destroy _ ht
    · rw [Function.update_of_ne heq]
      exact h.destroy t ht

theorem yield {next : Tid} {readyList : List Tid} {oldLevel : IntStatus} {base : List Frame}
    (h : Placed v) (hnow : v.top = .body .yield oldLevel :: base)
    (hready : v.readyList = next :: readyList) (hbase : Returns oldLevel base) :
    Placed (({ v with readyList := readyList }.readyToRun v.currentThread).run next
      (.restore .yield oldLevel :: base) .intOff) := by
  have hplain : Plain v.top := by
    rw [hnow]
    trivial
  have hrunning := h.running hplain
  have hstatus := h.ready_next hready
  have hne : next ≠ v.currentThread := by
    rintro rfl
    rw [hstatus] at hrunning
    cases hrunning
  have hlists := h.lists
  rw [hready] at hlists
  obtain ⟨registers, hrun⟩ := (({ v with readyList := readyList } : View).readyToRun
    v.currentThread).run_eq next (.restore .yield oldLevel :: base) .intOff
  rw [hrun]
  refine ⟨?_, ?_, ?_⟩
  · apply hlists.yield hrunning
    exact (h.framed.parked next hne (by simp [hstatus])).awake
  · have hready : FramedAt v.currentThread (Function.update v.status v.currentThread .ready)
        v.frames := by
      apply h.framed.setStatus h.lists.created
      · nofun
      · intro hended
        change ended v.top = true at hended
        rw [hplain.not_ended] at hended
        cases hended
      · nofun
    apply hready.run
    · rw [Function.update_self]
      nofun
    · nofun
    · rw [Function.update_self]
      nofun
    · exact .inr hbase
    · rw [Function.update_of_ne hne]
      exact hstatus
  · intro t ht
    change ended (Function.update v.frames v.currentThread _ t) = true
    rw [Function.update_of_ne (h.not_destroy hplain ht)]
    exact h.destroy t ht

theorem resume (h : Placed v) (hnow : v.top = .afterSwitch :: rest) (hrest : Resumes rest)
    (hdestroy : v.threadToBeDestroyed = none) : Placed (v.restoreUserState.setFrames rest) := by
  obtain ⟨context, hrestore⟩ := v.restoreUserState_eq
  rw [hrestore]
  have hrunning : v.status v.currentThread = .running :=
    h.lists.current.mpr (congrArg asleep hnow)
  refine ⟨h.lists.setFrames hrunning hrest.plain.awake, ?_, ?_⟩
  · exact h.framed.setRunning hrunning hrest.plain
  · intro t ht
    change v.threadToBeDestroyed = some t at ht
    rw [hdestroy] at ht
    cases ht

theorem move (h : Placed v) (hmove : View.Move label v v') : Placed v' := by
  have hplain : ∀ {op oldLevel base}, v.top = .body op oldLevel :: base → Plain v.top := by
    intro op oldLevel base htop
    rw [htop]
    trivial
  cases hmove with
  | registers registers => exact ⟨h.lists, h.framed, h.destroy⟩
  | startProcess space at_func => exact ⟨h.lists, h.framed, h.destroy⟩
  | go goes => exact h.goto goes.now goes.next
  | doze dozes => exact h.doze dozes
  | call op level goes =>
      have hcalled : Placed (v.emit (.called v.currentThread op level)) :=
        ⟨h.lists, h.framed, h.destroy⟩
      exact hcalled.goto goes.now trivial
  | leave at_ret next =>
      rename_i op level rest
      have hleft : Placed (v.emit (.left v.currentThread op level)) :=
        ⟨h.lists, h.framed, h.destroy⟩
      apply hleft.goto _ next.plain
      change Plain v.top
      rw [at_ret]
      trivial
  | handlerV sem level => exact ⟨h.lists, h.framed, h.destroy⟩
  | take at_body pos =>
      rename_i sem oldLevel base
      have htaken : Placed ((v.setSem sem ⟨(v.semaphores sem).value - 1,
          (v.semaphores sem).queue⟩).emit (.tested sem v.currentThread true)) :=
        h.sameQueues (v.queue_setSem_same sem rfl)
      exact htaken.goto (hplain at_body) trivial
  | block at_body zero => exact h.enqueue (hplain at_body) rfl (v.queue_setSem _ _)
  | token empty => exact h.sameQueues (v.queue_setSem_same _ empty.symm)
  | wake first =>
      rename_i sem t threads
      have hwoken : Placed ((v.setSem sem ⟨(v.semaphores sem).value + 1, threads⟩).readyToRun t) :=
        h.wake (w := .sem sem) first (v.queue_setSem sem _)
      exact ⟨hwoken.lists, hwoken.framed, hwoken.destroy⟩
  | reacquire at_body held =>
      rename_i lock oldLevel base
      have hemit : Placed (v.emit (.acquire lock v.currentThread)) :=
        ⟨h.lists, h.framed, h.destroy⟩
      exact hemit.goto (hplain at_body) trivial
  | acquire at_body other free =>
      rename_i lock oldLevel base
      have howned : Placed (((v.emit (.acquire lock v.currentThread)).setLock lock
          ⟨.busy, some v.currentThread, (v.locks lock).queue⟩).emit
          (.granted lock v.currentThread)) :=
        h.sameQueues (v.queue_setLock_same lock rfl)
      exact howned.goto (hplain at_body) trivial
  | enqueue at_body other busy => exact h.enqueue (hplain at_body) rfl (v.queue_setLock _ _)
  | foreignRelease at_body other =>
      rename_i lock oldLevel base
      have hemit : Placed (v.emit (.release lock v.currentThread)) :=
        ⟨h.lists, h.framed, h.destroy⟩
      exact hemit.goto (hplain at_body) trivial
  | release at_body held empty =>
      rename_i lock oldLevel
      have hfreed : Placed ((v.emit (.release lock v.currentThread)).setLock lock
          ⟨.free, none, []⟩) :=
        h.sameQueues (v.queue_setLock_same lock empty.symm)
      exact hfreed.goto (hplain at_body) trivial
  | handOff at_body held first =>
      rename_i lock oldLevel t threads
      have hwoken : Placed (((v.emit (.release lock v.currentThread)).setLock lock
          ⟨(v.locks lock).stat, some t, threads⟩).readyToRun t) :=
        h.wake (w := .lock lock) first (v.queue_setLock lock _)
      have hgranted : Placed ((((v.emit (.release lock v.currentThread)).setLock lock
          ⟨(v.locks lock).stat, some t, threads⟩).readyToRun t).emit (.granted lock t)) :=
        ⟨hwoken.lists, hwoken.framed, hwoken.destroy⟩
      exact hgranted.goto (hplain at_body) trivial
  | fork at_body created =>
      refine (h.fork created).goto ?_ trivial
      rw [h.top_fork created]
      exact hplain at_body
  | finish called at_func =>
      apply h.finish
      rw [at_func]
      trivial
  | yield at_body ready rest => exact h.yield at_body ready rest
  | dispatch at_sleep ready waiting => exact h.dispatch at_sleep ready waiting
  | delete at_switch destroy =>
      exact ⟨h.lists, h.framed, fun _ ht => by cases ht⟩
  | resume at_switch next destroy => exact h.resume at_switch next destroy

end Placed

end Nachos.System
