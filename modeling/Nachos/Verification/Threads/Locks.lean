import Nachos.Library.FifoLock
import Nachos.Verification.Threads.Invariant

/-! # Locks

A blocked `Acquire` does not test again after it has been woken: it relies on the thread that
released the lock. The lock is compared with `FifoLock`, which sees the calls of `Acquire` and
`Release` only. -/

namespace Nachos.System

open Runs View

/-! ## The abstract lock -/

def lockAfter (lock : LockId) (l : FifoLock Tid) : Event → FifoLock Tid
  | .acquire lock' t => if lock' = lock then l.acquire t else l
  | .release lock' t => if lock' = lock then l.release t else l
  | _ => l

/-- The calls of `Acquire` and `Release` on a lock, played on the abstract lock. -/
def replay (lock : LockId) (log : List Event) : FifoLock Tid :=
  log.foldl (lockAfter lock) .create

/-- The threads to which the lock was given, in this order. -/
def granted (lock : LockId) (log : List Event) : List Tid :=
  log.filterMap fun
    | .granted lock' t => if lock' = lock then some t else none
    | _ => none

/-- A lock as the abstract one says. -/
def represent (l : FifoLock Tid) : Lock where
  stat := if l.parties = [] then .free else .busy
  ownerThread := l.owner
  queue := l.waiting

theorem replay_append (lock : LockId) (log : List Event) (event : Event) :
    replay lock (log ++ [event]) = lockAfter lock (replay lock log) event := by
  simp [replay]

theorem granted_append (lock : LockId) (log log' : List Event) :
    granted lock (log ++ log') = granted lock log ++ granted lock log' :=
  List.filterMap_append

theorem served_replay (lock : LockId) (log : List Event) : (replay lock log).Served := by
  induction log using List.reverseRecOn with
  | nil => exact FifoLock.served_create
  | append_singleton log event ih =>
      rw [replay_append]
      cases event with
      | acquire lock' t =>
          simp only [lockAfter]
          split
          · exact ih.acquire t
          · exact ih
      | release lock' t =>
          simp only [lockAfter]
          split
          · exact ih.release t
          · exact ih
      | _ => exact ih

/-! ## The invariant -/

/-- The lock represents the abstract one, and every thread that is about to return from
`Acquire` is the owner or waits. -/
structure Owned (lock : LockId) (v : View) : Prop where
  refines : v.locks lock = represent (replay lock v.log)
  grants : granted lock v.log = (replay lock v.log).grants
  nodup : (replay lock v.log).parties.Nodup
  holds : ∀ t, lock ∈ acquired (v.frames t) → t ∈ (replay lock v.log).parties

namespace Owned

variable {lock : LockId} {v v' : View} {event : Event}

theorem owner_eq (h : Owned lock v) : (v.locks lock).ownerThread = (replay lock v.log).owner := by
  rw [h.refines]
  rfl

theorem queue_eq (h : Owned lock v) : (v.locks lock).queue = (replay lock v.log).waiting := by
  rw [h.refines]
  rfl

theorem free_iff (h : Owned lock v) :
    (v.locks lock).stat = .free ↔ (replay lock v.log).parties = [] := by
  rw [h.refines]
  unfold represent
  split
  · simp_all
  · simp_all

/-- An event that is none of this lock. -/
theorem emit (h : Owned lock v) (hreplay : lockAfter lock (replay lock v.log) event =
      replay lock v.log) (hgranted : granted lock [event] = []) : Owned lock (v.emit event) := by
  have hsame : replay lock (v.log ++ [event]) = replay lock v.log := by
    rw [replay_append, hreplay]
  refine ⟨?_, ?_, ?_, ?_⟩
  · rw [locks_emit, log_emit, hsame]
    exact h.refines
  · rw [log_emit, hsame, granted_append, hgranted, List.append_nil]
    exact h.grants
  · rw [log_emit, hsame]
    exact h.nodup
  · rw [log_emit, hsame]
    exact h.holds

/-- No thread comes nearer to its return from `Acquire`. -/
theorem keep (h : Owned lock v) (hlock : v'.locks lock = v.locks lock) (hlog : v'.log = v.log)
    (hframes : ∀ t, lock ∈ acquired (v'.frames t) → lock ∈ acquired (v.frames t)) :
    Owned lock v' := by
  refine ⟨?_, ?_, ?_, ?_⟩
  · rw [hlock, hlog]
    exact h.refines
  · rw [hlog]
    exact h.grants
  · rw [hlog]
    exact h.nodup
  · rw [hlog]
    exact fun t ht => h.holds t (hframes t ht)

/-- `currentThread` goes on without having acquired the lock. -/
theorem goto {fs : List Frame} (h : Owned lock v) (hlock : v'.locks lock = v.locks lock)
    (hlog : v'.log = v.log) (hnew : v'.frames = Function.update v.frames v.currentThread fs)
    (hframes : lock ∈ acquired fs → lock ∈ acquired v.top) : Owned lock v' := by
  refine h.keep hlock hlog ?_
  intro t ht
  rw [hnew] at ht
  by_cases heq : t = v.currentThread
  · subst heq
    rw [Function.update_self] at ht
    exact hframes ht
  · rw [Function.update_of_ne heq] at ht
    exact ht

theorem run {next : Tid} {rest : List Frame} {level : IntStatus} (h : Owned lock v)
    (hframes : lock ∈ acquired rest → lock ∈ acquired v.top) :
    Owned lock (v.run next rest level) := by
  obtain ⟨registers, hrun⟩ := v.run_eq next rest level
  rw [hrun]
  have hentered : Owned lock { v with log := v.log ++ v.entering } := by
    unfold entering
    split
    · simpa using h
    · exact h.emit rfl rfl
  have hswitched : Owned lock { v with log := v.log ++ v.entering ++ [Event.switch next level] } :=
    hentered.emit rfl rfl
  exact hswitched.goto rfl rfl rfl hframes

theorem resume {rest : List Frame} (h : Owned lock v) (hnow : v.top = .afterSwitch :: rest) :
    Owned lock (v.restoreUserState.setFrames rest) := by
  obtain ⟨context, hrestore⟩ := v.restoreUserState_eq
  rw [hrestore]
  have hreturned : Owned lock { v with context := context, log := v.log ++ v.returning } := by
    have hsame : Owned lock { v with context := context } := h.keep rfl rfl fun _ ht => ht
    unfold returning
    split
    · simpa using hsame
    · exact hsame.emit rfl rfl
  refine hreturned.goto rfl rfl rfl ?_
  intro ht
  change lock ∈ acquired v.top
  rw [hnow]
  exact ht

theorem acquired_of_ne {lock' : LockId} {base : List Frame} (hne : lock' ≠ lock)
    (ht : lock ∈ lock' :: acquired base) : lock ∈ acquired base := by
  rcases List.mem_cons.mp ht with heq | hmem
  · exact absurd heq.symm hne
  · exact hmem

/-! ## The operations of the lock itself -/

/-- A thread that has control waits for no lock. -/
theorem not_waiting (h : Owned lock v) (hplaced : Placed v) (hplain : Plain v.top) :
    v.currentThread ∉ (replay lock v.log).waiting := by
  rw [← h.queue_eq]
  apply hplaced.lists.not_mem_queue (w := .lock lock)
  rw [hplaced.running hplain]
  nofun

/-- `currentThread` asks for the lock. -/
theorem asked (h : Owned lock v) (hplaced : Placed v) (hplain : Plain v.top)
    (hlock : v'.locks lock = represent ((replay lock v.log).acquire v.currentThread))
    (hreplay : replay lock v'.log = (replay lock v.log).acquire v.currentThread)
    (hgrants : granted lock v'.log = ((replay lock v.log).acquire v.currentThread).grants)
    (hframes : ∀ t, t ≠ v.currentThread → v'.frames t = v.frames t) : Owned lock v' := by
  have hout := h.not_waiting hplaced hplain
  have hparties : ((replay lock v.log).acquire v.currentThread).parties.Nodup ∧
      v.currentThread ∈ ((replay lock v.log).acquire v.currentThread).parties ∧
      ∀ t ∈ (replay lock v.log).parties,
        t ∈ ((replay lock v.log).acquire v.currentThread).parties := by
    have hnodup := h.nodup
    by_cases howner : (replay lock v.log).owner = some v.currentThread
    · rw [FifoLock.acquire_of_owner howner]
      exact ⟨hnodup, List.mem_of_mem_head? howner, fun _ ht => ht⟩
    · rw [FifoLock.acquire_of_other howner]
      refine ⟨?_, by simp, fun t ht => by simp [ht]⟩
      refine List.Nodup.append hnodup (List.nodup_singleton _) ?_
      intro t ht hmem
      obtain rfl := List.mem_singleton.mp hmem
      exact howner (FifoLock.owner_of_mem ht hout)
  refine ⟨?_, ?_, ?_, ?_⟩
  · rw [hreplay]
    exact hlock
  · rw [hreplay]
    exact hgrants
  · rw [hreplay]
    exact hparties.1
  · rw [hreplay]
    intro t ht
    by_cases heq : t = v.currentThread
    · rw [heq]
      exact hparties.2.1
    · rw [hframes t heq] at ht
      exact hparties.2.2 t (h.holds t ht)

/-- The owner gives the lock up. -/
theorem released (h : Owned lock v) (howner : (replay lock v.log).owner = some v.currentThread)
    (hlock : v'.locks lock = represent ((replay lock v.log).release v.currentThread))
    (hreplay : replay lock v'.log = (replay lock v.log).release v.currentThread)
    (hgrants : granted lock v'.log = ((replay lock v.log).release v.currentThread).grants)
    (hcurrent : lock ∉ acquired (v'.frames v.currentThread))
    (hframes : ∀ t, t ≠ v.currentThread → v'.frames t = v.frames t) : Owned lock v' := by
  have hparties : ((replay lock v.log).release v.currentThread).parties =
      (replay lock v.log).parties.tail := by
    rw [FifoLock.release_of_owner howner]
    rfl
  refine ⟨?_, ?_, ?_, ?_⟩
  · rw [hreplay]
    exact hlock
  · rw [hreplay]
    exact hgrants
  · rw [hreplay, hparties]
    exact h.nodup.tail
  · rw [hreplay, hparties]
    intro t ht
    have hne : t ≠ v.currentThread := by
      rintro rfl
      exact hcurrent ht
    rw [hframes t hne] at ht
    by_contra hout
    have hself := FifoLock.owner_of_mem (h.holds t ht) hout
    rw [howner] at hself
    exact hne (Option.some.inj hself).symm

section Operations

variable {oldLevel : IntStatus} {base : List Frame}

theorem replay_acquire (lock : LockId) (log : List Event) (t : Tid) :
    replay lock (log ++ [Event.acquire lock t]) = (replay lock log).acquire t := by
  rw [replay_append]
  exact if_pos rfl

theorem replay_release (lock : LockId) (log : List Event) (t : Tid) :
    replay lock (log ++ [Event.release lock t]) = (replay lock log).release t := by
  rw [replay_append]
  exact if_pos rfl

theorem granted_self (lock : LockId) (t : Tid) : granted lock [.granted lock t] = [t] := by
  simp [granted]

theorem reacquire (h : Owned lock v) (hplaced : Placed v)
    (hnow : v.top = .body (.acquire lock) oldLevel :: base)
    (hheld : (v.locks lock).ownerThread = some v.currentThread) :
    Owned lock ((v.emit (.acquire lock v.currentThread)).setFrames
      (.restore (.acquire lock) oldLevel :: base)) := by
  have howner : (replay lock v.log).owner = some v.currentThread := h.owner_eq.symm.trans hheld
  have hsame := FifoLock.acquire_of_owner howner
  refine h.asked hplaced (by rw [hnow]; trivial) ?_ (replay_acquire lock v.log _) ?_
    fun t ht => Function.update_of_ne ht _ _
  · rw [hsame]
    exact h.refines
  · rw [log_setFrames, log_emit, hsame, granted_append]
    simpa [granted] using h.grants

theorem acquire (h : Owned lock v) (hplaced : Placed v)
    (hnow : v.top = .body (.acquire lock) oldLevel :: base)
    (hfree : (v.locks lock).stat = .free) :
    Owned lock ((((v.emit (.acquire lock v.currentThread)).setLock lock
      ⟨.busy, some v.currentThread, (v.locks lock).queue⟩).emit
      (.granted lock v.currentThread)).setFrames (.restore (.acquire lock) oldLevel :: base)) := by
  have hparties := h.free_iff.mp hfree
  have howner : (replay lock v.log).owner ≠ some v.currentThread := by
    simp [FifoLock.owner, hparties]
  have hnew := FifoLock.acquire_of_other howner
  rw [hparties, if_pos rfl] at hnew
  refine h.asked hplaced (by rw [hnow]; trivial) ?_ ?_ ?_ fun t ht => Function.update_of_ne ht _ _
  · rw [locks_setFrames, locks_emit, locks_setLock, Function.update_self, hnew, h.queue_eq]
    simp [represent, FifoLock.owner, FifoLock.waiting, hparties]
  · rw [log_setFrames, log_emit, log_setLock, log_emit, replay_append, replay_acquire]
    rfl
  · rw [log_setFrames, log_emit, log_setLock, log_emit, granted_append, granted_append,
      granted_self, hnew, h.grants]
    simp [granted]

theorem enqueue (h : Owned lock v) (hplaced : Placed v)
    (hnow : v.top = .body (.acquire lock) oldLevel :: base)
    (hother : (v.locks lock).ownerThread ≠ some v.currentThread)
    (hbusy : (v.locks lock).stat ≠ .free) :
    Owned lock (((v.emit (.acquire lock v.currentThread)).setLock lock
      { v.locks lock with queue := (v.locks lock).queue ++ [v.currentThread] }).sleep
      (.restore (.acquire lock) oldLevel :: base)) := by
  have hparties : (replay lock v.log).parties ≠ [] := fun hnil => hbusy (h.free_iff.mpr hnil)
  have howner : (replay lock v.log).owner ≠ some v.currentThread := by
    rw [← h.owner_eq]
    exact hother
  have hnew := FifoLock.acquire_of_other howner
  rw [if_neg hparties] at hnew
  refine h.asked hplaced (by rw [hnow]; trivial) ?_ (replay_acquire lock v.log _) ?_
    fun t ht => Function.update_of_ne ht _ _
  · rw [locks_sleep, locks_setLock, Function.update_self, hnew, h.refines]
    obtain ⟨o, waiting, hcons⟩ := List.exists_cons_of_ne_nil hparties
    simp [represent, FifoLock.owner, FifoLock.waiting, hcons]
  · rw [log_sleep, log_setLock, log_emit, granted_append, hnew, h.grants]
    simp [granted]

theorem release (h : Owned lock v)
    (hheld : (v.locks lock).ownerThread = some v.currentThread)
    (hempty : (v.locks lock).queue = []) :
    Owned lock (((v.emit (.release lock v.currentThread)).setLock lock ⟨.free, none, []⟩).setFrames
      [.restore (.release lock) oldLevel, .func]) := by
  have howner : (replay lock v.log).owner = some v.currentThread := h.owner_eq.symm.trans hheld
  have hwaiting : (replay lock v.log).waiting = [] := h.queue_eq.symm.trans hempty
  have hnew := FifoLock.release_of_owner howner
  rw [hwaiting] at hnew
  refine h.released howner ?_ (replay_release lock v.log _) ?_ ?_
    fun t ht => Function.update_of_ne ht _ _
  · rw [locks_setFrames, locks_setLock, Function.update_self, hnew]
    rfl
  · rw [log_setFrames, log_setLock, log_emit, granted_append, hnew, h.grants]
    simp [granted]
  · change lock ∉ acquired (Function.update v.frames v.currentThread _ v.currentThread)
    rw [Function.update_self]
    nofun

theorem handOff {t : Tid} {threads : List Tid} (h : Owned lock v)
    (hheld : (v.locks lock).ownerThread = some v.currentThread)
    (hfirst : (v.locks lock).queue = t :: threads) :
    Owned lock (((((v.emit (.release lock v.currentThread)).setLock lock
      ⟨(v.locks lock).stat, some t, threads⟩).readyToRun t).emit (.granted lock t)).setFrames
      [.restore (.release lock) oldLevel, .func]) := by
  have howner : (replay lock v.log).owner = some v.currentThread := h.owner_eq.symm.trans hheld
  have hwaiting : (replay lock v.log).waiting = t :: threads := h.queue_eq.symm.trans hfirst
  have hbusy : (v.locks lock).stat = .busy := by
    have hparties : (replay lock v.log).parties ≠ [] := by
      intro hnil
      simp [FifoLock.owner, hnil] at howner
    rw [h.refines]
    exact if_neg hparties
  have hnew := FifoLock.release_of_owner howner
  rw [hwaiting] at hnew
  refine h.released howner ?_ ?_ ?_ ?_ fun t ht => Function.update_of_ne ht _ _
  · rw [locks_setFrames, locks_emit, locks_readyToRun, locks_setLock, Function.update_self, hnew,
      hbusy]
    rfl
  · rw [log_setFrames, log_emit, log_readyToRun, log_setLock, log_emit, replay_append,
      replay_append, replay_release]
    rfl
  · rw [log_setFrames, log_emit, log_readyToRun, log_setLock, log_emit, granted_append,
      granted_append, granted_append, granted_self, hnew, h.grants]
    simp [granted]
  · change lock ∉ acquired (Function.update v.frames v.currentThread _ v.currentThread)
    rw [Function.update_self]
    nofun

end Operations

/-- An operation on another lock. -/
theorem other {lock' : LockId} {l : Lock} {fs : List Frame} (h : Owned lock v)
    (hne : lock' ≠ lock) (hlocks : v'.locks = Function.update v.locks lock' l)
    (hlog : v'.log = v.log) (hnew : v'.frames = Function.update v.frames v.currentThread fs)
    (hframes : lock ∈ acquired fs → lock ∈ acquired v.top) : Owned lock v' := by
  refine h.goto ?_ hlog hnew hframes
  rw [hlocks, Function.update_of_ne hne.symm]

theorem emit_call {lock' : LockId} {t : Tid} (h : Owned lock v) (hne : lock' ≠ lock) :
    Owned lock (v.emit (.acquire lock' t)) ∧ Owned lock (v.emit (.release lock' t)) ∧
      Owned lock (v.emit (.granted lock' t)) := by
  refine ⟨h.emit (if_neg hne) rfl, h.emit (if_neg hne) rfl, h.emit rfl ?_⟩
  simp [granted, hne]

theorem move (h : Owned lock v) (hplaced : Placed v) {label : Label} (hmove : Move label v v') :
    Owned lock v' := by
  have hsub : ∀ (frame : Frame) (rest : List Frame), acquired rest ⊆ acquired (frame :: rest) := by
    intro frame rest
    exact ((List.sublist_cons_self frame rest).filterMap acquiredBy).subset
  have hbody : ∀ {op oldLevel base}, v.top = .body op oldLevel :: base → lock ∈ acquired base →
      lock ∈ acquired v.top := by
    intro op oldLevel base hnow ht
    rw [hnow]
    exact ht
  cases hmove with
  | registers registers => exact h.keep rfl rfl fun _ ht => ht
  | startProcess space at_func => exact h.keep rfl rfl fun _ ht => ht
  | go goes => exact h.goto rfl rfl rfl fun ht => goes.acquired_sub ht
  | doze dozes =>
      refine h.goto rfl rfl rfl fun ht => ?_
      rw [dozes.sameAcquired] at ht
      exact ht
  | call op level goes => exact (h.emit rfl rfl).goto rfl rfl rfl fun ht => goes.acquired_sub ht
  | leave at_ret next =>
      refine (h.emit rfl rfl).goto rfl rfl rfl fun ht => ?_
      change lock ∈ acquired v.top
      rw [at_ret]
      exact hsub _ _ ht
  | handlerV sem level => exact h.emit rfl rfl
  | take at_body pos => exact (h.emit rfl rfl).goto rfl rfl rfl fun ht => hbody at_body ht
  | block at_body zero => exact (h.emit rfl rfl).goto rfl rfl rfl fun ht => hbody at_body ht
  | token empty => exact (h.emit rfl rfl).keep rfl rfl fun _ ht => ht
  | wake first => exact ((h.emit rfl rfl).emit rfl rfl).keep rfl rfl fun _ ht => ht
  | reacquire at_body held =>
      rename_i lock' oldLevel base
      by_cases hlock : lock' = lock
      · subst hlock
        exact h.reacquire hplaced at_body held
      · refine (h.emit_call hlock).1.goto rfl rfl rfl fun ht => hbody at_body ?_
        exact acquired_of_ne hlock ht
  | acquire at_body other free =>
      rename_i lock' oldLevel base
      by_cases hlock : lock' = lock
      · subst hlock
        exact h.acquire hplaced at_body free
      · refine ((h.emit_call hlock).1.emit_call hlock).2.2.other hlock rfl rfl rfl
          fun ht => hbody at_body ?_
        exact acquired_of_ne hlock ht
  | enqueue at_body other busy =>
      rename_i lock' oldLevel base
      by_cases hlock : lock' = lock
      · subst hlock
        exact h.enqueue hplaced at_body other busy
      · refine (h.emit_call hlock).1.other hlock rfl rfl rfl fun ht => hbody at_body ?_
        exact acquired_of_ne hlock ht
  | foreignRelease at_body other =>
      rename_i lock' oldLevel base
      have hreleased : Owned lock (v.emit (.release lock' v.currentThread)) := by
        by_cases hlock : lock' = lock
        · subst hlock
          refine h.emit ((if_pos rfl).trans (FifoLock.release_of_other ?_)) rfl
          rw [← h.owner_eq]
          exact other
        · exact (h.emit_call hlock).2.1
      exact hreleased.goto rfl rfl rfl fun ht => hbody at_body ht
  | release at_body held empty =>
      rename_i lock' oldLevel
      by_cases hlock : lock' = lock
      · subst hlock
        exact h.release held empty
      · exact (h.emit_call hlock).2.1.other hlock rfl rfl rfl fun ht => hbody at_body ht
  | handOff at_body held first =>
      rename_i lock' oldLevel t threads
      by_cases hlock : lock' = lock
      · subst hlock
        exact h.handOff held first
      · have hreadied : Owned lock ((v.emit (.release lock' v.currentThread)).emit (.readied t)) :=
          (h.emit_call hlock).2.1.emit rfl rfl
        exact (hreadied.emit_call hlock).2.2.other hlock rfl rfl rfl fun ht => hbody at_body ht
  | fork at_body created =>
      rename_i t oldLevel base
      have hforked : Owned lock (v.fork t) := by
        refine (h.emit rfl rfl).keep rfl rfl fun u ht => ?_
        change lock ∈ acquired (Function.update v.frames t [.threadRoot] u) at ht
        by_cases heq : u = t
        · subst heq
          rw [Function.update_self] at ht
          cases ht
        · rw [Function.update_of_ne heq] at ht
          exact ht
      refine hforked.goto rfl rfl rfl fun ht => ?_
      rw [hplaced.top_fork created]
      exact hbody at_body ht
  | finish called at_func => exact (h.emit rfl rfl).goto rfl rfl rfl nofun
  | yield at_body ready rest =>
      rename_i oldLevel base next readyList
      have hreadied : Owned lock
          (({ v with readyList := readyList } : View).readyToRun v.currentThread) :=
        (h.emit rfl rfl).keep rfl rfl fun _ ht => ht
      exact hreadied.run fun ht => hbody at_body ht
  | dispatch at_sleep ready waiting =>
      rename_i rest next readyList
      have hremoved : Owned lock { v with readyList := readyList } :=
        h.keep rfl rfl fun _ ht => ht
      refine hremoved.run fun ht => ?_
      change lock ∈ acquired v.top
      rw [at_sleep]
      exact ht
  | delete at_switch destroy => exact (h.emit rfl rfl).keep rfl rfl fun _ ht => ht
  | resume at_switch next destroy => exact h.resume at_switch

end Owned

/-! ## The lock refines the abstract one -/

/-- `Acquire` returns to the owner. -/
theorem Owned.returns {s : System} {lock : LockId} {oldLevel : IntStatus} {rest : List Frame}
    (h : Owned lock s.view) (hs : WellFormed s)
    (hframes : s.frames = .ret (.acquire lock) oldLevel :: rest) :
    (s.locks lock).ownerThread = some s.currentThread := by
  have hplain : Plain s.view.top := by
    rw [← frames_eq, hframes]
    trivial
  have hparty : s.currentThread ∈ (replay lock s.log).parties := by
    apply h.holds
    change lock ∈ acquired s.frames
    rw [hframes]
    exact List.mem_cons_self
  have hout : s.currentThread ∉ (replay lock s.log).waiting := h.not_waiting hs.placed hplain
  have howner : (s.locks lock).ownerThread = (replay lock s.log).owner := h.owner_eq
  rw [howner]
  exact FifoLock.owner_of_mem hparty hout

/-- In every interleaving, a lock is the abstract lock after the same calls, whose grants are
its requests in their order; and `Acquire` returns to the owner only. -/
theorem lock_correct (initialValue : SemId → ℕ) (labels : List Label) :
    AllStates step (fun s => ∀ lock,
      s.locks lock = represent (replay lock s.log) ∧
      granted lock s.log = (replay lock s.log).grants ∧
      (replay lock s.log).requests = granted lock s.log ++ (s.locks lock).queue ∧
      ((s.locks lock).stat = .free ↔ (s.locks lock).ownerThread = none) ∧
      ((s.locks lock).stat = .free → (s.locks lock).queue = []) ∧
      (s.locks lock).queue.Nodup ∧
      (∀ owner, (s.locks lock).ownerThread = some owner → owner ∉ (s.locks lock).queue) ∧
      ∀ oldLevel rest, s.frames = .ret (.acquire lock) oldLevel :: rest →
        (s.locks lock).ownerThread = some s.currentThread) (boot initialValue) labels := by
  have hall := allStates_of_move (P := fun v => ∀ lock, Owned lock v)
    (fun _ v v' hplaced hmove h lock => (h lock).move hplaced hmove) initialValue ?_ labels
  · apply hall.mono
    rintro s ⟨hs, howned⟩ lock
    have h := howned lock
    have hnodup : (replay lock s.log).parties.Nodup := h.nodup
    have hfree : (s.locks lock).stat = .free ↔ (replay lock s.log).parties = [] := h.free_iff
    have howner : (s.locks lock).ownerThread = (replay lock s.log).owner := h.owner_eq
    have hqueue : (s.locks lock).queue = (replay lock s.log).waiting := h.queue_eq
    have hgrants : granted lock s.log = (replay lock s.log).grants := h.grants
    refine ⟨h.refines, hgrants, ?_, ?_, ?_, ?_, ?_, fun _ _ => h.returns hs⟩
    · rw [hgrants, hqueue]
      exact served_replay lock s.log
    · rw [hfree, howner]
      exact List.head?_eq_none_iff.symm
    · rw [hfree, hqueue]
      intro hnil
      simp [FifoLock.waiting, hnil]
    · rw [hqueue]
      exact hnodup.tail
    · intro owner hfirst
      rw [howner] at hfirst
      rw [hqueue]
      exact FifoLock.owner_not_waiting hnodup hfirst
  · intro lock
    exact ⟨rfl, rfl, List.nodup_nil, fun t ht => by
      rw [frames_boot] at ht
      by_cases hzero : t = 0 <;> simp [hzero, acquired, acquiredBy] at ht⟩

end Nachos.System
