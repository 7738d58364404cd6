import Nachos.Library.Exclusion
import Nachos.Library.Logs
import Nachos.Library.Runs
import Nachos.Verification.Drivers.Device
import Nachos.Verification.FileSystem.Layout

/-! # The protocol of the synchronous disk

The lock, the semaphore and the device stay in step: only the owner of the lock uses the
device, and the token in the semaphore is that of its own request. -/

namespace Nachos.SynchDisk

open Exclusion Runs Logs State

/-! ## The log -/

/-- The requests that the disk was given, in their order. -/
def issues (log : List Event) : List (Tid × Request) :=
  log.filterMap fun
    | .issued t request => some (t, request)
    | _ => none

/-- The number of completion interrupts. -/
def completions (log : List Event) : ℕ :=
  log.countP fun
    | .completed => true
    | _ => false

def Event.thread : Event → Option Tid
  | .issued t _ => some t
  | .completed => none
  | .returned t _ _ => some t

/-- The data of the last write to the sector. -/
def lastWrite (sectorNumber : ℤ) (requests : List (Tid × Request)) : Option Sector :=
  requests.foldl (fun last entry =>
    match entry.2 with
    | .read _ => last
    | .write number data => if number = sectorNumber then some data else last) none

/-- A read gives the data of the last write to the sector among the earlier requests, or what
was there at the beginning. -/
def Answer (initial : Disk) (earlier : List (Tid × Request)) : Request → Sector → Prop
  | .read number, data =>
      ∀ sector : Fin Disk.numSectors, number = (sector : ℕ) →
        data = (lastWrite number earlier).getD (initial sector)
  | .write _ written, data => data = written

/-- The last thing that the thread did was to issue the request, after `before`. -/
def Own (log before : List Event) (t : Tid) (request : Request) : Prop :=
  ∃ after, log = before ++ .issued t request :: after ∧ ∀ e ∈ after, e.thread ≠ some t

/-- The call has been served: its own request has been completed, and `data` is the answer to
it. The `n`-th completion is that of the `n`-th request. -/
def Served (initial : Disk) (log : List Event) (t : Tid) (request : Request) (data : Sector) :
    Prop :=
  ∃ before, Own log before t request ∧ (issues before).length < completions log ∧
    Answer initial (issues before) request data

/-- What the log has to say about an event. -/
def Justified (initial : Disk) (log : List Event) : Event → Prop
  | .issued _ _ => (issues log).length = completions log
  | .completed => (issues log).length = completions log + 1
  | .returned t request data => Served initial log t request data

section Log

variable {log before : List Event} {initial : Disk} {t : Tid} {request : Request} {data : Sector}

@[simp] theorem issues_append (log log' : List Event) :
    issues (log ++ log') = issues log ++ issues log' :=
  List.filterMap_append

@[simp] theorem completions_append (log log' : List Event) :
    completions (log ++ log') = completions log + completions log' :=
  List.countP_append

theorem Own.append (h : Own log before t request) {event : Event} (hevent : event.thread ≠ some t) :
    Own (log ++ [event]) before t request := by
  obtain ⟨after, rfl, hafter⟩ := h
  refine ⟨after ++ [event], by simp, ?_⟩
  intro e he
  rcases List.mem_append.mp he with hold | hnew
  · exact hafter e hold
  · rw [List.mem_singleton.mp hnew]
    exact hevent

theorem own_issued (log : List Event) (t : Tid) (request : Request) :
    Own (log ++ [Event.issued t request]) log t request :=
  ⟨[], rfl, by simp⟩

theorem Own.length_lt (h : Own log before t request) :
    (issues before).length < (issues log).length := by
  obtain ⟨after, rfl, -⟩ := h
  rw [issues_append, List.length_append]
  show _ < _ + (issues after).length.succ
  omega

theorem Served.append (h : Served initial log t request data) {event : Event}
    (hevent : event.thread ≠ some t) : Served initial (log ++ [event]) t request data := by
  obtain ⟨before, hown, hcompleted, hanswer⟩ := h
  refine ⟨before, hown.append hevent, ?_, hanswer⟩
  rw [completions_append]
  omega

theorem lastWrite_append (number : ℤ) (requests : List (Tid × Request)) (t : Tid)
    (request : Request) :
    lastWrite number (requests ++ [(t, request)]) =
      match request with
      | .read _ => lastWrite number requests
      | .write number' data =>
          if number' = number then some data else lastWrite number requests := by
  rw [lastWrite, List.foldl_append]
  cases request <;> rfl

end Log

/-! ## The sectors -/

/-- The sector number passes the ASSERT of the disk. -/
def Request.Valid : Request → Prop
  | .read number => 0 ≤ number ∧ number < Disk.numSectors
  | .write number _ => 0 ≤ number ∧ number < Disk.numSectors

theorem exists_sector {number : ℤ} (h : 0 ≤ number ∧ number < Disk.numSectors) :
    ∃ sector : Fin Disk.numSectors, number = (sector : ℕ) :=
  ⟨⟨number.toNat, by omega⟩, by simp only; omega⟩

/-- The disk holds what was last written. -/
def Written (initial disk : Disk) (requests : List (Tid × Request)) : Prop :=
  ∀ sector : Fin Disk.numSectors,
    disk sector = (lastWrite (sector : ℕ) requests).getD (initial sector)

theorem Written.read {initial disk : Disk} {requests : List (Tid × Request)}
    (h : Written initial disk requests) (t : Tid) (number : ℤ) :
    Written initial disk (requests ++ [(t, .read number)]) := by
  intro sector
  rw [lastWrite_append]
  exact h sector

theorem Written.write {initial disk : Disk} {requests : List (Tid × Request)}
    (h : Written initial disk requests) (t : Tid) (sector : Fin Disk.numSectors) (data : Sector) :
    Written initial (Function.update disk sector data)
      (requests ++ [(t, .write (sector : ℕ) data)]) := by
  intro sector'
  rw [lastWrite_append]
  by_cases heq : sector' = sector
  · subst heq
    rw [Function.update_self]
    simp
  · have hne : ¬ ((sector : ℕ) : ℤ) = (sector' : ℕ) := by
      intro hcast
      exact heq (Fin.ext (Int.ofNat.inj hcast).symm)
    rw [Function.update_of_ne heq]
    simp only [hne, if_false]
    exact h sector'

/-! ## Places -/

namespace Place

/-- The thread has the lock. -/
def holds : Place → Bool
  | .request _ | .wait _ _ | .asleep _ _ | .release _ _ => true
  | _ => false

/-- The thread uses the device; `true` when it sleeps. -/
def served : Place → Option Bool
  | .wait _ _ => some false
  | .asleep _ _ => some true
  | _ => none

/-- The request that the thread is going to issue. -/
def asked : Place → Option Request
  | .acquire r | .queued r | .request r => some r
  | _ => none

/-- The request that the thread waits for. -/
def issued : Place → Option (Request × Sector)
  | .wait r data | .asleep r data => some (r, data)
  | _ => none

/-- The request that is done. -/
def answered : Place → Option (Request × Sector)
  | .release r data | .ret r data => some (r, data)
  | _ => none

/-- The thread sleeps in `Acquire`. -/
def Queued (place : Place) : Prop :=
  ∃ request, place = .queued request

theorem not_queued_of_holds {place : Place} (h : place.holds = true) : ¬ place.Queued := by
  rintro ⟨request, rfl⟩
  cases h

theorem holds_of_served {place : Place} {b : Bool} (h : place.served = some b) :
    place.holds = true := by
  cases place <;> first | rfl | cases h

theorem eq_asleep {place : Place} (h : place.served = some true) :
    ∃ r data, place = .asleep r data := by
  cases place <;> first | exact ⟨_, _, rfl⟩ | cases h

end Place

/-! ## The lock -/

/-- The owner of the lock is the thread inside, and those in the queue sleep in `Acquire`. -/
structure Locked (lock : Lock) (places : Tid → Place) : Prop where
  owner : ∀ t, lock.ownerThread = some t ↔ (places t).holds = true
  free : lock.stat = .free → lock.ownerThread = none ∧ lock.queue = []
  waiting : Waiting Place.Queued lock.queue places

namespace Locked

variable {lock : Lock} {places : Tid → Place} {t : Tid} {place : Place}

/-- A thread that is not in the queue moves without taking or leaving the lock. -/
theorem move (h : Locked lock places) (hplace : ¬ (places t).Queued)
    (hholds : place.holds = (places t).holds) : Locked lock (Function.update places t place) where
  owner := by
    refine (Function.forall_update_iff places
      fun u p => lock.ownerThread = some u ↔ p.holds = true).mpr ⟨?_, fun u _ => h.owner u⟩
    rw [hholds]
    exact h.owner t
  free := h.free
  waiting := h.waiting.move hplace place

/-- The lock is free and the thread takes it. -/
theorem take (h : Locked lock places) (hfree : lock.stat = .free) (hholds : place.holds = true) :
    Locked ⟨.busy, some t, lock.queue⟩ (Function.update places t place) := by
  obtain ⟨hnone, hempty⟩ := h.free hfree
  refine ⟨?_, by simp, hempty ▸ .nil _⟩
  refine (Function.forall_update_iff places
    fun u p => some t = some u ↔ p.holds = true).mpr ⟨by simp [hholds], fun u hu => ?_⟩
  have hother : ¬ (places u).holds = true := by
    rw [← h.owner u, hnone]
    simp
  simp [hother, Ne.symm hu]

/-- The lock is busy and the thread queues up. -/
theorem enqueue (h : Locked lock places) (hplace : ¬ (places t).Queued)
    (hholds : (places t).holds = false) (hbusy : lock.stat ≠ .free) (request : Request) :
    Locked { lock with queue := lock.queue ++ [t] }
      (Function.update places t (.queued request)) where
  owner := by
    refine (Function.forall_update_iff places
      fun u p => lock.ownerThread = some u ↔ p.holds = true).mpr ⟨?_, fun u _ => h.owner u⟩
    rw [h.owner t, hholds]
    rfl
  free := fun hfree => absurd hfree hbusy
  waiting := h.waiting.enqueue hplace ⟨request, rfl⟩

/-- The owner leaves the lock free. -/
theorem leave (h : Locked lock places) (howner : lock.ownerThread = some t)
    (hholds : place.holds = false) :
    Locked ⟨.free, none, []⟩ (Function.update places t place) := by
  refine ⟨?_, fun _ => ⟨rfl, rfl⟩, .nil _⟩
  refine (Function.forall_update_iff places
    fun u p => none = some u ↔ p.holds = true).mpr ⟨by simp [hholds], fun u hu => ?_⟩
  have hother : ¬ (places u).holds = true := by
    rw [← h.owner u, howner]
    simpa using Ne.symm hu
  simp [hother]

/-- The owner hands the lock to the first thread in the queue. -/
theorem handOff (h : Locked lock places) (howner : lock.ownerThread = some t) {u : Tid}
    {queue : List Tid} (hqueue : lock.queue = u :: queue) {place' : Place}
    (hleft : place.holds = false) (hgranted : place'.holds = true) :
    Locked { lock with queue := queue, ownerThread := some u }
      (Function.update (Function.update places t place) u place') := by
  have hnot : ¬ (places t).Queued := Place.not_queued_of_holds ((h.owner t).mp howner)
  have hwaiting := h.waiting.move hnot place
  rw [hqueue] at hwaiting
  refine ⟨?_, ?_, hwaiting.dequeue place'⟩
  · refine (Function.forall_update_iff _
      fun v (p : Place) => some u = some v ↔ p.holds = true).mpr ⟨by simp [hgranted], ?_⟩
    intro v hv
    by_cases heq : v = t
    · subst heq
      simp [hleft, Ne.symm hv]
    · rw [Function.update_of_ne heq, ← h.owner v, howner]
      simp [Ne.symm hv, Ne.symm heq]
  · intro hfree
    have hempty := (h.free hfree).2
    rw [hqueue] at hempty
    cases hempty

end Locked

/-! ## The invariant -/

/-- What the log says about a thread. -/
structure Recorded (initial : Disk) (log : List Event) (t : Tid) (place : Place) : Prop where
  valid : ∀ request, place.asked = some request → request.Valid
  issued : ∀ request data, place.issued = some (request, data) →
    ∃ before, Own log before t request ∧ Answer initial (issues before) request data
  answered : ∀ request data, place.answered = some (request, data) →
    Served initial log t request data

structure Inv (initial : Disk) (s : State) : Prop where
  running : s.stop = none
  locked : Locked s.lock s.places
  serving : ∃ served, s.device.Serving served ∧ Sole Place.served served s.places
  count : (issues s.log).length = completions s.log + s.device.scheduled
  written : Written initial s.disk (issues s.log)
  recorded : ∀ t, Recorded initial s.log t (s.places t)
  kept : Always (Justified initial) s.log

namespace Recorded

variable {initial : Disk} {log : List Event} {t : Tid} {place : Place}

theorem append (h : Recorded initial log t place) {event : Event}
    (hevent : event.thread ≠ some t) : Recorded initial (log ++ [event]) t place where
  valid := h.valid
  issued := by
    intro request data hplace
    obtain ⟨before, hown, hanswer⟩ := h.issued request data hplace
    exact ⟨before, hown.append hevent, hanswer⟩
  answered := fun request data hplace => (h.answered request data hplace).append hevent

theorem asked {request : Request} (h : request.Valid) (hasked : place.asked = some request)
    (hissued : place.issued = none) (hanswered : place.answered = none) :
    Recorded initial log t place where
  valid := by
    intro request' hrequest
    rw [hasked] at hrequest
    cases hrequest
    exact h
  issued := by simp [hissued]
  answered := by simp [hanswered]

end Recorded

namespace Inv

variable {initial : Disk} {s s' : State} {t : Tid} {request : Request} {data : Sector}

theorem create (initial : Disk) : Inv initial (create initial) where
  running := rfl
  locked := by
    refine ⟨?_, fun _ => ⟨rfl, rfl⟩, by simp [SynchDisk.create, Lock.create],
      by simp [SynchDisk.create, Lock.create]⟩
    intro t
    simp [SynchDisk.create, Lock.create, Place.holds]
  serving := ⟨none, Device.serving_create, by simp [Sole, SynchDisk.create, Place.served]⟩
  count := rfl
  written := fun sector => rfl
  recorded := fun t =>
    ⟨by simp [SynchDisk.create, Place.asked], by simp [SynchDisk.create, Place.issued],
      by simp [SynchDisk.create, Place.answered]⟩
  kept := always_nil _

theorem call (h : Inv initial s) (hplace : s.places t = .outside) (hvalid : request.Valid) :
    Inv initial (s.goto t (.acquire request)) := by
  obtain ⟨served, hserving, htracked⟩ := h.serving
  refine ⟨h.running, h.locked.move (by simp [hplace, Place.Queued]) (by simp [hplace, Place.holds]),
    ⟨served, hserving, htracked.move (by simp [hplace, Place.served])⟩, h.count, h.written, ?_,
    h.kept⟩
  exact (Function.forall_update_iff s.places (Recorded initial s.log)).mpr
    ⟨.asked hvalid rfl rfl rfl, fun u _ => h.recorded u⟩

theorem acquire (h : Inv initial s) (hplace : s.places t = .acquire request) :
    Inv initial (s.acquire t request) := by
  obtain ⟨served, hserving, htracked⟩ := h.serving
  have hvalid : request.Valid := (h.recorded t).valid request (by rw [hplace]; rfl)
  have hholds : (s.places t).holds = false := by rw [hplace]; rfl
  have hnot : ¬ s.lock.isHeldByCurrentThread t := by
    unfold Lock.isHeldByCurrentThread
    rw [h.locked.owner t, hholds]
    simp
  have hplaced : ∀ place : Place, place.served = none → place.asked = some request →
      place.issued = none → place.answered = none →
      Sole Place.served served (Function.update s.places t place) ∧
        ∀ u, Recorded initial s.log u (Function.update s.places t place u) := by
    intro place hserved hasked hissued hanswered
    refine ⟨htracked.move (by rw [hserved, hplace]; rfl), ?_⟩
    exact (Function.forall_update_iff s.places (Recorded initial s.log)).mpr
      ⟨.asked hvalid hasked hissued hanswered, fun u _ => h.recorded u⟩
  unfold State.acquire Lock.acquire
  rw [if_neg hnot]
  by_cases hfree : s.lock.stat = .free
  · rw [if_pos hfree]
    obtain ⟨htracked', hrecorded⟩ := hplaced (.request request) rfl rfl rfl rfl
    exact ⟨h.running, h.locked.take hfree rfl, ⟨served, hserving, htracked'⟩, h.count,
      h.written, hrecorded, h.kept⟩
  · rw [if_neg hfree]
    obtain ⟨htracked', hrecorded⟩ := hplaced (.queued request) rfl rfl rfl rfl
    exact ⟨h.running, h.locked.enqueue (by simp [hplace, Place.Queued]) hholds hfree request,
      ⟨served, hserving, htracked'⟩, h.count, h.written, hrecorded, h.kept⟩

/-- Only the owner of the lock can be served. -/
theorem served_eq (h : Inv initial s) (hholds : (s.places t).holds = true)
    (u : Tid) (b : Bool) (hserved : (s.places u).served = some b) : u = t := by
  have hu := (h.locked.owner u).mpr (Place.holds_of_served hserved)
  have ht := (h.locked.owner t).mpr hholds
  rw [hu] at ht
  exact Option.some.inj ht

/-- A request to an idle device is served at once, on the disk as the earlier requests have
left it. -/
theorem issue_eq {device : Device} (h : Inv initial s) (hdevice : s.device.request = some device)
    (hvalid : request.Valid) :
    ∃ disk data, s.issue t request =
        State.goto { s with
          disk := disk, device := device, log := s.log ++ [Event.issued t request] } t
          (.wait request data) ∧
      Written initial disk (issues s.log ++ [(t, request)]) ∧
      Answer initial (issues s.log) request data := by
  unfold State.issue
  rw [hdevice]
  cases request with
  | read number =>
      obtain ⟨sector, rfl⟩ := exists_sector hvalid
      refine ⟨s.disk, s.disk sector, by simp, h.written.read t _, ?_⟩
      intro sector' heq
      obtain rfl : sector = sector' := Fin.ext (Int.ofNat.inj heq)
      exact h.written sector
  | write number data =>
      obtain ⟨sector, rfl⟩ := exists_sector hvalid
      exact ⟨Function.update s.disk sector data, data, by simp, h.written.write t sector data, rfl⟩

theorem issue (h : Inv initial s) (hplace : s.places t = .request request) :
    Inv initial (s.issue t request) := by
  obtain ⟨served, hserving, htracked⟩ := h.serving
  have honly := h.served_eq (t := t) (by rw [hplace]; rfl)
  have hquiet : served = none := htracked.eq_none honly (by rw [hplace]; rfl)
  rw [hquiet] at hserving
  obtain ⟨device, hdevice, hscheduled, hserving'⟩ := hserving.request t
  have hvalid : request.Valid := (h.recorded t).valid request (by rw [hplace]; rfl)
  obtain ⟨disk, data, heq, hwritten, hanswer⟩ := h.issue_eq hdevice hvalid
  have hcount := h.count
  rw [hserving.scheduled_quiet] at hcount hscheduled
  rw [heq]
  refine ⟨h.running, h.locked.move (by simp [hplace, Place.Queued]) (by simp [hplace, Place.holds]),
    ⟨_, hserving', .set honly (.wait request data)⟩, ?_, ?_, ?_, h.kept.append hcount⟩
  · show (issues (s.log ++ [Event.issued t request])).length =
      completions (s.log ++ [Event.issued t request]) + device.scheduled
    rw [hscheduled, issues_append, completions_append, List.length_append, hcount]
    rfl
  · show Written initial disk (issues (s.log ++ [Event.issued t request]))
    rw [issues_append]
    exact hwritten
  · refine (Function.forall_update_iff s.places (Recorded initial _)).mpr ⟨?_, fun u hu => ?_⟩
    · refine ⟨by simp [Place.asked], ?_, by simp [Place.answered]⟩
      rintro request' data' ⟨rfl, rfl⟩
      exact ⟨s.log, own_issued s.log t request, hanswer⟩
    · exact (h.recorded u).append (by simpa [Event.thread] using Ne.symm hu)

theorem wait (h : Inv initial s) (hplace : s.places t = .wait request data) :
    Inv initial (s.wait t request data) := by
  obtain ⟨served, hserving, htracked⟩ := h.serving
  have honly := h.served_eq (t := t) (by rw [hplace]; rfl)
  have hserved : served = some (t, false) := (htracked t false).mpr (by rw [hplace]; rfl)
  obtain ⟨before, hown, hanswer⟩ := (h.recorded t).issued request data (by rw [hplace]; rfl)
  have hothers : ∀ place, Recorded initial s.log t place →
      ∀ u, Recorded initial s.log u (Function.update s.places t place u) := fun place hrecorded =>
    (Function.forall_update_iff s.places (Recorded initial s.log)).mpr
      ⟨hrecorded, fun u _ => h.recorded u⟩
  have hcount := h.count
  have hlength := hown.length_lt
  rw [hserved] at hserving
  unfold State.wait
  rcases hserving.wait with
    ⟨htaken, hzero, hscheduled, hserving'⟩ | ⟨hasleep, hscheduled, hserving'⟩
  · -- the token is that of its own request: nothing is outstanding any more
    rw [show s.device.wait t = ((s.device.wait t).1, true) from Prod.ext rfl htaken]
    refine ⟨h.running,
      h.locked.move (by simp [hplace, Place.Queued]) (by simp [hplace, Place.holds]),
      ⟨_, hserving', .set honly (.release request data)⟩, ?_, h.written, hothers _ ?_, h.kept⟩
    · show (issues s.log).length = completions s.log + (s.device.wait t).1.scheduled
      omega
    · refine ⟨by simp [Place.asked], by simp [Place.issued], ?_⟩
      rintro request' data' ⟨rfl, rfl⟩
      exact ⟨before, hown, by omega, hanswer⟩
  · rw [show s.device.wait t = ((s.device.wait t).1, false) from Prod.ext rfl hasleep]
    refine ⟨h.running,
      h.locked.move (by simp [hplace, Place.Queued]) (by simp [hplace, Place.holds]),
      ⟨_, hserving', .set honly (.asleep request data)⟩, ?_, h.written, hothers _ ?_, h.kept⟩
    · show (issues s.log).length = completions s.log + (s.device.wait t).1.scheduled
      omega
    · refine ⟨by simp [Place.asked], ?_, by simp [Place.answered]⟩
      rintro request' data' ⟨rfl, rfl⟩
      exact ⟨before, hown, hanswer⟩

theorem release (h : Inv initial s) (hplace : s.places t = .release request data) :
    Inv initial (s.release t request data) := by
  obtain ⟨served, hserving, htracked⟩ := h.serving
  have howner : s.lock.ownerThread = some t := (h.locked.owner t).mpr (by rw [hplace]; rfl)
  have hanswered := (h.recorded t).answered request data (by rw [hplace]; rfl)
  have htracked' : Sole Place.served served (Function.update s.places t (.ret request data)) :=
    htracked.move (by rw [hplace]; rfl)
  have hrecorded : ∀ u, Recorded initial s.log u
      (Function.update s.places t (.ret request data) u) := by
    refine (Function.forall_update_iff s.places (Recorded initial s.log)).mpr
      ⟨⟨by simp [Place.asked], by simp [Place.issued], ?_⟩, fun u _ => h.recorded u⟩
    rintro request' data' ⟨rfl, rfl⟩
    exact hanswered
  have hheld : ¬ ¬ s.lock.isHeldByCurrentThread t := not_not.mpr howner
  unfold State.release Lock.release
  rw [if_neg hheld]
  cases hqueue : s.lock.queue with
  | nil =>
      have hlocked : Locked ⟨.free, none, []⟩ (Function.update s.places t (.ret request data)) :=
        h.locked.leave howner rfl
      exact ⟨h.running, hlocked, ⟨served, hserving, htracked'⟩, h.count, h.written, hrecorded,
        h.kept⟩
  | cons u queue =>
      have hmem : u ∈ s.lock.queue := hqueue ▸ List.mem_cons_self
      obtain ⟨request', hqueued⟩ := h.locked.waiting.sleeps u hmem
      have hut : u ≠ t := by
        rintro rfl
        rw [hplace] at hqueued
        cases hqueued
      have hqueued' : Function.update s.places t (.ret request data) u = .queued request' := by
        rw [Function.update_of_ne hut, hqueued]
      have hvalid : request'.Valid := (h.recorded u).valid request' (by rw [hqueued]; rfl)
      simp only [State.grant, State.goto, hqueued']
      refine ⟨h.running, h.locked.handOff howner hqueue rfl rfl,
        ⟨served, hserving, htracked'.move (by rw [hqueued']; rfl)⟩, h.count, h.written, ?_, h.kept⟩
      exact (Function.forall_update_iff _ (Recorded initial s.log)).mpr
        ⟨.asked hvalid rfl rfl rfl, fun v _ => hrecorded v⟩

theorem ret (h : Inv initial s) (hplace : s.places t = .ret request data) :
    Inv initial
      (State.goto { s with log := s.log ++ [Event.returned t request data] } t .outside) := by
  obtain ⟨served, hserving, htracked⟩ := h.serving
  have hanswered := (h.recorded t).answered request data (by rw [hplace]; rfl)
  refine ⟨h.running, h.locked.move (by simp [hplace, Place.Queued]) (by simp [hplace, Place.holds]),
    ⟨served, hserving, htracked.move (by rw [hplace]; rfl)⟩, ?_, ?_, ?_, h.kept.append hanswered⟩
  · show (issues (s.log ++ [Event.returned t request data])).length =
      completions (s.log ++ [Event.returned t request data]) + s.device.scheduled
    rw [issues_append, completions_append, List.length_append, h.count]
    rfl
  · show Written initial s.disk (issues (s.log ++ [Event.returned t request data]))
    rw [issues_append]
    exact (List.append_nil (issues s.log)).symm ▸ h.written
  · refine (Function.forall_update_iff s.places (Recorded initial _)).mpr ⟨?_, fun u hu => ?_⟩
    · exact ⟨by simp [Place.asked], by simp [Place.issued], by simp [Place.answered]⟩
    · exact (h.recorded u).append (by simpa [Event.thread] using Ne.symm hu)

theorem interrupt (h : Inv initial s) (hstep : s.interrupt = some s') : Inv initial s' := by
  obtain ⟨served, hserving, htracked⟩ := h.serving
  obtain ⟨⟨device, woken⟩, hinterrupt, rfl⟩ := Option.map_eq_some_iff.mp hstep
  obtain ⟨hscheduled, t, hserving', hwoken⟩ := hserving.interrupt hinterrupt
  have hrecorded : ∀ u, Recorded initial (s.log ++ [Event.completed]) u (s.places u) :=
    fun u => (h.recorded u).append (by simp [Event.thread])
  have hold := h.count
  -- exactly one request is outstanding when the interrupt comes
  have hone : device.scheduled = 0 := by
    have hbefore := hserving.scheduled
    split at hbefore <;> omega
  have hkept : Always (Justified initial) (s.log ++ [Event.completed]) :=
    h.kept.append (show (issues s.log).length = completions s.log + 1 by omega)
  have hissues : issues (s.log ++ [Event.completed]) = issues s.log := by
    rw [issues_append]
    exact List.append_nil _
  have hcount : (issues (s.log ++ [Event.completed])).length =
      completions (s.log ++ [Event.completed]) + device.scheduled := by
    rw [hissues, completions_append, show completions [.completed] = 1 from rfl]
    omega
  have hwritten : Written initial s.disk (issues (s.log ++ [Event.completed])) :=
    hissues.symm ▸ h.written
  rcases hwoken with ⟨rfl, rfl⟩ | ⟨rfl, rfl⟩
  · obtain ⟨request, data, hplace⟩ := Place.eq_asleep ((htracked t true).mp rfl)
    have honly := h.served_eq (t := t) (by rw [hplace]; rfl)
    simp only [State.wake, State.goto, hplace]
    refine ⟨h.running,
      h.locked.move (by simp [hplace, Place.Queued]) (by simp [hplace, Place.holds]),
      ⟨_, hserving', .set honly (.wait request data)⟩, hcount, hwritten, ?_, hkept⟩
    refine (Function.forall_update_iff s.places (Recorded initial _)).mpr
      ⟨⟨by simp [Place.asked], ?_, by simp [Place.answered]⟩, fun u _ => hrecorded u⟩
    rintro request' data' ⟨rfl, rfl⟩
    exact (hrecorded t).issued request data (by rw [hplace]; rfl)
  · exact ⟨h.running, h.locked, ⟨_, hserving', htracked⟩, hcount, hwritten, hrecorded, hkept⟩

end Inv

/-! ## Runs -/

/-- The label is no call with a sector number outside the disk. -/
def ValidLabel : Label → Prop
  | .call _ request => request.Valid
  | _ => True

theorem Inv.step {initial : Disk} {s s' : State} {label : Label} (h : Inv initial s)
    (hvalid : ValidLabel label) (hstep : s.step label = some s') : Inv initial s' := by
  unfold State.step at hstep
  rw [if_neg (by simp [h.running])] at hstep
  cases label with
  | interrupt => exact h.interrupt hstep
  | call t request =>
      dsimp only at hstep
      split at hstep
      · rename_i hplace
        cases hstep
        exact h.call hplace hvalid
      · cases hstep
  | go t =>
      dsimp only at hstep
      split at hstep
      · rename_i request hplace
        cases hstep
        exact h.acquire hplace
      · rename_i request hplace
        cases hstep
        exact h.issue hplace
      · rename_i request data hplace
        cases hstep
        exact h.wait hplace
      · rename_i request data hplace
        cases hstep
        exact h.release hplace
      · rename_i request data hplace
        cases hstep
        exact h.ret hplace
      · cases hstep
      · cases hstep
      · cases hstep

/-- Whatever the order of the calls, the threads and the interrupts: no ASSERT fails, at most
one request is outstanding, each is issued when no other is, and a call returns when its own
request has been completed, with the data of the last write before it. -/
theorem synchronous_disk (initial : Disk) (labels : List Label)
    (hvalid : ∀ label ∈ labels, ValidLabel label) :
    AllStates step (fun s => s.stop = none ∧ s.device.scheduled ≤ 1 ∧
        (issues s.log).length = completions s.log + s.device.scheduled ∧
        Always (Justified initial) s.log)
      (create initial) labels := by
  have hall : AllStates step (Inv initial) (create initial) labels :=
    allStates_of_allSteps (fun s label s' hlabel hstep h => h.step hlabel hstep)
      (Inv.create initial) (allSteps_of_forall hvalid _)
  apply hall.mono
  intro s h
  obtain ⟨served, hserving, -⟩ := h.serving
  have hscheduled := hserving.scheduled
  refine ⟨h.running, ?_, h.count, h.kept⟩
  split at hscheduled <;> omega

def blank : Sector := fun _ => 0#8
def filled : Sector := fun _ => 1#8

/-- Thread 2 reads the sector that thread 1 is writing: it waits for the lock, and then
sleeps until its own request is done. -/
def writeAndRead : List Label :=
  [.call 1 (.write 5 filled), .go 1, .call 2 (.read 5), .go 2, .go 1, .interrupt, .go 1, .go 1,
    .go 1, .go 2, .go 2, .interrupt, .go 2, .go 2, .go 2]

theorem synchronous_disk_writeAndRead :
    AllStates step (fun s => s.stop = none ∧ s.device.scheduled ≤ 1 ∧
        (issues s.log).length = completions s.log + s.device.scheduled ∧
        Always (Justified fun _ => blank) s.log)
      (create fun _ => blank) writeAndRead ∧
    (exec step (create fun _ => blank) writeAndRead).map State.log =
      some [.issued 1 (.write 5 filled), .completed, .returned 1 (.write 5 filled) filled,
        .issued 2 (.read 5), .completed, .returned 2 (.read 5) filled] := by
  refine ⟨synchronous_disk _ _ ?_, rfl⟩
  simp [writeAndRead, ValidLabel, Request.Valid, Disk.numSectors, Disk.sectorsPerTrack,
    Disk.numTracks]

end Nachos.SynchDisk
