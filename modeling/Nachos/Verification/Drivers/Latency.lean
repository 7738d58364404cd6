import Nachos.Library.Residues
import Nachos.Library.Runs
import Nachos.Model.DiskTiming
import Nachos.Model.Interrupt

/-! # The latency of the disk

A request takes until the head has reached the track and the sector has then passed under it
once; a read of a sector that has passed under the head since the track was reached takes the
time of one sector. -/

namespace Nachos

open Residues

/-! ### The rotating disk -/

def track (sector : ℤ) : ℤ :=
  sector / Disk.sectorsPerTrack

/-- The time to reach the track of a sector from that of another. -/
def seekFrom (lastSector sector : ℤ) : ℤ :=
  |track sector - track lastSector| * seekTime

/-- At time `t` a sector with this number on its track begins to pass under the head. -/
def Arrives (sector t : ℤ) : Prop :=
  rotationTime ∣ t ∧ t / rotationTime % Disk.sectorsPerTrack = sector % Disk.sectorsPerTrack

/-- The sector has passed completely between `start` and `stop`. -/
def Passed (sector start stop : ℤ) : Prop :=
  ∃ t, start ≤ t ∧ Arrives sector t ∧ t + rotationTime ≤ stop

/-- `t` is the first boundary of a sector from `time` on. -/
def FirstBoundary (time t : ℤ) : Prop :=
  IsLeast {t | time ≤ t ∧ rotationTime ∣ t} t

/-- `t` is the first time from `time` on at which the sector arrives. -/
def FirstArrival (sector time t : ℤ) : Prop :=
  IsLeast {t | time ≤ t ∧ Arrives sector t} t

namespace DiskClock

variable {d d' : DiskClock} {sector : ℤ} {writing : Bool}

/-- What keeps the times consistent: the buffer begins at a sector boundary. -/
structure Inv (d : DiskClock) : Prop where
  lastSector : 0 ≤ d.lastSector
  bufferInit : 0 ≤ d.bufferInit
  boundary : rotationTime ∣ d.bufferInit
  totalTicks : 0 ≤ d.totalTicks

/-! ### The parts of the computation -/

theorem rotationTime_pos : 0 < rotationTime := by decide

theorem tdiv_sectorsPerTrack (h : 0 ≤ sector) :
    sector.tdiv Disk.sectorsPerTrack = track sector :=
  Int.tdiv_eq_ediv_of_nonneg h

theorem seekFrom_nonneg (lastSector sector : ℤ) : 0 ≤ seekFrom lastSector sector :=
  mul_nonneg (abs_nonneg _) (by decide)

theorem seekFrom_eq_zero_iff {lastSector : ℤ} :
    seekFrom lastSector sector = 0 ↔ track sector = track lastSector := by
  rw [seekFrom, mul_eq_zero, abs_eq_zero, sub_eq_zero]
  exact or_iff_left (by decide)

/-- The rotation to the next boundary of a sector. -/
theorem roundUp_eq {x : ℤ} (hx : 0 ≤ x) :
    (if 0 < x.tmod rotationTime then rotationTime - x.tmod rotationTime else 0) =
      -x % rotationTime := by
  rw [Int.tmod_eq_emod_of_nonneg hx]
  unfold rotationTime
  split <;> omega

theorem timeToSeek_eq (h : d.Inv) (hsector : 0 ≤ sector) :
    d.timeToSeek sector = (seekFrom d.lastSector sector,
      -(d.totalTicks + seekFrom d.lastSector sector) % rotationTime) := by
  have hseek := seekFrom_nonneg d.lastSector sector
  rw [timeToSeek, tdiv_sectorsPerTrack hsector, tdiv_sectorsPerTrack h.lastSector, ← seekFrom,
    roundUp_eq (add_nonneg h.totalTicks hseek)]

theorem moduloDiff_eq {target current : ℤ} (htarget : 0 ≤ target) (hcurrent : 0 ≤ current) :
    moduloDiff target current = (target - current) % Disk.sectorsPerTrack := by
  rw [moduloDiff, Int.tmod_eq_emod_of_nonneg htarget, Int.tmod_eq_emod_of_nonneg hcurrent]
  unfold Disk.sectorsPerTrack
  rw [Int.tmod_eq_emod_of_nonneg (by omega)]
  omega

theorem firstBoundary_add (time : ℤ) : FirstBoundary time (time + -time % rotationTime) :=
  isLeast_multiple rotationTime_pos time

/-- The sector has passed when enough boundaries lie between the two. -/
theorem passed_iff {start stop : ℤ} (hstart : 0 ≤ start) (hstartBoundary : rotationTime ∣ start)
    (hstopBoundary : rotationTime ∣ stop) (hsector : 0 ≤ sector) :
    Passed sector start stop ↔
      moduloDiff sector (start.tdiv rotationTime) < (stop - start).tdiv rotationTime := by
  obtain ⟨j, rfl⟩ := hstartBoundary
  obtain ⟨a, rfl⟩ := hstopBoundary
  have hj : 0 ≤ j := nonneg_of_mul_nonneg_right hstart rotationTime_pos
  have hne : rotationTime ≠ 0 := rotationTime_pos.ne'
  rw [← mul_sub, Int.mul_tdiv_cancel_left _ hne, Int.mul_tdiv_cancel_left _ hne,
    moduloDiff_eq hsector hj, lt_sub_iff_add_lt', ← exists_residue_iff (by decide)]
  constructor
  · rintro ⟨t, hlow, ⟨⟨k, rfl⟩, hk⟩, hhigh⟩
    rw [Int.mul_ediv_cancel_left _ hne] at hk
    refine ⟨k, le_of_mul_le_mul_left hlow rotationTime_pos, ?_, hk⟩
    unfold rotationTime at hhigh
    omega
  · rintro ⟨k, hlow, hhigh, hk⟩
    refine ⟨rotationTime * k, mul_le_mul_of_nonneg_left hlow rotationTime_pos.le,
      ⟨dvd_mul_right _ _, by rwa [Int.mul_ediv_cancel_left _ hne]⟩, ?_⟩
    unfold rotationTime
    omega

/-! ### The latency -/

/-- What the latency of a request for the sector is. -/
structure LatencyConsistent (d : DiskClock) (sector : ℤ) : Prop where
  buffered : d.trackBufferApplies sector false = true ↔
    track sector = track d.lastSector ∧
      ∃ next, FirstBoundary d.totalTicks next ∧ Passed sector d.bufferInit next
  write : d.trackBufferApplies sector true = false
  fromBuffer : ∀ writing, d.trackBufferApplies sector writing = true →
    d.computeLatency sector writing = rotationTime
  fromDisk : ∀ writing, d.trackBufferApplies sector writing = false →
    ∃ t, FirstArrival sector (d.totalTicks + seekFrom d.lastSector sector) t ∧
      d.computeLatency sector writing = t + rotationTime - d.totalTicks
  pos : ∀ writing, 0 < d.computeLatency sector writing
  scheduled : ∀ writing {α : Type} (s : Interrupt α) (handler : α),
    s.totalTicks + d.computeLatency sector writing ≤ intMax →
      (s.schedule ⟨handler, d.computeLatency sector writing, .diskInt⟩).stop = s.stop
  accepted : d.active = false → ∀ writing, ∃ d', d.request sector writing = .ok d'

/-- A positive time passes the ASSERT of `Schedule`. -/
theorem stop_schedule {α : Type} (s : Interrupt α) (request : Request α)
    (hpos : 0 < request.fromNow) (hticks : s.totalTicks + request.fromNow ≤ intMax) :
    (s.schedule request).stop = s.stop := by
  rw [Interrupt.schedule]
  dsimp only
  rw [if_neg (not_lt.mpr hticks), if_neg (not_le.mpr hpos)]

theorem request_eq (d : DiskClock) (hactive : d.active = false)
    (hsector : 0 ≤ sector ∧ sector < Disk.numSectors)
    (hpos : 0 < d.computeLatency sector writing) :
    d.request sector writing = .ok
      { { d with active := true }.updateLast sector with
        due := some (d.totalTicks + d.computeLatency sector writing) } := by
  rw [request]
  dsimp only
  rw [hactive, if_neg Bool.false_ne_true, if_neg (not_not.mpr hsector), schedule, if_pos hpos]
  rfl

theorem trackBufferApplies_iff (h : d.Inv) (hsector : 0 ≤ sector) :
    d.trackBufferApplies sector false = true ↔ track sector = track d.lastSector ∧
      ∃ next, FirstBoundary d.totalTicks next ∧ Passed sector d.bufferInit next := by
  rw [trackBufferApplies, timeToSeek_eq h hsector]
  dsimp only
  rw [decide_eq_true_iff, seekFrom_eq_zero_iff, eq_self_iff_true, true_and]
  refine and_congr_right fun htrack => ?_
  rw [seekFrom_eq_zero_iff.mpr htrack, add_zero]
  have hnext := firstBoundary_add d.totalTicks
  rw [← passed_iff h.bufferInit h.boundary hnext.1.2 hsector]
  constructor
  · exact fun hpassed => ⟨_, hnext, hpassed⟩
  · rintro ⟨next, hnext', hpassed⟩
    rwa [hnext.unique hnext']

theorem computeLatency_fromDisk (h : d.Inv) (hsector : 0 ≤ sector)
    (hnot : d.trackBufferApplies sector writing = false) :
    ∃ t, FirstArrival sector (d.totalTicks + seekFrom d.lastSector sector) t ∧
      d.computeLatency sector writing = t + rotationTime - d.totalTicks := by
  have hboundary := firstBoundary_add (d.totalTicks + seekFrom d.lastSector sector)
  have harrival := isLeast_multiple_residue rotationTime_pos
    (show 0 < (Disk.sectorsPerTrack : ℤ) by decide) hboundary sector
  refine ⟨_, harrival, ?_⟩
  have hafter : 0 ≤ d.totalTicks + seekFrom d.lastSector sector +
      -(d.totalTicks + seekFrom d.lastSector sector) % rotationTime :=
    (add_nonneg h.totalTicks (seekFrom_nonneg _ _)).trans hboundary.1.1
  rw [computeLatency, timeToSeek_eq h hsector]
  dsimp only
  rw [hnot, if_neg Bool.false_ne_true, Int.tdiv_eq_ediv_of_nonneg hafter,
    moduloDiff_eq hsector (Int.ediv_nonneg hafter rotationTime_pos.le)]
  ring

example : (create 7).computeLatency 3 false = 4 * rotationTime - 7 := by decide

theorem computeLatency_fromBuffer (h : d.trackBufferApplies sector writing = true) :
    d.computeLatency sector writing = rotationTime := by
  rw [computeLatency]
  dsimp only
  rw [h, if_pos rfl]

theorem computeLatency_pos (h : d.Inv) (hsector : 0 ≤ sector) :
    0 < d.computeLatency sector writing := by
  cases happlies : d.trackBufferApplies sector writing with
  | true =>
      rw [computeLatency_fromBuffer happlies]
      exact rotationTime_pos
  | false =>
      obtain ⟨t, harrival, hlatency⟩ := computeLatency_fromDisk h hsector happlies
      have hle := harrival.1.1
      have hseek := seekFrom_nonneg d.lastSector sector
      rw [hlatency]
      unfold rotationTime
      omega

theorem Inv.latencyConsistent (h : d.Inv) (hsector : 0 ≤ sector ∧ sector < Disk.numSectors) :
    d.LatencyConsistent sector where
  buffered := trackBufferApplies_iff h hsector.1
  write := by simp [trackBufferApplies]
  fromBuffer _ := computeLatency_fromBuffer
  fromDisk _ := computeLatency_fromDisk h hsector.1
  pos _ := computeLatency_pos h hsector.1
  scheduled _ _ s handler := stop_schedule s ⟨handler, _, .diskInt⟩ (computeLatency_pos h hsector.1)
  accepted hactive _ := ⟨_, request_eq d hactive hsector (computeLatency_pos h hsector.1)⟩

/-! ### Runs -/

theorem inv_create (now : ℕ) : (create now).Inv :=
  ⟨le_rfl, le_rfl, dvd_zero _, Int.natCast_nonneg now⟩

/-- The buffer begins at the boundary that the seek ends at, or where it began before. -/
theorem Inv.updateLast (h : d.Inv) (hsector : 0 ≤ sector) : (d.updateLast sector).Inv := by
  have hboundary := firstBoundary_add (d.totalTicks + seekFrom d.lastSector sector)
  rw [DiskClock.updateLast, timeToSeek_eq h hsector]
  dsimp only
  by_cases hseek : seekFrom d.lastSector sector ≠ 0
  · rw [if_pos hseek]
    exact ⟨hsector, (add_nonneg h.totalTicks (seekFrom_nonneg _ _)).trans hboundary.1.1,
      hboundary.1.2, h.totalTicks⟩
  · rw [if_neg hseek]
    exact ⟨hsector, h.bufferInit, h.boundary, h.totalTicks⟩

theorem Inv.request (h : d.Inv) (hrequest : d.request sector writing = .ok d') : d'.Inv := by
  cases hactive : d.active with
  | true =>
      rw [DiskClock.request] at hrequest
      dsimp only at hrequest
      rw [if_pos hactive] at hrequest
      cases hrequest
  | false =>
      by_cases hsector : 0 ≤ sector ∧ sector < Disk.numSectors
      · rw [request_eq d hactive hsector (computeLatency_pos h hsector.1)] at hrequest
        cases hrequest
        have hbusy : Inv { d with active := true } :=
          ⟨h.lastSector, h.bufferInit, h.boundary, h.totalTicks⟩
        have hlast := hbusy.updateLast hsector.1
        exact ⟨hlast.lastSector, hlast.bufferInit, hlast.boundary, hlast.totalTicks⟩
      · rw [DiskClock.request] at hrequest
        dsimp only at hrequest
        rw [hactive, if_neg Bool.false_ne_true, if_pos hsector] at hrequest
        cases hrequest

theorem eq_ok_of_toOption {result : Except Stop DiskClock} (h : result.toOption = some d') :
    result = .ok d' := by
  cases result with
  | error stop => cases h
  | ok d => exact congrArg Except.ok (Option.some.inj h)

theorem step_inv (d : DiskClock) (label : Label) (d' : DiskClock) (hstep : d.step label = some d')
    (h : d.Inv) : d'.Inv := by
  cases label with
  | readRequest sectorNumber => exact h.request (eq_ok_of_toOption hstep)
  | writeRequest sectorNumber => exact h.request (eq_ok_of_toOption hstep)
  | handleInterrupt =>
      rw [step] at hstep
      split at hstep
      · cases hstep
      · split at hstep
        · cases hstep
          exact ⟨h.lastSector, h.bufferInit, h.boundary, h.totalTicks⟩
        · cases hstep
  | advance ticks =>
      cases hstep
      exact ⟨h.lastSector, h.bufferInit, h.boundary, add_nonneg h.totalTicks (by positivity)⟩

/-- In every reachable state the latency of every sector is consistent. -/
theorem latency_consistent (now : ℕ) (labels : List Label) :
    Runs.AllStates step (fun d => ∀ sector : ℤ, 0 ≤ sector ∧ sector < Disk.numSectors →
      d.LatencyConsistent sector) (create now) labels := by
  have hinv := Runs.allStates_of_keep step_inv labels (inv_create now)
  refine hinv.mono fun d h sector hsector => ?_
  exact Inv.latencyConsistent h hsector

end DiskClock
end Nachos
