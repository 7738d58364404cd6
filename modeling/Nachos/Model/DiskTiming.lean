import Nachos.Model.Disk

/-! # The time of a disk request

The latency that `machine/disk.cc` computes for a request, with the constants of
`machine/stats.h`. The clock runs on between the requests; all times are small enough for an
`int`. -/

namespace Nachos

/-- The time to rotate one sector. -/
def rotationTime : ℤ := 500

/-- The time to seek past one track. -/
def seekTime : ℤ := 500

/-- `lastSector`, `bufferInit` and `active` of `Disk`, and `totalTicks` of `Statistics`. `due` is
the time for which `Schedule` has put the completion interrupt on the list. -/
structure DiskClock where
  lastSector : ℤ
  bufferInit : ℤ
  active : Bool
  totalTicks : ℤ
  due : Option ℤ
deriving DecidableEq, Repr

namespace DiskClock

/-- The constructor, at time `now`. -/
def create (now : ℕ) : DiskClock :=
  ⟨0, 0, false, now, none⟩

/-! ## The latency -/

/-- `TimeToSeek`, with what it assigns to `*rotation`. -/
def timeToSeek (d : DiskClock) (newSector : ℤ) : ℤ × ℤ :=
  let newTrack := newSector.tdiv Disk.sectorsPerTrack
  let oldTrack := d.lastSector.tdiv Disk.sectorsPerTrack
  let seek := |newTrack - oldTrack| * seekTime
  let over' := (d.totalTicks + seek).tmod rotationTime
  (seek, if 0 < over' then rotationTime - over' else 0)

/-- `ModuloDiff(to, from)` -/
def moduloDiff (target current : ℤ) : ℤ :=
  let toOffset := target.tmod Disk.sectorsPerTrack
  let fromOffset := current.tmod Disk.sectorsPerTrack
  ((toOffset - fromOffset) + Disk.sectorsPerTrack).tmod Disk.sectorsPerTrack

/-- The test of `ComputeLatency` for the track buffer; NOTRACKBUF is not defined. -/
def trackBufferApplies (d : DiskClock) (newSector : ℤ) (writing : Bool) : Bool :=
  let (seek, rotation) := d.timeToSeek newSector
  let timeAfter := d.totalTicks + seek + rotation
  writing = false ∧ seek = 0 ∧
    moduloDiff newSector (d.bufferInit.tdiv rotationTime) <
      (timeAfter - d.bufferInit).tdiv rotationTime

def computeLatency (d : DiskClock) (newSector : ℤ) (writing : Bool) : ℤ :=
  let (seek, rotation) := d.timeToSeek newSector
  let timeAfter := d.totalTicks + seek + rotation
  if d.trackBufferApplies newSector writing then rotationTime
  else
    let rotation := rotation + moduloDiff newSector (timeAfter.tdiv rotationTime) * rotationTime
    seek + rotation + rotationTime

/-! ## Requests -/

def updateLast (d : DiskClock) (newSector : ℤ) : DiskClock :=
  let (seek, rotate) := d.timeToSeek newSector
  { d with
    bufferInit := if seek ≠ 0 then d.totalTicks + seek + rotate else d.bufferInit
    lastSector := newSector }

/-- The ASSERT of `Schedule`, and the interrupt that it puts on the list. -/
def schedule (d : DiskClock) (fromNow : ℤ) : Except Stop DiskClock :=
  if 0 < fromNow then .ok { d with due := some (d.totalTicks + fromNow) } else .error .aborted

/-- `ReadRequest` and `WriteRequest`, as far as the time goes. -/
def request (d : DiskClock) (sectorNumber : ℤ) (writing : Bool) : Except Stop DiskClock := do
  let ticks := d.computeLatency sectorNumber writing
  if d.active then throw .aborted
  if ¬ (0 ≤ sectorNumber ∧ sectorNumber < Disk.numSectors) then throw .aborted
  let d := { d with active := true }
  let d := d.updateLast sectorNumber
  d.schedule ticks

inductive Label
  | readRequest (sectorNumber : ℤ)
  | writeRequest (sectorNumber : ℤ)
  /-- the completion interrupt, when it is due -/
  | handleInterrupt
  | advance (ticks : ℕ)
deriving DecidableEq, Repr

def step (d : DiskClock) : Label → Option DiskClock
  | .readRequest sectorNumber => (d.request sectorNumber false).toOption
  | .writeRequest sectorNumber => (d.request sectorNumber true).toOption
  | .handleInterrupt =>
      match d.due with
      | none => none
      | some when =>
          if when ≤ d.totalTicks then some { d with active := false, due := none } else none
  | .advance ticks => some { d with totalTicks := d.totalTicks + ticks }

end DiskClock
end Nachos
