import Nachos.Library.Exclusion
import Nachos.Library.Runs
import Nachos.Model.Drivers

/-! # The input of the synchronous console

`RLineBlock` lets one thread at a time into the loop of `Read`, so the bytes of the stream go
to the calls in their order. The value that marks the buffer of the device as empty is also
the byte `0xff`: this byte is lost. -/

namespace Nachos.SynchRead

open Exclusion Runs State SynchConsole

/-! ## Pieces of the stream -/

def Terminator (c : Byte) : Prop :=
  c = newline ∨ c = controlA

namespace Reading

/-- The bytes that the call has consumed, its terminator included. -/
def consumed (r : Reading) : List Byte :=
  r.into ++ if r.eolncond then [r.ch] else []

/-- What a finished call has: a piece without a terminator that fills the buffer or is ended
by one. -/
structure Piece (r : Reading) : Prop where
  plain : ∀ c ∈ r.into, ¬ Terminator c
  room : (r.into.length : ℤ) ≤ r.numBytes
  ended : if r.eolncond then Terminator r.ch else (r.into.length : ℤ) = r.numBytes
  result : r.result = if r.eolncond ∧ r.ch = controlA then -1 else (r.into.length : ℤ)

/-- The variables of a call at any time. -/
structure Sound (r : Reading) : Prop where
  plain : ∀ c ∈ r.into, ¬ Terminator c
  room : r.into.length ≤ r.numBytes.toNat
  ended : r.eolncond = true → Terminator r.ch
  last : r.eolncond = false → r.into ≠ [] → ¬ Terminator r.ch

variable {r : Reading} {c : Byte}

theorem sound_start (numBytes : ℤ) (ch : Byte) : (start numBytes ch).Sound :=
  ⟨by simp [start], by simp [start], by simp [start], by simp [start]⟩

theorem consumed_start (numBytes : ℤ) (ch : Byte) : (start numBytes ch).consumed = [] := rfl

theorem Sound.skip (h : r.Sound) (hmore : r.eolncond = false) : Sound { r with ch := eof } where
  plain := h.plain
  room := h.room
  ended := by simp [hmore]
  last := by simp [Terminator, eof, newline, controlA]

theorem Sound.put (h : r.Sound) (hroom : (r.into.length : ℤ) < r.numBytes)
    (hmore : r.eolncond = false) (c : Byte) : (r.put c).Sound := by
  unfold Reading.put
  split
  · rename_i hterminator
    exact ⟨h.plain, h.room, fun _ => hterminator, by simp⟩
  · rename_i hplain
    refine ⟨?_, ?_, by simp [hmore], fun _ _ => hplain⟩
    · intro d hd
      rcases List.mem_append.mp hd with hold | hnew
      · exact h.plain d hold
      · rw [List.mem_singleton.mp hnew]
        exact hplain
    · have hlength : (r.into ++ [c]).length = r.into.length + 1 := List.length_append
      show (r.into ++ [c]).length ≤ r.numBytes.toNat
      omega

/-- Every character goes to the buffer or ends the line. -/
theorem consumed_put (hmore : r.eolncond = false) (c : Byte) :
    (r.put c).consumed = r.consumed ++ [c] := by
  unfold Reading.put
  split
  · simp [consumed, hmore]
  · simp [consumed, hmore]

/-- A call that leaves the loop has its piece. -/
theorem Sound.piece (h : r.Sound) (hpos : 1 ≤ r.numBytes)
    (hdone : ¬ ((r.into.length : ℤ) < r.numBytes ∧ r.eolncond = false)) : r.Piece where
  plain := h.plain
  room := by
    have hroom := h.room
    omega
  ended := by
    have hroom := h.room
    split
    · rename_i heoln
      exact h.ended heoln
    · rename_i hmore
      by_contra hshort
      exact hdone ⟨by omega, by simpa using hmore⟩
  result := by
    have hroom := h.room
    unfold Reading.result
    cases heoln : r.eolncond with
    | true => simp
    | false =>
        -- the buffer is full, so the last character is in it
        have hfull : ¬ (r.into.length : ℤ) < r.numBytes := fun hlt => hdone ⟨hlt, heoln⟩
        have hsome : r.into ≠ [] := by
          intro hnil
          rw [hnil, List.length_nil] at hfull
          omega
        have hlast := h.last heoln hsome
        rw [if_neg (fun hcontrolA => hlast (.inr hcontrolA)), if_neg (by simp)]

end Reading

/-! ## Places -/

namespace Place

/-- The call that has the line. -/
def reading : Place → Option Reading
  | .loop r | .avail r | .availAsleep r | .getChar r => some r
  | _ => none

/-- What holds of the call at its place. -/
def Ok : Place → Prop
  | .outside => True
  | .line r | .lineAsleep r => r.Sound ∧ r.consumed = []
  | .loop r => r.Sound
  | .avail r | .availAsleep r | .getChar r =>
      r.Sound ∧ (r.into.length : ℤ) < r.numBytes ∧ r.eolncond = false

end Place

/-! ## Waking a thread -/

section Wake

variable (s : State) (woken : Option Tid)

/-- A thread that is woken stays where it is in its call. -/
theorem wake_cases : s.wake woken = s ∨ ∃ t place, s.wake woken = s.goto t place ∧
    place.reading = (s.places t).reading ∧ ((s.places t).Ok → place.Ok) := by
  cases woken with
  | none => exact .inl rfl
  | some t =>
      unfold State.wake
      dsimp only
      split
      · rename_i r hplace
        exact .inr ⟨t, .line r, rfl, by rw [hplace]; rfl, by rw [hplace]; exact id⟩
      · rename_i r hplace
        exact .inr ⟨t, .avail r, rfl, by rw [hplace]; rfl, by rw [hplace]; exact id⟩
      · exact .inl rfl

/-- Only the places change. -/
theorem exists_places_wake : ∃ places, s.wake woken = { s with places := places } := by
  obtain h | ⟨t, place, h, -, -⟩ := wake_cases s woken
  · exact ⟨s.places, h⟩
  · exact ⟨Function.update s.places t place, h⟩

@[simp] theorem input_wake : (s.wake woken).input = s.input := by
  obtain ⟨places, h⟩ := exists_places_wake s woken
  rw [h]

@[simp] theorem incoming_wake : (s.wake woken).incoming = s.incoming := by
  obtain ⟨places, h⟩ := exists_places_wake s woken
  rw [h]

@[simp] theorem lineBlock_wake : (s.wake woken).lineBlock = s.lineBlock := by
  obtain ⟨places, h⟩ := exists_places_wake s woken
  rw [h]

@[simp] theorem finished_wake : (s.wake woken).finished = s.finished := by
  obtain ⟨places, h⟩ := exists_places_wake s woken
  rw [h]

theorem reading_wake (t : Tid) :
    ((s.wake woken).places t).reading = (s.places t).reading := by
  rcases wake_cases s woken with h | ⟨u, place, h, hreading, -⟩
  · rw [h]
  · rw [h]
    exact (Function.forall_update_iff s.places
      fun t p => p.reading = (s.places t).reading).mpr ⟨hreading, fun _ _ => rfl⟩ t

theorem ok_wake (hok : ∀ t, (s.places t).Ok) (t : Tid) : ((s.wake woken).places t).Ok := by
  rcases wake_cases s woken with h | ⟨u, place, h, -, hplace⟩
  · rw [h]
    exact hok t
  · rw [h]
    exact (Function.forall_update_iff s.places fun _ p => p.Ok).mpr
      ⟨hplace (hok u), fun v _ => hok v⟩ t

theorem sole_wake {reader : Option (Tid × Reading)} :
    Sole Place.reading reader (s.wake woken).places ↔ Sole Place.reading reader s.places := by
  unfold Sole
  simp only [reading_wake]

end Wake

/-! ## The stream -/

/-- What the finished calls and the call that has the line have consumed. -/
def consumed (finished : List (Tid × Reading)) (reader : Option (Tid × Reading)) : List Byte :=
  (finished.map fun entry => entry.2.consumed).flatten ++
    (reader.map fun entry => entry.2.consumed).getD []

/-- What is in the buffer of the device. -/
def held (incoming : Byte) : List Byte :=
  if incoming = eof then [] else [incoming]

/-- The calls have consumed the beginning of the stream, each its own part of it; the rest is
in the device and in its file. -/
def Whole (stream : List Byte) (s : State) : Prop :=
  ∃ reader, Sole Place.reading reader s.places ∧
    consumed s.finished reader ++ held s.incoming ++ s.input = stream

/-- The step is no poll that reads the byte `0xff`. -/
def NoEof (s : State) : Label → Prop
  | .poll true => s.incoming = eof → s.input.head? ≠ some eof
  | _ => True

/-- The one token of `RLineBlock` is there when no thread has the line. -/
structure Line (stream : List Byte) (s : State) (reader : Option (Tid × Reading)) : Prop where
  sole : Sole Place.reading reader s.places
  token : s.lineBlock.value = if reader.isSome then 0 else 1
  whole : consumed s.finished reader ++ held s.incoming ++ s.input = stream

structure Inv (stream : List Byte) (s : State) : Prop where
  line : ∃ reader, Line stream s reader
  ok : ∀ t, (s.places t).Ok
  finished : ∀ entry ∈ s.finished, 1 ≤ entry.2.numBytes → entry.2.Piece

namespace Inv

variable {stream : List Byte} {s s' : State} {t : Tid} {r : Reading}

theorem create (stream : List Byte) : Inv stream (create stream) where
  line := ⟨none, by simp [Sole, SynchRead.create, Place.reading], rfl, rfl⟩
  ok := fun _ => trivial
  finished := by simp [SynchRead.create]

theorem ok_goto (h : Inv stream s) {place : Place} (hplace : place.Ok) (u : Tid) :
    (Function.update s.places t place u).Ok :=
  (Function.forall_update_iff s.places fun _ p => p.Ok).mpr ⟨hplace, fun v _ => h.ok v⟩ u

theorem line_of_reading (h : Inv stream s) (ht : (s.places t).reading = some r) :
    Line stream s (some (t, r)) := by
  obtain ⟨reader, hline⟩ := h.line
  have hreader := (hline.sole t r).mpr ht
  exact hreader ▸ hline

/-- Only one thread has the line. -/
theorem reading_eq (h : Inv stream s) (ht : (s.places t).reading = some r) (u : Tid)
    (r' : Reading) (hu : (s.places u).reading = some r') : u = t :=
  (h.line_of_reading ht).sole.unique hu ht

theorem call (h : Inv stream s) (hplace : s.places t = .outside) (numBytes : ℤ) (ch : Byte) :
    Inv stream (s.goto t (.line (.start numBytes ch))) := by
  obtain ⟨reader, hline⟩ := h.line
  refine ⟨⟨reader, ?_⟩, h.ok_goto ?_, h.finished⟩
  · exact ⟨hline.sole.move (by rw [hplace]; rfl), hline.token, hline.whole⟩
  · exact ⟨Reading.sound_start numBytes ch, Reading.consumed_start numBytes ch⟩

theorem enter (h : Inv stream s) (hplace : s.places t = .line r) :
    Inv stream (s.enter t r) := by
  obtain ⟨reader, hline⟩ := h.line
  have hok : (Place.line r).Ok := hplace ▸ h.ok t
  have htoken := hline.token
  unfold State.enter Semaphore.p
  cases hreader : reader with
  | some entry =>
      -- another thread has the line
      rw [hreader] at htoken
      have hzero : s.lineBlock.value = 0 := htoken
      rw [if_pos hzero]
      refine ⟨⟨reader, ?_⟩, h.ok_goto hok, h.finished⟩
      exact ⟨hline.sole.move (by rw [hplace]; rfl), hline.token, hline.whole⟩
  | none =>
      have hsole := hline.sole
      have hwhole := hline.whole
      rw [hreader] at htoken hsole hwhole
      have hone : s.lineBlock.value = 1 := htoken
      rw [if_neg (by omega)]
      refine ⟨⟨some (t, r), ?_⟩, h.ok_goto hok.1, h.finished⟩
      refine ⟨Sole.set ?_ (Place.loop r), ?_, ?_⟩
      · intro u r' hu
        cases (hsole u r').mpr hu
      · show s.lineBlock.value - 1 = 0
        omega
      · show consumed s.finished (some (t, r)) ++ held s.incoming ++ s.input = stream
        rw [← hwhole]
        simp [consumed, hok.2]

/-- The thread that has the line goes on and has consumed nothing. -/
theorem move (h : Inv stream s) (ht : (s.places t).reading = some r) (place : Place)
    {r' : Reading} (hreading : place.reading = some r') (hsame : r'.consumed = r.consumed)
    (hok : place.Ok) : Inv stream (s.goto t place) := by
  have hline := h.line_of_reading ht
  refine ⟨⟨some (t, r'), ?_, hline.token, ?_⟩, h.ok_goto hok, h.finished⟩
  · have hsole := Sole.set (h.reading_eq ht) place
    rw [hreading] at hsole
    exact hsole
  · have hwhole := hline.whole
    simp only [consumed, Option.map_some, Option.getD_some] at hwhole ⊢
    rw [hsame]
    exact hwhole

theorem wait (h : Inv stream s) (hplace : s.places t = .avail r) : Inv stream (s.wait t r) := by
  have hok : (Place.avail r).Ok := hplace ▸ h.ok t
  have ht : (s.places t).reading = some r := by rw [hplace]; rfl
  have hreadAvail : ∀ readAvail, Inv stream { s with readAvail := readAvail } := fun _ =>
    ⟨h.line.imp fun _ hline => ⟨hline.sole, hline.token, hline.whole⟩, h.ok, h.finished⟩
  unfold State.wait
  split
  · rename_i readAvail _
    exact (hreadAvail readAvail).move ht (.getChar r) rfl rfl hok
  · rename_i readAvail _
    exact (hreadAvail readAvail).move ht (.availAsleep r) rfl rfl hok

theorem getChar (h : Inv stream s) (hplace : s.places t = .getChar r) :
    Inv stream (s.getChar t r) := by
  have hok : (Place.getChar r).Ok := hplace ▸ h.ok t
  have ht : (s.places t).reading = some r := by rw [hplace]; rfl
  have hline := h.line_of_reading ht
  obtain ⟨hsound, hroom, hmore⟩ := hok
  unfold State.getChar
  by_cases hempty : s.incoming = eof
  · -- nothing is buffered
    rw [if_pos hempty]
    have hcleared : Inv stream { s with incoming := eof } := by
      rw [← hempty]
      exact h
    refine hcleared.move ht (.avail { r with ch := eof }) rfl ?_
      ⟨hsound.skip hmore, hroom, hmore⟩
    simp [Reading.consumed, hmore]
  · rw [if_neg hempty]
    refine ⟨⟨some (t, r.put s.incoming), ?_⟩, h.ok_goto (hsound.put hroom hmore _), h.finished⟩
    refine ⟨.set (h.reading_eq ht) (.loop (r.put s.incoming)), hline.token, ?_⟩
    have hwhole := hline.whole
    rw [held, if_neg hempty] at hwhole
    show consumed s.finished (some (t, r.put s.incoming)) ++ held eof ++ s.input = stream
    rw [← hwhole, held, if_pos rfl]
    simp [consumed, Reading.consumed_put hmore]

theorem leave (h : Inv stream s) (hplace : s.places t = .loop r)
    (hdone : ¬ ((r.into.length : ℤ) < r.numBytes ∧ r.eolncond = false)) :
    Inv stream (s.leave t r) := by
  have hok : (Place.loop r).Ok := hplace ▸ h.ok t
  have ht : (s.places t).reading = some r := by rw [hplace]; rfl
  have hline := h.line_of_reading ht
  have hzero : s.lineBlock.value = 0 := hline.token
  have hone : s.lineBlock.v.1.value = 1 := by
    unfold Semaphore.v
    split
    · show s.lineBlock.value + 1 = 1
      omega
    · show s.lineBlock.value + 1 = 1
      omega
  unfold State.leave
  refine ⟨⟨none, ?_⟩, ok_wake _ _ (h.ok_goto trivial), ?_⟩
  · refine ⟨(sole_wake _ _).mpr (.set (h.reading_eq ht) .outside), ?_, ?_⟩
    · rw [lineBlock_wake]
      exact hone
    · have hwhole := hline.whole
      rw [finished_wake, incoming_wake, input_wake]
      show consumed (s.finished ++ [(t, r)]) none ++ held s.incoming ++ s.input = stream
      rw [← hwhole]
      simp [consumed]
  · intro entry hentry hpos
    rw [finished_wake] at hentry
    rcases List.mem_append.mp hentry with hold | hnew
    · exact h.finished entry hold hpos
    · rw [List.mem_singleton.mp hnew] at hpos ⊢
      exact Reading.Sound.piece hok hpos hdone

/-- A poll that reads a byte other than `0xff` puts it into the empty buffer. -/
theorem poll (h : Inv stream s) (ready : Bool) (hguard : NoEof s (.poll ready)) :
    Inv stream (s.poll ready) := by
  obtain ⟨reader, hline⟩ := h.line
  unfold State.poll
  split
  · exact h
  · rename_i c input hinput
    split
    · exact h
    · rename_i hpoll
      obtain ⟨hempty, rfl⟩ : s.incoming = eof ∧ ready = true := by simpa using hpoll
      have hc : c ≠ eof := by simpa [hinput] using hguard hempty
      refine ⟨⟨reader, ?_⟩, ok_wake _ _ h.ok, ?_⟩
      · refine ⟨(sole_wake _ _).mpr hline.sole, ?_, ?_⟩
        · rw [lineBlock_wake]
          exact hline.token
        · have hwhole := hline.whole
          rw [held, if_pos hempty, hinput] at hwhole
          rw [finished_wake, incoming_wake, input_wake]
          show consumed s.finished reader ++ held c ++ input = stream
          rw [← hwhole, held, if_neg hc]
          simp
      · intro entry hentry
        rw [finished_wake] at hentry
        exact h.finished entry hentry

theorem step (h : Inv stream s) {label : Label} (hguard : NoEof s label)
    (hstep : s.step label = some s') : Inv stream s' := by
  cases label with
  | poll ready =>
      cases hstep
      exact h.poll ready hguard
  | call t numBytes ch =>
      simp only [State.step] at hstep
      split at hstep
      · rename_i hplace
        cases hstep
        exact h.call hplace numBytes ch
      · cases hstep
  | go t =>
      simp only [State.step] at hstep
      split at hstep
      · rename_i r hplace
        cases hstep
        exact h.enter hplace
      · rename_i r hplace
        cases hstep
        have ht : (s.places t).reading = some r := by rw [hplace]; rfl
        have hok : (Place.loop r).Ok := hplace ▸ h.ok t
        split
        · rename_i hmore
          exact h.move ht (.avail r) rfl rfl ⟨hok, hmore⟩
        · rename_i hdone
          exact h.leave hplace hdone
      · rename_i r hplace
        cases hstep
        exact h.wait hplace
      · rename_i r hplace
        cases hstep
        exact h.getChar hplace
      · cases hstep
      · cases hstep
      · cases hstep

end Inv

/-! ## Runs -/

/-- A byte `0xff` that is read is lost at once: the device takes its buffer to be empty. -/
theorem lost_of_eof {stream : List Byte} {s s' : State} {label : Label} (h : Inv stream s)
    (hguard : ¬ NoEof s label) (hstep : s.step label = some s') : ¬ Whole stream s' := by
  obtain ⟨reader, hline⟩ := h.line
  match label, hguard with
  | .call _ _ _, hguard => exact absurd trivial hguard
  | .go _, hguard => exact absurd trivial hguard
  | .poll false, hguard => exact absurd trivial hguard
  | .poll true, hguard =>
      obtain ⟨hempty, hhead⟩ : s.incoming = eof ∧ s.input.head? = some eof := by
        simpa [NoEof] using hguard
      obtain ⟨input, hinput⟩ : ∃ input, s.input = eof :: input := List.head?_eq_some_iff.mp hhead
      have hwhole := hline.whole
      rw [held, if_pos hempty, hinput] at hwhole
      cases hstep
      rintro ⟨reader', hsole', hwhole'⟩
      simp only [State.poll, hinput, hempty, ne_eq, not_true, false_or, Bool.true_eq_false,
        if_false, sole_wake, finished_wake, incoming_wake, input_wake] at hsole' hwhole'
      have hsame : reader' = reader := hsole'.eq hline.sole
      rw [hsame, held, if_pos rfl, ← hwhole] at hwhole'
      have hlength := congrArg List.length hwhole'
      simp at hlength

/-- In every run the calls get the stream in its order, nothing lost and nothing twice, exactly
as long as no poll reads the byte `0xff`. -/
theorem console_input_iff (stream : List Byte) (labels : List Label) :
    AllStates step (fun s => Whole stream s ∧
        ∀ entry ∈ s.finished, 1 ≤ entry.2.numBytes → entry.2.Piece)
      (create stream) labels ↔
    AllSteps step NoEof (create stream) labels := by
  apply allStates_iff_allSteps (Inv stream)
  · intro s h
    obtain ⟨reader, hline⟩ := h.line
    exact ⟨⟨reader, hline.sole, hline.whole⟩, h.finished⟩
  · exact fun s label s' hguard hstep h => h.step hguard hstep
  · rintro s label s' hguard hstep h ⟨hwhole, -⟩
    exact lost_of_eof h hguard hstep hwhole
  · exact Inv.create stream

/-- A line with a byte `0xff` in it, and the calls and polls in which thread 1 reads it. -/
def lineWithEof : List Byte :=
  [97#8, 255#8, 98#8, newline]

def readLineWithEof : List Label :=
  [.call 1 10 0#8, .go 1, .go 1, .poll true, .go 1, .go 1, .go 1, .poll true, .poll true, .go 1,
    .go 1, .go 1, .go 1, .go 1, .go 1, .poll true, .go 1, .go 1, .go 1]

/-- The call returns without the byte `0xff`, and nobody gets it. -/
theorem read_loses_eof :
    (exec step (create lineWithEof) readLineWithEof).map
        (fun s => s.finished.map fun entry => entry.2.consumed) =
      some [[97#8, 98#8, newline]] ∧
    ¬ AllStates step (fun s => Whole lineWithEof s ∧
        ∀ entry ∈ s.finished, 1 ≤ entry.2.numBytes → entry.2.Piece)
      (create lineWithEof) readLineWithEof := by
  have hrun : (exec step (create lineWithEof) readLineWithEof).map
      (fun s => s.finished.map fun entry => entry.2.consumed) =
        some [[97#8, 98#8, newline]] := by decide
  refine ⟨hrun, fun hall => ?_⟩
  obtain ⟨s', hexec, hfinished⟩ := Option.map_eq_some_iff.mp hrun
  obtain ⟨⟨reader, -, hwhole⟩, -⟩ := hall.exec hexec
  rw [consumed, hfinished] at hwhole
  simp [lineWithEof] at hwhole

end Nachos.SynchRead
