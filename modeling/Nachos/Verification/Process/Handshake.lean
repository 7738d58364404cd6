import Nachos.Verification.Process.Consistency

/-! # The handshake of Join and Exit

A joined child that exits passes one token around: from `JoinRelease` to the joining
thread, and from its `ExitRelease` back to the child. The token is lost when `JoinUpdate`
returns early because of the exit code; in a clean run, where a joined process exits with
code 0, it is never lost. -/

namespace Nachos

open Runs

/-- Whether the thread waits for the exit of the process at `a`, or has been released and
has yet to release it. -/
def Activity.joinsOn : Activity → Option (Addr × Bool)
  | .joinWait _ a => some (a, false)
  | .joinCode _ a => some (a, true)
  | _ => none

/-- How far the thread of an entry is in `ExitUpdate`. -/
inductive Stage
  | running
  | leaving
  | removing

def Activity.stage : Activity → Stage
  | .exitRelease _ => .leaving
  | .exitWait _ _ => .leaving
  | .exitRemove _ => .removing
  | _ => .running

/-- Where the token of a handshake can be, by the stage of the child. -/
def Entry.Balanced (clean : Prop) (e : Entry) (waiting coding : Prop) : Stage → Prop
  | .running => e.joins = 0 ∧ e.exits = 0 ∧ ¬ coding ∧ (e.joinStatus ≠ -1 → waiting)
  | .leaving => (clean → e.exitcode = 0) ∧
      (e.joins = 1 ∧ e.exits = 0 ∧ ¬ coding ∧ waiting ∨
        e.joins = 0 ∧ e.exits = 0 ∧ coding ∨
        e.joins = 0 ∧ e.exits = 1 ∧ ¬ coding ∨
        e.exitcode ≠ 0 ∧ e.joins = 0 ∧ e.exits = 0 ∧ ¬ coding)
  | .removing => e.joins = 0 ∧ e.exits = 0 ∧ ¬ coding

theorem Entry.Balanced.congr {clean : Prop} {e : Entry} {w w' c c' : Prop} {st st' : Stage}
    (h : e.Balanced clean w c st) (hw : w' ↔ w) (hc : c' ↔ c) (hst : st' = st) :
    e.Balanced clean w' c' st' := by
  rw [hst, propext hw, propext hc]
  exact h

namespace Table

def Joining (s : Table) (a : Addr) (released : Bool) : Prop :=
  ∃ u q, s.procs u = some q ∧ q.activity.joinsOn = some (a, released)

def stage (s : Table) (e : Entry) : Stage :=
  match e.thread.bind s.procs with
  | none => .running
  | some q => q.activity.stage

/-- A joining thread runs for the parent of the entry, and the entry of a thread that has
been released is still there. -/
def Joins (s : Table) (processID : ℕ) : Activity → Prop
  | .joinWait pID a => a < s.nextAddr ∧
      ∀ e, s.entries a = some e → e.pid = pID ∧ processID = e.parentID
  | .joinCode pID a => a < s.nextAddr ∧
      ∃ e, s.entries a = some e ∧ e.pid = pID ∧ processID = e.parentID
  | _ => True

structure Handshake (clean : Prop) (s : Table) : Prop where
  own : s.Own
  joins : ∀ u q, s.procs u = some q → s.Joins q.processID q.activity
  balanced : ∀ a e, s.entries a = some e →
    e.Balanced clean (s.Joining a false) (s.Joining a true) (s.stage e)

theorem joining_update {s : Table} {t : Tid} {q : Proc} {a : Addr} {c : Bool} :
    (∃ u r, Function.update s.procs t (some q) u = some r ∧ r.activity.joinsOn = some (a, c)) ↔
      q.activity.joinsOn = some (a, c) ∨
        ∃ u r, u ≠ t ∧ s.procs u = some r ∧ r.activity.joinsOn = some (a, c) := by
  constructor
  · rintro ⟨u, r, hu, hr⟩
    rcases update_eq_some_iff.mp hu with ⟨-, rfl⟩ | ⟨hut, hu⟩
    · exact .inl hr
    · exact .inr ⟨u, r, hut, hu, hr⟩
  · rintro (hq | ⟨u, r, hut, hu, hr⟩)
    · exact ⟨t, q, Function.update_self .., hq⟩
    · exact ⟨u, r, update_eq_some_iff.mpr (.inr ⟨hut, hu⟩), hr⟩

theorem joining_act {s : Table} {t : Tid} {q : Proc} (hq : s.procs t = some q) (x : Activity)
    (a : Addr) (c : Bool) :
    (s.act t x).Joining a c ↔ x.joinsOn = some (a, c) ∨
      ∃ u r, u ≠ t ∧ s.procs u = some r ∧ r.activity.joinsOn = some (a, c) := by
  unfold Joining
  rw [procs_act hq]
  exact joining_update

/-- A thread that does not join `a`, before or after, does not matter for `a`. -/
theorem joining_act_other {s : Table} {t : Tid} {q : Proc} (hq : s.procs t = some q)
    {x : Activity} {a : Addr} (hbefore : ∀ c, q.activity.joinsOn ≠ some (a, c))
    (hafter : ∀ c, x.joinsOn ≠ some (a, c)) (c : Bool) :
    (s.act t x).Joining a c ↔ s.Joining a c := by
  rw [joining_act hq]
  constructor
  · rintro (hx | ⟨u, r, -, hu, hr⟩)
    · exact absurd hx (hafter c)
    · exact ⟨u, r, hu, hr⟩
  · rintro ⟨u, r, hu, hr⟩
    refine .inr ⟨u, r, ?_, hu, hr⟩
    rintro rfl
    rw [hq] at hu
    cases hu
    exact hbefore c hr

theorem stage_act {s : Table} {t : Tid} {q : Proc} (hq : s.procs t = some q) (x : Activity)
    (e : Entry) :
    (s.act t x).stage e = if e.thread = some t then x.stage else s.stage e := by
  unfold stage
  rw [procs_act hq]
  cases hthread : e.thread with
  | none => simp
  | some u =>
      by_cases hu : u = t
      · subst hu
        simp
      · simp [hu]

namespace Handshake

variable {clean : Prop} {s s' : Table} {t : Tid} {q : Proc} {i : Input} {a : Addr} {e e' : Entry}
  {x : Activity}

theorem joins_of_joinsOn (h : Handshake clean s) {u : Tid} {c : Bool} (hu : s.procs u = some q)
    (hjoin : q.activity.joinsOn = some (a, c)) :
    q.exited = false ∧ a < s.nextAddr ∧
      ∀ e, s.entries a = some e → q.processID = e.parentID := by
  have hjoins := h.joins u q hu
  have hexited := (h.own.fits u q hu).not_exited (by rintro huser; rw [huser] at hjoin; cases hjoin)
  generalize q.activity = x at hjoins hjoin
  cases x <;> simp only [Activity.joinsOn, reduceCtorEq, Option.some.injEq, Prod.mk.injEq] at hjoin
  · obtain ⟨rfl, -⟩ := hjoin
    exact ⟨hexited, hjoins.1, fun e he => (hjoins.2 e he).2⟩
  · obtain ⟨rfl, -⟩ := hjoin
    obtain ⟨hlt, e', he', -, hparent⟩ := hjoins
    refine ⟨hexited, hlt, fun e he => ?_⟩
    rw [he'] at he
    cases he
    exact hparent

/-- At most one thread joins a live entry. -/
theorem joiner_unique (h : Handshake clean s) (ha : s.entries a = some e) {u v : Tid} {q r : Proc}
    {c d : Bool} (hu : s.procs u = some q) (hv : s.procs v = some r)
    (hq : q.activity.joinsOn = some (a, c)) (hr : r.activity.joinsOn = some (a, d)) : u = v := by
  obtain ⟨hqe, -, hqp⟩ := h.joins_of_joinsOn hu hq
  obtain ⟨hre, -, hrp⟩ := h.joins_of_joinsOn hv hr
  exact h.own.unique hu hv hqe hre ((hqp e ha).trans (hrp e ha).symm)

theorem joins_alike (halike : Alike s s') {n : ℕ} (hx : s.Joins n x) : s'.Joins n x := by
  cases x with
  | joinWait pID a =>
      obtain ⟨hlt, hentry⟩ := hx
      refine ⟨halike.nextAddr ▸ hlt, fun e ha => ?_⟩
      obtain ⟨e₀, ha₀, hpid, hparent, -⟩ := halike.entry ha
      rw [← hpid, ← hparent]
      exact hentry e₀ ha₀
  | joinCode pID a =>
      obtain ⟨hlt, e, ha, hpid, hparent⟩ := hx
      obtain ⟨e', ha', hpid', hparent', -⟩ := halike.symm.entry ha
      exact ⟨halike.nextAddr ▸ hlt, e', ha', hpid'.trans hpid, hparent.trans hparent'.symm⟩
  | _ => trivial

theorem act (h : Handshake clean s) (hq : s.procs t = some q) (hown : (s'.act t x).Own)
    (halike : Alike s s') (hprocs : s'.procs = s.procs) (hx : s.Joins q.processID x)
    (hbalanced : ∀ b e, s'.entries b = some e →
      e.Balanced clean ((s.act t x).Joining b false) ((s.act t x).Joining b true)
        ((s.act t x).stage e)) :
    Handshake clean (s'.act t x) := by
  have hsame : (s'.act t x).procs = (s.act t x).procs := by
    rw [procs_act hq, procs_act (hprocs ▸ hq), hprocs]
  refine ⟨hown, ?_, ?_⟩
  · intro u r hu
    apply joins_alike (halike.trans (.act s' t x))
    rw [hsame, procs_act hq] at hu
    rcases update_eq_some_iff.mp hu with ⟨-, rfl⟩ | ⟨-, hu⟩
    · exact hx
    · exact h.joins u r hu
  · intro b e hb
    have hbal := hbalanced b e hb
    unfold Joining stage at hbal ⊢
    rw [hsame]
    exact hbal

/-- A step of `t` that concerns no handshake. -/
theorem quiet (h : Handshake clean s) (hq : s.procs t = some q) (hown : (s.act t x).Own)
    (hjoinsOn : x.joinsOn = q.activity.joinsOn) (hstage : x.stage = q.activity.stage)
    (hx : s.Joins q.processID x) : Handshake clean (s.act t x) := by
  apply h.act hq hown (.refl s) rfl hx
  intro b e hb
  have hjoining : ∀ c, (s.act t x).Joining b c ↔ s.Joining b c := by
    intro c
    have hself : s.act t q.activity = s := by
      have hupdate := Function.update_eq_self t s.procs
      rw [hq] at hupdate
      rw [Table.act, hq]
      exact congrArg (fun procs => { s with procs := procs }) hupdate
    rw [joining_act hq, hjoinsOn, ← joining_act hq, hself]
  have hstage' : (s.act t x).stage e = s.stage e := by
    rw [stage_act hq]
    split
    case isTrue hthread => simp [stage, hthread, hq, hstage]
    case isFalse => rfl
  exact (h.balanced b e hb).congr (hjoining false) (hjoining true) hstage'

/-- A step of `t` that concerns the handshake of the entry at `a` only. -/
theorem turn (h : Handshake clean s) (hq : s.procs t = some q) (ha : s.entries a = some e)
    (hident : e'.ident = e.ident) (hown : ((s.put a e').act t x).Own)
    (hbefore : ∀ b c, q.activity.joinsOn = some (b, c) → b = a)
    (hafter : ∀ b c, x.joinsOn = some (b, c) → b = a)
    (hstage : x.stage = q.activity.stage ∨ e.thread = some t) (hx : s.Joins q.processID x)
    (hbalanced : e'.Balanced clean ((s.act t x).Joining a false) ((s.act t x).Joining a true)
      (if e.thread = some t then x.stage else s.stage e)) :
    Handshake clean ((s.put a e').act t x) := by
  have hthread : e'.thread = e.thread := by
    simp only [Entry.ident, Prod.mk.injEq] at hident
    exact hident.2.2.2
  apply h.act hq hown (.put ha hident) rfl hx
  intro b e₁ hb
  rcases update_eq_some_iff.mp hb with ⟨rfl, rfl⟩ | ⟨hba, hb⟩
  · have hsame : s.stage e' = s.stage e := by
      simp [stage, hthread]
    rw [stage_act hq, hthread, hsame]
    exact hbalanced
  · have hjoining : ∀ c, (s.act t x).Joining b c ↔ s.Joining b c :=
      joining_act_other hq (fun c hc => hba (hbefore b c hc)) (fun c hc => hba (hafter b c hc))
    have hstage' : (s.act t x).stage e₁ = s.stage e₁ := by
      rw [stage_act hq]
      split
      case isTrue hthread₁ =>
        rcases hstage with hstage | hthread
        · simp [stage, hthread₁, hq, hstage]
        · -- a thread has one entry
          obtain ⟨r, hr, -, hpid⟩ := h.own.thread_proc a e t ha hthread
          obtain ⟨r', hr', -, hpid'⟩ := h.own.thread_proc b e₁ t hb hthread₁
          rw [hr] at hr'
          cases hr'
          have hslot := (h.own.entry_slot a e ha).1
          have hslot' := (h.own.entry_slot b e₁ hb).1
          rw [← hpid', hpid, hslot] at hslot'
          exact absurd (Option.some.inj hslot').symm hba
      case isFalse => rfl
    exact (h.balanced b e₁ hb).congr (hjoining false) (hjoining true) hstage'

/-! ## The steps of the handshake -/

/-- A thread that is not in `ExitUpdate` leaves the stage of every entry as it is. -/
theorem stage_ite (hq : s.procs t = some q) (hstage : x.stage = q.activity.stage) :
    (if e.thread = some t then x.stage else s.stage e) = s.stage e := by
  split
  case isTrue hthread => simp [stage, hthread, hq, hstage]
  case isFalse => rfl

/-- Nobody else joins an entry when its parent's thread is elsewhere. -/
theorem not_joining (h : Handshake clean s) (hq : s.procs t = some q) (hexited : q.exited = false)
    (hnone : q.activity.joinsOn = none) (ha : s.entries a = some e)
    (hparent : q.processID = e.parentID) (c : Bool) : ¬ s.Joining a c := by
  rintro ⟨u, r, hu, hr⟩
  obtain ⟨hre, -, hrp⟩ := h.joins_of_joinsOn hu hr
  have hut := h.own.unique hu hq hre hexited ((hrp e ha).trans hparent.symm)
  subst hut
  rw [hq] at hu
  cases hu
  rw [hnone] at hr
  cases hr

theorem join (h : Handshake clean s) (hq : s.procs t = some q) (hexited : q.exited = false)
    {pID : ℕ} (huser : q.activity = .user) (hslot : s.slot pID = some a) (ha : s.entries a = some e)
    (hparent : q.processID = e.parentID)
    (hown : (s.joinTest t pID a { e with joinStatus := e.parentID }).Own) :
    Handshake clean (s.joinTest t pID a { e with joinStatus := e.parentID }) := by
  have hnone : ∀ c, ¬ s.Joining a c :=
    h.not_joining hq hexited (by rw [huser]; rfl) ha hparent
  have hbal := h.balanced a e ha
  have hzero : e.joins = 0 := by
    cases hstage : s.stage e with
    | running =>
        rw [hstage] at hbal
        exact hbal.1
    | leaving =>
        rw [hstage] at hbal
        rcases hbal.2 with ⟨-, -, -, hwait⟩ | ⟨hzero, -⟩ | ⟨hzero, -⟩ | ⟨-, hzero, -⟩
        · exact absurd hwait (hnone false)
        · exact hzero
        · exact hzero
        · exact hzero
    | removing =>
        rw [hstage] at hbal
        exact hbal.1
  unfold Table.joinTest at hown ⊢
  rw [if_pos hzero] at hown ⊢
  have hcoding : ¬ (s.act t (.joinWait pID a)).Joining a true := by
    rw [joining_act hq]
    rintro (hx | ⟨u, r, -, hu, hr⟩)
    · cases hx
    · exact hnone true ⟨u, r, hu, hr⟩
  have hwaiting : (s.act t (.joinWait pID a)).Joining a false := by
    rw [joining_act hq]
    exact .inl rfl
  refine h.turn hq ha rfl hown (by simp [huser, Activity.joinsOn]) ?_
    (.inl (by rw [huser]; rfl)) ?_ ?_
  · rintro b c ⟨⟩
    rfl
  · refine ⟨h.own.addr a e ha, fun e' ha' => ?_⟩
    rw [ha] at ha'
    cases ha'
    exact ⟨h.own.slot_pid pID a e hslot ha, hparent⟩
  · rw [stage_ite hq (by rw [huser]; rfl)]
    cases hst : s.stage e with
    | running =>
        rw [hst] at hbal
        exact ⟨hbal.1, hbal.2.1, hcoding, fun _ => hwaiting⟩
    | leaving =>
        rw [hst] at hbal
        refine ⟨hbal.1, .inr (.inr ?_)⟩
        rcases hbal.2 with ⟨-, -, -, hwait⟩ | ⟨-, -, hcode⟩ | ⟨hjoins, hexits, -⟩ |
          ⟨hlost, hjoins, hexits, -⟩
        · exact absurd hwait (hnone false)
        · exact absurd hcode (hnone true)
        · exact .inl ⟨hjoins, hexits, hcoding⟩
        · exact .inr ⟨hlost, hjoins, hexits, hcoding⟩
    | removing =>
        rw [hst] at hbal
        exact ⟨hbal.1, hbal.2.1, hcoding⟩

/-- The joining thread tests `joinsem` again. -/
theorem joinAgain (h : Handshake clean s) (hq : s.procs t = some q) {pID : ℕ}
    (hwait : q.activity = .joinWait pID a) (ha : s.entries a = some e)
    (hown : (s.joinTest t pID a e).Own) : Handshake clean (s.joinTest t pID a e) := by
  have hjoins := h.joins t q hq
  rw [hwait] at hjoins
  have hbal := h.balanced a e ha
  unfold Table.joinTest at hown ⊢
  split at hown
  case isTrue hzero =>
    rw [if_pos hzero]
    have hput : s.put a e = s := by
      rw [Table.put, ← ha, Function.update_eq_self]
    rw [hput] at hown ⊢
    exact h.quiet hq hown (by rw [hwait]) (by rw [hwait]) hjoins
  case isFalse hpos =>
    rw [if_neg hpos]
    refine h.turn hq ha rfl hown ?_ ?_ (.inl (by rw [hwait]; rfl))
      ⟨hjoins.1, e, ha, hjoins.2 e ha⟩ ?_
    · rw [hwait]
      rintro b c ⟨⟩
      rfl
    · rintro b c ⟨⟩
      rfl
    · rw [stage_ite hq (by rw [hwait]; rfl)]
      have hcoding : (s.act t (.joinCode pID a)).Joining a true := by
        rw [joining_act hq]
        exact .inl rfl
      cases hst : s.stage e with
      | running =>
          rw [hst] at hbal
          exact absurd hbal.1 hpos
      | leaving =>
          rw [hst] at hbal
          rcases hbal.2 with ⟨hone, hexits, -⟩ | ⟨hzero, -⟩ | ⟨hzero, -⟩ | ⟨-, hzero, -⟩
          · exact ⟨hbal.1, .inr (.inl ⟨by simp [hone], hexits, hcoding⟩)⟩
          · exact absurd hzero hpos
          · exact absurd hzero hpos
          · exact absurd hzero hpos
      | removing =>
          rw [hst] at hbal
          exact absurd hbal.1 hpos

/-- The entry behind `pcb[pID]` for a thread that has been released: the child waits for
it. -/
theorem released (h : Handshake clean s) (hq : s.procs t = some q) {pID : ℕ} {b : Addr}
    (hcode : q.activity = .joinCode pID a) (hslot : s.slot pID = some b)
    (hb : s.entries b = some e) :
    b = a ∧ s.stage e = .leaving ∧ (clean → e.exitcode = 0) ∧ e.joins = 0 ∧ e.exits = 0 := by
  have hjoins := h.joins t q hq
  rw [hcode] at hjoins
  obtain ⟨-, e', ha, hpid, -⟩ := hjoins
  have hslot' := (h.own.entry_slot a e' ha).1
  rw [hpid, hslot] at hslot'
  cases hslot'
  rw [ha] at hb
  cases hb
  have hcoding : s.Joining a true := ⟨t, q, hq, by rw [hcode]; rfl⟩
  have hbal := h.balanced a e ha
  cases hst : s.stage e with
  | running =>
      rw [hst] at hbal
      exact absurd hcoding hbal.2.2.1
  | leaving =>
      rw [hst] at hbal
      rcases hbal.2 with ⟨-, -, hnot, -⟩ | ⟨hzero, hexits, -⟩ | ⟨-, -, hnot⟩ | ⟨-, -, -, hnot⟩
      · exact absurd hcoding hnot
      · exact ⟨rfl, rfl, hbal.1, hzero, hexits⟩
      · exact absurd hcoding hnot
      · exact absurd hcoding hnot
  | removing =>
      rw [hst] at hbal
      exact absurd hcoding hbal.2.2

/-- Behind `JoinWait` nobody else has been released. -/
theorem not_coding (h : Handshake clean s) (hq : s.procs t = some q) {pID : ℕ}
    (hcode : q.activity = .joinCode pID a) (ha : s.entries a = some e) :
    ¬ (s.act t .kernel).Joining a true := by
  rw [joining_act hq]
  rintro (hx | ⟨u, r, hut, hu, hr⟩)
  · cases hx
  · exact hut (h.joiner_unique ha hu hq hr (by rw [hcode]; rfl))

/-- `JoinUpdate` returns without `ExitRelease`, and the token is lost. -/
theorem joinFail (h : Handshake clean s) (hq : s.procs t = some q) {pID : ℕ} {b : Addr}
    (hcode : q.activity = .joinCode pID a) (hslot : s.slot pID = some b)
    (hb : s.entries b = some e) (hlost : e.exitcode ≠ 0) (hown : (s.act t .kernel).Own) :
    Handshake clean (s.act t .kernel) := by
  obtain ⟨rfl, hstage, hexit, hjoins, hexits⟩ := h.released hq hcode hslot hb
  have hput : s.put b e = s := by
    rw [Table.put, ← hb, Function.update_eq_self]
  rw [← hput] at hown ⊢
  refine h.turn hq hb rfl hown ?_ (fun _ _ hjoin => by cases hjoin)
    (.inl (by rw [hcode]; rfl)) trivial ?_
  · rw [hcode]
    rintro c d ⟨⟩
    rfl
  · rw [stage_ite hq (by rw [hcode]; rfl), hstage]
    exact ⟨hexit, .inr (.inr (.inr ⟨hlost, hjoins, hexits, h.not_coding hq hcode hb⟩))⟩

theorem joinDone (h : Handshake clean s) (hq : s.procs t = some q) {pID : ℕ} {b : Addr}
    (hcode : q.activity = .joinCode pID a) (hslot : s.slot pID = some b)
    (hb : s.entries b = some e)
    (hown : ((s.put b { e with exits := e.exits + 1 }).act t .kernel).Own) :
    Handshake clean ((s.put b { e with exits := e.exits + 1 }).act t .kernel) := by
  obtain ⟨rfl, hstage, hexit, hjoins, hexits⟩ := h.released hq hcode hslot hb
  refine h.turn hq hb rfl hown ?_ (fun _ _ hjoin => by cases hjoin)
    (.inl (by rw [hcode]; rfl)) trivial ?_
  · rw [hcode]
    rintro c d ⟨⟩
    rfl
  · rw [stage_ite hq (by rw [hcode]; rfl), hstage]
    exact ⟨hexit, .inr (.inr (.inl ⟨hjoins, by simp [hexits], h.not_coding hq hcode hb⟩))⟩

/-- The entry of a process that calls `Exit`, or is in `ExitUpdate`. -/
theorem own_entry (h : Handshake clean s) (hq : s.procs t = some q) (hexited : q.exited = false)
    (hne : q.processID ≠ 0) (hslot : s.slot q.processID = some a) (ha : s.entries a = some e) :
    e.thread = some t ∧ s.stage e = q.activity.stage := by
  obtain ⟨b, e', hslot', hb, hthread, -⟩ := h.own.entry_of_proc hq hexited hne
  rw [hslot] at hslot'
  cases hslot'
  rw [ha] at hb
  cases hb
  exact ⟨hthread, by simp [stage, hthread, hq]⟩

theorem exit (h : Handshake clean s) (hq : s.procs t = some q) (hexited : q.exited = false)
    (hcall : s.Exits q a e) (hjoined : e.joinStatus ≠ -1) {ec : ℤ} (hec : clean → ec = 0)
    (hown : ((s.put a { e with exitcode := ec, joins := e.joins + 1 }).act t
      (.exitRelease q.processID)).Own) :
    Handshake clean ((s.put a { e with exitcode := ec, joins := e.joins + 1 }).act t
      (.exitRelease q.processID)) := by
  obtain ⟨hthread, hstage⟩ := h.own_entry hq hexited hcall.child hcall.slot hcall.entry
  have hbal := h.balanced a e hcall.entry
  rw [hstage, hcall.user] at hbal
  obtain ⟨hjoins, hexits, hcoding, hwaiting⟩ := hbal
  have hsame : ∀ c, (s.act t (.exitRelease q.processID)).Joining a c ↔ s.Joining a c :=
    joining_act_other hq (by simp [hcall.user, Activity.joinsOn]) (by simp [Activity.joinsOn])
  refine h.turn hq hcall.entry rfl hown (by simp [hcall.user, Activity.joinsOn]) nofun
    (.inr hthread) trivial ?_
  rw [if_pos hthread, propext (hsame false), propext (hsame true)]
  exact ⟨hec, .inl ⟨by simp [hjoins], hexits, hcoding, hwaiting hjoined⟩⟩

theorem exitTest (h : Handshake clean s) (hq : s.procs t = some q) (hexited : q.exited = false)
    {pID : ℕ} (hleaving : q.activity.stage = .leaving) (hpid : pID = q.processID) (hne : pID ≠ 0)
    (hslot : s.slot pID = some a) (ha : s.entries a = some e)
    (hown : (s.exitTest t pID a e).Own) : Handshake clean (s.exitTest t pID a e) := by
  subst hpid
  obtain ⟨hthread, hstage⟩ := h.own_entry hq hexited hne hslot ha
  have hnone : q.activity.joinsOn = none := by
    generalize q.activity = x at hleaving
    cases x <;> first | rfl | cases hleaving
  have hbal := h.balanced a e ha
  rw [hstage, hleaving] at hbal
  unfold Table.exitTest at hown ⊢
  split at hown
  case isTrue hzero =>
    rw [if_pos hzero]
    have hput : s.put a e = s := by
      rw [Table.put, ← ha, Function.update_eq_self]
    rw [hput] at hown ⊢
    exact h.quiet hq hown hnone.symm hleaving.symm trivial
  case isFalse hpos =>
    rw [if_neg hpos]
    have hsame : ∀ c, (s.act t (.exitRemove q.processID)).Joining a c ↔ s.Joining a c :=
      joining_act_other hq (by simp [hnone]) (by simp [Activity.joinsOn])
    refine h.turn hq ha rfl hown (by simp [hnone]) (fun _ _ hjoins => by cases hjoins)
      (.inr hthread) trivial ?_
    rw [if_pos hthread, propext (hsame false), propext (hsame true)]
    rcases hbal.2 with ⟨-, hzero, -⟩ | ⟨-, hzero, -⟩ | ⟨hjoins, hone, hcoding⟩ | ⟨-, -, hzero, -⟩
    · exact absurd hzero hpos
    · exact absurd hzero hpos
    · exact ⟨hjoins, by simp [hone], hcoding⟩
    · exact absurd hzero hpos

/-! ## The other steps -/

theorem load (h : Handshake clean s) (hq : s.procs t = some q) (hstart : q.activity = .starting)
    {n : ℕ} (hown : (s.load t n x).Own) (hx : x = .user ∨ x = .kernel) :
    Handshake clean (s.load t n x) := by
  have hprocs : (s.load t n x).procs =
      Function.update s.procs t (some { q with pages := n, activity := x }) := by
    simp [Table.load, hq]
  have hjoining : ∀ b c, (s.load t n x).Joining b c ↔ s.Joining b c := by
    intro b c
    rw [← joining_act_other hq (x := x) (a := b) (by simp [hstart, Activity.joinsOn])
      (by rcases hx with rfl | rfl <;> simp [Activity.joinsOn]) c, joining_act hq]
    unfold Joining
    rw [hprocs]
    exact joining_update
  have hstage : ∀ e : Entry, (s.load t n x).stage e = s.stage e := by
    intro e
    unfold stage
    rw [hprocs]
    cases e.thread with
    | none => rfl
    | some u =>
        by_cases hu : u = t
        · subst hu
          rcases hx with rfl | rfl <;> simp [hq, hstart, Activity.stage]
        · simp [hu]
  refine ⟨hown, ?_, ?_⟩
  · intro u r hu
    rw [hprocs] at hu
    rcases update_eq_some_iff.mp hu with ⟨-, rfl⟩ | ⟨-, hu⟩
    · rcases hx with rfl | rfl
      · trivial
      · trivial
    · exact joins_alike (.load s t n x) (h.joins u r hu)
  · intro b e hb
    exact (h.balanced b e hb).congr (hjoining b false) (hjoining b true) (hstage e)

theorem newEntry (h : Handshake clean s) {j : ℕ} (hclear : s.marked j = false) (t : Tid)
    (parentID : ℕ) : Handshake clean (s.newEntry j t parentID) := by
  refine ⟨h.own.newEntry hclear t parentID, ?_, ?_⟩
  · intro u r hu
    have hjoins := h.joins u r hu
    generalize r.activity = x at hjoins ⊢
    cases x with
    | joinWait pID a =>
        refine ⟨Nat.lt_succ_of_lt hjoins.1, fun e ha => ?_⟩
        rcases update_eq_some_iff.mp ha with ⟨rfl, -⟩ | ⟨-, ha⟩
        · exact absurd hjoins.1 (lt_irrefl _)
        · exact hjoins.2 e ha
    | joinCode pID a =>
        obtain ⟨hlt, e, ha, hrest⟩ := hjoins
        exact ⟨Nat.lt_succ_of_lt hlt, e, update_eq_some_iff.mpr (.inr ⟨hlt.ne, ha⟩), hrest⟩
    | _ => trivial
  · intro a e ha
    rcases update_eq_some_iff.mp ha with ⟨rfl, rfl⟩ | ⟨-, ha⟩
    · refine ⟨rfl, rfl, ?_, fun hjoined => absurd rfl hjoined⟩
      rintro ⟨u, r, hu, hr⟩
      exact lt_irrefl _ (h.joins_of_joinsOn hu hr).2.1
    · exact h.balanced a e ha

theorem newProc (h : Handshake clean s) {j : ℕ} (ha : s.entries a = some e)
    (hnone : e.thread = none) (hown : (s.newProc j a e).Own) :
    Handshake clean (s.newProc j a e) := by
  have hentry : ∀ b e', (s.newProc j a e).entries b = some e' →
      ∃ e₀, s.entries b = some e₀ ∧ e₀.pid = e'.pid ∧ e₀.parentID = e'.parentID := by
    intro b e' hb
    rcases update_eq_some_iff.mp hb with ⟨rfl, rfl⟩ | ⟨-, hb⟩
    · exact ⟨e, ha, rfl, rfl⟩
    · exact ⟨e', hb, rfl, rfl⟩
  have hjoining : ∀ b c, (s.newProc j a e).Joining b c ↔ s.Joining b c := by
    intro b c
    refine joining_update.trans ⟨?_, ?_⟩
    · rintro (hx | ⟨u, r, -, hu, hr⟩)
      · cases hx
      · exact ⟨u, r, hu, hr⟩
    · rintro ⟨u, r, hu, hr⟩
      exact .inr ⟨u, r, (h.own.tid u r hu).ne, hu, hr⟩
  refine ⟨hown, ?_, ?_⟩
  · intro u r hu
    rcases update_eq_some_iff.mp hu with ⟨-, rfl⟩ | ⟨-, hu⟩
    · trivial
    · have hjoins := h.joins u r hu
      generalize r.activity = x at hjoins ⊢
      cases x with
      | joinWait pID b =>
          refine ⟨hjoins.1, fun e' hb => ?_⟩
          obtain ⟨e₀, hb₀, hpid, hparent⟩ := hentry b e' hb
          rw [← hpid, ← hparent]
          exact hjoins.2 e₀ hb₀
      | joinCode pID b =>
          obtain ⟨hlt, e', hb, hrest⟩ := hjoins
          by_cases hba : b = a
          · subst hba
            rw [ha] at hb
            cases hb
            exact ⟨hlt, _, Function.update_self .., hrest⟩
          · exact ⟨hlt, e', update_eq_some_iff.mpr (.inr ⟨hba, hb⟩), hrest⟩
      | _ => trivial
  · intro b e' hb
    rw [propext (hjoining b false), propext (hjoining b true)]
    rcases update_eq_some_iff.mp hb with ⟨rfl, rfl⟩ | ⟨-, hb⟩
    · have hbal := h.balanced b e ha
      have hrunning : s.stage e = .running := by simp [stage, hnone]
      have hrunning' : (s.newProc j b e).stage { e with thread := some s.nextTid } = .running := by
        simp [stage, Table.newProc, Activity.stage]
      rw [hrunning] at hbal
      rw [hrunning']
      exact hbal
    · have hstage : (s.newProc j a e).stage e' = s.stage e' := by
        unfold stage
        cases hthread : e'.thread with
        | none => rfl
        | some u =>
            obtain ⟨r, hr, -⟩ := h.own.thread_proc b e' u hb hthread
            simp [Table.newProc, (h.own.tid u r hr).ne]
      rw [hstage]
      exact h.balanced b e' hb

theorem remove (h : Handshake clean s) (hq : s.procs t = some q) (hexited : q.exited = false)
    (hne : q.processID ≠ 0) (hnone : q.activity.joinsOn = none)
    (hstage : q.activity.stage ≠ .leaving) :
    Handshake clean ((s.remove q.processID).leave t) := by
  have hown := h.own.remove hq hexited hne
  obtain ⟨a, e, hslot, ha, -, -, hmarked⟩ := h.own.entry_of_proc hq hexited hne
  obtain ⟨hthread, hst⟩ := h.own_entry hq hexited hne hslot ha
  have hcoding : ¬ s.Joining a true := by
    have hbal := h.balanced a e ha
    rw [hst] at hbal
    cases hcase : q.activity.stage with
    | running =>
        rw [hcase] at hbal
        exact hbal.2.2.1
    | leaving => exact absurd hcase hstage
    | removing =>
        rw [hcase] at hbal
        exact hbal.2.2
  rw [Own.leave_eq hq hmarked hslot] at hown ⊢
  refine ⟨hown, ?_, ?_⟩
  · intro u r hu
    rcases update_eq_some_iff.mp hu with ⟨-, rfl⟩ | ⟨-, hu⟩
    · trivial
    · have hjoins := h.joins u r hu
      have hmine : r.activity.joinsOn ≠ some (a, true) := fun hr => hcoding ⟨u, r, hu, hr⟩
      generalize r.activity = x at hjoins hmine ⊢
      cases x with
      | joinWait pID b =>
          exact ⟨hjoins.1, fun e' hb => hjoins.2 e' (update_none_eq_some_iff.mp hb).2⟩
      | joinCode pID b =>
          obtain ⟨hlt, e', hb, hrest⟩ := hjoins
          have hba : b ≠ a := by
            rintro rfl
            exact hmine rfl
          exact ⟨hlt, e', update_none_eq_some_iff.mpr ⟨hba, hb⟩, hrest⟩
      | _ => trivial
  · intro b e' hb
    obtain ⟨hba, hb₀⟩ := update_none_eq_some_iff.mp hb
    have hjoining : ∀ c, (∃ u r, Function.update s.procs t
        (some { q with activity := .user, exited := true }) u = some r ∧
          r.activity.joinsOn = some (b, c)) ↔ s.Joining b c := by
      intro c
      refine joining_update.trans ⟨?_, ?_⟩
      · rintro (hx | ⟨u, r, -, hu, hr⟩)
        · cases hx
        · exact ⟨u, r, hu, hr⟩
      · rintro ⟨u, r, hu, hr⟩
        refine .inr ⟨u, r, ?_, hu, hr⟩
        rintro rfl
        rw [hq] at hu
        cases hu
        rw [hnone] at hr
        cases hr
    apply (h.balanced b e' hb₀).congr (hjoining false) (hjoining true)
    unfold stage
    cases hthread' : e'.thread with
    | none => rfl
    | some u =>
        have hut : u ≠ t := by
          rintro rfl
          obtain ⟨r, hr, -, hpid⟩ := h.own.thread_proc b e' u hb₀ hthread'
          rw [hq] at hr
          cases hr
          have hslot' := (h.own.entry_slot b e' hb₀).1
          rw [← hpid, hslot] at hslot'
          exact hba (Option.some.inj hslot').symm
        simp [hut]

theorem step (h : Handshake clean s)
    (hclean : clean → ∀ q a e ec, s.procs t = some q → s.Exits q a e → e.joinStatus ≠ -1 →
      i = .exit ec → ec = 0)
    (hstep : s.Step t i s') : Handshake clean s' := by
  have hown := h.own.step hstep
  rcases hstep with rfl | ⟨q, hq, huser, hmove⟩
  · exact h
  have hexited := h.own.not_exited hq huser
  have hfits := h.own.fits t q hq
  cases hmove with
  | settle i x here next =>
      refine h.quiet hq hown ?_ ?_ ?_
      all_goals
        rcases next with rfl | rfl <;> rcases here with here | here <;>
          simp [here, Activity.joinsOn, Activity.stage, Joins]
  | wait i here =>
      exact h.quiet hq hown (by simp [here]) (by simp [here]) trivial
  | load i n x here next => exact h.load hq here hown next
  | create j parentID here range clear least =>
      exact (h.newEntry clear t parentID).quiet hq hown (by rw [here]; rfl) (by rw [here]; rfl)
        trivial
  | fork j a e here entry =>
      rw [here] at hfits
      obtain ⟨-, -, e', ha, hnone, -⟩ := hfits
      rw [entry] at ha
      cases ha
      have hact : (s.act t .kernel).Own := h.own.act hq (.refl s) rfl hexited
      have hquiet : Handshake clean (s.act t .kernel) :=
        h.quiet hq hact (by rw [here]; rfl) (by rw [here]; rfl) trivial
      rw [h.own.act_newProc hq] at hown ⊢
      exact hquiet.newProc entry hnone hown
  | abandon j a here => exact h.quiet hq hown (by rw [here]; rfl) (by rw [here]; rfl) trivial
  | join pID a e here pages range slot entry parent =>
      exact h.join hq hexited here slot entry parent hown
  | joinAgain pID a e here entry => exact h.joinAgain hq here entry hown
  | joinFail pID a b e here slot entry code =>
      exact h.joinFail hq here slot entry code hown
  | joinDone pID a b e here slot entry code => exact h.joinDone hq here slot entry hown
  | exit ec a e call joined =>
      have hec : clean → ec = 0 := fun hc => hclean hc q a e ec hq call joined rfl
      exact h.exit hq hexited call joined hec hown
  | exitWait pID a e here slot entry =>
      rw [here] at hfits
      exact h.exitTest hq hexited (by rw [here]; rfl) hfits.2.1 hfits.2.2 slot entry hown
  | exitAgain pID a e here entry =>
      rw [here] at hfits
      exact h.exitTest hq hexited (by rw [here]; rfl) hfits.2.1 hfits.2.2.1 hfits.2.2.2 entry hown
  | exitAlone ec a e call alone =>
      exact h.remove hq hexited call.child (by rw [call.user]; rfl) (by rw [call.user]; nofun)
  | exitRemove pID here =>
      rw [here] at hfits
      obtain ⟨-, rfl, hne⟩ := hfits
      exact h.remove hq hexited hne (by rw [here]; rfl) (by rw [here]; nofun)

end Handshake

end Table

/-- The argument of `Exit`. -/
def Input.exitCode : Input → Option ℤ
  | .exit ec => some ec
  | _ => none

namespace Kernel

variable {k k' : Kernel} {label : Tid × Input}

/-- `JoinStatus` of the process of thread `t` is not -1. -/
def joined (k : Kernel) (t : Tid) : Bool :=
  match (k.threads t).bind fun th => k.deref th.processID with
  | none => false
  | some (_, p) => p.joinStatus ≠ -1

/-- A process that has been joined passes the code 0 when it calls `Exit`. -/
def ExitsCleanly (k : Kernel) (label : Tid × Input) : Prop :=
  k.joined label.1 = true → ∀ ec ∈ label.2.exitCode, ec = 0

instance (k : Kernel) (label : Tid × Input) : Decidable (k.ExitsCleanly label) :=
  inferInstanceAs (Decidable (_ → _))

/-- A child that waits in `ExitWait` for a token has a thread between its `JoinWait` and
its `ExitRelease`. -/
def NoStranded (k : Kernel) : Prop :=
  ∀ u th pID a ec p, k.threads u = some th → th.mode = .exitWait pID a ec →
    k.heap a = some p → p.exitsem.value = 0 →
    ∃ t th' pID', k.threads t = some th' ∧
      (th'.mode = .joinWait pID' a ∨ th'.mode = .joinCode pID' a)

/-- The step is the return of a `JoinUpdate` that has passed `JoinWait` and does not call
`ExitRelease`. -/
def JoinLeaves (k : Kernel) (label : Tid × Input) : Prop :=
  ∃ th pID a b p, k.threads label.1 = some th ∧ th.mode = .joinCode pID a ∧
    k.deref pID = some (b, p) ∧ p.exitcode ≠ 0

theorem mode_of_joinsOn {mode : Mode} {a : Addr} {c : Bool}
    (h : mode.activity.joinsOn = some (a, c)) :
    ∃ pID, mode = .joinWait pID a ∨ mode = .joinCode pID a := by
  cases mode <;>
    simp only [Mode.activity, Activity.joinsOn, reduceCtorEq, Option.some.injEq,
      Prod.mk.injEq] at h
  · obtain ⟨rfl, -⟩ := h
    exact ⟨_, .inl rfl⟩
  · obtain ⟨rfl, -⟩ := h
    exact ⟨_, .inr rfl⟩

theorem noStranded_of_handshake (h : k.view.Handshake True) : NoStranded k := by
  intro u th pID a ec p hth hmode hp hzero
  have hproc := procs_of_threads hth
  have hact : th.proc.activity = .exitWait pID a := congrArg Mode.activity hmode
  have hfits := h.own.fits u _ hproc
  rw [hact] at hfits
  obtain ⟨hexited, rfl, hne, hslot⟩ := hfits
  have ha := entries_of_heap hp
  obtain ⟨-, hstage⟩ := h.own_entry hproc hexited hne hslot ha
  have hbal := h.balanced a _ ha
  rw [hstage, hact] at hbal
  have hjoining : ∃ c, k.view.Joining a c := by
    rcases hbal.2 with ⟨-, -, -, hwaiting⟩ | ⟨-, -, hcoding⟩ | ⟨-, hone, -⟩ | ⟨hlost, -⟩
    · exact ⟨false, hwaiting⟩
    · exact ⟨true, hcoding⟩
    · cases hzero.symm.trans hone
    · exact absurd (hbal.1 trivial) hlost
  obtain ⟨c, t, q, hq, hjoin⟩ := hjoining
  obtain ⟨th', hth', rfl⟩ := Option.map_eq_some_iff.mp hq
  obtain ⟨pID', hmode'⟩ := mode_of_joinsOn hjoin
  exact ⟨t, th', pID', hth', hmode'⟩

theorem not_joinLeaves (h : k.view.Handshake True) : ¬ k.JoinLeaves label := by
  rintro ⟨th, pID, a, b, p, hth, hmode, hderef, hcode⟩
  obtain ⟨hslot, hp⟩ := deref_eq_some.mp hderef
  exact hcode ((h.released (procs_of_threads hth) (congrArg Mode.activity hmode) hslot
    (entries_of_heap hp)).2.2.1 trivial)

theorem handshake_create (clean : Prop)
    (words : Vector (BitVec 32) (divRoundUp maxProcess bitsInWord))
    (frameWords : Vector (BitVec 32) (divRoundUp numPhysPages bitsInWord)) :
    (Kernel.create words frameWords).view.Handshake clean := by
  refine ⟨own_create words frameWords, ?_, nofun⟩
  intro u q hu
  by_cases hzero : u = 0
  · subst hzero
    cases hu
    trivial
  · simp [view, create, hzero] at hu

theorem handshake_step {clean : Prop} (hstep : k.step label = some k') (hd : k.Disciplined label)
    (hclean : clean → k.ExitsCleanly label) (h : k.view.Handshake clean) :
    k'.view.Handshake clean := by
  refine h.step ?_ (step_view hstep hd)
  intro hc q a e ec hq hcall hjoin hinput
  obtain ⟨th, hth, rfl⟩ := Option.map_eq_some_iff.mp hq
  obtain ⟨p, hp, rfl⟩ := Option.map_eq_some_iff.mp hcall.entry
  have hderef : k.deref th.processID = some (a, p) := deref_eq_some.mpr ⟨hcall.slot, hp⟩
  refine hclean hc ?_ ec (by simp [hinput, Input.exitCode])
  have hstatus : p.joinStatus ≠ -1 := hjoin
  simpa [joined, hth, hderef] using hstatus

/-- In every run in which no exited thread calls into the table and every joined process
exits with code 0, no child is stranded and every `JoinUpdate` that has waited releases its
child. -/
theorem no_stranded_child (words : Vector (BitVec 32) (divRoundUp maxProcess bitsInWord))
    (frameWords : Vector (BitVec 32) (divRoundUp numPhysPages bitsInWord))
    (run : List (Tid × Input))
    (hrun : AllSteps step (fun k label => k.Disciplined label ∧ k.ExitsCleanly label)
      (create words frameWords) run) :
    AllStates step NoStranded (create words frameWords) run ∧
      AllSteps step (fun k label => ¬ k.JoinLeaves label) (create words frameWords) run := by
  have hkeep : ∀ (k : Kernel) (label : Tid × Input) (k' : Kernel),
      k.Disciplined label ∧ k.ExitsCleanly label → k.step label = some k' →
      k.view.Handshake True → k'.view.Handshake True := fun k label k' hguard hstep h =>
    handshake_step hstep hguard.1 (fun _ => hguard.2) h
  have hall := allStates_of_allSteps hkeep (handshake_create True words frameWords) hrun
  have hleaves : ∀ (k : Kernel) (label : Tid × Input), k.view.Handshake True →
      k.Disciplined label ∧ k.ExitsCleanly label → ¬ k.JoinLeaves label :=
    fun k label h _ => not_joinLeaves h
  exact ⟨hall.mono fun k h => noStranded_of_handshake h, AllSteps.of_allStates hleaves hall hrun⟩

/-- The main program starts a child and joins it, the child calls `Exit(ec)`, and both run
on up to the return of `JoinUpdate`. -/
def joinRun (ec : ℤ) : List (Tid × Input) :=
  loadRun 0 ++ execRun 0 ++ loadRun 1 ++
    [(0, .join 1), (1, .exit ec), (1, .go), (0, .go), (0, .go)]

theorem no_stranded_child_of_zero :
    AllStates step NoStranded boot (joinRun 0 ++ [(1, .go), (1, .go)]) ∧
      AllSteps step (fun k label => ¬ k.JoinLeaves label) boot
        (joinRun 0 ++ [(1, .go), (1, .go)]) :=
  no_stranded_child _ _ _ (by decide +kernel)

/-- After `Exit(5)` the join has returned -1, and the child waits for a token that nobody
will give. -/
theorem child_stranded_by_exit_code : ¬ AllStates step NoStranded boot (joinRun 5) := by
  intro hall
  have hend : ((exec step boot (joinRun 5)).map fun k =>
      ((k.threads 1).map Thread.mode, (k.heap 0).map fun p => p.exitsem.value,
        (k.threads 0).map Thread.mode, k.nextTid)) =
      some (some (.exitWait 1 0 5), some 0, some (.returned (-1)), 2) := by
    decide +kernel
  obtain ⟨k, hexec, hk⟩ := Option.map_eq_some_iff.mp hend
  simp only [Prod.mk.injEq] at hk
  obtain ⟨hchild, hvalue, hparent, hnext⟩ := hk
  obtain ⟨th₁, hth₁, hmode₁⟩ := Option.map_eq_some_iff.mp hchild
  obtain ⟨p, hp, hzero⟩ := Option.map_eq_some_iff.mp hvalue
  have hown : k.view.Own := by
    have hrun : AllSteps step Disciplined boot (joinRun 5) := by decide +kernel
    exact (allStates_own (own_create _ _) hrun).exec hexec
  obtain ⟨t, th, pID, hth, hmode⟩ := hall.exec hexec 1 th₁ 1 0 5 p hth₁ hmode₁ hp hzero
  have hlt : t < 2 := hnext ▸ hown.tid t _ (procs_of_threads hth)
  have hjoin : (k.threads t).map Thread.mode = some (.joinWait pID 0) ∨
      (k.threads t).map Thread.mode = some (.joinCode pID 0) := by
    rw [hth]
    exact hmode.imp (congrArg some) (congrArg some)
  interval_cases t
  · rw [hparent] at hjoin
    rcases hjoin with hjoin | hjoin <;> cases hjoin
  · rw [hchild] at hjoin
    rcases hjoin with hjoin | hjoin <;> cases hjoin

end Kernel

end Nachos
