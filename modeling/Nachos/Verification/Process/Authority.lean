import Nachos.Verification.Process.Consistency
import Nachos.Verification.Process.PcbObject

/-! # Who may join

`JoinUpdate` compares the number of the calling process with `parentID`. These numbers are
slots, and slots are used again: the check is sound as long as no process gets the slot of
the parent of a process that is still there, no name overwrites the number, and the object
that is asked has not been deleted. -/

namespace Nachos

open Runs

namespace Table

/-- `GetFreeSlot` is about to return the parent number of a live entry. -/
def Recycles (s : Table) (i : Input) : Prop :=
  i = .sameName false ∧ ∃ j < maxProcess, s.marked j = false ∧ (∀ l < j, s.marked l = true) ∧
    ∃ a e, s.entries a = some e ∧ e.parentID = j

/-- The step makes an entry whose parent is not the process that makes it. -/
def Misnames (s : Table) (t : Tid) (i : Input) (s' : Table) : Prop :=
  i = .sameName false ∧ ∃ q e, s.procs t = some q ∧ s'.entries s.nextAddr = some e ∧
    e.parentID ≠ q.processID

/-- The entry at `a`, if it is live, was made by thread `u`. -/
def Made (s : Table) (u : Tid) (a : Addr) : Prop :=
  a < s.nextAddr ∧ ∀ e, s.entries a = some e → e.creator = u

/-- A thread joins its own children, and nobody's parent is the slot of a process that has
yet to start. -/
def Entitled (s : Table) (u : Tid) : Activity → Prop
  | .forking i _ => ∀ a e, s.entries a = some e → e.parentID ≠ i
  | .joinWait _ a => s.Made u a
  | .joinCode _ a => s.Made u a
  | _ => True

structure Authority (s : Table) : Prop where
  own : s.Own
  parent : ∀ u q a e, s.procs u = some q → q.exited = false → s.entries a = some e →
    q.processID = e.parentID → e.creator = u
  creator : ∀ a e, s.entries a = some e → e.creator < s.nextTid
  order : ∀ a e u, s.entries a = some e → e.thread = some u → e.creator < u
  entitled : ∀ u q, s.procs u = some q → s.Entitled u q.activity

namespace Authority

variable {s s' : Table} {t : Tid} {q : Proc} {i : Input}

theorem entitled_alike (halike : Alike s s') {u : Tid} {x : Activity} (h : s.Entitled u x) :
    s'.Entitled u x := by
  have hmade : ∀ a, s.Made u a → s'.Made u a := by
    rintro a ⟨hlt, hcreator⟩
    refine ⟨halike.nextAddr ▸ hlt, fun e ha => ?_⟩
    obtain ⟨e₀, ha₀, -, -, hc, -⟩ := halike.entry ha
    exact hc ▸ hcreator e₀ ha₀
  cases x with
  | forking i b =>
      intro a e ha
      obtain ⟨e₀, ha₀, -, hparent, -, -⟩ := halike.entry ha
      exact hparent ▸ h a e₀ ha₀
  | joinWait pID a => exact hmade a h
  | joinCode pID a => exact hmade a h
  | _ => trivial

theorem congr (h : Authority s) (hown : s'.Own) (halike : Alike s s')
    (hentitled : ∀ u r, s'.procs u = some r → s.Entitled u r.activity) : Authority s' where
  own := hown
  parent u r a e hu hexited ha heq := by
    obtain ⟨r₀, hu₀, hpid, hexited₀⟩ := halike.proc hu
    obtain ⟨e₀, ha₀, -, hparent, hcreator, -⟩ := halike.entry ha
    rw [← hcreator]
    exact h.parent u r₀ a e₀ hu₀ (hexited₀.trans hexited) ha₀ (hpid.trans (heq.trans hparent.symm))
  creator a e ha := by
    obtain ⟨e₀, ha₀, -, -, hcreator, -⟩ := halike.entry ha
    rw [← hcreator, halike.nextTid]
    exact h.creator a e₀ ha₀
  order a e u ha hu := by
    obtain ⟨e₀, ha₀, -, -, hcreator, hthread⟩ := halike.entry ha
    rw [← hcreator]
    exact h.order a e₀ u ha₀ (hthread.trans hu)
  entitled u r hu := entitled_alike halike (hentitled u r hu)

theorem act (h : Authority s) (hq : s.procs t = some q) {x : Activity} (hown : (s'.act t x).Own)
    (halike : Alike s s') (hprocs : s'.procs = s.procs) (hx : s.Entitled t x) :
    Authority (s'.act t x) := by
  apply h.congr hown (halike.trans (.act s' t x))
  intro u r hu
  rw [procs_act (hprocs ▸ hq), hprocs] at hu
  rcases update_eq_some_iff.mp hu with ⟨rfl, rfl⟩ | ⟨-, hu⟩
  · exact hx
  · exact h.entitled u r hu

theorem load (h : Authority s) (hq : s.procs t = some q) {n : ℕ} {x : Activity}
    (hown : (s.load t n x).Own) (hx : s.Entitled t x) : Authority (s.load t n x) := by
  apply h.congr hown (.load s t n x)
  intro u r hu
  simp only [Table.load, hq] at hu
  rcases update_eq_some_iff.mp hu with ⟨rfl, rfl⟩ | ⟨-, hu⟩
  · exact hx
  · exact h.entitled u r hu

/-- A thread in the kernel runs for a marked slot, and no thread is making an entry for
that slot. -/
theorem slot_taken (h : s.Own) (hq : s.procs t = some q) (hexited : q.exited = false) :
    s.marked q.processID = true ∧
      ∀ u r j a, s.procs u = some r → r.activity = .forking j a → j ≠ q.processID := by
  by_cases hzero : q.processID = 0
  · refine ⟨hzero ▸ h.root.1, fun u r j a hu hfork hj => ?_⟩
    have hfits := h.fits u r hu
    rw [hfork, hj, hzero] at hfits
    cases h.root.2.symm.trans hfits.2.1
  · obtain ⟨b, e, hslot, hb, hthread, -, hmarked⟩ := h.entry_of_proc hq hexited hzero
    refine ⟨hmarked, fun u r j a hu hfork hj => ?_⟩
    have hfits := h.fits u r hu
    rw [hfork, hj] at hfits
    obtain ⟨-, hslot', e', ha, hnone, -⟩ := hfits
    rw [hslot] at hslot'
    cases hslot'
    rw [hb] at ha
    cases ha
    cases hthread.symm.trans hnone

theorem newEntry (h : Authority s) (hq : s.procs t = some q) (hexited : q.exited = false) {j : ℕ}
    (hclear : s.marked j = false) (hunclaimed : ∀ a e, s.entries a = some e → e.parentID ≠ j) :
    Authority (s.newEntry j t q.processID) ∧
      (s.newEntry j t q.processID).Entitled t (.forking j s.nextAddr) := by
  obtain ⟨hmarked, hfree⟩ := slot_taken h.own hq hexited
  have hpid : q.processID ≠ j := by
    rintro rfl
    rw [hmarked] at hclear
    cases hclear
  have hparent : (Entry.create j t q.processID).parentID = q.processID := rfl
  have hmade : ∀ u a, s.Made u a → (s.newEntry j t q.processID).Made u a := by
    rintro u a ⟨hlt, hcreator⟩
    refine ⟨Nat.lt_succ_of_lt hlt, fun e ha => ?_⟩
    rcases update_eq_some_iff.mp ha with ⟨rfl, -⟩ | ⟨-, ha⟩
    · exact absurd hlt (lt_irrefl _)
    · exact hcreator e ha
  refine ⟨⟨h.own.newEntry hclear t q.processID, ?_, ?_, ?_, ?_⟩, ?_⟩
  · intro u r a e hu hr ha heq
    rcases update_eq_some_iff.mp ha with ⟨-, rfl⟩ | ⟨-, ha⟩
    · exact h.own.unique hq hu hexited hr (hparent.symm.trans heq.symm)
    · exact h.parent u r a e hu hr ha heq
  · intro a e ha
    rcases update_eq_some_iff.mp ha with ⟨-, rfl⟩ | ⟨-, ha⟩
    · exact h.own.tid t q hq
    · exact h.creator a e ha
  · intro a e u ha hu
    rcases update_eq_some_iff.mp ha with ⟨-, rfl⟩ | ⟨-, ha⟩
    · cases hu
    · exact h.order a e u ha hu
  · intro u r hu
    have hr := h.entitled u r hu
    have hother := hfree u r
    generalize r.activity = x at hr hother ⊢
    cases x with
    | forking l b =>
        intro a e ha
        rcases update_eq_some_iff.mp ha with ⟨-, rfl⟩ | ⟨-, ha⟩
        · rw [hparent]
          exact (hother l b hu rfl).symm
        · exact hr a e ha
    | joinWait pID a => exact hmade u a hr
    | joinCode pID a => exact hmade u a hr
    | _ => trivial
  · intro a e ha
    rcases update_eq_some_iff.mp ha with ⟨-, rfl⟩ | ⟨-, ha⟩
    · rw [hparent]
      exact hpid
    · exact hunclaimed a e ha

theorem fork (h : Authority s) (hq : s.procs t = some q) {j : ℕ} {a : Addr} {e : Entry}
    (hfork : q.activity = .forking j a) (ha : s.entries a = some e)
    (hown : ((s.newProc j a e).act t .kernel).Own) :
    Authority ((s.newProc j a e).act t .kernel) := by
  have hne : t ≠ s.nextTid := (h.own.tid t q hq).ne
  have hq' : (s.newProc j a e).procs t = some q := update_eq_some_iff.mpr (.inr ⟨hne, hq⟩)
  have hclaim := h.entitled t q hq
  rw [hfork] at hclaim
  have hentry : ∀ b e', ((s.newProc j a e).act t .kernel).entries b = some e' →
      ∃ e₀, s.entries b = some e₀ ∧ e₀.parentID = e'.parentID ∧ e₀.creator = e'.creator := by
    intro b e' hb
    rcases update_eq_some_iff.mp hb with ⟨rfl, rfl⟩ | ⟨-, hb⟩
    · exact ⟨e, ha, rfl, rfl⟩
    · exact ⟨e', hb, rfl, rfl⟩
  have hmade : ∀ u b, s.Made u b → ((s.newProc j a e).act t .kernel).Made u b := by
    rintro u b ⟨hlt, hcreator⟩
    refine ⟨hlt, fun e' hb => ?_⟩
    obtain ⟨e₀, hb₀, -, hc⟩ := hentry b e' hb
    exact hc ▸ hcreator e₀ hb₀
  have hproc : ∀ u r, ((s.newProc j a e).act t .kernel).procs u = some r →
      (u = t ∧ r = { q with activity := .kernel }) ∨
        (u = s.nextTid ∧ r = ⟨j, .starting, 0, false⟩) ∨ s.procs u = some r := by
    intro u r hu
    rw [procs_act hq'] at hu
    rcases update_eq_some_iff.mp hu with ⟨rfl, rfl⟩ | ⟨-, hu⟩
    · exact .inl ⟨rfl, rfl⟩
    · rcases update_eq_some_iff.mp hu with ⟨rfl, rfl⟩ | ⟨-, hu⟩
      · exact .inr (.inl ⟨rfl, rfl⟩)
      · exact .inr (.inr hu)
  refine ⟨hown, ?_, ?_, ?_, ?_⟩
  · intro u r b e' hu hr hb heq
    obtain ⟨e₀, hb₀, hparent, hcreator⟩ := hentry b e' hb
    rw [← hparent] at heq
    rw [← hcreator]
    rcases hproc u r hu with ⟨rfl, rfl⟩ | ⟨rfl, rfl⟩ | hu
    · exact h.parent u q b e₀ hq hr hb₀ heq
    · exact absurd heq.symm (hclaim b e₀ hb₀)
    · exact h.parent u r b e₀ hu hr hb₀ heq
  · intro b e' hb
    obtain ⟨e₀, hb₀, -, hcreator⟩ := hentry b e' hb
    exact Nat.lt_succ_of_lt (hcreator ▸ h.creator b e₀ hb₀)
  · intro b e' u hb hu
    rcases update_eq_some_iff.mp hb with ⟨rfl, rfl⟩ | ⟨-, hb⟩
    · cases hu
      exact h.creator b e ha
    · exact h.order b e' u hb hu
  · intro u r hu
    rcases hproc u r hu with ⟨-, rfl⟩ | ⟨-, rfl⟩ | hu
    · trivial
    · trivial
    · have hr := h.entitled u r hu
      generalize r.activity = x at hr ⊢
      cases x with
      | forking l c =>
          intro b e' hb
          obtain ⟨e₀, hb₀, hparent, -⟩ := hentry b e' hb
          exact hparent ▸ hr b e₀ hb₀
      | joinWait pID b => exact hmade u b hr
      | joinCode pID b => exact hmade u b hr
      | _ => trivial

theorem remove (h : Authority s) (hq : s.procs t = some q) (hexited : q.exited = false)
    (hne : q.processID ≠ 0) : Authority ((s.remove q.processID).leave t) := by
  have hown := h.own.remove hq hexited hne
  obtain ⟨a, e, hslot, ha, -, -, hmarked⟩ := h.own.entry_of_proc hq hexited hne
  rw [Own.leave_eq hq hmarked hslot] at hown ⊢
  refine ⟨hown, ?_, ?_, ?_, ?_⟩
  · intro u r b e' hu hr hb heq
    rcases update_eq_some_iff.mp hu with ⟨-, rfl⟩ | ⟨-, hu⟩
    · cases hr
    · exact h.parent u r b e' hu hr (update_none_eq_some_iff.mp hb).2 heq
  · intro b e' hb
    exact h.creator b e' (update_none_eq_some_iff.mp hb).2
  · intro b e' u hb hu
    exact h.order b e' u (update_none_eq_some_iff.mp hb).2 hu
  · intro u r hu
    rcases update_eq_some_iff.mp hu with ⟨-, rfl⟩ | ⟨-, hu⟩
    · trivial
    · have hr := h.entitled u r hu
      generalize r.activity = x at hr ⊢
      cases x with
      | forking l c => exact fun b e' hb => hr b e' (update_none_eq_some_iff.mp hb).2
      | joinWait pID b => exact ⟨hr.1, fun e' hb => hr.2 e' (update_none_eq_some_iff.mp hb).2⟩
      | joinCode pID b => exact ⟨hr.1, fun e' hb => hr.2 e' (update_none_eq_some_iff.mp hb).2⟩
      | _ => trivial

theorem joinTest (h : Authority s) (hq : s.procs t = some q) {pID : ℕ} {a : Addr} {e e' : Entry}
    (hown : (s.joinTest t pID a e').Own) (ha : s.entries a = some e)
    (hident : e'.ident = e.ident) (hmade : s.Made t a) : Authority (s.joinTest t pID a e') := by
  obtain ⟨e₁, x, hident₁, hx, heq⟩ := s.joinTest_eq t pID a e'
  rw [heq] at hown ⊢
  apply h.act hq hown (.put ha (hident₁.trans hident)) rfl
  rcases hx with rfl | rfl
  · exact hmade
  · exact hmade

theorem exitTest (h : Authority s) (hq : s.procs t = some q) {pID : ℕ} {a : Addr} {e : Entry}
    (hown : (s.exitTest t pID a e).Own) (ha : s.entries a = some e) :
    Authority (s.exitTest t pID a e) := by
  obtain ⟨e₁, x, hident, hx, heq⟩ := s.exitTest_eq t pID a e
  rw [heq] at hown ⊢
  apply h.act hq hown (.put ha hident) rfl
  rcases hx with rfl | rfl
  · trivial
  · trivial

theorem step (h : Authority s) (hrecycle : ¬ s.Recycles i) (hnames : ¬ s.Misnames t i s')
    (hstep : s.Step t i s') : Authority s' := by
  have hown := h.own.step hstep
  rcases hstep with rfl | ⟨q, hq, huser, hmove⟩
  · exact h
  have hexited := h.own.not_exited hq huser
  have hentitled := h.entitled t q hq
  cases hmove with
  | settle i x here next =>
      apply h.act hq hown (.refl s) rfl
      rcases next with rfl | rfl
      · trivial
      · trivial
  | wait i here => exact h.act hq hown (.refl s) rfl trivial
  | load i n x here next =>
      apply h.load hq hown
      rcases next with rfl | rfl
      · trivial
      · trivial
  | create j parentID here range clear least =>
      have hparent : parentID = q.processID := by
        by_contra hne
        exact hnames ⟨rfl, q, _, hq, Function.update_self .., hne⟩
      subst hparent
      have hunclaimed : ∀ a e, s.entries a = some e → e.parentID ≠ j := fun a e ha hparent =>
        hrecycle ⟨rfl, j, range, clear, least, a, e, ha, hparent⟩
      obtain ⟨hnew, hforking⟩ := h.newEntry hq hexited clear hunclaimed
      exact hnew.act hq hown (.refl _) rfl hforking
  | fork j a e here entry => exact h.fork hq here entry hown
  | abandon j a here => exact h.act hq hown (.refl s) rfl trivial
  | join pID a e here pages range slot entry parent =>
      refine h.joinTest hq hown entry rfl ⟨h.own.addr a e entry, fun e' ha => ?_⟩
      rw [entry] at ha
      cases ha
      exact h.parent t q a e hq hexited entry parent
  | joinAgain pID a e here entry =>
      rw [here] at hentitled
      exact h.joinTest hq hown entry rfl hentitled
  | joinFail pID a b e here slot entry code => exact h.act hq hown (.refl s) rfl trivial
  | joinDone pID a b e here slot entry code =>
      refine h.act hq hown (.put entry ?_) rfl trivial
      rfl
  | exit ec a e call joined =>
      refine h.act hq hown (.put call.entry ?_) rfl trivial
      rfl
  | exitWait pID a e here slot entry => exact h.exitTest hq hown entry
  | exitAgain pID a e here entry => exact h.exitTest hq hown entry
  | exitAlone ec a e call alone => exact h.remove hq hexited call.child
  | exitRemove pID here =>
      have hfits := h.own.fits t q hq
      rw [here] at hfits
      obtain ⟨-, rfl, hne⟩ := hfits
      exact h.remove hq hexited hne

end Authority

end Table

/-- The name that `ExecUpdate` is about to give to a new PCB. -/
def Mode.slotName : Mode → Option (List Byte)
  | .execSlot filename => some filename
  | _ => none

/-- The argument of `Join`. -/
def Input.joinID : Input → Option ℤ
  | .join pID => some pID
  | _ => none

namespace Kernel

variable {k k' : Kernel} {label : Tid × Input}

/-- The step is `GetFreeSlot` of an `ExecUpdate`, and the slot that `Find` returns is the
`parentID` of a PCB that has not been deleted. -/
def Recycles (k : Kernel) (label : Tid × Input) : Prop :=
  label.2 = .sameName false ∧
    ∃ a < k.nextAddr, (k.heap a).map (fun p => (p.parentID : ℤ)) = some k.bm.find.1

instance (k : Kernel) (label : Tid × Input) : Decidable (k.Recycles label) :=
  inferInstanceAs (Decidable (_ ∧ _))

theorem recycles_of_view (hown : k.view.Own) (h : k.view.Recycles label.2) :
    k.Recycles label := by
  obtain ⟨hinput, j, hlt, hclear, hleast, a, e, ha, hparent⟩ := h
  obtain ⟨p, hp, rfl⟩ := Option.map_eq_some_iff.mp ha
  refine ⟨hinput, a, hown.addr a _ ha, ?_⟩
  have htest : k.bm.test ⟨j, hlt⟩ = false := (isExist_eq_test k hlt).symm.trans hclear
  have hfind : k.bm.find.1 = j := by
    have hspec := k.bm.find_spec
    generalize k.bm.find = r at hspec ⊢
    cases hspec with
    | full hfull => cases (hfull ⟨j, hlt⟩).symm.trans htest
    | found i hi hbefore =>
        rcases lt_trichotomy i.val j with hij | hij | hij
        · have hset := (isExist_eq_test k i.isLt).symm.trans (hleast i hij)
          cases hset.symm.trans hi
        · simp [hij]
        · cases (hbefore ⟨j, hlt⟩ hij).symm.trans htest
  rw [hp, hfind]
  exact congrArg (fun n : ℕ => some (n : ℤ)) hparent

/-- The step makes a PCB, and the name that `SetFileName` copies into it overwrites the
number of the parent with another one. -/
def OverwritesParent (k : Kernel) (label : Tid × Input) : Prop :=
  label.2 = .sameName false ∧ k.bm.find.1 ≠ -1 ∧
    ∃ th ∈ k.threads label.1, ∃ name ∈ th.mode.slotName, ¬ PCB.KeepsParent th.processID name

instance instDecidableOverwritesParent (k : Kernel) (label : Tid × Input) :
    Decidable (k.OverwritesParent label) :=
  inferInstanceAs (Decidable (_ ∧ _ ∧ _))

/-- Only `execSlot` makes use of the comparison of names. -/
theorem execSlot_of_sameName {t : Tid} {th : Thread} {same : Bool}
    (h : k.modeStep t th (.sameName same) = some k') :
    k'.view.entries = k.view.entries ∨
      ∃ filename, th.mode.slotName = some filename ∧ k' = k.execSlot t th filename same := by
  cases hmode : th.mode with
  | user =>
      left
      simp only [modeStep, hmode, userStep] at h
      split at h
      · cases h
        rfl
      · cases h
        rfl
      · split at h
        · cases h
          rfl
        · cases h
  | execSlot filename =>
      right
      simp only [modeStep, hmode, Option.some.injEq] at h
      exact ⟨filename, rfl, h.symm⟩
  | _ => simp [modeStep, hmode] at h

/-- The parent that `execSlot` leaves in the new PCB. -/
theorem parentID_execSlot {t : Tid} {th : Thread} {filename : List Byte} {e : Entry}
    (hfree : k.view.entries k.nextAddr = none)
    (h : (k.execSlot t th filename false).view.entries k.nextAddr = some e) :
    ∃ j : Fin maxProcess, k.bm.find.1 = j ∧ k.bm.test j = false ∧
      e.parentID = PCB.parentBehind (PCB.create j t th.processID).parentID filename := by
  have hsame {k₁ : Kernel} (h : k₁.view.entries = k.view.entries) :
      k₁.view.entries k.nextAddr ≠ some e := by
    rw [h, hfree]
    nofun
  unfold execSlot at h
  have hspec := k.bm.find_spec
  generalize k.bm.find = r at hspec h ⊢
  cases hspec with
  | full hfull =>
      simp only [Bool.false_eq_true, if_false, if_true, view_execFail] at h
      exact absurd h (hsame rfl)
  | found j hclear hleast =>
      have hne : (j.val : ℤ) ≠ -1 := by omega
      simp only [Bool.false_eq_true, if_false, hne, BitMap.index?_coe] at h
      refine ⟨j, rfl, hclear, ?_⟩
      cases hname : (PCB.create j t th.processID).setFileName filename with
      | none =>
          rw [hname] at h
          exact absurd h (hsame rfl)
      | some p =>
          rw [hname] at h
          simp only [view, goto, modifyThread, Function.update_self, Option.map_some,
            Option.some.injEq] at h
          rw [← h]
          exact congrArg PCB.parentID (PCB.eq_of_setFileName hname)

theorem not_misnames (hown : k.view.Own) (hstep : k.step label = some k')
    (hkeeps : ¬ k.OverwritesParent label) : ¬ k.view.Misnames label.1 label.2 k'.view := by
  rintro ⟨hinput, q, e, hq, he, hne⟩
  obtain ⟨th, hth, -, -, hmode⟩ := step_eq_some hstep
  obtain rfl := Option.some.inj (hq.symm.trans (procs_of_threads hth))
  have hfree : k.view.entries k.nextAddr = none := by
    rw [Option.eq_none_iff_forall_not_mem]
    exact fun e he => lt_irrefl _ (hown.addr _ e he)
  rw [hinput] at hmode
  rcases execSlot_of_sameName hmode with hsame | ⟨filename, hslot, rfl⟩
  · rw [hsame] at he
    cases he.symm.trans hfree
  · obtain ⟨j, hfind, hclear, hparent⟩ := parentID_execSlot hfree he
    have hj : j.val ≠ 0 := by
      intro hzero
      have hroot := hown.root.1
      rw [← hzero] at hroot
      cases ((isExist_eq_test k j.isLt).symm.trans hroot).symm.trans hclear
    have hcreate : (PCB.create j label.1 th.processID).parentID = th.processID := if_neg hj
    rw [hcreate] at hparent
    refine hkeeps ⟨hinput, ?_, th, hth, filename, hslot, fun hkeep => hne ?_⟩
    · rw [hfind]
      omega
    · exact hparent.trans (PCB.parentBehind_of_keeps hkeep)

/-- The step is a `Join` of a slot whose PCB has been deleted. -/
def JoinsDeleted (k : Kernel) (label : Tid × Input) : Prop :=
  ∃ pID ∈ label.2.joinID, 0 < pID ∧ pID ≤ 9 ∧ ∃ a ∈ k.pcb pID.toNat, k.heap a = none

instance instDecidableJoinsDeleted (k : Kernel) (label : Tid × Input) :
    Decidable (k.JoinsDeleted label) :=
  inferInstanceAs (Decidable (∃ pID ∈ label.2.joinID, _))

/-- The step is a `Join(pID)` of a thread that did not create the PCB in the slot, and the
check of `parentID` lets it pass; or the check reads a PCB that has been deleted. -/
def JoinsStranger (k : Kernel) (label : Tid × Input) : Prop :=
  ∃ th pID a, k.threads label.1 = some th ∧ th.mode = .user ∧ label.2 = .join pID ∧
    0 < pID ∧ pID ≤ 9 ∧ k.pcb pID.toNat = some a ∧
    (k.heap a = none ∨
      ∃ p, k.heap a = some p ∧ th.processID = p.parentID ∧ p.creator ≠ label.1)

/-- Thread `t` is inside `JoinWait` for the process whose thread is `u`. -/
def BlockedOn (k : Kernel) (t u : Tid) : Prop :=
  ∃ th pID a p, k.threads t = some th ∧ th.mode = .joinWait pID a ∧ k.heap a = some p ∧
    p.thread = some u

def JoinAcyclic (k : Kernel) : Prop :=
  ∀ t, ¬ Relation.TransGen k.BlockedOn t t

theorem lt_of_blockedOn (h : k.view.Authority) {t u : Tid} (hblocked : k.BlockedOn t u) :
    t < u := by
  obtain ⟨th, pID, a, p, hth, hmode, hp, hthread⟩ := hblocked
  have hentitled := h.entitled t _ (procs_of_threads hth)
  rw [show th.proc.activity = .joinWait pID a from congrArg Mode.activity hmode] at hentitled
  have hcreator : p.creator = t := hentitled.2 _ (entries_of_heap hp)
  have horder : p.creator < u := h.order a _ u (entries_of_heap hp) hthread
  exact hcreator ▸ horder

theorem joinAcyclic_of_authority (h : k.view.Authority) : JoinAcyclic k := by
  intro t hcycle
  have hlt : ∀ u, Relation.TransGen k.BlockedOn t u → t < u := by
    intro u hpath
    induction hpath with
    | single hblocked => exact lt_of_blockedOn h hblocked
    | tail _ hblocked ih => exact ih.trans (lt_of_blockedOn h hblocked)
  exact lt_irrefl t (hlt t hcycle)

theorem not_joinsStranger (h : k.view.Authority) (hd : k.Disciplined label)
    (hlive : ¬ k.JoinsDeleted label) : ¬ k.JoinsStranger label := by
  rintro ⟨th, pID, a, hth, -, hinput, hpos, hle, hslot, hobject⟩
  rcases hobject with hnone | ⟨p, hp, hparent, hcreator⟩
  · exact hlive ⟨pID, by rw [hinput]; rfl, hpos, hle, a, hslot, hnone⟩
  have hexited : th.exited = false := by
    cases hexited : th.exited with
    | false => rfl
    | true =>
        have hcall := hd (by simp [hth, hexited])
        rw [hinput] at hcall
        cases hcall
  exact hcreator (h.parent _ _ a _ (procs_of_threads hth) hexited (entries_of_heap hp) hparent)

theorem authority_create (words : Vector (BitVec 32) (divRoundUp maxProcess bitsInWord))
    (frameWords : Vector (BitVec 32) (divRoundUp numPhysPages bitsInWord)) :
    (Kernel.create words frameWords).view.Authority := by
  refine ⟨own_create words frameWords, nofun, nofun, nofun, ?_⟩
  intro u q hu
  by_cases hzero : u = 0
  · subst hzero
    cases hu
    trivial
  · simp [view, create, hzero] at hu

theorem allStates_authority {run : List (Tid × Input)} (h : k.view.Authority)
    (hrun : AllSteps step (fun k label => k.Disciplined label ∧ ¬ k.Recycles label ∧
      ¬ k.OverwritesParent label) k run) :
    AllStates step (fun k => k.view.Authority) k run := by
  refine allStates_of_allSteps ?_ h hrun
  intro k label k' hguard hstep h
  exact h.step (mt (recycles_of_view h.own) hguard.2.1) (not_misnames h.own hstep hguard.2.2)
    (step_view hstep hguard.1)

/-- In every run in which no exited thread calls into the table, no process gets the slot of
the parent of a live one, no name overwrites the parent of a new process and nobody joins a
deleted PCB, `Join` succeeds for the creator only and the joins in progress have no cycle. -/
theorem join_authority (words : Vector (BitVec 32) (divRoundUp maxProcess bitsInWord))
    (frameWords : Vector (BitVec 32) (divRoundUp numPhysPages bitsInWord))
    (run : List (Tid × Input))
    (hrun : AllSteps step (fun k label => k.Disciplined label ∧ ¬ k.Recycles label ∧
      ¬ k.OverwritesParent label ∧ ¬ k.JoinsDeleted label) (create words frameWords) run) :
    AllSteps step (fun k label => ¬ k.JoinsStranger label) (create words frameWords) run ∧
      AllStates step JoinAcyclic (create words frameWords) run := by
  have hall := allStates_authority (authority_create words frameWords)
    (hrun.mono fun k label hguard => ⟨hguard.1, hguard.2.1, hguard.2.2.1⟩)
  have hjoins : ∀ (k : Kernel) (label : Tid × Input), k.view.Authority →
      k.Disciplined label ∧ ¬ k.Recycles label ∧ ¬ k.OverwritesParent label ∧
        ¬ k.JoinsDeleted label → ¬ k.JoinsStranger label :=
    fun k label h hguard => not_joinsStranger h hguard.1 hguard.2.2.2
  constructor
  · exact AllSteps.of_allStates hjoins hall hrun
  · exact hall.mono fun k h => joinAcyclic_of_authority h

/-- The main program starts a child, which starts one of its own and is joined after it
has exited. -/
theorem join_authority_of_family :
    AllSteps step (fun k label => ¬ k.JoinsStranger label) boot
        (loadRun 0 ++ execRun 0 ++ loadRun 1 ++ execRun 1 ++ loadRun 2 ++
          [(1, .join 2), (0, .join 1), (2, .exit 0)]) ∧
      AllStates step JoinAcyclic boot
        (loadRun 0 ++ execRun 0 ++ loadRun 1 ++ execRun 1 ++ loadRun 2 ++
          [(1, .join 2), (0, .join 1), (2, .exit 0)]) :=
  join_authority _ _ _ (by decide +kernel)

/-- The first process starts a second, which is left alone by the exit of the first and
starts a third. The third gets the number of the first, joins the second as if it were its
parent, and is joined by it. -/
def recyclingRun : List (Tid × Input) :=
  loadRun 0 ++ execRun 0 ++ loadRun 1 ++ execRun 1 ++ loadRun 2 ++ [(1, .exit 0)] ++
    execRun 2 ++ loadRun 3

theorem joinAcyclic_fails_after_recycling :
    ¬ AllSteps step (fun k label => ¬ k.JoinsStranger label) boot
        (recyclingRun ++ [(3, .join 2), (2, .join 1)]) ∧
      ¬ AllStates step JoinAcyclic boot (recyclingRun ++ [(3, .join 2), (2, .join 1)]) := by
  constructor
  · intro hall
    have hend : ((exec step boot recyclingRun).map fun k =>
        ((k.threads 3).map fun th => (th.mode, th.processID), k.pcb 2,
          (k.heap 1).map fun p => (p.parentID, p.creator), (k.step (3, .join 2)).isSome)) =
        some (some (.user, 1), some 1, some (1, 1), true) := by
      decide +kernel
    obtain ⟨k, hexec, hk⟩ := Option.map_eq_some_iff.mp hend
    simp only [Prod.mk.injEq] at hk
    obtain ⟨hthread, hslot, hheap, henabled⟩ := hk
    obtain ⟨th, hth, hmode⟩ := Option.map_eq_some_iff.mp hthread
    obtain ⟨p, hp, hparent⟩ := Option.map_eq_some_iff.mp hheap
    obtain ⟨k', hstep⟩ := Option.isSome_iff_exists.mp henabled
    simp only [Prod.mk.injEq] at hmode hparent
    refine (hall.exec hexec k' hstep).1 ⟨th, 2, 1, hth, hmode.1, rfl, by decide, by decide,
      hslot, .inr ⟨p, hp, ?_, ?_⟩⟩
    · rw [hmode.2, hparent.1]
    · rw [hparent.2]
      decide
  · intro hall
    have hend : ((exec step boot (recyclingRun ++ [(3, .join 2), (2, .join 1)])).map fun k =>
        ((k.threads 3).map Thread.mode, (k.heap 1).map PCB.thread,
          (k.threads 2).map Thread.mode, (k.heap 2).map PCB.thread)) =
        some (some (.joinWait 2 1), some (some 2), some (.joinWait 1 2), some (some 3)) := by
      decide +kernel
    obtain ⟨k, hexec, hk⟩ := Option.map_eq_some_iff.mp hend
    simp only [Prod.mk.injEq] at hk
    obtain ⟨hmode₃, hthread₁, hmode₂, hthread₂⟩ := hk
    obtain ⟨th₃, hth₃, hmode₃⟩ := Option.map_eq_some_iff.mp hmode₃
    obtain ⟨p₁, hp₁, hthread₁⟩ := Option.map_eq_some_iff.mp hthread₁
    obtain ⟨th₂, hth₂, hmode₂⟩ := Option.map_eq_some_iff.mp hmode₂
    obtain ⟨p₂, hp₂, hthread₂⟩ := Option.map_eq_some_iff.mp hthread₂
    have hforth : k.BlockedOn 3 2 := ⟨th₃, 2, 1, p₁, hth₃, hmode₃, hp₁, hthread₁⟩
    have hback : k.BlockedOn 2 3 := ⟨th₂, 1, 2, p₂, hth₂, hmode₂, hp₂, hthread₂⟩
    exact hall.exec hexec 3 (.tail (.single hforth) hback)

end Kernel

end Nachos
