import Nachos.Verification.Process.Handshake
import Nachos.Verification.Process.Join
import Nachos.Verification.Process.Queues

/-! # The other threads during a Join and an Exit

Between the calls of the parent and of the child run other threads, and the child before
its `Exit`. Such a step neither reaches the child's entry nor wakes one of the two, so a
run of the kernel in which the two make their calls is an interleaving of these calls. -/

namespace Nachos

open Runs

/-- The fields of an entry that the two calls use. -/
def Entry.shared (e : Entry) : ℕ × ℤ × ℤ × ℕ × ℕ :=
  (e.parentID, e.joinStatus, e.exitcode, e.joins, e.exits)

namespace Table

variable {clean : Prop} {s s' : Table} {t : Tid} {q : Proc} {i : Input} {a b : Addr}
  {e e' : Entry} {n : ℕ}

/-! ## The thread itself -/

theorem procs_leave (hq : s.procs t = some q) (pID : ℕ) :
    ((s.remove pID).leave t).procs t = some { q with activity := .user, exited := true } := by
  have hremove : (s.remove pID).procs = s.procs := by
    unfold Table.remove
    split <;> rfl
  simp [Table.leave, hremove, hq]

/-- What a step makes of its own thread: it runs for the same process, enters `Exit` only by
calling it, and joins only who it joined before or who it calls `Join` for. -/
structure Turned (s : Table) (q : Proc) (i : Input) (q' : Proc) : Prop where
  processID : q'.processID = q.processID
  early : q.activity.stage = .running → (∀ ec, i ≠ .exit ec) →
    q'.exited = q.exited ∧ q'.activity.stage = .running
  joins : ∀ a c, q'.activity.joinsOn = some (a, c) →
    (∃ d, q.activity.joinsOn = some (a, d)) ∨ ∃ pID : ℕ, i = .join pID ∧ s.slot pID = some a

/-- A step of a thread that joins nobody behind it. -/
theorem Turned.of_none {q' : Proc} (hpid : q'.processID = q.processID)
    (hnone : q'.activity.joinsOn = none)
    (hearly : q.activity.stage = .running → (∀ ec, i ≠ .exit ec) →
      q'.exited = q.exited ∧ q'.activity.stage = .running) : s.Turned q i q' := by
  refine ⟨hpid, hearly, fun a c hjoin => ?_⟩
  rw [hnone] at hjoin
  cases hjoin

theorem Own.turned (h : s.Own) (hq : s.procs t = some q) (hmove : s.Move t q i s') :
    ∃ q', s'.procs t = some q' ∧ s.Turned q i q' := by
  have hact : ∀ {s₁ : Table} {x : Activity}, s₁.procs t = some q →
      s.Turned q i { q with activity := x } →
      ∃ q', (s₁.act t x).procs t = some q' ∧ s.Turned q i q' := by
    intro s₁ x hq hturned
    exact ⟨_, by rw [procs_act hq, Function.update_self], hturned⟩
  have hrunning : ∀ {x : Activity}, x.joinsOn = none → x.stage = .running →
      s.Turned q i { q with activity := x } := fun hnone hstage =>
    .of_none rfl hnone fun _ _ => ⟨rfl, hstage⟩
  have hinside : ∀ {q' : Proc}, q.activity.stage ≠ .running → q'.processID = q.processID →
      q'.activity.joinsOn = none → s.Turned q i q' := fun hstage hpid hnone =>
    .of_none hpid hnone fun hrunning => absurd hrunning hstage
  cases hmove with
  | settle i x here next =>
      rcases next with rfl | rfl
      · exact hact hq (hrunning rfl rfl)
      · exact hact hq (hrunning rfl rfl)
  | wait i here => exact hact hq (hrunning rfl rfl)
  | load i n x here next =>
      refine ⟨{ q with pages := n, activity := x }, by simp [Table.load, hq], ?_⟩
      rcases next with rfl | rfl
      · exact .of_none rfl rfl fun _ _ => ⟨rfl, rfl⟩
      · exact .of_none rfl rfl fun _ _ => ⟨rfl, rfl⟩
  | create j parentID here range clear least => exact hact hq (hrunning rfl rfl)
  | fork j a e here entry =>
      exact hact ((Function.update_of_ne (h.tid t q hq).ne _ _).trans hq) (hrunning rfl rfl)
  | abandon j a here => exact hact hq (hrunning rfl rfl)
  | join pID a e here pages range slot entry parent =>
      obtain ⟨e₁, x, -, hx, heq⟩ := s.joinTest_eq t pID a { e with joinStatus := e.parentID }
      rw [heq]
      refine hact hq ⟨rfl, fun _ _ => ⟨rfl, ?_⟩, fun b c hjoin => .inr ⟨pID, rfl, ?_⟩⟩
      · rcases hx with rfl | rfl <;> rfl
      · rcases hx with rfl | rfl <;> cases hjoin <;> exact slot
  | joinAgain pID a e here entry =>
      obtain ⟨e₁, x, -, hx, heq⟩ := s.joinTest_eq t pID a e
      rw [heq]
      refine hact hq ⟨rfl, fun _ _ => ⟨rfl, ?_⟩, fun b c hjoin => .inl ⟨false, ?_⟩⟩
      · rcases hx with rfl | rfl <;> rfl
      · rw [here]
        rcases hx with rfl | rfl <;> cases hjoin <;> rfl
  | joinFail pID a b e here slot entry code => exact hact hq (hrunning rfl rfl)
  | joinDone pID a b e here slot entry code => exact hact hq (hrunning rfl rfl)
  | exit ec a e call joined =>
      exact hact hq (.of_none rfl rfl fun _ hcall => absurd rfl (hcall ec))
  | exitWait pID a e here slot entry =>
      obtain ⟨e₁, x, -, hx, heq⟩ := s.exitTest_eq t pID a e
      rw [heq]
      have hstage : q.activity.stage ≠ .running := by simp [here, Activity.stage]
      exact hact hq (hinside hstage rfl (by rcases hx with rfl | rfl <;> rfl))
  | exitAgain pID a e here entry =>
      obtain ⟨e₁, x, -, hx, heq⟩ := s.exitTest_eq t pID a e
      rw [heq]
      have hstage : q.activity.stage ≠ .running := by simp [here, Activity.stage]
      exact hact hq (hinside hstage rfl (by rcases hx with rfl | rfl <;> rfl))
  | exitAlone ec a e call alone =>
      exact ⟨_, procs_leave hq _, .of_none rfl rfl fun _ hcall => absurd rfl (hcall ec)⟩
  | exitRemove pID here =>
      have hstage : q.activity.stage ≠ .running := by simp [here, Activity.stage]
      exact ⟨_, procs_leave hq _, hinside hstage rfl rfl⟩

/-! ## The entry of the child -/

/-- Slot `n` and the shared fields of the entry at `a` are as they were. -/
structure Spared (s : Table) (n : ℕ) (a : Addr) (s' : Table) : Prop where
  marked : s'.marked n = s.marked n
  slot : s'.slot n = s.slot n
  entry : (s'.entries a).map Entry.shared = (s.entries a).map Entry.shared

theorem Spared.refl (s : Table) (n : ℕ) (a : Addr) : Spared s n a s :=
  ⟨rfl, rfl, rfl⟩

theorem Spared.of_eq (hmarked : s'.marked = s.marked) (hslot : s'.slot = s.slot)
    (hentry : s'.entries a = s.entries a) : Spared s n a s' :=
  ⟨congrFun hmarked n, congrFun hslot n, congrArg (Option.map Entry.shared) hentry⟩

/-- The entry of another process changes. -/
theorem Spared.put (hb : b ≠ a) (e : Entry) (t : Tid) (x : Activity) :
    Spared s n a ((s.put b e).act t x) :=
  .of_eq rfl rfl (Function.update_of_ne hb.symm _ _)

theorem Spared.joinTest (hb : b ≠ a) (t : Tid) (pID : ℕ) (e : Entry) :
    Spared s n a (s.joinTest t pID b e) := by
  obtain ⟨e₁, x, -, -, heq⟩ := s.joinTest_eq t pID b e
  rw [heq]
  exact .put hb e₁ t x

theorem Spared.exitTest (hb : b ≠ a) (t : Tid) (pID : ℕ) (e : Entry) :
    Spared s n a (s.exitTest t pID b e) := by
  obtain ⟨e₁, x, -, -, heq⟩ := s.exitTest_eq t pID b e
  rw [heq]
  exact .put hb e₁ t x

/-- `Remove` of another process. -/
theorem Own.spared_remove (h : s.Own) (ha : s.entries a = some e) (hq : s.procs t = some q)
    (hexited : q.exited = false) (hne : q.processID ≠ 0) (hother : q.processID ≠ e.pid) :
    Spared s e.pid a ((s.remove q.processID).leave t) := by
  obtain ⟨b, e', hslot, hb, -, hpid, hmarked⟩ := h.entry_of_proc hq hexited hne
  have hab : a ≠ b := by
    rintro rfl
    rw [ha] at hb
    cases hb
    exact hother hpid.symm
  rw [Own.leave_eq hq hmarked hslot]
  exact ⟨Function.update_of_ne hother.symm _ _, rfl,
    congrArg (Option.map Entry.shared) (Function.update_of_ne hab _ _)⟩

/-- A thread that does not join the child, and that is not the child at its `Exit`, leaves the
entry alone. -/
theorem Handshake.spared (h : s.Handshake clean) (hq : s.procs t = some q)
    (hexited : q.exited = false) (ha : s.entries a = some e)
    (hparent : q.processID = e.parentID →
      i ≠ .join e.pid ∧ ∀ c, q.activity.joinsOn ≠ some (a, c))
    (hchild : q.processID = e.pid → q.activity.stage = .running ∧ ∀ ec, i ≠ .exit ec)
    (hmove : s.Move t q i s') : Spared s e.pid a s' := by
  have hfits := h.own.fits t q hq
  -- who exits is not the child, who joins does not join the child
  have hinside : q.activity.stage ≠ .running → q.processID ≠ e.pid := fun hstage hpid =>
    hstage (hchild hpid).1
  have hjoins : ∀ {b c}, q.activity.joinsOn = some (b, c) → b ≠ a := by
    rintro b c hjoin rfl
    exact (hparent ((h.joins_of_joinsOn hq hjoin).2.2 e ha)).2 c hjoin
  have hslots : ∀ {b}, s.slot q.processID = some b → q.processID ≠ e.pid → b ≠ a := by
    rintro b hslot hother rfl
    exact hother (h.own.slot_pid _ _ e hslot ha).symm
  cases hmove with
  | settle i x here next => exact .of_eq rfl rfl rfl
  | wait i here => exact .of_eq rfl rfl rfl
  | load i n x here next => exact .of_eq rfl rfl rfl
  | create j parentID here range clear least =>
      have hj : e.pid ≠ j := by
        rintro rfl
        rw [(h.own.entry_slot a e ha).2.1] at clear
        cases clear
      exact ⟨Function.update_of_ne hj _ _, Function.update_of_ne hj _ _,
        congrArg (Option.map Entry.shared) (Function.update_of_ne (h.own.addr a e ha).ne _ _)⟩
  | fork j b e' here entry =>
      refine ⟨rfl, rfl, ?_⟩
      by_cases hba : a = b
      · subst hba
        rw [ha] at entry
        cases entry
        simp [Table.act, Table.newProc, ha, Entry.shared]
      · exact congrArg (Option.map Entry.shared) (Function.update_of_ne hba _ _)
  | abandon j b here => exact .of_eq rfl rfl rfl
  | join pID b e' here pages range slot entry parent =>
      have hba : b ≠ a := by
        rintro rfl
        rw [ha] at entry
        cases entry
        have hpid := h.own.slot_pid pID b e slot ha
        exact (hparent parent).1 (by rw [hpid])
      exact .joinTest hba t pID _
  | joinAgain pID b e' here entry =>
      have hba : b ≠ a := hjoins (by rw [here]; rfl)
      exact .joinTest hba t pID e'
  | joinFail pID b c e' here slot entry code => exact .of_eq rfl rfl rfl
  | joinDone pID b c e' here slot entry code =>
      obtain ⟨rfl, -⟩ := h.released hq here slot entry
      have hba : c ≠ a := hjoins (by rw [here]; rfl)
      exact .put hba _ t .kernel
  | exit ec b e' call joined =>
      have hother : q.processID ≠ e.pid := fun hpid => (hchild hpid).2 ec rfl
      exact .put (hslots call.slot hother) _ t _
  | exitWait pID b e' here slot entry =>
      rw [here] at hfits
      have hother := hinside (by rw [here]; intro hstage; cases hstage)
      rw [hfits.2.1] at slot
      exact .exitTest (hslots slot hother) t pID e'
  | exitAgain pID b e' here entry =>
      rw [here] at hfits
      have hother := hinside (by rw [here]; intro hstage; cases hstage)
      have slot := hfits.2.2.2
      rw [hfits.2.1] at slot
      exact .exitTest (hslots slot hother) t pID e'
  | exitAlone ec b e' call alone =>
      have hother : q.processID ≠ e.pid := fun hpid => (hchild hpid).2 ec rfl
      exact h.own.spared_remove ha hq hexited call.child hother
  | exitRemove pID here =>
      rw [here] at hfits
      obtain ⟨-, rfl, hne⟩ := hfits
      have hother := hinside (by rw [here]; intro hstage; cases hstage)
      exact h.own.spared_remove ha hq hexited hne hother

theorem entries_remove_of_none (ha : s.entries a = none) (pID : ℕ) (t : Tid) :
    ((s.remove pID).leave t).entries a = none ∧ ((s.remove pID).leave t).slot = s.slot := by
  unfold Table.remove
  split
  · refine ⟨?_, rfl⟩
    cases s.slot pID with
    | none => exact ha
    | some b =>
        by_cases hba : a = b
        · subst hba
          exact Function.update_self ..
        · exact (Function.update_of_ne hba _ _).trans ha
  · exact ⟨ha, rfl⟩

theorem Own.unmarked_of_gone (h : s.Own) (hn : n ≠ 0) (hslot : s.slot n = some a)
    (ha : s.entries a = none) : s.marked n = false := by
  by_contra hmarked
  obtain ⟨b, e, hslot', hb⟩ := h.marked_entry n (Bool.not_eq_false _ ▸ hmarked) hn
  rw [hslot] at hslot'
  cases hslot'
  rw [ha] at hb
  cases hb

/-- The slot of a child that has gone stays as it is until its number is given away. -/
theorem Own.spared_of_gone (h : s.Own) (hn : n ≠ 0) (hslot : s.slot n = some a)
    (ha : s.entries a = none) (hmove : s.Move t q i s') (hfree : s'.marked n = false) :
    Spared s n a s' := by
  have hmarked := h.unmarked_of_gone hn hslot ha
  have hlive : ∀ {b e}, s.entries b = some e → a ≠ b := by
    rintro b e hb rfl
    rw [ha] at hb
    cases hb
  have hgone : s'.slot n = s.slot n → s'.entries a = none → Spared s n a s' := fun hs he =>
    ⟨hfree.trans hmarked.symm, hs, by rw [he, ha]⟩
  cases hmove with
  | settle i x here next => exact .of_eq rfl rfl rfl
  | wait i here => exact .of_eq rfl rfl rfl
  | load i n x here next => exact .of_eq rfl rfl rfl
  | create j parentID here range clear least =>
      have hj : n ≠ j := by
        rintro rfl
        simp [Table.act, Table.newEntry] at hfree
      exact hgone (Function.update_of_ne hj _ _)
        ((Function.update_of_ne (h.slot_addr n a hslot).ne _ _).trans ha)
  | fork j b e here entry => exact .of_eq rfl rfl (Function.update_of_ne (hlive entry) _ _)
  | abandon j b here => exact .of_eq rfl rfl rfl
  | join pID b e here pages range slot entry parent =>
      exact .joinTest (hlive entry).symm t pID _
  | joinAgain pID b e here entry => exact .joinTest (hlive entry).symm t pID e
  | joinFail pID b c e here slot entry code => exact .of_eq rfl rfl rfl
  | joinDone pID b c e here slot entry code => exact .put (hlive entry).symm _ t .kernel
  | exit ec b e call joined => exact .put (hlive call.entry).symm _ t _
  | exitWait pID b e here slot entry => exact .exitTest (hlive entry).symm t pID e
  | exitAgain pID b e here entry => exact .exitTest (hlive entry).symm t pID e
  | exitAlone ec b e call alone =>
      obtain ⟨he, hs⟩ := entries_remove_of_none ha q.processID t
      exact hgone (congrFun hs n) he
  | exitRemove pID here =>
      obtain ⟨he, hs⟩ := entries_remove_of_none ha pID t
      exact hgone (congrFun hs n) he

end Table

namespace Kernel

variable {k k' : Kernel} {t u : Tid} {th : Thread} {a : Addr} {w : PCBSem}

/-! ## The queues of the PCB -/

theorem heap_eq_none_iff : k.heap a = none ↔ k.view.entries a = none :=
  Option.map_eq_none_iff.symm

theorem eq_of_value_queue {sem sem' : Semaphore} (hvalue : sem'.value = sem.value)
    (hqueue : sem'.queue = sem.queue) : sem' = sem := by
  cases sem
  cases sem'
  cases hvalue
  cases hqueue
  rfl

/-- The shared fields of a PCB are those of its entry and its queues. -/
theorem shared_eq
    (hentry : (k'.view.entries a).map Entry.shared = (k.view.entries a).map Entry.shared)
    (hqueue : ∀ w, k'.queue (.pcb a w) = k.queue (.pcb a w)) :
    (k'.heap a).map PCB.shared = (k.heap a).map PCB.shared := by
  have hjoinsem := hqueue .joinsem
  have hexitsem := hqueue .exitsem
  simp only [view, queue] at hentry hjoinsem hexitsem
  cases hp : k.heap a with
  | none => simpa [hp] using hentry
  | some p =>
      rw [hp] at hentry hjoinsem hexitsem
      obtain ⟨e', he', hshared⟩ := Option.map_eq_some_iff.mp hentry
      obtain ⟨p', hp', rfl⟩ := Option.map_eq_some_iff.mp he'
      rw [hp'] at hjoinsem hexitsem ⊢
      simp only [Entry.shared, PCB.entry, Prod.mk.injEq] at hshared
      obtain ⟨hparent, hjoined, hcode, hjoins, hexits⟩ := hshared
      simp only [Option.map_some, Option.some.injEq, PCB.shared, Prod.mk.injEq]
      exact ⟨hparent, hjoined, hcode, eq_of_value_queue hjoins hjoinsem,
        eq_of_value_queue hexits hexitsem⟩

theorem tokens_eq
    (hentry : (k'.view.entries a).map Entry.shared = (k.view.entries a).map Entry.shared)
    (hw : w ≠ .mutex) : k'.tokens a w = k.tokens a w := by
  have htokens : ∀ k : Kernel, k.tokens a w = ((k.view.entries a).map Entry.shared).elim 0
      fun e => if w = .joinsem then e.2.2.2.1 else e.2.2.2.2 := by
    intro k
    simp only [tokens, view, Option.map_map]
    cases k.heap a with
    | none => rfl
    | some p =>
        cases w with
        | joinsem => rfl
        | exitsem => rfl
        | mutex => exact absurd rfl hw
  rw [htokens, htokens, hentry]

theorem Orderly.sleepsIn (h : k.Orderly) {c : WaitQueue} {rest : List Tid}
    (hqueue : k.queue c = u :: rest) : ∃ th, k.threads u = some th ∧ th.sleepsIn = some c := by
  have hsleeps := (h c).sleeps u (hqueue ▸ List.mem_cons_self)
  exact Option.bind_eq_some_iff.mp hsleeps

theorem ne_mutex_of_sleepsIn (h : th.sleepsIn = some (.pcb a w)) : w ≠ .mutex := by
  rintro rfl
  unfold Thread.sleepsIn at h
  split at h
  · generalize th.mode = mode at h
    cases mode <;> simp [Mode.waitQueue] at h
  · cases h

namespace QueueStep

/-- A step wakes at most another thread. -/
theorem thread_of_ne (h : QueueStep k t k') (hu : u ≠ t) (hth : k.threads u = some th) :
    k'.threads u = some th ∨ k'.threads u = some { th with asleep := false } := by
  cases h with
  | quiet queues threads =>
      left
      rw [threads u hu (by simp [hth]), hth]
  | sleeps c th' waits queues threads =>
      left
      rw [threads, Function.update_of_ne hu, hth]
  | wakes c v rest queue queues tokens threads =>
      rw [threads u hu]
      by_cases huv : u = v
      · subst huv
        right
        rw [Function.update_self, hth, Option.map_some]
      · left
        rw [Function.update_of_ne huv, hth]

/-- A step that spares an entry does not wake a thread out of its queues, nor does its thread
go to sleep there. -/
theorem spares (hstep : QueueStep k t k') (h : k.Orderly)
    (hentry : (k'.view.entries a).map Entry.shared = (k.view.entries a).map Entry.shared)
    (hself : k'.heap a ≠ none → ∀ th w, k'.threads t = some th → th.sleepsIn ≠ some (.pcb a w)) :
    (∀ w, k'.queue (.pcb a w) = k.queue (.pcb a w)) ∧
      ∀ u th, u ≠ t → k.threads u = some th →
        (∀ c, th.sleepsIn = some c → ∃ w, c = .pcb a w) → k'.threads u = some th := by
  have hgone : k'.heap a = none → ∀ w, k'.queue (.pcb a w) = k.queue (.pcb a w) := by
    intro hnone w
    have hold : k.heap a = none := by
      rw [heap_eq_none_iff] at hnone ⊢
      simpa [hnone] using hentry.symm
    rw [queue_of_deleted hnone, queue_of_deleted hold]
  cases hstep with
  | quiet queues threads =>
      refine ⟨fun w => ?_, fun u th hu hth _ => ?_⟩
      · rcases queues (.pcb a w) with hsame | ⟨b, w', hc, hnone⟩
        · exact hsame
        · cases hc
          exact hgone hnone w
      · rw [threads u hu (by simp [hth]), hth]
  | sleeps c th' waits queues threads =>
      refine ⟨fun w => ?_, fun u th hu hth _ => ?_⟩
      · by_cases hnone : k'.heap a = none
        · exact hgone hnone w
        · have hc : WaitQueue.pcb a w ≠ c := by
            rintro rfl
            exact hself hnone th' w (by rw [threads, Function.update_self]) waits
          rw [queues, Function.update_of_ne hc]
      · rw [threads, Function.update_of_ne hu, hth]
  | wakes c v rest queue queues tokens threads =>
      obtain ⟨th', hth', hsleeps⟩ := h.sleepsIn queue
      have hc : ∀ w, c ≠ .pcb a w := by
        rintro w rfl
        have hmore := tokens a w rfl
        rw [tokens_eq hentry (ne_mutex_of_sleepsIn hsleeps)] at hmore
        exact absurd hmore (by omega)
      have hsame : ∀ w, k'.queue (.pcb a w) = k.queue (.pcb a w) := by
        intro w
        rw [queues, Function.update_of_ne (hc w).symm]
      refine ⟨hsame, fun u th hu hth hwhere => ?_⟩
      have huv : u ≠ v := by
        rintro rfl
        cases hth.symm.trans hth'
        obtain ⟨w, hw⟩ := hwhere c hsleeps
        exact hc w hw
      rw [threads u hu, Function.update_of_ne huv, hth]

end QueueStep

end Kernel

namespace Meeting

variable {m : Meeting} {k k' : Kernel} {label : Tid × Input} {pm mode : Mode} {cm : Option Mode}
  {pa ca : Bool} {js es : Semaphore} {jd : Bool} {code : Option ℤ} {φ : MeetingPhase} {th : Thread}

/-- The thread neither joins the child nor calls `Join` for it. -/
def LetsBe (m : Meeting) (th : Thread) (i : Input) : Prop :=
  i ≠ .join m.id ∧ ∀ c, th.mode.activity.joinsOn ≠ some (m.pcb, c)

/-- A step outside the two calls, of a third thread or of the child before its `Exit`. When a
long name has made another process the parent, this process does not join the child; the
machine goes on, and the number of a child that has gone is not given away. -/
structure Bystander (m : Meeting) (k : Kernel) (label : Tid × Input) (k' : Kernel) : Prop where
  parent : label.1 ≠ m.parent
  child : label.1 = m.child → m.ChildEarly k ∧ ∀ ec, label.2 ≠ .exit ec
  stranger : m.recorded ≠ m.parentID → ∀ th, k.threads label.1 = some th →
    th.processID = m.recorded → m.LetsBe th label.2
  running : k'.status = .running
  number : k.isExist m.id = false → k'.isExist m.id = false

/-! ## The two threads -/

theorem early_iff (mode : Mode) : early mode = true ↔ mode.activity.stage = .running := by
  cases mode <;> simp [early, Mode.activity, Activity.stage]

theorem ChildEarly.step (h : m.ChildEarly k) (hstep : k.step label = some k')
    (hd : k.Disciplined label) (hown : k.view.Own)
    (hcall : label.1 = m.child → ∀ ec, label.2 ≠ .exit ec) : m.ChildEarly k' := by
  obtain ⟨th, hth, hpid, hearly, hexited⟩ := h
  by_cases hself : label.1 = m.child
  · have hq := Kernel.procs_of_threads hth
    have hproc : ∃ q', k'.view.procs m.child = some q' ∧ q'.processID = m.id ∧
        q'.exited = false ∧ q'.activity.stage = .running := by
      have hstage := (early_iff th.mode).mp hearly
      rcases Kernel.step_view hstep hd with hsame | ⟨q, hq', -, hmove⟩
      · exact ⟨th.proc, hsame ▸ hq, hpid, hexited, hstage⟩
      · rw [hself] at hq' hmove
        cases hq.symm.trans hq'
        obtain ⟨q', hq', hturned⟩ := hown.turned hq hmove
        obtain ⟨hexited', hstage'⟩ := hturned.early hstage (hcall hself)
        exact ⟨q', hq', hturned.processID.trans hpid, hexited'.trans hexited, hstage'⟩
    obtain ⟨q', hq', hpid', hexited', hstage'⟩ := hproc
    obtain ⟨th', hth', rfl⟩ := Option.map_eq_some_iff.mp hq'
    exact ⟨th', hth', hpid', (early_iff th'.mode).mpr hstage', hexited'⟩
  · rcases (Kernel.step_queueStep hstep hown).thread_of_ne (Ne.symm hself) hth with hsame | hwoken
    · exact ⟨th, hsame, hpid, hearly, hexited⟩
    · exact ⟨_, hwoken, hpid, hearly, hexited⟩

theorem Live.childProc (h : m.Live k pm pa cm ca js es jd code) :
    ∃ th, k.threads m.child = some th ∧ th.processID = m.id ∧ th.exited = false := by
  have hchild := h.child
  cases cm with
  | none =>
      obtain ⟨th, hth, hpid, -, hexited⟩ := hchild
      exact ⟨th, hth, hpid, hexited⟩
  | some mode =>
      obtain ⟨th, hth⟩ := hchild
      exact ⟨th, hth.thread, hth.processID, hth.exited⟩

/-- No third thread runs for the child, and none that runs for the recorded parent joins it. -/
theorem Live.stranger (h : m.Live k pm pa cm ca js es jd code) (hown : k.view.Own)
    (hb : m.Bystander k label k') (hth : k.threads label.1 = some th)
    (hexited : th.exited = false) :
    (th.processID = m.recorded → m.LetsBe th label.2) ∧
      (label.1 ≠ m.child → th.processID ≠ m.id) := by
  have hq := Kernel.procs_of_threads hth
  constructor
  · by_cases hrecorded : m.recorded = m.parentID
    · intro hpid
      obtain ⟨uh, huh⟩ := h.parent
      refine absurd ?_ hb.parent
      exact (hown.unique hq (Kernel.procs_of_threads huh.thread) hexited huh.exited
        (hpid.trans (hrecorded.trans huh.processID.symm)))
    · exact hb.stranger hrecorded th hth
  · intro hne hpid
    obtain ⟨uh, huh, hpid', hexited'⟩ := h.childProc
    exact hne (hown.unique hq (Kernel.procs_of_threads huh) hexited hexited'
      (hpid.trans hpid'.symm))

/-! ## While the PCB is there -/

theorem Live.entry (h : m.Live k pm pa cm ca js es jd code) (hown : k.view.Own) :
    ∃ e, k.view.entries m.pcb = some e ∧ e.pid = m.id ∧ e.parentID = m.recorded := by
  obtain ⟨p, hp⟩ := h.object
  have he := Kernel.entries_of_heap hp.heap
  exact ⟨p.entry, he, hown.slot_pid m.id m.pcb _ h.slot he, hp.parentID⟩

theorem Live.spared (h : m.Live k pm pa cm ca js es jd code) (hshake : k.view.Handshake False)
    (hstep : k.step label = some k') (hd : k.Disciplined label) (hb : m.Bystander k label k') :
    Table.Spared k.view m.id m.pcb k'.view := by
  rcases Kernel.step_view hstep hd with hsame | ⟨q, hq, huser, hmove⟩
  · rw [hsame]
    exact .refl _ _ _
  · have hexited := hshake.own.not_exited hq huser
    obtain ⟨th, hth, rfl⟩ := Option.map_eq_some_iff.mp hq
    obtain ⟨e, he, hpid, hparent⟩ := h.entry hshake.own
    obtain ⟨hstranger, hother⟩ := h.stranger hshake.own hb hth hexited
    rw [← hpid]
    refine hshake.spared hq hexited he (fun hself => ?_) (fun hself => ?_) hmove
    · rw [hpid]
      exact hstranger (hself.trans hparent)
    · have hchild : label.1 = m.child := by
        by_contra hne
        exact hother hne (hself.trans hpid)
      obtain ⟨⟨uh, huh, -, hearly, -⟩, hcall⟩ := hb.child hchild
      rw [hchild] at hth
      cases hth.symm.trans huh
      exact ⟨(early_iff th.mode).mp hearly, hcall⟩

theorem sleepsIn_pcb {a : Addr} {w : PCBSem} (h : th.sleepsIn = some (.pcb a w)) :
    (∃ pID, th.mode = .joinWait pID a) ∨ ∃ pID ec, th.mode = .exitWait pID a ec := by
  unfold Thread.sleepsIn at h
  split at h
  · generalize th.mode = mode at h ⊢
    cases mode with
    | joinWait pID b =>
        cases h
        exact .inl ⟨pID, rfl⟩
    | exitWait pID b ec =>
        cases h
        exact .inr ⟨pID, ec, rfl⟩
    | _ => cases h
  · cases h

/-- Behind a step the thread still runs for its process. -/
theorem processID_step (hstep : k.step label = some k') (hd : k.Disciplined label)
    (hown : k.view.Own) (hth : k'.threads label.1 = some th) (hexited : th.exited = false) :
    ∃ uh, k.threads label.1 = some uh ∧ uh.exited = false ∧ uh.processID = th.processID := by
  have hq' := Kernel.procs_of_threads hth
  rcases Kernel.step_view hstep hd with hsame | ⟨q, hq, huser, hmove⟩
  · rw [hsame] at hq'
    obtain ⟨uh, huh, hproc⟩ := Option.map_eq_some_iff.mp hq'
    exact ⟨uh, huh, (congrArg Proc.exited hproc).trans hexited, congrArg Proc.processID hproc⟩
  · obtain ⟨q', hself, hturned⟩ := hown.turned hq hmove
    cases hq'.symm.trans hself
    obtain ⟨uh, huh, rfl⟩ := Option.map_eq_some_iff.mp hq
    exact ⟨uh, huh, hown.not_exited hq huser, hturned.processID.symm⟩

/-- A thread that lets the child be does not join it behind its step. -/
theorem LetsBe.step {uh : Thread} {e : Entry} (h : m.LetsBe uh label.2)
    (hstep : k.step label = some k') (hd : k.Disciplined label) (hown : k.view.Own)
    (he : k.view.entries m.pcb = some e) (hpid : e.pid = m.id)
    (huh : k.threads label.1 = some uh) (hth : k'.threads label.1 = some th) (c : Bool) :
    th.mode.activity.joinsOn ≠ some (m.pcb, c) := by
  intro hjoin
  obtain ⟨hcall, hnone⟩ := h
  have hq := Kernel.procs_of_threads huh
  have hq' := Kernel.procs_of_threads hth
  rcases Kernel.step_view hstep hd with hsame | ⟨q, hq₁, -, hmove⟩
  · rw [hsame, hq] at hq'
    have hact : uh.mode.activity = th.mode.activity := congrArg Proc.activity (Option.some.inj hq')
    exact hnone c (hact ▸ hjoin)
  · cases hq.symm.trans hq₁
    obtain ⟨q', hself, hturned⟩ := hown.turned hq hmove
    cases hself.symm.trans hq'
    rcases hturned.joins _ _ hjoin with ⟨d, hd⟩ | ⟨pID, hi, hslot⟩
    · exact hnone d hd
    · rw [← hpid, hown.slot_pid pID m.pcb e hslot he] at hcall
      exact hcall hi

/-- The thread of the step does not go to sleep at the child's PCB. -/
theorem Live.awake (h : m.Live k pm pa cm ca js es jd code) (hshake : k.view.Handshake False)
    (hstep : k.step label = some k') (hd : k.Disciplined label) (hb : m.Bystander k label k')
    (hth : k'.threads label.1 = some th) (w : PCBSem) : th.sleepsIn ≠ some (.pcb m.pcb w) := by
  intro hsleeps
  have hshake' : k'.view.Handshake False := Kernel.handshake_step hstep hd False.elim hshake
  have hq := Kernel.procs_of_threads hth
  have hspared := h.spared hshake hstep hd hb
  obtain ⟨e, he, hid, hparent⟩ := h.entry hshake.own
  obtain ⟨e', he', hshared⟩ : ∃ e', k'.view.entries m.pcb = some e' ∧ e'.shared = e.shared :=
    Option.map_eq_some_iff.mp (hspared.entry.trans (congrArg _ he))
  have hfits := hshake'.own.fits _ _ hq
  have hexited : th.exited = false := by
    refine hfits.not_exited ?_
    rcases sleepsIn_pcb hsleeps with ⟨pID, hmode⟩ | ⟨pID, ec, hmode⟩ <;>
      simp [Thread.proc, hmode, Mode.activity]
  obtain ⟨uh, huh, huhexited, hpid⟩ := processID_step hstep hd hshake.own hth hexited
  obtain ⟨hstranger, hother⟩ := h.stranger hshake.own hb huh huhexited
  rcases sleepsIn_pcb hsleeps with ⟨pID, hmode⟩ | ⟨pID, ec, hmode⟩
  · -- it would wait for the child of its process
    have hjoin : th.proc.activity.joinsOn = some (m.pcb, false) := by
      simp [Thread.proc, hmode, Mode.activity, Activity.joinsOn]
    have hself : th.processID = e'.parentID := (hshake'.joins_of_joinsOn hq hjoin).2.2 e' he'
    have hlets := hstranger (hpid.trans (hself.trans ((congrArg Prod.fst hshared).trans hparent)))
    exact hlets.step hstep hd hshake.own he hid huh hth false hjoin
  · -- it would be the child, inside its `Exit`
    have hact : th.proc.activity = .exitWait pID m.pcb := congrArg Mode.activity hmode
    rw [hact] at hfits
    obtain ⟨-, hself, -, hslot⟩ := hfits
    have hid : th.processID = m.id := hself.symm.trans
      ((hshake'.own.slot_pid _ _ e' hslot he').symm.trans
        (hshake'.own.slot_pid _ _ e' (hspared.slot.trans h.slot) he'))
    have hchild : label.1 = m.child := by
      by_contra hne
      exact hother hne (hpid.trans hid)
    obtain ⟨hearly, hcall⟩ := hb.child hchild
    obtain ⟨vh, hvh, -, hearly', -⟩ := hearly.step hstep hd hshake.own fun _ => hcall
    rw [hchild] at hth
    cases hth.symm.trans hvh
    rw [hmode] at hearly'
    cases hearly'

/-! ## Every step -/

/-- A step that spares the slot and the PCB leaves the two threads where they are. -/
theorem Bystander.undisturbed (hb : m.Bystander k label k') (hstatus : k.status = .running)
    (hord : k.Orderly) (hqueues : Kernel.QueueStep k label.1 k')
    (hspared : Table.Spared k.view m.id m.pcb k'.view)
    (hself : k'.heap m.pcb ≠ none →
      ∀ th w, k'.threads label.1 = some th → th.sleepsIn ≠ some (.pcb m.pcb w))
    (hparent : ∃ th, k.threads m.parent = some th ∧
      ∀ c, th.sleepsIn = some c → ∃ w, c = .pcb m.pcb w)
    (hchild : m.ChildEarly k ∧ m.ChildEarly k' ∨ label.1 ≠ m.child ∧
      ∃ th, k.threads m.child = some th ∧ ∀ c, th.sleepsIn = some c → ∃ w, c = .pcb m.pcb w) :
    m.Undisturbed k k' := by
  obtain ⟨hqueue, hthreads⟩ := hqueues.spares hord hspared.entry hself
  obtain ⟨th, hth, hplace⟩ := hparent
  refine ⟨hb.running.trans hstatus.symm, .inl ?_, ?_, hspared.slot, hspared.marked,
    Kernel.shared_eq hspared.entry hqueue⟩
  · rw [hthreads m.parent th hb.parent.symm hth hplace, hth]
  · refine hchild.symm.imp_left ?_
    rintro ⟨hne, uh, huh, hplace⟩
    rw [hthreads m.child uh hne.symm huh hplace, huh]

theorem InMode.sleepsIn {t : Tid} {pID : ℕ} {asleep : Bool} {c : WaitQueue}
    (h : InMode k t pID mode asleep th) (hsleeps : th.sleepsIn = some c) :
    asleep = true ∧ mode.waitQueue = some c := by
  unfold Thread.sleepsIn at hsleeps
  rw [h.mode, h.asleep] at hsleeps
  split at hsleeps
  case isTrue hasleep => exact ⟨hasleep, hsleeps⟩
  case isFalse => cases hsleeps

theorem Live.undisturbed (h : m.Live k pm pa cm ca js es jd code)
    (hpm : pa = true → pm.waitQueue = some (.pcb m.pcb .joinsem))
    (hcm : ∀ mode ∈ cm, early mode = false ∧
      (ca = true → mode.waitQueue = some (.pcb m.pcb .exitsem)))
    (hshake : k.view.Handshake False) (hord : k.Orderly) (hstep : k.step label = some k')
    (hd : k.Disciplined label) (hb : m.Bystander k label k') : m.Undisturbed k k' := by
  obtain ⟨th, hth⟩ := h.parent
  refine hb.undisturbed h.status hord (Kernel.step_queueStep hstep hshake.own)
    (h.spared hshake hstep hd hb) (fun _ th w hth => h.awake hshake hstep hd hb hth w)
    ⟨th, hth.thread, fun c hsleeps => ?_⟩ ?_
  · obtain ⟨hasleep, hqueue⟩ := hth.sleepsIn hsleeps
    exact ⟨.joinsem, Option.some.inj (hqueue.symm.trans (hpm hasleep))⟩
  · have hchild := h.child
    cases cm with
    | none => exact .inl ⟨hchild, hchild.step hstep hd hshake.own fun hself => (hb.child hself).2⟩
    | some mode =>
        obtain ⟨uh, huh⟩ := hchild
        obtain ⟨hlate, hqueue⟩ := hcm mode rfl
        refine .inr ⟨fun hself => ?_, uh, huh.thread, fun c hsleeps => ?_⟩
        · obtain ⟨vh, hvh, -, hearly, -⟩ := (hb.child hself).1
          cases huh.thread.symm.trans hvh
          rw [huh.mode, hlate] at hearly
          cases hearly
        · obtain ⟨hasleep, hqueue'⟩ := huh.sleepsIn hsleeps
          exact ⟨.exitsem, Option.some.inj (hqueue'.symm.trans (hqueue hasleep))⟩

theorem Gone.undisturbed (h : m.Gone k pm) (hshake : k.view.Handshake False) (hord : k.Orderly)
    (hstep : k.step label = some k') (hd : k.Disciplined label) (hb : m.Bystander k label k') :
    m.Undisturbed k k' := by
  have hgone := Kernel.heap_eq_none_iff.mp h.heap
  have hspared : Table.Spared k.view m.id m.pcb k'.view := by
    rcases Kernel.step_view hstep hd with hsame | ⟨q, hq, huser, hmove⟩
    · rw [hsame]
      exact .refl _ _ _
    · exact hshake.own.spared_of_gone h.range.1.ne' h.slot hgone hmove
        (hb.number (hshake.own.unmarked_of_gone h.range.1.ne' h.slot hgone))
  obtain ⟨th, hth⟩ := h.parent
  obtain ⟨uh, huh, hmode, hexited⟩ := h.child
  refine hb.undisturbed h.status hord (Kernel.step_queueStep hstep hshake.own) hspared
    (fun hlive => absurd ?_ hlive) ⟨th, hth.thread, fun c hsleeps => ?_⟩
    (.inr ⟨fun hself => ?_, uh, huh, fun c hsleeps => ?_⟩)
  · rw [Kernel.heap_eq_none_iff]
    simpa [hgone] using hspared.entry
  · cases (hth.sleepsIn hsleeps).1
  · obtain ⟨vh, hvh, -, -, hstill⟩ := (hb.child hself).1
    cases huh.symm.trans hvh
    cases hexited.symm.trans hstill
  · unfold Thread.sleepsIn at hsleeps
    simp [hmode, Mode.waitQueue] at hsleeps

/-- Whatever the phase, the step of another thread is one of what may happen in between. -/
theorem undisturbed_of_step (h : m.At k φ) (hshake : k.view.Handshake False) (hord : k.Orderly)
    (hstep : k.step label = some k') (hd : k.Disciplined label) (hb : m.Bystander k label k') :
    m.Undisturbed k k' := by
  have hawake : ∀ {mode : Mode} {queue : WaitQueue}, false = true →
      mode.waitQueue = some queue := by
    intro mode queue h
    cases h
  have hlate : ∀ blocked, ∀ mode ∈ m.childMode blocked, early mode = false ∧
      (blocked = true → mode.waitQueue = some (.pcb m.pcb .exitsem)) := by
    rintro blocked mode ⟨rfl⟩
    cases blocked
    · exact ⟨rfl, hawake⟩
    · exact ⟨rfl, fun _ => rfl⟩
  have hnone : ∀ mode ∈ (none : Option Mode), early mode = false ∧
      (false = true → mode.waitQueue = some (.pcb m.pcb .exitsem)) := by
    intro mode hmode
    cases hmode
  cases φ with
  | ready => exact Live.undisturbed h hawake hnone hshake hord hstep hd hb
  | waiting => exact Live.undisturbed h (fun _ => rfl) hnone hshake hord hstep hd hb
  | woken blocked => exact Live.undisturbed h hawake (hlate blocked) hshake hord hstep hd hb
  | reading blocked => exact Live.undisturbed h hawake (hlate blocked) hshake hord hstep hd hb
  | refused blocked => exact Live.undisturbed h hawake (hlate blocked) hshake hord hstep hd hb
  | freed blocked =>
      refine Live.undisturbed h hawake (fun mode hmode => ?_) hshake hord hstep hd hb
      exact ⟨(hlate blocked mode hmode).1, hawake⟩
  | removing =>
      refine Live.undisturbed h hawake (fun mode hmode => ?_) hshake hord hstep hd hb
      cases hmode
      exact ⟨rfl, hawake⟩
  | finished => exact Gone.undisturbed h hshake hord hstep hd hb
  | orphan => exact Gone.undisturbed h hshake hord hstep hd hb
  | denied => exact Live.undisturbed h hawake hnone hshake hord hstep hd hb
  | deserted => exact Gone.undisturbed h hshake hord hstep hd hb
  | crashed =>
      obtain ⟨th, -, hrunning, -⟩ := Kernel.step_eq_some hstep
      cases h.1.symm.trans hrunning

/-! ## Runs of the kernel -/

theorem step_instr (hstep : k.step label = some k') (hinstr : label.2 = .instr)
    (hrunning : k'.status = .running) : k' = k := by
  obtain ⟨th, -, -, -, hmode⟩ := Kernel.step_eq_some hstep
  rw [hinstr] at hmode
  unfold Kernel.modeStep at hmode
  split at hmode
  case h_6 =>
    unfold Kernel.userStep at hmode
    split at hmode
    · cases hmode
      cases hrunning
    · cases hmode
      cases hrunning
    · split at hmode
      · cases hmode
        cases hrunning
      · simp only [Option.some.injEq] at hmode
        exact hmode.symm
  all_goals contradiction

/-- The steps of a run in which the parent and the child make their calls: the next step of
one of the calls, an instruction that calls nothing, or a step outside the calls. -/
inductive Admits (m : Meeting) (k : Kernel) (label : Tid × Input) : Prop
  | call (party th) (tid : label.1 = m.tid party) (thread : k.threads label.1 = some th)
      (input : m.input th party = some label.2)
  | instr (quiet : label.2 = .instr)
      (running : ∀ k', k.step label = some k' → k'.status = .running)
  | other (bystander : ∀ k', k.step label = some k' → m.Bystander k label k')

/-- The step of a call takes the meeting to its next phase. -/
theorem at_next {party : Party} (h : m.At k φ) (hstep : m.step k party = some k') :
    ∃ φ', m.At k' φ' := by
  have hrel := (step_cases h party).resolve_right fun hnone => by
    cases hstep.symm.trans hnone.2
  rw [hstep] at hrel
  generalize m.next φ party = next at hrel
  cases hrel with
  | some hat => exact ⟨_, hat⟩

theorem interleaving_of_run {run : List (Tid × Input)} (h : m.At k φ)
    (hshake : k.view.Handshake False) (hord : k.Orderly)
    (hrun : AllSteps Kernel.step (fun k label => k.Disciplined label ∧ m.Admits k label) k run)
    (hexec : exec Kernel.step k run = some k') : ∃ σ, m.Interleaving k σ k' := by
  induction run generalizing k φ with
  | nil =>
      cases hexec
      exact ⟨[], .nil _⟩
  | cons label run ih =>
      obtain ⟨k₁, hstep, hrest⟩ := Option.bind_eq_some_iff.mp hexec
      obtain ⟨⟨hd, hadmits⟩, hrun⟩ := hrun k₁ hstep
      have hshake₁ := Kernel.handshake_step hstep hd False.elim hshake
      have hord₁ := Kernel.orderly_step hstep hshake.own hord
      cases hadmits with
      | call party th tid thread input =>
          have hcall : m.step k party = some k₁ := by
            rw [tid] at thread
            rw [step, thread, Option.bind_some, input, Option.bind_some, ← tid]
            exact hstep
          obtain ⟨φ', hat⟩ := at_next h hcall
          obtain ⟨σ, hσ⟩ := ih hat hshake₁ hord₁ hrun hrest
          exact ⟨party :: σ, .step hcall hσ⟩
      | instr quiet running =>
          cases step_instr hstep quiet (running k₁ hstep)
          exact ih h hshake hord hrun hrest
      | other bystander =>
          have hother := undisturbed_of_step h hshake hord hstep hd (bystander k₁ hstep)
          obtain ⟨σ, hσ⟩ := ih (at_congr h hother) hshake₁ hord₁ hrun hrest
          exact ⟨σ, .other hother hσ⟩

/-- From boot on: whatever ran before the two calls, and whatever runs besides them, the run
of the kernel is an interleaving of the calls. -/
theorem interleaving_of_boot (words : Vector (BitVec 32) (divRoundUp maxProcess bitsInWord))
    (frameWords : Vector (BitVec 32) (divRoundUp numPhysPages bitsInWord))
    {before run : List (Tid × Input)}
    (hbefore : AllSteps Kernel.step Kernel.Disciplined (Kernel.create words frameWords) before)
    (hready : exec Kernel.step (Kernel.create words frameWords) before = some k) (h : m.Ready k)
    (hrun : AllSteps Kernel.step (fun k label => k.Disciplined label ∧ m.Admits k label) k run)
    (hexec : exec Kernel.step k run = some k') : ∃ σ, m.Interleaving k σ k' := by
  have hkeep : ∀ (k : Kernel) (label : Tid × Input) (k' : Kernel), k.Disciplined label →
      k.step label = some k' → k.view.Handshake False → k'.view.Handshake False :=
    fun k label k' hd hstep hshake => Kernel.handshake_step hstep hd False.elim hshake
  have hshake := (allStates_of_allSteps hkeep (Kernel.handshake_create False words frameWords)
    hbefore).exec hready
  have hord := (Kernel.allStates_orderly
    ⟨Kernel.own_create words frameWords, Kernel.orderly_create words frameWords⟩
    hbefore).exec hready
  exact interleaving_of_run (φ := .ready) h hshake hord.2 hrun hexec

end Meeting

end Nachos
