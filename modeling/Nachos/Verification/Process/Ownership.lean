import Nachos.Verification.Process.Semantics

/-! # Who owns a slot

As long as no exited thread calls into the process table, every marked slot but slot 0 has
a live PCB, every live PCB sits in its own marked slot, and a PCB and the thread that runs
for it name each other. -/

namespace Nachos

theorem update_eq_some_iff {α β : Type*} [DecidableEq α] {f : α → Option β} {a b : α} {x y : β} :
    Function.update f a (some x) b = some y ↔ b = a ∧ x = y ∨ b ≠ a ∧ f b = some y := by
  by_cases h : b = a
  · subst h
    simp
  · simp [h]

theorem update_none_eq_some_iff {α β : Type*} [DecidableEq α] {f : α → Option β} {a b : α}
    {y : β} : Function.update f a none b = some y ↔ b ≠ a ∧ f b = some y := by
  by_cases h : b = a
  · subst h
    simp
  · simp [h]

/-- The part of an entry that stays from its creation on, but for `thread`. -/
def Entry.ident (e : Entry) : ℕ × ℕ × Tid × Option Tid :=
  (e.pid, e.parentID, e.creator, e.thread)

def Proc.ident (q : Proc) : ℕ × Bool :=
  (q.processID, q.exited)

namespace Table

/-- Both outcomes of a test of `joinsem` keep the identity of the entry. -/
theorem joinTest_eq (s : Table) (t : Tid) (pID : ℕ) (a : Addr) (e : Entry) :
    ∃ e₁ x, e₁.ident = e.ident ∧ (x = .joinWait pID a ∨ x = .joinCode pID a) ∧
      s.joinTest t pID a e = (s.put a e₁).act t x := by
  by_cases hzero : e.joins = 0
  · exact ⟨e, _, rfl, .inl rfl, if_pos hzero⟩
  · exact ⟨{ e with joins := e.joins - 1 }, _, rfl, .inr rfl, if_neg hzero⟩

theorem exitTest_eq (s : Table) (t : Tid) (pID : ℕ) (a : Addr) (e : Entry) :
    ∃ e₁ x, e₁.ident = e.ident ∧ (x = .exitWait pID a ∨ x = .exitRemove pID) ∧
      s.exitTest t pID a e = (s.put a e₁).act t x := by
  by_cases hzero : e.exits = 0
  · exact ⟨e, _, rfl, .inl rfl, if_pos hzero⟩
  · exact ⟨{ e with exits := e.exits - 1 }, _, rfl, .inr rfl, if_neg hzero⟩

/-- What the activity of thread `u` says about the table. Only a thread in user mode may
have exited. -/
def Fits (s : Table) (u : Tid) (q : Proc) : Activity → Prop
  | .user => True
  | .forking i a => q.exited = false ∧ s.slot i = some a ∧
      ∃ e, s.entries a = some e ∧ e.thread = none ∧ e.creator = u
  | .exitRelease pID => q.exited = false ∧ pID = q.processID ∧ pID ≠ 0
  | .exitWait pID a => q.exited = false ∧ pID = q.processID ∧ pID ≠ 0 ∧ s.slot pID = some a
  | .exitRemove pID => q.exited = false ∧ pID = q.processID ∧ pID ≠ 0
  | _ => q.exited = false

structure Own (s : Table) : Prop where
  tid : ∀ u q, s.procs u = some q → u < s.nextTid
  addr : ∀ a e, s.entries a = some e → a < s.nextAddr
  slot_addr : ∀ i a, s.slot i = some a → a < s.nextAddr
  root : s.marked 0 = true ∧ s.slot 0 = none
  marked_entry : ∀ i, s.marked i = true → i ≠ 0 →
    ∃ a e, s.slot i = some a ∧ s.entries a = some e
  entry_slot : ∀ a e, s.entries a = some e →
    s.slot e.pid = some a ∧ s.marked e.pid = true ∧ e.pid ≠ 0
  slot_pid : ∀ i a e, s.slot i = some a → s.entries a = some e → e.pid = i
  thread_proc : ∀ a e u, s.entries a = some e → e.thread = some u →
    ∃ q, s.procs u = some q ∧ q.exited = false ∧ q.processID = e.pid
  proc_entry : ∀ u q, s.procs u = some q → q.exited = false → q.processID ≠ 0 →
    ∃ a e, s.slot q.processID = some a ∧ s.entries a = some e ∧ e.thread = some u
  proc_root : ∀ u q, s.procs u = some q → q.exited = false → q.processID = 0 → u = 0
  fits : ∀ u q, s.procs u = some q → s.Fits u q q.activity

/-! ## Steps that leave the ownership alone -/

/-- Two tables with the same slots, entries and processes, up to what the processes are
doing, their pages, and the tokens and codes in the entries. -/
structure Alike (s s' : Table) : Prop where
  marked : s'.marked = s.marked
  slot : s'.slot = s.slot
  nextAddr : s'.nextAddr = s.nextAddr
  nextTid : s'.nextTid = s.nextTid
  entries : ∀ a, (s'.entries a).map Entry.ident = (s.entries a).map Entry.ident
  procs : ∀ u, (s'.procs u).map Proc.ident = (s.procs u).map Proc.ident

theorem procs_act {s : Table} {t : Tid} {q : Proc} (hq : s.procs t = some q) (x : Activity) :
    (s.act t x).procs = Function.update s.procs t (some { q with activity := x }) := by
  simp [act, hq]

namespace Alike

variable {s s' s'' : Table} {t : Tid} {q : Proc} {a : Addr} {e e' : Entry}

theorem refl (s : Table) : Alike s s :=
  ⟨rfl, rfl, rfl, rfl, fun _ => rfl, fun _ => rfl⟩

theorem symm (h : Alike s s') : Alike s' s :=
  ⟨h.marked.symm, h.slot.symm, h.nextAddr.symm, h.nextTid.symm, fun a => (h.entries a).symm,
    fun u => (h.procs u).symm⟩

theorem trans (h : Alike s s') (h' : Alike s' s'') : Alike s s'' :=
  ⟨h'.marked.trans h.marked, h'.slot.trans h.slot, h'.nextAddr.trans h.nextAddr,
    h'.nextTid.trans h.nextTid, fun a => (h'.entries a).trans (h.entries a),
    fun u => (h'.procs u).trans (h.procs u)⟩

theorem entry (h : Alike s s') (ha : s'.entries a = some e') :
    ∃ e, s.entries a = some e ∧ e.pid = e'.pid ∧ e.parentID = e'.parentID ∧
      e.creator = e'.creator ∧ e.thread = e'.thread := by
  have hmap := h.entries a
  rw [ha] at hmap
  obtain ⟨e, hentry, hident⟩ := Option.map_eq_some_iff.mp hmap.symm
  simp only [Entry.ident, Prod.mk.injEq] at hident
  exact ⟨e, hentry, hident⟩

theorem proc (h : Alike s s') {u : Tid} {q' : Proc} (hu : s'.procs u = some q') :
    ∃ q, s.procs u = some q ∧ q.processID = q'.processID ∧ q.exited = q'.exited := by
  have hmap := h.procs u
  rw [hu] at hmap
  obtain ⟨q, hproc, hident⟩ := Option.map_eq_some_iff.mp hmap.symm
  simp only [Proc.ident, Prod.mk.injEq] at hident
  exact ⟨q, hproc, hident⟩

theorem act (s : Table) (t : Tid) (x : Activity) : Alike s (s.act t x) := by
  refine ⟨rfl, rfl, rfl, rfl, fun _ => rfl, fun u => ?_⟩
  by_cases hu : u = t
  · subst hu
    simp only [Table.act, Function.update_self, Option.map_map]
    rfl
  · simp [Table.act, hu]

theorem put (ha : s.entries a = some e) (hident : e'.ident = e.ident) :
    Alike s (s.put a e') := by
  refine ⟨rfl, rfl, rfl, rfl, fun b => ?_, fun _ => rfl⟩
  by_cases hb : b = a
  · subst hb
    simp [Table.put, ha, hident]
  · simp [Table.put, hb]

theorem load (s : Table) (t : Tid) (n : ℕ) (x : Activity) : Alike s (s.load t n x) := by
  refine ⟨rfl, rfl, rfl, rfl, fun _ => rfl, fun u => ?_⟩
  by_cases hu : u = t
  · subst hu
    simp only [Table.load, Function.update_self, Option.map_map]
    rfl
  · simp [Table.load, hu]

theorem fits (h : Alike s s') {u : Tid} {q q' : Proc} {x : Activity} (hf : s.Fits u q x)
    (hpid : q'.processID = q.processID) (hexited : q'.exited = q.exited) :
    s'.Fits u q' x := by
  cases x with
  | user => trivial
  | forking i a =>
      obtain ⟨hq, hslot, e, hentry, hthread, hcreator⟩ := hf
      obtain ⟨e', hentry', -, -, hc, ht⟩ := h.symm.entry hentry
      exact ⟨hexited.trans hq, h.slot ▸ hslot, e', hentry', ht.trans hthread, hc.trans hcreator⟩
  | exitRelease pID => exact ⟨hexited.trans hf.1, hf.2.1.trans hpid.symm, hf.2.2⟩
  | exitWait pID a =>
      exact ⟨hexited.trans hf.1, hf.2.1.trans hpid.symm, hf.2.2.1, h.slot ▸ hf.2.2.2⟩
  | exitRemove pID => exact ⟨hexited.trans hf.1, hf.2.1.trans hpid.symm, hf.2.2⟩
  | _ => exact hexited.trans hf

end Alike

theorem Fits.not_exited {s : Table} {u : Tid} {q : Proc} {x : Activity} (h : s.Fits u q x)
    (hx : x ≠ .user) : q.exited = false := by
  cases x with
  | user => exact absurd rfl hx
  | forking i a => exact h.1
  | exitRelease pID => exact h.1
  | exitWait pID a => exact h.1
  | exitRemove pID => exact h.1
  | _ => exact h

namespace Own

variable {s s' : Table} {t : Tid} {q : Proc}

theorem congr (h : Own s) (halike : Alike s s')
    (hfits : ∀ u q, s'.procs u = some q → s'.Fits u q q.activity) : Own s' where
  tid u q hu := by
    obtain ⟨q₀, hu₀, -⟩ := halike.proc hu
    exact halike.nextTid ▸ h.tid u q₀ hu₀
  addr a e ha := by
    obtain ⟨e₀, ha₀, -⟩ := halike.entry ha
    exact halike.nextAddr ▸ h.addr a e₀ ha₀
  slot_addr i a hi := by
    rw [halike.slot] at hi
    exact halike.nextAddr ▸ h.slot_addr i a hi
  root := by
    rw [halike.marked, halike.slot]
    exact h.root
  marked_entry i hi hne := by
    rw [halike.marked] at hi
    obtain ⟨a, e, hslot, hentry⟩ := h.marked_entry i hi hne
    obtain ⟨e', hentry', -⟩ := halike.symm.entry hentry
    exact ⟨a, e', halike.slot ▸ hslot, hentry'⟩
  entry_slot a e ha := by
    obtain ⟨e₀, ha₀, hpid, -⟩ := halike.entry ha
    rw [halike.slot, halike.marked, ← hpid]
    exact h.entry_slot a e₀ ha₀
  slot_pid i a e hi ha := by
    obtain ⟨e₀, ha₀, hpid, -⟩ := halike.entry ha
    rw [halike.slot] at hi
    exact hpid ▸ h.slot_pid i a e₀ hi ha₀
  thread_proc a e u ha hu := by
    obtain ⟨e₀, ha₀, hpid, -, -, hthread⟩ := halike.entry ha
    obtain ⟨q₀, hq₀, hexited, hq⟩ := h.thread_proc a e₀ u ha₀ (hthread.trans hu)
    obtain ⟨q', hq', hpid', hexited'⟩ := halike.symm.proc hq₀
    exact ⟨q', hq', hexited'.trans hexited, hpid'.trans (hq.trans hpid)⟩
  proc_entry u q hu hexited hne := by
    obtain ⟨q₀, hu₀, hpid₀, hexited₀⟩ := halike.proc hu
    obtain ⟨a, e, hslot, hentry, hthread⟩ :=
      h.proc_entry u q₀ hu₀ (hexited₀.trans hexited) (hpid₀ ▸ hne)
    obtain ⟨e', hentry', -, -, -, hthread'⟩ := halike.symm.entry hentry
    rw [halike.slot, ← hpid₀]
    exact ⟨a, e', hslot, hentry', hthread'.trans hthread⟩
  proc_root u q hu hexited hzero := by
    obtain ⟨q₀, hu₀, hpid₀, hexited₀⟩ := halike.proc hu
    exact h.proc_root u q₀ hu₀ (hexited₀.trans hexited) (hpid₀.trans hzero)
  fits := hfits

/-- Thread `t` changes what it does, and perhaps tokens or the code of an entry. -/
theorem act (h : Own s) (hq : s.procs t = some q) (halike : Alike s s')
    (hprocs : s'.procs = s.procs) {x : Activity} (hx : s.Fits t q x) : Own (s'.act t x) := by
  have hq' : s'.procs t = some q := hprocs ▸ hq
  have halike' := halike.trans (Alike.act s' t x)
  apply h.congr halike'
  intro u r hu
  rw [procs_act hq'] at hu
  by_cases hut : u = t
  · subst hut
    rw [Function.update_self] at hu
    cases hu
    exact halike'.fits hx rfl rfl
  · rw [Function.update_of_ne hut, hprocs] at hu
    exact halike'.fits (h.fits u r hu) rfl rfl

theorem load (h : Own s) (hq : s.procs t = some q) (n : ℕ) {x : Activity}
    (hx : s.Fits t q x) : Own (s.load t n x) := by
  have halike := Alike.load s t n x
  apply h.congr halike
  intro u r hu
  simp only [Table.load, hq] at hu
  by_cases hut : u = t
  · subst hut
    rw [Function.update_self] at hu
    cases hu
    exact halike.fits hx rfl rfl
  · rw [Function.update_of_ne hut] at hu
    exact halike.fits (h.fits u r hu) rfl rfl

/-! ## New entries and new threads -/

theorem newEntry (h : Own s) {j : ℕ} (hclear : s.marked j = false) (t : Tid)
    (parentID : ℕ) : Own (s.newEntry j t parentID) := by
  have hj : j ≠ 0 := by
    rintro rfl
    rw [h.root.1] at hclear
    cases hclear
  -- no live entry is in the slot, and the new address is not in use
  have hother : ∀ a e, s.entries a = some e → e.pid ≠ j := by
    rintro a e ha rfl
    rw [(h.entry_slot a e ha).2.1] at hclear
    cases hclear
  have hfresh : ∀ a e, s.entries a = some e → a ≠ s.nextAddr := fun a e ha =>
    (h.addr a e ha).ne
  have hkeep : ∀ i a e, s.slot i = some a → s.entries a = some e →
      (s.newEntry j t parentID).slot i = some a ∧
        (s.newEntry j t parentID).entries a = some e := by
    intro i a e hi ha
    have hne : i ≠ j := h.slot_pid i a e hi ha ▸ hother a e ha
    exact ⟨update_eq_some_iff.mpr (.inr ⟨hne, hi⟩),
      update_eq_some_iff.mpr (.inr ⟨hfresh a e ha, ha⟩)⟩
  have hnew : (s.newEntry j t parentID).slot j = some s.nextAddr ∧
      (s.newEntry j t parentID).entries s.nextAddr = some (.create j t parentID) :=
    ⟨Function.update_self .., Function.update_self ..⟩
  refine ⟨h.tid, ?_, ?_, ?_, ?_, ?_, ?_, ?_, ?_, h.proc_root, ?_⟩
  · intro a e ha
    rcases update_eq_some_iff.mp ha with ⟨rfl, -⟩ | ⟨-, ha⟩
    · exact Nat.lt_succ_self _
    · exact Nat.lt_succ_of_lt (h.addr a e ha)
  · intro i a hi
    rcases update_eq_some_iff.mp hi with ⟨-, rfl⟩ | ⟨-, hi⟩
    · exact Nat.lt_succ_self _
    · exact Nat.lt_succ_of_lt (h.slot_addr i a hi)
  · simpa [Table.newEntry, hj.symm] using h.root
  · intro i hi hne
    by_cases hij : i = j
    · subst hij
      exact ⟨_, _, hnew⟩
    · obtain ⟨a, e, hslot, ha⟩ :=
        h.marked_entry i (by simpa [Table.newEntry, hij] using hi) hne
      exact ⟨a, e, hkeep i a e hslot ha⟩
  · intro a e ha
    rcases update_eq_some_iff.mp ha with ⟨rfl, rfl⟩ | ⟨-, ha⟩
    · exact ⟨hnew.1, by simp [Table.newEntry, Entry.create], hj⟩
    · obtain ⟨hslot, hmarked, hne⟩ := h.entry_slot a e ha
      exact ⟨(hkeep _ a e hslot ha).1, by simp [Table.newEntry, hother a e ha, hmarked], hne⟩
  · intro i a e hi ha
    rcases update_eq_some_iff.mp hi with ⟨rfl, rfl⟩ | ⟨-, hi⟩
    · rw [hnew.2] at ha
      cases ha
      rfl
    · rcases update_eq_some_iff.mp ha with ⟨rfl, -⟩ | ⟨-, ha⟩
      · exact absurd rfl (h.slot_addr i _ hi).ne
      · exact h.slot_pid i a e hi ha
  · intro a e u ha hu
    rcases update_eq_some_iff.mp ha with ⟨-, rfl⟩ | ⟨-, ha⟩
    · cases hu
    · exact h.thread_proc a e u ha hu
  · intro u q hu hexited hne
    obtain ⟨a, e, hslot, ha, hthread⟩ := h.proc_entry u q hu hexited hne
    have hkept := hkeep _ a e hslot ha
    exact ⟨a, e, hkept.1, hkept.2, hthread⟩
  · intro u r hu
    have hf := h.fits u r hu
    generalize r.activity = x at hf ⊢
    cases x with
    | forking i a =>
        obtain ⟨hexited, hslot, e, ha, hthread⟩ := hf
        have hkept := hkeep i a e hslot ha
        exact ⟨hexited, hkept.1, e, hkept.2, hthread⟩
    | exitWait pID a =>
        obtain ⟨hexited, hpid, hne, hslot⟩ := hf
        obtain ⟨b, e, hslot', hb, -⟩ := h.proc_entry u r hu hexited (hpid ▸ hne)
        rw [← hpid, hslot] at hslot'
        cases hslot'
        exact ⟨hexited, hpid, hne, (hkeep pID a e hslot hb).1⟩
    | _ => exact hf

theorem act_newProc (h : Own s) (hq : s.procs t = some q) (x : Activity) (j : ℕ) (a : Addr)
    (e : Entry) : (s.newProc j a e).act t x = (s.act t x).newProc j a e := by
  have hne : t ≠ s.nextTid := (h.tid t q hq).ne
  simp [Table.act, Table.newProc, hne, Function.update_comm hne]

theorem newProc (h : Own s) {a : Addr} {e : Entry} (ha : s.entries a = some e)
    (hnone : e.thread = none)
    (hfree : ∀ u q i, s.procs u = some q → q.activity ≠ .forking i a) :
    Own (s.newProc e.pid a e) := by
  have hold : ∀ u q, s.procs u = some q → u ≠ s.nextTid := fun u q hu => (h.tid u q hu).ne
  have hpid := h.entry_slot a e ha
  have hnew : (s.newProc e.pid a e).entries a = some { e with thread := some s.nextTid } :=
    Function.update_self ..
  have hkeep : ∀ b e', b ≠ a → s.entries b = some e' →
      (s.newProc e.pid a e).entries b = some e' := fun b e' hb he' =>
    update_eq_some_iff.mpr (.inr ⟨hb, he'⟩)
  have hentry : ∀ b e', (s.newProc e.pid a e).entries b = some e' →
      ∃ e₀, s.entries b = some e₀ ∧ e₀.pid = e'.pid := by
    intro b e' hb
    rcases update_eq_some_iff.mp hb with ⟨rfl, rfl⟩ | ⟨-, hb⟩
    · exact ⟨e, ha, rfl⟩
    · exact ⟨e', hb, rfl⟩
  refine ⟨?_, ?_, h.slot_addr, h.root, ?_, ?_, ?_, ?_, ?_, ?_, ?_⟩
  · intro u q hu
    rcases update_eq_some_iff.mp hu with ⟨rfl, -⟩ | ⟨-, hu⟩
    · exact Nat.lt_succ_self _
    · exact Nat.lt_succ_of_lt (h.tid u q hu)
  · intro b e' hb
    obtain ⟨e₀, hb, -⟩ := hentry b e' hb
    exact h.addr b e₀ hb
  · intro i hi hne
    obtain ⟨b, e', hslot, hb⟩ := h.marked_entry i hi hne
    by_cases hba : b = a
    · subst hba
      exact ⟨b, _, hslot, hnew⟩
    · exact ⟨b, e', hslot, hkeep b e' hba hb⟩
  · intro b e' hb
    obtain ⟨e₀, hb, heq⟩ := hentry b e' hb
    exact heq ▸ h.entry_slot b e₀ hb
  · intro i b e' hi hb
    obtain ⟨e₀, hb, heq⟩ := hentry b e' hb
    exact heq ▸ h.slot_pid i b e₀ hi hb
  · intro b e' u hb hu
    rcases update_eq_some_iff.mp hb with ⟨rfl, rfl⟩ | ⟨-, hb⟩
    · cases hu
      exact ⟨_, Function.update_self .., rfl, rfl⟩
    · obtain ⟨q, hq, hrest⟩ := h.thread_proc b e' u hb hu
      exact ⟨q, update_eq_some_iff.mpr (.inr ⟨hold u q hq, hq⟩), hrest⟩
  · intro u q hu hexited hne
    rcases update_eq_some_iff.mp hu with ⟨rfl, rfl⟩ | ⟨-, hu⟩
    · exact ⟨a, _, hpid.1, hnew, rfl⟩
    · obtain ⟨b, e', hslot, hb, hthread⟩ := h.proc_entry u q hu hexited hne
      have hba : b ≠ a := by
        rintro rfl
        rw [ha] at hb
        cases hb
        rw [hnone] at hthread
        cases hthread
      exact ⟨b, e', hslot, hkeep b e' hba hb, hthread⟩
  · intro u q hu hexited hzero
    rcases update_eq_some_iff.mp hu with ⟨-, rfl⟩ | ⟨-, hu⟩
    · exact absurd hzero hpid.2.2
    · exact h.proc_root u q hu hexited hzero
  · intro u r hu
    rcases update_eq_some_iff.mp hu with ⟨-, rfl⟩ | ⟨-, hu⟩
    · rfl
    · have hf := h.fits u r hu
      have hfork : ∀ i, r.activity ≠ .forking i a := fun i => hfree u r i hu
      generalize r.activity = x at hf hfork ⊢
      cases x with
      | forking i b =>
          obtain ⟨hexited, hslot, e', hb, hthread⟩ := hf
          have hba : b ≠ a := by
            rintro rfl
            exact hfork i rfl
          exact ⟨hexited, hslot, e', hkeep b e' hba hb, hthread⟩
      | _ => exact hf

/-! ## Remove by the owner -/

/-- The slot of a process that has not exited is marked and holds its entry. -/
theorem entry_of_proc (h : Own s) (hq : s.procs t = some q) (hexited : q.exited = false)
    (hne : q.processID ≠ 0) :
    ∃ a e, s.slot q.processID = some a ∧ s.entries a = some e ∧ e.thread = some t ∧
      e.pid = q.processID ∧ s.marked q.processID = true := by
  obtain ⟨a, e, hslot, ha, hthread⟩ := h.proc_entry t q hq hexited hne
  have hpid := h.slot_pid _ a e hslot ha
  exact ⟨a, e, hslot, ha, hthread, hpid, hpid ▸ (h.entry_slot a e ha).2.1⟩

/-- No two threads that have not exited run for the same process. -/
theorem unique (h : Own s) {u v : Tid} {q r : Proc} (hu : s.procs u = some q)
    (hv : s.procs v = some r) (hqe : q.exited = false) (hre : r.exited = false)
    (heq : q.processID = r.processID) : u = v := by
  by_cases hzero : q.processID = 0
  · rw [h.proc_root u q hu hqe hzero, h.proc_root v r hv hre (heq ▸ hzero)]
  · obtain ⟨a, e, hslot, ha, hthread, -⟩ := h.entry_of_proc hu hqe hzero
    obtain ⟨b, e', hslot', hb, hthread', -⟩ := h.entry_of_proc hv hre (heq ▸ hzero)
    rw [← heq, hslot] at hslot'
    cases hslot'
    rw [ha] at hb
    cases hb
    exact Option.some.inj (hthread.symm.trans hthread')

theorem leave_eq {pID : ℕ} {a : Addr} (hq : s.procs t = some q) (hmarked : s.marked pID = true)
    (hslot : s.slot pID = some a) :
    (s.remove pID).leave t =
      { s with
        marked := Function.update s.marked pID false
        entries := Function.update s.entries a none
        procs := Function.update s.procs t
          (some { q with activity := .user, exited := true }) } := by
  simp [Table.remove, Table.leave, hq, hmarked, hslot]

theorem remove (h : Own s) (hq : s.procs t = some q) (hexited : q.exited = false)
    (hne : q.processID ≠ 0) : Own ((s.remove q.processID).leave t) := by
  obtain ⟨a, e, hslot, ha, hthread, hpid, hmarked⟩ := h.entry_of_proc hq hexited hne
  rw [leave_eq hq hmarked hslot]
  have hother : ∀ b e', s.entries b = some e' → b ≠ a → e'.pid ≠ q.processID := by
    intro b e' hb hba heq
    have hslot' := (h.entry_slot b e' hb).1
    rw [heq, hslot] at hslot'
    exact hba (Option.some.inj hslot').symm
  refine ⟨?_, ?_, h.slot_addr, ?_, ?_, ?_, ?_, ?_, ?_, ?_, ?_⟩
  · intro u r hu
    rcases update_eq_some_iff.mp hu with ⟨rfl, -⟩ | ⟨-, hu⟩
    · exact h.tid u q hq
    · exact h.tid u r hu
  · intro b e' hb
    exact h.addr b e' (update_none_eq_some_iff.mp hb).2
  · simpa [hne.symm] using h.root
  · intro i hi hi0
    have hipid : i ≠ q.processID := by
      rintro rfl
      simp at hi
    obtain ⟨b, e', hslot', hb⟩ := h.marked_entry i (by simpa [hipid] using hi) hi0
    have hba : b ≠ a := by
      rintro rfl
      rw [ha] at hb
      cases hb
      exact hipid ((h.slot_pid i b e hslot' ha).symm.trans hpid)
    exact ⟨b, e', hslot', update_none_eq_some_iff.mpr ⟨hba, hb⟩⟩
  · intro b e' hb
    obtain ⟨hba, hb⟩ := update_none_eq_some_iff.mp hb
    obtain ⟨hslot', hmarked', hne'⟩ := h.entry_slot b e' hb
    exact ⟨hslot', by simp [hother b e' hb hba, hmarked'], hne'⟩
  · intro i b e' hi hb
    exact h.slot_pid i b e' hi (update_none_eq_some_iff.mp hb).2
  · intro b e' u hb hu
    obtain ⟨hba, hb₀⟩ := update_none_eq_some_iff.mp hb
    obtain ⟨r, hr, hrexited, hrpid⟩ := h.thread_proc b e' u hb₀ hu
    have hut : u ≠ t := by
      rintro rfl
      rw [hq] at hr
      cases hr
      exact hother b e' hb₀ hba hrpid.symm
    exact ⟨r, update_eq_some_iff.mpr (.inr ⟨hut, hr⟩), hrexited, hrpid⟩
  · intro u r hu hrexited hrne
    rcases update_eq_some_iff.mp hu with ⟨-, rfl⟩ | ⟨hut, hu⟩
    · cases hrexited
    · obtain ⟨b, e', hslot', hb, hthread'⟩ := h.proc_entry u r hu hrexited hrne
      have hba : b ≠ a := by
        rintro rfl
        rw [ha] at hb
        cases hb
        exact hut (Option.some.inj (hthread'.symm.trans hthread))
      exact ⟨b, e', hslot', update_none_eq_some_iff.mpr ⟨hba, hb⟩, hthread'⟩
  · intro u r hu hrexited hzero
    rcases update_eq_some_iff.mp hu with ⟨-, rfl⟩ | ⟨-, hu⟩
    · cases hrexited
    · exact h.proc_root u r hu hrexited hzero
  · intro u r hu
    rcases update_eq_some_iff.mp hu with ⟨-, rfl⟩ | ⟨-, hu⟩
    · trivial
    · have hf := h.fits u r hu
      generalize r.activity = x at hf ⊢
      cases x with
      | forking i b =>
          obtain ⟨hrexited, hslot', e', hb, hnone, hcreator⟩ := hf
          have hba : b ≠ a := by
            rintro rfl
            rw [ha] at hb
            cases hb
            rw [hnone] at hthread
            cases hthread
          exact ⟨hrexited, hslot', e', update_none_eq_some_iff.mpr ⟨hba, hb⟩, hnone, hcreator⟩
      | _ => exact hf

/-! ## Every step keeps the ownership -/

theorem joinTest (h : Own s) (hq : s.procs t = some q) (hexited : q.exited = false) {pID : ℕ}
    {a : Addr} {e e' : Entry} (ha : s.entries a = some e) (hident : e'.ident = e.ident) :
    Own (s.joinTest t pID a e') := by
  obtain ⟨e₁, x, hident₁, hx, heq⟩ := s.joinTest_eq t pID a e'
  rw [heq]
  apply h.act hq (.put ha (hident₁.trans hident)) rfl
  rcases hx with rfl | rfl
  · exact hexited
  · exact hexited

theorem exitTest (h : Own s) (hq : s.procs t = some q) (hexited : q.exited = false) {pID : ℕ}
    {a : Addr} {e : Entry} (ha : s.entries a = some e) (hslot : s.slot pID = some a)
    (hpid : pID = q.processID) (hne : pID ≠ 0) : Own (s.exitTest t pID a e) := by
  obtain ⟨e₁, x, hident, hx, heq⟩ := s.exitTest_eq t pID a e
  rw [heq]
  apply h.act hq (.put ha hident) rfl
  rcases hx with rfl | rfl
  · exact ⟨hexited, hpid, hne, hslot⟩
  · exact ⟨hexited, hpid, hne⟩

theorem move {i : Input} (h : Own s) (hq : s.procs t = some q) (hexited : q.exited = false)
    (hmove : s.Move t q i s') : Own s' := by
  have hfits := h.fits t q hq
  cases hmove with
  | settle i x here next =>
      apply h.act hq (.refl s) rfl
      rcases next with rfl | rfl
      · trivial
      · exact hexited
  | wait i here => exact h.act hq (.refl s) rfl hexited
  | load i n x here next =>
      apply h.load hq n
      rcases next with rfl | rfl
      · trivial
      · exact hexited
  | create j parentID here range clear least =>
      apply (h.newEntry clear t parentID).act hq (.refl _) rfl
      exact ⟨hexited, Function.update_self .., _, Function.update_self .., rfl, rfl⟩
  | fork j a e here entry =>
      rw [here] at hfits
      obtain ⟨-, hslot, e', ha, hnone, hcreator⟩ := hfits
      rw [entry] at ha
      cases ha
      have hpid := h.slot_pid j a e hslot entry
      have hown : Own (s.act t .kernel) := h.act hq (.refl s) rfl hexited
      rw [h.act_newProc hq, ← hpid]
      apply hown.newProc entry hnone
      intro u r i hu hfork
      -- another thread at the same entry would be its creator too
      rw [procs_act hq] at hu
      rcases update_eq_some_iff.mp hu with ⟨-, rfl⟩ | ⟨hut, hu⟩
      · cases hfork
      · have hfits := h.fits u r hu
        rw [hfork] at hfits
        obtain ⟨-, -, e', ha, -, hcreator'⟩ := hfits
        rw [entry] at ha
        cases ha
        exact hut (hcreator'.symm.trans hcreator)
  | abandon j a here => exact h.act hq (.refl s) rfl hexited
  | join pID a e here pages range slot entry parent => exact h.joinTest hq hexited entry rfl
  | joinAgain pID a e here entry => exact h.joinTest hq hexited entry rfl
  | joinFail pID a b e here slot entry code => exact h.act hq (.refl s) rfl hexited
  | joinDone pID a b e here slot entry code =>
      refine h.act hq (.put entry ?_) rfl ?_
      · rfl
      · exact hexited
  | exit ec a e call joined =>
      refine h.act hq (.put call.entry ?_) rfl ?_
      · rfl
      · exact ⟨hexited, rfl, call.child⟩
  | exitWait pID a e here slot entry =>
      rw [here] at hfits
      exact h.exitTest hq hexited entry slot hfits.2.1 hfits.2.2
  | exitAgain pID a e here entry =>
      rw [here] at hfits
      exact h.exitTest hq hexited entry hfits.2.2.2 hfits.2.1 hfits.2.2.1
  | exitAlone ec a e call alone => exact h.remove hq hexited call.child
  | exitRemove pID here =>
      rw [here] at hfits
      obtain ⟨-, rfl, hne⟩ := hfits
      exact h.remove hq hexited hne

/-- A thread that takes a step of the machine has not exited. -/
theorem not_exited (h : Own s) (hq : s.procs t = some q)
    (huser : q.exited = true → q.activity ≠ .user) : q.exited = false := by
  cases hexited : q.exited with
  | false => rfl
  | true => exact absurd ((h.fits t q hq).not_exited (huser hexited)) (by simp [hexited])

theorem step {i : Input} (h : Own s) (hstep : s.Step t i s') : Own s' := by
  rcases hstep with rfl | ⟨q, hq, huser, hmove⟩
  · exact h
  · exact h.move hq (h.not_exited hq huser) hmove

end Own

end Table

theorem Kernel.own_create (words : Vector (BitVec 32) (divRoundUp maxProcess bitsInWord))
    (frameWords : Vector (BitVec 32) (divRoundUp numPhysPages bitsInWord)) :
    (Kernel.create words frameWords).view.Own := by
  have hmarked : ∀ i, (Kernel.create words frameWords).view.marked i = true ↔ i = 0 := by
    intro i
    by_cases hi : i < maxProcess
    · simp [Kernel.view, Kernel.isExist, Kernel.create, hi, eq_comm]
    · have hne : i ≠ 0 := by
        rintro rfl
        exact hi (by decide)
      simp [Kernel.view, Kernel.isExist, hi, hne]
  have hproc : ∀ u q, (Kernel.create words frameWords).view.procs u = some q →
      u = 0 ∧ q = ⟨0, .starting, 0, false⟩ := by
    intro u q hu
    by_cases hzero : u = 0
    · subst hzero
      cases hu
      exact ⟨rfl, rfl⟩
    · simp [Kernel.view, Kernel.create, hzero] at hu
  have hslot : ∀ i a, (Kernel.create words frameWords).view.slot i ≠ some a := by
    intro i a h
    cases h
  have hentry : ∀ a e, (Kernel.create words frameWords).view.entries a ≠ some e := by
    intro a e h
    cases h
  refine ⟨?_, fun a e h => absurd h (hentry a e), fun i a h => absurd h (hslot i a),
    ⟨(hmarked 0).mpr rfl, rfl⟩, ?_, fun a e h => absurd h (hentry a e),
    fun i a e h => absurd h (hslot i a), fun a e u h => absurd h (hentry a e), ?_, ?_, ?_⟩
  · intro u q hu
    rw [(hproc u q hu).1]
    exact Nat.one_pos
  · intro i hi hne
    exact absurd ((hmarked i).mp hi) hne
  · intro u q hu _ hne
    rw [(hproc u q hu).2] at hne
    exact absurd rfl hne
  · intro u q hu _ _
    exact (hproc u q hu).1
  · intro u q hu
    rw [(hproc u q hu).2]
    rfl

/-- The ownership holds along every run without calls by exited threads. -/
theorem Kernel.allStates_own {k : Kernel} {run : List (Tid × Input)} (h : k.view.Own)
    (hrun : Runs.AllSteps step Disciplined k run) :
    Runs.AllStates step (fun k => k.view.Own) k run := by
  refine Runs.allStates_of_allSteps ?_ h hrun
  intro k label k' hd hstep h
  exact h.step (step_view hstep hd)

end Nachos
