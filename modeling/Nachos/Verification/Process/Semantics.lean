import Nachos.Library.Runs
import Nachos.Model.Process
import Nachos.Verification.AddrSpace.Allocation

/-! # The process table as an abstract machine

`Table` keeps what the process table, the PCBs and the threads mean to each other: which
slots are marked, who created a PCB and who runs it, how many tokens its two semaphores
hold, and what each thread is doing. Queues, names, the scheduler's state and the lock are
left out. Every step of the kernel is one move of this machine, or leaves it alone. -/

namespace Nachos

/-- A PCB without its queues, its mutex and its name. -/
structure Entry where
  pid : ℕ
  parentID : ℕ
  creator : Tid
  thread : Option Tid
  joinStatus : ℤ
  exitcode : ℤ
  joins : ℕ
  exits : ℕ

inductive Activity
  | starting
  | user
  | kernel
  | forking (id : ℕ) (a : Addr)
  | joinWait (pID : ℕ) (a : Addr)
  | joinCode (pID : ℕ) (a : Addr)
  | exitRelease (pID : ℕ)
  | exitWait (pID : ℕ) (a : Addr)
  | exitRemove (pID : ℕ)

structure Proc where
  processID : ℕ
  activity : Activity
  pages : ℕ
  exited : Bool

structure Table where
  marked : ℕ → Bool
  slot : ℕ → Option Addr
  entries : Addr → Option Entry
  nextAddr : Addr
  procs : Tid → Option Proc
  nextTid : Tid
  used : ℕ

/-- The system calls that reach the process table. -/
def Input.isCall : Input → Bool
  | .exec _ => true
  | .join _ => true
  | .exit _ => true
  | _ => false

/-! ## Moves -/

def Entry.create (i : ℕ) (t : Tid) (parentID : ℕ) : Entry :=
  ⟨i, parentID, t, none, -1, 0, 0, 0⟩

namespace Table

def act (s : Table) (t : Tid) (x : Activity) : Table :=
  { s with
    procs := Function.update s.procs t ((s.procs t).map fun q => { q with activity := x }) }

def put (s : Table) (a : Addr) (e : Entry) : Table :=
  { s with entries := Function.update s.entries a (some e) }

/-- The thread gets an address space of `n` pages. -/
def load (s : Table) (t : Tid) (n : ℕ) (x : Activity) : Table :=
  { s with
    procs := Function.update s.procs t
      ((s.procs t).map fun q => { q with pages := n, activity := x })
    used := s.used + n }

/-- A new entry in the free slot `i`, made by `t`. -/
def newEntry (s : Table) (i : ℕ) (t : Tid) (parentID : ℕ) : Table :=
  { s with
    marked := Function.update s.marked i true
    slot := Function.update s.slot i (some s.nextAddr)
    entries := Function.update s.entries s.nextAddr (some (.create i t parentID))
    nextAddr := s.nextAddr + 1 }

/-- A new thread for the entry at `a`. -/
def newProc (s : Table) (i : ℕ) (a : Addr) (e : Entry) : Table :=
  { s with
    entries := Function.update s.entries a (some { e with thread := some s.nextTid })
    procs := Function.update s.procs s.nextTid (some ⟨i, .starting, 0, false⟩)
    nextTid := s.nextTid + 1 }

def joinTest (s : Table) (t : Tid) (pID : ℕ) (a : Addr) (e : Entry) : Table :=
  if e.joins = 0 then (s.put a e).act t (.joinWait pID a)
  else (s.put a { e with joins := e.joins - 1 }).act t (.joinCode pID a)

def exitTest (s : Table) (t : Tid) (pID : ℕ) (a : Addr) (e : Entry) : Table :=
  if e.exits = 0 then (s.put a e).act t (.exitWait pID a)
  else (s.put a { e with exits := e.exits - 1 }).act t (.exitRemove pID)

def remove (s : Table) (pID : ℕ) : Table :=
  if s.marked pID then
    { s with
      marked := Function.update s.marked pID false
      entries := match s.slot pID with
        | none => s.entries
        | some a => Function.update s.entries a none }
  else s

/-- The thread is back in user mode after its `Exit`. -/
def leave (s : Table) (t : Tid) : Table :=
  { s with
    procs := Function.update s.procs t
      ((s.procs t).map fun q => { q with activity := .user, exited := true }) }

theorem remove_put {s : Table} {pID : ℕ} {a : Addr} (e : Entry) (hmarked : s.marked pID = true)
    (hslot : s.slot pID = some a) : (s.put a e).remove pID = s.remove pID := by
  simp [put, remove, hmarked, hslot]

/-- A user-mode call of `Exit` that finds the entry of the process. -/
structure Exits (s : Table) (q : Proc) (a : Addr) (e : Entry) : Prop where
  user : q.activity = .user
  pages : q.pages ≠ 0
  child : q.processID ≠ 0
  marked : s.marked q.processID = true
  slot : s.slot q.processID = some a
  entry : s.entries a = some e

/-- What thread `t`, whose record is `q`, can do in one step with input `i`. The parent of a
new entry is any number: a long name overwrites it. -/
inductive Move (s : Table) (t : Tid) (q : Proc) : Input → Table → Prop where
  | settle (i x) (here : q.activity = .user ∨ q.activity = .kernel)
      (next : x = .user ∨ x = .kernel) : Move s t q i (s.act t x)
  | wait (i) (here : q.activity = .starting) : Move s t q i (s.act t .starting)
  | load (i n x) (here : q.activity = .starting) (next : x = .user ∨ x = .kernel) :
      Move s t q i (s.load t n x)
  | create (j parentID) (here : q.activity = .kernel) (range : j < maxProcess)
      (clear : s.marked j = false) (least : ∀ l < j, s.marked l = true) :
      Move s t q (.sameName false) ((s.newEntry j t parentID).act t (.forking j s.nextAddr))
  | fork (j a e) (here : q.activity = .forking j a) (entry : s.entries a = some e) :
      Move s t q (.allocated true) ((s.newProc j a e).act t .kernel)
  | abandon (j a) (here : q.activity = .forking j a) :
      Move s t q (.allocated false) (s.act t .kernel)
  | join (pID : ℕ) (a e) (here : q.activity = .user) (pages : q.pages ≠ 0)
      (range : 0 < pID ∧ pID < maxProcess) (slot : s.slot pID = some a)
      (entry : s.entries a = some e) (parent : q.processID = e.parentID) :
      Move s t q (.join pID) (s.joinTest t pID a { e with joinStatus := e.parentID })
  | joinAgain (pID a e) (here : q.activity = .joinWait pID a)
      (entry : s.entries a = some e) : Move s t q .go (s.joinTest t pID a e)
  | joinFail (pID a b e) (here : q.activity = .joinCode pID a) (slot : s.slot pID = some b)
      (entry : s.entries b = some e) (code : e.exitcode ≠ 0) :
      Move s t q .go (s.act t .kernel)
  | joinDone (pID a b e) (here : q.activity = .joinCode pID a) (slot : s.slot pID = some b)
      (entry : s.entries b = some e) (code : e.exitcode = 0) :
      Move s t q .go ((s.put b { e with exits := e.exits + 1 }).act t .kernel)
  | exit (ec a e) (call : s.Exits q a e) (joined : e.joinStatus ≠ -1) :
      Move s t q (.exit ec)
        ((s.put a { e with exitcode := ec, joins := e.joins + 1 }).act t
          (.exitRelease q.processID))
  | exitWait (pID a e) (here : q.activity = .exitRelease pID) (slot : s.slot pID = some a)
      (entry : s.entries a = some e) : Move s t q .go (s.exitTest t pID a e)
  | exitAgain (pID a e) (here : q.activity = .exitWait pID a)
      (entry : s.entries a = some e) : Move s t q .go (s.exitTest t pID a e)
  | exitAlone (ec a e) (call : s.Exits q a e) (alone : e.joinStatus = -1) :
      Move s t q (.exit ec) ((s.remove q.processID).leave t)
  | exitRemove (pID) (here : q.activity = .exitRemove pID) :
      Move s t q .go ((s.remove pID).leave t)

/-- A step with input `i` of thread `t` that takes no exited thread out of user mode. -/
def Step (s : Table) (t : Tid) (i : Input) (s' : Table) : Prop :=
  s' = s ∨ ∃ q, s.procs t = some q ∧ (q.exited = true → q.activity ≠ .user) ∧ s.Move t q i s'

end Table

/-! ## The abstraction -/

def PCB.entry (p : PCB) : Entry :=
  ⟨p.pid, p.parentID, p.creator, p.thread, p.joinStatus, p.exitcode, p.joinsem.value,
    p.exitsem.value⟩

theorem PCB.eq_of_setFileName {p p' : PCB} {fn : List Byte} (h : p.setFileName fn = some p') :
    p' = { p with fileName := fn, parentID := parentBehind p.parentID fn } := by
  unfold setFileName at h
  split at h
  · exact (Option.some.inj h).symm
  · cases h

def Mode.activity : Mode → Activity
  | .startProcess => .starting
  | .myStartProcess => .starting
  | .loading _ => .starting
  | .outOfMemory => .starting
  | .user => .user
  | .execFork id a => .forking id a
  | .joinWait pID a => .joinWait pID a
  | .joinCode pID a => .joinCode pID a
  | .exitRelease pID _ => .exitRelease pID
  | .exitWait pID a _ => .exitWait pID a
  | .exitRemove pID _ => .exitRemove pID
  | _ => .kernel

/-- The number of frames that an address space holds. -/
def Space.pages : Space → ℕ
  | .null => 0
  | .unset => 0
  | .built space => space.numPages

def Thread.proc (th : Thread) : Proc :=
  ⟨th.processID, th.mode.activity, th.space.pages, th.exited⟩

namespace Kernel

def view (k : Kernel) : Table where
  marked := k.isExist
  slot := k.pcb
  entries a := (k.heap a).map PCB.entry
  nextAddr := k.nextAddr
  procs t := (k.threads t).map Thread.proc
  nextTid := k.nextTid
  used := k.gPhysPageBitMap.numSet

variable (k : Kernel) (t : Tid) (a : Addr)

theorem view_modifyThread {f : Thread → Thread} {g : Proc → Proc}
    (h : ∀ th, (f th).proc = g th.proc) :
    (k.modifyThread t f).view =
      { k.view with procs := Function.update k.view.procs t ((k.view.procs t).map g) } := by
  have hprocs : (fun u => (Function.update k.threads t ((k.threads t).map f) u).map Thread.proc) =
      Function.update k.view.procs t ((k.view.procs t).map g) := by
    funext u
    by_cases hu : u = t
    · subst hu
      simp [view, Option.map_map, Function.comp_def, h]
    · simp [view, hu]
  simp [view, modifyThread] at hprocs ⊢
  exact ⟨rfl, hprocs⟩

@[simp] theorem view_goto (mode : Mode) :
    (k.goto t mode).view = k.view.act t mode.activity :=
  view_modifyThread k t fun _ => rfl

@[simp] theorem view_sleep (mode : Mode) :
    (k.sleep t mode).view = k.view.act t mode.activity :=
  view_modifyThread k t fun _ => rfl

@[simp] theorem view_wake (u : Option Tid) : (k.wake u).view = k.view := by
  cases u with
  | none => rfl
  | some u =>
      have h := view_modifyThread k u (f := fun th => { th with asleep := false }) (g := id)
        fun _ => rfl
      simpa [wake] using h

@[simp] theorem view_stop (status : Status) : (k.stop status).view = k.view :=
  rfl

@[simp] theorem view_bmsem (sem : Semaphore) : { k with bmsem := sem }.view = k.view :=
  rfl

@[simp] theorem view_addrLock (lock : Lock) : { k with addrLock := lock }.view = k.view :=
  rfl

theorem view_gPhysPageBitMap (b : BitMap numPhysPages) :
    { k with gPhysPageBitMap := b }.view = { k.view with used := b.numSet } :=
  rfl

@[simp] theorem view_bmsemV : k.bmsemV.view = k.view := by
  simp [bmsemV]

@[simp] theorem view_releaseLock : (k.releaseLock t).view = k.view := by
  simp [releaseLock]

@[simp] theorem view_putPCB (p : PCB) : (k.putPCB a p).view = k.view.put a p.entry := by
  have hentries : (fun b => (Function.update k.heap a (some p) b).map PCB.entry) =
      Function.update k.view.entries a (some p.entry) := by
    funext b
    by_cases hb : b = a
    · subst hb
      simp
    · simp [view, hb]
  simp only [view, putPCB, Table.put] at hentries ⊢
  rw [hentries]
  rfl

@[simp] theorem value_v (sem : Semaphore) : sem.v.1.value = sem.value + 1 := by
  unfold Semaphore.v
  cases sem.queue with
  | nil => rfl
  | cons thread queue => rfl

theorem view_joinSemP (pID : ℕ) (p : PCB) :
    (k.joinSemP t pID a p).view = k.view.joinTest t pID a p.entry := by
  unfold joinSemP Table.joinTest Semaphore.p
  by_cases h : p.joinsem.value = 0
  · simp [h, PCB.entry, Mode.activity]
  · simp [h, PCB.entry, Mode.activity]

theorem view_exitSemP (pID : ℕ) (ec : ℤ) (p : PCB) :
    (k.exitSemP t pID ec a p).view = k.view.exitTest t pID a p.entry := by
  unfold exitSemP Table.exitTest Semaphore.p
  by_cases h : p.exitsem.value = 0
  · simp [h, PCB.entry, Mode.activity]
  · simp [h, PCB.entry, Mode.activity]

theorem isExist_eq_test {pID : ℕ} (h : pID < maxProcess) :
    k.isExist pID = k.bm.test ⟨pID, h⟩ :=
  dif_pos h

theorem lt_of_isExist {pID : ℕ} (h : k.isExist pID = true) : pID < maxProcess := by
  by_contra hlt
  rw [isExist, dif_neg hlt] at h
  cases h

/-- Deleting an object deletes its entry. -/
theorem entries_delete :
    (fun b => (Function.update k.heap a none b).map PCB.entry) =
      Function.update k.view.entries a none := by
  funext b
  by_cases hb : b = a
  · subst hb
    simp
  · simp [view, hb]

theorem isExist_of_test {b : BitMap maxProcess} {i : Fin maxProcess} {value : Bool}
    (h : ∀ j, b.test j = if i = j then value else k.bm.test j) :
    { k with bm := b }.isExist = Function.update k.isExist i value := by
  funext j
  by_cases hj : j < maxProcess
  · by_cases hij : j = i.val
    · subst hij
      simp [isExist, h]
    · have hne : i ≠ ⟨j, hj⟩ := fun heq => hij (congrArg Fin.val heq).symm
      simp [isExist, h, hj, hij, hne]
  · have hij : j ≠ i.val := by omega
    simp [isExist, hj, hij]

theorem isExist_clear (i : Fin maxProcess) :
    { k with bm := k.bm.clear i }.isExist = Function.update k.isExist i false := by
  refine isExist_of_test k fun j => ?_
  by_cases hj : i = j <;> simp [hj]

theorem isExist_mark (i : Fin maxProcess) :
    { k with bm := k.bm.mark i }.isExist = Function.update k.isExist i true := by
  refine isExist_of_test k fun j => ?_
  by_cases hj : i = j <;> simp [hj]

theorem remove_of_not_exist {pID : ℕ} (h : k.isExist pID = false) : k.remove pID = k := by
  unfold remove
  by_cases hlt : pID < maxProcess
  · rw [isExist_eq_test k hlt] at h
    simp [hlt, h]
  · simp [hlt]

/-- `Remove` of a slot whose pointer may be followed. -/
theorem remove_of_live {i : Fin maxProcess} {a : Addr} {p : PCB} (h : k.bm.test i = true)
    (hslot : k.pcb i = some a) (hheap : k.heap a = some p) :
    k.remove i = { k with bm := k.bm.clear i, heap := Function.update k.heap a none } := by
  simp [remove, h, hslot, hheap]

theorem view_remove (pID : ℕ) : (k.remove pID).view = k.view.remove pID := by
  cases hexist : k.isExist pID with
  | false =>
      have hmarked : k.view.marked pID = false := hexist
      simp [remove_of_not_exist k hexist, Table.remove, hmarked]
  | true =>
      have hlt := lt_of_isExist k hexist
      have hmarked : k.view.marked pID = true := hexist
      have htest : k.bm.test ⟨pID, hlt⟩ = true := by rw [← isExist_eq_test k hlt, hexist]
      have hclear := isExist_clear k ⟨pID, hlt⟩
      cases hslot : k.pcb pID with
      | none =>
          have hview : k.view.slot pID = none := hslot
          simp only [remove, hlt, htest, hslot, Table.remove, hmarked, hview, dif_pos, if_true]
          simp only [view, ← hclear]
      | some a =>
          have hview : k.view.slot pID = some a := hslot
          cases hheap : k.heap a with
          | none =>
              have hentry : k.view.entries a = none := by simp [view, hheap]
              have hsame := Function.update_eq_self a k.view.entries
              rw [hentry] at hsame
              simp only [remove, hlt, htest, hslot, hheap, Table.remove, hmarked, hview, hsame,
                dif_pos, if_true]
              simp only [view, stop, ← hclear]
              rfl
          | some p =>
              simp only [remove, hlt, htest, hslot, hheap, Table.remove, hmarked, hview,
                ← entries_delete, dif_pos, if_true]
              simp only [view, ← hclear]
              rfl

theorem view_removeSelf (pID : ℕ) :
    (k.removeSelf t pID).view = (k.view.remove pID).leave t := by
  rw [← view_remove]
  exact view_modifyThread _ t fun _ => rfl

/-! ## Every step is a move -/

theorem view_execUpdate (filename : List Byte) :
    (k.execUpdate t filename).view = k.view.act t .kernel := by
  unfold execUpdate Semaphore.p
  by_cases h : k.bmsem.value = 0
  · simp [h, Mode.activity]
  · simp [h, Mode.activity]

theorem view_execFail : (k.execFail t).view = k.view.act t .kernel := by
  simp [execFail, Mode.activity]

theorem view_execOpen (filename : List Byte) (ok : Bool) :
    (k.execOpen t filename ok).view = k.view.act t .kernel := by
  cases ok with
  | false => simp [execOpen, view_execFail]
  | true => simp [execOpen, Mode.activity]

variable {k t a} {th : Thread} {i : Input} {k' : Kernel}

theorem procs_of_threads (hth : k.threads t = some th) : k.view.procs t = some th.proc := by
  simp [view, hth]

theorem entries_of_heap {p : PCB} (h : k.heap a = some p) :
    k.view.entries a = some p.entry := by
  simp [view, h]

theorem deref_eq_some {pID : ℕ} {p : PCB} :
    k.deref pID = some (a, p) ↔ k.pcb pID = some a ∧ k.heap a = some p := by
  constructor
  · intro h
    obtain ⟨b, hslot, hmap⟩ := Option.bind_eq_some_iff.mp h
    obtain ⟨p', hheap, heq⟩ := Option.map_eq_some_iff.mp hmap
    cases heq
    exact ⟨hslot, hheap⟩
  · rintro ⟨hslot, hheap⟩
    simp [deref, hslot, hheap]

/-- The fields that `ExecUpdate` writes for a new PCB with entry `Entry.create`. -/
theorem view_newPCB (j : Fin maxProcess) (p : PCB) (parentID : ℕ)
    (hp : p.entry = .create j t parentID) :
    { k with
      bm := (k.bm.mark j).mark j
      pcb := Function.update k.pcb j (some k.nextAddr)
      heap := Function.update k.heap k.nextAddr (some p)
      nextAddr := k.nextAddr + 1 }.view = k.view.newEntry j t parentID := by
  have hmarked : { k with bm := (k.bm.mark j).mark j }.isExist =
      Function.update k.isExist j true := by
    rw [isExist_mark { k with bm := k.bm.mark j }, isExist_mark, Function.update_idem]
  have hentries : (fun b => (Function.update k.heap k.nextAddr (some p) b).map PCB.entry) =
      Function.update k.view.entries k.nextAddr (some (.create j t parentID)) := by
    rw [← hp]
    exact congrArg Table.entries (view_putPCB k k.nextAddr p)
  simp only [view, Table.newEntry] at hentries ⊢
  rw [hentries, ← hmarked]
  rfl

theorem execSlot_move (filename : List Byte) (same : Bool) (hmode : th.mode.activity = .kernel) :
    (k.execSlot t th filename same).view = k.view ∨
      k.view.Move t th.proc (.sameName same) (k.execSlot t th filename same).view := by
  have hfail : k.view.Move t th.proc (.sameName same) (k.execFail t).view := by
    rw [view_execFail]
    exact .settle _ _ (.inr hmode) (.inr rfl)
  unfold execSlot
  cases same with
  | true => exact .inr hfail
  | false =>
      have hspec := k.bm.find_spec
      generalize k.bm.find = r at hspec ⊢
      cases hspec with
      | full hfull => exact .inr hfail
      | found j hclear hleast =>
          have hne : (j.val : ℤ) ≠ -1 := by omega
          simp only [Bool.false_eq_true, if_false, hne, BitMap.index?_coe]
          cases hname : (PCB.create j t th.processID).setFileName filename with
          | none => exact .inl rfl
          | some p =>
              right
              have hentry : { p with mutex := (p.mutex.p t).1 }.entry =
                  .create j t p.parentID := by
                rw [PCB.eq_of_setFileName hname]
                rfl
              rw [view_goto, view_newPCB j _ _ hentry]
              apply Table.Move.create j p.parentID hmode j.isLt
                ((isExist_eq_test k j.isLt).trans hclear)
              intro l hl
              have hlt : l < maxProcess := hl.trans j.isLt
              exact (isExist_eq_test k hlt).trans (hleast ⟨l, hlt⟩ hl)

theorem view_mutexV {p : PCB} (h : k.heap a = some p) :
    ((k.putPCB a { p with mutex := p.mutex.v.1 }).wake p.mutex.v.2).view = k.view := by
  have hsame : k.view.put a p.entry = k.view := by
    rw [Table.put, ← entries_of_heap h, Function.update_eq_self]
  rw [view_wake, view_putPCB]
  exact hsame

theorem execFork_move {j : ℕ} (ok : Bool) (hmode : th.mode = .execFork j a) :
    (k.execFork t j a ok).view = k.view ∨
      k.view.Move t th.proc (.allocated ok) (k.execFork t j a ok).view := by
  have here : th.proc.activity = .forking j a := by simp [Thread.proc, hmode, Mode.activity]
  unfold execFork
  cases hheap : k.heap a with
  | none => exact .inl rfl
  | some p =>
      right
      have hentry := entries_of_heap hheap
      cases ok with
      | false =>
          simp only [Bool.false_eq_true, if_false, view_goto, view_mutexV hheap]
          exact .abandon j a here
      | true =>
          have hview : { k with
              heap := Function.update k.heap a (some { p with thread := some k.nextTid })
              threads := Function.update k.threads k.nextTid
                (some ⟨j, .myStartProcess, false, .null, false⟩)
              nextTid := k.nextTid + 1 }.view = k.view.newProc j a p.entry := by
            have hput := view_putPCB k a { p with thread := some k.nextTid }
            have hprocs : (fun u => (Function.update k.threads k.nextTid
                (some ⟨j, .myStartProcess, false, .null, false⟩) u).map Thread.proc) =
                Function.update k.view.procs k.nextTid (some ⟨j, .starting, 0, false⟩) := by
              funext u
              by_cases hu : u = k.nextTid
              · subst hu
                simp [Thread.proc, Mode.activity, Space.pages]
              · simp [view, hu]
            have hentries := congrArg Table.entries hput
            simp only [view, putPCB, Table.put] at hentries
            simp only [view] at hprocs
            simp only [view, Table.newProc, hprocs, hentries]
            rfl
          simp only [if_true, view_goto, hview]
          exact .fork j a p.entry here hentry

theorem execUnlock_move {j : ℕ} (hmode : th.mode.activity = .kernel) :
    (k.execUnlock t j a).view = k.view ∨
      k.view.Move t th.proc i (k.execUnlock t j a).view := by
  unfold execUnlock
  cases hheap : k.heap a with
  | none => exact .inl rfl
  | some p =>
      right
      dsimp only
      rw [view_goto, view_mutexV hheap]
      exact .settle i _ (.inr hmode) (.inr rfl)

theorem joinUpdate_move {pID : ℤ} (hpages : th.space.pages ≠ 0) (hmode : th.mode = .user) :
    (k.joinUpdate t th pID).view = k.view ∨
      k.view.Move t th.proc (.join pID) (k.joinUpdate t th pID).view := by
  have here : th.proc.activity = .user := by simp [Thread.proc, hmode, Mode.activity]
  have hreturn : k.view.Move t th.proc (.join pID) (k.goto t (.returned (-1))).view := by
    rw [view_goto]
    exact .settle _ _ (.inl here) (.inr rfl)
  unfold joinUpdate
  by_cases hrange : pID ≤ 0 ∨ 9 < pID
  · rw [if_pos hrange]
    exact .inr hreturn
  · rw [if_neg hrange]
    cases hslot : k.pcb pID.toNat with
    | none => exact .inr hreturn
    | some a =>
        cases hheap : k.heap a with
        | none =>
            left
            simp [hheap]
        | some p =>
            right
            simp only [hheap]
            by_cases hparent : th.processID = p.parentID
            · rw [if_neg (not_not.mpr hparent), view_joinSemP]
              have hmove := Table.Move.join (t := t) (q := th.proc) pID.toNat a p.entry here hpages
                (by unfold maxProcess; omega) hslot (entries_of_heap hheap) hparent
              have hcast : (pID.toNat : ℤ) = pID := Int.toNat_of_nonneg (by omega)
              rw [hcast] at hmove
              exact hmove
            · rw [if_pos hparent]
              exact hreturn

theorem joinWait_move {pID : ℕ} (hmode : th.mode = .joinWait pID a) :
    (k.joinWait t pID a).view = k.view ∨
      k.view.Move t th.proc .go (k.joinWait t pID a).view := by
  unfold joinWait
  cases hheap : k.heap a with
  | none => exact .inl rfl
  | some p =>
      right
      dsimp only
      rw [view_joinSemP]
      exact .joinAgain pID a p.entry (congrArg Mode.activity hmode) (entries_of_heap hheap)

theorem joinCode_move {pID : ℕ} (hmode : th.mode = .joinCode pID a) :
    (k.joinCode t pID).view = k.view ∨
      k.view.Move t th.proc .go (k.joinCode t pID).view := by
  have here : th.proc.activity = .joinCode pID a := by simp [Thread.proc, hmode, Mode.activity]
  unfold joinCode
  cases hderef : k.deref pID with
  | none => exact .inl rfl
  | some r =>
      obtain ⟨b, p⟩ := r
      obtain ⟨hslot, hheap⟩ := deref_eq_some.mp hderef
      right
      dsimp only
      by_cases hcode : p.exitcode = 0
      · have hentry : { p with exitsem := p.exitsem.v.1 }.entry =
            { p.entry with exits := p.entry.exits + 1 } := by simp [PCB.entry]
        rw [if_neg (not_not.mpr hcode), view_goto, view_wake, view_putPCB, hentry]
        exact .joinDone pID a b p.entry here hslot (entries_of_heap hheap) hcode
      · rw [if_pos hcode, view_goto]
        exact .joinFail pID a b p.entry here hslot (entries_of_heap hheap) hcode

theorem exitUpdate_move {ec : ℤ} (hpages : th.space.pages ≠ 0) (hmode : th.mode = .user) :
    (k.exitUpdate t th ec).view = k.view ∨
      k.view.Move t th.proc (.exit ec) (k.exitUpdate t th ec).view := by
  have here : th.proc.activity = .user := by simp [Thread.proc, hmode, Mode.activity]
  unfold exitUpdate
  cases hexist : k.isExist th.processID with
  | false =>
      right
      rw [if_pos rfl, view_goto]
      exact .settle _ _ (.inl here) (.inr rfl)
  | true =>
      rw [if_neg (by simp)]
      by_cases hzero : th.processID = 0
      · rw [if_pos hzero]
        exact .inl rfl
      · rw [if_neg hzero]
        cases hderef : k.deref th.processID with
        | none => exact .inl rfl
        | some r =>
            obtain ⟨a, p⟩ := r
            obtain ⟨hslot, hheap⟩ := deref_eq_some.mp hderef
            have hcall : k.view.Exits th.proc a p.entry :=
              ⟨here, hpages, hzero, hexist, hslot, entries_of_heap hheap⟩
            right
            dsimp only
            by_cases hjoin : p.joinStatus = -1
            · rw [if_neg (not_not.mpr hjoin), view_removeSelf, view_putPCB]
              have hmove := Table.Move.exitAlone (t := t) ec a p.entry hcall hjoin
              rw [Table.remove_put _ hexist hslot]
              exact hmove
            · have hentry : { { p with exitcode := ec }.decNumWait with
                  joinsem := p.joinsem.v.1 }.entry =
                  { p.entry with exitcode := ec, joins := p.entry.joins + 1 } := by
                simp [PCB.entry, PCB.decNumWait]
              rw [if_pos hjoin, view_goto, view_wake, view_putPCB, hentry]
              exact .exit ec a p.entry hcall hjoin

theorem exitRelease_move {pID : ℕ} {ec : ℤ} (hmode : th.mode = .exitRelease pID ec) :
    (k.exitRelease t pID ec).view = k.view ∨
      k.view.Move t th.proc .go (k.exitRelease t pID ec).view := by
  unfold exitRelease
  cases hderef : k.deref pID with
  | none => exact .inl rfl
  | some r =>
      obtain ⟨a, p⟩ := r
      obtain ⟨hslot, hheap⟩ := deref_eq_some.mp hderef
      right
      dsimp only
      rw [view_exitSemP]
      exact .exitWait pID a p.entry (congrArg Mode.activity hmode) hslot (entries_of_heap hheap)

theorem exitWait_move {pID : ℕ} {ec : ℤ} (hmode : th.mode = .exitWait pID a ec) :
    (k.exitWait t pID a ec).view = k.view ∨
      k.view.Move t th.proc .go (k.exitWait t pID a ec).view := by
  unfold exitWait
  cases hheap : k.heap a with
  | none => exact .inl rfl
  | some p =>
      right
      dsimp only
      rw [view_exitSemP]
      exact .exitAgain pID a p.entry (congrArg Mode.activity hmode) (entries_of_heap hheap)

/-- A thread gets an address space, with `n` frames newly marked for it. -/
theorem view_load {k₁ : Kernel} {space : Space} {mode : Mode} {n : ℕ}
    (hview : k₁.view = { k.view with used := k.view.used + n }) (hpages : space.pages = n) :
    ((k₁.setSpace t space).goto t mode).view = k.view.load t n mode.activity := by
  have hspace : (k₁.setSpace t space).view =
      { k₁.view with
        procs := Function.update k₁.view.procs t
          ((k₁.view.procs t).map fun q => { q with pages := n }) } :=
    view_modifyThread k₁ t fun _ => by simp [Thread.proc, hpages]
  rw [view_goto, hspace, hview]
  simp [Table.act, Table.load, Function.comp_def]

theorem openExecutable_move {file : Option NoffHeader} (hmode : th.mode.activity = .starting) :
    (k.openExecutable t file).view = k.view ∨
      k.view.Move t th.proc i (k.openExecutable t file).view := by
  unfold openExecutable
  cases file with
  | none =>
      right
      dsimp only
      rw [view_load (n := 0) rfl rfl]
      exact .load i 0 .user hmode (.inl rfl)
  | some noffH =>
      by_cases hmagic : noffH.noffMagic = noffMagic
      · right
        simp only [ne_eq, hmagic, not_true, if_false]
        have hwait := Table.Move.wait (s := k.view) (t := t) (q := th.proc) i hmode
        rcases hlock : k.addrLock.acquire t with ⟨lock, _ | _⟩
        · simpa [Mode.activity] using hwait
        · simpa [Mode.activity] using hwait
      · left
        simp [hmagic]

theorem myStartProcess_move {file : Option NoffHeader} (hmode : th.mode.activity = .starting) :
    (k.myStartProcess t th file).view = k.view ∨
      k.view.Move t th.proc i (k.myStartProcess t th file).view := by
  unfold myStartProcess
  split
  · cases k.deref th.processID with
    | none => exact .inl rfl
    | some r => exact openExecutable_move hmode
  · exact .inl rfl

theorem loadPages_move {noffH : NoffHeader} (hmode : th.mode.activity = .starting) :
    k.view.Move t th.proc i (k.loadPages t noffH).view := by
  unfold loadPages
  by_cases hroom : k.gPhysPageBitMap.numClear < noffH.numPages
  · rw [if_pos hroom, view_goto, view_releaseLock]
    exact .wait i hmode
  · rw [if_neg hroom]
    have hused := AddrSpace.numSet_allocate noffH.numPages k.gPhysPageBitMap (by omega)
    have hlength := AddrSpace.length_allocate noffH.numPages k.gPhysPageBitMap
    dsimp only
    rw [view_load (k := k) (n := noffH.numPages)]
    · exact .load i noffH.numPages _ hmode (.inr rfl)
    · rw [view_releaseLock, view_gPhysPageBitMap, hused]
      rfl
    · simp [Space.pages, AddrSpace.ofFrames, hlength]

theorem loadEmpty_move (hmode : th.mode.activity = .starting) :
    k.view.Move t th.proc i (k.loadEmpty t).view := by
  unfold loadEmpty
  rw [view_load (k := k) (n := 0) (view_releaseLock k t) rfl]
  exact .load i 0 _ hmode (.inr rfl)

/-- A thread that has exited makes no system call that reaches the process table. -/
def Disciplined (k : Kernel) (label : Tid × Input) : Prop :=
  (k.threads label.1).map Thread.exited = some true → label.2.isCall = false

instance (k : Kernel) (label : Tid × Input) : Decidable (k.Disciplined label) :=
  inferInstanceAs (Decidable (_ → _))

theorem userStep_view (hth : k.threads t = some th) (hmode : th.mode = .user)
    (hd : th.exited = true → i.isCall = false) (h : k.userStep t th i = some k') :
    k.view.Step t i k'.view := by
  have hquiet {k₁ : Kernel} (h : some k₁ = some k') (hview : k₁.view = k.view) :
      k.view.Step t i k'.view := by
    cases h
    exact .inl hview
  have hcall (hi : i.isCall = true) {k₁ : Kernel}
      (hmove : k₁.view = k.view ∨ k.view.Move t th.proc i k₁.view) (h : some k₁ = some k') :
      k.view.Step t i k'.view := by
    cases h
    refine hmove.imp id fun hmove => ⟨_, procs_of_threads hth, ?_, hmove⟩
    intro hexited
    rw [hd hexited] at hi
    cases hi
  unfold userStep at h
  cases hspace : th.space with
  | null =>
      rw [hspace] at h
      exact hquiet h rfl
  | unset =>
      rw [hspace] at h
      exact hquiet h rfl
  | built space =>
      rw [hspace] at h
      dsimp only at h
      have hpages : th.space.pages = space.numPages := by rw [hspace]; rfl
      by_cases hzero : space.numPages = 0
      · rw [if_pos hzero] at h
        exact hquiet h rfl
      · rw [if_neg hzero] at h
        rw [← hpages] at hzero
        cases i with
        | instr => exact hquiet h rfl
        | trap => exact hquiet h rfl
        | exec filename =>
            refine hcall rfl (.inr ?_) h
            rw [view_execUpdate]
            exact .settle _ _ (.inl (by simp [Thread.proc, hmode, Mode.activity])) (.inr rfl)
        | join pID => exact hcall rfl (joinUpdate_move hzero hmode) h
        | exit ec => exact hcall rfl (exitUpdate_move hzero hmode) h
        | _ => cases h

theorem modeStep_view (hth : k.threads t = some th) (hd : th.exited = true → i.isCall = false)
    (h : k.modeStep t th i = some k') : k.view.Step t i k'.view := by
  -- outside user mode it does not matter whether the thread has exited
  have hstep {mode : Mode} (hmode : th.mode = mode) (hkernel : mode.activity ≠ .user)
      {k₁ : Kernel} (h : some k₁ = some k')
      (hmove : k₁.view = k.view ∨ k.view.Move t th.proc i k₁.view) :
      k.view.Step t i k'.view := by
    cases h
    refine hmove.imp id fun hmove => ⟨_, procs_of_threads hth, fun _ => ?_, hmove⟩
    rw [← hmode] at hkernel
    exact hkernel
  have hsettle {mode : Mode} (hmode : th.mode = mode) (hkernel : mode.activity = .kernel)
      {k₁ : Kernel} {x : Activity} (h : some k₁ = some k') (hview : k₁.view = k.view.act t x)
      (hx : x = .user ∨ x = .kernel) : k.view.Step t i k'.view := by
    refine hstep hmode (by simp [hkernel]) h (.inr ?_)
    rw [hview]
    refine .settle _ _ (.inr ?_) hx
    rw [← hkernel, ← hmode]
    rfl
  unfold modeStep at h
  split at h
  case h_1 hmode =>
    exact hstep hmode nofun h (openExecutable_move (congrArg Mode.activity hmode))
  case h_2 hmode =>
    exact hstep hmode nofun h (myStartProcess_move (congrArg Mode.activity hmode))
  case h_3 hmode =>
    exact hstep hmode nofun h (.inr (loadPages_move (congrArg Mode.activity hmode)))
  case h_4 hmode =>
    exact hstep hmode nofun h (.inr (loadEmpty_move (congrArg Mode.activity hmode)))
  case h_5 hmode => exact hsettle hmode rfl h (view_goto k t _) (.inl rfl)
  case h_6 hmode => exact userStep_view hth hmode hd h
  case h_7 hmode => exact hsettle hmode rfl h (view_execUpdate k t _) (.inr rfl)
  case h_8 hmode => exact hsettle hmode rfl h (view_execOpen k t _ _) (.inr rfl)
  case h_9 hmode =>
    exact hstep hmode nofun h (execSlot_move _ _ (congrArg Mode.activity hmode))
  case h_10 hmode => exact hstep hmode nofun h (execFork_move _ hmode)
  case h_11 hmode => exact hstep hmode nofun h (execUnlock_move (congrArg Mode.activity hmode))
  case h_12 hmode =>
    refine hsettle hmode rfl h ?_ (.inr rfl)
    simp [execDone, Mode.activity]
  case h_13 hmode => exact hstep hmode nofun h (joinWait_move hmode)
  case h_14 hmode => exact hstep hmode nofun h (joinCode_move hmode)
  case h_15 hmode => exact hstep hmode nofun h (exitRelease_move hmode)
  case h_16 hmode => exact hstep hmode nofun h (exitWait_move hmode)
  case h_17 hmode =>
    refine hstep hmode nofun h (.inr ?_)
    rw [view_removeSelf]
    exact .exitRemove _ (congrArg Mode.activity hmode)
  case h_18 hmode => exact hsettle hmode rfl h (view_goto k t _) (.inl rfl)
  case h_19 => cases h

/-- A step is the step of a thread that exists and is awake. -/
theorem step_eq_some {label : Tid × Input} (h : k.step label = some k') :
    ∃ th, k.threads label.1 = some th ∧ k.status = .running ∧ th.asleep = false ∧
      k.modeStep label.1 th label.2 = some k' := by
  unfold step at h
  split at h
  case isFalse => cases h
  case isTrue hstatus =>
    cases hth : k.threads label.1 with
    | none =>
        rw [hth] at h
        cases h
    | some th =>
        rw [hth] at h
        dsimp only at h
        split at h
        · cases h
        · exact ⟨th, rfl, hstatus, by simpa using ‹¬ th.asleep = true›, h⟩

/-- The kernel refines the abstract machine: every disciplined step is one of its steps. -/
theorem step_view {label : Tid × Input} (h : k.step label = some k')
    (hd : Disciplined k label) : k.view.Step label.1 label.2 k'.view := by
  obtain ⟨th, hth, -, -, hmode⟩ := step_eq_some h
  exact modeStep_view hth (fun hexited => hd (by simp [hth, hexited])) hmode

end Kernel

end Nachos
