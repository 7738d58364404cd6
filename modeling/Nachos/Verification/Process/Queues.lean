import Nachos.Library.Exclusion
import Nachos.Verification.Process.Ownership

/-! # Who waits where

A blocked thread stands in the queue of the semaphore or lock inside whose `P` or `Acquire`
it is, once, and in no other queue. A step puts its own thread to sleep, or wakes the first
thread of one queue. -/

namespace Nachos

open Runs

inductive PCBSem
  | joinsem
  | exitsem
  | mutex
deriving DecidableEq

def PCB.sem (p : PCB) : PCBSem → Semaphore
  | .joinsem => p.joinsem
  | .exitsem => p.exitsem
  | .mutex => p.mutex

inductive WaitQueue
  | bmsem
  | addrLock
  | pcb (a : Addr) (w : PCBSem)
deriving DecidableEq

/-- The queue in which a thread that is blocked in this mode stands. -/
def Mode.waitQueue : Mode → Option WaitQueue
  | .execWait _ => some .bmsem
  | .loading _ => some .addrLock
  | .joinWait _ a => some (.pcb a .joinsem)
  | .exitWait _ a _ => some (.pcb a .exitsem)
  | _ => none

def Thread.sleepsIn (th : Thread) : Option WaitQueue :=
  if th.asleep then th.mode.waitQueue else none

theorem Semaphore.v_eq (s : Semaphore) :
    s.v = (⟨s.value + 1, s.queue.tail⟩, s.queue.head?) := by
  unfold v
  cases s.queue <;> rfl

theorem Lock.release_eq {l : Lock} {t : Tid} (h : l.isHeldByCurrentThread t) :
    (l.release t).1.queue = l.queue.tail ∧ (l.release t).2 = l.queue.head? := by
  unfold release
  rw [if_neg (not_not.mpr h)]
  cases l.queue with
  | nil => exact ⟨rfl, rfl⟩
  | cons u queue => exact ⟨rfl, rfl⟩

namespace Kernel

def queue (k : Kernel) : WaitQueue → List Tid
  | .bmsem => k.bmsem.queue
  | .addrLock => k.addrLock.queue
  | .pcb a w => (k.heap a).elim [] fun p => (p.sem w).queue

/-- The value of a semaphore of the PCB at `a`. -/
def tokens (k : Kernel) (a : Addr) (w : PCBSem) : ℕ :=
  (k.heap a).elim 0 fun p => (p.sem w).value

def Orderly (k : Kernel) : Prop :=
  Exclusion.Orderly (fun th : Option Thread => th.bind Thread.sleepsIn) k.queue k.threads

/-- What a step of thread `t` does to the queues and to the other threads. A queue can go with
its PCB, a thread can be new, and a `V` that wakes a thread adds a token. -/
inductive QueueStep (k : Kernel) (t : Tid) (k' : Kernel) : Prop
  | quiet (queues : ∀ c, k'.queue c = k.queue c ∨ ∃ a w, c = .pcb a w ∧ k'.heap a = none)
      (threads : ∀ u, u ≠ t → k.threads u ≠ none → k'.threads u = k.threads u)
  | sleeps (c th) (waits : th.sleepsIn = some c)
      (queues : k'.queue = Function.update k.queue c (k.queue c ++ [t]))
      (threads : k'.threads = Function.update k.threads t (some th))
  | wakes (c u rest) (queue : k.queue c = u :: rest)
      (queues : k'.queue = Function.update k.queue c rest)
      (tokens : ∀ a w, c = .pcb a w → k'.tokens a w = k.tokens a w + 1)
      (threads : ∀ v, v ≠ t → k'.threads v = Function.update k.threads u
        ((k.threads u).map fun th => { th with asleep := false }) v)

variable {k k' : Kernel} {t : Tid} {th : Thread} {a : Addr} {p p' : PCB} {w : PCBSem}
  {c : WaitQueue}

/-! ## The queues after an operation -/

@[simp] theorem queue_wake (u : Option Tid) : (k.wake u).queue = k.queue := by
  cases u <;> rfl

@[simp] theorem queue_goto (mode : Mode) : (k.goto t mode).queue = k.queue :=
  rfl

theorem tokens_goto (mode : Mode) : (k.goto t mode).tokens a w = k.tokens a w :=
  rfl

theorem tokens_wake (u : Option Tid) : (k.wake u).tokens a w = k.tokens a w := by
  cases u <;> rfl

theorem queue_bmsem (sem : Semaphore) :
    { k with bmsem := sem }.queue = Function.update k.queue .bmsem sem.queue := by
  funext c
  cases c <;> rfl

theorem queue_addrLock (lock : Lock) :
    { k with addrLock := lock }.queue = Function.update k.queue .addrLock lock.queue := by
  funext c
  cases c <;> rfl

theorem queue_releaseLock (k : Kernel) (t : Tid) :
    (k.releaseLock t).queue =
      Function.update k.queue .addrLock (k.addrLock.release t).1.queue := by
  rw [releaseLock, queue_wake, queue_addrLock]

theorem queue_of_heap (h : k.heap a = some p) (w : PCBSem) :
    k.queue (.pcb a w) = (p.sem w).queue := by
  simp [queue, h]

/-- One semaphore of a PCB changes. -/
theorem queue_putPCB (h : k.heap a = some p)
    (hother : ∀ w', w' ≠ w → (p'.sem w').queue = (p.sem w').queue) :
    (k.putPCB a p').queue = Function.update k.queue (.pcb a w) (p'.sem w).queue := by
  funext c
  cases c with
  | bmsem => rfl
  | addrLock => rfl
  | pcb b w' =>
      by_cases hb : b = a
      · subst hb
        by_cases hw : w' = w
        · subst hw
          rw [Function.update_self, queue_of_heap (Function.update_self ..)]
        · rw [Function.update_of_ne (by simp [hw]), queue_of_heap (Function.update_self ..),
            queue_of_heap h, hother w' hw]
      · rw [Function.update_of_ne (by simp [hb])]
        simp [queue, putPCB, hb]

/-- No queue of the PCB changes. -/
theorem queue_putPCB_same (h : k.heap a = some p)
    (hsame : ∀ w, (p'.sem w).queue = (p.sem w).queue) : (k.putPCB a p').queue = k.queue := by
  rw [queue_putPCB (w := .mutex) h fun w _ => hsame w, hsame, ← queue_of_heap h,
    Function.update_eq_self]

theorem threads_goto_of_ne {u : Tid} (hu : u ≠ t) (mode : Mode) :
    (k.goto t mode).threads u = k.threads u :=
  Function.update_of_ne hu _ _

theorem threads_setSpace_of_ne {u : Tid} (hu : u ≠ t) (space : Space) :
    (k.setSpace t space).threads u = k.threads u :=
  Function.update_of_ne hu _ _

/-! ## The kinds of steps -/

namespace QueueStep

variable {k₁ : Kernel} {mode : Mode}

theorem of_same (hqueue : k'.queue = k.queue)
    (hthreads : ∀ u, u ≠ t → k'.threads u = k.threads u) : QueueStep k t k' :=
  .quiet (fun c => .inl (congrFun hqueue c)) fun u hu _ => hthreads u hu

theorem of_stop {status : Status} : QueueStep k t (k.stop status) :=
  of_same rfl fun _ _ => rfl

theorem of_goto (hqueue : k₁.queue = k.queue) (hthreads : k₁.threads = k.threads) :
    QueueStep k t (k₁.goto t mode) := by
  refine of_same hqueue fun u hu => ?_
  rw [threads_goto_of_ne hu, hthreads]

theorem of_sleep (hth : k.threads t = some th) (hmode : mode.waitQueue = some c)
    (hqueues : k₁.queue = Function.update k.queue c (k.queue c ++ [t]))
    (hthreads : k₁.threads = k.threads) : QueueStep k t (k₁.sleep t mode) := by
  refine .sleeps c { th with mode := mode, asleep := true } hmode hqueues ?_
  simp only [Kernel.sleep, modifyThread, hthreads, hth, Option.map_some]

/-- A `V` or a `Release`, behind which `t` goes on. -/
theorem of_wake (hqueue : k'.queue = Function.update k.queue c (k.queue c).tail)
    (htokens : ∀ a w, c = .pcb a w → k'.tokens a w = k.tokens a w + 1)
    (hthreads : ∀ u, u ≠ t → k'.threads u = (k.wake (k.queue c).head?).threads u) :
    QueueStep k t k' := by
  cases hc : k.queue c with
  | nil =>
      rw [hc] at hqueue hthreads
      refine of_same ?_ hthreads
      rw [hqueue, List.tail_nil, ← hc, Function.update_eq_self]
  | cons v rest =>
      rw [hc] at hqueue hthreads
      exact .wakes c v rest hc hqueue htokens hthreads

end QueueStep

open QueueStep

theorem threads_wake {k₁ : Kernel} {u : Option Tid} {v : Tid} (hthreads : k₁.threads = k.threads) :
    (k₁.wake u).threads v = (k.wake u).threads v := by
  cases u with
  | none => exact congrFun hthreads v
  | some u => simp only [wake, modifyThread, hthreads]

theorem queueStep_bmsemV (mode : Mode) : QueueStep k t (k.bmsemV.goto t mode) := by
  unfold bmsemV
  rw [Semaphore.v_eq]
  refine of_wake (c := .bmsem) ((queue_wake _).trans (queue_bmsem _)) ?_ fun u hu => ?_
  · intro a w h
    cases h
  · rw [threads_goto_of_ne hu]
    exact threads_wake rfl

/-- A `P` on a semaphore of the PCB at `a` that finds no token. -/
theorem queueStep_semP (hth : k.threads t = some th) (hheap : k.heap a = some p) {mode : Mode}
    (hmode : mode.waitQueue = some (.pcb a w))
    (hqueue : (p'.sem w).queue = (p.sem w).queue ++ [t])
    (hother : ∀ w', w' ≠ w → (p'.sem w').queue = (p.sem w').queue) :
    QueueStep k t ((k.putPCB a p').sleep t mode) := by
  refine of_sleep hth hmode ?_ rfl
  rw [queue_putPCB hheap hother, hqueue, queue_of_heap hheap]

/-- A `V` on a semaphore of the PCB at `a`. -/
theorem queueStep_semV (hheap : k.heap a = some p) (hsem : p'.sem w = (p.sem w).v.1)
    (hother : ∀ w', w' ≠ w → (p'.sem w').queue = (p.sem w').queue) (mode : Mode) :
    QueueStep k t (((k.putPCB a p').wake (p.sem w).v.2).goto t mode) := by
  rw [Semaphore.v_eq] at hsem ⊢
  refine of_wake (c := .pcb a w) ?_ ?_ fun u hu => ?_
  · rw [queue_goto, queue_wake, queue_putPCB hheap hother, hsem, queue_of_heap hheap]
  · rintro b w' ⟨⟩
    rw [tokens_goto, tokens_wake]
    simp [tokens, putPCB, hheap, hsem]
  · rw [threads_goto_of_ne hu, queue_of_heap hheap]
    exact threads_wake rfl

/-- `addrLock->Release()`, behind which `t` goes on. -/
theorem queueStep_releaseLock (hqueue : k'.queue = (k.releaseLock t).queue)
    (hthreads : ∀ u, u ≠ t → k'.threads u = (k.releaseLock t).threads u) :
    QueueStep k t k' := by
  by_cases hheld : k.addrLock.isHeldByCurrentThread t
  · obtain ⟨hrest, hfirst⟩ := Lock.release_eq hheld
    refine of_wake (c := .addrLock) ?_ ?_ fun u hu => ?_
    · rw [hqueue, queue_releaseLock, hrest]
      rfl
    · intro a w h
      cases h
    · rw [hthreads u hu, releaseLock, hfirst]
      exact threads_wake rfl
  · have hsame : k.addrLock.release t = (k.addrLock, none) := if_pos hheld
    refine of_same ?_ fun u hu => ?_
    · rw [hqueue, releaseLock, hsame]
      rfl
    · rw [hthreads u hu, releaseLock, hsame]
      rfl

/-! ## Every step -/

theorem execUpdate_queueStep (hth : k.threads t = some th) (filename : List Byte) :
    QueueStep k t (k.execUpdate t filename) := by
  unfold execUpdate Semaphore.p
  by_cases hzero : k.bmsem.value = 0
  · simp only [if_pos hzero]
    exact of_sleep (c := .bmsem) hth rfl (queue_bmsem _) rfl
  · simp only [if_neg hzero]
    exact of_goto ((queue_bmsem _).trans (Function.update_eq_self _ _)) rfl

/-- A new PCB brings no threads with it. -/
theorem execSlot_queueStep (hfresh : k.heap k.nextAddr = none) (filename : List Byte)
    (same : Bool) : QueueStep k t (k.execSlot t th filename same) := by
  unfold execSlot
  cases same with
  | true => exact queueStep_bmsemV _
  | false =>
      have hspec := k.bm.find_spec
      generalize k.bm.find = r at hspec ⊢
      cases hspec with
      | full hfull => exact queueStep_bmsemV _
      | found j hclear hleast =>
          have hne : (j.val : ℤ) ≠ -1 := by omega
          simp only [Bool.false_eq_true, if_false, hne, BitMap.index?_coe]
          cases hname : (PCB.create j t th.processID).setFileName filename with
          | none => exact of_stop
          | some p =>
              rw [PCB.eq_of_setFileName hname]
              refine of_goto ?_ rfl
              funext c
              cases c with
              | bmsem => rfl
              | addrLock => rfl
              | pcb a w =>
                  by_cases ha : a = k.nextAddr
                  · subst ha
                    cases w <;> simp [queue, hfresh, PCB.sem, PCB.create, Semaphore.create,
                      Semaphore.p]
                  · simp [queue, ha]

theorem execFork_queueStep (hfresh : k.threads k.nextTid = none) (id : ℕ) (ok : Bool) :
    QueueStep k t (k.execFork t id a ok) := by
  unfold execFork
  cases hheap : k.heap a with
  | none => exact of_stop
  | some p =>
      cases ok with
      | true =>
          simp only [if_true]
          refine .quiet (fun c => .inl ?_) fun u hu hold => ?_
          · exact congrFun (queue_putPCB_same hheap fun w => by cases w <;> rfl) c
          · have hne : u ≠ k.nextTid := by
              rintro rfl
              exact hold hfresh
            rw [threads_goto_of_ne hu]
            exact Function.update_of_ne hne _ _
      | false =>
          simp only [Bool.false_eq_true, if_false]
          exact queueStep_semV (w := .mutex) hheap rfl
            (fun w hw => by cases w <;> first | rfl | exact absurd rfl hw) _

theorem execUnlock_queueStep (id : ℕ) : QueueStep k t (k.execUnlock t id a) := by
  unfold execUnlock
  cases hheap : k.heap a with
  | none => exact of_stop
  | some p =>
      exact queueStep_semV (w := .mutex) hheap rfl
        (fun w hw => by cases w <;> first | rfl | exact absurd rfl hw) _

/-- One test of `joinsem->P()`, with a PCB whose semaphores are those in `heap`. -/
theorem joinSemP_queueStep (hth : k.threads t = some th) (hheap : k.heap a = some p)
    (hsame : ∀ w, p'.sem w = p.sem w) (pID : ℕ) : QueueStep k t (k.joinSemP t pID a p') := by
  have hjoinsem : p'.joinsem = p.joinsem := hsame .joinsem
  unfold joinSemP Semaphore.p
  by_cases hzero : p'.joinsem.value = 0
  · simp only [if_pos hzero]
    refine queueStep_semP (w := .joinsem) hth hheap rfl ?_ fun w hw => ?_
    · exact congrArg (fun s : Semaphore => s.queue ++ [t]) hjoinsem
    · rw [← hsame w]
      cases w <;> first | rfl | exact absurd rfl hw
  · simp only [if_neg hzero]
    refine of_goto (queue_putPCB_same hheap fun w => ?_) rfl
    rw [← hsame w]
    cases w <;> rfl

theorem exitSemP_queueStep (hth : k.threads t = some th) (hheap : k.heap a = some p) (pID : ℕ)
    (ec : ℤ) : QueueStep k t (k.exitSemP t pID ec a p) := by
  unfold exitSemP Semaphore.p
  by_cases hzero : p.exitsem.value = 0
  · simp only [if_pos hzero]
    exact queueStep_semP (w := .exitsem) hth hheap rfl rfl
      fun w hw => by cases w <;> first | rfl | exact absurd rfl hw
  · simp only [if_neg hzero]
    exact of_goto (queue_putPCB_same hheap fun w => by cases w <;> rfl) rfl

theorem joinUpdate_queueStep (hth : k.threads t = some th) (pID : ℤ) :
    QueueStep k t (k.joinUpdate t th pID) := by
  unfold joinUpdate
  split
  · exact of_goto rfl rfl
  · cases k.pcb pID.toNat with
    | none => exact of_goto rfl rfl
    | some a =>
        dsimp only
        cases hheap : k.heap a with
        | none => exact of_stop
        | some p =>
            dsimp only
            split
            · exact of_goto rfl rfl
            · exact joinSemP_queueStep hth hheap (fun w => by cases w <;> rfl) _

theorem joinWait_queueStep (hth : k.threads t = some th) (pID : ℕ) :
    QueueStep k t (k.joinWait t pID a) := by
  unfold joinWait
  cases hheap : k.heap a with
  | none => exact of_stop
  | some p => exact joinSemP_queueStep hth hheap (fun _ => rfl) pID

theorem joinCode_queueStep (pID : ℕ) : QueueStep k t (k.joinCode t pID) := by
  unfold joinCode
  cases hderef : k.deref pID with
  | none => exact of_stop
  | some r =>
      obtain ⟨a, p⟩ := r
      dsimp only
      split
      · exact of_goto rfl rfl
      · exact queueStep_semV (w := .exitsem) (deref_eq_some.mp hderef).2 rfl
          (fun w hw => by cases w <;> first | rfl | exact absurd rfl hw) _

/-- The queues of a deleted PCB go with it. -/
theorem removeSelf_queueStep {k₁ : Kernel} (hqueue : k₁.queue = k.queue)
    (hthreads : k₁.threads = k.threads) (pID : ℕ) : QueueStep k t (k₁.removeSelf t pID) := by
  have hremove : (k₁.remove pID).threads = k.threads ∧ ∀ c, (k₁.remove pID).queue c = k.queue c ∨
      ∃ a w, c = .pcb a w ∧ (k₁.remove pID).heap a = none := by
    unfold remove
    split
    · split
      · dsimp only
        split
        · exact ⟨hthreads, fun c => .inl (congrFun hqueue c)⟩
        · rename_i a _
          split
          · exact ⟨hthreads, fun c => .inl (congrFun hqueue c)⟩
          · refine ⟨hthreads, fun c => ?_⟩
            cases c with
            | bmsem => exact .inl (congrFun hqueue .bmsem)
            | addrLock => exact .inl (congrFun hqueue .addrLock)
            | pcb b w =>
                by_cases hb : b = a
                · subst hb
                  exact .inr ⟨b, w, rfl, Function.update_self ..⟩
                · refine .inl ((?_ : _ = k₁.queue (.pcb b w)).trans (congrFun hqueue _))
                  simp [queue, hb]
      · exact ⟨hthreads, fun c => .inl (congrFun hqueue c)⟩
    · exact ⟨hthreads, fun c => .inl (congrFun hqueue c)⟩
  refine .quiet hremove.2 fun u hu _ => ?_
  rw [← hremove.1]
  exact Function.update_of_ne hu _ _

theorem exitUpdate_queueStep (ec : ℤ) : QueueStep k t (k.exitUpdate t th ec) := by
  unfold exitUpdate
  split
  · exact of_goto rfl rfl
  · split
    · exact of_stop
    · cases hderef : k.deref th.processID with
      | none => exact of_stop
      | some r =>
          obtain ⟨a, p⟩ := r
          have hheap := (deref_eq_some.mp hderef).2
          dsimp only
          split
          · exact queueStep_semV (w := .joinsem) hheap rfl
              (fun w hw => by cases w <;> first | rfl | exact absurd rfl hw) _
          · exact removeSelf_queueStep
              (queue_putPCB_same hheap fun w => by cases w <;> rfl) rfl _

theorem exitRelease_queueStep (hth : k.threads t = some th) (pID : ℕ) (ec : ℤ) :
    QueueStep k t (k.exitRelease t pID ec) := by
  unfold exitRelease
  cases hderef : k.deref pID with
  | none => exact of_stop
  | some r => exact exitSemP_queueStep hth (deref_eq_some.mp hderef).2 pID ec

theorem exitWait_queueStep (hth : k.threads t = some th) (pID : ℕ) (ec : ℤ) :
    QueueStep k t (k.exitWait t pID a ec) := by
  unfold exitWait
  cases hheap : k.heap a with
  | none => exact of_stop
  | some p => exact exitSemP_queueStep hth hheap pID ec

theorem openExecutable_queueStep (hth : k.threads t = some th) (file : Option NoffHeader) :
    QueueStep k t (k.openExecutable t file) := by
  unfold openExecutable Lock.acquire
  cases file with
  | none =>
      refine of_same rfl fun u hu => ?_
      rw [threads_goto_of_ne hu, threads_setSpace_of_ne hu]
  | some noffH =>
      dsimp only
      split
      · exact of_stop
      · by_cases hheld : k.addrLock.isHeldByCurrentThread t
        · simp only [if_pos hheld]
          exact of_goto rfl rfl
        · by_cases hfree : k.addrLock.stat = .free
          · simp only [if_neg hheld, if_pos hfree]
            exact of_goto ((queue_addrLock _).trans (Function.update_eq_self _ _)) rfl
          · simp only [if_neg hheld, if_neg hfree]
            exact of_sleep (c := .addrLock) hth rfl (queue_addrLock _) rfl

theorem myStartProcess_queueStep (hth : k.threads t = some th) (file : Option NoffHeader) :
    QueueStep k t (k.myStartProcess t th file) := by
  unfold myStartProcess
  split
  · cases k.deref th.processID with
    | none => exact of_stop
    | some r => exact openExecutable_queueStep hth file
  · exact of_stop

theorem loadPages_queueStep (noffH : NoffHeader) : QueueStep k t (k.loadPages t noffH) := by
  unfold loadPages
  split
  · exact queueStep_releaseLock rfl fun u hu => threads_goto_of_ne hu _
  · obtain ⟨frames, b⟩ := AddrSpace.allocate noffH.numPages k.gPhysPageBitMap
    refine queueStep_releaseLock ?_ fun u hu => ?_
    · exact (queue_releaseLock _ t).trans (queue_releaseLock k t).symm
    · rw [threads_goto_of_ne hu, threads_setSpace_of_ne hu]
      exact threads_wake rfl

theorem loadEmpty_queueStep : QueueStep k t (k.loadEmpty t) := by
  unfold loadEmpty
  refine queueStep_releaseLock rfl fun u hu => ?_
  rw [threads_goto_of_ne hu, threads_setSpace_of_ne hu]

/-- What a step of the kernel does to the queues. -/
theorem step_queueStep {label : Tid × Input} (hstep : k.step label = some k')
    (hown : k.view.Own) : QueueStep k label.1 k' := by
  obtain ⟨t, i⟩ := label
  obtain ⟨th, hth, -, -, hmode⟩ := step_eq_some hstep
  have hheap : k.heap k.nextAddr = none := by
    by_contra hsome
    obtain ⟨e, he⟩ := Option.ne_none_iff_exists'.mp hsome
    exact absurd (hown.addr _ _ (entries_of_heap he)) (lt_irrefl _)
  have hthreads : k.threads k.nextTid = none := by
    by_contra hsome
    obtain ⟨u, hu⟩ := Option.ne_none_iff_exists'.mp hsome
    exact absurd (hown.tid _ _ (procs_of_threads hu)) (lt_irrefl _)
  have hsome {k₁ : Kernel} (hspec : QueueStep k t k₁) (h : some k₁ = some k') :
      QueueStep k t k' := by
    cases h
    exact hspec
  unfold modeStep at hmode
  split at hmode
  case h_1 => exact hsome (openExecutable_queueStep hth _) hmode
  case h_2 => exact hsome (myStartProcess_queueStep hth _) hmode
  case h_3 => exact hsome (loadPages_queueStep _) hmode
  case h_4 => exact hsome loadEmpty_queueStep hmode
  case h_5 => exact hsome (of_goto rfl rfl) hmode
  case h_6 =>
    unfold userStep at hmode
    split at hmode
    · exact hsome of_stop hmode
    · exact hsome of_stop hmode
    · split at hmode
      · exact hsome of_stop hmode
      · split at hmode
        · exact hsome (of_same rfl fun _ _ => rfl) hmode
        · exact hsome of_stop hmode
        · exact hsome (execUpdate_queueStep hth _) hmode
        · exact hsome (joinUpdate_queueStep hth _) hmode
        · exact hsome (exitUpdate_queueStep _) hmode
        · cases hmode
  case h_7 => exact hsome (execUpdate_queueStep hth _) hmode
  case h_8 ok _ _ =>
    refine hsome ?_ hmode
    cases ok with
    | true => exact of_goto rfl rfl
    | false => exact queueStep_bmsemV _
  case h_9 => exact hsome (execSlot_queueStep hheap _ _) hmode
  case h_10 => exact hsome (execFork_queueStep hthreads _ _) hmode
  case h_11 => exact hsome (execUnlock_queueStep _) hmode
  case h_12 => exact hsome (queueStep_bmsemV _) hmode
  case h_13 => exact hsome (joinWait_queueStep hth _) hmode
  case h_14 => exact hsome (joinCode_queueStep _) hmode
  case h_15 => exact hsome (exitRelease_queueStep hth _ _) hmode
  case h_16 => exact hsome (exitWait_queueStep hth _ _) hmode
  case h_17 => exact hsome (removeSelf_queueStep rfl rfl _) hmode
  case h_18 => exact hsome (of_goto rfl rfl) hmode
  case h_19 => cases hmode

/-! ## The invariant -/

theorem queue_of_deleted (h : k.heap a = none) (w : PCBSem) : k.queue (.pcb a w) = [] := by
  simp [queue, h]

theorem QueueStep.orderly (h : k.Orderly) (hth : k.threads t = some th)
    (hawake : th.asleep = false) (hstep : QueueStep k t k') : k'.Orderly := by
  have hplace : (k.threads t).bind Thread.sleepsIn = none := by
    simp [hth, Thread.sleepsIn, hawake]
  cases hstep with
  | quiet queues threads =>
      refine Exclusion.Orderly.congr h (fun c => (queues c).imp_right ?_) fun u hu => ?_
      · rintro ⟨a, w, rfl, hgone⟩
        exact queue_of_deleted hgone w
      · refine threads u ?_ ?_
        · rintro rfl
          exact hu hplace
        · intro hnone
          rw [hnone] at hu
          exact hu rfl
  | sleeps c th' waits queues threads =>
      unfold Orderly
      rw [queues, threads]
      exact Exclusion.Orderly.enqueue h hplace waits
  | wakes c u rest queue queues tokens threads =>
      unfold Orderly
      rw [queues]
      refine (Exclusion.Orderly.dequeue h queue
        ((k.threads u).map fun th => { th with asleep := false })).congr (fun _ => .inl rfl) ?_
      intro v hv
      refine threads v ?_
      rintro rfl
      by_cases hvu : v = u
      · subst hvu
        rw [Function.update_self, hth] at hv
        simp [Thread.sleepsIn] at hv
      · rw [Function.update_of_ne hvu] at hv
        exact hv hplace

theorem orderly_step {label : Tid × Input} (hstep : k.step label = some k') (hown : k.view.Own)
    (h : k.Orderly) : k'.Orderly := by
  obtain ⟨th, hth, -, hawake, -⟩ := step_eq_some hstep
  exact (step_queueStep hstep hown).orderly h hth hawake

theorem orderly_create (words : Vector (BitVec 32) (divRoundUp maxProcess bitsInWord))
    (frameWords : Vector (BitVec 32) (divRoundUp numPhysPages bitsInWord)) :
    (create words frameWords).Orderly := by
  intro c
  have hempty : (create words frameWords).queue c = [] := by
    cases c <;> rfl
  rw [hempty]
  exact .nil _

/-- In every run without calls by exited threads, a thread stands in a queue only while it
sleeps there. -/
theorem allStates_orderly {run : List (Tid × Input)} (h : k.view.Own ∧ k.Orderly)
    (hrun : AllSteps step Disciplined k run) :
    AllStates step (fun k => k.view.Own ∧ k.Orderly) k run := by
  refine allStates_of_allSteps ?_ h hrun
  intro k label k' hd hstep h
  exact ⟨h.1.step (step_view hstep hd), orderly_step hstep h.1 h.2⟩

end Kernel

end Nachos
