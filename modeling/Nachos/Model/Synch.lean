import Mathlib.Tactic

/-! # Semaphores and locks (`threads/synch.cc`)

`P`, `V`, `Acquire` and `Release` run with interrupts off, so each call is atomic up to
the point where it puts the calling thread to sleep. A waiting thread is named by its
number; `scheduler->ReadyToRun` is applied by the caller to the thread returned here. -/

namespace Nachos

/-- Threads are numbered in the order in which they are created. -/
abbrev Tid := ℕ

structure Semaphore where
  /-- an `int` in the source, never negative: `P` takes a token only when there is one -/
  value : ℕ
  queue : List Tid
deriving DecidableEq, Repr

namespace Semaphore

def create (initialValue : ℕ) : Semaphore :=
  ⟨initialValue, []⟩

/-- One evaluation of the loop test of `P` by `currentThread`: with no token the thread
is queued and sleeps (`false`), otherwise it takes a token and `P` returns (`true`). -/
def p (s : Semaphore) (currentThread : Tid) : Semaphore × Bool :=
  if s.value = 0 then ({ s with queue := s.queue ++ [currentThread] }, false)
  else ({ s with value := s.value - 1 }, true)

/-- `V` removes the first waiting thread, if any, and adds a token. -/
def v (s : Semaphore) : Semaphore × Option Tid :=
  match s.queue with
  | [] => ({ s with value := s.value + 1 }, none)
  | thread :: queue => (⟨s.value + 1, queue⟩, some thread)

end Semaphore

inductive LockStat
  | free
  | busy
deriving DecidableEq, Repr

structure Lock where
  stat : LockStat
  ownerThread : Option Tid
  queue : List Tid
deriving DecidableEq, Repr

namespace Lock

def create : Lock :=
  ⟨.free, none, []⟩

def isHeldByCurrentThread (l : Lock) (currentThread : Tid) : Prop :=
  l.ownerThread = some currentThread

instance (l : Lock) (t : Tid) : Decidable (l.isHeldByCurrentThread t) :=
  inferInstanceAs (Decidable (_ = _))

/-- `false` means that the caller was queued and sleeps; it does not test again after it
has been woken. -/
def acquire (l : Lock) (currentThread : Tid) : Lock × Bool :=
  if l.isHeldByCurrentThread currentThread then (l, true)
  else if l.stat = .free then
    ({ l with stat := .busy, ownerThread := some currentThread }, true)
  else ({ l with queue := l.queue ++ [currentThread] }, false)

/-- `Release` by a thread that does not own the lock changes nothing; otherwise the lock
goes to the first waiting thread, which is made ready. -/
def release (l : Lock) (currentThread : Tid) : Lock × Option Tid :=
  if ¬ l.isHeldByCurrentThread currentThread then (l, none)
  else match l.queue with
    | thread :: queue => ({ l with queue := queue, ownerThread := some thread }, some thread)
    | [] => ({ l with stat := .free, ownerThread := none }, none)

end Lock

end Nachos
