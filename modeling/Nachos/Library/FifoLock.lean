import Mathlib.Tactic

/-! # An abstract lock with direct hand-off

The parties that have asked for the lock stand in a list, its owner first. -/

structure FifoLock (τ : Type*) where
  parties : List τ
  /-- the calls that asked for the lock, in their order -/
  requests : List τ
  /-- the parties that became owner, in their order -/
  grants : List τ

namespace FifoLock

variable {τ : Type*}

def create : FifoLock τ :=
  ⟨[], [], []⟩

def owner (l : FifoLock τ) : Option τ :=
  l.parties.head?

def waiting (l : FifoLock τ) : List τ :=
  l.parties.tail

/-- Ownership has been granted in the order of the requests, and those that wait are the
requests that are left. -/
def Served (l : FifoLock τ) : Prop :=
  l.requests = l.grants ++ l.waiting

theorem served_create : Served (create : FifoLock τ) := rfl

theorem owner_not_waiting {l : FifoLock τ} {t : τ} (h : l.parties.Nodup)
    (howner : l.owner = some t) : t ∉ l.waiting := by
  unfold owner at howner
  unfold waiting
  cases hparties : l.parties with
  | nil =>
      rw [hparties] at howner
      cases howner
  | cons o rest =>
      rw [hparties] at h howner
      cases howner
      exact (List.nodup_cons.mp h).1

/-- A party that does not wait is the owner. -/
theorem owner_of_mem {l : FifoLock τ} {t : τ} (h : t ∈ l.parties) (hwaiting : t ∉ l.waiting) :
    l.owner = some t := by
  unfold waiting at hwaiting
  unfold owner
  cases hparties : l.parties with
  | nil =>
      rw [hparties] at h
      cases h
  | cons o rest =>
      rw [hparties] at h hwaiting
      rcases List.mem_cons.mp h with rfl | hmem
      · rfl
      · exact absurd hmem hwaiting

variable [DecidableEq τ]

/-- A call by the owner changes nothing; any other party stands behind the others. -/
def acquire (l : FifoLock τ) (t : τ) : FifoLock τ :=
  if l.owner = some t then l
  else ⟨l.parties ++ [t], l.requests ++ [t],
    if l.parties = [] then l.grants ++ [t] else l.grants⟩

/-- The owner leaves and the next party becomes owner; a call by another party changes
nothing. -/
def release (l : FifoLock τ) (t : τ) : FifoLock τ :=
  if l.owner = some t then { l with
    parties := l.waiting
    grants := l.grants ++ l.waiting.head?.toList }
  else l

theorem acquire_of_owner {l : FifoLock τ} {t : τ} (h : l.owner = some t) : l.acquire t = l :=
  if_pos h

theorem acquire_of_other {l : FifoLock τ} {t : τ} (h : l.owner ≠ some t) :
    l.acquire t = ⟨l.parties ++ [t], l.requests ++ [t],
      if l.parties = [] then l.grants ++ [t] else l.grants⟩ :=
  if_neg h

theorem release_of_owner {l : FifoLock τ} {t : τ} (h : l.owner = some t) :
    l.release t = { l with
      parties := l.waiting
      grants := l.grants ++ l.waiting.head?.toList } :=
  if_pos h

theorem release_of_other {l : FifoLock τ} {t : τ} (h : l.owner ≠ some t) : l.release t = l :=
  if_neg h

theorem Served.acquire {l : FifoLock τ} (h : l.Served) (t : τ) : (l.acquire t).Served := by
  by_cases howner : l.owner = some t
  · rw [acquire_of_owner howner]
    exact h
  · rw [acquire_of_other howner]
    have hrequests : l.requests = l.grants ++ l.parties.tail := h
    cases hparties : l.parties with
    | nil => simp [Served, waiting, hrequests, hparties]
    | cons o waiting => simp [Served, FifoLock.waiting, hrequests, hparties]

theorem Served.release {l : FifoLock τ} (h : l.Served) (t : τ) : (l.release t).Served := by
  by_cases howner : l.owner = some t
  · rw [release_of_owner howner]
    have hrequests : l.requests = l.grants ++ l.parties.tail := h
    cases hwaiting : l.parties.tail with
    | nil => simp [Served, waiting, hrequests, hwaiting]
    | cons u waiting => simp [Served, FifoLock.waiting, hrequests, hwaiting]
  · rw [release_of_other howner]
    exact h

end FifoLock
