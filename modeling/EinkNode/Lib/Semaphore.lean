import Mathlib.Tactic.Common
/-!
# A binary semaphore

A kernel semaphore with limit 1, and the one thread that may wait on it. A give
goes to the thread if it waits; a reset takes the token and makes a waiting
thread return an error.
-/

namespace NodeLib

/-- The thread in `k_sem_take`: not there, waiting, or about to return. -/
inductive Waiter where
  | none | pended | woken | aborted
deriving DecidableEq

structure Sem where
  count : Bool
  waiter : Waiter
deriving DecidableEq

namespace Sem

def k_sem_init (count : Bool) : Sem := ⟨count, .none⟩

def k_sem_take (s : Sem) : Sem := ⟨false, if s.count then .woken else .pended⟩

def k_sem_give (s : Sem) : Sem :=
  if s.waiter = .pended then { s with waiter := .woken } else { s with count := true }

def k_sem_reset (s : Sem) : Sem := ⟨false, if s.waiter = .pended then .aborted else s.waiter⟩

/-- `k_sem_take` has returned. -/
def returned (s : Sem) : Sem := { s with waiter := .none }

/-- A take succeeds now, or has succeeded. -/
def Signalled (s : Sem) : Prop := s.count = true ∨ s.waiter = .woken

variable {s : Sem}

theorem not_signalled_reset (h : s.waiter = .none) : ¬ s.k_sem_reset.Signalled := by
  simp [Signalled, k_sem_reset, h]

/-- A reset signals nobody. -/
theorem signalled_of_reset (h : s.k_sem_reset.Signalled) : s.Signalled := by
  rcases h with h | h
  · cases h
  · right
    simp only [k_sem_reset] at h
    split at h
    · cases h
    · exact h

theorem signalled_of_take (h : s.k_sem_take.Signalled) : s.Signalled := by
  rcases h with h | h
  · cases h
  · left
    simp only [k_sem_take] at h
    split at h
    · next hc => exact hc
    · cases h

end Sem

end NodeLib
