import Mathlib

/-! # The concurrency limit

The configured limit and the semaphore behind it: a count of free permits and the
queue of wakers. A waker is named by the task it wakes, so the queue is a list of
names in the order of registration.
-/

namespace ExecutionPolicy

inductive SaturationPolicy where
  | wait (maxQueued : Nat) (queueTimeout : Option Nat)
  | reject
deriving DecidableEq, Repr

/-- Whether the limit counts whole operations or individual attempts. -/
inductive Scope where
  | operations
  | attempts
deriving DecidableEq, Repr

structure ConcurrencyLimit where
  permits : Nat
  scope : Scope
  saturation : SaturationPolicy
  permits_pos : 1 ≤ permits
deriving DecidableEq

namespace ConcurrencyLimit

def usizeMax : Nat := 2 ^ 64 - 1

def new (permits : Nat) (scope : Scope) : ConcurrencyLimit where
  permits := max permits 1
  scope := scope
  saturation := .wait usizeMax none
  permits_pos := Nat.le_max_right permits 1

def operations (n : Nat) : ConcurrencyLimit := new n .operations

def attempts (n : Nat) : ConcurrencyLimit := new n .attempts

/-- Cap the number of waiting callers; no effect on a rejecting limit. -/
def maxQueued (c : ConcurrencyLimit) (n : Nat) : ConcurrencyLimit :=
  { c with saturation := match c.saturation with
      | .wait _ queueTimeout => .wait n queueTimeout
      | .reject => .reject }

/-- Maximum time a caller waits in the queue; no effect on a rejecting limit. -/
def queueTimeout (c : ConcurrencyLimit) (d : Nat) : ConcurrencyLimit :=
  { c with saturation := match c.saturation with
      | .wait maxQueued _ => .wait maxQueued (some d)
      | .reject => .reject }

def reject (c : ConcurrencyLimit) : ConcurrencyLimit := { c with saturation := .reject }

end ConcurrencyLimit

structure SemState where
  permits : Nat
  waiters : List Nat
deriving DecidableEq, Repr

namespace SemState

def new (permits : Nat) : SemState := { permits, waiters := [] }

/-- Number of callers currently queued: the length of the waker queue. -/
def queued (s : SemState) : Nat := s.waiters.length

/-- Try to take a permit without waiting; `none` when there is none. -/
def tryAcquire (s : SemState) : Option SemState :=
  if 0 < s.permits then some { s with permits := s.permits - 1 } else none

/-- `Acquire::poll` with waker `w`: whether a permit was taken. -/
def pollAcquire (s : SemState) (w : Nat) : Bool × SemState :=
  if 0 < s.permits then (true, { s with permits := s.permits - 1 })
  else (false, { s with waiters := s.waiters ++ [w] })

/-- `release`, run when a permit is dropped: the waker invoked, if any. -/
def release (s : SemState) : Option Nat × SemState :=
  match s.waiters with
  | [] => (none, { s with permits := s.permits + 1 })
  | w :: ws => (some w, { permits := s.permits + 1, waiters := ws })

theorem tryAcquire_eq_some {s s' : SemState} (h : s.tryAcquire = some s') :
    0 < s.permits ∧ s' = { s with permits := s.permits - 1 } := by
  unfold tryAcquire at h
  split at h
  next hpos => exact ⟨hpos, (Option.some.inj h).symm⟩
  next => cases h

theorem pollAcquire_of_pos {s : SemState} (h : 0 < s.permits) (w : Nat) :
    s.pollAcquire w = (true, { s with permits := s.permits - 1 }) := by
  simp [pollAcquire, h]

theorem pollAcquire_of_zero {s : SemState} (h : s.permits = 0) (w : Nat) :
    s.pollAcquire w = (false, { s with waiters := s.waiters ++ [w] }) := by
  simp [pollAcquire, h]

@[simp] theorem release_permits (s : SemState) : s.release.2.permits = s.permits + 1 := by
  unfold release
  split <;> rfl

end SemState

end ExecutionPolicy
