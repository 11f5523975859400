import ExecutionPolicy.Breaker.Runtime
import ExecutionPolicy.Concurrency.Semaphore
import ExecutionPolicy.Retry.Policy

/-! # Compiled plans, errors and events

What a call reads and never changes, and the vocabulary of what it reports.
-/

namespace ExecutionPolicy

/-- Diagnostic context attached to every `ExecutionError`. -/
structure ErrorContext where
  attempts : Nat
  elapsed : Nat
  lastDelay : Option Nat
  breakerState : BreakerState
deriving DecidableEq, Repr

def ErrorContext.counting (c : ErrorContext) (attempts : Nat) : ErrorContext := { c with attempts }

inductive ExecutionError (E : Type) where
  | operation (source : E) (context : ErrorContext)
  | attemptTimeout (context : ErrorContext)
  | totalTimeout (context : ErrorContext)
  | circuitOpen (context : ErrorContext)
  | concurrencyRejected (context : ErrorContext)
  | retryBudgetExhausted (context : ErrorContext)
deriving DecidableEq, Repr

namespace ExecutionError

variable {E : Type}

def context : ExecutionError E → ErrorContext
  | operation _ c => c
  | attemptTimeout c => c
  | totalTimeout c => c
  | circuitOpen c => c
  | concurrencyRejected c => c
  | retryBudgetExhausted c => c

/-- The underlying operation error, if this was an operation failure. -/
def intoInner : ExecutionError E → Option E
  | operation source _ => some source
  | _ => none

def isTimeout : ExecutionError E → Bool
  | attemptTimeout _ => true
  | totalTimeout _ => true
  | _ => false

end ExecutionError

inductive Event where
  | attemptFailed (attempt : Nat)
  | attemptTimedOut (attempt : Nat)
  | retryScheduled (attempt delay : Nat)
  | succeeded (attempts : Nat)
  | gaveUp (attempts : Nat)
  | circuitStateChanged (state : BreakerState)
  | concurrencyRejected
  | retryBudgetExhausted (attempts : Nat)
deriving DecidableEq, Repr

structure Attempt where
  number : Nat
  start : Nat
  now : Nat
deriving DecidableEq, Repr

inductive AttemptOutcome (T E : Type) where
  | completed (r : Except E T)
  | attemptTimeout
  | totalTimeout

/-- A breaker's settings and its fault classifier. -/
structure CompiledBreaker (E : Type) where
  config : BreakerConfig
  recordWhen : Option (E → Bool)

/-- The immutable part of a policy, with what `validate` checks. The live parts
behind its `Arc`s (breaker, semaphore, budget) are kept in `Shared`. -/
structure Plan (T E : Type) where
  retry : Retry T E
  attemptTimeout : Option Nat
  totalTimeout : Option Nat
  breaker : Option (CompiledBreaker E)
  concurrency : Option ConcurrencyLimit
  /-- Whether an event hook is registered. -/
  onEvent : Bool
  maxAttempts_pos : 1 ≤ retry.maxAttempts
  timeouts_ordered : ∀ a t, attemptTimeout = some a → totalTimeout = some t → a ≤ t

theorem Plan.untimed_ordered :
    ∀ a t, (none : Option Nat) = some a → (none : Option Nat) = some t → a ≤ t := by
  intro a t h
  cases h

theorem Plan.unbounded_ordered (attempt : Option Nat) :
    ∀ a t, attempt = some a → (none : Option Nat) = some t → a ≤ t := by
  intro a t _ h
  cases h

theorem Plan.tenInAll_ordered :
    ∀ a t, (none : Option Nat) = some a → some 10 = some t → a ≤ t := by
  intro a t h
  cases h

theorem Plan.threeAttempts_pos : 1 ≤ 3 := by decide

end ExecutionPolicy
