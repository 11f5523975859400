import ExecutionPolicy.Foundation.Float64
import ExecutionPolicy.Time

/-! # The retry policy

Backoff schedules, jitter, outcome classification, the shared retry budget and
the `Retry` record that combines them. An outcome `Result<T, E>` is an
`Except E T`.
-/

namespace ExecutionPolicy

/-! ## Backoff and jitter -/

inductive Backoff where
  | fixed (d : Nat)
  | exponential (base max : Nat)
deriving DecidableEq, Repr

namespace Backoff

def u32Max : Nat := 2 ^ 32 - 1

/-- Raw delay to wait after `attempt` (1-based) before the next try. The factor is
computed as a `u64` and narrowed to a `u32`, saturating. -/
def rawDelay (b : Backoff) (attempt : Nat) : Nat :=
  match b with
  | .fixed d => d
  | .exponential base max =>
      let shift := Nat.min (attempt - 1) 63
      let factor := 2 ^ shift
      let scaled := (Duration.checkedMul base (if factor ≤ u32Max then factor else u32Max)).getD max
      Nat.min scaled max

end Backoff

inductive Jitter where
  | none
  | full
  | equal
deriving DecidableEq, Repr

namespace Jitter

/-- Fraction of `span` from the high bits of `rng`. -/
def frac (rng : UInt64) (span : Nat) : Nat :=
  if span = 0 then 0 else (rng.toNat / 2 ^ 11 * span) / 2 ^ 53

/-- Apply jitter to `base`; `as_nanos() as u64` keeps the low 64 bits. -/
def apply (j : Jitter) (base : Nat) (rng : UInt64) : Nat :=
  if base = 0 then base
  else
    let nanos := base % 2 ^ 64
    match j with
    | .none => base
    | .full => frac rng nanos
    | .equal => nanos / 2 + frac rng (nanos / 2)

end Jitter

/-! ## Classification -/

inductive RetryDecision where
  | retry
  | stop
deriving DecidableEq, Repr

inductive Classifier (T E : Type) where
  | retryAll
  | whenErr (pred : E → Bool)
  | whenOutcome (f : Except E T → RetryDecision)

namespace Classifier

variable {T E : Type}

def decide (c : Classifier T E) (outcome : Except E T) : RetryDecision :=
  match c with
  | .retryAll =>
      match outcome with
      | .ok _ => .stop
      | .error _ => .retry
  | .whenErr pred =>
      match outcome with
      | .ok _ => .stop
      | .error e => if pred e then .retry else .stop
  | .whenOutcome f => f outcome

end Classifier

/-! ## The budget -/

/-- The fixed part of a `RetryBudget`; the token count is live state. -/
structure RetryBudget where
  maxTokens : Int
  deposit : Int
deriving DecidableEq, Repr

namespace RetryBudget

/-- `SCALE`, also the cost of one retry. -/
def scale : Int := 1000

/-- `RetryBudget::new`: up to `ratio` of the calls, with a burst of `burst` retries. -/
def new (ratio : F64) (burst : Nat) : RetryBudget where
  maxTokens := (max burst 1 : Nat) * scale
  deposit := ((ratio.clamp (.fin 0) (.fin 1)).mul (.ofNat 1000)).toI64

def initialTokens (b : RetryBudget) : Int := b.maxTokens

def deposited (b : RetryBudget) (tokens : Int) : Int := min (tokens + b.deposit) b.maxTokens

/-- Spend one retry token; `none` when the bucket holds less. -/
def tryWithdraw (tokens : Int) : Option Int :=
  if tokens < scale then none else some (tokens - scale)

end RetryBudget

/-! ## Retry -/

structure Retry (T E : Type) where
  maxAttempts : Nat
  maxElapsed : Option Nat
  backoff : Backoff
  jitter : Jitter
  classifier : Classifier T E
  budget : Option RetryBudget
  retryAfter : Option (E → Option Nat)
  maxAttempts_u32 : maxAttempts < 2 ^ 32

namespace Retry

variable {T E : Type}

def base (maxAttempts : Nat) (backoff : Backoff) (h : maxAttempts < 2 ^ 32) : Retry T E where
  maxAttempts := maxAttempts
  maxElapsed := Option.none
  backoff := backoff
  jitter := .none
  classifier := .retryAll
  budget := Option.none
  retryAfter := Option.none
  maxAttempts_u32 := h

/-- No retries: a single attempt. -/
def none : Retry T E := base 1 (.fixed 0) (by decide)

/-- Constant-delay retries, three attempts. -/
def fixed (delay : Nat) : Retry T E := base 3 (.fixed delay) (by decide)

/-- Exponential backoff from 100 ms to 10 s, three attempts. -/
def exponential : Retry T E := base 3 (.exponential (10 ^ 8) (10 ^ 10)) (by decide)

/-- Exponential backoff from 100 ms to 2 s with full jitter, four attempts. -/
def standard : Retry T E :=
  { base 4 (.exponential (10 ^ 8) (2 * 10 ^ 9)) (by decide) with jitter := .full }

def decide (r : Retry T E) (outcome : Except E T) : RetryDecision := r.classifier.decide outcome

/-- The hint an error carries, when an extractor is configured. -/
def retryAfterHint (r : Retry T E) (err : E) : Option Nat := r.retryAfter.bind fun f => f err

/-- The next delay: jitter applies to the backoff, the hint is a hard floor. -/
def delay (r : Retry T E) (attempt : Nat) (rng : UInt64) (lastErr : Option E) : Nat :=
  let jittered := r.jitter.apply (r.backoff.rawDelay attempt) rng
  match lastErr.bind r.retryAfterHint with
  | some h => if jittered < h then h else jittered
  | Option.none => jittered

end Retry

end ExecutionPolicy
