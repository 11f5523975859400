import ExecutionPolicy.Router.Member

/-! # Selection strategies

A strategy is a score closure and a sample size, nothing else.
-/

namespace ExecutionPolicy

/-- The snapshot of one candidate that a score closure sees. -/
structure Candidate (Id : Type) where
  id : Id
  /-- Insertion order. -/
  index : Nat
  inFlight : Nat
  weight : F64
  pickCount : Nat
  /-- `none` when no meter is configured. -/
  latency : Option Nat

/-- A selection strategy; the lowest score wins. -/
structure Pick (Id : Type) where
  score : Candidate Id → F64
  /-- How many candidates to draw; `none` means all of them. -/
  sample : Option Nat
  requiresMeter : Bool

namespace Pick

variable {Id : Type}

def byScore (f : Candidate Id → F64) : Pick Id :=
  { score := f, sample := none, requiresMeter := false }

def bySampledScore (k : Nat) (f : Candidate Id → F64) : Pick Id :=
  { score := f, sample := some k, requiresMeter := false }

def firstHealthy : Pick Id := byScore fun c => .ofNat c.index

def roundRobin : Pick Id := byScore fun c => .ofNat c.pickCount

def leastInFlight : Pick Id := byScore fun c => .ofNat c.inFlight

def weightedLeastInFlight : Pick Id :=
  byScore fun c => ((F64.ofNat c.inFlight).add (.fin 1)).div c.weight

def p2c : Pick Id := bySampledScore 2 fun c => .ofNat c.inFlight

def peakEwma : Pick Id :=
  { bySampledScore 2 fun c =>
      match c.latency with
      | some lat => (Duration.asSecsF64 lat).mul ((F64.ofNat c.inFlight).add (.fin 1))
      -- `expect`: a router with this pick is not built without a meter
      | none => .nan
    with requiresMeter := true }

theorem firstHealthy_meterless (m : Option Meter) :
    (firstHealthy : Pick Id).requiresMeter = true → m.isSome = true := by
  intro h
  cases h

def sampleIsValid (p : Pick Id) : Bool := p.sample != some 0

end Pick

end ExecutionPolicy
