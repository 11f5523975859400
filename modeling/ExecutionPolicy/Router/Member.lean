import ExecutionPolicy.Foundation.Float64
import ExecutionPolicy.Time

/-! # Members of a router

The load and latency signals that every router sharing a member reads and writes.
-/

namespace ExecutionPolicy

def Duration.asSecsF64 (d : Nat) : F64 :=
  (F64.ofNat (d / 10 ^ 9)).add ((F64.ofNat (d % 10 ^ 9)).div (F64.ofNat (10 ^ 9)))

/-- `Duration::from_secs_f64`, to the nearest nanosecond; `none` where it panics. -/
def Duration.fromSecsF64 : F64 → Option Nat
  | .fin q =>
      if 0 ≤ q ∧ q < 2 ^ 64 then some (F64.roundDiv (q.num.natAbs * 10 ^ 9) q.den) else none
  | .negZero => some 0
  | .inf _ => none
  | .nan => none

/--
A meter reading.

Its fields are private to the crate, whose only fold stays between zero and the
largest latency seen, so a reading is always the length of a duration.
-/
structure PeakEwmaState where
  valueSecs : F64
  lastUpdate : Nat
  readable : (Duration.fromSecsF64 valueSecs).isSome = true

structure Sample where
  latency : Nat
  at' : Nat
  lastUpdate : Nat
  inFlight : Nat
  ok : Bool
deriving DecidableEq, Repr

/-- A latency meter: a pure fold. -/
structure Meter where
  fold : Option PeakEwmaState → Sample → PeakEwmaState

/-- The state behind a member's `Arc`, shared by every router the member joins. -/
structure MemberState where
  inFlight : Nat
  /-- Completed calls, across all pools. -/
  pickCount : Nat
  meter : Option PeakEwmaState

namespace MemberState

def new : MemberState := { inFlight := 0, pickCount := 0, meter := none }

/-- The reading handed to scores: zero before the first fold. -/
def latency (m : MemberState) : Nat :=
  match m.meter with
  | some s => (Duration.fromSecsF64 s.valueSecs).get s.readable
  | none => 0

def acquire (m : MemberState) : MemberState := { m with inFlight := m.inFlight + 1 }

/-- The drop of an `InFlightGuard`. -/
def release (m : MemberState) : MemberState := { m with inFlight := m.inFlight - 1 }

/-- `record_attempt`: the meter folds one sample, then the choice is counted. -/
def recordAttempt (meter : Option Meter) (attemptStart : Nat) (ok : Bool) (m : MemberState)
    (k : Core) : MemberState × Core :=
  match meter with
  | none => ({ m with pickCount := m.pickCount + 1 }, k)
  | some meter =>
      let now := k.tick
      let last := (m.meter.map fun c => c.lastUpdate).getD now.time
      let sample : Sample := {
        latency := Instant.durationSince now.time attemptStart
        at' := now.time
        lastUpdate := last
        inFlight := m.inFlight
        ok }
      ({ m with meter := some (meter.fold m.meter sample), pickCount := m.pickCount + 1 }, now)

theorem time_le_recordAttempt (meter : Option Meter) (attemptStart : Nat) (ok : Bool)
    (m : MemberState) (k : Core) : k.time ≤ (m.recordAttempt meter attemptStart ok k).2.time := by
  cases meter with
  | none => exact Nat.le_refl _
  | some meter => exact k.time_le_tick

end MemberState

/-- A member's weight: finite and positive. -/
structure Weight where
  value : F64
  finite : value.isFinite = true
  positive : value.le (.fin 0) = false

/-- `Member::try_weight`; the error carries the rejected value. -/
def Weight.tryWeight (w : F64) : Except F64 Weight :=
  if h : w.isFinite = true ∧ w.le (.fin 0) = false then .ok ⟨w, h.1, h.2⟩ else .error w

/-- The weight of `Member::new`. -/
def Weight.one : Weight := { value := .fin 1, finite := rfl, positive := by decide }

end ExecutionPolicy
