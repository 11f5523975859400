import ExecutionPolicy.Foundation.Float64
import ExecutionPolicy.Time

/-! # The circuit breaker's runtime

The state word, the bookkeeping behind the mutex and the sliding window, with
`gate`, `record_success` and `record_failure` as functions of the clock reading
they are given. What never changes after `compile` is kept apart in
`BreakerConfig`.
-/

namespace ExecutionPolicy

inductive BreakerState where
  | disabled
  | closed
  | open
  | halfOpen
deriving DecidableEq, Repr

inductive Trip where
  | consecutive (threshold : Nat)
  | failureRatio (ratio : F64) (minThroughput : Nat) (window : Nat)
deriving DecidableEq, Repr

namespace Trip

/-- The bounds the constructors `consecutive_failures` and `failure_ratio` leave. -/
def Valid : Trip → Prop
  | consecutive threshold => 1 ≤ threshold
  | failureRatio _ _ _ => True

instance : DecidablePred Valid := fun trip => by
  cases trip <;> simp only [Valid] <;> infer_instance

end Trip

/-! ## The sliding window -/

/-- A time-bucketed sliding window of (start, failures, total) counts. -/
structure Window where
  span : Nat
  bucket : Nat
  buckets : List (Nat × Nat × Nat)
deriving DecidableEq, Repr

namespace Window

def oneMilli : Nat := 10 ^ 6

def new (span : Nat) : Window :=
  { span, bucket := max (span / 10) oneMilli, buckets := [] }

def clear (w : Window) : Window := { w with buckets := [] }

def evict (w : Window) (now : Nat) : Window :=
  match Instant.checkedSub now w.span with
  | some cutoff => { w with buckets := w.buckets.filter fun b => decide (cutoff ≤ b.1) }
  | none => w

/-- Count one outcome into the last bucket while it is young enough, else into a new one. -/
def record (w : Window) (now : Nat) (failure : Bool) : Window :=
  let w := w.evict now
  let fresh := (now, (if failure then 1 else 0), 1)
  match w.buckets.getLast? with
  | some (start, failures, total) =>
      if Instant.durationSince now start < w.bucket then
        { w with buckets := w.buckets.dropLast ++
            [(start, (if failure then failures + 1 else failures), total + 1)] }
      else
        { w with buckets := w.buckets ++ [fresh] }
  | none => { w with buckets := w.buckets ++ [fresh] }

def totals (w : Window) (now : Nat) : (Nat × Nat) × Window :=
  let w := w.evict now
  (w.buckets.foldl (fun acc b => (acc.1 + b.2.1, acc.2 + b.2.2)) (0, 0), w)

end Window

/-! ## Configuration and live state -/

/-- The compiled settings of a breaker, with the bounds the builder enforces. -/
structure BreakerConfig where
  trip : Trip
  openFor : Nat
  halfOpenMaxCalls : Nat
  trip_valid : trip.Valid
  halfOpenMaxCalls_pos : 1 ≤ halfOpenMaxCalls

namespace BreakerConfig

theorem one_le_max_one (n : Nat) : 1 ≤ max n 1 := Nat.le_max_right n 1

/-- `CircuitBreaker::consecutive_failures`: 30 s open, one half-open probe. -/
def consecutiveFailures (n : Nat) : BreakerConfig where
  trip := .consecutive (max n 1)
  openFor := 30 * 10 ^ 9
  halfOpenMaxCalls := 1
  trip_valid := one_le_max_one n
  halfOpenMaxCalls_pos := Nat.one_pos

/-- `CircuitBreaker::failure_ratio`: half of at least ten calls within 30 s. -/
def failureRatio : BreakerConfig where
  trip := .failureRatio (.fin (1 / 2)) 10 (30 * 10 ^ 9)
  openFor := 30 * 10 ^ 9
  halfOpenMaxCalls := 1
  trip_valid := trivial
  halfOpenMaxCalls_pos := Nat.one_pos

/-- `failure_ratio_value` and its alias `ratio`; no effect on a consecutive breaker. -/
def ratio (c : BreakerConfig) (r : F64) : BreakerConfig :=
  match c.trip with
  | .failureRatio _ n w =>
      { c with trip := .failureRatio (r.clamp (.fin 0) (.fin 1)) n w, trip_valid := trivial }
  | .consecutive _ => c

def minimumThroughput (c : BreakerConfig) (n : Nat) : BreakerConfig :=
  match c.trip with
  | .failureRatio r _ w => { c with trip := .failureRatio r n w, trip_valid := trivial }
  | .consecutive _ => c

def samplingWindow (c : BreakerConfig) (d : Nat) : BreakerConfig :=
  match c.trip with
  | .failureRatio r n _ => { c with trip := .failureRatio r n d, trip_valid := trivial }
  | .consecutive _ => c

def withOpenFor (c : BreakerConfig) (d : Nat) : BreakerConfig := { c with openFor := d }

def withHalfOpenMaxCalls (c : BreakerConfig) (n : Nat) : BreakerConfig :=
  { c with halfOpenMaxCalls := max n 1, halfOpenMaxCalls_pos := one_le_max_one n }

end BreakerConfig

/-- The state word `AtomicU8`: `CLOSED`, `OPEN` or `HALF_OPEN`. -/
inductive StateWord where
  | closed
  | open
  | halfOpen
deriving DecidableEq, Repr

/-- The live part of `BreakerRuntime`: the state word and the fields of `Inner`. -/
structure BreakerRuntime where
  state : StateWord
  openUntil : Option Nat
  consecutiveFailures : Nat
  halfOpenInFlight : Nat
  halfOpenSuccesses : Nat
  window : Window
deriving DecidableEq, Repr

namespace BreakerRuntime

/-- `BreakerRuntime::new`; a consecutive breaker carries an unused one-second window. -/
def new (trip : Trip) : BreakerRuntime where
  state := .closed
  openUntil := none
  consecutiveFailures := 0
  halfOpenInFlight := 0
  halfOpenSuccesses := 0
  window := match trip with
    | .failureRatio _ _ window => Window.new window
    | .consecutive _ => Window.new (10 ^ 9)

def stateAt (b : BreakerRuntime) (now : Nat) : BreakerState :=
  match b.state with
  | .open =>
      match b.openUntil with
      | some t => if t ≤ now then .halfOpen else .open
      | none => .open
  | .halfOpen => .halfOpen
  | .closed => .closed

/-- The instant at which the breaker stops cooling, while it is still cooling. -/
def coolingUntil (b : BreakerRuntime) (now : Nat) : Option Nat :=
  if b.state = .open then b.openUntil.filter fun t => decide (now < t) else none

/-- `open_until.map(|t| now >= t).unwrap_or(true)`. -/
def ready (b : BreakerRuntime) (now : Nat) : Bool :=
  (b.openUntil.map fun t => decide (t ≤ now)).getD true

/-- Gate a call: the state it is admitted under, or a rejection. -/
def gate (cfg : BreakerConfig) (b : BreakerRuntime) (now : Nat) :
    Except Unit BreakerState × BreakerRuntime :=
  match b.state with
  | .closed => (.ok .closed, b)
  | .open =>
      if b.ready now then
        (.ok .halfOpen, { b with state := .halfOpen, halfOpenInFlight := 1, halfOpenSuccesses := 0 })
      else
        (.error (), b)
  | .halfOpen =>
      -- admit up to `half_open_max_calls` probes
      if b.halfOpenInFlight < cfg.halfOpenMaxCalls then
        (.ok .halfOpen, { b with halfOpenInFlight := b.halfOpenInFlight + 1 })
      else
        (.error (), b)

/-- The private `open`: (re)start the cooldown. -/
def trip (cfg : BreakerConfig) (b : BreakerRuntime) (now : Nat) : BreakerRuntime :=
  { b with
    state := .open
    openUntil := some (now + cfg.openFor)
    halfOpenSuccesses := 0
    halfOpenInFlight := 0 }

/-- The private `close`; `open_until` keeps its old value. -/
def close (b : BreakerRuntime) : BreakerRuntime :=
  { b with
    state := .closed
    consecutiveFailures := 0
    halfOpenSuccesses := 0
    halfOpenInFlight := 0
    window := b.window.clear }

/-- Whether the trip rule is met; in ratio mode reading the totals evicts old buckets. -/
def shouldTrip (cfg : BreakerConfig) (b : BreakerRuntime) (now : Nat) :
    Bool × BreakerRuntime :=
  match cfg.trip with
  | .consecutive threshold => (decide (threshold ≤ b.consecutiveFailures), b)
  | .failureRatio ratio minThroughput _ =>
      let ((failures, total), window) := b.window.totals now
      (decide (minThroughput ≤ total) &&
          ratio.le (F64.div (F64.ofNat failures) (F64.ofNat total)),
        { b with window })

/-- Record a success: the new state if a transition occurred. -/
def recordSuccess (cfg : BreakerConfig) (b : BreakerRuntime) (now : Nat) :
    Option BreakerState × BreakerRuntime :=
  match b.state with
  | .halfOpen =>
      let b := { b with
        halfOpenInFlight := b.halfOpenInFlight - 1
        halfOpenSuccesses := b.halfOpenSuccesses + 1 }
      if cfg.halfOpenMaxCalls ≤ b.halfOpenSuccesses then (some .closed, b.close) else (none, b)
  | _ => (none, { b with consecutiveFailures := 0, window := b.window.record now false })

/-- The failure counted in the catch-all branch of `record_failure`, before the trip test. -/
def countFailure (b : BreakerRuntime) (now : Nat) : BreakerRuntime :=
  { b with
    consecutiveFailures := b.consecutiveFailures + 1
    window := b.window.record now true }

/-- Record a failure: the new state if a transition occurred. -/
def recordFailure (cfg : BreakerConfig) (b : BreakerRuntime) (now : Nat) :
    Option BreakerState × BreakerRuntime :=
  match b.state with
  | .halfOpen =>
      let b := { b with halfOpenInFlight := b.halfOpenInFlight - 1 }
      (some .open, b.trip cfg now)
  | _ =>
      let (tripped, b) := (b.countFailure now).shouldTrip cfg now
      if tripped then (some .open, b.trip cfg now) else (none, b)

/-! ## What each operation can do -/

section Cases

variable {cfg : BreakerConfig} {b : BreakerRuntime} {now : Nat}

theorem gate_of_closed (h : b.state = .closed) : b.gate cfg now = (.ok .closed, b) := by
  simp [gate, h]

theorem gate_of_ready (h : b.state = .open) (hr : b.ready now = true) :
    b.gate cfg now =
      (.ok .halfOpen,
        { b with state := .halfOpen, halfOpenInFlight := 1, halfOpenSuccesses := 0 }) := by
  simp [gate, h, hr]

theorem gate_of_cooling (h : b.state = .open) (hr : b.ready now = false) :
    b.gate cfg now = (.error (), b) := by
  simp [gate, h, hr]

theorem gate_of_slot (h : b.state = .halfOpen) (hm : b.halfOpenInFlight < cfg.halfOpenMaxCalls) :
    b.gate cfg now =
      (.ok .halfOpen, { b with halfOpenInFlight := b.halfOpenInFlight + 1 }) := by
  simp [gate, h, hm]

theorem gate_of_full (h : b.state = .halfOpen)
    (hm : cfg.halfOpenMaxCalls ≤ b.halfOpenInFlight) :
    b.gate cfg now = (.error (), b) := by
  simp [gate, h, Nat.not_lt.mpr hm]

theorem gate_ok_cases {as : BreakerState} {b' : BreakerRuntime}
    (h : b.gate cfg now = (.ok as, b')) :
    (b.state = .closed ∧ as = .closed ∧ b' = b) ∨
    (b.state = .open ∧ b.ready now = true ∧ as = .halfOpen ∧
      b' = { b with state := .halfOpen, halfOpenInFlight := 1, halfOpenSuccesses := 0 }) ∨
    (b.state = .halfOpen ∧ b.halfOpenInFlight < cfg.halfOpenMaxCalls ∧ as = .halfOpen ∧
      b' = { b with halfOpenInFlight := b.halfOpenInFlight + 1 }) := by
  unfold gate at h
  cases hs : b.state with
  | closed =>
      simp only [hs, Prod.mk.injEq, Except.ok.injEq] at h
      exact .inl ⟨rfl, h.1.symm, h.2.symm⟩
  | «open» =>
      simp only [hs] at h
      split at h
      next hr =>
        simp only [Prod.mk.injEq, Except.ok.injEq] at h
        exact .inr (.inl ⟨rfl, hr, h.1.symm, h.2.symm⟩)
      next => simp at h
  | halfOpen =>
      simp only [hs] at h
      split at h
      next hm =>
        simp only [Prod.mk.injEq, Except.ok.injEq] at h
        exact .inr (.inr ⟨rfl, hm, h.1.symm, by rw [← h.2]⟩)
      next => simp at h

theorem gate_error_cases {b' : BreakerRuntime} (h : b.gate cfg now = (.error (), b')) :
    b' = b ∧ ((b.state = .open ∧ b.ready now = false) ∨
      (b.state = .halfOpen ∧ cfg.halfOpenMaxCalls ≤ b.halfOpenInFlight)) := by
  unfold gate at h
  cases hs : b.state with
  | closed => simp [hs] at h
  | «open» =>
      simp only [hs] at h
      split at h
      next => simp at h
      next hr =>
        simp only [Prod.mk.injEq, true_and] at h
        exact ⟨h.symm, .inl ⟨rfl, by simpa using hr⟩⟩
  | halfOpen =>
      simp only [hs] at h
      split at h
      next => simp at h
      next hm =>
        simp only [Prod.mk.injEq, true_and] at h
        exact ⟨h.symm, .inr ⟨rfl, Nat.le_of_not_lt hm⟩⟩

theorem recordSuccess_of_halfOpen (h : b.state = .halfOpen) :
    b.recordSuccess cfg now =
      let b' := { b with
        halfOpenInFlight := b.halfOpenInFlight - 1
        halfOpenSuccesses := b.halfOpenSuccesses + 1 }
      if cfg.halfOpenMaxCalls ≤ b.halfOpenSuccesses + 1 then (some .closed, b'.close)
      else (none, b') := by
  simp [recordSuccess, h]

theorem recordSuccess_of_not_halfOpen (h : b.state ≠ .halfOpen) :
    b.recordSuccess cfg now =
      (none, { b with consecutiveFailures := 0, window := b.window.record now false }) := by
  cases hs : b.state <;> simp_all [recordSuccess]

theorem recordFailure_of_halfOpen (h : b.state = .halfOpen) :
    b.recordFailure cfg now =
      (some .open, { b with halfOpenInFlight := b.halfOpenInFlight - 1 }.trip cfg now) := by
  simp [recordFailure, h]

theorem recordFailure_of_not_halfOpen (h : b.state ≠ .halfOpen) :
    b.recordFailure cfg now =
      if ((b.countFailure now).shouldTrip cfg now).1 then
        (some .open, ((b.countFailure now).shouldTrip cfg now).2.trip cfg now)
      else (none, ((b.countFailure now).shouldTrip cfg now).2) := by
  cases hs : b.state <;> simp_all [recordFailure]

/-! The trip test reads and evicts the window and nothing else. -/

@[simp] theorem shouldTrip_state : (b.shouldTrip cfg now).2.state = b.state := by
  unfold shouldTrip
  cases cfg.trip <;> rfl

@[simp] theorem shouldTrip_openUntil : (b.shouldTrip cfg now).2.openUntil = b.openUntil := by
  unfold shouldTrip
  cases cfg.trip <;> rfl

@[simp] theorem shouldTrip_halfOpenInFlight :
    (b.shouldTrip cfg now).2.halfOpenInFlight = b.halfOpenInFlight := by
  unfold shouldTrip
  cases cfg.trip <;> rfl

@[simp] theorem shouldTrip_halfOpenSuccesses :
    (b.shouldTrip cfg now).2.halfOpenSuccesses = b.halfOpenSuccesses := by
  unfold shouldTrip
  cases cfg.trip <;> rfl

@[simp] theorem countFailure_state : (b.countFailure now).state = b.state := rfl

@[simp] theorem countFailure_openUntil : (b.countFailure now).openUntil = b.openUntil := rfl

@[simp] theorem trip_state : (b.trip cfg now).state = .open := rfl

@[simp] theorem trip_openUntil : (b.trip cfg now).openUntil = some (now + cfg.openFor) := rfl

@[simp] theorem close_state : b.close.state = .closed := rfl

end Cases

end BreakerRuntime

end ExecutionPolicy
