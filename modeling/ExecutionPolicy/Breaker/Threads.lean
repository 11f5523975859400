import ExecutionPolicy.Breaker.Operations
import ExecutionPolicy.Foundation.Linearization

/-! # The breaker's operations as threads run them

The state word is read and written by itself; the fields of `Inner` are read and written
between taking the mutex and giving it back. `gate`, `state_at` and `cooling_until` look at
the word first and take the mutex only where it does not decide; `gate` and `record_*` look
at it again under the mutex, `state_at` and `cooling_until` do not. A step is one access of
one thread, in any order, every access seeing what was written before it.
-/

namespace ExecutionPolicy

open StepSystem Linearization

/-- The fields behind the mutex. -/
structure Inner where
  openUntil : Option Nat
  consecutiveFailures : Nat
  halfOpenInFlight : Nat
  halfOpenSuccesses : Nat
  window : Window
deriving DecidableEq, Repr

def BreakerRuntime.inner (b : BreakerRuntime) : Inner where
  openUntil := b.openUntil
  consecutiveFailures := b.consecutiveFailures
  halfOpenInFlight := b.halfOpenInFlight
  halfOpenSuccesses := b.halfOpenSuccesses
  window := b.window

inductive BreakerAnswer where
  | gated (as : Except Unit BreakerState)
  | recorded (changed : Option BreakerState)
  | reported (state : BreakerState)
  | cooling (until? : Option Nat)

namespace Inner

/-- The runtime these fields and a state word make up. -/
def under (inner : Inner) (state : StateWord) : BreakerRuntime where
  state := state
  openUntil := inner.openUntil
  consecutiveFailures := inner.consecutiveFailures
  halfOpenInFlight := inner.halfOpenInFlight
  halfOpenSuccesses := inner.halfOpenSuccesses
  window := inner.window

/-- `should_trip`, which reads no field but those behind the mutex. -/
def shouldTrip (cfg : BreakerConfig) (inner : Inner) (now : Nat) : Bool × Inner :=
  match cfg.trip with
  | .consecutive threshold => (decide (threshold ≤ inner.consecutiveFailures), inner)
  | .failureRatio ratio minThroughput _ =>
      let ((failures, total), window) := inner.window.totals now
      (decide (minThroughput ≤ total) &&
          ratio.le (F64.div (F64.ofNat failures) (F64.ofNat total)),
        { inner with window })

/-- The failure counted in the catch-all branch of `record_failure`. -/
def counted (inner : Inner) (now : Nat) : Inner :=
  { inner with
    consecutiveFailures := inner.consecutiveFailures + 1
    window := inner.window.record now true }

/-- What the private `open` writes after the state word. -/
def opened (cfg : BreakerConfig) (inner : Inner) (now : Nat) : Inner :=
  { inner with
    openUntil := some (now + cfg.openFor)
    halfOpenSuccesses := 0
    halfOpenInFlight := 0 }

/-- What the private `close` writes after the state word. -/
def closed (inner : Inner) : Inner :=
  { inner with
    consecutiveFailures := 0
    halfOpenSuccesses := 0
    halfOpenInFlight := 0
    window := inner.window.clear }

end Inner

/-- What an operation does with the mutex in hand, once it knows the state word: writes to
`Inner` alone, or writes, then the state word, then the rest of the writes. -/
inductive Critical where
  | keep (inner : Inner) (answer : BreakerAnswer)
  | store (first : Inner) (state : StateWord) (last : Inner) (answer : BreakerAnswer)

/-- The answer, and the runtime as the mutex is given back. -/
def Critical.outcome (state : StateWord) : Critical → BreakerAnswer × BreakerRuntime
  | keep inner answer => (answer, inner.under state)
  | store _ state' last answer => (answer, last.under state')

namespace BreakerOp

/-- The answer an operation has from its first look at the state word, without the mutex. -/
def glance (state : StateWord) : BreakerOp → Option BreakerAnswer
  | gate _ => if state = .closed then some (.gated (.ok .closed)) else none
  | success _ => none
  | failure _ => none
  | stateAt _ =>
      match state with
      | .open => none
      | .halfOpen => some (.reported .halfOpen)
      | .closed => some (.reported .closed)
  | coolingUntil _ => if state = .open then none else some (.cooling none)

/-- The answer of a poll from the fields behind the mutex. -/
def peek (inner : Inner) : BreakerOp → Option BreakerAnswer
  | stateAt now =>
      match inner.openUntil with
      | some t => some (.reported (if t ≤ now then .halfOpen else .open))
      | none => some (.reported .open)
  | coolingUntil now => some (.cooling (inner.openUntil.filter fun t => decide (now < t)))
  | gate _ => none
  | success _ => none
  | failure _ => none

/-- The rest of `gate` under the mutex. -/
def gateCritical (cfg : BreakerConfig) (now : Nat) (inner : Inner) : StateWord → Critical
  | .closed => .keep inner (.gated (.ok .closed))
  | .open =>
      if (inner.openUntil.map fun t => decide (t ≤ now)).getD true then
        .store inner .halfOpen { inner with halfOpenInFlight := 1, halfOpenSuccesses := 0 }
          (.gated (.ok .halfOpen))
      else .keep inner (.gated (.error ()))
  | .halfOpen =>
      if inner.halfOpenInFlight < cfg.halfOpenMaxCalls then
        .keep { inner with halfOpenInFlight := inner.halfOpenInFlight + 1 } (.gated (.ok .halfOpen))
      else .keep inner (.gated (.error ()))

def successCritical (cfg : BreakerConfig) (now : Nat) (inner : Inner) : StateWord → Critical
  | .halfOpen =>
      let inner := { inner with
        halfOpenInFlight := inner.halfOpenInFlight - 1
        halfOpenSuccesses := inner.halfOpenSuccesses + 1 }
      if cfg.halfOpenMaxCalls ≤ inner.halfOpenSuccesses then
        .store inner .closed inner.closed (.recorded (some .closed))
      else .keep inner (.recorded none)
  | _ =>
      .keep { inner with consecutiveFailures := 0, window := inner.window.record now false }
        (.recorded none)

def failureCritical (cfg : BreakerConfig) (now : Nat) (inner : Inner) : StateWord → Critical
  | .halfOpen =>
      let inner := { inner with halfOpenInFlight := inner.halfOpenInFlight - 1 }
      .store inner .open (inner.opened cfg now) (.recorded (some .open))
  | _ =>
      let (tripped, inner) := (inner.counted now).shouldTrip cfg now
      if tripped then .store inner .open (inner.opened cfg now) (.recorded (some .open))
      else .keep inner (.recorded none)

/-- What the operation does once it has read the state word under the mutex; polls do not
read it there. -/
def critical (cfg : BreakerConfig) (inner : Inner) (state : StateWord) : BreakerOp → Option Critical
  | gate now => some (gateCritical cfg now inner state)
  | success now => some (successCritical cfg now inner state)
  | failure now => some (failureCritical cfg now inner state)
  | stateAt _ => none
  | coolingUntil _ => none

end BreakerOp

/-! ## Threads -/

/-- Where a thread is: before its first access, about to lock the mutex, holding it, holding
it with the state word read, about to write the word, about to write the rest, about to
unlock, or back with its answer. -/
inductive BreakerThread.Stage where
  | called
  | locking
  | locked
  | read (state : StateWord)
  | storing (state : StateWord) (last : Inner) (answer : BreakerAnswer)
  | writing (last : Inner) (answer : BreakerAnswer)
  | leaving (answer : BreakerAnswer)
  | returned (answer : BreakerAnswer)

structure BreakerThread where
  op : BreakerOp
  stage : BreakerThread.Stage

def BreakerThread.Stage.holds : BreakerThread.Stage → Bool
  | locked | read _ | storing .. | writing .. | leaving _ => true
  | called | locking | returned _ => false

/-- A breaker shared by threads: the state word, the mutex's owner, what it protects. -/
structure SharedBreaker where
  state : StateWord
  owner : Option Nat
  inner : Inner
  threads : List BreakerThread

namespace SharedBreaker

inductive Label where
  | call (op : BreakerOp)
  | access (i : Nat)
deriving DecidableEq, Repr

def init (cfg : BreakerConfig) : SharedBreaker where
  state := .closed
  owner := none
  inner := (BreakerRuntime.new cfg.trip).inner
  threads := []

def move (s : SharedBreaker) (i : Nat) (op : BreakerOp) (stage : BreakerThread.Stage) :
    SharedBreaker :=
  { s with threads := s.threads.set i { op, stage } }

/-- The next access of thread `i`; `none` for a thread that has returned, or that waits for
the mutex while another has it. -/
def access (cfg : BreakerConfig) (s : SharedBreaker) (i : Nat) :
    BreakerThread → Option SharedBreaker
  | { op, stage := .called } =>
      match op.glance s.state with
      | some answer => some (s.move i op (.returned answer))
      | none => some (s.move i op .locking)
  | { op, stage := .locking } =>
      match s.owner with
      | none => some { s.move i op .locked with owner := some i }
      | some _ => none
  | { op, stage := .locked } =>
      match op.peek s.inner with
      | some answer => some (s.move i op (.leaving answer))
      | none => some (s.move i op (.read s.state))
  | { op, stage := .read state } =>
      match op.critical cfg s.inner state with
      | some (.keep inner answer) => some { s.move i op (.leaving answer) with inner }
      | some (.store first state' last answer) =>
          some { s.move i op (.storing state' last answer) with inner := first }
      | none => none
  | { op, stage := .storing state last answer } =>
      some { s.move i op (.writing last answer) with state }
  | { op, stage := .writing last answer } =>
      some { s.move i op (.leaving answer) with inner := last }
  | { op, stage := .leaving answer } =>
      some { s.move i op (.returned answer) with owner := none }
  | { op := _, stage := .returned _ } => none

def step (cfg : BreakerConfig) (s : SharedBreaker) : Label → Option SharedBreaker
  | .call op => some { s with threads := s.threads ++ [{ op, stage := .called }] }
  | .access i => s.threads[i]?.bind (s.access cfg i)

def event (cfg : BreakerConfig) (s : SharedBreaker) :
    Label → Option (Linearization.Event BreakerOp BreakerAnswer)
  | .call op => some (.call s.threads.length op)
  | .access i =>
      match (s.step cfg (.access i)).bind fun s' => s'.threads[i]? with
      | some { op := _, stage := .returned answer } => some (.ret i answer)
      | _ => none

end SharedBreaker

/-! ## The breaker as an atomic object -/

namespace BreakerRuntime

/-- What an operation answers when it has the breaker to itself. -/
def answer (cfg : BreakerConfig) (b : BreakerRuntime) : BreakerOp → BreakerAnswer
  | .gate now => .gated (b.gate cfg now).1
  | .success now => .recorded (b.recordSuccess cfg now).1
  | .failure now => .recorded (b.recordFailure cfg now).1
  | .stateAt now => .reported (b.stateAt now)
  | .coolingUntil now => .cooling (b.coolingUntil now)

theorem apply_of_isPoll (cfg : BreakerConfig) (b : BreakerRuntime) (op : BreakerOp)
    (h : op.isPoll = true) : b.apply cfg op = b := by
  cases op <;> simp_all [BreakerOp.isPoll, apply]

def atomic (cfg : BreakerConfig) : AtomicObject BreakerRuntime BreakerOp BreakerAnswer where
  apply b op := (b.answer cfg op, b.apply cfg op)
  reads := BreakerOp.isPoll
  apply_of_reads := apply_of_isPoll cfg

theorem perform_atomic (cfg : BreakerConfig) (b : BreakerRuntime)
    (order : List (Turn BreakerOp BreakerAnswer)) :
    (atomic cfg).perform b order = History.replay (apply cfg) b (order.map Turn.op) := by
  induction order generalizing b with
  | nil => rfl
  | cons t order ih => exact ih _

theorem apply_openUntil (cfg : BreakerConfig) (b : BreakerRuntime) (op : BreakerOp) :
    (b.apply cfg op).openUntil = b.openUntil ∨ (b.apply cfg op).state = .open := by
  cases op with
  | gate now =>
      left
      rcases hg : b.gate cfg now with ⟨_ | as, b'⟩
      · rw [apply, hg, (gate_error_cases hg).1]
      · rw [apply, hg]
        rcases gate_ok_cases hg with ⟨_, _, rfl⟩ | ⟨_, _, _, rfl⟩ | ⟨_, _, _, rfl⟩ <;> rfl
  | success now =>
      left
      by_cases hs : b.state = .halfOpen
      · rw [apply, recordSuccess_of_halfOpen hs]
        dsimp only
        split <;> rfl
      · rw [apply, recordSuccess_of_not_halfOpen hs]
  | failure now =>
      by_cases hs : b.state = .halfOpen
      · right
        rw [apply, recordFailure_of_halfOpen hs]
        rfl
      · rw [apply, recordFailure_of_not_halfOpen hs]
        split
        · exact .inr rfl
        · exact .inl (by simp)
  | stateAt now => exact .inl rfl
  | coolingUntil now => exact .inl rfl

end BreakerRuntime

namespace BreakerOp

variable {cfg : BreakerConfig} {b : BreakerRuntime} {op : BreakerOp} {answer : BreakerAnswer}

/-- Where the first look decides, it decides as the whole operation would. -/
theorem answer_of_glance (op : BreakerOp) (cfg : BreakerConfig)
    (h : op.glance b.state = some answer) :
    b.answer cfg op = answer ∧ b.apply cfg op = b := by
  cases op with
  | gate now =>
      simp only [glance] at h
      split at h
      next hs =>
        cases h
        simp [BreakerRuntime.answer, BreakerRuntime.apply, BreakerRuntime.gate_of_closed hs]
      next => cases h
  | success now | failure now => cases h
  | stateAt now =>
      simp only [glance] at h
      split at h
      next => cases h
      next hs =>
        cases h
        simp [BreakerRuntime.answer, BreakerRuntime.apply, BreakerRuntime.stateAt, hs]
      next hs =>
        cases h
        simp [BreakerRuntime.answer, BreakerRuntime.apply, BreakerRuntime.stateAt, hs]
  | coolingUntil now =>
      simp only [glance] at h
      split at h
      next => cases h
      next hs =>
        cases h
        simp [BreakerRuntime.answer, BreakerRuntime.apply, BreakerRuntime.coolingUntil, hs]

theorem open_of_glance {state : StateWord} (hpoll : op.isPoll = true)
    (h : op.glance state = none) : state = .open := by
  cases op with
  | gate now | success now | failure now => cases hpoll
  | stateAt now => cases state <;> simp_all [glance]
  | coolingUntil now => cases state <;> simp_all [glance]

theorem isPoll_of_peek {inner : Inner} (h : op.peek inner = some answer) : op.isPoll = true := by
  cases op <;> simp_all [peek, isPoll]

theorem not_isPoll_of_peek {inner : Inner} (h : op.peek inner = none) : op.isPoll = false := by
  cases op with
  | gate now | success now | failure now => rfl
  | stateAt now =>
      simp only [peek] at h
      split at h <;> cases h
  | coolingUntil now => cases h

/-- A poll under the mutex answers as an open breaker with this end of its cooldown does. -/
theorem answer_of_peek {inner : Inner} (hopen : b.state = .open)
    (huntil : b.openUntil = inner.openUntil) (h : op.peek inner = some answer) :
    b.answer cfg op = answer := by
  cases op with
  | gate now | success now | failure now => cases h
  | stateAt now =>
      simp only [peek] at h
      cases ht : inner.openUntil <;> simp only [ht] at h <;> cases h <;>
        simp [BreakerRuntime.answer, BreakerRuntime.stateAt, hopen, huntil, ht]
  | coolingUntil now =>
      cases h
      simp [BreakerRuntime.answer, BreakerRuntime.coolingUntil, hopen, huntil]

theorem shouldTrip_under (cfg : BreakerConfig) (inner : Inner) (state : StateWord) (now : Nat) :
    (inner.under state).shouldTrip cfg now =
      ((inner.shouldTrip cfg now).1, (inner.shouldTrip cfg now).2.under state) := by
  unfold BreakerRuntime.shouldTrip Inner.shouldTrip
  cases cfg.trip <;> rfl

theorem countFailure_under (inner : Inner) (state : StateWord) (now : Nat) :
    (inner.under state).countFailure now = (inner.counted now).under state := rfl

/-! What the code does under the mutex is the operation: its answer, and what it leaves in
the state word and behind the mutex. -/

theorem outcome_gateCritical (cfg : BreakerConfig) (now : Nat) (inner : Inner) (state : StateWord) :
    (gateCritical cfg now inner state).outcome state =
      (.gated ((inner.under state).gate cfg now).1, ((inner.under state).gate cfg now).2) := by
  cases state with
  | closed => rfl
  | «open» =>
      cases hready : (inner.openUntil.map fun t => decide (t ≤ now)).getD true with
      | true =>
          have hunder : (inner.under .open).ready now = true := hready
          rw [BreakerRuntime.gate_of_ready rfl hunder, gateCritical, if_pos hready]
          rfl
      | false =>
          have hunder : (inner.under .open).ready now = false := hready
          rw [BreakerRuntime.gate_of_cooling rfl hunder, gateCritical, hready]
          rfl
  | halfOpen =>
      by_cases hslot : inner.halfOpenInFlight < cfg.halfOpenMaxCalls
      · have hunder : (inner.under .halfOpen).halfOpenInFlight < cfg.halfOpenMaxCalls := hslot
        rw [BreakerRuntime.gate_of_slot rfl hunder, gateCritical, if_pos hslot]
        rfl
      · have hunder : cfg.halfOpenMaxCalls ≤ (inner.under .halfOpen).halfOpenInFlight :=
          Nat.le_of_not_lt hslot
        rw [BreakerRuntime.gate_of_full rfl hunder, gateCritical, if_neg hslot]
        rfl

theorem outcome_successCritical (cfg : BreakerConfig) (now : Nat) (inner : Inner)
    (state : StateWord) :
    (successCritical cfg now inner state).outcome state =
      (.recorded ((inner.under state).recordSuccess cfg now).1,
        ((inner.under state).recordSuccess cfg now).2) := by
  cases state with
  | closed | «open» => rfl
  | halfOpen =>
      rw [BreakerRuntime.recordSuccess_of_halfOpen rfl]
      by_cases hall : cfg.halfOpenMaxCalls ≤ inner.halfOpenSuccesses + 1
      · have hunder : cfg.halfOpenMaxCalls ≤ (inner.under .halfOpen).halfOpenSuccesses + 1 := hall
        simp only [successCritical, if_pos hall, if_pos hunder]
        rfl
      · have hunder : ¬cfg.halfOpenMaxCalls ≤ (inner.under .halfOpen).halfOpenSuccesses + 1 := hall
        simp only [successCritical, if_neg hall, if_neg hunder]
        rfl

theorem outcome_failureCritical (cfg : BreakerConfig) (now : Nat) (inner : Inner)
    (state : StateWord) :
    (failureCritical cfg now inner state).outcome state =
      (.recorded ((inner.under state).recordFailure cfg now).1,
        ((inner.under state).recordFailure cfg now).2) := by
  by_cases hs : state = .halfOpen
  · subst hs
    rfl
  · have hcritical : failureCritical cfg now inner state =
        if (inner.counted now |>.shouldTrip cfg now).1 then
          .store (inner.counted now |>.shouldTrip cfg now).2 .open
            ((inner.counted now |>.shouldTrip cfg now).2.opened cfg now) (.recorded (some .open))
        else .keep (inner.counted now |>.shouldTrip cfg now).2 (.recorded none) := by
      cases state with
      | halfOpen => exact absurd rfl hs
      | closed | «open» => rfl
    rw [BreakerRuntime.recordFailure_of_not_halfOpen hs, countFailure_under, shouldTrip_under,
      hcritical]
    by_cases htrip : (inner.counted now |>.shouldTrip cfg now).1 = true
    · rw [if_pos htrip, if_pos htrip]
      rfl
    · rw [if_neg htrip, if_neg htrip]
      rfl

theorem apply_of_critical {inner : Inner} {state : StateWord} {c : Critical}
    (h : op.critical cfg inner state = some c) :
    ((inner.under state).answer cfg op, (inner.under state).apply cfg op) = c.outcome state := by
  cases op with
  | gate now =>
      cases h
      exact (outcome_gateCritical cfg now inner state).symm
  | success now =>
      cases h
      exact (outcome_successCritical cfg now inner state).symm
  | failure now =>
      cases h
      exact (outcome_failureCritical cfg now inner state).symm
  | stateAt now | coolingUntil now => cases h

theorem critical_isSome (op : BreakerOp) (cfg : BreakerConfig) (inner : Inner)
    (state : StateWord) (h : op.isPoll = false) :
    ∃ c, op.critical cfg inner state = some c := by
  cases op with
  | gate now | success now | failure now => exact ⟨_, rfl⟩
  | stateAt now | coolingUntil now => cases h

end BreakerOp

end ExecutionPolicy
