import ExecutionPolicy.Arithmetic
import ExecutionPolicy.Breaker.Operations

/-! # A breaker whose additions may panic

The operations of a breaker in the order in which they store what they compute, so that a
panic leaves the breaker and its lock as the code leaves them. `open` stores the state word
before it adds `open_for` to the instant it is given.
-/

namespace ExecutionPolicy

open Checked History

namespace BreakerRuntime

/-! ## In source order -/

/-- The private `open`. -/
def openChecked (latest : Nat) (cfg : BreakerConfig) (now : Nat) :
    EStateM Panic BreakerRuntime Unit := do
  modify fun b => { b with state := .open }
  -- a panic here leaves the word OPEN
  let t ← Instant.add latest now cfg.openFor
  modify fun b => { b with openUntil := some t, halfOpenSuccesses := 0, halfOpenInFlight := 0 }

/-- `gate`; only the fast path of a closed breaker does without the lock. -/
def gateChecked (cfg : BreakerConfig) (now : Nat) :
    EStateM Panic (Mutex BreakerRuntime) (Except Unit BreakerState) := do
  let m ← get
  if m.value.state = .closed then pure (.ok .closed)
  else
    Mutex.locked .poisonedLock do
      let b ← get
      match b.state with
      | .closed => pure (.ok .closed)
      | .open =>
          if b.ready now then
            set { b with state := .halfOpen, halfOpenInFlight := 1, halfOpenSuccesses := 0 }
            pure (.ok .halfOpen)
          else pure (.error ())
      | .halfOpen =>
          if b.halfOpenInFlight < cfg.halfOpenMaxCalls then
            let taken ← U32.succ b.halfOpenInFlight
            set { b with halfOpenInFlight := taken }
            pure (.ok .halfOpen)
          else pure (.error ())

def recordSuccessChecked (cfg : BreakerConfig) (now : Nat) :
    EStateM Panic (Mutex BreakerRuntime) (Option BreakerState) :=
  Mutex.locked .poisonedLock do
    let b ← get
    match b.state with
    | .halfOpen =>
        let b := { b with halfOpenInFlight := b.halfOpenInFlight - 1 }
        set b
        let successes ← U32.succ b.halfOpenSuccesses
        let b := { b with halfOpenSuccesses := successes }
        if cfg.halfOpenMaxCalls ≤ successes then
          set b.close
          pure (some .closed)
        else
          set b
          pure none
    | _ =>
        set { b with consecutiveFailures := 0, window := b.window.record now false }
        pure none

def failureLocked (latest : Nat) (cfg : BreakerConfig) (now : Nat) :
    EStateM Panic BreakerRuntime (Option BreakerState) := do
  let b ← get
  match b.state with
  | .halfOpen =>
      set { b with halfOpenInFlight := b.halfOpenInFlight - 1 }
      openChecked latest cfg now
      pure (some .open)
  | _ =>
      let failures ← U32.succ b.consecutiveFailures
      set { b with consecutiveFailures := failures, window := b.window.record now true }
      let tripped ← modifyGet fun b => b.shouldTrip cfg now
      if tripped then
        openChecked latest cfg now
        pure (some .open)
      else pure none

def recordFailureChecked (latest : Nat) (cfg : BreakerConfig) (now : Nat) :
    EStateM Panic (Mutex BreakerRuntime) (Option BreakerState) :=
  Mutex.locked .poisonedLock (failureLocked latest cfg now)

/-- What a poller asks; the lock is taken in OPEN only. -/
def pollChecked {α : Type} (read : BreakerRuntime → α) :
    EStateM Panic (Mutex BreakerRuntime) α := do
  let m ← get
  if m.value.state = .open then Mutex.locked .poisonedLock do return read (← get)
  else pure (read m.value)

def applyChecked (latest : Nat) (cfg : BreakerConfig) :
    BreakerOp → EStateM Panic (Mutex BreakerRuntime) Unit
  | .gate now => discard (gateChecked cfg now)
  | .success now => discard (recordSuccessChecked cfg now)
  | .failure now => discard (recordFailureChecked latest cfg now)
  | .stateAt now => discard (pollChecked fun b => b.stateAt now)
  | .coolingUntil now => discard (pollChecked fun b => b.coolingUntil now)

/-- A new breaker after a sequence of operations, or as a panic left it. -/
def execChecked (latest : Nat) (cfg : BreakerConfig) (ops : List BreakerOp) :
    EStateM.Result Panic (Mutex BreakerRuntime) Unit :=
  (forM ops (applyChecked latest cfg)).run { value := new cfg.trip, poisoned := false }

/-! ## One operation -/

/-- The failure (re)starts the cooldown. -/
def meetsRule (cfg : BreakerConfig) (b : BreakerRuntime) (now : Nat) : Bool :=
  b.state = .halfOpen || ((b.countFailure now).shouldTrip cfg now).1

/-- A failure is counted where there is room for it, and a cooldown starts at an instant
after which there is room for it. -/
structure FailureInRange (latest : Nat) (cfg : BreakerConfig) (b : BreakerRuntime) (now : Nat) :
    Prop where
  counter : b.state ≠ .halfOpen → b.consecutiveFailures < U32.max
  cooldown : b.meetsRule cfg now = true → now + cfg.openFor ≤ latest

def OpInRange (latest : Nat) (cfg : BreakerConfig) (b : BreakerRuntime) : BreakerOp → Prop
  | .failure now => b.FailureInRange latest cfg now
  | _ => True

def Awaiting (cfg : BreakerConfig) (b : BreakerRuntime) : Prop :=
  b.state = .halfOpen → b.halfOpenSuccesses < cfg.halfOpenMaxCalls

section Operations

variable {latest : Nat} {cfg : BreakerConfig} {b : BreakerRuntime} {now : Nat}

theorem awaiting_new (cfg : BreakerConfig) : (new cfg.trip).Awaiting cfg := by
  intro hs
  cases hs

theorem Awaiting.gate (h : b.Awaiting cfg) (now : Nat) : (b.gate cfg now).2.Awaiting cfg := by
  rcases hg : b.gate cfg now with ⟨_ | as, b'⟩
  · rw [(gate_error_cases hg).1]
    exact h
  · rcases gate_ok_cases hg with ⟨_, _, rfl⟩ | ⟨_, _, _, rfl⟩ | ⟨hs, _, _, rfl⟩
    · exact h
    · exact fun _ => cfg.halfOpenMaxCalls_pos
    · exact fun _ => h hs

theorem Awaiting.recordSuccess (now : Nat) : (b.recordSuccess cfg now).2.Awaiting cfg := by
  by_cases hs : b.state = .halfOpen
  · rw [recordSuccess_of_halfOpen hs]
    dsimp only
    split
    · exact nofun
    next hlt => exact fun _ => Nat.lt_of_not_le hlt
  · rw [recordSuccess_of_not_halfOpen hs]
    exact fun hhalf => absurd hhalf hs

theorem Awaiting.recordFailure (now : Nat) : (b.recordFailure cfg now).2.Awaiting cfg := by
  intro hhalf
  by_cases hs : b.state = .halfOpen
  · rw [recordFailure_of_halfOpen hs] at hhalf
    cases hhalf
  · rw [recordFailure_of_not_halfOpen hs] at hhalf
    split at hhalf
    · cases hhalf
    · exact absurd (by simpa using hhalf) hs

theorem Awaiting.apply (op : BreakerOp) (h : b.Awaiting cfg) : (b.apply cfg op).Awaiting cfg := by
  cases op with
  | gate now => exact h.gate now
  | success now => exact Awaiting.recordSuccess now
  | failure now => exact Awaiting.recordFailure now
  | stateAt now => exact h
  | coolingUntil now => exact h

/-! A panic of `open` leaves the word OPEN and the end of the cooldown as it was. -/

theorem run_openChecked_of_le (h : now + cfg.openFor ≤ latest) :
    (openChecked latest cfg now).run b = .ok () (b.trip cfg now) := by
  simp [openChecked, run_add_of_le h, trip]

theorem run_openChecked_of_lt (h : latest < now + cfg.openFor) :
    (openChecked latest cfg now).run b = .error .instantOverflow { b with state := .open } := by
  simp [openChecked, run_add_of_lt h]

/-- No gate panics: it counts a probe only where there is a slot. -/
theorem run_gateChecked (hu32 : cfg.halfOpenMaxCalls ≤ U32.max) (b : BreakerRuntime) (now : Nat) :
    (gateChecked cfg now).run ⟨b, false⟩ =
      .ok (b.gate cfg now).1 ⟨(b.gate cfg now).2, false⟩ := by
  cases hs : b.state with
  | closed => simp [gateChecked, gate_of_closed hs, hs]
  | «open» =>
      have hword : b.state ≠ .closed := by simp [hs]
      simp only [gateChecked, EStateM.run_bind, EStateM.run_get, if_neg hword]
      refine run_locked_of_ok ?_
      cases hr : b.ready now with
      | true => simp [gate_of_ready hs hr, hs, hr]
      | false => simp [gate_of_cooling hs hr, hs, hr]
  | halfOpen =>
      have hword : b.state ≠ .closed := by simp [hs]
      simp only [gateChecked, EStateM.run_bind, EStateM.run_get, if_neg hword]
      refine run_locked_of_ok ?_
      by_cases hslot : b.halfOpenInFlight < cfg.halfOpenMaxCalls
      · have hcount := run_succ_of_lt (s := b) (Nat.lt_of_lt_of_le hslot hu32)
        simp [gate_of_slot hs hslot, hs, hslot, hcount]
      · simp [gate_of_full hs (Nat.le_of_not_lt hslot), hs, hslot]

theorem run_recordSuccessChecked (hu32 : cfg.halfOpenMaxCalls ≤ U32.max) (h : b.Awaiting cfg)
    (now : Nat) : (recordSuccessChecked cfg now).run ⟨b, false⟩ =
      .ok (b.recordSuccess cfg now).1 ⟨(b.recordSuccess cfg now).2, false⟩ := by
  refine run_locked_of_ok ?_
  by_cases hs : b.state = .halfOpen
  · have hcount : b.halfOpenSuccesses < U32.max := Nat.lt_of_lt_of_le (h hs) hu32
    rw [recordSuccess_of_halfOpen hs]
    by_cases hmax : cfg.halfOpenMaxCalls ≤ b.halfOpenSuccesses + 1
    · simp [hs, run_succ_of_lt hcount, hmax]
    · simp [hs, run_succ_of_lt hcount, hmax]
  · rw [recordSuccess_of_not_halfOpen hs]
    cases hword : b.state with
    | halfOpen => exact absurd hword hs
    | closed => simp [hword]
    | «open» => simp [hword]

/-- The breaker as `record_failure` has it before it opens it, if it does. -/
def counted (cfg : BreakerConfig) (b : BreakerRuntime) (now : Nat) : BreakerRuntime :=
  if b.state = .halfOpen then { b with halfOpenInFlight := b.halfOpenInFlight - 1 }
  else ((b.countFailure now).shouldTrip cfg now).2

theorem recordFailure_eq (cfg : BreakerConfig) (b : BreakerRuntime) (now : Nat) :
    b.recordFailure cfg now =
      if b.meetsRule cfg now then (some .open, (b.counted cfg now).trip cfg now)
      else (none, b.counted cfg now) := by
  by_cases hs : b.state = .halfOpen
  · simp [recordFailure_of_halfOpen hs, meetsRule, counted, hs]
  · rw [recordFailure_of_not_halfOpen hs]
    simp [meetsRule, counted, hs]

theorem run_failureLocked (hcount : b.state ≠ .halfOpen → b.consecutiveFailures < U32.max) :
    (failureLocked latest cfg now).run b =
      (if b.meetsRule cfg now then
        (do openChecked latest cfg now; pure (some BreakerState.open))
      else pure none).run (b.counted cfg now) := by
  cases hs : b.state with
  | halfOpen => simp [failureLocked, meetsRule, counted, hs]
  | closed =>
      have hroom := hcount (by simp [hs])
      simp [failureLocked, meetsRule, counted, hs, run_succ_of_lt hroom, countFailure]
  | «open» =>
      have hroom := hcount (by simp [hs])
      simp [failureLocked, meetsRule, counted, hs, run_succ_of_lt hroom, countFailure]

/-- Past the last instant the word says OPEN and the lock is poisoned. -/
theorem run_recordFailureChecked_of_late
    (hcount : b.state ≠ .halfOpen → b.consecutiveFailures < U32.max)
    (hrule : b.meetsRule cfg now = true) (hlate : latest < now + cfg.openFor) :
    (recordFailureChecked latest cfg now).run ⟨b, false⟩ =
      .error .instantOverflow ⟨{ b.counted cfg now with state := .open }, true⟩ := by
  refine run_locked_of_error ?_
  rw [run_failureLocked hcount, if_pos hrule]
  simp [run_openChecked_of_lt hlate]

theorem run_recordFailureChecked_of_full (hs : b.state ≠ .halfOpen)
    (hfull : U32.max ≤ b.consecutiveFailures) :
    (recordFailureChecked latest cfg now).run ⟨b, false⟩ = .error .counterOverflow ⟨b, true⟩ := by
  refine run_locked_of_error ?_
  cases hword : b.state with
  | halfOpen => exact absurd hword hs
  | closed => simp [failureLocked, hword, run_succ_of_le hfull]
  | «open» => simp [failureLocked, hword, run_succ_of_le hfull]

theorem run_recordFailureChecked_of_not_inRange (h : ¬ b.FailureInRange latest cfg now) :
    ∃ e left, (recordFailureChecked latest cfg now).run ⟨b, false⟩ = .error e left := by
  by_cases hcount : b.state ≠ .halfOpen → b.consecutiveFailures < U32.max
  · have hcooldown : ¬ (b.meetsRule cfg now = true → now + cfg.openFor ≤ latest) :=
      fun hcooldown => h ⟨hcount, hcooldown⟩
    push Not at hcooldown
    exact ⟨_, _, run_recordFailureChecked_of_late hcount hcooldown.1 hcooldown.2⟩
  · push Not at hcount
    exact ⟨_, _, run_recordFailureChecked_of_full hcount.1 hcount.2⟩

theorem run_recordFailureChecked_of_inRange (h : b.FailureInRange latest cfg now) :
    (recordFailureChecked latest cfg now).run ⟨b, false⟩ =
      .ok (b.recordFailure cfg now).1 ⟨(b.recordFailure cfg now).2, false⟩ := by
  refine run_locked_of_ok ?_
  rw [run_failureLocked h.counter, recordFailure_eq]
  cases hrule : b.meetsRule cfg now with
  | true => simp [run_openChecked_of_le (h.cooldown hrule)]
  | false => simp

theorem run_pollChecked {α : Type} (read : BreakerRuntime → α) (b : BreakerRuntime) :
    (pollChecked read).run ⟨b, false⟩ = .ok (read b) ⟨b, false⟩ := by
  unfold pollChecked
  by_cases hs : b.state = .open
  · simp only [EStateM.run_bind, EStateM.run_get, if_pos hs]
    exact run_locked_of_ok rfl
  · simp [hs]

theorem run_pollChecked_poisoned {α : Type} (read : BreakerRuntime → α) (hs : b.state = .open) :
    (pollChecked read).run ⟨b, true⟩ = .error .poisonedLock ⟨b, true⟩ := by
  simp only [pollChecked, EStateM.run_bind, EStateM.run_get, if_pos hs]
  exact run_locked_poisoned b

/-- An operation does what it does without overflow, and a failure out of range panics. -/
theorem follows_applyChecked (hu32 : cfg.halfOpenMaxCalls ≤ U32.max) (h : b.Awaiting cfg)
    (op : BreakerOp) :
    Follows (applyChecked latest cfg op) ⟨b, false⟩ ⟨b.apply cfg op, false⟩
      (b.OpInRange latest cfg op) := by
  cases op with
  | gate now =>
      exact follows_discard (fun _ => ⟨_, run_gateChecked hu32 b now⟩) fun hno => absurd trivial hno
  | success now =>
      exact follows_discard (fun _ => ⟨_, run_recordSuccessChecked hu32 h now⟩)
        fun hno => absurd trivial hno
  | failure now =>
      exact follows_discard (fun hin => ⟨_, run_recordFailureChecked_of_inRange hin⟩)
        run_recordFailureChecked_of_not_inRange
  | stateAt now | coolingUntil now =>
      exact follows_discard (fun _ => ⟨_, run_pollChecked _ b⟩) fun hno => absurd trivial hno

/-- Once `open` has panicked, every operation panics. -/
theorem run_applyChecked_poisoned (hs : b.state = .open) (op : BreakerOp) :
    (applyChecked latest cfg op).run ⟨b, true⟩ = .error .poisonedLock ⟨b, true⟩ := by
  have hword : b.state ≠ .closed := by simp [hs]
  cases op with
  | gate now =>
      have hgate : (gateChecked cfg now).run ⟨b, true⟩ = .error .poisonedLock ⟨b, true⟩ := by
        simp only [gateChecked, EStateM.run_bind, EStateM.run_get, if_neg hword]
        exact run_locked_poisoned b
      rw [applyChecked, run_discard, hgate]
  | success now =>
      have hsuccess : (recordSuccessChecked cfg now).run ⟨b, true⟩ =
          .error .poisonedLock ⟨b, true⟩ := run_locked_poisoned b
      rw [applyChecked, run_discard, hsuccess]
  | failure now =>
      have hfailure : (recordFailureChecked latest cfg now).run ⟨b, true⟩ =
          .error .poisonedLock ⟨b, true⟩ := run_locked_poisoned b
      rw [applyChecked, run_discard, hfailure]
  | stateAt now | coolingUntil now =>
      rw [applyChecked, run_discard, run_pollChecked_poisoned _ hs]

end Operations

/-- A sequence of operations returns exactly when every failure in it is in range of the
breaker it finds, and then leaves the breaker that it leaves without overflow. -/
theorem execChecked_eq_ok_iff {cfg : BreakerConfig} (hu32 : cfg.halfOpenMaxCalls ≤ U32.max)
    (latest : Nat) (ops : List BreakerOp) :
    execChecked latest cfg ops = .ok () ⟨exec cfg ops, false⟩ ↔
      Justified (fun past op => (exec cfg past).OpInRange latest cfg op) ops := by
  have hfollows : Follows (forM ops (applyChecked latest cfg)) ⟨new cfg.trip, false⟩
      ⟨exec cfg ops, false⟩
      (Justified (fun past op => (exec cfg past).OpInRange latest cfg op) ops) := by
    have hsteps : ∀ b op, Awaiting cfg b → Follows (applyChecked latest cfg op) ⟨b, false⟩
        ⟨b.apply cfg op, false⟩ (b.OpInRange latest cfg op) :=
      fun b op h => follows_applyChecked hu32 h op
    exact follows_forM (fun b op h => h.apply op) hsteps (awaiting_new cfg) ops
  exact hfollows.returns_iff

end BreakerRuntime

end ExecutionPolicy
