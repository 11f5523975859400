import ExecutionPolicy.Engine.Plan

/-! # The pipeline of one call

`run_pipeline` and `drive`, cut at their await points. A `Stage` is a suspended
future with the locals it keeps; each function below runs one stretch of code
between two await points on a `Frame`, which holds the state shared with other
calls and the observations of the stretch. An attempt is a stage of its own even
before the first poll of its operation, so a poll of the operation always starts a
stretch.
-/

namespace ExecutionPolicy

variable {T E : Type}

structure Shared where
  core : Core
  breaker : BreakerRuntime
  sem : SemState
  tokens : Int
deriving DecidableEq, Repr

inductive Obs (T E : Type) where
  | arrived
  | gated (now : Nat)
  /-- The operation is invoked when the clock shows `clock`. -/
  | started (attempt : Attempt) (clock : Nat)
  /-- Attempt `number` is over; `now` is the reading taken after it. -/
  | ended (number : Nat) (outcome : AttemptOutcome T E) (now : Nat)
  | votedSuccess (now : Nat)
  | votedFailure (now : Nat)
  /-- The call is over and neither gate nor vote concluded it. -/
  | unrecorded
  | queueChecked (full : Bool)
  | withdrew
  /-- What the deadline leaves for the next delay is computed at `now`. -/
  | paused (now : Nat)
  /-- The deadline is compared with `now` after the delay. -/
  | resumed (now : Nat)
  | event (e : Event)

structure Frame (T E : Type) extends Shared where
  log : List (Obs T E)

/-- The locals of `drive` that live across its await points. -/
structure Drive (E : Type) where
  breakerState : BreakerState
  lastDelay : Option Nat
  lastError : Option E
  attemptNo : Nat

/-- The timers of a queued `acquire_permit`: queue timeout and deadline. -/
structure QueueTimers where
  queue : Option Nat
  deadline : Option Nat
deriving DecidableEq, Repr

/-- The timers of a pending attempt: attempt timeout and deadline. -/
structure AttemptTimers where
  attempt : Option Nat
  total : Option Nat
deriving DecidableEq, Repr

inductive Stage (T E : Type) where
  | created
  | operationsQueue (timers : QueueTimers)
  | attemptsQueue (d : Drive E) (attempt : Attempt) (timers : QueueTimers)
  /-- In an attempt; `timers` is empty until the operation first pends. -/
  | running (d : Drive E) (permit : Bool) (timers : Option AttemptTimers)
  | backingOff (d : Drive E) (wake : Nat)
  | returned (r : Except (ExecutionError E) T)
  | dropped

/-- The locals of `run_pipeline` together with where the call is suspended. -/
structure Call (T E : Type) where
  start : Nat
  totalDeadline : Option Nat
  /-- Whether `_op_permit` holds a permit. -/
  opPermit : Bool
  stage : Stage T E

/-- What one poll of a call observes: clock movement before each reading, answers
of the generator, and the operation's answer with the time that took. -/
structure Script (T E : Type) where
  ticks : List Nat
  draws : List UInt64
  opElapsed : Nat
  op : Option (Except E T)

namespace Frame

def note (f : Frame T E) (o : Obs T E) : Frame T E := { f with log := f.log ++ [o] }

def emit (plan : Plan T E) (f : Frame T E) (e : Event) : Frame T E :=
  if plan.onEvent then f.note (.event e) else f

/-- A clock reading; its value is the `core.time` of the result. -/
def read (f : Frame T E) : Frame T E := { f with core := f.core.tick }

end Frame

/-! ## Queueing for a permit -/

inductive AcquireResult where
  | granted
  | rejected
  | queued (timers : QueueTimers)

/-- One poll of the select in `acquire_permit`: the semaphore first, then the timers. -/
def pollPermit (id : Nat) (timers : QueueTimers) (f : Frame T E) : AcquireResult × Frame T E :=
  match f.sem.pollAcquire id with
  | (true, sem) => (.granted, { f with sem })
  | (false, sem) =>
      let queue := f.core.pollTimer timers.queue
      if queue.1 then (.rejected, { f with sem, core := queue.2 })
      else
        let deadline := queue.2.pollTimer timers.deadline
        (if deadline.1 then .rejected else .queued timers, { f with sem, core := deadline.2 })

def armSleep (core : Core) : Option Nat → Option Nat × Core
  | none => (none, core)
  | some d => (some (core.sleep d).1, (core.sleep d).2)

def armDeadline (core : Core) : Option Nat → Option Nat × Core
  | none => (none, core)
  | some d => (some (core.sleepUntil d).1, (core.sleepUntil d).2)

/-- `acquire_permit` up to its await point. -/
def acquirePermit (limit : ConcurrencyLimit) (totalDeadline : Option Nat) (id : Nat)
    (f : Frame T E) : AcquireResult × Frame T E :=
  match f.sem.tryAcquire with
  | some sem => (.granted, { f with sem })
  | none =>
      match limit.saturation with
      | .reject => (.rejected, f)
      | .wait maxQueued queueTimeout =>
          if maxQueued ≤ f.sem.queued then (.rejected, f.note (.queueChecked true))
          else
            let f := f.note (.queueChecked false)
            let queue := armSleep f.core queueTimeout
            let deadline := armDeadline queue.2 totalDeadline
            pollPermit id { queue := queue.1, deadline := deadline.1 } { f with core := deadline.2 }

/-! ## The ends of a call -/

def context (attempts start now : Nat) (lastDelay : Option Nat) (breakerState : BreakerState) :
    ErrorContext :=
  { attempts, elapsed := Instant.durationSince now start, lastDelay, breakerState }

/-- Hand the result out; the locals of `run_pipeline`, hence its permit, are dropped. -/
def leave (call : Call T E) (r : Except (ExecutionError E) T) (f : Frame T E) :
    Call T E × Frame T E :=
  ({ call with opPermit := false, stage := .returned r },
    if call.opPermit then { f with sem := f.sem.release.2 } else f)

/-- Write back what a `record_*` call did, with its vote and its transition event. -/
def vote (plan : Plan T E) (o : Obs T E) (recorded : Option BreakerState × BreakerRuntime)
    (f : Frame T E) : Frame T E :=
  let f := { f with breaker := recorded.2 }.note o
  match recorded.1 with
  | some state => f.emit plan (.circuitStateChanged state)
  | none => f

def record (plan : Plan T E) (r : Except (ExecutionError E) T) (f : Frame T E) : Frame T E :=
  match plan.breaker with
  | none => f
  | some b =>
      let f := f.read
      let now := f.core.time
      let success := vote plan (.votedSuccess now) (f.breaker.recordSuccess b.config now) f
      let failure := vote plan (.votedFailure now) (f.breaker.recordFailure b.config now) f
      match r with
      | .ok _ => success
      | .error e =>
          if e.isTimeout then failure
          else
            match e with
            | .operation source _ =>
                if (b.recordWhen.map fun p => p source).getD true then failure else success
            -- circuit open, rejected, budget exhausted: not an outcome of the operation
            | _ => f.note .unrecorded

def finish (plan : Plan T E) (call : Call T E) (r : Except (ExecutionError E) T)
    (f : Frame T E) : Call T E × Frame T E :=
  leave call r (record plan r f)

/-! ## The retry loop -/

/-- Invoke the operation. The source goes on to the first poll of the future without an await
point; here that is the next stretch, and what other calls do may come in between. -/
def startAttempt (call : Call T E) (d : Drive E) (attempt : Attempt) (permit : Bool)
    (f : Frame T E) : Call T E × Frame T E :=
  ({ call with stage := .running d permit none }, f.note (.started attempt f.core.time))

/-- What `drive` does with the answer of an attempts-scope `acquire_permit`. -/
def onAttemptPermit (plan : Plan T E) (call : Call T E) (d : Drive E) (attempt : Attempt) :
    AcquireResult × Frame T E → Call T E × Frame T E
  | (.granted, f) => startAttempt call d attempt true f
  | (.rejected, f) =>
      let f := (f.emit plan .concurrencyRejected).read
      finish plan call (.error (.concurrencyRejected
        (context d.attemptNo call.start f.core.time d.lastDelay d.breakerState))) f
  | (.queued timers, f) => ({ call with stage := .attemptsQueue d attempt timers }, f)

/-- The head of the loop, up to the attempt. -/
def loopHead (plan : Plan T E) (id : Nat) (call : Call T E) (d : Drive E) (f : Frame T E) :
    Call T E × Frame T E :=
  let f := f.read
  let attempt : Attempt := { number := d.attemptNo, start := call.start, now := f.core.time }
  match plan.concurrency with
  | some limit =>
      match limit.scope with
      | .attempts =>
          onAttemptPermit plan call d attempt (acquirePermit limit call.totalDeadline id f)
      | .operations => startAttempt call d attempt false f
  | none => startAttempt call d attempt false f

inductive Flow (T E : Type) where
  | exit (r : Except (ExecutionError E) T)
  | next (d : Drive E)

def matchOutcome (plan : Plan T E) (start : Nat) (d : Drive E) (now : Nat)
    (outcome : AttemptOutcome T E) (f : Frame T E) : Flow T E × Frame T E :=
  let ctx := context d.attemptNo start now d.lastDelay d.breakerState
  match outcome with
  | .totalTimeout => (.exit (.error (.totalTimeout ctx)), f.emit plan (.gaveUp d.attemptNo))
  | .completed r =>
      match plan.retry.decide r with
      | .stop =>
          match r with
          | .ok v => (.exit (.ok v), f.emit plan (.succeeded d.attemptNo))
          | .error e => (.exit (.error (.operation e ctx)), f.emit plan (.gaveUp d.attemptNo))
      | .retry =>
          match r with
          | .ok v =>
              if plan.retry.maxAttempts ≤ d.attemptNo then
                (.exit (.ok v), f.emit plan (.succeeded d.attemptNo))
              else (.next d, f)
          | .error e =>
              if plan.retry.maxAttempts ≤ d.attemptNo then
                (.exit (.error (.operation e ctx)), f.emit plan (.gaveUp d.attemptNo))
              else
                (.next { d with lastError := some e }, f.emit plan (.attemptFailed d.attemptNo))
  | .attemptTimeout =>
      let f := f.emit plan (.attemptTimedOut d.attemptNo)
      if plan.retry.maxAttempts ≤ d.attemptNo then
        (.exit (.error (.attemptTimeout ctx)), f.emit plan (.gaveUp d.attemptNo))
      else (.next d, f)

def maxElapsedGuard (plan : Plan T E) (start : Nat) (now : Nat) (d : Drive E)
    (f : Frame T E) : Flow T E × Frame T E :=
  match plan.retry.maxElapsed with
  | some maxElapsed =>
      if maxElapsed ≤ Instant.durationSince now start then
        let ctx := context d.attemptNo start now d.lastDelay d.breakerState
        (.exit (.error (match d.lastError with
          | some e => .operation e ctx
          | none => .attemptTimeout ctx)), f.emit plan (.gaveUp d.attemptNo))
      else (.next d, f)
  | none => (.next d, f)

/-- The retry budget: deny a retry storm even if attempts remain. -/
def budgetGuard (plan : Plan T E) (start : Nat) (now : Nat) (d : Drive E)
    (f : Frame T E) : Flow T E × Frame T E :=
  match plan.retry.budget with
  | some _ =>
      match RetryBudget.tryWithdraw f.tokens with
      | some tokens => (.next d, { f with tokens }.note .withdrew)
      | none =>
          (.exit (.error (.retryBudgetExhausted
              (context d.attemptNo start now d.lastDelay d.breakerState))),
            f.emit plan (.retryBudgetExhausted d.attemptNo))
  | none => (.next d, f)

/-- Compute the delay, and stop when the hint alone exceeds what the deadline leaves. -/
def hintGuard (plan : Plan T E) (call : Call T E) (d : Drive E) (f : Frame T E) :
    (Flow T E × Nat) × Frame T E :=
  let rng := f.core.nextU64
  let raw := plan.retry.delay d.attemptNo rng.1 d.lastError
  let d := { d with lastDelay := some raw }
  let f := { f with core := rng.2 }
  match call.totalDeadline with
  | none => ((.next d, raw), f)
  | some deadline =>
      let f := f.read
      let remaining := Instant.durationSince deadline f.core.time
      let f := f.note (.paused f.core.time)
      match d.lastError.bind plan.retry.retryAfterHint with
      | some hint =>
          if remaining < hint then
            let f := (f.emit plan (.gaveUp d.attemptNo)).read
            ((.exit (.error (.totalTimeout
              (context d.attemptNo call.start f.core.time d.lastDelay d.breakerState))), raw), f)
          else ((.next d, raw), f)
      | none => ((.next d, raw), f)

/-- After the backoff sleep: the deadline check and the next round. -/
def afterBackoff (plan : Plan T E) (id : Nat) (call : Call T E) (d : Drive E) (f : Frame T E) :
    Call T E × Frame T E :=
  match call.totalDeadline with
  | some deadline =>
      let f := f.read
      let f := f.note (.resumed f.core.time)
      if deadline ≤ f.core.time then
        let f := f.read
        finish plan call (.error (.totalTimeout
          (context d.attemptNo call.start f.core.time d.lastDelay d.breakerState))) f
      else loopHead plan id call { d with attemptNo := d.attemptNo + 1 } f
  | none => loopHead plan id call { d with attemptNo := d.attemptNo + 1 } f

def pollBackoff (plan : Plan T E) (id : Nat) (call : Call T E) (d : Drive E) (wake : Nat)
    (f : Frame T E) : Call T E × Frame T E :=
  let f := f.read
  if wake ≤ f.core.time then afterBackoff plan id call d f
  else ({ call with stage := .backingOff d wake }, f)

def capDelay (totalDeadline : Option Nat) (raw : Nat) (f : Frame T E) : Nat × Frame T E :=
  match totalDeadline with
  | some deadline =>
      let f := f.read
      (Nat.min raw (Instant.durationSince deadline f.core.time), f)
  | none => (raw, f)

def backOff (plan : Plan T E) (id : Nat) (call : Call T E) (d : Drive E) (raw : Nat)
    (f : Frame T E) : Call T E × Frame T E :=
  let delay := capDelay call.totalDeadline raw f
  let f := delay.2.emit plan (.retryScheduled d.attemptNo delay.1)
  if delay.1 = 0 then afterBackoff plan id call d f
  else
    let sleep := f.core.sleep delay.1
    pollBackoff plan id call d sleep.1 { f with core := sleep.2 }

/-- The loop body below the reading `now` that follows an attempt. -/
def afterNoted (plan : Plan T E) (id : Nat) (call : Call T E) (d : Drive E)
    (outcome : AttemptOutcome T E) (now : Nat) (f : Frame T E) : Call T E × Frame T E :=
  match matchOutcome plan call.start d now outcome f with
  | (.exit r, f) => finish plan call r f
  | (.next d, f) =>
      match maxElapsedGuard plan call.start now d f with
      | (.exit r, f) => finish plan call r f
      | (.next d, f) =>
          match budgetGuard plan call.start now d f with
          | (.exit r, f) => finish plan call r f
          | (.next d, f) =>
              match hintGuard plan call d f with
              | ((.exit r, _), f) => finish plan call r f
              | ((.next d, raw), f) => backOff plan id call d raw f

/-- Everything `drive` does between the end of an attempt and its next await point. -/
def afterAttempt (plan : Plan T E) (id : Nat) (call : Call T E) (d : Drive E) (permit : Bool)
    (outcome : AttemptOutcome T E) (f : Frame T E) : Call T E × Frame T E :=
  -- the attempt's permit is dropped before anything else
  let f := if permit then { f with sem := f.sem.release.2 } else f
  let f := f.read
  let now := f.core.time
  afterNoted plan id call d outcome now (f.note (.ended d.attemptNo outcome now))

def armTimers (plan : Plan T E) (call : Call T E) (f : Frame T E) : AttemptTimers × Frame T E :=
  let attempt := armSleep f.core plan.attemptTimeout
  let total := armDeadline attempt.2 call.totalDeadline
  ({ attempt := attempt.1, total := total.1 }, { f with core := total.2 })

def pollTimers (plan : Plan T E) (id : Nat) (call : Call T E) (d : Drive E) (permit : Bool)
    (timers : AttemptTimers) (f : Frame T E) : Call T E × Frame T E :=
  let attempt := f.core.pollTimer timers.attempt
  if attempt.1 then afterAttempt plan id call d permit .attemptTimeout { f with core := attempt.2 }
  else
    let total := attempt.2.pollTimer timers.total
    if total.1 then afterAttempt plan id call d permit .totalTimeout { f with core := total.2 }
    else ({ call with stage := .running d permit (some timers) }, { f with core := total.2 })

/-- One poll of the attempt's select: the operation, then the timers, armed once
the operation first pends. -/
def pollAttempt (plan : Plan T E) (id : Nat) (call : Call T E) (d : Drive E) (permit : Bool)
    (timers : Option AttemptTimers) (op : Option (Except E T)) (f : Frame T E) :
    Call T E × Frame T E :=
  match op with
  | some r => afterAttempt plan id call d permit (.completed r) f
  | none =>
      match timers with
      | some timers => pollTimers plan id call d permit timers f
      | none => pollTimers plan id call d permit (armTimers plan call f).1 (armTimers plan call f).2

/-! ## The pipeline around the loop -/

def gateCall (plan : Plan T E) (start : Nat) (f : Frame T E) :
    Except (ExecutionError E) BreakerState × Frame T E :=
  match plan.breaker with
  | none => (.ok .disabled, f)
  | some b =>
      let f := f.read
      let now := f.core.time
      match f.breaker.gate b.config now with
      | (.ok s, breaker) =>
          let f := { f with breaker }.note (.gated now)
          (.ok s, if s = .halfOpen then f.emit plan (.circuitStateChanged .halfOpen) else f)
      | (.error (), breaker) =>
          let f := ({ f with breaker }.note (.gated now)).read
          (.error (.circuitOpen (context 0 start f.core.time none .open)), f)

/-- A call that passes the gate refills the budget, when there is one. -/
def depositBudget (plan : Plan T E) (f : Frame T E) : Frame T E :=
  match plan.retry.budget with
  | some b => { f with tokens := b.deposited f.tokens }
  | none => f

def gateAndDrive (plan : Plan T E) (id : Nat) (call : Call T E) (f : Frame T E) :
    Call T E × Frame T E :=
  match gateCall plan call.start f with
  | (.error e, f) => leave call (.error e) f
  | (.ok breakerState, f) =>
      loopHead plan id call { breakerState, lastDelay := none, lastError := none, attemptNo := 1 }
        (depositBudget plan f)

/-- What `run_pipeline` does with the answer of an operations-scope `acquire_permit`. -/
def onOperationPermit (plan : Plan T E) (id : Nat) (call : Call T E) :
    AcquireResult × Frame T E → Call T E × Frame T E
  | (.granted, f) => gateAndDrive plan id { call with opPermit := true } f
  | (.rejected, f) =>
      let f := ((f.note .unrecorded).emit plan .concurrencyRejected).read
      leave call (.error (.concurrencyRejected
        (context 0 call.start f.core.time none .disabled))) f
  | (.queued timers, f) => ({ call with stage := .operationsQueue timers }, f)

/-- `run_pipeline` up to its first await point. -/
def runPipeline (plan : Plan T E) (id : Nat) (call : Call T E) (f : Frame T E) :
    Call T E × Frame T E :=
  let f := f.read
  let start := f.core.time
  let totalDeadline := plan.totalTimeout.map fun t => start + t
  let call := { call with start, totalDeadline }
  match plan.concurrency with
  | some limit =>
      match limit.scope with
      | .operations => onOperationPermit plan id call (acquirePermit limit totalDeadline id f)
      | .attempts => gateAndDrive plan id call f
  | none => gateAndDrive plan id call f

/-- One poll of the call's future; a finished future is not polled. -/
def pollCall (plan : Plan T E) (id : Nat) (call : Call T E) (script : Script T E)
    (f : Frame T E) : Option (Call T E × Frame T E) :=
  match call.stage with
  | .created => some (runPipeline plan id call f)
  | .operationsQueue timers => some (onOperationPermit plan id call (pollPermit id timers f))
  | .attemptsQueue d attempt timers =>
      some (onAttemptPermit plan call d attempt (pollPermit id timers f))
  | .running d permit timers =>
      some (pollAttempt plan id call d permit timers script.op
        { f with core := f.core.elapse script.opElapsed })
  | .backingOff d wake => some (pollBackoff plan id call d wake f)
  | .returned _ => none
  | .dropped => none

/-- Drop a call's future: the permits it holds are given back, nothing is recorded. -/
def dropCall (call : Call T E) (f : Frame T E) : Option (Call T E × Frame T E) :=
  let dropped : Call T E := { call with opPermit := false, stage := .dropped }
  let f := if call.opPermit then { f with sem := f.sem.release.2 } else f
  match call.stage with
  | .created | .operationsQueue _ | .attemptsQueue _ _ _ | .backingOff _ _ =>
      some (dropped, f.note .unrecorded)
  | .running _ permit _ =>
      some (dropped, (if permit then { f with sem := f.sem.release.2 } else f).note .unrecorded)
  | .returned _ => none
  | .dropped => none

end ExecutionPolicy
