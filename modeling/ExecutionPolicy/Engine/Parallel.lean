import ExecutionPolicy.Engine.Boxed
import ExecutionPolicy.Foundation.Interleaving

/-! # The pipeline on many threads

The calls of one plan share a clock, a semaphore, a breaker and a budget. When they are
polled on different threads their polls overlap: here `run_pipeline` and `drive` are written
down as programs over the shared objects, one access at a time, and any access of any call
may come next. What one access does is one step: the semaphore works under its mutex, the
breaker and the budget answer as if each operation were one step. An access that counts for
the breaker, the queue, the budget or the retry loop leaves its observation as it happens.
-/

namespace ExecutionPolicy

open Interleaving

variable {T E : Type}

namespace Parallel

/-! ## Accesses -/

inductive Access (T E : Type) where
  | now
  | nextU64
  /-- A poll of the operation's future. -/
  | operate
  | tryAcquire
  /-- `sem.queued() >= max_queued`. -/
  | queueFull (maxQueued : Nat)
  | pollAcquire
  /-- The drop of a `Permit`. -/
  | release
  | gate (cfg : BreakerConfig) (now : Nat)
  | recordSuccess (cfg : BreakerConfig) (now : Nat)
  | recordFailure (cfg : BreakerConfig) (now : Nat)
  | deposit (b : RetryBudget)
  | tryWithdraw
  /-- `op(attempt)`. -/
  | start (attempt : Attempt)
  | note (o : Obs T E)

@[reducible] def Access.Answer : Access T E → Type
  | now => Nat
  | nextU64 => UInt64
  | operate => Option (Except E T)
  | tryAcquire => Bool
  | queueFull _ => Bool
  | pollAcquire => Bool
  | release => Unit
  | gate _ _ => Except Unit BreakerState
  | recordSuccess _ _ => Option BreakerState
  | recordFailure _ _ => Option BreakerState
  | deposit _ => Unit
  | tryWithdraw => Bool
  | start _ => Unit
  | note _ => Unit

/-- What the calls share, and what they were seen doing. -/
structure Objects (T E : Type) where
  time : Nat
  breaker : BreakerRuntime
  sem : SemState
  tokens : Int
  trace : List (Nat × Obs T E)

/-- What the environment has to say in an access: the answer of the generator, and what
polling the operation gives. -/
structure Choice (T E : Type) where
  draw : UInt64
  op : Option (Except E T)

def Objects.note (k : Objects T E) (i : Nat) (o : Obs T E) : Objects T E :=
  { k with trace := k.trace ++ [(i, o)] }

def perform (i : Nat) (choice : Choice T E) :
    (a : Access T E) → Objects T E → a.Answer × Objects T E
  | .now, k => (k.time, k)
  | .nextU64, k => (choice.draw, k)
  | .operate, k => (choice.op, k)
  | .tryAcquire, k =>
      match k.sem.tryAcquire with
      | some sem => (true, { k with sem })
      | none => (false, k)
  | .queueFull maxQueued, k =>
      (decide (maxQueued ≤ k.sem.queued),
        k.note i (.queueChecked (decide (maxQueued ≤ k.sem.queued))))
  | .pollAcquire, k => ((k.sem.pollAcquire i).1, { k with sem := (k.sem.pollAcquire i).2 })
  | .release, k => ((), { k with sem := k.sem.release.2 })
  | .gate cfg now, k =>
      ((k.breaker.gate cfg now).1,
        { k with breaker := (k.breaker.gate cfg now).2 }.note i (.gated now))
  | .recordSuccess cfg now, k =>
      ((k.breaker.recordSuccess cfg now).1,
        { k with breaker := (k.breaker.recordSuccess cfg now).2 }.note i (.votedSuccess now))
  | .recordFailure cfg now, k =>
      ((k.breaker.recordFailure cfg now).1,
        { k with breaker := (k.breaker.recordFailure cfg now).2 }.note i (.votedFailure now))
  | .deposit b, k => ((), { k with tokens := b.deposited k.tokens })
  | .tryWithdraw, k =>
      match RetryBudget.tryWithdraw k.tokens with
      | some tokens => (true, { k with tokens }.note i .withdrew)
      | none => (false, k)
  | .start attempt, k => ((), k.note i (.started attempt k.time))
  | .note o, k => ((), k.note i o)

/-! ## What the code is made of -/

/-- Code of a call between two await points. -/
abbrev Code (T E α : Type) := Program (Access T E) Access.Answer α

def ask (a : Access T E) : Code T E a.Answer := Program.ask a

def now : Code T E Nat := ask .now

def note (o : Obs T E) : Code T E Unit := ask (.note o)

def emit (plan : Plan T E) (e : Event) : Code T E Unit :=
  if plan.onEvent then note (.event e) else pure ()

def sleep (d : Nat) : Code T E Nat := do return (← now) + d

/-- `core.sleep(deadline.saturating_duration_since(core.now()))`. -/
def sleepUntil (deadline : Nat) : Code T E Nat := do
  sleep (Instant.durationSince deadline (← now))

def armSleep : Option Nat → Code T E (Option Nat)
  | none => return none
  | some d => return some (← sleep d)

def armDeadline : Option Nat → Code T E (Option Nat)
  | none => return none
  | some deadline => return some (← sleepUntil deadline)

def pollTimer : Option Nat → Code T E Bool
  | none => return false
  | some wake => return decide (wake ≤ (← now))

/-! ## `acquire_permit` -/

def pollPermit (timers : QueueTimers) : Code T E AcquireResult := do
  if ← ask .pollAcquire then return .granted
  if ← pollTimer timers.queue then return .rejected
  if ← pollTimer timers.deadline then return .rejected
  return .queued timers

def acquirePermit (limit : ConcurrencyLimit) (totalDeadline : Option Nat) :
    Code T E AcquireResult := do
  if ← ask .tryAcquire then return .granted
  match limit.saturation with
  | .reject => return .rejected
  | .wait maxQueued queueTimeout =>
      if ← ask (.queueFull maxQueued) then return .rejected
      let queue ← armSleep queueTimeout
      let deadline ← armDeadline totalDeadline
      pollPermit { queue, deadline }

/-! ## `drive` -/

abbrev Polled (T E : Type) := Boxed.Polled T E

def invoke (d : Drive E) (attempt : Attempt) (permit : Bool) : Code T E (Polled T E) := do
  ask (.start attempt)
  return .pending (.running d permit none)

/-- The `match` on the answer of the attempts-scope `acquire_permit`. -/
def withPermit (plan : Plan T E) (call : Call T E) (d : Drive E) (attempt : Attempt) :
    AcquireResult → Code T E (Polled T E)
  | .granted => invoke d attempt true
  | .rejected => do
      emit plan .concurrencyRejected
      return .ready (.error (.concurrencyRejected
        (context d.attemptNo call.start (← now) d.lastDelay d.breakerState)))
  | .queued timers => return .pending (.attemptsQueue d attempt timers)

def loopTop (plan : Plan T E) (call : Call T E) (d : Drive E) : Code T E (Polled T E) := do
  let attempt : Attempt := { number := d.attemptNo, start := call.start, now := ← now }
  match plan.concurrency with
  | some limit =>
      if limit.scope = .attempts then
        withPermit plan call d attempt (← acquirePermit limit call.totalDeadline)
      else invoke d attempt false
  | none => invoke d attempt false

/-- Below the backoff sleep, and on to the next round. -/
def nextRound (plan : Plan T E) (call : Call T E) (d : Drive E) : Code T E (Polled T E) := do
  if let some deadline := call.totalDeadline then
    let present ← now
    note (.resumed present)
    if deadline ≤ present then
      return .ready (.error (.totalTimeout
        (context d.attemptNo call.start (← now) d.lastDelay d.breakerState)))
  loopTop plan call { d with attemptNo := d.attemptNo + 1 }

/-- `core.sleep(delay).await`, armed to end at `wake`. -/
def sleeping (plan : Plan T E) (call : Call T E) (d : Drive E) (wake : Nat) :
    Code T E (Polled T E) := do
  if wake ≤ (← now) then nextRound plan call d
  else return .pending (.backingOff d wake)

/-- The delay, capped by the deadline, and the sleep. -/
def announce (plan : Plan T E) (call : Call T E) (d : Drive E) (raw : Nat) :
    Code T E (Polled T E) := do
  let mut delay := raw
  if let some deadline := call.totalDeadline then
    delay := Nat.min raw (Instant.durationSince deadline (← now))
  emit plan (.retryScheduled d.attemptNo delay)
  if delay = 0 then nextRound plan call d
  else sleeping plan call d (← sleep delay)

/-- Before it the raw delay, and the hint that may exceed what the deadline leaves. -/
def pause (plan : Plan T E) (call : Call T E) (d : Drive E) : Code T E (Polled T E) := do
  let raw := plan.retry.delay d.attemptNo (← ask .nextU64) d.lastError
  let d := { d with lastDelay := some raw }
  if let some deadline := call.totalDeadline then
    let present ← now
    let remaining := Instant.durationSince deadline present
    note (.paused present)
    if let some err := d.lastError then
      if let some hint := plan.retry.retryAfterHint err then
        if remaining < hint then
          emit plan (.gaveUp d.attemptNo)
          return .ready (.error (.totalTimeout
            (context d.attemptNo call.start (← now) d.lastDelay d.breakerState)))
  announce plan call d raw

def checkBudget (plan : Plan T E) (call : Call T E) (d : Drive E) (ended : Nat) :
    Code T E (Polled T E) := do
  if plan.retry.budget.isSome then
    if !(← ask .tryWithdraw) then
      emit plan (.retryBudgetExhausted d.attemptNo)
      return .ready (.error (.retryBudgetExhausted
        (context d.attemptNo call.start ended d.lastDelay d.breakerState)))
  pause plan call d

def checkElapsed (plan : Plan T E) (call : Call T E) (d : Drive E) (ended : Nat) :
    Code T E (Polled T E) := do
  if let some maxElapsed := plan.retry.maxElapsed then
    if maxElapsed ≤ Instant.durationSince ended call.start then
      emit plan (.gaveUp d.attemptNo)
      let ctx := context d.attemptNo call.start ended d.lastDelay d.breakerState
      match d.lastError with
      | some e => return .ready (.error (.operation e ctx))
      | none => return .ready (.error (.attemptTimeout ctx))
  checkBudget plan call d ended

/-- The `match` on the outcome of an attempt that was over at `ended`. -/
def matchOutcome (plan : Plan T E) (call : Call T E) (d : Drive E)
    (outcome : AttemptOutcome T E) (ended : Nat) : Code T E (Polled T E) := do
  let ctx := context d.attemptNo call.start ended d.lastDelay d.breakerState
  match outcome with
  | .totalTimeout =>
      emit plan (.gaveUp d.attemptNo)
      return .ready (.error (.totalTimeout ctx))
  | .completed result =>
      match plan.retry.decide result with
      | .stop =>
          match result with
          | .ok v =>
              emit plan (.succeeded d.attemptNo)
              return .ready (.ok v)
          | .error e =>
              emit plan (.gaveUp d.attemptNo)
              return .ready (.error (.operation e ctx))
      | .retry =>
          match result with
          | .ok v =>
              if plan.retry.maxAttempts ≤ d.attemptNo then
                emit plan (.succeeded d.attemptNo)
                return .ready (.ok v)
              else checkElapsed plan call d ended
          | .error e =>
              if plan.retry.maxAttempts ≤ d.attemptNo then
                emit plan (.gaveUp d.attemptNo)
                return .ready (.error (.operation e ctx))
              else
                emit plan (.attemptFailed d.attemptNo)
                checkElapsed plan call { d with lastError := some e } ended
  | .attemptTimeout =>
      emit plan (.attemptTimedOut d.attemptNo)
      if plan.retry.maxAttempts ≤ d.attemptNo then
        emit plan (.gaveUp d.attemptNo)
        return .ready (.error (.attemptTimeout ctx))
      else checkElapsed plan call d ended

/-- From the end of the attempt's select on: first its permit is dropped. -/
def afterSelect (plan : Plan T E) (call : Call T E) (d : Drive E) (permit : Bool)
    (outcome : AttemptOutcome T E) : Code T E (Polled T E) := do
  if permit then ask .release
  let ended ← now
  note (.ended d.attemptNo outcome ended)
  matchOutcome plan call d outcome ended

/-- The armed timers of the select, `at_sleep` before `tot_sleep`. -/
def pollSleeps (plan : Plan T E) (call : Call T E) (d : Drive E) (permit : Bool)
    (armed : AttemptTimers) : Code T E (Polled T E) := do
  if ← pollTimer armed.attempt then afterSelect plan call d permit .attemptTimeout
  else if ← pollTimer armed.total then afterSelect plan call d permit .totalTimeout
  else return .pending (.running d permit (some armed))

def pollSelect (plan : Plan T E) (call : Call T E) (d : Drive E) (permit : Bool)
    (timers : Option AttemptTimers) : Code T E (Polled T E) := do
  match ← ask .operate with
  | some r => afterSelect plan call d permit (.completed r)
  | none =>
      match timers with
      | some armed => pollSleeps plan call d permit armed
      | none =>
          let attempt ← armSleep plan.attemptTimeout
          let total ← armDeadline call.totalDeadline
          pollSleeps plan call d permit { attempt, total }

/-! ## `run_pipeline` -/

/-- The locals of `run_pipeline`, hence its permit, are dropped and the result is out. -/
def leave (call : Call T E) (result : Except (ExecutionError E) T) : Code T E (Call T E) := do
  if call.opPermit then ask .release
  return { call with opPermit := false, stage := .returned result }

def vote (b : CompiledBreaker E) (present : Nat) :
    Except (ExecutionError E) T → Code T E (Option BreakerState)
  | .ok _ => ask (.recordSuccess b.config present)
  | .error e =>
      if e.isTimeout then ask (.recordFailure b.config present)
      else
        match e with
        | .operation source _ =>
            if (b.recordWhen.map fun p => p source).getD true then
              ask (.recordFailure b.config present)
            else ask (.recordSuccess b.config present)
        | _ => do
            note .unrecorded
            return none

def record (plan : Plan T E) (result : Except (ExecutionError E) T) : Code T E Unit := do
  if let some b := plan.breaker then
    if let some state := ← vote b (← now) result then
      emit plan (.circuitStateChanged state)

/-- Below the `drive(..).await`. -/
def afterDrive (plan : Plan T E) (call : Call T E) : Polled T E → Code T E (Call T E)
  | .pending stage => return { call with stage }
  | .ready result => do
      record plan result
      leave call result

def awaitDrive (plan : Plan T E) (call : Call T E) (drive : Code T E (Polled T E)) :
    Code T E (Call T E) := do
  afterDrive plan call (← drive)

/-- `drive` from its beginning, with what the gate said. -/
def enterDrive (plan : Plan T E) (call : Call T E) (breakerState : BreakerState) :
    Code T E (Call T E) := do
  if let some b := plan.retry.budget then ask (.deposit b)
  awaitDrive plan call (loopTop plan call
    { breakerState, lastDelay := none, lastError := none, attemptNo := 1 })

def belowPermit (plan : Plan T E) (call : Call T E) : Code T E (Call T E) := do
  match plan.breaker with
  | none => enterDrive plan call .disabled
  | some b =>
      match ← ask (.gate b.config (← now)) with
      | .ok s =>
          if s = .halfOpen then emit plan (.circuitStateChanged .halfOpen)
          enterDrive plan call s
      | .error () =>
          leave call (.error (.circuitOpen (context 0 call.start (← now) none .open)))

/-- The `match` on the answer of the operations-scope `acquire_permit`. -/
def withOpPermit (plan : Plan T E) (call : Call T E) : AcquireResult → Code T E (Call T E)
  | .granted => belowPermit plan { call with opPermit := true }
  | .rejected => do
      note .unrecorded
      emit plan .concurrencyRejected
      leave call (.error (.concurrencyRejected (context 0 call.start (← now) none .disabled)))
  | .queued timers => return { call with stage := .operationsQueue timers }

def runPipeline (plan : Plan T E) (call : Call T E) : Code T E (Call T E) := do
  let start ← now
  let totalDeadline := plan.totalTimeout.map fun t => start + t
  let call := { call with start, totalDeadline }
  match plan.concurrency with
  | some limit =>
      if limit.scope = .operations then
        withOpPermit plan call (← acquirePermit limit totalDeadline)
      else belowPermit plan call
  | none => belowPermit plan call

/-- One poll of the call's future; a finished future is not polled. -/
def pollCall (plan : Plan T E) (call : Call T E) : Option (Code T E (Call T E)) :=
  match call.stage with
  | .created => some (runPipeline plan call)
  | .operationsQueue timers => some do withOpPermit plan call (← pollPermit timers)
  | .attemptsQueue d attempt timers =>
      some <| awaitDrive plan call do withPermit plan call d attempt (← pollPermit timers)
  | .running d permit timers => some (awaitDrive plan call (pollSelect plan call d permit timers))
  | .backingOff d wake => some (awaitDrive plan call (sleeping plan call d wake))
  | .returned _ => none
  | .dropped => none

/-- The drop of the future at an await point: the locals of `drive` go before those of
`run_pipeline`. -/
def dropCall (call : Call T E) : Option (Code T E (Call T E)) :=
  match call.stage with
  | .returned _ => none
  | .dropped => none
  | .running _ permit _ => some do
      if permit then ask .release
      if call.opPermit then ask .release
      note .unrecorded
      return { call with opPermit := false, stage := .dropped }
  | _ => some do
      if call.opPermit then ask .release
      note .unrecorded
      return { call with opPermit := false, stage := .dropped }

/-! ## The calls together -/

inductive Move where
  | poll
  | drop

/-- What happens to the shared objects besides. -/
inductive Disturbance where
  | elapse (d : Nat)
  | depositElsewhere
  | withdrawElsewhere

def disturb (plan : Plan T E) : Disturbance → Objects T E → Option (Objects T E)
  | .elapse d, k => some { k with time := k.time + d }
  | .depositElsewhere, k =>
      plan.retry.budget.map fun b => { k with tokens := b.deposited k.tokens }
  | .withdrawElsewhere, k =>
      match plan.retry.budget with
      | some _ => (RetryBudget.tryWithdraw k.tokens).map fun tokens => { k with tokens }
      | none => none

theorem disturb_withdraw {plan : Plan T E} {k k' : Objects T E}
    (h : disturb plan .withdrawElsewhere k = some k') :
    ∃ b tokens, plan.retry.budget = some b ∧ RetryBudget.tryWithdraw k.tokens = some tokens ∧
      k' = { k with tokens } := by
  simp only [disturb] at h
  split at h
  next b hb =>
      obtain ⟨tokens, htokens, hk⟩ := Option.map_eq_some_iff.mp h
      exact ⟨b, tokens, hb, htokens, hk.symm⟩
  next => cases h

/-- The calls of a plan as jobs on its shared objects. -/
def machine (plan : Plan T E) :
    Machine (Objects T E) (Access T E) Access.Answer (Call T E) Move (Choice T E) Disturbance where
  fresh := System.created
  arrive i k := k.note i .arrived
  program
    | .poll, call => pollCall plan call
    | .drop, call => dropCall call
  perform := perform
  disturb := disturb plan

abbrev Threads (T E : Type) := Pool (Objects T E) (Access T E) Access.Answer (Call T E)

abbrev Label (T E : Type) := Interleaving.Label Move (Choice T E) Disturbance

def init (plan : Plan T E) (start : Nat) : Threads T E where
  objects :=
    { time := start
      breaker := .new ((plan.breaker.map fun b => b.config.trip).getD (.consecutive 1))
      sem := .new ((plan.concurrency.map fun c => c.permits).getD 0)
      tokens := (plan.retry.budget.map fun b => b.initialTokens).getD 0
      trace := [] }
  jobs := []

def step (plan : Plan T E) : Threads T E → Label T E → Option (Threads T E) :=
  (machine plan).step

def Objects.logOf (k : Objects T E) (i : Nat) : List (Obs T E) :=
  k.trace.filterMap fun p => if p.1 = i then some p.2 else none

end Parallel

end ExecutionPolicy
