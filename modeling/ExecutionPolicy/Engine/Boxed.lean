import ExecutionPolicy.Engine.System

/-! # The boxed twin of the pipeline

`run_pipeline_boxed` and `drive_boxed` take an operation that returns an owned future
and are otherwise a second copy of `run_pipeline` and `drive`. They are written down here
from their own text, statement by statement, as actions on the frame of one poll; what
both copies call is shared with the first one.
-/

namespace ExecutionPolicy

variable {T E : Type}

namespace Boxed

/-- Code that runs within one poll. -/
abbrev Act (T E α : Type) := StateM (Frame T E) α

/-- What one poll of `drive_boxed` gives: its result, or where it waits. -/
inductive Polled (T E : Type) where
  | ready (r : Except (ExecutionError E) T)
  | pending (stage : Stage T E)

/-! ## What both copies call -/

def note (o : Obs T E) : Act T E Unit := modify fun f => f.note o

def emit (plan : Plan T E) (e : Event) : Act T E Unit := modify fun f => f.emit plan e

def now : Act T E Nat := do
  modify Frame.read
  return (← get).core.time

def onCore {α : Type} (g : Core → α × Core) : Act T E α :=
  modifyGet fun f => ((g f.core).1, { f with core := (g f.core).2 })

def onBreaker {α : Type} (g : BreakerRuntime → α × BreakerRuntime) : Act T E α :=
  modifyGet fun f => ((g f.breaker).1, { f with breaker := (g f.breaker).2 })

def acquire (limit : ConcurrencyLimit) (totalDeadline : Option Nat) (id : Nat) :
    Act T E AcquireResult :=
  modifyGet (acquirePermit limit totalDeadline id)

def release : Act T E Unit := modify fun f => { f with sem := f.sem.release.2 }

def tryWithdraw : Act T E Bool := do
  match RetryBudget.tryWithdraw (← get).tokens with
  | some tokens =>
      modify fun f => { f with tokens }
      note .withdrew
      return true
  | none => return false

/-! ## `drive_boxed` -/

/-- `op(attempt)`: the owned future is pinned and not polled yet. -/
def invoke (d : Drive E) (attempt : Attempt) (permit : Bool) : Act T E (Polled T E) := do
  note (.started attempt (← get).core.time)
  return .pending (.running d permit none)

/-- The `match` on the answer of the attempts-scope `acquire_permit`. -/
def withPermit (plan : Plan T E) (call : Call T E) (d : Drive E) (attempt : Attempt) :
    AcquireResult → Act T E (Polled T E)
  | .granted => invoke d attempt true
  | .rejected => do
      emit plan .concurrencyRejected
      return .ready (.error (.concurrencyRejected
        (context d.attemptNo call.start (← now) d.lastDelay d.breakerState)))
  | .queued timers => return .pending (.attemptsQueue d attempt timers)

def loopTop (plan : Plan T E) (id : Nat) (call : Call T E) (d : Drive E) :
    Act T E (Polled T E) := do
  let attempt : Attempt := { number := d.attemptNo, start := call.start, now := ← now }
  match plan.concurrency with
  | some limit =>
      if limit.scope = .attempts then
        withPermit plan call d attempt (← acquire limit call.totalDeadline id)
      else invoke d attempt false
  | none => invoke d attempt false

/-- Below the backoff sleep, and on to the next round. -/
def nextRound (plan : Plan T E) (id : Nat) (call : Call T E) (d : Drive E) :
    Act T E (Polled T E) := do
  if let some deadline := call.totalDeadline then
    let present ← now
    note (.resumed present)
    if deadline ≤ present then
      return .ready (.error (.totalTimeout
        (context d.attemptNo call.start (← now) d.lastDelay d.breakerState)))
  loopTop plan id call { d with attemptNo := d.attemptNo + 1 }

/-- `core.sleep(delay).await`, armed to end at `wake`. -/
def sleeping (plan : Plan T E) (id : Nat) (call : Call T E) (d : Drive E) (wake : Nat) :
    Act T E (Polled T E) := do
  if wake ≤ (← now) then nextRound plan id call d
  else return .pending (.backingOff d wake)

/-- The last part of the loop body: the delay, capped by the deadline, and the sleep. -/
def announce (plan : Plan T E) (id : Nat) (call : Call T E) (d : Drive E) (raw : Nat) :
    Act T E (Polled T E) := do
  let mut delay := raw
  if let some deadline := call.totalDeadline then
    delay := Nat.min raw (Instant.durationSince deadline (← now))
  emit plan (.retryScheduled d.attemptNo delay)
  if delay = 0 then nextRound plan id call d
  else sleeping plan id call d (← onCore fun k => k.sleep delay)

/-- Before it the raw delay, and the hint that may exceed what the deadline leaves. -/
def pause (plan : Plan T E) (id : Nat) (call : Call T E) (d : Drive E) :
    Act T E (Polled T E) := do
  let raw := plan.retry.delay d.attemptNo (← onCore Core.nextU64) d.lastError
  let d := { d with lastDelay := some raw }
  if let some deadline := call.totalDeadline then
    let present ← now
    let remaining := Instant.durationSince deadline present
    note (.paused present)
    if let some err := d.lastError then
      if let some hint := plan.retry.retryAfterHint err then
        if remaining < hint then
          emit plan (.gaveUp d.attemptNo)
          return .ready (.error (.totalTimeout
            (context d.attemptNo call.start (← now) d.lastDelay d.breakerState)))
  announce plan id call d raw

def checkBudget (plan : Plan T E) (id : Nat) (call : Call T E) (d : Drive E) (ended : Nat) :
    Act T E (Polled T E) := do
  if plan.retry.budget.isSome then
    if !(← tryWithdraw) then
      emit plan (.retryBudgetExhausted d.attemptNo)
      return .ready (.error (.retryBudgetExhausted
        (context d.attemptNo call.start ended d.lastDelay d.breakerState)))
  pause plan id call d

def checkElapsed (plan : Plan T E) (id : Nat) (call : Call T E) (d : Drive E) (ended : Nat) :
    Act T E (Polled T E) := do
  if let some maxElapsed := plan.retry.maxElapsed then
    if maxElapsed ≤ Instant.durationSince ended call.start then
      emit plan (.gaveUp d.attemptNo)
      let ctx := context d.attemptNo call.start ended d.lastDelay d.breakerState
      match d.lastError with
      | some e => return .ready (.error (.operation e ctx))
      | none => return .ready (.error (.attemptTimeout ctx))
  checkBudget plan id call d ended

/-- From the end of the attempt's select on: its permit, and the `match` on its outcome. -/
def afterSelect (plan : Plan T E) (id : Nat) (call : Call T E) (d : Drive E) (permit : Bool)
    (outcome : AttemptOutcome T E) : Act T E (Polled T E) := do
  if permit then release
  let ended ← now
  note (.ended d.attemptNo outcome ended)
  let ctx := context d.attemptNo call.start ended d.lastDelay d.breakerState
  let mut lastError := d.lastError
  match outcome with
  | .totalTimeout =>
      emit plan (.gaveUp d.attemptNo)
      return .ready (.error (.totalTimeout ctx))
  | .completed result =>
      match plan.retry.decide result with
      | .stop =>
          match result with
          | .ok v =>
              emit plan (.succeeded d.attemptNo)
              return .ready (.ok v)
          | .error e =>
              emit plan (.gaveUp d.attemptNo)
              return .ready (.error (.operation e ctx))
      | .retry =>
          match result with
          | .ok v =>
              if plan.retry.maxAttempts ≤ d.attemptNo then
                emit plan (.succeeded d.attemptNo)
                return .ready (.ok v)
          | .error e =>
              if plan.retry.maxAttempts ≤ d.attemptNo then
                emit plan (.gaveUp d.attemptNo)
                return .ready (.error (.operation e ctx))
              emit plan (.attemptFailed d.attemptNo)
              lastError := some e
  | .attemptTimeout =>
      emit plan (.attemptTimedOut d.attemptNo)
      if plan.retry.maxAttempts ≤ d.attemptNo then
        emit plan (.gaveUp d.attemptNo)
        return .ready (.error (.attemptTimeout ctx))
  checkElapsed plan id call { d with lastError } ended

/-- The armed timers of the select, `at_sleep` before `tot_sleep`. -/
def pollSleeps (plan : Plan T E) (id : Nat) (call : Call T E) (d : Drive E) (permit : Bool)
    (armed : AttemptTimers) : Act T E (Polled T E) := do
  if ← onCore fun k => k.pollTimer armed.attempt then
    return ← afterSelect plan id call d permit .attemptTimeout
  if ← onCore fun k => k.pollTimer armed.total then
    return ← afterSelect plan id call d permit .totalTimeout
  return .pending (.running d permit (some armed))

def pollSelect (plan : Plan T E) (id : Nat) (call : Call T E) (d : Drive E) (permit : Bool)
    (timers : Option AttemptTimers) (op : Option (Except E T)) : Act T E (Polled T E) := do
  if let some r := op then
    return ← afterSelect plan id call d permit (.completed r)
  match timers with
  | some armed => pollSleeps plan id call d permit armed
  | none =>
      let attempt ← onCore fun k => armSleep k plan.attemptTimeout
      let total ← onCore fun k => armDeadline k call.totalDeadline
      pollSleeps plan id call d permit { attempt, total }

/-! ## `run_pipeline_boxed` -/

/-- Below the `drive_boxed(..).await`: one vote on the final pipeline outcome. -/
def afterDrive (plan : Plan T E) (call : Call T E) : Polled T E → Act T E (Call T E)
  | .pending stage => return { call with stage }
  | .ready result => do
      if let some b := plan.breaker then
        let present ← now
        let mut transition := none
        match result with
        | .ok _ =>
            transition ← onBreaker fun br => br.recordSuccess b.config present
            note (.votedSuccess present)
        | .error e =>
            if e.isTimeout then
              transition ← onBreaker fun br => br.recordFailure b.config present
              note (.votedFailure present)
            else
              match e with
              | .operation source _ =>
                  let counts := (b.recordWhen.map fun p => p source).getD true
                  if counts then
                    transition ← onBreaker fun br => br.recordFailure b.config present
                    note (.votedFailure present)
                  else
                    transition ← onBreaker fun br => br.recordSuccess b.config present
                    note (.votedSuccess present)
              | _ => note .unrecorded
        if let some state := transition then
          emit plan (.circuitStateChanged state)
      -- the locals go out of scope
      modifyGet (leave call result)

def awaitDrive (plan : Plan T E) (call : Call T E) (drive : Act T E (Polled T E)) :
    Act T E (Call T E) := do
  afterDrive plan call (← drive)

/-- The breaker gate, `drive_boxed` and what it begins with. -/
def belowPermit (plan : Plan T E) (id : Nat) (call : Call T E) : Act T E (Call T E) := do
  let mut gateState := BreakerState.disabled
  if let some b := plan.breaker then
    let present ← now
    match ← onBreaker fun br => br.gate b.config present with
    | .ok s =>
        note (.gated present)
        if s = .halfOpen then
          emit plan (.circuitStateChanged .halfOpen)
        gateState := s
    | .error () =>
        note (.gated present)
        let ctx := context 0 call.start (← now) none .open
        return ← modifyGet (leave call (.error (.circuitOpen ctx)))
  if let some b := plan.retry.budget then
    modify fun f => { f with tokens := b.deposited f.tokens }
  awaitDrive plan call (loopTop plan id call
    { breakerState := gateState, lastDelay := none, lastError := none, attemptNo := 1 })

/-- The `match` on the answer of the operations-scope `acquire_permit`. -/
def withOpPermit (plan : Plan T E) (id : Nat) (call : Call T E) :
    AcquireResult → Act T E (Call T E)
  | .granted => belowPermit plan id { call with opPermit := true }
  | .rejected => do
      note .unrecorded
      emit plan .concurrencyRejected
      let ctx := context 0 call.start (← now) none .disabled
      modifyGet (leave call (.error (.concurrencyRejected ctx)))
  | .queued timers => return { call with stage := .operationsQueue timers }

/-- `run_pipeline_boxed` up to its first await point. -/
def runPipelineBoxed (plan : Plan T E) (id : Nat) (call : Call T E) : Act T E (Call T E) := do
  let start ← now
  let totalDeadline := plan.totalTimeout.map fun t => start + t
  let call := { call with start, totalDeadline }
  match plan.concurrency with
  | some limit =>
      if limit.scope = .operations then
        withOpPermit plan id call (← acquire limit totalDeadline id)
      else belowPermit plan id call
  | none => belowPermit plan id call

/-- One poll of the future of `run_pipeline_boxed`; a finished future is not polled. -/
def pollCallBoxed (plan : Plan T E) (id : Nat) (call : Call T E) (script : Script T E) :
    Option (Act T E (Call T E)) :=
  match call.stage with
  | .created => some (runPipelineBoxed plan id call)
  | .operationsQueue timers => some do
      withOpPermit plan id call (← modifyGet (pollPermit id timers))
  | .attemptsQueue d attempt timers => some <| awaitDrive plan call do
      withPermit plan call d attempt (← modifyGet (pollPermit id timers))
  | .running d permit timers => some <| awaitDrive plan call do
      modify fun f => { f with core := f.core.elapse script.opElapsed }
      pollSelect plan id call d permit timers script.op
  | .backingOff d wake => some (awaitDrive plan call (sleeping plan id call d wake))
  | .returned _ => none
  | .dropped => none

/-! ## Agreement, stretch by stretch -/

section Actions

variable {plan : Plan T E} {f : Frame T E}

@[simp] theorem run_note (o : Obs T E) : (note o : Act T E Unit).run f = pure ((), f.note o) := rfl

@[simp] theorem run_emit (e : Event) :
    (emit plan e : Act T E Unit).run f = pure ((), f.emit plan e) := rfl

@[simp] theorem run_now : (now : Act T E Nat).run f = pure (f.read.core.time, f.read) := rfl

@[simp] theorem run_onCore {α : Type} (g : Core → α × Core) :
    (onCore g : Act T E α).run f = pure ((g f.core).1, { f with core := (g f.core).2 }) := rfl

@[simp] theorem run_onBreaker {α : Type} (g : BreakerRuntime → α × BreakerRuntime) :
    (onBreaker g : Act T E α).run f =
      pure ((g f.breaker).1, { f with breaker := (g f.breaker).2 }) := rfl

@[simp] theorem run_acquire (limit : ConcurrencyLimit) (deadline : Option Nat) (id : Nat) :
    (acquire limit deadline id : Act T E AcquireResult).run f =
      pure (acquirePermit limit deadline id f) := rfl

@[simp] theorem run_release :
    (release : Act T E Unit).run f = pure ((), { f with sem := f.sem.release.2 }) := rfl

end Actions

section Agreement

variable {plan : Plan T E} {id : Nat} {call : Call T E} {d : Drive E} {f : Frame T E}

theorem run_tryWithdraw : (tryWithdraw : Act T E Bool).run f =
    match RetryBudget.tryWithdraw f.tokens with
    | some tokens => pure (true, { f with tokens }.note .withdrew)
    | none => pure (false, f) := by
  cases h : RetryBudget.tryWithdraw f.tokens <;> simp [tryWithdraw, h]

theorem run_afterDrive_ready (r : Except (ExecutionError E) T) :
    (afterDrive plan call (.ready r)).run f = pure (finish plan call r f) := by
  unfold afterDrive finish record
  cases hb : plan.breaker with
  | none => rfl
  | some b =>
      rcases hs : f.read.breaker.recordSuccess b.config f.read.core.time with ⟨_ | _, _⟩ <;>
        rcases hf : f.read.breaker.recordFailure b.config f.read.core.time with ⟨_ | _, _⟩
      all_goals
        cases r with
        | ok v => simp [vote, hs]
        | error e =>
            cases e with
            | operation source ctx =>
              by_cases hcounts : (b.recordWhen.map fun p => p source).getD true = true
              · simp [vote, hf, hcounts, ExecutionError.isTimeout]
              · simp [vote, hs, hcounts, ExecutionError.isTimeout]
            | _ => simp [vote, hf, ExecutionError.isTimeout]

/-! The code below an `.await` is pushed to the end of what is awaited. -/

@[simp] theorem awaitDrive_bind {α : Type} (x : Act T E α) (g : α → Act T E (Polled T E)) :
    awaitDrive plan call (x >>= g) = x >>= fun a => awaitDrive plan call (g a) :=
  bind_assoc _ _ _

@[simp] theorem awaitDrive_pure (p : Polled T E) :
    awaitDrive plan call (pure p) = afterDrive plan call p := pure_bind _ _

@[simp] theorem awaitDrive_map {α : Type} (x : Act T E α) (g : α → Polled T E) :
    awaitDrive plan call (g <$> x) = x >>= fun a => afterDrive plan call (g a) :=
  bind_map_left _ _ _

@[simp] theorem run_afterDrive_pending (stage : Stage T E) :
    (afterDrive plan call (.pending stage)).run f = pure ({ call with stage }, f) := rfl

attribute [simp] run_afterDrive_ready

theorem run_invoke (attempt : Attempt) (permit : Bool) :
    (awaitDrive plan call (invoke d attempt permit)).run f =
      pure (startAttempt call d attempt permit f) := by
  simp [invoke, startAttempt]

theorem run_withPermit (attempt : Attempt) (answer : AcquireResult) :
    (awaitDrive plan call (withPermit plan call d attempt answer)).run f =
      pure (onAttemptPermit plan call d attempt (answer, f)) := by
  cases answer with
  | granted => exact run_invoke attempt true
  | rejected => simp [withPermit, onAttemptPermit]
  | queued timers => simp [withPermit, onAttemptPermit]

theorem run_loopTop :
    (awaitDrive plan call (loopTop plan id call d)).run f = pure (loopHead plan id call d f) := by
  unfold loopTop loopHead
  cases hc : plan.concurrency with
  | none => simp [run_invoke]
  | some limit =>
      cases hscope : limit.scope with
      | operations => simp [hscope, run_invoke]
      | attempts => simp [hscope, run_withPermit]

theorem run_nextRound :
    (awaitDrive plan call (nextRound plan id call d)).run f =
      pure (afterBackoff plan id call d f) := by
  unfold nextRound afterBackoff
  cases hd : call.totalDeadline with
  | none => simp [run_loopTop]
  | some deadline =>
      by_cases hle : deadline ≤ f.read.core.time
      · simp [hle, Frame.note]
      · simp [hle, Frame.note, run_loopTop]

theorem run_sleeping (wake : Nat) :
    (awaitDrive plan call (sleeping plan id call d wake)).run f =
      pure (pollBackoff plan id call d wake f) := by
  unfold sleeping pollBackoff
  by_cases hle : wake ≤ f.read.core.time
  · simp [hle, run_nextRound]
  · simp [hle]

theorem run_announce (raw : Nat) :
    (awaitDrive plan call (announce plan id call d raw)).run f =
      pure (backOff plan id call d raw f) := by
  unfold announce backOff capDelay
  cases hd : call.totalDeadline with
  | none =>
      by_cases hzero : raw = 0
      · simp [hzero, run_nextRound]
      · simp [hzero, run_sleeping]
  | some deadline =>
      simp only [awaitDrive_bind, StateT.run_bind, run_now, run_emit, pure_bind]
      generalize raw.min (Instant.durationSince deadline f.read.core.time) = delay
      by_cases hzero : delay = 0
      · simp [hzero, run_nextRound]
      · simp [hzero, run_sleeping]

theorem run_pause :
    (awaitDrive plan call (pause plan id call d)).run f =
      pure (match hintGuard plan call d f with
        | ((.exit r, _), f) => finish plan call r f
        | ((.next d, raw), f) => backOff plan id call d raw f) := by
  unfold pause hintGuard
  cases hd : call.totalDeadline with
  | none => simp [run_announce]
  | some deadline =>
      cases he : d.lastError with
      | none => simp [run_announce]
      | some e =>
          cases hhint : plan.retry.retryAfterHint e with
          | none => simp [hhint, run_announce]
          | some hint =>
              by_cases hlt : Instant.durationSince deadline
                  ({ f with core := f.core.nextU64.2 } : Frame T E).read.core.time < hint
              · simp [hhint, hlt]
              · simp [hhint, hlt, run_announce]

theorem run_checkBudget (ended : Nat) :
    (awaitDrive plan call (checkBudget plan id call d ended)).run f =
      pure (match budgetGuard plan call.start ended d f with
        | (.exit r, f) => finish plan call r f
        | (.next d, f) =>
            match hintGuard plan call d f with
            | ((.exit r, _), f) => finish plan call r f
            | ((.next d, raw), f) => backOff plan id call d raw f) := by
  unfold checkBudget budgetGuard
  cases hbudget : plan.retry.budget with
  | none => simp [run_pause]
  | some b =>
      cases hw : RetryBudget.tryWithdraw f.tokens with
      | none => simp [run_tryWithdraw, hw]
      | some tokens => simp [run_tryWithdraw, hw, run_pause]

theorem run_checkElapsed (ended : Nat) :
    (awaitDrive plan call (checkElapsed plan id call d ended)).run f =
      pure (match maxElapsedGuard plan call.start ended d f with
        | (.exit r, f) => finish plan call r f
        | (.next d, f) =>
            match budgetGuard plan call.start ended d f with
            | (.exit r, f) => finish plan call r f
            | (.next d, f) =>
                match hintGuard plan call d f with
                | ((.exit r, _), f) => finish plan call r f
                | ((.next d, raw), f) => backOff plan id call d raw f) := by
  unfold checkElapsed maxElapsedGuard
  cases hmax : plan.retry.maxElapsed with
  | none => simp [run_checkBudget]
  | some maxElapsed =>
      by_cases hle : maxElapsed ≤ Instant.durationSince ended call.start
      · cases d.lastError <;> simp [hle]
      · simp [hle, run_checkBudget]

theorem run_afterSelect (permit : Bool) (outcome : AttemptOutcome T E) :
    (awaitDrive plan call (afterSelect plan id call d permit outcome)).run f =
      pure (afterAttempt plan id call d permit outcome f) := by
  unfold afterSelect afterAttempt afterNoted matchOutcome
  cases outcome with
  | totalTimeout => cases permit <;> simp
  | attemptTimeout =>
      by_cases hmax : plan.retry.maxAttempts ≤ d.attemptNo
      · cases permit <;> simp [hmax]
      · cases permit
        all_goals
          simp only [Bool.false_eq_true, if_false, if_true, hmax, awaitDrive_bind,
            StateT.run_bind, run_release, run_now, run_note, run_emit, pure_bind]
          exact run_checkElapsed _
  | completed result =>
      cases hdecide : plan.retry.decide result with
      | stop => cases result <;> cases permit <;> simp [hdecide]
      | retry =>
          by_cases hmax : plan.retry.maxAttempts ≤ d.attemptNo
          · cases result <;> cases permit <;> simp [hdecide, hmax]
          · cases result <;> cases permit
            all_goals
              simp only [Bool.false_eq_true, if_false, if_true, hdecide, hmax, awaitDrive_bind,
                StateT.run_bind, run_release, run_now, run_note, run_emit, pure_bind]
              exact run_checkElapsed _

theorem run_pollSleeps (permit : Bool) (armed : AttemptTimers) :
    (awaitDrive plan call (pollSleeps plan id call d permit armed)).run f =
      pure (pollTimers plan id call d permit armed f) := by
  unfold pollSleeps pollTimers
  by_cases hattempt : (f.core.pollTimer armed.attempt).1 = true
  · simp [hattempt, run_afterSelect]
  · by_cases htotal : ((f.core.pollTimer armed.attempt).2.pollTimer armed.total).1 = true
    · simp [hattempt, htotal, run_afterSelect]
    · simp [hattempt, htotal]

theorem run_pollSelect (permit : Bool) (timers : Option AttemptTimers)
    (op : Option (Except E T)) :
    (awaitDrive plan call (pollSelect plan id call d permit timers op)).run f =
      pure (pollAttempt plan id call d permit timers op f) := by
  unfold pollSelect pollAttempt armTimers
  cases op with
  | some r => simp [run_afterSelect]
  | none => cases timers <;> simp [run_pollSleeps]

theorem run_belowPermit :
    (belowPermit plan id call).run f = pure (gateAndDrive plan id call f) := by
  unfold belowPermit gateAndDrive gateCall depositBudget
  cases hb : plan.breaker with
  | none => cases plan.retry.budget <;> simp [run_loopTop]
  | some b =>
      rcases hgate : f.read.breaker.gate b.config f.read.core.time with ⟨_ | s, breaker⟩
      · simp [hgate]
      · by_cases hhalf : s = .halfOpen
        · cases plan.retry.budget <;> simp [hgate, hhalf, run_loopTop]
        · cases plan.retry.budget <;> simp [hgate, hhalf, run_loopTop]

theorem run_withOpPermit (answer : AcquireResult) :
    (withOpPermit plan id call answer).run f =
      pure (onOperationPermit plan id call (answer, f)) := by
  cases answer with
  | granted => exact run_belowPermit
  | rejected => simp [withOpPermit, onOperationPermit]
  | queued timers => rfl

theorem run_runPipelineBoxed :
    (runPipelineBoxed plan id call).run f = pure (runPipeline plan id call f) := by
  unfold runPipelineBoxed runPipeline
  cases hc : plan.concurrency with
  | none => simp [run_belowPermit]
  | some limit =>
      cases hscope : limit.scope with
      | operations => simp [hscope, run_withOpPermit]
      | attempts => simp [hscope, run_belowPermit]

/-- Polled in the same frame, the two futures do the same. -/
theorem run_pollCallBoxed (plan : Plan T E) (id : Nat) (call : Call T E) (script : Script T E)
    (f : Frame T E) :
    (pollCallBoxed plan id call script).map (fun act => (act.run f).run) =
      pollCall plan id call script f := by
  unfold pollCallBoxed pollCall
  cases hstage : call.stage with
  | created => simp [run_runPipelineBoxed]
  | operationsQueue timers => simp [run_withOpPermit]
  | attemptsQueue d attempt timers => simp [run_withPermit]
  | running d permit timers => simp [run_pollSelect]
  | backingOff d wake => simp [run_sleeping]
  | returned r => rfl
  | dropped => rfl

end Agreement

end Boxed

/-! ## Agreement, run by run -/

namespace System

/-- A step of the calls of one policy, of which `boxed` says which run the boxed pipeline. -/
def stepVia (boxed : Nat → Bool) (plan : Plan T E) (s : System T E) :
    Label T E → Option (System T E)
  | .poll i script =>
      if boxed i then
        match s.calls[i]? with
        | some call =>
            (Boxed.pollCallBoxed plan i call script).map fun act =>
              s.settle i (act.run (s.frame script.ticks script.draws)).run
        | none => none
      else step plan s (.poll i script)
  -- no code of the pipeline runs in the other steps
  | l => step plan s l

theorem stepVia_eq (boxed : Nat → Bool) (plan : Plan T E) : stepVia boxed plan = step plan := by
  funext s l
  cases l with
  | poll i script =>
      by_cases hboxed : boxed i = true
      · cases hi : s.calls[i]? with
        | none => simp [stepVia, step, hboxed, hi]
        | some call =>
            have hpoll := Boxed.run_pollCallBoxed plan i call script
              (s.frame script.ticks script.draws)
            simp only [stepVia, step, hboxed, hi, if_true, ← hpoll, Option.map_map]
            rfl
      · simp [stepVia, hboxed]
  | _ => rfl

end System

end ExecutionPolicy
