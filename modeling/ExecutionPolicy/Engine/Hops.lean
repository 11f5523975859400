import ExecutionPolicy.Engine.System

/-! # A stretch in small steps

The code between two await points, one decision at a time. A `Spot` says where in
`run_pipeline` or `drive` a call is and which locals are alive there; a `Hop` is one
decision with its effect on the frame. Every poll is a walk of hops, so a property of
calls is preserved by polls as soon as each single hop preserves it.
-/

namespace ExecutionPolicy

open Relation StepSystem

variable {T E : Type}

/-! ## Events -/

/-- What a hook sees of these events. -/
def Plan.news (plan : Plan T E) (es : List Event) : List (Obs T E) :=
  if plan.onEvent then es.map .event else []

def Frame.emits (plan : Plan T E) (f : Frame T E) (es : List Event) : Frame T E :=
  { f with log := f.log ++ plan.news es }

namespace Frame

variable (plan : Plan T E) (f : Frame T E) (o : Obs T E) (e : Event) (es : List Event)

theorem emit_eq_emits : f.emit plan e = f.emits plan [e] := by
  unfold emit emits Plan.news
  split
  · rfl
  · simp

theorem emits_nil : f.emits plan [] = f := by
  simp [emits, Plan.news]

theorem emit_emit (e' : Event) : (f.emit plan e).emit plan e' = f.emits plan [e, e'] := by
  rw [emit_eq_emits, emit_eq_emits]
  unfold emits Plan.news
  split <;> simp

@[simp] theorem note_log : (f.note o).log = f.log ++ [o] := rfl

@[simp] theorem note_toShared : (f.note o).toShared = f.toShared := rfl

@[simp] theorem emits_log : (f.emits plan es).log = f.log ++ plan.news es := rfl

@[simp] theorem emits_toShared : (f.emits plan es).toShared = f.toShared := rfl

@[simp] theorem emit_log : (f.emit plan e).log = f.log ++ plan.news [e] := by
  rw [emit_eq_emits, emits_log]

@[simp] theorem emit_toShared : (f.emit plan e).toShared = f.toShared := by
  rw [emit_eq_emits, emits_toShared]

end Frame

theorem Plan.forall_news {plan : Plan T E} {es : List Event} {P : Obs T E → Prop}
    (hes : ∀ e ∈ es, P (.event e)) : ∀ o ∈ plan.news es, P o := by
  intro o ho
  unfold Plan.news at ho
  split at ho
  · obtain ⟨e, he, rfl⟩ := List.mem_map.mp ho
    exact hes e he
  · cases ho

theorem Plan.not_mem_news {plan : Plan T E} {es : List Event} {o : Obs T E}
    (ho : ∀ e, .event e ≠ o) : o ∉ plan.news es := fun hmem =>
  Plan.forall_news (P := fun o' => o' ≠ o) (fun e _ => ho e) o hmem rfl

theorem Plan.news_eq {plan : Plan T E} (hook : plan.onEvent = true) (es : List Event) :
    plan.news es = es.map (.event : Event → Obs T E) := by
  rw [Plan.news, if_pos hook]

theorem vote_eq (plan : Plan T E) (o : Obs T E) (recorded : Option BreakerState × BreakerRuntime)
    (f : Frame T E) :
    vote plan o recorded f = ({ f with breaker := recorded.2 }.note o).emits plan
      (recorded.1.toList.map .circuitStateChanged) := by
  unfold vote
  rcases recorded.1 with _ | state
  · exact (Frame.emits_nil plan _).symm
  · exact Frame.emit_eq_emits plan _ _

/-! ## Where a call is -/

inductive Applicant (E : Type) where
  | operation
  | attempt (d : Drive E) (attempt : Attempt)

def Applicant.queue (timers : QueueTimers) : Applicant E → Stage T E
  | operation => .operationsQueue timers
  | attempt d a => .attemptsQueue d a timers

def Applicant.scope : Applicant E → Scope
  | operation => .operations
  | attempt _ _ => .attempts

/-- A place in the code between two await points. -/
inductive Spot (T E : Type) where
  /-- At an await point, before the first poll, or over: see the stage. -/
  | suspended
  | entering
  | asking (a : Applicant E)
  | waiting (a : Applicant E) (timers : QueueTimers)
  | granted (a : Applicant E)
  | refused (a : Applicant E)
  | gating
  | admitted (s : BreakerState)
  | head (d : Drive E)
  | starting (d : Drive E) (attempt : Attempt) (permit : Bool)
  | ending (d : Drive E) (outcome : AttemptOutcome T E)
  | judging (d : Drive E) (outcome : AttemptOutcome T E) (now : Nat)
  | retrying (d : Drive E) (now : Nat)
  | charging (d : Drive E) (now : Nat)
  | pausing (d : Drive E)
  | drawn (d : Drive E) (raw : Nat)
  | scheduling (d : Drive E) (raw : Nat)
  | scheduled (d : Drive E) (delay : Nat)
  | dozing (d : Drive E) (wake : Nat)
  | waking (d : Drive E)
  /-- `drive` returns `r`, or the call is turned away before it. -/
  | exiting (r : Except (ExecutionError E) T)
  | leaving (r : Except (ExecutionError E) T)

structure Cursor (T E : Type) where
  call : Call T E
  spot : Spot T E
  shared : Shared

/-! ## The decisions -/

/-- The scope of the plan's permits, when it limits concurrency. -/
def Plan.scope? (plan : Plan T E) : Option Scope := plan.concurrency.map (·.scope)

def settledEvents (number : Nat) : AttemptOutcome T E → List Event
  | .completed (.ok _) => [.succeeded number]
  | .completed (.error _) => [.gaveUp number]
  | .attemptTimeout => [.attemptTimedOut number, .gaveUp number]
  | .totalTimeout => [.gaveUp number]

/-- The events of an outcome after which the loop goes on. -/
def retriedEvents (number : Nat) : AttemptOutcome T E → List Event
  | .completed (.error _) => [.attemptFailed number]
  | .attemptTimeout => [.attemptTimedOut number]
  | _ => []

theorem settledEvents_ofLoop (number : Nat) (outcome : AttemptOutcome T E) (state : BreakerState) :
    Event.circuitStateChanged state ∉ settledEvents number outcome := by
  cases outcome with
  | completed r => cases r <;> simp [settledEvents]
  | _ => simp [settledEvents]

theorem retriedEvents_ofLoop (number : Nat) (outcome : AttemptOutcome T E) (state : BreakerState) :
    Event.circuitStateChanged state ∉ retriedEvents number outcome := by
  cases outcome with
  | completed r => cases r <;> simp [retriedEvents]
  | _ => simp [retriedEvents]

def cappedDelay (totalDeadline : Option Nat) (raw now : Nat) : Nat :=
  match totalDeadline with
  | some deadline => Nat.min raw (Instant.durationSince deadline now)
  | none => raw

/-- The tokens once a call has passed the gate. -/
def Plan.deposited (plan : Plan T E) (tokens : Int) : Int :=
  match plan.retry.budget with
  | some b => b.deposited tokens
  | none => tokens

theorem depositBudget_eq (plan : Plan T E) (f : Frame T E) :
    depositBudget plan f = { f with tokens := plan.deposited f.tokens } := by
  unfold depositBudget Plan.deposited
  cases plan.retry.budget <;> rfl

/-- How the breaker is told of a result: as a failure, as a success, or not at all. -/
def CompiledBreaker.verdict (b : CompiledBreaker E) : Except (ExecutionError E) T → Option Bool
  | .ok _ => some false
  | .error (.operation source _) => some ((b.recordWhen.map fun p => p source).getD true)
  | .error (.attemptTimeout _) => some true
  | .error (.totalTimeout _) => some true
  | .error _ => none

/-- One decision, with what is observed of it. A hop at which the code reads the clock
finds the reading in the shared state; `now` is a reading taken later. -/
inductive Hop (plan : Plan T E) (id : Nat) : Cursor T E → List (Obs T E) → Cursor T E → Prop
  /-- The clock is read, timers are armed and polled, the generator is asked. -/
  | core {call spot k core} (hk : Reads k.core core) :
      Hop plan id ⟨call, spot, k⟩ [] ⟨call, spot, { k with core }⟩
  | work {call k d permit timers} (spent : Nat) (hs : call.stage = .running d permit timers) :
      Hop plan id ⟨call, .suspended, k⟩ []
        ⟨call, .suspended, { k with core := k.core.elapse spent }⟩
  | begin {call k} (hs : call.stage = .created) :
      Hop plan id ⟨call, .suspended, k⟩ []
        ⟨{ call with
            start := k.core.time
            totalDeadline := plan.totalTimeout.map fun t => k.core.time + t }, .entering, k⟩
  | enterOperations {call k} (hc : plan.scope? = some .operations) :
      Hop plan id ⟨call, .entering, k⟩ [] ⟨call, .asking .operation, k⟩
  | enter {call k} (hc : plan.scope? ≠ some .operations) :
      Hop plan id ⟨call, .entering, k⟩ [] ⟨call, .gating, k⟩
  -- `acquire_permit`
  | take {call a k limit} (hc : plan.concurrency = some limit) (hfree : 0 < k.sem.permits) :
      Hop plan id ⟨call, .asking a, k⟩ []
        ⟨call, .granted a, { k with sem := { k.sem with permits := k.sem.permits - 1 } }⟩
  | shed {call a k limit} (hc : plan.concurrency = some limit) (hfree : k.sem.permits = 0)
      (hp : limit.saturation = .reject) :
      Hop plan id ⟨call, .asking a, k⟩ [] ⟨call, .refused a, k⟩
  | full {call a k limit maxQueued timeout} (hc : plan.concurrency = some limit)
      (hfree : k.sem.permits = 0) (hp : limit.saturation = .wait maxQueued timeout)
      (hfull : maxQueued ≤ k.sem.queued) :
      Hop plan id ⟨call, .asking a, k⟩ [.queueChecked true] ⟨call, .refused a, k⟩
  | join {call a k limit maxQueued timeout} (timers : QueueTimers)
      (hc : plan.concurrency = some limit) (hfree : k.sem.permits = 0)
      (hp : limit.saturation = .wait maxQueued timeout) (hroom : k.sem.queued < maxQueued) :
      Hop plan id ⟨call, .asking a, k⟩ [.queueChecked false] ⟨call, .waiting a timers, k⟩
  | repoll {call a k timers} (hs : call.stage = a.queue timers) :
      Hop plan id ⟨call, .suspended, k⟩ [] ⟨call, .waiting a timers, k⟩
  | pick {call a k timers} (hfree : 0 < k.sem.permits) :
      Hop plan id ⟨call, .waiting a timers, k⟩ []
        ⟨call, .granted a, { k with sem := { k.sem with permits := k.sem.permits - 1 } }⟩
  | giveUp {call a k timers} (hfree : k.sem.permits = 0) :
      Hop plan id ⟨call, .waiting a timers, k⟩ []
        ⟨call, .refused a, { k with sem := { k.sem with waiters := k.sem.waiters ++ [id] } }⟩
  | park {call a k timers} (hfree : k.sem.permits = 0) :
      Hop plan id ⟨call, .waiting a timers, k⟩ []
        ⟨{ call with stage := a.queue timers }, .suspended,
          { k with sem := { k.sem with waiters := k.sem.waiters ++ [id] } }⟩
  | grantOperation {call k} :
      Hop plan id ⟨call, .granted .operation, k⟩ [] ⟨{ call with opPermit := true }, .gating, k⟩
  | grantAttempt {call d attempt k} :
      Hop plan id ⟨call, .granted (.attempt d attempt), k⟩ [] ⟨call, .starting d attempt true, k⟩
  | refuseOperation {call k} (now : Nat) :
      Hop plan id ⟨call, .refused .operation, k⟩ (.unrecorded :: plan.news [.concurrencyRejected])
        ⟨call,
          .leaving (.error (.concurrencyRejected (context 0 call.start now none .disabled))), k⟩
  | refuseAttempt {call d attempt k} (now : Nat) :
      Hop plan id ⟨call, .refused (.attempt d attempt), k⟩ (plan.news [.concurrencyRejected])
        ⟨call, .exiting (.error (.concurrencyRejected
            (context d.attemptNo call.start now d.lastDelay d.breakerState))), k⟩
  -- the gate
  | noGate {call k} (hb : plan.breaker = none) :
      Hop plan id ⟨call, .gating, k⟩ [] ⟨call, .admitted .disabled, k⟩
  | pass {call k b s breaker} (hb : plan.breaker = some b)
      (hg : k.breaker.gate b.config k.core.time = (.ok s, breaker)) :
      Hop plan id ⟨call, .gating, k⟩
        (.gated k.core.time :: plan.news
          (if s = BreakerState.halfOpen then [.circuitStateChanged .halfOpen] else []))
        ⟨call, .admitted s, { k with breaker }⟩
  | turnAway {call k b breaker} (now : Nat) (hb : plan.breaker = some b)
      (hg : k.breaker.gate b.config k.core.time = (.error (), breaker)) :
      Hop plan id ⟨call, .gating, k⟩ [.gated k.core.time]
        ⟨call, .leaving (.error (.circuitOpen (context 0 call.start now none .open))),
          { k with breaker }⟩
  | deposit {call s k} :
      Hop plan id ⟨call, .admitted s, k⟩ []
        ⟨call, .head (.first s), { k with tokens := plan.deposited k.tokens }⟩
  -- the loop
  | headFree {call d k} (hc : plan.scope? ≠ some .attempts) :
      Hop plan id ⟨call, .head d, k⟩ []
        ⟨call,
          .starting d { number := d.attemptNo, start := call.start, now := k.core.time } false, k⟩
  | headAsk {call d k} (hc : plan.scope? = some .attempts) :
      Hop plan id ⟨call, .head d, k⟩ []
        ⟨call, .asking (.attempt d
          { number := d.attemptNo, start := call.start, now := k.core.time }), k⟩
  | start {call d attempt permit k} :
      Hop plan id ⟨call, .starting d attempt permit, k⟩ [.started attempt k.core.time]
        ⟨{ call with stage := .running d permit none }, .suspended, k⟩
  | pend {call d permit timers k} (timers' : AttemptTimers)
      (hs : call.stage = .running d permit timers) :
      Hop plan id ⟨call, .suspended, k⟩ []
        ⟨{ call with stage := .running d permit (some timers') }, .suspended, k⟩
  | cease {call d permit timers k} (outcome : AttemptOutcome T E)
      (hs : call.stage = .running d permit timers) :
      Hop plan id ⟨call, .suspended, k⟩ []
        ⟨call, .ending d outcome, if permit then { k with sem := k.sem.release.2 } else k⟩
  | noteEnd {call d outcome k} :
      Hop plan id ⟨call, .ending d outcome, k⟩ [.ended d.attemptNo outcome k.core.time]
        ⟨call, .judging d outcome k.core.time, k⟩
  | settle {call d outcome now k} (hstop : ¬ GoesOn plan d.attemptNo outcome) :
      Hop plan id ⟨call, .judging d outcome now, k⟩
        (plan.news (settledEvents d.attemptNo outcome))
        ⟨call, .exiting (outcome.own
            (context d.attemptNo call.start now d.lastDelay d.breakerState)), k⟩
  | retry {call d outcome now k} (hgo : GoesOn plan d.attemptNo outcome) :
      Hop plan id ⟨call, .judging d outcome now, k⟩
        (plan.news (retriedEvents d.attemptNo outcome)) ⟨call, .retrying (d.seen outcome) now, k⟩
  | elapsed {call d now k} (hout : OutOfTime plan call.start now) :
      Hop plan id ⟨call, .retrying d now, k⟩ (plan.news [.gaveUp d.attemptNo])
        ⟨call, .exiting (elapsedResult d.lastError
            (context d.attemptNo call.start now d.lastDelay d.breakerState)), k⟩
  | inTime {call d now k} (hin : ¬ OutOfTime plan call.start now) :
      Hop plan id ⟨call, .retrying d now, k⟩ [] ⟨call, .charging d now, k⟩
  | deny {call d now k b} (hb : plan.retry.budget = some b)
      (hw : RetryBudget.tryWithdraw k.tokens = none) :
      Hop plan id ⟨call, .charging d now, k⟩ (plan.news [.retryBudgetExhausted d.attemptNo])
        ⟨call, .exiting (.error (.retryBudgetExhausted
            (context d.attemptNo call.start now d.lastDelay d.breakerState))), k⟩
  | withdraw {call d now k b tokens} (hb : plan.retry.budget = some b)
      (hw : RetryBudget.tryWithdraw k.tokens = some tokens) :
      Hop plan id ⟨call, .charging d now, k⟩ [.withdrew] ⟨call, .pausing d, { k with tokens }⟩
  | unbudgeted {call d now k} (hb : plan.retry.budget = none) :
      Hop plan id ⟨call, .charging d now, k⟩ [] ⟨call, .pausing d, k⟩
  | draw {call d k} (rng : UInt64) :
      Hop plan id ⟨call, .pausing d, k⟩ []
        ⟨call, .drawn { d with lastDelay := some (plan.retry.delay d.attemptNo rng d.lastError) }
          (plan.retry.delay d.attemptNo rng d.lastError), k⟩
  | unbounded {call d raw k} (hd : call.totalDeadline = none) :
      Hop plan id ⟨call, .drawn d raw, k⟩ [] ⟨call, .scheduling d raw, k⟩
  | bail {call d raw k deadline hint} (now : Nat) (hd : call.totalDeadline = some deadline)
      (hh : d.lastError.bind plan.retry.retryAfterHint = some hint)
      (hlt : Instant.durationSince deadline k.core.time < hint) :
      Hop plan id ⟨call, .drawn d raw, k⟩
        (.paused k.core.time :: plan.news [.gaveUp d.attemptNo])
        ⟨call, .exiting (.error (.totalTimeout
            (context d.attemptNo call.start now d.lastDelay d.breakerState))), k⟩
  | fits {call d raw k deadline} (hd : call.totalDeadline = some deadline)
      (hle : ∀ hint, d.lastError.bind plan.retry.retryAfterHint = some hint →
        hint ≤ Instant.durationSince deadline k.core.time) :
      Hop plan id ⟨call, .drawn d raw, k⟩ [.paused k.core.time] ⟨call, .scheduling d raw, k⟩
  | schedule {call d raw k} :
      Hop plan id ⟨call, .scheduling d raw, k⟩
        (plan.news [.retryScheduled d.attemptNo (cappedDelay call.totalDeadline raw k.core.time)])
        ⟨call, .scheduled d (cappedDelay call.totalDeadline raw k.core.time), k⟩
  | skip {call d k} :
      Hop plan id ⟨call, .scheduled d 0, k⟩ [] ⟨call, .waking d, k⟩
  | sleep {call d delay k} (hpos : 0 < delay) :
      Hop plan id ⟨call, .scheduled d delay, k⟩ [] ⟨call, .dozing d (k.core.time + delay), k⟩
  | nap {call d wake k} :
      Hop plan id ⟨call, .dozing d wake, k⟩ []
        ⟨{ call with stage := .backingOff d wake }, .suspended, k⟩
  | rouse {call d wake k} (hs : call.stage = .backingOff d wake) :
      Hop plan id ⟨call, .suspended, k⟩ [] ⟨call, .dozing d wake, k⟩
  | wake {call d wake k} (hw : wake ≤ k.core.time) :
      Hop plan id ⟨call, .dozing d wake, k⟩ [] ⟨call, .waking d, k⟩
  | again {call d k} (hd : call.totalDeadline = none) :
      Hop plan id ⟨call, .waking d, k⟩ [] ⟨call, .head { d with attemptNo := d.attemptNo + 1 }, k⟩
  | resume {call d k deadline} (hd : call.totalDeadline = some deadline)
      (hlt : k.core.time < deadline) :
      Hop plan id ⟨call, .waking d, k⟩ [.resumed k.core.time]
        ⟨call, .head { d with attemptNo := d.attemptNo + 1 }, k⟩
  | expire {call d k deadline} (now : Nat) (hd : call.totalDeadline = some deadline)
      (hle : deadline ≤ k.core.time) :
      Hop plan id ⟨call, .waking d, k⟩ [.resumed k.core.time]
        ⟨call, .exiting (.error (.totalTimeout
            (context d.attemptNo call.start now d.lastDelay d.breakerState))), k⟩
  -- the end
  | noVote {call r k} (hb : plan.breaker = none) :
      Hop plan id ⟨call, .exiting r, k⟩ [] ⟨call, .leaving r, k⟩
  | voteSuccess {call r k b recorded} (hb : plan.breaker = some b)
      (hv : b.verdict r = some false)
      (hrec : k.breaker.recordSuccess b.config k.core.time = recorded) :
      Hop plan id ⟨call, .exiting r, k⟩
        (.votedSuccess k.core.time :: plan.news (recorded.1.toList.map .circuitStateChanged))
        ⟨call, .leaving r, { k with breaker := recorded.2 }⟩
  | voteFailure {call r k b recorded} (hb : plan.breaker = some b)
      (hv : b.verdict r = some true)
      (hrec : k.breaker.recordFailure b.config k.core.time = recorded) :
      Hop plan id ⟨call, .exiting r, k⟩
        (.votedFailure k.core.time :: plan.news (recorded.1.toList.map .circuitStateChanged))
        ⟨call, .leaving r, { k with breaker := recorded.2 }⟩
  | abstain {call r k b} (hb : plan.breaker = some b) (hv : b.verdict r = none) :
      Hop plan id ⟨call, .exiting r, k⟩ [.unrecorded] ⟨call, .leaving r, k⟩
  | leave {call r k} :
      Hop plan id ⟨call, .leaving r, k⟩ []
        ⟨{ call with opPermit := false, stage := .returned r }, .suspended,
          if call.opPermit then { k with sem := k.sem.release.2 } else k⟩

theorem Hop.time_le {plan : Plan T E} {id : Nat} {c c' : Cursor T E} {os : List (Obs T E)}
    (hop : Hop plan id c os c') : c.shared.core.time ≤ c'.shared.core.time := by
  cases hop with
  | core hk => exact hk.later
  | work spent => exact Nat.le_add_right _ _
  | cease | leave => split <;> exact Nat.le_refl _
  | _ => exact Nat.le_refl _

/-! ## What a hop observes -/

/-- Neither an attempt nor the withdrawal of a token. -/
def Obs.isIdle : Obs T E → Bool
  | .started _ _ => false
  | .ended _ _ _ => false
  | .withdrew => false
  | _ => true

theorem Obs.calm_of_idle {o : Obs T E} (h : o.isIdle = true) : o.isAttempt = false := by
  cases o <;> simp_all [Obs.isIdle, Obs.isAttempt]

theorem Plan.news_idle {plan : Plan T E} {es : List Event} :
    ∀ o ∈ (plan.news es : List (Obs T E)), o.isIdle = true :=
  Plan.forall_news fun _ _ => rfl

section Observations

variable {plan : Plan T E} {id : Nat} {c c' : Cursor T E} {os : List (Obs T E)}

/-- A hop starts an attempt, ends one, withdraws a token, or observes none of this. -/
theorem Hop.idle (hop : Hop plan id c os c') :
    (∃ call d attempt permit k, c = ⟨call, .starting d attempt permit, k⟩ ∧
        os = [.started attempt k.core.time] ∧
        c' = ⟨{ call with stage := .running d permit none }, .suspended, k⟩) ∨
      (∃ call d outcome k, c = ⟨call, .ending d outcome, k⟩ ∧
        os = [.ended d.attemptNo outcome k.core.time] ∧
        c' = ⟨call, .judging d outcome k.core.time, k⟩) ∨
      (∃ call d now k tokens, c = ⟨call, .charging d now, k⟩ ∧ os = [.withdrew] ∧
        c' = ⟨call, .pausing d, { k with tokens }⟩) ∨
      ∀ o ∈ os, o.isIdle = true := by
  cases hop with
  | start => exact .inl ⟨_, _, _, _, _, rfl, rfl, rfl⟩
  | noteEnd => exact .inr (.inl ⟨_, _, _, _, rfl, rfl, rfl⟩)
  | withdraw => exact .inr (.inr (.inl ⟨_, _, _, _, _, rfl, rfl, rfl⟩))
  | refuseOperation | pass | bail | voteSuccess | voteFailure =>
      exact .inr (.inr (.inr (List.forall_mem_cons.mpr ⟨rfl, Plan.news_idle⟩)))
  | refuseAttempt | settle | retry | elapsed | deny | schedule =>
      exact .inr (.inr (.inr Plan.news_idle))
  | _ => exact .inr (.inr (.inr (by simp [Obs.isIdle])))

theorem Hop.calm (hop : Hop plan id c os c') :
    (∃ call d attempt permit k, c = ⟨call, .starting d attempt permit, k⟩ ∧
        os = [.started attempt k.core.time] ∧
        c' = ⟨{ call with stage := .running d permit none }, .suspended, k⟩) ∨
      (∃ call d outcome k, c = ⟨call, .ending d outcome, k⟩ ∧
        os = [.ended d.attemptNo outcome k.core.time] ∧
        c' = ⟨call, .judging d outcome k.core.time, k⟩) ∨
      ∀ o ∈ os, o.isAttempt = false := by
  rcases hop.idle with hstart | hend | ⟨_, _, _, _, _, _, rfl, _⟩ | hidle
  · exact .inl hstart
  · exact .inr (.inl hend)
  · exact .inr (.inr (by simp [Obs.isAttempt]))
  · exact .inr (.inr fun o ho => Obs.calm_of_idle (hidle o ho))

end Observations

/-! ## Every stretch is a walk -/

/-- A spot with the frame of the code that runs there. -/
structure Place (T E : Type) where
  call : Call T E
  spot : Spot T E
  frame : Frame T E

def Place.cursor (p : Place T E) : Cursor T E := ⟨p.call, p.spot, p.frame.toShared⟩

/-- A hop whose observations the frame logs. -/
def Next (plan : Plan T E) (id : Nat) (p p' : Place T E) : Prop :=
  ∃ os, Hop plan id p.cursor os p'.cursor ∧ p'.frame.log = p.frame.log ++ os

/-- The code from a place on, as far as it runs, hops to where it suspends. -/
def Reaches (plan : Plan T E) (id : Nat) (p : Place T E) (done : Call T E × Frame T E) : Prop :=
  ReflTransGen (Next plan id) p ⟨done.1, .suspended, done.2⟩

def ReachesBy (ok : Cursor T E → Cursor T E → Prop) (plan : Plan T E) (id : Nat) (p : Place T E)
    (done : Call T E × Frame T E) : Prop :=
  ReflTransGen (fun p p' => Next plan id p p' ∧ ok p.cursor p'.cursor) p
    ⟨done.1, .suspended, done.2⟩

/-- Where a call is with the answer of `acquire_permit`. -/
def AcquireResult.place (call : Call T E) (a : Applicant E) :
    AcquireResult × Frame T E → Place T E
  | (.granted, f) => ⟨call, .granted a, f⟩
  | (.rejected, f) => ⟨call, .refused a, f⟩
  | (.queued timers, f) => ⟨{ call with stage := a.queue timers }, .suspended, f⟩

section Walks

variable {plan : Plan T E} {id : Nat} {call : Call T E}

theorem Next.quiet {call' : Call T E} {spot spot' : Spot T E} {f : Frame T E} {k : Shared}
    (hop : Hop plan id ⟨call, spot, f.toShared⟩ [] ⟨call', spot', k⟩) :
    Next plan id ⟨call, spot, f⟩ ⟨call', spot', { k with log := f.log }⟩ :=
  ⟨[], hop, (List.append_nil f.log).symm⟩

theorem Next.noted {call' : Call T E} {spot spot' : Spot T E} {f : Frame T E} {k : Shared}
    {os : List (Obs T E)} (hop : Hop plan id ⟨call, spot, f.toShared⟩ os ⟨call', spot', k⟩) :
    Next plan id ⟨call, spot, f⟩ ⟨call', spot', { k with log := f.log ++ os }⟩ := ⟨os, hop, rfl⟩

theorem Next.core {spot : Spot T E} {f : Frame T E} {k : Core} (hk : Reads f.core k) :
    Next plan id ⟨call, spot, f⟩ ⟨call, spot, { f with core := k }⟩ := .quiet (.core hk)

/-- What every hop preserves, the stretch preserves; `past` is what was observed of the
call before it. -/
theorem Reaches.keeps {Q : Cursor T E → List (Obs T E) → Prop} {p : Place T E}
    {done : Call T E × Frame T E} (h : Reaches plan id p done)
    (hhop : ∀ c os c' log, Hop plan id c os c' → Q c log → Q c' (log ++ os))
    (past : List (Obs T E)) (hQ : Q p.cursor (past ++ p.frame.log)) :
    Q ⟨done.1, .suspended, done.2.toShared⟩ (past ++ done.2.log) := by
  have hwalk : ∀ p', ReflTransGen (Next plan id) p p' → Q p'.cursor (past ++ p'.frame.log) := by
    intro p' h
    induction h with
    | refl => exact hQ
    | tail _ hnext ih =>
        obtain ⟨os, hop, hlog⟩ := hnext
        rw [hlog, ← List.append_assoc]
        exact hhop _ os _ _ hop ih
  exact hwalk _ h

theorem ReachesBy.keeps {ok : Cursor T E → Cursor T E → Prop}
    {Q : Cursor T E → List (Obs T E) → Prop} {p : Place T E} {done : Call T E × Frame T E}
    (h : ReachesBy ok plan id p done)
    (hhop : ∀ c os c' log, Hop plan id c os c' → ok c c' → Q c log → Q c' (log ++ os))
    (past : List (Obs T E)) (hQ : Q p.cursor (past ++ p.frame.log)) :
    Q ⟨done.1, .suspended, done.2.toShared⟩ (past ++ done.2.log) := by
  have hwalk : ∀ p', ReflTransGen (fun p p' => Next plan id p p' ∧ ok p.cursor p'.cursor) p p' →
      Q p'.cursor (past ++ p'.frame.log) := by
    intro p' h
    induction h with
    | refl => exact hQ
    | tail _ hnext ih =>
        obtain ⟨⟨os, hop, hlog⟩, hok⟩ := hnext
        rw [hlog, ← List.append_assoc]
        exact hhop _ os _ _ hop hok ih
  exact hwalk _ h

/-- A stretch keeps to allowed hops, or takes one that is not and ends as that one makes
it end: `Q` holds as long as it keeps to them, and `L` once it has not. -/
theorem Reaches.keeps_or_lost {ok : Cursor T E → Cursor T E → Prop}
    {Q L : Cursor T E → List (Obs T E) → Prop} {p : Place T E} {done : Call T E × Frame T E}
    (h : Reaches plan id p done)
    (hkeep : ∀ c os c' log, Hop plan id c os c' → ok c c' → Q c log → Q c' (log ++ os))
    (hlose : ∀ c os c' log, Hop plan id c os c' → ¬ ok c c' → Q c log → L c' (log ++ os))
    (hstay : ∀ c os c' log, Hop plan id c os c' → L c log → L c' (log ++ os))
    (past : List (Obs T E)) (hQ : Q p.cursor (past ++ p.frame.log)) :
    ReachesBy ok plan id p done ∨ L ⟨done.1, .suspended, done.2.toShared⟩ (past ++ done.2.log) := by
  have hwalk : ∀ p', ReflTransGen (Next plan id) p p' →
      (ReflTransGen (fun p p' => Next plan id p p' ∧ ok p.cursor p'.cursor) p p' ∧
        Q p'.cursor (past ++ p'.frame.log)) ∨ L p'.cursor (past ++ p'.frame.log) := by
    intro p' h
    induction h with
    | refl => exact .inl ⟨.refl, hQ⟩
    | @tail p₁ p₂ _ hnext ih =>
        obtain ⟨os, hop, hlog⟩ := hnext
        rw [hlog, ← List.append_assoc]
        rcases ih with ⟨hkept, hQ₁⟩ | hlost
        · by_cases hok : ok p₁.cursor p₂.cursor
          · exact .inl ⟨hkept.tail ⟨⟨os, hop, hlog⟩, hok⟩, hkeep _ os _ _ hop hok hQ₁⟩
          · exact .inr (hlose _ os _ _ hop hok hQ₁)
        · exact .inr (hstay _ os _ _ hop hlost)
  exact (hwalk _ h).imp_left And.left

theorem Reaches.after {p p' : Place T E} {done : Call T E × Frame T E}
    (h : Reaches plan id p' done) (hnext : Next plan id p p') : Reaches plan id p done :=
  ReflTransGen.head hnext h

theorem Reaches.head {p p' : Place T E} {done : Call T E × Frame T E} (hnext : Next plan id p p')
    (h : Reaches plan id p' done) : Reaches plan id p done := ReflTransGen.head hnext h

theorem Reaches.read {spot : Spot T E} {f : Frame T E} {done : Call T E × Frame T E}
    (h : Reaches plan id ⟨call, spot, f.read⟩ done) : Reaches plan id ⟨call, spot, f⟩ done :=
  h.after (.core (.tick f.core))

theorem reaches_leave (r : Except (ExecutionError E) T) (f : Frame T E) :
    Reaches plan id ⟨call, .leaving r, f⟩ (leave call r f) := by
  have hhop : Hop plan id ⟨call, .leaving r, f.toShared⟩ [] ⟨_, .suspended, _⟩ := .leave
  rw [← apply_ite Frame.toShared (call.opPermit = true)
    { f with sem := f.sem.release.2 } f] at hhop
  refine ReflTransGen.single ⟨[], hhop, ?_⟩
  unfold leave
  cases call.opPermit <;> simp

theorem reaches_finish (r : Except (ExecutionError E) T) (f : Frame T E) :
    Reaches plan id ⟨call, .exiting r, f⟩ (finish plan call r f) := by
  unfold finish record
  cases hb : plan.breaker with
  | none => exact (reaches_leave r f).after (.quiet (.noVote hb))
  | some b =>
      refine Reaches.read ?_
      simp only [vote_eq]
      cases r with
      | ok v => exact (reaches_leave _ _).after ⟨_, .voteSuccess hb rfl rfl, by simp⟩
      | error e =>
          cases e with
          | operation source ctx =>
              simp only [ExecutionError.isTimeout, Bool.false_eq_true, if_false]
              split
              next hp =>
                exact (reaches_leave _ _).after ⟨_, .voteFailure hb (congrArg some hp) rfl, by simp⟩
              next hp =>
                have hno := Bool.eq_false_of_not_eq_true hp
                exact (reaches_leave _ _).after
                  ⟨_, .voteSuccess hb (congrArg some hno) rfl, by simp⟩
          | attemptTimeout ctx | totalTimeout ctx =>
              simp only [ExecutionError.isTimeout, if_true]
              exact (reaches_leave _ _).after ⟨_, .voteFailure hb rfl rfl, by simp⟩
          | circuitOpen ctx | concurrencyRejected ctx | retryBudgetExhausted ctx =>
              exact (reaches_leave _ _).after (.noted (.abstain hb rfl))

/-! ### Permits -/

theorem walk_pollPermit (a : Applicant E) (timers : QueueTimers) (f : Frame T E) :
    ReflTransGen (Next plan id) ⟨call, .waiting a timers, f⟩
      (AcquireResult.place call a (pollPermit id timers f)) := by
  unfold pollPermit SemState.pollAcquire
  by_cases hfree : 0 < f.sem.permits
  · rw [if_pos hfree]
    exact .single (.quiet (.pick hfree))
  · rw [if_neg hfree]
    have hzero : f.sem.permits = 0 := by omega
    dsimp only
    split
    · exact .head (.core (.pollTimer f.core timers.queue)) (.single (.quiet (.giveUp hzero)))
    · have hreads := (Reads.pollTimer f.core timers.queue).trans (.pollTimer _ timers.deadline)
      refine .head (.core hreads) ?_
      split
      · exact .single (.quiet (.giveUp hzero))
      · exact .single (.quiet (.park hzero))

theorem walk_acquirePermit {limit : ConcurrencyLimit} (hc : plan.concurrency = some limit)
    (a : Applicant E) (f : Frame T E) :
    ReflTransGen (Next plan id) ⟨call, .asking a, f⟩
      (AcquireResult.place call a (acquirePermit limit call.totalDeadline id f)) := by
  unfold acquirePermit SemState.tryAcquire
  by_cases hfree : 0 < f.sem.permits
  · rw [if_pos hfree]
    exact .single (.quiet (.take hc hfree))
  · rw [if_neg hfree]
    have hzero : f.sem.permits = 0 := by omega
    dsimp only
    split
    next hp => exact .single (.quiet (.shed hc hzero hp))
    next maxQueued timeout hp =>
      split
      next hfull => exact .single (.noted (.full hc hzero hp hfull))
      next hroom =>
        let queue := armSleep f.core timeout
        let deadline := armDeadline queue.2 call.totalDeadline
        have harm : Reads f.core deadline.2 := (Reads.armSleep _ _).trans (.armDeadline _ _)
        refine .head (.noted (.join ⟨queue.1, deadline.1⟩ hc hzero hp (Nat.lt_of_not_le hroom))) ?_
        exact .head (.core harm) (walk_pollPermit a _ _)

/-! ### The loop -/

theorem reaches_startAttempt (d : Drive E) (attempt : Attempt) (permit : Bool) (f : Frame T E) :
    Reaches plan id ⟨call, .starting d attempt permit, f⟩
      (startAttempt call d attempt permit f) := ReflTransGen.single (.noted .start)

theorem reaches_onAttemptPermit (d : Drive E) (attempt : Attempt)
    (answer : AcquireResult × Frame T E) :
    Reaches plan id (AcquireResult.place call (.attempt d attempt) answer)
      (onAttemptPermit plan call d attempt answer) := by
  obtain ⟨_ | _ | timers, f⟩ := answer
  · exact (reaches_startAttempt d attempt true f).after (.quiet .grantAttempt)
  · simp only [onAttemptPermit, Frame.emit_eq_emits]
    exact (Reaches.read (reaches_finish _ _)).after (.noted (.refuseAttempt _))
  · exact ReflTransGen.refl

theorem reaches_loopHead (d : Drive E) (f : Frame T E) :
    Reaches plan id ⟨call, .head d, f⟩ (loopHead plan id call d f) := by
  refine Reaches.read ?_
  unfold loopHead
  dsimp only
  split
  next limit hc =>
    split
    next hscope =>
      have hask : plan.scope? = some .attempts := by simp [Plan.scope?, hc, hscope]
      refine Reaches.head (.quiet (.headAsk hask)) ?_
      exact (walk_acquirePermit hc _ f.read).trans (reaches_onAttemptPermit d _ _)
    next hscope =>
      have hfree : plan.scope? ≠ some .attempts := by simp [Plan.scope?, hc, hscope]
      exact (reaches_startAttempt d _ false f.read).after (.quiet (.headFree hfree))
  next hc =>
    have hfree : plan.scope? ≠ some .attempts := by simp [Plan.scope?, hc]
    exact (reaches_startAttempt d _ false f.read).after (.quiet (.headFree hfree))

theorem reaches_afterBackoff (d : Drive E) (f : Frame T E) :
    Reaches plan id ⟨call, .waking d, f⟩ (afterBackoff plan id call d f) := by
  unfold afterBackoff
  cases hd : call.totalDeadline with
  | none => exact (reaches_loopHead _ f).after (.quiet (.again hd))
  | some deadline =>
      refine Reaches.read ?_
      dsimp only
      split
      next hle => exact (Reaches.read (reaches_finish _ _)).after (.noted (.expire _ hd hle))
      next hlt => exact (reaches_loopHead _ _).after (.noted (.resume hd (Nat.lt_of_not_le hlt)))

theorem reaches_pollBackoff (d : Drive E) (wake : Nat) (f : Frame T E) :
    Reaches plan id ⟨call, .dozing d wake, f⟩ (pollBackoff plan id call d wake f) := by
  refine Reaches.read ?_
  unfold pollBackoff
  dsimp only
  split
  next hw => exact (reaches_afterBackoff d f.read).after (.quiet (.wake hw))
  next => exact ReflTransGen.single (.quiet .nap)

theorem walk_capDelay (d : Drive E) (raw : Nat) (f : Frame T E) :
    ReflTransGen (Next plan id) ⟨call, .scheduling d raw, f⟩
      ⟨call, .scheduled d (capDelay call.totalDeadline raw f).1,
        (capDelay call.totalDeadline raw f).2.emits plan
          [.retryScheduled d.attemptNo (capDelay call.totalDeadline raw f).1]⟩ := by
  have hhop : ∀ g : Frame T E, Next plan id ⟨call, .scheduling d raw, g⟩
      ⟨call, .scheduled d (cappedDelay call.totalDeadline raw g.core.time),
        g.emits plan [.retryScheduled d.attemptNo
          (cappedDelay call.totalDeadline raw g.core.time)]⟩ := fun g => .noted .schedule
  unfold capDelay
  cases hd : call.totalDeadline with
  | none => simpa [hd, cappedDelay] using ReflTransGen.single (hhop f)
  | some deadline =>
      have hread := hhop f.read
      simp only [hd, cappedDelay] at hread
      exact .head (.core (.tick f.core)) (.single hread)

theorem reaches_backOff (d : Drive E) (raw : Nat) (f : Frame T E) :
    Reaches plan id ⟨call, .scheduling d raw, f⟩ (backOff plan id call d raw f) := by
  have hcap : ReflTransGen (Next plan id) ⟨call, .scheduling d raw, f⟩ _ := walk_capDelay d raw f
  unfold backOff
  simp only [Frame.emit_eq_emits]
  split
  next hzero =>
    rw [hzero] at hcap ⊢
    exact hcap.trans ((reaches_afterBackoff d _).after (.quiet .skip))
  next hpos =>
    refine hcap.trans (Reaches.read ?_)
    exact (reaches_pollBackoff d _ _).after (.quiet (.sleep (Nat.pos_of_ne_zero hpos)))

/-! ### The end of an attempt -/

/-- Where the loop is with what a guard answered, going on to `next`. -/
def Flow.place (call : Call T E) (next : Drive E → Spot T E) :
    Flow T E × Frame T E → Place T E
  | (.exit r, f) => ⟨call, .exiting r, f⟩
  | (.next d, f) => ⟨call, next d, f⟩

theorem matchOutcome_of_stop {start now : Nat} {d : Drive E} {outcome : AttemptOutcome T E}
    (hstop : ¬ GoesOn plan d.attemptNo outcome) (f : Frame T E) :
    matchOutcome plan start d now outcome f =
      (.exit (outcome.own (context d.attemptNo start now d.lastDelay d.breakerState)),
        f.emits plan (settledEvents d.attemptNo outcome)) := by
  cases outcome with
  | totalTimeout => exact congrArg (Prod.mk _) (f.emit_eq_emits plan _)
  | attemptTimeout =>
      have hmax : plan.retry.maxAttempts ≤ d.attemptNo :=
        Nat.le_of_not_lt fun hlt => hstop ⟨rfl, hlt⟩
      simp [matchOutcome, hmax, AttemptOutcome.own, settledEvents, Frame.emit_emit]
  | completed r =>
      cases hdec : plan.retry.decide r with
      | stop =>
          cases r <;>
            simp [matchOutcome, hdec, AttemptOutcome.own, settledEvents, Frame.emit_eq_emits]
      | retry =>
          have hretried : (AttemptOutcome.completed r).retried plan = true := by
            simp [AttemptOutcome.retried, hdec]
          have hmax : plan.retry.maxAttempts ≤ d.attemptNo :=
            Nat.le_of_not_lt fun hlt => hstop ⟨hretried, hlt⟩
          cases r <;>
            simp [matchOutcome, hdec, hmax, AttemptOutcome.own, settledEvents,
              Frame.emit_eq_emits]

theorem matchOutcome_of_goesOn {start now : Nat} {d : Drive E} {outcome : AttemptOutcome T E}
    (hgo : GoesOn plan d.attemptNo outcome) (f : Frame T E) :
    matchOutcome plan start d now outcome f =
      (.next (d.seen outcome), f.emits plan (retriedEvents d.attemptNo outcome)) := by
  obtain ⟨hretried, hlt⟩ := hgo
  have hmax : ¬ plan.retry.maxAttempts ≤ d.attemptNo := Nat.not_le_of_lt hlt
  cases outcome with
  | totalTimeout => cases hretried
  | attemptTimeout =>
      simp [matchOutcome, hmax, Drive.seen, AttemptOutcome.error?, retriedEvents,
        Frame.emit_eq_emits]
  | completed r =>
      have hdec : plan.retry.decide r = .retry := by simpa [AttemptOutcome.retried] using hretried
      cases r <;>
        simp [matchOutcome, hdec, hmax, Drive.seen, AttemptOutcome.error?, retriedEvents,
          Frame.emit_eq_emits, Frame.emits_nil]

theorem walk_matchOutcome (d : Drive E) (outcome : AttemptOutcome T E) (now : Nat)
    (f : Frame T E) :
    ReflTransGen (Next plan id) ⟨call, .judging d outcome now, f⟩
      (Flow.place call (.retrying · now) (matchOutcome plan call.start d now outcome f)) := by
  by_cases hgo : GoesOn plan d.attemptNo outcome
  · rw [matchOutcome_of_goesOn hgo]
    exact .single (.noted (.retry hgo))
  · rw [matchOutcome_of_stop hgo]
    exact .single (.noted (.settle hgo))

theorem walk_maxElapsedGuard (d : Drive E) (now : Nat) (f : Frame T E) :
    ReflTransGen (Next plan id) ⟨call, .retrying d now, f⟩
      (Flow.place call (.charging · now) (maxElapsedGuard plan call.start now d f)) := by
  unfold maxElapsedGuard
  split
  next m hm =>
    split
    next hle =>
      rw [Frame.emit_eq_emits]
      exact .single (.noted (.elapsed ⟨m, hm, hle⟩))
    next hlt =>
      refine .single (.quiet (.inTime ?_))
      rintro ⟨m', hm', hle⟩
      cases hm.symm.trans hm'
      exact hlt hle
  next hm =>
    refine .single (.quiet (.inTime ?_))
    rintro ⟨m', hm', _⟩
    cases hm.symm.trans hm'

theorem walk_budgetGuard (d : Drive E) (now : Nat) (f : Frame T E) :
    ReflTransGen (Next plan id) ⟨call, .charging d now, f⟩
      (Flow.place call .pausing (budgetGuard plan call.start now d f)) := by
  unfold budgetGuard
  split
  next b hb =>
    split
    next tokens hw => exact .single (.noted (.withdraw hb hw))
    next hw =>
      rw [Frame.emit_eq_emits]
      exact .single (.noted (.deny hb hw))
  next hb => exact .single (.quiet (.unbudgeted hb))

theorem Next.bail {d : Drive E} {raw deadline hint : Nat} {f : Frame T E} (now : Nat)
    (hd : call.totalDeadline = some deadline)
    (hh : d.lastError.bind plan.retry.retryAfterHint = some hint)
    (hlt : Instant.durationSince deadline f.core.time < hint) :
    Next plan id ⟨call, .drawn d raw, f⟩
      ⟨call, .exiting (.error (.totalTimeout
          (context d.attemptNo call.start now d.lastDelay d.breakerState))),
        (f.note (.paused f.core.time)).emits plan [.gaveUp d.attemptNo]⟩ :=
  ⟨_, .bail now hd hh hlt, by simp⟩

theorem walk_hintGuard (d : Drive E) (f : Frame T E) :
    ReflTransGen (Next plan id) ⟨call, .pausing d, f⟩
      (Flow.place call (.scheduling · (hintGuard plan call d f).1.2)
        ((hintGuard plan call d f).1.1, (hintGuard plan call d f).2)) := by
  refine .head (.core (.nextU64 f.core)) (.head (.quiet (.draw f.core.nextU64.1)) ?_)
  unfold hintGuard
  cases hd : call.totalDeadline with
  | none => exact .single (.quiet (.unbounded hd))
  | some deadline =>
      refine .head (.core (.tick _)) ?_
      dsimp only
      split
      next hint hh =>
        split
        next hlt =>
          rw [Frame.emit_eq_emits]
          exact .head (.bail _ hd hh hlt) (.single (.core (.tick _)))
        next hge =>
          refine .single (.noted (.fits hd fun hint' hh' => ?_))
          cases hh.symm.trans hh'
          exact Nat.le_of_not_lt hge
      next hh =>
        refine .single (.noted (.fits hd fun hint' hh' => ?_))
        cases hh.symm.trans hh'

theorem reaches_afterNoted (d : Drive E) (outcome : AttemptOutcome T E) (now : Nat)
    (f : Frame T E) :
    Reaches plan id ⟨call, .judging d outcome now, f⟩
      (afterNoted plan id call d outcome now f) := by
  have hmatch : ReflTransGen (Next plan id) ⟨call, .judging d outcome now, f⟩ _ :=
    walk_matchOutcome d outcome now f
  unfold afterNoted
  rcases hm : matchOutcome plan call.start d now outcome f with ⟨r | d₁, f₁⟩
  · rw [hm] at hmatch
    exact hmatch.trans (reaches_finish r f₁)
  rw [hm] at hmatch
  refine hmatch.trans ?_
  dsimp only
  have helapsed : ReflTransGen (Next plan id) ⟨call, .retrying d₁ now, f₁⟩ _ :=
    walk_maxElapsedGuard d₁ now f₁
  rcases hm : maxElapsedGuard plan call.start now d₁ f₁ with ⟨r | d₂, f₂⟩
  · rw [hm] at helapsed
    exact helapsed.trans (reaches_finish r f₂)
  rw [hm] at helapsed
  refine helapsed.trans ?_
  dsimp only
  have hbudget : ReflTransGen (Next plan id) ⟨call, .charging d₂ now, f₂⟩ _ :=
    walk_budgetGuard d₂ now f₂
  rcases hm : budgetGuard plan call.start now d₂ f₂ with ⟨r | d₃, f₃⟩
  · rw [hm] at hbudget
    exact hbudget.trans (reaches_finish r f₃)
  rw [hm] at hbudget
  refine hbudget.trans ?_
  dsimp only
  have hhint : ReflTransGen (Next plan id) ⟨call, .pausing d₃, f₃⟩ _ := walk_hintGuard d₃ f₃
  rcases hm : hintGuard plan call d₃ f₃ with ⟨⟨r | d₄, raw⟩, f₄⟩
  · rw [hm] at hhint
    exact hhint.trans (reaches_finish r f₄)
  · rw [hm] at hhint
    exact hhint.trans (reaches_backOff d₄ raw f₄)

theorem reaches_afterAttempt {d : Drive E} {permit : Bool} {timers : Option AttemptTimers}
    (hs : call.stage = .running d permit timers) (outcome : AttemptOutcome T E) (f : Frame T E) :
    Reaches plan id ⟨call, .suspended, f⟩ (afterAttempt plan id call d permit outcome f) := by
  have hcease : Next plan id ⟨call, .suspended, f⟩
      ⟨call, .ending d outcome, if permit then { f with sem := f.sem.release.2 } else f⟩ := by
    cases permit <;> exact .quiet (.cease outcome hs)
  refine Reaches.head hcease (Reaches.read ?_)
  exact (reaches_afterNoted d outcome _ _).after (.noted .noteEnd)

theorem reaches_pollTimers {d : Drive E} {permit : Bool} {armed : Option AttemptTimers}
    (hs : call.stage = .running d permit armed) (timers : AttemptTimers) (f : Frame T E) :
    Reaches plan id ⟨call, .suspended, f⟩ (pollTimers plan id call d permit timers f) := by
  have hattempt := Reads.pollTimer f.core timers.attempt
  have htotal := Reads.pollTimer (f.core.pollTimer timers.attempt).2 timers.total
  unfold pollTimers
  dsimp only
  split
  · exact (reaches_afterAttempt hs _ _).after (.core hattempt)
  · refine Reaches.head (.core (hattempt.trans htotal)) ?_
    split
    · exact reaches_afterAttempt hs _ _
    · exact ReflTransGen.single (.quiet (.pend timers hs))

theorem reaches_pollAttempt {d : Drive E} {permit : Bool} {timers : Option AttemptTimers}
    (hs : call.stage = .running d permit timers) (op : Option (Except E T)) (f : Frame T E) :
    Reaches plan id ⟨call, .suspended, f⟩ (pollAttempt plan id call d permit timers op f) := by
  cases op with
  | some r => exact reaches_afterAttempt hs (.completed r) f
  | none =>
      cases timers with
      | some timers => exact reaches_pollTimers hs timers f
      | none =>
          have harm : Reads f.core (armTimers plan call f).2.core :=
            (Reads.armSleep f.core plan.attemptTimeout).trans (.armDeadline _ _)
          exact (reaches_pollTimers hs _ _).after (.core harm)

/-! ### The pipeline around the loop -/

theorem reaches_gateAndDrive (f : Frame T E) :
    Reaches plan id ⟨call, .gating, f⟩ (gateAndDrive plan id call f) := by
  have hdrive : ∀ s g, Reaches plan id ⟨call, .admitted s, g⟩
      (loopHead plan id call (.first s) (depositBudget plan g)) := by
    intro s g
    rw [depositBudget_eq]
    exact (reaches_loopHead _ _).after (.quiet .deposit)
  unfold gateAndDrive gateCall
  cases hb : plan.breaker with
  | none => exact (hdrive .disabled f).after (.quiet (.noGate hb))
  | some b =>
      refine Reaches.read ?_
      dsimp only
      rcases hg : f.read.breaker.gate b.config f.read.core.time with ⟨_ | s, breaker⟩
      · exact (Reaches.read (reaches_leave _ _)).after (.noted (.turnAway _ hb hg))
      · dsimp only
        by_cases hs : s = .halfOpen
        · rw [if_pos hs, Frame.emit_eq_emits]
          exact (hdrive s _).after ⟨_, .pass hb hg, by simp [hs]⟩
        · rw [if_neg hs]
          exact (hdrive s _).after ⟨_, .pass hb hg, by simp [hs, Plan.news]⟩

theorem reaches_onOperationPermit (answer : AcquireResult × Frame T E) :
    Reaches plan id (AcquireResult.place call .operation answer)
      (onOperationPermit plan id call answer) := by
  obtain ⟨_ | _ | timers, f⟩ := answer
  · exact (reaches_gateAndDrive f).after (.quiet .grantOperation)
  · simp only [onOperationPermit, Frame.emit_eq_emits]
    exact (Reaches.read (reaches_leave _ _)).after
      ⟨_, .refuseOperation _, by simp [AcquireResult.place]⟩
  · exact ReflTransGen.refl

theorem reaches_runPipeline (hs : call.stage = .created) (f : Frame T E) :
    Reaches plan id ⟨call, .suspended, f⟩ (runPipeline plan id call f) := by
  refine Reaches.read (Reaches.head (.quiet (.begin hs)) ?_)
  unfold runPipeline
  dsimp only
  split
  next limit hc =>
    split
    next hscope =>
      have hask : plan.scope? = some .operations := by simp [Plan.scope?, hc, hscope]
      refine Reaches.head (.quiet (.enterOperations hask)) ?_
      exact (walk_acquirePermit hc .operation f.read).trans (reaches_onOperationPermit _)
    next hscope =>
      have hfree : plan.scope? ≠ some .operations := by simp [Plan.scope?, hc, hscope]
      exact (reaches_gateAndDrive f.read).after (.quiet (.enter hfree))
  next hc =>
    have hfree : plan.scope? ≠ some .operations := by simp [Plan.scope?, hc]
    exact (reaches_gateAndDrive f.read).after (.quiet (.enter hfree))

/-- One poll of a call is a walk of hops from its await point to the next. -/
theorem reaches_pollCall {script : Script T E} {f : Frame T E} {done : Call T E × Frame T E}
    (h : pollCall plan id call script f = some done) :
    Reaches plan id ⟨call, .suspended, f⟩ done := by
  unfold pollCall at h
  cases hs : call.stage with
  | created =>
      simp only [hs, Option.some.injEq] at h
      exact h ▸ reaches_runPipeline hs f
  | operationsQueue timers =>
      simp only [hs, Option.some.injEq] at h
      rw [← h]
      refine Reaches.head (.quiet (.repoll (a := .operation) hs)) ?_
      exact (walk_pollPermit .operation timers f).trans (reaches_onOperationPermit _)
  | attemptsQueue d attempt timers =>
      simp only [hs, Option.some.injEq] at h
      rw [← h]
      refine Reaches.head (.quiet (.repoll (a := .attempt d attempt) hs)) ?_
      exact (walk_pollPermit _ timers f).trans (reaches_onAttemptPermit d attempt _)
  | running d permit timers =>
      simp only [hs, Option.some.injEq] at h
      rw [← h]
      exact (reaches_pollAttempt hs script.op _).after (.quiet (.work script.opElapsed hs))
  | backingOff d wake =>
      simp only [hs, Option.some.injEq] at h
      rw [← h]
      exact (reaches_pollBackoff d wake f).after (.quiet (.rouse hs))
  | returned r => simp [hs] at h
  | dropped => simp [hs] at h

end Walks

theorem dropCall_log {call : Call T E} {f : Frame T E} {done : Call T E × Frame T E}
    (h : dropCall call f = some done) : done.2.log = f.log ++ [.unrecorded] := by
  unfold dropCall at h
  cases hstage : call.stage with
  | running d permit timers =>
      simp only [hstage, Option.some.injEq] at h
      subst h
      cases permit <;> cases call.opPermit <;> rfl
  | returned r => simp [hstage] at h
  | dropped => simp [hstage] at h
  | _ =>
      simp only [hstage, Option.some.injEq] at h
      subst h
      cases call.opPermit <;> rfl

namespace System

/-- A poll goes by hops that `ok` allows, and a call is dropped in a stage that `may`
allows only. -/
def KeepsTo (ok : Cursor T E → Cursor T E → Prop) (may : Stage T E → Prop) (plan : Plan T E)
    (s : System T E) : Label T E → Prop
  | .poll i script => ∀ call done, s.calls[i]? = some call →
      pollCall plan i call script (s.frame script.ticks script.draws) = some done →
      ReachesBy ok plan i ⟨call, .suspended, s.frame script.ticks script.draws⟩ done
  | .drop i => ∀ call, s.calls[i]? = some call → may call.stage
  | _ => True

section Invariants

variable {plan : Plan T E} {Q : Call T E → Spot T E → List (Obs T E) → Prop}

/-- What a fresh call satisfies and every hop and every drop preserves, every step
preserves for every call. -/
theorem eachCall_step_of_hops (hcreated : Q created .suspended [.arrived])
    (hhop : ∀ id c os c' log, Hop plan id c os c' → Q c.call c.spot log →
      Q c'.call c'.spot (log ++ os))
    (hdrop : ∀ (call : Call T E) log, call.stage.isOver = false → Q call .suspended log →
      Q { call with opPermit := false, stage := .dropped } .suspended (log ++ [.unrecorded])) :
    ∀ (s : System T E) (l : Label T E) (s' : System T E),
      s.EachCall (fun call log => Q call .suspended log) → step plan s l = some s' →
      s'.EachCall (fun call log => Q call .suspended log) := by
  refine eachCall_step_of_stretches hcreated ?_ ?_
  · intro s i call script done _ h hpoll
    refine (reaches_pollCall hpoll).keeps (Q := fun c log => Q c.call c.spot log)
      (fun c os c' log => hhop i c os c' log) (s.logOf i) ?_
    simpa [Place.cursor, frame] using h
  · intro s i call done _ h hdone
    have hover := isOver_of_dropCall hdone
    rw [(dropCall_cases hdone).1, dropCall_log hdone]
    simpa [frame] using hdrop call (s.logOf i) hover h

theorem eachCall_of_hops (hcreated : Q created .suspended [.arrived])
    (hhop : ∀ id c os c' log, Hop plan id c os c' → Q c.call c.spot log →
      Q c'.call c'.spot (log ++ os))
    (hdrop : ∀ (call : Call T E) log, call.stage.isOver = false → Q call .suspended log →
      Q { call with opPermit := false, stage := .dropped } .suspended (log ++ [.unrecorded]))
    {start : Nat} {ls : List (Label T E)} {s : System T E}
    (hrun : run (step plan) (init plan start) ls = some s) :
    s.EachCall fun call log => Q call .suspended log :=
  invariant_of_step (eachCall_step_of_hops hcreated hhop hdrop) (eachCall_init plan start _) hrun

/-! ### Against the clock -/

/-- What may grow true but not false as the clock goes on, and every hop and every drop
preserves, holds of every call with the present clock. -/
theorem eachCall_step_of_timedHops {Q : Cursor T E → List (Obs T E) → Prop}
    (hcreated : ∀ k, Q ⟨created, .suspended, k⟩ [.arrived])
    (hlater : ∀ call k k' log, k.core.time ≤ k'.core.time → Q ⟨call, .suspended, k⟩ log →
      Q ⟨call, .suspended, k'⟩ log)
    (hhop : ∀ id c os c' log, Hop plan id c os c' → Q c log → Q c' (log ++ os))
    (hdrop : ∀ (call : Call T E) k log, call.stage.isOver = false → Q ⟨call, .suspended, k⟩ log →
      Q ⟨{ call with opPermit := false, stage := .dropped }, .suspended, k⟩ (log ++ [.unrecorded]))
    (s : System T E) (l : Label T E) (s' : System T E)
    (h : s.EachCall fun call log => Q ⟨call, .suspended, s.shared⟩ log)
    (hstep : step plan s l = some s') :
    s'.EachCall fun call log => Q ⟨call, .suspended, s'.shared⟩ log := by
  have hmono : ∀ k : Shared, s.shared.core.time ≤ k.core.time →
      s.EachCall fun call log => Q ⟨call, .suspended, k⟩ log := fun k hk =>
    ⟨h.1, fun i call hi => hlater call s.shared k _ hk (h.2 i call hi)⟩
  cases l with
  | elapse d =>
      cases hstep
      exact hmono _ (Nat.le_add_right _ _)
  | call =>
      cases hstep
      exact eachCall_arrive (hcreated s.shared) h
  | poll i script =>
      obtain ⟨call, done, hi, hpoll, rfl⟩ := step_poll hstep
      have hreach := reaches_pollCall hpoll
      have hframe : Q ⟨call, .suspended, (s.frame script.ticks script.draws).toShared⟩
          (s.logOf i) := hlater call s.shared _ _ (Nat.le_refl _) (h.2 i call hi)
      have hdone := hreach.keeps (hhop i) (s.logOf i) (by simpa [Place.cursor, frame] using hframe)
      have htime : s.shared.core.time ≤ done.2.toShared.core.time :=
        hreach.keeps (Q := fun c _ => s.shared.core.time ≤ c.shared.core.time)
          (fun c os c' _ hop hle => Nat.le_trans hle hop.time_le) [] (Nat.le_refl _)
      exact eachCall_settle (hmono _ htime) hi hdone
  | drop i =>
      obtain ⟨call, done, hi, hdrop', rfl⟩ := step_drop hstep
      have hover := isOver_of_dropCall hdrop'
      obtain ⟨hcall, g, hg, hlog⟩ := dropCall_cases hdrop'
      have htime : s.shared.core.time ≤ done.2.toShared.core.time := by
        rw [hlog]
        exact hg.reads.later
      refine eachCall_settle (hmono _ htime) hi ?_
      rw [hcall, dropCall_log hdrop']
      exact hdrop call _ _ hover (hlater call s.shared _ _ htime (h.2 i call hi))
  | depositElsewhere =>
      obtain ⟨tokens, rfl⟩ := step_elsewhere (.inl rfl) hstep
      exact hmono _ (Nat.le_refl _)
  | withdrawElsewhere =>
      obtain ⟨tokens, rfl⟩ := step_elsewhere (.inr rfl) hstep
      exact hmono _ (Nat.le_refl _)

end Invariants

end System

end ExecutionPolicy
