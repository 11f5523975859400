import ExecutionPolicy.Breaker.Overflow
import ExecutionPolicy.Engine.Attempts
import ExecutionPolicy.Engine.StateEvents
import ExecutionPolicy.Engine.Traffic
import ExecutionPolicy.Stall

/-! # Additions of the engine

A call adds its total timeout to its first reading and counts its attempts up; its breaker
adds on every trip and counts failures and probes. Configurations bound none of the
durations, so which runs go without a panic is a matter of the clock.
-/

namespace ExecutionPolicy

open Relation StepSystem History

variable {T E : Type}

/-! ## What the breaker is asked and told -/

theorem exec_breakerOps (cfg : BreakerConfig) (trace : List (Obs T E)) :
    BreakerRuntime.exec cfg (breakerOps trace) = breakerOf cfg trace := by
  induction trace using List.reverseRecOn with
  | nil => rfl
  | append_singleton trace o ih =>
      rw [breakerOf_append, ← ih, breakerOps, List.filterMap_append, BreakerRuntime.exec,
        replay_append]
      cases o <;> rfl

section Hops

variable {plan : Plan T E} {b : CompiledBreaker E} {id : Nat} {c c' : Cursor T E}
  {os : List (Obs T E)}

theorem replay_news (cfg : BreakerConfig) (es : List Event) (r : BreakerRuntime) :
    replay (BreakerRuntime.after cfg) r (plan.news es : List (Obs T E)) = r :=
  replay_still (Plan.forall_news fun _ _ _ => rfl) r

theorem Hop.replays (hb : plan.breaker = some b) (hop : Hop plan id c os c') :
    c'.shared.breaker = replay (BreakerRuntime.after b.config) c.shared.breaker os := by
  have hstep : ∀ (r : BreakerRuntime) (o : Obs T E) os,
      replay (BreakerRuntime.after b.config) r (o :: os) =
        replay (BreakerRuntime.after b.config) (r.after b.config o) os := fun _ _ _ => rfl
  cases hop with
  | pass hb' hg =>
      cases hb.symm.trans hb'
      rw [hstep, replay_news, BreakerRuntime.after, hg]
  | turnAway now hb' hg =>
      cases hb.symm.trans hb'
      rw [hstep, BreakerRuntime.after, hg]
      rfl
  | voteSuccess hb' hv hrec | voteFailure hb' hv hrec =>
      cases hb.symm.trans hb'
      rw [hstep, replay_news, BreakerRuntime.after, hrec]
  | refuseOperation | bail =>
      rw [hstep, replay_news]
      rfl
  | refuseAttempt | settle | retry | elapsed | deny | schedule => rw [replay_news]
  | @cease call d permit => cases permit <;> rfl
  | @leave call r k =>
      dsimp only
      split <;> rfl
  | _ => rfl

/-! ## The deadline of a call -/

def Cursor.Begun (c : Cursor T E) : Prop := c.spot = .suspended → c.call.stage ≠ .created

theorem Hop.keepsDeadline (hop : Hop plan id c os c') (h : c.Begun) :
    c'.Begun ∧ c'.call.totalDeadline = c.call.totalDeadline := by
  cases hop with
  | core | work => exact ⟨h, rfl⟩
  | begin hs => exact absurd hs (h rfl)
  | @park call a => exact ⟨fun _ => by cases a <;> simp [Applicant.queue], rfl⟩
  | start | pend | nap | leave => exact ⟨fun _ => by simp, rfl⟩
  | _ =>
      refine ⟨fun hspot => ?_, rfl⟩
      cases hspot

theorem Reaches.keepsDeadline {p : Place T E} {done : Call T E × Frame T E}
    (h : Reaches plan id p done) (hp : p.cursor.Begun) :
    done.1.stage ≠ .created ∧ done.1.totalDeadline = p.call.totalDeadline := by
  have hdone := h.keeps
    (Q := fun c _ => c.Begun ∧ c.call.totalDeadline = p.call.totalDeadline)
    (fun c os c' _ hop hc => by
      have hkept := hop.keepsDeadline hc.1
      exact ⟨hkept.1, hkept.2.trans hc.2⟩) [] ⟨hp, rfl⟩
  exact ⟨hdone.1 rfl, hdone.2⟩

theorem onOperationPermit_deadline (call : Call T E) (answer : AcquireResult × Frame T E) :
    (onOperationPermit plan id call answer).1.stage ≠ .created ∧
      (onOperationPermit plan id call answer).1.totalDeadline = call.totalDeadline := by
  have hplace : (AcquireResult.place call .operation answer).cursor.Begun ∧
      (AcquireResult.place call .operation answer).call.totalDeadline = call.totalDeadline := by
    obtain ⟨_ | _ | timers, g⟩ := answer
    · exact ⟨(fun hspot => by cases hspot), rfl⟩
    · exact ⟨(fun hspot => by cases hspot), rfl⟩
    · exact ⟨(fun _ hstage => by cases hstage), rfl⟩
  have hreach : Reaches plan id (AcquireResult.place call .operation answer)
      (onOperationPermit plan id call answer) := reaches_onOperationPermit answer
  have hdone := hreach.keepsDeadline hplace.1
  exact ⟨hdone.1, hdone.2.trans hplace.2⟩

theorem gateAndDrive_deadline (call : Call T E) (f : Frame T E) :
    (gateAndDrive plan id call f).1.stage ≠ .created ∧
      (gateAndDrive plan id call f).1.totalDeadline = call.totalDeadline :=
  (reaches_gateAndDrive f).keepsDeadline fun hspot => by cases hspot

theorem runPipeline_deadline (plan : Plan T E) (id : Nat) (call : Call T E) (f : Frame T E) :
    (runPipeline plan id call f).1.stage ≠ .created ∧
      (runPipeline plan id call f).1.totalDeadline =
        plan.totalTimeout.map fun t => f.read.core.time + t := by
  unfold runPipeline
  dsimp only
  split
  next limit hc =>
    split
    next hscope =>
      exact onOperationPermit_deadline _ _
    next hscope => exact gateAndDrive_deadline _ _
  next hc => exact gateAndDrive_deadline _ _

theorem pollCall_deadline {call : Call T E} {script : Script T E} {f : Frame T E}
    {done : Call T E × Frame T E} (h : pollCall plan id call script f = some done) :
    done.1.stage ≠ .created ∧
      (call.stage = .created →
        done.1.totalDeadline = plan.totalTimeout.map fun t => f.read.core.time + t) ∧
      (call.stage ≠ .created → done.1.totalDeadline = call.totalDeadline) := by
  by_cases hs : call.stage = .created
  · simp only [pollCall, hs, Option.some.injEq] at h
    rw [← h]
    obtain ⟨hbegun, hset⟩ := runPipeline_deadline plan id call f
    exact ⟨hbegun, fun _ => hset, fun hno => absurd hs hno⟩
  · obtain ⟨hbegun, hkept⟩ := (reaches_pollCall h).keepsDeadline fun _ => hs
    exact ⟨hbegun, fun hcreated => absurd hcreated hs, fun _ => hkept⟩

end Hops

namespace System

/-! ## Over whole runs -/

/-- A poll that begins a call begins it at an instant to which the total timeout can be
added. -/
def StartInRange (latest : Nat) (plan : Plan T E) (s : System T E) : Label T E → Prop
  | .poll i script => ∀ call : Call T E, s.calls[i]? = some call → call.stage = .created →
      ∀ t, plan.totalTimeout = some t →
        (s.frame script.ticks script.draws).read.core.time + t ≤ latest
  | _ => True

/-- Every failure so far was in range of the breaker it met. -/
def FailuresInRange (latest : Nat) (plan : Plan T E) (s : System T E) : Prop :=
  ∀ b, plan.breaker = some b →
    Justified (fun past op => (BreakerRuntime.exec b.config past).OpInRange latest b.config op)
      (breakerOps s.observed)

def DeadlinesInRange (latest : Nat) (s : System T E) : Prop :=
  ∀ (i : Nat) (call : Call T E), s.calls[i]? = some call →
    ∀ t, call.totalDeadline = some t → t ≤ latest

/-- No addition has overflowed: every deadline is an instant, every attempt number is a
`u32`, and the gates and votes leave the breaker as it is, its lock not poisoned. -/
structure Unharmed (latest : Nat) (plan : Plan T E) (s : System T E) : Prop where
  deadlines : s.DeadlinesInRange latest
  counters : ∀ (i : Nat) (call : Call T E), s.calls[i]? = some call →
    ∀ n ∈ call.stage.counters, n ≤ U32.max
  breaker : ∀ b, plan.breaker = some b →
    BreakerRuntime.execChecked latest b.config (breakerOps s.observed) =
      .ok () ⟨s.shared.breaker, false⟩

def Unset (s : System T E) : Prop :=
  s.EachCall fun call _ => call.stage = .created → call.totalDeadline = none

variable {plan : Plan T E} {latest : Nat}

theorem unset_step (s : System T E) (l : Label T E) (s' : System T E) (h : s.Unset)
    (hstep : step plan s l = some s') : s'.Unset := by
  refine eachCall_step_of_stretches (fun _ => rfl) ?_ ?_ s l s' h hstep
  · intro s i call script done _ _ hpoll hcreated
    exact absurd hcreated (pollCall_deadline hpoll).1
  · intro s i call done _ _ hdrop hcreated
    rw [(dropCall_cases hdrop).1] at hcreated
    cases hcreated

theorem deadline_le_iff {id : Nat} {call : Call T E} {script : Script T E} {f : Frame T E}
    {done : Call T E × Frame T E} (hunset : call.stage = .created → call.totalDeadline = none)
    (hpoll : pollCall plan id call script f = some done) :
    (∀ t, done.1.totalDeadline = some t → t ≤ latest) ↔
      (∀ t, call.totalDeadline = some t → t ≤ latest) ∧
        (call.stage = .created → ∀ t, plan.totalTimeout = some t →
          f.read.core.time + t ≤ latest) := by
  obtain ⟨_, hset, hkept⟩ := pollCall_deadline hpoll
  by_cases hs : call.stage = .created
  · rw [hset hs, hunset hs]
    simp [hs]
  · rw [hkept hs]
    simp [hs]

theorem deadlinesInRange_settle {s : System T E} {i : Nat} {call : Call T E}
    (hi : s.calls[i]? = some call) {done : Call T E × Frame T E} {p : Prop}
    (hone : (∀ t, done.1.totalDeadline = some t → t ≤ latest) ↔
      (∀ t, call.totalDeadline = some t → t ≤ latest) ∧ p) :
    (s.settle i done).DeadlinesInRange latest ↔ s.DeadlinesInRange latest ∧ p := by
  constructor
  · intro h
    have hset : (s.settle i done).calls[i]? = some done.1 :=
      TaskPool.getElem?_set_self_of_some hi done.1
    obtain ⟨hcall, hp⟩ := hone.mp (h i done.1 hset)
    refine ⟨fun j other hj => ?_, hp⟩
    by_cases hij : i = j
    · subst hij
      cases hi.symm.trans hj
      exact hcall
    · exact h j other ((List.getElem?_set_ne hij).trans hj)
  · rintro ⟨h, hp⟩ j other hj
    rcases TaskPool.getElem?_set_cases hj with ⟨rfl, rfl⟩ | ⟨_, hold⟩
    · exact hone.mpr ⟨h i call hi, hp⟩
    · exact h j other hold

theorem deadlinesInRange_step (s : System T E) (l : Label T E) (s' : System T E) (h : s.Unset)
    (hstep : step plan s l = some s') :
    s'.DeadlinesInRange latest ↔ s.DeadlinesInRange latest ∧ s.StartInRange latest plan l := by
  have hsame : s'.calls = s.calls → s.StartInRange latest plan l →
      (s'.DeadlinesInRange latest ↔ s.DeadlinesInRange latest ∧ s.StartInRange latest plan l) := by
    intro hcalls hl
    rw [and_iff_left hl, DeadlinesInRange, DeadlinesInRange, hcalls]
  cases l with
  | elapse d =>
      cases hstep
      exact hsame rfl trivial
  | call =>
      cases hstep
      constructor
      · refine fun hall => ⟨fun j other hj => ?_, trivial⟩
        exact hall j other
          ((List.getElem?_append_left (List.getElem?_eq_some_iff.mp hj).1).trans hj)
      · rintro ⟨hall, _⟩ j other hj
        rcases TaskPool.getElem?_snoc_cases hj with ⟨_, rfl⟩ | hold
        · intro t ht
          cases ht
        · exact hall j other hold
  | poll i script =>
      obtain ⟨call, done, hi, hpoll, rfl⟩ := step_poll hstep
      rw [deadlinesInRange_settle hi (deadline_le_iff (h.2 i call hi) hpoll)]
      refine and_congr_right fun _ => ?_
      constructor
      · intro hcall other hother
        cases hi.symm.trans hother
        exact hcall
      · exact fun hall => hall call hi
  | drop i =>
      obtain ⟨call, done, hi, hdrop, rfl⟩ := step_drop hstep
      have hone : (∀ t, done.1.totalDeadline = some t → t ≤ latest) ↔
          (∀ t, call.totalDeadline = some t → t ≤ latest) ∧ True := by
        rw [(dropCall_cases hdrop).1, and_true]
      exact deadlinesInRange_settle hi hone
  | depositElsewhere =>
      obtain ⟨tokens, rfl⟩ := step_elsewhere (.inl rfl) hstep
      exact hsame rfl trivial
  | withdrawElsewhere =>
      obtain ⟨tokens, rfl⟩ := step_elsewhere (.inr rfl) hstep
      exact hsame rfl trivial

theorem deadlinesInRange_iff {start : Nat} {ls : List (Label T E)} {s : System T E}
    (hrun : run (step plan) (init plan start) ls = some s) :
    s.DeadlinesInRange latest ↔
      Obeys (step plan) (StartInRange latest plan) (init plan start) ls := by
  have hinit : (init plan start).DeadlinesInRange latest := by
    intro i call hi
    simp [init] at hi
  rw [safe_iff_obeys unset_step deadlinesInRange_step (eachCall_init plan start _) hrun]
  exact and_iff_right hinit

theorem replayed_step {b : CompiledBreaker E} (hb : plan.breaker = some b) (s : System T E)
    (l : Label T E) (s' : System T E) (h : breakerOf b.config s.observed = s.shared.breaker)
    (hstep : step plan s l = some s') : breakerOf b.config s'.observed = s'.shared.breaker := by
  refine observed_step (Q := fun breaker log => breakerOf b.config log = breaker)
    (fun id c os c' log hop hc => ?_) (fun breaker log hc => ⟨?_, ?_⟩) s l s' h hstep
  · rw [breakerOf_append, hc]
    exact (hop.replays hb).symm
  · rw [breakerOf_append, hc]
    rfl
  · rw [breakerOf_append, hc]
    rfl

theorem exec_breakerOps_observed {b : CompiledBreaker E} (hb : plan.breaker = some b)
    {start : Nat} {ls : List (Label T E)} {s : System T E}
    (hrun : run (step plan) (init plan start) ls = some s) :
    BreakerRuntime.exec b.config (breakerOps s.observed) = s.shared.breaker := by
  have hinit : breakerOf b.config (init plan start).observed =
      (init plan start).shared.breaker := by simp [init, hb, observed, breakerOf, replay]
  rw [exec_breakerOps]
  exact invariant_of_step (I := fun s => breakerOf b.config s.observed = s.shared.breaker)
    (replayed_step hb) hinit hrun

/-- The attempt counter stays below its `u32` bound in every run. -/
theorem counters_le {start : Nat} {ls : List (Label T E)} {s : System T E}
    (hrun : run (step plan) (init plan start) ls = some s) {i : Nat} {call : Call T E}
    (hi : s.calls[i]? = some call) : ∀ n ∈ call.stage.counters, n ≤ U32.max := by
  have h : s.Accounted plan :=
    invariant_of_step (accounted_step plan) (eachCall_init plan start _) hrun
  intro n hn
  have hle := (h.2 i call hi).2.counters n hn
  have hu32 := plan.retry.maxAttempts_u32
  unfold U32.max
  omega

end System

/-- In every run of a plan, no addition of its calls and of its breaker overflows exactly
when each call begins at an instant that leaves room for the total timeout, each failure
that meets the rule is recorded at one that leaves room for `open_for`, and each failure
outside HALF_OPEN finds room in the counter. In every run of the watchdog none does exactly
when each reading that sets the deadline leaves room for the budget. -/
theorem additions_in_range_iff (plan : Plan T E) (latest : Nat)
    (hu32 : ∀ b, plan.breaker = some b → b.config.halfOpenMaxCalls ≤ U32.max) (start : Nat)
    (ls : List (System.Label T E)) (s : System T E)
    (hrun : run (System.step plan) (System.init plan start) ls = some s)
    (budget begun : Nat) (polls : List (StallTimeout.Label T E)) :
    (s.Unharmed latest plan ↔
      Obeys (System.step plan) (System.StartInRange latest plan) (System.init plan start) ls ∧
        s.FailuresInRange latest plan) ∧
    (StallTimeout.execChecked latest budget begun polls =
        .ok () (StallTimeout.exec budget begun polls) ↔
      Justified (fun past l => (StallTimeout.exec budget begun past).InRange latest budget l)
        polls) := by
  refine ⟨?_, StallTimeout.execChecked_eq_ok_iff latest budget begun polls⟩
  rw [← System.deadlinesInRange_iff hrun]
  have hbreaker : ∀ b, plan.breaker = some b →
      (BreakerRuntime.execChecked latest b.config (breakerOps s.observed) =
          .ok () ⟨s.shared.breaker, false⟩ ↔
        Justified (fun past op =>
          (BreakerRuntime.exec b.config past).OpInRange latest b.config op)
          (breakerOps s.observed)) := by
    intro b hb
    rw [← System.exec_breakerOps_observed hb hrun]
    exact BreakerRuntime.execChecked_eq_ok_iff (hu32 b hb) latest _
  constructor
  · intro h
    exact ⟨h.deadlines, fun b hb => (hbreaker b hb).mp (h.breaker b hb)⟩
  · rintro ⟨hdeadlines, hfailures⟩
    exact ⟨hdeadlines, fun i call hi => System.counters_le hrun hi,
      fun b hb => (hbreaker b hb).mpr (hfailures b hb)⟩

/-- One failure trips the breaker for 10 ns, and a call has 10 ns in all. -/
def briefly : Plan Nat Nat where
  retry := Retry.none
  attemptTimeout := none
  totalTimeout := some 10
  breaker := some
    { config := (BreakerConfig.consecutiveFailures 1).withOpenFor 10, recordWhen := none }
  concurrency := none
  onEvent := false
  maxAttempts_pos := Nat.one_pos
  timeouts_ordered := Plan.tenInAll_ordered

def oneFailure : List (System.Label Nat Nat) :=
  [.call, .poll 0 .pending, .poll 0 (.answer 1 (.error 7))]

def failedOnce : System Nat Nat :=
  (run (System.step briefly) (System.init briefly 0) oneFailure).get rfl

/-- The operation ticks at 5 ns and is still pending. -/
def tickOnce : List (StallTimeout.Label Nat Nat) :=
  [.poll .pending, .elapse 5, .tick, .poll .pending]

theorem failedOnce_unharmed : failedOnce.Unharmed 11 briefly := by
  have hcalls : ∀ (i : Nat) (call : Call Nat Nat), failedOnce.calls[i]? = some call →
      call.totalDeadline = some 10 := by
    intro i call hi
    cases i with
    | zero =>
        cases hi
        rfl
    | succ i => cases hi
  refine ⟨fun i call hi t ht => ?_, fun i call hi => ?_, fun b hb => ?_⟩
  · cases ht.symm.trans (hcalls i call hi)
    decide
  · have hrun : run (System.step briefly) (System.init briefly 0) oneFailure = some failedOnce :=
      rfl
    exact System.counters_le hrun hi
  · cases hb
    rfl

theorem additions_in_range_failedOnce :
    Obeys (System.step briefly) (System.StartInRange 11 briefly) (System.init briefly 0)
        oneFailure ∧
      failedOnce.FailuresInRange 11 briefly ∧
      Justified (fun past l => (StallTimeout.exec 6 0 past).InRange 11 6 l) tickOnce := by
  have hu32 : ∀ b, briefly.breaker = some b → b.config.halfOpenMaxCalls ≤ U32.max := by
    intro b hb
    cases hb
    decide
  have h := additions_in_range_iff briefly 11 hu32 0 oneFailure failedOnce rfl 6 0 tickOnce
  obtain ⟨hstarts, hfailures⟩ := h.1.mp failedOnce_unharmed
  exact ⟨hstarts, hfailures, h.2.mp rfl⟩

/-- The largest instant of a clock that counts seconds in an `i64`. -/
def lastInstant : Nat := 2 ^ 63 * 10 ^ 9 - 1

def tripsForever : Plan Nat Nat where
  retry := Retry.none
  attemptTimeout := none
  totalTimeout := none
  breaker := some
    { config := (BreakerConfig.consecutiveFailures 1).withOpenFor Duration.max, recordWhen := none }
  concurrency := none
  onEvent := false
  maxAttempts_pos := Nat.one_pos
  timeouts_ordered := Plan.untimed_ordered

theorem open_panics_under_lock :
    ∃ s left, run (System.step tripsForever) (System.init tripsForever 0) oneFailure = some s ∧
      ¬ s.Unharmed lastInstant tripsForever ∧
      BreakerRuntime.execChecked lastInstant
          ((BreakerConfig.consecutiveFailures 1).withOpenFor Duration.max)
          (breakerOps s.observed) = .error .instantOverflow ⟨left, true⟩ ∧
      left.state = .open ∧ left.openUntil = none ∧
      ∀ op, (BreakerRuntime.applyChecked lastInstant
          ((BreakerConfig.consecutiveFailures 1).withOpenFor Duration.max) op).run ⟨left, true⟩ =
        .error .poisonedLock ⟨left, true⟩ := by
  refine ⟨(run (System.step tripsForever) (System.init tripsForever 0) oneFailure).get rfl, _,
    rfl, fun h => ?_, rfl, rfl, rfl, BreakerRuntime.run_applyChecked_poisoned rfl⟩
  cases h.breaker _ rfl

end ExecutionPolicy
