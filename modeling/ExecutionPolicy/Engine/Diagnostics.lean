import ExecutionPolicy.Engine.Attempts
import ExecutionPolicy.Engine.RetryAfter

/-! # What an error says of its call

The context of an error is written from the loop's counter and its latest delay. Both are
moved on before what they stand for happens: the counter before the next attempt has its
permit, the delay before it is cut or given up.
-/

namespace ExecutionPolicy

open StepSystem

variable {T E : Type}

/-! ## The context and the history -/

def Obs.scheduled? : Obs T E → Option Nat
  | .event (.retryScheduled _ delay) => some delay
  | _ => none

def lastScheduled (log : List (Obs T E)) : Option Nat := (log.filterMap Obs.scheduled?).getLast?

/-- The context gives the number of attempts started and the delay announced last. -/
def Tells (ctx : ErrorContext) (log : List (Obs T E)) : Prop :=
  ctx.attempts = (numbers log).length ∧ ctx.lastDelay = lastScheduled log

/-- `started` attempts have started and `delay` is the one announced last. -/
def Stands (started : Nat) (delay : Option Nat) (log : List (Obs T E)) : Prop :=
  (numbers log).length = started ∧ lastScheduled log = delay

def Upcoming (d : Drive E) (log : List (Obs T E)) : Prop :=
  1 ≤ d.attemptNo ∧ Stands (d.attemptNo - 1) d.lastDelay log

/-- Attempt `d.attemptNo` has started and the delay drawn last has been announced. -/
def Current (d : Drive E) (log : List (Obs T E)) : Prop := Stands d.attemptNo d.lastDelay log

/-- After attempt `d.attemptNo` the delay `raw` has been drawn. -/
def Drawn (d : Drive E) (raw : Nat) (log : List (Obs T E)) : Prop :=
  (numbers log).length = d.attemptNo ∧ d.lastDelay = some raw

def Truthful (r : Except (ExecutionError E) T) (log : List (Obs T E)) : Prop :=
  ∀ e, r = .error e → Tells e.context log

def Applicant.Truthful (log : List (Obs T E)) : Applicant E → Prop
  | .operation => Stands 0 none log
  | .attempt d _ => Upcoming d log

def Stage.Truthful (log : List (Obs T E)) : Stage T E → Prop
  | .created | .operationsQueue _ => Stands 0 none log
  | .attemptsQueue d _ _ => Upcoming d log
  | .running d _ _ | .backingOff d _ => Current d log
  | .returned r => ExecutionPolicy.Truthful r log
  | .dropped => True

def Spot.Truthful (call : Call T E) (log : List (Obs T E)) : Spot T E → Prop
  | .suspended => call.stage.Truthful log
  | .entering | .gating | .admitted _ => Stands 0 none log
  | .asking a | .waiting a _ | .granted a | .refused a => a.Truthful log
  | .head d | .starting d _ _ => Upcoming d log
  | .ending d _ | .judging d _ _ | .retrying d _ | .charging d _ | .pausing d
  | .scheduled d _ | .dozing d _ | .waking d => Current d log
  | .drawn d raw | .scheduling d raw => Drawn d raw log
  | .exiting r | .leaving r => ExecutionPolicy.Truthful r log

/-! ## Where the two part -/

/-- Here the context runs ahead of the history: the counter stands at an attempt that is
refused its permit, a delay is given up for a hint beyond the deadline, or the deadline
leaves less than the delay drawn. -/
def RunsAhead (plan : Plan T E) (c : Cursor T E) : Prop :=
  match c.spot with
  | .refused (.attempt _ _) => True
  | .drawn d _ => ∃ h, d.lastError.bind plan.retry.retryAfterHint = some h ∧
      Overshoots c.call.totalDeadline c.shared.core.time h
  | .scheduling _ raw => cappedDelay c.call.totalDeadline raw c.shared.core.time ≠ raw
  | _ => False

/-- The code does not go on from a place where the context runs ahead. -/
def InStep (plan : Plan T E) (c c' : Cursor T E) : Prop := RunsAhead plan c → c'.spot = c.spot

/-- Neither the start of an attempt nor the announcement of a delay. -/
def Obs.isUntold : Obs T E → Bool
  | .started _ _ => false
  | .event (.retryScheduled _ _) => false
  | _ => true

section Logs

variable {n : Nat} {delay : Option Nat} {d : Drive E} {log os : List (Obs T E)}

theorem numbers_untold (hos : ∀ o ∈ os, o.isUntold = true) : numbers (log ++ os) = numbers log := by
  have hnone : numbers os = [] := by
    refine List.filterMap_eq_nil_iff.mpr fun o ho => ?_
    have huntold := hos o ho
    cases o <;> simp_all [Obs.number?, Obs.isUntold]
  rw [numbers_append, hnone, List.append_nil]

theorem lastScheduled_untold (hos : ∀ o ∈ os, o.isUntold = true) :
    lastScheduled (log ++ os) = lastScheduled log := by
  have hnone : os.filterMap Obs.scheduled? = [] := by
    refine List.filterMap_eq_nil_iff.mpr fun o ho => ?_
    have huntold := hos o ho
    cases o with
    | event e => cases e <;> simp_all [Obs.scheduled?, Obs.isUntold]
    | _ => rfl
  rw [lastScheduled, List.filterMap_append, hnone, List.append_nil]
  rfl

theorem stands_untold (hos : ∀ o ∈ os, o.isUntold = true) :
    Stands n delay (log ++ os) ↔ Stands n delay log := by
  rw [Stands, Stands, numbers_untold hos, lastScheduled_untold hos]

theorem Truthful.untold {r : Except (ExecutionError E) T} (h : Truthful r log)
    (hos : ∀ o ∈ os, o.isUntold = true) : Truthful r (log ++ os) := by
  intro e he
  rw [Tells, numbers_untold hos, lastScheduled_untold hos]
  exact h e he

theorem Applicant.Truthful.untold {a : Applicant E} (h : a.Truthful log)
    (hos : ∀ o ∈ os, o.isUntold = true) : a.Truthful (log ++ os) := by
  cases a with
  | operation => exact (stands_untold hos).mpr h
  | attempt d attempt => exact ⟨h.1, (stands_untold hos).mpr h.2⟩

theorem Stage.Truthful.untold {stage : Stage T E} (h : stage.Truthful log)
    (hos : ∀ o ∈ os, o.isUntold = true) : stage.Truthful (log ++ os) := by
  cases stage with
  | created | operationsQueue | running | backingOff => exact (stands_untold hos).mpr h
  | attemptsQueue => exact ⟨h.1, (stands_untold hos).mpr h.2⟩
  | returned => exact ExecutionPolicy.Truthful.untold h hos
  | dropped => trivial

theorem Spot.Truthful.untold {call : Call T E} {spot : Spot T E} (h : spot.Truthful call log)
    (hos : ∀ o ∈ os, o.isUntold = true) : spot.Truthful call (log ++ os) := by
  cases spot with
  | suspended => exact Stage.Truthful.untold h hos
  | asking | waiting | granted | refused => exact Applicant.Truthful.untold h hos
  | head | starting => exact ⟨h.1, (stands_untold hos).mpr h.2⟩
  | drawn | scheduling =>
      refine ⟨?_, h.2⟩
      rw [numbers_untold hos]
      exact h.1
  | exiting | leaving => exact ExecutionPolicy.Truthful.untold h hos
  | _ => exact (stands_untold hos).mpr h

theorem Stands.truthful {ctx : ErrorContext} {r : Except (ExecutionError E) T}
    (h : Stands n delay log) (hattempts : ctx.attempts = n) (hdelay : ctx.lastDelay = delay)
    (hr : ∀ e, r = .error e → e.context = ctx) : Truthful r log := by
  intro e he
  rw [Tells, hr e he, hattempts, hdelay, h.1, h.2]
  exact ⟨rfl, rfl⟩

end Logs

/-! ## One hop -/

section Hops

variable {plan : Plan T E} {id : Nat} {c c' : Cursor T E} {log os : List (Obs T E)}

theorem news_untold {es : List Event} (hes : ∀ k delay, .retryScheduled k delay ∉ es) :
    ∀ o ∈ (plan.news es : List (Obs T E)), o.isUntold = true := by
  refine Plan.forall_news fun e he => ?_
  cases e with
  | retryScheduled k delay => exact absurd he (hes k delay)
  | _ => rfl

theorem settledEvents_untold (number : Nat) (outcome : AttemptOutcome T E) (k delay : Nat) :
    Event.retryScheduled k delay ∉ settledEvents number outcome := by
  cases outcome with
  | completed r => cases r <;> simp [settledEvents]
  | _ => simp [settledEvents]

theorem retriedEvents_unscheduled (number : Nat) (outcome : AttemptOutcome T E) (k delay : Nat) :
    Event.retryScheduled k delay ∉ retriedEvents number outcome := by
  cases outcome with
  | completed r => cases r <;> simp [retriedEvents]
  | _ => simp [retriedEvents]

theorem Hop.untold (hop : Hop plan id c os c') :
    (∃ d attempt permit, c.spot = .starting d attempt permit) ∨
      (∃ d raw, c.spot = .scheduling d raw) ∨ ∀ o ∈ os, o.isUntold = true := by
  have hnote : ∀ (o : Obs T E) es, o.isUntold = true → (∀ k delay, .retryScheduled k delay ∉ es) →
      ∀ o' ∈ o :: plan.news es, o'.isUntold = true := fun o es ho hes =>
    List.forall_mem_cons.mpr ⟨ho, news_untold hes⟩
  cases hop with
  | start => exact .inl ⟨_, _, _, rfl⟩
  | schedule => exact .inr (.inl ⟨_, _, rfl⟩)
  | refuseOperation | bail => exact .inr (.inr (hnote _ _ rfl (by simp)))
  | pass hb hg =>
      refine .inr (.inr (hnote _ _ rfl fun k delay => ?_))
      split <;> simp
  | voteSuccess | voteFailure => exact .inr (.inr (hnote _ _ rfl (by simp)))
  | refuseAttempt | elapsed | deny => exact .inr (.inr (news_untold (by simp)))
  | settle => exact .inr (.inr (news_untold (settledEvents_untold _ _)))
  | retry => exact .inr (.inr (news_untold (retriedEvents_unscheduled _ _)))
  | _ => exact .inr (.inr (by simp [Obs.isUntold]))

theorem Hop.truthful_untold (hook : plan.onEvent = true) (hop : Hop plan id c os c')
    (huntold : ∀ o ∈ os, o.isUntold = true) (hok : InStep plan c c')
    (h : c.spot.Truthful c.call log) : c'.spot.Truthful c'.call log := by
  cases hop with
  | begin hs => simpa [Spot.Truthful, Stage.Truthful, hs] using h
  | @repoll call a k timers hs =>
      cases a <;>
        simpa [Spot.Truthful, Stage.Truthful, Applicant.Truthful, hs, Applicant.queue] using h
  | @park call a k timers hfree => cases a <;> exact h
  | refuseOperation now | turnAway now => exact Stands.truthful h rfl rfl (by rintro e ⟨⟩; rfl)
  | refuseAttempt now => cases hok trivial
  | deposit => exact ⟨Nat.le_refl 1, h⟩
  | pend timers hs => simpa [Spot.Truthful, Stage.Truthful, hs] using h
  | cease outcome hs => simpa [Spot.Truthful, Stage.Truthful, hs] using h
  | settle hstop => exact Stands.truthful h rfl rfl fun e he => own_context he
  | elapsed hout => exact Stands.truthful h rfl rfl fun e he => elapsedResult_context he
  | deny hb hw => exact Stands.truthful h rfl rfl (by rintro e ⟨⟩; rfl)
  | draw rng => exact ⟨h.1, rfl⟩
  | bail now hd hh hlt => cases hok ⟨_, hh, _, hd, hlt⟩
  | rouse hs => simpa [Spot.Truthful, Stage.Truthful, hs] using h
  | again | resume => exact ⟨Nat.succ_pos _, h⟩
  | expire now hd hle => exact Stands.truthful h rfl rfl (by rintro e ⟨⟩; rfl)
  | start => cases huntold _ (List.mem_singleton_self _)
  | schedule =>
      rw [Plan.news_eq hook] at huntold
      cases huntold _ (List.mem_singleton_self _)
  | _ => exact h

theorem Hop.truthful (hook : plan.onEvent = true) (hop : Hop plan id c os c')
    (hok : InStep plan c c') (h : c.spot.Truthful c.call log) :
    c'.spot.Truthful c'.call (log ++ os) := by
  have hrest := fun huntold => (hop.truthful_untold hook huntold hok h).untold huntold
  rcases hop.untold with ⟨d, attempt, permit, hspot⟩ | ⟨d, raw, hspot⟩ | huntold
  · cases hop with
    | start =>
        obtain ⟨hpos, hnumbers, hdelay⟩ := h
        refine ⟨?_, ?_⟩
        · rw [numbers_append, List.length_append, hnumbers]
          exact Nat.sub_add_cancel hpos
        · rw [lastScheduled, List.filterMap_append]
          exact (congrArg List.getLast? (List.append_nil _)).trans hdelay
    | core => exact hrest (by simp)
    | _ => cases hspot
  · cases hop with
    | @schedule call d raw k =>
        obtain ⟨hnumbers, hraw⟩ := h
        have hwhole : cappedDelay call.totalDeadline raw k.core.time = raw := by
          by_contra hcut
          cases hok hcut
        rw [hwhole, Plan.news_eq hook]
        refine ⟨?_, ?_⟩
        · rw [numbers_append, List.length_append, hnumbers]
          rfl
        · rw [lastScheduled, List.filterMap_append]
          simpa [Obs.scheduled?] using hraw.symm
    | core => exact hrest (by simp)
    | _ => cases hspot
  · exact hrest huntold

end Hops

/-! ## Over whole runs -/

/-- For a plan with an event hook, in every run none of whose polls goes on from a place where
the context runs ahead of the history (an attempt-scope permit is refused, the hint asks for
more than the deadline leaves, or the deadline leaves less than the delay drawn): in every
state, the context of every error a call has returned gives the number of times its operation
was invoked and the delay of its last `RetryScheduled`. -/
theorem diagnostics_faithful (plan : Plan T E) (hook : plan.onEvent = true) (start : Nat)
    (ls : List (System.Label T E)) (s : System T E)
    (hrun : run (System.step plan) (System.init plan start) ls = some s)
    (hkeeps : Obeys (System.step plan) (System.KeepsTo (InStep plan) (fun _ => True) plan)
      (System.init plan start) ls)
    (i : Nat) (call : Call T E) (hi : s.calls[i]? = some call) (e : ExecutionError E)
    (he : call.stage = .returned (.error e)) :
    e.context.attempts = (numbers (s.logOf i)).length ∧
      e.context.lastDelay = lastScheduled (s.logOf i) := by
  have heach : s.EachCall fun call log => call.stage.Truthful log := by
    refine invariant (System.eachCall_step ⟨rfl, rfl⟩ ?_ ?_) (System.eachCall_init plan start _)
      hkeeps hrun
    · intro s i call script done hi hcond h hpoll
      have hstart : Stage.Truthful (s.logOf i ++ (s.frame script.ticks script.draws).log)
          call.stage := by simpa [System.frame] using h
      exact (hcond call done hi hpoll).keeps (Q := fun c log => c.spot.Truthful c.call log)
        (fun c os c' log hop hok hc => hop.truthful hook hok hc) (s.logOf i) hstart
    · intro s i call done _ _ _ hdrop
      rw [(dropCall_cases hdrop).1]
      trivial
  have hcall : call.stage.Truthful (s.logOf i) := heach.2 i call hi
  rw [he] at hcall
  exact hcall e rfl

/-! ## Without limits -/

/-- The call asks for a permit for its next attempt, or waits for it. -/
def Spot.asksForAttempt (call : Call T E) : Spot T E → Bool
  | .asking a | .waiting a _ | .granted a | .refused a => decide (a.scope = .attempts)
  | .suspended =>
      match call.stage with
      | .attemptsQueue _ _ _ => true
      | _ => false
  | _ => false

def Unbound (call : Call T E) (spot : Spot T E) : Prop :=
  call.totalDeadline = none ∧ spot.asksForAttempt call = false

section Unlimited

variable {plan : Plan T E} {id : Nat} {c c' : Cursor T E} {os : List (Obs T E)}

theorem Hop.unbound (htotal : plan.totalTimeout = none) (hscope : plan.scope? ≠ some .attempts)
    (hop : Hop plan id c os c') (h : Unbound c.call c.spot) : Unbound c'.call c'.spot := by
  obtain ⟨hdeadline, hasks⟩ := h
  cases hop with
  | begin hs => exact ⟨by simp [htotal], rfl⟩
  | headAsk hc => exact absurd hc hscope
  | take | shed | full | join | pick | giveUp => exact ⟨hdeadline, hasks⟩
  | @repoll call a k timers hs =>
      refine ⟨hdeadline, ?_⟩
      cases a with
      | operation => rfl
      | attempt d attempt => simp [Spot.asksForAttempt, hs, Applicant.queue] at hasks
  | @park call a k timers hfree =>
      refine ⟨hdeadline, ?_⟩
      cases a with
      | operation => rfl
      | attempt d attempt => cases hasks
  | core | work => exact ⟨hdeadline, hasks⟩
  | _ => exact ⟨hdeadline, rfl⟩

theorem Unbound.not_runsAhead (h : Unbound c.call c.spot) : ¬ RunsAhead plan c := by
  obtain ⟨hdeadline, hasks⟩ := h
  intro hahead
  unfold RunsAhead at hahead
  split at hahead
  next hspot =>
    rw [hspot] at hasks
    cases hasks
  next =>
    obtain ⟨_, _, t, ht, _⟩ := hahead
    cases hdeadline.symm.trans ht
  next =>
    rw [hdeadline] at hahead
    exact hahead rfl
  next => exact hahead

/-- Without a total timeout and without permits for attempts every poll keeps in step. -/
theorem inStep_of_unlimited (htotal : plan.totalTimeout = none)
    (hscope : plan.scope? ≠ some .attempts) (start : Nat) (ls : List (System.Label T E)) :
    Obeys (System.step plan) (System.KeepsTo (InStep plan) (fun _ => True) plan)
      (System.init plan start) ls := by
  have hstep : ∀ (s : System T E) (l : System.Label T E) (s' : System T E),
      s.EachCall (fun call _ => Unbound call .suspended) → System.step plan s l = some s' →
      s'.EachCall (fun call _ => Unbound call .suspended) :=
    System.eachCall_step_of_hops (Q := fun call spot _ => Unbound call spot) ⟨rfl, rfl⟩
      (fun id c os c' _ hop hc => hop.unbound htotal hscope hc)
      (fun call _ _ hc => ⟨hc.1, rfl⟩)
  refine Obeys.mono_of_invariant (fun s l s' h _ => hstep s l s' h) ?_
    (System.eachCall_init plan start _) (obeys_of_forall (fun _ _ => trivial) _ ls)
  intro s l h _
  cases l with
  | poll i script =>
      intro call done hi hpoll
      exact ((reaches_pollCall hpoll).keeps_or_lost (Q := fun c _ => Unbound c.call c.spot)
        (L := fun _ _ => False)
        (fun c os c' _ hop _ hc => hop.unbound htotal hscope hc)
        (fun c os c' _ _ hnot hc => hnot fun hahead => absurd hahead hc.not_runsAhead)
        (fun c os c' _ _ hc => hc) [] (h.2 i call hi)).resolve_right id
  | drop i => exact fun _ _ => trivial
  | _ => trivial

end Unlimited

/-- All three attempts fail, each asking for its own wait. -/
def failsThrice : List (System.Label Nat Nat) :=
  [.call, .poll 0 .pending, .poll 0 (.answer 0 (.error 5)), .elapse 5, .poll 0 .pending,
    .poll 0 (.answer 0 (.error 6)), .elapse 6, .poll 0 .pending, .poll 0 (.answer 0 (.error 7))]

def afterThree : System Nat Nat :=
  (run (System.step impatient) (System.init impatient 0) failsThrice).get rfl

theorem diagnostics_faithful_failsThrice :
    ∃ call e, afterThree.calls[0]? = some call ∧ call.stage = .returned (.error e) ∧
      e.context.attempts = (numbers (afterThree.logOf 0)).length ∧
      e.context.lastDelay = lastScheduled (afterThree.logOf 0) := by
  refine ⟨_, _, rfl, rfl, ?_⟩
  exact diagnostics_faithful impatient rfl 0 failsThrice afterThree rfl
    (inStep_of_unlimited rfl (by decide) 0 failsThrice) 0 _ rfl _ rfl

/-- A single attempt at a time, and no waiting for it. -/
def oneAttempt : Plan Nat Nat where
  retry := Retry.none
  attemptTimeout := none
  totalTimeout := none
  breaker := none
  concurrency := some (ConcurrencyLimit.attempts 1).reject
  onEvent := true
  maxAttempts_pos := Nat.one_pos
  timeouts_ordered := Plan.untimed_ordered

/-- Told to wait for 20 ns of which 9 are left, a call reports a delay it never scheduled; a
call refused its first permit reports an attempt it never made. -/
theorem context_runs_ahead :
    (∃ s call e, run (System.step polite) (System.init polite 0)
        [.call, .poll 0 .pending, .poll 0 (.answer 1 (.error 20))] = some s ∧
      s.calls[0]? = some call ∧ call.stage = .returned (.error e) ∧
      e.context.lastDelay = some 20 ∧ lastScheduled (s.logOf 0) = none) ∧
    ∃ s call e, run (System.step oneAttempt) (System.init oneAttempt 0)
        [.call, .call, .poll 0 .pending, .poll 1 .pending] = some s ∧
      s.calls[1]? = some call ∧ call.stage = .returned (.error e) ∧
      e.context.attempts = 1 ∧ numbers (s.logOf 1) = [] :=
  ⟨⟨_, _, _, rfl, rfl, rfl, rfl, rfl⟩, _, _, _, rfl, rfl, rfl, rfl, rfl⟩

end ExecutionPolicy
