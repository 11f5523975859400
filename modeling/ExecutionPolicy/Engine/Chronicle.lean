import ExecutionPolicy.Engine.Report
import ExecutionPolicy.Engine.TerminalEvents
import ExecutionPolicy.Engine.Boxed

/-! # The events as a chronicle

What a hook hears of the retry loop, read against the attempts that have ended. Each
attempt is reported once, under its number and before its delay; a finished call ends in
one of the ways that its last attempt and its result allow.
-/

namespace ExecutionPolicy

open StepSystem

variable {T E : Type}

/-! ## The grammar -/

/-- The events tell of these attempts, numbered from 1, each of which was retried. -/
inductive Retold (plan : Plan T E) : List (Ended T E) → List Event → Prop where
  | nil : Retold plan [] []
  | snoc {outs : List (Ended T E)} {es : List Event} (h : Retold plan outs es)
      (out : Ended T E) (delay : Nat) (hnumber : out.number = outs.length + 1)
      (hgo : GoesOn plan out.number out.outcome) :
      Retold plan (outs ++ [out])
        (es ++ retriedEvents out.number out.outcome ++ [.retryScheduled out.number delay])

/-- The attempts of a call, its events and its result, when it has one. -/
inductive Chronicle (plan : Plan T E) :
    List (Ended T E) → List Event → Option (Except (ExecutionError E) T) → Prop where
  | underway {outs : List (Ended T E)} {es : List Event} (h : Retold plan outs es) :
      Chronicle plan outs es none
  | turnedAway (ctx : ErrorContext) :
      Chronicle plan [] [] (some (.error (.circuitOpen ctx)))
  /-- No permit for the call or its next attempt. -/
  | rejected {outs : List (Ended T E)} {es : List Event} (h : Retold plan outs es)
      (ctx : ErrorContext) :
      Chronicle plan outs (es ++ [.concurrencyRejected])
        (some (.error (.concurrencyRejected ctx)))
  /-- The one end without an event of its own: a delay was over too late. -/
  | expired {outs : List (Ended T E)} {es : List Event} (h : Retold plan outs es)
      (hsome : outs ≠ []) (ctx : ErrorContext) :
      Chronicle plan outs es (some (.error (.totalTimeout ctx)))
  | settled {outs : List (Ended T E)} {es : List Event} (h : Retold plan outs es)
      (out : Ended T E) (hnumber : out.number = outs.length + 1)
      (hstop : ¬ GoesOn plan out.number out.outcome) (ctx : ErrorContext) :
      Chronicle plan (outs ++ [out]) (es ++ settledEvents out.number out.outcome)
        (some (out.outcome.own ctx))
  /-- Past `max_elapsed`. -/
  | elapsed {outs : List (Ended T E)} {es : List Event} (h : Retold plan outs es)
      (out : Ended T E) (hnumber : out.number = outs.length + 1)
      (hgo : GoesOn plan out.number out.outcome) (lastError : Option E) (ctx : ErrorContext) :
      Chronicle plan (outs ++ [out])
        (es ++ retriedEvents out.number out.outcome ++ [.gaveUp out.number])
        (some (elapsedResult lastError ctx))
  | denied {outs : List (Ended T E)} {es : List Event} (h : Retold plan outs es)
      (out : Ended T E) (hnumber : out.number = outs.length + 1)
      (hgo : GoesOn plan out.number out.outcome) (ctx : ErrorContext) :
      Chronicle plan (outs ++ [out])
        (es ++ retriedEvents out.number out.outcome ++ [.retryBudgetExhausted out.number])
        (some (.error (.retryBudgetExhausted ctx)))
  /-- The hint of the error asks for more than the deadline leaves. -/
  | bailed {outs : List (Ended T E)} {es : List Event} (h : Retold plan outs es)
      (out : Ended T E) (hnumber : out.number = outs.length + 1)
      (hgo : GoesOn plan out.number out.outcome) (ctx : ErrorContext) :
      Chronicle plan (outs ++ [out])
        (es ++ retriedEvents out.number out.outcome ++ [.gaveUp out.number])
        (some (.error (.totalTimeout ctx)))

/-- The event is the last of an attempt that has ended. -/
def Event.closesAttempt : Event → Bool
  | .retryScheduled _ _ | .succeeded _ | .gaveUp _ | .retryBudgetExhausted _ => true
  | _ => false

theorem closesAttempt_retriedEvents (number : Nat) (outcome : AttemptOutcome T E) :
    (retriedEvents number outcome).countP Event.closesAttempt = 0 := by
  cases outcome with
  | completed r => cases r <;> rfl
  | _ => rfl

theorem closesAttempt_settledEvents (number : Nat) (outcome : AttemptOutcome T E) :
    (settledEvents number outcome).countP Event.closesAttempt = 1 := by
  cases outcome with
  | completed r => cases r <;> rfl
  | _ => rfl

theorem Retold.length {plan : Plan T E} {outs : List (Ended T E)} {es : List Event}
    (h : Retold plan outs es) : outs.length = es.countP Event.closesAttempt := by
  induction h with
  | nil => rfl
  | snoc h out delay hnumber hgo ih =>
      simp [closesAttempt_retriedEvents, ih, Event.closesAttempt]

theorem Chronicle.length {plan : Plan T E} {outs : List (Ended T E)} {es : List Event}
    {r : Option (Except (ExecutionError E) T)} (h : Chronicle plan outs es r) :
    outs.length = es.countP Event.closesAttempt := by
  cases h with
  | underway h => exact h.length
  | turnedAway ctx => rfl
  | rejected h ctx => simp [h.length, Event.closesAttempt]
  | expired h hsome ctx => exact h.length
  | settled h out hnumber hstop ctx => simp [h.length, closesAttempt_settledEvents]
  | elapsed h out hnumber hgo lastError ctx | denied h out hnumber hgo ctx
  | bailed h out hnumber hgo ctx =>
      simp [h.length, closesAttempt_retriedEvents, Event.closesAttempt]

def Ahead (plan : Plan T E) (number : Nat) (outs : List (Ended T E)) (es : List Event) : Prop :=
  Retold plan outs es ∧ number = outs.length + 1

/-- Attempt `number` has ended with `outcome`, and nothing of it is told. -/
def Unheard (plan : Plan T E) (number : Nat) (outcome : AttemptOutcome T E) (now : Nat)
    (outs : List (Ended T E)) (es : List Event) : Prop :=
  ∃ earlier, outs = earlier ++ [⟨number, outcome, now⟩] ∧ Ahead plan number earlier es

/-- Attempt `number` has ended and is to be retried; its delay is not told. -/
def Heard (plan : Plan T E) (number : Nat) (outs : List (Ended T E)) (es : List Event) : Prop :=
  ∃ earlier told outcome now, outs = earlier ++ [⟨number, outcome, now⟩] ∧
    es = told ++ retriedEvents number outcome ∧ Ahead plan number earlier told ∧
    GoesOn plan number outcome

def Postponed (plan : Plan T E) (number : Nat) (outs : List (Ended T E)) (es : List Event) : Prop :=
  Ahead plan (number + 1) outs es ∧ outs ≠ []

def Applicant.Chronicled (plan : Plan T E) (outs : List (Ended T E)) (es : List Event) :
    Applicant E → Prop
  | .operation => outs = [] ∧ es = []
  | .attempt d _ => Ahead plan d.attemptNo outs es

def Stage.Chronicled (plan : Plan T E) (outs : List (Ended T E)) (es : List Event) :
    Stage T E → Prop
  | .created | .operationsQueue _ => outs = [] ∧ es = []
  | .attemptsQueue d _ _ | .running d _ _ => Ahead plan d.attemptNo outs es
  | .backingOff d _ => Postponed plan d.attemptNo outs es
  | .returned r => Chronicle plan outs es (some r)
  | .dropped => Retold plan outs es

def Spot.Chronicled (plan : Plan T E) (call : Call T E) (outs : List (Ended T E))
    (es : List Event) : Spot T E → Prop
  | .suspended => call.stage.Chronicled plan outs es
  | .entering | .gating | .admitted _ => outs = [] ∧ es = []
  | .asking a | .waiting a _ | .granted a | .refused a => a.Chronicled plan outs es
  | .head d | .starting d _ _ | .ending d _ => Ahead plan d.attemptNo outs es
  | .judging d outcome now => Unheard plan d.attemptNo outcome now outs es
  | .retrying d _ | .charging d _ | .pausing d | .drawn d _ | .scheduling d _ =>
      Heard plan d.attemptNo outs es
  | .scheduled d _ | .dozing d _ | .waking d => Postponed plan d.attemptNo outs es
  | .exiting r | .leaving r => Chronicle plan outs es (some r)

section Hops

variable {plan : Plan T E} {id : Nat} {c c' : Cursor T E} {outs : List (Ended T E)}
  {es : List Event} {log os : List (Obs T E)}

theorem Spot.Chronicled.quiet {call : Call T E} {spot : Spot T E}
    (h : spot.Chronicled plan call outs es) (houts : outcomes os = [])
    (hes : loopEvents os = []) :
    spot.Chronicled plan call (outs ++ outcomes os) (es ++ loopEvents os) := by
  rwa [houts, hes, List.append_nil, List.append_nil]

theorem Spot.Chronicled.news (hook : plan.onEvent = true) {call : Call T E} {spot : Spot T E}
    {told : List Event} (htold : ∀ state, Event.circuitStateChanged state ∉ told)
    (h : spot.Chronicled plan call outs (es ++ told)) :
    spot.Chronicled plan call (outs ++ outcomes (plan.news told))
      (es ++ loopEvents (plan.news told : List (Obs T E))) := by
  have hcalm : ∀ o ∈ (plan.news told : List (Obs T E)), o.isAttempt = false := fun o ho =>
    Obs.calm_of_idle (Plan.news_idle o ho)
  rwa [outcomes_of_calm hcalm, loopEvents_news hook htold, List.append_nil]

end Hops

/-! ## Over whole runs -/

end ExecutionPolicy
