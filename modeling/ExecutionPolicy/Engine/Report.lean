import ExecutionPolicy.Engine.Hops

/-! # What a call reports

The result of a call against the outcomes of its attempts. The loop carries the
latest error an attempt returned; only the `max_elapsed` exit reads it back after
a later attempt has ended differently.
-/

namespace ExecutionPolicy

open StepSystem

variable {T E : Type}

/-- A finished attempt and the clock reading taken after it. -/
structure Ended (T E : Type) where
  number : Nat
  outcome : AttemptOutcome T E
  now : Nat

def Obs.ended? : Obs T E → Option (Ended T E)
  | .ended number outcome now => some { number, outcome, now }
  | _ => none

def outcomes (log : List (Obs T E)) : List (Ended T E) := log.filterMap Obs.ended?

def carriedError (outs : List (Ended T E)) : Option E :=
  outs.foldl (fun acc o => o.outcome.error?.or acc) none

def lastOutcome (outs : List (Ended T E)) : Option (AttemptOutcome T E) :=
  outs.getLast?.map Ended.outcome

/-- A success, an operation error and an attempt timeout are what the last attempt did. -/
def Reports (r : Except (ExecutionError E) T) (outs : List (Ended T E)) : Prop :=
  match r with
  | .ok v => lastOutcome outs = some (.completed (.ok v))
  | .error (.operation source _) => lastOutcome outs = some (.completed (.error source))
  | .error (.attemptTimeout _) => lastOutcome outs = some .attemptTimeout
  | .error _ => True

/-- The loop would go on after the last attempt but is out of time, and that attempt
returned no error: it returned a retried `Ok`, or was cut off after an earlier one
had returned an error. -/
def StaleExit (plan : Plan T E) (start : Nat) (outs : List (Ended T E)) : Prop :=
  ∃ earlier last, outs = earlier ++ [last] ∧
    GoesOn plan last.number last.outcome ∧ OutOfTime plan start last.now ∧
    last.outcome.error? = none ∧
    (last.outcome = .attemptTimeout → carriedError earlier ≠ none)

@[simp] theorem outcomes_append (log log' : List (Obs T E)) :
    outcomes (log ++ log') = outcomes log ++ outcomes log' :=
  List.filterMap_append

theorem outcomes_of_calm {os : List (Obs T E)} (hos : ∀ o ∈ os, o.isAttempt = false) :
    outcomes os = [] :=
  filterMap_of_calm (fun o ho => by cases o <;> simp_all [Obs.ended?, Obs.isAttempt]) hos

theorem carriedError_snoc (outs : List (Ended T E)) (last : Ended T E) :
    carriedError (outs ++ [last]) = last.outcome.error?.or (carriedError outs) := by
  simp [carriedError]

@[simp] theorem lastOutcome_snoc (outs : List (Ended T E)) (last : Ended T E) :
    lastOutcome (outs ++ [last]) = some last.outcome := by
  simp [lastOutcome]

theorem not_staleExit_nil (plan : Plan T E) (start : Nat) : ¬ StaleExit plan start [] := by
  rintro ⟨earlier, last, hsplit, _⟩
  simp at hsplit

theorem staleExit_snoc {plan : Plan T E} {start : Nat} {outs : List (Ended T E)}
    {last : Ended T E} :
    StaleExit plan start (outs ++ [last]) ↔
      GoesOn plan last.number last.outcome ∧ OutOfTime plan start last.now ∧
        last.outcome.error? = none ∧
        (last.outcome = .attemptTimeout → carriedError outs ≠ none) := by
  constructor
  · rintro ⟨earlier, last', hsplit, hrest⟩
    obtain ⟨rfl, hlast⟩ := List.append_inj' hsplit rfl
    cases hlast
    exact hrest
  · exact fun hrest => ⟨outs, last, rfl, hrest⟩

/-! ## The carried error -/

/-- The locals of the loop hold the latest error returned so far, and no attempt so
far has called for the stale exit. -/
def Carried (plan : Plan T E) (start : Nat) (d : Drive E) (outs : List (Ended T E)) : Prop :=
  d.lastError = carriedError outs ∧ ¬ StaleExit plan start outs

/-- A call in the loop carries its latest error; a returned call reports its last
attempt exactly when it did not take the stale exit. -/
def Faithful (plan : Plan T E) (call : Call T E) (log : List (Obs T E)) : Prop :=
  match call.stage with
  | .created | .operationsQueue _ => outcomes log = []
  | .attemptsQueue d _ _ | .running d _ _ | .backingOff d _ =>
      Carried plan call.start d (outcomes log)
  | .returned r => Reports r (outcomes log) ↔ ¬ StaleExit plan call.start (outcomes log)
  | .dropped => True

/-! ## Between two awaits -/

def Applicant.Faithful (plan : Plan T E) (start : Nat) (outs : List (Ended T E)) :
    Applicant E → Prop
  | .operation => outs = []
  | .attempt d _ => Carried plan start d outs

/-- The latest attempt of `outs` ended with `outcome` at `now`, and `d` has not seen it. -/
def Unseen (d : Drive E) (outcome : AttemptOutcome T E) (now : Nat) (outs : List (Ended T E)) :
    Prop :=
  ∃ earlier, outs = earlier ++ [⟨d.attemptNo, outcome, now⟩] ∧ d.lastError = carriedError earlier

def Spot.Faithful (plan : Plan T E) (call : Call T E) (log : List (Obs T E)) : Spot T E → Prop
  | .suspended => ExecutionPolicy.Faithful plan call log
  | .entering | .gating | .admitted _ => outcomes log = []
  | .asking a | .waiting a _ | .granted a | .refused a =>
      a.Faithful plan call.start (outcomes log)
  | .judging d outcome now => Unseen d outcome now (outcomes log)
  | .retrying d now => ∃ d₀ outcome, d = d₀.seen outcome ∧ GoesOn plan d.attemptNo outcome ∧
      Unseen d₀ outcome now (outcomes log)
  | .head d | .starting d _ _ | .ending d _ | .charging d _ | .pausing d | .drawn d _
  | .scheduling d _ | .scheduled d _ | .dozing d _ | .waking d =>
      Carried plan call.start d (outcomes log)
  | .exiting r | .leaving r =>
      Reports r (outcomes log) ↔ ¬ StaleExit plan call.start (outcomes log)

section Hops

variable {plan : Plan T E} {id : Nat} {c c' : Cursor T E} {log log' os : List (Obs T E)}

theorem Spot.faithful_congr {call : Call T E} {spot : Spot T E}
    (h : outcomes log' = outcomes log) :
    spot.Faithful plan call log' ↔ spot.Faithful plan call log := by
  unfold Spot.Faithful ExecutionPolicy.Faithful
  rw [h]

theorem carried_first (start : Nat) (s : BreakerState) : Carried plan start (.first s) [] :=
  ⟨rfl, not_staleExit_nil plan start⟩

theorem reports_own (outcome : AttemptOutcome T E) (ctx : ErrorContext) (outs : List (Ended T E))
    (number now : Nat) : Reports (outcome.own ctx) (outs ++ [⟨number, outcome, now⟩]) := by
  cases outcome with
  | completed r => cases r <;> simp [AttemptOutcome.own, Reports]
  | attemptTimeout => simp [AttemptOutcome.own, Reports]
  | totalTimeout => trivial

/-- The `max_elapsed` exit reports the last attempt unless what it reads is stale. -/
theorem reports_elapsed_iff {outcome : AttemptOutcome T E} {d : Drive E} {ctx : ErrorContext}
    {outs : List (Ended T E)} {number now start : Nat}
    (hlast : d.lastError = carriedError outs) (hgo : GoesOn plan number outcome)
    (hout : OutOfTime plan start now) :
    Reports (elapsedResult (d.seen outcome).lastError ctx : Except (ExecutionError E) T)
        (outs ++ [⟨number, outcome, now⟩]) ↔
      ¬ StaleExit plan start (outs ++ [⟨number, outcome, now⟩]) := by
  rw [staleExit_snoc]
  cases outcome with
  | completed r =>
      cases r with
      | ok v =>
          have hstale : ¬ Reports (elapsedResult (d.seen (.completed (.ok v))).lastError ctx)
              (outs ++ [⟨number, .completed (.ok v), now⟩]) := by
            cases he : (d.seen (.completed (.ok v) : AttemptOutcome T E)).lastError <;>
              simp [elapsedResult, Reports]
          simp [hstale, hgo, hout, AttemptOutcome.error?]
      | error e => simp [elapsedResult, Drive.seen, AttemptOutcome.error?, Reports]
  | attemptTimeout =>
      simp only [Drive.seen, AttemptOutcome.error?, Option.none_or, hlast]
      cases he : carriedError outs <;> simp [elapsedResult, Reports, hgo, hout]
  | totalTimeout => exact absurd hgo.1 (by simp [AttemptOutcome.retried])

theorem faithful_leaving {call : Call T E} {e : ExecutionError E} (hnone : outcomes log = [])
    (hplain : ∀ outs : List (Ended T E), Reports (.error e : Except _ T) outs) :
    (Spot.leaving (.error e)).Faithful plan call log := by
  simp only [Spot.Faithful, hnone]
  exact ⟨fun _ => not_staleExit_nil _ _, fun _ => hplain _⟩

theorem Hop.faithful_still (hop : Hop plan id c os c') (hos : outcomes os = [])
    (h : c.spot.Faithful plan c.call log) : c'.spot.Faithful plan c'.call log := by
  cases hop with
  | begin hs => simpa [Spot.Faithful, Faithful, hs] using h
  | @repoll call a k timers hs =>
      cases a <;> simpa [Spot.Faithful, Faithful, Applicant.Faithful, hs, Applicant.queue] using h
  | @park call a k timers hfree => cases a <;> exact h
  | refuseOperation now => exact faithful_leaving h fun _ => trivial
  | turnAway now hb hg => exact faithful_leaving h fun _ => trivial
  | refuseAttempt now => exact ⟨fun _ => h.2, fun _ => trivial⟩
  | @deposit call s k =>
      have hnone : outcomes log = [] := h
      simp only [Spot.Faithful, hnone]
      exact carried_first call.start s
  | start => exact h
  | pend timers hs => simpa [Spot.Faithful, Faithful, hs] using h
  | cease outcome hs => simpa [Spot.Faithful, Faithful, hs] using h
  | noteEnd => cases hos
  | settle hstop =>
      obtain ⟨earlier, houts, _⟩ := h
      simp only [Spot.Faithful, houts, staleExit_snoc]
      exact ⟨fun _ hstale => hstop hstale.1, fun _ => reports_own _ _ _ _ _⟩
  | retry hgo => exact ⟨_, _, rfl, hgo, h⟩
  | elapsed hout =>
      obtain ⟨d₀, outcome, rfl, hgo, earlier, houts, hlast⟩ := h
      simp only [Spot.Faithful, houts]
      exact reports_elapsed_iff hlast hgo hout
  | inTime hin =>
      obtain ⟨d₀, outcome, rfl, hgo, earlier, houts, hlast⟩ := h
      simp only [Spot.Faithful, houts]
      refine ⟨?_, fun hstale => hin (staleExit_snoc.mp hstale).2.1⟩
      rw [carriedError_snoc, ← hlast]
      rfl
  | deny | bail | expire => exact ⟨fun _ => h.2, fun _ => trivial⟩
  | rouse hs => simpa [Spot.Faithful, Faithful, hs] using h
  | _ => exact h

theorem Hop.faithful (hop : Hop plan id c os c') (h : c.spot.Faithful plan c.call log) :
    c'.spot.Faithful plan c'.call (log ++ os) := by
  have hrest : outcomes os = [] → c'.spot.Faithful plan c'.call (log ++ os) := by
    intro hos
    have hsame : outcomes (log ++ os) = outcomes log := by
      rw [outcomes_append, hos, List.append_nil]
    exact (Spot.faithful_congr hsame).mpr (hop.faithful_still hos h)
  rcases hop.calm with ⟨call, d, attempt, permit, k, rfl, rfl, rfl⟩ |
    ⟨call, d, outcome, k, rfl, rfl, rfl⟩ | hcalm
  · exact hrest rfl
  · exact ⟨outcomes log, by rw [outcomes_append]; rfl, h.1⟩
  · exact hrest (outcomes_of_calm hcalm)

end Hops

theorem System.faithful_run {plan : Plan T E} {start : Nat} {ls : List (System.Label T E)}
    {s : System T E} (hrun : run (System.step plan) (System.init plan start) ls = some s) :
    s.EachCall (Faithful plan) := by
  refine System.eachCall_of_hops (Q := fun call spot log => spot.Faithful plan call log) rfl
    (fun id c os c' log hop hc => hop.faithful hc) ?_ hrun
  intro call log hover h
  trivial

/-- For any plan, any interleaving of calls and any outcomes of their attempts: a
returned call reports its last attempt if and only if it did not take the stale exit. -/
theorem reports_last_attempt_iff (plan : Plan T E) (start : Nat) (ls : List (System.Label T E))
    (s : System T E) (hrun : run (System.step plan) (System.init plan start) ls = some s)
    (i : Nat) (call : Call T E) (hi : s.calls[i]? = some call)
    (r : Except (ExecutionError E) T) (hr : call.stage = .returned r) :
    Reports r (outcomes (s.logOf i)) ↔ ¬ StaleExit plan call.start (outcomes (s.logOf i)) := by
  have hcall := (System.faithful_run hrun).2 i call hi
  simpa [Faithful, hr] using hcall

/-- Three immediate attempts, every outcome retried, 5 ns at most. -/
def insistent : Plan Nat Nat where
  retry := { (Retry.fixed 0 : Retry Nat Nat) with
    classifier := .whenOutcome fun _ => .retry, maxElapsed := some 5 }
  attemptTimeout := none
  totalTimeout := none
  breaker := none
  concurrency := none
  onEvent := false
  maxAttempts_pos := show 1 ≤ 3 by decide
  timeouts_ordered := Plan.untimed_ordered

/-- An error, then a value that comes when time is up. -/
def lateValue : List (System.Label Nat Nat) :=
  [.call, .poll 0 .pending, .poll 0 (.answer 0 (.error 7)), .poll 0 (.answer 5 (.ok 1))]

def afterLateValue : System Nat Nat :=
  (run (System.step insistent) (System.init insistent 0) lateValue).get rfl

theorem reports_last_attempt_iff_lateValue :
    ∃ call r, afterLateValue.calls[0]? = some call ∧ call.stage = .returned r ∧
      (Reports r (outcomes (afterLateValue.logOf 0)) ↔
        ¬ StaleExit insistent call.start (outcomes (afterLateValue.logOf 0))) := by
  refine ⟨_, _, rfl, rfl, ?_⟩
  exact reports_last_attempt_iff insistent 0 lateValue afterLateValue rfl 0 _ rfl _ rfl

/-- The last attempt returned `Ok 1`; the call reports the error of the first. -/
theorem late_value_reports_old_error :
    ∃ s call ctx, run (System.step insistent) (System.init insistent 0) lateValue = some s ∧
      s.calls[0]? = some call ∧ call.stage = .returned (.error (.operation 7 ctx)) ∧
      lastOutcome (outcomes (s.logOf 0)) = some (.completed (.ok 1)) ∧
      ¬ Reports (.error (.operation 7 ctx) : Except _ Nat) (outcomes (s.logOf 0)) := by
  have hlast : lastOutcome (outcomes (afterLateValue.logOf 0)) = some (.completed (.ok 1)) := rfl
  refine ⟨afterLateValue, _, _, rfl, rfl, rfl, hlast, fun h => ?_⟩
  cases hlast.symm.trans h

end ExecutionPolicy
