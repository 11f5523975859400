import ExecutionPolicy.Engine.Hops

/-! # How often a call invokes the operation

The attempts a log starts against the attempt counter of the loop and, once the
call has returned, against the result: an error says by its kind and its context
how many attempts were started before it.
-/

namespace ExecutionPolicy

variable {T E : Type}

def Obs.started? : Obs T E → Option Nat
  | .started _ clock => some clock
  | _ => none

def starts (log : List (Obs T E)) : List Nat := log.filterMap Obs.started?

@[simp] theorem starts_append (log log' : List (Obs T E)) :
    starts (log ++ log') = starts log ++ starts log' :=
  List.filterMap_append

theorem Obs.started?_of_calm {o : Obs T E} (h : o.isAttempt = false) : o.started? = none := by
  cases o <;> simp_all [Obs.started?, Obs.isAttempt]

theorem starts_of_calm {os : List (Obs T E)} (hos : ∀ o ∈ os, o.isAttempt = false) :
    starts os = [] := filterMap_of_calm (fun _ => Obs.started?_of_calm) hos

theorem Calm.starts {f g : Frame T E} (h : Calm f g) (log : List (Obs T E)) :
    starts (log ++ g.log) = starts (log ++ f.log) := by
  have hsame : ExecutionPolicy.starts g.log = ExecutionPolicy.starts f.log :=
    h.filterMap_log fun _ => Obs.started?_of_calm
  simp [hsame]

namespace ExecutionError

def invocations : ExecutionError E → Nat
  | operation _ c => c.attempts
  | attemptTimeout c => c.attempts
  | totalTimeout c => c.attempts
  | circuitOpen _ => 0
  -- an attempts-scope refusal already counts the attempt that is refused
  | concurrencyRejected c => c.attempts - 1
  | retryBudgetExhausted c => c.attempts

/-- The call was turned away by the breaker, or by the limit before its first attempt. -/
def turnedAway : ExecutionError E → Bool
  | circuitOpen _ => true
  | concurrencyRejected c => decide (c.attempts ≤ 1)
  | _ => false

end ExecutionError

/-- A result agrees with the number of attempts started. -/
def Accounts (r : Except (ExecutionError E) T) (started : Nat) : Prop :=
  match r with
  | .ok _ => 0 < started
  | .error e => started = e.invocations ∧ (e.turnedAway = true ↔ started = 0)

theorem accounts_own (outcome : AttemptOutcome T E) (ctx : ErrorContext) {n : Nat} (hn : 0 < n) :
    Accounts (outcome.own (ctx.counting n)) n := by
  have hne : n ≠ 0 := by omega
  cases outcome with
  | completed r =>
      cases r with
      | ok v => exact hn
      | error e => exact ⟨rfl, by simp [ExecutionError.turnedAway, hne]⟩
  | attemptTimeout => exact ⟨rfl, by simp [ExecutionError.turnedAway, hne]⟩
  | totalTimeout => exact ⟨rfl, by simp [ExecutionError.turnedAway, hne]⟩

theorem accounts_elapsedResult (lastError : Option E) (ctx : ErrorContext) {n : Nat}
    (hn : 0 < n) : Accounts (elapsedResult lastError (ctx.counting n) : Except _ T) n := by
  have hne : n ≠ 0 := by omega
  cases lastError with
  | none => exact ⟨rfl, by simp [ExecutionError.turnedAway, hne]⟩
  | some e => exact ⟨rfl, by simp [ExecutionError.turnedAway, hne]⟩

theorem accounts_rejected (ctx : ErrorContext) {n : Nat} :
    Accounts (.error (.concurrencyRejected (ctx.counting n)) : Except (ExecutionError E) T)
      (n - 1) := by
  refine ⟨rfl, ?_⟩
  show decide (n ≤ 1) = true ↔ n - 1 = 0
  rw [decide_eq_true_iff]
  omega

/-- The attempt counter of the loop is the number of attempts started, the one a call
queues for included; a call nobody dropped returns a result that agrees with it. -/
def Counted (call : Call T E) (log : List (Obs T E)) : Prop :=
  match call.stage with
  | .created | .operationsQueue _ => (starts log).length = 0
  | .attemptsQueue d _ _ => (starts log).length + 1 = d.attemptNo
  | .running d _ _ | .backingOff d _ => (starts log).length = d.attemptNo ∧ 0 < d.attemptNo
  | .returned r => Accounts r (starts log).length
  | .dropped => False

/-! ## Between two awaits -/

def Applicant.Counted (started : Nat) : Applicant E → Prop
  | .operation => started = 0
  | .attempt d _ => started + 1 = d.attemptNo

def Spot.Counted (call : Call T E) (log : List (Obs T E)) : Spot T E → Prop
  | .suspended => ExecutionPolicy.Counted call log
  | .entering | .gating | .admitted _ => (starts log).length = 0
  | .asking a | .waiting a _ | .granted a | .refused a => a.Counted (starts log).length
  | .head d | .starting d _ _ => (starts log).length + 1 = d.attemptNo
  | .ending d _ | .judging d _ _ | .retrying d _ | .charging d _ | .pausing d | .drawn d _
  | .scheduling d _ | .scheduled d _ | .dozing d _ | .waking d =>
      (starts log).length = d.attemptNo ∧ 0 < d.attemptNo
  | .exiting r | .leaving r => Accounts r (starts log).length

section Hops

variable {plan : Plan T E} {id : Nat} {c c' : Cursor T E} {log log' os : List (Obs T E)}

theorem Spot.counted_congr {call : Call T E} {spot : Spot T E} (h : starts log' = starts log) :
    spot.Counted call log' ↔ spot.Counted call log := by
  unfold Spot.Counted ExecutionPolicy.Counted
  rw [h]

theorem Hop.counted_still (hop : Hop plan id c os c') (hos : starts os = [])
    (h : c.spot.Counted c.call log) : c'.spot.Counted c'.call log := by
  cases hop with
  | begin hs => simpa [Spot.Counted, Counted, hs] using h
  | @repoll call a k timers hs =>
      cases a <;> simpa [Spot.Counted, Counted, Applicant.Counted, hs, Applicant.queue] using h
  | @park call a k timers hfree => cases a <;> exact h
  | refuseOperation now =>
      have hnone : (starts log).length = 0 := h
      simp only [Spot.Counted, hnone]
      exact accounts_rejected (context 0 _ now none .disabled)
  | @refuseAttempt call d attempt k now =>
      have hnext : (starts log).length + 1 = d.attemptNo := h
      have hstarted : (starts log).length = d.attemptNo - 1 := by omega
      simp only [Spot.Counted, hstarted]
      exact accounts_rejected (context d.attemptNo call.start now d.lastDelay d.breakerState)
  | turnAway now hb hg => exact ⟨h, fun _ => h, fun _ => rfl⟩
  | deposit => exact congrArg (· + 1) h
  | start => cases hos
  | pend timers hs => simpa [Spot.Counted, Counted, hs] using h
  | cease outcome hs => simpa [Spot.Counted, Counted, hs] using h
  | @settle call d outcome now k hstop =>
      have hown := accounts_own outcome
        (context d.attemptNo call.start now d.lastDelay d.breakerState) h.2
      exact h.1 ▸ hown
  | @elapsed call d now k hout =>
      have helapsed := accounts_elapsedResult (T := T) d.lastError
        (context d.attemptNo call.start now d.lastDelay d.breakerState) h.2
      exact h.1 ▸ helapsed
  | deny hb hw => exact ⟨h.1, by simp [ExecutionError.turnedAway, h.1, Nat.ne_of_gt h.2]⟩
  | bail now | expire now =>
      exact ⟨h.1, by simp [ExecutionError.turnedAway, h.1, Nat.ne_of_gt h.2]⟩
  | rouse hs => simpa [Spot.Counted, Counted, hs] using h
  | again | resume => exact congrArg (· + 1) h.1
  | _ => exact h

theorem Hop.counted (hop : Hop plan id c os c') (h : c.spot.Counted c.call log) :
    c'.spot.Counted c'.call (log ++ os) := by
  have hrest : starts os = [] → c'.spot.Counted c'.call (log ++ os) := by
    intro hos
    have hsame : starts (log ++ os) = starts log := by rw [starts_append, hos, List.append_nil]
    exact (Spot.counted_congr hsame).mpr (hop.counted_still hos h)
  rcases hop.calm with ⟨call, d, attempt, permit, k, rfl, rfl, rfl⟩ |
    ⟨call, d, outcome, k, rfl, rfl, rfl⟩ | hcalm
  · have hnext : (starts log).length + 1 = d.attemptNo := h
    have hone : (starts [(.started attempt k.core.time : Obs T E)]).length = 1 := rfl
    show (starts (log ++ [.started attempt k.core.time])).length = d.attemptNo ∧ _
    rw [starts_append, List.length_append]
    omega
  · exact hrest rfl
  · exact hrest (starts_of_calm hcalm)

theorem counted_pollCall {id : Nat} {call : Call T E} {script : Script T E} {f : Frame T E}
    {done : Call T E × Frame T E} (hnew : f.log = []) (h : Counted call log)
    (hpoll : pollCall plan id call script f = some done) :
    Counted done.1 (log ++ done.2.log) := by
  have hstart : Spot.suspended.Counted call (log ++ f.log) := by
    rw [hnew, List.append_nil]
    exact h
  exact (reaches_pollCall hpoll).keeps (Q := fun c log => c.spot.Counted c.call log)
    (fun _ _ _ _ hop hc => hop.counted hc) log hstart

end Hops

def CountedOrDropped (call : Call T E) (log : List (Obs T E)) : Prop :=
  Counted call log ∨ call.stage = .dropped

theorem counted_step (plan : Plan T E) (s : System T E) (l : System.Label T E) (s' : System T E)
    (h : System.EachCall CountedOrDropped s) (hstep : System.step plan s l = some s') :
    System.EachCall CountedOrDropped s' := by
  refine System.eachCall_step_of_stretches (.inl rfl) ?_ ?_ s l s' h hstep
  · intro s i call script done _ h hpoll
    rcases h with h | hdropped
    · exact .inl (counted_pollCall rfl h hpoll)
    · simp [pollCall, hdropped] at hpoll
  · intro s i call done _ _ hdrop
    right
    rw [(dropCall_cases hdrop).1]

end ExecutionPolicy
