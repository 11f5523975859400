import ExecutionPolicy.Engine.Boxed
import ExecutionPolicy.Engine.Hops
import ExecutionPolicy.Retry.Budget

/-! # Retries against the calls that pay for them

A call refills the budget once, when it passes the gate, and every retry it starts has
taken a token before. What the bucket holds, what calls have taken and not used yet and
what calls are still to deposit are one account, which no decision of the code raises.
-/

namespace ExecutionPolicy

open StepSystem

variable {T E : Type}

def Obs.isRetry : Obs T E → Bool
  | .started attempt _ => 2 ≤ attempt.number
  | _ => false

def retries (log : List (Obs T E)) : Nat := log.countP Obs.isRetry

@[simp] theorem retries_nil : retries ([] : List (Obs T E)) = 0 := rfl

@[simp] theorem retries_append (log os : List (Obs T E)) :
    retries (log ++ os) = retries log + retries os := List.countP_append

@[simp] theorem retries_cons (o : Obs T E) (os : List (Obs T E)) :
    retries (o :: os) = retries os + if o.isRetry then 1 else 0 := List.countP_cons

@[simp] theorem retries_news (plan : Plan T E) (es : List Event) : retries (plan.news es) = 0 :=
  List.countP_eq_zero.mpr (Plan.forall_news fun _ _ => by simp [Obs.isRetry])

theorem RetryBudget.tryWithdraw_spec {tokens tokens' : Int}
    (h : tryWithdraw tokens = some tokens') :
    scale ≤ tokens ∧ tokens' = tokens - scale := by
  unfold tryWithdraw at h
  split at h
  next => cases h
  next hle => exact ⟨not_lt.mp hle, (Option.some.inj h).symm⟩

/-! ## What a call still has to its account -/

/-- The token for attempt `number`, which is still to start: the first is free. -/
def tokenFor (number : Nat) : Nat := if 2 ≤ number then 1 else 0

theorem tokenFor_le (number : Nat) : tokenFor number ≤ 1 := by
  unfold tokenFor
  split <;> omega

def Applicant.held : Applicant E → Nat
  | .operation => 0
  | .attempt _ next => tokenFor next.number

def Applicant.due : Applicant E → Nat
  | .operation => 1
  | .attempt _ _ => 0

def Stage.held : Stage T E → Nat
  | .attemptsQueue _ attempt _ => tokenFor attempt.number
  | .backingOff _ _ => 1
  | _ => 0

def Stage.due : Stage T E → Nat
  | .created | .operationsQueue _ => 1
  | _ => 0

def Spot.held (call : Call T E) : Spot T E → Nat
  | .suspended => call.stage.held
  | .asking a | .waiting a _ | .granted a | .refused a => a.held
  | .head d => tokenFor d.attemptNo
  | .starting _ attempt _ => tokenFor attempt.number
  | .pausing _ | .drawn _ _ | .scheduling _ _ | .scheduled _ _ | .dozing _ _ | .waking _ => 1
  | _ => 0

def Spot.due (call : Call T E) : Spot T E → Nat
  | .suspended => call.stage.due
  | .entering | .gating | .admitted _ => 1
  | .asking a | .waiting a _ | .granted a | .refused a => a.due
  | _ => 0

@[simp] theorem Applicant.held_queue (a : Applicant E) (timers : QueueTimers) :
    (a.queue timers : Stage T E).held = a.held := by
  cases a <;> rfl

@[simp] theorem Applicant.due_queue (a : Applicant E) (timers : QueueTimers) :
    (a.queue timers : Stage T E).due = a.due := by
  cases a <;> rfl

/-- What the bucket holds with what the call has to its account. -/
def Cursor.account (b : RetryBudget) (c : Cursor T E) : Int :=
  c.shared.tokens + RetryBudget.scale * c.spot.held c.call + b.deposit * c.spot.due c.call

section Hops

variable {plan : Plan T E} {id : Nat} {c c' : Cursor T E} {os : List (Obs T E)} {b : RetryBudget}

@[simp] theorem tokens_release (k : Shared) (permit : Bool) :
    (if permit = true then { k with sem := k.sem.release.2 } else k).tokens = k.tokens := by
  split <;> rfl

/-- No decision raises the account: a token that is taken is used for one retry at most, and
a deposit that is due is made once at most. -/
theorem Hop.account_le (hbudget : plan.retry.budget = some b) (hdeposit : 0 ≤ b.deposit)
    (hop : Hop plan id c os c') :
    c'.account b + RetryBudget.scale * retries os ≤ c.account b := by
  have hscale : (0 : Int) ≤ RetryBudget.scale := by decide
  cases hop with
  | begin hs | cease _ hs | rouse hs =>
      simp [Cursor.account, Spot.held, Spot.due, Stage.held, Stage.due, hs]
  | repoll hs => simp [Cursor.account, Spot.held, Spot.due, hs]
  | park => simp [Cursor.account, Spot.held, Spot.due]
  | @deposit call s k =>
      have hrefilled : plan.deposited k.tokens ≤ k.tokens + b.deposit := by
        simp only [Plan.deposited, hbudget]
        exact min_le_left _ _
      simpa [Cursor.account, Spot.held, Spot.due, Drive.first, tokenFor] using hrefilled
  | start =>
      simp [Cursor.account, Spot.held, Spot.due, Stage.held, Stage.due, Obs.isRetry, tokenFor]
  | @withdraw call d now k _ tokens hb hw =>
      simp [Cursor.account, Spot.held, Spot.due, Obs.isRetry,
        (RetryBudget.tryWithdraw_spec hw).2]
  | unbudgeted hb =>
      rw [hbudget] at hb
      cases hb
  | @again call d k hd | @resume call d k _ hd hlt =>
      have hone : (tokenFor (d.attemptNo + 1) : Int) ≤ 1 := by
        exact_mod_cast tokenFor_le (d.attemptNo + 1)
      have hpaid := mul_le_mul_of_nonneg_left hone hscale
      simpa [Cursor.account, Spot.held, Spot.due, Obs.isRetry] using hpaid
  | bail | expire =>
      simpa [Cursor.account, Spot.held, Spot.due, Obs.isRetry] using hscale
  | @refuseAttempt call d attempt k now =>
      have hkept : 0 ≤ RetryBudget.scale * (tokenFor attempt.number : Int) :=
        mul_nonneg hscale (Int.natCast_nonneg _)
      simpa [Cursor.account, Spot.held, Spot.due, Applicant.held, Applicant.due] using hkept
  | refuseOperation | turnAway =>
      simpa [Cursor.account, Spot.held, Spot.due, Applicant.held, Applicant.due, Obs.isRetry]
        using hdeposit
  | _ =>
      simp [Cursor.account, Spot.held, Spot.due, Stage.held, Stage.due, Applicant.held,
        Applicant.due, Obs.isRetry, *]

/-- No decision overdraws the bucket. -/
theorem Hop.tokens_nonneg (hbudget : plan.retry.budget = some b) (hdeposit : 0 ≤ b.deposit)
    (hmax : 0 ≤ b.maxTokens) (hop : Hop plan id c os c') (h : 0 ≤ c.shared.tokens) :
    0 ≤ c'.shared.tokens := by
  cases hop with
  | deposit =>
      simp only [Plan.deposited, hbudget, RetryBudget.deposited]
      exact le_min (add_nonneg h hdeposit) hmax
  | @withdraw call d now k _ tokens hb hw =>
      obtain ⟨hle, rfl⟩ := RetryBudget.tryWithdraw_spec hw
      exact Int.sub_nonneg_of_le hle
  | cease | leave => simpa using h
  | _ => exact h

end Hops

/-! ## The account of all calls -/

namespace System

/-- How many retries all calls together have started. -/
def retried (s : System T E) : Nat := retries (s.trace.map Prod.snd)

/-- The bucket with what all calls have to their accounts and have used. -/
def account (b : RetryBudget) (s : System T E) : Int :=
  s.shared.tokens +
    RetryBudget.scale * (s.retried + TaskPool.total (fun c => c.stage.held) s.calls) +
    b.deposit * TaskPool.total (fun c => c.stage.due) s.calls

/-- A new call of this or another policy, which brings a deposit. -/
def Label.brings : Label T E → Bool
  | .call | .depositElsewhere => true
  | _ => false

def Label.takes : Label T E → Bool
  | .withdrawElsewhere => true
  | _ => false

def Label.allowed (b : RetryBudget) (l : Label T E) : Int :=
  b.deposit * (if l.brings then 1 else 0) - RetryBudget.scale * (if l.takes then 1 else 0)

theorem sum_allowed (b : RetryBudget) (ls : List (Label T E)) :
    (ls.map (Label.allowed b)).sum =
      b.deposit * ls.countP Label.brings - RetryBudget.scale * ls.countP Label.takes := by
  induction ls with
  | nil => simp
  | cons l ls ih =>
      rw [List.map_cons, List.sum_cons, ih, List.countP_cons, List.countP_cons, Label.allowed]
      push_cast
      ring

section Steps

variable {plan : Plan T E} {s s' : System T E} {b : RetryBudget}

/-- A stretch of one call moves the account of all calls as it moves the call's own. -/
theorem account_settle_le {i : Nat} {call : Call T E} (hi : s.calls[i]? = some call)
    {done : Call T E × Frame T E}
    (h : Cursor.account b ⟨done.1, .suspended, done.2.toShared⟩ +
        RetryBudget.scale * retries done.2.log ≤
      Cursor.account b ⟨call, .suspended, s.shared⟩) :
    (s.settle i done).account b ≤ s.account b := by
  have hheld := TaskPool.total_set (fun c : Call T E => c.stage.held) hi done.1
  have hdue := TaskPool.total_set (fun c : Call T E => c.stage.due) hi done.1
  have hretried : (s.settle i done).retried = s.retried + retries done.2.log := by
    simp [retried, settle]
  zify at hheld hdue
  rw [account, hretried]
  simp only [account, Cursor.account, Spot.held, Spot.due, settle] at h ⊢
  push_cast
  linear_combination h + RetryBudget.scale * hheld + b.deposit * hdue

theorem dropCall_tokens {call : Call T E} {f : Frame T E} {done : Call T E × Frame T E}
    (h : dropCall call f = some done) : done.2.tokens = f.tokens := by
  unfold dropCall at h
  cases hstage : call.stage with
  | running d permit timers =>
      simp only [hstage, Option.some.injEq] at h
      subst h
      cases permit <;> cases call.opPermit <;> rfl
  | returned r => simp [hstage] at h
  | dropped => simp [hstage] at h
  | _ =>
      simp only [hstage, Option.some.injEq] at h
      subst h
      cases call.opPermit <;> rfl

theorem account_step (hbudget : plan.retry.budget = some b) (hdeposit : 0 ≤ b.deposit)
    (hmax : 0 ≤ b.maxTokens) (l : Label T E) (htokens : 0 ≤ s.shared.tokens)
    (hstep : step plan s l = some s') :
    0 ≤ s'.shared.tokens ∧ s'.account b ≤ s.account b + l.allowed b := by
  have hscale : (0 : Int) ≤ RetryBudget.scale := by decide
  cases l with
  | elapse d =>
      cases hstep
      exact ⟨htokens, by simp [account, retried, Label.allowed, Label.brings, Label.takes]⟩
  | call =>
      cases hstep
      refine ⟨htokens, le_of_eq ?_⟩
      simp only [account, retried, Label.allowed, Label.brings, Label.takes, created, Stage.held,
        Stage.due, List.map_append, TaskPool.total_snoc, retries_append]
      push_cast
      simp [Obs.isRetry]
      ring
  | poll i script =>
      obtain ⟨call, done, hi, hpoll, rfl⟩ := step_poll hstep
      -- both bounds are carried through the hops of the poll
      have hwalk := (reaches_pollCall hpoll).keeps
        (Q := fun c log => 0 ≤ c.shared.tokens ∧ c.account b + RetryBudget.scale * retries log ≤
          Cursor.account b ⟨call, .suspended, s.shared⟩)
        (fun c os c' log hop hc => by
          refine ⟨hop.tokens_nonneg hbudget hdeposit hmax hc.1, ?_⟩
          have hle := hop.account_le hbudget hdeposit
          rw [retries_append]
          push_cast
          linear_combination hle + hc.2)
        [] ⟨htokens, by simp [Place.cursor, frame, Cursor.account]⟩
      refine ⟨hwalk.1, ?_⟩
      have hle := account_settle_le hi hwalk.2
      simpa [Label.allowed, Label.brings, Label.takes] using hle
  | drop i =>
      obtain ⟨call, done, hi, hdrop, rfl⟩ := step_drop hstep
      have hsame : done.2.tokens = s.shared.tokens := dropCall_tokens hdrop
      refine ⟨le_of_le_of_eq htokens hsame.symm, ?_⟩
      have hheld : 0 ≤ RetryBudget.scale * (call.stage.held : Int) :=
        mul_nonneg hscale (Int.natCast_nonneg _)
      have hdue : 0 ≤ b.deposit * (call.stage.due : Int) :=
        mul_nonneg hdeposit (Int.natCast_nonneg _)
      have hle : (s.settle i done).account b ≤ s.account b := by
        refine account_settle_le hi ?_
        rw [(dropCall_cases hdrop).1, dropCall_log hdrop]
        simp only [Cursor.account, Spot.held, Spot.due, Stage.held, Stage.due, frame, hsame]
        simp only [Stage.held, Stage.due] at hheld hdue
        simp [Obs.isRetry]
        linear_combination hheld + hdue
      simpa [Label.allowed, Label.brings, Label.takes] using hle
  | depositElsewhere =>
      obtain ⟨b', hb', rfl⟩ := Option.map_eq_some_iff.mp hstep
      cases hbudget.symm.trans hb'
      have hle : b.deposited s.shared.tokens ≤ s.shared.tokens + b.deposit := min_le_left _ _
      refine ⟨le_min (add_nonneg htokens hdeposit) hmax, ?_⟩
      simp only [account, retried, Label.allowed, Label.brings, Label.takes, withTokens]
      simp
      linear_combination hle
  | withdrawElsewhere =>
      simp only [step, hbudget] at hstep
      obtain ⟨tokens, hw, rfl⟩ := Option.map_eq_some_iff.mp hstep
      obtain ⟨hle, rfl⟩ := RetryBudget.tryWithdraw_spec hw
      refine ⟨Int.sub_nonneg_of_le hle, le_of_eq ?_⟩
      simp only [account, retried, Label.allowed, Label.brings, Label.takes, withTokens]
      simp
      ring

end Steps

end System

/-- A budget bounds retries by the calls that pay for them, whatever the calls do, however
they end and whichever pipeline runs them: in every run, all retries that were started,
with those of other policies on the same budget, cost no more than the first filling and
one deposit for each call. -/
theorem retries_paid_by_calls (plan : Plan T E) (boxed : Nat → Bool) (ratio : F64) (burst : Nat)
    (hbudget : plan.retry.budget = some (.new ratio burst)) (start : Nat)
    (ls : List (System.Label T E)) (s : System T E)
    (hrun : run (System.stepVia boxed plan) (System.init plan start) ls = some s) :
    1000 * (s.retried + ls.countP System.Label.takes : Int) ≤
      1000 * (max burst 1 : Nat) +
        (RetryBudget.new ratio burst).deposit * ls.countP System.Label.brings := by
  have hdeposit := RetryBudget.deposit_nonneg ratio burst
  have hmax := RetryBudget.maxTokens_nonneg ratio burst
  rw [System.stepVia_eq] at hrun
  have hfull :
      (System.init plan start).shared.tokens = (RetryBudget.new ratio burst).maxTokens := by
    simp [System.init, hbudget, RetryBudget.initialTokens]
  obtain ⟨htokens, haccount⟩ := le_add_sum (I := fun s => 0 ≤ s.shared.tokens)
    (fun s l s' hs hstep => System.account_step hbudget hdeposit hmax l hs hstep)
    (le_of_le_of_eq hmax hfull.symm) hrun
  have hheld : (0 : Int) ≤ TaskPool.total (fun c => c.stage.held) s.calls := Int.natCast_nonneg _
  have hdue : 0 ≤ (RetryBudget.new ratio burst).deposit *
      (TaskPool.total (fun c => c.stage.due) s.calls : Int) :=
    mul_nonneg hdeposit (Int.natCast_nonneg _)
  have hstart : (System.init plan start).account (.new ratio burst) =
      1000 * ((max burst 1 : Nat) : Int) := by
    rw [System.account, hfull]
    simp [System.retried, RetryBudget.new, RetryBudget.scale, System.init, TaskPool.total, mul_comm]
  rw [hstart, System.sum_allowed] at haccount
  simp only [System.account, RetryBudget.scale] at haccount
  linear_combination haccount + htokens + 1000 * hheld + hdue

theorem RetryBudget.new_zero_one : new (.fin 0) 1 = { maxTokens := 1000, deposit := 0 } := by
  decide +kernel

def oneToken : Plan Nat Nat where
  retry := { Retry.fixed 0 with budget := some { maxTokens := 1000, deposit := 0 } }
  attemptTimeout := none
  totalTimeout := none
  breaker := none
  concurrency := none
  onEvent := false
  maxAttempts_pos := Plan.threeAttempts_pos
  timeouts_ordered := Plan.untimed_ordered

/-- Two calls fail: the first may try again, the second may not. -/
def bothFail : List (System.Label Nat Nat) :=
  [.call, .poll 0 .pending, .poll 0 (.answer 1 (.error 7)), .call, .poll 1 .pending,
    .poll 1 (.answer 1 (.error 8)), .poll 0 (.answer 1 (.error 7))]

def bothFailed : System Nat Nat :=
  (run (System.step oneToken) (System.init oneToken 0) bothFail).get rfl

theorem retries_paid_by_calls_bothFail :
    bothFailed.retried = 1 ∧ (1000 * (1 + 0) : Int) ≤ 1000 * 1 + 0 * 2 := by
  have hrun : run (System.stepVia (fun _ => true) oneToken) (System.init oneToken 0) bothFail =
      some bothFailed := by
    rw [System.stepVia_eq]
    rfl
  have hbound := retries_paid_by_calls oneToken (fun _ => true) (.fin 0) 1
    (congrArg some RetryBudget.new_zero_one.symm) 0 bothFail bothFailed hrun
  rw [RetryBudget.new_zero_one] at hbound
  exact ⟨rfl, hbound⟩

end ExecutionPolicy
