import ExecutionPolicy.Engine.Hops
import ExecutionPolicy.Engine.Invocations
import ExecutionPolicy.Foundation.History

/-! # Attempt accounting

What the log of a call says about its retry loop: attempts are numbered from one, each
after the first is licensed by how the one before it ended, an outcome classified as
final is what the call returns, and the loop comes to its end.
-/

namespace ExecutionPolicy

open StepSystem History

variable {T E : Type}

/-! ## Licensed attempts -/

def Obs.number? : Obs T E → Option Nat
  | .started attempt _ => some attempt.number
  | _ => none

def numbers (log : List (Obs T E)) : List Nat := log.filterMap Obs.number?

/-- Attempt `number` ended with an outcome that is retried, before `max_elapsed` was
reached, and since then a token was withdrawn, when there is a budget. -/
def Cleared (plan : Plan T E) (start number : Nat) (log : List (Obs T E)) : Prop :=
  ∃ past outcome now since, log = past ++ .ended number outcome now :: since ∧
    outcome.retried plan = true ∧ ¬ OutOfTime plan start now ∧
    (plan.retry.budget.isSome = true → .withdrew ∈ since)

/-- No attempt so far completed with an outcome classified as final. -/
def Unsettled (plan : Plan T E) (log : List (Obs T E)) : Prop :=
  ∀ number r now, .ended number (.completed r) now ∈ log → plan.retry.decide r = .retry

/-- What has to stand in the log before an attempt may start. -/
def Licensed (plan : Plan T E) (start : Nat) (past : List (Obs T E)) : Obs T E → Prop
  | .started attempt _ =>
      attempt.number = (numbers past).length + 1 ∧ attempt.number ≤ plan.retry.maxAttempts ∧
        Unsettled plan past ∧
        (1 < attempt.number → Cleared plan start (attempt.number - 1) past)
  | _ => True

section Logs

variable {plan : Plan T E} {start number : Nat} {log os : List (Obs T E)}

@[simp] theorem numbers_append (log os : List (Obs T E)) :
    numbers (log ++ os) = numbers log ++ numbers os := List.filterMap_append

theorem numbers_of_calm (hos : ∀ o ∈ os, o.isAttempt = false) : numbers os = [] :=
  filterMap_of_calm (fun o ho => by cases o <;> simp_all [Obs.number?, Obs.isAttempt]) hos

theorem Cleared.append (h : Cleared plan start number log) (os : List (Obs T E)) :
    Cleared plan start number (log ++ os) := by
  obtain ⟨past, outcome, now, since, rfl, hretried, hin, hcharged⟩ := h
  refine ⟨past, outcome, now, since ++ os, by simp, hretried, hin, fun hb => ?_⟩
  exact List.mem_append_left os (hcharged hb)

theorem Unsettled.append (h : Unsettled plan log) (hos : ∀ o ∈ os, o.isAttempt = false) :
    Unsettled plan (log ++ os) := by
  intro number r now hmem
  rcases List.mem_append.mp hmem with hold | hnew
  · exact h number r now hold
  · cases hos _ hnew

theorem licensed_of_calm {past : List (Obs T E)} {o : Obs T E} (ho : o.isAttempt = false) :
    Licensed plan start past o := by
  cases o with
  | started attempt clock => cases ho
  | _ => trivial

end Logs

/-! ## Where the loop stands -/

/-- `k` attempts have started and none of them settled the call. -/
structure InLoop (plan : Plan T E) (k : Nat) (log : List (Obs T E)) : Prop where
  numbered : numbers log = List.range' 1 k
  unsettled : Unsettled plan log

structure Due (plan : Plan T E) (start : Nat) (d : Drive E) (log : List (Obs T E)) : Prop where
  loop : InLoop plan (d.attemptNo - 1) log
  pos : 1 ≤ d.attemptNo
  le : d.attemptNo ≤ plan.retry.maxAttempts
  cleared : 1 < d.attemptNo → Cleared plan start (d.attemptNo - 1) log

structure Busy (plan : Plan T E) (d : Drive E) (log : List (Obs T E)) : Prop where
  loop : InLoop plan d.attemptNo log
  pos : 1 ≤ d.attemptNo
  le : d.attemptNo ≤ plan.retry.maxAttempts

/-- Attempt `d.attemptNo` has ended at `now`, and the loop may go on. -/
structure Retrying (plan : Plan T E) (d : Drive E) (now : Nat) (log : List (Obs T E)) : Prop where
  loop : InLoop plan d.attemptNo log
  pos : 1 ≤ d.attemptNo
  lt : d.attemptNo < plan.retry.maxAttempts
  ended : ∃ past outcome since, log = past ++ .ended d.attemptNo outcome now :: since ∧
    outcome.retried plan = true

structure Resting (plan : Plan T E) (start : Nat) (d : Drive E) (log : List (Obs T E)) :
    Prop where
  loop : InLoop plan d.attemptNo log
  pos : 1 ≤ d.attemptNo
  lt : d.attemptNo < plan.retry.maxAttempts
  cleared : Cleared plan start d.attemptNo log

/-- The attempt has just ended with `outcome`, which is still to be looked at. -/
structure Judging (plan : Plan T E) (d : Drive E) (outcome : AttemptOutcome T E) (now : Nat)
    (log : List (Obs T E)) : Prop where
  numbered : numbers log = List.range' 1 d.attemptNo
  pos : 1 ≤ d.attemptNo
  le : d.attemptNo ≤ plan.retry.maxAttempts
  ended : ∃ past since, log = past ++ .ended d.attemptNo outcome now :: since
  last : ∀ number r now', .ended number (.completed r) now' ∈ log →
    plan.retry.decide r = .retry ∨ outcome = .completed r

/-- The call is over, or about to be, with result `r`. -/
structure Concluded (plan : Plan T E) (r : Except (ExecutionError E) T)
    (log : List (Obs T E)) : Prop where
  numbered : ∃ k, k ≤ plan.retry.maxAttempts ∧ numbers log = List.range' 1 k
  /-- An outcome classified as final is what is returned. -/
  final : ∀ number o now, .ended number (.completed o) now ∈ log →
    plan.retry.decide o = .stop → ∃ ctx, r = (AttemptOutcome.completed o).own ctx
  counted : ∀ e, r = .error e → e.context.attempts ≤ plan.retry.maxAttempts

def Applicant.Accounted (plan : Plan T E) (start : Nat) (log : List (Obs T E)) :
    Applicant E → Prop
  | .operation => InLoop plan 0 log
  | .attempt d a => Due plan start d log ∧ a.number = d.attemptNo

def Stage.Accounted (plan : Plan T E) (start : Nat) (log : List (Obs T E)) : Stage T E → Prop
  | .created | .operationsQueue _ => InLoop plan 0 log
  | .attemptsQueue d attempt _ => Due plan start d log ∧ attempt.number = d.attemptNo
  | .running d _ _ => Busy plan d log
  | .backingOff d _ => Resting plan start d log
  | .returned r => Concluded plan r log
  | .dropped => ∃ k, k ≤ plan.retry.maxAttempts ∧ InLoop plan k log

def Spot.Accounted (plan : Plan T E) (call : Call T E) (log : List (Obs T E)) :
    Spot T E → Prop
  | .suspended => call.stage.Accounted plan call.start log
  | .entering | .gating | .admitted _ => InLoop plan 0 log
  | .asking a | .waiting a _ | .granted a | .refused a => a.Accounted plan call.start log
  | .head d => Due plan call.start d log
  | .starting d attempt _ => Due plan call.start d log ∧ attempt.number = d.attemptNo
  | .ending d _ => Busy plan d log
  | .judging d outcome now => Judging plan d outcome now log
  | .retrying d now => Retrying plan d now log
  | .charging d now => Retrying plan d now log ∧ ¬ OutOfTime plan call.start now
  | .pausing d | .drawn d _ | .scheduling d _ | .scheduled d _ | .dozing d _ | .waking d =>
      Resting plan call.start d log
  | .exiting r | .leaving r => Concluded plan r log

section Appending

variable {plan : Plan T E} {start k now : Nat} {d : Drive E} {log os : List (Obs T E)}

theorem InLoop.append (h : InLoop plan k log) (hos : ∀ o ∈ os, o.isAttempt = false) :
    InLoop plan k (log ++ os) :=
  ⟨by simp [numbers_of_calm hos, h.numbered], h.unsettled.append hos⟩

theorem Due.append (h : Due plan start d log) (hos : ∀ o ∈ os, o.isAttempt = false) :
    Due plan start d (log ++ os) :=
  ⟨h.loop.append hos, h.pos, h.le, fun hlt => (h.cleared hlt).append os⟩

theorem Retrying.append (h : Retrying plan d now log) (hos : ∀ o ∈ os, o.isAttempt = false) :
    Retrying plan d now (log ++ os) := by
  obtain ⟨past, outcome, since, rfl, hretried⟩ := h.ended
  exact ⟨h.loop.append hos, h.pos, h.lt, past, outcome, since ++ os, by simp, hretried⟩

theorem Resting.append (h : Resting plan start d log) (hos : ∀ o ∈ os, o.isAttempt = false) :
    Resting plan start d (log ++ os) :=
  ⟨h.loop.append hos, h.pos, h.lt, h.cleared.append os⟩

theorem Judging.append {outcome : AttemptOutcome T E} (h : Judging plan d outcome now log)
    (hos : ∀ o ∈ os, o.isAttempt = false) : Judging plan d outcome now (log ++ os) := by
  obtain ⟨past, since, hlog⟩ := h.ended
  refine ⟨by simpa [numbers_of_calm hos] using h.numbered, h.pos, h.le,
    ⟨past, since ++ os, by simp [hlog]⟩, fun number r now' hmem => ?_⟩
  rcases List.mem_append.mp hmem with hold | hnew
  · exact h.last number r now' hold
  · cases hos _ hnew

theorem Concluded.append {r : Except (ExecutionError E) T} (h : Concluded plan r log)
    (hos : ∀ o ∈ os, o.isAttempt = false) : Concluded plan r (log ++ os) := by
  obtain ⟨k, hk, hnumbers⟩ := h.numbered
  refine ⟨⟨k, hk, by simpa [numbers_of_calm hos] using hnumbers⟩, fun number o now hmem => ?_,
    h.counted⟩
  rcases List.mem_append.mp hmem with hold | hnew
  · exact h.final number o now hold
  · cases hos _ hnew

theorem Applicant.Accounted.append {a : Applicant E} (h : a.Accounted plan start log)
    (hos : ∀ o ∈ os, o.isAttempt = false) : a.Accounted plan start (log ++ os) := by
  cases a with
  | operation => exact InLoop.append h hos
  | attempt d attempt => exact ⟨h.1.append hos, h.2⟩

theorem Stage.Accounted.append {stage : Stage T E} (h : stage.Accounted plan start log)
    (hos : ∀ o ∈ os, o.isAttempt = false) : stage.Accounted plan start (log ++ os) := by
  cases stage with
  | created | operationsQueue => exact InLoop.append h hos
  | attemptsQueue => exact ⟨h.1.append hos, h.2⟩
  | running => exact ⟨h.loop.append hos, h.pos, h.le⟩
  | backingOff => exact Resting.append h hos
  | returned => exact Concluded.append h hos
  | dropped =>
      obtain ⟨k, hk, hloop⟩ := h
      exact ⟨k, hk, hloop.append hos⟩

theorem Spot.Accounted.append {call : Call T E} {spot : Spot T E}
    (h : spot.Accounted plan call log) (hos : ∀ o ∈ os, o.isAttempt = false) :
    spot.Accounted plan call (log ++ os) := by
  cases spot with
  | suspended => exact Stage.Accounted.append h hos
  | entering | gating | admitted => exact InLoop.append h hos
  | asking | waiting | granted | refused => exact Applicant.Accounted.append h hos
  | head => exact Due.append h hos
  | starting => exact ⟨h.1.append hos, h.2⟩
  | ending => exact ⟨h.loop.append hos, h.pos, h.le⟩
  | judging => exact Judging.append h hos
  | retrying => exact Retrying.append h hos
  | charging => exact ⟨h.1.append hos, h.2⟩
  | pausing | drawn | scheduling | scheduled | dozing | waking => exact Resting.append h hos
  | exiting | leaving => exact Concluded.append h hos

end Appending

/-! ## One hop -/

section Hops

variable {plan : Plan T E} {id : Nat} {c c' : Cursor T E} {log os : List (Obs T E)}

theorem own_context {outcome : AttemptOutcome T E} {ctx : ErrorContext} {e : ExecutionError E}
    (h : outcome.own ctx = .error e) : e.context = ctx := by
  cases outcome with
  | completed r =>
      cases r with
      | ok v => cases h
      | error err =>
          cases h
          rfl
  | attemptTimeout | totalTimeout =>
      cases h
      rfl

theorem elapsedResult_context {lastError : Option E} {ctx : ErrorContext} {e : ExecutionError E}
    (h : (elapsedResult lastError ctx : Except (ExecutionError E) T) = .error e) :
    e.context = ctx := by
  cases lastError <;> cases h <;> rfl

theorem InLoop.concluded {k : Nat} (h : InLoop plan k log) (hk : k ≤ plan.retry.maxAttempts)
    {r : Except (ExecutionError E) T}
    (hr : ∀ e, r = .error e → e.context.attempts ≤ plan.retry.maxAttempts) :
    Concluded plan r log := by
  refine ⟨⟨k, hk, h.numbered⟩, fun number o now hmem hstop => ?_, hr⟩
  rw [h.unsettled number o now hmem] at hstop
  cases hstop

theorem Judging.retrying {d : Drive E} {outcome : AttemptOutcome T E} {now : Nat}
    (h : Judging plan d outcome now log) (hgo : GoesOn plan d.attemptNo outcome) :
    Retrying plan (d.seen outcome) now log := by
  obtain ⟨past, since, hlog⟩ := h.ended
  refine ⟨⟨h.numbered, fun number r now' hmem => ?_⟩, h.pos, hgo.2,
    past, outcome, since, hlog, hgo.1⟩
  rcases h.last number r now' hmem with hretry | rfl
  · exact hretry
  · simpa [AttemptOutcome.retried] using hgo.1

theorem Judging.concluded {d : Drive E} {outcome : AttemptOutcome T E} {now : Nat}
    (h : Judging plan d outcome now log) {ctx : ErrorContext} (hctx : ctx.attempts = d.attemptNo) :
    Concluded plan (outcome.own ctx) log := by
  refine ⟨⟨d.attemptNo, h.le, h.numbered⟩, fun number o now' hmem hstop => ?_, fun e he => ?_⟩
  · rcases h.last number o now' hmem with hretry | rfl
    · rw [hretry] at hstop
      cases hstop
    · exact ⟨ctx, rfl⟩
  · rw [own_context he, hctx]
    exact h.le

theorem Hop.accounted_idle (hop : Hop plan id c os c') (hidle : ∀ o ∈ os, o.isIdle = true)
    (h : c.spot.Accounted plan c.call log) : c'.spot.Accounted plan c'.call log := by
  cases hop with
  | core | work => exact h
  | begin hs => simpa [Spot.Accounted, Stage.Accounted, hs] using h
  | @repoll call a k timers hs =>
      cases a <;>
        simpa [Spot.Accounted, Stage.Accounted, Applicant.Accounted, hs, Applicant.queue] using h
  | @park call a k timers hfree => cases a <;> exact h
  | refuseOperation now | turnAway now =>
      exact InLoop.concluded h (Nat.zero_le _) (by rintro e ⟨⟩; exact Nat.zero_le _)
  | refuseAttempt now =>
      have hle := h.1.le
      exact h.1.loop.concluded (by omega) (by rintro e ⟨⟩; exact hle)
  | deposit =>
      exact ⟨h, Nat.le_refl 1, plan.maxAttempts_pos, fun hlt => absurd hlt (Nat.lt_irrefl 1)⟩
  | headFree hc => exact ⟨h, rfl⟩
  | headAsk hc => exact ⟨h, rfl⟩
  | pend timers hs => simpa [Spot.Accounted, Stage.Accounted, hs] using h
  | cease outcome hs => simpa [Spot.Accounted, Stage.Accounted, hs] using h
  | settle hstop => exact Judging.concluded h rfl
  | retry hgo => exact Judging.retrying h hgo
  | elapsed hout =>
      refine h.loop.concluded (Nat.le_of_lt h.lt) fun e he => ?_
      rw [elapsedResult_context he]
      exact Nat.le_of_lt h.lt
  | inTime hin => exact ⟨h, hin⟩
  | deny hb hw =>
      exact h.1.loop.concluded (Nat.le_of_lt h.1.lt) (by rintro e ⟨⟩; exact Nat.le_of_lt h.1.lt)
  | unbudgeted hb =>
      obtain ⟨past, outcome, since, hlog, hretried⟩ := h.1.ended
      exact ⟨h.1.loop, h.1.pos, h.1.lt, past, outcome, _, since, hlog, hretried, h.2,
        fun hsome => by simp [hb] at hsome⟩
  | draw rng => exact ⟨h.loop, h.pos, h.lt, h.cleared⟩
  | bail now | expire now =>
      exact h.loop.concluded (Nat.le_of_lt h.lt) (by rintro e ⟨⟩; exact Nat.le_of_lt h.lt)
  | rouse hs => simpa [Spot.Accounted, Stage.Accounted, hs] using h
  | again | resume =>
      have hlt := h.lt
      refine ⟨h.loop, by simp, by simp; omega, fun _ => h.cleared⟩
  | start | noteEnd | withdraw => cases hidle _ (List.mem_singleton_self _)
  | _ => exact h

/-- Before its first attempt a log is justified whatever the start of the call. -/
theorem InLoop.justified (h : InLoop plan 0 log) (start : Nat) :
    Justified (Licensed plan start) log := by
  intro past o future hlog
  cases o with
  | started attempt clock =>
      have hnumbers := h.numbered
      simp [hlog, numbers, Obs.number?] at hnumbers
  | _ => trivial

theorem Due.start {d : Drive E} {attempt : Attempt} {start clock : Nat}
    (h : Due plan start d log) (hnumber : attempt.number = d.attemptNo) :
    Licensed plan start log (.started attempt clock) ∧
      Busy plan d (log ++ [.started attempt clock]) := by
  have hpos := h.pos
  have hle := h.le
  refine ⟨⟨?_, by omega, h.loop.unsettled, fun hlt => ?_⟩, ⟨⟨?_, ?_⟩, hpos, hle⟩⟩
  · rw [h.loop.numbered, List.length_range', hnumber]
    omega
  · rw [hnumber] at hlt ⊢
    exact h.cleared hlt
  · obtain ⟨n, hn⟩ : ∃ n, d.attemptNo = n + 1 := ⟨d.attemptNo - 1, by omega⟩
    have hone : numbers [(.started attempt clock : Obs T E)] = [attempt.number] := rfl
    rw [numbers_append, h.loop.numbered, hone, hnumber, hn, List.range'_concat]
    simp [Nat.add_comm]
  · intro number r now hmem
    rcases List.mem_append.mp hmem with hold | hnew
    · exact h.loop.unsettled number r now hold
    · simp at hnew

theorem Busy.judging {d : Drive E} (h : Busy plan d log) (outcome : AttemptOutcome T E)
    (now : Nat) : Judging plan d outcome now (log ++ [.ended d.attemptNo outcome now]) := by
  refine ⟨?_, h.pos, h.le, ⟨log, [], rfl⟩, fun number r now' hmem => ?_⟩
  · have hnone : numbers [(.ended d.attemptNo outcome now : Obs T E)] = [] := rfl
    rw [numbers_append, hnone, List.append_nil]
    exact h.loop.numbered
  · rcases List.mem_append.mp hmem with hold | hnew
    · exact .inl (h.loop.unsettled number r now' hold)
    · simp only [List.mem_singleton, Obs.ended.injEq] at hnew
      exact .inr hnew.2.1.symm

theorem Hop.accounted (hop : Hop plan id c os c')
    (h : Justified (Licensed plan c.call.start) log ∧ c.spot.Accounted plan c.call log) :
    Justified (Licensed plan c'.call.start) (log ++ os) ∧
      c'.spot.Accounted plan c'.call (log ++ os) := by
  obtain ⟨hjust, hacc⟩ := h
  have hcalm : (∀ o ∈ os, o.isIdle = true) → ∀ o ∈ os, o.isAttempt = false :=
    fun hidle o ho => Obs.calm_of_idle (hidle o ho)
  have hrest := fun hidle => (hop.accounted_idle hidle hacc).append (hcalm hidle)
  have hfree : (∀ o ∈ os, o.isIdle = true) →
      Justified (Licensed plan c.call.start) (log ++ os) := fun hidle =>
    (justified_append fun past o ho => licensed_of_calm (hcalm hidle o ho)).mpr hjust
  rcases hop.idle with ⟨call, d, attempt, permit, k, rfl, rfl, rfl⟩ |
    ⟨call, d, outcome, k, rfl, rfl, rfl⟩ | ⟨call, d, now, k, tokens, rfl, rfl, rfl⟩ | hidle
  · obtain ⟨hlicensed, hbusy⟩ := Due.start hacc.1 hacc.2
    exact ⟨justified_snoc.mpr ⟨hjust, hlicensed⟩, hbusy⟩
  · exact ⟨justified_snoc.mpr ⟨hjust, trivial⟩, Busy.judging hacc _ _⟩
  · obtain ⟨hretrying, hin⟩ := hacc
    obtain ⟨past, outcome, since, rfl, hretried⟩ := hretrying.ended
    refine ⟨justified_snoc.mpr ⟨hjust, trivial⟩, ?_⟩
    refine ⟨hretrying.loop.append (by simp [Obs.isAttempt]), hretrying.pos, hretrying.lt,
      past, outcome, _, since ++ [.withdrew], by simp, hretried, hin, fun _ => by simp⟩
  · refine ⟨?_, hrest hidle⟩
    cases hop with
    | begin hs =>
        have hloop : InLoop plan 0 log := by
          simpa [Spot.Accounted, Stage.Accounted, hs] using hacc
        simpa using hloop.justified _
    | _ => exact hfree hidle

end Hops

/-! ## Coming to the end -/

def expired (now : Nat) (timer : Option Nat) : Bool := timer.any fun wake => decide (wake ≤ now)

/-- What the suspended call waits for has come: a permit, an answer of the operation or
a timer. -/
def Stage.ready (k : Shared) (op : Option (Except E T)) : Stage T E → Bool
  | .created => true
  | .operationsQueue timers | .attemptsQueue _ _ timers =>
      decide (0 < k.sem.permits) || expired k.core.time timers.queue ||
        expired k.core.time timers.deadline
  | .running _ _ timers =>
      op.isSome || timers.any fun t => expired k.core.time t.attempt || expired k.core.time t.total
  | .backingOff _ wake => decide (wake ≤ k.core.time)
  | .returned _ | .dropped => false

/-- The poll of a call that need not wait any longer. -/
def System.ready (i : Nat) (s : System T E) : System.Label T E → Bool
  | .poll j script =>
      decide (j = i) && (s.calls[i]?.any fun call => call.stage.ready s.shared script.op)
  | _ => false

/-- An attempt leaves three things to wait for: its permit, itself, and its delay. -/
def Plan.attemptsLeft (plan : Plan T E) (d : Drive E) : Nat :=
  3 * (plan.retry.maxAttempts - d.attemptNo)

def Applicant.rank (plan : Plan T E) : Applicant E → Nat
  | .operation => 3 * plan.retry.maxAttempts + 1
  | .attempt d _ => plan.attemptsLeft d + 3

/-- How many things the call can still come to wait for. -/
def Stage.rank (plan : Plan T E) : Stage T E → Nat
  | .created => 3 * plan.retry.maxAttempts + 2
  | .operationsQueue _ => 3 * plan.retry.maxAttempts + 1
  | .attemptsQueue d _ _ => plan.attemptsLeft d + 3
  | .running d _ _ => plan.attemptsLeft d + 2
  | .backingOff d _ => plan.attemptsLeft d + 1
  | .returned _ | .dropped => 0

def Spot.rank (plan : Plan T E) (call : Call T E) : Spot T E → Nat
  | .suspended => call.stage.rank plan
  | .entering => 3 * plan.retry.maxAttempts + 1
  | .asking a | .waiting a _ | .granted a | .refused a => a.rank plan
  | .gating | .admitted _ => 3 * plan.retry.maxAttempts
  | .head d => plan.attemptsLeft d + 3
  | .starting d _ _ => plan.attemptsLeft d + 2
  | .ending d _ | .judging d _ _ | .retrying d _ | .charging d _ | .pausing d | .drawn d _
  | .scheduling d _ | .scheduled d _ | .dozing d _ => plan.attemptsLeft d + 1
  | .waking d => plan.attemptsLeft d
  | .exiting _ | .leaving _ => 0

section Progress

variable {plan : Plan T E} {id : Nat} {c c' : Cursor T E} {log os : List (Obs T E)}

theorem Hop.rank_le (hop : Hop plan id c os c') (h : c.spot.Accounted plan c.call log) :
    c'.spot.rank plan c'.call ≤ c.spot.rank plan c.call := by
  cases hop with
  | core | work => exact Nat.le_refl _
  | begin hs => simp [Spot.rank, Stage.rank, hs]
  | @repoll call a k timers hs =>
      cases a <;> simp [Spot.rank, Stage.rank, Applicant.rank, hs, Applicant.queue]
  | @park call a k timers hfree => cases a <;> exact Nat.le_refl _
  | deposit =>
      have hpos := plan.maxAttempts_pos
      simp only [Spot.rank, Plan.attemptsLeft, Drive.first]
      omega
  | pend timers hs => simp [Spot.rank, Stage.rank, hs]
  | cease outcome hs => simp [Spot.rank, Stage.rank, hs]
  | rouse hs => simp [Spot.rank, Stage.rank, hs]
  | again | resume =>
      have hlt := h.lt
      simp only [Spot.rank, Plan.attemptsLeft]
      omega
  | _ => simp [Spot.rank, Stage.rank, Applicant.rank, Plan.attemptsLeft, Drive.seen]

theorem Reaches.rank_le {p : Place T E} {done : Call T E × Frame T E}
    (h : Reaches plan id p done) {past : List (Obs T E)}
    (hjust : Justified (Licensed plan p.call.start) (past ++ p.frame.log))
    (hacc : p.spot.Accounted plan p.call (past ++ p.frame.log)) :
    done.1.stage.rank plan ≤ p.spot.rank plan p.call := by
  have hwalk := h.keeps (Q := fun c log =>
    (Justified (Licensed plan c.call.start) log ∧ c.spot.Accounted plan c.call log) ∧
      c.spot.rank plan c.call ≤ p.spot.rank plan p.call)
    (fun c os c' log hop hc => ⟨hop.accounted hc.1, Nat.le_trans (hop.rank_le hc.1.2) hc.2⟩)
    past ⟨⟨hjust, hacc⟩, Nat.le_refl _⟩
  exact hwalk.2

theorem pollTimer_of_expired {k : Core} {timer : Option Nat} (h : expired k.time timer = true) :
    (k.pollTimer timer).1 = true := by
  cases timer with
  | none => cases h
  | some wake =>
      have hwake : wake ≤ k.time := by simpa [expired] using h
      exact decide_eq_true (Nat.le_trans hwake k.time_le_tick)

theorem expired_mono {now later : Nat} (hle : now ≤ later) {timer : Option Nat}
    (h : expired now timer = true) : expired later timer = true := by
  cases timer with
  | none => cases h
  | some wake =>
      have hwake : wake ≤ now := by simpa [expired] using h
      exact decide_eq_true (Nat.le_trans hwake hle)

theorem any_expired_mono {now later : Nat} (hle : now ≤ later) {timers : Option AttemptTimers}
    (h : (timers.any fun t => expired now t.attempt || expired now t.total) = true) :
    (timers.any fun t => expired later t.attempt || expired later t.total) = true := by
  cases timers with
  | none => cases h
  | some t =>
      rcases Bool.or_eq_true_iff.mp h with hattempt | htotal
      · exact Bool.or_eq_true_iff.mpr (.inl (expired_mono hle hattempt))
      · exact Bool.or_eq_true_iff.mpr (.inr (expired_mono hle htotal))

theorem pollPermit_log (id : Nat) (timers : QueueTimers) (f : Frame T E) :
    (pollPermit id timers f).2.log = f.log := by
  unfold pollPermit
  split
  · rfl
  · dsimp only
    split <;> rfl

theorem pollPermit_of_ready (id : Nat) {timers : QueueTimers} {f : Frame T E}
    (h : (decide (0 < f.sem.permits) || expired f.core.time timers.queue ||
      expired f.core.time timers.deadline) = true) :
    (pollPermit id timers f).1 = .granted ∨ (pollPermit id timers f).1 = .rejected := by
  unfold pollPermit SemState.pollAcquire
  by_cases hfree : 0 < f.sem.permits
  · rw [if_pos hfree]
    exact .inl rfl
  · rw [if_neg hfree]
    dsimp only
    right
    split
    · rfl
    next hqueue =>
      have hdeadline : expired f.core.time timers.deadline = true := by
        rcases Bool.or_eq_true_iff.mp h with hleft | hright
        · rcases Bool.or_eq_true_iff.mp hleft with hpermit | hexpired
          · exact absurd (of_decide_eq_true hpermit) hfree
          · exact absurd (pollTimer_of_expired hexpired) hqueue
        · exact hright
      have hlater := expired_mono (f.core.time_le_pollTimer timers.queue) hdeadline
      rw [if_pos (pollTimer_of_expired hlater)]

section Stretches

variable {f : Frame T E} {done : Call T E × Frame T E}

theorem rank_gateAndDrive (call : Call T E) (hacc : InLoop plan 0 (log ++ f.log)) :
    (gateAndDrive plan id call f).1.stage.rank plan ≤ 3 * plan.retry.maxAttempts :=
  (reaches_gateAndDrive f).rank_le (hacc.justified _) hacc

theorem rank_asking (call : Call T E) {limit : ConcurrencyLimit}
    (hc : plan.concurrency = some limit) (hacc : InLoop plan 0 (log ++ f.log)) :
    (onOperationPermit plan id call (acquirePermit limit call.totalDeadline id f)).1.stage.rank
      plan ≤ 3 * plan.retry.maxAttempts + 1 :=
  have hwalk : Reaches plan id ⟨call, .asking .operation, f⟩ _ :=
    (walk_acquirePermit hc .operation f).trans (reaches_onOperationPermit _)
  hwalk.rank_le (hacc.justified _) hacc

theorem rank_runPipeline (call : Call T E) (hacc : InLoop plan 0 (log ++ f.log)) :
    (runPipeline plan id call f).1.stage.rank plan ≤ 3 * plan.retry.maxAttempts + 1 := by
  unfold runPipeline
  dsimp only
  split
  next limit hc =>
    split
    · exact rank_asking { call with
        start := f.read.core.time
        totalDeadline := plan.totalTimeout.map fun t => f.read.core.time + t } (f := f.read) hc hacc
    · exact Nat.le_succ_of_le (rank_gateAndDrive (f := f.read) _ hacc)
  · exact Nat.le_succ_of_le (rank_gateAndDrive (f := f.read) _ hacc)

variable {call : Call T E}

theorem rank_afterAttempt {d : Drive E} {permit : Bool} {outcome : AttemptOutcome T E}
    (hjust : Justified (Licensed plan call.start) (log ++ f.log))
    (hacc : Busy plan d (log ++ f.log)) :
    (afterAttempt plan id call d permit outcome f).1.stage.rank plan ≤
      plan.attemptsLeft d + 1 := by
  unfold afterAttempt
  dsimp only
  have hlog : ∀ now, log ++ ((if permit then { f with sem := f.sem.release.2 } else f).read.note
      (.ended d.attemptNo outcome now)).log =
        (log ++ f.log) ++ [.ended d.attemptNo outcome now] := by
    intro now
    cases permit <;> simp [Frame.read]
  have hjudging : ∀ now, Judging plan d outcome now ((log ++ f.log) ++
      [.ended d.attemptNo outcome now]) := fun now => hacc.judging outcome now
  simp only [← hlog] at hjudging
  refine (reaches_afterNoted d outcome _ _).rank_le ?_ (hjudging _)
  rw [hlog]
  exact justified_snoc.mpr ⟨hjust, trivial⟩

theorem rank_pollTimers {d : Drive E} {permit : Bool} {timers : AttemptTimers}
    (hjust : Justified (Licensed plan call.start) (log ++ f.log))
    (hacc : Busy plan d (log ++ f.log))
    (h : (expired f.core.time timers.attempt || expired f.core.time timers.total) = true) :
    (pollTimers plan id call d permit timers f).1.stage.rank plan ≤ plan.attemptsLeft d + 1 := by
  unfold pollTimers
  dsimp only
  split
  · exact rank_afterAttempt hjust hacc
  next hattempt =>
    have htotal : expired f.core.time timers.total = true := by
      rcases Bool.or_eq_true_iff.mp h with hexpired | hexpired
      · exact absurd (pollTimer_of_expired hexpired) hattempt
      · exact hexpired
    have hlater := expired_mono (f.core.time_le_pollTimer timers.attempt) htotal
    rw [if_pos (pollTimer_of_expired hlater)]
    exact rank_afterAttempt hjust hacc

theorem rank_pollAttempt {d : Drive E} {permit : Bool} {timers : Option AttemptTimers}
    {op : Option (Except E T)}
    (hjust : Justified (Licensed plan call.start) (log ++ f.log))
    (hacc : Busy plan d (log ++ f.log))
    (h : (op.isSome || timers.any fun t =>
      expired f.core.time t.attempt || expired f.core.time t.total) = true) :
    (pollAttempt plan id call d permit timers op f).1.stage.rank plan ≤
      plan.attemptsLeft d + 1 := by
  cases op with
  | some r => exact rank_afterAttempt hjust hacc
  | none =>
      cases timers with
      | none => cases h
      | some t => exact rank_pollTimers hjust hacc h

theorem rank_pollBackoff {d : Drive E} {wake : Nat}
    (hjust : Justified (Licensed plan call.start) (log ++ f.log))
    (hacc : Resting plan call.start d (log ++ f.log)) (h : wake ≤ f.core.time) :
    (pollBackoff plan id call d wake f).1.stage.rank plan ≤ plan.attemptsLeft d := by
  unfold pollBackoff
  dsimp only
  have hread : wake ≤ f.read.core.time := Nat.le_trans h f.core.time_le_tick
  rw [if_pos hread]
  exact (reaches_afterBackoff d f.read).rank_le hjust hacc

theorem rank_pollCall_lt {script : Script T E}
    (hjust : Justified (Licensed plan call.start) (log ++ f.log))
    (hacc : call.stage.Accounted plan call.start (log ++ f.log))
    (hready : call.stage.ready f.toShared script.op = true)
    (hpoll : pollCall plan id call script f = some done) :
    done.1.stage.rank plan < call.stage.rank plan := by
  unfold pollCall at hpoll
  cases hstage : call.stage with
  | created =>
      simp only [hstage, Option.some.injEq] at hpoll hacc
      rw [← hpoll]
      exact Nat.lt_succ_of_le (rank_runPipeline call hacc)
  | operationsQueue timers =>
      simp only [hstage, Option.some.injEq] at hpoll hacc hready
      rw [← hpoll]
      have hlog := pollPermit_log id timers f
      rcases pollPermit_of_ready id hready with hanswer | hanswer
      all_goals
        rcases hp : pollPermit id timers f with ⟨answer, g⟩
        rw [hp] at hlog hanswer
        cases hanswer
      · have hacc' : InLoop plan 0 (log ++ g.log) := by rwa [hlog]
        exact Nat.lt_succ_of_le (rank_gateAndDrive { call with opPermit := true } hacc')
      · exact Nat.succ_pos _
  | attemptsQueue d attempt timers =>
      simp only [hstage, Option.some.injEq] at hpoll hready
      rw [← hpoll]
      rcases pollPermit_of_ready id hready with hanswer | hanswer
      all_goals
        rcases hp : pollPermit id timers f with ⟨answer, g⟩
        rw [hp] at hanswer
        cases hanswer
      · exact Nat.lt_succ_self _
      · exact Nat.succ_pos _
  | running d permit timers =>
      simp only [hstage, Option.some.injEq] at hpoll hacc hready
      rw [← hpoll]
      have hlater : f.core.time ≤ (f.core.elapse script.opElapsed).time := Nat.le_add_right _ _
      refine Nat.lt_succ_of_le (rank_pollAttempt hjust hacc ?_)
      rcases Bool.or_eq_true_iff.mp hready with hop | htimers
      · rw [hop, Bool.true_or]
      · rw [Bool.or_eq_true_iff]
        exact .inr (any_expired_mono hlater htimers)
  | backingOff d wake =>
      simp only [hstage, Option.some.injEq] at hpoll hacc hready
      rw [← hpoll]
      exact Nat.lt_succ_of_le (rank_pollBackoff hjust hacc (of_decide_eq_true hready))
  | returned r => simp [hstage] at hpoll
  | dropped => simp [hstage] at hpoll

theorem rank_pollCall {script : Script T E}
    (hjust : Justified (Licensed plan call.start) (log ++ f.log))
    (hacc : call.stage.Accounted plan call.start (log ++ f.log))
    (hpoll : pollCall plan id call script f = some done) :
    (if call.stage.ready f.toShared script.op then 1 else 0) + done.1.stage.rank plan ≤
      call.stage.rank plan := by
  have hback : done.1.stage.rank plan ≤ call.stage.rank plan :=
    (reaches_pollCall hpoll).rank_le hjust hacc
  by_cases hready : call.stage.ready f.toShared script.op = true
  · rw [if_pos hready]
    have hlt := rank_pollCall_lt hjust hacc hready hpoll
    omega
  · rw [if_neg hready]
    omega

end Stretches

end Progress

/-! ## Over whole runs -/

theorem Stage.Accounted.inLoop {plan : Plan T E} {start : Nat} {log : List (Obs T E)}
    {stage : Stage T E} (h : stage.Accounted plan start log)
    (hopen : ∀ r, stage ≠ .returned r) : ∃ k, k ≤ plan.retry.maxAttempts ∧ InLoop plan k log := by
  cases stage with
  | created | operationsQueue => exact ⟨0, Nat.zero_le _, h⟩
  | attemptsQueue d =>
      have hle := h.1.le
      exact ⟨d.attemptNo - 1, by omega, h.1.loop⟩
  | running d =>
      obtain ⟨hloop, _, hle⟩ := h
      exact ⟨d.attemptNo, hle, hloop⟩
  | backingOff d =>
      obtain ⟨hloop, _, hlt, _⟩ := h
      exact ⟨d.attemptNo, Nat.le_of_lt hlt, hloop⟩
  | returned r => exact absurd rfl (hopen r)
  | dropped => exact h

theorem Stage.Accounted.numbered {plan : Plan T E} {start : Nat} {log : List (Obs T E)}
    {stage : Stage T E} (h : stage.Accounted plan start log) :
    ∃ k, k ≤ plan.retry.maxAttempts ∧ numbers log = List.range' 1 k := by
  by_cases hopen : ∀ r, stage ≠ .returned r
  · obtain ⟨k, hk, hloop⟩ := h.inLoop hopen
    exact ⟨k, hk, hloop.numbered⟩
  · push Not at hopen
    obtain ⟨r, rfl⟩ := hopen
    exact Concluded.numbered h

theorem Stage.Accounted.final {plan : Plan T E} {start : Nat} {log : List (Obs T E)}
    {stage : Stage T E} (h : stage.Accounted plan start log) {number now : Nat} {r : Except E T}
    (hmem : .ended number (.completed r) now ∈ log) (hstop : plan.retry.decide r = .stop) :
    ∃ ctx, stage = .returned ((AttemptOutcome.completed r).own ctx) := by
  by_cases hopen : ∀ r, stage ≠ .returned r
  · obtain ⟨k, hk, hloop⟩ := h.inLoop hopen
    rw [hloop.unsettled number r now hmem] at hstop
    cases hstop
  · push Not at hopen
    obtain ⟨result, rfl⟩ := hopen
    obtain ⟨ctx, hctx⟩ := Concluded.final h number r now hmem hstop
    exact ⟨ctx, by rw [hctx]⟩

/-- The values of the attempt counter that the stage keeps or reports. -/
def Stage.counters : Stage T E → List Nat
  | .created | .operationsQueue _ | .dropped => []
  | .attemptsQueue d attempt _ => [d.attemptNo, attempt.number]
  | .running d _ _ => [d.attemptNo]
  | .backingOff d _ => [d.attemptNo]
  | .returned (.ok _) => []
  | .returned (.error e) => [e.context.attempts]

theorem Stage.Accounted.counters {plan : Plan T E} {start : Nat} {log : List (Obs T E)}
    {stage : Stage T E} (h : stage.Accounted plan start log) :
    ∀ n ∈ stage.counters, n ≤ plan.retry.maxAttempts := by
  cases stage with
  | created | operationsQueue | dropped => simp [Stage.counters]
  | attemptsQueue d attempt =>
      have hle := h.1.le
      simpa [Stage.counters, h.2] using hle
  | running d =>
      obtain ⟨_, _, hle⟩ := h
      simpa [Stage.counters] using hle
  | backingOff d =>
      obtain ⟨_, _, hlt, _⟩ := h
      simpa [Stage.counters] using Nat.le_of_lt hlt
  | returned r =>
      cases r with
      | ok v => simp [Stage.counters]
      | error e => simpa [Stage.counters] using h.counted e rfl

namespace System

variable {plan : Plan T E}

def Accounted (plan : Plan T E) (s : System T E) : Prop :=
  s.EachCall fun call log =>
    Justified (Licensed plan call.start) log ∧ call.stage.Accounted plan call.start log

theorem accounted_step (plan : Plan T E) (s : System T E) (l : Label T E) (s' : System T E)
    (h : s.Accounted plan) (hstep : step plan s l = some s') : s'.Accounted plan := by
  refine eachCall_step_of_hops (Q := fun call spot log =>
    Justified (Licensed plan call.start) log ∧ spot.Accounted plan call log) ?_ ?_ ?_ s l s' h hstep
  · have hloop : InLoop plan 0 ([.arrived] : List (Obs T E)) :=
      ⟨rfl, fun number r now hmem => by simp at hmem⟩
    exact ⟨hloop.justified _, hloop⟩
  · exact fun id c os c' log hop hc => hop.accounted hc
  · intro call log hover ⟨hjust, hacc⟩
    have hopen : ∀ r, call.stage ≠ .returned r := by
      intro r hr
      simp [hr, Stage.isOver] at hover
    obtain ⟨k, hk, hloop⟩ := Stage.Accounted.inLoop hacc hopen
    have hcalm : ∀ o ∈ [(.unrecorded : Obs T E)], o.isAttempt = false := by simp [Obs.isAttempt]
    exact ⟨justified_snoc.mpr ⟨hjust, trivial⟩, k, hk, hloop.append hcalm⟩

def rankOf (plan : Plan T E) (s : System T E) (i : Nat) : Nat :=
  (s.calls[i]?.map fun call => call.stage.rank plan).getD (3 * plan.retry.maxAttempts + 2)

theorem rankOf_eq {s : System T E} {i : Nat} {call : Call T E} (hi : s.calls[i]? = some call) :
    s.rankOf plan i = call.stage.rank plan := by
  simp [rankOf, hi]

theorem Accounted.rank_le {s : System T E} (h : s.Accounted plan) (i : Nat) :
    s.rankOf plan i ≤ 3 * plan.retry.maxAttempts + 2 := by
  cases hi : s.calls[i]? with
  | none => simp [rankOf, hi]
  | some call =>
      rw [rankOf_eq hi]
      have hacc := (h.2 i call hi).2
      unfold Stage.rank Plan.attemptsLeft
      cases hstage : call.stage with
      | attemptsQueue d attempt timers =>
          rw [hstage] at hacc
          obtain ⟨⟨_, hpos, _⟩, _⟩ := hacc
          simp only
          omega
      | _ => simp only; omega

theorem ready_frame (s : System T E) (ticks : List Nat) (draws : List UInt64)
    (op : Option (Except E T)) (stage : Stage T E) :
    stage.ready (s.frame ticks draws).toShared op = stage.ready s.shared op := by
  cases stage <;> rfl

/-- A ready poll of call `i` lowers its rank, and no step raises it. -/
theorem rank_step (i : Nat) (s : System T E) (l : Label T E) (s' : System T E)
    (h : s.Accounted plan) (hstep : step plan s l = some s') :
    (if s.ready i l then 1 else 0) + s'.rankOf plan i ≤ s.rankOf plan i := by
  by_cases hl : l.names = some i
  · cases l with
    | poll j script =>
        cases hl
        obtain ⟨call, done, hi, hpoll, rfl⟩ := step_poll hstep
        obtain ⟨hjust, hacc⟩ := h.2 i call hi
        have hlog : s.logOf i ++ (s.frame script.ticks script.draws).log = s.logOf i :=
          List.append_nil _
        rw [← hlog] at hjust hacc
        have hrank := rank_pollCall hjust hacc hpoll
        rw [ready_frame] at hrank
        have hset : (s.settle i done).calls[i]? = some done.1 :=
          List.getElem?_set_self (List.getElem?_eq_some_iff.mp hi).1
        simpa [rankOf_eq hi, rankOf_eq hset, ready, hi] using hrank
    | drop j =>
        cases hl
        obtain ⟨call, done, hi, hdrop, rfl⟩ := step_drop hstep
        have hset : (s.settle i done).calls[i]? = some done.1 :=
          List.getElem?_set_self (List.getElem?_eq_some_iff.mp hi).1
        rw [rankOf_eq hset, (dropCall_cases hdrop).1]
        exact Nat.zero_le _
    | _ => cases hl
  · have hidle : s.ready i l = false := by
      cases l with
      | poll j script =>
          have hji : j ≠ i := fun heq => hl (congrArg some heq)
          simp [ready, hji]
      | _ => rfl
    rw [hidle]
    simp only [Bool.false_eq_true, if_false, Nat.zero_add]
    cases hi : s.calls[i]? with
    | some call => rw [rankOf_eq hi, rankOf_eq (step_unnamed hstep hl hi).1]
    | none =>
        have hnew := (accounted_step plan s l s' h hstep).rank_le i
        simpa [rankOf, hi] using hnew

end System

/-- The retry loop of every call, in every state of every run: its attempts are numbered
from one and stay within the cap, as does its counter; each is licensed; an outcome
classified as final is returned; and the loop waits for at most three things an attempt,
so a call whose waits all end comes to its end. -/
theorem attempts_accounted (plan : Plan T E) (start : Nat) (ls : List (System.Label T E))
    (s : System T E) (hrun : run (System.step plan) (System.init plan start) ls = some s)
    (i : Nat) (call : Call T E) (hi : s.calls[i]? = some call) :
    (∃ k, k ≤ plan.retry.maxAttempts ∧ numbers (s.logOf i) = List.range' 1 k) ∧
      (∀ n ∈ call.stage.counters, n ≤ plan.retry.maxAttempts ∧ n < 2 ^ 32) ∧
      Justified (Licensed plan call.start) (s.logOf i) ∧
      (∀ number r now, Obs.ended number (.completed r) now ∈ s.logOf i →
        plan.retry.decide r = .stop →
          ∃ ctx, call.stage = .returned ((AttemptOutcome.completed r).own ctx)) ∧
      (call.stage.isOver = false →
        ∀ script, ∃ s', System.step plan s (.poll i script) = some s') ∧
      ∀ more, tally (System.step plan) (fun s l _ => s.ready i l) s more ≤
        3 * plan.retry.maxAttempts + 2 := by
  have h : s.Accounted plan :=
    invariant_of_step (System.accounted_step plan) (System.eachCall_init plan start _) hrun
  obtain ⟨hjust, hacc⟩ := h.2 i call hi
  refine ⟨hacc.numbered, fun n hn => ?_, hjust, fun number r now => hacc.final,
    fun hover script => ?_, fun more => ?_⟩
  · have hle := hacc.counters n hn
    exact ⟨hle, Nat.lt_of_le_of_lt hle plan.retry.maxAttempts_u32⟩
  · obtain ⟨done, hdone⟩ := pollCall_of_not_isOver plan i script
      (s.frame script.ticks script.draws) hover
    exact ⟨s.settle i done, by simp [System.step, hi, hdone]⟩
  · exact Nat.le_trans (tally_le (System.accounted_step plan) (System.rank_step i) h more)
      (h.rank_le i)

/-- Three attempts 5 ns apart, up to 100 ns in all, and a single token for a retry. -/
def oneRetry : Plan Nat Nat where
  retry :=
    { Retry.fixed 5 with
      maxElapsed := some 100, budget := some { maxTokens := 1000, deposit := 0 } }
  attemptTimeout := none
  totalTimeout := none
  breaker := none
  concurrency := none
  onEvent := false
  maxAttempts_pos := Plan.threeAttempts_pos
  timeouts_ordered := Plan.untimed_ordered

def failsOnce : List (System.Label Nat Nat) :=
  [.call, .poll 0 .pending, .poll 0 (.answer 1 (.error 7)), .elapse 5, .poll 0 .pending,
    .poll 0 (.answer 1 (.ok 8))]

def retriedOnce : System Nat Nat :=
  (run (System.step oneRetry) (System.init oneRetry 0) failsOnce).get rfl

theorem attempts_accounted_failsOnce :
    numbers (retriedOnce.logOf 0) = [1, 2] ∧
      Justified (Licensed oneRetry 0) (retriedOnce.logOf 0) ∧
      Obs.ended 2 (.completed (.ok 8)) 7 ∈ retriedOnce.logOf 0 ∧
      ∀ more, tally (System.step oneRetry) (fun s l _ => s.ready 0 l) retriedOnce more ≤ 11 := by
  obtain ⟨_, _, hjust, _, _, htally⟩ :=
    attempts_accounted oneRetry 0 failsOnce retriedOnce rfl 0 _ rfl
  exact ⟨rfl, hjust, List.mem_of_getElem? (i := 5) rfl, htally⟩

end ExecutionPolicy
