import ExecutionPolicy.Engine.Attempts
import ExecutionPolicy.Engine.RetryAfter

/-! # What a retry costs

A token is taken before the hint, the delay, the deadline and the next permit are looked
at, and never given back. The account of a call is even as long as none of these ends it.
-/

namespace ExecutionPolicy

open Relation StepSystem

variable {T E : Type}

/-! ## The account of a call -/

def Obs.isWithdrawal : Obs T E → Bool
  | .withdrew => true
  | _ => false

def withdrawals (log : List (Obs T E)) : Nat := log.countP Obs.isWithdrawal

/-- `started` attempts have started and `taken` tokens been taken. -/
def Spent (started taken : Nat) (log : List (Obs T E)) : Prop :=
  (numbers log).length = started ∧ withdrawals log = taken

/-- A token was taken for each attempt after the first and for nothing else. -/
def Balanced (log : List (Obs T E)) : Prop := withdrawals log = (numbers log).length - 1

/-- A token was taken for one attempt more than have started. -/
def Overdrawn (log : List (Obs T E)) : Prop :=
  1 ≤ withdrawals log ∧ withdrawals log = (numbers log).length

/-- Attempt `d.attemptNo` comes next and is paid for. -/
def Prepaid (d : Drive E) (log : List (Obs T E)) : Prop :=
  1 ≤ d.attemptNo ∧ Spent (d.attemptNo - 1) (d.attemptNo - 1) log

/-- Attempt `d.attemptNo` is under way or over and no other is paid for. -/
def Consumed (d : Drive E) (log : List (Obs T E)) : Prop :=
  1 ≤ d.attemptNo ∧ Spent d.attemptNo (d.attemptNo - 1) log

/-- Attempt `d.attemptNo` is over and the next is paid for. -/
def Paid (d : Drive E) (log : List (Obs T E)) : Prop :=
  1 ≤ d.attemptNo ∧ Spent d.attemptNo d.attemptNo log

def Applicant.Charged (log : List (Obs T E)) : Applicant E → Prop
  | .operation => Spent 0 0 log
  | .attempt d _ => Prepaid d log

def Stage.Charged (log : List (Obs T E)) : Stage T E → Prop
  | .created | .operationsQueue _ => Spent 0 0 log
  | .attemptsQueue d _ _ => Prepaid d log
  | .running d _ _ => Consumed d log
  | .backingOff d _ => Paid d log
  | .returned _ | .dropped => Balanced log

def Spot.Charged (call : Call T E) (log : List (Obs T E)) : Spot T E → Prop
  | .suspended => call.stage.Charged log
  | .entering | .gating | .admitted _ => Spent 0 0 log
  | .asking a | .waiting a _ | .granted a | .refused a => a.Charged log
  | .head d | .starting d _ _ => Prepaid d log
  | .ending d _ | .judging d _ _ | .retrying d _ | .charging d _ => Consumed d log
  | .pausing d | .drawn d _ | .scheduling d _ | .scheduled d _ | .dozing d _ | .waking d =>
      Paid d log
  | .exiting _ | .leaving _ => Balanced log

/-- The call is over, or about to be, and has taken a token too many. -/
def Wasted (call : Call T E) (spot : Spot T E) (log : List (Obs T E)) : Prop :=
  Overdrawn log ∧ match spot with
    | .exiting _ | .leaving _ => True
    | .suspended => call.stage.isOver = true
    | _ => False

/-! ## Where a token is lost -/

/-- The loop ends here with a token taken for an attempt that does not start: its permit is
refused, its hint asks for more than the deadline leaves, or the delay before it ends at the
deadline or later. -/
def Forfeits (plan : Plan T E) (c : Cursor T E) : Prop :=
  match c.spot with
  | .refused (.attempt d _) => 2 ≤ d.attemptNo
  | .drawn d _ => ∃ h, d.lastError.bind plan.retry.retryAfterHint = some h ∧
      Overshoots c.call.totalDeadline c.shared.core.time h
  | .waking _ => Reached c.call.totalDeadline c.shared.core.time
  | _ => False

/-- The code does not go on from a place where a token is lost. -/
def Thrifty (plan : Plan T E) (c c' : Cursor T E) : Prop :=
  Forfeits plan c → c'.spot = c.spot

/-- No token was taken for an attempt still to start. -/
def Stage.isSquare : Stage T E → Prop
  | .attemptsQueue d _ _ => d.attemptNo = 1
  | .backingOff _ _ => False
  | _ => True

section Logs

variable {n w : Nat} {d : Drive E} {log os : List (Obs T E)}

theorem withdrawals_idle (hos : ∀ o ∈ os, o.isIdle = true) :
    withdrawals (log ++ os) = withdrawals log := by
  have hnone : withdrawals os = 0 := by
    refine List.countP_eq_zero.mpr fun o ho => ?_
    have hidle := hos o ho
    cases o <;> simp_all [Obs.isIdle, Obs.isWithdrawal]
  rw [withdrawals, List.countP_append]
  simpa [withdrawals] using hnone

theorem numbers_idle (hos : ∀ o ∈ os, o.isIdle = true) : numbers (log ++ os) = numbers log := by
  rw [numbers_append, numbers_of_calm fun o ho => Obs.calm_of_idle (hos o ho), List.append_nil]

theorem spent_idle (hos : ∀ o ∈ os, o.isIdle = true) :
    Spent n w (log ++ os) ↔ Spent n w log := by
  rw [Spent, Spent, withdrawals_idle hos, numbers_idle hos]

theorem balanced_idle (hos : ∀ o ∈ os, o.isIdle = true) : Balanced (log ++ os) ↔ Balanced log := by
  rw [Balanced, Balanced, withdrawals_idle hos, numbers_idle hos]

theorem overdrawn_idle (hos : ∀ o ∈ os, o.isIdle = true) :
    Overdrawn (log ++ os) ↔ Overdrawn log := by
  rw [Overdrawn, Overdrawn, withdrawals_idle hos, numbers_idle hos]

theorem Overdrawn.not_balanced (h : Overdrawn log) : ¬ Balanced log := by
  intro hbalanced
  have hbalanced' : withdrawals log = (numbers log).length - 1 := hbalanced
  have hpos := h.1
  have heq := h.2
  omega

theorem Spent.balanced (h : Spent n w log) (hw : w = n - 1) : Balanced log := by
  rw [Balanced, h.1, h.2, hw]

theorem Applicant.Charged.idle {a : Applicant E} (h : a.Charged log)
    (hos : ∀ o ∈ os, o.isIdle = true) : a.Charged (log ++ os) := by
  cases a with
  | operation => exact (spent_idle hos).mpr h
  | attempt d attempt => exact ⟨h.1, (spent_idle hos).mpr h.2⟩

theorem Stage.Charged.idle {stage : Stage T E} (h : stage.Charged log)
    (hos : ∀ o ∈ os, o.isIdle = true) : stage.Charged (log ++ os) := by
  cases stage with
  | created | operationsQueue => exact (spent_idle hos).mpr h
  | attemptsQueue | running | backingOff => exact ⟨h.1, (spent_idle hos).mpr h.2⟩
  | returned | dropped => exact (balanced_idle hos).mpr h

theorem Spot.Charged.idle {call : Call T E} {spot : Spot T E} (h : spot.Charged call log)
    (hos : ∀ o ∈ os, o.isIdle = true) : spot.Charged call (log ++ os) := by
  cases spot with
  | suspended => exact Stage.Charged.idle h hos
  | entering | gating | admitted => exact (spent_idle hos).mpr h
  | asking | waiting | granted | refused => exact Applicant.Charged.idle h hos
  | exiting | leaving => exact (balanced_idle hos).mpr h
  | _ => exact ⟨h.1, (spent_idle hos).mpr h.2⟩

end Logs

/-! ## One hop -/

section Hops

variable {plan : Plan T E} {id : Nat} {c c' : Cursor T E} {log os : List (Obs T E)}

theorem Hop.charged_idle (hbudget : plan.retry.budget.isSome = true) (hop : Hop plan id c os c')
    (hidle : ∀ o ∈ os, o.isIdle = true) (hok : Thrifty plan c c') (h : c.spot.Charged c.call log) :
    c'.spot.Charged c'.call log := by
  cases hop with
  | begin hs => simpa [Spot.Charged, Stage.Charged, hs] using h
  | @repoll call a k timers hs =>
      cases a <;>
        simpa [Spot.Charged, Stage.Charged, Applicant.Charged, hs, Applicant.queue] using h
  | @park call a k timers hfree => cases a <;> exact h
  | refuseOperation now | turnAway now => exact Spent.balanced h rfl
  | @refuseAttempt call d attempt k now =>
      have hfirst : ¬ 2 ≤ d.attemptNo := by
        intro hsecond
        cases hok hsecond
      exact h.2.balanced (by omega)
  | deposit => exact ⟨Nat.le_refl 1, h⟩
  | pend timers hs => simpa [Spot.Charged, Stage.Charged, hs] using h
  | cease outcome hs => simpa [Spot.Charged, Stage.Charged, hs] using h
  | settle hstop => exact h.2.balanced rfl
  | elapsed hout => exact h.2.balanced rfl
  | deny hb hw => exact h.2.balanced rfl
  | unbudgeted hb => simp [hb] at hbudget
  | bail now hd hh hlt => cases hok ⟨_, hh, _, hd, hlt⟩
  | rouse hs => simpa [Spot.Charged, Stage.Charged, hs] using h
  | again | resume => exact ⟨Nat.succ_pos _, h.2⟩
  | expire now hd hle => cases hok ⟨_, hd, hle⟩
  | start | noteEnd | withdraw => cases hidle _ (List.mem_singleton_self _)
  | _ => exact h

theorem Hop.charged (hbudget : plan.retry.budget.isSome = true) (hop : Hop plan id c os c')
    (hok : Thrifty plan c c') (h : c.spot.Charged c.call log) :
    c'.spot.Charged c'.call (log ++ os) := by
  have hrest := fun hidle => (hop.charged_idle hbudget hidle hok h).idle hidle
  rcases hop.idle with ⟨call, d, attempt, permit, k, rfl, rfl, rfl⟩ |
    ⟨call, d, outcome, k, rfl, rfl, rfl⟩ | ⟨call, d, now, k, tokens, rfl, rfl, rfl⟩ | hidle
  · obtain ⟨hpos, hnumbers, htaken⟩ := h
    refine ⟨hpos, ?_, ?_⟩
    · rw [numbers_append, List.length_append, hnumbers]
      exact Nat.sub_add_cancel hpos
    · rw [withdrawals, List.countP_append]
      exact htaken
  · obtain ⟨hpos, hnumbers, htaken⟩ := h
    refine ⟨hpos, ?_, ?_⟩
    · rw [numbers_append, List.length_append, hnumbers]
      rfl
    · rw [withdrawals, List.countP_append]
      exact htaken
  · obtain ⟨hpos, hnumbers, htaken⟩ := h
    refine ⟨hpos, ?_, ?_⟩
    · rw [numbers_append, List.length_append, hnumbers]
      rfl
    · have hone : withdrawals ([.withdrew] : List (Obs T E)) = 1 := rfl
      rw [withdrawals, List.countP_append]
      change withdrawals log + withdrawals [.withdrew] = _
      rw [htaken, hone]
      exact Nat.sub_add_cancel hpos
  · exact hrest hidle

theorem Hop.wasted (hop : Hop plan id c os c') (hnot : ¬ Thrifty plan c c')
    (h : c.spot.Charged c.call log) : Wasted c'.call c'.spot (log ++ os) := by
  obtain ⟨hforfeits, hmoved⟩ := Classical.not_imp.mp hnot
  have hidle : ∀ e, ∀ o ∈ (plan.news [e] : List (Obs T E)), o.isIdle = true :=
    fun e => Plan.news_idle
  cases hop with
  | core => exact absurd rfl hmoved
  | @refuseAttempt call d attempt k now =>
      have hsecond : 2 ≤ d.attemptNo := hforfeits
      refine ⟨(overdrawn_idle (hidle _)).mpr ⟨?_, ?_⟩, trivial⟩
      · rw [h.2.2]
        omega
      · rw [h.2.1, h.2.2]
  | bail now =>
      refine ⟨(overdrawn_idle (List.forall_mem_cons.mpr ⟨rfl, hidle _⟩)).mpr ⟨?_, ?_⟩, trivial⟩
      · rw [h.2.2]
        exact h.1
      · rw [h.2.1, h.2.2]
  | expire now =>
      refine ⟨(overdrawn_idle (by simp [Obs.isIdle])).mpr ⟨?_, ?_⟩, trivial⟩
      · rw [h.2.2]
        exact h.1
      · rw [h.2.1, h.2.2]
  | unbounded hd =>
      obtain ⟨_, _, t, ht, _⟩ := hforfeits
      cases hd.symm.trans ht
  | fits hd hle =>
      obtain ⟨hint, hh, t, ht, hlt⟩ := hforfeits
      cases hd.symm.trans ht
      exact absurd (hle hint hh) (Nat.not_le_of_lt hlt)
  | again hd =>
      obtain ⟨t, ht, _⟩ := hforfeits
      cases hd.symm.trans ht
  | resume hd hlt =>
      obtain ⟨t, ht, hle⟩ := hforfeits
      cases hd.symm.trans ht
      exact absurd hlt (Nat.not_lt_of_le hle)
  | _ => exact absurd hforfeits (by simp [Forfeits])

theorem Hop.wasted_stays (hop : Hop plan id c os c') (h : Wasted c.call c.spot log) :
    Wasted c'.call c'.spot (log ++ os) := by
  obtain ⟨hdrawn, hover⟩ := h
  have hidle : ∀ es, ∀ o ∈ (plan.news es : List (Obs T E)), o.isIdle = true :=
    fun es => Plan.news_idle
  cases hop with
  | core | noVote => simpa using ⟨hdrawn, hover⟩
  | voteSuccess | voteFailure =>
      exact ⟨(overdrawn_idle (List.forall_mem_cons.mpr ⟨rfl, hidle _⟩)).mpr hdrawn, trivial⟩
  | abstain => exact ⟨(overdrawn_idle (by simp [Obs.isIdle])).mpr hdrawn, trivial⟩
  | leave => simpa [Wasted, Stage.isOver] using hdrawn
  | begin hs | pend _ hs | cease _ hs | rouse hs | work _ hs =>
      have hover' : Stage.isOver _ = true := hover
      rw [hs] at hover'
      cases hover'
  | @repoll call a k timers hs =>
      have hover' : call.stage.isOver = true := hover
      rw [hs] at hover'
      cases a <;> cases hover'
  | _ => exact hover.elim

/-- A call that is dropped loses the token it has taken for the attempt before it. -/
theorem Stage.Charged.dropped {stage : Stage T E} (h : stage.Charged log)
    (hover : stage.isOver = false) :
    (stage.isSquare → Balanced log) ∧ (¬ stage.isSquare → Overdrawn log) := by
  cases stage with
  | created | operationsQueue =>
      exact ⟨fun _ => Spent.balanced h rfl, fun hnot => absurd trivial hnot⟩
  | attemptsQueue d attempt timers =>
      obtain ⟨hpos, hspent⟩ := h
      constructor
      · intro hfirst
        have hone : d.attemptNo = 1 := hfirst
        exact hspent.balanced (by omega)
      · intro hnot
        have hmore : d.attemptNo ≠ 1 := hnot
        refine ⟨?_, ?_⟩
        · rw [hspent.2]
          omega
        · rw [hspent.1, hspent.2]
  | running d permit timers => exact ⟨fun _ => h.2.balanced rfl, fun hnot => absurd trivial hnot⟩
  | backingOff d wake =>
      refine ⟨False.elim, fun _ => ⟨?_, ?_⟩⟩
      · rw [h.2.2]
        exact h.1
      · rw [h.2.1, h.2.2]
  | returned | dropped => cases hover

end Hops

/-! ## Over whole runs -/

namespace System

variable {plan : Plan T E}

/-- Every call is in step with its account or has lost a token. -/
def Audited (s : System T E) : Prop :=
  s.EachCall fun call log => call.stage.Charged log ∨ Wasted call .suspended log

theorem audited_step (hbudget : plan.retry.budget.isSome = true) (s : System T E) (l : Label T E)
    (s' : System T E) (h : s.Audited) (hstep : step plan s l = some s') : s'.Audited := by
  refine eachCall_step_of_hops (Q := fun call spot log =>
    spot.Charged call log ∨ Wasted call spot log) (.inl ⟨rfl, rfl⟩) ?_ ?_ s l s' h hstep
  · intro id c os c' log hop hc
    rcases hc with hcharged | hwasted
    · by_cases hok : Thrifty plan c c'
      · exact .inl (hop.charged hbudget hok hcharged)
      · exact .inr (hop.wasted hok hcharged)
    · exact .inr (hop.wasted_stays hwasted)
  · intro call log hover hc
    have hidle : ∀ o ∈ [(.unrecorded : Obs T E)], o.isIdle = true := by simp [Obs.isIdle]
    rcases hc with hcharged | hwasted
    · obtain ⟨hsquare, hnot⟩ := Stage.Charged.dropped hcharged hover
      by_cases hstage : call.stage.isSquare
      · exact .inl ((balanced_idle hidle).mpr (hsquare hstage))
      · exact .inr ⟨(overdrawn_idle hidle).mpr (hnot hstage), rfl⟩
    · have hdone : call.stage.isOver = true := hwasted.2
      rw [hover] at hdone
      cases hdone

/-- Every call that is over has taken a token for each of its retries and no more. -/
def Exact (s : System T E) : Prop := ∀ i call, s.calls[i]? = some call →
  call.stage.isOver = true → withdrawals (s.logOf i) = (numbers (s.logOf i)).length - 1

theorem charged_of_open {call : Call T E} {log : List (Obs T E)}
    (h : call.stage.Charged log ∨ Wasted call .suspended log)
    (hover : call.stage.isOver = false) : call.stage.Charged log := by
  refine h.resolve_right fun hwasted => ?_
  have hdone : call.stage.isOver = true := hwasted.2
  rw [hover] at hdone
  cases hdone

theorem balanced_of_over {call : Call T E} {log : List (Obs T E)} (h : call.stage.Charged log)
    (hover : call.stage.isOver = true) : Balanced log := by
  cases hstage : call.stage with
  | returned | dropped =>
      rw [hstage] at h
      exact h
  | _ => simp [hstage, Stage.isOver] at hover

/-- A step keeps the account of every call exact if and only if it loses no token. -/
theorem exact_step (hbudget : plan.retry.budget.isSome = true) (s : System T E) (l : Label T E)
    (s' : System T E) (h : s.Audited) (hexact : s.Exact) (hstep : step plan s l = some s') :
    s'.Exact ↔ KeepsTo (Thrifty plan) Stage.isSquare plan s l := by
  cases l with
  | elapse d =>
      cases hstep
      exact iff_of_true hexact trivial
  | call =>
      cases hstep
      refine iff_of_true (fun i other hi hover => ?_) trivial
      rcases TaskPool.getElem?_snoc_cases hi with ⟨_, rfl⟩ | hold
      · cases hover
      · have hlt := (List.getElem?_eq_some_iff.mp hold).1
        rw [logOf_snoc, if_neg (by omega), List.append_nil]
        exact hexact i other hold hover
  | poll i script =>
      obtain ⟨call, done, hi, hpoll, rfl⟩ := step_poll hstep
      have hcharged := charged_of_open (h.2 i call hi) (isOver_of_pollCall hpoll)
      have hstart : Stage.Charged (s.logOf i ++ (s.frame script.ticks script.draws).log)
          call.stage := by simpa [frame] using hcharged
      rw [Exact, forall_settle_iff (P := fun call log => call.stage.isOver = true →
        withdrawals log = (numbers log).length - 1) hexact hi done]
      constructor
      · intro hdone other done' hi' hpoll'
        cases hi.symm.trans hi'
        cases hpoll.symm.trans hpoll'
        refine ((reaches_pollCall hpoll).keeps_or_lost
          (Q := fun c log => c.spot.Charged c.call log)
          (L := fun c log => Wasted c.call c.spot log)
          (fun c os c' log hop hok hc => hop.charged hbudget hok hc)
          (fun c os c' log hop hok hc => hop.wasted hok hc)
          (fun c os c' log hop hc => hop.wasted_stays hc) (s.logOf i) hstart).resolve_right ?_
        exact fun hwasted => hwasted.1.not_balanced (hdone hwasted.2)
      · intro hkeeps hover
        have hend := (hkeeps call done hi hpoll).keeps
          (Q := fun c log => c.spot.Charged c.call log)
          (fun c os c' log hop hok hc => hop.charged hbudget hok hc) (s.logOf i) hstart
        exact balanced_of_over hend hover
  | drop i =>
      obtain ⟨call, done, hi, hdrop, rfl⟩ := step_drop hstep
      have hopen := isOver_of_dropCall hdrop
      obtain ⟨hsquare, hnot⟩ :=
        Stage.Charged.dropped (charged_of_open (h.2 i call hi) hopen) hopen
      have hidle : ∀ o ∈ [(.unrecorded : Obs T E)], o.isIdle = true := by simp [Obs.isIdle]
      rw [Exact, forall_settle_iff (P := fun call log => call.stage.isOver = true →
        withdrawals log = (numbers log).length - 1) hexact hi done, (dropCall_cases hdrop).1,
        dropCall_log hdrop]
      constructor
      · intro hdone other hi'
        cases hi.symm.trans hi'
        by_contra hstage
        exact ((overdrawn_idle hidle).mpr (hnot hstage)).not_balanced (hdone rfl)
      · exact fun hkeeps _ => (balanced_idle hidle).mpr (hsquare (hkeeps call hi))
  | depositElsewhere =>
      obtain ⟨tokens, rfl⟩ := step_elsewhere (.inl rfl) hstep
      exact iff_of_true hexact trivial
  | withdrawElsewhere =>
      obtain ⟨tokens, rfl⟩ := step_elsewhere (.inr rfl) hstep
      exact iff_of_true hexact trivial

end System

/-- For a plan with a budget, in every run: in every state each call that is over has taken
a token for each attempt after its first and for nothing else, if and only if no poll of the
run ends a call between taking a token and starting the attempt it is for (its permit
refused, its hint beyond the deadline, or its delay over at the deadline or later), and no
call is dropped there. -/
theorem retries_charged_exactly_iff (plan : Plan T E) (hbudget : plan.retry.budget.isSome = true)
    (start : Nat) (ls : List (System.Label T E)) (s : System T E)
    (hrun : run (System.step plan) (System.init plan start) ls = some s) :
    Throughout (System.step plan) System.Exact (System.init plan start) ls ↔
      Obeys (System.step plan) (System.KeepsTo (Thrifty plan) Stage.isSquare plan)
        (System.init plan start) ls := by
  refine throughout_iff_obeys (System.audited_step hbudget) (System.exact_step hbudget)
    (System.eachCall_init plan start _) ?_ hrun
  intro i call hi
  simp [System.init] at hi

/-- Three attempts 20 ns apart, 10 ns in all, and a single token for a retry. -/
def outOfReach : Plan Nat Nat where
  retry := { Retry.fixed 20 with budget := some { maxTokens := 1000, deposit := 0 } }
  attemptTimeout := none
  totalTimeout := some 10
  breaker := none
  concurrency := none
  onEvent := false
  maxAttempts_pos := Plan.threeAttempts_pos
  timeouts_ordered := Plan.tenInAll_ordered

/-- The first attempt fails after 1 ns; the delay is cut at the deadline. -/
def cutShort : List (System.Label Nat Nat) :=
  [.call, .poll 0 .pending, .poll 0 (.answer 1 (.error 7)), .elapse 9, .poll 0 .pending]

def afterCut : System Nat Nat :=
  (run (System.step outOfReach) (System.init outOfReach 0) cutShort).get rfl

/-- So the last poll takes the call past the deadline with its token. -/
theorem retries_charged_exactly_iff_cutShort :
    ¬ Obeys (System.step outOfReach) (System.KeepsTo (Thrifty outOfReach) Stage.isSquare outOfReach)
      (System.init outOfReach 0) cutShort := by
  intro hkeeps
  have hexact := (retries_charged_exactly_iff outOfReach rfl 0 cutShort afterCut rfl).mpr hkeeps
  have hrun : run (System.step outOfReach) (System.init outOfReach 0) cutShort = some afterCut :=
    rfl
  have htaken := hexact.last hrun 0 _ rfl rfl
  cases htaken

/-- The call has ended after one attempt and has taken a token. -/
theorem token_taken_for_no_retry :
    ∃ s call, run (System.step outOfReach) (System.init outOfReach 0) cutShort = some s ∧
      s.calls[0]? = some call ∧ call.stage.isOver = true ∧ numbers (s.logOf 0) = [1] ∧
      withdrawals (s.logOf 0) = 1 := ⟨afterCut, _, rfl, rfl, rfl, rfl, rfl⟩

end ExecutionPolicy
