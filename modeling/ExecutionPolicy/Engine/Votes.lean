import ExecutionPolicy.Engine.Hops
import ExecutionPolicy.Engine.Report
import ExecutionPolicy.Foundation.History

/-! # What the breaker is told of a call

The vote is computed from the variant of the final error alone. Where no attempt was cut
off and no error counts as a fault, it is a failure exactly when one of three exits of
the loop made a timeout out of completed attempts.
-/

namespace ExecutionPolicy

open StepSystem History

variable {T E : Type}

/-! ## Faults and deadlines -/

def latestError (log : List (Obs T E)) : Option E := carriedError (outcomes log)

/-- Every attempt ran to completion, and no error it returned counts as a fault. -/
def Faultless (p : E → Bool) (log : List (Obs T E)) : Prop :=
  ∀ number outcome now, Obs.ended number outcome now ∈ log →
    ∃ r, outcome = .completed r ∧ ∀ e, r = .error e → p e = false

def Spotless (log : List (Obs T E)) : Prop := ∀ now, Obs.votedFailure now ∉ log

/-- What keeps the call from a timeout of its own making: `max_elapsed` is met only once
there is an error to report, no hint exceeds what the deadline leaves, and no delay ends
past the deadline. -/
def InTime (plan : Plan T E) (start : Nat) (deadline : Option Nat) (past : List (Obs T E)) :
    Obs T E → Prop
  | .ended number outcome now =>
      GoesOn plan number outcome → OutOfTime plan start now →
        outcome.error?.or (latestError past) ≠ none
  | .paused now =>
      ∀ t hint, deadline = some t →
        (latestError past).bind plan.retry.retryAfterHint = some hint →
          hint ≤ Instant.durationSince t now
  | .resumed now => ∀ t, deadline = some t → now < t
  | _ => True

/-- Neither a vote for failure nor a reading that a deadline is compared with. -/
def Obs.isPlain : Obs T E → Bool
  | .ended _ _ _ => false
  | .paused _ => false
  | .resumed _ => false
  | .votedFailure _ => false
  | _ => true

section Logs

variable {plan : Plan T E} {start : Nat} {deadline : Option Nat} {log os : List (Obs T E)}

theorem carriedError_mem {outs : List (Ended T E)} {e : E} (h : carriedError outs = some e) :
    ∃ o ∈ outs, o.outcome = .completed (.error e) := by
  induction outs using List.reverseRecOn with
  | nil => cases h
  | append_singleton outs last ih =>
      rw [carriedError_snoc] at h
      rcases Option.or_eq_some_iff.mp h with hlast | ⟨_, hearlier⟩
      · refine ⟨last, by simp, ?_⟩
        cases hout : last.outcome with
        | completed r => cases r <;> simp_all [AttemptOutcome.error?]
        | _ => simp [hout, AttemptOutcome.error?] at hlast
      · obtain ⟨o, ho, hout⟩ := ih hearlier
        exact ⟨o, List.mem_append_left _ ho, hout⟩

theorem Faultless.latestError {p : E → Bool} (h : Faultless p log) {e : E}
    (he : latestError log = some e) : p e = false := by
  obtain ⟨o, ho, hout⟩ := carriedError_mem he
  obtain ⟨obs, hobs, heq⟩ := List.mem_filterMap.mp ho
  cases obs with
  | ended number outcome now =>
      cases heq
      obtain ⟨r, hr, hp⟩ := h number outcome now hobs
      cases hr.symm.trans hout
      exact hp e rfl
  | _ => cases heq

theorem Faultless.left {p : E → Bool} (h : Faultless p (log ++ os)) : Faultless p log :=
  fun number outcome now hmem => h number outcome now (List.mem_append_left os hmem)

theorem latestError_plain (hos : ∀ o ∈ os, o.isPlain = true) :
    latestError (log ++ os) = latestError log := by
  have hnone : outcomes os = [] := by
    refine List.filterMap_eq_nil_iff.mpr fun o ho => ?_
    have hplain := hos o ho
    cases o <;> simp_all [Obs.ended?, Obs.isPlain]
  simp [latestError, hnone]

theorem latestError_ended (log : List (Obs T E)) (number : Nat) (outcome : AttemptOutcome T E)
    (now : Nat) : latestError (log ++ [.ended number outcome now]) =
      outcome.error?.or (latestError log) := by
  rw [latestError, outcomes_append]
  exact carriedError_snoc _ _

theorem inTime_plain (hos : ∀ o ∈ os, o.isPlain = true) :
    Justified (InTime plan start deadline) (log ++ os) ↔
      Justified (InTime plan start deadline) log :=
  justified_append fun past o ho => by
    have hplain := hos o ho
    cases o <;> trivial

theorem Spotless.append (h : Spotless log) (hos : ∀ now, Obs.votedFailure now ∉ os) :
    Spotless (log ++ os) := by
  intro now hmem
  rcases List.mem_append.mp hmem with hold | hnew
  · exact h now hold
  · exact hos now hnew

theorem spotless_plain (hos : ∀ o ∈ os, o.isPlain = true) :
    Spotless (log ++ os) ↔ Spotless log := by
  constructor
  · exact fun h now hmem => h now (List.mem_append_left os hmem)
  · exact fun h => h.append fun now hmem => by cases hos _ hmem

end Logs

/-! ## Where the loop stands -/

/-- The loop carries the latest error and has met no deadline. -/
structure Level (plan : Plan T E) (start : Nat) (deadline : Option Nat) (d : Drive E)
    (log : List (Obs T E)) : Prop where
  spotless : Spotless log
  carried : d.lastError = latestError log
  inTime : Justified (InTime plan start deadline) log

structure Weighing (plan : Plan T E) (start : Nat) (deadline : Option Nat) (d : Drive E)
    (outcome : AttemptOutcome T E) (now : Nat) (log : List (Obs T E)) : Prop where
  spotless : Spotless log
  ended : Obs.ended d.attemptNo outcome now ∈ log
  carried : outcome.error?.or d.lastError = latestError log
  inTime : Justified (InTime plan start deadline) log ↔
    (GoesOn plan d.attemptNo outcome → OutOfTime plan start now → latestError log ≠ none)

/-- The attempt ended at `now`, and the loop would go on. -/
structure Proceeding (plan : Plan T E) (start : Nat) (deadline : Option Nat) (d : Drive E)
    (now : Nat) (log : List (Obs T E)) : Prop where
  spotless : Spotless log
  carried : d.lastError = latestError log
  inTime : Justified (InTime plan start deadline) log ↔
    (OutOfTime plan start now → latestError log ≠ none)

/-- The loop has its result, which counts as a failure when a deadline was met. -/
structure Sentenced (plan : Plan T E) (b : CompiledBreaker E) (start : Nat)
    (deadline : Option Nat) (r : Except (ExecutionError E) T) (log : List (Obs T E)) : Prop where
  spotless : Spotless log
  blamed : b.verdict r ≠ some true ↔
    Justified (InTime plan start deadline) log

def Fresh (log : List (Obs T E)) : Prop := ∀ o ∈ log, o.isPlain = true

/-- The breaker was told of a failure exactly when a deadline was met. -/
def Voted (plan : Plan T E) (start : Nat) (deadline : Option Nat) (log : List (Obs T E)) : Prop :=
  Spotless log ↔ Justified (InTime plan start deadline) log

def Applicant.Fair (plan : Plan T E) (start : Nat) (deadline : Option Nat)
    (log : List (Obs T E)) : Applicant E → Prop
  | .operation => Fresh log
  | .attempt d _ => Level plan start deadline d log

def Stage.Fair (plan : Plan T E) (start : Nat) (deadline : Option Nat)
    (log : List (Obs T E)) : Stage T E → Prop
  | .created | .operationsQueue _ => Fresh log
  | .attemptsQueue d _ _ | .running d _ _ | .backingOff d _ => Level plan start deadline d log
  | .returned _ | .dropped => Voted plan start deadline log

def Spot.Fair (plan : Plan T E) (b : CompiledBreaker E) (call : Call T E)
    (log : List (Obs T E)) : Spot T E → Prop
  | .suspended => call.stage.Fair plan call.start call.totalDeadline log
  | .entering | .gating | .admitted _ => Fresh log
  | .asking a | .waiting a _ | .granted a | .refused a =>
      a.Fair plan call.start call.totalDeadline log
  | .head d | .starting d _ _ | .ending d _ => Level plan call.start call.totalDeadline d log
  | .judging d outcome now => Weighing plan call.start call.totalDeadline d outcome now log
  | .retrying d now => Proceeding plan call.start call.totalDeadline d now log
  | .charging d _ | .pausing d | .drawn d _ | .scheduling d _ | .scheduled d _ | .dozing d _
  | .waking d => Level plan call.start call.totalDeadline d log
  | .exiting r => Sentenced plan b call.start call.totalDeadline r log
  | .leaving _ => Voted plan call.start call.totalDeadline log

section Appending

variable {plan : Plan T E} {start : Nat} {deadline : Option Nat} {d : Drive E}
  {log os : List (Obs T E)}

theorem Fresh.append (h : Fresh log) (hos : ∀ o ∈ os, o.isPlain = true) : Fresh (log ++ os) := by
  intro o ho
  rcases List.mem_append.mp ho with hold | hnew
  · exact h o hold
  · exact hos o hnew

theorem Level.append (h : Level plan start deadline d log) (hos : ∀ o ∈ os, o.isPlain = true) :
    Level plan start deadline d (log ++ os) :=
  ⟨(spotless_plain hos).mpr h.spotless, h.carried.trans (latestError_plain hos).symm,
    (inTime_plain hos).mpr h.inTime⟩

theorem Voted.append (h : Voted plan start deadline log) (hos : ∀ o ∈ os, o.isPlain = true) :
    Voted plan start deadline (log ++ os) :=
  (spotless_plain hos).trans (h.trans (inTime_plain hos).symm)

theorem Stage.Fair.append {stage : Stage T E} (h : stage.Fair plan start deadline log)
    (hos : ∀ o ∈ os, o.isPlain = true) : stage.Fair plan start deadline (log ++ os) := by
  cases stage with
  | created | operationsQueue => exact Fresh.append h hos
  | attemptsQueue | running | backingOff => exact Level.append h hos
  | returned | dropped => exact Voted.append h hos

theorem Spot.Fair.append {b : CompiledBreaker E} {call : Call T E} {spot : Spot T E}
    (h : spot.Fair plan b call log) (hos : ∀ o ∈ os, o.isPlain = true) :
    spot.Fair plan b call (log ++ os) := by
  have herror : latestError (log ++ os) = latestError log := latestError_plain hos
  have htime : Justified (InTime plan call.start call.totalDeadline) (log ++ os) ↔
      Justified (InTime plan call.start call.totalDeadline) log := inTime_plain hos
  cases spot with
  | suspended => exact Stage.Fair.append h hos
  | entering | gating | admitted => exact Fresh.append h hos
  | asking a | waiting a | granted a | refused a =>
      cases a with
      | operation => exact Fresh.append h hos
      | attempt => exact Level.append h hos
  | judging =>
      refine ⟨(spotless_plain hos).mpr h.spotless, List.mem_append_left os h.ended,
        h.carried.trans herror.symm, htime.trans ?_⟩
      rw [herror]
      exact h.inTime
  | retrying =>
      refine ⟨(spotless_plain hos).mpr h.spotless, h.carried.trans herror.symm, htime.trans ?_⟩
      rw [herror]
      exact h.inTime
  | exiting => exact ⟨(spotless_plain hos).mpr h.spotless, h.blamed.trans htime.symm⟩
  | leaving => exact Voted.append h hos
  | _ => exact Level.append h hos

end Appending

/-! ## One hop -/

section Verdicts

variable {b : CompiledBreaker E} {p : E → Bool}

theorem verdict_own (hp : b.recordWhen = some p) {r : Except E T}
    (hr : ∀ e, r = .error e → p e = false) (ctx : ErrorContext) :
    b.verdict ((AttemptOutcome.completed r).own ctx) ≠ some true := by
  cases r with
  | ok v => simp [AttemptOutcome.own, CompiledBreaker.verdict]
  | error e => simp [AttemptOutcome.own, CompiledBreaker.verdict, hp, hr e rfl]

theorem verdict_elapsedResult (hp : b.recordWhen = some p) {lastError : Option E}
    (hlast : ∀ e, lastError = some e → p e = false) (ctx : ErrorContext) :
    b.verdict (elapsedResult lastError ctx : Except _ T) ≠ some true ↔ lastError ≠ none := by
  cases lastError with
  | none => simp [elapsedResult, CompiledBreaker.verdict]
  | some e => simp [elapsedResult, CompiledBreaker.verdict, hp, hlast e rfl]

end Verdicts

section Hops

variable {plan : Plan T E} {b : CompiledBreaker E} {p : E → Bool} {id start : Nat}
  {deadline : Option Nat} {d : Drive E} {c c' : Cursor T E} {log os : List (Obs T E)}

theorem Fresh.spotless (h : Fresh log) : Spotless log :=
  fun now hmem => by cases h _ hmem

theorem Fresh.inTime (h : Fresh log) (start : Nat) (deadline : Option Nat) :
    Justified (InTime plan start deadline) log := by
  rw [← List.nil_append log, inTime_plain h]
  exact justified_nil

theorem Fresh.voted (h : Fresh log) : Voted plan start deadline log :=
  iff_of_true h.spotless (h.inTime _ _)

theorem Fresh.level (h : Fresh log) (hd : d.lastError = none) :
    Level plan start deadline d log := by
  refine ⟨h.spotless, ?_, h.inTime _ _⟩
  rw [hd, ← List.nil_append log, latestError_plain h]
  rfl

theorem Level.sentenced {r : Except (ExecutionError E) T} (h : Level plan start deadline d log)
    (hr : b.verdict r ≠ some true) : Sentenced plan b start deadline r log :=
  ⟨h.spotless, iff_of_true hr h.inTime⟩

theorem Plan.news_plain (plan : Plan T E) (es : List Event) :
    ∀ o ∈ (plan.news es : List (Obs T E)), o.isPlain = true :=
  Plan.forall_news fun _ _ => rfl

/-- A hop ends an attempt, compares a reading with the deadline, votes, or observes
none of this. -/
theorem Hop.plain (hop : Hop plan id c os c') :
    (∃ d outcome, c.spot = .ending d outcome) ∨ (∃ d raw, c.spot = .drawn d raw) ∨
      (∃ d, c.spot = .waking d) ∨ (∃ r, c.spot = .exiting r) ∨ ∀ o ∈ os, o.isPlain = true := by
  cases hop with
  | noteEnd => exact .inl ⟨_, _, rfl⟩
  | unbounded | bail | fits => exact .inr (.inl ⟨_, _, rfl⟩)
  | again | resume | expire => exact .inr (.inr (.inl ⟨_, rfl⟩))
  | noVote | voteSuccess | voteFailure | abstain => exact .inr (.inr (.inr (.inl ⟨_, rfl⟩)))
  | refuseOperation | pass =>
      exact .inr (.inr (.inr (.inr (List.forall_mem_cons.mpr ⟨rfl, plan.news_plain _⟩))))
  | refuseAttempt | settle | retry | elapsed | deny | schedule =>
      exact .inr (.inr (.inr (.inr (plan.news_plain _))))
  | _ => exact .inr (.inr (.inr (.inr (by simp [Obs.isPlain]))))

theorem Hop.fair_plain (hb : plan.breaker = some b) (hp : b.recordWhen = some p)
    (hop : Hop plan id c os c') (hplain : ∀ o ∈ os, o.isPlain = true) (hclear : Faultless p log)
    (h : c.spot.Fair plan b c.call log) : c'.spot.Fair plan b c'.call log := by
  cases hop with
  | core | work => exact h
  | begin hs => simpa [Spot.Fair, Stage.Fair, hs] using h
  | @repoll call a k timers hs =>
      cases a <;> simpa [Spot.Fair, Stage.Fair, Applicant.Fair, hs, Applicant.queue] using h
  | @park call a k timers hfree => cases a <;> exact h
  | refuseOperation | turnAway => exact Fresh.voted h
  | refuseAttempt => exact Level.sentenced h (by simp [CompiledBreaker.verdict])
  | deposit => exact Fresh.level h rfl
  | pend timers hs => simpa [Spot.Fair, Stage.Fair, hs] using h
  | cease outcome hs => simpa [Spot.Fair, Stage.Fair, hs] using h
  | settle hstop =>
      obtain ⟨r, rfl, hr⟩ := hclear _ _ _ h.ended
      refine ⟨h.spotless, iff_of_true (verdict_own hp hr _) (h.inTime.mpr fun hgo => ?_)⟩
      exact absurd hgo hstop
  | retry hgo => exact ⟨h.spotless, h.carried, h.inTime.trans (imp_iff_right hgo)⟩
  | @elapsed call d now k hout =>
      have hlast : ∀ e, d.lastError = some e → p e = false := fun e he =>
        hclear.latestError (h.carried.symm.trans he)
      refine ⟨h.spotless, (verdict_elapsedResult hp hlast _).trans ?_⟩
      rw [h.inTime, h.carried, imp_iff_right hout]
  | inTime hin => exact ⟨h.spotless, h.carried, h.inTime.mpr fun hout => absurd hout hin⟩
  | deny => exact Level.sentenced h (by simp [CompiledBreaker.verdict])
  | draw | again => exact ⟨h.spotless, h.carried, h.inTime⟩
  | rouse hs => simpa [Spot.Fair, Stage.Fair, hs] using h
  | noVote hnone => simp [hb] at hnone
  | voteSuccess hb' hv =>
      cases hb.symm.trans hb'
      exact iff_of_true h.spotless (h.blamed.mp (by simp [hv]))
  | abstain hb' hv =>
      cases hb.symm.trans hb'
      exact iff_of_true h.spotless (h.blamed.mp (by simp [hv]))
  | noteEnd | bail | fits | resume | expire | voteFailure => cases hplain _ List.mem_cons_self
  | _ => exact h

/-- A reading that is compared with a deadline decides whether the call stays in time. -/
theorem Level.read (h : Level plan start deadline d log) {o : Obs T E}
    (ho : ∀ now, o ≠ .votedFailure now) :
    Spotless (log ++ [o]) ∧ (Justified (InTime plan start deadline) (log ++ [o]) ↔
      InTime plan start deadline log o) := by
  refine ⟨h.spotless.append fun now hmem => ?_, justified_snoc.trans (and_iff_right h.inTime)⟩
  exact ho now (List.mem_singleton.mp hmem).symm

theorem Level.weighing (h : Level plan start deadline d log) (outcome : AttemptOutcome T E)
    (now : Nat) :
    Weighing plan start deadline d outcome now (log ++ [.ended d.attemptNo outcome now]) := by
  obtain ⟨hspotless, htime⟩ := h.read (o := .ended d.attemptNo outcome now) (by simp)
  refine ⟨hspotless, by simp, ?_, htime.trans ?_⟩
  · rw [latestError_ended, h.carried]
  · rw [latestError_ended]
    exact Iff.rfl

theorem Level.goesOn (h : Level plan start deadline d log) {o : Obs T E}
    (ho : (∃ now, o = .paused now) ∨ ∃ now, o = .resumed now)
    (htime : InTime plan start deadline log o) :
    Level plan start deadline d (log ++ [o]) := by
  have hvote : ∀ now, o ≠ .votedFailure now := by
    rcases ho with ⟨_, rfl⟩ | ⟨_, rfl⟩ <;> simp
  obtain ⟨hspotless, hiff⟩ := h.read hvote
  have hnone : outcomes [o] = [] := by rcases ho with ⟨_, rfl⟩ | ⟨_, rfl⟩ <;> rfl
  refine ⟨hspotless, ?_, hiff.mpr htime⟩
  rw [latestError, outcomes_append, hnone, List.append_nil]
  exact h.carried

theorem Level.timedOut (h : Level plan start deadline d log) {o : Obs T E}
    (ho : ∀ now, o ≠ .votedFailure now) (hlate : ¬ InTime plan start deadline log o)
    {r : Except (ExecutionError E) T} (hr : b.verdict r = some true) :
    Sentenced plan b start deadline r (log ++ [o]) := by
  obtain ⟨hspotless, htime⟩ := h.read ho
  refine ⟨hspotless, iff_of_false (fun hne => hne hr) fun hjust => hlate (htime.mp hjust)⟩

theorem Sentenced.append {r : Except (ExecutionError E) T}
    (h : Sentenced plan b start deadline r log) (hos : ∀ o ∈ os, o.isPlain = true) :
    Sentenced plan b start deadline r (log ++ os) :=
  ⟨(spotless_plain hos).mpr h.spotless, h.blamed.trans (inTime_plain hos).symm⟩

theorem Sentenced.votedFailure {r : Except (ExecutionError E) T}
    (h : Sentenced plan b start deadline r log) (hv : b.verdict r = some true) (now : Nat) :
    Voted plan start deadline (log ++ [.votedFailure now]) := by
  refine iff_of_false (fun hspotless => hspotless now (by simp)) fun hjust => ?_
  exact h.blamed.mpr (justified_snoc.mp hjust).1 hv

theorem Hop.fair (hb : plan.breaker = some b) (hp : b.recordWhen = some p)
    (hop : Hop plan id c os c') (h : Faultless p log → c.spot.Fair plan b c.call log)
    (hclear : Faultless p (log ++ os)) : c'.spot.Fair plan b c'.call (log ++ os) := by
  have hfair := h hclear.left
  have hrest : (∀ o ∈ os, o.isPlain = true) → c'.spot.Fair plan b c'.call (log ++ os) :=
    fun hplain => (hop.fair_plain hb hp hplain hclear.left hfair).append hplain
  rcases hop.plain with ⟨d, outcome, hspot⟩ | ⟨d, raw, hspot⟩ | ⟨d, hspot⟩ | ⟨r, hspot⟩ | hplain
  · cases hop with
    | noteEnd => exact Level.weighing hfair _ _
    | core => exact hrest (by simp)
    | _ => cases hspot
  · cases hop with
    | @bail call d raw k deadline hint now hd hh hlt =>
        have hcarried : d.lastError = latestError log := hfair.carried
        have hlate : ¬ InTime plan call.start call.totalDeadline log (.paused k.core.time) :=
          fun htime => Nat.not_le_of_lt hlt (htime deadline hint hd (hcarried ▸ hh))
        rw [List.append_cons]
        exact (Level.timedOut hfair (by simp) hlate rfl).append (plan.news_plain _)
    | @fits call d raw k deadline hd hle =>
        have hcarried : d.lastError = latestError log := hfair.carried
        refine Level.goesOn hfair (.inl ⟨_, rfl⟩) fun t hint ht hh => ?_
        cases hd.symm.trans ht
        exact hle hint (hcarried ▸ hh)
    | core | unbounded => exact hrest (by simp)
    | _ => cases hspot
  · cases hop with
    | @resume call d k deadline hd hlt =>
        have hlevel :
            Level plan call.start call.totalDeadline d (log ++ [.resumed k.core.time]) := by
          refine Level.goesOn hfair (.inr ⟨_, rfl⟩) fun t ht => ?_
          cases hd.symm.trans ht
          exact hlt
        exact ⟨hlevel.spotless, hlevel.carried, hlevel.inTime⟩
    | @expire call d k deadline now hd hle =>
        have hlate : ¬ InTime plan call.start call.totalDeadline log (.resumed k.core.time) :=
          fun htime => Nat.not_lt_of_le hle (htime deadline hd)
        exact Level.timedOut hfair (by simp) hlate rfl
    | core | again => exact hrest (by simp)
    | _ => cases hspot
  · cases hop with
    | voteFailure hb' hv =>
        cases hb.symm.trans hb'
        rw [List.append_cons]
        exact (Sentenced.votedFailure hfair hv _).append (plan.news_plain _)
    | voteSuccess => exact hrest (List.forall_mem_cons.mpr ⟨rfl, plan.news_plain _⟩)
    | core | noVote | abstain => exact hrest (by simp [Obs.isPlain])
    | _ => cases hspot
  · exact hrest hplain

end Hops

/-! ## Over whole runs -/

theorem Stage.Fair.voted {plan : Plan T E} {start : Nat} {deadline : Option Nat}
    {log : List (Obs T E)} {stage : Stage T E} (h : stage.Fair plan start deadline log) :
    Voted plan start deadline log := by
  cases stage with
  | created | operationsQueue => exact Fresh.voted h
  | attemptsQueue | running | backingOff => exact iff_of_true (Level.spotless h) (Level.inTime h)
  | returned | dropped => exact h

/-- In every run, the breaker is told of no failure of a call whose attempts all ran to
completion without a fault exactly when the call stays in time. -/
theorem spotless_iff_inTime (plan : Plan T E) (b : CompiledBreaker E) (p : E → Bool)
    (hb : plan.breaker = some b) (hp : b.recordWhen = some p) (start : Nat)
    (ls : List (System.Label T E)) (s : System T E)
    (hrun : run (System.step plan) (System.init plan start) ls = some s)
    (i : Nat) (call : Call T E) (hi : s.calls[i]? = some call)
    (hclear : Faultless p (s.logOf i)) :
    (∀ now, Obs.votedFailure now ∉ s.logOf i) ↔
      Justified (InTime plan call.start call.totalDeadline) (s.logOf i) := by
  have heach := System.eachCall_of_hops (Q := fun call spot log =>
    Faultless p log → Spot.Fair plan b call log spot) ?_ ?_ ?_ hrun
  · exact (heach.2 i call hi hclear).voted
  · intro _
    simp [Spot.Fair, System.created, Stage.Fair, Fresh, Obs.isPlain]
  · exact fun id c os c' log hop h hclear => hop.fair hb hp h hclear
  · intro call log hover h hclear
    have hvoted := (h hclear.left).voted
    exact hvoted.append (by simp [Obs.isPlain])

/-- An error is its own hint and never a fault; one failure would trip the breaker. -/
def heedsHints : Plan Nat Nat where
  retry := { Retry.fixed 5 with retryAfter := some some }
  attemptTimeout := none
  totalTimeout := some 10
  breaker := some { config := .consecutiveFailures 1, recordWhen := some fun _ => false }
  concurrency := none
  onEvent := false
  maxAttempts_pos := Plan.threeAttempts_pos
  timeouts_ordered := Plan.tenInAll_ordered

/-- The first attempt hints at 3 ns, the second succeeds. -/
def shortHint : List (System.Label Nat Nat) :=
  [.call, .poll 0 .pending, .poll 0 (.answer 1 (.error 3)), .elapse 5, .poll 0 .pending,
    .poll 0 (.answer 1 (.ok 8))]

def hinted : System Nat Nat :=
  (run (System.step heedsHints) (System.init heedsHints 0) shortHint).get rfl

theorem hinted_log : hinted.logOf 0 =
    [.arrived, .gated 0, .started ⟨1, 0, 0⟩ 0, .ended 1 (.completed (.error 3)) 1, .paused 1,
      .resumed 6, .started ⟨2, 0, 6⟩ 6, .ended 2 (.completed (.ok 8)) 7, .votedSuccess 7] := rfl

theorem spotless_iff_inTime_shortHint :
    (∀ now, Obs.votedFailure now ∉ hinted.logOf 0) ∧
      Justified (InTime heedsHints 0 (some 10)) (hinted.logOf 0) := by
  have hspotless : ∀ now, Obs.votedFailure now ∉ hinted.logOf 0 := by simp [hinted_log]
  refine ⟨hspotless, (spotless_iff_inTime heedsHints _ (fun _ => false) rfl rfl 0 shortHint hinted
    rfl 0 _ rfl ?_).mp hspotless⟩
  intro number outcome now hmem
  simp only [hinted_log, List.mem_cons, reduceCtorEq, false_or, Obs.ended.injEq, or_false,
    List.not_mem_nil] at hmem
  rcases hmem with ⟨_, rfl, _⟩ | ⟨_, rfl, _⟩ <;> exact ⟨_, rfl, fun _ _ => rfl⟩

/-- The only attempt returns an error that hints at 100 ns. -/
def longHint : List (System.Label Nat Nat) :=
  [.call, .poll 0 .pending, .poll 0 (.answer 1 (.error 100))]

theorem excluded_error_trips_breaker :
    ∃ s, run (System.step heedsHints) (System.init heedsHints 0) longHint = some s ∧
      s.logOf 0 = [.arrived, .gated 0, .started ⟨1, 0, 0⟩ 0,
        .ended 1 (.completed (.error 100)) 1, .paused 1, .votedFailure 1] ∧
      Faultless (fun _ => false) (s.logOf 0) ∧ s.shared.breaker.state = .open := by
  let s := (run (System.step heedsHints) (System.init heedsHints 0) longHint).get rfl
  have hlog : s.logOf 0 = [.arrived, .gated 0, .started ⟨1, 0, 0⟩ 0,
    .ended 1 (.completed (.error 100)) 1, .paused 1, .votedFailure 1] := rfl
  refine ⟨s, rfl, hlog, ?_, rfl⟩
  intro number outcome now hmem
  simp only [hlog, List.mem_cons, reduceCtorEq, false_or, Obs.ended.injEq, or_false,
    List.not_mem_nil] at hmem
  obtain ⟨_, rfl, _⟩ := hmem
  exact ⟨_, rfl, fun _ _ => rfl⟩

end ExecutionPolicy
