import ExecutionPolicy.Engine.Attempts
import ExecutionPolicy.Engine.Report

/-! # Hints to wait

An error may ask to be left alone for a while. The delay before the next attempt is at
least what it asks for, is cut when the deadline leaves less, and is skipped when nothing
is left; two checks against the deadline end the call in exactly those cases.
-/

namespace ExecutionPolicy

open StepSystem

variable {T E : Type}

/-! ## What was asked and what was kept -/

/-- Attempt `k` ended at `now` with an error that asks to wait for `h`. -/
def HintAsked (plan : Plan T E) (k now h : Nat) (log : List (Obs T E)) : Prop :=
  ∃ e, Obs.ended k (.completed (.error e)) now ∈ log ∧ plan.retry.retryAfterHint e = some h

/-- The deadline, if there is one, is not before `due`. -/
def Fits (deadline : Option Nat) (due : Nat) : Prop := ∀ t, deadline = some t → due ≤ t

/-- The deadline is `now` or earlier. -/
def Reached (deadline : Option Nat) (now : Nat) : Prop := ∃ t, deadline = some t ∧ t ≤ now

/-- The deadline is earlier than `now`. -/
def Late (deadline : Option Nat) (now : Nat) : Prop := ∃ t, deadline = some t ∧ t < now

/-- `n` attempts have started, each after all the time that the one before it had asked
for, which the deadline left. -/
structure Paced (plan : Plan T E) (deadline : Option Nat) (n : Nat) (log : List (Obs T E)) :
    Prop where
  started : ∀ attempt clock, Obs.started attempt clock ∈ log → attempt.number ≤ n
  ended : ∀ k outcome now, Obs.ended k outcome now ∈ log → k ≤ n
  kept : ∀ k now h, HintAsked plan k now h log → k < n → Fits deadline (now + h) ∧
    ∀ attempt clock, Obs.started attempt clock ∈ log → attempt.number = k + 1 → now + h ≤ clock

/-- Attempt `d.attemptNo` has ended, and what it asked for satisfies `P`. -/
def Pausing (plan : Plan T E) (deadline : Option Nat) (d : Drive E) (P : Nat → Nat → Prop)
    (log : List (Obs T E)) : Prop :=
  Paced plan deadline d.attemptNo log ∧ ∀ now h, HintAsked plan d.attemptNo now h log → P now h

/-- Attempt `d.attemptNo` comes next, and what the one before it asked for is over. -/
structure Rested (plan : Plan T E) (deadline : Option Nat) (time : Nat) (d : Drive E)
    (log : List (Obs T E)) : Prop where
  paced : Paced plan deadline (d.attemptNo - 1) log
  pos : 1 ≤ d.attemptNo
  waited : ∀ now h, HintAsked plan (d.attemptNo - 1) now h log →
    Fits deadline (now + h) ∧ now + h ≤ time

structure Engaged (plan : Plan T E) (deadline : Option Nat) (d : Drive E)
    (log : List (Obs T E)) : Prop where
  paced : Paced plan deadline d.attemptNo log
  unended : ∀ k outcome now, Obs.ended k outcome now ∈ log → k < d.attemptNo

/-- The carried error is the one that asked, at an instant that is past. -/
def Hinted (plan : Plan T E) (d : Drive E) (time now h : Nat) : Prop :=
  d.lastError.bind plan.retry.retryAfterHint = some h ∧ now ≤ time

/-- The delay lasts as long as was asked, or up to a deadline that is late enough. -/
def Sufficient (deadline : Option Nat) (wake now h : Nat) : Prop :=
  Fits deadline (now + h) ∧ (now + h ≤ wake ∨ Reached deadline wake)

def Idle (log : List (Obs T E)) : Prop := ∀ o ∈ log, o.isAttempt = false

/-- The call ends with `r`: an error, if more was asked for than the deadline left. -/
def Closed (plan : Plan T E) (deadline : Option Nat) (r : Except (ExecutionError E) T)
    (log : List (Obs T E)) : Prop :=
  (∃ n, Paced plan deadline n log) ∧
    ∀ k now h, HintAsked plan k now h log → ¬ Fits deadline (now + h) → ∃ e, r = .error e

def Applicant.Paced (plan : Plan T E) (deadline : Option Nat) (time : Nat)
    (log : List (Obs T E)) : Applicant E → Prop
  | .operation => Idle log
  | .attempt d a => Rested plan deadline time d log ∧ a.number = d.attemptNo

def Stage.Paced (plan : Plan T E) (deadline : Option Nat) (time : Nat) (log : List (Obs T E)) :
    Stage T E → Prop
  | .created | .operationsQueue _ => Idle log
  | .attemptsQueue d a _ => Rested plan deadline time d log ∧ a.number = d.attemptNo
  | .running d _ _ => Engaged plan deadline d log
  | .backingOff d wake => Pausing plan deadline d (Sufficient deadline wake) log
  | .returned r => Closed plan deadline r log
  | .dropped => (∃ n, ExecutionPolicy.Paced plan deadline n log) ∧
      ∀ k now h, HintAsked plan k now h log → Fits deadline (now + h)

def Spot.Paced (plan : Plan T E) (call : Call T E) (time : Nat) (log : List (Obs T E)) :
    Spot T E → Prop
  | .suspended => call.stage.Paced plan call.totalDeadline time log
  | .entering | .gating | .admitted _ => Idle log
  | .asking a | .waiting a _ | .granted a | .refused a =>
      a.Paced plan call.totalDeadline time log
  | .head d => Rested plan call.totalDeadline time d log
  | .starting d a _ => Rested plan call.totalDeadline time d log ∧ a.number = d.attemptNo
  | .ending d _ => Engaged plan call.totalDeadline d log
  | .judging d outcome _ => Pausing plan call.totalDeadline d (fun now h =>
      Hinted plan (d.seen outcome) time now h ∧ ∃ e, outcome = .completed (.error e)) log
  | .retrying d _ | .charging d _ | .pausing d =>
      Pausing plan call.totalDeadline d (Hinted plan d time) log
  | .drawn d raw => Pausing plan call.totalDeadline d (fun now h =>
      Hinted plan d time now h ∧ h ≤ raw) log
  | .scheduling d raw => Pausing plan call.totalDeadline d (fun now h =>
      now ≤ time ∧ h ≤ raw ∧ (Fits call.totalDeadline (now + h) ∨ Late call.totalDeadline time)) log
  | .scheduled d delay => Pausing plan call.totalDeadline d (fun now h =>
      Sufficient call.totalDeadline (time + delay) now h ∨
        Late call.totalDeadline time ∧ delay = 0) log
  | .dozing d wake =>
      Pausing plan call.totalDeadline d (Sufficient call.totalDeadline wake) log
  | .waking d => Pausing plan call.totalDeadline d (fun now h =>
      Sufficient call.totalDeadline time now h ∨ Late call.totalDeadline time) log
  | .exiting r | .leaving r => Closed plan call.totalDeadline r log

section Logs

variable {plan : Plan T E} {deadline : Option Nat} {n k now h time time' : Nat} {d : Drive E}
  {P P' : Nat → Nat → Prop} {log os : List (Obs T E)}

/-! ### Other observations -/

theorem mem_append_calm (hos : ∀ o ∈ os, o.isAttempt = false) {o : Obs T E}
    (ho : o.isAttempt = true) : o ∈ log ++ os ↔ o ∈ log := by
  rw [List.mem_append, or_iff_left]
  intro hmem
  rw [hos o hmem] at ho
  cases ho

theorem hintAsked_calm (hos : ∀ o ∈ os, o.isAttempt = false) :
    HintAsked plan k now h (log ++ os) ↔ HintAsked plan k now h log := by
  unfold HintAsked
  simp only [mem_append_calm hos (show Obs.isAttempt (.ended k _ now) = true from rfl)]

theorem Paced.calm (hp : Paced plan deadline n log) (hos : ∀ o ∈ os, o.isAttempt = false) :
    Paced plan deadline n (log ++ os) := by
  refine ⟨?_, ?_, ?_⟩
  · intro attempt clock hmem
    exact hp.started attempt clock ((mem_append_calm hos rfl).mp hmem)
  · intro k outcome now hmem
    exact hp.ended k outcome now ((mem_append_calm hos rfl).mp hmem)
  · intro k now h hasked hk
    obtain ⟨hfits, hkept⟩ := hp.kept k now h ((hintAsked_calm hos).mp hasked) hk
    refine ⟨hfits, fun attempt clock hmem hnumber => ?_⟩
    exact hkept attempt clock ((mem_append_calm hos rfl).mp hmem) hnumber

theorem Pausing.calm (hp : Pausing plan deadline d P log) (hos : ∀ o ∈ os, o.isAttempt = false) :
    Pausing plan deadline d P (log ++ os) :=
  ⟨hp.1.calm hos, fun now h hasked => hp.2 now h ((hintAsked_calm hos).mp hasked)⟩

theorem Pausing.imp (hp : Pausing plan deadline d P log) (himp : ∀ now h, P now h → P' now h) :
    Pausing plan deadline d P' log :=
  ⟨hp.1, fun now h hasked => himp now h (hp.2 now h hasked)⟩

theorem Rested.calm (hr : Rested plan deadline time d log) (hos : ∀ o ∈ os, o.isAttempt = false) :
    Rested plan deadline time d (log ++ os) :=
  ⟨hr.paced.calm hos, hr.pos, fun now h hasked => hr.waited now h ((hintAsked_calm hos).mp hasked)⟩

theorem Engaged.calm (he : Engaged plan deadline d log) (hos : ∀ o ∈ os, o.isAttempt = false) :
    Engaged plan deadline d (log ++ os) :=
  ⟨he.paced.calm hos, fun k outcome now hmem =>
    he.unended k outcome now ((mem_append_calm hos rfl).mp hmem)⟩

theorem Idle.calm (hi : Idle log) (hos : ∀ o ∈ os, o.isAttempt = false) : Idle (log ++ os) :=
  List.forall_mem_append.mpr ⟨hi, hos⟩

theorem Closed.calm {r : Except (ExecutionError E) T} (hc : Closed plan deadline r log)
    (hos : ∀ o ∈ os, o.isAttempt = false) : Closed plan deadline r (log ++ os) := by
  obtain ⟨⟨n, hp⟩, herr⟩ := hc
  exact ⟨⟨n, hp.calm hos⟩, fun k now h hasked => herr k now h ((hintAsked_calm hos).mp hasked)⟩

theorem Applicant.Paced.calm {a : Applicant E} (ha : a.Paced plan deadline time log)
    (hos : ∀ o ∈ os, o.isAttempt = false) : a.Paced plan deadline time (log ++ os) := by
  cases a with
  | operation => exact Idle.calm ha hos
  | attempt d attempt => exact ⟨ha.1.calm hos, ha.2⟩

theorem Stage.Paced.calm {stage : Stage T E} (hs : stage.Paced plan deadline time log)
    (hos : ∀ o ∈ os, o.isAttempt = false) : stage.Paced plan deadline time (log ++ os) := by
  cases stage with
  | created | operationsQueue => exact Idle.calm hs hos
  | attemptsQueue => exact ⟨hs.1.calm hos, hs.2⟩
  | running => exact Engaged.calm hs hos
  | backingOff => exact Pausing.calm hs hos
  | returned => exact Closed.calm hs hos
  | dropped =>
      obtain ⟨⟨n, hp⟩, hfits⟩ := hs
      exact ⟨⟨n, hp.calm hos⟩, fun k now h hasked => hfits k now h ((hintAsked_calm hos).mp hasked)⟩

theorem Spot.Paced.calm {call : Call T E} {spot : Spot T E} (hs : spot.Paced plan call time log)
    (hos : ∀ o ∈ os, o.isAttempt = false) : spot.Paced plan call time (log ++ os) := by
  cases spot with
  | suspended => exact Stage.Paced.calm hs hos
  | entering | gating | admitted => exact Idle.calm hs hos
  | asking | waiting | granted | refused => exact Applicant.Paced.calm hs hos
  | head => exact Rested.calm hs hos
  | starting => exact ⟨hs.1.calm hos, hs.2⟩
  | ending => exact Engaged.calm hs hos
  | judging | retrying | charging | pausing | drawn | scheduling | scheduled | dozing | waking =>
      exact Pausing.calm hs hos
  | exiting | leaving => exact Closed.calm hs hos

/-! ### Time going by -/

theorem Late.mono (hl : Late deadline time) (hle : time ≤ time') : Late deadline time' := by
  obtain ⟨t, ht, hlt⟩ := hl
  exact ⟨t, ht, Nat.lt_of_lt_of_le hlt hle⟩

theorem Hinted.mono (hh : Hinted plan d time now h) (hle : time ≤ time') :
    Hinted plan d time' now h := ⟨hh.1, Nat.le_trans hh.2 hle⟩

theorem Sufficient.mono {wake wake' : Nat} (hs : Sufficient deadline wake now h)
    (hle : wake ≤ wake') : Sufficient deadline wake' now h := by
  obtain ⟨hfits, hover | ⟨t, ht, hreached⟩⟩ := hs
  · exact ⟨hfits, .inl (Nat.le_trans hover hle)⟩
  · exact ⟨hfits, .inr ⟨t, ht, Nat.le_trans hreached hle⟩⟩

theorem Rested.mono (hr : Rested plan deadline time d log) (hle : time ≤ time') :
    Rested plan deadline time' d log := by
  refine ⟨hr.paced, hr.pos, fun now h hasked => ?_⟩
  obtain ⟨hfits, hover⟩ := hr.waited now h hasked
  exact ⟨hfits, Nat.le_trans hover hle⟩

theorem Applicant.Paced.mono {a : Applicant E} (ha : a.Paced plan deadline time log)
    (hle : time ≤ time') : a.Paced plan deadline time' log := by
  cases a with
  | operation => exact ha
  | attempt d attempt => exact ⟨ha.1.mono hle, ha.2⟩

theorem Spot.Paced.mono {call : Call T E} {spot : Spot T E} (hs : spot.Paced plan call time log)
    (hle : time ≤ time') : spot.Paced plan call time' log := by
  cases spot with
  | suspended =>
      simp only [Spot.Paced] at hs ⊢
      cases hstage : call.stage with
      | attemptsQueue d attempt timers =>
          rw [hstage] at hs
          exact ⟨hs.1.mono hle, hs.2⟩
      | _ =>
          rw [hstage] at hs
          exact hs
  | asking | waiting | granted | refused => exact Applicant.Paced.mono hs hle
  | head => exact Rested.mono hs hle
  | starting => exact ⟨hs.1.mono hle, hs.2⟩
  | judging => exact Pausing.imp hs fun now h hp => ⟨hp.1.mono hle, hp.2⟩
  | retrying | charging | pausing => exact Pausing.imp hs fun now h hp => hp.mono hle
  | drawn => exact Pausing.imp hs fun now h hp => ⟨hp.1.mono hle, hp.2⟩
  | scheduling =>
      exact Pausing.imp hs fun now h hp =>
        ⟨Nat.le_trans hp.1 hle, hp.2.1, hp.2.2.imp_right fun hl => hl.mono hle⟩
  | scheduled =>
      exact Pausing.imp hs fun now h hp =>
        hp.imp (fun hs => hs.mono (Nat.add_le_add_right hle _)) fun hl => ⟨hl.1.mono hle, hl.2⟩
  | waking =>
      exact Pausing.imp hs fun now h hp => hp.imp (fun hs => hs.mono hle) fun hl => hl.mono hle
  | _ => exact hs

/-! ### Attempts -/

theorem paced_of_idle (hi : Idle log) (n : Nat) : Paced plan deadline n log := by
  refine ⟨?_, ?_, ?_⟩
  · intro attempt clock hmem
    cases hi _ hmem
  · intro k outcome now hmem
    cases hi _ hmem
  · rintro k now h ⟨e, hmem, _⟩
    cases hi _ hmem

theorem closed_of_idle (hi : Idle log) (r : Except (ExecutionError E) T) :
    Closed plan deadline r log := by
  refine ⟨⟨0, paced_of_idle hi 0⟩, ?_⟩
  rintro k now h ⟨e, hmem, _⟩
  cases hi _ hmem

theorem Rested.engaged (hr : Rested plan deadline time d log) {attempt : Attempt}
    (hnumber : attempt.number = d.attemptNo) :
    Engaged plan deadline d (log ++ [.started attempt time]) := by
  have hpos := hr.pos
  have hold : ∀ {k outcome now}, Obs.ended k outcome now ∈ log ++ [.started attempt time] →
      Obs.ended k outcome now ∈ log := by
    intro k outcome now hmem
    simpa using hmem
  refine ⟨⟨?_, ?_, ?_⟩, ?_⟩
  · intro attempt' clock hmem
    rcases List.mem_append.mp hmem with hmem | hmem
    · have := hr.paced.started attempt' clock hmem
      omega
    · cases List.mem_singleton.mp hmem
      exact Nat.le_of_eq hnumber
  · intro k outcome now hmem
    have := hr.paced.ended k outcome now (hold hmem)
    omega
  · rintro k now h ⟨e, hmem, hhint⟩ hk
    have hasked : HintAsked plan k now h log := ⟨e, hold hmem, hhint⟩
    by_cases hlast : k = d.attemptNo - 1
    · subst hlast
      obtain ⟨hfits, hover⟩ := hr.waited now h hasked
      refine ⟨hfits, fun attempt' clock hstart hsucc => ?_⟩
      rcases List.mem_append.mp hstart with hstart | hstart
      · have := hr.paced.started attempt' clock hstart
        omega
      · cases List.mem_singleton.mp hstart
        exact hover
    · obtain ⟨hfits, hkept⟩ := hr.paced.kept k now h hasked (by omega)
      refine ⟨hfits, fun attempt' clock hstart hsucc => ?_⟩
      rcases List.mem_append.mp hstart with hstart | hstart
      · exact hkept attempt' clock hstart hsucc
      · cases List.mem_singleton.mp hstart
        omega
  · intro k outcome now hmem
    have := hr.paced.ended k outcome now (hold hmem)
    omega

theorem Engaged.pausing (he : Engaged plan deadline d log) (outcome : AttemptOutcome T E) :
    Pausing plan deadline d (fun now h =>
        Hinted plan (d.seen outcome) time now h ∧ ∃ e, outcome = .completed (.error e))
      (log ++ [.ended d.attemptNo outcome time]) := by
  have hstart : ∀ {attempt clock}, Obs.started attempt clock ∈
      log ++ [.ended d.attemptNo outcome time] → Obs.started attempt clock ∈ log := by
    intro attempt clock hmem
    simpa using hmem
  refine ⟨⟨?_, ?_, ?_⟩, ?_⟩
  · exact fun attempt clock hmem => he.paced.started attempt clock (hstart hmem)
  · intro k outcome' now hmem
    rcases List.mem_append.mp hmem with hmem | hmem
    · exact he.paced.ended k outcome' now hmem
    · cases List.mem_singleton.mp hmem
      exact Nat.le_refl _
  · rintro k now h ⟨e, hmem, hhint⟩ hk
    rcases List.mem_append.mp hmem with hmem | hmem
    · obtain ⟨hfits, hkept⟩ := he.paced.kept k now h ⟨e, hmem, hhint⟩ hk
      exact ⟨hfits, fun attempt clock hmem => hkept attempt clock (hstart hmem)⟩
    · cases List.mem_singleton.mp hmem
      omega
  · rintro now h ⟨e, hmem, hhint⟩
    rcases List.mem_append.mp hmem with hmem | hmem
    · have := he.unended _ _ _ hmem
      omega
    · cases List.mem_singleton.mp hmem
      exact ⟨⟨hhint, Nat.le_refl _⟩, e, rfl⟩

theorem Paced.closed (hp : Paced plan deadline n log) (e : ExecutionError E) :
    Closed plan deadline (.error e : Except (ExecutionError E) T) log :=
  ⟨⟨n, hp⟩, fun _ _ _ _ _ => ⟨e, rfl⟩⟩

/-- Every delay is at least what the carried error asks for. -/
theorem hint_le_delay {plan : Plan T E} {attempt : Nat} {rng : UInt64} {lastErr : Option E}
    (hh : lastErr.bind plan.retry.retryAfterHint = some h) :
    h ≤ plan.retry.delay attempt rng lastErr := by
  simp only [Retry.delay, hh]
  split <;> omega

/-- What the attempts before asked for was kept, so only the last can have asked for more
than the deadline leaves. -/
theorem Pausing.closed {r : Except (ExecutionError E) T} (hp : Pausing plan deadline d P log)
    (hr : ∀ now h, P now h → ¬ Fits deadline (now + h) → ∃ e, r = .error e) :
    Closed plan deadline r log := by
  refine ⟨⟨_, hp.1⟩, fun k now h hasked hlate => ?_⟩
  have hle : k ≤ d.attemptNo := by
    obtain ⟨e, hmem, _⟩ := hasked
    exact hp.1.ended k _ now hmem
  rcases Nat.lt_or_eq_of_le hle with hlt | rfl
  · exact absurd (hp.1.kept k now h hasked hlt).1 hlate
  · exact hr now h (hp.2 now h hasked) hlate

@[simp] theorem cappedDelay_none (raw now : Nat) : cappedDelay none raw now = raw := rfl

@[simp] theorem cappedDelay_some (t raw now : Nat) :
    cappedDelay (some t) raw now = min raw (t - now) := rfl

theorem sufficient_cappedDelay {raw : Nat} (hnow : now ≤ time) (hh : h ≤ raw)
    (hfits : Fits deadline (now + h)) :
    Sufficient deadline (time + cappedDelay deadline raw time) now h := by
  refine ⟨hfits, ?_⟩
  cases deadline with
  | none =>
      rw [cappedDelay_none]
      exact .inl (by omega)
  | some t =>
      have hdue := hfits t rfl
      rw [cappedDelay_some]
      rcases Nat.le_total raw (t - time) with hle | hle
      · exact .inl (by omega)
      · exact .inr ⟨t, rfl, by omega⟩

theorem Pausing.rested (hp : Pausing plan deadline d
      (fun now h => Sufficient deadline time now h ∨ Late deadline time) log)
    (hbefore : ¬ Reached deadline time) :
    Rested plan deadline time { d with attemptNo := d.attemptNo + 1 } log := by
  refine ⟨hp.1, Nat.succ_pos _, fun now h hasked => ?_⟩
  rcases hp.2 now h hasked with ⟨hfits, hover | hreached⟩ | ⟨t, ht, hlt⟩
  · exact ⟨hfits, hover⟩
  · exact absurd hreached hbefore
  · exact absurd ⟨t, ht, Nat.le_of_lt hlt⟩ hbefore

end Logs

/-! ## One hop -/

section Hops

variable {plan : Plan T E} {id : Nat} {c c' : Cursor T E} {log os : List (Obs T E)}

theorem Hop.paced_calm (hop : Hop plan id c os c') (hcalm : ∀ o ∈ os, o.isAttempt = false)
    (h : c.spot.Paced plan c.call c.shared.core.time log) :
    c'.spot.Paced plan c'.call c'.shared.core.time log := by
  cases hop with
  | core hk => exact h.mono hk.later
  | work spent => exact h.mono (Nat.le_add_right _ _)
  | begin hs => simpa [Spot.Paced, Stage.Paced, hs] using h
  | @repoll call a k timers hs =>
      cases a <;> simpa [Spot.Paced, Stage.Paced, Applicant.Paced, hs, Applicant.queue] using h
  | @park call a k timers hfree => cases a <;> exact h
  | refuseOperation now | turnAway now => exact closed_of_idle h _
  | refuseAttempt now => exact h.1.paced.closed _
  | deposit =>
      refine ⟨paced_of_idle h _, Nat.le_refl 1, ?_⟩
      rintro now h' ⟨e, hmem, _⟩
      cases h _ hmem
  | headFree hc => exact ⟨h, rfl⟩
  | headAsk hc => exact ⟨h, rfl⟩
  | pend timers hs => simpa [Spot.Paced, Stage.Paced, hs] using h
  | @cease call d permit timers k outcome hs =>
      cases permit <;> simpa [Spot.Paced, Stage.Paced, hs] using h
  | @settle call d outcome now k hstop =>
      refine Pausing.closed h fun now' h' hp _ => ?_
      obtain ⟨_, e, rfl⟩ := hp
      exact ⟨_, rfl⟩
  | retry hgo => exact Pausing.imp h fun now h' hp => hp.1
  | @elapsed call d now k hout =>
      refine Pausing.closed h fun _ _ _ _ => ?_
      cases d.lastError <;> exact ⟨_, rfl⟩
  | inTime hin => exact h
  | deny hb hw => exact h.1.closed _
  | unbudgeted hb => exact h
  | draw rng => exact Pausing.imp h fun now h' hp => ⟨hp, hint_le_delay hp.1⟩
  | @unbounded call d raw k hd =>
      refine Pausing.imp h fun now h' hp => ⟨hp.1.2, hp.2, .inl fun t ht => ?_⟩
      cases hd.symm.trans ht
  | bail now => exact h.1.closed _
  | @fits call d raw k deadline hd hle =>
      refine Pausing.imp h fun now h' hp => ⟨hp.1.2, hp.2, ?_⟩
      have hroom : h' ≤ deadline - k.core.time := hle h' hp.1.1
      have hnow : now ≤ k.core.time := hp.1.2
      rcases Nat.lt_or_ge deadline k.core.time with hlate | hearly
      · exact .inr ⟨deadline, hd, hlate⟩
      · refine .inl fun t ht => ?_
        cases hd.symm.trans ht
        omega
  | @schedule call d raw k =>
      refine Pausing.imp h fun now h' hp => ?_
      obtain ⟨hnow, hh, hfits | ⟨t, ht, hlt⟩⟩ := hp
      · exact .inl (sufficient_cappedDelay hnow hh hfits)
      · refine .inr ⟨⟨t, ht, hlt⟩, ?_⟩
        have hlt' : t < k.core.time := hlt
        rw [ht, cappedDelay_some]
        omega
  | skip => exact Pausing.imp h fun now h' hp => hp.imp_right And.left
  | sleep hpos =>
      refine Pausing.imp h fun now h' hp => hp.resolve_right fun hl => ?_
      omega
  | nap => exact h
  | rouse hs => simpa [Spot.Paced, Stage.Paced, hs] using h
  | wake hw => exact Pausing.imp h fun now h' hp => .inl (hp.mono hw)
  | again hd =>
      refine Pausing.rested h ?_
      rintro ⟨t, ht, _⟩
      cases hd.symm.trans ht
  | resume hd hlt =>
      refine Pausing.rested h ?_
      rintro ⟨t, ht, hle⟩
      cases hd.symm.trans ht
      exact absurd hlt (Nat.not_lt_of_le hle)
  | expire now => exact h.1.closed _
  | leave => exact h
  | start | noteEnd => cases hcalm _ (List.mem_singleton_self _)
  | _ => exact h

theorem Hop.paced (hop : Hop plan id c os c')
    (h : c.spot.Paced plan c.call c.shared.core.time log) :
    c'.spot.Paced plan c'.call c'.shared.core.time (log ++ os) := by
  have hrest : (∀ o ∈ os, o.isAttempt = false) →
      c'.spot.Paced plan c'.call c'.shared.core.time (log ++ os) :=
    fun hcalm => (hop.paced_calm hcalm h).calm hcalm
  rcases hop.calm with ⟨call, d, attempt, permit, k, rfl, rfl, rfl⟩ |
    ⟨call, d, outcome, k, rfl, rfl, rfl⟩ | hcalm
  · exact Rested.engaged h.1 h.2
  · exact Engaged.pausing h _
  · exact hrest hcalm

/-- Where a call that is not over can be dropped, all it was asked to wait for fits. -/
theorem Stage.Paced.dropped {deadline : Option Nat} {time : Nat} {stage : Stage T E}
    (h : stage.Paced plan deadline time log) (hover : stage.isOver = false) :
    Stage.Paced plan deadline time log (.dropped : Stage T E) := by
  cases stage with
  | created | operationsQueue =>
      refine ⟨⟨0, paced_of_idle h 0⟩, ?_⟩
      rintro k now h' ⟨e, hmem, _⟩
      cases h _ hmem
  | attemptsQueue d attempt timers =>
      obtain ⟨hrested, _⟩ := h
      refine ⟨⟨_, hrested.paced⟩, fun k now h' hasked => ?_⟩
      have hle : k ≤ d.attemptNo - 1 := by
        obtain ⟨e, hmem, _⟩ := hasked
        exact hrested.paced.ended k _ now hmem
      rcases Nat.lt_or_eq_of_le hle with hlt | rfl
      · exact (hrested.paced.kept k now h' hasked hlt).1
      · exact (hrested.waited now h' hasked).1
  | running d permit timers =>
      obtain ⟨hpaced, hunended⟩ := h
      refine ⟨⟨_, hpaced⟩, fun k now h' hasked => ?_⟩
      have hlt : k < d.attemptNo := by
        obtain ⟨e, hmem, _⟩ := hasked
        exact hunended k _ now hmem
      exact (hpaced.kept k now h' hasked hlt).1
  | backingOff d wake =>
      obtain ⟨hpaced, hlast⟩ := h
      refine ⟨⟨_, hpaced⟩, fun k now h' hasked => ?_⟩
      have hle : k ≤ d.attemptNo := by
        obtain ⟨e, hmem, _⟩ := hasked
        exact hpaced.ended k _ now hmem
      rcases Nat.lt_or_eq_of_le hle with hlt | rfl
      · exact (hpaced.kept k now h' hasked hlt).1
      · exact (hlast now h' hasked).1
  | returned | dropped => cases hover

end Hops

/-! ## Over whole runs -/

theorem System.paced_run {plan : Plan T E} {start : Nat} {ls : List (System.Label T E)}
    {s : System T E} (hrun : run (System.step plan) (System.init plan start) ls = some s) :
    s.EachCall fun call log => call.stage.Paced plan call.totalDeadline s.shared.core.time log := by
  refine invariant_of_step (I := fun s : System T E => s.EachCall fun call log =>
      call.stage.Paced plan call.totalDeadline s.shared.core.time log)
    (System.eachCall_step_of_timedHops (Q := fun c log =>
      c.spot.Paced plan c.call c.shared.core.time log) ?_ ?_ ?_ ?_)
    (System.eachCall_init plan start _) hrun
  · intro k o ho
    rw [List.mem_singleton.mp ho]
    rfl
  · exact fun call k k' log hle h => Spot.Paced.mono h hle
  · exact fun id c os c' log hop h => hop.paced h
  · intro call k log hover h
    exact (Stage.Paced.dropped h hover).calm (by simp [Obs.isAttempt])

/-- What the stage of a call says about all its attempts. -/
theorem Stage.Paced.law {plan : Plan T E} {deadline : Option Nat} {time : Nat}
    {stage : Stage T E} {log : List (Obs T E)} (h : stage.Paced plan deadline time log) :
    (∃ n, ExecutionPolicy.Paced plan deadline n log) ∧
      ∀ k now h', HintAsked plan k now h' log → ¬ Fits deadline (now + h') →
        ∃ e, stage = .returned (.error e) := by
  by_cases hover : stage.isOver = false
  · obtain ⟨hpaced, hfits⟩ := Stage.Paced.dropped h hover
    exact ⟨hpaced, fun k now h' hasked hlate => absurd (hfits k now h' hasked) hlate⟩
  · cases stage with
    | returned r =>
        obtain ⟨hpaced, herr⟩ := h
        refine ⟨hpaced, fun k now h' hasked hlate => ?_⟩
        obtain ⟨e, rfl⟩ := herr k now h' hasked hlate
        exact ⟨e, rfl⟩
    | dropped =>
        obtain ⟨hpaced, hfits⟩ := h
        exact ⟨hpaced, fun k now h' hasked hlate => absurd (hfits k now h' hasked) hlate⟩
    | _ => exact absurd rfl hover

/-- In every run, after an attempt `k` that ended at `now` with an error that asks to wait
for `h`: attempt `k + 1`, when there is one, starts at `now + h` or later and `now + h` is
not past the deadline; when it is past the deadline, the call has ended with an error. -/
theorem retry_after_honoured (plan : Plan T E) (start : Nat) (ls : List (System.Label T E))
    (s : System T E) (hrun : run (System.step plan) (System.init plan start) ls = some s)
    (i : Nat) (call : Call T E) (hi : s.calls[i]? = some call) (k now h : Nat) (e : E)
    (hended : Obs.ended k (.completed (.error e)) now ∈ s.logOf i)
    (hhint : plan.retry.retryAfterHint e = some h) :
    (∀ attempt clock, Obs.started attempt clock ∈ s.logOf i → attempt.number = k + 1 →
      now + h ≤ clock ∧ ∀ t, call.totalDeadline = some t → now + h ≤ t) ∧
    ∀ t, call.totalDeadline = some t → t < now + h →
      ∃ err, call.stage = .returned (.error err) := by
  obtain ⟨⟨n, hpaced⟩, hclosed⟩ := ((System.paced_run hrun).2 i call hi).law
  have hasked : HintAsked plan k now h (s.logOf i) := ⟨e, hended, hhint⟩
  constructor
  · intro attempt clock hstart hnumber
    have hle := hpaced.started attempt clock hstart
    obtain ⟨hfits, hkept⟩ := hpaced.kept k now h hasked (by omega)
    exact ⟨hkept attempt clock hstart hnumber, hfits⟩
  · intro t ht hlt
    refine hclosed k now h hasked fun hfits => ?_
    have := hfits t ht
    omega

/-- Three attempts 2 ns apart, 10 ns in all; an error is the time it asks to wait for. -/
def polite : Plan Nat Nat where
  retry := { Retry.fixed 2 with retryAfter := some some }
  attemptTimeout := none
  totalTimeout := some 10
  breaker := none
  concurrency := none
  onEvent := true
  maxAttempts_pos := Plan.threeAttempts_pos
  timeouts_ordered := Plan.tenInAll_ordered

def toldToWait : List (System.Label Nat Nat) :=
  [.call, .poll 0 .pending, .poll 0 (.answer 1 (.error 5)), .elapse 5, .poll 0 .pending]

def afterWaiting : System Nat Nat :=
  (run (System.step polite) (System.init polite 0) toldToWait).get rfl

theorem retry_after_honoured_once :
    ∃ attempt clock, Obs.started attempt clock ∈ afterWaiting.logOf 0 ∧ attempt.number = 2 ∧
      1 + 5 ≤ clock := by
  have hsecond : Obs.started { number := 2, start := 0, now := 6 } 6 ∈ afterWaiting.logOf 0 :=
    List.mem_of_getElem? (i := 7) rfl
  refine ⟨_, _, hsecond, rfl, ?_⟩
  exact ((retry_after_honoured polite 0 toldToWait afterWaiting rfl 0 _ rfl 1 1 5 5
    (List.mem_of_getElem? (i := 2) rfl) rfl).1 _ _ hsecond rfl).1

/-! ## Whose hint it is -/

/-- The backoff drawn after an attempt, before any hint. -/
def Retry.jittered (r : Retry T E) (attempt : Nat) (rng : UInt64) : Nat :=
  r.jitter.apply (r.backoff.rawDelay attempt) rng

/-- What the wait after an attempt should be by that attempt alone: the hint of the error it
returned, if any, as a floor under the backoff. -/
def Retry.ownDelay (r : Retry T E) (attempt : Nat) (rng : UInt64)
    (outcome : AttemptOutcome T E) : Nat :=
  match outcome.error?.bind r.retryAfterHint with
  | .some h => max (r.jittered attempt rng) h
  | .none => r.jittered attempt rng

theorem Retry.delay_eq (r : Retry T E) (attempt : Nat) (rng : UInt64) (lastErr : Option E) :
    r.delay attempt rng lastErr =
      max (r.jittered attempt rng) ((lastErr.bind r.retryAfterHint).getD 0) := by
  unfold Retry.delay
  cases lastErr.bind r.retryAfterHint with
  | none => simp [Retry.jittered]
  | some h =>
      simp only [Retry.jittered, Option.getD_some]
      split <;> omega

/-- The hint asks for more than the deadline leaves at the reading. -/
def Overshoots (deadline : Option Nat) (reading hint : Nat) : Prop :=
  ∃ t, deadline = some t ∧ Instant.durationSince t reading < hint

section Delay

variable {plan : Plan T E} {call : Call T E} {d : Drive E} {f : Frame T E}

theorem hintGuard_raw : (hintGuard plan call d f).1.2 =
    plan.retry.delay d.attemptNo f.core.nextU64.1 d.lastError := by
  unfold hintGuard
  dsimp only
  split
  · rfl
  · split
    · split <;> rfl
    · rfl

theorem hintGuard_exits_iff : (∃ r, (hintGuard plan call d f).1.1 = .exit r) ↔
    ∃ h, d.lastError.bind plan.retry.retryAfterHint = some h ∧
      Overshoots call.totalDeadline f.core.nextU64.2.tick.time h := by
  unfold hintGuard
  dsimp only
  split
  next hd =>
    refine iff_of_false (by rintro ⟨r, ⟨⟩⟩) ?_
    rintro ⟨h, _, t, ht, _⟩
    cases hd.symm.trans ht
  next t hd =>
    split
    next h hh =>
      split
      next hlt => exact iff_of_true ⟨_, rfl⟩ ⟨h, hh, t, hd, hlt⟩
      next hge =>
        refine iff_of_false (by rintro ⟨r, ⟨⟩⟩) ?_
        rintro ⟨h', hh', t', ht', hlt⟩
        cases hd.symm.trans ht'
        cases hh.symm.trans hh'
        exact hge hlt
    next hh =>
      refine iff_of_false (by rintro ⟨r, ⟨⟩⟩) ?_
      rintro ⟨h', hh', _⟩
      cases hh.symm.trans hh'

theorem afterNoted_of_next (id : Nat) {outcome : AttemptOutcome T E} {now : Nat}
    {f f₁ f₂ f₃ : Frame T E} {d d₁ d₂ d₃ : Drive E}
    (hmatch : matchOutcome plan call.start d now outcome f = (.next d₁, f₁))
    (helapsed : maxElapsedGuard plan call.start now d₁ f₁ = (.next d₂, f₂))
    (hbudget : budgetGuard plan call.start now d₂ f₂ = (.next d₃, f₃)) :
    d₃ = d.seen outcome ∧ afterNoted plan id call d outcome now f =
      match hintGuard plan call d₃ f₃ with
      | ((.exit r, _), g) => finish plan call r g
      | ((.next d, raw), g) => backOff plan id call d raw g := by
  constructor
  · have hfirst : d₁ = d.seen outcome := by
      by_cases hgo : GoesOn plan d.attemptNo outcome
      · rw [matchOutcome_of_goesOn hgo] at hmatch
        cases hmatch
        rfl
      · rw [matchOutcome_of_stop hgo] at hmatch
        cases hmatch
    have hsecond : d₂ = d₁ := by
      unfold maxElapsedGuard at helapsed
      split at helapsed
      · split at helapsed <;> cases helapsed
        rfl
      · cases helapsed
        rfl
    have hthird : d₃ = d₂ := by
      unfold budgetGuard at hbudget
      split at hbudget
      · split at hbudget <;> cases hbudget
        rfl
      · cases hbudget
        rfl
    rw [hthird, hsecond, hfirst]
  · rcases hhint : hintGuard plan call d₃ f₃ with ⟨⟨_ | _, _⟩, _⟩ <;>
      simp only [afterNoted, hmatch, helapsed, hbudget, hhint]

end Delay

/-- In every state of every run, for a call in an attempt and every way the attempt can end
after which the loop comes to its delay, at whatever readings and draw: the delay and the
stop before it are those of this attempt alone if and only if the attempt itself returned
an error, or the hint of the error carried from an earlier one, if any, is neither above
the backoff nor above what the deadline leaves. -/
theorem wait_depends_on_own_attempt_iff (plan : Plan T E) (start : Nat)
    (ls : List (System.Label T E)) (s : System T E)
    (hrun : run (System.step plan) (System.init plan start) ls = some s)
    (i : Nat) (call : Call T E) (hi : s.calls[i]? = some call) (d : Drive E) (permit : Bool)
    (timers : Option AttemptTimers) (hstage : call.stage = .running d permit timers)
    (outcome : AttemptOutcome T E) (now : Nat) (f f₁ f₂ f₃ : Frame T E) (d₁ d₂ d₃ : Drive E)
    (hmatch : matchOutcome plan call.start d now outcome f = (.next d₁, f₁))
    (helapsed : maxElapsedGuard plan call.start now d₁ f₁ = (.next d₂, f₂))
    (hbudget : budgetGuard plan call.start now d₂ f₂ = (.next d₃, f₃)) :
    (∀ id, afterNoted plan id call d outcome now f =
      match hintGuard plan call d₃ f₃ with
      | ((.exit r, _), g) => finish plan call r g
      | ((.next d, raw), g) => backOff plan id call d raw g) ∧
    ((hintGuard plan call d₃ f₃).1.2 =
        plan.retry.ownDelay d.attemptNo f₃.core.nextU64.1 outcome ∧
      ((∃ r, (hintGuard plan call d₃ f₃).1.1 = .exit r) →
        ∃ h, outcome.error?.bind plan.retry.retryAfterHint = some h ∧
          Overshoots call.totalDeadline f₃.core.nextU64.2.tick.time h) ↔
    outcome.error? ≠ none ∨
      ∀ h, (carriedError (outcomes (s.logOf i))).bind plan.retry.retryAfterHint = some h →
        h ≤ plan.retry.jittered d.attemptNo f₃.core.nextU64.1 ∧
          ¬ Overshoots call.totalDeadline f₃.core.nextU64.2.tick.time h) := by
  have hcarried : d.lastError = carriedError (outcomes (s.logOf i)) := by
    have hfaithful := (System.faithful_run hrun).2 i call hi
    unfold Faithful at hfaithful
    rw [hstage] at hfaithful
    exact hfaithful.1
  refine ⟨fun id => (afterNoted_of_next id hmatch helapsed hbudget).2, ?_⟩
  obtain ⟨rfl, _⟩ := afterNoted_of_next 0 hmatch helapsed hbudget
  have hnumber : (d.seen outcome).attemptNo = d.attemptNo := rfl
  rw [hintGuard_exits_iff, hintGuard_raw, Retry.delay_eq, ← hcarried, hnumber]
  cases hown : outcome.error? with
  | some e =>
      have hlast : (d.seen outcome).lastError = some e := by simp [Drive.seen, hown]
      refine iff_of_true ⟨?_, ?_⟩ (.inl (by simp))
      · rw [hlast, Retry.ownDelay, hown]
        cases hh : (some e).bind plan.retry.retryAfterHint <;> simp
      · rw [hlast]
        exact id
  | none =>
      have hlast : (d.seen outcome).lastError = d.lastError := by simp [Drive.seen, hown]
      rw [hlast, Retry.ownDelay, hown]
      cases hh : d.lastError.bind plan.retry.retryAfterHint with
      | none => simp
      | some h => simp

theorem impatient_ordered :
    ∀ a t, some 1 = some a → (none : Option Nat) = some t → a ≤ t := Plan.unbounded_ordered (some 1)

/-- Three attempts of 1 ns at most, 2 ns apart; an error is the time it asks to wait for. -/
def impatient : Plan Nat Nat where
  retry := { Retry.fixed 2 with retryAfter := some some }
  attemptTimeout := some 1
  totalTimeout := none
  breaker := none
  concurrency := none
  onEvent := true
  maxAttempts_pos := Plan.threeAttempts_pos
  timeouts_ordered := impatient_ordered

/-- The first attempt is told to wait for 5 ns; the second is polled once. -/
def secondPends : List (System.Label Nat Nat) :=
  [.call, .poll 0 .pending, .poll 0 (.answer 0 (.error 5)), .elapse 5, .poll 0 .pending,
    .poll 0 .pending]

def whileSecondPends : System Nat Nat :=
  (run (System.step impatient) (System.init impatient 0) secondPends).get rfl

/-- The locals of the loop once the second attempt has asked for 7 ns. -/
def secondAsks : Drive Nat where
  breakerState := .disabled
  lastDelay := some 5
  lastError := some 7
  attemptNo := 2

theorem wait_depends_on_own_attempt_iff_error :
    ∃ call f, whileSecondPends.calls[0]? = some call ∧
      (hintGuard impatient call secondAsks f).1.2 =
        impatient.retry.ownDelay 2 0 (.completed (.error 7) : AttemptOutcome Nat Nat) := by
  let f := whileSecondPends.frame [] []
  let g := f.emit impatient (.attemptFailed 2)
  refine ⟨_, g, rfl, ?_⟩
  exact (((wait_depends_on_own_attempt_iff impatient 0 secondPends whileSecondPends rfl 0 _ rfl
    _ _ _ rfl (.completed (.error 7)) 5 f g g g secondAsks secondAsks secondAsks
    rfl rfl rfl).2).mpr (.inl nofun)).1

/-- The second attempt times out; the wait after it is what the first was told. -/
theorem timed_out_attempt_waits_for_old_hint :
    ∃ s, run (System.step impatient) (System.init impatient 0)
        (secondPends ++ [.elapse 1, .poll 0 .pending]) = some s ∧
      Obs.ended 2 .attemptTimeout 6 ∈ s.logOf 0 ∧
      Obs.event (.retryScheduled 2 5) ∈ s.logOf 0 ∧
      ∀ rng, impatient.retry.ownDelay 2 rng (.attemptTimeout : AttemptOutcome Nat Nat) = 2 := by
  refine ⟨_, rfl, List.mem_of_getElem? (i := 6) rfl, List.mem_of_getElem? (i := 8) rfl, ?_⟩
  exact fun rng => rfl

end ExecutionPolicy
