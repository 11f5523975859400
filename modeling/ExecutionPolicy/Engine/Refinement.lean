import ExecutionPolicy.Breaker.Circuit
import ExecutionPolicy.Engine.Hops

/-! # The engine refines the circuit

What the calls of a plan do to their breaker, read off the trace, is a run of the
circuit: every call asks the gate at most once, and an admitted call then records
one outcome or is over without one. Whatever holds of every run of the circuit thus
holds of the breaker of every plan.
-/

namespace ExecutionPolicy

open StepSystem

variable {T E : Type}

/-- What an observation of call `i` means to the breaker. -/
def Obs.toBreaker (i : Nat) : Obs T E → Option Circuit.Label
  | .arrived => some .arrive
  | .gated now => some (.gate i now)
  | .votedSuccess now => some (.success i now)
  | .votedFailure now => some (.failure i now)
  | .unrecorded => some (.abandon i)
  | _ => none

def breakerLabels (trace : List (Nat × Obs T E)) : List Circuit.Label :=
  trace.filterMap fun p => p.2.toBreaker p.1

def Stage.isAdmitted : Stage T E → Bool
  | .attemptsQueue _ _ _ => true
  | .running _ _ _ => true
  | .backingOff _ _ => true
  | _ => false

def Matches : Stage T E → Standing → Prop
  | .created, st => st = .waiting
  | .operationsQueue _, st => st = .waiting
  | .attemptsQueue d _ _, st => ∃ e, st = .admitted d.breakerState e
  | .running d _ _, st => ∃ e, st = .admitted d.breakerState e
  | .backingOff d _, st => ∃ e, st = .admitted d.breakerState e
  | .returned _, st => st.isAdmitted = false
  | .dropped, st => st.isAdmitted = false

theorem Matches.isAdmitted {stage : Stage T E} {st : Standing} (h : Matches stage st) :
    st.isAdmitted = stage.isAdmitted := by
  cases stage with
  | created =>
      rw [show st = .waiting from h]
      rfl
  | operationsQueue timers =>
      rw [show st = .waiting from h]
      rfl
  | attemptsQueue d attempt timers =>
      obtain ⟨e, rfl⟩ := h
      rfl
  | running d permit timers =>
      obtain ⟨e, rfl⟩ := h
      rfl
  | backingOff d wake =>
      obtain ⟨e, rfl⟩ := h
      rfl
  | returned r => exact h
  | dropped => exact h

/-! ## One call -/

/-- The circuit follows the log of call `i` from `c₀` to the breaker of `f`, where the
call stands at `st` and nobody else has moved. -/
def Tracked (cfg : BreakerConfig) (i : Nat) (c₀ : Circuit) (f : Frame T E) (st : Standing) :
    Prop :=
  ∃ c, run (Circuit.step cfg) c₀ (f.log.filterMap (Obs.toBreaker i)) = some c ∧
    c.breaker = f.breaker ∧ c.calls = c₀.calls.set i st

section Calls

variable {cfg : BreakerConfig} {i : Nat} {c₀ : Circuit} {st : Standing}

theorem tracked_start {f : Frame T E} (hlog : f.log = []) (hbreaker : c₀.breaker = f.breaker)
    (hi : c₀.calls[i]? = some st) : Tracked cfg i c₀ f st := by
  refine ⟨c₀, by simp [hlog], hbreaker, ?_⟩
  obtain ⟨hlt, rfl⟩ := List.getElem?_eq_some_iff.mp hi
  exact (List.set_getElem_self hlt).symm

theorem Tracked.silent {f g : Frame T E} (h : Tracked cfg i c₀ f st) {os : List (Obs T E)}
    (hbreaker : g.breaker = f.breaker) (hlog : g.log = f.log ++ os)
    (hos : ∀ o ∈ os, o.toBreaker i = none) : Tracked cfg i c₀ g st := by
  obtain ⟨c, hrun, hc, hcalls⟩ := h
  have hnone : os.filterMap (Obs.toBreaker i) = [] := List.filterMap_eq_nil_iff.mpr hos
  refine ⟨c, ?_, hc.trans hbreaker.symm, hcalls⟩
  rw [hlog, List.filterMap_append, hnone, List.append_nil]
  exact hrun

theorem Tracked.quiet {f g : Frame T E} (h : Tracked cfg i c₀ f st) (hg : Quiet f g) :
    Tracked cfg i c₀ g st := by
  obtain ⟨os, hos, hquiet⟩ := hg.log
  refine h.silent hg.breaker hos fun o ho => ?_
  have hq := hquiet o ho
  cases o <;> simp_all [Obs.isQuiet, Obs.toBreaker]

theorem Tracked.note {f : Frame T E} (h : Tracked cfg i c₀ f st) (hi : i < c₀.calls.length)
    {o : Obs T E} {l : Circuit.Label} (hl : o.toBreaker i = some l) {b : BreakerRuntime}
    {st' : Standing}
    (hstep : ∀ c : Circuit, c.breaker = f.breaker → c.calls[i]? = some st →
      ∃ c', c.step cfg l = some c' ∧ c'.breaker = b ∧ c'.calls = c.calls.set i st') :
    Tracked cfg i c₀ ({ f with breaker := b }.note o) st' := by
  obtain ⟨c, hrun, hbreaker, hcalls⟩ := h
  have hst : c.calls[i]? = some st := by
    rw [hcalls, List.getElem?_set_self hi]
  obtain ⟨c', hc', hb, hcalls'⟩ := hstep c hbreaker hst
  refine ⟨c', ?_, hb, by rw [hcalls', hcalls, List.set_set]⟩
  have hlog : ({ f with breaker := b }.note o).log.filterMap (Obs.toBreaker i) =
      f.log.filterMap (Obs.toBreaker i) ++ [l] := by
    simp [Frame.note, hl]
  rw [hlog]
  exact run_snoc hrun hc'

theorem tracked_gated {f : Frame T E} (h : Tracked cfg i c₀ f .waiting)
    (hi : i < c₀.calls.length) (now : Nat) :
    ∃ st',
      Tracked cfg i c₀ ({ f with breaker := (f.breaker.gate cfg now).2 }.note (.gated now)) st' ∧
      (((f.breaker.gate cfg now).1 = .error () ∧ st' = .rejected) ∨
        ∃ s e, (f.breaker.gate cfg now).1 = .ok s ∧ st' = .admitted s e) := by
  obtain ⟨c, hrun, hbreaker, hcalls⟩ := h
  have hwait : c.calls[i]? = some .waiting := by
    rw [hcalls, List.getElem?_set_self hi]
  have hstep : c.step cfg (.gate i now) = some (c.gated cfg i now) := by
    simp [Circuit.step, hwait]
  have hlog : ∀ b, (({ f with breaker := b } : Frame T E).note (.gated now)).log.filterMap
      (Obs.toBreaker i) = f.log.filterMap (Obs.toBreaker i) ++ [.gate i now] := by
    intro b
    simp [Frame.note, Obs.toBreaker]
  rw [← hbreaker]
  rcases hg : c.breaker.gate cfg now with ⟨_ | s, b⟩
  · refine ⟨.rejected, ⟨c.gated cfg i now, ?_, ?_, ?_⟩, .inl ⟨rfl, rfl⟩⟩
    · rw [hlog]
      exact run_snoc hrun hstep
    · simp [Circuit.gated, hg, Frame.note]
    · simp [Circuit.gated, hg, hcalls, List.set_set]
  · refine ⟨.admitted s (if c.breaker.state = .open then c.episode + 1 else c.episode),
      ⟨c.gated cfg i now, ?_, ?_, ?_⟩, .inr ⟨s, _, rfl, rfl⟩⟩
    · rw [hlog]
      exact run_snoc hrun hstep
    · simp only [Circuit.gated, hg, Frame.note]
      split <;> rfl
    · simp only [Circuit.gated, hg, hcalls]
      split <;> simp [List.set_set]

theorem tracked_votedSuccess {f : Frame T E} {as : BreakerState} {e : Nat}
    (h : Tracked cfg i c₀ f (.admitted as e)) (hi : i < c₀.calls.length) (now : Nat) :
    Tracked cfg i c₀ ({ f with breaker := (f.breaker.recordSuccess cfg now).2 }.note
      (.votedSuccess now)) .recorded := by
  refine h.note hi rfl fun c hb hst => ⟨c.succeeded cfg i (.admitted as e) now, ?_, ?_, rfl⟩
  · simp [Circuit.step, hst]
  · rw [← hb]
    rfl

theorem tracked_votedFailure {f : Frame T E} {as : BreakerState} {e : Nat}
    (h : Tracked cfg i c₀ f (.admitted as e)) (hi : i < c₀.calls.length) (now : Nat) :
    Tracked cfg i c₀ ({ f with breaker := (f.breaker.recordFailure cfg now).2 }.note
      (.votedFailure now)) .recorded := by
  refine h.note hi rfl fun c hb hst => ⟨c.failed cfg i now, ?_, ?_, rfl⟩
  · simp [Circuit.step, hst]
  · rw [← hb]
    rfl

theorem tracked_unrecorded {f : Frame T E} (h : Tracked cfg i c₀ f st)
    (hi : i < c₀.calls.length) (hst : st = .waiting ∨ st.isAdmitted = true) :
    Tracked cfg i c₀ (f.note .unrecorded) .abandoned := by
  have hstep : ∀ c : Circuit, c.breaker = f.breaker → c.calls[i]? = some st →
      ∃ c', c.step cfg (.abandon i) = some c' ∧ c'.breaker = f.breaker ∧
        c'.calls = c.calls.set i .abandoned := by
    intro c hb hi'
    refine ⟨{ c with calls := c.calls.set i .abandoned }, ?_, hb, rfl⟩
    rcases hst with rfl | hadm
    · simp [Circuit.step, hi']
    · cases st with
      | admitted as e => simp [Circuit.step, hi']
      | _ => simp [Standing.isAdmitted] at hadm
  exact h.note hi rfl hstep

/-- The circuit follows to a standing that matches the stage the call is left in. -/
def Settled (cfg : BreakerConfig) (i : Nat) (c₀ : Circuit) (done : Call T E × Frame T E) : Prop :=
  ∃ st, Tracked cfg i c₀ done.2 st ∧ Matches done.1.stage st

theorem Plan.news_silent (plan : Plan T E) (es : List Event) :
    ∀ o ∈ (plan.news es : List (Obs T E)), o.toBreaker i = none :=
  Plan.forall_news fun _ _ => rfl

def Applicant.Matches (st : Standing) : Applicant E → Prop
  | .operation => st = .waiting
  | .attempt d _ => ∃ e, st = .admitted d.breakerState e

def Spot.Matches (call : Call T E) (st : Standing) : Spot T E → Prop
  | .suspended => ExecutionPolicy.Matches call.stage st
  | .entering | .gating => st = .waiting
  | .asking a | .waiting a _ | .granted a | .refused a => a.Matches st
  | .admitted s => ∃ e, st = .admitted s e
  | .head d | .starting d _ _ | .ending d _ | .judging d _ _ | .retrying d _ | .charging d _
  | .pausing d | .drawn d _ | .scheduling d _ | .scheduled d _ | .dozing d _ | .waking d =>
      ∃ e, st = .admitted d.breakerState e
  | .exiting _ => ∃ s e, st = .admitted s e
  | .leaving _ => st.isAdmitted = false

/-- The circuit follows to a standing that matches the spot the call is at. -/
def Cursor.Tracked (cfg : BreakerConfig) (i : Nat) (c₀ : Circuit) (c : Cursor T E)
    (log : List (Obs T E)) : Prop :=
  ∃ st, ExecutionPolicy.Tracked cfg i c₀ { c.shared with log } st ∧ c.spot.Matches c.call st

variable {plan : Plan T E} {b : CompiledBreaker E} {c c' : Cursor T E} {log os : List (Obs T E)}

theorem Hop.matches_silent (hb : plan.breaker = some b) (hop : Hop plan i c os c')
    (hos : ∀ o ∈ os, o.toBreaker i = none) (h : c.spot.Matches c.call st) :
    c'.shared.breaker = c.shared.breaker ∧ c'.spot.Matches c'.call st := by
  cases hop with
  | begin hs => exact ⟨rfl, by simpa [Spot.Matches, Matches, hs] using h⟩
  | @repoll call a k timers hs =>
      refine ⟨rfl, ?_⟩
      cases a <;> simpa [Spot.Matches, Matches, Applicant.Matches, hs, Applicant.queue] using h
  | @park call a => cases a <;> exact ⟨rfl, h⟩
  | refuseOperation now => cases hos _ (List.mem_cons_self ..)
  | pass | turnAway | voteSuccess | voteFailure => cases hos _ (List.mem_cons_self ..)
  | abstain => cases hos _ (List.mem_cons_self ..)
  | noGate hnone | noVote hnone => cases hb.symm.trans hnone
  | refuseAttempt | settle | elapsed | deny | bail | expire =>
      obtain ⟨e, rfl⟩ := h
      exact ⟨rfl, _, e, rfl⟩
  | pend timers hs => exact ⟨rfl, by simpa [Spot.Matches, Matches, hs] using h⟩
  | @cease call d permit timers k outcome hs =>
      refine ⟨by cases permit <;> rfl, ?_⟩
      simpa [Spot.Matches, Matches, hs] using h
  | rouse hs => exact ⟨rfl, by simpa [Spot.Matches, Matches, hs] using h⟩
  | @leave call r k => exact ⟨by dsimp only; split <;> rfl, h⟩
  | _ => exact ⟨rfl, h⟩

theorem Hop.tracked (hb : plan.breaker = some b) (hi : i < c₀.calls.length)
    (hop : Hop plan i c os c') (h : c.Tracked b.config i c₀ log) :
    c'.Tracked b.config i c₀ (log ++ os) := by
  obtain ⟨st, htracked, hst⟩ := h
  by_cases hos : ∀ o ∈ os, o.toBreaker i = none
  · obtain ⟨hbreaker, hmatch⟩ := hop.matches_silent hb hos hst
    exact ⟨st, htracked.silent hbreaker rfl hos, hmatch⟩
  · cases hop with
    | refuseOperation now =>
        cases hst
        have habandoned := tracked_unrecorded htracked hi (.inl rfl)
        exact ⟨_, habandoned.silent rfl (List.append_cons ..) (plan.news_silent _), rfl⟩
    | @pass call k b' s breaker hb' hg =>
        cases hb.symm.trans hb'
        cases hst
        obtain ⟨st', hgated, ⟨herr, _⟩ | ⟨s', e, hok, rfl⟩⟩ :=
          tracked_gated htracked hi k.core.time
        · cases (congrArg Prod.fst hg).symm.trans herr
        · cases (congrArg Prod.fst hg).symm.trans hok
          refine ⟨_, hgated.silent ?_ (List.append_cons ..) (plan.news_silent _), e, rfl⟩
          exact (congrArg Prod.snd hg).symm
    | @turnAway call k b' breaker now hb' hg =>
        cases hb.symm.trans hb'
        cases hst
        obtain ⟨st', hgated, ⟨_, rfl⟩ | ⟨s', e, hok, _⟩⟩ :=
          tracked_gated htracked hi k.core.time
        · refine ⟨_, hgated.silent ?_ (List.append_nil _).symm (by simp), rfl⟩
          exact (congrArg Prod.snd hg).symm
        · cases (congrArg Prod.fst hg).symm.trans hok
    | @voteSuccess call r k b' recorded hb' hv hrec =>
        cases hb.symm.trans hb'
        obtain ⟨s, e, rfl⟩ := hst
        subst hrec
        have hvoted := tracked_votedSuccess htracked hi k.core.time
        exact ⟨_, hvoted.silent rfl (List.append_cons ..) (plan.news_silent _), rfl⟩
    | @voteFailure call r k b' recorded hb' hv hrec =>
        cases hb.symm.trans hb'
        obtain ⟨s, e, rfl⟩ := hst
        subst hrec
        have hvoted := tracked_votedFailure htracked hi k.core.time
        exact ⟨_, hvoted.silent rfl (List.append_cons ..) (plan.news_silent _), rfl⟩
    | abstain hb' hv =>
        obtain ⟨s, e, rfl⟩ := hst
        exact ⟨_, tracked_unrecorded htracked hi (.inr rfl), rfl⟩
    | bail now =>
        exact (hos (List.forall_mem_cons.mpr ⟨rfl, plan.news_silent _⟩)).elim
    | refuseAttempt | settle | retry | elapsed | deny | schedule =>
        exact absurd (plan.news_silent _) hos
    | _ => exact absurd (by simp [Obs.toBreaker]) hos

theorem settled_pollCall (hb : plan.breaker = some b) (hi : i < c₀.calls.length)
    {call : Call T E} {script : Script T E} {f : Frame T E} {done : Call T E × Frame T E}
    (h : Tracked b.config i c₀ f st) (hst : Matches call.stage st)
    (hpoll : pollCall plan i call script f = some done) : Settled b.config i c₀ done :=
  (reaches_pollCall hpoll).keeps (Q := fun c log => c.Tracked b.config i c₀ log)
    (fun _ _ _ _ hop hc => hop.tracked hb hi hc) [] ⟨st, h, hst⟩

theorem settled_dropCall (hi : i < c₀.calls.length) {call : Call T E} {f : Frame T E}
    {done : Call T E × Frame T E} (h : Tracked cfg i c₀ f st) (hst : Matches call.stage st)
    (hdrop : dropCall call f = some done) : Settled cfg i c₀ done := by
  obtain ⟨hdone, g, hg, hlog⟩ := dropCall_cases hdrop
  have hlive : st = .waiting ∨ st.isAdmitted = true := by
    unfold dropCall at hdrop
    cases hstage : call.stage with
    | created =>
        rw [hstage] at hst
        exact .inl hst
    | operationsQueue timers =>
        rw [hstage] at hst
        exact .inl hst
    | returned r => simp [hstage] at hdrop
    | dropped => simp [hstage] at hdrop
    | _ => exact .inr (by rw [hst.isAdmitted, hstage]; rfl)
  refine ⟨.abandoned, ?_, by rw [hdone]; rfl⟩
  rw [hlog]
  exact tracked_unrecorded (h.quiet hg) hi hlive

end Calls

/-! ## The whole system -/

structure Linked (s : System T E) (c : Circuit) : Prop where
  breaker : c.breaker = s.shared.breaker
  length : c.calls.length = s.calls.length
  standing : ∀ (i : Nat) (call : Call T E) (st : Standing),
    s.calls[i]? = some call → c.calls[i]? = some st → Matches call.stage st

/-- The trace so far is a run of the circuit to where the system stands. -/
def Refines (cfg : BreakerConfig) (start : Nat) (s : System T E) : Prop :=
  ∃ c, run (Circuit.step cfg) (Circuit.init cfg start) (breakerLabels s.trace) = some c ∧
    Linked s c

theorem refines_settle {cfg : BreakerConfig} {start : Nat} {s : System T E} {c : Circuit}
    (hrun : run (Circuit.step cfg) (Circuit.init cfg start) (breakerLabels s.trace) = some c)
    (hlinked : Linked s c) {i : Nat} {done : Call T E × Frame T E}
    (hdone : Settled cfg i c done) : Refines cfg start (s.settle i done) := by
  obtain ⟨st, ⟨c', hrun', hbreaker, hcalls⟩, hmatch⟩ := hdone
  refine ⟨c', ?_, hbreaker, ?_, fun j call st' hj hj' => ?_⟩
  · have hlabels : breakerLabels (s.settle i done).trace =
        breakerLabels s.trace ++ done.2.log.filterMap (Obs.toBreaker i) := by
      simp [breakerLabels, System.settle, List.filterMap_append, List.filterMap_map]
    rw [hlabels]
    exact run_trans hrun hrun'
  · simp [hcalls, System.settle, hlinked.length]
  · rw [hcalls] at hj'
    rcases TaskPool.getElem?_set_cases hj with ⟨rfl, rfl⟩ | ⟨hij, hold⟩
    · rcases TaskPool.getElem?_set_cases hj' with ⟨_, rfl⟩ | ⟨hne, _⟩
      · exact hmatch
      · exact absurd rfl hne
    · rw [List.getElem?_set_ne hij] at hj'
      exact hlinked.standing j call st' hold hj'

theorem refines_step {plan : Plan T E} {b : CompiledBreaker E} (hb : plan.breaker = some b)
    (start : Nat) (s : System T E) (l : System.Label T E) (s' : System T E)
    (h : Refines b.config start s) (hstep : System.step plan s l = some s') :
    Refines b.config start s' := by
  obtain ⟨c, hrun, hlinked⟩ := h
  have htracked : ∀ (i : Nat) (call : Call T E) (f : Frame T E), s.calls[i]? = some call →
      f.log = [] → f.breaker = s.shared.breaker →
      ∃ st, i < c.calls.length ∧ Tracked b.config i c f st ∧ Matches call.stage st := by
    intro i call f hi hlog hbreaker
    have hlt : i < c.calls.length := hlinked.length ▸ (List.getElem?_eq_some_iff.mp hi).1
    have hst : c.calls[i]? = some c.calls[i] := List.getElem?_eq_getElem hlt
    exact ⟨_, hlt, tracked_start hlog (hlinked.breaker.trans hbreaker.symm) hst,
      hlinked.standing i call _ hi hst⟩
  cases l with
  | elapse d =>
      cases hstep
      exact ⟨c, hrun, hlinked.breaker, hlinked.length, hlinked.standing⟩
  | call =>
      cases hstep
      refine ⟨{ c with calls := c.calls ++ [.waiting] }, ?_, hlinked.breaker, ?_, ?_⟩
      · rw [breakerLabels, List.filterMap_append]
        exact run_snoc hrun rfl
      · simp [hlinked.length]
      · intro j call st hj hj'
        rcases TaskPool.getElem?_snoc_cases hj with ⟨rfl, rfl⟩ | hold
        · rw [← hlinked.length, List.getElem?_concat_length] at hj'
          cases hj'
          rfl
        · have hlt := (List.getElem?_eq_some_iff.mp hold).1
          rw [List.getElem?_append_left (hlinked.length ▸ hlt)] at hj'
          exact hlinked.standing j call st hold hj'
  | poll i script =>
      obtain ⟨call, done, hi, hdone, rfl⟩ := System.step_poll hstep
      obtain ⟨st, hlt, htr, hst⟩ := htracked i call (s.frame script.ticks script.draws) hi rfl rfl
      exact refines_settle hrun hlinked (settled_pollCall hb hlt htr hst hdone)
  | drop i =>
      obtain ⟨call, done, hi, hdone, rfl⟩ := System.step_drop hstep
      obtain ⟨st, hlt, htr, hst⟩ := htracked i call (s.frame [] []) hi rfl rfl
      exact refines_settle hrun hlinked (settled_dropCall hlt htr hst hdone)
  | depositElsewhere =>
      obtain ⟨tokens, rfl⟩ := System.step_elsewhere (.inl rfl) hstep
      exact ⟨c, hrun, hlinked.breaker, hlinked.length, hlinked.standing⟩
  | withdrawElsewhere =>
      obtain ⟨tokens, rfl⟩ := System.step_elsewhere (.inr rfl) hstep
      exact ⟨c, hrun, hlinked.breaker, hlinked.length, hlinked.standing⟩

/-- Every run of calls through a plan with a breaker is a run of its circuit. -/
theorem refines_run {plan : Plan T E} {b : CompiledBreaker E} (hb : plan.breaker = some b)
    (start : Nat) {ls : List (System.Label T E)} {s : System T E}
    (hrun : run (System.step plan) (System.init plan start) ls = some s) :
    Refines b.config start s := by
  refine invariant_of_step (refines_step hb start) ⟨Circuit.init b.config start, rfl, ?_⟩ hrun
  refine ⟨by simp [Circuit.init, System.init, hb], rfl, ?_⟩
  intro i call st hi
  simp [System.init] at hi

end ExecutionPolicy
