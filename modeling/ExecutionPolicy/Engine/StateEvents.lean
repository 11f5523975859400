import ExecutionPolicy.Engine.Hops
import ExecutionPolicy.Foundation.History

/-! # The events of the breaker

`gate` answers that a call is admitted half open, not that the breaker became half open,
and `record_failure` answers that the rule is met, not that the breaker was still closed.
The engine makes an event of either answer.
-/

namespace ExecutionPolicy

open Relation StepSystem History

variable {T E : Type}

/-! ## Answers and changes -/

def StateWord.named : StateWord → BreakerState
  | closed => .closed
  | «open» => .open
  | halfOpen => .halfOpen

namespace BreakerRuntime

/-- What an observed gate or vote makes of the breaker. -/
def after (cfg : BreakerConfig) (b : BreakerRuntime) : Obs T E → BreakerRuntime
  | .gated now => (b.gate cfg now).2
  | .votedSuccess now => (b.recordSuccess cfg now).2
  | .votedFailure now => (b.recordFailure cfg now).2
  | _ => b

def announced (cfg : BreakerConfig) (b : BreakerRuntime) : Obs T E → Option BreakerState
  | .gated now => if (b.gate cfg now).1 = .ok .halfOpen then some .halfOpen else none
  | .votedSuccess now => (b.recordSuccess cfg now).1
  | .votedFailure now => (b.recordFailure cfg now).1
  | _ => none

/-- A further probe is admitted, or a failure meets the rule again. -/
def Repeats (cfg : BreakerConfig) (b : BreakerRuntime) : Obs T E → Prop
  | .gated _ => b.state = .halfOpen ∧ b.halfOpenInFlight < cfg.halfOpenMaxCalls
  | .votedFailure now =>
      b.state = .open ∧ ((b.countFailure now).shouldTrip cfg now).1 = true
  | _ => False

def view (b : BreakerRuntime) : BreakerState := b.state.named

section Answers

variable {cfg : BreakerConfig} {b : BreakerRuntime}

theorem announced_eq_change {o : Obs T E} (h : ¬ b.Repeats cfg o) :
    (b.announced cfg o).toList =
      if (b.after cfg o).view = b.view then [] else [(b.after cfg o).view] := by
  cases o with
  | gated now =>
      cases hs : b.state with
      | closed => simp [announced, after, gate_of_closed hs]
      | «open» =>
          cases hr : b.ready now with
          | false => simp [announced, after, gate_of_cooling hs hr]
          | true => simp [announced, after, gate_of_ready hs hr, view, hs, StateWord.named]
      | halfOpen =>
          have hfull : cfg.halfOpenMaxCalls ≤ b.halfOpenInFlight :=
            Nat.le_of_not_lt fun hslot => h ⟨hs, hslot⟩
          simp [announced, after, gate_of_full hs hfull]
  | votedSuccess now =>
      by_cases hs : b.state = .halfOpen
      · simp only [announced, after, recordSuccess_of_halfOpen hs]
        split <;> simp [view, hs, StateWord.named]
      · simp [announced, after, recordSuccess_of_not_halfOpen hs, view]
  | votedFailure now =>
      by_cases hs : b.state = .halfOpen
      · simp [announced, after, recordFailure_of_halfOpen hs, view, hs, StateWord.named]
      · simp only [announced, after, recordFailure_of_not_halfOpen hs]
        split
        next htrip =>
          have hclosed : b.state = .closed := by
            cases hb : b.state with
            | closed => rfl
            | «open» => exact absurd ⟨hb, htrip⟩ h
            | halfOpen => exact absurd hb hs
          simp [view, hclosed, StateWord.named]
        next => simp [view]
  | _ => simp [announced, after]

theorem announced_of_repeats {o : Obs T E} (h : b.Repeats cfg o) :
    (∃ state, b.announced cfg o = some state) ∧ (b.after cfg o).view = b.view := by
  cases o with
  | gated now => simp [announced, after, gate_of_slot h.1 h.2, view]
  | votedFailure now =>
      have hs : b.state ≠ .halfOpen := by simp [h.1]
      simp [announced, after, recordFailure_of_not_halfOpen hs, h.2, view, h.1]
  | _ => cases h

end Answers

end BreakerRuntime

/-! ## A trace against its breaker -/

def Obs.stateEvent? : Obs T E → Option BreakerState
  | .event (.circuitStateChanged state) => some state
  | _ => none

def stateEvents (trace : List (Obs T E)) : List BreakerState := trace.filterMap Obs.stateEvent?

def stateChanges (cfg : BreakerConfig) (trace : List (Obs T E)) : List BreakerState :=
  changes (BreakerRuntime.after cfg) BreakerRuntime.view (.new cfg.trip) trace

def breakerOf (cfg : BreakerConfig) (trace : List (Obs T E)) : BreakerRuntime :=
  replay (BreakerRuntime.after cfg) (.new cfg.trip) trace

def Unrepeated (cfg : BreakerConfig) (trace : List (Obs T E)) : Prop :=
  Justified (fun past o => ¬ (breakerOf cfg past).Repeats cfg o) trace

/-- The trace accounts for the breaker, and its events are the breaker's changes exactly
when nothing was announced twice. -/
structure Mirrors (cfg : BreakerConfig) (b : BreakerRuntime) (trace : List (Obs T E)) : Prop where
  replayed : breakerOf cfg trace = b
  length_le : (stateChanges cfg trace).length ≤ (stateEvents trace).length
  exact_iff : stateEvents trace = stateChanges cfg trace ↔ Unrepeated cfg trace

/-- Neither a gate, nor a vote, nor an event of the breaker. -/
def Obs.isStill : Obs T E → Bool
  | .gated _ => false
  | .votedSuccess _ => false
  | .votedFailure _ => false
  | .event (.circuitStateChanged _) => false
  | _ => true

section Mirrors

variable {cfg : BreakerConfig} {b : BreakerRuntime} {trace os : List (Obs T E)}

@[simp] theorem stateEvents_append (trace os : List (Obs T E)) :
    stateEvents (trace ++ os) = stateEvents trace ++ stateEvents os := List.filterMap_append

theorem breakerOf_append (trace os : List (Obs T E)) : breakerOf cfg (trace ++ os) =
    replay (BreakerRuntime.after cfg) (breakerOf cfg trace) os := replay_append _ _ _

theorem stateChanges_append (trace os : List (Obs T E)) : stateChanges cfg (trace ++ os) =
    stateChanges cfg trace ++
      changes (BreakerRuntime.after cfg) BreakerRuntime.view (breakerOf cfg trace) os :=
  changes_append _ _ _

theorem Mirrors.still (h : Mirrors cfg b trace) (hos : ∀ o ∈ os, o.isStill = true) :
    Mirrors cfg b (trace ++ os) := by
  have hafter : ∀ o ∈ os, ∀ b, BreakerRuntime.after cfg b o = b := by
    intro o ho b
    have hstill := hos o ho
    cases o <;> first | rfl | cases hstill
  have hevents : stateEvents os = [] := by
    refine List.filterMap_eq_nil_iff.mpr fun o ho => ?_
    have hstill := hos o ho
    cases o with
    | event e => cases e <;> first | rfl | cases hstill
    | _ => rfl
  have hrepeats : Unrepeated cfg (trace ++ os) ↔ Unrepeated cfg trace := by
    refine justified_append fun past o ho hrepeats => ?_
    have hstill := hos o ho
    cases o <;> simp_all [Obs.isStill, BreakerRuntime.Repeats]
  have hreplay : breakerOf cfg (trace ++ os) = breakerOf cfg trace :=
    (breakerOf_append trace os).trans (replay_still hafter _)
  have hchanges : stateChanges cfg (trace ++ os) = stateChanges cfg trace := by
    rw [stateChanges_append, changes_still hafter, List.append_nil]
  refine ⟨hreplay.trans h.replayed, ?_, ?_⟩
  · rw [hchanges, stateEvents_append, hevents, List.append_nil]
    exact h.length_le
  · rw [hchanges, stateEvents_append, hevents, List.append_nil, hrepeats]
    exact h.exact_iff

/-- What the engine logs of a gate or a vote, with its event. -/
def told (cfg : BreakerConfig) (b : BreakerRuntime) (o : Obs T E) : List (Obs T E) :=
  o :: (b.announced cfg o).toList.map fun state => .event (.circuitStateChanged state)

theorem stateEvents_told {o : Obs T E} (ho : o.stateEvent? = none) :
    stateEvents (told cfg b o) = (b.announced cfg o).toList := by
  rw [stateEvents, told, List.filterMap_cons_none ho, List.filterMap_map]
  exact List.filterMap_some

theorem event_after {o : Obs T E} {b₁ : BreakerRuntime} :
    ∀ o' ∈ (b.announced cfg o).toList.map fun state =>
      (.event (.circuitStateChanged state) : Obs T E), BreakerRuntime.after cfg b₁ o' = b₁ := by
  intro o' ho'
  obtain ⟨state, _, rfl⟩ := List.mem_map.mp ho'
  rfl

theorem Mirrors.told (h : Mirrors cfg b trace) {o : Obs T E} (ho : o.stateEvent? = none) :
    Mirrors cfg (b.after cfg o) (trace ++ told cfg b o) := by
  have hafter : ∀ o' ∈ (b.announced cfg o).toList.map fun state =>
      (.event (.circuitStateChanged state) : Obs T E), ∀ b₁, BreakerRuntime.after cfg b₁ o' = b₁ :=
    fun o' ho' b₁ => event_after o' ho'
  have hchanges : stateChanges cfg (trace ++ ExecutionPolicy.told cfg b o) =
      stateChanges cfg trace ++
        if (b.after cfg o).view = b.view then [] else [(b.after cfg o).view] := by
    rw [stateChanges_append, h.replayed, ExecutionPolicy.told, changes, changes_still hafter,
      List.append_nil]
  have hevents : stateEvents (trace ++ ExecutionPolicy.told cfg b o) =
      stateEvents trace ++ (b.announced cfg o).toList := by
    rw [stateEvents_append, stateEvents_told ho]
  have hrepeats : Unrepeated cfg (trace ++ ExecutionPolicy.told cfg b o) ↔
      Unrepeated cfg trace ∧ ¬ b.Repeats cfg o := by
    rw [Unrepeated, ExecutionPolicy.told, List.append_cons, justified_append, justified_snoc,
      h.replayed]
    · exact Iff.rfl
    · intro past o' ho' hrepeats
      obtain ⟨state, _, rfl⟩ := List.mem_map.mp ho'
      exact hrepeats
  refine ⟨?_, ?_, ?_⟩
  · rw [breakerOf_append, h.replayed]
    exact replay_still hafter _
  · have hle := h.length_le
    rw [hchanges, hevents, List.length_append, List.length_append]
    by_cases hrep : b.Repeats cfg o
    · rw [if_pos (BreakerRuntime.announced_of_repeats hrep).2]
      simp only [List.length_nil]
      omega
    · rw [BreakerRuntime.announced_eq_change hrep]
      omega
  · rw [hchanges, hevents, hrepeats]
    by_cases hrep : b.Repeats cfg o
    · -- from now on the events outnumber the changes
      obtain ⟨⟨state, hstate⟩, hsame⟩ := BreakerRuntime.announced_of_repeats hrep
      refine iff_of_false (fun heq => ?_) fun hboth => hboth.2 hrep
      have hlength := congrArg List.length heq
      rw [if_pos hsame, hstate] at hlength
      have hle := h.length_le
      simp only [Option.toList_some, List.length_append, List.length_singleton,
        List.length_nil] at hlength
      omega
    · rw [BreakerRuntime.announced_eq_change hrep, List.append_cancel_right_eq, h.exact_iff]
      exact (and_iff_left hrep).symm

end Mirrors

/-! ## One hop -/

section Hops

variable {plan : Plan T E} {b : CompiledBreaker E} {id : Nat} {c c' : Cursor T E}
  {trace os : List (Obs T E)}

theorem news_still {es : List Event} (hes : ∀ state, .circuitStateChanged state ∉ es) :
    ∀ o ∈ (plan.news es : List (Obs T E)), o.isStill = true := by
  refine Plan.forall_news fun e he => ?_
  cases e with
  | circuitStateChanged state => exact absurd he (hes state)
  | _ => rfl

/-- A hop leaves the breaker alone and tells nothing of it, or moves it and tells what is
announced. -/
theorem Hop.tells (hb : plan.breaker = some b) (hook : plan.onEvent = true)
    (hop : Hop plan id c os c') :
    (c'.shared.breaker = c.shared.breaker ∧ ∀ o ∈ os, o.isStill = true) ∨
      ∃ o : Obs T E, o.stateEvent? = none ∧ os = told b.config c.shared.breaker o ∧
        c'.shared.breaker = c.shared.breaker.after b.config o := by
  cases hop with
  | @pass call k b' s breaker hb' hg =>
      cases hb.symm.trans hb'
      refine .inr ⟨.gated k.core.time, rfl, ?_, by simp [BreakerRuntime.after, hg]⟩
      rw [Plan.news_eq hook]
      by_cases hs : s = .halfOpen <;> simp [told, BreakerRuntime.announced, hg, hs]
  | @turnAway call k b' breaker now hb' hg =>
      cases hb.symm.trans hb'
      refine .inr ⟨.gated k.core.time, rfl, ?_, by simp [BreakerRuntime.after, hg]⟩
      simp [told, BreakerRuntime.announced, hg]
  | @voteSuccess call r k b' recorded hb' hv hrec =>
      cases hb.symm.trans hb'
      subst hrec
      refine .inr ⟨.votedSuccess k.core.time, rfl, ?_, rfl⟩
      rw [Plan.news_eq hook, List.map_map]
      rfl
  | @voteFailure call r k b' recorded hb' hv hrec =>
      cases hb.symm.trans hb'
      subst hrec
      refine .inr ⟨.votedFailure k.core.time, rfl, ?_, rfl⟩
      rw [Plan.news_eq hook, List.map_map]
      rfl
  | refuseOperation now =>
      exact .inl ⟨rfl, List.forall_mem_cons.mpr ⟨rfl, news_still (by simp)⟩⟩
  | bail now => exact .inl ⟨rfl, List.forall_mem_cons.mpr ⟨rfl, news_still (by simp)⟩⟩
  | refuseAttempt | elapsed | deny | schedule => exact .inl ⟨rfl, news_still (by simp)⟩
  | settle => exact .inl ⟨rfl, news_still (settledEvents_ofLoop _ _)⟩
  | retry => exact .inl ⟨rfl, news_still (retriedEvents_ofLoop _ _)⟩
  | @cease call d permit => cases permit <;> exact .inl ⟨rfl, by simp⟩
  | @leave call r k =>
      refine .inl ⟨?_, by simp⟩
      dsimp only
      split <;> rfl
  | _ => exact .inl ⟨rfl, by simp [Obs.isStill]⟩

theorem Hop.mirrors (hb : plan.breaker = some b) (hook : plan.onEvent = true)
    (hop : Hop plan id c os c') (h : Mirrors b.config c.shared.breaker trace) :
    Mirrors b.config c'.shared.breaker (trace ++ os) := by
  rcases hop.tells hb hook with ⟨hsame, hstill⟩ | ⟨o, ho, rfl, hafter⟩
  · rw [hsame]
    exact h.still hstill
  · rw [hafter]
    exact h.told ho

end Hops

/-! ## Over whole runs -/

namespace System

def observed (s : System T E) : List (Obs T E) := s.trace.map Prod.snd

theorem observed_settle (s : System T E) (i : Nat) (done : Call T E × Frame T E) :
    (s.settle i done).observed = s.observed ++ done.2.log := by
  simp [observed, settle, List.map_map, Function.comp_def]

variable {plan : Plan T E} {b : CompiledBreaker E}

theorem mirrors_init (hb : plan.breaker = some b) (start : Nat) :
    Mirrors b.config (init plan start).shared.breaker (init plan start).observed := by
  refine ⟨?_, Nat.le_refl _, iff_of_true rfl justified_nil⟩
  simp [init, hb, observed, breakerOf, replay]

/-- What every hop keeps of the breaker against the trace, and neither an arrival nor a drop
disturbs, every step keeps. -/
theorem observed_step {Q : BreakerRuntime → List (Obs T E) → Prop}
    (hhop : ∀ id c os c' log, Hop plan id c os c' → Q c.shared.breaker log →
      Q c'.shared.breaker (log ++ os))
    (hmute : ∀ breaker log, Q breaker log →
      Q breaker (log ++ [.arrived]) ∧ Q breaker (log ++ [.unrecorded]))
    (s : System T E) (l : Label T E) (s' : System T E) (h : Q s.shared.breaker s.observed)
    (hstep : step plan s l = some s') : Q s'.shared.breaker s'.observed := by
  cases l with
  | elapse d =>
      cases hstep
      exact h
  | call =>
      cases hstep
      simpa [observed] using (hmute _ _ h).1
  | poll i script =>
      obtain ⟨call, done, hi, hpoll, rfl⟩ := step_poll hstep
      rw [observed_settle]
      refine (reaches_pollCall hpoll).keeps (Q := fun c log => Q c.shared.breaker log)
        (fun c os c' log hop hc => hhop i c os c' log hop hc) s.observed ?_
      simpa [frame, Place.cursor] using h
  | drop i =>
      obtain ⟨call, done, hi, hdrop, rfl⟩ := step_drop hstep
      obtain ⟨_, g, hg, hdone⟩ := dropCall_cases hdrop
      have hbreaker : (s.settle i done).shared.breaker = s.shared.breaker := by
        rw [settle, hdone]
        exact hg.breaker
      rw [observed_settle, dropCall_log hdrop, hbreaker]
      exact (hmute _ _ h).2
  | depositElsewhere =>
      obtain ⟨tokens, rfl⟩ := step_elsewhere (.inl rfl) hstep
      exact h
  | withdrawElsewhere =>
      obtain ⟨tokens, rfl⟩ := step_elsewhere (.inr rfl) hstep
      exact h

theorem mirrors_step (hb : plan.breaker = some b) (hook : plan.onEvent = true)
    (s : System T E) (l : Label T E) (s' : System T E)
    (h : Mirrors b.config s.shared.breaker s.observed) (hstep : step plan s l = some s') :
    Mirrors b.config s'.shared.breaker s'.observed := by
  refine observed_step (Q := Mirrors b.config) (fun id c os c' log hop hc => hop.mirrors hb hook hc)
    (fun breaker log hc => ⟨?_, ?_⟩) s l s' h hstep
  · exact hc.still (by simp [Obs.isStill])
  · exact hc.still (by simp [Obs.isStill])

end System

/-- In every run, the gates and votes observed account for the breaker, and its events name
exactly its changes, in order, when and only when no further probe was let in and no
failure met the rule of an open breaker. -/
theorem state_events_exact_iff (plan : Plan T E) (b : CompiledBreaker E)
    (hb : plan.breaker = some b) (hook : plan.onEvent = true) (start : Nat)
    (ls : List (System.Label T E)) (s : System T E)
    (hrun : run (System.step plan) (System.init plan start) ls = some s) :
    breakerOf b.config s.observed = s.shared.breaker ∧
      (stateEvents s.observed = stateChanges b.config s.observed ↔
        Unrepeated b.config s.observed) := by
  have h : Mirrors b.config s.shared.breaker s.observed :=
    invariant_of_step (System.mirrors_step hb hook) (System.mirrors_init hb start) hrun
  exact ⟨h.replayed, h.exact_iff⟩

/-- One failure trips the breaker for 10 ns, and two probes are let in. -/
def twoProbes : Plan Nat Nat where
  retry := Retry.none
  attemptTimeout := none
  totalTimeout := none
  breaker := some
    { config := ((BreakerConfig.consecutiveFailures 1).withOpenFor 10).withHalfOpenMaxCalls 2
      recordWhen := none }
  concurrency := none
  onEvent := true
  maxAttempts_pos := Nat.one_pos
  timeouts_ordered := Plan.untimed_ordered

/-- A call fails; after the cooldown the next one is a probe and succeeds. -/
def oneProbe : List (System.Label Nat Nat) :=
  [.call, .poll 0 .pending, .poll 0 (.answer 1 (.error 7)), .elapse 10, .call, .poll 1 .pending,
    .poll 1 (.answer 1 (.ok 8))]

def probedOnce : System Nat Nat :=
  (run (System.step twoProbes) (System.init twoProbes 0) oneProbe).get rfl

theorem state_events_exact_oneProbe :
    stateEvents probedOnce.observed = [.open, .halfOpen] ∧
      Unrepeated (((BreakerConfig.consecutiveFailures 1).withOpenFor 10).withHalfOpenMaxCalls 2)
        probedOnce.observed :=
  ⟨rfl, (state_events_exact_iff twoProbes _ rfl rfl 0 oneProbe probedOnce rfl).2.mp rfl⟩

/-- Two calls in flight fail one after the other; after the cooldown two probes pass the
gate. -/
def twoFailuresTwoProbes : List (System.Label Nat Nat) :=
  [.call, .poll 0 .pending, .call, .poll 1 .pending, .poll 0 (.answer 1 (.error 7)),
    .poll 1 (.answer 1 (.error 7)), .elapse 10, .call, .poll 2 .pending, .call, .poll 3 .pending]

theorem events_repeat_unchanged_states :
    ∃ s, run (System.step twoProbes) (System.init twoProbes 0) twoFailuresTwoProbes = some s ∧
      stateEvents s.observed = [.open, .open, .halfOpen, .halfOpen] ∧
      stateChanges (((BreakerConfig.consecutiveFailures 1).withOpenFor 10).withHalfOpenMaxCalls 2)
        s.observed = [.open, .halfOpen] :=
  ⟨(run (System.step twoProbes) (System.init twoProbes 0) twoFailuresTwoProbes).get rfl, rfl, rfl,
    rfl⟩

end ExecutionPolicy
