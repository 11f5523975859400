import ExecutionPolicy.Engine.Hops

/-! # The last event of a call

Every exit of the loop emits its own event by hand. All but one do: past the delay, the
call that finds its deadline gone returns without a word.
-/

namespace ExecutionPolicy

open StepSystem

variable {T E : Type}

/-! ## Terminal events -/

/-- The events of the retry loop, without those of the breaker around it. -/
def Obs.loopEvent? : Obs T E → Option Event
  | .event (.circuitStateChanged _) => none
  | .event e => some e
  | _ => none

def loopEvents (log : List (Obs T E)) : List Event := log.filterMap Obs.loopEvent?

def Event.isTerminal : Event → Bool
  | .succeeded _ => true
  | .gaveUp _ => true
  | .concurrencyRejected => true
  | .retryBudgetExhausted _ => true
  | _ => false

def Event.Reports : Event → Except (ExecutionError E) T → Prop
  | .succeeded _, .ok _ => True
  | .gaveUp _, .error (.operation _ _) => True
  | .gaveUp _, .error (.attemptTimeout _) => True
  | .gaveUp _, .error (.totalTimeout _) => True
  | .concurrencyRejected, .error (.concurrencyRejected _) => True
  | .retryBudgetExhausted _, .error (.retryBudgetExhausted _) => True
  | _, _ => False

/-- The events close with their only terminal one, and it goes with the result. -/
def OneTerminal (es : List Event) (r : Except (ExecutionError E) T) : Prop :=
  ∃ front e, es = front ++ [e] ∧ (∀ e' ∈ front, e'.isTerminal = false) ∧ e.Reports r

def Punctual (deadline : Option Nat) (log : List (Obs T E)) : Prop :=
  ∀ now t, deadline = some t → Obs.resumed now ∈ log → now < t

def Untold (log : List (Obs T E)) : Prop := ∀ e ∈ loopEvents log, e.isTerminal = false

/-- Nothing of the loop and no reading after a delay. -/
def Obs.isAside : Obs T E → Bool
  | .resumed _ => false
  | .event (.circuitStateChanged _) => true
  | .event _ => false
  | _ => true

section Logs

variable {deadline : Option Nat} {log os : List (Obs T E)} {r : Except (ExecutionError E) T}

theorem Event.Reports.isTerminal {e : Event} (h : e.Reports r) : e.isTerminal = true := by
  cases e <;> first | rfl | cases h

theorem Untold.not_oneTerminal (h : Untold log) : ¬ OneTerminal (loopEvents log) r := by
  rintro ⟨front, e, hes, _, hreports⟩
  have hterminal := h e (by simp [hes])
  rw [hreports.isTerminal] at hterminal
  cases hterminal

@[simp] theorem loopEvents_append (log os : List (Obs T E)) :
    loopEvents (log ++ os) = loopEvents log ++ loopEvents os := List.filterMap_append

theorem loopEvents_aside (hos : ∀ o ∈ os, o.isAside = true) : loopEvents os = [] := by
  refine List.filterMap_eq_nil_iff.mpr fun o ho => ?_
  have haside := hos o ho
  cases o with
  | event e => cases e <;> simp_all [Obs.isAside, Obs.loopEvent?]
  | _ => rfl

theorem Untold.append (h : Untold log) (hos : Untold os) : Untold (log ++ os) := by
  intro e he
  rw [loopEvents_append] at he
  rcases List.mem_append.mp he with hold | hnew
  · exact h e hold
  · exact hos e hnew

theorem punctual_append (hos : ∀ now, Obs.resumed now ∉ os) :
    Punctual deadline (log ++ os) ↔ Punctual deadline log := by
  constructor
  · exact fun h now t ht hmem => h now t ht (List.mem_append_left os hmem)
  · intro h now t ht hmem
    rcases List.mem_append.mp hmem with hold | hnew
    · exact h now t ht hold
    · exact absurd hnew (hos now)

theorem resumed_not_mem_aside (hos : ∀ o ∈ os, o.isAside = true) (now : Nat) :
    Obs.resumed now ∉ os := fun hmem => by cases hos _ hmem

theorem resumed_not_mem_news (plan : Plan T E) (es : List Event) (now : Nat) :
    Obs.resumed now ∉ (plan.news es : List (Obs T E)) :=
  Plan.not_mem_news fun e he => by cases he

theorem loopEvents_news {plan : Plan T E} (hook : plan.onEvent = true) {es : List Event}
    (hes : ∀ state, Event.circuitStateChanged state ∉ es) : loopEvents (plan.news es) = es := by
  rw [Plan.news_eq hook, loopEvents, List.filterMap_map]
  refine (List.filterMap_congr fun e he => ?_).trans List.filterMap_some
  cases e with
  | circuitStateChanged state => exact absurd he (hes state)
  | _ => rfl

end Logs

/-! ## Where a call stands -/

structure Early (log : List (Obs T E)) : Prop where
  untold : Untold log
  unresumed : ∀ now, Obs.resumed now ∉ log

structure Underway (deadline : Option Nat) (log : List (Obs T E)) : Prop where
  untold : Untold log
  punctual : Punctual deadline log

/-- The call has its result and said so, unless a delay ended too late; a call the
breaker turns away says nothing. -/
def Told (deadline : Option Nat) (r : Except (ExecutionError E) T) (log : List (Obs T E)) :
    Prop :=
  (∃ ctx, r = .error (.circuitOpen ctx)) ∨
    (OneTerminal (loopEvents log) r ↔ Punctual deadline log)

def Applicant.Vocal (deadline : Option Nat) (log : List (Obs T E)) : Applicant E → Prop
  | .operation => Early log
  | .attempt _ _ => Underway deadline log

def Stage.Vocal (deadline : Option Nat) (log : List (Obs T E)) : Stage T E → Prop
  | .created | .operationsQueue _ => Early log
  | .attemptsQueue _ _ _ | .running _ _ _ | .backingOff _ _ => Underway deadline log
  | .returned r => Told deadline r log
  | .dropped => True

def Spot.Vocal (call : Call T E) (log : List (Obs T E)) : Spot T E → Prop
  | .suspended => call.stage.Vocal call.totalDeadline log
  | .entering | .gating | .admitted _ => Early log
  | .asking a | .waiting a _ | .granted a | .refused a => a.Vocal call.totalDeadline log
  | .exiting r | .leaving r => Told call.totalDeadline r log
  | _ => Underway call.totalDeadline log

section Appending

variable {deadline : Option Nat} {log os : List (Obs T E)} {r : Except (ExecutionError E) T}

theorem untold_aside (hos : ∀ o ∈ os, o.isAside = true) : Untold os := by
  intro e he
  rw [loopEvents_aside hos] at he
  cases he

theorem Early.append (h : Early log) (hos : ∀ o ∈ os, o.isAside = true) : Early (log ++ os) := by
  refine ⟨h.untold.append (untold_aside hos), fun now hmem => ?_⟩
  rcases List.mem_append.mp hmem with hold | hnew
  · exact h.unresumed now hold
  · exact resumed_not_mem_aside hos now hnew

theorem Underway.append (h : Underway deadline log) (huntold : Untold os)
    (hos : ∀ now, Obs.resumed now ∉ os) : Underway deadline (log ++ os) :=
  ⟨h.untold.append huntold, (punctual_append hos).mpr h.punctual⟩

theorem Told.append (h : Told deadline r log) (hos : ∀ o ∈ os, o.isAside = true) :
    Told deadline r (log ++ os) := by
  refine h.imp_right fun hiff => ?_
  rw [loopEvents_append, loopEvents_aside hos, List.append_nil,
    punctual_append (resumed_not_mem_aside hos)]
  exact hiff

theorem Spot.Vocal.append {call : Call T E} {spot : Spot T E} (h : spot.Vocal call log)
    (hos : ∀ o ∈ os, o.isAside = true) : spot.Vocal call (log ++ os) := by
  have hunderway : Underway call.totalDeadline log → Underway call.totalDeadline (log ++ os) :=
    fun h => h.append (untold_aside hos) (resumed_not_mem_aside hos)
  cases spot with
  | suspended =>
      unfold Spot.Vocal at h ⊢
      cases hstage : call.stage <;> rw [hstage] at h
      · exact Early.append h hos
      · exact Early.append h hos
      · exact hunderway h
      · exact hunderway h
      · exact hunderway h
      · exact Told.append h hos
      · trivial
  | entering | gating | admitted => exact Early.append h hos
  | asking a | waiting a | granted a | refused a =>
      cases a with
      | operation => exact Early.append h hos
      | attempt => exact hunderway h
  | exiting | leaving => exact Told.append h hos
  | _ => exact hunderway h

theorem Early.underway (h : Early log) (deadline : Option Nat) : Underway deadline log :=
  ⟨h.untold, fun now _ _ hmem => absurd hmem (h.unresumed now)⟩

theorem Underway.told (h : Underway deadline log) (hos : OneTerminal (loopEvents os) r)
    (hresumed : ∀ now, Obs.resumed now ∉ os) : Told deadline r (log ++ os) := by
  obtain ⟨front, e, hes, hfront, hreports⟩ := hos
  refine .inr (iff_of_true ⟨loopEvents log ++ front, e, ?_, ?_, hreports⟩
    ((punctual_append hresumed).mpr h.punctual))
  · rw [loopEvents_append, hes, List.append_assoc]
  · intro e' he'
    rcases List.mem_append.mp he' with hold | hnew
    · exact h.untold e' hold
    · exact hfront e' hnew

end Appending

/-! ## One hop -/

section Hops

variable {plan : Plan T E} {id : Nat} {deadline : Option Nat} {c c' : Cursor T E}
  {log os : List (Obs T E)} {r : Except (ExecutionError E) T}

theorem settledEvents_told (number : Nat) (outcome : AttemptOutcome T E) (ctx : ErrorContext) :
    OneTerminal (settledEvents number outcome) (outcome.own ctx) := by
  cases outcome with
  | completed r => cases r <;> exact ⟨[], _, rfl, by simp, trivial⟩
  | attemptTimeout => exact ⟨[.attemptTimedOut number], _, rfl, by simp [Event.isTerminal], trivial⟩
  | totalTimeout => exact ⟨[], _, rfl, by simp, trivial⟩

theorem retriedEvents_untold (plan : Plan T E) (number : Nat) (outcome : AttemptOutcome T E) :
    Untold (plan.news (retriedEvents number outcome) : List (Obs T E)) := by
  unfold Plan.news Untold
  split
  · cases outcome with
    | completed r => cases r <;> simp [retriedEvents, loopEvents, Obs.loopEvent?, Event.isTerminal]
    | _ => simp [retriedEvents, loopEvents, Obs.loopEvent?, Event.isTerminal]
  · simp [loopEvents]

theorem news_told (hook : plan.onEvent = true) {e : Event} (hreports : e.Reports r) :
    OneTerminal (loopEvents (plan.news [e] : List (Obs T E))) r := by
  rw [loopEvents_news hook]
  · exact ⟨[], e, rfl, by simp, hreports⟩
  · intro state hmem
    rw [← List.mem_singleton.mp hmem] at hreports
    cases hreports

theorem Underway.news (hook : plan.onEvent = true) (h : Underway deadline log) {e : Event}
    (hreports : e.Reports r) : Told deadline r (log ++ plan.news [e]) :=
  h.told (news_told hook hreports) (resumed_not_mem_news plan _)

theorem news_aside {es : List Event} (hes : ∀ e ∈ es, ∃ state, e = .circuitStateChanged state) :
    ∀ o ∈ (plan.news es : List (Obs T E)), o.isAside = true := by
  refine Plan.forall_news fun e he => ?_
  obtain ⟨state, rfl⟩ := hes e he
  rfl

theorem noted_aside {o : Obs T E} (ho : o.isAside = true) {es : List Event}
    (hes : ∀ e ∈ es, ∃ state, e = .circuitStateChanged state) :
    ∀ o' ∈ o :: plan.news es, o'.isAside = true :=
  List.forall_mem_cons.mpr ⟨ho, news_aside hes⟩

theorem mem_recorded {recorded : Option BreakerState} {e : Event}
    (he : e ∈ recorded.toList.map .circuitStateChanged) :
    ∃ state, e = .circuitStateChanged state := by
  obtain ⟨state, _, rfl⟩ := List.mem_map.mp he
  exact ⟨state, rfl⟩

theorem Underway.resume (h : Underway deadline log) {now t : Nat} (hd : deadline = some t)
    (hlt : now < t) : Underway deadline (log ++ [.resumed now]) := by
  refine ⟨h.untold.append (by simp [Untold, loopEvents, Obs.loopEvent?]), fun now' t' ht hmem => ?_⟩
  rcases List.mem_append.mp hmem with hold | hnew
  · exact h.punctual now' t' ht hold
  · cases List.mem_singleton.mp hnew
    cases hd.symm.trans ht
    exact hlt

theorem Underway.expire (h : Underway deadline log) {now t : Nat} (hd : deadline = some t)
    (hle : t ≤ now) : Told deadline r (log ++ [.resumed now]) := by
  have huntold : Untold (log ++ [.resumed now]) :=
    h.untold.append (by simp [Untold, loopEvents, Obs.loopEvent?])
  refine .inr (iff_of_false huntold.not_oneTerminal fun hpunctual => ?_)
  exact Nat.not_lt_of_le hle (hpunctual now t hd (by simp))

theorem Hop.vocal (hook : plan.onEvent = true) (hop : Hop plan id c os c')
    (h : c.spot.Vocal c.call log) : c'.spot.Vocal c'.call (log ++ os) := by
  cases hop with
  | begin hs =>
      refine Spot.Vocal.append ?_ (by simp)
      simpa [Spot.Vocal, Stage.Vocal, hs] using h
  | @repoll call a k timers hs =>
      refine Spot.Vocal.append ?_ (by simp)
      cases a <;> simpa [Spot.Vocal, Stage.Vocal, Applicant.Vocal, hs, Applicant.queue] using h
  | @park call a k timers hfree =>
      refine Spot.Vocal.append ?_ (by simp)
      cases a <;> exact h
  | pend timers hs | cease outcome hs =>
      refine Spot.Vocal.append ?_ (by simp)
      simpa [Spot.Vocal, Stage.Vocal, hs] using h
  | rouse hs =>
      refine Spot.Vocal.append ?_ (by simp)
      simpa [Spot.Vocal, Stage.Vocal, hs] using h
  | deposit => exact Spot.Vocal.append (Early.underway h _) (by simp)
  | refuseOperation now =>
      rw [List.append_cons]
      exact ((Early.append h (by simp [Obs.isAside])).underway _).news hook trivial
  | refuseAttempt | deny => exact Underway.news hook h trivial
  | pass hb hg =>
      refine Spot.Vocal.append h (noted_aside rfl fun e he => ?_)
      split at he
      · exact ⟨_, List.mem_singleton.mp he⟩
      · cases he
  | turnAway => exact Spot.Vocal.append (.inl ⟨_, rfl⟩) (by simp [Obs.isAside])
  | settle hstop =>
      refine Underway.told h ?_ (resumed_not_mem_news plan _)
      rw [loopEvents_news hook (settledEvents_ofLoop _ _)]
      exact settledEvents_told _ _ _
  | retry hgo =>
      exact Underway.append h (retriedEvents_untold plan _ _) (resumed_not_mem_news plan _)
  | @elapsed call d now k hout =>
      refine Underway.news hook h ?_
      cases d.lastError <;> trivial
  | bail now hd hh hlt =>
      rw [List.append_cons]
      exact (Underway.append h (untold_aside (by simp [Obs.isAside])) (by simp)).news hook trivial
  | schedule =>
      refine Underway.append h ?_ (resumed_not_mem_news plan _)
      rw [Untold, loopEvents_news hook (by simp)]
      simp [Event.isTerminal]
  | resume hd hlt => exact Underway.resume h hd hlt
  | expire now hd hle => exact Underway.expire h hd hle
  | voteSuccess | voteFailure =>
      exact Spot.Vocal.append h (noted_aside rfl fun e he => mem_recorded he)
  | _ => exact Spot.Vocal.append h (by simp [Obs.isAside])

end Hops

/-! ## Over whole runs -/

/-- With a hook, a returned call that the breaker let pass has told its result with one
terminal event, the last of its loop, exactly when no delay ended at its deadline or
later. -/
theorem one_terminal_event_iff (plan : Plan T E) (hook : plan.onEvent = true) (start : Nat)
    (ls : List (System.Label T E)) (s : System T E)
    (hrun : run (System.step plan) (System.init plan start) ls = some s)
    (i : Nat) (call : Call T E) (hi : s.calls[i]? = some call)
    (r : Except (ExecutionError E) T) (hr : call.stage = .returned r)
    (hpassed : ∀ ctx, r ≠ .error (.circuitOpen ctx)) :
    OneTerminal (loopEvents (s.logOf i)) r ↔ Punctual call.totalDeadline (s.logOf i) := by
  have heach := System.eachCall_of_hops (Q := fun call spot log => Spot.Vocal call log spot)
    ?_ (fun id c os c' log hop => hop.vocal hook) (fun _ _ _ _ => trivial) hrun
  · have htold := heach.2 i call hi
    simp only [Spot.Vocal, Stage.Vocal, hr] at htold
    exact htold.resolve_left fun ⟨ctx, hctx⟩ => hpassed ctx hctx
  · exact ⟨by simp [Untold, loopEvents, Obs.loopEvent?], by simp⟩

/-- Three attempts 5 ns apart within 10 ns, with a hook. -/
def hooked : Plan Nat Nat where
  retry := Retry.fixed 5
  attemptTimeout := none
  totalTimeout := some 10
  breaker := none
  concurrency := none
  onEvent := true
  maxAttempts_pos := Plan.threeAttempts_pos
  timeouts_ordered := Plan.tenInAll_ordered

/-- The first attempt fails after 1 ns, the second succeeds. -/
def secondInTime : List (System.Label Nat Nat) :=
  [.call, .poll 0 .pending, .poll 0 (.answer 1 (.error 7)), .elapse 5, .poll 0 .pending,
    .poll 0 (.answer 1 (.ok 8))]

def succeededSecond : System Nat Nat :=
  (run (System.step hooked) (System.init hooked 0) secondInTime).get rfl

theorem one_terminal_event_secondInTime :
    loopEvents (succeededSecond.logOf 0) =
        [.attemptFailed 1, .retryScheduled 1 5, .succeeded 2] ∧
      Punctual (some 10) (succeededSecond.logOf 0) := by
  refine ⟨rfl, (one_terminal_event_iff hooked rfl 0 secondInTime succeededSecond rfl 0 _ rfl
    (.ok 8) rfl (fun ctx h => by cases h)).mp ?_⟩
  exact ⟨[.attemptFailed 1, .retryScheduled 1 5], .succeeded 2, rfl, by decide, trivial⟩

/-- The first attempt fails after 6 ns, and the delay is cut at the deadline. -/
def secondTooLate : List (System.Label Nat Nat) :=
  [.call, .poll 0 .pending, .poll 0 (.answer 6 (.error 7)), .elapse 4, .poll 0 .pending]

theorem expired_call_says_nothing :
    ∃ s call ctx, run (System.step hooked) (System.init hooked 0) secondTooLate = some s ∧
      s.calls = [call] ∧ call.stage = .returned (.error (.totalTimeout ctx)) ∧
      loopEvents (s.logOf 0) = [.attemptFailed 1, .retryScheduled 1 4] ∧
      ∀ e ∈ loopEvents (s.logOf 0), e.isTerminal = false := by
  let s := (run (System.step hooked) (System.init hooked 0) secondTooLate).get rfl
  have hes : loopEvents (s.logOf 0) = [.attemptFailed 1, .retryScheduled 1 4] := rfl
  refine ⟨s, _, _, rfl, rfl, rfl, hes, ?_⟩
  rw [hes]
  decide

end ExecutionPolicy
