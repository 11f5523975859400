import ExecutionPolicy.Engine.Pipeline

/-! # When the timers of an attempt are armed

The select of an attempt creates its timers after the operation first pends. Here it is
compared with one whose timers exist from the start of the attempt; the clock moves
between polls and while the operation is polled.
-/

namespace ExecutionPolicy

variable {T E : Type}

/-! ## The select of one attempt -/

def armAttempt (timeout deadline : Option Nat) (core : Core) : AttemptTimers × Core :=
  let attempt := armSleep core timeout
  let total := armDeadline attempt.2 deadline
  ({ attempt := attempt.1, total := total.1 }, total.2)

/-- Poll armed timers; the timers come back when the attempt goes on. -/
def pollArmed (timers : AttemptTimers) (core : Core) :
    (AttemptOutcome T E ⊕ AttemptTimers) × Core :=
  let attempt := core.pollTimer timers.attempt
  if attempt.1 then (.inl .attemptTimeout, attempt.2)
  else
    let total := attempt.2.pollTimer timers.total
    (if total.1 then .inl .totalTimeout else .inr timers, total.2)

/-- One poll of the closure given to `poll_fn`. -/
def selectAttempt (timeout deadline : Option Nat) (timers : Option AttemptTimers)
    (op : Option (Except E T)) (core : Core) : (AttemptOutcome T E ⊕ AttemptTimers) × Core :=
  match op with
  | some r => (.inl (.completed r), core)
  | none =>
      match timers with
      | some timers => pollArmed timers core
      | none => pollArmed (armAttempt timeout deadline core).1 (armAttempt timeout deadline core).2

theorem pollAttempt_eq_select (plan : Plan T E) (id : Nat) (call : Call T E) (d : Drive E)
    (permit : Bool) (timers : Option AttemptTimers) (op : Option (Except E T)) (f : Frame T E) :
    pollAttempt plan id call d permit timers op f =
      match selectAttempt plan.attemptTimeout call.totalDeadline timers op f.core with
      | (.inl outcome, core) => afterAttempt plan id call d permit outcome { f with core }
      | (.inr timers, core) =>
          ({ call with stage := .running d permit (some timers) }, { f with core }) := by
  have harmed : ∀ (timers : AttemptTimers) (f : Frame T E),
      pollTimers plan id call d permit timers f =
        match pollArmed timers f.core with
        | (.inl outcome, core) => afterAttempt plan id call d permit outcome { f with core }
        | (.inr timers, core) =>
            ({ call with stage := .running d permit (some timers) }, { f with core }) := by
    intro timers f
    by_cases hattempt : (f.core.pollTimer timers.attempt).1 = true
    · simp [pollTimers, pollArmed, hattempt]
    · by_cases htotal : ((f.core.pollTimer timers.attempt).2.pollTimer timers.total).1 = true
      · simp [pollTimers, pollArmed, hattempt, htotal]
      · simp [pollTimers, pollArmed, hattempt, htotal]
  unfold pollAttempt selectAttempt
  cases op with
  | some r => rfl
  | none =>
      cases timers with
      | some timers => exact harmed timers f
      | none => exact harmed _ _

/-! ## A whole attempt -/

/-- One poll of an attempt: the time that passes before it and while the operation is
polled, and the operation's answer. -/
structure AttemptPoll (T E : Type) where
  wait : Nat
  opElapsed : Nat
  op : Option (Except E T)

/-- The clock at the end of the poll of the operation. -/
def AttemptPoll.clock (p : AttemptPoll T E) (time : Nat) : Nat := time + p.wait + p.opElapsed

theorem AttemptPoll.le_clock (p : AttemptPoll T E) (time : Nat) : time ≤ p.clock time := by
  unfold AttemptPoll.clock
  omega

/-- The outcome of an attempt and the number of the poll that decides it; `none` while the
attempt goes on. -/
def decided (timeout deadline : Option Nat) :
    Option AttemptTimers → Nat → List (AttemptPoll T E) → Option (Nat × AttemptOutcome T E)
  | _, _, [] => none
  | timers, time, p :: ps =>
      match selectAttempt timeout deadline timers p.op (.still (p.clock time)) with
      | (.inl outcome, _) => some (0, outcome)
      | (.inr timers, core) =>
          (decided timeout deadline (some timers) core.time ps).map fun r => (r.1 + 1, r.2)

/-- The attempt as the code runs it. -/
def lazily (timeout deadline : Option Nat) (start : Nat) (polls : List (AttemptPoll T E)) :
    Option (Nat × AttemptOutcome T E) := decided timeout deadline none start polls

/-- The same attempt with its timers created when it starts. -/
def eagerly (timeout deadline : Option Nat) (start : Nat) (polls : List (AttemptPoll T E)) :
    Option (Nat × AttemptOutcome T E) :=
  decided timeout deadline (some (armAttempt timeout deadline (.still start)).1) start polls

def clockAt (start : Nat) (polls : List (AttemptPoll T E)) (i : Nat) : Nat :=
  (polls.take (i + 1)).foldl (fun time p => p.clock time) start

/-- For all that follows the first poll, the attempt is decided as if its timers had been
armed at its start, and by its timeout where that has passed. -/
structure ArmedInTime (timeout deadline : Option Nat) (start : Nat) (first : AttemptPoll T E) :
    Prop where
  agrees : ∀ rest, lazily timeout deadline start (first :: rest) =
    eagerly timeout deadline start (first :: rest)
  punctual : ∀ rest i t, timeout = some t →
    lazily timeout deadline start ((first :: rest).take i) = none →
    (∃ p, (first :: rest)[i]? = some p ∧ p.op = none) →
    start + t ≤ clockAt start (first :: rest) i →
    lazily timeout deadline start (first :: rest) = some (i, .attemptTimeout)

section Attempt

variable {timeout deadline : Option Nat} {start time : Nat} {first p : AttemptPoll T E}
  {rest ps : List (AttemptPoll T E)} {timers timers' : AttemptTimers}

def due (timers : AttemptTimers) (now : Nat) : Option (AttemptOutcome T E) :=
  if timers.attempt.any fun wake => decide (wake ≤ now) then some .attemptTimeout
  else if timers.total.any fun wake => decide (wake ≤ now) then some .totalTimeout
  else none

theorem armAttempt_still (timeout deadline : Option Nat) (now : Nat) :
    armAttempt timeout deadline (.still now) =
      ({ attempt := timeout.map fun t => now + t
         total := deadline.map fun d => now + (d - now) }, .still now) := by
  cases timeout <;> cases deadline <;> rfl

theorem armAttempt_attempt (t : Nat) (deadline : Option Nat) (now : Nat) :
    (armAttempt (some t) deadline (.still now)).1.attempt = some (now + t) := by
  rw [armAttempt_still]
  rfl

theorem pollTimer_still (now : Nat) (timer : Option Nat) :
    (Core.still now).pollTimer timer =
      (timer.any fun wake => decide (wake ≤ now), .still now) := by
  cases timer <;> rfl

theorem pollArmed_still (timers : AttemptTimers) (now : Nat) :
    (pollArmed timers (.still now) : (AttemptOutcome T E ⊕ AttemptTimers) × Core) =
      (match due timers now with
        | some outcome => .inl outcome
        | none => .inr timers, .still now) := by
  unfold pollArmed due
  simp only [pollTimer_still]
  split
  · rfl
  · split
    · rfl
    · rfl

/-! ### Armed timers -/

theorem decided_of_ready {r : Except E T} (hop : p.op = some r) (timers : Option AttemptTimers) :
    decided timeout deadline timers time (p :: ps) = some (0, .completed r) := by
  simp [decided, selectAttempt, hop]

theorem decided_of_due {outcome : AttemptOutcome T E} (hop : p.op = none)
    (hdue : due timers (p.clock time) = some outcome) :
    decided timeout deadline (some timers) time (p :: ps) = some (0, outcome) := by
  simp [decided, selectAttempt, hop, pollArmed_still, hdue]

theorem decided_of_not_due (hop : p.op = none)
    (hdue : due timers (p.clock time) = (none : Option (AttemptOutcome T E))) :
    decided timeout deadline (some timers) time (p :: ps) =
      (decided timeout deadline (some timers) (p.clock time) ps).map fun r => (r.1 + 1, r.2) := by
  simp only [decided, selectAttempt, hop, pollArmed_still, hdue]
  rfl

/-- The code's attempt has the timers of one that starts when the first poll is over. -/
theorem lazily_of_pending (hop : first.op = none) :
    lazily timeout deadline start (first :: rest) =
      decided timeout deadline
        (some (armAttempt timeout deadline (.still (first.clock start))).1) start
        (first :: rest) := by
  unfold lazily
  simp only [decided, selectAttempt, hop, armAttempt_still]

theorem decided_cons_congr
    (hnow : (due timers (p.clock time) : Option (AttemptOutcome T E)) =
      due timers' (p.clock time))
    (htail : (decided timeout deadline (some timers) (p.clock time) ps :
        Option (Nat × AttemptOutcome T E)) =
      decided timeout deadline (some timers') (p.clock time) ps) :
    decided timeout deadline (some timers) time (p :: ps) =
      decided timeout deadline (some timers') time (p :: ps) := by
  cases hop : p.op with
  | some r => rw [decided_of_ready hop, decided_of_ready hop]
  | none =>
      cases hdue : (due timers (p.clock time) : Option (AttemptOutcome T E)) with
      | some outcome => rw [decided_of_due hop hdue, decided_of_due hop (hnow ▸ hdue)]
      | none =>
          rw [decided_of_not_due hop hdue, decided_of_not_due hop (hnow ▸ hdue), htail]

theorem decided_congr (h : ∀ now, time ≤ now →
    (due timers now : Option (AttemptOutcome T E)) = due timers' now) :
    (decided timeout deadline (some timers) time ps : Option (Nat × AttemptOutcome T E)) =
      decided timeout deadline (some timers') time ps := by
  induction ps generalizing time with
  | nil => rfl
  | cons p ps ih =>
      have hlater : time ≤ p.clock time := p.le_clock time
      exact decided_cons_congr (h _ hlater) (ih fun now hnow => h now (by omega))

/-- An armed attempt timeout decides the first pending poll that finds it passed. -/
theorem decided_punctual {wake : Nat} (hwake : timers.attempt = some wake) {i : Nat}
    (hbefore : decided timeout deadline (some timers) time (ps.take i) = none)
    (hpending : ∃ p, ps[i]? = some p ∧ p.op = none) (hpassed : wake ≤ clockAt time ps i) :
    decided timeout deadline (some timers) time ps = some (i, .attemptTimeout) := by
  induction ps generalizing time i with
  | nil =>
      obtain ⟨p, hp, _⟩ := hpending
      simp at hp
  | cons p ps ih =>
      cases i with
      | zero =>
          obtain ⟨q, hq, hop⟩ := hpending
          cases Option.some.inj hq
          have hreached : wake ≤ p.clock time := hpassed
          apply decided_of_due hop
          simp [due, hwake, hreached]
      | succ i =>
          have htail : ∃ q, ps[i]? = some q ∧ q.op = none := hpending
          rw [List.take_succ_cons] at hbefore
          cases hop : p.op with
          | some r =>
              rw [decided_of_ready hop] at hbefore
              cases hbefore
          | none =>
              cases hdue : (due timers (p.clock time) : Option (AttemptOutcome T E)) with
              | some outcome =>
                  rw [decided_of_due hop hdue] at hbefore
                  cases hbefore
              | none =>
                  rw [decided_of_not_due hop hdue, Option.map_eq_none_iff] at hbefore
                  rw [decided_of_not_due hop hdue, ih hbefore htail hpassed]
                  rfl

theorem decided_singleton_ne (hop : p.op = none)
    (hdue : (due timers (p.clock time) : Option (AttemptOutcome T E)) ≠ some .attemptTimeout) :
    decided timeout deadline (some timers) time [p] ≠ some (0, .attemptTimeout) := by
  cases hlate : (due timers (p.clock time) : Option (AttemptOutcome T E)) with
  | some outcome =>
      rw [decided_of_due hop hlate]
      intro heq
      have houtcome : outcome = .attemptTimeout := (Prod.mk.inj (Option.some.inj heq)).2
      rw [houtcome] at hlate
      exact hdue hlate
  | none =>
      rw [decided_of_not_due hop hlate]
      intro heq
      cases heq

/-! ### The two attempts -/

/-- What the first poll must not do: take time while an attempt timeout runs, unless the
poll ends the attempt all the same. -/
def LosesNoTime (timeout deadline : Option Nat) (start : Nat) (first : AttemptPoll T E) : Prop :=
  first.op.isSome = true ∨ timeout = none ∨ timeout = some 0 ∨ first.clock start = start ∨
    ∃ t d, timeout = some t ∧ deadline = some d ∧ d ≤ first.clock start ∧
      first.clock start < start + t

/-- An absolute deadline does not care when its timer is armed. -/
theorem deadline_due {now wake : Nat} (h : start ≤ wake) (hnow : wake ≤ now)
    (deadline : Option Nat) :
    ((deadline.map fun d => wake + (d - wake)).any fun w => decide (w ≤ now)) =
      (deadline.map fun d => start + (d - start)).any fun w => decide (w ≤ now) := by
  cases deadline with
  | none => rfl
  | some d =>
      simp only [Option.map_some, Option.any_some, decide_eq_decide]
      omega

/-- Until the timeout is due, timers armed at `wake` decide as the deadline says. -/
theorem due_before_timeout {now wake t : Nat} (hwake : wake ≤ now) (hnow : now < wake + t)
    (deadline : Option Nat) :
    (due (armAttempt (some t) deadline (.still wake)).1 now : Option (AttemptOutcome T E)) =
      if deadline.any fun d => decide (d ≤ now) then some .totalTimeout else none := by
  have hfuture : ¬ wake + t ≤ now := by omega
  cases deadline with
  | none => simp [due, armAttempt_still, hfuture]
  | some d =>
      have htotal : wake + (d - wake) ≤ now ↔ d ≤ now := by omega
      simp [due, armAttempt_still, hfuture, htotal]

/-- From the end of the first poll on, a timeout that is not there, that is zero or that is
armed without delay is due as one armed at the start. -/
theorem due_armed_late (hnone : timeout = none ∨ timeout = some 0 ∨ first.clock start = start)
    {now : Nat} (hnow : first.clock start ≤ now) :
    (due (armAttempt timeout deadline (.still (first.clock start))).1 now :
        Option (AttemptOutcome T E)) =
      due (armAttempt timeout deadline (.still start)).1 now := by
  have hlater := first.le_clock start
  rcases hnone with hnone | hzero | hsame
  · simp only [armAttempt_still, due, hnone, Option.map_none, deadline_due hlater hnow]
  · have hearly : start ≤ now := by omega
    simp [armAttempt_still, due, hzero, hnow, hearly]
  · rw [hsame]

theorem lazily_eq_eagerly (h : LosesNoTime timeout deadline start first)
    (rest : List (AttemptPoll T E)) :
    lazily timeout deadline start (first :: rest) =
      eagerly timeout deadline start (first :: rest) := by
  have hlater := first.le_clock start
  cases hop : first.op with
  | some r => exact (decided_of_ready hop none).trans (decided_of_ready hop _).symm
  | none =>
      rw [lazily_of_pending hop]
      unfold eagerly
      have hharmless : timeout = none ∨ timeout = some 0 ∨ first.clock start = start →
          (decided timeout deadline
            (some (armAttempt timeout deadline (.still (first.clock start))).1) start
            (first :: rest) : Option (Nat × AttemptOutcome T E)) =
          decided timeout deadline (some (armAttempt timeout deadline (.still start)).1) start
            (first :: rest) := fun hcase =>
        decided_cons_congr (due_armed_late hcase (Nat.le_refl _))
          (decided_congr fun _ hnow => due_armed_late hcase hnow)
      rcases h with hready | hnone | hzero | hsame | ⟨t, d, rfl, rfl, hpassed, hroom⟩
      · simp [hop] at hready
      · exact hharmless (.inl hnone)
      · exact hharmless (.inr (.inl hzero))
      · exact hharmless (.inr (.inr hsame))
      · -- the deadline has passed and the timeout has not, whenever it was armed
        have htotal : ∀ wake, start ≤ wake → wake ≤ first.clock start →
            (due (armAttempt (some t) (some d) (.still wake)).1 (first.clock start) :
              Option (AttemptOutcome T E)) = some .totalTimeout := by
          intro wake hwake hwake'
          rw [due_before_timeout hwake' (by omega)]
          simp [hpassed]
        rw [decided_of_due hop (htotal _ hlater (Nat.le_refl _)),
          decided_of_due hop (htotal _ (Nat.le_refl _) hlater)]

theorem passed_in_first_poll {t : Nat} (hop : first.op = none) (hpos : 0 < t)
    (hpassed : start + t ≤ first.clock start) :
    lazily (some t) deadline start [first] ≠ eagerly (some t) deadline start [first] := by
  have hfirst : eagerly (some t) deadline start [first] = some (0, .attemptTimeout) :=
    decided_punctual (armAttempt_attempt ..) rfl ⟨first, rfl, hop⟩ hpassed
  rw [hfirst, lazily_of_pending hop]
  apply decided_singleton_ne hop
  rw [due_before_timeout (Nat.le_refl _) (by omega)]
  split
  · simp
  · simp

/-- A second poll exactly when the attempt timeout has passed. -/
def atTimeout (start t : Nat) (first : AttemptPoll T E) : AttemptPoll T E :=
  { wait := start + t - first.clock start, opElapsed := 0, op := none }

theorem clock_atTimeout {t : Nat} (h : first.clock start ≤ start + t) :
    (atTimeout start t first).clock (first.clock start) = start + t := by
  show first.clock start + (start + t - first.clock start) + 0 = start + t
  omega

/-- A timeout that passes after the first poll, which took time, is not armed for it. -/
theorem passed_in_second_poll {t : Nat} (hop : first.op = none)
    (hmoved : start < first.clock start) (hroom : first.clock start < start + t)
    (hopen : ∀ d, deadline = some d → first.clock start < d) :
    lazily (some t) deadline start [first, atTimeout start t first] ≠
      eagerly (some t) deadline start [first, atTimeout start t first] := by
  have hclock := clock_atTimeout (Nat.le_of_lt hroom)
  have hundecided : ∀ wake, start ≤ wake → wake ≤ first.clock start →
      (due (armAttempt (some t) deadline (.still wake)).1 (first.clock start) :
        Option (AttemptOutcome T E)) = none := by
    intro wake hwake hwake'
    rw [due_before_timeout hwake' (by omega)]
    cases hd : deadline with
    | none => rfl
    | some d => simp [hopen d hd]
  have heagerFirst := hundecided start (Nat.le_refl _) (Nat.le_of_lt hmoved)
  have hlazyFirst := hundecided _ (Nat.le_of_lt hmoved) (Nat.le_refl _)
  have hsecond : eagerly (some t) deadline start [first, atTimeout start t first] =
      some (1, .attemptTimeout) :=
    decided_punctual (armAttempt_attempt ..) (decided_of_not_due hop heagerFirst) ⟨_, rfl, rfl⟩
      (Nat.le_of_eq hclock.symm)
  rw [hsecond, lazily_of_pending hop, decided_of_not_due hop hlazyFirst]
  intro heq
  obtain ⟨result, hresult, hshift⟩ := Option.map_eq_some_iff.mp heq
  have hindex : result.1 = 0 := Nat.succ.inj (Prod.mk.inj hshift).1
  have houtcome : result.2 = .attemptTimeout := (Prod.mk.inj hshift).2
  have hpair : result = (0, .attemptTimeout) := Prod.ext hindex houtcome
  refine decided_singleton_ne rfl ?_ (hresult.trans (congrArg some hpair))
  rw [hclock, due_before_timeout (Nat.le_of_lt hroom) (by omega)]
  split
  · simp
  · simp

/-- After a first poll that loses time, it or a second one finds the timeout passed and not
armed for it. -/
theorem lazily_ne_eagerly (h : ¬ LosesNoTime timeout deadline start first) :
    ∃ rest, lazily timeout deadline start (first :: rest) ≠
      eagerly timeout deadline start (first :: rest) := by
  unfold LosesNoTime at h
  push Not at h
  obtain ⟨hready, hsome, hzero, hmoved, hdeadline⟩ := h
  have hop : first.op = none := by simpa using hready
  obtain ⟨t, rfl⟩ := Option.ne_none_iff_exists'.mp hsome
  have hpos : t ≠ 0 := fun h0 => hzero (congrArg some h0)
  have hlater := first.le_clock start
  by_cases hpassed : start + t ≤ first.clock start
  · exact ⟨[], passed_in_first_poll hop (by omega) hpassed⟩
  · refine ⟨[atTimeout start t first], passed_in_second_poll hop (by omega) (by omega) ?_⟩
    intro d hd
    have hopen := hdeadline t d rfl hd
    omega

end Attempt

/-- For every attempt timeout, deadline and first poll of an attempt: whatever follows, the
attempt is decided by the poll and with the outcome that timers armed at its start would
give, exactly when that first poll loses no time. -/
theorem armedInTime_iff (timeout deadline : Option Nat) (start : Nat) (first : AttemptPoll T E) :
    ArmedInTime timeout deadline start first ↔ LosesNoTime timeout deadline start first := by
  constructor
  · intro h
    by_contra hlost
    obtain ⟨rest, hne⟩ := lazily_ne_eagerly hlost
    exact hne (h.agrees rest)
  · intro h
    refine ⟨lazily_eq_eagerly h, ?_⟩
    rintro rest i t rfl hbefore hpending hpassed
    rw [lazily_eq_eagerly h]
    apply decided_punctual (armAttempt_attempt ..) _ hpending hpassed
    cases i with
    | zero => rfl
    | succ i =>
        rw [List.take_succ_cons, lazily_eq_eagerly h] at hbefore
        exact hbefore

/-- An attempt timeout of 5 ns and a first poll that takes 7 ns: the attempt goes on. -/
theorem slow_first_poll_outlives_timeout :
    (lazily (some 5) none 0 [{ wait := 0, opElapsed := 7, op := none }] :
      Option (Nat × AttemptOutcome Nat Nat)) = none ∧
    (eagerly (some 5) none 0 [{ wait := 0, opElapsed := 7, op := none }] :
      Option (Nat × AttemptOutcome Nat Nat)) = some (0, .attemptTimeout) ∧
    ¬ ArmedInTime (some 5) none 0
      ({ wait := 0, opElapsed := 7, op := none } : AttemptPoll Nat Nat) := by
  refine ⟨rfl, rfl, fun h => ?_⟩
  have hagrees := h.agrees []
  cases hagrees

end ExecutionPolicy
