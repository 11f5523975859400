import ExecutionPolicy.Engine.Pipeline

/-! # What a stretch of the pipeline leaves as it is

Between two await points a clock is only read forward. Quiet code leaves the breaker
alone, calm code starts and ends no attempt; and the outcome of an attempt says by
itself whether the loop may go on after it.
-/

namespace ExecutionPolicy

variable {T E : Type}

/-! ## Reading the clock -/

/-- From `k` to `k'` the clock was only read: it does not run back, and unless it is
scripted to move it stands still. -/
structure Reads (k k' : Core) : Prop where
  later : k.time ≤ k'.time
  still : k.ticks = [] → k'.ticks = [] ∧ k'.time = k.time

namespace Reads

theorem refl (k : Core) : Reads k k := ⟨Nat.le_refl _, fun h => ⟨h, rfl⟩⟩

theorem trans {k k' k'' : Core} (h : Reads k k') (h' : Reads k' k'') : Reads k k'' := by
  refine ⟨Nat.le_trans h.later h'.later, fun hs => ?_⟩
  obtain ⟨hticks, htime⟩ := h.still hs
  obtain ⟨hticks', htime'⟩ := h'.still hticks
  exact ⟨hticks', htime'.trans htime⟩

theorem tick (k : Core) : Reads k k.tick := by
  refine ⟨k.time_le_tick, fun h => ?_⟩
  rw [Core.tick_of_still h]
  exact ⟨h, rfl⟩

theorem sleep (k : Core) (d : Nat) : Reads k (k.sleep d).2 := tick k

theorem sleepUntil (k : Core) (deadline : Nat) : Reads k (k.sleepUntil deadline).2 :=
  (tick k).trans (tick k.tick)

theorem nextU64 (k : Core) : Reads k k.nextU64.2 := by
  unfold Core.nextU64
  cases k.draws <;> exact ⟨Nat.le_refl _, fun h => ⟨h, rfl⟩⟩

theorem pollTimer (k : Core) (timer : Option Nat) : Reads k (k.pollTimer timer).2 := by
  cases timer with
  | none => exact refl k
  | some wake => exact tick k

theorem armSleep (k : Core) (d : Option Nat) : Reads k (armSleep k d).2 := by
  cases d with
  | none => exact refl k
  | some d => exact sleep k d

theorem armDeadline (k : Core) (d : Option Nat) : Reads k (armDeadline k d).2 := by
  cases d with
  | none => exact refl k
  | some d => exact sleepUntil k d

end Reads

/-! ## Quiet code -/

/-- An event, or a check of the queue, the budget or the deadline. -/
def Obs.isQuiet : Obs T E → Bool
  | .event _ => true
  | .queueChecked _ => true
  | .withdrew => true
  | .paused _ => true
  | .resumed _ => true
  | _ => false

/-- From `f` to `g` events and checks were observed and the breaker was left alone. -/
structure Quiet (f g : Frame T E) : Prop where
  breaker : g.breaker = f.breaker
  log : ∃ os : List (Obs T E), g.log = f.log ++ os ∧ ∀ o ∈ os, o.isQuiet = true
  reads : Reads f.core g.core

namespace Quiet

variable {f g h : Frame T E}

theorem refl (f : Frame T E) : Quiet f f := ⟨rfl, ⟨[], by simp⟩, .refl _⟩

theorem trans (hfg : Quiet f g) (hgh : Quiet g h) : Quiet f h := by
  obtain ⟨os, hos, hquiet⟩ := hfg.log
  obtain ⟨os', hos', hquiet'⟩ := hgh.log
  refine ⟨hgh.breaker.trans hfg.breaker, ⟨os ++ os', by simp [hos', hos], fun o ho => ?_⟩,
    hfg.reads.trans hgh.reads⟩
  rcases List.mem_append.mp ho with ho | ho
  · exact hquiet o ho
  · exact hquiet' o ho

theorem sem (f : Frame T E) (s : SemState) : Quiet f { f with sem := s } :=
  ⟨rfl, ⟨[], by simp⟩, .refl _⟩

end Quiet

/-! ## Calm code -/

def Obs.isAttempt : Obs T E → Bool
  | .started _ _ => true
  | .ended _ _ _ => true
  | _ => false

theorem filterMap_of_calm {α : Type} {p : Obs T E → Option α}
    (hp : ∀ o, o.isAttempt = false → p o = none) {os : List (Obs T E)}
    (hos : ∀ o ∈ os, o.isAttempt = false) : os.filterMap p = [] :=
  List.filterMap_eq_nil_iff.mpr fun o ho => hp o (hos o ho)

/-- From `f` to `g` no attempt started or ended; the breaker may have been asked. -/
structure Calm (f g : Frame T E) : Prop where
  log : ∃ os : List (Obs T E), g.log = f.log ++ os ∧ ∀ o ∈ os, o.isAttempt = false
  reads : Reads f.core g.core

namespace Calm

variable {f g h : Frame T E}

theorem trans (hfg : Calm f g) (hgh : Calm g h) : Calm f h := by
  obtain ⟨os, hos, hnone⟩ := hfg.log
  obtain ⟨os', hos', hnone'⟩ := hgh.log
  refine ⟨⟨os ++ os', by simp [hos', hos], fun o ho => ?_⟩, hfg.reads.trans hgh.reads⟩
  rcases List.mem_append.mp ho with ho | ho
  · exact hnone o ho
  · exact hnone' o ho

theorem note (f : Frame T E) {o : Obs T E} (ho : o.isAttempt = false) : Calm f (f.note o) :=
  ⟨⟨[o], rfl, by simpa using ho⟩, .refl _⟩

theorem filterMap_log {α : Type} {p : Obs T E → Option α}
    (hp : ∀ o, o.isAttempt = false → p o = none) (h : Calm f g) :
    g.log.filterMap p = f.log.filterMap p := by
  obtain ⟨os, hos, hnone⟩ := h.log
  rw [hos, List.filterMap_append, filterMap_of_calm hp hnone, List.append_nil]

end Calm

theorem Quiet.calm {f g : Frame T E} (h : Quiet f g) : Calm f g := by
  obtain ⟨os, hos, hquiet⟩ := h.log
  refine ⟨⟨os, hos, fun o ho => ?_⟩, h.reads⟩
  have hq := hquiet o ho
  cases o <;> simp_all [Obs.isQuiet, Obs.isAttempt]

/-! ## Permits -/

theorem pollPermit_granted {id : Nat} {timers : QueueTimers} {f : Frame T E}
    (h : (pollPermit id timers f).1 = .granted) : 0 < f.sem.permits := by
  by_contra hz
  have hzero : f.sem.permits = 0 := by omega
  unfold pollPermit at h
  rw [SemState.pollAcquire_of_zero hzero] at h
  dsimp only at h
  split at h
  · cases h
  · split at h <;> cases h

/-! ## The end of an attempt -/

namespace AttemptOutcome

def retried (plan : Plan T E) : AttemptOutcome T E → Bool
  | completed r => plan.retry.decide r == .retry
  | attemptTimeout => true
  | totalTimeout => false

/-- The error the attempt itself returned. -/
def error? : AttemptOutcome T E → Option E
  | completed (.error e) => some e
  | _ => none

/-- The result that says what this attempt did. -/
def own (ctx : ErrorContext) : AttemptOutcome T E → Except (ExecutionError E) T
  | completed (.ok v) => .ok v
  | completed (.error e) => .error (.operation e ctx)
  | attemptTimeout => .error (.attemptTimeout ctx)
  | totalTimeout => .error (.totalTimeout ctx)

end AttemptOutcome

/-- The locals of `drive` once the outcome has been looked at. -/
def Drive.seen (d : Drive E) (outcome : AttemptOutcome T E) : Drive E :=
  { d with lastError := outcome.error?.or d.lastError }

/-- The loop goes on past the `match`: a retried outcome with attempts left. -/
def GoesOn (plan : Plan T E) (number : Nat) (outcome : AttemptOutcome T E) : Prop :=
  outcome.retried plan = true ∧ number < plan.retry.maxAttempts

def OutOfTime (plan : Plan T E) (start now : Nat) : Prop :=
  ∃ m, plan.retry.maxElapsed = some m ∧ m ≤ Instant.durationSince now start

/-- What the `max_elapsed` exit returns: the carried error, else an attempt timeout. -/
def elapsedResult (lastError : Option E) (ctx : ErrorContext) : Except (ExecutionError E) T :=
  .error (match lastError with
    | some e => .operation e ctx
    | none => .attemptTimeout ctx)

/-! ## The pipeline around the loop -/

def Drive.first (breakerState : BreakerState) : Drive E :=
  { breakerState, lastDelay := none, lastError := none, attemptNo := 1 }

theorem dropCall_cases {call : Call T E} {f : Frame T E} {done : Call T E × Frame T E}
    (h : dropCall call f = some done) :
    done.1 = { call with opPermit := false, stage := .dropped } ∧
      ∃ g, Quiet f g ∧ done.2 = g.note .unrecorded := by
  have hop : Quiet f (if call.opPermit then { f with sem := f.sem.release.2 } else f) := by
    split
    · exact .sem f _
    · exact .refl f
  unfold dropCall at h
  cases hstage : call.stage with
  | running d permit timers =>
      simp only [hstage, Option.some.injEq] at h
      refine ⟨by rw [← h], ?_⟩
      cases permit with
      | false => exact ⟨_, hop, by rw [← h]; rfl⟩
      | true => exact ⟨_, hop.trans (.sem _ _), by rw [← h]; rfl⟩
  | returned r => simp [hstage] at h
  | dropped => simp [hstage] at h
  | _ =>
      simp only [hstage, Option.some.injEq] at h
      exact ⟨by rw [← h], _, hop, by rw [← h]⟩

end ExecutionPolicy
