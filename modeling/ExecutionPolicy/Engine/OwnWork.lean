import ExecutionPolicy.Engine.Recovery
import ExecutionPolicy.Engine.Parallel

/-! # How much a poll does

No program of a call goes round in a circle: once it is polled, or has called its operation,
a call makes a bounded number of accesses to what it shares, whatever they answer. A section
under a lock and a compare-and-swap loop count as one access.
-/

namespace ExecutionPolicy

open StepSystem Interleaving

variable {T E : Type}

namespace Parallel

/-! ## Small steps -/

section Steps

variable {plan : Plan T E} {α : Type} {n : Nat}

theorem within_ask {a : Access T E} {f : a.Answer → Code T E α} :
    (ask a >>= f).Within (n + 1) ↔ ∀ r, (f r).Within n := Iff.rfl

theorem within_now {f : Nat → Code T E α} (h : ∀ t, (f t).Within n) :
    (now >>= f).Within (n + 1) := h

theorem within_note {o : Obs T E} {f : Unit → Code T E α} (h : (f ()).Within n) :
    (note o >>= f).Within (n + 1) := fun _ => h

theorem within_emit {e : Event} {f : Unit → Code T E α} (h : (f ()).Within n) :
    (emit plan e >>= f).Within (n + 1) := by
  unfold emit
  split
  · exact fun _ => h
  · exact h.mono (Nat.le_succ n)

theorem within_sleep {d : Nat} {f : Nat → Code T E α} (h : ∀ t, (f t).Within n) :
    (sleep d >>= f).Within (n + 1) := fun t => h (t + d)

theorem within_armSleep {d : Option Nat} {f : Option Nat → Code T E α}
    (h : ∀ t, (f t).Within n) : (armSleep d >>= f).Within (n + 1) := by
  cases d with
  | none => exact (h none).mono (Nat.le_succ n)
  | some d => exact fun t => h (some (t + d))

theorem within_armDeadline {d : Option Nat} {f : Option Nat → Code T E α}
    (h : ∀ t, (f t).Within n) : (armDeadline d >>= f).Within (n + 2) := by
  cases d with
  | none => exact (h none).mono (Nat.le_add_right n 2)
  | some d => exact fun t t' => h (some (t' + _))

theorem within_pollTimer {wake : Option Nat} {f : Bool → Code T E α} (h : ∀ r, (f r).Within n) :
    (pollTimer wake >>= f).Within (n + 1) := by
  cases wake with
  | none => exact (h false).mono (Nat.le_succ n)
  | some wake => exact fun t => h (decide (wake ≤ t))

theorem within_result (n : Nat) (a : α) : (pure a : Code T E α).Within n := Program.within_done n a

end Steps

/-! ## The stretches -/

section Stretches

variable (plan : Plan T E) (call : Call T E) (d : Drive E)

theorem within_pollPermit (timers : QueueTimers) :
    (pollPermit timers : Code T E AcquireResult).Within 3 := by
  refine within_ask.mpr fun taken => ?_
  cases taken with
  | true => exact within_result 2 _
  | false =>
      refine within_pollTimer fun expired => ?_
      cases expired with
      | true => exact within_result 1 _
      | false =>
          refine within_pollTimer fun late => ?_
          cases late <;> exact within_result 0 _

theorem within_acquirePermit (limit : ConcurrencyLimit) (totalDeadline : Option Nat) :
    (acquirePermit limit totalDeadline : Code T E AcquireResult).Within 8 := by
  refine within_ask.mpr fun taken => ?_
  cases taken with
  | true => exact within_result 7 _
  | false =>
      simp only [Bool.false_eq_true, if_false]
      split
      next => exact within_result 7 _
      next maxQueued queueTimeout =>
          refine within_ask.mpr fun full => ?_
          cases full with
          | true => exact within_result 6 _
          | false => exact within_armSleep fun queue => within_armDeadline fun deadline =>
              within_pollPermit _

theorem within_invoke (attempt : Attempt) (permit : Bool) :
    (invoke d attempt permit : Code T E (Polled T E)).Within 1 := fun _ => trivial

theorem within_withPermit (attempt : Attempt) (r : AcquireResult) :
    (withPermit plan call d attempt r).Within 2 := by
  cases r with
  | granted => exact (within_invoke d attempt true).mono (by decide)
  | rejected => exact within_emit (within_now fun _ => within_result 0 _)
  | queued timers => exact within_result 2 _

theorem within_loopTop : (loopTop plan call d).Within 11 := by
  refine within_now fun present => ?_
  split
  next limit hc =>
      split
      next => exact (within_acquirePermit limit _).bind fun r => within_withPermit plan call d _ r
      next => exact (within_invoke d _ false).mono (by decide)
  next => exact (within_invoke d _ false).mono (by decide)

theorem within_nextRound : (nextRound plan call d).Within 13 := by
  unfold nextRound
  split
  next deadline hd =>
      refine within_now fun present => within_note ?_
      split
      next => exact within_now fun _ => within_result 10 _
      next => exact within_loopTop plan call _
  next => exact (within_loopTop plan call _).mono (by decide)

theorem within_sleeping (wake : Nat) : (sleeping plan call d wake).Within 14 := by
  refine within_now fun present => ?_
  split
  next => exact within_nextRound plan call d
  next => exact within_result 13 _

theorem within_announce (raw : Nat) : (announce plan call d raw).Within 17 := by
  have hrest : ∀ delay, (do
      emit plan (.retryScheduled d.attemptNo delay)
      if delay = 0 then nextRound plan call d
      else sleeping plan call d (← sleep delay)).Within 16 := by
    intro delay
    refine within_emit ?_
    split
    next => exact (within_nextRound plan call d).mono (by decide)
    next => exact within_sleep fun wake => within_sleeping plan call d wake
  unfold announce
  split
  next deadline hd => exact within_now fun present => hrest _
  next => exact (hrest raw).mono (by decide)

theorem within_pause : (pause plan call d).Within 20 := by
  refine within_ask.mpr fun rng => ?_
  dsimp only
  split
  next deadline hd =>
      refine within_now fun present => within_note ?_
      split
      next err he =>
          split
          next hint hh =>
              split
              next => exact within_emit (within_now fun _ => within_result 15 _)
              next => exact within_announce plan call _ _
          next => exact within_announce plan call _ _
      next => exact within_announce plan call _ _
  next => exact (within_announce plan call _ _).mono (by decide)

theorem within_checkBudget (ended : Nat) : (checkBudget plan call d ended).Within 21 := by
  unfold checkBudget
  split
  next hb =>
      refine within_ask.mpr fun taken => ?_
      cases taken with
      | true => exact within_pause plan call d
      | false => exact within_emit (within_result 19 _)
  next => exact (within_pause plan call d).mono (by decide)

theorem within_checkElapsed (ended : Nat) : (checkElapsed plan call d ended).Within 21 := by
  unfold checkElapsed
  split
  next maxElapsed hmax =>
      split
      next =>
          refine within_emit ?_
          dsimp only
          split <;> exact within_result 20 _
      next => exact within_checkBudget plan call d ended
  next => exact within_checkBudget plan call d ended

theorem within_matchOutcome (outcome : AttemptOutcome T E) (ended : Nat) :
    (matchOutcome plan call d outcome ended).Within 22 := by
  unfold matchOutcome
  dsimp only
  split
  next => exact within_emit (within_result 21 _)
  next result =>
      split
      next => split <;> exact within_emit (within_result 21 _)
      next =>
          split
          next v =>
              split
              next => exact within_emit (within_result 21 _)
              next => exact (within_checkElapsed plan call d ended).mono (by decide)
          next e =>
              split
              next => exact within_emit (within_result 21 _)
              next => exact within_emit (within_checkElapsed plan call _ ended)
  next =>
      refine within_emit ?_
      split
      next => exact within_emit (within_result 20 _)
      next => exact within_checkElapsed plan call d ended

theorem within_afterSelect (permit : Bool) (outcome : AttemptOutcome T E) :
    (afterSelect plan call d permit outcome).Within 25 := by
  have hover : (do
      let ended ← now
      note (.ended d.attemptNo outcome ended)
      matchOutcome plan call d outcome ended).Within 24 :=
    within_now fun ended => within_note (within_matchOutcome plan call d outcome ended)
  unfold afterSelect
  cases permit with
  | true => exact within_ask.mpr fun _ => hover
  | false => exact hover.mono (by decide)

theorem within_pollSleeps (permit : Bool) (armed : AttemptTimers) :
    (pollSleeps plan call d permit armed).Within 27 := by
  refine within_pollTimer fun attempt => ?_
  split
  next => exact (within_afterSelect plan call d permit _).mono (by decide)
  next =>
      refine within_pollTimer fun total => ?_
      split
      next => exact within_afterSelect plan call d permit _
      next => exact within_result 25 _

theorem within_pollSelect (permit : Bool) (timers : Option AttemptTimers) :
    (pollSelect plan call d permit timers).Within 31 := by
  refine within_ask.mpr fun answer => ?_
  split
  next r => exact (within_afterSelect plan call d permit _).mono (by decide)
  next =>
      split
      next armed => exact (within_pollSleeps plan call d permit armed).mono (by decide)
      next => exact within_armSleep fun attempt => within_armDeadline fun total =>
          within_pollSleeps plan call d permit _

theorem within_leave (result : Except (ExecutionError E) T) : (leave call result).Within 1 := by
  unfold leave
  split
  next => exact within_ask.mpr fun _ => within_result 0 _
  next => exact within_result 1 _

theorem within_vote (b : CompiledBreaker E) (present : Nat)
    (result : Except (ExecutionError E) T) : (vote b present result).Within 1 := by
  unfold vote
  split
  next => exact fun _ => trivial
  next e =>
      split
      next => exact fun _ => trivial
      next =>
          split
          next => split <;> exact fun _ => trivial
          next => exact fun _ => trivial

theorem within_record (result : Except (ExecutionError E) T) : (record plan result).Within 3 := by
  unfold record
  split
  next b hb =>
      refine within_now fun present => ?_
      refine Program.Within.bind (n := 1) (within_vote b present result) fun r => ?_
      cases r with
      | none => exact within_result 1 _
      | some state =>
          dsimp only
          unfold emit
          split
          next => exact fun _ => trivial
          next => exact within_result 1 _
  next => exact within_result 3 _

theorem within_awaitDrive {drive : Code T E (Polled T E)} {n : Nat} (h : drive.Within n) :
    (awaitDrive plan call drive).Within (n + 4) := by
  refine h.bind fun polled => ?_
  cases polled with
  | pending stage => exact within_result 4 _
  | ready result => exact (within_record plan result).bind fun _ => within_leave call result

theorem within_enterDrive (as : BreakerState) : (enterDrive plan call as).Within 16 := by
  have hfirst := within_awaitDrive plan call (within_loopTop plan call
    { breakerState := as, lastDelay := none, lastError := none, attemptNo := 1 })
  unfold enterDrive
  split
  next => exact within_ask.mpr fun _ => hfirst
  next => exact hfirst.mono (by decide)

theorem within_belowPermit : (belowPermit plan call).Within 19 := by
  unfold belowPermit
  split
  next => exact (within_enterDrive plan call _).mono (by decide)
  next b hb =>
      refine within_now fun present => within_ask.mpr fun answer => ?_
      split
      next as =>
          split
          next => exact within_emit (within_enterDrive plan call as)
          next => exact (within_enterDrive plan call as).mono (by decide)
      next => exact within_now fun _ => (within_leave call _).mono (by decide)

theorem within_withOpPermit (r : AcquireResult) : (withOpPermit plan call r).Within 19 := by
  cases r with
  | granted => exact within_belowPermit plan _
  | rejected =>
      refine within_note (within_emit (within_now fun _ => ?_))
      exact (within_leave call _).mono (by decide)
  | queued timers => exact within_result 19 _

theorem within_runPipeline : (runPipeline plan call).Within 28 := by
  refine within_now fun start => ?_
  dsimp only
  split
  next limit hc =>
      split
      next => exact (within_acquirePermit limit _).bind fun r => within_withOpPermit plan _ r
      next => exact (within_belowPermit plan _).mono (by decide)
  next => exact (within_belowPermit plan _).mono (by decide)

theorem within_dropRest : (do
      if call.opPermit then ask .release
      note .unrecorded
      return { call with opPermit := false, stage := .dropped } :
        Code T E (Call T E)).Within 2 := by
  split
  next => exact within_ask.mpr fun _ => within_note (within_result 0 _)
  next => exact within_note (within_result 1 _)

/-- Whatever a call is told to do, it is at an await point or over after 35 accesses. -/
theorem within_program {move : Move} {code : Code T E (Call T E)}
    (h : (machine plan).program move call = some code) : code.Within 35 := by
  cases move with
  | poll =>
      change pollCall plan call = some code at h
      unfold pollCall at h
      cases hs : call.stage with
      | created =>
          rw [hs] at h
          cases h
          exact (within_runPipeline plan call).mono (by decide)
      | operationsQueue timers =>
          rw [hs] at h
          cases h
          refine Program.Within.mono (m := 22) ?_ (by decide)
          exact (within_pollPermit timers).bind fun r => within_withOpPermit plan call r
      | attemptsQueue d attempt timers =>
          rw [hs] at h
          cases h
          refine (within_awaitDrive plan call (n := 5) ?_).mono (by decide)
          exact (within_pollPermit timers).bind fun r => within_withPermit plan call d attempt r
      | running d permit timers =>
          rw [hs] at h
          cases h
          exact within_awaitDrive plan call (within_pollSelect plan call d permit timers)
      | backingOff d wake =>
          rw [hs] at h
          cases h
          exact (within_awaitDrive plan call (within_sleeping plan call d wake)).mono (by decide)
      | returned r | dropped =>
          rw [hs] at h
          cases h
  | drop =>
      change dropCall call = some code at h
      unfold dropCall at h
      have hrest := within_dropRest call
      cases hs : call.stage with
      | running d permit timers =>
          rw [hs] at h
          cases h
          cases permit with
          | true => exact Program.Within.mono (m := 3) (fun _ => hrest) (by decide)
          | false => exact hrest.mono (by decide)
      | returned r | dropped =>
          rw [hs] at h
          cases h
      | _ =>
          rw [hs] at h
          cases h
          exact hrest.mono (by decide)

end Stretches

end Parallel

/-- However the calls interleave, each makes at most 35 accesses for each time it is polled or
dropped, or goes on after it has called its operation. -/
theorem threads_work_bounded (plan : Plan T E) (start : Nat) (ls : List (Parallel.Label T E))
    (s : Parallel.Threads T E)
    (hrun : run (Parallel.step plan) (Parallel.init plan start) ls = some s) (i : Nat) :
    ls.countP (Label.accesses i) ≤ 35 * ls.countP (Label.starts i) := by
  have hprogram : ∀ move call code, (Parallel.machine plan).program move call = some code →
      code.Within 35 := fun move call code => Parallel.within_program plan call
  have hnone : ∀ job ∈ (Parallel.init plan start).jobs[i]?, job.Within 0 := by
    intro job hjob
    simp [Parallel.init] at hjob
  simpa using Machine.accesses_le hprogram hnone hrun

def sideBySide : List (Parallel.Label Nat Nat) :=
  [.arrive, .arrive, .start 1 .poll, .start 0 .poll, .access 0 ⟨0, none⟩, .access 1 ⟨0, none⟩,
    .access 0 ⟨0, none⟩]

theorem threads_work_bounded_sideBySide :
    sideBySide.countP (Label.accesses 0) = 2 ∧
      sideBySide.countP (Label.accesses 0) ≤ 35 * sideBySide.countP (Label.starts 0) := by
  obtain ⟨s, hs⟩ : ∃ s, run (Parallel.step fragile) (Parallel.init fragile 0) sideBySide = some s :=
    ⟨_, rfl⟩
  exact ⟨rfl, threads_work_bounded fragile 0 sideBySide s hs 0⟩

end ExecutionPolicy
