import ExecutionPolicy.Engine.Parallel
import ExecutionPolicy.Engine.Permits

/-! # Whole polls are interleavings

A poll that nothing interrupts is one way for the accesses of a call to come: played on the
frame of one poll, the programs of the calls are the actions of the pipeline, and so every
run of calls polled one at a time is a run of calls on many threads.
-/

namespace ExecutionPolicy

open StepSystem Interleaving

variable {T E : Type}

namespace Parallel

/-! ## Accesses within a poll -/

/-- How an access of call `id` is answered in the frame of a poll; the operation is polled as
the script says. -/
def answer (id : Nat) (script : Script T E) : (a : Access T E) → Boxed.Act T E a.Answer
  | .now => Boxed.now
  | .nextU64 => Boxed.onCore Core.nextU64
  | .operate => do
      modify fun f => { f with core := f.core.elapse script.opElapsed }
      return script.op
  | .tryAcquire => modifyGet fun f =>
      match f.sem.tryAcquire with
      | some sem => (true, { f with sem })
      | none => (false, f)
  | .queueFull maxQueued => modifyGet fun f =>
      (decide (maxQueued ≤ f.sem.queued),
        f.note (.queueChecked (decide (maxQueued ≤ f.sem.queued))))
  | .pollAcquire => modifyGet fun f =>
      ((f.sem.pollAcquire id).1, { f with sem := (f.sem.pollAcquire id).2 })
  | .release => Boxed.release
  | .gate cfg now => do
      let answer ← Boxed.onBreaker fun b => b.gate cfg now
      Boxed.note (.gated now)
      return answer
  | .recordSuccess cfg now => do
      let transition ← Boxed.onBreaker fun b => b.recordSuccess cfg now
      Boxed.note (.votedSuccess now)
      return transition
  | .recordFailure cfg now => do
      let transition ← Boxed.onBreaker fun b => b.recordFailure cfg now
      Boxed.note (.votedFailure now)
      return transition
  | .deposit b => modify fun f => { f with tokens := b.deposited f.tokens }
  | .tryWithdraw => Boxed.tryWithdraw
  | .start attempt => do Boxed.note (.started attempt (← get).core.time)
  | .note o => Boxed.note o

abbrev inPoll {α : Type} (id : Nat) (script : Script T E) (p : Code T E α) : Boxed.Act T E α :=
  p.play (answer id script)

section Actions

variable {id : Nat} {script : Script T E} {plan : Plan T E}

@[simp] theorem inPoll_ask (a : Access T E) :
    inPoll id script (Parallel.ask a) = answer id script a := Program.play_ask a

@[simp] theorem inPoll_now : inPoll id script now = Boxed.now := Program.play_ask _

@[simp] theorem inPoll_note (o : Obs T E) : inPoll id script (note o) = Boxed.note o :=
  Program.play_ask _

@[simp] theorem inPoll_emit (e : Event) : inPoll id script (emit plan e) = Boxed.emit plan e := by
  unfold emit
  split
  next hhook =>
      rw [inPoll_note]
      funext f
      simp [Boxed.note, Boxed.emit, Frame.emit, hhook]
  next hhook =>
      funext f
      simp [Boxed.emit, Frame.emit, hhook]
      rfl

@[simp] theorem inPoll_sleep (d : Nat) :
    inPoll id script (sleep d) = Boxed.onCore fun k => k.sleep d := by
  simp [sleep]
  rfl

@[simp] theorem inPoll_armSleep (d : Option Nat) :
    inPoll id script (armSleep d) = Boxed.onCore fun k => ExecutionPolicy.armSleep k d := by
  cases d with
  | none => rfl
  | some d =>
      simp [armSleep]
      rfl

@[simp] theorem inPoll_armDeadline (d : Option Nat) :
    inPoll id script (armDeadline d) = Boxed.onCore fun k => ExecutionPolicy.armDeadline k d := by
  cases d with
  | none => rfl
  | some deadline =>
      simp [armDeadline, sleepUntil]
      rfl

@[simp] theorem inPoll_pollTimer (timer : Option Nat) :
    inPoll id script (pollTimer timer) = Boxed.onCore fun k => k.pollTimer timer := by
  cases timer with
  | none => rfl
  | some wake =>
      simp [pollTimer]
      rfl

@[simp] theorem inPoll_pollPermit (timers : QueueTimers) :
    inPoll id script (pollPermit timers) =
      modifyGet (ExecutionPolicy.pollPermit id timers) := by
  refine StateT.ext fun f => ?_
  unfold pollPermit ExecutionPolicy.pollPermit
  rcases hp : f.sem.pollAcquire id with ⟨_ | _, sem⟩
  · cases hqueue : (f.core.pollTimer timers.queue).1 with
    | true => simp [inPoll_ask .pollAcquire, answer, hp, hqueue]
    | false =>
        cases hdeadline : ((f.core.pollTimer timers.queue).2.pollTimer timers.deadline).1 <;>
          simp [inPoll_ask .pollAcquire, answer, hp, hqueue, hdeadline]
  · simp [inPoll_ask .pollAcquire, answer, hp]

@[simp] theorem inPoll_acquirePermit (limit : ConcurrencyLimit) (deadline : Option Nat) :
    inPoll id script (acquirePermit limit deadline) = Boxed.acquire limit deadline id := by
  refine StateT.ext fun f => ?_
  unfold acquirePermit Boxed.acquire ExecutionPolicy.acquirePermit
  cases hs : f.sem.tryAcquire with
  | some sem => simp [inPoll_ask .tryAcquire, answer, hs]
  | none =>
      cases hp : limit.saturation with
      | reject => simp [inPoll_ask .tryAcquire, answer, hs]
      | wait maxQueued timeout =>
          by_cases hfull : maxQueued ≤ f.sem.queued
          · simp [inPoll_ask .tryAcquire, inPoll_ask (.queueFull maxQueued), answer, hs, hfull]
          · simp [inPoll_ask .tryAcquire, inPoll_ask (.queueFull maxQueued), answer, hs, hfull]

end Actions

/-! ## Stretches -/

section Stretches

variable {id : Nat} {script : Script T E} {plan : Plan T E} {call : Call T E} {d : Drive E}

@[simp] theorem inPoll_invoke (attempt : Attempt) (permit : Bool) :
    inPoll id script (invoke d attempt permit) = Boxed.invoke d attempt permit := by
  simp [invoke, Boxed.invoke, inPoll_ask (.start attempt), answer]

@[simp] theorem inPoll_withPermit (attempt : Attempt) (r : AcquireResult) :
    inPoll id script (withPermit plan call d attempt r) =
      Boxed.withPermit plan call d attempt r := by
  cases r with
  | granted => exact inPoll_invoke attempt true
  | rejected => simp [withPermit, Boxed.withPermit]
  | queued timers => rfl

@[simp] theorem inPoll_loopTop :
    inPoll id script (loopTop plan call d) = Boxed.loopTop plan id call d := by
  unfold loopTop Boxed.loopTop
  cases plan.concurrency with
  | none => simp
  | some limit =>
      by_cases hscope : limit.scope = .attempts
      · simp [hscope]
      · simp [hscope]

@[simp] theorem inPoll_nextRound :
    inPoll id script (nextRound plan call d) = Boxed.nextRound plan id call d := by
  unfold nextRound Boxed.nextRound
  cases call.totalDeadline with
  | none => simp
  | some deadline =>
      simp only [Program.play_bind, inPoll_now, inPoll_note]
      refine congrArg _ (funext fun present => congrArg _ (funext fun _ => ?_))
      by_cases hle : deadline ≤ present
      · simp [hle]
      · simp [hle]

@[simp] theorem inPoll_sleeping (wake : Nat) :
    inPoll id script (sleeping plan call d wake) = Boxed.sleeping plan id call d wake := by
  unfold sleeping Boxed.sleeping
  simp only [Program.play_bind, inPoll_now]
  refine congrArg _ (funext fun present => ?_)
  by_cases hle : wake ≤ present
  · simp [hle]
  · simp [hle]

@[simp] theorem inPoll_announce (raw : Nat) :
    inPoll id script (announce plan call d raw) = Boxed.announce plan id call d raw := by
  have hrest : ∀ delay, inPoll id script (do
      emit plan (.retryScheduled d.attemptNo delay)
      if delay = 0 then nextRound plan call d
      else sleeping plan call d (← sleep delay)) = (do
      Boxed.emit plan (.retryScheduled d.attemptNo delay)
      if delay = 0 then Boxed.nextRound plan id call d
      else Boxed.sleeping plan id call d (← Boxed.onCore fun k => k.sleep delay)) := by
    intro delay
    by_cases hzero : delay = 0
    · simp [hzero]
    · simp [hzero]
  unfold announce Boxed.announce
  cases call.totalDeadline with
  | none => exact hrest raw
  | some deadline =>
      refine (Program.play_bind now _).trans ?_
      simp only [inPoll_now]
      exact congrArg _ (funext fun present => hrest _)

@[simp] theorem inPoll_pause :
    inPoll id script (pause plan call d) = Boxed.pause plan id call d := by
  unfold pause Boxed.pause
  simp only [Program.play_bind, inPoll_ask .nextU64, answer]
  refine congrArg _ (funext fun rng => ?_)
  cases call.totalDeadline with
  | none => simp
  | some deadline =>
      simp only [Program.play_bind, inPoll_now, inPoll_note]
      refine congrArg _ (funext fun present => congrArg _ (funext fun _ => ?_))
      cases d.lastError with
      | none => simp
      | some e =>
          cases hhint : plan.retry.retryAfterHint e with
          | none => simp [hhint]
          | some hint =>
              by_cases hlt : Instant.durationSince deadline present < hint
              · simp [hhint, hlt]
              · simp [hhint, hlt]

@[simp] theorem inPoll_checkBudget (ended : Nat) :
    inPoll id script (checkBudget plan call d ended) =
      Boxed.checkBudget plan id call d ended := by
  unfold checkBudget Boxed.checkBudget
  by_cases hb : plan.retry.budget.isSome = true
  · simp only [hb, if_true, Program.play_bind, inPoll_ask .tryWithdraw, answer]
    refine congrArg _ (funext fun taken => ?_)
    cases taken <;> simp
  · simp [hb]

@[simp] theorem inPoll_checkElapsed (ended : Nat) :
    inPoll id script (checkElapsed plan call d ended) =
      Boxed.checkElapsed plan id call d ended := by
  unfold checkElapsed Boxed.checkElapsed
  cases plan.retry.maxElapsed with
  | none => simp
  | some maxElapsed =>
      by_cases hle : maxElapsed ≤ Instant.durationSince ended call.start
      · cases d.lastError <;> simp [hle]
      · simp [hle]

@[simp] theorem inPoll_afterSelect (permit : Bool) (outcome : AttemptOutcome T E) :
    inPoll id script (afterSelect plan call d permit outcome) =
      Boxed.afterSelect plan id call d permit outcome := by
  unfold afterSelect Boxed.afterSelect matchOutcome
  cases outcome with
  | totalTimeout => cases permit <;> simp [inPoll_ask .release, answer]
  | attemptTimeout =>
      by_cases hmax : plan.retry.maxAttempts ≤ d.attemptNo
      · cases permit <;> simp [hmax, inPoll_ask .release, answer]
      · cases permit <;> simp [hmax, inPoll_ask .release, answer]
  | completed result =>
      cases hdecide : plan.retry.decide result with
      | stop => cases result <;> cases permit <;> simp [hdecide, inPoll_ask .release, answer]
      | retry =>
          by_cases hmax : plan.retry.maxAttempts ≤ d.attemptNo
          · cases result <;> cases permit <;> simp [hdecide, hmax, inPoll_ask .release, answer]
          · cases result <;> cases permit <;> simp [hdecide, hmax, inPoll_ask .release, answer]

@[simp] theorem inPoll_pollSleeps (permit : Bool) (armed : AttemptTimers) :
    inPoll id script (pollSleeps plan call d permit armed) =
      Boxed.pollSleeps plan id call d permit armed := by
  unfold pollSleeps Boxed.pollSleeps
  simp only [Program.play_bind, inPoll_pollTimer]
  refine congrArg _ (funext fun attempt => ?_)
  cases attempt with
  | true => simp
  | false =>
      simp only [Bool.false_eq_true, if_false, Program.play_bind, inPoll_pollTimer]
      refine congrArg _ (funext fun total => ?_)
      cases total <;> simp

@[simp] theorem inPoll_pollSelect (permit : Bool) (timers : Option AttemptTimers) :
    inPoll id script (pollSelect plan call d permit timers) = (do
      modify fun f => { f with core := f.core.elapse script.opElapsed }
      Boxed.pollSelect plan id call d permit timers script.op) := by
  unfold pollSelect Boxed.pollSelect
  cases hop : script.op with
  | some r => simp [inPoll_ask .operate, answer, hop]
  | none => cases timers <;> simp [inPoll_ask .operate, answer, hop]

@[simp] theorem inPoll_leave (result : Except (ExecutionError E) T) :
    inPoll id script (leave call result) = modifyGet (ExecutionPolicy.leave call result) := by
  refine StateT.ext fun f => ?_
  unfold leave ExecutionPolicy.leave
  cases call.opPermit <;> simp [inPoll_ask .release, answer]

@[simp] theorem inPoll_afterDrive (polled : Boxed.Polled T E) :
    inPoll id script (afterDrive plan call polled) = Boxed.afterDrive plan call polled := by
  cases polled with
  | pending stage => rfl
  | ready result =>
      unfold afterDrive record Boxed.afterDrive
      cases plan.breaker with
      | none => simp
      | some b =>
          simp only [Program.play_bind, inPoll_now, bind_assoc]
          refine congrArg _ (funext fun present => ?_)
          cases result with
          | ok v =>
              simp [vote, inPoll_ask (.recordSuccess _ _), answer]
              refine congrArg _ (funext fun transition => congrArg _ (funext fun _ => ?_))
              cases transition <;> simp
          | error e =>
              cases e with
              | operation source ctx =>
                  by_cases hcounts : (b.recordWhen.map fun p => p source).getD true = true
                  · simp [vote, hcounts, ExecutionError.isTimeout,
                      inPoll_ask (.recordFailure _ _), answer]
                    refine congrArg _ (funext fun transition => congrArg _ (funext fun _ => ?_))
                    cases transition <;> simp
                  · simp [vote, hcounts, ExecutionError.isTimeout,
                      inPoll_ask (.recordSuccess _ _), answer]
                    refine congrArg _ (funext fun transition => congrArg _ (funext fun _ => ?_))
                    cases transition <;> simp
              | attemptTimeout ctx | totalTimeout ctx =>
                  simp [vote, ExecutionError.isTimeout, inPoll_ask (.recordFailure _ _), answer]
                  refine congrArg _ (funext fun transition => congrArg _ (funext fun _ => ?_))
                  cases transition <;> simp
              | _ => simp [vote, ExecutionError.isTimeout]

@[simp] theorem inPoll_awaitDrive (drive : Code T E (Boxed.Polled T E)) :
    inPoll id script (awaitDrive plan call drive) =
      Boxed.awaitDrive plan call (inPoll id script drive) := by
  simp [awaitDrive, Boxed.awaitDrive]

@[simp] theorem inPoll_belowPermit :
    inPoll id script (belowPermit plan call) = Boxed.belowPermit plan id call := by
  unfold belowPermit Boxed.belowPermit enterDrive
  cases plan.breaker with
  | none => cases hb : plan.retry.budget <;> simp [inPoll_ask (.deposit _), answer]
  | some b =>
      simp only [Program.play_bind, inPoll_now, inPoll_ask (.gate _ _), answer, bind_assoc]
      refine congrArg _ (funext fun present => congrArg _ (funext fun r => ?_))
      cases r with
      | ok s =>
          by_cases hhalf : s = .halfOpen
          · cases hb : plan.retry.budget <;> simp [hhalf, inPoll_ask (.deposit _), answer]
          · cases hb : plan.retry.budget <;> simp [hhalf, inPoll_ask (.deposit _), answer]
      | error u => simp

@[simp] theorem inPoll_withOpPermit (r : AcquireResult) :
    inPoll id script (withOpPermit plan call r) = Boxed.withOpPermit plan id call r := by
  cases r with
  | granted => exact inPoll_belowPermit
  | rejected => simp [withOpPermit, Boxed.withOpPermit]
  | queued timers => rfl

@[simp] theorem inPoll_runPipeline :
    inPoll id script (runPipeline plan call) = Boxed.runPipelineBoxed plan id call := by
  unfold runPipeline Boxed.runPipelineBoxed
  simp only [Program.play_bind, inPoll_now]
  refine congrArg _ (funext fun start => ?_)
  cases plan.concurrency with
  | none => simp
  | some limit =>
      by_cases hscope : limit.scope = .operations
      · simp [hscope]
      · simp [hscope]

theorem inPoll_pollCall :
    (pollCall plan call).map (inPoll id script) = Boxed.pollCallBoxed plan id call script := by
  unfold pollCall Boxed.pollCallBoxed
  cases call.stage <;> simp

theorem inPoll_dropCall (id : Nat) (script : Script T E) (f : Frame T E) :
    (dropCall call).map (fun code => ((inPoll id script code).run f).run) =
      ExecutionPolicy.dropCall call f := by
  unfold dropCall ExecutionPolicy.dropCall
  cases call.stage with
  | running d permit timers =>
      cases permit <;> cases call.opPermit <;> simp [inPoll_ask .release, answer]
  | returned r => rfl
  | dropped => rfl
  | _ => cases call.opPermit <;> simp [inPoll_ask .release, answer]

end Stretches

/-! ## Following a poll -/

/-- What the calls share when a poll of call `id` is at the frame `f`. -/
def Objects.within (trace : List (Nat × Obs T E)) (id : Nat) (f : Frame T E) : Objects T E where
  time := f.core.time
  breaker := f.breaker
  sem := f.sem
  tokens := f.tokens
  trace := trace ++ f.log.map (Prod.mk id)

/-- A system of polled calls as calls on threads, none of which is in the middle of a poll. -/
def atRest (s : System T E) : Threads T E where
  objects := ⟨s.shared.core.time, s.shared.breaker, s.shared.sem, s.shared.tokens, s.trace⟩
  jobs := s.calls.map .idle

section Following

variable (plan : Plan T E) (id : Nat) (script : Script T E) (trace : List (Nat × Obs T E))

/-- The answer an access gets in a poll is one it may get on threads, after some time. -/
theorem answer_performed (a : Access T E) (f : Frame T E) :
    ∃ d choice, perform id choice a
        { Objects.within trace id f with time := f.core.time + d } =
      (((answer id script a).run f).run.1,
        Objects.within trace id ((answer id script a).run f).run.2) := by
  cases a with
  | now =>
      cases hticks : f.core.ticks with
      | nil =>
          refine ⟨0, ⟨0, none⟩, ?_⟩
          simp [perform, answer, Objects.within, Frame.read, Core.tick, hticks]
      | cons d ticks =>
          refine ⟨d, ⟨0, none⟩, ?_⟩
          simp [perform, answer, Objects.within, Frame.read, Core.tick, hticks]
  | nextU64 =>
      refine ⟨0, ⟨f.core.nextU64.1, none⟩, ?_⟩
      simp [perform, answer, Objects.within]
  | operate =>
      refine ⟨script.opElapsed, ⟨0, script.op⟩, ?_⟩
      simp [perform, answer, Objects.within, Core.elapse]
  | tryAcquire =>
      refine ⟨0, ⟨0, none⟩, ?_⟩
      cases hs : f.sem.tryAcquire <;> simp [perform, answer, Objects.within, hs]
  | tryWithdraw =>
      refine ⟨0, ⟨0, none⟩, ?_⟩
      cases hw : RetryBudget.tryWithdraw f.tokens <;>
        simp [perform, answer, Objects.within, Objects.note, Frame.note, Boxed.run_tryWithdraw, hw]
  | queueFull maxQueued =>
      refine ⟨0, ⟨0, none⟩, ?_⟩
      simp [perform, answer, Objects.within, Objects.note, Frame.note]
      rfl
  | _ =>
      refine ⟨0, ⟨0, none⟩, ?_⟩
      simp [perform, answer, Objects.within, Objects.note, Frame.note]

theorem follow_access (a : Access T E) (next : a.Answer → Code T E (Call T E)) (f : Frame T E)
    (jobs : List (Job (Access T E) Access.Answer (Call T E)))
    (hi : jobs[id]? = some (.busy a next)) :
    ∃ ls, run (machine plan).step ⟨Objects.within trace id f, jobs⟩ ls =
      some ⟨Objects.within trace id ((answer id script a).run f).run.2,
        jobs.set id (.of (next ((answer id script a).run f).run.1))⟩ := by
  obtain ⟨d, choice, hperform⟩ := answer_performed id script trace a f
  have helapse : (machine plan).step ⟨Objects.within trace id f, jobs⟩ (.disturb (.elapse d)) =
      some ⟨{ Objects.within trace id f with time := f.core.time + d }, jobs⟩ := rfl
  have haccess : (machine plan).step
      ⟨{ Objects.within trace id f with time := f.core.time + d }, jobs⟩ (.access id choice) =
      some ⟨Objects.within trace id ((answer id script a).run f).run.2,
        jobs.set id (.of (next ((answer id script a).run f).run.1))⟩ := by
    simp only [Machine.step, hi]
    show some (Pool.mk (perform id choice a _).2
      (jobs.set id (.of (next (perform id choice a _).1)))) = _
    rw [hperform]
  exact ⟨[.disturb (.elapse d), .access id choice], run_trans (run_one helapse) (run_one haccess)⟩

theorem follow_program {s : System T E} {i : Nat} {call : Call T E} (move : Move)
    {code : Code T E (Call T E)} {f : Frame T E} (hi : s.calls[i]? = some call)
    (hcode : (machine plan).program move call = some code)
    (hf : Objects.within s.trace i f = (atRest s).objects) :
    ∃ ls, run (step plan) (atRest s) ls =
      some (atRest (s.settle i ((inPoll i script code).run f).run)) := by
  have hjob : (atRest s).jobs[i]? = some (.idle call) := by simp [atRest, hi]
  have hstart : step plan (atRest s) (.start i move) =
      some ⟨Objects.within s.trace i f, (atRest s).jobs.set i (.of code)⟩ := by
    simp only [step, Machine.step, hjob, hcode, hf]
    rfl
  obtain ⟨ls, hls⟩ := Machine.run_play (follow_access plan i script s.trace) code f
    (TaskPool.getElem?_set_self_of_some hjob _)
  refine ⟨.start i move :: ls, run_trans (run_one hstart) (hls.trans ?_)⟩
  simp [atRest, System.settle, Objects.within, List.set_set, List.map_set]

/-- Threads that are at rest can follow every step of the polled calls. -/
theorem follow_step {s s' : System T E} {l : System.Label T E}
    (hstep : System.step plan s l = some s') :
    ∃ ls, run (step plan) (atRest s) ls = some (atRest s') := by
  cases l with
  | elapse d =>
      cases hstep
      exact ⟨[.disturb (.elapse d)], rfl⟩
  | call =>
      cases hstep
      refine ⟨[.arrive], ?_⟩
      simp [step, Machine.step, machine, atRest, Objects.note]
  | poll i script =>
      obtain ⟨call, done, hi, hdone, rfl⟩ := System.step_poll hstep
      rw [← Boxed.run_pollCallBoxed, ← inPoll_pollCall, Option.map_map] at hdone
      obtain ⟨code, hcode, rfl⟩ := Option.map_eq_some_iff.mp hdone
      refine follow_program plan script .poll hi hcode ?_
      simp [Objects.within, atRest, System.frame]
  | drop i =>
      obtain ⟨call, done, hi, hdone, rfl⟩ := System.step_drop hstep
      rw [← inPoll_dropCall i ⟨[], [], 0, none⟩] at hdone
      obtain ⟨code, hcode, rfl⟩ := Option.map_eq_some_iff.mp hdone
      refine follow_program plan _ .drop hi hcode ?_
      simp [Objects.within, atRest, System.frame]
  | depositElsewhere =>
      obtain ⟨b, hb, rfl⟩ := Option.map_eq_some_iff.mp hstep
      refine ⟨[.disturb .depositElsewhere], ?_⟩
      simp [step, Machine.step, machine, disturb, hb, atRest, System.withTokens]
  | withdrawElsewhere =>
      cases hb : plan.retry.budget with
      | none => simp [System.step, hb] at hstep
      | some b =>
          simp only [System.step, hb] at hstep
          obtain ⟨tokens, hw, rfl⟩ := Option.map_eq_some_iff.mp hstep
          refine ⟨[.disturb .withdrawElsewhere], ?_⟩
          simp [step, Machine.step, machine, disturb, hb, hw, atRest, System.withTokens]

end Following

end Parallel

open Parallel

/-- Every run of calls that are polled one at a time, whichever pipeline each of them runs, is
a run of calls on threads that brings them to the same stages, the shared objects to the same
state and the observations into the same order. -/
theorem polls_are_interleavings (plan : Plan T E) (boxed : Nat → Bool) (start : Nat)
    (ls : List (System.Label T E)) (s : System T E)
    (hrun : run (System.stepVia boxed plan) (System.init plan start) ls = some s) :
    ∃ ls', run (Parallel.step plan) (Parallel.init plan start) ls' = some (atRest s) := by
  rw [System.stepVia_eq] at hrun
  have hsim : Simulates (System.step plan) (Parallel.step plan) (fun _ _ => True)
      fun s t => t = atRest s := by
    rintro s l s' t rfl _ hs
    obtain ⟨more, hmore⟩ := follow_step plan hs
    exact ⟨more, atRest s', hmore, rfl⟩
  have hfree : Obeys (System.step plan) (fun _ _ => True) (System.init plan start) ls :=
    obeys_of_mem (fun _ _ => trivial) _
  obtain ⟨ls', t, hrun', rfl⟩ := hsim.run rfl hfree hrun
  exact ⟨ls', hrun'⟩

theorem polls_are_interleavings_oneQueued :
    (atRest oneQueued).objects.sem = ⟨0, [1]⟩ ∧
      ∃ ls', run (Parallel.step oneAttemptAtATime) (Parallel.init oneAttemptAtATime 0) ls' =
        some (atRest oneQueued) := by
  have hrun : run (System.stepVia (fun _ => true) oneAttemptAtATime)
      (System.init oneAttemptAtATime 0) oneQueues = some oneQueued := by
    rw [System.stepVia_eq]
    rfl
  exact ⟨rfl, polls_are_interleavings oneAttemptAtATime (fun _ => true) 0 oneQueues oneQueued hrun⟩

end ExecutionPolicy
