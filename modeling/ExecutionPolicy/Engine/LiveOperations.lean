import ExecutionPolicy.Engine.Permits

/-! # Operations alive under an attempts limit

The future of an operation is a local of one iteration of `drive`: it is dropped when
the iteration ends, after the backoff sleep, while the permit goes back before it.
-/

namespace ExecutionPolicy

open StepSystem

variable {T E : Type}

/-! ## Live operations -/

/-- The operation's future exists: in an attempt and through the sleep after it. -/
def Stage.live : Stage T E → Bool
  | .running _ _ _ => true
  | .backingOff _ _ => true
  | _ => false

def Stage.asleep : Stage T E → Bool
  | .backingOff _ _ => true
  | _ => false

def System.liveOperations (s : System T E) : Nat := TaskPool.count (·.stage.live) s.calls

def System.sleepers (s : System T E) : Nat := TaskPool.count (·.stage.asleep) s.calls

/-- The breaker, if any, admits a call that reads the clock at `now`. -/
def Plan.Admits (plan : Plan T E) (breaker : BreakerRuntime) (now : Nat) : Prop :=
  ∀ b, plan.breaker = some b → (breaker.gate b.config now).1 ≠ .error ()

/-- The next poll of the call reaches the head of its first attempt, or finds it queued
for a permit. A new call reads the clock twice before the gate answers. -/
def Call.AtAttempt (plan : Plan T E) (call : Call T E) (k : Core) (breaker : BreakerRuntime) :
    Prop :=
  match call.stage with
  | .created => plan.Admits breaker k.tick.tick.time
  | .attemptsQueue _ _ _ => True
  | _ => False

section Stretches

variable {plan : Plan T E} {id : Nat} {call : Call T E}

theorem pollPermit_granted_iff {timers : QueueTimers} {f : Frame T E} :
    (pollPermit id timers f).1 = .granted ↔ 0 < f.sem.permits := by
  constructor
  · exact pollPermit_granted
  · intro hfree
    simp [pollPermit, SemState.pollAcquire_of_pos hfree]

theorem acquirePermit_granted_iff {limit : ConcurrencyLimit} {deadline : Option Nat}
    {f : Frame T E} : (acquirePermit limit deadline id f).1 = .granted ↔ 0 < f.sem.permits := by
  unfold acquirePermit SemState.tryAcquire
  by_cases hfree : 0 < f.sem.permits
  · simp [hfree]
  · rw [if_neg hfree]
    refine iff_of_false ?_ hfree
    dsimp only
    cases limit.saturation with
    | reject => simp
    | wait maxQueued timeout =>
        dsimp only
        split
        · simp
        · rw [pollPermit_granted_iff]
          exact hfree

theorem live_onAttemptPermit {d : Drive E} {attempt : Attempt}
    {answer : AcquireResult × Frame T E} :
    (onAttemptPermit plan call d attempt answer).1.stage.live = true ↔ answer.1 = .granted := by
  obtain ⟨_ | _ | timers, f⟩ := answer
  · simp [onAttemptPermit, startAttempt, Stage.live]
  · simp [onAttemptPermit, finish, leave, Stage.live]
  · simp [onAttemptPermit, Stage.live]

theorem live_loopHead {limit : ConcurrencyLimit} (hc : plan.concurrency = some limit)
    (hscope : limit.scope = .attempts) {d : Drive E} {f : Frame T E} :
    (loopHead plan id call d f).1.stage.live = true ↔ 0 < f.sem.permits := by
  unfold loopHead
  simp only [hc, hscope]
  exact live_onAttemptPermit.trans acquirePermit_granted_iff

theorem live_gateAndDrive {limit : ConcurrencyLimit} (hc : plan.concurrency = some limit)
    (hscope : limit.scope = .attempts) {f : Frame T E} :
    (gateAndDrive plan id call f).1.stage.live = true ↔
      plan.Admits f.breaker f.read.core.time ∧ 0 < f.sem.permits := by
  unfold gateAndDrive gateCall Plan.Admits
  cases hb : plan.breaker with
  | none =>
      dsimp only
      rw [live_loopHead hc hscope, depositBudget_eq]
      simp
  | some b =>
      have hsame : f.read.breaker = f.breaker := rfl
      dsimp only
      rw [hsame]
      rcases hg : f.breaker.gate b.config f.read.core.time with ⟨_ | s, breaker⟩
      · simp [leave, Stage.live, hg]
      · have hok : (f.breaker.gate b.config f.read.core.time).1 ≠ .error () := by simp [hg]
        have hadmits : ∀ b', some b = some b' →
            (f.breaker.gate b'.config f.read.core.time).1 ≠ .error () := by
          intro b' hb'
          cases hb'
          exact hok
        dsimp only
        rw [live_loopHead hc hscope, depositBudget_eq]
        refine Iff.trans ?_ (and_iff_right hadmits).symm
        split <;> simp [Frame.read]

theorem live_pollCall {limit : ConcurrencyLimit} (hc : plan.concurrency = some limit)
    (hscope : limit.scope = .attempts) (hlawful : call.Lawful plan .suspended)
    (hdead : call.stage.live = false) {script : Script T E} {f : Frame T E}
    {done : Call T E × Frame T E} (hpoll : pollCall plan id call script f = some done) :
    done.1.stage.live = true ↔ call.AtAttempt plan f.core f.breaker ∧ 0 < f.sem.permits := by
  unfold pollCall at hpoll
  unfold Call.AtAttempt
  cases hstage : call.stage with
  | created =>
      simp only [hstage, Option.some.injEq] at hpoll
      subst hpoll
      unfold runPipeline
      simp only [hc, hscope]
      exact live_gateAndDrive hc hscope
  | operationsQueue timers =>
      have hentitled : Applicant.Entitled plan call .operation := by
        simpa [Spot.Lawful, Stage.Lawful, hstage] using hlawful.spot
      have hops := hentitled.1
      simp [Plan.scope?, hc, hscope, Applicant.scope] at hops
  | attemptsQueue d attempt timers =>
      simp only [hstage, Option.some.injEq] at hpoll
      subst hpoll
      simpa using live_onAttemptPermit.trans pollPermit_granted_iff
  | running d permit timers => simp [hstage, Stage.live] at hdead
  | backingOff d wake => simp [hstage, Stage.live] at hdead
  | returned r => simp [hstage] at hpoll
  | dropped => simp [hstage] at hpoll

end Stretches

/-! ## Over whole runs -/

namespace System

/-- A call without a live operation takes a permit only while more permits are free than
calls sleep. -/
def MorePermitsThanSleepers (plan : Plan T E) (s : System T E) : Label T E → Prop
  | .poll i script => ∀ call : Call T E, s.calls[i]? = some call →
      call.AtAttempt plan (s.frame script.ticks script.draws).core s.shared.breaker →
      0 < s.shared.sem.permits → s.sleepers < s.shared.sem.permits
  | _ => True

variable {plan : Plan T E} {limit : ConcurrencyLimit}

/-- Under an attempts limit the live operations are those with a permit and the sleepers. -/
theorem Conserved.live {s : System T E} (h : s.Conserved plan limit.permits)
    (hc : plan.concurrency = some limit) (hscope : limit.scope = .attempts) :
    s.shared.sem.permits + s.liveOperations = limit.permits + s.sleepers := by
  have hscope? : plan.scope? = some .attempts := by simp [Plan.scope?, hc, hscope]
  have hlawful : ∀ call ∈ s.calls, call.Lawful plan .suspended := by
    intro call hmem
    obtain ⟨i, hi⟩ := List.getElem?_of_mem hmem
    exact h.lawful i call hi
  have hop : s.opPermits = 0 := by
    refine List.countP_eq_zero.mpr fun call hmem hop => ?_
    have hops := (hlawful call hmem).operation hop
    rw [hscope?] at hops
    cases hops
  have hlive : s.attemptPermits + s.sleepers = s.liveOperations := by
    refine TaskPool.count_add fun call hmem => ?_
    have hspot := (hlawful call hmem).spot
    cases hstage : call.stage with
    | running d permit timers =>
        have hpermit : permit = true := by
          simpa [Spot.Lawful, Stage.Lawful, hstage, hscope?] using hspot
        simp [Stage.attemptPermit, Stage.asleep, Stage.live, hpermit]
    | _ => simp [Stage.attemptPermit, Stage.asleep, Stage.live]
  have htotal := h.total
  omega

theorem live_step (hc : plan.concurrency = some limit) (hscope : limit.scope = .attempts)
    (s : System T E) (l : Label T E) (s' : System T E) (h : s.Conserved plan limit.permits)
    (hbound : s.liveOperations ≤ limit.permits) (hstep : step plan s l = some s') :
    s'.liveOperations ≤ limit.permits ↔ MorePermitsThanSleepers plan s l := by
  cases l with
  | elapse d =>
      cases hstep
      exact iff_of_true hbound trivial
  | call =>
      cases hstep
      refine iff_of_true ?_ trivial
      simpa [liveOperations, created, Stage.live] using hbound
  | poll i script =>
      obtain ⟨call, done, hi, hdone, rfl⟩ := step_poll hstep
      have hset := TaskPool.count_set (·.stage.live) hi done.1
      have hlive := h.live hc hscope
      cases hwas : call.stage.live with
      | true =>
          -- a call with a live operation has no second one
          refine iff_of_true ?_ fun other hother hat => ?_
          · have hle : (s.settle i done).liveOperations ≤ s.liveOperations := by
              simp only [hwas, if_true] at hset
              simp only [liveOperations, settle]
              split at hset <;> omega
            exact Nat.le_trans hle hbound
          · cases hi.symm.trans hother
            unfold Call.AtAttempt at hat
            cases hstage : call.stage <;> simp [hstage, Stage.live] at hat hwas
      | false =>
          have hstarts := live_pollCall hc hscope (h.lawful i call hi) hwas hdone
          simp only [hwas, Bool.false_eq_true, if_false, Nat.add_zero] at hset
          have hafter : (s.settle i done).liveOperations =
              s.liveOperations + if done.1.stage.live then 1 else 0 := hset
          rw [hafter]
          constructor
          · intro hkept other hother hat hfree
            cases hi.symm.trans hother
            rw [if_pos (hstarts.mpr ⟨hat, hfree⟩)] at hkept
            omega
          · intro hcond
            by_cases hdone : done.1.stage.live = true
            · obtain ⟨hat, hfree⟩ := hstarts.mp hdone
              have hmore := hcond call hi hat hfree
              rw [if_pos hdone]
              omega
            · rw [if_neg hdone]
              exact hbound
  | drop i =>
      obtain ⟨call, done, hi, hdone, rfl⟩ := step_drop hstep
      refine iff_of_true ?_ trivial
      have hover : done.1.stage.live = false := by
        rw [(dropCall_cases hdone).1]
        rfl
      exact Nat.le_trans (TaskPool.count_set_le (·.stage.live) hi hover) hbound
  | depositElsewhere =>
      obtain ⟨tokens, rfl⟩ := step_elsewhere (.inl rfl) hstep
      exact iff_of_true hbound trivial
  | withdrawElsewhere =>
      obtain ⟨tokens, rfl⟩ := step_elsewhere (.inr rfl) hstep
      exact iff_of_true hbound trivial

end System

/-- Under an attempts limit no more operations than permits are alive throughout a run
exactly when every new or queued call takes its permit while more permits are free than
calls sleep. -/
theorem live_operations_bounded_iff (plan : Plan T E) (limit : ConcurrencyLimit)
    (hc : plan.concurrency = some limit) (hscope : limit.scope = .attempts) (start : Nat)
    (ls : List (System.Label T E)) (s : System T E)
    (hrun : run (System.step plan) (System.init plan start) ls = some s) :
    Throughout (System.step plan) (fun s => s.liveOperations ≤ limit.permits)
        (System.init plan start) ls ↔
      Obeys (System.step plan) (System.MorePermitsThanSleepers plan)
        (System.init plan start) ls :=
  throughout_iff_obeys System.conserved_step (System.live_step hc hscope)
    (System.conserved_init hc start) (Nat.zero_le _) hrun

theorem live_operations_bounded_oneQueued :
    Throughout (System.step oneAttemptAtATime) (fun s => s.liveOperations ≤ 1)
      (System.init oneAttemptAtATime 0) oneQueues := by
  refine (live_operations_bounded_iff oneAttemptAtATime (.attempts 1) rfl rfl 0 oneQueues
    oneQueued rfl).mpr ?_
  refine ⟨trivial, fun s₁ h₁ => ?_⟩
  cases h₁
  refine ⟨fun _ _ _ _ => by decide, fun s₂ h₂ => ?_⟩
  cases h₂
  refine ⟨trivial, fun s₃ h₃ => ?_⟩
  cases h₃
  exact ⟨fun _ _ _ hfree => absurd hfree (by decide), fun _ _ => trivial⟩

/-- The first attempt of call 0 is cut off by its timer; while call 0 sleeps, call 1
starts an attempt with the permit. -/
def startsDuringSleep : List (System.Label Nat Nat) :=
  [.call, .poll 0 .pending, .poll 0 .pending, .elapse 1, .poll 0 .pending,
    .call, .poll 1 .pending]

theorem cut_off_operation_outlives_its_permit :
    ∃ s c₀ c₁, run (System.step oneAttemptAtATime) (System.init oneAttemptAtATime 0)
        startsDuringSleep = some s ∧
      s.calls = [c₀, c₁] ∧ c₀.stage.asleep = true ∧ c₁.stage.attemptPermit = true ∧
      Obs.ended 1 .attemptTimeout 1 ∈ s.logOf 0 ∧ s.liveOperations = 2 := by
  refine ⟨(run (System.step oneAttemptAtATime) (System.init oneAttemptAtATime 0)
    startsDuringSleep).get rfl, _, _, rfl, rfl, rfl, rfl, ?_, rfl⟩
  exact List.mem_of_getElem? (i := 2) rfl

end ExecutionPolicy
