import ExecutionPolicy.Engine.Hops

/-! # Permits are conserved

A permit lives in a local of `run_pipeline` or of one iteration of `drive`, so the
permits held can be read off the stages of the calls.
-/

namespace ExecutionPolicy

open StepSystem

variable {T E : Type}

/-! ## Who holds a permit -/

/-- `_permit` of the current attempt holds a permit. -/
def Stage.attemptPermit : Stage T E → Bool
  | .running _ permit _ => permit
  | _ => false

def Cursor.attemptPermit (c : Cursor T E) : Bool :=
  match c.spot with
  | .suspended => c.call.stage.attemptPermit
  | .granted _ => true
  | .starting _ _ permit => permit
  | _ => false

def Cursor.held (c : Cursor T E) : Nat :=
  (if c.call.opPermit then 1 else 0) + (if c.attemptPermit then 1 else 0)

/-- The scope of the plan decides which local a permit can be in. -/
def Applicant.Entitled (plan : Plan T E) (call : Call T E) (a : Applicant E) : Prop :=
  plan.scope? = some a.scope ∧ (a.scope = .operations → call.opPermit = false)

def Stage.Lawful (plan : Plan T E) (call : Call T E) : Stage T E → Prop
  | .created | .returned _ | .dropped => call.opPermit = false
  | .operationsQueue _ => Applicant.Entitled plan call .operation
  | .attemptsQueue d attempt _ => Applicant.Entitled plan call (.attempt d attempt)
  | .running _ permit _ => permit = true ↔ plan.scope? = some .attempts
  | .backingOff _ _ => True

def Spot.Lawful (plan : Plan T E) (call : Call T E) : Spot T E → Prop
  | .suspended => call.stage.Lawful plan call
  | .entering => call.opPermit = false
  | .asking a | .waiting a _ | .granted a => a.Entitled plan call
  | .starting _ _ permit => permit = true ↔ plan.scope? = some .attempts
  | _ => True

structure Call.Lawful (plan : Plan T E) (call : Call T E) (spot : Spot T E) : Prop where
  operation : call.opPermit = true → plan.scope? = some .operations
  spot : spot.Lawful plan call

theorem Call.Lawful.not_both {plan : Plan T E} {call : Call T E}
    (h : call.Lawful plan .suspended) (hop : call.opPermit = true) :
    call.stage.attemptPermit = false := by
  cases hstage : call.stage with
  | running d permit timers =>
      have hspot : permit = true ↔ plan.scope? = some .attempts := by
        simpa [Spot.Lawful, Stage.Lawful, hstage] using h.spot
      rw [h.operation hop] at hspot
      simpa [Stage.attemptPermit] using hspot
  | _ => rfl

theorem Call.Lawful.none_of_isOver {plan : Plan T E} {call : Call T E}
    (h : call.Lawful plan .suspended) (hover : call.stage.isOver = true) :
    call.opPermit = false ∧ call.stage.attemptPermit = false := by
  have hspot := h.spot
  cases hstage : call.stage with
  | returned r | dropped =>
      simp only [Spot.Lawful, Stage.Lawful, hstage] at hspot
      exact ⟨hspot, rfl⟩
  | _ => simp [hstage, Stage.isOver] at hover

section Hops

variable {plan : Plan T E} {id : Nat} {c c' : Cursor T E} {os : List (Obs T E)}

theorem Hop.lawful (hop : Hop plan id c os c') (h : c.call.Lawful plan c.spot) :
    c'.call.Lawful plan c'.spot := by
  obtain ⟨hlocal, hspot⟩ := h
  cases hop with
  | core | work => exact ⟨hlocal, hspot⟩
  | begin hs =>
      refine ⟨hlocal, ?_⟩
      simpa [Spot.Lawful, Stage.Lawful, hs] using hspot
  | enterOperations hc => exact ⟨hlocal, hc, fun _ => hspot⟩
  | take | join | pick => exact ⟨hlocal, hspot⟩
  | @repoll call a k timers hs =>
      refine ⟨hlocal, ?_⟩
      cases a <;> simpa [Spot.Lawful, Stage.Lawful, hs, Applicant.queue] using hspot
  | @park call a k timers hfree =>
      refine ⟨hlocal, ?_⟩
      cases a <;> exact hspot
  | grantOperation => exact ⟨fun _ => hspot.1, trivial⟩
  | grantAttempt => exact ⟨hlocal, iff_of_true rfl hspot.1⟩
  | headFree hc => exact ⟨hlocal, iff_of_false (by simp) hc⟩
  | headAsk hc => exact ⟨hlocal, hc, fun hne => by cases hne⟩
  | start => exact ⟨hlocal, hspot⟩
  | pend timers hs =>
      refine ⟨hlocal, ?_⟩
      simpa [Spot.Lawful, Stage.Lawful, hs] using hspot
  | leave => exact ⟨fun hfalse => absurd hfalse Bool.false_ne_true, rfl⟩
  | _ => exact ⟨hlocal, trivial⟩

/-- A hop moves permits between the semaphore and the call. -/
theorem Hop.held (hop : Hop plan id c os c') (h : c.call.Lawful plan c.spot) :
    c'.shared.sem.permits + c'.held = c.shared.sem.permits + c.held := by
  obtain ⟨-, hspot⟩ := h
  unfold Cursor.held Cursor.attemptPermit
  cases hop with
  | core | work => rfl
  | begin hs | rouse hs => simp [hs, Stage.attemptPermit]
  | take hc hfree | pick hfree =>
      simp only [if_true, Bool.false_eq_true, if_false]
      omega
  | @repoll call a k timers hs => cases a <;> simp [hs, Applicant.queue, Stage.attemptPermit]
  | @park call a k timers hfree => cases a <;> simp [Applicant.queue, Stage.attemptPermit]
  | @grantOperation call k =>
      have hno : call.opPermit = false := hspot.2 rfl
      simp [hno]
  | pend timers hs =>
      simp only [hs]
      rfl
  | start => rfl
  | @cease call d permit timers k outcome hs =>
      cases permit with
      | false => simp [hs, Stage.attemptPermit]
      | true =>
          simp only [hs, Stage.attemptPermit, if_true, SemState.release_permits]
          simp
          omega
  | @leave call r k => cases hop : call.opPermit <;> simp [Stage.attemptPermit]
  | _ => simp [Stage.attemptPermit]

theorem permits_pollCall {call : Call T E} {script : Script T E} {f : Frame T E}
    {done : Call T E × Frame T E} (h : call.Lawful plan .suspended)
    (hpoll : pollCall plan id call script f = some done) :
    done.1.Lawful plan .suspended ∧
      done.2.sem.permits + (Place.mk done.1 .suspended done.2).cursor.held =
        f.sem.permits + (Place.mk call .suspended f).cursor.held := by
  refine (reaches_pollCall hpoll).keeps (Q := fun c _ => c.call.Lawful plan c.spot ∧
    c.shared.sem.permits + c.held = f.sem.permits + (Place.mk call .suspended f).cursor.held)
    ?_ [] ⟨h, rfl⟩
  rintro c os c' _ hop ⟨hlawful, htotal⟩
  exact ⟨hop.lawful hlawful, (hop.held hlawful).trans htotal⟩

theorem permits_dropCall {call : Call T E} {f : Frame T E} {done : Call T E × Frame T E}
    (hdrop : dropCall call f = some done) :
    done.1.Lawful plan .suspended ∧
      done.2.sem.permits + (Place.mk done.1 .suspended done.2).cursor.held =
        f.sem.permits + (Place.mk call .suspended f).cursor.held := by
  obtain ⟨hdone, -⟩ := dropCall_cases hdrop
  refine ⟨by rw [hdone]; exact ⟨fun hfalse => absurd hfalse Bool.false_ne_true, rfl⟩, ?_⟩
  unfold dropCall at hdrop
  unfold Cursor.held Cursor.attemptPermit Place.cursor
  cases hstage : call.stage with
  | running d permit timers =>
      simp only [hstage, Option.some.injEq] at hdrop
      subst hdrop
      cases permit <;> cases call.opPermit <;> simp [Stage.attemptPermit]
  | returned r => simp [hstage] at hdrop
  | dropped => simp [hstage] at hdrop
  | _ =>
      simp only [hstage, Option.some.injEq] at hdrop
      subst hdrop
      cases call.opPermit <;> simp [Stage.attemptPermit]

end Hops

/-! ## Over whole runs -/

namespace System

/-- How many calls hold a permit for the whole operation. -/
def opPermits (s : System T E) : Nat := TaskPool.count (·.opPermit) s.calls

def attemptPermits (s : System T E) : Nat := TaskPool.count (·.stage.attemptPermit) s.calls

structure Conserved (plan : Plan T E) (n : Nat) (s : System T E) : Prop where
  total : s.shared.sem.permits + s.opPermits + s.attemptPermits = n
  lawful : ∀ (i : Nat) (call : Call T E), s.calls[i]? = some call → call.Lawful plan .suspended

variable {plan : Plan T E} {n : Nat}

theorem conserved_settle {s : System T E} {i : Nat} {call : Call T E} (h : s.Conserved plan n)
    (hi : s.calls[i]? = some call) {f : Frame T E} (hf : f.sem = s.shared.sem)
    {done : Call T E × Frame T E}
    (hdone : done.1.Lawful plan .suspended ∧
      done.2.sem.permits + (Place.mk done.1 .suspended done.2).cursor.held =
        f.sem.permits + (Place.mk call .suspended f).cursor.held) :
    (s.settle i done).Conserved plan n := by
  have hmoved : done.2.sem.permits +
      ((if done.1.opPermit then 1 else 0) + (if done.1.stage.attemptPermit then 1 else 0)) =
        s.shared.sem.permits +
          ((if call.opPermit then 1 else 0) + (if call.stage.attemptPermit then 1 else 0)) :=
    hf ▸ hdone.2
  have hop := TaskPool.count_set (·.opPermit) hi done.1
  have hattempt := TaskPool.count_set (·.stage.attemptPermit) hi done.1
  have htotal := h.total
  refine ⟨?_, fun j other hj => ?_⟩
  · simp only [opPermits, attemptPermits, settle] at htotal ⊢
    omega
  · rcases TaskPool.getElem?_set_cases hj with ⟨rfl, rfl⟩ | ⟨_, hold⟩
    · exact hdone.1
    · exact h.lawful j other hold

theorem conserved_step (s : System T E) (l : Label T E) (s' : System T E)
    (h : s.Conserved plan n) (hstep : step plan s l = some s') : s'.Conserved plan n := by
  cases l with
  | elapse d =>
      cases hstep
      exact ⟨h.total, h.lawful⟩
  | call =>
      cases hstep
      refine ⟨?_, fun j other hj => ?_⟩
      · have htotal := h.total
        simpa [opPermits, attemptPermits, created, Stage.attemptPermit] using htotal
      · rcases TaskPool.getElem?_snoc_cases hj with ⟨_, rfl⟩ | hold
        · exact ⟨fun hfalse => absurd hfalse Bool.false_ne_true, rfl⟩
        · exact h.lawful j other hold
  | poll i script =>
      obtain ⟨call, done, hi, hdone, rfl⟩ := step_poll hstep
      exact conserved_settle h hi rfl (permits_pollCall (h.lawful i call hi) hdone)
  | drop i =>
      obtain ⟨call, done, hi, hdone, rfl⟩ := step_drop hstep
      exact conserved_settle h hi rfl (permits_dropCall hdone)
  | depositElsewhere =>
      obtain ⟨tokens, rfl⟩ := step_elsewhere (.inl rfl) hstep
      exact ⟨h.total, h.lawful⟩
  | withdrawElsewhere =>
      obtain ⟨tokens, rfl⟩ := step_elsewhere (.inr rfl) hstep
      exact ⟨h.total, h.lawful⟩

theorem conserved_init {limit : ConcurrencyLimit} (hc : plan.concurrency = some limit)
    (start : Nat) : (init plan start).Conserved plan limit.permits := by
  refine ⟨?_, fun i call hi => ?_⟩
  · simp [init, hc, SemState.new, opPermits, attemptPermits]
  · simp [init] at hi

end System

/-- In every state of every run the free permits and those held by calls and attempts
add up to the limit; so no more than the limit are held by either, no call holds two,
and all are free once every call is over. -/
theorem permits_conserved (plan : Plan T E) (limit : ConcurrencyLimit)
    (hc : plan.concurrency = some limit) (start : Nat) (ls : List (System.Label T E))
    (s : System T E) (hrun : run (System.step plan) (System.init plan start) ls = some s) :
    s.shared.sem.permits + s.opPermits + s.attemptPermits = limit.permits ∧
      s.opPermits ≤ limit.permits ∧ s.attemptPermits ≤ limit.permits ∧
      (∀ (i : Nat) (call : Call T E), s.calls[i]? = some call →
        ¬ (call.opPermit = true ∧ call.stage.attemptPermit = true)) ∧
      ((∀ (i : Nat) (call : Call T E), s.calls[i]? = some call → call.stage.isOver = true) →
        s.shared.sem.permits = limit.permits) := by
  have h := invariant_of_step System.conserved_step (System.conserved_init hc start) hrun
  have htotal := h.total
  refine ⟨htotal, by omega, by omega, fun i call hi hboth => ?_, fun hover => ?_⟩
  · rw [(h.lawful i call hi).not_both hboth.1] at hboth
    cases hboth.2
  · have hop : s.opPermits = 0 := TaskPool.count_eq_zero_iff.mpr fun i call hi =>
      ((h.lawful i call hi).none_of_isOver (hover i call hi)).1
    have hattempt : s.attemptPermits = 0 := TaskPool.count_eq_zero_iff.mpr fun i call hi =>
      ((h.lawful i call hi).none_of_isOver (hover i call hi)).2
    omega

/-- One attempt at a time, cut off after 1 ns, with 5 ns between attempts. -/
def oneAttemptAtATime : Plan Nat Nat where
  retry := Retry.fixed 5
  attemptTimeout := some 1
  totalTimeout := none
  breaker := none
  concurrency := some (.attempts 1)
  onEvent := false
  maxAttempts_pos := Plan.threeAttempts_pos
  timeouts_ordered := Plan.unbounded_ordered (some 1)

/-- Call 0 is in its attempt while call 1 queues for the permit. -/
def oneQueues : List (System.Label Nat Nat) :=
  [.call, .poll 0 .pending, .call, .poll 1 .pending]

def oneQueued : System Nat Nat :=
  (run (System.step oneAttemptAtATime) (System.init oneAttemptAtATime 0) oneQueues).get rfl

theorem permits_conserved_oneQueued :
    oneQueued.shared.sem.permits = 0 ∧ oneQueued.attemptPermits = 1 ∧
      oneQueued.shared.sem.permits + oneQueued.opPermits + oneQueued.attemptPermits = 1 :=
  ⟨rfl, rfl, (permits_conserved oneAttemptAtATime (.attempts 1) rfl 0 oneQueues oneQueued rfl).1⟩

end ExecutionPolicy
