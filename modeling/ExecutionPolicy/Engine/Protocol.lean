import ExecutionPolicy.Engine.Parallel
import ExecutionPolicy.Engine.Permits

/-! # What a call may do to what it shares

The protocol of one call towards the semaphore, the breaker and the budget, and towards its
own log: it gives back permits it holds, asks the gate once and votes once after that, starts
its attempts one after the other under their numbers, and pays for each retry before it
starts it. Every stretch of the pipeline is checked against it here, whatever the other
calls do in between.
-/

namespace ExecutionPolicy

open Interleaving

variable {T E : Type}

namespace Parallel

/-! ## The protocol -/

inductive GatePhase where
  | before
  | admitted (as : BreakerState)
  | over
deriving DecidableEq

structure Phase where
  held : Nat
  gate : GatePhase
  started : Nat
  live : Bool
  /-- A token is taken and no attempt started with it. -/
  token : Bool
  deposited : Bool
deriving DecidableEq

def Phase.first : Phase where
  held := 0
  gate := .before
  started := 0
  live := false
  token := false
  deposited := false

def Gated (plan : Plan T E) (cfg : BreakerConfig) : Prop :=
  ∃ b, plan.breaker = some b ∧ b.config = cfg

/-- What may be noted besides the accesses that are observations themselves. -/
def Phase.Notes (φ : Phase) : Obs T E → Prop
  | .ended number _ _ => φ.live = true ∧ number = φ.started
  | .unrecorded => φ.gate ≠ .over
  | .event _ | .paused _ | .resumed _ => True
  | _ => False

def Phase.noted (φ : Phase) : Obs T E → Phase
  | .ended _ _ _ => { φ with live := false }
  | .unrecorded => { φ with gate := .over }
  | _ => φ

/-- The operation of a limited call is invoked and polled under a permit. -/
def Phase.Permitted (plan : Plan T E) (φ : Phase) : Prop :=
  plan.concurrency.isSome = true → 0 < φ.held

def Phase.Allows (plan : Plan T E) (φ : Phase) : Access T E → Prop
  | .operate => φ.Permitted plan
  | .tryAcquire => φ.live = false
  | .pollAcquire => φ.live = false
  | .release => 0 < φ.held
  | .gate cfg _ => φ.gate = .before ∧ Gated plan cfg
  | .recordSuccess cfg _ => (∃ as, φ.gate = .admitted as) ∧ Gated plan cfg
  | .recordFailure cfg _ => (∃ as, φ.gate = .admitted as) ∧ Gated plan cfg
  | .deposit b => plan.retry.budget = some b ∧ φ.deposited = false
  | .tryWithdraw => plan.retry.budget.isSome = true ∧ φ.token = false
  | .start attempt =>
      φ.live = false ∧ attempt.number = φ.started + 1 ∧
        attempt.number ≤ plan.retry.maxAttempts ∧
        (plan.retry.budget.isSome = true → 2 ≤ attempt.number → φ.token = true) ∧
        φ.Permitted plan
  | .note o => φ.Notes o
  | _ => True

/-- The permit an access has taken, when its answer says so. -/
def Phase.took (φ : Phase) (taken : Bool) : Phase :=
  { φ with held := φ.held + if taken then 1 else 0 }

def Phase.next (φ : Phase) : (a : Access T E) → a.Answer → Phase
  | .tryAcquire, taken => φ.took taken
  | .pollAcquire, taken => φ.took taken
  | .release, _ => { φ with held := φ.held - 1 }
  | .gate _ _, .ok as => { φ with gate := .admitted as }
  | .gate _ _, .error _ => { φ with gate := .over }
  | .recordSuccess _ _, _ => { φ with gate := .over }
  | .recordFailure _ _, _ => { φ with gate := .over }
  | .deposit _, _ => { φ with deposited := true }
  | .tryWithdraw, taken => { φ with token := taken }
  | .start _, _ => { φ with started := φ.started + 1, live := true, token := false }
  | .note o, _ => φ.noted o
  | _, _ => φ

def protocol (plan : Plan T E) : Protocol Phase (Access T E) Access.Answer where
  allows φ a := φ.Allows plan a
  next := Phase.next

/-! ## Calls at rest -/

def held (call : Call T E) : Nat :=
  (if call.opPermit then 1 else 0) + if call.stage.attemptPermit then 1 else 0

/-- In `drive`, which the gate let in as `as`, with `n` the number of the attempt. -/
structure Driving (plan : Plan T E) (opPermit : Bool) (φ : Phase) (as : BreakerState)
    (n : Nat) : Prop where
  own : plan.scope? = some .operations → opPermit = true
  gate : φ.gate = if plan.breaker.isSome then .admitted as else .before
  capped : n ≤ plan.retry.maxAttempts

/-- Attempt `n` is to start, and is paid for. -/
structure Ready (plan : Plan T E) (opPermit : Bool) (φ : Phase) (as : BreakerState)
    (n : Nat) : Prop extends Driving plan opPermit φ as n where
  started : φ.started + 1 = n
  live : φ.live = false
  paid : plan.retry.budget.isSome = true → 2 ≤ n → φ.token = true

structure Running (plan : Plan T E) (opPermit : Bool) (φ : Phase) (as : BreakerState)
    (n : Nat) : Prop extends Driving plan opPermit φ as n where
  started : φ.started = n
  live : φ.live = true
  spent : φ.token = false

structure Ended (plan : Plan T E) (opPermit : Bool) (φ : Phase) (as : BreakerState)
    (n : Nat) : Prop extends Driving plan opPermit φ as n where
  started : φ.started = n
  live : φ.live = false
  spent : φ.token = false

structure Paid (plan : Plan T E) (opPermit : Bool) (φ : Phase) (as : BreakerState)
    (n : Nat) : Prop extends Driving plan opPermit φ as n where
  started : φ.started = n
  live : φ.live = false
  more : n < plan.retry.maxAttempts
  paid : plan.retry.budget.isSome = true → φ.token = true

structure Outside (φ : Phase) : Prop where
  gate : φ.gate = .before
  started : φ.started = 0
  live : φ.live = false
  deposited : φ.deposited = false

structure Leaving (plan : Plan T E) (φ : Phase) (call : Call T E) : Prop where
  held : φ.held = if call.opPermit then 1 else 0
  gate : if plan.breaker.isSome then ∃ as, φ.gate = .admitted as else φ.gate = .before
  live : φ.live = false

/-- Nothing is left to be told to the breaker. -/
structure Concluded (φ : Phase) : Prop where
  gate : ∀ as, φ.gate ≠ .admitted as
  live : φ.live = false

def StageAt (plan : Plan T E) (φ : Phase) (call : Call T E) : Prop :=
  match call.stage with
  | .created | .operationsQueue _ => Outside φ ∧ call.opPermit = false
  | .attemptsQueue d attempt _ =>
      Ready plan call.opPermit φ d.breakerState d.attemptNo ∧ attempt.number = d.attemptNo
  | .running d permit _ =>
      Running plan call.opPermit φ d.breakerState d.attemptNo ∧
        (plan.scope? = some .attempts → permit = true)
  | .backingOff d _ => Paid plan call.opPermit φ d.breakerState d.attemptNo
  | .returned _ => Concluded φ ∧ call.opPermit = false
  | .dropped => (∀ as, φ.gate ≠ .admitted as) ∧ call.opPermit = false

structure At (plan : Plan T E) (φ : Phase) (call : Call T E) : Prop where
  held : φ.held = held call
  stage : StageAt plan φ call

def PolledAt (plan : Plan T E) (call : Call T E) (φ : Phase) : Polled T E → Prop
  | .ready _ => Leaving plan φ call
  | .pending stage => At plan φ { call with stage }

/-! ## Accesses that leave the phase alone -/

section Quiet

variable {plan : Plan T E} {φ : Phase} {α : Type} {post : Phase → α → Prop}

theorem keeps_ask {a : Access T E} {f : a.Answer → Code T E α} :
    (ask a >>= f).Keeps (protocol plan) post φ ↔
      φ.Allows plan a ∧ ∀ r, (f r).Keeps (protocol plan) post (φ.next a r) := Iff.rfl

theorem keeps_now {f : Nat → Code T E α} (h : ∀ t, (f t).Keeps (protocol plan) post φ) :
    (now >>= f).Keeps (protocol plan) post φ := ⟨trivial, h⟩

theorem keeps_note {o : Obs T E} {f : Unit → Code T E α} (ho : φ.Notes o)
    (h : (f ()).Keeps (protocol plan) post (φ.noted o)) :
    (note o >>= f).Keeps (protocol plan) post φ := ⟨ho, fun _ => h⟩

theorem keeps_emit (plan' : Plan T E) {e : Event} {f : Unit → Code T E α}
    (h : (f ()).Keeps (protocol plan) post φ) :
    (emit plan' e >>= f).Keeps (protocol plan) post φ := by
  unfold emit
  split
  · exact ⟨trivial, fun _ => h⟩
  · exact h

theorem keeps_sleep {d : Nat} {f : Nat → Code T E α}
    (h : ∀ t, (f t).Keeps (protocol plan) post φ) :
    (sleep d >>= f).Keeps (protocol plan) post φ := ⟨trivial, fun t => h (t + d)⟩

theorem keeps_armSleep {d : Option Nat} {f : Option Nat → Code T E α}
    (h : ∀ t, (f t).Keeps (protocol plan) post φ) :
    (armSleep d >>= f).Keeps (protocol plan) post φ := by
  cases d with
  | none => exact h none
  | some d => exact ⟨trivial, fun t => h (some (t + d))⟩

theorem keeps_armDeadline {d : Option Nat} {f : Option Nat → Code T E α}
    (h : ∀ t, (f t).Keeps (protocol plan) post φ) :
    (armDeadline d >>= f).Keeps (protocol plan) post φ := by
  cases d with
  | none => exact h none
  | some d => exact ⟨trivial, fun t => ⟨trivial, fun t' => h (some (t' + _))⟩⟩

theorem keeps_pollTimer {wake : Option Nat} {f : Bool → Code T E α}
    (h : ∀ r, (f r).Keeps (protocol plan) post φ) :
    (pollTimer wake >>= f).Keeps (protocol plan) post φ := by
  cases wake with
  | none => exact h false
  | some wake => exact ⟨trivial, fun t => h (decide (wake ≤ t))⟩

end Quiet

/-! ## Permits -/

section Permits

variable {plan : Plan T E} {φ : Phase} {α : Type} {post : Phase → α → Prop}

def Phase.answered (φ : Phase) : AcquireResult → Phase
  | .granted => { φ with held := φ.held + 1 }
  | _ => φ

theorem keeps_pollPermit (timers : QueueTimers) (hlive : φ.live = false) :
    (pollPermit timers).Keeps (protocol plan) (fun ψ r => ψ = φ.answered r) φ := by
  refine keeps_ask.mpr ⟨hlive, fun taken => ?_⟩
  cases taken with
  | true => rfl
  | false =>
      refine keeps_pollTimer fun expired => ?_
      cases expired with
      | true => rfl
      | false =>
          refine keeps_pollTimer fun late => ?_
          cases late <;> rfl

theorem keeps_acquirePermit (limit : ConcurrencyLimit) (totalDeadline : Option Nat)
    (hlive : φ.live = false) :
    (acquirePermit limit totalDeadline).Keeps (protocol plan) (fun ψ r => ψ = φ.answered r) φ := by
  refine keeps_ask.mpr ⟨hlive, fun taken => ?_⟩
  cases taken with
  | true => rfl
  | false =>
      simp only [Bool.false_eq_true, if_false]
      split
      next => rfl
      next maxQueued queueTimeout =>
          refine keeps_ask.mpr ⟨trivial, fun full => ?_⟩
          cases full with
          | true => rfl
          | false =>
              refine keeps_armSleep fun queue => keeps_armDeadline fun deadline => ?_
              exact keeps_pollPermit _ hlive

end Permits

/-! ## The retry loop -/

def ownPermit (call : Call T E) : Nat := if call.opPermit then 1 else 0

section Loop

variable {plan : Plan T E} {φ : Phase} {call : Call T E} {d : Drive E}

theorem Driving.unvoted {as : BreakerState} {n : Nat} (h : Driving plan call.opPermit φ as n) :
    φ.gate ≠ .over := by
  rw [h.gate]
  split <;> simp

theorem Driving.leaving {as : BreakerState} {n : Nat} (h : Driving plan call.opPermit φ as n)
    (hheld : φ.held = ownPermit call) (hlive : φ.live = false) : Leaving plan φ call := by
  refine ⟨hheld, ?_, hlive⟩
  have hgate := h.gate
  split <;> simp_all

theorem permitted_of {permit : Bool} (hown : plan.scope? = some .operations → call.opPermit = true)
    (hpermit : plan.scope? = some .attempts → permit = true)
    (hheld : φ.held = ownPermit call + if permit then 1 else 0) : φ.Permitted plan := by
  intro hlimited
  obtain ⟨limit, hc⟩ := Option.isSome_iff_exists.mp hlimited
  rw [hheld]
  cases hscope : limit.scope with
  | operations =>
      have hone : ownPermit call = 1 := if_pos (hown (by simp [Plan.scope?, hc, hscope]))
      omega
  | attempts =>
      rw [hpermit (by simp [Plan.scope?, hc, hscope])]
      exact Nat.succ_pos _

theorem keeps_invoke {attempt : Attempt} {permit : Bool}
    (h : Ready plan call.opPermit φ d.breakerState d.attemptNo)
    (hnumber : attempt.number = d.attemptNo)
    (hpermit : plan.scope? = some .attempts → permit = true)
    (hheld : φ.held = ownPermit call + if permit then 1 else 0) :
    (invoke d attempt permit).Keeps (protocol plan) (PolledAt plan call) φ := by
  have hpermitted := permitted_of h.own hpermit hheld
  refine keeps_ask.mpr ⟨⟨h.live, ?_, ?_, ?_, hpermitted⟩, fun _ => ⟨hheld, ?_, hpermit⟩⟩
  · rw [hnumber, h.started]
  · rw [hnumber]
    exact h.capped
  · rw [hnumber]
    exact h.paid
  · exact ⟨⟨h.own, h.gate, h.capped⟩, h.started, rfl, rfl⟩

theorem keeps_withPermit {attempt : Attempt}
    (h : Ready plan call.opPermit φ d.breakerState d.attemptNo)
    (hnumber : attempt.number = d.attemptNo) (hheld : φ.held = ownPermit call)
    (r : AcquireResult) :
    (withPermit plan call d attempt r).Keeps (protocol plan) (PolledAt plan call)
      (φ.answered r) := by
  cases r with
  | granted =>
      refine keeps_invoke ?_ hnumber (fun _ => rfl) (congrArg (· + 1) hheld)
      exact ⟨⟨h.own, h.gate, h.capped⟩, h.started, h.live, h.paid⟩
  | rejected => exact keeps_emit plan (keeps_now fun _ => h.leaving hheld h.live)
  | queued timers => exact ⟨hheld, h, hnumber⟩

theorem keeps_loopTop (h : Ready plan call.opPermit φ d.breakerState d.attemptNo)
    (hheld : φ.held = ownPermit call) :
    (loopTop plan call d).Keeps (protocol plan) (PolledAt plan call) φ := by
  refine keeps_now fun present => ?_
  split
  next limit hc =>
      split
      next hscope =>
          refine (keeps_acquirePermit limit call.totalDeadline h.live).bind fun ψ r hψ => ?_
          rw [hψ]
          exact keeps_withPermit h rfl hheld r
      next hscope =>
          refine keeps_invoke h rfl (fun hattempts => ?_) hheld
          simp [Plan.scope?, hc, hscope] at hattempts
  next hc =>
      refine keeps_invoke h rfl (fun hattempts => ?_) hheld
      simp [Plan.scope?, hc] at hattempts

theorem keeps_nextRound (h : Paid plan call.opPermit φ d.breakerState d.attemptNo)
    (hheld : φ.held = ownPermit call) :
    (nextRound plan call d).Keeps (protocol plan) (PolledAt plan call) φ := by
  have hnext : Ready plan call.opPermit φ d.breakerState (d.attemptNo + 1) :=
    ⟨⟨h.own, h.gate, h.more⟩, by rw [h.started], h.live, fun hb _ => h.paid hb⟩
  unfold nextRound
  split
  next deadline hd =>
      refine keeps_now fun present => keeps_note trivial ?_
      split
      next => exact keeps_now fun _ => h.leaving hheld h.live
      next => exact keeps_loopTop hnext hheld
  next => exact keeps_loopTop hnext hheld

theorem keeps_sleeping (wake : Nat) (h : Paid plan call.opPermit φ d.breakerState d.attemptNo)
    (hheld : φ.held = ownPermit call) :
    (sleeping plan call d wake).Keeps (protocol plan) (PolledAt plan call) φ := by
  refine keeps_now fun present => ?_
  split
  next => exact keeps_nextRound h hheld
  next => exact ⟨hheld, h⟩

theorem keeps_announce (raw : Nat) (h : Paid plan call.opPermit φ d.breakerState d.attemptNo)
    (hheld : φ.held = ownPermit call) :
    (announce plan call d raw).Keeps (protocol plan) (PolledAt plan call) φ := by
  have hrest : ∀ delay, (do
      emit plan (.retryScheduled d.attemptNo delay)
      if delay = 0 then nextRound plan call d
      else sleeping plan call d (← sleep delay)).Keeps (protocol plan) (PolledAt plan call) φ := by
    intro delay
    refine keeps_emit plan ?_
    split
    next => exact keeps_nextRound h hheld
    next => exact keeps_sleep fun wake => keeps_sleeping wake h hheld
  unfold announce
  split
  next deadline hd => exact keeps_now fun present => hrest _
  next => exact hrest raw

theorem keeps_pause (h : Paid plan call.opPermit φ d.breakerState d.attemptNo)
    (hheld : φ.held = ownPermit call) :
    (pause plan call d).Keeps (protocol plan) (PolledAt plan call) φ := by
  refine keeps_ask.mpr ⟨trivial, fun rng => ?_⟩
  dsimp only
  split
  next deadline hd =>
      refine keeps_now fun present => keeps_note trivial ?_
      split
      next err he =>
          split
          next hint hh =>
              split
              next => exact keeps_emit plan (keeps_now fun _ => h.leaving hheld h.live)
              next => exact keeps_announce _ h hheld
          next => exact keeps_announce _ h hheld
      next => exact keeps_announce _ h hheld
  next => exact keeps_announce _ h hheld

theorem keeps_checkBudget (ended : Nat) (h : Ended plan call.opPermit φ d.breakerState d.attemptNo)
    (hmore : d.attemptNo < plan.retry.maxAttempts) (hheld : φ.held = ownPermit call) :
    (checkBudget plan call d ended).Keeps (protocol plan) (PolledAt plan call) φ := by
  unfold checkBudget
  split
  next hb =>
      refine keeps_ask.mpr ⟨⟨hb, h.spent⟩, fun taken => ?_⟩
      cases taken with
      | true =>
          have hpaid : Paid plan call.opPermit (φ.next (T := T) (E := E) .tryWithdraw true)
              d.breakerState d.attemptNo :=
            ⟨⟨h.own, h.gate, h.capped⟩, h.started, h.live, hmore, fun _ => rfl⟩
          exact keeps_pause hpaid hheld
      | false =>
          refine keeps_emit plan ?_
          exact Driving.leaving ⟨h.own, h.gate, h.capped⟩ hheld h.live
  next hb =>
      have hnone : plan.retry.budget.isSome = true → φ.token = true := fun hsome => absurd hsome hb
      exact keeps_pause ⟨⟨h.own, h.gate, h.capped⟩, h.started, h.live, hmore, hnone⟩ hheld

theorem keeps_checkElapsed (ended : Nat) (h : Ended plan call.opPermit φ d.breakerState d.attemptNo)
    (hmore : d.attemptNo < plan.retry.maxAttempts) (hheld : φ.held = ownPermit call) :
    (checkElapsed plan call d ended).Keeps (protocol plan) (PolledAt plan call) φ := by
  unfold checkElapsed
  split
  next maxElapsed hmax =>
      split
      next =>
          refine keeps_emit plan ?_
          dsimp only
          split <;> exact h.leaving hheld h.live
      next => exact keeps_checkBudget ended h hmore hheld
  next => exact keeps_checkBudget ended h hmore hheld

theorem keeps_matchOutcome (outcome : AttemptOutcome T E) (ended : Nat)
    (h : Ended plan call.opPermit φ d.breakerState d.attemptNo) (hheld : φ.held = ownPermit call) :
    (matchOutcome plan call d outcome ended).Keeps (protocol plan) (PolledAt plan call) φ := by
  have hleaving : Leaving plan φ call := h.leaving hheld h.live
  unfold matchOutcome
  dsimp only
  split
  next => exact keeps_emit plan hleaving
  next result =>
      split
      next => split <;> exact keeps_emit plan hleaving
      next =>
          split
          next v =>
              split
              next => exact keeps_emit plan hleaving
              next hmore => exact keeps_checkElapsed ended h (Nat.lt_of_not_le hmore) hheld
          next e =>
              split
              next => exact keeps_emit plan hleaving
              next hmore =>
                  exact keeps_emit plan (keeps_checkElapsed ended h (Nat.lt_of_not_le hmore) hheld)
  next =>
      refine keeps_emit plan ?_
      split
      next => exact keeps_emit plan hleaving
      next hmore => exact keeps_checkElapsed ended h (Nat.lt_of_not_le hmore) hheld

theorem keeps_afterSelect {permit : Bool} (outcome : AttemptOutcome T E)
    (h : Running plan call.opPermit φ d.breakerState d.attemptNo)
    (hheld : φ.held = ownPermit call + if permit then 1 else 0) :
    (afterSelect plan call d permit outcome).Keeps (protocol plan) (PolledAt plan call) φ := by
  have hover : ∀ ψ : Phase, Running plan call.opPermit ψ d.breakerState d.attemptNo →
      ψ.held = ownPermit call → (do
        let ended ← now
        note (.ended d.attemptNo outcome ended)
        matchOutcome plan call d outcome ended).Keeps (protocol plan) (PolledAt plan call) ψ := by
    intro ψ hψ hown
    refine keeps_now fun ended => keeps_note ⟨hψ.live, hψ.started.symm⟩ ?_
    have hended : Ended plan call.opPermit { ψ with live := false } d.breakerState d.attemptNo :=
      ⟨⟨hψ.own, hψ.gate, hψ.capped⟩, hψ.started, rfl, hψ.spent⟩
    exact keeps_matchOutcome outcome ended hended hown
  unfold afterSelect
  cases permit with
  | true =>
      have hrest : Running plan call.opPermit (φ.next (T := T) (E := E) .release ()) d.breakerState
          d.attemptNo := ⟨⟨h.own, h.gate, h.capped⟩, h.started, h.live, h.spent⟩
      refine keeps_ask.mpr ⟨?_, fun _ => hover _ hrest ?_⟩
      · show 0 < φ.held
        rw [hheld]
        exact Nat.succ_pos _
      · show φ.held - 1 = _
        rw [hheld]
        rfl
  | false => exact hover φ h hheld

theorem keeps_pollSleeps {permit : Bool} (armed : AttemptTimers)
    (h : Running plan call.opPermit φ d.breakerState d.attemptNo)
    (hpermit : plan.scope? = some .attempts → permit = true)
    (hheld : φ.held = ownPermit call + if permit then 1 else 0) :
    (pollSleeps plan call d permit armed).Keeps (protocol plan) (PolledAt plan call) φ := by
  refine keeps_pollTimer fun attempt => ?_
  split
  next => exact keeps_afterSelect .attemptTimeout h hheld
  next =>
      refine keeps_pollTimer fun total => ?_
      split
      next => exact keeps_afterSelect .totalTimeout h hheld
      next => exact ⟨hheld, h, hpermit⟩

theorem keeps_pollSelect {permit : Bool} (timers : Option AttemptTimers)
    (h : Running plan call.opPermit φ d.breakerState d.attemptNo)
    (hpermit : plan.scope? = some .attempts → permit = true)
    (hheld : φ.held = ownPermit call + if permit then 1 else 0) :
    (pollSelect plan call d permit timers).Keeps (protocol plan) (PolledAt plan call) φ := by
  refine keeps_ask.mpr ⟨permitted_of h.own hpermit hheld, fun answer => ?_⟩
  split
  next r => exact keeps_afterSelect (.completed r) h hheld
  next =>
      split
      next armed => exact keeps_pollSleeps armed h hpermit hheld
      next =>
          refine keeps_armSleep fun attempt => keeps_armDeadline fun total => ?_
          exact keeps_pollSleeps _ h hpermit hheld

end Loop

/-! ## Around the loop -/

section Pipeline

variable {plan : Plan T E} {φ : Phase} {call : Call T E}

theorem keeps_leave (result : Except (ExecutionError E) T) (hheld : φ.held = ownPermit call)
    (h : Concluded φ) : (leave call result).Keeps (protocol plan) (At plan) φ := by
  unfold leave
  split
  next hown =>
      have hone : φ.held = 1 := hheld.trans (if_pos hown)
      refine keeps_ask.mpr ⟨?_, fun _ => ⟨?_, ⟨h.gate, h.live⟩, rfl⟩⟩
      · show 0 < φ.held
        omega
      · show φ.held - 1 = 0
        omega
  next hown => exact ⟨hheld.trans (if_neg hown), h, rfl⟩

theorem keeps_vote {b : CompiledBreaker E} (present : Nat) (result : Except (ExecutionError E) T)
    (hb : plan.breaker = some b) {as : BreakerState} (hgate : φ.gate = .admitted as) :
    (vote b present result).Keeps (protocol plan) (fun ψ _ => ψ = { φ with gate := .over }) φ := by
  have hallowed : (∃ as, φ.gate = .admitted as) ∧ Gated plan b.config := ⟨⟨as, hgate⟩, b, hb, rfl⟩
  unfold vote
  split
  next => exact ⟨hallowed, fun _ => rfl⟩
  next e =>
      split
      next => exact ⟨hallowed, fun _ => rfl⟩
      next =>
          split
          next => split <;> exact ⟨hallowed, fun _ => rfl⟩
          next =>
              have hopen : φ.gate ≠ .over := by simp [hgate]
              exact ⟨hopen, fun _ => rfl⟩

theorem keeps_record (result : Except (ExecutionError E) T) (h : Leaving plan φ call) :
    (record plan result).Keeps (protocol plan)
      (fun ψ _ => ψ.held = ownPermit call ∧ Concluded ψ) φ := by
  have hgate := h.gate
  unfold record
  split
  next b hb =>
      rw [if_pos (by simp [hb])] at hgate
      obtain ⟨as, has⟩ := hgate
      have hdone : ({ φ with gate := .over } : Phase).held = ownPermit call ∧
          Concluded { φ with gate := .over } := ⟨h.held, ⟨by simp, h.live⟩⟩
      refine keeps_now fun present => (keeps_vote present result hb has).bind fun ψ r hψ => ?_
      rw [hψ]
      cases r with
      | none => exact hdone
      | some state =>
          dsimp only
          unfold emit
          split
          next => exact ⟨trivial, fun _ => hdone⟩
          next => exact hdone
  next hb =>
      have hnone : plan.breaker = none := by
        cases hp : plan.breaker with
        | none => rfl
        | some b => exact absurd hp (hb b)
      rw [if_neg (by simp [hnone])] at hgate
      exact ⟨h.held, ⟨by simp [hgate], h.live⟩⟩

theorem keeps_afterDrive {polled : Polled T E} (h : PolledAt plan call φ polled) :
    (afterDrive plan call polled).Keeps (protocol plan) (At plan) φ := by
  cases polled with
  | pending stage => exact h
  | ready result =>
      exact (keeps_record result h).bind fun ψ _ hψ => keeps_leave result hψ.1 hψ.2

theorem keeps_awaitDrive {drive : Code T E (Polled T E)}
    (h : drive.Keeps (protocol plan) (PolledAt plan call) φ) :
    (awaitDrive plan call drive).Keeps (protocol plan) (At plan) φ :=
  h.bind fun _ _ hpolled => keeps_afterDrive hpolled

theorem keeps_enterDrive {as : BreakerState}
    (hop : plan.scope? = some .operations → call.opPermit = true) (hheld : φ.held = ownPermit call)
    (hgate : φ.gate = if plan.breaker.isSome then .admitted as else .before)
    (hstarted : φ.started = 0) (hlive : φ.live = false) (hdeposited : φ.deposited = false) :
    (enterDrive plan call as).Keeps (protocol plan) (At plan) φ := by
  have hfirst : ∀ ψ : Phase, ψ.held = ownPermit call → ψ.gate = φ.gate → ψ.started = 0 →
      ψ.live = false → (awaitDrive plan call (loopTop plan call
        { breakerState := as, lastDelay := none, lastError := none, attemptNo := 1 })).Keeps
          (protocol plan) (At plan) ψ := by
    intro ψ hown hsame hnone hrest
    refine keeps_awaitDrive (keeps_loopTop ?_ hown)
    refine ⟨⟨hop, hsame.trans hgate, plan.maxAttempts_pos⟩, by rw [hnone], hrest, ?_⟩
    intro _ htwo
    exact absurd htwo (Nat.not_succ_le_self 1)
  unfold enterDrive
  split
  next b hb =>
      refine keeps_ask.mpr ⟨⟨hb, hdeposited⟩, fun _ => ?_⟩
      exact hfirst _ hheld rfl hstarted hlive
  next => exact hfirst φ hheld rfl hstarted hlive

theorem keeps_belowPermit (hop : plan.scope? = some .operations → call.opPermit = true)
    (hheld : φ.held = ownPermit call) (h : Outside φ) :
    (belowPermit plan call).Keeps (protocol plan) (At plan) φ := by
  unfold belowPermit
  split
  next hb =>
      refine keeps_enterDrive hop hheld ?_ h.started h.live h.deposited
      rw [hb]
      exact h.gate
  next b hb =>
      refine keeps_now fun present => keeps_ask.mpr ⟨⟨h.gate, b, hb, rfl⟩, fun answer => ?_⟩
      split
      next as =>
          have henter : (enterDrive plan call as).Keeps (protocol plan) (At plan)
              { φ with gate := .admitted as } := by
            refine keeps_enterDrive hop hheld ?_ h.started h.live h.deposited
            rw [hb]
            rfl
          split
          next => exact keeps_emit plan henter
          next => exact henter
      next =>
          refine keeps_now fun _ => keeps_leave _ hheld ⟨?_, h.live⟩
          simp [Phase.next]

theorem keeps_withOpPermit (hheld : φ.held = 0) (hown : call.opPermit = false) (h : Outside φ)
    (r : AcquireResult) :
    (withOpPermit plan call r).Keeps (protocol plan) (At plan) (φ.answered r) := by
  cases r with
  | granted =>
      refine keeps_belowPermit (fun _ => rfl) ?_ ⟨h.gate, h.started, h.live, h.deposited⟩
      exact congrArg (· + 1) hheld
  | rejected =>
      have hopen : φ.gate ≠ .over := by simp [h.gate]
      refine keeps_note hopen (keeps_emit plan (keeps_now fun _ => keeps_leave _ ?_ ?_))
      · exact hheld.trans (by simp [ownPermit, hown])
      · exact ⟨by simp [Phase.noted], h.live⟩
  | queued timers =>
      refine ⟨hheld.trans ?_, h, hown⟩
      simp [held, hown, Stage.attemptPermit]

theorem keeps_runPipeline (hheld : φ.held = 0) (hown : call.opPermit = false) (h : Outside φ) :
    (runPipeline plan call).Keeps (protocol plan) (At plan) φ := by
  have hnone : ∀ start totalDeadline,
      φ.held = ownPermit ({ call with start, totalDeadline } : Call T E) := by
    intro start totalDeadline
    simp [ownPermit, hown, hheld]
  have hnot : ∀ start totalDeadline,
      ({ call with start, totalDeadline } : Call T E).opPermit = false := fun _ _ => hown
  refine keeps_now fun start => ?_
  dsimp only
  split
  next limit hc =>
      split
      next =>
          refine (keeps_acquirePermit limit _ h.live).bind fun ψ r hψ => ?_
          rw [hψ]
          exact keeps_withOpPermit hheld (hnot _ _) h r
      next hscope =>
          refine keeps_belowPermit (fun hoperations => ?_) (hnone _ _) h
          simp [Plan.scope?, hc, hscope] at hoperations
  next hc =>
      refine keeps_belowPermit (fun hoperations => ?_) (hnone _ _) h
      simp [Plan.scope?, hc] at hoperations

end Pipeline

/-! ## Every program of a call -/

section Programs

variable {plan : Plan T E} {φ : Phase} {call : Call T E}

theorem keeps_pollCall {code : Code T E (Call T E)} (hat : At plan φ call)
    (h : pollCall plan call = some code) : code.Keeps (protocol plan) (At plan) φ := by
  have hheld := hat.held
  have hstage := hat.stage
  unfold pollCall at h
  unfold StageAt at hstage
  cases hs : call.stage with
  | created =>
      rw [hs] at h hstage
      cases h
      refine keeps_runPipeline (hheld.trans ?_) hstage.2 hstage.1
      simp [held, hs, hstage.2, Stage.attemptPermit]
  | operationsQueue timers =>
      rw [hs] at h hstage
      cases h
      have hzero : φ.held = 0 := hheld.trans (by simp [held, hs, hstage.2, Stage.attemptPermit])
      refine (keeps_pollPermit timers hstage.1.live).bind fun ψ r hψ => ?_
      rw [hψ]
      exact keeps_withOpPermit hzero hstage.2 hstage.1 r
  | attemptsQueue d attempt timers =>
      rw [hs] at h hstage
      cases h
      refine keeps_awaitDrive ((keeps_pollPermit timers hstage.1.live).bind fun ψ r hψ => ?_)
      rw [hψ]
      refine keeps_withPermit hstage.1 hstage.2 (hheld.trans ?_) r
      simp [held, hs, ownPermit, Stage.attemptPermit]
  | running d permit timers =>
      rw [hs] at h hstage
      cases h
      refine keeps_awaitDrive (keeps_pollSelect timers hstage.1 hstage.2 (hheld.trans ?_))
      simp [held, hs, ownPermit, Stage.attemptPermit]
  | backingOff d wake =>
      rw [hs] at h hstage
      cases h
      refine keeps_awaitDrive (keeps_sleeping wake hstage (hheld.trans ?_))
      simp [held, hs, ownPermit, Stage.attemptPermit]
  | returned r =>
      rw [hs] at h
      cases h
  | dropped =>
      rw [hs] at h
      cases h

theorem keeps_dropRest (hheld : φ.held = ownPermit call) (hopen : φ.gate ≠ .over) :
    (do
      if call.opPermit then ask .release
      note .unrecorded
      return { call with opPermit := false, stage := .dropped } : Code T E (Call T E)).Keeps
        (protocol plan) (At plan) φ := by
  have hlast : ∀ ψ : Phase, ψ.held = 0 → ψ.gate ≠ .over → (do
      note .unrecorded
      return { call with opPermit := false, stage := .dropped } : Code T E (Call T E)).Keeps
        (protocol plan) (At plan) ψ := by
    intro ψ hzero hψ
    exact keeps_note hψ ⟨hzero, by simp [Phase.noted], rfl⟩
  split
  next hown =>
      have hone : φ.held = 1 := hheld.trans (if_pos hown)
      refine keeps_ask.mpr ⟨?_, fun _ => hlast _ ?_ hopen⟩
      · show 0 < φ.held
        omega
      · show φ.held - 1 = 0
        omega
  next hown => exact hlast φ (hheld.trans (if_neg hown)) hopen

theorem keeps_dropCall {code : Code T E (Call T E)} (hat : At plan φ call)
    (h : dropCall call = some code) : code.Keeps (protocol plan) (At plan) φ := by
  have hheld := hat.held
  have hstage := hat.stage
  unfold dropCall at h
  unfold StageAt at hstage
  cases hs : call.stage with
  | created | operationsQueue timers =>
      rw [hs] at h hstage
      cases h
      refine keeps_dropRest (hheld.trans ?_) (by simp [hstage.1.gate])
      simp [held, hs, ownPermit, Stage.attemptPermit]
  | attemptsQueue d attempt timers =>
      rw [hs] at h hstage
      cases h
      refine keeps_dropRest (hheld.trans ?_) hstage.1.unvoted
      simp [held, hs, ownPermit, Stage.attemptPermit]
  | running d permit timers =>
      rw [hs] at h hstage
      cases h
      rw [held, hs] at hheld
      have hopen := hstage.1.unvoted
      cases permit with
      | true =>
          have hown : φ.held = ownPermit call + 1 := hheld
          refine keeps_ask.mpr ⟨?_, fun _ => keeps_dropRest ?_ hopen⟩
          · show 0 < φ.held
            omega
          · show φ.held - 1 = ownPermit call
            omega
      | false => exact keeps_dropRest hheld hopen
  | backingOff d wake =>
      rw [hs] at h hstage
      cases h
      refine keeps_dropRest (hheld.trans ?_) hstage.unvoted
      simp [held, hs, ownPermit, Stage.attemptPermit]
  | returned r | dropped =>
      rw [hs] at h
      cases h

end Programs

theorem at_created (plan : Plan T E) : At plan Phase.first System.created :=
  ⟨rfl, ⟨rfl, rfl, rfl, rfl⟩, rfl⟩

theorem follows (plan : Plan T E) : (machine plan).Follows (protocol plan) (At plan) .first where
  fresh := at_created plan
  program φ call move code hat hcode := by
    cases move with
    | poll => exact keeps_pollCall hat hcode
    | drop => exact keeps_dropCall hat hcode

/-- What allowed accesses preserve holds in every interleaving of calls. -/
theorem invariant_of_protocol {plan : Plan T E}
    {I : List Disturbance → Objects T E → List Phase → Prop}
    (hI : (machine plan).Preserves (protocol plan) .first I) {start : Nat}
    (h₀ : I [] (init plan start).objects []) {ls : List (Label T E)} {s : Threads T E}
    (hrun : StepSystem.run (step plan) (init plan start) ls = some s) :
    ∃ φs, Attended (protocol plan) (At plan) φs s.jobs ∧
      I (ls.filterMap Label.disturbance?) s.objects φs :=
  Machine.invariant_of_protocol (follows plan) hI paired_nil h₀ hrun

end Parallel

end ExecutionPolicy
