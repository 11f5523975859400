import ExecutionPolicy.Engine.Boxed
import ExecutionPolicy.Engine.Deadline
import ExecutionPolicy.Engine.Overflow

/-! # After the deadline

A poll of a call whose deadline has passed ends it. Whatever the call waits for has a timer of
its own, armed so as to be over by the deadline. A permit that comes free at the last moment
starts an attempt even then, but the poll goes on with it: here a poll is taken whole, on
through the stretches that a started attempt parts it into.
-/

namespace ExecutionPolicy

open StepSystem

variable {T E : Type}

/-! ## Timers that are over by the deadline -/

/-- With this deadline, the timer is over as soon as both the deadline and `now` have come. -/
def DueBy (deadline : Option Nat) (now : Nat) (timer : Option Nat) : Prop :=
  ∀ d, deadline = some d → expired (max d now) timer = true

theorem DueBy.mono {deadline timer : Option Nat} {now later : Nat} (h : DueBy deadline now timer)
    (hle : now ≤ later) : DueBy deadline later timer := fun d hd =>
  expired_mono (max_le_max (Nat.le_refl d) hle) (h d hd)

theorem DueBy.expired {deadline timer : Option Nat} {now d : Nat} (h : DueBy deadline now timer)
    (hd : deadline = some d) (hlate : d ≤ now) : expired now timer = true := by
  have hover := h d hd
  rwa [Nat.max_eq_right hlate] at hover

def Core.StillAt (now : Nat) (k : Core) : Prop := k.ticks = [] ∧ k.time = now

theorem Core.StillAt.reads {now : Nat} {k k' : Core} (h : k.StillAt now) (hk : Reads k k') :
    k'.StillAt now :=
  ⟨(hk.still h.1).1, (hk.still h.1).2.trans h.2⟩

theorem Core.StillAt.tick {now : Nat} {k : Core} (h : k.StillAt now) : k.tick = k :=
  Core.tick_of_still h.1

theorem dueBy_armDeadline {now : Nat} {k : Core} (h : k.StillAt now) (deadline : Option Nat) :
    DueBy deadline now (armDeadline k deadline).1 := by
  rintro d rfl
  have hwake : (k.sleepUntil d).1 = now + (d - now) := by
    unfold Core.sleepUntil Core.sleep Instant.durationSince
    dsimp only
    rw [h.tick, h.tick, h.2]
  simp only [armDeadline, hwake, expired, Option.any_some, decide_eq_true_eq]
  omega

theorem expired_armDeadline {d : Nat} {k : Core} (hlate : d ≤ k.time) :
    expired (armDeadline k (some d)).2.time (armDeadline k (some d)).1 = true := by
  have hgone : d - k.tick.time = 0 := Nat.sub_eq_zero_of_le (hlate.trans k.time_le_tick)
  simp [armDeadline, Core.sleepUntil, Core.sleep, Instant.durationSince, hgone, expired]

/-- The stage's own timer is over by the deadline. -/
def Stage.Armed (deadline : Option Nat) (now : Nat) : Stage T E → Prop
  | .created => deadline = none
  | .operationsQueue timers | .attemptsQueue _ _ timers => DueBy deadline now timers.deadline
  | .running _ _ timers => ∀ t ∈ timers, DueBy deadline now t.total
  | .backingOff _ wake => DueBy deadline now (some wake)
  | .returned _ | .dropped => True

def Call.Armed (now : Nat) (call : Call T E) : Prop := call.stage.Armed call.totalDeadline now

theorem Call.Armed.mono {call : Call T E} {now later : Nat} (h : call.Armed now)
    (hle : now ≤ later) : call.Armed later := by
  unfold Call.Armed Stage.Armed at h ⊢
  split <;> simp_all only
  · exact h.mono hle
  · exact h.mono hle
  · exact fun t ht => (h t ht).mono hle
  · exact h.mono hle

/-! ## What each stretch reads -/

section Stretches

variable {plan : Plan T E} {id now : Nat} {call : Call T E} {f : Frame T E}

theorem reads_pollPermit (id : Nat) (timers : QueueTimers) (f : Frame T E) :
    Reads f.core (pollPermit id timers f).2.core := by
  unfold pollPermit
  split
  · exact .refl _
  · dsimp only
    split
    · exact .pollTimer _ _
    · exact (Reads.pollTimer _ _).trans (.pollTimer _ _)

theorem reads_acquirePermit (limit : ConcurrencyLimit) (deadline : Option Nat) (id : Nat)
    (f : Frame T E) : Reads f.core (acquirePermit limit deadline id f).2.core := by
  unfold acquirePermit
  split
  · exact .refl _
  · split
    · exact .refl _
    · split
      · exact .refl _
      · refine Reads.trans ?_ (reads_pollPermit _ _ _)
        exact (Reads.armSleep _ _).trans (.armDeadline _ _)

theorem reads_gateCall (plan : Plan T E) (start : Nat) (f : Frame T E) :
    Reads f.core (gateCall plan start f).2.core := by
  unfold gateCall
  split
  · exact .refl _
  · dsimp only
    split
    · split
      · rw [Frame.emit_toShared]
        exact .tick _
      · exact .tick _
    · exact (Reads.tick _).trans (.tick _)

theorem reads_matchOutcome (plan : Plan T E) (start : Nat) (d : Drive E) (noted : Nat)
    (outcome : AttemptOutcome T E) (f : Frame T E) :
    Reads f.core (matchOutcome plan start d noted outcome f).2.core := by
  by_cases hgo : GoesOn plan d.attemptNo outcome
  · rw [matchOutcome_of_goesOn hgo]
    exact .refl _
  · rw [matchOutcome_of_stop hgo]
    exact .refl _

theorem reads_maxElapsedGuard (plan : Plan T E) (start : Nat) (noted : Nat) (d : Drive E)
    (f : Frame T E) :
    Reads f.core (maxElapsedGuard plan start noted d f).2.core := by
  unfold maxElapsedGuard
  split
  · split
    · rw [Frame.emit_toShared]
      exact .refl _
    · exact .refl _
  · exact .refl _

theorem reads_budgetGuard (plan : Plan T E) (start : Nat) (noted : Nat) (d : Drive E)
    (f : Frame T E) :
    Reads f.core (budgetGuard plan start noted d f).2.core := by
  unfold budgetGuard
  split
  · split
    · exact .refl _
    · rw [Frame.emit_toShared]
      exact .refl _
  · exact .refl _

theorem reads_hintGuard (plan : Plan T E) (call : Call T E) (d : Drive E) (f : Frame T E) :
    Reads f.core (hintGuard plan call d f).2.core := by
  unfold hintGuard
  dsimp only
  split
  · exact .nextU64 _
  · have hread := (Reads.nextU64 f.core).trans (.tick _)
    split
    · split
      · refine hread.trans ?_
        simp only [Frame.read, Frame.emit_toShared]
        exact .tick _
      · exact hread
    · exact hread

theorem reads_capDelay (deadline : Option Nat) (raw : Nat) (f : Frame T E) :
    Reads f.core (capDelay deadline raw f).2.core := by
  unfold capDelay
  split
  · exact .tick _
  · exact .refl _

/-! ## Every stretch arms its timers -/

theorem pollPermit_queued {timers timers' : QueueTimers}
    (h : (pollPermit id timers f).1 = .queued timers') : timers' = timers := by
  unfold pollPermit at h
  split at h
  · cases h
  · dsimp only at h
    split at h
    · cases h
    · dsimp only at h
      split at h
      · cases h
      · cases h
        rfl

theorem acquirePermit_queued {limit : ConcurrencyLimit} {deadline : Option Nat}
    {timers : QueueTimers} (h : (acquirePermit limit deadline id f).1 = .queued timers) :
    ∃ k, Reads f.core k ∧ timers.deadline = (armDeadline k deadline).1 ∧
      ∃ g : Frame T E, g.core = (armDeadline k deadline).2 ∧
        (pollPermit id timers g).1 = .queued timers := by
  unfold acquirePermit at h
  split at h
  · cases h
  · split at h
    · cases h
    · split at h
      · cases h
      next queueTimeout _ _ =>
        dsimp only at h
        have htimers := pollPermit_queued h
        subst htimers
        exact ⟨_, .armSleep _ queueTimeout, rfl, _, rfl, h⟩

theorem armed_onAttemptPermit {d : Drive E} {attempt : Attempt}
    {answer : AcquireResult × Frame T E}
    (h : ∀ timers, answer.1 = .queued timers → DueBy call.totalDeadline now timers.deadline) :
    (onAttemptPermit plan call d attempt answer).1.Armed now := by
  obtain ⟨_ | _ | timers, g⟩ := answer
  · nofun
  · trivial
  · exact h timers rfl

theorem armed_loopHead {d : Drive E} (h : f.core.StillAt now) :
    (loopHead plan id call d f).1.Armed now := by
  unfold loopHead
  dsimp only
  split
  · split
    · refine armed_onAttemptPermit fun timers hqueued => ?_
      obtain ⟨k, hk, htimer, _⟩ := acquirePermit_queued hqueued
      rw [htimer]
      exact dueBy_armDeadline ((h.reads (.tick _)).reads hk) _
    · nofun
  · nofun

theorem armed_afterBackoff {d : Drive E} (h : f.core.StillAt now) :
    (afterBackoff plan id call d f).1.Armed now := by
  unfold afterBackoff
  split
  · dsimp only
    split
    · trivial
    · exact armed_loopHead (f := f.read.note _) (h.reads (.tick _))
  · exact armed_loopHead h

theorem armed_pollBackoff {d : Drive E} {wake : Nat} (h : f.core.StillAt now)
    (hdue : DueBy call.totalDeadline now (some wake)) :
    (pollBackoff plan id call d wake f).1.Armed now := by
  unfold pollBackoff
  dsimp only
  split
  · exact armed_afterBackoff (f := f.read) (h.reads (.tick _))
  · exact hdue

theorem capDelay_le (raw d : Nat) (h : f.core.StillAt now) :
    (capDelay (some d) raw f).1 ≤ d - now := by
  have htime : f.read.core.time = now := (h.reads (.tick _)).2
  simp only [capDelay, Instant.durationSince, htime]
  exact Nat.min_le_right _ _

theorem armed_backOff {d : Drive E} {raw : Nat} (h : f.core.StillAt now) :
    (backOff plan id call d raw f).1.Armed now := by
  have hcapped := h.reads (reads_capDelay call.totalDeadline raw f)
  unfold backOff
  dsimp only
  split
  · refine armed_afterBackoff ?_
    rwa [Frame.emit_toShared]
  · refine armed_pollBackoff ?_ ?_
    · rw [Frame.emit_toShared]
      exact hcapped.reads (.sleep _ (capDelay call.totalDeadline raw f).1)
    · intro deadline hd
      rw [Frame.emit_toShared, Core.sleep, hcapped.tick, hcapped.2]
      have hle := capDelay_le raw deadline h
      simp only [expired, hd, Option.any_some, decide_eq_true_eq]
      omega

theorem armed_afterNoted {d : Drive E} {outcome : AttemptOutcome T E} {noted : Nat}
    (h : f.core.StillAt now) : (afterNoted plan id call d outcome noted f).1.Armed now := by
  have h₁ := h.reads (reads_matchOutcome plan call.start d noted outcome f)
  unfold afterNoted
  rcases hm : matchOutcome plan call.start d noted outcome f with ⟨r | d₁, f₁⟩
  · trivial
  rw [hm] at h₁
  have h₂ := h₁.reads (reads_maxElapsedGuard plan call.start noted d₁ f₁)
  dsimp only
  rcases hm : maxElapsedGuard plan call.start noted d₁ f₁ with ⟨r | d₂, f₂⟩
  · trivial
  rw [hm] at h₂
  have h₃ := h₂.reads (reads_budgetGuard plan call.start noted d₂ f₂)
  dsimp only
  rcases hm : budgetGuard plan call.start noted d₂ f₂ with ⟨r | d₃, f₃⟩
  · trivial
  rw [hm] at h₃
  have h₄ := h₃.reads (reads_hintGuard plan call d₃ f₃)
  dsimp only
  rcases hm : hintGuard plan call d₃ f₃ with ⟨⟨r | d₄, raw⟩, f₄⟩
  · trivial
  rw [hm] at h₄
  exact armed_backOff h₄

theorem core_released (permit : Bool) (f : Frame T E) :
    (if permit then { f with sem := f.sem.release.2 } else f).core = f.core := by
  cases permit <;> rfl

theorem armed_afterAttempt {d : Drive E} {permit : Bool} {outcome : AttemptOutcome T E}
    (h : f.core.StillAt now) : (afterAttempt plan id call d permit outcome f).1.Armed now := by
  unfold afterAttempt
  refine armed_afterNoted ?_
  rw [← core_released permit f] at h
  exact h.reads (.tick _)

theorem armed_pollTimers {d : Drive E} {permit : Bool} {timers : AttemptTimers}
    (h : f.core.StillAt now) (hdue : DueBy call.totalDeadline now timers.total) :
    (pollTimers plan id call d permit timers f).1.Armed now := by
  unfold pollTimers
  dsimp only
  split
  · exact armed_afterAttempt (h.reads (.pollTimer _ timers.attempt))
  · split
    · exact armed_afterAttempt
        ((h.reads (.pollTimer _ timers.attempt)).reads (.pollTimer _ timers.total))
    · intro t ht
      cases ht
      exact hdue

theorem armed_pollAttempt {d : Drive E} {permit : Bool} {timers : Option AttemptTimers}
    {op : Option (Except E T)} (h : f.core.StillAt now)
    (hdue : ∀ t ∈ timers, DueBy call.totalDeadline now t.total) :
    (pollAttempt plan id call d permit timers op f).1.Armed now := by
  unfold pollAttempt
  split
  · exact armed_afterAttempt h
  · split
    · exact armed_pollTimers h (hdue _ rfl)
    · have hattempt := h.reads (.armSleep _ plan.attemptTimeout)
      exact armed_pollTimers (hattempt.reads (.armDeadline _ call.totalDeadline))
        (dueBy_armDeadline hattempt _)

theorem armed_gateAndDrive (h : f.core.StillAt now) :
    (gateAndDrive plan id call f).1.Armed now := by
  have hgated := h.reads (reads_gateCall plan call.start f)
  unfold gateAndDrive
  rcases hg : gateCall plan call.start f with ⟨e | state, g⟩
  · trivial
  · rw [hg] at hgated
    refine armed_loopHead ?_
    rw [depositBudget_eq]
    exact hgated

theorem armed_onOperationPermit {answer : AcquireResult × Frame T E}
    (h : answer.2.core.StillAt now)
    (hdue : ∀ timers, answer.1 = .queued timers → DueBy call.totalDeadline now timers.deadline) :
    (onOperationPermit plan id call answer).1.Armed now := by
  obtain ⟨_ | _ | timers, g⟩ := answer
  · exact armed_gateAndDrive h
  · trivial
  · exact hdue timers rfl

theorem armed_runPipeline (h : f.core.StillAt now) : (runPipeline plan id call f).1.Armed now := by
  have hread := h.reads (.tick _)
  unfold runPipeline
  dsimp only
  split
  · split
    · refine armed_onOperationPermit (hread.reads (reads_acquirePermit _ _ _ f.read)) ?_
      intro timers hqueued
      obtain ⟨k, hk, htimer, _⟩ := acquirePermit_queued hqueued
      rw [htimer]
      exact dueBy_armDeadline (hread.reads hk) _
    · exact armed_gateAndDrive (f := f.read) hread
  · exact armed_gateAndDrive (f := f.read) hread

theorem Reaches.time_le {p : Place T E} {done : Call T E × Frame T E}
    (h : Reaches plan id p done) : p.frame.core.time ≤ done.2.core.time :=
  h.keeps (Q := fun c _ => p.frame.core.time ≤ c.shared.core.time)
    (fun _ _ _ _ hop hle => hle.trans hop.time_le) [] (Nat.le_refl _)

theorem armed_worked {d : Drive E} {permit : Bool} {timers : Option AttemptTimers}
    {op : Option (Except E T)} (hs : call.stage = .running d permit timers)
    (hstill : f.core.ticks = [])
    (hdue : ∀ t ∈ timers, DueBy call.totalDeadline f.core.time t.total) :
    (pollAttempt plan id call d permit timers op f).1.Armed
      (pollAttempt plan id call d permit timers op f).2.core.time :=
  (armed_pollAttempt ⟨hstill, rfl⟩ hdue).mono (reaches_pollAttempt hs op f).time_le

/-- A poll in which the clock stands still leaves the call armed. -/
theorem armed_pollCall {script : Script T E} {done : Call T E × Frame T E}
    (hstill : f.core.ticks = []) (h : call.Armed f.core.time)
    (hpoll : pollCall plan id call script f = some done) : done.1.Armed done.2.core.time := by
  have hlater : f.core.time ≤ done.2.core.time := (reaches_pollCall hpoll).time_le
  have hcore : f.core.StillAt f.core.time := ⟨hstill, rfl⟩
  unfold pollCall at hpoll
  cases hstage : call.stage with
  | created =>
      simp only [hstage, Option.some.injEq] at hpoll
      subst hpoll
      exact (armed_runPipeline hcore).mono hlater
  | operationsQueue timers =>
      simp only [hstage, Option.some.injEq] at hpoll
      subst hpoll
      have hdue : DueBy call.totalDeadline f.core.time timers.deadline := by
        simpa [Call.Armed, Stage.Armed, hstage] using h
      refine (armed_onOperationPermit (hcore.reads (reads_pollPermit id timers f)) ?_).mono hlater
      intro timers' hqueued
      rwa [pollPermit_queued hqueued]
  | attemptsQueue d attempt timers =>
      simp only [hstage, Option.some.injEq] at hpoll
      subst hpoll
      have hdue : DueBy call.totalDeadline f.core.time timers.deadline := by
        simpa [Call.Armed, Stage.Armed, hstage] using h
      refine Call.Armed.mono (armed_onAttemptPermit fun timers' hqueued => ?_) hlater
      rwa [pollPermit_queued hqueued]
  | running d permit timers =>
      simp only [hstage, Option.some.injEq] at hpoll
      have hdue : ∀ t ∈ timers, DueBy call.totalDeadline f.core.time t.total := by
        simpa [Call.Armed, Stage.Armed, hstage] using h
      subst hpoll
      have hspent : f.core.time ≤ (f.core.elapse script.opElapsed).time := Nat.le_add_right _ _
      exact armed_worked hstage hstill fun t ht => (hdue t ht).mono hspent
  | backingOff d wake =>
      simp only [hstage, Option.some.injEq] at hpoll
      subst hpoll
      refine Call.Armed.mono (armed_pollBackoff hcore ?_) hlater
      simpa [Call.Armed, Stage.Armed, hstage] using h
  | returned r => simp [hstage] at hpoll
  | dropped => simp [hstage] at hpoll

/-! ## A late poll -/

theorem late_afterBackoff {d : Drive E} {deadline : Nat} (hd : call.totalDeadline = some deadline)
    (hlate : deadline ≤ f.core.time) : (afterBackoff plan id call d f).1.stage.isOver = true := by
  have hread : deadline ≤ f.read.core.time := hlate.trans f.core.time_le_tick
  unfold afterBackoff
  simp only [hd, Frame.note_toShared, hread, if_true]
  rfl

theorem late_backOff {d : Drive E} {raw deadline : Nat} (hd : call.totalDeadline = some deadline)
    (hlate : deadline ≤ f.core.time) : (backOff plan id call d raw f).1.stage.isOver = true := by
  have hread : deadline ≤ f.read.core.time := hlate.trans f.core.time_le_tick
  have hnone : deadline - f.read.core.time = 0 := Nat.sub_eq_zero_of_le hread
  have hcap : capDelay call.totalDeadline raw f = (0, f.read) := by
    simp only [hd, capDelay, Instant.durationSince, hnone, Nat.min_def]
    split <;> simp_all
  unfold backOff
  simp only [hcap, if_true]
  refine late_afterBackoff hd ?_
  rwa [Frame.emit_toShared]

theorem late_afterNoted {d : Drive E} {outcome : AttemptOutcome T E} {noted deadline : Nat}
    (hd : call.totalDeadline = some deadline) (hlate : deadline ≤ f.core.time) :
    (afterNoted plan id call d outcome noted f).1.stage.isOver = true := by
  have h₁ := hlate.trans (reads_matchOutcome plan call.start d noted outcome f).later
  unfold afterNoted
  rcases hm : matchOutcome plan call.start d noted outcome f with ⟨r | d₁, f₁⟩
  · rfl
  rw [hm] at h₁
  have h₂ := h₁.trans (reads_maxElapsedGuard plan call.start noted d₁ f₁).later
  dsimp only
  rcases hm : maxElapsedGuard plan call.start noted d₁ f₁ with ⟨r | d₂, f₂⟩
  · rfl
  rw [hm] at h₂
  have h₃ := h₂.trans (reads_budgetGuard plan call.start noted d₂ f₂).later
  dsimp only
  rcases hm : budgetGuard plan call.start noted d₂ f₂ with ⟨r | d₃, f₃⟩
  · rfl
  rw [hm] at h₃
  have h₄ := h₃.trans (reads_hintGuard plan call d₃ f₃).later
  dsimp only
  rcases hm : hintGuard plan call d₃ f₃ with ⟨⟨r | d₄, raw⟩, f₄⟩
  · rfl
  rw [hm] at h₄
  exact late_backOff hd h₄

theorem late_afterAttempt {d : Drive E} {permit : Bool} {outcome : AttemptOutcome T E}
    {deadline : Nat} (hd : call.totalDeadline = some deadline) (hlate : deadline ≤ f.core.time) :
    (afterAttempt plan id call d permit outcome f).1.stage.isOver = true := by
  unfold afterAttempt
  refine late_afterNoted hd ?_
  rw [← core_released permit f] at hlate
  exact hlate.trans (Core.time_le_tick _)

theorem late_pollTimers {d : Drive E} {permit : Bool} {timers : AttemptTimers} {deadline : Nat}
    (hd : call.totalDeadline = some deadline) (hlate : deadline ≤ f.core.time)
    (hover : expired f.core.time timers.total = true) :
    (pollTimers plan id call d permit timers f).1.stage.isOver = true := by
  have hattempt := f.core.time_le_pollTimer timers.attempt
  unfold pollTimers
  dsimp only
  split
  · exact late_afterAttempt hd (hlate.trans hattempt)
  · rw [if_pos (pollTimer_of_expired (expired_mono hattempt hover))]
    exact late_afterAttempt hd ((hlate.trans hattempt).trans (Core.time_le_pollTimer _ _))

/-- An attempt that is polled late ends the call, whatever its operation answers. -/
theorem late_pollAttempt {d : Drive E} {permit : Bool} {timers : Option AttemptTimers}
    {op : Option (Except E T)} {deadline : Nat} (hd : call.totalDeadline = some deadline)
    (hlate : deadline ≤ f.core.time)
    (hdue : ∀ t ∈ timers, DueBy call.totalDeadline f.core.time t.total) :
    (pollAttempt plan id call d permit timers op f).1.stage.isOver = true := by
  unfold pollAttempt
  split
  · exact late_afterAttempt hd hlate
  · split
    · exact late_pollTimers hd hlate ((hdue _ rfl).expired hd hlate)
    · have hattempt := hlate.trans (Reads.armSleep f.core plan.attemptTimeout).later
      refine late_pollTimers hd (hattempt.trans (Reads.armDeadline _ call.totalDeadline).later) ?_
      simp only [armTimers, hd]
      exact expired_armDeadline hattempt

theorem late_pollBackoff {d : Drive E} {wake deadline : Nat}
    (hd : call.totalDeadline = some deadline) (hlate : deadline ≤ f.core.time)
    (hover : expired f.core.time (some wake) = true) :
    (pollBackoff plan id call d wake f).1.stage.isOver = true := by
  have hread : f.core.time ≤ f.read.core.time := f.core.time_le_tick
  have hwake : wake ≤ f.core.time := by simpa [expired] using hover
  unfold pollBackoff
  dsimp only
  rw [if_pos (hwake.trans hread)]
  exact late_afterBackoff hd (hlate.trans hread)

/-- The call is over or has just started an attempt. -/
def Stage.Closing (stage : Stage T E) : Prop :=
  stage.isOver = true ∨ ∃ d permit, stage = .running d permit none

theorem pollPermit_not_queued (id : Nat) {timers : QueueTimers}
    (hover : expired f.core.time timers.deadline = true) (timers' : QueueTimers) :
    (pollPermit id timers f).1 ≠ .queued timers' := by
  intro hqueued
  have hready : (pollPermit id timers f).1 = .granted ∨ (pollPermit id timers f).1 = .rejected :=
    pollPermit_of_ready id (Bool.or_eq_true_iff.mpr (.inr hover))
  rw [hqueued] at hready
  rcases hready with hgranted | hrejected
  · cases hgranted
  · cases hrejected

theorem acquirePermit_not_queued (limit : ConcurrencyLimit) (id : Nat) {deadline : Nat}
    (hlate : deadline ≤ f.core.time) (timers : QueueTimers) :
    (acquirePermit limit (some deadline) id f).1 ≠ .queued timers := by
  intro hqueued
  obtain ⟨k, hk, htimer, g, hg, hpoll⟩ := acquirePermit_queued hqueued
  refine pollPermit_not_queued id ?_ timers hpoll
  rw [htimer, hg]
  exact expired_armDeadline (hlate.trans hk.later)

theorem closing_loopHead {d : Drive E} {deadline : Nat} (hd : call.totalDeadline = some deadline)
    (hlate : deadline ≤ f.core.time) : (loopHead plan id call d f).1.stage.Closing := by
  have hread : deadline ≤ f.read.core.time := hlate.trans f.core.time_le_tick
  unfold loopHead
  dsimp only
  split
  next limit hc =>
    split
    next hscope =>
      have hanswer := acquirePermit_not_queued limit id hread
      rw [← hd] at hanswer
      rcases hp : acquirePermit limit call.totalDeadline id f.read with ⟨_ | _ | timers, g⟩
      · exact .inr ⟨d, true, rfl⟩
      · exact .inl rfl
      · exact absurd (congrArg Prod.fst hp) (hanswer timers)
    next hscope => exact .inr ⟨d, false, rfl⟩
  next hc => exact .inr ⟨d, false, rfl⟩

theorem closing_gateAndDrive {deadline : Nat} (hd : call.totalDeadline = some deadline)
    (hlate : deadline ≤ f.core.time) : (gateAndDrive plan id call f).1.stage.Closing := by
  have hgated := hlate.trans (reads_gateCall plan call.start f).later
  unfold gateAndDrive
  rcases hg : gateCall plan call.start f with ⟨e | state, g⟩
  · exact .inl rfl
  · rw [hg] at hgated
    refine closing_loopHead hd ?_
    rw [depositBudget_eq]
    exact hgated

/-- A late poll ends the call, unless the call is queued and a permit has come free: then it
starts its attempt. -/
theorem late_pollCall {script : Script T E} {done : Call T E × Frame T E} {deadline : Nat}
    (hd : call.totalDeadline = some deadline) (hlate : deadline ≤ f.core.time)
    (h : call.Armed f.core.time) (hpoll : pollCall plan id call script f = some done) :
    done.1.stage.isOver = true ∨
      (call.stage.queue?.isSome = true ∧ 0 < f.sem.permits ∧
        ∃ d permit, done.1.stage = .running d permit none) := by
  unfold pollCall at hpoll
  cases hstage : call.stage with
  | created =>
      have hnone : call.totalDeadline = none := by
        simpa [Call.Armed, Stage.Armed, hstage] using h
      rw [hd] at hnone
      cases hnone
  | operationsQueue timers =>
      simp only [hstage, Option.some.injEq] at hpoll
      subst hpoll
      have hdue : DueBy call.totalDeadline f.core.time timers.deadline := by
        simpa [Call.Armed, Stage.Armed, hstage] using h
      have hanswer := pollPermit_not_queued id (f := f) (hdue.expired hd hlate)
      have hanswered := hlate.trans (reads_pollPermit id timers f).later
      rcases hp : pollPermit id timers f with ⟨_ | _ | timers', g⟩
      · rw [hp] at hanswered
        have hfree := pollPermit_granted (congrArg Prod.fst hp)
        have hclosing : (gateAndDrive plan id { call with opPermit := true } g).1.stage.Closing :=
          closing_gateAndDrive hd hanswered
        exact hclosing.imp_right fun hstarted => ⟨rfl, hfree, hstarted⟩
      · exact .inl rfl
      · exact absurd (congrArg Prod.fst hp) (hanswer timers')
  | attemptsQueue d attempt timers =>
      simp only [hstage, Option.some.injEq] at hpoll
      subst hpoll
      have hdue : DueBy call.totalDeadline f.core.time timers.deadline := by
        simpa [Call.Armed, Stage.Armed, hstage] using h
      have hanswer := pollPermit_not_queued id (f := f) (hdue.expired hd hlate)
      rcases hp : pollPermit id timers f with ⟨_ | _ | timers', g⟩
      · exact .inr ⟨rfl, pollPermit_granted (congrArg Prod.fst hp), d, true, rfl⟩
      · exact .inl rfl
      · exact absurd (congrArg Prod.fst hp) (hanswer timers')
  | running d permit timers =>
      simp only [hstage, Option.some.injEq] at hpoll
      have hdue : ∀ t ∈ timers, DueBy call.totalDeadline f.core.time t.total := by
        simpa [Call.Armed, Stage.Armed, hstage] using h
      have hspent : f.core.time ≤ (f.core.elapse script.opElapsed).time := Nat.le_add_right _ _
      subst hpoll
      exact .inl (late_pollAttempt hd (hlate.trans hspent) fun t ht => (hdue t ht).mono hspent)
  | backingOff d wake =>
      simp only [hstage, Option.some.injEq] at hpoll
      subst hpoll
      have hdue : DueBy call.totalDeadline f.core.time (some wake) := by
        simpa [Call.Armed, Stage.Armed, hstage] using h
      exact .inl (late_pollBackoff hd hlate (hdue.expired hd hlate))
  | returned r => simp [hstage] at hpoll
  | dropped => simp [hstage] at hpoll

end Stretches

/-! ## Whole polls -/

def Call.late (now : Nat) (call : Call T E) : Bool :=
  call.totalDeadline.any fun d => decide (d ≤ now)

theorem Call.late_iff {call : Call T E} {now : Nat} :
    call.late now = true ↔ ∃ d, call.totalDeadline = some d ∧ d ≤ now := by
  simp [Call.late, Option.any_eq_true]

/-- The operation is called and its future not polled yet, which is no await point. -/
def Stage.midPoll : Stage T E → Bool
  | .running _ _ none => true
  | _ => false

namespace System

variable {plan : Plan T E} {s s' : System T E}

def EachArmed (s : System T E) : Prop :=
  ∀ (i : Nat) (call : Call T E), s.calls[i]? = some call → call.Armed s.shared.core.time

theorem time_step {l : Label T E} (h : step plan s l = some s') :
    s.shared.core.time ≤ s'.shared.core.time := by
  cases l with
  | elapse d =>
      cases h
      exact Nat.le_add_right _ _
  | call =>
      cases h
      exact Nat.le_refl _
  | poll i script =>
      obtain ⟨call, done, _, hpoll, rfl⟩ := step_poll h
      exact (reaches_pollCall hpoll).time_le
  | drop i =>
      obtain ⟨call, done, _, hdrop, rfl⟩ := step_drop h
      obtain ⟨_, g, hg, hlog⟩ := dropCall_cases hdrop
      simp only [settle, hlog]
      exact hg.reads.later
  | depositElsewhere =>
      obtain ⟨tokens, rfl⟩ := step_elsewhere (.inl rfl) h
      exact Nat.le_refl _
  | withdrawElsewhere =>
      obtain ⟨tokens, rfl⟩ := step_elsewhere (.inr rfl) h
      exact Nat.le_refl _

theorem eachArmed_step (s : System T E) (l : Label T E) (s' : System T E) (h : s.EachArmed)
    (hl : l.Still) (hs : step plan s l = some s') : s'.EachArmed := by
  have hlater := time_step hs
  have hold : ∀ (i : Nat) (call : Call T E), s.calls[i]? = some call →
      call.Armed s'.shared.core.time :=
    fun i call hi => (h i call hi).mono hlater
  cases l with
  | elapse d =>
      cases hs
      exact hold
  | call =>
      cases hs
      intro i call hi
      obtain ⟨_, rfl⟩ | hi := TaskPool.getElem?_snoc_cases hi
      · rfl
      · exact hold i call hi
  | poll j script =>
      obtain ⟨call, done, hj, hpoll, rfl⟩ := step_poll hs
      intro i call' hi
      obtain ⟨rfl, rfl⟩ | ⟨_, hi⟩ := TaskPool.getElem?_set_cases hi
      · have hstill : (s.frame script.ticks script.draws).core.ticks = [] := hl
        exact armed_pollCall hstill (h j call hj) hpoll
      · exact hold i call' hi
  | drop j =>
      obtain ⟨call, done, hj, hdrop, rfl⟩ := step_drop hs
      intro i call' hi
      obtain ⟨rfl, rfl⟩ | ⟨_, hi⟩ := TaskPool.getElem?_set_cases hi
      · rw [(dropCall_cases hdrop).1]
        trivial
      · exact hold i call' hi
  | depositElsewhere =>
      obtain ⟨tokens, rfl⟩ := step_elsewhere (.inl rfl) hs
      exact hold
  | withdrawElsewhere =>
      obtain ⟨tokens, rfl⟩ := step_elsewhere (.inr rfl) hs
      exact hold

/-- What happens to the calls when they are polled one at a time. -/
inductive Occurrence (T E : Type) where
  /-- One poll of call `i`, with a script for each of its stretches. -/
  | poll (i : Nat) (scripts : List (Script T E))
  | besides (l : Label T E)

def midPoll (i : Nat) (s : System T E) : Bool :=
  s.calls[i]?.any fun call => call.stage.midPoll

/-- A poll goes on until its call is at an await point or over. -/
def occur (step : System T E → Label T E → Option (System T E)) (s : System T E) :
    Occurrence T E → Option (System T E)
  | .poll i scripts => burst step (midPoll i) s (scripts.map (.poll i))
  | .besides (.poll _ _) => none
  | .besides l => step s l

/-- The clock does not move in a poll, but for the operation's own part of it. -/
def Occurrence.Still : Occurrence T E → Prop
  | .poll _ scripts => ∀ script ∈ scripts, script.ticks = []
  | .besides _ => True

theorem run_of_occur {o : Occurrence T E} (h : occur (step plan) s o = some s') :
    ∃ ls, run (step plan) s ls = some s' ∧ (o.Still → ∀ l ∈ ls, l.Still) := by
  cases o with
  | poll i scripts =>
      refine ⟨_, run_of_burst h, fun hstill l hl => ?_⟩
      obtain ⟨script, hscript, rfl⟩ := List.mem_map.mp hl
      exact hstill script hscript
  | besides l =>
      have hone : step plan s l = some s' ∧ l.Still := by
        cases l with
        | poll j script => cases h
        | _ => exact ⟨h, trivial⟩
      exact ⟨[l], run_one hone.1, fun _ k hk => List.mem_singleton.mp hk ▸ hone.2⟩

theorem eachArmed_occur (s : System T E) (o : Occurrence T E) (s' : System T E)
    (h : s.EachArmed) (ho : o.Still) (hs : occur (step plan) s o = some s') : s'.EachArmed := by
  obtain ⟨ls, hrun, hstill⟩ := run_of_occur hs
  exact invariant eachArmed_step h (obeys_of_mem (hstill ho) s) hrun

def late (i : Nat) (s : System T E) : Occurrence T E → Bool
  | .poll j _ => decide (j = i) && s.calls[i]?.any fun call => call.late s.shared.core.time
  | _ => false

def isOver (i : Nat) (s : System T E) : Bool :=
  s.calls[i]?.any fun call => call.stage.isOver

theorem isOver_settle {i : Nat} {call : Call T E} (hi : s.calls[i]? = some call)
    (done : Call T E × Frame T E) : (s.settle i done).isOver i = done.1.stage.isOver := by
  have hset : (s.settle i done).calls[i]? = some done.1 :=
    List.getElem?_set_self (List.getElem?_eq_some_iff.mp hi).1
  simp [isOver, hset]

theorem over_of_burst {i : Nat} {s₁ : System T E} {ls : List (Label T E)}
    (hover : s₁.isOver i = true)
    (hrest : s₁.midPoll i = true ∧ burst (step plan) (midPoll i) s₁ ls = some s' ∨
      s₁.midPoll i = false ∧ ls = [] ∧ s₁ = s') : s'.isOver i = true := by
  rcases hrest with ⟨hmid, _⟩ | ⟨_, _, rfl⟩
  · cases hi : s₁.calls[i]? with
    | none => simp [isOver, hi] at hover
    | some call =>
        simp only [midPoll, isOver, hi, Option.any_some] at hmid hover
        cases hstage : call.stage <;> simp_all [Stage.isOver, Stage.midPoll]
  · exact hover

theorem over_of_midPoll {i : Nat} {call : Call T E} {script : Script T E} {deadline : Nat}
    (hi : s.calls[i]? = some call) (hmid : call.stage.midPoll = true)
    (hd : call.totalDeadline = some deadline) (hle : deadline ≤ s.shared.core.time)
    (hs : step plan s (.poll i script) = some s') : s'.isOver i = true := by
  obtain ⟨call', done, hi', hpoll, rfl⟩ := step_poll hs
  cases hi.symm.trans hi'
  obtain ⟨start, totalDeadline, op, stage⟩ := call
  cases stage with
  | running d permit timers =>
      cases timers with
      | some armed => cases hmid
      | none =>
          rw [isOver_settle hi]
          refine (late_pollCall (f := s.frame script.ticks script.draws) hd hle ?_
            hpoll).resolve_right fun hqueue => Bool.false_ne_true hqueue.1
          exact nofun
  | _ => cases hmid

/-- A late poll of a call ends it: a permit that it finds starts an attempt, which the same
poll then ends. -/
theorem late_ends {i : Nat} {scripts : List (Script T E)} (h : s.EachArmed)
    (hs : occur (step plan) s (.poll i scripts) = some s')
    (hlate : s.late i (.poll i scripts) = true) : s'.isOver i = true := by
  cases scripts with
  | nil => cases hs
  | cons script scripts =>
      obtain ⟨s₁, hs₁, hrest⟩ := burst_cons_some hs
      obtain ⟨call, done, hi, hpoll, rfl⟩ := step_poll hs₁
      have hpast : call.late s.shared.core.time = true := by simpa [late, hi] using hlate
      obtain ⟨deadline, hd, hle⟩ := Call.late_iff.mp hpast
      rcases late_pollCall (f := s.frame script.ticks script.draws) hd hle (h i call hi) hpoll with
        hover | ⟨hqueue, _, d, permit, hrunning⟩
      · exact over_of_burst ((isOver_settle hi done).trans hover) hrest
      · have hset : (s.settle i done).calls[i]? = some done.1 :=
          TaskPool.getElem?_set_self_of_some hi done.1
        have hmid : done.1.stage.midPoll = true := by simp [hrunning, Stage.midPoll]
        have hbegun : call.stage ≠ .created := by
          intro hstage
          simp [hstage, Stage.queue?] at hqueue
        have hkept : done.1.totalDeadline = some deadline :=
          ((pollCall_deadline hpoll).2.2 hbegun).trans hd
        rcases hrest with ⟨_, hrest⟩ | ⟨hnot, _⟩
        · cases scripts with
          | nil => cases hrest
          | cons script' scripts =>
              obtain ⟨s₂, hs₂, hlast⟩ := burst_cons_some hrest
              have hlater := hle.trans (reaches_pollCall hpoll).time_le
              exact over_of_burst (over_of_midPoll hset hmid hkept hlater hs₂) hlast
        · simp [midPoll, hset, hmid] at hnot

theorem isOver_step {i : Nat} {l : Label T E} (hs : step plan s l = some s')
    (h : s.isOver i = true) : s'.isOver i = true := by
  cases hi : s.calls[i]? with
  | none => simp [isOver, hi] at h
  | some call =>
      have hover : call.stage.isOver = true := by simpa [isOver, hi] using h
      have hunnamed : l.names ≠ some i := by
        intro hl
        cases l with
        | poll j script =>
            cases hl
            obtain ⟨call', done, hi', hpoll, rfl⟩ := step_poll hs
            cases hi.symm.trans hi'
            exact absurd hover (Bool.eq_false_iff.mp (isOver_of_pollCall hpoll))
        | drop j =>
            cases hl
            obtain ⟨call', done, hi', hdrop, rfl⟩ := step_drop hs
            cases hi.symm.trans hi'
            exact absurd hover (Bool.eq_false_iff.mp (isOver_of_dropCall hdrop))
        | _ => cases hl
      simpa [isOver, (step_unnamed hs hunnamed hi).1] using hover

theorem not_isOver_of_late {i : Nat} {o : Occurrence T E} (hs : occur (step plan) s o = some s')
    (hlate : s.late i o = true) : s.isOver i = false := by
  cases o with
  | besides l => cases hlate
  | poll j scripts =>
      simp only [late, Bool.and_eq_true, decide_eq_true_eq] at hlate
      obtain ⟨rfl, _⟩ := hlate
      cases scripts with
      | nil => cases hs
      | cons script scripts =>
          obtain ⟨s₁, hs₁, _⟩ := burst_cons_some hs
          obtain ⟨call, done, hi, hpoll, rfl⟩ := step_poll hs₁
          simpa [isOver, hi] using isOver_of_pollCall hpoll

def latePollsLeft (s : System T E) (i : Nat) : Nat := if s.isOver i then 0 else 1

theorem latePollsLeft_le (s : System T E) (i : Nat) : s.latePollsLeft i ≤ 1 := by
  unfold latePollsLeft
  split <;> decide

theorem latePollsLeft_occur {s s' : System T E} {o : Occurrence T E} (h : s.EachArmed)
    (hs : occur (step plan) s o = some s') :
    (if s.late i o then 1 else 0) + s'.latePollsLeft i ≤ s.latePollsLeft i := by
  by_cases hlate : s.late i o = true
  · have hopen := not_isOver_of_late hs hlate
    have hover : s'.isOver i = true := by
      cases o with
      | besides l => cases hlate
      | poll j scripts =>
          have hj : j = i := by simp_all [late]
          subst hj
          exact late_ends h hs hlate
    simp [latePollsLeft, hlate, hopen, hover]
  · by_cases hover : s.isOver i = true
    · obtain ⟨ls, hrun, _⟩ := run_of_occur hs
      have hover' : s'.isOver i = true :=
        invariant_of_step (I := fun s => s.isOver i = true)
          (fun _ _ _ hx hstep => isOver_step hstep hx) hover hrun
      simp [latePollsLeft, hlate, hover, hover']
    · have hone : s.latePollsLeft i = 1 := by simp [latePollsLeft, hover]
      rw [if_neg hlate, hone, Nat.zero_add]
      exact s'.latePollsLeft_le i

end System

/-- When the clock moves only between polls and in the operation's own part of them, a poll
that a call gets at or after its deadline ends it; so there is one at most. -/
theorem late_polls_bounded (boxed : Nat → Bool) (plan : Plan T E) (start : Nat)
    (os : List (System.Occurrence T E)) (hstill : ∀ o ∈ os, o.Still) (i : Nat) :
    tally (System.occur (System.stepVia boxed plan)) (fun s o _ => s.late i o)
        (System.init plan start) os ≤ 1 ∧
      ∀ s, run (System.occur (System.stepVia boxed plan)) (System.init plan start) os = some s →
        ∀ scripts s', System.occur (System.stepVia boxed plan) s (.poll i scripts) = some s' →
          s.late i (.poll i scripts) = true →
          ∃ call, s'.calls[i]? = some call ∧ call.stage.isOver = true := by
  rw [System.stepVia_eq]
  have harmed : (System.init plan start : System T E).EachArmed := by
    intro j call hj
    simp [System.init] at hj
  have hobeys : Obeys (System.occur (System.step plan)) (fun _ o => o.Still)
      (System.init plan start) os := obeys_of_mem hstill _
  constructor
  · have hlower : ∀ s o s', s.EachArmed → o.Still →
        System.occur (System.step plan) s o = some s' →
        (if s.late i o then 1 else 0) + s'.latePollsLeft i ≤ s.latePollsLeft i :=
      fun _ _ _ h _ hs => System.latePollsLeft_occur h hs
    exact (tally_le_of_obeys System.eachArmed_occur hlower harmed hobeys).trans
      (System.latePollsLeft_le _ i)
  · intro s hrun scripts s' hs hlate
    have hall : s.EachArmed := invariant System.eachArmed_occur harmed hobeys hrun
    have hover := System.late_ends hall hs hlate
    simpa [System.isOver, Option.any_eq_true] using hover

/-- The permit comes free at the deadline of call 1, whose next poll starts its attempt and
ends it. -/
def endedLate : List (System.Occurrence Nat Nat) :=
  [.besides .call, .poll 0 [.pending, .pending], .besides .call, .poll 1 [.pending],
    .besides (.elapse 10), .poll 0 [.answer 0 (.ok 7)], .poll 1 [.pending, .pending]]

theorem late_polls_bounded_endedLate :
    tally (System.occur (System.step oneAtATime)) (fun s o _ => s.late 1 o)
        (System.init oneAtATime 0) endedLate = 1 ∧
      tally (System.occur (System.stepVia (fun _ => true) oneAtATime)) (fun s o _ => s.late 1 o)
        (System.init oneAtATime 0) endedLate ≤ 1 := by
  refine ⟨rfl, (late_polls_bounded (fun _ => true) oneAtATime 0 endedLate ?_ 1).1⟩
  intro o ho
  simp only [endedLate, List.mem_cons, List.not_mem_nil, or_false] at ho
  rcases ho with rfl | rfl | rfl | rfl | rfl | rfl | rfl
  all_goals simp [System.Occurrence.Still, Script.pending, Script.answer]

end ExecutionPolicy
