import ExecutionPolicy.Engine.Invocations

/-! # The total deadline

When attempts start, in runs where the clock moves only while calls are suspended
or inside an operation. Every exit of the loop checks the deadline before the next
attempt; a queued call, however, asks the semaphore before it asks its timers.
-/

namespace ExecutionPolicy

open StepSystem

variable {T E : Type}

/-- Every attempt starts within `t` of the call's start. -/
def Timely (start t : Nat) (log : List (Obs T E)) : Prop :=
  ∀ clock ∈ starts log, clock < start + t

def Stage.queue? : Stage T E → Option Scope
  | .operationsQueue _ => some .operations
  | .attemptsQueue _ _ _ => some .attempts
  | _ => none

def TurnedAway (plan : Plan T E) (k : Shared) : Prop :=
  ∃ b, plan.breaker = some b ∧ (k.breaker.gate b.config k.core.time).1 = .error ()

/-- A queued call that is polled while a permit is free is polled before its deadline,
unless it still has to pass the breaker and is turned away there. -/
def NoLateGrant (plan : Plan T E) (s : System T E) : System.Label T E → Prop
  | .poll i _ => ∀ call scope deadline, s.calls[i]? = some call → call.stage.queue? = some scope →
      call.totalDeadline = some deadline → 0 < s.shared.sem.permits →
      s.shared.core.time < deadline ∨ (scope = .operations ∧ TurnedAway plan s.shared)
  | _ => True

def System.Label.Still : System.Label T E → Prop
  | .poll _ script => script.ticks = []
  | _ => True

/-- A suspended call knows its deadline and all its attempts started before it. -/
def Prompt (t : Nat) (call : Call T E) (log : List (Obs T E)) : Prop :=
  match call.stage with
  | .created => starts log = []
  | .operationsQueue _ | .attemptsQueue _ _ _ | .running _ _ _ | .backingOff _ _ =>
      call.totalDeadline = some (call.start + t) ∧ Timely call.start t log
  | .returned _ | .dropped => Timely call.start t log

/-! ## Between two awaits -/

/-- What has to hold where the applicant may be granted a permit. -/
def Applicant.OnTime (plan : Plan T E) (deadline : Nat) (k : Shared) : Applicant E → Prop
  | .operation => k.core.time < deadline ∨ TurnedAway plan k
  | .attempt _ _ => k.core.time < deadline

/-- The clock at the places from which an attempt may still start in this stretch. -/
def Spot.OnTime (plan : Plan T E) (call : Call T E) (deadline : Nat) (k : Shared) :
    Spot T E → Prop
  | .suspended => ∀ timers (a : Applicant E), call.stage = a.queue timers →
      0 < k.sem.permits → a.OnTime plan deadline k
  | .waiting a _ => 0 < k.sem.permits → a.OnTime plan deadline k
  | .granted a => a.OnTime plan deadline k
  | .gating => Applicant.operation.OnTime plan deadline k
  | .entering | .asking _ | .admitted _ | .head _ | .starting _ _ _ => k.core.time < deadline
  | _ => True

def Spot.Prompt (t : Nat) (call : Call T E) (log : List (Obs T E)) : Spot T E → Prop
  | .suspended => ExecutionPolicy.Prompt t call log
  | .exiting _ | .leaving _ => Timely call.start t log
  | _ => call.totalDeadline = some (call.start + t) ∧ Timely call.start t log

section Hops

variable {plan : Plan T E} {id t : Nat} {c c' : Cursor T E} {log log' os : List (Obs T E)}

theorem Calm.timely {f g : Frame T E} (h : Calm f g) {start : Nat} {log : List (Obs T E)} :
    Timely start t (log ++ g.log) ↔ Timely start t (log ++ f.log) := by
  rw [Timely, Timely, h.starts]

theorem Spot.prompt_congr {call : Call T E} {spot : Spot T E} (h : starts log' = starts log) :
    spot.Prompt t call log' ↔ spot.Prompt t call log := by
  unfold Spot.Prompt ExecutionPolicy.Prompt Timely
  rw [h]

theorem Spot.onTime_congr {call : Call T E} {spot : Spot T E} {deadline : Nat} {k : Shared}
    {core : Core} (h : core.time = k.core.time) :
    spot.OnTime plan call deadline { k with core } ↔ spot.OnTime plan call deadline k := by
  unfold Spot.OnTime Applicant.OnTime TurnedAway
  rw [h]

theorem Hop.still (hop : Hop plan id c os c') (h : c.shared.core.ticks = []) :
    c'.shared.core.ticks = [] := by
  cases hop with
  | core hk => exact (hk.still h).1
  | cease | leave => split <;> exact h
  | _ => exact h

theorem Hop.keepsTime (hpos : 0 < t) (hop : Hop plan id c os c')
    (hstill : c.shared.core.ticks = []) (hprompt : c.spot.Prompt t c.call log)
    (h : c.spot.OnTime plan c.call (c.call.start + t) c.shared) :
    c'.spot.OnTime plan c'.call (c'.call.start + t) c'.shared := by
  cases hop with
  | core hk => exact (Spot.onTime_congr (hk.still hstill).2).mpr h
  | work spent hs =>
      intro timers a hqueue
      cases a <;> cases hs.symm.trans hqueue
  | begin hs => exact Nat.lt_add_of_pos_right hpos
  | enter hc => exact .inl h
  | @take call a k limit hc hfree =>
      cases a with
      | operation => exact .inl h
      | attempt d attempt => exact h
  | @join call a k limit maxQueued timeout timers hc hfree hp hroom =>
      cases a with
      | operation => exact fun _ => .inl h
      | attempt d attempt => exact fun _ => h
  | repoll hs => exact h _ _ hs
  | @pick call a k timers hfree =>
      have hgranted := h hfree
      cases a <;> exact hgranted
  | park hfree =>
      intro timers a _ hpermit
      exact absurd hfree (Nat.ne_of_gt hpermit)
  | noGate hb =>
      refine h.resolve_right ?_
      rintro ⟨b, hb', _⟩
      cases hb.symm.trans hb'
  | pass hb hg =>
      refine h.resolve_right ?_
      rintro ⟨b, hb', hreject⟩
      cases hb.symm.trans hb'
      rw [hg] at hreject
      cases hreject
  | start | pend | nap | leave =>
      intro timers a hqueue
      cases a <;> cases hqueue
  | again hd => cases hd.symm.trans hprompt.1
  | resume hd hlt =>
      cases hd.symm.trans hprompt.1
      exact hlt
  | grantOperation | grantAttempt | deposit | headFree | headAsk => exact h
  | _ => trivial

theorem Hop.prompt_still (ht : plan.totalTimeout = some t) (hop : Hop plan id c os c')
    (hos : starts os = []) (h : c.spot.Prompt t c.call log) : c'.spot.Prompt t c'.call log := by
  cases hop with
  | core | work => exact h
  | begin hs =>
      have hnone : starts log = [] := by simpa [Spot.Prompt, Prompt, hs] using h
      exact ⟨by rw [ht]; rfl, by simp [Timely, hnone]⟩
  | @repoll call a k timers hs =>
      cases a <;> simpa [Spot.Prompt, Prompt, hs, Applicant.queue] using h
  | @park call a k timers hfree => cases a <;> exact h
  | refuseOperation | refuseAttempt | turnAway | settle | elapsed | deny | bail | expire =>
      exact h.2
  | start => cases hos
  | pend timers hs => simpa [Spot.Prompt, Prompt, hs] using h
  | cease outcome hs => simpa [Spot.Prompt, Prompt, hs] using h
  | rouse hs => simpa [Spot.Prompt, Prompt, hs] using h
  | _ => exact h

theorem Hop.prompt (ht : plan.totalTimeout = some t) (hop : Hop plan id c os c')
    (htime : c.spot.OnTime plan c.call (c.call.start + t) c.shared)
    (h : c.spot.Prompt t c.call log) : c'.spot.Prompt t c'.call (log ++ os) := by
  have hrest : starts os = [] → c'.spot.Prompt t c'.call (log ++ os) := by
    intro hos
    have hsame : starts (log ++ os) = starts log := by rw [starts_append, hos, List.append_nil]
    exact (Spot.prompt_congr hsame).mpr (hop.prompt_still ht hos h)
  rcases hop.calm with ⟨call, d, attempt, permit, k, rfl, rfl, rfl⟩ |
    ⟨call, d, outcome, k, rfl, rfl, rfl⟩ | hcalm
  · refine ⟨h.1, fun clock hclock => ?_⟩
    rw [starts_append] at hclock
    rcases List.mem_append.mp hclock with hold | hnew
    · exact h.2 clock hold
    · cases List.mem_singleton.mp hnew
      exact htime
  · exact hrest rfl
  · exact hrest (starts_of_calm hcalm)

theorem prompt_pollCall {s : System T E} {i : Nat} {call : Call T E} {script : Script T E}
    {done : Call T E × Frame T E} (ht : plan.totalTimeout = some t) (hpos : 0 < t)
    (hi : s.calls[i]? = some call) (hstill : script.ticks = [])
    (hgrant : NoLateGrant plan s (.poll i script)) (h : Prompt t call (s.logOf i))
    (hpoll : pollCall plan i call script (s.frame script.ticks script.draws) = some done) :
    Prompt t done.1 (s.logOf i ++ done.2.log) := by
  -- the frame starts with an empty log, at the clock of the system
  have hlog : s.logOf i ++ (s.frame script.ticks script.draws).log = s.logOf i :=
    List.append_nil _
  have htime : Spot.suspended.OnTime plan call (call.start + t)
      (s.frame script.ticks script.draws).toShared := by
    intro timers a hqueue hfree
    have hdeadline : call.totalDeadline = some (call.start + t) := by
      unfold Prompt at h
      cases a <;> rw [hqueue] at h <;> exact h.1
    cases a with
    | operation =>
        exact (hgrant call .operations _ hi (by rw [hqueue]; rfl) hdeadline hfree).imp_right
          And.right
    | attempt d attempt =>
        refine (hgrant call .attempts _ hi (by rw [hqueue]; rfl) hdeadline hfree).resolve_right ?_
        rintro ⟨hne, _⟩
        cases hne
  have hwalk := (reaches_pollCall hpoll).keeps
    (Q := fun c log => c.shared.core.ticks = [] ∧
      c.spot.OnTime plan c.call (c.call.start + t) c.shared ∧ c.spot.Prompt t c.call log)
    (fun _ _ _ _ hop hc => ⟨hop.still hc.1, hop.keepsTime hpos hc.1 hc.2.2 hc.2.1,
      hop.prompt ht hc.2.1 hc.2.2⟩)
    (s.logOf i) ⟨hstill, htime, by rw [hlog]; exact h⟩
  exact hwalk.2.2

theorem prompt_dropCall {call : Call T E} {f : Frame T E} {done : Call T E × Frame T E}
    (hnew : f.log = []) (h : Prompt t call log) (hdrop : dropCall call f = some done) :
    Prompt t done.1 (log ++ done.2.log) := by
  obtain ⟨hdone, g, hg, hlog⟩ := dropCall_cases hdrop
  have htimely : Timely call.start t (log ++ f.log) := by
    rw [hnew, List.append_nil]
    unfold Prompt at h
    cases hstage : call.stage <;> simp only [hstage] at h
    · simp [Timely, h]
    all_goals first | exact h.2 | exact h
  rw [hdone, hlog]
  exact (hg.calm.trans (.note g rfl)).timely.mpr htimely

end Hops

/-- With a positive total timeout, any limit and any contention: when the clock stands
still inside the stretches and no queued call is granted a permit late, no attempt,
first or retry, starts at or after the deadline. -/
theorem starts_before_deadline (plan : Plan T E) (t : Nat) (ht : plan.totalTimeout = some t)
    (hpos : 0 < t) (start : Nat) (ls : List (System.Label T E)) (s : System T E)
    (hstill : ∀ l ∈ ls, l.Still)
    (hgrant : Obeys (System.step plan) (NoLateGrant plan) (System.init plan start) ls)
    (hrun : run (System.step plan) (System.init plan start) ls = some s)
    (i : Nat) (call : Call T E) (hi : s.calls[i]? = some call) (clock : Nat)
    (hclock : clock ∈ starts (s.logOf i)) : clock < call.start + t := by
  have heach : System.EachCall (Prompt t) s := by
    refine invariant (System.eachCall_step rfl ?_ ?_) (System.eachCall_init plan start _)
      ((obeys_of_mem hstill _).and hgrant) hrun
    · intro s i call script done hi hcond h hpoll
      exact prompt_pollCall ht hpos hi hcond.1 hcond.2 h hpoll
    · intro s i call done _ _ h hdrop
      exact prompt_dropCall rfl h hdrop
  have hcall := heach.2 i call hi
  unfold Prompt at hcall
  cases hstage : call.stage <;> simp only [hstage] at hcall
  · simp [hcall] at hclock
  all_goals first | exact hcall.2 clock hclock | exact hcall clock hclock

def oneAtATime : Plan Nat Nat where
  retry := Retry.none
  attemptTimeout := none
  totalTimeout := some 10
  breaker := none
  concurrency := some (.operations 1)
  onEvent := false
  maxAttempts_pos := Nat.one_pos
  timeouts_ordered := fun _ _ h => by cases h

def afterFirstPoll : System Nat Nat :=
  (run (System.step oneAtATime) (System.init oneAtATime 0) [.call, .poll 0 .pending]).get rfl

theorem starts_before_deadline_first :
    ∃ call, afterFirstPoll.calls[0]? = some call ∧ starts (afterFirstPoll.logOf 0) = [0] ∧
      0 < call.start + 10 := by
  refine ⟨_, rfl, rfl, ?_⟩
  refine starts_before_deadline oneAtATime 10 rfl (by decide) 0 [.call, .poll 0 .pending]
    afterFirstPoll ?_ ⟨trivial, fun s₁ hs₁ => ⟨?_, fun _ _ => trivial⟩⟩ rfl 0 _ rfl 0 ?_
  · intro l hl
    rcases List.mem_cons.mp hl with rfl | hl
    · trivial
    · rw [List.mem_singleton.mp hl]
      rfl
  · cases hs₁
    intro call scope deadline hcall hqueue
    cases hcall
    cases hqueue
  · exact List.mem_singleton.mpr rfl

/-- Call 1 is still queued when its deadline passes and the permit comes free. -/
def permitAtDeadline : List (System.Label Nat Nat) :=
  [.call, .poll 0 .pending, .call, .poll 1 .pending, .elapse 10, .poll 0 (.answer 0 (.ok 7)),
    .poll 1 .pending]

theorem late_permit_starts_attempt :
    ∃ s call, run (System.step oneAtATime) (System.init oneAtATime 0) permitAtDeadline = some s ∧
      (∀ l ∈ permitAtDeadline, l.Still) ∧ s.calls[1]? = some call ∧ call.start = 0 ∧
      10 ∈ starts (s.logOf 1) := by
  refine ⟨(run (System.step oneAtATime) (System.init oneAtATime 0) permitAtDeadline).get rfl,
    _, rfl, ?_, rfl, rfl, List.mem_singleton.mpr rfl⟩
  intro l hl
  simp only [permitAtDeadline, List.mem_cons, List.not_mem_nil, or_false] at hl
  rcases hl with rfl | rfl | rfl | rfl | rfl | rfl | rfl <;> trivial

end ExecutionPolicy
