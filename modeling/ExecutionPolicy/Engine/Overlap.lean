import ExecutionPolicy.Engine.Protocol
import ExecutionPolicy.Engine.Recovery

/-! # What holds when calls overlap

The protocol read for each object in turn, whichever accesses of whichever calls come next:
a permit is either free or held by one call, and what the calls do to their breaker is a run
of the circuit.
-/

namespace ExecutionPolicy

open StepSystem Interleaving

variable {T E : Type}

namespace Parallel

/-! ## Permits -/

/-- A call in the middle of its code or at an await point. -/
abbrev CallJob (T E : Type) := Job (Access T E) Access.Answer (Call T E)

def heldAtRest : CallJob T E → Nat
  | .idle call => held call
  | .busy _ _ => 0

def Access.isStart : Access T E → Bool
  | .start _ => true
  | _ => false

def Access.isOperate : Access T E → Bool
  | .operate => true
  | _ => false

def atOperation (call : Call T E) : Bool :=
  match call.stage with
  | .running _ _ _ => true
  | _ => false

/-- An attempt's operation is running: it is about to be invoked or polled, or the call may
still come to rest beside it without invoking it anew. -/
def Operating : CallJob T E → Prop
  | .idle call => atOperation call = true
  | .busy a next =>
      a.isStart = true ∨ a.isOperate = true ∨
        (Program.access a next).MayEnd (fun a => a.isStart = true)
          fun call => atOperation call = true

open Classical in
noncomputable def operating (jobs : List (CallJob T E)) : Nat :=
  TaskPool.count (fun job => decide (Operating job)) jobs

section Permits

variable {plan : Plan T E} {limit : ConcurrencyLimit} {φ : Phase}

theorem permits_perform {a : Access T E} (i : Nat) (choice : Choice T E) (k : Objects T E)
    (h : φ.Allows plan a) :
    (perform i choice a k).2.sem.permits + (φ.next a (perform i choice a k).1).held =
      k.sem.permits + φ.held := by
  cases a with
  | tryAcquire =>
      simp only [perform]
      split
      next sem hs =>
          obtain ⟨hpos, rfl⟩ := SemState.tryAcquire_eq_some hs
          simp only [Phase.next, Phase.took, if_true]
          omega
      next => rfl
  | pollAcquire =>
      rcases Nat.eq_zero_or_pos k.sem.permits with hzero | hpos
      · simp [perform, SemState.pollAcquire_of_zero hzero, Phase.next, Phase.took]
      · simp only [perform, SemState.pollAcquire_of_pos hpos, Phase.next, Phase.took, if_true]
        omega
  | release =>
      have hpos : 0 < φ.held := h
      simp only [perform, SemState.release_permits, Phase.next]
      omega
  | gate cfg now =>
      show k.sem.permits + (φ.next (.gate cfg now) (k.breaker.gate cfg now).1).held = _
      cases (k.breaker.gate cfg now).1 <;> rfl
  | tryWithdraw =>
      simp only [perform]
      split <;> rfl
  | note o => cases o <;> rfl
  | _ => rfl

def AddUp (n : Nat) (_ : List Disturbance) (k : Objects T E) (φs : List Phase) : Prop :=
  k.sem.permits + TaskPool.total Phase.held φs = n

theorem preserves_addUp (n : Nat) :
    (machine plan).Preserves (protocol plan) .first (AddUp n) where
  arrive ds k φs h := by
    rw [AddUp, TaskPool.total_snoc]
    exact h
  access ds k φs i φ choice a h hi ha := by
    have hmoved := permits_perform i choice k ha
    have htotal := TaskPool.total_set Phase.held hi (φ.next a (perform i choice a k).1)
    simp only [AddUp, machine, protocol] at h ⊢
    omega
  disturb ds k φs d k' h hd := by
    cases d with
    | elapse d =>
        cases hd
        exact h
    | depositElsewhere =>
        obtain ⟨b, _, rfl⟩ := Option.map_eq_some_iff.mp hd
        exact h
    | withdrawElsewhere =>
        obtain ⟨b, tokens, _, _, rfl⟩ := disturb_withdraw hd
        exact h

theorem heldAtRest_le {job : CallJob T E} (h : job.Keeps (protocol plan) (At plan) φ) :
    heldAtRest job ≤ φ.held := by
  cases job with
  | idle call => exact le_of_eq h.held.symm
  | busy a next => exact Nat.zero_le _

theorem held_of_isOver {call : Call T E} (h : At plan φ call) (hover : call.stage.isOver = true) :
    φ.held = 0 := by
  have hstage := h.stage
  unfold StageAt at hstage
  rw [h.held]
  cases hs : call.stage with
  | returned r | dropped =>
      rw [hs] at hstage
      simp [held, hs, hstage.2, Stage.attemptPermit]
  | _ => simp [hs, Stage.isOver] at hover

/-- The call has a live attempt, under a permit when there is a limit. -/
def Attempting (plan : Plan T E) (φ : Phase) : Prop := φ.live = true ∧ φ.Permitted plan

theorem At.attempting {call : Call T E} (h : At plan φ call) (hop : atOperation call = true) :
    Attempting plan φ := by
  obtain ⟨start, deadline, op, stage⟩ := call
  cases stage with
  | running d permit timers =>
      exact ⟨h.stage.1.live, permitted_of h.stage.1.own h.stage.2 h.held⟩
  | _ => cases hop

/-- Only a new start makes an attempt live, and no permit is taken while one is. -/
theorem Attempting.back {a : Access T E} {r : a.Answer} (ha : φ.Allows plan a)
    (hstart : ¬ a.isStart = true) (h : Attempting plan (φ.next a r)) : Attempting plan φ := by
  cases a with
  | start attempt => exact absurd rfl hstart
  | tryAcquire | pollAcquire =>
      have hlive : φ.live = true := h.1
      exact absurd hlive (by simp [show φ.live = false from ha])
  | release =>
      refine ⟨h.1, fun hlimited => ?_⟩
      exact (h.2 hlimited).trans_le (Nat.sub_le _ _)
  | gate cfg now => cases r <;> exact h
  | note o =>
      cases o with
      | ended => exact absurd h.1 Bool.false_ne_true
      | _ => exact h
  | _ => exact h

/-- No operation of a limited call runs without a permit. -/
theorem held_of_operating {job : CallJob T E} (hc : plan.concurrency = some limit)
    (h : job.Keeps (protocol plan) (At plan) φ) (hop : Operating job) : 0 < φ.held := by
  have hlimited : plan.concurrency.isSome = true := by simp [hc]
  cases job with
  | idle call => exact (At.attempting h hop).2 hlimited
  | busy a next =>
      rcases hop with hstart | hoperate | hend
      · cases a with
        | start attempt => exact h.1.2.2.2.2 hlimited
        | _ => cases hstart
      · cases a with
        | operate => exact h.1 hlimited
        | _ => cases hoperate
      · have hkeeps : (Program.access a next).Keeps (protocol plan) (At plan) φ := h
        have hback : Attempting plan φ :=
          hkeeps.of_mayEnd (fun ψ call hcall => hcall.attempting)
            (fun ψ a r ha => Attempting.back ha) hend
        exact hback.2 hlimited

end Permits

/-! ## The breaker -/

/-- Where a call in this phase stands with the breaker. -/
def GatePhase.Stands (st : Standing) : GatePhase → Prop
  | .before => st = .waiting
  | .admitted as => ∃ e, st = .admitted as e
  | .over => st.isAdmitted = false

/-- The circuit has followed what the calls did so far. -/
def Followed (cfg : BreakerConfig) (start : Nat) (_ : List Disturbance) (k : Objects T E)
    (φs : List Phase) : Prop :=
  ∃ c, run (Circuit.step cfg) (Circuit.init cfg start) (breakerLabels k.trace) = some c ∧
    c.breaker = k.breaker ∧ Paired (fun φ st => φ.gate.Stands st) φs c.calls

section Breaker

variable {cfg : BreakerConfig} {start : Nat} {ds : List Disturbance} {k k' : Objects T E}
  {φs : List Phase} {i : Nat} {φ φ' : Phase}

@[simp] theorem breakerLabels_snoc (trace : List (Nat × Obs T E)) (i : Nat) (o : Obs T E) :
    breakerLabels (trace ++ [(i, o)]) = breakerLabels trace ++ (o.toBreaker i).toList := by
  cases h : o.toBreaker i <;> simp [breakerLabels, List.filterMap_append, h]

theorem Followed.still (h : Followed cfg start ds k φs) (hi : φs[i]? = some φ)
    (hlabels : breakerLabels k'.trace = breakerLabels k.trace) (hbreaker : k'.breaker = k.breaker)
    (hgate : φ'.gate = φ.gate) : Followed cfg start ds k' (φs.set i φ') := by
  obtain ⟨c, hrun, hc, hpaired⟩ := h
  obtain ⟨st, hst, hstands⟩ := hpaired.right hi
  have hset := hpaired.set (a := φ') (b := st) i (by rw [hgate]; exact hstands)
  obtain ⟨hlt, rfl⟩ := List.getElem?_eq_some_iff.mp hst
  rw [List.set_getElem_self] at hset
  exact ⟨c, by rw [hlabels]; exact hrun, hc.trans hbreaker.symm, hset⟩

theorem Followed.move (h : Followed cfg start ds k φs) (hi : φs[i]? = some φ)
    {l : Circuit.Label} (hlabels : breakerLabels k'.trace = breakerLabels k.trace ++ [l])
    (hstep : ∀ (c : Circuit) (st : Standing), c.breaker = k.breaker → c.calls[i]? = some st →
      φ.gate.Stands st → ∃ c' st', c.step cfg l = some c' ∧ c'.breaker = k'.breaker ∧
        c'.calls = c.calls.set i st' ∧ φ'.gate.Stands st') :
    Followed cfg start ds k' (φs.set i φ') := by
  obtain ⟨c, hrun, hc, hpaired⟩ := h
  obtain ⟨st, hst, hstands⟩ := hpaired.right hi
  obtain ⟨c', st', hc', hbreaker, hcalls, hstands'⟩ := hstep c st hc hst hstands
  refine ⟨c', by rw [hlabels]; exact run_snoc hrun hc', hbreaker, ?_⟩
  rw [hcalls]
  exact hpaired.set i hstands'

theorem step_gated (cfg : BreakerConfig) (φ : Phase) {c : Circuit}
    (hi : c.calls[i]? = some .waiting) (now : Nat) :
    ∃ c' st', c.step cfg (.gate i now) = some c' ∧
      c'.breaker = (c.breaker.gate cfg now).2 ∧ c'.calls = c.calls.set i st' ∧
      (φ.next (T := T) (E := E) (.gate cfg now) (c.breaker.gate cfg now).1).gate.Stands st' := by
  have hstep : c.step cfg (.gate i now) = some (c.gated cfg i now) := by
    simp [Circuit.step, hi]
  rcases hg : c.breaker.gate cfg now with ⟨_ | s, b⟩
  · exact ⟨_, .rejected, hstep, by simp [Circuit.gated, hg], by simp [Circuit.gated, hg], rfl⟩
  · refine ⟨_, .admitted s (if c.breaker.state = .open then c.episode + 1 else c.episode),
      hstep, ?_, ?_, _, rfl⟩
    · simp only [Circuit.gated, hg]
      split <;> rfl
    · simp only [Circuit.gated, hg]
      split <;> rfl

theorem step_unrecorded {c : Circuit} {st : Standing} (hi : c.calls[i]? = some st)
    (hstands : φ.gate.Stands st) (hopen : φ.gate ≠ .over) :
    c.step cfg (.abandon i) = some { c with calls := c.calls.set i .abandoned } := by
  cases hgate : φ.gate with
  | before =>
      rw [hgate] at hstands
      cases hstands
      simp [Circuit.step, hi]
  | admitted as =>
      rw [hgate] at hstands
      obtain ⟨e, rfl⟩ := hstands
      simp [Circuit.step, hi]
  | _ => exact absurd hgate hopen

variable {plan : Plan T E} {b : CompiledBreaker E}

theorem followed_perform (hb : plan.breaker = some b) {a : Access T E} (choice : Choice T E)
    (h : Followed b.config start ds k φs) (hi : φs[i]? = some φ) (ha : φ.Allows plan a) :
    Followed b.config start ds (perform i choice a k).2
      (φs.set i (φ.next a (perform i choice a k).1)) := by
  have hcfg : ∀ {cfg}, Gated plan cfg → cfg = b.config := by
    rintro cfg ⟨b', hb', rfl⟩
    cases hb.symm.trans hb'
    rfl
  cases a with
  | gate cfg now =>
      obtain ⟨hbefore, hgated⟩ := ha
      cases hcfg hgated
      refine h.move (l := .gate i now) hi (by simp [perform, Objects.note, Obs.toBreaker]) ?_
      intro c st hc hst hstands
      rw [hbefore] at hstands
      cases hstands
      have hstep := step_gated (T := T) (E := E) b.config φ hst now
      rw [hc] at hstep
      exact hstep
  | recordSuccess cfg now =>
      obtain ⟨⟨as, has⟩, hgated⟩ := ha
      cases hcfg hgated
      refine h.move (l := .success i now) hi (by simp [perform, Objects.note, Obs.toBreaker]) ?_
      intro c st hc hst hstands
      rw [has] at hstands
      obtain ⟨e, rfl⟩ := hstands
      refine ⟨c.succeeded b.config i (.admitted as e) now, .recorded, ?_, ?_, rfl, rfl⟩
      · simp [Circuit.step, hst]
      · rw [Circuit.succeeded, hc]
        rfl
  | recordFailure cfg now =>
      obtain ⟨⟨as, has⟩, hgated⟩ := ha
      cases hcfg hgated
      refine h.move (l := .failure i now) hi (by simp [perform, Objects.note, Obs.toBreaker]) ?_
      intro c st hc hst hstands
      rw [has] at hstands
      obtain ⟨e, rfl⟩ := hstands
      refine ⟨c.failed b.config i now, .recorded, ?_, ?_, rfl, rfl⟩
      · simp [Circuit.step, hst]
      · rw [Circuit.failed, hc]
        rfl
  | note o =>
      cases o with
      | unrecorded =>
          refine h.move (l := .abandon i) hi (by simp [perform, Objects.note, Obs.toBreaker]) ?_
          intro c st hc hst hstands
          exact ⟨_, .abandoned, step_unrecorded hst hstands ha, hc, rfl, rfl⟩
      | ended | event | paused | resumed =>
          exact h.still hi (by simp [perform, Objects.note, Obs.toBreaker]) rfl rfl
      | _ => exact ha.elim
  | tryAcquire =>
      refine h.still hi ?_ ?_ rfl <;> simp only [perform] <;> split <;> rfl
  | tryWithdraw =>
      refine h.still hi ?_ ?_ rfl <;> simp only [perform] <;> split <;>
        simp [Objects.note, Obs.toBreaker]
  | queueFull | start => exact h.still hi (by simp [perform, Objects.note, Obs.toBreaker]) rfl rfl
  | _ => exact h.still hi rfl rfl rfl

theorem preserves_followed (hb : plan.breaker = some b) :
    (machine plan).Preserves (protocol plan) .first (Followed b.config start) where
  arrive ds k φs h := by
    obtain ⟨c, hrun, hc, hpaired⟩ := h
    refine ⟨{ c with calls := c.calls ++ [.waiting] }, ?_, hc, hpaired.snoc rfl⟩
    have hlabels : breakerLabels (k.note φs.length .arrived).trace =
        breakerLabels k.trace ++ [.arrive] := by
      simp [Objects.note, Obs.toBreaker]
    show run _ _ (breakerLabels (k.note φs.length .arrived).trace) = _
    rw [hlabels]
    exact run_snoc hrun rfl
  access ds k φs i φ choice a h hi ha := followed_perform hb choice h hi ha
  disturb ds k φs d k' h hd := by
    cases d with
    | elapse d =>
        cases hd
        exact h
    | depositElsewhere =>
        obtain ⟨b, _, rfl⟩ := Option.map_eq_some_iff.mp hd
        exact h
    | withdrawElsewhere =>
        obtain ⟨b, tokens, _, _, rfl⟩ := disturb_withdraw hd
        exact h

theorem Driving.stands {op : Bool} {as : BreakerState} {n : Nat} {st : Standing}
    (hb : plan.breaker = some b) (h : Driving plan op φ as n) (hst : φ.gate.Stands st) :
    ∃ e, st = .admitted as e := by
  rw [h.gate, hb] at hst
  exact hst

theorem GatePhase.Stands.not_admitted {gate : GatePhase} {st : Standing} (h : gate.Stands st)
    (hgate : ∀ as, gate ≠ .admitted as) : st.isAdmitted = false := by
  cases gate with
  | before =>
      cases h
      rfl
  | admitted as => exact absurd rfl (hgate as)
  | _ => exact h

theorem matches_of_stands {call : Call T E} {st : Standing} (hb : plan.breaker = some b)
    (h : At plan φ call) (hst : φ.gate.Stands st) : Matches call.stage st := by
  have hstage := h.stage
  unfold StageAt at hstage
  cases hs : call.stage with
  | created | operationsQueue timers =>
      rw [hs] at hstage
      rw [hstage.1.gate] at hst
      exact hst
  | attemptsQueue d attempt timers =>
      rw [hs] at hstage
      exact hstage.1.stands hb hst
  | running d permit timers =>
      rw [hs] at hstage
      exact hstage.1.stands hb hst
  | backingOff d wake =>
      rw [hs] at hstage
      exact hstage.stands hb hst
  | returned r =>
      rw [hs] at hstage
      exact hst.not_admitted hstage.1.gate
  | dropped =>
      rw [hs] at hstage
      exact hst.not_admitted hstage.1

end Breaker

end Parallel

open Parallel

/-- However the accesses of the calls interleave, the free permits and those of the calls
between polls never exceed the limit, and make it up when no call is being polled; no more
operations run at once than the limit says; and all permits are free once every call is over. -/
theorem threads_share_permits (plan : Plan T E) (limit : ConcurrencyLimit)
    (hc : plan.concurrency = some limit) (start : Nat) (ls : List (Parallel.Label T E))
    (s : Threads T E) (hrun : run (Parallel.step plan) (Parallel.init plan start) ls = some s) :
    s.objects.sem.permits + TaskPool.total heldAtRest s.jobs ≤ limit.permits ∧
      operating s.jobs ≤ limit.permits ∧
      ((∀ job ∈ s.jobs, ∃ call, job = .idle call) →
        s.objects.sem.permits + TaskPool.total heldAtRest s.jobs = limit.permits) ∧
      ((∀ job ∈ s.jobs, ∃ call, job = .idle call ∧ call.stage.isOver = true) →
        s.objects.sem.permits = limit.permits) := by
  have hfull : AddUp limit.permits [] (Parallel.init plan start).objects [] := by
    simp [Parallel.AddUp, Parallel.init, hc, SemState.new, TaskPool.total]
  obtain ⟨φs, hat, haddUp⟩ :=
    invariant_of_protocol (preserves_addUp limit.permits) hfull hrun
  have htotal : s.objects.sem.permits + TaskPool.total Phase.held φs = limit.permits := haddUp
  have hrest := hat.total_le (w := heldAtRest) (f := Phase.held)
    fun φ job _ hjob => heldAtRest_le hjob
  have hrunning : operating s.jobs ≤ TaskPool.total Phase.held φs := by
    classical
    rw [operating, TaskPool.count_eq_total]
    refine hat.total_le fun φ job _ hjob => ?_
    split
    · exact held_of_operating hc hjob (of_decide_eq_true ‹_›)
    · exact Nat.zero_le _
  refine ⟨by omega, by omega, fun hidle => ?_, fun hover => ?_⟩
  · have hall := hat.le_total (w := heldAtRest) (f := Phase.held) fun φ job hmem hjob => by
      obtain ⟨call, rfl⟩ := hidle job hmem
      exact le_of_eq hjob.held
    omega
  · have hnone := hat.le_total (w := fun _ => 0) (f := Phase.held) fun φ job hmem hjob => by
      obtain ⟨call, rfl, hdone⟩ := hover job hmem
      exact le_of_eq (held_of_isOver hjob hdone)
    simp only [TaskPool.total, List.map_const', List.sum_replicate, smul_zero] at hnone htotal
    omega

/-- Two calls at once of which one gets the only permit; the other queues for it while the
operation is polled. -/
def oneOvertakes : List (Parallel.Label Nat Nat) :=
  [.arrive, .arrive, .start 0 .poll, .start 1 .poll, .access 1 ⟨0, none⟩, .access 0 ⟨0, none⟩,
    .access 0 ⟨0, none⟩, .access 1 ⟨0, none⟩, .access 0 ⟨0, none⟩, .access 1 ⟨0, none⟩,
    .access 1 ⟨0, none⟩, .access 0 ⟨0, none⟩, .access 1 ⟨0, none⟩, .start 0 .poll]

def oneOvertook : Threads Nat Nat :=
  (run (Parallel.step oneAttemptAtATime) (Parallel.init oneAttemptAtATime 0) oneOvertakes).get rfl

theorem threads_share_permits_oneOvertook :
    oneOvertook.objects.sem = ⟨0, [1]⟩ ∧ operating oneOvertook.jobs ≤ 1 :=
  ⟨rfl, (threads_share_permits oneAttemptAtATime (.attempts 1) rfl 0 oneOvertakes oneOvertook
    rfl).2.1⟩

/-- However the accesses of the calls interleave, what they do to their breaker is a run of
the circuit, with the breaker as it is and every call between polls standing where its
future is. -/
theorem threads_refine_circuit (plan : Plan T E) (b : CompiledBreaker E)
    (hb : plan.breaker = some b) (start : Nat) (ls : List (Parallel.Label T E)) (s : Threads T E)
    (hrun : run (Parallel.step plan) (Parallel.init plan start) ls = some s) :
    ∃ c, run (Circuit.step b.config) (Circuit.init b.config start)
        (breakerLabels s.objects.trace) = some c ∧
      c.breaker = s.objects.breaker ∧ c.calls.length = s.jobs.length ∧
      ∀ (i : Nat) (call : Call T E) (st : Standing), s.jobs[i]? = some (.idle call) →
        c.calls[i]? = some st → Matches call.stage st := by
  have hfresh : Followed b.config start [] (Parallel.init plan start).objects [] := by
    refine ⟨Circuit.init b.config start, rfl, ?_, paired_nil⟩
    simp [Circuit.init, Parallel.init, hb]
  obtain ⟨φs, hat, c, hcircuit, hbreaker, hpaired⟩ :=
    invariant_of_protocol (preserves_followed hb) hfresh hrun
  refine ⟨c, hcircuit, hbreaker, hpaired.length.symm.trans hat.length, ?_⟩
  intro i call st hi hst
  obtain ⟨φ, hφ, hcall⟩ := hat.left hi
  exact matches_of_stands hb hcall (hpaired.each i φ st hφ hst)

/-- Two calls are admitted side by side, and both fail before either has voted. -/
def failAtOnce : List (Parallel.Label Nat Nat) :=
  [.arrive, .arrive, .start 0 .poll, .start 1 .poll] ++
    (List.replicate 5 [.access 0 ⟨0, none⟩, .access 1 ⟨0, none⟩]).flatten ++
    [.start 0 .poll, .start 1 .poll] ++
    (List.replicate 5 [.access 0 ⟨0, some (.error 7)⟩, .access 1 ⟨0, some (.error 8)⟩]).flatten

def failedAtOnce : Threads Nat Nat :=
  (run (Parallel.step fragile) (Parallel.init fragile 0) failAtOnce).get rfl

theorem threads_refine_circuit_failedAtOnce :
    breakerLabels failedAtOnce.objects.trace =
        [.arrive, .arrive, .gate 0 0, .gate 1 0, .failure 0 0, .failure 1 0] ∧
      ∃ c : Circuit, c.breaker = failedAtOnce.objects.breaker ∧ c.calls.length = 2 := by
  refine ⟨rfl, ?_⟩
  obtain ⟨c, -, hbreaker, hlength, -⟩ := threads_refine_circuit fragile
    { config := (BreakerConfig.consecutiveFailures 1).withOpenFor 5, recordWhen := none } rfl 0
    failAtOnce failedAtOnce rfl
  exact ⟨c, hbreaker, hlength⟩

end ExecutionPolicy
