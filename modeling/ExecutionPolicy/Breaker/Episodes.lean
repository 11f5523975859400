import ExecutionPolicy.Breaker.Circuit

/-! # Half-open episodes

Who closes a half-open breaker, how many probes are out at once and whether a
slot can be lost. The runtime keeps two counters per episode and charges every
recorder to them, whoever it is; each section names the steps on which counter
and caller part.
-/

namespace ExecutionPolicy

namespace Circuit

open StepSystem

variable {cfg : BreakerConfig}

/-! ## Steps of an episode -/

/-- A step that ends half-open starts an episode or goes on with one. -/
inductive Probing (cfg : BreakerConfig) (c : Circuit) : Label → Circuit → Prop
  | opens (i now : Nat) (hi : c.calls[i]? = some .waiting) (hs : c.breaker.state = .open)
      (hr : c.breaker.ready now = true) :
      Probing cfg c (.gate i now)
        { breaker := { c.breaker with
            state := .halfOpen, halfOpenInFlight := 1, halfOpenSuccesses := 0 }
          clock := now, episode := c.episode + 1, probeSuccesses := 0, straySuccesses := 0
          calls := c.calls.set i (.admitted .halfOpen (c.episode + 1)) }
  | arrive (hs : c.breaker.state = .halfOpen) :
      Probing cfg c .arrive { c with calls := c.calls ++ [.waiting] }
  | takes (i now : Nat) (hi : c.calls[i]? = some .waiting) (hs : c.breaker.state = .halfOpen)
      (hm : c.breaker.halfOpenInFlight < cfg.halfOpenMaxCalls) :
      Probing cfg c (.gate i now)
        { c with
          breaker := { c.breaker with halfOpenInFlight := c.breaker.halfOpenInFlight + 1 }
          clock := now, calls := c.calls.set i (.admitted .halfOpen c.episode) }
  | reject (i now : Nat) (hi : c.calls[i]? = some .waiting) (hs : c.breaker.state = .halfOpen) :
      Probing cfg c (.gate i now) { c with clock := now, calls := c.calls.set i .rejected }
  | vote (i now : Nat) (as : BreakerState) (e : Nat) (hi : c.calls[i]? = some (.admitted as e))
      (hs : c.breaker.state = .halfOpen)
      (hopen : c.breaker.halfOpenSuccesses + 1 < cfg.halfOpenMaxCalls) :
      Probing cfg c (.success i now)
        { c with
          breaker := { c.breaker with
            halfOpenInFlight := c.breaker.halfOpenInFlight - 1
            halfOpenSuccesses := c.breaker.halfOpenSuccesses + 1 }
          clock := now
          probeSuccesses := c.probeSuccesses +
            (if (Standing.admitted as e).isProbeOf c.episode then 1 else 0)
          straySuccesses := c.straySuccesses +
            (if (Standing.admitted as e).isProbeOf c.episode then 0 else 1)
          calls := c.calls.set i .recorded }
  | abandon (i : Nat) (s : Standing) (hi : c.calls[i]? = some s)
      (hs : c.breaker.state = .halfOpen) :
      Probing cfg c (.abandon i) { c with calls := c.calls.set i .abandoned }

theorem not_halfOpen_failed (c : Circuit) (i : Nat) (now : Nat) :
    (c.failed cfg i now).breaker.state ≠ .halfOpen := by
  by_cases hs : c.breaker.state = .halfOpen
  · simp [failed, BreakerRuntime.recordFailure_of_halfOpen hs]
  · simp only [failed, BreakerRuntime.recordFailure_of_not_halfOpen hs]
    split
    next => simp
    next => simpa using hs

theorem probing_succeeded {c : Circuit} {i now e : Nat} {as : BreakerState}
    (hi : c.calls[i]? = some (.admitted as e))
    (hs' : (c.succeeded cfg i (.admitted as e) now).breaker.state = .halfOpen) :
    Probing cfg c (.success i now) (c.succeeded cfg i (.admitted as e) now) := by
  by_cases hs : c.breaker.state = .halfOpen
  · simp only [succeeded, BreakerRuntime.recordSuccess_of_halfOpen hs] at hs' ⊢
    split at hs'
    next => cases hs'
    next hopen =>
      rw [if_neg hopen]
      exact .vote i now as e hi hs (Nat.lt_of_not_le hopen)
  · simp only [succeeded, BreakerRuntime.recordSuccess_of_not_halfOpen hs] at hs'
    exact absurd hs' hs

theorem probing_of_step {c c' : Circuit} {l : Label} (hstep : c.step cfg l = some c')
    (hs' : c'.breaker.state = .halfOpen) : Probing cfg c l c' := by
  cases l with
  | arrive =>
      cases hstep
      exact .arrive hs'
  | gate i now =>
      obtain ⟨hi, rfl⟩ := step_gate hstep
      rcases gated_cases cfg c i now with
        ⟨hs, heq⟩ | ⟨hs, hr, heq⟩ | ⟨hs, hm, heq⟩ | ⟨_, heq⟩
      · rw [heq] at hs'
        exact absurd (hs.symm.trans hs') (by simp)
      · rw [heq]
        exact .opens i now hi hs hr
      · rw [heq]
        exact .takes i now hi hs hm
      · rw [heq] at hs' ⊢
        exact .reject i now hi hs'
  | success i now =>
      obtain ⟨as, e, hi, rfl⟩ := step_success hstep
      exact probing_succeeded hi hs'
  | failure i now =>
      obtain ⟨_, _, _, rfl⟩ := step_failure hstep
      exact absurd hs' (not_halfOpen_failed c i now)
  | abandon i =>
      obtain ⟨s, hi, _, rfl⟩ := step_abandon hstep
      exact .abandon i s hi hs'

/-! ## Votes -/

/-- While half-open the success counter holds every success of the episode, by
whomever, and has not reached the closing count. -/
def Tallied (cfg : BreakerConfig) (c : Circuit) : Prop :=
  c.breaker.state = .halfOpen →
    c.breaker.halfOpenSuccesses = c.probeSuccesses + c.straySuccesses ∧
      c.breaker.halfOpenSuccesses < cfg.halfOpenMaxCalls

theorem tallied_init (start : Nat) : Tallied cfg (init cfg start) := by
  intro h
  cases h

theorem tallied_step (c : Circuit) (l : Label) (c' : Circuit) (h : Tallied cfg c)
    (hstep : c.step cfg l = some c') : Tallied cfg c' := by
  intro hs'
  cases probing_of_step hstep hs' with
  | opens i now hi hs hr => exact ⟨rfl, cfg.halfOpenMaxCalls_pos⟩
  | arrive hs => exact h hs
  | takes i now hi hs hm => exact h hs
  | reject i now hi hs => exact h hs
  | vote i now as e hi hs hopen =>
      obtain ⟨htally, _⟩ := h hs
      refine ⟨?_, hopen⟩
      dsimp only
      rw [htally]
      split <;> omega
  | abandon i s hi hs => exact h hs

/-- Only a recorded success leaves HALF_OPEN for CLOSED. -/
theorem closing_is_success {c c' : Circuit} {l : Label} (hstep : c.step cfg l = some c')
    (hs : c.breaker.state = .halfOpen) (hs' : c'.breaker.state = .closed) :
    ∃ (i : Nat) (now : Nat) (as : BreakerState) (e : Nat),
      l = .success i now ∧ c.calls[i]? = some (.admitted as e) ∧
      c' = c.succeeded cfg i (.admitted as e) now ∧
      cfg.halfOpenMaxCalls ≤ c.breaker.halfOpenSuccesses + 1 := by
  cases l with
  | arrive =>
      cases hstep
      rw [hs] at hs'
      cases hs'
  | gate i now =>
      obtain ⟨_, rfl⟩ := step_gate hstep
      rcases gated_cases cfg c i now with
        ⟨hc, _⟩ | ⟨ho, _, _⟩ | ⟨_, _, heq⟩ | ⟨_, heq⟩
      · rw [hs] at hc
        cases hc
      · rw [hs] at ho
        cases ho
      · rw [heq] at hs'
        simp [hs] at hs'
      · rw [heq] at hs'
        simp [hs] at hs'
  | success i now =>
      obtain ⟨as, e, hi, rfl⟩ := step_success hstep
      refine ⟨i, now, as, e, rfl, hi, rfl, ?_⟩
      simp only [succeeded, BreakerRuntime.recordSuccess_of_halfOpen hs] at hs'
      split at hs'
      next hle => exact hle
      next => simp [hs] at hs'
  | failure i now =>
      obtain ⟨_, _, _, rfl⟩ := step_failure hstep
      simp [failed, BreakerRuntime.recordFailure_of_halfOpen hs] at hs'
  | abandon i =>
      obtain ⟨_, _, _, rfl⟩ := step_abandon hstep
      simp [hs] at hs'

/-- The step from `c` to `c'`, if it closes a half-open breaker, does so with at
least `half_open_max_calls` successes of the episode's own probes. -/
def ClosesOnOwnProbes (cfg : BreakerConfig) (c c' : Circuit) : Prop :=
  c.breaker.state = .halfOpen → c'.breaker.state = .closed →
    cfg.halfOpenMaxCalls ≤ c'.probeSuccesses

/-- A success that arrives while half-open comes from a probe of this episode. -/
def OnlyProbesVote (c : Circuit) : Label → Prop
  | .success i _ => c.breaker.state = .halfOpen →
      (c.calls[i]?).all (Standing.isProbeOf c.episode) = true
  | _ => True

instance (c : Circuit) : (l : Label) → Decidable (OnlyProbesVote c l)
  | .success _ _ => inferInstanceAs (Decidable (_ → _))
  | .arrive | .gate _ _ | .failure _ _ | .abandon _ => inferInstanceAs (Decidable True)

theorem votes_at_closing {c c' : Circuit} {l : Label} (h : Tallied cfg c)
    (hstep : c.step cfg l = some c') (hs : c.breaker.state = .halfOpen)
    (hs' : c'.breaker.state = .closed) :
    c'.probeSuccesses + c'.straySuccesses = cfg.halfOpenMaxCalls := by
  obtain ⟨i, now, as, e, rfl, hi, rfl, hreach⟩ := closing_is_success hstep hs hs'
  obtain ⟨htally, hlt⟩ := h hs
  simp only [succeeded]
  split <;> omega

/-- While half-open nobody but the episode's probes has voted. -/
def NoStray (c : Circuit) : Prop := c.breaker.state = .halfOpen → c.straySuccesses = 0

theorem noStray_step (c : Circuit) (l : Label) (c' : Circuit) (h : NoStray c)
    (hcond : OnlyProbesVote c l) (hstep : c.step cfg l = some c') : NoStray c' := by
  intro hs'
  cases probing_of_step hstep hs' with
  | opens i now hi hs hr => rfl
  | arrive hs => exact h hs
  | takes i now hi hs hm => exact h hs
  | reject i now hi hs => exact h hs
  | vote i now as e hi hs hopen =>
      have hprobe := hcond hs
      rw [hi] at hprobe
      simp only [Option.all_some] at hprobe
      simp [hprobe, h hs]
  | abandon i s hi hs => exact h hs

theorem stray_eq_zero_at_closing {c c' : Circuit} {l : Label} (h : NoStray c)
    (hcond : OnlyProbesVote c l) (hstep : c.step cfg l = some c')
    (hs : c.breaker.state = .halfOpen) (hs' : c'.breaker.state = .closed) :
    c'.straySuccesses = 0 := by
  obtain ⟨i, now, as, e, rfl, hi, rfl, _⟩ := closing_is_success hstep hs hs'
  have hprobe := hcond hs
  rw [hi] at hprobe
  simp only [Option.all_some] at hprobe
  simp [succeeded, hprobe, h hs]

/-- In a run in which only the episode's probes vote, every closing rests on
them; and a closing rests on them exactly when no other success was counted in
its episode. -/
theorem closes_on_own_probes_iff (cfg : BreakerConfig) (start : Nat) (ls : List Label)
    (l : Label) (c c' : Circuit) (hrun : run (step cfg) (init cfg start) ls = some c)
    (hstep : c.step cfg l = some c') :
    (Obeys (step cfg) OnlyProbesVote (init cfg start) (ls ++ [l]) →
        ClosesOnOwnProbes cfg c c') ∧
      (c.breaker.state = .halfOpen → c'.breaker.state = .closed →
        (cfg.halfOpenMaxCalls ≤ c'.probeSuccesses ↔ c'.straySuccesses = 0)) := by
  have htally : Tallied cfg c := invariant_of_step tallied_step (tallied_init start) hrun
  constructor
  · intro hobeys hs hs'
    have hcond := hobeys.last hrun
    have hnone : NoStray c :=
      invariant noStray_step (fun h => by cases h) (hobeys.left) hrun
    have hvotes := votes_at_closing htally hstep hs hs'
    have hzero := stray_eq_zero_at_closing hnone hcond hstep hs hs'
    omega
  · intro hs hs'
    have hvotes := votes_at_closing htally hstep hs hs'
    omega

/-- One consecutive failure trips, 5 ns open, one probe. -/
def touchy : BreakerConfig := (BreakerConfig.consecutiveFailures 1).withOpenFor 5

/-- Call 1 trips the breaker while call 0 is out; call 2 is the probe of the episode. -/
def lateSuccess : List Label :=
  [.arrive, .arrive, .arrive, .gate 0 0, .gate 1 0, .failure 1 0, .gate 2 5]

theorem closes_on_own_probes_iff_probe :
    ∃ c c', run (step touchy) (init touchy 0) lateSuccess = some c ∧
      c.step touchy (.success 2 6) = some c' ∧ ClosesOnOwnProbes touchy c c' ∧
      (touchy.halfOpenMaxCalls ≤ c'.probeSuccesses ↔ c'.straySuccesses = 0) := by
  obtain ⟨hown, hiff⟩ :=
    closes_on_own_probes_iff touchy 0 lateSuccess (.success 2 6) _ _ rfl rfl
  exact ⟨_, _, rfl, rfl, hown (by decide), hiff rfl rfl⟩

/-- The straggler's success closes the breaker; the probe has not voted. -/
theorem late_success_closes :
    ∃ c c', run (step touchy) (init touchy 0) lateSuccess = some c ∧
      c.step touchy (.success 0 6) = some c' ∧ ¬ ClosesOnOwnProbes touchy c c' :=
  ⟨_, _, rfl, rfl, by unfold ClosesOnOwnProbes; decide⟩

/-! ## Slots -/

/-- A half-open breaker has at most `half_open_max_calls` probes without an outcome. -/
def BoundedProbing (cfg : BreakerConfig) (c : Circuit) : Prop :=
  c.breaker.state = .halfOpen → c.outstandingProbes ≤ cfg.halfOpenMaxCalls

/-- The steps that keep the slot counter on the probes: an episode starts with no
probe of an earlier one out, and a success that leaves the breaker half-open
while probes are out is a probe's own. -/
def SlotsKept (cfg : BreakerConfig) (c : Circuit) : Label → Prop
  | .gate _ now => c.breaker.state = .open → c.breaker.ready now = true →
      c.outstandingProbes = 0
  | .success i _ => c.breaker.state = .halfOpen →
      (c.calls[i]?).all Standing.isProbe = true ∨ c.outstandingProbes = 0 ∨
        cfg.halfOpenMaxCalls ≤ c.breaker.halfOpenSuccesses + 1
  | _ => True

instance (cfg : BreakerConfig) (c : Circuit) : (l : Label) → Decidable (SlotsKept cfg c l)
  | .gate _ _ | .success _ _ => inferInstanceAs (Decidable (_ → _))
  | .arrive | .failure _ _ | .abandon _ => inferInstanceAs (Decidable True)

/-- While half-open every outstanding probe has a slot, and no slot is oversold. -/
def Slotted (cfg : BreakerConfig) (c : Circuit) : Prop :=
  c.breaker.state = .halfOpen →
    c.outstandingProbes ≤ c.breaker.halfOpenInFlight ∧
      c.breaker.halfOpenInFlight ≤ cfg.halfOpenMaxCalls

theorem slotted_step (c : Circuit) (l : Label) (c' : Circuit) (h : Slotted cfg c)
    (hcond : SlotsKept cfg c l) (hstep : c.step cfg l = some c') : Slotted cfg c' := by
  intro hs'
  cases probing_of_step hstep hs' with
  | opens i now hi hs hr =>
      have hnone := hcond hs hr
      have hcount := TaskPool.count_set_enter Standing.isProbe hi rfl
        (b := .admitted .halfOpen (c.episode + 1)) rfl
      have hpos := cfg.halfOpenMaxCalls_pos
      simp only [outstandingProbes] at hnone ⊢
      omega
  | arrive hs => simpa [outstandingProbes, Standing.isProbe] using h hs
  | takes i now hi hs hm =>
      obtain ⟨hout, _⟩ := h hs
      have hcount := TaskPool.count_set_enter Standing.isProbe hi rfl
        (b := .admitted .halfOpen c.episode) rfl
      simp only [outstandingProbes] at hout ⊢
      omega
  | reject i now hi hs =>
      obtain ⟨hout, hmax⟩ := h hs
      have hcount := TaskPool.count_set_le Standing.isProbe hi (b := .rejected) rfl
      exact ⟨Nat.le_trans hcount hout, hmax⟩
  | vote i now as e hi hs hopen =>
      obtain ⟨hout, hmax⟩ := h hs
      simp only [outstandingProbes] at hout ⊢
      rcases hcond hs with hprobe | hnone | hclose
      · -- the recorder gives back its own slot
        rw [hi] at hprobe
        have hcount := TaskPool.count_set_leave Standing.isProbe hi hprobe (b := .recorded) rfl
        omega
      · have hcount := TaskPool.count_set_le Standing.isProbe hi (b := .recorded) rfl
        simp only [outstandingProbes] at hnone
        omega
      · omega
  | abandon i s hi hs =>
      obtain ⟨hout, hmax⟩ := h hs
      have hcount := TaskPool.count_set_le Standing.isProbe hi (b := .abandoned) rfl
      exact ⟨Nat.le_trans hcount hout, hmax⟩

/-- Every run whose steps keep the slot counter on the probes probes boundedly. -/
theorem boundedProbing_of_slotsKept (cfg : BreakerConfig) (start : Nat) (ls : List Label)
    (c : Circuit) (hobeys : Obeys (step cfg) (SlotsKept cfg) (init cfg start) ls)
    (hrun : run (step cfg) (init cfg start) ls = some c) : BoundedProbing cfg c := by
  intro hs
  have h : Slotted cfg c := invariant slotted_step (fun h => by cases h) hobeys hrun
  obtain ⟨hout, hmax⟩ := h hs
  exact Nat.le_trans hout hmax

/-- A straggler's failure ends the first episode while its probe is still out. -/
def overlappingEpisodes : List Label :=
  lateSuccess ++ [.arrive, .failure 0 6, .gate 3 11]

theorem boundedProbing_of_slotsKept_once :
    ∃ c, run (step touchy) (init touchy 0) lateSuccess = some c ∧ BoundedProbing touchy c :=
  ⟨_, rfl, boundedProbing_of_slotsKept touchy 0 lateSuccess _ (by decide) rfl⟩

/-- Two probes are out under a limit of one. -/
theorem overlapping_episodes_oversell :
    ∃ c, run (step touchy) (init touchy 0) overlappingEpisodes = some c ∧
      ¬ BoundedProbing touchy c :=
  ⟨_, rfl, by unfold BoundedProbing; decide⟩

/-! ## Slots given back -/

/-- The call that is over without an outcome does not hold a slot of this episode. -/
def NoSlotLost (c : Circuit) : Label → Prop
  | .abandon i => c.breaker.state = .halfOpen →
      (c.calls[i]?).any (Standing.isProbeOf c.episode) = false
  | _ => True

instance (c : Circuit) : (l : Label) → Decidable (NoSlotLost c l)
  | .abandon _ => inferInstanceAs (Decidable (_ → _))
  | .arrive | .gate _ _ | .success _ _ | .failure _ _ => inferInstanceAs (Decidable True)

/-- While half-open every slot counted as taken belongs to a probe still out. -/
def SlotsOwned (c : Circuit) : Prop :=
  c.breaker.state = .halfOpen → c.breaker.halfOpenInFlight ≤ c.currentProbes

theorem slotsOwned_step (c : Circuit) (l : Label) (c' : Circuit)
    (h : c.Numbered ∧ SlotsOwned c) (hcond : NoSlotLost c l)
    (hstep : c.step cfg l = some c') : c'.Numbered ∧ SlotsOwned c' := by
  obtain ⟨hnum, h⟩ := h
  refine ⟨numbered_step c l c' hnum hstep, fun hs' => ?_⟩
  cases probing_of_step hstep hs' with
  | opens i now hi hs hr =>
      have hcount := TaskPool.count_set_enter (Standing.isProbeOf (c.episode + 1)) hi rfl
        (b := .admitted .halfOpen (c.episode + 1)) (by simp [Standing.isProbeOf])
      rw [hnum.no_future_probe] at hcount
      simp [currentProbes, hcount]
  | arrive hs => simpa [currentProbes, Standing.isProbeOf] using h hs
  | takes i now hi hs hm =>
      have hown := h hs
      have hcount := TaskPool.count_set_enter (Standing.isProbeOf c.episode) hi rfl
        (b := .admitted .halfOpen c.episode) (by simp [Standing.isProbeOf])
      simp only [currentProbes] at hown ⊢
      omega
  | reject i now hi hs =>
      have hown := h hs
      have hcount := TaskPool.count_set_of_eq (Standing.isProbeOf c.episode) hi
        (b := .rejected) rfl
      simpa [currentProbes, hcount] using hown
  | vote i now as e hi hs hopen =>
      have hown := h hs
      simp only [currentProbes] at hown ⊢
      cases hp : (Standing.admitted as e).isProbeOf c.episode with
      | true =>
          have hcount := TaskPool.count_set_leave _ hi hp (b := .recorded) rfl
          omega
      | false =>
          have hcount := TaskPool.count_set_of_eq (Standing.isProbeOf c.episode) hi
            (b := .recorded) hp.symm
          omega
  | abandon i s hi hs =>
      have hown := h hs
      have hother := hcond hs
      rw [hi] at hother
      have hcount := TaskPool.count_set_of_eq (Standing.isProbeOf c.episode) hi
        (b := .abandoned) hother.symm
      simpa [currentProbes, hcount] using hown

/-- A breaker none of whose slots is taken admits every call from some instant on. -/
theorem admits_eventually (cfg : BreakerConfig) (b : BreakerRuntime)
    (h : b.state = .halfOpen → b.halfOpenInFlight < cfg.halfOpenMaxCalls) :
    ∃ T : Nat, ∀ now, T ≤ now → ∃ as, (b.gate cfg now).1 = .ok as := by
  cases hs : b.state with
  | closed => exact ⟨0, fun now _ => ⟨_, by rw [BreakerRuntime.gate_of_closed hs]⟩⟩
  | «open» =>
      refine ⟨b.openUntil.getD 0, fun now hnow => ⟨.halfOpen, ?_⟩⟩
      have hready : b.ready now = true := by
        unfold BreakerRuntime.ready
        cases hu : b.openUntil with
        | none => rfl
        | some t => simpa [hu] using hnow
      rw [BreakerRuntime.gate_of_ready hs hready]
  | halfOpen => exact ⟨0, fun now _ => ⟨_, by rw [BreakerRuntime.gate_of_slot hs (h hs)]⟩⟩

end Circuit

end ExecutionPolicy
