import ExecutionPolicy.Breaker.Circuit

/-! # The cooldown after a trip

From the failure that opens the breaker up to the first admitted probe: what is
promised to a poller, and which outcomes recorded meanwhile by calls that were
already out move the end of the cooldown.
-/

namespace ExecutionPolicy

namespace Circuit

open StepSystem

variable {cfg : BreakerConfig}

/-- From its clock on, the circuit cools until exactly `open_for` after `t`. -/
def CooldownFixed (cfg : BreakerConfig) (t : Nat) (c : Circuit) : Prop :=
  ∀ now, c.clock ≤ now →
    (now < t + cfg.openFor →
      c.breaker.coolingUntil now = some (t + cfg.openFor) ∧
        (c.breaker.gate cfg now).1 = .error ()) ∧
    (t + cfg.openFor ≤ now → (c.breaker.gate cfg now).1 = .ok .halfOpen)

/-- Clock readings do not run backwards and no gate admits a probe. -/
def BeforeProbe (c : Circuit) (l : Label) : Prop :=
  (∀ now, l.at? = some now → c.clock ≤ now) ∧
    ∀ i now, l = .gate i now → c.breaker.ready now = false

/-- A failure that meets the trip rule again is recorded at the instant of the trip. -/
def NoLateTrip (cfg : BreakerConfig) (t : Nat) (c : Circuit) : Label → Prop
  | .failure _ now => ((c.breaker.countFailure now).shouldTrip cfg now).1 = true → now = t
  | _ => True

instance (t : Nat) (c : Circuit) : (l : Label) → Decidable (NoLateTrip cfg t c l)
  | .failure _ _ => inferInstanceAs (Decidable (_ → _))
  | .arrive | .gate _ _ | .success _ _ | .abandon _ => inferInstanceAs (Decidable True)

/-! ## Steps of an open breaker -/

/-- An open breaker stays open until a probe is admitted, and only a failure that
meets the trip rule once more moves the end of its cooldown. -/
theorem open_step {c c' : Circuit} {l : Label} (hopen : c.breaker.state = .open)
    (hbefore : BeforeProbe c l) (hstep : c.step cfg l = some c') :
    c'.breaker.state = .open ∧ c.clock ≤ c'.clock ∧
      (c'.breaker.openUntil = c.breaker.openUntil ∨
        ∃ i, l = .failure i c'.clock ∧
          ((c.breaker.countFailure c'.clock).shouldTrip cfg c'.clock).1 = true ∧
          c'.breaker.openUntil = some (c'.clock + cfg.openFor)) := by
  have hnot : c.breaker.state ≠ .halfOpen := by simp [hopen]
  cases l with
  | arrive =>
      cases hstep
      exact ⟨hopen, Nat.le_refl _, .inl rfl⟩
  | gate i now =>
      obtain ⟨_, rfl⟩ := step_gate hstep
      have hclock := hbefore.1 now rfl
      have hgate : c.breaker.gate cfg now = (.error (), c.breaker) :=
        BreakerRuntime.gate_of_cooling hopen (hbefore.2 i now rfl)
      have heq : c.gated cfg i now =
          { c with clock := now, calls := c.calls.set i .rejected } := by
        simp [gated, hgate]
      rw [heq]
      exact ⟨hopen, hclock, .inl rfl⟩
  | success i now =>
      obtain ⟨_, _, _, rfl⟩ := step_success hstep
      have hclock := hbefore.1 now rfl
      have hkeep : c.breaker.recordSuccess cfg now = _ :=
        BreakerRuntime.recordSuccess_of_not_halfOpen hnot
      refine ⟨?_, hclock, .inl ?_⟩
      · simp [succeeded, hkeep, hopen]
      · simp [succeeded, hkeep]
  | failure i now =>
      obtain ⟨_, _, _, rfl⟩ := step_failure hstep
      have hclock := hbefore.1 now rfl
      simp only [failed, BreakerRuntime.recordFailure_of_not_halfOpen hnot]
      split
      next htrip => exact ⟨rfl, hclock, .inr ⟨i, rfl, htrip, rfl⟩⟩
      next => exact ⟨by simpa using hopen, hclock, .inl (by simp)⟩
  | abandon i =>
      obtain ⟨_, _, _, rfl⟩ := step_abandon hstep
      exact ⟨hopen, Nat.le_refl _, .inl rfl⟩

def OpenUntil (cfg : BreakerConfig) (t : Nat) (c : Circuit) : Prop :=
  c.breaker.state = .open ∧ t ≤ c.clock ∧ c.breaker.openUntil = some (t + cfg.openFor)

theorem OpenUntil.cooldownFixed {t : Nat} {c : Circuit} (h : OpenUntil cfg t c) :
    CooldownFixed cfg t c := by
  obtain ⟨hopen, _, huntil⟩ := h
  intro now _
  constructor
  · intro hlt
    have hready : c.breaker.ready now = false := by
      simp [BreakerRuntime.ready, huntil, Nat.not_le.mpr hlt]
    constructor
    · simp [BreakerRuntime.coolingUntil, hopen, huntil, hlt]
    · rw [BreakerRuntime.gate_of_cooling hopen hready]
  · intro hle
    have hready : c.breaker.ready now = true := by
      simp [BreakerRuntime.ready, huntil, hle]
    rw [BreakerRuntime.gate_of_ready hopen hready]

theorem openUntil_step {t : Nat} (c : Circuit) (l : Label) (c' : Circuit)
    (h : OpenUntil cfg t c) (hcond : BeforeProbe c l ∧ NoLateTrip cfg t c l)
    (hstep : c.step cfg l = some c') : OpenUntil cfg t c' := by
  obtain ⟨hopen, hclock, huntil⟩ := h
  obtain ⟨hopen', hle, hkeep | ⟨i, rfl, htrip, hmoved⟩⟩ := open_step hopen hcond.1 hstep
  · exact ⟨hopen', Nat.le_trans hclock hle, hkeep.trans huntil⟩
  · have heq : c'.clock = t := hcond.2 htrip
    exact ⟨hopen', Nat.le_trans hclock hle, by rw [hmoved, heq]⟩

/-! ## A breaker that does not cool -/

def Cooled (t : Nat) (c : Circuit) : Prop :=
  c.breaker.state = .open ∧ t ≤ c.clock ∧
    ∃ u, c.breaker.openUntil = some u ∧ u ≤ c.clock

theorem Cooled.cooldownFixed {t : Nat} {c : Circuit} (hzero : cfg.openFor = 0)
    (h : Cooled t c) : CooldownFixed cfg t c := by
  obtain ⟨hopen, hclock, u, huntil, hu⟩ := h
  intro now hnow
  refine ⟨fun hlt => by omega, fun _ => ?_⟩
  have hready : c.breaker.ready now = true := by
    simp [BreakerRuntime.ready, huntil, Nat.le_trans hu hnow]
  rw [BreakerRuntime.gate_of_ready hopen hready]

theorem cooled_step {t : Nat} (hzero : cfg.openFor = 0) (c : Circuit) (l : Label)
    (c' : Circuit) (h : Cooled t c) (hbefore : BeforeProbe c l)
    (hstep : c.step cfg l = some c') : Cooled t c' := by
  obtain ⟨hopen, hclock, u, huntil, hu⟩ := h
  obtain ⟨hopen', hle, hkeep | ⟨i, rfl, _, hmoved⟩⟩ := open_step hopen hbefore hstep
  · exact ⟨hopen', Nat.le_trans hclock hle, u, hkeep.trans huntil, Nat.le_trans hu hle⟩
  · exact ⟨hopen', Nat.le_trans hclock hle, c'.clock, by rw [hmoved, hzero]; rfl, Nat.le_refl _⟩

/-! ## When the cooldown is fixed -/

theorem not_cooldownFixed_of_moved {t u : Nat} {c : Circuit}
    (hopen : c.breaker.state = .open) (hpos : cfg.openFor ≠ 0) (hlate : t < u)
    (hclock : c.clock = u) (huntil : c.breaker.openUntil = some (u + cfg.openFor)) :
    ¬ CooldownFixed cfg t c := by
  intro h
  have hadmit := (h (max u (t + cfg.openFor)) (by omega)).2 (by omega)
  have hready : c.breaker.ready (max u (t + cfg.openFor)) = false := by
    simp only [BreakerRuntime.ready, huntil, Option.map_some, Option.getD_some,
      decide_eq_false_iff_not]
    omega
  rw [BreakerRuntime.gate_of_cooling hopen hready] at hadmit
  cases hadmit

theorem noLateTrip_of_cooldownFixed {t : Nat} (hpos : cfg.openFor ≠ 0) {c c' : Circuit}
    {ls : List Label} (h : OpenUntil cfg t c) (hrun : run (step cfg) c ls = some c')
    (hbefore : Obeys (step cfg) BeforeProbe c ls)
    (hfixed : Throughout (step cfg) (CooldownFixed cfg t) c ls) :
    Obeys (step cfg) (NoLateTrip cfg t) c ls := by
  induction ls generalizing c with
  | nil => trivial
  | cons l ls ih =>
      obtain ⟨c₁, hstep, hrest⟩ := run_cons_some hrun
      have hcond : NoLateTrip cfg t c l := by
        obtain ⟨hopen, hclock, _⟩ := h
        cases l with
        | failure i now =>
            intro htrip
            obtain ⟨as, e, hi, hc₁⟩ := step_failure hstep
            have hnot : c.breaker.state ≠ .halfOpen := by simp [hopen]
            have hmoved : c₁.breaker = ((c.breaker.countFailure now).shouldTrip cfg now).2.trip
                cfg now := by
              rw [hc₁]
              simp only [failed, BreakerRuntime.recordFailure_of_not_halfOpen hnot, htrip, if_true]
            have hnow : c.clock ≤ now := hbefore.1.1 now rfl
            by_contra hne
            exact not_cooldownFixed_of_moved (u := now) (by rw [hmoved]; rfl) hpos (by omega)
              (by rw [hc₁]; rfl) (by rw [hmoved]; rfl) (hfixed.2 c₁ hstep).head
        | _ => trivial
      have h₁ := openUntil_step c l c₁ h ⟨hbefore.1, hcond⟩ hstep
      refine ⟨hcond, fun c₂ hc₂ => ?_⟩
      cases hstep.symm.trans hc₂
      exact ih h₁ hrest (hbefore.2 c₁ hstep) (hfixed.2 c₁ hstep)

/-- The failure at `t` that moved the breaker into OPEN left it cooling until `t + open_for`. -/
theorem openUntil_of_trip {c c₁ : Circuit} {i : Nat} {t : Nat}
    (hstep : c.step cfg (.failure i t) = some c₁) (hopen : c₁.breaker.state = .open)
    (hnot : c.breaker.state ≠ .open) : OpenUntil cfg t c₁ := by
  obtain ⟨_, _, _, rfl⟩ := step_failure hstep
  by_cases hs : c.breaker.state = .halfOpen
  · exact ⟨hopen, Nat.le_refl _, by
      simp [failed, BreakerRuntime.recordFailure_of_halfOpen hs]⟩
  · simp only [failed, BreakerRuntime.recordFailure_of_not_halfOpen hs] at hopen ⊢
    split at hopen
    next htrip => exact ⟨by simp [htrip], Nat.le_refl _, by simp [htrip]⟩
    next => exact absurd (by simpa using hopen) hnot

/-- Between the trip at `t` and the first admitted probe the cooldown stays as it
was set, in every state passed, exactly when no later failure recorded meanwhile
meets the trip rule again (or there is no cooldown to move). -/
theorem cooldownFixed_iff_noLateTrip (cfg : BreakerConfig) (c c₁ c₂ : Circuit) (i : Nat)
    (t : Nat) (ls : List Label) (hstep : c.step cfg (.failure i t) = some c₁)
    (hnot : c.breaker.state ≠ .open) (hopen : c₁.breaker.state = .open)
    (hrun : run (step cfg) c₁ ls = some c₂) (hbefore : Obeys (step cfg) BeforeProbe c₁ ls) :
    Throughout (step cfg) (CooldownFixed cfg t) c₁ ls ↔
      cfg.openFor = 0 ∨ Obeys (step cfg) (NoLateTrip cfg t) c₁ ls := by
  have h : OpenUntil cfg t c₁ := openUntil_of_trip hstep hopen hnot
  constructor
  · intro hfixed
    by_cases hzero : cfg.openFor = 0
    · exact .inl hzero
    · exact .inr (noLateTrip_of_cooldownFixed hzero h hrun hbefore hfixed)
  · rintro (hzero | hcond)
    · have hcooled : Cooled t c₁ := ⟨h.1, h.2.1, t, by rw [h.2.2, hzero]; rfl, h.2.1⟩
      exact (throughout_of_step (cooled_step hzero) hcooled hbefore).mono
        fun _ hc => hc.cooldownFixed hzero
    · exact (throughout_of_step openUntil_step h (hbefore.and hcond)).mono
        fun _ hc => hc.cooldownFixed

/-- One consecutive failure trips, 5 ns open, one probe. -/
def brief : BreakerConfig := (BreakerConfig.consecutiveFailures 1).withOpenFor 5

/-- Two calls are out of a closed breaker. -/
def twoOut : Circuit :=
  (run (step brief) (init brief 0) [.arrive, .arrive, .gate 0 0, .gate 1 0]).get rfl

def justTripped : Circuit := (twoOut.step brief (.failure 1 0)).get rfl

theorem cooldownFixed_iff_noLateTrip_once :
    Throughout (step brief) (CooldownFixed brief 0) justTripped [.success 0 3] ↔
      brief.openFor = 0 ∨ Obeys (step brief) (NoLateTrip brief 0) justTripped [.success 0 3] :=
  cooldownFixed_iff_noLateTrip brief twoOut justTripped _ 1 0 [.success 0 3] rfl
    (by decide) rfl rfl
    ⟨⟨fun now _ => Nat.zero_le now, fun _ _ h => by cases h⟩, fun _ _ => trivial⟩

/-- The straggler's failure at 3 postpones the end of the cooldown from 5 to 8. -/
theorem late_failure_postpones :
    ∃ c c₁ c₂, run (step brief) (init brief 0) [.arrive, .arrive, .gate 0 0, .gate 1 0] = some c ∧
      c.step brief (.failure 1 0) = some c₁ ∧ c.breaker.state = .closed ∧
      c₁.breaker.state = .open ∧ c₁.breaker.coolingUntil 3 = some 5 ∧
      run (step brief) c₁ [.failure 0 3] = some c₂ ∧ c₂.breaker.coolingUntil 3 = some 8 ∧
      ¬ Throughout (step brief) (CooldownFixed brief 0) c₁ [.failure 0 3] := by
  refine ⟨twoOut, justTripped, (justTripped.step brief (.failure 0 3)).get rfl, rfl, rfl, rfl,
    rfl, by decide, rfl, by decide, fun h => ?_⟩
  have hend := ((h.2 _ rfl).head 5 (by decide)).2 (by decide)
  exact absurd hend (by decide)

end Circuit

end ExecutionPolicy
