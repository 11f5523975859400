import ExecutionPolicy.Breaker.Runtime
import ExecutionPolicy.Foundation.StepSystem
import ExecutionPolicy.Foundation.TaskPool

/-! # A breaker and its callers

Any number of calls share one breaker. A call asks `gate` once; an admitted call
later records one outcome, or is over without one. Labels fix who moves and at
which instant, so a list of labels is one interleaving. The circuit also counts
half-open episodes and who voted in the current one; the breaker never reads
these counts.
-/

namespace ExecutionPolicy

inductive Standing where
  | waiting
  | rejected
  | admitted (as : BreakerState) (episode : Nat)
  | recorded
  | abandoned
deriving DecidableEq, Repr

namespace Standing

/-- Admitted by `gate` and neither recorded nor over. -/
def isAdmitted : Standing → Bool
  | admitted _ _ => true
  | _ => false

/-- Admitted as `HalfOpen`, in whatever episode, and without an outcome so far. -/
def isProbe : Standing → Bool
  | admitted .halfOpen _ => true
  | _ => false

/-- A probe of the given half-open episode, without an outcome so far. -/
def isProbeOf (episode : Nat) : Standing → Bool
  | admitted .halfOpen e => e == episode
  | _ => false

theorem isProbe_of_isProbeOf {episode : Nat} {s : Standing}
    (h : s.isProbeOf episode = true) : s.isProbe = true := by
  cases s with
  | admitted as e => cases as <;> simp_all [isProbeOf, isProbe]
  | _ => simp [isProbeOf] at h

theorem isAdmitted_of_isProbe {s : Standing} (h : s.isProbe = true) : s.isAdmitted = true := by
  cases s with
  | admitted as e => rfl
  | _ => simp [isProbe] at h

end Standing

/-- One breaker, the latest clock reading it was given and the standing of every call. -/
structure Circuit where
  breaker : BreakerRuntime
  clock : Nat
  episode : Nat
  /-- Successes recorded since the latest such transition by its own probes. -/
  probeSuccesses : Nat
  /-- Successes recorded since then by calls that were admitted otherwise. -/
  straySuccesses : Nat
  calls : List Standing
deriving DecidableEq, Repr

namespace Circuit

inductive Label where
  | arrive
  | gate (i : Nat) (now : Nat)
  | success (i : Nat) (now : Nat)
  | failure (i : Nat) (now : Nat)
  | abandon (i : Nat)
deriving DecidableEq, Repr

def Label.at? : Label → Option Nat
  | .arrive => none
  | .gate _ now => some now
  | .success _ now => some now
  | .failure _ now => some now
  | .abandon _ => none

def init (cfg : BreakerConfig) (start : Nat) : Circuit where
  breaker := BreakerRuntime.new cfg.trip
  clock := start
  episode := 0
  probeSuccesses := 0
  straySuccesses := 0
  calls := []

variable (cfg : BreakerConfig)

/-- Call `i` asks the gate; an admission out of OPEN starts the next episode. -/
def gated (c : Circuit) (i : Nat) (now : Nat) : Circuit :=
  match c.breaker.gate cfg now with
  | (.ok as, b) =>
      if c.breaker.state = .open then
        { breaker := b, clock := now, episode := c.episode + 1, probeSuccesses := 0,
          straySuccesses := 0, calls := c.calls.set i (.admitted as (c.episode + 1)) }
      else
        { c with breaker := b, clock := now, calls := c.calls.set i (.admitted as c.episode) }
  | (.error _, b) => { c with breaker := b, clock := now, calls := c.calls.set i .rejected }

/-- Call `i`, standing at `s`, records a success. -/
def succeeded (c : Circuit) (i : Nat) (s : Standing) (now : Nat) : Circuit :=
  { c with
    breaker := (c.breaker.recordSuccess cfg now).2
    clock := now
    probeSuccesses := c.probeSuccesses + (if s.isProbeOf c.episode then 1 else 0)
    straySuccesses := c.straySuccesses + (if s.isProbeOf c.episode then 0 else 1)
    calls := c.calls.set i .recorded }

def failed (c : Circuit) (i : Nat) (now : Nat) : Circuit :=
  { c with
    breaker := (c.breaker.recordFailure cfg now).2
    clock := now
    calls := c.calls.set i .recorded }

/-- One step; `none` when the call named is not in the standing the label needs. -/
def step (c : Circuit) : Label → Option Circuit
  | .arrive => some { c with calls := c.calls ++ [.waiting] }
  | .gate i now =>
      match c.calls[i]? with
      | some .waiting => some (c.gated cfg i now)
      | _ => none
  | .success i now =>
      match c.calls[i]? with
      | some (.admitted as e) => some (c.succeeded cfg i (.admitted as e) now)
      | _ => none
  | .failure i now =>
      match c.calls[i]? with
      | some (.admitted _ _) => some (c.failed cfg i now)
      | _ => none
  | .abandon i =>
      match c.calls[i]? with
      | some .waiting => some { c with calls := c.calls.set i .abandoned }
      | some (.admitted _ _) => some { c with calls := c.calls.set i .abandoned }
      | _ => none

/-- Calls admitted as `HalfOpen` that have not recorded an outcome. -/
def outstandingProbes (c : Circuit) : Nat := TaskPool.count Standing.isProbe c.calls

/-- Those of them admitted since the latest OPEN-to-HALF_OPEN transition. -/
def currentProbes (c : Circuit) : Nat :=
  TaskPool.count (Standing.isProbeOf c.episode) c.calls

/-! ## Inversion of steps -/

section Inversion

variable {cfg} {c c' : Circuit} {i : Nat} {now : Nat}

theorem step_gate (h : c.step cfg (.gate i now) = some c') :
    c.calls[i]? = some .waiting ∧ c' = c.gated cfg i now := by
  simp only [step] at h
  split at h
  next hi => exact ⟨hi, (Option.some.inj h).symm⟩
  next => cases h

theorem step_success (h : c.step cfg (.success i now) = some c') :
    ∃ as e, c.calls[i]? = some (.admitted as e) ∧
      c' = c.succeeded cfg i (.admitted as e) now := by
  simp only [step] at h
  split at h
  next as e hi => exact ⟨as, e, hi, (Option.some.inj h).symm⟩
  next => cases h

theorem step_failure (h : c.step cfg (.failure i now) = some c') :
    ∃ as e, c.calls[i]? = some (.admitted as e) ∧ c' = c.failed cfg i now := by
  simp only [step] at h
  split at h
  next as e hi => exact ⟨as, e, hi, (Option.some.inj h).symm⟩
  next => cases h

theorem step_abandon (h : c.step cfg (.abandon i) = some c') :
    ∃ s, c.calls[i]? = some s ∧ (s = .waiting ∨ s.isAdmitted = true) ∧
      c' = { c with calls := c.calls.set i .abandoned } := by
  simp only [step] at h
  split at h
  next hi => exact ⟨_, hi, .inl rfl, (Option.some.inj h).symm⟩
  next as e hi => exact ⟨_, hi, .inr rfl, (Option.some.inj h).symm⟩
  next => cases h

theorem gated_cases (cfg : BreakerConfig) (c : Circuit) (i : Nat) (now : Nat) :
    (c.breaker.state = .closed ∧
      c.gated cfg i now =
        { c with clock := now, calls := c.calls.set i (.admitted .closed c.episode) }) ∨
    (c.breaker.state = .open ∧ c.breaker.ready now = true ∧
      c.gated cfg i now =
        { breaker := { c.breaker with
            state := .halfOpen, halfOpenInFlight := 1, halfOpenSuccesses := 0 }
          clock := now, episode := c.episode + 1, probeSuccesses := 0, straySuccesses := 0
          calls := c.calls.set i (.admitted .halfOpen (c.episode + 1)) }) ∨
    (c.breaker.state = .halfOpen ∧ c.breaker.halfOpenInFlight < cfg.halfOpenMaxCalls ∧
      c.gated cfg i now =
        { c with
          breaker := { c.breaker with halfOpenInFlight := c.breaker.halfOpenInFlight + 1 }
          clock := now, calls := c.calls.set i (.admitted .halfOpen c.episode) }) ∨
    (((c.breaker.state = .open ∧ c.breaker.ready now = false) ∨
        (c.breaker.state = .halfOpen ∧ cfg.halfOpenMaxCalls ≤ c.breaker.halfOpenInFlight)) ∧
      c.gated cfg i now = { c with clock := now, calls := c.calls.set i .rejected }) := by
  rcases hg : c.breaker.gate cfg now with ⟨_ | as, b⟩
  · obtain ⟨rfl, hwhy⟩ := BreakerRuntime.gate_error_cases hg
    exact .inr (.inr (.inr ⟨hwhy, by simp [gated, hg]⟩))
  · rcases BreakerRuntime.gate_ok_cases hg with
      ⟨hs, rfl, rfl⟩ | ⟨hs, hr, rfl, rfl⟩ | ⟨hs, hm, rfl, rfl⟩
    · exact .inl ⟨hs, by simp [gated, hg, hs]⟩
    · exact .inr (.inl ⟨hs, hr, by simp [gated, hg, hs]⟩)
    · exact .inr (.inr (.inl ⟨hs, hm, by simp [gated, hg, hs]⟩))

end Inversion

/-! ## Episodes are numbered in order -/

/-- No call was admitted in an episode that has not begun. -/
def Numbered (c : Circuit) : Prop :=
  ∀ (i : Nat) (as : BreakerState) (e : Nat),
    c.calls[i]? = some (.admitted as e) → e ≤ c.episode

theorem numbered_init (start : Nat) : (init cfg start).Numbered := by
  intro i as e h
  simp [init] at h

theorem Numbered.set {c : Circuit} (h : c.Numbered) {i : Nat} {s : Standing} {e : Nat}
    (he : c.episode ≤ e) (hs : ∀ as e', s = .admitted as e' → e' ≤ e)
    {b : BreakerRuntime} {clock p q : Nat} :
    Numbered ⟨b, clock, e, p, q, c.calls.set i s⟩ := by
  intro j as e' hj
  rcases TaskPool.getElem?_set_cases hj with ⟨_, heq⟩ | ⟨_, hold⟩
  · exact hs as e' heq.symm
  · exact Nat.le_trans (h j as e' hold) he

theorem numbered_step {cfg : BreakerConfig} (c : Circuit) (l : Label) (c' : Circuit)
    (h : c.Numbered) (hstep : c.step cfg l = some c') : c'.Numbered := by
  cases l with
  | arrive =>
      cases hstep
      intro j as e hj
      rcases TaskPool.getElem?_snoc_cases hj with ⟨_, heq⟩ | hold
      · cases heq
      · exact h j as e hold
  | gate i now =>
      obtain ⟨_, rfl⟩ := step_gate hstep
      rcases gated_cases cfg c i now with
        ⟨_, heq⟩ | ⟨_, _, heq⟩ | ⟨_, _, heq⟩ | ⟨_, heq⟩ <;> rw [heq]
      · exact h.set (Nat.le_refl _) (by rintro _ _ ⟨⟩; exact Nat.le_refl _)
      · exact h.set (Nat.le_succ _) (by rintro _ _ ⟨⟩; exact Nat.le_refl _)
      · exact h.set (Nat.le_refl _) (by rintro _ _ ⟨⟩; exact Nat.le_refl _)
      · exact h.set (Nat.le_refl _) (by rintro _ _ ⟨⟩)
  | success i now =>
      obtain ⟨_, _, _, rfl⟩ := step_success hstep
      exact h.set (Nat.le_refl _) (by rintro _ _ ⟨⟩)
  | failure i now =>
      obtain ⟨_, _, _, rfl⟩ := step_failure hstep
      exact h.set (Nat.le_refl _) (by rintro _ _ ⟨⟩)
  | abandon i =>
      obtain ⟨_, _, _, rfl⟩ := step_abandon hstep
      exact h.set (Nat.le_refl _) (by rintro _ _ ⟨⟩)

theorem Numbered.no_future_probe {c : Circuit} (h : c.Numbered) :
    TaskPool.count (Standing.isProbeOf (c.episode + 1)) c.calls = 0 := by
  rw [TaskPool.count_eq_zero_iff]
  intro i s hi
  by_contra hp
  cases s with
  | admitted as e =>
      have hle := h i as e hi
      cases as <;> simp [Standing.isProbeOf] at hp
      omega
  | _ => simp [Standing.isProbeOf] at hp

end Circuit

end ExecutionPolicy
