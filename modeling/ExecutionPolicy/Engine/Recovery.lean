import ExecutionPolicy.Breaker.Episodes
import ExecutionPolicy.Engine.Refinement

/-! # A breaker recovers

Once no admitted call is running, the gate of a plan's breaker admits calls from
some instant on, provided that no probe of a half-open episode has ended without
giving its slot back.
-/

namespace ExecutionPolicy

open StepSystem

variable {T E : Type}

/-- No call that the gate admitted is still running. -/
def System.idle (s : System T E) : Bool := s.calls.all fun call => !call.stage.isAdmitted

/-- From some instant on the gate admits every next call. -/
def Recovers (cfg : BreakerConfig) (b : BreakerRuntime) : Prop :=
  ∃ since, ∀ now, since ≤ now → ∃ as, (b.gate cfg now).1 = .ok as

/-- In a circuit whose slots are owned by probes, nobody admitted means no slot taken. -/
theorem recovers_of_slotsOwned {cfg : BreakerConfig} {c : Circuit} (h : c.SlotsOwned)
    (hidle : ∀ (i : Nat) (st : Standing), c.calls[i]? = some st → st.isAdmitted = false) :
    Recovers cfg c.breaker := by
  refine Circuit.admits_eventually cfg c.breaker fun hs => ?_
  have hnone : c.currentProbes = 0 := by
    refine TaskPool.count_eq_zero_iff.mpr fun i st hi => ?_
    cases hp : st.isProbeOf c.episode with
    | false => rfl
    | true =>
        have hadm := Standing.isAdmitted_of_isProbe (Standing.isProbe_of_isProbeOf hp)
        exact absurd hadm (by simp [hidle i st hi])
  have hown := h hs
  have hpos := cfg.halfOpenMaxCalls_pos
  omega

/-- For any plan with a breaker and any interleaving of its calls: if no probe of the
running half-open episode is over without an outcome (its retry denied by the budget,
its permit refused, its future dropped), then whenever no admitted call is running the
breaker recovers. -/
theorem recovers_of_noSlotLost (plan : Plan T E) (b : CompiledBreaker E)
    (hb : plan.breaker = some b) (start : Nat) (ls : List (System.Label T E)) (s : System T E)
    (hrun : run (System.step plan) (System.init plan start) ls = some s)
    (hkept : Obeys (Circuit.step b.config) Circuit.NoSlotLost (Circuit.init b.config start)
      (breakerLabels s.trace))
    (hidle : s.idle = true) :
    Recovers b.config s.shared.breaker := by
  obtain ⟨c, hcircuit, hlinked⟩ := refines_run hb start hrun
  have howned : c.Numbered ∧ c.SlotsOwned :=
    invariant Circuit.slotsOwned_step ⟨Circuit.numbered_init _ start, fun h => by cases h⟩
      hkept hcircuit
  rw [← hlinked.breaker]
  refine recovers_of_slotsOwned howned.2 fun i st hi => ?_
  have hlt : i < s.calls.length := hlinked.length ▸ (List.getElem?_eq_some_iff.mp hi).1
  have hcall : s.calls[i]? = some s.calls[i] := List.getElem?_eq_getElem hlt
  rw [(hlinked.standing i _ st hcall hi).isAdmitted]
  simpa using List.all_eq_true.mp hidle _ (List.getElem_mem hlt)

/-- One attempt, no timeouts; one failure trips the breaker for 5 ns, one probe. -/
def fragile : Plan Nat Nat where
  retry := Retry.none
  attemptTimeout := none
  totalTimeout := none
  breaker := some
    { config := (BreakerConfig.consecutiveFailures 1).withOpenFor 5, recordWhen := none }
  concurrency := none
  onEvent := false
  maxAttempts_pos := Nat.one_pos
  timeouts_ordered := Plan.untimed_ordered

/-- Call 0 fails; 5 ns later call 1 is admitted as a probe. -/
def probing : List (System.Label Nat Nat) :=
  [.call, .poll 0 .pending, .poll 0 (.answer 0 (.error 7)), .elapse 5, .call, .poll 1 .pending]

def afterAnsweredProbe : System Nat Nat :=
  (run (System.step fragile) (System.init fragile 0)
    (probing ++ [.poll 1 (.answer 0 (.ok 1))])).get rfl

theorem recovers_of_noSlotLost_answered :
    Recovers ((BreakerConfig.consecutiveFailures 1).withOpenFor 5)
      afterAnsweredProbe.shared.breaker :=
  recovers_of_noSlotLost fragile _ rfl 0 (probing ++ [.poll 1 (.answer 0 (.ok 1))])
    afterAnsweredProbe rfl (by decide) rfl

/-- The probe's future is dropped while its operation is pending: nothing is running and the
breaker rejects forever. -/
theorem dropped_probe_never_recovers :
    ∃ s, run (System.step fragile) (System.init fragile 0)
        (probing ++ [.poll 1 .pending, .drop 1]) = some s ∧
      s.idle = true ∧
      ¬ Recovers ((BreakerConfig.consecutiveFailures 1).withOpenFor 5) s.shared.breaker := by
  refine ⟨_, rfl, rfl, ?_⟩
  rintro ⟨since, h⟩
  obtain ⟨as, has⟩ := h since (Nat.le_refl _)
  cases has

end ExecutionPolicy
