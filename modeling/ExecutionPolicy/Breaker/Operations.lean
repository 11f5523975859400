import ExecutionPolicy.Breaker.Runtime
import ExecutionPolicy.Foundation.History

/-! # Operations on a breaker

Every operation of a breaker holds its lock from its first look at the bookkeeping to its
last, so what any callers do is one sequence of operations, at instants in any order. What
a poller reads of the breaker against what its gate answers, and when a consecutive breaker
trips, hold after every such sequence.
-/

namespace ExecutionPolicy

open History

/-- An operation on a breaker, with the clock reading it is given. -/
inductive BreakerOp where
  | gate (now : Nat)
  | success (now : Nat)
  | failure (now : Nat)
  | stateAt (now : Nat)
  | coolingUntil (now : Nat)
deriving DecidableEq, Repr

namespace BreakerOp

def isPoll : BreakerOp → Bool
  | stateAt _ => true
  | coolingUntil _ => true
  | _ => false

/-- The outcome an operation records: whether it is a failure. -/
def outcome? : BreakerOp → Option Bool
  | success _ => some false
  | failure _ => some true
  | _ => none

end BreakerOp

namespace BreakerRuntime

/-- The breaker after one operation; `state_at` and `cooling_until` take the lock and
give it back. -/
def apply (cfg : BreakerConfig) (b : BreakerRuntime) : BreakerOp → BreakerRuntime
  | .gate now => (b.gate cfg now).2
  | .success now => (b.recordSuccess cfg now).2
  | .failure now => (b.recordFailure cfg now).2
  | .stateAt _ => b
  | .coolingUntil _ => b

def exec (cfg : BreakerConfig) (ops : List BreakerOp) : BreakerRuntime :=
  replay (apply cfg) (new cfg.trip) ops

variable {cfg : BreakerConfig} {b : BreakerRuntime}

/-! ## Polling and gating -/

/-- An open breaker knows the end of its cooldown, and no more slots are counted as taken
than there are. -/
structure Coherent (cfg : BreakerConfig) (b : BreakerRuntime) : Prop where
  cooldown : b.state = .open → ∃ t, b.openUntil = some t
  slots : b.halfOpenInFlight ≤ cfg.halfOpenMaxCalls

theorem coherent_new (cfg : BreakerConfig) : (new cfg.trip).Coherent cfg :=
  ⟨nofun, Nat.zero_le _⟩

theorem coherent_trip (cfg : BreakerConfig) (b : BreakerRuntime) (now : Nat) :
    (b.trip cfg now).Coherent cfg := ⟨fun _ => ⟨_, rfl⟩, Nat.zero_le _⟩

theorem Coherent.gate (h : b.Coherent cfg) (now : Nat) : (b.gate cfg now).2.Coherent cfg := by
  rcases hg : b.gate cfg now with ⟨_ | as, b'⟩
  · rw [(gate_error_cases hg).1]
    exact h
  · rcases gate_ok_cases hg with ⟨_, _, rfl⟩ | ⟨_, _, _, rfl⟩ | ⟨hs, hslot, _, rfl⟩
    · exact h
    · exact ⟨nofun, cfg.halfOpenMaxCalls_pos⟩
    · exact ⟨fun hopen => h.cooldown hopen, hslot⟩

theorem Coherent.recordSuccess (h : b.Coherent cfg) (now : Nat) :
    (b.recordSuccess cfg now).2.Coherent cfg := by
  have hslots := h.slots
  by_cases hs : b.state = .halfOpen
  · rw [recordSuccess_of_halfOpen hs]
    dsimp only
    split
    · exact ⟨nofun, Nat.zero_le _⟩
    · exact ⟨fun hopen => h.cooldown hopen, Nat.le_trans (Nat.sub_le _ _) hslots⟩
  · rw [recordSuccess_of_not_halfOpen hs]
    exact ⟨h.cooldown, hslots⟩

theorem Coherent.recordFailure (h : b.Coherent cfg) (now : Nat) :
    (b.recordFailure cfg now).2.Coherent cfg := by
  by_cases hs : b.state = .halfOpen
  · rw [recordFailure_of_halfOpen hs]
    exact coherent_trip cfg _ now
  · rw [recordFailure_of_not_halfOpen hs]
    split
    · exact coherent_trip cfg _ now
    · refine ⟨fun hopen => ?_, ?_⟩
      · rw [shouldTrip_openUntil]
        exact h.cooldown (by simpa using hopen)
      · rw [shouldTrip_halfOpenInFlight]
        exact h.slots

theorem Coherent.apply (op : BreakerOp) (h : b.Coherent cfg) : (b.apply cfg op).Coherent cfg := by
  cases op with
  | gate now => exact h.gate now
  | success now => exact h.recordSuccess now
  | failure now => exact h.recordFailure now
  | stateAt now => exact h
  | coolingUntil now => exact h

theorem coherent_exec (cfg : BreakerConfig) (ops : List BreakerOp) :
    (exec cfg ops).Coherent cfg :=
  replay_invariant (fun _ op h => h.apply op) (coherent_new cfg) ops

theorem coolingUntil_eq_some {now t : Nat} :
    b.coolingUntil now = some t ↔ b.state = .open ∧ b.openUntil = some t ∧ now < t := by
  unfold coolingUntil
  by_cases hs : b.state = .open
  · simp [hs, Option.filter_eq_some_iff]
  · simp [hs]

theorem Coherent.stateAt_eq_open (h : b.Coherent cfg) (now : Nat) :
    b.stateAt now = .open ↔ ∃ t, b.coolingUntil now = some t := by
  simp only [coolingUntil_eq_some]
  unfold stateAt
  cases hs : b.state with
  | closed => simp
  | halfOpen => simp
  | «open» =>
      obtain ⟨t, ht⟩ := h.cooldown hs
      simp [ht]

/-- A cooling breaker turns calls away up to the end it names and lets a probe in from
then on. -/
theorem gate_of_coolingUntil {now t : Nat} (h : b.coolingUntil now = some t) (u : Nat) :
    (b.gate cfg u).1 = if u < t then .error () else .ok .halfOpen := by
  obtain ⟨hopen, ht, _⟩ := coolingUntil_eq_some.mp h
  have hready : b.ready u = decide (t ≤ u) := by simp [ready, ht]
  by_cases hu : u < t
  · rw [gate_of_cooling hopen (by simpa [hready] using hu), if_pos hu]
  · rw [gate_of_ready hopen (by simpa [hready] using hu), if_neg hu]

/-- A breaker that does not report OPEN turns calls away for want of a slot only. -/
theorem Coherent.full_of_rejected (h : b.Coherent cfg) {now : Nat} (hstate : b.stateAt now ≠ .open)
    (hrejected : (b.gate cfg now).1 = .error ()) :
    b.state = .halfOpen ∧ b.halfOpenInFlight = cfg.halfOpenMaxCalls := by
  have hgate : b.gate cfg now = (.error (), (b.gate cfg now).2) := Prod.ext hrejected rfl
  obtain ⟨_, ⟨hopen, hready⟩ | ⟨hhalf, hfull⟩⟩ := gate_error_cases hgate
  · obtain ⟨t, ht⟩ := h.cooldown hopen
    refine absurd ?_ hstate
    simp only [ready, ht, Option.map_some, Option.getD_some, decide_eq_false_iff_not] at hready
    simp [stateAt, hopen, ht, hready]
  · exact ⟨hhalf, Nat.le_antisymm h.slots hfull⟩

/-- Sequences with the same gates and outcomes leave the same breaker, whatever was polled. -/
theorem exec_filter_isPoll (cfg : BreakerConfig) (ops : List BreakerOp) :
    exec cfg (ops.filter fun op => !op.isPoll) = exec cfg ops := by
  unfold exec
  induction ops using List.reverseRecOn with
  | nil => rfl
  | append_singleton ops op ih =>
      rw [List.filter_append, replay_append, replay_append, ih]
      cases op <;> rfl

end BreakerRuntime

/-- After any sequence of gates, outcomes and polls, at any instant: the breaker reports
OPEN exactly when it names an end of its cooldown, which is then still to come; up to that
end its gate rejects and from it on it admits a probe; when the breaker does not report
OPEN, its gate rejects only a call for which all probe slots are counted as taken; and
polling changes nothing. -/
theorem polling_agrees_with_gating (cfg : BreakerConfig) (ops : List BreakerOp) (now : Nat) :
    ((BreakerRuntime.exec cfg ops).stateAt now = .open ↔
      ∃ t, (BreakerRuntime.exec cfg ops).coolingUntil now = some t) ∧
    (∀ t, (BreakerRuntime.exec cfg ops).coolingUntil now = some t →
      now < t ∧
      (∀ u, now ≤ u → u < t → ((BreakerRuntime.exec cfg ops).gate cfg u).1 = .error ()) ∧
      (∀ u, t ≤ u → ((BreakerRuntime.exec cfg ops).gate cfg u).1 = .ok .halfOpen)) ∧
    ((BreakerRuntime.exec cfg ops).stateAt now ≠ .open →
      ((BreakerRuntime.exec cfg ops).gate cfg now).1 = .error () →
      (BreakerRuntime.exec cfg ops).state = .halfOpen ∧
        (BreakerRuntime.exec cfg ops).halfOpenInFlight = cfg.halfOpenMaxCalls) ∧
    BreakerRuntime.exec cfg (ops.filter fun op => !op.isPoll) = BreakerRuntime.exec cfg ops := by
  have h := BreakerRuntime.coherent_exec cfg ops
  refine ⟨h.stateAt_eq_open now, fun t ht => ⟨?_, fun u _ hu => ?_, fun u hu => ?_⟩,
    h.full_of_rejected, BreakerRuntime.exec_filter_isPoll cfg ops⟩
  · exact (BreakerRuntime.coolingUntil_eq_some.mp ht).2.2
  · rw [BreakerRuntime.gate_of_coolingUntil ht, if_pos hu]
  · rw [BreakerRuntime.gate_of_coolingUntil ht, if_neg (Nat.not_lt_of_le hu)]

/-! ## Consecutive failures -/

/-- A breaker and the outcomes recorded since it last became CLOSED. -/
structure Watched where
  breaker : BreakerRuntime
  outcomes : List Bool

namespace Watched

def next (cfg : BreakerConfig) (w : Watched) (op : BreakerOp) : Watched where
  breaker := w.breaker.apply cfg op
  outcomes :=
    if (w.breaker.apply cfg op).state = .closed ∧ w.breaker.state ≠ .closed then []
    else w.outcomes ++ op.outcome?.toList

/-- A new breaker watched through a sequence of operations. -/
def exec (cfg : BreakerConfig) (ops : List BreakerOp) : Watched :=
  replay (next cfg) ⟨.new cfg.trip, []⟩ ops

theorem exec_breaker (cfg : BreakerConfig) (ops : List BreakerOp) :
    (exec cfg ops).breaker = BreakerRuntime.exec cfg ops := by
  induction ops using List.reverseRecOn with
  | nil => rfl
  | append_singleton ops op ih =>
      have hwatched : exec cfg (ops ++ [op]) = (exec cfg ops).next cfg op := replay_append _ _ _
      have hplain : BreakerRuntime.exec cfg (ops ++ [op]) =
          (BreakerRuntime.exec cfg ops).apply cfg op := replay_append _ _ _
      rw [hwatched, hplain, ← ih]
      rfl

/-- In CLOSED the counter is the number of failures at the end of what was recorded since
the breaker became CLOSED. -/
def Counted (w : Watched) : Prop :=
  w.breaker.state = .closed →
    w.breaker.consecutiveFailures = (w.outcomes.rtakeWhile id).length

end Watched

/-- The outcomes recorded since the breaker last became CLOSED, `true` for a failure. -/
def outcomesSinceClosed (cfg : BreakerConfig) (ops : List BreakerOp) : List Bool :=
  (Watched.exec cfg ops).outcomes

theorem replicate_suffix_iff (k : Nat) (outs : List Bool) :
    List.replicate k true <:+ outs ↔ k ≤ (outs.rtakeWhile id).length := by
  constructor
  · rintro ⟨earlier, rfl⟩
    induction k with
    | zero => exact Nat.zero_le _
    | succ k ih =>
        rw [List.replicate_succ', ← List.append_assoc, List.rtakeWhile_concat_pos _ _ _ rfl,
          List.length_append]
        exact Nat.succ_le_succ ih
  · intro hk
    have hall : outs.rtakeWhile id = List.replicate (outs.rtakeWhile id).length true :=
      List.eq_replicate_of_mem fun x hx => List.mem_rtakeWhile_imp hx
    refine List.IsSuffix.trans ?_ (List.rtakeWhile_suffix id outs)
    refine ⟨List.replicate ((outs.rtakeWhile id).length - k) true, ?_⟩
    rw [← List.replicate_add, Nat.sub_add_cancel hk]
    exact hall.symm

namespace BreakerRuntime

variable {cfg : BreakerConfig} {b : BreakerRuntime}

theorem consecutiveFailures_of_closes {op : BreakerOp} (hs : b.state ≠ .closed)
    (hclosed : (b.apply cfg op).state = .closed) : (b.apply cfg op).consecutiveFailures = 0 := by
  cases op with
  | gate now =>
      simp only [apply] at hclosed
      rcases hg : b.gate cfg now with ⟨_ | as, b'⟩
      · rw [hg, (gate_error_cases hg).1] at hclosed
        exact absurd hclosed hs
      · rcases gate_ok_cases hg with ⟨hwas, _⟩ | ⟨_, _, _, rfl⟩ | ⟨hwas, _, _, rfl⟩
        · exact absurd hwas hs
        · rw [hg] at hclosed
          cases hclosed
        · rw [hg] at hclosed
          exact absurd hclosed hs
  | success now =>
      simp only [apply] at hclosed ⊢
      by_cases hhalf : b.state = .halfOpen
      · rw [recordSuccess_of_halfOpen hhalf] at hclosed ⊢
        dsimp only at hclosed ⊢
        split at hclosed
        next hmax =>
          rw [if_pos hmax]
          rfl
        next => exact absurd hclosed hs
      · rw [recordSuccess_of_not_halfOpen hhalf]
  | failure now =>
      simp only [apply] at hclosed
      by_cases hhalf : b.state = .halfOpen
      · rw [recordFailure_of_halfOpen hhalf] at hclosed
        cases hclosed
      · rw [recordFailure_of_not_halfOpen hhalf] at hclosed
        split at hclosed
        · cases hclosed
        · exact absurd (by simpa using hclosed) hs
  | stateAt now => exact absurd hclosed hs
  | coolingUntil now => exact absurd hclosed hs

theorem recordFailure_of_consecutive {n : Nat} (htrip : cfg.trip = .consecutive n)
    (hs : b.state = .closed) (now : Nat) : b.recordFailure cfg now =
      if n ≤ b.consecutiveFailures + 1 then (some .open, (b.countFailure now).trip cfg now)
      else (none, b.countFailure now) := by
  have htest : (b.countFailure now).shouldTrip cfg now =
      (decide (n ≤ b.consecutiveFailures + 1), b.countFailure now) := by
    simp only [shouldTrip, htrip]
    rfl
  rw [recordFailure_of_not_halfOpen (by simp [hs]), htest]
  by_cases hn : n ≤ b.consecutiveFailures + 1 <;> simp [hn]

theorem apply_of_closed {op : BreakerOp} (hs : b.state = .closed)
    (hop : op.outcome? ≠ some true) : (b.apply cfg op).state = .closed := by
  cases op with
  | gate now => simp [apply, gate_of_closed hs, hs]
  | success now =>
      rw [apply, recordSuccess_of_not_halfOpen (by simp [hs])]
      exact hs
  | failure now => exact absurd rfl hop
  | stateAt now => exact hs
  | coolingUntil now => exact hs

end BreakerRuntime

theorem Watched.counted_next {cfg : BreakerConfig} {n : Nat} (htrip : cfg.trip = .consecutive n)
    (w : Watched) (op : BreakerOp) (h : w.Counted) : (w.next cfg op).Counted := by
  intro hclosed
  by_cases hs : w.breaker.state = .closed
  · have hcount := h hs
    have houts : (w.next cfg op).outcomes = w.outcomes ++ op.outcome?.toList :=
      if_neg fun hnot => hnot.2 hs
    rw [houts]
    cases op with
    | success now =>
        have hzero : ((w.next cfg (.success now)).breaker).consecutiveFailures = 0 := by
          simp [next, BreakerRuntime.apply,
            BreakerRuntime.recordSuccess_of_not_halfOpen (b := w.breaker) (by simp [hs])]
        rw [hzero]
        simp [BreakerOp.outcome?]
    | failure now =>
        have hrun := BreakerRuntime.recordFailure_of_consecutive htrip hs now
        have hbreaker : (w.next cfg (.failure now)).breaker = (w.breaker.recordFailure cfg now).2 :=
          rfl
        rw [hbreaker, hrun] at hclosed ⊢
        split at hclosed
        next => cases hclosed
        next hlt =>
          rw [if_neg hlt]
          simp [BreakerOp.outcome?, BreakerRuntime.countFailure, hcount]
    | gate now =>
        simpa [next, BreakerRuntime.apply, BreakerRuntime.gate_of_closed hs, BreakerOp.outcome?]
          using hcount
    | stateAt now | coolingUntil now =>
        simpa [next, BreakerRuntime.apply, BreakerOp.outcome?] using hcount
  · have houts : (w.next cfg op).outcomes = [] := if_pos ⟨hclosed, hs⟩
    rw [houts]
    exact BreakerRuntime.consecutiveFailures_of_closes hs hclosed

/-- After any sequence of operations, at any instants and in any states, a failure recorded
in CLOSED opens a consecutive breaker with threshold `n` exactly when the last `n - 1`
outcomes recorded since the breaker became CLOSED are failures, and nothing but a failure
moves a breaker from CLOSED to OPEN. -/
theorem consecutive_trip_exact (cfg : BreakerConfig) (n : Nat) (htrip : cfg.trip = .consecutive n)
    (ops : List BreakerOp) (hclosed : (BreakerRuntime.exec cfg ops).state = .closed) :
    (∀ now, ((BreakerRuntime.exec cfg ops).recordFailure cfg now).2.state = .open ↔
      List.replicate (n - 1) true <:+ outcomesSinceClosed cfg ops) ∧
    ∀ op : BreakerOp, op.outcome? ≠ some true →
      ((BreakerRuntime.exec cfg ops).apply cfg op).state ≠ .open := by
  have hcounted : (Watched.exec cfg ops).Counted :=
    replay_invariant (Watched.counted_next htrip) (fun _ => rfl) ops
  have hcount := hcounted (by rw [Watched.exec_breaker]; exact hclosed)
  rw [Watched.exec_breaker] at hcount
  constructor
  · intro now
    rw [BreakerRuntime.recordFailure_of_consecutive htrip hclosed, replicate_suffix_iff,
      outcomesSinceClosed, ← hcount]
    split
    next hle => exact iff_of_true rfl (by omega)
    next hlt =>
      refine iff_of_false ?_ (by omega)
      rw [show ((BreakerRuntime.exec cfg ops).countFailure now).state = .closed from hclosed]
      decide
  · intro op hop
    rw [BreakerRuntime.apply_of_closed hclosed hop]
    decide

theorem consecutive_trip_exact_second :
    ((BreakerRuntime.exec (.consecutiveFailures 2) [.success 0, .failure 1]).recordFailure
      (.consecutiveFailures 2) 2).2.state = .open :=
  ((consecutive_trip_exact (.consecutiveFailures 2) 2 rfl [.success 0, .failure 1] rfl).1 2).mpr
    (by decide)

end ExecutionPolicy
