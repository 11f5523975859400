import ExecutionPolicy.Core.SplitMix
import ExecutionPolicy.Foundation.Linearization

/-! # The production core's random numbers

`TokioCore` keeps the counter of a SplitMix64 in an atomic word. A call adds the increment
to it, getting the value before, and scrambles what it got on its own.
-/

namespace ExecutionPolicy

open StepSystem Linearization

def SplitMix64.atomic : AtomicObject SplitMix64 Unit UInt64 where
  apply r _ := r.nextU64
  reads _ := false
  apply_of_reads _ _ h := absurd h Bool.false_ne_true

/-- A call of `next_u64`: made, with the counter it got, or back with its answer. -/
inductive TokioCall where
  | called
  | added (counter : UInt64)
  | returned (answer : UInt64)
deriving DecidableEq, Repr

/-- The random part of a `TokioCore`, with every call made of `next_u64`. -/
structure TokioCore where
  rngState : UInt64
  calls : List TokioCall
deriving DecidableEq, Repr

namespace TokioCore

/-- The seed: the nanoseconds a fresh instant says have passed, mixed, and never zero. -/
def seed (elapsedNanos : Nat) : UInt64 := max (UInt64.ofNat elapsedNanos ^^^ 0x2545F4914F6CDD1D) 1

def new (elapsedNanos : Nat) : TokioCore := { rngState := seed elapsedNanos, calls := [] }

/-- A new call, or the next step of a call: its `fetch_add`, or its computation. -/
inductive Label where
  | call
  | goOn (i : Nat)
deriving DecidableEq, Repr

def step (c : TokioCore) : Label → Option TokioCore
  | .call => some { c with calls := c.calls ++ [.called] }
  | .goOn i =>
      match c.calls[i]? with
      | some .called =>
          some {
            rngState := c.rngState + SplitMix64.gamma
            calls := c.calls.set i (.added c.rngState) }
      | some (.added counter) =>
          some { c with calls := c.calls.set i (.returned (SplitMix64.new counter).nextU64.1) }
      | _ => none

def event (c : TokioCore) : Label → Option (Linearization.Event Unit UInt64)
  | .call => some (.call c.calls.length ())
  | .goOn i =>
      match c.calls[i]? with
      | some (.added counter) => some (.ret i (SplitMix64.new counter).nextU64.1)
      | _ => none

/-! ## The calls as callers of one generator -/

def Plays : TokioCall → Caller SplitMix64 Unit UInt64 → Prop
  | .called, caller => ∃ seen, caller = .called () seen
  | .added counter, caller => caller = .committed () (SplitMix64.new counter).nextU64.1
  | .returned answer, caller => caller = .returned () answer

theorem Plays.note {call : TokioCall} {caller : Caller SplitMix64 Unit UInt64}
    (h : Plays call caller) (r : SplitMix64) : Plays call (caller.note r) := by
  cases call with
  | called =>
      obtain ⟨seen, rfl⟩ := h
      exact ⟨_, rfl⟩
  | added | returned =>
      cases h
      rfl

/-- The atomic word is the generator's counter, and the calls play its callers. -/
structure Matches (c : TokioCore) (t : State SplitMix64 Unit UInt64) : Prop where
  counter : t.object = SplitMix64.new c.rngState
  length : t.callers.length = c.calls.length
  plays : ∀ (i : Nat) call, c.calls[i]? = some call →
    ∃ caller, t.callers[i]? = some caller ∧ Plays call caller

theorem atomic_answers : SplitMix64.atomic.Answers step event Matches := by
  intro c l c' t h hstep
  cases l with
  | call =>
      cases hstep
      refine ⟨[.call ()], _, rfl, ?_, ⟨h.counter, by simp [h.length], fun j call hj => ?_⟩⟩
      · simp [observe, AtomicObject.step, AtomicObject.event, event, h.length]
      · rcases TaskPool.getElem?_snoc_cases hj with ⟨rfl, rfl⟩ | hold
        · exact ⟨.called () [t.object], by simp [← h.length], _, rfl⟩
        · obtain ⟨caller, hcaller, hplays⟩ := h.plays j call hold
          refine ⟨caller, ?_, hplays⟩
          rw [List.getElem?_append_left (List.getElem?_eq_some_iff.mp hcaller).1]
          exact hcaller
  | goOn i =>
      simp only [step] at hstep
      split at hstep
      next hi =>
        -- the `fetch_add` is where the answer is settled
        rw [Option.some.injEq] at hstep
        subst hstep
        obtain ⟨caller, hcaller, seen, rfl⟩ := h.plays i _ hi
        have hcommit := SplitMix64.atomic.step_commit hcaller
        refine ⟨[.commit i], _, run_one hcommit, ?_, ⟨?_, by simp [h.length], fun j call hj => ?_⟩⟩
        · rw [observe_cons [] hcommit, event, hi]
          rfl
        · rw [h.counter]
          rfl
        · rcases TaskPool.getElem?_set_cases hj with ⟨rfl, rfl⟩ | ⟨hne, hold⟩
          · refine ⟨_, ?_, rfl⟩
            rw [List.getElem?_map, TaskPool.getElem?_set_self_of_some hcaller, h.counter]
            rfl
          · obtain ⟨caller', hcaller', hplays'⟩ := h.plays j call hold
            refine ⟨_, ?_, hplays'.note t.object.nextU64.2⟩
            rw [List.getElem?_map, List.getElem?_set_ne hne, hcaller']
            rfl
      next counter hi =>
        rw [Option.some.injEq] at hstep
        subst hstep
        obtain ⟨caller, hcaller, rfl⟩ := h.plays i _ hi
        have hret := SplitMix64.atomic.step_ret hcaller
        refine ⟨[.ret i], _, run_one hret, ?_, ⟨h.counter, by simp [h.length], fun j call hj => ?_⟩⟩
        · rw [observe_cons [] hret, AtomicObject.event_ret hcaller, event, hi]
          rfl
        · rcases TaskPool.getElem?_set_cases hj with ⟨rfl, rfl⟩ | ⟨hne, hold⟩
          · exact ⟨_, TaskPool.getElem?_set_self_of_some hcaller _, rfl⟩
          · obtain ⟨caller', hcaller', hplays'⟩ := h.plays j call hold
            exact ⟨caller', by rw [List.getElem?_set_ne hne, hcaller'], hplays'⟩
      next => cases hstep

end TokioCore

theorem SplitMix64.legal_answers (r : SplitMix64) (order : List (Turn Unit UInt64))
    (h : SplitMix64.atomic.Legal r order) :
    order.map Turn.answer = (List.range order.length).map r.answer ∧
      SplitMix64.atomic.perform r order = r.after order.length := by
  induction order using List.reverseRecOn with
  | nil => exact ⟨rfl, rfl⟩
  | append_singleton order t ih =>
      obtain ⟨hbefore, hlast, _⟩ := (AtomicObject.legal_append r order [t]).mp h
      obtain ⟨hanswers, hperform⟩ := ih hbefore
      rw [hperform] at hlast
      constructor
      · rw [List.map_append, hanswers, List.length_append, List.length_singleton,
          List.range_succ, List.map_append, List.map_singleton, List.map_singleton, ← hlast]
        rfl
      · rw [AtomicObject.perform_append, hperform, List.length_append, List.length_singleton,
          r.after_succ]
        rfl

/-- However the calls of `next_u64` on one `TokioCore` interleave, their answers are those
of one SplitMix64 with the core's seed, handed out in an order in which a call that
returned before another was made comes first; and no two of up to 2^64 calls get the same
answer. -/
theorem tokio_core_draws (elapsedNanos : Nat) (ls : List TokioCore.Label) (c : TokioCore)
    (hrun : run TokioCore.step (.new elapsedNanos) ls = some c) :
    (∃ order, SplitMix64.atomic.Linearizes (.new (TokioCore.seed elapsedNanos))
        (observe TokioCore.step TokioCore.event (.new elapsedNanos) ls) order ∧
      order.map Turn.answer =
        (List.range order.length).map (SplitMix64.new (TokioCore.seed elapsedNanos)).answer) ∧
    (c.calls.length ≤ 2 ^ 64 → ∀ i j r,
      .ret i r ∈ observe TokioCore.step TokioCore.event (.new elapsedNanos) ls →
      .ret j r ∈ observe TokioCore.step TokioCore.event (.new elapsedNanos) ls → i = j) := by
  have hinit : TokioCore.Matches (.new elapsedNanos)
      { object := .new (TokioCore.seed elapsedNanos), callers := [] } :=
    ⟨rfl, rfl, by simp [TokioCore.new]⟩
  obtain ⟨order, t, hlinear, _, hknown, hmatches⟩ :=
    TokioCore.atomic_answers.linearizes hinit hrun
  have hanswers := (SplitMix64.legal_answers _ order hlinear.legal).1
  refine ⟨⟨order, hlinear, hanswers⟩, fun hcalls i j r hi hj => ?_⟩
  have hlength : order.length ≤ 2 ^ 64 :=
    (hlinear.length_le hknown).trans (hmatches.length ▸ hcalls)
  obtain ⟨p, q, hp, hq, hsame⟩ := hlinear.turns hi hj
  have hplace : ∀ p, order[p]?.map Turn.answer = some r →
      p < 2 ^ 64 ∧ (SplitMix64.new (TokioCore.seed elapsedNanos)).answer p = r := by
    intro p hp
    rw [← List.getElem?_map, hanswers, List.getElem?_map, Option.map_eq_some_iff] at hp
    obtain ⟨k, hk, rfl⟩ := hp
    obtain ⟨hlt, rfl⟩ := List.getElem?_eq_some_iff.mp hk
    simp only [List.length_range] at hlt
    exact ⟨by omega, by rw [List.getElem_range]⟩
  obtain ⟨hp', hpr⟩ := hplace p hp
  obtain ⟨hq', hqr⟩ := hplace q hq
  exact hsame ((SplitMix64.answer_bijOn _).injOn hp' hq' (hpr.trans hqr.symm))

/-- Two calls race: the one made first adds second. -/
def drawRace : List TokioCore.Label := [.call, .call, .goOn 1, .goOn 0, .goOn 0, .goOn 1]

theorem tokio_core_draws_race :
    ∃ order, SplitMix64.atomic.Linearizes (.new (TokioCore.seed 0))
      [.call 0 (), .call 1 (), .ret 0 ((SplitMix64.new (TokioCore.seed 0)).answer 1),
        .ret 1 ((SplitMix64.new (TokioCore.seed 0)).answer 0)] order := by
  have hrun : run TokioCore.step (.new 0) drawRace = some
      { rngState := ((SplitMix64.new (TokioCore.seed 0)).after 2).state
        calls := [.returned ((SplitMix64.new (TokioCore.seed 0)).answer 1),
          .returned ((SplitMix64.new (TokioCore.seed 0)).answer 0)] } := by rfl
  obtain ⟨⟨order, hlinear, _⟩, _⟩ := tokio_core_draws 0 drawRace _ hrun
  exact ⟨order, hlinear⟩

end ExecutionPolicy
