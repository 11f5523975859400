import ExecutionPolicy.Foundation.Linearization
import ExecutionPolicy.Retry.Budget

/-! # The retry budget's loops against an atomic budget

A deposit, and a withdrawal that succeeds, is done at the exchange that succeeds; a
withdrawal that is denied, at the read that finds too little. A loop goes round again only
because its exchange failed spuriously or because another call's exchange succeeded since
its last read.
-/

namespace ExecutionPolicy

open StepSystem Linearization

namespace RetryBudget

/-- The budget, one operation at a time; `deposit` returns nothing that could be false. -/
def atomic (b : RetryBudget) : AtomicObject Int BudgetOp Bool where
  apply tokens op :=
    match op with
    | .deposit => (true, b.deposited tokens)
    | .tryWithdraw =>
        match tryWithdraw tokens with
        | some tokens' => (true, tokens')
        | none => (false, tokens)
  reads _ := false
  apply_of_reads _ _ h := absurd h Bool.false_ne_true

theorem atomic_denied (b : RetryBudget) {tokens : Int} (h : tokens < scale) :
    b.atomic.apply tokens .tryWithdraw = (false, tokens) := by
  simp [atomic, tryWithdraw, h]

end RetryBudget

namespace BudgetState

variable {b : RetryBudget}

def event (b : RetryBudget) (s : BudgetState) (l : Label) :
    Option (Linearization.Event BudgetOp Bool) :=
  match l with
  | .call op => some (.call s.calls.length op)
  | .load i | .exchange i _ =>
      match (step b s l).bind fun s' => s'.calls[i]? with
      | some { op := _, stage := .returned ok } => some (.ret i ok)
      | _ => none

theorem access_cases {s s' : BudgetState} {l : Label} {i : Nat} (hl : l.reader = some i)
    (h : step b s l = some s') :
    ∃ op stage, s.calls[i]? = some { op, stage } ∧ (∀ ok, stage ≠ .returned ok) ∧
      (s' = s.reads i op ∨
        stage = .expecting s.tokens ∧
          s' = { tokens := op.next b s.tokens
                 calls := s.calls.set i { op, stage := .returned true } }) := by
  cases l with
  | call op => cases hl
  | load j =>
      cases hl
      simp only [step] at h
      split at h
      next op hi =>
        cases h
        exact ⟨op, .called, hi, by simp, .inl rfl⟩
      next => cases h
  | exchange j spurious =>
      cases hl
      simp only [step] at h
      split at h
      next op cur hi =>
        split at h
        next hcur =>
          cases h
          obtain ⟨rfl, _⟩ := hcur
          exact ⟨op, _, hi, by simp, .inr ⟨rfl, rfl⟩⟩
        next =>
          cases h
          exact ⟨op, _, hi, by simp, .inl rfl⟩
      next => cases h

theorem event_access {s s' : BudgetState} {l : Label} {i : Nat} {call : BudgetCall}
    (hl : l.reader = some i) (h : step b s l = some s') (hi : s'.calls[i]? = some call) :
    s.event b l =
      match call.stage with
      | .returned ok => some (.ret i ok)
      | _ => none := by
  obtain ⟨op, stage⟩ := call
  cases l with
  | call op' => cases hl
  | load j | exchange j spurious =>
      cases hl
      simp only [event, h, Option.bind_some, hi]
      cases stage <;> rfl

/-! ## The calls as callers of the atomic budget -/

/-- A call that has returned has its answer; any other waits. -/
def Plays : BudgetCall → Caller Int BudgetOp Bool → Prop
  | { op, stage := .returned ok }, caller => caller = .returned op ok
  | { op, stage := _ }, caller => ∃ seen, caller = .called op seen

theorem Plays.note {call : BudgetCall} {caller : Caller Int BudgetOp Bool} (h : Plays call caller)
    (tokens : Int) : Plays call (caller.note tokens) := by
  obtain ⟨op, stage⟩ := call
  cases stage with
  | called | expecting =>
      obtain ⟨seen, rfl⟩ := h
      exact ⟨_, rfl⟩
  | returned ok =>
      cases h
      rfl

theorem Plays.called {op : BudgetOp} {stage : BudgetCall.Stage} {caller : Caller Int BudgetOp Bool}
    (h : Plays { op, stage } caller) (hopen : ∀ ok, stage ≠ .returned ok) :
    ∃ seen, caller = .called op seen := by
  cases stage with
  | called | expecting => exact h
  | returned ok => exact absurd rfl (hopen ok)

/-- The counter is the atomic budget's, and the calls play its callers. -/
structure Matches (b : RetryBudget) (s : BudgetState) (t : State Int BudgetOp Bool) : Prop where
  sound : Sound b s
  tokens : t.object = s.tokens
  length : t.callers.length = s.calls.length
  plays : ∀ (i : Nat) call, s.calls[i]? = some call →
    ∃ caller, t.callers[i]? = some caller ∧ Plays call caller

section Matching

variable {s s' : BudgetState} {t : State Int BudgetOp Bool} {i : Nat} {l : Label} {op : BudgetOp}

theorem Matches.call (h : Matches b s t) (op : BudgetOp)
    (hsound : Sound b { s with calls := s.calls ++ [{ op, stage := .called }] }) :
    Matches b { s with calls := s.calls ++ [{ op, stage := .called }] }
      { t with callers := t.callers ++ [.called op [t.object]] } := by
  refine ⟨hsound, h.tokens, by simp [h.length], fun j call hj => ?_⟩
  rcases TaskPool.getElem?_snoc_cases hj with ⟨rfl, rfl⟩ | hold
  · exact ⟨.called op [t.object], by simp [← h.length], _, rfl⟩
  · obtain ⟨caller, hcaller, hplays⟩ := h.plays j call hold
    refine ⟨caller, ?_, hplays⟩
    rw [List.getElem?_append_left (List.getElem?_eq_some_iff.mp hcaller).1]
    exact hcaller

theorem Matches.goes_on (h : Matches b s t) {stage stage' : BudgetCall.Stage}
    (hi : s.calls[i]? = some { op, stage }) (hopen : ∀ ok, stage ≠ .returned ok)
    (hopen' : ∀ ok, stage' ≠ .returned ok)
    (hsound : Sound b { s with calls := s.calls.set i { op, stage := stage' } }) :
    Matches b { s with calls := s.calls.set i { op, stage := stage' } } t := by
  refine ⟨hsound, h.tokens, by simp [h.length], fun j call hj => ?_⟩
  rcases TaskPool.getElem?_set_cases hj with ⟨rfl, rfl⟩ | ⟨_, hold⟩
  · obtain ⟨caller, hcaller, hplays⟩ := h.plays i _ hi
    obtain ⟨seen, rfl⟩ := hplays.called hopen
    refine ⟨_, hcaller, ?_⟩
    cases stage' with
    | called | expecting => exact ⟨seen, rfl⟩
    | returned ok => exact absurd rfl (hopen' ok)
  · exact h.plays j call hold

theorem Matches.done (h : Matches b s t) {stage : BudgetCall.Stage} {ok : Bool} {tokens : Int}
    (hl : l.reader = some i)
    (hstep : step b s l = some { tokens, calls := s.calls.set i { op, stage := .returned ok } })
    (hi : s.calls[i]? = some { op, stage }) (hopen : ∀ ok, stage ≠ .returned ok)
    (happly : b.atomic.apply s.tokens op = (ok, tokens))
    (hsound : Sound b { tokens, calls := s.calls.set i { op, stage := .returned ok } }) :
    ∃ ms t', run b.atomic.step t ms = some t' ∧
      observe b.atomic.step AtomicObject.event t ms = (s.event b l).toList ∧
      Matches b { tokens, calls := s.calls.set i { op, stage := .returned ok } } t' := by
  obtain ⟨caller, hcaller, hplays⟩ := h.plays i _ hi
  obtain ⟨seen, rfl⟩ := hplays.called hopen
  have hcommit := b.atomic.step_commit hcaller
  rw [h.tokens, happly] at hcommit
  have hself : ((t.callers.set i (.committed op ok)).map (Caller.note tokens))[i]? =
      some (.committed op ok) := by
    rw [List.getElem?_map, TaskPool.getElem?_set_self_of_some hcaller]
    rfl
  have hret := b.atomic.step_ret (s := ⟨tokens, _⟩) hself
  refine ⟨[.commit i, .ret i], _, run_trans (run_one hcommit) (run_one hret), ?_,
    ⟨hsound, rfl, by simp [h.length], fun j call hj => ?_⟩⟩
  · rw [observe_cons _ hcommit, observe_cons _ hret, AtomicObject.event_ret hself,
      event_access hl hstep (TaskPool.getElem?_set_self_of_some hi _)]
    rfl
  · rcases TaskPool.getElem?_set_cases hj with ⟨rfl, rfl⟩ | ⟨hne, hold⟩
    · exact ⟨_, TaskPool.getElem?_set_self_of_some hself _, rfl⟩
    · obtain ⟨caller', hcaller', hplays'⟩ := h.plays j call hold
      refine ⟨_, ?_, hplays'.note tokens⟩
      rw [List.getElem?_set_ne hne, List.getElem?_map, List.getElem?_set_ne hne, hcaller']
      rfl

theorem Matches.access (h : Matches b s t) (hl : l.reader = some i)
    (hstep : step b s l = some s') (hsound : Sound b s') :
    ∃ ms t', run b.atomic.step t ms = some t' ∧
      observe b.atomic.step AtomicObject.event t ms = (s.event b l).toList ∧ Matches b s' t' := by
  obtain ⟨op, stage, hi, hopen, rfl | ⟨rfl, rfl⟩⟩ := access_cases hl hstep
  · by_cases hdenied : op = .tryWithdraw ∧ s.tokens < RetryBudget.scale
    · obtain ⟨rfl, hlow⟩ := hdenied
      have hreads : s.reads i .tryWithdraw =
          { s with calls := s.calls.set i { op := .tryWithdraw, stage := .returned false } } := by
        rw [reads, BudgetCall.read, if_pos hlow]
      rw [hreads] at hstep hsound ⊢
      exact h.done hl hstep hi hopen (b.atomic_denied hlow) hsound
    · have hread : BudgetCall.read op s.tokens = { op, stage := .expecting s.tokens } := by
        cases op with
        | deposit => rfl
        | tryWithdraw => rw [BudgetCall.read, if_neg fun hlow => hdenied ⟨rfl, hlow⟩]
      rw [reads, hread] at hstep hsound ⊢
      refine ⟨[], t, rfl, ?_, h.goes_on hi hopen (by simp) hsound⟩
      rw [event_access hl hstep (TaskPool.getElem?_set_self_of_some hi _)]
      rfl
  · refine h.done hl hstep hi hopen ?_ hsound
    rcases h.sound.next hi with ⟨rfl, hnext⟩ | ⟨rfl, hnext⟩
    · simp [RetryBudget.atomic, hnext]
    · simp [RetryBudget.atomic, hnext]

end Matching

theorem atomic_answers (hdeposit : 0 ≤ b.deposit) :
    b.atomic.Answers (step b) (event b) (Matches b) := by
  intro s l s' t h hstep
  have hsound := sound_step hdeposit s l s' h.sound hstep
  cases l with
  | call op =>
      cases hstep
      refine ⟨[.call op], _, rfl, ?_, h.call op hsound⟩
      simp [observe, AtomicObject.step, AtomicObject.event, event, h.length]
  | load i => exact h.access rfl hstep hsound
  | exchange i spurious => exact h.access rfl hstep hsound

/-! ## Contention -/

end BudgetState

/-- However the loads and exchanges of its callers interleave, a budget answers every
deposit and every withdrawal as if they were done one at a time, in an order in which a
call that returned before another was made comes first, and holds what that order leaves
of the first filling. -/
theorem budget_linearizable (ratio : F64) (burst : Nat) (ls : List BudgetState.Label)
    (s : BudgetState)
    (hrun : run (BudgetState.step (.new ratio burst)) (.init (.new ratio burst)) ls = some s) :
    ∃ order,
      (RetryBudget.new ratio burst).atomic.Linearizes (RetryBudget.new ratio burst).initialTokens
        (observe (BudgetState.step (.new ratio burst)) (BudgetState.event (.new ratio burst))
          (.init (.new ratio burst)) ls) order ∧
      (RetryBudget.new ratio burst).atomic.perform (RetryBudget.new ratio burst).initialTokens
        order = s.tokens := by
  have hinit : BudgetState.Matches (.new ratio burst) (.init (.new ratio burst))
      { object := (RetryBudget.new ratio burst).initialTokens, callers := [] } :=
    ⟨BudgetState.sound_init (RetryBudget.maxTokens_nonneg ratio burst), rfl, rfl,
      by simp [BudgetState.init]⟩
  obtain ⟨order, t, hlinear, hobject, _, hmatches⟩ :=
    (BudgetState.atomic_answers (RetryBudget.deposit_nonneg ratio burst)).linearizes hinit hrun
  exact ⟨order, hlinear, hobject.trans hmatches.tokens⟩

theorem budget_linearizable_raceForOne :
    observe (BudgetState.step (.new (.fin 0) 1)) (BudgetState.event (.new (.fin 0) 1))
        (.init (.new (.fin 0) 1)) raceForOne =
      [.call 0 .tryWithdraw, .call 1 .tryWithdraw, .ret 0 true, .ret 1 false] ∧
      ∃ order, (RetryBudget.new (.fin 0) 1).atomic.Linearizes 1000
        (observe (BudgetState.step (.new (.fin 0) 1)) (BudgetState.event (.new (.fin 0) 1))
          (.init (.new (.fin 0) 1)) raceForOne) order := by
  obtain ⟨order, hlinear, _⟩ := budget_linearizable (.fin 0) 1 raceForOne raced rfl
  exact ⟨rfl, order, hlinear⟩

end ExecutionPolicy
