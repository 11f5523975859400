import ExecutionPolicy.Foundation.StepSystem
import ExecutionPolicy.Foundation.TaskPool
import ExecutionPolicy.Retry.Policy

/-! # The retry budget under concurrent calls

`deposit` and `try_withdraw` as loops around one atomic counter. A step is one load or
one weak compare-exchange of one call, in any order; what a call computes from the value
it read, up to its next access, belongs to the step.
-/

namespace ExecutionPolicy

open StepSystem

namespace RetryBudget

theorem deposit_nonneg (ratio : F64) (burst : Nat) : 0 ≤ (new ratio burst).deposit :=
  (F64.toI64_ratio_bounds ratio).1

theorem deposit_le (ratio : F64) (burst : Nat) : (new ratio burst).deposit ≤ 2000 :=
  (F64.toI64_ratio_bounds ratio).2

theorem maxTokens_nonneg (ratio : F64) (burst : Nat) : 0 ≤ (new ratio burst).maxTokens := by
  simp only [new, scale]
  omega

end RetryBudget

inductive BudgetOp where
  | deposit
  | tryWithdraw
deriving DecidableEq, Repr

namespace BudgetOp

def next (b : RetryBudget) (cur : Int) : BudgetOp → Int
  | deposit => b.deposited cur
  | tryWithdraw => cur - RetryBudget.scale

end BudgetOp

/-- Where a call is: before its load, about to exchange the value it read, or back with
an answer. -/
inductive BudgetCall.Stage where
  | called
  | expecting (cur : Int)
  | returned (ok : Bool)
deriving DecidableEq, Repr

structure BudgetCall where
  op : BudgetOp
  stage : BudgetCall.Stage
deriving DecidableEq, Repr

namespace BudgetCall

/-- The call at the head of its loop with the value it read. -/
def read (op : BudgetOp) (cur : Int) : BudgetCall :=
  match op with
  | .deposit => { op, stage := .expecting cur }
  | .tryWithdraw =>
      if cur < RetryBudget.scale then { op, stage := .returned false }
      else { op, stage := .expecting cur }

def isDeposit (c : BudgetCall) : Bool := decide (c = { op := .deposit, stage := .returned true })

def isWithdrawal (c : BudgetCall) : Bool :=
  decide (c = { op := .tryWithdraw, stage := .returned true })

end BudgetCall

/-- The counter that all clones share, with every call made on it. -/
structure BudgetState where
  tokens : Int
  calls : List BudgetCall
deriving DecidableEq, Repr

namespace BudgetState

inductive Label where
  | call (op : BudgetOp)
  | load (i : Nat)
  /-- A weak exchange may fail on the value it expects. -/
  | exchange (i : Nat) (spurious : Bool)
deriving DecidableEq, Repr

def Label.reader : Label → Option Nat
  | call _ => none
  | load i => some i
  | exchange i _ => some i

def init (b : RetryBudget) : BudgetState := { tokens := b.initialTokens, calls := [] }

def reads (s : BudgetState) (i : Nat) (op : BudgetOp) : BudgetState :=
  { s with calls := s.calls.set i (.read op s.tokens) }

def step (b : RetryBudget) (s : BudgetState) : Label → Option BudgetState
  | .call op => some { s with calls := s.calls ++ [{ op, stage := .called }] }
  | .load i =>
      match s.calls[i]? with
      | some { op, stage := .called } => some (s.reads i op)
      | _ => none
  | .exchange i spurious =>
      match s.calls[i]? with
      | some { op, stage := .expecting cur } =>
          if cur = s.tokens ∧ spurious = false then
            some
              { tokens := op.next b cur
                calls := s.calls.set i { op, stage := .returned true } }
          else some (s.reads i op)
      | _ => none

def deposits (s : BudgetState) : Nat := TaskPool.count BudgetCall.isDeposit s.calls

def withdrawals (s : BudgetState) : Nat := TaskPool.count BudgetCall.isWithdrawal s.calls

variable {b : RetryBudget}

/-- A call is made; or call `i`, under way, reads the counter; or it finds what it
expects and writes. -/
theorem step_cases {s s' : BudgetState} {l : Label} (h : step b s l = some s') :
    (∃ op, s' = { s with calls := s.calls ++ [{ op, stage := .called }] } ∧ l = .call op) ∨
      (∃ i op stage, l.reader = some i ∧ s.calls[i]? = some { op, stage } ∧
        (∀ ok, stage ≠ .returned ok) ∧ s' = s.reads i op) ∨
      ∃ i op, s.calls[i]? = some { op, stage := .expecting s.tokens } ∧
        s' = { tokens := op.next b s.tokens
               calls := s.calls.set i { op, stage := .returned true } } := by
  cases l with
  | call op =>
      cases h
      exact .inl ⟨op, rfl, rfl⟩
  | load i =>
      simp only [step] at h
      split at h
      next op hi =>
        cases h
        exact .inr (.inl ⟨i, op, .called, rfl, hi, by simp, rfl⟩)
      next => cases h
  | exchange i spurious =>
      simp only [step] at h
      split at h
      next op cur hi =>
        split at h
        next hcur =>
          cases h
          obtain ⟨rfl, _⟩ := hcur
          exact .inr (.inr ⟨i, op, hi, rfl⟩)
        next =>
          cases h
          exact .inr (.inl ⟨i, op, .expecting cur, rfl, hi, by simp, rfl⟩)
      next => cases h

/-! ## The account -/

/-- The counter stays between empty and full, every withdrawal is paid for by the first
filling or by a deposit, and a call about to withdraw read enough. -/
structure Sound (b : RetryBudget) (s : BudgetState) : Prop where
  nonneg : 0 ≤ s.tokens
  le_max : s.tokens ≤ b.maxTokens
  accounted : s.tokens + s.withdrawals * RetryBudget.scale ≤ b.maxTokens + s.deposits * b.deposit
  able : ∀ (i : Nat) (cur : Int),
    s.calls[i]? = some { op := .tryWithdraw, stage := .expecting cur } → RetryBudget.scale ≤ cur

theorem sound_init (hmax : 0 ≤ b.maxTokens) : Sound b (init b) := by
  refine ⟨hmax, Int.le_refl _, ?_, ?_⟩
  · simp [init, RetryBudget.initialTokens, withdrawals, deposits]
  · intro i cur hi
    simp [init] at hi

/-- A call under way counts for nothing; whatever becomes of it counts as it is. -/
theorem counts_set {s : BudgetState} {i : Nat} {op : BudgetOp} {stage : BudgetCall.Stage}
    (hi : s.calls[i]? = some { op, stage }) (hopen : ∀ ok, stage ≠ .returned ok)
    (tokens : Int) (call : BudgetCall) :
    ({ tokens, calls := s.calls.set i call } : BudgetState).deposits =
        s.deposits + (if call.isDeposit then 1 else 0) ∧
      ({ tokens, calls := s.calls.set i call } : BudgetState).withdrawals =
        s.withdrawals + (if call.isWithdrawal then 1 else 0) := by
  have hdeposit := TaskPool.count_set BudgetCall.isDeposit hi call
  have hwithdrawal := TaskPool.count_set BudgetCall.isWithdrawal hi call
  have hstage : stage ≠ .returned true := hopen true
  simp only [BudgetCall.isDeposit, BudgetCall.isWithdrawal, BudgetCall.mk.injEq, hstage, and_false,
    decide_false, Bool.false_eq_true, if_false, Nat.add_zero] at hdeposit hwithdrawal
  exact ⟨hdeposit, hwithdrawal⟩

theorem read_uncounted (op : BudgetOp) (cur : Int) :
    (BudgetCall.read op cur).isDeposit = false ∧ (BudgetCall.read op cur).isWithdrawal = false := by
  cases op with
  | deposit => exact ⟨rfl, rfl⟩
  | tryWithdraw =>
      unfold BudgetCall.read
      dsimp only
      split <;> exact ⟨rfl, rfl⟩

theorem read_able {op : BudgetOp} {cur cur' : Int}
    (h : BudgetCall.read op cur = { op := .tryWithdraw, stage := .expecting cur' }) :
    RetryBudget.scale ≤ cur' := by
  cases op with
  | deposit => cases h
  | tryWithdraw =>
      unfold BudgetCall.read at h
      dsimp only at h
      split at h
      next => cases h
      next henough =>
        cases h
        omega

theorem Sound.reads {s : BudgetState} (h : Sound b s) {i : Nat} {op : BudgetOp}
    {stage : BudgetCall.Stage} (hi : s.calls[i]? = some { op, stage })
    (hopen : ∀ ok, stage ≠ .returned ok) : Sound b (s.reads i op) := by
  obtain ⟨hdeposits, hwithdrawals⟩ := counts_set hi hopen s.tokens (.read op s.tokens)
  obtain ⟨hno, hno'⟩ := read_uncounted op s.tokens
  simp only [hno, hno', Bool.false_eq_true, if_false, Nat.add_zero] at hdeposits hwithdrawals
  refine ⟨h.nonneg, h.le_max, ?_, fun j cur hj => ?_⟩
  · rw [BudgetState.reads, hdeposits, hwithdrawals]
    exact h.accounted
  · rcases TaskPool.getElem?_set_cases hj with ⟨_, heq⟩ | ⟨_, hold⟩
    · exact read_able heq.symm
    · exact h.able j cur hold

/-- What a successful exchange writes is what the operation makes of the counter. -/
theorem Sound.next {s : BudgetState} (h : Sound b s) {i : Nat} {op : BudgetOp}
    (hi : s.calls[i]? = some { op, stage := .expecting s.tokens }) :
    (op = .deposit ∧ op.next b s.tokens = b.deposited s.tokens) ∨
      (op = .tryWithdraw ∧ RetryBudget.tryWithdraw s.tokens = some (op.next b s.tokens)) := by
  cases op with
  | deposit => exact .inl ⟨rfl, rfl⟩
  | tryWithdraw =>
      have henough := h.able i s.tokens hi
      exact .inr ⟨rfl, by simp [RetryBudget.tryWithdraw, BudgetOp.next, Int.not_lt.mpr henough]⟩

theorem Sound.writes (hdeposit : 0 ≤ b.deposit) {s : BudgetState} (h : Sound b s) {i : Nat}
    {op : BudgetOp} (hi : s.calls[i]? = some { op, stage := .expecting s.tokens }) :
    Sound b
      { tokens := op.next b s.tokens
        calls := s.calls.set i { op, stage := .returned true } } := by
  obtain ⟨hdeposits, hwithdrawals⟩ := counts_set hi (by simp) (op.next b s.tokens)
    { op, stage := .returned true }
  have hnonneg := h.nonneg
  have hmax := h.le_max
  have haccounted := h.accounted
  have hable : ∀ (j : Nat) (cur : Int), (s.calls.set i { op, stage := .returned true })[j]? =
      some { op := .tryWithdraw, stage := .expecting cur } → RetryBudget.scale ≤ cur := by
    intro j cur hj
    rcases TaskPool.getElem?_set_cases hj with ⟨_, heq⟩ | ⟨_, hold⟩
    · cases heq
    · exact h.able j cur hold
  cases op with
  | deposit =>
      have hd : (BudgetCall.mk .deposit (.returned true)).isDeposit = true := rfl
      have hw : (BudgetCall.mk .deposit (.returned true)).isWithdrawal = false := rfl
      rw [hd, if_pos rfl] at hdeposits
      rw [hw, if_neg Bool.false_ne_true, Nat.add_zero] at hwithdrawals
      refine ⟨?_, ?_, ?_, hable⟩
      · simp only [BudgetOp.next, RetryBudget.deposited]
        omega
      · simp only [BudgetOp.next, RetryBudget.deposited]
        omega
      · rw [hdeposits, hwithdrawals]
        simp only [BudgetOp.next, RetryBudget.deposited]
        push_cast
        have hcapped : min (s.tokens + b.deposit) b.maxTokens ≤ s.tokens + b.deposit :=
          Int.min_le_left _ _
        linarith
  | tryWithdraw =>
      have henough := h.able i s.tokens hi
      have hd : (BudgetCall.mk .tryWithdraw (.returned true)).isDeposit = false := rfl
      have hw : (BudgetCall.mk .tryWithdraw (.returned true)).isWithdrawal = true := rfl
      rw [hd, if_neg Bool.false_ne_true, Nat.add_zero] at hdeposits
      rw [hw, if_pos rfl] at hwithdrawals
      refine ⟨?_, ?_, ?_, hable⟩
      · simp only [BudgetOp.next]
        omega
      · simp only [BudgetOp.next]
        have hscale : (0 : Int) ≤ RetryBudget.scale := by decide
        omega
      · rw [hdeposits, hwithdrawals]
        simp only [BudgetOp.next]
        push_cast
        linarith

theorem sound_step (hdeposit : 0 ≤ b.deposit) (s : BudgetState) (l : Label) (s' : BudgetState)
    (h : Sound b s) (hstep : step b s l = some s') : Sound b s' := by
  rcases step_cases hstep with ⟨op, rfl, _⟩ | ⟨i, op, stage, _, hi, hopen, rfl⟩ | ⟨i, op, hi, rfl⟩
  · refine ⟨h.nonneg, h.le_max, ?_, fun j cur hj => ?_⟩
    · have haccounted := h.accounted
      simpa [deposits, withdrawals, BudgetCall.isDeposit, BudgetCall.isWithdrawal] using haccounted
    · rcases TaskPool.getElem?_snoc_cases hj with ⟨_, heq⟩ | hold
      · cases heq
      · exact h.able j cur hold
  · exact h.reads hi hopen
  · exact h.writes hdeposit hi

/-! ## Denials -/

/-- A call is denied in a step in which it reads a counter below the cost. -/
theorem step_denied {s s' : BudgetState} {l : Label} {i : Nat} (hstep : step b s l = some s')
    (hdenied : s'.calls[i]? = some { op := .tryWithdraw, stage := .returned false }) :
    s.calls[i]? = some { op := .tryWithdraw, stage := .returned false } ∨
      (l.reader = some i ∧ s.tokens < RetryBudget.scale) := by
  rcases step_cases hstep with ⟨op, rfl, _⟩ | ⟨j, op, stage, hl, hj, hopen, rfl⟩ | ⟨j, op, hj, rfl⟩
  · rcases TaskPool.getElem?_snoc_cases hdenied with ⟨_, heq⟩ | hold
    · cases heq
    · exact .inl hold
  · rcases TaskPool.getElem?_set_cases hdenied with ⟨rfl, heq⟩ | ⟨_, hold⟩
    · refine .inr ⟨hl, ?_⟩
      cases op with
      | deposit => cases heq
      | tryWithdraw =>
          by_contra henough
          rw [BudgetCall.read, if_neg henough] at heq
          cases heq
    · exact .inl hold
  · rcases TaskPool.getElem?_set_cases hdenied with ⟨_, heq⟩ | ⟨_, hold⟩
    · cases heq
    · exact .inl hold

/-- A call that was denied had read a counter below the cost at some point of the run. -/
theorem denied_of_run {ls : List Label} {s : BudgetState} {i : Nat}
    (hrun : run (step b) (init b) ls = some s)
    (hdenied : s.calls[i]? = some { op := .tryWithdraw, stage := .returned false }) :
    ∃ past l future s₁, ls = past ++ l :: future ∧ run (step b) (init b) past = some s₁ ∧
      l.reader = some i ∧ s₁.tokens < RetryBudget.scale := by
  induction ls using List.reverseRecOn generalizing s with
  | nil =>
      cases hrun
      simp [init] at hdenied
  | append_singleton ls l ih =>
      rw [run_append, Option.bind_eq_some_iff] at hrun
      obtain ⟨s₁, hrun, hlast⟩ := hrun
      obtain ⟨s₂, hstep, hend⟩ := run_cons_some hlast
      cases hend
      rcases step_denied hstep hdenied with hbefore | ⟨hl, hlow⟩
      · obtain ⟨past, l', future, s₀, rfl, hpast, hread⟩ := ih hrun hbefore
        exact ⟨past, l', future ++ [l], s₀, by simp, hpast, hread⟩
      · exact ⟨ls, l, [], s₁, rfl, hrun, hl, hlow⟩

end BudgetState

/-- However the loads and exchanges of its callers interleave, a budget never holds less
than nothing or more than its burst, its sums fit into 64 bits, successful withdrawals
stay within the burst and what was deposited, and a call it denies has read less than the
cost. -/
theorem budget_bounded (ratio : F64) (burst : Nat) (hburst : burst < 2 ^ 32)
    (ls : List BudgetState.Label) (s : BudgetState)
    (hrun : run (BudgetState.step (.new ratio burst)) (.init (.new ratio burst)) ls = some s) :
    0 ≤ s.tokens ∧ s.tokens ≤ (RetryBudget.new ratio burst).maxTokens ∧
      s.tokens + (RetryBudget.new ratio burst).deposit < 2 ^ 63 ∧
      s.withdrawals * 1000 ≤ (RetryBudget.new ratio burst).maxTokens +
        s.deposits * (RetryBudget.new ratio burst).deposit ∧
      ∀ i : Nat, s.calls[i]? = some { op := .tryWithdraw, stage := .returned false } →
        ∃ past l future s₁, ls = past ++ l :: future ∧
          run (BudgetState.step (.new ratio burst)) (.init (.new ratio burst)) past = some s₁ ∧
          l.reader = some i ∧ s₁.tokens < 1000 := by
  have h : BudgetState.Sound (.new ratio burst) s :=
    invariant_of_step (BudgetState.sound_step (RetryBudget.deposit_nonneg ratio burst))
      (BudgetState.sound_init (RetryBudget.maxTokens_nonneg ratio burst)) hrun
  have hnonneg := h.nonneg
  have hmax := h.le_max
  have haccounted : s.tokens + s.withdrawals * 1000 ≤ (RetryBudget.new ratio burst).maxTokens +
      s.deposits * (RetryBudget.new ratio burst).deposit := h.accounted
  have hdeposit := RetryBudget.deposit_le ratio burst
  refine ⟨hnonneg, hmax, ?_, by linarith, fun i => BudgetState.denied_of_run hrun⟩
  have hburst' : (RetryBudget.new ratio burst).maxTokens = (max burst 1 : Nat) * 1000 := rfl
  omega

/-- Two callers race for the only token: both read it, one exchange fails spuriously and
then succeeds, the other finds the counter empty. -/
def raceForOne : List BudgetState.Label :=
  [.call .tryWithdraw, .call .tryWithdraw, .load 0, .load 1, .exchange 0 true,
    .exchange 0 false, .exchange 1 false]

def raced : BudgetState :=
  (run (BudgetState.step (.new (.fin 0) 1)) (.init (.new (.fin 0) 1)) raceForOne).get rfl

theorem budget_bounded_raceForOne :
    raced.calls = [{ op := .tryWithdraw, stage := .returned true },
        { op := .tryWithdraw, stage := .returned false }] ∧
      ∃ past l future s₁, raceForOne = past ++ l :: future ∧
        run (BudgetState.step (.new (.fin 0) 1)) (.init (.new (.fin 0) 1)) past = some s₁ ∧
        l.reader = some 1 ∧ s₁.tokens < 1000 := by
  obtain ⟨_, _, _, _, hdenied⟩ := budget_bounded (.fin 0) 1 (by norm_num) raceForOne raced rfl
  exact ⟨rfl, hdenied 1 rfl⟩

end ExecutionPolicy
