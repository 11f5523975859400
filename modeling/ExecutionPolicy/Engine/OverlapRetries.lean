import ExecutionPolicy.Engine.Amplification
import ExecutionPolicy.Engine.Overlap

/-! # Retries when calls overlap

The protocol read for the retry loops: each call makes its attempts one after the other under
the numbers from one on, and the budget they share bounds how often all of them retry.
-/

namespace ExecutionPolicy

open StepSystem Interleaving

variable {T E : Type}

namespace Parallel

/-! ## Attempts -/

/-- The number of the attempt that an observation starts or ends, and whether it starts it. -/
def mark? : Obs T E → Option (Nat × Bool)
  | .started attempt _ => some (attempt.number, true)
  | .ended number _ _ => some (number, false)
  | _ => none

def marks (log : List (Obs T E)) : List (Nat × Bool) := log.filterMap mark?

@[simp] theorem marks_nil : marks ([] : List (Obs T E)) = [] := rfl

@[simp] theorem marks_append (log log' : List (Obs T E)) :
    marks (log ++ log') = marks log ++ marks log' := List.filterMap_append

@[simp] theorem marks_single (o : Obs T E) : marks [o] = (mark? o).toList := by
  cases h : mark? o <;> simp [marks, h]

/-- Attempts `1` to `n` that are over, one after the other. -/
def completed (n : Nat) : List (Nat × Bool) :=
  (List.range' 1 n).flatMap fun m => [(m, true), (m, false)]

/-- The same, with attempt `n` still running if `live`. -/
def oneByOne (n : Nat) (live : Bool) : List (Nat × Bool) :=
  if live then completed (n - 1) ++ [(n, true)] else completed n

theorem completed_succ (n : Nat) :
    completed (n + 1) = completed n ++ [(n + 1, true), (n + 1, false)] := by
  simp [completed, List.range'_concat, Nat.add_comm]

@[simp] theorem logOf_note (k : Objects T E) (i j : Nat) (o : Obs T E) :
    (k.note i o).logOf j = k.logOf j ++ if i = j then [o] else [] := by
  unfold Objects.logOf Objects.note
  split <;> simp [*]

/-- The attempts of a call in phase `φ` with this log. -/
structure InTurn (plan : Plan T E) (φ : Phase) (log : List (Obs T E)) : Prop where
  marks : marks log = oneByOne φ.started φ.live
  capped : φ.started ≤ plan.retry.maxAttempts
  started : φ.live = true → 0 < φ.started

section Attempts

variable {plan : Plan T E} {φ : Phase} {log : List (Obs T E)}

theorem InTurn.still {φ' : Phase} {log' : List (Obs T E)} (h : InTurn plan φ log)
    (hmarks : Parallel.marks log' = Parallel.marks log) (hstarted : φ'.started = φ.started)
    (hlive : φ'.live = φ.live) : InTurn plan φ' log' := by
  refine ⟨?_, ?_, ?_⟩
  · rw [hmarks, hstarted, hlive]
    exact h.marks
  · rw [hstarted]
    exact h.capped
  · rw [hstarted, hlive]
    exact h.started

theorem InTurn.start (h : InTurn plan φ log) (hlive : φ.live = false) {attempt : Attempt}
    (hnumber : attempt.number = φ.started + 1)
    (hcapped : attempt.number ≤ plan.retry.maxAttempts) (clock : Nat) :
    InTurn plan { φ with started := φ.started + 1, live := true, token := false }
      (log ++ [.started attempt clock]) := by
  refine ⟨?_, hnumber ▸ hcapped, fun _ => Nat.succ_pos _⟩
  have hmarks := h.marks
  rw [hlive] at hmarks
  simp [hmarks, oneByOne, mark?, hnumber]

theorem InTurn.over (h : InTurn plan φ log) (hlive : φ.live = true) {number : Nat}
    (hnumber : number = φ.started) (outcome : AttemptOutcome T E) (now : Nat) :
    InTurn plan { φ with live := false } (log ++ [.ended number outcome now]) := by
  refine ⟨?_, h.capped, fun hfalse => absurd hfalse Bool.false_ne_true⟩
  obtain ⟨n, hn⟩ := Nat.exists_eq_succ_of_ne_zero (Nat.pos_iff_ne_zero.mp (h.started hlive))
  have hmarks := h.marks
  rw [hlive, hn] at hmarks
  simp [hmarks, hnumber, hn, oneByOne, mark?, completed_succ]

theorem inTurn_perform {a : Access T E} {k : Objects T E} {i : Nat} (choice : Choice T E)
    (h : InTurn plan φ (k.logOf i)) (ha : φ.Allows plan a) :
    InTurn plan (φ.next a (perform i choice a k).1) ((perform i choice a k).2.logOf i) := by
  cases a with
  | start attempt =>
      obtain ⟨hlive, hnumber, hcapped, -⟩ := ha
      have hstarted := h.start hlive hnumber hcapped k.time
      simpa [perform, Phase.next] using hstarted
  | note o =>
      cases o with
      | ended number outcome now =>
          have hover := h.over ha.1 ha.2 outcome now
          simpa [perform, Phase.next, Phase.noted] using hover
      | unrecorded | event | paused | resumed =>
          exact h.still (by simp [perform, mark?]) rfl rfl
      | _ => exact ha.elim
  | gate cfg now =>
      have hsame : ∀ r, (φ.next (T := T) (E := E) (.gate cfg now) r).started = φ.started ∧
          (φ.next (T := T) (E := E) (.gate cfg now) r).live = φ.live := by
        intro r
        cases r <;> exact ⟨rfl, rfl⟩
      refine h.still ?_ (hsame _).1 (hsame _).2
      simp [perform, mark?, Objects.logOf, Objects.note]
  | tryAcquire =>
      refine h.still ?_ rfl rfl
      simp only [perform]
      split <;> rfl
  | tryWithdraw =>
      refine h.still ?_ rfl rfl
      simp only [perform]
      split <;> simp [mark?, Objects.logOf, Objects.note]
  | queueFull | recordSuccess | recordFailure =>
      exact h.still (by simp [perform, mark?, Objects.logOf, Objects.note]) rfl rfl
  | _ => exact h.still rfl rfl rfl

theorem logOf_perform_ne {i j : Nat} (hij : i ≠ j) (choice : Choice T E) (a : Access T E)
    (k : Objects T E) : (perform i choice a k).2.logOf j = k.logOf j := by
  cases a with
  | tryAcquire =>
      simp only [perform]
      split <;> rfl
  | tryWithdraw =>
      simp only [perform]
      split <;> simp [hij, Objects.logOf, Objects.note]
  | _ => simp [perform, hij, Objects.logOf, Objects.note]

/-- Every call has made its attempts in turn, and nothing is known of calls to come. -/
structure AllInTurn (plan : Plan T E) (_ : List Disturbance) (k : Objects T E) (φs : List Phase) :
    Prop where
  each : ∀ (i : Nat) (φ : Phase), φs[i]? = some φ → InTurn plan φ (k.logOf i)
  none : ∀ i, φs.length ≤ i → k.logOf i = []

theorem preserves_allInTurn :
    (machine plan).Preserves (protocol plan) .first (AllInTurn plan) where
  arrive ds k φs h := by
    have hlog : ∀ j, ((machine plan).arrive φs.length k).logOf j =
        k.logOf j ++ if φs.length = j then [.arrived] else [] := fun j => logOf_note k _ j .arrived
    constructor
    · intro i φ hi
      rw [hlog]
      rcases TaskPool.getElem?_snoc_cases hi with ⟨rfl, rfl⟩ | hold
      · rw [h.none _ (Nat.le_refl _), if_pos rfl]
        exact ⟨rfl, Nat.zero_le _, fun hfalse => absurd hfalse Bool.false_ne_true⟩
      · have hlt := (List.getElem?_eq_some_iff.mp hold).1
        rw [if_neg (by omega), List.append_nil]
        exact h.each i φ hold
    · intro i hi
      rw [List.length_append, List.length_singleton] at hi
      rw [hlog, if_neg (by omega), List.append_nil]
      exact h.none i (by omega)
  access ds k φs i φ choice a h hi ha := by
    constructor
    · intro j ψ hj
      rcases TaskPool.getElem?_set_cases hj with ⟨rfl, rfl⟩ | ⟨hij, hold⟩
      · exact inTurn_perform choice (h.each i φ hi) ha
      · have hother := h.each j ψ hold
        rwa [← logOf_perform_ne hij choice a k] at hother
    · intro j hj
      rw [List.length_set] at hj
      have hlt := (List.getElem?_eq_some_iff.mp hi).1
      exact (logOf_perform_ne (by omega) choice a k).trans (h.none j hj)
  disturb ds k φs d k' h hd := by
    cases d with
    | elapse d =>
        cases hd
        exact ⟨h.each, h.none⟩
    | depositElsewhere =>
        obtain ⟨b, _, rfl⟩ := Option.map_eq_some_iff.mp hd
        exact ⟨h.each, h.none⟩
    | withdrawElsewhere =>
        obtain ⟨b, tokens, _, _, rfl⟩ := disturb_withdraw hd
        exact ⟨h.each, h.none⟩

/-- Between polls an attempt is running exactly in the call that waits for its operation. -/
theorem At.live {call : Call T E} (h : At plan φ call) (hdropped : call.stage ≠ .dropped) :
    φ.live = atOperation call := by
  have hstage := h.stage
  obtain ⟨start, deadline, op, stage⟩ := call
  cases stage with
  | created | operationsQueue timers => exact hstage.1.live
  | attemptsQueue d attempt timers => exact hstage.1.live
  | running d permit timers => exact hstage.1.live
  | backingOff d wake => exact hstage.live
  | returned r => exact hstage.1.live
  | dropped => exact absurd rfl hdropped

end Attempts

/-! ## The budget -/

def Phase.tokens (φ : Phase) : Nat := if φ.token then 1 else 0

def Phase.due (φ : Phase) : Nat := if φ.deposited then 0 else 1

/-- What the bucket holds with what the call in phase `φ` has to its account and what all
calls have used. -/
def account (b : RetryBudget) (k : Objects T E) (φ : Phase) : Int :=
  k.tokens + RetryBudget.scale * (retries (k.trace.map Prod.snd) + φ.tokens) + b.deposit * φ.due

section Budget

variable {plan : Plan T E} {φ : Phase} {b : RetryBudget}

theorem account_note {o : Obs T E} (ho : o.isRetry = false) (k : Objects T E) (i : Nat) :
    account b (k.note i o) φ = account b k φ := by
  simp [account, Objects.note, ho]

theorem account_perform_le (hbudget : plan.retry.budget = some b) (hdeposit : 0 ≤ b.deposit)
    (hmax : 0 ≤ b.maxTokens) {a : Access T E} {k : Objects T E} (i : Nat) (choice : Choice T E)
    (htokens : 0 ≤ k.tokens) (ha : φ.Allows plan a) :
    0 ≤ (perform i choice a k).2.tokens ∧
      account b (perform i choice a k).2 (φ.next a (perform i choice a k).1) ≤ account b k φ := by
  have hscale : (0 : Int) ≤ RetryBudget.scale := by decide
  cases a with
  | deposit b' =>
      obtain ⟨hb', hdue⟩ := ha
      cases hbudget.symm.trans hb'
      have hrefilled : b.deposited k.tokens ≤ k.tokens + b.deposit := min_le_left _ _
      have hone : φ.due = 1 := by simp [Phase.due, hdue]
      refine ⟨le_min (add_nonneg htokens hdeposit) hmax, ?_⟩
      show b.deposited k.tokens + RetryBudget.scale * (retries (k.trace.map Prod.snd) + φ.tokens) +
        b.deposit * (0 : Nat) ≤ account b k φ
      rw [account, hone]
      push_cast
      linear_combination hrefilled
  | tryWithdraw =>
      have hnone : φ.tokens = 0 := by simp [Phase.tokens, ha.2]
      simp only [perform]
      split
      next tokens hw =>
          obtain ⟨hle, rfl⟩ := RetryBudget.tryWithdraw_spec hw
          refine ⟨Int.sub_nonneg_of_le hle, le_of_eq ?_⟩
          show account b ({ k with tokens := k.tokens - RetryBudget.scale }.note i .withdrew)
            { φ with token := true } = account b k φ
          rw [account_note rfl]
          show k.tokens - RetryBudget.scale + RetryBudget.scale *
            (retries (k.trace.map Prod.snd) + (1 : Nat)) + b.deposit * φ.due = account b k φ
          rw [account, hnone]
          push_cast
          ring
      next =>
          refine ⟨htokens, le_of_eq ?_⟩
          rw [account, account, hnone]
          rfl
  | start attempt =>
      obtain ⟨-, -, -, hpaid, -⟩ := ha
      refine ⟨htokens, ?_⟩
      have hspent : (if 2 ≤ attempt.number then 1 else 0 : Nat) ≤ φ.tokens := by
        split
        next htwo => simp [Phase.tokens, hpaid (by simp [hbudget]) htwo]
        next => exact Nat.zero_le _
      have hpaid' := mul_le_mul_of_nonneg_left (Int.ofNat_le.mpr hspent) hscale
      have hcount : retries ((k.note i (.started attempt k.time)).trace.map Prod.snd) =
          retries (k.trace.map Prod.snd) + if 2 ≤ attempt.number then 1 else 0 := by
        simp [Objects.note, Obs.isRetry]
      show k.tokens + RetryBudget.scale *
        (retries ((k.note i (.started attempt k.time)).trace.map Prod.snd) + (0 : Nat)) +
          b.deposit * φ.due ≤ account b k φ
      rw [hcount, account]
      push_cast at hpaid' ⊢
      linear_combination hpaid'
  | gate cfg now =>
      refine ⟨htokens, le_of_eq ?_⟩
      have hsame : ∀ r, account b (k.note i (.gated now))
          (φ.next (T := T) (E := E) (.gate cfg now) r) = account b k φ := by
        intro r
        cases r <;> exact account_note rfl k i
      exact hsame _
  | note o =>
      refine ⟨htokens, le_of_eq ?_⟩
      cases o with
      | ended | unrecorded | event | paused | resumed => exact account_note rfl k i
      | _ => exact ha.elim
  | tryAcquire =>
      simp only [perform]
      split <;> exact ⟨htokens, le_refl _⟩
  | queueFull maxQueued => exact ⟨htokens, le_of_eq (account_note rfl k i)⟩
  | recordSuccess cfg now => exact ⟨htokens, le_of_eq (account_note rfl k i)⟩
  | recordFailure cfg now => exact ⟨htokens, le_of_eq (account_note rfl k i)⟩
  | _ => exact ⟨htokens, le_refl _⟩

def Disturbance.brings : Disturbance → Bool
  | .depositElsewhere => true
  | _ => false

def Disturbance.takes : Disturbance → Bool
  | .withdrawElsewhere => true
  | _ => false

/-- What is in the bucket, what the calls have to their accounts and what was spent come from
the first filling and from the deposits. -/
structure Funded (b : RetryBudget) (ds : List Disturbance) (k : Objects T E) (φs : List Phase) :
    Prop where
  nonneg : 0 ≤ k.tokens
  accounted :
    k.tokens + RetryBudget.scale *
        (retries (k.trace.map Prod.snd) + TaskPool.total Phase.tokens φs) +
      b.deposit * TaskPool.total Phase.due φs + RetryBudget.scale * ds.countP Disturbance.takes ≤
    b.maxTokens + b.deposit * (φs.length + ds.countP Disturbance.brings)

theorem preserves_funded (hbudget : plan.retry.budget = some b) (hdeposit : 0 ≤ b.deposit)
    (hmax : 0 ≤ b.maxTokens) :
    (machine plan).Preserves (protocol plan) .first (Funded b) where
  arrive ds k φs h := by
    refine ⟨h.nonneg, ?_⟩
    have hsame : retries (((machine plan).arrive φs.length k).trace.map Prod.snd) =
        retries (k.trace.map Prod.snd) := by
      simp [machine, Objects.note, Obs.isRetry]
    have htokens : ((machine plan).arrive φs.length k).tokens = k.tokens := rfl
    have hfirst : Phase.first.tokens = 0 ∧ Phase.first.due = 1 := ⟨rfl, rfl⟩
    rw [hsame, htokens, TaskPool.total_snoc, TaskPool.total_snoc, hfirst.1, hfirst.2,
      List.length_append, List.length_singleton]
    push_cast
    linear_combination h.accounted
  access ds k φs i φ choice a h hi ha := by
    obtain ⟨hnonneg, hle⟩ := account_perform_le hbudget hdeposit hmax i choice h.nonneg ha
    refine ⟨hnonneg, ?_⟩
    have htokens := TaskPool.total_set Phase.tokens hi (φ.next a (perform i choice a k).1)
    have hdue := TaskPool.total_set Phase.due hi (φ.next a (perform i choice a k).1)
    zify at htokens hdue
    rw [List.length_set]
    simp only [account] at hle
    simp only [machine, protocol]
    linear_combination h.accounted + hle + RetryBudget.scale * htokens + b.deposit * hdue
  disturb ds k φs d k' h hd := by
    have haccounted := h.accounted
    cases d with
    | elapse d =>
        cases hd
        refine ⟨h.nonneg, ?_⟩
        simpa [Disturbance.takes, Disturbance.brings] using haccounted
    | depositElsewhere =>
        obtain ⟨b', hb', rfl⟩ := Option.map_eq_some_iff.mp hd
        cases hbudget.symm.trans hb'
        have hrefilled : b.deposited k.tokens ≤ k.tokens + b.deposit := min_le_left _ _
        refine ⟨le_min (add_nonneg h.nonneg hdeposit) hmax, ?_⟩
        simp only [List.countP_append, List.countP_singleton, Disturbance.takes,
          Disturbance.brings]
        push_cast
        linear_combination haccounted + hrefilled
    | withdrawElsewhere =>
        obtain ⟨b', tokens, _, hw, rfl⟩ := disturb_withdraw hd
        obtain ⟨hle, rfl⟩ := RetryBudget.tryWithdraw_spec hw
        refine ⟨Int.sub_nonneg_of_le hle, ?_⟩
        simp only [List.countP_append, List.countP_singleton, Disturbance.takes,
          Disturbance.brings]
        push_cast
        linear_combination haccounted

end Budget

end Parallel

open Parallel

/-- However the accesses of the calls interleave, each call makes its attempts one after the
other, under the numbers from one to at most `max_attempts`; and between polls an attempt is
running exactly in the calls that wait for their operation. -/
theorem threads_attempt_in_turn (plan : Plan T E) (start : Nat)
    (ls : List (Parallel.Label T E)) (s : Threads T E)
    (hrun : run (Parallel.step plan) (Parallel.init plan start) ls = some s) (i : Nat)
    (job : CallJob T E) (hi : s.jobs[i]? = some job) :
    ∃ n live, n ≤ plan.retry.maxAttempts ∧ marks (s.objects.logOf i) = oneByOne n live ∧
      ∀ call, job = .idle call → call.stage ≠ .dropped → live = atOperation call := by
  have hfresh : AllInTurn plan [] (Parallel.init plan start).objects [] :=
    ⟨fun i φ hφ => by simp at hφ, fun i _ => rfl⟩
  obtain ⟨φs, hat, hturns⟩ := invariant_of_protocol preserves_allInTurn hfresh hrun
  obtain ⟨φ, hφ, hjob⟩ := hat.left hi
  have hturn := hturns.each i φ hφ
  refine ⟨φ.started, φ.live, hturn.capped, hturn.marks, ?_⟩
  rintro call rfl hdropped
  exact At.live hjob hdropped

/-- Two calls fail side by side, and one of them gets the only token. -/
def raceForToken : List (Parallel.Label Nat Nat) :=
  [.arrive, .arrive, .start 0 .poll, .start 1 .poll] ++
    (List.replicate 4 [.access 0 ⟨0, none⟩, .access 1 ⟨0, none⟩]).flatten ++
    [.start 1 .poll, .start 0 .poll] ++
    (List.replicate 4 [.access 1 ⟨0, some (.error 8)⟩, .access 0 ⟨0, some (.error 7)⟩]).flatten ++
    List.replicate 3 (.access 1 ⟨0, none⟩)

def racedForToken : Threads Nat Nat :=
  (run (Parallel.step oneToken) (Parallel.init oneToken 0) raceForToken).get rfl

theorem threads_attempt_in_turn_raceForToken :
    marks (racedForToken.objects.logOf 1) = [(1, true), (1, false), (2, true)] ∧
      ∃ job, racedForToken.jobs[1]? = some job ∧ ∃ n live, n ≤ 3 ∧
        marks (racedForToken.objects.logOf 1) = oneByOne n live := by
  refine ⟨rfl, _, rfl, ?_⟩
  obtain ⟨n, live, hn, hmarks, -⟩ :=
    threads_attempt_in_turn oneToken 0 raceForToken racedForToken rfl 1 _ rfl
  exact ⟨n, live, hn, hmarks⟩

/-- However the accesses interleave, the budget bounds all retries together by the calls that
pay for them, with what other policies put into the bucket and take from it. -/
theorem threads_pay_for_retries (plan : Plan T E) (ratio : F64) (burst : Nat)
    (hbudget : plan.retry.budget = some (.new ratio burst)) (start : Nat)
    (ls : List (Parallel.Label T E)) (s : Threads T E)
    (hrun : run (Parallel.step plan) (Parallel.init plan start) ls = some s) :
    1000 * (retries (s.objects.trace.map Prod.snd) +
        (ls.filterMap Label.disturbance?).countP Disturbance.takes : Int) ≤
      1000 * (max burst 1 : Nat) + (RetryBudget.new ratio burst).deposit *
        (s.jobs.length + (ls.filterMap Label.disturbance?).countP Disturbance.brings) := by
  have hdeposit := RetryBudget.deposit_nonneg ratio burst
  have hmax := RetryBudget.maxTokens_nonneg ratio burst
  have hfull : Funded (RetryBudget.new ratio burst) [] (Parallel.init plan start).objects [] := by
    have htokens : (Parallel.init plan start).objects.tokens =
        (RetryBudget.new ratio burst).maxTokens := by
      simp [Parallel.init, hbudget, RetryBudget.initialTokens]
    refine ⟨le_of_le_of_eq hmax htokens.symm, ?_⟩
    rw [htokens]
    simp [Parallel.init, TaskPool.total]
  obtain ⟨φs, hat, hfunded⟩ :=
    invariant_of_protocol (preserves_funded hbudget hdeposit hmax) hfull hrun
  have hnonneg := hfunded.nonneg
  have haccounted := hfunded.accounted
  have hheld : (0 : Int) ≤ TaskPool.total Phase.tokens φs := Int.natCast_nonneg _
  have hdue : 0 ≤ (RetryBudget.new ratio burst).deposit * (TaskPool.total Phase.due φs : Int) :=
    mul_nonneg hdeposit (Int.natCast_nonneg _)
  have hburst : (RetryBudget.new ratio burst).maxTokens = 1000 * ((max burst 1 : Nat) : Int) := by
    simp [RetryBudget.new, RetryBudget.scale, mul_comm]
  rw [hburst, hat.length] at haccounted
  simp only [RetryBudget.scale] at haccounted
  linear_combination haccounted + hnonneg + 1000 * hheld + hdue

theorem threads_pay_for_retries_raceForToken :
    retries (racedForToken.objects.trace.map Prod.snd) = 1 ∧
      (1000 * (1 + 0) : Int) ≤ 1000 * 1 + 0 * (2 + 0) := by
  have hbound := threads_pay_for_retries oneToken (.fin 0) 1
    (congrArg some RetryBudget.new_zero_one.symm) 0 raceForToken racedForToken rfl
  rw [RetryBudget.new_zero_one] at hbound
  exact ⟨rfl, hbound⟩

end ExecutionPolicy
