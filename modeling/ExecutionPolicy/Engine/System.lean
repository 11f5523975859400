import ExecutionPolicy.Engine.Stretch
import ExecutionPolicy.Foundation.StepSystem
import ExecutionPolicy.Foundation.TaskPool

/-! # Calls sharing one policy

Any number of calls run through one plan. A label polls or drops one of them, lets
time pass, or moves the tokens of a budget that other policies share. The trace
keeps, in order, what every call was seen doing.
-/

namespace ExecutionPolicy

open StepSystem

variable {T E : Type}

structure System (T E : Type) where
  shared : Shared
  calls : List (Call T E)
  trace : List (Nat × Obs T E)

def Script.answer (d : Nat) (r : Except E T) : Script T E :=
  { ticks := [], draws := [], opElapsed := d, op := some r }

/-- The operation, if any, is pending. -/
def Script.pending : Script T E := { ticks := [], draws := [], opElapsed := 0, op := none }

def Stage.isOver : Stage T E → Bool
  | .returned _ => true
  | .dropped => true
  | _ => false

theorem pollCall_of_not_isOver (plan : Plan T E) (id : Nat) {call : Call T E}
    (script : Script T E) (f : Frame T E) (h : call.stage.isOver = false) :
    ∃ done, pollCall plan id call script f = some done := by
  unfold pollCall
  cases hstage : call.stage with
  | returned r => simp [hstage, Stage.isOver] at h
  | dropped => simp [hstage, Stage.isOver] at h
  | _ => exact ⟨_, rfl⟩

theorem isOver_of_pollCall {plan : Plan T E} {id : Nat} {call : Call T E} {script : Script T E}
    {f : Frame T E} {done : Call T E × Frame T E}
    (h : pollCall plan id call script f = some done) : call.stage.isOver = false := by
  cases hstage : call.stage <;> simp_all [pollCall, Stage.isOver]

theorem isOver_of_dropCall {call : Call T E} {f : Frame T E} {done : Call T E × Frame T E}
    (h : dropCall call f = some done) : call.stage.isOver = false := by
  cases hstage : call.stage <;> simp_all [dropCall, Stage.isOver]

namespace System

inductive Label (T E : Type) where
  | elapse (d : Nat)
  /-- A future is created; `run_pipeline` starts at its first poll. -/
  | call
  | poll (i : Nat) (script : Script T E)
  | drop (i : Nat)
  | depositElsewhere
  | withdrawElsewhere

def init (plan : Plan T E) (start : Nat) : System T E where
  shared :=
    { core := { time := start, ticks := [], draws := [] }
      breaker := .new ((plan.breaker.map fun b => b.config.trip).getD (.consecutive 1))
      sem := .new ((plan.concurrency.map fun c => c.permits).getD 0)
      tokens := (plan.retry.budget.map fun b => b.initialTokens).getD 0 }
  calls := []
  trace := []

def created : Call T E := { start := 0, totalDeadline := none, opPermit := false, stage := .created }

/-- The frame of a stretch whose readings and draws follow the script. -/
def frame (s : System T E) (ticks : List Nat) (draws : List UInt64) : Frame T E :=
  { s.shared with core := { time := s.shared.core.time, ticks, draws }, log := [] }

def settle (s : System T E) (i : Nat) (done : Call T E × Frame T E) : System T E where
  shared := done.2.toShared
  calls := s.calls.set i done.1
  trace := s.trace ++ done.2.log.map (Prod.mk i)

def withTokens (s : System T E) (tokens : Int) : System T E :=
  { s with shared := { s.shared with tokens } }

def step (plan : Plan T E) (s : System T E) : Label T E → Option (System T E)
  | .elapse d => some { s with shared := { s.shared with core := s.shared.core.elapse d } }
  | .call => some { s with
      calls := s.calls ++ [created]
      trace := s.trace ++ [(s.calls.length, .arrived)] }
  | .poll i script =>
      match s.calls[i]? with
      | some call =>
          (pollCall plan i call script (s.frame script.ticks script.draws)).map (s.settle i)
      | none => none
  | .drop i =>
      match s.calls[i]? with
      | some call => (dropCall call (s.frame [] [])).map (s.settle i)
      | none => none
  | .depositElsewhere =>
      plan.retry.budget.map fun b => s.withTokens (b.deposited s.shared.tokens)
  | .withdrawElsewhere =>
      match plan.retry.budget with
      | some _ => (RetryBudget.tryWithdraw s.shared.tokens).map s.withTokens
      | none => none

def logOf (s : System T E) (i : Nat) : List (Obs T E) :=
  s.trace.filterMap fun p => if p.1 = i then some p.2 else none

/-! ## Inversion of steps -/

section Inversion

variable {plan : Plan T E} {s s' : System T E} {i : Nat}

theorem step_poll {script : Script T E} (h : step plan s (.poll i script) = some s') :
    ∃ call done, s.calls[i]? = some call ∧
      pollCall plan i call script (s.frame script.ticks script.draws) = some done ∧
      s' = s.settle i done := by
  simp only [step] at h
  split at h
  next call hi =>
    obtain ⟨done, hdone, hs'⟩ := Option.map_eq_some_iff.mp h
    exact ⟨call, done, hi, hdone, hs'.symm⟩
  next => cases h

theorem step_drop (h : step plan s (.drop i) = some s') :
    ∃ call done, s.calls[i]? = some call ∧ dropCall call (s.frame [] []) = some done ∧
      s' = s.settle i done := by
  simp only [step] at h
  split at h
  next call hi =>
    obtain ⟨done, hdone, hs'⟩ := Option.map_eq_some_iff.mp h
    exact ⟨call, done, hi, hdone, hs'.symm⟩
  next => cases h

theorem step_elsewhere {l : Label T E} (hl : l = .depositElsewhere ∨ l = .withdrawElsewhere)
    (h : step plan s l = some s') : ∃ tokens, s' = s.withTokens tokens := by
  rcases hl with rfl | rfl
  · obtain ⟨b, _, hs'⟩ := Option.map_eq_some_iff.mp h
    exact ⟨_, hs'.symm⟩
  · simp only [step] at h
    split at h
    · obtain ⟨tokens, _, hs'⟩ := Option.map_eq_some_iff.mp h
      exact ⟨tokens, hs'.symm⟩
    · cases h

end Inversion

/-! ## Invariants of single calls -/

def Named (s : System T E) : Prop := ∀ p ∈ s.trace, p.1 < s.calls.length

theorem logOf_settle_self (s : System T E) (i : Nat) (done : Call T E × Frame T E) :
    (s.settle i done).logOf i = s.logOf i ++ done.2.log := by
  simp [logOf, settle, List.filterMap_append, List.filterMap_map]

theorem logOf_settle_ne (s : System T E) {i j : Nat} (hij : i ≠ j)
    (done : Call T E × Frame T E) : (s.settle i done).logOf j = s.logOf j := by
  simp [logOf, settle, List.filterMap_append, List.filterMap_map, hij]

theorem logOf_snoc (s : System T E) (i j : Nat) (o : Obs T E) (calls : List (Call T E)) :
    logOf { s with calls, trace := s.trace ++ [(i, o)] } j =
      s.logOf j ++ (if i = j then [o] else []) := by
  simp only [logOf, List.filterMap_append]
  congr 1
  by_cases hij : i = j <;> simp [hij]

theorem Named.logOf_eq_nil {s : System T E} (h : s.Named) : s.logOf s.calls.length = [] := by
  unfold logOf
  rw [List.filterMap_eq_nil_iff]
  intro p hp
  have hlt := h p hp
  rw [if_neg (by omega)]

theorem Named.settle {s : System T E} (h : s.Named) {i : Nat} (hi : i < s.calls.length)
    (done : Call T E × Frame T E) : (s.settle i done).Named := by
  intro p hp
  simp only [System.settle, List.length_set] at hp ⊢
  rcases List.mem_append.mp hp with hold | hnew
  · exact h p hold
  · obtain ⟨o, _, rfl⟩ := List.mem_map.mp hnew
    exact hi

/-- After a stretch of call `i`, what held of every call holds of every call again exactly
when it holds of call `i`. -/
theorem forall_settle_iff {P : Call T E → List (Obs T E) → Prop} {s : System T E} {i : Nat}
    {call : Call T E} (h : ∀ j other, s.calls[j]? = some other → P other (s.logOf j))
    (hi : s.calls[i]? = some call) (done : Call T E × Frame T E) :
    (∀ j other, (s.settle i done).calls[j]? = some other → P other ((s.settle i done).logOf j)) ↔
      P done.1 (s.logOf i ++ done.2.log) := by
  constructor
  · intro hall
    have hset : (s.settle i done).calls[i]? = some done.1 :=
      List.getElem?_set_self (List.getElem?_eq_some_iff.mp hi).1
    have hself := hall i done.1 hset
    rwa [logOf_settle_self] at hself
  · intro hdone j other hj
    rcases TaskPool.getElem?_set_cases hj with ⟨rfl, rfl⟩ | ⟨hij, hold⟩
    · rw [logOf_settle_self]
      exact hdone
    · rw [logOf_settle_ne s hij]
      exact h j other hold

/-- Every call, with what it was seen doing, satisfies `P`. -/
def EachCall (P : Call T E → List (Obs T E) → Prop) (s : System T E) : Prop :=
  s.Named ∧ ∀ i call, s.calls[i]? = some call → P call (s.logOf i)

theorem eachCall_settle {P : Call T E → List (Obs T E) → Prop} {s : System T E} {i : Nat}
    {call : Call T E} (h : EachCall P s) (hi : s.calls[i]? = some call)
    {done : Call T E × Frame T E} (hdone : P done.1 (s.logOf i ++ done.2.log)) :
    EachCall P (s.settle i done) := by
  exact ⟨h.1.settle (List.getElem?_eq_some_iff.mp hi).1 done,
    (forall_settle_iff h.2 hi done).mpr hdone⟩

theorem eachCall_arrive {P : Call T E → List (Obs T E) → Prop} {s : System T E}
    (hcreated : P created [.arrived]) (h : EachCall P s) :
    EachCall P { s with
      calls := s.calls ++ [created]
      trace := s.trace ++ [(s.calls.length, .arrived)] } := by
  refine ⟨?_, fun j other hj => ?_⟩
  · intro p hp
    simp only [List.length_append, List.length_singleton] at hp ⊢
    rcases List.mem_append.mp hp with hold | hnew
    · exact Nat.lt_succ_of_lt (h.1 p hold)
    · rw [List.mem_singleton.mp hnew]
      exact Nat.lt_succ_self _
  · rw [logOf_snoc]
    rcases TaskPool.getElem?_snoc_cases hj with ⟨rfl, rfl⟩ | hold
    · simpa [h.1.logOf_eq_nil] using hcreated
    · have hlt := (List.getElem?_eq_some_iff.mp hold).1
      rw [if_neg (by omega), List.append_nil]
      exact h.2 j other hold

/-- What a fresh call satisfies and every permitted stretch of a call preserves, every
call satisfies in every state of a permitted run. -/
theorem eachCall_step {plan : Plan T E} {cond : System T E → Label T E → Prop}
    {P : Call T E → List (Obs T E) → Prop} (hcreated : P created [.arrived])
    (hpoll : ∀ (s : System T E) i call script done, s.calls[i]? = some call →
      cond s (.poll i script) → P call (s.logOf i) →
      pollCall plan i call script (s.frame script.ticks script.draws) = some done →
      P done.1 (s.logOf i ++ done.2.log))
    (hdrop : ∀ (s : System T E) i call done, s.calls[i]? = some call → cond s (.drop i) →
      P call (s.logOf i) → dropCall call (s.frame [] []) = some done →
      P done.1 (s.logOf i ++ done.2.log))
    (s : System T E) (l : Label T E) (s' : System T E) (h : EachCall P s) (hcond : cond s l)
    (hstep : step plan s l = some s') : EachCall P s' := by
  cases l with
  | elapse d =>
      cases hstep
      exact h
  | call =>
      cases hstep
      exact eachCall_arrive hcreated h
  | poll i script =>
      obtain ⟨call, done, hi, hdone, rfl⟩ := step_poll hstep
      exact eachCall_settle h hi (hpoll s i call script done hi hcond (h.2 i call hi) hdone)
  | drop i =>
      obtain ⟨call, done, hi, hdone, rfl⟩ := step_drop hstep
      exact eachCall_settle h hi (hdrop s i call done hi hcond (h.2 i call hi) hdone)
  | depositElsewhere =>
      obtain ⟨tokens, rfl⟩ := step_elsewhere (.inl rfl) hstep
      exact h
  | withdrawElsewhere =>
      obtain ⟨tokens, rfl⟩ := step_elsewhere (.inr rfl) hstep
      exact h

theorem eachCall_step_of_stretches {plan : Plan T E} {P : Call T E → List (Obs T E) → Prop}
    (hcreated : P created [.arrived])
    (hpoll : ∀ (s : System T E) i call script done, s.calls[i]? = some call →
      P call (s.logOf i) →
      pollCall plan i call script (s.frame script.ticks script.draws) = some done →
      P done.1 (s.logOf i ++ done.2.log))
    (hdrop : ∀ (s : System T E) i call done, s.calls[i]? = some call → P call (s.logOf i) →
      dropCall call (s.frame [] []) = some done → P done.1 (s.logOf i ++ done.2.log))
    (s : System T E) (l : Label T E) (s' : System T E) (h : EachCall P s)
    (hstep : step plan s l = some s') : EachCall P s' := by
  have hany : ∀ (s : System T E) (l : Label T E) (s' : System T E), EachCall P s → True →
      step plan s l = some s' → EachCall P s' :=
    eachCall_step hcreated (fun s i call script done hi _ => hpoll s i call script done hi)
      (fun s i call done hi _ => hdrop s i call done hi)
  exact hany s l s' h trivial hstep

theorem eachCall_init (plan : Plan T E) (start : Nat) (P : Call T E → List (Obs T E) → Prop) :
    EachCall P (init plan start) := by
  refine ⟨?_, ?_⟩
  · intro p hp
    simp [init] at hp
  · intro i call hi
    simp [init] at hi

/-! ## Frame conditions -/

def Label.names : Label T E → Option Nat
  | .poll i _ => some i
  | .drop i => some i
  | _ => none

theorem step_unnamed {plan : Plan T E} {s s' : System T E} {l : Label T E} {i : Nat}
    {call : Call T E} (hstep : step plan s l = some s') (hl : l.names ≠ some i)
    (hi : s.calls[i]? = some call) : s'.calls[i]? = some call ∧ s'.logOf i = s.logOf i := by
  cases l with
  | elapse d =>
      cases hstep
      exact ⟨hi, rfl⟩
  | call =>
      cases hstep
      have hlt := (List.getElem?_eq_some_iff.mp hi).1
      refine ⟨(List.getElem?_append_left hlt).trans hi, ?_⟩
      rw [logOf_snoc, if_neg (by omega), List.append_nil]
  | poll j script =>
      obtain ⟨other, done, _, _, rfl⟩ := step_poll hstep
      have hji : j ≠ i := fun h => hl (congrArg some h)
      exact ⟨(List.getElem?_set_ne hji).trans hi, logOf_settle_ne s hji done⟩
  | drop j =>
      obtain ⟨other, done, _, _, rfl⟩ := step_drop hstep
      have hji : j ≠ i := fun h => hl (congrArg some h)
      exact ⟨(List.getElem?_set_ne hji).trans hi, logOf_settle_ne s hji done⟩
  | depositElsewhere =>
      obtain ⟨tokens, rfl⟩ := step_elsewhere (.inl rfl) hstep
      exact ⟨hi, rfl⟩
  | withdrawElsewhere =>
      obtain ⟨tokens, rfl⟩ := step_elsewhere (.inr rfl) hstep
      exact ⟨hi, rfl⟩

theorem step_returned {plan : Plan T E} {s s' : System T E} {l : Label T E} {i : Nat}
    {call : Call T E} {r : Except (ExecutionError E) T} (hstep : step plan s l = some s')
    (hi : s.calls[i]? = some call) (hr : call.stage = .returned r) :
    s'.calls[i]? = some call ∧ s'.logOf i = s.logOf i := by
  by_cases hl : l.names = some i
  · cases l with
    | poll j script =>
        cases hl
        obtain ⟨other, done, hj, hpoll, _⟩ := step_poll hstep
        cases hi.symm.trans hj
        simp [pollCall, hr] at hpoll
    | drop j =>
        cases hl
        obtain ⟨other, done, hj, hdrop, _⟩ := step_drop hstep
        cases hi.symm.trans hj
        simp [dropCall, hr] at hdrop
    | _ => cases hl
  · exact step_unnamed hstep hl hi

end System

end ExecutionPolicy
