import ExecutionPolicy.Breaker.Traffic
import ExecutionPolicy.Engine.Hops

/-! # The breaker of a plan over time

No hop of a call touches its plan's breaker other than by a gate or a vote at the
instant just read, so the breaker of a running system has a history of gates and
outcomes at instants in order, and the trace holds that history.
-/

namespace ExecutionPolicy

variable {T E : Type}

def Obs.breakerOp? : Obs T E → Option BreakerOp
  | .gated now => some (.gate now)
  | .votedSuccess now => some (.success now)
  | .votedFailure now => some (.failure now)
  | _ => none

def breakerOps (trace : List (Obs T E)) : List BreakerOp := trace.filterMap Obs.breakerOp?

@[simp] theorem breakerOps_append (trace trace' : List (Obs T E)) :
    breakerOps (trace ++ trace') = breakerOps trace ++ breakerOps trace' := List.filterMap_append

theorem breakerOps_eq_nil {trace : List (Obs T E)} (h : ∀ o ∈ trace, o.breakerOp? = none) :
    breakerOps trace = [] := List.filterMap_eq_nil_iff.mpr h

theorem Obs.breakerOp?_of_isQuiet {o : Obs T E} (h : o.isQuiet = true) : o.breakerOp? = none := by
  cases o <;> simp_all [isQuiet, breakerOp?]

theorem Plan.news_untold (plan : Plan T E) (es : List Event) :
    ∀ o ∈ (plan.news es : List (Obs T E)), o.breakerOp? = none :=
  Plan.forall_news fun _ _ => rfl

/-- The breaker of `k` has come from `b₀` at `t₀` by what `log` shows. -/
def ToldBy (cfg : BreakerConfig) (t₀ : Nat) (b₀ : BreakerRuntime) (k : Shared)
    (log : List (Obs T E)) : Prop :=
  BreakerTold cfg t₀ b₀ (breakerOps log) k.core.time k.breaker

section Stretches

variable {plan : Plan T E} {cfg : BreakerConfig} {t₀ : Nat} {b₀ : BreakerRuntime}
  {k k' : Shared} {log os : List (Obs T E)}

theorem ToldBy.silent (h : ToldBy cfg t₀ b₀ k log) (ht : k.core.time ≤ k'.core.time)
    (hb : k'.breaker = k.breaker) (hos : ∀ o ∈ os, o.breakerOp? = none) :
    ToldBy cfg t₀ b₀ k' (log ++ os) := by
  unfold ToldBy
  rw [breakerOps_append, breakerOps_eq_nil hos, List.append_nil, hb]
  exact h.later ht

theorem ToldBy.tell (h : ToldBy cfg t₀ b₀ k log) {o : Obs T E} {op : BreakerOp}
    (ho : o.breakerOp? = some op) (hop : op.instant = k.core.time)
    (ht : k'.core.time = k.core.time) (hb : k'.breaker = k.breaker.apply cfg op)
    (hos : ∀ o ∈ os, o.breakerOp? = none) : ToldBy cfg t₀ b₀ k' (log ++ o :: os) := by
  have hone : breakerOps (o :: os) = [op] := by
    rw [breakerOps, List.filterMap_cons_some ho, List.filterMap_eq_nil_iff.mpr hos]
  unfold ToldBy
  rw [breakerOps_append, hone, hb, ht]
  exact BreakerTold.tell h op hop

variable (hcfg : ∀ b, plan.breaker = some b → b.config = cfg)
include hcfg

theorem Hop.told {id : Nat} {c c' : Cursor T E} (hop : Hop plan id c os c')
    (h : ToldBy cfg t₀ b₀ c.shared log) : ToldBy cfg t₀ b₀ c'.shared (log ++ os) := by
  have hle := hop.time_le
  cases hop with
  | pass hb hg =>
      cases hcfg _ hb
      exact h.tell rfl rfl rfl (congrArg Prod.snd hg).symm (plan.news_untold _)
  | turnAway now hb hg =>
      cases hcfg _ hb
      exact h.tell rfl rfl rfl (congrArg Prod.snd hg).symm (by simp)
  | voteSuccess hb hv hrec =>
      cases hcfg _ hb
      exact h.tell rfl rfl rfl (congrArg Prod.snd hrec).symm (plan.news_untold _)
  | voteFailure hb hv hrec =>
      cases hcfg _ hb
      exact h.tell rfl rfl rfl (congrArg Prod.snd hrec).symm (plan.news_untold _)
  | refuseOperation | bail =>
      exact h.silent hle rfl (List.forall_mem_cons.mpr ⟨rfl, plan.news_untold _⟩)
  | cease outcome hs =>
      -- only a permit comes back
      exact h.silent hle (by dsimp only; split <;> rfl) (by simp)
  | leave => exact h.silent hle (by dsimp only; split <;> rfl) (by simp)
  | refuseAttempt | settle | retry | elapsed | deny | schedule =>
      exact h.silent hle rfl (plan.news_untold _)
  | _ => exact h.silent hle rfl (by simp [Obs.breakerOp?])

theorem toldBy_pollCall {id : Nat} {call : Call T E} {script : Script T E} {f : Frame T E}
    {done : Call T E × Frame T E} (hlog : f.log = [])
    (hpoll : pollCall plan id call script f = some done) :
    ToldBy cfg f.core.time f.breaker done.2.toShared done.2.log := by
  have hstart : ToldBy cfg f.core.time f.breaker f.toShared ([] ++ f.log) := by
    rw [hlog]
    exact BreakerTold.start
  exact (reaches_pollCall hpoll).keeps (Q := fun c log => ToldBy cfg _ _ c.shared log)
    (fun _ _ _ _ hop htold => hop.told hcfg htold) [] hstart

theorem told_step (s : System T E) (l : System.Label T E) (s' : System T E)
    (hstep : System.step plan s l = some s') :
    ∃ news, s'.trace = s.trace ++ news ∧
      BreakerTold cfg s.shared.core.time s.shared.breaker (breakerOps (news.map Prod.snd))
        s'.shared.core.time s'.shared.breaker := by
  have hlog : ∀ (i : Nat) (log : List (Obs T E)), (log.map (Prod.mk i)).map Prod.snd = log := by
    intro i log
    simp [Function.comp_def]
  cases l with
  | elapse d =>
      cases hstep
      exact ⟨[], (List.append_nil _).symm, .later .start (Nat.le_add_right _ _)⟩
  | call =>
      cases hstep
      exact ⟨_, rfl, .start⟩
  | poll i script =>
      obtain ⟨call, done, _, hdone, rfl⟩ := System.step_poll hstep
      refine ⟨_, rfl, ?_⟩
      rw [hlog]
      exact toldBy_pollCall hcfg (f := s.frame script.ticks script.draws) rfl hdone
  | drop i =>
      obtain ⟨call, done, _, hdone, rfl⟩ := System.step_drop hstep
      obtain ⟨_, g, hg, hover⟩ := dropCall_cases hdone
      obtain ⟨os, hos, hquiet⟩ := hg.log
      have hstart : ToldBy cfg s.shared.core.time s.shared.breaker s.shared
          ([] : List (Obs T E)) := BreakerTold.start
      have hends : done.2.log = [] ++ (os ++ [.unrecorded]) := by
        rw [hover, Frame.note, hos]
        rfl
      have hsilent : ∀ o ∈ os ++ [.unrecorded], o.breakerOp? = none := by
        intro o ho
        rcases List.mem_append.mp ho with hold | hlast
        · exact Obs.breakerOp?_of_isQuiet (hquiet o hold)
        · rw [List.mem_singleton.mp hlast]
          rfl
      have hgone : ToldBy cfg s.shared.core.time s.shared.breaker done.2.toShared
          ([] ++ (os ++ [.unrecorded])) := by
        rw [hover]
        exact hstart.silent hg.reads.later hg.breaker hsilent
      refine ⟨_, rfl, ?_⟩
      rw [hlog, hends]
      exact hgone
  | depositElsewhere =>
      obtain ⟨tokens, rfl⟩ := System.step_elsewhere (.inl rfl) hstep
      exact ⟨[], (List.append_nil _).symm, .start⟩
  | withdrawElsewhere =>
      obtain ⟨tokens, rfl⟩ := System.step_elsewhere (.inr rfl) hstep
      exact ⟨[], (List.append_nil _).symm, .start⟩

end Stretches

end ExecutionPolicy
