import ExecutionPolicy.Engine.Invocations
import ExecutionPolicy.Engine.Traffic
import ExecutionPolicy.Router.Run

/-! # Routers at work

Any number of runs of any number of routers, which share members and policies, and
besides them other callers of the same policies.
-/

namespace ExecutionPolicy

open StepSystem

variable {Id T E : Type}

structure Fleet (Id T E : Type) where
  commons : Commons T E
  routes : List (Route Id T E)

namespace Fleet

inductive Label (T E : Type) where
  | elapse (d : Nat)
  | route (router : Nat) (entry : Entry)
  | poll (r : Nat) (script : RouteScript T E)
  | drop (r : Nat)
  | panic (r : Nat) (script : RouteScript T E)
  /-- Somebody else calls, polls or drops through policy `p`. -/
  | other (p : Nat) (l : System.Label T E)

def init (net : Network Id T E) (start : Nat) : Fleet Id T E where
  commons :=
    { time := start
      systems := fun p => System.init (net.plans p) start
      loads := fun _ => MemberState.new }
  routes := []

def owned (s : Fleet Id T E) (p i : Nat) : Bool :=
  s.routes.any fun route => route.owns == some (p, i)

def settle (s : Fleet Id T E) (r : Nat) (done : Route Id T E × Commons T E) : Fleet Id T E where
  commons := done.2
  routes := s.routes.set r done.1

def step (net : Network Id T E) (s : Fleet Id T E) : Label T E → Option (Fleet Id T E)
  | .elapse d => some { s with commons := { s.commons with time := s.commons.time + d } }
  | .route router entry => some { s with routes := s.routes ++ [.create router entry] }
  | .poll r script =>
      s.routes[r]?.bind fun route => (route.poll net script s.commons).map (s.settle r)
  | .drop r => s.routes[r]?.bind fun route => (route.drop net s.commons).map (s.settle r)
  | .panic r script =>
      s.routes[r]?.bind fun route => (route.panic net script s.commons).map (s.settle r)
  | .other p l =>
      if (l.names.map (s.owned p)).getD false then none
      else (s.commons.onPolicy net p l).map fun commons => { s with commons }

/-! ## Inversion of steps -/

section Inversion

variable {net : Network Id T E} {s s' : Fleet Id T E} {r : Nat}

theorem step_poll {script : RouteScript T E} (h : step net s (.poll r script) = some s') :
    ∃ route done, s.routes[r]? = some route ∧ route.poll net script s.commons = some done ∧
      s' = s.settle r done := by
  obtain ⟨route, hr, h⟩ := Option.bind_eq_some_iff.mp h
  obtain ⟨done, hdone, hs'⟩ := Option.map_eq_some_iff.mp h
  exact ⟨route, done, hr, hdone, hs'.symm⟩

theorem step_drop (h : step net s (.drop r) = some s') :
    ∃ route done, s.routes[r]? = some route ∧ route.drop net s.commons = some done ∧
      s' = s.settle r done := by
  obtain ⟨route, hr, h⟩ := Option.bind_eq_some_iff.mp h
  obtain ⟨done, hdone, hs'⟩ := Option.map_eq_some_iff.mp h
  exact ⟨route, done, hr, hdone, hs'.symm⟩

theorem step_panic {script : RouteScript T E} (h : step net s (.panic r script) = some s') :
    ∃ route done, s.routes[r]? = some route ∧ route.panic net script s.commons = some done ∧
      s' = s.settle r done := by
  obtain ⟨route, hr, h⟩ := Option.bind_eq_some_iff.mp h
  obtain ⟨done, hdone, hs'⟩ := Option.map_eq_some_iff.mp h
  exact ⟨route, done, hr, hdone, hs'.symm⟩

theorem step_other {p : Nat} {l : System.Label T E} (h : step net s (.other p l) = some s') :
    (∀ i, l.names = some i → s.owned p i = false) ∧
      ∃ commons, s.commons.onPolicy net p l = some commons ∧ s' = { s with commons } := by
  simp only [step] at h
  split at h
  next => cases h
  next hfree =>
    refine ⟨fun i hi => ?_, ?_⟩
    · simpa [hi] using hfree
    · obtain ⟨commons, hc, hs'⟩ := Option.map_eq_some_iff.mp h
      exact ⟨commons, hc, hs'.symm⟩

end Inversion

end Fleet

/-! ## What happens to the shared state -/

/-- `c'` comes out of `c`: time passes, loads change, calls of policies make steps. -/
inductive Commons.Evolves (net : Network Id T E) (c : Commons T E) : Commons T E → Prop where
  | start : Evolves net c c
  | later {c' : Commons T E} (h : Evolves net c c') {t : Nat} (ht : c'.time ≤ t)
      (loads : Nat → MemberState) : Evolves net c { c' with time := t, loads }
  | policy {c' c'' : Commons T E} (h : Evolves net c c') {p : Nat} {l : System.Label T E}
      (hstep : c'.onPolicy net p l = some c'') : Evolves net c c''

theorem Commons.onPolicy_cases {net : Network Id T E} {c c' : Commons T E} {p : Nat}
    {l : System.Label T E} (h : c.onPolicy net p l = some c') :
    System.step (net.plans p) ((c.systems p).atTime c.time) l = some (c'.systems p) ∧
      c'.time = (c'.systems p).shared.core.time ∧ ∀ q, q ≠ p → c'.systems q = c.systems q := by
  obtain ⟨s, hs, rfl⟩ := Option.map_eq_some_iff.mp h
  have hself : Function.update c.systems p s p = s := Function.update_self ..
  refine ⟨hs.trans (congrArg some hself.symm), ?_, fun q hq => Function.update_of_ne hq ..⟩
  exact congrArg (fun s : System T E => s.shared.core.time) hself.symm

namespace Commons.Evolves

variable {net : Network Id T E} {c c' : Commons T E}

theorem eachSystem {P : Nat → System T E → Prop}
    (htime : ∀ p (s : System T E) t, P p s → P p (s.atTime t))
    (hstep : ∀ p s l s', P p s → System.step (net.plans p) s l = some s' → P p s')
    (h : c.Evolves net c') (h₀ : ∀ p, P p (c.systems p)) : ∀ p, P p (c'.systems p) := by
  induction h with
  | start => exact h₀
  | later _ _ _ ih => exact ih
  | @policy c' c'' _ q l hstep' ih =>
      obtain ⟨hs, _, hothers⟩ := onPolicy_cases hstep'
      intro p
      by_cases hp : p = q
      · subst hp
        exact hstep p _ l _ (htime p _ _ (ih p)) hs
      · rw [hothers p hp]
        exact ih p

theorem told (h : c.Evolves net c') (p : Nat) (cfg : BreakerConfig)
    (hcfg : ∀ b, (net.plans p).breaker = some b → b.config = cfg) :
    ∃ news, (c'.systems p).trace = (c.systems p).trace ++ news ∧
      BreakerTold cfg c.time (c.systems p).shared.breaker (breakerOps (news.map Prod.snd)) c'.time
        (c'.systems p).shared.breaker := by
  induction h with
  | start => exact ⟨[], (List.append_nil _).symm, .start⟩
  | later _ ht _ ih =>
      obtain ⟨news, hnews, htold⟩ := ih
      exact ⟨news, hnews, htold.later ht⟩
  | @policy c' c'' _ q l hstep ih =>
      obtain ⟨news, hnews, htold⟩ := ih
      obtain ⟨hs, ht, hothers⟩ := onPolicy_cases hstep
      by_cases hp : p = q
      · subst hp
        obtain ⟨more, hmore, htold'⟩ := told_step hcfg _ l _ hs
        refine ⟨news ++ more, ?_, ?_⟩
        · rw [hmore, ← List.append_assoc, ← hnews]
          rfl
        · rw [ht, List.map_append, breakerOps_append]
          exact htold.trans htold'
      · have hany : ∀ b, (net.plans q).breaker = some b →
            b.config = ((net.plans q).breaker.map fun b => b.config).getD cfg := by
          intro b hb
          simp [hb]
        rw [hothers p hp, ht]
        obtain ⟨_, _, hother⟩ := told_step hany _ l _ hs
        exact ⟨news, hnews, htold.later hother.le⟩

theorem trans {c'' : Commons T E} (h : c.Evolves net c') (h' : c'.Evolves net c'') :
    c.Evolves net c'' := by
  induction h' with
  | start => exact h
  | later _ ht loads ih => exact ih.later ht loads
  | policy _ hstep ih => exact ih.policy hstep

theorem le (h : c.Evolves net c') : c.time ≤ c'.time := by
  obtain ⟨_, _, htold⟩ := h.told 0 (((net.plans 0).breaker.map fun b => b.config).getD
    (.consecutiveFailures 1)) (fun b hb => by simp [hb])
  exact htold.le

end Commons.Evolves

theorem time_le_healthyMembers (ms : List (Plan T E × BreakerRuntime)) (s : Scan) (k : Core) :
    k.time ≤ (healthyMembers ms s k).2.time := by
  induction ms generalizing s k with
  | nil => exact Nat.le_refl _
  | cons m ms ih =>
      have hlook : k.time ≤ (look m k).2.time := by
        unfold look
        dsimp only
        split
        · exact Nat.le_trans k.time_le_tick k.tick.time_le_tick
        · exact k.time_le_tick
      exact Nat.le_trans hlook (ih _ _)

/-! ## Stretches of a run -/

namespace Route

variable {net : Network Id T E} {route : Route Id T E} {script : RouteScript T E}
  {c : Commons T E} {done : Route Id T E × Commons T E}

/-- The head of the loop: a bad score ends the run, or a member's call is created. -/
theorem choose_cases {healthy : List Nat} (h : route.choose net healthy script c = some done) :
    (∃ e k, (net.routers route.router).choose c.loads healthy
        ⟨c.time, script.ticks, script.draws⟩ = (.error e, k) ∧
      done = ({ route with stage := .returned (.error e) }, { c with time := k.time })) ∨
    ∃ chosen k target c', (net.routers route.router).choose c.loads healthy
        ⟨c.time, script.ticks, script.draws⟩ = (.ok (some chosen), k) ∧
      (net.routers route.router).targets[chosen]? = some target ∧
      ({ c with time := k.tick.time }.withLoad target.state
        (c.loads target.state).acquire).onPolicy net target.policy .call = some c' ∧
      done = ({ route with
        attempts := route.attempts + 1
        stage := .calling healthy chosen target (c.systems target.policy).calls.length
          k.tick.time }, c') := by
  unfold choose at h
  dsimp only at h
  split at h
  next e k hchoose => exact .inl ⟨e, k, hchoose, (Option.some.inj h).symm⟩
  next => cases h
  next chosen k hchoose =>
    obtain ⟨target, htarget, h⟩ := Option.bind_eq_some_iff.mp h
    obtain ⟨c', hc', hdone⟩ := Option.map_eq_some_iff.mp h
    exact .inr ⟨chosen, k, target, c', hchoose, htarget, hc', hdone.symm⟩

/-- A poll of the member's call: it is still pending, or the run goes on with its result. -/
theorem await_cases {healthy : List Nat} {chosen call attemptStart : Nat} {target : Target Id}
    (h : route.await net healthy chosen target call attemptStart script c = some done) :
    ∃ c', c.onPolicy net target.policy (.poll call script.member) = some c' ∧
      (((c'.systems target.policy).resultOf call = none ∧ done = (route, c')) ∨
       ∃ outcome, (c'.systems target.policy).resultOf call = some outcome ∧
        done = route.settle net healthy { chosen, target, call, outcome } attemptStart script
          c') := by
  obtain ⟨c', hc', hdone⟩ := Option.map_eq_some_iff.mp h
  refine ⟨c', hc', ?_⟩
  cases hr : (c'.systems target.policy).resultOf call with
  | none =>
      simp only [hr] at hdone
      exact .inl ⟨rfl, hdone.symm⟩
  | some outcome =>
      simp only [hr] at hdone
      exact .inr ⟨outcome, rfl, hdone.symm⟩

theorem settle_commons (net : Network Id T E) (route : Route Id T E) (healthy : List Nat)
    (tried : Tried Id T E) (attemptStart : Nat) (script : RouteScript T E) (c : Commons T E) :
    ∃ t loads, c.time ≤ t ∧
      (route.settle net healthy tried attemptStart script c).2 = { c with time := t, loads } := by
  have hle := MemberState.time_le_recordAttempt (net.routers route.router).meter attemptStart
    tried.outcome.isOk (c.loads tried.target.state) ⟨c.time, script.ticks, script.draws⟩
  unfold settle
  dsimp only
  split
  · exact ⟨_, _, hle, rfl⟩
  · exact ⟨_, _, hle, rfl⟩

/-- What the end of a member's call does to the loads: it is recorded, its guard dropped. -/
theorem settle_loads (net : Network Id T E) (route : Route Id T E) (healthy : List Nat)
    (tried : Tried Id T E) (attemptStart : Nat) (script : RouteScript T E) (c : Commons T E) :
    (route.settle net healthy tried attemptStart script c).2.loads =
      Function.update c.loads tried.target.state
        ((c.loads tried.target.state).recordAttempt (net.routers route.router).meter attemptStart
          tried.outcome.isOk ⟨c.time, script.ticks, script.draws⟩).1.release := by
  unfold settle
  dsimp only
  split
  · rfl
  · rfl

theorem settle_stage (net : Network Id T E) (route : Route Id T E) (healthy : List Nat)
    (tried : Tried Id T E) (attemptStart : Nat) (script : RouteScript T E) (c : Commons T E) :
    (∃ r, (route.settle net healthy tried attemptStart script c).1.stage = .returned r) ∨
      (route.settle net healthy tried attemptStart script c).1.stage =
        .choosing (healthy.filter fun i => i != tried.chosen) := by
  unfold settle
  dsimp only
  split
  · exact .inl ⟨_, rfl⟩
  · unfold goOn
    by_cases hrest : (healthy.filter fun i => i != tried.chosen) = []
    · exact .inl ⟨_, if_pos hrest⟩
    · exact .inr (if_neg hrest)

theorem poll_evolves (h : route.poll net script c = some done) : c.Evolves net done.2 := by
  unfold poll at h
  cases hstage : route.stage with
  | created =>
      simp only [hstage, Option.some.injEq] at h
      rw [← h]
      exact .later .start (time_le_healthyMembers _ .empty ⟨c.time, _, _⟩) c.loads
  | choosing healthy =>
      simp only [hstage] at h
      have htime := (net.routers route.router).choose_time c.loads healthy
        ⟨c.time, script.ticks, script.draws⟩
      rcases choose_cases h with ⟨e, k, hk, rfl⟩ | ⟨chosen, k, target, c', hk, _, hc', rfl⟩
      · rw [hk] at htime
        exact .later .start (Nat.le_of_eq htime.symm) c.loads
      · rw [hk] at htime
        have hle : c.time ≤ k.tick.time := Nat.le_trans (Nat.le_of_eq htime.symm) k.time_le_tick
        exact .policy (.later .start hle _) hc'
  | calling healthy chosen target call attemptStart =>
      simp only [hstage] at h
      obtain ⟨c', hc', ⟨_, rfl⟩ | ⟨outcome, _, rfl⟩⟩ := await_cases h
      · exact .policy .start hc'
      · obtain ⟨t, loads, ht, heq⟩ := settle_commons net route healthy
          ⟨chosen, target, call, outcome⟩ attemptStart script c'
        rw [heq]
        exact .later (.policy .start hc') ht loads
  | returned r => simp [hstage] at h
  | dropped => simp [hstage] at h

theorem drop_cases (h : route.drop net c = some done) :
    done.1 = { route with stage := .dropped } ∧ c.Evolves net done.2 := by
  unfold drop at h
  cases hstage : route.stage with
  | created =>
      simp only [hstage, Option.some.injEq] at h
      rw [← h]
      exact ⟨rfl, .start⟩
  | choosing healthy =>
      simp only [hstage, Option.some.injEq] at h
      rw [← h]
      exact ⟨rfl, .start⟩
  | calling healthy chosen target call attemptStart =>
      simp only [hstage] at h
      obtain ⟨c', hc', rfl⟩ := Option.map_eq_some_iff.mp h
      exact ⟨rfl, .later (.policy .start hc') (Nat.le_refl _) _⟩
  | returned r => simp [hstage] at h
  | dropped => simp [hstage] at h

theorem panic_cases (h : route.panic net script c = some done) :
    ∃ healthy chosen target call attemptStart c' outcome,
      route.stage = .calling healthy chosen target call attemptStart ∧
      c.onPolicy net target.policy (.poll call script.member) = some c' ∧
      (c'.systems target.policy).resultOf call = some outcome ∧
      done = ({ route with stage := .dropped },
        c'.withLoad target.state (c'.loads target.state).release) := by
  unfold panic at h
  cases hstage : route.stage with
  | calling healthy chosen target call attemptStart =>
      simp only [hstage] at h
      obtain ⟨c', hc', h⟩ := Option.bind_eq_some_iff.mp h
      obtain ⟨outcome, houtcome, hdone⟩ := Option.map_eq_some_iff.mp h
      exact ⟨_, _, _, _, _, c', outcome, rfl, hc', houtcome, hdone.symm⟩
  | _ => simp [hstage] at h

theorem panic_evolves (h : route.panic net script c = some done) :
    done.1 = { route with stage := .dropped } ∧ c.Evolves net done.2 := by
  obtain ⟨_, _, _, _, _, c', _, _, hc', _, rfl⟩ := panic_cases h
  exact ⟨rfl, .later (.policy .start hc') (Nat.le_refl _) _⟩

end Route

namespace Fleet

variable {net : Network Id T E}

theorem step_evolves {s s' : Fleet Id T E} {l : Label T E} (h : step net s l = some s') :
    s.commons.Evolves net s'.commons := by
  cases l with
  | elapse d =>
      cases h
      exact .later .start (Nat.le_add_right _ _) s.commons.loads
  | route router entry =>
      cases h
      exact .start
  | poll r script =>
      obtain ⟨route, done, _, hdone, rfl⟩ := step_poll h
      exact Route.poll_evolves hdone
  | drop r =>
      obtain ⟨route, done, _, hdone, rfl⟩ := step_drop h
      exact (Route.drop_cases hdone).2
  | panic r script =>
      obtain ⟨route, done, _, hdone, rfl⟩ := step_panic h
      exact (Route.panic_evolves hdone).2
  | other p l =>
      obtain ⟨_, c, hc, rfl⟩ := step_other h
      exact .policy .start hc

/-- Every run, in the shared state as it is, satisfies `P`. -/
def EachRoute (P : Commons T E → Route Id T E → Prop) (s : Fleet Id T E) : Prop :=
  ∀ (r : Nat) (route : Route Id T E), s.routes[r]? = some route → P s.commons route

/-- What holds of a fresh run, survives whatever others do and is preserved by the run's
own stretches holds of every run. -/
theorem eachRoute_step {P : Commons T E → Route Id T E → Prop}
    (hframe : ∀ c c' route, P c route → c.Evolves net c' → P c' route)
    (s : Fleet Id T E) (l : Label T E) (s' : Fleet Id T E)
    (hcreate : ∀ router entry, P s.commons (.create router entry))
    (hpoll : ∀ route script done, P s.commons route →
      route.poll net script s.commons = some done → P done.2 done.1)
    (hdrop : ∀ route c, P s.commons route → s.commons.Evolves net c →
      P c { route with stage := .dropped })
    (h : EachRoute P s) (hstep : step net s l = some s') : EachRoute P s' := by
  have hother := step_evolves hstep
  cases l with
  | elapse d =>
      cases hstep
      exact fun r route hr => hframe _ _ route (h r route hr) hother
  | route router entry =>
      cases hstep
      intro r route hr
      rcases TaskPool.getElem?_snoc_cases hr with ⟨_, rfl⟩ | hold
      · exact hcreate router entry
      · exact h r route hold
  | poll i script =>
      obtain ⟨moved, done, hi, hdone, rfl⟩ := step_poll hstep
      intro r route hr
      rcases TaskPool.getElem?_set_cases hr with ⟨_, rfl⟩ | ⟨_, hold⟩
      · exact hpoll moved script done (h i moved hi) hdone
      · exact hframe _ _ route (h r route hold) hother
  | drop i =>
      obtain ⟨moved, done, hi, hdone, rfl⟩ := step_drop hstep
      intro r route hr
      rcases TaskPool.getElem?_set_cases hr with ⟨_, rfl⟩ | ⟨_, hold⟩
      · obtain ⟨hdropped, hevolves⟩ := Route.drop_cases hdone
        rw [hdropped]
        exact hdrop moved done.2 (h i moved hi) hevolves
      · exact hframe _ _ route (h r route hold) hother
  | panic i script =>
      obtain ⟨moved, done, hi, hdone, rfl⟩ := step_panic hstep
      intro r route hr
      rcases TaskPool.getElem?_set_cases hr with ⟨_, rfl⟩ | ⟨_, hold⟩
      · obtain ⟨hdropped, hevolves⟩ := Route.panic_evolves hdone
        rw [hdropped]
        exact hdrop moved done.2 (h i moved hi) hevolves
      · exact hframe _ _ route (h r route hold) hother
  | other p l =>
      obtain ⟨_, c, hc, rfl⟩ := step_other hstep
      exact fun r route hr => hframe _ _ route (h r route hr) hother

theorem eachRoute_init (net : Network Id T E) (start : Nat)
    (P : Commons T E → Route Id T E → Prop) : EachRoute P (init net start) := by
  intro r route hr
  simp [init] at hr

end Fleet

end ExecutionPolicy
