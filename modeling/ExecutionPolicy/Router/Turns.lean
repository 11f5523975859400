import ExecutionPolicy.Router.Pool

/-! # Rotation with failover

One run may call several members, each at most once, and stop anywhere. Sequential runs
of a rotation still never let one member get two picks ahead of another.
-/

namespace ExecutionPolicy

open StepSystem Sharing

variable {Id T E : Type}

/-! ## One run -/

abbrev RouterPolicy.picks (p : RouterPolicy Id E) (loads : Nat → MemberState) :
    Fin p.targets.length → Nat :=
  p.counts MemberState.pickCount loads

/-- A run's place in its round: the members it can still choose are those waiting for their
turn, and the one it calls has the fewest picks of them. -/
def Route.InTurn (p : RouterPolicy Id E) (loads : Nat → MemberState) (route : Route Id T E) :
    Prop :=
  match route.stage with
  | .choosing healthy => Round (p.picks loads) {i | i.val ∈ healthy}
  | .calling healthy chosen target _ _ =>
      ∃ i : Fin p.targets.length, i.val = chosen ∧ p.targets.get i = target ∧
        chosen ∈ healthy ∧ Round (p.picks loads) {i | i.val ∈ healthy} ∧
        ∀ j : Fin p.targets.length, j.val ∈ healthy → p.picks loads i ≤ p.picks loads j
  | _ => True

section Stretches

variable {net : Network Id T E} {r₀ : Nat} {route : Route Id T E} {script : RouteScript T E}
  {c : Commons T E} {done : Route Id T E × Commons T E}

theorem Route.inTurn_of_isOver {p : RouterPolicy Id E} {loads : Nat → MemberState}
    (h : route.stage.isOver = true) : route.InTurn p loads := by
  unfold Route.InTurn
  cases hstage : route.stage with
  | returned r => trivial
  | dropped => trivial
  | _ => simp [hstage, RouteStage.isOver] at h

/-- The pick counts are exact as doubles, so the chosen member has the fewest. -/
theorem RouterPolicy.choose_fewest {p : RouterPolicy Id E} {loads : Nat → MemberState}
    {healthy : List Nat} {core : Core} {i j : Fin p.targets.length}
    (hround : p.select = Pick.roundRobin) (hexact : ∀ i, p.picks loads i < 2 ^ 53)
    (h : (p.choose loads healthy core).1 = .ok (some i.val)) (hj : j.val ∈ healthy) :
    p.picks loads i ≤ p.picks loads j := by
  have hle := choose_roundRobin hround h (getElem?_member i) hj (getElem?_member j)
  have hi := F64.roundNat_of_lt (hexact i)
  have hj := F64.roundNat_of_lt (hexact j)
  unfold picks counts at hi hj
  rw [hi, hj] at hle
  exact hle

/-- A member's turn is over: it has one pick more and is not waiting any longer. -/
theorem Route.inTurn_settle {healthy : List Nat} {chosen call attemptStart : Nat}
    {target : Target Id}
    (h : route.InTurn (net.routers r₀) c.loads)
    (hstage : route.stage = .calling healthy chosen target call attemptStart)
    (outcome : Except (ExecutionError E) T) :
    Round ((net.routers r₀).picks (route.settle net healthy ⟨chosen, target, call, outcome⟩
        attemptStart script c).2.loads) {i | i.val ∈ healthy.filter fun i => i != chosen} ∧
      (route.settle net healthy ⟨chosen, target, call, outcome⟩ attemptStart script c).1.InTurn
        (net.routers r₀) (route.settle net healthy ⟨chosen, target, call, outcome⟩ attemptStart
          script c).2.loads := by
  unfold Route.InTurn at h
  rw [hstage] at h
  obtain ⟨i, rfl, rfl, hmem, hround, hleast⟩ := h
  have hpicks : (net.routers r₀).picks (route.settle net healthy
      ⟨i.val, (net.routers r₀).targets.get i, call, outcome⟩ attemptStart script c).2.loads =
        serve ((net.routers r₀).picks c.loads) i := by
    rw [Route.settle_loads]
    exact RouterPolicy.counts_update_succ (MemberState.pickCount_recordAttempt _ _ _ _ _)
  have hturn : Round ((net.routers r₀).picks (route.settle net healthy
      ⟨i.val, (net.routers r₀).targets.get i, call, outcome⟩ attemptStart script c).2.loads)
      {j | j.val ∈ healthy.filter fun j => j != i.val} := by
    rw [hpicks]
    apply hround.turn hmem hleast
    intro j
    simp [Fin.val_inj]
  refine ⟨hturn, ?_⟩
  unfold Route.InTurn
  rcases Route.settle_stage net route healthy
      ⟨i.val, (net.routers r₀).targets.get i, call, outcome⟩ attemptStart script c with
    ⟨r, hended⟩ | hnext
  · rw [hended]
    trivial
  · rw [hnext]
    exact hturn

theorem Route.inTurn_poll (hround : (net.routers r₀).select = Pick.roundRobin)
    (hr : route.router = r₀)
    (hhealthy : ∀ t ∈ (net.routers r₀).targets, c.circuitState net t c.time ≠ some .open)
    (hexact : ∀ i, (net.routers r₀).picks c.loads i < 2 ^ 53)
    (hspread : Spread ((net.routers r₀).picks c.loads))
    (h : route.InTurn (net.routers r₀) c.loads) (hdone : route.poll net script c = some done) :
    Spread ((net.routers r₀).picks done.2.loads) ∧
      done.1.InTurn (net.routers r₀) done.2.loads := by
  unfold Route.poll at hdone
  cases hstage : route.stage with
  | created =>
      simp only [hstage] at hdone
      cases hdone
      subst hr
      obtain ⟨healthy, hchoosing, hmem⟩ := route.enter_all script c hhealthy
      refine ⟨hspread, ?_⟩
      unfold Route.InTurn
      rw [hchoosing]
      exact hspread.round hmem
  | choosing healthy =>
      simp only [hstage] at hdone
      rcases Route.choose_cases hdone with
        ⟨e, k, _, rfl⟩ | ⟨chosen, k, target, c', hchoose, htarget, hc', rfl⟩
      · exact ⟨hspread, trivial⟩
      · subst hr
        -- the guard is acquired, which no pick count shows
        have hpicks : (net.routers route.router).picks c'.loads =
            (net.routers route.router).picks c.loads := by
          rw [Commons.onPolicy_loads hc']
          exact RouterPolicy.counts_update_same rfl
        have hchosen := congrArg Prod.fst hchoose
        obtain ⟨i, rfl, rfl⟩ := RouterPolicy.exists_member htarget
        unfold Route.InTurn at h ⊢
        rw [hstage] at h
        dsimp only at h ⊢
        rw [hpicks]
        exact ⟨hspread, i, rfl, rfl, RouterPolicy.choose_mem hchosen, h,
          fun j hj => RouterPolicy.choose_fewest hround hexact hchosen hj⟩
  | calling healthy chosen target call attemptStart =>
      simp only [hstage] at hdone
      obtain ⟨c', hc', ⟨_, rfl⟩ | ⟨outcome, _, rfl⟩⟩ := Route.await_cases hdone
      · dsimp only
        rw [Commons.onPolicy_loads hc']
        exact ⟨hspread, h⟩
      · rw [← Commons.onPolicy_loads hc'] at h
        obtain ⟨hturn, hnext⟩ := Route.inTurn_settle h hstage outcome
        exact ⟨hturn.spread, hnext⟩
  | returned r => simp [hstage] at hdone
  | dropped => simp [hstage] at hdone

end Stretches

/-! ## Sequential runs -/

namespace Fleet

variable {net : Network Id T E} {r₀ : Nat}

/-- Only router `r₀` is run, one run after the other, its members all healthy and their
pick counts exact as doubles. -/
def Sequential (net : Network Id T E) (r₀ : Nat) (s : Fleet Id T E) (l : Label T E) : Prop :=
  s.AllHealthy net r₀ ∧ (∀ i, (net.routers r₀).picks s.commons.loads i < 2 ^ 53) ∧
    match l with
    | .route router _ => router = r₀ ∧ ∀ route ∈ s.routes, route.stage.isOver = true
    | _ => True

instance (net : Network Id T E) (r₀ : Nat) (s : Fleet Id T E) (l : Label T E) :
    Decidable (Sequential net r₀ s l) :=
  match l with
  | .route _ _ => inferInstanceAs (Decidable (_ ∧ _ ∧ _ ∧ _))
  | .elapse _ => inferInstanceAs (Decidable (_ ∧ _ ∧ True))
  | .poll _ _ => inferInstanceAs (Decidable (_ ∧ _ ∧ True))
  | .drop _ => inferInstanceAs (Decidable (_ ∧ _ ∧ True))
  | .panic _ _ => inferInstanceAs (Decidable (_ ∧ _ ∧ True))
  | .other _ _ => inferInstanceAs (Decidable (_ ∧ _ ∧ True))

/-- At most one run is not over; it belongs to `r₀` and takes its members in turn. -/
structure TakingTurns (net : Network Id T E) (r₀ : Nat) (s : Fleet Id T E) : Prop where
  spread : Spread ((net.routers r₀).picks s.commons.loads)
  alone : ∀ (r r' : Nat) (route route' : Route Id T E), s.routes[r]? = some route →
    s.routes[r']? = some route' → route.stage.isOver = false → route'.stage.isOver = false →
      r = r'
  own : ∀ (r : Nat) (route : Route Id T E), s.routes[r]? = some route →
    route.stage.isOver = false → route.router = r₀
  turn : ∀ (r : Nat) (route : Route Id T E), s.routes[r]? = some route →
    route.InTurn (net.routers r₀) s.commons.loads

theorem TakingTurns.settle {s : Fleet Id T E} (h : s.TakingTurns net r₀) {r : Nat}
    {route : Route Id T E} {done : Route Id T E × Commons T E} (hr : s.routes[r]? = some route)
    (hlive : route.stage.isOver = false) (hrouter : done.1.router = route.router)
    (hspread : Spread ((net.routers r₀).picks done.2.loads))
    (hturn : done.1.InTurn (net.routers r₀) done.2.loads) :
    (s.settle r done).TakingTurns net r₀ := by
  have hover : ∀ (j : Nat) (other : Route Id T E), r ≠ j → s.routes[j]? = some other →
      other.stage.isOver = true := by
    intro j other hne hj
    by_contra hnot
    exact hne (h.alone r j route other hr hj hlive (Bool.not_eq_true _ ▸ hnot))
  refine ⟨hspread, fun j j' other other' hj hj' ho ho' => ?_, fun j other hj ho => ?_,
    fun j other hj => ?_⟩
  · rcases TaskPool.getElem?_set_cases hj with ⟨rfl, _⟩ | ⟨hne, hold⟩
    · rcases TaskPool.getElem?_set_cases hj' with ⟨rfl, _⟩ | ⟨hne', hold'⟩
      · rfl
      · rw [hover j' other' hne' hold'] at ho'
        cases ho'
    · rw [hover j other hne hold] at ho
      cases ho
  · rcases TaskPool.getElem?_set_cases hj with ⟨rfl, rfl⟩ | ⟨hne, hold⟩
    · rw [hrouter]
      exact h.own _ route hr hlive
    · exact h.own j other hold ho
  · rcases TaskPool.getElem?_set_cases hj with ⟨rfl, rfl⟩ | ⟨hne, hold⟩
    · exact hturn
    · exact Route.inTurn_of_isOver (hover j other hne hold)

theorem TakingTurns.letsGo {s : Fleet Id T E} (h : s.TakingTurns net r₀) {r : Nat}
    {route : Route Id T E} {done : Route Id T E × Commons T E} (hr : s.routes[r]? = some route)
    (hlive : route.stage.isOver = false) (hended : done.1 = { route with stage := .dropped })
    (hgo : LetsGo s.commons route done) : (s.settle r done).TakingTurns net r₀ := by
  have hpicks : (net.routers r₀).picks done.2.loads = (net.routers r₀).picks s.commons.loads :=
    RouterPolicy.counts_congr hgo.pickCount
  refine h.settle hr hlive (by rw [hended]) ?_ ?_
  · rw [hpicks]
    exact h.spread
  · exact Route.inTurn_of_isOver (by rw [hended]; rfl)

theorem takingTurns_step (hround : (net.routers r₀).select = Pick.roundRobin)
    (s : Fleet Id T E) (l : Label T E) (s' : Fleet Id T E) (h : s.TakingTurns net r₀)
    (hseq : Sequential net r₀ s l) (hstep : step net s l = some s') :
    s'.TakingTurns net r₀ := by
  cases l with
  | elapse d =>
      cases hstep
      exact ⟨h.spread, h.alone, h.own, h.turn⟩
  | route router entry =>
      cases hstep
      obtain ⟨_, _, hrouter, hidle⟩ := hseq
      have hover : ∀ (j : Nat) (other : Route Id T E), s.routes[j]? = some other →
          other.stage.isOver = true := fun j other hj => hidle other (List.mem_of_getElem? hj)
      refine ⟨h.spread, fun j j' other other' hj hj' ho ho' => ?_, fun j other hj ho => ?_,
        fun j other hj => ?_⟩
      · rcases TaskPool.getElem?_snoc_cases hj with ⟨hlast, _⟩ | hold
        · rcases TaskPool.getElem?_snoc_cases hj' with ⟨hlast', _⟩ | hold'
          · omega
          · rw [hover j' other' hold'] at ho'
            cases ho'
        · rw [hover j other hold] at ho
          cases ho
      · rcases TaskPool.getElem?_snoc_cases hj with ⟨_, rfl⟩ | hold
        · exact hrouter
        · exact h.own j other hold ho
      · rcases TaskPool.getElem?_snoc_cases hj with ⟨_, rfl⟩ | hold
        · exact trivial
        · exact h.turn j other hold
  | poll r script =>
      obtain ⟨route, done, hr, hdone, rfl⟩ := step_poll hstep
      have hlive := Route.poll_live hdone
      obtain ⟨hspread, hturn⟩ := Route.inTurn_poll hround (h.own r route hr hlive) hseq.1 hseq.2.1
        h.spread (h.turn r route hr) hdone
      exact h.settle hr hlive (Route.poll_router hdone) hspread hturn
  | drop r =>
      obtain ⟨route, done, hr, hdone, rfl⟩ := step_drop hstep
      exact h.letsGo hr (Route.drop_live hdone) (Route.drop_cases hdone).1 (Route.letsGo_drop hdone)
  | panic r script =>
      obtain ⟨route, done, hr, hdone, rfl⟩ := step_panic hstep
      exact h.letsGo hr (Route.panic_live hdone) (Route.panic_evolves hdone).1
        (Route.letsGo_panic hdone)
  | other p l =>
      obtain ⟨_, c, hc, rfl⟩ := step_other hstep
      have hloads := Commons.onPolicy_loads hc
      exact ⟨hloads ▸ h.spread, h.alone, h.own, hloads ▸ h.turn⟩

end Fleet

/-- For any router with any number of members, started idle with equal pick counts, and any
sequence of its runs one after the other, whose calls succeed, fail and advance, fail fast
or are given up, with the members healthy and their pick counts below `2 ^ 53`: in every
state, so after every run, no member has two picks more than another. -/
theorem round_robin_spreads_evenly (net : Network Id T E) (r₀ : Nat)
    (hround : (net.routers r₀).select = Pick.roundRobin) (s₀ s : Fleet Id T E) (n : Nat)
    (hidle : ∀ route ∈ s₀.routes, route.stage.isOver = true)
    (hequal : ∀ i, (net.routers r₀).picks s₀.commons.loads i = n) (ls : List (Fleet.Label T E))
    (hseq : Obeys (Fleet.step net) (Fleet.Sequential net r₀) s₀ ls)
    (hrun : run (Fleet.step net) s₀ ls = some s) (i j : Fin (net.routers r₀).targets.length) :
    (net.routers r₀).picks s.commons.loads i ≤ (net.routers r₀).picks s.commons.loads j + 1 := by
  have hover : ∀ (r : Nat) (route : Route Id T E), s₀.routes[r]? = some route →
      route.stage.isOver = true := fun r route hr => hidle route (List.mem_of_getElem? hr)
  have hstart : s₀.TakingTurns net r₀ := by
    refine ⟨spread_of_const hequal, fun r r' route route' hr _ hlive _ => ?_,
      fun r route hr hlive => ?_, fun r route hr => Route.inTurn_of_isOver (hover r route hr)⟩
    · rw [hover r route hr] at hlive
      cases hlive
    · rw [hover r route hr] at hlive
      cases hlive
  have hend : s.TakingTurns net r₀ := invariant (Fleet.takingTurns_step hround) hstart hseq hrun
  exact hend.spread i j

/-! Two members without breakers in rotation. -/

def sturdy : Plan Nat Nat := { hasty with breaker := none }

def sturdyRotation : Network Nat Nat Nat where
  plans := fun _ => sturdy
  routers := fun _ => rotatingPair

def polledRun (r : Nat) (member : Script Nat Nat) : Fleet.Label Nat Nat :=
  .poll r { ticks := [], draws := [], member }

/-- The head of the loop, the start of the member's operation and its end. -/
def attemptOf (r : Nat) (answer : Except Nat Nat) : List (Fleet.Label Nat Nat) :=
  [polledRun r .pending, polledRun r .pending, polledRun r (.answer 0 answer)]

/-- Run 0 fails on both members; run 1 is served by the first one. -/
def twoRounds : List (Fleet.Label Nat Nat) :=
  [.route 0 .run, polledRun 0 .pending] ++ attemptOf 0 (.error 7) ++ attemptOf 0 (.error 8) ++
    [.route 0 .run, polledRun 1 .pending] ++ attemptOf 1 (.ok 1)

def afterTwoRounds : Fleet Nat Nat Nat :=
  (run (Fleet.step sturdyRotation) (Fleet.init sturdyRotation 0) twoRounds).get rfl

theorem round_robin_spreads_evenly_twoRounds :
    (afterTwoRounds.commons.loads 0).pickCount ≤ (afterTwoRounds.commons.loads 1).pickCount + 1 :=
  round_robin_spreads_evenly sturdyRotation 0 rfl (Fleet.init sturdyRotation 0) afterTwoRounds 0
    (fun _ h => nomatch h) (fun _ => rfl) twoRounds (by decide +kernel) rfl
    ⟨0, Nat.two_pos⟩ ⟨1, Nat.one_lt_two⟩

end ExecutionPolicy
