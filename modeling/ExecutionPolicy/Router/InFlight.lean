import ExecutionPolicy.Router.Contract

/-! # In-flight accounting

A member's `in_flight` counts the guards held on it, whichever router's run holds them.
-/

namespace ExecutionPolicy

open StepSystem

variable {Id T E : Type}

/-! ## Guards -/

/-- The run has an attempt in progress on the member with load state `m`. -/
def Route.inProgress (m : Nat) (route : Route Id T E) : Bool :=
  match route.stage with
  | .calling _ _ target _ _ => target.state == m
  | _ => false

/-- What a run contributes to the `in_flight` of `m`. -/
def Route.share (m : Nat) (route : Route Id T E) : Nat := if route.inProgress m then 1 else 0

@[simp] theorem MemberState.inFlight_recordAttempt (meter : Option Meter) (attemptStart : Nat)
    (ok : Bool) (m : MemberState) (k : Core) :
    (m.recordAttempt meter attemptStart ok k).1.inFlight = m.inFlight := by
  cases meter <;> rfl

theorem Commons.onPolicy_loads {net : Network Id T E} {c c' : Commons T E} {p : Nat}
    {l : System.Label T E} (h : c.onPolicy net p l = some c') : c'.loads = c.loads := by
  obtain ⟨s, _, rfl⟩ := Option.map_eq_some_iff.mp h
  rfl

theorem Commons.withLoad_self (c : Commons T E) (i : Nat) (m : MemberState) :
    (c.withLoad i m).loads i = m := Function.update_self ..

theorem load_update_same {f : MemberState → Nat} {loads : Nat → MemberState} {i : Nat}
    {load : MemberState} (h : f load = f (loads i)) (m : Nat) :
    f (Function.update loads i load m) = f (loads m) := by
  by_cases hm : m = i
  · rw [hm, Function.update_self, h]
  · rw [Function.update_of_ne hm]

section Stretches

variable {net : Network Id T E} {route : Route Id T E} {script : RouteScript T E}
  {c : Commons T E} {done : Route Id T E × Commons T E} {m : Nat}

/-! ## What a stretch does to the loads -/

theorem Route.inProgress_of_not_calling (h : route.owns = none) : route.inProgress m = false := by
  unfold Route.inProgress
  unfold Route.owns at h
  cases hstage : route.stage with
  | calling healthy chosen target call attemptStart => simp [hstage] at h
  | _ => rfl

theorem Route.share_of_not_calling (h : route.owns = none) : route.share m = 0 := by
  unfold Route.share
  rw [Route.inProgress_of_not_calling h]
  rfl

theorem Route.share_of_calling {healthy : List Nat} {chosen call attemptStart : Nat}
    {target : Target Id}
    (hstage : route.stage = .calling healthy chosen target call attemptStart) :
    route.share m = if target.state = m then 1 else 0 := by
  simp [Route.share, Route.inProgress, hstage]

/-- The poll of a run leaves the loads as they are, takes a guard on the member it chose, or
records the attempt on it and drops the guard. -/
theorem Route.poll_loads (h : route.poll net script c = some done) :
    (done.2.loads = c.loads ∧ ∀ m, done.1.inProgress m = route.inProgress m) ∨
    (∃ healthy chosen target call attemptStart, route.stage = .choosing healthy ∧
      done.1.stage = .calling healthy chosen target call attemptStart ∧
      done.2.loads = Function.update c.loads target.state (c.loads target.state).acquire) ∨
    ∃ (tried : Tried Id T E) (healthy : List Nat) (attemptStart : Nat) (k : Core),
      route.stage = .calling healthy tried.chosen tried.target tried.call attemptStart ∧
      done.1.owns = none ∧ done.1.history = route.history ++ [tried] ∧
      done.2.loads = Function.update c.loads tried.target.state
        ((c.loads tried.target.state).recordAttempt (net.routers route.router).meter attemptStart
          tried.outcome.isOk k).1.release := by
  unfold Route.poll at h
  cases hstage : route.stage with
  | created =>
      simp only [hstage] at h
      cases h
      have hbefore : route.owns = none := by simp [Route.owns, hstage]
      have hafter : (route.enter net script c).1.owns = none := by
        unfold Route.enter Route.owns
        dsimp only
        split
        next heq => split at heq <;> cases heq
        next => rfl
      refine .inl ⟨rfl, fun m => ?_⟩
      rw [Route.inProgress_of_not_calling hbefore, Route.inProgress_of_not_calling hafter]
  | choosing healthy =>
      simp only [hstage] at h
      rcases Route.choose_cases h with ⟨e, k, _, rfl⟩ | ⟨chosen, k, target, c', _, _, hc', rfl⟩
      · have hbefore : route.owns = none := by simp [Route.owns, hstage]
        refine .inl ⟨rfl, fun m => ?_⟩
        rw [Route.inProgress_of_not_calling hbefore]
        rfl
      · exact .inr (.inl ⟨_, _, _, _, _, rfl, rfl, Commons.onPolicy_loads hc'⟩)
  | calling healthy chosen target call attemptStart =>
      simp only [hstage] at h
      obtain ⟨c', hc', ⟨_, rfl⟩ | ⟨outcome, _, rfl⟩⟩ := Route.await_cases h
      · exact .inl ⟨Commons.onPolicy_loads hc', fun _ => rfl⟩
      · refine .inr (.inr ⟨⟨chosen, target, call, outcome⟩, healthy, attemptStart,
          ⟨c'.time, script.ticks, script.draws⟩, rfl, Route.settle_owns .., Route.settle_history ..,
          ?_⟩)
        rw [Route.settle_loads, Commons.onPolicy_loads hc']
  | returned r => simp [hstage] at h
  | dropped => simp [hstage] at h

/-- The run drops the guard it holds, if it holds one. -/
def LetsGo (c : Commons T E) (route : Route Id T E) (done : Route Id T E × Commons T E) : Prop :=
  done.1.owns = none ∧
    ((route.owns = none ∧ done.2.loads = c.loads) ∨
      ∃ healthy chosen target call attemptStart,
        route.stage = .calling healthy chosen target call attemptStart ∧
        done.2.loads = Function.update c.loads target.state (c.loads target.state).release)

theorem Route.letsGo_drop (h : route.drop net c = some done) : LetsGo c route done := by
  unfold Route.drop at h
  cases hstage : route.stage with
  | created =>
      simp only [hstage] at h
      cases h
      exact ⟨rfl, .inl ⟨by simp [Route.owns, hstage], rfl⟩⟩
  | choosing healthy =>
      simp only [hstage] at h
      cases h
      exact ⟨rfl, .inl ⟨by simp [Route.owns, hstage], rfl⟩⟩
  | calling healthy chosen target call attemptStart =>
      simp only [hstage] at h
      obtain ⟨c', hc', rfl⟩ := Option.map_eq_some_iff.mp h
      refine ⟨rfl, .inr ⟨_, _, _, _, _, hstage, ?_⟩⟩
      rw [← Commons.onPolicy_loads hc']
      rfl
  | returned r => simp [hstage] at h
  | dropped => simp [hstage] at h

theorem Route.letsGo_panic (h : route.panic net script c = some done) : LetsGo c route done := by
  obtain ⟨_, _, target, _, _, c', _, hstage, hc', _, rfl⟩ := Route.panic_cases h
  refine ⟨rfl, .inr ⟨_, _, _, _, _, hstage, ?_⟩⟩
  rw [← Commons.onPolicy_loads hc']
  rfl

/-! ## The run's own share -/

/-- From `c` to `done` the load of `m` changes by what the run's own share changes. -/
def OwnShare (m : Nat) (c : Commons T E) (route : Route Id T E)
    (done : Route Id T E × Commons T E) : Prop :=
  (done.2.loads m).inFlight + route.share m = (c.loads m).inFlight + done.1.share m

/-- Releasing a guard takes the run's share off the load, which is there to be taken. -/
theorem ownShare_release {healthy : List Nat} {chosen call attemptStart : Nat}
    {target : Target Id} (hstage : route.stage = .calling healthy chosen target call attemptStart)
    (hheld : route.share m ≤ (c.loads m).inFlight) (hended : done.1.owns = none)
    {load : MemberState} (hload : load.inFlight = (c.loads target.state).inFlight)
    (hloads : done.2.loads = Function.update c.loads target.state load.release) :
    OwnShare m c route done := by
  have hshare : route.share m = if target.state = m then 1 else 0 := Route.share_of_calling hstage
  unfold OwnShare
  rw [Route.share_of_not_calling hended, hloads]
  rw [hshare] at hheld ⊢
  by_cases hm : target.state = m
  · rw [if_pos hm] at hheld ⊢
    rw [← hm] at hheld ⊢
    rw [Function.update_self]
    simp only [MemberState.release]
    omega
  · rw [if_neg hm, Function.update_of_ne fun h => hm h.symm]

theorem ownShare_poll (hheld : route.share m ≤ (c.loads m).inFlight)
    (h : route.poll net script c = some done) : OwnShare m c route done := by
  rcases Route.poll_loads h with ⟨hloads, hsame⟩ |
    ⟨healthy, chosen, target, call, attemptStart, hbefore, hafter, hloads⟩ |
    ⟨tried, healthy, attemptStart, k, hstage, hended, _, hloads⟩
  · unfold OwnShare Route.share
    rw [hloads, hsame]
  · unfold OwnShare
    rw [hloads, Route.share_of_not_calling (by simp [Route.owns, hbefore]),
      Route.share_of_calling hafter]
    by_cases hm : target.state = m
    · rw [if_pos hm, ← hm, Function.update_self]
      rfl
    · rw [if_neg hm, Function.update_of_ne fun h => hm h.symm]
  · exact ownShare_release hstage hheld hended (MemberState.inFlight_recordAttempt ..) hloads

theorem ownShare_letsGo (hheld : route.share m ≤ (c.loads m).inFlight) (h : LetsGo c route done) :
    OwnShare m c route done := by
  obtain ⟨hended, hletsGo⟩ := h
  rcases hletsGo with ⟨hidle, hloads⟩ |
    ⟨healthy, chosen, target, call, attemptStart, hstage, hloads⟩
  · unfold OwnShare
    rw [hloads, Route.share_of_not_calling hidle, Route.share_of_not_calling hended]
  · exact ownShare_release hstage hheld hended rfl hloads

end Stretches

/-! ## The count -/

namespace Fleet

variable {net : Network Id T E}

/-- How many runs have an attempt in progress on `m`. -/
def attemptsOn (s : Fleet Id T E) (m : Nat) : Nat :=
  TaskPool.count (Route.inProgress m) s.routes

/-- Every `in_flight` is the number of attempts in progress. -/
def Accounted (s : Fleet Id T E) : Prop :=
  ∀ m, (s.commons.loads m).inFlight = s.attemptsOn m

theorem Accounted.share_le {s : Fleet Id T E} (h : s.Accounted) {r m : Nat}
    {route : Route Id T E} (hr : s.routes[r]? = some route) :
    route.share m ≤ (s.commons.loads m).inFlight := by
  rw [h m]
  unfold Route.share
  by_cases hp : route.inProgress m = true
  · rw [if_pos hp]
    exact TaskPool.count_pos hr hp
  · rw [if_neg hp]
    exact Nat.zero_le _

theorem Accounted.settle {s : Fleet Id T E} (h : s.Accounted) {r : Nat} {route : Route Id T E}
    {done : Route Id T E × Commons T E} (hr : s.routes[r]? = some route)
    (hshare : ∀ m, OwnShare m s.commons route done) : (s.settle r done).Accounted := by
  intro m
  have hset := TaskPool.count_set (Route.inProgress m) hr done.1
  have hown := hshare m
  have hcount := h m
  unfold OwnShare Route.share at hown
  unfold attemptsOn at hcount ⊢
  show (done.2.loads m).inFlight = TaskPool.count (Route.inProgress m) (s.routes.set r done.1)
  omega

theorem accounted_step (s : Fleet Id T E) (l : Label T E) (s' : Fleet Id T E) (h : s.Accounted)
    (hstep : step net s l = some s') : s'.Accounted := by
  cases l with
  | elapse d =>
      cases hstep
      exact h
  | route router entry =>
      cases hstep
      intro m
      have hsnoc := TaskPool.count_snoc (Route.inProgress m) s.routes
        (.create router entry : Route Id T E)
      have hcount := h m
      unfold attemptsOn at hcount ⊢
      rw [hsnoc, if_neg (by simp [Route.inProgress, Route.create])]
      exact hcount
  | poll r script =>
      obtain ⟨route, done, hr, hdone, rfl⟩ := step_poll hstep
      exact h.settle hr fun m => ownShare_poll (h.share_le hr) hdone
  | drop r =>
      obtain ⟨route, done, hr, hdone, rfl⟩ := step_drop hstep
      exact h.settle hr fun m => ownShare_letsGo (h.share_le hr) (Route.letsGo_drop hdone)
  | panic r script =>
      obtain ⟨route, done, hr, hdone, rfl⟩ := step_panic hstep
      exact h.settle hr fun m => ownShare_letsGo (h.share_le hr) (Route.letsGo_panic hdone)
  | other p l =>
      obtain ⟨_, c, hc, rfl⟩ := step_other hstep
      intro m
      rw [Commons.onPolicy_loads hc]
      exact h m

theorem accounted_init (net : Network Id T E) (start : Nat) : (init net start).Accounted :=
  fun _ => rfl

theorem attemptsOn_eraseIdx {s : Fleet Id T E} {r m : Nat} {route : Route Id T E}
    (hr : s.routes[r]? = some route) (hnone : route.inProgress m = false) :
    TaskPool.count (Route.inProgress m) (s.routes.eraseIdx r) = s.attemptsOn m := by
  have hlt := (List.getElem?_eq_some_iff.mp hr).1
  have hperm := List.getElem_cons_eraseIdx_perm hlt
  have hget : s.routes[r] = route := (List.getElem?_eq_some_iff.mp hr).2
  have hcount := hperm.countP_eq (Route.inProgress m)
  rw [List.countP_cons_of_neg (by simp [hget, hnone])] at hcount
  exact hcount

end Fleet

/-- For any policies and any routers sharing members, and any interleaving of their runs
with each other, with drops, panics and other callers: the `in_flight` of each member is
the number of attempts in progress on it; of these none belongs to a run that is about to
choose; and an attempt in progress finds its own unit there when its guard is dropped. -/
theorem in_flight_counts_attempts (net : Network Id T E) (start : Nat)
    (ls : List (Fleet.Label T E)) (s : Fleet Id T E)
    (hrun : run (Fleet.step net) (Fleet.init net start) ls = some s) (m : Nat) :
    (s.commons.loads m).inFlight = s.attemptsOn m ∧
      (∀ (r : Nat) (route : Route Id T E) (healthy : List Nat), s.routes[r]? = some route →
        route.stage = .choosing healthy →
        (s.commons.loads m).inFlight =
          TaskPool.count (Route.inProgress m) (s.routes.eraseIdx r)) ∧
      (∀ (r : Nat) (route : Route Id T E), s.routes[r]? = some route →
        route.inProgress m = true → 0 < (s.commons.loads m).inFlight) := by
  have hall : s.Accounted :=
    invariant_of_step Fleet.accounted_step (Fleet.accounted_init net start) hrun
  refine ⟨hall m, fun r route healthy hr hstage => ?_, fun r route hr hp => ?_⟩
  · rw [Fleet.attemptsOn_eraseIdx hr (by simp [Route.inProgress, hstage])]
    exact hall m
  · rw [hall m]
    exact TaskPool.count_pos hr hp

def duringFirstCall : Fleet Nat Nat Nat :=
  (run (Fleet.step hastyPair) (Fleet.init hastyPair 0) (failover.take 4)).get rfl

theorem in_flight_counts_attempts_failover :
    (duringFirstCall.commons.loads 0).inFlight = 1 ∧ duringFirstCall.attemptsOn 0 = 1 ∧
      0 < (duringFirstCall.commons.loads 0).inFlight := by
  obtain ⟨hcount, _, hpos⟩ :=
    in_flight_counts_attempts hastyPair 0 (failover.take 4) duringFirstCall rfl 0
  have hone : duringFirstCall.attemptsOn 0 = 1 := rfl
  exact ⟨hcount.trans hone, hone, hpos 0 _ rfl rfl⟩

end ExecutionPolicy
