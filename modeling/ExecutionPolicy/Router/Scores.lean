import ExecutionPolicy.Router.ParkHint

/-! # What a score closure sees

The healthy members are scanned once, at the start of a run; scores are asked later.
-/

namespace ExecutionPolicy

open StepSystem

variable {Id T E : Type}

/-! ## The candidates handed out -/

/-- The candidates the scoring loop hands to the closure: all of them, up to the first one
whose score is not finite. -/
def handed (score : Candidate Id → F64) : List (Candidate Id) → List (Candidate Id)
  | [] => []
  | c :: cs => c :: (if (score c).isFinite then handed score cs else [])

/-- The loop asks for no other scores. -/
theorem argmin_congr {score score' : Candidate Id → F64} (cs : List (Candidate Id))
    (best : Option (Candidate Id × F64)) (h : ∀ c ∈ handed score cs, score' c = score c) :
    (argmin score' cs best : Except (RouterError Id E) _) = argmin score cs best := by
  induction cs generalizing best with
  | nil => rfl
  | cons c cs ih =>
      have hfirst : score' c = score c := h c List.mem_cons_self
      simp only [argmin, hfirst]
      by_cases hs : (score c).isFinite = true
      · rw [if_pos hs, if_pos hs]
        apply ih
        intro c' hc'
        apply h c'
        simp only [handed, hs, if_true]
        exact List.mem_cons_of_mem c hc'
      · rw [if_neg hs, if_neg hs]

theorem handed_subset (score : Candidate Id → F64) (cs : List (Candidate Id)) :
    handed score cs ⊆ cs := by
  induction cs with
  | nil => exact List.Subset.refl []
  | cons c cs ih =>
      intro c' hc'
      rcases List.mem_cons.mp hc' with rfl | hrest
      · exact List.mem_cons_self
      · by_cases hs : (score c).isFinite = true
        · rw [if_pos hs] at hrest
          exact List.mem_cons_of_mem c (ih hrest)
        · rw [if_neg hs] at hrest
          cases hrest

def RouterPolicy.scored (p : RouterPolicy Id E) (loads : Nat → MemberState) (healthy : List Nat)
    (core : Core) : List (Candidate Id) :=
  let cands := healthy.filterMap (p.candidate loads)
  handed p.select.score
    ((positions p.select.sample cands.length core).1.filterMap fun i => cands[i]?)

theorem RouterPolicy.scored_mem {p : RouterPolicy Id E} {loads : Nat → MemberState}
    {healthy : List Nat} {core : Core} {cand : Candidate Id}
    (h : cand ∈ p.scored loads healthy core) :
    cand.index ∈ healthy ∧
      ∃ target, p.targets[cand.index]? = some target ∧ cand.id = target.id := by
  obtain ⟨i, _, hi⟩ := List.mem_filterMap.mp (handed_subset _ _ h)
  obtain ⟨ti, hti, hcand⟩ := List.mem_filterMap.mp (List.mem_of_getElem? hi)
  rw [candidate_index hcand]
  obtain ⟨target, htarget, rfl⟩ := Option.map_eq_some_iff.mp hcand
  exact ⟨hti, target, htarget, rfl⟩

/-- When run `r` scores its members, none of them is open at that moment. -/
def SeesNoOpen (net : Network Id T E) (s : Fleet Id T E) : Fleet.Label T E → Prop
  | .poll r script => ∀ (route : Route Id T E) (healthy : List Nat), s.routes[r]? = some route →
      route.stage = .choosing healthy →
      ∀ cand ∈ (net.routers route.router).scored s.commons.loads healthy
          ⟨s.commons.time, script.ticks, script.draws⟩,
        ∃ target, (net.routers route.router).targets[cand.index]? = some target ∧
          cand.id = target.id ∧
          s.commons.circuitState net target s.commons.time ≠ some .open
  | _ => True

/-! ## Listed members -/

def Route.listed (route : Route Id T E) : List Nat :=
  match route.stage with
  | .choosing healthy => healthy
  | .calling healthy chosen _ _ _ => healthy.filter fun i => i != chosen
  | _ => []

/-- The step opens the circuit of no member that some run has listed. -/
def KeepsListed (net : Network Id T E) (s : Fleet Id T E) (l : Fleet.Label T E) : Prop :=
  ∀ s' ∈ Fleet.step net s l, ∀ route ∈ s.routes, ∀ i ∈ route.listed,
    ∀ target ∈ (net.routers route.router).targets[i]?,
      s.commons.circuitState net target s.commons.time ≠ some .open →
      s'.commons.circuitState net target s'.commons.time ≠ some .open

instance (net : Network Id T E) (s : Fleet Id T E) (l : Fleet.Label T E) :
    Decidable (KeepsListed net s l) := by
  unfold KeepsListed
  infer_instance

def ListedClosed (net : Network Id T E) (c : Commons T E) (route : Route Id T E) : Prop :=
  ∀ i ∈ route.listed, ∀ target, (net.routers route.router).targets[i]? = some target →
    c.circuitState net target c.time ≠ some .open

section Invariant

variable {net : Network Id T E} {route : Route Id T E} {script : RouteScript T E}
  {c : Commons T E}

/-- With time alone no breaker opens. -/
theorem BreakerRuntime.stateAt_ne_open {b : BreakerRuntime} {t u : Nat} (h : b.stateAt t ≠ .open)
    (hle : t ≤ u) : b.stateAt u ≠ .open := by
  unfold stateAt at h ⊢
  cases hs : b.state with
  | closed => simp
  | halfOpen => simp
  | «open» =>
      cases ho : b.openUntil with
      | none => simp [hs, ho] at h
      | some e =>
          simp only [hs, ho] at h ⊢
          by_cases he : e ≤ t
          · rw [if_pos (Nat.le_trans he hle)]
            simp
          · simp [he] at h

theorem Plan.circuitState_ne_open {plan : Plan T E} {b : BreakerRuntime} {t u : Nat}
    (h : plan.circuitState b t ≠ some .open) (hle : t ≤ u) :
    plan.circuitState b u ≠ some .open := by
  unfold Plan.circuitState at h ⊢
  cases hb : plan.breaker with
  | none => simp
  | some cb =>
      simp only [hb, Option.map_some, ne_eq, Option.some.injEq] at h ⊢
      exact BreakerRuntime.stateAt_ne_open h hle

theorem healthyMembers_not_open (ms : List (Plan T E × BreakerRuntime)) (s : Scan) (k : Core)
    {i : Nat} {m : Plan T E × BreakerRuntime} (hm : ms[i]? = some m)
    (hi : (healthyMembers ms s k).1.looks[s.looks.length + i]? = some .healthy) :
    m.1.circuitState m.2 (healthyMembers ms s k).2.time ≠ some .open := by
  induction ms generalizing s k i with
  | nil => simp at hm
  | cons first ms ih =>
      have hsee := Scan.see_looks s (look first k).1
      have hlen : (s.see (look first k).1).looks.length = s.looks.length + 1 := by
        rw [hsee, List.length_append, List.length_singleton]
      cases i with
      | zero =>
          simp only [List.getElem?_cons_zero, Option.some.injEq] at hm
          subst hm
          have hfirst : (s.see (look first k).1).looks[s.looks.length]? = some .healthy := by
            rw [← healthyMembers_looks ms _ (look first k).2 (by omega)]
            exact hi
          rw [hsee, List.getElem?_concat_length, Option.some.injEq] at hfirst
          have hread := (look_healthy_iff first k).mp hfirst
          have hlater := time_le_healthyMembers ms (s.see (look first k).1) (look first k).2
          have hlook : k.tick.time ≤ (look first k).2.time := by
            unfold look
            dsimp only
            split
            · exact k.tick.time_le_tick
            · exact Nat.le_refl _
          exact Plan.circuitState_ne_open hread (Nat.le_trans hlook hlater)
      | succ i =>
          have hi' : (healthyMembers ms (s.see (look first k).1) (look first k).2).1.looks[
              (s.see (look first k).1).looks.length + i]? = some .healthy := by
            rw [hlen, Nat.add_assoc, Nat.add_comm 1 i]
            exact hi
          exact ih _ _ (by simpa using hm) hi'

theorem listedClosed_enter (route : Route Id T E) (script : RouteScript T E) (c : Commons T E) :
    ListedClosed net (route.enter net script c).2 (route.enter net script c).1 := by
  intro i hi target htarget
  have hsorted := (healthyMembers_sorted ((net.routers route.router).targets.map (c.member net))
    ⟨c.time, script.ticks, script.draws⟩ Scan.sorted_empty).1
  have hmem : i ∈ (healthyMembers ((net.routers route.router).targets.map (c.member net)) .empty
      ⟨c.time, script.ticks, script.draws⟩).1.healthy := by
    unfold Route.listed Route.enter at hi
    dsimp only at hi
    by_cases hnil : (healthyMembers ((net.routers route.router).targets.map (c.member net)) .empty
        ⟨c.time, script.ticks, script.draws⟩).1.healthy = []
    · rw [if_pos hnil] at hi
      cases hi
    · rw [if_neg hnil] at hi
      exact hi
  have hmember : ((net.routers route.router).targets.map (c.member net))[i]? =
      some (c.member net target) := by
    have htarget' : (net.routers route.router).targets[i]? = some target := htarget
    simp [htarget']
  refine healthyMembers_not_open _ .empty _ hmember ?_
  rw [show Scan.empty.looks.length + i = i from Nat.zero_add i]
  exact (hsorted.mem i).mp hmem

theorem Route.listed_poll {done : Route Id T E × Commons T E}
    (h : route.poll net script c = some done) :
    (route.stage = .created ∧ done = route.enter net script c) ∨
      done.1.listed ⊆ route.listed := by
  unfold Route.poll at h
  cases hstage : route.stage with
  | created =>
      simp only [hstage] at h
      exact .inl ⟨rfl, (Option.some.inj h).symm⟩
  | choosing healthy =>
      simp only [hstage] at h
      right
      have hlisted : route.listed = healthy := by simp [Route.listed, hstage]
      rw [hlisted]
      rcases Route.choose_cases h with ⟨e, k, _, rfl⟩ | ⟨chosen, k, target, c', _, _, _, rfl⟩
      · exact List.nil_subset _
      · exact List.filter_subset_self _
  | calling healthy chosen target call attemptStart =>
      simp only [hstage] at h
      right
      obtain ⟨c', _, ⟨_, rfl⟩ | ⟨outcome, _, rfl⟩⟩ := Route.await_cases h
      · exact List.Subset.refl _
      · have hlisted : route.listed = healthy.filter fun i => i != chosen := by
          simp [Route.listed, hstage]
        rw [hlisted]
        unfold Route.settle
        dsimp only
        split
        · exact List.nil_subset _
        · unfold Route.goOn Route.listed
          dsimp only
          split
          next heq =>
            split at heq
            · cases heq
            · cases heq
              exact List.Subset.refl _
          next heq => split at heq <;> cases heq
          next => exact List.nil_subset _
  | returned r => simp [hstage] at h
  | dropped => simp [hstage] at h

namespace Fleet

theorem listedClosed_step (s : Fleet Id T E) (l : Label T E) (s' : Fleet Id T E)
    (h : s.EachRoute (ListedClosed net)) (hkeeps : KeepsListed net s l)
    (hstep : step net s l = some s') : s'.EachRoute (ListedClosed net) := by
  -- what a run had listed before the step is not open after it
  have hkept : ∀ (r : Nat) (route : Route Id T E), s.routes[r]? = some route →
      ListedClosed net s'.commons route := by
    intro r route hr i hi target htarget
    exact hkeeps s' hstep route (List.mem_of_getElem? hr) i hi target htarget
      (h r route hr i hi target htarget)
  intro r route' hr'
  by_cases hexists : r < s.routes.length
  · have hr : s.routes[r]? = some s.routes[r] := List.getElem?_eq_getElem hexists
    rcases routes_step hr hstep with hsame | ⟨script, done, rfl, hdone, hmoved⟩ | ⟨_, hover⟩
    · cases hr'.symm.trans hsame
      exact hkept r _ hr
    · cases hr'.symm.trans hmoved
      have hrouter := Route.poll_router hdone
      have hcommons : s'.commons = done.2 := by
        obtain ⟨route₂, done₂, hr₂, hdone₂, rfl⟩ := step_poll hstep
        cases hr.symm.trans hr₂
        cases hdone.symm.trans hdone₂
        rfl
      rcases Route.listed_poll hdone with ⟨_, rfl⟩ | hsub
      · rw [hcommons]
        exact listedClosed_enter _ script s.commons
      · intro i hi target htarget
        rw [hrouter] at htarget
        exact hkept r _ hr i (hsub hi) target htarget
    · cases hr'.symm.trans hover
      intro i hi
      cases hi
  · have hfresh := created_of_new (Nat.le_of_not_lt hexists) hr' hstep
    intro i hi
    simp [Route.listed, hfresh] at hi

end Fleet

end Invariant

/-- For any policies, any routers sharing members or policies and any interleaving of their
runs with other callers: as long as no step opens the circuit of a member that some run
has scanned and not turned to yet, no score is ever asked for an open member. -/
theorem scores_see_no_open (net : Network Id T E) (start : Nat) (ls : List (Fleet.Label T E))
    (s : Fleet Id T E) (hrun : run (Fleet.step net) (Fleet.init net start) ls = some s)
    (hkept : Obeys (Fleet.step net) (KeepsListed net) (Fleet.init net start) ls)
    (l : Fleet.Label T E) : SeesNoOpen net s l := by
  have hclosed : s.EachRoute (ListedClosed net) :=
    invariant Fleet.listedClosed_step (Fleet.eachRoute_init net start _) hkept hrun
  cases l with
  | poll r script =>
      intro route healthy hr hstage cand hcand
      obtain ⟨hmem, target, htarget, hid⟩ := RouterPolicy.scored_mem hcand
      have hlisted : cand.index ∈ route.listed := by
        simpa [Route.listed, hstage] using hmem
      exact ⟨target, htarget, hid, hclosed r route hr _ hlisted target htarget⟩
  | _ => trivial

/-- Run 0 has failed on the first member and is about to choose again. -/
def beforeFailover : Fleet Nat Nat Nat :=
  (run (Fleet.step hastyPair) (Fleet.init hastyPair 0) (failover.take 5)).get rfl

theorem scores_see_no_open_failover :
    (∃ route, beforeFailover.routes[0]? = some route ∧ route.stage = .choosing [1]) ∧
      SeesNoOpen hastyPair beforeFailover (polled .pending) :=
  ⟨⟨_, rfl, rfl⟩, scores_see_no_open hastyPair 0 (failover.take 5) beforeFailover rfl
    (by decide) (polled .pending)⟩

/-- While run 0 waits for the first member, somebody else's call trips the second one. -/
def trippedMeanwhile : List (Fleet.Label Nat Nat) :=
  [.route 0 .run, polled .pending, polled .pending, polled .pending, polled .pending,
    .other 1 .call, .other 1 (.poll 0 .pending), .other 1 (.poll 0 (.answer 0 (.error 7))),
    .elapse 5, polled .pending]

def whenTripped : Fleet Nat Nat Nat :=
  (run (Fleet.step hastyPair) (Fleet.init hastyPair 0) trippedMeanwhile).get rfl

def goingOn : Route Nat Nat Nat := (whenTripped.routes[0]?).get rfl

theorem score_sees_member_tripped_meanwhile :
    run (Fleet.step hastyPair) (Fleet.init hastyPair 0) trippedMeanwhile = some whenTripped ∧
      ¬ SeesNoOpen hastyPair whenTripped (polled .pending) := by
  refine ⟨rfl, fun h => ?_⟩
  obtain ⟨target, htarget, _, hnot⟩ := h goingOn [1] rfl rfl _ (List.mem_of_getElem? (i := 0) rfl)
  cases htarget
  exact hnot rfl

end ExecutionPolicy
