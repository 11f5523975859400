import ExecutionPolicy.Router.InFlight

/-! # What a pick count counts

A member is chosen at the head of a run's loop; `pick_count` goes up when the attempt
on it has completed. The two differ by the attempts in between and by those that never
complete.
-/

namespace ExecutionPolicy

open StepSystem

variable {Id T E : Type}

/-! ## Choices -/

/-- The run is at the head of its loop: `choose` is about to be evaluated. -/
def Route.atChoice (route : Route Id T E) : Bool :=
  match route.stage with
  | .choosing _ => true
  | _ => false

namespace Fleet

/-- The step is a choice of the member with load state `m`. -/
def chooses (m : Nat) (s : Fleet Id T E) (l : Label T E) (s' : Fleet Id T E) : Bool :=
  match l with
  | .poll r _ => s.routes[r]?.any Route.atChoice && s'.routes[r]?.any (Route.inProgress m)
  | _ => false

/-- The step gives up an attempt in progress on `m`: its run is dropped or unwinds. -/
def abandons (m : Nat) (s : Fleet Id T E) (l : Label T E) (_ : Fleet Id T E) : Bool :=
  match l with
  | .drop r => s.routes[r]?.any (Route.inProgress m)
  | .panic r _ => s.routes[r]?.any (Route.inProgress m)
  | _ => false

def choices (net : Network Id T E) (start : Nat) (ls : List (Label T E)) (m : Nat) : Nat :=
  tally (step net) (chooses m) (init net start) ls

/-- How many attempts on `m` were given up in the run `ls`. -/
def abandoned (net : Network Id T E) (start : Nat) (ls : List (Label T E)) (m : Nat) : Nat :=
  tally (step net) (abandons m) (init net start) ls

/-- Every attempt on `m` that was started in the run `ls` has completed. -/
def AllCompleted (net : Network Id T E) (start : Nat) (ls : List (Label T E))
    (s : Fleet Id T E) (m : Nat) : Prop :=
  s.attemptsOn m = 0 ∧ abandoned net start ls m = 0

instance (net : Network Id T E) (start : Nat) (ls : List (Label T E)) (s : Fleet Id T E)
    (m : Nat) : Decidable (AllCompleted net start ls s m) :=
  inferInstanceAs (Decidable (_ ∧ _))

end Fleet

@[simp] theorem MemberState.pickCount_recordAttempt (meter : Option Meter) (attemptStart : Nat)
    (ok : Bool) (m : MemberState) (k : Core) :
    (m.recordAttempt meter attemptStart ok k).1.pickCount = m.pickCount + 1 := by
  cases meter <;> rfl

/-! ## Stretches -/

/-- From `c` to `done` the picks of `m`, with the run's own attempt counted in advance,
rise by `taken` and fall by `lost`. -/
def OwnPick (m taken lost : Nat) (c : Commons T E) (route : Route Id T E)
    (done : Route Id T E × Commons T E) : Prop :=
  (done.2.loads m).pickCount + done.1.share m + lost =
    (c.loads m).pickCount + route.share m + taken

section Stretches

variable {net : Network Id T E} {route : Route Id T E} {script : RouteScript T E}
  {c : Commons T E} {done : Route Id T E × Commons T E} {m : Nat}

theorem ownPick_poll (h : route.poll net script c = some done) :
    OwnPick m (if route.atChoice && done.1.inProgress m then 1 else 0) 0 c route done := by
  unfold OwnPick
  rcases Route.poll_loads h with ⟨hloads, hsame⟩ |
    ⟨healthy, chosen, target, call, attemptStart, hbefore, hafter, hloads⟩ |
    ⟨tried, healthy, attemptStart, k, hstage, hended, _, hloads⟩
  · have hnone : (route.atChoice && done.1.inProgress m) = false := by
      rw [hsame]
      unfold Route.atChoice Route.inProgress
      cases route.stage <;> rfl
    rw [hloads, hnone]
    unfold Route.share
    rw [hsame]
    rfl
  · have hat : route.atChoice = true := by simp [Route.atChoice, hbefore]
    have hidle : route.share m = 0 :=
      Route.share_of_not_calling (by simp [Route.owns, hbefore])
    have hacquire : (c.loads target.state).acquire.pickCount = (c.loads target.state).pickCount :=
      rfl
    rw [hloads, load_update_same hacquire, hidle, hat, Bool.true_and]
    rfl
  · -- the attempt in progress becomes a pick
    have hnot : route.atChoice = false := by simp [Route.atChoice, hstage]
    rw [hloads, Route.share_of_not_calling hended, Route.share_of_calling hstage, hnot]
    by_cases hm : tried.target.state = m
    · rw [if_pos hm, ← hm, Function.update_self]
      exact MemberState.pickCount_recordAttempt ..
    · rw [if_neg hm, Function.update_of_ne fun h => hm h.symm]
      rfl

theorem LetsGo.pickCount (h : LetsGo c route done) (m : Nat) :
    (done.2.loads m).pickCount = (c.loads m).pickCount := by
  obtain ⟨_, ⟨_, hloads⟩ | ⟨_, _, target, _, _, _, hloads⟩⟩ := h
  · rw [hloads]
  · have hrelease : (c.loads target.state).release.pickCount =
        (c.loads target.state).pickCount := rfl
    rw [hloads, load_update_same hrelease]

theorem ownPick_letsGo (h : LetsGo c route done) : OwnPick m 0 (route.share m) c route done := by
  unfold OwnPick
  rw [h.pickCount, Route.share_of_not_calling h.1]
  omega

end Stretches

/-! ## The law of picks -/

namespace Fleet

variable {net : Network Id T E}

/-- The picks of `m`, with attempts in progress counted in advance. -/
def expectedPicks (m : Nat) (s : Fleet Id T E) : Nat :=
  (s.commons.loads m).pickCount + s.attemptsOn m

theorem expectedPicks_settle {s : Fleet Id T E} {r m taken lost : Nat} {route : Route Id T E}
    {done : Route Id T E × Commons T E} (hr : s.routes[r]? = some route)
    (hown : OwnPick m taken lost s.commons route done) :
    (s.settle r done).expectedPicks m + lost = s.expectedPicks m + taken := by
  have hset := TaskPool.count_set (Route.inProgress m) hr done.1
  unfold OwnPick Route.share at hown
  unfold expectedPicks attemptsOn
  show (done.2.loads m).pickCount +
    TaskPool.count (Route.inProgress m) (s.routes.set r done.1) + lost = _
  omega

theorem expectedPicks_step (m : Nat) (s : Fleet Id T E) (l : Label T E) (s' : Fleet Id T E)
    (hstep : step net s l = some s') :
    s'.expectedPicks m + (if abandons m s l s' then 1 else 0) =
      s.expectedPicks m + (if chooses m s l s' then 1 else 0) := by
  cases l with
  | elapse d =>
      cases hstep
      rfl
  | route router entry =>
      cases hstep
      have hsnoc := TaskPool.count_snoc (Route.inProgress m) s.routes
        (.create router entry : Route Id T E)
      rw [if_neg (by simp [Route.inProgress, Route.create])] at hsnoc
      unfold expectedPicks attemptsOn
      rw [hsnoc]
      rfl
  | poll r script =>
      obtain ⟨route, done, hr, hdone, rfl⟩ := step_poll hstep
      have hr' : (s.settle r done).routes[r]? = some done.1 :=
        TaskPool.getElem?_set_self_of_some hr done.1
      have hchooses : chooses m s (.poll r script) (s.settle r done) =
          (route.atChoice && done.1.inProgress m) := by
        simp only [chooses, hr, hr', Option.any_some]
      rw [hchooses]
      exact expectedPicks_settle hr (ownPick_poll hdone)
  | drop r =>
      obtain ⟨route, done, hr, hdone, rfl⟩ := step_drop hstep
      have habandons : abandons m s (.drop r) (s.settle r done) = route.inProgress m := by
        simp only [abandons, hr, Option.any_some]
      rw [habandons]
      exact expectedPicks_settle hr (ownPick_letsGo (Route.letsGo_drop hdone))
  | panic r script =>
      obtain ⟨route, done, hr, hdone, rfl⟩ := step_panic hstep
      have habandons : abandons m s (.panic r script) (s.settle r done) =
          route.inProgress m := by
        simp only [abandons, hr, Option.any_some]
      rw [habandons]
      exact expectedPicks_settle hr (ownPick_letsGo (Route.letsGo_panic hdone))
  | other p l =>
      obtain ⟨_, c, hc, rfl⟩ := step_other hstep
      unfold expectedPicks
      rw [Commons.onPolicy_loads hc]
      rfl

theorem choices_eq {start : Nat} {ls : List (Label T E)} {s : Fleet Id T E}
    (hrun : run (step net) (init net start) ls = some s) (m : Nat) :
    choices net start ls m =
      (s.commons.loads m).pickCount + s.attemptsOn m + abandoned net start ls m := by
  have hbalance : s.expectedPicks m + abandoned net start ls m =
      (init net start : Fleet Id T E).expectedPicks m + choices net start ls m :=
    tally_balance (I := fun _ => True) (fun _ _ _ _ _ => trivial)
      (fun s l s' _ hstep => expectedPicks_step m s l s' hstep) trivial hrun
  have hzero : (init net start : Fleet Id T E).expectedPicks m = 0 := rfl
  rw [hzero, Nat.zero_add] at hbalance
  exact hbalance.symm

theorem chooses_cases {s s' : Fleet Id T E} {r m : Nat} {script : RouteScript T E}
    {route : Route Id T E} {healthy : List Nat} (hr : s.routes[r]? = some route)
    (hstage : route.stage = .choosing healthy) (hstep : step net s (.poll r script) = some s')
    (hchooses : chooses m s (.poll r script) s' = true) :
    ∃ chosen target, ((net.routers route.router).choose s.commons.loads healthy
        ⟨s.commons.time, script.ticks, script.draws⟩).1 = .ok (some chosen) ∧
      (net.routers route.router).targets[chosen]? = some target ∧ target.state = m := by
  obtain ⟨route', done, hr', hdone, rfl⟩ := step_poll hstep
  cases hr.symm.trans hr'
  have hafter : (s.settle r done).routes[r]? = some done.1 :=
    TaskPool.getElem?_set_self_of_some hr done.1
  simp only [chooses, hr, hafter, Option.any_some, Bool.and_eq_true] at hchooses
  simp only [Route.poll, hstage] at hdone
  rcases Route.choose_cases hdone with
    ⟨e, k, _, rfl⟩ | ⟨chosen, k, target, c', hk, htarget, _, rfl⟩
  · simp [Route.inProgress] at hchooses
  · exact ⟨chosen, target, congrArg Prod.fst hk, htarget,
      by simpa [Route.inProgress] using hchooses.2⟩

end Fleet

/-- For any policies and any routers sharing members and any interleaving of their runs,
with drops and panics: the pick count of a member is the number of times it was chosen
exactly when every attempt on it has completed. Where that holds of all the members a
rotation chooses from, it chooses one that has no attempt in progress and that was
chosen no more often, as doubles go, than any of them. -/
theorem pick_counts_choices_iff (net : Network Id T E) (start : Nat)
    (ls : List (Fleet.Label T E)) (s : Fleet Id T E)
    (hrun : run (Fleet.step net) (Fleet.init net start) ls = some s) :
    (∀ m, (s.commons.loads m).pickCount = Fleet.choices net start ls m ↔
      Fleet.AllCompleted net start ls s m) ∧
    ∀ (r : Nat) (route : Route Id T E) (healthy : List Nat) (script : RouteScript T E)
        (s' : Fleet Id T E) (m : Nat),
      s.routes[r]? = some route → route.stage = .choosing healthy →
      (net.routers route.router).select = .roundRobin →
      (∀ i ∈ healthy, ∀ t, (net.routers route.router).targets[i]? = some t →
        Fleet.AllCompleted net start ls s t.state) →
      Fleet.step net s (.poll r script) = some s' →
      Fleet.chooses m s (.poll r script) s' = true →
      s.attemptsOn m = 0 ∧
        ∀ i ∈ healthy, ∀ t, (net.routers route.router).targets[i]? = some t →
          F64.roundNat (Fleet.choices net start ls m) ≤
            F64.roundNat (Fleet.choices net start ls t.state) := by
  have hlaw : ∀ m, (s.commons.loads m).pickCount = Fleet.choices net start ls m ↔
      Fleet.AllCompleted net start ls s m := by
    intro m
    have hchoices := Fleet.choices_eq hrun m
    unfold Fleet.AllCompleted
    omega
  refine ⟨hlaw, ?_⟩
  intro r route healthy script s' m hr hstage hround hcompleted hstep hchooses
  obtain ⟨chosen, target, hchoose, htarget, rfl⟩ := Fleet.chooses_cases hr hstage hstep hchooses
  have hmem := RouterPolicy.choose_mem hchoose
  have hown := hcompleted chosen hmem target htarget
  refine ⟨hown.1, fun i hi t ht => ?_⟩
  rw [← (hlaw _).mpr hown, ← (hlaw _).mpr (hcompleted i hi t ht)]
  exact RouterPolicy.choose_roundRobin hround hchoose htarget hi ht

/-! A pair of members in rotation. -/

theorem Pick.roundRobin_meterless (m : Option Meter) :
    (roundRobin : Pick Nat).requiresMeter = true → m.isSome = true := by
  intro h
  cases h

def rotatingPair : RouterPolicy Nat Nat :=
  { pair with
    select := .roundRobin
    sample_valid := rfl
    meter_present := Pick.roundRobin_meterless none }

def hastyRotation : Network Nat Nat Nat := { hastyPair with routers := fun _ => rotatingPair }

def secondPolled : Fleet.Label Nat Nat := .poll 1 { ticks := [], draws := [], member := .pending }

/-- Run 0 calls the first member and is served; run 1 is about to choose. -/
def oneRound : List (Fleet.Label Nat Nat) :=
  [.route 0 .run, polled .pending, polled .pending, polled .pending, polled (.answer 0 (.ok 1)),
    .route 0 .run, secondPolled]

def afterOneRound : Fleet Nat Nat Nat :=
  (run (Fleet.step hastyRotation) (Fleet.init hastyRotation 0) oneRound).get rfl

theorem pick_counts_choices_iff_oneRound :
    (∀ m, (afterOneRound.commons.loads m).pickCount = Fleet.choices hastyRotation 0 oneRound m ↔
      Fleet.AllCompleted hastyRotation 0 oneRound afterOneRound m) ∧
    ∀ (r : Nat) (route : Route Nat Nat Nat) (healthy : List Nat) (script : RouteScript Nat Nat)
        (s' : Fleet Nat Nat Nat) (m : Nat),
      afterOneRound.routes[r]? = some route → route.stage = .choosing healthy →
      (hastyRotation.routers route.router).select = .roundRobin →
      (∀ i ∈ healthy, ∀ t, (hastyRotation.routers route.router).targets[i]? = some t →
        Fleet.AllCompleted hastyRotation 0 oneRound afterOneRound t.state) →
      Fleet.step hastyRotation afterOneRound (.poll r script) = some s' →
      Fleet.chooses m afterOneRound (.poll r script) s' = true →
      afterOneRound.attemptsOn m = 0 ∧
        ∀ i ∈ healthy, ∀ t, (hastyRotation.routers route.router).targets[i]? = some t →
          F64.roundNat (Fleet.choices hastyRotation 0 oneRound m) ≤
            F64.roundNat (Fleet.choices hastyRotation 0 oneRound t.state) :=
  pick_counts_choices_iff hastyRotation 0 oneRound afterOneRound rfl

/-- Run 0 waits in the first member's call when run 1 is about to choose. -/
def overlapping : List (Fleet.Label Nat Nat) :=
  [.route 0 .run, .route 0 .run, polled .pending, polled .pending, secondPolled]

/-- The choice of run 0 is not counted yet: run 1, with both members healthy, sends its
call to the same member, while the other one has never been chosen. -/
theorem overlapping_calls_share_a_member :
    ∃ s s' route, run (Fleet.step hastyRotation) (Fleet.init hastyRotation 0) overlapping = some s ∧
      s.routes[1]? = some route ∧ route.stage = .choosing [0, 1] ∧
      (s.commons.loads 0).pickCount ≠ Fleet.choices hastyRotation 0 overlapping 0 ∧
      Fleet.step hastyRotation s secondPolled = some s' ∧
      Fleet.chooses 0 s secondPolled s' = true ∧ s'.attemptsOn 0 = 2 ∧
      Fleet.choices hastyRotation 0 overlapping 1 < Fleet.choices hastyRotation 0 overlapping 0 :=
  ⟨_, _, _, rfl, rfl, rfl, by decide, rfl, by decide, by decide, by decide⟩

end ExecutionPolicy
