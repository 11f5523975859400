import ExecutionPolicy.Router.Contract

/-! # `AllUnavailable` and what was tried

`AllUnavailable` is returned when no operation error was captured, which is not the
same as that nothing ran.
-/

namespace ExecutionPolicy

open StepSystem

variable {Id T E : Type}

/-- The member's policy turned the call away before it invoked the operation. -/
def Tried.turnedAway (t : Tried Id T E) : Bool :=
  match t.outcome with
  | .ok _ => false
  | .error e => e.turnedAway

/-- The operation invocations of one finished member call. -/
def Commons.invocations (c : Commons T E) (t : Tried Id T E) : List Nat :=
  starts ((c.systems t.target.policy).logOf t.call)

/-- If the run has returned `AllUnavailable`, none of its calls invoked the operation. -/
def UnavailableMeansUntried (c : Commons T E) (route : Route Id T E) : Prop :=
  ∀ hint, route.stage = .returned (.error (.allUnavailable hint)) →
    ∀ t ∈ route.history, c.invocations t = []

/-- A recorded call invoked nothing exactly when it was turned away. -/
theorem invocations_eq_nil_iff {c : Commons T E} {route : Route Id T E} {t : Tried Id T E}
    (hcounted : ∀ p, (c.systems p).EachCall CountedOrDropped) (hrecorded : route.Recorded c)
    (ht : t ∈ route.history) : c.invocations t = [] ↔ t.turnedAway = true := by
  obtain ⟨call, hi, hr⟩ := System.returned_of_resultOf (hrecorded t ht)
  have hcount : Accounts t.outcome (c.invocations t).length := by
    rcases (hcounted t.target.policy).2 t.call call hi with h | hdropped
    · simp only [Counted, hr] at h
      exact h
    · simp [hr] at hdropped
  rw [← List.length_eq_zero_iff]
  unfold Tried.turnedAway
  cases hout : t.outcome with
  | ok value =>
      rw [hout] at hcount
      have hpos : 0 < (c.invocations t).length := hcount
      simp only [Bool.false_eq_true, iff_false]
      omega
  | error e =>
      rw [hout] at hcount
      exact hcount.2.symm

/-! ## What a run remembers of its calls -/

/-- The call gave a value or an operation error. -/
def Tried.answered (t : Tried Id T E) : Bool :=
  match t.outcome with
  | .ok _ => true
  | .error e => e.intoInner.isSome

/-- The run has returned, and not for a score that is no number. -/
def Route.Completed (route : Route Id T E) : Prop :=
  ∃ r, route.stage = .returned r ∧ ∀ id value, r ≠ .error (.score id value)

/-- On its way a run has an error to report when one of its calls was answered; it returns
`AllUnavailable` when none was. -/
def Route.Remembers (route : Route Id T E) : Prop :=
  match route.stage with
  | .created => route.history = [] ∧ route.lastErr = none
  | .choosing _ | .calling _ _ _ _ _ => route.lastErr.isSome = route.history.any Tried.answered
  | .returned (.error (.allUnavailable _)) => route.history.any Tried.answered = false
  | .returned (.error (.score _ _)) => True
  | .returned _ => route.history.any Tried.answered = true
  | .dropped => True

theorem answered_of_advances {p : RouterPolicy Id E} {t : Tried Id T E}
    (h : t.advances p = true) : t.answered = t.operationError?.isSome := by
  unfold Tried.advances at h
  unfold Tried.answered Tried.operationError?
  cases hout : t.outcome with
  | ok value => simp [hout] at h
  | error e => rfl

theorem remembers_goOn {route : Route Id T E} {healthy : List Nat} {lastErr : Option E}
    (h : lastErr.isSome = route.history.any Tried.answered) :
    (route.goOn healthy lastErr).Remembers := by
  unfold Route.goOn Route.Remembers
  dsimp only
  by_cases hnone : healthy = []
  · rw [if_pos hnone]
    cases lastErr <;> exact h.symm
  · rw [if_neg hnone]
    exact h

theorem remembers_settle {net : Network Id T E} {route : Route Id T E} {healthy : List Nat}
    {tried : Tried Id T E} {attemptStart : Nat} {script : RouteScript T E} {c : Commons T E}
    (h : route.lastErr.isSome = route.history.any Tried.answered) :
    (route.settle net healthy tried attemptStart script c).1.Remembers := by
  unfold Route.settle
  dsimp only
  rcases RouterPolicy.afterAttempt_cases (net.routers route.router) tried route.attempts
    route.lastErr with ⟨hadv, heq⟩ | ⟨value, hout, heq⟩ | ⟨e, ctx, hout, _, heq⟩
  · rw [heq]
    refine remembers_goOn ?_
    rw [Option.isSome_or, List.any_append, h, ← answered_of_advances hadv]
    simp [Bool.or_comm]
  · rw [heq]
    simp [Route.Remembers, Tried.answered, hout]
  · rw [heq]
    simp [Route.Remembers, Tried.answered, hout, ExecutionError.intoInner]

theorem remembers_poll {net : Network Id T E} {route : Route Id T E} {script : RouteScript T E}
    {c : Commons T E} {done : Route Id T E × Commons T E} (h : route.Remembers)
    (hdone : route.poll net script c = some done) : done.1.Remembers := by
  unfold Route.poll at hdone
  unfold Route.Remembers at h
  cases hstage : route.stage with
  | created =>
      simp only [hstage, Option.some.injEq] at hdone h
      subst hdone
      unfold Route.enter
      dsimp only
      split <;> simp [Route.Remembers, h.1, h.2]
  | choosing healthy =>
      simp only [hstage] at hdone h
      rcases Route.choose_cases hdone with
        ⟨e, k, hk, rfl⟩ | ⟨chosen, k, target, c', hk, ht, hc', rfl⟩
      · obtain ⟨id, value, rfl⟩ := RouterPolicy.choose_error hk
        trivial
      · exact h
  | calling healthy chosen target call attemptStart =>
      simp only [hstage] at hdone h
      rcases Route.await_cases hdone with ⟨c', _, ⟨_, rfl⟩ | ⟨outcome, _, rfl⟩⟩
      · simpa [Route.Remembers, hstage] using h
      · exact remembers_settle h
  | returned r => simp [hstage] at hdone
  | dropped => simp [hstage] at hdone

theorem Fleet.remembers_run {net : Network Id T E} {start : Nat} {ls : List (Fleet.Label T E)}
    {s : Fleet Id T E} (hrun : run (Fleet.step net) (Fleet.init net start) ls = some s) :
    s.EachRoute fun _ route => route.Remembers := by
  refine invariant_of_step (I := fun s => s.EachRoute fun _ route => route.Remembers) ?_
    (Fleet.eachRoute_init net start _) hrun
  intro s l s' h hstep
  refine Fleet.eachRoute_step (fun _ _ _ hroute _ => hroute) s l s' ?_ ?_ ?_ h hstep
  · exact fun router entry => ⟨rfl, rfl⟩
  · exact fun route script done hroute hdone => remembers_poll hroute hdone
  · exact fun route c _ _ => trivial

theorem Route.Remembers.unavailable_iff {route : Route Id T E} (h : route.Remembers)
    (hcompleted : route.Completed) :
    (∃ hint, route.stage = .returned (.error (.allUnavailable hint))) ↔
      route.history.any Tried.answered = false := by
  obtain ⟨r, hstage, hr⟩ := hcompleted
  unfold Route.Remembers at h
  rw [hstage] at h
  rcases r with (hint | e | ⟨id, value⟩) | served
  · exact iff_of_true ⟨hint, hstage⟩ h
  · exact iff_of_false (by simp [hstage]) (by simpa using h)
  · exact absurd rfl (hr id value)
  · exact iff_of_false (by simp [hstage]) (by simpa using h)

/-- For any policies and routers, any interleaving of any number of runs with other callers
and every entry point: `AllUnavailable` means that nothing was tried exactly when, once the
run is through, one of its calls was answered or all were turned away, by the member's
breaker or by its limit before the first attempt. -/
theorem unavailable_means_untried_iff (net : Network Id T E) (start : Nat)
    (ls : List (Fleet.Label T E)) (s : Fleet Id T E)
    (hrun : run (Fleet.step net) (Fleet.init net start) ls = some s) (r : Nat)
    (route : Route Id T E) (hr : s.routes[r]? = some route) :
    UnavailableMeansUntried s.commons route ↔
      (route.Completed → (∃ t ∈ route.history, t.answered = true) ∨
        ∀ t ∈ route.history, t.turnedAway = true) := by
  have hsound := Fleet.sound_run hrun
  have heach : ∀ t ∈ route.history, s.commons.invocations t = [] ↔ t.turnedAway = true :=
    fun t ht => invocations_eq_nil_iff hsound.tidy.counted (hsound.recorded r route hr) ht
  have hremembers : route.Remembers := Fleet.remembers_run hrun r route hr
  constructor
  · intro h hcompleted
    by_cases hanswered : route.history.any Tried.answered = true
    · exact .inl (List.any_eq_true.mp hanswered)
    · obtain ⟨hint, hstage⟩ :=
        (hremembers.unavailable_iff hcompleted).mpr (Bool.eq_false_iff.mpr hanswered)
      exact .inr fun t ht => (heach t ht).mp (h hint hstage t ht)
  · intro h hint hstage t ht
    have hcompleted : route.Completed := ⟨_, hstage, by simp⟩
    have hnone := (hremembers.unavailable_iff hcompleted).mp ⟨hint, hstage⟩
    rcases h hcompleted with hanswered | haway
    · rw [List.any_eq_true.mpr hanswered] at hnone
      cases hnone
    · exact (heach t ht).mpr (haway t ht)

def fails (p : Nat) : List (Fleet.Label Nat Nat) :=
  [.other p .call, .other p (.poll 0 .pending), .other p (.poll 0 (.answer 0 (.error 7)))]

/-- Run 0 finds both members healthy; their breakers trip before it turns to them. -/
def bothTripAfterScan : List (Fleet.Label Nat Nat) :=
  [.route 0 .run, polled .pending] ++ fails 0 ++ fails 1 ++
    [polled .pending, polled .pending, polled .pending, polled .pending]

def afterBothTrip : Fleet Nat Nat Nat :=
  (run (Fleet.step hastyPair) (Fleet.init hastyPair 0) bothTripAfterScan).get rfl

def turnedAway : Route Nat Nat Nat := (afterBothTrip.routes[0]?).get rfl

theorem unavailable_means_untried_iff_bothTripAfterScan :
    turnedAway.stage = .returned (.error (.allUnavailable none)) ∧
      turnedAway.history.length = 2 ∧
      UnavailableMeansUntried afterBothTrip.commons turnedAway :=
  ⟨rfl, rfl, (unavailable_means_untried_iff hastyPair 0 bothTripAfterScan afterBothTrip rfl 0
    turnedAway rfl).mpr fun _ => .inr (by decide)⟩

/-- A member's operation is started and hangs until the attempt timer cuts it off. -/
def hang : List (Fleet.Label Nat Nat) :=
  [polled .pending, polled .pending, polled .pending, .elapse 5, polled .pending]

def bothHang : List (Fleet.Label Nat Nat) := [.route 0 .run, polled .pending] ++ hang ++ hang

def afterBothHang : Fleet Nat Nat Nat :=
  (run (Fleet.step hastyPair) (Fleet.init hastyPair 0) bothHang).get rfl

def hung : Route Nat Nat Nat := (afterBothHang.routes[0]?).get rfl

/-- Two operations were invoked and the run says that nobody was available. -/
theorem timed_out_members_are_unavailable :
    hung.stage = .returned (.error (.allUnavailable none)) ∧
      ¬ UnavailableMeansUntried afterBothHang.commons hung := by
  refine ⟨rfl, fun h => ?_⟩
  have hnil := h none rfl _ (List.mem_of_getElem? (i := 0) rfl)
  cases hnil

end ExecutionPolicy
