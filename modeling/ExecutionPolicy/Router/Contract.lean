import ExecutionPolicy.Router.Ledger
import ExecutionPolicy.Router.Ownership

/-! # The contract of a run

Which members a run calls, what it returns, and that it comes to an end.
-/

namespace ExecutionPolicy

open StepSystem

variable {Id T E : Type}

/-! ## The member calls behind the history -/

/-- Every finished member call in the history is a call of the member's policy, and has
returned what the history says. -/
def Route.Recorded (c : Commons T E) (route : Route Id T E) : Prop :=
  ∀ t ∈ route.history, (c.systems t.target.policy).resultOf t.call = some t.outcome

theorem Commons.Evolves.resultOf {net : Network Id T E} {c c' : Commons T E}
    (h : c.Evolves net c') {p i : Nat} {r : Except (ExecutionError E) T}
    (hr : (c.systems p).resultOf i = some r) : (c'.systems p).resultOf i = some r := by
  have hall : ∀ q, q = p → (c'.systems q).resultOf i = some r := by
    refine h.eachSystem (P := fun q s => q = p → s.resultOf i = some r) (fun _ _ _ hs => hs) ?_ ?_
    · intro q s l s' hs hstep hq
      obtain ⟨call, hi, hret⟩ := System.returned_of_resultOf (hs hq)
      exact System.resultOf_of_returned (System.step_returned hstep hi hret).1 hret
    · rintro q rfl
      exact hr
  exact hall p rfl

theorem Route.Recorded.evolve {net : Network Id T E} {c c' : Commons T E} {route : Route Id T E}
    (h : route.Recorded c) (hc : c.Evolves net c') : route.Recorded c' :=
  fun t ht => hc.resultOf (h t ht)

namespace Route

variable {net : Network Id T E} {route : Route Id T E} {script : RouteScript T E}
  {c : Commons T E} {done : Route Id T E × Commons T E}

theorem settle_history (net : Network Id T E) (route : Route Id T E) (healthy : List Nat)
    (tried : Tried Id T E) (attemptStart : Nat) (script : RouteScript T E) (c : Commons T E) :
    (route.settle net healthy tried attemptStart script c).1.history =
      route.history ++ [tried] := by
  unfold settle
  dsimp only
  split
  · rfl
  · rfl

theorem poll_history (h : route.poll net script c = some done) :
    done.1.history = route.history ∨
      ∃ tried, done.1.history = route.history ++ [tried] ∧
        (done.2.systems tried.target.policy).resultOf tried.call = some tried.outcome := by
  unfold poll at h
  cases hstage : route.stage with
  | created =>
      simp only [hstage] at h
      cases h
      exact .inl rfl
  | choosing healthy =>
      simp only [hstage] at h
      rcases choose_cases h with ⟨e, k, _, rfl⟩ | ⟨chosen, k, target, c', _, _, _, rfl⟩
      · exact .inl rfl
      · exact .inl rfl
  | calling healthy chosen target call attemptStart =>
      simp only [hstage] at h
      obtain ⟨c', _, ⟨_, rfl⟩ | ⟨outcome, houtcome, rfl⟩⟩ := await_cases h
      · exact .inl rfl
      · obtain ⟨t, loads, _, heq⟩ := settle_commons net route healthy
          ⟨chosen, target, call, outcome⟩ attemptStart script c'
        refine .inr ⟨⟨chosen, target, call, outcome⟩, settle_history _ _ _ _ _ _ _, ?_⟩
        rw [heq]
        exact houtcome
  | returned r => simp [hstage] at h
  | dropped => simp [hstage] at h

theorem recorded_poll (hrecorded : route.Recorded c) (h : route.poll net script c = some done) :
    done.1.Recorded done.2 := by
  have hold := hrecorded.evolve (poll_evolves h)
  rcases poll_history h with heq | ⟨tried, heq, hnew⟩
  · intro t ht
    rw [heq] at ht
    exact hold t ht
  · intro t ht
    rw [heq] at ht
    rcases List.mem_append.mp ht with hmem | hlast
    · exact hold t hmem
    · rw [List.mem_singleton.mp hlast]
      exact hnew

end Route

/-! ## A run comes to an end -/

def RouteStage.isOver : RouteStage Id T E → Bool
  | .returned _ => true
  | .dropped => true
  | _ => false

namespace Route

variable {net : Network Id T E} {route : Route Id T E} {script : RouteScript T E}
  {c : Commons T E} {done : Route Id T E × Commons T E}

theorem poll_live (h : route.poll net script c = some done) : route.stage.isOver = false := by
  unfold poll at h
  cases hstage : route.stage with
  | returned r => simp [hstage] at h
  | dropped => simp [hstage] at h
  | _ => rfl

theorem drop_live (h : route.drop net c = some done) : route.stage.isOver = false := by
  unfold drop at h
  cases hstage : route.stage with
  | returned r => simp [hstage] at h
  | dropped => simp [hstage] at h
  | _ => rfl

theorem panic_live (h : route.panic net script c = some done) : route.stage.isOver = false := by
  obtain ⟨_, _, _, _, _, _, _, hstage, _⟩ := panic_cases h
  rw [hstage]
  rfl

/-- How many more stretches do anything but wait: two a healthy member, and three at
the start of a run. -/
def rank (net : Network Id T E) (route : Route Id T E) : Nat :=
  match route.stage with
  | .created => 2 * (net.routers route.router).targets.length + 2
  | .choosing healthy => 2 * healthy.length + 1
  | .calling healthy _ _ _ _ => 2 * healthy.length
  | .returned _ => 0
  | .dropped => 0

theorem length_filter_lt {healthy : List Nat} {chosen : Nat} (h : chosen ∈ healthy) :
    (healthy.filter fun i => i != chosen).length < healthy.length := by
  apply List.length_filter_lt_length_iff_exists.mpr
  exact ⟨chosen, h, by simp⟩

theorem rank_goOn (net : Network Id T E) (route : Route Id T E) (healthy : List Nat)
    (lastErr : Option E) : (route.goOn healthy lastErr).rank net ≤ 2 * healthy.length + 1 := by
  unfold goOn rank
  dsimp only
  by_cases h : healthy = []
  · simp [h]
  · simp [h]

theorem rank_settle (net : Network Id T E) (route : Route Id T E) (healthy : List Nat)
    (tried : Tried Id T E) (attemptStart : Nat) (script : RouteScript T E) (c : Commons T E)
    (hmem : tried.chosen ∈ healthy) :
    (route.settle net healthy tried attemptStart script c).1.rank net < 2 * healthy.length := by
  have hlt := length_filter_lt hmem
  unfold settle
  dsimp only
  split
  next r _ =>
    show 0 < _
    omega
  next lastErr _ =>
    apply Nat.lt_of_le_of_lt (rank_goOn net { route with history := route.history ++ [tried] }
      (healthy.filter fun i => i != tried.chosen) lastErr)
    omega

theorem rank_poll (hafter : Orderly (net.routers done.1.router) done.1)
    (h : Orderly (net.routers route.router) route) (hdone : route.poll net script c = some done) :
    (done.1 = route ∧ route.owns ≠ none) ∨
      (done.1.rank net < route.rank net ∧ (done.1.owns = none ∨ route.owns = none)) := by
  unfold poll at hdone
  cases hstage : route.stage with
  | created =>
      simp only [hstage] at hdone
      cases hdone
      refine .inr ⟨?_, .inr (by simp [owns, hstage])⟩
      have hrouter : (route.enter net script c).1.router = route.router := rfl
      rw [hrouter] at hafter
      unfold Orderly at hafter
      unfold rank
      rw [hstage]
      dsimp only
      rw [hrouter]
      cases hnext : (route.enter net script c).1.stage with
      | choosing healthy =>
          simp only [hnext] at hafter
          have hle := hafter.1.length_le
          dsimp only
          omega
      | calling healthy chosen target call attemptStart =>
          simp only [hnext] at hafter
          have hle := hafter.1.length_le
          dsimp only
          omega
      | created =>
          unfold enter at hnext
          dsimp only at hnext
          split at hnext <;> cases hnext
      | _ =>
          dsimp only
          omega
  | choosing healthy =>
      simp only [hstage] at hdone
      right
      have hnone : route.owns = none := by simp [owns, hstage]
      rcases choose_cases hdone with ⟨e, k, _, rfl⟩ | ⟨chosen, k, target, c', _, _, _, rfl⟩
      · refine ⟨?_, .inr hnone⟩
        simp [rank, hstage]
      · refine ⟨?_, .inr hnone⟩
        simp [rank, hstage]
  | calling healthy chosen target call attemptStart =>
      simp only [hstage] at hdone
      obtain ⟨c', _, ⟨_, rfl⟩ | ⟨outcome, _, rfl⟩⟩ := await_cases hdone
      · exact .inl ⟨rfl, by simp [owns, hstage]⟩
      · simp only [Orderly, hstage] at h
        refine .inr ⟨?_, .inl (settle_owns _ _ _ _ _ _ _)⟩
        have hlt := rank_settle net route healthy ⟨chosen, target, call, outcome⟩ attemptStart
          script c' h.2.1
        simpa [rank, hstage] using hlt
  | returned r => simp [hstage] at hdone
  | dropped => simp [hstage] at hdone

end Route

/-! ## The contract -/

/-- The members a run has called, in order, the one it is waiting for included. -/
def Route.called (route : Route Id T E) : List Nat :=
  match route.stage with
  | .calling _ chosen _ _ _ => route.history.map Tried.chosen ++ [chosen]
  | _ => route.history.map Tried.chosen

/-- What a run may do with the members, and what it returns. -/
structure Contract (net : Network Id T E) (c : Commons T E) (route : Route Id T E) : Prop where
  length : route.called.length ≤ (net.routers route.router).targets.length
  once : route.called.Nodup
  scanned : ∀ i ∈ route.called, route.scan.looks[i]? = some .healthy
  increasing : (net.routers route.router).select = Pick.firstHealthy →
    route.called.Pairwise (· < ·)
  targets : ∀ t ∈ route.history, (net.routers route.router).targets[t.chosen]? = some t.target
  outcomes : route.Recorded c
  result : ∀ r, route.stage = .returned r → ∀ r',
    Verdict (net.routers route.router) route.scan route.history r' ↔ r' = r

theorem look_healthy_iff (m : Plan T E × BreakerRuntime) (k : Core) :
    (look m k).1 = .healthy ↔ m.1.circuitState m.2 k.tick.time ≠ some .open := by
  unfold look
  dsimp only
  by_cases hopen : m.1.circuitState m.2 k.tick.time = some .open
  · rw [if_pos hopen]
    cases m.1.coolingUntil m.2 k.tick.tick.time with
    | none => simp [hopen]
    | some ends => simp [hopen]
  · rw [if_neg hopen]
    simp [hopen]

theorem Ledger.length_le {p : RouterPolicy Id E} {route : Route Id T E} (h : Ledger p route)
    {is : List Nat} (hnodup : is.Nodup)
    (hscanned : ∀ i ∈ is, route.scan.looks[i]? = some .healthy) : is.length ≤ p.targets.length := by
  have hsub : is ⊆ List.range p.targets.length := by
    intro i hi
    have hlt := (List.getElem?_eq_some_iff.mp (hscanned i hi)).1
    exact List.mem_range.mpr (Nat.lt_of_lt_of_le hlt h.looks)
  have hle := (hnodup.subperm hsub).length_le
  rwa [List.length_range] at hle

theorem Ledger.scanned_history {p : RouterPolicy Id E} {route : Route Id T E} (h : Ledger p route) :
    ∀ i ∈ route.history.map Tried.chosen, route.scan.looks[i]? = some .healthy := by
  intro i hi
  obtain ⟨t, ht, rfl⟩ := List.mem_map.mp hi
  exact h.scanned t ht

theorem contract_of_orderly {net : Network Id T E} {c : Commons T E} {route : Route Id T E}
    (h : Orderly (net.routers route.router) route) (hrecorded : route.Recorded c) :
    Contract net c route := by
  have hledger := h.ledger
  -- the members called, as a list of its own, and what is known of it
  have hcalled : route.called.Nodup ∧ (∀ i ∈ route.called, route.scan.looks[i]? = some .healthy) ∧
      ((net.routers route.router).select = Pick.firstHealthy →
        route.called.Pairwise (· < ·)) := by
    unfold Route.called
    cases hstage : route.stage with
    | calling healthy chosen target call attemptStart =>
        simp only [Orderly, hstage] at h
        obtain ⟨hgoing, hmem, _, _, _⟩ := h
        obtain ⟨honce, hincreasing⟩ := hgoing.called hmem
        refine ⟨honce, fun i hi => ?_, hincreasing⟩
        rcases List.mem_append.mp hi with hold | hlast
        · exact hledger.scanned_history i hold
        · rw [List.mem_singleton.mp hlast]
          exact ((hgoing.rest chosen).mp hmem).1
    | _ => exact ⟨hledger.once, hledger.scanned_history, hledger.increasing⟩
  obtain ⟨honce, hscanned, hincreasing⟩ := hcalled
  refine ⟨hledger.length_le honce hscanned, honce, hscanned, hincreasing, hledger.targets,
    hrecorded, fun r hr r' => ?_⟩
  simp only [Orderly, hr] at h
  constructor
  · intro hverdict
    exact verdict_unique hverdict h.2
  · rintro rfl
    exact h.2

namespace Fleet

variable {net : Network Id T E}

/-- What holds in every state of every run of a fleet. A router whose scores may be
infinite is exempt from the order of its runs. -/
structure Sound (net : Network Id T E) (s : Fleet Id T E) : Prop where
  tidy : s.Tidy
  recorded : s.EachRoute fun c route => route.Recorded c
  orderly : s.EachRoute fun _ route =>
    (∀ c, ((net.routers route.router).select.score c).isFinite = true) →
      Orderly (net.routers route.router) route

theorem sound_init (net : Network Id T E) (start : Nat) : Sound net (init net start) :=
  ⟨tidy_init net start, eachRoute_init net start _, eachRoute_init net start _⟩

theorem sound_step (s : Fleet Id T E) (l : Label T E) (s' : Fleet Id T E) (h : Sound net s)
    (hstep : step net s l = some s') : Sound net s' := by
  refine ⟨tidy_step s l s' h.tidy hstep, ?_, ?_⟩
  · refine eachRoute_step (P := fun c route => route.Recorded c)
      (fun c c' route hroute hc => hroute.evolve hc) s l s' ?_ ?_ ?_ h.recorded hstep
    · intro router entry t ht
      cases ht
    · intro route script done hroute hdone
      exact Route.recorded_poll hroute hdone
    · intro route c hroute hevolves
      exact hroute.evolve hevolves
  · refine eachRoute_step (fun _ _ _ hroute _ => hroute) s l s' ?_ ?_ ?_ h.orderly hstep
    · intro router entry _
      exact orderly_create _ router entry
    · intro route script done hroute hdone hfinite
      rw [Route.poll_router hdone] at hfinite ⊢
      exact orderly_poll hfinite (hroute hfinite) hdone
    · intro route c hroute _ hfinite
      exact orderly_drop (hroute hfinite)

def ownCall (s : Fleet Id T E) (r : Nat) : Option (Nat × Nat) := s.routes[r]?.bind Route.owns

/-- A stretch of run `r` that does anything but leave it waiting where it was. -/
def moves (r : Nat) (s : Fleet Id T E) (l : Label T E) (s' : Fleet Id T E) : Bool :=
  match l with
  | .poll i _ => decide (i = r) && (s'.ownCall r == none || s'.ownCall r != s.ownCall r)
  | _ => false

def left (net : Network Id T E) (r : Nat) (s : Fleet Id T E) : Nat :=
  ((s.routes[r]?).map (Route.rank net)).getD 0

theorem routes_step {s s' : Fleet Id T E} {l : Label T E} {r : Nat} {route : Route Id T E}
    (hr : s.routes[r]? = some route) (hstep : step net s l = some s') :
    s'.routes[r]? = some route ∨
      (∃ script done, l = .poll r script ∧ route.poll net script s.commons = some done ∧
        s'.routes[r]? = some done.1) ∨
      (l = .drop r ∨ ∃ script, l = .panic r script) ∧
        s'.routes[r]? = some { route with stage := .dropped } := by
  cases l with
  | elapse d =>
      cases hstep
      exact .inl hr
  | route router entry =>
      cases hstep
      exact .inl ((List.getElem?_append_left (List.getElem?_eq_some_iff.mp hr).1).trans hr)
  | poll i script =>
      obtain ⟨moved, done, hi, hdone, rfl⟩ := step_poll hstep
      by_cases hir : i = r
      · subst hir
        cases hr.symm.trans hi
        exact .inr (.inl ⟨script, done, rfl, hdone, TaskPool.getElem?_set_self_of_some hi done.1⟩)
      · exact .inl ((List.getElem?_set_ne hir).trans hr)
  | drop i =>
      obtain ⟨moved, done, hi, hdone, rfl⟩ := step_drop hstep
      by_cases hir : i = r
      · subst hir
        cases hr.symm.trans hi
        refine .inr (.inr ⟨.inl rfl, ?_⟩)
        rw [← (Route.drop_cases hdone).1]
        exact TaskPool.getElem?_set_self_of_some hi done.1
      · exact .inl ((List.getElem?_set_ne hir).trans hr)
  | panic i script =>
      obtain ⟨moved, done, hi, hdone, rfl⟩ := step_panic hstep
      by_cases hir : i = r
      · subst hir
        cases hr.symm.trans hi
        refine .inr (.inr ⟨.inr ⟨script, rfl⟩, ?_⟩)
        rw [← (Route.panic_evolves hdone).1]
        exact TaskPool.getElem?_set_self_of_some hi done.1
      · exact .inl ((List.getElem?_set_ne hir).trans hr)
  | other p l =>
      obtain ⟨_, c, _, rfl⟩ := step_other hstep
      exact .inl hr

theorem created_of_new {s s' : Fleet Id T E} {l : Label T E} {r : Nat} {route : Route Id T E}
    (hnew : s.routes.length ≤ r) (hr : s'.routes[r]? = some route)
    (hstep : step net s l = some s') : route.stage = .created := by
  have hlt : r < s'.routes.length := (List.getElem?_eq_some_iff.mp hr).1
  -- the other steps write back a run or leave the runs alone
  have hgrown : s.routes.length < s'.routes.length := Nat.lt_of_le_of_lt hnew hlt
  cases l with
  | elapse d =>
      cases hstep
      exact absurd hgrown (Nat.lt_irrefl _)
  | route router entry =>
      cases hstep
      rcases TaskPool.getElem?_snoc_cases hr with ⟨_, rfl⟩ | hold
      · rfl
      · have hthere := (List.getElem?_eq_some_iff.mp hold).1
        omega
  | poll j script =>
      obtain ⟨_, _, _, _, rfl⟩ := step_poll hstep
      simp [settle] at hgrown
  | drop j =>
      obtain ⟨_, _, _, _, rfl⟩ := step_drop hstep
      simp [settle] at hgrown
  | panic j script =>
      obtain ⟨_, _, _, _, rfl⟩ := step_panic hstep
      simp [settle] at hgrown
  | other p l =>
      obtain ⟨_, _, _, rfl⟩ := step_other hstep
      exact absurd hgrown (Nat.lt_irrefl _)

/-- Run `r` belongs to a router whose scores are finite. -/
def FiniteScores (net : Network Id T E) (r : Nat) (s : Fleet Id T E) : Prop :=
  ∃ route, s.routes[r]? = some route ∧
    ∀ c, ((net.routers route.router).select.score c).isFinite = true

theorem finiteScores_step {r : Nat} (s : Fleet Id T E) (l : Label T E) (s' : Fleet Id T E)
    (h : FiniteScores net r s) (hstep : step net s l = some s') : FiniteScores net r s' := by
  obtain ⟨route, hr, hfinite⟩ := h
  rcases routes_step hr hstep with hsame | ⟨script, done, _, hdone, hr'⟩ | ⟨_, hr'⟩
  · exact ⟨route, hsame, hfinite⟩
  · refine ⟨done.1, hr', ?_⟩
    rw [Route.poll_router hdone]
    exact hfinite
  · exact ⟨_, hr', hfinite⟩

theorem left_step {r : Nat} (s : Fleet Id T E) (l : Label T E) (s' : Fleet Id T E)
    (h : Sound net s ∧ FiniteScores net r s) (hstep : step net s l = some s') :
    (if moves r s l s' then 1 else 0) + left net r s' ≤ left net r s := by
  obtain ⟨hsound, route, hr, hfinite⟩ := h
  have hafter := sound_step s l s' hsound hstep
  have hleft : left net r s = route.rank net := by simp [left, hr]
  rcases routes_step hr hstep with hsame | ⟨script, done, rfl, hdone, hr'⟩ | ⟨hl, hr'⟩
  · have hleft' : left net r s' = route.rank net := by simp [left, hsame]
    have hmoves : moves r s l s' = true → ∃ script, l = .poll r script ∧ route.owns = none := by
      intro hmoves
      cases l with
      | poll i script =>
          simp only [moves, Bool.and_eq_true, decide_eq_true_iff] at hmoves
          obtain ⟨rfl, hown⟩ := hmoves
          refine ⟨script, rfl, ?_⟩
          simpa [ownCall, hr, hsame] using hown
      | _ => cases hmoves
    by_cases hm : moves r s l s' = true
    · obtain ⟨script, rfl, hnone⟩ := hmoves hm
      obtain ⟨moved, done, hi, hdone, rfl⟩ := step_poll hstep
      cases hr.symm.trans hi
      have hr' := TaskPool.getElem?_set_self_of_some hi done.1
      have hdone' : done.1 = route := Option.some.inj (hr'.symm.trans hsame)
      have horderly := hsound.orderly r route hr hfinite
      rcases Route.rank_poll (hdone' ▸ horderly) horderly hdone with ⟨_, hsome⟩ | ⟨hlt, _⟩
      · exact absurd hnone hsome
      · rw [hdone'] at hlt
        omega
    · rw [if_neg hm, hleft, hleft']
      omega
  · have hleft' : left net r s' = done.1.rank net := by simp [left, hr']
    have hfinite' : ∀ c, ((net.routers done.1.router).select.score c).isFinite = true := by
      rw [Route.poll_router hdone]
      exact hfinite
    rcases Route.rank_poll (hafter.orderly r done.1 hr' hfinite')
      (hsound.orderly r route hr hfinite) hdone with ⟨hsame, hsome⟩ | ⟨hlt, _⟩
    · have hstill : moves r s (.poll r script) s' = false := by
        have hwaiting : route.owns.isSome = true := Option.isSome_iff_ne_none.mpr hsome
        simp [moves, ownCall, hr, hr', hsame, hwaiting]
      rw [hstill, hleft, hleft', hsame]
      simp
    · rw [hleft, hleft']
      split <;> omega
  · have hleft' : left net r s' = 0 := by simp [left, hr', Route.rank]
    have hstill : moves r s l s' = false := by
      rcases hl with rfl | ⟨script, rfl⟩
      · rfl
      · rfl
    rw [hstill, hleft']
    simp

theorem poll_enabled {s : Fleet Id T E} {r : Nat} {route : Route Id T E} (h : Sound net s)
    (hr : s.routes[r]? = some route)
    (hfinite : ∀ c, ((net.routers route.router).select.score c).isFinite = true)
    (hover : route.stage.isOver = false) (script : RouteScript T E) :
    ∃ s', step net s (.poll r script) = some s' := by
  have hpoll : ∃ done, route.poll net script s.commons = some done := by
    have horderly := h.orderly r route hr hfinite
    unfold Route.poll
    cases hstage : route.stage with
    | created => exact ⟨_, rfl⟩
    | choosing healthy =>
        simp only [Orderly, hstage] at horderly
        obtain ⟨hgoing, hne, _⟩ := horderly
        obtain ⟨i, hi⟩ := List.exists_mem_of_ne_nil healthy hne
        obtain ⟨chosen, hchosen⟩ := RouterPolicy.choose_of_finite s.commons.loads
          ⟨s.commons.time, script.ticks, script.draws⟩ hfinite hi (hgoing.lt hi)
        have hlt := hgoing.lt (RouterPolicy.choose_mem hchosen)
        have hchoice : (net.routers route.router).choose s.commons.loads healthy
            ⟨s.commons.time, script.ticks, script.draws⟩ = (.ok (some chosen),
              ((net.routers route.router).choose s.commons.loads healthy
                ⟨s.commons.time, script.ticks, script.draws⟩).2) := Prod.ext hchosen rfl
        simp only [Route.choose]
        rw [hchoice]
        simp [List.getElem?_eq_getElem hlt, Commons.onPolicy, System.step]
    | calling healthy chosen target call attemptStart =>
        have howns : route.owns = some (target.policy, call) := by simp [Route.owns, hstage]
        obtain ⟨c', hc'⟩ := Commons.onPolicy_poll net script.member
          (h.tidy.pending r route _ hr howns)
        simp [Route.await, hc']
    | returned r => simp [hstage, RouteStage.isOver] at hover
    | dropped => simp [hstage, RouteStage.isOver] at hover
  obtain ⟨done, hdone⟩ := hpoll
  exact ⟨s.settle r done, by simp [step, hr, hdone]⟩

theorem sound_run {start : Nat} {ls : List (Label T E)} {s : Fleet Id T E}
    (hrun : run (step net) (init net start) ls = some s) : Sound net s :=
  invariant_of_step sound_step (sound_init net start) hrun

end Fleet

/-- For any policies and routers, any interleaving of any number of their runs with other
callers, and a run of a router with finite scores: the run keeps its contract; polled any
number of times more, all but `rank` of the polls, at most two for each member and two
more, find the member's call still pending; and until it is over it can be polled. -/
theorem run_keeps_contract (net : Network Id T E) (start : Nat) (ls : List (Fleet.Label T E))
    (s : Fleet Id T E) (hrun : run (Fleet.step net) (Fleet.init net start) ls = some s)
    (r : Nat) (route : Route Id T E) (hr : s.routes[r]? = some route)
    (hfinite : ∀ c, ((net.routers route.router).select.score c).isFinite = true) :
    Contract net s.commons route ∧
      (∀ more, tally (Fleet.step net) (Fleet.moves r) s more ≤ route.rank net) ∧
      route.rank net ≤ 2 * (net.routers route.router).targets.length + 2 ∧
      (route.stage.isOver = false →
        ∀ script, ∃ s', Fleet.step net s (.poll r script) = some s') := by
  have hsound := Fleet.sound_run hrun
  have horderly := hsound.orderly r route hr hfinite
  refine ⟨contract_of_orderly horderly (hsound.recorded r route hr), fun more => ?_, ?_,
    fun hover script => Fleet.poll_enabled hsound hr hfinite hover script⟩
  · have hleft : Fleet.left net r s = route.rank net := by simp [Fleet.left, hr]
    rw [← hleft]
    refine tally_le (I := fun s => Fleet.Sound net s ∧ Fleet.FiniteScores net r s) ?_
      Fleet.left_step ⟨hsound, route, hr, hfinite⟩ more
    intro s l s' h hstep
    exact ⟨Fleet.sound_step s l s' h.1 hstep, Fleet.finiteScores_step s l s' h.2 hstep⟩
  · unfold Orderly at horderly
    unfold Route.rank
    cases hstage : route.stage with
    | choosing healthy =>
        simp only [hstage] at horderly
        have hle := horderly.1.length_le
        dsimp only
        omega
    | calling healthy chosen target call attemptStart =>
        simp only [hstage] at horderly
        have hle := horderly.1.length_le
        dsimp only
        omega
    | _ =>
        dsimp only
        omega

/-! A pair of members behind one ordered router. -/

/-- One attempt, cut off after 5 ns; one failure trips the breaker for 10 ns. -/
def hasty : Plan Nat Nat where
  retry := Retry.none
  attemptTimeout := some 5
  totalTimeout := none
  breaker := some
    { config := (BreakerConfig.consecutiveFailures 1).withOpenFor 10, recordWhen := none }
  concurrency := none
  onEvent := false
  maxAttempts_pos := Nat.one_pos
  timeouts_ordered := Plan.unbounded_ordered (some 5)

theorem zero_one_nodup : [0, 1].Nodup := by decide

/-- Two members, the first of them preferred; every error advances. -/
def pair : RouterPolicy Nat Nat where
  targets := [⟨0, 0, .one, 0⟩, ⟨1, 1, .one, 1⟩]
  select := .firstHealthy
  meter := none
  advanceWhen := fun _ => true
  targets_nonempty := List.cons_ne_nil _ _
  ids_nodup := zero_one_nodup
  states_nodup := zero_one_nodup
  sample_valid := rfl
  meter_present := Pick.firstHealthy_meterless none

def hastyPair : Network Nat Nat Nat where
  plans := fun _ => hasty
  routers := fun _ => pair

/-- Run 0 is polled, its operation doing what `member` says. -/
def polled (member : Script Nat Nat) : Fleet.Label Nat Nat :=
  .poll 0 { ticks := [], draws := [], member }

/-- The first member's operation fails, the second one's succeeds. -/
def failover : List (Fleet.Label Nat Nat) :=
  [.route 0 .run, polled .pending, polled .pending, polled .pending,
    polled (.answer 0 (.error 7)), polled .pending, polled .pending, polled (.answer 0 (.ok 1))]

def afterFailover : Fleet Nat Nat Nat :=
  (run (Fleet.step hastyPair) (Fleet.init hastyPair 0) failover).get rfl

def failedOver : Route Nat Nat Nat := (afterFailover.routes[0]?).get rfl

theorem run_keeps_contract_failover :
    Contract hastyPair afterFailover.commons failedOver ∧
      (∀ more, tally (Fleet.step hastyPair) (Fleet.moves 0) afterFailover more ≤
        failedOver.rank hastyPair) ∧
      failedOver.rank hastyPair ≤ 2 * (hastyPair.routers failedOver.router).targets.length + 2 ∧
      (failedOver.stage.isOver = false → ∀ script, ∃ s',
        Fleet.step hastyPair afterFailover (.poll 0 script) = some s') :=
  run_keeps_contract hastyPair 0 failover afterFailover rfl 0 failedOver rfl
    fun c => F64.isFinite_ofNat c.index

end ExecutionPolicy
