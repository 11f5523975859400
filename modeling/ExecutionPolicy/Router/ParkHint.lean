import ExecutionPolicy.Router.Unavailable

/-! # The park hint

What `next_available_at` says about the members' breakers at the return of a run.
-/

namespace ExecutionPolicy

open StepSystem

variable {Id T E : Type}

/-! ## What the scan remembers -/

/-- The hint is the earliest of the cooldown ends read. -/
structure Scan.Earliest (s : Scan) : Prop where
  read : ∀ e, s.soonest = some e → .cooling e ∈ s.looks
  least : ∀ e, .cooling e ∈ s.looks → ∃ e', s.soonest = some e' ∧ e' ≤ e

namespace Scan

theorem earliest_empty : Scan.empty.Earliest := by
  refine ⟨fun e he => ?_, fun e he => ?_⟩
  · cases he
  · cases he

theorem Earliest.see {s : Scan} (h : s.Earliest) (l : Look) : (s.see l).Earliest := by
  cases l with
  | healthy =>
      refine ⟨fun e he => ?_, fun e he => ?_⟩
      · exact List.mem_append_left _ (h.read e he)
      · rcases List.mem_append.mp he with hold | hnew
        · exact h.least e hold
        · cases List.mem_singleton.mp hnew
  | lapsed =>
      refine ⟨fun e he => ?_, fun e he => ?_⟩
      · exact List.mem_append_left _ (h.read e he)
      · rcases List.mem_append.mp he with hold | hnew
        · exact h.least e hold
        · cases List.mem_singleton.mp hnew
  | cooling ends =>
      cases hs : s.soonest with
      | none =>
          have hsee : (s.see (.cooling ends)).soonest = some ends := by simp [Scan.see, hs]
          refine ⟨fun e he => ?_, fun e he => ⟨ends, hsee, ?_⟩⟩
          · rw [hsee] at he
            cases he
            exact List.mem_append_right _ List.mem_cons_self
          · rcases List.mem_append.mp he with hold | hnew
            · obtain ⟨e', he', _⟩ := h.least e hold
              rw [hs] at he'
              cases he'
            · cases List.mem_singleton.mp hnew
              exact Nat.le_refl _
      | some t =>
          have hsee : (s.see (.cooling ends)).soonest = some (Nat.min t ends) := by
            simp [Scan.see, hs]
          refine ⟨fun e he => ?_, fun e he => ⟨_, hsee, ?_⟩⟩
          · rw [hsee] at he
            cases he
            by_cases hle : t ≤ ends
            · rw [show Nat.min t ends = t from Nat.min_eq_left hle]
              exact List.mem_append_left _ (h.read t hs)
            · rw [show Nat.min t ends = ends from Nat.min_eq_right (by omega)]
              exact List.mem_append_right _ List.mem_cons_self
          · rcases List.mem_append.mp he with hold | hnew
            · obtain ⟨e', he', hle⟩ := h.least e hold
              rw [hs] at he'
              cases he'
              exact Nat.le_trans (Nat.min_le_left _ _) hle
            · cases List.mem_singleton.mp hnew
              exact Nat.min_le_right _ _

end Scan

theorem healthyMembers_earliest (ms : List (Plan T E × BreakerRuntime)) {s : Scan} (k : Core)
    (h : s.Earliest) : (healthyMembers ms s k).1.Earliest := by
  induction ms generalizing s k with
  | nil => exact h
  | cons m ms ih => exact ih _ (h.see _)

theorem healthyMembers_looks (ms : List (Plan T E × BreakerRuntime)) (s : Scan) (k : Core)
    {i : Nat} (hi : i < s.looks.length) :
    (healthyMembers ms s k).1.looks[i]? = s.looks[i]? := by
  induction ms generalizing s k with
  | nil => rfl
  | cons m ms ih =>
      have hsee := Scan.see_looks s (look m k).1
      refine (ih _ _ ?_).trans ?_
      · rw [hsee, List.length_append]
        omega
      · rw [hsee, List.getElem?_append_left hi]

theorem look_time_le (m : Plan T E × BreakerRuntime) (k : Core) : k.time ≤ (look m k).2.time := by
  unfold look
  dsimp only
  split
  · exact Nat.le_trans k.time_le_tick k.tick.time_le_tick
  · exact k.time_le_tick

theorem look_eq_cooling_iff {m : Plan T E × BreakerRuntime} {k : Core} {e : Nat} :
    (look m k).1 = .cooling e ↔ m.1.coolingUntil m.2 (look m k).2.time = some e := by
  unfold look
  dsimp only
  by_cases hopen : m.1.circuitState m.2 k.tick.time = some .open
  · simp only [hopen, if_true]
    cases m.1.coolingUntil m.2 k.tick.tick.time <;> simp
  · simp only [hopen, if_false]
    constructor
    · intro h
      cases h
    · intro h
      exfalso
      apply hopen
      obtain ⟨b, hb, hcool⟩ := Option.bind_eq_some_iff.mp h
      simp only [Plan.circuitState, hb, Option.map_some, Option.some.injEq]
      obtain ⟨hstate, huntil, hlt⟩ := BreakerRuntime.coolingUntil_eq_some.mp hcool
      refine BreakerRuntime.stateAt_eq_open_iff.mpr ⟨hstate, fun u hu => ?_⟩
      cases huntil.symm.trans hu
      exact hlt

/-- The instants at which `healthy_members` takes its last reading of each member. -/
def readings : List (Plan T E × BreakerRuntime) → Core → List Nat
  | [], _ => []
  | m :: ms, k => (look m k).2.time :: readings ms (look m k).2

theorem healthyMembers_cooling_iff (ms : List (Plan T E × BreakerRuntime)) (s : Scan) (k : Core)
    {i e : Nat} :
    (healthyMembers ms s k).1.looks[s.looks.length + i]? = some (.cooling e) ↔
      ∃ m now, ms[i]? = some m ∧ (readings ms k)[i]? = some now ∧
        m.1.coolingUntil m.2 now = some e := by
  induction ms generalizing s k i with
  | nil => simp [healthyMembers]
  | cons first ms ih =>
      have hsee := Scan.see_looks s (look first k).1
      have hlen : (s.see (look first k).1).looks.length = s.looks.length + 1 := by
        rw [hsee, List.length_append, List.length_singleton]
      cases i with
      | zero =>
          have hfirst : (healthyMembers (first :: ms) s k).1.looks[s.looks.length]? =
              some (look first k).1 := by
            refine (healthyMembers_looks ms _ (look first k).2 (by omega)).trans ?_
            rw [hsee, List.getElem?_concat_length]
          rw [Nat.add_zero, hfirst, Option.some.injEq, look_eq_cooling_iff]
          simp [readings]
      | succ i =>
          have hrest := ih (s.see (look first k).1) (look first k).2 (i := i)
          rw [hlen, Nat.add_assoc, Nat.add_comm 1 i] at hrest
          simpa [healthyMembers, readings] using hrest

theorem length_readings (ms : List (Plan T E × BreakerRuntime)) (k : Core) :
    (readings ms k).length = ms.length := by
  induction ms generalizing k with
  | nil => rfl
  | cons m ms ih => simp [readings, ih]

theorem readings_le (ms : List (Plan T E × BreakerRuntime)) (s : Scan) (k : Core) {i now : Nat}
    (h : (readings ms k)[i]? = some now) :
    k.time ≤ now ∧ now ≤ (healthyMembers ms s k).2.time := by
  induction ms generalizing s k i with
  | nil => simp [readings] at h
  | cons first ms ih =>
      have hle := look_time_le first k
      cases i with
      | zero =>
          cases h
          exact ⟨hle, time_le_healthyMembers ms _ _⟩
      | succ i =>
          obtain ⟨hfrom, huntil⟩ := ih (s.see (look first k).1) (look first k).2 (i := i)
            (by simpa [readings] using h)
          exact ⟨Nat.le_trans hle hfrom, huntil⟩

/-! ## A run after its scan -/

def Network.breakerOf (net : Network Id T E) (p : Nat) (cfg : BreakerConfig) : Prop :=
  ∃ b, (net.plans p).breaker = some b ∧ b.config = cfg

theorem Network.breakerOf_unique {net : Network Id T E} {p : Nat} {cfg : BreakerConfig}
    (h : net.breakerOf p cfg) : ∀ b, (net.plans p).breaker = some b → b.config = cfg := by
  obtain ⟨b, hb, rfl⟩ := h
  intro b' hb'
  cases hb.symm.trans hb'
  rfl

/-- No cooldown in the network ends later than one that starts now, and every open breaker
knows when its own does. -/
def Commons.Bounded (net : Network Id T E) (c : Commons T E) : Prop :=
  ∀ p cfg, net.breakerOf p cfg → (c.systems p).shared.breaker.Bounded cfg c.time ∧
    (c.systems p).shared.breaker.Coherent cfg

theorem Commons.Bounded.evolve {net : Network Id T E} {c c' : Commons T E} (h : c.Bounded net)
    (hc : c.Evolves net c') : c'.Bounded net := by
  intro p cfg hcfg
  obtain ⟨hbounded, hcoherent⟩ := h p cfg hcfg
  obtain ⟨_, _, htold⟩ := hc.told p cfg (Network.breakerOf_unique hcfg)
  exact ⟨htold.bounded hbounded, htold.coherent hcoherent⟩

/-- The run is past its scan, which has seen `seen`, and a hint it returns is the scan's. -/
structure Route.Scanned (router : Nat) (seen : Scan) (route : Route Id T E) : Prop where
  router : route.router = router
  scan : route.scan = seen
  past : route.stage ≠ .created
  hint : ∀ hint, route.stage = .returned (.error (.allUnavailable hint)) → hint = seen.soonest

section Scanned

variable {net : Network Id T E} {c : Commons T E} {route : Route Id T E} {router : Nat}
  {seen : Scan}

/-- A result of a run is no other `AllUnavailable` than the one the scan foresaw. -/
theorem RouterPolicy.afterAttempt_ne_unavailable (p : RouterPolicy Id E) (tried : Tried Id T E)
    (attempts : Nat) (lastErr : Option E) (hint : Option Nat) :
    p.afterAttempt tried.target attempts tried.outcome lastErr ≠
      .stop (.error (.allUnavailable hint)) := by
  rcases RouterPolicy.afterAttempt_cases p tried attempts lastErr with
    ⟨_, heq⟩ | ⟨value, _, heq⟩ | ⟨e, ctx, _, _, heq⟩
  all_goals
    rw [heq]
    intro h
    cases h

theorem Route.Scanned.poll {script : RouteScript T E} {done : Route Id T E × Commons T E}
    (h : route.Scanned router seen) (hdone : route.poll net script c = some done) :
    done.1.Scanned router seen := by
  unfold Route.poll at hdone
  cases hstage : route.stage with
  | created => exact absurd hstage h.past
  | choosing healthy =>
      simp only [hstage] at hdone
      rcases Route.choose_cases hdone with ⟨e, k, hk, rfl⟩ | ⟨chosen, k, target, c', _, _, _, rfl⟩
      · refine ⟨h.router, h.scan, by simp, fun hint hr => ?_⟩
        cases hr
        obtain ⟨id, value, he⟩ := RouterPolicy.choose_error hk
        cases he
      · refine ⟨h.router, h.scan, by simp, fun hint hr => ?_⟩
        cases hr
  | calling healthy chosen target call attemptStart =>
      simp only [hstage] at hdone
      obtain ⟨c', _, ⟨_, rfl⟩ | ⟨outcome, _, rfl⟩⟩ := Route.await_cases hdone
      · exact h
      · have hnever := RouterPolicy.afterAttempt_ne_unavailable (net.routers route.router)
          ⟨chosen, target, call, outcome⟩ route.attempts route.lastErr
        refine ⟨(Route.settle_router ..).trans h.router, (Route.settle_scan ..).trans h.scan,
          ?_, fun hint hr => ?_⟩
        · rcases Route.settle_stage net route healthy ⟨chosen, target, call, outcome⟩ attemptStart
            script c' with ⟨r, hr⟩ | hr <;> simp [hr]
        · unfold Route.settle at hr
          dsimp only at hr
          split at hr
          next r heq =>
            cases hr
            exact absurd heq (hnever hint)
          next lastErr _ =>
            simp only [Route.goOn] at hr
            split at hr
            · cases lastErr with
              | none =>
                  cases hr
                  exact congrArg Scan.soonest h.scan
              | some e => cases hr
            · cases hr
  | returned r => simp [hstage] at hdone
  | dropped => simp [hstage] at hdone

theorem Route.Scanned.gone (h : route.Scanned router seen) :
    Route.Scanned router seen { route with stage := .dropped } :=
  ⟨h.router, h.scan, by simp, fun hint hr => by cases hr⟩

theorem Fleet.scanned_step (r : Nat) (s : Fleet Id T E) (l : Fleet.Label T E) (s' : Fleet Id T E)
    (h : ∃ route, s.routes[r]? = some route ∧ route.Scanned router seen)
    (hstep : Fleet.step net s l = some s') :
    ∃ route, s'.routes[r]? = some route ∧ route.Scanned router seen := by
  obtain ⟨route, hr, hscanned⟩ := h
  have hlt := (List.getElem?_eq_some_iff.mp hr).1
  -- what run `q` makes of itself is written back in its place
  have hwritten : ∀ (q : Nat) (moved : Route Id T E) (done : Route Id T E × Commons T E),
      s.routes[q]? = some moved → (moved.Scanned router seen → done.1.Scanned router seen) →
      ∃ route, (s.settle q done).routes[r]? = some route ∧ route.Scanned router seen := by
    intro q moved done hq hkeeps
    by_cases hqr : q = r
    · subst hqr
      cases hr.symm.trans hq
      exact ⟨done.1, List.getElem?_set_self hlt, hkeeps hscanned⟩
    · exact ⟨route, (List.getElem?_set_ne hqr).trans hr, hscanned⟩
  cases l with
  | elapse d =>
      cases hstep
      exact ⟨route, hr, hscanned⟩
  | route q entry =>
      cases hstep
      exact ⟨route, (List.getElem?_append_left hlt).trans hr, hscanned⟩
  | poll q script =>
      obtain ⟨moved, done, hq, hdone, rfl⟩ := step_poll hstep
      exact hwritten q moved done hq fun hm => hm.poll hdone
  | drop q =>
      obtain ⟨moved, done, hq, hdone, rfl⟩ := step_drop hstep
      refine hwritten q moved done hq fun hm => ?_
      rw [(Route.drop_cases hdone).1]
      exact hm.gone
  | panic q script =>
      obtain ⟨moved, done, hq, hdone, rfl⟩ := step_panic hstep
      refine hwritten q moved done hq fun hm => ?_
      rw [(Route.panic_evolves hdone).1]
      exact hm.gone
  | other p l =>
      obtain ⟨_, c', _, rfl⟩ := step_other hstep
      exact ⟨route, hr, hscanned⟩

theorem Fleet.bounded_run {start : Nat} {ls : List (Fleet.Label T E)} {s : Fleet Id T E}
    (hrun : run (Fleet.step net) (Fleet.init net start) ls = some s) : s.commons.Bounded net := by
  have hinit : (Fleet.init net start).commons.Bounded net := by
    rintro p cfg ⟨b, hb, rfl⟩
    have hnew : ((Fleet.init net start).commons.systems p).shared.breaker =
        .new b.config.trip := by
      simp [Fleet.init, System.init, hb]
    rw [hnew]
    exact ⟨BreakerRuntime.bounded_new _ _ start, BreakerRuntime.coherent_new _⟩
  exact invariant_of_step (I := fun s : Fleet Id T E => s.commons.Bounded net)
    (fun _ _ _ h hstep => h.evolve (Fleet.step_evolves hstep)) hinit hrun

theorem Fleet.run_evolves {s s' : Fleet Id T E} {ls : List (Fleet.Label T E)}
    (hrun : run (Fleet.step net) s ls = some s') : s.commons.Evolves net s'.commons :=
  invariant_of_step (I := fun s' : Fleet Id T E => s.commons.Evolves net s'.commons)
    (fun _ _ _ h hstep => h.trans (Fleet.step_evolves hstep)) .start hrun

end Scanned

/-! ## The hint at the return of a run -/

/-- `circuit_state` of a member at instant `now`, its breaker as it is in `c`. -/
def Commons.circuitState (net : Network Id T E) (c : Commons T E) (target : Target Id)
    (now : Nat) : Option BreakerState :=
  (net.plans target.policy).circuitState (c.systems target.policy).shared.breaker now

/-- Parking from `c` until the hint neither oversleeps nor undersleeps: some member is not
open at the hint, and until then all of them are. -/
def ParkHint (net : Network Id T E) (c : Commons T E) (targets : List (Target Id))
    (hint : Option Nat) : Prop :=
  ∃ t, hint = some t ∧ (∃ target ∈ targets, c.circuitState net target t ≠ some .open) ∧
    ∀ u, c.time ≤ u → u < t → ∀ target ∈ targets, c.circuitState net target u = some .open

/-- Member `i` of the router is cooling until `e` when a scan that starts in `c` reads it. -/
def Cools (net : Network Id T E) (router : Nat) (script : RouteScript T E) (c : Commons T E)
    (i e : Nat) : Prop :=
  ∃ target now, (net.routers router).targets[i]? = some target ∧
    (readings ((net.routers router).targets.map (c.member net))
      ⟨c.time, script.ticks, script.draws⟩)[i]? = some now ∧
    (net.plans target.policy).coolingUntil (c.systems target.policy).shared.breaker now = some e

/-- What the breaker of policy `p` was asked and told between `c` and `c'`. -/
def Commons.toldSince (c c' : Commons T E) (p : Nat) : List BreakerOp :=
  breakerOps (((c'.systems p).trace.drop (c.systems p).trace.length).map Prod.snd)

/-- Between the scan that starts in `c` and the instant of `c'`, the breakers are told what
makes `e` the hint to give: `e` is the earliest end among the members cooling at the scan;
should `c'` come before `e`, every other member has been tripped until `e` or later; and not
every member has been left open past `e`. -/
structure HintHolds (net : Network Id T E) (router : Nat) (script : RouteScript T E)
    (c c' : Commons T E) (e : Nat) : Prop where
  cooling : ∃ i, Cools net router script c i e
  earliest : ∀ i e', Cools net router script c i e' → e ≤ e'
  tripped : c'.time < e → ∀ (i : Nat) (target : Target Id),
    (net.routers router).targets[i]? = some target → (∀ e', ¬ Cools net router script c i e') →
    ∃ cfg, net.breakerOf target.policy cfg ∧
      (c.systems target.policy).shared.breaker.TrippedUntil cfg
        (c.toldSince c' target.policy) e
  freed : ∃ target ∈ (net.routers router).targets, ∃ cfg, net.breakerOf target.policy cfg ∧
    ¬ (c.systems target.policy).shared.breaker.ShutPast cfg e (c.toldSince c' target.policy)

section HintHolds

variable {net : Network Id T E} {router : Nat} {script : RouteScript T E} {c c' : Commons T E}

theorem Commons.Evolves.toldSince (h : c.Evolves net c') {p : Nat} {cfg : BreakerConfig}
    (hcfg : net.breakerOf p cfg) :
    BreakerTold cfg c.time (c.systems p).shared.breaker (c.toldSince c' p) c'.time
      (c'.systems p).shared.breaker := by
  obtain ⟨news, hnews, htold⟩ := h.told p cfg (Network.breakerOf_unique hcfg)
  unfold Commons.toldSince
  rw [hnews, List.drop_left]
  exact htold

theorem Network.breakerOf.circuitState {p : Nat} {cfg : BreakerConfig} (h : net.breakerOf p cfg)
    {target : Target Id} (hp : target.policy = p) (u : Nat) :
    c.circuitState net target u = some ((c.systems p).shared.breaker.stateAt u) := by
  subst hp
  obtain ⟨b, hb, _⟩ := h
  simp [Commons.circuitState, Plan.circuitState, hb]

theorem circuitState_eq_open_iff (h : c.Evolves net c') {target : Target Id}
    {cfg : BreakerConfig} (hcfg : net.breakerOf target.policy cfg) (e : Nat) :
    c'.circuitState net target e = some .open ↔
      (c.systems target.policy).shared.breaker.ShutPast cfg e (c.toldSince c' target.policy) := by
  rw [hcfg.circuitState rfl, Option.some.injEq, (h.toldSince hcfg).eq_replay,
    BreakerRuntime.stateAt_replay_iff]

theorem Cools.cases {i e : Nat} (h : Cools net router script c i e) :
    ∃ target now cfg, (net.routers router).targets[i]? = some target ∧
      net.breakerOf target.policy cfg ∧ c.time ≤ now ∧
      now ≤ (healthyMembers ((net.routers router).targets.map (c.member net)) .empty
        ⟨c.time, script.ticks, script.draws⟩).2.time ∧
      (c.systems target.policy).shared.breaker.coolingUntil now = some e := by
  obtain ⟨target, now, htarget, hnow, hcool⟩ := h
  obtain ⟨b, hb, hcool⟩ := Option.bind_eq_some_iff.mp hcool
  obtain ⟨hfrom, huntil⟩ := readings_le _ .empty _ hnow
  exact ⟨target, now, b.config, htarget, ⟨b, hb, rfl⟩, hfrom, huntil, hcool⟩

/-- The clock at the end of a scan that starts in `c`. -/
def scanEnd (net : Network Id T E) (router : Nat) (script : RouteScript T E) (c : Commons T E) :
    Nat :=
  (healthyMembers ((net.routers router).targets.map (c.member net)) .empty
    ⟨c.time, script.ticks, script.draws⟩).2.time

theorem le_scanEnd (net : Network Id T E) (router : Nat) (script : RouteScript T E)
    (c : Commons T E) : c.time ≤ scanEnd net router script c :=
  time_le_healthyMembers _ .empty ⟨c.time, script.ticks, script.draws⟩

/-- What the scan reads, and the hint it makes of it. -/
def seenBy (net : Network Id T E) (router : Nat) (script : RouteScript T E) (c : Commons T E) :
    Scan :=
  (healthyMembers ((net.routers router).targets.map (c.member net)) .empty
    ⟨c.time, script.ticks, script.draws⟩).1

theorem seenBy_cooling_iff {i e : Nat} :
    (seenBy net router script c).looks[i]? = some (.cooling e) ↔
      Cools net router script c i e := by
  have hlooks := healthyMembers_cooling_iff ((net.routers router).targets.map (c.member net)) .empty
    ⟨c.time, script.ticks, script.draws⟩ (i := i) (e := e)
  rw [show Scan.empty.looks.length + i = i from Nat.zero_add i] at hlooks
  refine hlooks.trans ?_
  simp only [List.getElem?_map, Option.map_eq_some_iff]
  constructor
  · rintro ⟨_, now, ⟨target, htarget, rfl⟩, hnow, hcool⟩
    exact ⟨target, now, htarget, hnow, hcool⟩
  · rintro ⟨target, now, htarget, hnow, hcool⟩
    exact ⟨_, now, ⟨target, htarget, rfl⟩, hnow, hcool⟩

/-- The hint is the earliest end among the members cooling at the scan. -/
theorem seenBy_soonest_iff {e : Nat} :
    (seenBy net router script c).soonest = some e ↔
      (∃ i, Cools net router script c i e) ∧ ∀ i e', Cools net router script c i e' → e ≤ e' := by
  have hearliest : (seenBy net router script c).Earliest :=
    healthyMembers_earliest _ _ Scan.earliest_empty
  have hleast : ∀ i e', Cools net router script c i e' →
      ∃ t, (seenBy net router script c).soonest = some t ∧ t ≤ e' := fun i e' h =>
    hearliest.least e' (List.mem_of_getElem? (seenBy_cooling_iff.mpr h))
  have hread : ∀ t, (seenBy net router script c).soonest = some t →
      ∃ i, Cools net router script c i t := by
    intro t ht
    obtain ⟨i, hi⟩ := List.getElem?_of_mem (hearliest.read t ht)
    exact ⟨i, seenBy_cooling_iff.mp hi⟩
  constructor
  · intro he
    refine ⟨hread e he, fun i e' h => ?_⟩
    obtain ⟨t, ht, hle⟩ := hleast i e' h
    cases he.symm.trans ht
    exact hle
  · rintro ⟨⟨i, hi⟩, hmin⟩
    obtain ⟨t, ht, hle⟩ := hleast i e hi
    obtain ⟨j, hj⟩ := hread t ht
    rw [ht, Nat.le_antisymm hle (hmin j t hj)]

section

variable (hbounded : c.Bounded net)
  (h : Commons.Evolves net { c with time := scanEnd net router script c } c')
include hbounded h

theorem Cools.coolsUntil {i e : Nat} (hcools : Cools net router script c i e) {target : Target Id}
    (htarget : (net.routers router).targets[i]? = some target) {cfg : BreakerConfig}
    (hcfg : net.breakerOf target.policy cfg) :
    (c'.systems target.policy).shared.breaker.CoolsUntil cfg e c'.time := by
  obtain ⟨target', now, _, htarget', _, hfrom, huntil, hcool⟩ := hcools.cases
  cases htarget.symm.trans htarget'
  have hat : (c.systems target.policy).shared.breaker.Bounded cfg now :=
    BreakerTold.bounded (.later .start hfrom) (hbounded target.policy cfg hcfg).1
  have hread := BreakerRuntime.coolsUntil_of_coolingUntil hat hcool
  have hend := BreakerTold.keepsCooling (.later .start huntil) hread
  obtain ⟨_, _, htold⟩ := h.told target.policy cfg (Network.breakerOf_unique hcfg)
  exact htold.keepsCooling hend

theorem hintHolds_of_parkHint
    (hbreakers : ∀ target ∈ (net.routers router).targets, ∃ cfg, net.breakerOf target.policy cfg)
    {e : Nat} (hcooling : ∃ i, Cools net router script c i e)
    (hearliest : ∀ i e', Cools net router script c i e' → e ≤ e')
    (hfreed : ∃ target ∈ (net.routers router).targets,
      c'.circuitState net target e ≠ some .open)
    (hshut : ∀ u, c'.time ≤ u → u < e → ∀ target ∈ (net.routers router).targets,
      c'.circuitState net target u = some .open) : HintHolds net router script c c' e := by
  have hstart := le_scanEnd net router script c
  have hall : c.Evolves net c' := (Commons.Evolves.later .start hstart c.loads).trans h
  refine ⟨hcooling, hearliest, fun hbefore i target htarget hnot => ?_, ?_⟩
  · have hmem := List.mem_of_getElem? htarget
    obtain ⟨cfg, hcfg⟩ := hbreakers target hmem
    have hlast := hshut (e - 1) (by omega) (by omega) target hmem
    rw [hcfg.circuitState rfl, Option.some.injEq, BreakerRuntime.stateAt_eq_open_iff] at hlast
    have htold := hall.toldSince hcfg
    obtain ⟨u, hu⟩ := (htold.coherent (hbounded target.policy cfg hcfg).2).cooldown hlast.1
    have hlate := hlast.2 u hu
    rcases htold.cooldown_cases hlast.1 hu with ⟨hopen, hold⟩ | ⟨pre, op, u', hpre, hu', hle⟩
    · -- then the scan would have read it as cooling
      exfalso
      have hreadings : ∃ now, (readings ((net.routers router).targets.map (c.member net))
          ⟨c.time, script.ticks, script.draws⟩)[i]? = some now := by
        have hlt := (List.getElem?_eq_some_iff.mp htarget).1
        exact ⟨_, List.getElem?_eq_getElem (by rwa [length_readings, List.length_map])⟩
      obtain ⟨now, hnow⟩ := hreadings
      have hle := (readings_le _ .empty _ hnow).2
      have hpast := h.le
      obtain ⟨b, hb, _⟩ := hcfg
      refine hnot u ⟨target, now, htarget, hnow, Option.bind_eq_some_iff.mpr ⟨b, hb, ?_⟩⟩
      refine BreakerRuntime.coolingUntil_eq_some.mpr ⟨hopen, hold, ?_⟩
      have hnow' : now ≤ c'.time := Nat.le_trans hle hpast
      omega
    · exact ⟨cfg, hcfg, pre, op, u', hpre, hu', by omega⟩
  · obtain ⟨target, hmem, hnot⟩ := hfreed
    obtain ⟨cfg, hcfg⟩ := hbreakers target hmem
    exact ⟨target, hmem, cfg, hcfg, fun hshut => hnot ((circuitState_eq_open_iff hall hcfg e).mpr
      hshut)⟩

theorem HintHolds.parkHint
    (hbreakers : ∀ target ∈ (net.routers router).targets, ∃ cfg, net.breakerOf target.policy cfg)
    {e : Nat} (hholds : HintHolds net router script c c' e) :
    ParkHint net c' (net.routers router).targets (some e) := by
  have hstart := le_scanEnd net router script c
  have hall : c.Evolves net c' := (Commons.Evolves.later .start hstart c.loads).trans h
  refine ⟨e, rfl, ?_, fun u hu hlt target hmem => ?_⟩
  · obtain ⟨target, hmem, cfg, hcfg, hnot⟩ := hholds.freed
    exact ⟨target, hmem, fun hopen => hnot ((circuitState_eq_open_iff hall hcfg e).mp hopen)⟩
  · obtain ⟨i, hi⟩ := List.getElem?_of_mem hmem
    obtain ⟨cfg, hcfg⟩ := hbreakers target hmem
    have hcools : (c'.systems target.policy).shared.breaker.CoolsUntil cfg e c'.time := by
      by_cases hcooling : ∃ e', Cools net router script c i e'
      · obtain ⟨e', he'⟩ := hcooling
        have huntil := he'.coolsUntil hbounded h hi hcfg
        have hle := hholds.earliest i e' he'
        refine ⟨Nat.le_trans hle huntil.1, fun hbefore => ?_⟩
        obtain ⟨hopen, end', hend, hle'⟩ := huntil.2 (by omega)
        exact ⟨hopen, end', hend, Nat.le_trans hle hle'⟩
      · obtain ⟨cfg', hcfg', htrip⟩ := hholds.tripped (by omega) i target hi
          fun e' he' => hcooling ⟨e', he'⟩
        obtain ⟨b, hb, rfl⟩ := hcfg
        cases Network.breakerOf_unique hcfg' b hb
        exact (hall.toldSince hcfg').coolsUntil htrip
    obtain ⟨hopen, end', hend, hle⟩ := hcools.2 (by omega)
    rw [hcfg.circuitState rfl, Option.some.injEq, BreakerRuntime.stateAt_eq_open_iff]
    refine ⟨hopen, fun u' hu' => ?_⟩
    cases hend.symm.trans hu'
    omega

end

end HintHolds

theorem Fleet.scanned_run {s s₁ s' : Fleet Id T E} {r : Nat} {route route' : Route Id T E}
    {script : RouteScript T E} {net : Network Id T E} {ls : List (Fleet.Label T E)}
    (hr : s.routes[r]? = some route) (hcreated : route.stage = .created)
    (hscan : Fleet.step net s (.poll r script) = some s₁)
    (hrun : run (Fleet.step net) s₁ ls = some s') (hr' : s'.routes[r]? = some route') :
    route'.Scanned route.router (seenBy net route.router script s.commons) ∧
      Commons.Evolves net { s.commons with time := scanEnd net route.router script s.commons }
        s'.commons := by
  obtain ⟨moved, done, hmoved, hdone, rfl⟩ := step_poll hscan
  cases hr.symm.trans hmoved
  have henter : done = route.enter net script s.commons := by
    unfold Route.poll at hdone
    rw [hcreated] at hdone
    exact (Option.some.inj hdone).symm
  have hlt := (List.getElem?_eq_some_iff.mp hr).1
  have hfirst : done.1.Scanned route.router (seenBy net route.router script s.commons) := by
    rw [henter]
    refine ⟨rfl, rfl, ?_, fun hint hstage => ?_⟩
    · unfold Route.enter
      dsimp only
      split <;> simp
    · unfold Route.enter at hstage
      dsimp only at hstage
      split at hstage
      · cases hstage
        rfl
      · cases hstage
  have hself : ∃ route₁, (s.settle r done).routes[r]? = some route₁ ∧
      route₁.Scanned route.router (seenBy net route.router script s.commons) :=
    ⟨done.1, List.getElem?_set_self hlt, hfirst⟩
  obtain ⟨route₂, hr₂, hscanned⟩ := invariant_of_step (scanned_step r) hself hrun
  cases hr'.symm.trans hr₂
  have hlater := run_evolves hrun
  rw [henter] at hlater
  exact ⟨hscanned, hlater⟩

/-- For any policies and routers and any interleaving of any number of runs with other
callers: when a run of a router whose members all have breakers has returned
`AllUnavailable`, its park hint is right exactly when what the members' breakers were asked
and told since its scan makes the earliest end the scan could read the hint to give. -/
theorem park_hint_iff (net : Network Id T E) (start : Nat) (ls ls' : List (Fleet.Label T E))
    (s s₁ s' : Fleet Id T E) (hrun : run (Fleet.step net) (Fleet.init net start) ls = some s)
    (r : Nat) (route : Route Id T E) (hr : s.routes[r]? = some route)
    (hcreated : route.stage = .created) (script : RouteScript T E)
    (hscan : Fleet.step net s (.poll r script) = some s₁)
    (hrun' : run (Fleet.step net) s₁ ls' = some s') (route' : Route Id T E)
    (hr' : s'.routes[r]? = some route') (hint : Option Nat)
    (hreturned : route'.stage = .returned (.error (.allUnavailable hint)))
    (hbreakers : ∀ target ∈ (net.routers route.router).targets,
      (net.plans target.policy).breaker.isSome = true) :
    ParkHint net s'.commons (net.routers route.router).targets hint ↔
      ∃ e, HintHolds net route.router script s.commons s'.commons e := by
  have hbounded := Fleet.bounded_run hrun
  obtain ⟨hscanned, hlater⟩ := Fleet.scanned_run hr hcreated hscan hrun' hr'
  have hconfigs : ∀ target ∈ (net.routers route.router).targets,
      ∃ cfg, net.breakerOf target.policy cfg := by
    intro target hmem
    obtain ⟨b, hb⟩ := Option.isSome_iff_exists.mp (hbreakers target hmem)
    exact ⟨b.config, b, hb, rfl⟩
  rw [hscanned.hint hint hreturned]
  constructor
  · rintro ⟨t, ht, hfreed, hshut⟩
    obtain ⟨hcooling, hearliest⟩ := seenBy_soonest_iff.mp ht
    exact ⟨t, hintHolds_of_parkHint hbounded hlater hconfigs hcooling hearliest hfreed hshut⟩
  · rintro ⟨e, hholds⟩
    rw [seenBy_soonest_iff.mpr ⟨hholds.cooling, hholds.earliest⟩]
    exact hholds.parkHint hbounded hlater hconfigs

def bothTripped : List (Fleet.Label Nat Nat) := bothHang ++ [.route 0 .run]

def whenBothTripped : Fleet Nat Nat Nat :=
  (run (Fleet.step hastyPair) (Fleet.init hastyPair 0) bothTripped).get rfl

def idle : RouteScript Nat Nat := { ticks := [], draws := [], member := .pending }

def afterScan : Fleet Nat Nat Nat :=
  (Fleet.step hastyPair whenBothTripped (.poll 1 idle)).get rfl

def turnedAwayRun : Route Nat Nat Nat := (afterScan.routes[1]?).get rfl

theorem hastyPair_breakers :
    ∀ target ∈ pair.targets, (hastyPair.plans target.policy).breaker.isSome = true :=
  fun _ _ => rfl

def whenCreated : Route Nat Nat Nat := (whenBothTripped.routes[1]?).get rfl

/-- The scan finds both members cooling. -/
theorem park_hint_iff_bothTripped :
    ParkHint hastyPair afterScan.commons pair.targets (some 15) ↔
      ∃ e, HintHolds hastyPair 0 idle whenBothTripped.commons afterScan.commons e :=
  park_hint_iff hastyPair 0 bothTripped [] whenBothTripped afterScan afterScan rfl 1 whenCreated
    rfl rfl
    idle rfl rfl turnedAwayRun rfl (some 15) rfl hastyPair_breakers

/-- The scan finds both members healthy, both time out and trip: there is no hint, though
both are cooling. -/
theorem members_tripped_in_the_run_leave_no_hint :
    ∃ s s' route, run (Fleet.step hastyPair) (Fleet.init hastyPair 0) bothHang.dropLast = some s ∧
      Fleet.step hastyPair s (polled .pending) = some s' ∧ s'.routes[0]? = some route ∧
      route.stage = .returned (.error (.allUnavailable none)) ∧
      ¬ ParkHint hastyPair s'.commons (hastyPair.routers route.router).targets none := by
  refine ⟨_, _, _, rfl, rfl, rfl, rfl, ?_⟩
  rintro ⟨t, ht, _⟩
  cases ht

end ExecutionPolicy
