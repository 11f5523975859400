import ExecutionPolicy.Router.Turns

/-! # Calls shared out by weight

Calls that have not completed are held by their members. A router that always chooses the
member whose next call is cheapest hands them out greedily, whatever the other runs do
in between.
-/

namespace ExecutionPolicy

open StepSystem Sharing

variable {Id T E : Type}

/-! ## Exact scores -/

theorem Weight.value_pos (w : Weight) : 0 < w.value.value := by
  have hle := F64.le_iff_value w.finite (rfl : (F64.fin 0).isFinite = true)
  rw [w.positive] at hle
  exact not_le.mp fun h => Bool.false_ne_true (hle.mpr h)

/-- As long as the count is exact, the score of `weighted_least_in_flight` is the exact one,
rounded once. -/
theorem Pick.weightedLeastInFlight_score {c : Candidate Id} (hpos : 0 < c.weight.value)
    (hsmall : c.inFlight + 1 < 2 ^ 53) :
    weightedLeastInFlight.score c =
      F64.ofSigned false (((c.inFlight : ℚ) + 1) / c.weight.value) := by
  have hsum : (F64.ofNat c.inFlight).add (.fin 1) = .fin ((c.inFlight : ℚ) + 1) := by
    rw [F64.ofNat_of_lt (by omega), F64.fin_add_fin (by positivity) zero_le_one,
      ← Nat.cast_succ]
    exact F64.ofSigned_natCast hsmall
  have hweight : c.weight = .fin c.weight.value := by
    cases hw : c.weight with
    | fin q => rfl
    | negZero => simp [hw, F64.value] at hpos
    | nan => simp [hw, F64.value] at hpos
    | inf negative => simp [hw, F64.value] at hpos
  show ((F64.ofNat c.inFlight).add (.fin 1)).div c.weight = _
  rw [hsum, hweight]
  exact F64.fin_div_fin (by positivity) hpos

namespace RouterPolicy

variable {p : RouterPolicy Id E}

abbrev inFlights (p : RouterPolicy Id E) (loads : Nat → MemberState) :
    Fin p.targets.length → Nat :=
  p.counts MemberState.inFlight loads

def weights (p : RouterPolicy Id E) : Fin p.targets.length → ℚ :=
  fun i => (p.targets.get i).weight.value.value

theorem weights_pos (p : RouterPolicy Id E) (i : Fin p.targets.length) : 0 < p.weights i :=
  (p.targets.get i).weight.value_pos

/-- Of the members it may choose, the router chooses one whose next call is cheapest. -/
def ChoosesCheapest (p : RouterPolicy Id E) (cost : Fin p.targets.length → Nat → ℚ)
    (loads : Nat → MemberState) : Prop :=
  ∀ (healthy : List Nat) (core : Core) (i j : Fin p.targets.length),
    (p.choose loads healthy core).1 = .ok (some i.val) → j.val ∈ healthy →
      cost i (p.inFlights loads i) ≤ cost j (p.inFlights loads j)

/-- With the code's own scores it is the cheapest up to rounding. -/
theorem choosesCheapest_rounded (h : p.select = Pick.weightedLeastInFlight)
    {loads : Nat → MemberState} (hsmall : ∀ i, p.inFlights loads i + 1 < 2 ^ 53) :
    p.ChoosesCheapest (fun i n => F64.roundRat (perWeight p.weights i n)) loads := by
  intro healthy core i j hchoose hj
  have hall : p.select.sample = none := by
    rw [h]
    rfl
  have hscore : ∀ l : Fin p.targets.length, ∀ c, p.candidate loads l.val = some c →
      p.select.score c = F64.ofSigned false (perWeight p.weights l (p.inFlights loads l)) := by
    intro l c hc
    rw [candidate_of_target loads (getElem?_member l)] at hc
    rw [← Option.some.inj hc, h]
    exact Pick.weightedLeastInFlight_score (p.weights_pos l) (hsmall l)
  have hpos : ∀ l : Fin p.targets.length, 0 < perWeight p.weights l (p.inFlights loads l) := by
    intro l
    have hl := p.weights_pos l
    unfold perWeight
    positivity
  obtain ⟨c, hc, hleast⟩ := choose_lowest hall hchoose
  obtain ⟨hfinite, hle⟩ := hleast j.val hj _ (candidate_of_target loads (getElem?_member j))
  obtain ⟨hfinite', _⟩ := hleast i.val (choose_mem hchoose) c hc
  rw [hscore j _ (candidate_of_target loads (getElem?_member j))] at hfinite hle
  rw [hscore i c hc] at hfinite' hle
  rw [F64.value_ofSigned (hpos i) hfinite', F64.value_ofSigned (hpos j) hfinite] at hle
  exact hle

end RouterPolicy

/-! ## Filling a pool -/

def Route.inCall (route : Route Id T E) : Bool :=
  match route.stage with
  | .calling _ _ _ _ _ => true
  | _ => false

namespace Fleet

variable {net : Network Id T E} {r₀ : Nat} {s s' : Fleet Id T E} {l : Label T E}

def ongoing (s : Fleet Id T E) : Nat := TaskPool.count Route.inCall s.routes

def KeepsCalls (net : Network Id T E) (s : Fleet Id T E) (l : Label T E) : Prop :=
  ∀ s' ∈ step net s l, ∀ r < s.routes.length, s.routes[r]?.any Route.inCall = true →
    s'.routes[r]?.any Route.inCall = true

instance (net : Network Id T E) (s : Fleet Id T E) (l : Label T E) :
    Decidable (KeepsCalls net s l) := by
  unfold KeepsCalls
  infer_instance

/-- Only router `r₀` is run, its members are all healthy, and no call completes. -/
def Filling (net : Network Id T E) (r₀ : Nat) (s : Fleet Id T E) (l : Label T E) : Prop :=
  s.AllHealthy net r₀ ∧ KeepsCalls net s l ∧
    match l with
    | .route router _ => router = r₀
    | _ => True

instance (net : Network Id T E) (r₀ : Nat) (s : Fleet Id T E) (l : Label T E) :
    Decidable (Filling net r₀ s l) :=
  match l with
  | .route _ _ => inferInstanceAs (Decidable (_ ∧ _ ∧ _ = _))
  | .elapse _ => inferInstanceAs (Decidable (_ ∧ _ ∧ True))
  | .poll _ _ => inferInstanceAs (Decidable (_ ∧ _ ∧ True))
  | .drop _ => inferInstanceAs (Decidable (_ ∧ _ ∧ True))
  | .panic _ _ => inferInstanceAs (Decidable (_ ∧ _ ∧ True))
  | .other _ _ => inferInstanceAs (Decidable (_ ∧ _ ∧ True))

theorem KeepsCalls.settle (h : KeepsCalls net s l) {r : Nat} {route : Route Id T E}
    {done : Route Id T E × Commons T E} (hstep : step net s l = some (s.settle r done))
    (hr : s.routes[r]? = some route) (hcall : route.inCall = true) : done.1.inCall = true := by
  have hlt := (List.getElem?_eq_some_iff.mp hr).1
  have hkept := h _ hstep r hlt (by rw [hr]; exact hcall)
  have hafter : (s.settle r done).routes[r]? = some done.1 :=
    TaskPool.getElem?_set_self_of_some hr done.1
  rw [hafter] at hkept
  exact hkept

/-- The calls in progress are the units handed out, greedily by `cost`; every live run is one
of `r₀` and has all of its members to choose from. -/
structure Loaded (net : Network Id T E) (r₀ : Nat)
    (cost : Fin (net.routers r₀).targets.length → Nat → ℚ) (s : Fleet Id T E) : Prop where
  greedy : Greedy cost ((net.routers r₀).inFlights s.commons.loads)
  total : ∑ i, (net.routers r₀).inFlights s.commons.loads i = s.ongoing
  own : ∀ (r : Nat) (route : Route Id T E), s.routes[r]? = some route →
    route.stage.isOver = false → route.router = r₀
  listed : ∀ (r : Nat) (route : Route Id T E) (healthy : List Nat), s.routes[r]? = some route →
    route.stage = .choosing healthy → ∀ i : Fin (net.routers r₀).targets.length, i.val ∈ healthy

variable {cost : Fin (net.routers r₀).targets.length → Nat → ℚ}

theorem Loaded.settle (h : s.Loaded net r₀ cost) {r : Nat} {route : Route Id T E}
    {done : Route Id T E × Commons T E} (hr : s.routes[r]? = some route)
    (hlive : route.stage.isOver = false) (hrouter : done.1.router = route.router)
    (hgreedy : Greedy cost ((net.routers r₀).inFlights done.2.loads))
    (htotal : ∑ i, (net.routers r₀).inFlights done.2.loads i + (if route.inCall then 1 else 0) =
      ∑ i, (net.routers r₀).inFlights s.commons.loads i + (if done.1.inCall then 1 else 0))
    (hlisted : ∀ healthy, done.1.stage = .choosing healthy →
      ∀ i : Fin (net.routers r₀).targets.length, i.val ∈ healthy) :
    (s.settle r done).Loaded net r₀ cost := by
  refine ⟨hgreedy, ?_, fun j other hj ho => ?_, fun j other healthy hj ho => ?_⟩
  · have hset := TaskPool.count_set Route.inCall hr done.1
    have hbefore := h.total
    unfold ongoing at hbefore ⊢
    show ∑ i, (net.routers r₀).inFlights done.2.loads i =
      TaskPool.count Route.inCall (s.routes.set r done.1)
    omega
  · rcases TaskPool.getElem?_set_cases hj with ⟨rfl, rfl⟩ | ⟨_, hold⟩
    · rw [hrouter]
      exact h.own _ route hr hlive
    · exact h.own j other hold ho
  · rcases TaskPool.getElem?_set_cases hj with ⟨rfl, rfl⟩ | ⟨_, hold⟩
    · exact hlisted healthy ho
    · exact h.listed j other healthy hold ho

theorem Loaded.choose (h : s.Loaded net r₀ cost) (hmono : ∀ i, Monotone (cost i))
    (hcheapest : (net.routers r₀).ChoosesCheapest cost s.commons.loads) {r : Nat}
    {route : Route Id T E} {script : RouteScript T E} {done : Route Id T E × Commons T E}
    {healthy : List Nat} (hr : s.routes[r]? = some route) (hstage : route.stage = .choosing healthy)
    (hdone : route.choose net healthy script s.commons = some done) :
    (s.settle r done).Loaded net r₀ cost := by
  have hlive : route.stage.isOver = false := by
    rw [hstage]
    rfl
  have hrouter := h.own r route hr hlive
  rcases Route.choose_cases hdone with
    ⟨e, k, _, rfl⟩ | ⟨chosen, k, target, c', hchoose, htarget, hc', rfl⟩
  · refine h.settle hr hlive rfl h.greedy ?_ fun healthy' hchoosing' => by cases hchoosing'
    simp [Route.inCall, hstage]
  · have hmem := h.listed r route healthy hr hstage
    subst hrouter
    obtain ⟨i, rfl, rfl⟩ := RouterPolicy.exists_member htarget
    have hloads : (net.routers route.router).inFlights c'.loads =
        serve ((net.routers route.router).inFlights s.commons.loads) i := by
      rw [Commons.onPolicy_loads hc']
      exact RouterPolicy.counts_update_succ rfl
    refine h.settle hr hlive rfl ?_ ?_ fun healthy' hchoosing' => by cases hchoosing'
    · dsimp only
      rw [hloads]
      exact h.greedy.serve hmono fun j =>
        hcheapest healthy _ i j (congrArg Prod.fst hchoose) (hmem j)
    · dsimp only
      rw [hloads, sum_serve]
      simp [Route.inCall, hstage]

/-- A stretch of a run that ends no call: it starts one at most, on the cheapest member. -/
theorem Loaded.poll (h : s.Loaded net r₀ cost) (hmono : ∀ i, Monotone (cost i))
    (hcheapest : (net.routers r₀).ChoosesCheapest cost s.commons.loads)
    (hhealthy : s.AllHealthy net r₀) {r : Nat} {route : Route Id T E} {script : RouteScript T E}
    {done : Route Id T E × Commons T E} (hr : s.routes[r]? = some route)
    (hdone : route.poll net script s.commons = some done)
    (hkept : route.inCall = true → done.1.inCall = true) :
    (s.settle r done).Loaded net r₀ cost := by
  have hlive := Route.poll_live hdone
  have hrouter := h.own r route hr hlive
  have hsame := Route.poll_router hdone
  unfold Route.poll at hdone
  cases hstage : route.stage with
  | created =>
      simp only [hstage] at hdone
      cases hdone
      subst hrouter
      obtain ⟨healthy, hchoosing, hmem⟩ := route.enter_all script s.commons hhealthy
      refine h.settle hr hlive hsame h.greedy ?_ fun healthy' hchoosing' => ?_
      · have hbefore : route.inCall = false := by simp [Route.inCall, hstage]
        have hafter : (route.enter net script s.commons).1.inCall = false := by
          simp [Route.inCall, hchoosing]
        rw [hbefore, hafter]
        rfl
      · rw [hchoosing] at hchoosing'
        cases hchoosing'
        exact hmem
  | choosing healthy =>
      simp only [hstage] at hdone
      exact h.choose hmono hcheapest hr hstage hdone
  | calling healthy chosen target call attemptStart =>
      simp only [hstage] at hdone
      have hcall : route.inCall = true := by simp [Route.inCall, hstage]
      obtain ⟨c', hc', ⟨_, rfl⟩ | ⟨outcome, _, rfl⟩⟩ := Route.await_cases hdone
      · have hloads := Commons.onPolicy_loads hc'
        refine h.settle hr hlive rfl ?_ ?_ fun healthy' hchoosing' => ?_
        · exact hloads ▸ h.greedy
        · dsimp only
          rw [hloads]
        · rw [hstage] at hchoosing'
          cases hchoosing'
      · -- the call would have completed
        have hended := hkept hcall
        rcases Route.settle_stage net route healthy ⟨chosen, target, call, outcome⟩ attemptStart
          script c' with ⟨e, hstage'⟩ | hstage'
        · simp [Route.inCall, hstage'] at hended
        · simp [Route.inCall, hstage'] at hended
  | returned e => simp [hstage] at hdone
  | dropped => simp [hstage] at hdone

theorem loaded_step (hmono : ∀ i, Monotone (cost i)) (h : s.Loaded net r₀ cost)
    (hcheapest : (net.routers r₀).ChoosesCheapest cost s.commons.loads)
    (hfill : Filling net r₀ s l) (hstep : step net s l = some s') : s'.Loaded net r₀ cost := by
  cases l with
  | elapse d =>
      cases hstep
      exact ⟨h.greedy, h.total, h.own, h.listed⟩
  | route router entry =>
      cases hstep
      refine ⟨h.greedy, ?_, fun j other hj ho => ?_, fun j other healthy hj ho => ?_⟩
      · rw [h.total]
        unfold ongoing
        rw [TaskPool.count_snoc, if_neg (by simp [Route.inCall, Route.create]), Nat.add_zero]
      · rcases TaskPool.getElem?_snoc_cases hj with ⟨_, rfl⟩ | hold
        · exact hfill.2.2
        · exact h.own j other hold ho
      · rcases TaskPool.getElem?_snoc_cases hj with ⟨_, rfl⟩ | hold
        · cases ho
        · exact h.listed j other healthy hold ho
  | poll r script =>
      have hkeeps := hfill.2.1
      obtain ⟨route, done, hr, hdone, rfl⟩ := step_poll hstep
      exact h.poll hmono hcheapest hfill.1 hr hdone (hkeeps.settle hstep hr)
  | drop r =>
      have hkeeps := hfill.2.1
      obtain ⟨route, done, hr, hdone, rfl⟩ := step_drop hstep
      have hended := (Route.drop_cases hdone).1
      have hidle : route.inCall = false := by
        by_contra hcall
        have hkept := hkeeps.settle hstep hr (Bool.not_eq_false _ ▸ hcall)
        rw [hended] at hkept
        cases hkept
      have hloads : done.2.loads = s.commons.loads := by
        obtain ⟨_, ⟨_, hsame⟩ | ⟨_, _, _, _, _, hstage, _⟩⟩ := Route.letsGo_drop hdone
        · exact hsame
        · simp [Route.inCall, hstage] at hidle
      refine h.settle hr (Route.drop_live hdone) (by rw [hended]) ?_ ?_ fun healthy hstage => ?_
      · rw [hloads]
        exact h.greedy
      · rw [hloads, hended, hidle]
        rfl
      · rw [hended] at hstage
        cases hstage
  | panic r script =>
      have hkeeps := hfill.2.1
      obtain ⟨route, done, hr, hdone, rfl⟩ := step_panic hstep
      obtain ⟨_, _, _, _, _, _, _, hstage, _⟩ := Route.panic_cases hdone
      have hkept := hkeeps.settle hstep hr (by simp [Route.inCall, hstage])
      rw [(Route.panic_evolves hdone).1] at hkept
      cases hkept
  | other p l =>
      obtain ⟨_, c, hc, rfl⟩ := step_other hstep
      have hloads := Commons.onPolicy_loads hc
      exact ⟨hloads ▸ h.greedy, hloads ▸ h.total, h.own, h.listed⟩

theorem loaded_idle (hidle : ∀ route ∈ s.routes, route.stage.isOver = true)
    (hzero : ∀ i, (net.routers r₀).inFlights s.commons.loads i = 0) : s.Loaded net r₀ cost := by
  have hover : ∀ (r : Nat) (route : Route Id T E), s.routes[r]? = some route →
      route.stage.isOver = true := fun r route hr => hidle route (List.mem_of_getElem? hr)
  refine ⟨greedy_of_zero hzero, ?_, fun r route hr hlive => ?_, fun r route healthy hr hstage => ?_⟩
  · rw [Finset.sum_eq_zero fun i _ => hzero i]
    symm
    apply TaskPool.count_eq_zero_iff.mpr
    intro r route hr
    have hr' := hover r route hr
    unfold Route.inCall
    cases hstage : route.stage with
    | calling healthy chosen target call attemptStart => simp [hstage, RouteStage.isOver] at hr'
    | _ => rfl
  · rw [hover r route hr] at hlive
    cases hlive
  · have hr' := hover r route hr
    rw [hstage] at hr'
    cases hr'

end Fleet

/-- As `weighted_least_in_flight` is computed, with each score rounded once, the law holds up
to rounding. -/
theorem weighted_least_in_flight_rounded (net : Network Id T E) (r₀ : Nat)
    (hselect : (net.routers r₀).select = Pick.weightedLeastInFlight) (s₀ s : Fleet Id T E)
    (hidle : ∀ route ∈ s₀.routes, route.stage.isOver = true)
    (hzero : ∀ i, (net.routers r₀).inFlights s₀.commons.loads i = 0)
    (ls : List (Fleet.Label T E))
    (hfill : Obeys (Fleet.step net) (fun s l => Fleet.Filling net r₀ s l ∧
      ∀ i, (net.routers r₀).inFlights s.commons.loads i + 1 < 2 ^ 53) s₀ ls)
    (hrun : run (Fleet.step net) s₀ ls = some s) (i j : Fin (net.routers r₀).targets.length)
    (hheld : 0 < (net.routers r₀).inFlights s.commons.loads i) :
    F64.roundRat ((net.routers r₀).inFlights s.commons.loads i / (net.routers r₀).weights i) ≤
      F64.roundRat (((net.routers r₀).inFlights s.commons.loads j + 1) /
        (net.routers r₀).weights j) := by
  have hpos := (net.routers r₀).weights_pos
  have hmono : ∀ i, Monotone fun n => F64.roundRat (perWeight (net.routers r₀).weights i n) := by
    intro i n n' h
    have hi := hpos i
    apply F64.roundRat_mono
    · unfold perWeight
      positivity
    · exact perWeight_mono hpos i h
  have hloaded : s.Loaded net r₀ fun i n =>
      F64.roundRat (perWeight (net.routers r₀).weights i n) :=
    invariant (fun s l s' h hc hs => Fleet.loaded_step hmono h
      (RouterPolicy.choosesCheapest_rounded hselect hc.2) hc.1 hs)
      (Fleet.loaded_idle hidle hzero) hfill hrun
  have hlast := hloaded.greedy i j ((net.routers r₀).inFlights s.commons.loads i - 1) (by omega)
  unfold perWeight at hlast
  rw [← Nat.cast_succ, Nat.succ_eq_add_one, Nat.sub_add_cancel hheld] at hlast
  exact hlast

end ExecutionPolicy
