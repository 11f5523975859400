import ExecutionPolicy.Engine.Attempts
import ExecutionPolicy.Router.Contract

/-! # The member calls of a run

Every member call that a run makes, whether the run awaits it, drops it or unwinds from
it: which members they are, how often they invoke the operation, and what is left of
them when the run is over.
-/

namespace ExecutionPolicy

open StepSystem

variable {Id T E : Type}

/-! ## Calls that are over -/

theorem System.step_over {plan : Plan T E} {s s' : System T E} {l : System.Label T E} {i : Nat}
    {call : Call T E} (hstep : System.step plan s l = some s') (hi : s.calls[i]? = some call)
    (hover : call.stage.isOver = true) :
    s'.calls[i]? = some call ∧ s'.logOf i = s.logOf i := by
  refine System.step_unnamed hstep (fun hl => ?_) hi
  have hopen : call.stage.isOver = false := by
    cases l with
    | poll j script =>
        cases hl
        obtain ⟨other, done, hj, hpoll, _⟩ := System.step_poll hstep
        cases hi.symm.trans hj
        exact isOver_of_pollCall hpoll
    | drop j =>
        cases hl
        obtain ⟨other, done, hj, hdrop, _⟩ := System.step_drop hstep
        cases hi.symm.trans hj
        exact isOver_of_dropCall hdrop
    | _ => cases hl
  rw [hopen] at hover
  cases hover

theorem System.Named.logOf_of_none {s : System T E} {i : Nat} (h : s.Named)
    (hi : s.calls[i]? = none) : s.logOf i = [] := by
  unfold System.logOf
  rw [List.filterMap_eq_nil_iff]
  intro o ho
  have hlt := h o ho
  have hle := List.getElem?_eq_none_iff.mp hi
  rw [if_neg (by omega)]

def Commons.Ended (c : Commons T E) (p i : Nat) : Prop :=
  ∃ call, (c.systems p).calls[i]? = some call ∧ call.stage.isOver = true

theorem Commons.Ended.evolves {net : Network Id T E} {c c' : Commons T E} {p i : Nat}
    (h : c.Ended p i) (hc : c.Evolves net c') :
    c'.Ended p i ∧ (c'.systems p).logOf i = (c.systems p).logOf i := by
  have hall : ∀ q, q = p → (∃ call, (c'.systems q).calls[i]? = some call ∧
      call.stage.isOver = true) ∧ (c'.systems q).logOf i = (c.systems p).logOf i := by
    refine hc.eachSystem (P := fun q s => q = p → (∃ call, s.calls[i]? = some call ∧
      call.stage.isOver = true) ∧ s.logOf i = (c.systems p).logOf i) (fun _ _ _ hs => hs) ?_ ?_
    · intro q s l s' hs hstep hq
      obtain ⟨⟨call, hi, hover⟩, hlog⟩ := hs hq
      obtain ⟨hi', hlog'⟩ := System.step_over hstep hi hover
      exact ⟨⟨call, hi', hover⟩, hlog'.trans hlog⟩
    · rintro q rfl
      exact ⟨h, rfl⟩
  exact hall p rfl

theorem Commons.ended_of_resultOf {c : Commons T E} {p i : Nat}
    {r : Except (ExecutionError E) T} (h : (c.systems p).resultOf i = some r) : c.Ended p i := by
  obtain ⟨call, hi, hr⟩ := System.returned_of_resultOf h
  exact ⟨call, hi, by rw [hr]; rfl⟩

theorem Commons.ended_of_drop {net : Network Id T E} {c c' : Commons T E} {p i : Nat}
    (h : c.onPolicy net p (.drop i) = some c') : c'.Ended p i := by
  obtain ⟨hs, _, _⟩ := Commons.onPolicy_cases h
  obtain ⟨call, done, hi, hdrop, hs'⟩ := System.step_drop hs
  refine ⟨done.1, ?_, ?_⟩
  · rw [hs']
    exact TaskPool.getElem?_set_self_of_some hi done.1
  · rw [(dropCall_cases hdrop).1]
    rfl

/-! ## The calls a run makes -/

/-- Call `call` of policy `policy`, which is that of target `chosen`. -/
structure MemberCall where
  chosen : Nat
  policy : Nat
  call : Nat
deriving DecidableEq, Repr

def Route.memberCall (route : Route Id T E) : Option MemberCall :=
  match route.stage with
  | .calling _ chosen target call _ => some { chosen, policy := target.policy, call }
  | _ => none

def Route.rest (route : Route Id T E) : List Nat :=
  match route.stage with
  | .choosing healthy => healthy
  | .calling healthy chosen _ _ _ => healthy.filter fun i => i != chosen
  | _ => []

namespace Fleet

def memberCall (s : Fleet Id T E) (r : Nat) : Option MemberCall :=
  s.routes[r]?.bind Route.memberCall

def makes (net : Network Id T E) (r : Nat) (s : Fleet Id T E) (l : Label T E) :
    Option MemberCall :=
  match step net s l with
  | some s' => if s'.memberCall r = s.memberCall r then none else s'.memberCall r
  | none => none

def memberCalls (net : Network Id T E) (r start : Nat) (ls : List (Label T E)) :
    List MemberCall := observe (step net) (makes net r) (init net start) ls

end Fleet

/-- The member calls made so far: of healthy members, of each once and of none that may still
be chosen; and all are over but the one the run is in. -/
structure Made (net : Network Id T E) (c : Commons T E) (route : Route Id T E)
    (made : List MemberCall) : Prop where
  fresh : route.stage = .created → made = []
  planned : (made.map MemberCall.chosen ++ route.rest).Subperm route.scan.healthy
  members : ∀ o ∈ made, ∃ t,
    (net.routers route.router).targets[o.chosen]? = some t ∧ t.policy = o.policy
  ended : ∀ o ∈ made, c.Ended o.policy o.call ∨ route.memberCall = some o

section Steps

variable {net : Network Id T E} {route : Route Id T E} {script : RouteScript T E}
  {c c' : Commons T E} {done : Route Id T E × Commons T E} {made : List MemberCall}

theorem Made.evolves (h : Made net c route made) (hc : c.Evolves net c') :
    Made net c' route made :=
  ⟨h.fresh, h.planned, h.members, fun o ho => (h.ended o ho).imp_left fun ho => (ho.evolves hc).1⟩

theorem made_of_created (net : Network Id T E) (c : Commons T E) (h : route.stage = .created) :
    Made net c route [] :=
  ⟨fun _ => rfl, by simp [Route.rest, h, List.nil_subperm], by simp, by simp⟩

theorem Made.leaves {route' : Route Id T E} (h : Made net c route made) (hc : c.Evolves net c')
    (hrouter : route'.router = route.router) (hscan : route'.scan = route.scan)
    (hrest : route'.rest.Sublist route.rest) (hcreated : route'.stage ≠ .created)
    (hover : ∀ o, route.memberCall = some o → c'.Ended o.policy o.call) :
    Made net c' route' made := by
  refine ⟨fun hstage => absurd hstage hcreated, ?_, ?_, fun o ho => .inl ?_⟩
  · rw [hscan]
    exact (List.Sublist.append_left hrest _).subperm.trans h.planned
  · rw [hrouter]
    exact h.members
  · rcases h.ended o ho with hold | hin
    · exact (hold.evolves hc).1
    · exact hover o hin

theorem Made.letsGo (h : Made net c route made) (hc : c.Evolves net c')
    (hover : ∀ o, route.memberCall = some o → c'.Ended o.policy o.call) :
    Made net c' { route with stage := .dropped } made := by
  refine h.leaves hc rfl rfl (List.nil_sublist _) (fun hcreated => ?_) hover
  cases hcreated

theorem made_nothing {was now : Option MemberCall} (h : now = none) :
    made ++ (if now = was then none else now).toList = made := by
  subst h
  split <;> simp

/-- The choice of a member moves it from those that may be chosen to those called. -/
theorem chosen_subperm {called healthy : List Nat} {chosen : Nat} (h : chosen ∈ healthy) :
    (called ++ [chosen] ++ healthy.filter fun i => i != chosen).Subperm (called ++ healthy) := by
  have hperm := List.filter_append_perm (fun i => i == chosen) healthy
  have hone : [chosen].Sublist (healthy.filter fun i => i == chosen) :=
    List.singleton_sublist.mpr (List.mem_filter.mpr ⟨h, by simp⟩)
  have hsub := (hone.append_right (healthy.filter fun i => i != chosen)).subperm
  rw [List.append_assoc]
  exact (List.subperm_append_left called).mpr (hsub.trans hperm.subperm)

theorem Route.enter_stage (net : Network Id T E) (route : Route Id T E)
    (script : RouteScript T E) (c : Commons T E) :
    (∃ r, (route.enter net script c).1.stage = .returned r) ∨
      (route.enter net script c).1.stage = .choosing (route.enter net script c).1.scan.healthy := by
  unfold Route.enter
  dsimp only
  split
  · exact .inl ⟨_, rfl⟩
  · exact .inr rfl

theorem Made.poll (h : Made net c route made) (hdone : route.poll net script c = some done) :
    Made net done.2 done.1
      (made ++
        (if done.1.memberCall = route.memberCall then none else done.1.memberCall).toList) := by
  have hc := Route.poll_evolves hdone
  unfold Route.poll at hdone
  cases hstage : route.stage with
  | created =>
      simp only [hstage, Option.some.injEq] at hdone
      subst hdone
      have hmade : made = [] := h.fresh hstage
      subst hmade
      have hstages := Route.enter_stage net route script c
      have hleft : (route.enter net script c).1.memberCall = none := by
        rcases hstages with ⟨r, hr⟩ | hr <;> simp [Route.memberCall, hr]
      rw [made_nothing hleft]
      refine ⟨fun _ => rfl, ?_, by simp, by simp⟩
      rcases hstages with ⟨r, hr⟩ | hr
      · simp [Route.rest, hr, List.nil_subperm]
      · simp [Route.rest, hr, List.Subperm.refl]
  | choosing healthy =>
      simp only [hstage] at hdone
      have hout : route.memberCall = none := by simp [Route.memberCall, hstage]
      rcases Route.choose_cases hdone with
        ⟨e, k, hk, rfl⟩ | ⟨chosen, k, target, c', hk, htarget, hc', rfl⟩
      · have hleft :
            ({ route with stage := .returned (.error e) } : Route Id T E).memberCall = none := rfl
        rw [made_nothing hleft]
        refine h.leaves hc rfl rfl (List.nil_sublist _) (by simp) fun o ho => ?_
        rw [hout] at ho
        cases ho
      · have hmem : chosen ∈ healthy := RouterPolicy.choose_mem (congrArg Prod.fst hk)
        rw [hout]
        refine ⟨fun hcreated => (by cases hcreated), ?_, ?_, ?_⟩
        · have hplanned := h.planned
          simp only [Route.rest, hstage] at hplanned
          simpa [Route.memberCall, Route.rest] using (chosen_subperm hmem).trans hplanned
        · intro o ho
          rcases List.mem_append.mp ho with hold | hnew
          · exact h.members o hold
          · have ho' : o = ⟨chosen, target.policy, (c.systems target.policy).calls.length⟩ := by
              simpa [Route.memberCall] using hnew
            rw [ho']
            exact ⟨target, htarget, rfl⟩
        · intro o ho
          rcases List.mem_append.mp ho with hold | hnew
          · rcases h.ended o hold with hover | hin
            · exact .inl (hover.evolves hc).1
            · rw [hout] at hin
              cases hin
          · have ho' : o = ⟨chosen, target.policy, (c.systems target.policy).calls.length⟩ := by
              simpa [Route.memberCall] using hnew
            rw [ho']
            exact .inr rfl
  | calling healthy chosen target call attemptStart =>
      simp only [hstage] at hdone
      have hin : route.memberCall = some ⟨chosen, target.policy, call⟩ := by
        simp [Route.memberCall, hstage]
      obtain ⟨c', hc', ⟨hnone, rfl⟩ | ⟨outcome, houtcome, rfl⟩⟩ := Route.await_cases hdone
      · rw [if_pos rfl, Option.toList_none, List.append_nil]
        exact h.evolves hc
      · have hstages := Route.settle_stage net route healthy ⟨chosen, target, call, outcome⟩
          attemptStart script c'
        have hleft : (route.settle net healthy ⟨chosen, target, call, outcome⟩ attemptStart script
            c').1.memberCall = none := by
          rcases hstages with ⟨r, hr⟩ | hr <;> simp [Route.memberCall, hr]
        rw [made_nothing hleft]
        refine h.leaves hc (Route.settle_router ..) (Route.settle_scan ..) ?_ ?_ fun o ho => ?_
        · rcases hstages with ⟨r, hr⟩ | hr <;> simp [Route.rest, hr, hstage]
        · rcases hstages with ⟨r, hr⟩ | hr <;> simp [hr]
        · rw [hin] at ho
          cases ho
          obtain ⟨t, loads, _, heq⟩ := Route.settle_commons net route healthy
            ⟨chosen, target, call, outcome⟩ attemptStart script c'
          rw [heq]
          exact Commons.ended_of_resultOf houtcome
  | returned r => simp [hstage] at hdone
  | dropped => simp [hstage] at hdone

theorem Made.drop (h : Made net c route made) (hdone : route.drop net c = some done) :
    Made net done.2 done.1 made := by
  obtain ⟨hdropped, hc⟩ := Route.drop_cases hdone
  rw [hdropped]
  refine h.letsGo hc fun o ho => ?_
  unfold Route.drop at hdone
  cases hstage : route.stage with
  | calling healthy chosen target call attemptStart =>
      simp only [hstage] at hdone
      obtain ⟨c', hc', rfl⟩ := Option.map_eq_some_iff.mp hdone
      simp only [Route.memberCall, hstage, Option.some.injEq] at ho
      subst ho
      have hended : c'.Ended target.policy call := Commons.ended_of_drop hc'
      exact hended
  | _ => simp [Route.memberCall, hstage] at ho

theorem Made.panic (h : Made net c route made) (hdone : route.panic net script c = some done) :
    Made net done.2 done.1 made := by
  obtain ⟨hdropped, hc⟩ := Route.panic_evolves hdone
  rw [hdropped]
  refine h.letsGo hc fun o ho => ?_
  obtain ⟨_, _, target, call, _, c', outcome, hstage, hc', houtcome, rfl⟩ := Route.panic_cases hdone
  simp only [Route.memberCall, hstage, Option.some.injEq] at ho
  subst ho
  exact Commons.ended_of_resultOf houtcome

end Steps

namespace Fleet

variable {net : Network Id T E} {r : Nat} {s s' : Fleet Id T E}

def HasMade (net : Network Id T E) (r : Nat) (s : Fleet Id T E) (made : List MemberCall) : Prop :=
  (s.routes[r]? = none → made = []) ∧
    ∀ route, s.routes[r]? = some route → Made net s.commons route made

theorem makes_eq {l : Label T E} (hstep : step net s l = some s') :
    makes net r s l = if s'.memberCall r = s.memberCall r then none else s'.memberCall r := by
  simp [makes, hstep]

theorem makes_of_out {l : Label T E} (hstep : step net s l = some s')
    (h : s'.memberCall r = s.memberCall r ∨ s'.memberCall r = none) : makes net r s l = none := by
  rw [makes_eq hstep]
  rcases h with h | h
  · exact if_pos h
  · split
    · rfl
    · exact h

theorem hasMade_step (s : Fleet Id T E) (l : Label T E) (s' : Fleet Id T E)
    (made : List MemberCall) (h : HasMade net r s made) (hstep : step net s l = some s') :
    HasMade net r s' (made ++ (makes net r s l).toList) := by
  have hc := step_evolves hstep
  cases hr : s.routes[r]? with
  | none =>
      rw [h.1 hr, List.nil_append]
      have hcreated : ∀ route, s'.routes[r]? = some route → route.stage = .created :=
        fun route hr' => created_of_new (List.getElem?_eq_none_iff.mp hr) hr' hstep
      have hout : s'.memberCall r = none := by
        cases hr' : s'.routes[r]? with
        | none => simp [memberCall, hr']
        | some route => simp [memberCall, hr', Route.memberCall, hcreated route hr']
      rw [makes_of_out hstep (.inr hout)]
      exact ⟨fun _ => rfl, fun route hr' => made_of_created net _ (hcreated route hr')⟩
  | some route =>
      have hmade := h.2 route hr
      have hknown : ∀ {route' : Route Id T E} {made' : List MemberCall},
          s'.routes[r]? = some route' → Made net s'.commons route' made' →
          HasMade net r s' made' := by
        intro route' made' hr' hmade'
        refine ⟨fun hnone => ?_, fun other hother => ?_⟩
        · rw [hr'] at hnone
          cases hnone
        · rw [hr'] at hother
          cases hother
          exact hmade'
      rcases routes_step hr hstep with hsame | ⟨script, done, rfl, hdone, hr'⟩ | ⟨hl, hr'⟩
      · have hout : s'.memberCall r = s.memberCall r := by simp [memberCall, hr, hsame]
        rw [makes_of_out hstep (.inl hout), Option.toList_none, List.append_nil]
        exact hknown hsame (hmade.evolves hc)
      · obtain ⟨route', done', hi, hdone', rfl⟩ := step_poll hstep
        cases hr.symm.trans hi
        cases hdone.symm.trans hdone'
        refine hknown hr' ?_
        have hbefore : s.memberCall r = route.memberCall := by simp [memberCall, hr]
        have hafter : (s.settle r done).memberCall r = done.1.memberCall := by
          simp [memberCall, hr']
        rw [makes_eq hstep, hbefore, hafter]
        exact hmade.poll hdone
      · have hout : s'.memberCall r = none := by simp [memberCall, hr', Route.memberCall]
        rw [makes_of_out hstep (.inr hout), Option.toList_none, List.append_nil]
        refine hknown hr' ?_
        rcases hl with rfl | ⟨script, rfl⟩
        · obtain ⟨route', done, hi, hdone, rfl⟩ := step_drop hstep
          cases hr.symm.trans hi
          rw [← (Route.drop_cases hdone).1]
          exact hmade.drop hdone
        · obtain ⟨route', done, hi, hdone, rfl⟩ := step_panic hstep
          cases hr.symm.trans hi
          rw [← (Route.panic_evolves hdone).1]
          exact hmade.panic hdone

theorem made_of_run {start : Nat} {ls : List (Label T E)} {route : Route Id T E}
    (hrun : run (step net) (init net start) ls = some s) (hr : s.routes[r]? = some route) :
    Made net s.commons route (memberCalls net r start ls) := by
  have hinit : HasMade net r (init net start) [] :=
    ⟨fun _ => rfl, fun route hr => by simp [init] at hr⟩
  exact (observe_invariant (hasMade_step (r := r)) hinit hrun).2 route hr

/-- No call of any policy starts more attempts than the policy allows. -/
theorem numbers_le {start : Nat} {ls : List (Label T E)}
    (hrun : run (step net) (init net start) ls = some s) (p i : Nat) :
    (numbers ((s.commons.systems p).logOf i)).length ≤ (net.plans p).retry.maxAttempts := by
  have hall : ∀ p, (s.commons.systems p).Accounted (net.plans p) := by
    refine invariant_of_step (I := fun s => ∀ p, (s.commons.systems p).Accounted (net.plans p))
      (fun s l s' h hstep => ?_) (fun p => System.eachCall_init (net.plans p) start _) hrun
    exact (step_evolves hstep).eachSystem (fun _ _ _ hs => hs)
      (fun p s l s' hs hstep => System.accounted_step (net.plans p) s l s' hs hstep) h
  cases hi : (s.commons.systems p).calls[i]? with
  | none =>
      rw [(hall p).1.logOf_of_none hi]
      exact Nat.zero_le _
  | some call =>
      obtain ⟨k, hk, hnumbers⟩ := ((hall p).2 i call hi).2.numbered
      rw [hnumbers, List.length_range']
      exact hk

/-- How many attempts the policy of target `i` of a router allows a call. -/
def cap (net : Network Id T E) (router i : Nat) : Nat :=
  ((net.routers router).targets[i]?.map fun t => (net.plans t.policy).retry.maxAttempts).getD 0

end Fleet

/-- However runs, failovers and other callers interleave, and however a run ends: all member
calls it ever makes invoke the operation together at most as often as the retry policies of
the members that were healthy in its scan allow for one call of each. -/
theorem run_attempts_bounded (net : Network Id T E) (start : Nat) (ls : List (Fleet.Label T E))
    (s : Fleet Id T E) (hrun : run (Fleet.step net) (Fleet.init net start) ls = some s) (r : Nat)
    (route : Route Id T E) (hr : s.routes[r]? = some route) :
    ((Fleet.memberCalls net r start ls).map fun o =>
        (numbers ((s.commons.systems o.policy).logOf o.call)).length).sum ≤
      (route.scan.healthy.map (Fleet.cap net route.router)).sum := by
  have hmade := Fleet.made_of_run hrun hr
  have hcap : ∀ o ∈ Fleet.memberCalls net r start ls,
      (numbers ((s.commons.systems o.policy).logOf o.call)).length ≤
        Fleet.cap net route.router o.chosen := by
    intro o ho
    obtain ⟨t, ht, hpolicy⟩ := hmade.members o ho
    have hle := Fleet.numbers_le hrun o.policy o.call
    simpa [Fleet.cap, ht, hpolicy] using hle
  -- the members called are healthy members, each of them once
  obtain ⟨called, hperm, hsub⟩ :=
    (List.sublist_append_left _ route.rest).subperm.trans hmade.planned
  calc _ ≤ ((Fleet.memberCalls net r start ls).map fun o =>
          Fleet.cap net route.router o.chosen).sum := List.sum_le_sum hcap
    _ = (called.map (Fleet.cap net route.router)).sum := by
        rw [(hperm.map _).sum_eq, List.map_map]
        rfl
    _ ≤ (route.scan.healthy.map (Fleet.cap net route.router)).sum :=
        (hsub.map _).sum_le_sum fun _ _ => Nat.zero_le _

theorem run_attempts_bounded_failover :
    Fleet.memberCalls hastyPair 0 0 failover = [⟨0, 0, 0⟩, ⟨1, 1, 0⟩] ∧
      ((Fleet.memberCalls hastyPair 0 0 failover).map fun o =>
        (numbers ((afterFailover.commons.systems o.policy).logOf o.call)).length).sum ≤ 2 :=
  ⟨rfl, run_attempts_bounded hastyPair 0 failover afterFailover rfl 0 failedOver rfl⟩

/-- A run leaves nothing behind: once it has returned, was dropped or was unwound, every
member call it has made is over, and whatever happens afterwards, none of them invokes the
operation or does anything else that can be seen. -/
theorem run_leaves_nothing_behind (net : Network Id T E) (start : Nat)
    (ls : List (Fleet.Label T E)) (s : Fleet Id T E)
    (hrun : run (Fleet.step net) (Fleet.init net start) ls = some s) (r : Nat)
    (route : Route Id T E) (hr : s.routes[r]? = some route) (hover : route.stage.isOver = true)
    (o : MemberCall) (ho : o ∈ Fleet.memberCalls net r start ls) (more : List (Fleet.Label T E))
    (s' : Fleet Id T E) (hmore : run (Fleet.step net) s more = some s') :
    s'.commons.Ended o.policy o.call ∧
      (s'.commons.systems o.policy).logOf o.call = (s.commons.systems o.policy).logOf o.call := by
  have hended : s.commons.Ended o.policy o.call := by
    refine ((Fleet.made_of_run hrun hr).ended o ho).resolve_right fun hin => ?_
    cases hstage : route.stage with
    | calling => simp [hstage, RouteStage.isOver] at hover
    | _ => simp [Route.memberCall, hstage] at hin
  refine invariant_of_step (I := fun s' : Fleet Id T E => s'.commons.Ended o.policy o.call ∧
    (s'.commons.systems o.policy).logOf o.call = (s.commons.systems o.policy).logOf o.call)
    (fun s₁ l s₂ h hstep => ?_) ⟨hended, rfl⟩ hmore
  obtain ⟨hended', hlog⟩ := h.1.evolves (Fleet.step_evolves hstep)
  exact ⟨hended', hlog.trans h.2⟩

/-- Somebody else calls through the policy of the member that failed. -/
def lateComer : List (Fleet.Label Nat Nat) := [.other 0 .call, .other 0 (.poll 1 .pending)]

def afterLateComer : Fleet Nat Nat Nat :=
  (run (Fleet.step hastyPair) afterFailover lateComer).get rfl

theorem run_leaves_nothing_behind_lateComer :
    afterLateComer.commons.Ended 0 0 ∧
      (afterLateComer.commons.systems 0).logOf 0 = (afterFailover.commons.systems 0).logOf 0 :=
  run_leaves_nothing_behind hastyPair 0 failover afterFailover rfl 0 failedOver rfl rfl ⟨0, 0, 0⟩
    List.mem_cons_self lateComer afterLateComer rfl

end ExecutionPolicy
