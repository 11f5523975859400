import ExecutionPolicy.Router.Fleet

/-! # The call a run waits in

A run holds the future of the member's call it waits in, so nobody else polls or
drops that call: it stays pending until a poll of the run itself resolves it.
-/

namespace ExecutionPolicy

open StepSystem

variable {Id T E : Type}

/-! ## Pending calls -/

theorem System.poll_pending_or_resolved {plan : Plan T E} {s s' : System T E} {i : Nat}
    {script : Script T E} (hcounted : s.EachCall CountedOrDropped)
    (hstep : System.step plan s (.poll i script) = some s') :
    ∃ call, s'.calls[i]? = some call ∧
      (call.stage.isOver = false ∨ ∃ r, call.stage = .returned r) := by
  obtain ⟨call, done, hi, hdone, rfl⟩ := System.step_poll hstep
  refine ⟨done.1, TaskPool.getElem?_set_self_of_some hi done.1, ?_⟩
  have hcount : Counted done.1 (s.logOf i ++ done.2.log) := by
    rcases hcounted.2 i call hi with h | hdropped
    · exact counted_pollCall rfl h hdone
    · simp [pollCall, hdropped] at hdone
  cases hstage : done.1.stage with
  | returned r => exact .inr ⟨r, rfl⟩
  | dropped => simp [Counted, hstage] at hcount
  | _ => exact .inl rfl

theorem System.resultOf_of_returned {s : System T E} {i : Nat} {call : Call T E}
    {r : Except (ExecutionError E) T} (hi : s.calls[i]? = some call)
    (hr : call.stage = .returned r) : s.resultOf i = some r := by
  simp [System.resultOf, hi, hr]

theorem System.returned_of_resultOf {s : System T E} {i : Nat}
    {r : Except (ExecutionError E) T} (h : s.resultOf i = some r) :
    ∃ call, s.calls[i]? = some call ∧ call.stage = .returned r := by
  obtain ⟨call, hi, hr⟩ := Option.bind_eq_some_iff.mp h
  refine ⟨call, hi, ?_⟩
  cases hstage : call.stage with
  | returned r' =>
      simp only [hstage, Option.some.injEq] at hr
      rw [hr]
  | _ => simp [hstage] at hr

namespace Commons

variable {net : Network Id T E} {c c' : Commons T E} {p i : Nat}

/-- Call `o.2` of policy `o.1` was created and is not over. -/
def Pending (c : Commons T E) (o : Nat × Nat) : Prop :=
  ∃ call, (c.systems o.1).calls[o.2]? = some call ∧ call.stage.isOver = false

theorem Pending.onPolicy {o : Nat × Nat} {l : System.Label T E} (h : c.Pending o)
    (hstep : c.onPolicy net p l = some c') (hl : p = o.1 → l.names ≠ some o.2) :
    c'.Pending o := by
  obtain ⟨hs, _, hothers⟩ := onPolicy_cases hstep
  obtain ⟨call, hcall, hover⟩ := h
  refine ⟨call, ?_, hover⟩
  by_cases hp : o.1 = p
  · subst hp
    exact (System.step_unnamed hs (hl rfl) hcall).1
  · rw [hothers o.1 hp]
    exact hcall

theorem pending_created (h : c.onPolicy net p .call = some c') :
    c'.Pending (p, (c.systems p).calls.length) ∧
      ¬ c.Pending (p, (c.systems p).calls.length) := by
  obtain ⟨hs, _, _⟩ := onPolicy_cases h
  constructor
  · refine ⟨System.created, ?_, rfl⟩
    rw [← Option.some.inj hs]
    simp [System.atTime]
  · rintro ⟨call, hcall, _⟩
    have hlt := (List.getElem?_eq_some_iff.mp hcall).1
    exact absurd hlt (Nat.lt_irrefl _)

theorem onPolicy_poll (net : Network Id T E) (script : Script T E) (h : c.Pending (p, i)) :
    ∃ c', c.onPolicy net p (.poll i script) = some c' := by
  obtain ⟨call, hcall, hover⟩ := h
  have hi : ((c.systems p).atTime c.time).calls[i]? = some call := hcall
  obtain ⟨done, hdone⟩ := pollCall_of_not_isOver (net.plans p) i script
    (((c.systems p).atTime c.time).frame script.ticks script.draws) hover
  simp [onPolicy, System.step, hi, hdone]

theorem pending_polled {script : Script T E}
    (hcounted : ∀ q, (c.systems q).EachCall CountedOrDropped)
    (hstep : c.onPolicy net p (.poll i script) = some c')
    (hnone : (c'.systems p).resultOf i = none) : c'.Pending (p, i) := by
  obtain ⟨hs, _, _⟩ := onPolicy_cases hstep
  have hcounted' : ((c.systems p).atTime c.time).EachCall CountedOrDropped := hcounted p
  obtain ⟨call, hi, hover | ⟨r, hr⟩⟩ := System.poll_pending_or_resolved hcounted' hs
  · exact ⟨call, hi, hover⟩
  · rw [System.resultOf_of_returned hi hr] at hnone
    cases hnone

end Commons

/-! ## One owner each -/

namespace Route

variable {net : Network Id T E} {route : Route Id T E} {script : RouteScript T E}
  {c : Commons T E} {done : Route Id T E × Commons T E}

/-- A run interferes with no pending call but its own. -/
structure MindsOwnCall (c : Commons T E) (route : Route Id T E)
    (done : Route Id T E × Commons T E) : Prop where
  others : ∀ o, c.Pending o → route.owns ≠ some o → done.2.Pending o
  own : ∀ o, done.1.owns = some o → done.2.Pending o ∧ (route.owns = some o ∨ ¬ c.Pending o)

theorem goOn_owns (route : Route Id T E) (healthy : List Nat) (lastErr : Option E) :
    (route.goOn healthy lastErr).owns = none := by
  unfold goOn owns
  dsimp only
  by_cases h : healthy = []
  · rw [if_pos h]
  · rw [if_neg h]

theorem settle_owns (net : Network Id T E) (route : Route Id T E) (healthy : List Nat)
    (tried : Tried Id T E) (attemptStart : Nat) (script : RouteScript T E) (c : Commons T E) :
    (route.settle net healthy tried attemptStart script c).1.owns = none := by
  unfold settle
  dsimp only
  split
  · rfl
  · exact goOn_owns _ _ _

theorem mindsOwnCall_poll (hcounted : ∀ q, (c.systems q).EachCall CountedOrDropped)
    (h : route.poll net script c = some done) : MindsOwnCall c route done := by
  unfold poll at h
  cases hstage : route.stage with
  | created =>
      simp only [hstage] at h
      cases h
      refine ⟨fun o ho _ => ho, fun o ho => ?_⟩
      have hnone : (route.enter net script c).1.owns = none := by
        unfold enter owns
        dsimp only
        split
        next heq =>
          split at heq
          · cases heq
          · cases heq
        next => rfl
      rw [hnone] at ho
      cases ho
  | choosing healthy =>
      simp only [hstage] at h
      rcases choose_cases h with ⟨e, k, _, rfl⟩ | ⟨chosen, k, target, c', _, _, hc', rfl⟩
      · exact ⟨fun o ho _ => ho, fun o ho => by cases ho⟩
      · refine ⟨fun o ho _ => ?_, fun o ho => ?_⟩
        · have hpending : ({ c with time := k.tick.time }.withLoad target.state
              (c.loads target.state).acquire).Pending o := ho
          exact hpending.onPolicy hc' fun _ hnames => by cases hnames
        · cases ho
          obtain ⟨hnew, hfresh⟩ := Commons.pending_created hc'
          exact ⟨hnew, .inr hfresh⟩
  | calling healthy chosen target call attemptStart =>
      simp only [hstage] at h
      have howns : route.owns = some (target.policy, call) := by
        simp [owns, hstage]
      obtain ⟨c', hc', hdone⟩ := await_cases h
      have hothers : ∀ o, c.Pending o → route.owns ≠ some o → c'.Pending o := by
        intro o ho hne
        refine ho.onPolicy hc' fun hp hnames => hne ?_
        rw [howns]
        cases hnames
        rw [hp]
      rcases hdone with ⟨hnone, rfl⟩ | ⟨outcome, _, rfl⟩
      · refine ⟨hothers, fun o ho => ⟨?_, .inl ho⟩⟩
        rw [howns] at ho
        cases ho
        exact Commons.pending_polled hcounted hc' hnone
      · obtain ⟨t, loads, _, heq⟩ := settle_commons net route healthy
          ⟨chosen, target, call, outcome⟩ attemptStart script c'
        refine ⟨fun o ho hne => ?_, fun o ho => ?_⟩
        · rw [heq]
          exact hothers o ho hne
        · rw [settle_owns] at ho
          cases ho
  | returned r => simp [hstage] at h
  | dropped => simp [hstage] at h

theorem mindsOwnCall_drop (h : route.drop net c = some done) : MindsOwnCall c route done := by
  have hdropped := (drop_cases h).1
  refine ⟨fun o ho hne => ?_, fun o ho => ?_⟩
  · unfold drop at h
    cases hstage : route.stage with
    | created =>
        simp only [hstage] at h
        cases h
        exact ho
    | choosing healthy =>
        simp only [hstage] at h
        cases h
        exact ho
    | calling healthy chosen target call attemptStart =>
        simp only [hstage] at h
        obtain ⟨c', hc', rfl⟩ := Option.map_eq_some_iff.mp h
        have hpending : c'.Pending o := by
          refine ho.onPolicy hc' fun hp hnames => hne ?_
          cases hnames
          simp [owns, hstage, hp]
        exact hpending
    | returned r => simp [hstage] at h
    | dropped => simp [hstage] at h
  · rw [hdropped] at ho
    cases ho

theorem mindsOwnCall_panic (h : route.panic net script c = some done) :
    MindsOwnCall c route done := by
  obtain ⟨_, _, target, call, _, c', _, hstage, hc', _, rfl⟩ := panic_cases h
  refine ⟨fun o ho hne => ?_, fun o ho => by cases ho⟩
  have hpending : c'.Pending o := by
    refine ho.onPolicy hc' fun hp hnames => hne ?_
    cases hnames
    simp [owns, hstage, hp]
  exact hpending

end Route

namespace Fleet

variable {net : Network Id T E}

/-- Every call that a run waits in is pending, and waited in by that run alone. -/
structure Tidy (s : Fleet Id T E) : Prop where
  counted : ∀ p, (s.commons.systems p).EachCall CountedOrDropped
  pending : ∀ (r : Nat) (route : Route Id T E) (o : Nat × Nat), s.routes[r]? = some route →
    route.owns = some o → s.commons.Pending o
  exclusive : ∀ (r r' : Nat) (route route' : Route Id T E) (o : Nat × Nat),
    s.routes[r]? = some route → s.routes[r']? = some route' → route.owns = some o →
      route'.owns = some o → r = r'

theorem tidy_init (net : Network Id T E) (start : Nat) : (init net start).Tidy := by
  refine ⟨fun p => System.eachCall_init (net.plans p) start CountedOrDropped, ?_, ?_⟩
  · intro r route o hr
    simp [init] at hr
  · intro r r' route route' o hr
    simp [init] at hr

theorem owned_of_owns {s : Fleet Id T E} {r : Nat} {route : Route Id T E} {p i : Nat}
    (hr : s.routes[r]? = some route) (howns : route.owns = some (p, i)) : s.owned p i = true :=
  List.any_eq_true.mpr ⟨route, List.mem_of_getElem? hr, by simp [howns]⟩

theorem Tidy.settle {s : Fleet Id T E} {r : Nat} {route : Route Id T E}
    {done : Route Id T E × Commons T E} (h : s.Tidy) (hr : s.routes[r]? = some route)
    (hcounted : ∀ p, (done.2.systems p).EachCall CountedOrDropped)
    (hminds : route.MindsOwnCall s.commons done) : (s.settle r done).Tidy := by
  refine ⟨hcounted, fun j other o hj howns => ?_, fun j j' other other' o hj hj' ho ho' => ?_⟩
  · rcases TaskPool.getElem?_set_cases hj with ⟨rfl, rfl⟩ | ⟨hne, hold⟩
    · exact (hminds.own o howns).1
    · refine hminds.others o (h.pending j other o hold howns) fun hmine => ?_
      exact hne (h.exclusive r j route other o hr hold hmine howns)
  · -- a call the moving run owns now was its own before, or nobody's
    have hmoved : ∀ (k : Nat) (owner : Route Id T E), r ≠ k → s.routes[k]? = some owner →
        owner.owns = some o → done.1.owns ≠ some o := by
      intro k owner hne hk howner hdone
      rcases (hminds.own o hdone).2 with hmine | hfresh
      · exact hne (h.exclusive r k route owner o hr hk hmine howner)
      · exact hfresh (h.pending k owner o hk howner)
    rcases TaskPool.getElem?_set_cases hj with ⟨rfl, rfl⟩ | ⟨hne, hold⟩
    · rcases TaskPool.getElem?_set_cases hj' with ⟨rfl, _⟩ | ⟨hne', hold'⟩
      · rfl
      · exact absurd ho (hmoved j' other' hne' hold' ho')
    · rcases TaskPool.getElem?_set_cases hj' with ⟨rfl, rfl⟩ | ⟨_, hold'⟩
      · exact absurd ho' (hmoved j other hne hold ho)
      · exact h.exclusive j j' other other' o hold hold' ho ho'

theorem tidy_step (s : Fleet Id T E) (l : Label T E) (s' : Fleet Id T E) (h : s.Tidy)
    (hstep : step net s l = some s') : s'.Tidy := by
  have hcounted : ∀ p, (s'.commons.systems p).EachCall CountedOrDropped :=
    (step_evolves hstep).eachSystem (fun _ _ _ hs => hs)
      (fun p s l s' hs hstep => counted_step (net.plans p) s l s' hs hstep) h.counted
  cases l with
  | elapse d =>
      cases hstep
      exact ⟨hcounted, h.pending, h.exclusive⟩
  | route router entry =>
      cases hstep
      refine ⟨hcounted, fun j other o hj howns => ?_, fun j j' other other' o hj hj' ho ho' => ?_⟩
      · rcases TaskPool.getElem?_snoc_cases hj with ⟨_, rfl⟩ | hold
        · cases howns
        · exact h.pending j other o hold howns
      · rcases TaskPool.getElem?_snoc_cases hj with ⟨_, rfl⟩ | hold
        · cases ho
        · rcases TaskPool.getElem?_snoc_cases hj' with ⟨_, rfl⟩ | hold'
          · cases ho'
          · exact h.exclusive j j' other other' o hold hold' ho ho'
  | poll r script =>
      obtain ⟨route, done, hr, hdone, rfl⟩ := step_poll hstep
      exact h.settle hr hcounted (Route.mindsOwnCall_poll h.counted hdone)
  | drop r =>
      obtain ⟨route, done, hr, hdone, rfl⟩ := step_drop hstep
      exact h.settle hr hcounted (Route.mindsOwnCall_drop hdone)
  | panic r script =>
      obtain ⟨route, done, hr, hdone, rfl⟩ := step_panic hstep
      exact h.settle hr hcounted (Route.mindsOwnCall_panic hdone)
  | other p l =>
      obtain ⟨hfree, c, hc, rfl⟩ := step_other hstep
      refine ⟨hcounted, fun j other o hj howns => ?_, h.exclusive⟩
      refine (h.pending j other o hj howns).onPolicy hc fun hp hnames => ?_
      have howned : s.owned o.1 o.2 = true := owned_of_owns hj howns
      rw [← hp, hfree o.2 hnames] at howned
      cases howned

end Fleet

end ExecutionPolicy
