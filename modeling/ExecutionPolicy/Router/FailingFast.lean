import ExecutionPolicy.Router.Meter
import ExecutionPolicy.Router.Turns
import ExecutionPolicy.Router.ScanOrder

/-! # Members that only fail

A failure seeds a reading of zero, and zero times any load is zero: the score of a member
that was never served is the lowest there can be.
-/

namespace ExecutionPolicy

open StepSystem

variable {Id T E : Type}

/-! ## Readings without a success -/

/-- Nothing but failures went into the reading: there is none, or it is zero. -/
def MemberState.Unread (m : MemberState) : Prop := ∀ st, m.meter = some st → st.valueSecs = .fin 0

theorem MemberState.Unread.latency {m : MemberState} (h : m.Unread) : m.latency = 0 := by
  unfold MemberState.latency
  cases hm : m.meter with
  | none => rfl
  | some st =>
      have hzero := congrArg Duration.fromSecsF64 (h st hm)
      have hsome : Duration.fromSecsF64 (.fin 0) = some 0 := by
        simp [Duration.fromSecsF64, F64.roundDiv]
      exact Option.get_of_eq_some _ (hzero.trans hsome)

/-- Every meter there is comes from `Meter::peak_ewma`, with half-lives of their own. -/
def Network.PeakEwmaOnly (net : Network Id T E) (exp : F64 → F64) : Prop :=
  ∀ r meter, (net.routers r).meter = some meter →
    ∃ halfLife, meter = Meter.peakEwma exp halfLife

theorem MemberState.Unread.recordFailure {m : MemberState} (h : m.Unread) {exp : F64 → F64}
    {meter : Option Meter}
    (hmeter : ∀ meter', meter = some meter' → ∃ halfLife, meter' = Meter.peakEwma exp halfLife)
    (attemptStart : Nat) (k : Core) : (m.recordAttempt meter attemptStart false k).1.Unread := by
  cases meter with
  | none => exact h
  | some meter =>
      obtain ⟨halfLife, rfl⟩ := hmeter meter rfl
      intro st hst
      rw [← Option.some.inj hst, Meter.peakEwma_failed _ _ _ rfl]
      cases hm : m.meter with
      | none => rfl
      | some st' => exact h st' hm

def Route.Succeeded (m : Nat) (route : Route Id T E) : Prop :=
  ∃ t ∈ route.history, t.target.state = m ∧ t.outcome.isOk = true

namespace Fleet

/-- Some completed call on `m` succeeded, whichever router's run it was of. -/
def Succeeded (s : Fleet Id T E) (m : Nat) : Prop := ∃ route ∈ s.routes, route.Succeeded m

/-- Calls on `m` have completed, and all of them failed. -/
def OnlyFails (s : Fleet Id T E) (m : Nat) : Prop :=
  (∃ route ∈ s.routes, ∃ t ∈ route.history, t.target.state = m ∧ t.outcome.isOk = false) ∧
    ¬ s.Succeeded m

instance (s : Fleet Id T E) (m : Nat) : Decidable (s.OnlyFails m) := by
  unfold OnlyFails Succeeded Route.Succeeded
  infer_instance

end Fleet

section Stretches

variable {net : Network Id T E} {route : Route Id T E} {script : RouteScript T E}
  {c : Commons T E} {done : Route Id T E × Commons T E} {exp : F64 → F64} {m : Nat}

theorem unread_update {loads : Nat → MemberState} (h : (loads m).Unread) {i : Nat}
    {load : MemberState} (hload : i = m → load.Unread) :
    (Function.update loads i load m).Unread := by
  by_cases hm : m = i
  · rw [hm, Function.update_self]
    exact hload hm.symm
  · rw [Function.update_of_ne hm]
    exact h

theorem Route.unread_poll (hmeters : net.PeakEwmaOnly exp) (h : (c.loads m).Unread)
    (hnever : ¬ done.1.Succeeded m) (hdone : route.poll net script c = some done) :
    (done.2.loads m).Unread := by
  rcases Route.poll_loads hdone with ⟨hloads, _⟩ | ⟨_, _, target, _, _, _, _, hloads⟩ |
    ⟨tried, _, attemptStart, k, _, _, hhistory, hloads⟩
  · rw [hloads]
    exact h
  · rw [hloads]
    refine unread_update h ?_
    rintro rfl
    exact h
  · rw [hloads]
    refine unread_update h ?_
    rintro rfl
    -- the call is in the history now, so it failed
    have hfailed : tried.outcome.isOk = false := by
      by_contra hok
      refine hnever ⟨tried, ?_, rfl, Bool.not_eq_false _ ▸ hok⟩
      rw [hhistory]
      exact List.mem_append_right _ (List.mem_singleton_self _)
    rw [hfailed]
    exact h.recordFailure (fun meter hmeter => hmeters _ meter hmeter) attemptStart _

theorem Route.unread_letsGo (h : (c.loads m).Unread) (hdone : LetsGo c route done) :
    (done.2.loads m).Unread := by
  obtain ⟨_, ⟨_, hloads⟩ | ⟨_, _, target, _, _, _, hloads⟩⟩ := hdone
  · rw [hloads]
    exact h
  · rw [hloads]
    refine unread_update h ?_
    rintro rfl
    exact h

end Stretches

namespace Fleet

variable {net : Network Id T E} {exp : F64 → F64}

/-- A member nobody was served by has no reading but zero. -/
def UnreadUntilServed (s : Fleet Id T E) : Prop :=
  ∀ m, ¬ s.Succeeded m → (s.commons.loads m).Unread

theorem succeeded_settle {s : Fleet Id T E} {r m : Nat} {route : Route Id T E}
    {done : Route Id T E × Commons T E} (hr : s.routes[r]? = some route)
    (hhistory : route.Succeeded m → done.1.Succeeded m) (h : s.Succeeded m) :
    (s.settle r done).Succeeded m := by
  obtain ⟨other, hmem, hother⟩ := h
  obtain ⟨j, hj⟩ := List.getElem?_of_mem hmem
  by_cases hjr : r = j
  · subst hjr
    cases hr.symm.trans hj
    exact ⟨done.1, List.mem_of_getElem? (TaskPool.getElem?_set_self_of_some hr done.1),
      hhistory hother⟩
  · have hkept : (s.settle r done).routes[j]? = some other := by
      show (s.routes.set r done.1)[j]? = some other
      rw [List.getElem?_set_ne hjr]
      exact hj
    exact ⟨other, List.mem_of_getElem? hkept, hother⟩

theorem succeeded_self {s : Fleet Id T E} {r m : Nat} {route : Route Id T E}
    {done : Route Id T E × Commons T E} (hr : s.routes[r]? = some route)
    (h : done.1.Succeeded m) : (s.settle r done).Succeeded m :=
  ⟨done.1, List.mem_of_getElem? (TaskPool.getElem?_set_self_of_some hr done.1), h⟩

theorem unreadUntilServed_step (hmeters : net.PeakEwmaOnly exp) (s : Fleet Id T E)
    (l : Label T E) (s' : Fleet Id T E) (h : s.UnreadUntilServed)
    (hstep : step net s l = some s') : s'.UnreadUntilServed := by
  intro m hnever
  cases l with
  | elapse d =>
      cases hstep
      exact h m hnever
  | route router entry =>
      cases hstep
      refine h m fun ⟨route, hmem, hroute⟩ => hnever ⟨route, ?_, hroute⟩
      exact List.mem_append_left _ hmem
  | poll r script =>
      obtain ⟨route, done, hr, hdone, rfl⟩ := step_poll hstep
      have hhistory : route.Succeeded m → done.1.Succeeded m := by
        rintro ⟨t, ht, hok⟩
        refine ⟨t, ?_, hok⟩
        rcases Route.poll_history hdone with hsame | ⟨tried, hsnoc, _⟩
        · rw [hsame]
          exact ht
        · rw [hsnoc]
          exact List.mem_append_left _ ht
      exact Route.unread_poll hmeters (h m fun hold => hnever (succeeded_settle hr hhistory hold))
        (fun hnow => hnever (succeeded_self hr hnow)) hdone
  | drop r =>
      obtain ⟨route, done, hr, hdone, rfl⟩ := step_drop hstep
      have hhistory : route.Succeeded m → done.1.Succeeded m := by
        rw [(Route.drop_cases hdone).1]
        exact id
      exact Route.unread_letsGo (h m fun hold => hnever (succeeded_settle hr hhistory hold))
        (Route.letsGo_drop hdone)
  | panic r script =>
      obtain ⟨route, done, hr, hdone, rfl⟩ := step_panic hstep
      have hhistory : route.Succeeded m → done.1.Succeeded m := by
        rw [(Route.panic_evolves hdone).1]
        exact id
      exact Route.unread_letsGo (h m fun hold => hnever (succeeded_settle hr hhistory hold))
        (Route.letsGo_panic hdone)
  | other p l =>
      obtain ⟨_, c, hc, rfl⟩ := step_other hstep
      dsimp only
      rw [Commons.onPolicy_loads hc]
      exact h m hnever

theorem unreadUntilServed_init (net : Network Id T E) (start : Nat) :
    (init net start).UnreadUntilServed := by
  intro m _ st hst
  cases hst

end Fleet

/-! ## Scores -/

theorem Duration.fromSecsF64_lt {x : F64} {d : Nat} (h : Duration.fromSecsF64 x = some d) :
    d / 10 ^ 9 < 2 ^ 65 := by
  cases x with
  | nan => cases h
  | inf negative => cases h
  | negZero =>
      cases h
      simp
  | fin q =>
      unfold Duration.fromSecsF64 at h
      dsimp only at h
      by_cases hq : 0 ≤ q ∧ q < 2 ^ 64
      · rw [if_pos hq] at h
        have hden : 0 < q.den := q.den_pos
        have hnum : q.num.natAbs < 2 ^ 64 * q.den := by
          have hlt : (q.num : ℚ) < 2 ^ 64 * q.den := by
            rw [← Rat.mul_den_eq_num]
            exact mul_lt_mul_of_pos_right hq.2 (by exact_mod_cast hden)
          have hint : q.num < 2 ^ 64 * q.den := by exact_mod_cast hlt
          have hnonneg := Rat.num_nonneg.mpr hq.1
          omega
        have hquot : q.num.natAbs * 10 ^ 9 / q.den < 2 ^ 64 * 10 ^ 9 := by
          rw [Nat.div_lt_iff_lt_mul hden]
          calc q.num.natAbs * 10 ^ 9 < 2 ^ 64 * q.den * 10 ^ 9 :=
                Nat.mul_lt_mul_of_pos_right hnum (by norm_num)
            _ = 2 ^ 64 * 10 ^ 9 * q.den := by ring
        have hround := F64.roundDiv_le_div_succ (q.num.natAbs * 10 ^ 9) q.den
        rw [Option.some.inj h] at hround
        omega
      · rw [if_neg hq] at h
        cases h

theorem MemberState.latency_lt (m : MemberState) : m.latency / 10 ^ 9 < 2 ^ 65 := by
  unfold MemberState.latency
  cases hm : m.meter with
  | none => simp
  | some st => exact Duration.fromSecsF64_lt (Option.some_get st.readable).symm

theorem Duration.asSecsF64_zero : Duration.asSecsF64 0 = .fin 0 := by decide +kernel

/-- The length of a duration in seconds is in the range of doubles, and only zero reads zero. -/
theorem Duration.asSecsF64_upto {d : Nat} (h : d / 10 ^ 9 < 2 ^ 65) :
    (Duration.asSecsF64 d).Upto (2 ^ 67) ∧ (0 < d → 0 < (Duration.asSecsF64 d).value) := by
  have hnanos : d % 10 ^ 9 < 10 ^ 9 := Nat.mod_lt d (by norm_num)
  have hmod : F64.ofNat (d % 10 ^ 9) = .fin ((d % 10 ^ 9 : Nat) : ℚ) :=
    F64.ofNat_of_lt (hnanos.trans (by norm_num))
  have hbillion : F64.ofNat (10 ^ 9) = .fin ((10 ^ 9 : Nat) : ℚ) := F64.ofNat_of_lt (by norm_num)
  have hden : (0 : ℚ) < (10 ^ 9 : Nat) := by norm_num
  have hshare : ((d % 10 ^ 9 : Nat) : ℚ) / (10 ^ 9 : Nat) ≤ 1 := by
    rw [div_le_one hden]
    exact_mod_cast hnanos.le
  have hnonneg : (0 : ℚ) ≤ ((d % 10 ^ 9 : Nat) : ℚ) / (10 ^ 9 : Nat) :=
    div_nonneg (Nat.cast_nonneg _) hden.le
  obtain ⟨hfraction, hfractionpos⟩ := F64.upto_ofSigned hnonneg hshare (by norm_num)
  have hsecs : (F64.ofNat (d / 10 ^ 9)).Upto (2 ^ 65) := F64.upto_ofNat (e := 12) h
  obtain ⟨hupto, hpos⟩ := hsecs.add hfraction (by norm_num)
  unfold Duration.asSecsF64
  rw [hmod, hbillion, F64.fin_div_fin (Nat.cast_nonneg _) hden]
  refine ⟨hupto.mono (by norm_num), fun hd => hpos ?_⟩
  rcases Nat.eq_zero_or_pos (d / 10 ^ 9) with hzero | hsome
  · have hrest : 0 < d % 10 ^ 9 := by omega
    exact .inr (hfractionpos (div_pos (by exact_mod_cast hrest) hden))
  · exact .inl (F64.value_ofNat_pos hsome)

theorem inFlight_succ_upto {n : Nat} (h : n < 2 ^ 64) :
    ((F64.ofNat n).add (.fin 1)).Upto (2 ^ 66) ∧ 0 < ((F64.ofNat n).add (.fin 1)).value := by
  have hn : (F64.ofNat n).Upto (2 ^ 64) := F64.upto_ofNat (e := 11) h
  have hone : (F64.fin 1).Upto 1 := ⟨1, zero_le_one, le_rfl, rfl⟩
  obtain ⟨hupto, hpos⟩ := hn.add hone (by norm_num)
  exact ⟨hupto.mono (by norm_num), hpos (.inr zero_lt_one)⟩

theorem Pick.peakEwma_score {c : Candidate Id} {d : Nat} (h : c.latency = some d) :
    peakEwma.score c = (Duration.asSecsF64 d).mul ((F64.ofNat c.inFlight).add (.fin 1)) := by
  unfold peakEwma bySampledScore
  simp only [h]

/-- A member without a reading scores zero under any load. -/
theorem Pick.peakEwma_score_zero {c : Candidate Id} (hlatency : c.latency = some 0)
    (hload : c.inFlight < 2 ^ 64) : peakEwma.score c = .fin 0 := by
  rw [peakEwma_score hlatency, Duration.asSecsF64_zero]
  exact (inFlight_succ_upto hload).1.fin_zero_mul

theorem Pick.peakEwma_score_pos {c : Candidate Id} {d : Nat} (hlatency : c.latency = some d)
    (hd : 0 < d) (hlength : d / 10 ^ 9 < 2 ^ 65) (hload : c.inFlight < 2 ^ 64) :
    (peakEwma.score c).isFinite = true ∧ 0 < (peakEwma.score c).value := by
  obtain ⟨hsecs, hsecspos⟩ := Duration.asSecsF64_upto hlength
  obtain ⟨hfactor, hfactorpos⟩ := inFlight_succ_upto hload
  obtain ⟨hupto, hpos⟩ := hsecs.mul hfactor (by norm_num)
  rw [peakEwma_score hlatency]
  exact ⟨hupto.isFinite, hpos (hsecspos hd) hfactorpos⟩

/-! ## The choice -/

namespace RouterPolicy

variable {p : RouterPolicy Id E} {loads : Nat → MemberState} {healthy : List Nat} {core : Core}

/-- The positions drawn by the generator's next answers include that of member `ti`. -/
def Draws (p : RouterPolicy Id E) (healthy : List Nat) (core : Core) (ti : Nat) : Prop :=
  ∃ i ∈ (positions p.select.sample healthy.length core).1, healthy[i]? = some ti

instance (p : RouterPolicy Id E) (healthy : List Nat) (core : Core) (ti : Nat) :
    Decidable (p.Draws healthy core ti) := by
  unfold Draws
  infer_instance

/-- Who is drawn is scored, and nobody else. -/
theorem draws_iff_sampled (hlt : ∀ ti ∈ healthy, ti < p.targets.length) {ti : Nat} :
    p.Draws healthy core ti ↔ ∃ c ∈ p.sampled loads healthy core, c.index = ti := by
  have hindex : ∀ i : Nat, (p.candidates loads healthy)[i]?.map Candidate.index = healthy[i]? := by
    intro i
    rw [← List.getElem?_map, map_index_candidates hlt]
  unfold Draws sampled drawn
  rw [length_candidates hlt]
  constructor
  · rintro ⟨i, hi, hti⟩
    rw [← hindex i] at hti
    obtain ⟨c, hc, hci⟩ := Option.map_eq_some_iff.mp hti
    exact ⟨c, List.mem_filterMap.mpr ⟨i, hi, hc⟩, hci⟩
  · rintro ⟨c, hc, hci⟩
    obtain ⟨i, hi, hic⟩ := List.mem_filterMap.mp hc
    refine ⟨i, hi, ?_⟩
    rw [← hindex i, hic, Option.map_some, hci]

theorem sampled_candidate {c : Candidate Id} (h : c ∈ p.sampled loads healthy core) :
    p.candidate loads c.index = some c := by
  obtain ⟨ti, _, hc⟩ := List.mem_filterMap.mp (sampled_subset h)
  rw [candidate_index hc]
  exact hc

theorem choose_draws (hlt : ∀ ti ∈ healthy, ti < p.targets.length) {ti : Nat}
    (h : (p.choose loads healthy core).1 = .ok (some ti)) : p.Draws healthy core ti := by
  rw [choose_eq_argmin] at h
  split at h
  · cases h
  next best hbest =>
    cases best with
    | none => cases h
    | some b =>
        rcases argmin_mem hbest with hmem | hnone
        · exact (draws_iff_sampled hlt).mpr ⟨b.1, hmem, by simpa using h⟩
        · cases hnone

theorem length_sampled_le {k : Nat} (hsample : p.select.sample = some k) :
    (p.sampled loads healthy core).length ≤ k := by
  unfold sampled drawn
  rw [hsample]
  exact (List.length_filterMap_le _ _).trans (length_positions_le _ _ _)

theorem eq_or_eq_of_length_le {α : Type} {l : List α} {a b x : α} (h : l.length ≤ 2)
    (ha : a ∈ l) (hb : b ∈ l) (hne : a ≠ b) (hx : x ∈ l) : x = a ∨ x = b := by
  match l, h with
  | [], _ => cases ha
  | [y], _ =>
      simp only [List.mem_singleton] at ha hb
      exact absurd (ha.trans hb.symm) hne
  | [y, z], _ =>
      simp only [List.mem_cons, List.not_mem_nil, or_false] at ha hb hx
      grind

/-- A candidate that scores zero is chosen from a sample of two if the other one scores more. -/
theorem choose_zero {c d : Candidate Id} (htwo : (p.sampled loads healthy core).length ≤ 2)
    (hc : c ∈ p.sampled loads healthy core) (hd : d ∈ p.sampled loads healthy core)
    (hzero : p.select.score c = .fin 0)
    (hpos : (p.select.score d).isFinite = true ∧ 0 < (p.select.score d).value) :
    (p.choose loads healthy core).1 = .ok (some c.index) := by
  have hne : c ≠ d := by
    rintro rfl
    rw [hzero] at hpos
    exact absurd hpos.2 (lt_irrefl _)
  have heither : ∀ x ∈ p.sampled loads healthy core, x = c ∨ x = d :=
    fun x hx => eq_or_eq_of_length_le htwo hc hd hne hx
  have hfinite : AllFinite p.select.score (p.sampled loads healthy core) := by
    intro x hx
    rcases heither x hx with rfl | rfl
    · rw [hzero]
      rfl
    · exact hpos.1
  have hsome : ∃ b, argmin p.select.score (p.sampled loads healthy core) none =
      (.ok (some b) : Except (RouterError Id E) _) := by
    rw [argmin_eq_scan hfinite]
    cases hcs : p.sampled loads healthy core with
    | nil => simp [hcs] at hc
    | cons x xs =>
        obtain ⟨b, hb⟩ := Scanning.scan_some replaces (x, p.select.score x)
          (rated p.select.score xs)
        exact ⟨b, congrArg Except.ok hb⟩
  obtain ⟨b, hb⟩ := hsome
  obtain ⟨⟨_, hscore⟩, _, hlowest⟩ := argmin_lowest (fun _ hnone => by cases hnone) hb
  have hmem : b.1 ∈ p.sampled loads healthy core := by
    rcases argmin_mem hb with hmem | hnone
    · exact hmem
    · cases hnone
  have hbest : b.1 = c := by
    rcases heither b.1 hmem with hbc | hbd
    · exact hbc
    · have hle := (hlowest c hc).2
      rw [hscore, hbd, hzero] at hle
      exact absurd hpos.2 (not_lt.mpr hle)
  rw [choose_eq_argmin, hb, ← hbest]
  rfl

/-- Of two members drawn, one without a reading is chosen, whatever it failed at. -/
theorem choose_unread {i j : Fin p.targets.length} (hselect : p.select = Pick.peakEwma)
    (hlt : ∀ ti ∈ healthy, ti < p.targets.length) (hi : p.Draws healthy core i.val)
    (hj : p.Draws healthy core j.val)
    (hzero : (loads (p.targets.get i).state).latency = 0)
    (hpos : 0 < (loads (p.targets.get j).state).latency)
    (hiload : (loads (p.targets.get i).state).inFlight < 2 ^ 64)
    (hjload : (loads (p.targets.get j).state).inFlight < 2 ^ 64) :
    (p.choose loads healthy core).1 = .ok (some i.val) := by
  obtain ⟨c, hc, hci⟩ := (draws_iff_sampled hlt).mp hi
  obtain ⟨d, hd, hdj⟩ := (draws_iff_sampled hlt).mp hj
  have hcand := sampled_candidate hc
  have hcand' := sampled_candidate hd
  have hmeter : p.select.requiresMeter = true := by
    rw [hselect]
    rfl
  obtain ⟨meter, hmeter⟩ := Option.isSome_iff_exists.mp (p.meter_present hmeter)
  rw [hci, candidate_of_target loads (getElem?_member i), hmeter] at hcand
  rw [hdj, candidate_of_target loads (getElem?_member j), hmeter] at hcand'
  have htwo : (p.sampled loads healthy core).length ≤ 2 := by
    apply length_sampled_le
    rw [hselect]
    rfl
  rw [← hci]
  apply choose_zero htwo hc hd
  · rw [hselect]
    apply Pick.peakEwma_score_zero
    · rw [← Option.some.inj hcand, ← hzero]
      rfl
    · rw [← Option.some.inj hcand]
      exact hiload
  · rw [hselect]
    apply Pick.peakEwma_score_pos _ hpos (MemberState.latency_lt _)
    · rw [← Option.some.inj hcand']
      exact hjload
    · rw [← Option.some.inj hcand']
      rfl

end RouterPolicy

/-- For any routers with `Meter::peak_ewma` that share members, any interleaving of their runs
and any choice of one of them by `Pick::peak_ewma`: let calls on member `i` have completed and
all of them failed, let member `j` be drawn with a positive reading and no more in flight.
Then `i` is not chosen exactly when it is not drawn. -/
theorem failing_member_is_passed_over_iff (net : Network Id T E) (exp : F64 → F64)
    (hmeters : net.PeakEwmaOnly exp) (start : Nat) (ls : List (Fleet.Label T E))
    (s : Fleet Id T E) (hrun : run (Fleet.step net) (Fleet.init net start) ls = some s) (r : Nat)
    (hselect : (net.routers r).select = Pick.peakEwma) (healthy : List Nat)
    (hlt : ∀ ti ∈ healthy, ti < (net.routers r).targets.length) (core : Core)
    (i j : Fin (net.routers r).targets.length)
    (hfails : s.OnlyFails ((net.routers r).targets.get i).state)
    (hdrawn : (net.routers r).Draws healthy core j.val)
    (hpos : 0 < (s.commons.loads ((net.routers r).targets.get j).state).latency)
    (hload : (s.commons.loads ((net.routers r).targets.get j).state).inFlight ≤
      (s.commons.loads ((net.routers r).targets.get i).state).inFlight)
    (husize : (s.commons.loads ((net.routers r).targets.get i).state).inFlight < 2 ^ 64) :
    ((net.routers r).choose s.commons.loads healthy core).1 ≠ .ok (some i.val) ↔
      ¬ (net.routers r).Draws healthy core i.val := by
  have hunread : s.UnreadUntilServed :=
    invariant_of_step (Fleet.unreadUntilServed_step hmeters)
      (Fleet.unreadUntilServed_init net start) hrun
  have hzero := (hunread _ hfails.2).latency
  constructor
  · intro hpassed hi
    exact hpassed (RouterPolicy.choose_unread hselect hlt hi hdrawn hzero hpos husize
      (Nat.lt_of_le_of_lt hload husize))
  · intro hnot hchosen
    exact hnot (RouterPolicy.choose_draws hlt hchosen)

/-! One member that fails and one that serves. -/

theorem Pick.peakEwma_sample_valid : (peakEwma : Pick Nat).sampleIsValid = true := by decide

theorem someMeter_present (meter : Meter) :
    (Pick.peakEwma : Pick Nat).requiresMeter = true → (some meter).isSome = true := fun _ => rfl

/-- Half-life 10 s; no weight is computed before the second success of a member. -/
def tenSeconds : Meter := Meter.peakEwma (fun _ => .fin 1) (10 * 10 ^ 9)

def latencyAware : RouterPolicy Nat Nat :=
  { pair with
    select := .peakEwma
    meter := some tenSeconds
    sample_valid := Pick.peakEwma_sample_valid
    meter_present := someMeter_present tenSeconds }

def throttled : Network Nat Nat Nat where
  plans := fun _ => sturdy
  routers := fun _ => latencyAware

theorem throttled_meters : throttled.PeakEwmaOnly fun _ => .fin 1 := by
  intro r meter hmeter
  exact ⟨10 * 10 ^ 9, (Option.some.inj hmeter).symm⟩

/-- Member 0 fails at once; member 1 serves the same run in 3 ns. -/
def rejectedThenServed : List (Fleet.Label Nat Nat) :=
  [.route 0 .run, polledRun 0 .pending] ++ attemptOf 0 (.error 429) ++
    [polledRun 0 .pending, polledRun 0 .pending, .elapse 3, polledRun 0 (.answer 0 (.ok 1))]

theorem rejectedThenServed_run :
    (run (Fleet.step throttled) (Fleet.init throttled 0) rejectedThenServed).isSome = true := by
  decide +kernel

def afterRejection : Fleet Nat Nat Nat :=
  (run (Fleet.step throttled) (Fleet.init throttled 0) rejectedThenServed).get
    rejectedThenServed_run

theorem afterRejection_facts :
    afterRejection.OnlyFails 0 ∧
      latencyAware.Draws [0, 1] ⟨3, [], []⟩ 1 ∧
      0 < (afterRejection.commons.loads 1).latency ∧
      (afterRejection.commons.loads 1).inFlight ≤ (afterRejection.commons.loads 0).inFlight ∧
      (afterRejection.commons.loads 0).inFlight < 2 ^ 64 := by
  decide +kernel

theorem failing_member_is_passed_over_iff_afterRejection :
    (latencyAware.choose afterRejection.commons.loads [0, 1] ⟨3, [], []⟩).1 ≠ .ok (some 0) ↔
      ¬ latencyAware.Draws [0, 1] ⟨3, [], []⟩ 0 :=
  failing_member_is_passed_over_iff throttled (fun _ => .fin 1) throttled_meters 0
    rejectedThenServed afterRejection (Option.some_get rejectedThenServed_run).symm 0 rfl [0, 1]
    (by decide) ⟨3, [], []⟩ ⟨0, Nat.two_pos⟩ ⟨1, Nat.one_lt_two⟩ afterRejection_facts.1
    afterRejection_facts.2.1 afterRejection_facts.2.2.1 afterRejection_facts.2.2.2.1
    afterRejection_facts.2.2.2.2

/-- The member that was only ever rejected is chosen over the one that serves. -/
theorem failing_member_attracts_calls :
    (afterRejection.OnlyFails 0 ∧
      latencyAware.Draws [0, 1] ⟨3, [], []⟩ 1 ∧
      0 < (afterRejection.commons.loads 1).latency ∧
      (afterRejection.commons.loads 1).inFlight ≤ (afterRejection.commons.loads 0).inFlight ∧
      (afterRejection.commons.loads 0).inFlight < 2 ^ 64) ∧
    (latencyAware.choose afterRejection.commons.loads [0, 1] ⟨3, [], []⟩).1 = .ok (some 0) :=
  ⟨afterRejection_facts, by decide +kernel⟩

end ExecutionPolicy
