import ExecutionPolicy.Router.Pick

/-! # Choosing a member

`RouterPolicy::choose`: the candidates of the healthy members, a sample of them
drawn without replacement, and the lowest score among the sampled ones.
-/

namespace ExecutionPolicy

structure Served (Id T : Type) where
  value : T
  target : Id
  attempts : Nat
deriving DecidableEq, Repr

inductive RouterError (Id E : Type) where
  | allUnavailable (nextAvailableAt : Option Nat)
  | exhausted (e : E)
  | score (id : Id) (value : F64)
deriving DecidableEq, Repr

/-- A registered member: which policy and which load state its `Arc`s point to. -/
structure Target (Id : Type) where
  id : Id
  policy : Nat
  weight : Weight
  state : Nat

/-- A built router, with what `build_with` asserts. A member's state belongs to its
id, so the targets of one router have states of their own; they may share a policy. -/
structure RouterPolicy (Id E : Type) where
  targets : List (Target Id)
  select : Pick Id
  meter : Option Meter
  advanceWhen : E → Bool
  targets_nonempty : targets ≠ []
  ids_nodup : (targets.map Target.id).Nodup
  states_nodup : (targets.map Target.state).Nodup
  sample_valid : select.sampleIsValid = true
  meter_present : select.requiresMeter = true → meter.isSome = true

variable {Id E : Type}

/-! ## Sampling -/

def swap (idx : List Nat) (i j : Nat) : List Nat :=
  (idx.set i (idx.getD j 0)).set j (idx.getD i 0)

/-- The loop of `sample_distinct` with `m` rounds to go, the next one being round `i`. -/
def drawDistinct (n : Nat) : Nat → Nat → List Nat → Core → List Nat × Core
  | 0, _, idx, k => (idx, k)
  | m + 1, i, idx, k =>
      let r := k.nextU64
      drawDistinct n m (i + 1) (swap idx i (i + r.1.toNat % (n - i))) r.2

/-- `k` distinct indices below `n` by a partial Fisher-Yates shuffle. -/
def sampleDistinct (n k : Nat) (core : Core) : List Nat × Core :=
  let drawn := drawDistinct n k 0 (List.range n) core
  (drawn.1.take k, drawn.2)

def positions (sample : Option Nat) (len : Nat) (core : Core) : List Nat × Core :=
  match sample with
  | some k => if k < len then sampleDistinct len k core else (List.range len, core)
  | none => (List.range len, core)

theorem swap_perm {idx : List Nat} {i j : Nat} (hi : i < idx.length) (hj : j < idx.length) :
    (swap idx i j).Perm idx := by
  unfold swap
  rw [List.getD_eq_getElem _ _ hi, List.getD_eq_getElem _ _ hj]
  exact List.set_set_perm hi hj

theorem drawDistinct_perm {n m i : Nat} {idx : List Nat} (k : Core) (hroom : i + m ≤ n)
    (hlen : idx.length = n) : (drawDistinct n m i idx k).1.Perm idx := by
  induction m generalizing i idx k with
  | zero => exact List.Perm.refl idx
  | succ m ih =>
      have hj : i + k.nextU64.1.toNat % (n - i) < idx.length := by
        have hmod := Nat.mod_lt k.nextU64.1.toNat (show n - i > 0 by omega)
        omega
      have hswap := swap_perm (show i < idx.length by omega) hj
      exact (ih k.nextU64.2 (by omega) (hswap.length_eq.trans hlen)).trans hswap

theorem drawDistinct_time (n m i : Nat) (idx : List Nat) (k : Core) :
    (drawDistinct n m i idx k).2.time = k.time := by
  induction m generalizing i idx k with
  | zero => rfl
  | succ m ih => exact (ih _ _ _).trans k.nextU64_time

theorem length_sampleDistinct {n k : Nat} (hk : k ≤ n) (core : Core) :
    (sampleDistinct n k core).1.length = k := by
  have hperm := (drawDistinct_perm core (show 0 + k ≤ n by omega) List.length_range).length_eq
  rw [List.length_range] at hperm
  simp only [sampleDistinct, List.length_take]
  omega

theorem sampleDistinct_lt {n k p : Nat} {core : Core} (hk : k ≤ n)
    (hp : p ∈ (sampleDistinct n k core).1) : p < n := by
  have hperm := drawDistinct_perm core (show 0 + k ≤ n by omega) List.length_range
  exact List.mem_range.mp (hperm.subset (List.mem_of_mem_take hp))

theorem positions_of_lt {len k : Nat} (hk : k < len) (core : Core) :
    positions (some k) len core = sampleDistinct len k core := if_pos hk

theorem positions_of_le {len k : Nat} (hk : len ≤ k) (core : Core) :
    positions (some k) len core = (List.range len, core) := if_neg (Nat.not_lt_of_le hk)

theorem positions_lt {sample : Option Nat} {len p : Nat} {core : Core}
    (hp : p ∈ (positions sample len core).1) : p < len := by
  unfold positions at hp
  split at hp
  next k =>
    split at hp
    next hk => exact sampleDistinct_lt (Nat.le_of_lt hk) hp
    next => exact List.mem_range.mp hp
  next => exact List.mem_range.mp hp

theorem positions_ne_nil {sample : Option Nat} {len : Nat} (core : Core)
    (hsample : sample ≠ some 0) (hlen : 0 < len) : (positions sample len core).1 ≠ [] := by
  have hrange : List.range len ≠ [] := by
    simp only [ne_eq, List.range_eq_nil]
    omega
  unfold positions
  split
  next k =>
    split
    next hk =>
      have hlength := length_sampleDistinct (Nat.le_of_lt hk) core
      intro hnil
      rw [hnil] at hlength
      exact hsample (congrArg some hlength.symm)
    next => exact hrange
  next => exact hrange

theorem positions_time (sample : Option Nat) (len : Nat) (core : Core) :
    (positions sample len core).2.time = core.time := by
  unfold positions
  split
  · split
    · exact drawDistinct_time _ _ _ _ _
    · rfl
  · rfl

/-! ## The lowest score -/

/-- Whether `c`, scored `s`, replaces the best so far. -/
def takes (best : Option (Candidate Id × F64)) (c : Candidate Id) (s : F64) : Bool :=
  match best with
  | none => true
  | some b => s.totalLt b.2 || (s.eq b.2 && decide (c.index < b.1.index))

/-- The scoring loop; it stops at the first score that is not finite. -/
def argmin (score : Candidate Id → F64) : List (Candidate Id) → Option (Candidate Id × F64) →
    Except (RouterError Id E) (Option (Candidate Id × F64))
  | [], best => .ok best
  | c :: cs, best =>
      let s := score c
      if s.isFinite then argmin score cs (if takes best c s then some (c, s) else best)
      else .error (.score c.id s)

theorem argmin_mem {score : Candidate Id → F64} {cs : List (Candidate Id)}
    {best : Option (Candidate Id × F64)} {b : Candidate Id × F64}
    (h : argmin score cs best = (.ok (some b) : Except (RouterError Id E) _)) :
    b.1 ∈ cs ∨ best = some b := by
  induction cs generalizing best with
  | nil => exact .inr (Except.ok.inj h)
  | cons c cs ih =>
      simp only [argmin] at h
      by_cases hs : (score c).isFinite
      · rw [if_pos hs] at h
        rcases ih h with hmem | hbest
        · exact .inl (List.mem_cons_of_mem c hmem)
        · split at hbest
          · cases hbest
            exact .inl List.mem_cons_self
          · exact .inr hbest
      · rw [if_neg hs] at h
        cases h

theorem argmin_error {score : Candidate Id → F64} {cs : List (Candidate Id)}
    {best : Option (Candidate Id × F64)} {e : RouterError Id E}
    (h : argmin score cs best = .error e) : ∃ id value, e = .score id value := by
  induction cs generalizing best with
  | nil => cases h
  | cons c cs ih =>
      simp only [argmin] at h
      split at h
      · exact ih h
      · cases h
        exact ⟨_, _, rfl⟩

theorem argmin_of_finite {score : Candidate Id → F64} (hfinite : ∀ c, (score c).isFinite = true)
    (cs : List (Candidate Id)) (best : Option (Candidate Id × F64))
    (hsome : cs ≠ [] ∨ best.isSome = true) :
    ∃ b, argmin score cs best = (.ok (some b) : Except (RouterError Id E) _) := by
  induction cs generalizing best with
  | nil =>
      rcases hsome with hnil | hbest
      · exact absurd rfl hnil
      · obtain ⟨b, rfl⟩ := Option.isSome_iff_exists.mp hbest
        exact ⟨b, rfl⟩
  | cons c cs ih =>
      simp only [argmin, if_pos (hfinite c)]
      apply ih
      right
      by_cases htake : takes best c (score c) = true
      · simp [htake]
      · cases best with
        | none => exact absurd rfl htake
        | some b => simp [htake]

/-- Scores that follow the insertion order keep the first candidate. -/
theorem argmin_index {b : Candidate Id} (cs : List (Candidate Id))
    (hlater : ∀ c ∈ cs, b.index < c.index) :
    argmin (fun c => F64.ofNat c.index) cs (some (b, F64.ofNat b.index)) =
      (.ok (some (b, F64.ofNat b.index)) : Except (RouterError Id E) _) := by
  induction cs with
  | nil => rfl
  | cons c cs ih =>
      have hlt := hlater c List.mem_cons_self
      have hround := F64.roundNat_mono (Nat.le_of_lt hlt)
      have hkeep : takes (some (b, F64.ofNat b.index)) c (F64.ofNat c.index) = false := by
        simp only [takes, F64.totalLt_ofNat]
        simp [Nat.not_lt.mpr hround, Nat.not_lt.mpr (Nat.le_of_lt hlt)]
      simp only [argmin, F64.isFinite_ofNat, if_true, hkeep]
      exact ih fun c' hc' => hlater c' (List.mem_cons_of_mem c hc')

theorem value_le_of_takes {b₀ : Candidate Id × F64} {c : Candidate Id} {s : F64}
    (hs : s.isFinite = true) (hb₀ : b₀.2.isFinite = true) (h : takes (some b₀) c s = true) :
    s.value ≤ b₀.2.value := by
  simp only [takes, F64.eq, Bool.or_eq_true, Bool.and_eq_true] at h
  rcases h with hlt | ⟨⟨hle, _⟩, _⟩
  · exact F64.value_le_of_totalLt hs hb₀ hlt
  · exact (F64.le_iff_value hs hb₀).mp hle

theorem value_le_of_not_takes {b₀ : Candidate Id × F64} {c : Candidate Id} {s : F64}
    (hs : s.isFinite = true) (hb₀ : b₀.2.isFinite = true) (h : ¬ takes (some b₀) c s = true) :
    b₀.2.value ≤ s.value := by
  simp only [takes, Bool.or_eq_true, not_or, Bool.not_eq_true] at h
  exact F64.value_le_of_not_totalLt hs hb₀ h.1

/-- The loop ends with a candidate whose score is lowest, the signs of zeros apart. -/
theorem argmin_lowest {score : Candidate Id → F64} {cs : List (Candidate Id)}
    {best : Option (Candidate Id × F64)} {b : Candidate Id × F64}
    (hbest : ∀ b₀, best = some b₀ → b₀.2.isFinite = true ∧ b₀.2 = score b₀.1)
    (h : argmin score cs best = (.ok (some b) : Except (RouterError Id E) _)) :
    (b.2.isFinite = true ∧ b.2 = score b.1) ∧
      (∀ b₀, best = some b₀ → b.2.value ≤ b₀.2.value) ∧
      ∀ c ∈ cs, (score c).isFinite = true ∧ b.2.value ≤ (score c).value := by
  induction cs generalizing best with
  | nil =>
      cases Except.ok.inj h
      refine ⟨hbest b rfl, ?_, fun c hc => nomatch hc⟩
      intro b₀ hb₀
      cases hb₀
      exact le_rfl
  | cons c cs ih =>
      simp only [argmin] at h
      by_cases hs : (score c).isFinite = true
      · rw [if_pos hs] at h
        by_cases htake : takes best c (score c) = true
        · rw [if_pos htake] at h
          have hself : ∀ b₀, some (c, score c) = some b₀ →
              b₀.2.isFinite = true ∧ b₀.2 = score b₀.1 := by
            intro b₀ hb₀
            rw [← Option.some.inj hb₀]
            exact ⟨hs, rfl⟩
          obtain ⟨hb, hnew, hrest⟩ := ih hself h
          have hc : b.2.value ≤ (score c).value := hnew (c, score c) rfl
          refine ⟨hb, fun b₀ hb₀ => hc.trans ?_, ?_⟩
          · rw [hb₀] at htake
            exact value_le_of_takes hs (hbest b₀ hb₀).1 htake
          · intro c' hc'
            rcases List.mem_cons.mp hc' with rfl | htail
            · exact ⟨hs, hc⟩
            · exact hrest c' htail
        · rw [if_neg htake] at h
          obtain ⟨hb, hold, hrest⟩ := ih hbest h
          refine ⟨hb, hold, ?_⟩
          intro c' hc'
          rcases List.mem_cons.mp hc' with rfl | htail
          · cases best with
            | none => exact absurd rfl htake
            | some b₀ =>
                have hle := value_le_of_not_takes hs (hbest b₀ rfl).1 htake
                exact ⟨hs, (hold b₀ rfl).trans hle⟩
          · exact hrest c' htail
      · rw [if_neg hs] at h
        cases h

/-! ## The choice -/

namespace RouterPolicy

def candidate (p : RouterPolicy Id E) (loads : Nat → MemberState) (ti : Nat) :
    Option (Candidate Id) :=
  p.targets[ti]?.map fun t => {
    id := t.id
    index := ti
    inFlight := (loads t.state).inFlight
    weight := t.weight.value
    pickCount := (loads t.state).pickCount
    latency := p.meter.map fun _ => (loads t.state).latency }

/-- `choose`; an empty choice stands for its `expect`, a panic. -/
def choose (p : RouterPolicy Id E) (loads : Nat → MemberState) (healthy : List Nat) (core : Core) :
    Except (RouterError Id E) (Option Nat) × Core :=
  let cands := healthy.filterMap (p.candidate loads)
  let drawn := positions p.select.sample cands.length core
  (match argmin p.select.score (drawn.1.filterMap fun i => cands[i]?) none with
    | .error e => .error e
    | .ok best => .ok (best.map fun b => b.1.index), drawn.2)

variable {p : RouterPolicy Id E} {loads : Nat → MemberState} {healthy : List Nat}

theorem candidate_index {ti : Nat} {c : Candidate Id} (h : p.candidate loads ti = some c) :
    c.index = ti := by
  obtain ⟨t, _, h⟩ := Option.map_eq_some_iff.mp h
  rw [← h]

theorem candidate_isSome (loads : Nat → MemberState) {ti : Nat} (h : ti < p.targets.length) :
    (p.candidate loads ti).isSome = true := by
  simp [candidate, h]

theorem choose_error {core k : Core} {e : RouterError Id E}
    (h : p.choose loads healthy core = (.error e, k)) : ∃ id value, e = .score id value := by
  unfold choose at h
  dsimp only at h
  split at h
  next e' he' =>
    cases h
    exact argmin_error he'
  next => cases h

theorem choose_time (p : RouterPolicy Id E) (loads : Nat → MemberState) (healthy : List Nat)
    (core : Core) : (p.choose loads healthy core).2.time = core.time :=
  positions_time _ _ core

theorem choose_mem {core : Core} {chosen : Nat}
    (h : (p.choose loads healthy core).1 = .ok (some chosen)) : chosen ∈ healthy := by
  unfold choose at h
  dsimp only at h
  split at h
  · cases h
  next best hbest =>
    cases best with
    | none => cases h
    | some b =>
        cases h
        rcases argmin_mem hbest with hmem | hnone
        · obtain ⟨i, _, hi⟩ := List.mem_filterMap.mp hmem
          obtain ⟨ti, hti, hcand⟩ := List.mem_filterMap.mp (List.mem_of_getElem? hi)
          show b.1.index ∈ healthy
          rw [candidate_index hcand]
          exact hti
        · cases hnone

theorem choose_of_finite (loads : Nat → MemberState) (core : Core)
    (hfinite : ∀ c, (p.select.score c).isFinite = true)
    {ti : Nat} (hti : ti ∈ healthy) (hlt : ti < p.targets.length) :
    ∃ chosen, (p.choose loads healthy core).1 = .ok (some chosen) := by
  obtain ⟨c, hc⟩ := Option.isSome_iff_exists.mp (candidate_isSome loads hlt)
  have hcands : healthy.filterMap (p.candidate loads) ≠ [] :=
    List.ne_nil_of_mem (List.mem_filterMap.mpr ⟨ti, hti, hc⟩)
  have hsample : p.select.sample ≠ some 0 := by
    simpa [Pick.sampleIsValid] using p.sample_valid
  have hdrawn := positions_ne_nil core hsample (List.length_pos_iff.mpr hcands)
  obtain ⟨i, hi⟩ := List.exists_mem_of_ne_nil _ hdrawn
  have hsome : ((positions p.select.sample (healthy.filterMap (p.candidate loads)).length
      core).1.filterMap fun i => (healthy.filterMap (p.candidate loads))[i]?) ≠ [] :=
    List.ne_nil_of_mem (List.mem_filterMap.mpr ⟨i, hi, List.getElem?_eq_getElem (positions_lt hi)⟩)
  obtain ⟨b, hb⟩ := argmin_of_finite (E := E) hfinite _ none (.inl hsome)
  exact ⟨b.1.index, by simp [choose, hb]⟩

theorem sampled_all (cs : List (Candidate Id)) :
    ((List.range cs.length).filterMap fun i => cs[i]?) = cs := by
  induction cs with
  | nil => rfl
  | cons c cs ih =>
      rw [List.length_cons, List.range_succ_eq_map, List.filterMap_cons, List.filterMap_map]
      simpa using ih

/-- Ordered failover chooses the first of the healthy members. -/
theorem choose_firstHealthy {core : Core} {chosen : Nat} (hfirst : p.select = Pick.firstHealthy)
    (hsorted : healthy.Pairwise (· < ·))
    (hlt : ∀ ti ∈ healthy, ti < p.targets.length)
    (h : (p.choose loads healthy core).1 = .ok (some chosen)) : healthy.head? = some chosen := by
  cases healthy with
  | nil => exact absurd (choose_mem h) List.not_mem_nil
  | cons first rest =>
      obtain ⟨c, hc⟩ := Option.isSome_iff_exists.mp
        (candidate_isSome loads (hlt first List.mem_cons_self))
      have hlater : ∀ c' ∈ rest.filterMap (p.candidate loads), c.index < c'.index := by
        intro c' hc'
        obtain ⟨ti, hti, hcand⟩ := List.mem_filterMap.mp hc'
        rw [candidate_index hc, candidate_index hcand]
        exact (List.pairwise_cons.mp hsorted).1 ti hti
      have hchosen : (p.choose loads (first :: rest) core).1 = .ok (some c.index) := by
        unfold choose
        simp only [hfirst, Pick.firstHealthy, Pick.byScore, positions, sampled_all,
          List.filterMap_cons, hc, argmin, F64.isFinite_ofNat, if_true, takes]
        rw [argmin_index _ hlater]
        rfl
      rw [hchosen] at h
      cases h
      rw [candidate_index hc]
      rfl

/-- Without a sample the chosen member's score is lowest among all the healthy ones, which
are finite. -/
theorem choose_lowest {core : Core} {chosen : Nat} (hall : p.select.sample = none)
    (h : (p.choose loads healthy core).1 = .ok (some chosen)) :
    ∃ c, p.candidate loads chosen = some c ∧ ∀ ti ∈ healthy, ∀ d, p.candidate loads ti = some d →
      (p.select.score d).isFinite = true ∧
        (p.select.score c).value ≤ (p.select.score d).value := by
  unfold choose at h
  simp only [hall, positions, sampled_all] at h
  split at h
  · cases h
  next best hbest =>
    cases best with
    | none => cases h
    | some b =>
        obtain ⟨⟨_, hscore⟩, _, hleast⟩ := argmin_lowest (fun _ hnone => by cases hnone) hbest
        have hchosen : b.1.index = chosen := by simpa using h
        -- the best candidate is the one of the chosen target
        have hb : b.1 ∈ healthy.filterMap (p.candidate loads) := by
          rcases argmin_mem hbest with hmem | hnone
          · exact hmem
          · cases hnone
        obtain ⟨bi, _, hcand⟩ := List.mem_filterMap.mp hb
        have hbi := (candidate_index hcand).symm.trans hchosen
        subst hbi
        refine ⟨b.1, hcand, fun ti hti d hd => ?_⟩
        rw [← hscore]
        exact hleast d (List.mem_filterMap.mpr ⟨ti, hti, hd⟩)

theorem candidate_of_target (loads : Nat → MemberState) {ti : Nat} {t : Target Id}
    (ht : p.targets[ti]? = some t) : p.candidate loads ti = some {
      id := t.id
      index := ti
      inFlight := (loads t.state).inFlight
      weight := t.weight.value
      pickCount := (loads t.state).pickCount
      latency := p.meter.map fun _ => (loads t.state).latency } := by
  simp [candidate, ht]

/-- Rotation chooses a healthy member with the fewest recorded picks, as doubles go. -/
theorem choose_roundRobin {core : Core} {chosen : Nat} (hround : p.select = Pick.roundRobin)
    (h : (p.choose loads healthy core).1 = .ok (some chosen)) {target t : Target Id}
    (htarget : p.targets[chosen]? = some target) {ti : Nat} (hti : ti ∈ healthy)
    (ht : p.targets[ti]? = some t) :
    F64.roundNat (loads target.state).pickCount ≤ F64.roundNat (loads t.state).pickCount := by
  have hall : p.select.sample = none := by
    rw [hround]
    rfl
  obtain ⟨c, hc, hleast⟩ := choose_lowest hall h
  have hle := (hleast ti hti _ (candidate_of_target loads ht)).2
  rw [candidate_of_target loads htarget] at hc
  rw [← Option.some.inj hc, hround] at hle
  simp only [Pick.roundRobin, Pick.byScore, F64.value_ofNat, Nat.cast_le] at hle
  exact hle

end RouterPolicy

end ExecutionPolicy
