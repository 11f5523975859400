import ExecutionPolicy.Foundation.Scan
import ExecutionPolicy.Router.Sampling

/-! # The order of the scan

`choose` keeps the best candidate so far and compares with two orders at once: `total_cmp`,
where the two zeros differ, and `==` with the insertion index, where they do not.
-/

/-! ## Two orders on finite scores -/

namespace F64

variable {x y : F64}

/-- The place of a finite value in the total order. -/
def rank (x : F64) : ℚ ×ₗ Nat := toLex (x.value, if x = negZero then 0 else 1)

theorem totalLt_iff_rank (hx : x.isFinite = true) (hy : y.isFinite = true) :
    x.totalLt y = true ↔ x.rank < y.rank := by
  cases x with
  | nan => cases hx
  | inf negative => cases hx
  | negZero =>
      cases y with
      | nan => cases hy
      | inf negative => cases hy
      | negZero => simp [totalLt, le, rank]
      | fin q => simp [totalLt, rank, value, Prod.Lex.toLex_lt_toLex, le_iff_lt_or_eq]
  | fin q =>
      cases y with
      | nan => cases hy
      | inf negative => cases hy
      | negZero =>
          simp only [totalLt, le, rank, value, Prod.Lex.toLex_lt_toLex]
          grind
      | fin r =>
          simp only [totalLt, le, rank, value, Prod.Lex.toLex_lt_toLex]
          grind

theorem eq_iff_value (hx : x.isFinite = true) (hy : y.isFinite = true) :
    x.eq y = true ↔ x.value = y.value := by
  have hle : x.le y = decide (x.value ≤ y.value) ∧ y.le x = decide (y.value ≤ x.value) := by
    cases x <;> cases hx <;> cases y <;> cases hy <;> exact ⟨rfl, rfl⟩
  rw [F64.eq, hle.1, hle.2, Bool.and_eq_true, decide_eq_true_eq, decide_eq_true_eq]
  exact le_antisymm_iff.symm

theorem rank_inj (hx : x.isFinite = true) (hy : y.isFinite = true) (h : x.rank = y.rank) :
    x = y := by
  have hpair := toLex_inj.mp h
  obtain ⟨hvalue, hsign⟩ := Prod.mk.inj hpair
  cases x <;> cases hx <;> cases y <;> cases hy <;> simp_all [value]

theorem rank_lt_of_value_lt (h : x.value < y.value) : x.rank < y.rank :=
  Prod.Lex.toLex_lt_toLex.mpr (.inl h)

theorem rank_negZero_lt (hvalue : 0 ≤ x.value) (hx : x ≠ negZero) : negZero.rank < x.rank := by
  apply Prod.Lex.toLex_lt_toLex.mpr
  rcases hvalue.lt_or_eq with hpos | hzero
  · exact .inl hpos
  · exact .inr ⟨hzero, by simp [hx]⟩

theorem zeros_of_rank_lt (hx : x.isFinite = true) (hy : y.isFinite = true)
    (hvalue : x.value = y.value) (h : x.rank < y.rank) : x = negZero ∧ y = fin 0 := by
  rcases Prod.Lex.toLex_lt_toLex.mp h with hlt | ⟨_, hsign⟩
  · exact absurd hvalue (ne_of_lt hlt)
  · cases x <;> cases hx <;> cases y <;> cases hy <;> simp_all [value]

end F64

namespace ExecutionPolicy

open Scanning

variable {Id E : Type}

/-! ## The scoring loop as a scan -/

section Scan

variable {score : Candidate Id → F64} {cs : List (Candidate Id)}

def replaces (x y : Candidate Id × F64) : Bool := takes (some y) x.1 x.2

def rated (score : Candidate Id → F64) (cs : List (Candidate Id)) : List (Candidate Id × F64) :=
  cs.map fun c => (c, score c)

def AllFinite (score : Candidate Id → F64) (cs : List (Candidate Id)) : Prop :=
  ∀ c ∈ cs, (score c).isFinite = true

def totalKey (b : Candidate Id × F64) : (ℚ ×ₗ Nat) ×ₗ Nat := toLex (b.2.rank, b.1.index)

/-- By `==` and `<`, then by insertion index. -/
def valueKey (b : Candidate Id × F64) : ℚ ×ₗ Nat := toLex (b.2.value, b.1.index)

theorem argmin_eq_scan (hfinite : AllFinite score cs) (best : Option (Candidate Id × F64)) :
    (argmin score cs best : Except (RouterError Id E) _) =
      .ok (scan replaces best (rated score cs)) := by
  induction cs generalizing best with
  | nil => rfl
  | cons c cs ih =>
      have hc : (score c).isFinite = true := hfinite c List.mem_cons_self
      have hcs : AllFinite score cs := fun d hd => hfinite d (List.mem_cons_of_mem c hd)
      simp only [argmin, if_pos hc]
      rw [ih hcs]
      cases best with
      | none => rfl
      | some b =>
          by_cases htake : takes (some b) c (score c) = true
          · simp [rated, scan, replaces, htake]
          · simp [rated, scan, replaces, htake]

/-- The loop fails exactly on a score that is not finite. -/
theorem argmin_error_iff (best : Option (Candidate Id × F64)) :
    (∃ id value, (argmin score cs best : Except (RouterError Id E) _) =
      .error (.score id value)) ↔ ∃ c ∈ cs, (score c).isFinite = false := by
  induction cs generalizing best with
  | nil => simp [argmin]
  | cons c cs ih =>
      by_cases hc : (score c).isFinite = true
      · have hrest : (∃ d ∈ c :: cs, (score d).isFinite = false) ↔
            ∃ d ∈ cs, (score d).isFinite = false := by simp [hc]
        rw [hrest, argmin, if_pos hc]
        exact ih _
      · simp only [Bool.not_eq_true] at hc
        refine iff_of_true ⟨c.id, score c, ?_⟩ ⟨c, List.mem_cons_self, hc⟩
        simp [argmin, hc]

theorem scored_finite (hfinite : AllFinite score cs) {b : Candidate Id × F64}
    (hb : b ∈ rated score cs) : b.2.isFinite = true := by
  obtain ⟨c, hc, rfl⟩ := List.mem_map.mp hb
  exact hfinite c hc

theorem replaces_iff (hfinite : AllFinite score cs) :
    BetterInEither replaces totalKey valueKey (rated score cs) := by
  intro x hx y hy
  have hx' := scored_finite hfinite hx
  have hy' := scored_finite hfinite hy
  simp only [replaces, takes, Bool.or_eq_true, Bool.and_eq_true, decide_eq_true_eq,
    F64.totalLt_iff_rank hx' hy', F64.eq_iff_value hx' hy', totalKey, valueKey,
    Prod.Lex.toLex_lt_toLex]
  constructor
  · rintro (hrank | htie)
    · exact .inl (.inl hrank)
    · exact .inr (.inr htie)
  · rintro ((hrank | ⟨hrank, hindex⟩) | (hvalue | htie))
    · exact .inl hrank
    · rw [F64.rank_inj hx' hy' hrank]
      exact .inr ⟨rfl, hindex⟩
    · exact .inl (F64.rank_lt_of_value_lt hvalue)
    · exact .inr htie

def DistinctIndices (cs : List (Candidate Id)) : Prop :=
  ∀ c ∈ cs, ∀ d ∈ cs, c.index = d.index → c = d

theorem separates_totalKey (hcs : DistinctIndices cs) : Separates totalKey (rated score cs) := by
  intro a ha b hb hkey
  obtain ⟨c, hc, rfl⟩ := List.mem_map.mp ha
  obtain ⟨d, hd, rfl⟩ := List.mem_map.mp hb
  rw [hcs c hc d hd (Prod.mk.inj (toLex_inj.mp hkey)).2]

theorem separates_valueKey (hcs : DistinctIndices cs) : Separates valueKey (rated score cs) := by
  intro a ha b hb hkey
  obtain ⟨c, hc, rfl⟩ := List.mem_map.mp ha
  obtain ⟨d, hd, rfl⟩ := List.mem_map.mp hb
  rw [hcs c hc d hd (Prod.mk.inj (toLex_inj.mp hkey)).2]

/-- The least score is zero, some candidates have the negative zero, and one with the
positive zero was inserted before all of these. -/
def MixedZeros (score : Candidate Id → F64) (cs : List (Candidate Id)) : Prop :=
  ∃ c ∈ cs, score c = .fin 0 ∧ (∃ d ∈ cs, score d = .negZero) ∧
    ∀ d ∈ cs, 0 ≤ (score d).value ∧ (score d = .negZero → c.index < d.index)

/-- With mixed zeros the total order takes a negative zero, and the values an earlier one. -/
theorem MixedZeros.ne_least (h : MixedZeros score cs) {a b : Candidate Id × F64}
    (ha : Least totalKey (rated score cs) a) (hb : Least valueKey (rated score cs) b) : a ≠ b := by
  rintro rfl
  obtain ⟨c, hc, hzero, ⟨d, hd, hneg⟩, hall⟩ := h
  obtain ⟨e, he, rfl⟩ := List.mem_map.mp ha.1
  have hsign : score e = .negZero := by
    by_contra hne
    have hless : totalKey (d, score d) < totalKey (e, score e) := by
      rw [hneg]
      exact Prod.Lex.toLex_lt_toLex.mpr (.inl (F64.rank_negZero_lt (hall e he).1 hne))
    have hde : (d, score d) ≠ (e, score e) := by
      intro heq
      exact absurd heq (ne_of_apply_ne totalKey (ne_of_lt hless))
    exact lt_asymm hless (ha.2 _ (List.mem_map_of_mem hd) hde)
  have hlater : c.index < e.index := (hall e he).2 hsign
  have hce : (c, score c) ≠ (e, score e) := by
    intro heq
    have hsame : c = e := congrArg Prod.fst heq
    rw [hsame] at hlater
    exact absurd hlater (Nat.lt_irrefl _)
  have hkey := hb.2 _ (List.mem_map_of_mem hc) hce
  simp only [valueKey, hsign, hzero, F64.value, Prod.Lex.toLex_lt_toLex] at hkey
  rcases hkey with hlt | ⟨_, hindex⟩
  · exact absurd hlt (lt_irrefl _)
  · omega

/-- Where the two orders disagree, their least candidates are the two zeros. -/
theorem zeros_of_least_ne (hfinite : AllFinite score cs) {e f : Candidate Id} (hf : f ∈ cs)
    (he : e ∈ cs) (hne : (f, score f) ≠ (e, score e))
    (ha : Least totalKey (rated score cs) (f, score f))
    (hb : Least valueKey (rated score cs) (e, score e)) :
    score f = .negZero ∧ score e = .fin 0 := by
  have htotal := ha.2 _ hb.1 fun h => hne h.symm
  -- by value `e` is first, and not by its value alone: the total order would agree
  have hties : (score e).value = (score f).value ∧ e.index < f.index := by
    rcases Prod.Lex.toLex_lt_toLex.mp (hb.2 _ ha.1 hne) with hlt | htie
    · have hless : totalKey (e, score e) < totalKey (f, score f) :=
        Prod.Lex.toLex_lt_toLex.mpr (.inl (F64.rank_lt_of_value_lt hlt))
      exact absurd htotal (lt_asymm hless)
    · exact htie
  have hrank : (score f).rank < (score e).rank := by
    rcases Prod.Lex.toLex_lt_toLex.mp htotal with hlt | ⟨_, hindex⟩
    · exact hlt
    · have hindex' : f.index < e.index := hindex
      omega
  exact F64.zeros_of_rank_lt (hfinite f hf) (hfinite e he) hties.1.symm hrank

theorem least_eq_iff (hfinite : AllFinite score cs) {a b : Candidate Id × F64}
    (ha : Least totalKey (rated score cs) a) (hb : Least valueKey (rated score cs) b) :
    a = b ↔ ¬ MixedZeros score cs := by
  constructor
  · intro heq hmixed
    exact hmixed.ne_least ha hb heq
  · intro hmixed
    by_contra hne
    apply hmixed
    obtain ⟨f, hf, rfl⟩ := List.mem_map.mp ha.1
    obtain ⟨e, he, rfl⟩ := List.mem_map.mp hb.1
    obtain ⟨hneg, hzero⟩ := zeros_of_least_ne hfinite hf he hne ha hb
    refine ⟨e, he, hzero, ⟨f, hf, hneg⟩, fun d hd => ?_⟩
    by_cases hde : d = e
    · subst hde
      simp [hzero, F64.value]
    · have hkey := hb.2 _ (List.mem_map_of_mem hd) fun h => hde (congrArg Prod.fst h)
      simp only [valueKey, hzero, F64.value, Prod.Lex.toLex_lt_toLex] at hkey
      rcases hkey with hlt | ⟨heq, hindex⟩
      · refine ⟨le_of_lt hlt, fun hd' => ?_⟩
        rw [hd'] at hlt
        exact absurd hlt (lt_irrefl _)
      · exact ⟨le_of_eq heq, fun _ => hindex⟩

end Scan

/-! ## The choice -/

namespace RouterPolicy

/-- The candidates of the healthy members, in their order. -/
def candidates (p : RouterPolicy Id E) (loads : Nat → MemberState) (healthy : List Nat) :
    List (Candidate Id) :=
  healthy.filterMap (p.candidate loads)

/-- The positions `choose` scans, in the order it scans them. -/
def drawn (p : RouterPolicy Id E) (loads : Nat → MemberState) (healthy : List Nat) (core : Core) :
    List Nat :=
  (positions p.select.sample (p.candidates loads healthy).length core).1

def sampled (p : RouterPolicy Id E) (loads : Nat → MemberState) (healthy : List Nat)
    (core : Core) : List (Candidate Id) :=
  (p.drawn loads healthy core).filterMap fun i => (p.candidates loads healthy)[i]?

def Samples (p : RouterPolicy Id E) (healthy : List Nat) : Prop :=
  ∃ k, p.select.sample = some k ∧ k < healthy.length

/-- `c` comes before `d` by `total_cmp`, and by insertion index where that does not tell. -/
def Precedes (score : Candidate Id → F64) (c d : Candidate Id) : Prop :=
  (score c).totalLt (score d) = true ∨ (score c = score d ∧ c.index < d.index)

/-- Only a score that is not finite is an error. Otherwise one of the sampled candidates
precedes all the others, and it is chosen in whatever order the sample is drawn. -/
structure ChoosesLeast (p : RouterPolicy Id E) (loads : Nat → MemberState) (healthy : List Nat)
    (core : Core) : Prop where
  error_iff : (∃ id value, (p.choose loads healthy core).1 = .error (.score id value)) ↔
    ∃ c ∈ p.sampled loads healthy core, (p.select.score c).isFinite = false
  least : AllFinite p.select.score (p.sampled loads healthy core) →
    ∃ c ∈ p.sampled loads healthy core,
      (∀ d ∈ p.sampled loads healthy core, d ≠ c → Precedes p.select.score c d) ∧
      ∀ core' : Core, (p.drawn loads healthy core').Perm (p.drawn loads healthy core) →
        (p.choose loads healthy core').1 = .ok (some c.index)

variable {p : RouterPolicy Id E} {loads : Nat → MemberState} {healthy : List Nat} {core : Core}

theorem choose_eq_argmin (p : RouterPolicy Id E) (loads : Nat → MemberState) (healthy : List Nat)
    (core : Core) : (p.choose loads healthy core).1 =
      match argmin p.select.score (p.sampled loads healthy core) none with
      | .error e => .error e
      | .ok best => .ok (best.map fun b => b.1.index) := rfl

theorem choose_error_iff : (∃ id value, (p.choose loads healthy core).1 =
    .error (.score id value)) ↔
      ∃ c ∈ p.sampled loads healthy core, (p.select.score c).isFinite = false := by
  rw [← argmin_error_iff (E := E) none, choose_eq_argmin]
  cases argmin p.select.score (p.sampled loads healthy core) none with
  | ok best => simp
  | error e => simp

theorem choose_of_scan (hfinite : AllFinite p.select.score (p.sampled loads healthy core))
    {b : Candidate Id × F64}
    (hscan : scan replaces none (rated p.select.score (p.sampled loads healthy core)) = some b) :
    (p.choose loads healthy core).1 = .ok (some b.1.index) := by
  rw [choose_eq_argmin, argmin_eq_scan hfinite, hscan]
  rfl

/-! ### Candidates and their positions -/

theorem candidates_distinct : DistinctIndices (p.candidates loads healthy) := by
  intro c hc d hd hindex
  obtain ⟨i, _, hi⟩ := List.mem_filterMap.mp hc
  obtain ⟨j, _, hj⟩ := List.mem_filterMap.mp hd
  rw [candidate_index hi, candidate_index hj] at hindex
  subst hindex
  exact Option.some.inj (hi.symm.trans hj)

theorem sampled_subset : p.sampled loads healthy core ⊆ p.candidates loads healthy := by
  intro c hc
  obtain ⟨i, _, hi⟩ := List.mem_filterMap.mp hc
  exact List.mem_of_getElem? hi

theorem sampled_distinct : DistinctIndices (p.sampled loads healthy core) :=
  fun c hc d hd => candidates_distinct c (sampled_subset hc) d (sampled_subset hd)

theorem map_index_candidates (hlt : ∀ ti ∈ healthy, ti < p.targets.length) :
    (p.candidates loads healthy).map Candidate.index = healthy := by
  induction healthy with
  | nil => rfl
  | cons ti rest ih =>
      obtain ⟨c, hc⟩ := Option.isSome_iff_exists.mp
        (candidate_isSome loads (hlt ti List.mem_cons_self))
      have hrest := ih fun tj htj => hlt tj (List.mem_cons_of_mem ti htj)
      unfold candidates at hrest ⊢
      rw [List.filterMap_cons, hc, List.map_cons, hrest, candidate_index hc]

theorem length_candidates (hlt : ∀ ti ∈ healthy, ti < p.targets.length) :
    (p.candidates loads healthy).length = healthy.length := by
  rw [← List.length_map, map_index_candidates hlt]

theorem candidates_sorted (hsorted : healthy.Pairwise (· < ·)) :
    (p.candidates loads healthy).Pairwise fun c d => c.index < d.index := by
  apply List.Pairwise.filterMap (p.candidate loads) _ hsorted
  intro i j hij c hc d hd
  rw [candidate_index hc, candidate_index hd]
  exact hij

theorem sampled_ne_nil (hne : healthy ≠ []) (hlt : ∀ ti ∈ healthy, ti < p.targets.length) :
    p.sampled loads healthy core ≠ [] := by
  have hlength : (p.candidates loads healthy).length = healthy.length := length_candidates hlt
  have hpos : 0 < (p.candidates loads healthy).length := by
    rw [hlength]
    exact List.length_pos_iff.mpr hne
  have hsample : p.select.sample ≠ some 0 := by
    simpa [Pick.sampleIsValid] using p.sample_valid
  obtain ⟨i, hi⟩ := List.exists_mem_of_ne_nil _ (positions_ne_nil core hsample hpos)
  exact List.ne_nil_of_mem
    (List.mem_filterMap.mpr ⟨i, hi, List.getElem?_eq_getElem (positions_lt hi)⟩)

theorem sampled_perm {core' : Core}
    (h : (p.drawn loads healthy core').Perm (p.drawn loads healthy core)) :
    (p.sampled loads healthy core').Perm (p.sampled loads healthy core) := h.filterMap _

theorem sampled_of_all (hlt : ∀ ti ∈ healthy, ti < p.targets.length) (hall : ¬ p.Samples healthy)
    (core : Core) : p.sampled loads healthy core = p.candidates loads healthy := by
  have hrange : p.drawn loads healthy core = List.range (p.candidates loads healthy).length := by
    unfold drawn positions
    split
    next k hk =>
      have hmany : ¬ k < (p.candidates loads healthy).length := by
        rw [length_candidates hlt]
        exact fun hk' => hall ⟨k, hk, hk'⟩
      rw [if_neg hmany]
    next => rfl
  unfold sampled
  rw [hrange]
  exact sampled_all _

/-- Whichever sampled candidate is to be scanned last, the generator can have it so. -/
theorem exists_drawn_last (hlt : ∀ ti ∈ healthy, ti < p.targets.length)
    (hn : healthy.length ≤ 2 ^ 64) (hsamples : p.Samples healthy) {c : Candidate Id}
    (hc : c ∈ p.sampled loads healthy core) :
    ∃ core' rest, (p.drawn loads healthy core').Perm (p.drawn loads healthy core) ∧
      p.sampled loads healthy core' = rest ++ [c] := by
  obtain ⟨i, hi, hci⟩ := List.mem_filterMap.mp hc
  obtain ⟨k, hk, hk'⟩ := hsamples
  have hlength : (p.candidates loads healthy).length = healthy.length := length_candidates hlt
  have hperm : ((p.drawn loads healthy core).erase i ++ [i]).Perm (p.drawn loads healthy core) :=
    List.perm_append_comm.trans (List.perm_cons_erase hi).symm
  have hreorder : ∃ core' : Core, p.drawn loads healthy core' =
      (p.drawn loads healthy core).erase i ++ [i] := by
    unfold drawn at hperm ⊢
    rw [hk] at hperm ⊢
    exact exists_positions_perm (by omega) hperm (by omega)
  obtain ⟨core', hcore'⟩ := hreorder
  refine ⟨core', ((p.drawn loads healthy core).erase i).filterMap fun i =>
    (p.candidates loads healthy)[i]?, hcore' ▸ hperm, ?_⟩
  unfold sampled
  rw [hcore', List.filterMap_append, List.filterMap_cons, hci]
  rfl

/-! ### The least candidate -/

theorem finite_perm {score : Candidate Id → F64} {cs cs' : List (Candidate Id)}
    (hperm : cs'.Perm cs) (hfinite : AllFinite score cs) : AllFinite score cs' :=
  fun c hc => hfinite c (hperm.subset hc)

theorem precedes_of_least {score : Candidate Id → F64} {cs : List (Candidate Id)}
    (hfinite : AllFinite score cs) {c d : Candidate Id} (hc : c ∈ cs) (hd : d ∈ cs)
    (hleast : Least totalKey (rated score cs) (c, score c)) (hne : d ≠ c) :
    Precedes score c d := by
  have hkey := hleast.2 (d, score d) (List.mem_map_of_mem hd) fun h => hne (congrArg Prod.fst h)
  rcases Prod.Lex.toLex_lt_toLex.mp hkey with hrank | ⟨hrank, hindex⟩
  · exact .inl ((F64.totalLt_iff_rank (hfinite c hc) (hfinite d hd)).mpr hrank)
  · exact .inr ⟨F64.rank_inj (hfinite c hc) (hfinite d hd) hrank, hindex⟩

/-- Scanned in insertion order, the least candidate by the total order is found: nobody
who comes later ties with a smaller index. -/
theorem scan_sorted {score : Candidate Id → F64} {cs : List (Candidate Id)}
    (hfinite : AllFinite score cs) (hsorted : cs.Pairwise fun c d => c.index < d.index)
    {b : Candidate Id × F64} (hleast : Least totalKey (rated score cs) b) :
    scan replaces none (rated score cs) = some b := by
  have hbetter := replaces_iff hfinite
  have hsorted' : (rated score cs).Pairwise fun x y => x.1.index < y.1.index :=
    List.pairwise_map.mpr hsorted
  obtain ⟨front, back, hsplit⟩ := List.append_of_mem hleast.1
  rw [hsplit] at hsorted' hbetter hleast ⊢
  have hself : b ∈ front ++ b :: back := hleast.1
  apply scan_middle_eq
  · intro d hd hne
    have hmem : d ∈ front ++ b :: back := List.mem_append_left _ hd
    exact (hbetter b hself d hmem).mpr (.inl (hleast.2 d hmem hne))
  · intro d hd hne
    have hmem : d ∈ front ++ b :: back := List.mem_append_right _ (List.mem_cons_of_mem b hd)
    have hlater : b.1.index < d.1.index :=
      (List.pairwise_cons.mp (List.pairwise_append.mp hsorted').2.1).1 d hd
    rw [Bool.eq_false_iff]
    intro hreplaces
    rcases (hbetter d hmem b hself).mp hreplaces with htotal | hvalue
    · exact lt_asymm htotal (hleast.2 d hmem hne)
    · rcases Prod.Lex.toLex_lt_toLex.mp hvalue with hlt | ⟨_, hindex⟩
      · have htotal : totalKey d < totalKey b :=
          Prod.Lex.toLex_lt_toLex.mpr (.inl (F64.rank_lt_of_value_lt hlt))
        exact lt_asymm htotal (hleast.2 d hmem hne)
      · have hindex' : d.1.index < b.1.index := hindex
        omega

theorem two_choices (hne : healthy ≠ []) (hlt : ∀ ti ∈ healthy, ti < p.targets.length)
    (hn : healthy.length ≤ 2 ^ 64) (hsamples : p.Samples healthy)
    (hfinite : AllFinite p.select.score (p.sampled loads healthy core))
    (hmixed : MixedZeros p.select.score (p.sampled loads healthy core)) :
    ∃ core₁ core₂ : Core, (p.drawn loads healthy core₁).Perm (p.drawn loads healthy core) ∧
      (p.drawn loads healthy core₂).Perm (p.drawn loads healthy core) ∧
      ∃ i j, (p.choose loads healthy core₁).1 = .ok (some i) ∧
        (p.choose loads healthy core₂).1 = .ok (some j) ∧ i ≠ j := by
  have hcs : rated p.select.score (p.sampled loads healthy core) ≠ [] := by
    simpa [rated] using sampled_ne_nil hne hlt
  have hbetter := replaces_iff hfinite
  -- the candidate scanned last is chosen when it is least in either order
  have hlast : ∀ b, Least totalKey (rated p.select.score (p.sampled loads healthy core)) b ∨
      Least valueKey (rated p.select.score (p.sampled loads healthy core)) b →
      ∃ core', (p.drawn loads healthy core').Perm (p.drawn loads healthy core) ∧
        (p.choose loads healthy core').1 = .ok (some b.1.index) := by
    intro b hb
    have hmem : b ∈ rated p.select.score (p.sampled loads healthy core) := by
      rcases hb with h | h
      · exact h.1
      · exact h.1
    obtain ⟨c, hc, rfl⟩ := List.mem_map.mp hmem
    obtain ⟨core', rest, hperm, hrest⟩ := exists_drawn_last hlt hn hsamples hc
    have hsampled := sampled_perm hperm
    refine ⟨core', hperm, choose_of_scan (finite_perm hsampled hfinite) ?_⟩
    have hrated : rated p.select.score (p.sampled loads healthy core') =
        rated p.select.score rest ++ [(c, p.select.score c)] := by
      rw [hrest]
      simp [rated]
    rw [hrated]
    apply scan_least_last hbetter hb
    intro d hd
    have hd' : d ∈ rated p.select.score (p.sampled loads healthy core') := by
      rw [hrated]
      exact List.mem_append_left _ hd
    exact (hsampled.map _).subset hd'
  obtain ⟨a, ha⟩ := exists_least hcs (separates_totalKey sampled_distinct)
  obtain ⟨b, hb⟩ := exists_least hcs (separates_valueKey sampled_distinct)
  obtain ⟨core₁, hperm₁, hchoose₁⟩ := hlast a (.inl ha)
  obtain ⟨core₂, hperm₂, hchoose₂⟩ := hlast b (.inr hb)
  refine ⟨core₁, core₂, hperm₁, hperm₂, _, _, hchoose₁, hchoose₂, fun hindex => ?_⟩
  have hsame : a = b := by
    obtain ⟨c, hc, rfl⟩ := List.mem_map.mp ha.1
    obtain ⟨d, hd, rfl⟩ := List.mem_map.mp hb.1
    rw [sampled_distinct c hc d hd hindex]
  exact (least_eq_iff hfinite ha hb).mp hsame hmixed

end RouterPolicy

/-- For every router, every load and every list of healthy members: an error means a score
that is not finite and one candidate is chosen in whatever order the sample is scanned,
the first of the sample by `total_cmp` and insertion index, exactly unless a sample is
drawn whose least score is zero, with a positive zero inserted before all the negative
ones in it. -/
theorem chooses_least_iff (p : RouterPolicy Id E) (loads : Nat → MemberState)
    (healthy : List Nat) (hne : healthy ≠ []) (hsorted : healthy.Pairwise (· < ·))
    (hlt : ∀ ti ∈ healthy, ti < p.targets.length) (hn : healthy.length ≤ 2 ^ 64) (core : Core) :
    p.ChoosesLeast loads healthy core ↔
      ¬ (p.Samples healthy ∧ AllFinite p.select.score (p.sampled loads healthy core) ∧
        MixedZeros p.select.score (p.sampled loads healthy core)) := by
  constructor
  · rintro h ⟨hsamples, hfinite, hmixed⟩
    obtain ⟨c, _, _, hchoose⟩ := h.least hfinite
    obtain ⟨core₁, core₂, hperm₁, hperm₂, i, j, hi, hj, hij⟩ :=
      RouterPolicy.two_choices hne hlt hn hsamples hfinite hmixed
    rw [hchoose core₁ hperm₁] at hi
    rw [hchoose core₂ hperm₂] at hj
    cases hi
    cases hj
    exact hij rfl
  · intro hcond
    refine ⟨RouterPolicy.choose_error_iff, fun hfinite => ?_⟩
    have hcs : rated p.select.score (p.sampled loads healthy core) ≠ [] := by
      simpa [rated] using RouterPolicy.sampled_ne_nil hne hlt
    obtain ⟨a, ha⟩ := exists_least hcs
      (separates_totalKey RouterPolicy.sampled_distinct)
    obtain ⟨b, hb⟩ := exists_least hcs
      (separates_valueKey RouterPolicy.sampled_distinct)
    obtain ⟨c, hc, rfl⟩ := List.mem_map.mp ha.1
    refine ⟨c, hc, fun d hd hdc => RouterPolicy.precedes_of_least hfinite hc hd ha hdc, ?_⟩
    intro core' hperm
    have hsampled := RouterPolicy.sampled_perm hperm
    have hfinite' := RouterPolicy.finite_perm hsampled hfinite
    have ha' := ha.perm (hsampled.map fun c => (c, p.select.score c))
    refine RouterPolicy.choose_of_scan (b := (c, p.select.score c)) hfinite' ?_
    by_cases hsamples : p.Samples healthy
    · have hclear : ¬ MixedZeros p.select.score (p.sampled loads healthy core) :=
        fun hmixed => hcond ⟨hsamples, hfinite, hmixed⟩
      have hsame := (least_eq_iff hfinite ha hb).mpr hclear
      have hb' := hb.perm (hsampled.map fun c => (c, p.select.score c))
      rw [← hsame] at hb'
      exact scan_eq_of_least (replaces_iff hfinite') ha' hb'
    · apply RouterPolicy.scan_sorted hfinite' _ ha'
      rw [RouterPolicy.sampled_of_all hlt hsamples core']
      exact RouterPolicy.candidates_sorted hsorted

/-! Three members, two of them sampled. -/

theorem zero_one_two_nodup : [0, 1, 2].Nodup := by decide

/-- A score with zeros of both signs: `+0.0`, `-0.0` and `1.0`. -/
def signedScore (c : Candidate Nat) : F64 :=
  match c.index with
  | 0 => .fin 0
  | 1 => .negZero
  | _ => .fin 1

theorem Pick.bySampledScore_meterless (k : Nat) (f : Candidate Nat → F64) (m : Option Meter) :
    (bySampledScore k f).requiresMeter = true → m.isSome = true := by
  intro h
  cases h

def signedTrio : RouterPolicy Nat Nat where
  targets := [⟨0, 0, .one, 0⟩, ⟨1, 1, .one, 1⟩, ⟨2, 2, .one, 2⟩]
  select := .bySampledScore 2 signedScore
  meter := none
  advanceWhen := fun _ => true
  targets_nonempty := List.cons_ne_nil _ _
  ids_nodup := zero_one_two_nodup
  states_nodup := zero_one_two_nodup
  sample_valid := rfl
  meter_present := Pick.bySampledScore_meterless 2 signedScore none

theorem chooses_least_iff_signedTrio :
    signedTrio.ChoosesLeast (fun _ => .new) [0, 1, 2] ⟨0, [], []⟩ ↔
      ¬ (signedTrio.Samples [0, 1, 2] ∧
        AllFinite signedTrio.select.score
          (signedTrio.sampled (fun _ => .new) [0, 1, 2] ⟨0, [], []⟩) ∧
        MixedZeros signedTrio.select.score
          (signedTrio.sampled (fun _ => .new) [0, 1, 2] ⟨0, [], []⟩)) :=
  chooses_least_iff signedTrio (fun _ => .new) [0, 1, 2] (by decide) (by decide) (by decide)
    (by decide) ⟨0, [], []⟩

/-- The sample of the first two members, scanned in its two orders: the second member is
chosen, then the first. -/
theorem two_orders_two_choices :
    signedTrio.drawn (fun _ => .new) [0, 1, 2] ⟨0, [], [0, 0]⟩ = [0, 1] ∧
      signedTrio.drawn (fun _ => .new) [0, 1, 2] ⟨0, [], [1, 0]⟩ = [1, 0] ∧
      (signedTrio.choose (fun _ => .new) [0, 1, 2] ⟨0, [], [0, 0]⟩).1 = .ok (some 1) ∧
      (signedTrio.choose (fun _ => .new) [0, 1, 2] ⟨0, [], [1, 0]⟩).1 = .ok (some 0) ∧
      ¬ signedTrio.ChoosesLeast (fun _ => .new) [0, 1, 2] ⟨0, [], [0, 0]⟩ := by
  have hfirst : (signedTrio.choose (fun _ => .new) [0, 1, 2] ⟨0, [], [0, 0]⟩).1 =
      .ok (some 1) := by decide
  have hsecond : (signedTrio.choose (fun _ => .new) [0, 1, 2] ⟨0, [], [1, 0]⟩).1 =
      .ok (some 0) := by decide
  refine ⟨by decide, by decide, hfirst, hsecond, fun h => ?_⟩
  have hfinite : AllFinite signedTrio.select.score
      (signedTrio.sampled (fun _ => .new) [0, 1, 2] ⟨0, [], [0, 0]⟩) := by
    unfold AllFinite
    decide
  obtain ⟨c, _, _, hchoose⟩ := h.least hfinite
  have hone := hchoose ⟨0, [], [0, 0]⟩ (List.Perm.refl _)
  have hother := hchoose ⟨0, [], [1, 0]⟩ (by decide)
  rw [hfirst] at hone
  rw [hsecond] at hother
  have hsame := hone.trans hother.symm
  cases hsame

end ExecutionPolicy
