import ExecutionPolicy.Foundation.Decay
import ExecutionPolicy.Router.Member

/-! # Peak-EWMA meters

The fold of `Meter::peak_ewma`, with the kind of numbers left open: doubles in a router,
real numbers where its arithmetic is taken to be exact.
-/

namespace ExecutionPolicy

/-! ## The fold -/

/-- The fields of a `PeakEwmaState`, over any numbers. -/
structure Reading (R : Type) where
  valueSecs : R
  lastUpdate : Nat
deriving DecidableEq, Repr

section Weight

variable {R : Type} [Neg R] [Div R] [Max R]

/-- The weight `w` of a reading that is `dt` old, with the lengths of durations given by
`secs`, and `tau` computed from the half-life. -/
def decayWeight (secs : Nat → R) (exp : R → R) (minPositive : R) (halfLife dt : Nat) : R :=
  let tau := max (secs halfLife) minPositive
  exp (-(secs dt / tau))

end Weight

section Fold

variable {R : Type} [Zero R] [One R] [Add R] [Sub R] [Mul R] [Max R]

/-- The closure of `Meter::peak_ewma`. -/
def peakEwmaFold (secs weight : Nat → R) (prev : Option (Reading R)) (s : Sample) : Reading R :=
  if s.ok then
    let observed := secs s.latency
    match prev with
    | none => { valueSecs := observed, lastUpdate := s.at' }
    | some p =>
        let dt := Instant.durationSince s.at' p.lastUpdate
        let w := weight dt
        let ewma := p.valueSecs * w + observed * (1 - w)
        { valueSecs := max ewma observed, lastUpdate := s.at' }
  else
    -- a failure leaves the reading as it is, and seeds one where there is none
    prev.getD { valueSecs := 0, lastUpdate := s.at' }

/-- The cell of a member after some completed calls, as `record_attempt` updates it. -/
def peakEwmaCell (secs weight : Nat → R) (cell : Option (Reading R)) (samples : List Sample) :
    Option (Reading R) :=
  samples.foldl (fun cell s => some (peakEwmaFold secs weight cell s)) cell

/-- What scores are handed of a cell: zero before the first fold. -/
def cellValue (cell : Option (Reading R)) : R := (cell.map fun p => p.valueSecs).getD 0

@[simp] theorem peakEwmaCell_nil (secs weight : Nat → R) (cell : Option (Reading R)) :
    peakEwmaCell secs weight cell [] = cell := rfl

@[simp] theorem peakEwmaCell_cons (secs weight : Nat → R) (cell : Option (Reading R)) (s : Sample)
    (samples : List Sample) : peakEwmaCell secs weight cell (s :: samples) =
      peakEwmaCell secs weight (some (peakEwmaFold secs weight cell s)) samples := rfl

theorem peakEwmaCell_snoc (secs weight : Nat → R) (cell : Option (Reading R)) (s : Sample)
    (samples : List Sample) : peakEwmaCell secs weight cell (samples ++ [s]) =
      some (peakEwmaFold secs weight (peakEwmaCell secs weight cell samples) s) := by
  simp [peakEwmaCell]

theorem peakEwmaFold_failed (secs weight : Nat → R) (prev : Option (Reading R)) {s : Sample}
    (h : s.ok = false) :
    peakEwmaFold secs weight prev s = prev.getD { valueSecs := 0, lastUpdate := s.at' } := by
  simp [peakEwmaFold, h]

end Fold

/-! ## The meter of a router -/

def PeakEwmaState.reading (st : PeakEwmaState) : Reading F64 :=
  { valueSecs := st.valueSecs, lastUpdate := st.lastUpdate }

def Reading.state (r : Reading F64) : Option PeakEwmaState :=
  if h : (Duration.fromSecsF64 r.valueSecs).isSome = true then
    some { valueSecs := r.valueSecs, lastUpdate := r.lastUpdate, readable := h }
  else none

@[simp] theorem PeakEwmaState.state_reading (st : PeakEwmaState) : st.reading.state = some st :=
  dif_pos st.readable

/-- What a failure seeds. -/
def PeakEwmaState.seed (at' : Nat) : PeakEwmaState :=
  { valueSecs := .fin 0, lastUpdate := at', readable := rfl }

/-- `Meter::peak_ewma` on doubles; `exp` is the function of the standard library.

The code also stores a value that is not the length of a duration, and the next `choose`
panics on it: no choice is made from it, and the reading stays as it was here. -/
def Meter.peakEwma (exp : F64 → F64) (halfLife : Nat) : Meter where
  fold prev s :=
    let weight := decayWeight Duration.asSecsF64 exp F64.minPositive halfLife
    let folded := peakEwmaFold Duration.asSecsF64 weight (prev.map PeakEwmaState.reading) s
    folded.state.getD (prev.getD (.seed s.at'))

/-- A failure leaves a reading alone and seeds zero where there is none. -/
theorem Meter.peakEwma_failed (exp : F64 → F64) (halfLife : Nat) (prev : Option PeakEwmaState)
    {s : Sample} (h : s.ok = false) :
    (peakEwma exp halfLife).fold prev s = prev.getD (.seed s.at') := by
  unfold peakEwma
  dsimp only
  rw [peakEwmaFold_failed _ _ _ h]
  cases prev with
  | none =>
      show (PeakEwmaState.seed s.at').reading.state.getD (.seed s.at') = .seed s.at'
      rw [PeakEwmaState.state_reading, Option.getD_some]
  | some st =>
      rw [Option.map_some, Option.getD_some, PeakEwmaState.state_reading, Option.getD_some]
      rfl

/-! ## Exact arithmetic -/

/-- `Duration::as_secs_f64` without rounding. -/
noncomputable def Duration.asSecsReal (d : Nat) : ℝ := d / 10 ^ 9

theorem Duration.asSecsReal_nonneg (d : Nat) : 0 ≤ Duration.asSecsReal d := by
  unfold Duration.asSecsReal
  positivity

section Exact

variable {weight : Nat → ℝ}

theorem peakEwmaFold_ok (p : Reading ℝ) {s : Sample} (h : s.ok = true) :
    peakEwmaFold Duration.asSecsReal weight (some p) s =
      { valueSecs := Decay.peak (weight (Instant.durationSince s.at' p.lastUpdate)) p.valueSecs
          (Duration.asSecsReal s.latency)
        lastUpdate := s.at' } := by
  simp [peakEwmaFold, h, Decay.peak]

theorem peakEwmaFold_first {s : Sample} (h : s.ok = true) :
    peakEwmaFold Duration.asSecsReal weight none s =
      { valueSecs := Duration.asSecsReal s.latency, lastUpdate := s.at' } := by
  simp [peakEwmaFold, h]

/-- Whatever a seeded zero weighs, the first success reads as if there were no seed. -/
theorem peakEwmaFold_seeded (hweight : ∀ d, 0 ≤ weight d) (t : Nat) {s : Sample}
    (h : s.ok = true) :
    peakEwmaFold Duration.asSecsReal weight (some { valueSecs := 0, lastUpdate := t }) s =
      peakEwmaFold Duration.asSecsReal weight none s := by
  have hpeak := Decay.peak_of_le (hweight (Instant.durationSince s.at' t))
    (Duration.asSecsReal_nonneg s.latency)
  rw [peakEwmaFold_first h, peakEwmaFold_ok _ h, hpeak]

/-- The cells with and without the failures: equal, or a seed stands where nothing does. -/
def UpToSeed (cell cell' : Option (Reading ℝ)) : Prop :=
  cell = cell' ∨ (cell' = none ∧ ∃ t, cell = some { valueSecs := 0, lastUpdate := t })

theorem UpToSeed.value {cell cell' : Option (Reading ℝ)} (h : UpToSeed cell cell') :
    cellValue cell = cellValue cell' := by
  rcases h with rfl | ⟨rfl, t, rfl⟩
  · rfl
  · rfl

theorem UpToSeed.failed {cell cell' : Option (Reading ℝ)} (h : UpToSeed cell cell') {s : Sample}
    (hs : s.ok = false) :
    UpToSeed (some (peakEwmaFold Duration.asSecsReal weight cell s)) cell' := by
  rw [peakEwmaFold_failed _ _ _ hs]
  rcases h with rfl | ⟨rfl, t, rfl⟩
  · cases cell with
    | none => exact .inr ⟨rfl, s.at', rfl⟩
    | some p => exact .inl rfl
  · exact .inr ⟨rfl, t, rfl⟩

theorem UpToSeed.ok (hweight : ∀ d, 0 ≤ weight d) {cell cell' : Option (Reading ℝ)}
    (h : UpToSeed cell cell') {s : Sample} (hs : s.ok = true) :
    peakEwmaFold Duration.asSecsReal weight cell s =
      peakEwmaFold Duration.asSecsReal weight cell' s := by
  rcases h with rfl | ⟨rfl, t, rfl⟩
  · rfl
  · exact peakEwmaFold_seeded hweight t hs

theorem upToSeed_fold (hweight : ∀ d, 0 ≤ weight d) (samples : List Sample)
    {cell cell' : Option (Reading ℝ)} (h : UpToSeed cell cell') :
    UpToSeed (peakEwmaCell Duration.asSecsReal weight cell samples)
      (peakEwmaCell Duration.asSecsReal weight cell' (samples.filter Sample.ok)) := by
  induction samples generalizing cell cell' with
  | nil => exact h
  | cons s samples ih =>
      rw [peakEwmaCell_cons]
      by_cases hs : s.ok = true
      · rw [List.filter_cons_of_pos hs, peakEwmaCell_cons]
        exact ih (.inl (congrArg some (h.ok hweight hs)))
      · rw [List.filter_cons_of_neg hs]
        exact ih (h.failed (Bool.not_eq_true _ ▸ hs))

theorem peakEwmaCell_le (hweight : ∀ d, 0 ≤ weight d ∧ weight d ≤ 1) {b : ℝ}
    {samples : List Sample} (hall : ∀ s ∈ samples, s.ok = true)
    (hb : ∀ s ∈ samples, Duration.asSecsReal s.latency ≤ b) {cell : Option (Reading ℝ)}
    (hcell : ∀ p, cell = some p → p.valueSecs ≤ b) {p : Reading ℝ}
    (hp : peakEwmaCell Duration.asSecsReal weight cell samples = some p) : p.valueSecs ≤ b := by
  induction samples generalizing cell with
  | nil => exact hcell p hp
  | cons s samples ih =>
      have hs := hall s List.mem_cons_self
      have hsb := hb s List.mem_cons_self
      apply ih (fun s' hs' => hall s' (List.mem_cons_of_mem s hs'))
        (fun s' hs' => hb s' (List.mem_cons_of_mem s hs')) _ hp
      intro q hq
      rw [← Option.some.inj hq]
      cases cell with
      | none =>
          rw [peakEwmaFold_first hs]
          exact hsb
      | some r =>
          obtain ⟨hlow, hhigh⟩ := hweight (Instant.durationSince s.at' r.lastUpdate)
          rw [peakEwmaFold_ok r hs]
          exact Decay.peak_le hlow hhigh (hcell r rfl) hsb

theorem le_peakEwmaFold (cell : Option (Reading ℝ)) {s : Sample} (hs : s.ok = true) :
    Duration.asSecsReal s.latency ≤
      (peakEwmaFold Duration.asSecsReal weight cell s).valueSecs := by
  cases cell with
  | none => rw [peakEwmaFold_first hs]
  | some p =>
      rw [peakEwmaFold_ok p hs]
      exact Decay.le_peak

end Exact

noncomputable def okLatencies (samples : List Sample) : List ℝ :=
  (samples.filter Sample.ok).map fun s => Duration.asSecsReal s.latency

/-- In exact arithmetic, for any weights in the unit interval and any samples from the empty
state, with failures anywhere and time running backwards at will: the reading is the one of
the successful calls alone, zero without any, and once there is one it lies between the
latest and the largest of their latencies. -/
theorem peak_ewma_ignores_failures (weight : Nat → ℝ)
    (hweight : ∀ d, 0 ≤ weight d ∧ weight d ≤ 1) (samples : List Sample) :
    cellValue (peakEwmaCell Duration.asSecsReal weight none samples) =
        cellValue (peakEwmaCell Duration.asSecsReal weight none (samples.filter Sample.ok)) ∧
      (okLatencies samples = [] →
        cellValue (peakEwmaCell Duration.asSecsReal weight none samples) = 0) ∧
      (∀ latest, (okLatencies samples).getLast? = some latest →
        latest ≤ cellValue (peakEwmaCell Duration.asSecsReal weight none samples)) ∧
      ∀ largest, IsGreatest {l | l ∈ okLatencies samples} largest →
        cellValue (peakEwmaCell Duration.asSecsReal weight none samples) ≤ largest := by
  have hvalue : cellValue (peakEwmaCell Duration.asSecsReal weight none samples) =
      cellValue (peakEwmaCell Duration.asSecsReal weight none (samples.filter Sample.ok)) :=
    (upToSeed_fold (fun d => (hweight d).1) samples (.inl rfl)).value
  have hok : ∀ s ∈ samples.filter Sample.ok, s.ok = true :=
    fun s hs => (List.mem_filter.mp hs).2
  refine ⟨hvalue, fun hnone => ?_, fun latest hlatest => ?_, fun largest hlargest => ?_⟩
  · rw [hvalue, List.map_eq_nil_iff.mp hnone]
    rfl
  · obtain ⟨init, hinit⟩ := List.getLast?_eq_some_iff.mp hlatest
    obtain ⟨earlier, last, hsplit, _, hlast⟩ := List.map_eq_append_iff.mp hinit
    obtain ⟨s, rfl, rfl⟩ := List.map_eq_singleton_iff.mp hlast
    rw [hvalue, hsplit, peakEwmaCell_snoc]
    exact le_peakEwmaFold _ (hok s (by simp [hsplit]))
  · rw [hvalue]
    cases hcell : peakEwmaCell Duration.asSecsReal weight none (samples.filter Sample.ok) with
    | none =>
        obtain ⟨s, _, rfl⟩ := List.mem_map.mp hlargest.1
        exact Duration.asSecsReal_nonneg _
    | some p =>
        apply peakEwmaCell_le hweight hok (fun s hs => hlargest.2 (List.mem_map.mpr ⟨s, hs, rfl⟩))
          (fun p hp => by cases hp) hcell

/-- A rejection after 5 ms before and after a call served in 800 ms. -/
def rejectedTwice : List Sample :=
  [{ latency := 5 * 10 ^ 6, at' := 10 ^ 9, lastUpdate := 10 ^ 9, inFlight := 1, ok := false },
    { latency := 8 * 10 ^ 8, at' := 2 * 10 ^ 9, lastUpdate := 10 ^ 9, inFlight := 1, ok := true },
    { latency := 5 * 10 ^ 6, at' := 3 * 10 ^ 9, lastUpdate := 2 * 10 ^ 9, inFlight := 1,
      ok := false }]

theorem peak_ewma_ignores_failures_rejectedTwice :
    cellValue (peakEwmaCell Duration.asSecsReal (fun _ => 1 / 2) none rejectedTwice) =
      cellValue (peakEwmaCell Duration.asSecsReal (fun _ => 1 / 2) none
        (rejectedTwice.filter Sample.ok)) :=
  (peak_ewma_ignores_failures (fun _ => 1 / 2) (fun _ => by norm_num) rejectedTwice).1

end ExecutionPolicy
