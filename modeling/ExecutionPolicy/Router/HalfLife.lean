import ExecutionPolicy.Router.Meter

/-! # The half-life of a reading

Successes of one latency below the reading let it decay towards them. In exact arithmetic
only the total time matters, and `half_life` is what it takes to come down to one part in
`e`, not to one half.
-/

namespace ExecutionPolicy

/-- The weight of `Meter::peak_ewma`, with `exp` and division exact. -/
noncomputable def exactWeight (halfLife : Nat) : Nat → ℝ :=
  decayWeight Duration.asSecsReal Real.exp (1 / 2 ^ 1022) halfLife

/-- Successes of latency `x` at times that do not decrease, none before `t`. -/
structure Steady (x : ℝ) (t : Nat) (samples : List Sample) : Prop where
  ok : ∀ s ∈ samples, s.ok = true
  latency : ∀ s ∈ samples, Duration.asSecsReal s.latency = x
  ordered : (t :: samples.map Sample.at').Pairwise (· ≤ ·)

def lastUpdateOf (t : Nat) (samples : List Sample) : Nat := (samples.map Sample.at').getLastD t

variable {halfLife t : Nat} {v x : ℝ} {samples : List Sample}

theorem Duration.asSecsReal_add (d d' : Nat) :
    Duration.asSecsReal (d + d') = Duration.asSecsReal d + Duration.asSecsReal d' := by
  unfold Duration.asSecsReal
  rw [Nat.cast_add, add_div]

theorem Duration.asSecsReal_pos {d : Nat} (h : 0 < d) : 0 < Duration.asSecsReal d := by
  unfold Duration.asSecsReal
  positivity

/-- A nanosecond is far above `MIN_POSITIVE`. -/
theorem exactWeight_eq (hpos : 0 < halfLife) (dt : Nat) : exactWeight halfLife dt =
    Real.exp (-(Duration.asSecsReal dt / Duration.asSecsReal halfLife)) := by
  have htau : (1 : ℝ) / 2 ^ 1022 ≤ Duration.asSecsReal halfLife := by
    have hone : (1 : ℝ) ≤ halfLife := by exact_mod_cast hpos
    have hpow : (10 : ℝ) ^ 9 ≤ 2 ^ 1022 :=
      calc (10 : ℝ) ^ 9 ≤ 2 ^ 30 := by norm_num
        _ ≤ 2 ^ 1022 := pow_le_pow_right₀ one_le_two (by norm_num)
    unfold Duration.asSecsReal
    gcongr
  unfold exactWeight decayWeight
  dsimp only
  rw [max_eq_left htau]

theorem Steady.tail {s : Sample} (h : Steady x t (s :: samples)) : Steady x s.at' samples where
  ok := fun s' hs' => h.ok s' (List.mem_cons_of_mem s hs')
  latency := fun s' hs' => h.latency s' (List.mem_cons_of_mem s hs')
  ordered := (List.pairwise_cons.mp h.ordered).2

theorem Steady.le_lastUpdateOf (h : Steady x t samples) : t ≤ lastUpdateOf t samples := by
  unfold lastUpdateOf
  cases hlast : (samples.map Sample.at').getLast? with
  | none => simp [List.getLastD_eq_getLast?, hlast]
  | some last =>
      have hmem := List.mem_of_getLast? hlast
      have hle := (List.pairwise_cons.mp h.ordered).1 last hmem
      simpa [List.getLastD_eq_getLast?, hlast] using hle

theorem lastUpdateOf_cons (t : Nat) (s : Sample) (samples : List Sample) :
    lastUpdateOf t (s :: samples) = lastUpdateOf s.at' samples := by
  unfold lastUpdateOf
  rw [List.map_cons, List.getLastD_cons]

/-- However the time is divided, what a reading is above the latency decays with all of it. -/
theorem steady_value (hpos : 0 < halfLife) (hvx : x ≤ v) (h : Steady x t samples) :
    cellValue (peakEwmaCell Duration.asSecsReal (exactWeight halfLife)
        (some { valueSecs := v, lastUpdate := t }) samples) =
      x + (v - x) * Real.exp (-(Duration.asSecsReal (lastUpdateOf t samples - t) /
        Duration.asSecsReal halfLife)) := by
  induction samples generalizing t v with
  | nil => simp [cellValue, lastUpdateOf, Duration.asSecsReal]
  | cons s samples ih =>
      have hok := h.ok s List.mem_cons_self
      have hlatency := h.latency s List.mem_cons_self
      have hlast := h.tail.le_lastUpdateOf
      have hfirst : t ≤ s.at' := (List.pairwise_cons.mp h.ordered).1 _ List.mem_cons_self
      have hweight := exactWeight_eq hpos (s.at' - t)
      have hkept := Real.exp_pos (-(Duration.asSecsReal (s.at' - t) /
        Duration.asSecsReal halfLife))
      -- the first sample takes the reading part of the way, and it is still above `x`
      have hstep : peakEwmaFold Duration.asSecsReal (exactWeight halfLife)
          (some { valueSecs := v, lastUpdate := t }) s =
            { valueSecs := x + (v - x) * exactWeight halfLife (s.at' - t)
              lastUpdate := s.at' } := by
        rw [peakEwmaFold_ok _ hok, hlatency]
        congr 1
        exact Decay.peak_of_ge (hweight ▸ hkept.le) hvx
      have habove : x ≤ x + (v - x) * exactWeight halfLife (s.at' - t) := by
        rw [hweight]
        exact le_add_of_nonneg_right (mul_nonneg (sub_nonneg.mpr hvx) hkept.le)
      have htimes : lastUpdateOf s.at' samples - t =
          (s.at' - t) + (lastUpdateOf s.at' samples - s.at') := by omega
      rw [peakEwmaCell_cons, hstep, ih habove h.tail, hweight, add_sub_cancel_left, mul_assoc,
        Decay.exp_neg_split, ← Duration.asSecsReal_add, lastUpdateOf_cons, htimes]

/-- For every half-life, every reading `v` and every list of successes of one latency `x`, at
most `v`, at times that do not decrease: after `n` half-lives in all the reading is
`x + (v - x) / 2 ^ n` exactly when it was at `x` already or no time has passed. -/
theorem half_life_iff (halfLife : Nat) (hpos : 0 < halfLife) (v x n : ℝ) (hvx : x ≤ v) (t : Nat)
    (samples : List Sample) (hsteady : Steady x t samples)
    (helapsed : Duration.asSecsReal (lastUpdateOf t samples - t) =
      n * Duration.asSecsReal halfLife) :
    cellValue (peakEwmaCell Duration.asSecsReal (exactWeight halfLife)
        (some { valueSecs := v, lastUpdate := t }) samples) = x + (v - x) / 2 ^ n ↔
      v = x ∨ n = 0 := by
  have hlength := Duration.asSecsReal_pos hpos
  rw [steady_value hpos hvx hsteady, helapsed, mul_div_cancel_right₀ _ hlength.ne',
    add_right_inj, div_eq_mul_one_div, mul_eq_mul_left_iff, Decay.exp_neg_eq_half_iff, sub_eq_zero,
    or_comm]

/-- A success in no time, one second after the last update. -/
def aSecondLater : Sample :=
  { latency := 0, at' := 10 ^ 9, lastUpdate := 0, inFlight := 1, ok := true }

theorem steady_aSecondLater : Steady 0 0 [aSecondLater] where
  ok := by simp [aSecondLater]
  latency := by simp [aSecondLater, Duration.asSecsReal]
  ordered := by simp [aSecondLater]

theorem half_life_iff_aSecondLater :
    cellValue (peakEwmaCell Duration.asSecsReal (exactWeight (10 ^ 9))
        (some { valueSecs := 1, lastUpdate := 0 }) [aSecondLater]) = 0 + (1 - 0) / 2 ^ (1 : ℝ) ↔
      (1 : ℝ) = 0 ∨ (1 : ℝ) = 0 :=
  half_life_iff (10 ^ 9) (by norm_num) 1 0 1 zero_le_one 0 [aSecondLater] steady_aSecondLater
    (one_mul _).symm

/-- One half-life after it was updated, a reading of one second is not down to half a second. -/
theorem half_life_is_not_halved :
    cellValue (peakEwmaCell Duration.asSecsReal (exactWeight (10 ^ 9))
      (some { valueSecs := 1, lastUpdate := 0 }) [aSecondLater]) ≠
        0 + (1 - 0) / 2 ^ (1 : ℝ) := by
  intro hhalf
  have hpos : 0 < 10 ^ 9 := by norm_num
  have hvalue := steady_value hpos zero_le_one steady_aSecondLater
  have helapsed : Duration.asSecsReal (lastUpdateOf 0 [aSecondLater] - 0) /
      Duration.asSecsReal (10 ^ 9) = 1 := div_self (Duration.asSecsReal_pos hpos).ne'
  rw [hhalf, helapsed, add_right_inj, sub_zero, one_mul] at hvalue
  exact one_ne_zero ((Decay.exp_neg_eq_half_iff 1).mp hvalue.symm)

end ExecutionPolicy
