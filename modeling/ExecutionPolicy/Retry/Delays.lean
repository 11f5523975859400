import ExecutionPolicy.Retry.Policy

/-! # How long a retry waits

The backoff against the power of two it stands for, and the band its jitter keeps to.
-/

namespace ExecutionPolicy

/-! ## Doubling -/

namespace Backoff

variable {base max attempt : Nat}

/-- A product out of range is past every cap. -/
theorem min_checkedMul (hmax : max ≤ Duration.max) (factor : Nat) :
    Nat.min ((Duration.checkedMul base factor).getD max) max = Nat.min (base * factor) max := by
  unfold Duration.checkedMul
  by_cases hfits : base * factor ≤ Duration.max
  · rw [if_pos hfits]
    rfl
  · have hpast : max ≤ base * factor := by omega
    rw [if_neg hfits]
    show min max max = min (base * factor) max
    omega

theorem rawDelay_early (hmax : max ≤ Duration.max) (hearly : attempt ≤ 32) :
    (exponential base max).rawDelay attempt = Nat.min (base * 2 ^ (attempt - 1)) max := by
  have hshift : Nat.min (attempt - 1) 63 = attempt - 1 := Nat.min_eq_left (by omega)
  have hfactor : 2 ^ (attempt - 1) ≤ u32Max := by
    have hpow : 2 ^ (attempt - 1) ≤ 2 ^ 31 := Nat.pow_le_pow_right (by omega) (by omega)
    unfold u32Max
    omega
  unfold rawDelay
  simp only [hshift, if_pos hfactor]
  exact min_checkedMul hmax _

theorem rawDelay_late (hmax : max ≤ Duration.max) (hlate : 33 ≤ attempt) :
    (exponential base max).rawDelay attempt = Nat.min (base * u32Max) max := by
  have hshift : 32 ≤ Nat.min (attempt - 1) 63 := by
    show 32 ≤ min (attempt - 1) 63
    omega
  have hfactor : ¬ 2 ^ Nat.min (attempt - 1) 63 ≤ u32Max := by
    have hpow : 2 ^ 32 ≤ 2 ^ Nat.min (attempt - 1) 63 := Nat.pow_le_pow_right (by omega) hshift
    unfold u32Max
    omega
  unfold rawDelay
  simp only [if_neg hfactor]
  exact min_checkedMul hmax _

/-- The frozen factor falls short of the power of two. -/
theorem frozen_lt (hbase : 0 < base) (hlate : 33 ≤ attempt) :
    base * u32Max < base * 2 ^ (attempt - 1) := by
  have hpow : 2 ^ 32 ≤ 2 ^ (attempt - 1) := Nat.pow_le_pow_right (by omega) (by omega)
  have hfactor : u32Max < 2 ^ (attempt - 1) := by
    unfold u32Max
    omega
  exact Nat.mul_lt_mul_of_pos_left hfactor hbase

/-- For every base, cap and attempt: the delay is the base doubled once for each attempt
but the first, up to the cap, exactly when the attempt is one of the first 32, there is
nothing to double, or the cap is within `u32::MAX` times the base. -/
theorem rawDelay_eq_doubled_iff (base max attempt : Nat) (hmax : max ≤ Duration.max) :
    (exponential base max).rawDelay attempt = Nat.min (base * 2 ^ (attempt - 1)) max ↔
      attempt ≤ 32 ∨ base = 0 ∨ max ≤ base * u32Max := by
  rcases Nat.lt_or_ge 32 attempt with hlate | hearly
  · rw [rawDelay_late hmax hlate]
    rcases Nat.eq_zero_or_pos base with hzero | hpos
    · simp [hzero]
    · have hshort := frozen_lt hpos hlate
      have hfrozen : Nat.min (base * u32Max) max = min (base * u32Max) max := rfl
      have hdoubled : Nat.min (base * 2 ^ (attempt - 1)) max =
          min (base * 2 ^ (attempt - 1)) max := rfl
      rw [hfrozen, hdoubled]
      omega
  · exact iff_of_true (rawDelay_early hmax hearly) (.inl hearly)

theorem rawDelay_eq_doubled_iff_capped :
    ((exponential 50 400).rawDelay 40 = Nat.min (50 * 2 ^ (40 - 1)) 400 ↔
      40 ≤ 32 ∨ 50 = 0 ∨ 400 ≤ 50 * u32Max) :=
  rawDelay_eq_doubled_iff 50 400 40 (by decide)

/-- From 1 ns towards 10 s: the doubling stops at 4.294967295 s. -/
theorem doubling_stops : (exponential 1 (10 ^ 10)).rawDelay 34 = 4294967295 ∧
    (exponential 1 (10 ^ 10)).rawDelay 34 ≠ Nat.min (1 * 2 ^ (34 - 1)) (10 ^ 10) := by decide

end Backoff

/-! ## The band of the jitter -/

namespace Jitter

variable {base span : Nat} {rng rng' : UInt64}

theorem draw_lt (rng : UInt64) : rng.toNat / 2 ^ 11 < 2 ^ 53 := by
  have hrange : rng.toNat < 2 ^ 64 := rng.toNat_lt
  omega

theorem frac_le (rng : UInt64) (span : Nat) : frac rng span ≤ span := by
  unfold frac
  split
  · exact Nat.zero_le span
  · have hscaled : rng.toNat / 2 ^ 11 * span ≤ 2 ^ 53 * span :=
      Nat.mul_le_mul_right span (Nat.le_of_lt (draw_lt rng))
    exact Nat.div_le_of_le_mul hscaled

theorem frac_lt (rng : UInt64) (hspan : 0 < span) : frac rng span < span := by
  have hscaled : rng.toNat / 2 ^ 11 * span < 2 ^ 53 * span :=
    Nat.mul_lt_mul_of_pos_right (draw_lt rng) hspan
  unfold frac
  rw [if_neg (by omega)]
  exact Nat.div_lt_of_lt_mul hscaled

theorem frac_mono (h : rng ≤ rng') (span : Nat) : frac rng span ≤ frac rng' span := by
  have hdraw : rng.toNat / 2 ^ 11 ≤ rng'.toNat / 2 ^ 11 :=
    Nat.div_le_div_right (UInt64.le_iff_toNat_le.mp h)
  unfold frac
  split
  · exact Nat.le_refl 0
  · exact Nat.div_le_div_right (Nat.mul_le_mul_right span hdraw)

theorem exists_scaled {span steps v : Nat} (hspan : span ≤ steps) (hv : v < span) :
    ∃ r, r < steps ∧ r * span / steps = v := by
  -- the first multiple of the span that is not below `v * steps`
  have hup := Nat.div_add_mod (v * steps + span - 1) span
  have hrem := Nat.mod_lt (v * steps + span - 1) (show span > 0 by omega)
  have hcomm := Nat.mul_comm span ((v * steps + span - 1) / span)
  have hroom : v * steps + steps ≤ span * steps := by
    have hmul : (v + 1) * steps ≤ span * steps := Nat.mul_le_mul_right steps hv
    have hsplit : (v + 1) * steps = v * steps + steps := Nat.succ_mul v steps
    omega
  refine ⟨(v * steps + span - 1) / span, ?_, ?_⟩
  · rw [Nat.div_lt_iff_lt_mul (by omega), Nat.mul_comm steps span]
    omega
  · apply Nat.div_eq_of_lt_le
    · omega
    · have hsplit : (v + 1) * steps = v * steps + steps := Nat.succ_mul v steps
      omega

theorem frac_surjective (hspan : span ≤ 2 ^ 53) {v : Nat} (hv : v < span) :
    ∃ rng, frac rng span = v := by
  obtain ⟨r, hr, hscaled⟩ := exists_scaled hspan hv
  have hrange : r * 2 ^ 11 < 2 ^ 64 := by omega
  refine ⟨UInt64.ofNat (r * 2 ^ 11), ?_⟩
  unfold frac
  rw [if_neg (by omega), UInt64.toNat_ofNat_of_lt' hrange, Nat.mul_div_cancel r (by omega)]
  exact hscaled

theorem apply_of_pos (j : Jitter) (hbase : 0 < base) (rng : UInt64) :
    j.apply base rng =
      match j with
      | .none => base
      | .full => frac rng (base % 2 ^ 64)
      | .equal => base % 2 ^ 64 / 2 + frac rng (base % 2 ^ 64 / 2) := by
  have hne : base ≠ 0 := by omega
  unfold apply
  exact if_neg hne

theorem full_lt (rng : UInt64) (hbase : 0 < base) : full.apply base rng < base := by
  rw [apply_of_pos full hbase]
  show frac rng (base % 2 ^ 64) < base
  rcases Nat.eq_zero_or_pos (base % 2 ^ 64) with hzero | hpos
  · rw [hzero]
    exact hbase
  · have hfrac := frac_lt rng hpos
    have hlow := Nat.mod_le base (2 ^ 64)
    omega

theorem full_mono (base : Nat) (h : rng ≤ rng') : full.apply base rng ≤ full.apply base rng' := by
  rcases Nat.eq_zero_or_pos base with rfl | hbase
  · exact Nat.le_refl 0
  · rw [apply_of_pos full hbase, apply_of_pos full hbase]
    exact frac_mono h _

theorem equal_le (base : Nat) (rng : UInt64) : equal.apply base rng ≤ base := by
  rcases Nat.eq_zero_or_pos base with rfl | hbase
  · exact Nat.le_refl 0
  · rw [apply_of_pos equal hbase]
    show base % 2 ^ 64 / 2 + frac rng (base % 2 ^ 64 / 2) ≤ base
    have hfrac := frac_le rng (base % 2 ^ 64 / 2)
    have hlow := Nat.mod_le base (2 ^ 64)
    omega

/-- The lower half is kept as long as the nanoseconds fit into a `u64`. -/
theorem half_le_equal_iff (base : Nat) (rng : UInt64) :
    base / 2 ≤ equal.apply base rng ↔ base < 2 ^ 64 := by
  rcases Nat.eq_zero_or_pos base with rfl | hbase
  · exact iff_of_true (Nat.zero_le _) (by omega)
  · rw [apply_of_pos equal hbase]
    show base / 2 ≤ base % 2 ^ 64 / 2 + frac rng (base % 2 ^ 64 / 2) ↔ base < 2 ^ 64
    constructor
    · intro hhalf
      have hfrac := frac_le rng (base % 2 ^ 64 / 2)
      have hmod := Nat.mod_lt base (show 2 ^ 64 > 0 by omega)
      rcases Nat.eq_zero_or_pos (base % 2 ^ 64 / 2) with hzero | hpos
      · omega
      · have hstrict := frac_lt rng hpos
        omega
    · intro hfits
      rw [Nat.mod_eq_of_lt hfits]
      exact Nat.le_add_right _ _

/-- What the two jitters promise of a base. -/
structure InBand (base : Nat) : Prop where
  full_le : ∀ rng, full.apply base rng ≤ base
  full_lt : 0 < base → ∀ rng, full.apply base rng < base
  equal_upper_half : ∀ rng, base / 2 ≤ equal.apply base rng ∧ equal.apply base rng ≤ base
  full_mono : ∀ rng rng', rng ≤ rng' → full.apply base rng ≤ full.apply base rng'
  full_surjective : base < 2 ^ 53 → ∀ v < base, ∃ rng, full.apply base rng = v

/-- For every base: both jitters keep to their bands, and full jitter is monotone and
misses no value, exactly when the base has fewer than 2^64 nanoseconds. -/
theorem inBand_iff (base : Nat) : InBand base ↔ base < 2 ^ 64 := by
  constructor
  · intro h
    exact (half_le_equal_iff base 0).mp (h.equal_upper_half 0).1
  · intro hfits
    constructor
    case full_le =>
      intro rng
      rcases Nat.eq_zero_or_pos base with rfl | hbase
      · exact Nat.le_refl 0
      · exact Nat.le_of_lt (Jitter.full_lt rng hbase)
    case full_lt => exact fun hbase rng => Jitter.full_lt rng hbase
    case equal_upper_half =>
      exact fun rng => ⟨(half_le_equal_iff base rng).mpr hfits, equal_le base rng⟩
    case full_mono => exact fun _ _ h => Jitter.full_mono base h
    case full_surjective =>
      intro hsmall v hv
      obtain ⟨rng, hrng⟩ := frac_surjective (Nat.le_of_lt hsmall) hv
      refine ⟨rng, ?_⟩
      rw [apply_of_pos full (by omega)]
      show frac rng (base % 2 ^ 64) = v
      rw [Nat.mod_eq_of_lt hfits]
      exact hrng

/-- 2^64 ns, some 585 years: equal jitter comes out as nothing. -/
theorem equal_collapses :
    2 ^ 64 ≤ Duration.max ∧ equal.apply (2 ^ 64) 0 = 0 ∧ ¬ InBand (2 ^ 64) := by
  refine ⟨by decide, by decide, fun h => ?_⟩
  have hhalf := (h.equal_upper_half 0).1
  revert hhalf
  decide

end Jitter

end ExecutionPolicy
