import Mathlib

/-! # Binary64 values as rationals

A finite binary64 number is a rational, except that zero has two signs. Results
are rounded to 53 significant bits, ties to even. The exponent range is bounded
above (overflow gives an infinity) and unbounded below: subnormal rounding is
not represented.
-/

/-- A binary64 value; `fin 0` is positive zero and `negZero` negative zero. -/
inductive F64 where
  | nan
  | inf (negative : Bool)
  | negZero
  | fin (q : ℚ)
deriving DecidableEq, Repr

namespace F64

/-! ## Rounding -/

/-- The integer nearest to `num / den`, ties to even. -/
def roundDiv (num den : Nat) : Nat :=
  if den < 2 * (num % den) ∨ (den = 2 * (num % den) ∧ num / den % 2 = 1) then
    num / den + 1
  else
    num / den

theorem roundDiv_one (n : Nat) : roundDiv n 1 = n := by
  simp [roundDiv, Nat.mod_one]

theorem div_le_roundDiv (num den : Nat) : num / den ≤ roundDiv num den := by
  unfold roundDiv
  split <;> omega

theorem roundDiv_le_div_succ (num den : Nat) : roundDiv num den ≤ num / den + 1 := by
  unfold roundDiv
  split <;> omega

theorem le_roundDiv {num den n : Nat} (hden : 0 < den) (h : n * den ≤ num) :
    n ≤ roundDiv num den :=
  Nat.le_trans ((Nat.le_div_iff_mul_le hden).mpr h) (div_le_roundDiv num den)

theorem roundDiv_mono {num num' : Nat} (den : Nat) (h : num ≤ num') :
    roundDiv num den ≤ roundDiv num' den := by
  rcases Nat.lt_or_ge (num / den) (num' / den) with hlt | hge
  · have hup := roundDiv_le_div_succ num den
    have hlow := div_le_roundDiv num' den
    omega
  · have hquot : num / den = num' / den :=
      Nat.le_antisymm (Nat.div_le_div_right h) hge
    have hrem : num % den ≤ num' % den := by
      have h₁ := Nat.div_add_mod num den
      have h₂ := Nat.div_add_mod num' den
      rw [hquot] at h₁
      omega
    unfold roundDiv
    rw [hquot]
    split <;> split <;> omega

theorem roundDiv_le_roundDiv {n d n' d' : Nat} (hd : 0 < d) (hd' : 0 < d')
    (h : n * d' ≤ n' * d) : roundDiv n d ≤ roundDiv n' d' := by
  have hquot : n / d ≤ n' / d' := by
    rw [Nat.le_div_iff_mul_le hd', ← Nat.mul_le_mul_right_iff hd]
    calc n / d * d' * d = n / d * d * d' := by ring
      _ ≤ n * d' := Nat.mul_le_mul_right d' (Nat.div_mul_le_self n d)
      _ ≤ n' * d := h
  rcases Nat.lt_or_ge (n / d) (n' / d') with hlt | hge
  · have hup := roundDiv_le_div_succ n d
    have hlow := div_le_roundDiv n' d'
    omega
  · have heq : n / d = n' / d' := Nat.le_antisymm hquot hge
    -- the remainders are ordered as the fractions are
    have hrem : n % d * d' ≤ n' % d' * d := by
      have hn := congrArg (· * d') (Nat.div_add_mod n d)
      have hn' := congrArg (· * d) (Nat.div_add_mod n' d')
      simp only [Nat.add_mul] at hn hn'
      rw [heq] at hn
      have hswap : d * (n' / d') * d' = d' * (n' / d') * d := by ring
      omega
    unfold roundDiv
    rw [heq]
    split
    next hup =>
      split
      next => exact Nat.le_refl _
      next hstay =>
        exfalso
        simp only [not_or, not_and, not_lt] at hstay
        obtain ⟨hstay, htie'⟩ := hstay
        rcases hup with hmore | ⟨htie, hodd⟩
        · have hless : d * d' < d * d' :=
            calc d * d' < 2 * (n % d) * d' := Nat.mul_lt_mul_of_pos_right hmore hd'
              _ = 2 * (n % d * d') := by ring
              _ ≤ 2 * (n' % d' * d) := Nat.mul_le_mul_left 2 hrem
              _ = 2 * (n' % d') * d := by ring
              _ ≤ d' * d := Nat.mul_le_mul_right d hstay
              _ = d * d' := Nat.mul_comm d' d
          exact Nat.lt_irrefl _ hless
        · have hhalf : 0 < n % d := by omega
          have hge' : d' * (n % d) ≤ 2 * (n' % d') * (n % d) :=
            calc d' * (n % d) = n % d * d' := Nat.mul_comm d' (n % d)
              _ ≤ n' % d' * d := hrem
              _ = 2 * (n' % d') * (n % d) := by
                nth_rewrite 1 [htie]
                ring
          have hle' := Nat.le_of_mul_le_mul_right hge' hhalf
          exact htie' (Nat.le_antisymm hle' hstay) hodd
    next => split <;> omega

theorem roundDiv_mono_div {n d n' d' : Nat} (hd : 0 < d) (hd' : 0 < d')
    (h : (n : ℚ) / d ≤ n' / d') : roundDiv n d ≤ roundDiv n' d' := by
  rw [div_le_div_iff₀ (by exact_mod_cast hd) (by exact_mod_cast hd')] at h
  exact roundDiv_le_roundDiv hd hd' (by exact_mod_cast h)

/-- How many low bits of `n` do not fit into 53 significant bits. -/
def excess (n : Nat) : Nat := Nat.log 2 n + 1 - 53

/-- `n as f64` on the naturals: 53 significant bits, ties to even. -/
def roundNat (n : Nat) : Nat := roundDiv n (2 ^ excess n) * 2 ^ excess n

theorem roundNat_of_lt {n : Nat} (h : n < 2 ^ 53) : roundNat n = n := by
  have hexcess : excess n = 0 := by
    unfold excess
    rcases Nat.eq_zero_or_pos n with rfl | hpos
    · simp
    · have hlog : Nat.log 2 n < 53 := Nat.log_lt_of_lt_pow (by omega) h
      omega
  simp [roundNat, hexcess, roundDiv_one]

theorem roundNat_le_pow {n e : Nat} (h : n < 2 ^ (53 + e)) : roundNat n ≤ 2 ^ (53 + e) := by
  have hbound : excess n ≤ e := by
    unfold excess
    rcases Nat.eq_zero_or_pos n with rfl | hpos
    · simp
    · have hlog : Nat.log 2 n < 53 + e := Nat.log_lt_of_lt_pow (by omega) h
      omega
  have hsplit : 2 ^ (53 + e) = 2 ^ (53 + e - excess n) * 2 ^ excess n := by
    rw [← Nat.pow_add]
    congr 1
    omega
  have hquot : n / 2 ^ excess n < 2 ^ (53 + e - excess n) := by
    rw [Nat.div_lt_iff_lt_mul (by positivity), ← hsplit]
    exact h
  have hround : roundDiv n (2 ^ excess n) ≤ 2 ^ (53 + e - excess n) :=
    Nat.le_trans (roundDiv_le_div_succ _ _) hquot
  rw [hsplit]
  exact Nat.mul_le_mul_right _ hround

theorem pow_le_roundNat {n e : Nat} (h : 2 ^ (53 + e) ≤ n) : 2 ^ (53 + e) ≤ roundNat n := by
  have hpos : n ≠ 0 := by
    have : 0 < 2 ^ (53 + e) := by positivity
    omega
  have hlog : 53 + e ≤ Nat.log 2 n := (Nat.le_log_iff_pow_le (by omega) hpos).mpr h
  have hle : excess n ≤ Nat.log 2 n := by unfold excess; omega
  have hsplit : 2 ^ Nat.log 2 n = 2 ^ (Nat.log 2 n - excess n) * 2 ^ excess n := by
    rw [← Nat.pow_add]
    congr 1
    omega
  have hquot : 2 ^ (Nat.log 2 n - excess n) ≤ n / 2 ^ excess n := by
    rw [Nat.le_div_iff_mul_le (by positivity), ← hsplit]
    exact Nat.pow_log_le_self 2 hpos
  calc
    2 ^ (53 + e) ≤ 2 ^ Nat.log 2 n := Nat.pow_le_pow_right (by omega) hlog
    _ = 2 ^ (Nat.log 2 n - excess n) * 2 ^ excess n := hsplit
    _ ≤ roundDiv n (2 ^ excess n) * 2 ^ excess n :=
        Nat.mul_le_mul_right _ (Nat.le_trans hquot (div_le_roundDiv _ _))
    _ = roundNat n := rfl

theorem excess_mono {n n' : Nat} (h : n ≤ n') : excess n ≤ excess n' := by
  have hlog : Nat.log 2 n ≤ Nat.log 2 n' := Nat.log_mono_right h
  unfold excess
  omega

/-- The conversion to binary64 never reverses an order. -/
theorem roundNat_mono {n n' : Nat} (h : n ≤ n') : roundNat n ≤ roundNat n' := by
  rcases Nat.lt_or_ge (excess n) (excess n') with hlt | hge
  · -- different binades: a power of two separates the two results
    have hbig : 2 ^ (53 + (excess n' - 1)) ≤ n' := by
      have hpos : n' ≠ 0 := by
        rintro rfl
        simp [excess] at hlt
      rw [← Nat.le_log_iff_pow_le (by omega) hpos]
      unfold excess at hlt ⊢
      omega
    have hsmall : n < 2 ^ (53 + (excess n' - 1)) := by
      apply Nat.lt_pow_of_log_lt (by omega)
      unfold excess at hlt ⊢
      omega
    exact Nat.le_trans (roundNat_le_pow hsmall) (pow_le_roundNat hbig)
  · have heq : excess n = excess n' := Nat.le_antisymm (excess_mono h) hge
    unfold roundNat
    rw [heq]
    exact Nat.mul_le_mul_right _ (roundDiv_mono _ h)

/-- The exponent of the last kept bit of a positive rational. -/
def lastBit (q : ℚ) : Int :=
  let e : Int := (Nat.log 2 q.num.natAbs : Int) - (Nat.log 2 q.den : Int)
  if q < 2 ^ e then e - 53 else e - 52

/-- Round a non-negative rational to 53 significant bits, ties to even. -/
def roundRat (q : ℚ) : ℚ :=
  let e := lastBit q
  (roundDiv (q.num.natAbs * 2 ^ (-e).toNat) (q.den * 2 ^ e.toNat) : ℚ) * 2 ^ e

theorem roundRat_nonneg (q : ℚ) : 0 ≤ roundRat q := by
  unfold roundRat
  positivity

theorem natAbs_div_den {q : ℚ} (hq : 0 < q) : (q.num.natAbs : ℚ) / q.den = q := by
  rw [Nat.cast_natAbs, abs_of_pos (Rat.num_pos.mpr hq)]
  exact Rat.num_div_den q

/-- The leading bits of numerator and denominator place a positive rational in a binade. -/
theorem log_bounds {q : ℚ} (hq : 0 < q) :
    (2 : ℚ) ^ ((Nat.log 2 q.num.natAbs : Int) - (Nat.log 2 q.den : Int) - 1) ≤ q ∧
      q < 2 ^ ((Nat.log 2 q.num.natAbs : Int) - (Nat.log 2 q.den : Int) + 1) := by
  have hnum : q.num.natAbs ≠ 0 := by simpa using hq.ne'
  have hden : q.den ≠ 0 := q.den_ne_zero
  have hnumlow : (2 : ℚ) ^ Nat.log 2 q.num.natAbs ≤ q.num.natAbs := by
    exact_mod_cast Nat.pow_log_le_self 2 hnum
  have hnumhigh : (q.num.natAbs : ℚ) < 2 ^ (Nat.log 2 q.num.natAbs + 1) := by
    exact_mod_cast Nat.lt_pow_succ_log_self (by omega : 1 < 2) q.num.natAbs
  have hdenlow : (2 : ℚ) ^ Nat.log 2 q.den ≤ q.den := by
    exact_mod_cast Nat.pow_log_le_self 2 hden
  have hdenhigh : (q.den : ℚ) < 2 ^ (Nat.log 2 q.den + 1) := by
    exact_mod_cast Nat.lt_pow_succ_log_self (by omega : 1 < 2) q.den
  have hpos : (0 : ℚ) < q.den := by exact_mod_cast q.den_pos
  have hlow : (2 : ℚ) ^ ((Nat.log 2 q.num.natAbs : Int) - (Nat.log 2 q.den : Int) - 1) =
      2 ^ Nat.log 2 q.num.natAbs / 2 ^ (Nat.log 2 q.den + 1) := by
    rw [← zpow_natCast, ← zpow_natCast, ← zpow_sub₀ (by norm_num)]
    congr 1
    push_cast
    ring
  have hhigh : (2 : ℚ) ^ ((Nat.log 2 q.num.natAbs : Int) - (Nat.log 2 q.den : Int) + 1) =
      2 ^ (Nat.log 2 q.num.natAbs + 1) / 2 ^ Nat.log 2 q.den := by
    rw [← zpow_natCast, ← zpow_natCast, ← zpow_sub₀ (by norm_num)]
    congr 1
    push_cast
    ring
  rw [hlow, hhigh]
  constructor
  · calc (2 : ℚ) ^ Nat.log 2 q.num.natAbs / 2 ^ (Nat.log 2 q.den + 1)
        ≤ q.num.natAbs / q.den := by gcongr
      _ = q := natAbs_div_den hq
  · calc q = q.num.natAbs / q.den := (natAbs_div_den hq).symm
      _ < 2 ^ (Nat.log 2 q.num.natAbs + 1) / 2 ^ Nat.log 2 q.den := by gcongr

theorem lastBit_bounds {q : ℚ} (hq : 0 < q) :
    (2 : ℚ) ^ (lastBit q + 52) ≤ q ∧ q < 2 ^ (lastBit q + 53) := by
  have hlog := log_bounds hq
  unfold lastBit
  dsimp only
  generalize (Nat.log 2 q.num.natAbs : Int) - (Nat.log 2 q.den : Int) = e at hlog ⊢
  by_cases hsmall : q < 2 ^ e
  · have hexp : e - 53 + 52 = e - 1 := by ring
    rw [if_pos hsmall, hexp, sub_add_cancel]
    exact ⟨hlog.1, hsmall⟩
  · have hexp : e - 52 + 53 = e + 1 := by ring
    rw [if_neg hsmall, hexp, sub_add_cancel]
    exact ⟨not_lt.mp hsmall, hlog.2⟩

theorem pow_lastBit_le {q : ℚ} (hq : 0 < q) : (2 : ℚ) ^ lastBit q ≤ q :=
  (zpow_le_zpow_right₀ one_le_two (by omega)).trans (lastBit_bounds hq).1

theorem lastBit_mono {q q' : ℚ} (hq : 0 < q) (h : q ≤ q') : lastBit q ≤ lastBit q' := by
  have hlow := (lastBit_bounds hq).1
  have hhigh := (lastBit_bounds (hq.trans_le h)).2
  have hlt := (zpow_lt_zpow_iff_right₀ one_lt_two).mp ((hlow.trans h).trans_lt hhigh)
  omega

theorem roundDiv_le_div (n d : Nat) : (roundDiv n d : ℚ) ≤ n / d + 1 := by
  have hround : (roundDiv n d : ℚ) ≤ (n / d + 1 : Nat) := by
    exact_mod_cast roundDiv_le_div_succ n d
  have hquot : ((n / d : Nat) : ℚ) ≤ n / d := Nat.cast_div_le
  push_cast at hround
  linarith

theorem scaled_lastBit {q : ℚ} (hq : 0 < q) :
    ((q.num.natAbs * 2 ^ (-lastBit q).toNat : Nat) : ℚ) /
      (q.den * 2 ^ (lastBit q).toNat : Nat) * 2 ^ lastBit q = q := by
  have hden : (0 : ℚ) < q.den := by exact_mod_cast q.den_pos
  have hnum : (q.num.natAbs : ℚ) = q.den * q := by
    rw [mul_comm]
    exact (div_eq_iff hden.ne').mp (natAbs_div_den hq)
  push_cast
  rw [hnum]
  rcases Int.eq_nat_or_neg (lastBit q) with ⟨n, hn | hn⟩
  · rw [hn, Int.toNat_natCast, Int.toNat_neg_natCast, zpow_natCast]
    field_simp
  · rw [hn, neg_neg, Int.toNat_natCast, Int.toNat_neg_natCast, zpow_neg, zpow_natCast]
    field_simp

theorem roundRat_le {q : ℚ} (hq : 0 < q) : roundRat q ≤ 2 * q := by
  have hbit := pow_lastBit_le hq
  calc roundRat q
      ≤ (((q.num.natAbs * 2 ^ (-lastBit q).toNat : Nat) : ℚ) /
          (q.den * 2 ^ (lastBit q).toNat : Nat) + 1) * 2 ^ lastBit q := by
        unfold roundRat
        dsimp only
        gcongr
        exact roundDiv_le_div _ _
    _ = q + 2 ^ lastBit q := by rw [add_mul, scaled_lastBit hq, one_mul]
    _ ≤ 2 * q := by linarith

theorem roundRat_pos {q : ℚ} (hq : 0 < q) : 0 < roundRat q := by
  have hden : 0 < q.den * 2 ^ (lastBit q).toNat := by positivity
  have hbit : (0 : ℚ) < 2 ^ lastBit q := by positivity
  have hone : 1 * (q.den * 2 ^ (lastBit q).toNat) ≤ q.num.natAbs * 2 ^ (-lastBit q).toNat := by
    have hden' : (0 : ℚ) < (q.den * 2 ^ (lastBit q).toNat : Nat) := by exact_mod_cast hden
    have hscaled := scaled_lastBit hq
    have hle : (1 : ℚ) ≤ ((q.num.natAbs * 2 ^ (-lastBit q).toNat : Nat) : ℚ) /
        (q.den * 2 ^ (lastBit q).toNat : Nat) := by
      by_contra hlt
      have hsmall := mul_lt_mul_of_pos_right (not_le.mp hlt) hbit
      rw [hscaled, one_mul] at hsmall
      exact absurd (pow_lastBit_le hq) (not_le.mpr hsmall)
    rw [le_div_iff₀ hden'] at hle
    exact_mod_cast hle
  have hround : 1 ≤ roundDiv (q.num.natAbs * 2 ^ (-lastBit q).toNat)
      (q.den * 2 ^ (lastBit q).toNat) := le_roundDiv hden hone
  unfold roundRat
  dsimp only
  positivity

/-- Rounding keeps the order of positive numbers. -/
theorem roundRat_mono {q q' : ℚ} (hq : 0 < q) (h : q ≤ q') : roundRat q ≤ roundRat q' := by
  have hq' := hq.trans_le h
  have hbit : (0 : ℚ) < 2 ^ lastBit q := by positivity
  have hbit' : (0 : ℚ) < 2 ^ lastBit q' := by positivity
  have hden : 0 < q.den * 2 ^ (lastBit q).toNat := by positivity
  have hden' : 0 < q'.den * 2 ^ (lastBit q').toNat := by positivity
  have hscaled := eq_div_of_mul_eq hbit.ne' (scaled_lastBit hq)
  have hscaled' := eq_div_of_mul_eq hbit'.ne' (scaled_lastBit hq')
  rcases (lastBit_mono hq h).lt_or_eq with hlt | heq
  · -- different binades: a power of two separates the two results
    have hup : roundDiv (q.num.natAbs * 2 ^ (-lastBit q).toNat) (q.den * 2 ^ (lastBit q).toNat) ≤
        2 ^ 53 := by
      rw [← roundDiv_one (2 ^ 53)]
      apply roundDiv_mono_div hden Nat.one_pos
      rw [hscaled, div_le_iff₀ hbit, Nat.cast_one, div_one]
      have hbound := (lastBit_bounds hq).2.le
      rw [add_comm, zpow_add₀ two_ne_zero] at hbound
      exact_mod_cast hbound
    have hlow : 2 ^ 52 ≤ roundDiv (q'.num.natAbs * 2 ^ (-lastBit q').toNat)
        (q'.den * 2 ^ (lastBit q').toNat) := by
      rw [← roundDiv_one (2 ^ 52)]
      apply roundDiv_mono_div Nat.one_pos hden'
      rw [hscaled', le_div_iff₀ hbit', Nat.cast_one, div_one]
      have hbound := (lastBit_bounds hq').1
      rw [add_comm, zpow_add₀ two_ne_zero] at hbound
      exact_mod_cast hbound
    calc roundRat q
        ≤ (2 ^ 53 : Nat) * 2 ^ lastBit q := by
          unfold roundRat
          dsimp only
          gcongr
      _ = 2 ^ (53 + lastBit q) := by
          rw [zpow_add₀ two_ne_zero]
          norm_cast
      _ ≤ 2 ^ (52 + lastBit q') := zpow_le_zpow_right₀ one_le_two (by omega)
      _ = (2 ^ 52 : Nat) * 2 ^ lastBit q' := by
          rw [zpow_add₀ two_ne_zero]
          norm_cast
      _ ≤ roundRat q' := by
          unfold roundRat
          dsimp only
          gcongr
  · have hround : roundDiv (q.num.natAbs * 2 ^ (-lastBit q).toNat)
        (q.den * 2 ^ (lastBit q).toNat) ≤
          roundDiv (q'.num.natAbs * 2 ^ (-lastBit q').toNat)
            (q'.den * 2 ^ (lastBit q').toNat) := by
      apply roundDiv_mono_div hden hden'
      rw [hscaled, hscaled', heq]
      gcongr
    unfold roundRat
    dsimp only
    rw [← heq] at hround ⊢
    gcongr

/-- Naturals of 53 bits are binary64 values. -/
theorem roundRat_natCast {n : Nat} (hpos : 0 < n) (h : n < 2 ^ 53) : roundRat n = n := by
  have hlog : Nat.log 2 n < 53 := Nat.log_lt_of_lt_pow (by omega) h
  have hlow : (2 : ℚ) ^ (Nat.log 2 n : Int) ≤ n := by
    rw [zpow_natCast]
    exact_mod_cast Nat.pow_log_le_self 2 (by omega)
  have hbit : lastBit (n : ℚ) = -((52 - Nat.log 2 n : Nat) : Int) := by
    unfold lastBit
    simp only [Rat.num_natCast, Int.natAbs_natCast, Rat.den_natCast, Nat.log_one_right,
      Nat.cast_zero, sub_zero, if_neg (not_lt.mpr hlow)]
    omega
  unfold roundRat
  rw [hbit]
  simp only [neg_neg, Int.toNat_natCast, Int.toNat_neg_natCast, Rat.num_natCast,
    Int.natAbs_natCast, Rat.den_natCast, pow_zero, Nat.mul_one, roundDiv_one]
  push_cast
  rw [zpow_neg, zpow_natCast]
  field_simp

/-! ## Values and arithmetic -/

def ofNat (n : Nat) : F64 := fin (roundNat n)

/-- The rational a finite value stands for; `0` elsewhere. -/
def value : F64 → ℚ
  | fin q => q
  | _ => 0

def isNegative : F64 → Bool
  | nan => false
  | inf negative => negative
  | negZero => true
  | fin q => decide (q < 0)

def isFinite : F64 → Bool
  | nan => false
  | inf _ => false
  | negZero => true
  | fin _ => true

def isNan : F64 → Bool
  | nan => true
  | _ => false

/-- A rounded result with its sign and magnitude given separately. -/
def ofSigned (negative : Bool) (magnitude : ℚ) : F64 :=
  let r := roundRat magnitude
  if magnitude = 0 then (if negative then negZero else fin 0)
  else if 2 ^ 1024 ≤ r then inf negative
  else fin (if negative then -r else r)

def add (x y : F64) : F64 :=
  if x.isNan || y.isNan then nan
  else if x.isFinite && y.isFinite then
    ofSigned (if x.value + y.value = 0 then x.isNegative && y.isNegative
      else decide (x.value + y.value < 0)) |x.value + y.value|
  else if x.isFinite then y
  else if y.isFinite || x = y then x
  else nan

def mul (x y : F64) : F64 :=
  let negative := xor x.isNegative y.isNegative
  if x.isNan || y.isNan then nan
  else if x.isFinite && y.isFinite then ofSigned negative (|x.value| * |y.value|)
  else if (x.isFinite && x.value = 0) || (y.isFinite && y.value = 0) then nan
  else inf negative

def div (x y : F64) : F64 :=
  let negative := xor x.isNegative y.isNegative
  if x.isNan || y.isNan then nan
  else if !x.isFinite then (if y.isFinite then inf negative else nan)
  else if !y.isFinite then ofSigned negative 0
  else if y.value = 0 then (if x.value = 0 then nan else inf negative)
  else ofSigned negative (|x.value| / |y.value|)

def neg : F64 → F64
  | nan => nan
  | inf negative => inf !negative
  | negZero => fin 0
  | fin q => if q = 0 then negZero else fin (-q)

def sub (x y : F64) : F64 := x.add y.neg

/-- `x as i64`: truncation towards zero, saturating, NaN to zero. -/
def toI64 : F64 → Int
  | nan => 0
  | inf negative => if negative then -(2 ^ 63) else 2 ^ 63 - 1
  | negZero => 0
  | fin q => max (-(2 ^ 63)) (min (2 ^ 63 - 1) (q.num.tdiv q.den))

/-! ## Comparisons -/

/-- `x <= y` of the language: false as soon as one side is NaN. -/
def le : F64 → F64 → Bool
  | nan, _ => false
  | _, nan => false
  | inf true, _ => true
  | _, inf false => true
  | inf false, _ => false
  | _, inf true => false
  | x, y => decide (x.value ≤ y.value)

/-- `x == y` of the language: NaN equals nothing, the two zeros are equal. -/
def eq (x y : F64) : Bool := x.le y && y.le x

/-- `x.total_cmp(&y) == Less`: the total order, negative zero below positive zero. -/
def totalLt : F64 → F64 → Bool
  | nan, _ => false
  | _, nan => true
  | negZero, fin q => decide (0 ≤ q)
  | x, y => x.le y && !y.le x

/-- `x.max(y)`: a NaN loses to anything. -/
def max (x y : F64) : F64 :=
  if x.isNan then y
  else if y.isNan then x
  else if x.le y then y
  else x

instance : Zero F64 := ⟨fin 0⟩
instance : One F64 := ⟨fin 1⟩
instance : Neg F64 := ⟨neg⟩
instance : Add F64 := ⟨add⟩
instance : Sub F64 := ⟨sub⟩
instance : Mul F64 := ⟨mul⟩
instance : Div F64 := ⟨div⟩
instance : Max F64 := ⟨max⟩

def minPositive : F64 := fin (1 / 2 ^ 1022)

/-- `x.clamp(lo, hi)`: a NaN stays NaN. -/
def clamp (x lo hi : F64) : F64 :=
  if x.isNan then nan
  else if !lo.le x then lo
  else if !x.le hi then hi
  else x

@[simp] theorem isFinite_ofNat (n : Nat) : (ofNat n).isFinite = true := rfl

@[simp] theorem value_ofNat (n : Nat) : (ofNat n).value = roundNat n := rfl

theorem ofNat_of_lt {n : Nat} (h : n < 2 ^ 53) : ofNat n = fin n := by
  simp [ofNat, roundNat_of_lt h]

theorem totalLt_ofNat (n m : Nat) :
    totalLt (ofNat n) (ofNat m) = decide (roundNat n < roundNat m) := by
  simp only [ofNat, totalLt, le, value, Nat.cast_le]
  by_cases h : roundNat n < roundNat m
  · simp [h, Nat.le_of_lt h, Nat.not_le_of_lt h]
  · simp [h, Nat.le_of_not_lt h]

theorem le_iff_value {x y : F64} (hx : x.isFinite = true) (hy : y.isFinite = true) :
    x.le y = true ↔ x.value ≤ y.value := by
  have hle : x.le y = decide (x.value ≤ y.value) := by
    cases x <;> cases hx <;> cases y <;> cases hy <;> rfl
  rw [hle, decide_eq_true_eq]

theorem value_le_of_totalLt {x y : F64} (hx : x.isFinite = true) (hy : y.isFinite = true)
    (h : x.totalLt y = true) : x.value ≤ y.value := by
  apply (le_iff_value hx hy).mp
  cases x <;> cases hx <;> cases y <;> cases hy <;> grind [totalLt, le, value]

theorem value_le_of_not_totalLt {x y : F64} (hx : x.isFinite = true) (hy : y.isFinite = true)
    (h : x.totalLt y = false) : y.value ≤ x.value := by
  apply (le_iff_value hy hx).mp
  cases x <;> cases hx <;> cases y <;> cases hy <;> grind [totalLt, le, value]

/-! ## Non-negative operands -/

@[simp] theorem ofSigned_zero : ofSigned false 0 = fin 0 := by
  simp [ofSigned]

theorem ofSigned_pos {q : ℚ} (hq : 0 < q) (hrange : q < 2 ^ 1023) :
    ∃ r, ofSigned false q = fin r ∧ 0 < r ∧ r ≤ 2 * q := by
  have hle := roundRat_le hq
  have hfits : roundRat q < 2 ^ 1024 :=
    calc roundRat q ≤ 2 * q := hle
      _ < 2 * 2 ^ 1023 := mul_lt_mul_of_pos_left hrange two_pos
      _ = 2 ^ 1024 := (pow_succ' 2 1023).symm
  refine ⟨roundRat q, ?_, roundRat_pos hq, hle⟩
  unfold ofSigned
  dsimp only
  rw [if_neg hq.ne', if_neg (not_le.mpr hfits)]
  simp

theorem ofSigned_natCast {n : Nat} (h : n < 2 ^ 53) : ofSigned false n = fin n := by
  rcases Nat.eq_zero_or_pos n with rfl | hpos
  · exact ofSigned_zero
  · have hround := roundRat_natCast hpos h
    have hsmall : (n : ℚ) < 2 ^ 53 := by exact_mod_cast h
    have hrange : (2 : ℚ) ^ 53 ≤ 2 ^ 1024 := pow_le_pow_right₀ (by norm_num) (by norm_num)
    have hne : (n : ℚ) ≠ 0 := by exact_mod_cast hpos.ne'
    unfold ofSigned
    dsimp only
    rw [hround, if_neg hne, if_neg (not_le.mpr (hsmall.trans_le hrange))]
    simp

theorem value_ofSigned {q : ℚ} (hq : 0 < q) (hfinite : (ofSigned false q).isFinite = true) :
    (ofSigned false q).value = roundRat q := by
  unfold ofSigned at hfinite ⊢
  dsimp only at hfinite ⊢
  rw [if_neg hq.ne'] at hfinite ⊢
  by_cases hbig : 2 ^ 1024 ≤ roundRat q
  · rw [if_pos hbig] at hfinite
    cases hfinite
  · rw [if_neg hbig]
    simp [value]

section NonNegative

variable {p q : ℚ}

theorem fin_add_fin (hp : 0 ≤ p) (hq : 0 ≤ q) : (fin p).add (fin q) = ofSigned false (p + q) := by
  have hsum : 0 ≤ p + q := by positivity
  simp [add, isNan, isFinite, value, isNegative, abs_of_nonneg hsum, not_lt.mpr hp,
    not_lt.mpr hsum]

theorem fin_mul_fin (hp : 0 ≤ p) (hq : 0 ≤ q) : (fin p).mul (fin q) = ofSigned false (p * q) := by
  simp [mul, isNan, isFinite, value, isNegative, abs_of_nonneg hp, abs_of_nonneg hq,
    not_lt.mpr hp, not_lt.mpr hq]

theorem fin_div_fin (hp : 0 ≤ p) (hq : 0 < q) : (fin p).div (fin q) = ofSigned false (p / q) := by
  simp [div, isNan, isFinite, value, isNegative, abs_of_nonneg hp, abs_of_nonneg hq.le,
    not_lt.mpr hp, not_lt.mpr hq.le, hq.ne']

end NonNegative

section Bounded

variable {a b : ℚ} {x y : F64}

/-- Finite, not negative and at most `b`. -/
def Upto (b : ℚ) (x : F64) : Prop := ∃ q, 0 ≤ q ∧ q ≤ b ∧ x = fin q

theorem Upto.isFinite (h : Upto b x) : x.isFinite = true := by
  obtain ⟨q, _, _, rfl⟩ := h
  rfl

theorem Upto.mono (h : Upto a x) (hab : a ≤ b) : Upto b x := by
  obtain ⟨q, hq, hqa, hx⟩ := h
  exact ⟨q, hq, hqa.trans hab, hx⟩

theorem upto_ofSigned {q : ℚ} (hq : 0 ≤ q) (hqb : q ≤ b) (hb : b ≤ 2 ^ 200) :
    Upto (2 * b) (ofSigned false q) ∧ (0 < q → 0 < (ofSigned false q).value) := by
  rcases hq.eq_or_lt with rfl | hpos
  · rw [ofSigned_zero]
    exact ⟨⟨0, le_rfl, by linarith, rfl⟩, fun h => absurd h (lt_irrefl _)⟩
  · have hrange : (2 : ℚ) ^ 200 < 2 ^ 1023 := pow_lt_pow_right₀ one_lt_two (by norm_num)
    obtain ⟨r, hr, hrpos, hrle⟩ := ofSigned_pos hpos ((hqb.trans hb).trans_lt hrange)
    rw [hr]
    exact ⟨⟨r, hrpos.le, by linarith, rfl⟩, fun _ => hrpos⟩

theorem value_ofNat_pos {n : Nat} (h : 0 < n) : 0 < (ofNat n).value := by
  have hround := roundNat_mono h
  rw [roundNat_of_lt (show 0 + 1 < 2 ^ 53 by norm_num)] at hround
  rw [value_ofNat]
  exact_mod_cast hround

theorem upto_ofNat {n e : Nat} (h : n < 2 ^ (53 + e)) : Upto (2 ^ (53 + e)) (ofNat n) :=
  ⟨roundNat n, Nat.cast_nonneg _, by exact_mod_cast roundNat_le_pow h, rfl⟩

theorem Upto.add (hx : Upto a x) (hy : Upto b y) (hab : a + b ≤ 2 ^ 200) :
    Upto (2 * (a + b)) (x.add y) ∧ (0 < x.value ∨ 0 < y.value → 0 < (x.add y).value) := by
  obtain ⟨p, hp, hpa, rfl⟩ := hx
  obtain ⟨q, hq, hqb, rfl⟩ := hy
  rw [fin_add_fin hp hq]
  obtain ⟨hupto, hpos⟩ := upto_ofSigned (add_nonneg hp hq) (add_le_add hpa hqb) hab
  refine ⟨hupto, fun h => hpos ?_⟩
  rcases h with hp' | hq'
  · exact add_pos_of_pos_of_nonneg hp' hq
  · exact add_pos_of_nonneg_of_pos hp hq'

theorem Upto.mul (hx : Upto a x) (hy : Upto b y) (hab : a * b ≤ 2 ^ 200) :
    Upto (2 * (a * b)) (x.mul y) ∧ (0 < x.value → 0 < y.value → 0 < (x.mul y).value) := by
  obtain ⟨p, hp, hpa, rfl⟩ := hx
  obtain ⟨q, hq, hqb, rfl⟩ := hy
  rw [fin_mul_fin hp hq]
  obtain ⟨hupto, hpos⟩ := upto_ofSigned (mul_nonneg hp hq)
    (mul_le_mul hpa hqb hq (hp.trans hpa)) hab
  exact ⟨hupto, fun hp' hq' => hpos (mul_pos hp' hq')⟩

theorem Upto.fin_zero_mul (hy : Upto b y) : (fin 0).mul y = fin 0 := by
  obtain ⟨q, hq, _, rfl⟩ := hy
  rw [fin_mul_fin le_rfl hq, zero_mul, ofSigned_zero]

end Bounded

/-! ## Shares -/

theorem clamp_unit_cases (x : F64) : x.clamp (fin 0) (fin 1) = nan ∨
    x.clamp (fin 0) (fin 1) = negZero ∨
      ∃ q : ℚ, 0 ≤ q ∧ q ≤ 1 ∧ x.clamp (fin 0) (fin 1) = fin q := by
  cases x with
  | nan => exact .inl rfl
  | inf negative => cases negative <;> exact .inr (.inr ⟨_, by norm_num, by norm_num, rfl⟩)
  | negZero => exact .inr (.inl (by simp [clamp, le, value, isNan]))
  | fin q =>
      right
      right
      by_cases hlow : 0 ≤ q
      · by_cases hhigh : q ≤ 1
        · exact ⟨q, hlow, hhigh, by simp [clamp, le, value, isNan, hlow, hhigh]⟩
        · exact ⟨1, by norm_num, by norm_num, by simp [clamp, le, value, isNan, hlow, hhigh]⟩
      · exact ⟨0, by norm_num, by norm_num, by simp [clamp, le, value, isNan, hlow]⟩

theorem toI64_fin_bounds {q : ℚ} {n : Nat} (hlow : 0 ≤ q) (hhigh : q ≤ n) :
    0 ≤ (fin q).toI64 ∧ (fin q).toI64 ≤ n := by
  have hnum : 0 ≤ q.num := Rat.num_nonneg.mpr hlow
  have hle : q.num ≤ n * q.den := by
    have hq : (q.num : ℚ) ≤ n * q.den := by
      rw [← Rat.mul_den_eq_num]
      gcongr
    exact_mod_cast hq
  have hdiv : q.num.tdiv q.den ≤ n := by
    rw [Int.tdiv_eq_ediv_of_nonneg hnum]
    exact Int.ediv_le_of_le_mul (by exact_mod_cast q.den_pos) hle
  have hpos : 0 ≤ q.num.tdiv q.den := Int.tdiv_nonneg hnum (by omega)
  unfold toI64
  dsimp only
  omega

theorem toI64_share_bounds {q : ℚ} (hlow : 0 ≤ q) (hhigh : q ≤ 1) :
    0 ≤ ((fin q).mul (ofNat 1000)).toI64 ∧ ((fin q).mul (ofNat 1000)).toI64 ≤ (2000 : Nat) := by
  have hmul : (fin q).mul (ofNat 1000) = ofSigned false (q * 1000) := by
    rw [ofNat_of_lt (by norm_num)]
    have hthousand : ¬ (1000 : ℚ) < 0 := by norm_num
    simp [mul, isNan, isFinite, isNegative, value, abs_of_nonneg hlow, not_lt.mpr hlow, hthousand]
  rw [hmul]
  unfold ofSigned
  dsimp only
  split
  · exact toI64_fin_bounds le_rfl (by norm_num)
  next hne =>
    have hpos : 0 < q * 1000 := lt_of_le_of_ne (by positivity) (Ne.symm hne)
    have hround : roundRat (q * 1000) ≤ (2000 : Nat) := by
      have hle := roundRat_le hpos
      push_cast
      linarith
    split
    next hbig =>
      have hsmall : (2 : ℚ) ^ 11 ≤ 2 ^ 1024 := pow_le_pow_right₀ (by norm_num) (by norm_num)
      have hfalse : (2 : ℚ) ^ 11 ≤ (2000 : Nat) := hsmall.trans (hbig.trans hround)
      norm_num at hfalse
    · exact toI64_fin_bounds (roundRat_nonneg _) hround

theorem toI64_ratio_bounds (x : F64) :
    0 ≤ ((x.clamp (fin 0) (fin 1)).mul (ofNat 1000)).toI64 ∧
      ((x.clamp (fin 0) (fin 1)).mul (ofNat 1000)).toI64 ≤ (2000 : Nat) := by
  rcases clamp_unit_cases x with hx | hx | ⟨q, hlow, hhigh, hx⟩ <;> rw [hx]
  · simp [mul, isNan, toI64]
  · rw [ofNat_of_lt (by norm_num)]
    simp [mul, isNan, isFinite, isNegative, value, ofSigned, toI64]
  · exact toI64_share_bounds hlow hhigh

example : div (ofNat 1) (ofNat 2) = fin (1 / 2) := by decide +kernel

end F64
