import Mathlib.Analysis.Complex.ExponentialBounds
import Mathlib.Analysis.SpecialFunctions.Sigmoid
import Mathlib.Analysis.SpecialFunctions.Trigonometric.DerivHyp
import MachAudio.NetworkRange

/-! # How good the fast exponential is

`exp_ps` splits `2 ^ (x * log2 e)` at the nearest integer and uses a polynomial of degree five on
what is left.  On `[-88, 88]` its relative error is below `2 ^ (-17)`: the polynomial leaves out the
sixth term of the series, and the constant for `log2 e` is off by what a `float` is.  Outside the
argument is clamped, where a sigmoid does not tell the difference any more.

So `sigmoid_ps` and `tanh_ps` are within `2 ^ (-16)` of the functions they stand for
(`sigmoidPs_close`, `tanhPs_close`), for every argument. -/

namespace MachAudio

open Real (log exp sigmoid tanh)

/-! ### The polynomial -/

/-- The natural logarithm of 2, as the library has it. -/
theorem log_two_mem : 6931471803 / 10 ^ 10 ≤ log 2 ∧ log 2 ≤ 6931471808 / 10 ^ 10 := by
  have hlo := Real.log_two_gt_d9
  have hhi := Real.log_two_lt_d9
  constructor <;> linarith

/-- A power of the logarithm, between the powers of its bounds. -/
theorem log_two_pow (n : ℕ) :
    (6931471803 / 10 ^ 10 : ℝ) ^ n ≤ log 2 ^ n ∧ log 2 ^ n ≤ (6931471808 / 10 ^ 10) ^ n := by
  obtain ⟨hlo, hhi⟩ := log_two_mem
  constructor
  · exact pow_le_pow_left₀ (by norm_num) hlo n
  · exact pow_le_pow_left₀ (by linarith) hhi n

/-- The error of a coefficient at an argument of at most 1/2. -/
theorem coefficient_close {c a δ f : ℝ} (hc : |c - a| ≤ δ) (hf : |f| ≤ 1 / 2) (n : ℕ) :
    |c * f ^ n - a * f ^ n| ≤ δ * (1 / 2) ^ n := by
  rw [← sub_mul, abs_mul, abs_pow]
  have hpow := pow_le_pow_left₀ (abs_nonneg f) hf n
  exact mul_le_mul hc hpow (pow_nonneg (abs_nonneg f) n) ((abs_nonneg _).trans hc)

/-- The polynomial is `2 ^ f` up to the sixth term of the series. -/
theorem expPoly_close {f : ℚ} (hf : |f| ≤ 1 / 2) :
    |(expPoly f : ℝ) - exp (f * log 2)| ≤ 29 / 10 ^ 7 := by
  have hf' : |(f : ℝ)| ≤ 1 / 2 := by
    have h := Rat.cast_le (K := ℝ).mpr hf
    push_cast at h
    exact h
  obtain ⟨hlo, hhi⟩ := log_two_mem
  have hu : |(f : ℝ) * log 2| ≤ 3465735904 / 10 ^ 10 := by
    rw [abs_mul, abs_of_pos (show 0 < log 2 by linarith)]
    nlinarith [abs_nonneg (f : ℝ)]
  -- the series
  have hseries := Real.exp_bound (hu.trans (by norm_num)) (show 0 < 6 by norm_num)
  have hsixth : |(f : ℝ) * log 2| ^ 6 ≤ (3465735904 / 10 ^ 10) ^ 6 :=
    pow_le_pow_left₀ (abs_nonneg _) hu 6
  have htail : |(f : ℝ) * log 2| ^ 6 * ((6 : ℕ).succ / ((6 : ℕ).factorial * (6 : ℕ))) ≤
      2816 / 10 ^ 9 := by
    have hconst : (((6 : ℕ).succ : ℝ) / ((6 : ℕ).factorial * (6 : ℕ))) = 7 / 4320 := by
      norm_num [Nat.factorial]
    rw [hconst]
    calc |(f : ℝ) * log 2| ^ 6 * (7 / 4320)
        ≤ (3465735904 / 10 ^ 10) ^ 6 * (7 / 4320) := by gcongr
      _ ≤ 2816 / 10 ^ 9 := by norm_num
  -- the coefficients
  obtain ⟨h2, h2'⟩ := log_two_pow 2
  obtain ⟨h3, h3'⟩ := log_two_pow 3
  obtain ⟨h4, h4'⟩ := log_two_pow 4
  obtain ⟨h5, h5'⟩ := log_two_pow 5
  have c1 := coefficient_close (c := 1453635 / 2 ^ 21) (a := log 2) (δ := 1 / 10 ^ 7)
    (by rw [abs_le]; constructor <;> norm_num <;> linarith) hf' 1
  have c2 := coefficient_close (c := 1007583 / 2 ^ 22) (a := log 2 ^ 2 / 2) (δ := 1 / 10 ^ 8)
    (by rw [abs_le]; constructor <;> norm_num at h2 h2' ⊢ <;> linarith) hf' 2
  have c3 := coefficient_close (c := 14899271 / 2 ^ 28) (a := log 2 ^ 3 / 6) (δ := 1 / 10 ^ 8)
    (by rw [abs_le]; constructor <;> norm_num at h3 h3' ⊢ <;> linarith) hf' 3
  have c4 := coefficient_close (c := 10327387 / 2 ^ 30) (a := log 2 ^ 4 / 24) (δ := 1 / 10 ^ 8)
    (by rw [abs_le]; constructor <;> norm_num at h4 h4' ⊢ <;> linarith) hf' 4
  have c5 := coefficient_close (c := 11453439 / 2 ^ 33) (a := log 2 ^ 5 / 120) (δ := 1 / 10 ^ 8)
    (by rw [abs_le]; constructor <;> norm_num at h5 h5' ⊢ <;> linarith) hf' 5
  have hpoly : (expPoly f : ℝ) = 1 + 1453635 / 2 ^ 21 * (f : ℝ) ^ 1 +
      1007583 / 2 ^ 22 * (f : ℝ) ^ 2 + 14899271 / 2 ^ 28 * (f : ℝ) ^ 3 +
        10327387 / 2 ^ 30 * (f : ℝ) ^ 4 + 11453439 / 2 ^ 33 * (f : ℝ) ^ 5 := by
    unfold expPoly
    push_cast
    ring
  have hsum : ∑ m ∈ Finset.range 6, ((f : ℝ) * log 2) ^ m / m.factorial =
      1 + log 2 * (f : ℝ) ^ 1 + log 2 ^ 2 / 2 * (f : ℝ) ^ 2 + log 2 ^ 3 / 6 * (f : ℝ) ^ 3 +
        log 2 ^ 4 / 24 * (f : ℝ) ^ 4 + log 2 ^ 5 / 120 * (f : ℝ) ^ 5 := by
    simp only [Finset.sum_range_succ, Finset.sum_range_zero, Nat.factorial]
    push_cast
    ring
  rw [hsum] at hseries
  rw [hpoly]
  rw [abs_le] at *
  constructor <;> linarith

/-! ### The exponential -/

/-- What is used of an exponential function on floats: its accuracy below the clamp, and that it is
large above it. -/
structure IsExp (e : ℚ → ℚ) : Prop where
  nonneg : ∀ x, 0 ≤ e x
  close : ∀ x, x ≤ 88 → |(e x : ℝ) - exp x| ≤ (exp x + 1) / 2 ^ 17
  large : ∀ x, 88 ≤ x → 2 ^ 17 ≤ e x

theorem two_pow_le_exp (n : ℕ) : (2 : ℝ) ^ n ≤ exp n := by
  have h : (2 : ℝ) ≤ exp 1 := by
    have := Real.add_one_le_exp 1
    linarith
  calc (2 : ℝ) ^ n ≤ exp 1 ^ n := pow_le_pow_left₀ (by norm_num) h n
    _ = exp n := by rw [← Real.exp_nat_mul, mul_one]

theorem exp_neg_le (n : ℕ) : exp (-n) ≤ (1 / 2) ^ n := by
  rw [Real.exp_neg, ← one_div, one_div_pow]
  exact one_div_le_one_div_of_le (by positivity) (two_pow_le_exp n)

/-- The constant for `log2 e` on an argument of at most 88. -/
theorem scale_close {x : ℝ} (hx : |x| ≤ 88) :
    |exp (x * (1 - 12102203 / 2 ^ 23 * log 2)) - 1| ≤ 25 / 10 ^ 7 := by
  obtain ⟨hlo, hhi⟩ := log_two_mem
  have hc : |1 - 12102203 / 2 ^ 23 * log 2| ≤ 14 / 10 ^ 9 := by
    rw [abs_le]
    constructor <;> linarith
  have ht : |x * (1 - 12102203 / 2 ^ 23 * log 2)| ≤ 88 * (14 / 10 ^ 9) := by
    rw [abs_mul]
    exact mul_le_mul hx hc (abs_nonneg _) (by norm_num)
  have h := Real.abs_exp_sub_one_le (ht.trans (by norm_num))
  linarith

/-- The argument as the integer and the fraction of its scaling. -/
theorem exp_split (x : ℚ) (n : ℤ) :
    exp x = exp ((x * (12102203 / 2 ^ 23) - n : ℚ) * log 2) *
      exp (x * (1 - 12102203 / 2 ^ 23 * log 2)) * 2 ^ n := by
  have hpow : (2 : ℝ) ^ n = exp (n * log 2) := by
    rw [mul_comm, Real.exp_mul, Real.exp_log (by norm_num), Real.rpow_intCast]
  rw [hpow, ← Real.exp_add, ← Real.exp_add]
  congr 1
  push_cast
  ring

/-- Between the clamps, away from the exponent of zero. -/
theorem expPs_relative {x : ℚ} (hx : |x| ≤ 88) (hn : roundHalfEven (expScaled x) + 127 ≠ 0) :
    |(expPs x : ℝ) - exp x| ≤ exp x / 2 ^ 17 := by
  have hscaled : expScaled x = x * (12102203 / 2 ^ 23) := by
    obtain ⟨hlo, hhi⟩ := abs_le.mp hx
    unfold expScaled
    rw [max_eq_left hlo, min_eq_left hhi]
  have hnear := roundHalfEven_near (expScaled x)
  have hx' : |(x : ℝ)| ≤ 88 := by
    have h := Rat.cast_le (K := ℝ).mpr hx
    push_cast at h
    exact h
  have hscale := scale_close hx'
  have hpoly := expPoly_close hnear
  have hsplit := exp_split x (roundHalfEven (expScaled x))
  rw [← hscaled] at hsplit
  unfold expPs
  dsimp only
  have hpow : ((pow2n (roundHalfEven (expScaled x)) : ℚ) : ℝ) =
      2 ^ roundHalfEven (expScaled x) := by
    unfold pow2n
    rw [if_neg hn]
    push_cast
    rfl
  rw [Rat.cast_mul, hpow, hsplit]
  have hu : 653 / 1000 ≤ exp ((expScaled x - roundHalfEven (expScaled x) : ℚ) * log 2) := by
    have hle := Real.add_one_le_exp
      (((expScaled x - roundHalfEven (expScaled x) : ℚ) : ℝ) * log 2)
    have hf : -(1 / 2 : ℝ) ≤ ((expScaled x - roundHalfEven (expScaled x) : ℚ) : ℝ) := by
      have h := Rat.cast_le (K := ℝ).mpr (abs_le.mp hnear).1
      push_cast at h ⊢
      exact h
    obtain ⟨hlo, hhi⟩ := log_two_mem
    nlinarith
  generalize exp ((expScaled x - roundHalfEven (expScaled x) : ℚ) * log 2) = u at *
  generalize exp (x * (1 - 12102203 / 2 ^ 23 * log 2)) = t at *
  generalize ((expPoly (expScaled x - roundHalfEven (expScaled x)) : ℚ) : ℝ) = p at *
  have hpos : (0 : ℝ) < 2 ^ roundHalfEven (expScaled x) := by positivity
  generalize (2 : ℝ) ^ roundHalfEven (expScaled x) = m at *
  have hmain : |p - u * t| ≤ u * t / 2 ^ 17 := by
    have hut : |u * (t - 1)| ≤ u * (25 / 10 ^ 7) := by
      rw [abs_mul, abs_of_pos (show 0 < u by linarith)]
      exact mul_le_mul_of_nonneg_left hscale (by linarith)
    rw [abs_le] at *
    constructor <;> linarith
  calc |p * m - u * t * m| = |p - u * t| * m := by
        rw [← sub_mul, abs_mul, abs_of_pos hpos]
    _ ≤ u * t / 2 ^ 17 * m := mul_le_mul_of_nonneg_right hmain hpos.le
    _ = u * t * m / 2 ^ 17 := by ring

/-- The argument that the clamp makes of it. -/
theorem expPs_clamp (x : ℚ) : expPs x = expPs (min (max x (-88)) 88) := by
  have h : expScaled x = expScaled (min (max x (-88)) 88) := by
    unfold expScaled
    congr 1
    have hlo : -88 ≤ min (max x (-88)) 88 := le_min (le_max_right _ _) (by norm_num)
    rw [max_eq_left hlo, min_eq_left (min_le_right _ _)]
  unfold expPs
  rw [h]

/-- Where the exponent is that of zero, the exponential is as good as that. -/
theorem expPs_zero {x : ℚ} (hn : roundHalfEven (expScaled x) + 127 = 0) :
    expPs x = 0 ∧ x ≤ -1 - 80 := by
  refine ⟨?_, ?_⟩
  · unfold expPs
    dsimp only
    rw [pow2n, if_pos hn, mul_zero]
  · have hnear := (abs_le.mp (roundHalfEven_near (expScaled x))).2
    have hround : (roundHalfEven (expScaled x) : ℚ) = -127 := by
      have : roundHalfEven (expScaled x) = -127 := by omega
      rw [this]
      norm_num
    rw [hround] at hnear
    by_contra hlt
    have hclamp : -(81 : ℚ) ≤ min (max x (-88)) 88 := by
      refine le_min (le_max_of_le_left ?_) (by norm_num)
      linarith
    unfold expScaled at hnear
    linarith

/-- **The fast exponential is an exponential.** -/
theorem expPs_isExp : IsExp expPs := by
  have hinside : ∀ x : ℚ, |x| ≤ 88 → |(expPs x : ℝ) - exp x| ≤ (exp x + 1) / 2 ^ 17 := by
    intro x hx
    by_cases hn : roundHalfEven (expScaled x) + 127 = 0
    · obtain ⟨hzero, hle⟩ := expPs_zero hn
      have hle' : (x : ℝ) ≤ -(17 : ℕ) := by
        have h := Rat.cast_le (K := ℝ).mpr hle
        push_cast at h ⊢
        linarith
      have hexp := (Real.exp_le_exp.mpr hle').trans (exp_neg_le 17)
      rw [hzero, Rat.cast_zero, zero_sub, abs_neg, abs_of_pos (Real.exp_pos _)]
      have hpos := Real.exp_pos (x : ℝ)
      norm_num at hexp ⊢
      linarith
    · refine (expPs_relative hx hn).trans ?_
      gcongr
      linarith
  have hclose : ∀ x : ℚ, x ≤ 88 → |(expPs x : ℝ) - exp x| ≤ (exp x + 1) / 2 ^ 17 := by
    intro x hx
    rcases le_or_gt (-88) x with hlo | hlo
    · exact hinside x (abs_le.mpr ⟨hlo, hx⟩)
    · -- the clamped argument is as far below
      have hclamp : expPs x = expPs (-88) := by
        rw [expPs_clamp, max_eq_right hlo.le, min_eq_left (by norm_num)]
      have hzero : expPs (-88) = 0 := by decide +kernel
      have hle' : (x : ℝ) ≤ -(17 : ℕ) := by
        have h := Rat.cast_le (K := ℝ).mpr hlo.le
        push_cast at h ⊢
        linarith
      have hexp := (Real.exp_le_exp.mpr hle').trans (exp_neg_le 17)
      rw [hclamp, hzero, Rat.cast_zero, zero_sub, abs_neg, abs_of_pos (Real.exp_pos _)]
      have hpos := Real.exp_pos (x : ℝ)
      norm_num at hexp ⊢
      linarith
  refine ⟨expPs_nonneg, hclose, fun x hx => ?_⟩
  have hclamp : expPs x = expPs 88 := by
    rw [expPs_clamp, max_eq_left (by linarith), min_eq_right hx]
  rw [hclamp]
  decide +kernel

/-! ### The sigmoid and the hyperbolic tangent -/

/-- A logistic function of something close to an exponential. -/
theorem logistic_close {a b δ : ℝ} (ha : 0 ≤ a) (hb : 0 ≤ b) (h : |a - b| ≤ (b + 1) * δ) :
    |1 / (1 + a) - 1 / (1 + b)| ≤ δ := by
  have hδ : 0 ≤ δ := by
    have := (abs_nonneg _).trans h
    by_contra hneg
    nlinarith
  have hab : 0 < (1 + a) * (1 + b) := by positivity
  have hsub : 1 / (1 + a) - 1 / (1 + b) = (b - a) / ((1 + a) * (1 + b)) := by
    field_simp
    ring
  rw [hsub, abs_div, abs_of_pos hab, div_le_iff₀ hab, abs_sub_comm]
  calc |a - b| ≤ (b + 1) * δ := h
    _ ≤ δ * ((1 + a) * (1 + b)) := by
        nlinarith [mul_nonneg hδ (mul_nonneg ha (by linarith : 0 ≤ 1 + b))]

/-- The sigmoid with this exponential. -/
theorem IsExp.sigmoid_close {e : ℚ → ℚ} (he : IsExp e) (x : ℚ) :
    |((1 / (1 + e (-x)) : ℚ) : ℝ) - sigmoid x| ≤ 1 / 2 ^ 17 := by
  have hnonneg : (0 : ℝ) ≤ e (-x) := by exact_mod_cast he.nonneg (-x)
  rw [Real.sigmoid_def, ← one_div]
  push_cast
  rcases le_or_gt (-x) 88 with hx | hx
  · have hclose := he.close (-x) hx
    push_cast at hclose
    refine logistic_close hnonneg (Real.exp_pos _).le ?_
    rw [mul_one_div]
    exact hclose
  · -- both are as good as zero
    have hlarge : (2 : ℝ) ^ 17 ≤ e (-x) := by exact_mod_cast he.large (-x) hx.le
    have hexp : (2 : ℝ) ^ 17 ≤ exp (-x) := by
      refine (two_pow_le_exp 17).trans (Real.exp_le_exp.mpr ?_)
      have h := Rat.cast_lt (K := ℝ).mpr hx
      push_cast at h ⊢
      linarith
    have hsmall : ∀ a : ℝ, 2 ^ 17 ≤ a → 0 ≤ 1 / (1 + a) ∧ 1 / (1 + a) ≤ 1 / 2 ^ 17 := by
      intro a ha
      have hpos : (0 : ℝ) < 2 ^ 17 := by norm_num
      refine ⟨by positivity, one_div_le_one_div_of_le hpos ?_⟩
      linarith
    obtain ⟨h₀, h₁⟩ := hsmall _ hlarge
    obtain ⟨h₂, h₃⟩ := hsmall _ hexp
    rw [abs_le]
    constructor <;> linarith

theorem sigmoidPs_close (x : ℚ) : |(sigmoidPs x : ℝ) - sigmoid x| ≤ 1 / 2 ^ 17 := by
  unfold sigmoidPs
  rw [zero_sub]
  exact expPs_isExp.sigmoid_close x

/-- The hyperbolic tangent by a sigmoid. -/
theorem tanh_eq_sigmoid (x : ℝ) : tanh x = 2 * sigmoid (2 * x) - 1 := by
  have hexp : exp (-(2 * x)) = exp (-x) * exp (-x) := by
    rw [← Real.exp_add]
    congr 1
    ring
  have hone : exp x * exp (-x) = 1 := by rw [← Real.exp_add, add_neg_cancel, Real.exp_zero]
  have hpos := Real.exp_pos x
  have hneg := Real.exp_pos (-x)
  rw [Real.tanh_eq_sinh_div_cosh, Real.sinh_eq, Real.cosh_eq, Real.sigmoid_def, hexp]
  generalize exp x = a at *
  generalize exp (-x) = b at *
  field_simp
  linear_combination (2 * b) * hone

/-- What is used of a hyperbolic tangent on floats. -/
def IsTanh (t : ℚ → ℚ) : Prop := ∀ x, |(t x : ℝ) - tanh x| ≤ 1 / 2 ^ 16

theorem tanhPs_eq (x : ℚ) : tanhPs x =
    if x < 0 then -(2 * (1 / (1 + expPs (-(2 * |x|)))) - 1)
    else 2 * (1 / (1 + expPs (-(2 * |x|)))) - 1 := by
  have harg : |x| * -2 = -(2 * |x|) := by ring
  have hneg : -(2 * |x|) ≤ 0 := by
    have := abs_nonneg x
    linarith
  have h₀ := expPs_nonneg (-(2 * |x|))
  have hpos := (Gates.tangent_mem h₀ (expPs_le_one hneg)).1
  have hres : (1 - expPs (-(2 * |x|))) / (1 + expPs (-(2 * |x|))) =
      2 * (1 / (1 + expPs (-(2 * |x|)))) - 1 := by
    have hne : 1 + expPs (-(2 * |x|)) ≠ 0 := by positivity
    field_simp
    ring
  unfold tanhPs
  dsimp only
  rw [harg, abs_of_nonneg hpos, hres]

/-- **The fast hyperbolic tangent is one.** -/
theorem tanhPs_isTanh : IsTanh tanhPs := by
  have habs : ∀ y : ℚ, |((2 * (1 / (1 + expPs (-(2 * y)))) - 1 : ℚ) : ℝ) - tanh y| ≤ 1 / 2 ^ 16 := by
    intro y
    have hs := expPs_isExp.sigmoid_close (2 * y)
    rw [tanh_eq_sigmoid]
    push_cast at hs ⊢
    have heq : (2 * (1 / (1 + (expPs (-(2 * y)) : ℝ))) - 1) - (2 * sigmoid (2 * y) - 1) =
        2 * (1 / (1 + (expPs (-(2 * y)) : ℝ)) - sigmoid (2 * y)) := by ring
    rw [heq, abs_mul, abs_of_pos (show (0 : ℝ) < 2 by norm_num)]
    linarith
  intro x
  rw [tanhPs_eq]
  split_ifs with hx
  · have h := habs |x|
    rw [abs_of_neg hx] at h ⊢
    push_cast at h ⊢
    rw [Real.tanh_neg] at h
    rw [abs_sub_comm] at h
    have heq : -(2 * (1 / (1 + (expPs (-(2 * -x)) : ℝ))) - 1) - tanh x =
        -tanh x - (2 * (1 / (1 + (expPs (-(2 * -x)) : ℝ))) - 1) := by ring
    rw [heq]
    exact h
  · have h := habs |x|
    rwa [abs_of_nonneg (not_lt.mp hx)] at h ⊢

/-! ### How far arguments carry -/

theorem sigmoid_lipschitz (x y : ℝ) : |sigmoid x - sigmoid y| ≤ 1 / 4 * |x - y| := by
  have hderiv : ∀ z ∈ Set.univ, ‖deriv sigmoid z‖ ≤ 1 / 4 := by
    intro z _
    rw [Real.deriv_sigmoid, Real.norm_eq_abs, abs_le]
    constructor <;> nlinarith [sq_nonneg (2 * sigmoid z - 1), Real.sigmoid_nonneg z,
      Real.sigmoid_le_one z]
  have h := convex_univ.norm_image_sub_le_of_norm_deriv_le
    (fun z _ => differentiable_sigmoid z) hderiv (Set.mem_univ y) (Set.mem_univ x)
  rwa [Real.norm_eq_abs, Real.norm_eq_abs] at h

theorem tanh_lipschitz (x y : ℝ) : |tanh x - tanh y| ≤ |x - y| := by
  have h := sigmoid_lipschitz (2 * x) (2 * y)
  rw [← mul_sub, abs_mul, abs_of_pos (show (0 : ℝ) < 2 by norm_num)] at h
  have heq : tanh x - tanh y = 2 * (sigmoid (2 * x) - sigmoid (2 * y)) := by
    rw [tanh_eq_sigmoid, tanh_eq_sigmoid]
    ring
  rw [heq, abs_mul, abs_of_pos (show (0 : ℝ) < 2 by norm_num)]
  linarith

end MachAudio
