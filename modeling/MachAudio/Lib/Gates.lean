import Mathlib.Analysis.Convex.Basic
import Mathlib.Tactic.Linarith
import Mathlib.Tactic.Positivity

/-! # Gates of a recurrent cell

A gated cell replaces a component `h` of its state by `(1 - z) * n + z * h`, with a gate `z` from
`1 / (1 + e)` and a candidate `n` from `(1 - e) / (1 + e)`, where `e` stands for an exponential.
All that keeps such a state bounded is the range of `e`; the weights that produce its argument
do not matter.  The exponential itself is usually a polynomial on a short interval, evaluated by
Horner's scheme. -/

namespace Gates

variable {K : Type} [Field K] [LinearOrder K] [IsStrictOrderedRing K]

/-! ### Horner's scheme -/

/-- One step on an argument of size at most `δ`. -/
theorem horner_step {f t δ hi : K} (c : K) (hf : |f| ≤ δ) (h₀ : 0 ≤ t) (h₁ : t ≤ hi) :
    c - hi * δ ≤ t * f + c ∧ t * f + c ≤ c + hi * δ := by
  have hprod : |t * f| ≤ hi * δ := by
    rw [abs_mul, abs_of_nonneg h₀]
    exact mul_le_mul h₁ hf (abs_nonneg f) (h₀.trans h₁)
  obtain ⟨hlo, hhi⟩ := abs_le.mp hprod
  constructor <;> linarith

/-- The last step, on a negative argument. -/
theorem horner_le {f t : K} (c : K) (hf : f ≤ 0) (h₀ : 0 ≤ t) : t * f + c ≤ c := by
  have hprod : t * f ≤ 0 := mul_nonpos_of_nonneg_of_nonpos h₀ hf
  linarith

/-! ### The gates -/

theorem logistic_mem {e : K} (h : 0 ≤ e) : 0 < 1 / (1 + e) ∧ 1 / (1 + e) ≤ 1 := by
  have hpos : 0 < 1 + e := by positivity
  refine ⟨by positivity, ?_⟩
  rw [div_le_one hpos]
  linarith

theorem logistic_lt_one {e : K} (h : 0 < e) : 1 / (1 + e) < 1 := by
  have hpos : 0 < 1 + e := by positivity
  rw [div_lt_one hpos]
  linarith

theorem tangent_mem {e : K} (h₀ : 0 ≤ e) (h₁ : e ≤ 1) :
    0 ≤ (1 - e) / (1 + e) ∧ (1 - e) / (1 + e) ≤ 1 := by
  have hpos : 0 < 1 + e := by positivity
  constructor
  · apply div_nonneg
    · linarith
    · exact hpos.le
  · rw [div_le_one hpos]
    linarith

/-- **The update stays in the interval** both the candidate and the old value are in. -/
theorem update_mem {z n h lo hi : K} (hz : 0 ≤ z ∧ z ≤ 1) (hn : n ∈ Set.Icc lo hi)
    (hh : h ∈ Set.Icc lo hi) : (1 - z) * n + z * h ∈ Set.Icc lo hi := by
  have hcombination := (convex_Icc lo hi) hn hh (sub_nonneg.mpr hz.2) hz.1 (sub_add_cancel 1 z)
  simpa only [smul_eq_mul] using hcombination

end Gates
