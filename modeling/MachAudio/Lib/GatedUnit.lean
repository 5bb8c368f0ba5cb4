import Mathlib.Algebra.Order.BigOperators.Group.Finset
import Mathlib.Algebra.Order.Field.GeomSum
import Mathlib.Tactic.Ring
import MachAudio.Lib.Gates

/-! # Two evaluations of one gated recurrent unit

A gated recurrent unit may be evaluated with different approximations of its two functions.  Each
step then adds an error of its own and stretches the one that is already in the state; `cell_close`
has both factors, and over a run the errors add up to a geometric sum (`accumulated`). -/

namespace Gates

variable {K : Type} [Field K] [LinearOrder K] [IsStrictOrderedRing K]

/-! ### Functions that follow each other -/

/-- The values differ by `ε` and by what `ℓ` makes of the arguments. -/
def Tracks (ε ℓ : K) (s s' : K → K) : Prop := ∀ x y, |s x - s' y| ≤ ε + ℓ * |x - y|

theorem Tracks.weaken {ε ε' ℓ : K} {s s' : K → K} (h : Tracks ε ℓ s s') (hε : ε ≤ ε') :
    Tracks ε' ℓ s s' := fun x y => (h x y).trans (by gcongr)

/-- Weighted sums of the same weights. -/
theorem sum_close {x y w : ℕ → K} {d : K} (n : ℕ) (h : ∀ j, |x j - y j| ≤ d) :
    |∑ j ∈ Finset.range n, x j * w j - ∑ j ∈ Finset.range n, y j * w j| ≤
      (∑ j ∈ Finset.range n, |w j|) * d := by
  rw [← Finset.sum_sub_distrib, Finset.sum_mul]
  refine (Finset.abs_sum_le_sum_abs _ _).trans (Finset.sum_le_sum fun j _ => ?_)
  rw [← sub_mul, abs_mul, mul_comm]
  exact mul_le_mul_of_nonneg_left (h j) (abs_nonneg _)

theorem abs_sum_le {x w : ℕ → K} (n : ℕ) (h : ∀ j, |x j| ≤ 1) :
    |∑ j ∈ Finset.range n, x j * w j| ≤ ∑ j ∈ Finset.range n, |w j| := by
  refine (Finset.abs_sum_le_sum_abs _ _).trans (Finset.sum_le_sum fun j _ => ?_)
  rw [abs_mul]
  exact mul_le_of_le_one_left (abs_nonneg _) (h j)

/-! ### One component -/

/-- A component of the new state, from the parts of its three arguments that come from the input
and from the old state. -/
def cell (s t : K → K) (inR inZ inN recR recZ recN h : K) : K :=
  let r := s (inR + recR)
  let z := s (inZ + recZ)
  let n := t (inN + r * recN)
  (1 - z) * n + z * h

/-- An update, with other gates. -/
theorem update_close {z z' n n' h h' a b c : K} (hz : 0 ≤ z ∧ z ≤ 1) (hn' : |n'| ≤ 1)
    (hh' : |h'| ≤ 1) (ha : |n - n'| ≤ a) (hb : |h - h'| ≤ b) (hc : |z - z'| ≤ c) :
    |((1 - z) * n + z * h) - ((1 - z') * n' + z' * h')| ≤ a + b + 2 * c := by
  have hsplit : ((1 - z) * n + z * h) - ((1 - z') * n' + z' * h') =
      (1 - z) * (n - n') + z * (h - h') + (z - z') * (h' - n') := by ring
  have h₁ : |(1 - z) * (n - n')| ≤ a := by
    rw [abs_mul, abs_of_nonneg (by linarith : 0 ≤ 1 - z)]
    exact (mul_le_of_le_one_left (abs_nonneg _) (by linarith)).trans ha
  have h₂ : |z * (h - h')| ≤ b := by
    rw [abs_mul, abs_of_nonneg hz.1]
    exact (mul_le_of_le_one_left (abs_nonneg _) hz.2).trans hb
  have h₃ : |(z - z') * (h' - n')| ≤ c * 2 := by
    rw [abs_mul]
    have htwo : |h' - n'| ≤ 2 := by
      have := abs_sub h' n'
      linarith
    exact mul_le_mul hc htwo (abs_nonneg _) ((abs_nonneg _).trans hc)
  rw [hsplit]
  have := abs_add_three ((1 - z) * (n - n')) (z * (h - h')) ((z - z') * (h' - n'))
  linarith

/-- **One component of two evaluations.**  The error of the functions counts `R + 3` times, where
`R` bounds the recurrent part of the candidate. -/
theorem cell_close {ε ℓ R e d : K} {s s' t t' : K → K} (hℓ : 0 ≤ ℓ) (hs : Tracks ε ℓ s s')
    (ht : Tracks ε 1 t t') (hrange : ∀ x, 0 ≤ s x ∧ s x ≤ 1) (ht' : ∀ x, |t' x| ≤ 1)
    {inR inZ inN recR recZ recN h recR' recZ' recN' h' : K} (hh' : |h'| ≤ 1) (hR : |recN'| ≤ R)
    (hr : |recR - recR'| ≤ e) (hz : |recZ - recZ'| ≤ e) (hn : |recN - recN'| ≤ e)
    (hd : |h - h'| ≤ d) :
    |cell s t inR inZ inN recR recZ recN h - cell s' t' inR inZ inN recR' recZ' recN' h'| ≤
      (R + 3) * ε + d + (1 + ℓ * (R + 2)) * e := by
  have hgate : ∀ {a b b' : K}, |b - b'| ≤ e → |s (a + b) - s' (a + b')| ≤ ε + ℓ * e := by
    intro a b b' hb
    refine (hs _ _).trans ?_
    rw [add_sub_add_left_eq_sub]
    have := mul_le_mul_of_nonneg_left hb hℓ
    linarith
  have hreset := hgate (a := inR) hr
  have hupdate := hgate (a := inZ) hz
  have hcandidate : |t (inN + s (inR + recR) * recN) - t' (inN + s' (inR + recR') * recN')| ≤
      ε + (e + (ε + ℓ * e) * R) := by
    refine (ht _ _).trans ?_
    rw [one_mul, add_sub_add_left_eq_sub]
    have hsplit : s (inR + recR) * recN - s' (inR + recR') * recN' =
        s (inR + recR) * (recN - recN') + (s (inR + recR) - s' (inR + recR')) * recN' := by ring
    obtain ⟨h₀, h₁⟩ := hrange (inR + recR)
    have hfirst : |s (inR + recR) * (recN - recN')| ≤ e := by
      rw [abs_mul, abs_of_nonneg h₀]
      exact (mul_le_of_le_one_left (abs_nonneg _) h₁).trans hn
    have hsecond : |(s (inR + recR) - s' (inR + recR')) * recN'| ≤ (ε + ℓ * e) * R := by
      rw [abs_mul]
      exact mul_le_mul hreset hR (abs_nonneg _) ((abs_nonneg _).trans hreset)
    rw [hsplit]
    have := abs_add_le (s (inR + recR) * (recN - recN'))
      ((s (inR + recR) - s' (inR + recR')) * recN')
    linarith
  have hnew := update_close (hrange (inZ + recZ)) (ht' _) hh' hcandidate hd hupdate
  unfold cell
  dsimp only
  refine hnew.trans (le_of_eq ?_)
  ring

/-! ### Runs -/

/-- The errors of so many steps, each of which adds `A` and stretches what there is by `L`. -/
def accumulated (A L : K) (n : ℕ) : K := A * ∑ i ∈ Finset.range n, L ^ i

omit [LinearOrder K] [IsStrictOrderedRing K] in
theorem accumulated_zero (A L : K) : accumulated A L 0 = 0 := by
  rw [accumulated, Finset.sum_range_zero, mul_zero]

omit [LinearOrder K] [IsStrictOrderedRing K] in
theorem accumulated_succ (A L : K) (n : ℕ) : accumulated A L (n + 1) = A + L * accumulated A L n := by
  rw [accumulated, accumulated, geom_sum_succ]
  ring

theorem accumulated_nonneg {A L : K} (hA : 0 ≤ A) (hL : 0 ≤ L) (n : ℕ) : 0 ≤ accumulated A L n :=
  mul_nonneg hA (Finset.sum_nonneg fun _ _ => pow_nonneg hL _)

end Gates
