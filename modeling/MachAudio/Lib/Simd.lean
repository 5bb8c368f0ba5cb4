import Mathlib.Data.List.Basic
import Mathlib.Algebra.Order.Ring.Int
import Mathlib.Order.MinMax

/-! # Vector registers as lists of lanes

A 256-bit register is the list of its lanes, lowest first.  The operations below are the
integer ones: packing with saturation, which works on the two 128-bit halves separately,
the permutation of 64-bit quarters, and saturating addition. -/

namespace Simd

/-- Saturation of an integer to the range of a 16-bit lane. -/
def saturate16 (x : ℤ) : Int16 := Int16.ofInt (max (-32768) (min 32767 x))

theorem saturate16_of_mem {x : ℤ} (h₁ : -32768 ≤ x) (h₂ : x ≤ 32767) :
    saturate16 x = Int16.ofInt x := by
  rw [saturate16, min_eq_right h₂, max_eq_right h₁]

theorem toInt_saturate16 (x : ℤ) : (saturate16 x).toInt = max (-32768) (min 32767 x) := by
  rw [saturate16, Int16.toInt_ofInt_of_le]
  · omega
  · omega

/-- Saturating addition of 16-bit lanes. -/
def addsEpi16 (a b : List Int16) : List Int16 :=
  List.zipWith (fun x y => saturate16 (x.toInt + y.toInt)) a b

/-- Pack two registers of eight 32-bit lanes into sixteen 16-bit lanes, half by half. -/
def packsEpi32 (a b : List ℤ) : List Int16 :=
  (a.take 4).map saturate16 ++ (b.take 4).map saturate16 ++
    ((a.drop 4).take 4).map saturate16 ++ ((b.drop 4).take 4).map saturate16

/-- Quarter `i` of a register of sixteen 16-bit lanes. -/
def quarter (v : List Int16) (i : ℕ) : List Int16 := (v.drop (4 * i)).take 4

/-- The register whose quarters, lowest first, are the quarters `q₀ q₁ q₂ q₃` of `v`. -/
def permute4x64 (v : List Int16) (q₀ q₁ q₂ q₃ : ℕ) : List Int16 :=
  quarter v q₀ ++ quarter v q₁ ++ quarter v q₂ ++ quarter v q₃

@[simp] theorem length_addsEpi16 (a b : List Int16) :
    (addsEpi16 a b).length = min a.length b.length := by
  simp [addsEpi16]

/-- Packing interleaves the halves of its arguments; the permutation `0 2 1 3` undoes it. -/
theorem permute4x64_packsEpi32 {a b : List ℤ} (ha : a.length = 8) (hb : b.length = 8) :
    permute4x64 (packsEpi32 a b) 0 2 1 3 = a.map saturate16 ++ b.map saturate16 := by
  match a, ha with
  | [a₀, a₁, a₂, a₃, a₄, a₅, a₆, a₇], _ =>
      match b, hb with
      | [b₀, b₁, b₂, b₃, b₄, b₅, b₆, b₇], _ => rfl

end Simd
