import MachAudio.Upsampler

/-! # The linear resampler

`resample_l16` of `resample.c`, the resampler without history: a table of coefficients for the
ratios 6, 3 and 2 up to 48 kHz, and linear interpolation at 32.32 positions for all others.  The
model keeps, with every sample written, the indices of the two it was computed from.

The product of a difference and a 16-bit fraction may leave 32 bits.  What wraps around is a
multiple of `2 ^ 32`, which the shift by 16 and the conversion to 16 bits take away again
(`interpolated_wrap`), so the result stays between the two samples. -/

namespace MachAudio

/-! ### The code -/

/-- Two's complement of 32 bits. -/
def wrapInt32 (x : ℤ) : ℤ := x.bmod (2 ^ 32)

/-- A sample written, and the indices `x0` and `x1` were read at. -/
structure LinearOutput where
  out : Int16
  left : ℕ
  right : ℕ
deriving DecidableEq, Repr

/-- Where `x1` is read: the last sample is its own neighbour. -/
def neighbour (n left : ℕ) : ℕ := if left + 1 < n then left + 1 else left

def sampleAt (inData : List Int16) (i : ℕ) : ℤ := (inData.getD i 0).toInt

/-- Phase `p` between the samples `i` and `i + 1`, by the coefficients. -/
def phaseOutput (coeffs : List (List ℤ)) (inData : List Int16) (i p : ℕ) : LinearOutput :=
  let row := coeffs.getD p []
  let x0 := sampleAt inData i
  let x1 := sampleAt inData (neighbour inData.length i)
  let acc := wrapInt32 (wrapInt32 (x0 * row.getD 0 0) + wrapInt32 (x1 * row.getD 1 0))
  ⟨Int16.ofInt (acc / 2 ^ 15), i, neighbour inData.length i⟩

/-- One output of the general interpolation. -/
def interpolated (inData : List Int16) (posFp : ℕ) : LinearOutput :=
  let idx := posFp / 2 ^ 32
  let frac : ℕ := posFp / 2 ^ 16 % 2 ^ 16
  let x0 := sampleAt inData idx
  let x1 := sampleAt inData (neighbour inData.length idx)
  let res := x0 + wrapInt32 ((x1 - x0) * frac) / 2 ^ 16
  ⟨Int16.ofInt res, idx, neighbour inData.length idx⟩

/-- Its loop; `pos_fp` is a `uint64_t`. -/
def interpolatedFrom (inData : List Int16) (stepFp : ℕ) : ℕ → ℕ → List LinearOutput
  | 0, _ => []
  | n + 1, posFp =>
      interpolated inData posFp :: interpolatedFrom inData stepFp n ((posFp + stepFp) % 2 ^ 64)

/-- `resample_l16`: the value returned and what is written to `out_data`. -/
def resampleL16 (r : Resampler) (inRate outRate : UInt32) (inData : List Int16)
    (outCapacity : ℕ) : ℕ × List LinearOutput :=
  if inRate = outRate then
    let samples := if inData.length < outCapacity then inData.length else outCapacity
    (samples, (List.range samples).map fun i => ⟨inData.getD i 0, i, i⟩)
  else
    let outSamples := inData.length * outRate.toNat % 2 ^ 64 / inRate.toNat
    if outSamples > outCapacity then (0, [])
    else if r.coeffs ≠ [] ∧ outRate % inRate = 0 then
      (outSamples, (List.range inData.length).flatMap fun i =>
        (List.range r.phases).map (phaseOutput r.coeffs inData i))
    else
      (outSamples, interpolatedFrom inData (inRate.toNat * 2 ^ 32 / outRate.toNat) outSamples 0)

/-! ### Between the neighbours -/

/-- The sample lies, up to one unit, between the two it was computed from. -/
def LinearOutput.Between (inData : List Int16) (w : LinearOutput) : Prop :=
  min (sampleAt inData w.left) (sampleAt inData w.right) - 1 ≤ w.out.toInt ∧
    w.out.toInt ≤ max (sampleAt inData w.left) (sampleAt inData w.right) + 1

/-- Both are samples of the chunk, and next to each other. -/
def LinearOutput.Inside (inData : List Int16) (w : LinearOutput) : Prop :=
  w.left < inData.length ∧ w.right < inData.length ∧
    (w.right = w.left + 1 ∨ w.right = w.left ∧ w.left + 1 = inData.length)

theorem neighbour_inside {inData : List Int16} {i : ℕ} (h : i < inData.length) (out : Int16) :
    LinearOutput.Inside inData ⟨out, i, neighbour inData.length i⟩ := by
  unfold LinearOutput.Inside neighbour
  dsimp only
  split_ifs <;> omega

theorem sampleAt_bounds (inData : List Int16) (i : ℕ) :
    -2 ^ 15 ≤ sampleAt inData i ∧ sampleAt inData i < 2 ^ 15 :=
  ⟨Int16.le_toInt _, Int16.toInt_lt _⟩

theorem wrapInt32_of_mem {x : ℤ} (h₁ : -2 ^ 31 ≤ x) (h₂ : x < 2 ^ 31) : wrapInt32 x = x := by
  apply Int.bmod_eq_of_le
  · norm_num at h₁ ⊢
    omega
  · norm_num at h₂ ⊢
    omega

/-- A wrapped product, shifted and converted to 16 bits, is the product that did not wrap. -/
theorem interpolated_wrap (x y : ℤ) :
    Int16.ofInt (x + wrapInt32 y / 2 ^ 16) = Int16.ofInt (x + y / 2 ^ 16) := by
  have hwrap : wrapInt32 y + 2 ^ 32 * y.bdiv (2 ^ 32) = y := Int.bmod_add_bdiv y (2 ^ 32)
  have hdiv : y / 2 ^ 16 = wrapInt32 y / 2 ^ 16 + 2 ^ 16 * y.bdiv (2 ^ 32) := by omega
  apply Int16.toInt_inj.mp
  rw [Int16.toInt_ofInt, Int16.toInt_ofInt, hdiv, ← add_assoc]
  exact (Int.add_mul_bmod_self_left _ (2 ^ 16) _).symm

/-- A fraction of the way from `x` to `y`. -/
theorem fraction_between (x y : ℤ) {frac : ℕ} (h : frac < 2 ^ 16) :
    min x y ≤ x + (y - x) * frac / 2 ^ 16 ∧ x + (y - x) * frac / 2 ^ 16 ≤ max x y := by
  have hfrac : (frac : ℤ) ≤ 2 ^ 16 := by omega
  rcases le_total x y with hxy | hxy
  · have h₀ : 0 ≤ (y - x) * frac := mul_nonneg (by omega) (Int.natCast_nonneg _)
    have h₁ : (y - x) * frac ≤ (y - x) * 2 ^ 16 := mul_le_mul_of_nonneg_left hfrac (by omega)
    rw [min_eq_left hxy, max_eq_right hxy]
    omega
  · have h₀ : (y - x) * frac ≤ 0 :=
      mul_nonpos_of_nonpos_of_nonneg (by omega) (Int.natCast_nonneg _)
    have h₁ : (y - x) * 2 ^ 16 ≤ (y - x) * frac := mul_le_mul_of_nonpos_left hfrac (by omega)
    rw [min_eq_right hxy, max_eq_left hxy]
    omega

theorem interpolated_between (inData : List Int16) (posFp : ℕ) :
    (interpolated inData posFp).Between inData := by
  unfold interpolated LinearOutput.Between
  dsimp only
  obtain ⟨hx₀, hx₁⟩ := sampleAt_bounds inData (posFp / 2 ^ 32)
  obtain ⟨hy₀, hy₁⟩ := sampleAt_bounds inData (neighbour inData.length (posFp / 2 ^ 32))
  generalize sampleAt inData (posFp / 2 ^ 32) = x at *
  generalize sampleAt inData (neighbour inData.length (posFp / 2 ^ 32)) = y at *
  obtain ⟨h₀, h₁⟩ := fraction_between x y (Nat.mod_lt (posFp / 2 ^ 16) (show 2 ^ 16 > 0 by decide))
  rw [interpolated_wrap, Int16.toInt_ofInt_of_le (by omega) (by omega)]
  omega

/-! ### The table -/

/-- A row weighs the two samples with coefficients that add up to one, up to its last bit. -/
structure TableRow (row : List ℤ) : Prop where
  left : 0 ≤ row.getD 0 0
  right : 0 ≤ row.getD 1 0
  sum : row.getD 0 0 + row.getD 1 0 = 32767 ∨ row.getD 0 0 + row.getD 1 0 = 32768

instance TableRow.decidable (row : List ℤ) : Decidable (TableRow row) :=
  decidable_of_iff (0 ≤ row.getD 0 0 ∧ 0 ≤ row.getD 1 0 ∧
      (row.getD 0 0 + row.getD 1 0 = 32767 ∨ row.getD 0 0 + row.getD 1 0 = 32768))
    ⟨fun ⟨h₁, h₂, h₃⟩ => ⟨h₁, h₂, h₃⟩, fun ⟨h₁, h₂, h₃⟩ => ⟨h₁, h₂, h₃⟩⟩

theorem phaseOutput_between {coeffs : List (List ℤ)} {p : ℕ} (hrow : TableRow (coeffs.getD p []))
    (inData : List Int16) (i : ℕ) : (phaseOutput coeffs inData i p).Between inData := by
  obtain ⟨hc₀, hc₁, hsum⟩ := hrow
  unfold phaseOutput LinearOutput.Between
  dsimp only
  obtain ⟨hx₀, hx₁⟩ := sampleAt_bounds inData i
  obtain ⟨hy₀, hy₁⟩ := sampleAt_bounds inData (neighbour inData.length i)
  generalize sampleAt inData i = x at *
  generalize sampleAt inData (neighbour inData.length i) = y at *
  generalize (coeffs.getD p []).getD 0 0 = c₀ at *
  generalize (coeffs.getD p []).getD 1 0 = c₁ at *
  -- the sum lies between the smaller and the larger sample, weighed by both coefficients
  have hlo : ∀ m, m ≤ x → m ≤ y → m * c₀ + m * c₁ ≤ x * c₀ + y * c₁ := fun m hx hy =>
    add_le_add (mul_le_mul_of_nonneg_right hx hc₀) (mul_le_mul_of_nonneg_right hy hc₁)
  have hhi : ∀ m, x ≤ m → y ≤ m → x * c₀ + y * c₁ ≤ m * c₀ + m * c₁ := fun m hx hy =>
    add_le_add (mul_le_mul_of_nonneg_right hx hc₀) (mul_le_mul_of_nonneg_right hy hc₁)
  have hterm : ∀ z c : ℤ, -2 ^ 15 ≤ z → z < 2 ^ 15 → 0 ≤ c → c ≤ 2 ^ 15 →
      -2 ^ 30 ≤ z * c ∧ z * c ≤ 2 ^ 30 := by
    intro z c hz₀ hz₁ hc hc'
    constructor <;> nlinarith
  obtain ⟨hp₀, hp₁⟩ := hterm x c₀ hx₀ hx₁ hc₀ (by omega)
  obtain ⟨hq₀, hq₁⟩ := hterm y c₁ hy₀ hy₁ hc₁ (by omega)
  have hmin := hlo (min x y) (min_le_left x y) (min_le_right x y)
  have hmax := hhi (max x y) (le_max_left x y) (le_max_right x y)
  rw [← mul_add] at hmin hmax
  have hm₀ : -2 ^ 15 ≤ min x y := le_min hx₀ hy₀
  have hm₁ : max x y < 2 ^ 15 := max_lt hx₁ hy₁
  generalize min x y = lo at *
  generalize max x y = hi at *
  generalize x * c₀ = u at *
  generalize y * c₁ = v at *
  have hacc : -2 ^ 30 ≤ u + v ∧ u + v ≤ 32767 * 2 ^ 15 := by
    rcases hsum with h | h <;> rw [h] at hmin hmax <;> omega
  have hu : wrapInt32 u = u := wrapInt32_of_mem (by omega) (by omega)
  have hv : wrapInt32 v = v := wrapInt32_of_mem (by omega) (by omega)
  rw [hu, hv, wrapInt32_of_mem (by omega) (by omega),
    Int16.toInt_ofInt_of_le (by omega) (by omega)]
  rcases hsum with h | h <;> rw [h] at hmin hmax <;> omega

/-- The coefficients `resampler_init` chooses belong to the ratio of the rates. -/
theorem resamplerInit_table {H Φ : Type} {E : Env H Φ} {inRate outRate : UInt32} {r : Resampler}
    (h : resamplerInit E inRate outRate = some r) (hc : r.coeffs ≠ []) :
    outRate.toNat = r.phases * inRate.toNat ∧ ∀ p < r.phases, TableRow (r.coeffs.getD p []) := by
  unfold resamplerInit at h
  dsimp only at h
  split_ifs at h with hsup h₈ h₁₆ h₂₄
  · obtain rfl := Option.some.inj h
    obtain ⟨rfl, rfl⟩ := h₈
    show UInt32.toNat 48000 = 6 * UInt32.toNat 8000 ∧ ∀ p < 6, TableRow (coeffs8To48.getD p [])
    decide
  · obtain rfl := Option.some.inj h
    obtain ⟨rfl, rfl⟩ := h₁₆
    show UInt32.toNat 48000 = 3 * UInt32.toNat 16000 ∧ ∀ p < 3, TableRow (coeffs16To48.getD p [])
    decide
  · obtain rfl := Option.some.inj h
    obtain ⟨rfl, rfl⟩ := h₂₄
    show UInt32.toNat 48000 = 2 * UInt32.toNat 24000 ∧ ∀ p < 2, TableRow (coeffs24To48.getD p [])
    decide
  · obtain rfl := Option.some.inj h
    exact absurd rfl hc

/-! ### The general path -/

/-- The positions the loop visits. -/
theorem interpolatedFrom_eq (inData : List Int16) (stepFp n : ℕ) {posFp : ℕ}
    (h : posFp < 2 ^ 64) :
    interpolatedFrom inData stepFp n posFp =
      (List.range n).map fun i => interpolated inData ((posFp + i * stepFp) % 2 ^ 64) := by
  induction n generalizing posFp with
  | zero => rfl
  | succ n ih =>
      rw [interpolatedFrom, ih (Nat.mod_lt _ (by norm_num)), List.range_succ_eq_map,
        List.map_cons, List.map_map, Nat.zero_mul, Nat.add_zero, Nat.mod_eq_of_lt h]
      congr 1
      apply List.map_congr_left
      intro i _
      rw [Function.comp_apply, Nat.mod_add_mod, Nat.succ_mul, Nat.add_comm (i * stepFp),
        ← Nat.add_assoc]

/-- A position is inside the chunk: before it wraps because the step is rounded down, and afterwards
because only a longer chunk makes it wrap. -/
theorem position_inside {a b L i : ℕ} (ha : 0 < a) (hi : i < L * b / a) :
    i * (a * 2 ^ 32 / b) % 2 ^ 64 / 2 ^ 32 < L := by
  rcases lt_or_ge L (2 ^ 32) with hL | hL
  · have hlt : i * (a * 2 ^ 32 / b) < L * 2 ^ 32 := by
      apply step_lt
      have hle : (i + 1) * a ≤ L * b := (Nat.le_div_iff_mul_le ha).mp hi
      rw [Nat.succ_mul] at hle
      omega
    rw [Nat.mod_eq_of_lt (by omega)]
    omega
  · have hlt := Nat.mod_lt (i * (a * 2 ^ 32 / b)) (show 2 ^ 64 > 0 by norm_num)
    omega

/-! ### The chunk -/

/-- The bytes an x86-64 virtual address reaches. -/
def addressSpace : ℕ := 2 ^ 48

/-- The value returned, the samples written, and what each of them was computed from. -/
structure LinearResult (inRate outRate : UInt32) (inData : List Int16)
    (result : ℕ × List LinearOutput) : Prop where
  count : result.1 = inData.length * outRate.toNat / inRate.toNat
  written : result.2.length = result.1
  inside : ∀ w ∈ result.2, w.Inside inData
  between : ∀ w ∈ result.2, w.Between inData

/-- **Linear resampling stays between its neighbours.**  The chunk is in memory, so its bytes have
addresses. -/
theorem linear_stays_between {H Φ : Type} {E : Env H Φ} {inRate outRate : UInt32} {r : Resampler}
    (hinit : resamplerInit E inRate outRate = some r) (hne : inRate ≠ outRate)
    {inData : List Int16} (haddr : 2 * inData.length ≤ addressSpace) {outCapacity : ℕ}
    (hcap : inData.length * outRate.toNat / inRate.toNat ≤ outCapacity) :
    LinearResult inRate outRate inData (resampleL16 r inRate outRate inData outCapacity) := by
  obtain ⟨hin, hout⟩ := resamplerInit_supported hinit
  obtain ⟨hi₀, hi₁⟩ := isRateSupported_bounds hin
  obtain ⟨ho₀, ho₁⟩ := isRateSupported_bounds hout
  have hproduct : inData.length * outRate.toNat < 2 ^ 64 := by
    unfold addressSpace at haddr
    calc inData.length * outRate.toNat ≤ 2 ^ 47 * 48000 := Nat.mul_le_mul (by omega) ho₁
      _ < 2 ^ 64 := by norm_num
  unfold resampleL16
  rw [if_neg hne]
  dsimp only
  rw [Nat.mod_eq_of_lt hproduct, if_neg (by omega)]
  by_cases htable : r.coeffs ≠ [] ∧ outRate % inRate = 0
  · rw [if_pos htable]
    obtain ⟨hratio, hrows⟩ := resamplerInit_table hinit htable.1
    have hmem : ∀ w ∈ (List.range inData.length).flatMap fun i =>
        (List.range r.phases).map (phaseOutput r.coeffs inData i),
        ∃ i < inData.length, ∃ p < r.phases, w = phaseOutput r.coeffs inData i p := by
      intro w hw
      obtain ⟨i, hi, hw⟩ := List.mem_flatMap.mp hw
      obtain ⟨p, hp, rfl⟩ := List.mem_map.mp hw
      exact ⟨i, List.mem_range.mp hi, p, List.mem_range.mp hp, rfl⟩
    refine ⟨rfl, ?_, ?_, ?_⟩
    · dsimp only
      rw [hratio, ← Nat.mul_assoc, Nat.mul_div_cancel _ (by omega)]
      simp [List.length_flatMap]
    · intro w hw
      obtain ⟨i, hi, p, -, rfl⟩ := hmem w hw
      exact neighbour_inside hi _
    · intro w hw
      obtain ⟨i, -, p, hp, rfl⟩ := hmem w hw
      exact phaseOutput_between (hrows p hp) inData i
  · rw [if_neg htable, interpolatedFrom_eq _ _ _ (by norm_num)]
    refine ⟨rfl, by rw [List.length_map, List.length_range], ?_, ?_⟩
    · intro w hw
      obtain ⟨i, hi, rfl⟩ := List.mem_map.mp hw
      rw [Nat.zero_add]
      apply neighbour_inside
      exact position_inside (by omega) (List.mem_range.mp hi)
    · intro w hw
      obtain ⟨i, -, rfl⟩ := List.mem_map.mp hw
      exact interpolated_between inData _

/-- A loud transient from 44.1 kHz to 48 kHz: the product wraps, the samples do not. -/
theorem linear_stays_between_transient :
    ∃ r, resamplerInit Env.plain 44100 48000 = some r ∧
      LinearResult 44100 48000 [-32768, 32767, -32768, 32767]
        (resampleL16 r 44100 48000 [-32768, 32767, -32768, 32767] 4) := by
  obtain ⟨r, hr⟩ : ∃ r, resamplerInit Env.plain 44100 48000 = some r :=
    Option.isSome_iff_exists.mp (by decide +kernel)
  exact ⟨r, hr, linear_stays_between hr (by decide) (by decide) (by decide)⟩

end MachAudio
