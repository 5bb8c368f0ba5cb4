import Mathlib.Algebra.BigOperators.Group.Finset.Basic
import Mathlib.Algebra.Order.Floor.Ring
import Mathlib.Data.Int.ConditionallyCompleteOrder
import Mathlib.Data.Int.Interval
import Mathlib.Tactic.Linarith
import Mathlib.Tactic.Abel
import MachAudio.ResamplerLock

/-! # The stretched kernel of the downsampling path

Downsampling weights an input sample `k` around the output position `t` with an entry of the
sinc table that both loops look up at `(t - k) / s + 63`, `s` being the input rate over the
output rate: the integer part is the tap, the fraction the phase (`tapAt`).

The scalar loop visits the indices of one output, the AVX2 kernel those of eight at once,
with the tap shifted by the lane.  What the kernel visits beyond the scalar loop has the taps
126 and 127 or none, so with these columns zero the accumulators agree
(`kernel_agrees_with_scalar`).

The upsampling path reads the phase the other way: `SINC_COEFFS[p][j]` is the weight at the
distance `j - 63 - p / 1024`.  `downsampler_represents_iff` says for which samples the
downsampling path means the same by it. -/

namespace MachAudio

open Simd

variable {H Φ : Type} (E : Env H Φ)

/-! ### Which entries the loops use -/

/-- An input index and the table entry it is weighted by. -/
structure Tap where
  index : ℤ
  phase : ℕ
  tap : ℤ
deriving DecidableEq, Repr

/-- The scalar loop's weights for the output at `posFp`. -/
def scalarTaps (s invS : ℚ) (posFp : ℤ) : List Tap :=
  let t := E.double ((posFp / 2 ^ 32 : ℤ) + fracOf E posFp)
  let kMin := ⌈E.double (t - E.double (s * centerOff))⌉
  let kMax := ⌊E.double (t + E.double (s * (sincTaps - 1 - centerOff)))⌋
  let valIdx (k : ℤ) := E.double (E.double (E.double (t - k) * invS) + centerOff)
  let ks := (indexRange kMin kMax).filter fun k => 0 ≤ ⌊valIdx k⌋ ∧ ⌊valIdx k⌋ < sincTaps
  ks.map fun k =>
    let p := truncate (E.double (E.double (valIdx k - ⌊valIdx k⌋) * sincPhases))
    ⟨k, if p ≥ sincPhases then sincPhases - 1 else p.toNat, ⌊valIdx k⌋⟩

/-- What lane `m` of the AVX2 kernel looks up for every index it visits at `posFp`; a tap
outside the table weighs nothing. -/
def laneTaps (ratio : ℚ) (posFp : ℤ) (m : ℕ) : List Tap :=
  let s := E.double (1 / ratio)
  let t0 := E.double ((posFp / 2 ^ 32 : ℤ) + fracOf E posFp)
  let t7 := E.double (t0 + E.double (7 * s))
  let kMinAll := ⌈E.double (t0 - E.double (s * centerOff))⌉
  let kMaxAll := ⌊E.double (t7 + E.double (s * (sincTaps - 1 - centerOff)))⌋
  (indexRange kMinAll kMaxAll).map fun (k : ℤ) =>
    let valIdx0 := E.double (E.double (E.double (t0 - k) * ratio) + centerOff)
    let p := truncate (E.double (E.double (valIdx0 - ⌊valIdx0⌋) * sincPhases))
    ⟨k, if p ≥ sincPhases then sincPhases - 1 else if p < 0 then 0 else p.toNat, ⌊valIdx0⌋ + m⟩

/-- The entry is in the table. -/
def Tap.Inside (w : Tap) : Prop := 0 ≤ w.tap ∧ w.tap < sincTaps

instance (w : Tap) : Decidable w.Inside := inferInstanceAs (Decidable (_ ∧ _))

/-- The weight of a look-up. -/
def Tap.weight (w : Tap) : ℤ := if w.Inside then E.sincCoeffs w.phase w.tap.toNat else 0

section
variable (r : Resampler) (inData : List Int16)

/-- `dacc` of the scalar loop. -/
def scalarAcc (s invS : ℚ) (posFp : ℤ) : ℚ :=
  (scalarTaps E s invS posFp).foldl (fun (dacc : ℚ) (w : Tap) =>
    E.double (dacc + E.double ((tapSample E r inData w.index).toInt *
      E.sincCoeffs w.phase w.tap.toNat))) 0

/-- Lane `m` of `v_acc`. -/
def laneAcc (ratio : ℚ) (posFp : ℤ) (m : ℕ) : ℚ :=
  (laneTaps E ratio posFp m).foldl (fun (acc : ℚ) (w : Tap) =>
    E.single ((tapSample E r inData w.index).toInt * w.weight E + acc)) 0

/-- The scalar loop stores its accumulator. -/
theorem downsample_eq (ratio s invS : ℚ) (posFp : ℤ) :
    (downsample E ratio s invS r inData posFp).1 =
      [clampToInt16 (E.double (E.double (scalarAcc E r inData s invS posFp / 32767) * ratio))] := by
  unfold downsample scalarAcc scalarTaps
  simp only [List.foldl_map]

/-- Lane `m` of `v_out32`. -/
def laneOut (ratio : ℚ) (posFp : ℤ) (m : ℕ) : ℤ :=
  roundHalfEven (E.single (laneAcc E r inData ratio posFp m * E.single (E.single ratio / 32767)))

/-- The kernel stores its eight accumulators. -/
theorem downsample8_eq (ratio : ℚ) (posFp : ℤ) :
    (downsample8 E ratio r inData posFp).1 =
      ((List.range 8).map (laneOut E r inData ratio posFp)).map saturate16 := by
  unfold downsample8 laneOut laneAcc laneTaps Tap.weight Tap.Inside
  simp only [List.foldl_map]
  rfl

end

/-- The packing, the permutation by `_MM_SHUFFLE(3, 2, 2, 0)` and the store of the low half. -/
def storeLanes (v : List ℤ) : List Int16 := (permute4x64 (packsEpi32 v v) 0 2 2 3).take 8

/-- The eight lanes are stored in their order. -/
theorem storeLanes_eq {v : List ℤ} (hv : v.length = 8) : storeLanes v = v.map saturate16 := by
  match v, hv with
  | [_, _, _, _, _, _, _, _], _ => rfl

/-! ### The entries in exact arithmetic -/

/-- The output time of a position, in input samples. -/
def outputTime (posFp : ℤ) : ℚ := (posFp : ℚ) / 2 ^ 32

/-- The look-up for the index `k` around the time `t` with the stretch `s`. -/
def tapAt (s t : ℚ) (k : ℤ) : Tap :=
  let val := (t - k) / s + centerOff
  ⟨k, ⌊Int.fract val * sincPhases⌋.toNat, ⌊val⌋⟩

/-- The conversion of a fraction to a phase never meets its bounds. -/
theorem phase_exact (v : ℚ) :
    truncate (Int.fract v * sincPhases) = ⌊Int.fract v * sincPhases⌋ ∧
      0 ≤ ⌊Int.fract v * sincPhases⌋ ∧ ⌊Int.fract v * sincPhases⌋ < sincPhases := by
  have h0 : 0 ≤ Int.fract v * sincPhases := mul_nonneg (Int.fract_nonneg v) (by positivity)
  refine ⟨if_pos h0, Int.floor_nonneg.mpr h0, Int.floor_lt.mpr ?_⟩
  have h1 : Int.fract v * sincPhases < 1 * sincPhases :=
    mul_lt_mul_of_pos_right (Int.fract_lt_one v) (by norm_num [sincPhases])
  rw [one_mul] at h1
  exact_mod_cast h1

section exact
variable {E} (hE : E.Exact) {s : ℚ} (hs : 0 < s) (posFp : ℤ)

include hE

theorem scalarTaps_exact :
    scalarTaps E s (1 / s) posFp =
      ((indexRange ⌈outputTime posFp - s * 63⌉ ⌊outputTime posFp + s * 64⌋).map
        (tapAt s (outputTime posFp))).filter (·.Inside) := by
  unfold scalarTaps
  rw [position_exact hE]
  simp only [hE.double]
  rw [List.filter_map]
  have hval : ∀ k : ℤ, ((posFp : ℚ) / 2 ^ 32 - k) * (1 / s) + centerOff =
      (outputTime posFp - k) / s + centerOff := fun k => by rw [mul_one_div, outputTime]
  have htaps : (sincTaps : ℚ) - 1 - (centerOff : ℤ) = 64 := by norm_num [sincTaps, centerOff]
  simp only [hval, htaps]
  refine congrArg₂ _ (funext fun k => ?_) rfl
  obtain ⟨h₁, -, h₂⟩ := phase_exact ((outputTime posFp - k) / s + centerOff)
  have hfract : (outputTime posFp - k) / s + (centerOff : ℤ) -
      ⌊(outputTime posFp - k) / s + (centerOff : ℤ)⌋ =
        Int.fract ((outputTime posFp - k) / s + (centerOff : ℤ)) := rfl
  rw [hfract, h₁, if_neg (by omega)]
  rfl

include hs in
theorem laneTaps_exact (m : ℕ) :
    laneTaps E (1 / s) posFp m =
      (indexRange ⌈outputTime posFp - s * 63⌉ ⌊outputTime posFp + 7 * s + s * 64⌋).map
        (tapAt s (outputTime posFp + m * s)) := by
  unfold laneTaps
  rw [position_exact hE]
  simp only [hE.double, one_div_one_div]
  have hval : ∀ k : ℤ, (outputTime posFp + m * s - k) / s + (centerOff : ℤ) =
      ((posFp : ℚ) / 2 ^ 32 - k) * (1 / s) + (centerOff : ℤ) + m := by
    intro k
    rw [outputTime]
    field_simp
    ring
  have htaps : (sincTaps : ℚ) - 1 - (centerOff : ℤ) = 64 := by norm_num [sincTaps, centerOff]
  rw [htaps]
  refine congrArg₂ _ (funext fun k => ?_) rfl
  obtain ⟨h₁, h₀, h₂⟩ := phase_exact (((posFp : ℚ) / 2 ^ 32 - k) * (1 / s) + (centerOff : ℤ))
  have hfract : ((posFp : ℚ) / 2 ^ 32 - k) * (1 / s) + (centerOff : ℤ) -
      ⌊((posFp : ℚ) / 2 ^ 32 - k) * (1 / s) + (centerOff : ℤ)⌋ =
        Int.fract (((posFp : ℚ) / 2 ^ 32 - k) * (1 / s) + (centerOff : ℤ)) := rfl
  rw [hfract, h₁, if_neg (by omega), if_neg (by omega), tapAt]
  simp only [hval, Int.fract_add_natCast, Int.floor_add_natCast]

end exact

/-! ### The accumulators as sums -/

theorem foldl_add_eq_sum {α : Type} (g : α → ℚ) (l : List α) (acc : ℚ) :
    l.foldl (fun acc w => acc + g w) acc = acc + (l.map g).sum := by
  induction l generalizing acc with
  | nil => simp
  | cons w l ih => rw [List.foldl_cons, ih, List.map_cons, List.sum_cons, add_assoc]

/-- What is left out by a filter may as well count nothing. -/
theorem sum_map_filter {α : Type} (p : α → Bool) (g : α → ℚ) (l : List α) :
    ((l.filter p).map g).sum = (l.map fun w => if p w then g w else 0).sum := by
  induction l with
  | nil => rfl
  | cons w l ih =>
      cases hp : p w with
      | true => simp [hp, ih]
      | false => simp [hp, ih]

theorem mem_indexRange {lo hi k : ℤ} : k ∈ indexRange lo hi ↔ lo ≤ k ∧ k ≤ hi := by
  unfold indexRange
  constructor
  · intro h
    obtain ⟨i, hi, rfl⟩ := List.mem_map.mp h
    have := List.mem_range.mp hi
    omega
  · rintro ⟨h₁, h₂⟩
    refine List.mem_map.mpr ⟨(k - lo).toNat, List.mem_range.mpr (by omega), by omega⟩

theorem sum_indexRange (lo hi : ℤ) (g : ℤ → ℚ) :
    ((indexRange lo hi).map g).sum = ∑ k ∈ Finset.Icc lo hi, g k := by
  have hnodup : (indexRange lo hi).Nodup := by
    unfold indexRange
    refine List.Nodup.map (fun i j h => ?_) List.nodup_range
    simpa using h
  have hmem : (indexRange lo hi).toFinset = Finset.Icc lo hi := by
    ext k
    rw [List.mem_toFinset, mem_indexRange, Finset.mem_Icc]
  rw [← hmem, List.sum_toFinset g hnodup]

section sums
variable {E} (hE : E.Exact) (r : Resampler) (inData : List Int16) {s : ℚ} (posFp : ℤ)

include hE

theorem scalarAcc_exact :
    scalarAcc E r inData s (1 / s) posFp =
      ∑ k ∈ Finset.Icc ⌈outputTime posFp - s * 63⌉ ⌊outputTime posFp + s * 64⌋,
        ((tapSample E r inData k).toInt : ℚ) * (tapAt s (outputTime posFp) k).weight E := by
  unfold scalarAcc
  simp only [hE.double]
  rw [foldl_add_eq_sum, zero_add, scalarTaps_exact hE, sum_map_filter, List.map_map,
    ← sum_indexRange]
  refine congrArg List.sum (List.map_congr_left fun k _ => ?_)
  unfold Tap.weight
  by_cases h : (tapAt s (outputTime posFp) k).Inside
  · simp only [Function.comp_apply, h, decide_true, if_true]
    rfl
  · simp only [Function.comp_apply, h, decide_false, Bool.false_eq_true, if_false, Int.cast_zero,
      mul_zero]

theorem laneAcc_exact (hs : 0 < s) (m : ℕ) :
    laneAcc E r inData (1 / s) posFp m =
      ∑ k ∈ Finset.Icc ⌈outputTime posFp - s * 63⌉ ⌊outputTime posFp + 7 * s + s * 64⌋,
        ((tapSample E r inData k).toInt : ℚ) *
          (tapAt s (outputTime posFp + m * s) k).weight E := by
  unfold laneAcc
  simp only [hE.single, add_comm _ (_ : ℚ)]
  rw [foldl_add_eq_sum, zero_add, laneTaps_exact hE hs, List.map_map, ← sum_indexRange]
  rfl

end sums

/-! ### The two paths agree -/

/-- The last two columns of the table are zero. -/
def EndsInZeros : Prop := ∀ p < sincPhases, E.sincCoeffs p 126 = 0 ∧ E.sincCoeffs p 127 = 0

theorem phase_tapAt_lt (s t : ℚ) (k : ℤ) : (tapAt s t k).phase < sincPhases := by
  obtain ⟨-, h₀, h₁⟩ := phase_exact ((t - k) / s + (centerOff : ℤ))
  unfold tapAt
  dsimp only
  omega

/-- An index that is not visited for the output at `t` weighs nothing. -/
theorem weight_eq_zero (hcols : EndsInZeros E) {s t : ℚ} (hs : 0 < s) {k : ℤ}
    (hk : ¬(⌈t - s * 63⌉ ≤ k ∧ k ≤ ⌊t + s * 64⌋)) : (tapAt s t k).weight E = 0 := by
  unfold Tap.weight
  by_cases hin : (tapAt s t k).Inside
  · rw [if_pos hin]
    obtain ⟨h₀, h₁⟩ := hin
    have hcol : (tapAt s t k).tap = 126 ∨ (tapAt s t k).tap = 127 := by
      by_contra hno
      have h126 : (tapAt s t k).tap < 126 := by
        simp only [sincTaps, Nat.cast_ofNat] at h₁
        omega
      unfold tapAt at h₀ h126
      dsimp only [centerOff] at h₀ h126
      -- the look-up is between 0 and 126, so `k` is between `t - 63 s` and `t + 63 s`
      have hlo : (0 : ℚ) ≤ (t - k) / s + (63 : ℤ) := by exact_mod_cast Int.le_floor.mp h₀
      have hhi : (t - k) / s + (63 : ℤ) < 126 := by exact_mod_cast Int.floor_lt.mp h126
      push_cast at hlo hhi
      have h₂ : (t - k) / s < 63 := by linarith
      have h₃ : -63 ≤ (t - k) / s := by linarith
      rw [div_lt_iff₀ hs] at h₂
      rw [le_div_iff₀ hs] at h₃
      exact hk ⟨Int.ceil_le.mpr (by linarith), Int.le_floor.mpr (by linarith)⟩
    have hp := hcols _ (phase_tapAt_lt s t k)
    rcases hcol with h | h
    · rw [h]
      exact hp.1
    · rw [h]
      exact hp.2
  · rw [if_neg hin]

/-- **One lane and one turn of the scalar loop for the same output time.** -/
theorem laneAcc_eq_scalarAcc {E : Env H Φ} (hE : E.Exact) (hcols : EndsInZeros E) (r : Resampler)
    (inData : List Int16) {s : ℚ} (hs : 0 < s) {posFp p : ℤ} {m : ℕ} (hm : m < 8)
    (hp : outputTime p = outputTime posFp + m * s) :
    laneAcc E r inData (1 / s) posFp m = scalarAcc E r inData s (1 / s) p := by
  rw [laneAcc_exact hE r inData posFp hs, scalarAcc_exact hE r inData p, hp]
  symm
  apply Finset.sum_subset
  · have h₀ : (0 : ℚ) ≤ m * s := by positivity
    have h₇ : (m : ℚ) * s ≤ 7 * s :=
      mul_le_mul_of_nonneg_right (by exact_mod_cast Nat.le_of_lt_succ hm) (le_of_lt hs)
    exact Finset.Icc_subset_Icc (Int.ceil_mono (by linarith)) (Int.floor_mono (by linarith))
  · intro k _ hk
    rw [weight_eq_zero E hcols hs (by rwa [Finset.mem_Icc] at hk), Int.cast_zero, mul_zero]

/-! ### Rounding -/

theorem roundHalfAway_mem (q : ℚ) : ⌊q⌋ ≤ roundHalfAway q ∧ roundHalfAway q ≤ ⌊q⌋ + 1 := by
  have h₁ := Int.floor_le q
  have h₂ := Int.lt_floor_add_one q
  unfold roundHalfAway
  split_ifs
  · exact ⟨Int.floor_mono (by linarith), Int.floor_le_iff.mpr (by push_cast; linarith)⟩
  · exact ⟨Int.le_ceil_iff.mpr (by linarith), Int.ceil_le.mpr (by push_cast; linarith)⟩

theorem roundHalfEven_mem (q : ℚ) : ⌊q⌋ ≤ roundHalfEven q ∧ roundHalfEven q ≤ ⌊q⌋ + 1 := by
  unfold roundHalfEven
  split_ifs <;> omega

theorem clampToInt16_eq (q : ℚ) : clampToInt16 q = saturate16 (roundHalfAway q) := by
  unfold clampToInt16 saturate16
  dsimp only
  split_ifs with h₁ h₂
  · have h : max (-32768) (min 32767 (roundHalfAway q)) = 32767 := by omega
    rw [h]
    rfl
  · have h : max (-32768) (min 32767 (roundHalfAway q)) = -32768 := by omega
    rw [h]
    rfl
  · have h : max (-32768) (min 32767 (roundHalfAway q)) = roundHalfAway q := by omega
    rw [h]

/-- Samples at most 1 apart. -/
def CloseSamples (x y : Int16) : Prop := |x.toInt - y.toInt| ≤ 1

/-- The two roundings of one value. -/
theorem rounded_close (q : ℚ) :
    CloseSamples (saturate16 (roundHalfEven q)) (clampToInt16 q) := by
  unfold CloseSamples
  obtain ⟨h₁, h₂⟩ := roundHalfAway_mem q
  obtain ⟨h₃, h₄⟩ := roundHalfEven_mem q
  rw [clampToInt16_eq, toInt_saturate16, toInt_saturate16, abs_le]
  omega

/-! ### One block of the kernel -/

/-- `ratio`. -/
def rateRatio (inRate outRate : UInt32) : ℚ := E.double ((outRate.toNat : ℚ) / inRate.toNat)

/-- `s` when downsampling. -/
def stretch (inRate outRate : UInt32) : ℚ := E.double (1 / rateRatio E inRate outRate)

/-- `inv_s`. -/
def invStretch (inRate outRate : UInt32) : ℚ := E.double (1 / stretch E inRate outRate)

/-- The scalar loop of `resample_l16_advanced` when downsampling: `n` outputs from `posFp` on. -/
def scalarLoop (inRate outRate : UInt32) (r : Resampler) (inData : List Int16) (n : ℕ)
    (posFp : ℤ) : Produced :=
  produce (downsample E (rateRatio E inRate outRate) (stretch E inRate outRate)
    (invStretch E inRate outRate) r inData) (stepFp E inRate outRate) n posFp

/-- The kernel on `count` blocks of eight outputs from `posFp` on. -/
def kernelLoop (inRate outRate : UInt32) (r : Resampler) (inData : List Int16) (count : ℕ)
    (posFp : ℤ) : Produced :=
  macDownsampleAvx2 E { r with posFp := posFp } inData count (rateRatio E inRate outRate)
    (stepFp E inRate outRate)

theorem kernelLoop_eq (inRate outRate : UInt32) (r : Resampler) (inData : List Int16) (count : ℕ)
    (posFp : ℤ) :
    kernelLoop E inRate outRate r inData count posFp =
      produce (downsample8 E (rateRatio E inRate outRate) r inData) (8 * stepFp E inRate outRate)
        count posFp := rfl

section cut
variable (inRate outRate : UInt32) (r : Resampler) (inData : List Int16) (posFp : ℤ)

theorem scalarLoop_add (a b : ℕ) :
    (scalarLoop E inRate outRate r inData (a + b) posFp).out =
        (scalarLoop E inRate outRate r inData a posFp).out ++
          (scalarLoop E inRate outRate r inData b
            (scalarLoop E inRate outRate r inData a posFp).posFp).out ∧
      (scalarLoop E inRate outRate r inData (a + b) posFp).posFp =
        (scalarLoop E inRate outRate r inData b
          (scalarLoop E inRate outRate r inData a posFp).posFp).posFp := by
  unfold scalarLoop
  rw [produce_add]
  exact ⟨rfl, rfl⟩

theorem kernelLoop_add (a b : ℕ) :
    (kernelLoop E inRate outRate r inData (a + b) posFp).out =
        (kernelLoop E inRate outRate r inData a posFp).out ++
          (kernelLoop E inRate outRate r inData b
            (kernelLoop E inRate outRate r inData a posFp).posFp).out ∧
      (kernelLoop E inRate outRate r inData (a + b) posFp).posFp =
        (kernelLoop E inRate outRate r inData b
          (kernelLoop E inRate outRate r inData a posFp).posFp).posFp := by
  simp only [kernelLoop_eq]
  rw [produce_add]
  exact ⟨rfl, rfl⟩

end cut

/-- What `resample_l16_advanced` does when downsampling: the kernel on the whole blocks of eight,
the scalar loop on the rest. -/
theorem resampleLoop_downsampling (r : Resampler) {inRate outRate : UInt32}
    (h : ¬rateRatio E inRate outRate ≥ 1) (inData : List Int16) (n : ℕ) :
    resampleLoop E r inRate outRate inData n =
      let blocks := kernelLoop E inRate outRate r inData (n / 8) r.posFp
      let rest := scalarLoop E inRate outRate r inData (n % 8) blocks.posFp
      ⟨blocks.out ++ rest.out, blocks.history ++ rest.history, rest.posFp⟩ := by
  unfold resampleLoop
  exact if_neg h

/-- The kernel's block of eight outputs at `posFp` against eight turns of the scalar loop. -/
structure AgreesOnBlock (inRate outRate : UInt32) (r : Resampler) (inData : List Int16)
    (posFp : ℤ) : Prop where
  acc : ∀ m < 8, laneAcc E r inData (rateRatio E inRate outRate) posFp m =
    scalarAcc E r inData (stretch E inRate outRate) (invStretch E inRate outRate)
      (posFp + m * stepFp E inRate outRate)
  position : (kernelLoop E inRate outRate r inData 1 posFp).posFp =
    (scalarLoop E inRate outRate r inData 8 posFp).posFp
  stored : (kernelLoop E inRate outRate r inData 1 posFp).out =
    storeLanes ((List.range 8).map (laneOut E r inData (rateRatio E inRate outRate) posFp))
  order : ∀ m < 8, (kernelLoop E inRate outRate r inData 1 posFp).out[m]? =
    some (saturate16 (laneOut E r inData (rateRatio E inRate outRate) posFp m))
  close : List.Forall₂ CloseSamples (kernelLoop E inRate outRate r inData 1 posFp).out
    (scalarLoop E inRate outRate r inData 8 posFp).out

section agreement
variable {E} (hE : E.Exact) {inRate outRate : UInt32}

/-- The input rate over the output rate. -/
def rateStretch (inRate outRate : UInt32) : ℚ := (inRate.toNat : ℚ) / outRate.toNat

include hE in
theorem rates_exact (inRate outRate : UInt32) :
    rateRatio E inRate outRate = 1 / rateStretch inRate outRate ∧
      stretch E inRate outRate = rateStretch inRate outRate ∧
      invStretch E inRate outRate = 1 / rateStretch inRate outRate := by
  have h : rateRatio E inRate outRate = 1 / rateStretch inRate outRate := by
    rw [rateRatio, hE.double, rateStretch, one_div_div]
  have h' : stretch E inRate outRate = rateStretch inRate outRate := by
    rw [stretch, hE.double, h, one_div_one_div]
  exact ⟨h, h', by rw [invStretch, hE.double, h']⟩

theorem rateStretch_pos (hin : isRateSupported inRate = true)
    (hout : isRateSupported outRate = true) : 0 < rateStretch inRate outRate := by
  have hi := (isRateSupported_bounds hin).1
  have ho := (isRateSupported_bounds hout).1
  unfold rateStretch
  apply div_pos
  · exact_mod_cast show 0 < inRate.toNat by omega
  · exact_mod_cast show 0 < outRate.toNat by omega

include hE in
theorem stepFp_bounds (hin : isRateSupported inRate = true)
    (hout : isRateSupported outRate = true) :
    0 ≤ stepFp E inRate outRate ∧ stepFp E inRate outRate ≤ 6 * 2 ^ 32 := by
  have hi := (isRateSupported_bounds hin).2
  have ho := (isRateSupported_bounds hout).1
  rw [stepFp_exact hE]
  constructor
  · exact Int.natCast_nonneg _
  · have h : inRate.toNat * 2 ^ 32 / outRate.toNat ≤ 6 * 2 ^ 32 := by
      apply Nat.div_le_of_le_mul
      calc inRate.toNat * 2 ^ 32 ≤ (6 * outRate.toNat) * 2 ^ 32 := Nat.mul_le_mul_right _ (by omega)
        _ = outRate.toNat * (6 * 2 ^ 32) := by ring
    exact_mod_cast h

include hE in
/-- A step that is representable advances the time by the stretch. -/
theorem outputTime_step (hout : isRateSupported outRate = true)
    (hstep : outRate.toNat ∣ inRate.toNat * 2 ^ 32) (posFp : ℤ) (m : ℕ) :
    outputTime (posFp + m * stepFp E inRate outRate) =
      outputTime posFp + m * rateStretch inRate outRate := by
  have ho := (isRateSupported_bounds hout).1
  have hne : (outRate.toNat : ℚ) ≠ 0 := by
    have : outRate.toNat ≠ 0 := by omega
    exact_mod_cast this
  obtain ⟨q, hq⟩ := hstep
  have hqr : (inRate.toNat : ℚ) * 2 ^ 32 = outRate.toNat * q := by exact_mod_cast hq
  rw [stepFp_exact hE, hq, Nat.mul_div_cancel_left q (by omega), outputTime, outputTime,
    rateStretch]
  push_cast
  field_simp
  rw [mul_assoc (m : ℚ), mul_comm (2 ^ 32 : ℚ), hqr]
  ring

/-- A block whose positions fit 64 bits. -/
theorem agreesOnBlock (hE : E.Exact) (hcols : EndsInZeros E)
    (hin : isRateSupported inRate = true) (hout : isRateSupported outRate = true)
    (hstep : outRate.toNat ∣ inRate.toNat * 2 ^ 32) (r : Resampler) (inData : List Int16)
    {posFp : ℤ} (hlo : -2 ^ 63 ≤ posFp) (hhi : posFp + 8 * stepFp E inRate outRate < 2 ^ 63) :
    AgreesOnBlock E inRate outRate r inData posFp := by
  obtain ⟨hratio, hstretch, hinv⟩ := rates_exact hE inRate outRate
  obtain ⟨hstep₀, hstep₁⟩ := stepFp_bounds hE hin hout
  have hs := rateStretch_pos hin hout
  have hacc : ∀ m < 8, laneAcc E r inData (rateRatio E inRate outRate) posFp m =
      scalarAcc E r inData (stretch E inRate outRate) (invStretch E inRate outRate)
        (posFp + m * stepFp E inRate outRate) := by
    intro m hm
    rw [hratio, hstretch, hinv]
    exact laneAcc_eq_scalarAcc hE hcols r inData hs hm (outputTime_step hE hout hstep posFp m)
  have hscalar := produce_eq (downsample E (rateRatio E inRate outRate) (stretch E inRate outRate)
    (invStretch E inRate outRate) r inData) hstep₀ 8 posFp (by omega) (by omega)
  have hkernel := produce_eq (downsample8 E (rateRatio E inRate outRate) r inData)
    (show 0 ≤ 8 * stepFp E inRate outRate by omega) 1 posFp (by omega) (by omega)
  have hout8 : (kernelLoop E inRate outRate r inData 1 posFp).out =
      ((List.range 8).map (laneOut E r inData (rateRatio E inRate outRate) posFp)).map
        saturate16 := by
    rw [← downsample8_eq]
    refine (congrArg Produced.out hkernel).trans ?_
    simp only [List.range_one, List.flatMap_singleton, Int.natCast_zero, zero_mul, add_zero]
  refine ⟨hacc, ?_, ?_, ?_, ?_⟩
  · refine (congrArg Produced.posFp hkernel).trans ?_
    refine Eq.trans ?_ (congrArg Produced.posFp hscalar).symm
    push_cast
    ring
  · rw [hout8, storeLanes_eq (by simp)]
  · intro m hm
    rw [hout8, List.getElem?_map, List.getElem?_map, List.getElem?_range hm]
    rfl
  · have hout : (scalarLoop E inRate outRate r inData 8 posFp).out =
        (List.range 8).map fun (m : ℕ) =>
          clampToInt16 (E.double (E.double (scalarAcc E r inData (stretch E inRate outRate)
            (invStretch E inRate outRate) (posFp + m * stepFp E inRate outRate) / 32767) *
              rateRatio E inRate outRate)) := by
      refine (congrArg Produced.out hscalar).trans ?_
      simp only [downsample_eq, List.map_eq_flatMap]
    rw [hout8, hout, List.map_map, List.forall₂_map_left_iff, List.forall₂_map_right_iff,
      List.forall₂_same]
    intro m hm
    -- the same value, normalised in a different order
    have hvalue : laneAcc E r inData (rateRatio E inRate outRate) posFp m / 32767 *
        rateRatio E inRate outRate = laneAcc E r inData (rateRatio E inRate outRate) posFp m *
          (rateRatio E inRate outRate / 32767) := by ring
    rw [← hacc m (List.mem_range.mp hm), hE.double, hE.double, hvalue, Function.comp_apply, laneOut,
      hE.single, hE.single, hE.single]
    exact rounded_close _

/-- **The AVX2 kernel agrees with the scalar loop.**  For a step that is representable in 32.32,
with the last two columns of the table zero. -/
theorem kernel_agrees_with_scalar (hE : E.Exact) (hcols : EndsInZeros E)
    (hin : isRateSupported inRate = true) (hout : isRateSupported outRate = true)
    (hstep : outRate.toNat ∣ inRate.toNat * 2 ^ 32) (r : Resampler) (inData : List Int16)
    {posFp : ℤ} (hpos : |posFp| < 2 ^ 60) : AgreesOnBlock E inRate outRate r inData posFp := by
  obtain ⟨hstep₀, hstep₁⟩ := stepFp_bounds hE hin hout
  obtain ⟨hlo, hhi⟩ := abs_lt.mp hpos
  exact agreesOnBlock hE hcols hin hout hstep r inData (by omega) (by omega)

/-- A table whose last two columns are zero. -/
def Env.boxcar : Env Unit Unit :=
  { Env.plain with sincCoeffs := fun _ j => if j < 126 then 256 else 0 }

theorem Env.boxcar_exact : Env.boxcar.Exact := ⟨fun _ => rfl, fun _ => rfl⟩

theorem boxcar_endsInZeros : EndsInZeros Env.boxcar := fun _ _ => ⟨rfl, rfl⟩

/-- From 48 kHz to 16 kHz, at the start of a stream. -/
theorem kernel_agrees_with_scalar_third :
    AgreesOnBlock Env.boxcar 48000 16000 Resampler.zero [1, -2, 3] (-(192 * 2 ^ 32)) :=
  kernel_agrees_with_scalar Env.boxcar_exact boxcar_endsInZeros (by decide) (by decide)
    (by decide) Resampler.zero [1, -2, 3] (by decide)

/-- The whole blocks of a call against the scalar loop. -/
theorem kernelLoop_close (hE : E.Exact) (hcols : EndsInZeros E)
    (hin : isRateSupported inRate = true) (hout : isRateSupported outRate = true)
    (hstep : outRate.toNat ∣ inRate.toNat * 2 ^ 32) (r : Resampler) (inData : List Int16)
    (count : ℕ) {posFp : ℤ} (hlo : -2 ^ 63 ≤ posFp)
    (hhi : posFp + (8 * count : ℕ) * stepFp E inRate outRate < 2 ^ 63) :
    List.Forall₂ CloseSamples (kernelLoop E inRate outRate r inData count posFp).out
        (scalarLoop E inRate outRate r inData (8 * count) posFp).out ∧
      (kernelLoop E inRate outRate r inData count posFp).posFp =
        (scalarLoop E inRate outRate r inData (8 * count) posFp).posFp := by
  obtain ⟨hstep₀, -⟩ := stepFp_bounds hE hin hout
  induction count generalizing posFp with
  | zero => exact ⟨.nil, rfl⟩
  | succ count ih =>
      have hsum : ((8 * (count + 1) : ℕ) : ℤ) * stepFp E inRate outRate =
          8 * stepFp E inRate outRate + (8 * count : ℕ) * stepFp E inRate outRate := by
        push_cast
        ring
      have hcount : 0 ≤ ((8 * count : ℕ) : ℤ) * stepFp E inRate outRate :=
        mul_nonneg (Int.natCast_nonneg _) hstep₀
      have hblock := agreesOnBlock hE hcols hin hout hstep r inData hlo (by omega)
      have hnext : (scalarLoop E inRate outRate r inData 8 posFp).posFp =
          posFp + 8 * stepFp E inRate outRate :=
        congrArg Produced.posFp (produce_eq _ hstep₀ 8 posFp hlo (by push_cast; omega))
      obtain ⟨ihout, ihpos⟩ := @ih (posFp + 8 * stepFp E inRate outRate) (by omega) (by omega)
      have hcut : 8 * (count + 1) = 8 + 8 * count := by ring
      obtain ⟨hkout, hkpos⟩ := kernelLoop_add E inRate outRate r inData posFp 1 count
      obtain ⟨hsout, hspos⟩ := scalarLoop_add E inRate outRate r inData posFp 8 (8 * count)
      rw [hblock.position, hnext] at hkout hkpos
      rw [hnext] at hsout hspos
      rw [hcut, Nat.add_comm count 1, hkout, hkpos, hsout, hspos]
      exact ⟨List.rel_append hblock.close ihout, ihpos⟩

/-- **A whole call.**  With `n` outputs it ends where the scalar loop alone would, and no sample
differs from that loop's by more than 1. -/
theorem resampleLoop_close (hE : E.Exact) (hcols : EndsInZeros E)
    (hin : isRateSupported inRate = true) (hout : isRateSupported outRate = true)
    (hstep : outRate.toNat ∣ inRate.toNat * 2 ^ 32) (hlt : outRate.toNat < inRate.toNat)
    (r : Resampler) (inData : List Int16) (n : ℕ) (hlo : -2 ^ 63 ≤ r.posFp)
    (hhi : r.posFp + n * stepFp E inRate outRate < 2 ^ 63) :
    List.Forall₂ CloseSamples (resampleLoop E r inRate outRate inData n).out
        (scalarLoop E inRate outRate r inData n r.posFp).out ∧
      (resampleLoop E r inRate outRate inData n).posFp =
        (scalarLoop E inRate outRate r inData n r.posFp).posFp := by
  obtain ⟨hstep₀, -⟩ := stepFp_bounds hE hin hout
  have hdown : ¬rateRatio E inRate outRate ≥ 1 := by
    rw [rateRatio, hE.double, ratio_ge_one (by omega)]
    omega
  have hn := Nat.div_add_mod n 8
  have hle : ((8 * (n / 8) : ℕ) : ℤ) * stepFp E inRate outRate ≤ n * stepFp E inRate outRate :=
    mul_le_mul_of_nonneg_right (by exact_mod_cast Nat.mul_div_le n 8) hstep₀
  obtain ⟨hclose, hpos⟩ := kernelLoop_close hE hcols hin hout hstep r inData (n / 8) hlo (by omega)
  obtain ⟨hsout, hspos⟩ := scalarLoop_add E inRate outRate r inData r.posFp (8 * (n / 8)) (n % 8)
  rw [hn, ← hpos] at hsout hspos
  rw [resampleLoop_downsampling E r hdown, hsout, hspos]
  refine ⟨List.rel_append hclose (List.forall₂_same.mpr fun x _ => ?_), rfl⟩
  unfold CloseSamples
  rw [Int.sub_self]
  decide

end agreement

/-! ### What the entries stand for -/

/-- The entry `SINC_COEFFS[phase][tap]` stands, in the upsampling path, for the distance
`tap - 63 - phase / 1024`: that is the stretched distance of the index from the time `t`, or its
negative, up to the quantisation of the phase. -/
def Represents (s t : ℚ) (w : Tap) : Prop :=
  |((w.tap : ℚ) - centerOff - w.phase / sincPhases) - (t - w.index) / s| ≤ 1 / sincPhases ∨
    |((w.tap : ℚ) - centerOff - w.phase / sincPhases) + (t - w.index) / s| ≤ 1 / sincPhases

/-- The stretched distance has no fraction to speak of, or is that of the sample at or just
before `t`. -/
def PhaseNegligible (s t : ℚ) (k : ℤ) : Prop :=
  Int.fract ((t - k) / s) < 1 / sincPhases ∨ ⌊(t - k) / s⌋ = 0

/-- A table position `n + 63` with phase `p`, for a distance with the integer part `n` and the
fraction `f`. -/
theorem represents_iff_aux {n p : ℤ} {f : ℚ} (hp : 0 ≤ p) (h₁ : (p : ℚ) ≤ f * 1024)
    (h₂ : f * 1024 < p + 1) :
    |((n : ℚ) - p / 1024) - (n + f)| ≤ 1 / 1024 ∨ |((n : ℚ) - p / 1024) + (n + f)| ≤ 1 / 1024 ↔
      f < 1 / 1024 ∨ n = 0 := by
  have hp₀ : (0 : ℚ) ≤ p := by exact_mod_cast hp
  constructor
  · rintro (h | h)
    · obtain ⟨hlo, -⟩ := abs_le.mp h
      -- both the phase and the fraction count against the distance
      have hlt : (p : ℚ) < 1 := by linarith
      have hzero : p = 0 := by
        have : p < 1 := by exact_mod_cast hlt
        omega
      rw [hzero, Int.cast_zero] at h₂
      exact .inl (by linarith)
    · obtain ⟨hlo, hhi⟩ := abs_le.mp h
      have hn₁ : (n : ℚ) < 1 := by linarith
      have hn₂ : (-1 : ℚ) < n := by linarith
      have hn₃ : n < 1 := by exact_mod_cast hn₁
      have hn₄ : -1 < n := by exact_mod_cast hn₂
      exact .inr (by omega)
  · rintro (h | rfl)
    · have hlt : (p : ℚ) < 1 := by linarith
      have hzero : p = 0 := by
        have : p < 1 := by exact_mod_cast hlt
        omega
      rw [hzero, Int.cast_zero] at h₁ ⊢
      exact .inl (abs_le.mpr ⟨by linarith, by linarith⟩)
    · rw [Int.cast_zero]
      exact .inr (abs_le.mpr ⟨by linarith, by linarith⟩)

theorem represents_tapAt_iff (s t : ℚ) (k : ℤ) :
    Represents s t (tapAt s t k) ↔ PhaseNegligible s t k := by
  unfold Represents PhaseNegligible tapAt
  dsimp only
  generalize (t - k) / s = x
  obtain ⟨-, h₀, -⟩ := phase_exact (x + (centerOff : ℤ))
  rw [Int.fract_add_intCast] at h₀ ⊢
  rw [Int.floor_add_intCast]
  obtain ⟨p, hp⟩ : ∃ p, ⌊Int.fract x * sincPhases⌋ = p := ⟨_, rfl⟩
  obtain ⟨h₁, h₂⟩ := Int.floor_eq_iff.mp hp
  have hphases : ((sincPhases : ℕ) : ℚ) = 1024 := by norm_num [sincPhases]
  rw [hp] at h₀ ⊢
  rw [hphases] at h₁ h₂ ⊢
  have hcast : ((p.toNat : ℕ) : ℚ) = (p : ℚ) := by
    exact_mod_cast congrArg (Int.cast : ℤ → ℚ) (Int.toNat_of_nonneg h₀)
  have haux := represents_iff_aux (n := ⌊x⌋) h₀ h₁ h₂
  rw [Int.floor_add_fract] at haux
  rw [hcast, Int.cast_add, add_sub_cancel_right]
  exact haux

/-- **What the downsampling path's entries stand for.**  In the scalar loop and in every lane of
the kernel, an entry stands for the stretched distance exactly for the samples whose distance has
a negligible phase. -/
theorem downsampler_represents_iff {E : Env H Φ} (hE : E.Exact) {inRate outRate : UInt32}
    (hin : isRateSupported inRate = true) (hout : isRateSupported outRate = true) (posFp : ℤ) :
    (∀ w ∈ scalarTaps E (stretch E inRate outRate) (invStretch E inRate outRate) posFp,
      Represents (rateStretch inRate outRate) (outputTime posFp) w ↔
        PhaseNegligible (rateStretch inRate outRate) (outputTime posFp) w.index) ∧
    ∀ m < 8, ∀ w ∈ laneTaps E (rateRatio E inRate outRate) posFp m, w.Inside →
      (Represents (rateStretch inRate outRate)
          (outputTime posFp + m * rateStretch inRate outRate) w ↔
        PhaseNegligible (rateStretch inRate outRate)
          (outputTime posFp + m * rateStretch inRate outRate) w.index) := by
  obtain ⟨hratio, hstretch, hinv⟩ := rates_exact hE inRate outRate
  constructor
  · intro w hw
    rw [hstretch, hinv, scalarTaps_exact hE] at hw
    obtain ⟨k, -, rfl⟩ := List.mem_map.mp (List.mem_filter.mp hw).1
    exact represents_tapAt_iff _ _ k
  · intro m _ w hw _
    rw [hratio, laneTaps_exact hE (rateStretch_pos hin hout)] at hw
    obtain ⟨k, -, rfl⟩ := List.mem_map.mp hw
    exact represents_tapAt_iff _ _ k

/-- From 48 kHz to 16 kHz, at the start of a stream. -/
theorem downsampler_represents_third :
    (∀ w ∈ scalarTaps Env.plain (stretch Env.plain 48000 16000) (invStretch Env.plain 48000 16000)
        (-(192 * 2 ^ 32)),
      Represents 3 (-192) w ↔ PhaseNegligible 3 (-192) w.index) ∧
      ⟨-195, 0, 64⟩ ∈ scalarTaps Env.plain (stretch Env.plain 48000 16000)
        (invStretch Env.plain 48000 16000) (-(192 * 2 ^ 32)) ∧
      Represents 3 (-192) ⟨-195, 0, 64⟩ := by
  have hs : rateStretch 48000 16000 = 3 := by decide +kernel
  have ht : outputTime (-(192 * 2 ^ 32)) = -192 := by norm_num [outputTime]
  have hin : isRateSupported 48000 = true := by decide
  have hout : isRateSupported 16000 = true := by decide
  have h := (downsampler_represents_iff Env.plain_exact hin hout (-(192 * 2 ^ 32))).1
  rw [hs, ht] at h
  have hmem : ⟨-195, 0, 64⟩ ∈ scalarTaps Env.plain (stretch Env.plain 48000 16000)
      (invStretch Env.plain 48000 16000) (-(192 * 2 ^ 32)) := by decide +kernel
  refine ⟨h, hmem, (h _ hmem).mpr (.inl ?_)⟩
  norm_num [sincPhases]

/-- The first output of a session from 48 kHz to 16 kHz: the samples 4 before and 4 behind its
time, at the stretched distance 4/3, are weighted by the entries for 2/3 and for 2 + 2/3. -/
theorem downsampler_misrepresents :
    (resamplerInit Env.plain 48000 16000).map Resampler.posFp = some (-(192 * 2 ^ 32)) ∧
      ⟨-196, 341, 64⟩ ∈ scalarTaps Env.plain (stretch Env.plain 48000 16000)
        (invStretch Env.plain 48000 16000) (-(192 * 2 ^ 32)) ∧
      ⟨-188, 682, 61⟩ ∈ scalarTaps Env.plain (stretch Env.plain 48000 16000)
        (invStretch Env.plain 48000 16000) (-(192 * 2 ^ 32)) ∧
      ⟨-196, 341, 64⟩ ∈ laneTaps Env.plain (rateRatio Env.plain 48000 16000) (-(192 * 2 ^ 32)) 0 ∧
      ¬Represents 3 (-192) ⟨-196, 341, 64⟩ ∧ ¬Represents 3 (-192) ⟨-188, 682, 61⟩ := by
  refine ⟨by decide +kernel, by decide +kernel, by decide +kernel, by decide +kernel, ?_, ?_⟩
  · unfold Represents
    norm_num [sincPhases, centerOff, abs_le]
  · unfold Represents
    norm_num [sincPhases, centerOff, abs_le]

end MachAudio
