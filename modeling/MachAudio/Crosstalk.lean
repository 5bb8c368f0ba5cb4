import Mathlib.Algebra.BigOperators.Ring.Finset
import Mathlib.Algebra.Order.BigOperators.Group.Finset
import MachAudio.Causality

/-! # The resampler is blind to channels

`resample_l16_advanced` filters the elements of its buffer as one stream, so an output next to a
sample of the other channel hears it.  To see this a single sample is varied: the output is, up to
rounding, a weight times this sample plus a remainder that does not depend on it (`Crosses`), and
between the two taps in the middle of the table the weight is not small (`resampler_crosses`).

The upsampling path is followed at its output 766, the downsampling path at output 72, the first
lane of a block of the kernel: there the indices in the middle of the window are in the chunk. -/

namespace MachAudio

open Simd

variable {H Φ : Type} {E : Env H Φ}

/-! ### The table -/

/-- What matters of the sinc table: its entries are 16-bit integers, and the two taps in the middle
of every phase weigh about a tenth or more. -/
structure SincTable (E : Env H Φ) : Prop where
  entry : ∀ p < sincPhases, ∀ j < sincTaps, |E.sincCoeffs p j| ≤ 32768
  middle : ∀ p < sincPhases, 3000 ≤ E.sincCoeffs p 63 ∧ 3000 ≤ E.sincCoeffs p 64

theorem SincTable.weight (hT : SincTable E) {w : Tap} (hw : w.phase < sincPhases) :
    |w.weight E| ≤ 32768 := by
  unfold Tap.weight
  split_ifs with hin
  · obtain ⟨h₀, h₁⟩ := hin
    exact hT.entry _ hw _ (by omega)
  · decide

theorem upsamplePhase_lt (E : Env H Φ) (posFp : ℤ) : upsamplePhase E posFp < sincPhases := by
  unfold upsamplePhase
  split_ifs with h
  · decide
  · simp only [sincPhases] at h ⊢
    omega

/-! ### The multiply-accumulate -/

section mac
variable (hE : E.Exact)

include hE

theorem maddPs_exact (v c : List ℤ) (i : ℕ) :
    maddPs E ((v.drop i).take 16) ((c.drop i).take 16) = (List.range 8).map fun l =>
      ((v.getD (i + 2 * l) 0 * c.getD (i + 2 * l) 0 +
        v.getD (i + (2 * l + 1)) 0 * c.getD (i + (2 * l + 1)) 0 : ℤ) : ℚ) := by
  have hget : ∀ (u : List ℤ) (j : ℕ), j < 16 →
      ((u.drop i).take 16).getD j 0 = u.getD (i + j) 0 := by
    intro u j hj
    rw [List.getD_eq_getElem?_getD, List.getD_eq_getElem?_getD, List.getElem?_take_of_lt hj,
      List.getElem?_drop]
  unfold maddPs
  apply List.map_congr_left
  intro l hl
  have hl := List.mem_range.mp hl
  rw [hE.single, hget v _ (by omega), hget c _ (by omega), hget v _ (by omega),
    hget c _ (by omega)]

theorem addPs_range (f g : ℕ → ℚ) (n : ℕ) :
    addPs E ((List.range n).map f) ((List.range n).map g) =
      (List.range n).map fun l => f l + g l := by
  unfold addPs
  simp only [hE.single]
  rw [List.zipWith_map, List.zipWith_self]

/-- In exact arithmetic the order of the sums makes no difference. -/
theorem mac128TapsAvx2_exact (v c : List ℤ) :
    mac128TapsAvx2 E v c = ((∑ i ∈ Finset.range 128, v.getD i 0 * c.getD i 0 : ℤ) : ℚ) := by
  have hzero : List.replicate 8 (0 : ℚ) = (List.range 8).map fun _ => 0 := rfl
  obtain ⟨f, hf⟩ : ∃ f : ℕ → ℤ, ∀ i, v.getD i 0 * c.getD i 0 = f i := ⟨_, fun _ => rfl⟩
  unfold mac128TapsAvx2
  simp only [List.foldl_cons, List.foldl_nil, hzero, maddPs_exact hE, addPs_range hE, hf]
  simp [addPs, haddPs, hE.single, List.range_succ, Finset.sum_range_succ]
  ring

end mac

/-! ### One sample among others -/

/-- `n` samples `z`, but `v` at `e`. -/
def impulse (n : ℕ) (z : Int16) (e : ℕ) (v : Int16) : List Int16 := (List.replicate n z).set e v

@[simp] theorem length_impulse (n : ℕ) (z : Int16) (e : ℕ) (v : Int16) :
    (impulse n z e v).length = n := by
  unfold impulse
  rw [List.length_set, List.length_replicate]

section impulse
variable {n e : ℕ} {z : Int16} (he : e + 1 < n) (v : Int16)

include he

theorem inputAt_impulse {k : ℤ} (h0 : 0 ≤ k) :
    inputAt (impulse n z e v) k = if k = e then v else z := by
  have hget : ∀ i < n, (impulse n z e v).getD i 0 = if i = e then v else z := by
    intro i hi
    unfold impulse
    rw [List.getD_eq_getElem _ _ (by rwa [List.length_set, List.length_replicate]),
      List.getElem_set, List.getElem_replicate]
    simp only [eq_comm]
  unfold inputAt
  rw [length_impulse]
  split_ifs with h₁ h₂ h₂
  · omega
  · rw [hget _ (by omega), if_neg (by omega)]
  · rw [hget _ (by omega), if_pos (by omega)]
  · rw [hget _ (by omega), if_neg (by omega)]

/-- What a stretched window of a new stream reads. -/
theorem tapSample_impulse {r : Resampler}
    (hr : r.delayBuf = List.replicate resamplerMaxTaps 0) (k : ℤ) :
    tapSample E r (impulse n z e v) k =
      if k = e then v else if k < 0 then 0 else z := by
  have hdelay : ∀ i : ℤ, 0 ≤ i → r.delayAt E i = 0 := by
    intro i hi
    unfold Resampler.delayAt
    rw [if_pos hi, hr, List.getD_eq_getElem?_getD, List.getElem?_replicate]
    split_ifs <;> rfl
  unfold tapSample
  by_cases hk : k < 0
  · have hne : k ≠ e := by omega
    rw [if_pos hk, if_neg hne, if_pos hk]
    split_ifs with hlow
    · exact hdelay 0 (by omega)
    · exact hdelay _ (by omega)
  · rw [if_neg hk, inputAt_impulse he v (by omega), if_neg hk]

end impulse

/-- A weighted sum with one sample singled out. -/
theorem sum_singled {ι : Type} [DecidableEq ι] {S : Finset ι} {e : ι} (he : e ∈ S) (v : ℚ)
    (x w : ι → ℚ) :
    ∑ k ∈ S, (if k = e then v else x k) * w k = v * w e + ∑ k ∈ S.erase e, x k * w k := by
  rw [← Finset.add_sum_erase S _ he, if_pos rfl]
  congr 1
  apply Finset.sum_congr rfl
  intro k hk
  rw [if_neg (Finset.ne_of_mem_erase hk)]

/-- What is left when the samples are at most 8 and the weights are entries of the table. -/
theorem abs_sum_rest_le {ι : Type} [DecidableEq ι] (S : Finset ι) (e : ι) {x w : ι → ℚ}
    (hx : ∀ k, |x k| ≤ 8) (hw : ∀ k ∈ S, |w k| ≤ 32768) :
    |∑ k ∈ S.erase e, x k * w k| ≤ S.card * 262144 := by
  have hterm : ∀ k ∈ S.erase e, |x k * w k| ≤ 262144 := by
    intro k hk
    have hwk := hw k (Finset.mem_of_mem_erase hk)
    rw [abs_mul]
    calc |x k| * |w k| ≤ 8 * 32768 := mul_le_mul (hx k) hwk (abs_nonneg _) (by norm_num)
      _ = 262144 := by norm_num
  have hcard : ((S.erase e).card : ℚ) ≤ S.card := by
    exact_mod_cast Finset.card_le_card (Finset.erase_subset e S)
  calc |∑ k ∈ S.erase e, x k * w k| ≤ ∑ k ∈ S.erase e, |x k * w k| :=
        Finset.abs_sum_le_sum_abs _ _
    _ ≤ (S.erase e).card • (262144 : ℚ) := Finset.sum_le_card_nsmul _ _ _ hterm
    _ = (S.erase e).card * 262144 := nsmul_eq_mul _ _
    _ ≤ S.card * 262144 := mul_le_mul_of_nonneg_right hcard (by norm_num)

/-! ### Outputs that hear a sample -/

/-- `y` is `q` rounded to a neighbour and saturated. -/
def RoundsTo (q : ℚ) (y : Int16) : Prop := ∃ i, y = saturate16 i ∧ ⌊q⌋ ≤ i ∧ i ≤ ⌊q⌋ + 1

theorem roundsTo_clamp (q : ℚ) : RoundsTo q (clampToInt16 q) :=
  ⟨_, clampToInt16_eq q, roundHalfAway_mem q⟩

theorem roundsTo_even (q : ℚ) : RoundsTo q (saturate16 (roundHalfEven q)) :=
  ⟨_, rfl, roundHalfEven_mem q⟩

/-- An output as a function of one sample: a weight times the sample and a remainder, rounded.
The weight is about 1/66 at least, and what the remainder is worth does not reach 1100. -/
def Crosses (f : Int16 → Option Int16) : Prop :=
  ∃ gain rest : ℚ, 3000 / 196602 ≤ gain ∧ gain ≤ 101 / 100 ∧ |rest| ≤ 1100 ∧
    ∀ v, ∃ y, f v = some y ∧ RoundsTo (v.toInt * gain + rest) y

/-- The sample at a time, or the one before it, meets one of the middle taps. -/
theorem SincTable.weight_middle (hT : SincTable E) {s t : ℚ} (hs : 1 < s) {k : ℤ} (h₀ : (k : ℚ) ≤ t)
    (h₁ : t < k + 2) : 3000 ≤ (tapAt s t k).weight E ∧ (tapAt s t k).weight E ≤ 32768 := by
  have hs0 : 0 < s := by linarith
  have hquot₀ : 0 ≤ (t - k) / s := div_nonneg (by linarith) (le_of_lt hs0)
  have hquot₁ : (t - k) / s < 2 := by
    rw [div_lt_iff₀ hs0]
    linarith
  have hcenter : ((centerOff : ℤ) : ℚ) = 63 := by norm_num [centerOff]
  have hlo : 63 ≤ (tapAt s t k).tap := by
    unfold tapAt
    rw [Int.le_floor, hcenter, Int.cast_ofNat]
    linarith
  have hhi : (tapAt s t k).tap < 65 := by
    unfold tapAt
    rw [Int.floor_lt, hcenter, Int.cast_ofNat]
    linarith
  have hin : (tapAt s t k).Inside := by
    unfold Tap.Inside
    simp only [sincTaps]
    omega
  obtain ⟨h63, h64⟩ := hT.middle _ (phase_tapAt_lt s t k)
  refine ⟨?_, (abs_le.mp (hT.weight (phase_tapAt_lt s t k))).2⟩
  unfold Tap.weight
  rw [if_pos hin]
  rcases (show (tapAt s t k).tap = 63 ∨ (tapAt s t k).tap = 64 by omega) with h | h
  · rw [h]
    exact h63
  · rw [h]
    exact h64

/-- How many samples the kernel visits for a block. -/
theorem card_window_le (s t : ℚ) (h : 0 < s) :
    ((Finset.Icc ⌈t - s * 63⌉ ⌊t + 7 * s + s * 64⌋).card : ℚ) ≤ 134 * s + 1 := by
  have h₁ := Int.floor_le (t + 7 * s + s * 64)
  have h₂ := Int.le_ceil (t - s * 63)
  rw [Int.card_Icc]
  rcases le_total 0 (⌊t + 7 * s + s * 64⌋ + 1 - ⌈t - s * 63⌉) with hn | hn
  · have hcast : (((⌊t + 7 * s + s * 64⌋ + 1 - ⌈t - s * 63⌉).toNat : ℤ) : ℚ) =
        (⌊t + 7 * s + s * 64⌋ + 1 - ⌈t - s * 63⌉ : ℤ) :=
      congrArg (Int.cast : ℤ → ℚ) (Int.toNat_of_nonneg hn)
    rw [Int.cast_natCast] at hcast
    rw [hcast]
    push_cast
    linarith
  · rw [Int.toNat_of_nonpos hn, Nat.cast_zero]
    linarith

/-- Two loud samples of opposite signs come out on two sides of a multiple of 256. -/
theorem Crosses.apart {f : Int16 → Option Int16} (h : Crosses f) {v v' : Int16}
    (hv₀ : -16384 ≤ v.toInt) (hv : v.toInt ≤ -15990) (hv' : 15990 ≤ v'.toInt) :
    ∃ y y' m, f v = some y ∧ f v' = some y' ∧ -32768 < y.toInt ∧ -4 ≤ m ∧ m ≤ 4 ∧
      y.toInt ≤ 256 * m - 64 ∧ 256 * m + 64 ≤ y'.toInt := by
  obtain ⟨gain, rest, hg₀, hg₁, hrest, hf⟩ := h
  obtain ⟨y, hy, i, rfl, hi₀, hi₁⟩ := hf v
  obtain ⟨y', hy', i', rfl, hi₀', -⟩ := hf v'
  obtain ⟨hr₀, hr₁⟩ := abs_le.mp hrest
  have hlow : ⌊rest⌋ + 243 ≤ ⌊v'.toInt * gain + rest⌋ := by
    have hq : (15990 : ℚ) ≤ v'.toInt := by exact_mod_cast hv'
    have hfl := Int.floor_le rest
    rw [Int.le_floor]
    push_cast
    nlinarith
  have hhigh : ⌊v.toInt * gain + rest⌋ ≤ ⌊rest⌋ - 243 := by
    have hq : (v.toInt : ℚ) ≤ -15990 := by exact_mod_cast hv
    have hfl := Int.lt_floor_add_one rest
    have hlt : ⌊v.toInt * gain + rest⌋ < ⌊rest⌋ - 242 := by
      rw [Int.floor_lt]
      push_cast
      nlinarith
    omega
  have hbottom : -20000 ≤ ⌊v.toInt * gain + rest⌋ := by
    have hq : (-16384 : ℚ) ≤ v.toInt := by exact_mod_cast hv₀
    rw [Int.le_floor]
    push_cast
    nlinarith
  have hr : -1100 ≤ ⌊rest⌋ ∧ ⌊rest⌋ ≤ 1100 := by
    refine ⟨Int.le_floor.mpr (by push_cast; linarith), ?_⟩
    have hlt : ⌊rest⌋ < 1101 := Int.floor_lt.mpr (by push_cast; linarith)
    omega
  refine ⟨_, _, (⌊rest⌋ + 128) / 256, hy, hy', ?_, by omega, by omega, ?_, ?_⟩
  · rw [toInt_saturate16]
    omega
  · rw [toInt_saturate16]
    omega
  · rw [toInt_saturate16]
    omega

/-- A rounded sum in which one sample with a weight from the middle of the table is singled out. -/
theorem crosses_of_sum {ι : Type} [DecidableEq ι] {S : Finset ι} {k : ι} {x w : ι → ℚ} {d : ℚ}
    {f : Int16 → Option Int16} (hx : ∀ k, |x k| ≤ 8) (hw : ∀ k ∈ S, |w k| ≤ 32768) (hk : k ∈ S)
    (hmid : 3000 ≤ w k) (hd₀ : 32767 ≤ d) (hd₁ : d ≤ 196602)
    (hcard : S.card * 262144 ≤ 1100 * d)
    (hf : ∀ v, ∃ y, f v = some y ∧
      RoundsTo ((v.toInt * w k + ∑ i ∈ S.erase k, x i * w i) / d) y) : Crosses f := by
  have hpos : 0 < d := by linarith
  have hhigh := (abs_le.mp (hw k hk)).2
  have hrest := (abs_sum_rest_le S k hx hw).trans hcard
  rw [abs_le] at hrest
  refine ⟨w k / d, (∑ i ∈ S.erase k, x i * w i) / d, ?_, ?_, ?_, fun v => ?_⟩
  · rw [div_le_div_iff₀ (by norm_num) hpos]
    linarith
  · rw [div_le_div_iff₀ hpos (by norm_num)]
    linarith
  · rw [abs_le, le_div_iff₀ hpos, div_le_iff₀ hpos]
    constructor
    · linarith [hrest.1]
    · linarith [hrest.2]
  · obtain ⟨y, hy, hround⟩ := hf v
    rw [add_div, mul_div_assoc] at hround
    exact ⟨y, hy, hround⟩

section outputs
variable (hE : E.Exact) (hT : SincTable E) (r : Resampler) {n e : ℕ} {z : Int16} (he : e + 1 < n)
  (hz : |(z.toInt : ℚ)| ≤ 8) {posFp : ℤ}

/-! ### The upsampling path -/

section upsample
variable (hlow : 63 ≤ posFp / 2 ^ 32) {tap : ℕ} (htap : (e : ℤ) = posFp / 2 ^ 32 - centerOff + tap)

include he hlow htap

/-- What the window of an output reads: the sample at one tap, the others everywhere else. -/
theorem upsampleReads_impulse (v : Int16) {i : ℕ} (hi : i < 128) :
    (((upsampleReads posFp).map (padSample E r (impulse n z e v))).map Int16.toInt).getD i 0 =
      if i = tap then v.toInt else z.toInt := by
  have hk : 0 ≤ posFp / 2 ^ 32 - centerOff + i := by
    simp only [centerOff]
    omega
  have hsame : posFp / 2 ^ 32 - centerOff + i = e ↔ i = tap := by omega
  unfold upsampleReads
  rw [List.map_map, List.map_map, List.getD_eq_getElem?_getD, List.getElem?_map,
    List.getElem?_range (by exact hi)]
  simp only [Function.comp_apply, Option.map_some, Option.getD_some]
  rw [padSample, if_neg (by omega), inputAt_impulse he v hk]
  simp only [hsame, apply_ite Int16.toInt]

include hE

theorem mac_impulse (hlt : tap < 128) (p : ℕ) (v : Int16) :
    mac128TapsAvx2 E (((upsampleReads posFp).map
      (padSample E r (impulse n z e v))).map Int16.toInt)
        ((List.range sincTaps).map (E.sincCoeffs p)) =
      v.toInt * E.sincCoeffs p tap +
        ∑ i ∈ (Finset.range 128).erase tap, (z.toInt : ℚ) * E.sincCoeffs p i := by
  have hcoeffs : ∀ i < 128, ((List.range sincTaps).map (E.sincCoeffs p)).getD i 0 =
      E.sincCoeffs p i := by
    intro i hi
    rw [List.getD_eq_getElem?_getD, List.getElem?_map, List.getElem?_range (by exact hi)]
    rfl
  rw [mac128TapsAvx2_exact hE, ← sum_singled (Finset.mem_range.mpr hlt) (v.toInt : ℚ)
    (fun _ => (z.toInt : ℚ)) (fun i => (E.sincCoeffs p i : ℚ)), Int.cast_sum]
  apply Finset.sum_congr rfl
  intro i hi
  have hi := Finset.mem_range.mp hi
  rw [upsampleReads_impulse r he hlow htap v hi, hcoeffs i hi]
  push_cast
  rfl

end upsample

include hE hT he hz

/-- An output of the upsampling path hears the samples at its index and behind it. -/
theorem upsample_crosses (hlow : 63 ≤ posFp / 2 ^ 32)
    (hnear : (e : ℤ) = posFp / 2 ^ 32 ∨ (e : ℤ) = posFp / 2 ^ 32 + 1) :
    Crosses fun v => (upsample E r (impulse n z e v) posFp).1.head? := by
  obtain ⟨tap, htap, he'⟩ : ∃ tap : ℕ, (tap = 63 ∨ tap = 64) ∧
      (e : ℤ) = posFp / 2 ^ 32 - centerOff + tap := by
    rcases hnear with h | h
    · exact ⟨63, .inl rfl, by simp only [centerOff]; omega⟩
    · exact ⟨64, .inr rfl, by simp only [centerOff]; omega⟩
  obtain ⟨p, hp⟩ : ∃ p, p = upsamplePhase E posFp := ⟨_, rfl⟩
  have hphase : p < sincPhases := hp ▸ upsamplePhase_lt E posFp
  have hmid : 3000 ≤ E.sincCoeffs p tap := by
    obtain ⟨h63, h64⟩ := hT.middle p hphase
    rcases htap with rfl | rfl
    · exact h63
    · exact h64
  have hlt : tap < 128 := by omega
  apply crosses_of_sum (S := Finset.range 128) (k := tap) (x := fun _ => (z.toInt : ℚ))
    (w := fun i => (E.sincCoeffs p i : ℚ)) (d := 32767)
  · exact fun _ => hz
  · intro i hi
    exact_mod_cast hT.entry p hphase i (Finset.mem_range.mp hi)
  · exact Finset.mem_range.mpr hlt
  · exact_mod_cast hmid
  · norm_num
  · norm_num
  · rw [Finset.card_range]
    norm_num
  · intro v
    refine ⟨_, congrArg List.head? (upsample_reads E r _ posFp), ?_⟩
    rw [← hp, mac_impulse hE r he hlow he' hlt p v, hE.double]
    exact roundsTo_clamp _

/-! ### The downsampling path -/

omit hT hz in
/-- What a lane adds up: the sample at its place, zeros before the stream and the others. -/
theorem laneAcc_impulse {s : ℚ} (hs0 : 0 < s)
    (hr : r.delayBuf = List.replicate resamplerMaxTaps 0)
    (hmem : (e : ℤ) ∈ Finset.Icc ⌈outputTime posFp - s * 63⌉
      ⌊outputTime posFp + 7 * s + s * 64⌋) (v : Int16) :
    laneAcc E r (impulse n z e v) (1 / s) posFp 0 =
      v.toInt * (tapAt s (outputTime posFp) e).weight E +
        ∑ k ∈ (Finset.Icc ⌈outputTime posFp - s * 63⌉
            ⌊outputTime posFp + 7 * s + s * 64⌋).erase (e : ℤ),
          ((if k < 0 then 0 else z : Int16).toInt : ℚ) *
            (tapAt s (outputTime posFp) k).weight E := by
  rw [laneAcc_exact hE r _ posFp hs0, Nat.cast_zero, zero_mul, add_zero,
    ← sum_singled hmem (v.toInt : ℚ) (fun k => ((if k < 0 then 0 else z : Int16).toInt : ℚ))
      (fun k => ((tapAt s (outputTime posFp) k).weight E : ℚ))]
  apply Finset.sum_congr rfl
  intro k _
  rw [tapSample_impulse he v hr]
  by_cases hk : k = e
  · rw [if_pos hk, if_pos hk]
  · rw [if_neg hk, if_neg hk]

/-- The first lane of a kernel block hears the sample before its time and the one before that. -/
theorem laneOut_crosses {s : ℚ} (hs : 1 < s) (hs6 : s ≤ 6)
    (hr : r.delayBuf = List.replicate resamplerMaxTaps 0)
    (hnear : (e : ℤ) = ⌊outputTime posFp⌋ ∨ (e : ℤ) = ⌊outputTime posFp⌋ - 1) :
    Crosses fun v => some (saturate16 (laneOut E r (impulse n z e v) (1 / s) posFp 0)) := by
  have hs0 : 0 < s := by linarith
  have hback : ((e : ℤ) : ℚ) ≤ outputTime posFp ∧ outputTime posFp < (e : ℤ) + 2 := by
    have hfl := Int.floor_le (outputTime posFp)
    have hlt := Int.lt_floor_add_one (outputTime posFp)
    rcases hnear with h | h
    · rw [h]
      constructor <;> linarith
    · rw [h, Int.cast_sub, Int.cast_one]
      constructor <;> linarith
  have hmem : (e : ℤ) ∈ Finset.Icc ⌈outputTime posFp - s * 63⌉
      ⌊outputTime posFp + 7 * s + s * 64⌋ := by
    refine Finset.mem_Icc.mpr ⟨Int.ceil_le.mpr ?_, Int.le_floor.mpr ?_⟩
    · linarith [hback.2]
    · linarith [hback.1]
  have hscale : ∀ q : ℚ, q * (1 / s / 32767) = q / (s * 32767) := by
    intro q
    rw [div_div, mul_one_div]
  apply crosses_of_sum (k := (e : ℤ)) (d := s * 32767)
    (S := Finset.Icc ⌈outputTime posFp - s * 63⌉ ⌊outputTime posFp + 7 * s + s * 64⌋)
    (x := fun k => ((if k < 0 then 0 else z : Int16).toInt : ℚ))
    (w := fun k => ((tapAt s (outputTime posFp) k).weight E : ℚ))
  · intro k
    split_ifs
    · rw [show (0 : Int16).toInt = 0 from rfl, Int.cast_zero, abs_zero]
      norm_num
    · exact hz
  · intro k _
    exact_mod_cast hT.weight (phase_tapAt_lt s (outputTime posFp) k)
  · exact hmem
  · exact_mod_cast (hT.weight_middle hs hback.1 hback.2).1
  · linarith
  · linarith
  · linarith [card_window_le s (outputTime posFp) hs0]
  · intro v
    refine ⟨_, rfl, ?_⟩
    unfold laneOut
    rw [hE.single, hE.single, hE.single, laneAcc_impulse hE r he hs0 hr hmem v, hscale]
    exact roundsTo_even _

end outputs

/-! ### The outputs of a call -/

/-- The first output of turn `i` of a loop. -/
theorem produce_getElem? {f : ℤ → List Int16 × List ℤ} {k : ℕ} (hf : ∀ p, (f p).1.length = k)
    (hk : 0 < k) {inc : ℤ} (hinc : 0 ≤ inc) {n i : ℕ} (hi : i < n) {posFp : ℤ}
    (h₁ : -2 ^ 63 ≤ posFp) (h₂ : posFp + n * inc < 2 ^ 63) :
    (produce f inc n posFp).out[k * i]? = (f (posFp + i * inc)).1.head? := by
  obtain ⟨m, rfl⟩ : ∃ m, n = i + (m + 1) := ⟨n - i - 1, by omega⟩
  have hle : (i : ℤ) * inc ≤ (i + (m + 1) : ℕ) * inc :=
    mul_le_mul_of_nonneg_right (by omega) hinc
  have hlen : (produce f inc i posFp).out.length = k * i := length_produce hf inc i posFp
  have hpos : (produce f inc i posFp).posFp = posFp + i * inc := by
    rw [produce_eq f hinc i posFp h₁ (by omega)]
  rw [produce_add]
  dsimp only
  rw [List.getElem?_append_right (by omega), hlen, Nat.sub_self, hpos, produce]
  dsimp only
  rw [List.getElem?_append_left (by rw [hf]; exact hk), List.head?_eq_getElem?]

/-- The first output of block `i` of the downsampling path. -/
theorem resampleLoop_block {inRate outRate : UInt32} {r : Resampler}
    (hdown : ¬rateRatio E inRate outRate ≥ 1) (hstep : 0 ≤ stepFp E inRate outRate) {count i : ℕ}
    (hi : i < count / 8) (h₁ : -2 ^ 63 ≤ r.posFp)
    (h₂ : r.posFp + (count / 8 : ℕ) * (8 * stepFp E inRate outRate) < 2 ^ 63)
    (chunk : List Int16) :
    (resampleLoop E r inRate outRate chunk count).out[8 * i]? =
      some (saturate16 (laneOut E r chunk (rateRatio E inRate outRate)
        (r.posFp + i * (8 * stepFp E inRate outRate)) 0)) := by
  have hlen : (kernelLoop E inRate outRate r chunk (count / 8) r.posFp).out.length =
      8 * (count / 8) := by
    rw [kernelLoop_eq, length_produce (length_downsample8 E _ r _)]
  have hfirst : (kernelLoop E inRate outRate r chunk (count / 8) r.posFp).out[8 * i]? =
      (downsample8 E (rateRatio E inRate outRate) r chunk
        (r.posFp + i * (8 * stepFp E inRate outRate))).1.head? := by
    rw [kernelLoop_eq]
    exact produce_getElem? (length_downsample8 E _ r _) (by decide) (by omega) hi h₁ h₂
  rw [resampleLoop_downsampling E r hdown]
  dsimp only
  rw [List.getElem?_append_left (by omega), hfirst, downsample8_eq]
  rfl

theorem resamplerInit_delayBuf {inRate outRate : UInt32} {r : Resampler}
    (h : resamplerInit E inRate outRate = some r) :
    r.delayBuf = List.replicate resamplerMaxTaps 0 := by
  obtain ⟨hin, hout⟩ := resamplerInit_supported h
  rw [resamplerInit, if_neg (by simp [hin, hout])] at h
  dsimp only at h
  split_ifs at h <;> (obtain rfl := Option.some.inj h; rfl)

/-- The step of the position in units of the stretch. -/
theorem stepFp_stretch (hE : E.Exact) (inRate : UInt32) {outRate : UInt32}
    (hout : isRateSupported outRate = true) :
    (stepFp E inRate outRate : ℚ) ≤ rateStretch inRate outRate * 2 ^ 32 ∧
      rateStretch inRate outRate * 2 ^ 32 < stepFp E inRate outRate + 1 := by
  have hpos : 0 < outRate.toNat := by
    have := (isRateSupported_bounds hout).1
    omega
  have hb : (0 : ℚ) < outRate.toNat := by exact_mod_cast hpos
  have hvalue : rateStretch inRate outRate * 2 ^ 32 =
      ((inRate.toNat * 2 ^ 32 : ℕ) : ℚ) / outRate.toNat := by
    unfold rateStretch
    push_cast
    ring
  have hlt := Nat.lt_mul_div_succ (inRate.toNat * 2 ^ 32) hpos
  rw [Nat.mul_comm outRate.toNat] at hlt
  rw [stepFp_exact hE, Int.cast_natCast, hvalue]
  refine ⟨Nat.cast_div_le, ?_⟩
  rw [div_lt_iff₀ hb]
  exact_mod_cast hlt

/-- The initial delay when downsampling. -/
theorem initialDelay_lt (hE : E.Exact) {inRate outRate : UInt32}
    (hs : 1 ≤ rateStretch inRate outRate) :
    (initialDelay E inRate outRate : ℚ) < rateStretch inRate outRate * 64 + 1 := by
  unfold initialDelay
  simp only [hE.double]
  unfold rateStretch at hs ⊢
  rw [if_neg (not_lt.mpr hs)]
  exact Int.ceil_lt_add_one _

/-- Output `j` hears the sample `e` of every call that begins a session. -/
def CrossesAt (E : Env H Φ) (r : Resampler) (inRate outRate : UInt32) (j e : ℕ) : Prop :=
  ∀ (n : ℕ) (z : Int16), 768 ≤ n → n ≤ 32736 → |(z.toInt : ℚ)| ≤ 8 →
    Crosses fun v => (resampleLoop E r inRate outRate (impulse n z e v)
      (n * outRate.toNat / inRate.toNat)).out[j]?

section calls
variable (hE : E.Exact) (hT : SincTable E) {inRate outRate : UInt32} {r : Resampler}
  (hinit : resamplerInit E inRate outRate = some r)

include hE hT hinit

theorem upsampling_crosses (hlt : inRate.toNat < outRate.toNat) :
    ∃ e, e % 2 = 1 ∧ e < 767 ∧ CrossesAt E r inRate outRate 766 e := by
  obtain ⟨hin, hout, hpos⟩ := resamplerInit_posFp hE hinit
  have hexact := hE.positions hin hlt
  have ha := isRateSupported_bounds hin
  have hb := isRateSupported_bounds hout
  rw [hexact.delay] at hpos
  obtain ⟨hstep, -⟩ := stepFp_bounds hE hin hout
  obtain ⟨p, hp⟩ : ∃ p, p = r.posFp + (766 : ℕ) * stepFp E inRate outRate := ⟨_, rfl⟩
  have hidx : 63 ≤ p / 2 ^ 32 ∧ p / 2 ^ 32 ≤ 701 := by
    have hup := step_lt (a := inRate.toNat) (b := outRate.toNat) (J := 766) (K := 766) (by omega)
    have hlow := le_step_add (a := inRate.toNat) (b := outRate.toNat) (J := 6) (K := 1)
      (by omega) (by omega)
    rw [hp, hpos, hexact.step]
    generalize inRate.toNat * 2 ^ 32 / outRate.toNat = q at hup hlow
    omega
  obtain ⟨e, hodd, hnear⟩ : ∃ e : ℕ, e % 2 = 1 ∧
      ((e : ℤ) = p / 2 ^ 32 ∨ (e : ℤ) = p / 2 ^ 32 + 1) := by
    by_cases hpar : p / 2 ^ 32 % 2 = 1
    · exact ⟨(p / 2 ^ 32).toNat, by omega, .inl (by omega)⟩
    · exact ⟨(p / 2 ^ 32).toNat + 1, by omega, .inr (by omega)⟩
  refine ⟨e, hodd, by omega, fun n z hn hmax hz => ?_⟩
  have hcount : 767 ≤ n * outRate.toNat / inRate.toNat := by
    rw [Nat.le_div_iff_mul_le (by omega)]
    exact Nat.mul_le_mul (by omega) (by omega)
  have hadv := outputs_advance hE hin hout n
  have hup : rateRatio E inRate outRate ≥ 1 := hexact.ratio
  have hget : ∀ v, (resampleLoop E r inRate outRate (impulse n z e v)
      (n * outRate.toNat / inRate.toNat)).out[766]? =
        (upsample E r (impulse n z e v) p).1.head? := by
    intro v
    rw [resampleLoop_upsampling E r hup, hp]
    have hturn : 766 < n * outRate.toNat / inRate.toNat := by omega
    exact produce_getElem? (length_upsample E r _) Nat.one_pos hstep hturn (by omega) (by omega)
  simp only [hget]
  exact upsample_crosses hE hT r (by omega) hz hidx.1 hnear

omit hT in
/-- The block that begins at output 72 is at an index between 1 and 48. -/
theorem outputTime_block (hs : 1 < rateStretch inRate outRate)
    (hs6 : rateStretch inRate outRate ≤ 6) :
    1 ≤ ⌊outputTime (r.posFp + (9 : ℕ) * (8 * stepFp E inRate outRate))⌋ ∧
      ⌊outputTime (r.posFp + (9 : ℕ) * (8 * stepFp E inRate outRate))⌋ ≤ 48 := by
  obtain ⟨hin, hout, hpos⟩ := resamplerInit_posFp hE hinit
  obtain ⟨hq₀, hq₁⟩ := stepFp_stretch hE inRate hout
  have htime : outputTime (r.posFp + (9 : ℕ) * (8 * stepFp E inRate outRate)) =
      72 * stepFp E inRate outRate / 2 ^ 32 - initialDelay E inRate outRate := by
    rw [hpos, outputTime]
    push_cast
    ring
  have hdelay := initialDelay_lt hE (le_of_lt hs)
  obtain ⟨-, hdelay'⟩ := le_initialDelay hE inRate outRate
  rw [htime]
  constructor
  · rw [Int.le_floor, Int.cast_one]
    linarith
  · apply Int.le_of_lt_add_one
    rw [Int.floor_lt]
    push_cast
    linarith

theorem downsampling_crosses (hlt : outRate.toNat < inRate.toNat) :
    ∃ e, e % 2 = 1 ∧ e < 767 ∧ CrossesAt E r inRate outRate 72 e := by
  obtain ⟨hin, hout, hpos⟩ := resamplerInit_posFp hE hinit
  have ha := isRateSupported_bounds hin
  have hb := isRateSupported_bounds hout
  obtain ⟨hstep, -⟩ := stepFp_bounds hE hin hout
  obtain ⟨hd₀, hd₁⟩ := initialDelay_bounds hE hin hout
  have hb0 : (0 : ℚ) < outRate.toNat := by exact_mod_cast show 0 < outRate.toNat by omega
  have hs : 1 < rateStretch inRate outRate := by
    unfold rateStretch
    rw [lt_div_iff₀ hb0, one_mul]
    exact_mod_cast hlt
  have hs6 : rateStretch inRate outRate ≤ 6 := by
    unfold rateStretch
    rw [div_le_iff₀ hb0]
    exact_mod_cast show inRate.toNat ≤ 6 * outRate.toNat by omega
  have hdown : ¬rateRatio E inRate outRate ≥ 1 := by
    rw [rateRatio, hE.double, ratio_ge_one (by omega)]
    omega
  obtain ⟨p, hp⟩ : ∃ p, p = r.posFp + (9 : ℕ) * (8 * stepFp E inRate outRate) := ⟨_, rfl⟩
  have hidx := outputTime_block hE hinit hs hs6
  rw [← hp] at hidx
  obtain ⟨e, hodd, hnear⟩ : ∃ e : ℕ, e % 2 = 1 ∧
      ((e : ℤ) = ⌊outputTime p⌋ ∨ (e : ℤ) = ⌊outputTime p⌋ - 1) := by
    by_cases hpar : ⌊outputTime p⌋ % 2 = 1
    · exact ⟨⌊outputTime p⌋.toNat, by omega, .inl (by omega)⟩
    · exact ⟨⌊outputTime p⌋.toNat - 1, by omega, .inr (by omega)⟩
  refine ⟨e, hodd, by omega, fun n z hn hmax hz => ?_⟩
  have hcount : 128 ≤ n * outRate.toNat / inRate.toNat := by
    rw [Nat.le_div_iff_mul_le (by omega)]
    calc 128 * inRate.toNat ≤ 128 * (6 * outRate.toNat) := Nat.mul_le_mul_left _ (by omega)
      _ = 768 * outRate.toNat := by ring
      _ ≤ n * outRate.toNat := Nat.mul_le_mul_right _ hn
  have hadv := outputs_advance hE hin hout n
  obtain ⟨count, hc⟩ : ∃ count, count = n * outRate.toNat / inRate.toNat := ⟨_, rfl⟩
  rw [← hc] at hcount hadv
  have hblocks := blocks_advance count (stepFp E inRate outRate)
  have hrest : 0 ≤ ((count % 8 : ℕ) : ℤ) * stepFp E inRate outRate := by positivity
  have hget : ∀ v, (resampleLoop E r inRate outRate (impulse n z e v)
      (n * outRate.toNat / inRate.toNat)).out[72]? =
        some (saturate16 (laneOut E r (impulse n z e v) (rateRatio E inRate outRate) p 0)) := by
    intro v
    rw [← hc, hp]
    exact resampleLoop_block hdown hstep (i := 9) (by omega) (by omega) (by omega) _
  simp only [hget]
  rw [(rates_exact hE inRate outRate).1]
  exact laneOut_crosses hE hT r (by omega) hz hs hs6 (resamplerInit_delayBuf hinit) hnear

/-- **An even output hears an odd sample.**  In every session whose rates differ. -/
theorem resampler_crosses (hne : inRate ≠ outRate) :
    ∃ j e, j % 2 = 0 ∧ e % 2 = 1 ∧ e < 767 ∧ CrossesAt E r inRate outRate j e := by
  rcases Nat.lt_or_gt_of_ne fun h => hne (UInt32.toNat_inj.mp h) with hlt | hlt
  · obtain ⟨e, hodd, he, h⟩ := upsampling_crosses hE hT hinit hlt
    exact ⟨766, e, rfl, hodd, he, h⟩
  · obtain ⟨e, hodd, he, h⟩ := downsampling_crosses hE hT hinit hlt
    exact ⟨72, e, rfl, hodd, he, h⟩

end calls

end MachAudio
