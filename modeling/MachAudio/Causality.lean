import Mathlib.Data.Nat.Cast.Order.Field
import MachAudio.Upsampler
import MachAudio.Downsampler

/-! # The resampler is causal

Both paths of `resample_l16_advanced` have a branch that repeats the last sample of the chunk for
an index beyond its end.  The initial delay is as long as the kernel reaches forward, and a call
never advances the position by more than the chunk it is given, so the branch is not taken: a call
reads nothing behind its own chunk (`CausalCall`).

What a call does not advance the position by is lost, and `pos_fp` is a 64-bit integer.  A session
stays causal exactly as long as what it has lost fits (`resampler_causal_iff`); when it no longer
does, the position wraps to the other end of the range. -/

namespace MachAudio

variable {H Φ : Type} (E : Env H Φ)

/-! ### The samples a loop reads -/

/-- The input indices one output of the upsampling path reads, `idx - center_off + j`. -/
def upsampleReads (posFp : ℤ) : List ℤ :=
  (List.range sincTaps).map fun (j : ℕ) => posFp / 2 ^ 32 - centerOff + j

/-- The input indices one turn of the scalar downsampling loop reads. -/
def scalarReads (inRate outRate : UInt32) (posFp : ℤ) : List ℤ :=
  (scalarTaps E (stretch E inRate outRate) (invStretch E inRate outRate) posFp).map Tap.index

/-- The input indices lane `m` of the AVX2 kernel reads in one turn of its outer loop. -/
def laneReads (inRate outRate : UInt32) (posFp : ℤ) (m : ℕ) : List ℤ :=
  (laneTaps E (rateRatio E inRate outRate) posFp m).map Tap.index

/-- What its eight lanes read. -/
def kernelReads (inRate outRate : UInt32) (posFp : ℤ) : List ℤ :=
  (List.range 8).flatMap (laneReads E inRate outRate posFp)

/-- A loop of which only the reads are kept. -/
def produceReads (g : ℤ → List ℤ) (inc : ℤ) (n : ℕ) (posFp : ℤ) : Produced :=
  produce (fun p => ([], g p)) inc n posFp

/-- Every input index the loop of `resample_l16_advanced` reads for `n` outputs: the positions are
those of `resampleLoop`. -/
def loopReads (r : Resampler) (inRate outRate : UInt32) (n : ℕ) : List ℤ :=
  let step := stepFp E inRate outRate
  if rateRatio E inRate outRate ≥ 1 then (produceReads upsampleReads step n r.posFp).history
  else
    let blocks := produceReads (kernelReads E inRate outRate) (8 * step) (n / 8) r.posFp
    let rest := produceReads (scalarReads E inRate outRate) step (n % 8) blocks.posFp
    blocks.history ++ rest.history

/-! ### What lies behind the chunk -/

section beyond
variable (r : Resampler) (inData more : List Int16)

theorem inputAt_append {k : ℤ} (hk : k < inData.length) (h0 : 0 ≤ k) :
    inputAt (inData ++ more) k = inputAt inData k := by
  unfold inputAt
  rw [List.length_append, if_neg (by omega), if_neg (by omega), List.getD_eq_getElem?_getD,
    List.getD_eq_getElem?_getD, List.getElem?_append_left (by omega)]

theorem padSample_append {k : ℤ} (hk : k < inData.length) :
    padSample E r (inData ++ more) k = padSample E r inData k := by
  unfold padSample
  split_ifs with hneg
  · rfl
  · exact inputAt_append inData more hk (by omega)

theorem tapSample_append {k : ℤ} (hk : k < inData.length) :
    tapSample E r (inData ++ more) k = tapSample E r inData k := by
  unfold tapSample
  split_ifs with hneg
  · rfl
  · rfl
  · exact inputAt_append inData more hk (by omega)

/-- `p` of the upsampling path. -/
def upsamplePhase (posFp : ℤ) : ℕ :=
  if truncate (E.double (fracOf E posFp * sincPhases)) ≥ sincPhases then sincPhases - 1
  else (truncate (E.double (fracOf E posFp * sincPhases))).toNat

/-- Inside the chunk and near its ends, an output is the same function of what it reads. -/
theorem upsample_reads (posFp : ℤ) :
    (upsample E r inData posFp).1 = [clampToInt16 (E.double (mac128TapsAvx2 E
      (((upsampleReads posFp).map (padSample E r inData)).map Int16.toInt)
      ((List.range sincTaps).map (E.sincCoeffs (upsamplePhase E posFp))) / 32767))] := by
  by_cases hmid : posFp / 2 ^ 32 ≥ centerOff ∧
      posFp / 2 ^ 32 < inData.length - (sincTaps - centerOff)
  · have hwindow : (inData.drop (posFp / 2 ^ 32 - centerOff).toNat).take sincTaps =
        (upsampleReads posFp).map (padSample E r inData) := by
      simp only [centerOff, sincTaps] at hmid
      unfold upsampleReads
      rw [take_drop_eq_map inData (by simp only [centerOff, sincTaps]; omega), List.map_map]
      apply List.map_congr_left
      intro j hj
      have hlt : j < 128 := List.mem_range.mp hj
      rw [Function.comp_apply, padSample, centerOff, if_neg (by omega), inputAt,
        if_neg (by omega)]
      congr 1
      omega
    simp only [upsample, if_pos hmid, hwindow]
    rfl
  · have hlen : (posFp / 2 ^ 32 - centerOff + (sincTaps - 1) + 1 -
        (posFp / 2 ^ 32 - centerOff)).toNat = sincTaps := by
      simp only [sincTaps]
      omega
    have hwindow : indexRange (posFp / 2 ^ 32 - centerOff)
        (posFp / 2 ^ 32 - centerOff + (sincTaps - 1)) = upsampleReads posFp := by
      unfold indexRange upsampleReads
      rw [hlen]
    simp only [upsample, if_neg hmid, hwindow]
    rfl

theorem upsample_ahead {posFp : ℤ} (h : ∀ k ∈ upsampleReads posFp, k < inData.length) :
    (upsample E r (inData ++ more) posFp).1 = (upsample E r inData posFp).1 := by
  rw [upsample_reads, upsample_reads, List.map_congr_left (fun k hk =>
    padSample_append E r inData more (h k hk))]

theorem downsample_ahead (ratio : ℚ) {s invS : ℚ} {posFp : ℤ}
    (h : ∀ k ∈ (scalarTaps E s invS posFp).map Tap.index, k < inData.length) :
    (downsample E ratio s invS r (inData ++ more) posFp).1 =
      (downsample E ratio s invS r inData posFp).1 := by
  have hacc : scalarAcc E r (inData ++ more) s invS posFp = scalarAcc E r inData s invS posFp := by
    unfold scalarAcc
    apply List.foldl_ext
    intro acc w hw
    rw [tapSample_append E r inData more (h w.index (List.mem_map_of_mem hw))]
  rw [downsample_eq, downsample_eq, hacc]

theorem downsample8_ahead {ratio : ℚ} {posFp : ℤ}
    (h : ∀ m < 8, ∀ k ∈ (laneTaps E ratio posFp m).map Tap.index, k < inData.length) :
    (downsample8 E ratio r (inData ++ more) posFp).1 =
      (downsample8 E ratio r inData posFp).1 := by
  have hacc : ∀ m < 8, laneAcc E r (inData ++ more) ratio posFp m =
      laneAcc E r inData ratio posFp m := by
    intro m hm
    unfold laneAcc
    apply List.foldl_ext
    intro acc w hw
    rw [tapSample_append E r inData more (h m hm w.index (List.mem_map_of_mem hw))]
  rw [downsample8_eq, downsample8_eq]
  refine congrArg _ (List.map_congr_left fun m hm => ?_)
  unfold laneOut
  rw [hacc m (List.mem_range.mp hm)]

end beyond

/-! ### How far forward an output reads -/

section reach
variable {E} (hE : E.Exact) {inRate outRate : UInt32} (hin : isRateSupported inRate = true)
  (hout : isRateSupported outRate = true)

theorem upsampleReads_le {posFp k : ℤ} (h : k ∈ upsampleReads posFp) :
    (k : ℚ) ≤ outputTime posFp + 64 := by
  obtain ⟨j, hj, rfl⟩ := List.mem_map.mp h
  have hlt : j < 128 := List.mem_range.mp hj
  have hidx : ((posFp / 2 ^ 32 : ℤ) : ℚ) ≤ outputTime posFp := by
    rw [outputTime, le_div_iff₀ (by norm_num)]
    exact_mod_cast Int.ediv_mul_le posFp (by norm_num)
  have hle : ((posFp / 2 ^ 32 - centerOff + j : ℤ) : ℚ) ≤ (posFp / 2 ^ 32 : ℤ) + 64 := by
    have : posFp / 2 ^ 32 - centerOff + j ≤ posFp / 2 ^ 32 + 64 := by
      simp only [centerOff]
      omega
    exact_mod_cast this
  linarith

include hE in
theorem scalarReads_le {posFp k : ℤ} (h : k ∈ scalarReads E inRate outRate posFp) :
    (k : ℚ) ≤ outputTime posFp + rateStretch inRate outRate * 64 := by
  obtain ⟨-, hs, hinv⟩ := rates_exact hE inRate outRate
  unfold scalarReads at h
  rw [hs, hinv, scalarTaps_exact hE] at h
  obtain ⟨w, hw, rfl⟩ := List.mem_map.mp h
  obtain ⟨k, hk, rfl⟩ := List.mem_map.mp (List.mem_filter.mp hw).1
  exact Int.le_floor.mp (mem_indexRange.mp hk).2

include hE hin hout in
theorem laneReads_le {posFp k : ℤ} {m : ℕ} (h : k ∈ laneReads E inRate outRate posFp m) :
    (k : ℚ) ≤ outputTime posFp + 7 * rateStretch inRate outRate +
      rateStretch inRate outRate * 64 := by
  unfold laneReads at h
  rw [(rates_exact hE inRate outRate).1, laneTaps_exact hE (rateStretch_pos hin hout)] at h
  obtain ⟨w, hw, rfl⟩ := List.mem_map.mp h
  obtain ⟨k, hk, rfl⟩ := List.mem_map.mp hw
  exact Int.le_floor.mp (mem_indexRange.mp hk).2

include hE in
/-- The initial delay is what the kernel reaches forward, stretched or not. -/
theorem le_initialDelay (inRate outRate : UInt32) :
    (64 : ℚ) ≤ initialDelay E inRate outRate ∧
      rateStretch inRate outRate * 64 ≤ initialDelay E inRate outRate := by
  unfold initialDelay
  simp only [hE.double]
  change (64 : ℚ) ≤ (⌈(if rateStretch inRate outRate < 1 then 1 else
    rateStretch inRate outRate) * 64⌉ : ℤ) ∧ rateStretch inRate outRate * 64 ≤
      (⌈(if rateStretch inRate outRate < 1 then 1 else rateStretch inRate outRate) * 64⌉ : ℤ)
  split_ifs with hlt
  · have h := Int.le_ceil ((1 : ℚ) * 64)
    constructor <;> linarith
  · have h := Int.le_ceil (rateStretch inRate outRate * 64)
    constructor <;> linarith

include hE in
/-- The `i`-th output of a call that starts behind the delay. -/
theorem outputTime_le {posFp : ℤ} (h : posFp ≤ -(initialDelay E inRate outRate * 2 ^ 32)) (i : ℕ) :
    outputTime (posFp + i * stepFp E inRate outRate) ≤
      i * rateStretch inRate outRate - initialDelay E inRate outRate := by
  have hstep : (stepFp E inRate outRate : ℚ) ≤ rateStretch inRate outRate * 2 ^ 32 := by
    rw [stepFp_exact hE, Int.cast_natCast, rateStretch]
    refine Nat.cast_div_le.trans (le_of_eq ?_)
    push_cast
    ring
  have hpos : (posFp : ℚ) ≤ -(initialDelay E inRate outRate * 2 ^ 32) := by exact_mod_cast h
  have hadv : (i : ℚ) * stepFp E inRate outRate ≤ i * (rateStretch inRate outRate * 2 ^ 32) :=
    mul_le_mul_of_nonneg_left hstep (Nat.cast_nonneg i)
  rw [outputTime, div_le_iff₀ (by norm_num)]
  push_cast
  linarith

include hin hout in
/-- `i` outputs of a chunk of `n` samples are worth no more than the chunk. -/
theorem outputs_le {i n : ℕ} (hi : i ≤ n * outRate.toNat / inRate.toNat) :
    i * rateStretch inRate outRate ≤ n := by
  have ha := (isRateSupported_bounds hin).1
  have hb := (isRateSupported_bounds hout).1
  have hle : i * inRate.toNat ≤ n * outRate.toNat :=
    (Nat.le_div_iff_mul_le (by omega)).mp hi
  have hb0 : (0 : ℚ) < outRate.toNat := by exact_mod_cast show 0 < outRate.toNat by omega
  rw [rateStretch, mul_div_assoc', div_le_iff₀ hb0]
  exact_mod_cast hle

variable {posFp : ℤ} (hpos : posFp ≤ -(initialDelay E inRate outRate * 2 ^ 32)) {i n : ℕ}

include hE hin hout hpos

/-- An index the delay ahead of the `i + j`-th output is one of the chunk. -/
theorem inside_of_le {j : ℕ} (hi : i + j < n * outRate.toNat / inRate.toNat) {k : ℤ}
    (hk : (k : ℚ) ≤ outputTime (posFp + i * stepFp E inRate outRate) +
      j * rateStretch inRate outRate + initialDelay E inRate outRate) : k < n := by
  have hs := rateStretch_pos hin hout
  have htime := outputTime_le hE hpos i
  have hchunk := outputs_le hin hout (i := i + j + 1) hi
  push_cast at hchunk
  have hlt : (k : ℚ) < n := by linarith
  exact_mod_cast hlt

theorem upsampleReads_inside (hi : i < n * outRate.toNat / inRate.toNat) :
    ∀ k ∈ upsampleReads (posFp + i * stepFp E inRate outRate), k < n := by
  intro k hk
  have hread := upsampleReads_le hk
  have hdelay := (le_initialDelay hE inRate outRate).1
  apply inside_of_le hE hin hout hpos (j := 0) hi
  push_cast
  linarith

theorem scalarReads_inside (hi : i < n * outRate.toNat / inRate.toNat) :
    ∀ k ∈ scalarReads E inRate outRate (posFp + i * stepFp E inRate outRate), k < n := by
  intro k hk
  have hread := scalarReads_le hE hk
  have hdelay := (le_initialDelay hE inRate outRate).2
  apply inside_of_le hE hin hout hpos (j := 0) hi
  push_cast
  linarith

/-- The last lane is seven outputs ahead of the first. -/
theorem laneReads_inside (hi : i + 7 < n * outRate.toNat / inRate.toNat) (m : ℕ) :
    ∀ k ∈ laneReads E inRate outRate (posFp + i * stepFp E inRate outRate) m, k < n := by
  intro k hk
  have hread := laneReads_le hE hin hout hk
  have hdelay := (le_initialDelay hE inRate outRate).2
  apply inside_of_le hE hin hout hpos hi
  push_cast
  linarith

end reach

/-! ### The loops -/

theorem mem_produceReads (g : ℤ → List ℤ) {inc : ℤ} (hinc : 0 ≤ inc) {n : ℕ} {posFp : ℤ}
    (h₁ : -2 ^ 63 ≤ posFp) (h₂ : posFp + n * inc < 2 ^ 63) {k : ℤ} :
    k ∈ (produceReads g inc n posFp).history ↔ ∃ i < n, k ∈ g (posFp + i * inc) := by
  unfold produceReads
  rw [produce_eq _ hinc n posFp h₁ h₂]
  simp only [List.mem_flatMap, List.mem_range]

/-- Two loops that produce the same at every position they visit. -/
theorem produce_out_congr {f g : ℤ → List Int16 × List ℤ} {inc : ℤ} (hinc : 0 ≤ inc) {n : ℕ}
    {posFp : ℤ} (h₁ : -2 ^ 63 ≤ posFp) (h₂ : posFp + n * inc < 2 ^ 63)
    (h : ∀ i < n, (f (posFp + i * inc)).1 = (g (posFp + i * inc)).1) :
    (produce f inc n posFp).out = (produce g inc n posFp).out := by
  rw [produce_eq f hinc n posFp h₁ h₂, produce_eq g hinc n posFp h₁ h₂]
  exact List.flatMap_congr fun i hi => h i (List.mem_range.mp hi)

/-- The first output of the `i`-th block of eight. -/
theorem block_position (i : ℕ) (step : ℤ) : (i : ℤ) * (8 * step) = (8 * i : ℕ) * step := by
  push_cast
  ring

/-- The `i`-th output after the whole blocks. -/
theorem rest_position (n i : ℕ) (step : ℤ) :
    ((n / 8 : ℕ) : ℤ) * (8 * step) + i * step = (8 * (n / 8) + i : ℕ) * step := by
  push_cast
  ring

theorem resampleLoop_upsampling (r : Resampler) {inRate outRate : UInt32}
    (h : rateRatio E inRate outRate ≥ 1) (inData : List Int16) (n : ℕ) :
    resampleLoop E r inRate outRate inData n =
      produce (upsample E r inData) (stepFp E inRate outRate) n r.posFp := by
  unfold resampleLoop
  exact if_pos h

section loop
variable {E} (hE : E.Exact) {inRate outRate : UInt32} (hin : isRateSupported inRate = true)
  (hout : isRateSupported outRate = true) (r : Resampler)

include hE hin hout in
theorem resampleLoop_posFp (inData : List Int16) {n : ℕ} (h₁ : -2 ^ 63 ≤ r.posFp)
    (h₂ : r.posFp + n * stepFp E inRate outRate < 2 ^ 63) :
    (resampleLoop E r inRate outRate inData n).posFp =
      r.posFp + n * stepFp E inRate outRate := by
  obtain ⟨hstep, -⟩ := stepFp_bounds hE hin hout
  have hdiv := blocks_advance n (stepFp E inRate outRate)
  have hb : 0 ≤ ((n / 8 : ℕ) : ℤ) * (8 * stepFp E inRate outRate) := by positivity
  have hr : 0 ≤ ((n % 8 : ℕ) : ℤ) * stepFp E inRate outRate := by positivity
  by_cases hup : rateRatio E inRate outRate ≥ 1
  · rw [resampleLoop_upsampling E r hup, produce_eq _ hstep n r.posFp h₁ h₂]
  · rw [resampleLoop_downsampling E r hup]
    dsimp only
    rw [kernelLoop_eq, produce_eq _ (by omega) (n / 8) r.posFp h₁ (by omega), scalarLoop]
    dsimp only
    rw [produce_eq _ hstep (n % 8) _ (by omega) (by omega), add_assoc, hdiv]

variable {chunk : List Int16} (hpos : r.posFp ≤ -(initialDelay E inRate outRate * 2 ^ 32))
  (h₁ : -2 ^ 63 ≤ r.posFp)
  (h₂ : r.posFp + (chunk.length * outRate.toNat / inRate.toNat : ℕ) * stepFp E inRate outRate <
    2 ^ 63)

include hE hin hout hpos h₁ h₂

/-- No index is behind the chunk. -/
theorem loopReads_inside :
    ∀ k ∈ loopReads E r inRate outRate (chunk.length * outRate.toNat / inRate.toNat),
      k < chunk.length := by
  obtain ⟨hstep, -⟩ := stepFp_bounds hE hin hout
  obtain ⟨n, hn⟩ : ∃ n, chunk.length * outRate.toNat / inRate.toNat = n := ⟨_, rfl⟩
  rw [hn] at h₂ ⊢
  have hdiv := blocks_advance n (stepFp E inRate outRate)
  have hb : 0 ≤ ((n / 8 : ℕ) : ℤ) * (8 * stepFp E inRate outRate) := by positivity
  have hr : 0 ≤ ((n % 8 : ℕ) : ℤ) * stepFp E inRate outRate := by positivity
  intro k hk
  unfold loopReads at hk
  dsimp only at hk
  by_cases hup : rateRatio E inRate outRate ≥ 1
  · rw [if_pos hup, mem_produceReads _ hstep h₁ h₂] at hk
    obtain ⟨i, hi, hk⟩ := hk
    exact upsampleReads_inside hE hin hout hpos (by omega) k hk
  · have hblocks : (produceReads (kernelReads E inRate outRate) (8 * stepFp E inRate outRate)
        (n / 8) r.posFp).posFp = r.posFp + (n / 8 : ℕ) * (8 * stepFp E inRate outRate) := by
      unfold produceReads
      rw [produce_eq _ (by omega) (n / 8) r.posFp h₁ (by omega)]
    rw [if_neg hup, List.mem_append, hblocks, mem_produceReads _ (by omega) h₁ (by omega),
      mem_produceReads _ hstep (by omega) (by omega)] at hk
    rcases hk with ⟨i, hi, hk⟩ | ⟨i, hi, hk⟩
    · obtain ⟨m, -, hk⟩ := List.mem_flatMap.mp hk
      rw [block_position] at hk
      exact laneReads_inside hE hin hout hpos (by omega) m k hk
    · rw [add_assoc, rest_position] at hk
      exact scalarReads_inside hE hin hout hpos (by omega) k hk

/-- So what comes after the chunk makes no difference. -/
theorem resampleLoop_ahead (more : List Int16) :
    (resampleLoop E r inRate outRate (chunk ++ more)
        (chunk.length * outRate.toNat / inRate.toNat)).out =
      (resampleLoop E r inRate outRate chunk
        (chunk.length * outRate.toNat / inRate.toNat)).out := by
  obtain ⟨hstep, -⟩ := stepFp_bounds hE hin hout
  obtain ⟨n, hn⟩ : ∃ n, chunk.length * outRate.toNat / inRate.toNat = n := ⟨_, rfl⟩
  rw [hn] at h₂ ⊢
  have hdiv := blocks_advance n (stepFp E inRate outRate)
  have hb : 0 ≤ ((n / 8 : ℕ) : ℤ) * (8 * stepFp E inRate outRate) := by positivity
  have hr : 0 ≤ ((n % 8 : ℕ) : ℤ) * stepFp E inRate outRate := by positivity
  by_cases hup : rateRatio E inRate outRate ≥ 1
  · rw [resampleLoop_upsampling E r hup, resampleLoop_upsampling E r hup]
    apply produce_out_congr hstep h₁ h₂
    intro i hi
    apply upsample_ahead
    exact upsampleReads_inside hE hin hout hpos (by omega)
  · rw [resampleLoop_downsampling E r hup, resampleLoop_downsampling E r hup]
    dsimp only
    rw [kernelLoop_eq, kernelLoop_eq, produce_eq _ (by omega) (n / 8) r.posFp h₁ (by omega),
      produce_eq _ (by omega) (n / 8) r.posFp h₁ (by omega)]
    dsimp only
    refine congrArg₂ _ (List.flatMap_congr fun i hi => ?_) ?_
    · have hlt : i < n / 8 := List.mem_range.mp hi
      rw [block_position]
      apply downsample8_ahead
      exact fun m _ => laneReads_inside hE hin hout hpos (by omega) m
    · apply produce_out_congr hstep (by omega) (by omega)
      intro i hi
      rw [add_assoc, rest_position]
      apply downsample_ahead
      exact scalarReads_inside hE hin hout hpos (by omega)

end loop

/-! ### Calls -/

/-- The resampler after a call. -/
def resamplerNext (r : Resampler) (inRate outRate : UInt32) (call : List Int16 × ℕ) : Resampler :=
  (resampleL16Advanced E r inRate outRate call.1 call.2).2.2

/-- Every input index a call reads: none when it returns for lack of room. -/
def callReads (r : Resampler) (inRate outRate : UInt32) (call : List Int16 × ℕ) : List ℤ :=
  if outSamples E inRate outRate call.1.length > call.2 then []
  else loopReads E r inRate outRate (outSamples E inRate outRate call.1.length)

/-- One call is causal: it starts behind the delay and does not move away from it, reads no index
from the end of its chunk on, and produces the same whatever comes next. -/
structure CausalCall (r : Resampler) (inRate outRate : UInt32) (call : List Int16 × ℕ) : Prop where
  delayed : r.posFp ≤ -(initialDelay E inRate outRate * 2 ^ 32)
  falls : (resamplerNext E r inRate outRate call).posFp ≤ r.posFp
  reads : ∀ k ∈ callReads E r inRate outRate call, k < call.1.length
  ahead : ∀ more, (resampleLoop E r inRate outRate (call.1 ++ more)
      (outSamples E inRate outRate call.1.length)).out =
    (resampleLoop E r inRate outRate call.1 (outSamples E inRate outRate call.1.length)).out

/-- Every call of a sequence is. -/
def Causal (inRate outRate : UInt32) : Resampler → List (List Int16 × ℕ) → Prop
  | _, [] => True
  | r, call :: calls =>
      CausalCall E r inRate outRate call ∧
        Causal inRate outRate (resamplerNext E r inRate outRate call) calls

/-- What a call takes off the position and does not put back: its samples less
`out_samples * step_fp`. -/
def callLoss (inRate outRate : UInt32) (call : List Int16 × ℕ) : ℤ :=
  let outs := call.1.length * outRate.toNat / inRate.toNat
  if outs > call.2 then 0
  else call.1.length * 2 ^ 32 - outs * (inRate.toNat * 2 ^ 32 / outRate.toNat : ℕ)

def lossTotal (inRate outRate : UInt32) (calls : List (List Int16 × ℕ)) : ℤ :=
  (calls.map (callLoss inRate outRate)).sum

section calls
variable {E} (hE : E.Exact) {inRate outRate : UInt32} (hin : isRateSupported inRate = true)
  (hout : isRateSupported outRate = true) (hne : inRate ≠ outRate)

include hE hin hout in
/-- Nothing is gained, and no more than the chunk is lost. -/
theorem callLoss_bounds (call : List Int16 × ℕ) :
    0 ≤ callLoss inRate outRate call ∧ callLoss inRate outRate call ≤ call.1.length * 2 ^ 32 := by
  have hadv := outputs_advance hE hin hout call.1.length
  have hnonneg : 0 ≤ ((call.1.length * outRate.toNat / inRate.toNat : ℕ) : ℤ) *
      stepFp E inRate outRate :=
    mul_nonneg (Int.natCast_nonneg _) (stepFp_bounds hE hin hout).1
  unfold callLoss
  dsimp only
  rw [← stepFp_exact hE]
  split_ifs
  · omega
  · omega

variable (r : Resampler) {call : List Int16 × ℕ} (hlen : call.1.length ≤ 32736)
  (h₁ : -2 ^ 63 ≤ r.posFp) (hpos : r.posFp ≤ -(initialDelay E inRate outRate * 2 ^ 32))

include hE hin hout hne hlen h₁ hpos

/-- The position after a call. -/
theorem resamplerNext_posFp :
    (resamplerNext E r inRate outRate call).posFp =
      wrapInt64 (r.posFp - callLoss inRate outRate call) := by
  obtain ⟨hd, -⟩ := initialDelay_bounds hE hin hout
  have hadv := outputs_advance hE hin hout call.1.length
  unfold resamplerNext resampleL16Advanced callLoss
  rw [if_neg hne]
  dsimp only
  rw [outSamples_exact hE]
  by_cases hroom : call.1.length * outRate.toNat / inRate.toNat > call.2
  · rw [if_pos hroom, if_pos hroom, sub_zero]
    exact (wrapInt64_of_mem h₁ (by omega)).symm
  · rw [if_neg hroom, if_neg hroom]
    dsimp only
    rw [resampleLoop_posFp hE hin hout r call.1 h₁ (by omega), ← stepFp_exact hE]
    congr 1
    ring

/-- **One call.**  It is causal exactly when what it loses still fits the position. -/
theorem causalCall_iff :
    CausalCall E r inRate outRate call ↔ -2 ^ 63 ≤ r.posFp - callLoss inRate outRate call := by
  obtain ⟨hd, -⟩ := initialDelay_bounds hE hin hout
  obtain ⟨hloss₀, hloss₁⟩ := callLoss_bounds hE hin hout call
  have hadv := outputs_advance hE hin hout call.1.length
  have hnext := resamplerNext_posFp hE hin hout hne r hlen h₁ hpos
  constructor
  · intro h
    have hfalls := h.falls
    by_contra hlow
    rw [hnext, wrapInt64_below (by omega) (by omega)] at hfalls
    omega
  · intro hfits
    refine ⟨hpos, ?_, ?_, ?_⟩
    · rw [hnext, wrapInt64_of_mem hfits (by omega)]
      omega
    · unfold callReads
      rw [outSamples_exact hE]
      split_ifs with hroom
      · exact fun k hk => absurd hk List.not_mem_nil
      · exact loopReads_inside hE hin hout r hpos h₁ (by omega)
    · rw [outSamples_exact hE]
      exact resampleLoop_ahead hE hin hout r hpos h₁ (by omega)

end calls

/-! ### Runs -/

theorem lossTotal_nil (inRate outRate : UInt32) : lossTotal inRate outRate [] = 0 := rfl

theorem lossTotal_cons (inRate outRate : UInt32) (call : List Int16 × ℕ)
    (calls : List (List Int16 × ℕ)) :
    lossTotal inRate outRate (call :: calls) =
      callLoss inRate outRate call + lossTotal inRate outRate calls := List.sum_cons

section runs
variable {E} (hE : E.Exact) {inRate outRate : UInt32}

include hE in
/-- From a position behind the delay.  The induction is on the calls: a causal call leaves the
next one behind the delay too. -/
theorem causal_iff (hin : isRateSupported inRate = true) (hout : isRateSupported outRate = true)
    (hne : inRate ≠ outRate) :
    ∀ (calls : List (List Int16 × ℕ)) (r : Resampler), (∀ call ∈ calls, call.1.length ≤ 32736) →
      -2 ^ 63 ≤ r.posFp → r.posFp ≤ -(initialDelay E inRate outRate * 2 ^ 32) →
      (Causal E inRate outRate r calls ↔
        ∀ k, -2 ^ 63 ≤ r.posFp - lossTotal inRate outRate (calls.take k))
  | [], r, _, h₁, _ => by
      refine ⟨fun _ k => ?_, fun _ => trivial⟩
      rw [List.take_nil, lossTotal_nil, sub_zero]
      exact h₁
  | call :: calls, r, hlen, h₁, hpos => by
      have hfit := hlen call List.mem_cons_self
      have hcall := causalCall_iff hE hin hout hne r hfit h₁ hpos
      have hnext := resamplerNext_posFp hE hin hout hne r hfit h₁ hpos
      obtain ⟨hd, -⟩ := initialDelay_bounds hE hin hout
      obtain ⟨hloss, -⟩ := callLoss_bounds hE hin hout call
      -- the rest, behind a call that fits
      have hrest : -2 ^ 63 ≤ r.posFp - callLoss inRate outRate call →
          (Causal E inRate outRate (resamplerNext E r inRate outRate call) calls ↔
            ∀ k, -2 ^ 63 ≤ r.posFp - callLoss inRate outRate call -
              lossTotal inRate outRate (calls.take k)) := by
        intro hfits
        rw [wrapInt64_of_mem hfits (by omega)] at hnext
        rw [← hnext]
        exact causal_iff hin hout hne calls _ (fun c hc => hlen c (List.mem_cons_of_mem _ hc))
          (by omega) (by omega)
      constructor
      · rintro ⟨hc, hcs⟩ k
        have hfits := hcall.mp hc
        match k with
        | 0 =>
            rw [List.take_zero, lossTotal_nil, sub_zero]
            exact h₁
        | k + 1 =>
            rw [List.take_succ_cons, lossTotal_cons, ← sub_sub]
            exact (hrest hfits).mp hcs k
      · intro h
        have hfits : -2 ^ 63 ≤ r.posFp - callLoss inRate outRate call := by
          have hone := h 1
          rw [List.take_succ_cons, List.take_zero, lossTotal_cons, lossTotal_nil,
            add_zero] at hone
          exact hone
        refine ⟨hcall.mpr hfits, (hrest hfits).mpr fun k => ?_⟩
        have hk := h (k + 1)
        rw [List.take_succ_cons, lossTotal_cons, ← sub_sub] at hk
        exact hk

include hE in
/-- **The resampler is causal exactly as long as its position fits 64 bits.** -/
theorem resampler_causal_iff {r : Resampler} (hinit : resamplerInit E inRate outRate = some r)
    (hne : inRate ≠ outRate) (calls : List (List Int16 × ℕ))
    (hlen : ∀ call ∈ calls, call.1.length ≤ 32736) :
    Causal E inRate outRate r calls ↔
      ∀ k, initialDelay E inRate outRate * 2 ^ 32 + lossTotal inRate outRate (calls.take k) ≤
        2 ^ 63 := by
  obtain ⟨hin, hout, hpos⟩ := resamplerInit_posFp hE hinit
  obtain ⟨hd₀, hd₁⟩ := initialDelay_bounds hE hin hout
  rw [causal_iff hE hin hout hne calls r hlen (by omega) (by omega), hpos]
  apply forall_congr'
  intro k
  constructor <;> intro h <;> omega

include hE in
theorem lossTotal_le (hin : isRateSupported inRate = true) (hout : isRateSupported outRate = true)
    (calls : List (List Int16 × ℕ)) :
    lossTotal inRate outRate calls ≤ inputTotal calls * 2 ^ 32 := by
  induction calls with
  | nil => simp [lossTotal_nil, inputTotal]
  | cons call calls ih =>
      obtain ⟨-, hle⟩ := callLoss_bounds hE hin hout call
      rw [lossTotal_cons]
      simp only [inputTotal, List.map_cons, List.sum_cons] at ih ⊢
      push_cast at ih ⊢
      linarith

include hE in
/-- The position has room for 2147483264 samples, whatever they are cut into. -/
theorem lossTotal_fits (hin : isRateSupported inRate = true)
    (hout : isRateSupported outRate = true) {calls : List (List Int16 × ℕ)}
    (htotal : inputTotal calls ≤ 2147483264) (k : ℕ) :
    initialDelay E inRate outRate * 2 ^ 32 + lossTotal inRate outRate (calls.take k) ≤ 2 ^ 63 := by
  have hle := lossTotal_le hE hin hout (calls.take k)
  obtain ⟨-, hd⟩ := initialDelay_bounds hE hin hout
  have hsplit : inputTotal calls = inputTotal (calls.take k) + inputTotal (calls.drop k) := by
    unfold inputTotal
    rw [← List.sum_append, ← List.map_append, List.take_append_drop]
  omega

end runs

/-- Two packets from 44.1 kHz to 8 kHz. -/
theorem resampler_causal_two :
    ∃ r, resamplerInit Env.plain 44100 8000 = some r ∧
      Causal Env.plain 44100 8000 r (List.replicate 2 (List.replicate 882 7, 160)) := by
  obtain ⟨r, hr⟩ : ∃ r, resamplerInit Env.plain 44100 8000 = some r :=
    Option.isSome_iff_exists.mp (by decide +kernel)
  refine ⟨r, hr, (resampler_causal_iff Env.plain_exact hr (by decide) _ ?_).mpr
    (lossTotal_fits Env.plain_exact rfl rfl ?_)⟩
  · intro call hc
    rw [List.eq_of_mem_replicate hc, List.length_replicate]
    decide
  · simp only [inputTotal, List.map_replicate, List.length_replicate, List.sum_replicate]
    decide

/-- Calls with one sample each, from 48 kHz to 8 kHz: none produces an output, and each moves the
position one sample back. -/
def longSession : List (List Int16 × ℕ) := List.replicate (2 ^ 31) ([0], 1)

/-- Before its end the position has wrapped. -/
theorem resampler_not_causal :
    ∃ r, resamplerInit Env.plain 48000 8000 = some r ∧
      (∀ call ∈ longSession, 1 ≤ call.1.length ∧ call.1.length ≤ 32736) ∧
      ¬Causal Env.plain 48000 8000 r longSession := by
  obtain ⟨r, hr⟩ : ∃ r, resamplerInit Env.plain 48000 8000 = some r :=
    Option.isSome_iff_exists.mp (by decide +kernel)
  have hlen : ∀ call ∈ longSession, 1 ≤ call.1.length ∧ call.1.length ≤ 32736 := by
    intro call hc
    rw [List.eq_of_mem_replicate hc]
    decide
  refine ⟨r, hr, hlen, fun h => ?_⟩
  obtain ⟨hin, hout, hpos⟩ := resamplerInit_posFp Env.plain_exact hr
  have hdelay : initialDelay Env.plain 48000 8000 = 384 := by decide +kernel
  rw [hdelay] at hpos
  rw [causal_iff Env.plain_exact hin hout (by decide) longSession r (fun c hc => (hlen c hc).2)
    (by omega) (by rw [hdelay]; omega)] at h
  have hloss : callLoss 48000 8000 ([0], 1) = 2 ^ 32 := by decide +kernel
  have htotal : lossTotal 48000 8000 longSession = 2 ^ 31 * 2 ^ 32 := by
    unfold lossTotal longSession
    rw [List.map_replicate, hloss, List.sum_replicate, nsmul_eq_mul]
    norm_num
  have hall := h (2 ^ 31)
  rw [List.take_of_length_le (by rw [longSession, List.length_replicate]), htotal, hpos] at hall
  omega

end MachAudio
