import Mathlib.Data.List.GetD
import MachAudio.State
import MachAudio.Lib.Simd

/-! # The streaming resampler

`resampler_init` of `resample.c` and `resample_l16_advanced` of `resample_adv.c`, built
with AVX2 as the project is.  Positions are 32.32 fixed-point integers with the 64-bit wrap
of `int64_t`; `double` and `float` values are rationals, rounded by `Env.double` and
`Env.single` after every operation.

Besides the samples, the model returns the indices of `delay_buf` it asks for
(`RESAMPLER_MAX_TAPS + k` for an input index `k < 0`), before any clamp to 0. -/

namespace MachAudio

open Simd

variable {H Φ : Type} (E : Env H Φ)

/-! ### Conversions -/

/-- The C conversion of a floating-point value to an integer type: toward zero. -/
def truncate (q : ℚ) : ℤ := if 0 ≤ q then ⌊q⌋ else ⌈q⌉

/-- `round`: halves away from zero. -/
def roundHalfAway (q : ℚ) : ℤ := if 0 ≤ q then ⌊q + 1 / 2⌋ else ⌈q - 1 / 2⌉

/-- `_MM_FROUND_TO_NEAREST_INT`: halves to the even neighbour. -/
def roundHalfEven (q : ℚ) : ℤ :=
  if q - ⌊q⌋ < 1 / 2 then ⌊q⌋
  else if 1 / 2 < q - ⌊q⌋ then ⌊q⌋ + 1
  else if ⌊q⌋ % 2 = 0 then ⌊q⌋ else ⌊q⌋ + 1

/-- Two's complement of 64 bits. -/
def wrapInt64 (x : ℤ) : ℤ := x.bmod (2 ^ 64)

theorem wrapInt64_of_mem {x : ℤ} (h₁ : -2 ^ 63 ≤ x) (h₂ : x < 2 ^ 63) : wrapInt64 x = x := by
  apply Int.bmod_eq_of_le
  · norm_num at h₁ ⊢; omega
  · norm_num at h₂ ⊢; omega

/-- What leaves the range at the bottom comes back at the top. -/
theorem wrapInt64_below {x : ℤ} (h₁ : -2 ^ 64 ≤ x) (h₂ : x < -2 ^ 63) :
    wrapInt64 x = x + 2 ^ 64 := by
  have hsame : wrapInt64 (x + 2 ^ 64) = wrapInt64 x := Int.add_bmod_right x (2 ^ 64)
  rw [← hsame]
  apply wrapInt64_of_mem <;> omega

/-- `clamp_to_int16`. -/
def clampToInt16 (val : ℚ) : Int16 :=
  let r := roundHalfAway val
  if r > 32767 then 32767 else if r < -32768 then -32768 else Int16.ofInt r

/-! ### Initialisation -/

def isRateSupported (rate : UInt32) : Bool :=
  rate == 8000 || rate == 16000 || rate == 24000 || rate == 32000 || rate == 44100 || rate == 48000

def coeffs8To48 : List (List ℤ) :=
  [[32767, 0, 0, 0, 0, 0, 0, 0], [27306, 5461, 0, 0, 0, 0, 0, 0],
    [21845, 10922, 0, 0, 0, 0, 0, 0], [16384, 16384, 0, 0, 0, 0, 0, 0],
    [10922, 21845, 0, 0, 0, 0, 0, 0], [5461, 27306, 0, 0, 0, 0, 0, 0]]

def coeffs16To48 : List (List ℤ) :=
  [[32767, 0, 0, 0, 0, 0, 0, 0], [21845, 10922, 0, 0, 0, 0, 0, 0],
    [10922, 21845, 0, 0, 0, 0, 0, 0]]

def coeffs24To48 : List (List ℤ) :=
  [[32767, 0, 0, 0, 0, 0, 0, 0], [16384, 16384, 0, 0, 0, 0, 0, 0]]

/-- The initial delay in samples: `ceil(64 * max(1, in_rate / out_rate))`. -/
def initialDelay (inRate outRate : UInt32) : ℤ :=
  let s := E.double ((inRate.toNat : ℚ) / outRate.toNat)
  let s := if s < 1 then 1 else s
  ⌈E.double (s * 64)⌉

/-- `resampler_init`: the initialised resampler, or `none` for `-1`, when `*r` is untouched. -/
def resamplerInit (inRate outRate : UInt32) : Option Resampler :=
  if !isRateSupported inRate || !isRateSupported outRate then none
  else
    let delay := initialDelay E inRate outRate
    let r : Resampler := { Resampler.zero with posFp := wrapInt64 (-(delay * 2 ^ 32)) }
    if inRate = 8000 ∧ outRate = 48000 then some { r with phases := 6, coeffs := coeffs8To48 }
    else if inRate = 16000 ∧ outRate = 48000 then
      some { r with phases := 3, coeffs := coeffs16To48 }
    else if inRate = 24000 ∧ outRate = 48000 then
      some { r with phases := 2, coeffs := coeffs24To48 }
    else some r

/-! ### Input samples -/

def sincTaps : ℕ := 128
def sincPhases : ℕ := 1024

/-- `(SINC_TAPS / 2) - 1`. -/
def centerOff : ℤ := 63

/-- `delay_buf[i]`; below 0 the read leaves the array. -/
def Resampler.delayAt (r : Resampler) (i : ℤ) : Int16 :=
  if 0 ≤ i then r.delayBuf.getD i.toNat 0 else E.belowDelay (-i - 1).toNat

/-- The input sample at index `k ≥ 0`, the last one repeated beyond the end. -/
def inputAt (inData : List Int16) (k : ℤ) : Int16 :=
  if k ≥ inData.length then inData.getD (inData.length - 1) 0 else inData.getD k.toNat 0

/-- An index into the input leads to a sample of it, whatever the position: a request that is
resampled has a sample. -/
theorem inputAt_eq_getElem {inData : List Int16} (h : 0 < inData.length) {k : ℤ} (hk : 0 ≤ k) :
    ∃ (i : ℕ) (hi : i < inData.length), inputAt inData k = inData[i] := by
  unfold inputAt
  split_ifs with hlast
  · exact ⟨inData.length - 1, by omega, List.getD_eq_getElem _ _ _⟩
  · exact ⟨k.toNat, by omega, List.getD_eq_getElem _ _ _⟩

/-- The sample at index `k` as the upsampling path reads it: no clamp. -/
def padSample (r : Resampler) (inData : List Int16) (k : ℤ) : Int16 :=
  if k < 0 then r.delayAt E (resamplerMaxTaps + k) else inputAt inData k

/-- The sample at index `k` as both downsampling loops read it: the delay line clamped at 0. -/
def tapSample (r : Resampler) (inData : List Int16) (k : ℤ) : Int16 :=
  if k < 0 then
    r.delayAt E (if resamplerMaxTaps + k < 0 then 0 else resamplerMaxTaps + k)
  else inputAt inData k

/-- The delay-line indices asked for by reads at the input indices `ks`. -/
def historyReads (ks : List ℤ) : List ℤ := (ks.filter (· < 0)).map (resamplerMaxTaps + ·)

/-- The integers from `lo` to `hi`. -/
def indexRange (lo hi : ℤ) : List ℤ := (List.range (hi + 1 - lo).toNat).map fun (i : ℕ) => lo + i

/-! ### Upsampling -/

/-- Pairwise sums of sixteen products: `_mm256_madd_epi16`, as floats. -/
def maddPs (v c : List ℤ) : List ℚ :=
  (List.range 8).map fun l => E.single
    ((v.getD (2 * l) 0 * c.getD (2 * l) 0 + v.getD (2 * l + 1) 0 * c.getD (2 * l + 1) 0 : ℤ) : ℚ)

/-- `_mm256_add_ps`. -/
def addPs (a b : List ℚ) : List ℚ := List.zipWith (fun x y => E.single (x + y)) a b

/-- `_mm_hadd_ps(v, v)` for a register of four floats. -/
def haddPs (v : List ℚ) : List ℚ :=
  let p := E.single (v.getD 0 0 + v.getD 1 0)
  let q := E.single (v.getD 2 0 + v.getD 3 0)
  [p, q, p, q]

/-- `mac_128_taps_avx2`: two running sums of eight floats over four pairs of sixteen taps,
then the horizontal sum. -/
def mac128TapsAvx2 (inData coeffs : List ℤ) : ℚ :=
  let madd (i : ℕ) := maddPs E ((inData.drop i).take 16) ((coeffs.drop i).take 16)
  let zero : List ℚ := List.replicate 8 0
  let sum0 := [0, 32, 64, 96].foldl (fun acc i => addPs E acc (madd i)) zero
  let sum1 := [0, 32, 64, 96].foldl (fun acc i => addPs E acc (madd (i + 16))) zero
  let sum := addPs E sum0 sum1
  let low := addPs E (sum.take 4) (sum.drop 4)
  (haddPs E (haddPs E low)).getD 0 0

/-- The fractional part of a position, as a `double`. -/
def fracOf (posFp : ℤ) : ℚ := E.double (((posFp % 2 ^ 32 : ℤ) : ℚ) / 2 ^ 32)

/-- One output sample of the upsampling path at position `posFp`, and the delay-line
indices it asks for. -/
def upsample (r : Resampler) (inData : List Int16) (posFp : ℤ) : List Int16 × List ℤ :=
  let idx := posFp / 2 ^ 32
  let phase := truncate (E.double (fracOf E posFp * sincPhases))
  let p := if phase ≥ sincPhases then sincPhases - 1 else phase.toNat
  let coeffs := (List.range sincTaps).map (E.sincCoeffs p)
  if idx ≥ centerOff ∧ idx < inData.length - (sincTaps - centerOff) then
    let window := (inData.drop (idx - centerOff).toNat).take sincTaps
    let acc := mac128TapsAvx2 E (window.map Int16.toInt) coeffs
    ([clampToInt16 (E.double (acc / 32767))], [])
  else
    let ks := indexRange (idx - centerOff) (idx - centerOff + (sincTaps - 1))
    let padBuf := ks.map (padSample E r inData)
    let acc := mac128TapsAvx2 E (padBuf.map Int16.toInt) coeffs
    ([clampToInt16 (E.double (acc / 32767))], historyReads ks)

/-- The window of the path without padding lies in the input. -/
theorem length_window {inData : List Int16} {idx : ℤ} (h₁ : idx ≥ centerOff)
    (h₂ : idx < inData.length - (sincTaps - centerOff)) :
    ((inData.drop (idx - centerOff).toNat).take sincTaps).length = sincTaps := by
  simp only [centerOff, sincTaps] at h₁ h₂ ⊢
  rw [List.length_take, List.length_drop]
  omega

/-! ### Downsampling -/

/-- One output sample of the scalar downsampling loop at position `posFp`. -/
def downsample (ratio s invS : ℚ) (r : Resampler) (inData : List Int16) (posFp : ℤ) :
    List Int16 × List ℤ :=
  let t := E.double ((posFp / 2 ^ 32 : ℤ) + fracOf E posFp)
  let kMin := ⌈E.double (t - E.double (s * centerOff))⌉
  let kMax := ⌊E.double (t + E.double (s * (sincTaps - 1 - centerOff)))⌋
  let valIdx (k : ℤ) := E.double (E.double (E.double (t - k) * invS) + centerOff)
  let ks := (indexRange kMin kMax).filter fun k => 0 ≤ ⌊valIdx k⌋ ∧ ⌊valIdx k⌋ < sincTaps
  let dacc : ℚ := ks.foldl (fun (dacc : ℚ) (k : ℤ) =>
    let j := ⌊valIdx k⌋
    let alpha := E.double (valIdx k - j)
    let p := truncate (E.double (alpha * sincPhases))
    let pp := if p ≥ sincPhases then sincPhases - 1 else p.toNat
    E.double (dacc + E.double ((tapSample E r inData k).toInt * E.sincCoeffs pp j.toNat))) 0
  ([clampToInt16 (E.double (E.double (dacc / 32767) * ratio))], historyReads ks)

/-- Eight outputs of the AVX2 kernel at position `posFp`: one turn of its outer loop. -/
def downsample8 (ratio : ℚ) (r : Resampler) (inData : List Int16) (posFp : ℤ) :
    List Int16 × List ℤ :=
  let s := E.double (1 / ratio)
  let norm := E.single (E.single ratio / 32767)
  let t0 := E.double ((posFp / 2 ^ 32 : ℤ) + fracOf E posFp)
  let t7 := E.double (t0 + E.double (7 * s))
  let kMinAll := ⌈E.double (t0 - E.double (s * centerOff))⌉
  let kMaxAll := ⌊E.double (t7 + E.double (s * (sincTaps - 1 - centerOff)))⌋
  let ks := indexRange kMinAll kMaxAll
  let lanes : List ℤ := (List.range 8).map fun (m : ℕ) =>
    let acc : ℚ := ks.foldl (fun (acc : ℚ) (k : ℤ) =>
      let valIdx0 := E.double (E.double (E.double (t0 - k) * ratio) + centerOff)
      let j0 := ⌊valIdx0⌋
      let p := truncate (E.double (E.double (valIdx0 - j0) * sincPhases))
      let pp := if p ≥ sincPhases then sincPhases - 1 else if p < 0 then 0 else p.toNat
      let jm := j0 + m
      let c := if 0 ≤ jm ∧ jm < sincTaps then E.sincCoeffs pp jm.toNat else 0
      E.single ((tapSample E r inData k).toInt * c + acc)) 0
    roundHalfEven (E.single (acc * norm))
  (lanes.map saturate16, historyReads ks)

/-! ### The loops -/

/-- What a resampling loop has produced: the samples, the delay-line indices asked for, and
the position reached. -/
structure Produced where
  out : List Int16
  history : List ℤ
  posFp : ℤ

/-- `n` turns of a loop that produces `f posFp` and then advances the position by `inc`. -/
def produce (f : ℤ → List Int16 × List ℤ) (inc : ℤ) : ℕ → ℤ → Produced
  | 0, posFp => ⟨[], [], posFp⟩
  | n + 1, posFp =>
      let rest := produce f inc n (wrapInt64 (posFp + inc))
      ⟨(f posFp).1 ++ rest.out, (f posFp).2 ++ rest.history, rest.posFp⟩

/-- `mac_downsample_avx2`: `count` blocks of eight outputs. -/
def macDownsampleAvx2 (r : Resampler) (inData : List Int16) (count : ℕ) (ratio : ℚ)
    (stepFp : ℤ) : Produced :=
  produce (downsample8 E ratio r inData) (8 * stepFp) count r.posFp

/-- The update of the delay line: the last `RESAMPLER_MAX_TAPS` samples seen. -/
def updateHistory (r : Resampler) (inData : List Int16) : Resampler :=
  if h : inData.length ≥ resamplerMaxTaps then
    { r with
      delayBuf := inData.drop (inData.length - resamplerMaxTaps)
      delayBuf_length := by rw [List.length_drop]; omega }
  else
    { r with
      delayBuf := r.delayBuf.drop inData.length ++ inData
      delayBuf_length := by
        rw [List.length_append, List.length_drop, r.delayBuf_length]; omega }

/-- `out_samples` of a call with `n` input samples. -/
def outSamples (inRate outRate : UInt32) (n : ℕ) : ℕ :=
  (truncate (E.double (n * E.double ((outRate.toNat : ℚ) / inRate.toNat)))).toNat

/-- `step_fp`. -/
def stepFp (inRate outRate : UInt32) : ℤ :=
  truncate (E.double (E.double (1 / E.double ((outRate.toNat : ℚ) / inRate.toNat)) * 2 ^ 32))

/-- The loop of `resample_l16_advanced` for `n` outputs.  When downsampling, the first turn
hands all whole blocks of eight to the AVX2 kernel; fewer than eight remain after it. -/
def resampleLoop (r : Resampler) (inRate outRate : UInt32) (inData : List Int16) (n : ℕ) :
    Produced :=
  let ratio := E.double ((outRate.toNat : ℚ) / inRate.toNat)
  let step := stepFp E inRate outRate
  if ratio ≥ 1 then produce (upsample E r inData) step n r.posFp
  else
    let s := E.double (1 / ratio)
    let invS := E.double (1 / s)
    let blocks := macDownsampleAvx2 E r inData (n / 8) ratio step
    let rest := produce (downsample E ratio s invS r inData) step (n % 8) blocks.posFp
    ⟨blocks.out ++ rest.out, blocks.history ++ rest.history, rest.posFp⟩

/-- `resample_l16_advanced`: the samples written to `out_data`, the delay-line indices
asked for, and the resampler after the call. -/
def resampleL16Advanced (r : Resampler) (inRate outRate : UInt32) (inData : List Int16)
    (outCapacity : ℕ) : List Int16 × List ℤ × Resampler :=
  if inRate = outRate then
    let samples := if inData.length < outCapacity then inData.length else outCapacity
    (inData.take samples, [], r)
  else
    let n := outSamples E inRate outRate inData.length
    if n > outCapacity then ([], [], r)
    else
      let p := resampleLoop E r inRate outRate inData n
      (p.out, p.history, { updateHistory r inData with
        posFp := wrapInt64 (p.posFp - inData.length * 2 ^ 32) })

/-! ### What the loops produce -/

/-- A loop whose positions fit 64 bits visits `posFp`, `posFp + inc`, … -/
theorem produce_eq (f : ℤ → List Int16 × List ℤ) {inc : ℤ} (hinc : 0 ≤ inc) (n : ℕ) (posFp : ℤ)
    (h₁ : -2 ^ 63 ≤ posFp) (h₂ : posFp + n * inc < 2 ^ 63) :
    produce f inc n posFp =
      ⟨(List.range n).flatMap fun (i : ℕ) => (f (posFp + i * inc)).1,
        (List.range n).flatMap fun (i : ℕ) => (f (posFp + i * inc)).2, posFp + n * inc⟩ := by
  induction n generalizing posFp with
  | zero => simp [produce]
  | succ n ih =>
      have hn : 0 ≤ (n : ℤ) * inc := mul_nonneg (Int.natCast_nonneg n) hinc
      have hsum : ∀ i : ℕ, posFp + inc + i * inc = posFp + (i + 1 : ℕ) * inc := by
        intro i
        push_cast
        ring
      have hw : wrapInt64 (posFp + inc) = posFp + inc := by
        have := hsum n
        apply wrapInt64_of_mem <;> omega
      rw [produce, hw, ih (posFp + inc) (by omega) (by rw [hsum n]; exact h₂)]
      simp only [hsum, List.range_succ_eq_map, List.flatMap_cons, List.flatMap_map,
        Nat.succ_eq_add_one, Int.natCast_zero, zero_mul, add_zero]

/-- A loop may be cut anywhere. -/
theorem produce_add (f : ℤ → List Int16 × List ℤ) (inc : ℤ) (a b : ℕ) (posFp : ℤ) :
    produce f inc (a + b) posFp =
      ⟨(produce f inc a posFp).out ++ (produce f inc b (produce f inc a posFp).posFp).out,
        (produce f inc a posFp).history ++ (produce f inc b (produce f inc a posFp).posFp).history,
        (produce f inc b (produce f inc a posFp).posFp).posFp⟩ := by
  induction a generalizing posFp with
  | zero => simp [produce]
  | succ a ih =>
      rw [Nat.succ_add, produce, ih]
      simp only [produce, List.append_assoc]

/-! ### How many samples come out -/

theorem length_produce {f : ℤ → List Int16 × List ℤ} {k : ℕ} (hf : ∀ p, (f p).1.length = k)
    (inc : ℤ) : ∀ (n : ℕ) (posFp : ℤ), (produce f inc n posFp).out.length = k * n
  | 0, _ => rfl
  | n + 1, posFp => by
      rw [produce]
      simp only [List.length_append, hf, length_produce hf inc n]
      rw [Nat.mul_succ]
      omega

theorem length_upsample (r : Resampler) (inData : List Int16) (posFp : ℤ) :
    (upsample E r inData posFp).1.length = 1 := by
  simp only [upsample]
  split_ifs <;> rfl

theorem length_downsample8 (ratio : ℚ) (r : Resampler) (inData : List Int16) (posFp : ℤ) :
    (downsample8 E ratio r inData posFp).1.length = 8 := by
  simp [downsample8]

/-- The loop produces one sample for every turn it is asked for. -/
theorem length_resampleLoop (r : Resampler) (inRate outRate : UInt32) (inData : List Int16)
    (n : ℕ) : (resampleLoop E r inRate outRate inData n).out.length = n := by
  simp only [resampleLoop]
  split_ifs
  · rw [length_produce (length_upsample E r inData), Nat.one_mul]
  · rw [List.length_append, macDownsampleAvx2, length_produce (length_downsample8 E _ r inData),
      length_produce (k := 1) fun _ => rfl, Nat.one_mul]
    exact Nat.div_add_mod n 8

theorem length_resampleL16Advanced (r : Resampler) (inRate outRate : UInt32)
    (inData : List Int16) (cap : ℕ) :
    (resampleL16Advanced E r inRate outRate inData cap).1.length =
      if inRate = outRate then min inData.length cap
      else if outSamples E inRate outRate inData.length > cap then 0
      else outSamples E inRate outRate inData.length := by
  by_cases hr : inRate = outRate
  · rw [resampleL16Advanced, if_pos hr, if_pos hr]
    simp only [List.length_take]
    split_ifs <;> omega
  · rw [resampleL16Advanced, if_neg hr, if_neg hr]
    simp only
    split_ifs
    · rfl
    · exact length_resampleLoop E r inRate outRate inData _

end MachAudio
