import Mathlib.Data.List.GetD
import MachAudio.Lib.DelayLine
import MachAudio.ResamplerLock

/-! # Chunked upsampling is one filter of the stream

`idealOutput` filters a whole stream: output `j` lies at the position `-64 + j * step`, and is
the multiply-accumulate-and-clamp (`filterSample`) of the 128 samples around it with the
coefficients of the position's phase.  It knows nothing of chunks, of a delay line or of
positions relative to a chunk.

A call of `resample_l16_advanced` computes its part of it, if the delay line holds the last 1024
samples of what came before and the position is that of the next output seen from the start of
the chunk (`Follows`), and it leaves the resampler so for the next call
(`resampleL16Advanced_follows`).  Of the floating-point operations only those that the positions
depend on have to be exact (`ExactPositions`). -/

namespace MachAudio

variable {H Φ : Type} (E : Env H Φ)

/-! ### The filter of a stream -/

/-- The sample of the stream `x` at the index `k`, silence before its start. -/
def streamAt (x : List Int16) (k : ℤ) : Int16 := if k < 0 then 0 else x.getD k.toNat 0

/-- The output sample for a window and a phase. -/
def filterSample (window : List Int16) (phase : ℕ) : Int16 :=
  clampToInt16 (E.double (mac128TapsAvx2 E (window.map Int16.toInt)
    ((List.range sincTaps).map (E.sincCoeffs phase)) / 32767))

/-- The position of output `j` in the stream, in 32.32 fixed point. -/
def idealPosition (inRate outRate : UInt32) (j : ℕ) : ℤ :=
  -(64 * 2 ^ 32) + j * (inRate.toNat * 2 ^ 32 / outRate.toNat : ℕ)

/-- The 128 samples around a position. -/
def idealWindow (x : List Int16) (position : ℤ) : List Int16 :=
  (List.range sincTaps).map fun (i : ℕ) => streamAt x (position / 2 ^ 32 - centerOff + i)

/-- The fraction of a position, times 1024. -/
def idealPhase (position : ℤ) : ℕ := (position % 2 ^ 32 * sincPhases / 2 ^ 32).toNat

def idealSample (x : List Int16) (position : ℤ) : Int16 :=
  filterSample E (idealWindow x position) (idealPhase position)

/-- The filter applied to the whole stream. -/
def idealOutput (inRate outRate : UInt32) (x : List Int16) : List Int16 :=
  (List.range (x.length * outRate.toNat / inRate.toNat)).map fun j =>
    idealSample E x (idealPosition inRate outRate j)

/-- What the positions depend on is computed exactly. -/
structure ExactPositions (inRate outRate : UInt32) : Prop where
  step : stepFp E inRate outRate = (inRate.toNat * 2 ^ 32 / outRate.toNat : ℕ)
  samples : ∀ n ≤ 32736, outSamples E inRate outRate n = n * outRate.toNat / inRate.toNat
  ratio : E.double ((outRate.toNat : ℚ) / inRate.toNat) ≥ 1
  delay : initialDelay E inRate outRate = 64
  phase : ∀ posFp, truncate (E.double (fracOf E posFp * sincPhases)) =
    posFp % 2 ^ 32 * sincPhases / 2 ^ 32

/-- Exact arithmetic is enough. -/
theorem Env.Exact.positions {E : Env H Φ} (hE : E.Exact) {inRate outRate : UInt32}
    (hin : isRateSupported inRate = true) (hlt : inRate.toNat < outRate.toNat) :
    ExactPositions E inRate outRate where
  step := stepFp_exact hE inRate outRate
  samples := fun n _ => outSamples_exact hE inRate outRate n
  ratio := by
    have h := (isRateSupported_bounds hin).1
    rw [hE.double]
    exact (ratio_ge_one (by omega)).mpr (Nat.le_of_lt hlt)
  delay := by
    have h : (inRate.toNat : ℚ) / outRate.toNat < 1 := by
      rw [div_lt_one (by exact_mod_cast Nat.zero_lt_of_lt hlt)]
      exact_mod_cast hlt
    unfold initialDelay
    simp only [hE.double]
    rw [if_pos h]
    norm_num
  phase := by
    intro posFp
    have h₀ : 0 ≤ posFp % 2 ^ 32 := Int.emod_nonneg _ (by norm_num)
    have hfrac : fracOf E posFp * sincPhases =
        (((posFp % 2 ^ 32).toNat * sincPhases : ℕ) : ℚ) / (2 ^ 32 : ℕ) := by
      have hcast : (((posFp % 2 ^ 32).toNat : ℕ) : ℚ) = ((posFp % 2 ^ 32 : ℤ) : ℚ) := by
        exact_mod_cast congrArg (Int.cast : ℤ → ℚ) (Int.toNat_of_nonneg h₀)
      rw [fracOf, hE.double, Nat.cast_mul, hcast]
      push_cast
      ring
    rw [hE.double, hfrac, truncate_natCast_div, Int.natCast_ediv, Nat.cast_mul,
      Int.toNat_of_nonneg h₀]
    norm_num

/-! ### What one output reads -/

/-- The stream `past ++ chunk ++ rest` as a call with `chunk` sees it: the delay line holds the
end of `past`. -/
def Remembers (r : Resampler) (past : List Int16) : Prop :=
  r.delayBuf = DelayLine.feed (List.replicate resamplerMaxTaps 0) past

section output
variable {E} {r : Resampler} {past chunk : List Int16} (rest : List Int16)

/-- Both kinds of read find the stream's sample. -/
theorem padSample_stream (hr : Remembers r past) {k : ℤ} (h₁ : -1024 ≤ k)
    (h₂ : k < chunk.length) :
    padSample E r chunk k = streamAt (past ++ chunk ++ rest) (past.length + k) := by
  unfold padSample streamAt
  by_cases hk : k < 0
  · rw [if_pos hk, Resampler.delayAt, if_pos (by simp only [resamplerMaxTaps]; omega), hr,
      List.getD_eq_getElem?_getD, DelayLine.getElem?_feed]
    by_cases hs : (past.length : ℤ) + k < 0
    · rw [if_pos hs, List.getElem?_append_left, List.getElem?_replicate]
      · split_ifs <;> rfl
      · simp only [List.length_replicate, resamplerMaxTaps]
        omega
    · have hi : past.length + (((resamplerMaxTaps : ℕ) : ℤ) + k).toNat - resamplerMaxTaps =
          ((past.length : ℤ) + k).toNat := by
        simp only [resamplerMaxTaps]
        omega
      rw [if_neg hs, List.getElem?_append_right, List.length_replicate, hi,
        List.getD_eq_getElem?_getD, List.append_assoc, List.getElem?_append_left (by omega)]
      simp only [List.length_replicate, resamplerMaxTaps]
      omega
  · have hi : ((past.length : ℤ) + k).toNat = past.length + k.toNat := by omega
    rw [if_neg hk, if_neg (by omega), inputAt, if_neg (by omega), hi, List.getD_eq_getElem?_getD,
      List.getD_eq_getElem?_getD, List.append_assoc, List.getElem?_append_right (by omega),
      Nat.add_sub_cancel_left, List.getElem?_append_left (by omega)]

/-- The position of the next output, seen from the start of the stream. -/
theorem position_shift (posFp : ℤ) (n : ℕ) :
    (posFp + n * 2 ^ 32) / 2 ^ 32 = posFp / 2 ^ 32 + n ∧
      (posFp + n * 2 ^ 32) % 2 ^ 32 = posFp % 2 ^ 32 :=
  ⟨Int.add_mul_ediv_right _ _ (by norm_num), Int.add_mul_emod_self_right _ _ _⟩

/-- A slice of a list, element by element. -/
theorem take_drop_eq_map (xs : List Int16) {a n : ℕ} (h : a + n ≤ xs.length) :
    (xs.drop a).take n = (List.range n).map fun i => xs.getD (a + i) 0 := by
  apply List.ext_getElem
  · rw [List.length_take, List.length_drop, List.length_map, List.length_range]
    omega
  · intro i hi _
    rw [List.length_take, List.length_drop] at hi
    rw [List.getElem_take, List.getElem_drop, List.getElem_map, List.getElem_range,
      List.getD_eq_getElem _ _ (by omega)]

/-- **One output of the upsampling path.**  Its window has to lie between the start of the delay
line and the end of the chunk; whether it touches the delay line makes no difference. -/
theorem upsample_stream (hphase : ∀ posFp, truncate (E.double (fracOf E posFp * sincPhases)) =
      posFp % 2 ^ 32 * sincPhases / 2 ^ 32)
    (hr : Remembers r past) {posFp : ℤ} (h₁ : -961 ≤ posFp / 2 ^ 32)
    (h₂ : posFp / 2 ^ 32 + 64 < chunk.length) :
    (upsample E r chunk posFp).1 =
      [idealSample E (past ++ chunk ++ rest) (posFp + past.length * 2 ^ 32)] := by
  obtain ⟨hidx, hmod⟩ := position_shift posFp past.length
  have hp : (if truncate (E.double (fracOf E posFp * sincPhases)) ≥ sincPhases then sincPhases - 1
      else (truncate (E.double (fracOf E posFp * sincPhases))).toNat) =
        idealPhase (posFp + past.length * 2 ^ 32) := by
    have hlt : posFp % 2 ^ 32 * sincPhases / 2 ^ 32 < sincPhases := by
      simp only [sincPhases]
      omega
    rw [hphase, idealPhase, hmod, if_neg (by omega)]
  have hwindow : ∀ i : ℕ, i < 128 → padSample E r chunk (posFp / 2 ^ 32 - centerOff + i) =
      streamAt (past ++ chunk ++ rest)
        ((posFp + past.length * 2 ^ 32) / 2 ^ 32 - centerOff + i) := by
    intro i hi
    rw [hidx, padSample_stream rest hr]
    · congr 1
      simp only [centerOff]
      ring
    · simp only [centerOff]
      omega
    · simp only [centerOff]
      omega
  unfold upsample
  dsimp only
  rw [hp]
  split_ifs with hfast
  · -- the window lies inside the chunk
    have hslice : (chunk.drop (posFp / 2 ^ 32 - centerOff).toNat).take sincTaps =
        idealWindow (past ++ chunk ++ rest) (posFp + past.length * 2 ^ 32) := by
      simp only [centerOff, sincTaps] at hfast
      rw [take_drop_eq_map chunk (by simp only [centerOff, sincTaps]; omega), idealWindow]
      refine List.map_congr_left fun i hi => Eq.trans ?_ (hwindow i (List.mem_range.mp hi))
      have hlt : i < 128 := List.mem_range.mp hi
      rw [padSample, centerOff, if_neg (by omega), inputAt, if_neg (by omega)]
      congr 1
      omega
    rw [hslice]
    rfl
  · have hpad : (indexRange (posFp / 2 ^ 32 - centerOff)
        (posFp / 2 ^ 32 - centerOff + (sincTaps - 1))).map (padSample E r chunk) =
          idealWindow (past ++ chunk ++ rest) (posFp + past.length * 2 ^ 32) := by
      have hn : (posFp / 2 ^ 32 - centerOff + (sincTaps - 1) + 1 -
          (posFp / 2 ^ 32 - centerOff)).toNat = sincTaps := by
        simp only [sincTaps]
        omega
      rw [indexRange, hn, List.map_map, idealWindow]
      exact List.map_congr_left fun i hi => hwindow i (List.mem_range.mp hi)
    rw [hpad]
    rfl

end output

/-! ### Positions -/

section step
variable {a b : ℕ}

/-- `J` steps of `a / b` samples, rounded down, stay within `K` samples. -/
theorem step_le (hb : 0 < b) {J K : ℕ} (h : J * a ≤ K * b) : J * (a * 2 ^ 32 / b) ≤ K * 2 ^ 32 := by
  apply Nat.le_of_mul_le_mul_right _ hb
  calc J * (a * 2 ^ 32 / b) * b = J * (a * 2 ^ 32 / b * b) := by ring
    _ ≤ J * (a * 2 ^ 32) := Nat.mul_le_mul_left J (Nat.div_mul_le_self _ _)
    _ = J * a * 2 ^ 32 := by ring
    _ ≤ K * b * 2 ^ 32 := Nat.mul_le_mul_right _ h
    _ = K * 2 ^ 32 * b := by ring

theorem step_lt {J K : ℕ} (h : J * a < K * b) : J * (a * 2 ^ 32 / b) < K * 2 ^ 32 := by
  apply Nat.lt_of_mul_lt_mul_right (a := b)
  calc J * (a * 2 ^ 32 / b) * b = J * (a * 2 ^ 32 / b * b) := by ring
    _ ≤ J * (a * 2 ^ 32) := Nat.mul_le_mul_left J (Nat.div_mul_le_self _ _)
    _ = J * a * 2 ^ 32 := by ring
    _ < K * b * 2 ^ 32 := Nat.mul_lt_mul_of_pos_right h (by norm_num)
    _ = K * 2 ^ 32 * b := by ring

/-- Each of them loses less than a unit. -/
theorem le_step_add (hb : 0 < b) {J K : ℕ} (h : K * b ≤ J * a) :
    K * 2 ^ 32 ≤ J * (a * 2 ^ 32 / b) + J := by
  have hlt : a * 2 ^ 32 ≤ (a * 2 ^ 32 / b + 1) * b := by
    have hmod := Nat.mod_lt (a * 2 ^ 32) hb
    have hdiv := Nat.div_add_mod (a * 2 ^ 32) b
    rw [Nat.add_mul, Nat.one_mul, Nat.mul_comm (a * 2 ^ 32 / b)]
    omega
  apply Nat.le_of_mul_le_mul_right _ hb
  calc K * 2 ^ 32 * b = K * b * 2 ^ 32 := by ring
    _ ≤ J * a * 2 ^ 32 := Nat.mul_le_mul_right _ h
    _ = J * (a * 2 ^ 32) := by ring
    _ ≤ J * ((a * 2 ^ 32 / b + 1) * b) := Nat.mul_le_mul_left J hlt
    _ = (J * (a * 2 ^ 32 / b) + J) * b := by ring

end step

/-! ### One call -/

/-- The resampler is ready for what comes after `past`: so far every output the input is worth has
been produced. -/
structure Follows (inRate outRate : UInt32) (r : Resampler) (past : List Int16) : Prop where
  remembers : Remembers r past
  whole : inRate.toNat ∣ past.length * outRate.toNat
  position : r.posFp =
    idealPosition inRate outRate (past.length * outRate.toNat / inRate.toNat) - past.length * 2 ^ 32

/-- The delay line is fed the chunk. -/
theorem updateHistory_delayBuf (r : Resampler) (inData : List Int16) :
    (updateHistory r inData).delayBuf = DelayLine.feed r.delayBuf inData := by
  have hlen := r.delayBuf_length
  unfold updateHistory
  split
  · rw [DelayLine.feed_of_length_le (by omega), hlen]
  · exact (DelayLine.feed_of_le_length (by omega)).symm

theorem Remembers.next {r : Resampler} {past : List Int16} (h : Remembers r past)
    (chunk : List Int16) (posFp : ℤ) :
    Remembers { updateHistory r chunk with posFp := posFp } (past ++ chunk) := by
  unfold Remembers at h ⊢
  rw [DelayLine.feed_append, ← h]
  exact updateHistory_delayBuf r chunk

/-- The call is not limited by its capacity and leaves no remainder. -/
def ChunkFits (inRate outRate : UInt32) (call : List Int16 × ℕ) : Prop :=
  1 ≤ call.1.length ∧ call.1.length ≤ 32736 ∧ inRate.toNat ∣ call.1.length * outRate.toNat ∧
    call.1.length * outRate.toNat / inRate.toNat ≤ call.2

instance (inRate outRate : UInt32) (call : List Int16 × ℕ) :
    Decidable (ChunkFits inRate outRate call) := inferInstanceAs (Decidable (_ ∧ _ ∧ _ ∧ _))

section call
variable {E} {inRate outRate : UInt32} (hE : ExactPositions E inRate outRate)
  (hin : isRateSupported inRate = true) (hout : isRateSupported outRate = true)

include hin hout in
/-- Where the outputs of a call lie, seen from its chunk: `N` samples have been consumed and `J`
outputs produced for them, and `i` of the `m` outputs of the call's `n` samples. -/
theorem chunk_positions {N n J m : ℕ} (hJ : J * inRate.toNat = N * outRate.toNat)
    (hm : m * inRate.toNat = n * outRate.toNat) (hN : N ≤ 2 ^ 32) :
    -(70 * 2 ^ 32) ≤ idealPosition inRate outRate J - N * 2 ^ 32 ∧
      (∀ i < m, idealPosition inRate outRate (J + i) - N * 2 ^ 32 < (n - 64) * 2 ^ 32) ∧
      idealPosition inRate outRate (J + m) - N * 2 ^ 32 ≤ (n - 64) * 2 ^ 32 := by
  have ha := (isRateSupported_bounds hin).1
  have hb := isRateSupported_bounds hout
  have hJle : J ≤ 6 * 2 ^ 32 := by
    apply Nat.le_of_mul_le_mul_right _ (show 0 < inRate.toNat by omega)
    calc J * inRate.toNat = N * outRate.toNat := hJ
      _ ≤ 2 ^ 32 * (6 * inRate.toNat) := Nat.mul_le_mul hN (by omega)
      _ = 6 * 2 ^ 32 * inRate.toNat := by ring
  have hpos : 0 < outRate.toNat := by omega
  have hlow := le_step_add hpos (Nat.le_of_eq hJ.symm)
  refine ⟨?_, fun i hi => ?_, ?_⟩
  · unfold idealPosition
    generalize inRate.toNat * 2 ^ 32 / outRate.toNat = q at hlow ⊢
    zify at hlow hJle
    omega
  · have hlt : (J + i) * inRate.toNat < (N + n) * outRate.toNat := by
      have hi' : i * inRate.toNat < m * inRate.toNat := Nat.mul_lt_mul_of_pos_right hi (by omega)
      rw [Nat.add_mul, Nat.add_mul]
      omega
    have h := step_lt hlt
    unfold idealPosition
    generalize inRate.toNat * 2 ^ 32 / outRate.toNat = q at h ⊢
    zify at h
    push_cast
    omega
  · have hle : (J + m) * inRate.toNat ≤ (N + n) * outRate.toNat := by
      rw [Nat.add_mul, Nat.add_mul]
      omega
    have h := step_le hpos hle
    unfold idealPosition
    generalize inRate.toNat * 2 ^ 32 / outRate.toNat = q at h ⊢
    zify at h
    push_cast
    omega

/-- A loop with one sample a turn. -/
theorem produce_out_map {f : ℤ → List Int16 × List ℤ} {inc : ℤ} (posFp : ℤ) {n : ℕ}
    {g : ℕ → Int16} (hinc : 0 ≤ inc) (h₁ : -2 ^ 63 ≤ posFp) (h₂ : posFp + n * inc < 2 ^ 63)
    (hf : ∀ i < n, (f (posFp + (i : ℕ) * inc)).1 = [g i]) :
    (produce f inc n posFp).out = (List.range n).map g ∧
      (produce f inc n posFp).posFp = posFp + n * inc := by
  rw [produce_eq f hinc n posFp h₁ h₂]
  refine ⟨?_, rfl⟩
  dsimp only
  rw [List.map_eq_flatMap]
  exact List.flatMap_congr fun i hi => hf i (List.mem_range.mp hi)

include hE hin hout

/-- **One call.**  It computes its part of the filter of any stream it is part of, and the
resampler follows that stream. -/
theorem resampleL16Advanced_follows (hlt : inRate.toNat < outRate.toNat) {r : Resampler}
    {past : List Int16} (hr : Follows inRate outRate r past) {call : List Int16 × ℕ}
    (hcall : ChunkFits inRate outRate call) (hN : past.length ≤ 2 ^ 32) (rest : List Int16) :
    (resampleL16Advanced E r inRate outRate call.1 call.2).1 =
        (List.range (call.1.length * outRate.toNat / inRate.toNat)).map (fun i =>
          idealSample E (past ++ call.1 ++ rest)
            (idealPosition inRate outRate (past.length * outRate.toNat / inRate.toNat + i))) ∧
      Follows inRate outRate (resampleL16Advanced E r inRate outRate call.1 call.2).2.2
        (past ++ call.1) := by
  obtain ⟨chunk, cap⟩ := call
  obtain ⟨h1, hn, hwhole, hcap⟩ := hcall
  dsimp only at h1 hn hwhole hcap ⊢
  have hne : inRate ≠ outRate := by
    rintro rfl
    omega
  obtain ⟨J, hJ⟩ : ∃ J, past.length * outRate.toNat / inRate.toNat = J := ⟨_, rfl⟩
  obtain ⟨m, hm⟩ : ∃ m, chunk.length * outRate.toNat / inRate.toNat = m := ⟨_, rfl⟩
  have hJ' : J * inRate.toNat = past.length * outRate.toNat := by
    rw [← hJ, Nat.div_mul_cancel hr.whole]
  have hm' : m * inRate.toNat = chunk.length * outRate.toNat := by
    rw [← hm, Nat.div_mul_cancel hwhole]
  have hpos := hr.position
  rw [hJ] at hpos ⊢
  rw [hm] at hcap ⊢
  have hshift : ∀ i : ℕ, r.posFp + i * stepFp E inRate outRate =
      idealPosition inRate outRate (J + i) - past.length * 2 ^ 32 := by
    intro i
    rw [hpos, hE.step, idealPosition, idealPosition]
    push_cast
    ring
  obtain ⟨hlow, hmid, hend⟩ := chunk_positions hin hout hJ' hm' hN
  rw [← hpos] at hlow
  rw [← hshift] at hend
  simp only [← hshift] at hmid
  clear hpos
  have hstep : 0 ≤ stepFp E inRate outRate := by
    rw [hE.step]
    exact Int.natCast_nonneg _
  have hsamples : outSamples E inRate outRate chunk.length = m := by rw [hE.samples _ hn, hm]
  have hloop := produce_out_map r.posFp (f := upsample E r chunk) (n := m) hstep
    (by omega) (by omega)
    (g := fun i => idealSample E (past ++ chunk ++ rest) (idealPosition inRate outRate (J + i))) ?_
  · unfold resampleL16Advanced resampleLoop
    rw [if_neg hne]
    dsimp only
    rw [hsamples, if_neg (by omega), if_pos hE.ratio]
    refine ⟨hloop.1, hr.remembers.next chunk _, ?_, ?_⟩
    · rw [List.length_append, Nat.add_mul]
      exact Nat.dvd_add hr.whole hwhole
    · have htotal : (past ++ chunk).length * outRate.toNat / inRate.toNat = J + m := by
        have hrate := (isRateSupported_bounds hin).1
        apply Nat.div_eq_of_eq_mul_left (by omega)
        rw [List.length_append, Nat.add_mul, Nat.add_mul, hJ', hm']
      have hback : 0 ≤ (m : ℤ) * stepFp E inRate outRate := mul_nonneg (Int.natCast_nonneg m) hstep
      dsimp only
      rw [htotal, hloop.2, wrapInt64_of_mem (by omega) (by omega), hshift, List.length_append]
      push_cast
      ring
  · intro i hi
    have hlt := hmid i hi
    have hge : 0 ≤ (i : ℤ) * stepFp E inRate outRate := mul_nonneg (Int.natCast_nonneg i) hstep
    rw [upsample_stream rest hE.phase hr.remembers (by omega) (by omega), hshift, sub_add_cancel]

/-- The calls from a resampler that follows `past` on.  The induction is on the calls. -/
theorem resampleCalls_stream (hlt : inRate.toNat < outRate.toNat)
    (calls : List (List Int16 × ℕ)) {r : Resampler} {past : List Int16}
    (hr : Follows inRate outRate r past) (hcalls : ∀ call ∈ calls, ChunkFits inRate outRate call)
    (hlen : past.length + (calls.flatMap Prod.fst).length ≤ 2 ^ 32) :
    (resampleCalls E inRate outRate r calls).flatMap Prod.fst =
      (List.range ((calls.flatMap Prod.fst).length * outRate.toNat / inRate.toNat)).map fun i =>
        idealSample E (past ++ calls.flatMap Prod.fst)
          (idealPosition inRate outRate (past.length * outRate.toNat / inRate.toNat + i)) := by
  induction calls generalizing r past with
  | nil => simp [resampleCalls]
  | cons call calls ih =>
      have hcall := hcalls call List.mem_cons_self
      obtain ⟨-, -, ⟨m, hm⟩, -⟩ := id hcall
      obtain ⟨J, hJ⟩ := hr.whole
      have hrate := (isRateSupported_bounds hin).1
      rw [List.flatMap_cons, List.length_append] at hlen
      obtain ⟨hout₁, hnext⟩ := resampleL16Advanced_follows hE hin hout hlt hr hcall (by omega)
        (calls.flatMap Prod.fst)
      have ih := ih hnext (fun c hc => hcalls c (List.mem_cons_of_mem _ hc))
        (by rw [List.length_append]; omega)
      have hm₁ : call.1.length * outRate.toNat / inRate.toNat = m := by
        rw [hm, Nat.mul_div_cancel_left _ (by omega)]
      have hJ₁ : past.length * outRate.toNat / inRate.toNat = J := by
        rw [hJ, Nat.mul_div_cancel_left _ (by omega)]
      have hJ₂ : (past ++ call.1).length * outRate.toNat / inRate.toNat = J + m := by
        rw [List.length_append, Nat.add_mul, hJ, hm, ← Nat.mul_add,
          Nat.mul_div_cancel_left _ (by omega)]
      have htotal : (call.1 ++ calls.flatMap Prod.fst).length * outRate.toNat / inRate.toNat =
          m + (calls.flatMap Prod.fst).length * outRate.toNat / inRate.toNat := by
        rw [List.length_append, Nat.add_mul, hm, Nat.mul_add_div (by omega)]
      rw [resampleCalls, List.flatMap_cons, List.flatMap_cons, hout₁, ih, htotal, hm₁, hJ₁, hJ₂,
        List.range_add, List.map_append, List.map_map, List.append_assoc]
      simp only [Function.comp_def, Nat.add_assoc]

/-- A fresh resampler follows the empty stream. -/
theorem resamplerInit_follows {r : Resampler} (h : resamplerInit E inRate outRate = some r) :
    Follows inRate outRate r [] := by
  have hs : ¬(!isRateSupported inRate || !isRateSupported outRate) = true := by
    rw [hin, hout]
    decide
  rw [resamplerInit, if_neg hs, hE.delay] at h
  have hw : wrapInt64 (-(64 * 2 ^ 32)) = -(64 * 2 ^ 32) := by decide
  dsimp only at h
  rw [hw] at h
  have hfields : r.posFp = -(64 * 2 ^ 32) ∧ r.delayBuf = List.replicate resamplerMaxTaps 0 := by
    split_ifs at h <;> (obtain rfl := Option.some.inj h; exact ⟨rfl, rfl⟩)
  refine ⟨?_, by simp, ?_⟩
  · rw [Remembers, DelayLine.feed_nil]
    exact hfields.2
  · rw [hfields.1]
    simp [idealPosition]

/-- **Chunked upsampling is the ideal filter of the stream**, for every split into chunks that
leave no remainder. -/
theorem upsampling_is_stream_filter (hlt : inRate.toNat < outRate.toNat) {r : Resampler}
    (hr : resamplerInit E inRate outRate = some r) (calls : List (List Int16 × ℕ))
    (hcalls : ∀ call ∈ calls, ChunkFits inRate outRate call)
    (hlen : (calls.flatMap Prod.fst).length ≤ 2 ^ 32) :
    (resampleCalls E inRate outRate r calls).flatMap Prod.fst =
      idealOutput E inRate outRate (calls.flatMap Prod.fst) := by
  have h := resampleCalls_stream hE hin hout hlt calls (resamplerInit_follows hE hin hout hr) hcalls
    (by simpa using hlen)
  simpa [idealOutput] using h

end call

/-- A table with nothing but the two taps in the middle. -/
def Env.tent : Env Unit Unit :=
  { Env.plain with sincCoeffs := fun _ j => if j = 63 ∨ j = 64 then 16384 else 0 }

theorem Env.tent_exact : Env.tent.Exact := ⟨fun _ => rfl, fun _ => rfl⟩

/-- From 8 kHz to 16 kHz: a chunk longer than the delay of the filter, and a short one. -/
def doubleCalls : List (List Int16 × ℕ) :=
  [((List.range 96).map fun i => Int16.ofNat (100 * i), 320), ([7, 8, 9], 128)]

/-- The output is not all zeros: behind the delay come the samples of the first chunk. -/
theorem upsampling_is_stream_filter_double :
    ∃ r, resamplerInit Env.tent 8000 16000 = some r ∧
      (resampleCalls Env.tent 8000 16000 r doubleCalls).flatMap Prod.fst =
        idealOutput Env.tent 8000 16000 (doubleCalls.flatMap Prod.fst) ∧
      (idealOutput Env.tent 8000 16000 (doubleCalls.flatMap Prod.fst))[190]? = some 3150 := by
  have hin : isRateSupported 8000 = true := by decide
  have hout : isRateSupported 16000 = true := by decide
  have hlt : (8000 : UInt32).toNat < (16000 : UInt32).toNat := by decide
  obtain ⟨r, hr⟩ : ∃ r, resamplerInit Env.tent 8000 16000 = some r :=
    Option.isSome_iff_exists.mp (by decide +kernel)
  exact ⟨r, hr, upsampling_is_stream_filter (Env.tent_exact.positions hin hlt) hin hout hlt hr
    doubleCalls (by decide) (by decide), by decide +kernel⟩

end MachAudio
