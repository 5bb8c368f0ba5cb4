import Mathlib.Tactic.Linarith
import Mathlib.Tactic.FieldSimp
import Mathlib.Tactic.NormNum
import MachAudio.Resampler

/-! # How long the resampler stays locked to its input

A call with `n` samples produces `⌊n * out_rate / in_rate⌋` and forgets the remainder
`n * out_rate % in_rate`; nothing carries it to the next call.  Over many calls the output
falls behind by the sum of the remainders over `in_rate`, and the position, which advances
by `step_fp` for every output and goes back by the whole input, drifts away below the start
of the delay line.  The resampler stays locked exactly as long as the remainders add up to
less than two input rates (`stays_locked_iff`).

Everything here is about exact arithmetic (`Env.Exact`). -/

namespace MachAudio

variable {H Φ : Type} {E : Env H Φ} (hE : E.Exact)

/-! ### The exact values -/

theorem truncate_natCast_div (n d : ℕ) : truncate ((n : ℚ) / d) = (n / d : ℕ) := by
  rw [truncate, if_pos (by positivity), Rat.floor_natCast_div_natCast]
  rfl

include hE in
theorem outSamples_exact (inRate outRate : UInt32) (n : ℕ) :
    outSamples E inRate outRate n = n * outRate.toNat / inRate.toNat := by
  have h : (n : ℚ) * ((outRate.toNat : ℚ) / inRate.toNat) =
      ((n * outRate.toNat : ℕ) : ℚ) / inRate.toNat := by
    push_cast
    ring
  rw [outSamples, hE.double, hE.double, h, truncate_natCast_div, Int.toNat_natCast]

include hE in
theorem stepFp_exact (inRate outRate : UInt32) :
    stepFp E inRate outRate = (inRate.toNat * 2 ^ 32 / outRate.toNat : ℕ) := by
  have h : 1 / ((outRate.toNat : ℚ) / inRate.toNat) * 2 ^ 32 =
      ((inRate.toNat * 2 ^ 32 : ℕ) : ℚ) / outRate.toNat := by
    rw [one_div_div]
    push_cast
    ring
  rw [stepFp, hE.double, hE.double, hE.double, h, truncate_natCast_div]

theorem isRateSupported_bounds {rate : UInt32} (h : isRateSupported rate = true) :
    8000 ≤ rate.toNat ∧ rate.toNat ≤ 48000 := by
  simp only [isRateSupported, Bool.or_eq_true, beq_iff_eq] at h
  rcases h with ((((h | h) | h) | h) | h) | h <;> subst h <;> decide

include hE in
/-- The initial delay is at most six kernels of 64 samples. -/
theorem initialDelay_bounds {inRate outRate : UInt32} (hin : isRateSupported inRate = true)
    (hout : isRateSupported outRate = true) :
    0 ≤ initialDelay E inRate outRate ∧ initialDelay E inRate outRate ≤ 384 := by
  obtain ⟨-, hi⟩ := isRateSupported_bounds hin
  obtain ⟨ho, -⟩ := isRateSupported_bounds hout
  have hratio : (inRate.toNat : ℚ) / outRate.toNat ≤ 6 := by
    rw [div_le_iff₀ (by positivity)]
    exact_mod_cast show inRate.toNat ≤ 6 * outRate.toNat by omega
  rw [initialDelay, hE.double]
  simp only [hE.double]
  split_ifs with hlt
  · exact ⟨Int.ceil_nonneg (by norm_num), Int.ceil_le.mpr (by norm_num)⟩
  · refine ⟨Int.ceil_nonneg (by linarith), Int.ceil_le.mpr ?_⟩
    push_cast
    linarith

/-- `resampler_init` accepts the supported rates. -/
theorem resamplerInit_supported {E : Env H Φ} {inRate outRate : UInt32} {r : Resampler}
    (h : resamplerInit E inRate outRate = some r) :
    isRateSupported inRate = true ∧ isRateSupported outRate = true := by
  unfold resamplerInit at h
  split_ifs at h with hs <;> simpa using hs

include hE in
/-- What `resampler_init` leaves. -/
theorem resamplerInit_posFp {inRate outRate : UInt32} {r : Resampler}
    (h : resamplerInit E inRate outRate = some r) :
    isRateSupported inRate = true ∧ isRateSupported outRate = true ∧
      r.posFp = -(initialDelay E inRate outRate * 2 ^ 32) := by
  obtain ⟨hin, hout⟩ := resamplerInit_supported h
  obtain ⟨h₀, h₁⟩ := initialDelay_bounds hE hin hout
  have hw : wrapInt64 (-(initialDelay E inRate outRate * 2 ^ 32)) =
      -(initialDelay E inRate outRate * 2 ^ 32) := by
    apply wrapInt64_of_mem <;> omega
  rw [resamplerInit, if_neg (by simp [hin, hout])] at h
  dsimp only at h
  rw [hw] at h
  refine ⟨hin, hout, ?_⟩
  split_ifs at h <;> (obtain rfl := Option.some.inj h; rfl)

/-! ### History reads -/

theorem mem_historyReads {ks : List ℤ} {i : ℤ} (h : i ∈ historyReads ks) :
    ∃ k ∈ ks, k < 0 ∧ i = resamplerMaxTaps + k := by
  obtain ⟨k, hk, rfl⟩ := List.mem_map.mp h
  obtain ⟨hk, hneg⟩ := List.mem_filter.mp hk
  exact ⟨k, hk, by simpa using hneg, rfl⟩

theorem le_of_mem_indexRange {lo hi k : ℤ} (h : k ∈ indexRange lo hi) : lo ≤ k := by
  obtain ⟨n, -, rfl⟩ := List.mem_map.mp h
  omega

/-- Every index is one of the delay line. -/
def HistoryInside (is : List ℤ) : Prop := ∀ i ∈ is, 0 ≤ i ∧ i < resamplerMaxTaps

/-- The reads of a kernel that starts no further than 1024 samples back. -/
theorem historyInside_of_le {ks : List ℤ} (h : ∀ k ∈ ks, -1024 ≤ k) :
    HistoryInside (historyReads ks) := by
  intro i hi
  obtain ⟨k, hk, hneg, rfl⟩ := mem_historyReads hi
  have := h k hk
  simp only [resamplerMaxTaps]
  omega

/-- How far below the start of the chunk a position may be: 402 samples. -/
def drift : ℤ := 402 * 2 ^ 32

theorem upsample_history (r : Resampler) (inData : List Int16) {posFp : ℤ} (h : -drift ≤ posFp) :
    HistoryInside (upsample E r inData posFp).2 := by
  by_cases hmid : posFp / 2 ^ 32 ≥ centerOff ∧
      posFp / 2 ^ 32 < inData.length - (sincTaps - centerOff)
  · simp only [upsample, if_pos hmid]
    exact fun i hi => absurd hi List.not_mem_nil
  · simp only [upsample, if_neg hmid]
    apply historyInside_of_le
    intro k hk
    have hle := le_of_mem_indexRange hk
    simp only [centerOff, drift] at hle h
    omega

include hE in
/-- A position as a real number. -/
theorem position_exact (posFp : ℤ) :
    E.double ((posFp / 2 ^ 32 : ℤ) + fracOf E posFp) = (posFp : ℚ) / 2 ^ 32 := by
  have h := congrArg (Int.cast : ℤ → ℚ) (Int.ediv_mul_add_emod posFp (2 ^ 32))
  rw [Int.cast_add, Int.cast_mul, Int.cast_pow, Int.cast_ofNat] at h
  rw [hE.double, fracOf, hE.double, ← h]
  ring

/-- The first input index of a stretched kernel. -/
theorem kernel_start {posFp : ℤ} {s : ℚ} (hs : s ≤ 6) (h : -drift ≤ posFp) {k : ℤ}
    (hk : ⌈(posFp : ℚ) / 2 ^ 32 - s * centerOff⌉ ≤ k) : -1024 ≤ k := by
  have h₁ : (posFp : ℚ) / 2 ^ 32 - s * centerOff ≤ k := Int.ceil_le.mp hk
  have h₂ : (-402 : ℚ) ≤ (posFp : ℚ) / 2 ^ 32 := by
    rw [le_div_iff₀ (by norm_num)]
    simp only [drift] at h
    exact_mod_cast h
  have h₃ : s * centerOff ≤ 6 * centerOff := by
    have : (0 : ℚ) ≤ centerOff := by norm_num [centerOff]
    exact mul_le_mul_of_nonneg_right hs this
  have h₄ : (-780 : ℚ) ≤ k := by
    simp only [centerOff] at h₁ h₃
    push_cast at h₁ h₃
    linarith
  have h₅ : (-780 : ℤ) ≤ k := by exact_mod_cast h₄
  omega

include hE in
theorem downsample_history {ratio s invS : ℚ} (hs : s ≤ 6) (r : Resampler) (inData : List Int16)
    {posFp : ℤ} (h : -drift ≤ posFp) :
    HistoryInside (downsample E ratio s invS r inData posFp).2 := by
  apply historyInside_of_le
  intro k hk
  have hle := le_of_mem_indexRange (List.mem_filter.mp hk).1
  rw [position_exact hE, hE.double, hE.double] at hle
  exact kernel_start hs h hle

include hE in
theorem downsample8_history {ratio : ℚ} (hs : 1 / ratio ≤ 6) (r : Resampler)
    (inData : List Int16) {posFp : ℤ} (h : -drift ≤ posFp) :
    HistoryInside (downsample8 E ratio r inData posFp).2 := by
  apply historyInside_of_le
  intro k hk
  have hle := le_of_mem_indexRange hk
  rw [position_exact hE, hE.double, hE.double] at hle
  refine kernel_start ?_ h hle
  rw [hE.double]
  exact hs

/-! ### The loops -/

/-- A loop whose positions stay in 64 bits: where it ends, and what it reads. -/
theorem produce_spec {f : ℤ → List Int16 × List ℤ} {inc : ℤ} (hinc : 0 ≤ inc)
    (hf : ∀ p, -drift ≤ p → HistoryInside (f p).2) : ∀ (n : ℕ) {posFp : ℤ}, -drift ≤ posFp →
    posFp + n * inc < 2 ^ 63 →
    (produce f inc n posFp).posFp = posFp + n * inc ∧ HistoryInside (produce f inc n posFp).history
  | 0, posFp, _, _ => ⟨by simp [produce], fun i hi => absurd hi List.not_mem_nil⟩
  | n + 1, posFp, h₁, h₂ => by
      have hn : 0 ≤ (n : ℤ) * inc := mul_nonneg (Int.natCast_nonneg n) hinc
      have hsum : posFp + inc + n * inc = posFp + (n + 1 : ℕ) * inc := by
        push_cast
        ring
      have hw : wrapInt64 (posFp + inc) = posFp + inc := by
        simp only [drift] at h₁
        apply wrapInt64_of_mem <;> omega
      have hnext : -drift ≤ posFp + inc := by omega
      obtain ⟨ihp, ihh⟩ := produce_spec hinc hf n hnext (by omega)
      rw [produce, hw]
      refine ⟨ihp.trans hsum, fun i hi => ?_⟩
      rcases List.mem_append.mp hi with hi | hi
      · exact hf posFp h₁ i hi
      · exact ihh i hi

/-- Whole blocks of eight and the rest advance the position as far as `n` outputs. -/
theorem blocks_advance (n : ℕ) (step : ℤ) :
    ((n / 8 : ℕ) : ℤ) * (8 * step) + ((n % 8 : ℕ) : ℤ) * step = n * step := by
  calc ((n / 8 : ℕ) : ℤ) * (8 * step) + ((n % 8 : ℕ) : ℤ) * step
      = ((8 * (n / 8) + n % 8 : ℕ) : ℤ) * step := by push_cast; ring
    _ = n * step := by rw [Nat.div_add_mod n 8]

/-- `ratio ≥ 1` on exact rates. -/
theorem ratio_ge_one {a b : ℕ} (ha : 0 < a) : (b : ℚ) / a ≥ 1 ↔ a ≤ b := by
  rw [ge_iff_le, le_div_iff₀ (by exact_mod_cast ha), one_mul]
  exact_mod_cast Iff.rfl

include hE in
theorem resampleLoop_spec {inRate outRate : UInt32} (hin : isRateSupported inRate = true)
    (hout : isRateSupported outRate = true) (r : Resampler) (inData : List Int16) (n : ℕ)
    (h₁ : -drift ≤ r.posFp) (h₂ : r.posFp + n * stepFp E inRate outRate < 2 ^ 63) :
    (resampleLoop E r inRate outRate inData n).posFp = r.posFp + n * stepFp E inRate outRate ∧
      HistoryInside (resampleLoop E r inRate outRate inData n).history := by
  obtain ⟨hi₁, hi₂⟩ := isRateSupported_bounds hin
  obtain ⟨ho₁, ho₂⟩ := isRateSupported_bounds hout
  obtain ⟨step, hstep⟩ : ∃ step, stepFp E inRate outRate = step := ⟨_, rfl⟩
  have hstep0 : 0 ≤ step := by
    rw [← hstep, stepFp_exact hE]
    exact Int.natCast_nonneg _
  rw [hstep] at h₂
  simp only [resampleLoop, hstep, hE.double]
  by_cases hup : (outRate.toNat : ℚ) / inRate.toNat ≥ 1
  · rw [if_pos hup]
    exact produce_spec hstep0 (fun p hp => upsample_history r inData hp) n h₁ h₂
  · rw [if_neg hup]
    have hs : 1 / ((outRate.toNat : ℚ) / inRate.toNat) ≤ 6 := by
      rw [one_div_div, div_le_iff₀ (by exact_mod_cast show 0 < outRate.toNat by omega)]
      exact_mod_cast show inRate.toNat ≤ 6 * outRate.toNat by omega
    have hdiv := blocks_advance n step
    have hb0 : 0 ≤ ((n / 8 : ℕ) : ℤ) * (8 * step) := by positivity
    have hr0 : 0 ≤ ((n % 8 : ℕ) : ℤ) * step := by positivity
    -- whole blocks of eight, then the rest
    have hstep8 : 0 ≤ 8 * step := by omega
    have hrest : -drift ≤ r.posFp + (n / 8 : ℕ) * (8 * step) := by omega
    obtain ⟨hp, hh⟩ := produce_spec hstep8
      (fun p hp => downsample8_history hE hs r inData hp) (n / 8) h₁ (by omega)
    obtain ⟨hp', hh'⟩ := produce_spec hstep0
      (fun p hp => downsample_history hE hs r inData hp) (n % 8) hrest (by omega)
    rw [macDownsampleAvx2, hp]
    refine ⟨by rw [hp', ← hdiv]; ring, fun i hi => ?_⟩
    rcases List.mem_append.mp hi with hi | hi
    · exact hh i hi
    · exact hh' i hi

/-! ### Calls -/

/-- Calls one after another, each with its chunk and its `out_capacity`: the samples of each
and the delay-line indices it asks for. -/
def resampleCalls (E : Env H Φ) (inRate outRate : UInt32) :
    Resampler → List (List Int16 × ℕ) → List (List Int16 × List ℤ)
  | _, [] => []
  | r, call :: calls =>
      let out := resampleL16Advanced E r inRate outRate call.1 call.2
      (out.1, out.2.1) :: resampleCalls E inRate outRate out.2.2 calls

/-- The samples given to the calls. -/
def inputTotal (calls : List (List Int16 × ℕ)) : ℕ := (calls.map fun call => call.1.length).sum

/-- The samples the calls have produced. -/
def outputTotal (outs : List (List Int16 × List ℤ)) : ℕ := (outs.map fun out => out.1.length).sum

/-- What the calls have left over, in units of one output sample over `in_rate`. -/
def remainderTotal (inRate outRate : UInt32) (calls : List (List Int16 × ℕ)) : ℕ :=
  (calls.map fun call => call.1.length * outRate.toNat % inRate.toNat).sum

/-- After every call the output is within one sample of what the input is worth, and no read
of the history leaves the delay line. -/
structure StaysLocked (E : Env H Φ) (inRate outRate : UInt32) (r : Resampler)
    (calls : List (List Int16 × ℕ)) : Prop where
  samples : ∀ k, |(outputTotal ((resampleCalls E inRate outRate r calls).take k) : ℤ) -
    (inputTotal (calls.take k) * outRate.toNat / inRate.toNat : ℕ)| ≤ 1
  history : ∀ out ∈ resampleCalls E inRate outRate r calls, HistoryInside out.2

/-- A call has one to 32736 samples, and room for what it produces. -/
def CallFits (inRate outRate : UInt32) (call : List Int16 × ℕ) : Prop :=
  1 ≤ call.1.length ∧ call.1.length ≤ 32736 ∧
    call.1.length * outRate.toNat / inRate.toNat ≤ call.2

instance (inRate outRate : UInt32) (call : List Int16 × ℕ) :
    Decidable (CallFits inRate outRate call) := inferInstanceAs (Decidable (_ ∧ _ ∧ _))

include hE in
/-- The number of samples does not depend on the state. -/
theorem outputTotal_resampleCalls {inRate outRate : UInt32} (hne : inRate ≠ outRate) :
    ∀ (calls : List (List Int16 × ℕ)) (r : Resampler) (k : ℕ),
      (∀ call ∈ calls, CallFits inRate outRate call) →
      inputTotal (calls.take k) * outRate.toNat =
        outputTotal ((resampleCalls E inRate outRate r calls).take k) * inRate.toNat +
          remainderTotal inRate outRate (calls.take k)
  | [], _, k, _ => by simp [inputTotal, outputTotal, remainderTotal, resampleCalls]
  | _ :: _, _, 0, _ => by simp [inputTotal, outputTotal, remainderTotal]
  | call :: calls, r, k + 1, h => by
      have hfit := h call List.mem_cons_self
      have ih := outputTotal_resampleCalls hne calls
        (resampleL16Advanced E r inRate outRate call.1 call.2).2.2 k
        fun c hc => h c (List.mem_cons_of_mem _ hc)
      have hlen : (resampleL16Advanced E r inRate outRate call.1 call.2).1.length =
          call.1.length * outRate.toNat / inRate.toNat := by
        rw [length_resampleL16Advanced, if_neg hne, outSamples_exact hE,
          if_neg (Nat.not_lt.mpr hfit.2.2)]
      have hdm := Nat.div_add_mod' (call.1.length * outRate.toNat) inRate.toNat
      simp only [inputTotal, outputTotal, remainderTotal, resampleCalls, List.take_succ_cons,
        List.map_cons, List.sum_cons] at ih ⊢
      rw [hlen, Nat.add_mul, Nat.add_mul, ih]
      omega

/-! ### The position -/

/-- `m` outputs of a chunk of `n` advance the position by no more than the chunk. -/
theorem advance_le {a b n : ℕ} (ha : 0 < a) (hb : 0 < b) :
    n * b / a * (a * 2 ^ 32 / b) ≤ n * 2 ^ 32 := by
  have h₁ : n * b / a * a ≤ n * b := Nat.div_mul_le_self _ _
  have h₂ : a * 2 ^ 32 / b * b ≤ a * 2 ^ 32 := Nat.div_mul_le_self _ _
  refine Nat.le_of_mul_le_mul_right ?_ (Nat.mul_pos ha hb)
  calc n * b / a * (a * 2 ^ 32 / b) * (a * b)
      = n * b / a * a * (a * 2 ^ 32 / b * b) := by ring
    _ ≤ n * b * (a * 2 ^ 32) := Nat.mul_le_mul h₁ h₂
    _ = n * 2 ^ 32 * (a * b) := by ring

/-- With `N` samples in, `M` out and the remainder `R`, the position is at most 18 samples
behind where the initial delay has put it: `R` accounts for twelve of them, the truncation
of `step_fp` for six. -/
theorem position_bounds {a b N M R : ℕ} (ha : 0 < a) (hb : 0 < b) (hab : a ≤ 6 * b)
    (hba : b ≤ 6 * a) (htotal : N * b = M * a + R) (hR : R < 2 * a) (hN : N ≤ 2 ^ 32) :
    M * (a * 2 ^ 32 / b) ≤ N * 2 ^ 32 ∧ N * 2 ^ 32 ≤ M * (a * 2 ^ 32 / b) + 18 * 2 ^ 32 := by
  obtain ⟨step, hstep⟩ : ∃ step, a * 2 ^ 32 / b = step := ⟨_, rfl⟩
  obtain ⟨err, herr⟩ : ∃ err, a * 2 ^ 32 % b = err := ⟨_, rfl⟩
  have hsum : step * b + err = a * 2 ^ 32 := by
    rw [← hstep, ← herr]
    exact Nat.div_add_mod' _ _
  have hlt : err < b := herr ▸ Nat.mod_lt _ hb
  have hM : M ≤ 6 * 2 ^ 32 := by
    refine Nat.le_of_mul_le_mul_right ?_ ha
    calc M * a ≤ N * b := by omega
      _ ≤ 2 ^ 32 * (6 * a) := Nat.mul_le_mul hN hba
      _ = 6 * 2 ^ 32 * a := by ring
  have hkey : N * 2 ^ 32 * b = M * step * b + (M * err + R * 2 ^ 32) := by
    calc N * 2 ^ 32 * b = N * b * 2 ^ 32 := by ring
      _ = M * (a * 2 ^ 32) + R * 2 ^ 32 := by rw [htotal]; ring
      _ = M * step * b + (M * err + R * 2 ^ 32) := by rw [← hsum]; ring
  have hrest : M * err + R * 2 ^ 32 ≤ 18 * 2 ^ 32 * b := by
    have h₁ : M * err ≤ 6 * 2 ^ 32 * b := Nat.mul_le_mul hM (Nat.le_of_lt hlt)
    have h₂ : R * 2 ^ 32 ≤ 12 * b * 2 ^ 32 := Nat.mul_le_mul_right _ (by omega)
    calc M * err + R * 2 ^ 32 ≤ 6 * 2 ^ 32 * b + 12 * b * 2 ^ 32 := Nat.add_le_add h₁ h₂
      _ = 18 * 2 ^ 32 * b := by ring
  rw [hstep]
  constructor
  · refine Nat.le_of_mul_le_mul_right ?_ hb
    rw [hkey]
    exact Nat.le_add_right _ _
  · refine Nat.le_of_mul_le_mul_right ?_ hb
    rw [hkey, Nat.add_mul]
    exact Nat.add_le_add_left hrest _

include hE in
/-- The outputs of a call advance the position by no more than its chunk. -/
theorem outputs_advance {inRate outRate : UInt32} (hin : isRateSupported inRate = true)
    (hout : isRateSupported outRate = true) (n : ℕ) :
    ((n * outRate.toNat / inRate.toNat : ℕ) : ℤ) * stepFp E inRate outRate ≤ n * 2 ^ 32 := by
  have ha := (isRateSupported_bounds hin).1
  have hb := (isRateSupported_bounds hout).1
  rw [stepFp_exact hE]
  exact_mod_cast advance_le (n := n) (show 0 < inRate.toNat by omega)
    (show 0 < outRate.toNat by omega)

include hE in
/-- One call from a position that is behind the chunk by the delay and what has accumulated. -/
theorem resampleL16Advanced_position {inRate outRate : UInt32}
    (hin : isRateSupported inRate = true) (hout : isRateSupported outRate = true)
    (hne : inRate ≠ outRate) (r : Resampler) {call : List Int16 × ℕ}
    (hfit : CallFits inRate outRate call) (h₁ : -drift ≤ r.posFp) (h₂ : r.posFp ≤ 0) :
    HistoryInside (resampleL16Advanced E r inRate outRate call.1 call.2).2.1 ∧
      (resampleL16Advanced E r inRate outRate call.1 call.2).2.2.posFp =
        r.posFp + (call.1.length * outRate.toNat / inRate.toNat : ℕ) * stepFp E inRate outRate -
          call.1.length * 2 ^ 32 := by
  have hadv := outputs_advance hE hin hout call.1.length
  obtain ⟨hpos, hlen, hcap⟩ := hfit
  obtain ⟨m, hm⟩ : ∃ m, call.1.length * outRate.toNat / inRate.toNat = m := ⟨_, rfl⟩
  rw [hm] at hadv
  have hnonneg : 0 ≤ (m : ℤ) * stepFp E inRate outRate := by
    rw [stepFp_exact hE]
    positivity
  obtain ⟨hp, hh⟩ := resampleLoop_spec hE hin hout r call.1 m h₁ (by omega)
  simp only [resampleL16Advanced, if_neg hne, outSamples_exact hE, hm] at hcap ⊢
  rw [if_neg (by omega), hp]
  refine ⟨hh, wrapInt64_of_mem ?_ ?_⟩
  · simp only [drift] at h₁
    omega
  · omega

include hE in
/-- As long as the remainders stay below two input rates, no call reads outside the delay
line.  The induction is on the calls; `N`, `M` and `R` are what came before. -/
theorem resampleCalls_history {inRate outRate : UInt32} (hin : isRateSupported inRate = true)
    (hout : isRateSupported outRate = true) (hne : inRate ≠ outRate) :
    ∀ (calls : List (List Int16 × ℕ)) (r : Resampler) (N M R : ℕ),
      (∀ call ∈ calls, CallFits inRate outRate call) →
      r.posFp = -(initialDelay E inRate outRate * 2 ^ 32) + M * stepFp E inRate outRate -
        N * 2 ^ 32 →
      N * outRate.toNat = M * inRate.toNat + R → N + inputTotal calls ≤ 2 ^ 32 →
      (∀ k, R + remainderTotal inRate outRate (calls.take k) < 2 * inRate.toNat) →
      ∀ out ∈ resampleCalls E inRate outRate r calls, HistoryInside out.2
  | [], _, _, _, _, _, _, _, _, _ => fun out h => absurd h List.not_mem_nil
  | call :: calls, r, N, M, R, hfits, hpos, htotal, hN, hR => by
      obtain ⟨hi₁, hi₂⟩ := isRateSupported_bounds hin
      obtain ⟨ho₁, ho₂⟩ := isRateSupported_bounds hout
      obtain ⟨hd₁, hd₂⟩ := initialDelay_bounds hE hin hout
      have hR₀ := hR 0
      simp only [inputTotal, remainderTotal, List.take_zero, List.map_nil, List.sum_nil,
        List.map_cons, List.sum_cons] at hN hR₀
      obtain ⟨hb₁, hb₂⟩ := position_bounds (N := N) (M := M) (R := R) (by omega) (by omega)
        (by omega) (by omega) htotal (by omega) (by omega)
      have hstep : (M : ℤ) * stepFp E inRate outRate =
          (M * (inRate.toNat * 2 ^ 32 / outRate.toNat) : ℕ) := by
        rw [stepFp_exact hE]
        push_cast
        rfl
      obtain ⟨hh, hp⟩ := resampleL16Advanced_position hE hin hout hne r
        (hfits call List.mem_cons_self)
        (by rw [hpos, hstep]; simp only [drift]; omega) (by rw [hpos, hstep]; omega)
      intro out hmem
      rcases List.mem_cons.mp hmem with rfl | hmem
      · exact hh
      · obtain ⟨m, hm⟩ : ∃ m, call.1.length * outRate.toNat / inRate.toNat = m := ⟨_, rfl⟩
        obtain ⟨rem, hrem⟩ : ∃ rem, call.1.length * outRate.toNat % inRate.toNat = rem := ⟨_, rfl⟩
        have hdm : m * inRate.toNat + rem = call.1.length * outRate.toNat := by
          rw [← hm, ← hrem]
          exact Nat.div_add_mod' _ _
        refine resampleCalls_history hin hout hne calls _ (N + call.1.length) (M + m) (R + rem)
          (fun c hc => hfits c (List.mem_cons_of_mem _ hc)) ?_ ?_ ?_ (fun k => ?_) out hmem
        · rw [hp, hpos, hm]
          push_cast
          ring
        · rw [Nat.add_mul, Nat.add_mul, htotal, ← hdm]
          omega
        · simp only [inputTotal]
          omega
        · have := hR (k + 1)
          simp only [remainderTotal, List.take_succ_cons, List.map_cons, List.sum_cons,
            hrem] at this
          simp only [remainderTotal]
          omega

include hE in
/-- **The resampler stays locked exactly as long as its remainders stay below two input
rates.** -/
theorem stays_locked_iff {inRate outRate : UInt32} {r : Resampler}
    (hinit : resamplerInit E inRate outRate = some r) (hne : inRate ≠ outRate)
    (calls : List (List Int16 × ℕ)) (hfits : ∀ call ∈ calls, CallFits inRate outRate call)
    (htotal : inputTotal calls ≤ 2 ^ 32) :
    StaysLocked E inRate outRate r calls ↔
      ∀ k, remainderTotal inRate outRate (calls.take k) < 2 * inRate.toNat := by
  obtain ⟨hin, hout, hpos⟩ := resamplerInit_posFp hE hinit
  have ha : 0 < inRate.toNat := by have := isRateSupported_bounds hin; omega
  -- how far the output is behind, after `k` calls
  have hbehind : ∀ k, inputTotal (calls.take k) * outRate.toNat / inRate.toNat =
      outputTotal ((resampleCalls E inRate outRate r calls).take k) +
        remainderTotal inRate outRate (calls.take k) / inRate.toNat := by
    intro k
    rw [outputTotal_resampleCalls hE hne calls r k hfits, Nat.add_comm (_ * _),
      Nat.add_mul_div_right _ _ ha, Nat.add_comm]
  have hone : ∀ R : ℕ, R / inRate.toNat ≤ 1 ↔ R < 2 * inRate.toNat := by
    intro R
    rw [← Nat.lt_succ_iff, Nat.div_lt_iff_lt_mul ha]
  have hsamples : (∀ k, |(outputTotal ((resampleCalls E inRate outRate r calls).take k) : ℤ) -
      (inputTotal (calls.take k) * outRate.toNat / inRate.toNat : ℕ)| ≤ 1) ↔
        ∀ k, remainderTotal inRate outRate (calls.take k) < 2 * inRate.toNat := by
    apply forall_congr'
    intro k
    rw [hbehind k, ← hone, abs_le]
    generalize remainderTotal inRate outRate (calls.take k) / inRate.toNat = behind
    constructor <;> intro h <;> omega
  constructor
  · exact fun h => hsamples.mp h.samples
  · intro h
    refine ⟨hsamples.mpr h, resampleCalls_history hE hin hout hne calls r 0 0 0 hfits ?_ ?_ ?_ ?_⟩
    · rw [hpos]
      ring
    · ring
    · omega
    · intro k
      rw [Nat.zero_add]
      exact h k

/-! ### Two streams -/

theorem Env.plain_exact : Env.plain.Exact := ⟨fun _ => rfl, fun _ => rfl⟩

/-- From 8 kHz to 16 kHz nothing is left over. -/
theorem stays_locked_double :
    ∃ r, resamplerInit Env.plain 8000 16000 = some r ∧
      StaysLocked Env.plain 8000 16000 r (List.replicate 2 ([1, 2, 3, 4], 8)) := by
  obtain ⟨r, hr⟩ : ∃ r, resamplerInit Env.plain 8000 16000 = some r :=
    Option.isSome_iff_exists.mp (by decide +kernel)
  refine ⟨r, hr, (stays_locked_iff Env.plain_exact hr (by decide) _ ?_ (by decide)).mpr ?_⟩
  · intro call hc
    rw [List.eq_of_mem_replicate hc]
    decide
  · intro k
    match k with
    | 0 => decide
    | 1 => decide
    | k + 2 =>
        rw [List.take_of_length_le (by rw [List.length_replicate]; omega)]
        decide

/-- Twelve calls with one sample each, from 48 kHz to 8 kHz. -/
def singleSamples : List (List Int16 × ℕ) := List.replicate 12 ([0], 128)

/-- They are worth two output samples, and every call has produced none. -/
theorem falls_behind :
    ∃ r, resamplerInit Env.plain 48000 8000 = some r ∧
      (∀ call ∈ singleSamples, CallFits 48000 8000 call) ∧ inputTotal singleSamples = 12 ∧
      ¬StaysLocked Env.plain 48000 8000 r singleSamples := by
  obtain ⟨r, hr⟩ : ∃ r, resamplerInit Env.plain 48000 8000 = some r :=
    Option.isSome_iff_exists.mp (by decide +kernel)
  have hfits : ∀ call ∈ singleSamples, CallFits 48000 8000 call := by
    intro call hc
    rw [List.eq_of_mem_replicate hc]
    decide
  refine ⟨r, hr, hfits, rfl, fun h => ?_⟩
  have hcount := outputTotal_resampleCalls Env.plain_exact (by decide) singleSamples r 12 hfits
  have hlocked := h.samples 12
  have hin : inputTotal (singleSamples.take 12) = 12 := rfl
  have hrem : remainderTotal 48000 8000 (singleSamples.take 12) = 96000 := rfl
  rw [hin] at hcount hlocked
  rw [hrem] at hcount
  generalize outputTotal ((resampleCalls Env.plain 48000 8000 r singleSamples).take 12) = n
    at hcount hlocked
  obtain rfl : n = 0 := by
    simp only [UInt32.reduceToNat] at hcount
    omega
  exact absurd hlocked (by decide)

end MachAudio
