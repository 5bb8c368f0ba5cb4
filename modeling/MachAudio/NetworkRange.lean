import MachAudio.Lib.Gates
import MachAudio.Downsampler
import MachAudio.Network

/-! # The network never leaves its range

`exp_ps` is not the exponential, but it is between 0 and 1 for every argument that is not positive:
below -1/2 the power of two halves a polynomial that is at most 2, and above it the polynomial is at
most 1 by itself.  So the gates are gates (`Gates`), whatever the weights, and the hidden state that
starts at zero stays in `[-1, 1]` (`gru_stays_in_range`). -/

namespace MachAudio

open Gates

/-! ### The exponential -/

theorem roundHalfEven_near (q : ℚ) : |q - roundHalfEven q| ≤ 1 / 2 := by
  have h₀ := Int.floor_le q
  have h₁ := Int.lt_floor_add_one q
  unfold roundHalfEven
  rw [abs_le]
  split_ifs with hlow hhigh heven
  · constructor <;> linarith
  · push_cast
    constructor <;> linarith
  · constructor <;> linarith
  · push_cast
    constructor <;> linarith

/-- The polynomial, step by step: every coefficient is larger than what the step takes off it. -/
theorem expPoly_mem {f : ℚ} (hf : |f| ≤ 1 / 2) :
    0 ≤ expPoly f ∧ expPoly f ≤ 2 ∧ (f ≤ 0 → expPoly f ≤ 1) := by
  unfold expPoly
  dsimp only
  obtain ⟨h4₀, h4₁⟩ := horner_step (10327387 / 2 ^ 30) hf
    (show (0 : ℚ) ≤ 11453439 / 2 ^ 33 by norm_num) le_rfl
  generalize (11453439 / 2 ^ 33 : ℚ) * f + 10327387 / 2 ^ 30 = t4 at *
  obtain ⟨h3₀, h3₁⟩ := horner_step (14899271 / 2 ^ 28) hf (show 0 ≤ t4 by linarith)
    (show t4 ≤ 1 / 64 by linarith)
  generalize t4 * f + 14899271 / 2 ^ 28 = t3 at *
  obtain ⟨h2₀, h2₁⟩ := horner_step (1007583 / 2 ^ 22) hf (show 0 ≤ t3 by linarith)
    (show t3 ≤ 1 / 8 by linarith)
  generalize t3 * f + 1007583 / 2 ^ 22 = t2 at *
  obtain ⟨h1₀, h1₁⟩ := horner_step (1453635 / 2 ^ 21) hf (show 0 ≤ t2 by linarith)
    (show t2 ≤ 1 / 2 by linarith)
  generalize t2 * f + 1453635 / 2 ^ 21 = t1 at *
  obtain ⟨h0₀, h0₁⟩ := horner_step 1 hf (show 0 ≤ t1 by linarith) (show t1 ≤ 1 by linarith)
  exact ⟨by linarith, by linarith, fun hneg => horner_le 1 hneg (by linarith)⟩

theorem pow2n_nonneg (n : ℤ) : 0 ≤ pow2n n := by
  unfold pow2n
  split_ifs
  · exact le_rfl
  · exact (zpow_pos (by norm_num) n).le

theorem pow2n_le_half {n : ℤ} (h : n < 0) : pow2n n ≤ 1 / 2 := by
  unfold pow2n
  split_ifs
  · norm_num
  · calc (2 : ℚ) ^ n ≤ 2 ^ (-1 : ℤ) := zpow_le_zpow_right₀ (by norm_num) (by omega)
      _ = 1 / 2 := by norm_num

theorem expPs_nonneg (x : ℚ) : 0 ≤ expPs x :=
  mul_nonneg (expPoly_mem (roundHalfEven_near _)).1 (pow2n_nonneg _)

theorem expScaled_nonpos {x : ℚ} (h : x ≤ 0) : expScaled x ≤ 0 := by
  apply mul_nonpos_of_nonpos_of_nonneg
  · exact (min_le_left _ _).trans (max_le h (by norm_num))
  · norm_num

/-- **The approximate exponential of an argument that is not positive never exceeds 1.** -/
theorem expPs_le_one {x : ℚ} (h : x ≤ 0) : expPs x ≤ 1 := by
  have hnear := roundHalfEven_near (expScaled x)
  obtain ⟨hpoly, htwo, hone⟩ := expPoly_mem hnear
  have hy := expScaled_nonpos h
  have hn : roundHalfEven (expScaled x) ≤ 0 := by
    obtain ⟨hlo, -⟩ := abs_le.mp hnear
    have hlt : (roundHalfEven (expScaled x) : ℚ) < 1 := by linarith
    have : roundHalfEven (expScaled x) < 1 := by exact_mod_cast hlt
    omega
  unfold expPs
  dsimp only
  rcases lt_or_eq_of_le hn with hneg | hzero
  · have hhalf := pow2n_le_half hneg
    calc expPoly (expScaled x - roundHalfEven (expScaled x)) * pow2n (roundHalfEven (expScaled x))
        ≤ 2 * (1 / 2) := mul_le_mul htwo hhalf (pow2n_nonneg _) (by norm_num)
      _ = 1 := by norm_num
  · rw [hzero, Int.cast_zero, sub_zero] at hone ⊢
    have hpow : pow2n 0 = 1 := by norm_num [pow2n]
    rw [hpow, mul_one]
    exact hone hy

/-- The clamp keeps the biased exponent below the one of infinity. -/
theorem exponent_range (x : ℚ) :
    0 ≤ roundHalfEven (expScaled x) + 127 ∧ roundHalfEven (expScaled x) + 127 ≤ 254 := by
  obtain ⟨hlo, hhi⟩ := abs_le.mp (roundHalfEven_near (expScaled x))
  have hclamp₀ : -88 ≤ min (max x (-88)) 88 := le_min (le_max_right _ _) (by norm_num)
  have hclamp₁ : min (max x (-88)) 88 ≤ 88 := min_le_right _ _
  have hy₀ : -(127 : ℚ) ≤ expScaled x := by
    unfold expScaled
    linarith
  have hy₁ : expScaled x ≤ 127 := by
    unfold expScaled
    linarith
  have hn₀ : (-128 : ℚ) < roundHalfEven (expScaled x) := by linarith
  have hn₁ : (roundHalfEven (expScaled x) : ℚ) < 128 := by linarith
  have hm₀ : -128 < roundHalfEven (expScaled x) := by exact_mod_cast hn₀
  have hm₁ : roundHalfEven (expScaled x) < 128 := by exact_mod_cast hn₁
  omega

/-! ### The gates -/

theorem sigmoidPs_mem (x : ℚ) : 0 < sigmoidPs x ∧ sigmoidPs x ≤ 1 :=
  logistic_mem (expPs_nonneg _)

theorem tanhPs_mem (x : ℚ) : tanhPs x ∈ Set.Icc (-1) 1 := by
  have harg : |x| * -2 ≤ 0 := mul_nonpos_of_nonneg_of_nonpos (abs_nonneg x) (by norm_num)
  obtain ⟨h₀, h₁⟩ := tangent_mem (expPs_nonneg (|x| * -2)) (expPs_le_one harg)
  unfold tanhPs
  dsimp only
  split_ifs
  · rw [abs_of_nonneg h₀]
    constructor <;> linarith
  · constructor <;> linarith

/-! ### Runs -/

/-- Every hidden component lies in `[-1, 1]`. -/
def VadGruState.InBox (state : VadGruState) : Prop := ∀ h ∈ state.hiddenState, h ∈ Set.Icc (-1) 1

theorem vadGruReset_inBox : vadGruReset.InBox := by
  intro h hh
  rw [List.eq_of_mem_replicate hh]
  constructor <;> norm_num

theorem VadGruState.InBox.getD {state : VadGruState} (h : state.InBox) (k : ℕ) :
    state.hiddenState.getD k 0 ∈ Set.Icc (-1) 1 := by
  rw [List.getD_eq_getElem?_getD]
  cases hk : state.hiddenState[k]? with
  | none => constructor <;> norm_num
  | some v => exact h v (List.mem_of_getElem? hk)

section frame
variable (W : GruWeights) {expf : ℚ → ℚ} (hexp : ∀ x, 0 < expf x) {state : VadGruState}

/-- One component: an update by gates. -/
theorem hNewAt_mem (features : List ℚ) {hPrev : ℕ → ℚ} {k : ℕ} (h : hPrev k ∈ Set.Icc (-1) 1) :
    hNewAt W features hPrev k ∈ Set.Icc (-1) 1 := by
  unfold hNewAt
  apply update_mem
  · obtain ⟨hpos, hle⟩ := sigmoidPs_mem
      (inputProj W features (24 + k) + recProj W hPrev (24 + k))
    exact ⟨hpos.le, hle⟩
  · exact tanhPs_mem _
  · exact h

/-- **One frame** keeps the box. -/
theorem vadGruProcessFrameAvx2_inBox (expf : ℚ → ℚ) (h : state.InBox) (features : List ℚ)
    (n : ℕ) : (vadGruProcessFrameAvx2 W expf state features n).1.InBox := by
  unfold vadGruProcessFrameAvx2
  split_ifs
  · exact h
  · intro v hv
    obtain ⟨g, -, hv⟩ := List.mem_flatMap.mp hv
    obtain ⟨lane, -, rfl⟩ := List.mem_map.mp hv
    exact hNewAt_mem W features (h.getD _)

include hexp in
/-- The probability of a frame, from any state. -/
theorem vadGruProcessFrameAvx2_prob (state : VadGruState) (features : List ℚ) :
    0 < (vadGruProcessFrameAvx2 W expf state features vadFeatureDim).2 ∧
      (vadGruProcessFrameAvx2 W expf state features vadFeatureDim).2 < 1 := by
  unfold vadGruProcessFrameAvx2
  rw [if_neg (by simp)]
  exact ⟨(logistic_mem (hexp _).le).1, logistic_lt_one (hexp _)⟩

end frame

/-- A feature vector has as many features as the network takes. -/
structure FeatureVector where
  values : List ℚ
  length_values : values.length = vadFeatureDim

/-- What the frames of a run leave: the state and the probability after each. -/
def gruRun (W : GruWeights) (expf : ℚ → ℚ) :
    VadGruState → List FeatureVector → List (VadGruState × ℚ)
  | _, [] => []
  | state, x :: xs =>
      let r := vadGruProcessFrameAvx2 W expf state x.values x.values.length
      r :: gruRun W expf r.1 xs

section runs
variable (W : GruWeights) {expf : ℚ → ℚ} (hexp : ∀ x, 0 < expf x)

include hexp in
/-- The induction is on the frames, with the box as its invariant. -/
theorem gruRun_inRange : ∀ (xs : List FeatureVector) {state : VadGruState}, state.InBox →
    ∀ r ∈ gruRun W expf state xs, r.1.InBox ∧ 0 < r.2 ∧ r.2 < 1
  | [], _, _ => fun _ h => absurd h List.not_mem_nil
  | x :: xs, state, hbox => by
      have hnext := vadGruProcessFrameAvx2_inBox W expf hbox x.values x.values.length
      intro r hr
      rcases List.mem_cons.mp hr with rfl | hr
      · refine ⟨hnext, ?_⟩
        rw [x.length_values]
        exact vadGruProcessFrameAvx2_prob W hexp state x.values
      · exact gruRun_inRange xs hnext r hr

include hexp in
/-- The maximum over the frames of a buffer. -/
theorem gruFrameLoop_mem (logf : ℚ → ℚ) (pcm : List Int16) (channels : ℕ) :
    ∀ (n offset : ℕ) (state : VadGruState) {maxProb : ℚ}, maxProb ∈ Set.Icc 0 1 →
      (gruFrameLoop W expf logf pcm channels n offset state maxProb).1 ∈ Set.Icc 0 1
  | 0, _, _, _, h => h
  | n + 1, offset, state, maxProb, h => by
      rw [gruFrameLoop]
      apply gruFrameLoop_mem
      obtain ⟨hpos, hlt⟩ := vadGruProcessFrameAvx2_prob W hexp state
        (segmentFeatures logf pcm channels offset)
      split_ifs
      · exact ⟨hpos.le, hlt.le⟩
      · exact h

/-- What the network keeps, over every run from `vad_gru_reset` and for every buffer. -/
structure StaysInRange (expf logf : ℚ → ℚ) : Prop where
  frames : ∀ xs, ∀ r ∈ gruRun W expf vadGruReset xs, r.1.InBox ∧ 0 < r.2 ∧ r.2 < 1
  buffer : ∀ (state : VadGruState) (pcm : List Int16) (samples channels : ℕ), 1 ≤ samples →
    1 ≤ channels →
      (gruProcessPcm W expf logf pcm state samples vadSampleRate channels).1 ∈ Set.Icc 0 1 ∧
      (gruProcessPcm W expf logf pcm state samples vadSampleRate channels).1 ≠ -1

include hexp in
/-- **The network never leaves its range**, whatever its weights. -/
theorem gru_stays_in_range (logf : ℚ → ℚ) : StaysInRange W expf logf := by
  refine ⟨fun xs => gruRun_inRange W hexp xs vadGruReset_inBox, ?_⟩
  intro state pcm samples channels hs hc
  have hmem : (gruProcessPcm W expf logf pcm state samples vadSampleRate channels).1 ∈
      Set.Icc 0 1 := by
    unfold gruProcessPcm
    rw [if_neg (by omega), if_neg (by simp)]
    exact gruFrameLoop_mem W hexp logf pcm channels _ 0 state ⟨le_rfl, zero_le_one⟩
  refine ⟨hmem, fun h => ?_⟩
  rw [h] at hmem
  exact absurd hmem.1 (by norm_num)

end runs

/-- A network without weights, whose output layer always asks for the exponential of 0. -/
def GruWeights.zero : GruWeights := ⟨fun _ => 0, fun _ => 0, fun _ => 0, fun _ => 0, fun _ => 0, 0⟩

theorem gru_stays_in_range_zero : StaysInRange GruWeights.zero (fun _ => 1) fun _ => 0 :=
  gru_stays_in_range GruWeights.zero (fun _ => zero_lt_one) fun _ => 0

/-! ### The detector of a session -/

/-- `bits` stores probabilities as floats do: in their order, 0 as the zero pattern, and none above
the pattern of `1.0f`. -/
structure StoresProbabilities (bits : ℚ → UInt32) : Prop where
  zero : bits 0 = 0
  mono : ∀ p q, 0 ≤ p → p ≤ q → q ≤ 1 → (bits p).toNat ≤ (bits q).toNat
  one : (bits 1).toNat ≤ 0x3F800000

section detector
variable {H Φ : Type} (E : Env H Φ) (W : GruWeights) {expf : ℚ → ℚ} (logf : ℚ → ℚ)
  {bits : ℚ → UInt32}

/-- The environment with this network for its detector. -/
def Env.withNetwork (expf logf : ℚ → ℚ) (bits : ℚ → UInt32) : Env VadGruState ℚ where
  double := E.double
  single := E.single
  sincCoeffs := E.sincCoeffs
  belowDelay := E.belowDelay
  vadReset := vadGruReset
  vadFeature := segmentFeature logf
  vadGruProcessFrame := fun state features =>
    let r := vadGruProcessFrameAvx2 W expf state features features.length
    (r.1, bits r.2)
  malloc := E.malloc
  hrtime := E.hrtime

/-- The comparison of two stored probabilities. -/
theorem StoresProbabilities.floatGt_eq (hbits : StoresProbabilities bits) {p q : ℚ}
    (hp : p ∈ Set.Icc 0 1) (hq : q ∈ Set.Icc 0 1) :
    floatGt (bits p) (bits q) = decide ((bits q).toNat < (bits p).toNat) := by
  have hone : ∀ x ∈ Set.Icc (0 : ℚ) 1, (bits x).toNat ≤ 0x3F800000 := fun x hx =>
    (hbits.mono x 1 hx.1 hx.2 le_rfl).trans hbits.one
  have hp' := hone p hp
  have hq' := hone q hq
  have hnan : ∀ b : UInt32, b.toNat ≤ 0x3F800000 → floatIsNan b = false := by
    intro b hb
    unfold floatIsNan
    rw [Nat.mod_eq_of_lt (by omega), decide_eq_false]
    omega
  unfold floatGt floatKey
  rw [hnan _ hp', hnan _ hq', if_pos (by omega), if_pos (by omega)]
  simp

/-- The larger of two probabilities, stored. -/
theorem StoresProbabilities.larger (hbits : StoresProbabilities bits) {p m : ℚ}
    (hp : p ∈ Set.Icc 0 1) (hm : m ∈ Set.Icc 0 1) :
    (if floatGt (bits p) (bits m) then bits p else bits m) = bits (if p > m then p else m) := by
  rw [hbits.floatGt_eq hp hm]
  by_cases hgt : p > m
  · rw [if_pos hgt]
    have hle := hbits.mono m p hm.1 hgt.le hp.2
    rcases Nat.lt_or_eq_of_le hle with hlt | heq
    · rw [if_pos (by simpa using hlt)]
    · rw [if_neg (by simp [heq])]
      exact UInt32.toNat_inj.mp heq
  · rw [if_neg hgt]
    have hle := hbits.mono p m hp.1 (not_lt.mp hgt) hm.2
    rw [if_neg (by simpa using hle)]

/-- The frame loop of the session's detector stores what the loop on the numbers finds. -/
theorem vadFrames_network (hexp : ∀ x, 0 < expf x) (hbits : StoresProbabilities bits)
    (pcm : List Int16) (channels : ℕ) :
    ∀ (n offset : ℕ) (state : VadGruState) {maxProb : ℚ}, maxProb ∈ Set.Icc 0 1 →
      vadFrames (E.withNetwork W expf logf bits) pcm channels n offset state (bits maxProb) =
        (bits (gruFrameLoop W expf logf pcm channels n offset state maxProb).1,
          (gruFrameLoop W expf logf pcm channels n offset state maxProb).2)
  | 0, _, _, _, _ => rfl
  | n + 1, offset, state, maxProb, h => by
      obtain ⟨hpos, hlt⟩ := vadGruProcessFrameAvx2_prob W hexp state
        (segmentFeatures logf pcm channels offset)
      have hprob : (vadGruProcessFrameAvx2 W expf state (segmentFeatures logf pcm channels offset)
          vadFeatureDim).2 ∈ Set.Icc 0 1 := ⟨hpos.le, hlt.le⟩
      have hframe : (E.withNetwork W expf logf bits).vadGruProcessFrame state
          (vadFeatures (E.withNetwork W expf logf bits) pcm channels offset) =
            ((vadGruProcessFrameAvx2 W expf state (segmentFeatures logf pcm channels offset)
              vadFeatureDim).1, bits (vadGruProcessFrameAvx2 W expf state
                (segmentFeatures logf pcm channels offset) vadFeatureDim).2) := rfl
      rw [vadFrames, gruFrameLoop, hframe, hbits.larger hprob h]
      apply vadFrames_network hexp hbits
      split_ifs
      · exact hprob
      · exact h

/-- **The detector of a session computes the network**, and stores the probability it finds. -/
theorem vadGruProcessPcm_network (hexp : ∀ x, 0 < expf x) (hbits : StoresProbabilities bits)
    (state : VadGruState) (pcm : List Int16) {samples channels : ℕ} (hs : 1 ≤ samples)
    (hc : 1 ≤ channels) :
    vadGruProcessPcm (E.withNetwork W expf logf bits) state pcm samples vadSampleRate channels =
      (bits (gruProcessPcm W expf logf pcm state samples vadSampleRate channels).1,
        (gruProcessPcm W expf logf pcm state samples vadSampleRate channels).2) := by
  unfold vadGruProcessPcm gruProcessPcm
  rw [if_neg (by omega), if_neg (by simp), if_neg (by omega), if_neg (by simp)]
  have h := vadFrames_network E W logf hexp hbits pcm channels (samples / vadFrameSize) 0 state
    (show (0 : ℚ) ∈ Set.Icc 0 1 from ⟨le_rfl, zero_le_one⟩)
  rw [hbits.zero] at h
  exact h

end detector

end MachAudio
