import MachAudio.Reachable
import MachAudio.Frame
import MachAudio.Client

/-! # What the VAD field of a `CMD_OUTPUT` says

`vadCalls` follows a request up to its encoding step and collects the calls of
`vad_gru_process_pcm` it makes; the frames of these calls are what was evaluated for the
message (`evaluatedProbs`).  `Truthful` says what the field should tell the client about
them.

The pipeline's last probability is that of the last call, or `-1.0f` without one
(`audioProcessTranscode_vad`).  A call on fewer samples than a frame evaluates nothing and
returns the initial maximum `0.0f`, and a request without buffers returns before the field is
set; `FieldMeets` excludes exactly these two. -/

namespace MachAudio

open ByteMem Exec

variable {H Φ : Type} (E : Env H Φ)

/-! ### The calls of a request -/

/-- The arguments of a call of `vad_gru_process_pcm`, at 16 kHz. -/
structure VadCall (H : Type) where
  state : H
  pcm : List Int16
  samples : ℕ
  channels : ℕ

def VadCall.result (c : VadCall H) : UInt32 × H :=
  vadGruProcessPcm E c.state c.pcm c.samples vadSampleRate c.channels

/-- What `vad_gru_process_frame` returns for `n` frames from `offset` on. -/
def frameProbs (pcm : List Int16) (channels : ℕ) : ℕ → ℕ → H → List UInt32
  | 0, _, _ => []
  | n + 1, offset, state =>
      let r := E.vadGruProcessFrame state (vadFeatures E pcm channels offset)
      r.2 :: frameProbs pcm channels n (offset + vadFrameSize) r.1

/-- The probabilities a call evaluates. -/
def VadCall.probs (c : VadCall H) : List UInt32 :=
  if c.samples < 1 ∨ c.channels ≤ 0 then []
  else frameProbs E c.pcm c.channels (c.samples / vadFrameSize) 0 c.state

/-- The call `runVad` makes in the state `w`. -/
def Work.runVadCalls (w : Work H) (buf : Block) (samples channels : ℕ) : List (VadCall H) :=
  match w.session.vadState with
  | none => []
  | some state =>
      [⟨state, (loadSamples buf 0 (vadExtent samples channels) w).1, samples, channels⟩]

/-- The call of `inputVad`. -/
def inputVadCalls (l16Buf : Block) (l16Samples : ℕ) : Pipe H (List (VadCall H)) :=
  Exec.read fun w =>
    if w.session.vadRuns w.session.inSampleRate then
      w.runVadCalls l16Buf l16Samples w.session.inChannels.toNat
    else []

/-- The call of `outputVad`. -/
def outputVadCalls (resampledBuf : Block) (resampledSamples : ℕ) : Pipe H (List (VadCall H)) :=
  Exec.read fun w =>
    if w.session.lastVadProb == minusOneFloat && w.session.vadRuns w.session.outSampleRate then
      w.runVadCalls resampledBuf resampledSamples w.session.outChannels.toNat
    else []

/-- `processMixed` up to the encoding step, with the calls it makes. -/
def processMixedCalls (l16Buf : Block) (l16Samples : ℕ) : Pipe H (List (VadCall H)) := do
  let calls ← inputVadCalls l16Buf l16Samples
  inputVad E l16Buf l16Samples
  let some (resampledBuf, resampledSamples) ← resampleStep E l16Buf l16Samples | return calls
  let calls' ← outputVadCalls resampledBuf resampledSamples
  return calls ++ calls'

/-- The calls of a request, by `audioProcessTranscode` up to its encoding step. -/
def vadCalls (payload : List UInt8) : Pipe H (List (VadCall H)) := do
  let numBuffers := ntohl payload 0
  if numBuffers = 0 then return []
  else
    match ← mixInputs payload numBuffers.toNat (UInt32.ofNat sizeofInputPayload) none with
    | none => return []
    | some none => return []
    | some (some (l16Buf, l16Samples)) =>
        if l16Samples = 0 then return [] else processMixedCalls E l16Buf l16Samples

/-- The probabilities of all frames evaluated for a `CMD_INPUT`. -/
def evaluatedProbs (a : AudioState H) (payload : List UInt8) : List UInt32 :=
  (vadCalls E payload ⟨a.session, a.arena, []⟩).1.flatMap (VadCall.probs E)

/-! ### What the field should say -/

/-- A `float` between 0 and 1. -/
def IsProbability (p : UInt32) : Prop := 0 ≤ floatKey p ∧ floatKey p ≤ 0x3F800000

instance (p : UInt32) : Decidable (IsProbability p) := inferInstanceAs (Decidable (_ ∧ _))

/-- `p` is, as a number, the largest of `ps`. -/
def IsMaximum (ps : List UInt32) (p : UInt32) : Prop :=
  (∃ q ∈ ps, floatKey q = floatKey p) ∧ ∀ q ∈ ps, floatKey q ≤ floatKey p

/-- `-1.0` when the detector is off, has no state, or no stream at its rate, or when no frame
was evaluated for this message; else the maximum of what was evaluated for it. -/
def Truthful (a : AudioState H) (payload : List UInt8) (vadProb : UInt32) : Prop :=
  if a.session.vadEnabled = true ∧ a.session.vadState.isSome = true ∧
      (a.session.inSampleRate = vadSampleRate ∨ a.session.outSampleRate = vadSampleRate) ∧
      evaluatedProbs E a payload ≠ [] then
    IsMaximum (evaluatedProbs E a payload) vadProb
  else vadProb = minusOneFloat

/-- The sample times the detector is called on when `n` are mixed, 0 when it has no stream. -/
def TranscodeSession.detectorSamples (s : TranscodeSession H) (n : ℕ) : ℕ :=
  if s.vadRuns s.inSampleRate ∧ 1 ≤ s.inChannels.toNat then n
  else if s.vadRuns s.outSampleRate ∧ 1 ≤ s.outChannels.toNat then (s.finalBlock E 0 n).2
  else 0

/-- A request without buffers finds `-1.0` in the session; any other gives the detector
nothing or at least a frame. -/
def FieldMeets (a : AudioState H) (payload : List UInt8) : Prop :=
  if ntohl payload 0 = 0 then a.session.lastVadProb = minusOneFloat
  else
    ∀ len ∈ (bufferLengths payload).head?,
      a.session.detectorSamples E (a.session.decodedSamples len) = 0 ∨
        vadFrameSize ≤ a.session.detectorSamples E (a.session.decodedSamples len)

/-! ### One call -/

/-- The comparison of the frame loop. -/
def floatMax (m p : UInt32) : UInt32 := if floatGt p m then p else m

theorem vadFrames_fst (pcm : List Int16) (channels n offset : ℕ) (state : H) (m : UInt32) :
    (vadFrames E pcm channels n offset state m).1 =
      (frameProbs E pcm channels n offset state).foldl floatMax m := by
  induction n generalizing offset state m with
  | zero => rfl
  | succ n ih =>
      rw [vadFrames, ih]
      rfl

theorem length_frameProbs (pcm : List Int16) (channels n offset : ℕ) (state : H) :
    (frameProbs E pcm channels n offset state).length = n := by
  induction n generalizing offset state with
  | zero => rfl
  | succ n ih => rw [frameProbs, List.length_cons, ih]

theorem IsProbability.not_nan {p : UInt32} (h : IsProbability p) : floatIsNan p = false := by
  obtain ⟨h₁, h₂⟩ := h
  unfold floatKey at h₁ h₂
  unfold floatIsNan
  have hlt := p.toNat_lt
  split at h₁
  · rename_i hp
    rw [if_pos hp] at h₂
    exact decide_eq_false (by omega)
  · exact decide_eq_false (by omega)

/-- The maximum so far is the larger of the two, and one of them. -/
theorem floatMax_spec {m p : UInt32} (hm : IsProbability m) (hp : IsProbability p) :
    floatKey m ≤ floatKey (floatMax m p) ∧ floatKey p ≤ floatKey (floatMax m p) ∧
      (floatMax m p = m ∨ floatMax m p = p) := by
  unfold floatMax floatGt
  rw [hm.not_nan, hp.not_nan]
  by_cases h : floatKey m < floatKey p
  · simp only [Bool.not_false, Bool.true_and, h, decide_true, if_true]
    exact ⟨Int.le_of_lt h, Int.le_refl _, .inr trivial⟩
  · simp only [Bool.not_false, Bool.true_and, h, decide_false, Bool.false_eq_true, if_false]
    exact ⟨Int.le_refl _, Int.not_lt.mp h, .inl trivial⟩

theorem foldl_floatMax_spec {ps : List UInt32} (hps : ∀ p ∈ ps, IsProbability p) {m : UInt32}
    (hm : IsProbability m) :
    floatKey m ≤ floatKey (ps.foldl floatMax m) ∧
      (∀ p ∈ ps, floatKey p ≤ floatKey (ps.foldl floatMax m)) ∧
      (ps.foldl floatMax m = m ∨ ps.foldl floatMax m ∈ ps) := by
  induction ps generalizing m with
  | nil => exact ⟨Int.le_refl _, fun p hp => absurd hp List.not_mem_nil, .inl rfl⟩
  | cons p ps ih =>
      have hp := hps p List.mem_cons_self
      obtain ⟨h₁, h₂, h₃⟩ := floatMax_spec hm hp
      have hmax : IsProbability (floatMax m p) := by
        rcases h₃ with h | h <;> rw [h] <;> assumption
      obtain ⟨ih₁, ih₂, ih₃⟩ := ih (fun q hq => hps q (List.mem_cons_of_mem _ hq)) hmax
      rw [List.foldl_cons]
      refine ⟨h₁.trans ih₁, fun q hq => ?_, ?_⟩
      · rcases List.mem_cons.mp hq with rfl | hq
        · exact h₂.trans ih₁
        · exact ih₂ q hq
      · rcases ih₃ with h | h
        · rcases h₃ with h' | h'
          · exact .inl (h.trans h')
          · exact .inr (by rw [h, h']; exact List.mem_cons_self)
        · exact .inr (List.mem_cons_of_mem _ h)

/-- From `0.0f` on, the loop ends with the maximum of what it saw, if it saw anything. -/
theorem isMaximum_foldl {ps : List UInt32} (hps : ∀ p ∈ ps, IsProbability p) (hne : ps ≠ []) :
    IsMaximum ps (ps.foldl floatMax 0) := by
  obtain ⟨h₁, h₂, h₃⟩ := foldl_floatMax_spec hps (m := 0) (by decide)
  refine ⟨?_, h₂⟩
  rcases h₃ with h | h
  · obtain ⟨q, hq⟩ := List.exists_mem_of_ne_nil ps hne
    have hle := h₂ q hq
    have hge := (hps q hq).1
    have h0 : floatKey 0 = 0 := by decide
    refine ⟨q, hq, ?_⟩
    rw [h, h0] at hle ⊢
    omega
  · exact ⟨_, h, rfl⟩

/-- A call without samples or channels evaluates nothing and returns `-1.0f`. -/
theorem VadCall.result_of_empty {c : VadCall H} (h : c.samples = 0 ∨ c.channels = 0) :
    c.probs E = [] ∧ (c.result E).1 = minusOneFloat := by
  have hc : c.samples < 1 ∨ c.channels ≤ 0 := by omega
  constructor
  · rw [VadCall.probs, if_pos hc]
  · rw [VadCall.result, vadGruProcessPcm, if_pos hc]

/-- Any other call evaluates its complete frames and returns their maximum, from `0.0f` on. -/
theorem VadCall.result_of_pos {c : VadCall H} (hs : 1 ≤ c.samples) (hc : 1 ≤ c.channels) :
    (c.probs E).length = c.samples / vadFrameSize ∧
      (c.result E).1 = (c.probs E).foldl floatMax 0 := by
  have hpos : ¬(c.samples < 1 ∨ c.channels ≤ 0) := by omega
  rw [VadCall.probs, if_neg hpos]
  constructor
  · exact length_frameProbs E _ _ _ _ _
  · rw [VadCall.result, vadGruProcessPcm, if_neg hpos, if_neg (by simp), vadFrames_fst]

/-! ### The calls of one request -/

/-- `p` is what calls that give the detector `m` sample times leave in the session. -/
def Reports (cs : List (VadCall H)) (m : ℕ) (p : UInt32) : Prop :=
  if m = 0 then cs.flatMap (VadCall.probs E) = [] ∧ p = minusOneFloat
  else
    (cs.flatMap (VadCall.probs E)).length = m / vadFrameSize ∧
      p = (cs.flatMap (VadCall.probs E)).foldl floatMax 0

theorem reports_nil : Reports E [] 0 minusOneFloat := by
  unfold Reports
  rw [if_pos rfl]
  exact ⟨rfl, rfl⟩

theorem VadCall.reports (c : VadCall H) :
    Reports E [c] (if 1 ≤ c.channels then c.samples else 0) (c.result E).1 := by
  unfold Reports
  rw [List.flatMap_cons, List.flatMap_nil, List.append_nil]
  by_cases hc : 1 ≤ c.channels
  · rw [if_pos hc]
    by_cases hs : c.samples = 0
    · rw [if_pos hs]
      exact c.result_of_empty E (.inl hs)
    · rw [if_neg hs]
      exact c.result_of_pos E (by omega) hc
  · rw [if_neg hc, if_pos rfl]
    exact c.result_of_empty E (.inr (by omega))

/-- A call that evaluates nothing may stand before the others. -/
theorem Reports.cons_empty {c : VadCall H} {cs : List (VadCall H)} {m : ℕ} {p : UInt32}
    (hc : c.probs E = []) (h : Reports E cs m p) : Reports E (c :: cs) m p := by
  unfold Reports at h ⊢
  rwa [List.flatMap_cons, hc, List.nil_append]

section calls
variable (b : Block) (n : ℕ) (w : Work H)

theorem runVad_call {state : H} (channels : ℕ) (h : w.session.vadState = some state) :
    ∃ c : VadCall H, w.runVadCalls b n channels = [c] ∧ c.samples = n ∧ c.channels = channels ∧
      (runVad E b n channels w).2.session =
        { w.session with lastVadProb := (c.result E).1, vadState := some (c.result E).2 } := by
  refine ⟨⟨state, (loadSamples b 0 (vadExtent n channels) w).1, n, channels⟩, ?_, rfl, rfl, ?_⟩
  · rw [Work.runVadCalls, h]
  · simp only [runVad, bind_apply, getSession_apply, h, setSession_apply]
    rfl

theorem inputVad_apply :
    inputVad E b n w =
      (if w.session.vadRuns w.session.inSampleRate then
        runVad E b n w.session.inChannels.toNat else pure ())
        { w with session := { w.session with lastVadProb := minusOneFloat } } := rfl

theorem outputVad_apply :
    outputVad E b n w =
      (if w.session.vadEnabled && w.session.vadState.isSome &&
          w.session.lastVadProb == minusOneFloat &&
          w.session.outSampleRate == vadSampleRate then
        runVad E b n w.session.outChannels.toNat else pure ()) w := rfl

/-- The input is not at the detector's rate, or the detector is off. -/
theorem inputVad_off (h : w.session.vadRuns w.session.inSampleRate = false) :
    (inputVadCalls b n w).1 = [] ∧
      (inputVad E b n w).2.session = { w.session with lastVadProb := minusOneFloat } := by
  have hno : ¬w.session.vadRuns w.session.inSampleRate = true := by rw [h]; decide
  constructor
  · exact if_neg hno
  · rw [inputVad_apply, if_neg hno]
    rfl

theorem inputVad_on (h : w.session.vadRuns w.session.inSampleRate = true) :
    ∃ c : VadCall H, (inputVadCalls b n w).1 = [c] ∧ c.samples = n ∧
      c.channels = w.session.inChannels.toNat ∧
      (inputVad E b n w).2.session =
        { w.session with lastVadProb := (c.result E).1, vadState := some (c.result E).2 } := by
  obtain ⟨state, hst⟩ : ∃ state, w.session.vadState = some state := by
    simp only [TranscodeSession.vadRuns, Bool.and_eq_true] at h
    exact Option.isSome_iff_exists.mp h.1.2
  -- the call is made in the session whose probability has been reset
  obtain ⟨c, hcalls, hsamples, hchannels, hsession⟩ :=
    runVad_call E b n { w with session := { w.session with lastVadProb := minusOneFloat } }
      w.session.inChannels.toNat hst
  refine ⟨c, ?_, hsamples, hchannels, ?_⟩
  · exact (if_pos h).trans hcalls
  · rw [inputVad_apply, if_pos h]
    exact hsession

/-- The detector has run on the input, the output is not at its rate, or it is off. -/
theorem outputVad_off
    (h : w.session.lastVadProb ≠ minusOneFloat ∨
      w.session.vadRuns w.session.outSampleRate = false) :
    (outputVadCalls b n w).1 = [] ∧ (outputVad E b n w).2.session = w.session := by
  have hcond : ¬(w.session.lastVadProb == minusOneFloat &&
      w.session.vadRuns w.session.outSampleRate) = true := by
    rcases h with h | h <;> simp [h]
  have hcode : ¬(w.session.vadEnabled && w.session.vadState.isSome &&
      w.session.lastVadProb == minusOneFloat &&
      w.session.outSampleRate == vadSampleRate) = true := by
    intro hcode
    simp only [Bool.and_eq_true] at hcode
    exact hcond (by simp [TranscodeSession.vadRuns, hcode.1.1.1, hcode.1.1.2, hcode.1.2, hcode.2])
  constructor
  · exact if_neg hcond
  · rw [outputVad_apply, if_neg hcode]
    rfl

theorem outputVad_on (hp : w.session.lastVadProb = minusOneFloat)
    (h : w.session.vadRuns w.session.outSampleRate = true) :
    ∃ c : VadCall H, (outputVadCalls b n w).1 = [c] ∧ c.samples = n ∧
      c.channels = w.session.outChannels.toNat ∧
      (outputVad E b n w).2.session.lastVadProb = (c.result E).1 := by
  have hparts := h
  simp only [TranscodeSession.vadRuns, Bool.and_eq_true] at hparts
  obtain ⟨⟨hen, hst⟩, hrate⟩ := hparts
  obtain ⟨state, hstate⟩ := Option.isSome_iff_exists.mp hst
  obtain ⟨c, hcalls, hsamples, hchannels, hsession⟩ :=
    runVad_call E b n w w.session.outChannels.toNat hstate
  have hcond : (w.session.lastVadProb == minusOneFloat &&
      w.session.vadRuns w.session.outSampleRate) = true := by simp [hp, h]
  have hcode : (w.session.vadEnabled && w.session.vadState.isSome &&
      w.session.lastVadProb == minusOneFloat &&
      w.session.outSampleRate == vadSampleRate) = true := by
    simp only [Bool.and_eq_true]
    exact ⟨⟨⟨hen, hst⟩, by simp [hp]⟩, hrate⟩
  refine ⟨c, ?_, hsamples, hchannels, ?_⟩
  · exact (if_pos hcond).trans hcalls
  · rw [outputVad_apply, if_pos hcode, hsession]

/-- A step that holds the session. -/
theorem Work.sat_session {α : Type} {x : Pipe H α} (hx : Keeps Work.held x)
    (s : TranscodeSession H) :
    Sat (fun w => w.session = s) x fun _ w => w.session = s :=
  fun w hw => (congrArg Prod.fst (hx w)).trans hw

/-- The resampling step hands on the final block's samples and changes the resampler only, and
that only when it succeeds. -/
theorem resampleStep_sat (s : TranscodeSession H) :
    Sat (fun w => w.session = s) (resampleStep E b n) fun o w =>
      (∀ r, o = some r → r.2 = (s.finalBlock E 0 n).2) ∧ (o = none → w.session = s) ∧
        ∃ r, w.session = { s with resampler := r } := by
  refine Sat.bind (Q := fun s' w => s' = s ∧ w.session = s) (fun w hw => ⟨hw, hw⟩) fun s' =>
    Sat.assume fun hs' => ?_
  subst hs'
  refine Sat.ite (fun hres => ?_) fun hres => ?_
  · refine Sat.bind (Q := fun q w => q = n * s'.outSampleRate.toNat / s'.inSampleRate.toNat ∧
      w.session = s') (fun w hw => ⟨rfl, hw⟩) fun q => Sat.assume fun hq => ?_
    refine Sat.bind (Work.sat_session (alloc_keeps _) s') fun o => ?_
    cases o with
    | none => exact Sat.pure fun w hw => ⟨fun r hr => absurd hr.symm (Option.some_ne_none r),
        fun _ => hw, s'.resampler, hw⟩
    | some out =>
        refine Sat.bind (Q := fun pcm w => pcm.length = n ∧ w.session = s') (fun w hw => ⟨?_, hw⟩)
          fun pcm => Sat.assume fun hpcm => ?_
        · rw [loadSamples_apply, length_ofBytes, length_load]
          omega
        · refine fun w hw => ⟨fun r hr => ?_, fun h => absurd h (Option.some_ne_none _), _, rfl⟩
          have hcount : (s'.finalBlock E 0 n).2 = s'.resampledCount E n := by
            rw [TranscodeSession.finalBlock, if_pos hres]
          rw [hcount, ← Option.some.inj hr, TranscodeSession.resampledCount,
            TranscodeSession.outCap, ← hq, ← hpcm]
          exact length_resampleL16Advanced E _ _ _ _ _
  · refine Sat.pure fun w hw => ⟨fun r hr => ?_, fun _ => hw, s'.resampler, hw⟩
    rw [← Option.some.inj hr, TranscodeSession.finalBlock, if_neg hres]

/-- What the second place reports when the first one left `-1.0f`. -/
theorem outputVad_reports (hp : w.session.lastVadProb = minusOneFloat) :
    Reports E (outputVadCalls b n w).1
      (if w.session.vadRuns w.session.outSampleRate ∧ 1 ≤ w.session.outChannels.toNat then n else 0)
      (outputVad E b n w).2.session.lastVadProb := by
  cases hr : w.session.vadRuns w.session.outSampleRate with
  | false =>
      obtain ⟨hcalls, hsession⟩ := outputVad_off E b n w (.inr hr)
      rw [hcalls, hsession, hp, if_neg (by simp)]
      exact reports_nil E
  | true =>
      obtain ⟨c, hcalls, hsamples, hchannels, hprob⟩ := outputVad_on E b n w hp hr
      have h := c.reports E
      rw [hsamples, hchannels] at h
      rw [hcalls, hprob]
      simpa using h

/-- The two places together, `w₁` and `w₂` being the states before and behind the resampling. -/
theorem vadPlaces_report (hn : 1 ≤ n) {w₁ w₂ : Work H} {out : Block} {m : ℕ} {r : Resampler}
    (hw₁ : w₁ = (inputVad E b n w).2) (hw₂ : w₂.session = { w₁.session with resampler := r })
    (hm : m = (w₁.session.finalBlock E 0 n).2) :
    Reports E ((inputVadCalls b n w).1 ++ (outputVadCalls out m w₂).1)
      (w.session.detectorSamples E n) (outputVad E out m w₂).2.session.lastVadProb := by
  unfold TranscodeSession.detectorSamples
  cases hr : w.session.vadRuns w.session.inSampleRate with
  | false =>
      obtain ⟨hcalls, hsession⟩ := inputVad_off E b n w hr
      rw [← hw₁] at hsession
      rw [hsession] at hw₂ hm
      have hm' : m = (w.session.finalBlock E 0 n).2 := hm
      rw [hcalls, List.nil_append, if_neg (by simp), ← hm']
      have h := outputVad_reports E out m w₂ (by rw [hw₂])
      rw [hw₂] at h
      exact h
  | true =>
      obtain ⟨c, hcalls, hsamples, hchannels, hsession⟩ := inputVad_on E b n w hr
      rw [← hw₁] at hsession
      rw [hsession] at hw₂ hm
      rw [hcalls]
      by_cases hch : 1 ≤ w.session.inChannels.toNat
      · rw [if_pos ⟨rfl, hch⟩]
        have hne : (c.result E).1 ≠ minusOneFloat :=
          vadGruProcessPcm_ne_minusOne E (by omega) (by omega)
        obtain ⟨hcalls₂, hsession₂⟩ := outputVad_off E out m w₂ (.inl (by rw [hw₂]; exact hne))
        have h := c.reports E
        rw [if_pos (by omega), hsamples] at h
        rw [hcalls₂, hsession₂, hw₂, List.append_nil]
        exact h
      · rw [if_neg (fun h => hch h.2)]
        obtain ⟨hprobs, hprob⟩ := c.result_of_empty E (.inr (by omega))
        have h := outputVad_reports E out m w₂ (by rw [hw₂]; exact hprob)
        have hst : w.session.vadState.isSome = true := by
          simp only [TranscodeSession.vadRuns, Bool.and_eq_true] at hr
          exact hr.1.2
        rw [hw₂] at h
        have hruns : TranscodeSession.vadRuns { w.session with
            lastVadProb := (c.result E).1, vadState := some (c.result E).2, resampler := r }
              w.session.outSampleRate = w.session.vadRuns w.session.outSampleRate := by
          simp only [TranscodeSession.vadRuns, hst, Option.isSome_some]
        simp only [hruns] at h
        have hm' : m = (w.session.finalBlock E 0 n).2 := hm
        rw [← hm']
        exact h.cons_empty E hprobs

/-- Everything behind the mixing. -/
theorem processMixed_reports (lo : ℕ) (hn : 1 ≤ n) (h : (processMixed E lo b n w).1 = 0) :
    Reports E (processMixedCalls E b n w).1 (w.session.detectorSamples E n)
      (processMixed E lo b n w).2.session.lastVadProb := by
  obtain ⟨w₁, hw₁⟩ : ∃ w₁, w₁ = (inputVad E b n w).2 := ⟨_, rfl⟩
  obtain ⟨hcount, -, r, hsession⟩ := resampleStep_sat E b n w₁.session w₁ rfl
  have hread : (inputVadCalls b n w).2 = w := rfl
  unfold processMixed at h ⊢
  unfold processMixedCalls
  simp only [bind_apply, hread, ← hw₁] at h ⊢
  generalize resampleStep E b n w₁ = x at h hcount hsession ⊢
  rcases x with ⟨_ | ⟨out, m⟩, w₂⟩
  · cases h
  · have hkeep : (encodeStep lo out m (outputVad E out m w₂).2).2.session =
        (outputVad E out m w₂).2.session := congrArg Prod.fst (encodeStep_keeps out m lo _)
    simp only [bind_apply, pure_apply, hkeep]
    exact vadPlaces_report E b n w hn hw₁ hsession (hcount _ rfl)

end calls

/-- A request with a container that succeeds. -/
theorem AudioState.Ok.vadCalls_report {a : AudioState H} (h : a.Ok) {payload : List UInt8}
    (hpay : payload.length < 2 ^ 31) (hnum : ntohl payload 0 ≠ 0)
    (hret : (a.transcode E payload).1 = 0) :
    ∃ len lens, bufferLengths payload = len :: lens ∧
      Reports E (vadCalls E payload ⟨a.session, a.arena, []⟩).1
        (a.session.detectorSamples E (a.session.decodedSamples len))
        (a.transcode E payload).2.session.lastVadProb := by
  have hsize : a.arena.size = 262144 := h.size
  have hcurr := h.curr
  have hG := grants_true a.arena.curr a.arena.size
  have hcode := (h.transcode_shape E hpay).1
  have hstart := a.at_start fun _ => True
  unfold AudioState.transcode audioProcessTranscode at hret ⊢
  unfold vadCalls
  simp only [bind_apply, getCurr_apply, if_neg hnum] at hret ⊢
  have hkeep := congrArg Prod.fst (mixInputs_keeps payload (ntohl payload 0).toNat
    (UInt32.ofNat sizeofInputPayload) none ⟨a.session, a.arena, []⟩)
  cases hl : bufferLengths payload with
  | nil =>
      have hx := (mixInputs_nil (n := (ntohl payload 0).toNat) hl _ hstart).1
      rw [hx] at hret
      cases hret
  | cons len lens =>
      refine ⟨len, lens, rfl, ?_⟩
      have hx := (mixInputs_cons hG (by omega) (by omega) hpay (Nat.le_refl _) (by omega)
        (fun _ => trivial) (n := (ntohl payload 0).toNat) hl
        (fun _ _ _ _ _ _ _ _ => ⟨trivial, trivial⟩) _ hstart).1
      generalize mixInputs payload _ _ none _ = x at hx hkeep hret ⊢
      obtain ⟨o, w⟩ := x
      dsimp only at hx hkeep hret ⊢
      subst hx
      split_ifs at hret ⊢ with hk
      · cases hb : bumps a.arena.size a.arena.curr ((len :: lens).map a.session.blockSize) with
        | none =>
            rw [hb] at hret
            cases hret
        | some c =>
            rw [hb] at hret
            simp only [Option.map_some] at hret ⊢
            by_cases hn : a.session.decodedSamples len = 0
            · rw [if_pos hn] at hret
              cases hret
            · rw [if_neg hn] at hret
              rw [if_neg hn, if_neg hn]
              have hr := processMixed_reports E _ _ w a.arena.curr (by omega) hret
              have hs : w.session = a.session := hkeep
              rwa [hs] at hr
      · cases hret

/-! ### When the field is truthful -/

/-- A detector with samples is on, has a state, and one of the rates is its own. -/
theorem detectorSamples_due {s : TranscodeSession H} {n : ℕ} (h : s.detectorSamples E n ≠ 0) :
    s.vadEnabled = true ∧ s.vadState.isSome = true ∧
      (s.inSampleRate = vadSampleRate ∨ s.outSampleRate = vadSampleRate) := by
  unfold TranscodeSession.detectorSamples TranscodeSession.vadRuns at h
  simp only [Bool.and_eq_true, beq_iff_eq] at h
  split_ifs at h with h₁ h₂
  · exact ⟨h₁.1.1.1, h₁.1.1.2, .inl h₁.1.2⟩
  · exact ⟨h₂.1.1.1, h₂.1.1.2, .inr h₂.1.2⟩
  · exact absurd rfl h

section probabilities
variable (hE : ∀ state features, IsProbability (E.vadGruProcessFrame state features).2)

include hE

theorem frameProbs_isProbability (pcm : List Int16) (channels n offset : ℕ) (state : H) :
    ∀ p ∈ frameProbs E pcm channels n offset state, IsProbability p := by
  induction n generalizing offset state with
  | zero => exact fun p hp => absurd hp List.not_mem_nil
  | succ n ih =>
      intro p hp
      rcases List.mem_cons.mp hp with rfl | hp
      · exact hE _ _
      · exact ih _ _ p hp

theorem evaluatedProbs_isProbability (a : AudioState H) (payload : List UInt8) :
    ∀ p ∈ evaluatedProbs E a payload, IsProbability p := by
  intro p hp
  obtain ⟨c, -, hc⟩ := List.mem_flatMap.mp hp
  unfold VadCall.probs at hc
  split_ifs at hc
  · exact absurd hc List.not_mem_nil
  · exact frameProbs_isProbability E hE _ _ _ _ _ p hc

end probabilities

theorem floatZero_ne_minusOne : (0 : UInt32) ≠ minusOneFloat := by decide

/-- What a report says about the field. -/
theorem truthful_of_reports {a : AudioState H} {payload : List UInt8} {n : ℕ} {p : UInt32}
    (hE : ∀ state features, IsProbability (E.vadGruProcessFrame state features).2)
    (h : Reports E (vadCalls E payload ⟨a.session, a.arena, []⟩).1
      (a.session.detectorSamples E n) p) :
    Truthful E a payload p ↔
      a.session.detectorSamples E n = 0 ∨ vadFrameSize ≤ a.session.detectorSamples E n := by
  unfold Reports at h
  unfold Truthful
  change (if _ then evaluatedProbs E a payload = [] ∧ _ else
    (evaluatedProbs E a payload).length = _ ∧
      p = (evaluatedProbs E a payload).foldl floatMax 0) at h
  by_cases h0 : a.session.detectorSamples E n = 0
  · rw [if_pos h0] at h
    rw [if_neg (fun hc => hc.2.2.2 h.1)]
    exact ⟨fun _ => .inl h0, fun _ => h.2⟩
  · rw [if_neg h0] at h
    obtain ⟨hlen, hp⟩ := h
    by_cases hm : vadFrameSize ≤ a.session.detectorSamples E n
    · have hne : evaluatedProbs E a payload ≠ [] := by
        intro hnil
        rw [hnil, List.length_nil] at hlen
        have := Nat.div_pos hm (by decide)
        omega
      have hdue := detectorSamples_due E h0
      rw [if_pos ⟨hdue.1, hdue.2.1, hdue.2.2, hne⟩, hp]
      have hmax := isMaximum_foldl (evaluatedProbs_isProbability E hE a payload) hne
      exact ⟨fun _ => .inr hm, fun _ => hmax⟩
    · have hnil : evaluatedProbs E a payload = [] := by
        rw [← List.length_eq_zero_iff, hlen]
        exact Nat.div_eq_of_lt (by omega)
      rw [if_neg (fun hc => hc.2.2.2 hnil), hp, hnil]
      constructor
      · exact fun h => absurd h floatZero_ne_minusOne
      · exact fun h => absurd h (by omega)

/-- A container that announces no buffer is answered with the probability it finds. -/
theorem transcode_noBuffers (a : AudioState H) {payload : List UInt8} (h : ntohl payload 0 = 0) :
    vadCalls E payload ⟨a.session, a.arena, []⟩ = ([], ⟨a.session, a.arena, []⟩) ∧
      (a.transcode E payload).2.session = a.session := by
  constructor
  · unfold vadCalls
    rw [if_pos h]
    rfl
  · unfold AudioState.transcode audioProcessTranscode
    simp only [bind_apply, getCurr_apply, if_pos h]
    rfl

/-- **When the VAD field is truthful.**  For a detector whose results are probabilities, in
every state a history leads to. -/
theorem vad_field_truthful_iff
    (hE : ∀ state features, IsProbability (E.vadGruProcessFrame state features).2)
    (addr : ℕ) (ms : List Message) (hms : ShortPayloads ms) (m : Message) (hm : m.IsInput)
    (hlen : m.payload.length ≤ sizeofAssembleBuf - sizeofHeader) (numWorkers : UInt32)
    (durationNs d : UInt64) (vadProb : UInt32) (data : List UInt8)
    (hans : answer E numWorkers durationNs (audioAfter E (AudioState.fresh addr) ms) m =
      some (.output d vadProb data)) :
    Truthful E (audioAfter E (AudioState.fresh addr) ms) m.payload vadProb ↔
      FieldMeets E (audioAfter E (AudioState.fresh addr) ms) m.payload := by
  have hok := audioAfter_ok E (AudioState.fresh_ok addr) hms
  generalize audioAfter E (AudioState.fresh addr) ms = a at hans hok ⊢
  simp only [sizeofAssembleBuf, sizeofHeader] at hlen
  have hs : ¬m.IsStart := fun h => absurd (h.1.symm.trans hm.1) (by decide)
  rw [answer, if_neg hs, if_pos hm, Option.some.injEq] at hans
  unfold answerInput at hans
  dsimp only at hans
  split_ifs at hans with hret
  · obtain ⟨-, hprob, -⟩ := Body.output.inj hans
    unfold FieldMeets
    by_cases hnum : ntohl m.payload 0 = 0
    · obtain ⟨hcalls, hsession⟩ := transcode_noBuffers E a hnum
      rw [hsession] at hprob
      have hnil : evaluatedProbs E a m.payload = [] := by
        rw [evaluatedProbs, hcalls]
        rfl
      rw [if_pos hnum, hprob, Truthful, if_neg fun h => h.2.2.2 hnil]
    · obtain ⟨len, lens, hl, hr⟩ := hok.vadCalls_report E (by omega) hnum hret
      rw [hprob] at hr
      rw [if_neg hnum, hl]
      simpa using truthful_of_reports E hE hr

/-- PCMU at 16 kHz, with the voice detector. -/
def vadConfig : AudioStartPayload :=
  ⟨codecPcmu, 1, audioStartFlagsVadEnabled, 16000, endianLittle, codecPcmu, 1, endianLittle, 16000⟩

/-- A detector that hears something in every frame. -/
def Env.hearing : Env Unit Unit :=
  { Env.plain with vadGruProcessFrame := fun _ _ => ((), 0x3F000000) }

theorem hearing_isProbability (state : Unit) (features : List Unit) :
    IsProbability (Env.hearing.vadGruProcessFrame state features).2 :=
  (by decide : IsProbability 0x3F000000)

/-- A buffer of `n` bytes in one container. -/
def vadInput (n : ℕ) : Message := request cmdInput 2 (inputPayload [List.replicate n 0x55])

def vadHistory : List Message := [request cmdStart 1 (startPayload vadConfig)]

theorem vadHistory_short : ShortPayloads vadHistory := by
  intro m hm
  rw [List.mem_singleton.mp hm]
  exact (length_startPayload _).le.trans (by decide)

/-- An accepted `CMD_INPUT` is answered with an output. -/
theorem AudioState.Ok.answers {a : AudioState H} (h : a.Ok) {m : Message} (hm : m.IsInput)
    (hlen : m.payload.length ≤ sizeofAssembleBuf - sizeofHeader) (numWorkers : UInt32)
    (d : UInt64)
    (hshape : returnCode (transcodeShape E a.session a.arena.size a.arena.curr m.payload) = 0) :
    ∃ vadProb data, answer E numWorkers d a m = some (.output d vadProb data) := by
  simp only [sizeofAssembleBuf, sizeofHeader] at hlen
  have hpay : m.payload.length < 2 ^ 31 := by omega
  have hret := (h.transcode_shape E hpay).1.trans hshape
  have hs : ¬m.IsStart := fun h => absurd (h.1.symm.trans hm.1) (by decide)
  rw [answer, if_neg hs, if_pos hm, answerInput, if_pos hret]
  exact ⟨_, _, rfl⟩

/-- One frame. -/
theorem vad_field_truthful_frame :
    ∃ vadProb data,
      answer Env.hearing 1 0 (audioAfter Env.hearing (AudioState.fresh 0) vadHistory)
        (vadInput 320) = some (.output 0 vadProb data) ∧
      Truthful Env.hearing (audioAfter Env.hearing (AudioState.fresh 0) vadHistory)
        (vadInput 320).payload vadProb := by
  have hinput : (vadInput 320).IsInput := by decide +kernel
  have hlen : (vadInput 320).payload.length ≤ sizeofAssembleBuf - sizeofHeader := by
    decide +kernel
  have hshape : returnCode (transcodeShape Env.hearing
      (audioAfter Env.hearing (AudioState.fresh 0) vadHistory).session
      (audioAfter Env.hearing (AudioState.fresh 0) vadHistory).arena.size
      (audioAfter Env.hearing (AudioState.fresh 0) vadHistory).arena.curr
      (vadInput 320).payload) = 0 := by decide +kernel
  have hmeets : FieldMeets Env.hearing
      (audioAfter Env.hearing (AudioState.fresh 0) vadHistory) (vadInput 320).payload := by
    have hnum : ¬ntohl (vadInput 320).payload 0 = 0 := by decide +kernel
    have hlens : bufferLengths (vadInput 320).payload = [320] := by decide +kernel
    have hsamples : (audioAfter Env.hearing (AudioState.fresh 0) vadHistory).session.detectorSamples
        Env.hearing ((audioAfter Env.hearing (AudioState.fresh 0)
          vadHistory).session.decodedSamples 320) = 320 := by decide +kernel
    rw [FieldMeets, if_neg hnum, hlens]
    intro len h
    rw [← Option.mem_some.mp h, hsamples]
    decide
  generalize vadInput 320 = m at *
  have hok := audioAfter_ok Env.hearing (AudioState.fresh_ok 0) vadHistory_short
  obtain ⟨vadProb, data, hans⟩ := hok.answers Env.hearing hinput hlen 1 0 hshape
  exact ⟨vadProb, data, hans, (vad_field_truthful_iff Env.hearing hearing_isProbability 0 vadHistory
    vadHistory_short m hinput hlen 1 0 0 vadProb data hans).mpr hmeets⟩

/-- A new connection, whose detector is off, answers an empty container with `0.0`; with the
detector on, 16 samples, which are no frame, are answered with `0.0` too. -/
theorem vad_field_not_truthful :
    (request cmdInput 1 (inputPayload [])).IsInput ∧
      answer Env.hearing 1 0 (AudioState.fresh 0) (request cmdInput 1 (inputPayload [])) =
        some (.output 0 0 []) ∧
      ¬Truthful Env.hearing (AudioState.fresh 0) (inputPayload []) 0 ∧
      (vadInput 16).IsInput ∧
      answer Env.hearing 1 0 (audioAfter Env.hearing (AudioState.fresh 0) vadHistory)
        (vadInput 16) = some (.output 0 0 (List.replicate 16 0x55)) ∧
      ¬Truthful Env.hearing (audioAfter Env.hearing (AudioState.fresh 0) vadHistory)
        (vadInput 16).payload 0 := by
  have hempty : evaluatedProbs Env.hearing (AudioState.fresh 0) (inputPayload []) = [] := by
    decide +kernel
  have hshort : evaluatedProbs Env.hearing (audioAfter Env.hearing (AudioState.fresh 0) vadHistory)
      (vadInput 16).payload = [] := by
    decide +kernel
  refine ⟨by decide, by decide +kernel, ?_, by decide +kernel, by decide +kernel, ?_⟩
  · rw [Truthful, if_neg fun h => h.2.2.2 hempty]
    exact floatZero_ne_minusOne
  · rw [Truthful, if_neg fun h => h.2.2.2 hshort]
    exact floatZero_ne_minusOne

end MachAudio
