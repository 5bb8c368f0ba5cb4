import MachAudio.VadField

/-! # Which stream the recurrent network hears

A request calls the voice detector at two places, on the mixed input and on the resampled
output, and both advance the one hidden state of the session.  `gruAfter` is what hearing a
stream once means: a left fold over its whole frames of twenty milliseconds, the features of a
frame taken from its twenty segments.

For one channel the loop of `vad_gru_process_pcm` is that fold (`vadGruProcessPcm_snd`), and a
request hears exactly one stream: the input when that is at 16 kHz, else the resampled output
when that is, else none (`gru_hears_one_stream`). -/

namespace MachAudio

open ByteMem Exec

variable {H Φ : Type} (E : Env H Φ)

/-! ### Hearing a stream -/

/-- The consecutive frames of a stream; what is left of it is no frame. -/
def gruFrames (xs : List Int16) : List (List Int16) :=
  (List.range (xs.length / vadFrameSize)).map fun k =>
    (xs.drop (k * vadFrameSize)).take vadFrameSize

/-- The features of a frame of one channel. -/
def frameFeatures (frame : List Int16) : List Φ :=
  (List.range vadFeatureDim).map fun g =>
    E.vadFeature (((frame.drop (g * vadSegSize)).take vadSegSize).map fun x => [x])

/-- One frame heard. -/
def gruStep (state : H) (frame : List Int16) : H :=
  (E.vadGruProcessFrame state (frameFeatures E frame)).1

/-- A stream heard. -/
def gruAfter (state : H) (xs : List Int16) : H := (gruFrames xs).foldl (gruStep E) state

/-- The segments of a frame make up the frame. -/
theorem segments_cover {frame : List Int16} (h : frame.length = vadFrameSize) :
    ((List.range vadFeatureDim).flatMap fun g =>
      (frame.drop (g * vadSegSize)).take vadSegSize) = frame := by
  have hcover : ∀ n, n * vadSegSize ≤ frame.length →
      ((List.range n).flatMap fun g => (frame.drop (g * vadSegSize)).take vadSegSize) =
        frame.take (n * vadSegSize) := by
    intro n hn
    induction n with
    | zero => simp
    | succ n ih =>
        rw [Nat.succ_mul] at hn
        rw [List.range_succ, List.flatMap_append, ih (by omega), List.flatMap_singleton,
          ← List.take_add, Nat.succ_mul]
  rw [hcover vadFeatureDim (by rw [h]; decide), List.take_of_length_le]
  rw [h]
  decide

/-! ### The frame loop -/

theorem vadSegment_mono {pcm : List Int16} {start : ℕ} (h : start + vadSegSize ≤ pcm.length) :
    vadSegment pcm 1 start = ((pcm.drop start).take vadSegSize).map fun x => [x] := by
  unfold vadSegment
  apply List.ext_getElem
  · simp only [List.length_map, List.length_range, List.length_take, List.length_drop]
    omega
  · intro s hs _
    rw [List.length_map, List.length_range] at hs
    simp only [List.getElem_map, List.getElem_range, List.getElem_take, List.getElem_drop,
      List.range_one, List.map_cons, List.map_nil, Nat.mul_one, Nat.add_zero]
    rw [List.getD_eq_getElem _ _ (by omega)]

theorem vadFeatures_mono {pcm : List Int16} {offset : ℕ}
    (h : offset + vadFrameSize ≤ pcm.length) :
    vadFeatures E pcm 1 offset = frameFeatures E ((pcm.drop offset).take vadFrameSize) := by
  unfold vadFeatures frameFeatures
  apply List.map_congr_left
  intro g hg
  have hg := List.mem_range.mp hg
  simp only [vadFeatureDim, vadFrameSize] at hg h
  rw [vadSegment_mono (by simp only [vadSegSize]; omega), List.drop_take, List.drop_drop,
    List.take_take, Nat.min_eq_left (by simp only [vadSegSize, vadFrameSize]; omega)]

/-- The loop over `n` frames from frame `k` on. -/
theorem vadFrames_snd (pcm : List Int16) (n k : ℕ) (state : H) (m : UInt32)
    (h : (k + n) * vadFrameSize ≤ pcm.length) :
    (vadFrames E pcm 1 n (k * vadFrameSize) state m).2 =
      ((List.range' k n).map fun k => (pcm.drop (k * vadFrameSize)).take vadFrameSize).foldl
        (gruStep E) state := by
  induction n generalizing k state m with
  | zero => rfl
  | succ n ih =>
      have hle : (k + 1 + n) * vadFrameSize ≤ pcm.length := by
        rwa [show k + 1 + n = k + (n + 1) by omega]
      have hframe : k * vadFrameSize + vadFrameSize ≤ pcm.length := by
        refine le_trans ?_ hle
        rw [← Nat.succ_mul]
        exact Nat.mul_le_mul_right _ (by omega)
      rw [vadFrames, List.range'_succ, List.map_cons, List.foldl_cons, gruStep,
        ← vadFeatures_mono E hframe, ← Nat.succ_mul]
      exact ih (k + 1) _ _ hle

/-- What the detector reads of a stream is its whole frames. -/
theorem vadExtent_one (n : ℕ) : vadExtent n 1 = n / vadFrameSize * vadFrameSize :=
  Nat.mul_one _

/-- **The detector hears a stream of one channel**, given its whole frames. -/
theorem vadGruProcessPcm_snd (state : H) (xs : List Int16) :
    (vadGruProcessPcm E state (xs.take (vadExtent xs.length 1)) xs.length vadSampleRate 1).2 =
      gruAfter E state xs := by
  have hle := Nat.div_mul_le_self xs.length vadFrameSize
  unfold vadGruProcessPcm gruAfter gruFrames
  by_cases h0 : xs.length < 1
  · rw [if_pos (.inl h0), Nat.div_eq_of_lt (by simp only [vadFrameSize]; omega)]
    rfl
  · rw [if_neg (by omega), if_neg (by simp), vadExtent_one]
    have h := vadFrames_snd E (xs.take (xs.length / vadFrameSize * vadFrameSize))
      (xs.length / vadFrameSize) 0 state 0
      (by rw [List.length_take, Nat.min_eq_left hle, Nat.zero_add])
    rw [Nat.zero_mul] at h
    rw [h, ← List.range_eq_range']
    congr 1
    apply List.map_congr_left
    intro k hk
    have hk := Nat.mul_le_mul_right vadFrameSize (Nat.succ_le_of_lt (List.mem_range.mp hk))
    rw [Nat.succ_mul] at hk
    rw [List.drop_take, List.take_take, Nat.min_eq_left (by omega)]

/-! ### The two places -/

section places
variable (b : Block) (n : ℕ) (w : Work H)

/-- The arena. -/
theorem runVad_keeps_arena (channels : ℕ) : Keeps Work.arena (runVad E b n channels) := by
  apply Keeps.bind (fun _ => rfl)
  intro s
  cases s.vadState with
  | none => exact Keeps.pure
  | some state => exact Keeps.bind (fun _ => rfl) fun _ => fun _ => rfl

theorem inputVad_keeps_arena : Keeps Work.arena (inputVad E b n) :=
  Keeps.bind (fun _ => rfl) fun _ => Keeps.bind (fun _ => rfl) fun _ =>
    Keeps.ite (runVad_keeps_arena E _ _ _) Keeps.pure

/-- The detector on a block that holds a stream of one channel. -/
theorem runVad_hears {state : H} (h : w.session.vadState = some state) {xs : List Int16}
    (hxs : w.arena.buf.samples b.start xs.length = xs) :
    (runVad E b xs.length 1 w).2.session.vadState = some (gruAfter E state xs) := by
  have hpcm : w.arena.buf.samples b.start (vadExtent xs.length 1) =
      xs.take (vadExtent xs.length 1) := by
    have hle : vadExtent xs.length 1 ≤ xs.length :=
      (vadExtent_one _).le.trans (Nat.div_mul_le_self _ _)
    rw [← take_samples _ _ hle, hxs]
  simp only [runVad, bind_apply, getSession_apply, h, setSession_apply]
  show some (vadGruProcessPcm E state (w.arena.buf.samples b.start (vadExtent xs.length 1))
    xs.length vadSampleRate 1).2 = _
  rw [hpcm, vadGruProcessPcm_snd]

/-- The resampled block holds what the resampler wrote, and only the resampler has changed. -/
theorem resampleStep_samples {s : TranscodeSession H} (M : Mem) (hres : s.needsResample = true) :
    Sat (fun w => w.session = s ∧ w.arena.buf = M) (resampleStep E b n) fun o w =>
      ∀ out m, o = some (out, m) →
        ∃ r, r = resampleL16Advanced E s.resampler s.inSampleRate s.outSampleRate
            (M.samples b.start n) (s.outCap n) ∧
          m = r.1.length ∧ w.arena.buf.samples out.start m = r.1 ∧
          w.session = { s with resampler := r.2.2 } := by
  refine Sat.bind (Q := fun s' w => s' = s ∧ w.session = s ∧ w.arena.buf = M)
    (fun w hw => ⟨hw.1, hw⟩) fun s' => Sat.assume fun hs' => ?_
  subst hs'
  rw [if_pos hres]
  refine Sat.bind (Q := fun q w => q = n * s'.outSampleRate.toNat / s'.inSampleRate.toNat ∧
    w.session = s' ∧ w.arena.buf = M) (fun w hw => ⟨rfl, hw⟩) fun q => Sat.assume fun hq => ?_
  refine Sat.bind (Q := fun _ w => w.session = s' ∧ w.arena.buf = M)
    (fun w hw => ⟨hw.1, (arenaAlloc_buf _ _).trans hw.2⟩) fun o => ?_
  cases o with
  | none => exact Sat.pure fun w _ out m h => absurd h.symm (Option.some_ne_none _)
  | some out' =>
      refine Sat.bind (Q := fun pcm w => pcm = M.samples b.start n ∧ w.session = s')
        (fun w hw => ⟨by rw [← hw.2]; rfl, hw.1⟩) fun pcm => Sat.assume fun hpcm => ?_
      intro w _ out m h
      obtain ⟨rfl, rfl⟩ := Prod.mk.inj (Option.some.inj h)
      subst hq hpcm
      exact ⟨_, rfl, rfl, samples_store_same _ _ _, rfl⟩

/-- What the hidden state becomes when `mixed` is the mixed input. -/
def TranscodeSession.gruHears (s : TranscodeSession H) (state : H) (mixed : List Int16) : H :=
  if s.inSampleRate = vadSampleRate then gruAfter E state mixed
  else if s.outSampleRate = vadSampleRate then
    gruAfter E state (resampleL16Advanced E s.resampler s.inSampleRate s.outSampleRate mixed
      (s.outCap mixed.length)).1
  else state

/-- The first place, when the input is at the detector's rate: the detector hears the input and
leaves a probability. -/
theorem inputVad_hears {state : H} (hstate : w.session.vadState = some state)
    (hin₁ : w.session.inChannels = 1)
    (hr : w.session.vadRuns w.session.inSampleRate = true) (hn : 1 ≤ n) :
    (inputVad E b n w).2.session.vadState =
        some (gruAfter E state (w.arena.buf.samples b.start n)) ∧
      (inputVad E b n w).2.session.lastVadProb ≠ minusOneFloat := by
  obtain ⟨c, -, hsamples, hchannels, hsession⟩ := inputVad_on E b n w hr
  have hch : w.session.inChannels.toNat = 1 := by rw [hin₁]; rfl
  constructor
  · have hsame : w.arena.buf.samples b.start (w.arena.buf.samples b.start n).length =
        w.arena.buf.samples b.start n := by rw [length_samples]
    have h := runVad_hears E b { w with session := { w.session with lastVadProb := minusOneFloat } }
      hstate hsame
    rw [length_samples] at h
    rw [inputVad_apply, if_pos hr, hch]
    exact h
  · rw [hsession]
    exact vadGruProcessPcm_ne_minusOne E (by omega) (by omega)

/-- The second place, when the first has left no probability and the output is at the detector's
rate: the detector hears the output. -/
theorem outputVad_hears {state : H} (hen : w.session.vadEnabled = true)
    (hstate : w.session.vadState = some state) (hprob : w.session.lastVadProb = minusOneFloat)
    (hrate : w.session.outSampleRate = vadSampleRate) (hout₁ : w.session.outChannels = 1)
    {xs : List Int16} (hxs : w.arena.buf.samples b.start xs.length = xs) :
    (outputVad E b xs.length w).2.session.vadState = some (gruAfter E state xs) := by
  have hcode : (w.session.vadEnabled && w.session.vadState.isSome &&
      w.session.lastVadProb == minusOneFloat && w.session.outSampleRate == vadSampleRate) =
        true := by
    simp [hen, hstate, hprob, hrate]
  have hch : w.session.outChannels.toNat = 1 := by rw [hout₁]; rfl
  rw [outputVad_apply, if_pos hcode, hch]
  exact runVad_hears E b w hstate hxs

/-- **Everything behind the mixing hears one stream.** -/
theorem processMixed_hears {lo : ℕ} {state : H} (hen : w.session.vadEnabled = true)
    (hstate : w.session.vadState = some state) (hin₁ : w.session.inChannels = 1)
    (hout₁ : w.session.outChannels = 1)
    (hneeds : w.session.needsResample = (w.session.inSampleRate != w.session.outSampleRate))
    (hn : 1 ≤ n) (h : (processMixed E lo b n w).1 = 0) :
    (processMixed E lo b n w).2.session.vadState =
      some (w.session.gruHears E state (w.arena.buf.samples b.start n)) := by
  obtain ⟨w₁, hw₁⟩ : ∃ w₁, w₁ = (inputVad E b n w).2 := ⟨_, rfl⟩
  have harena : w₁.arena = w.arena := by rw [hw₁]; exact inputVad_keeps_arena E b n w
  obtain ⟨-, -, r, hsession⟩ := resampleStep_sat E b n w₁.session w₁ rfl
  have hsamples := resampleStep_samples E b n (s := w₁.session) w₁.arena.buf
  unfold processMixed at h ⊢
  simp only [bind_apply, ← hw₁] at h ⊢
  have hout := fun hres => hsamples hres w₁ ⟨rfl, rfl⟩
  generalize resampleStep E b n w₁ = x at h hsession hout ⊢
  rcases x with ⟨_ | ⟨out, m⟩, w₂⟩
  · cases h
  have hkeep : (encodeStep lo out m (outputVad E out m w₂).2).2.session =
      (outputVad E out m w₂).2.session := congrArg Prod.fst (encodeStep_keeps out m lo _)
  dsimp only at hsession hout ⊢
  simp only [bind_apply, hkeep]
  unfold TranscodeSession.gruHears
  have hruns : ∀ rate, w.session.vadRuns rate = true ↔ rate = vadSampleRate := by
    intro rate
    simp [TranscodeSession.vadRuns, hen, hstate]
  by_cases hin : w.session.inSampleRate = vadSampleRate
  · obtain ⟨hvad, hprob⟩ := inputVad_hears E b n w hstate hin₁ ((hruns _).mpr hin) hn
    rw [← hw₁] at hvad hprob
    obtain ⟨-, hoff⟩ := outputVad_off E out m w₂ (.inl (by rw [hsession]; exact hprob))
    rw [if_pos hin, hoff, hsession]
    exact hvad
  · have hno : w.session.vadRuns w.session.inSampleRate = false :=
      Bool.eq_false_iff.mpr fun h => hin ((hruns _).mp h)
    obtain ⟨-, hoff⟩ := inputVad_off E b n w hno
    rw [← hw₁] at hoff
    rw [if_neg hin]
    by_cases hrate : w.session.outSampleRate = vadSampleRate
    · -- the rates differ, so the output is resampled
      have hres : w₁.session.needsResample = true := by
        rw [hoff]
        show w.session.needsResample = true
        rw [hneeds, hrate]
        simpa using hin
      obtain ⟨r', hr', rfl, hblock, hs'⟩ := hout hres _ _ rfl
      rw [harena, hoff] at hr'
      have hlen : (w.arena.buf.samples b.start n).length = n := length_samples _ _ _
      have hsame : w₂.session.outChannels = 1 ∧ w₂.session.outSampleRate = vadSampleRate ∧
          w₂.session.vadEnabled = true ∧ w₂.session.vadState = some state ∧
          w₂.session.lastVadProb = minusOneFloat := by
        rw [hs', hoff]
        exact ⟨hout₁, hrate, hen, hstate, rfl⟩
      obtain ⟨hout₂, hrate₂, hen₂, hstate₂, hprob₂⟩ := hsame
      rw [if_pos hrate, outputVad_hears E out w₂ hen₂ hstate₂ hprob₂ hrate₂ hout₂ hblock, hr', hlen]
      rfl
    · obtain ⟨-, hoff₂⟩ := outputVad_off E out m w₂ (.inr (by
        rw [hsession, hoff]
        exact Bool.eq_false_iff.mpr fun h => hrate ((hruns _).mp h)))
      rw [if_neg hrate, hoff₂, hsession, hoff]
      exact hstate

end places

/-! ### A request -/

/-- What the loop over the buffers leaves in `l16_buf`: the mixed input. -/
def AudioState.mixedInput (a : AudioState H) (payload : List UInt8) : List Int16 :=
  match mixInputs payload (ntohl payload 0).toNat (UInt32.ofNat sizeofInputPayload) none
      ⟨a.session, a.arena, []⟩ with
  | (some (some (l16Buf, l16Samples)), w) => (loadSamples l16Buf 0 l16Samples w).1
  | _ => []

/-- What `resample_l16_advanced` makes of it: the resampled output. -/
def AudioState.resampledOutput (a : AudioState H) (payload : List UInt8) : List Int16 :=
  (resampleL16Advanced E a.session.resampler a.session.inSampleRate a.session.outSampleRate
    (a.mixedInput payload) (a.session.outCap (a.mixedInput payload).length)).1

/-- A session with the detector on has a hidden state. -/
def AudioState.HasDetector (a : AudioState H) : Prop :=
  a.session.vadEnabled = true → a.session.vadState.isSome = true

theorem audioStart_hasDetector {a : AudioState H} (h : a.Ok) (payload : List UInt8) :
    (audioStart E a payload).HasDetector := by
  obtain ⟨b, hb, -⟩ := vadGruInit_rewound h.size
  unfold AudioState.HasDetector audioStart
  dsimp only
  split_ifs with hen
  · intro _
    rw [hb]
    rfl
  · exact fun h => absurd h hen

theorem audioStep_hasDetector {a : AudioState H} (h : a.Ok) (hd : a.HasDetector) {m : Message}
    (hlen : m.payload.length < 2 ^ 31) : (audioStep E a m).HasDetector := by
  rw [audioStep]
  split_ifs
  · exact audioStart_hasDetector E h m.payload
  · have hc := (h.transcode_shape E hlen).2.config
    intro hen
    exact hc.vadState.trans (hd (hc.vadEnabled.symm.trans hen))
  · exact fun h => absurd h Bool.false_ne_true
  · exact hd

/-- In every history the detector is there when it is on. -/
theorem audioAfter_hasDetector {a : AudioState H} (h : a.Ok) (hd : a.HasDetector) :
    ∀ {ms : List Message}, ShortPayloads ms → (audioAfter E a ms).HasDetector := by
  intro ms
  induction ms generalizing a with
  | nil => exact fun _ => hd
  | cons m ms ih =>
      intro hms
      have hm := hms m List.mem_cons_self
      simp only [sizeofAssembleBuf, sizeofHeader] at hm
      exact ih (audioStep_ok E h (by omega)) (audioStep_hasDetector E h hd (by omega))
        fun m' hm' => hms m' (List.mem_cons_of_mem _ hm')

/-- One request, in a state with a detector. -/
theorem AudioState.transcode_hears {a : AudioState H} {payload : List UInt8} {state : H}
    (hneeds : a.session.needsResample = (a.session.inSampleRate != a.session.outSampleRate))
    (hen : a.session.vadEnabled = true) (hstate : a.session.vadState = some state)
    (hin₁ : a.session.inChannels = 1) (hout₁ : a.session.outChannels = 1)
    (hnum : ntohl payload 0 ≠ 0) (hret : (a.transcode E payload).1 = 0) :
    (a.transcode E payload).2.session.vadState =
      some (a.session.gruHears E state (a.mixedInput payload)) := by
  have hkeep := congrArg Prod.fst (mixInputs_keeps payload (ntohl payload 0).toNat
    (UInt32.ofNat sizeofInputPayload) none ⟨a.session, a.arena, []⟩)
  unfold AudioState.transcode audioProcessTranscode at hret ⊢
  unfold AudioState.mixedInput
  simp only [bind_apply, getCurr_apply, if_neg hnum] at hret ⊢
  generalize mixInputs payload _ _ none _ = x at hkeep hret ⊢
  obtain ⟨o, w⟩ := x
  have hs : w.session = a.session := hkeep
  match o with
  | none => cases hret
  | some none => cases hret
  | some (some (b, n)) =>
      dsimp only at hret ⊢
      by_cases hn : n = 0
      · rw [if_pos hn] at hret
        cases hret
      · rw [if_neg hn] at hret ⊢
        have h := processMixed_hears E b n w (by rw [hs]; exact hen)
          (show w.session.vadState = some state by rw [hs]; exact hstate)
          (by rw [hs]; exact hin₁) (by rw [hs]; exact hout₁)
          (by rw [hs]; exact hneeds) (by omega) hret
        rw [h, hs]
        rfl

/-- **A request advances the network on exactly one stream.**  In every state of every session
of one channel with the detector on, a request with a buffer that succeeds takes the hidden
state over the frames of the mixed input, or of the resampled output, once. -/
theorem gru_hears_one_stream (addr : ℕ) (ms : List Message) (hms : ShortPayloads ms)
    (payload : List UInt8) {a : AudioState H} (ha : a = audioAfter E (AudioState.fresh addr) ms)
    (hin₁ : a.session.inChannels = 1) (hout₁ : a.session.outChannels = 1)
    (hen : a.session.vadEnabled = true) (hnum : ntohl payload 0 ≠ 0)
    (hret : (a.transcode E payload).1 = 0) :
    ∃ state, a.session.vadState = some state ∧
      (a.transcode E payload).2.session.vadState =
        some (if a.session.inSampleRate = vadSampleRate then
            gruAfter E state (a.mixedInput payload)
          else if a.session.outSampleRate = vadSampleRate then
            gruAfter E state (a.resampledOutput E payload)
          else state) := by
  have hok := audioAfter_ok E (AudioState.fresh_ok addr) hms
  have hd := audioAfter_hasDetector E (AudioState.fresh_ok addr)
    (fun h => absurd h Bool.false_ne_true) hms
  rw [← ha] at hok hd
  obtain ⟨state, hstate⟩ := Option.isSome_iff_exists.mp (hd hen)
  exact ⟨state, hstate,
    a.transcode_hears E hok.needsResample hen hstate hin₁ hout₁ hnum hret⟩

/-- A detector whose hidden state counts the frames it hears. -/
def Env.counting : Env ℕ Unit where
  double := id
  single := id
  sincCoeffs := fun _ _ => 0
  belowDelay := fun _ => 0
  vadReset := 0
  vadFeature := fun _ => ()
  vadGruProcessFrame := fun state _ => (state + 1, 0)
  malloc := fun _ => true
  hrtime := fun n => UInt64.ofNat n

theorem gruAfter_counting (state : ℕ) (xs : List Int16) :
    gruAfter Env.counting state xs = state + xs.length / vadFrameSize := by
  have hfold : ∀ (frames : List (List Int16)) (state : ℕ),
      frames.foldl (gruStep Env.counting) state = state + frames.length := by
    intro frames
    induction frames with
    | nil => exact fun _ => rfl
    | cons frame frames ih =>
        intro state
        rw [List.foldl_cons, ih, List.length_cons]
        show state + 1 + frames.length = _
        omega
  rw [gruAfter, hfold, gruFrames, List.length_map, List.length_range]

/-- Both rates are 16 kHz, and one frame counts once. -/
theorem gru_hears_one_stream_counting :
    ((audioAfter Env.counting (AudioState.fresh 0) vadHistory).transcode Env.counting
      (vadInput 320).payload).2.session.vadState = some 1 := by
  have hret : ((audioAfter Env.counting (AudioState.fresh 0) vadHistory).transcode Env.counting
      (vadInput 320).payload).1 = 0 := by decide +kernel
  have hlen : ((audioAfter Env.counting (AudioState.fresh 0) vadHistory).mixedInput
      (vadInput 320).payload).length = 320 := by decide +kernel
  obtain ⟨state, hstate, h⟩ := gru_hears_one_stream Env.counting 0 vadHistory vadHistory_short
    (vadInput 320).payload rfl rfl rfl rfl (by decide +kernel) hret
  obtain rfl : 0 = state := Option.some.inj hstate
  rw [h, if_pos (by decide), gruAfter_counting, hlen]
  rfl

end MachAudio
