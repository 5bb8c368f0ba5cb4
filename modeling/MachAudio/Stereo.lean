import MachAudio.Crosstalk
import MachAudio.Failure
import MachAudio.Interleaved
import MachAudio.SingleBuffer

/-! # Two channels

The stages of `audio_process_transcode` do not agree on what they count.  The G.711 decoders and
encoders count elements, the L16 ones frames, and the resampler takes the count for a number of
elements of one stream (`stereo_request`).

So a session of two channels keeps its frames and its channels exactly when nothing is resampled
and the two codecs count alike (`stereo_preserved_iff`).  The other codecs give too many frames or
too few, and the resampler lets one channel be heard on the other. -/

namespace MachAudio

open ByteMem Exec

variable {H Φ : Type} {E : Env H Φ}

/-! ### Sessions -/

/-- A configuration for two channels that `transcode_session_init` accepts. -/
structure StereoConfig (config : AudioStartPayload) : Prop where
  inChannels : config.inChannels = 2
  outChannels : config.outChannels = 2
  inCodec : IsKnownCodec config.inPayloadType
  outCodec : IsKnownCodec config.outPayloadType
  inRate : isRateSupported config.inSampleRate = true
  outRate : isRateSupported config.outSampleRate = true

/-- A payload of `CMD_INPUT` that a message can carry to the pipeline. -/
def IsInputPayload (payload : List UInt8) : Prop :=
  sizeofInputPayload ≤ payload.length ∧ payload.length ≤ sizeofAssembleBuf - sizeofHeader

/-- `a` is the audio state of a session begun with `config`, on a connection with any messages
before, after the requests `inputs`. -/
def SessionAfter (E : Env H Φ) (config : AudioStartPayload) (inputs : List (List UInt8))
    (a : AudioState H) : Prop :=
  ∃ addr before, ShortPayloads before ∧ (∀ payload ∈ inputs, IsInputPayload payload) ∧
    a = audioAfter E (AudioState.fresh addr)
      (before ++ request cmdStart 1 (startPayload config) :: inputs.map (request cmdInput 1))

/-- A request with one buffer of `frames` whole interleaved frames. -/
structure StereoInput (config : AudioStartPayload) (payload data : List UInt8) (frames : ℕ) :
    Prop where
  wellFormed : WellFormed payload [data]
  short : payload.length ≤ sizeofAssembleBuf - sizeofHeader
  positive : 1 ≤ frames
  whole : data.length = frames * (2 * elementBytes config.inPayloadType)
  sixteen : config.inPayloadType ≠ codecL16 → data.length % 16 = 0

/-- The output bytes of a request. -/
def AudioState.response (E : Env H Φ) (a : AudioState H) (payload : List UInt8) : List UInt8 :=
  (a.transcode E payload).2.arena.buf.load a.arena.curr
    ((a.transcode E payload).2.arena.curr - a.arena.curr)

section session
variable {config : AudioStartPayload}

/-- Processing a request changes the stream of a session and nothing else. -/
theorem AudioState.transcode_streamed (E : Env H Φ) (a : AudioState H) (payload : List UInt8) :
    Streamed False False a.session (a.transcode E payload).2.session := by
  unfold AudioState.transcode audioProcessTranscode
  simp only [bind_apply, getCurr_apply]
  by_cases hnum : ntohl payload 0 = 0
  · rw [if_pos hnum]
    exact .refl _
  · rw [if_neg hnum]
    have hkeep := congrArg Prod.fst (mixInputs_keeps payload (ntohl payload 0).toNat
      (UInt32.ofNat sizeofInputPayload) none ⟨a.session, a.arena, []⟩)
    simp only [bind_apply]
    generalize mixInputs payload _ _ none _ = x at hkeep ⊢
    obtain ⟨o, w⟩ := x
    have hs : w.session = a.session := hkeep
    rw [← hs]
    match o with
    | none => exact .refl _
    | some none => exact .refl _
    | some (some (b, n)) =>
        dsimp only
        by_cases hn : n = 0
        · rw [if_pos hn]
          exact .refl _
        · rw [if_neg hn]
          exact processMixed_streamed E b n w a.arena.curr False.elim
            fun _ _ _ => ⟨False.elim, False.elim⟩

theorem transcodeSessionInit_direct (hrate : config.inSampleRate = config.outSampleRate) :
    transcodeSessionInit E config = (0, configuredSession config) := by
  have hres : (configuredSession (H := H) config).needsResample = false := by
    simp [configuredSession, hrate]
  unfold transcodeSessionInit
  dsimp only
  rw [hres]
  rfl

theorem transcodeSessionInit_resampling (hne : config.inSampleRate ≠ config.outSampleRate)
    {r : Resampler}
    (hr : resamplerInit E config.inSampleRate config.outSampleRate = some r) :
    transcodeSessionInit E config = (0, { configuredSession config with resampler := r }) := by
  have hres : (configuredSession (H := H) config).needsResample = true := by
    simp [configuredSession, hne]
  have hr' : resamplerInit E (configuredSession (H := H) config).inSampleRate
      (configuredSession (H := H) config).outSampleRate = some r := hr
  unfold transcodeSessionInit
  dsimp only
  rw [hres, if_pos rfl, hr']

theorem resamplerInit_isSome (E : Env H Φ) {inRate outRate : UInt32}
    (hin : isRateSupported inRate = true) (hout : isRateSupported outRate = true) :
    ∃ r, resamplerInit E inRate outRate = some r := by
  unfold resamplerInit
  rw [if_neg (by simp [hin, hout])]
  dsimp only
  split_ifs <;> exact ⟨_, rfl⟩

/-- What a `CMD_START` leaves of a configuration that is accepted. -/
theorem audioStart_startedFrom {session : TranscodeSession H}
    (hinit : transcodeSessionInit E config = (0, session)) (a : AudioState H) :
    (audioStart E a (startPayload config)).session.StartedFrom E config ∧
      (audioStart E a (startPayload config)).session.resampler = session.resampler := by
  unfold audioStart
  rw [decodeStartPayload_startPayload, hinit]
  dsimp only
  split_ifs
  · exact ⟨⟨_, _, _, _, hinit, rfl⟩, rfl⟩
  · exact ⟨⟨_, _, _, _, hinit, rfl⟩, rfl⟩

theorem StereoConfig.accepted (E : Env H Φ) (hc : StereoConfig config) :
    ∃ session : TranscodeSession H, transcodeSessionInit E config = (0, session) := by
  by_cases hrate : config.inSampleRate = config.outSampleRate
  · exact ⟨_, transcodeSessionInit_direct hrate⟩
  · obtain ⟨r, hr⟩ := resamplerInit_isSome E hc.inRate hc.outRate
    exact ⟨_, transcodeSessionInit_resampling hrate hr⟩

theorem audioStep_start (a : AudioState H) :
    audioStep E a (request cmdStart 1 (startPayload config)) =
      audioStart E a (startPayload config) := by
  have hs : (request cmdStart 1 (startPayload config)).IsStart :=
    ⟨rfl, (length_startPayload config).ge⟩
  unfold audioStep
  rw [if_pos hs]
  rfl

theorem audioStep_input (a : AudioState H) {payload : List UInt8} (h : IsInputPayload payload) :
    audioStep E a (request cmdInput 1 payload) = audioInput E a payload := by
  have hs : ¬(request cmdInput 1 payload).IsStart := fun hs =>
    absurd (show cmdInput = cmdStart from hs.1) (by decide)
  have hi : (request cmdInput 1 payload).IsInput := ⟨rfl, h.1⟩
  unfold audioStep
  rw [if_neg hs, if_pos hi]
  rfl

/-- The session of such a state is set up as configured. -/
theorem SessionAfter.ok (hc : StereoConfig config) {inputs : List (List UInt8)} {a : AudioState H}
    (h : SessionAfter E config inputs a) : a.Ok ∧ a.session.StartedFrom E config := by
  obtain ⟨addr, before, hbefore, hinputs, rfl⟩ := h
  have hok := audioAfter_ok E (AudioState.fresh_ok addr) hbefore
  rw [audioAfter_append, audioAfter_cons, audioStep_start]
  have hstart := (audioStart_startedFrom (hc.accepted E).choose_spec
    (audioAfter E (AudioState.fresh addr) before)).1
  have hok' := audioStart_ok E hok (startPayload config)
  generalize audioStart E _ (startPayload config) = a at hstart hok'
  induction inputs generalizing a with
  | nil => exact ⟨hok', hstart⟩
  | cons payload inputs ih =>
      have hin := hinputs payload List.mem_cons_self
      have hlen : payload.length < 2 ^ 31 := by
        have := hin.2
        simp only [sizeofAssembleBuf, sizeofHeader] at this
        omega
      rw [List.map_cons, audioAfter_cons]
      refine ih (fun p hp => hinputs p (List.mem_cons_of_mem _ hp)) _ ?_
        (audioStep_ok E hok' hlen)
      rw [audioStep_input a hin]
      obtain ⟨session, r, v, p, hinit, hs⟩ := hstart
      have heq := (a.transcode_streamed E payload).eq
      rw [hs] at heq
      exact ⟨session, _, _, _, hinit, heq⟩

/-! ### What the stages count -/

/-- `decode_samples` of a buffer of `frames` stereo frames. -/
def stereoSamples (config : AudioStartPayload) (frames : ℕ) : ℕ :=
  if config.inPayloadType = codecL16 then frames else 2 * frames

/-- The elements that the encoding of `k` samples writes. -/
def stereoElements (config : AudioStartPayload) (k : ℕ) : ℕ :=
  if config.outPayloadType = codecL16 then 2 * k else k

theorem StereoInput.counts (hc : StereoConfig config) {data payload : List UInt8} {frames : ℕ}
    (hp : StereoInput config payload data frames) {s : TranscodeSession H}
    (hs : s.StartedFrom E config) :
    s.decoded data = decodeSamples config.inPayloadType config.inEndian data ∧
      (s.decoded data).length = 2 * frames ∧
      s.decodedSamples data.length = stereoSamples config frames ∧
      ∀ k, s.encodedElements k = stereoElements config k := by
  obtain ⟨r, v, p, rfl⟩ := hs.eq
  have hin : config.inChannels.toNat = 2 := by rw [hc.inChannels]; rfl
  have hout : config.outChannels.toNat = 2 := by rw [hc.outChannels]; rfl
  have hlen : (decodeSamples config.inPayloadType config.inEndian data).length = 2 * frames := by
    rw [length_decodeSamples hc.inCodec, hp.whole, ← Nat.mul_assoc, Nat.mul_comm frames]
    apply Nat.mul_div_cancel
    unfold elementBytes
    split_ifs <;> decide
  have hwhole := hp.whole
  unfold TranscodeSession.decoded TranscodeSession.decodedElements TranscodeSession.decodedSamples
    TranscodeSession.encodedElements stereoSamples stereoElements
  simp only [configuredSession, hin, hout]
  unfold elementBytes at hwhole
  refine ⟨List.take_of_length_le ?_, ?_, ?_, fun k => ?_⟩
  · rw [hlen]
    split_ifs at hwhole ⊢ <;> omega
  · rw [List.length_take, hlen]
    split_ifs at hwhole ⊢ <;> omega
  · split_ifs at hwhole ⊢ <;> omega
  · rw [Nat.mul_comm k]

/-- The samples that reach the encoding. -/
def stereoCount (E : Env H Φ) (config : AudioStartPayload) (frames : ℕ) : ℕ :=
  (configuredSession (H := H) config).encodedCount E (stereoSamples config frames)

theorem stereoCount_direct (hrate : config.inSampleRate = config.outSampleRate) (frames : ℕ) :
    stereoCount E config frames = stereoSamples config frames := by
  have hres : (configuredSession (H := H) config).needsResample = false := by
    simp [configuredSession, hrate]
  unfold stereoCount TranscodeSession.encodedCount
  rw [hres]
  rfl

/-- The frames of a request are fewer than its bytes. -/
theorem StereoInput.frames_le {payload data : List UInt8} {frames : ℕ}
    (hp : StereoInput config payload data frames) : 2 * frames ≤ payload.length := by
  have hle := hp.wellFormed.data_length_le
  have hw := hp.whole
  unfold elementBytes at hw
  split_ifs at hw
  · omega
  · omega

theorem stereoSamples_le (config : AudioStartPayload) (frames : ℕ) :
    stereoSamples config frames ≤ 2 * frames := by
  unfold stereoSamples
  split_ifs
  · omega
  · omega

/-- Without resampling there is always room. -/
theorem StereoInput.fits {payload data : List UInt8} {frames : ℕ}
    (hp : StereoInput config payload data frames) {s : TranscodeSession H}
    (hres : s.needsResample = (config.inSampleRate != config.outSampleRate))
    (hroom : config.inSampleRate ≠ config.outSampleRate →
      s.resampledSize (stereoSamples config frames) +
        stereoElements config (stereoCount E config frames) ≤ 131072) :
    65648 + (if s.needsResample then s.resampledSize (stereoSamples config frames) else 0) +
      stereoElements config (stereoCount E config frames) ≤ machSessionArenaSize := by
  have hshort := hp.short
  have hframes := hp.frames_le
  have hn := stereoSamples_le config frames
  simp only [sizeofAssembleBuf, sizeofHeader, machSessionArenaSize] at hshort ⊢
  rw [hres]
  by_cases hrate : config.inSampleRate = config.outSampleRate
  · have hle : stereoElements config (stereoCount E config frames) ≤
        2 * stereoSamples config frames := by
      rw [stereoCount_direct hrate]
      unfold stereoElements
      split_ifs
      · omega
      · omega
    rw [if_neg (by simp [hrate])]
    omega
  · have hroom := hroom hrate
    rw [if_pos (by simp [hrate])]
    omega

/-- **A stereo request.**  With room for the resampled block it succeeds, and its output is an
encoding of as many elements as the stages count, which agree with what the encoding is given. -/
theorem stereo_request (hc : StereoConfig config) {a : AudioState H} (hok : a.Ok)
    (hs : a.session.StartedFrom E config) {payload data : List UInt8} {frames : ℕ}
    (hp : StereoInput config payload data frames)
    (hroom : config.inSampleRate ≠ config.outSampleRate →
      a.session.resampledSize (stereoSamples config frames) +
        stereoElements config (stereoCount E config frames) ≤ 131072) :
    (a.transcode E payload).1 = 0 ∧
      ∃ xs, xs.length = stereoElements config (stereoCount E config frames) ∧
        Agree xs (a.session.elements E data) ∧
        a.response E payload = encodeSamples config.outPayloadType config.outEndian xs := by
  obtain ⟨hdecoded, hlen, hsamples, helements⟩ := hp.counts hc hs
  obtain ⟨r, v, p, he⟩ := hs.eq
  have hcodec : IsKnownCodec a.session.inPayloadType := by rw [he]; exact hc.inCodec
  have hcodec' : IsKnownCodec a.session.outPayloadType := by rw [he]; exact hc.outCodec
  have hcount : a.session.encodedCount E (stereoSamples config frames) =
      stereoCount E config frames := by rw [he]; rfl
  have hres : a.session.needsResample = (config.inSampleRate != config.outSampleRate) := by
    rw [he]
    rfl
  have hshort := hp.short
  simp only [sizeofAssembleBuf, sizeofHeader] at hshort
  have hpos : 0 < stereoSamples config frames := by
    have hframes := hp.positive
    unfold stereoSamples
    split_ifs
    · omega
    · omega
  have hfit := hp.fits hres hroom
  rw [← hok.size, ← helements, ← hcount] at hfit
  obtain ⟨h0, xs, hxs, hagree, hcurr, hmem⟩ := audioProcessTranscode_single
    ⟨hs.swapFlags, hcodec, hok.size, by omega⟩ hcodec' hp.wellFormed (by rw [he]; exact hp.sixteen)
    hok.curr hsamples.symm hpos (by rw [hlen]; exact stereoSamples_le config frames) hfit
    ⟨a.session, a.arena, []⟩ ⟨.refl _, rfl, rfl, trivial⟩
  refine ⟨h0, xs, by rw [hxs, hcount, helements], hagree, ?_⟩
  have hout : encodeSamples a.session.outPayloadType a.session.outEndian xs =
      encodeSamples config.outPayloadType config.outEndian xs := by
    rw [he]
    rfl
  rw [hout] at hcurr hmem
  unfold AudioState.response AudioState.transcode
  rw [hcurr, Nat.add_sub_cancel_left]
  exact hmem

/-! ### Preserving stereo -/

/-- Two requests whose buffers agree on a channel. -/
def SameLaneInput (w lane : ℕ) (payload payload' : List UInt8) : Prop :=
  payload = payload' ∨ ∃ datas datas', WellFormed payload datas ∧ WellFormed payload' datas' ∧
    List.Forall₂ (SameLane w lane) datas datas'

/-- What a session of two channels has to keep, in every state and for every request with one
buffer of whole frames that succeeds. -/
structure StereoPreserved (E : Env H Φ) (config : AudioStartPayload) : Prop where
  frames : ∀ inputs a payload data frames, SessionAfter E config inputs a →
    StereoInput config payload data frames → (a.transcode E payload).1 = 0 →
      (a.response E payload).length = frames * config.outSampleRate.toNat /
        config.inSampleRate.toNat * (2 * elementBytes config.outPayloadType)
  /-- A channel of the output depends on this channel of the inputs only. -/
  lanes : ∀ lane < 2, ∀ inputs inputs' a a' payload payload' data data' frames frames',
    SessionAfter E config inputs a → SessionAfter E config inputs' a' →
      StereoInput config payload data frames → StereoInput config payload' data' frames' →
      List.Forall₂ (SameLaneInput (elementBytes config.inPayloadType) lane) inputs inputs' →
      SameLane (elementBytes config.inPayloadType) lane data data' →
      (a.transcode E payload).1 = 0 → (a'.transcode E payload').1 = 0 →
        SameLane (elementBytes config.outPayloadType) lane (a.response E payload)
          (a'.response E payload')
  direct : config.inSampleRate = config.outSampleRate →
    ∀ inputs a payload data frames, SessionAfter E config inputs a →
      StereoInput config payload data frames → (a.transcode E payload).1 = 0 →
        a.response E payload = encodeSamples config.outPayloadType config.outEndian
          (decodeSamples config.inPayloadType config.inEndian data)

/-- The decoder and the encoder count alike. -/
def SameFamily (config : AudioStartPayload) : Prop :=
  config.inPayloadType = codecL16 ↔ config.outPayloadType = codecL16

/-- With equal rates and codecs that count alike the output is the encoding of the elements. -/
theorem direct_response (hc : StereoConfig config)
    (hrate : config.inSampleRate = config.outSampleRate) (hfam : SameFamily config)
    {inputs : List (List UInt8)} {a : AudioState H} (ha : SessionAfter E config inputs a)
    {payload data : List UInt8} {frames : ℕ} (hp : StereoInput config payload data frames) :
    a.response E payload = encodeSamples config.outPayloadType config.outEndian
      (decodeSamples config.inPayloadType config.inEndian data) := by
  obtain ⟨hok, hs⟩ := ha.ok hc
  obtain ⟨hdecoded, hlen, -, -⟩ := hp.counts hc hs
  obtain ⟨-, xs, hxs, hagree, hresponse⟩ := stereo_request hc hok hs hp (absurd hrate)
  have helements : a.session.elements E data =
      decodeSamples config.inPayloadType config.inEndian data := by
    have hres : a.session.needsResample = false := by
      obtain ⟨r, v, p, he⟩ := hs.eq
      rw [he]
      simp [configuredSession, hrate]
    unfold TranscodeSession.elements
    rw [hres, ← hdecoded]
    rfl
  have hcount : xs.length = (a.session.elements E data).length := by
    rw [hxs, stereoCount_direct hrate, helements, ← hdecoded, hlen]
    unfold stereoElements stereoSamples
    unfold SameFamily at hfam
    by_cases hin : config.inPayloadType = codecL16
    · rw [if_pos hin, if_pos (hfam.mp hin)]
    · rw [if_neg hin, if_neg (mt hfam.mpr hin)]
  have hsame : xs = a.session.elements E data := by
    apply List.ext_getElem? 
    intro i
    rcases Nat.lt_or_ge i xs.length with hi | hi
    · exact hagree i hi (hcount ▸ hi)
    · rw [List.getElem?_eq_none hi, List.getElem?_eq_none (hcount ▸ hi)]
  rw [hresponse, hsame, helements]

theorem stereoPreserved_of_direct (hc : StereoConfig config)
    (hrate : config.inSampleRate = config.outSampleRate) (hfam : SameFamily config) :
    StereoPreserved E config where
  frames := by
    intro inputs a payload data frames ha hp _
    have hb := isRateSupported_bounds hc.outRate
    obtain ⟨hok, hs⟩ := ha.ok hc
    obtain ⟨hdecoded, hlen, -, -⟩ := hp.counts hc hs
    rw [direct_response hc hrate hfam ha hp, length_encodeSamples hc.outCodec, ← hdecoded, hlen,
      hrate, Nat.mul_div_cancel _ (by omega)]
    ring
  lanes := by
    intro lane _ inputs inputs' a a' payload payload' data data' frames frames' ha ha' hp hp' _
      hdata _ _
    rw [direct_response hc hrate hfam ha hp, direct_response hc hrate hfam ha' hp']
    exact hdata.encode_decode hc.inCodec hc.outCodec
  direct := fun _ inputs a payload data frames ha hp _ => direct_response hc hrate hfam ha hp

/-! ### What the code keeps -/

/-- The state behind the `CMD_START` of a new connection. -/
def freshSession (E : Env H Φ) (config : AudioStartPayload) : AudioState H :=
  audioStart E (AudioState.fresh 0) (startPayload config)

theorem freshSession_after (E : Env H Φ) (config : AudioStartPayload) :
    SessionAfter E config [] (freshSession E config) := by
  refine ⟨0, [], fun m hm => absurd hm List.not_mem_nil, fun p hp => absurd hp List.not_mem_nil, ?_⟩
  rw [List.nil_append, List.map_nil, audioAfter_cons, audioAfter_nil, audioStep_start]
  rfl

/-- The request of a client with one buffer. -/
def oneBuffer (data : List UInt8) : List UInt8 := wirePayload [⟨oneFloat, data⟩]

theorem oneBuffer_stereo {config : AudioStartPayload} {data : List UInt8} {frames : ℕ}
    (hpos : 1 ≤ frames) (h8 : frames % 8 = 0) (hle : frames ≤ 768)
    (hdata : data.length = frames * (2 * elementBytes config.inPayloadType)) :
    StereoInput config (oneBuffer data) data frames where
  wellFormed := wellFormed_wirePayload _
  short := by
    have hw : elementBytes config.inPayloadType ≤ 2 := by
      unfold elementBytes
      split_ifs <;> decide
    have hlen : data.length ≤ 768 * (2 * 2) := by
      rw [hdata]
      exact Nat.mul_le_mul hle (by omega)
    unfold oneBuffer
    rw [length_wirePayload, List.flatMap_singleton, WireBuffer.length_encode]
    simp only [sizeofInputPayload, sizeofBufferHeader, sizeofAssembleBuf, sizeofHeader, padded]
    omega
  positive := hpos
  whole := hdata
  sixteen := by
    intro hin
    rw [hdata, elementBytes, if_neg hin]
    omega

section exact
variable (hE : E.Exact) (hc : StereoConfig config)

include hE hc

theorem stereoCount_exact (frames : ℕ) :
    stereoCount E config frames =
      stereoSamples config frames * config.outSampleRate.toNat / config.inSampleRate.toNat := by
  have hb := isRateSupported_bounds hc.outRate
  by_cases hrate : config.inSampleRate = config.outSampleRate
  · rw [stereoCount_direct hrate, hrate, Nat.mul_div_cancel _ (by omega)]
  · have hres : (configuredSession (H := H) config).needsResample = true := by
      simp [configuredSession, hrate]
    have hne : (configuredSession (H := H) config).inSampleRate ≠
        (configuredSession (H := H) config).outSampleRate := hrate
    unfold stereoCount TranscodeSession.encodedCount TranscodeSession.resampledCount
      TranscodeSession.outCap
    rw [hres, if_pos rfl, if_neg hne, outSamples_exact hE, if_neg (by omega)]
    rfl

/-- Up to 768 frames the resampled block fits. -/
theorem stereo_room {frames : ℕ} (hle : frames ≤ 768) {s : TranscodeSession H}
    (hs : s.StartedFrom E config) :
    s.resampledSize (stereoSamples config frames) +
      stereoElements config (stereoCount E config frames) ≤ 131072 := by
  have ha := isRateSupported_bounds hc.inRate
  have hb := isRateSupported_bounds hc.outRate
  have hsamples : stereoSamples config frames ≤ 1536 := by
    unfold stereoSamples
    split_ifs <;> omega
  have hcount : stereoCount E config frames ≤ 9216 := by
    rw [stereoCount_exact hE hc]
    apply Nat.div_le_of_le_mul
    calc stereoSamples config frames * config.outSampleRate.toNat
        ≤ 1536 * (6 * config.inSampleRate.toNat) := Nat.mul_le_mul hsamples (by omega)
      _ = config.inSampleRate.toNat * 9216 := by ring
  have helements : stereoElements config (stereoCount E config frames) ≤ 18432 := by
    unfold stereoElements
    split_ifs <;> omega
  have hcap : s.resampledSize (stereoSamples config frames) =
      (stereoSamples config frames * config.outSampleRate.toNat / config.inSampleRate.toNat +
        128) * 2 * 2 := by
    obtain ⟨r, v, p, rfl⟩ := hs.eq
    have hout : config.outChannels.toNat = 2 := by rw [hc.outChannels]; rfl
    unfold TranscodeSession.resampledSize TranscodeSession.outCap
    simp only [configuredSession, hout]
  rw [hcap, ← stereoCount_exact hE hc]
  omega

/-- Eight frames are enough to tell codecs that count differently. -/
theorem sameFamily_of_preserved (h : StereoPreserved E config) : SameFamily config := by
  have ha := isRateSupported_bounds hc.inRate
  have hb := isRateSupported_bounds hc.outRate
  have hstate := freshSession_after E config
  obtain ⟨hok, hs⟩ := hstate.ok hc
  obtain ⟨data, hdata⟩ : ∃ data : List UInt8,
      data.length = 8 * (2 * elementBytes config.inPayloadType) :=
    ⟨List.replicate _ 0, List.length_replicate⟩
  have hp := oneBuffer_stereo (by decide) (by decide) (by decide) hdata
  obtain ⟨h0, xs, hxs, -, hresponse⟩ := stereo_request hc hok hs hp
    fun _ => stereo_room hE hc (by decide) hs
  have hframes := h.frames _ _ _ _ _ hstate hp h0
  rw [hresponse, length_encodeSamples hc.outCodec, hxs, stereoCount_exact hE hc] at hframes
  -- the output of eight frames is not empty
  have hone : 1 ≤ 8 * config.outSampleRate.toNat / config.inSampleRate.toNat := by
    rw [Nat.le_div_iff_mul_le (by omega)]
    omega
  have htwice : 2 * (8 * config.outSampleRate.toNat / config.inSampleRate.toNat) ≤
      2 * 8 * config.outSampleRate.toNat / config.inSampleRate.toNat := by
    rw [Nat.mul_assoc 2 8]
    exact Nat.mul_div_le_mul_div_assoc _ _ _
  unfold stereoElements stereoSamples elementBytes at hframes
  unfold SameFamily
  by_cases hin : config.inPayloadType = codecL16
  · by_cases hout : config.outPayloadType = codecL16
    · exact ⟨fun _ => hout, fun _ => hin⟩
    · rw [if_pos hin, if_neg hout, if_neg hout] at hframes
      omega
  · by_cases hout : config.outPayloadType = codecL16
    · rw [if_neg hin, if_pos hout, if_pos hout] at hframes
      omega
    · exact ⟨fun h => absurd h hin, fun h => absurd h hout⟩

/-- A buffer of 768 frames in which one element sounds. -/
def impulseData (config : AudioStartPayload) (e : ℕ) (x : Int16) : List UInt8 :=
  encodeSamples config.inPayloadType config.inEndian (impulse 1536 0 e x)

omit hE in
theorem impulseData_stereo (e : ℕ) (x : Int16) :
    StereoInput config (oneBuffer (impulseData config e x)) (impulseData config e x) 768 := by
  apply oneBuffer_stereo (by decide) (by decide) (Nat.le_refl _)
  unfold impulseData
  rw [length_encodeSamples hc.inCodec, length_impulse]
  ring

/-- What a new session makes of it. -/
theorem elements_impulseData (hne : config.inSampleRate ≠ config.outSampleRate) {r : Resampler}
    (hr : resamplerInit E config.inSampleRate config.outSampleRate = some r) (e : ℕ) (x : Int16) :
    (freshSession E config).session.elements E (impulseData config e x) =
      (resampleLoop E r config.inSampleRate config.outSampleRate
        (impulse (stereoSamples config 768) (requantize config.inPayloadType 0) e
          (requantize config.inPayloadType x))
        (stereoSamples config 768 * config.outSampleRate.toNat /
          config.inSampleRate.toNat)).out := by
  obtain ⟨hs, hresampler⟩ := audioStart_startedFrom (transcodeSessionInit_resampling hne hr)
    (AudioState.fresh 0 : AudioState H)
  obtain ⟨hdecoded, -, hsamples, -⟩ := (impulseData_stereo hc e x).counts hc hs
  have hn : stereoSamples config 768 ≤ 1536 := by
    unfold stereoSamples
    split_ifs <;> decide
  have himpulse : ((freshSession E config).session.decoded (impulseData config e x)).take
      (stereoSamples config 768) = impulse (stereoSamples config 768)
        (requantize config.inPayloadType 0) e (requantize config.inPayloadType x) := by
    unfold freshSession
    rw [hdecoded, impulseData, decodeSamples_encodeSamples hc.inCodec, impulse, List.map_set,
      List.map_replicate, List.take_set, List.take_replicate, Nat.min_eq_left hn]
    rfl
  obtain ⟨r', v, p, he⟩ := hs.eq
  have hres : (freshSession E config).session.needsResample = true := by
    unfold freshSession
    rw [he]
    simp [configuredSession, hne]
  have hsession : (freshSession E config).session.resampler = r := hresampler
  have hrates : (freshSession E config).session.inSampleRate = config.inSampleRate ∧
      (freshSession E config).session.outSampleRate = config.outSampleRate := by
    unfold freshSession
    rw [he]
    exact ⟨rfl, rfl⟩
  have hsamples' : (freshSession E config).session.decodedSamples (impulseData config e x).length =
      stereoSamples config 768 := hsamples
  unfold TranscodeSession.elements TranscodeSession.outCap
  rw [hres, if_pos rfl, hsamples', himpulse, hsession, hrates.1, hrates.2]
  unfold resampleL16Advanced
  rw [if_neg hne]
  dsimp only
  rw [length_impulse, outSamples_exact hE, if_neg (by omega)]

/-- **Crosstalk.**  With different rates one element of the right channel is enough to be heard on
the left. -/
theorem sameRate_of_preserved (hT : SincTable E) (h : StereoPreserved E config) :
    config.inSampleRate = config.outSampleRate := by
  by_contra hne
  obtain ⟨r, hr⟩ := resamplerInit_isSome E hc.inRate hc.outRate
  obtain ⟨j, e, hj, he, he', hcross⟩ := resampler_crosses hE hT hr hne
  have hstate := freshSession_after E config
  obtain ⟨hok, hs⟩ := hstate.ok hc
  obtain ⟨hz, hlow₀, hlow₁, hhigh⟩ := requantize_loud hc.inCodec
  have hn : 768 ≤ stereoSamples config 768 ∧ stereoSamples config 768 ≤ 32736 := by
    unfold stereoSamples
    split_ifs <;> decide
  obtain ⟨y, y', m, hy, hy', hmin, hm₀, hm₁, hbelow, habove⟩ :=
    (hcross (stereoSamples config 768) (requantize config.inPayloadType 0) hn.1 hn.2
      (by exact_mod_cast hz)).apart hlow₀ hlow₁ hhigh
  rw [← elements_impulseData hE hc hne hr] at hy hy'
  -- the element comes out encoded
  have hout : ∀ x z, ((freshSession E config).session.elements E
      (impulseData config e x))[j]? = some z →
      ((freshSession E config).transcode E (oneBuffer (impulseData config e x))).1 = 0 ∧
        elementAt (elementBytes config.outPayloadType)
          ((freshSession E config).response E (oneBuffer (impulseData config e x))) j =
            encodeSample config.outPayloadType config.outEndian z := by
    intro x z hz
    obtain ⟨h0, xs, hxs, hagree, hresponse⟩ := stereo_request hc hok hs
      (impulseData_stereo hc e x) fun _ => stereo_room hE hc (Nat.le_refl _) hs
    obtain ⟨hlt, -⟩ := List.getElem?_eq_some_iff.mp hz
    have hlen : ((freshSession E config).session.elements E (impulseData config e x)).length =
        stereoCount E config 768 := by
      rw [elements_impulseData hE hc hne hr, length_resampleLoop, stereoCount_exact hE hc]
    have hle : stereoCount E config 768 ≤ xs.length := by
      rw [hxs]
      unfold stereoElements
      split_ifs <;> omega
    rw [hresponse, elementAt_encodeSamples hc.outCodec, hagree j (by omega) hlt, hz]
    exact ⟨h0, rfl⟩
  obtain ⟨h0, hel⟩ := hout _ _ hy
  obtain ⟨h0', hel'⟩ := hout _ _ hy'
  have hlanes := h.lanes 0 (by decide) _ _ _ _ _ _ _ _ _ _ hstate hstate
    (impulseData_stereo hc e (-16000)) (impulseData_stereo hc e 16000) .nil
    (sameLane_set hc.inCodec _ (by omega) _ _ _) h0 h0'
  have hsame := hlanes.2 j hj
  rw [hel, hel'] at hsame
  exact encodeSample_ne hc.outCodec _ hm₀ hm₁ hmin hbelow habove hsame

end exact

/-- **When stereo is preserved.**  A session of two channels keeps its frames and its channels
when its rates are equal and its codecs are both L16 or both G.711; and, in exact arithmetic on a
table with the bounds of the source's, only then. -/
theorem stereo_preserved_iff (hc : StereoConfig config) :
    (config.inSampleRate = config.outSampleRate ∧
        (config.inPayloadType = codecL16 ↔ config.outPayloadType = codecL16) →
      StereoPreserved E config) ∧
      (E.Exact → SincTable E → StereoPreserved E config →
        config.inSampleRate = config.outSampleRate ∧
          (config.inPayloadType = codecL16 ↔ config.outPayloadType = codecL16)) := by
  constructor
  · rintro ⟨hrate, hfam⟩
    exact stereoPreserved_of_direct hc hrate hfam
  · intro hE hT h
    exact ⟨sameRate_of_preserved hE hc hT h, sameFamily_of_preserved hE hc h⟩

end session

theorem tent_sincTable : SincTable Env.tent where
  entry := by
    intro p _ j _
    show |if j = 63 ∨ j = 64 then (16384 : ℤ) else 0| ≤ 32768
    split_ifs <;> decide
  middle := by
    intro p _
    show 3000 ≤ (16384 : ℤ) ∧ 3000 ≤ (16384 : ℤ)
    decide

/-- Two channels of L16 in the other byte order, at 16 kHz. -/
def stereoSwapConfig : AudioStartPayload where
  inPayloadType := codecL16
  inChannels := 2
  flags := 0
  inSampleRate := 16000
  inEndian := endianBig
  outPayloadType := codecL16
  outChannels := 2
  outEndian := endianLittle
  outSampleRate := 16000

/-- Two channels of L16 from 16 to 48 kHz. -/
def stereoTripleConfig : AudioStartPayload :=
  { stereoSwapConfig with outSampleRate := 48000 }

theorem stereo_preserved_swap :
    StereoPreserved Env.tent stereoSwapConfig ∧ ¬StereoPreserved Env.tent stereoTripleConfig :=
  ⟨(stereo_preserved_iff ⟨rfl, rfl, by decide, by decide, rfl, rfl⟩).1 ⟨rfl, Iff.rfl⟩, fun h =>
    absurd ((stereo_preserved_iff ⟨rfl, rfl, by decide, by decide, rfl, rfl⟩).2 Env.tent_exact
      tent_sincTable h).1 (by decide)⟩

/-- Two channels of PCMU to two of L16, at 8 kHz. -/
def stereoDecodeConfig : AudioStartPayload where
  inPayloadType := codecPcmu
  inChannels := 2
  flags := 0
  inSampleRate := 8000
  inEndian := endianLittle
  outPayloadType := codecL16
  outChannels := 2
  outEndian := endianLittle
  outSampleRate := 8000

/-- Eight frames are answered with the bytes of sixteen. -/
theorem stereo_doubled :
    StereoConfig stereoDecodeConfig ∧
      SessionAfter Env.plain stereoDecodeConfig [] (freshSession Env.plain stereoDecodeConfig) ∧
      StereoInput stereoDecodeConfig (oneBuffer (List.replicate 16 255)) (List.replicate 16 255) 8 ∧
      ((freshSession Env.plain stereoDecodeConfig).transcode Env.plain
        (oneBuffer (List.replicate 16 255))).1 = 0 ∧
      ((freshSession Env.plain stereoDecodeConfig).response Env.plain
        (oneBuffer (List.replicate 16 255))).length = 16 * (2 * 2) ∧
      ¬StereoPreserved Env.plain stereoDecodeConfig := by
  have hc : StereoConfig stereoDecodeConfig := ⟨rfl, rfl, by decide, by decide, rfl, rfl⟩
  have hstate := freshSession_after Env.plain stereoDecodeConfig
  have hp : StereoInput stereoDecodeConfig (oneBuffer (List.replicate 16 255))
      (List.replicate 16 255) 8 :=
    oneBuffer_stereo (by decide) (by decide) (by decide) (by decide)
  have h0 : ((freshSession Env.plain stereoDecodeConfig).transcode Env.plain
      (oneBuffer (List.replicate 16 255))).1 = 0 := by decide +kernel
  have hlen : ((freshSession Env.plain stereoDecodeConfig).response Env.plain
      (oneBuffer (List.replicate 16 255))).length = 16 * (2 * 2) := by decide +kernel
  refine ⟨hc, hstate, hp, h0, hlen, fun h => ?_⟩
  have hframes := h.frames _ _ _ _ _ hstate hp h0
  rw [hlen] at hframes
  exact absurd hframes (by decide)

end MachAudio
