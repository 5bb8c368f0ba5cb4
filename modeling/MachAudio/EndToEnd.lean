import MachAudio.Conversation
import MachAudio.Interleaved
import MachAudio.MonoPipeline
import MachAudio.SentStream
import MachAudio.Stereo
import MachAudio.Upsampler

/-! # A file through client and server

The stages put together: the client cuts its files into requests (`client_sends_files`), the
server answers their stream (`conversation_recorded`), and the client writes the data of the
answers to its output file.  With one channel on both sides a request is decoded, mixed, converted
to the other rate and encoded (`audioProcessTranscode_converted`).  At equal rates, or upsampling
by a filter that keeps its position, the output file is what decoding, mixing, filtering and
encoding make of the input files as a whole (`file_transcoded`): chunks, reads, buffers, write
records, the history of the resampler and the voice detector leave no trace in it. -/

namespace MachAudio

open ByteMem Framing Transition

variable {H Φ : Type} (E : Env H Φ)

/-! ### Sessions with one channel -/

/-- The settings of a session with one channel and codecs that are known. -/
structure MonoConfig (config : AudioStartPayload) : Prop where
  inChannels : config.inChannels = 1
  outChannels : config.outChannels = 1
  inCodec : IsKnownCodec config.inPayloadType
  outCodec : IsKnownCodec config.outPayloadType

/-- The samples of some buffers, all mixed into the first. -/
def mixedSamples (config : AudioStartPayload) : List (List UInt8) → List Int16
  | [] => []
  | data :: datas =>
      (datas.map (decodeSamples config.inPayloadType config.inEndian)).foldl mixSamples
        (decodeSamples config.inPayloadType config.inEndian data)

/-- The session as configured, with a resampler. -/
def sessionWith (config : AudioStartPayload) (r : Resampler) : TranscodeSession H :=
  { configuredSession config with resampler := r }

/-- What some lists of samples are converted to one after another. -/
def convertedChunks (config : AudioStartPayload) : Resampler → List (List Int16) →
    List (List Int16)
  | _, [] => []
  | r, xs :: xss =>
      ((sessionWith config r).converted E xs).1 ::
        convertedChunks config ((sessionWith config r).converted E xs).2 xss

/-- A request that such a session answers with an output. -/
structure MonoRequest (config : AudioStartPayload) (buffers : List WireBuffer) : Prop where
  length : (wirePayload buffers).length ≤ sizeofAssembleBuf - sizeofHeader
  blocks : config.inPayloadType ≠ codecL16 → ∀ b ∈ buffers, b.data.length % 16 = 0
  first : ∀ b ∈ buffers.head?, decodeSamples config.inPayloadType config.inEndian b.data ≠ []
  nonempty : buffers ≠ []
  room : 65648 + (if config.inSampleRate = config.outSampleRate then 0
      else (configuredSession (H := H) config).resampledSize
        (mixedSamples config (buffers.map WireBuffer.data)).length) +
    (configuredSession (H := H) config).encodedCount E
      (mixedSamples config (buffers.map WireBuffer.data)).length ≤ machSessionArenaSize
  output : (configuredSession (H := H) config).encodedCount E
      (mixedSamples config (buffers.map WireBuffer.data)).length *
    elementBytes config.outPayloadType ≤ maxOutput

/-- The audio state of such a session at any later time. -/
structure AudioState.Mono (config : AudioStartPayload) (r : Resampler) (a : AudioState H) :
    Prop where
  ok : a.Ok
  session : ∃ v p, a.session =
    { sessionWith (H := H) config r with vadState := v, lastVadProb := p }

section mono
variable {E} {config : AudioStartPayload}

theorem audioStart_mono {r : Resampler}
    (hinit : transcodeSessionInit E config = (0, sessionWith config r)) {a : AudioState H}
    (ha : a.Ok) : (audioStart E a (startPayload config)).Mono config r := by
  refine ⟨audioStart_ok E ha _, ?_⟩
  unfold audioStart
  rw [decodeStartPayload_startPayload, hinit]
  dsimp only
  split_ifs
  · exact ⟨_, _, rfl⟩
  · exact ⟨_, _, rfl⟩

/-- A request is answered with its samples converted and encoded. -/
theorem AudioState.Mono.input (hc : MonoConfig config) {r : Resampler} {a : AudioState H}
    (ha : a.Mono config r) {buffers : List WireBuffer}
    (hr : MonoRequest (H := H) E config buffers) {xs : List Int16}
    (hxs : mixedSamples config (buffers.map WireBuffer.data) = xs) :
    (∃ p, answerInput E 0 a (wirePayload buffers) =
        .output 0 p (encodeSamples config.outPayloadType config.outEndian
          ((sessionWith (H := H) config r).converted E xs).1)) ∧
      (audioInput E a (wirePayload buffers)).Mono config
        ((sessionWith (H := H) config r).converted E xs).2 := by
  obtain ⟨hok, v, p, hs⟩ := ha
  obtain ⟨hlen, hblocks, hfirst, hne, hroom, -⟩ := hr
  rw [hxs] at hroom
  cases buffers with
  | nil => exact absurd rfl hne
  | cons b bs =>
      have hd : Decodable a.session a.arena.size (wirePayload (b :: bs)) := by
        refine ⟨?_, ?_, hok.size, hlen⟩
        · rw [hs]
          exact ⟨rfl, rfl⟩
        · rw [hs]
          exact hc.inCodec
      have hout : IsKnownCodec a.session.outPayloadType := by
        rw [hs]
        exact hc.outCodec
      have hin₁ : a.session.inChannels = 1 := by
        rw [hs]
        exact hc.inChannels
      have hout₁ : a.session.outChannels = 1 := by
        rw [hs]
        exact hc.outChannels
      have h16 : a.session.inPayloadType ≠ codecL16 →
          ∀ d ∈ b.data :: bs.map WireBuffer.data, d.length % 16 = 0 := by
        rw [hs]
        intro hl d hd'
        obtain ⟨b', hb', rfl⟩ := List.mem_map.mp (show d ∈ (b :: bs).map WireBuffer.data from hd')
        exact hblocks hl b' hb'
      have hfirst' : decodeSamples a.session.inPayloadType a.session.inEndian b.data ≠ [] := by
        rw [hs]
        exact hfirst b rfl
      have hmixed : mixedDown a.session b.data (bs.map WireBuffer.data) = xs := by
        rw [← hxs, hs]
        rfl
      have hconv : a.session.converted E xs = (sessionWith (H := H) config r).converted E xs := by
        rw [hs]
        rfl
      have hneeds :
          a.session.needsResample = !decide (config.inSampleRate = config.outSampleRate) := by
        rw [hs]
        rfl
      have hsize : a.session.resampledSize xs.length =
          (configuredSession (H := H) config).resampledSize xs.length := by
        rw [hs]
        rfl
      have hcount : (a.session.converted E xs).1.length =
          (configuredSession (H := H) config).encodedCount E xs.length := by
        rw [a.session.length_converted, hs]
        rfl
      obtain ⟨h0, hw⟩ := audioProcessTranscode_converted (E := E) hd hout hin₁ hout₁
        (wellFormed_wirePayload (b :: bs)) h16 hfirst' hok.curr
        (by
          rw [hmixed, hsize, hcount, hneeds, hok.size]
          by_cases hrate : config.inSampleRate = config.outSampleRate
          · simpa [hrate] using hroom
          · simpa [hrate] using hroom)
        ⟨a.session, a.arena, []⟩ ⟨.refl _, rfl, rfl, trivial⟩
      rw [hmixed, hconv] at hw
      have hcodec : a.session.outPayloadType = config.outPayloadType ∧
          a.session.outEndian = config.outEndian := by
        rw [hs]
        exact ⟨rfl, rfl⟩
      rw [hcodec.1, hcodec.2] at hw
      generalize (sessionWith (H := H) config r).converted E xs = out at hw ⊢
      refine ⟨⟨(a.transcode E (wirePayload (b :: bs))).2.session.lastVadProb, ?_⟩, ?_, ?_⟩
      · have hcurr : (a.transcode E (wirePayload (b :: bs))).2.arena.curr - a.arena.curr =
            (encodeSamples config.outPayloadType config.outEndian out.1).length := by
          have := hw.curr
          unfold AudioState.transcode
          omega
        unfold answerInput
        dsimp only
        rw [hcurr]
        refine (if_pos h0).trans ?_
        exact congrArg _ hw.mem
      · obtain ⟨v', p', hsess⟩ := hw.setup
        refine ⟨hw.size.trans hok.size, hok.curr, ?_⟩
        show (audioProcessTranscode E _ ⟨a.session, a.arena, []⟩).2.session.needsResample = _
        unfold audioInput AudioState.transcode
        rw [hsess]
        exact hok.needsResample
      · obtain ⟨v', p', hsess⟩ := hw.setup
        refine ⟨v', p', ?_⟩
        refine hsess.trans ?_
        rw [hs]
        rfl

/-- The message of a request. -/
def inputRequest (sequenceId : UInt32) (buffers : List WireBuffer) : Message :=
  request cmdInput sequenceId (wirePayload buffers)

theorem inputRequest_isInput (sequenceId : UInt32) (buffers : List WireBuffer) :
    (inputRequest sequenceId buffers).IsInput ∧ ¬(inputRequest sequenceId buffers).IsStart := by
  refine ⟨⟨rfl, ?_⟩, fun h => absurd (show cmdInput = cmdStart from h.1) (by decide)⟩
  show sizeofInputPayload ≤ (wirePayload buffers).length
  rw [length_wirePayload]
  omega

/-- The machine answers requests one after another with their samples converted. -/
theorem mono_outputs (hc : MonoConfig config) (numWorkers : UInt32)
    (requests : List (UInt32 × List WireBuffer)) :
    ∀ {r : Resampler} {a : AudioState H}, a.Mono config r →
      (∀ q ∈ requests, MonoRequest (H := H) E config q.2) →
      (outputs ((sessionMachine E numWorkers).outputs a
        (requests.map fun q => inputRequest q.1 q.2))).map Output.data =
          (convertedChunks E config r (requests.map fun q =>
            mixedSamples config (q.2.map WireBuffer.data))).map
              (encodeSamples config.outPayloadType config.outEndian) := by
  induction requests with
  | nil => exact fun _ _ => rfl
  | cons q requests ih =>
      intro r a ha hq
      have hr := hq q List.mem_cons_self
      obtain ⟨⟨p, hans⟩, hnext⟩ := ha.input hc hr rfl
      obtain ⟨hi, hns⟩ := inputRequest_isInput q.1 q.2
      have hstep : (sessionMachine E numWorkers).next a (inputRequest q.1 q.2) =
          audioInput E a (wirePayload q.2) := by
        show audioStep E a (inputRequest q.1 q.2) = _
        unfold audioStep
        rw [if_neg hns, if_pos hi]
        rfl
      have hemit : (sessionMachine E numWorkers).emit a (inputRequest q.1 q.2) =
          [⟨q.1, .output 0 p (encodeSamples config.outPayloadType config.outEndian
            ((sessionWith (H := H) config r).converted E
              (mixedSamples config (q.2.map WireBuffer.data))).1)⟩] := by
        have hfits := hr.output
        show reply E numWorkers a (inputRequest q.1 q.2) = _
        unfold reply answer
        rw [if_neg hns, if_pos hi]
        unfold inputRequest request
        dsimp only
        rw [hans, Option.toList_some, List.map_singleton, List.filter_singleton]
        refine (Bool.cond_decide _ _ _).trans (if_pos ?_)
        rw [untimed_respLen, Response.respLen, Body.length_payload_output,
          length_encodeSamples hc.outCodec, TranscodeSession.length_converted]
        have hcount : ∀ n, (sessionWith (H := H) config r).encodedCount E n =
            (configuredSession (H := H) config).encodedCount E n := fun _ => rfl
        rw [hcount]
        simp only [maxOutput, maxWritePayload, sizeofHeader, sizeofOutputPayload] at hfits ⊢
        omega
      have hrest := ih hnext fun q' hq' => hq q' (List.mem_cons_of_mem _ hq')
      rw [List.map_cons, Machine.outputs, hstep, hemit, outputs_append, List.map_append, hrest]
      rfl

/-- A session from its start on. -/
theorem started_outputs (hc : MonoConfig config) (numWorkers : UInt32) (addr : ℕ)
    (sequenceId : UInt32) {r : Resampler}
    (hinit : transcodeSessionInit E config = (0, sessionWith config r))
    {requests : List (UInt32 × List WireBuffer)}
    (hq : ∀ q ∈ requests, MonoRequest (H := H) E config q.2) :
    (outputs ((sessionMachine E numWorkers).outputs (AudioState.fresh addr)
      (request cmdStart sequenceId (startPayload config) ::
        requests.map fun q => inputRequest q.1 q.2))).map Output.data =
          (convertedChunks E config r (requests.map fun q =>
            mixedSamples config (q.2.map WireBuffer.data))).map
              (encodeSamples config.outPayloadType config.outEndian) := by
  have hs : (request cmdStart sequenceId (startPayload config)).IsStart :=
    ⟨rfl, (length_startPayload config).ge⟩
  have hstep : (sessionMachine E numWorkers).next (AudioState.fresh addr)
      (request cmdStart sequenceId (startPayload config)) =
        audioStart E (AudioState.fresh addr) (startPayload config) := by
    show audioStep E (AudioState.fresh addr)
      (request cmdStart sequenceId (startPayload config)) = _
    unfold audioStep
    rw [if_pos hs]
    rfl
  have hemit : (sessionMachine E numWorkers).emit (AudioState.fresh addr)
      (request cmdStart sequenceId (startPayload config)) = [] := by
    show reply E numWorkers (AudioState.fresh addr)
      (request cmdStart sequenceId (startPayload config)) = []
    unfold reply answer
    rw [if_pos hs]
    rfl
  rw [Machine.outputs, hstep, hemit, List.nil_append]
  exact mono_outputs hc numWorkers requests (audioStart_mono hinit (AudioState.fresh_ok addr)) hq

end mono

/-! ### Samples piece by piece -/

section pieces
variable {config : AudioStartPayload}

theorem decodeSamples_append {payloadType : UInt8} (hk : IsKnownCodec payloadType)
    (endian : UInt8) {bs : List UInt8} (cs : List UInt8)
    (h : bs.length % elementBytes payloadType = 0) :
    decodeSamples payloadType endian (bs ++ cs) =
      decodeSamples payloadType endian bs ++ decodeSamples payloadType endian cs := by
  rcases hk with rfl | rfl | rfl
  · simp only [decodeSamples_pcmu, List.map_append]
  · simp only [decodeSamples_pcma, List.map_append]
  · rw [elementBytes_l16] at h
    simp only [decodeSamples_l16, ← map_swapSample_ofBytes, ofBytes_append _ _ h,
      List.map_append]
    split_ifs <;> rfl

theorem encodeSamples_append (payloadType endian : UInt8) (xs ys : List Int16) :
    encodeSamples payloadType endian (xs ++ ys) =
      encodeSamples payloadType endian xs ++ encodeSamples payloadType endian ys := by
  simp only [encodeSamples_eq_flatMap, List.flatMap_append]

theorem mixSamples_append {xs ys : List Int16} (h : xs.length = ys.length)
    (xs' ys' : List Int16) :
    mixSamples (xs ++ xs') (ys ++ ys') = mixSamples xs ys ++ mixSamples xs' ys' := by
  unfold mixSamples
  rw [List.zipWith_append h, List.length_append, List.drop_append, ← h,
    List.drop_of_length_le (Nat.le_refl xs.length),
    List.drop_of_length_le (show xs.length ≤ xs.length + ys'.length by omega),
    List.nil_append, List.append_nil, Nat.add_sub_cancel_left, List.append_assoc]

theorem foldl_mixSamples_append {ι : Type} {f g : ι → List Int16} (is : List ι) :
    ∀ {xs : List Int16} (xs' : List Int16), (∀ i ∈ is, (f i).length = xs.length) →
      (is.map fun i => f i ++ g i).foldl mixSamples (xs ++ xs') =
        (is.map f).foldl mixSamples xs ++ (is.map g).foldl mixSamples xs' := by
  induction is with
  | nil => exact fun _ _ => rfl
  | cons i is ih =>
      intro xs xs' h
      rw [List.map_cons, List.foldl_cons, List.map_cons, List.foldl_cons, List.map_cons,
        List.foldl_cons, mixSamples_append (h i List.mem_cons_self).symm]
      refine ih _ fun j hj => ?_
      rw [length_mixSamples]
      exact h j (List.mem_cons_of_mem _ hj)

/-- Buffers cut at the same place are mixed one part after the other. -/
theorem mixedSamples_append (hc : IsKnownCodec config.inPayloadType) {ι : Type}
    {f g : ι → List UInt8} (is : List ι) {n : ℕ} (hn : n % elementBytes config.inPayloadType = 0)
    (h : ∀ i ∈ is, (f i).length = n) :
    mixedSamples config (is.map fun i => f i ++ g i) =
      mixedSamples config (is.map f) ++ mixedSamples config (is.map g) := by
  cases is with
  | nil => rfl
  | cons i is =>
      have hdec : ∀ j ∈ i :: is, decodeSamples config.inPayloadType config.inEndian (f j ++ g j) =
          decodeSamples config.inPayloadType config.inEndian (f j) ++
            decodeSamples config.inPayloadType config.inEndian (g j) := fun j hj =>
        decodeSamples_append hc _ _ (by rw [h j hj]; exact hn)
      have hlen : ∀ j ∈ i :: is, (decodeSamples config.inPayloadType config.inEndian
          (f j)).length = n / elementBytes config.inPayloadType := fun j hj => by
        rw [length_decodeSamples hc, h j hj]
      rw [List.map_cons, List.map_cons, List.map_cons, mixedSamples, mixedSamples, mixedSamples,
        List.map_map, List.map_map, List.map_map, hdec i List.mem_cons_self]
      rw [← foldl_mixSamples_append is _ fun j hj => by
        rw [Function.comp_apply, hlen j (List.mem_cons_of_mem _ hj), hlen i List.mem_cons_self]]
      congr 1
      apply List.map_congr_left
      intro j hj
      exact hdec j (List.mem_cons_of_mem _ hj)

theorem encodeSamples_flatten (payloadType endian : UInt8) (xss : List (List Int16)) :
    (xss.map (encodeSamples payloadType endian)).flatten =
      encodeSamples payloadType endian xss.flatten := by
  induction xss with
  | nil =>
      rw [encodeSamples_eq_flatMap]
      rfl
  | cons xs xss ih =>
      rw [List.map_cons, List.flatten_cons, List.flatten_cons, encodeSamples_append, ih]

end pieces

/-! ### Conversion of a whole stream -/

/-- What a stream of samples is converted to: itself at equal rates, else the output of the
filter. -/
def convertedStream (config : AudioStartPayload) (xs : List Int16) : List Int16 :=
  if config.inSampleRate = config.outSampleRate then xs
  else idealOutput E config.inSampleRate config.outSampleRate xs

/-- Upsampling chunks of `n` samples by a filter that keeps its position. -/
structure Upsamples (config : AudioStartPayload) (n : ℕ) : Prop where
  positions : ExactPositions E config.inSampleRate config.outSampleRate
  inRate : isRateSupported config.inSampleRate = true
  outRate : isRateSupported config.outSampleRate = true
  lt : config.inSampleRate.toNat < config.outSampleRate.toNat
  whole : config.inSampleRate.toNat ∣ n * config.outSampleRate.toNat

section stream
variable {E} {config : AudioStartPayload} {n : ℕ}

/-- The samples that `n` of them are converted to. -/
theorem encodedCount_of_rates
    (h : config.inSampleRate = config.outSampleRate ∨ Upsamples E config n) (hn : n ≤ 32736) :
    (configuredSession (H := H) config).encodedCount E n =
        if config.inSampleRate = config.outSampleRate then n
        else n * config.outSampleRate.toNat / config.inSampleRate.toNat := by
  unfold TranscodeSession.encodedCount
  have hneeds : (configuredSession (H := H) config).needsResample =
      !decide (config.inSampleRate = config.outSampleRate) := rfl
  rw [hneeds]
  by_cases hrate : config.inSampleRate = config.outSampleRate
  · simp [hrate]
  · obtain hup := h.resolve_left hrate
    have hcount : outSamples E config.inSampleRate config.outSampleRate n = _ :=
      hup.positions.samples n hn
    have hcap : (configuredSession (H := H) config).outCap n =
        n * config.outSampleRate.toNat / config.inSampleRate.toNat + 128 := rfl
    have hfits : ¬outSamples E config.inSampleRate config.outSampleRate n >
        (configuredSession (H := H) config).outCap n := by
      rw [hcount, hcap]
      omega
    rw [if_pos (by simp [hrate]), if_neg hrate]
    unfold TranscodeSession.resampledCount
    have hin : (configuredSession (H := H) config).inSampleRate = config.inSampleRate := rfl
    have hout : (configuredSession (H := H) config).outSampleRate = config.outSampleRate := rfl
    rw [hin, hout, if_neg hrate, if_neg hfits, hcount]

/-- Chunks converted one after another make up the stream converted as a whole. -/
theorem flatten_convertedChunks
    (h : config.inSampleRate = config.outSampleRate ∨ Upsamples E config n) (hpos : 1 ≤ n)
    (hn : n ≤ 32736) :
    ∃ r, transcodeSessionInit E config = (0, sessionWith (H := H) config r) ∧
      ∀ xss : List (List Int16), (∀ xs ∈ xss, xs.length = n) →
        (config.inSampleRate ≠ config.outSampleRate → xss.flatten.length ≤ 2 ^ 32) →
          (convertedChunks E config r xss).flatten = convertedStream E config xss.flatten := by
  by_cases hrate : config.inSampleRate = config.outSampleRate
  · refine ⟨_, transcodeSessionInit_direct hrate, fun xss _ _ => ?_⟩
    have hsame : ∀ (r : Resampler) (xss : List (List Int16)),
        convertedChunks E config r xss = xss := by
      intro r xss
      induction xss generalizing r with
      | nil => rfl
      | cons xs xss ih =>
          have hneeds : (sessionWith (H := H) config r).needsResample = false := by
            simp [sessionWith, configuredSession, hrate]
          rw [convertedChunks, ih]
          unfold TranscodeSession.converted
          rw [hneeds]
          rfl
    rw [hsame, convertedStream, if_pos hrate]
  · obtain hup := h.resolve_left hrate
    obtain ⟨r, hr⟩ := resamplerInit_isSome E hup.inRate hup.outRate
    refine ⟨r, transcodeSessionInit_resampling hrate hr, fun xss hlen htotal => ?_⟩
    -- the calls of the resampler
    have hcalls : ∀ (r : Resampler) (xss : List (List Int16)), convertedChunks E config r xss =
        (resampleCalls E config.inSampleRate config.outSampleRate r
          (xss.map fun xs => (xs, (configuredSession (H := H) config).outCap xs.length))).map
            Prod.fst := by
      intro r xss
      induction xss generalizing r with
      | nil => rfl
      | cons xs xss ih =>
          have hneeds : (sessionWith (H := H) config r).needsResample = true := by
            simp [sessionWith, configuredSession, hrate]
          rw [convertedChunks, ih]
          unfold TranscodeSession.converted
          rw [hneeds]
          rfl
    have hfst : (xss.map fun xs => (xs, (configuredSession (H := H) config).outCap
        xs.length)).flatMap Prod.fst = xss.flatten := by
      rw [List.flatMap_map, List.flatMap_def, List.map_id']
    have hstream := resampleCalls_stream hup.positions hup.inRate hup.outRate hup.lt
      (xss.map fun xs => (xs, (configuredSession (H := H) config).outCap xs.length))
      (resamplerInit_follows hup.positions hup.inRate hup.outRate hr) ?_ ?_
    · rw [hcalls, ← List.flatMap_def, hstream, hfst, convertedStream, if_neg hrate]
      simp [idealOutput]
    · intro call hcall
      obtain ⟨xs, hxs, rfl⟩ := List.mem_map.mp hcall
      have hl := hlen xs hxs
      refine ⟨?_, ?_, ?_, ?_⟩
      · rw [hl]
        exact hpos
      · rw [hl]
        exact hn
      · rw [hl]
        exact hup.whole
      · exact Nat.le_add_right _ _
    · rw [hfst, List.length_nil, Nat.zero_add]
      exact htotal hrate

end stream

/-! ### The client -/

/-- The samples of a chunk. -/
def ClientConfig.chunkSamples (c : ClientConfig) : ℕ := c.chunkSize / elementBytes c.format

/-- A configuration with one channel whose requests fit the buffers of the server. -/
structure Streamable (config : ClientConfig) (files : ℕ) : Prop where
  mono : MonoConfig config.startConfig
  pos : 0 < config.chunkSize
  blocks : config.format ≠ codecL16 → config.chunkSize % 16 = 0
  message : sizeofHeader + sizeofInputPayload +
    files * (sizeofBufferHeader + padded config.chunkSize) ≤ bufSize + 1
  output : config.chunkSamples * config.outRate.toNat / config.rate.toNat *
    elementBytes config.outFormat ≤ maxOutput

section client
variable {config : ClientConfig} {file : List UInt8} {file2 : Option (List UInt8)}

/-- A chunk is a whole number of samples. -/
theorem ClientConfig.chunkSize_mod (c : ClientConfig) :
    c.chunkSize % elementBytes c.format = 0 := by
  unfold ClientConfig.chunkSize elementBytes
  split_ifs
  · rw [Nat.mul_right_comm, Nat.mul_mod_left]
  · exact Nat.mod_one _

theorem elementBytes_pos (payloadType : UInt8) : 0 < elementBytes payloadType := by
  unfold elementBytes
  split_ifs <;> decide

theorem length_chunkOf_le (chunkSize : ℕ) (f : List UInt8) (k : ℕ) :
    (chunkOf chunkSize f k).length ≤ chunkSize := List.length_take_le _ _

theorem length_wirePayload_chunksOf (k : ℕ) :
    (wirePayload (chunksOf config file file2 k)).length ≤ sizeofInputPayload +
      (1 + file2.toList.length) * (sizeofBufferHeader + padded config.chunkSize) := by
  have hmono : ∀ f : List UInt8, padded (chunkOf config.chunkSize f k).length ≤
      padded config.chunkSize := by
    intro f
    have hle := length_chunkOf_le config.chunkSize f k
    unfold padded
    omega
  have h₁ := hmono file
  rw [length_wirePayload, chunksOf, List.flatMap_cons, List.length_append,
    WireBuffer.length_encode]
  cases file2 with
  | none =>
      simp only [Option.map_none, Option.toList_none, List.flatMap_nil, List.length_nil]
      omega
  | some f =>
      have h₂ := hmono f
      simp only [Option.map_some, Option.toList_some, List.flatMap_singleton,
        WireBuffer.length_encode, List.length_singleton]
      omega

variable (hs : Streamable config (1 + file2.toList.length))

include hs

theorem Streamable.wirePayload_lt (k : ℕ) :
    (wirePayload (chunksOf config file file2 k)).length < 2 ^ 31 := by
  have hle : (wirePayload (chunksOf config file file2 k)).length ≤ _ :=
    length_wirePayload_chunksOf k
  have hm := hs.message
  simp only [bufSize] at hm
  omega

/-- The messages of a run, as the server frames them. -/
def Streamable.messages (file : List UInt8) (n : ℕ) : List FramedMessage :=
  framedRequest cmdStart 0 (startPayload config.startConfig)
      (by rw [length_startPayload]; decide) ::
    (List.range (sentCount config file file2 n)).map fun k =>
      framedRequest cmdInput (UInt32.ofNat (k + 1)) (wirePayload (chunksOf config file file2 k))
        (hs.wirePayload_lt k)

theorem Streamable.stream_messages (n : ℕ) :
    stream (hs.messages file n) = (sentMessages config file file2 n).flatten := by
  unfold stream Streamable.messages sentMessages
  rw [List.map_cons, List.map_map]
  rfl

theorem Streamable.fits (n : ℕ) : FitsAssembleBuf (hs.messages file n) := by
  intro pre m post e
  have hm : m ∈ hs.messages file n := e ▸ List.mem_append_right pre List.mem_cons_self
  left
  rcases List.mem_cons.mp hm with rfl | hm
  · rw [← FramedMessage.length_encode]
    show (encodeHeader _ ++ startPayload config.startConfig).length ≤ _
    rw [List.length_append, length_encodeHeader, length_startPayload]
    decide
  · obtain ⟨k, -, rfl⟩ := List.mem_map.mp hm
    have hle : (wirePayload (chunksOf config file file2 k)).length ≤ _ :=
      length_wirePayload_chunksOf k
    have hbound := hs.message
    rw [← FramedMessage.length_encode]
    show (encodeHeader _ ++ wirePayload (chunksOf config file file2 k)).length ≤ _
    rw [List.length_append, length_encodeHeader]
    omega

theorem Streamable.chunkSamples_bounds :
    1 ≤ config.chunkSamples ∧ config.chunkSamples ≤ 32736 := by
  have hmod := config.chunkSize_mod
  have hpos := hs.pos
  have hm := hs.message
  have hle : config.chunkSize ≤ padded config.chunkSize := by
    unfold padded
    omega
  have hchunk : config.chunkSize ≤ 16384 := by
    simp only [bufSize, sizeofHeader] at hm
    rw [Nat.add_mul, Nat.one_mul] at hm
    omega
  have hdiv := Nat.div_le_self config.chunkSize (elementBytes config.format)
  constructor
  · exact Nat.div_pos (Nat.le_of_dvd hpos (Nat.dvd_of_mod_eq_zero hmod))
      (elementBytes_pos config.format)
  · unfold ClientConfig.chunkSamples
    omega

/-- The files have the chunk of every message that is sent. -/
theorem Streamable.length_chunkOf {n k : ℕ} (hk : k < sentCount config file file2 n)
    (hfits : config.loop = true →
      config.chunkSize ≤ file.length ∧ ∀ f ∈ file2, config.chunkSize ≤ f.length) :
    ∀ f ∈ file :: file2.toList, (chunkOf config.chunkSize f k).length = config.chunkSize := by
  have hmore : MoreToSend config file file2 k := by
    unfold sentCount at hk
    split_ifs at hk with hloop
    · exact .inl hloop
    · exact .inr (by omega)
  exact fun f hf => MachAudio.length_chunkOf hs.pos (chunk_le_of_next (hmore.next hfits f hf)) k

/-- The samples of a message. -/
theorem Streamable.length_mixed {n k : ℕ} (hk : k < sentCount config file file2 n)
    (hfits : config.loop = true →
      config.chunkSize ≤ file.length ∧ ∀ f ∈ file2, config.chunkSize ≤ f.length) :
    (mixedSamples config.startConfig ((chunksOf config file file2 k).map WireBuffer.data)).length =
      config.chunkSamples := by
  rw [chunksOf, List.map_cons, mixedSamples, length_foldl_mixSamples,
    length_decodeSamples hs.mono.inCodec,
    hs.length_chunkOf hk hfits file List.mem_cons_self]
  rfl

/-- Every request the client sends is answered with an output. -/
theorem Streamable.monoRequest (hrates : config.rate = config.outRate ∨
      Upsamples E config.startConfig config.chunkSamples) {n k : ℕ}
    (hk : k < sentCount config file file2 n)
    (hfits : config.loop = true →
      config.chunkSize ≤ file.length ∧ ∀ f ∈ file2, config.chunkSize ≤ f.length) :
    MonoRequest (H := H) E config.startConfig (chunksOf config file file2 k) := by
  have hlen := hs.length_chunkOf hk hfits
  obtain ⟨h1, hn⟩ := hs.chunkSamples_bounds
  have hbuf : ∀ b ∈ chunksOf config file file2 k, b.data.length = config.chunkSize := by
    intro b hb
    rcases List.mem_cons.mp hb with rfl | hb
    · exact hlen file List.mem_cons_self
    · obtain ⟨b', hb', rfl⟩ := Option.map_eq_some_iff.mp (Option.mem_toList.mp hb)
      exact hlen b' (List.mem_cons_of_mem _ (Option.mem_toList.mpr hb'))
  have hcount : (configuredSession (H := H) config.startConfig).encodedCount E
      config.chunkSamples =
        config.chunkSamples * config.outRate.toNat / config.rate.toNat := by
    have h := encodedCount_of_rates (H := H)
      (show config.startConfig.inSampleRate = config.startConfig.outSampleRate ∨ _ from hrates) hn
    rw [h]
    split_ifs with hrate
    · have hsame : config.rate = config.outRate := hrate
      have hzero : 0 < config.rate.toNat := by
        by_contra h0
        have hrate0 : config.rate.toNat = 0 := by omega
        have hpos := hs.pos
        unfold ClientConfig.chunkSize at hpos
        rw [hrate0] at hpos
        simp at hpos
      rw [← hsame, Nat.mul_div_cancel _ hzero]
    · rfl
  have hout := hs.output
  have hsamples : config.chunkSamples * config.outRate.toNat / config.rate.toNat ≤ maxOutput :=
    (Nat.le_mul_of_pos_right _ (elementBytes_pos config.outFormat)).trans hout
  simp only [maxOutput, maxWritePayload, sizeofHeader, sizeofOutputPayload] at hsamples
  refine ⟨?_, fun hl b hb => ?_, ?_, List.cons_ne_nil _ _, ?_, ?_⟩
  · have hle : (wirePayload (chunksOf config file file2 k)).length ≤ _ :=
      length_wirePayload_chunksOf k
    have hm := hs.message
    simp only [bufSize, sizeofHeader, sizeofAssembleBuf] at hm ⊢
    omega
  · rw [hbuf b hb]
    exact hs.blocks hl
  · intro b hb
    obtain rfl := Option.some.inj hb
    intro hnil
    have hzero := congrArg List.length hnil
    rw [length_decodeSamples hs.mono.inCodec, hlen file List.mem_cons_self] at hzero
    have hsame : config.chunkSize / elementBytes config.startConfig.inPayloadType =
        config.chunkSamples := rfl
    rw [hsame, List.length_nil] at hzero
    omega
  · rw [hs.length_mixed hk hfits, hcount]
    have hsize : (configuredSession (H := H) config.startConfig).resampledSize
        config.chunkSamples =
          (config.chunkSamples * config.outRate.toNat / config.rate.toNat + 128) *
            config.outChannels.toNat * 2 := rfl
    have hone : config.outChannels = 1 := hs.mono.outChannels
    rw [hsize, hone]
    simp only [machSessionArenaSize, UInt8.toNat_one, Nat.mul_one]
    split_ifs <;> omega
  · rw [hs.length_mixed hk hfits, hcount]
    exact hs.output

omit hs in
theorem chunksOf_data (k : ℕ) : (chunksOf config file file2 k).map WireBuffer.data =
    (file :: file2.toList).map fun f => chunkOf config.chunkSize f k := by
  unfold chunksOf
  cases file2 <;> rfl

/-- The chunks mixed one after another are the files mixed as a whole. -/
theorem Streamable.mixed_files {m : ℕ}
    (hm : ∀ f ∈ file :: file2.toList, m ≤ f.length / config.chunkSize) :
    ((List.range m).flatMap fun k => mixedSamples config.startConfig
        ((chunksOf config file file2 k).map WireBuffer.data)) =
      mixedSamples config.startConfig
        ((file :: file2.toList).map fun f => f.take (m * config.chunkSize)) := by
  induction m with
  | zero =>
      have hnil : ((file :: file2.toList).map fun f : List UInt8 => f.take (0 * config.chunkSize)) =
          (file :: file2.toList).map fun _ => [] ++ [] := by
        simp
      have hsame := mixedSamples_append hs.mono.inCodec (f := fun _ : List UInt8 => [])
        (g := fun _ => []) (file :: file2.toList) (n := 0) (Nat.zero_mod _) fun _ _ => rfl
      rw [hnil, hsame]
      rw [List.nil_append] at hsame
      rw [List.self_eq_append_right.mp hsame]
      rfl
  | succ m ih =>
      rw [List.range_succ, List.flatMap_append, List.flatMap_singleton,
        ih fun f hf => Nat.le_of_succ_le (hm f hf), chunksOf_data,
        ← mixedSamples_append hs.mono.inCodec _ (n := m * config.chunkSize)]
      · congr 1
        apply List.map_congr_left
        intro f hf
        have hlt : m < f.length / config.chunkSize := hm f hf
        rw [chunkOf, Nat.mod_eq_of_lt hlt, ← List.take_add, Nat.add_mul, Nat.one_mul]
      · rw [Nat.mul_mod]
        have hmod : config.chunkSize % elementBytes config.startConfig.inPayloadType = 0 :=
          config.chunkSize_mod
        rw [hmod, Nat.mul_zero, Nat.zero_mod]
      · intro f hf
        have hle := hm f hf
        have hb := (div_mul_bounds (n := f.length) hs.pos).1
        have hmul := Nat.mul_le_mul_right config.chunkSize (Nat.le_of_succ_le hle)
        rw [List.length_take]
        omega

end client

/-! ### The whole way -/

/-- What the data of some buffers is transcoded to. -/
def transcoded (config : AudioStartPayload) (datas : List (List UInt8)) : List UInt8 :=
  encodeSamples config.outPayloadType config.outEndian
    (convertedStream E config (mixedSamples config datas))

/-- What the messages of a run are transcoded to. -/
def transcodedChunks (config : ClientConfig) (file : List UInt8) (file2 : Option (List UInt8))
    (n : ℕ) : List UInt8 :=
  encodeSamples config.outFormat config.outEndian (convertedStream E config.startConfig
    ((List.range (sentCount config file file2 n)).flatMap fun k =>
      mixedSamples config.startConfig ((chunksOf config file file2 k).map WireBuffer.data)))

/-- The outputs of a run are its chunks transcoded. -/
theorem Streamable.outputs_data {config : ClientConfig} {file : List UInt8}
    {file2 : Option (List UInt8)} (hs : Streamable config (1 + file2.toList.length))
    (hrates : config.rate = config.outRate ∨
      Upsamples E config.startConfig config.chunkSamples)
    (hfits : config.loop = true →
      config.chunkSize ≤ file.length ∧ ∀ f ∈ file2, config.chunkSize ≤ f.length)
    (numWorkers : UInt32) (addr n : ℕ)
    (hlength : config.rate ≠ config.outRate →
      sentCount config file file2 n * config.chunkSamples ≤ 2 ^ 32) :
    (outputs ((sessionMachine E numWorkers).outputs (AudioState.fresh addr)
      ((hs.messages file n).map FramedMessage.message))).flatMap Output.data =
        transcodedChunks E config file file2 n := by
  obtain ⟨hpos, hn⟩ := hs.chunkSamples_bounds
  obtain ⟨r, hinit, hstream⟩ := flatten_convertedChunks (H := H)
    (show config.startConfig.inSampleRate = config.startConfig.outSampleRate ∨ _ from hrates)
    hpos hn
  have hq : ∀ q ∈ (List.range (sentCount config file file2 n)).map
      (fun k => (UInt32.ofNat (k + 1), chunksOf config file file2 k)),
        MonoRequest (H := H) E config.startConfig q.2 := by
    intro q hq
    obtain ⟨k, hk, rfl⟩ := List.mem_map.mp hq
    exact hs.monoRequest E hrates (List.mem_range.mp hk) hfits
  have hout := started_outputs hs.mono numWorkers addr 0 hinit hq
  rw [List.map_map, List.map_map] at hout
  have hmessages : (hs.messages file n).map FramedMessage.message =
      request cmdStart 0 (startPayload config.startConfig) ::
        (List.range (sentCount config file file2 n)).map
          ((fun q => inputRequest q.1 q.2) ∘
            fun k => (UInt32.ofNat (k + 1), chunksOf config file file2 k)) := by
    unfold Streamable.messages
    rw [List.map_cons, List.map_map]
    rfl
  have hchunks : ∀ xs ∈ (List.range (sentCount config file file2 n)).map (fun k =>
      mixedSamples config.startConfig ((chunksOf config file file2 k).map WireBuffer.data)),
        xs.length = config.chunkSamples := by
    intro xs hxs
    obtain ⟨k, hk, rfl⟩ := List.mem_map.mp hxs
    exact hs.length_mixed (List.mem_range.mp hk) hfits
  have htotal := hstream _ hchunks fun hrate => by
    rw [List.length_flatten, List.map_congr_left hchunks, List.map_const', List.sum_replicate,
      List.length_map, List.length_range]
    exact hlength hrate
  rw [hmessages, List.flatMap_def, hout, encodeSamples_flatten]
  exact congrArg _ (htotal.trans (congrArg _ List.flatMap_def.symm))

/-- **The output file is the transcoding of the input files.**  Over a connection on which
nothing is lost, the output file of a client is at every time the transcoding of the first of
its chunks, and that of all of them once everything has arrived, been sent and been read.  A
client that does not loop has then the transcoding of its files, up to their last whole chunk. -/
theorem file_transcoded (hmalloc : ∀ n, E.malloc n = true) {realloc : ℕ → Bool}
    (hrealloc : ∀ n, realloc n = true) {config : ClientConfig} {file : List UInt8}
    {file2 : Option (List UInt8)} {app : ClientApp}
    (happ : loadInputFile config file file2 = some app)
    (hs : Streamable config (1 + file2.toList.length))
    (hfits : config.loop = true →
      config.chunkSize ≤ file.length ∧ ∀ f ∈ file2, config.chunkSize ≤ f.length)
    (hrates : config.rate = config.outRate ∨
      Upsamples E config.startConfig config.chunkSamples)
    (n : ℕ) (hlength : config.rate ≠ config.outRate →
      sentCount config file file2 n * config.chunkSamples ≤ 2 ^ 32)
    {numWorkers : UInt32} {i : ℕ} {es : List WorldEvent} {w : World H}
    (h : Runs (worldStep E numWorkers) (OfConn i Healthy) World.start es w) {c : Conn H}
    (hc : w.conns[i]? = some c) (harrived : c.arrived <+: (written app n).flatten)
    {reads : List (List UInt8)} (hreads : reads.flatten <+: c.received) :
    c.session.closing = false ∧
      ∃ out, (onReads realloc (ReadState.fresh true) reads).stats.outputFile = some out ∧
        out <+: transcodedChunks E config file file2 n ∧
        (c.arrived = (written app n).flatten → c.sends = [] → reads.flatten = c.received →
          out = transcodedChunks E config file file2 n) ∧
        (config.loop = false → transcodedChunks E config file file2 n =
          transcoded E config.startConfig ((file :: file2.toList).map fun f =>
            f.take (sentCount config file file2 n * config.chunkSize))) := by
  have hmessage := hs.message
  have hlt : config.chunkSize < 2 ^ 31 := by
    simp only [padded, bufSize] at hmessage
    rw [Nat.add_mul, Nat.one_mul] at hmessage
    omega
  obtain ⟨hwritten, -⟩ := written_sending (mapped_loadInputFile happ) hs.pos hlt hfits n
  rw [hwritten, ← hs.stream_messages] at harrived ⊢
  obtain ⟨clientFd, addr, -, hrun⟩ := conn_runs h hc
  obtain ⟨hopen, os, hrec, hpre, hall⟩ :=
    (flows_run E (hs.fits n) hrun).recorded E hmalloc hrealloc true harrived hreads
  have hdata : ∀ os : List Output,
      (os.map Output.untimed).flatMap Output.data = os.flatMap Output.data :=
    fun os => List.flatMap_map _ _ _
  have hmachine := hs.outputs_data E hrates hfits numWorkers addr n hlength
  refine ⟨hopen, os.flatMap Output.data, ?_, ?_, fun harr hsends hread => ?_, fun hloop => ?_⟩
  · rw [hrec.outputFile, if_pos rfl]
  · rw [← hmachine, ← hdata]
    obtain ⟨rest, hrest⟩ := hpre
    rw [← hrest, List.flatMap_append]
    exact List.prefix_append _ _
  · rw [← hmachine, ← hdata, hall harr hsends hread]
  · have hle : sentCount config file file2 n ≤ wholeChunks config.chunkSize file file2 := by
      unfold sentCount
      rw [hloop, if_neg Bool.false_ne_true]
      exact Nat.min_le_right _ _
    unfold transcodedChunks transcoded
    rw [hs.mixed_files fun f hf => hle.trans (wholeChunks_le f hf)]
    rfl

/-- PCMU from a file, PCMA to the output file, and chunks of sixteen bytes. -/
def pcmaConfig : ClientConfig :=
  { loopingConfig with
    outRate := 8000
    outFormat := codecPcma
    ptime := 2
    loop := false }

/-- The client's two messages come in two receives that cut both. -/
def pcmaRun : List WorldEvent :=
  let bytes := (sentMessages pcmaConfig (List.replicate 20 0x55) none 2).flatten
  [.accept 5 (some 0), .accept 6 (some 4096),
    .conn 0 (.recv 20 true (some (0, bytes.take 20))), .conn 0 .handle,
    .conn 1 (.recv 0 false none), .conn 1 .handle,
    .conn 0 (.recv 60 true (some (1, bytes.drop 20))), .conn 0 .handle,
    .conn 0 (.complete 0 48), .conn 0 .handle]

/-- One chunk of a file of twenty bytes. -/
theorem file_transcoded_pcma : ∃ app w c,
    loadInputFile pcmaConfig (List.replicate 20 0x55) none = some app ∧
      Runs (worldStep Env.plain 1) (OfConn 0 Healthy) World.start pcmaRun w ∧
      w.conns[0]? = some c ∧
      (onReads (fun _ => true) (ReadState.fresh true)
        [c.received.take 20, c.received.drop 20]).stats.outputFile =
          some (List.replicate 16 0x73) := by
  have hs : Streamable pcmaConfig (1 + (none : Option (List UInt8)).toList.length) :=
    ⟨⟨rfl, rfl, .inl rfl, .inr (.inl rfl)⟩, by decide, fun _ => by decide, by decide,
      by decide⟩
  have hnoloop : pcmaConfig.loop = true → pcmaConfig.chunkSize ≤ (List.replicate 20 0x55).length ∧
      ∀ f ∈ (none : Option (List UInt8)), pcmaConfig.chunkSize ≤ f.length :=
    fun hloop => absurd (show false = true from hloop) Bool.false_ne_true
  have happ : ∃ app, loadInputFile pcmaConfig (List.replicate 20 0x55) none = some app :=
    ⟨_, if_neg (by simp)⟩
  obtain ⟨app, happ⟩ := happ
  have hwritten := (written_sending (mapped_loadInputFile happ) hs.pos (by decide) hnoloop 2).1
  have hfacts : ((run (fun w e => if OfConn 0 Healthy w e then worldStep Env.plain 1 w e else none)
      World.start pcmaRun).bind fun w => w.conns[0]?).map (fun c => (c.arrived, c.sends.length)) =
        some ((sentMessages pcmaConfig (List.replicate 20 0x55) none 2).flatten, 0) := by
    decide +kernel
  obtain ⟨c, hwc, hcfacts⟩ := Option.map_eq_some_iff.mp hfacts
  obtain ⟨w, hw, hc⟩ := Option.bind_eq_some_iff.mp hwc
  obtain ⟨harrived, hlen⟩ := Prod.ext_iff.mp hcfacts
  dsimp only at harrived hlen
  rw [← hwritten] at harrived
  have hread : [c.received.take 20, c.received.drop 20].flatten = c.received := by
    rw [List.flatten_cons, List.flatten_singleton, List.take_append_drop]
  obtain ⟨-, out, hout, -, hall, hfile⟩ := file_transcoded Env.plain (fun _ => rfl)
    (show ∀ n, (fun _ => true : ℕ → Bool) n = true from fun _ => rfl) happ hs hnoloop (.inl rfl) 2
    (fun hrate => absurd rfl hrate) (runs_of_run hw) hc
    ⟨[], by rw [harrived, List.append_nil]⟩ ⟨[], by rw [hread, List.append_nil]⟩
  have hpcma : transcoded Env.plain pcmaConfig.startConfig (([List.replicate 20 0x55]).map fun f =>
      f.take (sentCount pcmaConfig (List.replicate 20 0x55) none 2 * pcmaConfig.chunkSize)) =
        List.replicate 16 0x73 := by
    decide +kernel
  refine ⟨app, w, c, happ, runs_of_run hw, hc, ?_⟩
  rw [hout, hall harrived (List.eq_nil_of_length_eq_zero hlen) hread, hfile rfl]
  exact congrArg some hpcma

end MachAudio
