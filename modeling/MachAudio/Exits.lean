import MachAudio.Containment

/-! # Where a request can end

`audio_process_transcode` has one exit for a container that announces no buffer and three kinds
of failure: the buffers cannot be decoded, the block for the resampled samples does not fit, or
the block for the encoded ones does not.  `Decodes` and `resampledCursor` tell them apart from
the lengths of the buffers and the room in the arena (`Decodes.shape`).

`beforeEncoding` is the call up to the encoding step, so its result is what reaches the encoder
(`audioProcessTranscode_eq`).  With a known output codec the response is the encoding of these
samples and nothing else; an unknown one is found only behind the last step that can fail, and
the response is then what the steps before have left in the arena (`encoded_output_iff`). -/

namespace MachAudio

open ByteMem Exec

variable {H Φ : Type} (E : Env H Φ)

/-! ### The three failures -/

section shape
variable {s : TranscodeSession H} {size curr : ℕ} {payload : List UInt8}

/-- The cursor behind the resampled block, or where it was when nothing is resampled. -/
def TranscodeSession.resampledCursor (s : TranscodeSession H) (size curr n : ℕ) : Option ℕ :=
  if s.needsResample then bump size curr (s.resampledSize n) else some curr

/-- The samples that reach the encoder when `n` have been mixed. -/
def TranscodeSession.encodedCount (s : TranscodeSession H) (n : ℕ) : ℕ :=
  if s.needsResample then s.resampledCount E n else n

theorem finalBlock_snd (bytes n : ℕ) : (s.finalBlock E bytes n).2 = s.encodedCount E n := by
  unfold TranscodeSession.finalBlock TranscodeSession.encodedCount
  split_ifs <;> rfl

theorem processShape_eq (curr₁ n : ℕ) :
    s.processShape E size curr curr₁ n =
      (s.resampledCursor size curr₁ n).bind fun curr₂ =>
        s.encodeShape size curr curr₂ (s.encodedCount E n) := by
  unfold TranscodeSession.processShape TranscodeSession.resampledCursor
    TranscodeSession.encodedCount
  split_ifs <;> rfl

/-- Behind the decoding only the two allocations can fail. -/
theorem Decodes.shape {len curr₁ : ℕ} (h : Decodes s size curr payload len curr₁) :
    ntohl payload 0 ≠ 0 ∧
      transcodeShape E s size curr payload =
        s.processShape E size curr curr₁ (s.decodedSamples len) := by
  obtain ⟨lens, hl, hk, hb, hn⟩ := h
  have hnum : ntohl payload 0 ≠ 0 := by
    intro h0
    have hnil : bufferLengths payload = [] := by
      unfold bufferLengths
      rw [h0]
      rfl
    rw [hnil] at hl
    cases hl
  refine ⟨hnum, ?_⟩
  unfold transcodeShape
  rw [if_neg hnum, hl]
  dsimp only
  rw [if_neg (not_not.mpr hk), hb, Option.bind_some, if_neg (by omega)]

/-- Without it a request with a buffer fails. -/
theorem transcodeShape_undecoded (hnum : ntohl payload 0 ≠ 0)
    (h : ∀ len curr₁, ¬Decodes s size curr payload len curr₁) :
    transcodeShape E s size curr payload = none := by
  unfold transcodeShape
  rw [if_neg hnum]
  cases hl : bufferLengths payload with
  | nil => rfl
  | cons len lens =>
      dsimp only
      by_cases hk : IsKnownCodec s.inPayloadType
      · rw [if_neg (not_not.mpr hk), Option.bind_eq_none_iff]
        intro curr₁ hb
        rw [if_pos]
        by_contra h0
        exact h len curr₁ ⟨lens, hl, hk, hb, by omega⟩
      · rw [if_pos hk]

/-- The request gets as far as its encoding step. -/
def ReachesEncoding (s : TranscodeSession H) (size curr : ℕ) (payload : List UInt8) : Prop :=
  ∃ len curr₁, Decodes s size curr payload len curr₁ ∧
    s.resampledCursor size curr₁ (s.decodedSamples len) ≠ none

/-- A request with a buffer that succeeds has got there. -/
theorem transcodeShape_some {c : ℕ} (hnum : ntohl payload 0 ≠ 0)
    (h : transcodeShape E s size curr payload = some c) :
    ∃ len curr₁ curr₂, Decodes s size curr payload len curr₁ ∧
      s.resampledCursor size curr₁ (s.decodedSamples len) = some curr₂ ∧
      s.encodeShape size curr curr₂ (s.encodedCount E (s.decodedSamples len)) = some c := by
  by_cases hd : ∃ len curr₁, Decodes s size curr payload len curr₁
  · obtain ⟨len, curr₁, hd⟩ := hd
    rw [(hd.shape E).2, processShape_eq, Option.bind_eq_some_iff] at h
    obtain ⟨curr₂, h₂, h⟩ := h
    exact ⟨len, curr₁, curr₂, hd, h₂, h⟩
  · rw [transcodeShape_undecoded E hnum fun len curr₁ h => hd ⟨len, curr₁, h⟩] at h
    cases h

end shape

/-! ### Up to the encoding -/

/-- `audio_process_transcode` up to its encoding step: `resampled_buf` and
`resampled_samples`. -/
def beforeEncoding (payload : List UInt8) : Pipe H (Option (Block × ℕ)) := do
  match ← mixInputs payload (ntohl payload 0).toNat (UInt32.ofNat sizeofInputPayload) none with
  | none => return none
  | some none => return none
  | some (some (l16Buf, l16Samples)) =>
      if l16Samples = 0 then return none
      else do
        inputVad E l16Buf l16Samples
        let some (resampledBuf, resampledSamples) ← resampleStep E l16Buf l16Samples | return none
        outputVad E resampledBuf resampledSamples
        return some (resampledBuf, resampledSamples)

/-- The call is what comes before the encoding, and the encoding of its result. -/
theorem audioProcessTranscode_eq (payload : List UInt8) (w : Work H)
    (hnum : ntohl payload 0 ≠ 0) :
    audioProcessTranscode E payload w =
      match beforeEncoding E payload w with
      | (none, w₁) => (-1, w₁)
      | (some (b, m), w₁) => encodeStep w.arena.curr b m w₁ := by
  unfold audioProcessTranscode beforeEncoding
  simp only [bind_apply, getCurr_apply]
  rw [if_neg hnum]
  simp only [bind_apply]
  generalize mixInputs payload _ _ none w = x
  obtain ⟨o, w'⟩ := x
  rcases o with _ | _ | ⟨b, n⟩
  · rfl
  · rfl
  · dsimp only
    by_cases hn : n = 0
    · rw [if_pos hn, if_pos hn]
      rfl
    · rw [if_neg hn, if_neg hn, processMixed]
      simp only [bind_apply]
      generalize resampleStep E b n _ = y
      rcases y with ⟨_ | ⟨out, m⟩, w''⟩
      · rfl
      · rfl

/-- What the encoding step is given. -/
theorem beforeEncoding_returns {s : TranscodeSession H} {size curr len curr₁ curr₂ : ℕ}
    {payload : List UInt8} (hpos : 0 < size) (hsize : size ≤ 2 ^ 20) (hcurr : curr ≤ size)
    (hpay : payload.length < 2 ^ 31) (hd : Decodes s size curr payload len curr₁)
    (h₂ : s.resampledCursor size curr₁ (s.decodedSamples len) = some curr₂) :
    ∃ b, Returns (At s size curr fun _ => True) (beforeEncoding E payload)
      (some (b, s.encodedCount E (s.decodedSamples len))) (At s size curr₂ fun _ => True) := by
  obtain ⟨lens, hl, hk, hb, hn⟩ := hd
  have hG := grants_true curr size
  have hloop := mixInputs_cons (s := s) hG hpos (by omega) hpay (Nat.le_refl curr) hcurr
    (fun _ => trivial) (n := (ntohl payload 0).toNat) hl fun _ _ _ _ _ _ _ _ => ⟨trivial, trivial⟩
  rw [if_pos hk, if_pos hk, hb] at hloop
  have hle := bumps_le hb hcurr
  obtain ⟨h₁, he, h₃⟩ := bumps_cons hb
  have htwo := two_mul_decodedSamples_le s len
  unfold TranscodeSession.resampledCursor at h₂
  unfold TranscodeSession.encodedCount
  cases hres : s.needsResample with
  | false =>
      rw [hres, if_neg (by decide), Option.some.injEq] at h₂
      rw [if_neg (by decide), ← h₂]
      refine ⟨⟨(curr + 7) / 8 * 8, s.blockSize len⟩, Returns.bind hloop ?_⟩
      dsimp only [Option.map_some]
      rw [if_neg (by omega)]
      exact Returns.bind (inputVad_returns hn fun _ => trivial)
        (Returns.bind (resampleStep_id hres)
          (Returns.bind (outputVad_returns fun _ _ => trivial) (Returns.pure fun _ h => h)))
  | true =>
      rw [hres, if_pos rfl] at h₂
      rw [if_pos rfl]
      refine ⟨⟨(curr₁ + 7) / 8 * 8, s.resampledSize (s.decodedSamples len)⟩,
        Returns.bind hloop ?_⟩
      dsimp only [Option.map_some]
      rw [if_neg (by omega)]
      exact Returns.bind (inputVad_returns hn fun _ => trivial)
        (Returns.bind
          (resampleStep_some hG hpos (by omega) hle.2 hle.1 hres (by omega)
            ⟨by simp only; omega, by simp only; omega⟩ (by simp only; omega) trivial h₂ trivial)
          (Returns.bind (outputVad_returns fun _ _ => trivial) (Returns.pure fun _ h => h)))

/-! ### What a response carries -/

/-- The bytes of one output sample. -/
def TranscodeSession.sampleBytes (s : TranscodeSession H) : ℕ :=
  if s.outPayloadType = codecL16 then 2 else 1

/-- The output samples of a request: `l16_samples`, or what the resampler has returned. -/
def AudioState.outputSamples (a : AudioState H) (payload : List UInt8) : Option ℕ :=
  (beforeEncoding E payload ⟨a.session, a.arena, []⟩).1.map Prod.snd

/-- A request is answered with encoded samples of known codecs, and with nothing else. -/
structure EncodedOutput (a : AudioState H) (payload : List UInt8) : Prop where
  known : (a.transcode E payload).1 = 0 →
    IsKnownCodec a.session.inPayloadType ∧ IsKnownCodec a.session.outPayloadType
  length : (a.transcode E payload).1 = 0 → ∃ m, a.outputSamples E payload = some m ∧
    (a.transcode E payload).2.arena.curr = a.arena.curr + m * a.session.sampleBytes
  refused : ¬(IsKnownCodec a.session.inPayloadType ∧ IsKnownCodec a.session.outPayloadType) →
    (a.transcode E payload).1 = -1

/-- A known output codec leaves the cursor behind the encoded samples. -/
theorem encodeShape_known {s : TranscodeSession H} {size curr curr₂ m c : ℕ}
    (hk : IsKnownCodec s.outPayloadType) (hout₁ : s.outChannels = 1)
    (h : s.encodeShape size curr curr₂ m = some c) : c = curr + m * s.sampleBytes := by
  unfold TranscodeSession.encodeShape at h
  unfold TranscodeSession.sampleBytes
  by_cases hl : s.outPayloadType = codecL16
  · have hno : ¬(s.outPayloadType = codecPcmu ∨ s.outPayloadType = codecPcma) := by
      rw [hl, not_or]
      exact ⟨pcmu_ne_l16.symm, pcma_ne_l16.symm⟩
    have hch : s.outChannels.toNat = 1 := by rw [hout₁]; rfl
    rw [if_neg hno, if_pos hl, hch, Nat.mul_one, Option.some.injEq] at h
    rw [if_pos hl, h]
  · have hg : s.outPayloadType = codecPcmu ∨ s.outPayloadType = codecPcma := by
      rcases hk with hk | hk | hk
      · exact .inl hk
      · exact .inr hk
      · exact absurd hk hl
    rw [if_pos hg, Option.map_eq_some_iff] at h
    obtain ⟨-, -, h⟩ := h
    rw [if_neg hl, Nat.mul_one, h]

section
variable {a : AudioState H} (ha : a.Ok) {payload : List UInt8}
  (hlen : payload.length ≤ sizeofAssembleBuf - sizeofHeader) (hnum : ntohl payload 0 ≠ 0)

include ha hlen

/-- Getting to the encoding with an unknown output codec is enough to succeed. -/
theorem AudioState.Ok.unknown_output_succeeds (hout : ¬IsKnownCodec a.session.outPayloadType)
    (h : ReachesEncoding a.session a.arena.size a.arena.curr payload) :
    (a.transcode E payload).1 = 0 := by
  simp only [sizeofAssembleBuf, sizeofHeader] at hlen
  obtain ⟨len, curr₁, hd, hne⟩ := h
  obtain ⟨curr₂, h₂⟩ := Option.ne_none_iff_exists'.mp hne
  have hl : ¬(a.session.outPayloadType = codecPcmu ∨ a.session.outPayloadType = codecPcma) :=
    fun h => hout (by rcases h with h | h; exacts [.inl h, .inr (.inl h)])
  rw [(ha.transcode_shape E (by omega)).1, (hd.shape E).2, processShape_eq, h₂, Option.bind_some,
    TranscodeSession.encodeShape, if_neg hl, if_neg fun h => hout (.inr (.inr h))]
  rfl

include hnum

/-- What a success says, up to the output codec. -/
theorem AudioState.Ok.succeeds {c : ℕ}
    (h : transcodeShape E a.session a.arena.size a.arena.curr payload = some c) :
    IsKnownCodec a.session.inPayloadType ∧
      ReachesEncoding a.session a.arena.size a.arena.curr payload ∧
      ∃ m curr₂, a.outputSamples E payload = some m ∧
        a.session.encodeShape a.arena.size a.arena.curr curr₂ m = some c := by
  have hsize : a.arena.size = 262144 := ha.size
  have hcurr := ha.curr
  simp only [sizeofAssembleBuf, sizeofHeader] at hlen
  obtain ⟨len, curr₁, curr₂, hd, h₂, he⟩ := transcodeShape_some E hnum h
  obtain ⟨b, hb⟩ := beforeEncoding_returns E (by omega) (by omega) (by omega) (by omega) hd h₂
  have hr := (hb _ (a.at_start _)).1
  have hin : IsKnownCodec a.session.inPayloadType := by
    obtain ⟨-, -, hk, -⟩ := hd
    exact hk
  refine ⟨hin, ⟨len, curr₁, hd, by rw [h₂]; exact Option.some_ne_none _⟩, _, curr₂, ?_, he⟩
  unfold AudioState.outputSamples
  rw [hr]
  rfl

end

/-- **When the response is encoded output.**  In every state of every session of one output
channel, a request with a buffer is answered with the encoded samples of known codecs or not at
all, exactly when the output codec is known or the request fails before its encoding. -/
theorem encoded_output_iff (addr : ℕ) (ms : List Message) (hms : ShortPayloads ms)
    (payload : List UInt8) (hlen : payload.length ≤ sizeofAssembleBuf - sizeofHeader)
    {a : AudioState H} (ha : a = audioAfter E (AudioState.fresh addr) ms)
    (hout₁ : a.session.outChannels = 1) (hnum : ntohl payload 0 ≠ 0) :
    EncodedOutput E a payload ↔
      IsKnownCodec a.session.outPayloadType ∨
        ¬ReachesEncoding a.session a.arena.size a.arena.curr payload := by
  have hok := audioAfter_ok E (AudioState.fresh_ok addr) hms
  rw [← ha] at hok
  have hpay : payload.length < 2 ^ 31 := by
    simp only [sizeofAssembleBuf, sizeofHeader] at hlen
    omega
  obtain ⟨hcode, hends⟩ := hok.transcode_shape E hpay
  constructor
  · intro h
    by_contra hno
    obtain ⟨hout, hreach⟩ := not_or.mp hno
    exact hout (h.known (hok.unknown_output_succeeds E hlen hout (not_not.mp hreach))).2
  · intro hcond
    have hsome : (a.transcode E payload).1 = 0 →
        ∃ c, transcodeShape E a.session a.arena.size a.arena.curr payload = some c := by
      intro h0
      rw [hcode, returnCode_eq_zero] at h0
      exact Option.isSome_iff_exists.mp h0
    have hout : ∀ {c}, transcodeShape E a.session a.arena.size a.arena.curr payload = some c →
        IsKnownCodec a.session.outPayloadType :=
      fun h => hcond.resolve_right fun hno => hno (hok.succeeds E hlen hnum h).2.1
    constructor
    · intro h0
      obtain ⟨c, hc⟩ := hsome h0
      exact ⟨(hok.succeeds E hlen hnum hc).1, hout hc⟩
    · intro h0
      obtain ⟨c, hc⟩ := hsome h0
      obtain ⟨-, -, m, curr₂, hm, he⟩ := hok.succeeds E hlen hnum hc
      rw [hc] at hends
      exact ⟨m, hm, hends.curr.trans (encodeShape_known (hout hc) hout₁ he)⟩
    · intro hno
      rw [hcode]
      cases hc : transcodeShape E a.session a.arena.size a.arena.curr payload with
      | none => rfl
      | some c => exact absurd ⟨(hok.succeeds E hlen hnum hc).1, hout hc⟩ hno

/-- PCMU at 8 kHz in, and an output codec. -/
def outputHistory (outPayloadType : UInt8) : List Message :=
  [request cmdStart 1 (startPayload ⟨codecPcmu, 1, 0, 8000, 0, outPayloadType, 1, 0, 8000⟩)]

theorem outputHistory_short (outPayloadType : UInt8) :
    ShortPayloads (outputHistory outPayloadType) := by
  intro m hm
  rw [List.mem_singleton.mp hm]
  exact (length_startPayload _).le.trans (by decide)

theorem encoded_output_pcma :
    EncodedOutput Env.plain (audioAfter Env.plain (AudioState.fresh 0) (outputHistory codecPcma))
      (inputPayload [List.replicate 16 0x55]) :=
  (encoded_output_iff Env.plain 0 _ (outputHistory_short codecPcma) _ (by decide) rfl rfl
    (by decide)).mpr (.inl (.inr (.inl rfl)))

/-- The output codec 5 does not exist; the response has the 32 bytes of the decoded block. -/
theorem unknown_codec_exposed :
    ((audioAfter Env.plain (AudioState.fresh 0) (outputHistory 5)).transcode Env.plain
        (inputPayload [List.replicate 16 0x55])).1 = 0 ∧
      answerInput Env.plain 0 (audioAfter Env.plain (AudioState.fresh 0) (outputHistory 5))
        (inputPayload [List.replicate 16 0x55]) =
          .output 0 minusOneFloat (toBytes (List.replicate 16 (lookup pcmuToL16Lut32 0x55))) ∧
      ¬EncodedOutput Env.plain (audioAfter Env.plain (AudioState.fresh 0) (outputHistory 5))
        (inputPayload [List.replicate 16 0x55]) := by
  have hret : ((audioAfter Env.plain (AudioState.fresh 0) (outputHistory 5)).transcode Env.plain
      (inputPayload [List.replicate 16 0x55])).1 = 0 := by decide +kernel
  refine ⟨hret, by decide +kernel, fun h => ?_⟩
  exact absurd (h.known hret).2 (by decide)

end MachAudio
