import Mathlib.Tactic.Linarith
import MachAudio.Client
import MachAudio.Reachable

/-! # When the pipeline stays inside its blocks

The pipeline sizes its blocks from byte lengths and its loops from sample counts times
channel counts that nobody has checked.  For L16 the two agree; for G.711 the sample count is
the byte count whatever the channels, so more than one channel makes the mixer, the voice
detector and the L16 encoder run past the block.  `ChannelsFit` lists what is needed at each
of these places, and `AudioState.Ok.contained` shows that it is enough. -/

namespace MachAudio

open ByteMem

variable {H Φ : Type} (E : Env H Φ)

/-- The request gets through the decoding: the buffers, the first of them `len` bytes long,
fit the arena, the cursor behind them is `curr₁`, and there is a sample. -/
def Decodes (s : TranscodeSession H) (size curr : ℕ) (payload : List UInt8) (len curr₁ : ℕ) :
    Prop :=
  ∃ lens, bufferLengths payload = len :: lens ∧ IsKnownCodec s.inPayloadType ∧
    bumps size curr ((len :: lens).map s.blockSize) = some curr₁ ∧ 0 < s.decodedSamples len

/-- The channel counts fit the lengths. -/
structure ChannelsFit (s : TranscodeSession H) (size curr : ℕ) (payload : List UInt8) : Prop where
  /-- A G.711 buffer with samples is mixed into another only with at most one channel. -/
  mix : ∀ len₀ pre len post, bufferLengths payload = len₀ :: (pre ++ len :: post) →
    IsKnownCodec s.inPayloadType →
    bumps size curr ((len₀ :: (pre ++ [len])).map s.blockSize) ≠ none →
    s.inPayloadType ≠ codecL16 → s.inChannels.toNat ≤ 1 ∨ len₀ = 0 ∨ len = 0
  /-- The voice detector has a whole frame of G.711 only with at most one input channel. -/
  inputVad : ∀ len curr₁, Decodes s size curr payload len curr₁ → s.inPayloadType ≠ codecL16 →
    s.vadRuns s.inSampleRate → s.inChannels.toNat ≤ 1 ∨ len < vadFrameSize
  /-- Nothing is resampled into an output without channels. -/
  resample : ∀ len curr₁, Decodes s size curr payload len curr₁ → s.needsResample →
    bump size curr₁ (s.resampledSize (s.decodedSamples len)) ≠ none →
    s.outChannels.toNat = 0 → s.resampledCount E (s.decodedSamples len) = 0
  /-- With no input channel the voice detector looks at the input as an output. -/
  outputVad : ∀ len curr₁, Decodes s size curr payload len curr₁ → s.needsResample = false →
    s.inChannels.toNat = 0 → s.vadRuns s.outSampleRate →
    s.outChannels.toNat ≤ 1 ∨ len < vadFrameSize
  /-- L16 output that is not resampled has no more bytes than the decoded block. -/
  output : ∀ len curr₁, Decodes s size curr payload len curr₁ → s.needsResample = false →
    s.outPayloadType = codecL16 →
    2 * (s.decodedSamples len * s.outChannels.toNat) ≤ s.blockSize len

/-- The voice detector reads whole frames only. -/
theorem vadExtent_le (n channels : ℕ) : vadExtent n channels ≤ n * channels :=
  Nat.mul_le_mul_right _ (Nat.div_mul_le_self n vadFrameSize)

theorem vadExtent_of_lt {n : ℕ} (h : n < vadFrameSize) (channels : ℕ) :
    vadExtent n channels = 0 := by
  rw [vadExtent, Nat.div_eq_of_lt h, Nat.zero_mul, Nat.zero_mul]

section
variable {s : TranscodeSession H}

/-- For L16 the samples of all channels fit the block. -/
theorem decodedSamples_mul_le (h : s.inPayloadType = codecL16) (len : ℕ) :
    2 * (s.decodedSamples len * s.inChannels.toNat) ≤ s.blockSize len := by
  rw [TranscodeSession.decodedSamples, TranscodeSession.blockSize, if_pos h, if_pos h]
  calc 2 * (len / (2 * s.inChannels.toNat) * s.inChannels.toNat)
      = len / (2 * s.inChannels.toNat) * (2 * s.inChannels.toNat) := by ring
    _ ≤ len := Nat.div_mul_le_self _ _

/-- For G.711 one sample is one byte. -/
theorem decodedSamples_of_ne (h : s.inPayloadType ≠ codecL16) (len : ℕ) :
    s.decodedSamples len = len ∧ s.blockSize len = len * 2 := by
  rw [TranscodeSession.decodedSamples, TranscodeSession.blockSize, if_neg h, if_neg h]
  exact ⟨rfl, rfl⟩

theorem mixedBytes_le (len₀ len : ℕ)
    (h : s.inPayloadType ≠ codecL16 → s.inChannels.toNat ≤ 1 ∨ len₀ = 0 ∨ len = 0) :
    s.mixedBytes len₀ len ≤ s.blockSize len₀ ∧ s.mixedBytes len₀ len ≤ s.blockSize len := by
  rw [TranscodeSession.mixedBytes]
  by_cases hc : s.inPayloadType = codecL16
  · have h₁ := decodedSamples_mul_le hc len₀
    have h₂ := decodedSamples_mul_le hc len
    have h₃ := Nat.mul_le_mul_right s.inChannels.toNat
      (Nat.min_le_left (s.decodedSamples len) (s.decodedSamples len₀))
    have h₄ := Nat.mul_le_mul_right s.inChannels.toNat
      (Nat.min_le_right (s.decodedSamples len) (s.decodedSamples len₀))
    exact ⟨by omega, by omega⟩
  · rw [(decodedSamples_of_ne hc len₀).1, (decodedSamples_of_ne hc len₀).2,
      (decodedSamples_of_ne hc len).1, (decodedSamples_of_ne hc len).2]
    rcases h hc with h | h | h
    · have h₃ := Nat.mul_le_mul_left (min len len₀) h
      exact ⟨by omega, by omega⟩
    · simp [h]
    · simp [h]

/-- A whole frame fits: at most one channel, or no frame at all. -/
theorem vadExtent_mono {n channels : ℕ} (h : channels ≤ 1 ∨ n < vadFrameSize) :
    vadExtent n channels ≤ n := by
  rcases h with h | h
  · exact (vadExtent_le n channels).trans (by
      have := Nat.mul_le_mul_left n h
      omega)
  · rw [vadExtent_of_lt h]
    exact Nat.zero_le _

/-- `m` samples of every output channel fit the resampled block. -/
theorem resampled_fits {n : ℕ} (h : s.outChannels.toNat = 0 → s.resampledCount E n = 0) :
    2 * s.resampledCount E n ≤ s.resampledSize n ∧
      2 * (s.resampledCount E n * s.outChannels.toNat) ≤ s.resampledSize n := by
  have hle : s.resampledCount E n ≤ s.outCap n := resampledCount_le
  have hmul := Nat.mul_le_mul_right s.outChannels.toNat hle
  rw [TranscodeSession.resampledSize]
  refine ⟨?_, by omega⟩
  rcases Nat.eq_zero_or_pos s.outChannels.toNat with h0 | hpos
  · rw [h h0]
    omega
  · have := Nat.mul_le_mul_left (s.outCap n) (show 1 ≤ s.outChannels.toNat by omega)
    omega

/-- What the pipeline asks for is inside the blocks. -/
theorem ChannelsFit.permits {size curr : ℕ} {payload : List UInt8}
    (h : ChannelsFit E s size curr payload)
    (hneeds : s.needsResample = (s.inSampleRate != s.outSampleRate)) :
    Permits E s size curr payload (fun b n => n ≤ b.size) (fun _ => True) where
  decode := fun _ _ => trivial
  mix := fun len₀ pre len post c hl hk hpre hb =>
    mixedBytes_le len₀ len (h.mix len₀ pre len post hl hk (by
      rw [← List.cons_append, List.map_append, List.map_singleton, bumps_concat _ hpre]
      exact hb))
  rest := by
    intro len lens hl hk hb n hn hpos
    obtain ⟨curr₁, hb⟩ := Option.ne_none_iff_exists'.mp hb
    have hd : Decodes s size curr payload len curr₁ := ⟨lens, hl, hk, hb, hn ▸ hpos⟩
    refine ⟨fun hv => ?_, fun _ => trivial⟩
    show _ ≤ s.blockSize len
    by_cases hc : s.inPayloadType = codecL16
    · have h₁ := decodedSamples_mul_le hc len
      have h₂ := vadExtent_le n s.inChannels.toNat
      rw [← hn] at h₁
      omega
    · obtain ⟨h₁, h₂⟩ := decodedSamples_of_ne hc len
      have h₃ := vadExtent_mono (h.inputVad len curr₁ hd hc hv)
      rw [hn, h₁, h₂]
      omega
  final := by
    intro len lens curr₁ hl hk hb n hn hpos hfit b hbl
    have hd : Decodes s size curr payload len curr₁ := ⟨lens, hl, hk, hb, hn ▸ hpos⟩
    rw [hbl, TranscodeSession.finalBlock]
    cases hres : s.needsResample with
    | true =>
        rw [if_pos rfl]
        have hf := resampled_fits E fun h0 =>
          hn ▸ h.resample len curr₁ hd hres (hn ▸ hfit hres) h0
        have hv := vadExtent_le (s.resampledCount E n) s.outChannels.toNat
        exact ⟨hf.1, fun _ _ => by dsimp only; omega, fun _ => hf.2⟩
    | false =>
        rw [if_neg (by simp)]
        have h₁ := two_mul_decodedSamples_le s len
        refine ⟨by dsimp only; omega, fun hno hv => ?_, fun ho => ?_⟩
        · -- the rates agree, so only a missing channel keeps the detector off the input
          have hrate : s.inSampleRate = s.outSampleRate := by
            rw [hres] at hneeds
            simpa using hneeds.symm
          have hch : s.inChannels.toNat = 0 := by
            rw [hrate] at hno
            by_contra hch
            exact hno ⟨hv, by omega⟩
          have hc : s.inPayloadType ≠ codecL16 := by
            intro hc
            rw [hn, TranscodeSession.decodedSamples, if_pos hc, hch] at hpos
            simp at hpos
          obtain ⟨h₂, h₃⟩ := decodedSamples_of_ne hc len
          have h₄ := vadExtent_mono (h.outputVad len curr₁ hd hres hch hv)
          dsimp only
          rw [hn, h₂, h₃]
          omega
        · rw [hn]
          exact h.output len curr₁ hd hres ho

end

/-- Every access of the request lies in the block it is made in, which lies in the arena
behind the start of the request; and if the call returns 0, so does the cursor. -/
def Contained (a : AudioState H) (payload : List UInt8) : Prop :=
  (∀ e ∈ (a.transcode E payload).2.trace, e.Inside a.arena.curr a.arena.size) ∧
    ((a.transcode E payload).1 = 0 →
      a.arena.curr ≤ (a.transcode E payload).2.arena.curr ∧
        (a.transcode E payload).2.arena.curr ≤ a.arena.size)

theorem grants_inside (lo hi : ℕ) :
    Grants lo hi (fun b n => n ≤ b.size) (fun _ => True) (Event.Inside lo hi) where
  within := fun _ _ _ h => h
  mono := fun _ _ _ _ h h' => le_trans h' h
  access := fun _ _ _ _ h₁ h₂ h₃ h₄ => Event.inside_access h₁ h₂ (.inr (by omega))
  input := fun _ _ _ h => Event.inside_input (.inr h)
  divide := fun _ _ => trivial

/-! ### The arena as a whole

An access that leaves its block need not leave the arena: it touches bytes of another block, or
bytes that nobody has taken.  The samples are wrong then, but the request comes to its end. -/

/-- Every access the request asks for stays in the arena. -/
def ArenaFits (s : TranscodeSession H) (size curr : ℕ) (payload : List UInt8) : Prop :=
  Permits E s size curr payload (fun b n => b.start + n ≤ size) fun _ => True

/-- Every access of the request stays in the arena, and if the call returns 0, so does the
cursor. -/
def StaysInArena (a : AudioState H) (payload : List UInt8) : Prop :=
  (∀ e ∈ (a.transcode E payload).2.trace, e.InArena a.arena.size) ∧
    ((a.transcode E payload).1 = 0 →
      a.arena.curr ≤ (a.transcode E payload).2.arena.curr ∧
        (a.transcode E payload).2.arena.curr ≤ a.arena.size)

theorem grants_inArena (lo hi : ℕ) :
    Grants lo hi (fun b n => b.start + n ≤ hi) (fun _ => True) (Event.InArena hi) where
  within := fun _ _ h h' => by omega
  mono := fun _ _ _ h _ h' => by omega
  access := fun _ _ _ _ _ _ _ _ _ _ _ => by omega
  input := fun _ _ _ _ _ _ _ => by omega
  divide := fun _ _ => trivial

section
variable {s : TranscodeSession H} {size curr : ℕ} {payload : List UInt8} {R : Block → ℕ → Prop}
  {D : ℕ → Prop}

/-- The block the encoder reads lies in the arena. -/
theorem finalBlock_inside {len curr₁ n : ℕ} {lens : List ℕ}
    (hb : bumps size curr ((len :: lens).map s.blockSize) = some curr₁)
    (hfit : s.needsResample → bump size curr₁ (s.resampledSize n) ≠ none) :
    curr ≤ s.finalStart curr curr₁ ∧
      s.finalStart curr curr₁ + (s.finalBlock E (s.blockSize len) n).1 ≤ size := by
  obtain ⟨h₁, h₂, h₃⟩ := bumps_cons hb
  unfold TranscodeSession.finalStart TranscodeSession.finalBlock
  cases hres : s.needsResample with
  | true =>
      obtain ⟨curr₂, hb₂⟩ := Option.ne_none_iff_exists'.mp (hfit hres)
      have h₄ := bump_eq_some hb₂
      rw [if_pos rfl, if_pos rfl]
      exact ⟨by omega, by dsimp only; omega⟩
  | false =>
      rw [if_neg (by decide), if_neg (by decide)]
      exact ⟨h₁, by dsimp only; omega⟩

/-- All blocks a request asks for lie in the arena. -/
theorem Permits.imp {R' : Block → ℕ → Prop} (hp : Permits E s size curr payload R D)
    (hR : ∀ b n, b.start + b.size ≤ size → R b n → R' b n) :
    Permits E s size curr payload R' D where
  decode := hp.decode
  mix := fun len₀ pre len post c hl hk hpre hb => by
    obtain ⟨h₀, h⟩ := hp.mix len₀ pre len post c hl hk hpre hb
    obtain ⟨c', hc'⟩ := Option.ne_none_iff_exists'.mp hb
    have hfirst := bumps_cons hpre
    have hmixed := bump_eq_some hc'
    exact ⟨hR _ _ (by simp only; omega) h₀, hR _ _ (by simp only; omega) h⟩
  rest := fun len lens hl hk hb n hn hpos => by
    obtain ⟨hvad, hD⟩ := hp.rest len lens hl hk hb n hn hpos
    obtain ⟨curr₁, hb⟩ := Option.ne_none_iff_exists'.mp hb
    have hfirst := bumps_cons hb
    exact ⟨fun hv => hR _ _ (by simp only; omega) (hvad hv), hD⟩
  final := fun len lens curr₁ hl hk hb n hn hpos hfit f hf => by
    obtain ⟨h₁, h₂, h₃⟩ := hp.final len lens curr₁ hl hk hb n hn hpos hfit f hf
    have hin := (finalBlock_inside E hb hfit).2
    rw [← hf] at hin
    exact ⟨hR _ _ hin h₁, fun hno hv => hR _ _ hin (h₂ hno hv), fun ho => hR _ _ hin (h₃ ho)⟩

/-- A request that stays in its blocks stays in the arena. -/
theorem ChannelsFit.arenaFits (h : ChannelsFit E s size curr payload)
    (hneeds : s.needsResample = (s.inSampleRate != s.outSampleRate)) :
    ArenaFits E s size curr payload :=
  (h.permits E hneeds).imp E fun _ _ hin hn => by omega

/-! ### The final cursor -/

theorem encodeShape_bounds {initialCurr curr m c' : ℕ} (hi : initialCurr ≤ curr)
    (hc : curr ≤ size)
    (hout : s.outPayloadType = codecL16 → initialCurr + 2 * (m * s.outChannels.toNat) ≤ size)
    (h : s.encodeShape size initialCurr curr m = some c') : initialCurr ≤ c' ∧ c' ≤ size := by
  rw [TranscodeSession.encodeShape] at h
  split_ifs at h with h₁ h₂
  · obtain ⟨c, hb, rfl⟩ := Option.map_eq_some_iff.mp h
    obtain ⟨hs, he, hle⟩ := bump_eq_some hb
    omega
  · have := hout h₂
    obtain rfl := Option.some.inj h
    omega
  · obtain rfl := Option.some.inj h
    exact ⟨hi, hc⟩

/-- The cursor ends between the start of the request and the end of the arena. -/
theorem transcodeShape_bounds {c' : ℕ} (hp : ArenaFits E s size curr payload)
    (hcurr : curr ≤ size) (h : transcodeShape E s size curr payload = some c') :
    curr ≤ c' ∧ c' ≤ size := by
  rw [transcodeShape] at h
  by_cases h0 : ntohl payload 0 = 0
  · rw [if_pos h0] at h
    obtain rfl := Option.some.inj h
    exact ⟨le_refl _, hcurr⟩
  · rw [if_neg h0] at h
    cases hl : bufferLengths payload with
    | nil =>
        rw [hl] at h
        cases h
    | cons len lens =>
        rw [hl] at h
        dsimp only at h
        by_cases hk : IsKnownCodec s.inPayloadType
        swap
        · rw [if_pos hk] at h
          cases h
        rw [if_neg (not_not.mpr hk)] at h
        obtain ⟨curr₁, hb, h⟩ := Option.bind_eq_some_iff.mp h
        split_ifs at h with hn
        have hle := bumps_le hb hcurr
        have hfinal := hp.final len lens curr₁ hl hk hb _ rfl (by omega)
        rw [TranscodeSession.processShape] at h
        split_ifs at h with hres
        · obtain ⟨curr₂, hb₂, h⟩ := Option.bind_eq_some_iff.mp h
          have hfit : s.needsResample →
              bump size curr₁ (s.resampledSize (s.decodedSamples len)) ≠ none := fun _ => by
            rw [hb₂]
            exact Option.some_ne_none _
          obtain ⟨h₁, h₂, h₃⟩ := bump_eq_some hb₂
          obtain ⟨-, -, hout⟩ := hfinal hfit _ rfl
          have hstart := (finalBlock_inside E hb hfit).1
          rw [TranscodeSession.finalBlock, if_pos hres] at hout
          exact encodeShape_bounds (by omega) h₃
            (fun ho => by have := hout ho; simp only at this; omega) h
        · have hfit : s.needsResample →
              bump size curr₁ (s.resampledSize (s.decodedSamples len)) ≠ none :=
            fun hr => absurd hr hres
          obtain ⟨-, -, hout⟩ := hfinal hfit _ rfl
          have hstart := (finalBlock_inside E hb hfit).1
          rw [TranscodeSession.finalBlock, if_neg hres] at hout
          exact encodeShape_bounds hle.1 hle.2
            (fun ho => by have := hout ho; simp only at this; omega) h

end

/-! ### Requests -/

/-- One request: what is granted holds of all it does, and the cursor stays in the arena. -/
theorem AudioState.Ok.trace_of_permits {a : AudioState H} (h : a.Ok) {payload : List UInt8}
    (hpay : payload.length ≤ sizeofAssembleBuf - sizeofHeader) {R : Block → ℕ → Prop}
    {P : Event → Prop} (hG : Grants a.arena.curr a.arena.size R (fun _ => True) P)
    (hp : Permits E a.session a.arena.size a.arena.curr payload R fun _ => True)
    (hfit : ArenaFits E a.session a.arena.size a.arena.curr payload) :
    (∀ e ∈ (a.transcode E payload).2.trace, P e) ∧
      ((a.transcode E payload).1 = 0 →
        a.arena.curr ≤ (a.transcode E payload).2.arena.curr ∧
          (a.transcode E payload).2.arena.curr ≤ a.arena.size) := by
  have hsize := h.size
  have hcurr := h.curr
  simp only [machSessionArenaSize] at hsize
  simp only [sizeofAssembleBuf, sizeofHeader] at hpay
  obtain ⟨hr, he⟩ := audioProcessTranscode_returns E hG (by omega) (by omega) (by omega) (by omega)
    hp _ (a.at_start _)
  refine ⟨he.trace, fun h0 => ?_⟩
  rw [AudioState.transcode] at h0 ⊢
  rw [hr, returnCode_eq_zero, Option.isSome_iff_exists] at h0
  obtain ⟨c', hc'⟩ := h0
  rw [hc', Ends, Option.getD_some] at he
  rw [he.curr]
  exact transcodeShape_bounds E hfit (by omega) hc'

/-- One request whose channel counts fit the lengths. -/
theorem AudioState.Ok.contained {a : AudioState H} (h : a.Ok) {payload : List UInt8}
    (hpay : payload.length ≤ sizeofAssembleBuf - sizeofHeader)
    (hfit : ChannelsFit E a.session a.arena.size a.arena.curr payload) : Contained E a payload :=
  h.trace_of_permits E hpay (grants_inside _ _) (hfit.permits E h.needsResample)
    (hfit.arenaFits E h.needsResample)

/-- One request whose accesses fit the arena. -/
theorem AudioState.Ok.staysInArena {a : AudioState H} (h : a.Ok) {payload : List UInt8}
    (hpay : payload.length ≤ sizeofAssembleBuf - sizeofHeader)
    (hfit : ArenaFits E a.session a.arena.size a.arena.curr payload) : StaysInArena E a payload :=
  h.trace_of_permits E hpay (grants_inArena _ _) hfit hfit

/-- **In every history whose requests have channel counts that fit their lengths, every
request stays inside its blocks.** -/
theorem requests_contained (addr : ℕ) (ms : List Message) (hms : ShortPayloads ms)
    (hfit : InputsMeet E (fun a payload =>
      ChannelsFit E a.session a.arena.size a.arena.curr payload) (AudioState.fresh addr) ms) :
    InputsMeet E (Contained E) (AudioState.fresh addr) ms :=
  hfit.imp E (AudioState.fresh_ok addr) hms fun _ _ ha hpay hc => ha.contained E hpay hc

/-! ### One channel, and two -/

/-- With one channel on both sides every length fits. -/
theorem channelsFit_mono {s : TranscodeSession H} (hin : s.inChannels = 1)
    (hout : s.outChannels = 1) (size curr : ℕ) (payload : List UInt8) :
    ChannelsFit E s size curr payload where
  mix := fun _ _ _ _ _ _ _ _ => .inl (by rw [hin]; decide)
  inputVad := fun _ _ _ _ _ => .inl (by rw [hin]; decide)
  resample := fun _ _ _ _ _ h => by
    rw [hout] at h
    cases h
  outputVad := fun _ _ _ _ h _ => by
    rw [hin] at h
    cases h
  output := fun len _ _ _ _ => by
    have h := two_mul_decodedSamples_le s len
    rw [hout]
    simpa using h

/-- PCMU at 8 kHz on both sides. -/
def pcmuConfig (channels : UInt8) : AudioStartPayload :=
  ⟨codecPcmu, channels, 0, 8000, 0, codecPcmu, channels, 0, 8000⟩

/-- A session of PCMU, then one request with two buffers of sixteen bytes. -/
def pcmuHistory (channels : UInt8) : List Message :=
  [request cmdStart 1 (startPayload (pcmuConfig channels)),
    request cmdInput 2 (inputPayload [List.replicate 16 0x55, List.replicate 16 0x2A])]

theorem pcmuHistory_short (channels : UInt8) : ShortPayloads (pcmuHistory channels) := by
  intro m hm
  rcases List.mem_cons.mp hm with rfl | hm
  · exact (length_startPayload _).le.trans (by decide)
  · rw [List.mem_singleton.mp hm]
    decide

/-- One channel. -/
theorem requests_contained_mono :
    InputsMeet Env.plain (fun a payload =>
        ChannelsFit Env.plain a.session a.arena.size a.arena.curr payload) (AudioState.fresh 0)
        (pcmuHistory 1) ∧
      InputsMeet Env.plain (Contained Env.plain) (AudioState.fresh 0) (pcmuHistory 1) := by
  have hfit : InputsMeet Env.plain (fun a payload =>
      ChannelsFit Env.plain a.session a.arena.size a.arena.curr payload) (AudioState.fresh 0)
      (pcmuHistory 1) := by
    refine (inputsMeet_cons _).mpr ⟨fun h => absurd h (by decide), (inputsMeet_cons _).mpr
      ⟨fun _ => channelsFit_mono _ rfl rfl _ _ _, inputsMeet_nil _ _ _⟩⟩
  exact ⟨hfit, requests_contained Env.plain 0 _ (pcmuHistory_short 1) hfit⟩

/-- With two channels the mixer reads and writes 64 bytes of blocks of 32. -/
theorem requests_not_contained :
    ShortPayloads (pcmuHistory 2) ∧
      ¬InputsMeet Env.plain (Contained Env.plain) (AudioState.fresh 0) (pcmuHistory 2) := by
  refine ⟨pcmuHistory_short 2, fun h => ?_⟩
  have h := (inputsMeet_cons _).mp ((inputsMeet_cons _).mp h).2
  have hmem : Event.access ⟨0, 32⟩ 32 32 ∈ ((audioStep Env.plain (AudioState.fresh 0)
      (request cmdStart 1 (startPayload (pcmuConfig 2)))).transcode Env.plain
        (inputPayload [List.replicate 16 0x55, List.replicate 16 0x2A])).2.trace := by
    decide +kernel
  exact Event.not_inside_access (by decide) (by decide) ((h.1 (by decide)).1 _ hmem)

end MachAudio
