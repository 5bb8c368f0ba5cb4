import MachAudio.Contents
import MachAudio.Wire

/-! # Requests that are not resampled

What `audio_process_transcode` answers on a well-formed payload when the two rates are equal: the
output is the encoding of the decoded and mixed samples.

The room in the arena follows from one invariant of the loop over the buffers: up to the offset
`n` of the payload at most `128 + 2 * n` bytes are taken, since a buffer needs a header of eight
bytes there and at most two bytes here for each of its own, after at most seven for alignment. -/

namespace MachAudio

open ByteMem Exec

variable {H Φ : Type} {E : Env H Φ}

/-! ### Well-formed payloads -/

/-- Buffers with these data lie one behind the other at the front of `bytes`.  The padding up to
the next multiple of four may have any content, and behind the last buffer it may be missing. -/
def HasBuffers : List UInt8 → List (List UInt8) → Prop
  | _, [] => True
  | bytes, data :: datas => ∃ volume rest,
      bytes = htonl (UInt32.ofNat data.length) ++ (htonl volume ++ (data ++ rest)) ∧
        HasBuffers (rest.drop (padded data.length - data.length)) datas

/-- A payload of `CMD_INPUT` with the layout of the protocol. -/
def WellFormed (payload : List UInt8) (datas : List (List UInt8)) : Prop :=
  ∃ reserved bytes, payload = htonl (UInt32.ofNat datas.length) ++ (htonl reserved ++ bytes) ∧
    HasBuffers bytes datas

theorem HasBuffers.length_le {bytes : List UInt8} {datas : List (List UInt8)}
    (h : HasBuffers bytes datas) : datas.length ≤ bytes.length := by
  induction datas generalizing bytes with
  | nil => exact Nat.zero_le _
  | cons data datas ih =>
      obtain ⟨volume, rest, rfl, hrest⟩ := h
      have hle := ih hrest
      rw [List.length_drop] at hle
      simp only [List.length_append, List.length_cons, length_htonl]
      omega

theorem WellFormed.numBuffers {payload : List UInt8} {datas : List (List UInt8)}
    (h : WellFormed payload datas) (hlen : payload.length < 2 ^ 31) :
    (ntohl payload 0).toNat = datas.length := by
  obtain ⟨reserved, bytes, rfl, hb⟩ := h
  have hle := hb.length_le
  simp only [List.length_append, length_htonl] at hlen
  rw [ntohl_htonl, toNat_ofNat_of_lt (by omega)]

/-- What a client lays out is well-formed. -/
theorem hasBuffers_encode (buffers : List WireBuffer) :
    HasBuffers (buffers.flatMap WireBuffer.encode) (buffers.map WireBuffer.data) := by
  induction buffers with
  | nil => trivial
  | cons b buffers ih =>
      refine ⟨b.volume, List.replicate (padded b.data.length - b.data.length) 0 ++
        buffers.flatMap WireBuffer.encode, ?_, ?_⟩
      · rw [List.flatMap_cons, WireBuffer.encode]
        simp only [List.append_assoc]
      · rwa [List.drop_left' List.length_replicate]

theorem wellFormed_wirePayload (buffers : List WireBuffer) :
    WellFormed (wirePayload buffers) (buffers.map WireBuffer.data) := by
  refine ⟨0, buffers.flatMap WireBuffer.encode, ?_, hasBuffers_encode buffers⟩
  rw [wirePayload, List.length_map, List.append_assoc]

/-! ### Sessions -/

/-- A session that `transcode_session_init` has set up from `config` with success, at any later
time: processing changes the resampler and what the voice detector keeps. -/
def TranscodeSession.StartedFrom (E : Env H Φ) (config : AudioStartPayload)
    (s : TranscodeSession H) : Prop :=
  ∃ session r v p, transcodeSessionInit E config = (0, session) ∧
    s = { session with resampler := r, vadState := v, lastVadProb := p }

theorem TranscodeSession.StartedFrom.eq {config : AudioStartPayload} {s : TranscodeSession H}
    (h : s.StartedFrom E config) :
    ∃ r v p, s =
      { configuredSession (H := H) config with resampler := r, vadState := v, lastVadProb := p } := by
  obtain ⟨session, r, v, p, hinit, rfl⟩ := h
  obtain ⟨r', hr'⟩ := transcodeSessionInit_session E config
  rw [hinit] at hr'
  dsimp only at hr'
  subst hr'
  exact ⟨r, v, p, rfl⟩

theorem TranscodeSession.StartedFrom.swapFlags {config : AudioStartPayload}
    {s : TranscodeSession H} (h : s.StartedFrom E config) : SwapFlags s := by
  obtain ⟨r, v, p, rfl⟩ := h.eq
  exact ⟨rfl, rfl⟩

/-! ### One turn of the loop -/

variable {s : TranscodeSession H} {size c : ℕ} {payload : List UInt8}

/-- The samples of one buffer, as far as they make whole frames. -/
def TranscodeSession.decoded (s : TranscodeSession H) (data : List UInt8) : List Int16 :=
  (decodeSamples s.inPayloadType s.inEndian data).take (s.decodedElements data.length)

/-- The turn for a buffer found at its place. -/
theorem mixInputs_turn {pre data rest : List UInt8} {volume : UInt32} {dataOff : ℕ}
    (hp : payload = pre ++ (htonl (UInt32.ofNat data.length) ++ (htonl volume ++ (data ++ rest))))
    (hd : dataOff = pre.length + sizeofBufferHeader) (hlen : payload.length < 2 ^ 31) (n : ℕ)
    (acc : Option (Block × ℕ)) :
    (mixInputs payload (n + 1) (UInt32.ofNat pre.length) acc :
      Pipe H (Option (Option (Block × ℕ)))) = (do
        let some decoded ← decodeBuffer payload dataOff data.length | return none
        let acc' ← mixInto acc decoded
        mixInputs payload n (UInt32.ofNat (dataOff + padded data.length)) (some acc')) := by
  have hl : payload.length = pre.length + 8 + data.length + rest.length := by
    rw [hp]
    simp only [List.length_append, length_htonl]
    omega
  simp only [sizeofBufferHeader] at hd
  have hoff : (UInt32.ofNat dataOff).toNat = dataOff := toNat_ofNat_of_lt (by omega)
  rw [mixInputs, protocolParseNextBuffer_at volume hp hlen]
  dsimp only
  rewrite [sizeofBufferHeader, ← hd, hoff, toNat_ofNat_of_lt (by omega)]
  rfl

theorem blockSize_le (s : TranscodeSession H) (len : ℕ) : s.blockSize len ≤ 2 * len := by
  unfold TranscodeSession.blockSize
  split_ifs <;> omega

/-- What lies behind a buffer and its padding. -/
theorem HasBuffers.next {pre data rest : List UInt8} {volume : UInt32}
    {datas : List (List UInt8)}
    (hp : payload = pre ++ (htonl (UInt32.ofNat data.length) ++ (htonl volume ++ (data ++ rest))))
    (hb : HasBuffers (rest.drop (padded data.length - data.length)) datas) :
    ∃ pre', payload = pre' ++ rest.drop (padded data.length - data.length) ∧
      (datas ≠ [] → pre.length + sizeofBufferHeader + padded data.length = pre'.length) ∧
      pre.length + sizeofBufferHeader + data.length ≤ pre'.length := by
  refine ⟨pre ++ (htonl (UInt32.ofNat data.length) ++ (htonl volume ++
    (data ++ rest.take (padded data.length - data.length)))), ?_, ?_, ?_⟩
  · rw [hp]
    simp only [List.append_assoc, List.take_append_drop]
  · intro hne
    have hle := hb.length_le
    have hpos := List.length_pos_iff.mpr hne
    have hpad := le_padded data.length
    rw [List.length_drop] at hle
    simp only [List.length_append, length_htonl, List.length_take, sizeofBufferHeader]
    omega
  · simp only [List.length_append, length_htonl, sizeofBufferHeader]
    omega

/-- The session decodes what it knows, and the arena is the server's. -/
structure Decodable (s : TranscodeSession H) (size : ℕ) (payload : List UInt8) : Prop where
  swap : SwapFlags s
  codec : IsKnownCodec s.inPayloadType
  size : size = machSessionArenaSize
  length : payload.length ≤ 32752

/-- A buffer of the payload decoded while the cursor keeps to the bound. -/
theorem decodeBuffer_at (h : Decodable s size payload) {pre data rest : List UInt8}
    {volume : UInt32} {dataOff : ℕ}
    (hp : payload = pre ++ (htonl (UInt32.ofNat data.length) ++ (htonl volume ++ (data ++ rest))))
    (hd : dataOff = pre.length + sizeofBufferHeader)
    (h16 : s.inPayloadType ≠ codecL16 → data.length % 16 = 0) (hc : c ≤ 128 + 2 * pre.length) :
    ∃ a c', c ≤ a ∧ a + s.blockSize data.length = c' ∧ c' ≤ 128 + 2 * (dataOff + data.length) ∧
      ∀ m, Returns (Contents s size c (Eq m)) (decodeBuffer payload dataOff data.length)
        (some (⟨a, s.blockSize data.length⟩, s.decodedSamples data.length))
        (Contents s size c' (Appended m a (s.decoded data))) := by
  have hl : payload.length = pre.length + 8 + data.length + rest.length := by
    rw [hp]
    simp only [List.length_append, length_htonl]
    omega
  have hle := h.length
  have hsize := h.size
  have hblock := blockSize_le s data.length
  simp only [machSessionArenaSize] at hsize
  have hslice := slice_at hp
  rw [← hd] at hslice
  simp only [sizeofBufferHeader] at hd
  exact ⟨(c + 7) / 8 * 8, _, by omega, rfl, by omega,
    decodeBuffer_contents hslice rfl (by omega) (by omega) h.swap h.codec h16 (by omega)⟩

/-! ### The loop -/

theorem length_ofBytesBig (bs : List UInt8) : (ofBytesBig bs).length = bs.length / 2 := by
  rw [← map_swapSample_ofBytes, List.length_map, length_ofBytes]

/-- With one channel every sample is a frame. -/
theorem decoded_mono (h1 : s.inChannels = 1) (hk : IsKnownCodec s.inPayloadType)
    (data : List UInt8) :
    s.decoded data = decodeSamples s.inPayloadType s.inEndian data ∧
      (s.decoded data).length = s.decodedSamples data.length := by
  have h1' : s.inChannels.toNat = 1 := by rw [h1]; rfl
  have hlen : (decodeSamples s.inPayloadType s.inEndian data).length =
      s.decodedSamples data.length := by
    unfold TranscodeSession.decodedSamples
    rw [h1', Nat.mul_one]
    rcases hk with hk | hk | hk
    · rw [hk, decodeSamples_pcmu, if_neg pcmu_ne_l16, List.length_map]
    · rw [hk, decodeSamples_pcma, if_neg pcma_ne_l16, List.length_map]
    · rw [hk, decodeSamples_l16, if_pos rfl]
      split_ifs
      · exact length_ofBytesBig data
      · exact length_ofBytes data
  have hall : s.decodedElements data.length = s.decodedSamples data.length := by
    unfold TranscodeSession.decodedElements TranscodeSession.decodedSamples
    rw [h1', Nat.mul_one]
  unfold TranscodeSession.decoded
  rw [hall, ← hlen, List.take_length]
  exact ⟨rfl, rfl⟩

/-- The turns behind the first buffer, with one channel: every further buffer is mixed into it. -/
theorem mixInputs_mono (h : Decodable s size payload) (h1 : s.inChannels = 1) {b₀ : Block}
    {datas : List (List UInt8)} (h16 : s.inPayloadType ≠ codecL16 → ∀ d ∈ datas, d.length % 16 = 0)
    {pre bytes : List UInt8} (hp : payload = pre ++ bytes) (hb : HasBuffers bytes datas)
    {offset : ℕ} (hoff : datas ≠ [] → offset = pre.length) (hc : c ≤ 128 + 2 * pre.length)
    {xs : List Int16} (hb₀ : b₀.start + 2 * xs.length ≤ c) :
    ∃ c', c' ≤ 128 + 2 * payload.length ∧
      Returns (Contents s size c fun m => m.samples b₀.start xs.length = xs)
        (mixInputs payload datas.length (UInt32.ofNat offset) (some (b₀, xs.length)))
        (some (some (b₀, xs.length)))
        (Contents s size c' fun m =>
          m.samples b₀.start xs.length = (datas.map s.decoded).foldl mixSamples xs) := by
  induction datas generalizing pre bytes offset c xs with
  | nil =>
      refine ⟨c, ?_, Returns.pure fun w hw => hw⟩
      rw [hp, List.length_append]
      omega
  | cons data datas ih =>
      obtain ⟨volume, rest, rfl, hrest⟩ := hb
      obtain rfl := hoff (List.cons_ne_nil _ _)
      have hlen := h.length
      obtain ⟨a, c₁, ha, hc₁, hbound, hdec⟩ := decodeBuffer_at h hp rfl
        (fun hg => h16 hg data List.mem_cons_self) hc
      obtain ⟨-, hcount⟩ := decoded_mono h1 h.codec data
      obtain ⟨pre', hp', hoff', hle⟩ := HasBuffers.next hp hrest
      have hb₀' : b₀.start + 2 * (mixSamples xs (s.decoded data)).length ≤ c₁ := by
        rw [length_mixSamples]
        omega
      obtain ⟨c', hc', hloop⟩ := ih (fun hg d hd => h16 hg d (List.mem_cons_of_mem _ hd)) hp' hrest
        hoff' (by omega) hb₀'
      rw [length_mixSamples] at hloop
      refine ⟨c', hc', ?_⟩
      rw [List.length_cons, mixInputs_turn hp rfl (by omega), List.map_cons, List.foldl_cons]
      refine returns_of_mem fun m hm => Returns.bind (hdec m) ?_
      refine Returns.bind (returns_of_mem fun m' hm' => ?_) hloop
      have hx : m'.samples b₀.start xs.length = xs := by
        rw [samples_eq_of_eqOn hm'.1 fun x hx => Nat.lt_of_lt_of_le hx.2 (by omega), hm]
      rw [← hcount]
      exact mixInto_contents h1 hx hm'.2 (by simp only; omega)

/-! ### Mono -/

/-- The samples of all buffers: the others are mixed into the first. -/
def mixedDown (s : TranscodeSession H) (data : List UInt8) (datas : List (List UInt8)) :
    List Int16 :=
  (datas.map fun d => decodeSamples s.inPayloadType s.inEndian d).foldl mixSamples
    (decodeSamples s.inPayloadType s.inEndian data)

theorem length_mixedDown (data : List UInt8) (datas : List (List UInt8)) :
    (mixedDown s data datas).length = (decodeSamples s.inPayloadType s.inEndian data).length :=
  length_foldl_mixSamples _ _

theorem mixInputs_all (h : Decodable s size payload) (h1 : s.inChannels = 1) {data : List UInt8}
    {datas : List (List UInt8)} (hp : WellFormed payload (data :: datas))
    (h16 : s.inPayloadType ≠ codecL16 → ∀ d ∈ data :: datas, d.length % 16 = 0) (hc : c ≤ 128) :
    ∃ b c', c' ≤ 128 + 2 * payload.length ∧
      Returns (Contents s size c fun _ => True)
        (mixInputs payload (data :: datas).length (UInt32.ofNat sizeofInputPayload) none)
        (some (some (b, (mixedDown s data datas).length)))
        (Contents s size c' fun m =>
          m.samples b.start (mixedDown s data datas).length = mixedDown s data datas) := by
  have hlen := h.length
  obtain ⟨reserved, bytes, hpay, volume, rest, rfl, hrest⟩ := hp
  rw [← List.append_assoc] at hpay
  obtain ⟨hdata, hcount⟩ := decoded_mono h1 h.codec data
  have hall : datas.map s.decoded = datas.map fun d => decodeSamples s.inPayloadType s.inEndian d :=
    List.map_congr_left fun d _ => (decoded_mono h1 h.codec d).1
  have hblock := two_mul_decodedSamples_le s data.length
  obtain ⟨a, c₁, ha, hc₁, hbound, hdec⟩ := decodeBuffer_at h hpay rfl
    (fun hg => h16 hg data List.mem_cons_self)
    (show c ≤ 128 + 2 * _ from hc.trans (Nat.le_add_right _ _))
  obtain ⟨pre', hp', hoff', hle⟩ := HasBuffers.next hpay hrest
  obtain ⟨c', hc', hloop⟩ := mixInputs_mono h h1
    (fun hg d hd => h16 hg d (List.mem_cons_of_mem _ hd)) hp' hrest hoff' (hbound.trans (by omega))
    (show (⟨a, s.blockSize data.length⟩ : Block).start + 2 * (s.decoded data).length ≤ c₁ by
      simp only; omega)
  refine ⟨⟨a, s.blockSize data.length⟩, c', hc', ?_⟩
  rw [length_mixedDown, ← hdata, mixedDown, ← hall, ← hdata, List.length_cons]
  have hturn := mixInputs_turn (H := H) hpay rfl (by omega) datas.length none
  rw [List.length_append, length_htonl, length_htonl] at hturn
  refine hturn ▸ returns_of_mem fun m _ => Returns.bind (hdec m) ?_
  rw [← hcount]
  exact Returns.bind (mixInto_none_contents _)
    (hloop.pre fun w hw => hw.imp fun m' hm' => hm'.2)

/-- What the request writes and returns, for one channel and equal rates. -/
theorem audioProcessTranscode_mono (h : Decodable s size payload)
    (hko : IsKnownCodec s.outPayloadType) (hin : s.inChannels = 1) (hout : s.outChannels = 1)
    (hres : s.needsResample = false) {data : List UInt8} {datas : List (List UInt8)}
    (hp : WellFormed payload (data :: datas))
    (h16 : s.inPayloadType ≠ codecL16 → ∀ d ∈ data :: datas, d.length % 16 = 0)
    (hfirst : decodeSamples s.inPayloadType s.inEndian data ≠ []) (hc : c ≤ 128) :
    Returns (Contents s size c fun _ => True) (audioProcessTranscode E payload) 0
      (Contents s size
        (c + (encodeSamples s.outPayloadType s.outEndian (mixedDown s data datas)).length)
        fun m => m.load c
            (encodeSamples s.outPayloadType s.outEndian (mixedDown s data datas)).length =
          encodeSamples s.outPayloadType s.outEndian (mixedDown s data datas)) := by
  have hlen := h.length
  have hsize := h.size
  simp only [machSessionArenaSize] at hsize
  have hn := hp.numBuffers (by omega)
  have hle : data.length ≤ payload.length := by
    obtain ⟨reserved, bytes, rfl, volume, rest, rfl, -⟩ := hp
    simp only [List.length_append]
    omega
  have hblock := two_mul_decodedSamples_le s data.length
  have hblock' := blockSize_le s data.length
  obtain ⟨hdata, hcount⟩ := decoded_mono hin h.codec data
  have hlen' : (mixedDown s data datas).length = s.decodedSamples data.length := by
    rw [length_mixedDown, ← hdata, hcount]
  have hpos : (mixedDown s data datas).length ≠ 0 := by
    rw [length_mixedDown]
    exact fun h0 => hfirst (List.eq_nil_of_length_eq_zero h0)
  have hne : ntohl payload 0 ≠ 0 := by
    intro h0
    rw [h0] at hn
    cases hn
  have helem : s.encodedElements (mixedDown s data datas).length =
      (mixedDown s data datas).length := by
    unfold TranscodeSession.encodedElements
    rw [hout]
    split_ifs
    · exact Nat.mul_one _
    · rfl
  obtain ⟨b, c', hc', hloop⟩ := mixInputs_all h hin hp h16 hc
  unfold audioProcessTranscode
  apply Returns.bind getCurr_contents
  dsimp only
  rw [if_neg hne, hn]
  apply Returns.bind hloop
  dsimp only
  rw [if_neg hpos]
  exact processMixed_contents h.swap hko hres helem (by omega) (by omega) (by omega)

/-- **The mono pipeline without resampling.**  On a well-formed payload the call returns 0, and
the bytes it leaves from the start of the request on are the encoding of the first buffer with
all others mixed into it. -/
theorem mono_pipeline (E : Env H Φ) (config : AudioStartPayload) (s : TranscodeSession H)
    (hs : s.StartedFrom E config) (hin : config.inChannels = 1) (hout : config.outChannels = 1)
    (hrate : config.inSampleRate = config.outSampleRate)
    (hki : IsKnownCodec config.inPayloadType) (hko : IsKnownCodec config.outPayloadType)
    (arena : Arena) (hsize : arena.size = machSessionArenaSize) (hcurr : arena.curr ≤ 104)
    (payload data : List UInt8) (datas : List (List UInt8))
    (hp : WellFormed payload (data :: datas)) (hlen : payload.length ≤ 32752)
    (h16 : config.inPayloadType ≠ codecL16 → ∀ d ∈ data :: datas, d.length % 16 = 0)
    (hfirst : decodeSamples config.inPayloadType config.inEndian data ≠ []) (trace : List Event) :
    let decode := decodeSamples config.inPayloadType config.inEndian
    let out := encodeSamples config.outPayloadType config.outEndian
      ((datas.map decode).foldl mixSamples (decode data))
    let r := audioProcessTranscode E payload ⟨s, arena, trace⟩
    r.1 = 0 ∧ r.2.arena.curr = arena.curr + out.length ∧
      r.2.arena.buf.load arena.curr out.length = out := by
  have hsw := hs.swapFlags
  obtain ⟨r, v, p, rfl⟩ := hs.eq
  have hres : (configuredSession (H := H) config).needsResample = false := by
    simp [configuredSession, hrate]
  have hd : Decodable { configuredSession (H := H) config with
      resampler := r, vadState := v, lastVadProb := p } arena.size payload :=
    ⟨hsw, hki, hsize, hlen⟩
  obtain ⟨h0, hw⟩ := audioProcessTranscode_mono (E := E) hd hko hin hout hres hp h16 hfirst
    (hcurr.trans (by omega)) ⟨_, arena, trace⟩ ⟨.refl _, rfl, rfl, trivial⟩
  exact ⟨h0, hw.curr, hw.mem⟩

/-- Big-endian L16 to little-endian L16 at 8 kHz, with the voice detector on. -/
def swapConfig : AudioStartPayload where
  inPayloadType := codecL16
  inChannels := 1
  flags := audioStartFlagsVadEnabled
  inSampleRate := 8000
  inEndian := endianBig
  outPayloadType := codecL16
  outChannels := 1
  outEndian := endianLittle
  outSampleRate := 8000

/-- Three samples, and one and a half mixed into them. -/
theorem mono_pipeline_two :
    let r := audioProcessTranscode Env.plain
      (wirePayload [⟨oneFloat, [0x7F, 0xFF, 0x00, 0x02, 0x00, 0x03]⟩, ⟨oneFloat, [0, 1, 9]⟩])
      ⟨configuredSession swapConfig, ⟨0, fun _ => 7, machSessionArenaSize, 104⟩, []⟩
    r.1 = 0 ∧ r.2.arena.curr = 110 ∧
      r.2.arena.buf.load 104 6 = [0xFF, 0x7F, 0x02, 0x00, 0x03, 0x00] := by
  have hout : encodeSamples swapConfig.outPayloadType swapConfig.outEndian
      (([[0, 1, 9]].map (decodeSamples swapConfig.inPayloadType swapConfig.inEndian)).foldl
        mixSamples (decodeSamples swapConfig.inPayloadType swapConfig.inEndian
          [0x7F, 0xFF, 0x00, 0x02, 0x00, 0x03])) =
      [0xFF, 0x7F, 0x02, 0x00, 0x03, 0x00] := by decide
  have hwell := wellFormed_wirePayload [⟨oneFloat, [0x7F, 0xFF, 0x00, 0x02, 0x00, 0x03]⟩,
    ⟨oneFloat, [0, 1, 9]⟩]
  have h := mono_pipeline Env.plain swapConfig (configuredSession swapConfig)
    ⟨_, _, _, _, rfl, rfl⟩ rfl rfl rfl (by decide) (by decide)
    ⟨0, fun _ => 7, machSessionArenaSize, 104⟩ rfl (by decide) _
    [0x7F, 0xFF, 0x00, 0x02, 0x00, 0x03] [[0, 1, 9]] hwell (by decide) (by decide) (by decide) []
  dsimp only at h
  rw [hout] at h
  exact h

end MachAudio
