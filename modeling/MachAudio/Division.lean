import MachAudio.Containment

/-! # When the pipeline divides by zero

Two divisors come from the wire: the channel count of an L16 input, and the input rate when
the two rates differ.  `transcode_session_init` looks at no channel count, and a rate it
refuses stays in the session, since the server ignores the refusal. -/

namespace MachAudio

variable {H Φ : Type} (E : Env H Φ)

/-- The divisors a request gets to are not zero. -/
structure DivisorsFit (s : TranscodeSession H) (size curr : ℕ) (payload : List UInt8) : Prop where
  /-- The first buffer of an L16 request is divided by its channels. -/
  decode : bufferLengths payload ≠ [] → s.inPayloadType = codecL16 → s.inChannels.toNat ≠ 0
  /-- A request that is resampled is divided by the input rate. -/
  resample : ∀ len curr₁, Decodes s size curr payload len curr₁ → s.needsResample →
    s.inSampleRate.toNat ≠ 0

theorem DivisorsFit.permits {s : TranscodeSession H} {size curr : ℕ} {payload : List UInt8}
    (h : DivisorsFit s size curr payload) :
    Permits E s size curr payload (fun _ _ => True) (fun d => d ≠ 0) where
  decode := fun hl hc => by
    have := h.decode hl hc
    omega
  mix := fun _ _ _ _ _ _ _ _ _ => ⟨trivial, trivial⟩
  rest := by
    intro len lens hl hk hb n hn hpos
    obtain ⟨curr₁, hb⟩ := Option.ne_none_iff_exists'.mp hb
    exact ⟨fun _ => trivial, h.resample len curr₁ ⟨lens, hl, hk, hb, hn ▸ hpos⟩⟩
  final := fun _ _ _ _ _ _ _ _ _ _ _ _ => ⟨trivial, fun _ _ => trivial, fun _ => trivial⟩

theorem grants_divides (lo hi : ℕ) :
    Grants lo hi (fun _ _ => True) (fun d => d ≠ 0) Event.Divides :=
  ⟨fun _ _ _ _ => trivial, fun _ _ _ _ _ _ => trivial, fun _ _ _ _ _ _ _ _ => trivial,
    fun _ _ _ _ => trivial, fun _ h => h⟩

/-- Every division of the request is by a divisor that is not zero. -/
def NeverDividesByZero (a : AudioState H) (payload : List UInt8) : Prop :=
  ∀ e ∈ (a.transcode E payload).2.trace, e.Divides

theorem AudioState.Ok.neverDividesByZero {a : AudioState H} (h : a.Ok) {payload : List UInt8}
    (hpay : payload.length ≤ sizeofAssembleBuf - sizeofHeader)
    (hfit : DivisorsFit a.session a.arena.size a.arena.curr payload) :
    NeverDividesByZero E a payload := by
  have hsize := h.size
  have hcurr := h.curr
  simp only [machSessionArenaSize] at hsize
  simp only [sizeofAssembleBuf, sizeofHeader] at hpay
  exact (audioProcessTranscode_returns E (grants_divides a.arena.curr a.arena.size) (by omega)
    (by omega) (by omega) (by omega) (hfit.permits E) _ (a.at_start _)).2.trace

/-- **In every history whose requests find divisors that fit, no request divides by zero.** -/
theorem requests_never_divide_by_zero (addr : ℕ) (ms : List Message) (hms : ShortPayloads ms)
    (hfit : InputsMeet E (fun a payload =>
      DivisorsFit a.session a.arena.size a.arena.curr payload) (AudioState.fresh addr) ms) :
    InputsMeet E (NeverDividesByZero E) (AudioState.fresh addr) ms :=
  hfit.imp E (AudioState.fresh_ok addr) hms fun _ _ ha hpay hc => ha.neverDividesByZero E hpay hc

/-- L16 at 8 kHz, with one channel of output. -/
def l16Config (channels : UInt8) : AudioStartPayload :=
  ⟨codecL16, channels, 0, 8000, endianLittle, codecL16, 1, endianLittle, 8000⟩

/-- An L16 session, then one request with one buffer of two bytes. -/
def l16History (channels : UInt8) : List Message :=
  [request cmdStart 1 (startPayload (l16Config channels)),
    request cmdInput 2 (inputPayload [[0x12, 0x34]])]

theorem l16History_short (channels : UInt8) : ShortPayloads (l16History channels) := by
  intro m hm
  rcases List.mem_cons.mp hm with rfl | hm
  · exact (length_startPayload _).le.trans (by decide)
  · rw [List.mem_singleton.mp hm]
    decide

/-- One channel. -/
theorem requests_never_divide_by_zero_mono :
    InputsMeet Env.plain (fun a payload =>
        DivisorsFit a.session a.arena.size a.arena.curr payload) (AudioState.fresh 0)
        (l16History 1) ∧
      InputsMeet Env.plain (NeverDividesByZero Env.plain) (AudioState.fresh 0)
        (l16History 1) := by
  have hfit : InputsMeet Env.plain (fun a payload =>
      DivisorsFit a.session a.arena.size a.arena.curr payload) (AudioState.fresh 0)
      (l16History 1) := by
    refine (inputsMeet_cons _).mpr ⟨fun h => absurd h (by decide), (inputsMeet_cons _).mpr
      ⟨fun _ => ⟨fun _ _ => by decide, fun _ _ _ h => ?_⟩, inputsMeet_nil _ _ _⟩⟩
    cases h
  exact ⟨hfit, requests_never_divide_by_zero Env.plain 0 _ (l16History_short 1) hfit⟩

/-- Without a channel the first buffer is divided by zero. -/
theorem requests_divide_by_zero :
    ShortPayloads (l16History 0) ∧
      ¬InputsMeet Env.plain (NeverDividesByZero Env.plain) (AudioState.fresh 0)
        (l16History 0) := by
  refine ⟨l16History_short 0, fun h => ?_⟩
  have h := (inputsMeet_cons _).mp ((inputsMeet_cons _).mp h).2
  have hmem : Event.divide 0 ∈ ((audioStep Env.plain (AudioState.fresh 0)
      (request cmdStart 1 (startPayload (l16Config 0)))).transcode Env.plain
        (inputPayload [[0x12, 0x34]])).2.trace := by
    decide +kernel
  exact h.1 (by decide) _ hmem rfl

end MachAudio
