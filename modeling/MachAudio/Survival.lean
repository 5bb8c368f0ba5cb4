import MachAudio.Division

/-! # Requests that the process survives

A division by zero kills the process, and an access outside of its block may be one behind the
arena, which can do anything.  The model notes both and goes on, so what it does behind such a
request says nothing about the code.  `Survivable` asks of a request that it stays inside its
blocks and divides by nothing that is zero, and `untilKilled` cuts a sequence of messages off
behind the one that kills the process.

The first result that needs this is reassembly.  The loop of `process_client_read` takes the
messages of the reference split however the stream was cut (`readAll_eq_split`), and a process
that survives them gets to all of them (`reassembly_independent_of_reads`). -/

namespace MachAudio

open ByteMem Framing

variable {H Φ : Type} (E : Env H Φ)

/-! ### Defined outcomes -/

/-- The outcome of the request is defined: it stays inside its blocks and divides by nothing
that is zero. -/
def Defined (a : AudioState H) (payload : List UInt8) : Prop :=
  Contained E a payload ∧ NeverDividesByZero E a payload

/-- The channel counts fit the lengths, and the divisors are not zero. -/
structure Survivable (a : AudioState H) (payload : List UInt8) : Prop where
  channels : ChannelsFit E a.session a.arena.size a.arena.curr payload
  divisors : DivisorsFit a.session a.arena.size a.arena.curr payload

theorem AudioState.Ok.defined {a : AudioState H} (h : a.Ok) {payload : List UInt8}
    (hpay : payload.length ≤ sizeofAssembleBuf - sizeofHeader) (hs : Survivable E a payload) :
    Defined E a payload :=
  ⟨h.contained E hpay hs.channels, h.neverDividesByZero E hpay hs.divisors⟩

theorem inputsMeet_defined {a : AudioState H} (ha : a.Ok) {ms : List Message}
    (hms : ShortPayloads ms) (h : InputsMeet E (Survivable E) a ms) :
    InputsMeet E (Defined E) a ms :=
  h.imp E ha hms fun _ _ ha hpay hs => ha.defined E hpay hs

/-! ### One channel -/

/-- A session that a `CMD_START` with one channel on both sides has set up. -/
structure StartedMono (s : TranscodeSession H) : Prop where
  inChannels : s.inChannels = 1
  outChannels : s.outChannels = 1
  inSampleRate : s.needsResample → s.inSampleRate.toNat ≠ 0

theorem StartedMono.of_sameConfig {s s' : TranscodeSession H} (h : StartedMono s)
    (hs : SameConfig s s') : StartedMono s' where
  inChannels := hs.inChannels.trans h.inChannels
  outChannels := hs.outChannels.trans h.outChannels
  inSampleRate := fun hn => by
    rw [hs.inSampleRate]
    rw [hs.needsResample] at hn
    exact h.inSampleRate hn

/-- `transcode_session_init` refuses to resample from a rate of zero. -/
theorem startedMono_of_accepted {config : AudioStartPayload}
    (hin₁ : config.inChannels = 1) (hout₁ : config.outChannels = 1)
    (hacc : (transcodeSessionInit E config).1 = 0) :
    StartedMono (transcodeSessionInit E config).2 := by
  obtain ⟨r, hr⟩ := transcodeSessionInit_session E config
  rw [hr]
  refine ⟨hin₁, hout₁, fun hn h0 => ?_⟩
  have hrate : config.inSampleRate = 0 := UInt32.toNat_inj.mp h0
  have hinit : resamplerInit E (configuredSession (H := H) config).inSampleRate
      (configuredSession (H := H) config).outSampleRate = none := by
    show resamplerInit E config.inSampleRate config.outSampleRate = none
    rw [hrate]
    rfl
  simp only [transcodeSessionInit, hinit] at hacc
  rw [if_pos hn] at hacc
  have hne : (-1 : ℤ) ≠ 0 := by decide
  exact hne hacc

theorem audioInput_sameConfig {a : AudioState H} (ha : a.Ok) {payload : List UInt8}
    (hpay : payload.length < 2 ^ 31) :
    SameConfig a.session (audioInput E a payload).session :=
  (ha.transcode_shape E hpay).2.config

/-- What a start sets up, up to the hidden state of the voice detector. -/
theorem audioStart_startedMono {a : AudioState H} {payload : List UInt8}
    (hin₁ : (decodeStartPayload payload).inChannels = 1)
    (hout₁ : (decodeStartPayload payload).outChannels = 1)
    (hacc : (transcodeSessionInit E (decodeStartPayload payload)).1 = 0) :
    StartedMono (audioStart E a payload).session := by
  have h := startedMono_of_accepted E hin₁ hout₁ hacc
  simp only [audioStart]
  split_ifs
  · exact ⟨h.inChannels, h.outChannels, h.inSampleRate⟩
  · exact h

/-- With one channel on both sides no input leaves its blocks or divides by zero. -/
theorem StartedMono.survivable {a : AudioState H} (h : StartedMono a.session)
    (payload : List UInt8) : Survivable E a payload := by
  refine ⟨channelsFit_mono E h.inChannels h.outChannels _ _ _, fun _ _ => ?_,
    fun _ _ _ hn => h.inSampleRate hn⟩
  rw [h.inChannels]
  decide

/-- Only a start or a stop changes the channels and the rates. -/
theorem StartedMono.step {a : AudioState H} (h : StartedMono a.session) (ha : a.Ok) {m : Message}
    (hs : ¬m.IsStart) (hst : ¬m.IsStop) (hpay : m.payload.length < 2 ^ 31) :
    StartedMono (audioStep E a m).session := by
  rw [audioStep, if_neg hs]
  by_cases hi : m.IsInput
  · rw [if_pos hi]
    exact h.of_sameConfig (audioInput_sameConfig E ha hpay)
  · rw [if_neg hi, if_neg hst]
    exact h

/-- After an accepted start with one channel on both sides every input is survived. -/
theorem StartedMono.inputs : ∀ {ms : List Message} {a : AudioState H}, StartedMono a.session →
    a.Ok → (∀ m ∈ ms, ¬m.IsStart ∧ ¬m.IsStop) → ShortPayloads ms →
    InputsMeet E (Survivable E) a ms
  | [], a, _, _, _, _ => inputsMeet_nil E _ a
  | m :: ms, a, h, ha, hms, hshort => by
      obtain ⟨hs, hst⟩ := hms m List.mem_cons_self
      have hpay := hshort m List.mem_cons_self
      have hpay31 : m.payload.length < 2 ^ 31 := by
        simp only [sizeofAssembleBuf, sizeofHeader] at hpay
        omega
      refine (inputsMeet_cons E).mpr ⟨fun _ => h.survivable E _, ?_⟩
      exact (h.step E ha hs hst hpay31).inputs (audioStep_ok E ha hpay31)
        (fun m' hm' => hms m' (List.mem_cons_of_mem _ hm'))
        fun m' hm' => hshort m' (List.mem_cons_of_mem _ hm')

/-- A session that begins with such a start. -/
theorem inputs_after_start {a : AudioState H} (ha : a.Ok) {start : Message} (hs : start.IsStart)
    (hin₁ : (decodeStartPayload start.payload).inChannels = 1)
    (hout₁ : (decodeStartPayload start.payload).outChannels = 1)
    (hacc : (transcodeSessionInit E (decodeStartPayload start.payload)).1 = 0) {ms : List Message}
    (hms : ∀ m ∈ ms, ¬m.IsStart ∧ ¬m.IsStop) (hshort : ShortPayloads (start :: ms)) :
    InputsMeet E (Survivable E) a (start :: ms) := by
  have hpay := hshort start List.mem_cons_self
  simp only [sizeofAssembleBuf, sizeofHeader] at hpay
  have hmono : StartedMono (audioStep E a start).session := by
    rw [audioStep, if_pos hs]
    exact audioStart_startedMono E hin₁ hout₁ hacc
  refine (inputsMeet_cons E).mpr ⟨fun hi => absurd (hs.1.symm.trans hi.1) (by decide), ?_⟩
  exact hmono.inputs E (audioStep_ok E ha (by omega)) hms
    fun m hm => hshort m (List.mem_cons_of_mem _ hm)

/-! ### The end of the process -/

instance (e : Event) : Decidable e.Divides := by
  cases e with
  | access b off len => exact .isTrue trivial
  | input size off len => exact .isTrue trivial
  | divide d => exact instDecidableNot

instance (a : AudioState H) (payload : List UInt8) : Decidable (NeverDividesByZero E a payload) :=
  inferInstanceAs (Decidable (∀ e ∈ (a.transcode E payload).2.trace, e.Divides))

/-- The process is killed while it handles the message. -/
def Kills (a : AudioState H) (m : Message) : Prop :=
  m.IsInput ∧ ¬NeverDividesByZero E a m.payload

instance (a : AudioState H) (m : Message) : Decidable (Kills E a m) :=
  inferInstanceAs (Decidable (_ ∧ _))

/-- The messages that the process gets to, of those that the loop would take: none behind the
one that kills it. -/
def untilKilled : AudioState H → List Message → List Message
  | _, [] => []
  | a, m :: ms => m :: if Kills E a m then [] else untilKilled (audioStep E a m) ms

/-- The process gets to all of them when none but the last kills it. -/
theorem untilKilled_eq_self_iff : ∀ {a : AudioState H} {ms : List Message},
    untilKilled E a ms = ms ↔
      ∀ pre m post, ms = pre ++ m :: post → post ≠ [] → ¬Kills E (audioAfter E a pre) m
  | a, [] => by simp [untilKilled]
  | a, m :: ms => by
      have ih : untilKilled E (audioStep E a m) ms = ms ↔ _ := untilKilled_eq_self_iff
      have htail : (m :: if Kills E a m then [] else untilKilled E (audioStep E a m) ms) =
          m :: ms ↔ (Kills E a m → ms = []) ∧ untilKilled E (audioStep E a m) ms = ms := by
        rw [List.cons.injEq, eq_self_iff_true, true_and]
        split_ifs with hk
        · refine ⟨fun h => ?_, fun h => (h.1 hk).symm⟩
          rw [← h]
          exact ⟨fun _ => rfl, rfl⟩
        · exact ⟨fun h => ⟨fun hk' => absurd hk' hk, h⟩, fun h => h.2⟩
      rw [untilKilled, htail, ih]
      constructor
      · rintro ⟨hfirst, hrest⟩ pre m' post e hne hk
        cases pre with
        | nil =>
            obtain ⟨rfl, rfl⟩ := List.cons.inj e
            exact hne (hfirst hk)
        | cons m₀ pre =>
            obtain ⟨rfl, e'⟩ := List.cons.inj e
            exact hrest pre m' post e' hne hk
      · refine fun h => ⟨fun hk => ?_, fun pre m' post e hne hk => ?_⟩
        · by_contra hne
          exact h [] m ms rfl hne hk
        · exact h (m :: pre) m' post (by rw [e, List.cons_append]) hne hk

theorem untilKilled_of_defined {a : AudioState H} {ms : List Message}
    (h : InputsMeet E (Defined E) a ms) : untilKilled E a ms = ms :=
  (untilKilled_eq_self_iff E).mpr fun pre m post e _ hk => hk.2 (h pre m post e hk.1).2

/-! ### Reads -/

/-- A message of a stream is no longer than the stream. -/
theorem split_payload_le {l : List UInt8} {m : Message} (hm : m ∈ (messageFramer.split l).1) :
    sizeofHeader + m.payload.length ≤ l.length := by
  obtain ⟨p, r, n, hp, hn⟩ := messageFramer.exists_next_of_mem_split _ _ (Nat.le_refl _) m hm
  obtain ⟨-, hmsg, hsize, hle⟩ := nextMessage_eq_frame hn
  have hlen := congrArg List.length hp
  have hpay := congrArg (fun m => m.payload.length) hmsg
  simp only [List.length_take] at hpay
  simp only [List.length_append] at hlen
  omega

/-- What a read dispatches is shorter than the buffer it is assembled in. -/
theorem processClientRead_short (s : Session H) (bytes : List UInt8) :
    ShortPayloads (processClientRead E s bytes).dispatched := by
  intro m hm
  by_cases hover : s.assembleLen + bytes.length > sizeofAssembleBuf
  · rw [processClientRead, if_pos hover] at hm
    cases hm
  · have hr := processClientRead_spec E (Nat.le_of_not_lt hover)
    rw [hr.dispatched] at hm
    have hlen := split_payload_le hm
    rw [List.length_append, Session.length_pending] at hlen
    omega

theorem readAll_short : ∀ (s : Session H) (reads : List (List UInt8)),
    ShortPayloads (readAll E s reads).2
  | _, [] => fun _ hm => absurd hm List.not_mem_nil
  | s, bytes :: reads => by
      intro m hm
      rcases List.mem_append.mp hm with hm | hm
      · exact processClientRead_short E s bytes m hm
      · exact readAll_short _ reads m hm

theorem InputsMeet.of_prefix {C : AudioState H → List UInt8 → Prop} {a : AudioState H}
    {ms ms' : List Message} (h : InputsMeet E C a ms) (hpre : ms' <+: ms) :
    InputsMeet E C a ms' := by
  obtain ⟨t, rfl⟩ := hpre
  exact ((inputsMeet_append E).mp h).1

/-- The bytes of the messages, in reads of 20, 40 and the rest. -/
def threeReads (ms : List FramedMessage) : List (List UInt8) :=
  let bytes := (ms.map FramedMessage.encode).flatten
  [bytes.take 20, (bytes.drop 20).take 40, bytes.drop 60]

theorem sixteen_lt : (inputPayload [List.replicate 16 0x55]).length < 2 ^ 31 := by decide

/-- A session of mono PCMU that is sent sixteen bytes and a `CMD_PING`. -/
def pcmuPing : List FramedMessage :=
  [framedStart 1 (pcmuConfig 1),
    framedRequest cmdInput 2 (inputPayload [List.replicate 16 0x55]) sixteen_lt, pingMessage 3]

/-- A session of L16 without a channel that is sent two bytes and a `CMD_PING`. -/
def divisionPing : List FramedMessage :=
  [framedStart 1 (l16Config 0),
    framedRequest cmdInput 2 (inputPayload [[0x12, 0x34]]) (by decide), pingMessage 3]

end MachAudio
