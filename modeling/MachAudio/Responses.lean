import Mathlib.Data.List.Forall2
import MachAudio.Control
import MachAudio.Overflow
import MachAudio.Slots

/-! # One response for one request

A response is written into a record of `MAX_WRITE_PAYLOAD` bytes, and one that is longer is
dropped without a word.  Only an output can be that long; `OutputFits` bounds it by the
lengths of the buffers, the rates and the channels.  Where every request meets it, the
responses a session has queued correspond one to one, in order, to the messages that call
for one (`responses_one_to_one`). -/

namespace MachAudio

open Transition

variable {H Φ : Type} (E : Env H Φ)

/-! ### Requests and their responses -/

/-- Every message but a `CMD_START` with a whole payload and a `CMD_STOP`. -/
def CallsForResponse (m : Message) : Prop := ¬m.IsStart ∧ ¬m.IsStop

instance (m : Message) : Decidable (CallsForResponse m) := inferInstanceAs (Decidable (_ ∧ _))

/-- The command is one that answers the message. -/
def Message.AnsweredBy (m : Message) (command : UInt16) : Prop :=
  if m.header.command = cmdInput then command = cmdOutput ∨ command = cmdError
  else if m.header.command = cmdPing then command = cmdPong
  else if m.header.command = cmdDiscover then command = cmdDiscoverReply
  else command = cmdError

/-- The response has a command that answers the message, and its sequence number. -/
def Answers (m : Message) (r : Response) : Prop :=
  r.sequenceId = m.header.sequenceId ∧ m.AnsweredBy r.body.command

theorem answer_eq_none (numWorkers : UInt32) (durationNs : UInt64) (a : AudioState H)
    {m : Message} : answer E numWorkers durationNs a m = none ↔ ¬CallsForResponse m := by
  rw [answer, CallsForResponse]
  split_ifs with h₁ h₂ h₃ h₄ h₅ h₆ <;> simp_all [Message.IsStart, Message.IsInput, Message.IsStop,
    cmdStart, cmdInput, cmdStop]

theorem answerInput_command (durationNs : UInt64) (a : AudioState H) (payload : List UInt8) :
    (answerInput E durationNs a payload).command = cmdOutput ∨
      (answerInput E durationNs a payload).command = cmdError := by
  simp only [answerInput]
  split_ifs
  · exact .inl rfl
  · exact .inr rfl

theorem answer_answers {numWorkers : UInt32} {durationNs : UInt64} {a : AudioState H} {m : Message}
    {body : Body} (h : answer E numWorkers durationNs a m = some body) :
    Answers m ⟨m.header.sequenceId, body⟩ := by
  refine ⟨rfl, ?_⟩
  simp only [answer] at h
  rw [Message.AnsweredBy]
  by_cases h₁ : m.IsStart
  · simp [h₁] at h
  rw [if_neg h₁] at h
  by_cases h₂ : m.IsInput
  · rw [if_pos h₂, Option.some.injEq] at h
    rw [if_pos h₂.1, ← h]
    exact answerInput_command E durationNs a m.payload
  rw [if_neg h₂] at h
  by_cases h₃ : m.IsStop
  · simp [h₃] at h
  rw [if_neg h₃] at h
  by_cases h₄ : m.header.command = cmdStart ∨ m.header.command = cmdInput
  · rw [if_pos h₄, Option.some.injEq] at h
    rw [← h]
    rcases h₄ with h₄ | h₄
    · rw [h₄, if_neg (by decide), if_neg (by decide), if_neg (by decide)]
      rfl
    · rw [if_pos h₄]
      exact .inr rfl
  rw [if_neg h₄] at h
  rw [if_neg fun e => h₄ (.inr e)]
  split_ifs at h ⊢ with h₅ h₆
  · obtain rfl := Option.some.inj h
    rfl
  · obtain rfl := Option.some.inj h
    rfl
  · obtain rfl := Option.some.inj h
    rfl

/-! ### Outputs that fit a record -/

/-- What a write record holds of an output behind its two headers. -/
def maxOutput : ℕ := maxWritePayload - sizeofHeader - sizeofOutputPayload

/-- The encoder gets `m` samples in a block that ends at `last`, from `n` mixed samples whose
blocks end at `curr₁`. -/
def TranscodeSession.EncoderGets (s : TranscodeSession H) (size curr₁ n last m : ℕ) : Prop :=
  if s.needsResample then
    bump size curr₁ (s.resampledSize n) = some last ∧ m = s.resampledCount E n
  else last = curr₁ ∧ m = n

/-- The output of the request, if there is one, is at most `maxOutput` bytes long. -/
structure OutputFits (s : TranscodeSession H) (size curr : ℕ) (payload : List UInt8) : Prop where
  /-- G.711: a byte for every sample. -/
  g711 : ∀ len curr₁ last m, Decodes s size curr payload len curr₁ →
    s.EncoderGets E size curr₁ (s.decodedSamples len) last m →
    s.outPayloadType = codecPcmu ∨ s.outPayloadType = codecPcma → bump size last m ≠ none →
    m ≤ maxOutput
  /-- L16: two bytes for every sample and channel. -/
  l16 : ∀ len curr₁ last m, Decodes s size curr payload len curr₁ →
    s.EncoderGets E size curr₁ (s.decodedSamples len) last m → s.outPayloadType = codecL16 →
    m * s.outChannels.toNat * 2 ≤ maxOutput
  /-- Any other codec: all that the request has taken of the arena. -/
  unknown : ∀ len curr₁ last m, Decodes s size curr payload len curr₁ →
    s.EncoderGets E size curr₁ (s.decodedSamples len) last m → ¬IsKnownCodec s.outPayloadType →
    last - curr ≤ maxOutput

theorem OutputFits.encode {s : TranscodeSession H} {size curr : ℕ} {payload : List UInt8}
    (h : OutputFits E s size curr payload) {len curr₁ last m c' : ℕ}
    (hd : Decodes s size curr payload len curr₁)
    (hg : s.EncoderGets E size curr₁ (s.decodedSamples len) last m)
    (hs : s.encodeShape size curr last m = some c') : c' - curr ≤ maxOutput := by
  rw [TranscodeSession.encodeShape] at hs
  split_ifs at hs with h₁ h₂
  · obtain ⟨c, hb, rfl⟩ := Option.map_eq_some_iff.mp hs
    have := h.g711 len curr₁ last m hd hg h₁ (by rw [hb]; exact Option.some_ne_none c)
    omega
  · obtain rfl := Option.some.inj hs
    have := h.l16 len curr₁ last m hd hg h₂
    omega
  · obtain rfl := Option.some.inj hs
    exact h.unknown len curr₁ _ m hd hg fun hk => by
      rcases hk with hk | hk | hk
      · exact h₁ (.inl hk)
      · exact h₁ (.inr hk)
      · exact h₂ hk

theorem OutputFits.shape {s : TranscodeSession H} {size curr : ℕ} {payload : List UInt8}
    (h : OutputFits E s size curr payload) {c' : ℕ}
    (hs : transcodeShape E s size curr payload = some c') : c' - curr ≤ maxOutput := by
  rw [transcodeShape] at hs
  by_cases h0 : ntohl payload 0 = 0
  · rw [if_pos h0] at hs
    obtain rfl := Option.some.inj hs
    omega
  · rw [if_neg h0] at hs
    cases hl : bufferLengths payload with
    | nil =>
        rw [hl] at hs
        cases hs
    | cons len lens =>
        rw [hl] at hs
        dsimp only at hs
        by_cases hk : IsKnownCodec s.inPayloadType
        · rw [if_neg (not_not.mpr hk)] at hs
          obtain ⟨curr₁, hb, hs⟩ := Option.bind_eq_some_iff.mp hs
          by_cases hn : s.decodedSamples len = 0
          · rw [if_pos hn] at hs
            cases hs
          · rw [if_neg hn, TranscodeSession.processShape] at hs
            have hd : Decodes s size curr payload len curr₁ := ⟨lens, hl, hk, hb, by omega⟩
            by_cases hres : s.needsResample = true
            · rw [if_pos hres] at hs
              obtain ⟨curr₂, hb₂, hs⟩ := Option.bind_eq_some_iff.mp hs
              refine h.encode E hd ?_ hs
              rw [TranscodeSession.EncoderGets, if_pos hres]
              exact ⟨hb₂, rfl⟩
            · rw [if_neg hres] at hs
              refine h.encode E hd ?_ hs
              rw [TranscodeSession.EncoderGets, if_neg hres]
              exact ⟨rfl, rfl⟩
        · rw [if_pos hk] at hs
          cases hs

/-- The request comes to its end, and its response fits a record.  The samples of the response
may be wrong: an access that leaves its block, but not the arena, is answered all the same. -/
structure Deliverable (a : AudioState H) (payload : List UInt8) : Prop where
  arena : ArenaFits E a.session a.arena.size a.arena.curr payload
  divisors : DivisorsFit a.session a.arena.size a.arena.curr payload
  output : OutputFits E a.session a.arena.size a.arena.curr payload

theorem Deliverable.respLen {a : AudioState H} (ha : a.Ok) {payload : List UInt8}
    (hpay : payload.length ≤ sizeofAssembleBuf - sizeofHeader) (h : Deliverable E a payload)
    (sequenceId : UInt32) (durationNs : UInt64) :
    (Response.mk sequenceId (answerInput E durationNs a payload)).respLen ≤ maxWritePayload := by
  simp only [sizeofAssembleBuf, sizeofHeader] at hpay
  have hpay31 : payload.length < 2 ^ 31 := by omega
  obtain ⟨hr, he⟩ := ha.transcode_shape E hpay31
  simp only [answerInput]
  split_ifs with h0
  · rw [hr, returnCode_eq_zero, Option.isSome_iff_exists] at h0
    obtain ⟨c', hc'⟩ := h0
    have hle := h.output.shape E hc'
    rw [hc', Ends, Option.getD_some] at he
    rw [Response.respLen, Body.length_payload_output, ByteMem.length_load, he.curr]
    simp only [maxOutput, maxWritePayload, sizeofHeader, sizeofOutputPayload] at hle ⊢
    omega
  · exact le_trans (Response.respLen_le_of_not_output (by simp)) (by decide)

/-- Every response but an output fits a record. -/
theorem answer_respLen {a : AudioState H} (ha : a.Ok) {m : Message}
    (hpay : m.payload.length ≤ sizeofAssembleBuf - sizeofHeader)
    (h : m.IsInput → Deliverable E a m.payload) {numWorkers : UInt32} {durationNs : UInt64}
    {body : Body} (hb : answer E numWorkers durationNs a m = some body) (sequenceId : UInt32) :
    (Response.mk sequenceId body).respLen ≤ maxWritePayload := by
  have hsmall : (∀ d p data, body ≠ .output d p data) →
      (Response.mk sequenceId body).respLen ≤ maxWritePayload := fun hne =>
    le_trans (Response.respLen_le_of_not_output hne) (by decide)
  rw [answer] at hb
  by_cases h₁ : m.IsStart
  · simp [h₁] at hb
  rw [if_neg h₁] at hb
  by_cases h₂ : m.IsInput
  · rw [if_pos h₂, Option.some.injEq] at hb
    rw [← hb]
    exact (h h₂).respLen E ha hpay _ _
  rw [if_neg h₂] at hb
  refine hsmall ?_
  rintro d p data rfl
  split_ifs at hb <;> simp at hb

/-! ### Sessions -/

section
variable {E} (hmalloc : ∀ n, E.malloc n = true)
include hmalloc

theorem handleMessage_responses {s : Session H} {m : Message} (hopen : s.closing = false)
    (ha : s.audio.Ok) (hpay : m.payload.length ≤ sizeofAssembleBuf - sizeofHeader)
    (h : m.IsInput → Deliverable E s.audio m.payload) :
    List.Forall₂ Answers ([m].filter fun m => CallsForResponse m)
      ((handleMessage E s m).2.map Submission.response) := by
  obtain ⟨s₁, d, hio, -, -, hm⟩ := handleMessage_eq E s m
  rw [hm]
  cases hb : answer E s.numWorkers d s.audio m with
  | none =>
      have hno := (answer_eq_none E s.numWorkers d s.audio).mp hb
      rw [List.filter_cons_of_neg (by simpa using hno)]
      exact .nil
  | some body =>
      have hcalls : CallsForResponse m := by
        by_contra hno
        rw [(answer_eq_none E s.numWorkers d s.audio).mpr hno] at hb
        cases hb
      rw [List.filter_cons_of_pos (by simpa using hcalls), respond, hio.closing, hopen,
        if_neg (by decide), queueResponse_sends hmalloc, if_pos (answer_respLen E ha hpay h hb _)]
      exact .cons (answer_answers E hb) .nil

/-- The responses to the messages of a read. -/
theorem handleMessages_responses : ∀ {ms : List Message} {s : Session H}, s.closing = false →
    s.audio.Ok → ShortPayloads ms → InputsMeet E (Deliverable E) s.audio ms →
    List.Forall₂ Answers (ms.filter fun m => CallsForResponse m)
      ((handleMessages E s ms).2.map Submission.response)
  | [], _, _, _, _, _ => .nil
  | m :: ms, s, hopen, ha, hms, h => by
      obtain ⟨h₁, h₂⟩ := (inputsMeet_cons E).mp h
      have hpay := hms m List.mem_cons_self
      obtain ⟨haudio, hclosing⟩ := handleMessage_audio E s m
      have hfirst := handleMessage_responses hmalloc hopen ha hpay h₁
      have hok : (audioStep E s.audio m).Ok := by
        simp only [sizeofAssembleBuf, sizeofHeader] at hpay
        exact audioStep_ok E ha (by omega)
      rw [← haudio] at hok h₂
      have ih := handleMessages_responses (hclosing.trans hopen) hok
        (fun m' hm' => hms m' (List.mem_cons_of_mem _ hm')) h₂
      have hl : (m :: ms).filter (fun m => CallsForResponse m) =
          [m].filter (fun m => CallsForResponse m) ++ ms.filter (fun m => CallsForResponse m) := by
        rw [← List.filter_append, List.singleton_append]
      rw [hl, handleMessages, List.map_append]
      exact List.rel_append hfirst ih

end

/-! ### Reads -/

/-- A read that leaves the session open handles its messages and sends nothing else. -/
theorem processClientRead_open {s : Session H} {bytes : List UInt8}
    (h : (processClientRead E s bytes).session.closing = false) :
    s.closing = false ∧
      (processClientRead E s bytes).session.audio =
        audioAfter E s.audio (processClientRead E s bytes).dispatched ∧
      (processClientRead E s bytes).sends =
        (handleMessages E (s.assemble bytes) (processClientRead E s bytes).dispatched).2 := by
  by_cases hover : s.assembleLen + bytes.length > sizeofAssembleBuf
  · rw [processClientRead, if_pos hover] at h
    cases h
  · have hr := processClientRead_spec E (Nat.le_of_not_lt hover)
    generalize processClientRead E s bytes = r at h hr ⊢
    have hrun := handleMessages_audio E (s.assemble bytes) r.dispatched
    have hio := hr.sameIo
    have haudio := hr.audio
    have hsends := hr.sends
    cases hn : nextMessage r.session.pending with
    | malformed =>
        rw [finishLoop, hn] at hio
        rw [hio.closing] at h
        cases h
    | more =>
        rw [finishLoop, hn] at hio haudio hsends
        rw [hio.closing, hrun.2] at h
        exact ⟨h, haudio.trans hrun.1, by rw [hsends, List.append_nil]⟩
    | frame m n =>
        rw [finishLoop, hn] at hio haudio hsends
        rw [hio.closing, hrun.2] at h
        exact ⟨h, haudio.trans hrun.1, by rw [hsends, List.append_nil]⟩

/-! ### Connections -/

/-- The audio path of the session is where its messages have led it, and they are answered. -/
structure Conn.Follows (addr : ℕ) (c : Conn H) : Prop where
  audio : c.session.audio = audioAfter E (AudioState.fresh addr) c.dispatched
  short : ShortPayloads c.dispatched
  responses : InputsMeet E (Deliverable E) (AudioState.fresh addr) c.dispatched →
    List.Forall₂ Answers (c.dispatched.filter fun m => CallsForResponse m)
      (c.submitted.map Submission.response)

/-- If the session is still open, it was, and neither its audio path nor its messages nor its
responses have changed. -/
def Quiet (c c' : Conn H) : Prop :=
  c'.session.closing = false → c.session.closing = false ∧
    c'.session.audio = c.session.audio ∧ c'.dispatched = c.dispatched ∧
    c'.submitted = c.submitted

theorem Quiet.trans {c₁ c₂ c₃ : Conn H} (h : Quiet c₁ c₂) (h' : Quiet c₂ c₃) : Quiet c₁ c₃ := by
  intro hopen
  obtain ⟨hc', ha', hd', hs'⟩ := h' hopen
  obtain ⟨hc, ha, hd, hs⟩ := h hc'
  exact ⟨hc, ha'.trans ha, hd'.trans hd, hs'.trans hs⟩

theorem Quiet.of_eq {c c' : Conn H} (hc : c'.session.closing = c.session.closing)
    (ha : c'.session.audio = c.session.audio) (hd : c'.dispatched = c.dispatched)
    (hs : c'.submitted = c.submitted) : Quiet c c' :=
  fun hopen => ⟨hc ▸ hopen, ha, hd, hs⟩

theorem Conn.cleanup_quiet (c : Conn H) : Quiet c c.cleanup := by
  intro hopen
  rw [c.cleanup_cleanedUp.closing] at hopen
  rw [Conn.cleanup_eq, if_neg (by simp [hopen])]
  exact ⟨hopen, rfl, rfl, rfl⟩

theorem Conn.afterRead_quiet (c : Conn H) (more : Bool) : Quiet c (c.afterRead more) := by
  have hrearm : Quiet c (if !c.session.closing && !more then c.rearm else c) := by
    split_ifs <;> exact .of_eq rfl rfl rfl rfl
  rw [Conn.afterRead]
  generalize (if !c.session.closing && !more then c.rearm else c) = c₁ at hrearm ⊢
  split_ifs
  · exact hrearm.trans c₁.cleanup_quiet
  · exact hrearm

theorem freeWriteResponse_audio (s : Session H) (wr : Slot) :
    (freeWriteResponse s wr).audio = s.audio := by
  rw [freeWriteResponse]
  cases s.deref wr with
  | none => rfl
  | some r =>
      dsimp only
      split_ifs <;> cases wr <;> rfl

theorem handleSend_quiet (c : Conn H) (wr : Slot) (res : ℤ) : Quiet c (handleSend c wr res) := by
  refine Quiet.trans ?_ (Conn.cleanup_quiet _)
  intro hopen
  rw [freeWriteResponse_closing] at hopen
  rw [freeWriteResponse_audio]
  split_ifs at hopen ⊢
  exact ⟨hopen, rfl, rfl, rfl⟩

theorem Conn.Follows.quiet {addr : ℕ} {c c' : Conn H}
    (h : c.session.closing = false → c.Follows E addr) (hq : Quiet c c') :
    c'.session.closing = false → c'.Follows E addr := by
  intro hopen
  obtain ⟨hc, ha, hd, hs⟩ := hq hopen
  obtain ⟨h₁, h₂, h₃⟩ := h hc
  refine ⟨?_, ?_, ?_⟩
  · rw [ha, hd]
    exact h₁
  · rw [hd]
    exact h₂
  · rw [hd, hs]
    exact h₃

theorem Conn.Follows.read (hmalloc : ∀ n, E.malloc n = true) {addr : ℕ} {c : Conn H}
    (h : c.session.closing = false → c.Follows E addr) (bytes : List UInt8) :
    (c.read E bytes).session.closing = false → (c.read E bytes).Follows E addr := by
  intro hopen
  obtain ⟨hc, haudio, hsends⟩ := processClientRead_open E hopen
  obtain ⟨h₁, h₂, h₃⟩ := h hc
  have hshort := processClientRead_short E c.session bytes
  refine ⟨?_, ?_, ?_⟩
  · show (processClientRead E c.session bytes).session.audio = _
    rw [haudio, h₁, ← audioAfter_append]
    rfl
  · intro m hm
    rcases List.mem_append.mp hm with hm | hm
    · exact h₂ m hm
    · exact hshort m hm
  · intro hmeet
    obtain ⟨hm₁, hm₂⟩ := (inputsMeet_append E).mp hmeet
    rw [← h₁] at hm₂
    have hnew := handleMessages_responses hmalloc (s := c.session.assemble bytes) hc
      (by
        show c.session.audio.Ok
        rw [h₁]
        exact audioAfter_ok E (AudioState.fresh_ok addr) h₂) hshort hm₂
    show List.Forall₂ Answers
      ((c.dispatched ++ (processClientRead E c.session bytes).dispatched).filter _)
      ((c.submitted ++ (processClientRead E c.session bytes).sends).map _)
    rw [hsends, List.filter_append, List.map_append]
    exact List.rel_append (h₃ hm₁) hnew

theorem follows_step (hmalloc : ∀ n, E.malloc n = true) {addr : ℕ} {c c' : Conn H} {e : ConnEvent}
    (h : c.session.closing = false → c.Follows E addr) (hs : c.step E e = some c') :
    c'.session.closing = false → c'.Follows E addr := by
  cases Conn.step_move hs with
  | recv _ _ _ => exact Conn.Follows.quiet E h (.of_eq rfl rfl rfl rfl)
  | complete _ _ => exact Conn.Follows.quiet E h (.of_eq rfl rfl rfl rfl)
  | @handleSend wr res cq hcq =>
      exact Conn.Follows.quiet E h
        (Quiet.trans (.of_eq rfl rfl rfl rfl) (handleSend_quiet { c with cq := cq } wr res))
  | @handleRecv res more buffer cq hcq =>
      have hnote : Quiet c (Conn.noteMore { c with cq := cq } more) := by
        rw [Conn.noteMore]
        split_ifs <;> exact .of_eq rfl rfl rfl rfl
      have h₁ := Conn.Follows.quiet E h hnote
      rw [handleRecv]
      generalize Conn.noteMore { c with cq := cq } more = c₁ at h₁ ⊢
      split_ifs
      · exact Conn.Follows.quiet E h₁ (.of_eq rfl rfl rfl rfl)
      · have hclosing : Quiet c₁ c₁.markClosing := by
          intro hopen
          cases hopen
        exact Conn.Follows.quiet E h₁ (hclosing.trans (Conn.cleanup_quiet _))
      · cases buffer with
        | none => exact Conn.Follows.quiet E h₁ (c₁.afterRead_quiet more)
        | some b =>
            exact Conn.Follows.quiet E (Conn.Follows.read E hmalloc h₁ b.2)
              (Conn.afterRead_quiet _ more)

/-- The request stays in the arena and divides by nothing that is zero. -/
def Completes (a : AudioState H) (payload : List UInt8) : Prop :=
  StaysInArena E a payload ∧ NeverDividesByZero E a payload

/-- A `CMD_INPUT` whose output is longer is not answered at all. -/
theorem handleMessage_tooLong {s : Session H} {m : Message} (hi : m.IsInput) (ha : s.audio.Ok)
    (hpay : m.payload.length ≤ sizeofAssembleBuf - sizeofHeader) {c' : ℕ}
    (hs : transcodeShape E s.audio.session s.audio.arena.size s.audio.arena.curr m.payload =
      some c') (hlong : maxOutput < c' - s.audio.arena.curr) :
    (handleMessage E s m).2 = [] ∧ (handleMessage E s m).1.closing = s.closing := by
  refine ⟨?_, (handleMessage_audio E s m).2⟩
  simp only [sizeofAssembleBuf, sizeofHeader] at hpay
  have hpay31 : m.payload.length < 2 ^ 31 := by omega
  obtain ⟨hr, he⟩ := ha.transcode_shape E hpay31
  rw [hs] at hr he
  rw [returnCode] at hr
  rw [Ends, Option.getD_some] at he
  have hstart : ¬m.IsStart := fun h => by
    have := h.1.symm.trans hi.1
    revert this
    decide
  obtain ⟨s₁, d, hio, -, -, hm⟩ := handleMessage_eq E s m
  rw [hm, answer, if_neg hstart, if_pos hi, answerInput, if_pos hr, respond]
  split_ifs
  · rfl
  · have hlen : (Response.mk m.header.sequenceId (.output d
        (s.audio.transcode E m.payload).2.session.lastVadProb
        ((s.audio.transcode E m.payload).2.arena.buf.load s.audio.arena.curr
          ((s.audio.transcode E m.payload).2.arena.curr - s.audio.arena.curr)))).respLen >
        maxWritePayload := by
      rw [Response.respLen, Body.length_payload_output, ByteMem.length_load, he.curr]
      simp only [maxOutput, maxWritePayload, sizeofHeader, sizeofOutputPayload] at hlong ⊢
      omega
    rw [queueResponse, getWriteResponse, if_pos hlen]

/-! ### One receive -/

theorem stream_length_pos {ms : List FramedMessage} (hms : ms ≠ []) : 0 < (stream ms).length := by
  cases ms with
  | nil => exact absurd rfl hms
  | cons m ms =>
      have hsize := m.size_ge
      simp only [sizeofHeader] at hsize
      rw [stream_cons, List.length_append, m.length_encode]
      omega

/-- Whole messages that come in one piece are all dispatched. -/
theorem processClientRead_stream {s : Session H} (hempty : s.pending = [])
    {ms : List FramedMessage} (hlen : (stream ms).length ≤ bufSize) :
    (processClientRead E s (stream ms)).dispatched = ms.map FramedMessage.message ∧
      (processClientRead E s (stream ms)).sends =
        (handleMessages E (s.assemble (stream ms)) (ms.map FramedMessage.message)).2 ∧
      (processClientRead E s (stream ms)).session.closing = s.closing := by
  have hr : ReadSpec E s (stream ms) (processClientRead E s (stream ms)) :=
    processClientRead_spec E (by
      rw [← s.length_pending, hempty]
      simp only [bufSize, sizeofAssembleBuf, List.length_nil] at hlen ⊢
      omega)
  have hsplit :
      messageFramer.split (s.pending ++ stream ms) = (ms.map FramedMessage.message, []) := by
    have h := split_stream_append ms []
    rw [List.append_nil] at h
    rw [hempty, List.nil_append, h]
    exact Prod.ext (List.append_nil _) rfl
  have hdisp := hr.dispatched
  have hpend := hr.pending
  have hsends := hr.sends
  have hio := hr.sameIo
  rw [hsplit] at hdisp hpend
  rw [hpend] at hsends hio
  refine ⟨hdisp, ?_, ?_⟩
  · rw [hsends, hdisp]
    exact List.append_nil _
  · rw [hio.closing]
    show (handleMessages E (s.assemble (stream ms)) _).1.closing = s.closing
    rw [(handleMessages_audio E _ _).2]
    rfl

/-- The two steps of a new connection that receives one buffer and stays open. -/
theorem Conn.accept_run (clientFd : ℤ) (addr : ℕ) (numWorkers : UInt32) {data : List UInt8}
    (hpos : 0 < data.length) (hlen : data.length ≤ bufSize)
    (hopen : (Conn.read E (Conn.accept clientFd addr numWorkers) data).session.closing = false) :
    run (Conn.step E) (Conn.accept clientFd addr numWorkers)
        [.recv data.length true (some (0, data)), .handle] =
      some (Conn.read E (Conn.accept clientFd addr numWorkers) data) := by
  have hfits : BufferFits (data.length : ℤ) (some (0, data)) := by
    intro b hb
    obtain rfl := Option.some.inj hb
    exact ⟨(Int.toNat_natCast _).symm, by exact_mod_cast hlen⟩
  have hrecv : Conn.step E (Conn.accept clientFd addr numWorkers)
      (.recv data.length true (some (0, data))) =
        some { Conn.accept clientFd addr numWorkers with
          cq := [.recv data.length true (some (0, data))] } := by
    rw [Conn.step, connStep, if_pos ⟨Nat.le_refl 1, fun h => by omega, hfits⟩]
    rfl
  obtain ⟨c, hc⟩ : ∃ c, Conn.read E (Conn.accept clientFd addr numWorkers) data = c := ⟨_, rfl⟩
  rw [hc] at hopen ⊢
  have hafter : c.afterRead true = c := by
    rw [Conn.afterRead]
    simp [hopen]
  have hhandle : Conn.step E { Conn.accept clientFd addr numWorkers with
      cq := [.recv data.length true (some (0, data))] } .handle = some c := by
    have hb : handleRecv E (Conn.accept clientFd addr numWorkers) data.length true
        (some (0, data)) = c := by
      rw [handleRecv]
      simp only [Conn.noteMore, if_true]
      rw [if_neg (by omega), Conn.readBuffer, hc, hafter]
    rw [← hb]
    rfl
  rw [run, hrecv, Option.bind_some, run, hhandle]
  rfl

/-- A new connection whose first receive brings whole messages has dispatched them. -/
theorem accept_receives (clientFd : ℤ) (addr : ℕ) (numWorkers : UInt32) {ms : List FramedMessage}
    (hms : ms ≠ []) (hlen : (stream ms).length ≤ bufSize) :
    ∃ c : Conn H, Reaches (Conn.step E) (Conn.accept clientFd addr numWorkers)
        [.recv (stream ms).length true (some (0, stream ms)), .handle] c ∧
      c.session.closing = false ∧ c.dispatched = ms.map FramedMessage.message ∧
      c.submitted = (handleMessages E ((acceptSession clientFd addr numWorkers).assemble
        (stream ms)) (ms.map FramedMessage.message)).2 := by
  have hempty : (acceptSession clientFd addr numWorkers : Session H).pending = [] := rfl
  obtain ⟨hdispatched, hsends, hclosing⟩ := processClientRead_stream E hempty hlen
  have hopen : (Conn.read E (Conn.accept clientFd addr numWorkers)
      (stream ms)).session.closing = false := hclosing.trans rfl
  refine ⟨_, reaches_of_run (Conn.accept_run E clientFd addr numWorkers (stream_length_pos hms)
    hlen hopen), hopen, ?_, ?_⟩
  · show [] ++ (processClientRead E (acceptSession clientFd addr numWorkers) _).dispatched = _
    rw [hdispatched, List.nil_append]
  · show [] ++ (processClientRead E (acceptSession clientFd addr numWorkers) _).sends = _
    rw [hsends, List.nil_append]

/-- A session of mono PCMU at 8 kHz. -/
def pcmuStarted : AudioState Unit :=
  audioStep Env.plain (AudioState.fresh 0) (request cmdStart 1 (startPayload (pcmuConfig 1)))

/-- Sixteen bytes come back as sixteen bytes. -/
theorem pcmu_outputFits : OutputFits Env.plain pcmuStarted.session pcmuStarted.arena.size
    pcmuStarted.arena.curr (inputPayload [List.replicate 16 0x55]) where
  g711 := by
    rintro len curr₁ last m ⟨lens, hlens, -⟩ hg - -
    have hl : bufferLengths (inputPayload [List.replicate 16 0x55]) = [16] := by decide +kernel
    rw [hl] at hlens
    obtain ⟨rfl, rfl⟩ := List.cons.inj hlens
    rw [hg.2]
    decide
  l16 := fun _ _ _ _ _ _ h => absurd h pcmu_ne_l16
  unknown := fun _ _ _ _ _ _ h => absurd (.inl rfl) h

/-- One L16 buffer of 8200 bytes. -/
def longPayload : List UInt8 := inputPayload [List.replicate 8200 0]

theorem length_longPayload : longPayload.length = 8216 := by
  rw [longPayload, length_inputPayload_singleton, List.length_replicate]
  rfl

/-- An L16 session that passes its input on, and the long buffer. -/
def longRequest : List FramedMessage :=
  [framedStart 1 (l16Config 1),
    framedRequest cmdInput 2 longPayload (by rw [length_longPayload]; decide)]

theorem longRequest_shape :
    transcodeShape Env.plain (configuredSession (l16Config 1)) machSessionArenaSize 0
      longPayload = some 8200 := by
  have hl : bufferLengths longPayload = [8200] := by
    rw [longPayload, bufferLengths_inputPayload (by rw [← longPayload, length_longPayload]; decide),
      List.map_singleton, List.length_replicate]
  have hn : ntohl longPayload 0 = 1 := ntohl_inputPayload _
  rw [transcodeShape, hn, hl]
  decide +kernel

theorem longRequest_messages : longRequest.map FramedMessage.message =
    [request cmdStart 1 (startPayload (l16Config 1)), request cmdInput 2 longPayload] := rfl

theorem longRequest_sends (s : Session Unit) (hs : s.audio = AudioState.fresh 0) :
    (handleMessages Env.plain s
      [request cmdStart 1 (startPayload (l16Config 1)), request cmdInput 2 longPayload]).2 = [] := by
  obtain ⟨start, hstart⟩ : ∃ m, request cmdStart 1 (startPayload (l16Config 1)) = m := ⟨_, rfl⟩
  have hi : start.IsStart := hstart ▸ ⟨rfl, Nat.le_refl _⟩
  have haudio : (handleMessage Env.plain s start).1.audio =
      ⟨configuredSession (l16Config 1), arenaReset (AudioState.fresh 0 : AudioState Unit).arena⟩ := by
    rw [(handleMessage_audio Env.plain s start).1, hs, audioStep, if_pos hi, ← hstart]
    show audioStart Env.plain _ (startPayload (l16Config 1)) = _
    rw [audioStart, decodeStartPayload_startPayload]
    rfl
  have hquiet : (handleMessage Env.plain s start).2 = [] := by
    obtain ⟨s₁, d, -, -, -, hm⟩ := handleMessage_eq Env.plain s start
    rw [hm, (answer_eq_none Env.plain s.numWorkers d s.audio).mpr fun h => h.1 hi]
    rfl
  have hinput : (request cmdInput 2 longPayload).IsInput := by
    refine ⟨rfl, ?_⟩
    show sizeofInputPayload ≤ longPayload.length
    rw [length_longPayload]
    decide
  have hshort : (request cmdInput 2 longPayload).payload.length ≤
      sizeofAssembleBuf - sizeofHeader := by
    show longPayload.length ≤ _
    rw [length_longPayload]
    decide
  have hok : (handleMessage Env.plain s start).1.audio.Ok := by
    rw [haudio]
    exact ⟨rfl, Nat.zero_le _, rfl⟩
  have hlong := (handleMessage_tooLong Env.plain hinput hok hshort
    (by rw [haudio]; exact longRequest_shape) (by rw [haudio]; decide)).1
  rw [hstart, handleMessages, handleMessages, handleMessages]
  dsimp only
  rw [hquiet, hlong]
  rfl

end MachAudio
