import MachAudio.Server

/-! # A connection as a machine that answers messages

What a message does to the audio path, and what it is answered with, depends on nothing but
the transcoding session and the arena rewound to the start of a request (`AudioState`).
`audioStep` and `answer` are the transition and the output of that machine.

`handleMessage_eq` connects it to the server: handling a message moves the audio state by
`audioStep`, leaves the rest of the session alone, and hands the answer, if there is one and
the session is not closing, to `queueResponse`. -/

namespace MachAudio

variable {H Φ : Type} (E : Env H Φ)

/-! ### The machine -/

structure AudioState (H : Type) where
  session : TranscodeSession H
  /-- The cursor is where the next request starts. -/
  arena : Arena

/-- The audio state of a new connection. -/
def AudioState.fresh (addr : ℕ) : AudioState H :=
  ⟨.zero, arenaInit addr (fun _ => 0) machSessionArenaSize⟩

/-- The call of `audio_process_transcode` a `CMD_INPUT` leads to. -/
def AudioState.transcode (a : AudioState H) (payload : List UInt8) : ℤ × Work H :=
  audioProcessTranscode E payload ⟨a.session, a.arena, []⟩

def audioStart (a : AudioState H) (payload : List UInt8) : AudioState H :=
  let session := (transcodeSessionInit E (decodeStartPayload payload)).2
  if session.vadEnabled then
    let vad := vadGruInit (arenaReset a.arena)
    ⟨{ session with vadState := vad.1.map fun _ => E.vadReset }, vad.2⟩
  else ⟨session, arenaReset a.arena⟩

def audioInput (a : AudioState H) (payload : List UInt8) : AudioState H :=
  ⟨(a.transcode E payload).2.session,
    { (a.transcode E payload).2.arena with curr := a.arena.curr }⟩

/-- A `CMD_START` whose payload is long enough. -/
def Message.IsStart (m : Message) : Prop :=
  m.header.command = cmdStart ∧ sizeofStartPayload ≤ m.payload.length

/-- A `CMD_INPUT` whose payload is long enough. -/
def Message.IsInput (m : Message) : Prop :=
  m.header.command = cmdInput ∧ sizeofInputPayload ≤ m.payload.length

def Message.IsStop (m : Message) : Prop := m.header.command = cmdStop

instance (m : Message) : Decidable m.IsStart := inferInstanceAs (Decidable (_ ∧ _))
instance (m : Message) : Decidable m.IsInput := inferInstanceAs (Decidable (_ ∧ _))
instance (m : Message) : Decidable m.IsStop := inferInstanceAs (Decidable (_ = _))

/-- What a message does to the audio state. -/
def audioStep (a : AudioState H) (m : Message) : AudioState H :=
  if m.IsStart then audioStart E a m.payload
  else if m.IsInput then audioInput E a m.payload
  else if m.IsStop then ⟨.zero, a.arena⟩
  else a

/-- The audio state after the messages `ms`. -/
def audioAfter (a : AudioState H) (ms : List Message) : AudioState H := ms.foldl (audioStep E) a

@[simp] theorem audioAfter_nil (a : AudioState H) : audioAfter E a [] = a := rfl

@[simp] theorem audioAfter_cons (a : AudioState H) (m : Message) (ms : List Message) :
    audioAfter E a (m :: ms) = audioAfter E (audioStep E a m) ms := rfl

theorem audioAfter_append (a : AudioState H) (ms ms' : List Message) :
    audioAfter E a (ms ++ ms') = audioAfter E (audioAfter E a ms) ms' := List.foldl_append

/-- The answer to a `CMD_INPUT` with a container. -/
def answerInput (durationNs : UInt64) (a : AudioState H) (payload : List UInt8) : Body :=
  let r := a.transcode E payload
  if r.1 = 0 then
    .output durationNs r.2.session.lastVadProb
      (r.2.arena.buf.load a.arena.curr (r.2.arena.curr - a.arena.curr))
  else .error errProcessingFailed

/-- What a message is answered with. -/
def answer (numWorkers : UInt32) (durationNs : UInt64) (a : AudioState H) (m : Message) :
    Option Body :=
  if m.IsStart then none
  else if m.IsInput then some (answerInput E durationNs a m.payload)
  else if m.IsStop then none
  else if m.header.command = cmdStart ∨ m.header.command = cmdInput then
    some (.error errInvalidPayload)
  else if m.header.command = cmdPing then some .pong
  else if m.header.command = cmdDiscover then some (.discoverReply numWorkers)
  else some (.error errInvalidCommand)

/-! ### The server runs the machine -/

/-- The audio state of a session. -/
def Session.audio (s : Session H) : AudioState H :=
  ⟨s.transcodeSession, { s.arena with curr := s.arenaCurrStart }⟩

/-- Two sessions that differ at most in the audio path, the clock and the assembled bytes. -/
structure SameIo (s s' : Session H) : Prop where
  clientFd : s'.clientFd = s.clientFd
  writePool : s'.writePool = s.writePool
  heap : s'.heap = s.heap
  numWorkers : s'.numWorkers = s.numWorkers
  pendingWrites : s'.pendingWrites = s.pendingWrites
  closing : s'.closing = s.closing
  recvActive : s'.recvActive = s.recvActive
  mallocs : s'.mallocs = s.mallocs

theorem SameIo.refl (s : Session H) : SameIo s s := ⟨rfl, rfl, rfl, rfl, rfl, rfl, rfl, rfl⟩

theorem SameIo.trans {s s' s'' : Session H} (h : SameIo s s') (h' : SameIo s' s'') :
    SameIo s s'' :=
  ⟨h'.clientFd.trans h.clientFd, h'.writePool.trans h.writePool, h'.heap.trans h.heap,
    h'.numWorkers.trans h.numWorkers, h'.pendingWrites.trans h.pendingWrites,
    h'.closing.trans h.closing, h'.recvActive.trans h.recvActive, h'.mallocs.trans h.mallocs⟩

/-- Two sessions with the same assembled bytes. -/
structure SameAssembly (s s' : Session H) : Prop where
  assembleBuf : s'.assembleBuf = s.assembleBuf
  assembleLen : s'.assembleLen = s.assembleLen

theorem SameAssembly.trans {s s' s'' : Session H} (h : SameAssembly s s')
    (h' : SameAssembly s' s'') : SameAssembly s s'' :=
  ⟨h'.assembleBuf.trans h.assembleBuf, h'.assembleLen.trans h.assembleLen⟩

/-- Hand an answer to the kernel unless the session is closing. -/
def respond (s : Session H) (sequenceId : UInt32) : Option Body → Session H × List Submission
  | none => (s, [])
  | some body => if s.closing then (s, []) else queueResponse E s ⟨sequenceId, body⟩

theorem sendErrorUring_eq (s : Session H) (sequenceId code : UInt32) :
    sendErrorUring E s sequenceId code = respond E s sequenceId (some (.error code)) := rfl

/-- What taking and filling a record leaves alone. -/
structure SameAudio (s s' : Session H) : Prop where
  arena : s'.arena = s.arena
  arenaCurrStart : s'.arenaCurrStart = s.arenaCurrStart
  transcodeSession : s'.transcodeSession = s.transcodeSession
  closing : s'.closing = s.closing

theorem queueResponse_sameAudio (s : Session H) (r : Response) :
    SameAudio s (queueResponse E s r).1 := by
  have h := queueResponse_outcome E s r
  generalize queueResponse E s r = q at h ⊢
  cases h <;> exact ⟨rfl, rfl, rfl, rfl⟩

/-- Taking a record does not look at the arena. -/
theorem getWriteResponse_arena (s : Session H) (arena : Arena) (n : ℕ) :
    getWriteResponse E { s with arena := arena } n =
      ((getWriteResponse E s n).1, { (getWriteResponse E s n).2 with arena := arena }) := by
  have hfree : Session.freeSlot { s with arena := arena } = s.freeSlot := rfl
  simp only [getWriteResponse, hfree]
  by_cases hn : n > maxWritePayload
  · rw [if_pos hn, if_pos hn]
  · rw [if_neg hn, if_neg hn]
    cases s.freeSlot with
    | some i => rfl
    | none => cases E.malloc s.mallocs <;> rfl

theorem queueResponse_arena (s : Session H) (arena : Arena) (r : Response) :
    queueResponse E { s with arena := arena } r =
      ({ (queueResponse E s r).1 with arena := arena }, (queueResponse E s r).2) := by
  simp only [queueResponse, getWriteResponse_arena]
  rcases getWriteResponse E s r.respLen with ⟨_ | wr, s₁⟩
  · rfl
  · cases wr with
    | pool i => rfl
    | dynamic n =>
        simp only [Session.fill, Session.deref]
        cases s₁.heap n <;> rfl

theorem startSession_audio (s : Session H) (payload : List UInt8) :
    (startSession E s payload).audio = audioStart E s.audio payload := by
  simp only [startSession, audioStart]
  split <;> rfl

theorem startSession_sameIo (s : Session H) (payload : List UInt8) :
    SameIo s (startSession E s payload) := by
  simp only [startSession]
  split <;> exact ⟨rfl, rfl, rfl, rfl, rfl, rfl, rfl, rfl⟩

theorem startSession_sameAssembly (s : Session H) (payload : List UInt8) :
    SameAssembly s (startSession E s payload) := by
  simp only [startSession]
  split <;> exact ⟨rfl, rfl⟩

theorem handleStart_eq (s : Session H) {m : Message} (hc : m.header.command = cmdStart) :
    ∃ s₁ durationNs, SameIo s s₁ ∧ SameAssembly s s₁ ∧
      s₁.audio = audioStep E s.audio m ∧
      handleStart E s m =
        respond E s₁ m.header.sequenceId (answer E s.numWorkers durationNs s.audio m) := by
  have hi : ¬m.IsInput := by simp [Message.IsInput, hc, cmdStart, cmdInput]
  have hst : ¬m.IsStop := by simp [Message.IsStop, hc, cmdStart, cmdStop]
  by_cases hlen : m.payload.length < sizeofStartPayload
  · have hs : ¬m.IsStart := fun h => absurd h.2 (by omega)
    refine ⟨s, 0, .refl s, ⟨rfl, rfl⟩, ?_, ?_⟩
    · rw [audioStep, if_neg hs, if_neg hi, if_neg hst]
    · rw [handleStart, if_pos hlen, answer, if_neg hs, if_neg hi, if_neg hst, if_pos (.inl hc)]
      rfl
  · have hs : m.IsStart := ⟨hc, by omega⟩
    refine ⟨startSession E s m.payload, 0, startSession_sameIo E s m.payload,
      startSession_sameAssembly E s m.payload, ?_, ?_⟩
    · rw [audioStep, if_pos hs, startSession_audio]
    · rw [handleStart, if_neg hlen, answer, if_pos hs]
      rfl

theorem transcodeInput_sameIo (s : Session H) (payload : List UInt8) :
    SameIo s (transcodeInput E s payload).2.1 := ⟨rfl, rfl, rfl, rfl, rfl, rfl, rfl, rfl⟩

/-- The branch in which the output is queued: the cursor goes back after the send, which
does not look at it. -/
theorem handleInput_eq (s : Session H) {m : Message} (hc : m.header.command = cmdInput) :
    ∃ s₁ durationNs, SameIo s s₁ ∧ SameAssembly s s₁ ∧
      s₁.audio = audioStep E s.audio m ∧
      handleInput E s m =
        respond E s₁ m.header.sequenceId (answer E s.numWorkers durationNs s.audio m) := by
  have hs : ¬m.IsStart := by simp [Message.IsStart, hc, cmdStart, cmdInput]
  have hst : ¬m.IsStop := by simp [Message.IsStop, hc, cmdInput, cmdStop]
  by_cases hlen : m.payload.length < sizeofInputPayload
  · have hi : ¬m.IsInput := fun h => absurd h.2 (by omega)
    refine ⟨s, 0, .refl s, ⟨rfl, rfl⟩, ?_, ?_⟩
    · rw [audioStep, if_neg hs, if_neg hi, if_neg hst]
    · rw [handleInput, if_pos hlen, answer, if_neg hs, if_neg hi, if_neg hst, if_pos (.inr hc)]
      rfl
  · have hi : m.IsInput := ⟨hc, by omega⟩
    have haudio : audioStep E s.audio m = audioInput E s.audio m.payload := by
      rw [audioStep, if_neg hs, if_pos hi]
    have hans : ∀ d, answer E s.numWorkers d s.audio m =
        some (answerInput E d s.audio m.payload) := by
      intro d
      rw [answer, if_neg hs, if_pos hi]
    obtain ⟨t, ht⟩ : ∃ t, transcodeInput E s m.payload = t := ⟨_, rfl⟩
    have hio : SameIo s t.2.1 := ht ▸ transcodeInput_sameIo E s m.payload
    have has : SameAssembly s t.2.1 := ht ▸ ⟨rfl, rfl⟩
    have hau : t.2.1.audio = audioInput E s.audio m.payload := ht ▸ rfl
    have hbody : answerInput E t.2.2 s.audio m.payload =
        if t.1 = 0 then
          .output t.2.2 t.2.1.transcodeSession.lastVadProb
            (t.2.1.arena.buf.load t.2.1.arenaCurrStart (t.2.1.arena.curr - t.2.1.arenaCurrStart))
        else .error errProcessingFailed := ht ▸ rfl
    rw [haudio]
    simp only [hans, handleInput, if_neg hlen, ht]
    by_cases hr : t.1 = 0
    · rw [if_pos hr] at hbody
      rw [if_pos hr]
      by_cases hcl : t.2.1.closing = true
      · refine ⟨t.2.1, t.2.2, hio, has, hau, ?_⟩
        rw [if_pos hcl, respond, if_pos hcl]
      · have hq := queueResponse_sameAudio E t.2.1
          ⟨m.header.sequenceId, answerInput E t.2.2 s.audio m.payload⟩
        refine ⟨{ t.2.1 with arena := { t.2.1.arena with curr := t.2.1.arenaCurrStart } }, t.2.2,
          ⟨hio.1, hio.2, hio.3, hio.4, hio.5, hio.6, hio.7, hio.8⟩,
          ⟨has.1, has.2⟩, hau, ?_⟩
        rw [if_neg hcl, respond, if_neg hcl,
          queueResponse_arena E t.2.1 { t.2.1.arena with curr := t.2.1.arenaCurrStart }, ← hbody]
        simp only [hq.arena, hq.arenaCurrStart]
    · rw [if_neg hr] at hbody
      refine ⟨t.2.1, t.2.2, hio, has, hau, ?_⟩
      rw [if_neg hr, sendErrorUring_eq, hbody]

/-- **The server runs the machine.** -/
theorem handleMessage_eq (s : Session H) (m : Message) :
    ∃ s₁ durationNs, SameIo s s₁ ∧ SameAssembly s s₁ ∧
      s₁.audio = audioStep E s.audio m ∧
      handleMessage E s m =
        respond E s₁ m.header.sequenceId (answer E s.numWorkers durationNs s.audio m) := by
  by_cases h₁ : m.header.command = cmdStart
  · rw [handleMessage, if_pos h₁]
    exact handleStart_eq E s h₁
  rw [handleMessage, if_neg h₁]
  by_cases h₂ : m.header.command = cmdInput
  · rw [if_pos h₂]
    exact handleInput_eq E s h₂
  rw [if_neg h₂]
  have hs : ¬m.IsStart := fun h => h₁ h.1
  have hi : ¬m.IsInput := fun h => h₂ h.1
  have hbad : ¬(m.header.command = cmdStart ∨ m.header.command = cmdInput) := by tauto
  by_cases h₃ : m.header.command = cmdStop
  · have hst : m.IsStop := h₃
    refine ⟨{ s with transcodeSession := .zero }, 0, ⟨rfl, rfl, rfl, rfl, rfl, rfl, rfl, rfl⟩,
      ⟨rfl, rfl⟩, ?_, ?_⟩
    · rw [audioStep, if_neg hs, if_neg hi, if_pos hst]
      rfl
    · rw [if_pos h₃, answer, if_neg hs, if_neg hi, if_pos hst]
      rfl
  · have hst : ¬m.IsStop := h₃
    refine ⟨s, 0, .refl s, ⟨rfl, rfl⟩, ?_, ?_⟩
    · rw [audioStep, if_neg hs, if_neg hi, if_neg hst]
    · rw [if_neg h₃, answer, if_neg hs, if_neg hi, if_neg hst, if_neg hbad]
      by_cases h₄ : m.header.command = cmdPing
      · rw [if_pos h₄, if_pos h₄]
        rfl
      · rw [if_neg h₄, if_neg h₄]
        by_cases h₅ : m.header.command = cmdDiscover
        · rw [if_pos h₅, if_pos h₅]
          rfl
        · rw [if_neg h₅, if_neg h₅]
          rfl

/-! ### Runs -/

theorem respond_sameAudio (s : Session H) (sequenceId : UInt32) (body : Option Body) :
    SameAudio s (respond E s sequenceId body).1 := by
  cases body with
  | none => exact ⟨rfl, rfl, rfl, rfl⟩
  | some body =>
      rw [respond]
      split_ifs
      · exact ⟨rfl, rfl, rfl, rfl⟩
      · exact queueResponse_sameAudio E s _

theorem SameAudio.audio {s s' : Session H} (h : SameAudio s s') : s'.audio = s.audio := by
  rw [Session.audio, Session.audio, h.arena, h.arenaCurrStart, h.transcodeSession]

theorem handleMessage_audio (s : Session H) (m : Message) :
    (handleMessage E s m).1.audio = audioStep E s.audio m ∧
      (handleMessage E s m).1.closing = s.closing := by
  obtain ⟨s₁, d, hio, -, haudio, h⟩ := handleMessage_eq E s m
  have hr := respond_sameAudio E s₁ m.header.sequenceId (answer E s.numWorkers d s.audio m)
  rw [h]
  exact ⟨hr.audio.trans haudio, hr.closing.trans hio.closing⟩

/-- The server runs the machine, message after message. -/
theorem handleMessages_audio : ∀ (s : Session H) (ms : List Message),
    (handleMessages E s ms).1.audio = audioAfter E s.audio ms ∧
      (handleMessages E s ms).1.closing = s.closing
  | _, [] => ⟨rfl, rfl⟩
  | s, m :: ms => by
      have h := handleMessage_audio E s m
      have ih := handleMessages_audio (handleMessage E s m).1 ms
      rw [h.1, h.2] at ih
      exact ih

theorem acceptSession_audio (clientFd : ℤ) (addr : ℕ) (numWorkers : UInt32) :
    (acceptSession clientFd addr numWorkers : Session H).audio = AudioState.fresh addr := rfl

end MachAudio
