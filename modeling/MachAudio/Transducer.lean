import MachAudio.Isolation
import MachAudio.Lib.Machine
import MachAudio.Responses
import MachAudio.Restart

/-! # The server as a machine that answers a byte stream

`sessionMachine` says what a connection is for, without reads, buffers, write records or
completions: it takes the messages of a byte stream one by one, moves the audio state, and
answers.  The event loop refines it (`session_answers_stream`): whatever the order in which the
kernel completes what it holds and the server handles it, and however the bytes of the client
are cut into receives, what a session has submitted are the answers of the machine to the
bytes that have arrived, in order.

A session stops answering when it is closing.  Then it has answered the bytes read before, and
if these end in a header that is not valid, an error for it (`farewell`).  An answer is lost
only where there is no memory for its record. -/

namespace MachAudio

open Framing Transition

variable {H Φ : Type} (E : Env H Φ)

/-! ### The machine -/

/-- What a message is answered with, the time left out.  A response that is longer than a write
record is dropped. -/
def reply (numWorkers : UInt32) (a : AudioState H) (m : Message) : List Response :=
  ((answer E numWorkers 0 a m).toList.map fun body =>
    Response.untimed ⟨m.header.sequenceId, body⟩).filter fun r => r.respLen ≤ maxWritePayload

/-- A connection on the level of messages. -/
def sessionMachine (numWorkers : UInt32) : Machine (AudioState H) Message Response where
  next := audioStep E
  emit := reply E numWorkers

theorem sessionMachine_after (numWorkers : UInt32) (a : AudioState H) (ms : List Message) :
    (sessionMachine E numWorkers).after a ms = audioAfter E a ms := rfl

/-- The error that answers a header that is not valid. -/
def farewell (rest : List UInt8) : List Response :=
  if nextMessage rest = .malformed then
    [⟨(protocolDecodeHeader rest).sequenceId, .error errInvalidMagic⟩]
  else []

/-- The answers to the bytes of a client. -/
def streamReplies (numWorkers : UInt32) (a : AudioState H) (bytes : List UInt8) :
    List Response :=
  (sessionMachine E numWorkers).streamOutputs messageFramer a bytes ++
    farewell (messageFramer.split bytes).2

/-! ### Handling messages -/

/-- The responses of some sends, times left out. -/
def untimed (sends : List Submission) : List Response :=
  sends.map fun send => send.response.untimed

/-- Nothing but the expected responses, in their order, and all of them while there is memory. -/
structure Sent (got expected : List Response) : Prop where
  sublist : got.Sublist expected
  all : (∀ n, E.malloc n = true) → got = expected

theorem Sent.append {got expected got' expected' : List Response}
    (h : Sent E got expected) (h' : Sent E got' expected') :
    Sent E (got ++ got') (expected ++ expected') :=
  ⟨h.sublist.append h'.sublist, fun hm => by rw [h.all hm, h'.all hm]⟩

theorem sent_refl (rs : List Response) : Sent E rs rs := ⟨.refl rs, fun _ => rfl⟩

theorem untimed_respLen (r : Response) : r.untimed.respLen = r.respLen := by
  unfold Response.respLen Response.untimed
  rw [Body.length_untimed]

theorem queueResponse_sent (s : Session H) (r : Response) :
    Sent E (untimed (queueResponse E s r).2)
      ([r.untimed].filter fun r => r.respLen ≤ maxWritePayload) := by
  have hf : ([r.untimed].filter fun r => r.respLen ≤ maxWritePayload) =
      if r.respLen ≤ maxWritePayload then [r.untimed] else [] := by
    rw [List.filter_singleton, untimed_respLen]
    exact Bool.cond_decide _ _ _
  have h := queueResponse_outcome E s r
  generalize queueResponse E s r = q at h ⊢
  rw [hf]
  cases h with
  | tooLong hlen =>
      rw [if_neg (by omega)]
      exact sent_refl E []
  | noMemory hlen _ hm =>
      refine ⟨List.nil_sublist _, fun hall => ?_⟩
      rw [hall] at hm
      cases hm
  | pooled i hlen =>
      rw [if_pos hlen]
      exact sent_refl E _
  | allocated hlen =>
      rw [if_pos hlen]
      exact sent_refl E _

theorem answer_map_untimed (numWorkers : UInt32) (d : UInt64) (a : AudioState H) (m : Message) :
    (answer E numWorkers d a m).map Body.untimed =
      (answer E numWorkers 0 a m).map Body.untimed := by
  unfold answer
  split_ifs with h₁ h₂
  · rfl
  · exact congrArg some ((answerInput_untimed E d a m.payload).trans rfl)
  all_goals rfl

/-- An open session answers a message as the machine does. -/
theorem handleMessage_sent {s : Session H} (hopen : s.closing = false) (m : Message) :
    Sent E (untimed (handleMessage E s m).2) (reply E s.numWorkers s.audio m) := by
  obtain ⟨s₁, d, hio, -, -, h⟩ := handleMessage_eq E s m
  have hun := answer_map_untimed E s.numWorkers d s.audio m
  rw [h]
  unfold reply
  cases hb : answer E s.numWorkers d s.audio m with
  | none =>
      rw [hb, Option.map_none] at hun
      rw [Option.map_eq_none_iff.mp hun.symm]
      exact sent_refl E []
  | some body =>
      rw [hb, Option.map_some] at hun
      obtain ⟨body', hb', hbody⟩ := Option.map_eq_some_iff.mp hun.symm
      have hsame : Response.untimed ⟨m.header.sequenceId, body'⟩ =
          Response.untimed ⟨m.header.sequenceId, body⟩ := by
        unfold Response.untimed
        rw [hbody]
      rw [hb', Option.toList_some, List.map_singleton, hsame, respond, hio.closing, hopen,
        if_neg Bool.false_ne_true]
      exact queueResponse_sent E s₁ _

theorem respond_numWorkers (s : Session H) (sequenceId : UInt32) (body : Option Body) :
    (respond E s sequenceId body).1.numWorkers = s.numWorkers := by
  unfold respond
  cases body with
  | none => rfl
  | some body =>
      dsimp only
      split_ifs
      · rfl
      · have h := queueResponse_outcome E s ⟨sequenceId, body⟩
        generalize queueResponse E s ⟨sequenceId, body⟩ = q at h ⊢
        cases h <;> rfl

theorem handleMessage_numWorkers (s : Session H) (m : Message) :
    (handleMessage E s m).1.numWorkers = s.numWorkers := by
  obtain ⟨s₁, d, hio, -, -, h⟩ := handleMessage_eq E s m
  rw [h, respond_numWorkers, hio.numWorkers]

theorem finishLoop_numWorkers (s : Session H) (rest : List UInt8) :
    (finishLoop E s rest).1.numWorkers = s.numWorkers := by
  unfold finishLoop
  cases nextMessage rest with
  | more => rfl
  | frame m n => rfl
  | malformed => exact respond_numWorkers E s _ (some (.error errInvalidMagic))

/-- Messages one after another. -/
theorem handleMessages_sent (ms : List Message) : ∀ {s : Session H}, s.closing = false →
    Sent E (untimed (handleMessages E s ms).2)
        ((sessionMachine E s.numWorkers).outputs s.audio ms) ∧
      (handleMessages E s ms).1.numWorkers = s.numWorkers := by
  induction ms with
  | nil => exact fun _ => ⟨sent_refl E [], rfl⟩
  | cons m ms ih =>
      intro s hopen
      obtain ⟨haudio, hclosing⟩ := handleMessage_audio E s m
      obtain ⟨hrest, hn⟩ := ih (s := (handleMessage E s m).1) (hclosing.trans hopen)
      rw [handleMessage_numWorkers] at hrest hn
      rw [haudio] at hrest
      refine ⟨?_, hn⟩
      unfold handleMessages
      rw [untimed, List.map_append]
      exact (handleMessage_sent E hopen m).append E hrest

/-- The end of the loop answers a header that is not valid. -/
theorem finishLoop_sent {s : Session H} (hopen : s.closing = false) (rest : List UInt8) :
    Sent E (untimed (finishLoop E s rest).2) (farewell rest) := by
  unfold finishLoop farewell
  cases hn : nextMessage rest with
  | malformed =>
      rw [if_pos rfl]
      have h := queueResponse_sent E s
        ⟨(protocolDecodeHeader rest).sequenceId, .error errInvalidMagic⟩
      dsimp only
      unfold sendErrorUring
      rw [hopen, if_neg Bool.false_ne_true]
      exact h
  | more =>
      rw [if_neg (by simp)]
      exact sent_refl E []
  | frame m n =>
      rw [if_neg (by simp)]
      exact sent_refl E []

/-! ### One read -/

/-- A read of an open session: the buffer overflows and the session closes without an answer, or
the messages that are whole are answered, and a header that is not valid behind them. -/
theorem processClientRead_sent {s : Session H} (hopen : s.closing = false)
    (bytes : List UInt8) :
    (processClientRead E s bytes).sends = [] ∧
        (processClientRead E s bytes).session.closing = true ∨
      messageFramer.split (s.pending ++ bytes) =
          ((processClientRead E s bytes).dispatched,
            (processClientRead E s bytes).session.pending) ∧
        Sent E (untimed (processClientRead E s bytes).sends)
          (streamReplies E s.numWorkers s.audio (s.pending ++ bytes)) ∧
        (processClientRead E s bytes).session.numWorkers = s.numWorkers := by
  by_cases hover : s.assembleLen + bytes.length > sizeofAssembleBuf
  · left
    unfold processClientRead
    rw [if_pos hover]
    exact ⟨rfl, rfl⟩
  · right
    have hr := processClientRead_spec E (Nat.le_of_not_lt hover)
    generalize processClientRead E s bytes = r at hr ⊢
    have hsplit : messageFramer.split (s.pending ++ bytes) = (r.dispatched, r.session.pending) :=
      Prod.ext hr.dispatched.symm hr.pending.symm
    obtain ⟨hmsgs, hn⟩ := handleMessages_sent E r.dispatched (s := s.assemble bytes) hopen
    have hclosing : (handleMessages E (s.assemble bytes) r.dispatched).1.closing = false :=
      (handleMessages_audio E (s.assemble bytes) r.dispatched).2.trans hopen
    refine ⟨hsplit, ?_, ?_⟩
    · unfold streamReplies Machine.streamOutputs
      rw [hsplit, hr.sends, untimed, List.map_append]
      exact hmsgs.append E (finishLoop_sent E hclosing r.session.pending)
    · rw [hr.sameIo.numWorkers, finishLoop_numWorkers, hn]
      rfl

/-- A session that is still open has found no header that is not valid. -/
theorem processClientRead_open_farewell {s : Session H} {bytes : List UInt8}
    (h : (processClientRead E s bytes).session.closing = false) :
    farewell (processClientRead E s bytes).session.pending = [] := by
  by_cases hover : s.assembleLen + bytes.length > sizeofAssembleBuf
  · rw [processClientRead, if_pos hover] at h
    cases h
  · have hr := processClientRead_spec E (Nat.le_of_not_lt hover)
    generalize processClientRead E s bytes = r at h hr ⊢
    unfold farewell
    rw [if_neg]
    intro hbad
    have hio := hr.sameIo.closing
    unfold finishLoop at hio
    rw [hbad, h] at hio
    cases hio

/-! ### Connections -/

/-- An open session is where the machine is after all that has arrived. -/
structure Conn.Tracks (numWorkers : UInt32) (addr : ℕ) (c : Conn H) : Prop where
  numWorkers : c.session.numWorkers = numWorkers
  audio : c.session.audio = audioAfter E (AudioState.fresh addr) c.dispatched
  split : messageFramer.split c.arrived = (c.dispatched, c.session.pending)

/-- The session has answered what it has read; while it is open, that is all that has
arrived. -/
def Conn.AnswersStream (numWorkers : UInt32) (addr : ℕ) (c : Conn H) : Prop :=
  ∃ bytes, bytes <+: c.arrived ∧
    Sent E (untimed c.submitted) (streamReplies E numWorkers (AudioState.fresh addr) bytes) ∧
    (c.session.closing = false →
      bytes = c.arrived ∧ farewell c.session.pending = [] ∧ c.Tracks E numWorkers addr)

/-- Nothing arrives and nothing is submitted, and a session that is open afterwards is as it
was. -/
structure Still (c c' : Conn H) : Prop where
  arrived : c'.arrived = c.arrived
  submitted : c'.submitted = c.submitted
  dispatched : c'.dispatched = c.dispatched
  closing : c.session.closing = true → c'.session.closing = true
  numWorkers : c'.session.numWorkers = c.session.numWorkers
  audio : c'.session.closing = false → c'.session.audio = c.session.audio
  pending : c'.session.pending = c.session.pending

theorem Still.trans {c₁ c₂ c₃ : Conn H} (h : Still c₁ c₂) (h' : Still c₂ c₃) : Still c₁ c₃ where
  arrived := h'.arrived.trans h.arrived
  submitted := h'.submitted.trans h.submitted
  dispatched := h'.dispatched.trans h.dispatched
  closing := fun hc => h'.closing (h.closing hc)
  numWorkers := h'.numWorkers.trans h.numWorkers
  audio := fun hopen => by
    rw [h'.audio hopen]
    apply h.audio
    cases hc : c₂.session.closing with
    | false => rfl
    | true =>
        rw [h'.closing hc] at hopen
        cases hopen
  pending := h'.pending.trans h.pending

theorem Still.of_session {c c' : Conn H} (ha : c'.arrived = c.arrived)
    (hs : c'.submitted = c.submitted) (hd : c'.dispatched = c.dispatched)
    (hio : c'.session.closing = c.session.closing)
    (hn : c'.session.numWorkers = c.session.numWorkers)
    (haudio : c'.session.audio = c.session.audio) (hp : c'.session.pending = c.session.pending) :
    Still c c' :=
  ⟨ha, hs, hd, fun h => hio.trans h, hn, fun _ => haudio, hp⟩

theorem Conn.cleanup_still (c : Conn H) : Still c c.cleanup := by
  rw [Conn.cleanup_eq]
  by_cases hend : c.session.closing = true ∧ c.session.pendingWrites = 0
  · have hopen : ∀ s : Session H, s.closing = c.session.closing → s.closing = false → False := by
      intro s hs hf
      rw [hs, hend.1] at hf
      cases hf
    have hfd : ∀ s : Session H, s.closeFd.closing = s.closing ∧
        s.closeFd.numWorkers = s.numWorkers ∧ s.closeFd.pending = s.pending := by
      intro s
      unfold Session.closeFd
      split_ifs <;> exact ⟨rfl, rfl, rfl⟩
    obtain ⟨h₁, h₂, h₃⟩ := hfd c.session
    rw [if_pos hend]
    split_ifs
    · exact ⟨rfl, rfl, rfl, fun h => h₁.trans h, h₂, fun hf => (hopen _ h₁ hf).elim, h₃⟩
    · exact ⟨rfl, rfl, rfl, fun h => h₁.trans h, h₂, fun hf => (hopen _ h₁ hf).elim, h₃⟩
  · rw [if_neg hend]
    exact .of_session rfl rfl rfl rfl rfl rfl rfl

theorem Conn.afterRead_still (c : Conn H) (more : Bool) : Still c (c.afterRead more) := by
  have hrearm : Still c (if !c.session.closing && !more then c.rearm else c) := by
    split_ifs <;> exact .of_session rfl rfl rfl rfl rfl rfl rfl
  rw [Conn.afterRead]
  generalize (if !c.session.closing && !more then c.rearm else c) = c₁ at hrearm ⊢
  split_ifs
  · exact hrearm.trans c₁.cleanup_still
  · exact hrearm

theorem freeWriteResponse_still (s : Session H) (wr : Slot) :
    (freeWriteResponse s wr).numWorkers = s.numWorkers ∧
      (freeWriteResponse s wr).pending = s.pending := by
  unfold freeWriteResponse
  cases s.deref wr with
  | none => exact ⟨rfl, rfl⟩
  | some r =>
      dsimp only
      split_ifs <;> cases wr <;> exact ⟨rfl, rfl⟩

theorem handleSend_still (c : Conn H) (wr : Slot) (res : ℤ) : Still c (handleSend c wr res) := by
  refine Still.trans ?_ (Conn.cleanup_still _)
  have hfree := freeWriteResponse_still
    (if res < 0 then { c.session with
        pendingWrites := c.session.pendingWrites - 1
        closing := true }
      else { c.session with pendingWrites := c.session.pendingWrites - 1 }) wr
  refine ⟨rfl, rfl, rfl, ?_, ?_, ?_, ?_⟩
  · intro hc
    rw [freeWriteResponse_closing]
    split_ifs
    · rfl
    · exact hc
  · refine hfree.1.trans ?_
    split_ifs <;> rfl
  · intro _
    rw [freeWriteResponse_audio]
    split_ifs <;> rfl
  · refine hfree.2.trans ?_
    split_ifs <;> rfl

theorem Conn.AnswersStream.still {numWorkers : UInt32} {addr : ℕ} {c c' : Conn H}
    (h : c.AnswersStream E numWorkers addr) (hs : Still c c') :
    c'.AnswersStream E numWorkers addr := by
  obtain ⟨bytes, hpre, hsent, hopen⟩ := h
  refine ⟨bytes, by rwa [hs.arrived], by rwa [hs.submitted], fun hc' => ?_⟩
  have hc : c.session.closing = false := by
    cases hc : c.session.closing with
    | false => rfl
    | true =>
        rw [hs.closing hc] at hc'
        cases hc'
  obtain ⟨hall, hfare, hn, ha, hsplit⟩ := hopen hc
  refine ⟨hall.trans hs.arrived.symm, by rw [hs.pending, hfare], ?_, ?_, ?_⟩
  · exact hs.numWorkers.trans hn
  · rw [hs.audio hc', ha, hs.dispatched]
  · rw [hs.arrived, hs.dispatched, hs.pending, hsplit]

/-- A read answers what it adds to the stream. -/
theorem Conn.AnswersStream.read {numWorkers : UInt32} {addr : ℕ} {c : Conn H}
    (h : c.AnswersStream E numWorkers addr) (bytes : List UInt8) :
    (c.read E bytes).AnswersStream E numWorkers addr := by
  obtain ⟨before, hpre, hsent, hopen⟩ := h
  have hgrow : c.arrived <+: (c.read E bytes).arrived := List.prefix_append _ _
  have hnone : (processClientRead E c.session bytes).sends = [] →
      (processClientRead E c.session bytes).session.closing = true →
      (c.read E bytes).AnswersStream E numWorkers addr := by
    intro hsends hclosing
    refine ⟨before, hpre.trans hgrow, ?_, fun hc => ?_⟩
    · have hsame : (c.read E bytes).submitted = c.submitted := by
        unfold Conn.read
        dsimp only
        rw [hsends, List.append_nil]
      rwa [hsame]
    · have hc' : (processClientRead E c.session bytes).session.closing = false := hc
      rw [hclosing] at hc'
      cases hc'
  cases hc : c.session.closing with
  | true =>
      obtain ⟨hclosing, hsends⟩ := (processClientRead_counters E c.session bytes).closing hc
      exact hnone hsends hclosing
  | false =>
      obtain ⟨rfl, hfare, hn, haudio, hsplit⟩ := hopen hc
      rcases processClientRead_sent E hc bytes with ⟨hsends, hclosing⟩ | ⟨hread, hnew, hn'⟩
      · exact hnone hsends hclosing
      · have hfeed : messageFramer.split (c.arrived ++ bytes) =
            (c.dispatched ++ (processClientRead E c.session bytes).dispatched,
              (processClientRead E c.session bytes).session.pending) := by
          rw [messageFramer.split_append, hsplit, hread]
        refine ⟨c.arrived ++ bytes, List.prefix_rfl, ?_, fun hopen' => ⟨rfl, ?_, ?_, ?_, hfeed⟩⟩
        · -- the answers so far, without a farewell, and those of the read
          have hold : streamReplies E numWorkers (AudioState.fresh addr) c.arrived =
              (sessionMachine E numWorkers).streamOutputs messageFramer (AudioState.fresh addr)
                c.arrived := by
            unfold streamReplies
            rw [hsplit, hfare, List.append_nil]
          have hboth : streamReplies E numWorkers (AudioState.fresh addr) (c.arrived ++ bytes) =
              streamReplies E numWorkers (AudioState.fresh addr) c.arrived ++
                streamReplies E c.session.numWorkers c.session.audio
                  (c.session.pending ++ bytes) := by
            rw [hold]
            unfold streamReplies
            rw [Machine.streamOutputs_append, hsplit, sessionMachine_after, ← haudio, hn,
              List.append_assoc, hfeed, hread]
          rw [hboth]
          have hsub : untimed (c.read E bytes).submitted =
              untimed c.submitted ++ untimed (processClientRead E c.session bytes).sends :=
            List.map_append
          rw [hsub]
          exact hsent.append E hnew
        · exact processClientRead_open_farewell E hopen'
        · exact hn'.trans hn
        · obtain ⟨-, ha, -⟩ := processClientRead_open E hopen'
          show (processClientRead E c.session bytes).session.audio = _
          rw [ha, haudio, ← audioAfter_append]
          rfl

theorem answersStream_step {numWorkers : UInt32} {addr : ℕ} {c c' : Conn H} {e : ConnEvent}
    (h : c.AnswersStream E numWorkers addr) (hs : c.step E e = some c') :
    c'.AnswersStream E numWorkers addr := by
  cases Conn.step_move hs with
  | recv _ _ _ => exact h.still E (.of_session rfl rfl rfl rfl rfl rfl rfl)
  | complete _ _ => exact h.still E (.of_session rfl rfl rfl rfl rfl rfl rfl)
  | @handleSend wr res cq hcq =>
      have htake : Still c { c with cq := cq } := .of_session rfl rfl rfl rfl rfl rfl rfl
      exact h.still E (htake.trans (handleSend_still { c with cq := cq } wr res))
  | @handleRecv res more buffer cq hcq =>
      have hnote : Still c (Conn.noteMore { c with cq := cq } more) := by
        unfold Conn.noteMore
        split_ifs <;> exact .of_session rfl rfl rfl rfl rfl rfl rfl
      have h₁ := h.still E hnote
      rw [handleRecv]
      generalize Conn.noteMore { c with cq := cq } more = c₁ at h₁ ⊢
      have hmark : Still c₁ c₁.markClosing :=
        ⟨rfl, rfl, rfl, fun _ => rfl, rfl, fun _ => rfl, rfl⟩
      split_ifs
      · exact h₁.still E (.of_session rfl rfl rfl rfl rfl rfl rfl)
      · exact h₁.still E (hmark.trans c₁.markClosing.cleanup_still)
      · cases buffer with
        | none => exact h₁.still E (c₁.afterRead_still more)
        | some b => exact (h₁.read E b.2).still E (Conn.afterRead_still _ more)

theorem answersStream_run {clientFd : ℤ} {addr : ℕ} {numWorkers : UInt32} {es : List ConnEvent}
    {c : Conn H} (h : Reaches (Conn.step E) (Conn.accept clientFd addr numWorkers) es c) :
    c.AnswersStream E numWorkers addr := by
  refine h.invariant (I := fun c => c.AnswersStream E numWorkers addr) ?_
    fun c e c' hc _ hs => answersStream_step E hc hs
  have hnil : messageFramer.split ([] : List UInt8) = ([], []) := rfl
  refine ⟨[], List.prefix_rfl, sent_refl E _, fun _ => ⟨rfl, rfl, rfl, rfl, hnil⟩⟩

/-- **The event loop answers the byte streams of its clients.**  In every state it can reach,
what a session has submitted are answers of the machine to the bytes it has read, in order, and
all of them while there is memory for records.  An open session has read all that has arrived,
and it keeps what is not a whole message yet. -/
theorem session_answers_stream {numWorkers : UInt32} {es : List WorldEvent} {w : World H}
    (h : Reaches (worldStep E numWorkers) World.start es w) {i : ℕ} {c : Conn H}
    (hc : w.conns[i]? = some c) :
    ∃ clientFd addr bytes, (accepted es)[i]? = some (clientFd, addr) ∧ bytes <+: c.arrived ∧
      (untimed c.submitted).Sublist (streamReplies E numWorkers (AudioState.fresh addr) bytes) ∧
      ((∀ n, E.malloc n = true) →
        untimed c.submitted = streamReplies E numWorkers (AudioState.fresh addr) bytes) ∧
      (c.session.closing = false → bytes = c.arrived ∧
        c.session.pending = (messageFramer.split c.arrived).2 ∧
        c.session.audio =
          audioAfter E (AudioState.fresh addr) (messageFramer.split c.arrived).1) := by
  have halone := (conns_alone h).conns i
  rw [hc] at halone
  obtain ⟨⟨clientFd, addr⟩, hacc, hrun⟩ := Option.bind_eq_some_iff.mp halone.symm
  obtain ⟨bytes, hpre, hsent, hopen⟩ := answersStream_run E (reaches_of_run hrun)
  refine ⟨clientFd, addr, bytes, hacc, hpre, hsent.sublist, hsent.all, fun hcl => ?_⟩
  obtain ⟨hall, -, -, haudio, hsplit⟩ := hopen hcl
  rw [hsplit]
  exact ⟨hall, rfl, haudio⟩

/-- Two clients, whose bytes come in turns. -/
def turnsRun : List WorldEvent :=
  [.accept 5 (some 0), .accept 6 (some 4096),
    .conn 0 (.recv 7 true (some (0, (pingMessage 7).encode.take 7))),
    .conn 1 (.recv 16 true (some (1, (pingMessage 8).encode))), .conn 0 .handle,
    .conn 0 (.recv 9 true (some (2, (pingMessage 7).encode.drop 7))), .conn 1 .handle,
    .conn 0 .handle]

/-- Each of them is answered. -/
theorem session_answers_stream_turns :
    ∃ w c, Reaches (worldStep Env.plain 1) World.start turnsRun w ∧ w.conns[0]? = some c ∧
      untimed c.submitted = [⟨7, .pong⟩] := by
  have hfacts : ((run (worldStep Env.plain 1) World.start turnsRun).bind
      fun w => w.conns[0]?).map (fun c => (c.session.closing, c.arrived)) =
        some (false, (pingMessage 7).encode) := by
    decide +kernel
  obtain ⟨c, hwc, hcfacts⟩ := Option.map_eq_some_iff.mp hfacts
  obtain ⟨w, hw, hc⟩ := Option.bind_eq_some_iff.mp hwc
  obtain ⟨hopen, harrived⟩ := Prod.ext_iff.mp hcfacts
  obtain ⟨clientFd, addr, bytes, hacc, -, -, hall, hread⟩ :=
    session_answers_stream Env.plain (reaches_of_run hw) hc
  obtain ⟨rfl, rfl⟩ : 5 = clientFd ∧ 0 = addr := by simpa [accepted, turnsRun] using hacc
  refine ⟨w, c, reaches_of_run hw, hc, ?_⟩
  rw [hall fun _ => rfl, (hread hopen).1]
  refine (congrArg _ harrived).trans ?_
  decide +kernel

end MachAudio
