import MachAudio.Session
import MachAudio.Transcode

/-! # Reading from a connection

`process_client_read` and `cleanup_session_if_needed` of `server.c`.  The `switch` of
`process_client_read` is `handleMessage`, its `while` loop `dispatchLoop`; both also return
what they have handed to the kernel, and the loop returns the messages it has dispatched. -/

namespace MachAudio

open ByteMem

variable {H Φ : Type} (E : Env H Φ)

/-- A message as it is dispatched: its decoded header and its payload. -/
structure Message where
  header : AudioMsgHeader
  payload : List UInt8
deriving DecidableEq, Repr

/-! ### The commands -/

/-- `CMD_START` with a payload that is long enough: the result of `transcode_session_init` is
not looked at. -/
def startSession (s : Session H) (payload : List UInt8) : Session H :=
  let session := (transcodeSessionInit E (decodeStartPayload payload)).2
  if session.vadEnabled then
    let vad := vadGruInit (arenaReset s.arena)
    { s with
      transcodeSession := { session with vadState := vad.1.map fun _ => E.vadReset }
      arena := vad.2
      arenaCurrStart := vad.2.curr }
  else
    { s with
      transcodeSession := session
      arena := arenaReset s.arena
      arenaCurrStart := 0 }

def handleStart (s : Session H) (m : Message) : Session H × List Submission :=
  if m.payload.length < sizeofStartPayload then
    sendErrorUring E s m.header.sequenceId errInvalidPayload
  else (startSession E s m.payload, [])

/-- The call of `audio_process_transcode` between the two readings of the clock: its result,
the session after it and `duration_ns`. -/
def transcodeInput (s : Session H) (payload : List UInt8) : ℤ × Session H × UInt64 :=
  let r := audioProcessTranscode E payload
    ⟨s.transcodeSession, { s.arena with curr := s.arenaCurrStart }, []⟩
  (r.1,
    { s with
      transcodeSession := r.2.session
      arena := r.2.arena
      hrtimes := s.hrtimes + 2 },
    E.hrtime (s.hrtimes + 1) - E.hrtime s.hrtimes)

def handleInput (s : Session H) (m : Message) : Session H × List Submission :=
  if m.payload.length < sizeofInputPayload then
    sendErrorUring E s m.header.sequenceId errInvalidPayload
  else
    let t := transcodeInput E s m.payload
    let s := t.2.1
    if t.1 = 0 then
      let outDataLen := s.arena.curr - s.arenaCurrStart
      if s.closing then (s, [])
      else
        let q := queueResponse E s
          ⟨m.header.sequenceId, .output t.2.2 s.transcodeSession.lastVadProb
            (s.arena.buf.load s.arenaCurrStart outDataLen)⟩
        ({ q.1 with arena := { q.1.arena with curr := q.1.arenaCurrStart } }, q.2)
    else sendErrorUring E s m.header.sequenceId errProcessingFailed

def handlePing (s : Session H) (m : Message) : Session H × List Submission :=
  if s.closing then (s, []) else queueResponse E s ⟨m.header.sequenceId, .pong⟩

def handleDiscover (s : Session H) (m : Message) : Session H × List Submission :=
  if s.closing then (s, [])
  else queueResponse E s ⟨m.header.sequenceId, .discoverReply s.numWorkers⟩

/-- The `switch` on `decoded.command`. -/
def handleMessage (s : Session H) (m : Message) : Session H × List Submission :=
  if m.header.command = cmdStart then handleStart E s m
  else if m.header.command = cmdInput then handleInput E s m
  else if m.header.command = cmdStop then
    ({ s with transcodeSession := transcodeSessionStop s.transcodeSession }, [])
  else if m.header.command = cmdPing then handlePing E s m
  else if m.header.command = cmdDiscover then handleDiscover E s m
  else sendErrorUring E s m.header.sequenceId errInvalidCommand

/-- Messages handled one after another. -/
def handleMessages : Session H → List Message → Session H × List Submission
  | s, [] => (s, [])
  | s, m :: ms =>
      let r := handleMessage E s m
      let rest := handleMessages r.1 ms
      (rest.1, r.2 ++ rest.2)

/-! ### The loop over the assembled bytes -/

/-- What a loop or a read has done: the session, the messages dispatched and the sends. -/
structure Served (H : Type) where
  session : Session H
  dispatched : List Message
  sends : List Submission

/-- What the loop finds at `offset` of the first `assemble_len` bytes. -/
inductive Found where
  | nothing
  | badHeader (sequenceId : UInt32)
  | message (m : Message)
deriving DecidableEq, Repr

def findMessage (s : Session H) (offset : ℕ) : Found :=
  if s.assembleLen - offset < sizeofHeader then .nothing
  else
    let decoded := protocolDecodeHeader (s.assembleBuf.load offset sizeofHeader)
    if !protocolValidateHeader decoded then .badHeader decoded.sequenceId
    else if s.assembleLen - offset < sizeofHeader + decoded.payloadLen.toNat then .nothing
    else
      .message
        ⟨decoded, s.assembleBuf.load (offset + sizeofHeader) decoded.payloadLen.toNat⟩

/-- The `while` loop with at most `n` turns: what it has done, and the final `offset`.  Every
turn but the last takes at least a header, so `assemble_len + 1` turns are enough. -/
def dispatchLoop : ℕ → Session H → ℕ → Served H × ℕ
  | 0, s, offset => (⟨s, [], []⟩, offset)
  | n + 1, s, offset =>
      match findMessage s offset with
      | .nothing => (⟨s, [], []⟩, offset)
      | .badHeader sequenceId =>
          let r := sendErrorUring E s sequenceId errInvalidMagic
          (⟨{ r.1 with closing := true }, [], r.2⟩, offset)
      | .message m =>
          let r := handleMessage E s m
          let rest := dispatchLoop n r.1 (offset + (sizeofHeader + m.header.payloadLen.toNat))
          (⟨rest.1.session, m :: rest.1.dispatched, r.2 ++ rest.1.sends⟩, rest.2)

/-- The bytes behind `offset` moved to the start of the buffer. -/
def compact (s : Session H) (offset : ℕ) : Session H :=
  if offset > 0 ∧ offset < s.assembleLen then
    { s with
      assembleBuf := s.assembleBuf.store 0 (s.assembleBuf.load offset (s.assembleLen - offset))
      assembleLen := s.assembleLen - offset }
  else if offset = s.assembleLen then { s with assembleLen := 0 }
  else s

/-- `process_client_read` on the bytes of a receive.  The receive buffer goes back to the ring
at the end of every path; that is left to the caller. -/
def processClientRead (s : Session H) (bytes : List UInt8) : Served H :=
  if s.assembleLen + bytes.length > sizeofAssembleBuf then
    ⟨{ s with closing := true }, [], []⟩
  else
    let s :=
      { s with
        assembleBuf := s.assembleBuf.store s.assembleLen bytes
        assembleLen := s.assembleLen + bytes.length }
    let r := dispatchLoop E (s.assembleLen + 1) s 0
    { r.1 with session := compact r.1.session r.2 }

/-! ### The end of a session -/

/-- `cleanup_session_if_needed`: the session, whether its socket was closed and whether the
session was freed. -/
def cleanupSessionIfNeeded (s : Session H) : Session H × Bool × Bool :=
  if s.closing && s.pendingWrites == 0 then
    let closed := s.clientFd != -1
    let s := if closed then { s with clientFd := -1 } else s
    if !s.recvActive then
      ({ s with transcodeSession := transcodeSessionStop s.transcodeSession }, closed, true)
    else (s, closed, false)
  else (s, false, false)

end MachAudio
