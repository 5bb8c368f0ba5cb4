import Mathlib.Data.List.FinRange
import Mathlib.Logic.Function.Basic
import MachAudio.Protocol
import MachAudio.State
import MachAudio.Arena

/-! # A connection's session and its write records

The `MachSession` of `server.h`, the messages the server sends, and the functions of
`server.c` that hand out, fill and release a `WriteResponse`.

A `WriteResponse *` is a `Slot`: a place in `write_pool`, or a block of the heap named by the
number of the `malloc` call that returned it.  The audio engine, the peer's kind and the
read token of the session are left out, since nothing here reads them. -/

namespace MachAudio

open ByteMem

variable {H Φ : Type}

/-- `MACH_SESSION_ARENA_SIZE`. -/
def machSessionArenaSize : ℕ := 262144
/-- `BUF_SIZE`, the size of one provided receive buffer. -/
def bufSize : ℕ := 16384
/-- `NUM_BUFFERS`. -/
def numBuffers : ℕ := 16384
/-- `sizeof(session->assemble_buf)`. -/
def sizeofAssembleBuf : ℕ := 32768
/-- `MAX_CONCURRENT_WRITES`. -/
def maxConcurrentWrites : ℕ := 32
/-- `MAX_WRITE_PAYLOAD`. -/
def maxWritePayload : ℕ := 8192

/-! ### What the server sends -/

/-- The payload of a message from the server. -/
inductive Body where
  | output (durationNs : UInt64) (vadProb : UInt32) (data : List UInt8)
  | error (errorCode : UInt32)
  | pong
  | discoverReply (numWorkers : UInt32)
deriving DecidableEq, Repr

def Body.command : Body → UInt16
  | output _ _ _ => cmdOutput
  | error _ => cmdError
  | pong => cmdPong
  | discoverReply _ => cmdDiscoverReply

/-- The bytes behind the header: `audio_output_payload`, `audio_error_payload` or
`audio_discover_reply_payload`. -/
def Body.payload : Body → List UInt8
  | output durationNs vadProb data =>
      htobe64 durationNs ++ htonl vadProb ++ List.replicate 4 0 ++ data
  | error errorCode => htonl errorCode
  | pong => []
  | discoverReply numWorkers => htonl numWorkers ++ htonl 0

structure Response where
  sequenceId : UInt32
  body : Body
deriving DecidableEq, Repr

def Response.header (r : Response) : AudioMsgHeader :=
  ⟨audioMagic, audioVersion, r.body.command, r.sequenceId, UInt32.ofNat r.body.payload.length⟩

/-- The message as it is laid out in `wr->data`. -/
def Response.encode (r : Response) : List UInt8 := encodeHeader r.header ++ r.body.payload

/-- `resp_len`. -/
def Response.respLen (r : Response) : ℕ := sizeofHeader + r.body.payload.length

@[simp] theorem Response.length_encode (r : Response) : r.encode.length = r.respLen := by
  rw [encode, List.length_append, length_encodeHeader, respLen]

/-- `sizeof(struct audio_output_payload)`. -/
def sizeofOutputPayload : ℕ := 16

theorem Body.length_payload_output (d : UInt64) (p : UInt32) (data : List UInt8) :
    (Body.output d p data).payload.length = sizeofOutputPayload + data.length := by
  simp only [payload, sizeofOutputPayload, List.length_append, length_htobe64, length_htonl,
    List.length_replicate]

/-- Only an output can be longer than a write record. -/
theorem Response.respLen_le_of_not_output {r : Response}
    (h : ∀ d p data, r.body ≠ .output d p data) : r.respLen ≤ 24 := by
  obtain ⟨seq, body⟩ := r
  cases body with
  | output d p data => exact absurd rfl (h d p data)
  | error c => simp [respLen, Body.payload, sizeofHeader]
  | pong => simp [respLen, Body.payload, sizeofHeader]
  | discoverReply n => simp [respLen, Body.payload, sizeofHeader]

/-! ### The session -/

/-- A write record.  `data` is what was last written at the start of the array. -/
structure WriteResponse where
  len : ℕ
  inUse : Bool
  isDynamic : Bool
  data : List UInt8
deriving DecidableEq, Repr

/-- A `WriteResponse *`. -/
inductive Slot where
  | pool (i : Fin maxConcurrentWrites)
  | dynamic (n : ℕ)
deriving DecidableEq, Repr

/-- A send handed to the kernel: the first `respLen` bytes of the record `wr`.  The message
they hold is kept with it. -/
structure Submission where
  wr : Slot
  fd : ℤ
  response : Response
deriving DecidableEq, Repr

/-- The `MachSession`, with the heap blocks it owns and the number of `malloc` and
`mach_hrtime` calls it has made. -/
structure Session (H : Type) where
  clientFd : ℤ
  arena : Arena
  transcodeSession : TranscodeSession H
  writePool : Fin maxConcurrentWrites → WriteResponse
  heap : ℕ → Option WriteResponse
  arenaCurrStart : ℕ
  numWorkers : UInt32
  pendingWrites : ℤ
  closing : Bool
  recvActive : Bool
  assembleBuf : Mem
  assembleLen : ℕ
  mallocs : ℕ
  hrtimes : ℕ

/-- The session that `IO_OP_ACCEPT` sets up on zeroed memory whose arena lies at `addr`.  Its
receive is armed. -/
def acceptSession (clientFd : ℤ) (addr : ℕ) (numWorkers : UInt32) : Session H where
  clientFd := clientFd
  arena := arenaInit addr (fun _ => 0) machSessionArenaSize
  transcodeSession := .zero
  writePool := fun _ => ⟨0, false, false, []⟩
  heap := fun _ => none
  arenaCurrStart := 0
  numWorkers := numWorkers
  pendingWrites := 0
  closing := false
  recvActive := true
  assembleBuf := fun _ => 0
  assembleLen := 0
  mallocs := 0
  hrtimes := 0

/-! ### Write records -/

/-- The record a pointer leads to. -/
def Session.deref (s : Session H) : Slot → Option WriteResponse
  | .pool i => some (s.writePool i)
  | .dynamic n => s.heap n

/-- Write a record through its pointer. -/
def Session.assign (s : Session H) (wr : WriteResponse) : Slot → Session H
  | .pool i => { s with writePool := Function.update s.writePool i wr }
  | .dynamic n => { s with heap := Function.update s.heap n (some wr) }

/-- `free(wr)`. -/
def Session.release (s : Session H) : Slot → Session H
  | .pool _ => s
  | .dynamic n => { s with heap := Function.update s.heap n none }

/-- `free_write_response`. -/
def freeWriteResponse (s : Session H) (wr : Slot) : Session H :=
  match s.deref wr with
  | none => s
  | some r => if r.isDynamic then s.release wr else s.assign { r with inUse := false } wr

/-- The first record of the pool that is not in use. -/
def Session.freeSlot (s : Session H) : Option (Fin maxConcurrentWrites) :=
  (List.finRange maxConcurrentWrites).find? fun i => !(s.writePool i).inUse

/-- `get_write_response`. -/
def getWriteResponse (E : Env H Φ) (s : Session H) (respLen : ℕ) : Option Slot × Session H :=
  if respLen > maxWritePayload then (none, s)
  else
    match s.freeSlot with
    | some i =>
        (some (.pool i),
          s.assign { s.writePool i with inUse := true, isDynamic := false } (.pool i))
    | none =>
        let n := s.mallocs
        let s := { s with mallocs := n + 1 }
        if E.malloc n then (some (.dynamic n), s.assign ⟨0, true, true, []⟩ (.dynamic n))
        else (none, s)

/-- The assignments to the fields of a record it was given. -/
def Session.fill (s : Session H) (wr : Slot) (r : Response) : Session H :=
  match s.deref wr with
  | none => s
  | some w => s.assign { w with len := r.respLen, data := r.encode } wr

/-- What every sender does with its message: take a record, fill it, hand the send to the
kernel.  `safe_get_sqe` does not return until it has an entry. -/
def queueResponse (E : Env H Φ) (s : Session H) (r : Response) : Session H × List Submission :=
  match getWriteResponse E s r.respLen with
  | (none, s) => (s, [])
  | (some wr, s) =>
      let s := s.fill wr r
      ({ s with pendingWrites := s.pendingWrites + 1 }, [⟨wr, s.clientFd, r⟩])

/-- The ways `queueResponse` can end. -/
inductive QueueOutcome (E : Env H Φ) (s : Session H) (r : Response) :
    Session H × List Submission → Prop
  | tooLong : maxWritePayload < r.respLen → QueueOutcome E s r (s, [])
  | noMemory : r.respLen ≤ maxWritePayload → s.freeSlot = none → E.malloc s.mallocs = false →
      QueueOutcome E s r ({ s with mallocs := s.mallocs + 1 }, [])
  | pooled (i : Fin maxConcurrentWrites) : r.respLen ≤ maxWritePayload → s.freeSlot = some i →
      QueueOutcome E s r
        ({ s with
          writePool := Function.update s.writePool i ⟨r.respLen, true, false, r.encode⟩
          pendingWrites := s.pendingWrites + 1 }, [⟨.pool i, s.clientFd, r⟩])
  | allocated : r.respLen ≤ maxWritePayload → s.freeSlot = none → E.malloc s.mallocs = true →
      QueueOutcome E s r
        ({ s with
          heap := Function.update s.heap s.mallocs (some ⟨r.respLen, true, true, r.encode⟩)
          mallocs := s.mallocs + 1
          pendingWrites := s.pendingWrites + 1 }, [⟨.dynamic s.mallocs, s.clientFd, r⟩])

theorem queueResponse_outcome (E : Env H Φ) (s : Session H) (r : Response) :
    QueueOutcome E s r (queueResponse E s r) := by
  by_cases hlen : r.respLen > maxWritePayload
  · have hg : getWriteResponse E s r.respLen = (none, s) := by rw [getWriteResponse, if_pos hlen]
    rw [queueResponse, hg]
    exact .tooLong hlen
  · cases hf : s.freeSlot with
    | some i =>
        have hg : getWriteResponse E s r.respLen = (some (.pool i),
            s.assign { s.writePool i with inUse := true, isDynamic := false } (.pool i)) := by
          rw [getWriteResponse, if_neg hlen, hf]
        rw [queueResponse, hg]
        simp only [Session.fill, Session.deref, Session.assign, Function.update_self,
          Function.update_idem]
        exact .pooled i (by omega) hf
    | none =>
        cases hm : E.malloc s.mallocs with
        | false =>
            have hg : getWriteResponse E s r.respLen =
                (none, { s with mallocs := s.mallocs + 1 }) := by
              simp only [getWriteResponse, if_neg hlen, hf, hm]
              rfl
            rw [queueResponse, hg]
            exact .noMemory (by omega) hf hm
        | true =>
            have hg : getWriteResponse E s r.respLen = (some (.dynamic s.mallocs),
                Session.assign { s with mallocs := s.mallocs + 1 } ⟨0, true, true, []⟩
                  (.dynamic s.mallocs)) := by
              simp only [getWriteResponse, if_neg hlen, hf, hm]
              rfl
            rw [queueResponse, hg]
            simp only [Session.fill, Session.deref, Session.assign, Function.update_self,
              Function.update_idem]
            exact .allocated (by omega) hf hm

/-- A send carries the message it was made for. -/
theorem queueResponse_response (E : Env H Φ) (s : Session H) (r : Response) :
    ∀ send ∈ (queueResponse E s r).2, send.response = r := by
  have h := queueResponse_outcome E s r
  generalize queueResponse E s r = q at h ⊢
  cases h <;> simp

/-- When `malloc` succeeds, exactly the responses that fit a record are queued. -/
theorem queueResponse_sends {E : Env H Φ} (hmalloc : ∀ n, E.malloc n = true) (s : Session H)
    (r : Response) :
    (queueResponse E s r).2.map Submission.response =
      if r.respLen ≤ maxWritePayload then [r] else [] := by
  have h := queueResponse_outcome E s r
  generalize queueResponse E s r = q at h ⊢
  cases h with
  | tooLong hlen =>
      rw [if_neg (by omega)]
      rfl
  | noMemory _ _ hm => simp [hmalloc] at hm
  | pooled i hlen =>
      rw [if_pos hlen]
      rfl
  | allocated hlen =>
      rw [if_pos hlen]
      rfl

/-- `send_error_uring`. -/
def sendErrorUring (E : Env H Φ) (s : Session H) (sequenceId code : UInt32) :
    Session H × List Submission :=
  if s.closing then (s, []) else queueResponse E s ⟨sequenceId, .error code⟩

end MachAudio
