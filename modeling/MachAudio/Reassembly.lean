import MachAudio.Audio
import MachAudio.Lib.Framing

/-! # Reassembly of the byte stream

`nextMessage` says what the start of a byte stream holds, in the protocol's terms: it makes
byte streams of messages an instance of `Framing.Framer`, whose `split` is the reference
split of a stream.

The loop of `process_client_read` takes exactly the frames of the assembled bytes
(`dispatchLoop_eq`), and the compaction leaves exactly the remainder (`processClientRead_eq`).
With the streaming law of the library, a sequence of reads dispatches the messages of the
whole stream, however it was cut (`readAll_eq_split`). -/

namespace MachAudio

open ByteMem Framing

variable {H Φ : Type} (E : Env H Φ)

/-! ### The reference -/

/-- What the start of a stream holds for a reader that goes on with the headers `valid`. -/
def nextOf (valid : AudioMsgHeader → Bool) (bs : List UInt8) : Next Message :=
  if bs.length < sizeofHeader then .more
  else
    let decoded := protocolDecodeHeader bs
    if valid decoded = false then .malformed
    else if bs.length < sizeofHeader + decoded.payloadLen.toNat then .more
    else
      .frame ⟨decoded, (bs.drop sizeofHeader).take decoded.payloadLen.toNat⟩
        (sizeofHeader + decoded.payloadLen.toNat)

section
variable {valid : AudioMsgHeader → Bool}

theorem nextOf_eq_malformed {bs : List UInt8} (h : nextOf valid bs = .malformed) :
    sizeofHeader ≤ bs.length ∧ valid (protocolDecodeHeader bs) = false := by
  simp only [nextOf] at h
  split_ifs at h with h₁ h₂
  exact ⟨by omega, h₂⟩

theorem nextOf_eq_frame {bs : List UInt8} {m : Message} {n : ℕ}
    (h : nextOf valid bs = .frame m n) :
    valid (protocolDecodeHeader bs) = true ∧
      m = ⟨protocolDecodeHeader bs, (bs.drop sizeofHeader).take m.header.payloadLen.toNat⟩ ∧
      n = sizeofHeader + m.header.payloadLen.toNat ∧ n ≤ bs.length := by
  simp only [nextOf] at h
  split_ifs at h with h₁ h₂ h₃
  obtain ⟨rfl, rfl⟩ := Next.frame.inj h
  exact ⟨by simpa using h₂, rfl, rfl, by omega⟩

theorem nextOf_of_frame {bs : List UInt8} (hv : valid (protocolDecodeHeader bs) = true)
    (hlen : sizeofHeader + (protocolDecodeHeader bs).payloadLen.toNat ≤ bs.length) :
    nextOf valid bs =
      .frame ⟨protocolDecodeHeader bs,
          (bs.drop sizeofHeader).take (protocolDecodeHeader bs).payloadLen.toNat⟩
        (sizeofHeader + (protocolDecodeHeader bs).payloadLen.toNat) := by
  simp only [nextOf]
  rw [if_neg (by omega), if_neg (by simp [hv]), if_neg (by omega)]

end

theorem nextOf_frame_pos (valid : AudioMsgHeader → Bool) {l : List UInt8} {m : Message} {n : ℕ}
    (h : nextOf valid l = .frame m n) : 0 < n ∧ n ≤ l.length := by
  obtain ⟨-, -, hn, hle⟩ := nextOf_eq_frame h
  rw [hn] at hle ⊢
  exact ⟨by simp only [sizeofHeader]; omega, hle⟩

/-- A whole frame does not depend on what follows it. -/
theorem nextOf_frame_append (valid : AudioMsgHeader → Bool) {l : List UInt8} {m : Message} {n : ℕ}
    (r : List UInt8) (h : nextOf valid l = .frame m n) : nextOf valid (l ++ r) = .frame m n := by
  obtain ⟨hv, hm, hn, hle⟩ := nextOf_eq_frame h
  have hd : protocolDecodeHeader l = m.header := (congrArg Message.header hm).symm
  have hdec := protocolDecodeHeader_append r (show sizeofHeader ≤ l.length by omega)
  have htake : ((l ++ r).drop sizeofHeader).take m.header.payloadLen.toNat =
      (l.drop sizeofHeader).take m.header.payloadLen.toNat := by
    rw [List.drop_append_of_le_length (by omega), List.take_append_of_le_length]
    rw [List.length_drop]
    omega
  rw [nextOf_of_frame (by rw [hdec]; exact hv)
    (by rw [hdec, hd, List.length_append]; omega), hdec, hd, htake]
  conv_rhs => rw [hm, hn]
  rw [hd]

theorem nextOf_malformed_append (valid : AudioMsgHeader → Bool) {l : List UInt8} (r : List UInt8)
    (h : nextOf valid l = .malformed) : nextOf valid (l ++ r) = .malformed := by
  obtain ⟨hlen, hv⟩ := nextOf_eq_malformed h
  have hdec := protocolDecodeHeader_append r hlen
  simp only [nextOf]
  rw [if_neg (by rw [List.length_append]; omega), if_pos (by rw [hdec]; exact hv)]

/-- Streams of messages, for a reader that goes on with the headers `valid`. -/
def framerOf (valid : AudioMsgHeader → Bool) : Framer UInt8 Message where
  next := nextOf valid
  frame_pos := nextOf_frame_pos valid
  frame_append := nextOf_frame_append valid
  malformed_append := nextOf_malformed_append valid

/-- What the start of a stream holds. -/
def nextMessage (bs : List UInt8) : Next Message :=
  if bs.length < sizeofHeader then .more
  else
    let decoded := protocolDecodeHeader bs
    if protocolValidateHeader decoded = false then .malformed
    else if bs.length < sizeofHeader + decoded.payloadLen.toNat then .more
    else
      .frame ⟨decoded, (bs.drop sizeofHeader).take decoded.payloadLen.toNat⟩
        (sizeofHeader + decoded.payloadLen.toNat)

theorem nextMessage_eq (bs : List UInt8) :
    nextMessage bs = nextOf protocolValidateHeader bs := rfl

theorem nextMessage_eq_frame {bs : List UInt8} {m : Message} {n : ℕ}
    (h : nextMessage bs = .frame m n) :
    protocolValidateHeader (protocolDecodeHeader bs) = true ∧
      m = ⟨protocolDecodeHeader bs, (bs.drop sizeofHeader).take m.header.payloadLen.toNat⟩ ∧
      n = sizeofHeader + m.header.payloadLen.toNat ∧ n ≤ bs.length := by
  rw [nextMessage_eq] at h
  exact nextOf_eq_frame h

theorem nextMessage_of_frame {bs : List UInt8}
    (hv : protocolValidateHeader (protocolDecodeHeader bs) = true)
    (hlen : sizeofHeader + (protocolDecodeHeader bs).payloadLen.toNat ≤ bs.length) :
    nextMessage bs =
      .frame ⟨protocolDecodeHeader bs,
          (bs.drop sizeofHeader).take (protocolDecodeHeader bs).payloadLen.toNat⟩
        (sizeofHeader + (protocolDecodeHeader bs).payloadLen.toNat) := by
  rw [nextMessage_eq, nextOf_of_frame hv hlen]

/-- Streams of messages. -/
def messageFramer : Framer UInt8 Message where
  next := nextMessage
  frame_pos := (framerOf protocolValidateHeader).frame_pos
  frame_append := (framerOf protocolValidateHeader).frame_append
  malformed_append := (framerOf protocolValidateHeader).malformed_append

/-! ### The loop -/

/-- The bytes assembled and not yet consumed. -/
def Session.pending (s : Session H) : List UInt8 := s.assembleBuf.load 0 s.assembleLen

@[simp] theorem Session.length_pending (s : Session H) : s.pending.length = s.assembleLen := by
  simp [pending]

theorem SameAssembly.pending {s s' : Session H} (h : SameAssembly s s') :
    s'.pending = s.pending := by
  rw [Session.pending, Session.pending, h.assembleBuf, h.assembleLen]

theorem queueResponse_sameAssembly (s : Session H) (r : Response) :
    SameAssembly s (queueResponse E s r).1 := by
  have h := queueResponse_outcome E s r
  generalize queueResponse E s r = q at h ⊢
  cases h <;> exact ⟨rfl, rfl⟩

theorem respond_sameAssembly (s : Session H) (sequenceId : UInt32) (body : Option Body) :
    SameAssembly s (respond E s sequenceId body).1 := by
  cases body with
  | none => exact ⟨rfl, rfl⟩
  | some body =>
      simp only [respond]
      split_ifs
      · exact ⟨rfl, rfl⟩
      · exact queueResponse_sameAssembly E s _

theorem handleMessage_sameAssembly (s : Session H) (m : Message) :
    SameAssembly s (handleMessage E s m).1 := by
  obtain ⟨s₁, d, -, has, -, h⟩ := handleMessage_eq E s m
  rw [h]
  exact has.trans (respond_sameAssembly E s₁ _ _)

/-- What the loop finds at an offset is what the stream from there on holds. -/
theorem findMessage_eq (s : Session H) {offset : ℕ} (h : offset ≤ s.assembleLen) :
    findMessage s offset =
      match nextMessage (s.pending.drop offset) with
      | .more => .nothing
      | .malformed => .badHeader (protocolDecodeHeader (s.pending.drop offset)).sequenceId
      | .frame m _ => .message m := by
  have hlen : (s.pending.drop offset).length = s.assembleLen - offset := by simp
  by_cases h₁ : s.assembleLen - offset < sizeofHeader
  · simp only [findMessage, nextMessage, hlen, if_pos h₁]
  · have hload : s.pending.drop offset = s.assembleBuf.load offset (s.assembleLen - offset) := by
      rw [Session.pending, drop_load _ _ _ _ h, Nat.zero_add]
    have hhead : protocolDecodeHeader (s.assembleBuf.load offset sizeofHeader) =
        protocolDecodeHeader (s.pending.drop offset) := by
      rw [hload, ← protocolDecodeHeader_take, ← protocolDecodeHeader_take (s.assembleBuf.load offset
        (s.assembleLen - offset)), take_load, take_load, Nat.min_self, Nat.min_eq_left (by omega)]
    simp only [findMessage, nextMessage, hlen, if_neg h₁, hhead, Bool.not_eq_true']
    by_cases h₂ : protocolValidateHeader (protocolDecodeHeader (s.pending.drop offset)) = false
    · rw [if_pos h₂, if_pos h₂]
    · rw [if_neg h₂, if_neg h₂]
      split_ifs with h₃
      · rfl
      · have hpay : s.assembleBuf.load (offset + sizeofHeader)
            (protocolDecodeHeader (s.pending.drop offset)).payloadLen.toNat =
            ((s.pending.drop offset).drop sizeofHeader).take
              (protocolDecodeHeader (s.pending.drop offset)).payloadLen.toNat := by
          conv_rhs => rw [hload, drop_load _ _ _ _ (by omega), take_load]
          rw [← hload, Nat.min_eq_left (by omega)]
        simp only [hpay]

/-- What the loop does when no message is left: an invalid header is reported and ends the
session. -/
def finishLoop (s : Session H) (rest : List UInt8) : Session H × List Submission :=
  match nextMessage rest with
  | .malformed =>
      let r := sendErrorUring E s (protocolDecodeHeader rest).sequenceId errInvalidMagic
      ({ r.1 with closing := true }, r.2)
  | _ => (s, [])

theorem finishLoop_sameAssembly (s : Session H) (rest : List UInt8) :
    SameAssembly s (finishLoop E s rest).1 := by
  rw [finishLoop]
  split
  · have h := respond_sameAssembly E s (protocolDecodeHeader rest).sequenceId
      (some (.error errInvalidMagic))
    exact ⟨h.1, h.2⟩
  · exact ⟨rfl, rfl⟩

/-- **The loop takes the frames of the assembled bytes**, handles them in order, and stops at
the remainder. -/
theorem dispatchLoop_eq : ∀ (n : ℕ) (s : Session H) (offset : ℕ), offset ≤ s.assembleLen →
    s.assembleLen - offset < n →
    dispatchLoop E n s offset =
      (⟨(finishLoop E (handleMessages E s (messageFramer.split (s.pending.drop offset)).1).1
            (messageFramer.split (s.pending.drop offset)).2).1,
          (messageFramer.split (s.pending.drop offset)).1,
          (handleMessages E s (messageFramer.split (s.pending.drop offset)).1).2 ++
            (finishLoop E (handleMessages E s (messageFramer.split (s.pending.drop offset)).1).1
              (messageFramer.split (s.pending.drop offset)).2).2⟩,
        s.assembleLen - (messageFramer.split (s.pending.drop offset)).2.length)
  | 0, _, _, _, h => by omega
  | n + 1, s, offset, hle, hn => by
      rw [dispatchLoop, findMessage_eq s hle]
      have hlen : (s.pending.drop offset).length = s.assembleLen - offset := by simp
      cases hnext : nextMessage (s.pending.drop offset) with
      | more =>
          have hsplit := messageFramer.split_of_not_frame (l := s.pending.drop offset)
            (fun b k => by show nextMessage _ ≠ _; simp [hnext])
          rw [hsplit]
          simp only [handleMessages, finishLoop, hnext, hlen, List.append_nil]
          rw [show s.assembleLen - (s.assembleLen - offset) = offset by omega]
      | malformed =>
          have hsplit := messageFramer.split_of_not_frame (l := s.pending.drop offset)
            (fun b k => by show nextMessage _ ≠ _; simp [hnext])
          rw [hsplit]
          simp only [handleMessages, finishLoop, hnext, hlen, List.nil_append]
          rw [show s.assembleLen - (s.assembleLen - offset) = offset by omega]
      | frame m k =>
          obtain ⟨-, -, hk, hkle⟩ := nextMessage_eq_frame hnext
          have hsame := handleMessage_sameAssembly E s m
          have hdrop : (s.pending.drop offset).drop k =
              (handleMessage E s m).1.pending.drop (offset + k) := by
            rw [List.drop_drop, hsame.pending]
          have hkpos : 0 < k := by rw [hk, sizeofHeader]; omega
          rw [messageFramer.split_of_frame hnext, hdrop]
          simp only [handleMessages]
          rw [← hk, dispatchLoop_eq n (handleMessage E s m).1 (offset + k)
            (by rw [hsame.assembleLen]; omega) (by rw [hsame.assembleLen]; omega),
            hsame.assembleLen]
          simp only [List.append_assoc]

theorem handleMessages_sameAssembly : ∀ (s : Session H) (ms : List Message),
    SameAssembly s (handleMessages E s ms).1
  | _, [] => ⟨rfl, rfl⟩
  | s, m :: ms =>
      (handleMessage_sameAssembly E s m).trans
        (handleMessages_sameAssembly (handleMessage E s m).1 ms)

/-! ### One read -/

/-- The session with the bytes of a read behind the assembled ones. -/
def Session.assemble (s : Session H) (bytes : List UInt8) : Session H :=
  { s with
    assembleBuf := s.assembleBuf.store s.assembleLen bytes
    assembleLen := s.assembleLen + bytes.length }

theorem Session.pending_assemble (s : Session H) (bytes : List UInt8) :
    (s.assemble bytes).pending = s.pending ++ bytes := by
  have h₁ : (s.assembleBuf.store s.assembleLen bytes).load 0 s.assembleLen =
      s.assembleBuf.load 0 s.assembleLen :=
    load_store_disjoint s.assembleBuf bytes (.inl (by omega))
  have h₂ := load_store_same s.assembleBuf s.assembleLen bytes
  simp only [pending, assemble, load_add, Nat.zero_add, h₁, h₂]

/-- Compaction keeps the bytes behind the offset and changes nothing else. -/
theorem pending_compact (s : Session H) {offset : ℕ} (h : offset ≤ s.assembleLen) :
    (compact s offset).pending = s.pending.drop offset := by
  rw [Session.pending, Session.pending, drop_load _ _ _ _ h, Nat.zero_add]
  simp only [compact]
  split_ifs with h₁ h₂
  · have hsame := load_store_same s.assembleBuf 0
      (s.assembleBuf.load offset (s.assembleLen - offset))
    rwa [length_load] at hsame
  · simp [h₂]
  · have h0 : offset = 0 := by omega
    simp [h0]

theorem compact_sameIo (s : Session H) (offset : ℕ) : SameIo s (compact s offset) := by
  rw [compact]
  split_ifs <;> exact ⟨rfl, rfl, rfl, rfl, rfl, rfl, rfl, rfl⟩

theorem compact_audio (s : Session H) (offset : ℕ) : (compact s offset).audio = s.audio := by
  rw [compact]
  split_ifs <;> rfl

/-- A read that the overflow check lets pass: the messages are the frames of the assembled
bytes, they are handled in order, and the remainder stays. -/
structure ReadSpec (s : Session H) (bytes : List UInt8) (r : Served H) : Prop where
  dispatched : r.dispatched = (messageFramer.split (s.pending ++ bytes)).1
  pending : r.session.pending = (messageFramer.split (s.pending ++ bytes)).2
  sends : r.sends =
    (handleMessages E (s.assemble bytes) r.dispatched).2 ++
      (finishLoop E (handleMessages E (s.assemble bytes) r.dispatched).1 r.session.pending).2
  sameIo : SameIo
    (finishLoop E (handleMessages E (s.assemble bytes) r.dispatched).1 r.session.pending).1
    r.session
  audio : r.session.audio =
    (finishLoop E (handleMessages E (s.assemble bytes) r.dispatched).1 r.session.pending).1.audio

theorem processClientRead_spec {s : Session H} {bytes : List UInt8}
    (h : s.assembleLen + bytes.length ≤ sizeofAssembleBuf) :
    ReadSpec E s bytes (processClientRead E s bytes) := by
  obtain ⟨t, ht⟩ : ∃ t, s.assemble bytes = t := ⟨_, rfl⟩
  have hp : t.pending = s.pending ++ bytes := ht ▸ s.pending_assemble bytes
  obtain ⟨sp, hsp⟩ : ∃ sp, messageFramer.split t.pending = sp := ⟨_, rfl⟩
  have hloop := dispatchLoop_eq E (t.assembleLen + 1) t 0 (by omega) (by omega)
  rw [List.drop_zero, hsp] at hloop
  have hread : processClientRead E s bytes =
      { (dispatchLoop E (t.assembleLen + 1) t 0).1 with
        session := compact (dispatchLoop E (t.assembleLen + 1) t 0).1.session
          (dispatchLoop E (t.assembleLen + 1) t 0).2 } := by
    rw [processClientRead, if_neg (by omega)]
    exact ht ▸ rfl
  obtain ⟨p, hpre⟩ := messageFramer.split_suffix t.pending.length t.pending (Nat.le_refl _)
  rw [hsp] at hpre
  have hfin : SameAssembly t (finishLoop E (handleMessages E t sp.1).1 sp.2).1 :=
    (handleMessages_sameAssembly E t sp.1).trans (finishLoop_sameAssembly E _ _)
  have hlen : t.assembleLen = p.length + sp.2.length := by
    rw [← t.length_pending, hpre, List.length_append]
  have hpend : (compact (finishLoop E (handleMessages E t sp.1).1 sp.2).1
      (t.assembleLen - sp.2.length)).pending = sp.2 := by
    rw [pending_compact _ (by rw [hfin.assembleLen]; omega), hfin.pending, hpre,
      show t.assembleLen - sp.2.length = p.length by omega, List.drop_left]
  rw [hloop] at hread
  rw [hread]
  refine ⟨by rw [← hp, hsp], by rw [← hp, hsp]; exact hpend, ?_, ?_, ?_⟩
  · rw [hpend, ht]
  · rw [hpend, ht]
    exact compact_sameIo _ _
  · rw [hpend, ht]
    exact compact_audio _ _

/-! ### Many reads -/

/-- Reads one after another: the session and everything dispatched. -/
def readAll : Session H → List (List UInt8) → Session H × List Message
  | s, [] => (s, [])
  | s, bytes :: reads =>
      let r := processClientRead E s bytes
      let rest := readAll r.session reads
      (rest.1, r.dispatched ++ rest.2)

/-- The overflow check does not fire in any of the reads. -/
def NeverOverflows : Session H → List (List UInt8) → Prop
  | _, [] => True
  | s, bytes :: reads =>
      s.assembleLen + bytes.length ≤ sizeofAssembleBuf ∧
        NeverOverflows (processClientRead E s bytes).session reads

/-- Reads whose overflow check never fires feed the framer. -/
theorem readAll_eq_feeds : ∀ (s : Session H) (reads : List (List UInt8)),
    NeverOverflows E s reads →
    ((readAll E s reads).2, (readAll E s reads).1.pending) = messageFramer.feeds s.pending reads
  | _, [], _ => rfl
  | s, bytes :: reads, h => by
      have hr := processClientRead_spec E h.1
      have ih := readAll_eq_feeds (processClientRead E s bytes).session reads h.2
      rw [hr.pending] at ih
      have h₁ := congrArg Prod.fst ih
      have h₂ := congrArg Prod.snd ih
      simp only at h₁ h₂
      simp only [readAll, Framer.feeds, hr.dispatched, h₁, h₂]

/-- **Reassembly**: from an empty buffer, the messages and the remainder are those of the
stream the reads are cut from. -/
theorem readAll_eq_split {s : Session H} {reads : List (List UInt8)} (hs : s.assembleLen = 0)
    (h : NeverOverflows E s reads) :
    ((readAll E s reads).2, (readAll E s reads).1.pending) =
      messageFramer.split reads.flatten := by
  have hp : s.pending = [] := by simp [Session.pending, hs]
  rw [readAll_eq_feeds E s reads h, hp, messageFramer.feeds_eq_split reads [] rfl,
    List.nil_append]

theorem NeverOverflows.take : ∀ {s : Session H} {reads : List (List UInt8)} (k : ℕ),
    NeverOverflows E s reads → NeverOverflows E s (reads.take k)
  | _, _, 0, _ => trivial
  | _, [], _ + 1, _ => trivial
  | _, _ :: _, k + 1, h => ⟨h.1, NeverOverflows.take k h.2⟩

/-- The size of a message on the wire. -/
def Message.size (m : Message) : ℕ := sizeofHeader + m.header.payloadLen.toNat

/-- The bytes in front of the remainder are those of the messages taken. -/
theorem split_consumed (k : ℕ) : ∀ l : List UInt8, l.length ≤ k →
    ∃ p, l = p ++ (messageFramer.split l).2 ∧
      p.length = ((messageFramer.split l).1.map Message.size).sum := by
  induction k with
  | zero =>
      intro l hl
      have e : l = [] := List.eq_nil_of_length_eq_zero (by omega)
      subst e
      exact ⟨[], rfl, rfl⟩
  | succ k ih =>
      intro l hl
      cases hn : nextMessage l with
      | more =>
          rw [messageFramer.split_of_not_frame fun b j => by show nextMessage l ≠ _; simp [hn]]
          exact ⟨[], rfl, rfl⟩
      | malformed =>
          rw [messageFramer.split_of_not_frame fun b j => by show nextMessage l ≠ _; simp [hn]]
          exact ⟨[], rfl, rfl⟩
      | frame m n =>
          obtain ⟨-, -, hsize, hle⟩ := nextMessage_eq_frame hn
          have hpos : 0 < n := by rw [hsize, sizeofHeader]; omega
          obtain ⟨p, hp, hlen⟩ := ih (l.drop n) (by rw [List.length_drop]; omega)
          rw [messageFramer.split_of_frame hn]
          refine ⟨l.take n ++ p, ?_, ?_⟩
          · rw [List.append_assoc, ← hp, List.take_append_drop]
          · rw [List.length_append, List.length_take_of_le hle, hlen, List.map_cons, List.sum_cons,
              Message.size, hsize]

/-- A validly framed message: its header passes the check and names the payload's length. -/
structure FramedMessage where
  message : Message
  valid : protocolValidateHeader message.header = true
  length_eq : message.header.payloadLen.toNat = message.payload.length

def FramedMessage.encode (m : FramedMessage) : List UInt8 :=
  encodeHeader m.message.header ++ m.message.payload

def FramedMessage.size (m : FramedMessage) : ℕ := m.message.size

/-- The `CMD_PING` with a sequence number. -/
def pingMessage (sequenceId : UInt32) : FramedMessage :=
  ⟨⟨⟨audioMagic, audioVersion, cmdPing, sequenceId, 0⟩, []⟩, by rfl, rfl⟩

end MachAudio
