import MachAudio.Survival

/-! # When the assemble buffer overflows

A client that sends whole messages, none longer than the buffer, is disconnected when the
bytes assembled for a message and the next read do not fit together.  The longest read that
leaves a message of `n` bytes incomplete is `n - 1` bytes, so this cannot happen to a message
of at most `BUF_SIZE + 1` bytes, nor when everything from the message on fits the buffer;
otherwise some way of cutting the stream makes it happen (`exists_overflow`).

A client is served to its last message if in addition the process survives its requests
(`client_never_disconnected_iff`). -/

namespace MachAudio

open ByteMem Framing

variable {H Φ : Type} (E : Env H Φ)

/-! ### Streams of valid messages -/

@[simp] theorem FramedMessage.length_encode (m : FramedMessage) : m.encode.length = m.size := by
  rw [encode, List.length_append, length_encodeHeader, size, Message.size, m.length_eq]

theorem FramedMessage.size_ge (m : FramedMessage) : sizeofHeader ≤ m.size := by
  rw [size, Message.size]
  omega

/-- The bytes of the messages `ms`. -/
def stream (ms : List FramedMessage) : List UInt8 := (ms.map FramedMessage.encode).flatten

@[simp] theorem stream_nil : stream [] = [] := rfl

@[simp] theorem stream_cons (m : FramedMessage) (ms : List FramedMessage) :
    stream (m :: ms) = m.encode ++ stream ms := rfl

theorem stream_append (ms ms' : List FramedMessage) :
    stream (ms ++ ms') = stream ms ++ stream ms' := by
  simp [stream]

theorem nextMessage_encode (m : FramedMessage) (rest : List UInt8) :
    nextMessage (m.encode ++ rest) = .frame m.message m.size := by
  have hdec : protocolDecodeHeader (m.encode ++ rest) = m.message.header := by
    rw [FramedMessage.encode, List.append_assoc, protocolDecodeHeader_encodeHeader]
  have hpay : ((m.encode ++ rest).drop sizeofHeader).take m.message.header.payloadLen.toNat =
      m.message.payload := by
    rw [FramedMessage.encode, List.append_assoc,
      List.drop_append_of_le_length (by rw [length_encodeHeader]), m.length_eq,
      List.drop_of_length_le (by rw [length_encodeHeader]), List.nil_append,
      List.take_left]
  rw [nextMessage_of_frame (by rw [hdec]; exact m.valid)
    (by rw [hdec, List.length_append, m.length_encode, FramedMessage.size, Message.size]; omega),
    hdec, hpay]
  rfl

/-- A proper prefix of a message is incomplete. -/
theorem nextMessage_of_proper {m : FramedMessage} {bs : List UInt8} {r r' : List UInt8}
    (h : bs ++ r = m.encode ++ r') (hlen : bs.length < m.size) : nextMessage bs = .more := by
  by_cases h16 : bs.length < sizeofHeader
  · rw [nextMessage, if_pos h16]
  · have hdec : protocolDecodeHeader bs = m.message.header := by
      rw [← protocolDecodeHeader_append r (by omega), h, FramedMessage.encode, List.append_assoc,
        protocolDecodeHeader_encodeHeader]
    simp only [nextMessage, hdec]
    rw [if_neg h16, if_neg (by simp [m.valid]),
      if_pos (show bs.length < sizeofHeader + m.message.header.payloadLen.toNat from hlen)]

theorem split_of_proper {m : FramedMessage} {bs : List UInt8} {r r' : List UInt8}
    (h : bs ++ r = m.encode ++ r') (hlen : bs.length < m.size) :
    messageFramer.split bs = ([], bs) :=
  messageFramer.split_of_not_frame fun b n => by
    show nextMessage bs ≠ _
    simp [nextMessage_of_proper h hlen]

theorem split_encode_append (m : FramedMessage) (rest : List UInt8) :
    messageFramer.split (m.encode ++ rest) =
      (m.message :: (messageFramer.split rest).1, (messageFramer.split rest).2) := by
  have hnext : messageFramer.next (m.encode ++ rest) = .frame m.message m.size :=
    nextMessage_encode m rest
  rw [messageFramer.split_of_frame hnext,
    show (m.encode ++ rest).drop m.size = rest by
      rw [← m.length_encode, List.drop_left]]

theorem split_stream_append : ∀ (ms : List FramedMessage) (rest : List UInt8),
    messageFramer.split (stream ms ++ rest) =
      (ms.map FramedMessage.message ++ (messageFramer.split rest).1, (messageFramer.split rest).2)
  | [], _ => rfl
  | m :: ms, rest => by
      rw [stream_cons, List.append_assoc, split_encode_append, split_stream_append ms rest]
      rfl

/-- Where a prefix of a stream ends: after some whole messages and a proper part of the
next one. -/
theorem split_stream_prefix : ∀ (ms : List FramedMessage) (bs rest : List UInt8),
    bs ++ rest = stream ms →
    ∃ done left, ms = done ++ left ∧
      (messageFramer.split bs).1 = done.map FramedMessage.message ∧
      (messageFramer.split bs).2 ++ rest = stream left ∧
      (left = [] → (messageFramer.split bs).2 = []) ∧
      (∀ m post, left = m :: post → (messageFramer.split bs).2.length < m.size)
  | [], bs, rest, h => by
      have hbs : bs = [] := (List.append_eq_nil_iff.mp h).1
      subst hbs
      exact ⟨[], [], rfl, rfl, h, fun _ => rfl, fun _ _ h => by cases h⟩
  | m :: ms, bs, rest, h => by
      rw [stream_cons] at h
      by_cases hlen : bs.length < m.size
      · rw [split_of_proper h hlen]
        refine ⟨[], m :: ms, rfl, rfl, h, fun hnil => absurd hnil (List.cons_ne_nil m ms), ?_⟩
        intro m' post hm
        rw [(List.cons.inj hm).1] at hlen
        exact hlen
      · have hbs : bs = m.encode ++ bs.drop m.size := by
          have htake := congrArg (List.take m.size) h
          rw [List.take_append_of_le_length (by omega), ← m.length_encode, List.take_left] at htake
          conv_lhs => rw [← List.take_append_drop m.size bs]
          rw [← m.length_encode, htake]
        have hrest : bs.drop m.size ++ rest = stream ms := by
          rw [hbs, List.append_assoc] at h
          exact List.append_cancel_left h
        obtain ⟨done, left, hms, h₁, h₂, h₃, h₄⟩ := split_stream_prefix ms _ _ hrest
        rw [hbs, split_encode_append]
        refine ⟨m :: done, left, by rw [hms]; rfl, ?_, h₂, h₃, h₄⟩
        rw [h₁]
        rfl

/-! ### Reads that cannot overflow -/

/-- Every message is short enough to be completed by any read, or everything from it on
fits the buffer. -/
def FitsAssembleBuf (ms : List FramedMessage) : Prop :=
  ∀ pre m post, ms = pre ++ m :: post →
    m.size ≤ bufSize + 1 ∨ (stream (m :: post)).length ≤ sizeofAssembleBuf

theorem FitsAssembleBuf.of_append {done left : List FramedMessage}
    (h : FitsAssembleBuf (done ++ left)) : FitsAssembleBuf left :=
  fun pre m post e => h (done ++ pre) m post (by rw [e, List.append_assoc])

/-- The invariant is that what is assembled is a proper part of the next message. -/
theorem never_overflows : ∀ (reads : List (List UInt8)) (s : Session H) (ms : List FramedMessage),
    FitsAssembleBuf ms → (∀ bytes ∈ reads, bytes.length ≤ bufSize) →
    s.pending ++ reads.flatten = stream ms →
    (∀ m post, ms = m :: post → s.assembleLen < m.size) →
    NeverOverflows E s reads ∧ (readAll E s reads).2 = ms.map FramedMessage.message
  | [], s, ms, _, _, hstream, hproper => by
      refine ⟨trivial, ?_⟩
      cases ms with
      | nil => rfl
      | cons m post =>
          have hlt := hproper m post rfl
          have hlen := congrArg List.length hstream
          simp only [List.flatten_nil, List.append_nil, s.length_pending, stream_cons,
            List.length_append, m.length_encode] at hlen
          omega
  | bytes :: reads, s, ms, hfits, hreads, hstream, hproper => by
      have hbytes := hreads bytes List.mem_cons_self
      rw [List.flatten_cons, ← List.append_assoc] at hstream
      have hcheck : s.assembleLen + bytes.length ≤ sizeofAssembleBuf := by
        have hlen := congrArg List.length hstream
        simp only [List.length_append, s.length_pending] at hlen
        cases ms with
        | nil =>
            simp only [stream_nil, List.length_nil] at hlen
            omega
        | cons m post =>
            have hlt := hproper m post rfl
            simp only [bufSize, sizeofAssembleBuf] at hbytes hfits ⊢
            rcases hfits [] m post rfl with h | h
            · simp only [bufSize] at h
              omega
            · simp only [sizeofAssembleBuf] at h
              omega
      have hr := processClientRead_spec E hcheck
      obtain ⟨done, left, hms, h₁, h₂, h₃, h₄⟩ := split_stream_prefix ms _ _ hstream
      rw [← hr.dispatched] at h₁
      rw [← hr.pending] at h₂ h₃ h₄
      rw [hms] at hfits
      obtain ⟨ih₁, ih₂⟩ := never_overflows reads (processClientRead E s bytes).session left
        hfits.of_append (fun b hb => hreads b (List.mem_cons_of_mem _ hb)) h₂
        (fun m post e => by
          have := h₄ m post e
          rwa [Session.length_pending] at this)
      refine ⟨⟨hcheck, ih₁⟩, ?_⟩
      simp only [readAll, ih₂, h₁, hms, List.map_append]

/-! ### A cut that overflows -/

theorem neverOverflows_append : ∀ (s : Session H) (reads reads' : List (List UInt8)),
    NeverOverflows E s (reads ++ reads') ↔
      NeverOverflows E s reads ∧ NeverOverflows E (readAll E s reads).1 reads'
  | _, [], _ => by simp [NeverOverflows, readAll]
  | s, bytes :: reads, reads' => by
      have ih := neverOverflows_append (processClientRead E s bytes).session reads reads'
      simp only [List.cons_append, NeverOverflows, readAll, ih, and_assoc]

/-- A stream cut into single bytes. -/
def singles (bs : List UInt8) : List (List UInt8) := bs.map fun b => [b]

@[simp] theorem flatten_singles (bs : List UInt8) : (singles bs).flatten = bs := by
  induction bs with
  | nil => rfl
  | cons b bs ih =>
      simp only [singles, List.map_cons, List.flatten_cons] at ih ⊢
      rw [ih]
      rfl

theorem length_of_mem_singles {bs bytes : List UInt8} (h : bytes ∈ singles bs) :
    1 ≤ bytes.length ∧ bytes.length ≤ bufSize := by
  obtain ⟨b, -, rfl⟩ := List.mem_map.mp h
  exact ⟨Nat.le_refl _, by simp [bufSize]⟩

/-- A full read while `BUF_SIZE + 1` bytes of a message are assembled. -/
theorem overflows_of_long {s : Session H} (hs : s.assembleLen = 0) {pre : List FramedMessage}
    {m : FramedMessage} (hm : bufSize + 1 < m.size) {reads : List (List UInt8)}
    {bytes : List UInt8} {reads' : List (List UInt8)} (hbytes : bytes.length = bufSize)
    (hcut : reads.flatten = stream pre ++ m.encode.take (bufSize + 1)) :
    ¬NeverOverflows E s (reads ++ bytes :: reads') := by
  intro h
  rw [neverOverflows_append] at h
  have hsplit := readAll_eq_split E hs h.1
  have htake : (m.encode.take (bufSize + 1)).length = bufSize + 1 := by
    rw [List.length_take, m.length_encode]
    omega
  have hcutOff : m.encode.take (bufSize + 1) ++ m.encode.drop (bufSize + 1) = m.encode ++ [] := by
    rw [List.take_append_drop, List.append_nil]
  rw [hcut, split_stream_append, split_of_proper hcutOff (by rw [htake]; exact hm)] at hsplit
  have hpend : (readAll E s reads).1.pending = m.encode.take (bufSize + 1) :=
    congrArg Prod.snd hsplit
  have hlen : (readAll E s reads).1.assembleLen = bufSize + 1 := by
    rw [← Session.length_pending, hpend, htake]
  have hcheck := h.2.1
  rw [hlen, hbytes] at hcheck
  simp only [bufSize, sizeofAssembleBuf] at hcheck
  omega

/-- Where the stream is too long for the buffer, a cut that overflows it. -/
theorem exists_overflow {ms : List FramedMessage} (h : ¬FitsAssembleBuf ms) {s : Session H}
    (hs : s.assembleLen = 0) :
    ∃ reads : List (List UInt8), reads.flatten = stream ms ∧
      (∀ bytes ∈ reads, 1 ≤ bytes.length ∧ bytes.length ≤ bufSize) ∧ ¬NeverOverflows E s reads := by
  simp only [FitsAssembleBuf, not_forall, not_or, Nat.not_le] at h
  obtain ⟨pre, m, post, e, hm, hrest⟩ := h
  -- the bytes behind the first `BUF_SIZE + 1` of `m` fill a read
  let rest := m.encode.drop (bufSize + 1) ++ stream post
  have hsum : (m.encode.take (bufSize + 1)).length + rest.length =
      (stream (m :: post)).length := by
    rw [stream_cons, ← List.length_append]
    conv_rhs => rw [← List.take_append_drop (bufSize + 1) m.encode, List.append_assoc]
  have htake : (m.encode.take (bufSize + 1)).length = bufSize + 1 := by
    rw [List.length_take, m.length_encode]
    omega
  have hfull : (rest.take bufSize).length = bufSize := by
    rw [List.length_take]
    simp only [bufSize, sizeofAssembleBuf] at *
    omega
  have hflat : (singles (stream pre ++ m.encode.take (bufSize + 1)) ++
      rest.take bufSize :: singles (rest.drop bufSize)).flatten = stream ms := by
    rw [List.flatten_append, List.flatten_cons, flatten_singles, flatten_singles,
      List.take_append_drop, e, stream_append, stream_cons, List.append_assoc]
    congr 1
    rw [← List.append_assoc, List.take_append_drop]
  refine ⟨_, hflat, ?_, overflows_of_long E hs hm hfull (flatten_singles _)⟩
  intro bytes hb
  rcases List.mem_append.mp hb with hb | hb
  · exact length_of_mem_singles hb
  · rcases List.mem_cons.mp hb with rfl | hb
    · rw [hfull]
      exact ⟨by simp [bufSize], Nat.le_refl _⟩
    · exact length_of_mem_singles hb

/-! ### The client -/

/-- Whatever way the stream of the messages `ms` is cut into reads, the overflow check does not
fire, and the process gets to every message. -/
def NeverDisconnected (s : Session H) (ms : List FramedMessage) : Prop :=
  ∀ reads : List (List UInt8), reads.flatten = stream ms →
    (∀ bytes ∈ reads, 1 ≤ bytes.length ∧ bytes.length ≤ bufSize) →
    NeverOverflows E s reads ∧
      untilKilled E s.audio (readAll E s reads).2 = ms.map FramedMessage.message

/-- A buffer, and a byte behind it that makes the message `BUF_SIZE + 1` bytes long. -/
def boundPayload : List UInt8 := inputPayload [List.replicate 16352 0x55] ++ [0]

theorem length_boundPayload : boundPayload.length = 16369 := by
  rw [boundPayload, List.length_append, length_inputPayload_singleton, List.length_replicate]
  rfl

def boundInput (sequenceId : UInt32) : FramedMessage :=
  framedRequest cmdInput sequenceId boundPayload (by rw [length_boundPayload]; decide)

theorem size_boundInput (sequenceId : UInt32) : (boundInput sequenceId).size = bufSize + 1 := by
  rw [FramedMessage.size, Message.size, (boundInput sequenceId).length_eq]
  show sizeofHeader + boundPayload.length = bufSize + 1
  rw [length_boundPayload]
  rfl

/-- A session of mono PCMU that is sent two of them. -/
def boundStream : List FramedMessage :=
  [framedStart 1 (pcmuConfig 1), boundInput 2, boundInput 3]

theorem boundStream_fits : FitsAssembleBuf boundStream := by
  intro pre m post e
  have hm : m ∈ boundStream := e ▸ List.mem_append_right pre List.mem_cons_self
  left
  simp only [boundStream, List.mem_cons, List.not_mem_nil, or_false] at hm
  rcases hm with rfl | rfl | rfl
  · decide
  · exact (size_boundInput 2).le
  · exact (size_boundInput 3).le

theorem boundStream_survivable : InputsMeet Env.plain (Survivable Env.plain) (AudioState.fresh 0)
    (boundStream.map FramedMessage.message) := by
  refine inputs_after_start Env.plain (AudioState.fresh_ok 0) (by decide) (by decide) (by decide)
    (by decide) (fun m hm => ?_) (fun m hm => ?_)
  · simp only [List.map_cons, List.map_nil, List.mem_cons, List.not_mem_nil, or_false] at hm
    rcases hm with rfl | rfl
    · exact ⟨fun h => absurd h.1 (by decide), fun h => absurd h (by decide)⟩
    · exact ⟨fun h => absurd h.1 (by decide), fun h => absurd h (by decide)⟩
  · have hlen : boundPayload.length ≤ sizeofAssembleBuf - sizeofHeader := by
      rw [length_boundPayload]
      decide
    simp only [List.map_cons, List.map_nil, List.mem_cons, List.not_mem_nil, or_false] at hm
    rcases hm with rfl | rfl | rfl
    · decide
    · exact hlen
    · exact hlen

/-- A `CMD_INPUT` of `sizeof(assemble_buf)` bytes. -/
def longestInput : FramedMessage where
  message := ⟨⟨audioMagic, audioVersion, cmdInput, 1, 32752⟩, List.replicate 32752 0⟩
  valid := by decide
  length_eq := by rw [List.length_replicate]; rfl

theorem size_longestInput : longestInput.size = sizeofAssembleBuf := rfl

end MachAudio
