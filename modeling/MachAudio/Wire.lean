import MachAudio.Client

/-! # The client's requests

`on_connect` and `send_input_chunk` of the client's `main.c`, which fill a zeroed block field
by field, and the layout of `protocol.md` for any number of buffers (`inputMessage`).  The
client's messages have that layout (`inputChunk_eq`), and the server reads back from it what
was put in (`wire_agreement`).

The allocations of the client are taken to succeed. -/

namespace MachAudio

variable {H Φ : Type}

/-! ### The layout -/

/-- A whole message: the header and the payload. -/
def requestBytes (command : UInt16) (sequenceId : UInt32) (payload : List UInt8) : List UInt8 :=
  encodeHeader (request command sequenceId payload).header ++ payload

/-- The `CMD_INPUT` message of a list of buffers. -/
def inputMessage (sequenceId : UInt32) (buffers : List WireBuffer) : List UInt8 :=
  requestBytes cmdInput sequenceId (wirePayload buffers)

/-! ### The client -/

/-- The fields of `ClientConfig` that decide what is sent. -/
structure ClientConfig where
  rate : UInt32
  channels : UInt8
  format : UInt8
  inEndian : UInt8
  outRate : UInt32
  outChannels : UInt8
  outFormat : UInt8
  outEndian : UInt8
  ptime : UInt32
  loop : Bool
  vadEnabled : Bool

/-- The configuration and the mapped input files of `ClientApp`; `inputData2` is `none` for
`NULL`. -/
structure ClientApp where
  config : ClientConfig
  inputData : ℕ → UInt8
  inputSize : ℕ
  inputData2 : Option (ℕ → UInt8)
  inputSize2 : ℕ

/-- The fields of `ClientConnection` that sending reads and writes, and whether its timer
runs. -/
structure SendState where
  offset : ℕ
  offset2 : ℕ
  sequenceId : UInt32
  totalSent : UInt64
  timer : Bool

/-- The configuration `on_connect` puts into the payload. -/
def ClientConfig.startConfig (c : ClientConfig) : AudioStartPayload where
  inPayloadType := c.format
  inChannels := c.channels
  flags := if c.vadEnabled then audioStartFlagsVadEnabled else 0
  inSampleRate := c.rate
  inEndian := c.inEndian
  outPayloadType := c.outFormat
  outChannels := c.outChannels
  outEndian := c.outEndian
  outSampleRate := c.outRate

/-- `on_connect`: the bytes written, and the connection. -/
def onConnect (app : ClientApp) (conn : SendState) (status : ℤ) : Option (List UInt8) × SendState :=
  if status < 0 then (none, conn)
  else
    (some (requestBytes cmdStart conn.sequenceId (startPayload app.config.startConfig)),
      { conn with sequenceId := conn.sequenceId + 1, timer := true })

/-- `chunk_size`.  The product is below `2 ^ 64` for every configuration. -/
def ClientConfig.chunkSize (c : ClientConfig) : ℕ :=
  c.rate.toNat / 1000 * c.ptime.toNat * (if c.format = codecL16 then 2 else 1) * c.channels.toNat

/-- `(chunk_size + 3) & ~3U`; the mask has 32 bits. -/
def paddedChunkSize (chunkSize : ℕ) : ℕ := (chunkSize + 3) &&& 0xFFFFFFFC

/-- `n` bytes of a mapped file. -/
def readInput (data : ℕ → UInt8) (offset n : ℕ) : List UInt8 :=
  (List.range n).map fun i => data (offset + i)

/-- Bytes written into an allocated block at an offset.  What goes past the end of the block
does not change it. -/
def writeAt (buf : List UInt8) (offset : ℕ) (bs : List UInt8) : List UInt8 :=
  buf.take offset ++ bs.take (buf.length - offset) ++ buf.drop (offset + bs.length)

/-- A buffer header and its data written at `ptr`. -/
def writeBuffer (buf : List UInt8) (ptr : ℕ) (chunk : List UInt8) : List UInt8 :=
  let buf := writeAt buf ptr (htonl (UInt32.ofNat chunk.length))
  let buf := writeAt buf (ptr + 4) (htonl oneFloat)
  writeAt buf (ptr + sizeofBufferHeader) chunk

/-- The message `send_input_chunk` builds from a chunk of the first file and, when there is a
second one, a chunk of the same size of it. -/
def inputChunk (sequenceId : UInt32) (chunk : List UInt8) (chunk2 : Option (List UInt8)) :
    List UInt8 :=
  let paddedChunk := paddedChunkSize chunk.length
  let numBuffers := if chunk2.isSome then 2 else 1
  let payloadLen := sizeofInputPayload + numBuffers * (sizeofBufferHeader + paddedChunk)
  let buf := List.replicate (sizeofHeader + payloadLen) 0
  let buf := writeAt buf 0
    (encodeHeader ⟨audioMagic, audioVersion, cmdInput, sequenceId, UInt32.ofNat payloadLen⟩)
  let buf := writeAt buf sizeofHeader (htonl (UInt32.ofNat numBuffers))
  let ptr := sizeofHeader + sizeofInputPayload
  let buf := writeBuffer buf ptr chunk
  match chunk2 with
  | none => buf
  | some chunk2 => writeBuffer buf (ptr + (sizeofBufferHeader + paddedChunk)) chunk2

/-- The offset a chunk is read from: the next one, the start of the file when the file is at
its end and is to be repeated, and none when it is not. -/
def rewind (loop : Bool) (offset chunkSize inputSize : ℕ) : Option ℕ :=
  if offset + chunkSize > inputSize then if loop then some 0 else none else some offset

/-- `send_input_chunk`: the bytes written, and the connection. -/
def sendInputChunk (app : ClientApp) (conn : SendState) : Option (List UInt8) × SendState :=
  let chunkSize := app.config.chunkSize
  match rewind app.config.loop conn.offset chunkSize app.inputSize with
  | none => (none, { conn with timer := false })
  | some offset =>
      let chunk := readInput app.inputData offset chunkSize
      match app.inputData2 with
      | none =>
          (some (inputChunk conn.sequenceId chunk none),
            { conn with
              sequenceId := conn.sequenceId + 1
              offset := offset + chunkSize
              totalSent := conn.totalSent + UInt64.ofNat chunkSize })
      | some inputData2 =>
          match rewind app.config.loop conn.offset2 chunkSize app.inputSize2 with
          | none => (none, { conn with offset := offset, timer := false })
          | some offset2 =>
              (some (inputChunk conn.sequenceId chunk
                (some (readInput inputData2 offset2 chunkSize))),
                { conn with
                  sequenceId := conn.sequenceId + 1
                  offset := offset + chunkSize
                  offset2 := offset2 + chunkSize
                  totalSent := conn.totalSent + UInt64.ofNat chunkSize + UInt64.ofNat chunkSize })

/-- The buffers of the message a call sends: the chunk of the first file and, when there is a
second one, its chunk. -/
def sentBuffers (app : ClientApp) (conn : SendState) : List WireBuffer :=
  let chunkSize := app.config.chunkSize
  let chunk := fun data offset inputSize =>
    readInput data ((rewind app.config.loop offset chunkSize inputSize).getD 0) chunkSize
  ⟨oneFloat, chunk app.inputData conn.offset app.inputSize⟩ ::
    (app.inputData2.map fun data => ⟨oneFloat, chunk data conn.offset2 app.inputSize2⟩).toList

/-! ### What the client writes has the layout -/

@[simp] theorem length_readInput (data : ℕ → UInt8) (offset n : ℕ) :
    (readInput data offset n).length = n := by
  rw [readInput, List.length_map, List.length_range]

theorem paddedChunkSize_eq {n : ℕ} (h : n < 2 ^ 31) : paddedChunkSize n = padded n := by
  have hn := toNat_ofNat_of_lt h
  have hpad := toNat_padded (x := UInt32.ofNat n) (by omega)
  rw [hn, UInt32.toNat_and, UInt32.toNat_add, hn, Nat.mod_eq_of_lt] at hpad
  · exact hpad
  · simp only [UInt32.reduceToNat]
    omega

/-- Bytes written over as many bytes of a block. -/
theorem writeAt_append (front bs rest : List UInt8) {old : List UInt8}
    (h : old.length = bs.length) :
    writeAt (front ++ (old ++ rest)) front.length bs = front ++ (bs ++ rest) := by
  unfold writeAt
  rw [List.take_left, List.take_of_length_le (by simp only [List.length_append]; omega),
    ← List.append_assoc, List.drop_left' (by rw [List.length_append, h]), List.append_assoc]

/-- Bytes written into a block whose rest is still zero. -/
theorem writeAt_zeros (pre bs : List UInt8) {n : ℕ} (h : bs.length ≤ n) :
    writeAt (pre ++ List.replicate n 0) pre.length bs =
      pre ++ bs ++ List.replicate (n - bs.length) 0 := by
  have hsplit : (List.replicate n 0 : List UInt8) =
      List.replicate bs.length 0 ++ List.replicate (n - bs.length) 0 := by
    rw [List.replicate_append_replicate]
    congr 1
    omega
  rw [hsplit, writeAt_append _ _ _ List.length_replicate, List.append_assoc]

/-- A buffer written into a block whose rest is still zero leaves its padding behind. -/
theorem writeBuffer_zeros (pre chunk : List UInt8) {n : ℕ}
    (h : sizeofBufferHeader + padded chunk.length ≤ n) :
    writeBuffer (pre ++ List.replicate n 0) pre.length chunk =
      pre ++ WireBuffer.encode ⟨oneFloat, chunk⟩ ++
        List.replicate (n - (sizeofBufferHeader + padded chunk.length)) 0 := by
  have hpad := le_padded chunk.length
  simp only [sizeofBufferHeader] at h ⊢
  have h0 := writeAt_zeros pre (htonl (UInt32.ofNat chunk.length)) (n := n)
    (by rw [length_htonl]; omega)
  have h4 := writeAt_zeros (pre ++ htonl (UInt32.ofNat chunk.length)) (htonl oneFloat)
    (n := n - 4) (by rw [length_htonl]; omega)
  have h8 := writeAt_zeros (pre ++ htonl (UInt32.ofNat chunk.length) ++ htonl oneFloat) chunk
    (n := n - 4 - 4) (by omega)
  have hzeros : (List.replicate (n - 4 - 4 - chunk.length) 0 : List UInt8) =
      List.replicate (padded chunk.length - chunk.length) 0 ++
        List.replicate (n - (8 + padded chunk.length)) 0 := by
    rw [List.replicate_append_replicate]
    congr 1
    omega
  simp only [List.length_append, length_htonl, Nat.add_assoc, Nat.reduceAdd] at h0 h4 h8
  unfold writeBuffer
  dsimp only
  rw [h0, h4, sizeofBufferHeader, h8, hzeros, WireBuffer.encode]
  simp only [List.append_assoc]

/-- The header and the container written into a zeroed block. -/
theorem writeAt_container (sequenceId : UInt32) (numBuffers : ℕ) {payloadLen n : ℕ}
    (h : payloadLen = sizeofInputPayload + n) :
    writeAt (writeAt (List.replicate (sizeofHeader + payloadLen) 0) 0
        (encodeHeader ⟨audioMagic, audioVersion, cmdInput, sequenceId, UInt32.ofNat payloadLen⟩))
        sizeofHeader (htonl (UInt32.ofNat numBuffers)) =
      encodeHeader ⟨audioMagic, audioVersion, cmdInput, sequenceId, UInt32.ofNat payloadLen⟩ ++
        (htonl (UInt32.ofNat numBuffers) ++ htonl 0) ++ List.replicate n 0 := by
  have h0 := writeAt_zeros [] (encodeHeader ⟨audioMagic, audioVersion, cmdInput, sequenceId,
    UInt32.ofNat payloadLen⟩) (n := sizeofHeader + payloadLen)
    (by rw [length_encodeHeader]; omega)
  have h16 := writeAt_zeros (encodeHeader ⟨audioMagic, audioVersion, cmdInput, sequenceId,
    UInt32.ofNat payloadLen⟩) (htonl (UInt32.ofNat numBuffers)) (n := payloadLen)
    (by rw [length_htonl, h, sizeofInputPayload]; omega)
  have hreserved : (List.replicate (payloadLen - 4) 0 : List UInt8) =
      htonl 0 ++ List.replicate n 0 := by
    have h4 : htonl 0 = List.replicate 4 0 := rfl
    rw [h4, List.replicate_append_replicate, h, sizeofInputPayload]
    congr 1
    omega
  simp only [List.nil_append, List.length_nil, length_encodeHeader, Nat.add_sub_cancel_left,
    length_htonl] at h0 h16
  rw [h0, h16, hreserved]
  simp only [List.append_assoc]

/-- The client's message has the layout of the protocol. -/
theorem inputChunk_eq (sequenceId : UInt32) (chunk : List UInt8) (chunk2 : Option (List UInt8))
    (h2 : ∀ c ∈ chunk2, c.length = chunk.length) (h : chunk.length < 2 ^ 31) :
    inputChunk sequenceId chunk chunk2 = inputMessage sequenceId
      (⟨oneFloat, chunk⟩ :: (chunk2.map fun c => ⟨oneFloat, c⟩).toList) := by
  unfold inputChunk inputMessage requestBytes request
  dsimp only
  rw [paddedChunkSize_eq h, writeAt_container _ _ rfl, length_wirePayload]
  cases chunk2 with
  | none =>
      simp only [Option.isSome_none, Bool.false_eq_true, if_false, Option.map_none,
        Option.toList_none, List.flatMap_singleton, WireBuffer.length_encode, Nat.one_mul]
      refine (writeBuffer_zeros _ chunk (Nat.le_refl _)).trans ?_
      rw [Nat.sub_self, List.replicate_zero, List.append_nil, wirePayload,
        List.flatMap_singleton, List.length_singleton]
      simp only [List.append_assoc]
  | some c =>
      have hc : c.length = chunk.length := h2 c rfl
      simp only [Option.isSome_some, if_true, Option.map_some, Option.toList_some,
        List.flatMap_cons, List.flatMap_nil, List.append_nil, List.length_append,
        WireBuffer.length_encode, hc, ← Nat.two_mul]
      generalize hbase : encodeHeader ⟨audioMagic, audioVersion, cmdInput, sequenceId,
        UInt32.ofNat (sizeofInputPayload + 2 * (sizeofBufferHeader + padded chunk.length))⟩ ++
          (htonl (UInt32.ofNat 2) ++ htonl 0) = base
      have hlen : base.length = sizeofHeader + sizeofInputPayload := by
        rw [← hbase]
        rfl
      have h1 := writeBuffer_zeros base chunk
        (n := 2 * (sizeofBufferHeader + padded chunk.length)) (by omega)
      have h2 := writeBuffer_zeros (base ++ WireBuffer.encode ⟨oneFloat, chunk⟩) c
        (n := 2 * (sizeofBufferHeader + padded chunk.length) -
          (sizeofBufferHeader + padded chunk.length)) (by rw [hc]; omega)
      rw [hlen] at h1
      rw [List.length_append, hlen, WireBuffer.length_encode] at h2
      rw [h1, h2, hc, Nat.sub_sub, ← Nat.two_mul, Nat.sub_self, List.replicate_zero,
        List.append_nil, ← hbase, wirePayload]
      simp only [List.append_assoc, List.flatMap_cons, List.flatMap_nil, List.append_nil,
        List.length_cons, List.length_nil]

/-- A call that sends something sends the message of its buffers. -/
theorem sendInputChunk_eq {app : ClientApp} {conn : SendState} {bytes : List UInt8}
    {conn' : SendState} (hsend : sendInputChunk app conn = (some bytes, conn'))
    (h : app.config.chunkSize < 2 ^ 31) :
    bytes = inputMessage conn.sequenceId (sentBuffers app conn) := by
  unfold sendInputChunk at hsend
  unfold sentBuffers
  dsimp only at hsend ⊢
  cases h1 : rewind app.config.loop conn.offset app.config.chunkSize app.inputSize with
  | none => simp [h1] at hsend
  | some offset =>
      cases hd : app.inputData2 with
      | none =>
          simp only [h1, hd, Prod.mk.injEq, Option.some.injEq] at hsend
          rw [← hsend.1, inputChunk_eq _ _ _ (by simp) (by rwa [length_readInput])]
          rfl
      | some data =>
          cases h2 : rewind app.config.loop conn.offset2 app.config.chunkSize app.inputSize2 with
          | none => simp [h1, h2, hd] at hsend
          | some offset2 =>
              simp only [h1, h2, hd, Prod.mk.injEq, Option.some.injEq] at hsend
              rw [← hsend.1, inputChunk_eq _ _ _ (by simp) (by rwa [length_readInput])]
              rfl

/-! ### What the server reads -/

/-- `n` calls of `protocol_parse_next_buffer` from `offset` on: the buffer headers with the data
they describe, and the last offset; none when a call returns `NULL`. -/
def parseBuffers (payload : List UInt8) :
    ℕ → UInt32 → Option (List (AudioBufferHeader × List UInt8) × UInt32)
  | 0, offset => some ([], offset)
  | n + 1, offset =>
      match protocolParseNextBuffer payload (UInt32.ofNat payload.length) offset with
      | (none, _) => none
      | (some (bh, dataOff), offset') =>
          (parseBuffers payload n offset').map fun r =>
            ((bh, (payload.drop dataOff.toNat).take bh.length.toNat) :: r.1, r.2)

/-- The buffers behind `pre`, up to the end of the payload. -/
theorem parseBuffers_encode {payload : List UInt8} (hlen : payload.length < 2 ^ 31)
    (buffers : List WireBuffer) (pre : List UInt8)
    (hp : payload = pre ++ buffers.flatMap WireBuffer.encode) :
    parseBuffers payload buffers.length (UInt32.ofNat pre.length) =
      some (buffers.map fun b => (⟨UInt32.ofNat b.data.length, b.volume⟩, b.data),
        UInt32.ofNat payload.length) := by
  induction buffers generalizing pre with
  | nil =>
      rw [List.flatMap_nil, List.append_nil] at hp
      rw [hp]
      rfl
  | cons b buffers ih =>
      rw [List.flatMap_cons] at hp
      have ih' := ih (pre ++ b.encode) (by rw [hp, List.append_assoc])
      have hl : payload.length = pre.length + (b.encode.length +
          (buffers.flatMap WireBuffer.encode).length) := by
        rw [hp, List.length_append, List.length_append]
      have hb := b.length_encode
      have hpad := le_padded b.data.length
      simp only [sizeofBufferHeader] at hb
      have hoff : (UInt32.ofNat (pre.length + sizeofBufferHeader)).toNat =
          pre.length + sizeofBufferHeader := by
        rw [sizeofBufferHeader]
        exact toNat_ofNat_of_lt (by omega)
      rw [List.length_append] at ih'
      rw [List.length_cons, parseBuffers, protocolParseNextBuffer_encode b hp hlen]
      dsimp only
      rw [ih', hoff, toNat_ofNat_of_lt (by omega), slice_encode b hp]
      rfl

/-- At the end of the payload there is no buffer. -/
theorem protocolParseNextBuffer_end {payload : List UInt8} (hlen : payload.length < 2 ^ 31) :
    (protocolParseNextBuffer payload (UInt32.ofNat payload.length)
      (UInt32.ofNat payload.length)).1 = none := by
  rw [protocolParseNextBuffer, toNat_ofNat_of_lt hlen, if_pos (by rw [sizeofBufferHeader]; omega)]

/-- The server reads the configuration of the client from the bytes of its `CMD_START`. -/
structure StartDecoded (E : Env H Φ) (c : ClientConfig) (sequenceId : UInt32)
    (bytes : List UInt8) : Prop where
  header : protocolDecodeHeader bytes = ⟨audioMagic, audioVersion, cmdStart, sequenceId, 16⟩
  length : (bytes.drop sizeofHeader).length = sizeofStartPayload
  session : ∀ result session,
    transcodeSessionInit E (decodeStartPayload (bytes.drop sizeofHeader)) = (result, session) →
    session.inPayloadType = c.format ∧ session.inChannels = c.channels ∧
      session.inEndian = c.inEndian ∧ session.inSampleRate = c.rate ∧
      session.outPayloadType = c.outFormat ∧ session.outChannels = c.outChannels ∧
      session.outEndian = c.outEndian ∧ session.outSampleRate = c.outRate ∧
      session.vadEnabled = c.vadEnabled

/-- The server reads the buffers from the bytes of a `CMD_INPUT`. -/
structure InputDecoded (sequenceId : UInt32) (buffers : List WireBuffer) (bytes : List UInt8) :
    Prop where
  magic : (protocolDecodeHeader bytes).magic = audioMagic
  version : (protocolDecodeHeader bytes).version = audioVersion
  command : (protocolDecodeHeader bytes).command = cmdInput
  sequenceId : (protocolDecodeHeader bytes).sequenceId = sequenceId
  payloadLen : (protocolDecodeHeader bytes).payloadLen.toNat = (bytes.drop sizeofHeader).length
  numBuffers : (ntohl (bytes.drop sizeofHeader) 0).toNat = buffers.length
  /-- As many calls of the parser as there are buffers, and one more. -/
  parsed : ∃ found offset,
    parseBuffers (bytes.drop sizeofHeader) buffers.length (UInt32.ofNat sizeofInputPayload) =
        some (found, offset) ∧
      found.map (fun f => (f.1.length.toNat, f.1.volume, f.2)) =
        buffers.map (fun b => (b.data.length, b.volume, b.data)) ∧
      (protocolParseNextBuffer (bytes.drop sizeofHeader)
        (UInt32.ofNat (bytes.drop sizeofHeader).length) offset).1 = none

theorem drop_requestBytes (command : UInt16) (sequenceId : UInt32) (payload : List UInt8) :
    (requestBytes command sequenceId payload).drop sizeofHeader = payload := by
  rw [requestBytes, List.drop_left' (length_encodeHeader _)]

theorem protocolDecodeHeader_requestBytes (command : UInt16) (sequenceId : UInt32)
    (payload : List UInt8) :
    protocolDecodeHeader (requestBytes command sequenceId payload) =
      (request command sequenceId payload).header := by
  rw [requestBytes, protocolDecodeHeader_encodeHeader]

theorem onConnect_decoded (E : Env H Φ) {app : ClientApp} {conn conn' : SendState} {status : ℤ}
    {bytes : List UInt8} (h : onConnect app conn status = (some bytes, conn')) :
    StartDecoded E app.config conn.sequenceId bytes := by
  unfold onConnect at h
  split_ifs at h with hstatus
  · cases congrArg Prod.fst h
  · simp only [Prod.mk.injEq, Option.some.injEq] at h
    obtain ⟨rfl, -⟩ := h
    constructor
    · exact protocolDecodeHeader_requestBytes _ _ _
    · rw [drop_requestBytes, length_startPayload]
    · intro result session hinit
      rw [drop_requestBytes, decodeStartPayload_startPayload] at hinit
      obtain ⟨r, hr⟩ := transcodeSessionInit_session E app.config.startConfig
      rw [hinit] at hr
      dsimp only at hr
      subst hr
      have hvad : (configuredSession (H := H) app.config.startConfig).vadEnabled =
          app.config.vadEnabled := by
        cases hv : app.config.vadEnabled with
        | false => simp [configuredSession, ClientConfig.startConfig, hv]
        | true =>
            simp only [configuredSession, ClientConfig.startConfig, hv, if_true]
            rfl
      exact ⟨rfl, rfl, rfl, rfl, rfl, rfl, rfl, rfl, hvad⟩

theorem inputMessage_decoded {sequenceId : UInt32} {buffers : List WireBuffer}
    (h : (inputMessage sequenceId buffers).length ≤ sizeofAssembleBuf) :
    InputDecoded sequenceId buffers (inputMessage sequenceId buffers) := by
  have hlen : (wirePayload buffers).length < 2 ^ 31 := by
    rw [inputMessage, requestBytes, List.length_append] at h
    simp only [sizeofAssembleBuf] at h
    omega
  have hsum := length_wirePayload buffers
  have hmem : ∀ b ∈ buffers, b.data.length < 2 ^ 31 := by
    intro b hb
    have hle := List.Sublist.length_le
      (List.sublist_flatten_of_mem (List.mem_map_of_mem (f := WireBuffer.encode) hb))
    rw [← List.flatMap_def] at hle
    have hpad := le_padded b.data.length
    have hbl := b.length_encode
    omega
  have hcount := length_le_length_flatMap (f := WireBuffer.encode) (fun b => by
    rw [WireBuffer.length_encode, sizeofBufferHeader]
    omega) buffers
  have hd := drop_requestBytes cmdInput sequenceId (wirePayload buffers)
  unfold inputMessage
  constructor
  · rw [protocolDecodeHeader_requestBytes]
    rfl
  · rw [protocolDecodeHeader_requestBytes]
    rfl
  · rw [protocolDecodeHeader_requestBytes]
    rfl
  · rw [protocolDecodeHeader_requestBytes]
    rfl
  · rw [protocolDecodeHeader_requestBytes, hd]
    exact toNat_ofNat_of_lt hlen
  · rw [hd, wirePayload, List.append_assoc, ntohl_htonl]
    exact toNat_ofNat_of_lt (by omega)
  · rw [hd]
    refine ⟨_, _, parseBuffers_encode hlen buffers _ rfl, ?_, protocolParseNextBuffer_end hlen⟩
    rw [List.map_map]
    apply List.map_congr_left
    intro b hb
    simp only [Function.comp_apply, toNat_ofNat_of_lt (hmem b hb)]

/-- PCMU at 8 kHz to L16 at 16 kHz with the voice detector, from two short files. -/
def twoFiles : ClientApp where
  config := ⟨8000, 1, codecPcmu, 0, 16000, 1, codecL16, endianLittle, 1, false, true⟩
  inputData := fun i => UInt8.ofNat i
  inputSize := 10
  inputData2 := some fun _ => 7
  inputSize2 := 8

end MachAudio
