import Mathlib.Algebra.Group.Nat.Defs
import Mathlib.Data.List.Basic

/-! # The wire format

The constants, message header and payload layouts of `protocol.h`, and the functions of
`parser.c` and `protocol.h`.  A message on the wire is a list of bytes; every integer is
in network byte order.  A `float` is its 32-bit pattern, since the protocol only copies
the bits. -/

namespace MachAudio

/-- `AUDIO_MAGIC`, the letters `MACH`. -/
def audioMagic : UInt32 := 0x4D414348
/-- `AUDIO_VERSION`. -/
def audioVersion : UInt16 := 0x0001

/-! ### Commands and error codes -/

def cmdStart : UInt16 := 0x01
def cmdInput : UInt16 := 0x02
def cmdOutput : UInt16 := 0x03
def cmdStop : UInt16 := 0x04
def cmdError : UInt16 := 0x05
def cmdPing : UInt16 := 0x06
def cmdPong : UInt16 := 0x07
def cmdDiscover : UInt16 := 0x08
def cmdDiscoverReply : UInt16 := 0x09

def errInvalidMagic : UInt32 := 1
def errInvalidCommand : UInt32 := 3
def errInvalidPayload : UInt32 := 4
def errProcessingFailed : UInt32 := 5

/-- `AUDIO_START_FLAGS_VAD_ENABLED`. -/
def audioStartFlagsVadEnabled : UInt16 := 0x0001

/-! ### Network byte order -/

/-- Byte `i` of a buffer. -/
def byteAt (bs : List UInt8) (i : ℕ) : UInt8 := bs.getD i 0

/-- `ntohs` of the two bytes at offset `i`. -/
def ntohs (bs : List UInt8) (i : ℕ) : UInt16 :=
  UInt16.ofNat ((byteAt bs i).toNat * 256 + (byteAt bs (i + 1)).toNat)

/-- `ntohl` of the four bytes at offset `i`. -/
def ntohl (bs : List UInt8) (i : ℕ) : UInt32 :=
  UInt32.ofNat ((((byteAt bs i).toNat * 256 + (byteAt bs (i + 1)).toNat) * 256 +
    (byteAt bs (i + 2)).toNat) * 256 + (byteAt bs (i + 3)).toNat)

/-- The bytes of `htons`. -/
def htons (x : UInt16) : List UInt8 :=
  [UInt8.ofNat (x.toNat / 256), UInt8.ofNat (x.toNat % 256)]

/-- The bytes of `htonl`. -/
def htonl (x : UInt32) : List UInt8 :=
  [UInt8.ofNat (x.toNat / 16777216), UInt8.ofNat (x.toNat / 65536 % 256),
    UInt8.ofNat (x.toNat / 256 % 256), UInt8.ofNat (x.toNat % 256)]

/-- The bytes of `htobe64`. -/
def htobe64 (x : UInt64) : List UInt8 :=
  htonl (UInt32.ofNat (x.toNat / 4294967296)) ++ htonl (UInt32.ofNat (x.toNat % 4294967296))

@[simp] theorem length_htons (x : UInt16) : (htons x).length = 2 := rfl
@[simp] theorem length_htonl (x : UInt32) : (htonl x).length = 4 := rfl
@[simp] theorem length_htobe64 (x : UInt64) : (htobe64 x).length = 8 := rfl

theorem ntohs_htons (x : UInt16) (rest : List UInt8) : ntohs (htons x ++ rest) 0 = x := by
  have hlt : x.toNat < 65536 := x.toNat_lt
  have e : x.toNat / 256 % 256 * 256 + x.toNat % 256 % 256 = x.toNat := by omega
  simp only [ntohs, htons, byteAt, List.cons_append, List.getD_cons_zero, List.getD_cons_succ,
    Nat.zero_add, UInt8.toNat_ofNat', Nat.reducePow, e]
  simp

theorem ntohl_htonl (x : UInt32) (rest : List UInt8) : ntohl (htonl x ++ rest) 0 = x := by
  have hlt : x.toNat < 4294967296 := x.toNat_lt
  have e : ((x.toNat / 16777216 % 256 * 256 + x.toNat / 65536 % 256 % 256) * 256 +
      x.toNat / 256 % 256 % 256) * 256 + x.toNat % 256 % 256 = x.toNat := by omega
  simp only [ntohl, htonl, byteAt, List.cons_append, List.getD_cons_zero, List.getD_cons_succ,
    List.nil_append, UInt8.toNat_ofNat', Nat.reducePow, e]
  simp

/-- A field behind `pre` is read at offset `pre.length`. -/
theorem byteAt_append (pre bs : List UInt8) (i : ℕ) :
    byteAt (pre ++ bs) (pre.length + i) = byteAt bs i := by
  simp [byteAt, List.getD_eq_getElem?_getD, List.getElem?_append_right]

theorem ntohs_append (pre bs : List UInt8) (i : ℕ) :
    ntohs (pre ++ bs) (pre.length + i) = ntohs bs i := by
  simp only [ntohs, Nat.add_assoc, byteAt_append]

theorem ntohl_append (pre bs : List UInt8) (i : ℕ) :
    ntohl (pre ++ bs) (pre.length + i) = ntohl bs i := by
  simp only [ntohl, Nat.add_assoc, byteAt_append]

/-! ### The message header -/

structure AudioMsgHeader where
  magic : UInt32
  version : UInt16
  command : UInt16
  sequenceId : UInt32
  payloadLen : UInt32
deriving DecidableEq, Repr

/-- `sizeof(AudioMsgHeader)`. -/
def sizeofHeader : ℕ := 16

/-- `protocol_validate_header` (the header is never `NULL`). -/
def protocolValidateHeader (header : AudioMsgHeader) : Bool :=
  if header.magic ≠ audioMagic then false
  else if header.version ≠ audioVersion then false
  else true

/-- `protocol_decode_header` applied to the header in the first 16 bytes of `bs`. -/
def protocolDecodeHeader (bs : List UInt8) : AudioMsgHeader where
  magic := ntohl bs 0
  version := ntohs bs 4
  command := ntohs bs 6
  sequenceId := ntohl bs 8
  payloadLen := ntohl bs 12

/-- The bytes of a header, as every sender writes them. -/
def encodeHeader (h : AudioMsgHeader) : List UInt8 :=
  htonl h.magic ++ htons h.version ++ htons h.command ++ htonl h.sequenceId ++ htonl h.payloadLen

@[simp] theorem length_encodeHeader (h : AudioMsgHeader) :
    (encodeHeader h).length = sizeofHeader := rfl

theorem protocolDecodeHeader_encodeHeader (h : AudioMsgHeader) (rest : List UInt8) :
    protocolDecodeHeader (encodeHeader h ++ rest) = h := by
  obtain ⟨magic, version, command, sequenceId, payloadLen⟩ := h
  have h0 := ntohl_htonl magic (htons version ++ (htons command ++ (htonl sequenceId ++
    (htonl payloadLen ++ rest))))
  have h4 := ntohs_append (htonl magic) (htons version ++ (htons command ++ (htonl sequenceId ++
    (htonl payloadLen ++ rest)))) 0
  have h6 := ntohs_append (htonl magic ++ htons version) (htons command ++ (htonl sequenceId ++
    (htonl payloadLen ++ rest))) 0
  have h8 := ntohl_append (htonl magic ++ htons version ++ htons command) (htonl sequenceId ++
    (htonl payloadLen ++ rest)) 0
  have h12 := ntohl_append (htonl magic ++ htons version ++ htons command ++ htonl sequenceId)
    (htonl payloadLen ++ rest) 0
  rw [ntohs_htons] at h4 h6
  rw [ntohl_htonl] at h8 h12
  simp only [List.length_append, length_htonl, length_htons, Nat.add_zero, Nat.reduceAdd,
    List.append_assoc] at h0 h4 h6 h8 h12
  simp only [protocolDecodeHeader, encodeHeader, List.append_assoc, h0, h4, h6, h8, h12]

/-- Only the first 16 bytes of a buffer decide its header. -/
theorem protocolDecodeHeader_take (bs : List UInt8) :
    protocolDecodeHeader (bs.take sizeofHeader) = protocolDecodeHeader bs := by
  have hb : ∀ i, i < 16 → byteAt (bs.take sizeofHeader) i = byteAt bs i := by
    intro i hi
    simp [byteAt, List.getD_eq_getElem?_getD, sizeofHeader, hi]
  simp [protocolDecodeHeader, ntohl, ntohs, hb]

/-- Bytes behind the first 16 do not change the header. -/
theorem protocolDecodeHeader_append {bs : List UInt8} (rest : List UInt8)
    (h : sizeofHeader ≤ bs.length) :
    protocolDecodeHeader (bs ++ rest) = protocolDecodeHeader bs := by
  rw [← protocolDecodeHeader_take (bs ++ rest), List.take_append_of_le_length h,
    protocolDecodeHeader_take]

/-! ### The buffers of `CMD_INPUT` -/

/-- `sizeof(struct audio_start_payload)`. -/
def sizeofStartPayload : ℕ := 16
/-- `sizeof(struct audio_input_payload)`. -/
def sizeofInputPayload : ℕ := 8
/-- `sizeof(struct audio_buffer_header)`. -/
def sizeofBufferHeader : ℕ := 8

structure AudioBufferHeader where
  length : UInt32
  volume : UInt32
deriving DecidableEq, Repr

/-- `protocol_parse_next_buffer`: the buffer's header and the offset of its data (`none` for
`NULL`), and the new `*offset`.  The first check is made in `size_t`, the second one and
the advance of `*offset` in `uint32_t`, so they wrap. -/
def protocolParseNextBuffer (payload : List UInt8) (payloadLen offset : UInt32) :
    Option (AudioBufferHeader × UInt32) × UInt32 :=
  if offset.toNat + sizeofBufferHeader > payloadLen.toNat then (none, offset)
  else
    let outHeader : AudioBufferHeader :=
      ⟨ntohl payload offset.toNat, ntohl payload (offset.toNat + 4)⟩
    let offset := offset + 8
    if offset + outHeader.length > payloadLen then (none, offset)
    else (some (outHeader, offset), offset + ((outHeader.length + 3) &&& ~~~3))

/-- The data of a buffer the parser accepts lies in the payload, or its length is so large
that the second check has wrapped. -/
theorem protocolParseNextBuffer_some {payload : List UInt8} {payloadLen offset : UInt32}
    {bh : AudioBufferHeader} {dataOff offset' : UInt32}
    (h : protocolParseNextBuffer payload payloadLen offset = (some (bh, dataOff), offset')) :
    dataOff.toNat ≤ payloadLen.toNat ∧
      (dataOff.toNat + bh.length.toNat ≤ payloadLen.toNat ∨
        2 ^ 32 ≤ dataOff.toNat + bh.length.toNat) := by
  simp only [protocolParseNextBuffer, sizeofBufferHeader] at h
  split_ifs at h with h₁ h₂
  · exact absurd (congrArg Prod.fst h) (by simp)
  · exact absurd (congrArg Prod.fst h) (by simp)
  · simp only [Prod.mk.injEq, Option.some.injEq] at h
    obtain ⟨⟨rfl, rfl⟩, -⟩ := h
    have hoff : (offset + 8).toNat = offset.toNat + 8 := by
      have := payloadLen.toNat_lt
      rw [UInt32.toNat_add]
      exact Nat.mod_eq_of_lt (by simp only [UInt32.reduceToNat]; omega)
    have h₃ : (offset + 8 + ntohl payload offset.toNat).toNat ≤ payloadLen.toNat :=
      UInt32.le_iff_toNat_le.mp (UInt32.not_lt.mp h₂)
    rw [UInt32.toNat_add] at h₃
    dsimp only
    exact ⟨by omega, by omega⟩

/-- The `struct audio_start_payload` at the start of a `CMD_START` payload. -/
structure AudioStartPayload where
  inPayloadType : UInt8
  inChannels : UInt8
  flags : UInt16
  inSampleRate : UInt32
  inEndian : UInt8
  outPayloadType : UInt8
  outChannels : UInt8
  outEndian : UInt8
  outSampleRate : UInt32
deriving DecidableEq, Repr

/-- The fields of a `CMD_START` payload, in host byte order. -/
def decodeStartPayload (bs : List UInt8) : AudioStartPayload where
  inPayloadType := byteAt bs 0
  inChannels := byteAt bs 1
  flags := ntohs bs 2
  inSampleRate := ntohl bs 4
  inEndian := byteAt bs 8
  outPayloadType := byteAt bs 9
  outChannels := byteAt bs 10
  outEndian := byteAt bs 11
  outSampleRate := ntohl bs 12

end MachAudio
