import Mathlib.Tactic.IntervalCases
import MachAudio.Reassembly
import MachAudio.Shape

/-! # What a client sends

The payloads of `CMD_START` and `CMD_INPUT` as the client of the repository lays them out,
and that the server reads back what was laid out. -/

namespace MachAudio

/-- The request with a command, a sequence number and a payload. -/
def request (command : UInt16) (sequenceId : UInt32) (payload : List UInt8) : Message :=
  ⟨⟨audioMagic, audioVersion, command, sequenceId, UInt32.ofNat payload.length⟩, payload⟩

theorem toNat_ofNat_of_lt {n : ℕ} (h : n < 2 ^ 31) : (UInt32.ofNat n).toNat = n := by
  rw [UInt32.toNat_ofNat']
  exact Nat.mod_eq_of_lt (by omega)

/-- A request is validly framed. -/
def framedRequest (command : UInt16) (sequenceId : UInt32) (payload : List UInt8)
    (h : payload.length < 2 ^ 31) : FramedMessage where
  message := request command sequenceId payload
  valid := rfl
  length_eq := toNat_ofNat_of_lt h

/-! ### `CMD_START` -/

def startPayload (c : AudioStartPayload) : List UInt8 :=
  [c.inPayloadType, c.inChannels] ++ htons c.flags ++ htonl c.inSampleRate ++
    [c.inEndian, c.outPayloadType, c.outChannels, c.outEndian] ++ htonl c.outSampleRate

theorem length_startPayload (c : AudioStartPayload) :
    (startPayload c).length = sizeofStartPayload := rfl

/-- A `CMD_START` as a client sends it. -/
def framedStart (sequenceId : UInt32) (c : AudioStartPayload) : FramedMessage :=
  framedRequest cmdStart sequenceId (startPayload c) ((length_startPayload c).trans_lt (by decide))

/-- The server reads the configuration the client sent. -/
theorem decodeStartPayload_startPayload (c : AudioStartPayload) :
    decodeStartPayload (startPayload c) = c := by
  obtain ⟨inType, inChannels, flags, inRate, inEndian, outType, outChannels, outEndian, outRate⟩ := c
  have h2 := ntohs_append [inType, inChannels] (htons flags ++ (htonl inRate ++
    ([inEndian, outType, outChannels, outEndian] ++ htonl outRate))) 0
  have h4 := ntohl_append ([inType, inChannels] ++ htons flags) (htonl inRate ++
    ([inEndian, outType, outChannels, outEndian] ++ htonl outRate)) 0
  have h12 := ntohl_append ([inType, inChannels] ++ htons flags ++ htonl inRate ++
    [inEndian, outType, outChannels, outEndian]) (htonl outRate ++ []) 0
  rw [ntohs_htons] at h2
  rw [ntohl_htonl] at h4 h12
  simp only [List.length_append, length_htonl, length_htons, List.length_cons, List.length_nil,
    Nat.add_zero, Nat.zero_add, Nat.reduceAdd, List.append_assoc, List.append_nil] at h2 h4 h12
  simp only [decodeStartPayload, startPayload, List.append_assoc, h2, h4, h12]
  rfl

/-! ### `CMD_INPUT` -/

/-- `(length + 3) & ~3`. -/
def padded (n : ℕ) : ℕ := (n + 3) / 4 * 4

/-- The bits of `1.0f`. -/
def oneFloat : UInt32 := 0x3F800000

/-- A buffer of `CMD_INPUT`: the bits of its volume and its data. -/
structure WireBuffer where
  volume : UInt32
  data : List UInt8
deriving DecidableEq, Repr

/-- The buffer header, the data and the zeros up to the next multiple of four. -/
def WireBuffer.encode (b : WireBuffer) : List UInt8 :=
  htonl (UInt32.ofNat b.data.length) ++ htonl b.volume ++ b.data ++
    List.replicate (padded b.data.length - b.data.length) 0

/-- The payload of `CMD_INPUT`: the container and the buffers. -/
def wirePayload (buffers : List WireBuffer) : List UInt8 :=
  htonl (UInt32.ofNat buffers.length) ++ htonl 0 ++ buffers.flatMap WireBuffer.encode

/-- The payload for buffers at full volume. -/
def inputPayload (buffers : List (List UInt8)) : List UInt8 :=
  wirePayload (buffers.map fun data => ⟨oneFloat, data⟩)

theorem le_padded (n : ℕ) : n ≤ padded n := by
  unfold padded
  omega

theorem WireBuffer.length_encode (b : WireBuffer) :
    b.encode.length = sizeofBufferHeader + padded b.data.length := by
  have := le_padded b.data.length
  simp only [encode, sizeofBufferHeader, List.length_append, length_htonl, List.length_replicate]
  omega

theorem length_wirePayload (buffers : List WireBuffer) :
    (wirePayload buffers).length =
      sizeofInputPayload + (buffers.flatMap WireBuffer.encode).length := by
  rw [wirePayload, List.length_append]
  rfl

/-- A list is no longer than what its elements are encoded to. -/
theorem length_le_length_flatMap {α β : Type} {f : α → List β} (h : ∀ a, 1 ≤ (f a).length)
    (l : List α) : l.length ≤ (l.flatMap f).length := by
  induction l with
  | nil => exact Nat.le_refl _
  | cons a l ih =>
      have := h a
      rw [List.flatMap_cons, List.length_append, List.length_cons]
      omega

theorem and_not_three (x : UInt32) : x &&& (~~~3 : UInt32) = (x >>> 2) <<< 2 := by
  apply UInt32.toBitVec_inj.mp
  apply BitVec.eq_of_getLsbD_eq
  intro i hi
  simp only [UInt32.toBitVec_and, UInt32.toBitVec_shiftLeft, UInt32.toBitVec_shiftRight]
  interval_cases i <;> simp

theorem toNat_padded {x : UInt32} (h : x.toNat < 2 ^ 31) :
    ((x + 3) &&& ~~~3).toNat = padded x.toNat := by
  rw [and_not_three, UInt32.toNat_shiftLeft, UInt32.toNat_shiftRight, UInt32.toNat_add, padded]
  simp only [Nat.shiftLeft_eq, Nat.shiftRight_eq_div_pow, UInt32.reduceToNat, Nat.reduceMod,
    Nat.reducePow]
  omega

/-- The parser finds a buffer where it was put, and goes on behind its padding. -/
theorem protocolParseNextBuffer_at {payload pre data rest : List UInt8} (volume : UInt32)
    (hp : payload = pre ++ (htonl (UInt32.ofNat data.length) ++ (htonl volume ++ (data ++ rest))))
    (hlen : payload.length < 2 ^ 31) :
    protocolParseNextBuffer payload (UInt32.ofNat payload.length) (UInt32.ofNat pre.length) =
      (some (⟨UInt32.ofNat data.length, volume⟩, UInt32.ofNat (pre.length + sizeofBufferHeader)),
        UInt32.ofNat (pre.length + sizeofBufferHeader + padded data.length)) := by
  have hl : payload.length = pre.length + 8 + data.length + rest.length := by
    rw [hp]
    simp only [List.length_append, length_htonl]
    omega
  have hle : padded data.length ≤ data.length + 3 := by
    unfold padded
    omega
  have h0 : ntohl payload pre.length = UInt32.ofNat data.length := by
    have h := ntohl_append pre (htonl (UInt32.ofNat data.length) ++ (htonl volume ++
      (data ++ rest))) 0
    rwa [Nat.add_zero, ← hp, ntohl_htonl] at h
  have h4 : ntohl payload (pre.length + 4) = volume := by
    have h := ntohl_append (pre ++ htonl (UInt32.ofNat data.length)) (htonl volume ++
      (data ++ rest)) 0
    rwa [ntohl_htonl, List.length_append, length_htonl, Nat.add_zero, List.append_assoc, ← hp] at h
  have hpre := toNat_ofNat_of_lt (show pre.length < 2 ^ 31 by omega)
  have hdata := toNat_ofNat_of_lt (show data.length < 2 ^ 31 by omega)
  have hend := toNat_ofNat_of_lt hlen
  have h8 : UInt32.ofNat pre.length + 8 = UInt32.ofNat (pre.length + 8) := by
    rw [UInt32.ofNat_add]
    rfl
  simp only [sizeofBufferHeader]
  rw [protocolParseNextBuffer, sizeofBufferHeader, hpre, hend, if_neg (by omega)]
  dsimp only
  rw [h0, h4, h8, if_neg]
  · refine Prod.ext rfl ?_
    apply UInt32.toNat_inj.mp
    have hp3 := toNat_padded (x := UInt32.ofNat data.length) (by omega)
    rw [hdata] at hp3
    dsimp only
    rw [UInt32.toNat_add, toNat_ofNat_of_lt (by omega), hp3, UInt32.toNat_ofNat']
  · rw [UInt32.not_lt, UInt32.le_iff_toNat_le, UInt32.toNat_add, toNat_ofNat_of_lt (by omega),
      hdata, hend]
    omega

/-- The data of the buffer is the slice behind its header. -/
theorem slice_at {payload pre data rest : List UInt8} {volume : UInt32}
    (hp : payload = pre ++ (htonl (UInt32.ofNat data.length) ++ (htonl volume ++ (data ++ rest)))) :
    (payload.drop (pre.length + sizeofBufferHeader)).take data.length = data := by
  have hhead : payload = pre ++ (htonl (UInt32.ofNat data.length) ++ htonl volume) ++
      (data ++ rest) := by
    rw [hp]
    simp only [List.append_assoc]
  rw [hhead, List.drop_left' (by rw [List.length_append, List.length_append]; rfl),
    List.take_left]

theorem protocolParseNextBuffer_encode {payload pre rest : List UInt8} (b : WireBuffer)
    (hp : payload = pre ++ (b.encode ++ rest)) (hlen : payload.length < 2 ^ 31) :
    protocolParseNextBuffer payload (UInt32.ofNat payload.length) (UInt32.ofNat pre.length) =
      (some (⟨UInt32.ofNat b.data.length, b.volume⟩,
          UInt32.ofNat (pre.length + sizeofBufferHeader)),
        UInt32.ofNat (pre.length + b.encode.length)) := by
  rw [b.length_encode, ← Nat.add_assoc]
  apply protocolParseNextBuffer_at b.volume _ hlen
  · exact List.replicate (padded b.data.length - b.data.length) 0 ++ rest
  · rw [hp, WireBuffer.encode]
    simp only [List.append_assoc]

theorem slice_encode {payload pre rest : List UInt8} (b : WireBuffer)
    (hp : payload = pre ++ (b.encode ++ rest)) :
    (payload.drop (pre.length + sizeofBufferHeader)).take b.data.length = b.data := by
  have hat : payload = pre ++ (htonl (UInt32.ofNat b.data.length) ++ (htonl b.volume ++
      (b.data ++ (List.replicate (padded b.data.length - b.data.length) 0 ++ rest)))) := by
    rw [hp, WireBuffer.encode]
    simp only [List.append_assoc]
  exact slice_at hat

theorem parsedLengths_encode : ∀ (buffers : List WireBuffer) (pre payload : List UInt8),
    payload = pre ++ buffers.flatMap WireBuffer.encode → payload.length < 2 ^ 31 →
    parsedLengths payload buffers.length (UInt32.ofNat pre.length) =
      buffers.map fun b => b.data.length
  | [], _, _, _, _ => rfl
  | b :: buffers, pre, payload, hp, hlen => by
      have hp' : payload = pre ++ (b.encode ++ buffers.flatMap WireBuffer.encode) := hp
      have ih := parsedLengths_encode buffers (pre ++ b.encode) payload
        (by rw [hp', List.append_assoc]) hlen
      have hl : b.data.length ≤ payload.length := by
        have hb := b.length_encode
        rw [padded] at hb
        rw [hp', List.length_append, List.length_append]
        omega
      rw [List.length_append] at ih
      rw [List.length_cons, parsedLengths, protocolParseNextBuffer_encode b hp' hlen]
      dsimp only
      rw [ih, toNat_ofNat_of_lt (by omega), List.map_cons]

/-- The server finds as many buffers announced as the client sent. -/
theorem ntohl_wirePayload (buffers : List WireBuffer) :
    ntohl (wirePayload buffers) 0 = UInt32.ofNat buffers.length := by
  rw [wirePayload, List.append_assoc, ntohl_htonl]

/-- The server finds the buffers the client sent. -/
theorem bufferLengths_wirePayload {buffers : List WireBuffer}
    (h : (wirePayload buffers).length < 2 ^ 31) :
    bufferLengths (wirePayload buffers) = buffers.map fun b => b.data.length := by
  have hn : buffers.length ≤ (wirePayload buffers).length := by
    have := length_le_length_flatMap (f := WireBuffer.encode) (fun b => by
      rw [b.length_encode, sizeofBufferHeader]
      omega) buffers
    rw [length_wirePayload]
    omega
  rw [bufferLengths, ntohl_wirePayload, toNat_ofNat_of_lt (by omega)]
  exact parsedLengths_encode buffers _ _ rfl h

theorem length_inputPayload_singleton (data : List UInt8) :
    (inputPayload [data]).length =
      sizeofInputPayload + (sizeofBufferHeader + padded data.length) := by
  rw [inputPayload, length_wirePayload, List.map_singleton, List.flatMap_singleton,
    WireBuffer.length_encode]

theorem ntohl_inputPayload (buffers : List (List UInt8)) :
    ntohl (inputPayload buffers) 0 = UInt32.ofNat buffers.length := by
  rw [inputPayload, ntohl_wirePayload, List.length_map]

theorem bufferLengths_inputPayload {buffers : List (List UInt8)}
    (h : (inputPayload buffers).length < 2 ^ 31) :
    bufferLengths (inputPayload buffers) = buffers.map List.length := by
  rw [inputPayload, bufferLengths_wirePayload h, List.map_map]
  rfl

end MachAudio
