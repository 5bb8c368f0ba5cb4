import MachAudio.Protocol
import MachAudio.Trace
import MachAudio.G711
import MachAudio.Resampler
import MachAudio.Vad

/-! # The transcode pipeline

`mix.c` and `transcode.c`.  `audioProcessTranscode` is cut at the numbered comments of the
source into the loop that decodes and mixes the buffers (`mixInputs`), the two places that
run the voice detector (`inputVad`, `outputVad`), the resampling step and the encoding step.
A step that makes the function return `-1` returns `none`. -/

namespace MachAudio

open ByteMem Simd

variable {H Φ : Type}

/-! ### Mixing -/

/-- `clamp_add_int16`. -/
def clampAddInt16 (a b : Int16) : Int16 :=
  let sum := a.toInt + b.toInt
  if sum > 32767 then 32767 else if sum < -32768 then -32768 else Int16.ofInt sum

/-- The AVX2 loop: `n` blocks of sixteen samples from element `i` on. -/
def mixBlocks (inA inB out : Block) : ℕ → ℕ → Pipe H Unit
  | 0, _ => pure ()
  | n + 1, i => do
      let aVec ← loadSamples inA i 16
      let bVec ← loadSamples inB i 16
      storeSamples out i (addsEpi16 aVec bVec)
      mixBlocks inA inB out n (i + 16)

/-- The scalar loop: `n` samples from element `i` on. -/
def mixTail (inA inB out : Block) : ℕ → ℕ → Pipe H Unit
  | 0, _ => pure ()
  | n + 1, i => do
      let a ← loadSamples inA i 1
      let b ← loadSamples inB i 1
      storeSamples out i (List.zipWith clampAddInt16 a b)
      mixTail inA inB out n (i + 1)

/-- `mix_l16_avx2`. -/
def mixL16Avx2 (inA inB out : Block) (samples : ℕ) : Pipe H Unit := do
  let simdSamples := samples / 16 * 16
  mixBlocks inA inB out (samples / 16) 0
  mixTail inA inB out (samples - simdSamples) simdSamples

/-! ### Session control -/

/-- The session `transcode_session_init` sets up on a little-endian host before it turns to the
resampler. -/
def configuredSession (config : AudioStartPayload) : TranscodeSession H :=
  let vadEnabled := (config.flags &&& audioStartFlagsVadEnabled) != 0
  { inPayloadType := config.inPayloadType
    inChannels := config.inChannels
    inEndian := config.inEndian
    inSampleRate := config.inSampleRate
    outPayloadType := config.outPayloadType
    outChannels := config.outChannels
    outEndian := config.outEndian
    outSampleRate := config.outSampleRate
    swapIn := config.inPayloadType == codecL16 && config.inEndian == endianBig
    swapOut := config.outPayloadType == codecL16 && config.outEndian == endianBig
    needsResample := config.inSampleRate != config.outSampleRate
    resampler := .zero
    vadState := none
    vadEnabled := vadEnabled
    lastVadProb := if vadEnabled then 0 else minusOneFloat }

/-- `transcode_session_init`: the return value and the session. -/
def transcodeSessionInit (E : Env H Φ) (config : AudioStartPayload) : ℤ × TranscodeSession H :=
  let session := configuredSession config
  if session.needsResample then
    match resamplerInit E session.inSampleRate session.outSampleRate with
    | none => (-1, session)
    | some r => (0, { session with resampler := r })
  else (0, session)

/-- A failed initialisation has set everything but the resampler. -/
theorem transcodeSessionInit_session (E : Env H Φ) (config : AudioStartPayload) :
    ∃ r, (transcodeSessionInit E config).2 = { configuredSession config with resampler := r } := by
  rw [transcodeSessionInit]
  dsimp only
  split
  · split
    · exact ⟨.zero, rfl⟩
    · exact ⟨_, rfl⟩
  · exact ⟨.zero, rfl⟩

/-- `transcode_session_stop`. -/
def transcodeSessionStop (_session : TranscodeSession H) : TranscodeSession H := .zero

/-! ### Decoding and mixing the input -/

/-- The two bytes of a sample exchanged. -/
def swapSample (x : Int16) : Int16 :=
  ((x.toUInt16 <<< 8) ||| (x.toUInt16 >>> 8)).toInt16

/-- `swap_endian_l16`. -/
def swapEndianL16 (data : Block) (samples : ℕ) : Pipe H Unit := do
  let xs ← loadSamples data 0 samples
  storeSamples data 0 (xs.map swapSample)

/-- What a G.711 decoder writes: nothing when it refuses the length. -/
def storeDecoded (decodeBuf : Block) (size dataOff len : ℕ) : Option (List Int16) → Pipe H Unit
  | none => pure ()
  | some pcm => do
      note (.input size dataOff len)
      storeSamples decodeBuf 0 pcm

/-- The PCMU and PCMA branches: the decoder's return value is not looked at. -/
def decodeG711 (decode : List UInt8 → Option (List Int16)) (payload : List UInt8)
    (dataOff inDataLen : ℕ) : Pipe H (Option (Block × ℕ)) := do
  let some decodeBuf ← alloc (inDataLen * 2) | return none
  storeDecoded decodeBuf payload.length dataOff inDataLen
    (decode ((payload.drop dataOff).take inDataLen))
  return some (decodeBuf, inDataLen)

/-- The L16 branch. -/
def decodeL16 (payload : List UInt8) (dataOff inDataLen : ℕ) : Pipe H (Option (Block × ℕ)) := do
  let s ← getSession
  let decodeSamples ← divide inDataLen (2 * s.inChannels.toNat)
  let some decodeBuf ← alloc inDataLen | return none
  note (.input payload.length dataOff inDataLen)
  storeBytes decodeBuf 0 ((payload.drop dataOff).take inDataLen)
  if s.swapIn then swapEndianL16 decodeBuf (decodeSamples * s.inChannels.toNat)
  return some (decodeBuf, decodeSamples)

/-- One buffer decoded into a fresh block: the block and `decode_samples`. -/
def decodeBuffer (payload : List UInt8) (dataOff inDataLen : ℕ) :
    Pipe H (Option (Block × ℕ)) := do
  let s ← getSession
  if s.inPayloadType = codecPcmu then decodeG711 transcodePcmuToL16 payload dataOff inDataLen
  else if s.inPayloadType = codecPcma then decodeG711 transcodePcmaToL16 payload dataOff inDataLen
  else if s.inPayloadType = codecL16 then decodeL16 payload dataOff inDataLen
  else return none

/-- The body of the loop after decoding: the first buffer becomes `l16_buf`, every other one
is mixed into it. -/
def mixInto (acc : Option (Block × ℕ)) (decoded : Block × ℕ) : Pipe H (Block × ℕ) := do
  let s ← getSession
  match acc with
  | none => return decoded
  | some (l16Buf, l16Samples) =>
      let mixSamples := if decoded.2 < l16Samples then decoded.2 else l16Samples
      mixL16Avx2 l16Buf decoded.1 l16Buf (mixSamples * s.inChannels.toNat)
      return (l16Buf, l16Samples)

/-- The loop over the buffers, `n` turns left and the parse at `offset`: `l16_buf` and
`l16_samples`, where `some none` is a `NULL` buffer. -/
def mixInputs (payload : List UInt8) :
    ℕ → UInt32 → Option (Block × ℕ) → Pipe H (Option (Option (Block × ℕ)))
  | 0, _, acc => return some acc
  | n + 1, offset, acc =>
      match protocolParseNextBuffer payload (UInt32.ofNat payload.length) offset with
      | (none, _) => return some acc
      | (some (bh, dataOff), offset') => do
          let some decoded ← decodeBuffer payload dataOff.toNat bh.length.toNat | return none
          let acc' ← mixInto acc decoded
          mixInputs payload n offset' (some acc')

/-! ### The voice detector -/

/-- The call of `vad_gru_process_pcm` on `samples` sample times of a buffer. -/
def runVad (E : Env H Φ) (buf : Block) (samples channels : ℕ) : Pipe H Unit := do
  let s ← getSession
  match s.vadState with
  | none => return ()
  | some state => do
      let pcm ← loadSamples buf 0 (vadExtent samples channels)
      let r := vadGruProcessPcm E state pcm samples vadSampleRate channels
      setSession { s with lastVadProb := r.1, vadState := some r.2 }

/-- The detector on the mixed input, when the input is at 16 kHz. -/
def inputVad (E : Env H Φ) (l16Buf : Block) (l16Samples : ℕ) : Pipe H Unit := do
  let s ← getSession
  setSession { s with lastVadProb := minusOneFloat }
  if s.vadEnabled && s.vadState.isSome && s.inSampleRate == vadSampleRate then
    runVad E l16Buf l16Samples s.inChannels.toNat

/-- The detector on the resampled stream, when it has not run and the output is at 16 kHz. -/
def outputVad (E : Env H Φ) (resampledBuf : Block) (resampledSamples : ℕ) : Pipe H Unit := do
  let s ← getSession
  if s.vadEnabled && s.vadState.isSome && s.lastVadProb == minusOneFloat &&
      s.outSampleRate == vadSampleRate then
    runVad E resampledBuf resampledSamples s.outChannels.toNat

/-! ### Resampling and encoding -/

/-- Step 2: the resampled buffer and its sample count. -/
def resampleStep (E : Env H Φ) (l16Buf : Block) (l16Samples : ℕ) :
    Pipe H (Option (Block × ℕ)) := do
  let s ← getSession
  if s.needsResample then
    let q ← divide (l16Samples * s.outSampleRate.toNat) s.inSampleRate.toNat
    let outCap := q + 128
    let some resampledBuf ← alloc (outCap * s.outChannels.toNat * 2) | return none
    let pcm ← loadSamples l16Buf 0 l16Samples
    let r := resampleL16Advanced E s.resampler s.inSampleRate s.outSampleRate pcm outCap
    storeSamples resampledBuf 0 r.1
    setSession { s with resampler := r.2.2 }
    return some (resampledBuf, r.1.length)
  else return some (l16Buf, l16Samples)

/-- The final `memmove` of `len` bytes of `src` to `arena.buf + initialCurr`, and the cursor
left behind it.  The destination is the part of the arena this call has allocated. -/
def moveToStart (initialCurr : ℕ) (src : Block) (len : ℕ) : Pipe H Unit := do
  let bs ← loadBytes src 0 len
  let curr ← getCurr
  storeBytes ⟨initialCurr, curr - initialCurr⟩ 0 bs
  setCurr (initialCurr + len)

/-- The PCMU and PCMA branches of the encoding. -/
def encodeG711 (encode : List Int16 → List UInt8) (initialCurr : ℕ) (resampledBuf : Block)
    (resampledSamples : ℕ) : Pipe H ℤ := do
  let some pcmOut ← alloc resampledSamples | return -1
  let pcm ← loadSamples resampledBuf 0 resampledSamples
  storeBytes pcmOut 0 (encode pcm)
  moveToStart initialCurr pcmOut resampledSamples
  return 0

/-- The L16 branch of the encoding. -/
def encodeL16 (initialCurr : ℕ) (resampledBuf : Block) (resampledSamples : ℕ) : Pipe H ℤ := do
  let s ← getSession
  let outLen := resampledSamples * s.outChannels.toNat * 2
  if s.swapOut then swapEndianL16 resampledBuf (resampledSamples * s.outChannels.toNat)
  moveToStart initialCurr resampledBuf outLen
  return 0

/-- The encoding step; an unknown output codec leaves the arena as it is and returns 0. -/
def encodeStep (initialCurr : ℕ) (resampledBuf : Block) (resampledSamples : ℕ) : Pipe H ℤ := do
  let s ← getSession
  if s.outPayloadType = codecPcmu then
    encodeG711 transcodeL16ToPcmu initialCurr resampledBuf resampledSamples
  else if s.outPayloadType = codecPcma then
    encodeG711 transcodeL16ToPcma initialCurr resampledBuf resampledSamples
  else if s.outPayloadType = codecL16 then encodeL16 initialCurr resampledBuf resampledSamples
  else return 0

/-- What follows the loop over the buffers. -/
def processMixed (E : Env H Φ) (initialCurr : ℕ) (l16Buf : Block) (l16Samples : ℕ) :
    Pipe H ℤ := do
  inputVad E l16Buf l16Samples
  let some (resampledBuf, resampledSamples) ← resampleStep E l16Buf l16Samples | return -1
  outputVad E resampledBuf resampledSamples
  encodeStep initialCurr resampledBuf resampledSamples

/-- `audio_process_transcode`. -/
def audioProcessTranscode (E : Env H Φ) (payload : List UInt8) : Pipe H ℤ := do
  let initialCurr ← getCurr
  let numBuffers := ntohl payload 0
  if numBuffers = 0 then return 0
  else
    match ← mixInputs payload numBuffers.toNat (UInt32.ofNat sizeofInputPayload) none with
    | none => return -1
    | some none => return -1
    | some (some (l16Buf, l16Samples)) =>
        if l16Samples = 0 then return -1
        else processMixed E initialCurr l16Buf l16Samples

end MachAudio
