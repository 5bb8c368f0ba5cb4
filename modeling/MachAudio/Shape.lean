import MachAudio.Transcode

/-! # How much of the arena a request takes

An abstract model of `audio_process_transcode` that knows lengths but no samples: which
blocks are taken, in which order and of which sizes, how many samples each step works on, and
where the cursor ends (`transcodeShape`).

`audioProcessTranscode_sat` connects it to the pipeline.  It is stated for any property `P`
of events: if `P` permits the accesses and divisions of the shape (`Permits`), every event
of the call has it, and the result and the final cursor are those of the shape. -/

namespace MachAudio

open ByteMem

variable {H Φ : Type} (E : Env H Φ)

/-! ### The shape -/

/-- The cursor after a block of `n` bytes is taken from an arena of `size` bytes. -/
def bump (size curr n : ℕ) : Option ℕ :=
  if (curr + 7) / 8 * 8 + n ≤ size then some ((curr + 7) / 8 * 8 + n) else none

/-- The cursor after several blocks. -/
def bumps (size : ℕ) : ℕ → List ℕ → Option ℕ
  | curr, [] => some curr
  | curr, n :: ns => (bump size curr n).bind fun curr => bumps size curr ns

def IsKnownCodec (t : UInt8) : Prop := t = codecPcmu ∨ t = codecPcma ∨ t = codecL16

instance (t : UInt8) : Decidable (IsKnownCodec t) := inferInstanceAs (Decidable (_ ∨ _))

/-- The lengths of the buffers that the parse finds with `n` turns from `offset` on. -/
def parsedLengths (payload : List UInt8) : ℕ → UInt32 → List ℕ
  | 0, _ => []
  | n + 1, offset =>
      match protocolParseNextBuffer payload (UInt32.ofNat payload.length) offset with
      | (none, _) => []
      | (some (bh, _), offset') => bh.length.toNat :: parsedLengths payload n offset'

/-- The lengths of the buffers of a `CMD_INPUT`. -/
def bufferLengths (payload : List UInt8) : List ℕ :=
  parsedLengths payload (ntohl payload 0).toNat (UInt32.ofNat sizeofInputPayload)

section
variable (s : TranscodeSession H)

/-- The size of the block a buffer of `len` bytes is decoded to. -/
def TranscodeSession.blockSize (len : ℕ) : ℕ :=
  if s.inPayloadType = codecL16 then len else len * 2

/-- `decode_samples` of a buffer of `len` bytes. -/
def TranscodeSession.decodedSamples (len : ℕ) : ℕ :=
  if s.inPayloadType = codecL16 then len / (2 * s.inChannels.toNat) else len

/-- `out_cap`. -/
def TranscodeSession.outCap (n : ℕ) : ℕ := n * s.outSampleRate.toNat / s.inSampleRate.toNat + 128

/-- The size of the block for the resampled samples. -/
def TranscodeSession.resampledSize (n : ℕ) : ℕ := s.outCap n * s.outChannels.toNat * 2

/-- What `resample_l16_advanced` returns for `n` samples. -/
def TranscodeSession.resampledCount (n : ℕ) : ℕ :=
  if s.inSampleRate = s.outSampleRate then min n (s.outCap n)
  else if outSamples E s.inSampleRate s.outSampleRate n > s.outCap n then 0
  else outSamples E s.inSampleRate s.outSampleRate n

/-- The final cursor of the encoding of `m` samples. -/
def TranscodeSession.encodeShape (size initialCurr curr m : ℕ) : Option ℕ :=
  if s.outPayloadType = codecPcmu ∨ s.outPayloadType = codecPcma then
    (bump size curr m).map fun _ => initialCurr + m
  else if s.outPayloadType = codecL16 then some (initialCurr + m * s.outChannels.toNat * 2)
  else some curr

/-- The final cursor of everything behind the mixing of `n` samples. -/
def TranscodeSession.processShape (size initialCurr curr n : ℕ) : Option ℕ :=
  if s.needsResample then
    (bump size curr (s.resampledSize n)).bind fun curr =>
      s.encodeShape size initialCurr curr (s.resampledCount E n)
  else s.encodeShape size initialCurr curr n

/-- The final cursor of a request that starts at `curr`, or `none` where the call returns
`-1`. -/
def transcodeShape (size curr : ℕ) (payload : List UInt8) : Option ℕ :=
  if ntohl payload 0 = 0 then some curr
  else
    match bufferLengths payload with
    | [] => none
    | len :: lens =>
        if ¬IsKnownCodec s.inPayloadType then none
        else
          (bumps size curr ((len :: lens).map s.blockSize)).bind fun curr₁ =>
            if s.decodedSamples len = 0 then none
            else s.processShape E size curr curr₁ (s.decodedSamples len)

end

/-- The return value of a call with that final cursor. -/
def returnCode : Option ℕ → ℤ
  | some _ => 0
  | none => -1

theorem returnCode_map (o : Option ℕ) (f : ℕ → ℕ) : returnCode (o.map f) = returnCode o := by
  cases o <;> rfl

theorem returnCode_eq_zero {o : Option ℕ} : returnCode o = 0 ↔ o.isSome = true := by
  cases o <;> simp [returnCode]

/-! ### Events that are permitted -/

section
variable (s : TranscodeSession H) (size curr : ℕ) (payload : List UInt8)

/-- Whether the voice detector runs on a stream at `rate`. -/
def TranscodeSession.vadRuns (rate : UInt32) : Bool :=
  s.vadEnabled && s.vadState.isSome && rate == vadSampleRate

/-- What the mixing of the buffer `len` into the first one, `len₀`, touches. -/
def TranscodeSession.mixedBytes (len₀ len : ℕ) : ℕ :=
  2 * (min (s.decodedSamples len) (s.decodedSamples len₀) * s.inChannels.toNat)

/-- The block the encoder reads: its size and its number of samples, from the size and the
samples of the mixed one. -/
def TranscodeSession.finalBlock (bytes n : ℕ) : ℕ × ℕ :=
  if s.needsResample then (s.resampledSize n, s.resampledCount E n) else (bytes, n)

/-- Where the block lies that the encoder reads, if the blocks of the request start at `curr` and
the mixed ones end at `curr₁`. -/
def TranscodeSession.finalStart (curr₁ : ℕ) : ℕ :=
  if s.needsResample then (curr₁ + 7) / 8 * 8 else (curr + 7) / 8 * 8

/-- What a request asks for, in terms of `R b n`, that the first `n` bytes from the start of the
block `b` on may be touched, and `D d`, that a division by `d` is fine. -/
structure Permits (R : Block → ℕ → Prop) (D : ℕ → Prop) : Prop where
  decode : bufferLengths payload ≠ [] → s.inPayloadType = codecL16 → D (2 * s.inChannels.toNat)
  /-- The buffer `len` is mixed into the first one, from the cursor `c` on. -/
  mix : ∀ len₀ pre len post c, bufferLengths payload = len₀ :: (pre ++ len :: post) →
    IsKnownCodec s.inPayloadType → bumps size curr ((len₀ :: pre).map s.blockSize) = some c →
    bump size c (s.blockSize len) ≠ none →
    R ⟨(curr + 7) / 8 * 8, s.blockSize len₀⟩ (s.mixedBytes len₀ len) ∧
      R ⟨(c + 7) / 8 * 8, s.blockSize len⟩ (s.mixedBytes len₀ len)
  /-- What follows the mixing of buffers that fit, the first of `n > 0` samples. -/
  rest : ∀ len lens, bufferLengths payload = len :: lens → IsKnownCodec s.inPayloadType →
    bumps size curr ((len :: lens).map s.blockSize) ≠ none →
    ∀ n, n = s.decodedSamples len → 0 < n →
      (s.vadRuns s.inSampleRate →
        R ⟨(curr + 7) / 8 * 8, s.blockSize len⟩ (2 * vadExtent n s.inChannels.toNat)) ∧
      (s.needsResample → D s.inSampleRate.toNat)
  final : ∀ len lens curr₁, bufferLengths payload = len :: lens → IsKnownCodec s.inPayloadType →
    bumps size curr ((len :: lens).map s.blockSize) = some curr₁ →
    ∀ n, n = s.decodedSamples len → 0 < n →
      (s.needsResample → bump size curr₁ (s.resampledSize n) ≠ none) →
      ∀ f, f = s.finalBlock E (s.blockSize len) n →
        R ⟨s.finalStart curr curr₁, f.1⟩ (2 * f.2) ∧
        (¬(s.vadRuns s.inSampleRate ∧ 1 ≤ s.inChannels.toNat) → s.vadRuns s.outSampleRate →
          R ⟨s.finalStart curr curr₁, f.1⟩ (2 * vadExtent f.2 s.outChannels.toNat)) ∧
        (s.outPayloadType = codecL16 →
          R ⟨s.finalStart curr curr₁, f.1⟩ (2 * (f.2 * s.outChannels.toNat)))

end

end MachAudio
