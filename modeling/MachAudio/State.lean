import Mathlib.Data.List.Basic
import Mathlib.Data.Rat.Floor

/-! # The state of a transcoding session

The structures of `transcode.h`, and the parameters the code runs under.

Floating point is read as rational arithmetic with a rounding after every operation:
`Env.double` and `Env.single` are those roundings, and `Env.Exact` says that they round
nothing.  A `float` that is only stored, compared or sent is its 32-bit pattern.  The sinc
table (131072 entries), the network of the voice detector, `malloc` and the clock are
parameters too. -/

namespace MachAudio

/-- Length of the resampler's delay line. -/
def resamplerMaxTaps : ℕ := 1024

/-- What the code takes from outside the modelled functions.  `H` is the hidden state of
the voice detector and `Φ` one of its features. -/
structure Env (H Φ : Type) where
  /-- Rounding of a `double` operation. -/
  double : ℚ → ℚ
  /-- Rounding of a `float` operation. -/
  single : ℚ → ℚ
  /-- `SINC_COEFFS[phase][tap]`. -/
  sincCoeffs : ℕ → ℕ → ℤ
  /-- What an index below the delay line finds: the sample `i + 1` places before it. -/
  belowDelay : ℕ → Int16
  /-- The zeroed hidden state. -/
  vadReset : H
  /-- Log-energy of one segment: its sample times, each with one sample for every channel. -/
  vadFeature : List (List Int16) → Φ
  /-- `vad_gru_process_frame`: the next hidden state and the bits of the probability. -/
  vadGruProcessFrame : H → List Φ → H × UInt32
  /-- Whether the `n`-th call of `malloc` succeeds. -/
  malloc : ℕ → Bool
  /-- What the `n`-th call of `mach_hrtime` returns. -/
  hrtime : ℕ → UInt64

/-- No rounding at all. -/
structure Env.Exact {H Φ : Type} (E : Env H Φ) : Prop where
  double : ∀ q, E.double q = q
  single : ∀ q, E.single q = q

/-- A concrete environment: exact arithmetic, an empty table, a detector that hears nothing,
and a `malloc` that succeeds. -/
def Env.plain : Env Unit Unit where
  double := id
  single := id
  sincCoeffs := fun _ _ => 0
  belowDelay := fun _ => 0
  vadReset := ()
  vadFeature := fun _ => ()
  vadGruProcessFrame := fun _ _ => ((), 0)
  malloc := fun _ => true
  hrtime := fun n => UInt64.ofNat n

/-- The `Resampler` of a session.  `coeffs` is empty for `NULL`; `taps`, which nothing
reads, is left out. -/
structure Resampler where
  coeffs : List (List ℤ)
  phases : ℕ
  /-- 32.32 fixed point. -/
  posFp : ℤ
  delayBuf : List Int16
  delayBuf_length : delayBuf.length = resamplerMaxTaps

/-- A zeroed resampler. -/
def Resampler.zero : Resampler :=
  ⟨[], 0, 0, List.replicate resamplerMaxTaps 0, List.length_replicate⟩

def codecPcmu : UInt8 := 0
def codecPcma : UInt8 := 8
def codecL16 : UInt8 := 96

theorem pcmu_ne_l16 : codecPcmu ≠ codecL16 := by decide

theorem pcma_ne_l16 : codecPcma ≠ codecL16 := by decide

theorem pcma_ne_pcmu : codecPcma ≠ codecPcmu := by decide

def endianLittle : UInt8 := 1
def endianBig : UInt8 := 2

/-- The `TranscodeSession`.  `vadState` is the state `vad_state` points to, `none` for
`NULL`; `lastVadProb` is the bit pattern of the `float`. -/
structure TranscodeSession (H : Type) where
  inPayloadType : UInt8
  inChannels : UInt8
  inEndian : UInt8
  inSampleRate : UInt32
  outPayloadType : UInt8
  outChannels : UInt8
  outEndian : UInt8
  outSampleRate : UInt32
  swapIn : Bool
  swapOut : Bool
  needsResample : Bool
  resampler : Resampler
  vadState : Option H
  vadEnabled : Bool
  lastVadProb : UInt32

/-- A zeroed session: what `memset` leaves. -/
def TranscodeSession.zero {H : Type} : TranscodeSession H where
  inPayloadType := 0
  inChannels := 0
  inEndian := 0
  inSampleRate := 0
  outPayloadType := 0
  outChannels := 0
  outEndian := 0
  outSampleRate := 0
  swapIn := false
  swapOut := false
  needsResample := false
  resampler := .zero
  vadState := none
  vadEnabled := false
  lastVadProb := 0

/-- The bit pattern of `-1.0f`. -/
def minusOneFloat : UInt32 := 0xBF800000

end MachAudio
