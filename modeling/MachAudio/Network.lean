import Mathlib.Data.Finset.Sum
import Mathlib.Algebra.BigOperators.Group.Finset.Basic
import MachAudio.Resampler
import MachAudio.Vad

/-! # The recurrent network

`vad_gru_process_frame_avx2` and the arithmetic of `vad_gru_process_pcm` of `vad_gru.c`, with every
`float` read as the rational number it stands for and no rounding after an operation.  Vector
operations work on each lane alone, so a function of a register is written for one lane; the
reductions across lanes are in the order of the code.

The weights of `vad_gru_weights.h` and the functions `expf` and `logf` of the C library are
parameters. -/

namespace MachAudio

/-! ### The exponential -/

/-- `2^n` as `exp_ps` makes it: the biased exponent shifted into place; 0 is the pattern of zero. -/
def pow2n (n : ℤ) : ℚ := if n + 127 = 0 then 0 else 2 ^ n

/-- The polynomial for `2^f`; the coefficients are the values of the `float` constants. -/
def expPoly (f : ℚ) : ℚ :=
  let c1 : ℚ := 1453635 / 2 ^ 21
  let c2 : ℚ := 1007583 / 2 ^ 22
  let c3 : ℚ := 14899271 / 2 ^ 28
  let c4 : ℚ := 10327387 / 2 ^ 30
  let c5 : ℚ := 11453439 / 2 ^ 33
  ((((c5 * f + c4) * f + c3) * f + c2) * f + c1) * f + 1

/-- `y` of `exp_ps`: the clamped argument times `log2e`. -/
def expScaled (x : ℚ) : ℚ := min (max x (-88)) 88 * (12102203 / 2 ^ 23)

/-- A lane of `exp_ps`. -/
def expPs (x : ℚ) : ℚ :=
  let y := expScaled x
  let n := roundHalfEven y
  expPoly (y - n) * pow2n n

/-- A lane of `sigmoid_ps`. -/
def sigmoidPs (x : ℚ) : ℚ := 1 / (1 + expPs (0 - x))

/-- A lane of `tanh_ps`.  The sign bit of `x` is set in the result, whatever its sign was. -/
def tanhPs (x : ℚ) : ℚ :=
  let expTerm := expPs (|x| * -2)
  let res := (1 - expTerm) / (1 + expTerm)
  if x < 0 then -|res| else res

/-! ### The state -/

def vadHiddenDim : ℕ := 24

/-- The arrays of `vad_gru_weights.h`, as functions of the index. -/
structure GruWeights where
  wInput : ℕ → ℚ
  bInput : ℕ → ℚ
  wRecurrent : ℕ → ℚ
  bRecurrent : ℕ → ℚ
  fcWeight : ℕ → ℚ
  fcBias : ℚ

structure VadGruState where
  hiddenState : List ℚ
  hiddenState_length : hiddenState.length = vadHiddenDim
deriving DecidableEq

/-- `vad_gru_reset`. -/
def vadGruReset : VadGruState := ⟨List.replicate vadHiddenDim 0, List.length_replicate⟩

/-! ### One frame -/

/-- The last steps of every dot product: two horizontal additions and the lowest lane. -/
def haddTwice (combined : ℕ → ℚ) : ℚ := combined 0 + combined 1 + (combined 2 + combined 3)

/-- A row of the input projection: `8 + 8 + 4` features. -/
def inputDot (x w : ℕ → ℚ) : ℚ :=
  let sum256 (m : ℕ) := x (8 + m) * w (8 + m) + x m * w m
  let sum128 (m : ℕ) := x (16 + m) * w (16 + m)
  haddTwice fun m => sum256 m + sum256 (4 + m) + sum128 m

/-- A row of the recurrent projection, and the output layer: `8 + 8 + 8` components. -/
def hiddenDot (h w : ℕ → ℚ) : ℚ :=
  let sum256 (m : ℕ) := h (16 + m) * w (16 + m) + (h (8 + m) * w (8 + m) + h m * w m)
  haddTwice fun m => sum256 m + sum256 (4 + m)

section frame
variable (W : GruWeights) (features : List ℚ) (hPrev : ℕ → ℚ)

def inputProj (i : ℕ) : ℚ :=
  inputDot (fun j => features.getD j 0) (fun j => W.wInput (i * 20 + j)) + W.bInput i

def recProj (i : ℕ) : ℚ :=
  hiddenDot hPrev (fun j => W.wRecurrent (i * 24 + j)) + W.bRecurrent i

/-- Component `k` of the new hidden state. -/
def hNewAt (k : ℕ) : ℚ :=
  let r := sigmoidPs (inputProj W features k + recProj W hPrev k)
  let z := sigmoidPs (inputProj W features (24 + k) + recProj W hPrev (24 + k))
  let n := tanhPs (r * recProj W hPrev (48 + k) + inputProj W features (48 + k))
  (1 - z) * n + z * hPrev k

/-- `h_new`: three groups of eight lanes. -/
def hNew : List ℚ :=
  (List.range 3).flatMap fun g =>
    (List.range 8).map fun lane => hNewAt W features hPrev (g * 8 + lane)

theorem length_hNew : (hNew W features hPrev).length = vadHiddenDim := rfl

end frame

/-- `vad_gru_process_frame_avx2` on a state and features that are not `NULL`: the state after the
frame and the probability. -/
def vadGruProcessFrameAvx2 (W : GruWeights) (expf : ℚ → ℚ) (state : VadGruState)
    (features : List ℚ) (numFeatures : ℕ) : VadGruState × ℚ :=
  if numFeatures ≠ vadFeatureDim then (state, 0)
  else
    let hPrev (k : ℕ) := state.hiddenState.getD k 0
    let new := hNew W features hPrev
    let outVal := hiddenDot (fun k => new.getD k 0) W.fcWeight + W.fcBias
    (⟨new, length_hNew W features hPrev⟩, 1 / (1 + expf (-outVal)))

/-! ### A buffer -/

/-- The feature of a segment: its sample times, each with one sample for every channel. -/
def segmentFeature (logf : ℚ → ℚ) (segment : List (List Int16)) : ℚ :=
  let energy : ℚ := segment.foldl (fun (energy : ℚ) (sample : List Int16) =>
    let val : ℚ := sample.foldl (fun (val : ℚ) (x : Int16) => val + x.toInt) 0 / sample.length
    energy + |val| / 32768) 0
  logf (1 + energy / vadSegSize * 10)

/-- The features of the frame at `offset`. -/
def segmentFeatures (logf : ℚ → ℚ) (pcm : List Int16) (channels offset : ℕ) : List ℚ :=
  (List.range vadFeatureDim).map fun g =>
    segmentFeature logf (vadSegment pcm channels (offset + g * vadSegSize))

section pcm
variable (W : GruWeights) (expf logf : ℚ → ℚ) (pcm : List Int16)

/-- The frame loop on the probabilities themselves. -/
def gruFrameLoop (channels : ℕ) : ℕ → ℕ → VadGruState → ℚ → ℚ × VadGruState
  | 0, _, state, maxProb => (maxProb, state)
  | n + 1, offset, state, maxProb =>
      let r := vadGruProcessFrameAvx2 W expf state (segmentFeatures logf pcm channels offset)
        vadFeatureDim
      gruFrameLoop channels n (offset + vadFrameSize) r.1 (if r.2 > maxProb then r.2 else maxProb)

/-- `vad_gru_process_pcm` on a state that is not `NULL`, with the number it returns: the model in
`Vad` has the bits of the `float`. -/
def gruProcessPcm (state : VadGruState) (samples : ℕ) (sampleRate : UInt32) (channels : ℕ) :
    ℚ × VadGruState :=
  if samples < 1 ∨ channels ≤ 0 then (-1, state)
  else if sampleRate ≠ vadSampleRate then (-1, state)
  else gruFrameLoop W expf logf pcm channels (samples / vadFrameSize) 0 state 0

end pcm

/-! ### The reductions -/

/-- The lanes add up to the dot product. -/
theorem inputDot_eq (x w : ℕ → ℚ) : inputDot x w = ∑ j ∈ Finset.range 20, x j * w j := by
  unfold inputDot haddTwice
  simp only [Finset.sum_range_succ, Finset.sum_range_zero, Nat.reduceAdd, Nat.add_zero]
  ring

theorem hiddenDot_eq (h w : ℕ → ℚ) : hiddenDot h w = ∑ j ∈ Finset.range 24, h j * w j := by
  unfold hiddenDot haddTwice
  simp only [Finset.sum_range_succ, Finset.sum_range_zero, Nat.reduceAdd, Nat.add_zero]
  ring

end MachAudio
