import MachAudio.State
import MachAudio.Arena

/-! # The voice detector

`vad_gru_init` and `vad_gru_process_pcm` of `vad_gru.c`.  The network and the log-energy of
a segment are parameters (`Env`); the framing, the loops and the maximum are the code's. -/

namespace MachAudio

variable {H Φ : Type} (E : Env H Φ)

/-! ### Comparing floats by their bits -/

def floatIsNan (b : UInt32) : Bool := 0x7F800000 < b.toNat % 2 ^ 31

/-- The order of the non-NaN floats: sign and magnitude. -/
def floatKey (b : UInt32) : ℤ := if b.toNat < 2 ^ 31 then b.toNat else -(b.toNat - 2 ^ 31 : ℤ)

/-- `a > b` on floats. -/
def floatGt (a b : UInt32) : Bool :=
  !floatIsNan a && !floatIsNan b && decide (floatKey b < floatKey a)

/-! ### Allocation -/

/-- `sizeof(VadGruState)`. -/
def sizeofVadGruState : ℕ := 96

/-- `vad_gru_init`: the block of the state, and the arena.  The padding is made on the
absolute address and stays when the allocation fails; the caller resets the state. -/
def vadGruInit (arena : Arena) : Option Block × Arena :=
  let addr := arena.addr + arena.curr
  let offset := addr % 32
  let pad := if offset = 0 then 0 else 32 - offset
  let arena := if pad > 0 then { arena with curr := (arena.curr + pad) % 2 ^ 64 } else arena
  arenaAlloc arena sizeofVadGruState

/-- The padding in front of the state: up to the next multiple of 32 of the absolute address. -/
def vadPad (arena : Arena) : ℕ :=
  if (arena.addr + arena.curr) % 32 = 0 then 0 else 32 - (arena.addr + arena.curr) % 32

theorem vadPad_lt (arena : Arena) : vadPad arena < 32 := by
  unfold vadPad
  split_ifs
  · omega
  · omega

theorem vadPad_aligned (arena : Arena) : (arena.addr + (arena.curr + vadPad arena)) % 32 = 0 := by
  unfold vadPad
  split_ifs
  · omega
  · omega

/-- `vad_gru_init` is an allocation behind the padding. -/
theorem vadGruInit_eq {arena : Arena} (h : arena.curr < 2 ^ 64) :
    vadGruInit arena =
      arenaAlloc { arena with curr := (arena.curr + vadPad arena) % 2 ^ 64 } sizeofVadGruState := by
  unfold vadGruInit
  change arenaAlloc (if vadPad arena > 0 then _ else arena) _ = _
  by_cases hpad : vadPad arena > 0
  · rw [if_pos hpad]
    rfl
  · have hzero : (arena.curr + vadPad arena) % 2 ^ 64 = arena.curr := by
      rw [Nat.mod_eq_of_lt (by omega)]
      omega
    rw [if_neg hpad, hzero]

theorem vadGruInit_withBuf (addr : ℕ) (buf m : ByteMem.Mem) (size curr : ℕ) :
    vadGruInit ⟨addr, m, size, curr⟩ =
      ((vadGruInit ⟨addr, buf, size, curr⟩).1,
        { (vadGruInit ⟨addr, buf, size, curr⟩).2 with buf := m }) := by
  simp only [vadGruInit]
  split_ifs <;> exact arenaAlloc_withBuf addr buf m size _ _

/-! ### Processing -/

def vadFeatureDim : ℕ := 20
def vadSampleRate : UInt32 := 16000
/-- `(size_t)(sample_rate * 0.02)` at 16 kHz. -/
def vadFrameSize : ℕ := 320
/-- `frame_size / VAD_FEATURE_DIM`. -/
def vadSegSize : ℕ := 16

/-- The samples of the segment that starts at sample time `start`. -/
def vadSegment (pcm : List Int16) (channels start : ℕ) : List (List Int16) :=
  (List.range vadSegSize).map fun s =>
    (List.range channels).map fun c => pcm.getD ((start + s) * channels + c) 0

/-- The features of the frame at `offset`. -/
def vadFeatures (pcm : List Int16) (channels offset : ℕ) : List Φ :=
  (List.range vadFeatureDim).map fun g =>
    E.vadFeature (vadSegment pcm channels (offset + g * vadSegSize))

/-- The frame loop: `n` frames from `offset`, the hidden state and the maximum so far. -/
def vadFrames (pcm : List Int16) (channels : ℕ) : ℕ → ℕ → H → UInt32 → UInt32 × H
  | 0, _, state, maxProb => (maxProb, state)
  | n + 1, offset, state, maxProb =>
      let r := E.vadGruProcessFrame state (vadFeatures E pcm channels offset)
      vadFrames pcm channels n (offset + vadFrameSize) r.1
        (if floatGt r.2 maxProb then r.2 else maxProb)

/-- `vad_gru_process_pcm` on a non-`NULL` state: the bits of the result and the state. -/
def vadGruProcessPcm (state : H) (pcm : List Int16) (samples : ℕ) (sampleRate : UInt32)
    (channels : ℕ) : UInt32 × H :=
  if samples < 1 ∨ channels ≤ 0 then (minusOneFloat, state)
  else if sampleRate ≠ vadSampleRate then (minusOneFloat, state)
  else vadFrames E pcm channels (samples / vadFrameSize) 0 state 0

/-- How many elements of `pcm` the frame loop reads. -/
def vadExtent (samples channels : ℕ) : ℕ := samples / vadFrameSize * vadFrameSize * channels

/-- The elements of the frame at `offset` are below the end of the last frame. -/
theorem vadSegment_index_lt {offset bound channels g i c : ℕ}
    (hoffset : offset + vadFrameSize ≤ bound) (hg : g < vadFeatureDim) (hi : i < vadSegSize)
    (hc : c < channels) :
    (offset + g * vadSegSize + i) * channels + c < bound * channels := by
  simp only [vadFrameSize, vadFeatureDim, vadSegSize] at hoffset hg hi ⊢
  calc (offset + g * 16 + i) * channels + c
      < (offset + g * 16 + i) * channels + channels := by omega
    _ = (offset + g * 16 + i + 1) * channels := (Nat.succ_mul _ _).symm
    _ ≤ bound * channels := Nat.mul_le_mul_right _ (by omega)

theorem vadFeatures_congr {pcm pcm' : List Int16} {channels offset bound : ℕ}
    (h : ∀ i < bound * channels, pcm.getD i 0 = pcm'.getD i 0)
    (hoffset : offset + vadFrameSize ≤ bound) :
    vadFeatures E pcm channels offset = vadFeatures E pcm' channels offset := by
  unfold vadFeatures vadSegment
  refine List.map_congr_left fun g hg => congrArg E.vadFeature (List.map_congr_left fun i hi =>
    List.map_congr_left fun c hc => h _ ?_)
  exact vadSegment_index_lt hoffset (List.mem_range.mp hg) (List.mem_range.mp hi)
    (List.mem_range.mp hc)

theorem vadFrames_congr {pcm pcm' : List Int16} {channels bound : ℕ}
    (h : ∀ i < bound * channels, pcm.getD i 0 = pcm'.getD i 0) :
    ∀ (n offset : ℕ) (state : H) (maxProb : UInt32), offset + n * vadFrameSize ≤ bound →
      vadFrames E pcm channels n offset state maxProb =
        vadFrames E pcm' channels n offset state maxProb
  | 0, _, _, _, _ => rfl
  | n + 1, offset, state, maxProb, hle => by
      rw [Nat.succ_mul] at hle
      rw [vadFrames, vadFrames, vadFeatures_congr E h (by omega)]
      exact vadFrames_congr h n _ _ _ (by omega)

/-- **The detector reads nothing behind `vadExtent`.** -/
theorem vadGruProcessPcm_reads {pcm pcm' : List Int16} {samples channels : ℕ}
    (h : ∀ i < vadExtent samples channels, pcm.getD i 0 = pcm'.getD i 0) (state : H)
    (sampleRate : UInt32) : vadGruProcessPcm E state pcm samples sampleRate channels =
      vadGruProcessPcm E state pcm' samples sampleRate channels := by
  unfold vadGruProcessPcm
  rw [vadFrames_congr E h (samples / vadFrameSize) 0 state 0 (by omega)]

theorem floatKey_vadFrames_nonneg (pcm : List Int16) (channels : ℕ) :
    ∀ (n offset : ℕ) (state : H) (maxProb : UInt32), 0 ≤ floatKey maxProb →
      0 ≤ floatKey (vadFrames E pcm channels n offset state maxProb).1
  | 0, _, _, _, h => h
  | n + 1, offset, state, maxProb, h => by
      rw [vadFrames]
      apply floatKey_vadFrames_nonneg
      split
      · rename_i hgt
        simp only [floatGt, Bool.and_eq_true, decide_eq_true_eq] at hgt
        omega
      · exact h

/-- With samples and a channel, the detector at 16 kHz never returns `-1.0f`. -/
theorem vadGruProcessPcm_ne_minusOne {state : H} {pcm : List Int16} {samples channels : ℕ}
    (hs : 1 ≤ samples) (hc : 1 ≤ channels) :
    (vadGruProcessPcm E state pcm samples vadSampleRate channels).1 ≠ minusOneFloat := by
  rw [vadGruProcessPcm, if_neg (by omega), if_neg (by simp)]
  intro h
  have hk := floatKey_vadFrames_nonneg E pcm channels (samples / vadFrameSize) 0 state 0 (by decide)
  rw [h] at hk
  exact absurd hk (by decide)

end MachAudio
