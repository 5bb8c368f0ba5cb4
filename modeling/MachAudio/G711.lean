import Mathlib.Data.List.Basic
import MachAudio.Lib.Simd

/-! # G.711

The encoders of `g711.c`, the decode tables of `g711_tables.h` and the four conversions
`transcode_pcmu_to_l16`, `transcode_pcma_to_l16`, `transcode_l16_to_pcmu` and
`transcode_l16_to_pcma`.  The decoders are the AVX2 loops, sixteen bytes at a time; they
return `none` where the source returns `-1`, which is when they write nothing. -/

namespace MachAudio

open Simd

/-! ### Encoding one sample -/

/-- The segment of a magnitude: the comparisons both encoders make. -/
def g711Segment (pcmVal : Int16) : Int16 :=
  if pcmVal < 256 then 0
  else if pcmVal < 512 then 1
  else if pcmVal < 1024 then 2
  else if pcmVal < 2048 then 3
  else if pcmVal < 4096 then 4
  else if pcmVal < 8192 then 5
  else if pcmVal < 16384 then 6
  else 7

/-- `linear_to_ulaw`.  The negation and the addition wrap at 16 bits. -/
def linearToUlaw (pcmVal : Int16) : UInt8 :=
  let mask : UInt8 := if pcmVal < 0 then 0x7F else 0xFF
  let pcmVal := if pcmVal < 0 then -pcmVal else pcmVal
  let pcmVal := if pcmVal > 32635 then 32635 else pcmVal
  let pcmVal := pcmVal + 128
  let seg := g711Segment pcmVal
  let uval := ((seg <<< 4) ||| ((pcmVal >>> (seg + 3)) &&& 0xF)).toUInt16.toUInt8
  uval ^^^ mask

/-- `linear_to_alaw`. -/
def linearToAlaw (pcmVal : Int16) : UInt8 :=
  let mask : UInt8 := if pcmVal ≥ 0 then 0xD5 else 0x55
  let pcmVal := if pcmVal ≥ 0 then pcmVal else -pcmVal - 1
  let pcmVal := if pcmVal < 0 then 0 else pcmVal
  let seg := g711Segment pcmVal
  let aval :=
    if seg = 0 then ((pcmVal >>> 4) &&& 0x0F).toUInt16.toUInt8
    else ((seg <<< 4) ||| ((pcmVal >>> (seg + 3)) &&& 0x0F)).toUInt16.toUInt8
  aval ^^^ mask

/-! ### Decode tables -/

/-- `PCMU_TO_L16_LUT_32`. -/
def pcmuToL16Lut32 : List ℤ :=
  [-32124, -31100, -30076, -29052, -28028, -27004, -25980, -24956, -23932, -22908, -21884,
    -20860, -19836, -18812, -17788, -16764, -15996, -15484, -14972, -14460, -13948, -13436,
    -12924, -12412, -11900, -11388, -10876, -10364, -9852, -9340, -8828, -8316, -7932, -7676,
    -7420, -7164, -6908, -6652, -6396, -6140, -5884, -5628, -5372, -5116, -4860, -4604, -4348,
    -4092, -3900, -3772, -3644, -3516, -3388, -3260, -3132, -3004, -2876, -2748, -2620, -2492,
    -2364, -2236, -2108, -1980, -1884, -1820, -1756, -1692, -1628, -1564, -1500, -1436, -1372,
    -1308, -1244, -1180, -1116, -1052, -988, -924, -876, -844, -812, -780, -748, -716, -684,
    -652, -620, -588, -556, -524, -492, -460, -428, -396, -372, -356, -340, -324, -308, -292,
    -276, -260, -244, -228, -212, -196, -180, -164, -148, -132, -120, -112, -104, -96, -88, -80,
    -72, -64, -56, -48, -40, -32, -24, -16, -8, 0, 32124, 31100, 30076, 29052, 28028, 27004,
    25980, 24956, 23932, 22908, 21884, 20860, 19836, 18812, 17788, 16764, 15996, 15484, 14972,
    14460, 13948, 13436, 12924, 12412, 11900, 11388, 10876, 10364, 9852, 9340, 8828, 8316, 7932,
    7676, 7420, 7164, 6908, 6652, 6396, 6140, 5884, 5628, 5372, 5116, 4860, 4604, 4348, 4092,
    3900, 3772, 3644, 3516, 3388, 3260, 3132, 3004, 2876, 2748, 2620, 2492, 2364, 2236, 2108,
    1980, 1884, 1820, 1756, 1692, 1628, 1564, 1500, 1436, 1372, 1308, 1244, 1180, 1116, 1052,
    988, 924, 876, 844, 812, 780, 748, 716, 684, 652, 620, 588, 556, 524, 492, 460, 428, 396,
    372, 356, 340, 324, 308, 292, 276, 260, 244, 228, 212, 196, 180, 164, 148, 132, 120, 112,
    104, 96, 88, 80, 72, 64, 56, 48, 40, 32, 24, 16, 8, 0]

/-- `PCMA_TO_L16_LUT_32`. -/
def pcmaToL16Lut32 : List ℤ :=
  [-5504, -5248, -6016, -5760, -4480, -4224, -4992, -4736, -7552, -7296, -8064, -7808, -6528,
    -6272, -7040, -6784, -2752, -2624, -3008, -2880, -2240, -2112, -2496, -2368, -3776, -3648,
    -4032, -3904, -3264, -3136, -3520, -3392, -22016, -20992, -24064, -23040, -17920, -16896,
    -19968, -18944, -30208, -29184, -32256, -31232, -26112, -25088, -28160, -27136, -11008,
    -10496, -12032, -11520, -8960, -8448, -9984, -9472, -15104, -14592, -16128, -15616, -13056,
    -12544, -14080, -13568, -344, -328, -376, -360, -280, -264, -312, -296, -472, -456, -504,
    -488, -408, -392, -440, -424, -88, -72, -120, -104, -24, -8, -56, -40, -216, -200, -248,
    -232, -152, -136, -184, -168, -1376, -1312, -1504, -1440, -1120, -1056, -1248, -1184, -1888,
    -1824, -2016, -1952, -1632, -1568, -1760, -1696, -688, -656, -752, -720, -560, -528, -624,
    -592, -944, -912, -1008, -976, -816, -784, -880, -848, 5504, 5248, 6016, 5760, 4480, 4224,
    4992, 4736, 7552, 7296, 8064, 7808, 6528, 6272, 7040, 6784, 2752, 2624, 3008, 2880, 2240,
    2112, 2496, 2368, 3776, 3648, 4032, 3904, 3264, 3136, 3520, 3392, 22016, 20992, 24064, 23040,
    17920, 16896, 19968, 18944, 30208, 29184, 32256, 31232, 26112, 25088, 28160, 27136, 11008,
    10496, 12032, 11520, 8960, 8448, 9984, 9472, 15104, 14592, 16128, 15616, 13056, 12544, 14080,
    13568, 344, 328, 376, 360, 280, 264, 312, 296, 472, 456, 504, 488, 408, 392, 440, 424, 88,
    72, 120, 104, 24, 8, 56, 40, 216, 200, 248, 232, 152, 136, 184, 168, 1376, 1312, 1504, 1440,
    1120, 1056, 1248, 1184, 1888, 1824, 2016, 1952, 1632, 1568, 1760, 1696, 688, 656, 752, 720,
    560, 528, 624, 592, 944, 912, 1008, 976, 816, 784, 880, 848]

/-! ### Whole buffers -/

/-- The table entries of a register of byte indices (`_mm256_i32gather_epi32`). -/
def gather (lut : List ℤ) (indices : List UInt8) : List ℤ :=
  indices.map fun b => lut.getD b.toNat 0

/-- One turn of the decode loop: sixteen bytes to sixteen samples. -/
def decodeBlock16 (lut : List ℤ) (indices16 : List UInt8) : List Int16 :=
  let samplesLo32 := gather lut (indices16.take 8)
  let samplesHi32 := gather lut ((indices16.drop 8).take 8)
  permute4x64 (packsEpi32 samplesLo32 samplesHi32) 0 2 1 3

/-- `n` turns of the decode loop. -/
def decodeBlocks (lut : List ℤ) : ℕ → List UInt8 → List Int16
  | 0, _ => []
  | n + 1, bs => decodeBlock16 lut (bs.take 16) ++ decodeBlocks lut n (bs.drop 16)

/-- The body that `transcode_pcmu_to_l16` and `transcode_pcma_to_l16` share. -/
def transcodeG711ToL16 (lut : List ℤ) (inData : List UInt8) : Option (List Int16) :=
  if inData.length % 16 ≠ 0 then none else some (decodeBlocks lut (inData.length / 16) inData)

/-- `transcode_pcmu_to_l16`. -/
def transcodePcmuToL16 (inData : List UInt8) : Option (List Int16) :=
  transcodeG711ToL16 pcmuToL16Lut32 inData

/-- `transcode_pcma_to_l16`. -/
def transcodePcmaToL16 (inData : List UInt8) : Option (List Int16) :=
  transcodeG711ToL16 pcmaToL16Lut32 inData

/-- `transcode_l16_to_pcmu`. -/
def transcodeL16ToPcmu (inData : List Int16) : List UInt8 := inData.map linearToUlaw

/-- `transcode_l16_to_pcma`. -/
def transcodeL16ToPcma (inData : List Int16) : List UInt8 := inData.map linearToAlaw

@[simp] theorem length_transcodeL16ToPcmu (xs : List Int16) :
    (transcodeL16ToPcmu xs).length = xs.length := by simp [transcodeL16ToPcmu]

@[simp] theorem length_transcodeL16ToPcma (xs : List Int16) :
    (transcodeL16ToPcma xs).length = xs.length := by simp [transcodeL16ToPcma]

/-- The sample a table gives to a byte. -/
def lookup (lut : List ℤ) (b : UInt8) : Int16 := saturate16 (lut.getD b.toNat 0)

theorem decodeBlock16_eq {lut : List ℤ} {bs : List UInt8} (h : bs.length = 16) :
    decodeBlock16 lut bs = bs.map (lookup lut) := by
  have h1 : (gather lut (bs.take 8)).length = 8 := by simp [gather, h]
  have h2 : (gather lut ((bs.drop 8).take 8)).length = 8 := by simp [gather, h]
  have h3 : bs.take 8 ++ (bs.drop 8).take 8 = bs := by
    rw [List.take_of_length_le (l := bs.drop 8) (by simp [h])]
    exact List.take_append_drop 8 bs
  simp only [decodeBlock16]
  rw [permute4x64_packsEpi32 h1 h2, ← List.map_append, gather, gather, ← List.map_append, h3,
    List.map_map]
  rfl

theorem decodeBlocks_eq (lut : List ℤ) : ∀ (n : ℕ) (bs : List UInt8), bs.length = 16 * n →
    decodeBlocks lut n bs = bs.map (lookup lut)
  | 0, bs, h => by
      have e : bs = [] := List.eq_nil_of_length_eq_zero (by omega)
      subst e
      rfl
  | n + 1, bs, h => by
      rw [decodeBlocks, decodeBlock16_eq (by simp; omega), decodeBlocks_eq lut n _ (by simp; omega),
        ← List.map_append, List.take_append_drop]

/-- The decode loop is the table, byte by byte. -/
theorem transcodeG711ToL16_eq {lut : List ℤ} {bs : List UInt8} (h : bs.length % 16 = 0) :
    transcodeG711ToL16 lut bs = some (bs.map (lookup lut)) := by
  rw [transcodeG711ToL16, if_neg (by omega), decodeBlocks_eq lut _ bs (by omega)]

theorem transcodeG711ToL16_none {lut : List ℤ} {bs : List UInt8} (h : bs.length % 16 ≠ 0) :
    transcodeG711ToL16 lut bs = none := by
  rw [transcodeG711ToL16, if_pos h]

/-- A successful decode gives one sample for every byte. -/
theorem length_of_transcodeG711ToL16 {lut : List ℤ} {bs : List UInt8} {xs : List Int16}
    (h : transcodeG711ToL16 lut bs = some xs) : xs.length = bs.length := by
  by_cases hm : bs.length % 16 = 0
  · rw [transcodeG711ToL16_eq hm, Option.some.injEq] at h
    rw [← h, List.length_map]
  · rw [transcodeG711ToL16_none hm] at h
    cases h

end MachAudio
