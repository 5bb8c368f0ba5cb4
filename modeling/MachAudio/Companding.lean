import Mathlib.Tactic.IntervalCases
import Mathlib.Tactic.Ring
import Mathlib.Tactic.Positivity
import Mathlib.Data.List.GetD
import MachAudio.Transcode

/-! # What the encoders of G.711 undo

A code of G.711 is a sign, a segment and four bits: a segment has sixteen steps and the next one
has steps twice as wide. The encoders find the segment by comparisons in 16-bit arithmetic and the
decoders read a table, so both are first brought to one arithmetic of magnitudes:

* `segmentCode` and `alawCode` are the seven bits that the encoders leave before the final
  exclusive or (`linearToUlaw_of_nonneg`, `linearToAlaw_of_nonneg` and their negative siblings);
* `codeLevel` and `alawLevel` are the magnitudes in the tables (`pcmuToL16Lut32_eq`,
  `pcmaToL16Lut32_eq`);
* encoding and decoding a magnitude moves it to the middle of its step (`quantize`), which is at
  most half a step away and keeps the order of magnitudes.

The u-law encoder negates a negative sample in sixteen bits. The smallest sample is its own
negation, so it goes on as a negative magnitude and is encoded as silence: the law of whole buffers
(`g711_round_trips_iff`) excludes exactly that sample. -/

namespace MachAudio

open Simd

/-! ### Encoding -/

/-- The segment of a magnitude. -/
def segmentOf (v : ℕ) : ℕ :=
  if v < 256 then 0
  else if v < 512 then 1
  else if v < 1024 then 2
  else if v < 2048 then 3
  else if v < 4096 then 4
  else if v < 8192 then 5
  else if v < 16384 then 6
  else 7

theorem toInt_ofNat_of_lt {v : ℕ} (hv : v < 2 ^ 15) : (Int16.ofNat v).toInt = v := by
  rw [Int16.toInt_ofNat', Int.bmod_eq_of_le] <;> simp only [Int16.size] <;> omega

theorem ofNat_lt_ofNat {v w : ℕ} (hv : v < 2 ^ 15) (hw : w < 2 ^ 15) :
    Int16.ofNat v < Int16.ofNat w ↔ v < w := by
  rw [Int16.lt_iff_toInt_lt, toInt_ofNat_of_lt hv, toInt_ofNat_of_lt hw]
  omega

theorem g711Segment_ofNat {v : ℕ} (hv : v < 2 ^ 15) :
    g711Segment (Int16.ofNat v) = Int16.ofNat (segmentOf v) := by
  have h : ∀ w : ℕ, w < 2 ^ 15 → (Int16.ofNat v < Int16.ofNat w ↔ v < w) :=
    fun w hw => ofNat_lt_ofNat hv hw
  unfold g711Segment segmentOf
  have h0 := h 256 (by norm_num)
  have h1 := h 512 (by norm_num)
  have h2 := h 1024 (by norm_num)
  have h3 := h 2048 (by norm_num)
  have h4 := h 4096 (by norm_num)
  have h5 := h 8192 (by norm_num)
  have h6 := h 16384 (by norm_num)
  simp only [Int16.reduceOfNat] at h0 h1 h2 h3 h4 h5 h6
  simp only [h0, h1, h2, h3, h4, h5, h6]
  split_ifs <;> rfl

/-- Four bits of a shifted magnitude. -/
theorem toNat_shifted {v : ℕ} (hv : v < 2 ^ 15) (k : ℕ) :
    ((BitVec.ofNat 16 v).sshiftRight k &&& 15#16).toNat = v / 2 ^ k % 16 := by
  have hn : (BitVec.ofNat 16 v).toNat = v := by
    rw [BitVec.toNat_ofNat]
    omega
  have hmsb : (BitVec.ofNat 16 v).msb = false := by
    rw [BitVec.msb_eq_false_iff_two_mul_lt, hn]
    omega
  rw [BitVec.sshiftRight_eq_of_msb_false hmsb, BitVec.toNat_and, BitVec.toNat_ushiftRight, hn,
    Nat.shiftRight_eq_div_pow]
  exact Nat.and_two_pow_sub_one_eq_mod _ 4

theorem segment_code {s v : ℕ} (hs : s < 8) (hv : v < 2 ^ 15) :
    ((Int16.ofNat s <<< 4) |||
        ((Int16.ofNat v >>> (Int16.ofNat s + 3)) &&& 0xF)).toUInt16.toUInt8 =
      UInt8.ofNat (16 * s + v / 2 ^ (s + 3) % 16) := by
  have hbits := toNat_shifted hv (s + 3)
  have hor : 16 * s ||| v / 2 ^ (s + 3) % 16 = 16 * s + v / 2 ^ (s + 3) % 16 := by
    have h := Nat.two_pow_add_eq_or_of_lt (i := 4)
      (Nat.mod_lt (v / 2 ^ (s + 3)) (by norm_num : 16 > 0)) s
    exact h.symm
  apply UInt8.toNat_inj.mp
  rw [UInt16.toNat_toUInt8, UInt8.toNat_ofNat', ← hor, ← hbits]
  interval_cases s <;> rfl

/-- The segment and the four bits behind the leading one. -/
def segmentCode (v : ℕ) : ℕ := 16 * segmentOf v + v / 2 ^ (segmentOf v + 3) % 16

/-- The code of A-law: the lowest segment has steps as wide as the next one. -/
def alawCode (v : ℕ) : ℕ := if segmentOf v = 0 then v / 16 % 16 else segmentCode v

theorem segmentOf_lt (v : ℕ) : segmentOf v < 8 := by
  unfold segmentOf
  split_ifs <;> norm_num

theorem segmentCode_lt (v : ℕ) : segmentCode v < 128 := by
  have hs := segmentOf_lt v
  have hm := Nat.mod_lt (v / 2 ^ (segmentOf v + 3)) (show 16 > 0 by norm_num)
  unfold segmentCode
  omega

theorem xor_masks : ∀ c < 128, UInt8.ofNat c ^^^ 0xFF = UInt8.ofNat (255 - c) ∧
    UInt8.ofNat c ^^^ 0x7F = UInt8.ofNat (127 - c) := by
  decide +kernel

theorem linearToUlaw_bits {v : ℕ} (hv : v < 2 ^ 15) (mask : UInt8) :
    (let pcmVal := if Int16.ofNat v > 32635 then 32635 else Int16.ofNat v
     let pcmVal := pcmVal + 128
     let seg := g711Segment pcmVal
     let uval := ((seg <<< 4) ||| ((pcmVal >>> (seg + 3)) &&& 0xF)).toUInt16.toUInt8
     uval ^^^ mask) = UInt8.ofNat (segmentCode (min v 32635 + 128)) ^^^ mask := by
  have hclip : (if Int16.ofNat v > 32635 then (32635 : Int16) else Int16.ofNat v) + 128 =
      Int16.ofNat (min v 32635 + 128) := by
    have h := ofNat_lt_ofNat (v := 32635) (by norm_num) hv
    simp only [Int16.reduceOfNat] at h
    rw [Int16.ofNat_add]
    by_cases hgt : 32635 < v
    · rw [if_pos (h.mpr hgt), Nat.min_eq_right (by omega)]
      rfl
    · rw [if_neg (fun hc => hgt (h.mp hc)), Nat.min_eq_left (by omega)]
      rfl
  dsimp only
  rw [hclip, g711Segment_ofNat (by omega), segment_code (segmentOf_lt _) (by omega)]
  rfl

theorem linearToUlaw_of_nonneg {x : Int16} {v : ℕ} (h : x.toInt = v) :
    linearToUlaw x = UInt8.ofNat (255 - segmentCode (min v 32635 + 128)) := by
  have hv : v < 2 ^ 15 := by
    have := x.toInt_lt
    omega
  have hx : x = Int16.ofNat v := by
    rw [← Int16.toInt_inj, h, toInt_ofNat_of_lt hv]
  have hneg : ¬x < 0 := by
    rw [Int16.lt_iff_toInt_lt, h]
    exact Int.not_lt.mpr (Int.natCast_nonneg v)
  unfold linearToUlaw
  simp only [if_neg hneg]
  rw [hx, linearToUlaw_bits hv, (xor_masks _ (segmentCode_lt _)).1]

theorem linearToUlaw_of_neg {x : Int16} {v : ℕ} (h : x.toInt = -v) (hpos : 0 < v)
    (hv : v < 2 ^ 15) :
    linearToUlaw x = UInt8.ofNat (127 - segmentCode (min v 32635 + 128)) := by
  have hx : -x = Int16.ofNat v := by
    rw [← Int16.toInt_inj, Int16.toInt_neg, h, toInt_ofNat_of_lt hv, Int.bmod_eq_of_le] <;> omega
  have hneg : x < 0 := by
    rw [Int16.lt_iff_toInt_lt, h]
    show -(v : ℤ) < 0
    omega
  unfold linearToUlaw
  simp only [if_pos hneg]
  rw [hx, linearToUlaw_bits hv, (xor_masks _ (segmentCode_lt _)).2]

theorem linearToAlaw_bits {v : ℕ} (hv : v < 2 ^ 15) (mask : UInt8) :
    (let pcmVal := if Int16.ofNat v < 0 then 0 else Int16.ofNat v
     let seg := g711Segment pcmVal
     let aval :=
       if seg = 0 then ((pcmVal >>> 4) &&& 0x0F).toUInt16.toUInt8
       else ((seg <<< 4) ||| ((pcmVal >>> (seg + 3)) &&& 0x0F)).toUInt16.toUInt8
     aval ^^^ mask) = UInt8.ofNat (alawCode v) ^^^ mask := by
  have hneg : ¬Int16.ofNat v < 0 := by
    rw [Int16.lt_iff_toInt_lt, toInt_ofNat_of_lt hv]
    exact Int.not_lt.mpr (Int.natCast_nonneg v)
  have hseg : Int16.ofNat (segmentOf v) = 0 ↔ segmentOf v = 0 := by
    have hs := segmentOf_lt v
    rw [← Int16.toInt_inj, toInt_ofNat_of_lt (by omega)]
    exact Int.natCast_eq_zero
  have hlow : ((Int16.ofNat v >>> 4) &&& 0x0F).toUInt16.toUInt8 = UInt8.ofNat (v / 16 % 16) := by
    apply UInt8.toNat_inj.mp
    rw [UInt16.toNat_toUInt8, UInt8.toNat_ofNat']
    exact congrArg (· % 256) (toNat_shifted hv 4)
  dsimp only
  unfold alawCode
  rw [if_neg hneg, g711Segment_ofNat hv, segment_code (segmentOf_lt v) hv, hlow]
  by_cases hs : segmentOf v = 0
  · rw [if_pos (hseg.mpr hs), if_pos hs]
  · rw [if_neg (fun h => hs (hseg.mp h)), if_neg hs]
    rfl

theorem linearToAlaw_of_nonneg {x : Int16} {v : ℕ} (h : x.toInt = v) :
    linearToAlaw x = UInt8.ofNat (alawCode v) ^^^ 0xD5 := by
  have hv : v < 2 ^ 15 := by
    have := x.toInt_lt
    omega
  have hx : x = Int16.ofNat v := by
    rw [← Int16.toInt_inj, h, toInt_ofNat_of_lt hv]
  have hpos : x ≥ 0 := by
    show 0 ≤ x
    rw [Int16.le_iff_toInt_le, h]
    exact Int.natCast_nonneg v
  unfold linearToAlaw
  simp only [if_pos hpos]
  rw [hx]
  exact linearToAlaw_bits hv 0xD5

theorem linearToAlaw_of_neg {x : Int16} {v : ℕ} (h : x.toInt = -v - 1) :
    linearToAlaw x = UInt8.ofNat (alawCode v) ^^^ 0x55 := by
  have hv : v < 2 ^ 15 := by
    have := x.le_toInt
    omega
  have hx : -x - 1 = Int16.ofNat v := by
    have h1 : (1 : Int16).toInt = 1 := rfl
    rw [← Int16.toInt_inj, Int16.toInt_sub, Int16.toInt_neg, h, h1, toInt_ofNat_of_lt hv]
    rcases Nat.lt_or_ge v 32767 with hlt | hge
    · rw [Int.bmod_eq_of_le (n := -(-(v : ℤ) - 1)), Int.bmod_eq_of_le] <;> omega
    · obtain rfl : v = 32767 := by omega
      rfl
  have hpos : ¬x ≥ 0 := by
    show ¬(0 ≤ x)
    rw [Int16.le_iff_toInt_le, h]
    show ¬((0 : ℤ) ≤ -v - 1)
    omega
  unfold linearToAlaw
  simp only [if_neg hpos]
  rw [hx]
  exact linearToAlaw_bits hv 0x55

/-! ### Decoding -/

/-- The middle of the step that `w` lies in, when a segment has sixteen steps of `2 ^ (s + 3)`. -/
def quantize (s w : ℕ) : ℕ := (2 * (w / 2 ^ (s + 3)) + 1) * 2 ^ (s + 2)

/-- The middle of the step of a code. -/
def codeLevel (c : ℕ) : ℕ := (2 * (16 + c % 16) + 1) * 2 ^ (c / 16 + 2)

def alawLevel (c : ℕ) : ℕ := if c < 16 then 16 * c + 8 else codeLevel c

theorem pcmuToL16Lut32_eq : pcmuToL16Lut32 =
    ((List.range 128).map fun b => -((codeLevel (127 - b) : ℤ) - 132)) ++
      (List.range 128).map fun b => (codeLevel (127 - b) : ℤ) - 132 := by
  decide +kernel

theorem pcmaToL16Lut32_eq : pcmaToL16Lut32 =
    ((List.range 128).map fun b => -(alawLevel (b ^^^ 0x55) : ℤ)) ++
      (List.range 128).map fun b => (alawLevel (b ^^^ 0x55) : ℤ) := by
  decide +kernel

/-- The two halves of a table. -/
theorem getD_halves {f g : ℕ → ℤ} {b : ℕ} (hb : b < 128) :
    ((List.range 128).map f ++ (List.range 128).map g).getD b 0 = f b ∧
      ((List.range 128).map f ++ (List.range 128).map g).getD (128 + b) 0 = g b := by
  constructor
  · rw [List.getD_eq_getElem _ _ (by simp; omega), List.getElem_append_left (by simpa using hb)]
    simp
  · rw [List.getD_eq_getElem _ _ (by simp; omega), List.getElem_append_right (by simp)]
    simp

theorem pcmuToL16Lut32_code {c : ℕ} (hc : c < 128) :
    pcmuToL16Lut32.getD (UInt8.ofNat (255 - c)).toNat 0 = (codeLevel c : ℤ) - 132 ∧
      pcmuToL16Lut32.getD (UInt8.ofNat (127 - c)).toNat 0 = -((codeLevel c : ℤ) - 132) := by
  have h := getD_halves (f := fun b => -((codeLevel (127 - b) : ℤ) - 132))
    (g := fun b => (codeLevel (127 - b) : ℤ) - 132) (show 127 - c < 128 by omega)
  rw [← pcmuToL16Lut32_eq, show 128 + (127 - c) = 255 - c by omega,
    show 127 - (127 - c) = c by omega] at h
  rw [UInt8.toNat_ofNat', UInt8.toNat_ofNat', Nat.mod_eq_of_lt (by omega),
    Nat.mod_eq_of_lt (by omega)]
  exact ⟨h.2, h.1⟩

theorem pcmaToL16Lut32_code {c : ℕ} (hc : c < 128) :
    pcmaToL16Lut32.getD (UInt8.ofNat c ^^^ 0xD5).toNat 0 = (alawLevel c : ℤ) ∧
      pcmaToL16Lut32.getD (UInt8.ofNat c ^^^ 0x55).toNat 0 = -(alawLevel c : ℤ) := by
  have hxor : ∀ c < 128, c ^^^ 0x55 < 128 ∧ (UInt8.ofNat c ^^^ 0xD5).toNat = 128 + (c ^^^ 0x55) ∧
      (UInt8.ofNat c ^^^ 0x55).toNat = c ^^^ 0x55 := by
    decide +kernel
  obtain ⟨hlt, h₁, h₂⟩ := hxor c hc
  have h := getD_halves (f := fun b => -(alawLevel (b ^^^ 0x55) : ℤ))
    (g := fun b => (alawLevel (b ^^^ 0x55) : ℤ)) hlt
  rw [← pcmaToL16Lut32_eq, Nat.xor_assoc, Nat.xor_self, Nat.xor_zero] at h
  rw [h₁, h₂]
  exact ⟨h.2, h.1⟩

/-- Where a magnitude lies in its segment. -/
theorem segmentOf_spec {w : ℕ} (hw : w < 2 ^ 15) :
    w < 2 ^ (segmentOf w + 8) ∧ (segmentOf w = 0 ∨ 2 ^ (segmentOf w + 7) ≤ w) := by
  unfold segmentOf
  split_ifs <;> norm_num <;> omega

/-- From 128 on a magnitude has its leading bit in its segment. -/
theorem leading_bit {w : ℕ} (h₁ : 128 ≤ w) (h₂ : w < 2 ^ 15) :
    16 ≤ w / 2 ^ (segmentOf w + 3) ∧ w / 2 ^ (segmentOf w + 3) < 32 := by
  obtain ⟨hlt, hge⟩ := segmentOf_spec h₂
  have e₁ : 2 ^ (segmentOf w + 8) = 32 * 2 ^ (segmentOf w + 3) := by ring
  have e₂ : 2 ^ (segmentOf w + 7) = 16 * 2 ^ (segmentOf w + 3) := by ring
  refine ⟨(Nat.le_div_iff_mul_le (by positivity)).mpr ?_,
    (Nat.div_lt_iff_lt_mul (by positivity)).mpr ?_⟩
  · rcases hge with h | h
    · rw [h]
      omega
    · omega
  · omega

theorem codeLevel_segmentCode {w : ℕ} (h₁ : 128 ≤ w) (h₂ : w < 2 ^ 15) :
    codeLevel (segmentCode w) = quantize (segmentOf w) w := by
  obtain ⟨hge, hlt⟩ := leading_bit h₁ h₂
  unfold codeLevel segmentCode quantize
  generalize w / 2 ^ (segmentOf w + 3) = q at hge hlt ⊢
  have h16 : 16 + (16 * segmentOf w + q % 16) % 16 = q := by omega
  have hs : (16 * segmentOf w + q % 16) / 16 = segmentOf w := by omega
  rw [h16, hs]

/-- The step of A-law. -/
def alawSegment (v : ℕ) : ℕ := max 1 (segmentOf v)

theorem alawLevel_alawCode {v : ℕ} (hv : v < 2 ^ 15) :
    alawLevel (alawCode v) = quantize (alawSegment v) v := by
  obtain ⟨hlt, hge⟩ := segmentOf_spec hv
  unfold alawLevel alawCode alawSegment
  by_cases hs : segmentOf v = 0
  · rw [hs] at hlt
    rw [if_pos hs, hs, if_pos (by omega), quantize]
    norm_num
    omega
  · have h128 : 128 ≤ v := by
      have h7 := hge.resolve_left hs
      have : 2 ^ 7 ≤ 2 ^ (segmentOf v + 7) := Nat.pow_le_pow_right (by norm_num) (by omega)
      omega
    have hcode : ¬segmentCode v < 16 := by
      unfold segmentCode
      omega
    rw [if_neg hs, if_neg hcode, codeLevel_segmentCode h128 hv, Nat.max_eq_right (by omega)]

/-- The middle of a step is at most half a step away. -/
theorem quantize_error (s w : ℕ) :
    quantize s w ≤ w + 2 ^ (s + 2) ∧ w ≤ quantize s w + 2 ^ (s + 2) := by
  have hdiv := Nat.div_add_mod w (2 ^ (s + 3))
  have hmod := Nat.mod_lt w (show 2 ^ (s + 3) > 0 by positivity)
  have e : 2 ^ (s + 3) = 2 * 2 ^ (s + 2) := by ring
  have hq : quantize s w = 2 ^ (s + 3) * (w / 2 ^ (s + 3)) + 2 ^ (s + 2) := by
    unfold quantize
    rw [e]
    ring
  omega

theorem segmentOf_mono {v w : ℕ} (h : v ≤ w) (hw : w < 2 ^ 15) : segmentOf v ≤ segmentOf w := by
  obtain ⟨hlt, -⟩ := segmentOf_spec hw
  obtain ⟨-, hge⟩ := segmentOf_spec (Nat.lt_of_le_of_lt h hw)
  by_contra hcon
  have h7 := hge.resolve_left (by omega)
  have hpow : 2 ^ (segmentOf w + 8) ≤ 2 ^ (segmentOf v + 7) :=
    Nat.pow_le_pow_right (by norm_num) (by omega)
  omega

/-- Within one segment the steps are in order, and a higher segment lies above a lower one. -/
theorem quantize_mono {s s' v w : ℕ} (h : v ≤ w) (hv : v < 2 ^ (s + 8))
    (hs : s = s' ∨ s < s' ∧ 2 ^ (s' + 7) ≤ w) : quantize s v ≤ quantize s' w := by
  unfold quantize
  rcases hs with rfl | ⟨hlt, hw⟩
  · have hdiv := Nat.div_le_div_right (c := 2 ^ (s + 3)) h
    exact Nat.mul_le_mul_right _ (by omega)
  · have e : 2 ^ (s + 8) = 32 * 2 ^ (s + 3) := by ring
    have e' : 2 ^ (s' + 7) = 16 * 2 ^ (s' + 3) := by ring
    have hdiv : v / 2 ^ (s + 3) < 32 := (Nat.div_lt_iff_lt_mul (by positivity)).mpr (by omega)
    have hdiv' : 16 ≤ w / 2 ^ (s' + 3) := (Nat.le_div_iff_mul_le (by positivity)).mpr (by omega)
    calc (2 * (v / 2 ^ (s + 3)) + 1) * 2 ^ (s + 2) ≤ 64 * 2 ^ (s + 2) :=
          Nat.mul_le_mul_right _ (by omega)
      _ = 2 ^ (s + 1 + 7) := by ring
      _ ≤ 2 ^ (s' + 7) := Nat.pow_le_pow_right (by norm_num) (by omega)
      _ = 32 * 2 ^ (s' + 2) := by ring
      _ ≤ (2 * (w / 2 ^ (s' + 3)) + 1) * 2 ^ (s' + 2) := Nat.mul_le_mul_right _ (by omega)

/-! ### There and back -/

/-- What a magnitude becomes under the u-law. -/
def ulawValue (v : ℕ) : ℤ := codeLevel (segmentCode (min v 32635 + 128)) - 132

/-- What a magnitude becomes under A-law. -/
def alawValue (v : ℕ) : ℤ := alawLevel (alawCode v)

theorem ulawValue_eq (v : ℕ) :
    ulawValue v = quantize (segmentOf (min v 32635 + 128)) (min v 32635 + 128) - 132 := by
  unfold ulawValue
  rw [codeLevel_segmentCode (by omega) (by omega)]

theorem alawValue_eq {v : ℕ} (hv : v < 2 ^ 15) : alawValue v = quantize (alawSegment v) v := by
  unfold alawValue
  rw [alawLevel_alawCode hv]

theorem ulawValue_mono {v w : ℕ} (h : v ≤ w) : ulawValue v ≤ ulawValue w := by
  have hle : min v 32635 + 128 ≤ min w 32635 + 128 := by omega
  have hseg := segmentOf_mono hle (by omega)
  have hv := segmentOf_spec (show min v 32635 + 128 < 2 ^ 15 by omega)
  have hw := segmentOf_spec (show min w 32635 + 128 < 2 ^ 15 by omega)
  have hq := quantize_mono hle hv.1
    (show segmentOf (min v 32635 + 128) = segmentOf (min w 32635 + 128) ∨ _ by omega)
  rw [ulawValue_eq, ulawValue_eq]
  omega

theorem alawValue_mono {v w : ℕ} (h : v ≤ w) (hw : w < 2 ^ 15) : alawValue v ≤ alawValue w := by
  have hseg := segmentOf_mono h hw
  have hv' := segmentOf_spec (Nat.lt_of_le_of_lt h hw)
  have hw' := segmentOf_spec hw
  have hpow : 2 ^ (segmentOf v + 8) ≤ 2 ^ (alawSegment v + 8) :=
    Nat.pow_le_pow_right (by norm_num) (Nat.add_le_add_right (Nat.le_max_right 1 _) 8)
  have hstep : alawSegment v = alawSegment w ∨
      alawSegment v < alawSegment w ∧ 2 ^ (alawSegment w + 7) ≤ w := by
    unfold alawSegment
    rcases Nat.lt_or_ge 1 (segmentOf w) with h1 | h1
    · rw [Nat.max_eq_right (Nat.le_of_lt h1)]
      omega
    · exact .inl (by omega)
  have hq := quantize_mono h (by omega) hstep
  rw [alawValue_eq (Nat.lt_of_le_of_lt h hw), alawValue_eq hw]
  exact_mod_cast hq

/-- Half of the widest step, the clipping and the difference of the biases. -/
theorem ulawValue_error {v : ℕ} (hv : v < 2 ^ 15) :
    0 ≤ ulawValue v ∧ ulawValue v ≤ 32767 ∧ |ulawValue v - v| ≤ 643 := by
  have h0 : ulawValue 0 = 0 := by decide
  have hmax : ulawValue 32767 = 32124 := by decide
  have hmono := ulawValue_mono (Nat.zero_le v)
  have hmono' := ulawValue_mono (show v ≤ 32767 by omega)
  have hseg := segmentOf_lt (min v 32635 + 128)
  have hpow : 2 ^ (segmentOf (min v 32635 + 128) + 2) ≤ 2 ^ 9 :=
    Nat.pow_le_pow_right (by norm_num) (by omega)
  have herr := quantize_error (segmentOf (min v 32635 + 128)) (min v 32635 + 128)
  refine ⟨by omega, by omega, ?_⟩
  rcases Nat.lt_or_ge v 32635 with hlt | hge
  · rw [Nat.min_eq_left (Nat.le_of_lt hlt)] at herr hpow
    rw [ulawValue_eq, Nat.min_eq_left (Nat.le_of_lt hlt), abs_le]
    omega
  · have hclip : ulawValue v = 32124 := by
      rw [← hmax, ulawValue_eq, ulawValue_eq, Nat.min_eq_right hge, Nat.min_eq_right (by norm_num)]
    rw [hclip, abs_le]
    omega

theorem alawValue_error {v : ℕ} (hv : v < 2 ^ 15) :
    0 ≤ alawValue v ∧ alawValue v ≤ 32767 ∧ |alawValue v - v| ≤ 512 := by
  have hmax : alawValue 32767 = 32256 := by decide
  have hmono := alawValue_mono (show v ≤ 32767 by omega) (by norm_num)
  have hseg : alawSegment v ≤ 7 := by
    have := segmentOf_lt v
    unfold alawSegment
    omega
  have hpow : 2 ^ (alawSegment v + 2) ≤ 2 ^ 9 := Nat.pow_le_pow_right (by norm_num) (by omega)
  have herr := quantize_error (alawSegment v) v
  rw [alawValue_eq hv] at hmono ⊢
  rw [abs_le]
  omega

theorem toInt_lookup {lut : List ℤ} {b : UInt8} {z : ℤ} (h : lut.getD b.toNat 0 = z)
    (h₁ : -32768 ≤ z) (h₂ : z ≤ 32767) : (lookup lut b).toInt = z := by
  rw [lookup, toInt_saturate16, h]
  omega

theorem ulaw_of_nonneg {x : Int16} {v : ℕ} (h : x.toInt = v) :
    (lookup pcmuToL16Lut32 (linearToUlaw x)).toInt = ulawValue v := by
  have hv : v < 2 ^ 15 := by
    have := x.toInt_lt
    omega
  have hb := ulawValue_error hv
  rw [linearToUlaw_of_nonneg h]
  exact toInt_lookup (pcmuToL16Lut32_code (segmentCode_lt _)).1 (by omega) hb.2.1

theorem ulaw_of_neg {x : Int16} {v : ℕ} (h : x.toInt = -v) (hpos : 0 < v) (hv : v < 2 ^ 15) :
    (lookup pcmuToL16Lut32 (linearToUlaw x)).toInt = -ulawValue v := by
  have hb := ulawValue_error hv
  rw [linearToUlaw_of_neg h hpos hv]
  exact toInt_lookup (pcmuToL16Lut32_code (segmentCode_lt _)).2 (by omega) (by omega)

theorem alawCode_lt {v : ℕ} : alawCode v < 128 := by
  unfold alawCode
  split_ifs
  · omega
  · exact segmentCode_lt v

theorem alaw_of_nonneg {x : Int16} {v : ℕ} (h : x.toInt = v) :
    (lookup pcmaToL16Lut32 (linearToAlaw x)).toInt = alawValue v := by
  have hv : v < 2 ^ 15 := by
    have := x.toInt_lt
    omega
  have hb := alawValue_error hv
  rw [linearToAlaw_of_nonneg h]
  exact toInt_lookup (pcmaToL16Lut32_code alawCode_lt).1 (by omega) hb.2.1

theorem alaw_of_neg {x : Int16} {v : ℕ} (h : x.toInt = -v - 1) :
    (lookup pcmaToL16Lut32 (linearToAlaw x)).toInt = -alawValue v := by
  have hv : v < 2 ^ 15 := by
    have := x.le_toInt
    omega
  have hb := alawValue_error hv
  rw [linearToAlaw_of_neg h]
  exact toInt_lookup (pcmaToL16Lut32_code alawCode_lt).2 (by omega) (by omega)

/-- The one sample whose negation is itself. -/
theorem ulaw_minimum : lookup pcmuToL16Lut32 (linearToUlaw (-32768)) = 0 := by
  decide +kernel

/-- A sample is a magnitude with a sign. -/
theorem magnitude_cases (x : Int16) :
    (∃ v : ℕ, x.toInt = v ∧ v < 2 ^ 15) ∨
      ∃ v : ℕ, x.toInt = -v - 1 ∧ v < 2 ^ 15 := by
  have h₁ := x.le_toInt
  have h₂ := x.toInt_lt
  rcases lt_or_ge x.toInt 0 with h | h
  · exact .inr ⟨(-x.toInt - 1).toNat, by omega, by omega⟩
  · exact .inl ⟨x.toInt.toNat, by omega, by omega⟩

theorem alaw_error (x : Int16) :
    |(lookup pcmaToL16Lut32 (linearToAlaw x)).toInt - x.toInt| ≤ 644 := by
  rcases magnitude_cases x with ⟨v, h, hv⟩ | ⟨v, h, hv⟩
  · have herr := (alawValue_error hv).2.2
    rw [alaw_of_nonneg h, h]
    omega
  · have herr := (alawValue_error hv).2.2
    rw [alaw_of_neg h, h]
    rw [abs_le] at herr ⊢
    omega

theorem alaw_order {x y : Int16} (hxy : x ≤ y) :
    lookup pcmaToL16Lut32 (linearToAlaw x) ≤ lookup pcmaToL16Lut32 (linearToAlaw y) := by
  rw [Int16.le_iff_toInt_le] at hxy ⊢
  rcases magnitude_cases x with ⟨v, h, hv⟩ | ⟨v, h, hv⟩ <;>
    rcases magnitude_cases y with ⟨w, h', hw⟩ | ⟨w, h', hw⟩
  · rw [alaw_of_nonneg h, alaw_of_nonneg h']
    exact alawValue_mono (by omega) hw
  · omega
  · have hpos := (alawValue_error hv).1
    have hpos' := (alawValue_error hw).1
    rw [alaw_of_neg h, alaw_of_nonneg h']
    omega
  · have hmono := alawValue_mono (show w ≤ v by omega) hv
    rw [alaw_of_neg h, alaw_of_neg h']
    omega

theorem ulaw_error {x : Int16} (hx : x ≠ -32768) :
    |(lookup pcmuToL16Lut32 (linearToUlaw x)).toInt - x.toInt| ≤ 644 := by
  have hmin : x.toInt ≠ -32768 := fun h => hx (Int16.toInt_inj.mp h)
  rcases magnitude_cases x with ⟨v, h, hv⟩ | ⟨v, h, hv⟩
  · have herr := (ulawValue_error hv).2.2
    rw [ulaw_of_nonneg h, h]
    omega
  · have hv' : v + 1 < 2 ^ 15 := by omega
    have herr := (ulawValue_error hv').2.2
    rw [ulaw_of_neg (v := v + 1) (by push_cast; omega) (by omega) hv', h]
    rw [abs_le] at herr ⊢
    omega

theorem ulaw_order {x y : Int16} (hx : x ≠ -32768) (hy : y ≠ -32768) (hxy : x ≤ y) :
    lookup pcmuToL16Lut32 (linearToUlaw x) ≤ lookup pcmuToL16Lut32 (linearToUlaw y) := by
  have hmin : x.toInt ≠ -32768 := fun h => hx (Int16.toInt_inj.mp h)
  have hmin' : y.toInt ≠ -32768 := fun h => hy (Int16.toInt_inj.mp h)
  rw [Int16.le_iff_toInt_le] at hxy ⊢
  rcases magnitude_cases x with ⟨v, h, hv⟩ | ⟨v, h, hv⟩ <;>
    rcases magnitude_cases y with ⟨w, h', hw⟩ | ⟨w, h', hw⟩
  · rw [ulaw_of_nonneg h, ulaw_of_nonneg h']
    exact ulawValue_mono (by omega)
  · omega
  · have hpos := (ulawValue_error (show v + 1 < 2 ^ 15 by omega)).1
    have hpos' := (ulawValue_error hw).1
    rw [ulaw_of_neg (v := v + 1) (by push_cast; omega) (by omega) (by omega), ulaw_of_nonneg h']
    omega
  · have hmono := ulawValue_mono (show w + 1 ≤ v + 1 by omega)
    rw [ulaw_of_neg (v := v + 1) (by push_cast; omega) (by omega) (by omega),
      ulaw_of_neg (v := w + 1) (by push_cast; omega) (by omega) (by omega)]
    omega

/-! ### Whole buffers -/

/-- `ys` is `xs` up to the error of G.711, in the same order. -/
structure Companded (xs ys : List Int16) : Prop where
  length : ys.length = xs.length
  error : ∀ i < xs.length, |(ys.getD i 0).toInt - (xs.getD i 0).toInt| ≤ 644
  order : ∀ i < xs.length, ∀ j < xs.length, xs.getD i 0 ≤ xs.getD j 0 → ys.getD i 0 ≤ ys.getD j 0

/-- Both codecs give the samples back. -/
def RoundTrips (xs : List Int16) : Prop :=
  (∃ ys, transcodePcmuToL16 (transcodeL16ToPcmu xs) = some ys ∧ Companded xs ys) ∧
    ∃ ys, transcodePcmaToL16 (transcodeL16ToPcma xs) = some ys ∧ Companded xs ys

theorem companded_map {f : Int16 → Int16} {xs : List Int16}
    (herror : ∀ x ∈ xs, |(f x).toInt - x.toInt| ≤ 644)
    (horder : ∀ x ∈ xs, ∀ y ∈ xs, x ≤ y → f x ≤ f y) : Companded xs (xs.map f) := by
  have hget : ∀ i < xs.length, xs.getD i 0 ∈ xs ∧ (xs.map f).getD i 0 = f (xs.getD i 0) := by
    intro i hi
    rw [List.getD_eq_getElem _ _ hi, List.getD_eq_getElem _ _ (by rwa [List.length_map]),
      List.getElem_map]
    exact ⟨List.getElem_mem hi, rfl⟩
  constructor
  · exact List.length_map _
  · intro i hi
    rw [(hget i hi).2]
    exact herror _ (hget i hi).1
  · intro i hi j hj h
    rw [(hget i hi).2, (hget j hj).2]
    exact horder _ (hget i hi).1 _ (hget j hj).1 h

theorem pcmu_round_trip {xs : List Int16} (h16 : xs.length % 16 = 0) :
    transcodePcmuToL16 (transcodeL16ToPcmu xs) =
      some (xs.map fun x => lookup pcmuToL16Lut32 (linearToUlaw x)) := by
  rw [transcodePcmuToL16, transcodeG711ToL16_eq (by rwa [length_transcodeL16ToPcmu]),
    transcodeL16ToPcmu, List.map_map]
  rfl

theorem pcma_round_trip {xs : List Int16} (h16 : xs.length % 16 = 0) :
    transcodePcmaToL16 (transcodeL16ToPcma xs) =
      some (xs.map fun x => lookup pcmaToL16Lut32 (linearToAlaw x)) := by
  rw [transcodePcmaToL16, transcodeG711ToL16_eq (by rwa [length_transcodeL16ToPcma]),
    transcodeL16ToPcma, List.map_map]
  rfl

/-- The minimum becomes silence. -/
theorem not_roundTrips {xs : List Int16} (h16 : xs.length % 16 = 0) (h : -32768 ∈ xs) :
    ¬RoundTrips xs := by
  rintro ⟨⟨ys, hys, hc⟩, -⟩
  rw [pcmu_round_trip h16, Option.some.injEq] at hys
  obtain ⟨i, hi, hx⟩ := List.mem_iff_getElem.mp h
  have herror := hc.error i hi
  rw [← hys, List.getD_eq_getElem _ _ (by rwa [List.length_map]), List.getElem_map,
    List.getD_eq_getElem _ _ hi, hx, ulaw_minimum] at herror
  exact absurd herror (by decide)

/-- **G.711 keeps order and bounds the error**, exactly as long as the smallest sample does not
occur: the u-law encoder negates it to itself and encodes it as silence. -/
theorem g711_round_trips_iff {xs : List Int16} (h16 : xs.length % 16 = 0) :
    RoundTrips xs ↔ -32768 ∉ xs := by
  constructor
  · exact fun h hmem => not_roundTrips h16 hmem h
  · intro hmin
    have hne : ∀ x ∈ xs, x ≠ -32768 := fun x hx h => hmin (h ▸ hx)
    exact ⟨⟨_, pcmu_round_trip h16, companded_map (fun x hx => ulaw_error (hne x hx))
        fun x hx y hy => ulaw_order (hne x hx) (hne y hy)⟩,
      ⟨_, pcma_round_trip h16, companded_map (fun x _ => alaw_error x)
        fun x _ y _ => alaw_order⟩⟩

theorem g711_round_trips_loud : RoundTrips (List.replicate 16 32767) :=
  (g711_round_trips_iff rfl).mpr (by decide)

theorem g711_minimum_lost : ¬RoundTrips (List.replicate 16 (-32768)) :=
  not_roundTrips rfl (by decide)

/-! ### Bytes -/

theorem segmentCode_codeLevel : ∀ c < 128, 132 ≤ codeLevel c ∧ codeLevel c ≤ 32767 ∧
    segmentCode (min (codeLevel c - 132) 32635 + 128) = c ∧ (c = 0 ↔ codeLevel c = 132) := by
  decide +kernel

theorem alawCode_alawLevel : ∀ c < 128, 1 ≤ alawLevel c ∧ alawLevel c ≤ 32767 ∧
    alawCode (alawLevel c) = c ∧ alawCode (alawLevel c - 1) = c := by
  decide +kernel

theorem linearToUlaw_lookup (b : UInt8) :
    linearToUlaw (lookup pcmuToL16Lut32 b) = if b = 0x7F then 0xFF else b := by
  have hlt : b.toNat < 256 := b.toNat_lt
  rcases Nat.lt_or_ge b.toNat 128 with hlow | hhigh
  · obtain ⟨c, hc, hb⟩ : ∃ c < 128, b = UInt8.ofNat (127 - c) := by
      refine ⟨127 - b.toNat, by omega, ?_⟩
      rw [show 127 - (127 - b.toNat) = b.toNat by omega, UInt8.ofNat_toNat]
    obtain ⟨hge, hle, hcode, hzero⟩ := segmentCode_codeLevel c hc
    have htoInt := toInt_lookup (pcmuToL16Lut32_code hc).2 (by omega) (by omega)
    rw [← hb] at htoInt
    by_cases h0 : c = 0
    · rw [h0] at hb hcode
      rw [hzero.mp h0] at htoInt
      rw [linearToUlaw_of_nonneg (v := 0) (by rw [htoInt]; rfl), hb]
      rfl
    · have hne : b ≠ 0x7F := by
        intro h
        have hnat := congrArg UInt8.toNat hb
        rw [h, UInt8.toNat_ofNat', Nat.mod_eq_of_lt (by omega)] at hnat
        have h7F : (0x7F : UInt8).toNat = 127 := rfl
        omega
      have hpos : codeLevel c ≠ 132 := fun h => h0 (hzero.mpr h)
      rw [linearToUlaw_of_neg (v := codeLevel c - 132) (by rw [htoInt]; omega) (by omega)
        (by omega), hcode, if_neg hne, ← hb]
  · obtain ⟨c, hc, hb⟩ : ∃ c < 128, b = UInt8.ofNat (255 - c) := by
      refine ⟨255 - b.toNat, by omega, ?_⟩
      rw [show 255 - (255 - b.toNat) = b.toNat by omega, UInt8.ofNat_toNat]
    obtain ⟨hge, hle, hcode, -⟩ := segmentCode_codeLevel c hc
    have htoInt := toInt_lookup (pcmuToL16Lut32_code hc).1 (by omega) (by omega)
    have hne : b ≠ 0x7F := by
      rintro rfl
      exact absurd hhigh (by decide)
    rw [← hb] at htoInt
    rw [linearToUlaw_of_nonneg (v := codeLevel c - 132) (by rw [htoInt]; omega), hcode, if_neg hne,
      ← hb]

theorem linearToAlaw_lookup (b : UInt8) : linearToAlaw (lookup pcmaToL16Lut32 b) = b := by
  have hcases : ∀ n < 256, ∃ c < 128, UInt8.ofNat n = UInt8.ofNat c ^^^ 0xD5 ∨
      UInt8.ofNat n = UInt8.ofNat c ^^^ 0x55 := by
    intro n hn
    refine ⟨(n ^^^ 0x55) % 128, Nat.mod_lt _ (by norm_num), ?_⟩
    revert n
    decide +kernel
  obtain ⟨c, hc, hb⟩ := hcases b.toNat b.toNat_lt
  rw [UInt8.ofNat_toNat] at hb
  obtain ⟨hge, hle, hcode, hcode'⟩ := alawCode_alawLevel c hc
  rcases hb with hb | hb
  · have htoInt := toInt_lookup (pcmaToL16Lut32_code hc).1 (by omega) (by omega)
    rw [← hb] at htoInt
    rw [linearToAlaw_of_nonneg htoInt, hcode, ← hb]
  · have htoInt := toInt_lookup (pcmaToL16Lut32_code hc).2 (by omega) (by omega)
    rw [← hb] at htoInt
    rw [linearToAlaw_of_neg (v := alawLevel c - 1) (by rw [htoInt]; omega), hcode', ← hb]

/-- **Decoding and encoding again is the identity on bytes**, but for the negative zero of the
u-law; a length that is no multiple of sixteen is refused and nothing is written. -/
theorem g711_bytes_round_trip {H : Type} (bs : List UInt8) :
    (transcodePcmaToL16 bs).map transcodeL16ToPcma =
        (if bs.length % 16 = 0 then some bs else none) ∧
      (transcodePcmuToL16 bs).map transcodeL16ToPcmu =
        (if bs.length % 16 = 0 then some (bs.map fun b => if b = 0x7F then 0xFF else b)
        else none) ∧
      (bs.length % 16 ≠ 0 → ∀ (out : Block) (size dataOff : ℕ) (w : Work H),
        storeDecoded out size dataOff bs.length (transcodePcmaToL16 bs) w = ((), w) ∧
          storeDecoded out size dataOff bs.length (transcodePcmuToL16 bs) w = ((), w)) := by
  unfold transcodePcmaToL16 transcodePcmuToL16 transcodeL16ToPcma transcodeL16ToPcmu
  by_cases h : bs.length % 16 = 0
  · rw [if_pos h, if_pos h, transcodeG711ToL16_eq h, transcodeG711ToL16_eq h, Option.map_some,
      Option.map_some, List.map_map, List.map_map]
    refine ⟨?_, ?_, fun hne => absurd h hne⟩
    · congr 1
      exact (List.map_congr_left fun b _ => linearToAlaw_lookup b).trans (List.map_id bs)
    · congr 1
      exact List.map_congr_left fun b _ => linearToUlaw_lookup b
  · rw [if_neg h, if_neg h, transcodeG711ToL16_none h, transcodeG711ToL16_none h]
    exact ⟨rfl, rfl, fun _ out size dataOff w => ⟨rfl, rfl⟩⟩

end MachAudio
