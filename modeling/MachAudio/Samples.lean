import MachAudio.Transcode

/-! # The samples that bytes stand for

What the codecs and the mixer mean, without blocks and registers: a buffer is decoded to a list
of samples (`decodeSamples`), other lists are mixed into it sample by sample (`mixSamples`), and
the result is encoded (`encodeSamples`).  L16 is little-endian unless the endian byte says
`ENDIAN_BIG`; a trailing odd byte stands for nothing. -/

namespace MachAudio

open ByteMem Simd

/-! ### Codecs -/

/-- The samples of a buffer. -/
def decodeSamples (payloadType endian : UInt8) (data : List UInt8) : List Int16 :=
  if payloadType = codecPcmu then data.map (lookup pcmuToL16Lut32)
  else if payloadType = codecPcma then data.map (lookup pcmaToL16Lut32)
  else if endian = endianBig then ofBytesBig data
  else ofBytes data

/-- The bytes of samples. -/
def encodeSamples (payloadType endian : UInt8) (xs : List Int16) : List UInt8 :=
  if payloadType = codecPcmu then xs.map linearToUlaw
  else if payloadType = codecPcma then xs.map linearToAlaw
  else if endian = endianBig then toBytesBig xs
  else toBytes xs

section perCodec
variable (endian : UInt8)

@[simp]
theorem decodeSamples_pcmu (data : List UInt8) :
    decodeSamples codecPcmu endian data = data.map (lookup pcmuToL16Lut32) :=
  if_pos rfl

@[simp]
theorem decodeSamples_pcma (data : List UInt8) :
    decodeSamples codecPcma endian data = data.map (lookup pcmaToL16Lut32) := by
  unfold decodeSamples
  rw [if_neg pcma_ne_pcmu, if_pos rfl]

@[simp]
theorem decodeSamples_l16 (data : List UInt8) :
    decodeSamples codecL16 endian data =
      if endian = endianBig then ofBytesBig data else ofBytes data := by
  unfold decodeSamples
  rw [if_neg pcmu_ne_l16.symm, if_neg pcma_ne_l16.symm]

@[simp]
theorem encodeSamples_pcmu (xs : List Int16) :
    encodeSamples codecPcmu endian xs = xs.map linearToUlaw :=
  if_pos rfl

@[simp]
theorem encodeSamples_pcma (xs : List Int16) :
    encodeSamples codecPcma endian xs = xs.map linearToAlaw := by
  unfold encodeSamples
  rw [if_neg pcma_ne_pcmu, if_pos rfl]

@[simp]
theorem encodeSamples_l16 (xs : List Int16) :
    encodeSamples codecL16 endian xs =
      if endian = endianBig then toBytesBig xs else toBytes xs := by
  unfold encodeSamples
  rw [if_neg pcmu_ne_l16.symm, if_neg pcma_ne_l16.symm]

end perCodec

/-! ### Mixing -/

/-- The sum of two samples, clamped to 16 bits. -/
def mixSample (x y : Int16) : Int16 := saturate16 (x.toInt + y.toInt)

/-- `ys` mixed into `xs`: the length is that of `xs`, and what `ys` does not reach stays. -/
def mixSamples (xs ys : List Int16) : List Int16 :=
  List.zipWith mixSample xs ys ++ xs.drop ys.length

@[simp] theorem length_mixSamples (xs ys : List Int16) :
    (mixSamples xs ys).length = xs.length := by
  unfold mixSamples
  rw [List.length_append, List.length_zipWith, List.length_drop]
  omega

theorem length_foldl_mixSamples (xs : List Int16) (yss : List (List Int16)) :
    (yss.foldl mixSamples xs).length = xs.length := by
  induction yss generalizing xs with
  | nil => rfl
  | cons ys yss ih => rw [List.foldl_cons, ih, length_mixSamples]

/-- The scalar addition of the source clamps like the vector one. -/
theorem clampAddInt16_eq (a b : Int16) : clampAddInt16 a b = mixSample a b := by
  unfold clampAddInt16 mixSample
  dsimp only
  split_ifs with h₁ h₂
  · rw [saturate16, min_eq_left (by omega)]
    rfl
  · rw [saturate16, min_eq_right (by omega), max_eq_left (by omega)]
    rfl
  · rw [saturate16_of_mem (by omega) (by omega)]

/-! ### The two byte orders -/

theorem swapSample_eq (x : Int16) :
    swapSample x = sampleOfBytes (UInt8.ofNat (x.toUInt16.toNat / 256))
      (UInt8.ofNat (x.toUInt16.toNat % 256)) := by
  have hlt : x.toUInt16.toNat < 65536 := x.toUInt16.toNat_lt
  unfold swapSample sampleOfBytes
  congr 1
  apply UInt16.toNat_inj.mp
  have hor : x.toUInt16.toNat % 256 * 256 ||| x.toUInt16.toNat / 256 =
      x.toUInt16.toNat % 256 * 256 + x.toUInt16.toNat / 256 := by
    have h := Nat.shiftLeft_add_eq_or_of_lt (show x.toUInt16.toNat / 256 < 2 ^ 8 by omega)
      (x.toUInt16.toNat % 256)
    rw [Nat.shiftLeft_eq] at h
    exact h.symm
  have hshift : x.toUInt16.toNat * 256 % 65536 = x.toUInt16.toNat % 256 * 256 := by omega
  rw [UInt16.toNat_or, UInt16.toNat_shiftLeft, UInt16.toNat_shiftRight, UInt16.toNat_ofNat',
    UInt8.toNat_ofNat', UInt8.toNat_ofNat', Nat.shiftLeft_eq, Nat.shiftRight_eq_div_pow]
  simp only [UInt16.reduceToNat, Nat.reduceMod, Nat.reducePow]
  rw [hshift, hor, Nat.mod_eq_of_lt (show x.toUInt16.toNat / 256 < 256 by omega), Nat.mod_mod]
  generalize hl : x.toUInt16.toNat % 256 = lo
  generalize hh : x.toUInt16.toNat / 256 = hi
  rw [Nat.mod_eq_of_lt (by omega)]
  omega

theorem swapSample_sampleOfBytes (lo hi : UInt8) :
    swapSample (sampleOfBytes lo hi) = sampleOfBytes hi lo := by
  have h := bytesOfSample_sampleOfBytes lo hi
  simp only [bytesOfSample, List.cons.injEq, and_true] at h
  rw [swapSample_eq, h.1, h.2]

theorem bytesOfSample_swapSample (x : Int16) :
    bytesOfSample (swapSample x) = (bytesOfSample x).reverse := by
  rw [swapSample_eq, bytesOfSample_sampleOfBytes]
  rfl

theorem map_swapSample_ofBytes (bs : List UInt8) :
    (ofBytes bs).map swapSample = ofBytesBig bs := by
  fun_induction ofBytes bs with
  | case1 lo hi bs ih => rw [List.map_cons, ih, swapSample_sampleOfBytes, ofBytesBig]
  | case2 bs hb =>
      rcases bs with _ | ⟨lo, _ | ⟨hi, bs⟩⟩
      · rfl
      · rfl
      · exact absurd rfl (hb lo hi bs)

theorem toBytes_map_swapSample (xs : List Int16) :
    toBytes (xs.map swapSample) = toBytesBig xs := by
  unfold toBytes toBytesBig
  rw [List.flatMap_map]
  congr 1
  funext x
  exact bytesOfSample_swapSample x

end MachAudio
