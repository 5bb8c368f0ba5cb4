import MachAudio.Companding
import MachAudio.Passthrough

/-! # Interleaved buffers

An element of a buffer is one sample of its encoding: one byte for G.711, two for L16.  The codecs
work element by element, so a buffer of two interleaved channels is decoded and encoded channel by
channel (`SameLane.encode_decode`), and a sample that comes out loud enough differs from one that
does not, whatever the codec (`encodeSample_ne`). -/

namespace MachAudio

open ByteMem Simd

/-! ### Elements -/

/-- The bytes of an element. -/
def elementBytes (payloadType : UInt8) : ℕ := if payloadType = codecL16 then 2 else 1

/-- Element `i` of a buffer whose elements have `w` bytes. -/
def elementAt (w : ℕ) (bytes : List UInt8) (i : ℕ) : List UInt8 := (bytes.drop (i * w)).take w

/-- The bytes of one sample. -/
def encodeSample (payloadType endian : UInt8) (x : Int16) : List UInt8 :=
  encodeSamples payloadType endian [x]

/-- What a sample is after it has been encoded and decoded. -/
def requantize (payloadType : UInt8) (x : Int16) : Int16 :=
  if payloadType = codecPcmu then lookup pcmuToL16Lut32 (linearToUlaw x)
  else if payloadType = codecPcma then lookup pcmaToL16Lut32 (linearToAlaw x)
  else x

@[simp]
theorem elementBytes_pcmu : elementBytes codecPcmu = 1 := if_neg pcmu_ne_l16

@[simp]
theorem elementBytes_pcma : elementBytes codecPcma = 1 := if_neg pcma_ne_l16

@[simp]
theorem elementBytes_l16 : elementBytes codecL16 = 2 := if_pos rfl

@[simp]
theorem requantize_pcmu (x : Int16) :
    requantize codecPcmu x = lookup pcmuToL16Lut32 (linearToUlaw x) :=
  if_pos rfl

@[simp]
theorem requantize_pcma (x : Int16) :
    requantize codecPcma x = lookup pcmaToL16Lut32 (linearToAlaw x) := by
  unfold requantize
  rw [if_neg pcma_ne_pcmu, if_pos rfl]

@[simp]
theorem requantize_l16 (x : Int16) : requantize codecL16 x = x := by
  unfold requantize
  rw [if_neg pcmu_ne_l16.symm, if_neg pcma_ne_l16.symm]

/-- Two buffers of two interleaved channels that agree on channel `lane`. -/
def SameLane (w lane : ℕ) (bytes bytes' : List UInt8) : Prop :=
  bytes.length = bytes'.length ∧
    ∀ i, i % 2 = lane → elementAt w bytes i = elementAt w bytes' i

theorem elementAt_flatMap {α : Type} {f : α → List UInt8} {w : ℕ} (hf : ∀ a, (f a).length = w)
    (l : List α) (i : ℕ) : elementAt w (l.flatMap f) i = ((l[i]?).map f).getD [] := by
  unfold elementAt
  induction l generalizing i with
  | nil => simp
  | cons a l ih =>
      rw [List.flatMap_cons]
      cases i with
      | zero =>
          rw [Nat.zero_mul, List.drop_zero, List.take_left' (hf a)]
          rfl
      | succ i =>
          have hdrop : (i + 1) * w = (f a).length + i * w := by
            rw [hf a, Nat.succ_mul, Nat.add_comm]
          rw [hdrop, List.drop_length_add_append, ih, List.getElem?_cons_succ]

section codec
variable {payloadType : UInt8} (hk : IsKnownCodec payloadType) (endian : UInt8)

theorem encodeSamples_eq_flatMap (payloadType endian : UInt8) (xs : List Int16) :
    encodeSamples payloadType endian xs = xs.flatMap (encodeSample payloadType endian) := by
  unfold encodeSample encodeSamples
  split_ifs
  · exact List.map_eq_flatMap
  · exact List.map_eq_flatMap
  · simp [toBytesBig]
  · simp [toBytes]

include hk

theorem length_encodeSample (x : Int16) :
    (encodeSample payloadType endian x).length = elementBytes payloadType := by
  unfold encodeSample
  rcases hk with rfl | rfl | rfl
  · rw [encodeSamples_pcmu, elementBytes_pcmu]
    rfl
  · rw [encodeSamples_pcma, elementBytes_pcma]
    rfl
  · rw [encodeSamples_l16, elementBytes_l16]
    split_ifs
    · exact length_toBytesBig [x]
    · exact length_toBytes [x]

theorem length_encodeSamples (xs : List Int16) :
    (encodeSamples payloadType endian xs).length = xs.length * elementBytes payloadType := by
  rw [encodeSamples_eq_flatMap, List.length_flatMap]
  simp [length_encodeSample hk endian]

theorem elementAt_encodeSamples (xs : List Int16) (i : ℕ) :
    elementAt (elementBytes payloadType) (encodeSamples payloadType endian xs) i =
      ((xs[i]?).map (encodeSample payloadType endian)).getD [] := by
  rw [encodeSamples_eq_flatMap, elementAt_flatMap (length_encodeSample hk endian)]

theorem length_decodeSamples (data : List UInt8) :
    (decodeSamples payloadType endian data).length = data.length / elementBytes payloadType := by
  rcases hk with rfl | rfl | rfl
  · rw [decodeSamples_pcmu, elementBytes_pcmu, List.length_map, Nat.div_one]
  · rw [decodeSamples_pcma, elementBytes_pcma, List.length_map, Nat.div_one]
  · rw [decodeSamples_l16, elementBytes_l16]
    split_ifs
    · exact length_ofBytesBig data
    · exact length_ofBytes data

/-- A sample is decoded from its element. -/
theorem getElem?_decodeSamples (data : List UInt8) (i : ℕ) :
    (decodeSamples payloadType endian data)[i]? =
      (decodeSamples payloadType endian (elementAt (elementBytes payloadType) data i)).head? := by
  have hbytes : (ofBytes data)[i]? = (ofBytes ((data.drop (i * 2)).take 2)).head? := by
    have htake := ofBytes_take (data.drop (2 * i)) 1
    rw [Nat.mul_one] at htake
    rw [Nat.mul_comm i, htake, ofBytes_drop, List.head?_take, List.head?_drop]
    rfl
  have hone : data[i]? = (elementAt 1 data i).head? := by
    unfold elementAt
    rw [Nat.mul_one, List.head?_take, List.head?_drop]
    rfl
  rcases hk with rfl | rfl | rfl
  · rw [decodeSamples_pcmu, decodeSamples_pcmu, elementBytes_pcmu, List.getElem?_map,
      List.head?_map, hone]
  · rw [decodeSamples_pcma, decodeSamples_pcma, elementBytes_pcma, List.getElem?_map,
      List.head?_map, hone]
  · rw [decodeSamples_l16, decodeSamples_l16, elementBytes_l16]
    unfold elementAt
    split_ifs
    · rw [← map_swapSample_ofBytes, ← map_swapSample_ofBytes, List.getElem?_map, List.head?_map,
        hbytes]
    · exact hbytes

omit hk in
theorem ofBytesBig_toBytesBig (xs : List Int16) : ofBytesBig (toBytesBig xs) = xs := by
  induction xs with
  | nil => rfl
  | cons x xs ih =>
      show sampleOfBytes _ _ :: ofBytesBig (toBytesBig xs) = x :: xs
      rw [ih, sampleOfBytes_bytesOfSample]

/-- Encoded and decoded again, every sample is requantised on its own. -/
theorem decodeSamples_encodeSamples (xs : List Int16) :
    decodeSamples payloadType endian (encodeSamples payloadType endian xs) =
      xs.map (requantize payloadType) := by
  have hid : xs.map (requantize codecL16) = xs :=
    (List.map_congr_left fun x _ => requantize_l16 x).trans (List.map_id' xs)
  rcases hk with rfl | rfl | rfl
  · rw [encodeSamples_pcmu, decodeSamples_pcmu, List.map_map]
    exact List.map_congr_left fun x _ => (requantize_pcmu x).symm
  · rw [encodeSamples_pcma, decodeSamples_pcma, List.map_map]
    exact List.map_congr_left fun x _ => (requantize_pcma x).symm
  · rw [encodeSamples_l16, decodeSamples_l16, hid]
    split_ifs
    · exact ofBytesBig_toBytesBig xs
    · exact ofBytes_toBytes xs

end codec

/-! ### Loud samples -/

section loud
variable {payloadType : UInt8} (hk : IsKnownCodec payloadType)

include hk

theorem requantize_mono {x y : Int16} (hx : x ≠ -32768) (hxy : x ≤ y) :
    requantize payloadType x ≤ requantize payloadType y := by
  have hy : y ≠ -32768 := by
    rintro rfl
    rw [Int16.le_iff_toInt_le] at hxy
    exact hx (Int16.toInt_inj.mp (Int.le_antisymm hxy (Int16.le_toInt x)))
  rcases hk with rfl | rfl | rfl
  · rw [requantize_pcmu, requantize_pcmu]
    exact ulaw_order hx hy hxy
  · rw [requantize_pcma, requantize_pcma]
    exact alaw_order hxy
  · rw [requantize_l16, requantize_l16]
    exact hxy

/-- Near silence no codec has a step of 128. -/
theorem requantize_lt (m : ℤ) (h₀ : -4 ≤ m) (h₁ : m ≤ 4) :
    requantize payloadType (Int16.ofInt (256 * m - 64)) <
      requantize payloadType (Int16.ofInt (256 * m + 64)) := by
  have hall : ∀ t ∈ [codecPcmu, codecPcma, codecL16], ∀ i : Fin 9,
      requantize t (Int16.ofInt (256 * (i - 4 : ℤ) - 64)) <
        requantize t (Int16.ofInt (256 * (i - 4 : ℤ) + 64)) := by decide +kernel
  have hmem : payloadType ∈ [codecPcmu, codecPcma, codecL16] := by
    rcases hk with rfl | rfl | rfl <;> decide
  have h := hall payloadType hmem ⟨(m + 4).toNat, by omega⟩
  have hcast : (((m + 4).toNat : ℕ) : ℤ) - 4 = m := by omega
  rwa [hcast] at h

/-- Two samples that far apart are encoded differently. -/
theorem encodeSample_ne (endian : UInt8) {x y : Int16} {m : ℤ} (h₀ : -4 ≤ m) (h₁ : m ≤ 4)
    (hmin : -32768 < x.toInt) (hx : x.toInt ≤ 256 * m - 64) (hy : 256 * m + 64 ≤ y.toInt) :
    encodeSample payloadType endian x ≠ encodeSample payloadType endian y := by
  intro heq
  have hdecode := congrArg (decodeSamples payloadType endian) heq
  unfold encodeSample at hdecode
  rw [decodeSamples_encodeSamples hk, decodeSamples_encodeSamples hk, List.map_singleton,
    List.map_singleton, List.cons.injEq] at hdecode
  have hlow : (Int16.ofInt (256 * m - 64)).toInt = 256 * m - 64 :=
    Int16.toInt_ofInt_of_le (by omega) (by omega)
  have hhigh : (Int16.ofInt (256 * m + 64)).toInt = 256 * m + 64 :=
    Int16.toInt_ofInt_of_le (by omega) (by omega)
  have hx' := requantize_mono hk (x := x) (y := Int16.ofInt (256 * m - 64))
    (by rintro rfl; exact absurd hmin (by decide)) (by rw [Int16.le_iff_toInt_le, hlow]; exact hx)
  have hy' := requantize_mono hk (x := Int16.ofInt (256 * m + 64)) (y := y)
    (fun h => absurd (congrArg Int16.toInt h) (by rw [hhigh]; show _ ≠ (-32768 : ℤ); omega))
    (by rw [Int16.le_iff_toInt_le, hhigh]; exact hy)
  have hstep := requantize_lt hk m h₀ h₁
  rw [hdecode.1] at hx'
  rw [Int16.le_iff_toInt_le] at hx' hy'
  rw [Int16.lt_iff_toInt_lt] at hstep
  omega

/-- What silence and two loud samples are after encoding and decoding. -/
theorem requantize_loud :
    |(requantize payloadType 0).toInt| ≤ 8 ∧
      -16384 ≤ (requantize payloadType (-16000)).toInt ∧
      (requantize payloadType (-16000)).toInt ≤ -15990 ∧
      15990 ≤ (requantize payloadType 16000).toInt := by
  rcases hk with rfl | rfl | rfl <;> decide +kernel

end loud

/-! ### Channels -/

/-- Without resampling the channels stay apart. -/
theorem SameLane.encode_decode {inType outType inEndian outEndian : UInt8}
    (hi : IsKnownCodec inType) (ho : IsKnownCodec outType) {lane : ℕ} {data data' : List UInt8}
    (h : SameLane (elementBytes inType) lane data data') :
    SameLane (elementBytes outType) lane
      (encodeSamples outType outEndian (decodeSamples inType inEndian data))
      (encodeSamples outType outEndian (decodeSamples inType inEndian data')) := by
  obtain ⟨hlen, hsame⟩ := h
  constructor
  · rw [length_encodeSamples ho, length_encodeSamples ho, length_decodeSamples hi,
      length_decodeSamples hi, hlen]
  · intro i hlane
    rw [elementAt_encodeSamples ho, elementAt_encodeSamples ho, getElem?_decodeSamples hi,
      getElem?_decodeSamples hi, hsame i hlane]

/-- Buffers of samples that differ at one place agree on the other channel. -/
theorem sameLane_set {payloadType : UInt8} (hk : IsKnownCodec payloadType) (endian : UInt8)
    {lane e : ℕ} (he : e % 2 ≠ lane) (xs : List Int16) (x y : Int16) :
    SameLane (elementBytes payloadType) lane (encodeSamples payloadType endian (xs.set e x))
      (encodeSamples payloadType endian (xs.set e y)) := by
  constructor
  · rw [length_encodeSamples hk, length_encodeSamples hk, List.length_set, List.length_set]
  · intro i hi
    have hne : e ≠ i := fun h => he (h ▸ hi)
    rw [elementAt_encodeSamples hk, elementAt_encodeSamples hk, List.getElem?_set_ne hne,
      List.getElem?_set_ne hne]

end MachAudio
