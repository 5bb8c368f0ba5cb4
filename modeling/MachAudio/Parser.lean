import MachAudio.Client

/-! # How far the buffer parser goes

`protocol_parse_next_buffer` checks the header with a sum of `size_t` and the data with a sum
of `uint32_t`.  The second sum wraps for a length close to `2 ^ 32`, and then the parser hands
out a slice that ends far outside the payload and an offset that goes back.  `LengthsFit` says
that no length in the payload is that large, and `buffers_contained_iff` that this is exactly
when every slice is inside and every offset goes forward. -/

namespace MachAudio

/-- What the parser promises at one offset: the slice it describes is inside the payload, its
data starts behind the header, and the next offset is the next multiple of four behind it. -/
def SliceInside (payload : List UInt8) (offset : UInt32) : Prop :=
  ∀ bh dataOff offset',
    protocolParseNextBuffer payload (UInt32.ofNat payload.length) offset =
      (some (bh, dataOff), offset') →
    offset.toNat + sizeofBufferHeader + bh.length.toNat ≤ payload.length ∧
      dataOff.toNat = offset.toNat + sizeofBufferHeader ∧
      offset.toNat < offset'.toNat ∧
      offset'.toNat = offset.toNat + sizeofBufferHeader + padded bh.length.toNat

/-- Every slice is inside, and a loop over the buffers ends. -/
structure BuffersContained (payload : List UInt8) : Prop where
  slice : ∀ offset : UInt32, offset.toNat ≤ payload.length + 3 → SliceInside payload offset
  /-- Whatever its number of turns, the loop has at most this many successes. -/
  progress : ∀ (offset : UInt32) (turns : ℕ), offset.toNat ≤ payload.length + 3 →
    (parsedLengths payload turns offset).length ≤ payload.length / 8

/-- No length found behind a header that fits brings the 32-bit sum to wrap. -/
def LengthsFit (payload : List UInt8) : Prop :=
  ∀ offset : UInt32, offset.toNat + sizeofBufferHeader ≤ payload.length →
    offset.toNat + sizeofBufferHeader + (ntohl payload offset.toNat).toNat < 2 ^ 32

section
variable {payload : List UInt8} (hlen : payload.length ≤ sizeofAssembleBuf - sizeofHeader)

include hlen

/-- The data checks of one call, on a header that fits. -/
theorem protocolParseNextBuffer_of_fits {offset : UInt32}
    (hfit : offset.toNat + sizeofBufferHeader ≤ payload.length) :
    protocolParseNextBuffer payload (UInt32.ofNat payload.length) offset =
      if offset + 8 + ntohl payload offset.toNat > UInt32.ofNat payload.length then
        (none, offset + 8)
      else
        (some (⟨ntohl payload offset.toNat, ntohl payload (offset.toNat + 4)⟩, offset + 8),
          offset + 8 + ((ntohl payload offset.toNat + 3) &&& ~~~3)) := by
  simp only [sizeofAssembleBuf, sizeofHeader] at hlen
  have hn : (UInt32.ofNat payload.length).toNat = payload.length := toNat_ofNat_of_lt (by omega)
  rw [protocolParseNextBuffer, hn, if_neg (by omega)]

/-- Without a wrap the parser keeps its promise. -/
theorem sliceInside_of_lt {offset : UInt32}
    (h : offset.toNat + sizeofBufferHeader ≤ payload.length →
      offset.toNat + sizeofBufferHeader + (ntohl payload offset.toNat).toNat < 2 ^ 32) :
    SliceInside payload offset := by
  intro bh dataOff offset' hp
  have hn : (UInt32.ofNat payload.length).toNat = payload.length := by
    simp only [sizeofAssembleBuf, sizeofHeader] at hlen
    exact toNat_ofNat_of_lt (by omega)
  by_cases hfit : offset.toNat + sizeofBufferHeader ≤ payload.length
  · have hsum := h hfit
    rw [protocolParseNextBuffer_of_fits hlen hfit] at hp
    simp only [sizeofAssembleBuf, sizeofHeader, sizeofBufferHeader] at hlen hfit hsum ⊢
    have h8 : (offset + 8).toNat = offset.toNat + 8 := by
      rw [UInt32.toNat_add]
      exact Nat.mod_eq_of_lt (by simp only [UInt32.reduceToNat]; omega)
    have hend : (offset + 8 + ntohl payload offset.toNat).toNat =
        offset.toNat + 8 + (ntohl payload offset.toNat).toNat := by
      rw [UInt32.toNat_add, h8]
      exact Nat.mod_eq_of_lt hsum
    split_ifs at hp with hdata
    · cases congrArg Prod.fst hp
    · simp only [Prod.mk.injEq, Option.some.injEq] at hp
      obtain ⟨⟨rfl, rfl⟩, rfl⟩ := hp
      have hle : offset.toNat + 8 + (ntohl payload offset.toNat).toNat ≤ payload.length := by
        rw [← hend, ← hn]
        exact UInt32.le_iff_toNat_le.mp (UInt32.not_lt.mp hdata)
      have hpad := toNat_padded (x := ntohl payload offset.toNat) (by omega)
      have hnext : (offset + 8 + ((ntohl payload offset.toNat + 3) &&& ~~~3)).toNat =
          offset.toNat + 8 + padded (ntohl payload offset.toNat).toNat := by
        rw [UInt32.toNat_add, h8, hpad, padded]
        omega
      exact ⟨hle, h8, by rw [hnext]; omega, hnext⟩
  · rw [protocolParseNextBuffer, hn, if_pos (by omega)] at hp
    cases congrArg Prod.fst hp

/-- With a wrap the check passes, and the slice is not inside. -/
theorem not_sliceInside_of_ge {offset : UInt32}
    (hfit : offset.toNat + sizeofBufferHeader ≤ payload.length)
    (hsum : 2 ^ 32 ≤ offset.toNat + sizeofBufferHeader + (ntohl payload offset.toNat).toNat) :
    ¬SliceInside payload offset := by
  intro h
  have hp := protocolParseNextBuffer_of_fits hlen hfit
  simp only [sizeofAssembleBuf, sizeofHeader, sizeofBufferHeader] at hlen hfit hsum
  have hn : (UInt32.ofNat payload.length).toNat = payload.length := toNat_ofNat_of_lt (by omega)
  have hlt := (ntohl payload offset.toNat).toNat_lt
  have hpass : ¬offset + 8 + ntohl payload offset.toNat > UInt32.ofNat payload.length := by
    rw [gt_iff_lt, UInt32.not_lt, UInt32.le_iff_toNat_le, hn, UInt32.toNat_add, UInt32.toNat_add]
    simp only [UInt32.reduceToNat]
    omega
  rw [if_neg hpass] at hp
  have hinside := (h _ _ _ hp).1
  simp only [sizeofBufferHeader] at hinside
  omega

/-- Every success moves the offset by at least a header. -/
theorem length_parsedLengths_le (hfits : LengthsFit payload) (turns : ℕ) (offset : UInt32) :
    (parsedLengths payload turns offset).length = 0 ∨
      offset.toNat + 8 * (parsedLengths payload turns offset).length ≤ payload.length := by
  induction turns generalizing offset with
  | zero => exact .inl rfl
  | succ turns ih =>
      rw [parsedLengths]
      rcases hp : protocolParseNextBuffer payload (UInt32.ofNat payload.length) offset with
        ⟨_ | ⟨bh, dataOff⟩, offset'⟩
      · exact .inl rfl
      · right
        obtain ⟨hinside, -, -, hnext⟩ := sliceInside_of_lt hlen (hfits offset) bh dataOff offset' hp
        simp only [sizeofBufferHeader, padded] at hinside hnext
        rw [List.length_cons]
        rcases ih offset' with h | h
        · omega
        · omega

end

/-- **The buffers of a payload are contained exactly when its lengths fit.** -/
theorem buffers_contained_iff (payload : List UInt8)
    (hlen : payload.length ≤ sizeofAssembleBuf - sizeofHeader) :
    BuffersContained payload ↔ LengthsFit payload := by
  constructor
  · intro h offset hfit
    by_contra hsum
    have hsize : offset.toNat ≤ payload.length + 3 := by
      simp only [sizeofBufferHeader] at hfit
      omega
    exact not_sliceInside_of_ge hlen hfit (Nat.le_of_not_lt hsum) (h.slice offset hsize)
  · intro h
    refine ⟨fun offset _ => sliceInside_of_lt hlen (h offset), fun offset turns _ => ?_⟩
    rcases length_parsedLengths_le hlen h turns offset with h | h
    · omega
    · omega

/-- A buffer that is padded, and one that is not. -/
def paddedPayload : List UInt8 := inputPayload [[1, 2, 3, 4, 5], [6, 7, 8, 9]]

/-- The slices lie in the payload, and those of the two buffers are their data. -/
theorem buffers_contained_padded :
    BuffersContained paddedPayload ∧
      protocolParseNextBuffer paddedPayload (UInt32.ofNat paddedPayload.length) 8 =
        (some (⟨5, oneFloat⟩, 16), 24) ∧
      protocolParseNextBuffer paddedPayload (UInt32.ofNat paddedPayload.length) 24 =
        (some (⟨4, oneFloat⟩, 32), 36) := by
  have hfits : LengthsFit paddedPayload := by
    intro offset hfit
    have hle : offset.toNat ≤ 28 := by
      have h : paddedPayload.length = 36 := rfl
      simp only [h, sizeofBufferHeader] at hfit
      omega
    have hall : ∀ n ≤ 28, n + sizeofBufferHeader + (ntohl paddedPayload n).toNat < 2 ^ 32 := by
      decide
    exact hall _ hle
  exact ⟨(buffers_contained_iff paddedPayload (by decide)).mpr hfits, by decide +kernel,
    by decide +kernel⟩

/-- A container with one buffer of `2 ^ 32 - 8` bytes. -/
def wrappingPayload : List UInt8 := htonl 1 ++ htonl 0 ++ (htonl 0xFFFFFFF8 ++ htonl oneFloat)

/-- The parser hands out that buffer, and the next offset is the old one. -/
theorem buffers_not_contained :
    wrappingPayload.length ≤ sizeofAssembleBuf - sizeofHeader ∧
      protocolParseNextBuffer wrappingPayload (UInt32.ofNat wrappingPayload.length) 8 =
        (some (⟨0xFFFFFFF8, oneFloat⟩, 16), 8) ∧
      ¬BuffersContained wrappingPayload := by
  have hp : protocolParseNextBuffer wrappingPayload (UInt32.ofNat wrappingPayload.length) 8 =
      (some (⟨0xFFFFFFF8, oneFloat⟩, 16), 8) := by decide
  refine ⟨by decide, hp, fun h => ?_⟩
  have hprogress := (h.slice 8 (by decide) _ _ _ hp).2.2.1
  exact absurd hprogress (by decide)

end MachAudio
