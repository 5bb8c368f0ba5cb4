import MachAudio.SingleBuffer

/-! # One channel at any two rates

With one channel on both sides a request is decoded, mixed, brought to the other rate and encoded,
and every step hands on exactly what the step before has written.  The resampler it leaves is the
one the next request begins with, so a session converts its requests one after another as
`resampleCalls` does (`audioProcessTranscode_converted`). -/

namespace MachAudio

open ByteMem Exec

variable {H Φ : Type} {E : Env H Φ}

/-- What the resampling step makes of some samples, and the resampler it leaves. -/
def TranscodeSession.converted (E : Env H Φ) (s : TranscodeSession H) (xs : List Int16) :
    List Int16 × Resampler :=
  if s.needsResample then
    let r := resampleL16Advanced E s.resampler s.inSampleRate s.outSampleRate xs
      (s.outCap xs.length)
    (r.1, r.2.2)
  else (xs, s.resampler)

/-- Its output has as many samples as the encoding step is told. -/
theorem TranscodeSession.length_converted (s : TranscodeSession H) (xs : List Int16) :
    (s.converted E xs).1.length = s.encodedCount E xs.length := by
  unfold TranscodeSession.converted TranscodeSession.encodedCount
  split_ifs
  · exact length_resampleL16Advanced _ _ _ _ _ _
  · rfl

section steps
variable {s : TranscodeSession H} {size c : ℕ}

theorem encodedElements_mono (hout : s.outChannels = 1) (n : ℕ) : s.encodedElements n = n := by
  unfold TranscodeSession.encodedElements
  rw [hout]
  split_ifs
  · exact Nat.mul_one _
  · rfl

/-- What follows the loop over the buffers. -/
theorem processMixed_converted (hsw : SwapFlags s) (hk : IsKnownCodec s.outPayloadType)
    (hout : s.outChannels = 1) {b : Block} {xs : List Int16} {lo : ℕ} (hsize : size < 2 ^ 62)
    (hpos : 0 < size)
    (hroom : c + 16 + (if s.needsResample then s.resampledSize xs.length else 0) +
      (s.converted E xs).1.length ≤ size) :
    Returns (Contents s size c fun m => m.samples b.start xs.length = xs)
      (processMixed E lo b xs.length) 0
      (Contents { s with resampler := (s.converted E xs).2 } size
        (lo + (encodeSamples s.outPayloadType s.outEndian (s.converted E xs).1).length)
        fun m => m.load lo
            (encodeSamples s.outPayloadType s.outEndian (s.converted E xs).1).length =
          encodeSamples s.outPayloadType s.outEndian (s.converted E xs).1) := by
  rcases Bool.eq_false_or_eq_true s.needsResample with hres | hres
  · obtain ⟨r, hr⟩ : ∃ r, r = resampleL16Advanced E s.resampler s.inSampleRate s.outSampleRate
        xs (s.outCap xs.length) := ⟨_, rfl⟩
    have hsame : s.converted E xs = (r.1, r.2.2) := by
      unfold TranscodeSession.converted
      rw [hres, hr]
      rfl
    rw [hsame, hres, if_pos rfl] at hroom
    rw [hsame]
    have hfit : ((c + 7) / 8 * 8 + s.resampledSize xs.length + 7) / 8 * 8 + r.1.length ≤ size := by
      dsimp only at hroom
      omega
    have helem : ({ s with resampler := r.2.2 } : TranscodeSession H).encodedElements
        r.1.length = r.1.length :=
      encodedElements_mono hout _
    apply Returns.bind (inputVad_contents b xs.length)
    apply Returns.bind (resampleStep_resampled hsize hpos hres b hr (by omega))
    apply Returns.bind (outputVad_contents _ _)
    exact encodeStep_contents (s := { s with resampler := r.2.2 })
      (b := ⟨(c + 7) / 8 * 8, s.resampledSize xs.length⟩) hsize hpos hfit
      ⟨hsw.swapIn, hsw.swapOut⟩ hk helem
  · have hsame : s.converted E xs = (xs, s.resampler) := by
      unfold TranscodeSession.converted
      rw [hres]
      rfl
    rw [hsame] at hroom ⊢
    have hfit : (c + 7) / 8 * 8 + xs.length ≤ size := by
      dsimp only at hroom
      omega
    exact processMixed_contents hsw hk hres (encodedElements_mono hout _) hsize hpos hfit

variable {payload : List UInt8}

/-- **A request with one channel**: the state of the resampler goes on to the next one. -/
theorem audioProcessTranscode_converted (h : Decodable s size payload)
    (hko : IsKnownCodec s.outPayloadType) (hin : s.inChannels = 1) (hout : s.outChannels = 1)
    {data : List UInt8} {datas : List (List UInt8)} (hp : WellFormed payload (data :: datas))
    (h16 : s.inPayloadType ≠ codecL16 → ∀ d ∈ data :: datas, d.length % 16 = 0)
    (hfirst : decodeSamples s.inPayloadType s.inEndian data ≠ []) (hc : c ≤ 128)
    (hroom : 65648 + (if s.needsResample then s.resampledSize (mixedDown s data datas).length
      else 0) + (s.converted E (mixedDown s data datas)).1.length ≤ size) :
    Returns (Contents s size c fun _ => True) (audioProcessTranscode E payload) 0
      (Contents { s with resampler := (s.converted E (mixedDown s data datas)).2 } size
        (c + (encodeSamples s.outPayloadType s.outEndian
          (s.converted E (mixedDown s data datas)).1).length)
        fun m => m.load c (encodeSamples s.outPayloadType s.outEndian
            (s.converted E (mixedDown s data datas)).1).length =
          encodeSamples s.outPayloadType s.outEndian
            (s.converted E (mixedDown s data datas)).1) := by
  have hlen := h.length
  have hsize := h.size
  simp only [machSessionArenaSize] at hsize
  have hn := hp.numBuffers (by omega)
  have hpos : (mixedDown s data datas).length ≠ 0 := by
    rw [length_mixedDown]
    exact fun h0 => hfirst (List.eq_nil_of_length_eq_zero h0)
  have hne : ntohl payload 0 ≠ 0 := by
    intro h0
    rw [h0] at hn
    cases hn
  obtain ⟨b, c', hc', hloop⟩ := mixInputs_all h hin hp h16 hc
  unfold audioProcessTranscode
  apply Returns.bind getCurr_contents
  dsimp only
  rw [if_neg hne, hn]
  apply Returns.bind hloop
  dsimp only
  rw [if_neg hpos]
  exact processMixed_converted h.swap hko hout (by omega) (by omega) (by omega)

end steps

end MachAudio
