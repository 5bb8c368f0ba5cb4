import MachAudio.Exits
import MachAudio.Passthrough

/-! # Requests with one buffer

What a request with a single buffer leaves, whatever its number of channels.  The steps of
`audio_process_transcode` need not agree on how many samples there are: the encoding may read more
of a block than the steps before have written, or less.  So the output is known as far as both
reach (`Agree`), and its length is known from the counts (`audioProcessTranscode_single`). -/

namespace MachAudio

open ByteMem Exec

variable {H Φ : Type} {E : Env H Φ}

/-! ### The steps -/

/-- Two lists that agree as far as both reach. -/
def Agree (xs ys : List Int16) : Prop := ∀ i, i < xs.length → i < ys.length → xs[i]? = ys[i]?

section steps
variable {s t : TranscodeSession H} {size c : ℕ} {M : Mem → Prop}

/-- A session stored that differs from the last one by more than the voice detector. -/
theorem setSession_moves {s' : TranscodeSession H} (hs : SameSetup t s') :
    Returns (Contents s size c M) (setSession s') () (Contents t size c M) :=
  fun _ h => ⟨rfl, hs, h.size, h.curr, h.mem⟩

/-- What the resampling step leaves in its block, and the session it leaves. -/
theorem resampleStep_resampled (hsize : size < 2 ^ 62) (hpos : 0 < size)
    (hres : s.needsResample = true) (b : Block) {n : ℕ} {xs : List Int16}
    {r : List Int16 × List ℤ × Resampler}
    (hr : r = resampleL16Advanced E s.resampler s.inSampleRate s.outSampleRate xs (s.outCap n))
    (hfit : (c + 7) / 8 * 8 + s.resampledSize n ≤ size) :
    Returns (Contents s size c fun m => m.samples b.start n = xs) (resampleStep E b n)
      (some (⟨(c + 7) / 8 * 8, s.resampledSize n⟩, r.1.length))
      (Contents { s with resampler := r.2.2 } size ((c + 7) / 8 * 8 + s.resampledSize n)
        fun m => m.samples ((c + 7) / 8 * 8) r.1.length = r.1) := by
  unfold resampleStep
  refine Returns.bindSat getSession_contents fun s' => Returns.assume ?_
  rintro ⟨v, p, rfl⟩
  dsimp only
  rw [hres, if_pos rfl]
  apply Returns.bind (divide_contents _ _)
  apply Returns.bind (alloc_contents hsize hpos hfit)
  apply Returns.bind (loadSamples_contents (i := 0) fun m hm => hm)
  have hput : ∀ size' c', Returns (Contents s size c' fun m => m.samples b.start n = xs)
      (storeSamples ⟨(c + 7) / 8 * 8, size'⟩ 0 r.1) ()
      (Contents s size c' fun m => m.samples ((c + 7) / 8 * 8) r.1.length = r.1) :=
    fun _ _ => storeSamples_contents fun m _ => samples_store_same m _ r.1
  unfold TranscodeSession.outCap at hr
  rw [← hr]
  apply Returns.bind (hput _ _)
  exact Returns.bind (setSession_moves ⟨v, p, rfl⟩) (Returns.pure fun _ h => h)

/-- The encoding step on a block that begins with `ys`. -/
theorem encodeStep_agrees (hsize : size < 2 ^ 62) (hpos : 0 < size) (hsw : SwapFlags s)
    (hk : IsKnownCodec s.outPayloadType) (lo : ℕ) (b : Block) (k : ℕ) (ys : List Int16)
    (hfit : (c + 7) / 8 * 8 + s.encodedElements k ≤ size) :
    Returns (Contents s size c fun m => m.samples b.start ys.length = ys) (encodeStep lo b k) 0
      fun w => ∃ xs, xs.length = s.encodedElements k ∧ Agree xs ys ∧
        Contents s size (lo + (encodeSamples s.outPayloadType s.outEndian xs).length)
          (fun m => m.load lo (encodeSamples s.outPayloadType s.outEndian xs).length =
            encodeSamples s.outPayloadType s.outEndian xs) w := by
  apply returns_of_mem
  intro m hm
  obtain ⟨xs, hxs⟩ : ∃ xs, m.samples b.start (s.encodedElements k) = xs := ⟨_, rfl⟩
  have hlen : xs.length = s.encodedElements k := by rw [← hxs, length_samples]
  have hagree : Agree xs ys := by
    intro i hi hi'
    rw [← List.getElem?_take_of_lt (Nat.lt_succ_self i) (l := xs),
      ← List.getElem?_take_of_lt (Nat.lt_succ_self i) (l := ys), ← hxs, ← hm,
      ByteMem.take_samples _ _ (by omega), ByteMem.take_samples _ _ (by omega)]
  rw [← hlen] at hfit hxs
  refine (encodeStep_contents hsize hpos hfit hsw hk hlen.symm).weaken (fun w hw => hw.imp ?_)
    fun w hw => ⟨xs, hlen, hagree, hw⟩
  rintro m' rfl
  exact hxs

end steps

/-! ### The request -/

section request
variable {s : TranscodeSession H} {size c : ℕ} {payload data : List UInt8}

/-- What the encoding step is given of a buffer: the decoded elements or what the resampler makes
of them. -/
def TranscodeSession.elements (E : Env H Φ) (s : TranscodeSession H) (data : List UInt8) :
    List Int16 :=
  if s.needsResample then
    (resampleL16Advanced E s.resampler s.inSampleRate s.outSampleRate
      ((s.decoded data).take (s.decodedSamples data.length))
      (s.outCap (s.decodedSamples data.length))).1
  else s.decoded data

/-- The loop over one buffer. -/
theorem mixInputs_single (h : Decodable s size payload) (hp : WellFormed payload [data])
    (h16 : s.inPayloadType ≠ codecL16 → data.length % 16 = 0) (hc : c ≤ 128) :
    ∃ b c', c' ≤ 128 + 2 * payload.length ∧
      Returns (Contents s size c fun _ => True)
        (mixInputs payload 1 (UInt32.ofNat sizeofInputPayload) none)
        (some (some (b, s.decodedSamples data.length)))
        (Contents s size c' fun m =>
          m.samples b.start (s.decoded data).length = s.decoded data) := by
  have hlen := h.length
  obtain ⟨reserved, bytes, hpay, volume, rest, rfl, -⟩ := hp
  rw [← List.append_assoc] at hpay
  obtain ⟨a, c', -, -, hbound, hdec⟩ := decodeBuffer_at h hpay rfl h16
    (show c ≤ 128 + 2 * _ from hc.trans (Nat.le_add_right _ _))
  have hl := congrArg List.length hpay
  simp only [List.length_append, length_htonl] at hl
  refine ⟨⟨a, s.blockSize data.length⟩, c', hbound.trans (by
    simp only [List.length_append, length_htonl, sizeofBufferHeader]; omega), ?_⟩
  have hturn := mixInputs_turn (H := H) hpay rfl (by omega) 0 none
  rw [List.length_append, length_htonl, length_htonl] at hturn
  refine hturn ▸ returns_of_mem fun m _ => Returns.bind (hdec m) ?_
  apply Returns.bind (mixInto_none_contents _)
  exact Returns.pure fun w hw => hw.imp fun m' hm' => hm'.2

/-- From the start `lo` of the request on, the arena holds what `xs` is encoded to. -/
def LeavesEncoded (s : TranscodeSession H) (lo : ℕ) (xs : List Int16) (w : Work H) : Prop :=
  w.arena.curr = lo + (encodeSamples s.outPayloadType s.outEndian xs).length ∧
    w.arena.buf.load lo (encodeSamples s.outPayloadType s.outEndian xs).length =
      encodeSamples s.outPayloadType s.outEndian xs

/-- What follows the loop, for any number of channels. -/
theorem processMixed_elements (hsize : size < 2 ^ 62) (hpos : 0 < size) (hsw : SwapFlags s)
    (hk : IsKnownCodec s.outPayloadType) (lo : ℕ) (b : Block) {n : ℕ}
    (hn : n = s.decodedSamples data.length) (hle : n ≤ (s.decoded data).length)
    (hroom : c + 16 + (if s.needsResample then s.resampledSize n else 0) +
      s.encodedElements (s.encodedCount E n) ≤ size) :
    Returns (Contents s size c fun m => m.samples b.start (s.decoded data).length = s.decoded data)
      (processMixed E lo b n) 0 fun w => ∃ xs, xs.length = s.encodedElements (s.encodedCount E n) ∧
        Agree xs (s.elements E data) ∧ LeavesEncoded s lo xs w := by
  apply Returns.bind (inputVad_contents b n)
  unfold TranscodeSession.elements
  cases hres : s.needsResample with
  | false =>
      have hcount : s.encodedCount E n = n := by
        unfold TranscodeSession.encodedCount
        rw [hres]
        rfl
      rw [hcount, hres] at hroom
      rw [hcount]
      apply Returns.bind (resampleStep_contents hres b n)
      apply Returns.bind (outputVad_contents b n)
      refine (encodeStep_agrees hsize hpos hsw hk lo b n _ ?_).post ?_
      · simp only [Bool.false_eq_true, if_false] at hroom
        omega
      · rintro w ⟨xs, hlen, hagree, hw⟩
        exact ⟨xs, hlen, hagree, hw.curr, hw.mem⟩
  | true =>
      obtain ⟨r, hr⟩ : ∃ r, r = resampleL16Advanced E s.resampler s.inSampleRate s.outSampleRate
          ((s.decoded data).take n) (s.outCap n) := ⟨_, rfl⟩
      have hcount : s.encodedCount E n = r.1.length := by
        unfold TranscodeSession.encodedCount TranscodeSession.resampledCount
        rw [hres, hr, length_resampleL16Advanced, List.length_take, Nat.min_eq_left hle]
        rfl
      rw [hcount, hres, if_pos rfl] at hroom
      rw [hcount, if_pos rfl, ← hn, ← hr]
      have hstep := resampleStep_resampled hsize hpos hres b hr (c := c) (by omega)
      refine Returns.bind (hstep.pre fun w hw => hw.imp fun m hm => ?_) ?_
      · rw [← ByteMem.take_samples _ _ hle, hm]
      · apply Returns.bind (outputVad_contents _ _)
        refine (encodeStep_agrees hsize hpos (s := { s with resampler := r.2.2 })
          ⟨hsw.swapIn, hsw.swapOut⟩ hk lo ⟨(c + 7) / 8 * 8, s.resampledSize n⟩ r.1.length r.1
          ?_).post ?_
        · change _ + s.encodedElements r.1.length ≤ size
          omega
        · rintro w ⟨xs, hlen, hagree, hw⟩
          exact ⟨xs, hlen, hagree, hw.curr, hw.mem⟩

/-- The call on a payload with one buffer. -/
theorem audioProcessTranscode_single (h : Decodable s size payload)
    (hk : IsKnownCodec s.outPayloadType) (hp : WellFormed payload [data])
    (h16 : s.inPayloadType ≠ codecL16 → data.length % 16 = 0) (hc : c ≤ 128) {n : ℕ}
    (hn : n = s.decodedSamples data.length) (hpos : 0 < n) (hle : n ≤ (s.decoded data).length)
    (hroom : 65648 + (if s.needsResample then s.resampledSize n else 0) +
      s.encodedElements (s.encodedCount E n) ≤ size) :
    Returns (Contents s size c fun _ => True) (audioProcessTranscode E payload) 0
      fun w => ∃ xs, xs.length = s.encodedElements (s.encodedCount E n) ∧
        Agree xs (s.elements E data) ∧ LeavesEncoded s c xs w := by
  have hlen := h.length
  have hsize := h.size
  simp only [machSessionArenaSize] at hsize
  have hnum := hp.numBuffers (by omega)
  have hne : ntohl payload 0 ≠ 0 := by
    intro h0
    rw [h0] at hnum
    cases hnum
  obtain ⟨b, c', hc', hloop⟩ := mixInputs_single h hp h16 hc
  rw [← hn] at hloop
  unfold audioProcessTranscode
  apply Returns.bind getCurr_contents
  dsimp only
  rw [if_neg hne, hnum]
  apply Returns.bind hloop
  dsimp only
  rw [if_neg (by omega)]
  exact processMixed_elements (by omega) (by omega) h.swap hk c b hn hle (by omega)

end request

theorem WellFormed.data_length_le {payload data : List UInt8} (h : WellFormed payload [data]) :
    data.length ≤ payload.length := by
  obtain ⟨reserved, bytes, rfl, volume, rest, rfl, -⟩ := h
  simp only [List.length_append]
  omega

end MachAudio
