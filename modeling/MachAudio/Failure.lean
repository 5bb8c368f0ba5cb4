import MachAudio.Exits
import MachAudio.GruStream
import MachAudio.Restart

/-! # What a failed request leaves behind

Nothing in the server undoes what a failed request has done to the session: only the arena is
rewound.  A request that fails while it decodes has touched nothing of the stream; one that
fails at the allocation of the resampled block comes behind the voice detector, and one that
fails at the allocation of the encoded block comes behind the resampler too.

`ResamplesNothing` and `HearsNothing` say that no such step has run before the failure.  Then
the session is what it was but for the last probability, which the next request with a buffer
overwrites before it is read (`failed_input_keeps_stream`).  Otherwise frames have been heard
that no response will tell of (`failed_input_hears`). -/

namespace MachAudio

open ByteMem Exec

variable {H Φ : Type} (E : Env H Φ)

/-! ### The conditions -/

section conditions
variable (s : TranscodeSession H) (size curr : ℕ) (payload : List UInt8)

/-- The detector is given a whole frame of `n` samples of a stream. -/
def TranscodeSession.HearsFrame (s : TranscodeSession H) (rate : UInt32) (channels n : ℕ) : Prop :=
  s.vadRuns rate = true ∧ 1 ≤ channels ∧ vadFrameSize ≤ n

/-- The request gets through the decoding, the first buffer having `n` samples, and the block
for the resampled samples does not fit. -/
def FailsResampling (n : ℕ) : Prop :=
  ∃ len curr₁, Decodes s size curr payload len curr₁ ∧ n = s.decodedSamples len ∧
    s.resampledCursor size curr₁ n = none

/-- It gets through the resampling, and the block for the encoded samples does not fit. -/
def FailsEncoding (n : ℕ) : Prop :=
  ∃ len curr₁ curr₂, Decodes s size curr payload len curr₁ ∧ n = s.decodedSamples len ∧
    s.resampledCursor size curr₁ n = some curr₂ ∧
    s.encodeShape size curr curr₂ (s.encodedCount E n) = none

/-- The resampler has not run before the failure. -/
def ResamplesNothing : Prop :=
  ∀ n, FailsEncoding E s size curr payload n → s.needsResample = false

/-- The detector has not been given a whole frame before the failure. -/
structure HearsNothing : Prop where
  input : ∀ n, FailsResampling s size curr payload n ∨ FailsEncoding E s size curr payload n →
    ¬s.HearsFrame s.inSampleRate s.inChannels.toNat n
  output : ∀ n, FailsEncoding E s size curr payload n →
    ¬s.HearsFrame s.outSampleRate s.outChannels.toNat (s.encodedCount E n)

end conditions

/-! ### Steps on the stream -/

/-- The session `s'` is `s` but for the stream and the last probability, and under `R` it has
the resampler of `s`, under `V` its hidden state. -/
structure Streamed (R V : Prop) (s s' : TranscodeSession H) : Prop where
  eq : s' = { s with
    resampler := s'.resampler, vadState := s'.vadState, lastVadProb := s'.lastVadProb }
  isSome : s'.vadState.isSome = s.vadState.isSome
  resampler : R → s'.resampler = s.resampler
  vadState : V → s'.vadState = s.vadState

section streamed
variable {R V : Prop}

theorem Streamed.refl (s : TranscodeSession H) : Streamed R V s s :=
  ⟨rfl, rfl, fun _ => rfl, fun _ => rfl⟩

theorem Streamed.trans {s s' s'' : TranscodeSession H} (h : Streamed R V s s')
    (h' : Streamed R V s' s'') : Streamed R V s s'' where
  eq := by
    have h₁ := h'.eq
    rw [h.eq] at h₁
    exact h₁
  isSome := h'.isSome.trans h.isSome
  resampler := fun hr => (h'.resampler hr).trans (h.resampler hr)
  vadState := fun hv => (h'.vadState hv).trans (h.vadState hv)

theorem Streamed.prob (s : TranscodeSession H) (p : UInt32) :
    Streamed R V s { s with lastVadProb := p } := ⟨rfl, rfl, fun _ => rfl, fun _ => rfl⟩

theorem Streamed.sameConfig {s s' : TranscodeSession H} (h : Streamed R V s s') :
    SameConfig s s' := by
  refine ⟨?_, ?_, ?_, ?_, ?_, ?_, ?_, ?_, h.isSome⟩ <;> rw [h.eq]

theorem Streamed.hearsFrame {s s' : TranscodeSession H} (h : Streamed R V s s') (rate : UInt32)
    (channels n : ℕ) : s'.HearsFrame rate channels n ↔ s.HearsFrame rate channels n := by
  unfold TranscodeSession.HearsFrame TranscodeSession.vadRuns
  rw [h.isSome, h.sameConfig.vadEnabled]

/-- Both conditions together leave the last probability only. -/
theorem Streamed.eq_setProb {s s' : TranscodeSession H} (h : Streamed R V s s') (hr : R)
    (hv : V) : s' = { s with lastVadProb := s'.lastVadProb } := by
  have he := h.eq
  rw [h.resampler hr, h.vadState hv] at he
  exact he

end streamed

/-- Without a whole frame or without a channel the hidden state stays. -/
theorem vadGruProcessPcm_quiet {state : H} {pcm : List Int16} {samples channels : ℕ}
    {rate : UInt32} (h : ¬(1 ≤ channels ∧ vadFrameSize ≤ samples)) :
    (vadGruProcessPcm E state pcm samples rate channels).2 = state := by
  unfold vadGruProcessPcm
  split_ifs with h₁ h₂
  · rfl
  · rfl
  · rw [Nat.div_eq_of_lt (by omega)]
    rfl

section steps
variable {R V : Prop} (b : Block) (n : ℕ) (w : Work H)

theorem runVad_streamed {channels : ℕ} (h : V → ¬(1 ≤ channels ∧ vadFrameSize ≤ n)) :
    Streamed R V w.session (runVad E b n channels w).2.session := by
  cases hv : w.session.vadState with
  | none =>
      simp only [runVad, bind_apply, getSession_apply, hv]
      exact .refl _
  | some state =>
      simp only [runVad, bind_apply, getSession_apply, hv, setSession_apply]
      refine ⟨rfl, by rw [hv]; rfl, fun _ => rfl, fun hV => ?_⟩
      rw [vadGruProcessPcm_quiet E (h hV), hv]

theorem inputVad_streamed
    (h : V → ¬w.session.HearsFrame w.session.inSampleRate w.session.inChannels.toNat n) :
    Streamed R V w.session (inputVad E b n w).2.session := by
  rw [inputVad_apply]
  split_ifs with hr
  · exact (Streamed.prob w.session minusOneFloat).trans (runVad_streamed E b n
      { w with session := { w.session with lastVadProb := minusOneFloat } }
      fun hV hc => h hV ⟨hr, hc⟩)
  · exact .prob _ _

theorem outputVad_streamed
    (h : V → ¬w.session.HearsFrame w.session.outSampleRate w.session.outChannels.toNat n) :
    Streamed R V w.session (outputVad E b n w).2.session := by
  rw [outputVad_apply]
  split_ifs with hcond
  · refine runVad_streamed E b n w fun hV hc => h hV ⟨?_, hc⟩
    simp only [Bool.and_eq_true] at hcond
    simp only [TranscodeSession.vadRuns, Bool.and_eq_true]
    exact ⟨hcond.1.1, hcond.2⟩
  · exact .refl _

/-- Nothing to resample. -/
theorem resampleStep_off (h : w.session.needsResample = false) :
    Returns (fun w' => w' = w) (resampleStep E b n) (some (b, n)) fun w' => w' = w := by
  refine Returns.bindSat (Q := fun s' w' => s' = w.session ∧ w' = w)
    (fun w' hw => ⟨congrArg Work.session hw, hw⟩) fun s' => Returns.assume fun hs' => ?_
  rw [hs', h]
  exact Returns.pure fun _ h => h

/-- The resampler stays when the step fails or has nothing to do. -/
theorem resampleStep_streamed
    (h : R → (resampleStep E b n w).1 = none ∨ w.session.needsResample = false) :
    Streamed R V w.session (resampleStep E b n w).2.session := by
  obtain ⟨-, hnone, r, hr⟩ := resampleStep_sat E b n w.session w rfl
  refine ⟨by rw [hr], by rw [hr], fun hR => ?_, fun _ => by rw [hr]⟩
  rcases h hR with h | h
  · rw [hnone h]
  · rw [(resampleStep_off E b n w h w rfl).2]

/-- Everything behind the mixing. -/
theorem processMixed_streamed (lo : ℕ)
    (hin : V → ¬w.session.HearsFrame w.session.inSampleRate w.session.inChannels.toNat n)
    (hdone : ∀ out m, (resampleStep E b n (inputVad E b n w).2).1 = some (out, m) →
      (R → w.session.needsResample = false) ∧
      (V → ¬w.session.HearsFrame w.session.outSampleRate w.session.outChannels.toNat
        (w.session.encodedCount E n))) :
    Streamed R V w.session (processMixed E lo b n w).2.session := by
  have hvad := inputVad_streamed (R := R) E b n w hin
  obtain ⟨w₁, hw₁⟩ : ∃ w₁, w₁ = (inputVad E b n w).2 := ⟨_, rfl⟩
  rw [← hw₁] at hvad hdone
  have hconfig := hvad.sameConfig
  have hcount : w₁.session.encodedCount E n = w.session.encodedCount E n := by
    rw [hvad.eq]
    rfl
  have hstep := resampleStep_streamed (R := R) (V := V) E b n w₁
  have hsamples := (resampleStep_sat E b n w₁.session w₁ rfl).1
  unfold processMixed
  simp only [bind_apply, ← hw₁]
  generalize resampleStep E b n w₁ = x at hstep hsamples hdone ⊢
  rcases x with ⟨_ | ⟨out, m⟩, w₂⟩
  · exact hvad.trans (hstep fun _ => .inl rfl)
  · obtain ⟨hR, hV⟩ := hdone out m rfl
    have hmid := hvad.trans (hstep fun h => .inr (hconfig.needsResample.trans (hR h)))
    have hm : m = w.session.encodedCount E n := by
      rw [← hcount, ← finalBlock_snd E 0 n]
      exact hsamples _ rfl
    have hkeep : (encodeStep lo out m (outputVad E out m w₂).2).2.session =
        (outputVad E out m w₂).2.session := congrArg Prod.fst (encodeStep_keeps out m lo _)
    simp only [bind_apply, hkeep]
    refine hmid.trans (outputVad_streamed E out m w₂ fun h => ?_)
    rw [hmid.hearsFrame, hmid.sameConfig.outSampleRate, hmid.sameConfig.outChannels, hm]
    exact hV h

/-- Without room for the resampled block the step fails. -/
theorem resampleStep_no_room {s : TranscodeSession H} {size c : ℕ} (hpos : 0 < size)
    (hsize : size ≤ 2 ^ 20) (hc : c ≤ size) (hw : At s size c (fun _ => True) w) (hn : 0 < n)
    (hn20 : n ≤ 2 ^ 20) (hroom : s.resampledCursor size c n = none) :
    (resampleStep E b n (inputVad E b n w).2).1 = none := by
  unfold TranscodeSession.resampledCursor at hroom
  split_ifs at hroom with hres
  have hvad := (inputVad_returns (E := E) (b := b) hn (fun _ => trivial) w hw).2
  exact (resampleStep_none (E := E) (b := b) (grants_true 0 size) hpos (by omega) hc hres hn20
    trivial hroom _ hvad).1

end steps

/-! ### A failed request -/

/-- A decoded request that fails has met one of the two allocations that do not fit. -/
theorem AudioState.Ok.fails_of_decodes {a : AudioState H} (h : a.Ok) {payload : List UInt8}
    (hpay : payload.length < 2 ^ 31) {len curr₁ : ℕ}
    (hd : Decodes a.session a.arena.size a.arena.curr payload len curr₁)
    (hret : (a.transcode E payload).1 = -1) :
    a.session.resampledCursor a.arena.size curr₁ (a.session.decodedSamples len) = none ∨
      FailsEncoding E a.session a.arena.size a.arena.curr payload
        (a.session.decodedSamples len) := by
  have hcode := (h.transcode_shape E hpay).1
  rw [hret, (hd.shape E).2, processShape_eq] at hcode
  cases hroom : a.session.resampledCursor a.arena.size curr₁ (a.session.decodedSamples len) with
  | none => exact .inl rfl
  | some curr₂ =>
      refine .inr ⟨len, curr₁, curr₂, hd, rfl, hroom, ?_⟩
      rw [hroom, Option.bind_some] at hcode
      cases hshape : a.session.encodeShape a.arena.size a.arena.curr curr₂
          (a.session.encodedCount E (a.session.decodedSamples len)) with
      | none => rfl
      | some c =>
          rw [hshape] at hcode
          have hne : (-1 : ℤ) ≠ 0 := by decide
          exact absurd hcode hne

/-- A decoded request goes on behind the mixing of its input, in a state with the session it
has found. -/
theorem AudioState.Ok.decoded {a : AudioState H} (h : a.Ok) {payload : List UInt8}
    (hpay : payload.length < 2 ^ 31) {len curr₁ : ℕ}
    (hd : Decodes a.session a.arena.size a.arena.curr payload len curr₁) :
    ∃ b w, a.transcode E payload = processMixed E a.arena.curr b (a.session.decodedSamples len) w ∧
      a.mixedInput payload = w.arena.buf.samples b.start (a.session.decodedSamples len) ∧
      w.session = a.session ∧ At a.session a.arena.size curr₁ (fun _ => True) w ∧
      a.session.decodedSamples len ≤ 2 ^ 20 ∧ curr₁ ≤ a.arena.size := by
  have hsize : a.arena.size = 262144 := h.size
  have hcurr := h.curr
  obtain ⟨hnum, -⟩ := hd.shape E
  obtain ⟨lens, hl, hk, hb, hn⟩ := hd
  have hloop := mixInputs_cons (s := a.session) (grants_true a.arena.curr a.arena.size) (by omega)
    (by omega) hpay (Nat.le_refl _) (by omega) (fun _ => trivial)
    (n := (ntohl payload 0).toNat) hl fun _ _ _ _ _ _ _ _ => ⟨trivial, trivial⟩
  rw [if_pos hk, if_pos hk, hb] at hloop
  obtain ⟨hx, hat⟩ := hloop _ (a.at_start _)
  have hkeep := congrArg Prod.fst (mixInputs_keeps payload (ntohl payload 0).toNat
    (UInt32.ofNat sizeofInputPayload) none ⟨a.session, a.arena, []⟩)
  have hle := bumps_le hb (by omega)
  have hn20 : a.session.decodedSamples len ≤ 2 ^ 20 := by
    have htwo := two_mul_decodedSamples_le a.session len
    have hfirst := bumps_cons hb
    omega
  unfold AudioState.transcode audioProcessTranscode AudioState.mixedInput
  simp only [bind_apply, getCurr_apply]
  rw [if_neg hnum]
  simp only [bind_apply]
  generalize mixInputs payload _ _ none _ = x at hx hat hkeep ⊢
  obtain ⟨o, w⟩ := x
  dsimp only at hx hat ⊢
  subst hx
  dsimp only [Option.map_some]
  rw [if_neg (by omega)]
  exact ⟨_, w, rfl, rfl, hkeep, hat, hn20, hle.2⟩

/-- What a failed request changes of the session. -/
theorem AudioState.Ok.failed_streamed {a : AudioState H} (h : a.Ok) {payload : List UInt8}
    (hpay : payload.length < 2 ^ 31) (hret : (a.transcode E payload).1 = -1) :
    Streamed (ResamplesNothing E a.session a.arena.size a.arena.curr payload)
      (HearsNothing E a.session a.arena.size a.arena.curr payload) a.session
      (a.transcode E payload).2.session := by
  have hsize : a.arena.size = 262144 := h.size
  have hcurr := h.curr
  by_cases hd : ∃ len curr₁, Decodes a.session a.arena.size a.arena.curr payload len curr₁
  · obtain ⟨len, curr₁, hd⟩ := hd
    have hfails := h.fails_of_decodes E hpay hd hret
    obtain ⟨b, w, hrun, -, hs, hat, hn20, hle⟩ := h.decoded E hpay hd
    have hn : 0 < a.session.decodedSamples len := by
      obtain ⟨-, -, -, -, hn⟩ := hd
      exact hn
    have hstream := processMixed_streamed
      (R := ResamplesNothing E a.session a.arena.size a.arena.curr payload)
      (V := HearsNothing E a.session a.arena.size a.arena.curr payload) E b
      (a.session.decodedSamples len) w a.arena.curr
    rw [hs] at hstream
    rw [hrun]
    refine hstream (fun hV => ?_) fun out m hsome => ?_
    · exact hV.input _ (hfails.imp (fun hroom => ⟨len, curr₁, hd, rfl, hroom⟩) id)
    · -- the step has succeeded, so its block has had room
      have hfail := hfails.resolve_left fun hroom => by
        rw [resampleStep_no_room E _ _ w (by omega) (by omega) hle hat hn hn20 hroom] at hsome
        cases hsome
      exact ⟨fun hR => hR _ hfail, fun hV => hV.output _ hfail⟩
  · have hd : ∀ len curr₁, ¬Decodes a.session a.arena.size a.arena.curr payload len curr₁ :=
      fun len curr₁ h => hd ⟨len, curr₁, h⟩
    unfold AudioState.transcode at hret ⊢
    rcases audioProcessTranscode_undecoded E (by omega) (by omega) (by omega) hpay hd
      (a.at_start _) with ⟨-, he⟩ | ⟨-, -, hs⟩
    · rw [he] at hret
      have hne : (0 : ℤ) ≠ -1 := by decide
      exact absurd hret hne
    · rw [hs]
      exact .refl _

/-- A request whose resampled block does not fit has failed, and the detector has heard its
input all the same. -/
theorem AudioState.Ok.failed_hears {a : AudioState H} (h : a.Ok) {payload : List UInt8}
    (hpay : payload.length < 2 ^ 31) {n : ℕ}
    (hfail : FailsResampling a.session a.arena.size a.arena.curr payload n) {state : H}
    (hstate : a.session.vadState = some state) (hin₁ : a.session.inChannels = 1)
    (hr : a.session.vadRuns a.session.inSampleRate = true) :
    (a.transcode E payload).1 = -1 ∧ (a.mixedInput payload).length = n ∧
      (audioInput E a payload).session.vadState =
        some (gruAfter E state (a.mixedInput payload)) := by
  have hsize : a.arena.size = 262144 := h.size
  obtain ⟨len, curr₁, hd, rfl, hroom⟩ := hfail
  obtain ⟨b, w, hrun, hmixed, hs, hat, hn20, hle⟩ := h.decoded E hpay hd
  have hn : 0 < a.session.decodedSamples len := by
    obtain ⟨-, -, -, -, hn⟩ := hd
    exact hn
  have hnone := resampleStep_no_room E b _ w (by omega) (by omega) hle hat hn hn20 hroom
  have hkeep := (resampleStep_sat E b (a.session.decodedSamples len)
    (inputVad E b (a.session.decodedSamples len) w).2.session _ rfl).2.1 hnone
  have hhears := (inputVad_hears E b (a.session.decodedSamples len) w
    (show w.session.vadState = some state by rw [hs]; exact hstate) (by rw [hs]; exact hin₁)
    (by rw [hs]; exact hr) hn).1
  unfold audioInput
  rw [hrun, hmixed, length_samples]
  unfold processMixed
  simp only [bind_apply, hnone, pure_apply, hkeep]
  exact ⟨trivial, trivial, hhears⟩

/-! ### The last probability is not read

Up to the voice detector nothing looks at the last probability, and the detector begins by
overwriting it. -/

/-- The session with another last probability. -/
def Work.setProb (p : UInt32) (w : Work H) : Work H :=
  { w with session := { w.session with lastVadProb := p } }

section ignores
variable (p : UInt32)

theorem mixBlocks_ignores {inA inB out : Block} :
    ∀ n i, Ignores (Work.setProb (H := H) p) (mixBlocks inA inB out n i)
  | 0, _ => Ignores.pure
  | n + 1, i => Ignores.bind (fun _ => rfl) fun _ => Ignores.bind (fun _ => rfl) fun _ =>
      Ignores.bind (fun _ => rfl) fun _ => mixBlocks_ignores n (i + 16)

theorem mixTail_ignores {inA inB out : Block} :
    ∀ n i, Ignores (Work.setProb (H := H) p) (mixTail inA inB out n i)
  | 0, _ => Ignores.pure
  | n + 1, i => Ignores.bind (fun _ => rfl) fun _ => Ignores.bind (fun _ => rfl) fun _ =>
      Ignores.bind (fun _ => rfl) fun _ => mixTail_ignores n (i + 1)

theorem swapEndianL16_ignores (b : Block) (n : ℕ) :
    Ignores (Work.setProb (H := H) p) (swapEndianL16 b n) :=
  Ignores.bind (fun _ => rfl) fun _ => fun _ => rfl

variable (payload : List UInt8)

theorem decodeG711_ignores (decode : List UInt8 → Option (List Int16)) (dataOff len : ℕ) :
    Ignores (Work.setProb (H := H) p) (decodeG711 decode payload dataOff len) := by
  apply Ignores.bind (fun _ => rfl)
  intro o
  cases o with
  | none => exact Ignores.pure
  | some b =>
      refine Ignores.bind ?_ fun _ => Ignores.pure
      cases decode ((payload.drop dataOff).take len) with
      | none => exact Ignores.pure
      | some pcm => exact Ignores.bind (fun _ => rfl) fun _ => fun _ => rfl

theorem decodeL16_ignores (dataOff len : ℕ) :
    Ignores (Work.setProb (H := H) p) (decodeL16 payload dataOff len) := by
  refine Ignores.bindRead (fun _ => rfl) fun s => Ignores.bind (fun _ => rfl) fun n =>
    Ignores.bind (fun _ => rfl) fun o => ?_
  cases o with
  | none => exact Ignores.pure
  | some b =>
      refine Ignores.bind (fun _ => rfl) fun _ => Ignores.bind (fun _ => rfl) fun _ => ?_
      dsimp only
      split_ifs
      · exact Ignores.bind (swapEndianL16_ignores p _ _) fun _ => Ignores.pure
      · exact Ignores.pure

theorem decodeBuffer_ignores (dataOff len : ℕ) :
    Ignores (Work.setProb (H := H) p) (decodeBuffer payload dataOff len) :=
  Ignores.bindRead (fun _ => rfl) fun _ =>
    Ignores.ite (decodeG711_ignores p _ _ _ _) <| Ignores.ite (decodeG711_ignores p _ _ _ _) <|
      Ignores.ite (decodeL16_ignores p _ _ _) Ignores.pure

theorem mixInto_ignores (acc : Option (Block × ℕ)) (decoded : Block × ℕ) :
    Ignores (Work.setProb (H := H) p) (mixInto acc decoded) := by
  refine Ignores.bindRead (fun _ => rfl) fun s => ?_
  cases acc with
  | none => exact Ignores.pure
  | some acc =>
      exact Ignores.bind (Ignores.bind (mixBlocks_ignores p _ _) fun _ => mixTail_ignores p _ _)
        fun _ => Ignores.pure

theorem mixInputs_ignores : ∀ (n : ℕ) (offset : UInt32) (acc : Option (Block × ℕ)),
    Ignores (Work.setProb (H := H) p) (mixInputs payload n offset acc)
  | 0, _, _ => Ignores.pure
  | n + 1, offset, acc => by
      rw [mixInputs]
      rcases protocolParseNextBuffer payload (UInt32.ofNat payload.length) offset with
        ⟨_ | ⟨bh, dataOff⟩, offset'⟩
      · exact Ignores.pure
      · apply Ignores.bind (decodeBuffer_ignores p _ _ _)
        intro o
        cases o with
        | none => exact Ignores.pure
        | some decoded =>
            exact Ignores.bind (mixInto_ignores p _ _) fun acc' =>
              mixInputs_ignores n offset' (some acc')

/-- A request with a buffer returns the same whatever the last probability was, and if it
succeeds it ends the same. -/
theorem audioProcessTranscode_ignores (hnum : ntohl payload 0 ≠ 0) (w : Work H) :
    (audioProcessTranscode E payload (w.setProb p)).1 = (audioProcessTranscode E payload w).1 ∧
      ((audioProcessTranscode E payload w).1 = 0 →
        (audioProcessTranscode E payload (w.setProb p)).2 =
          (audioProcessTranscode E payload w).2) := by
  have hne : (-1 : ℤ) ≠ 0 := by decide
  have hmix := mixInputs_ignores p payload (ntohl payload 0).toNat
    (UInt32.ofNat sizeofInputPayload) none w
  unfold audioProcessTranscode
  simp only [bind_apply, getCurr_apply]
  rw [if_neg hnum, if_neg hnum]
  simp only [bind_apply, hmix]
  generalize mixInputs payload _ _ none w = x
  obtain ⟨o, w'⟩ := x
  match o with
  | none => exact ⟨rfl, fun h => absurd h hne⟩
  | some none => exact ⟨rfl, fun h => absurd h hne⟩
  | some (some (b, n)) =>
      dsimp only
      by_cases hn : n = 0
      · rw [if_pos hn, if_pos hn]
        exact ⟨rfl, fun h => absurd h hne⟩
      · -- the detector overwrites it before it is read
        have hvad : inputVad E b n (w'.setProb p) = inputVad E b n w' := rfl
        rw [if_neg hn, if_neg hn]
        simp only [processMixed, bind_apply, hvad]
        exact ⟨rfl, fun _ => rfl⟩

end ignores

/-! ### The next request -/

theorem answerInput_setProb (d : UInt64) (s : TranscodeSession H) (p : UInt32) (arena : Arena)
    {payload : List UInt8} (hnum : ntohl payload 0 ≠ 0) :
    answerInput E d ⟨{ s with lastVadProb := p }, arena⟩ payload =
      answerInput E d ⟨s, arena⟩ payload := by
  obtain ⟨hret, hend⟩ := audioProcessTranscode_ignores E p payload hnum ⟨s, arena, []⟩
  have e : ({ session := { s with lastVadProb := p }, arena := arena } : AudioState H).transcode E
      payload = audioProcessTranscode E payload (Work.setProb p ⟨s, arena, []⟩) := rfl
  have e' : (⟨s, arena⟩ : AudioState H).transcode E payload =
      audioProcessTranscode E payload ⟨s, arena, []⟩ := rfl
  unfold answerInput
  rw [e, e']
  dsimp only
  rw [hret]
  split_ifs with h0
  · rw [hend h0]
  · rfl

/-- The session as it was, on the memory that a request has left. -/
def AudioState.forget (a : AudioState H) (payload : List UInt8) : AudioState H :=
  ⟨a.session, (audioInput E a payload).arena⟩

/-- The arena of a request keeps its place, its size and where requests start. -/
theorem AudioState.Ok.resembles_forget {a : AudioState H} (h : a.Ok) {payload : List UInt8}
    (hpay : payload.length < 2 ^ 31) : a.Resembles (a.forget E payload) where
  session := rfl
  addr := audioProcessTranscode_keeps_addr E payload ⟨a.session, a.arena, []⟩
  size := (h.transcode_shape E hpay).2.size
  curr := rfl

/-- **What a failed request leaves intact.**  In every state of every session: the resampler's
position and delay line unless the resampler has run, the hidden state unless the detector has
heard a whole frame; and with both, the next request with a buffer is answered as if the failed
one had never been sent, on the memory that it has left, and with one channel and requests that
write what they read on any memory. -/
theorem failed_input_keeps_stream (addr : ℕ) (ms : List Message) (hms : ShortPayloads ms)
    (payload : List UInt8) (hlen : payload.length ≤ sizeofAssembleBuf - sizeofHeader)
    {a : AudioState H} (ha : a = audioAfter E (AudioState.fresh addr) ms)
    (hret : (a.transcode E payload).1 = -1) :
    (ResamplesNothing E a.session a.arena.size a.arena.curr payload →
      (audioInput E a payload).session.resampler.posFp = a.session.resampler.posFp ∧
        (audioInput E a payload).session.resampler.delayBuf = a.session.resampler.delayBuf) ∧
    (HearsNothing E a.session a.arena.size a.arena.curr payload →
      (audioInput E a payload).session.vadState = a.session.vadState) ∧
    (ResamplesNothing E a.session a.arena.size a.arena.curr payload →
      HearsNothing E a.session a.arena.size a.arena.curr payload →
      ∀ (d : UInt64) (next : List UInt8), ntohl next 0 ≠ 0 →
        answerInput E d (audioInput E a payload) next =
            answerInput E d (a.forget E payload) next ∧
          (next.length ≤ sizeofAssembleBuf - sizeofHeader → StartedMono a.session →
            Written a.session a.arena.size a.arena.curr next →
            (answerInput E d (audioInput E a payload) next).untimed =
              (answerInput E d a next).untimed)) := by
  have hok := audioAfter_ok E (AudioState.fresh_ok addr) hms
  rw [← ha] at hok
  have hpay : payload.length < 2 ^ 31 := by
    simp only [sizeofAssembleBuf, sizeofHeader] at hlen
    omega
  have hs := hok.failed_streamed E hpay hret
  refine ⟨fun hR => ?_, fun hV => hs.vadState hV, fun hR hV d next hnum => ?_⟩
  · have hresampler : (audioInput E a payload).session.resampler = a.session.resampler :=
      hs.resampler hR
    rw [hresampler]
    exact ⟨rfl, rfl⟩
  · have hsame : answerInput E d (audioInput E a payload) next =
        answerInput E d (a.forget E payload) next := by
      have he : audioInput E a payload =
          ⟨{ a.session with lastVadProb := (a.transcode E payload).2.session.lastVadProb },
            (audioInput E a payload).arena⟩ := by
        conv_lhs => rw [audioInput, hs.eq_setProb hR hV]
        rfl
      rw [he, answerInput_setProb E d _ _ _ hnum]
      rfl
    refine ⟨hsame, fun hnext hmono hw => ?_⟩
    rw [hsame]
    exact (hok.resembles_forget E hpay).answer hok hmono hnext hw d

/-- PCMU at 16 kHz in and L16 at 48 kHz out, with the voice detector. -/
def tripleHistory : List Message :=
  [request cmdStart 1 (startPayload
    ⟨codecPcmu, 1, audioStartFlagsVadEnabled, 16000, endianLittle, codecL16, 1,
     endianLittle, 48000⟩)]

theorem tripleHistory_short : ShortPayloads tripleHistory := by
  intro m hm
  rw [List.mem_singleton.mp hm]
  exact (length_startPayload _).le.trans (by decide)

/-- Filters that hear the newest and the oldest sample of the delay line. -/
def Env.edges : Env Unit Unit :=
  { Env.plain with sincCoeffs := fun _ j => if j = 0 ∨ j = 127 then 16384 else 0 }

/-- PCMU from 8 to 48 kHz, and a first request of sixteen bytes. -/
def upwardHistory : List Message :=
  [request cmdStart 1 (startPayload ⟨codecPcmu, 1, 0, 8000, 0, codecPcmu, 1, 0, 48000⟩),
    request cmdInput 2 (inputPayload [List.replicate 16 0x2A])]

def upwardState : AudioState Unit := audioAfter Env.edges (AudioState.fresh 0) upwardHistory

theorem upwardState_mono : StartedMono upwardState.session :=
  ⟨by decide +kernel, by decide +kernel, by decide +kernel⟩

/-- The largest buffer is decoded, and the block for its samples at 48 kHz does not fit. -/
theorem upwardState_fails {payload : List UInt8} (hlens : bufferLengths payload = [32736])
    (hnum : ntohl payload 0 ≠ 0) (hpay : payload.length < 2 ^ 31) :
    (upwardState.transcode Env.edges payload).1 = -1 ∧
      ResamplesNothing Env.edges upwardState.session upwardState.arena.size upwardState.arena.curr
        payload := by
  have hok : upwardState.Ok := audioAfter_ok Env.edges (AudioState.fresh_ok 0) (by decide)
  have hfits : bumps upwardState.arena.size upwardState.arena.curr
      ([32736].map upwardState.session.blockSize) = some 65472 := by decide +kernel
  have hroom : upwardState.session.resampledCursor upwardState.arena.size 65472 32736 = none := by
    decide +kernel
  have hsamples : upwardState.session.decodedSamples 32736 = 32736 := by decide +kernel
  have hshape : transcodeShape Env.edges upwardState.session upwardState.arena.size
      upwardState.arena.curr payload = none := by
    rw [transcodeShape, if_neg hnum, hlens]
    dsimp only
    rw [if_neg (by decide +kernel), hfits, Option.bind_some, hsamples]
    decide +kernel
  refine ⟨?_, ?_⟩
  · rw [(hok.transcode_shape Env.edges hpay).1, hshape]
    rfl
  · -- nothing is encoded
    rintro n ⟨len, curr₁, curr₂, ⟨lens, hl, -, hb, -⟩, rfl, hres, -⟩
    rw [hlens] at hl
    obtain ⟨rfl, rfl⟩ := List.cons.inj hl
    obtain rfl := Option.some.inj (hfits.symm.trans hb)
    rw [hsamples, hroom] at hres
    cases hres

/-- A request in the middle of a stream that fails behind the decoding leaves the resampler and
the detector as they are, and the next request is answered as if it had never been sent. -/
theorem failed_input_keeps_stream_upward :
    (upwardState.transcode Env.edges (inputPayload [List.replicate 32736 0x55])).1 = -1 ∧
      upwardState.session.resampler.posFp ≠ 0 ∧
      (audioInput Env.edges upwardState
          (inputPayload [List.replicate 32736 0x55])).session.resampler.posFp =
        upwardState.session.resampler.posFp ∧
      (answerInput Env.edges 0 upwardState
          (inputPayload [List.replicate 16 0x55])).untimed.command = cmdOutput ∧
      (answerInput Env.edges 0
          (audioInput Env.edges upwardState (inputPayload [List.replicate 32736 0x55]))
          (inputPayload [List.replicate 16 0x55])).untimed =
        (answerInput Env.edges 0 upwardState (inputPayload [List.replicate 16 0x55])).untimed := by
  have hlen : (inputPayload [List.replicate 32736 0x55]).length = 32752 := by
    rw [length_inputPayload_singleton, List.length_replicate]
    rfl
  have hlens : bufferLengths (inputPayload [List.replicate 32736 0x55]) = [32736] := by
    rw [bufferLengths_inputPayload (by rw [hlen]; decide), List.map_cons, List.length_replicate]
    rfl
  have hnum : ntohl (inputPayload [List.replicate 32736 0x55]) 0 ≠ 0 := by
    rw [ntohl_inputPayload]
    decide
  generalize inputPayload [List.replicate 32736 0x55] = payload at hlen hlens hnum ⊢
  obtain ⟨hret, hnothing⟩ := upwardState_fails hlens hnum (by rw [hlen]; decide)
  obtain ⟨hpos, -, hnext⟩ := failed_input_keeps_stream Env.edges 0 upwardHistory (by decide)
    payload (by rw [hlen]; decide) rfl hret
  have hhears : HearsNothing Env.edges upwardState.session upwardState.arena.size
      upwardState.arena.curr payload :=
    ⟨fun n _ h => absurd h.1 (by decide +kernel), fun n _ h => absurd h.1 (by decide +kernel)⟩
  have hwritten : Written upwardState.session upwardState.arena.size upwardState.arena.curr
      (inputPayload [List.replicate 16 0x55]) := by
    refine ⟨fun _ _ _ _ => by decide +kernel, fun _ _ _ h => absurd ?_ h⟩
    exact .inl (by decide +kernel)
  exact ⟨hret, by decide +kernel, (hpos hnothing).1, by decide +kernel,
    (hnext hnothing hhears 0 _ (by decide +kernel)).2 (by decide +kernel) upwardState_mono hwritten⟩

/-- The largest buffer a message can have decodes to 65472 bytes, and the 196672 bytes for the
resampled samples do not fit behind them; 102 frames have been heard. -/
theorem failed_input_hears :
    (inputPayload [List.replicate 32736 0x55]).length = sizeofAssembleBuf - sizeofHeader ∧
      ((audioAfter Env.counting (AudioState.fresh 0) tripleHistory).transcode Env.counting
        (inputPayload [List.replicate 32736 0x55])).1 = -1 ∧
      (audioAfter Env.counting (AudioState.fresh 0) tripleHistory).session.vadState = some 0 ∧
      (audioInput Env.counting (audioAfter Env.counting (AudioState.fresh 0) tripleHistory)
        (inputPayload [List.replicate 32736 0x55])).session.vadState = some 102 := by
  have hlen : (inputPayload [List.replicate 32736 0x55]).length = 32752 := by
    rw [length_inputPayload_singleton, List.length_replicate]
    rfl
  have hlens : bufferLengths (inputPayload [List.replicate 32736 0x55]) = [32736] := by
    rw [bufferLengths_inputPayload (by rw [hlen]; decide), List.map_cons, List.length_replicate]
    rfl
  generalize inputPayload [List.replicate 32736 0x55] = payload at hlen hlens ⊢
  have hok := audioAfter_ok Env.counting (AudioState.fresh_ok 0) tripleHistory_short
  have hfits : bumps (audioAfter Env.counting (AudioState.fresh 0) tripleHistory).arena.size
      (audioAfter Env.counting (AudioState.fresh 0) tripleHistory).arena.curr
      ([32736].map (audioAfter Env.counting (AudioState.fresh 0) tripleHistory).session.blockSize) =
        some 65568 := by decide +kernel
  have hroom : (audioAfter Env.counting (AudioState.fresh 0) tripleHistory).session.resampledCursor
      (audioAfter Env.counting (AudioState.fresh 0) tripleHistory).arena.size 65568 32736 =
        none := by decide +kernel
  have hfail : FailsResampling (audioAfter Env.counting (AudioState.fresh 0) tripleHistory).session
      (audioAfter Env.counting (AudioState.fresh 0) tripleHistory).arena.size
      (audioAfter Env.counting (AudioState.fresh 0) tripleHistory).arena.curr payload 32736 :=
    ⟨32736, 65568, ⟨[], hlens, .inl rfl, hfits, by decide +kernel⟩, by decide +kernel, hroom⟩
  have hzero : (audioAfter Env.counting (AudioState.fresh 0) tripleHistory).session.vadState =
      some 0 := by decide +kernel
  obtain ⟨hret, hmixed, hstate⟩ := hok.failed_hears Env.counting (by rw [hlen]; decide) hfail
    hzero rfl (by decide +kernel)
  refine ⟨hlen.trans (by decide), hret, by decide +kernel, hstate.trans ?_⟩
  rw [gruAfter_counting, hmixed]
  rfl

end MachAudio
