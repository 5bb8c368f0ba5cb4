import MachAudio.Shape

/-! # The pipeline follows its shape

Every function of the pipeline, started where the assertion `At` holds, returns what the
shape says and leaves the cursor where the shape says, and everything it did has the
property `P`, provided that `P` grants the accesses and divisions of the shape. -/

namespace MachAudio

open ByteMem Exec

variable {H Φ : Type} (E : Env H Φ)

/-! ### The assertion -/

/-- Sessions that differ at most in the resampler, the hidden state of the voice detector and
the last probability. -/
structure SameConfig (s s' : TranscodeSession H) : Prop where
  inPayloadType : s'.inPayloadType = s.inPayloadType
  inChannels : s'.inChannels = s.inChannels
  inSampleRate : s'.inSampleRate = s.inSampleRate
  outPayloadType : s'.outPayloadType = s.outPayloadType
  outChannels : s'.outChannels = s.outChannels
  outSampleRate : s'.outSampleRate = s.outSampleRate
  needsResample : s'.needsResample = s.needsResample
  vadEnabled : s'.vadEnabled = s.vadEnabled
  vadState : s'.vadState.isSome = s.vadState.isSome

theorem SameConfig.refl (s : TranscodeSession H) : SameConfig s s :=
  ⟨rfl, rfl, rfl, rfl, rfl, rfl, rfl, rfl, rfl⟩

/-- The configuration, the size and the cursor of the arena, and a property of all events. -/
structure At (s : TranscodeSession H) (size c : ℕ) (P : Event → Prop) (w : Work H) : Prop where
  config : SameConfig s w.session
  size : w.arena.size = size
  curr : w.arena.curr = c
  trace : ∀ e ∈ w.trace, P e

/-- `P` holds of every access that `R` allows to a block between `lo` and `hi`, of every read
inside the payload and of every division that `D` allows. -/
structure Grants (lo hi : ℕ) (R : Block → ℕ → Prop) (D : ℕ → Prop) (P : Event → Prop) : Prop where
  within : ∀ b n, b.start + b.size ≤ hi → n ≤ b.size → R b n
  mono : ∀ b b' n, b'.start ≤ b.start → b.size ≤ b'.size → R b n → R b' n
  access : ∀ b n off len, lo ≤ b.start → b.start + b.size ≤ hi → R b n → off + len ≤ n →
    P (.access b off len)
  input : ∀ size off len, off + len ≤ size → P (.input size off len)
  divide : ∀ d, D d → P (.divide d)

variable {s : TranscodeSession H} {size c : ℕ} {P : Event → Prop}

/-- The assertion at the end of a step whose final cursor may be unknown. -/
def Ends (s : TranscodeSession H) (size : ℕ) (o : Option ℕ) (P : Event → Prop) (w : Work H) :
    Prop := At s size (o.getD w.arena.curr) P w

theorem At.ends_none {w : Work H} (h : At s size c P w) : Ends s size none P w :=
  ⟨h.config, h.size, rfl, h.trace⟩

theorem At.trace_append {w : Work H} (h : At s size c P w) {e : Event} (he : P e) :
    ∀ e' ∈ w.trace ++ [e], P e' := by
  intro e' hmem
  rcases List.mem_append.mp hmem with hmem | hmem
  · exact h.trace e' hmem
  · rw [List.mem_singleton.mp hmem]
    exact he

/-! ### The primitives -/

theorem note_returns {e : Event} (he : P e) :
    Returns (At s size c P) (note e) () (At s size c P) :=
  fun _ h => ⟨rfl, h.config, h.size, h.curr, h.trace_append he⟩

theorem divide_returns {a b : ℕ} (he : P (.divide b)) :
    Returns (At s size c P) (divide a b) (a / b) (At s size c P) :=
  fun _ h => ⟨rfl, h.config, h.size, h.curr, h.trace_append he⟩

theorem loadSamples_sat {b : Block} {i n : ℕ} (he : P (.access b (2 * i) (2 * n))) :
    Sat (At s size c P) (loadSamples b i n) (fun xs w => xs.length = n ∧ At s size c P w) := by
  refine fun w h => ⟨?_, h.config, h.size, h.curr, h.trace_append he⟩
  show (ofBytes (w.arena.buf.load (b.start + 2 * i) (2 * n))).length = n
  rw [length_ofBytes, length_load]
  omega

theorem loadBytes_sat {b : Block} {i n : ℕ} (he : P (.access b i n)) :
    Sat (At s size c P) (loadBytes b i n) (fun bs w => bs.length = n ∧ At s size c P w) :=
  fun _ h => ⟨length_load _ _ _, h.config, h.size, h.curr, h.trace_append he⟩

theorem storeBytes_returns {b : Block} {i : ℕ} {bs : List UInt8}
    (he : P (.access b i bs.length)) :
    Returns (At s size c P) (storeBytes b i bs) () (At s size c P) :=
  fun _ h => ⟨rfl, h.config, h.size, h.curr, h.trace_append he⟩

theorem storeSamples_returns {b : Block} {i n : ℕ} {xs : List Int16} (hn : xs.length = n)
    (he : P (.access b (2 * i) (2 * n))) :
    Returns (At s size c P) (storeSamples b i xs) () (At s size c P) :=
  storeBytes_returns (by rwa [length_toBytes, hn])

theorem getCurr_returns : Returns (At s size c P) getCurr c (At s size c P) :=
  fun _ h => ⟨h.curr, h⟩

theorem setCurr_returns (n : ℕ) : Returns (At s size c P) (setCurr n) () (At s size n P) :=
  fun _ h => ⟨rfl, h.config, h.size, rfl, h.trace⟩

/-- Reading the session: only its configuration is known. -/
theorem getSession_sat :
    Sat (At s size c P) getSession (fun s' w => SameConfig s s' ∧ At s size c P w) :=
  fun _ h => ⟨h.config, h⟩

theorem setSession_returns {s' : TranscodeSession H} (hs : SameConfig s s') :
    Returns (At s size c P) (setSession s') () (At s size c P) :=
  fun _ h => ⟨rfl, hs, h.size, h.curr, h.trace⟩

theorem alloc_none {n : ℕ} (hpos : 0 < size) (hsize : size < 2 ^ 62) (hc : c ≤ size)
    (hn : n < 2 ^ 62) (h : bump size c n = none) :
    Returns (At s size c P) (alloc n) none (At s size c P) := by
  intro w hw
  have hfit : ¬(w.arena.curr + 7) / 8 * 8 + n ≤ w.arena.size := by
    rw [hw.curr, hw.size]
    intro hfit
    rw [bump, if_pos hfit] at h
    cases h
  rw [alloc_apply, arenaAlloc_eq (by rw [hw.size]; exact hpos) (by rw [hw.size]; exact hsize)
    (by rw [hw.size, hw.curr]; exact hc) hn, if_neg hfit]
  exact ⟨rfl, hw⟩

theorem alloc_some {n c' : ℕ} (hpos : 0 < size) (hsize : size < 2 ^ 62) (hc : c ≤ size)
    (hn : n < 2 ^ 62) (h : bump size c n = some c') :
    Returns (At s size c P) (alloc n) (some ⟨(c + 7) / 8 * 8, n⟩) (At s size c' P) := by
  intro w hw
  have hfit : (c + 7) / 8 * 8 + n ≤ size ∧ c' = (c + 7) / 8 * 8 + n := by
    rw [bump] at h
    split_ifs at h with hfit
    exact ⟨hfit, (Option.some.inj h).symm⟩
  rw [alloc_apply, arenaAlloc_eq (by rw [hw.size]; exact hpos) (by rw [hw.size]; exact hsize)
    (by rw [hw.size, hw.curr]; exact hc) hn, hw.curr, hw.size, if_pos hfit.1]
  exact ⟨rfl, hw.config, rfl, hfit.2.symm, hw.trace⟩

/-- Where a block that fits lies. -/
theorem bump_eq_some {n c' : ℕ} (h : bump size c n = some c') :
    c ≤ (c + 7) / 8 * 8 ∧ (c + 7) / 8 * 8 + n = c' ∧ c' ≤ size := by
  rw [bump] at h
  split_ifs at h with hfit
  have := Option.some.inj h
  omega

theorem bumps_le : ∀ {ns : List ℕ} {c c' : ℕ}, bumps size c ns = some c' → c ≤ size →
    c ≤ c' ∧ c' ≤ size
  | [], c, c', h, hc => by
      have := Option.some.inj h
      omega
  | n :: ns, c, c', h, hc => by
      rw [bumps, Option.bind_eq_some_iff] at h
      obtain ⟨c₁, h₁, h₂⟩ := h
      have hb := bump_eq_some h₁
      have ih := bumps_le h₂ hb.2.2
      omega

/-- Where the first of several blocks that fit lies. -/
theorem bumps_cons {n : ℕ} {ns : List ℕ} {c c' : ℕ} (h : bumps size c (n :: ns) = some c') :
    c ≤ (c + 7) / 8 * 8 ∧ (c + 7) / 8 * 8 + n ≤ c' ∧ c' ≤ size := by
  rw [bumps, Option.bind_eq_some_iff] at h
  obtain ⟨c₁, h₁, h₂⟩ := h
  have hb := bump_eq_some h₁
  have hle := bumps_le h₂ hb.2.2
  omega

/-- One block more. -/
theorem bumps_concat (n : ℕ) : ∀ {ns : List ℕ} {c c' : ℕ}, bumps size c ns = some c' →
    bumps size c (ns ++ [n]) = bump size c' n
  | [], c, c', h => by
      obtain rfl := Option.some.inj h
      rw [List.nil_append, bumps]
      exact Option.bind_fun_some _
  | m :: ns, c, c', h => by
      rw [bumps, Option.bind_eq_some_iff] at h
      obtain ⟨c₁, h₁, h₂⟩ := h
      rw [List.cons_append, bumps, h₁, Option.bind_some]
      exact bumps_concat n h₂

/-! ### Mixing -/

section mix
variable {inA inB : Block} {total : ℕ}

theorem mixBlocks_returns
    (hA : ∀ off len, off + len ≤ total → P (.access inA off len))
    (hB : ∀ off len, off + len ≤ total → P (.access inB off len)) :
    ∀ n i, 2 * (i + 16 * n) ≤ total →
      Returns (At s size c P) (mixBlocks inA inB inA n i) () (At s size c P)
  | 0, _, _ => Returns.pure fun _ h => h
  | n + 1, i, hle =>
      Returns.bindSat (loadSamples_sat (hA _ _ (by omega))) fun a =>
        Returns.assume fun ha =>
          Returns.bindSat (loadSamples_sat (hB _ _ (by omega))) fun b =>
            Returns.assume fun hb =>
              Returns.bind
                (storeSamples_returns (n := 16) (by rw [Simd.length_addsEpi16, ha, hb]; rfl)
                  (hA _ _ (by omega)))
                (mixBlocks_returns hA hB n (i + 16) (by omega))

theorem mixTail_returns
    (hA : ∀ off len, off + len ≤ total → P (.access inA off len))
    (hB : ∀ off len, off + len ≤ total → P (.access inB off len)) :
    ∀ n i, 2 * (i + n) ≤ total →
      Returns (At s size c P) (mixTail inA inB inA n i) () (At s size c P)
  | 0, _, _ => Returns.pure fun _ h => h
  | n + 1, i, hle =>
      Returns.bindSat (loadSamples_sat (hA _ _ (by omega))) fun a =>
        Returns.assume fun ha =>
          Returns.bindSat (loadSamples_sat (hB _ _ (by omega))) fun b =>
            Returns.assume fun hb =>
              Returns.bind
                (storeSamples_returns (n := 1) (by rw [List.length_zipWith, ha, hb]; rfl)
                  (hA _ _ (by omega)))
                (mixTail_returns hA hB n (i + 1) (by omega))

theorem mixL16Avx2_returns {samples : ℕ}
    (hA : ∀ off len, off + len ≤ 2 * samples → P (.access inA off len))
    (hB : ∀ off len, off + len ≤ 2 * samples → P (.access inB off len)) :
    Returns (At s size c P) (mixL16Avx2 inA inB inA samples) () (At s size c P) :=
  Returns.bind (mixBlocks_returns hA hB _ 0 (by omega))
    (mixTail_returns hA hB _ _ (by omega))

end mix

/-! ### Decoding -/

section decode
variable {lo : ℕ} {R : Block → ℕ → Prop} {D : ℕ → Prop} (hG : Grants lo size R D P)
  {payload : List UInt8} {dataOff len : ℕ}

include hG

/-- A whole block may be touched. -/
theorem Grants.block (b : Block) {off n : ℕ} (h₁ : lo ≤ b.start) (h₂ : b.start + b.size ≤ size)
    (h : off + n ≤ b.size) : P (.access b off n) :=
  hG.access b b.size off n h₁ h₂ (hG.within _ _ h₂ (Nat.le_refl _)) h

theorem storeDecoded_returns {b : Block} (h₁ : lo ≤ b.start) (h₂ : b.start + b.size ≤ size)
    (hb : b.size = len * 2) (hin : dataOff + len ≤ payload.length) {pcm : Option (List Int16)}
    (hpcm : ∀ xs, pcm = some xs → xs.length = len) :
    Returns (At s size c P) (storeDecoded b payload.length dataOff len pcm) () (At s size c P) := by
  cases pcm with
  | none => exact Returns.pure fun _ h => h
  | some xs =>
      exact Returns.bind (note_returns (hG.input _ _ _ hin))
        (storeSamples_returns (hpcm xs rfl) (hG.block b h₁ h₂ (by omega)))

theorem swapEndianL16_returns {b : Block} {samples : ℕ} (h₁ : lo ≤ b.start)
    (h₂ : b.start + b.size ≤ size) (h : R b (2 * samples)) :
    Returns (At s size c P) (swapEndianL16 b samples) () (At s size c P) := by
  have he : P (.access b (2 * 0) (2 * samples)) := hG.access b _ _ _ h₁ h₂ h (by omega)
  exact Returns.bindSat (loadSamples_sat he) fun xs => Returns.assume fun hx =>
    storeSamples_returns (by rw [List.length_map, hx]) he

variable (hpos : 0 < size) (hsize : size < 2 ^ 31) (hc : c ≤ size) (hlo : lo ≤ c)

include hpos hsize hc hlo

theorem decodeG711_returns {decode : List UInt8 → Option (List Int16)}
    (hdecode : ∀ bs xs, decode bs = some xs → xs.length = bs.length) {c' : ℕ}
    (hb : bump size c (len * 2) = some c') (hin : dataOff + len ≤ payload.length) :
    Returns (At s size c P) (decodeG711 decode payload dataOff len)
      (some (⟨(c + 7) / 8 * 8, len * 2⟩, len)) (At s size c' P) := by
  obtain ⟨h₁, h₂, h₃⟩ := bump_eq_some hb
  apply Returns.bind (alloc_some hpos (by omega) hc (by omega) hb)
  refine Returns.bind (storeDecoded_returns hG (by simp only; omega) (by simp only; omega) rfl hin
    fun xs hx => ?_) (Returns.pure fun _ h => h)
  rw [hdecode _ _ hx, List.length_take, List.length_drop]
  omega

theorem decodeL16_returns {c' : ℕ} (hb : bump size c len = some c')
    (hin : dataOff + len ≤ payload.length) (hD : D (2 * s.inChannels.toNat)) :
    Returns (At s size c P) (decodeL16 payload dataOff len)
      (some (⟨(c + 7) / 8 * 8, len⟩, len / (2 * s.inChannels.toNat))) (At s size c' P) := by
  obtain ⟨h₁, h₂, h₃⟩ := bump_eq_some hb
  refine Returns.bindSat getSession_sat fun s' => Returns.assume fun hs' => ?_
  rw [hs'.inChannels]
  apply Returns.bind (divide_returns (hG.divide _ hD))
  apply Returns.bind (alloc_some hpos (by omega) hc (by omega) hb)
  apply Returns.bind (note_returns (hG.input _ _ _ hin))
  have hlen : ((payload.drop dataOff).take len).length = len := by
    rw [List.length_take, List.length_drop]
    omega
  refine Returns.bind (storeBytes_returns ?_) ?_
  · rw [hlen]
    exact hG.block _ (by simp only; omega) (by simp only; omega) (by simp only; omega)
  · have hswap : R ⟨(c + 7) / 8 * 8, len⟩
        (2 * (len / (2 * s.inChannels.toNat) * s.inChannels.toNat)) := by
      apply hG.within _ _ (by simp only; omega)
      have hdiv := Nat.div_mul_le_self len (2 * s.inChannels.toNat)
      calc 2 * (len / (2 * s.inChannels.toNat) * s.inChannels.toNat)
          = len / (2 * s.inChannels.toNat) * (2 * s.inChannels.toNat) := by ring
        _ ≤ len := hdiv
    dsimp only
    split_ifs
    · exact Returns.bind
        (swapEndianL16_returns hG (by simp only; omega) (by simp only; omega) hswap)
        (Returns.pure fun _ h => h)
    · exact Returns.pure fun _ h => h

omit hG hlo in
theorem decodeG711_none {decode : List UInt8 → Option (List Int16)} (hlen : len < 2 ^ 32)
    (hb : bump size c (len * 2) = none) :
    Returns (At s size c P) (decodeG711 decode payload dataOff len) none (At s size c P) :=
  Returns.bind (alloc_none hpos (by omega) hc (by omega) hb) (Returns.pure fun _ h => h)

omit hlo in
theorem decodeL16_none (hlen : len < 2 ^ 32) (hb : bump size c len = none)
    (hD : D (2 * s.inChannels.toNat)) :
    Returns (At s size c P) (decodeL16 payload dataOff len) none (At s size c P) := by
  refine Returns.bindSat getSession_sat fun s' => Returns.assume fun hs' => ?_
  rw [hs'.inChannels]
  exact Returns.bind (divide_returns (hG.divide _ hD))
    (Returns.bind (alloc_none hpos (by omega) hc (by omega) hb) (Returns.pure fun _ h => h))

/-- A buffer that is decoded. -/
theorem decodeBuffer_returns {c' : ℕ} (hk : IsKnownCodec s.inPayloadType)
    (hb : bump size c (s.blockSize len) = some c') (hin : dataOff + len ≤ payload.length)
    (hD : s.inPayloadType = codecL16 → D (2 * s.inChannels.toNat)) :
    Returns (At s size c P) (decodeBuffer payload dataOff len)
      (some (⟨(c + 7) / 8 * 8, s.blockSize len⟩, s.decodedSamples len)) (At s size c' P) := by
  refine Returns.bindSat getSession_sat fun s' => Returns.assume fun hs' => ?_
  rw [hs'.inPayloadType]
  rcases hk with hk | hk | hk
  · simp only [TranscodeSession.blockSize, TranscodeSession.decodedSamples, hk,
      if_neg pcmu_ne_l16] at hb ⊢
    rw [if_pos trivial]
    exact decodeG711_returns hG hpos hsize hc hlo
      (fun bs xs h => length_of_transcodeG711ToL16 h) hb hin
  · simp only [TranscodeSession.blockSize, TranscodeSession.decodedSamples, hk,
      if_neg pcma_ne_l16] at hb ⊢
    rw [if_neg pcma_ne_pcmu, if_pos trivial]
    exact decodeG711_returns hG hpos hsize hc hlo
      (fun bs xs h => length_of_transcodeG711ToL16 h) hb hin
  · simp only [TranscodeSession.blockSize, TranscodeSession.decodedSamples, hk, if_pos] at hb ⊢
    rw [if_neg pcmu_ne_l16.symm, if_neg pcma_ne_l16.symm]
    exact decodeL16_returns hG hpos hsize hc hlo hb hin (hD hk)

omit hlo in
/-- A buffer that is refused: an unknown codec, or no room. -/
theorem decodeBuffer_none (hlen : len < 2 ^ 32)
    (hb : IsKnownCodec s.inPayloadType → bump size c (s.blockSize len) = none)
    (hD : s.inPayloadType = codecL16 → D (2 * s.inChannels.toNat)) :
    Returns (At s size c P) (decodeBuffer payload dataOff len) none (At s size c P) := by
  refine Returns.bindSat getSession_sat fun s' => Returns.assume fun hs' => ?_
  rw [hs'.inPayloadType]
  split_ifs with h₁ h₂ h₃
  · have h := hb (.inl h₁)
    rw [TranscodeSession.blockSize, h₁, if_neg pcmu_ne_l16] at h
    exact decodeG711_none hpos hsize hc hlen h
  · have h := hb (.inr (.inl h₂))
    rw [TranscodeSession.blockSize, h₂, if_neg pcma_ne_l16] at h
    exact decodeG711_none hpos hsize hc hlen h
  · have h := hb (.inr (.inr h₃))
    rw [TranscodeSession.blockSize, if_pos h₃] at h
    exact decodeL16_none hG hpos hsize hc hlen h (hD h₃)
  · exact Returns.pure fun _ h => h

end decode

/-! ### The loop over the buffers -/

section inputs
variable {lo : ℕ} {R : Block → ℕ → Prop} {D : ℕ → Prop} (hG : Grants lo size R D P)
  {payload : List UInt8}

include hG

theorem mixInto_returns {b₀ b : Block} {len₀ len : ℕ}
    (h₀ : lo ≤ b₀.start ∧ b₀.start + b₀.size ≤ size)
    (hb : lo ≤ b.start ∧ b.start + b.size ≤ size)
    (hR : R b₀ (s.mixedBytes len₀ len) ∧ R b (s.mixedBytes len₀ len)) :
    Returns (At s size c P)
      (mixInto (some (b₀, s.decodedSamples len₀)) (b, s.decodedSamples len))
      (b₀, s.decodedSamples len₀) (At s size c P) := by
  refine Returns.bindSat getSession_sat fun s' => Returns.assume fun hs' => ?_
  have hmin : (if s.decodedSamples len < s.decodedSamples len₀ then s.decodedSamples len
      else s.decodedSamples len₀) = min (s.decodedSamples len) (s.decodedSamples len₀) := by
    split_ifs <;> omega
  simp only [hmin, hs'.inChannels]
  exact Returns.bind (mixL16Avx2_returns
    (fun off n h => hG.access b₀ _ off n h₀.1 h₀.2 hR.1 h)
    (fun off n h => hG.access b _ off n hb.1 hb.2 hR.2 h)) (Returns.pure fun _ h => h)

omit hG in
theorem mixInto_first {decoded : Block × ℕ} :
    Returns (At s size c P) (mixInto none decoded) decoded (At s size c P) :=
  Returns.bindSat getSession_sat fun _ => Returns.assume fun _ => Returns.pure fun _ h => h

variable (hpos : 0 < size) (hsize : size < 2 ^ 31) (hpay : payload.length < 2 ^ 31)

include hpos hsize hpay

omit hG hpos in
/-- A buffer whose block fits lies in the payload. -/
theorem parsed_inside {offset offset' dataOff : UInt32} {bh : AudioBufferHeader} {c' : ℕ}
    (h : protocolParseNextBuffer payload (UInt32.ofNat payload.length) offset =
      (some (bh, dataOff), offset'))
    (hb : bump size c (s.blockSize bh.length.toNat) = some c') :
    dataOff.toNat + bh.length.toNat ≤ payload.length := by
  obtain ⟨h₁, h₂⟩ := protocolParseNextBuffer_some h
  have hlen : (UInt32.ofNat payload.length).toNat = payload.length := by
    rw [UInt32.toNat_ofNat']
    exact Nat.mod_eq_of_lt (by omega)
  obtain ⟨h₃, h₄, h₅⟩ := bump_eq_some hb
  have hle : bh.length.toNat ≤ s.blockSize bh.length.toNat := by
    rw [TranscodeSession.blockSize]
    split_ifs <;> omega
  rw [hlen] at h₁ h₂
  omega

/-- The turns of the loop behind the first buffer. -/
theorem mixInputs_rest {b₀ : Block} {len₀ : ℕ} (h₀ : lo ≤ b₀.start ∧ b₀.start + b₀.size ≤ size)
    (hk : IsKnownCodec s.inPayloadType)
    (hD : s.inPayloadType = codecL16 → D (2 * s.inChannels.toNat)) :
    ∀ (n : ℕ) (offset : UInt32) (c : ℕ), lo ≤ c → c ≤ size →
      (∀ pre len post c', parsedLengths payload n offset = pre ++ len :: post →
        bumps size c (pre.map s.blockSize) = some c' → bump size c' (s.blockSize len) ≠ none →
        R b₀ (s.mixedBytes len₀ len) ∧
          R ⟨(c' + 7) / 8 * 8, s.blockSize len⟩ (s.mixedBytes len₀ len)) →
      Returns (At s size c P)
        (mixInputs payload n offset (some (b₀, s.decodedSamples len₀)))
        ((bumps size c ((parsedLengths payload n offset).map s.blockSize)).map fun _ =>
          some (b₀, s.decodedSamples len₀))
        (Ends s size (bumps size c ((parsedLengths payload n offset).map s.blockSize)) P)
  | 0, _, _, _, _, _ => Returns.pure fun _ h => h
  | n + 1, offset, c, hlo, hc, hmix => by
      rw [mixInputs, parsedLengths]
      rcases hp : protocolParseNextBuffer payload (UInt32.ofNat payload.length) offset with
        ⟨_ | ⟨bh, dataOff⟩, offset'⟩
      · exact Returns.pure fun _ h => h
      · simp only [List.map_cons, bumps]
        have hlens : parsedLengths payload (n + 1) offset =
            bh.length.toNat :: parsedLengths payload n offset' := by rw [parsedLengths, hp]
        cases hb : bump size c (s.blockSize bh.length.toNat) with
        | none =>
            refine Returns.bind (decodeBuffer_none hG hpos hsize hc bh.length.toNat_lt
              (fun _ => hb) hD) (Returns.pure fun _ h => h.ends_none)
        | some c₁ =>
            obtain ⟨h₁, h₂, h₃⟩ := bump_eq_some hb
            refine Returns.bind (decodeBuffer_returns hG hpos hsize hc hlo hk hb
              (parsed_inside hsize hpay hp hb) hD) ?_
            refine Returns.bind (mixInto_returns hG h₀ (by constructor <;> simp only <;> omega)
              (hmix [] _ _ c hlens rfl ?_)) ?_
            · rw [hb]
              exact Option.some_ne_none c₁
            · apply mixInputs_rest h₀ hk hD n offset' c₁ (by omega) h₃
              intro pre len post c' e hpre hne
              refine hmix (bh.length.toNat :: pre) len post c' (by rw [hlens, e]; rfl) ?_ hne
              rw [List.map_cons, bumps, hb]
              exact hpre

omit hG hpos hsize hpay in
/-- No buffer is found. -/
theorem mixInputs_nil {n : ℕ} {offset : UInt32} (h : parsedLengths payload n offset = []) :
    Returns (At s size c P) (mixInputs payload n offset none) (some none) (At s size c P) := by
  cases n with
  | zero => exact Returns.pure fun _ h => h
  | succ n =>
      rw [mixInputs]
      rw [parsedLengths] at h
      rcases hp : protocolParseNextBuffer payload (UInt32.ofNat payload.length) offset with
        ⟨_ | ⟨bh, dataOff⟩, offset'⟩
      · exact Returns.pure fun _ h => h
      · rw [hp] at h
        cases h

/-- The whole loop, when a buffer is found: the first one is kept, the others are mixed into
it. -/
theorem mixInputs_cons {len : ℕ} {lens : List ℕ} (hlo : lo ≤ c) (hc : c ≤ size)
    (hD : s.inPayloadType = codecL16 → D (2 * s.inChannels.toNat)) {n : ℕ} {offset : UInt32}
    (h : parsedLengths payload n offset = len :: lens)
    (hmix : ∀ pre len' post c', lens = pre ++ len' :: post → IsKnownCodec s.inPayloadType →
      bumps size c ((len :: pre).map s.blockSize) = some c' →
      bump size c' (s.blockSize len') ≠ none →
      R ⟨(c + 7) / 8 * 8, s.blockSize len⟩ (s.mixedBytes len len') ∧
        R ⟨(c' + 7) / 8 * 8, s.blockSize len'⟩ (s.mixedBytes len len')) :
    Returns (At s size c P) (mixInputs payload n offset none)
      (if IsKnownCodec s.inPayloadType then
        (bumps size c ((len :: lens).map s.blockSize)).map fun _ =>
          some (⟨(c + 7) / 8 * 8, s.blockSize len⟩, s.decodedSamples len)
      else none)
      (Ends s size
        (if IsKnownCodec s.inPayloadType then bumps size c ((len :: lens).map s.blockSize)
        else none) P) := by
  cases n with
  | zero => cases h
  | succ n =>
      rw [mixInputs]
      rw [parsedLengths] at h
      rcases hp : protocolParseNextBuffer payload (UInt32.ofNat payload.length) offset with
        ⟨_ | ⟨bh, dataOff⟩, offset'⟩
      · rw [hp] at h
        cases h
      · rw [hp] at h
        obtain ⟨rfl, rfl⟩ := List.cons.inj h
        by_cases hk : IsKnownCodec s.inPayloadType
        · simp only [if_pos hk, List.map_cons, bumps]
          cases hb : bump size c (s.blockSize bh.length.toNat) with
          | none =>
              exact Returns.bind (decodeBuffer_none hG hpos hsize hc bh.length.toNat_lt
                (fun _ => hb) hD) (Returns.pure fun _ h => h.ends_none)
          | some c₁ =>
              obtain ⟨h₁, h₂, h₃⟩ := bump_eq_some hb
              refine Returns.bind (decodeBuffer_returns hG hpos hsize hc hlo hk hb
                (parsed_inside hsize hpay hp hb) hD) (Returns.bind mixInto_first ?_)
              refine mixInputs_rest hG hpos hsize hpay (by constructor <;> simp only <;> omega)
                hk hD n offset' c₁ (by omega) h₃ fun pre len' post c' e hpre hne => ?_
              refine hmix pre len' post c' e hk ?_ hne
              rw [List.map_cons, bumps, hb]
              exact hpre
        · simp only [if_neg hk]
          exact Returns.bind (decodeBuffer_none hG hpos hsize hc bh.length.toNat_lt
            (fun h => absurd h hk) hD) (Returns.pure fun _ h => h.ends_none)

end inputs

/-! ### The voice detector and the resampler -/

/-- The assertion with a property of the last probability. -/
def AtVad (s : TranscodeSession H) (size c : ℕ) (P : Event → Prop) (Q : UInt32 → Prop)
    (w : Work H) : Prop := Q w.session.lastVadProb ∧ At s size c P w

section process
variable {E}
variable {b : Block} {n : ℕ}

theorem runVad_returns {channels : ℕ}
    (hP : s.vadState.isSome → P (.access b (2 * 0) (2 * vadExtent n channels))) :
    Returns (At s size c P) (runVad E b n channels) ()
      (AtVad s size c P fun p =>
        s.vadState.isSome = true → 1 ≤ n → 1 ≤ channels → p ≠ minusOneFloat) := by
  refine Returns.bindSat getSession_sat fun s' => Returns.assume fun hs' => ?_
  cases hv : s'.vadState with
  | none =>
      refine Returns.pure fun w h => ⟨fun hsome => ?_, h⟩
      rw [← hs'.vadState, hv] at hsome
      cases hsome
  | some state =>
      have hsome : s.vadState.isSome = true := by rw [← hs'.vadState, hv]; rfl
      refine Returns.bindSat (loadSamples_sat (hP hsome)) fun pcm => Returns.assume fun _ => ?_
      refine fun w h => ⟨rfl, fun _ hn hch => vadGruProcessPcm_ne_minusOne E hn hch, ?_⟩
      refine ⟨⟨hs'.1, hs'.2, hs'.3, hs'.4, hs'.5, hs'.6, hs'.7, hs'.8, ?_⟩, h.size, h.curr, h.trace⟩
      rw [hsome]
      rfl

theorem inputVad_returns (hn : 0 < n)
    (hP : s.vadRuns s.inSampleRate → P (.access b (2 * 0) (2 * vadExtent n s.inChannels.toNat))) :
    Returns (At s size c P) (inputVad E b n) ()
      (AtVad s size c P fun p =>
        s.vadRuns s.inSampleRate = true ∧ 1 ≤ s.inChannels.toNat → p ≠ minusOneFloat) := by
  refine Returns.bindSat getSession_sat fun s' => Returns.assume fun hs' => ?_
  refine Returns.bind (setSession_returns
    ⟨hs'.1, hs'.2, hs'.3, hs'.4, hs'.5, hs'.6, hs'.7, hs'.8, hs'.9⟩) ?_
  have hruns : (s'.vadEnabled && s'.vadState.isSome && s'.inSampleRate == vadSampleRate) =
      s.vadRuns s.inSampleRate := by
    rw [TranscodeSession.vadRuns, hs'.vadEnabled, hs'.vadState, hs'.inSampleRate]
  rw [hruns, hs'.inChannels]
  by_cases hr : s.vadRuns s.inSampleRate = true
  · rw [if_pos hr]
    have hsome : s.vadState.isSome = true := by
      simp only [TranscodeSession.vadRuns, Bool.and_eq_true] at hr
      exact hr.1.2
    refine (runVad_returns fun _ => hP hr).post fun w h => ⟨fun hch => h.1 hsome hn hch.2, h.2⟩
  · rw [if_neg hr]
    exact Returns.pure fun w h => ⟨fun hch => absurd hch.1 hr, h⟩

theorem outputVad_returns
    (hP : ¬(s.vadRuns s.inSampleRate = true ∧ 1 ≤ s.inChannels.toNat) →
      s.vadRuns s.outSampleRate → P (.access b (2 * 0) (2 * vadExtent n s.outChannels.toNat))) :
    Returns
      (AtVad s size c P fun p =>
        s.vadRuns s.inSampleRate = true ∧ 1 ≤ s.inChannels.toNat → p ≠ minusOneFloat)
      (outputVad E b n) () (At s size c P) := by
  refine Returns.bindSat
    (Q := fun s' w => (s.vadRuns s.inSampleRate = true ∧ 1 ≤ s.inChannels.toNat →
      s'.lastVadProb ≠ minusOneFloat) ∧ SameConfig s s' ∧ At s size c P w)
    (fun w h => ⟨h.1, h.2.config, h.2⟩) fun s' => Returns.assume fun hp =>
      Returns.assume fun hs' => ?_
  split_ifs with hcond
  · simp only [Bool.and_eq_true, beq_iff_eq] at hcond
    obtain ⟨⟨⟨hen, hst⟩, hprob⟩, hrate⟩ := hcond
    have hno : ¬(s.vadRuns s.inSampleRate = true ∧ 1 ≤ s.inChannels.toNat) :=
      fun h => hp h hprob
    have hout : s.vadRuns s.outSampleRate = true := by
      rw [TranscodeSession.vadRuns, ← hs'.vadEnabled, ← hs'.vadState, ← hs'.outSampleRate, hen,
        hst, hrate]
      rfl
    rw [hs'.outChannels]
    exact (runVad_returns fun _ => hP hno hout).post fun w h => h.2
  · exact Returns.pure fun _ h => h

section resample
variable {Q : UInt32 → Prop}

theorem resampleStep_id (h : s.needsResample = false) :
    Returns (AtVad s size c P Q) (resampleStep E b n) (some (b, n)) (AtVad s size c P Q) := by
  refine Returns.bindSat
    (Q := fun s' w => SameConfig s s' ∧ AtVad s size c P Q w) (fun w h => ⟨h.2.config, h⟩)
    fun s' => Returns.assume fun hs' => ?_
  rw [hs'.needsResample, h]
  exact Returns.pure fun _ h => h

theorem outCap_le (hn : n ≤ 2 ^ 20) : s.outCap n ≤ 2 ^ 52 + 128 := by
  have h : n * s.outSampleRate.toNat ≤ 2 ^ 20 * 2 ^ 32 :=
    Nat.mul_le_mul hn (Nat.le_of_lt s.outSampleRate.toNat_lt)
  exact Nat.add_le_add_right ((Nat.div_le_self _ _).trans h) 128

/-- Up to the allocation of the resampled block. -/
theorem resampledSize_lt (hn : n ≤ 2 ^ 20) : s.resampledSize n < 2 ^ 62 := by
  have h₂ : s.outCap n ≤ 2 ^ 52 + 128 := outCap_le hn
  have h₃ : s.outChannels.toNat ≤ 256 := Nat.le_of_lt s.outChannels.toNat_lt
  calc s.resampledSize n ≤ (2 ^ 52 + 128) * 256 * 2 :=
        Nat.mul_le_mul_right 2 (Nat.mul_le_mul h₂ h₃)
    _ < 2 ^ 62 := by norm_num

theorem resampledCount_le : s.resampledCount E n ≤ s.outCap n := by
  rw [TranscodeSession.resampledCount]
  split_ifs <;> omega

theorem resampledCount_lt (hn : n ≤ 2 ^ 20) : s.resampledCount E n < 2 ^ 62 := by
  have h₁ : s.outCap n ≤ 2 ^ 52 + 128 := outCap_le hn
  have h₂ : s.resampledCount E n ≤ s.outCap n := resampledCount_le
  omega

variable {lo : ℕ} {R : Block → ℕ → Prop} {D : ℕ → Prop} (hG : Grants lo size R D P)
  (hpos : 0 < size) (hsize : size < 2 ^ 31) (hc : c ≤ size) (hlo : lo ≤ c)

include hG hpos hsize hc

theorem resampleStep_none (h : s.needsResample = true) (hn : n ≤ 2 ^ 20)
    (hD : D s.inSampleRate.toNat) (hb : bump size c (s.resampledSize n) = none) :
    Returns (AtVad s size c P Q) (resampleStep E b n) none (At s size c P) := by
  refine Returns.pre ?_ fun w (h : AtVad s size c P Q w) => h.2
  refine Returns.bindSat getSession_sat fun s' => Returns.assume fun hs' => ?_
  rw [hs'.needsResample, h, if_pos rfl, hs'.inSampleRate, hs'.outSampleRate, hs'.outChannels]
  apply Returns.bind (divide_returns (hG.divide _ hD))
  exact Returns.bind (alloc_none hpos (by omega) hc (resampledSize_lt hn) hb)
    (Returns.pure fun _ h => h)

include hlo

theorem resampleStep_some (h : s.needsResample = true) (hn : n ≤ 2 ^ 20)
    (hb₀ : lo ≤ b.start ∧ b.start + b.size ≤ size) (hbn : 2 * n ≤ b.size)
    (hD : D s.inSampleRate.toNat) {c' : ℕ} (hb : bump size c (s.resampledSize n) = some c')
    (hR : R ⟨(c + 7) / 8 * 8, s.resampledSize n⟩ (2 * s.resampledCount E n)) :
    Returns (AtVad s size c P Q) (resampleStep E b n)
      (some (⟨(c + 7) / 8 * 8, s.resampledSize n⟩, s.resampledCount E n))
      (AtVad s size c' P Q) := by
  obtain ⟨h₁, h₂, h₃⟩ := bump_eq_some hb
  -- the last probability is that of the session read at the start, which is written back
  refine Returns.bindSat
    (Q := fun s' w => Q s'.lastVadProb ∧ SameConfig s s' ∧ At s size c P w)
    (fun w h => ⟨h.1, h.2.config, h.2⟩) fun s' => Returns.assume fun hq =>
      Returns.assume fun hs' => ?_
  rw [hs'.needsResample, h, if_pos rfl, hs'.inSampleRate, hs'.outSampleRate, hs'.outChannels]
  apply Returns.bind (divide_returns (hG.divide _ hD))
  apply Returns.bind (alloc_some hpos (by omega) hc (resampledSize_lt hn) hb)
  refine Returns.bindSat (loadSamples_sat (hG.access b _ _ _ hb₀.1 hb₀.2
    (hG.within _ _ hb₀.2 hbn) (by omega))) fun pcm => Returns.assume fun hpcm => ?_
  have hlen : (resampleL16Advanced E s'.resampler s.inSampleRate s.outSampleRate pcm
      (n * s.outSampleRate.toNat / s.inSampleRate.toNat + 128)).1.length =
        s.resampledCount E n := by
    rw [length_resampleL16Advanced, hpcm]
    rfl
  refine Returns.bind (storeSamples_returns hlen
    (hG.access ⟨(c + 7) / 8 * 8, s.resampledSize n⟩ _ _ _ (by simp only; omega)
      (by simp only; omega) hR (by omega))) ?_
  rw [hlen]
  refine Returns.bind (?_ : Returns _ _ () (AtVad s size c' P Q)) (Returns.pure fun _ h => h)
  exact fun w hw => ⟨rfl, hq, ⟨hs'.1, hs'.2, rfl, hs'.4, rfl, rfl, h.symm, hs'.8, hs'.9⟩, hw.size,
    hw.curr, hw.trace⟩

end resample

/-! ### Encoding -/

section encode
variable {lo : ℕ} {R : Block → ℕ → Prop} {D : ℕ → Prop} (hG : Grants lo size R D P)

include hG

/-- The move to the start of the request. -/
theorem moveToStart_returns {src : Block} {len : ℕ} (h₁ : lo ≤ src.start)
    (h₂ : src.start + src.size ≤ c) (hc : c ≤ size) (hR : R src len) :
    Returns (At s size c P) (moveToStart lo src len) () (At s size (lo + len) P) := by
  refine Returns.bindSat (loadBytes_sat (hG.access src len 0 len h₁ (by omega) hR (by omega)))
    fun bs => Returns.assume fun hbs => ?_
  refine Returns.bind getCurr_returns (Returns.bind (storeBytes_returns ?_) (setCurr_returns _))
  rw [hbs]
  exact hG.access ⟨lo, c - lo⟩ len 0 len (Nat.le_refl _) (by simp only; omega)
    (hG.mono src _ _ h₁ (by simp only; omega) hR) (by omega)

variable (hpos : 0 < size) (hsize : size < 2 ^ 31) (hc : c ≤ size)

include hpos hsize hc

theorem encodeG711_returns {encode : List Int16 → List UInt8}
    (henc : ∀ xs, (encode xs).length = xs.length) {m : ℕ} (hm : m < 2 ^ 62)
    (hb₁ : lo ≤ b.start) (hb₂ : b.start + b.size ≤ c) (hR : R b (2 * m)) :
    Returns (At s size c P) (encodeG711 encode lo b m)
      (returnCode (bump size c m))
      (Ends s size ((bump size c m).map fun _ => lo + m) P) := by
  cases hb : bump size c m with
  | none =>
      exact Returns.bind (alloc_none hpos (by omega) hc hm hb)
        (Returns.pure fun _ h => h.ends_none)
  | some c' =>
      obtain ⟨h₁, h₂, h₃⟩ := bump_eq_some hb
      apply Returns.bind (alloc_some hpos (by omega) hc hm hb)
      refine Returns.bindSat (loadSamples_sat (hG.access b _ _ _ hb₁ (by omega) hR (by omega)))
        fun pcm => Returns.assume fun hpcm => ?_
      have hfit : R ⟨(c + 7) / 8 * 8, m⟩ m :=
        hG.within _ _ (by simp only; omega) (Nat.le_refl _)
      refine Returns.bind (storeBytes_returns ?_) ?_
      · rw [henc, hpcm]
        exact hG.access ⟨(c + 7) / 8 * 8, m⟩ m 0 m (by simp only; omega) (by simp only; omega) hfit
          (by omega)
      · exact Returns.bind
          (moveToStart_returns hG (by simp only; omega) (by simp only; omega) h₃ hfit)
          (Returns.pure fun _ h => h)

omit hpos hsize in
theorem encodeL16_returns {m : ℕ} (hb₁ : lo ≤ b.start) (hb₂ : b.start + b.size ≤ c)
    (hR : R b (2 * (m * s.outChannels.toNat))) :
    Returns (At s size c P) (encodeL16 lo b m) 0
      (At s size (lo + m * s.outChannels.toNat * 2) P) := by
  have hR' : R b (m * s.outChannels.toNat * 2) := by rwa [Nat.mul_comm]
  refine Returns.bindSat getSession_sat fun s' => Returns.assume fun hs' => ?_
  rw [hs'.outChannels]
  have hmove : Returns (At s size c P)
      (do moveToStart lo b (m * s.outChannels.toNat * 2); return (0 : ℤ)) 0
      (At s size (lo + m * s.outChannels.toNat * 2) P) :=
    Returns.bind (moveToStart_returns hG hb₁ hb₂ hc hR') (Returns.pure fun _ h => h)
  dsimp only
  split_ifs
  · exact Returns.bind (swapEndianL16_returns hG hb₁ (by omega) hR) hmove
  · exact hmove

theorem encodeStep_returns {m : ℕ} (hm : m < 2 ^ 62) (hb₁ : lo ≤ b.start)
    (hb₂ : b.start + b.size ≤ c) (hR : R b (2 * m))
    (hR' : s.outPayloadType = codecL16 → R b (2 * (m * s.outChannels.toNat))) :
    Returns (At s size c P) (encodeStep lo b m)
      (returnCode (s.encodeShape size lo c m)) (Ends s size (s.encodeShape size lo c m) P) := by
  refine Returns.bindSat getSession_sat fun s' => Returns.assume fun hs' => ?_
  rw [hs'.outPayloadType]
  by_cases h₁ : s.outPayloadType = codecPcmu
  · have e : s.encodeShape size lo c m = (bump size c m).map fun _ => lo + m := if_pos (.inl h₁)
    rw [if_pos h₁, e, returnCode_map]
    exact encodeG711_returns hG hpos hsize hc length_transcodeL16ToPcmu hm hb₁ hb₂ hR
  · by_cases h₂ : s.outPayloadType = codecPcma
    · have e : s.encodeShape size lo c m = (bump size c m).map fun _ => lo + m := if_pos (.inr h₂)
      rw [if_neg h₁, if_pos h₂, e, returnCode_map]
      exact encodeG711_returns hG hpos hsize hc length_transcodeL16ToPcma hm hb₁ hb₂ hR
    · have hno : ¬(s.outPayloadType = codecPcmu ∨ s.outPayloadType = codecPcma) :=
        not_or.mpr ⟨h₁, h₂⟩
      rw [if_neg h₁, if_neg h₂, TranscodeSession.encodeShape, if_neg hno]
      by_cases h₃ : s.outPayloadType = codecL16
      · rw [if_pos h₃, if_pos h₃]
        exact encodeL16_returns hG hc hb₁ hb₂ (hR' h₃)
      · rw [if_neg h₃, if_neg h₃]
        exact Returns.pure fun _ h => h

end encode

/-- Everything behind the mixing. -/
theorem processMixed_returns {lo : ℕ} {R : Block → ℕ → Prop} {D : ℕ → Prop}
    (hG : Grants lo size R D P) (hpos : 0 < size) (hsize : size ≤ 2 ^ 20) (hc : c ≤ size)
    (hlo : lo ≤ c) (hb₁ : lo ≤ b.start) (hb₂ : b.start + b.size ≤ c) (hn : 0 < n)
    (hbn : 2 * n ≤ b.size)
    (hvad : s.vadRuns s.inSampleRate → R b (2 * vadExtent n s.inChannels.toNat))
    (hD : s.needsResample → D s.inSampleRate.toNat) {curr : ℕ}
    (hstart : b.start = (curr + 7) / 8 * 8)
    (hfinal : (s.needsResample → bump size c (s.resampledSize n) ≠ none) →
      ∀ f, f = s.finalBlock E b.size n →
        R ⟨s.finalStart curr c, f.1⟩ (2 * f.2) ∧
        (¬(s.vadRuns s.inSampleRate ∧ 1 ≤ s.inChannels.toNat) → s.vadRuns s.outSampleRate →
          R ⟨s.finalStart curr c, f.1⟩ (2 * vadExtent f.2 s.outChannels.toNat)) ∧
        (s.outPayloadType = codecL16 →
          R ⟨s.finalStart curr c, f.1⟩ (2 * (f.2 * s.outChannels.toNat)))) :
    Returns (At s size c P) (processMixed E lo b n)
      (returnCode (s.processShape E size lo c n))
      (Ends s size (s.processShape E size lo c n) P) := by
  have haccess : ∀ {b : Block} {k : ℕ}, lo ≤ b.start → b.start + b.size ≤ size → R b (2 * k) →
      P (.access b (2 * 0) (2 * k)) :=
    fun h₁ h₂ h => hG.access _ _ _ _ h₁ h₂ h (by omega)
  have hn20 : n ≤ 2 ^ 20 := by omega
  rw [processMixed]
  apply Returns.bind (inputVad_returns hn fun h => haccess hb₁ (by omega) (hvad h))
  cases hres : s.needsResample with
  | false =>
      have hfirst : (⟨s.finalStart curr c, b.size⟩ : Block) = b := by
        rw [TranscodeSession.finalStart, hres, if_neg (by simp), ← hstart]
      obtain ⟨hf₁, hf₂, hf₃⟩ := hfinal (by simp [hres]) (b.size, n)
        (by rw [TranscodeSession.finalBlock, hres, if_neg (by simp)])
      rw [hfirst] at hf₁ hf₂ hf₃
      rw [TranscodeSession.processShape, hres, if_neg (by simp)]
      apply Returns.bind (resampleStep_id hres)
      apply Returns.bind (outputVad_returns fun h₁ h₂ => haccess hb₁ (by omega) (hf₂ h₁ h₂))
      exact encodeStep_returns hG hpos (by omega) hc (by omega) hb₁ hb₂ hf₁ hf₃
  | true =>
      have hresampled : s.finalStart curr c = (c + 7) / 8 * 8 := by
        rw [TranscodeSession.finalStart, hres, if_pos rfl]
      rw [TranscodeSession.processShape, hres, if_pos rfl]
      cases hbump : bump size c (s.resampledSize n) with
      | none =>
          apply Returns.bind (resampleStep_none hG hpos (by omega) hc hres hn20 (hD hres) hbump)
          exact Returns.pure fun _ h => h.ends_none
      | some c' =>
          obtain ⟨h₁, h₂, h₃⟩ := bump_eq_some hbump
          obtain ⟨hf₁, hf₂, hf₃⟩ := hfinal (by simp [hbump])
            (s.resampledSize n, s.resampledCount E n)
            (by rw [TranscodeSession.finalBlock, hres, if_pos rfl])
          rw [hresampled] at hf₁ hf₂ hf₃
          have hcount : s.resampledCount E n < 2 ^ 62 := resampledCount_lt hn20
          refine Returns.bind (resampleStep_some hG hpos (by omega) hc hlo hres hn20
            ⟨hb₁, by omega⟩ hbn (hD hres) hbump hf₁) ?_
          refine Returns.bind (outputVad_returns fun h₁ h₂ =>
            haccess (by simp only; omega) (by simp only; omega) (hf₂ h₁ h₂)) ?_
          exact encodeStep_returns hG hpos (by omega) h₃ hcount (by simp only; omega)
            (by simp only; omega) hf₁ hf₃

end process

/-! ### The whole call -/

theorem two_mul_decodedSamples_le (s : TranscodeSession H) (len : ℕ) :
    2 * s.decodedSamples len ≤ s.blockSize len := by
  rw [TranscodeSession.decodedSamples, TranscodeSession.blockSize]
  split_ifs
  · rcases Nat.eq_zero_or_pos s.inChannels.toNat with h | h
    · simp [h]
    · have h₁ : len / (2 * s.inChannels.toNat) ≤ len / 2 :=
        Nat.div_le_div_left (by omega) (by omega)
      omega
  · omega

/-- **The pipeline follows its shape.**  From a session with the configuration of `s` and an
arena of `size` bytes with the cursor at `curr`, the call returns what the shape says, the
cursor ends where the shape says, and every event has a property that grants what the shape
asks for. -/
theorem audioProcessTranscode_returns {s : TranscodeSession H} {size curr : ℕ}
    {payload : List UInt8} {R : Block → ℕ → Prop} {D : ℕ → Prop} {P : Event → Prop}
    (hG : Grants curr size R D P) (hpos : 0 < size) (hsize : size ≤ 2 ^ 20) (hcurr : curr ≤ size)
    (hpay : payload.length < 2 ^ 31) (hp : Permits E s size curr payload R D) :
    Returns (At s size curr P) (audioProcessTranscode E payload)
      (returnCode (transcodeShape E s size curr payload))
      (Ends s size (transcodeShape E s size curr payload) P) := by
  rw [audioProcessTranscode]
  apply Returns.bind getCurr_returns
  dsimp only
  by_cases h0 : ntohl payload 0 = 0
  · rw [if_pos h0, transcodeShape, if_pos h0]
    exact Returns.pure fun _ h => h
  · rw [if_neg h0, transcodeShape, if_neg h0]
    cases hl : bufferLengths payload with
    | nil => exact Returns.bind (mixInputs_nil hl) (Returns.pure fun _ h => h.ends_none)
    | cons len lens =>
        have hloop := mixInputs_cons hG hpos (by omega) hpay (Nat.le_refl curr) hcurr
          (hp.decode (by simp [hl])) (n := (ntohl payload 0).toNat) hl
          fun pre len' post c' e => hp.mix len pre len' post c' (by rw [hl, e])
        dsimp only
        by_cases hk : IsKnownCodec s.inPayloadType
        · rw [if_pos hk, if_pos hk] at hloop
          rw [if_neg (not_not.mpr hk)]
          cases hb : bumps size curr ((len :: lens).map s.blockSize) with
          | none =>
              rw [hb] at hloop
              exact Returns.bind hloop (Returns.pure fun _ h => h)
          | some c₁ =>
              rw [hb] at hloop
              apply Returns.bind hloop
              obtain ⟨h₁, h₂, h₃⟩ := bumps_cons hb
              simp only [Option.map_some, Option.bind_some]
              by_cases hn : s.decodedSamples len = 0
              · rw [if_pos hn, if_pos hn]
                exact Returns.pure fun _ h => h.ends_none
              · rw [if_neg hn, if_neg hn]
                have hr := hp.rest len lens hl hk (by rw [hb]; exact Option.some_ne_none c₁) _ rfl
                  (by omega)
                exact processMixed_returns hG hpos hsize h₃ (by omega) (by simp only; omega)
                  (by simp only; omega) (by omega) (two_mul_decodedSamples_le s len) hr.1 hr.2 rfl
                  fun hfit => hp.final len lens c₁ hl hk hb _ rfl (by omega) hfit
        · rw [if_neg hk, if_neg hk] at hloop
          rw [if_pos hk]
          exact Returns.bind hloop (Returns.pure fun _ h => h)

end MachAudio
