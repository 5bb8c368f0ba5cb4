import MachAudio.Containment

/-! # Two requests with the same payload

Nothing clears the arena, so a request can see bytes that earlier requests left there.  The
pipeline is run here twice, on two arenas that differ in what they hold: `Alike A` says that
the two runs agree in the session and the cursor, and in the bytes at the addresses `A`.  A
request starts with `A` empty, every write adds to `A`, and every read must lie in it.

With one channel on both sides that works out as long as every decoder writes the block it is
given, and, for an unknown output codec, which sends the arena as it is, the blocks leave no
gap (`Written`). -/

namespace MachAudio

open ByteMem Exec

variable {H Φ : Type} (E : Env H Φ)

/-! ### The condition -/

/-- The bytes of blocks of these sizes, taken one after another from `curr` on. -/
def taken : ℕ → List ℕ → Set ℕ
  | _, [] => ∅
  | curr, n :: ns =>
      Set.Ico ((curr + 7) / 8 * 8) ((curr + 7) / 8 * 8 + n) ∪ taken ((curr + 7) / 8 * 8 + n) ns

/-- Everything the request reads it has written before. -/
structure Written (s : TranscodeSession H) (size curr : ℕ) (payload : List UInt8) : Prop where
  /-- The decoder of G.711 refuses a length that is not a multiple of sixteen. -/
  decoded : ∀ len curr₁, Decodes s size curr payload len curr₁ → s.inPayloadType ≠ codecL16 →
    ∀ len' ∈ bufferLengths payload, len' % 16 = 0
  /-- With an unknown output codec everything behind the start of the request is sent. -/
  output : ∀ len curr₁, Decodes s size curr payload len curr₁ →
    ¬IsKnownCodec s.outPayloadType →
    s.needsResample = false ∧
      Set.Ico curr curr₁ ⊆ taken curr ((bufferLengths payload).map s.blockSize)

/-! ### The assertion -/

/-- Two runs that agree in everything but the arena's memory, and there at the addresses
`A`. -/
structure Alike (s : TranscodeSession H) (size c : ℕ) (A : Set ℕ) (w w' : Work H) : Prop where
  left : At s size c (fun _ => True) w
  right : At s size c (fun _ => True) w'
  session : w'.session = w.session
  buf : Set.EqOn w'.arena.buf w.arena.buf A

variable {s : TranscodeSession H} {size c : ℕ} {A : Set ℕ}

theorem Alike.mono {w w' : Work H} (h : Alike s size c A w w') {A' : Set ℕ} (hA : A' ⊆ A) :
    Alike s size c A' w w' := ⟨h.left, h.right, h.session, h.buf.mono hA⟩

/-- The first `n` bytes of a block. -/
def Block.first (b : Block) (n : ℕ) : Set ℕ := Set.Ico b.start (b.start + n)

theorem Block.first_mono (b : Block) {n m : ℕ} (h : n ≤ m) : b.first n ⊆ b.first m :=
  Set.Ico_subset_Ico_right (by omega)

/-! ### The primitives -/

theorem getSession_sync :
    Sync (Alike s size c A) getSession fun s' w w' => SameConfig s s' ∧ Alike s size c A w w' :=
  fun _ _ h => ⟨h.session, h.left.config, h⟩

theorem setSession_sync {s' : TranscodeSession H} (hs : SameConfig s s') :
    Sync (Alike s size c A) (setSession s') fun _ => Alike s size c A :=
  fun _ _ h => ⟨rfl, ⟨hs, h.left.size, h.left.curr, h.left.trace⟩,
    ⟨hs, h.right.size, h.right.curr, h.right.trace⟩, rfl, h.buf⟩

theorem note_sync {e : Event} : Sync (Alike s size c A) (note e) fun _ => Alike s size c A :=
  fun _ _ h => ⟨rfl, ⟨h.left.config, h.left.size, h.left.curr, fun _ _ => trivial⟩,
    ⟨h.right.config, h.right.size, h.right.curr, fun _ _ => trivial⟩, h.session, h.buf⟩

theorem divide_sync {a b : ℕ} :
    Sync (Alike s size c A) (divide a b) fun q w w' => q = a / b ∧ Alike s size c A w w' :=
  Sync.bind note_sync fun _ => Sync.pure fun _ _ h => ⟨rfl, h⟩

theorem getCurr_sync :
    Sync (Alike s size c A) getCurr fun n w w' => n = c ∧ Alike s size c A w w' :=
  fun _ _ h => ⟨h.right.curr.trans h.left.curr.symm, h.left.curr, h⟩

theorem setCurr_sync (n : ℕ) :
    Sync (Alike s size c A) (setCurr n) fun _ => Alike s size n A :=
  fun _ _ h => ⟨rfl, ⟨h.left.config, h.left.size, rfl, h.left.trace⟩,
    ⟨h.right.config, h.right.size, rfl, h.right.trace⟩, h.session, h.buf⟩

/-- A read of bytes that agree. -/
theorem loadBytes_sync {b : Block} {off n : ℕ}
    (hA : Set.Ico (b.start + off) (b.start + off + n) ⊆ A) :
    Sync (Alike s size c A) (loadBytes b off n)
      fun bs w w' => bs.length = n ∧ Alike s size c A w w' := by
  intro w w' h
  refine ⟨load_eq_of_eqOn h.buf hA, length_load _ _ _, ?_⟩
  exact ⟨⟨h.left.config, h.left.size, h.left.curr, fun _ _ => trivial⟩,
    ⟨h.right.config, h.right.size, h.right.curr, fun _ _ => trivial⟩, h.session, h.buf⟩

theorem loadSamples_sync {b : Block} {i n : ℕ}
    (hA : Set.Ico (b.start + 2 * i) (b.start + 2 * i + 2 * n) ⊆ A) :
    Sync (Alike s size c A) (loadSamples b i n)
      fun xs w w' => xs.length = n ∧ Alike s size c A w w' :=
  Sync.bind (loadBytes_sync hA) fun bs => Sync.assume fun hbs => Sync.pure fun _ _ h => by
    refine ⟨?_, h⟩
    rw [length_ofBytes, hbs]
    omega

/-- After a write the runs agree also where it has written. -/
theorem storeBytes_sync {b : Block} {off n : ℕ} {bs : List UInt8} (hn : bs.length = n) :
    Sync (Alike s size c A) (storeBytes b off bs)
      fun _ => Alike s size c (A ∪ Set.Ico (b.start + off) (b.start + off + n)) := by
  intro w w' h
  subst hn
  exact ⟨rfl, ⟨h.left.config, h.left.size, h.left.curr, fun _ _ => trivial⟩,
    ⟨h.right.config, h.right.size, h.right.curr, fun _ _ => trivial⟩, h.session,
    eqOn_store h.buf _ _⟩

theorem storeSamples_sync {b : Block} {i n : ℕ} {xs : List Int16} (hn : xs.length = n) :
    Sync (Alike s size c A) (storeSamples b i xs)
      fun _ => Alike s size c (A ∪ Set.Ico (b.start + 2 * i) (b.start + 2 * i + 2 * n)) :=
  storeBytes_sync (by rw [length_toBytes, hn])

theorem alloc_sync_none {n : ℕ} (hpos : 0 < size) (hsize : size < 2 ^ 62) (hc : c ≤ size)
    (hn : n < 2 ^ 62) (h : bump size c n = none) :
    Sync (Alike s size c A) (alloc n) fun o w w' => o = none ∧ Alike s size c A w w' := by
  intro w w' hw
  obtain ⟨h₁, hl⟩ := alloc_none hpos hsize hc hn h w hw.left
  obtain ⟨h₂, hr⟩ := alloc_none hpos hsize hc hn h w' hw.right
  refine ⟨h₂.trans h₁.symm, h₁, hl, hr, hw.session, ?_⟩
  rw [alloc_apply, alloc_apply]
  dsimp only
  rw [arenaAlloc_buf, arenaAlloc_buf]
  exact hw.buf

theorem alloc_sync_some {n c' : ℕ} (hpos : 0 < size) (hsize : size < 2 ^ 62) (hc : c ≤ size)
    (hn : n < 2 ^ 62) (h : bump size c n = some c') :
    Sync (Alike s size c A) (alloc n)
      fun o w w' => o = some ⟨(c + 7) / 8 * 8, n⟩ ∧ Alike s size c' A w w' := by
  intro w w' hw
  obtain ⟨h₁, hl⟩ := alloc_some hpos hsize hc hn h w hw.left
  obtain ⟨h₂, hr⟩ := alloc_some hpos hsize hc hn h w' hw.right
  refine ⟨h₂.trans h₁.symm, h₁, hl, hr, hw.session, ?_⟩
  rw [alloc_apply, alloc_apply]
  dsimp only
  rw [arenaAlloc_buf, arenaAlloc_buf]
  exact hw.buf

/-! ### Mixing -/

section mix
variable {inA inB : Block} {total : ℕ} (hA : inA.first (2 * total) ⊆ A)
  (hB : inB.first (2 * total) ⊆ A)

include hA hB

theorem mixBlocks_sync : ∀ n i, i + 16 * n ≤ total →
    Sync (Alike s size c A) (mixBlocks inA inB inA n i) fun _ => Alike s size c A
  | 0, _, _ => Sync.pure fun _ _ h => h
  | n + 1, i, hle =>
      Sync.bind (loadSamples_sync ((Set.Ico_subset_Ico (by omega) (by omega)).trans hA)) fun a =>
        Sync.assume fun ha =>
          Sync.bind (loadSamples_sync ((Set.Ico_subset_Ico (by omega) (by omega)).trans hB)) fun b =>
            Sync.assume fun hb =>
              Sync.bind (S := fun _ => Alike s size c A)
                ((storeSamples_sync (n := 16) (by rw [Simd.length_addsEpi16, ha, hb]; rfl)).post
                  fun _ _ _ h => h.mono Set.subset_union_left)
                fun _ => mixBlocks_sync n (i + 16) (by omega)

theorem mixTail_sync : ∀ n i, i + n ≤ total →
    Sync (Alike s size c A) (mixTail inA inB inA n i) fun _ => Alike s size c A
  | 0, _, _ => Sync.pure fun _ _ h => h
  | n + 1, i, hle =>
      Sync.bind (loadSamples_sync ((Set.Ico_subset_Ico (by omega) (by omega)).trans hA)) fun a =>
        Sync.assume fun ha =>
          Sync.bind (loadSamples_sync ((Set.Ico_subset_Ico (by omega) (by omega)).trans hB)) fun b =>
            Sync.assume fun hb =>
              Sync.bind (S := fun _ => Alike s size c A)
                ((storeSamples_sync (n := 1) (by rw [List.length_zipWith, ha, hb]; rfl)).post
                  fun _ _ _ h => h.mono Set.subset_union_left)
                fun _ => mixTail_sync n (i + 1) (by omega)

theorem mixL16Avx2_sync :
    Sync (Alike s size c A) (mixL16Avx2 inA inB inA total) fun _ => Alike s size c A :=
  Sync.bind (mixBlocks_sync hA hB _ 0 (by omega)) fun _ => mixTail_sync hA hB _ _ (by omega)

end mix

/-! ### Decoding -/

theorem swapEndianL16_sync {b : Block} {samples : ℕ} (hA : b.first (2 * samples) ⊆ A) :
    Sync (Alike s size c A) (swapEndianL16 b samples) fun _ => Alike s size c A :=
  Sync.bind (loadSamples_sync hA) fun _ => Sync.assume fun hx =>
    (storeSamples_sync ((List.length_map _).trans hx)).post fun _ _ _ h =>
      h.mono Set.subset_union_left

section decode
variable {payload : List UInt8} {dataOff len : ℕ} (hpos : 0 < size) (hsize : size < 2 ^ 31)
  (hc : c ≤ size)

include hpos hsize hc

/-- A G.711 buffer of a length that the decoder takes: it writes the whole block. -/
theorem decodeG711_sync {lut : List ℤ} {c' : ℕ} (hb : bump size c (len * 2) = some c')
    (hin : dataOff + len ≤ payload.length) (h16 : len % 16 = 0) :
    Sync (Alike s size c A) (decodeG711 (transcodeG711ToL16 lut) payload dataOff len)
      fun o w w' => o = some (⟨(c + 7) / 8 * 8, len * 2⟩, len) ∧
        Alike s size c' (A ∪ Block.first ⟨(c + 7) / 8 * 8, len * 2⟩ (len * 2)) w w' := by
  obtain ⟨h₁, h₂, h₃⟩ := bump_eq_some hb
  have hlen : ((payload.drop dataOff).take len).length = len := by
    rw [List.length_take, List.length_drop]
    omega
  apply Sync.bindVal (alloc_sync_some hpos (by omega) hc (by omega) hb)
  dsimp only
  rw [transcodeG711ToL16_eq (by rw [hlen]; exact h16), storeDecoded]
  refine Sync.bind (Sync.bind note_sync fun _ =>
    storeSamples_sync ((List.length_map _).trans hlen)) fun _ => Sync.pure fun _ _ h => ⟨rfl, ?_⟩
  rw [Nat.mul_comm len 2]
  exact h

theorem decodeL16_sync {c' : ℕ} (hin₁ : s.inChannels = 1) (hb : bump size c len = some c')
    (hin : dataOff + len ≤ payload.length) :
    Sync (Alike s size c A) (decodeL16 payload dataOff len)
      fun o w w' => o = some (⟨(c + 7) / 8 * 8, len⟩, len / (2 * s.inChannels.toNat)) ∧
        Alike s size c' (A ∪ Block.first ⟨(c + 7) / 8 * 8, len⟩ len) w w' := by
  obtain ⟨h₁, h₂, h₃⟩ := bump_eq_some hb
  have hlen : ((payload.drop dataOff).take len).length = len := by
    rw [List.length_take, List.length_drop]
    omega
  refine Sync.bind getSession_sync fun s' => Sync.assume fun hs' => ?_
  rw [hs'.inChannels]
  refine Sync.bindVal divide_sync (Sync.bindVal
    (alloc_sync_some hpos (by omega) hc (by omega) hb) ?_)
  refine Sync.bind note_sync fun _ => Sync.bind (storeBytes_sync hlen) fun _ => ?_
  dsimp only
  have hswap : Block.first ⟨(c + 7) / 8 * 8, len⟩
      (2 * (len / (2 * s.inChannels.toNat) * s.inChannels.toNat)) ⊆
        A ∪ Block.first ⟨(c + 7) / 8 * 8, len⟩ len := by
    refine (Block.first_mono _ ?_).trans Set.subset_union_right
    rw [hin₁, UInt8.toNat_one]
    omega
  split_ifs
  · exact Sync.bind (swapEndianL16_sync hswap) fun _ => Sync.pure fun _ _ h => ⟨rfl, h⟩
  · exact Sync.pure fun _ _ h => ⟨rfl, h⟩

/-- A buffer that is decoded: its whole block is written. -/
theorem decodeBuffer_sync {c' : ℕ} (hin₁ : s.inChannels = 1) (hk : IsKnownCodec s.inPayloadType)
    (hb : bump size c (s.blockSize len) = some c') (hin : dataOff + len ≤ payload.length)
    (h16 : s.inPayloadType ≠ codecL16 → len % 16 = 0) :
    Sync (Alike s size c A) (decodeBuffer payload dataOff len)
      fun o w w' => o = some (⟨(c + 7) / 8 * 8, s.blockSize len⟩, s.decodedSamples len) ∧
        Alike s size c' (A ∪ Block.first ⟨(c + 7) / 8 * 8, s.blockSize len⟩ (s.blockSize len))
          w w' := by
  refine Sync.bind getSession_sync fun s' => Sync.assume fun hs' => ?_
  rw [hs'.inPayloadType]
  rcases hk with hk | hk | hk
  · simp only [TranscodeSession.blockSize, TranscodeSession.decodedSamples, hk,
      if_neg pcmu_ne_l16] at hb ⊢
    rw [if_pos trivial]
    exact decodeG711_sync hpos hsize hc hb hin (h16 (by rw [hk]; exact pcmu_ne_l16))
  · simp only [TranscodeSession.blockSize, TranscodeSession.decodedSamples, hk,
      if_neg pcma_ne_l16] at hb ⊢
    rw [if_neg pcma_ne_pcmu, if_pos trivial]
    exact decodeG711_sync hpos hsize hc hb hin (h16 (by rw [hk]; exact pcma_ne_l16))
  · simp only [TranscodeSession.blockSize, TranscodeSession.decodedSamples, hk, if_pos] at hb ⊢
    rw [if_neg pcmu_ne_l16.symm, if_neg pcma_ne_l16.symm]
    exact decodeL16_sync hpos hsize hc hin₁ hb hin

end decode

/-! ### The loop over the buffers -/

theorem mixInto_sync_first {decoded : Block × ℕ} :
    Sync (Alike s size c A) (mixInto none decoded)
      fun r w w' => r = decoded ∧ Alike s size c A w w' :=
  Sync.bind getSession_sync fun _ => Sync.assume fun _ => Sync.pure fun _ _ h => ⟨rfl, h⟩

section inputs
variable {payload : List UInt8} (hin₁ : s.inChannels = 1)

include hin₁

theorem mixInto_sync {b₀ b : Block} {n₀ n : ℕ} (h₀ : b₀.first (2 * n₀) ⊆ A)
    (h : b.first (2 * n) ⊆ A) :
    Sync (Alike s size c A) (mixInto (some (b₀, n₀)) (b, n))
      fun r w w' => r = (b₀, n₀) ∧ Alike s size c A w w' := by
  refine Sync.bind getSession_sync fun s' => Sync.assume fun hs' => ?_
  dsimp only
  have hmin : (if n < n₀ then n else n₀) * s'.inChannels.toNat = min n n₀ := by
    rw [hs'.inChannels, hin₁, UInt8.toNat_one, Nat.mul_one]
    split_ifs <;> omega
  rw [hmin]
  exact Sync.bind (mixL16Avx2_sync ((b₀.first_mono (by omega)).trans h₀)
    ((b.first_mono (by omega)).trans h)) fun _ => Sync.pure fun _ _ h => ⟨rfl, h⟩

variable (hpos : 0 < size) (hsize : size < 2 ^ 31) (hpay : payload.length < 2 ^ 31)
  (hk : IsKnownCodec s.inPayloadType)

include hpos hsize hpay hk

/-- The turns of the loop behind the first buffer. -/
theorem mixInputs_rest_sync {b₀ : Block} {n₀ : ℕ} : ∀ (n : ℕ) (offset : UInt32) (c c₁ : ℕ)
    (A : Set ℕ), c ≤ size → b₀.first (2 * n₀) ⊆ A →
    (∀ len ∈ parsedLengths payload n offset, s.inPayloadType ≠ codecL16 → len % 16 = 0) →
    bumps size c ((parsedLengths payload n offset).map s.blockSize) = some c₁ →
    Sync (Alike s size c A) (mixInputs payload n offset (some (b₀, n₀)))
      fun o w w' => o = some (some (b₀, n₀)) ∧
        Alike s size c₁ (A ∪ taken c ((parsedLengths payload n offset).map s.blockSize)) w w'
  | 0, _, c, c₁, A, _, _, _, hb => by
      obtain rfl : c = c₁ := Option.some.inj hb
      exact Sync.pure fun _ _ h => ⟨rfl, by simpa [parsedLengths, taken] using h⟩
  | n + 1, offset, c, c₁, A, hc, h₀, h16, hb => by
      rw [mixInputs]
      rw [parsedLengths] at h16 hb ⊢
      rcases hp : protocolParseNextBuffer payload (UInt32.ofNat payload.length) offset with
        ⟨_ | ⟨bh, dataOff⟩, offset'⟩
      · rw [hp] at hb
        obtain rfl : c = c₁ := Option.some.inj hb
        exact Sync.pure fun _ _ h => ⟨rfl, by simpa [taken] using h⟩
      · simp only [hp, List.map_cons, bumps, taken, Option.bind_eq_some_iff] at h16 hb ⊢
        obtain ⟨c₂, hb₁, hb₂⟩ := hb
        obtain ⟨h₁, h₂, h₃⟩ := bump_eq_some hb₁
        refine Sync.bindVal (decodeBuffer_sync hpos hsize hc hin₁ hk hb₁
          (parsed_inside hsize hpay hp hb₁) (h16 _ List.mem_cons_self)) ?_
        dsimp only
        refine Sync.bindVal (mixInto_sync hin₁ (h₀.trans Set.subset_union_left)
          ((Block.first_mono _ (two_mul_decodedSamples_le s _)).trans Set.subset_union_right)) ?_
        rw [h₂, ← Set.union_assoc]
        refine (mixInputs_rest_sync n offset' c₂ c₁ _ h₃ (h₀.trans Set.subset_union_left)
          (fun len hl => h16 len (List.mem_cons_of_mem _ hl)) hb₂).post fun o w w' h => ⟨h.1, ?_⟩
        have e : Block.first ⟨(c + 7) / 8 * 8, s.blockSize bh.length.toNat⟩
            (s.blockSize bh.length.toNat) = Set.Ico ((c + 7) / 8 * 8) c₂ := by
          rw [Block.first, h₂]
        rw [e] at h
        exact h.2

/-- The whole loop: the runs agree on every block that was taken. -/
theorem mixInputs_sync {n : ℕ} {offset : UInt32} {len : ℕ} {lens : List ℕ} {c₁ : ℕ}
    (hc : c ≤ size) (hl : parsedLengths payload n offset = len :: lens)
    (h16 : ∀ len' ∈ len :: lens, s.inPayloadType ≠ codecL16 → len' % 16 = 0)
    (hb : bumps size c ((len :: lens).map s.blockSize) = some c₁) :
    Sync (Alike s size c A) (mixInputs payload n offset none)
      fun o w w' => o = some (some (⟨(c + 7) / 8 * 8, s.blockSize len⟩, s.decodedSamples len)) ∧
        Alike s size c₁ (taken c ((len :: lens).map s.blockSize)) w w' := by
  cases n with
  | zero => cases hl
  | succ n =>
      rw [mixInputs]
      rw [parsedLengths] at hl
      rcases hp : protocolParseNextBuffer payload (UInt32.ofNat payload.length) offset with
        ⟨_ | ⟨bh, dataOff⟩, offset'⟩
      · rw [hp] at hl
        cases hl
      · rw [hp] at hl
        obtain ⟨rfl, rfl⟩ := List.cons.inj hl
        simp only [List.map_cons, bumps, taken, Option.bind_eq_some_iff] at hb ⊢
        obtain ⟨c₂, hb₁, hb₂⟩ := hb
        obtain ⟨h₁, h₂, h₃⟩ := bump_eq_some hb₁
        refine Sync.bindVal (decodeBuffer_sync hpos hsize hc hin₁ hk hb₁
          (parsed_inside hsize hpay hp hb₁) (h16 _ List.mem_cons_self)) ?_
        apply Sync.bindVal mixInto_sync_first
        refine (mixInputs_rest_sync hin₁ hpos hsize hpay hk n offset' c₂ c₁ _ h₃
          ((Block.first_mono _ (two_mul_decodedSamples_le s _)).trans Set.subset_union_right)
          (fun len hl => h16 len (List.mem_cons_of_mem _ hl)) hb₂).post
            fun o w w' h => ⟨h.1, h.2.mono ?_⟩
        rw [h₂, Block.first, h₂]
        exact Set.union_subset_union_left _ Set.subset_union_right

end inputs

/-! ### The voice detector, the resampler and the encoders -/

section process
variable {E} {b : Block} {n : ℕ}

theorem runVad_sync {channels : ℕ} (hA : b.first (2 * vadExtent n channels) ⊆ A) :
    Sync (Alike s size c A) (runVad E b n channels) fun _ => Alike s size c A := by
  refine Sync.bind getSession_sync fun s' => Sync.assume fun hs' => ?_
  cases hv : s'.vadState with
  | none => exact Sync.pure fun _ _ h => h
  | some state =>
      refine Sync.bind (loadSamples_sync hA) fun pcm => Sync.assume fun _ => ?_
      have hsome := hs'.vadState
      rw [hv] at hsome
      exact setSession_sync
        ⟨hs'.1, hs'.2, hs'.3, hs'.4, hs'.5, hs'.6, hs'.7, hs'.8, hsome⟩

theorem vadExtent_le_of_one {channels : UInt8} (h : channels = 1) (n : ℕ) :
    vadExtent n channels.toNat ≤ n :=
  vadExtent_mono (.inl (by rw [h, UInt8.toNat_one]))

theorem inputVad_sync (hin₁ : s.inChannels = 1) (hA : b.first (2 * n) ⊆ A) :
    Sync (Alike s size c A) (inputVad E b n) fun _ => Alike s size c A := by
  have hle := vadExtent_le_of_one hin₁ n
  refine Sync.bind getSession_sync fun s' => Sync.assume fun hs' => ?_
  refine Sync.bind (setSession_sync
    ⟨hs'.1, hs'.2, hs'.3, hs'.4, hs'.5, hs'.6, hs'.7, hs'.8, hs'.9⟩) fun _ => ?_
  rw [hs'.inChannels]
  exact Sync.ite (fun _ => runVad_sync ((b.first_mono (by omega)).trans hA))
    fun _ => Sync.pure fun _ _ h => h

theorem outputVad_sync (hout₁ : s.outChannels = 1) (hA : b.first (2 * n) ⊆ A) :
    Sync (Alike s size c A) (outputVad E b n) fun _ => Alike s size c A := by
  have hle := vadExtent_le_of_one hout₁ n
  refine Sync.bind getSession_sync fun s' => Sync.assume fun hs' => ?_
  rw [hs'.outChannels]
  exact Sync.ite (fun _ => runVad_sync ((b.first_mono (by omega)).trans hA))
    fun _ => Sync.pure fun _ _ h => h

theorem resampleStep_sync_id (h : s.needsResample = false) :
    Sync (Alike s size c A) (resampleStep E b n)
      fun o w w' => o = some (b, n) ∧ Alike s size c A w w' := by
  refine Sync.bind getSession_sync fun s' => Sync.assume fun hs' => ?_
  rw [hs'.needsResample, h]
  exact Sync.pure fun _ _ h => ⟨rfl, h⟩

variable (hpos : 0 < size) (hsize : size < 2 ^ 31) (hc : c ≤ size)

include hpos hsize hc

theorem resampleStep_sync_none (h : s.needsResample = true) (hn : n ≤ 2 ^ 20)
    (hb : bump size c (s.resampledSize n) = none) :
    Sync (Alike s size c A) (resampleStep E b n)
      fun o w w' => o = none ∧ Alike s size c A w w' := by
  refine Sync.bind getSession_sync fun s' => Sync.assume fun hs' => ?_
  rw [hs'.needsResample, h, if_pos rfl, hs'.inSampleRate, hs'.outSampleRate, hs'.outChannels]
  refine Sync.bindVal divide_sync (Sync.bindVal
    (alloc_sync_none hpos (by omega) hc (resampledSize_lt hn) hb) ?_)
  exact Sync.pure fun _ _ h => ⟨rfl, h⟩

/-- The resampled samples: the runs agree on them, since they agree on the input and on the
resampler. -/
theorem resampleStep_sync_some (h : s.needsResample = true) (hn : n ≤ 2 ^ 20)
    (hA : b.first (2 * n) ⊆ A) {c' : ℕ} (hb : bump size c (s.resampledSize n) = some c') :
    Sync (Alike s size c A) (resampleStep E b n)
      fun o w w' => o = some (⟨(c + 7) / 8 * 8, s.resampledSize n⟩, s.resampledCount E n) ∧
        Alike s size c' (Block.first ⟨(c + 7) / 8 * 8, s.resampledSize n⟩
          (2 * s.resampledCount E n)) w w' := by
  refine Sync.bind getSession_sync fun s' => Sync.assume fun hs' => ?_
  rw [hs'.needsResample, h, if_pos rfl, hs'.inSampleRate, hs'.outSampleRate, hs'.outChannels]
  refine Sync.bindVal divide_sync (Sync.bindVal
    (alloc_sync_some hpos (by omega) hc (resampledSize_lt hn) hb) ?_)
  refine Sync.bind (loadSamples_sync hA) fun pcm => Sync.assume fun hpcm => ?_
  have hlen : (resampleL16Advanced E s'.resampler s.inSampleRate s.outSampleRate pcm
      (n * s.outSampleRate.toNat / s.inSampleRate.toNat + 128)).1.length =
        s.resampledCount E n := by
    rw [length_resampleL16Advanced, hpcm]
    rfl
  apply Sync.bind (storeSamples_sync hlen)
  intro _
  rw [hlen]
  refine Sync.bind (setSession_sync
    ⟨hs'.1, hs'.2, rfl, hs'.4, rfl, rfl, h.symm, hs'.8, hs'.9⟩) fun _ => ?_
  exact Sync.pure fun _ _ h => ⟨rfl, h.mono Set.subset_union_right⟩

omit hpos hsize hc in
theorem moveToStart_sync {lo : ℕ} (hA : b.first n ⊆ A) :
    Sync (Alike s size c A) (moveToStart lo b n)
      fun _ => Alike s size (lo + n) (A ∪ Set.Ico lo (lo + n)) := by
  refine Sync.bind (loadBytes_sync hA) fun bs => Sync.assume fun hbs => ?_
  exact Sync.bindVal getCurr_sync (Sync.bind (storeBytes_sync hbs) fun _ => setCurr_sync _)

end process

/-! ### The whole call -/

/-- What is seen of two calls that return `code`, for a request that starts at `lo`: the
session, and after a success the bytes from `lo` to the cursor. -/
structure Answered (lo : ℕ) (code : ℤ) (w w' : Work H) : Prop where
  session : w'.session = w.session
  output : code = 0 → w'.arena.curr = w.arena.curr ∧
    Set.EqOn w'.arena.buf w.arena.buf (Set.Ico lo w.arena.curr)

theorem Alike.answered {lo : ℕ} {code : ℤ} {w w' : Work H} (h : Alike s size c A w w')
    (hA : Set.Ico lo c ⊆ A) : Answered lo code w w' :=
  ⟨h.session, fun _ => ⟨h.right.curr.trans h.left.curr.symm, by
    rw [h.left.curr]
    exact h.buf.mono hA⟩⟩

theorem Alike.refused {lo : ℕ} {w w' : Work H} (h : Alike s size c A w w') :
    Answered lo (-1) w w' := ⟨h.session, fun h => absurd h (by decide)⟩

section whole
variable {b : Block} {n lo : ℕ} (hpos : 0 < size) (hsize : size ≤ 2 ^ 20) (hc : c ≤ size)

include hpos hsize hc

theorem encodeG711_sync {encode : List Int16 → List UInt8}
    (henc : ∀ xs, (encode xs).length = xs.length) (hn : n < 2 ^ 62)
    (hA : b.first (2 * n) ⊆ A) :
    Sync (Alike s size c A) (encodeG711 encode lo b n) (Answered lo) := by
  cases hb : bump size c n with
  | none =>
      exact Sync.bindVal (alloc_sync_none hpos (by omega) hc hn hb)
        (Sync.pure fun _ _ h => h.refused)
  | some c' =>
      apply Sync.bindVal (alloc_sync_some hpos (by omega) hc hn hb)
      refine Sync.bind (loadSamples_sync hA) fun pcm => Sync.assume fun hpcm => ?_
      apply Sync.bind (storeBytes_sync ((henc pcm).trans hpcm))
      intro _
      exact Sync.bind (moveToStart_sync Set.subset_union_right) fun _ =>
        Sync.pure fun _ _ h => h.answered Set.subset_union_right

omit hpos hsize hc in
theorem encodeL16_sync (hout₁ : s.outChannels = 1) (hA : b.first (2 * n) ⊆ A) :
    Sync (Alike s size c A) (encodeL16 lo b n) (Answered lo) := by
  refine Sync.bind getSession_sync fun s' => Sync.assume fun hs' => ?_
  rw [hs'.outChannels, hout₁, UInt8.toNat_one, Nat.mul_one]
  have hmove : Sync (Alike s size c A) (do moveToStart lo b (n * 2); return (0 : ℤ))
      (Answered lo) :=
    Sync.bind (moveToStart_sync ((b.first_mono (by omega)).trans hA)) fun _ =>
      Sync.pure fun _ _ h => h.answered Set.subset_union_right
  dsimp only
  split_ifs
  · exact Sync.bind (swapEndianL16_sync hA) fun _ => hmove
  · exact hmove

theorem encodeStep_sync (hout₁ : s.outChannels = 1) (hn : n < 2 ^ 62) (hA : b.first (2 * n) ⊆ A)
    (hall : ¬IsKnownCodec s.outPayloadType → Set.Ico lo c ⊆ A) :
    Sync (Alike s size c A) (encodeStep lo b n) (Answered lo) := by
  refine Sync.bind getSession_sync fun s' => Sync.assume fun hs' => ?_
  rw [hs'.outPayloadType]
  split_ifs with h₁ h₂ h₃
  · exact encodeG711_sync hpos hsize hc length_transcodeL16ToPcmu hn hA
  · exact encodeG711_sync hpos hsize hc length_transcodeL16ToPcma hn hA
  · exact encodeL16_sync hout₁ hA
  · have hno : ¬IsKnownCodec s.outPayloadType := by
      rintro (h | h | h)
      · exact h₁ h
      · exact h₂ h
      · exact h₃ h
    exact Sync.pure fun _ _ h => h.answered (hall hno)

/-- Everything behind the mixing. -/
theorem processMixed_sync (hin₁ : s.inChannels = 1) (hout₁ : s.outChannels = 1)
    (hn : n ≤ 2 ^ 20) (hA : b.first (2 * n) ⊆ A)
    (hall : ¬IsKnownCodec s.outPayloadType → s.needsResample = false ∧ Set.Ico lo c ⊆ A) :
    Sync (Alike s size c A) (processMixed E lo b n) (Answered lo) := by
  apply Sync.bind (inputVad_sync hin₁ hA)
  intro _
  cases hres : s.needsResample with
  | false =>
      apply Sync.bindVal (resampleStep_sync_id hres)
      exact Sync.bind (outputVad_sync hout₁ hA) fun _ =>
        encodeStep_sync hpos hsize hc hout₁ (by omega) hA fun h => (hall h).2
  | true =>
      have hknown : IsKnownCodec s.outPayloadType := by
        by_contra h
        cases (hall h).1.symm.trans hres
      cases hb : bump size c (s.resampledSize n) with
      | none =>
          exact Sync.bindVal (resampleStep_sync_none hpos (by omega) hc hres hn hb)
            (Sync.pure fun _ _ h => h.refused)
      | some c' =>
          obtain ⟨h₁, h₂, h₃⟩ := bump_eq_some hb
          have hcount : s.resampledCount E n < 2 ^ 62 := resampledCount_lt hn
          apply Sync.bindVal (resampleStep_sync_some hpos (by omega) hc hres hn hA hb)
          exact Sync.bind (outputVad_sync hout₁ le_rfl) fun _ =>
            encodeStep_sync hpos hsize h₃ hout₁ hcount le_rfl fun h => absurd hknown h

end whole

/-- **A request that writes what it reads is answered the same, whatever the arena holds.** -/
theorem audioProcessTranscode_sync {curr : ℕ} {payload : List UInt8} {len curr₁ : ℕ}
    (hpos : 0 < size) (hsize : size ≤ 2 ^ 20) (hcurr : curr ≤ size)
    (hpay : payload.length < 2 ^ 31) (hin₁ : s.inChannels = 1) (hout₁ : s.outChannels = 1)
    (hd : Decodes s size curr payload len curr₁) (hw : Written s size curr payload) :
    Sync (Alike s size curr ∅) (audioProcessTranscode E payload) (Answered curr) := by
  obtain ⟨lens, hl, hk, hb, hn⟩ := id hd
  have h0 : ntohl payload 0 ≠ 0 := by
    intro h0
    rw [bufferLengths, h0] at hl
    cases hl
  have h16 : ∀ len' ∈ len :: lens, s.inPayloadType ≠ codecL16 → len' % 16 = 0 :=
    fun len' hmem hne => hw.decoded len curr₁ hd hne len' (hl ▸ hmem)
  obtain ⟨-, h₂, h₃⟩ := bumps_cons hb
  have hsamples := two_mul_decodedSamples_le s len
  apply Sync.bindVal getCurr_sync
  dsimp only
  rw [if_neg h0]
  apply Sync.bindVal (mixInputs_sync hin₁ hpos (by omega) hpay hk hcurr hl h16 hb)
  dsimp only
  rw [if_neg (by omega)]
  refine processMixed_sync E hpos hsize h₃ hin₁ hout₁ (by omega) ?_ fun hno => ?_
  · exact (Block.first_mono _ hsamples).trans Set.subset_union_left
  · rw [← hl]
    exact hw.output len curr₁ hd hno

end MachAudio
