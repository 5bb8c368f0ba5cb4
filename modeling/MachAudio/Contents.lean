import MachAudio.Footprint
import MachAudio.Samples

/-! # What the steps leave in memory

The assertion `Contents` says what the arena's memory holds, and every function of the pipeline
but the resampler gets the rule for it: which samples a decoded buffer has, what the mixer
leaves, and which bytes the encoding puts at the start of the request. -/

namespace MachAudio

open ByteMem Exec Simd

variable {H Φ : Type} {E : Env H Φ}

/-! ### The assertion -/

/-- Sessions that differ at most in what the voice detector writes. -/
def SameSetup (s s' : TranscodeSession H) : Prop :=
  ∃ v p, s' = { s with vadState := v, lastVadProb := p }

theorem SameSetup.refl (s : TranscodeSession H) : SameSetup s s := ⟨_, _, rfl⟩

/-- The session up to the voice detector, the size and the cursor of the arena, and a property
of its memory. -/
structure Contents (s : TranscodeSession H) (size c : ℕ) (M : Mem → Prop) (w : Work H) :
    Prop where
  setup : SameSetup s w.session
  size : w.arena.size = size
  curr : w.arena.curr = c
  mem : M w.arena.buf

variable {s : TranscodeSession H} {size c : ℕ} {M M' : Mem → Prop}

theorem Contents.imp {w : Work H} (hw : Contents s size c M w) (h : ∀ m, M m → M' m) :
    Contents s size c M' w := ⟨hw.setup, hw.size, hw.curr, h _ hw.mem⟩

/-- A step is followed from every memory on its own. -/
theorem returns_of_mem {α : Type} {x : Pipe H α} {v : α} {Q : Work H → Prop}
    (h : ∀ m, M m → Returns (Contents s size c (Eq m)) x v Q) :
    Returns (Contents s size c M) x v Q :=
  fun w hw => h _ hw.mem w ⟨hw.setup, hw.size, hw.curr, rfl⟩

/-! ### The primitives -/

theorem note_contents (e : Event) :
    Returns (Contents s size c M) (note e) () (Contents s size c M) :=
  fun _ h => ⟨rfl, h.setup, h.size, h.curr, h.mem⟩

theorem divide_contents (a b : ℕ) :
    Returns (Contents s size c M) (divide a b) (a / b) (Contents s size c M) :=
  fun _ h => ⟨rfl, h.setup, h.size, h.curr, h.mem⟩

theorem getSession_contents :
    Sat (Contents s size c M) getSession (fun s' w => SameSetup s s' ∧ Contents s size c M w) :=
  fun _ h => ⟨h.setup, h⟩

theorem getCurr_contents : Returns (Contents s size c M) getCurr c (Contents s size c M) :=
  fun _ h => ⟨h.curr, h⟩

theorem setSession_contents {s' : TranscodeSession H} (hs : SameSetup s s') :
    Returns (Contents s size c M) (setSession s') () (Contents s size c M) :=
  fun _ h => ⟨rfl, hs, h.size, h.curr, h.mem⟩

theorem loadBytes_contents {b : Block} {off n : ℕ} {bs : List UInt8}
    (h : ∀ m, M m → m.load (b.start + off) n = bs) :
    Returns (Contents s size c M) (loadBytes b off n) bs (Contents s size c M) :=
  fun _ hw => ⟨h _ hw.mem, hw.setup, hw.size, hw.curr, hw.mem⟩

theorem storeBytes_contents {b : Block} {off : ℕ} {bs : List UInt8}
    (h : ∀ m, M m → M' (m.store (b.start + off) bs)) :
    Returns (Contents s size c M) (storeBytes b off bs) () (Contents s size c M') :=
  fun _ hw => ⟨rfl, hw.setup, hw.size, hw.curr, h _ hw.mem⟩

/-- The bytes just written. -/
theorem storeBytes_written (b : Block) (bs : List UInt8) :
    Returns (Contents s size c M) (storeBytes b 0 bs) ()
      (Contents s size c fun m => m.load b.start bs.length = bs) :=
  storeBytes_contents fun m _ => load_store_same m b.start bs

theorem loadSamples_contents {b : Block} {i n : ℕ} {xs : List Int16}
    (h : ∀ m, M m → m.samples (b.start + 2 * i) n = xs) :
    Returns (Contents s size c M) (loadSamples b i n) xs (Contents s size c M) :=
  fun _ hw => ⟨h _ hw.mem, hw.setup, hw.size, hw.curr, hw.mem⟩

theorem storeSamples_contents {b : Block} {i : ℕ} {xs : List Int16}
    (h : ∀ m, M m → M' (m.store (b.start + 2 * i) (toBytes xs))) :
    Returns (Contents s size c M) (storeSamples b i xs) () (Contents s size c M') :=
  storeBytes_contents h

theorem loadSamples_exact (m : Mem) (b : Block) (i n : ℕ) :
    Returns (Contents s size c (Eq m)) (loadSamples b i n) (m.samples (b.start + 2 * i) n)
      (Contents s size c (Eq m)) :=
  loadSamples_contents fun _ e => by rw [e]

theorem storeSamples_exact (m : Mem) (b : Block) (i : ℕ) (xs : List Int16) :
    Returns (Contents s size c (Eq m)) (storeSamples b i xs) ()
      (Contents s size c (Eq (m.store (b.start + 2 * i) (toBytes xs)))) :=
  storeSamples_contents fun _ e => by rw [e]

/-- A block that fits is taken behind the cursor. -/
theorem alloc_contents {n : ℕ} (hsize : size < 2 ^ 62) (hn : 0 < size)
    (hfit : (c + 7) / 8 * 8 + n ≤ size) :
    Returns (Contents s size c M) (alloc n) (some ⟨(c + 7) / 8 * 8, n⟩)
      (Contents s size ((c + 7) / 8 * 8 + n) M) := by
  intro w hw
  rw [alloc_apply, arenaAlloc_eq (by rw [hw.size]; exact hn) (by rw [hw.size]; exact hsize)
    (by rw [hw.size, hw.curr]; omega) (by omega), hw.curr, hw.size, if_pos hfit]
  exact ⟨rfl, hw.setup, rfl, rfl, hw.mem⟩

/-! ### Mixing -/

/-- The `n` samples at `b` mixed into those at `a`. -/
def mixedAt (m : Mem) (a b n : ℕ) : List Int16 :=
  List.zipWith mixSample (m.samples a n) (m.samples b n)

@[simp] theorem length_mixedAt (m : Mem) (a b n : ℕ) : (mixedAt m a b n).length = n := by
  unfold mixedAt
  rw [List.length_zipWith, length_samples, length_samples, Nat.min_self]

theorem mixedAt_add (m : Mem) (a b k n : ℕ) :
    mixedAt m a b (k + n) = mixedAt m a b k ++ mixedAt m (a + 2 * k) (b + 2 * k) n := by
  unfold mixedAt
  rw [samples_add, samples_add, List.zipWith_append (by rw [length_samples, length_samples])]

/-- Reading `n` samples at `a` one after the other while writing as many at `out`: what is read
has not been written before. -/
def ReadsAhead (out a n : ℕ) : Prop := out ≤ a ∨ a + 2 * n ≤ out

theorem samples_store_ahead (m : Mem) {out a k n : ℕ} (h : ReadsAhead out a (k + n))
    {xs : List Int16} (hxs : xs.length = k) :
    (m.store out (toBytes xs)).samples (a + 2 * k) n = m.samples (a + 2 * k) n := by
  apply samples_store_disjoint
  rw [length_toBytes, hxs]
  rcases h with h | h
  · exact .inr (by omega)
  · exact .inl (by omega)

/-- The first `k` samples mixed and then the next `n`, that is `k + n` samples mixed. -/
theorem store_mixedAt (m : Mem) {a b out k n : ℕ} (ha : ReadsAhead out a (k + n))
    (hb : ReadsAhead out b (k + n)) {m' : Mem} (hm : m' = m.store out (toBytes (mixedAt m a b k))) :
    m'.store (out + 2 * k) (toBytes (mixedAt m' (a + 2 * k) (b + 2 * k) n)) =
      m.store out (toBytes (mixedAt m a b (k + n))) := by
  have hrest : mixedAt m' (a + 2 * k) (b + 2 * k) n = mixedAt m (a + 2 * k) (b + 2 * k) n := by
    unfold mixedAt
    rw [hm, samples_store_ahead m ha (length_mixedAt m a b k),
      samples_store_ahead m hb (length_mixedAt m a b k)]
  have hlen : out + 2 * k = out + (toBytes (mixedAt m a b k)).length := by
    rw [length_toBytes, length_mixedAt]
  rw [hrest, hm, hlen, store_append, ← toBytes_append, ← mixedAt_add]

theorem ReadsAhead.tail {out a k n : ℕ} (h : ReadsAhead out a (k + n)) :
    ReadsAhead (out + 2 * k) (a + 2 * k) n := by
  unfold ReadsAhead at h ⊢
  omega

@[simp] theorem mixedAt_zero (m : Mem) (a b : ℕ) : mixedAt m a b 0 = [] := rfl

theorem ReadsAhead.front {out a k n : ℕ} (h : ReadsAhead out a (k + n)) : ReadsAhead out a k := by
  unfold ReadsAhead at h ⊢
  omega

section mix
variable {inA inB out : Block}

theorem mixBlocks_contents (n i : ℕ) (m : Mem)
    (ha : ReadsAhead (out.start + 2 * i) (inA.start + 2 * i) (n * 16))
    (hb : ReadsAhead (out.start + 2 * i) (inB.start + 2 * i) (n * 16)) :
    Returns (Contents s size c (Eq m)) (mixBlocks inA inB out n i) ()
      (Contents s size c (Eq (m.store (out.start + 2 * i)
        (toBytes (mixedAt m (inA.start + 2 * i) (inB.start + 2 * i) (n * 16)))))) := by
  induction n generalizing i m with
  | zero =>
      rw [Nat.zero_mul, mixedAt_zero, toBytes_nil, store_nil]
      exact Returns.pure fun _ h => h
  | succ n ih =>
      have e : (n + 1) * 16 = 16 + n * 16 := by omega
      rw [e] at ha hb ⊢
      rw [← store_mixedAt m ha hb rfl]
      exact Returns.bind (loadSamples_exact m _ _ _) <| Returns.bind (loadSamples_exact m _ _ _) <|
        Returns.bind (storeSamples_exact m _ _ _) (ih (i + 16) _ ha.tail hb.tail)

theorem mixTail_contents (n i : ℕ) (m : Mem)
    (ha : ReadsAhead (out.start + 2 * i) (inA.start + 2 * i) n)
    (hb : ReadsAhead (out.start + 2 * i) (inB.start + 2 * i) n) :
    Returns (Contents s size c (Eq m)) (mixTail inA inB out n i) ()
      (Contents s size c (Eq (m.store (out.start + 2 * i)
        (toBytes (mixedAt m (inA.start + 2 * i) (inB.start + 2 * i) n))))) := by
  induction n generalizing i m with
  | zero =>
      rw [mixedAt_zero, toBytes_nil, store_nil]
      exact Returns.pure fun _ h => h
  | succ n ih =>
      have hclamp : clampAddInt16 = mixSample := funext₂ clampAddInt16_eq
      rw [Nat.add_comm n 1] at ha hb
      rw [mixTail, hclamp, Nat.add_comm n 1, ← store_mixedAt m ha hb rfl]
      exact Returns.bind (loadSamples_exact m _ _ _) <| Returns.bind (loadSamples_exact m _ _ _) <|
        Returns.bind (storeSamples_exact m _ _ _) (ih (i + 1) _ ha.tail hb.tail)

/-- **The mixer.**  The output gets the clamped sums of the samples its two inputs had before,
also where it is one of them. -/
theorem mixL16Avx2_contents (n : ℕ) (m : Mem) (ha : ReadsAhead out.start inA.start n)
    (hb : ReadsAhead out.start inB.start n) :
    Returns (Contents s size c (Eq m)) (mixL16Avx2 inA inB out n) ()
      (Contents s size c (Eq (m.store out.start
        (toBytes (mixedAt m inA.start inB.start n))))) := by
  obtain ⟨q, r, hq, hr, hn⟩ : ∃ q r, n / 16 = q ∧ n - q * 16 = r ∧ n = q * 16 + r :=
    ⟨_, _, rfl, rfl, by omega⟩
  unfold mixL16Avx2
  dsimp only
  rw [hq, hr]
  rw [hn] at ha hb ⊢
  rw [← store_mixedAt m ha hb rfl]
  exact Returns.bind (mixBlocks_contents q 0 m ha.front hb.front)
    (mixTail_contents r (q * 16) _ ha.tail hb.tail)

/-- The mixer's effect on the memory. -/
theorem mixL16Avx2_buf (w : Work H) (n : ℕ) (ha : ReadsAhead out.start inA.start n)
    (hb : ReadsAhead out.start inB.start n) :
    (mixL16Avx2 inA inB out n w).2.arena.buf =
      w.arena.buf.store out.start (toBytes (mixedAt w.arena.buf inA.start inB.start n)) :=
  ((mixL16Avx2_contents n w.arena.buf ha hb) w ⟨.refl _, rfl, rfl, rfl⟩).2.mem.symm

end mix

/-! ### Decoding -/

theorem swapEndianL16_contents (m : Mem) (b : Block) (n : ℕ) :
    Returns (Contents s size c (Eq m)) (swapEndianL16 b n) ()
      (Contents s size c (Eq (m.store b.start (toBytes ((m.samples b.start n).map swapSample))))) :=
  Returns.bind (loadSamples_exact m b 0 n) (storeSamples_exact m b 0 _)

/-- `m'` has the samples `xs` at `a`, and below `a` it is `m`. -/
def Appended (m : Mem) (a : ℕ) (xs : List Int16) (m' : Mem) : Prop :=
  Set.EqOn m' m (Set.Iio a) ∧ m'.samples a xs.length = xs

theorem appended_store (m : Mem) (a : ℕ) (xs : List Int16) :
    Appended m a xs (m.store a (toBytes xs)) :=
  ⟨fun _ hx => store_below _ _ hx, samples_store_same m a xs⟩

theorem appended_storeBytes (m : Mem) (a : ℕ) {bs : List UInt8} {k : ℕ} (h : 2 * k ≤ bs.length) :
    Appended m a ((ofBytes bs).take k) (m.store a bs) := by
  have hk : ((ofBytes bs).take k).length = k := by
    rw [List.length_take, length_ofBytes]
    omega
  refine ⟨fun _ hx => store_below _ _ hx, ?_⟩
  have hin : (m.store a bs).load (a + 0) (2 * k) = (bs.drop 0).take (2 * k) :=
    load_store_inside m (by omega)
  rw [Nat.add_zero, List.drop_zero] at hin
  rw [hk, Mem.samples, hin, ofBytes_take]

/-- The samples exchanged in place. -/
theorem Appended.swap {m m' : Mem} {a : ℕ} {xs : List Int16} (h : Appended m a xs m') :
    Appended m a (xs.map swapSample)
      (m'.store a (toBytes ((m'.samples a xs.length).map swapSample))) := by
  obtain ⟨h₁, h₂⟩ := appended_store m' a (xs.map swapSample)
  rw [h.2]
  exact ⟨fun x hx => (h₁ hx).trans (h.1 hx), h₂⟩

/-- The samples of a decoded block. -/
def TranscodeSession.decodedElements (s : TranscodeSession H) (len : ℕ) : ℕ :=
  if s.inPayloadType = codecL16 then len / (2 * s.inChannels.toNat) * s.inChannels.toNat else len

/-- The bytes are exchanged exactly for L16 in big-endian order. -/
structure SwapFlags (s : TranscodeSession H) : Prop where
  swapIn : s.swapIn = (s.inPayloadType == codecL16 && s.inEndian == endianBig)
  swapOut : s.swapOut = (s.outPayloadType == codecL16 && s.outEndian == endianBig)

section decode
variable {payload : List UInt8} {dataOff len : ℕ} {data : List UInt8}
  (hdata : (payload.drop dataOff).take len = data) (hlen : data.length = len)
  (hsize : size < 2 ^ 62) (hpos : 0 < size)

include hdata hlen hsize hpos

omit hlen in
theorem decodeG711_contents {decode : List UInt8 → Option (List Int16)} {xs : List Int16}
    (hxs : decode data = some xs) (hfit : (c + 7) / 8 * 8 + len * 2 ≤ size) (m : Mem) :
    Returns (Contents s size c (Eq m)) (decodeG711 decode payload dataOff len)
      (some (⟨(c + 7) / 8 * 8, len * 2⟩, len))
      (Contents s size ((c + 7) / 8 * 8 + len * 2) (Appended m ((c + 7) / 8 * 8) xs)) := by
  apply Returns.bind (alloc_contents hsize hpos hfit)
  dsimp only
  rw [hdata, hxs]
  apply Returns.bind (Returns.bind (note_contents _) (storeSamples_exact m _ 0 _))
  refine Returns.pure fun w hw => hw.imp fun m' e => ?_
  rw [← e]
  exact appended_store _ _ _

theorem decodeL16_contents (hsw : SwapFlags s) (hin : s.inPayloadType = codecL16)
    (hfit : (c + 7) / 8 * 8 + len ≤ size) (m : Mem) :
    Returns (Contents s size c (Eq m)) (decodeL16 payload dataOff len)
      (some (⟨(c + 7) / 8 * 8, len⟩, len / (2 * s.inChannels.toNat)))
      (Contents s size ((c + 7) / 8 * 8 + len) (Appended m ((c + 7) / 8 * 8)
        ((decodeSamples s.inPayloadType s.inEndian data).take (s.decodedElements len)))) := by
  have hle : 2 * (s.decodedElements len) ≤ data.length := by
    unfold TranscodeSession.decodedElements
    rw [if_pos hin, hlen]
    calc 2 * (len / (2 * s.inChannels.toNat) * s.inChannels.toNat)
        = len / (2 * s.inChannels.toNat) * (2 * s.inChannels.toNat) := by ring
      _ ≤ len := Nat.div_mul_le_self _ _
  unfold decodeL16
  refine Returns.bindSat getSession_contents fun s' => Returns.assume ?_
  rintro ⟨v, p, rfl⟩
  dsimp only
  apply Returns.bind (divide_contents _ _)
  apply Returns.bind (alloc_contents hsize hpos hfit)
  apply Returns.bind (note_contents _)
  rw [hdata]
  have hcount : s.decodedElements len = len / (2 * s.inChannels.toNat) * s.inChannels.toNat :=
    if_pos hin
  have hbs : ((ofBytes data).take (s.decodedElements len)).length = s.decodedElements len := by
    rw [List.length_take, length_ofBytes]
    omega
  have hstore : ∀ m', m = m' → Appended m ((c + 7) / 8 * 8)
      ((ofBytes data).take (s.decodedElements len)) (m'.store ((c + 7) / 8 * 8 + 0) data) := by
    rintro m' rfl
    exact appended_storeBytes m ((c + 7) / 8 * 8) hle
  apply Returns.bind (storeBytes_contents hstore)
  rw [hsw.swapIn, hin, decodeSamples_l16]
  by_cases hend : s.inEndian = endianBig
  · rw [if_pos hend, hend, if_pos (by rfl)]
    refine Returns.bind (?_ : Returns _ _ () _) (Returns.pure fun _ h => h)
    apply returns_of_mem
    intro m' hm'
    refine (swapEndianL16_contents m' _ _).post fun w hw => hw.imp ?_
    rintro m'' rfl
    have hswap := hm'.swap
    rw [hbs, List.map_take, map_swapSample_ofBytes] at hswap
    rw [← hcount]
    exact hswap
  · rw [if_neg hend, if_neg (by simp [hend])]
    exact Returns.pure fun _ h => h

/-- A buffer decoded into a new block: its whole samples. -/
theorem decodeBuffer_contents (hsw : SwapFlags s) (hk : IsKnownCodec s.inPayloadType)
    (h16 : s.inPayloadType ≠ codecL16 → len % 16 = 0)
    (hfit : (c + 7) / 8 * 8 + s.blockSize len ≤ size) (m : Mem) :
    Returns (Contents s size c (Eq m)) (decodeBuffer payload dataOff len)
      (some (⟨(c + 7) / 8 * 8, s.blockSize len⟩, s.decodedSamples len))
      (Contents s size ((c + 7) / 8 * 8 + s.blockSize len) (Appended m ((c + 7) / 8 * 8)
        ((decodeSamples s.inPayloadType s.inEndian data).take (s.decodedElements len)))) := by
  unfold decodeBuffer
  refine Returns.bindSat getSession_contents fun s' => Returns.assume ?_
  rintro ⟨v, p, rfl⟩
  dsimp only
  rcases hk with hin | hin | hin
  · unfold TranscodeSession.blockSize TranscodeSession.decodedSamples
      TranscodeSession.decodedElements at *
    rw [hin] at h16
    simp only [hin, decodeSamples_pcmu, if_neg pcmu_ne_l16, if_true, ← hlen, ← List.map_take,
      List.take_length] at hfit ⊢
    exact decodeG711_contents (hlen ▸ hdata) hsize hpos
      (transcodeG711ToL16_eq (by rw [hlen]; exact h16 pcmu_ne_l16)) hfit m
  · unfold TranscodeSession.blockSize TranscodeSession.decodedSamples
      TranscodeSession.decodedElements at *
    rw [hin] at h16
    simp only [hin, decodeSamples_pcma, if_neg pcma_ne_l16, if_neg pcma_ne_pcmu, if_true, ← hlen,
      ← List.map_take, List.take_length] at hfit ⊢
    exact decodeG711_contents (hlen ▸ hdata) hsize hpos
      (transcodeG711ToL16_eq (by rw [hlen]; exact h16 pcma_ne_l16)) hfit m
  · unfold TranscodeSession.blockSize TranscodeSession.decodedSamples at *
    rw [if_pos hin] at hfit
    rw [if_neg (by rw [hin]; exact pcmu_ne_l16.symm),
      if_neg (by rw [hin]; exact pcma_ne_l16.symm), if_pos hin, if_pos hin, if_pos hin]
    exact decodeL16_contents hdata hlen hsize hpos hsw hin hfit m

end decode

/-! ### Mixing a buffer into the first -/

theorem take_samples (m : Mem) (a : ℕ) {k n : ℕ} (h : k ≤ n) :
    (m.samples a n).take k = m.samples a k := by
  obtain ⟨j, rfl⟩ := Nat.exists_eq_add_of_le h
  rw [samples_add, List.take_left' (length_samples _ _ _)]

/-- Samples mixed in place, as far as the shorter of two lists reaches. -/
theorem samples_store_mixedAt {m : Mem} {a b : ℕ} {xs ys : List Int16}
    (hx : m.samples a xs.length = xs) (hy : m.samples b ys.length = ys) :
    (m.store a (toBytes (mixedAt m a b (min ys.length xs.length)))).samples a xs.length =
      mixSamples xs ys := by
  have htake : mixedAt m a b (min ys.length xs.length) = List.zipWith mixSample xs ys := by
    unfold mixedAt
    rw [← take_samples m a (Nat.min_le_right _ _), ← take_samples m b (Nat.min_le_left _ _), hx, hy,
      ← List.take_zipWith, List.take_of_length_le (by rw [List.length_zipWith]; omega)]
  have hdrop : xs.drop (min ys.length xs.length) = xs.drop ys.length := by
    rcases Nat.le_total ys.length xs.length with h | h
    · rw [Nat.min_eq_left h]
    · rw [Nat.min_eq_right h, List.drop_length, List.drop_eq_nil_of_le h]
  rw [samples_store_front _ _ _ _ (by rw [length_mixedAt]; omega), length_mixedAt, hx, hdrop, htake]
  rfl

/-- The first buffer is kept as it is. -/
theorem mixInto_none_contents (decoded : Block × ℕ) :
    Returns (Contents s size c M) (mixInto none decoded) decoded (Contents s size c M) :=
  Returns.bindSat getSession_contents fun _ => Returns.assume fun _ => Returns.pure fun _ h => h

theorem mixInto_contents (h1 : s.inChannels = 1) {b₀ b : Block} {xs ys : List Int16} {m : Mem}
    (hx : m.samples b₀.start xs.length = xs) (hy : m.samples b.start ys.length = ys)
    (hdis : b₀.start + 2 * xs.length ≤ b.start) :
    Returns (Contents s size c (Eq m)) (mixInto (some (b₀, xs.length)) (b, ys.length))
      (b₀, xs.length)
      (Contents s size c fun m' => m'.samples b₀.start xs.length = mixSamples xs ys) := by
  unfold mixInto
  refine Returns.bindSat getSession_contents fun s' => Returns.assume ?_
  rintro ⟨v, p, rfl⟩
  have hmin : (if ys.length < xs.length then ys.length else xs.length) =
      min ys.length xs.length := by
    split_ifs <;> omega
  have h1' : s.inChannels.toNat = 1 := by rw [h1]; rfl
  dsimp only
  rw [hmin, h1', Nat.mul_one]
  refine Returns.bind (mixL16Avx2_contents _ m (.inl (Nat.le_refl _)) (.inl (by omega)))
    (Returns.pure fun w hw => hw.imp ?_)
  rintro m' rfl
  exact samples_store_mixedAt hx hy

/-! ### The voice detector and the encoding -/

theorem runVad_contents (b : Block) (n channels : ℕ) :
    Returns (Contents s size c M) (runVad E b n channels) () (Contents s size c M) := by
  unfold runVad
  refine Returns.bindSat getSession_contents fun s' => Returns.assume ?_
  rintro ⟨v, p, rfl⟩
  cases v with
  | none => exact Returns.pure fun _ h => h
  | some state =>
      exact returns_of_mem fun m hm => Returns.bind (loadSamples_exact m _ _ _)
        ((setSession_contents ⟨_, _, rfl⟩).post fun w hw => hw.imp fun m' e => e ▸ hm)

theorem inputVad_contents (b : Block) (n : ℕ) :
    Returns (Contents s size c M) (inputVad E b n) () (Contents s size c M) := by
  unfold inputVad
  refine Returns.bindSat getSession_contents fun s' => Returns.assume ?_
  rintro ⟨v, p, rfl⟩
  apply Returns.bind (setSession_contents ⟨_, _, rfl⟩)
  split_ifs
  · exact runVad_contents b n _
  · exact Returns.pure fun _ h => h

theorem outputVad_contents (b : Block) (n : ℕ) :
    Returns (Contents s size c M) (outputVad E b n) () (Contents s size c M) := by
  unfold outputVad
  refine Returns.bindSat getSession_contents fun s' => Returns.assume ?_
  rintro ⟨v, p, rfl⟩
  split_ifs
  · exact runVad_contents b n _
  · exact Returns.pure fun _ h => h

/-- Nothing is resampled. -/
theorem resampleStep_contents (h : s.needsResample = false) (b : Block) (n : ℕ) :
    Returns (Contents s size c M) (resampleStep E b n) (some (b, n)) (Contents s size c M) := by
  unfold resampleStep
  refine Returns.bindSat getSession_contents fun s' => Returns.assume ?_
  rintro ⟨v, p, rfl⟩
  dsimp only
  rw [h]
  exact Returns.pure fun _ h => h

/-- Bytes moved to the start of the request, also over themselves. -/
theorem moveToStart_contents (lo : ℕ) (src : Block) (bs : List UInt8) :
    Returns (Contents s size c fun m => m.load src.start bs.length = bs)
      (moveToStart lo src bs.length) ()
      (Contents s size (lo + bs.length) fun m => m.load lo bs.length = bs) := by
  refine Returns.bind (loadBytes_contents fun m hm => hm) ?_
  refine Returns.bindSat (Q := fun curr w => Contents s size c (fun _ => True) w)
    (fun w hw => hw.imp fun _ _ => trivial) fun curr => ?_
  apply Returns.bind (storeBytes_written _ bs)
  exact fun w hw => ⟨rfl, hw.setup, hw.size, rfl, hw.mem⟩

/-- The elements of a block that the encoding of `n` samples reads. -/
def TranscodeSession.encodedElements (s : TranscodeSession H) (n : ℕ) : ℕ :=
  if s.outPayloadType = codecL16 then n * s.outChannels.toNat else n

section encode
variable {b : Block} {xs : List Int16} {lo : ℕ}
  (hsize : size < 2 ^ 62) (hpos : 0 < size) (hfit : (c + 7) / 8 * 8 + xs.length ≤ size)

include hsize hpos hfit in
theorem encodeG711_contents {encode : List Int16 → List UInt8}
    (henc : (encode xs).length = xs.length) :
    Returns (Contents s size c fun m => m.samples b.start xs.length = xs)
      (encodeG711 encode lo b xs.length) 0
      (Contents s size (lo + (encode xs).length)
        fun m => m.load lo (encode xs).length = encode xs) := by
  apply Returns.bind (alloc_contents hsize hpos hfit)
  apply Returns.bind (loadSamples_contents (i := 0) fun m hm => hm)
  apply Returns.bind (storeBytes_written _ (encode xs))
  rw [← henc]
  exact Returns.bind (moveToStart_contents lo _ _) (Returns.pure fun _ h => h)

theorem encodeL16_contents (hsw : SwapFlags s) (hout : s.outPayloadType = codecL16) {n : ℕ}
    (hn : n * s.outChannels.toNat = xs.length) :
    Returns (Contents s size c fun m => m.samples b.start xs.length = xs)
      (encodeL16 lo b n) 0
      (Contents s size (lo + (encodeSamples codecL16 s.outEndian xs).length)
        fun m => m.load lo (encodeSamples codecL16 s.outEndian xs).length =
          encodeSamples codecL16 s.outEndian xs) := by
  unfold encodeL16
  refine Returns.bindSat getSession_contents fun s' => Returns.assume ?_
  rintro ⟨v, p, rfl⟩
  dsimp only
  rw [encodeSamples_l16, hsw.swapOut, hout, hn]
  by_cases hend : s.outEndian = endianBig
  · rw [if_pos hend, hend, if_pos (by rfl)]
    have hlen : xs.length * 2 = (toBytesBig xs).length := by
      rw [length_toBytesBig, Nat.mul_comm]
    rw [hlen]
    have hswap : Returns (Contents s size c fun m => m.samples b.start xs.length = xs)
        (swapEndianL16 b xs.length) ()
        (Contents s size c fun m => m.load b.start (toBytesBig xs).length = toBytesBig xs) := by
      apply returns_of_mem
      intro m hm
      refine (swapEndianL16_contents m b _).post fun w hw => hw.imp ?_
      rintro m' rfl
      rw [hm, toBytes_map_swapSample]
      exact load_store_same _ _ _
    exact Returns.bind hswap
      (Returns.bind (moveToStart_contents lo b _) (Returns.pure fun _ h => h))
  · rw [if_neg hend, if_neg (by simp [hend])]
    have hlen : xs.length * 2 = (toBytes xs).length := by rw [length_toBytes, Nat.mul_comm]
    rw [hlen]
    refine Returns.bind ((moveToStart_contents lo b _).pre fun w hw => hw.imp fun m hm => ?_)
      (Returns.pure fun _ h => h)
    rw [length_toBytes, ← toBytes_samples, hm]

include hsize hpos hfit in
/-- The encoded samples are at the start of the request. -/
theorem encodeStep_contents (hsw : SwapFlags s) (hk : IsKnownCodec s.outPayloadType) {n : ℕ}
    (hn : s.encodedElements n = xs.length) :
    Returns (Contents s size c fun m => m.samples b.start xs.length = xs)
      (encodeStep lo b n) 0
      (Contents s size (lo + (encodeSamples s.outPayloadType s.outEndian xs).length)
        fun m => m.load lo (encodeSamples s.outPayloadType s.outEndian xs).length =
          encodeSamples s.outPayloadType s.outEndian xs) := by
  unfold encodeStep
  unfold TranscodeSession.encodedElements at hn
  refine Returns.bindSat getSession_contents fun s' => Returns.assume ?_
  rintro ⟨v, p, rfl⟩
  dsimp only
  rcases hk with hout | hout | hout
  · rw [hout, if_neg pcmu_ne_l16] at hn
    rw [hout, if_pos rfl, hn]
    exact encodeG711_contents hsize hpos hfit (length_transcodeL16ToPcmu xs)
  · rw [hout, if_neg pcma_ne_l16] at hn
    rw [hout, if_neg pcma_ne_pcmu, if_pos rfl, hn]
    exact encodeG711_contents hsize hpos hfit (length_transcodeL16ToPcma xs)
  · rw [hout, if_pos rfl] at hn
    rw [hout, if_neg pcmu_ne_l16.symm, if_neg pcma_ne_l16.symm, if_pos rfl]
    exact encodeL16_contents hsw hout hn

end encode

/-- Everything behind the mixing, when nothing is resampled. -/
theorem processMixed_contents (hsw : SwapFlags s) (hk : IsKnownCodec s.outPayloadType)
    (hres : s.needsResample = false) {b : Block} {xs : List Int16} {n lo : ℕ}
    (hn : s.encodedElements n = xs.length)
    (hsize : size < 2 ^ 62) (hpos : 0 < size) (hfit : (c + 7) / 8 * 8 + xs.length ≤ size) :
    Returns (Contents s size c fun m => m.samples b.start xs.length = xs)
      (processMixed E lo b n) 0
      (Contents s size (lo + (encodeSamples s.outPayloadType s.outEndian xs).length)
        fun m => m.load lo (encodeSamples s.outPayloadType s.outEndian xs).length =
          encodeSamples s.outPayloadType s.outEndian xs) :=
  Returns.bind (inputVad_contents b n) <| Returns.bind (resampleStep_contents hres b n) <|
    Returns.bind (outputVad_contents b n) (encodeStep_contents hsize hpos hfit hsw hk hn)

end MachAudio
