import MachAudio.Contents

/-! # The mixer is a clamped sum

`mix_l16_avx2` on whole buffers, for an output of its own and for one that is the first input,
and what is left when buffers are mixed one after another into the same output, as
`audio_process_transcode` does it. -/

namespace MachAudio

open ByteMem Exec

variable {H : Type}

/-- Two ranges of `n` samples have no byte in common. -/
def Apart (a b n : ℕ) : Prop := a + 2 * n ≤ b ∨ b + 2 * n ≤ a

/-- Further buffers mixed into `out` one after another. -/
def mixFurther (out : Block) (n : ℕ) : List Block → Pipe H Unit
  | [] => pure ()
  | b :: bs => do
      mixL16Avx2 out b out n
      mixFurther out n bs

instance (a b n : ℕ) : Decidable (Apart a b n) := inferInstanceAs (Decidable (_ ∨ _))

theorem Apart.readsAhead {a b n : ℕ} (h : Apart a b n) : ReadsAhead a b n := by
  unfold Apart at h
  unfold ReadsAhead
  omega

theorem Apart.samples_store {m : Mem} {a b n : ℕ} (h : Apart a b n) {xs : List Int16}
    (hxs : xs.length = n) : (m.store a (toBytes xs)).samples b n = m.samples b n := by
  apply samples_store_disjoint
  rw [length_toBytes, hxs]
  exact h.symm

/-- One more buffer mixed into samples that have just been written. -/
theorem mixL16Avx2_again {out b : Block} {n : ℕ} (hb : Apart out.start b.start n) {w : Work H}
    {m : Mem} {xs : List Int16} (hxs : xs.length = n)
    (hm : w.arena.buf = m.store out.start (toBytes xs)) :
    (mixL16Avx2 out b out n w).2.arena.buf =
      m.store out.start (toBytes (List.zipWith mixSample xs (m.samples b.start n))) := by
  have hsame : (m.store out.start (toBytes xs)).samples out.start n = xs := by
    rw [← hxs]
    exact samples_store_same m out.start xs
  have hlen : (List.zipWith mixSample xs (m.samples b.start n)).length = xs.length := by
    rw [List.length_zipWith, length_samples, hxs, Nat.min_self]
  rw [mixL16Avx2_buf w n (.inl (Nat.le_refl _)) hb.readsAhead, hm, mixedAt, hsame,
    hb.samples_store hxs, store_store]
  rw [length_toBytes, length_toBytes, hlen]

/-- Mixing in turn is a fold, whose inputs are the samples before the first turn. -/
theorem mixFurther_buf {out : Block} {n : ℕ} {bs : List Block}
    (hbs : ∀ b ∈ bs, Apart out.start b.start n) {w : Work H} {m : Mem} {xs : List Int16}
    (hxs : xs.length = n) (hm : w.arena.buf = m.store out.start (toBytes xs)) :
    ∃ zs, zs = (bs.map fun b => m.samples b.start n).foldl (List.zipWith mixSample) xs ∧
      zs.length = n ∧
      (mixFurther out n bs w).2.arena.buf = m.store out.start (toBytes zs) := by
  induction bs generalizing w xs with
  | nil => exact ⟨xs, rfl, hxs, hm⟩
  | cons b bs ih =>
      have hb := hbs b List.mem_cons_self
      apply ih (fun b' hb' => hbs b' (List.mem_cons_of_mem _ hb')) _ (mixL16Avx2_again hb hxs hm)
      rw [List.length_zipWith, length_samples, hxs, Nat.min_self]

/-- **The mixer is the clamped sum**, sample by sample, for an output of its own and for one that
is the first input; it writes nothing else, and buffers mixed into it one after another are the
fold of the clamped sum. -/
theorem mixL16Avx2_pointwise (inA inB out : Block) (bs : List Block) (xs ys : List Int16)
    (hlen : ys.length = xs.length)
    (ha : out.start = inA.start ∨ Apart out.start inA.start xs.length)
    (hb : Apart out.start inB.start xs.length)
    (hbs : ∀ b ∈ bs, Apart out.start b.start xs.length) (w : Work H)
    (hxs : w.arena.buf.samples inA.start xs.length = xs)
    (hys : w.arena.buf.samples inB.start ys.length = ys) :
    let w' := (mixL16Avx2 inA inB out xs.length w).2
    let w'' := (mixFurther out xs.length bs w').2
    w'.arena.buf.samples out.start xs.length = List.zipWith mixSample xs ys ∧
      (∀ x, x < out.start ∨ out.start + 2 * xs.length ≤ x → w'.arena.buf x = w.arena.buf x) ∧
      w''.arena.buf.samples out.start xs.length =
        (bs.map fun b => w.arena.buf.samples b.start xs.length).foldl (List.zipWith mixSample)
          (List.zipWith mixSample xs ys) ∧
      ∀ x, x < out.start ∨ out.start + 2 * xs.length ≤ x → w''.arena.buf x = w.arena.buf x := by
  have hahead : ReadsAhead out.start inA.start xs.length := by
    rcases ha with h | h
    · exact .inl (Nat.le_of_eq h)
    · exact h.readsAhead
  have hz : (List.zipWith mixSample xs ys).length = xs.length := by
    rw [List.length_zipWith, hlen, Nat.min_self]
  have hm := mixL16Avx2_buf w xs.length hahead hb.readsAhead
  rw [mixedAt, hxs, ← hlen, hys, hlen] at hm
  obtain ⟨zs, hzs, hzlen, hm'⟩ := mixFurther_buf hbs hz hm
  have hout : ∀ {m : Mem} {us : List Int16}, us.length = xs.length →
      (m.store out.start (toBytes us)).samples out.start xs.length = us ∧
      ∀ x, x < out.start ∨ out.start + 2 * xs.length ≤ x →
        m.store out.start (toBytes us) x = m x := by
    intro m us hus
    refine ⟨by rw [← hus]; exact samples_store_same m out.start us, fun x hx => ?_⟩
    rcases hx with hx | hx
    · exact store_below m _ hx
    · exact store_above m _ (by rw [length_toBytes, hus]; exact hx)
  dsimp only
  rw [hm, hm', ← hzs]
  exact ⟨(hout hz).1, (hout hz).2, hout hzlen⟩

/-- Two loud buffers of seventeen samples, the second at offset 40. -/
def loudBuffers : Work Unit := ⟨.zero, ⟨0, fun x => if x < 40 then 0x7F else 0x01, 128, 74⟩, []⟩

theorem mixL16Avx2_pointwise_loud :
    (mixL16Avx2 ⟨0, 34⟩ ⟨40, 34⟩ ⟨0, 34⟩ 17 loudBuffers).2.arena.buf.samples 0 17 =
      List.replicate 17 32767 := by
  have h := (mixL16Avx2_pointwise ⟨0, 34⟩ ⟨40, 34⟩ ⟨0, 34⟩ [] (List.replicate 17 0x7F7F)
    (List.replicate 17 0x0101) rfl (.inl rfl) (by decide) (by decide) loudBuffers (by decide)
    (by decide)).1
  have hsum : List.zipWith mixSample (List.replicate 17 0x7F7F) (List.replicate 17 0x0101) =
      List.replicate 17 32767 := by
    decide
  rw [hsum] at h
  exact h

end MachAudio
