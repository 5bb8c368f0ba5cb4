import Mathlib.Data.List.Basic

/-! # Splitting a stream into frames, all at once or piece by piece

A `Framer` looks at the start of a list and finds that more elements are needed, that the
stream is malformed, or a frame of some length.  Its laws say that a frame is nonempty and
that neither a frame nor a malformed start is changed by what follows it.

`split` takes frames off a list until none is left and returns them with the remainder.
`split_append` is the streaming law: splitting `a ++ b` is splitting `a` and then its
remainder followed by `b`.  Hence a reader that keeps the remainder of every piece
(`feeds`) has, after any pieces, the frames and the remainder of their concatenation
(`feeds_eq_split`). -/

namespace Framing

variable {α β : Type}

/-- What the start of a stream holds. -/
inductive Next (β : Type) where
  | more
  | malformed
  | frame (b : β) (n : ℕ)
deriving DecidableEq, Repr

structure Framer (α β : Type) where
  next : List α → Next β
  frame_pos : ∀ {l b n}, next l = .frame b n → 0 < n ∧ n ≤ l.length
  frame_append : ∀ {l b n} (r : List α), next l = .frame b n → next (l ++ r) = .frame b n
  malformed_append : ∀ {l} (r : List α), next l = .malformed → next (l ++ r) = .malformed

namespace Framer

variable (F : Framer α β)

/-- `split` with at most `k` frames. -/
def splitUpTo : ℕ → List α → List β × List α
  | 0, l => ([], l)
  | k + 1, l =>
      match F.next l with
      | .frame b n => (b :: (splitUpTo k (l.drop n)).1, (splitUpTo k (l.drop n)).2)
      | .more => ([], l)
      | .malformed => ([], l)

/-- The frames at the start of `l` and what remains after them. -/
def split (l : List α) : List β × List α := F.splitUpTo l.length l

/-- Every bound that is large enough gives the same result. -/
theorem splitUpTo_eq (k : ℕ) (l : List α) (h : l.length ≤ k) :
    F.splitUpTo k l = F.split l := by
  induction k using Nat.strongRecOn generalizing l with
  | ind k ih =>
      cases l with
      | nil =>
          have hnil : ∀ k, F.splitUpTo k [] = ([], []) := by
            intro k
            cases k with
            | zero => rfl
            | succ k =>
                rw [splitUpTo]
                cases hn : F.next [] with
                | more => rfl
                | malformed => rfl
                | frame b n =>
                    have hpos := F.frame_pos hn
                    simp only [List.length_nil] at hpos
                    omega
          rw [split, hnil, hnil]
      | cons a l =>
          rw [List.length_cons] at h
          obtain ⟨k, rfl⟩ : ∃ j, k = j + 1 := ⟨k - 1, by omega⟩
          rw [split, List.length_cons, splitUpTo, splitUpTo]
          cases hn : F.next (a :: l) with
          | more => rfl
          | malformed => rfl
          | frame b n =>
              have hpos := F.frame_pos hn
              have hlen : ((a :: l).drop n).length ≤ l.length := by
                rw [List.length_drop, List.length_cons]
                omega
              simp only
              rw [ih k (by omega) _ (by omega), ih l.length (by omega) _ hlen]

theorem split_of_frame {l : List α} {b : β} {n : ℕ} (h : F.next l = .frame b n) :
    F.split l = (b :: (F.split (l.drop n)).1, (F.split (l.drop n)).2) := by
  have hpos := F.frame_pos h
  have hlen : (l.drop n).length ≤ l.length - 1 := by simp; omega
  rw [split, show l.length = (l.length - 1) + 1 by omega, splitUpTo, h]
  simp only
  rw [splitUpTo_eq F _ _ hlen]

theorem split_of_not_frame {l : List α} (h : ∀ b n, F.next l ≠ .frame b n) :
    F.split l = ([], l) := by
  rw [split]
  cases hl : l.length with
  | zero => rfl
  | succ k =>
      simp only [splitUpTo]
      cases hn : F.next l with
      | more => rfl
      | malformed => rfl
      | frame b n => exact absurd hn (h b n)

/-- The frames of a list come off its front: the remainder is a suffix. -/
theorem split_suffix : ∀ (k : ℕ) (l : List α), l.length ≤ k → ∃ p, l = p ++ (F.split l).2
  | 0, l, h => by
      have e : l = [] := List.eq_nil_of_length_eq_zero (by omega)
      subst e
      exact ⟨[], rfl⟩
  | k + 1, l, h => by
      cases hn : F.next l with
      | more => exact ⟨[], by rw [F.split_of_not_frame (by simp [hn])]; rfl⟩
      | malformed => exact ⟨[], by rw [F.split_of_not_frame (by simp [hn])]; rfl⟩
      | frame b n =>
          have hpos := F.frame_pos hn
          obtain ⟨p, hp⟩ := split_suffix k (l.drop n) (by simp; omega)
          refine ⟨l.take n ++ p, ?_⟩
          rw [F.split_of_frame hn, List.append_assoc, ← hp, List.take_append_drop]

/-- Every frame of a list starts somewhere in it. -/
theorem exists_next_of_mem_split : ∀ (k : ℕ) (l : List α), l.length ≤ k →
    ∀ b ∈ (F.split l).1, ∃ p r n, l = p ++ r ∧ F.next r = .frame b n
  | 0, l, h, b, hb => by
      have e : l = [] := List.eq_nil_of_length_eq_zero (by omega)
      subst e
      exact absurd hb List.not_mem_nil
  | k + 1, l, h, b, hb => by
      cases hn : F.next l with
      | more => simp [F.split_of_not_frame (l := l) (by simp [hn])] at hb
      | malformed => simp [F.split_of_not_frame (l := l) (by simp [hn])] at hb
      | frame b' n =>
          rw [F.split_of_frame hn] at hb
          rcases List.mem_cons.mp hb with rfl | hb
          · exact ⟨[], l, n, rfl, hn⟩
          · have hpos := F.frame_pos hn
            obtain ⟨p, r, n', hp, hr⟩ :=
              exists_next_of_mem_split k (l.drop n) (by simp; omega) b hb
            exact ⟨l.take n ++ p, r, n', by rw [List.append_assoc, ← hp, List.take_append_drop], hr⟩

/-- **Streaming law**: the remainder of `a` carries all that the rest of the stream needs. -/
theorem split_append (a b : List α) :
    F.split (a ++ b) =
      ((F.split a).1 ++ (F.split ((F.split a).2 ++ b)).1, (F.split ((F.split a).2 ++ b)).2) := by
  suffices h : ∀ (k : ℕ) (a : List α), a.length ≤ k → F.split (a ++ b) =
      ((F.split a).1 ++ (F.split ((F.split a).2 ++ b)).1, (F.split ((F.split a).2 ++ b)).2) from
    h a.length a (Nat.le_refl _)
  intro k
  induction k with
  | zero =>
      intro a ha
      have e : a = [] := List.eq_nil_of_length_eq_zero (by omega)
      subst e
      rfl
  | succ k ih =>
      intro a ha
      cases hn : F.next a with
      | more => rw [F.split_of_not_frame (l := a) (by simp [hn])]; rfl
      | malformed => rw [F.split_of_not_frame (l := a) (by simp [hn])]; rfl
      | frame m n =>
          have hpos := F.frame_pos hn
          have hdrop : (a ++ b).drop n = a.drop n ++ b := List.drop_append_of_le_length hpos.2
          rw [F.split_of_frame (F.frame_append b hn), F.split_of_frame hn, hdrop,
            ih (a.drop n) (by simp; omega)]
          rfl

/-- Nothing more is split off the remainder. -/
theorem split_remainder (l : List α) : F.split (F.split l).2 = ([], (F.split l).2) := by
  have h := F.split_append l []
  simp only [List.append_nil] at h
  have h1 : (F.split (F.split l).2).1 = [] := by simpa using congrArg Prod.fst h
  have h2 : (F.split (F.split l).2).2 = (F.split l).2 := (congrArg Prod.snd h).symm
  exact Prod.ext h1 h2

/-- Nothing is split off a list that starts malformed. -/
theorem split_malformed_append {l : List α} (h : F.next l = .malformed) (r : List α) :
    F.split (l ++ r) = ([], l ++ r) :=
  F.split_of_not_frame (by simp [F.malformed_append r h])

/-- The frames of pieces `ps` read one after another onto the remainder `r`. -/
def feeds : List α → List (List α) → List β × List α
  | r, [] => ([], r)
  | r, p :: ps =>
      ((F.split (r ++ p)).1 ++ (feeds (F.split (r ++ p)).2 ps).1, (feeds (F.split (r ++ p)).2 ps).2)

/-- **Cutting does not matter**: pieces give the frames and the remainder of the whole. -/
theorem feeds_eq_split (ps : List (List α)) : ∀ (r : List α), (F.split r) = ([], r) →
    F.feeds r ps = F.split (r ++ ps.flatten) := by
  induction ps with
  | nil => intro r hr; simp [feeds, hr]
  | cons p ps ih =>
      intro r hr
      rw [feeds, ih _ (F.split_remainder (r ++ p)), List.flatten_cons, ← List.append_assoc,
        F.split_append (r ++ p)]

/-! ### Streams of encoded frames -/

section encoded
variable {γ : Type} {enc : γ → List α} {f : γ → β}

/-- A proper part of the code of a frame is not a frame: what completes it would make it the
whole one. -/
theorem not_frame_of_prefix {c : γ} {p q : List α}
    (hc : ∀ rest, F.next (enc c ++ rest) = .frame (f c) (enc c).length) (hpq : p ++ q = enc c)
    (hq : p.length < (enc c).length) : ∀ b n, F.next p ≠ .frame b n := by
  intro b n hn
  have hpos := F.frame_pos hn
  have hwhole := hc []
  rw [List.append_nil, ← hpq, F.frame_append q hn, Next.frame.injEq] at hwhole
  rw [hpq] at hwhole
  omega

/-- **Any cut of a stream of encoded frames**: the frames that are whole are split off, and less
than the next one remains. -/
theorem split_encoded (cs : List γ)
    (hcs : ∀ c ∈ cs, ∀ rest, F.next (enc c ++ rest) = .frame (f c) (enc c).length)
    (bs rest : List α) (h : bs ++ rest = cs.flatMap enc) :
    ∃ k partialFrame, bs = (cs.take k).flatMap enc ++ partialFrame ∧
      F.split bs = ((cs.take k).map f, partialFrame) ∧
      ∀ c ∈ cs[k]?, partialFrame.length < (enc c).length := by
  induction cs generalizing bs with
  | nil =>
      rw [List.flatMap_nil, List.append_eq_nil_iff] at h
      obtain ⟨rfl, -⟩ := h
      exact ⟨0, [], rfl, rfl, fun c hc => by cases hc⟩
  | cons c cs ih =>
      have hc := hcs c List.mem_cons_self
      rw [List.flatMap_cons] at h
      by_cases hlt : bs.length < (enc c).length
      · have hpq : bs ++ (enc c).drop bs.length = enc c := by
          have hbs : bs = (enc c).take bs.length := by
            have := congrArg (List.take bs.length) h
            rwa [List.take_left, List.take_append_of_le_length (by omega)] at this
          conv_lhs => rw [hbs]
          rw [List.length_take_of_le (by omega), List.take_append_drop]
        refine ⟨0, bs, rfl, F.split_of_not_frame (F.not_frame_of_prefix hc hpq hlt), ?_⟩
        intro c' hc'
        obtain rfl := Option.some.inj hc'
        exact hlt
      · have hbs : bs = enc c ++ bs.drop (enc c).length := by
          have := congrArg (List.take (enc c).length) h
          rw [List.take_left, List.take_append_of_le_length (by omega)] at this
          conv_lhs => rw [← List.take_append_drop (enc c).length bs, this]
        generalize bs.drop (enc c).length = bs' at hbs
        subst hbs
        rw [List.append_assoc, List.append_cancel_left_eq] at h
        obtain ⟨k, p, hp, hsplit, hlast⟩ := ih (fun c' hc' => hcs c' (List.mem_cons_of_mem _ hc'))
          bs' h
        refine ⟨k + 1, p, ?_, ?_, ?_⟩
        · rw [List.take_succ_cons, List.flatMap_cons, List.append_assoc, ← hp]
        · rw [F.split_of_frame (hc bs'), List.drop_left, hsplit]
          rfl
        · simpa using hlast

end encoded

end Framer
end Framing
