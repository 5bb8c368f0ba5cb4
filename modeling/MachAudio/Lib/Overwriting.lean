import Mathlib.Data.List.Induction

/-! # Settings that overwrite each other

A list of options is applied to settings from left to right.  If an option undoes the earlier ones
of its kind and does not meet those of other kinds (`Overwrites`), then the result depends on the
last option of each kind only (`foldl_eq_of_last`): neither what was overwritten nor the order of
what is left matters. -/

namespace Overwriting

variable {σ ο κ : Type} [DecidableEq κ]

/-- Applying an option overwrites the options of its kind, and nothing else. -/
structure Overwrites (kind : ο → κ) (set : σ → ο → σ) : Prop where
  same : ∀ s x y, kind x = kind y → set (set s x) y = set s y
  other : ∀ s x y, kind x ≠ kind y → set (set s x) y = set (set s y) x

/-- The last option of a kind. -/
def last (kind : ο → κ) (k : κ) (os : List ο) : Option ο :=
  (os.filter fun o => kind o = k).getLast?

variable {kind : ο → κ}

theorem last_snoc (k : κ) (os : List ο) (o : ο) :
    last kind k (os ++ [o]) = if kind o = k then some o else last kind k os := by
  unfold last
  rw [List.filter_append]
  split_ifs with h
  · simp [h]
  · simp [h]

theorem last_eq_none {k : κ} {os : List ο} : last kind k os = none ↔ ∀ o ∈ os, kind o ≠ k := by
  unfold last
  rw [List.getLast?_eq_none_iff, List.filter_eq_nil_iff]
  simp

/-- Without the options of a kind. -/
def without (kind : ο → κ) (k : κ) (os : List ο) : List ο := os.filter fun o => kind o ≠ k

theorem last_without (k k' : κ) (os : List ο) :
    last kind k' (without kind k os) = if k' = k then none else last kind k' os := by
  unfold last without
  rw [List.filter_filter]
  split_ifs with h
  · subst h
    simp
  · have heq : (os.filter fun o => decide (kind o = k') && decide (kind o ≠ k)) =
        os.filter fun o => decide (kind o = k') := by
      apply List.filter_congr
      intro o _
      by_cases ho : kind o = k'
      · simp [ho, h]
      · simp [ho]
    rw [heq]

variable {set : σ → ο → σ}

/-- What one kind of options decides, and nothing else, is decided by the last of these. -/
theorem foldl_field {β : Type} {f : σ → β} {g : ο → β} {k : κ}
    (h : ∀ s o, f (set s o) = if kind o = k then g o else f s) (os : List ο) (s : σ) :
    f (os.foldl set s) = (last kind k os).elim (f s) g := by
  induction os using List.reverseRecOn with
  | nil => rfl
  | append_singleton os o ih =>
      rw [List.foldl_append, List.foldl_cons, List.foldl_nil, h, last_snoc, ih]
      split_ifs <;> rfl

/-- An option that is overwritten later has no effect. -/
theorem Overwrites.drop (h : Overwrites kind set) {x y : ο} (hxy : kind x = kind y) :
    ∀ (os : List ο) (s : σ), set (os.foldl set (set s x)) y = set (os.foldl set s) y := by
  intro os
  induction os with
  | nil => exact fun s => h.same s x y hxy
  | cons o os ih =>
      intro s
      rw [List.foldl_cons, List.foldl_cons]
      by_cases ho : kind x = kind o
      · rw [h.same s x o ho]
      · rw [h.other s x o ho]
        exact ih (set s o)

/-- So all the options of a kind that is overwritten can be left out. -/
theorem Overwrites.foldl_without (h : Overwrites kind set) (y : ο) :
    ∀ (os : List ο) (s : σ),
      set (os.foldl set s) y = set ((without kind (kind y) os).foldl set s) y := by
  intro os
  induction os with
  | nil => exact fun _ => rfl
  | cons o os ih =>
      intro s
      unfold without at ih ⊢
      by_cases ho : kind o = kind y
      · rw [List.filter_cons_of_neg (by simpa using ho), ← ih s]
        exact h.drop ho os s
      · rw [List.filter_cons_of_pos (by simpa using ho), List.foldl_cons, List.foldl_cons]
        exact ih (set s o)

/-- The last option of a kind may as well stand at the end. -/
theorem Overwrites.foldl_last (h : Overwrites kind set) {k : κ} {os : List ο} {y : ο}
    (hy : last kind k os = some y) (s : σ) :
    os.foldl set s = set ((without kind k os).foldl set s) y := by
  induction os using List.reverseRecOn with
  | nil => cases hy
  | append_singleton os o ih =>
      rw [last_snoc] at hy
      rw [List.foldl_append, List.foldl_cons, List.foldl_nil]
      unfold without at ih ⊢
      rw [List.filter_append]
      split_ifs at hy with ho
      · obtain rfl := Option.some.inj hy
        subst ho
        rw [List.filter_cons_of_neg (by simp), List.filter_nil, List.append_nil]
        exact h.foldl_without o os s
      · have hk : kind y = k := by
          have hmem := List.mem_of_getLast? hy
          simpa using (List.mem_filter.mp hmem).2
        rw [ih hy, h.other _ y o (by rw [hk]; exact Ne.symm ho)]
        simp [ho]

/-- **The result depends on the last option of each kind only.** -/
theorem Overwrites.foldl_eq_of_last (h : Overwrites kind set) {os os' : List ο}
    (hlast : ∀ k, last kind k os = last kind k os') (s : σ) : os.foldl set s = os'.foldl set s := by
  induction hn : os.length using Nat.strongRecOn generalizing os os' with
  | ind n ih =>
      rcases List.eq_nil_or_concat os with rfl | ⟨init, y, rfl⟩
      · rcases List.eq_nil_or_concat os' with rfl | ⟨init', y', rfl⟩
        · rfl
        · have hy := hlast (kind y')
          rw [List.concat_eq_append, last_snoc, if_pos rfl] at hy
          cases hy
      · have hy : last kind (kind y) (init.concat y) = some y := by
          rw [List.concat_eq_append, last_snoc, if_pos rfl]
        rw [h.foldl_last hy, h.foldl_last ((hlast _).symm.trans hy)]
        refine congrArg (set · y) (ih _ ?_ ?_ rfl)
        · rw [← hn, List.concat_eq_append]
          unfold without
          rw [List.filter_append, List.filter_cons_of_neg (by simp), List.filter_nil,
            List.append_nil, List.length_append]
          exact Nat.lt_succ_of_le (List.length_filter_le _ init)
        · intro k
          rw [last_without, last_without, hlast]

end Overwriting
