import Mathlib.Data.List.Sort

/-! # Order statistics of a list

A comparison that is total and transitive need not be antisymmetric: of two values it only says
which comes first.  The value at place `k` of a list in its order (`IsNth`) has at most `k` values
before it and more than `k` that do not come after it.  So it does not depend on the order the
list was in, and a sorted list has it at index `k`.

The first of all values is also what a loop finds that starts with the last one there can be
(`IsFirst`). -/

namespace OrderStatistic

variable {α : Type} {le : α → α → Bool}

/-- A comparison that sorting can use. -/
structure TotalPreorder (le : α → α → Bool) : Prop where
  trans : ∀ a b c, le a b = true → le b c = true → le a c = true
  total : ∀ a b, (le a b || le b a) = true

theorem TotalPreorder.refl (h : TotalPreorder le) (a : α) : le a a = true := by
  simpa using h.total a a

/-- `v` is at place `k` of the values in order. -/
structure IsNth (le : α → α → Bool) (l : List α) (k : ℕ) (v : α) : Prop where
  mem : v ∈ l
  before : l.countP (fun x => !le v x) ≤ k
  upTo : k < l.countP (fun x => le x v)

/-- It does not matter how the list is ordered. -/
theorem IsNth.perm {l l' : List α} {k : ℕ} {v : α} (h : IsNth le l k v) (hp : l.Perm l') :
    IsNth le l' k v :=
  ⟨hp.mem_iff.mp h.mem, hp.countP_eq _ ▸ h.before, hp.countP_eq _ ▸ h.upTo⟩

/-- Two values at one place are not told apart. -/
theorem IsNth.unique (hle : TotalPreorder le) {l : List α} {k : ℕ} {v w : α}
    (hv : IsNth le l k v) (hw : IsNth le l k w) : le v w = true := by
  by_contra hlt
  have hlt : le v w = false := by simpa using hlt
  -- everything up to `w` comes before `v`
  have hle' : l.countP (fun x => le x w) ≤ l.countP (fun x => !le v x) := by
    apply List.countP_mono_left
    intro x _ hx
    rw [Bool.not_eq_true', ← Bool.not_eq_true]
    intro hvx
    have := hle.trans v x w hvx hx
    rw [hlt] at this
    exact Bool.false_ne_true this
  have h₁ := hv.before
  have h₂ := hw.upTo
  omega

/-- A sorted list has its values at their places. -/
theorem isNth_sorted (hle : TotalPreorder le) {l : List α}
    (hs : l.Pairwise fun a b => le a b = true) {k : ℕ} (hk : k < l.length) :
    IsNth le l k l[k] := by
  have hcut : l.take k ++ l[k] :: l.drop (k + 1) = l := by
    rw [← List.drop_eq_getElem_cons hk, List.take_append_drop]
  obtain ⟨-, hright, hcross⟩ := List.pairwise_append.mp (hcut.symm ▸ hs)
  obtain ⟨hafter, -⟩ := List.pairwise_cons.mp hright
  generalize hv : l[k] = v at *
  refine ⟨hv ▸ List.getElem_mem hk, ?_, ?_⟩
  · -- nothing from `k` on comes before
    have hzero : (v :: l.drop (k + 1)).countP (fun x => !le v x) = 0 := by
      rw [List.countP_eq_zero]
      intro x hx
      rcases List.mem_cons.mp hx with rfl | hx
      · simp [hle.refl x]
      · simp [hafter x hx]
    rw [← hcut, List.countP_append, hzero, Nat.add_zero]
    exact List.countP_le_length.trans (List.length_take_le _ _)
  · have hall : (l.take k).countP (fun x => le x v) = k := by
      rw [List.countP_eq_length.mpr fun x hx => hcross x hx v List.mem_cons_self,
        List.length_take, Nat.min_eq_left hk.le]
    have hself : (v :: l.drop (k + 1)).countP (fun x => le x v) =
        (l.drop (k + 1)).countP (fun x => le x v) + 1 :=
      List.countP_cons_of_pos (hle.refl v)
    rw [← hcut, List.countP_append, hall, hself]
    omega

/-- Sorting finds the value at a place. -/
theorem isNth_mergeSort (hle : TotalPreorder le) {l : List α} {k : ℕ} {v : α}
    (hv : (l.mergeSort le)[k]? = some v) : IsNth le l k v := by
  have hperm := List.mergeSort_perm l le
  obtain ⟨hlt, rfl⟩ := List.getElem?_eq_some_iff.mp hv
  exact (isNth_sorted hle (List.pairwise_mergeSort hle.trans hle.total l) hlt).perm hperm

/-! ### The first value -/

theorem TotalPreorder.flip (h : TotalPreorder le) : TotalPreorder fun a b => le b a :=
  ⟨fun a b c hab hbc => h.trans c b a hbc hab, fun a b => h.total b a⟩

/-- `m` comes before the values of `l`, and is one of them unless it is still the initial value. -/
structure IsFirst (le : α → α → Bool) (init : α) (l : List α) (m : α) : Prop where
  le : ∀ x ∈ l, le m x = true
  mem : m = init ∨ m ∈ l

/-- The one of two that comes first is the first of both lists. -/
theorem IsFirst.append (hle : TotalPreorder le) {init : α} {l l' : List α} {m m' c : α}
    (h : IsFirst le init l m) (h' : IsFirst le init l' m')
    (hc : (c = m' ∧ le m' m = true) ∨ (c = m ∧ le m m' = true)) :
    IsFirst le init (l ++ l') c := by
  rcases hc with ⟨rfl, hmm⟩ | ⟨rfl, hmm⟩
  · refine ⟨fun x hx => ?_, ?_⟩
    · rcases List.mem_append.mp hx with hx | hx
      · exact hle.trans _ _ _ hmm (h.le x hx)
      · exact h'.le x hx
    · exact h'.mem.imp_right (List.mem_append_right l)
  · refine ⟨fun x hx => ?_, ?_⟩
    · rcases List.mem_append.mp hx with hx | hx
      · exact h.le x hx
      · exact hle.trans _ _ _ hmm (h'.le x hx)
    · exact h.mem.imp_right (List.mem_append_left l')

/-- A loop over some values finds one of them. -/
theorem IsFirst.mem_of_ne_nil (hanti : ∀ a b, le a b = true → le b a = true → a = b) {init : α}
    (hinit : ∀ x, le x init = true) {l : List α} {m : α} (h : IsFirst le init l m)
    (hne : l ≠ []) : m ∈ l := by
  rcases h.mem with rfl | hmem
  · cases l with
    | nil => exact absurd rfl hne
    | cons x l =>
        rw [hanti m x (h.le x List.mem_cons_self) (hinit x)]
        exact List.mem_cons_self
  · exact hmem

end OrderStatistic
