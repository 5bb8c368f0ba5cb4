import Mathlib.Data.List.Pairwise
import Mathlib.Order.Basic

/-! # Spans handed out one behind another

An allocator that only moves a mark forward hands out half-open spans of a line.  What a span is
does not matter: `lo` and `hi` say where it begins and ends.  A list of spans is `Stacked` below
a mark when they are apart from each other and none reaches beyond the mark; a span that begins
at the mark or behind it can be added (`Stacked.push`), and no point is in two spans that are
apart (`Apart.not_both`). -/

namespace Spans

variable {α ι : Type} [Preorder ι] {lo hi : α → ι} {x y : α} {bottom mark mark' i : ι}
  {live : List α}

/-- Neither span reaches into the other. -/
def Apart (lo hi : α → ι) (x y : α) : Prop := hi x ≤ lo y ∨ hi y ≤ lo x

theorem Apart.not_both (h : Apart lo hi x y) (hx₀ : lo x ≤ i) (hx₁ : i < hi x)
    (hy₀ : lo y ≤ i) : ¬ i < hi y := by
  intro hy₁
  rcases h with h | h
  · exact lt_irrefl i (hx₁.trans_le (h.trans hy₀))
  · exact lt_irrefl i (hy₁.trans_le (h.trans hx₀))

/-- The spans handed out below a mark. -/
structure Stacked (lo hi : α → ι) (bottom mark : ι) (live : List α) : Prop where
  apart : live.Pairwise (Apart lo hi)
  within : ∀ x ∈ live, bottom ≤ lo x ∧ hi x ≤ mark

theorem Stacked.nil : Stacked lo hi bottom mark [] :=
  ⟨List.Pairwise.nil, fun _ h => absurd h List.not_mem_nil⟩

/-- The mark only moves forward. -/
theorem Stacked.mono (h : Stacked lo hi bottom mark live) (hmark : mark ≤ mark') :
    Stacked lo hi bottom mark' live :=
  ⟨h.apart, fun x hx => ⟨(h.within x hx).1, (h.within x hx).2.trans hmark⟩⟩

/-- A span behind the mark. -/
theorem Stacked.push (h : Stacked lo hi bottom mark live) (hbottom : bottom ≤ mark)
    (hlo : mark ≤ lo x) (hlohi : lo x ≤ hi x) (hhi : hi x ≤ mark') :
    Stacked lo hi bottom mark' (x :: live) := by
  constructor
  · apply List.Pairwise.cons
    · intro y hy
      exact .inr ((h.within y hy).2.trans hlo)
    · exact h.apart
  · intro y hy
    rcases List.mem_cons.mp hy with rfl | hy
    · exact ⟨hbottom.trans hlo, hhi⟩
    · exact (h.mono (hlo.trans (hlohi.trans hhi))).within y hy

end Spans
