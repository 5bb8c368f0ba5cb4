import Mathlib.Data.List.Basic

/-! # Runs of a partial step function

`step s e` is the state after event `e`, or `none` when `e` cannot happen in `s`.
`Runs step C s es s'` says that the events `es` lead from `s` to `s'` and that every one of
them met the condition `C` in the state it found.  An invariant is proved once for one step
(`Runs.invariant`), also one that speaks of the events so far (`Runs.history`). -/

namespace Transition

variable {σ ε : Type}

/-- `es` leads from `s` to the last state, every event meeting `C` where it happened. -/
inductive Runs (step : σ → ε → Option σ) (C : σ → ε → Prop) (s : σ) : List ε → σ → Prop
  | nil : Runs step C s [] s
  | snoc {es : List ε} {e : ε} {s₁ s₂ : σ} :
      Runs step C s es s₁ → C s₁ e → step s₁ e = some s₂ → Runs step C s (es ++ [e]) s₂

/-- Every run, without a condition on its steps. -/
abbrev Reaches (step : σ → ε → Option σ) : σ → List ε → σ → Prop :=
  Runs step fun _ _ => True

variable {step : σ → ε → Option σ} {C C' : σ → ε → Prop} {s s' : σ} {es : List ε}

theorem Runs.mono (h : Runs step C s es s') (hC : ∀ s e, C s e → C' s e) :
    Runs step C' s es s' := by
  induction h with
  | nil => exact .nil
  | snoc _ hc hs ih => exact .snoc ih (hC _ _ hc) hs

/-- What holds at the start and is kept by every step that meets the condition holds at
the end of every run. -/
theorem Runs.invariant {I : σ → Prop} (h : Runs step C s es s') (h₀ : I s)
    (hstep : ∀ s e s', I s → C s e → step s e = some s' → I s') : I s' := by
  induction h with
  | nil => exact h₀
  | snoc _ hc hs ih => exact hstep _ _ _ ih hc hs

/-- An invariant that also speaks of the events so far. -/
theorem Runs.history {I : List ε → σ → Prop} (h : Runs step C s es s') (h₀ : I [] s)
    (hstep : ∀ es s e s', I es s → C s e → step s e = some s' → I (es ++ [e]) s') : I es s' := by
  induction h with
  | nil => exact h₀
  | snoc _ hc hs ih => exact hstep _ _ _ _ ih hc hs

theorem Runs.cons {e : ε} {s₁ : σ} (hc : C s e) (hs : step s e = some s₁)
    (h : Runs step C s₁ es s') : Runs step C s (e :: es) s' := by
  induction h with
  | nil => exact .snoc .nil hc hs
  | snoc _ hc' hs' ih => exact .snoc ih hc' hs'

/-- The state after `es`, if all of them can happen. -/
def run (step : σ → ε → Option σ) : σ → List ε → Option σ
  | s, [] => some s
  | s, e :: es => (step s e).bind fun s₁ => run step s₁ es

theorem reaches_of_run : ∀ {es : List ε} {s s' : σ}, run step s es = some s' →
    Reaches step s es s'
  | [], s, s', h => by
      obtain rfl := Option.some.inj h
      exact .nil
  | e :: es, s, s', h => by
      rw [run, Option.bind_eq_some_iff] at h
      obtain ⟨s₁, hs, h⟩ := h
      exact .cons trivial hs (reaches_of_run h)

theorem run_snoc : ∀ (es : List ε) (e : ε) (s : σ),
    run step s (es ++ [e]) = (run step s es).bind fun s₁ => step s₁ e
  | [], e, s => by
      rw [List.nil_append, run, run, Option.bind_some]
      cases step s e <;> rfl
  | e' :: es, e, s => by
      rw [List.cons_append, run, run, Option.bind_assoc]
      congr 1
      funext s₁
      exact run_snoc es e s₁

/-- A run in which every event is checked against a decidable condition. -/
theorem runs_of_run [∀ s e, Decidable (C s e)] : ∀ {es : List ε} {s s' : σ},
    run (fun s e => if C s e then step s e else none) s es = some s' → Runs step C s es s'
  | [], s, s', h => by
      obtain rfl := Option.some.inj h
      exact .nil
  | e :: es, s, s', h => by
      rw [run, Option.bind_eq_some_iff] at h
      obtain ⟨s₁, hs, h⟩ := h
      split_ifs at hs with hc
      exact .cons hc hs (runs_of_run h)

end Transition
