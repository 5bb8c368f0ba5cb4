import Mathlib.Data.List.Basic

/-! # State-passing programs and their pre- and postconditions

`Exec σ α` is a program over a state `σ` that always returns a value and a final state.
`Sat P x Q` is the Hoare triple of such a program: from a state with `P` it ends with the
value and state in `Q`; `Returns P x v Q` is the special case in which the value is known to
be `v`.  `Keeps g x` says that `x` leaves the component `g` of the state as it is, `Ignores f x`
that `x` does not see the change `f` of its state, and `Sync` is the triple of two runs of one
program, which return the same value.  The rules below are one
for each way a program is built, so a proof about a program follows its text. -/

/-- A program over the state `σ` with a result in `α`. -/
def Exec (σ α : Type) : Type := σ → α × σ

namespace Exec

variable {σ α β : Type}

instance : Monad (Exec σ) where
  pure a := fun s => (a, s)
  bind x f := fun s => f (x s).1 (x s).2

@[simp] theorem pure_apply (a : α) (s : σ) : (pure a : Exec σ α) s = (a, s) := rfl

@[simp] theorem bind_apply (x : Exec σ α) (f : α → Exec σ β) (s : σ) :
    (x >>= f) s = f (x s).1 (x s).2 := rfl

@[simp] theorem map_apply (f : α → β) (x : Exec σ α) (s : σ) :
    (f <$> x) s = (f (x s).1, (x s).2) := rfl

/-- Read a component of the state. -/
def read (f : σ → α) : Exec σ α := fun s => (f s, s)

/-- Change the state. -/
def change (f : σ → σ) : Exec σ Unit := fun s => ((), f s)

@[simp] theorem read_apply (f : σ → α) (s : σ) : read f s = (f s, s) := rfl

@[simp] theorem change_apply (f : σ → σ) (s : σ) : change f s = ((), f s) := rfl

/-- From every state with `P`, the program ends with a value and a state in `Q`. -/
def Sat (P : σ → Prop) (x : Exec σ α) (Q : α → σ → Prop) : Prop := ∀ s, P s → Q (x s).1 (x s).2

variable {P P' : σ → Prop} {Q Q' : α → σ → Prop} {R : β → σ → Prop}

theorem Sat.pure {a : α} (h : ∀ s, P s → Q a s) : Sat P (Pure.pure a) Q := h

theorem Sat.bind {x : Exec σ α} {f : α → Exec σ β} (hx : Sat P x Q)
    (hf : ∀ a, Sat (Q a) (f a) R) : Sat P (x >>= f) R :=
  fun s hs => hf (x s).1 (x s).2 (hx s hs)

theorem Sat.weaken {x : Exec σ α} (h : Sat P x Q) (hP : ∀ s, P' s → P s)
    (hQ : ∀ a s, Q a s → Q' a s) : Sat P' x Q' :=
  fun s hs => hQ _ _ (h s (hP s hs))

theorem Sat.pre {x : Exec σ α} (h : Sat P x Q) (hP : ∀ s, P' s → P s) : Sat P' x Q :=
  h.weaken hP fun _ _ hq => hq

theorem Sat.post {x : Exec σ α} (h : Sat P x Q) (hQ : ∀ a s, Q a s → Q' a s) : Sat P x Q' :=
  h.weaken (fun _ hp => hp) hQ

theorem Sat.ite {c : Prop} [Decidable c] {x y : Exec σ α} (hx : c → Sat P x Q)
    (hy : ¬c → Sat P y Q) : Sat P (if c then x else y) Q := by
  split
  · exact hx ‹_›
  · exact hy ‹_›

/-- A fact that does not depend on the state may be used from the precondition. -/
theorem Sat.assume {p : Prop} {x : Exec σ α} (h : p → Sat P x Q) :
    Sat (fun s => p ∧ P s) x Q := fun s hs => h hs.1 s hs.2

theorem Sat.read {f : σ → α} (h : ∀ s, P s → Q (f s) s) : Sat P (Exec.read f) Q := h

theorem Sat.change {f : σ → σ} {Q : Unit → σ → Prop} (h : ∀ s, P s → Q () (f s)) :
    Sat P (Exec.change f) Q := h

/-! ### Programs with a known result -/

/-- From every state with `P`, the program returns `v` and ends in a state with `Q`. -/
def Returns (P : σ → Prop) (x : Exec σ α) (v : α) (Q : σ → Prop) : Prop :=
  ∀ s, P s → (x s).1 = v ∧ Q (x s).2

variable {v : α} {u : β} {R₁ R₂ : σ → Prop}

theorem Returns.pure (h : ∀ s, P s → R₁ s) : Returns P (Pure.pure v) v R₁ :=
  fun s hs => ⟨rfl, h s hs⟩

theorem Returns.bind {x : Exec σ α} {f : α → Exec σ β} (hx : Returns P x v R₁)
    (hf : Returns R₁ (f v) u R₂) : Returns P (x >>= f) u R₂ := by
  intro s hs
  obtain ⟨h₁, h₂⟩ := hx s hs
  rw [bind_apply, h₁]
  exact hf _ h₂

/-- The value of the first program is known only by its postcondition. -/
theorem Returns.bindSat {x : Exec σ α} {f : α → Exec σ β} (hx : Sat P x Q)
    (hf : ∀ a, Returns (Q a) (f a) u R₂) : Returns P (x >>= f) u R₂ :=
  fun s hs => hf (x s).1 (x s).2 (hx s hs)

theorem Returns.weaken {x : Exec σ α} (h : Returns P x v R₁) (hP : ∀ s, P' s → P s)
    (hQ : ∀ s, R₁ s → R₂ s) : Returns P' x v R₂ :=
  fun s hs => ⟨(h s (hP s hs)).1, hQ _ (h s (hP s hs)).2⟩

theorem Returns.pre {x : Exec σ α} (h : Returns P x v R₁) (hP : ∀ s, P' s → P s) :
    Returns P' x v R₁ := h.weaken hP fun _ h => h

theorem Returns.post {x : Exec σ α} (h : Returns P x v R₁) (hQ : ∀ s, R₁ s → R₂ s) :
    Returns P x v R₂ := h.weaken (fun _ h => h) hQ

/-- A fact that does not depend on the state may be used from the precondition. -/
theorem Returns.assume {p : Prop} {x : Exec σ α} (h : p → Returns P x v R₁) :
    Returns (fun s => p ∧ P s) x v R₁ := fun s hs => h hs.1 s hs.2

/-! ### Components that are kept -/

variable {γ δ : Type}

/-- The program leaves the component `g` of the state as it is. -/
def Keeps (g : σ → γ) (x : Exec σ α) : Prop := ∀ s, g (x s).2 = g s

variable {g : σ → γ}

theorem Keeps.pure {a : α} : Keeps g (Pure.pure a : Exec σ α) := fun _ => rfl

theorem Keeps.bind {x : Exec σ α} {f : α → Exec σ β} (hx : Keeps g x) (hf : ∀ a, Keeps g (f a)) :
    Keeps g (x >>= f) := fun s => (hf (x s).1 (x s).2).trans (hx s)

theorem Keeps.ite {c : Prop} [Decidable c] {x y : Exec σ α} (hx : Keeps g x) (hy : Keeps g y) :
    Keeps g (if c then x else y) := by
  split
  · exact hx
  · exact hy

/-- What is computed from a kept component is kept. -/
theorem Keeps.comp {x : Exec σ α} (hx : Keeps g x) (f : γ → δ) : Keeps (fun s => f (g s)) x :=
  fun s => congrArg f (hx s)

/-! ### Changes that go unseen -/

/-- The program does not see the change `f` of its state and hands it on. -/
def Ignores (f : σ → σ) (x : Exec σ α) : Prop := ∀ s, x (f s) = ((x s).1, f (x s).2)

variable {f : σ → σ}

theorem Ignores.pure {a : α} : Ignores f (Pure.pure a : Exec σ α) := fun _ => rfl

theorem Ignores.bind {x : Exec σ α} {k : α → Exec σ β} (hx : Ignores f x)
    (hk : ∀ a, Ignores f (k a)) : Ignores f (x >>= k) := by
  intro s
  rw [bind_apply, bind_apply, hx s]
  exact hk (x s).1 (x s).2

theorem Ignores.ite {c : Prop} [Decidable c] {x y : Exec σ α} (hx : Ignores f x)
    (hy : Ignores f y) : Ignores f (if c then x else y) := by
  split
  · exact hx
  · exact hy

/-- What is read has changed, but not for what follows. -/
theorem Ignores.bindRead {k : γ → Exec σ β} (hk : ∀ s, k (g (f s)) = k (g s))
    (h : ∀ c, Ignores f (k c)) : Ignores f (Exec.read g >>= k) := by
  intro s
  rw [bind_apply, bind_apply, read_apply, read_apply, hk s]
  exact h (g s) s

/-! ### Two runs of one program -/

/-- From two states in `R` the program returns one value `a`, and ends in states with `S a`. -/
def Sync (R : σ → σ → Prop) (x : Exec σ α) (S : α → σ → σ → Prop) : Prop :=
  ∀ s s', R s s' → (x s').1 = (x s).1 ∧ S (x s).1 (x s).2 (x s').2

variable {A A' : σ → σ → Prop} {S S' : α → σ → σ → Prop} {T : β → σ → σ → Prop}

theorem Sync.pure {a : α} (h : ∀ s s', A s s' → S a s s') : Sync A (Pure.pure a) S :=
  fun s s' hs => ⟨rfl, h s s' hs⟩

theorem Sync.bind {x : Exec σ α} {f : α → Exec σ β} (hx : Sync A x S)
    (hf : ∀ a, Sync (S a) (f a) T) : Sync A (x >>= f) T := by
  intro s s' hs
  obtain ⟨h₁, h₂⟩ := hx s s' hs
  rw [bind_apply, bind_apply, h₁]
  exact hf _ _ _ h₂

/-- The value of the first program is known. -/
theorem Sync.bindVal {x : Exec σ α} {f : α → Exec σ β}
    (hx : Sync A x fun a s s' => a = v ∧ A' s s') (hf : Sync A' (f v) T) :
    Sync A (x >>= f) T := by
  refine Sync.bind hx fun a s s' hs => ?_
  obtain ⟨rfl, hs⟩ := hs
  exact hf s s' hs

theorem Sync.weaken {x : Exec σ α} (h : Sync A x S) (hA : ∀ s s', A' s s' → A s s')
    (hS : ∀ a s s', S a s s' → S' a s s') : Sync A' x S' :=
  fun s s' hs => ⟨(h s s' (hA s s' hs)).1, hS _ _ _ (h s s' (hA s s' hs)).2⟩

theorem Sync.post {x : Exec σ α} (h : Sync A x S) (hS : ∀ a s s', S a s s' → S' a s s') :
    Sync A x S' := h.weaken (fun _ _ hs => hs) hS

theorem Sync.ite {c : Prop} [Decidable c] {x y : Exec σ α} (hx : c → Sync A x S)
    (hy : ¬c → Sync A y S) : Sync A (if c then x else y) S := by
  split
  · exact hx ‹_›
  · exact hy ‹_›

/-- A fact that does not depend on the states may be used from the precondition. -/
theorem Sync.assume {p : Prop} {x : Exec σ α} (h : p → Sync A x S) :
    Sync (fun s s' => p ∧ A s s') x S := fun s s' hs => h hs.1 s s' hs.2

end Exec
