import Mathlib.Data.List.Basic

/-! # Ledgers of resources

A ledger has the resources that are held, the latest in front, and counts as faults the releases
of what is not held.  What is released right after it was acquired leaves no trace
(`release_acquire`), and a release skips what was acquired later and is something else
(`release_acquire_of_ne`, `release_append`); so a path through a program that releases all it
has acquired leads back to the ledger it started with. -/

structure Ledger (ρ : Type) where
  held : List ρ
  faults : ℕ
deriving DecidableEq, Repr

namespace Ledger

variable {ρ : Type} [DecidableEq ρ]

def acquire (l : Ledger ρ) (r : ρ) : Ledger ρ := { l with held := r :: l.held }

def release (l : Ledger ρ) (r : ρ) : Ledger ρ where
  held := l.held.erase r
  faults := l.faults + if r ∈ l.held then 0 else 1

/-- A request that may fail. -/
def acquireOption (l : Ledger ρ) (r : Option ρ) : Ledger ρ := r.elim l l.acquire

/-- A release of what a request has given, if anything. -/
def releaseOption (l : Ledger ρ) (r : Option ρ) : Ledger ρ := r.elim l l.release

@[simp] theorem release_acquire (l : Ledger ρ) (r : ρ) : (l.acquire r).release r = l := by
  obtain ⟨held, faults⟩ := l
  simp [acquire, release]

theorem release_acquire_of_ne (l : Ledger ρ) {r s : ρ} (h : r ≠ s) :
    (l.acquire s).release r = (l.release r).acquire s := by
  have hmem : r ∈ (l.acquire s).held ↔ r ∈ l.held :=
    List.mem_cons.trans (or_iff_right h)
  unfold release
  rw [if_congr hmem rfl rfl, acquire, acquire, List.erase_cons_tail (by simp [h.symm])]

/-- A release takes out the latest that is equal to it. -/
theorem release_append (later held : List ρ) (faults : ℕ) {r : ρ} (h : r ∉ later) :
    (⟨later ++ r :: held, faults⟩ : Ledger ρ).release r = ⟨later ++ held, faults⟩ := by
  have hmem : r ∈ later ++ r :: held := List.mem_append_right _ (List.mem_cons_self ..)
  unfold release
  rw [if_pos hmem, List.erase_append_right _ h, List.erase_cons_head, Nat.add_zero]

/-- Two requests whose results are released in the order they were made. -/
theorem releaseOption_acquireOption (l : Ledger ρ) {p q : Option ρ}
    (h : ∀ r s, p = some r → q = some s → r ≠ s) :
    (((l.acquireOption p).acquireOption q).releaseOption p).releaseOption q = l := by
  cases p with
  | none =>
      cases q with
      | none => rfl
      | some s => exact l.release_acquire s
  | some r =>
      cases q with
      | none => exact l.release_acquire r
      | some s =>
          show (((l.acquire r).acquire s).release r).release s = l
          rw [release_acquire_of_ne _ (h r s rfl rfl), release_acquire, release_acquire]

end Ledger
