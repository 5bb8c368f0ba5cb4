import MachAudio.Lib.Framing

/-! # Machines that answer a stream

A `Machine` moves its state by every element it is given and emits a list of answers to it.
Its answers to a list are those to the first part followed by those to the rest, given in the
state that the first part has led to (`outputs_append`).

Behind a `Framer` a machine answers a raw stream (`streamOutputs`).  By the streaming law of the
framer it does so piece by piece as well as at once (`streamOutputs_append`). -/

namespace Framing

variable {α β γ σ : Type}

structure Machine (σ β γ : Type) where
  next : σ → β → σ
  emit : σ → β → List γ

namespace Machine

variable (M : Machine σ β γ) (F : Framer α β)

/-- The state that a list leads to. -/
def after (s : σ) (bs : List β) : σ := bs.foldl M.next s

/-- The answers to a list. -/
def outputs : σ → List β → List γ
  | _, [] => []
  | s, b :: bs => M.emit s b ++ outputs (M.next s b) bs

theorem outputs_append (s : σ) (bs bs' : List β) :
    M.outputs s (bs ++ bs') = M.outputs s bs ++ M.outputs (M.after s bs) bs' := by
  induction bs generalizing s with
  | nil => rfl
  | cons b bs ih =>
      rw [List.cons_append, outputs, ih, outputs, List.append_assoc]
      rfl

/-- The answers to a raw stream. -/
def streamOutputs (s : σ) (l : List α) : List γ := M.outputs s (F.split l).1

/-- The rest of a stream is answered from the state and the remainder that its start has left. -/
theorem streamOutputs_append (s : σ) (a b : List α) :
    M.streamOutputs F s (a ++ b) = M.streamOutputs F s a ++
      M.streamOutputs F (M.after s (F.split a).1) ((F.split a).2 ++ b) := by
  unfold streamOutputs
  rw [F.split_append, outputs_append]

end Machine
end Framing
