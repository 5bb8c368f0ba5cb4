import Mathlib.Data.List.Basic

/-! # Delay lines

A delay line holds the last elements of a stream: `feed line xs` is what the line `line` holds
after the elements `xs`.  However the stream is cut into pieces, the line ends up the same
(`feed_append`). -/

namespace DelayLine

variable {α : Type*}

/-- The line after the elements `xs`. -/
def feed (line xs : List α) : List α := (line ++ xs).drop xs.length

@[simp] theorem feed_nil (line : List α) : feed line [] = line := by simp [feed]

@[simp] theorem length_feed (line xs : List α) : (feed line xs).length = line.length := by
  rw [feed, List.length_drop, List.length_append, Nat.add_sub_cancel]

/-- The elements may come in pieces. -/
theorem feed_append (line xs ys : List α) : feed line (xs ++ ys) = feed (feed line xs) ys := by
  unfold feed
  have hle : xs.length ≤ (line ++ xs).length := by
    rw [List.length_append]
    omega
  rw [← List.append_assoc, List.length_append, ← List.drop_drop, List.drop_append_of_le_length hle]

/-- At least as many elements as the line is long replace it. -/
theorem feed_of_length_le {line xs : List α} (h : line.length ≤ xs.length) :
    feed line xs = xs.drop (xs.length - line.length) := by
  rw [feed, List.drop_append, List.drop_eq_nil_of_le h, List.nil_append]

/-- Fewer elements shift it. -/
theorem feed_of_le_length {line xs : List α} (h : xs.length ≤ line.length) :
    feed line xs = line.drop xs.length ++ xs := List.drop_append_of_le_length h

theorem getElem?_feed (line xs : List α) (i : ℕ) :
    (feed line xs)[i]? = (line ++ xs)[xs.length + i]? := List.getElem?_drop

end DelayLine
