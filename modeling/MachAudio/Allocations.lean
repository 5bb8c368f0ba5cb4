import MachAudio.Arena
import MachAudio.Lib.Spans

/-! # Runs of the arena

An arena is used by requests and resets, in any order.  `ArenaUse` is an arena together with the
blocks it has handed out since the last reset; `ArenaUse.Ok` is what every run from `arena_init`
keeps as long as no sum wraps.  A request may be for 0 bytes, and it may fill the arena to its
last byte. -/

namespace MachAudio

open ByteMem Spans

/-! ### Runs -/

/-- The offsets of the bytes of a block. -/
def Block.bytes (b : Block) : Set ℕ := Set.Ico b.start (b.start + b.size)

/-- No byte belongs to both blocks. -/
def Block.Separate (b b' : Block) : Prop := ∀ i ∈ b.bytes, i ∉ b'.bytes

/-- What is called on an arena. -/
inductive ArenaOp where
  | alloc (size : ℕ)
  | reset
deriving DecidableEq, Repr

/-- An arena and the blocks it has handed out since it was last reset, the newest first. -/
structure ArenaUse where
  arena : Arena
  live : List Block

namespace ArenaUse

/-- An arena right after `arena_init`. -/
def fresh (addr : ℕ) (buf : Mem) (size : ℕ) : ArenaUse := ⟨arenaInit addr buf size, []⟩

/-- A request; a block is added when it is not `NULL`. -/
def alloc (u : ArenaUse) (size : ℕ) : ArenaUse :=
  ⟨(arenaAlloc u.arena size).2, (arenaAlloc u.arena size).1.toList ++ u.live⟩

def step (u : ArenaUse) : ArenaOp → ArenaUse
  | .alloc size => u.alloc size
  | .reset => ⟨arenaReset u.arena, []⟩

def run (u : ArenaUse) (ops : List ArenaOp) : ArenaUse := ops.foldl step u

end ArenaUse

/-! ### The invariant -/

/-- What every run keeps. -/
structure ArenaUse.Ok (size : ℕ) (u : ArenaUse) : Prop where
  size_eq : u.arena.size = size
  curr_le : u.arena.curr ≤ size
  stacked : Stacked Block.start (fun b => b.start + b.size) 0 u.arena.curr u.live
  aligned : ∀ b ∈ u.live, b.start % 8 = 0

section run
variable {size : ℕ} (hpos : 1 ≤ size) (hsize : size ≤ 2 ^ 48) {u : ArenaUse}

include hpos hsize

/-- A request of a run: the sum of the cursor and the size does not wrap. -/
theorem ArenaUse.Ok.alloc_eq (h : u.Ok size) {n : ℕ} (hn : n < 2 ^ 63) :
    arenaAlloc u.arena n =
      if (u.arena.curr + 7) / 8 * 8 + n ≤ size then
        (some ⟨(u.arena.curr + 7) / 8 * 8, n⟩,
          { u.arena with curr := (u.arena.curr + 7) / 8 * 8 + n })
      else (none, u.arena) := by
  have hcurr := h.curr_le
  rw [arenaAlloc_of_lt (by rw [h.size_eq]; omega) (by omega)]
  simp only [h.size_eq]

theorem ArenaUse.Ok.alloc (h : u.Ok size) {n : ℕ} (hn : n < 2 ^ 63) : (u.alloc n).Ok size := by
  unfold ArenaUse.alloc
  rw [h.alloc_eq hpos hsize hn]
  by_cases hfit : (u.arena.curr + 7) / 8 * 8 + n ≤ size
  · rw [if_pos hfit]
    constructor
    · exact h.size_eq
    · exact hfit
    · apply h.stacked.push
      · exact Nat.zero_le _
      · show u.arena.curr ≤ (u.arena.curr + 7) / 8 * 8
        omega
      · exact Nat.le_add_right _ _
      · exact Nat.le_refl _
    · intro b hb
      rcases List.mem_cons.mp hb with rfl | hb
      · exact Nat.mul_mod_left _ _
      · exact h.aligned b hb
  · rw [if_neg hfit]
    exact h

omit hpos hsize in
theorem ArenaUse.Ok.reset (h : u.Ok size) : (u.step .reset).Ok size :=
  ⟨h.size_eq, Nat.zero_le _, Stacked.nil, fun _ hb => absurd hb List.not_mem_nil⟩

/-- By induction on the calls, the invariant holds after every run. -/
theorem ArenaUse.Ok.run (h : u.Ok size) (ops : List ArenaOp)
    (hops : ∀ n, ArenaOp.alloc n ∈ ops → n < 2 ^ 63) : (u.run ops).Ok size := by
  induction ops generalizing u with
  | nil => exact h
  | cons op ops ih =>
      have hrest : ∀ n, ArenaOp.alloc n ∈ ops → n < 2 ^ 63 := fun n hn =>
        hops n (List.mem_cons_of_mem _ hn)
      cases op with
      | alloc n => exact ih (h.alloc hpos hsize (hops n List.mem_cons_self)) hrest
      | reset => exact ih h.reset hrest

end run

theorem ArenaUse.fresh_ok (addr : ℕ) (buf : Mem) (size : ℕ) :
    (ArenaUse.fresh addr buf size).Ok size :=
  ⟨rfl, Nat.zero_le _, Stacked.nil, fun _ hb => absurd hb List.not_mem_nil⟩

/-! ### The allocator -/

/-- **The arena on every run.**  The cursor stays inside; the blocks handed out since the last
reset begin at multiples of 8, lie inside the buffer and share no byte; and a request fails,
without an effect, exactly when it does not fit behind the cursor rounded up to 8. -/
theorem arena_run (addr : ℕ) (buf : Mem) (size : ℕ) (hpos : 1 ≤ size) (hsize : size ≤ 2 ^ 48)
    (ops : List ArenaOp) (hops : ∀ n, ArenaOp.alloc n ∈ ops → n < 2 ^ 63) :
    let u := (ArenaUse.fresh addr buf size).run ops
    u.arena.curr ≤ size ∧
      (∀ b ∈ u.live, b.start % 8 = 0 ∧ b.start + b.size ≤ size) ∧
      u.live.Pairwise Block.Separate ∧
      ∀ n < 2 ^ 63,
        ((arenaAlloc u.arena n).1 = none → (arenaAlloc u.arena n).2 = u.arena) ∧
          ((arenaAlloc u.arena n).1 = none ↔ size < (u.arena.curr + 7) / 8 * 8 + n) ∧
          ∀ b, (arenaAlloc u.arena n).1 = some b → b = ⟨(u.arena.curr + 7) / 8 * 8, n⟩ := by
  intro u
  have h : u.Ok size := (ArenaUse.fresh_ok addr buf size).run hpos hsize ops hops
  refine ⟨h.curr_le, fun b hb => ⟨h.aligned b hb, (h.stacked.within b hb).2.trans h.curr_le⟩,
    h.stacked.apart.imp fun hapart i hi hi' => hapart.not_both hi.1 hi.2 hi'.1 hi'.2,
    fun n hn => ?_⟩
  rw [h.alloc_eq hpos hsize hn]
  by_cases hfit : (u.arena.curr + 7) / 8 * 8 + n ≤ size
  · rw [if_pos hfit]
    refine ⟨fun hnone => absurd hnone (by simp), ?_, fun b hb => (Option.some.inj hb).symm⟩
    constructor
    · intro hnone
      exact absurd hnone (by simp)
    · intro hlt
      omega
  · rw [if_neg hfit]
    refine ⟨fun _ => rfl, ?_, fun b hb => absurd hb (by simp)⟩
    constructor
    · intro _
      omega
    · intro _
      rfl

/-- Two requests for 10 bytes, and a third that is one byte too large. -/
theorem arena_run_two :
    let u := (ArenaUse.fresh 4096 (fun _ => 7) 1024).run [.alloc 10, .alloc 10]
    u.live = [⟨16, 10⟩, ⟨0, 10⟩] ∧ u.live.Pairwise Block.Separate ∧
      (arenaAlloc u.arena 993).1 = none ∧ (arenaAlloc u.arena 993).2 = u.arena := by
  obtain ⟨-, -, hseparate, hrequest⟩ := arena_run 4096 (fun _ => 7) 1024 (by decide) (by decide)
    [.alloc 10, .alloc 10] (by intro n hn; simp at hn; omega)
  have hfails := (hrequest 993 (by decide)).2.1.mpr (by decide)
  exact ⟨by decide, hseparate, hfails, (hrequest 993 (by decide)).1 hfails⟩

end MachAudio
