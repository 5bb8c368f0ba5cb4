import Mathlib.Data.Nat.Bitwise
import MachAudio.Lib.Memory

/-! # The arena

`arena.c`: a bump allocator over one buffer.  Sizes and offsets are `size_t`, with the
64-bit wrap of the round-up and of the addition written out.  `addr` is the absolute
address of `arena->buf`, which is never `NULL` here; the name, which is only logged, is
left out.  `buf` is the memory from that address on: a block handed out is a range of it,
and nothing clears a block, so it holds whatever was written there before. -/

namespace MachAudio

open ByteMem

/-- A range of bytes set aside for one buffer. -/
structure Block where
  start : ℕ
  size : ℕ
deriving DecidableEq, Repr

structure Arena where
  addr : ℕ
  buf : Mem
  size : ℕ
  curr : ℕ

/-- `align_up(n, align)`: `(n + align - 1) & ~(align - 1)` on 64-bit words. -/
def alignUp (n align : ℕ) : ℕ := ((n + align - 1) % 2 ^ 64) &&& (2 ^ 64 - align)

/-- `arena_init`. -/
def arenaInit (addr : ℕ) (buf : Mem) (size : ℕ) : Arena := ⟨addr, buf, size, 0⟩

/-- `arena_alloc`: the block, or `none` for `NULL`, and the arena after the call. -/
def arenaAlloc (arena : Arena) (size : ℕ) : Option Block × Arena :=
  if arena.size = 0 then (none, arena)
  else
    let alignedCurr := alignUp arena.curr 8
    if (alignedCurr + size) % 2 ^ 64 > arena.size then (none, arena)
    else (some ⟨alignedCurr, size⟩, { arena with curr := (alignedCurr + size) % 2 ^ 64 })

/-- `arena_reset`. -/
def arenaReset (arena : Arena) : Arena := { arena with curr := 0 }

/-- Clearing the low three bits of a 64-bit word. -/
theorem and_mask_eight {x : ℕ} (h : x < 2 ^ 64) : x &&& (2 ^ 64 - 8) = x / 8 * 8 := by
  have e1 : 2 ^ 64 - 8 = (2 ^ 61 - 1) <<< 3 := by decide
  have e2 : x / 8 * 8 = (x >>> 3) <<< 3 := by
    rw [Nat.shiftLeft_eq, Nat.shiftRight_eq_div_pow]
  rw [e1, e2]
  apply Nat.eq_of_testBit_eq
  intro i
  rw [Nat.testBit_and, Nat.testBit_shiftLeft, Nat.testBit_shiftLeft, Nat.testBit_two_pow_sub_one,
    Nat.testBit_shiftRight]
  by_cases hi : 3 ≤ i
  · obtain ⟨j, rfl⟩ := Nat.exists_eq_add_of_le hi
    by_cases hj : j < 61
    · simp [hj]
    · have hx : x.testBit (3 + j) = false :=
        Nat.testBit_lt_two_pow (lt_of_lt_of_le h (Nat.pow_le_pow_right (by omega) (by omega)))
      simp [hx]
  · simp [hi]

theorem alignUp_eq (n : ℕ) : alignUp n 8 = (n + 7) % 2 ^ 64 / 8 * 8 := by
  rw [alignUp, show n + 8 - 1 = n + 7 by omega, and_mask_eight (Nat.mod_lt _ (by decide))]

/-- Below the top of the address space the round-up does not wrap. -/
theorem alignUp_eight {n : ℕ} (h : n + 7 < 2 ^ 64) : alignUp n 8 = (n + 7) / 8 * 8 := by
  rw [alignUp_eq, Nat.mod_eq_of_lt h]

/-- What `arena_alloc` can do, on any arena and with the wraps. -/
theorem arenaAlloc_cases (arena : Arena) (n : ℕ) :
    (arenaAlloc arena n = (none, arena) ∧
        (arena.size = 0 ∨ arena.size < (alignUp arena.curr 8 + n) % 2 ^ 64)) ∨
      (arenaAlloc arena n = (some ⟨alignUp arena.curr 8, n⟩,
          { arena with curr := (alignUp arena.curr 8 + n) % 2 ^ 64 }) ∧
        arena.size ≠ 0 ∧ (alignUp arena.curr 8 + n) % 2 ^ 64 ≤ arena.size) := by
  unfold arenaAlloc
  by_cases hzero : arena.size = 0
  · rw [if_pos hzero]
    exact .inl ⟨rfl, .inl hzero⟩
  · rw [if_neg hzero]
    dsimp only
    by_cases hfull : (alignUp arena.curr 8 + n) % 2 ^ 64 > arena.size
    · rw [if_pos hfull]
      exact .inl ⟨rfl, .inr hfull⟩
    · rw [if_neg hfull]
      exact .inr ⟨rfl, hzero, not_lt.mp hfull⟩

/-- `arena_alloc` when the end of the block does not wrap: a block at the next multiple of 8 if
it fits, and otherwise nothing. -/
theorem arenaAlloc_of_lt {arena : Arena} {n : ℕ} (hpos : 0 < arena.size)
    (hlt : (arena.curr + 7) / 8 * 8 + n < 2 ^ 64) :
    arenaAlloc arena n =
      if (arena.curr + 7) / 8 * 8 + n ≤ arena.size then
        (some ⟨(arena.curr + 7) / 8 * 8, n⟩, { arena with curr := (arena.curr + 7) / 8 * 8 + n })
      else (none, arena) := by
  have ha : alignUp arena.curr 8 = (arena.curr + 7) / 8 * 8 := alignUp_eight (by omega)
  rw [arenaAlloc, if_neg (by omega)]
  simp only [ha, Nat.mod_eq_of_lt hlt]
  by_cases hfit : (arena.curr + 7) / 8 * 8 + n ≤ arena.size
  · rw [if_neg (by omega), if_pos hfit]
  · rw [if_pos (by omega), if_neg hfit]

/-- On an arena and a request that are far from the top of the address space nothing wraps. -/
theorem arenaAlloc_eq {arena : Arena} {n : ℕ} (hpos : 0 < arena.size)
    (hsize : arena.size < 2 ^ 62) (hcurr : arena.curr ≤ arena.size) (hn : n < 2 ^ 62) :
    arenaAlloc arena n =
      if (arena.curr + 7) / 8 * 8 + n ≤ arena.size then
        (some ⟨(arena.curr + 7) / 8 * 8, n⟩, { arena with curr := (arena.curr + 7) / 8 * 8 + n })
      else (none, arena) :=
  arenaAlloc_of_lt hpos (by omega)

theorem arenaAlloc_buf (arena : Arena) (n : ℕ) : (arenaAlloc arena n).2.buf = arena.buf := by
  simp only [arenaAlloc]
  split_ifs <;> rfl

/-- The allocator does not look at the bytes. -/
theorem arenaAlloc_withBuf (addr : ℕ) (buf m : Mem) (size curr n : ℕ) :
    arenaAlloc ⟨addr, m, size, curr⟩ n =
      ((arenaAlloc ⟨addr, buf, size, curr⟩ n).1,
        { (arenaAlloc ⟨addr, buf, size, curr⟩ n).2 with buf := m }) := by
  simp only [arenaAlloc]
  split_ifs <;> rfl

end MachAudio
