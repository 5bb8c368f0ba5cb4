import MachAudio.Allocations
import MachAudio.Reachable

/-! # Where the state of the voice detector lies

`vad_gru_init` pads the absolute address of the cursor to a multiple of 32 and then calls
`arena_alloc`, which rounds the cursor, an offset, up to a multiple of 8.  The two agree when the
base address is a multiple of 8; otherwise the second moves the state off the boundary the first
has found.  The padding is written to the cursor before the request, and a request that fails
leaves it there.

The arena may have any size that fits a `size_t`, and its history any requests.  A request close
to 2^64 wraps and succeeds, and the cursor then lies below blocks that are still in use: every
place for a state is already taken (`Covered`), so the exact condition (`InitFits`) has to exclude
such histories. -/

namespace MachAudio

open ByteMem

/-! ### The whole of `vad_gru_init` -/

/-- `vad_gru_reset`: the hidden state, which is all of a `VadGruState`, is cleared. -/
def vadGruResetState (buf : Mem) : Option Block → Mem
  | none => buf
  | some state => buf.store state.start (List.replicate sizeofVadGruState 0)

/-- `vad_gru_init` with the reset at its end. -/
def vadGruInitReset (arena : Arena) : Option Block × Arena :=
  let r := vadGruInit arena
  (r.1, { r.2 with buf := vadGruResetState r.2.buf r.1 })

/-- What `vad_gru_init` is for, on an arena that has handed out the blocks `live`. -/
def InitPromise (arena : Arena) (live : List Block) : Prop :=
  (∀ state, (vadGruInitReset arena).1 = some state →
    (arena.addr + state.start) % 32 = 0 ∧ state.size = sizeofVadGruState ∧
      state.start + sizeofVadGruState ≤ arena.size ∧
      (∀ b ∈ live, state.Separate b) ∧
      (vadGruInitReset arena).2.buf.load state.start sizeofVadGruState =
        List.replicate sizeofVadGruState 0) ∧
    ((vadGruInitReset arena).1 = none → (vadGruInitReset arena).2.curr = arena.curr)

/-- When the promise is kept: there is room behind the next multiple of 32, the base address is a
multiple of 8 and every block lies below the cursor; or the cursor is at a multiple of 32 already
and `arena_alloc` has no room there. -/
def InitFits (arena : Arena) (live : List Block) : Prop :=
  (arena.addr % 8 = 0 ∧ (∀ b ∈ live, b.start + b.size ≤ arena.curr) ∧
      (arena.addr + arena.curr + 31) / 32 * 32 + sizeofVadGruState ≤ arena.addr + arena.size) ∨
    ((arena.addr + arena.curr) % 32 = 0 ∧
      (arena.size = 0 ∨ arena.size < (alignUp arena.curr 8 + sizeofVadGruState) % 2 ^ 64))

/-! ### Histories -/

/-- What is called on an arena that a voice detector is allocated from. -/
inductive VadOp where
  | arena (op : ArenaOp)
  | vadGruInit
deriving DecidableEq, Repr

namespace ArenaUse

def vadGruInit (u : ArenaUse) : ArenaUse :=
  ⟨(vadGruInitReset u.arena).2, (vadGruInitReset u.arena).1.toList ++ u.live⟩

def vadStep (u : ArenaUse) : VadOp → ArenaUse
  | .arena op => u.step op
  | .vadGruInit => u.vadGruInit

def vadRun (u : ArenaUse) (ops : List VadOp) : ArenaUse := ops.foldl vadStep u

/-- The padding of `vad_gru_init`, before its request. -/
def padded (u : ArenaUse) : ArenaUse :=
  ⟨{ u.arena with curr := (u.arena.curr + vadPad u.arena) % 2 ^ 64 }, u.live⟩

end ArenaUse

/-! ### What is taken -/

/-- Every place for a state below `top` is taken: some block shares a byte with it. -/
def Covered (addr top : ℕ) (live : List Block) : Prop :=
  ∀ v < top, v % 8 = 0 → (addr + v) % 32 = 0 →
    ∃ b ∈ live, ¬ Block.Separate ⟨v, sizeofVadGruState⟩ b

section covered
variable {addr top top' v : ℕ} {live live' : List Block}

theorem Covered.subset (h : Covered addr top live) (hsub : live ⊆ live') :
    Covered addr top live' := by
  intro v hv h8 h32
  obtain ⟨b, hb, hmeets⟩ := h v hv h8 h32
  exact ⟨b, hsub hb, hmeets⟩

/-- The cursor moves over places that are taken. -/
theorem Covered.extend (h : Covered addr top live)
    (hnew : ∀ v, top ≤ v → v < top' → v % 8 = 0 → (addr + v) % 32 = 0 →
      ∃ b ∈ live, ¬ Block.Separate ⟨v, sizeofVadGruState⟩ b) :
    Covered addr top' live := by
  intro v hv h8 h32
  by_cases hlt : v < top
  · exact h v hlt h8 h32
  · exact hnew v (not_lt.mp hlt) hv h8 h32

/-- A block takes the place its bytes begin before and end behind. -/
theorem not_separate_of_mem {b : Block} (h₁ : b.start ≤ v) (h₂ : v < b.start + b.size) :
    ¬ Block.Separate ⟨v, sizeofVadGruState⟩ b := by
  have hstate : v < v + sizeofVadGruState := Nat.lt_add_of_pos_right (by decide)
  intro h
  exact h v ⟨Nat.le_refl _, hstate⟩ ⟨h₁, h₂⟩

end covered

/-- The cursor is behind every block, and what it has passed is taken; or, after a wrap, everything
is taken. -/
structure ArenaUse.Tracked (u : ArenaUse) : Prop where
  size_lt : u.arena.size < 2 ^ 64
  curr_lt : u.arena.curr < 2 ^ 64
  covered : (∀ b ∈ u.live, b.start + b.size ≤ u.arena.curr) ∧
      Covered u.arena.addr u.arena.curr u.live ∨
    Covered u.arena.addr (2 ^ 64) u.live

section tracked
variable {u : ArenaUse}

/-- A request on any arena, of any size. -/
theorem ArenaUse.Tracked.alloc (h : u.Tracked) (n : ℕ) : (u.alloc n).Tracked := by
  unfold ArenaUse.alloc
  rcases arenaAlloc_cases u.arena n with ⟨hnull, -⟩ | ⟨hsome, -, -⟩
  · rw [hnull]
    exact h
  · rw [hsome]
    obtain ⟨s, hs⟩ : ∃ s, alignUp u.arena.curr 8 = s := ⟨_, rfl⟩
    have hstart := alignUp_eq u.arena.curr
    have hcurr := h.curr_lt
    have hsub : u.live ⊆ ⟨s, n⟩ :: u.live := List.subset_cons_self _ _
    rw [hs] at hstart ⊢
    refine ⟨h.size_lt, Nat.mod_lt _ (by decide), ?_⟩
    rcases h.covered with ⟨hbelow, hcov⟩ | hall
    · by_cases hwrap : s + n < 2 ^ 64 ∧ u.arena.curr + 7 < 2 ^ 64
      · left
        rw [Nat.mod_eq_of_lt hwrap.1]
        constructor
        · intro b hb
          rcases List.mem_cons.mp hb with rfl | hb
          · exact Nat.le_refl _
          · have hle := hbelow b hb
            show b.start + b.size ≤ s + n
            omega
        · apply (hcov.subset hsub).extend
          intro v h₁ h₂ h8 _
          exact ⟨_, List.mem_cons_self, not_separate_of_mem (show s ≤ v by omega) h₂⟩
      · right
        apply (hcov.subset hsub).extend
        intro v h₁ h₂ h8 _
        exact ⟨_, List.mem_cons_self,
          not_separate_of_mem (show s ≤ v by omega) (show v < s + n by omega)⟩
    · exact .inr (hall.subset hsub)

/-- Between the cursor and the padded cursor there is no place for a state. -/
theorem ArenaUse.Tracked.padded (h : u.Tracked) : u.padded.Tracked := by
  have hlt := vadPad_lt u.arena
  have haligned := vadPad_aligned u.arena
  have hcurr := h.curr_lt
  refine ⟨h.size_lt, Nat.mod_lt _ (by decide), ?_⟩
  rcases h.covered with ⟨hbelow, hcov⟩ | hall
  · by_cases hwrap : u.arena.curr + vadPad u.arena < 2 ^ 64
    · left
      show (∀ b ∈ u.live, b.start + b.size ≤ (u.arena.curr + vadPad u.arena) % 2 ^ 64) ∧
        Covered u.arena.addr ((u.arena.curr + vadPad u.arena) % 2 ^ 64) u.live
      rw [Nat.mod_eq_of_lt hwrap]
      constructor
      · intro b hb
        exact (hbelow b hb).trans (Nat.le_add_right _ _)
      · apply hcov.extend
        intro v h₁ h₂ _ h32
        omega
    · right
      apply hcov.extend
      intro v h₁ h₂ _ h32
      omega
  · exact .inr hall

omit u in
theorem ArenaUse.tracked_of_nil {arena : Arena} (hsize : arena.size < 2 ^ 64)
    (h : arena.curr = 0) : ArenaUse.Tracked ⟨arena, []⟩ :=
  ⟨hsize, show arena.curr < 2 ^ 64 by omega, .inl ⟨fun _ hb => absurd hb List.not_mem_nil,
    fun v hv => absurd hv (show ¬ v < arena.curr by omega)⟩⟩

/-- The reset clears bytes and nothing else. -/
theorem ArenaUse.Tracked.vadGruInit (h : u.Tracked) : u.vadGruInit.Tracked := by
  have halloc := h.padded.alloc sizeofVadGruState
  have hinit := vadGruInit_eq h.curr_lt
  unfold ArenaUse.vadGruInit vadGruInitReset
  rw [hinit]
  exact ⟨halloc.size_lt, halloc.curr_lt, halloc.covered⟩

/-- By induction on the calls, every history is tracked. -/
theorem ArenaUse.Tracked.vadRun (h : u.Tracked) (ops : List VadOp) : (u.vadRun ops).Tracked := by
  induction ops generalizing u with
  | nil => exact h
  | cons op ops ih =>
      cases op with
      | arena op =>
          cases op with
          | alloc n => exact ih (h.alloc n)
          | reset => exact ih (tracked_of_nil h.size_lt rfl)
      | vadGruInit => exact ih h.vadGruInit

end tracked

/-! ### The exact condition -/

section promise
variable {arena : Arena} {live : List Block}

/-- On an aligned base the padded cursor needs no further rounding. -/
theorem vadGruInit_room (hsize : arena.size < 2 ^ 64) (h8 : arena.addr % 8 = 0)
    (hroom : arena.curr + vadPad arena + sizeofVadGruState ≤ arena.size) :
    vadGruInit arena = (some ⟨arena.curr + vadPad arena, sizeofVadGruState⟩,
      { arena with curr := arena.curr + vadPad arena + sizeofVadGruState }) := by
  have haligned := vadPad_aligned arena
  obtain ⟨c, hc⟩ : ∃ c, arena.curr + vadPad arena = c := ⟨_, rfl⟩
  rw [hc] at hroom haligned ⊢
  simp only [sizeofVadGruState] at hroom ⊢
  have hround : (c + 7) / 8 * 8 = c := by omega
  have halloc : arenaAlloc ⟨arena.addr, arena.buf, arena.size, c⟩ 96 = _ :=
    arenaAlloc_of_lt (by simp only; omega) (by simp only; omega)
  simp only [hround, if_pos hroom] at halloc
  rw [vadGruInit_eq (by omega), hc, Nat.mod_eq_of_lt (by omega)]
  exact halloc

theorem vadGruInit_null (hcurr : arena.curr < 2 ^ 64) (h32 : (arena.addr + arena.curr) % 32 = 0)
    (hnull : arena.size = 0 ∨ arena.size < (alignUp arena.curr 8 + sizeofVadGruState) % 2 ^ 64) :
    vadGruInit arena = (none, arena) := by
  have hpad : vadPad arena = 0 := if_pos h32
  rw [vadGruInit_eq hcurr, hpad, Nat.add_zero, Nat.mod_eq_of_lt hcurr]
  rcases arenaAlloc_cases arena sizeofVadGruState with ⟨h, -⟩ | ⟨-, hpos, hle⟩
  · exact h
  · omega

/-- The promise where it can be kept. -/
theorem initPromise_of_fits (hsize : arena.size < 2 ^ 64) (hcurr : arena.curr < 2 ^ 64)
    (h : InitFits arena live) : InitPromise arena live := by
  unfold InitPromise vadGruInitReset
  rcases h with ⟨h8, hbelow, hroom⟩ | ⟨h32, hnull⟩
  · have hlt := vadPad_lt arena
    have haligned := vadPad_aligned arena
    have hend : arena.curr + vadPad arena + sizeofVadGruState ≤ arena.size := by omega
    rw [vadGruInit_room hsize h8 hend]
    refine ⟨?_, fun hnone => absurd hnone (by simp)⟩
    rintro state hstate
    obtain rfl := Option.some.inj hstate
    refine ⟨haligned, rfl, hend, ?_, ?_⟩
    · intro b hb i hi hib
      have hle := hbelow b hb
      have h₁ : arena.curr + vadPad arena ≤ i := hi.1
      have h₂ : i < b.start + b.size := hib.2
      omega
    · have hload := load_store_same arena.buf (arena.curr + vadPad arena)
        (List.replicate sizeofVadGruState 0)
      rw [List.length_replicate] at hload
      exact hload
  · rw [vadGruInit_null hcurr h32 hnull]
    exact ⟨fun state hstate => absurd hstate (by simp), fun _ => rfl⟩

/-- A state that is apart from all blocks shows that the cursor has not wrapped. -/
theorem ArenaUse.Tracked.initFits {u : ArenaUse} (h : u.Tracked)
    (hpromise : InitPromise u.arena u.live) : InitFits u.arena u.live := by
  have hlt := vadPad_lt u.arena
  have haligned := vadPad_aligned u.arena
  have hcurr := h.curr_lt
  have hstart := alignUp_eq ((u.arena.curr + vadPad u.arena) % 2 ^ 64)
  unfold InitPromise vadGruInitReset at hpromise
  rw [vadGruInit_eq hcurr] at hpromise
  rcases arenaAlloc_cases { u.arena with curr := (u.arena.curr + vadPad u.arena) % 2 ^ 64 }
    sizeofVadGruState with ⟨hnull, hfull⟩ | ⟨hsome, -, -⟩
  · rw [hnull] at hpromise
    have hsame : (u.arena.curr + vadPad u.arena) % 2 ^ 64 = u.arena.curr := hpromise.2 rfl
    dsimp only at hfull
    rw [hsame] at hfull
    exact .inr ⟨by omega, hfull⟩
  · rw [hsome] at hpromise
    obtain ⟨haddr, -, hinside, happart, -⟩ := hpromise.1 _ rfl
    dsimp only at haddr hinside happart
    obtain ⟨s, hs⟩ : ∃ s, alignUp ((u.arena.curr + vadPad u.arena) % 2 ^ 64) 8 = s := ⟨_, rfl⟩
    rw [hs] at haddr hinside happart hstart
    have hfree : ∀ top, Covered u.arena.addr top u.live → top ≤ s := by
      intro top hcov
      by_contra hlow
      obtain ⟨b, hb, hmeets⟩ := hcov s (by omega) (by omega) haddr
      exact hmeets (happart b hb)
    rcases h.covered with ⟨hbelow, hcov⟩ | hall
    · have hge := hfree _ hcov
      simp only [sizeofVadGruState] at hinside
      exact .inl ⟨by omega, hbelow, by simp only [sizeofVadGruState]; omega⟩
    · have hge := hfree _ hall
      omega

end promise

/-- **Where the state lies**, after any history on any arena: aligned, inside, apart from every
block and cleared, or not there at all and the cursor unchanged, exactly when `InitFits` holds. -/
theorem vadGruInit_promise_iff (addr : ℕ) (buf m : Mem) (size : ℕ) (hsize : size < 2 ^ 64)
    (ops : List VadOp) :
    let u := (ArenaUse.fresh addr buf size).vadRun ops
    InitPromise { u.arena with buf := m } u.live ↔ InitFits u.arena u.live := by
  intro u
  have htracked : u.Tracked := (ArenaUse.tracked_of_nil hsize rfl).vadRun ops
  have hu : ArenaUse.Tracked ⟨{ u.arena with buf := m }, u.live⟩ :=
    ⟨htracked.size_lt, htracked.curr_lt, htracked.covered⟩
  constructor
  · exact hu.initFits
  · intro hfits
    exact initPromise_of_fits hu.size_lt hu.curr_lt hfits

/-- After 13 bytes at the base 4096 the state lies at the offset 32. -/
theorem vadGruInit_promise_kept :
    let u := (ArenaUse.fresh 4096 (fun _ => 7) 1024).vadRun [.arena (.alloc 13)]
    InitPromise u.arena u.live ∧ (vadGruInitReset u.arena).1 = some ⟨32, 96⟩ := by
  refine ⟨?_, by decide⟩
  apply (vadGruInit_promise_iff 4096 (fun _ => 7) (fun _ => 7) 1024 (by decide)
    [.arena (.alloc 13)]).mpr
  exact .inl ⟨by decide, by decide, by decide⟩

/-- At the base 4097 the state lies at 4129, which is no multiple of 32; and when 64 bytes are too
few the cursor has moved from 13 to 32 all the same. -/
theorem vadGruInit_promise_broken :
    let u := (ArenaUse.fresh 4097 (fun _ => 7) 1024).vadRun []
    let full := (ArenaUse.fresh 4096 (fun _ => 7) 64).vadRun [.arena (.alloc 13)]
    (¬ InitPromise u.arena u.live ∧ (vadGruInitReset u.arena).1 = some ⟨32, 96⟩) ∧
      ¬ InitPromise full.arena full.live ∧ (vadGruInitReset full.arena).1 = none ∧
        full.arena.curr = 13 ∧ (vadGruInitReset full.arena).2.curr = 32 := by
  refine ⟨⟨fun h => ?_, by decide⟩, fun h => ?_, by decide, by decide, by decide⟩
  · exact absurd (h.1 ⟨32, 96⟩ (by decide)).1 (by decide)
  · exact absurd (h.2 (by decide)) (by decide)

/-! ### Sessions -/

/-- In a session the arena is large and has been reset: the state is placed as promised exactly
when `arena_buf` begins at a multiple of 8. -/
theorem AudioState.Ok.initPromise_iff {H : Type} {a : AudioState H} (h : a.Ok) :
    InitPromise (arenaReset a.arena) [] ↔ a.arena.addr % 8 = 0 := by
  have hsize : a.arena.size = 262144 := h.size
  have htracked : ArenaUse.Tracked ⟨arenaReset a.arena, []⟩ :=
    ArenaUse.tracked_of_nil (show a.arena.size < 2 ^ 64 by omega) rfl
  constructor
  · intro hpromise
    rcases htracked.initFits hpromise with ⟨h8, -⟩ | ⟨h32, -⟩
    · exact h8
    · have haddr : (a.arena.addr + 0) % 32 = 0 := h32
      omega
  · intro h8
    apply initPromise_of_fits htracked.size_lt htracked.curr_lt
    refine .inl ⟨h8, fun _ hb => absurd hb List.not_mem_nil, ?_⟩
    show (a.arena.addr + 0 + 31) / 32 * 32 + 96 ≤ a.arena.addr + a.arena.size
    omega

end MachAudio
