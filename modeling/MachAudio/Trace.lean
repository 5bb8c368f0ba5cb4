import MachAudio.Lib.Exec
import MachAudio.State
import MachAudio.Arena

/-! # The memory the pipeline works on, and what it does there

A call of `audio_process_transcode` is a program over `Work`: the session and the arena it
is given, and the list of everything it touched.  Blocks of the arena are read and written
only through `loadBytes` and `storeBytes` (and their 16-bit forms), which note the access,
and every division by a variable goes through `divide`, which notes the divisor.

An access beyond its block is noted like any other and goes on in the arena's memory, as it does
in the code up to the end of `arena_buf`; behind that end the code reads and stores into the
members of `MachSession` that follow, which this memory does not have.  A division by zero is
noted and gives 0, where the process is killed.  What the model does behind either says nothing
about the code, and results about it ask that no request gets there. -/

namespace MachAudio

open ByteMem

variable {H : Type}

/-- Something a call did. -/
inductive Event where
  /-- The bytes `off ≤ i < off + len` of an arena block were read or written. -/
  | access (b : Block) (off len : ℕ)
  /-- The bytes `off ≤ i < off + len` of a payload of `size` bytes were read. -/
  | input (size off len : ℕ)
  /-- An integer division was executed. -/
  | divide (divisor : ℕ)
deriving DecidableEq, Repr

/-- Every index of an access lies in its block, and the block in the part of the arena
from `lo` to `hi`. -/
def Event.Inside (lo hi : ℕ) : Event → Prop
  | access b off len =>
      lo ≤ b.start ∧ b.start + b.size ≤ hi ∧ ∀ i, off ≤ i → i < off + len → i < b.size
  | input size off len => ∀ i, off ≤ i → i < off + len → i < size
  | divide _ => True

/-- Every index of an access lies in an arena of `size` bytes. -/
def Event.InArena (size : ℕ) : Event → Prop
  | access b off len => ∀ i, off ≤ i → i < off + len → b.start + i < size
  | input size off len => ∀ i, off ≤ i → i < off + len → i < size
  | divide _ => True

/-- A division is not by zero. -/
def Event.Divides : Event → Prop
  | divide d => d ≠ 0
  | _ => True

structure Work (H : Type) where
  session : TranscodeSession H
  arena : Arena
  trace : List Event

abbrev Pipe (H : Type) := Exec (Work H)

def getSession : Pipe H (TranscodeSession H) := Exec.read Work.session

def setSession (s : TranscodeSession H) : Pipe H Unit :=
  Exec.change fun w => { w with session := s }

def getCurr : Pipe H ℕ := Exec.read fun w => w.arena.curr

def setCurr (n : ℕ) : Pipe H Unit :=
  Exec.change fun w => { w with arena := { w.arena with curr := n } }

def note (e : Event) : Pipe H Unit := Exec.change fun w => { w with trace := w.trace ++ [e] }

def alloc (n : ℕ) : Pipe H (Option Block) :=
  fun w => ((arenaAlloc w.arena n).1, { w with arena := (arenaAlloc w.arena n).2 })

/-- The `n` bytes at offset `off` of a block. -/
def loadBytes (b : Block) (off n : ℕ) : Pipe H (List UInt8) :=
  fun w => (w.arena.buf.load (b.start + off) n, { w with trace := w.trace ++ [.access b off n] })

def storeBytes (b : Block) (off : ℕ) (bs : List UInt8) : Pipe H Unit :=
  Exec.change fun w =>
    { w with
      arena := { w.arena with buf := w.arena.buf.store (b.start + off) bs }
      trace := w.trace ++ [.access b off bs.length] }

/-- The `n` samples from element `i` of a block on. -/
def loadSamples (b : Block) (i n : ℕ) : Pipe H (List Int16) := do
  let bs ← loadBytes b (2 * i) (2 * n)
  pure (ofBytes bs)

def storeSamples (b : Block) (i : ℕ) (xs : List Int16) : Pipe H Unit :=
  storeBytes b (2 * i) (toBytes xs)

/-- `a / b` on `size_t`.  A divisor of zero kills the process; here it is noted and the call goes
on with 0. -/
def divide (a b : ℕ) : Pipe H ℕ := do
  note (.divide b)
  pure (a / b)

section apply
variable (w : Work H)

@[simp] theorem getSession_apply : getSession w = (w.session, w) := rfl

@[simp] theorem setSession_apply (s : TranscodeSession H) :
    setSession s w = ((), { w with session := s }) := rfl

@[simp] theorem getCurr_apply : getCurr w = (w.arena.curr, w) := rfl

@[simp] theorem setCurr_apply (n : ℕ) :
    setCurr n w = ((), { w with arena := { w.arena with curr := n } }) := rfl

@[simp] theorem note_apply (e : Event) : note e w = ((), { w with trace := w.trace ++ [e] }) := rfl

theorem alloc_apply (n : ℕ) :
    alloc n w = ((arenaAlloc w.arena n).1, { w with arena := (arenaAlloc w.arena n).2 }) := rfl

@[simp] theorem loadBytes_apply (b : Block) (off n : ℕ) : loadBytes b off n w =
    (w.arena.buf.load (b.start + off) n, { w with trace := w.trace ++ [.access b off n] }) := rfl

@[simp] theorem storeBytes_apply (b : Block) (off : ℕ) (bs : List UInt8) :
    storeBytes b off bs w =
      ((), { w with
        arena := { w.arena with buf := w.arena.buf.store (b.start + off) bs }
        trace := w.trace ++ [.access b off bs.length] }) := rfl

@[simp] theorem loadSamples_apply (b : Block) (i n : ℕ) : loadSamples b i n w =
    (ofBytes (w.arena.buf.load (b.start + 2 * i) (2 * n)),
      { w with trace := w.trace ++ [.access b (2 * i) (2 * n)] }) := rfl

@[simp] theorem storeSamples_apply (b : Block) (i : ℕ) (xs : List Int16) :
    storeSamples b i xs w =
      ((), { w with
        arena := { w.arena with buf := w.arena.buf.store (b.start + 2 * i) (toBytes xs) }
        trace := w.trace ++ [.access b (2 * i) (toBytes xs).length] }) := rfl

@[simp] theorem divide_apply (a b : ℕ) :
    divide a b w = (a / b, { w with trace := w.trace ++ [.divide b] }) := rfl

end apply

/-! ### Accesses that stay inside -/

theorem Event.inside_access {lo hi : ℕ} {b : Block} {off len : ℕ} (h₁ : lo ≤ b.start)
    (h₂ : b.start + b.size ≤ hi) (h₃ : len = 0 ∨ off + len ≤ b.size) :
    (Event.access b off len).Inside lo hi :=
  ⟨h₁, h₂, fun i _ _ => by omega⟩

theorem Event.inside_input {lo hi size off len : ℕ} (h : len = 0 ∨ off + len ≤ size) :
    (Event.input size off len).Inside lo hi :=
  fun i _ _ => by omega

theorem Event.not_inside_access {lo hi : ℕ} {b : Block} {off len : ℕ} (h₁ : 0 < len)
    (h₂ : b.size < off + len) : ¬(Event.access b off len).Inside lo hi := by
  rintro ⟨-, -, h⟩
  have := h (off + len - 1) (by omega) (by omega)
  omega

end MachAudio
