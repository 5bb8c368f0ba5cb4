import MachAudio.Transcode

/-! # What the pipeline leaves alone

The loop that decodes and mixes the buffers reads the session but never writes it, and no step
moves the arena.  One lemma for each function of the pipeline, by the rules for `Keeps`. -/

namespace MachAudio

open Exec

variable {H Φ : Type} (E : Env H Φ)

/-! ### Up to the mixed input -/

/-- What no step before the voice detector touches: the session and the arena's address. -/
def Work.held (w : Work H) : TranscodeSession H × ℕ := (w.session, w.arena.addr)

theorem alloc_keeps (n : ℕ) : Keeps Work.held (alloc n : Pipe H (Option Block)) := by
  intro w
  rw [alloc_apply, Work.held, arenaAlloc]
  dsimp only
  split_ifs <;> rfl

theorem note_keeps (e : Event) : Keeps Work.held (note e : Pipe H Unit) := fun _ => rfl

theorem divide_keeps (a b : ℕ) : Keeps Work.held (divide a b : Pipe H ℕ) := fun _ => rfl

theorem getSession_keeps : Keeps Work.held (getSession : Pipe H (TranscodeSession H)) :=
  fun _ => rfl

theorem loadSamples_keeps (b : Block) (i n : ℕ) :
    Keeps Work.held (loadSamples b i n : Pipe H (List Int16)) := fun _ => rfl

theorem storeSamples_keeps (b : Block) (i : ℕ) (xs : List Int16) :
    Keeps Work.held (storeSamples b i xs : Pipe H Unit) := fun _ => rfl

theorem storeBytes_keeps (b : Block) (i : ℕ) (bs : List UInt8) :
    Keeps Work.held (storeBytes b i bs : Pipe H Unit) := fun _ => rfl

section held
variable {inA inB out : Block}

theorem mixBlocks_keeps : ∀ n i, Keeps Work.held (mixBlocks inA inB out n i : Pipe H Unit)
  | 0, _ => Keeps.pure
  | n + 1, i =>
      Keeps.bind (loadSamples_keeps _ _ _) fun _ => Keeps.bind (loadSamples_keeps _ _ _) fun _ =>
        Keeps.bind (storeSamples_keeps _ _ _) fun _ => mixBlocks_keeps n (i + 16)

theorem mixTail_keeps : ∀ n i, Keeps Work.held (mixTail inA inB out n i : Pipe H Unit)
  | 0, _ => Keeps.pure
  | n + 1, i =>
      Keeps.bind (loadSamples_keeps _ _ _) fun _ => Keeps.bind (loadSamples_keeps _ _ _) fun _ =>
        Keeps.bind (storeSamples_keeps _ _ _) fun _ => mixTail_keeps n (i + 1)

end held

theorem swapEndianL16_keeps (b : Block) (n : ℕ) :
    Keeps Work.held (swapEndianL16 b n : Pipe H Unit) :=
  Keeps.bind (loadSamples_keeps _ _ _) fun _ => storeSamples_keeps _ _ _

section payload
variable (payload : List UInt8)

theorem decodeG711_keeps (decode : List UInt8 → Option (List Int16)) (dataOff len : ℕ) :
    Keeps Work.held (decodeG711 decode payload dataOff len : Pipe H (Option (Block × ℕ))) := by
  apply Keeps.bind (alloc_keeps _)
  intro o
  cases o with
  | none => exact Keeps.pure
  | some b =>
      refine Keeps.bind ?_ fun _ => Keeps.pure
      cases decode ((payload.drop dataOff).take len) with
      | none => exact Keeps.pure
      | some pcm => exact Keeps.bind (note_keeps _) fun _ => storeSamples_keeps _ _ _

theorem decodeL16_keeps (dataOff len : ℕ) :
    Keeps Work.held (decodeL16 payload dataOff len : Pipe H (Option (Block × ℕ))) := by
  refine Keeps.bind getSession_keeps fun s => Keeps.bind (divide_keeps _ _) fun n =>
    Keeps.bind (alloc_keeps _) fun o => ?_
  cases o with
  | none => exact Keeps.pure
  | some b =>
      refine Keeps.bind (note_keeps _) fun _ => Keeps.bind (storeBytes_keeps _ _ _) fun _ => ?_
      dsimp only
      split_ifs
      · exact Keeps.bind (swapEndianL16_keeps _ _) fun _ => Keeps.pure
      · exact Keeps.pure

theorem decodeBuffer_keeps (dataOff len : ℕ) :
    Keeps Work.held (decodeBuffer payload dataOff len : Pipe H (Option (Block × ℕ))) :=
  Keeps.bind getSession_keeps fun _ =>
    Keeps.ite (decodeG711_keeps _ _ _ _) <| Keeps.ite (decodeG711_keeps _ _ _ _) <|
      Keeps.ite (decodeL16_keeps _ _ _) Keeps.pure

theorem mixInto_keeps (acc : Option (Block × ℕ)) (decoded : Block × ℕ) :
    Keeps Work.held (mixInto acc decoded : Pipe H (Block × ℕ)) := by
  apply Keeps.bind getSession_keeps
  intro s
  cases acc with
  | none => exact Keeps.pure
  | some acc =>
      exact Keeps.bind (Keeps.bind (mixBlocks_keeps _ _) fun _ => mixTail_keeps _ _)
        fun _ => Keeps.pure

theorem mixInputs_keeps : ∀ (n : ℕ) (offset : UInt32) (acc : Option (Block × ℕ)),
    Keeps Work.held (mixInputs payload n offset acc : Pipe H (Option (Option (Block × ℕ))))
  | 0, _, _ => Keeps.pure
  | n + 1, offset, acc => by
      rw [mixInputs]
      rcases protocolParseNextBuffer payload (UInt32.ofNat payload.length) offset with
        ⟨_ | ⟨bh, dataOff⟩, offset'⟩
      · exact Keeps.pure
      · apply Keeps.bind (decodeBuffer_keeps _ _ _)
        intro o
        cases o with
        | none => exact Keeps.pure
        | some decoded =>
            exact Keeps.bind (mixInto_keeps _ _) fun acc' => mixInputs_keeps n offset' (some acc')

end payload

/-! ### The whole call -/

/-- The arena's address. -/
def Work.addr (w : Work H) : ℕ := w.arena.addr

/-- A step that holds the session and the address keeps the address. -/
theorem keeps_addr {α : Type} {x : Pipe H α} (h : Keeps Work.held x) : Keeps Work.addr x :=
  h.comp Prod.snd

theorem setSession_keeps_addr (s : TranscodeSession H) :
    Keeps Work.addr (setSession s : Pipe H Unit) := fun _ => rfl

section addr
variable (b : Block) (n : ℕ)

theorem runVad_keeps_addr (channels : ℕ) : Keeps Work.addr (runVad E b n channels) := by
  apply Keeps.bind (keeps_addr getSession_keeps)
  intro s
  cases s.vadState with
  | none => exact Keeps.pure
  | some state =>
      exact Keeps.bind (keeps_addr (loadSamples_keeps _ _ _)) fun _ => setSession_keeps_addr _

theorem inputVad_keeps_addr : Keeps Work.addr (inputVad E b n) :=
  Keeps.bind (keeps_addr getSession_keeps) fun _ => Keeps.bind (setSession_keeps_addr _) fun _ =>
    Keeps.ite (runVad_keeps_addr E _ _ _) Keeps.pure

theorem outputVad_keeps_addr : Keeps Work.addr (outputVad E b n) :=
  Keeps.bind (keeps_addr getSession_keeps) fun _ =>
    Keeps.ite (runVad_keeps_addr E _ _ _) Keeps.pure

theorem resampleStep_keeps_addr : Keeps Work.addr (resampleStep E b n) := by
  refine Keeps.bind (keeps_addr getSession_keeps) fun s => Keeps.ite ?_ Keeps.pure
  refine Keeps.bind (keeps_addr (divide_keeps _ _)) fun q =>
    Keeps.bind (keeps_addr (alloc_keeps _)) fun o => ?_
  cases o with
  | none => exact Keeps.pure
  | some out =>
      exact Keeps.bind (keeps_addr (loadSamples_keeps _ _ _)) fun _ =>
        Keeps.bind (keeps_addr (storeSamples_keeps _ _ _)) fun _ =>
          Keeps.bind (setSession_keeps_addr _) fun _ => Keeps.pure

theorem moveToStart_keeps (initialCurr : ℕ) :
    Keeps Work.held (moveToStart initialCurr b n : Pipe H Unit) := fun _ => rfl

theorem encodeG711_keeps (encode : List Int16 → List UInt8) (initialCurr : ℕ) :
    Keeps Work.held (encodeG711 encode initialCurr b n : Pipe H ℤ) := by
  apply Keeps.bind (alloc_keeps _)
  intro o
  cases o with
  | none => exact Keeps.pure
  | some out =>
      exact Keeps.bind (loadSamples_keeps _ _ _) fun _ =>
        Keeps.bind (storeBytes_keeps _ _ _) fun _ =>
          Keeps.bind (moveToStart_keeps _ _ _) fun _ => Keeps.pure

theorem encodeL16_keeps (initialCurr : ℕ) :
    Keeps Work.held (encodeL16 initialCurr b n : Pipe H ℤ) := by
  apply Keeps.bind getSession_keeps
  intro s
  dsimp only
  split_ifs
  · exact Keeps.bind (swapEndianL16_keeps _ _) fun _ =>
      Keeps.bind (moveToStart_keeps _ _ _) fun _ => Keeps.pure
  · exact Keeps.bind (moveToStart_keeps _ _ _) fun _ => Keeps.pure

theorem encodeStep_keeps (initialCurr : ℕ) :
    Keeps Work.held (encodeStep initialCurr b n : Pipe H ℤ) :=
  Keeps.bind getSession_keeps fun _ =>
    Keeps.ite (encodeG711_keeps _ _ _ _) <| Keeps.ite (encodeG711_keeps _ _ _ _) <|
      Keeps.ite (encodeL16_keeps _ _ _) Keeps.pure

theorem processMixed_keeps_addr (initialCurr : ℕ) :
    Keeps Work.addr (processMixed E initialCurr b n) := by
  refine Keeps.bind (inputVad_keeps_addr E b n) fun _ =>
    Keeps.bind (resampleStep_keeps_addr E b n) fun o => ?_
  cases o with
  | none => exact Keeps.pure
  | some r =>
      exact Keeps.bind (outputVad_keeps_addr E _ _) fun _ => keeps_addr (encodeStep_keeps _ _ _)

end addr

/-- The arena stays where it is. -/
theorem audioProcessTranscode_keeps_addr (payload : List UInt8) :
    Keeps Work.addr (audioProcessTranscode E payload) := by
  apply Keeps.bind (fun _ => rfl)
  intro initialCurr
  dsimp only
  refine Keeps.ite Keeps.pure (Keeps.bind (keeps_addr (mixInputs_keeps _ _ _ _)) fun r => ?_)
  match r with
  | none => exact Keeps.pure
  | some none => exact Keeps.pure
  | some (some (b, n)) => exact Keeps.ite Keeps.pure (processMixed_keeps_addr E b n initialCurr)

end MachAudio
