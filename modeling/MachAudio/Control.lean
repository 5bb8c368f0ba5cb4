import MachAudio.Survival

/-! # Requests without an accepted start

The session has no flag that says whether it was started.  A `CMD_INPUT` before any
`CMD_START`, after a `CMD_STOP`, or after a `CMD_START` that `transcode_session_init` refused
goes to the pipeline like any other, and only the pipeline's own checks can refuse it.
`Refused` says when they do, if the process has survived what came before. -/

namespace MachAudio

variable {H Φ : Type} (E : Env H Φ)

/-- The last `CMD_START` or `CMD_STOP` is a `CMD_START` that `transcode_session_init`
accepts. -/
def Started (ms : List Message) : Prop :=
  ∃ pre m post, ms = pre ++ m :: post ∧ m.IsStart ∧
    (transcodeSessionInit E (decodeStartPayload m.payload)).1 = 0 ∧
    ∀ m' ∈ post, ¬m'.IsStart ∧ ¬m'.IsStop

/-- The pipeline refuses the request, if it gets there. -/
structure Refused (s : TranscodeSession H) (size curr : ℕ) (payload : List UInt8) : Prop where
  /-- A request without buffers is a success. -/
  buffers : ntohl payload 0 ≠ 0
  /-- If its buffers can be decoded, the arena has no room for what follows. -/
  noRoom : ∀ len curr₁, Decodes s size curr payload len curr₁ →
    s.processShape E size curr curr₁ (s.decodedSamples len) = none

theorem Refused.shape {s : TranscodeSession H} {size curr : ℕ} {payload : List UInt8}
    (h : Refused E s size curr payload) : transcodeShape E s size curr payload = none := by
  rw [transcodeShape, if_neg h.buffers]
  cases hl : bufferLengths payload with
  | nil => rfl
  | cons len lens =>
      dsimp only
      by_cases hk : IsKnownCodec s.inPayloadType
      · rw [if_neg (not_not.mpr hk)]
        cases hb : bumps size curr ((len :: lens).map s.blockSize) with
        | none => rfl
        | some curr₁ =>
            rw [Option.bind_some]
            by_cases hn : s.decodedSamples len = 0
            · rw [if_pos hn]
            · rw [if_neg hn]
              exact h.noRoom len curr₁ ⟨lens, hl, hk, hb, by omega⟩
      · rw [if_pos hk]

theorem AudioState.Ok.refused {a : AudioState H} (h : a.Ok) {payload : List UInt8}
    (hpay : payload.length ≤ sizeofAssembleBuf - sizeofHeader)
    (hr : Refused E a.session a.arena.size a.arena.curr payload) (durationNs : UInt64) :
    answerInput E durationNs a payload = .error errProcessingFailed := by
  simp only [sizeofAssembleBuf, sizeofHeader] at hpay
  have hpay31 : payload.length < 2 ^ 31 := by omega
  have hcode := (h.transcode_shape E hpay31).1
  rw [hr.shape, returnCode] at hcode
  simp only [answerInput]
  rw [hcode, if_neg (by decide)]

/-- The message leads to `send_error_uring` and to nothing else. -/
def AnsweredWithError (s : Session H) (m : Message) : Prop :=
  ∃ s₁ code, SameIo s s₁ ∧ handleMessage E s m = sendErrorUring E s₁ m.header.sequenceId code

/-- PCMU at 8 kHz, to a rate that nothing is resampled to. -/
def refusedConfig : AudioStartPayload :=
  ⟨codecPcmu, 1, 0, 8000, 0, codecPcmu, 1, 0, 0xFFFFFFFF⟩

/-- A session that is started, used and stopped; then a start that is refused, and an input. -/
def refusedHistory : List Message :=
  [request cmdStart 1 (startPayload (pcmuConfig 1)),
    request cmdInput 2 (inputPayload [List.replicate 16 0x55]), request cmdStop 3 [],
    request cmdStart 4 (startPayload refusedConfig)]

def sixteenBytes : Message := request cmdInput 5 (inputPayload [List.replicate 16 0x55])

theorem refusedHistory_survivable : InputsMeet Env.plain (Survivable Env.plain)
    (AudioState.fresh 0) (refusedHistory ++ [sixteenBytes]) := by
  have hfirst : InputsMeet Env.plain (Survivable Env.plain) (AudioState.fresh 0)
      (refusedHistory.take 2) :=
    inputs_after_start Env.plain (AudioState.fresh_ok 0) (by decide) (by decide) (by decide)
      (by decide) (by decide) (by decide)
  have hmono : StartedMono (audioAfter Env.plain (AudioState.fresh 0) refusedHistory).session :=
    ⟨by decide +kernel, by decide +kernel, by decide +kernel⟩
  rw [show refusedHistory ++ [sixteenBytes] =
    refusedHistory.take 2 ++ (refusedHistory.drop 2 ++ [sixteenBytes]) from rfl, inputsMeet_append]
  refine ⟨hfirst, (inputsMeet_cons _).mpr ⟨fun h => absurd h (by decide), (inputsMeet_cons _).mpr
    ⟨fun h => absurd h (by decide), (inputsMeet_cons _).mpr ⟨fun _ => ?_, inputsMeet_nil _ _ _⟩⟩⟩⟩
  exact hmono.survivable Env.plain _

/-- The buffer is decoded, and the block for the samples of the other rate does not fit. -/
theorem sixteenBytes_refused :
    Refused Env.plain (audioAfter Env.plain (AudioState.fresh 0) refusedHistory).session
      (audioAfter Env.plain (AudioState.fresh 0) refusedHistory).arena.size
      (audioAfter Env.plain (AudioState.fresh 0) refusedHistory).arena.curr
      sixteenBytes.payload := by
  refine ⟨by decide +kernel, ?_⟩
  rintro len curr₁ ⟨lens, hlens, -, hbumps, -⟩
  have hl : bufferLengths sixteenBytes.payload = [16] := by decide +kernel
  have hb : bumps (audioAfter Env.plain (AudioState.fresh 0) refusedHistory).arena.size
      (audioAfter Env.plain (AudioState.fresh 0) refusedHistory).arena.curr
      ([16].map (audioAfter Env.plain (AudioState.fresh 0) refusedHistory).session.blockSize) =
        some 32 := by decide +kernel
  rw [hl] at hlens
  obtain ⟨rfl, rfl⟩ := List.cons.inj hlens
  obtain rfl := Option.some.inj (hb.symm.trans hbumps)
  decide +kernel

/-- An accepted start and a message behind it. -/
theorem started_of_last {m : Message} (hs : m.IsStart)
    (hacc : (transcodeSessionInit E (decodeStartPayload m.payload)).1 = 0) : Started E [m] :=
  ⟨[], m, [], rfl, hs, hacc, fun _ h => absurd h List.not_mem_nil⟩

theorem not_started_refusedHistory : ¬Started Env.plain refusedHistory := by
  rintro ⟨pre, m, post, e, hs, hacc, hpost⟩
  have hlast : request cmdStart 4 (startPayload refusedConfig) ∉ post := fun h =>
    (hpost _ h).1 (by decide)
  rcases List.eq_nil_or_concat' post with rfl | ⟨post', m', rfl⟩
  · have hm : m = request cmdStart 4 (startPayload refusedConfig) := by
      have h := congrArg List.getLast? e
      rw [List.getLast?_concat] at h
      exact (Option.some.inj h).symm
    rw [hm] at hacc
    exact absurd hacc (by decide)
  · have hm : m' = request cmdStart 4 (startPayload refusedConfig) := by
      have h := congrArg List.getLast? e
      rw [← List.cons_append, ← List.append_assoc, List.getLast?_concat] at h
      exact (Option.some.inj h).symm
    exact hlast (hm ▸ List.mem_append_right _ (List.mem_singleton_self m'))

/-- No start at all. -/
theorem not_started_nil : ¬Started E [] := by
  rintro ⟨pre, m, post, e, -⟩
  simp at e

end MachAudio
