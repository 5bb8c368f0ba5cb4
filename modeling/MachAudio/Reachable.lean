import MachAudio.Audio
import MachAudio.Footprint

/-! # The audio states a message history can lead to

`AudioState.Ok` is what every history keeps: the size of the arena, a bound on where a
request starts, and that resampling is on exactly when the two rates differ.  `InputsMeet`
speaks about every `CMD_INPUT` of a history in the state it finds. -/

namespace MachAudio

open ByteMem

variable {H Φ : Type} (E : Env H Φ)

structure AudioState.Ok (a : AudioState H) : Prop where
  size : a.arena.size = machSessionArenaSize
  curr : a.arena.curr ≤ 128
  needsResample : a.session.needsResample = (a.session.inSampleRate != a.session.outSampleRate)

theorem AudioState.fresh_ok (addr : ℕ) : (AudioState.fresh addr : AudioState H).Ok :=
  ⟨rfl, Nat.zero_le _, rfl⟩

theorem transcodeSessionInit_needsResample (config : AudioStartPayload) :
    (transcodeSessionInit E config).2.needsResample =
      ((transcodeSessionInit E config).2.inSampleRate !=
        (transcodeSessionInit E config).2.outSampleRate) := by
  obtain ⟨r, hr⟩ := transcodeSessionInit_session E config
  rw [hr]
  rfl

/-- The voice detector's state always fits a rewound arena, below byte 128. -/
theorem vadGruInit_rewound {arena : Arena} (h : arena.size = machSessionArenaSize) :
    ∃ b, (vadGruInit (arenaReset arena)).1 = some b ∧
      (vadGruInit (arenaReset arena)).2.size = machSessionArenaSize ∧
      (vadGruInit (arenaReset arena)).2.curr ≤ 128 ∧
      (vadGruInit (arenaReset arena)).2.addr = arena.addr ∧
      (vadGruInit (arenaReset arena)).2.buf = arena.buf := by
  obtain ⟨pad, hpad⟩ : ∃ pad, vadPad (arenaReset arena) = pad := ⟨_, rfl⟩
  have hlt : pad < 32 := hpad ▸ vadPad_lt (arenaReset arena)
  have hinit : vadGruInit (arenaReset arena) =
      arenaAlloc ⟨arena.addr, arena.buf, arena.size, pad⟩ sizeofVadGruState := by
    rw [vadGruInit_eq (show 0 < 2 ^ 64 by decide), hpad]
    simp only [arenaReset, Nat.zero_add, Nat.mod_eq_of_lt (show pad < 2 ^ 64 by omega)]
  have hsize : arena.size = 262144 := h
  have halloc : arenaAlloc ⟨arena.addr, arena.buf, arena.size, pad⟩ 96 = _ :=
    arenaAlloc_eq (by simp only; omega) (by simp only; omega) (by simp only; omega) (by omega)
  rw [if_pos (by simp only; omega)] at halloc
  rw [hinit, sizeofVadGruState, halloc]
  exact ⟨_, rfl, h, by simp only; omega, rfl, rfl⟩

theorem audioStart_ok {a : AudioState H} (h : a.Ok) (payload : List UInt8) :
    (audioStart E a payload).Ok := by
  obtain ⟨b, -, hsize, hcurr, -⟩ := vadGruInit_rewound h.size
  simp only [audioStart]
  split_ifs
  · exact ⟨hsize, hcurr, transcodeSessionInit_needsResample E _⟩
  · exact ⟨h.size, Nat.zero_le _, transcodeSessionInit_needsResample E _⟩

/-- Everything is granted and permitted to the trivial property. -/
theorem grants_true (lo hi : ℕ) :
    Grants lo hi (fun _ _ => True) (fun _ => True) (fun _ => True) :=
  ⟨fun _ _ _ _ => trivial, fun _ _ _ _ _ _ => trivial, fun _ _ _ _ _ _ _ _ => trivial,
    fun _ _ _ _ => trivial, fun _ _ => trivial⟩

theorem permits_true (s : TranscodeSession H) (size curr : ℕ) (payload : List UInt8) :
    Permits E s size curr payload (fun _ _ => True) (fun _ => True) where
  decode := fun _ _ => trivial
  mix := fun _ _ _ _ _ _ _ _ _ => ⟨trivial, trivial⟩
  rest := fun _ _ _ _ _ _ _ _ => ⟨fun _ => trivial, fun _ => trivial⟩
  final := fun _ _ _ _ _ _ _ _ _ _ _ _ =>
    ⟨trivial, fun _ _ => trivial, fun _ => trivial⟩

theorem AudioState.at_start (a : AudioState H) (P : Event → Prop) :
    At a.session a.arena.size a.arena.curr P ⟨a.session, a.arena, []⟩ :=
  ⟨.refl _, rfl, rfl, fun _ h => absurd h List.not_mem_nil⟩

/-- The result and the final cursor of a request are those of its shape, whatever happens to
memory. -/
theorem AudioState.Ok.transcode_shape {a : AudioState H} (h : a.Ok) {payload : List UInt8}
    (hpay : payload.length < 2 ^ 31) :
    (a.transcode E payload).1 =
        returnCode (transcodeShape E a.session a.arena.size a.arena.curr payload) ∧
      Ends a.session a.arena.size
        (transcodeShape E a.session a.arena.size a.arena.curr payload) (fun _ => True)
        (a.transcode E payload).2 := by
  have hsize := h.size
  have hcurr := h.curr
  simp only [machSessionArenaSize] at hsize
  exact audioProcessTranscode_returns E (grants_true _ _) (by omega) (by omega) (by omega) hpay
    (permits_true E _ _ _ _) _ (a.at_start _)

theorem audioStep_ok {a : AudioState H} (h : a.Ok) {m : Message}
    (hlen : m.payload.length < 2 ^ 31) : (audioStep E a m).Ok := by
  rw [audioStep]
  split_ifs
  · exact audioStart_ok E h m.payload
  · have he := (h.transcode_shape E hlen).2
    refine ⟨he.size.trans h.size, h.curr, ?_⟩
    show (a.transcode E m.payload).2.session.needsResample = _
    rw [he.config.needsResample, h.needsResample, ← he.config.inSampleRate,
      ← he.config.outSampleRate]
    rfl
  · exact ⟨h.size, h.curr, rfl⟩
  · exact h

/-- The payloads of a history are shorter than any message the server can assemble. -/
def ShortPayloads (ms : List Message) : Prop :=
  ∀ m ∈ ms, m.payload.length ≤ sizeofAssembleBuf - sizeofHeader

instance (ms : List Message) : Decidable (ShortPayloads ms) :=
  inferInstanceAs (Decidable (∀ m ∈ ms, m.payload.length ≤ sizeofAssembleBuf - sizeofHeader))

theorem audioAfter_ok {a : AudioState H} (h : a.Ok) : ∀ {ms : List Message}, ShortPayloads ms →
    (audioAfter E a ms).Ok := by
  intro ms
  induction ms generalizing a with
  | nil => exact fun _ => h
  | cons m ms ih =>
      intro hms
      have hm := hms m List.mem_cons_self
      simp only [sizeofAssembleBuf, sizeofHeader] at hm
      exact ih (audioStep_ok E h (by omega)) fun m' hm' => hms m' (List.mem_cons_of_mem _ hm')

/-- Every `CMD_INPUT` of the history has `C` in the state it finds. -/
def InputsMeet (C : AudioState H → List UInt8 → Prop) (a : AudioState H) (ms : List Message) :
    Prop :=
  ∀ pre m post, ms = pre ++ m :: post → m.IsInput → C (audioAfter E a pre) m.payload

theorem inputsMeet_nil (C : AudioState H → List UInt8 → Prop) (a : AudioState H) :
    InputsMeet E C a [] := by
  intro pre m post e
  simp at e

theorem inputsMeet_cons {C : AudioState H → List UInt8 → Prop} {a : AudioState H} {m : Message}
    {ms : List Message} :
    InputsMeet E C a (m :: ms) ↔
      (m.IsInput → C a m.payload) ∧ InputsMeet E C (audioStep E a m) ms := by
  constructor
  · exact fun h => ⟨h [] m ms rfl, fun pre m' post e hm =>
      h (m :: pre) m' post (by rw [e, List.cons_append]) hm⟩
  · rintro ⟨h₁, h₂⟩ pre m' post e hm
    cases pre with
    | nil =>
        obtain ⟨rfl, -⟩ := List.cons.inj e
        exact h₁ hm
    | cons m₀ pre =>
        obtain ⟨rfl, e'⟩ := List.cons.inj e
        exact h₂ pre m' post e' hm

theorem inputsMeet_append {C : AudioState H → List UInt8 → Prop} : ∀ {a : AudioState H}
    {ms ms' : List Message}, InputsMeet E C a (ms ++ ms') ↔
      InputsMeet E C a ms ∧ InputsMeet E C (audioAfter E a ms) ms'
  | a, [], ms' => by simp [inputsMeet_nil]
  | a, m :: ms, ms' => by
      rw [List.cons_append, inputsMeet_cons, inputsMeet_cons, inputsMeet_append, audioAfter_cons,
        and_assoc]

/-- A property of one request in a good state is a property of every request of a run. -/
theorem InputsMeet.imp {C C' : AudioState H → List UInt8 → Prop} {a : AudioState H} (ha : a.Ok)
    {ms : List Message} (hms : ShortPayloads ms) (h : InputsMeet E C a ms)
    (hC : ∀ a payload, a.Ok → payload.length ≤ sizeofAssembleBuf - sizeofHeader →
      C a payload → C' a payload) : InputsMeet E C' a ms := by
  intro pre m post e hm
  have hpre : ShortPayloads pre := fun m' hm' => hms m' (e ▸ List.mem_append_left _ hm')
  exact hC _ _ (audioAfter_ok E ha hpre)
    (hms m (e ▸ List.mem_append_right _ List.mem_cons_self)) (h pre m post e hm)

end MachAudio
