import MachAudio.Wire

/-! # Where the client reads its input files

`load_input_file`, the timer of a connection and the two copies of `send_input_chunk`.  A run
is a connection that was just set up and any number of ticks of its timer; `tickReads` are the
ranges that the copies of one tick read, and they are what the message is made of
(`sendInputChunk_reads`).

A client that does not loop stops its timer at the end of a file, so its reads stay inside.  A
client that loops goes back to the start of the file and copies without another look at the
size: its reads stay inside exactly when a chunk fits into each file
(`tickReads_inside_iff`). -/

namespace MachAudio

/-- `load_input_file`.  An empty file cannot be mapped, and the client exits. -/
def loadInputFile (config : ClientConfig) (file : List UInt8) (file2 : Option (List UInt8)) :
    Option ClientApp :=
  if file = [] ∨ file2 = some [] then none
  else
    some
      { config := config
        inputData := fun i => file.getD i 0
        inputSize := file.length
        inputData2 := file2.map fun f i => f.getD i 0
        inputSize2 := (file2.map List.length).getD 0 }

/-- What one `memcpy` of `send_input_chunk` reads of a file, and the size of the file. -/
structure ChunkRead where
  offset : ℕ
  length : ℕ
  inputSize : ℕ

/-- The range lies inside the file. -/
def ChunkRead.Inside (r : ChunkRead) : Prop := r.offset + r.length ≤ r.inputSize

instance ChunkRead.decidableInside (r : ChunkRead) : Decidable r.Inside :=
  inferInstanceAs (Decidable (r.offset + r.length ≤ r.inputSize))

/-- The copies of one call of `send_input_chunk`, in order. -/
def chunkReads (app : ClientApp) (conn : SendState) : List ChunkRead :=
  let chunkSize := app.config.chunkSize
  match rewind app.config.loop conn.offset chunkSize app.inputSize with
  | none => []
  | some offset =>
      match app.inputData2 with
      | none => [⟨offset, chunkSize, app.inputSize⟩]
      | some _ =>
          match rewind app.config.loop conn.offset2 chunkSize app.inputSize2 with
          | none => []
          | some offset2 =>
              [⟨offset, chunkSize, app.inputSize⟩, ⟨offset2, chunkSize, app.inputSize2⟩]

/-- A message is made of what the copies read, and without a copy there is no message. -/
theorem sendInputChunk_reads (app : ClientApp) (conn : SendState) :
    (sendInputChunk app conn).1 =
      (chunkReads app conn).head?.map fun r =>
        inputChunk conn.sequenceId (readInput app.inputData r.offset r.length)
          (app.inputData2.bind fun data =>
            (chunkReads app conn)[1]?.map fun r₂ => readInput data r₂.offset r₂.length) := by
  unfold sendInputChunk chunkReads
  dsimp only
  cases h₁ : rewind app.config.loop conn.offset app.config.chunkSize app.inputSize with
  | none => simp
  | some offset =>
      cases hdata : app.inputData2 with
      | none => simp
      | some data =>
          cases h₂ : rewind app.config.loop conn.offset2 app.config.chunkSize app.inputSize2 with
          | none => simp
          | some offset2 => simp

/-! ### Ticks -/

/-- A connection of the block that `main` clears. -/
def SendState.init : SendState := ⟨0, 0, 0, 0, false⟩

/-- `on_timer`; a stopped timer does not fire. -/
def onTimer (app : ClientApp) (conn : SendState) : Option (List UInt8) × SendState :=
  if conn.timer then sendInputChunk app conn else (none, conn)

/-- A connection after so many ticks. -/
def afterTicks (app : ClientApp) : ℕ → SendState
  | 0 => (onConnect app .init 0).2
  | n + 1 => (onTimer app (afterTicks app n)).2

/-- What the tick after so many ticks reads. -/
def tickReads (app : ClientApp) (n : ℕ) : List ChunkRead :=
  if (afterTicks app n).timer then chunkReads app (afterTicks app n) else []

/-- A chunk fits into each file. -/
def ClientApp.ChunkFits (app : ClientApp) : Prop :=
  app.config.chunkSize ≤ app.inputSize ∧
    (app.inputData2.isSome → app.config.chunkSize ≤ app.inputSize2)

theorem rewind_inside {loop : Bool} {offset chunkSize inputSize offset' : ℕ}
    (hfits : loop = true → chunkSize ≤ inputSize)
    (h : rewind loop offset chunkSize inputSize = some offset') :
    offset' + chunkSize ≤ inputSize := by
  unfold rewind at h
  split_ifs at h with hend hloop
  · obtain rfl : 0 = offset' := by simpa using h
    rw [Nat.zero_add]
    exact hfits hloop
  · obtain rfl : offset = offset' := by simpa using h
    omega

/-- The reads of one tick. -/
theorem chunkReads_inside {app : ClientApp} (hfits : app.config.loop = true → app.ChunkFits)
    (conn : SendState) : ∀ r ∈ chunkReads app conn, r.Inside := by
  unfold chunkReads
  intro r hr
  cases h₁ : rewind app.config.loop conn.offset app.config.chunkSize app.inputSize with
  | none => simp [h₁] at hr
  | some offset =>
      have hin := rewind_inside (fun h => (hfits h).1) h₁
      cases hdata : app.inputData2 with
      | none =>
          simp only [h₁, hdata, List.mem_singleton] at hr
          rw [hr]
          exact hin
      | some data =>
          cases h₂ : rewind app.config.loop conn.offset2 app.config.chunkSize app.inputSize2 with
          | none => simp [h₁, hdata, h₂] at hr
          | some offset2 =>
              have hin₂ := rewind_inside (fun h => (hfits h).2 (by rw [hdata]; rfl)) h₂
              simp only [h₁, hdata, h₂, List.mem_cons, List.not_mem_nil, or_false] at hr
              rcases hr with rfl | rfl
              · exact hin
              · exact hin₂

theorem tickReads_inside {app : ClientApp} (hfits : app.config.loop = true → app.ChunkFits)
    (n : ℕ) : ∀ r ∈ tickReads app n, r.Inside := by
  unfold tickReads
  split_ifs with ht
  · exact chunkReads_inside hfits _
  · simp

/-! ### The guards

The sums that the guards compare are `size_t`: over a whole run they do not wrap. -/

theorem ClientConfig.chunkSize_lt (c : ClientConfig) : c.chunkSize < 2 ^ 64 := by
  have hrate : c.rate.toNat / 1000 ≤ 4294967 := by
    have := c.rate.toNat_lt
    omega
  have hptime : c.ptime.toNat ≤ 4294967295 := Nat.le_of_lt_succ c.ptime.toNat_lt
  have hchannels : c.channels.toNat ≤ 255 := Nat.le_of_lt_succ c.channels.toNat_lt
  have hbytes : (if c.format = codecL16 then 2 else 1) ≤ 2 := by
    split_ifs <;> norm_num
  calc c.chunkSize ≤ 4294967 * 4294967295 * 2 * 255 :=
        Nat.mul_le_mul (Nat.mul_le_mul (Nat.mul_le_mul hrate hptime) hbytes) hchannels
    _ < 2 ^ 64 := by norm_num

/-- The offsets a tick leaves are those it found, the start of the file, or the end of a chunk
inside the file. -/
structure SendState.OffsetsInside (app : ClientApp) (conn : SendState) : Prop where
  first : conn.offset = 0 ∨ conn.offset ≤ app.inputSize ∧ app.config.chunkSize ≤ app.inputSize
  second : conn.offset2 = 0 ∨
    conn.offset2 ≤ app.inputSize2 ∧ app.config.chunkSize ≤ app.inputSize2

theorem sendInputChunk_offsets {app : ClientApp} {conn : SendState}
    (hfits : app.config.loop = true → app.ChunkFits) (h : conn.OffsetsInside app) :
    (sendInputChunk app conn).2.OffsetsInside app := by
  unfold sendInputChunk
  dsimp only
  cases h₁ : rewind app.config.loop conn.offset app.config.chunkSize app.inputSize with
  | none => exact ⟨h.first, h.second⟩
  | some offset =>
      have hin := rewind_inside (fun hl => (hfits hl).1) h₁
      have hfirst : app.config.chunkSize ≤ app.inputSize := by omega
      cases hdata : app.inputData2 with
      | none => exact ⟨.inr ⟨hin, hfirst⟩, h.second⟩
      | some data =>
          cases h₂ : rewind app.config.loop conn.offset2 app.config.chunkSize app.inputSize2 with
          | none => exact ⟨.inr ⟨Nat.le_of_add_right_le hin, hfirst⟩, h.second⟩
          | some offset2 =>
              have hin₂ := rewind_inside (fun hl => (hfits hl).2 (by rw [hdata]; rfl)) h₂
              exact ⟨.inr ⟨hin, hfirst⟩, .inr ⟨hin₂, by omega⟩⟩

theorem afterTicks_offsets {app : ClientApp} (hfits : app.config.loop = true → app.ChunkFits)
    (n : ℕ) : (afterTicks app n).OffsetsInside app := by
  induction n with
  | zero => exact ⟨.inl rfl, .inl rfl⟩
  | succ n ih =>
      unfold afterTicks onTimer
      split_ifs
      · exact sendInputChunk_offsets hfits ih
      · exact ih

/-- No guard of a run wraps, for files of any size that `off_t` can hold. -/
theorem guards_fit {app : ClientApp} (hfits : app.config.loop = true → app.ChunkFits)
    (h₁ : app.inputSize < 2 ^ 63) (h₂ : app.inputSize2 < 2 ^ 63) (n : ℕ) :
    (afterTicks app n).offset + app.config.chunkSize < 2 ^ 64 ∧
      (afterTicks app n).offset2 + app.config.chunkSize < 2 ^ 64 := by
  have hsize := app.config.chunkSize_lt
  obtain ⟨hfirst, hsecond⟩ := afterTicks_offsets hfits n
  omega

/-! ### Files -/

/-- The first tick of a client that loops reads each file from its start. -/
theorem tickReads_zero {app : ClientApp} (hloop : app.config.loop = true) :
    tickReads app 0 = ⟨0, app.config.chunkSize, app.inputSize⟩ ::
      (app.inputData2.map fun _ => ⟨0, app.config.chunkSize, app.inputSize2⟩).toList := by
  have hrewind : ∀ size, rewind true 0 app.config.chunkSize size = some 0 := by
    intro size
    unfold rewind
    split_ifs with hend hloop
    · rfl
    · exact absurd rfl hloop
    · rfl
  have hconn : (afterTicks app 0).timer = true ∧ (afterTicks app 0).offset = 0 ∧
      (afterTicks app 0).offset2 = 0 := ⟨rfl, rfl, rfl⟩
  unfold tickReads chunkReads
  rw [if_pos hconn.1, hconn.2.1, hconn.2.2, hloop]
  cases hdata : app.inputData2 <;> simp [hrewind]

theorem loadInputFile_sizes {config : ClientConfig} {file : List UInt8}
    {file2 : Option (List UInt8)} {app : ClientApp}
    (h : loadInputFile config file file2 = some app) :
    app.config = config ∧ (app.ChunkFits ↔
      config.chunkSize ≤ file.length ∧ ∀ f ∈ file2, config.chunkSize ≤ f.length) := by
  unfold loadInputFile at h
  split_ifs at h
  rw [Option.some.injEq] at h
  rw [← h]
  refine ⟨rfl, ?_⟩
  unfold ClientApp.ChunkFits
  cases file2 <;> simp

/-- **The client reads inside its input files** in every tick of every run, exactly when it does
not loop or a chunk fits into each of the files. -/
theorem tickReads_inside_iff {config : ClientConfig} {file : List UInt8}
    {file2 : Option (List UInt8)} {app : ClientApp}
    (h : loadInputFile config file file2 = some app) :
    (∀ n, ∀ r ∈ tickReads app n, r.Inside) ↔
      (config.loop = true →
        config.chunkSize ≤ file.length ∧ ∀ f ∈ file2, config.chunkSize ≤ f.length) := by
  obtain ⟨hconfig, hfits⟩ := loadInputFile_sizes h
  constructor
  · intro hin hloop
    rw [← hconfig] at hloop
    have h0 := hin 0
    rw [tickReads_zero hloop] at h0
    rw [← hfits]
    constructor
    · simpa [ChunkRead.Inside] using h0 _ List.mem_cons_self
    · intro hsome
      obtain ⟨data, hdata⟩ := Option.isSome_iff_exists.mp hsome
      rw [hdata] at h0
      simpa [ChunkRead.Inside] using h0 ⟨0, app.config.chunkSize, app.inputSize2⟩ (by simp)
  · intro hcond n
    apply tickReads_inside
    rw [hconfig]
    exact fun hloop => hfits.mpr (hcond hloop)

/-- Twenty milliseconds of PCMU at 8 kHz, repeated. -/
def loopingConfig : ClientConfig where
  rate := 8000
  channels := 1
  format := codecPcmu
  inEndian := 1
  outRate := 16000
  outChannels := 1
  outFormat := codecL16
  outEndian := 1
  ptime := 20
  loop := true
  vadEnabled := false

theorem tickReads_inside_long : ∃ app,
    loadInputFile loopingConfig (List.replicate 400 0) none = some app ∧
      ∀ n, ∀ r ∈ tickReads app n, r.Inside := by
  obtain ⟨app, h⟩ : ∃ app, loadInputFile loopingConfig (List.replicate 400 0) none = some app :=
    ⟨_, if_neg (by simp)⟩
  refine ⟨app, h, (tickReads_inside_iff h).mpr fun _ => ⟨?_, by simp⟩⟩
  rw [List.length_replicate]
  decide

/-- A chunk has 160 bytes, and the file has 100. -/
theorem tickReads_outside_short : ∃ app,
    loadInputFile loopingConfig (List.replicate 100 0) none = some app ∧
      ∃ n, ∃ r ∈ tickReads app n, ¬r.Inside := by
  refine ⟨_, if_neg (by simp), 0, ⟨0, 160, 100⟩, ?_, by decide⟩
  rw [tickReads_zero rfl]
  exact List.mem_cons_self

end MachAudio
