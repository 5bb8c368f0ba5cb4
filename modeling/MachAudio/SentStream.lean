import MachAudio.InputFiles
import MachAudio.Overflow

/-! # What a client sends over a whole run

A connection of the client writes its `CMD_START` when it is established and, with every tick of
its timer, the next chunk of each input file.  `written` is what it has written after so many
ticks, as the code does it; `chunkOf` and `sentCount` say what that should be.

A client that does not loop sends the whole chunks of its files once, in order, until one of them
has none left, and then stops its timer; the rest of a file that is no whole chunk is not sent.
A client that loops sends the chunks of each file over and over.  Sequence numbers count the
messages (`client_sends_files`). -/

namespace MachAudio

/-- What a connection has written after so many ticks. -/
def written (app : ClientApp) : ℕ → List (List UInt8)
  | 0 => (onConnect app .init 0).1.toList
  | n + 1 => written app n ++ (onTimer app (afterTicks app n)).1.toList

/-! ### What should be sent -/

/-- The `k`-th chunk of a file that is read over and over. -/
def chunkOf (chunkSize : ℕ) (file : List UInt8) (k : ℕ) : List UInt8 :=
  (file.drop (k % (file.length / chunkSize) * chunkSize)).take chunkSize

/-- The buffers of the `k`-th message. -/
def chunksOf (config : ClientConfig) (file : List UInt8) (file2 : Option (List UInt8)) (k : ℕ) :
    List WireBuffer :=
  ⟨oneFloat, chunkOf config.chunkSize file k⟩ ::
    (file2.map fun f => ⟨oneFloat, chunkOf config.chunkSize f k⟩).toList

/-- The whole chunks that every file has. -/
def wholeChunks (chunkSize : ℕ) (file : List UInt8) (file2 : Option (List UInt8)) : ℕ :=
  match file2 with
  | none => file.length / chunkSize
  | some f => min (file.length / chunkSize) (f.length / chunkSize)

theorem wholeChunks_le {chunkSize : ℕ} {file : List UInt8} {file2 : Option (List UInt8)} :
    ∀ f ∈ file :: file2.toList, wholeChunks chunkSize file file2 ≤ f.length / chunkSize := by
  intro f hf
  unfold wholeChunks
  cases file2 with
  | none =>
      obtain rfl := List.mem_singleton.mp hf
      exact Nat.le_refl _
  | some f₂ =>
      rcases List.mem_cons.mp hf with rfl | hf
      · exact Nat.min_le_left _ _
      · obtain rfl := List.mem_singleton.mp hf
        exact Nat.min_le_right _ _

/-- The messages sent in so many ticks. -/
def sentCount (config : ClientConfig) (file : List UInt8) (file2 : Option (List UInt8))
    (n : ℕ) : ℕ :=
  if config.loop then n else min n (wholeChunks config.chunkSize file file2)

theorem sentCount_zero (config : ClientConfig) (file : List UInt8)
    (file2 : Option (List UInt8)) : sentCount config file file2 0 = 0 := by
  unfold sentCount
  split_ifs
  · rfl
  · exact Nat.zero_min _

/-! ### One file -/

/-- The offset behind the chunk that was sent last. -/
def offsetAfter (chunkSize : ℕ) (file : List UInt8) : ℕ → ℕ
  | 0 => 0
  | m + 1 => m % (file.length / chunkSize) * chunkSize + chunkSize

theorem div_mul_bounds {chunkSize n : ℕ} (hpos : 0 < chunkSize) :
    n / chunkSize * chunkSize ≤ n ∧ n < n / chunkSize * chunkSize + chunkSize := by
  have h := Nat.div_add_mod n chunkSize
  have hmod := Nat.mod_lt n hpos
  rw [Nat.mul_comm] at h
  omega

/-- The next chunk is where the next message should take it from. -/
theorem rewind_next {loop : Bool} {chunkSize : ℕ} {f : List UInt8} (hpos : 0 < chunkSize)
    {m : ℕ} (h : (loop = true ∧ chunkSize ≤ f.length) ∨ m < f.length / chunkSize) :
    rewind loop (offsetAfter chunkSize f m) chunkSize f.length =
      some (m % (f.length / chunkSize) * chunkSize) := by
  obtain ⟨hle, hlt⟩ := div_mul_bounds (n := f.length) hpos
  generalize hq : f.length / chunkSize = q at *
  have hqpos : 0 < q := by
    rcases h with ⟨-, hfit⟩ | h
    · rw [← hq]
      exact Nat.div_pos hfit hpos
    · omega
  unfold rewind
  cases m with
  | zero =>
      have hone : chunkSize ≤ q * chunkSize := Nat.le_mul_of_pos_left _ hqpos
      rw [offsetAfter, if_neg (by omega), Nat.zero_mod, Nat.zero_mul]
  | succ m =>
      rw [offsetAfter, hq]
      have hmod := Nat.mod_lt m hqpos
      by_cases hlast : m % q + 1 = q
      · -- the file is at its end
        have hend : m % q * chunkSize + chunkSize = q * chunkSize := by
          conv_rhs => rw [← hlast, Nat.add_mul, Nat.one_mul]
        have hwrap : (m + 1) % q = 0 := by
          rw [Nat.add_mod, Nat.mod_eq_zero_of_dvd]
          rcases Nat.lt_or_ge 1 q with h1 | h1
          · rw [Nat.mod_eq_of_lt h1, hlast]
          · obtain rfl : q = 1 := by omega
            exact one_dvd _
        have hloop : loop = true := by
          rcases h with ⟨hl, -⟩ | h
          · exact hl
          · have := Nat.mod_eq_of_lt (show m < q by omega)
            omega
        rw [hend, if_pos (by omega), hloop, hwrap, Nat.zero_mul]
        rfl
      · have hnext : (m + 1) % q = m % q + 1 := by
          rw [Nat.add_mod, Nat.mod_eq_of_lt (a := 1) (by omega), Nat.mod_eq_of_lt (by omega)]
        have hroom : (m % q + 1) * chunkSize + chunkSize ≤ q * chunkSize := by
          have hstep : (m % q + 1 + 1) * chunkSize ≤ q * chunkSize :=
            Nat.mul_le_mul_right _ (by omega)
          rwa [Nat.add_mul (m % q + 1), Nat.one_mul] at hstep
        rw [Nat.add_mul, Nat.one_mul] at hroom
        rw [if_neg (by omega), hnext, Nat.add_mul, Nat.one_mul]

/-- Behind the last whole chunk there is none. -/
theorem rewind_end {chunkSize : ℕ} {file : List UInt8} (hpos : 0 < chunkSize) :
    rewind false (offsetAfter chunkSize file (file.length / chunkSize)) chunkSize file.length =
      none := by
  obtain ⟨hle, hlt⟩ := div_mul_bounds (n := file.length) hpos
  generalize hq : file.length / chunkSize = q at *
  have hoff : offsetAfter chunkSize file q = q * chunkSize := by
    cases q with
    | zero => rw [Nat.zero_mul]; rfl
    | succ q => rw [offsetAfter, hq, Nat.mod_eq_of_lt (by omega), Nat.add_mul, Nat.one_mul]
  unfold rewind
  rw [hoff, if_pos (by omega)]
  rfl

/-- What is read of a mapped file inside its bounds. -/
theorem readInput_file (file : List UInt8) {offset n : ℕ} (h : offset + n ≤ file.length) :
    readInput (fun i => file.getD i 0) offset n = (file.drop offset).take n := by
  apply List.ext_getElem
  · rw [length_readInput, List.length_take, List.length_drop]
    omega
  · intro i h₁ h₂
    rw [length_readInput] at h₁
    simp only [readInput, List.getElem_map, List.getElem_range, List.getElem_take,
      List.getElem_drop]
    rw [List.getD_eq_getElem?_getD, List.getElem?_eq_getElem (by omega)]
    rfl

theorem chunkOf_inside {chunkSize : ℕ} {file : List UInt8} (hpos : 0 < chunkSize)
    (hfit : chunkSize ≤ file.length) (m : ℕ) :
    m % (file.length / chunkSize) * chunkSize + chunkSize ≤ file.length := by
  obtain ⟨hle, -⟩ := div_mul_bounds (n := file.length) hpos
  have hmod := Nat.mod_lt m (Nat.div_pos hfit hpos)
  have hstep : (m % (file.length / chunkSize) + 1) * chunkSize ≤
      file.length / chunkSize * chunkSize := Nat.mul_le_mul_right _ hmod
  rw [Nat.add_mul, Nat.one_mul] at hstep
  omega

theorem readInput_chunkOf {chunkSize : ℕ} {file : List UInt8} (hpos : 0 < chunkSize)
    (hfit : chunkSize ≤ file.length) (m : ℕ) :
    readInput (fun i => file.getD i 0) (m % (file.length / chunkSize) * chunkSize) chunkSize =
      chunkOf chunkSize file m :=
  readInput_file file (chunkOf_inside hpos hfit m)

theorem length_chunkOf {chunkSize : ℕ} {file : List UInt8} (hpos : 0 < chunkSize)
    (hfit : chunkSize ≤ file.length) (m : ℕ) : (chunkOf chunkSize file m).length = chunkSize := by
  rw [← readInput_chunkOf hpos hfit, length_readInput]

/-- The chunks of a file, one after another, are the file up to the rest that is no chunk. -/
theorem flatMap_chunkOf {chunkSize : ℕ} {file : List UInt8} (m : ℕ)
    (h : m ≤ file.length / chunkSize) :
    (List.range m).flatMap (chunkOf chunkSize file) = file.take (m * chunkSize) := by
  induction m with
  | zero => simp
  | succ m ih =>
      rw [List.range_succ, List.flatMap_append, ih (by omega), List.flatMap_singleton, chunkOf,
        Nat.mod_eq_of_lt (by omega), Nat.add_mul, Nat.one_mul, ← List.take_add]

/-! ### One tick -/

section tick
variable {config : ClientConfig} {file : List UInt8} {file2 : Option (List UInt8)}

/-- The connection after `n` ticks. -/
structure SendState.Sending (config : ClientConfig) (file : List UInt8)
    (file2 : Option (List UInt8)) (n : ℕ) (conn : SendState) : Prop where
  offset : conn.offset = offsetAfter config.chunkSize file (sentCount config file file2 n)
  offset2 : ∀ f ∈ file2,
    conn.offset2 = offsetAfter config.chunkSize f (sentCount config file file2 n)
  sequenceId : conn.sequenceId = UInt32.ofNat (sentCount config file file2 n + 1)
  totalSent : conn.totalSent = UInt64.ofNat
    (sentCount config file file2 n * (config.chunkSize * (1 + file2.toList.length)))
  timer : conn.timer = true ↔
    config.loop = true ∨ n ≤ wholeChunks config.chunkSize file file2

/-- There is another chunk of every file to send. -/
def MoreToSend (config : ClientConfig) (file : List UInt8) (file2 : Option (List UInt8))
    (n : ℕ) : Prop :=
  config.loop = true ∨ n < wholeChunks config.chunkSize file file2

theorem sentCount_of_more {n : ℕ} (h : MoreToSend config file file2 n) :
    sentCount config file file2 n = n ∧ sentCount config file file2 (n + 1) = n + 1 := by
  unfold MoreToSend at h
  unfold sentCount
  split_ifs with hloop
  · exact ⟨rfl, rfl⟩
  · have hlt := h.resolve_left hloop
    exact ⟨Nat.min_eq_left (by omega), Nat.min_eq_left hlt⟩

theorem sentCount_of_done {n : ℕ} (h : ¬MoreToSend config file file2 n) :
    config.loop = false ∧
      sentCount config file file2 n = wholeChunks config.chunkSize file file2 ∧
      sentCount config file file2 (n + 1) = wholeChunks config.chunkSize file file2 := by
  obtain ⟨hloop, hle⟩ := not_or.mp h
  unfold sentCount
  rw [if_neg hloop, if_neg hloop]
  exact ⟨by simpa using hloop, Nat.min_eq_right (by omega), Nat.min_eq_right (by omega)⟩

/-- A stopped connection stays as it is. -/
theorem SendState.Sending.stopped {n : ℕ} {conn : SendState}
    (h : conn.Sending config file file2 n) (hdone : ¬MoreToSend config file file2 n)
    (ht : conn.timer = false) : conn.Sending config file file2 (n + 1) := by
  obtain ⟨-, hm, hm'⟩ := sentCount_of_done hdone
  obtain ⟨h₁, h₂, h₃, h₄, -⟩ := h
  rw [hm, ← hm'] at h₁ h₂ h₃ h₄
  exact ⟨h₁, h₂, h₃, h₄, by rw [ht]; exact iff_of_false Bool.false_ne_true hdone⟩

/-- The files that a client has mapped. -/
structure Mapped (config : ClientConfig) (file : List UInt8) (file2 : Option (List UInt8))
    (app : ClientApp) : Prop where
  config : app.config = config
  inputData : app.inputData = fun i => file.getD i 0
  inputSize : app.inputSize = file.length
  inputData2 : app.inputData2 = file2.map fun f i => f.getD i 0
  inputSize2 : ∀ f ∈ file2, app.inputSize2 = f.length

theorem mapped_loadInputFile {app : ClientApp} (h : loadInputFile config file file2 = some app) :
    Mapped config file file2 app := by
  unfold loadInputFile at h
  split_ifs at h
  rw [Option.some.injEq] at h
  subst h
  refine ⟨rfl, rfl, rfl, rfl, fun f hf => ?_⟩
  rw [Option.mem_def.mp hf]
  rfl

/-- Each file has a next chunk while there is more to send. -/
theorem MoreToSend.next {n : ℕ} (h : MoreToSend config file file2 n)
    (hfits : config.loop = true →
      config.chunkSize ≤ file.length ∧ ∀ f ∈ file2, config.chunkSize ≤ f.length) :
    ∀ f ∈ file :: file2.toList,
      (config.loop = true ∧ config.chunkSize ≤ f.length) ∨ n < f.length / config.chunkSize := by
  intro f hf
  rcases h with hloop | hlt
  · refine .inl ⟨hloop, ?_⟩
    rcases List.mem_cons.mp hf with rfl | hf
    · exact (hfits hloop).1
    · exact (hfits hloop).2 f (Option.mem_toList.mp hf)
  · right
    unfold wholeChunks at hlt
    cases file2 with
    | none =>
        obtain rfl := List.mem_singleton.mp hf
        exact hlt
    | some f₂ =>
        dsimp only at hlt
        rcases List.mem_cons.mp hf with rfl | hf
        · omega
        · obtain rfl := List.mem_singleton.mp hf
          omega

theorem chunk_le_of_next {loop : Bool} {chunkSize size n : ℕ}
    (h : (loop = true ∧ chunkSize ≤ size) ∨ n < size / chunkSize) : chunkSize ≤ size := by
  rcases h with ⟨-, h⟩ | h
  · exact h
  · by_contra hlt
    rw [Nat.div_eq_of_lt (by omega)] at h
    omega

variable {app : ClientApp} (happ : Mapped config file file2 app) (hpos : 0 < config.chunkSize)

include happ hpos

/-- A tick with more to send sends the next chunks. -/
theorem sendInputChunk_more (hlt : config.chunkSize < 2 ^ 31)
    (hfits : config.loop = true →
      config.chunkSize ≤ file.length ∧ ∀ f ∈ file2, config.chunkSize ≤ f.length)
    {n : ℕ} {conn : SendState} (hconn : conn.Sending config file file2 n)
    (hmore : MoreToSend config file file2 n) :
    (sendInputChunk app conn).1 =
        some (inputMessage (UInt32.ofNat (n + 1)) (chunksOf config file file2 n)) ∧
      (sendInputChunk app conn).2.Sending config file file2 (n + 1) := by
  obtain ⟨hoff, hoff2, hseq, htotal, htimer⟩ := hconn
  obtain ⟨hm, hm'⟩ := sentCount_of_more hmore
  have hnext := hmore.next hfits
  have h₁ := hnext file List.mem_cons_self
  have hr₁ := rewind_next (f := file) hpos h₁
  have hc₁ := readInput_chunkOf hpos (chunk_le_of_next h₁) n
  have hrun : conn.timer = true :=
    htimer.mpr (hmore.imp_right Nat.le_of_lt)
  rw [hm] at hoff hoff2 hseq htotal
  have hstill : config.loop = true ∨ n + 1 ≤ wholeChunks config.chunkSize file file2 := hmore
  unfold sendInputChunk
  dsimp only
  rw [happ.config, happ.inputSize, hoff, hr₁]
  cases file2 with
  | none =>
      have hdata : app.inputData2 = none := happ.inputData2
      simp only [hdata]
      rw [happ.inputData, hc₁, hseq]
      refine ⟨?_, ?_⟩
      · rw [inputChunk_eq _ _ _ (by simp)
          (by rwa [length_chunkOf hpos (chunk_le_of_next h₁)])]
        rfl
      · refine ⟨?_, fun f hf => (Option.not_mem_none f hf).elim, ?_, ?_, ?_⟩
        · rw [hm']
          rfl
        · rw [hm', UInt32.ofNat_add (n + 1)]
          rfl
        · rw [hm', htotal, ← UInt64.ofNat_add]
          refine congrArg UInt64.ofNat ?_
          simp only [Option.toList_none, List.length_nil]
          ring
        · exact iff_of_true hrun hstill
  | some f =>
      have h₂ := hnext f (by simp)
      have hr₂ := rewind_next (f := f) hpos h₂
      have hc₂ := readInput_chunkOf hpos (chunk_le_of_next h₂) n
      have hdata : app.inputData2 = some fun i => f.getD i 0 := happ.inputData2
      have hlen₁ := length_chunkOf hpos (chunk_le_of_next h₁) n
      have hlen₂ := length_chunkOf hpos (chunk_le_of_next h₂) n
      simp only [hdata]
      rw [happ.inputSize2 f rfl, hoff2 f rfl, hr₂]
      dsimp only
      rw [happ.inputData, hc₁, hc₂, hseq]
      refine ⟨?_, ?_⟩
      · rw [inputChunk_eq _ _ _ (fun c hc => ?_) (by rwa [hlen₁])]
        · rfl
        · obtain rfl := Option.some.inj hc
          rw [hlen₁, hlen₂]
      · refine ⟨?_, ?_, ?_, ?_, ?_⟩
        · rw [hm']
          rfl
        · intro f' hf'
          obtain rfl := Option.some.inj hf'
          rw [hm']
          rfl
        · rw [hm', UInt32.ofNat_add (n + 1)]
          rfl
        · rw [hm', htotal, ← UInt64.ofNat_add, ← UInt64.ofNat_add]
          refine congrArg UInt64.ofNat ?_
          simp only [Option.toList_some, List.length_singleton]
          ring
        · exact iff_of_true hrun hstill

/-- A tick at the end of a file stops the timer. -/
theorem sendInputChunk_done {n : ℕ} {conn : SendState} (hconn : conn.Sending config file file2 n)
    (hdone : ¬MoreToSend config file file2 n) :
    (sendInputChunk app conn).1 = none ∧
      (sendInputChunk app conn).2.Sending config file file2 (n + 1) := by
  obtain ⟨hloop, hm, hm'⟩ := sentCount_of_done hdone
  obtain ⟨hoff, hoff2, hseq, htotal, htimer⟩ := hconn
  rw [hm, ← hm'] at hoff hoff2 hseq htotal
  have hsame : ∀ conn' : SendState, conn'.offset = conn.offset → conn'.offset2 = conn.offset2 →
      conn'.sequenceId = conn.sequenceId → conn'.totalSent = conn.totalSent →
      conn'.timer = false → conn'.Sending config file file2 (n + 1) := by
    intro conn' h₁ h₂ h₃ h₄ h₅
    refine ⟨h₁.trans hoff, fun f hf => h₂.trans (hoff2 f hf), h₃.trans hseq, h₄.trans htotal, ?_⟩
    rw [h₅]
    exact iff_of_false Bool.false_ne_true hdone
  unfold sendInputChunk
  dsimp only
  rw [happ.config, happ.inputSize, hloop]
  cases hr : rewind false conn.offset config.chunkSize file.length with
  | none => exact ⟨rfl, hsame _ rfl rfl rfl rfl rfl⟩
  | some offset =>
      have hkeep : offset = conn.offset := by
        unfold rewind at hr
        rw [if_neg Bool.false_ne_true] at hr
        split_ifs at hr
        exact (Option.some.inj hr).symm
      cases file2 with
      | none =>
          have hq : wholeChunks config.chunkSize file none = file.length / config.chunkSize := rfl
          rw [hoff, hm', hq, rewind_end hpos] at hr
          cases hr
      | some f =>
          have hdata : app.inputData2 = some fun i => f.getD i 0 := happ.inputData2
          have hq : wholeChunks config.chunkSize file (some f) =
              min (file.length / config.chunkSize) (f.length / config.chunkSize) := rfl
          -- the first file has a chunk left, so it is the second that is at its end
          have hsecond : wholeChunks config.chunkSize file (some f) =
              f.length / config.chunkSize := by
            rcases Nat.le_total (file.length / config.chunkSize) (f.length / config.chunkSize)
              with hle | hle
            · rw [hoff, hm', hq, Nat.min_eq_left hle, rewind_end hpos] at hr
              cases hr
            · rw [hq, Nat.min_eq_right hle]
          have hr₂ : rewind false conn.offset2 config.chunkSize f.length = none := by
            rw [hoff2 f rfl, hm', hsecond, rewind_end hpos]
          simp only [hdata]
          rw [happ.inputSize2 f rfl, hr₂]
          exact ⟨rfl, hsame _ hkeep rfl rfl rfl rfl⟩

end tick

/-! ### Whole runs -/

section run
variable {config : ClientConfig} {file : List UInt8} {file2 : Option (List UInt8)}
  {app : ClientApp}

/-- The messages of a whole run. -/
def sentMessages (config : ClientConfig) (file : List UInt8) (file2 : Option (List UInt8))
    (n : ℕ) : List (List UInt8) :=
  requestBytes cmdStart 0 (startPayload config.startConfig) ::
    (List.range (sentCount config file file2 n)).map fun k =>
      inputMessage (UInt32.ofNat (k + 1)) (chunksOf config file file2 k)

theorem written_sending (happ : Mapped config file file2 app) (hpos : 0 < config.chunkSize)
    (hlt : config.chunkSize < 2 ^ 31)
    (hfits : config.loop = true →
      config.chunkSize ≤ file.length ∧ ∀ f ∈ file2, config.chunkSize ≤ f.length) (n : ℕ) :
    written app n = sentMessages config file file2 n ∧
      (afterTicks app n).Sending config file file2 n := by
  induction n with
  | zero =>
      refine ⟨?_, ?_⟩
      · unfold sentMessages written onConnect
        rw [sentCount_zero, if_neg (by decide), happ.config]
        rfl
      · refine ⟨?_, fun f _ => ?_, ?_, ?_, ?_⟩
        · rw [sentCount_zero]
          rfl
        · rw [sentCount_zero]
          rfl
        · rw [sentCount_zero]
          rfl
        · rw [sentCount_zero, Nat.zero_mul]
          rfl
        · exact iff_of_true rfl (.inr (Nat.zero_le _))
  | succ n ih =>
      obtain ⟨hwritten, hconn⟩ := ih
      have hw : written app (n + 1) = written app n ++ (onTimer app (afterTicks app n)).1.toList :=
        rfl
      have ha : afterTicks app (n + 1) = (onTimer app (afterTicks app n)).2 := rfl
      rw [hw, ha, hwritten]
      unfold onTimer
      by_cases hmore : MoreToSend config file file2 n
      · obtain ⟨hm, hm'⟩ := sentCount_of_more hmore
        obtain ⟨hsent, hnext⟩ := sendInputChunk_more happ hpos hlt hfits hconn hmore
        rw [if_pos (hconn.timer.mpr (hmore.imp_right Nat.le_of_lt)), hsent]
        refine ⟨?_, hnext⟩
        unfold sentMessages
        rw [hm, hm', List.range_succ, List.map_append, List.map_singleton]
        rfl
      · obtain ⟨-, hm, hm'⟩ := sentCount_of_done hmore
        have hsame : sentMessages config file file2 (n + 1) = sentMessages config file file2 n := by
          unfold sentMessages
          rw [hm, hm']
        rw [hsame]
        split_ifs with ht
        · obtain ⟨hnone, hnext⟩ := sendInputChunk_done happ hpos hconn hmore
          rw [hnone]
          exact ⟨List.append_nil _, hnext⟩
        · exact ⟨List.append_nil _, hconn.stopped hmore (by simpa using ht)⟩

/-- **The client sends its files.**  After any number of ticks it has written its `CMD_START` and
one message for each chunk, numbered in order.  Without looping these are the whole chunks of
the files, each once, and the timer stops at the first tick that finds one without; with looping
they go on from the start of each file. -/
theorem client_sends_files (h : loadInputFile config file file2 = some app)
    (hpos : 0 < config.chunkSize) (hlt : config.chunkSize < 2 ^ 31)
    (hfits : config.loop = true →
      config.chunkSize ≤ file.length ∧ ∀ f ∈ file2, config.chunkSize ≤ f.length) (n : ℕ) :
    written app n = sentMessages config file file2 n ∧
      ((afterTicks app n).timer = true ↔
        config.loop = true ∨ n ≤ wholeChunks config.chunkSize file file2) ∧
      (afterTicks app n).totalSent = UInt64.ofNat
        (sentCount config file file2 n * (config.chunkSize * (1 + file2.toList.length))) ∧
      (config.loop = false → ∀ f ∈ file :: file2.toList,
        (List.range (sentCount config file file2 n)).flatMap (chunkOf config.chunkSize f) =
          f.take (sentCount config file file2 n * config.chunkSize)) := by
  obtain ⟨hwritten, hconn⟩ := written_sending (mapped_loadInputFile h) hpos hlt hfits n
  refine ⟨hwritten, hconn.timer, hconn.totalSent, fun hloop f hf => flatMap_chunkOf _ ?_⟩
  have hle : sentCount config file file2 n ≤ wholeChunks config.chunkSize file file2 := by
    unfold sentCount
    rw [hloop, if_neg Bool.false_ne_true]
    exact Nat.min_le_right _ _
  exact hle.trans (wholeChunks_le f hf)

/-- Two chunks and a half, sent once. -/
theorem client_sends_files_once : ∃ app,
    loadInputFile { loopingConfig with loop := false } (List.replicate 400 0x55) none = some app ∧
      (written app 5).length = 3 ∧ (afterTicks app 5).timer = false := by
  have happ : ∃ app, loadInputFile { loopingConfig with loop := false }
      (List.replicate 400 0x55) none = some app :=
    ⟨_, if_neg (by simp)⟩
  obtain ⟨app, happ⟩ := happ
  refine ⟨app, happ, ?_⟩
  have hsends := client_sends_files happ (by decide) (by decide)
    (fun hloop => absurd (show false = true from hloop) Bool.false_ne_true) 5
  have hcount : sentCount { loopingConfig with loop := false } (List.replicate 400 0x55) none 5 =
      2 := by
    unfold sentCount wholeChunks
    rw [List.length_replicate]
    decide
  obtain ⟨hwritten, htimer, -⟩ := hsends
  refine ⟨?_, ?_⟩
  · rw [hwritten, sentMessages, hcount]
    rfl
  · rw [← Bool.not_eq_true, htimer, wholeChunks, List.length_replicate]
    decide

end run

end MachAudio
