import Mathlib.Algebra.Group.Int.Defs
import Mathlib.Algebra.Group.Nat.Defs
import MachAudio.Lib.Ledger

/-! # The training data of the voice detector

A file of training data is a sequence of records of 84 bytes, twenty features and a label
(`vad_training_data_load`).  The loader trusts the size that `ftell` reports for the number of
records, allocates two blocks for them and scatters what it reads; whenever something fails it
returns the data that is built in.  Whatever happens, every file is closed and no block is lost or
freed twice, nothing is written outside the blocks, and the data is either all of the file's or the
built-in one (`training_data_loaded`). -/

namespace MachAudio

/-! ### Files and blocks -/

/-- What the loader acquires: a file, and blocks. -/
inductive LoaderResource
  | file
  | block (address : ℕ)
deriving DecidableEq, Repr

/-- What the loader finds: the size that `ftell` reports, and the bytes that can be read. -/
structure TrainingFile where
  totalSize : ℤ
  bytes : List UInt8

/-- The file system and the allocator: `alignedAlloc n` is the result of the `n`-th call, and
`junk` what a block has in it. -/
structure LoaderEnv where
  fopen : List Char → Option TrainingFile
  alignedAlloc : ℕ → Option ℕ
  junk : ℕ → UInt8

/-! ### The data -/

/-- A table of floats: one of the constants, or a block with its bytes. -/
inductive TrainingTable
  | builtIn
  | block (address : ℕ) (bytes : List UInt8)
  | null
deriving DecidableEq, Repr

structure VadTrainingData where
  numFrames : ℕ
  features : TrainingTable
  labels : TrainingTable
  isAllocated : Bool
deriving DecidableEq, Repr

/-- `VAD_NUM_FRAMES` frames of `VAD_TRAIN_FEATURES` and `VAD_TRAIN_LABELS`. -/
def builtInData : VadTrainingData := ⟨200, .builtIn, .builtIn, false⟩

/-- `VAD_RECORD_SIZE`. -/
def vadRecordSize : ℕ := 84

/-- The bytes of the features of a record. -/
def featuresSize : ℕ := 80

/-- The bytes of the label of a record. -/
def labelSize : ℕ := 4

/-- A size rounded up to 32 bytes, in `size_t`. -/
def paddedSize (size : ℕ) : ℕ := (size + 31) % 2 ^ 64 / 32 * 32

/-- `memcpy` to a place in a block. -/
def memcpyAt (dst : List UInt8) (pos : ℕ) (src : List UInt8) : List UInt8 :=
  dst.take pos ++ src ++ dst.drop (pos + src.length)

/-- What the loop has written; `reading` says whether every `fread` so far was full. -/
structure Scatter where
  features : List UInt8
  labels : List UInt8
  reading : Bool
  faults : ℕ

/-- The record that the `i`-th `fread` finds. -/
def recordAt (bytes : List UInt8) (i : ℕ) : List UInt8 :=
  (bytes.drop (vadRecordSize * i)).take vadRecordSize

def scatterRecord (bytes : List UInt8) (s : Scatter) (i : ℕ) : Scatter :=
  if !s.reading then s
  else if (recordAt bytes i).length ≠ vadRecordSize then { s with reading := false }
  else
    { s with
      features := memcpyAt s.features (featuresSize * i) ((recordAt bytes i).take featuresSize)
      labels := memcpyAt s.labels (labelSize * i) ((recordAt bytes i).drop featuresSize)
      faults := s.faults +
        (if featuresSize * i + featuresSize ≤ s.features.length then 0 else 1) +
        if labelSize * i + labelSize ≤ s.labels.length then 0 else 1 }

/-- The loop over the records, in fresh blocks. -/
def scatterRecords (env : LoaderEnv) (bytes : List UInt8) (numFrames : ℕ) : Scatter :=
  (List.range numFrames).foldl (scatterRecord bytes)
    { features := (List.range (paddedSize (numFrames * featuresSize % 2 ^ 64))).map env.junk
      labels := (List.range (paddedSize (numFrames * labelSize % 2 ^ 64))).map env.junk
      reading := true
      faults := 0 }

/-- The part of `vad_training_data_load` behind the check of the size; a write outside a block is a
fault. -/
def loadRecords (env : LoaderEnv) (file : TrainingFile) (r : Ledger LoaderResource) :
    VadTrainingData × Ledger LoaderResource :=
  let numFrames := (file.totalSize / vadRecordSize).toNat
  let features := env.alignedAlloc 0
  let labels := env.alignedAlloc 1
  let r := (r.acquireOption (features.map .block)).acquireOption (labels.map .block)
  match features, labels with
  | some f, some l =>
      let s := scatterRecords env file.bytes numFrames
      let r := { r with faults := r.faults + s.faults }
      if s.reading then
        (⟨numFrames, .block f s.features, .block l s.labels, true⟩, r.release .file)
      else (builtInData, ((r.release (.block f)).release (.block l)).release .file)
  | features, labels =>
      (builtInData, ((r.releaseOption (features.map .block)).releaseOption
        (labels.map .block)).release .file)

def vadTrainingDataLoad (env : LoaderEnv) (filepath : Option (List Char))
    (r : Ledger LoaderResource) : VadTrainingData × Ledger LoaderResource :=
  match filepath with
  | none => (builtInData, r)
  | some [] => (builtInData, r)
  | some path =>
      match env.fopen path with
      | none => (builtInData, r)
      | some file =>
          let r := r.acquire .file
          if file.totalSize ≤ 0 ∨ file.totalSize % vadRecordSize ≠ 0 then
            (builtInData, r.release .file)
          else loadRecords env file r

/-- `free` of a table; a constant must not be freed. -/
def TrainingTable.free (t : TrainingTable) (r : Ledger LoaderResource) : Ledger LoaderResource :=
  match t with
  | .block address _ => r.release (.block address)
  | .builtIn => { r with faults := r.faults + 1 }
  | .null => r

def vadTrainingDataFree (data : VadTrainingData) (r : Ledger LoaderResource) :
    VadTrainingData × Ledger LoaderResource :=
  if data.isAllocated then (⟨0, .null, .null, false⟩, data.labels.free (data.features.free r))
  else (data, r)

/-! ### The loop -/

theorem length_memcpyAt {dst src : List UInt8} {pos : ℕ} (h : pos + src.length ≤ dst.length) :
    (memcpyAt dst pos src).length = dst.length := by
  unfold memcpyAt
  rw [List.length_append, List.length_append, List.length_take, List.length_drop]
  omega

theorem take_memcpyAt {dst src : List UInt8} {pos : ℕ} (h : pos + src.length ≤ dst.length) :
    (memcpyAt dst pos src).take (pos + src.length) = dst.take pos ++ src := by
  unfold memcpyAt
  apply List.take_left'
  rw [List.length_append, List.length_take]
  omega

/-- What the first `k` turns of the loop do in blocks that have room for them. -/
structure Scattered (bytes : List UInt8) (F L k : ℕ) (s : Scatter) : Prop where
  featuresLength : s.features.length = F
  labelsLength : s.labels.length = L
  faults : s.faults = 0
  reading : s.reading = true ↔ vadRecordSize * k ≤ bytes.length
  features : s.reading = true → s.features.take (featuresSize * k) =
    (List.range k).flatMap fun i => (recordAt bytes i).take featuresSize
  labels : s.reading = true → s.labels.take (labelSize * k) =
    (List.range k).flatMap fun i => (recordAt bytes i).drop featuresSize

theorem length_recordAt (bytes : List UInt8) (i : ℕ) :
    (recordAt bytes i).length = min vadRecordSize (bytes.length - vadRecordSize * i) := by
  unfold recordAt
  rw [List.length_take, List.length_drop]

/-- **One turn** of the loop. -/
theorem scatterRecord_scattered {bytes : List UInt8} {F L k : ℕ} {s : Scatter}
    (h : Scattered bytes F L k s) (hF : featuresSize * (k + 1) ≤ F)
    (hL : labelSize * (k + 1) ≤ L) : Scattered bytes F L (k + 1) (scatterRecord bytes s k) := by
  have hlen := length_recordAt bytes k
  have hF' := h.featuresLength
  have hL' := h.labelsLength
  have hreading := h.reading
  have hinF : featuresSize * k + featuresSize ≤ s.features.length := by
    rw [hF', ← Nat.mul_add_one]
    exact hF
  have hinL : labelSize * k + labelSize ≤ s.labels.length := by
    rw [hL', ← Nat.mul_add_one]
    exact hL
  unfold scatterRecord
  rcases Bool.eq_false_or_eq_true s.reading with hr | hr
  · have hk := hreading.mp hr
    simp only [hr, Bool.not_true, Bool.false_eq_true, if_false]
    by_cases hfull : (recordAt bytes k).length = vadRecordSize
    · have hfeat : ((recordAt bytes k).take featuresSize).length = featuresSize := by
        rw [List.length_take, hfull]
        rfl
      have hlab : ((recordAt bytes k).drop featuresSize).length = labelSize := by
        rw [List.length_drop, hfull]
        rfl
      rw [if_neg (not_not.mpr hfull)]
      refine ⟨?_, ?_, ?_, ?_, fun _ => ?_, fun _ => ?_⟩
      · rw [length_memcpyAt (by rwa [hfeat]), hF']
      · rw [length_memcpyAt (by rwa [hlab]), hL']
      · dsimp only
        rw [h.faults, if_pos hinF, if_pos hinL]
      · refine iff_of_true rfl ?_
        rw [hfull] at hlen
        simp only [vadRecordSize] at hlen hk ⊢
        omega
      · have htake := take_memcpyAt (show featuresSize * k +
          ((recordAt bytes k).take featuresSize).length ≤ s.features.length by rwa [hfeat])
        rw [hfeat] at htake
        rw [Nat.mul_add_one, htake, h.features hr, List.range_succ, List.flatMap_append,
          List.flatMap_singleton]
      · have htake := take_memcpyAt (show labelSize * k +
          ((recordAt bytes k).drop featuresSize).length ≤ s.labels.length by rwa [hlab])
        rw [hlab] at htake
        rw [Nat.mul_add_one, htake, h.labels hr, List.range_succ, List.flatMap_append,
          List.flatMap_singleton]
    · rw [if_pos hfull]
      refine ⟨hF', hL', h.faults, ?_, fun hf => ?_, fun hf => ?_⟩
      · refine iff_of_false Bool.false_ne_true ?_
        simp only [vadRecordSize] at hlen hfull ⊢
        omega
      · exact absurd hf Bool.false_ne_true
      · exact absurd hf Bool.false_ne_true
  · have hk : ¬vadRecordSize * k ≤ bytes.length := by
      rw [← hreading, hr]
      exact Bool.false_ne_true
    simp only [hr, Bool.not_false, if_true]
    refine ⟨hF', hL', h.faults, ?_, fun hf => ?_, fun hf => ?_⟩
    · rw [hr]
      refine iff_of_false Bool.false_ne_true ?_
      simp only [vadRecordSize] at hk ⊢
      omega
    · exact absurd (hr.symm.trans hf) Bool.false_ne_true
    · exact absurd (hr.symm.trans hf) Bool.false_ne_true

theorem paddedSize_ge {size : ℕ} (h : size < 2 ^ 63) : size ≤ paddedSize (size % 2 ^ 64) := by
  unfold paddedSize
  rw [Nat.mod_eq_of_lt (by omega), Nat.mod_eq_of_lt (by omega)]
  omega

/-- **The whole loop**, over as many records as a file can have. -/
theorem scatterRecords_scattered (env : LoaderEnv) (bytes : List UInt8) {n : ℕ}
    (hn : n * vadRecordSize < 2 ^ 63) :
    ∃ F L, Scattered bytes F L n (scatterRecords env bytes n) := by
  simp only [vadRecordSize] at hn
  have hF : n * featuresSize ≤ _ :=
    paddedSize_ge (show n * featuresSize < 2 ^ 63 by simp only [featuresSize]; omega)
  have hL : n * labelSize ≤ _ :=
    paddedSize_ge (show n * labelSize < 2 ^ 63 by simp only [labelSize]; omega)
  have hloop : ∀ k ≤ n, Scattered bytes (paddedSize (n * featuresSize % 2 ^ 64))
      (paddedSize (n * labelSize % 2 ^ 64)) k ((List.range k).foldl (scatterRecord bytes)
        { features := (List.range (paddedSize (n * featuresSize % 2 ^ 64))).map env.junk
          labels := (List.range (paddedSize (n * labelSize % 2 ^ 64))).map env.junk
          reading := true
          faults := 0 }) := by
    intro k
    induction k with
    | zero =>
        intro _
        refine ⟨?_, ?_, rfl, iff_of_true rfl (Nat.zero_le _), fun _ => rfl, fun _ => rfl⟩
        · exact (List.length_map _).trans List.length_range
        · exact (List.length_map _).trans List.length_range
    | succ k ih =>
        intro hk
        rw [List.range_succ, List.foldl_append, List.foldl_cons, List.foldl_nil]
        refine scatterRecord_scattered (ih (Nat.le_of_succ_le hk)) (Nat.le_trans ?_ hF)
          (Nat.le_trans ?_ hL)
        · rw [Nat.mul_comm]
          exact Nat.mul_le_mul_right _ hk
        · rw [Nat.mul_comm]
          exact Nat.mul_le_mul_right _ hk
  exact ⟨_, _, hloop n (Nat.le_refl n)⟩

/-! ### What a file holds -/

/-- A frame, as the bytes of its floats. -/
structure TrainingFrame where
  features : List UInt8
  label : List UInt8
  length_features : features.length = featuresSize
  length_label : label.length = labelSize

/-- The record of a frame. -/
def TrainingFrame.encode (f : TrainingFrame) : List UInt8 := f.features ++ f.label

/-- The first records of a file are those of some frames. -/
theorem exists_frames (bytes : List UInt8) (n : ℕ) (h : vadRecordSize * n ≤ bytes.length) :
    ∃ frames : List TrainingFrame, frames.length = n ∧
      frames.flatMap TrainingFrame.encode <+: bytes ∧
      frames.flatMap TrainingFrame.features =
        ((List.range n).flatMap fun i => (recordAt bytes i).take featuresSize) ∧
      frames.flatMap TrainingFrame.label =
        (List.range n).flatMap fun i => (recordAt bytes i).drop featuresSize := by
  suffices hsuff : ∃ frames : List TrainingFrame, frames.length = n ∧
      frames.flatMap TrainingFrame.encode = bytes.take (vadRecordSize * n) ∧
      frames.flatMap TrainingFrame.features =
        ((List.range n).flatMap fun i => (recordAt bytes i).take featuresSize) ∧
      frames.flatMap TrainingFrame.label =
        (List.range n).flatMap fun i => (recordAt bytes i).drop featuresSize by
    obtain ⟨frames, hlen, henc, hrest⟩ := hsuff
    exact ⟨frames, hlen, henc ▸ List.take_prefix _ _, hrest⟩
  induction n with
  | zero => exact ⟨[], rfl, by simp, rfl, rfl⟩
  | succ n ih =>
      obtain ⟨frames, hlen, henc, hfeat, hlab⟩ := ih (by simp only [vadRecordSize] at h ⊢; omega)
      have hfull : (recordAt bytes n).length = vadRecordSize := by
        rw [length_recordAt]
        simp only [vadRecordSize] at h ⊢
        omega
      have hfull₁ : ((recordAt bytes n).take featuresSize).length = featuresSize := by
        rw [List.length_take, hfull]
        rfl
      have hfull₂ : ((recordAt bytes n).drop featuresSize).length = labelSize := by
        rw [List.length_drop, hfull]
        rfl
      refine ⟨frames ++ [⟨(recordAt bytes n).take featuresSize,
        (recordAt bytes n).drop featuresSize, hfull₁, hfull₂⟩], ?_, ?_, ?_, ?_⟩
      · rw [List.length_append, hlen]
        rfl
      · rw [List.flatMap_append, henc, List.flatMap_singleton, TrainingFrame.encode,
          List.take_append_drop, recordAt, Nat.mul_add_one, List.take_add]
      · rw [List.flatMap_append, hfeat, List.flatMap_singleton, List.range_succ,
          List.flatMap_append, List.flatMap_singleton]
      · rw [List.flatMap_append, hlab, List.flatMap_singleton, List.range_succ,
          List.flatMap_append, List.flatMap_singleton]

/-! ### Every outcome -/

/-- The loader can take the data of a file. -/
def Loadable (env : LoaderEnv) (file : TrainingFile) : Prop :=
  0 < file.totalSize ∧ file.totalSize % vadRecordSize = 0 ∧
    file.totalSize ≤ file.bytes.length ∧ env.alignedAlloc 0 ≠ none ∧ env.alignedAlloc 1 ≠ none

/-- The data and the resources after loading: the frames of the file, in two blocks. -/
structure Loaded (env : LoaderEnv) (file : TrainingFile) (r : Ledger LoaderResource)
    (data : VadTrainingData) (r' : Ledger LoaderResource) : Prop where
  loadable : Loadable env file
  frames : ∃ (frames : List TrainingFrame) (f l : ℕ) (features labels : List UInt8),
    env.alignedAlloc 0 = some f ∧ env.alignedAlloc 1 = some l ∧
      data = ⟨frames.length, .block f features, .block l labels, true⟩ ∧
      r' = (r.acquire (.block f)).acquire (.block l) ∧
      file.totalSize = vadRecordSize * frames.length ∧
      frames.flatMap TrainingFrame.encode <+: file.bytes ∧
      frames.flatMap TrainingFrame.features <+: features ∧
      frames.flatMap TrainingFrame.label <+: labels

/-- The part of the loader behind the check of the size. -/
theorem loadRecords_spec (env : LoaderEnv) {file : TrainingFile}
    {r : Ledger LoaderResource}
    (hlong : file.totalSize < 2 ^ 63) (hpos : 0 < file.totalSize)
    (hmod : file.totalSize % vadRecordSize = 0)
    (hblocks : ∀ f l, env.alignedAlloc 0 = some f → env.alignedAlloc 1 = some l → f ≠ l) :
    (loadRecords env file (r.acquire .file) = (builtInData, r) ∧ ¬Loadable env file) ∨
      Loaded env file r (loadRecords env file (r.acquire .file)).1
        (loadRecords env file (r.acquire .file)).2 := by
  obtain ⟨n, hn⟩ : ∃ n : ℕ, n = (file.totalSize / vadRecordSize).toNat := ⟨_, rfl⟩
  have hsize : file.totalSize = vadRecordSize * n := by
    simp only [vadRecordSize] at hmod hn ⊢
    omega
  have hsmall : n * vadRecordSize < 2 ^ 63 := by
    simp only [vadRecordSize] at hsize ⊢
    omega
  obtain ⟨F, L, hs⟩ := scatterRecords_scattered env file.bytes hsmall
  have hfree := (r.acquire .file).releaseOption_acquireOption
    (p := (env.alignedAlloc 0).map .block) (q := (env.alignedAlloc 1).map .block) (by
      intro a b ha hb
      obtain ⟨f, hf, rfl⟩ := Option.map_eq_some_iff.mp ha
      obtain ⟨l, hl, rfl⟩ := Option.map_eq_some_iff.mp hb
      exact fun heq => hblocks f l hf hl (LoaderResource.block.inj heq))
  unfold loadRecords Loadable
  dsimp only
  rw [← hn]
  cases hf : env.alignedAlloc 0 with
  | none =>
      rw [hf] at hfree
      refine .inl ⟨?_, fun h => h.2.2.2.1 rfl⟩
      dsimp only
      rw [hfree, Ledger.release_acquire]
  | some f =>
      cases hl : env.alignedAlloc 1 with
      | none =>
          rw [hf, hl] at hfree
          refine .inl ⟨?_, fun h => h.2.2.2.2 rfl⟩
          dsimp only
          rw [hfree, Ledger.release_acquire]
      | some l =>
          rw [hf, hl] at hfree
          have hfaults := hs.faults
          have hreading := hs.reading
          dsimp only
          rcases Bool.eq_false_or_eq_true (scatterRecords env file.bytes n).reading with hr | hr
          · rw [hr] at hreading
            have hle := hreading.mp rfl
            obtain ⟨frames, hlen, henc, hfeat, hlab⟩ := exists_frames file.bytes n hle
            right
            rw [if_pos hr]
            refine ⟨⟨hpos, hmod, ?_, ?_, ?_⟩, frames, f, l,
              (scatterRecords env file.bytes n).features,
              (scatterRecords env file.bytes n).labels, hf, hl, ?_, ?_, ?_, henc, ?_, ?_⟩
            · rw [hsize]
              exact_mod_cast hle
            · rw [hf]
              exact Option.some_ne_none _
            · rw [hl]
              exact Option.some_ne_none _
            · rw [hlen]
            · rw [hfaults]
              show ((((r.acquire .file).acquire (.block f)).acquire (.block l)).release .file) = _
              rw [Ledger.release_acquire_of_ne _ (by simp), Ledger.release_acquire_of_ne _ (by simp),
                Ledger.release_acquire]
            · rw [hlen]
              exact hsize
            · rw [hfeat, ← hs.features hr]
              exact List.take_prefix _ _
            · rw [hlab, ← hs.labels hr]
              exact List.take_prefix _ _
          · left
            rw [if_neg (by rw [hr]; exact Bool.false_ne_true), hfaults]
            refine ⟨Prod.ext rfl ?_, fun h => ?_⟩
            · exact (congrArg (fun r => Ledger.release r .file) hfree).trans (r.release_acquire _)
            · rw [hr] at hreading
              refine absurd (hreading.mpr ?_) Bool.false_ne_true
              have hle := h.2.2.1
              rw [hsize] at hle
              exact_mod_cast hle

/-- The loader gives the data of the file, or the data that is built in. -/
theorem vadTrainingDataLoad_spec (env : LoaderEnv) (filepath : Option (List Char))
    (r : Ledger LoaderResource)
    (hlong : ∀ path file, env.fopen path = some file → file.totalSize < 2 ^ 63)
    (hblocks : ∀ f l, env.alignedAlloc 0 = some f → env.alignedAlloc 1 = some l → f ≠ l)
    {data : VadTrainingData} {r' : Ledger LoaderResource}
    (hload : vadTrainingDataLoad env filepath r = (data, r')) :
    ((data, r') = (builtInData, r) ∧ (∀ path file, filepath = some path → path ≠ [] →
        env.fopen path = some file → ¬Loadable env file)) ∨
      ∃ path file, filepath = some path ∧ path ≠ [] ∧ env.fopen path = some file ∧
        Loaded env file r data r' := by
  rw [← hload]
  cases filepath with
  | none => exact .inl ⟨rfl, fun _ _ h => by cases h⟩
  | some path =>
      cases path with
      | nil => exact .inl ⟨rfl, fun _ _ h hne => absurd (Option.some.inj h).symm hne⟩
      | cons ch path =>
          cases hopen : env.fopen (ch :: path) with
          | none =>
              refine .inl ⟨?_, fun path' file' h _ hf => ?_⟩
              · simp [vadTrainingDataLoad, hopen]
              · rw [← Option.some.inj h, hopen] at hf
                cases hf
          | some file =>
              have hload' : vadTrainingDataLoad env (some (ch :: path)) r =
                  if file.totalSize ≤ 0 ∨ file.totalSize % vadRecordSize ≠ 0 then
                    (builtInData, (r.acquire .file).release .file)
                  else loadRecords env file (r.acquire .file) := by
                simp only [vadTrainingDataLoad, hopen]
              have hsame : ∀ {P : Prop}, (Loadable env file → P) → ∀ path' file',
                  some (ch :: path) = some path' → path' ≠ [] → env.fopen path' = some file' →
                    Loadable env file' → P := by
                intro P hP path' file' h _ hf hl
                rw [← Option.some.inj h, hopen] at hf
                rw [← Option.some.inj hf] at hl
                exact hP hl
              split_ifs at hload' with hbad
              · rw [Ledger.release_acquire] at hload'
                refine .inl ⟨hload', hsame fun hl => ?_⟩
                rcases hbad with hbad | hbad
                · exact absurd hl.1 (by omega)
                · exact hbad hl.2.1
              · rw [not_or, not_not] at hbad
                rcases loadRecords_spec env (hlong _ _ hopen) (by omega) hbad.2 hblocks with
                  ⟨heq, hnot⟩ | hloaded
                · exact .inl ⟨hload'.trans heq, hsame hnot⟩
                · rw [← hload', hload] at hloaded
                  exact .inr ⟨_, file, rfl, List.cons_ne_nil _ _, hopen, hloaded⟩

/-- **The training data of a file.**  Whatever the file system, the allocator and the file do, no
file stays open and nothing is written outside the blocks; freeing the data gives the resources
back as they were, and freeing it again does nothing.  The data is that of the file, frame by
frame, just when its path is not empty, it can be opened, its size is a positive number of records
that can all be read, and there is memory; otherwise it is the built-in data. -/
theorem training_data_loaded (env : LoaderEnv) (filepath : Option (List Char))
    (r : Ledger LoaderResource)
    (hlong : ∀ path file, env.fopen path = some file → file.totalSize < 2 ^ 63)
    (hblocks : ∀ f l, env.alignedAlloc 0 = some f → env.alignedAlloc 1 = some l → f ≠ l)
    {data : VadTrainingData} {r' : Ledger LoaderResource}
    (hload : vadTrainingDataLoad env filepath r = (data, r')) :
    (r'.held.count .file = r.held.count .file ∧ r'.faults = r.faults) ∧
      (vadTrainingDataFree data r').2 = r ∧
      vadTrainingDataFree (vadTrainingDataFree data r').1 r = ((vadTrainingDataFree data r').1, r) ∧
      ((data, r') = (builtInData, r) ∧ (∀ path file, filepath = some path → path ≠ [] →
          env.fopen path = some file → ¬Loadable env file) ∨
        ∃ path file, filepath = some path ∧ path ≠ [] ∧ env.fopen path = some file ∧
          Loaded env file r data r') := by
  have hcases := vadTrainingDataLoad_spec env filepath r hlong hblocks hload
  rcases id hcases with ⟨heq, -⟩ | ⟨path, file, -, -, -, -, frames, f, l, fb, lb, hf, hl,
      rfl, rfl, -⟩
  · obtain ⟨rfl, rfl⟩ := Prod.mk.inj heq
    exact ⟨⟨rfl, rfl⟩, rfl, rfl, hcases⟩
  · refine ⟨⟨?_, rfl⟩, ?_, rfl, hcases⟩
    · simp [Ledger.acquire]
    · show (((r.acquire (.block f)).acquire (.block l)).release (.block f)).release (.block l) = r
      have hne : LoaderResource.block f ≠ .block l :=
        fun heq => hblocks f l hf hl (LoaderResource.block.inj heq)
      rw [Ledger.release_acquire_of_ne _ hne, Ledger.release_acquire, Ledger.release_acquire]

/-- A file with one record that counts up. -/
def countingEnv : LoaderEnv where
  fopen path := if path = ['v'] then some ⟨84, (List.range 84).map UInt8.ofNat⟩ else none
  alignedAlloc n := some (4096 * (n + 1))
  junk _ := 0

/-- It is loaded, and its blocks are given back. -/
theorem training_data_loaded_counting : ∃ frame : TrainingFrame,
    (vadTrainingDataLoad countingEnv (some ['v']) ⟨[], 0⟩).1.numFrames = 1 ∧
      frame.label = [80, 81, 82, 83] ∧
      (vadTrainingDataFree (vadTrainingDataLoad countingEnv (some ['v']) ⟨[], 0⟩).1
        (vadTrainingDataLoad countingEnv (some ['v']) ⟨[], 0⟩).2).2 = ⟨[], 0⟩ := by
  have hlong : ∀ path file, countingEnv.fopen path = some file → file.totalSize < 2 ^ 63 := by
    intro path file h
    unfold countingEnv at h
    dsimp only at h
    split_ifs at h
    rw [← Option.some.inj h]
    decide
  have hfile : countingEnv.fopen ['v'] = some ⟨84, (List.range 84).map UInt8.ofNat⟩ := rfl
  obtain ⟨-, hfree, -, hnot | ⟨path, file, hpath, -, hopen, -, frames, f, l, fb, lb, -, -, hdata, -,
    hsize, henc, -⟩⟩ := training_data_loaded countingEnv (some ['v']) ⟨[], 0⟩ hlong
      (by simp [countingEnv]) (Prod.eta _).symm
  · exact absurd ⟨by decide, by decide, by decide, by decide, by decide⟩
      (hnot.2 _ _ rfl (by decide) hfile)
  · rw [← Option.some.inj hpath, hfile] at hopen
    rw [← Option.some.inj hopen] at hsize henc
    have hlen : frames.length = 1 := by
      simp only [vadRecordSize] at hsize
      omega
    obtain ⟨frame, rfl⟩ := List.length_eq_one_iff.mp hlen
    refine ⟨frame, by rw [hdata]; rfl, ?_, hfree⟩
    have hpre := List.prefix_iff_eq_take.mp henc
    rw [List.flatMap_singleton] at hpre
    have hcut := congrArg (List.drop featuresSize) hpre
    rw [TrainingFrame.encode, List.drop_left' frame.length_features] at hcut
    rw [hcut, List.length_append, frame.length_features, frame.length_label]
    decide

end MachAudio
