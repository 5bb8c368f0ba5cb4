import Mathlib.Data.Int.Notation
import Mathlib.Data.List.Pairwise
import Mathlib.Logic.Function.Basic
import MachAudio.Lib.Transition

/-! # The scaling governors of the cores

Every worker sets the governor of its core to `performance` when it starts
(`os_tune_cpu_governor`) and back to what it has read when it stops (`os_restore_cpu_governor`).
The governors belong to the machine, what has been read to the process: workers on different cores
do not meet, whatever the order of their steps, and the governors are restored; of two workers on
one core the second one takes the setting of the first for the original.  So the governors are
restored in every interleaving just when no two workers share a core (`governors_restored_iff`). -/

namespace MachAudio

open Transition

/-! ### Files -/

/-- A governor, by its name. -/
abbrev Governor := List Char

def performance : Governor := ['p', 'e', 'r', 'f', 'o', 'r', 'm', 'a', 'n', 'c', 'e']

def newline : Char := Char.ofNat 10

/-- What is kept of the file of a governor: `fgets` reads a line into 32 bytes, and its end is cut
off. -/
def savedGovernor (file : List Char) : Governor := (file.take 31).takeWhile (· ≠ newline)

/-- A name that fits these 32 bytes. -/
def IsGovernorName (g : Governor) : Prop := g.length < 31 ∧ newline ∉ g

theorem savedGovernor_file {g : Governor} (h : IsGovernorName g) :
    savedGovernor (g ++ [newline]) = g := by
  unfold savedGovernor
  rw [List.take_of_length_le (by rw [List.length_append, List.length_singleton]; exact h.1),
    List.takeWhile_append_of_pos]
  · simp
  · intro c hc
    refine decide_eq_true fun hn => h.2 ?_
    rwa [← hn]

/-- How far the writing of a file came: `fopen`, `fprintf`, and what `fclose` hands on to the
kernel. -/
structure WriteOutcome where
  opened : Bool
  printed : Bool
  stored : Bool
deriving DecidableEq, Repr

/-- All went well as far as the code looks. -/
def WriteOutcome.succeeds (o : WriteOutcome) : Bool := o.opened && o.printed

/-! ### The steps of a worker -/

inductive TunePhase
  | fresh
  | reading
  | tuned
  | stopped
deriving DecidableEq, Repr

/-- A worker: its core, where it is, and its elements of `g_original_governors` and
`g_governor_modified`. -/
structure Tuning where
  core : ℤ
  phase : TunePhase
  original : Governor
  modified : Bool
deriving DecidableEq, Repr

/-- A core below `MAX_CORES`. -/
def IsTunable (core : ℤ) : Prop := 0 ≤ core ∧ core < 256

instance (core : ℤ) : Decidable (IsTunable core) :=
  @instDecidableAnd _ _ (Int.decLe 0 core) (Int.decLt core 256)

/-- The first part of `os_tune_cpu_governor`; `ok` says whether the file was opened and read. -/
def Tuning.read (t : Tuning) (governor : ℕ → Governor) (ok : Bool) : Tuning :=
  if IsTunable t.core ∧ ok = true then
    { t with phase := .reading, original := savedGovernor (governor t.core.toNat ++ [newline]) }
  else { t with phase := .tuned }

/-- The second part. -/
def Tuning.write (t : Tuning) (o : WriteOutcome) : Tuning :=
  { t with phase := .tuned, modified := t.modified || o.succeeds }

/-- `os_restore_cpu_governor` has something to restore. -/
def Tuning.mustRestore (t : Tuning) : Bool := decide (IsTunable t.core) && t.modified

def Tuning.restore (t : Tuning) (o : WriteOutcome) : Tuning :=
  { t with phase := .stopped, modified := t.modified && !(t.mustRestore && o.succeeds) }

/-- A file that is written. -/
def writeGovernor (governor : ℕ → Governor) (core : ℤ) (g : Governor) (o : WriteOutcome) :
    ℕ → Governor :=
  if o.succeeds && o.stored then Function.update governor core.toNat g else governor

/-- The governors of the machine, and the workers. -/
structure Governors where
  governor : ℕ → Governor
  tunings : List Tuning

inductive GovernorEvent
  | read (i : ℕ) (ok : Bool)
  | write (i : ℕ) (o : WriteOutcome)
  | restore (i : ℕ) (o : WriteOutcome)
deriving DecidableEq, Repr

/-- A step of a worker that is in a certain phase. -/
def Governors.turn (w : Governors) (i : ℕ) (phase : TunePhase)
    (f : Tuning → (ℕ → Governor) × Tuning) : Option Governors :=
  w.tunings[i]?.bind fun t =>
    if t.phase = phase then some ⟨(f t).1, w.tunings.set i (f t).2⟩ else none

def governorStep (w : Governors) : GovernorEvent → Option Governors
  | .read i ok => w.turn i .fresh fun t => (w.governor, t.read w.governor ok)
  | .write i o =>
      w.turn i .reading fun t => (writeGovernor w.governor t.core performance o, t.write o)
  | .restore i o =>
      w.turn i .tuned fun t =>
        (if t.mustRestore then writeGovernor w.governor t.core t.original o else w.governor,
          t.restore o)

def Governors.start (cores : List ℤ) (governor : ℕ → Governor) : Governors where
  governor := governor
  tunings := cores.map fun core => ⟨core, .fresh, [], false⟩

/-- What is restored is restored. -/
def RestoreStored (_ : Governors) : GovernorEvent → Prop
  | .restore _ o => o.succeeds = true ∧ o.stored = true
  | _ => True

/-- No worker is running. -/
def Governors.Idle (w : Governors) : Prop :=
  ∀ t ∈ w.tunings, t.phase = .fresh ∨ t.phase = .stopped

/-- No two workers have the same core. -/
def ShareNone (cores : List ℤ) : Prop := cores.Pairwise fun a b => IsTunable a → a ≠ b

/-! ### One step -/

/-- A step changes one worker, and at most the governor of its core. -/
theorem Governors.turn_eq_some {w w' : Governors} {i : ℕ} {phase : TunePhase}
    {f : Tuning → (ℕ → Governor) × Tuning} (h : w.turn i phase f = some w') :
    ∃ t, w.tunings[i]? = some t ∧ t.phase = phase ∧
      w' = ⟨(f t).1, w.tunings.set i (f t).2⟩ := by
  obtain ⟨t, ht, h⟩ := Option.bind_eq_some_iff.mp h
  split_ifs at h with hp
  exact ⟨t, ht, hp, (Option.some.inj h).symm⟩

theorem Tuning.read_core (t : Tuning) (governor : ℕ → Governor) (ok : Bool) :
    (t.read governor ok).core = t.core := by
  unfold Tuning.read
  split_ifs <;> rfl

theorem writeGovernor_of_ne {governor : ℕ → Governor} {core : ℤ} {c : ℕ} (h : c ≠ core.toNat)
    (g : Governor) (o : WriteOutcome) : writeGovernor governor core g o c = governor c := by
  unfold writeGovernor
  split_ifs
  · exact Function.update_of_ne h _ _
  · rfl

/-- A worker that reads or has to restore has a core to do it on. -/
def Tuning.Sound (t : Tuning) : Prop :=
  t.phase = .reading ∨ t.modified = true → IsTunable t.core

/-- What every run keeps: the workers, and the governors of all other cores. -/
structure Governors.Untouched (cores : List ℤ) (g : ℕ → Governor) (w : Governors) : Prop where
  sameCores : w.tunings.map Tuning.core = cores
  sound : ∀ t ∈ w.tunings, t.Sound
  governor : ∀ c : ℕ, (∀ core ∈ cores, IsTunable core → core ≠ c) → w.governor c = g c

theorem map_core_set {w : Governors} {i : ℕ} {t t' : Tuning} (ht : w.tunings[i]? = some t)
    (hcore : t'.core = t.core) :
    (w.tunings.set i t').map Tuning.core = w.tunings.map Tuning.core := by
  obtain ⟨hlt, hti⟩ := List.getElem?_eq_some_iff.mp ht
  have hlen : i < (w.tunings.map Tuning.core).length := by
    rw [List.length_map]
    exact hlt
  have hself : (w.tunings.map Tuning.core)[i] = t.core := by
    rw [List.getElem_map, hti]
  rw [List.map_set, hcore, ← hself, List.set_getElem_self]

/-- **A step of one worker**. -/
theorem Governors.Untouched.move {cores : List ℤ} {g : ℕ → Governor} {w : Governors}
    (h : w.Untouched cores g) {i : ℕ} {t t' : Tuning} (ht : w.tunings[i]? = some t)
    (hcore : t'.core = t.core) (hsound : t'.Sound) {governor : ℕ → Governor}
    (hother : ∀ c : ℕ, (IsTunable t.core → t.core ≠ c) → governor c = w.governor c) :
    Governors.Untouched cores g ⟨governor, w.tunings.set i t'⟩ := by
  refine ⟨(map_core_set ht hcore).trans h.sameCores, fun u hu => ?_, fun c hc => ?_⟩
  · rcases List.mem_or_eq_of_mem_set hu with hu | rfl
    · exact h.sound u hu
    · exact hsound
  · have hmem : t.core ∈ cores := by
      rw [← h.sameCores]
      exact List.mem_map_of_mem (List.mem_of_getElem? ht)
    exact (hother c (hc _ hmem)).trans (h.governor c hc)

theorem governorStep_untouched {cores : List ℤ} {g : ℕ → Governor} {w w' : Governors}
    {e : GovernorEvent} (h : w.Untouched cores g) (he : governorStep w e = some w') :
    w'.Untouched cores g := by
  have hne : ∀ {core : ℤ}, IsTunable core → ∀ c : ℕ, (IsTunable core → core ≠ c) →
      c ≠ core.toNat := by
    intro core htun c hc heq
    obtain ⟨h₀, -⟩ := id htun
    exact hc htun (by omega)
  cases e with
  | read i ok =>
      obtain ⟨t, ht, hp, rfl⟩ := Governors.turn_eq_some he
      have hsound := h.sound t (List.mem_of_getElem? ht)
      refine h.move ht (t.read_core _ _) (fun hor => ?_) fun _ _ => rfl
      rw [Tuning.read_core]
      unfold Tuning.read at hor
      split_ifs at hor with htun
      · exact htun.1
      · exact hsound (hor.imp_left fun hr => by cases hr)
  | write i o =>
      obtain ⟨t, ht, hp, rfl⟩ := Governors.turn_eq_some he
      have htun := h.sound t (List.mem_of_getElem? ht) (.inl hp)
      have hsame : (t.write o).core = t.core := rfl
      exact h.move ht hsame (fun _ => htun) fun c hc => writeGovernor_of_ne (hne htun c hc) _ _
  | restore i o =>
      obtain ⟨t, ht, hp, rfl⟩ := Governors.turn_eq_some he
      have hsound := h.sound t (List.mem_of_getElem? ht)
      have hsame : (t.restore o).core = t.core := rfl
      refine h.move ht hsame (fun hor => hsound ?_) fun c hc => ?_
      · rcases hor with hor | hor
        · cases hor
        · exact .inr ((Bool.and_eq_true _ _).mp hor).1
      · dsimp only
        split_ifs with hm
        · exact writeGovernor_of_ne (hne (of_decide_eq_true ((Bool.and_eq_true _ _).mp hm).1) c hc)
            _ _
        · rfl

/-! ### Workers on different cores -/

/-- A worker that has something to restore has the governor `g` of its core to restore. -/
structure Tuning.Keeps (g : ℕ → Governor) (t : Tuning) : Prop where
  quiet : t.phase ≠ .tuned → t.modified = false
  original : t.phase = .reading ∨ t.modified = true →
    IsTunable t.core ∧ t.original = g t.core.toNat

/-- The governors are those of the start, apart from those that a worker has to restore. -/
structure Governors.Kept (cores : List ℤ) (g : ℕ → Governor) (w : Governors) : Prop where
  sameCores : w.tunings.map Tuning.core = cores
  keeps : ∀ t ∈ w.tunings, t.Keeps g
  governor : ∀ c : ℕ, (∀ t ∈ w.tunings, t.core = c → t.modified = false) → w.governor c = g c

theorem Governors.start_kept (cores : List ℤ) (g : ℕ → Governor) :
    (Governors.start cores g).Kept cores g := by
  refine ⟨?_, ?_, fun _ _ => rfl⟩
  · unfold Governors.start
    rw [List.map_map]
    exact List.map_id _
  · intro t ht
    obtain ⟨core, -, rfl⟩ := List.mem_map.mp ht
    exact ⟨fun _ => rfl, fun h => by rcases h with h | h <;> cases h⟩

section step
variable {cores : List ℤ} {g : ℕ → Governor} {w : Governors} {i : ℕ} {t t' : Tuning}

/-- The worker is the only one on its core. -/
theorem Governors.Kept.alone (h : w.Kept cores g) (hs : ShareNone cores)
    (ht : w.tunings[i]? = some t) (hcore : IsTunable t.core) {j : ℕ} {u : Tuning}
    (hu : w.tunings[j]? = some u) (hj : j ≠ i) : u.core ≠ t.core := by
  have hget : ∀ {k : ℕ} {v : Tuning}, w.tunings[k]? = some v → cores[k]? = some v.core := by
    intro k v hv
    rw [← h.sameCores, List.getElem?_map, hv]
    rfl
  obtain ⟨hi', hci⟩ := List.getElem?_eq_some_iff.mp (hget ht)
  obtain ⟨hj', hcj⟩ := List.getElem?_eq_some_iff.mp (hget hu)
  have hpair := List.pairwise_iff_getElem.mp hs
  intro heq
  rcases Nat.lt_or_gt_of_ne hj with hlt | hlt
  · exact hpair j i hj' hi' hlt (by rw [hcj, heq]; exact hcore) (by rw [hcj, hci, heq])
  · exact hpair i j hi' hj' hlt (by rw [hci]; exact hcore) (by rw [hcj, hci, heq])

/-- A worker moves: `g` holds on its core if it has nothing to restore afterwards. -/
theorem Governors.Kept.move (h : w.Kept cores g)
    (ht : w.tunings[i]? = some t) (hcore : t'.core = t.core) (hkeeps : t'.Keeps g)
    {governor : ℕ → Governor} (hother : ∀ c, c ≠ t.core.toNat → governor c = w.governor c)
    (hunchanged : ¬IsTunable t.core → governor = w.governor ∧ t'.modified = t.modified)
    (hown : IsTunable t.core → t'.modified = false → governor t.core.toNat = g t.core.toNat) :
    Governors.Kept cores g ⟨governor, w.tunings.set i t'⟩ := by
  have hlt := (List.getElem?_eq_some_iff.mp ht).1
  refine ⟨(map_core_set ht hcore).trans h.sameCores, ?_, fun c hc => ?_⟩
  · intro u hu
    rcases List.mem_or_eq_of_mem_set hu with hu | rfl
    · exact h.keeps u hu
    · exact hkeeps
  · have hmem : t' ∈ w.tunings.set i t' := List.mem_set hlt _
    -- the other workers on this core
    have hrest : ∀ j u, w.tunings[j]? = some u → j ≠ i → u.core = (c : ℤ) → u.modified = false := by
      intro j u hu hj
      apply hc u
      rw [List.mem_iff_getElem?]
      exact ⟨j, by rw [List.getElem?_set_ne hj.symm, hu]⟩
    dsimp only
    by_cases htun : IsTunable t.core
    · by_cases hct : (c : ℤ) = t.core
      · have htc : c = t.core.toNat := by omega
        rw [htc]
        exact hown htun (hc t' hmem (hcore.trans hct.symm))
      · rw [hother c (by obtain ⟨h₀, -⟩ := htun; omega)]
        refine h.governor c fun u hu huc => ?_
        obtain ⟨j, hj⟩ := List.mem_iff_getElem?.mp hu
        refine hrest j u hj (fun hji => hct ?_) huc
        rw [hji, ht] at hj
        rw [← huc, Option.some.inj hj]
    · obtain ⟨hgov, hmod⟩ := hunchanged htun
      rw [hgov]
      refine h.governor c fun u hu huc => ?_
      obtain ⟨j, hj⟩ := List.mem_iff_getElem?.mp hu
      by_cases hji : j = i
      · rw [hji, ht] at hj
        obtain rfl := Option.some.inj hj
        rw [← hmod]
        exact hc t' hmem (hcore.trans huc)
      · exact hrest j u hj hji huc

/-- The governor of a core whose worker has nothing to restore. -/
theorem Governors.Kept.own (h : w.Kept cores g) (hs : ShareNone cores)
    (ht : w.tunings[i]? = some t) (hcore : IsTunable t.core) (hm : t.modified = false) :
    w.governor t.core.toNat = g t.core.toNat := by
  refine h.governor _ fun u hu huc => ?_
  obtain ⟨j, hj⟩ := List.mem_iff_getElem?.mp hu
  by_cases hji : j = i
  · rw [hji, ht] at hj
    rwa [← Option.some.inj hj]
  · refine absurd ?_ (h.alone hs ht hcore hj hji)
    obtain ⟨h₀, -⟩ := hcore
    omega

end step

theorem Tuning.mustRestore_modified {t : Tuning} (htun : IsTunable t.core)
    (hm : t.modified = true) : t.mustRestore = true := by
  unfold Tuning.mustRestore
  rw [decide_eq_true htun, hm]
  rfl

theorem Tuning.mustRestore_unmodified {t : Tuning} (hm : t.modified = false) :
    t.mustRestore = false := by
  unfold Tuning.mustRestore
  rw [hm, Bool.and_false]

theorem governorStep_kept {cores : List ℤ} {g : ℕ → Governor} (hs : ShareNone cores)
    (hg : ∀ c, IsGovernorName (g c)) {w w' : Governors} {e : GovernorEvent} (h : w.Kept cores g)
    (hc : RestoreStored w e) (he : governorStep w e = some w') : w'.Kept cores g := by
  cases e with
  | read i ok =>
      obtain ⟨t, ht, hp, rfl⟩ := Governors.turn_eq_some he
      have hk := h.keeps t (List.mem_of_getElem? ht)
      have hm : t.modified = false := hk.quiet (by rw [hp]; decide)
      have hread : (t.read w.governor ok).modified = false := by
        unfold Tuning.read
        split_ifs <;> exact hm
      refine h.move ht (t.read_core _ _) ⟨fun _ => hread, fun hor => ?_⟩ (fun _ _ => rfl)
        (fun _ => ⟨rfl, hread.trans hm.symm⟩) fun hcore _ => h.own hs ht hcore hm
      rw [Tuning.read_core]
      unfold Tuning.read at hor ⊢
      split_ifs at hor ⊢ with htun
      · exact ⟨htun.1, (congrArg (fun f => savedGovernor (f ++ [newline]))
          (h.own hs ht htun.1 hm)).trans (savedGovernor_file (hg _))⟩
      · rcases hor with hor | hor
        · cases hor
        · exact absurd (hor.symm.trans hm) (by decide)
  | write i o =>
      obtain ⟨t, ht, hp, rfl⟩ := Governors.turn_eq_some he
      have hk := h.keeps t (List.mem_of_getElem? ht)
      have hm : t.modified = false := hk.quiet (by rw [hp]; decide)
      obtain ⟨htun, horig⟩ := hk.original (.inl hp)
      have hphase : (t.write o).phase = .tuned := rfl
      have hsame : (t.write o).core = t.core := rfl
      refine h.move ht hsame ⟨fun hn => absurd hphase hn, fun _ => ⟨htun, horig⟩⟩
        (fun c hc => writeGovernor_of_ne hc _ _) (fun hn => absurd htun hn) fun _ hmod => ?_
      have hfail : o.succeeds = false := by
        have hor : (t.modified || o.succeeds) = false := hmod
        rwa [hm, Bool.false_or] at hor
      unfold writeGovernor
      rw [hfail, Bool.false_and, if_neg Bool.false_ne_true]
      exact h.own hs ht htun hm
  | restore i o =>
      obtain ⟨t, ht, hp, rfl⟩ := Governors.turn_eq_some he
      have hk := h.keeps t (List.mem_of_getElem? ht)
      obtain ⟨hok, hstored⟩ := hc
      -- nothing is left to restore
      have hrest : (t.restore o).modified = false := by
        unfold Tuning.restore
        rcases Bool.eq_false_or_eq_true t.modified with hm | hm
        · have hmust := Tuning.mustRestore_modified (hk.original (.inr hm)).1 hm
          simp [hmust, hok]
        · simp [hm]
      have hsame : (t.restore o).core = t.core := rfl
      refine h.move ht hsame ⟨fun _ => hrest, fun hor => ?_⟩ (fun c hc => ?_) (fun hn => ?_)
        fun htun _ => ?_
      · rcases hor with hor | hor
        · cases hor
        · exact absurd (hor.symm.trans hrest) (by decide)
      · dsimp only
        split_ifs
        · exact writeGovernor_of_ne hc _ _
        · rfl
      · have hm : t.modified = false := by
          rw [Bool.eq_false_iff]
          exact fun hm => hn (hk.original (.inr hm)).1
        have hmust := Tuning.mustRestore_unmodified hm
        exact ⟨if_neg (by rw [hmust]; exact Bool.false_ne_true), hrest.trans hm.symm⟩
      · dsimp only
        cases hm : t.modified with
        | false =>
            rw [Tuning.mustRestore_unmodified hm, if_neg Bool.false_ne_true]
            exact h.own hs ht htun hm
        | true =>
            unfold writeGovernor
            rw [Tuning.mustRestore_modified htun hm, if_pos rfl, hok, hstored, Bool.and_true,
              if_pos rfl, Function.update_self]
            exact (hk.original (.inr hm)).2

/-! ### Workers on one core -/

/-- A write that succeeds. -/
def WriteOutcome.done : WriteOutcome := ⟨true, true, true⟩

/-- A worker that has started, with the governor `g` to restore. -/
def Tuning.started (t : Tuning) (g : Governor) : Tuning :=
  { t with phase := .tuned, original := g, modified := true }

/-- A worker that has stopped. -/
def Tuning.finished (t : Tuning) (g : Governor) : Tuning :=
  { t with phase := .stopped, original := g, modified := false }

section runs
variable {s : Governors} {es : List GovernorEvent} {governor : ℕ → Governor}
  {tunings : List Tuning} {i : ℕ} {t : Tuning}

/-- A worker starts. -/
theorem runs_tune (h : Runs governorStep RestoreStored s es ⟨governor, tunings⟩)
    (ht : tunings[i]? = some t) (hp : t.phase = .fresh) (htun : IsTunable t.core) :
    Runs governorStep RestoreStored s (es ++ [.read i true] ++ [.write i .done])
      ⟨Function.update governor t.core.toNat performance,
        tunings.set i (t.started (savedGovernor (governor t.core.toNat ++ [newline])))⟩ := by
  have hlt := (List.getElem?_eq_some_iff.mp ht).1
  obtain ⟨u, hu⟩ : ∃ u : Tuning, u = { t with
      phase := .reading
      original := savedGovernor (governor t.core.toNat ++ [newline]) } := ⟨_, rfl⟩
  have hread : governorStep ⟨governor, tunings⟩ (.read i true) =
      some ⟨governor, tunings.set i u⟩ := by
    simp [governorStep, Governors.turn, ht, hp, Tuning.read, htun, hu]
  refine .snoc (.snoc h trivial hread) trivial ?_
  have hget : (tunings.set i u)[i]? = some u := List.getElem?_set_self hlt
  simp only [governorStep, Governors.turn, hget, Option.bind_some, List.set_set]
  simp [hu, Tuning.write, Tuning.started, writeGovernor, WriteOutcome.succeeds,
    WriteOutcome.done]

/-- A worker stops. -/
theorem runs_restore (h : Runs governorStep RestoreStored s es ⟨governor, tunings⟩) {g : Governor}
    (ht : tunings[i]? = some (t.started g)) (htun : IsTunable t.core) :
    Runs governorStep RestoreStored s (es ++ [.restore i .done])
      ⟨Function.update governor t.core.toNat g, tunings.set i (t.finished g)⟩ := by
  refine .snoc h ⟨rfl, rfl⟩ ?_
  have hmust : (t.started g).mustRestore = true := by
    simp [Tuning.mustRestore, Tuning.started, htun]
  have hstop : (t.started g).restore .done = t.finished g := by
    unfold Tuning.restore
    rw [hmust]
    rfl
  simp only [governorStep, Governors.turn, ht, Option.bind_some, hmust, if_true, hstop]
  simp [Tuning.started, writeGovernor, WriteOutcome.succeeds, WriteOutcome.done]

end runs

/-- Two workers on one core, started one after the other and stopped in the same order. -/
theorem exists_unrestored {cores : List ℤ} {g : ℕ → Governor} {i j : ℕ} (hij : i < j)
    {core : ℤ} (hi : cores[i]? = some core) (hj : cores[j]? = some core) (htun : IsTunable core) :
    ∃ es w, Runs governorStep RestoreStored (Governors.start cores g) es w ∧ w.Idle ∧
      w.governor core.toNat = performance := by
  obtain ⟨t, ht⟩ : ∃ t : Tuning, t = ⟨core, .fresh, [], false⟩ := ⟨_, rfl⟩
  have hcore : t.core = core := by rw [ht]
  have hp : t.phase = .fresh := by rw [ht]
  rw [← hcore] at htun ⊢
  obtain ⟨ts, hts⟩ : ∃ ts, ts = cores.map fun core => (⟨core, .fresh, [], false⟩ : Tuning) :=
    ⟨_, rfl⟩
  have hget : ∀ {k : ℕ}, cores[k]? = some core → ts[k]? = some t := by
    intro k hk
    rw [hts, List.getElem?_map, hk, ht]
    rfl
  have hstart : Governors.start cores g = ⟨g, ts⟩ := by rw [hts]; rfl
  have hilt := (List.getElem?_eq_some_iff.mp (hget hi)).1
  have hjlt := (List.getElem?_eq_some_iff.mp (hget hj)).1
  have hne : i ≠ j := Nat.ne_of_lt hij
  rw [hstart]
  have h₁ := runs_tune (.nil (s := (⟨g, ts⟩ : Governors))) (hget hi) hp htun
  have h₂ := runs_tune h₁ (by rw [List.getElem?_set_ne hne, hget hj]) hp htun
  rw [Function.update_self, Function.update_idem] at h₂
  have h₃ := runs_restore h₂ (i := i) (t := t)
    (by rw [List.getElem?_set_ne hne.symm, List.getElem?_set_self hilt]) htun
  have h₄ := runs_restore h₃ (i := j) (t := t)
    (by
      rw [List.getElem?_set_ne hne, List.getElem?_set_self]
      rw [List.length_set]
      exact hjlt) htun
  refine ⟨_, _, h₄, fun u hu => ?_, (Function.update_self _ _ _).trans (by decide)⟩
  obtain ⟨k, hk⟩ := List.mem_iff_getElem?.mp hu
  by_cases hkj : k = j
  · rw [hkj, List.getElem?_set_self (by simpa using hjlt)] at hk
    rw [← Option.some.inj hk]
    exact .inr rfl
  · rw [List.getElem?_set_ne (Ne.symm hkj)] at hk
    by_cases hki : k = i
    · rw [hki, List.getElem?_set_self (by simpa using hilt)] at hk
      rw [← Option.some.inj hk]
      exact .inr rfl
    · -- a worker that has not started
      rw [List.getElem?_set_ne (Ne.symm hki), List.getElem?_set_ne (Ne.symm hkj),
        List.getElem?_set_ne (Ne.symm hki), hts, List.getElem?_map] at hk
      obtain ⟨core', -, rfl⟩ := Option.map_eq_some_iff.mp hk
      exact .inl rfl

/-- A run of workers that all have stopped. -/
theorem governors_restored {cores : List ℤ} {g : ℕ → Governor} (hg : ∀ c, IsGovernorName (g c))
    (hs : ShareNone cores) {es : List GovernorEvent} {w : Governors}
    (h : Runs governorStep RestoreStored (Governors.start cores g) es w) (hidle : w.Idle) :
    w.governor = g := by
  have hkept := h.invariant (Governors.start_kept cores g) fun w e w' hw hc he =>
    governorStep_kept hs hg hw hc he
  funext c
  refine hkept.governor c fun t ht _ => (hkept.keeps t ht).quiet ?_
  rcases hidle t ht with hp | hp <;> rw [hp] <;> decide

/-- **The governors are restored** in every interleaving of the workers' steps when no two workers
have the same core; and where no core to be tuned is at `performance` before, only then.  A worker
whose file cannot be opened, read or written before does not change that; and no run touches the
governor of a core that is not a worker's. -/
theorem governors_restored_iff {cores : List ℤ} {g : ℕ → Governor}
    (hg : ∀ c, IsGovernorName (g c)) :
    (ShareNone cores → ∀ es w, Runs governorStep RestoreStored (Governors.start cores g) es w →
        w.Idle → w.governor = g) ∧
      ((∀ core ∈ cores, IsTunable core → g core.toNat ≠ performance) →
        (∀ es w, Runs governorStep RestoreStored (Governors.start cores g) es w → w.Idle →
          w.governor = g) → ShareNone cores) ∧
      ∀ es w, Reaches governorStep (Governors.start cores g) es w → ∀ c : ℕ,
        (∀ core ∈ cores, IsTunable core → core ≠ c) → w.governor c = g c := by
  refine ⟨fun hs es w hrun hidle => governors_restored hg hs hrun hidle,
    fun hperformance h => ?_, fun es w hrun c hc => ?_⟩
  · apply List.pairwise_iff_getElem.mpr
    intro i j hi hj hij htun heq
    obtain ⟨es, w, hrun, hidle, hw⟩ := exists_unrestored (g := g) hij
      (List.getElem?_eq_getElem hi) ((List.getElem?_eq_getElem hj).trans (by rw [heq])) htun
    rw [h es w hrun hidle] at hw
    exact hperformance _ (List.getElem_mem hi) htun hw
  · refine (hrun.invariant (I := Governors.Untouched cores g) ⟨?_, ?_, fun _ _ => rfl⟩
      fun w e w' hw _ he => governorStep_untouched hw he).governor c hc
    · exact (Governors.start_kept cores g).sameCores
    · intro t ht
      exact fun hor => (((Governors.start_kept cores g).keeps t ht).original hor).1

/-- The default of many machines. -/
def powersave : Governor := ['p', 'o', 'w', 'e', 'r', 's', 'a', 'v', 'e']

/-- Workers on two cores and one on none are restored, two workers on one core need not be. -/
theorem governors_restored_cases :
    (∀ es w, Runs governorStep RestoreStored (Governors.start [0, 2, -1] fun _ => powersave) es w →
      w.Idle → w.governor = fun _ => powersave) ∧
    ¬∀ es w, Runs governorStep RestoreStored (Governors.start [0, 0] fun _ => powersave) es w →
      w.Idle → w.governor = fun _ => powersave := by
  have hname : IsGovernorName powersave := ⟨by decide, by decide⟩
  have hne : powersave ≠ performance := by decide
  refine ⟨(governors_restored_iff fun _ => hname).1 ?_, fun h => ?_⟩
  · unfold ShareNone
    decide
  · have hs := (governors_restored_iff fun _ => hname).2.1 (fun _ _ _ => hne) h
    revert hs
    unfold ShareNone
    decide

end MachAudio
