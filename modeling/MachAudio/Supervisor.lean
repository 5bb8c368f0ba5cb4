import Mathlib.Data.List.Basic
import MachAudio.Lib.Transition

/-! # The supervisor

`main` forks one worker for each core and then waits until as many children have exited as there
should be workers.  A fork that fails is logged and counted all the same.  So once all children
have been waited for, the supervisor returns if every fork succeeded; otherwise it calls `wait`
without end, which has no child to wait for and returns at once (`supervisor_returns_iff`). -/

namespace MachAudio

open Transition

/-- The variables of `main`, and the children as the kernel has them. -/
structure Supervisor where
  numWorkers : ℕ
  /-- `worker_pids` as far as it has been filled, with 0 for a fork that failed. -/
  workerPids : List ℕ
  activeWorkers : ℕ
  running : List ℕ
  /-- Children that have exited and have not been waited for. -/
  exited : List ℕ
  reaped : List ℕ
deriving DecidableEq, Repr

inductive SupervisorEvent
  /-- `fork` returns. -/
  | fork (pid : Option ℕ)
  | exit (pid : ℕ)
  /-- `wait` returns a child that has exited, or fails. -/
  | wait (pid : Option ℕ)
deriving DecidableEq, Repr

/-- The loop that waits has ended. -/
def Supervisor.Returned (s : Supervisor) : Prop :=
  s.workerPids.length = s.numWorkers ∧ s.activeWorkers = 0

/-- The supervisor is in the loop that waits. -/
def Supervisor.Waiting (s : Supervisor) : Prop :=
  s.workerPids.length = s.numWorkers ∧ 0 < s.activeWorkers

instance (s : Supervisor) : Decidable s.Waiting :=
  @instDecidableAnd _ _ (instDecidableEqNat s.workerPids.length s.numWorkers)
    (Nat.decLt 0 s.activeWorkers)

def supervisorStep (s : Supervisor) : SupervisorEvent → Option Supervisor
  | .fork none =>
      if s.workerPids.length < s.numWorkers then
        some { s with workerPids := s.workerPids ++ [0] }
      else none
  | .fork (some pid) =>
      if s.workerPids.length < s.numWorkers ∧ pid ≠ 0 ∧ pid ∉ s.running ++ s.exited then
        some { s with workerPids := s.workerPids ++ [pid], running := pid :: s.running }
      else none
  | .exit pid =>
      if pid ∈ s.running then
        some { s with running := s.running.erase pid, exited := pid :: s.exited }
      else none
  | .wait (some pid) =>
      if s.Waiting ∧ pid ∈ s.exited then
        some { s with
          activeWorkers := s.activeWorkers - 1
          exited := s.exited.erase pid
          reaped := pid :: s.reaped }
      else none
  -- `ECHILD`: nothing happens, and the loop goes on
  | .wait none => if s.Waiting ∧ s.running = [] ∧ s.exited = [] then some s else none

def Supervisor.start (numWorkers : ℕ) : Supervisor where
  numWorkers := numWorkers
  workerPids := []
  activeWorkers := numWorkers
  running := []
  exited := []
  reaped := []

/-! ### One step -/

/-- What a step does, and what it needs. -/
inductive Supervisor.Move (s : Supervisor) : SupervisorEvent → Supervisor → Prop
  | failed (hlt : s.workerPids.length < s.numWorkers) :
      s.Move (.fork none) { s with workerPids := s.workerPids ++ [0] }
  | forked {pid : ℕ} (hlt : s.workerPids.length < s.numWorkers) (hpid : pid ≠ 0) :
      s.Move (.fork (some pid))
        { s with workerPids := s.workerPids ++ [pid], running := pid :: s.running }
  | exit {pid : ℕ} (hmem : pid ∈ s.running) :
      s.Move (.exit pid) { s with running := s.running.erase pid, exited := pid :: s.exited }
  | reaped {pid : ℕ} (hpos : 0 < s.activeWorkers) (hmem : pid ∈ s.exited) :
      s.Move (.wait (some pid))
        { s with
          activeWorkers := s.activeWorkers - 1
          exited := s.exited.erase pid
          reaped := pid :: s.reaped }
  | childless : s.Move (.wait none) s

theorem supervisorStep_move {s s' : Supervisor} {e : SupervisorEvent}
    (h : supervisorStep s e = some s') : s.Move e s' := by
  cases e with
  | fork pid =>
      cases pid with
      | none =>
          obtain ⟨hlt, h⟩ := Option.ite_none_right_eq_some.mp h
          obtain rfl := Option.some.inj h
          exact .failed hlt
      | some pid =>
          obtain ⟨⟨hlt, hpid, -⟩, h⟩ := Option.ite_none_right_eq_some.mp h
          obtain rfl := Option.some.inj h
          exact .forked hlt hpid
  | exit pid =>
      obtain ⟨hmem, h⟩ := Option.ite_none_right_eq_some.mp h
      obtain rfl := Option.some.inj h
      exact .exit hmem
  | wait pid =>
      cases pid with
      | none =>
          obtain ⟨-, h⟩ := Option.ite_none_right_eq_some.mp h
          obtain rfl := Option.some.inj h
          exact .childless
      | some pid =>
          obtain ⟨⟨⟨-, hpos⟩, hmem⟩, h⟩ := Option.ite_none_right_eq_some.mp h
          obtain rfl := Option.some.inj h
          exact .reaped hpos hmem

/-! ### The count -/

/-- Every child is running, has exited or was waited for, and these are counted. -/
structure Supervisor.Counted (n : ℕ) (s : Supervisor) : Prop where
  numWorkers : s.numWorkers = n
  forked : s.workerPids.length ≤ n
  active : s.activeWorkers + s.reaped.length = n
  children : (s.running ++ s.exited ++ s.reaped).Perm (s.workerPids.filter (· ≠ 0))

theorem Supervisor.start_counted (n : ℕ) : (Supervisor.start n).Counted n :=
  ⟨rfl, Nat.zero_le n, rfl, .refl _⟩

theorem supervisorStep_counted {n : ℕ} {s s' : Supervisor} {e : SupervisorEvent}
    (h : s.Counted n) (hs : supervisorStep s e = some s') : s'.Counted n := by
  obtain ⟨hnum, hforked, hactive, hchildren⟩ := h
  cases supervisorStep_move hs with
  | failed hlt =>
      refine ⟨hnum, ?_, hactive, ?_⟩
      · rw [List.length_append, List.length_singleton]
        omega
      · simpa using hchildren
  | @forked pid hlt hpid =>
      refine ⟨hnum, ?_, hactive, ?_⟩
      · rw [List.length_append, List.length_singleton]
        omega
      · have hone : [pid].filter (· ≠ 0) = [pid] := by simp [hpid]
        rw [List.filter_append, hone]
        exact (hchildren.cons pid).trans (List.perm_append_singleton _ _).symm
  | exit hmem =>
      refine ⟨hnum, hforked, hactive, .trans (.append_right _ ?_) hchildren⟩
      exact List.perm_middle.trans ((List.perm_cons_erase hmem).symm.append_right _)
  | reaped hpos hmem =>
      refine ⟨hnum, hforked, ?_, .trans ?_ hchildren⟩
      · rw [List.length_cons]
        dsimp only
        omega
      · refine List.perm_middle.trans ?_
        rw [← List.cons_append]
        refine .append_right _ (List.perm_middle.symm.trans ?_)
        exact (List.perm_cons_erase hmem).symm.append_left _
  | childless => exact ⟨hnum, hforked, hactive, hchildren⟩

/-- A fork that has failed is not made up for. -/
theorem supervisorStep_failed {s s' : Supervisor} {e : SupervisorEvent}
    (hs : supervisorStep s e = some s') (h : 0 ∈ s.workerPids) : 0 ∈ s'.workerPids := by
  cases supervisorStep_move hs with
  | failed => exact List.mem_append_left _ h
  | forked => exact List.mem_append_left _ h
  | exit => exact h
  | reaped => exact h
  | childless => exact h

section counted
variable {n : ℕ} {s : Supervisor}

theorem Supervisor.Counted.length (h : s.Counted n) :
    s.running.length + s.exited.length + s.reaped.length + s.workerPids.count 0 =
      s.workerPids.length := by
  have hlen := h.children.length_eq
  rw [List.length_append, List.length_append] at hlen
  rw [hlen, ← List.countP_eq_length_filter, List.count, Nat.add_comm]
  have hsplit := List.length_eq_countP_add_countP (· == 0) (l := s.workerPids)
  rw [hsplit]
  congr 1
  apply List.countP_congr
  intro pid _
  simp

/-- **When the loop has ended.** -/
theorem Supervisor.Counted.returned_iff (h : s.Counted n) (hforked : s.workerPids.length = n) :
    s.Returned ↔ 0 ∉ s.workerPids ∧ s.running = [] ∧ s.exited = [] := by
  have hlen := h.length
  have hactive := h.active
  have hnum := h.numWorkers
  rw [← List.count_eq_zero, ← List.length_eq_zero_iff, ← List.length_eq_zero_iff]
  unfold Supervisor.Returned
  omega

end counted

/-- Children that have to exit and to be waited for. -/
def Supervisor.weight (s : Supervisor) : ℕ := 2 * s.running.length + s.exited.length

/-- **The supervisor returns** when all its workers have exited, and has then waited for each of
them once, unless a fork has failed.  Then it never returns; once the workers that were forked have
exited, every further step is a `wait` that fails and changes nothing.  As long as it has not come
to either end, some step brings it closer. -/
theorem supervisor_returns_iff {n : ℕ} {es : List SupervisorEvent} {s : Supervisor}
    (h : Reaches supervisorStep (Supervisor.start n) es s) (hforked : s.workerPids.length = n) :
    (s.Returned ↔ 0 ∉ s.workerPids ∧ s.running = [] ∧ s.exited = []) ∧
      (s.Returned → s.reaped.Perm s.workerPids) ∧
      (0 ∈ s.workerPids → ∀ es' s', Reaches supervisorStep s es' s' → ¬s'.Returned) ∧
      (s.weight = 0 → 0 ∈ s.workerPids → supervisorStep s (.wait none) = some s ∧
        ∀ e s', supervisorStep s e = some s' → s' = s) ∧
      (0 < s.weight → ∃ e s', supervisorStep s e = some s' ∧ s'.weight < s.weight) := by
  have hcounted := h.invariant (Supervisor.start_counted n) fun s e s' hc _ hs =>
    supervisorStep_counted hc hs
  have hnum := hcounted.numWorkers
  have hlen := hcounted.length
  have hactive := hcounted.active
  refine ⟨hcounted.returned_iff hforked, fun hret => ?_, fun hfail es' s' hrun hret => ?_,
    fun hw hfail => ?_, fun hw => ?_⟩
  · obtain ⟨hno, hrunning, hexited⟩ := (hcounted.returned_iff hforked).mp hret
    have hperm := hcounted.children
    rw [hrunning, hexited, List.nil_append, List.nil_append, List.filter_eq_self.mpr] at hperm
    · exact hperm
    · intro pid hpid
      refine decide_eq_true fun hzero => hno ?_
      rwa [← hzero]
  · have hcounted' := hrun.invariant hcounted fun s e s' hc _ hs => supervisorStep_counted hc hs
    have hfail' : 0 ∈ s'.workerPids := hrun.invariant (I := fun s => 0 ∈ s.workerPids) hfail
      fun s e s' hc _ hs => supervisorStep_failed hs hc
    exact ((hcounted'.returned_iff (hret.1.trans hcounted'.numWorkers)).mp hret).1 hfail'
  · have hcount := List.count_pos_iff.mpr hfail
    unfold Supervisor.weight at hw
    have hrunning : s.running = [] := List.length_eq_zero_iff.mp (by omega)
    have hexited : s.exited = [] := List.length_eq_zero_iff.mp (by omega)
    refine ⟨if_pos ⟨⟨hforked.trans hnum.symm, by omega⟩, hrunning, hexited⟩, fun e s' hs => ?_⟩
    cases supervisorStep_move hs with
    | failed hlt => omega
    | forked hlt => omega
    | exit hmem =>
        rw [hrunning] at hmem
        exact absurd hmem List.not_mem_nil
    | reaped _ hmem =>
        rw [hexited] at hmem
        exact absurd hmem List.not_mem_nil
    | childless => rfl
  · unfold Supervisor.weight at hw ⊢
    cases hexited : s.exited with
    | cons pid pids =>
        -- a child is waited for
        rw [hexited, List.length_cons] at hlen
        have hwait : s.Waiting := ⟨hforked.trans hnum.symm, by omega⟩
        refine ⟨.wait (some pid), _, if_pos ⟨hwait, by rw [hexited]; exact List.mem_cons_self⟩, ?_⟩
        simp [hexited]
    | nil =>
        cases hrunning : s.running with
        | nil => simp [hexited, hrunning] at hw
        | cons pid pids =>
            refine ⟨.exit pid, _, if_pos (by rw [hrunning]; exact List.mem_cons_self), ?_⟩
            simp [hexited, hrunning]
            omega

/-- Two workers, of which one could not be forked. -/
theorem supervisor_returns_iff_failed : ∃ s,
    Reaches supervisorStep (Supervisor.start 2) [.fork (some 7), .fork none, .exit 7, .wait (some 7)]
      s ∧ ∀ es' s', Reaches supervisorStep s es' s' → ¬s'.Returned := by
  have hrun : run supervisorStep (Supervisor.start 2)
      [.fork (some 7), .fork none, .exit 7, .wait (some 7)] = some ⟨2, [7, 0], 1, [], [], [7]⟩ := by
    decide
  exact ⟨_, reaches_of_run hrun,
    (supervisor_returns_iff (reaches_of_run hrun) rfl).2.2.1 (by decide)⟩

end MachAudio
