import MachAudio.MainLoop

/-! # The end of the main loop

An accept is armed as long as the loop of `mach_server_start` is running.  A signal only clears
`running`, which the loop looks at after a batch: the rest of the batch is still handled, and the
accept that was armed may complete in it, but it is not armed again (`loop_ends`). -/

namespace MachAudio

open Transition

variable {H Φ : Type} (E : Env H Φ) (numWorkers : UInt32)

/-! ### Accepting -/

/-- The loop handles a completion. -/
def LoopEvent.isHandled : LoopEvent → Bool
  | .world e => e.isHandled
  | _ => false

/-- It handles the completion of an accept. -/
def LoopEvent.isAccept : LoopEvent → Bool
  | .world (.accept _ _) => true
  | _ => false

/-- What the steps keep of the accept and of the batch: an accept is armed while the loop runs, and
the signal that ends it was one of a batch. -/
structure Process.Accepting (p : Process H) : Prop where
  armed : p.world.running = true → p.world.acceptArmed = true
  batch : p.batch ≤ batchSize
  stopped : p.world.running = false → p.batch < batchSize

/-- An event of the world ends the loop or leaves it running; an accept is armed again only while it
runs, and brings one connection at most. -/
theorem worldStep_flags {w w' : World H} {e : WorldEvent}
    (h : worldStep E numWorkers w e = some w') :
    (w'.running = w.running ∨ w'.running = false ∧ e.isHandled = true) ∧
      ((LoopEvent.world e).isAccept = false ∧ w'.acceptArmed = w.acceptArmed ∨
        (LoopEvent.world e).isAccept = true ∧ w.acceptArmed = true ∧
          w'.acceptArmed = w.running ∧ w'.running = w.running) ∧
      w'.conns.length ≤ w.conns.length + (LoopEvent.world e).isAccept.toNat := by
  cases e with
  | accept res addr =>
      have hconns := worldStep_accept h
      have hlen : (accepted [.accept res addr]).length ≤ 1 := List.length_filterMap_le _ _
      simp only [worldStep, Option.ite_none_right_eq_some, Option.some.injEq] at h
      obtain ⟨harmed, rfl⟩ := h
      refine ⟨.inl rfl, .inr ⟨rfl, harmed, rfl, rfl⟩, ?_⟩
      rw [hconns, List.length_append, List.length_map]
      exact Nat.add_le_add_left hlen _
  | signal =>
      simp only [worldStep, Option.some.injEq] at h
      subst h
      exact ⟨.inr ⟨rfl, rfl⟩, .inl ⟨rfl, rfl⟩, Nat.le_refl _⟩
  | conn i e =>
      cases hc : w.conns[i]? with
      | none => simp [worldStep, hc] at h
      | some c =>
          simp only [worldStep, hc, Option.ite_none_right_eq_some, Option.map_eq_some_iff] at h
          obtain ⟨-, r, -, rfl⟩ := h
          refine ⟨.inl rfl, .inl ⟨rfl, rfl⟩, ?_⟩
          rw [List.length_set]
          exact Nat.le_add_right _ _

theorem accepting_step {fds : ServerFds} {p p' : Process H} {e : LoopEvent} (h : p.Accepting)
    (hs : loopStep E numWorkers fds p e = some p') : p'.Accepting := by
  obtain ⟨harmed, hbatch, hstopped⟩ := h
  cases loopStep_move hs with
  | peek _ hrun _ _ hn =>
      exact ⟨harmed, hn, fun hstop => absurd (hrun.symm.trans hstop) (by decide)⟩
  | @world e w _ hb _ hw =>
      obtain ⟨q, hq⟩ : ∃ q : Process H, q = { p with
        world := w
        openFds := fdsOpened e ++ p.openFds
        batch := p.batch - e.isHandled.toNat } := ⟨_, rfl⟩
      obtain ⟨h₁, h₂, -⟩ := Process.closeAll_same (fdsClosed p.world w e) q
      obtain ⟨hrunning, haccept, -⟩ := worldStep_flags E numWorkers hw
      have hworld : q.world = w := by rw [hq]
      have hq_batch : q.batch = p.batch - e.isHandled.toNat := by rw [hq]
      rw [← hq]
      rw [hworld] at h₁
      rw [hq_batch] at h₂
      refine ⟨?_, ?_, ?_⟩
      · rw [h₁]
        intro hrun
        have hbefore : p.world.running = true := by
          rcases hrunning with heq | ⟨hstop, -⟩
          · exact heq ▸ hrun
          · exact absurd (hstop.symm.trans hrun) (by decide)
        rcases haccept with ⟨-, heq⟩ | ⟨-, -, heq, -⟩
        · exact heq.trans (harmed hbefore)
        · exact heq.trans hbefore
      · rw [h₂]
        omega
      · rw [h₁, h₂]
        intro hstop
        rcases hrunning with heq | ⟨-, hhandled⟩
        · have := hstopped (heq ▸ hstop)
          omega
        · have := hb hhandled
          rw [hhandled, Bool.toNat_true]
          omega
  | exit _ hb hstop =>
      obtain ⟨h₁, h₂, -⟩ := Process.closeAll_same fds.list { p with returned := true }
      refine ⟨?_, ?_, ?_⟩
      · rw [h₁]
        exact harmed
      · rw [h₂]
        exact hbatch
      · rw [h₁, h₂]
        exact hstopped

/-! ### After a signal -/

/-- What is left to happen once the loop was stopped: the rest of the batch, and the one accept that
may be in flight. -/
structure Stopped (p : Process H) (es' : List LoopEvent) (p' : Process H) : Prop where
  running : p'.world.running = false
  handled : es'.countP LoopEvent.isHandled + p'.batch ≤ p.batch
  accepts : es'.countP LoopEvent.isAccept + p'.world.acceptArmed.toNat ≤
    p.world.acceptArmed.toNat
  conns : p'.world.conns.length ≤ p.world.conns.length + es'.countP LoopEvent.isAccept

theorem stopped_step {fds : ServerFds} {p p₁ p₂ : Process H} {es' : List LoopEvent}
    {e : LoopEvent} (h : Stopped p es' p₁) (hs : loopStep E numWorkers fds p₁ e = some p₂) :
    Stopped p (es' ++ [e]) p₂ := by
  obtain ⟨hrun, hhandled, haccepts, hconns⟩ := h
  have hcount : ∀ f : LoopEvent → Bool, (es' ++ [e]).countP f = es'.countP f + (f e).toNat := by
    intro f
    rw [List.countP_append, List.countP_singleton]
    cases f e <;> rfl
  cases loopStep_move hs with
  | peek _ hrun' _ _ _ => exact absurd (hrun'.symm.trans hrun) (by decide)
  | @world e w _ hb _ hw =>
      obtain ⟨q, hq⟩ : ∃ q : Process H, q = { p₁ with
        world := w
        openFds := fdsOpened e ++ p₁.openFds
        batch := p₁.batch - e.isHandled.toNat } := ⟨_, rfl⟩
      obtain ⟨h₁, h₂, -⟩ := Process.closeAll_same (fdsClosed p₁.world w e) q
      obtain ⟨hrunning, haccept, hlen⟩ := worldStep_flags E numWorkers hw
      have hworld : q.world = w := by rw [hq]
      have hq_batch : q.batch = p₁.batch - e.isHandled.toNat := by rw [hq]
      rw [← hq]
      rw [hworld] at h₁
      rw [hq_batch] at h₂
      refine ⟨?_, ?_, ?_, ?_⟩
      · rw [h₁]
        rcases hrunning with heq | ⟨hstop, -⟩
        · exact heq.trans hrun
        · exact hstop
      · rw [hcount, h₂]
        show _ + e.isHandled.toNat + _ ≤ _
        have hone : e.isHandled.toNat ≤ p₁.batch := by
          cases hh : e.isHandled with
          | false => exact Nat.zero_le _
          | true => exact hb hh
        omega
      · rw [hcount, h₁]
        rcases haccept with ⟨hno, heq⟩ | ⟨hyes, harmed, heq, -⟩
        · rw [hno, heq]
          exact haccepts
        · rw [hyes, heq, hrun]
          rw [harmed] at haccepts
          exact haccepts
      · rw [hcount, h₁]
        omega
  | exit _ _ _ =>
      obtain ⟨h₁, h₂, -⟩ := Process.closeAll_same fds.list { p₁ with returned := true }
      refine ⟨?_, ?_, ?_, ?_⟩
      · rw [h₁]
        exact hrun
      · rw [hcount, h₂]
        exact hhandled
      · rw [hcount, h₁]
        exact haccepts
      · rw [hcount, h₁]
        exact hconns

/-- **The loop accepts until it is stopped, and then ends.**  As long as it runs an accept is armed.
Once it was stopped, fewer than 64 more completions are handled, one more connection is accepted at
most, and when the batch is done it returns with nothing open but the sockets of sessions that were
never closed. -/
theorem loop_ends {fds : ServerFds} {es : List LoopEvent} {p : Process H}
    (h : Reaches (loopStep E numWorkers fds) (Process.start fds) es p) :
    (p.world.running = true → p.world.acceptArmed = true) ∧
      (p.world.running = false → ∀ es' p', Reaches (loopStep E numWorkers fds) p es' p' →
        es'.countP LoopEvent.isHandled < batchSize ∧ es'.countP LoopEvent.isAccept ≤ 1 ∧
          p'.world.conns.length ≤ p.world.conns.length + 1 ∧
          (p'.batch = 0 → p'.returned = false → ∃ p'',
            loopStep E numWorkers fds p' (.exit false) = some p'' ∧
              p''.openFds.Perm p'.world.heldFds)) := by
  have hacc : p.Accepting := h.invariant (I := fun p => p.Accepting)
    ⟨fun _ => rfl, Nat.zero_le _, fun hstop => absurd (show true = false from hstop) (by decide)⟩
    fun p e p' hp _ hs => accepting_step E numWorkers hp hs
  have hfds : p.FdsKept fds := h.invariant (I := fun p => p.FdsKept fds)
    (Process.fdsKept_start fds) fun p e p' hp _ hs => fdsKept_step E numWorkers hp hs
  refine ⟨hacc.armed, fun hstop es' p' h' => ?_⟩
  have hst : Stopped p es' p' := h'.history (I := fun es' p' => Stopped p es' p')
    ⟨hstop, by simp, by simp, by simp⟩ fun es' p₁ e p₂ hp _ hs =>
      stopped_step E numWorkers hp hs
  have hfds' : p'.FdsKept fds := h'.invariant (I := fun p => p.FdsKept fds) hfds
    fun p e p' hp _ hs => fdsKept_step E numWorkers hp hs
  have hlt := hacc.stopped hstop
  have hle := hst.handled
  have haccepts := hst.accepts
  have hone := Bool.toNat_le p.world.acceptArmed
  have hconns := hst.conns
  refine ⟨by omega, by omega, by omega, fun hb hret => ?_⟩
  have hguard : p'.returned = false ∧ p'.batch = 0 ∧
      (false = true ∨ p'.world.running = false) := ⟨hret, hb, .inr hst.running⟩
  have hexit : loopStep E numWorkers fds p' (.exit false) =
      some (fds.list.foldl Process.close { p' with returned := true }) := if_pos hguard
  refine ⟨_, hexit, ?_⟩
  have hdone := fdsKept_step E numWorkers hfds' hexit
  obtain ⟨h₁, -, h₃⟩ := Process.closeAll_same fds.list { p' with returned := true }
  have howners := hdone.owners
  rw [h₁, h₃, if_pos rfl, List.nil_append] at howners
  exact howners

/-- A signal while one client is connected. -/
theorem loop_ends_signal :
    ∃ p, Reaches (loopStep Env.plain 1 firstFds) (Process.start firstFds)
        [.peek 2, .world (.accept 6 (some 0)), .world .signal] p ∧
      ∃ p'', loopStep Env.plain 1 firstFds p (.exit false) = some p'' ∧ p''.openFds.Perm [6] := by
  obtain ⟨p, hp⟩ : ∃ p, run (loopStep Env.plain 1 firstFds) (Process.start firstFds)
      [.peek 2, .world (.accept 6 (some 0)), .world .signal] = some p := ⟨_, rfl⟩
  obtain ⟨hrun, hb, hret, hheld⟩ : p.world.running = false ∧ p.batch = 0 ∧ p.returned = false ∧
      p.world.heldFds = [6] := by
    obtain rfl := Option.some.inj hp
    exact ⟨rfl, rfl, rfl, rfl⟩
  obtain ⟨-, -, -, hexit⟩ := (loop_ends Env.plain 1 (reaches_of_run hp)).2 hrun [] p .nil
  obtain ⟨p'', hs, hperm⟩ := hexit hb hret
  exact ⟨p, reaches_of_run hp, p'', hs, hheld ▸ hperm⟩

end MachAudio
