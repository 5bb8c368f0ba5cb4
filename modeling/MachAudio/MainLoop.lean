import MachAudio.Isolation
import MachAudio.Progress

/-! # The main loop and its descriptors

`mach_server_start` as a whole: it peeks a batch of at most 64 completions, handles them, looks
whether it is still running, and closes its own descriptors when it is not.  `Process` is the world
of the event loop with the descriptors of the process.  The kernel may give a new connection any
number that is not in use, so one number belongs to many sessions over a run.

Every call of `close` is counted that finds the descriptor not open.  None ever is: the open
descriptors are at all times the server's own and those of the sessions not closed, each once, and
what is being sent goes to the session it was made for (`descriptors_safe`). -/

namespace MachAudio

open Transition

variable {H Φ : Type} (E : Env H Φ) (numWorkers : UInt32)

/-! ### The process -/

/-- The descriptors of a worker that are not connections. -/
structure ServerFds where
  listenFd : ℤ
  signalFd : ℤ
  ringFd : ℤ
  distinct : [signalFd, listenFd, ringFd].Nodup

/-- In the order in which they are closed. -/
def ServerFds.list (fds : ServerFds) : List ℤ := [fds.signalFd, fds.listenFd, fds.ringFd]

structure Process (H : Type) where
  world : World H
  /-- The descriptors that are open. -/
  openFds : List ℤ
  /-- Calls of `close` on a descriptor that was not open. -/
  badCloses : ℕ
  /-- Completions of the batch that are not handled. -/
  batch : ℕ
  /-- `mach_server_start` has returned. -/
  returned : Bool

def Process.start (fds : ServerFds) : Process H := ⟨World.start, fds.list, 0, 0, false⟩

def Process.close (p : Process H) (fd : ℤ) : Process H :=
  if fd ∈ p.openFds then { p with openFds := p.openFds.erase fd }
  else { p with badCloses := p.badCloses + 1 }

inductive LoopEvent where
  /-- `io_uring_peek_batch_cqe` finds so many completions. -/
  | peek (n : ℕ)
  | world (e : WorldEvent)
  /-- The end of the loop. -/
  | exit (waitFailed : Bool)
deriving DecidableEq, Repr

/-- The event is a completion that the loop handles, and not a step of the kernel. -/
def WorldEvent.isHandled : WorldEvent → Bool
  | .accept _ _ => true
  | .signal => true
  | .conn _ .handle => true
  | .conn _ _ => false

/-- The descriptor of a new connection. -/
def fdsOpened : WorldEvent → List ℤ
  | .accept res _ => if res < 0 then [] else [res]
  | _ => []

/-- The descriptors given to `close`: the socket of a session that cleanup closes, and that of a
connection no session could be allocated for. -/
def fdsClosed (w w' : World H) : WorldEvent → List ℤ
  | .accept res none => if res < 0 then [] else [res]
  | .conn i _ =>
      match w.conns[i]?, w'.conns[i]? with
      | some c, some c' => List.replicate (c'.closes - c.closes) c.session.clientFd
      | _, _ => []
  | _ => []

/-- The size of `cqes`. -/
def batchSize : ℕ := 64

def loopStep (fds : ServerFds) (p : Process H) : LoopEvent → Option (Process H)
  | .peek n =>
      if p.returned = false ∧ p.world.running = true ∧ p.batch = 0 ∧ 1 ≤ n ∧ n ≤ batchSize then
        some { p with batch := n }
      else none
  | .world e =>
      if p.returned = false ∧ (e.isHandled = true → 1 ≤ p.batch) ∧
          ∀ fd ∈ fdsOpened e, fd ∉ p.openFds then
        (worldStep E numWorkers p.world e).map fun w =>
          (fdsClosed p.world w e).foldl Process.close
            { p with
              world := w
              openFds := fdsOpened e ++ p.openFds
              batch := p.batch - e.isHandled.toNat }
      else none
  | .exit waitFailed =>
      if p.returned = false ∧ p.batch = 0 ∧ (waitFailed = true ∨ p.world.running = false) then
        some (fds.list.foldl Process.close { p with returned := true })
      else none

/-- What a step of the loop can be. -/
inductive LoopMove (fds : ServerFds) (p : Process H) : LoopEvent → Process H → Prop
  | peek {n : ℕ} : p.returned = false → p.world.running = true → p.batch = 0 → 1 ≤ n →
      n ≤ batchSize → LoopMove fds p (.peek n) { p with batch := n }
  | world {e : WorldEvent} {w : World H} : p.returned = false →
      (e.isHandled = true → 1 ≤ p.batch) → (∀ fd ∈ fdsOpened e, fd ∉ p.openFds) →
      worldStep E numWorkers p.world e = some w →
      LoopMove fds p (.world e)
        ((fdsClosed p.world w e).foldl Process.close
          { p with
            world := w
            openFds := fdsOpened e ++ p.openFds
            batch := p.batch - e.isHandled.toNat })
  | exit {waitFailed : Bool} : p.returned = false → p.batch = 0 →
      waitFailed = true ∨ p.world.running = false →
      LoopMove fds p (.exit waitFailed) (fds.list.foldl Process.close { p with returned := true })

variable {E numWorkers} in
theorem loopStep_move {fds : ServerFds} {p p' : Process H} {e : LoopEvent}
    (h : loopStep E numWorkers fds p e = some p') : LoopMove E numWorkers fds p e p' := by
  cases e with
  | peek n =>
      simp only [loopStep, Option.ite_none_right_eq_some, Option.some.injEq] at h
      obtain ⟨⟨h₁, h₂, h₃, h₄, h₅⟩, rfl⟩ := h
      exact .peek h₁ h₂ h₃ h₄ h₅
  | world e =>
      simp only [loopStep, Option.ite_none_right_eq_some, Option.map_eq_some_iff] at h
      obtain ⟨⟨h₁, h₂, h₃⟩, w, hw, rfl⟩ := h
      exact .world h₁ h₂ h₃ hw
  | exit waitFailed =>
      simp only [loopStep, Option.ite_none_right_eq_some, Option.some.injEq] at h
      obtain ⟨⟨h₁, h₂, h₃⟩, rfl⟩ := h
      exact .exit h₁ h₂ h₃

/-- Closing changes the table only. -/
theorem Process.closeAll_same : ∀ (l : List ℤ) (p : Process H),
    (l.foldl Process.close p).world = p.world ∧ (l.foldl Process.close p).batch = p.batch ∧
      (l.foldl Process.close p).returned = p.returned
  | [], _ => ⟨rfl, rfl, rfl⟩
  | fd :: l, p => by
      have hclose : (p.close fd).world = p.world ∧ (p.close fd).batch = p.batch ∧
          (p.close fd).returned = p.returned := by
        unfold Process.close
        split_ifs <;> exact ⟨rfl, rfl, rfl⟩
      obtain ⟨h₁, h₂, h₃⟩ := Process.closeAll_same l (p.close fd)
      rw [List.foldl_cons]
      exact ⟨h₁.trans hclose.1, h₂.trans hclose.2.1, h₃.trans hclose.2.2⟩

/-- Open descriptors closed one after another. -/
theorem Process.closeAll_open : ∀ (l : List ℤ) {p : Process H} {rest : List ℤ},
    p.openFds.Perm (l ++ rest) →
    (l.foldl Process.close p).openFds.Perm rest ∧
      (l.foldl Process.close p).badCloses = p.badCloses
  | [], _, _, h => ⟨h, rfl⟩
  | fd :: l, p, rest, h => by
      have hmem : fd ∈ p.openFds := h.mem_iff.mpr List.mem_cons_self
      have hclose : p.close fd = { p with openFds := p.openFds.erase fd } := if_pos hmem
      have hrest : (p.openFds.erase fd).Perm (l ++ rest) := by
        have herase := h.erase fd
        rwa [List.cons_append, List.erase_cons_head] at herase
      rw [List.foldl_cons, hclose]
      exact Process.closeAll_open l (p := { p with openFds := p.openFds.erase fd }) hrest

/-! ### The sockets of the sessions -/

/-- The socket of a session that was not closed. -/
def Conn.heldFd (c : Conn H) : List ℤ := if c.closes = 0 then [c.session.clientFd] else []

/-- The sockets of all sessions not closed. -/
def World.heldFds (w : World H) : List ℤ := w.conns.flatMap Conn.heldFd

/-- The socket stays what it is until it is closed. -/
structure KeepsFd (c c' : Conn H) : Prop where
  closes : c.closes ≤ c'.closes
  clientFd : c'.closes = c.closes → c'.session.clientFd = c.session.clientFd

theorem KeepsFd.refl (c : Conn H) : KeepsFd c c := ⟨Nat.le_refl _, fun _ => rfl⟩

theorem KeepsFd.trans {a b c : Conn H} (h : KeepsFd a b) (h' : KeepsFd b c) : KeepsFd a c := by
  refine ⟨h.closes.trans h'.closes, fun heq => ?_⟩
  have h₁ := h.closes
  have h₂ := h'.closes
  rw [h'.clientFd (by omega), h.clientFd (by omega)]

/-- Neither the socket nor the count changes. -/
theorem KeepsFd.of_eq {c c' : Conn H} (h₁ : c'.closes = c.closes)
    (h₂ : c'.session.clientFd = c.session.clientFd) : KeepsFd c c' := ⟨h₁.ge, fun _ => h₂⟩

theorem Conn.cleanup_keepsFd (c : Conn H) : KeepsFd c c.cleanup := by
  have hfd : c.closes + (c.session.clientFd != -1).toNat = c.closes →
      c.session.closeFd.clientFd = c.session.clientFd := by
    intro h
    unfold Session.closeFd
    split_ifs with hopen
    · rw [hopen] at h
      exact absurd h (by simp)
    · rfl
  rw [Conn.cleanup_eq]
  split_ifs
  · exact ⟨Nat.le_add_right _ _, hfd⟩
  · exact ⟨Nat.le_add_right _ _, hfd⟩
  · exact .refl c

theorem Conn.afterRead_keepsFd (c : Conn H) (more : Bool) : KeepsFd c (c.afterRead more) := by
  have hrearm : KeepsFd c (if !c.session.closing && !more then c.rearm else c) := by
    split_ifs <;> exact .of_eq rfl rfl
  unfold Conn.afterRead
  generalize (if !c.session.closing && !more then c.rearm else c) = c₁ at hrearm ⊢
  dsimp only
  split_ifs
  · exact hrearm.trans c₁.cleanup_keepsFd
  · exact hrearm

theorem Conn.noteMore_keepsFd (c : Conn H) (more : Bool) : KeepsFd c (c.noteMore more) := by
  unfold Conn.noteMore
  split_ifs <;> exact .of_eq rfl rfl

theorem keepsFd_step {c c' : Conn H} {e : ConnEvent} (h : c.step E e = some c') :
    KeepsFd c c' := by
  cases Conn.step_move h with
  | recv _ _ _ => exact .of_eq rfl rfl
  | complete _ _ => exact .of_eq rfl rfl
  | @handleRecv res more buffer cq hcq =>
      have hnote := Conn.noteMore_keepsFd { c with cq := cq } more
      unfold handleRecv
      generalize Conn.noteMore { c with cq := cq } more = c₁ at hnote ⊢
      have hfirst : KeepsFd c c₁ := ⟨hnote.closes, hnote.clientFd⟩
      refine hfirst.trans ?_
      dsimp only
      split_ifs
      · exact .of_eq rfl rfl
      · exact KeepsFd.trans (b := c₁.markClosing) (.of_eq rfl rfl) (Conn.cleanup_keepsFd _)
      · refine KeepsFd.trans (b := c₁.readBuffer E buffer) ?_ (Conn.afterRead_keepsFd _ more)
        cases buffer with
        | none => exact .refl c₁
        | some b => exact .of_eq rfl (processClientRead_counters E c₁.session b.2).clientFd
  | @handleSend wr res cq hcq =>
      have hfree : ∀ s : Session H, s.clientFd = c.session.clientFd →
          KeepsFd c { c with cq := cq, session := freeWriteResponse s wr } := fun s hs =>
        .of_eq rfl ((freeWriteResponse_same s wr).2.2.trans hs)
      unfold handleSend
      refine (hfree _ ?_).trans (Conn.cleanup_keepsFd _)
      split_ifs <;> rfl

/-- A step of a session closes the socket it had, or keeps it. -/
theorem heldFd_step {c c' : Conn H} {e : ConnEvent} (hl : c.Lifetime) (h : c.step E e = some c') :
    (List.replicate (c'.closes - c.closes) c.session.clientFd ++ c'.heldFd).Perm c.heldFd := by
  have hl' := lifetime_step E hl h
  obtain ⟨hle, hsame⟩ := keepsFd_step E h
  unfold Conn.heldFd
  rcases hl.open_or_closed with ⟨h0, -⟩ | ⟨h1, -⟩
  · rcases hl'.open_or_closed with ⟨h0', -⟩ | ⟨h1', -⟩
    · rw [h0, h0', if_pos rfl, if_pos rfl, hsame (h0'.trans h0.symm)]
      exact .refl _
    · rw [h0, h1', if_pos rfl, if_neg Nat.one_ne_zero]
      exact .refl _
  · have h1' : c'.closes = 1 := by
      rcases hl'.open_or_closed with ⟨h0', -⟩ | ⟨h1', -⟩ <;> omega
    rw [h1, h1', if_neg Nat.one_ne_zero]
    exact .refl _

/-- **An event moves descriptors**: what is closed and still held is what was held and opened. -/
theorem fds_moved {w w' : World H} {e : WorldEvent} (hl : ∀ c ∈ w.conns, c.Lifetime)
    (h : worldStep E numWorkers w e = some w') :
    (fdsClosed w w' e ++ w'.heldFds).Perm (fdsOpened e ++ w.heldFds) := by
  cases e with
  | accept res addr =>
      have hconns := worldStep_accept h
      unfold World.heldFds
      rw [hconns, List.flatMap_append]
      cases addr with
      | none => simp [accepted, fdsClosed, fdsOpened]
      | some addr =>
          by_cases hres : res < 0
          · simp [accepted, fdsClosed, fdsOpened, hres]
          · have hacc : accepted [.accept res (some addr)] = [(res, addr)] := by
              simp [accepted, hres]
            rw [hacc, List.map_singleton, List.flatMap_singleton, fdsOpened, if_neg hres]
            exact (List.perm_append_comm : (w.conns.flatMap Conn.heldFd ++ [res]).Perm _)
  | signal =>
      simp only [worldStep, Option.some.injEq] at h
      subst h
      exact .refl _
  | conn i e =>
      obtain ⟨c, c', hc, hstep, hconns⟩ := worldStep_conn h
      have hi : i < w.conns.length := (List.getElem?_eq_some_iff.mp hc).1
      have hheld : (List.replicate (c'.closes - c.closes) c.session.clientFd ++ c'.heldFd).Perm
          ([] ++ c.heldFd) :=
        heldFd_step E (hl c (List.mem_of_getElem? hc)) hstep
      have hmove := flatMap_set_perm Conn.heldFd hc hheld
      unfold World.heldFds fdsClosed fdsOpened
      dsimp only
      rw [hconns, List.getElem?_set_self hi, hc]
      exact hmove

/-! ### Sends go to their own session -/

/-- What is queued names the descriptor of the session. -/
theorem Queues.fd {s s' : Session H} {sends : List Submission} (h : Queues E s sends s') :
    ∀ send ∈ sends, send.fd = s.clientFd := by
  induction h with
  | nil => exact fun _ hm => absurd hm List.not_mem_nil
  | quiet _ _ ih => exact ih
  | @queue sends s₁ r hq _ ih =>
      intro send hm
      rcases List.mem_append.mp hm with hm | hm
      · exact ih send hm
      · have hfd : send.fd = s₁.clientFd := by
          have ho := queueResponse_outcome E s₁ r
          generalize queueResponse E s₁ r = q at ho hm
          cases ho with
          | tooLong _ => exact absurd hm List.not_mem_nil
          | noMemory _ _ _ => exact absurd hm List.not_mem_nil
          | pooled i _ _ => rw [List.mem_singleton.mp hm]
          | allocated _ _ _ => rw [List.mem_singleton.mp hm]
        exact hfd.trans hq.counters.1.clientFd

/-- What is in flight names the descriptor of the session. -/
def Conn.SendsOwn (c : Conn H) : Prop := ∀ send ∈ c.sends, send.fd = c.session.clientFd

theorem handle_sends {c c' : Conn H} (h : c.step E .handle = some c') :
    ∃ new, c'.sends = c.sends ++ new ∧ ∀ send ∈ new, send.fd = c.session.clientFd := by
  cases Conn.step_move h with
  | @handleSend wr res cq hcq =>
      refine ⟨[], ?_, fun _ hm => absurd hm List.not_mem_nil⟩
      unfold handleSend
      rw [List.append_nil]
      exact (Conn.cleanup_cleanedUp _).sends
  | @handleRecv res more buffer cq hcq =>
      obtain ⟨h₁, h₂⟩ : (Conn.noteMore { c with cq := cq } more).sends = c.sends ∧
          (Conn.noteMore { c with cq := cq } more).session.clientFd = c.session.clientFd := by
        unfold Conn.noteMore
        split_ifs <;> exact ⟨rfl, rfl⟩
      have hafter : ∀ c₁ : Conn H, (c₁.afterRead more).sends = c₁.sends := fun c₁ => by
        have hext := c₁.afterRead_extends more
        rw [hext.sends, List.append_nil]
      unfold handleRecv
      generalize Conn.noteMore { c with cq := cq } more = c₁ at h₁ h₂ ⊢
      dsimp only
      split_ifs
      · exact ⟨[], by rw [List.append_nil]; exact h₁, fun _ hm => absurd hm List.not_mem_nil⟩
      · refine ⟨[], ?_, fun _ hm => absurd hm List.not_mem_nil⟩
        rw [(Conn.cleanup_cleanedUp _).sends, List.append_nil]
        exact h₁
      · rw [hafter]
        cases buffer with
        | none =>
            exact ⟨[], by rw [List.append_nil]; exact h₁, fun _ hm => absurd hm List.not_mem_nil⟩
        | some b =>
            obtain ⟨s₁, hq, -⟩ := processClientRead_queues E c₁.session b.2
            refine ⟨(processClientRead E c₁.session b.2).sends, ?_, ?_⟩
            · rw [← h₁]
              rfl
            · rw [← h₂]
              exact hq.fd E

theorem sendsOwn_step {c c' : Conn H} {e : ConnEvent} (hl : c.Lifetime) (hset : c.Settled)
    (h : c.SendsOwn) (hs : c.step E e = some c') : c'.SendsOwn := by
  have hl' := lifetime_step E hl hs
  have hset' := settled_step E hl hset hs
  have hkeep := keepsFd_step E hs
  intro send hmem
  -- while a send is in flight the socket is not closed
  have hopen : c'.closes = c.closes := by
    have hne : ¬c'.closes = 1 := by
      rw [hset'.closes_iff hl', Conn.sendsInFlight]
      have := List.length_pos_of_mem hmem
      omega
    have hle := hkeep.closes
    rcases hl'.open_or_closed with ⟨h0, -⟩ | ⟨h1, -⟩
    · omega
    · exact absurd h1 hne
  rw [hkeep.clientFd hopen]
  cases e with
  | recv res more buffer =>
      cases Conn.step_move hs with
      | recv _ _ _ => exact h send hmem
  | complete i res =>
      cases Conn.step_move hs with
      | complete _ _ => exact h send (List.mem_of_mem_eraseIdx hmem)
  | handle =>
      obtain ⟨new, hsends, hnew⟩ := handle_sends E hs
      rw [hsends] at hmem
      rcases List.mem_append.mp hmem with hmem | hmem
      · exact h send hmem
      · exact hnew send hmem

/-! ### Whole runs -/

/-- What every step of a connection keeps. -/
structure Conn.Sound (c : Conn H) : Prop where
  lifetime : c.Lifetime
  settled : c.Settled
  sendsOwn : c.SendsOwn

/-- The open descriptors are the server's own, while it runs, and the sockets of the sessions, and
none was closed that was not open. -/
structure Process.FdsKept (fds : ServerFds) (p : Process H) : Prop where
  sound : ∀ c ∈ p.world.conns, c.Sound
  noBadClose : p.badCloses = 0
  nodup : p.openFds.Nodup
  owners : p.openFds.Perm ((if p.returned then [] else fds.list) ++ p.world.heldFds)

theorem Process.fdsKept_start (fds : ServerFds) : (Process.start fds : Process H).FdsKept fds where
  sound := fun _ h => absurd h List.not_mem_nil
  noBadClose := rfl
  nodup := fds.distinct
  owners := by
    show fds.list.Perm (fds.list ++ [])
    rw [List.append_nil]

theorem sound_worldStep {w w' : World H} {e : WorldEvent} (h : ∀ c ∈ w.conns, c.Sound)
    (hs : worldStep E numWorkers w e = some w') : ∀ c ∈ w'.conns, c.Sound := by
  intro c hc
  rcases worldStep_conns hs with hw | ⟨res, addr, hres, hw⟩ | ⟨i, d, d', e', hi, hds, hw⟩
  · exact h c (hw ▸ hc)
  · rw [hw] at hc
    rcases List.mem_append.mp hc with hc | hc
    · exact h c hc
    · rw [List.mem_singleton.mp hc]
      exact ⟨Conn.lifetime_accept hres addr numWorkers, Conn.accept_settled res addr numWorkers,
        fun _ hm => absurd hm List.not_mem_nil⟩
  · rw [hw] at hc
    rcases List.mem_or_eq_of_mem_set hc with hc | rfl
    · exact h c hc
    · obtain ⟨hl, hset, hown⟩ := h d (List.mem_of_getElem? hi)
      exact ⟨lifetime_step E hl hds, settled_step E hl hset hds, sendsOwn_step E hl hset hown hds⟩

/-- **Every step of the loop keeps the descriptors.** -/
theorem fdsKept_step {fds : ServerFds} {p p' : Process H} {e : LoopEvent} (h : p.FdsKept fds)
    (hs : loopStep E numWorkers fds p e = some p') : p'.FdsKept fds := by
  obtain ⟨hsound, hbad, hnodup, howners⟩ := h
  cases loopStep_move hs with
  | peek _ _ _ _ _ => exact ⟨hsound, hbad, hnodup, howners⟩
  | @world e w hrun hbatch hfresh hw =>
      obtain ⟨q, hq⟩ : ∃ q : Process H, q = { p with
        world := w
        openFds := fdsOpened e ++ p.openFds
        batch := p.batch - e.isHandled.toNat } := ⟨_, rfl⟩
      have hmoved := fds_moved E numWorkers (fun c hc => (hsound c hc).lifetime) hw
      rw [hrun, if_neg Bool.false_ne_true] at howners
      have hopen : q.openFds.Perm (fdsClosed p.world w e ++ (fds.list ++ w.heldFds)) := by
        rw [hq]
        refine (List.Perm.append_left _ howners).trans ?_
        rw [List.perm_iff_count] at hmoved ⊢
        intro fd
        have := hmoved fd
        simp only [List.count_append] at this ⊢
        omega
      have hnodup' : q.openFds.Nodup := by
        have hone : (fdsOpened e).Nodup := by
          unfold fdsOpened
          cases e with
          | accept res addr => dsimp only; split_ifs <;> simp
          | signal => exact List.nodup_nil
          | conn i e => exact List.nodup_nil
        rw [hq]
        exact List.nodup_append'.mpr ⟨hone, hnodup, fun fd h₁ h₂ => hfresh fd h₁ h₂⟩
      rw [← hq]
      obtain ⟨h₁, h₂⟩ := Process.closeAll_open _ hopen
      obtain ⟨h₃, -, h₅⟩ := Process.closeAll_same _ q
      have hret : q.returned = false := by rw [hq]; exact hrun
      have hworld : q.world = w := by rw [hq]
      refine ⟨?_, ?_, ?_, ?_⟩
      · rw [h₃, hworld]
        exact sound_worldStep E numWorkers hsound hw
      · rw [h₂, hq]
        exact hbad
      · exact h₁.nodup_iff.mpr (List.nodup_append.mp (hopen.nodup_iff.mp hnodup')).2.1
      · rw [h₅, hret, h₃, hworld, if_neg Bool.false_ne_true]
        exact h₁
  | exit hrun _ _ =>
      rw [hrun, if_neg Bool.false_ne_true] at howners
      obtain ⟨q, hq⟩ : ∃ q : Process H, q = { p with returned := true } := ⟨_, rfl⟩
      have hopen : q.openFds.Perm (fds.list ++ p.world.heldFds) := by
        rw [hq]
        exact howners
      rw [← hq]
      obtain ⟨h₁, h₂⟩ := Process.closeAll_open _ hopen
      obtain ⟨h₃, -, h₅⟩ := Process.closeAll_same _ q
      have hret : q.returned = true := by rw [hq]
      have hworld : q.world = p.world := by rw [hq]
      refine ⟨?_, ?_, ?_, ?_⟩
      · rw [h₃, hworld]
        exact hsound
      · rw [h₂, hq]
        exact hbad
      · exact h₁.nodup_iff.mpr (List.nodup_append.mp (howners.nodup_iff.mp hnodup)).2.1
      · rw [h₅, hret, h₃, hworld, if_pos rfl, List.nil_append]
        exact h₁

/-- **Descriptors are safe.**  In every state of the main loop, whatever numbers the kernel gives to
new connections: nothing was closed that was not open; the open descriptors are, each once, the
server's own until it returns and those of the sessions whose socket was not closed; and what is
being sent for a session goes to its own descriptor, which is open. -/
theorem descriptors_safe {fds : ServerFds} {es : List LoopEvent} {p : Process H}
    (h : Reaches (loopStep E numWorkers fds) (Process.start fds) es p) :
    p.badCloses = 0 ∧ p.openFds.Nodup ∧
      p.openFds.Perm ((if p.returned then [] else fds.list) ++ p.world.heldFds) ∧
      ∀ c ∈ p.world.conns, ∀ send ∈ c.sends,
        send.fd = c.session.clientFd ∧ send.fd ∈ p.openFds := by
  obtain ⟨hsound, hbad, hnodup, howners⟩ := h.invariant (I := fun p => p.FdsKept fds)
    (Process.fdsKept_start fds) fun p e p' hp _ hs => fdsKept_step E numWorkers hp hs
  refine ⟨hbad, hnodup, howners, fun c hc send hmem => ?_⟩
  obtain ⟨hl, hset, hown⟩ := hsound c hc
  have hheld : c.session.clientFd ∈ p.world.heldFds := by
    refine List.mem_flatMap.mpr ⟨c, hc, ?_⟩
    have hne : ¬c.closes = 1 := by
      rw [hset.closes_iff hl, Conn.sendsInFlight]
      have := List.length_pos_of_mem hmem
      omega
    have hzero : c.closes = 0 := by
      rcases hl.open_or_closed with ⟨h0, -⟩ | ⟨h1, -⟩
      · exact h0
      · exact absurd h1 hne
    unfold Conn.heldFd
    rw [if_pos hzero]
    exact List.mem_singleton_self _
  refine ⟨hown send hmem, ?_⟩
  rw [hown send hmem]
  exact howners.mem_iff.mpr (List.mem_append_right _ hheld)

/-- Descriptors of a worker that has just been set up. -/
def firstFds : ServerFds := ⟨3, 5, 4, by decide⟩

/-- The number 6 is given to two clients, one after the other. -/
def reusedRun : List LoopEvent :=
  [.peek 1, .world (.accept 6 (some 0)), .world (.conn 0 (.recv 0 false none)), .peek 1,
    .world (.conn 0 .handle), .peek 1, .world (.accept 6 (some 4096))]

theorem descriptors_safe_reused :
    ∃ p, Reaches (loopStep Env.plain 1 firstFds) (Process.start firstFds) reusedRun p ∧
      p.badCloses = 0 ∧ p.openFds.Nodup := by
  obtain ⟨p, hp⟩ : ∃ p, run (loopStep Env.plain 1 firstFds) (Process.start firstFds) reusedRun =
      some p := ⟨_, rfl⟩
  obtain ⟨hbad, hnodup, -⟩ := descriptors_safe Env.plain 1 (reaches_of_run hp)
  exact ⟨p, reaches_of_run hp, hbad, hnodup⟩

end MachAudio
