import MachAudio.EventLoop
import MachAudio.Sending

/-! # The lifetime of a session

`Conn.Lifetime` ties the counters and flags of a session to what is in flight for it: its
sends, the receive armed for it and the completions not handled yet.  It holds of a new
connection and every step keeps it (`lifetime_step`), so it holds in every state of the
event loop (`world_lifetime`).  A session that was freed has nothing in flight, so nothing
can happen to it any more. -/

namespace MachAudio

open Transition

variable {H Φ : Type} (E : Env H Φ)

/-! ### What is in flight -/

/-- Whether more completions follow, for each completion of a receive. -/
def recvFlags : List Cqe → List Bool
  | [] => []
  | .recv _ more _ :: cq => more :: recvFlags cq
  | .send _ _ :: cq => recvFlags cq

/-- The records of the completed sends. -/
def sendSlots : List Cqe → List Slot
  | [] => []
  | .recv _ _ _ :: cq => sendSlots cq
  | .send wr _ :: cq => wr :: sendSlots cq

@[simp] theorem recvFlags_append (cq cq' : List Cqe) :
    recvFlags (cq ++ cq') = recvFlags cq ++ recvFlags cq' := by
  induction cq with
  | nil => rfl
  | cons e cq ih => cases e <;> simp [recvFlags, ih]

@[simp] theorem sendSlots_append (cq cq' : List Cqe) :
    sendSlots (cq ++ cq') = sendSlots cq ++ sendSlots cq' := by
  induction cq with
  | nil => rfl
  | cons e cq ih => cases e <;> simp [sendSlots, ih]

theorem eq_nil_of_flags {cq : List Cqe} (h₁ : recvFlags cq = []) (h₂ : sendSlots cq = []) :
    cq = [] := by
  cases cq with
  | nil => rfl
  | cons e cq => cases e <;> simp [recvFlags, sendSlots] at h₁ h₂

/-- The sends in flight: not completed, or completed and not handled. -/
def Conn.sendsInFlight (c : Conn H) : ℕ := c.sends.length + (sendSlots c.cq).length

/-- The receives in flight: armed in the kernel, or with their last completion not handled. -/
def Conn.recvsInFlight (c : Conn H) : ℕ := c.armed + (recvFlags c.cq).count false

/-- The completions of the one receive that can be in flight: none after its last. -/
inductive RecvPhase : Bool → ℕ → List Bool → Prop
  | idle : RecvPhase false 0 []
  | armed (k : ℕ) : RecvPhase true 1 (List.replicate k true)
  | ended (k : ℕ) : RecvPhase true 0 (List.replicate k true ++ [false])

/-- A receive that failed or ended is not followed by another completion. -/
def CqOk (cq : List Cqe) : Prop :=
  ∀ res more buffer, .recv res more buffer ∈ cq → res ≤ 0 → more = false

structure Conn.Lifetime (c : Conn H) : Prop where
  pending : c.session.pendingWrites = c.sendsInFlight
  recv : RecvPhase c.session.recvActive c.armed (recvFlags c.cq)
  cq : CqOk c.cq
  open_or_closed : (c.closes = 0 ∧ c.session.clientFd ≠ -1) ∨
    (c.closes = 1 ∧ c.session.clientFd = -1)
  live_or_freed : c.frees = 0 ∨
    (c.frees = 1 ∧ c.sends = [] ∧ c.cq = [] ∧ c.armed = 0)

theorem RecvPhase.count {active : Bool} {armed : ℕ} {flags : List Bool}
    (h : RecvPhase active armed flags) : armed + flags.count false = active.toNat := by
  cases h with
  | idle => rfl
  | armed k => simp [List.count_replicate]
  | ended k => simp [List.count_append, List.count_replicate]

/-- The kernel posts a completion of an armed receive. -/
theorem RecvPhase.post {active : Bool} {armed : ℕ} {flags : List Bool}
    (h : RecvPhase active armed flags) (ha : 1 ≤ armed) (more : Bool) :
    RecvPhase active (if more then armed else armed - 1) (flags ++ [more]) := by
  cases h with
  | idle => omega
  | ended k => omega
  | armed k =>
      cases more with
      | true =>
          have e : List.replicate k true ++ [true] = List.replicate (k + 1) true := by
            rw [List.replicate_succ']
          rw [e]
          exact .armed (k + 1)
      | false => exact .ended k

/-- The server takes the oldest completion off: the flag is what that completion says. -/
theorem RecvPhase.take {active more : Bool} {armed : ℕ} {flags : List Bool}
    (h : RecvPhase active armed (more :: flags)) :
    active = true ∧ RecvPhase more armed flags := by
  generalize hf : more :: flags = l at h
  cases h with
  | idle => cases hf
  | armed k =>
      cases k with
      | zero => cases hf
      | succ k =>
          obtain ⟨rfl, rfl⟩ := List.cons.inj hf
          exact ⟨rfl, .armed k⟩
  | ended k =>
      cases k with
      | zero =>
          obtain ⟨rfl, rfl⟩ := List.cons.inj hf
          exact ⟨rfl, .idle⟩
      | succ k =>
          obtain ⟨rfl, rfl⟩ := List.cons.inj hf
          exact ⟨rfl, .ended k⟩

/-- `recv_active` says whether a receive is in flight, and there is never a second one. -/
theorem Conn.Lifetime.recvsInFlight {c : Conn H} (h : c.Lifetime) :
    c.recvsInFlight = c.session.recvActive.toNat := h.recv.count

theorem Conn.lifetime_accept {clientFd : ℤ} (hfd : 0 ≤ clientFd) (addr : ℕ) (numWorkers : UInt32) :
    (Conn.accept clientFd addr numWorkers : Conn H).Lifetime where
  pending := rfl
  recv := .armed 0
  cq := fun _ _ _ h => absurd h List.not_mem_nil
  open_or_closed := .inl ⟨rfl, by show clientFd ≠ -1; omega⟩
  live_or_freed := .inl rfl

/-! ### The handlers -/

/-- The session with its socket closed. -/
def Session.closeFd (s : Session H) : Session H :=
  if s.clientFd != -1 then { s with clientFd := -1 } else s

/-- `cleanup_session_if_needed` by cases. -/
theorem Conn.cleanup_eq (c : Conn H) :
    c.cleanup =
      if c.session.closing = true ∧ c.session.pendingWrites = 0 then
        if c.session.recvActive = true then
          { c with
            session := c.session.closeFd
            closes := c.closes + (c.session.clientFd != -1).toNat }
        else
          { c with
            session := { c.session.closeFd with transcodeSession := .zero }
            closes := c.closes + (c.session.clientFd != -1).toNat
            frees := c.frees + 1 }
      else c := by
  have hactive : c.session.closeFd.recvActive = c.session.recvActive := by
    rw [Session.closeFd]
    split_ifs <;> rfl
  by_cases hcl : c.session.closing = true ∧ c.session.pendingWrites = 0
  · have hb : (c.session.closing && c.session.pendingWrites == 0) = true := by simp [hcl]
    have e : cleanupSessionIfNeeded c.session =
        if (!c.session.closeFd.recvActive) = true then
          ({ c.session.closeFd with transcodeSession := .zero }, c.session.clientFd != -1, true)
        else (c.session.closeFd, c.session.clientFd != -1, false) := by
      rw [cleanupSessionIfNeeded, if_pos hb]
      rfl
    rw [Conn.cleanup, e, if_pos hcl, hactive]
    cases c.session.recvActive <;> rfl
  · have hb : ¬(c.session.closing && c.session.pendingWrites == 0) = true := by
      simpa using hcl
    rw [Conn.cleanup, cleanupSessionIfNeeded, if_neg hb, if_neg hcl]
    rfl

/-- Cleanup closes the socket once, and frees the session only when nothing is in flight. -/
theorem Conn.Lifetime.cleanup {c : Conn H} (h : c.Lifetime) (hlive : c.frees = 0) :
    c.cleanup.Lifetime := by
  obtain ⟨hp, hr, hcq, hfd, -⟩ := h
  have hclosed : c.session.closeFd.clientFd = -1 := by
    rw [Session.closeFd]
    split_ifs with h
    · rfl
    · simpa using h
  have hcloses : c.closes + (c.session.clientFd != -1).toNat = 1 := by
    rcases hfd with ⟨h₁, h₂⟩ | ⟨h₁, h₂⟩
    · simp [h₁, h₂]
    · simp [h₁, h₂]
  have hsame : c.session.closeFd.pendingWrites = c.session.pendingWrites ∧
      c.session.closeFd.recvActive = c.session.recvActive := by
    rw [Session.closeFd]
    split_ifs <;> exact ⟨rfl, rfl⟩
  rw [Conn.cleanup_eq]
  by_cases hcl : c.session.closing = true ∧ c.session.pendingWrites = 0
  · rw [if_pos hcl]
    by_cases hact : c.session.recvActive = true
    · rw [if_pos hact]
      exact ⟨hsame.1.trans hp, by show RecvPhase c.session.closeFd.recvActive _ _; rwa [hsame.2],
        hcq, .inr ⟨hcloses, hclosed⟩, .inl hlive⟩
    · rw [if_neg hact]
      have hidle : c.armed = 0 ∧ recvFlags c.cq = [] := by
        cases hr' : c.session.recvActive with
        | true => exact absurd hr' hact
        | false =>
            rw [hr'] at hr
            generalize c.armed = armed, recvFlags c.cq = flags at hr
            cases hr
            exact ⟨rfl, rfl⟩
      have hnone : c.sends = [] ∧ sendSlots c.cq = [] := by
        rw [hcl.2, Conn.sendsInFlight] at hp
        exact ⟨List.eq_nil_of_length_eq_zero (by omega),
          List.eq_nil_of_length_eq_zero (by omega)⟩
      exact ⟨hsame.1.trans hp, by show RecvPhase c.session.closeFd.recvActive _ _; rwa [hsame.2],
        hcq, .inr ⟨hcloses, hclosed⟩,
        .inr ⟨by show c.frees + 1 = 1; omega, hnone.1, eq_nil_of_flags hidle.2 hnone.2, hidle.1⟩⟩
  · rw [if_neg hcl]
    exact ⟨hp, hr, hcq, hfd, .inl hlive⟩

/-- A receive is armed when none is in flight. -/
theorem Conn.Lifetime.rearm {c : Conn H} (h : c.Lifetime) (hlive : c.frees = 0)
    (hidle : c.session.recvActive = false) : c.rearm.Lifetime := by
  obtain ⟨hp, hr, hcq, hfd, -⟩ := h
  rw [hidle] at hr
  refine ⟨hp, ?_, hcq, hfd, .inl hlive⟩
  show RecvPhase true (c.armed + 1) (recvFlags c.cq)
  generalize c.armed = armed, recvFlags c.cq = flags at hr
  cases hr
  exact .armed 0

theorem Conn.Lifetime.markClosing {c : Conn H} (h : c.Lifetime) : c.markClosing.Lifetime :=
  ⟨h.pending, h.recv, h.cq, h.open_or_closed, h.live_or_freed⟩

theorem Conn.Lifetime.read {c : Conn H} (h : c.Lifetime) (hlive : c.frees = 0)
    (bytes : List UInt8) : (c.read E bytes).Lifetime := by
  obtain ⟨hp, hr, hcq, hfd, -⟩ := h
  have hc := processClientRead_counters E c.session bytes
  refine ⟨?_, ?_, hcq, ?_, .inl hlive⟩
  · show (processClientRead E c.session bytes).session.pendingWrites = _
    rw [hc.pendingWrites, hp]
    simp only [Conn.sendsInFlight, Conn.read, List.length_append]
    push_cast
    ring
  · show RecvPhase (processClientRead E c.session bytes).session.recvActive _ _
    rw [hc.recvActive]
    exact hr
  · show (_ ∧ (processClientRead E c.session bytes).session.clientFd ≠ -1) ∨
      (_ ∧ (processClientRead E c.session bytes).session.clientFd = -1)
    rw [hc.clientFd]
    exact hfd

theorem Conn.Lifetime.frees_eq_zero {c : Conn H} (h : c.Lifetime) (hcq : c.cq ≠ []) :
    c.frees = 0 := by
  rcases h.live_or_freed with h | ⟨-, -, h, -⟩
  · exact h
  · exact absurd h hcq

/-- The completion of a receive taken off the queue. -/
theorem Conn.Lifetime.noteMore {c : Conn H} (h : c.Lifetime) {res : ℤ} {more : Bool}
    {buffer : Option (ℕ × List UInt8)} {cq : List Cqe} (hcq : c.cq = .recv res more buffer :: cq) :
    (Conn.noteMore { c with cq := cq } more).Lifetime ∧
      (Conn.noteMore { c with cq := cq } more).frees = 0 ∧
      (Conn.noteMore { c with cq := cq } more).session.recvActive = more := by
  have hlive := h.frees_eq_zero (by simp [hcq])
  obtain ⟨hp, hr, hok, hfd, -⟩ := h
  have hok' : CqOk cq := fun res more buffer h =>
    hok res more buffer (hcq ▸ List.mem_cons_of_mem _ h)
  have hp' : c.session.pendingWrites = ({ c with cq := cq } : Conn H).sendsInFlight := by
    rw [hp, Conn.sendsInFlight, hcq]
    rfl
  rw [hcq] at hr
  obtain ⟨hact, hr'⟩ := hr.take
  cases more with
  | true =>
      refine ⟨⟨hp', ?_, hok', hfd, .inl hlive⟩, hlive, hact⟩
      show RecvPhase c.session.recvActive c.armed (recvFlags cq)
      rwa [hact]
  | false => exact ⟨⟨hp', hr', hok', hfd, .inl hlive⟩, hlive, rfl⟩

theorem Conn.Lifetime.afterRead {c : Conn H} (h : c.Lifetime) (hlive : c.frees = 0) {more : Bool}
    (hact : c.session.recvActive = more) : (c.afterRead more).Lifetime := by
  rw [Conn.afterRead]
  cases hc : c.session.closing with
  | true => simpa [hc] using h.cleanup hlive
  | false =>
      cases more with
      | true => simpa [hc] using h
      | false =>
          have hopen : c.rearm.session.closing = false := hc
          simpa [hc, hopen] using h.rearm hlive hact

theorem handleRecv_lifetime {c : Conn H} (h : c.Lifetime) {res : ℤ} {more : Bool}
    {buffer : Option (ℕ × List UInt8)} {cq : List Cqe}
    (hcq : c.cq = .recv res more buffer :: cq) :
    (handleRecv E { c with cq := cq } res more buffer).Lifetime := by
  have hmore : res ≤ 0 → more = false := h.cq res more buffer (hcq ▸ List.mem_cons_self)
  obtain ⟨ht, hlive, hact⟩ := h.noteMore hcq
  rw [handleRecv]
  generalize Conn.noteMore { c with cq := cq } more = c₁ at ht hlive hact ⊢
  split_ifs with h₁ h₂
  · exact ht.rearm hlive (by rw [hact, hmore h₁])
  · exact ht.markClosing.cleanup hlive
  · cases buffer with
    | none => exact ht.afterRead hlive hact
    | some b =>
        refine (ht.read E hlive b.2).afterRead hlive ?_
        rw [← hact]
        exact (processClientRead_counters E c₁.session b.2).recvActive

theorem freeWriteResponse_same (s : Session H) (wr : Slot) :
    (freeWriteResponse s wr).pendingWrites = s.pendingWrites ∧
      (freeWriteResponse s wr).recvActive = s.recvActive ∧
      (freeWriteResponse s wr).clientFd = s.clientFd := by
  rw [freeWriteResponse]
  cases s.deref wr with
  | none => exact ⟨rfl, rfl, rfl⟩
  | some r =>
      simp only
      split_ifs <;> cases wr <;> exact ⟨rfl, rfl, rfl⟩

theorem freeWriteResponse_closing (s : Session H) (wr : Slot) :
    (freeWriteResponse s wr).closing = s.closing := by
  rw [freeWriteResponse]
  cases s.deref wr with
  | none => rfl
  | some r =>
      simp only
      split_ifs <;> cases wr <;> rfl

theorem handleSend_lifetime {c : Conn H} (h : c.Lifetime) {wr : Slot} {res : ℤ} {cq : List Cqe}
    (hcq : c.cq = .send wr res :: cq) : (handleSend { c with cq := cq } wr res).Lifetime := by
  have hlive := h.frees_eq_zero (by simp [hcq])
  obtain ⟨hp, hr, hok, hfd, -⟩ := h
  obtain ⟨s, hs⟩ : ∃ s : Session H, s = (if res < 0 then
      ({ c.session with
        pendingWrites := c.session.pendingWrites - 1, closing := true } : Session H)
    else { c.session with pendingWrites := c.session.pendingWrites - 1 }) := ⟨_, rfl⟩
  have hs' : s.pendingWrites = c.session.pendingWrites - 1 ∧
      s.recvActive = c.session.recvActive ∧ s.clientFd = c.session.clientFd := by
    rw [hs]
    split_ifs <;> exact ⟨rfl, rfl, rfl⟩
  obtain ⟨h₁, h₂, h₃⟩ := freeWriteResponse_same s wr
  have e : handleSend { c with cq := cq } wr res =
      Conn.cleanup { c with cq := cq, session := freeWriteResponse s wr } := by
    rw [handleSend, hs]
  rw [e]
  refine Conn.Lifetime.cleanup ⟨?_, ?_, ?_, ?_, .inl hlive⟩ hlive
  · show (freeWriteResponse s wr).pendingWrites = (c.sends.length + (sendSlots cq).length : ℕ)
    rw [h₁, hs'.1, hp, Conn.sendsInFlight, hcq, sendSlots, List.length_cons]
    omega
  · show RecvPhase (freeWriteResponse s wr).recvActive c.armed (recvFlags cq)
    rw [h₂, hs'.2.1]
    rwa [hcq] at hr
  · exact fun res more buffer h => hok res more buffer (hcq ▸ List.mem_cons_of_mem _ h)
  · show (_ ∧ (freeWriteResponse s wr).clientFd ≠ -1) ∨ (_ ∧ (freeWriteResponse s wr).clientFd = -1)
    rw [h₃, hs'.2.2]
    exact hfd

/-! ### Runs -/

/-- **Every step keeps the lifetime invariant.** -/
theorem lifetime_step {c c' : Conn H} {e : ConnEvent} (h : c.Lifetime)
    (hstep : c.step E e = some c') : c'.Lifetime := by
  cases Conn.step_move hstep with
  | @recv res more buffer ha hmore hfits =>
      obtain ⟨hp, hrecv, hok, hfd, hlive⟩ := h
      refine ⟨?_, ?_, ?_, hfd, ?_⟩
      · rw [hp]
        simp [Conn.sendsInFlight, sendSlots]
      · show RecvPhase c.session.recvActive _ (recvFlags (c.cq ++ [.recv res more buffer]))
        rw [recvFlags_append]
        exact hrecv.post ha more
      · intro res' more' buffer' hmem
        rcases List.mem_append.mp hmem with hmem | hmem
        · exact hok res' more' buffer' hmem
        · obtain ⟨rfl, rfl, rfl⟩ := Cqe.recv.inj (List.mem_singleton.mp hmem)
          exact hmore
      · rcases hlive with hl | ⟨-, -, -, hidle⟩
        · exact .inl hl
        · omega
  | @complete i res send hi hle =>
      obtain ⟨hp, hrecv, hok, hfd, hlive⟩ := h
      have hlt : i < c.sends.length := (List.getElem?_eq_some_iff.mp hi).1
      refine ⟨?_, ?_, ?_, hfd, ?_⟩
      · rw [hp]
        simp only [Conn.sendsInFlight, sendSlots_append, List.length_append,
          List.length_eraseIdx, if_pos hlt, sendSlots, List.length_singleton]
        congr 1
        omega
      · simpa [recvFlags] using hrecv
      · intro res' more' buffer' hmem
        rcases List.mem_append.mp hmem with hmem | hmem
        · exact hok res' more' buffer' hmem
        · cases List.mem_singleton.mp hmem
      · rcases hlive with hl | ⟨-, hs, -, -⟩
        · exact .inl hl
        · rw [hs] at hlt
          exact absurd hlt (Nat.not_lt_zero _)
  | handleRecv hcq => exact handleRecv_lifetime E h hcq
  | handleSend hcq => exact handleSend_lifetime h hcq

/-- Nothing more is handed to the kernel, and the session stays closing. -/
def Silent (c c' : Conn H) : Prop :=
  c.session.closing = true → c'.session.closing = true ∧ c'.submitted = c.submitted

theorem Conn.cleanup_silent (c : Conn H) : Silent c c.cleanup := by
  intro hc
  have hfd : c.session.closeFd.closing = true := by
    rw [Session.closeFd]
    split_ifs <;> exact hc
  rw [Conn.cleanup_eq]
  split_ifs
  · exact ⟨hfd, rfl⟩
  · exact ⟨hfd, rfl⟩
  · exact ⟨hc, rfl⟩

theorem Silent.trans {c₁ c₂ c₃ : Conn H} (h : Silent c₁ c₂) (h' : Silent c₂ c₃) :
    Silent c₁ c₃ := fun hc => ⟨(h' (h hc).1).1, (h' (h hc).1).2.trans (h hc).2⟩

theorem Conn.afterRead_silent (c : Conn H) (more : Bool) : Silent c (c.afterRead more) := by
  intro hc
  rw [Conn.afterRead]
  simpa [hc] using c.cleanup_silent hc

/-- A closing session sends nothing, whatever happens next. -/
theorem silent_step {c c' : Conn H} {e : ConnEvent} (h : c.step E e = some c') : Silent c c' := by
  cases Conn.step_move h with
  | recv _ _ _ => exact fun hc => ⟨hc, rfl⟩
  | complete _ _ => exact fun hc => ⟨hc, rfl⟩
  | @handleRecv res more buffer cq hcq =>
      have hnote : Silent c (Conn.noteMore { c with cq := cq } more) := by
        intro hc
        rw [Conn.noteMore]
        split_ifs <;> exact ⟨hc, rfl⟩
      apply hnote.trans
      rw [handleRecv]
      generalize Conn.noteMore { c with cq := cq } more = c₁
      split_ifs
      · exact fun hc => ⟨hc, rfl⟩
      · exact fun hc => c₁.markClosing.cleanup_silent rfl
      · refine Silent.trans ?_ (Conn.afterRead_silent _ more)
        cases buffer with
        | none => exact fun hc => ⟨hc, rfl⟩
        | some b =>
            intro hc
            have hr := (processClientRead_counters E c₁.session b.2).closing hc
            refine ⟨hr.1, ?_⟩
            show c₁.submitted ++ (processClientRead E c₁.session b.2).sends = c₁.submitted
            rw [hr.2, List.append_nil]
  | @handleSend wr res cq hcq =>
      intro hc
      apply Conn.cleanup_silent _
      show (freeWriteResponse _ wr).closing = true
      rw [freeWriteResponse_closing]
      split_ifs
      · rfl
      · exact hc

/-- A freed session has nothing in flight, so no step of it is possible. -/
theorem Conn.Lifetime.no_step_of_freed {c : Conn H} (h : c.Lifetime) (hfree : c.frees ≠ 0)
    (e : ConnEvent) : c.step E e = none := by
  rcases h.live_or_freed with hl | ⟨-, hs, hcq, ha⟩
  · exact absurd hl hfree
  · cases e with
    | recv res more buffer => simp [Conn.step, connStep, ha]
    | complete i res => simp [Conn.step, connStep, hs]
    | handle => simp [Conn.step, connStep, hcq]

/-- **Session lifetime under any completion order.**  In every state of the event loop, for
every session ever accepted: `pending_writes` counts its sends in flight; `recv_active` says
whether its one receive is in flight; it was freed at most once, then nothing is in flight
for it and no step of it is possible; its socket was closed at most once; and if it is
closing, nothing more is ever sent. -/
theorem session_lifetime (numWorkers : UInt32) {w : World H} {es : List WorldEvent}
    (h : Reaches (worldStep E numWorkers) World.start es w) {i : ℕ} {c : Conn H}
    (hc : w.conns[i]? = some c) :
    c.session.pendingWrites = c.sendsInFlight ∧
      (c.session.recvActive = true ↔ c.recvsInFlight = 1) ∧ c.recvsInFlight ≤ 1 ∧
      c.frees ≤ 1 ∧
      (c.frees ≠ 0 → c.sendsInFlight = 0 ∧ c.recvsInFlight = 0 ∧ c.cq = [] ∧
        ∀ e, c.step E e = none) ∧
      c.closes ≤ 1 ∧
      (c.session.closing = true → ∀ es' w', Reaches (worldStep E numWorkers) w es' w' →
        ∃ c', w'.conns[i]? = some c' ∧ c'.session.closing = true ∧ c'.submitted = c.submitted) := by
  have hl : c.Lifetime := World.conns_invariant
    (fun clientFd addr hfd => Conn.lifetime_accept hfd addr numWorkers)
    (fun c e c' => lifetime_step E) h c (List.mem_of_getElem? hc)
  refine ⟨hl.pending, ?_, ?_, ?_, ?_, ?_, ?_⟩
  · rw [hl.recvsInFlight]
    cases c.session.recvActive <;> simp
  · rw [hl.recvsInFlight]
    exact Bool.toNat_le _
  · rcases hl.live_or_freed with h | ⟨h, -⟩ <;> omega
  · intro hfree
    rcases hl.live_or_freed with h | ⟨-, hs, hcq, ha⟩
    · exact absurd h hfree
    · refine ⟨?_, ?_, hcq, hl.no_step_of_freed E hfree⟩
      · simp [Conn.sendsInFlight, hs, hcq, sendSlots]
      · simp [Conn.recvsInFlight, ha, hcq, recvFlags]
  · rcases hl.open_or_closed with ⟨h, -⟩ | ⟨h, -⟩ <;> omega
  · intro hclosing es' w' hrun
    obtain ⟨c', hc', hs⟩ := World.conns_relation (R := Silent) (fun _ hc => ⟨hc, rfl⟩)
      (fun _ _ _ => Silent.trans) (fun _ _ _ => silent_step E) hrun hc
    exact ⟨c', hc', hs hclosing⟩

/-- A client that sends a request and leaves at once. -/
def leavingRun : List WorldEvent :=
  [.accept 5 (some 0), .conn 0 (.recv 16 true (some (0, (pingMessage 7).encode))),
    .conn 0 .handle, .conn 0 (.recv 0 false none), .conn 0 .handle]

/-- It is closing, and the send of its response is in flight. -/
theorem leavingRun_reaches :
    ∃ w c, Reaches (worldStep Env.plain 1) World.start leavingRun w ∧ w.conns[0]? = some c ∧
      c.session.closing = true ∧ c.sendsInFlight = 1 := by
  have hfacts : ((run (worldStep Env.plain 1) World.start leavingRun).bind
      fun w => w.conns[0]?).map (fun c => (c.session.closing, c.sendsInFlight)) =
        some (true, 1) := by
    decide +kernel
  obtain ⟨c, hwc, hcfacts⟩ := Option.map_eq_some_iff.mp hfacts
  obtain ⟨w, hw, hc⟩ := Option.bind_eq_some_iff.mp hwc
  obtain ⟨hclosing, hsends⟩ := Prod.ext_iff.mp hcfacts
  exact ⟨w, c, reaches_of_run hw, hc, hclosing, hsends⟩

/-- Its count of writes is one, and it sends nothing more whatever follows. -/
theorem session_lifetime_leaving :
    ∃ w c, Reaches (worldStep Env.plain 1) World.start leavingRun w ∧ w.conns[0]? = some c ∧
      c.sendsInFlight = 1 ∧ c.session.pendingWrites = 1 ∧
      ∀ es' w', Reaches (worldStep Env.plain 1) w es' w' →
        ∃ c', w'.conns[0]? = some c' ∧ c'.session.closing = true ∧ c'.submitted = c.submitted := by
  obtain ⟨w, c, hrun, hc, hclosing, hsends⟩ := leavingRun_reaches
  obtain ⟨hpending, -, -, -, -, -, hsilent⟩ := session_lifetime Env.plain 1 hrun hc
  rw [hsends] at hpending
  exact ⟨w, c, hrun, hc, hsends, hpending, hsilent hclosing⟩

end MachAudio
