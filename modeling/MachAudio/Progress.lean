import MachAudio.Buffers
import MachAudio.Lifetime

/-! # No session is deaf, and none is forgotten

The event loop only ever acts on a completion, so a session for which nothing is in flight is
never looked at again.  `Conn.Settled` is what every handler leaves behind: an open session
listens, and a closing one has given back all that its operations in flight allow.  In every
reachable state an open session therefore has its receive in flight, and a session is freed
exactly when it is closing and nothing is in flight for it (`session_settled`).

Once a session is closing, every completion brings its end nearer (`Conn.weight`), as long as the
kernel ends its receive and does not report an exhausted ring for it, which arms the receive again.
A run can go on until the session is freed and no longer (`closing_session_freed`). -/

namespace MachAudio

open Transition

variable {H Φ : Type} (E : Env H Φ)

/-! ### What the handlers leave behind -/

structure Conn.Settled (c : Conn H) : Prop where
  /-- An open session listens. -/
  listening : c.session.closing = false → c.session.recvActive = true
  /-- A closing session without sends has closed its socket. -/
  closed : c.session.closing = true → c.session.pendingWrites = 0 → c.session.clientFd = -1
  /-- If it does not receive any more either, it is freed. -/
  freed : c.session.closing = true → c.session.pendingWrites = 0 →
    c.session.recvActive = false → c.frees ≠ 0
  /-- Only closing sessions without sends are closed and freed. -/
  done : c.closes ≠ 0 ∨ c.frees ≠ 0 → c.session.closing = true ∧ c.session.pendingWrites = 0

theorem Conn.accept_settled (clientFd : ℤ) (addr : ℕ) (numWorkers : UInt32) :
    (Conn.accept clientFd addr numWorkers : Conn H).Settled where
  listening := fun _ => rfl
  closed := fun h => absurd (show false = true from h) Bool.false_ne_true
  freed := fun h => absurd (show false = true from h) Bool.false_ne_true
  done := by
    rintro (h | h) <;> exact absurd rfl h

theorem Session.closeFd_eq (s : Session H) :
    s.closeFd.clientFd = -1 ∧ s.closeFd.closing = s.closing ∧
      s.closeFd.pendingWrites = s.pendingWrites ∧ s.closeFd.recvActive = s.recvActive := by
  unfold Session.closeFd
  split_ifs with h
  · exact ⟨rfl, rfl, rfl, rfl⟩
  · exact ⟨by simpa using h, rfl, rfl, rfl⟩

/-- Cleanup settles a session, whatever came before it. -/
theorem Conn.cleanup_settled {c : Conn H}
    (hlisten : c.session.closing = false → c.session.recvActive = true)
    (hdone : c.closes ≠ 0 ∨ c.frees ≠ 0 →
      c.session.closing = true ∧ c.session.pendingWrites = 0) : c.cleanup.Settled := by
  obtain ⟨hfd, hcl, hpw, hra⟩ := c.session.closeFd_eq
  rw [Conn.cleanup_eq]
  by_cases hend : c.session.closing = true ∧ c.session.pendingWrites = 0
  · rw [if_pos hend]
    by_cases hact : c.session.recvActive = true
    · rw [if_pos hact]
      refine ⟨fun _ => hra.trans hact, fun _ _ => hfd, fun _ _ h => ?_, fun _ => ?_⟩
      · rw [hra, hact] at h
        cases h
      · exact ⟨hcl.trans hend.1, hpw.trans hend.2⟩
    · rw [if_neg hact]
      refine ⟨fun h => ?_, fun _ _ => hfd, fun _ _ _ => Nat.succ_ne_zero _, fun _ => ?_⟩
      · rw [hcl, hend.1] at h
        cases h
      · exact ⟨hcl.trans hend.1, hpw.trans hend.2⟩
  · rw [if_neg hend]
    exact ⟨hlisten, fun h₁ h₂ => absurd ⟨h₁, h₂⟩ hend, fun h₁ h₂ => absurd ⟨h₁, h₂⟩ hend, hdone⟩

theorem Conn.afterRead_settled {c : Conn H} {more : Bool} (hact : c.session.recvActive = more)
    (hdone : c.closes ≠ 0 ∨ c.frees ≠ 0 →
      c.session.closing = true ∧ c.session.pendingWrites = 0) : (c.afterRead more).Settled := by
  unfold Conn.afterRead
  cases hc : c.session.closing with
  | true =>
      rw [Bool.not_true, Bool.false_and, if_neg Bool.false_ne_true]
      dsimp only
      rw [if_pos hc]
      exact Conn.cleanup_settled (fun h => absurd (hc.symm.trans h) (by decide)) hdone
  | false =>
      have hzero : ¬(c.closes ≠ 0 ∨ c.frees ≠ 0) := fun h => by
        rw [hc] at hdone
        exact absurd (hdone h).1 (by decide)
      cases more with
      | true =>
          have hopen : ¬c.session.closing = true := by simp [hc]
          simp only [Bool.not_true, Bool.and_false, Bool.false_eq_true, if_false, if_neg hopen]
          exact ⟨fun _ => hact, fun h => absurd h hopen, fun h => absurd h hopen,
            fun h => absurd h hzero⟩
      | false =>
          have hopen : ¬c.rearm.session.closing = true := by simp [Conn.rearm, hc]
          simp only [Bool.not_false, Bool.and_self, if_true, if_neg hopen]
          exact ⟨fun _ => rfl, fun h => absurd h hopen, fun h => absurd h hopen,
            fun h => absurd h hzero⟩

theorem handleRecv_settled {c : Conn H} (hl : c.Lifetime) (h : c.Settled) {res : ℤ} {more : Bool}
    {buffer : Option (ℕ × List UInt8)} {cq : List Cqe}
    (hcq : c.cq = .recv res more buffer :: cq) :
    (handleRecv E { c with cq := cq } res more buffer).Settled := by
  obtain ⟨-, -, hact⟩ := hl.noteMore hcq
  obtain ⟨h₁, h₂, h₃, h₄, h₅⟩ : (Conn.noteMore { c with cq := cq } more).session.closing =
        c.session.closing ∧
      (Conn.noteMore { c with cq := cq } more).session.pendingWrites = c.session.pendingWrites ∧
      (Conn.noteMore { c with cq := cq } more).session.clientFd = c.session.clientFd ∧
      (Conn.noteMore { c with cq := cq } more).closes = c.closes ∧
      (Conn.noteMore { c with cq := cq } more).frees = c.frees := by
    unfold Conn.noteMore
    split_ifs <;> exact ⟨rfl, rfl, rfl, rfl, rfl⟩
  unfold handleRecv
  generalize Conn.noteMore { c with cq := cq } more = c₁ at hact h₁ h₂ h₃ h₄ h₅ ⊢
  have hdone : c₁.closes ≠ 0 ∨ c₁.frees ≠ 0 →
      c₁.session.closing = true ∧ c₁.session.pendingWrites = 0 := by
    rw [h₁, h₂, h₄, h₅]
    exact h.done
  split_ifs with hres hnobufs
  · refine ⟨fun _ => rfl, fun hc hp => h₃.trans (h.closed (h₁ ▸ hc) (h₂ ▸ hp)), ?_, hdone⟩
    exact fun _ _ hr => absurd (show false = true from hr.symm) Bool.false_ne_true
  · refine Conn.cleanup_settled (fun hopen => ?_) fun hd => ⟨rfl, (hdone hd).2⟩
    exact absurd (show false = true from hopen.symm) Bool.false_ne_true
  · cases buffer with
    | none => exact Conn.afterRead_settled hact hdone
    | some b =>
        have hcount := processClientRead_counters E c₁.session b.2
        refine Conn.afterRead_settled (c := c₁.read E b.2) (hcount.recvActive.trans hact) ?_
        intro hd
        obtain ⟨hclosing, hpending⟩ := hdone hd
        obtain ⟨hstays, hnone⟩ := hcount.closing hclosing
        refine ⟨hstays, ?_⟩
        show (processClientRead E c₁.session b.2).session.pendingWrites = 0
        rw [hcount.pendingWrites, hnone, hpending]
        rfl

theorem handleSend_settled {c : Conn H} (hl : c.Lifetime) (h : c.Settled) {wr : Slot} {res : ℤ}
    {cq : List Cqe} (hcq : c.cq = .send wr res :: cq) :
    (handleSend { c with cq := cq } wr res).Settled := by
  -- a send in flight: the session was neither closed nor freed
  have hpos : c.session.pendingWrites ≠ 0 := by
    rw [hl.pending, Conn.sendsInFlight, hcq, sendSlots, List.length_cons]
    omega
  have hzero : ¬(c.closes ≠ 0 ∨ c.frees ≠ 0) := fun hd => hpos (h.done hd).2
  unfold handleSend
  refine Conn.cleanup_settled (fun hopen => ?_) fun hd => absurd hd hzero
  dsimp only at hopen ⊢
  rw [freeWriteResponse_closing] at hopen
  rw [(freeWriteResponse_same _ wr).2.1]
  split_ifs at hopen ⊢
  exact h.listening hopen

/-- **Every step leaves a connection settled.** -/
theorem settled_step {c c' : Conn H} {e : ConnEvent} (hl : c.Lifetime) (h : c.Settled)
    (hs : c.step E e = some c') : c'.Settled := by
  cases Conn.step_move hs with
  | recv _ _ _ => exact ⟨h.listening, h.closed, h.freed, h.done⟩
  | complete _ _ => exact ⟨h.listening, h.closed, h.freed, h.done⟩
  | handleRecv hcq => exact handleRecv_settled E hl h hcq
  | handleSend hcq => exact handleSend_settled hl h hcq

theorem world_settled {numWorkers : UInt32} {w : World H} {es : List WorldEvent}
    (h : Reaches (worldStep E numWorkers) World.start es w) {i : ℕ} {c : Conn H}
    (hc : w.conns[i]? = some c) : c.Lifetime ∧ c.Settled :=
  World.conns_invariant (P := fun c => c.Lifetime ∧ c.Settled)
    (fun clientFd addr hfd => ⟨Conn.lifetime_accept hfd addr numWorkers,
      Conn.accept_settled clientFd addr numWorkers⟩)
    (fun _ _ _ hP hs => ⟨lifetime_step E hP.1 hs, settled_step E hP.1 hP.2 hs⟩) h c
    (List.mem_of_getElem? hc)

/-! ### Nothing is forgotten -/

theorem Conn.Lifetime.recvActive_iff {c : Conn H} (h : c.Lifetime) :
    c.session.recvActive = false ↔ c.recvsInFlight = 0 := by
  rw [h.recvsInFlight]
  cases c.session.recvActive <;> simp

/-- When a closing session is freed. -/
theorem Conn.Settled.frees_iff {c : Conn H} (h : c.Settled) (hl : c.Lifetime) :
    c.frees = 1 ↔
      c.session.closing = true ∧ c.sendsInFlight = 0 ∧ c.recvsInFlight = 0 := by
  constructor
  · intro hf
    rcases hl.live_or_freed with h0 | ⟨-, hs, hcq, ha⟩
    · omega
    · refine ⟨(h.done (.inr (by omega))).1, ?_, ?_⟩
      · simp [Conn.sendsInFlight, hs, hcq, sendSlots]
      · simp [Conn.recvsInFlight, ha, hcq, recvFlags]
  · rintro ⟨hc, hs, hr⟩
    have hp : c.session.pendingWrites = 0 := by
      rw [hl.pending, hs]
      rfl
    have hne := h.freed hc hp (hl.recvActive_iff.mpr hr)
    rcases hl.live_or_freed with h0 | ⟨h1, -⟩
    · exact absurd h0 hne
    · exact h1

/-- When its socket is closed. -/
theorem Conn.Settled.closes_iff {c : Conn H} (h : c.Settled) (hl : c.Lifetime) :
    c.closes = 1 ↔ c.session.closing = true ∧ c.sendsInFlight = 0 := by
  have hzero : c.session.pendingWrites = 0 ↔ c.sendsInFlight = 0 := by
    rw [hl.pending]
    exact Int.natCast_eq_zero
  constructor
  · intro hc
    obtain ⟨h₁, h₂⟩ := h.done (.inl (by omega))
    exact ⟨h₁, hzero.mp h₂⟩
  · rintro ⟨h₁, h₂⟩
    have hfd := h.closed h₁ (hzero.mpr h₂)
    rcases hl.open_or_closed with ⟨-, hopen⟩ | ⟨h1, -⟩
    · exact absurd hfd hopen
    · exact h1

/-- **No session is deaf, and none is forgotten.**  In every state of the event loop an open
session has exactly one receive in flight, a socket is closed exactly when its session is closing
and no send is in flight, and a session is freed exactly when it is closing and nothing is in
flight for it; so a session that was not freed is waited for. -/
theorem session_settled {numWorkers : UInt32} {w : World H} {es : List WorldEvent}
    (h : Reaches (worldStep E numWorkers) World.start es w) {i : ℕ} {c : Conn H}
    (hc : w.conns[i]? = some c) :
    (c.session.closing = false → c.recvsInFlight = 1) ∧
      (c.closes = 1 ↔ c.session.closing = true ∧ c.sendsInFlight = 0) ∧
      (c.frees = 1 ↔ c.session.closing = true ∧ c.sendsInFlight = 0 ∧ c.recvsInFlight = 0) ∧
      (c.frees = 0 → 1 ≤ c.sendsInFlight + c.recvsInFlight) := by
  obtain ⟨hl, hset⟩ := world_settled E h hc
  have hopen : c.session.closing = false → c.recvsInFlight = 1 := fun ho => by
    rw [hl.recvsInFlight, hset.listening ho]
    rfl
  refine ⟨hopen, hset.closes_iff hl, hset.frees_iff hl, fun hf => ?_⟩
  have hiff := hset.frees_iff hl
  cases hcl : c.session.closing with
  | false =>
      have := hopen hcl
      omega
  | true =>
      by_contra hnone
      have := hiff.mpr ⟨hcl, by omega, by omega⟩
      omega

/-- A client that has left while a send is in flight: its socket is open and its session there. -/
theorem session_settled_leaving :
    ∃ w c, Reaches (worldStep Env.plain 1) World.start leavingRun w ∧ w.conns[0]? = some c ∧
      c.session.closing = true ∧ c.sendsInFlight = 1 ∧ c.closes ≠ 1 ∧ c.frees ≠ 1 := by
  obtain ⟨w, c, hrun, hc, hclosing, hsends⟩ := leavingRun_reaches
  obtain ⟨-, hcloses, hfrees, -⟩ := session_settled Env.plain hrun hc
  refine ⟨w, c, hrun, hc, hclosing, hsends, fun h => ?_, fun h => ?_⟩
  · have := (hcloses.mp h).2
    omega
  · have := (hfrees.mp h).2.1
    omega

/-! ### The end of a closing session -/

/-- Completions still to come and to be handled: an operation in the kernel counts for both. -/
def Conn.weight (c : Conn H) : ℕ := 2 * c.armed + 2 * c.sends.length + c.cq.length

/-- A completion of a receive is its last one, and the ring was not exhausted. -/
def FinalReceive (_ : Conn H) : ConnEvent → Prop
  | .recv res more _ => more = false ∧ res ≠ enobufs
  | _ => True

instance (c : Conn H) : (e : ConnEvent) → Decidable (FinalReceive c e)
  | .recv res more _ =>
      @instDecidableAnd _ _ (instDecidableEqBool more false)
        (@instDecidableNot _ (Int.instDecidableEq res enobufs))
  | .complete _ _ => .isTrue trivial
  | .handle => .isTrue trivial

/-- No completion to be handled reports an exhausted ring. -/
def CqServed (cq : List Cqe) : Prop := ∀ res more buffer, .recv res more buffer ∈ cq → res ≠ enobufs

theorem Conn.cleanup_armed (c : Conn H) : c.cleanup.armed = c.armed := by
  rw [Conn.cleanup_eq]
  split_ifs <;> rfl

/-- Handling a completion of a closing session arms nothing and sends nothing. -/
theorem handleRecv_closing {c : Conn H} (hc : c.session.closing = true) {res : ℤ}
    (hres : res ≠ enobufs) (more : Bool) (buffer : Option (ℕ × List UInt8)) :
    (handleRecv E c res more buffer).session.closing = true ∧
      (handleRecv E c res more buffer).armed = c.armed ∧
      (handleRecv E c res more buffer).sends = c.sends := by
  obtain ⟨h₁, h₂, h₃⟩ : (c.noteMore more).session.closing = true ∧
      (c.noteMore more).armed = c.armed ∧ (c.noteMore more).sends = c.sends := by
    unfold Conn.noteMore
    split_ifs <;> exact ⟨hc, rfl, rfl⟩
  unfold handleRecv
  generalize c.noteMore more = c₁ at h₁ h₂ h₃ ⊢
  have hclean : ∀ c₂ : Conn H, c₂.session.closing = true → c₂.armed = c.armed →
      c₂.sends = c.sends → c₂.cleanup.session.closing = true ∧ c₂.cleanup.armed = c.armed ∧
        c₂.cleanup.sends = c.sends := by
    intro c₂ hc₂ ha hs
    have hcl := c₂.cleanup_cleanedUp
    exact ⟨hcl.closing.trans hc₂, c₂.cleanup_armed.trans ha, hcl.sends.trans hs⟩
  dsimp only
  rw [if_neg hres]
  split_ifs
  · exact hclean c₁.markClosing rfl h₂ h₃
  · have hread : (c₁.readBuffer E buffer).session.closing = true ∧
        (c₁.readBuffer E buffer).armed = c.armed ∧ (c₁.readBuffer E buffer).sends = c.sends := by
      cases buffer with
      | none => exact ⟨h₁, h₂, h₃⟩
      | some b =>
          obtain ⟨hstays, hnone⟩ := (processClientRead_counters E c₁.session b.2).closing h₁
          refine ⟨hstays, h₂, ?_⟩
          show c₁.sends ++ (processClientRead E c₁.session b.2).sends = c.sends
          rw [hnone, List.append_nil, h₃]
    obtain ⟨hr₁, hr₂, hr₃⟩ := hread
    generalize c₁.readBuffer E buffer = c₂ at hr₁ hr₂ hr₃ ⊢
    unfold Conn.afterRead
    rw [hr₁, Bool.not_true, Bool.false_and, if_neg Bool.false_ne_true]
    dsimp only
    rw [if_pos hr₁]
    exact hclean c₂ hr₁ hr₂ hr₃

/-- A closing session on its way to its end. -/
structure Conn.Ending (c : Conn H) : Prop where
  lifetime : c.Lifetime
  settled : c.Settled
  closing : c.session.closing = true
  served : CqServed c.cq

/-- **Every step of a closing session takes weight off it.** -/
theorem ending_step {c c' : Conn H} {e : ConnEvent} (h : c.Ending) (hf : FinalReceive c e)
    (hs : c.step E e = some c') : c'.Ending ∧ c'.weight + 1 ≤ c.weight := by
  have hl' := lifetime_step E h.lifetime hs
  have hset' := settled_step E h.lifetime h.settled hs
  have hcl' := (silent_step E hs h.closing).1
  cases Conn.step_move hs with
  | @recv res more buffer ha hmore hfits =>
      obtain ⟨rfl, hres⟩ := hf
      refine ⟨⟨hl', hset', hcl', ?_⟩, ?_⟩
      · intro res' more' buffer' hmem
        rcases List.mem_append.mp hmem with hmem | hmem
        · exact h.served res' more' buffer' hmem
        · obtain ⟨rfl, -, -⟩ := Cqe.recv.inj (List.mem_singleton.mp hmem)
          exact hres
      · simp only [Conn.weight, Bool.false_eq_true, if_false, List.length_append,
          List.length_singleton]
        omega
  | @complete i res send hi hle =>
      have hlt : i < c.sends.length := (List.getElem?_eq_some_iff.mp hi).1
      refine ⟨⟨hl', hset', hcl', ?_⟩, ?_⟩
      · intro res' more' buffer' hmem
        rcases List.mem_append.mp hmem with hmem | hmem
        · exact h.served res' more' buffer' hmem
        · cases List.mem_singleton.mp hmem
      · simp only [Conn.weight, List.length_append, List.length_singleton, List.length_eraseIdx,
          if_pos hlt]
        omega
  | @handleRecv res more buffer cq hcq =>
      have hres : res ≠ enobufs := h.served res more buffer (hcq ▸ List.mem_cons_self)
      obtain ⟨-, ha, hsends⟩ :=
        handleRecv_closing E (c := { c with cq := cq }) h.closing hres more buffer
      have hrest := handleRecv_cq E { c with cq := cq } res more buffer
      refine ⟨⟨hl', hset', hcl', ?_⟩, ?_⟩
      · rw [hrest]
        exact fun res more buffer hmem => h.served res more buffer
          (hcq ▸ List.mem_cons_of_mem _ hmem)
      · simp only [Conn.weight, ha, hsends, hrest, hcq, List.length_cons]
        omega
  | @handleSend wr res cq hcq =>
      have hrest := handleSend_cq { c with cq := cq } wr res
      have ha : (handleSend { c with cq := cq } wr res).armed = c.armed := by
        unfold handleSend
        exact Conn.cleanup_armed _
      have hsends : (handleSend { c with cq := cq } wr res).sends = c.sends := by
        unfold handleSend
        exact (Conn.cleanup_cleanedUp _).sends
      refine ⟨⟨hl', hset', hcl', ?_⟩, ?_⟩
      · rw [hrest]
        exact fun res more buffer hmem => h.served res more buffer
          (hcq ▸ List.mem_cons_of_mem _ hmem)
      · simp only [Conn.weight, ha, hsends, hrest, hcq, List.length_cons]
        omega

/-- As long as the session is not freed, something can happen to it. -/
theorem Conn.Ending.progress {c : Conn H} (h : c.Ending) (hlive : c.frees = 0) :
    ∃ e, FinalReceive c e ∧ ∃ c', c.step E e = some c' := by
  cases hcq : c.cq with
  | cons e cq =>
      refine ⟨.handle, trivial, Option.isSome_iff_exists.mp ?_⟩
      cases e with
      | recv res more buffer => simp [Conn.step, connStep, hcq]
      | send wr res => simp [Conn.step, connStep, hcq]
  | nil =>
      cases hsends : c.sends with
      | cons send sends =>
          have hget : c.sends[0]? = some send := by rw [hsends]; rfl
          have hle : (0 : ℤ) ≤ send.response.respLen := Int.natCast_nonneg _
          refine ⟨.complete 0 0, trivial, Option.isSome_iff_exists.mp ?_⟩
          simp [Conn.step, connStep, hget, hle]
      | nil =>
          have harmed : 1 ≤ c.armed := by
            by_contra ha
            have hend := (h.settled.frees_iff h.lifetime).mpr ⟨h.closing, by
              simp [Conn.sendsInFlight, hsends, hcq, sendSlots], by
              simp [Conn.recvsInFlight, hcq, recvFlags]
              omega⟩
            omega
          have hfits : BufferFits 0 none := fun b hb => absurd hb (Option.not_mem_none b)
          refine ⟨.recv 0 false none, ⟨rfl, by decide⟩, Option.isSome_iff_exists.mp ?_⟩
          simp [Conn.step, connStep, harmed, hfits]

/-- **A closing session is freed.**  From every state of the event loop in which a session is
closing, and whatever order its completions come in: its runs are no longer than its weight, one
that has not freed it can go on, and when nothing is left it has been freed. -/
theorem closing_session_freed {numWorkers : UInt32} {w : World H} {es : List WorldEvent}
    (h : Reaches (worldStep E numWorkers) World.start es w) {i : ℕ} {c : Conn H}
    (hc : w.conns[i]? = some c) (hclosing : c.session.closing = true) (hcq : CqServed c.cq)
    {es' : List ConnEvent} {c' : Conn H} (hrun : Runs (Conn.step E) FinalReceive c es' c') :
    es'.length + c'.weight ≤ c.weight ∧ (c'.weight = 0 → c'.frees = 1) ∧
      (c'.frees = 0 → ∃ e, FinalReceive c' e ∧ ∃ c'', c'.step E e = some c'') := by
  obtain ⟨hl, hset⟩ := world_settled E h hc
  obtain ⟨hend, hlen⟩ := hrun.history
    (I := fun es' c' => c'.Ending ∧ es'.length + c'.weight ≤ c.weight)
    ⟨⟨hl, hset, hclosing, hcq⟩, by simp⟩ fun es₁ c₁ e c₂ ⟨hend, hle⟩ hf hs => by
      obtain ⟨hend', hdrop⟩ := ending_step E hend hf hs
      refine ⟨hend', ?_⟩
      rw [List.length_append, List.length_singleton]
      omega
  refine ⟨hlen, fun hzero => ?_, fun hlive => hend.progress E hlive⟩
  rcases hend.lifetime.live_or_freed with hlive | ⟨hfreed, -⟩
  · obtain ⟨e, hf, c'', hs⟩ := hend.progress E hlive
    have := (ending_step E hend hf hs).2
    omega
  · exact hfreed

/-- The send of its response, and the completion of the send, remain. -/
theorem closing_session_freed_leaving :
    ∃ w c c', Reaches (worldStep Env.plain 1) World.start leavingRun w ∧ w.conns[0]? = some c ∧
      Runs (Conn.step Env.plain) FinalReceive c [.complete 0 16, .handle] c' ∧ c'.frees = 1 := by
  obtain ⟨w, hw⟩ : ∃ w, run (worldStep Env.plain 1) World.start leavingRun = some w :=
    Option.isSome_iff_exists.mp (by decide +kernel)
  obtain ⟨c, hc⟩ : ∃ c, w.conns[0]? = some c := by
    have h : ((run (worldStep Env.plain 1) World.start leavingRun).bind
        fun w => w.conns[0]?).isSome := by decide +kernel
    rw [hw] at h
    exact Option.isSome_iff_exists.mp h
  have hfacts : ((run (worldStep Env.plain 1) World.start leavingRun).bind
      fun w => w.conns[0]?).map (fun c => (c.session.closing, c.cq)) = some (true, []) := by
    decide +kernel
  have hend : (((run (worldStep Env.plain 1) World.start leavingRun).bind
      fun w => w.conns[0]?).bind fun c =>
        run (fun c e => if FinalReceive c e then Conn.step Env.plain c e else none) c
          [.complete 0 16, .handle]).map Conn.weight = some 0 := by
    decide +kernel
  rw [hw, Option.bind_some, hc] at hfacts hend
  obtain ⟨hclosing, hcq⟩ : c.session.closing = true ∧ c.cq = [] := by simpa using hfacts
  obtain ⟨c', hruns, hweight⟩ := Option.map_eq_some_iff.mp hend
  refine ⟨w, c, c', reaches_of_run hw, hc, runs_of_run hruns, ?_⟩
  exact (closing_session_freed Env.plain (reaches_of_run hw) hc hclosing
    (by rw [hcq]; exact fun _ _ _ h => absurd h List.not_mem_nil) (runs_of_run hruns)).2.1 hweight

end MachAudio
