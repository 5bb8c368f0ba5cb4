import MachAudio.Server
import MachAudio.Lib.Transition

/-! # The event loop

The loop of `mach_server_start`.  A connection is a session together with what the kernel
holds for it: armed multishot receives, sends not yet completed, and completions posted but
not handled.  The kernel posts a completion of a receive (`recv`) or completes a send
(`complete`); the server handles the oldest completion of a connection (`handle`).  `World`
is all connections, the receive buffers the ring owns, and the accept.

What is assumed of the kernel are the guards of `connStep` and `worldStep`: only an armed
receive completes, one with `res ≤ 0` without `IORING_CQE_F_MORE`, a positive `res` counts
the bytes of the buffer; a send is completed once, with at most the bytes submitted, and
that many leading bytes of its record go to the peer; a buffer is given out only while the
ring owns it.  The sends of a connection may complete in any order, and the completions of
different connections may be handled in any order. -/

namespace MachAudio

variable {H Φ : Type}

/-! ### Connections -/

/-- A completion.  A receive carries the number and the first `res` bytes of the buffer the
kernel chose, if it chose one; a send carries its record. -/
inductive Cqe where
  | recv (res : ℤ) (more : Bool) (buffer : Option (ℕ × List UInt8))
  | send (wr : Slot) (res : ℤ)
deriving DecidableEq, Repr

structure Conn (H : Type) where
  session : Session H
  /-- Armed multishot receives. -/
  armed : ℕ
  /-- Sends the kernel has not completed, oldest first. -/
  sends : List Submission
  /-- Completions the server has not handled, oldest first. -/
  cq : List Cqe
  /-- How often the socket was closed. -/
  closes : ℕ
  /-- How often the session was freed. -/
  frees : ℕ
  /-- The bytes of the receives handled so far. -/
  arrived : List UInt8
  /-- The messages dispatched so far. -/
  dispatched : List Message
  /-- The sends handed to the kernel so far. -/
  submitted : List Submission
  /-- The bytes the peer has been given. -/
  received : List UInt8

/-- `IO_OP_ACCEPT` with a new socket. -/
def Conn.accept (clientFd : ℤ) (addr : ℕ) (numWorkers : UInt32) : Conn H where
  session := acceptSession clientFd addr numWorkers
  armed := 1
  sends := []
  cq := []
  closes := 0
  frees := 0
  arrived := []
  dispatched := []
  submitted := []
  received := []

/-- `-ENOBUFS`. -/
def enobufs : ℤ := -105

/-- `io_uring_prep_recv_multishot` on the session's socket. -/
def Conn.rearm (c : Conn H) : Conn H :=
  { c with session := { c.session with recvActive := true }, armed := c.armed + 1 }

/-- `cleanup_session_if_needed`, with the close and the free counted. -/
def Conn.cleanup (c : Conn H) : Conn H :=
  let r := cleanupSessionIfNeeded c.session
  { c with
    session := r.1
    closes := c.closes + r.2.1.toNat
    frees := c.frees + r.2.2.toNat }

/-- `session->closing = true`. -/
def Conn.markClosing (c : Conn H) : Conn H :=
  { c with session := { c.session with closing := true } }

/-- The call of `process_client_read`, with what it did recorded. -/
def Conn.read (E : Env H Φ) (c : Conn H) (bytes : List UInt8) : Conn H :=
  let r := processClientRead E c.session bytes
  { c with
    session := r.session
    sends := c.sends ++ r.sends
    arrived := c.arrived ++ bytes
    dispatched := c.dispatched ++ r.dispatched
    submitted := c.submitted ++ r.sends }

/-- Without `IORING_CQE_F_MORE` the receive is over. -/
def Conn.noteMore (c : Conn H) (more : Bool) : Conn H :=
  if more then c else { c with session := { c.session with recvActive := false } }

/-- The data of a successful receive, when the kernel chose a buffer. -/
def Conn.readBuffer (E : Env H Φ) (c : Conn H) : Option (ℕ × List UInt8) → Conn H
  | some (_, bytes) => c.read E bytes
  | none => c

/-- The end of a successful receive: arm the next one, or clean up. -/
def Conn.afterRead (c : Conn H) (more : Bool) : Conn H :=
  let c := if !c.session.closing && !more then c.rearm else c
  if c.session.closing then c.cleanup else c

/-- `IO_OP_READ`. -/
def handleRecv (E : Env H Φ) (c : Conn H) (res : ℤ) (more : Bool)
    (buffer : Option (ℕ × List UInt8)) : Conn H :=
  let c := c.noteMore more
  if res ≤ 0 then
    if res = enobufs then c.rearm else c.markClosing.cleanup
  else (c.readBuffer E buffer).afterRead more

/-- The number of the buffer of a completion, which every path gives back to the ring. -/
def returnedBuffer (buffer : Option (ℕ × List UInt8)) : List ℕ := (buffer.map Prod.fst).toList

/-- `IO_OP_WRITE`. -/
def handleSend (c : Conn H) (wr : Slot) (res : ℤ) : Conn H :=
  let s := { c.session with pendingWrites := c.session.pendingWrites - 1 }
  let s := if res < 0 then { s with closing := true } else s
  Conn.cleanup { c with session := freeWriteResponse s wr }

inductive ConnEvent where
  /-- The kernel posts a completion of an armed receive. -/
  | recv (res : ℤ) (more : Bool) (buffer : Option (ℕ × List UInt8))
  /-- The kernel completes the `i`-th of the sends it holds. -/
  | complete (i : ℕ) (res : ℤ)
  /-- The server handles the oldest completion. -/
  | handle
deriving DecidableEq, Repr

/-- The bytes of a receive are as many as its result says, and no more than a buffer holds. -/
def BufferFits (res : ℤ) (buffer : Option (ℕ × List UInt8)) : Prop :=
  ∀ b ∈ buffer, b.2.length = res.toNat ∧ res ≤ bufSize

instance (res : ℤ) (buffer : Option (ℕ × List UInt8)) : Decidable (BufferFits res buffer) :=
  inferInstanceAs (Decidable (∀ b ∈ buffer, _))

/-- The leading bytes of a record that a send with result `res` has delivered. -/
def Conn.delivered (c : Conn H) (wr : Slot) (res : ℤ) : List UInt8 :=
  match c.session.deref wr with
  | none => []
  | some r => r.data.take res.toNat

/-- A step of a connection, with the numbers of the buffers given back to the ring. -/
def connStep (E : Env H Φ) (c : Conn H) : ConnEvent → Option (Conn H × List ℕ)
  | .recv res more buffer =>
      if 1 ≤ c.armed ∧ (res ≤ 0 → more = false) ∧ BufferFits res buffer then
        some ({ c with
          armed := if more then c.armed else c.armed - 1
          cq := c.cq ++ [.recv res more buffer] }, [])
      else none
  | .complete i res =>
      match c.sends[i]? with
      | none => none
      | some send =>
          if res ≤ send.response.respLen then
            some ({ c with
              sends := c.sends.eraseIdx i
              cq := c.cq ++ [.send send.wr res]
              received := c.received ++ c.delivered send.wr res }, [])
          else none
  | .handle =>
      match c.cq with
      | [] => none
      | .recv res more buffer :: cq =>
          some (handleRecv E { c with cq := cq } res more buffer, returnedBuffer buffer)
      | .send wr res :: cq => some (handleSend { c with cq := cq } wr res, [])

/-- A step of a connection on its own. -/
def Conn.step (E : Env H Φ) (c : Conn H) (e : ConnEvent) : Option (Conn H) :=
  (connStep E c e).map Prod.fst

/-- What a step of a connection can be. -/
inductive ConnMove (E : Env H Φ) (c : Conn H) : ConnEvent → Conn H → Prop
  | recv {res : ℤ} {more : Bool} {buffer : Option (ℕ × List UInt8)} :
      1 ≤ c.armed → (res ≤ 0 → more = false) → BufferFits res buffer →
      ConnMove E c (.recv res more buffer)
        { c with
          armed := if more then c.armed else c.armed - 1
          cq := c.cq ++ [.recv res more buffer] }
  | complete {i : ℕ} {res : ℤ} {send : Submission} :
      c.sends[i]? = some send → res ≤ send.response.respLen →
      ConnMove E c (.complete i res)
        { c with
          sends := c.sends.eraseIdx i
          cq := c.cq ++ [.send send.wr res]
          received := c.received ++ c.delivered send.wr res }
  | handleRecv {res : ℤ} {more : Bool} {buffer : Option (ℕ × List UInt8)} {cq : List Cqe} :
      c.cq = .recv res more buffer :: cq →
      ConnMove E c .handle (handleRecv E { c with cq := cq } res more buffer)
  | handleSend {wr : Slot} {res : ℤ} {cq : List Cqe} :
      c.cq = .send wr res :: cq → ConnMove E c .handle (handleSend { c with cq := cq } wr res)

theorem Conn.step_move {E : Env H Φ} {c c' : Conn H} {e : ConnEvent} (h : c.step E e = some c') :
    ConnMove E c e c' := by
  rw [Conn.step, Option.map_eq_some_iff] at h
  obtain ⟨r, hr, rfl⟩ := h
  cases e with
  | recv res more buffer =>
      by_cases hk : 1 ≤ c.armed ∧ (res ≤ 0 → more = false) ∧ BufferFits res buffer
      · rw [connStep, if_pos hk] at hr
        obtain rfl := Option.some.inj hr
        exact .recv hk.1 hk.2.1 hk.2.2
      · rw [connStep, if_neg hk] at hr
        cases hr
  | complete i res =>
      cases hi : c.sends[i]? with
      | none =>
          simp only [connStep, hi] at hr
          cases hr
      | some send =>
          by_cases hk : res ≤ send.response.respLen
          · simp only [connStep, hi, if_pos hk] at hr
            obtain rfl := Option.some.inj hr
            exact .complete hi hk
          · simp only [connStep, hi, if_neg hk] at hr
            cases hr
  | handle =>
      cases hcq : c.cq with
      | nil =>
          simp only [connStep, hcq] at hr
          cases hr
      | cons e cq =>
          cases e with
          | recv res more buffer =>
              simp only [connStep, hcq] at hr
              obtain rfl := Option.some.inj hr
              exact .handleRecv hcq
          | send wr res =>
              simp only [connStep, hcq] at hr
              obtain rfl := Option.some.inj hr
              exact .handleSend hcq

/-! ### All connections -/

structure World (H : Type) where
  /-- Every session ever accepted. -/
  conns : List (Conn H)
  /-- The buffers the ring owns. -/
  ring : List ℕ
  running : Bool
  acceptArmed : Bool

/-- The state in which the loop starts. -/
def World.start : World H := ⟨[], List.range numBuffers, true, true⟩

inductive WorldEvent where
  /-- A completed accept, and whether and where the session was allocated. -/
  | accept (res : ℤ) (addr : Option ℕ)
  /-- A signal or a failed read of the signal descriptor: `mach_server_stop`. -/
  | signal
  | conn (i : ℕ) (e : ConnEvent)
deriving DecidableEq, Repr

/-- The buffer number a kernel step takes from the ring. -/
def ConnEvent.takes : ConnEvent → Option ℕ
  | recv _ _ buffer => buffer.map Prod.fst
  | _ => none

def worldStep (E : Env H Φ) (numWorkers : UInt32) (w : World H) : WorldEvent → Option (World H)
  | .accept res addr =>
      if w.acceptArmed then
        let conns := match addr with
          | some addr =>
              if res < 0 then w.conns else w.conns ++ [Conn.accept res addr numWorkers]
          | none => w.conns
        some { w with conns := conns, acceptArmed := w.running }
      else none
  | .signal => some { w with running := false }
  | .conn i e =>
      match w.conns[i]? with
      | none => none
      | some c =>
          if ∀ b ∈ e.takes, b ∈ w.ring then
            (connStep E c e).map fun r =>
              { w with
                conns := w.conns.set i r.1
                ring := (e.takes.elim w.ring w.ring.erase) ++ r.2 }
          else none

/-! ### From connections to the world -/

section lift
variable {E : Env H Φ} {numWorkers : UInt32}

/-- A step of the world is an accept, or a step of one connection, or touches none. -/
theorem worldStep_conns {w w' : World H} {e : WorldEvent}
    (h : worldStep E numWorkers w e = some w') :
    w'.conns = w.conns ∨
      (∃ res addr, 0 ≤ res ∧ w'.conns = w.conns ++ [Conn.accept res addr numWorkers]) ∨
      ∃ i c c' e, w.conns[i]? = some c ∧ c.step E e = some c' ∧ w'.conns = w.conns.set i c' := by
  cases e with
  | accept res addr =>
      cases ha : w.acceptArmed with
      | false => simp [worldStep, ha] at h
      | true =>
          cases addr with
          | none =>
              simp only [worldStep, ha, if_true, Option.some.injEq] at h
              exact .inl (h ▸ rfl)
          | some addr =>
              by_cases hres : res < 0
              · simp only [worldStep, ha, if_true, if_pos hres, Option.some.injEq] at h
                exact .inl (h ▸ rfl)
              · simp only [worldStep, ha, if_true, if_neg hres, Option.some.injEq] at h
                exact .inr (.inl ⟨res, addr, by omega, h ▸ rfl⟩)
  | signal =>
      simp only [worldStep, Option.some.injEq] at h
      exact .inl (h ▸ rfl)
  | conn i e =>
      cases hc : w.conns[i]? with
      | none => simp [worldStep, hc] at h
      | some c =>
          by_cases hr : ∀ b ∈ e.takes, b ∈ w.ring
          · simp only [worldStep, hc, if_pos hr, Option.map_eq_some_iff] at h
            obtain ⟨r, hr', rfl⟩ := h
            exact .inr (.inr ⟨i, c, r.1, e, hc, by rw [Conn.step, hr']; rfl, rfl⟩)
          · simp only [worldStep, hc, if_neg hr] at h
            cases h

/-- An invariant of connections holds of every connection of the world. -/
theorem World.conns_invariant {P : Conn H → Prop}
    (haccept : ∀ clientFd addr, 0 ≤ clientFd → P (Conn.accept clientFd addr numWorkers))
    (hstep : ∀ c e c', P c → c.step E e = some c' → P c') {w : World H} {es : List WorldEvent}
    (h : Transition.Reaches (worldStep E numWorkers) World.start es w) : ∀ c ∈ w.conns, P c := by
  refine h.invariant (I := fun w => ∀ c ∈ w.conns, P c) (fun c hc => absurd hc List.not_mem_nil)
    fun w e w' ih _ hs => ?_
  rcases worldStep_conns hs with hw | ⟨res, addr, hres, hw⟩ | ⟨i, c, c', e, hi, hcs, hw⟩
  · rw [hw]
    exact ih
  · rw [hw]
    intro c hc
    rcases List.mem_append.mp hc with hc | hc
    · exact ih c hc
    · rw [List.mem_singleton.mp hc]
      exact haccept res addr hres
  · rw [hw]
    intro c₁ hc₁
    rcases List.mem_or_eq_of_mem_set hc₁ with hc₁ | rfl
    · exact ih c₁ hc₁
    · exact hstep c e c₁ (ih c (List.mem_of_getElem? hi)) hcs

/-- A relation kept by the steps of a connection relates a connection of the world to what
it becomes. -/
theorem World.conns_relation {R : Conn H → Conn H → Prop} (hrefl : ∀ c, R c c)
    (htrans : ∀ a b c, R a b → R b c → R a c)
    (hstep : ∀ c e c', c.step E e = some c' → R c c') {w w' : World H} {es : List WorldEvent}
    (h : Transition.Reaches (worldStep E numWorkers) w es w') {i : ℕ} {c : Conn H}
    (hc : w.conns[i]? = some c) : ∃ c', w'.conns[i]? = some c' ∧ R c c' := by
  refine h.invariant (I := fun w' => ∃ c', w'.conns[i]? = some c' ∧ R c c') ⟨c, hc, hrefl c⟩
    fun w₁ e w₂ ⟨c₁, hc₁, hR⟩ _ hs => ?_
  rcases worldStep_conns hs with hw | ⟨res, addr, hres, hw⟩ | ⟨j, d, d', e, hj, hds, hw⟩
  · rw [hw]
    exact ⟨c₁, hc₁, hR⟩
  · rw [hw, List.getElem?_append_left (List.getElem?_eq_some_iff.mp hc₁).1]
    exact ⟨c₁, hc₁, hR⟩
  · rw [hw]
    by_cases hij : j = i
    · subst hij
      rw [hc₁] at hj
      obtain rfl := Option.some.inj hj
      have hlt := (List.getElem?_eq_some_iff.mp hc₁).1
      exact ⟨d', by rw [List.getElem?_set_self hlt], htrans _ _ _ hR (hstep _ _ _ hds)⟩
    · rw [List.getElem?_set_ne hij]
      exact ⟨c₁, hc₁, hR⟩

end lift

end MachAudio
