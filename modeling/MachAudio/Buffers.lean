import Mathlib.Data.List.Perm.Basic
import Mathlib.Data.Set.Function
import MachAudio.Delivery

/-! # The receive buffers and the write records are conserved

The first part follows a receive buffer through the source: `init_registered_buffer_ring` puts
every buffer into the ring, and each path of `IO_OP_READ` and of `process_client_read` puts the
buffer of its completion back, once.  `handleRecvRing_eq` says that these paths agree with the
event loop, where `returnedBuffer` stands for all of them.

The second part is the invariant of whole runs: the ring and the completions not yet handled
hold every buffer exactly once, and the records in use are those of the sends in flight. -/

namespace MachAudio

open Transition

variable {H Φ : Type} (E : Env H Φ)

/-! ### The ring in the source -/

/-- `io_uring_buf_ring_add` behind the tail and `io_uring_buf_ring_advance` by one. -/
def bufRingReturn (ring : List ℕ) (bid : ℕ) : List ℕ := ring ++ [bid]

/-- `init_registered_buffer_ring`: the loop adds the buffers one after another. -/
def initRegisteredBufferRing (n : ℕ) : List ℕ :=
  (List.range n).foldl (fun ring i => ring ++ [i]) []

/-- `process_client_read` with the ring: the overflow check goes to `return_buffer`, and so does
the end of the function. -/
def processClientReadRing (s : Session H) (bytes : List UInt8) (bid : ℕ) (ring : List ℕ) :
    Served H × List ℕ :=
  if s.assembleLen + bytes.length > sizeofAssembleBuf then
    (⟨{ s with closing := true }, [], []⟩, bufRingReturn ring bid)
  else
    let s :=
      { s with
        assembleBuf := s.assembleBuf.store s.assembleLen bytes
        assembleLen := s.assembleLen + bytes.length }
    let r := dispatchLoop E (s.assembleLen + 1) s 0
    ({ r.1 with session := compact r.1.session r.2 }, bufRingReturn ring bid)

/-- `IO_OP_READ` with the ring. -/
def handleRecvRing (c : Conn H) (res : ℤ) (more : Bool) (buffer : Option (ℕ × List UInt8))
    (ring : List ℕ) : Conn H × List ℕ :=
  let c := c.noteMore more
  if res ≤ 0 then
    let ring := match buffer with
      | some (bid, _) => bufRingReturn ring bid
      | none => ring
    if res = enobufs then (c.rearm, ring) else (c.markClosing.cleanup, ring)
  else
    match buffer with
    | some (bid, bytes) =>
        let r := processClientReadRing E c.session bytes bid ring
        let c :=
          { c with
            session := r.1.session
            sends := c.sends ++ r.1.sends
            arrived := c.arrived ++ bytes
            dispatched := c.dispatched ++ r.1.dispatched
            submitted := c.submitted ++ r.1.sends }
        (c.afterRead more, r.2)
    | none => (c.afterRead more, ring)

theorem initRegisteredBufferRing_eq (n : ℕ) : initRegisteredBufferRing n = List.range n := by
  induction n with
  | zero => rfl
  | succ n ih =>
      rw [initRegisteredBufferRing, List.range_succ, List.foldl_append, ← initRegisteredBufferRing,
        ih]
      rfl

theorem processClientReadRing_eq (s : Session H) (bytes : List UInt8) (bid : ℕ) (ring : List ℕ) :
    processClientReadRing E s bytes bid ring = (processClientRead E s bytes, ring ++ [bid]) := by
  unfold processClientReadRing processClientRead bufRingReturn
  split_ifs
  · rfl
  · rfl

/-- Every path of a receive gives the buffer of its completion back, once. -/
theorem handleRecvRing_eq (c : Conn H) (res : ℤ) (more : Bool)
    (buffer : Option (ℕ × List UInt8)) (ring : List ℕ) :
    handleRecvRing E c res more buffer ring =
      (handleRecv E c res more buffer, ring ++ returnedBuffer buffer) := by
  unfold handleRecvRing handleRecv
  cases buffer with
  | none =>
      simp only [returnedBuffer, Option.map_none, Option.toList_none, List.append_nil]
      split_ifs
      · rfl
      · rfl
      · rfl
  | some b =>
      obtain ⟨bid, bytes⟩ := b
      simp only [processClientReadRing_eq, returnedBuffer, Option.map_some, Option.toList_some]
      split_ifs
      · rfl
      · rfl
      · rfl

/-! ### Where the buffers are -/

/-- The buffer a completion holds until it is handled. -/
def Cqe.buffers : Cqe → List ℕ
  | recv _ _ buffer => returnedBuffer buffer
  | send _ _ => []

/-- The buffers attached to the completions of a connection. -/
def Conn.attached (c : Conn H) : List ℕ := c.cq.flatMap Cqe.buffers

/-- The buffers attached to completions not handled. -/
def World.attached (w : World H) : List ℕ := w.conns.flatMap Conn.attached

/-- Cleanup, arming and reading leave the completions alone. -/
theorem handleRecv_cq (c : Conn H) (res : ℤ) (more : Bool) (buffer : Option (ℕ × List UInt8)) :
    (handleRecv E c res more buffer).cq = c.cq := by
  have hcleanup : ∀ c : Conn H, c.cleanup.cq = c.cq := fun c => c.cleanup_cleanedUp.cq
  have hnote : (c.noteMore more).cq = c.cq := by
    unfold Conn.noteMore
    split_ifs <;> rfl
  have hafter : ∀ c : Conn H, (c.afterRead more).cq = c.cq := by
    intro c
    have hrearm : (if !c.session.closing && !more then c.rearm else c).cq = c.cq := by
      split_ifs <;> rfl
    rw [← hrearm, Conn.afterRead]
    generalize (if !c.session.closing && !more then c.rearm else c) = c₁
    split_ifs
    · exact hcleanup _
    · rfl
  rw [← hnote]
  unfold handleRecv
  generalize c.noteMore more = c₁
  split_ifs
  · rfl
  · exact hcleanup _
  · cases buffer with
    | none => exact hafter _
    | some b => exact hafter _

theorem handleSend_cq (c : Conn H) (wr : Slot) (res : ℤ) : (handleSend c wr res).cq = c.cq := by
  unfold handleSend
  exact (Conn.cleanup_cleanedUp _).cq

/-- A step of a connection moves buffers: what it holds and gives back afterwards is what it
held and was given. -/
theorem connStep_attached {c : Conn H} {e : ConnEvent} {r : Conn H × List ℕ}
    (h : connStep E c e = some r) :
    (r.2 ++ r.1.attached).Perm (e.takes.toList ++ c.attached) := by
  cases e with
  | recv res more buffer =>
      simp only [connStep, Option.ite_none_right_eq_some, Option.some.injEq] at h
      obtain ⟨-, rfl⟩ := h
      simp only [Conn.attached, List.flatMap_append, List.flatMap_singleton, Cqe.buffers,
        List.nil_append, ConnEvent.takes]
      exact List.perm_append_comm
  | complete i res =>
      cases hi : c.sends[i]? with
      | none => simp [connStep, hi] at h
      | some send =>
          simp only [connStep, hi, Option.ite_none_right_eq_some, Option.some.injEq] at h
          obtain ⟨-, rfl⟩ := h
          simp [Conn.attached, Cqe.buffers, ConnEvent.takes]
  | handle =>
      cases hcq : c.cq with
      | nil => simp [connStep, hcq] at h
      | cons q cq =>
          cases q with
          | recv res more buffer =>
              simp only [connStep, hcq, Option.some.injEq] at h
              subst h
              simp only [Conn.attached, handleRecv_cq, hcq, List.flatMap_cons, Cqe.buffers,
                ConnEvent.takes, Option.toList_none, List.nil_append]
              exact List.Perm.refl _
          | send wr res =>
              simp only [connStep, hcq, Option.some.injEq] at h
              subst h
              simp only [Conn.attached, handleSend_cq, hcq, List.flatMap_cons, Cqe.buffers,
                ConnEvent.takes, Option.toList_none, List.nil_append]
              exact List.Perm.refl _

/-- Every buffer is in one place: in the ring, or attached to one completion not handled. -/
def World.BuffersKept (w : World H) : Prop :=
  (w.ring ++ w.attached).Perm (List.range numBuffers)

theorem World.buffersKept_start : (World.start : World H).BuffersKept := by
  unfold World.BuffersKept World.attached World.start
  rw [List.flatMap_nil, List.append_nil]

/-- One list replaced by another moves elements as that replacement does. -/
theorem flatMap_set_perm {α β : Type} [DecidableEq β] (f : α → List β) {l : List α} {i : ℕ}
    {a a' : α}
    {taken back : List β} (hi : l[i]? = some a) (h : (back ++ f a').Perm (taken ++ f a)) :
    (back ++ (l.set i a').flatMap f).Perm (taken ++ l.flatMap f) := by
  obtain ⟨hlt, rfl⟩ := List.getElem?_eq_some_iff.mp hi
  have hl : l = l.take i ++ l[i] :: l.drop (i + 1) := by
    rw [← List.drop_eq_getElem_cons hlt, List.take_append_drop]
  have hflat : l.flatMap f = (l.take i).flatMap f ++ (f l[i] ++ (l.drop (i + 1)).flatMap f) := by
    conv_lhs => rw [hl]
    rw [List.flatMap_append, List.flatMap_cons]
  rw [List.set_eq_take_append_cons_drop, if_pos hlt, hflat, List.flatMap_append,
    List.flatMap_cons]
  rw [List.perm_iff_count] at h ⊢
  intro b
  have hb := h b
  simp only [List.count_append] at hb ⊢
  omega

theorem World.buffersKept_step {numWorkers : UInt32} {w w' : World H} {e : WorldEvent}
    (h : w.BuffersKept) (hs : worldStep E numWorkers w e = some w') : w'.BuffersKept := by
  unfold World.BuffersKept World.attached at h ⊢
  cases e with
  | accept res addr =>
      simp only [worldStep, Option.ite_none_right_eq_some, Option.some.injEq] at hs
      obtain ⟨-, rfl⟩ := hs
      cases addr with
      | none => exact h
      | some addr =>
          by_cases hres : res < 0
          · simpa only [if_pos hres] using h
          · simpa only [if_neg hres, List.flatMap_append, List.flatMap_singleton, Conn.attached,
              Conn.accept, List.flatMap_nil, List.append_nil] using h
  | signal =>
      simp only [worldStep, Option.some.injEq] at hs
      subst hs
      exact h
  | conn i e =>
      cases hi : w.conns[i]? with
      | none => simp [worldStep, hi] at hs
      | some c =>
          simp only [worldStep, hi, Option.ite_none_right_eq_some, Option.map_eq_some_iff] at hs
          obtain ⟨howned, r, hr, rfl⟩ := hs
          have hmove := flatMap_set_perm Conn.attached hi (connStep_attached E hr)
          have htaken : (e.takes.toList ++ e.takes.elim w.ring w.ring.erase).Perm w.ring := by
            cases ht : e.takes with
            | none => exact List.Perm.refl _
            | some b => exact (List.perm_cons_erase (howned b ht)).symm
          refine List.Perm.trans ?_ h
          rw [List.perm_iff_count] at hmove htaken ⊢
          intro b
          have hm := hmove b
          have ht := htaken b
          simp only [List.count_append] at hm ht ⊢
          omega

/-! ### Who holds the records -/

/-- The records of the sends in flight: not completed, or completed and not handled. -/
def Conn.inFlight (c : Conn H) : List Slot := c.sends.map Submission.wr ++ sendSlots c.cq

/-- The records in use: `in_use` slots of the pool, and blocks allocated and not freed. -/
def Session.used (s : Session H) : Set Slot := {wr | s.Uses wr}

theorem Conn.Records.bijOn {c : Conn H} (h : c.Records) :
    Set.BijOn c.inFlight.get Set.univ c.session.used := by
  have hslots := h.slots
  refine ⟨?_, ?_, ?_⟩
  · intro k _
    exact (hslots.uses _).mpr (List.get_mem c.inFlight k)
  · exact (List.nodup_iff_injective_get.mp hslots.nodup).injOn
  · intro wr hwr
    obtain ⟨k, hk⟩ := List.mem_iff_get.mp ((hslots.uses wr).mp hwr)
    exact ⟨k, trivial, hk⟩

/-- The handling of a completed send takes exactly its record out of use. -/
theorem Conn.Records.handleSend_used {c : Conn H} {wr : Slot} {res : ℤ} {cq : List Cqe}
    (h : c.Records) (hcq : c.cq = .send wr res :: cq) :
    c.session.used = insert wr (handleSend { c with cq := cq } wr res).session.used ∧
      wr ∉ (handleSend { c with cq := cq } wr res).session.used := by
  have hafter := (handleSend_records h hcq).slots
  have hbefore := h.slots
  have hext := handleSend_extends { c with cq := cq } wr res
  rw [hext.sends, handleSend_cq, List.append_nil] at hafter
  rw [hcq, sendSlots] at hbefore
  have hperm := hbefore.perm List.perm_middle
  constructor
  · ext wr'
    exact (hperm.uses wr').trans
      (List.mem_cons.trans (or_congr_right (hafter.uses wr').symm))
  · intro hmem
    exact (List.nodup_cons.mp hperm.nodup).1 ((hafter.uses wr).mp hmem)

/-! ### Every response is released once -/

/-- A world, and for every connection the records `free_write_response` was called on. -/
structure Audit (H : Type) where
  world : World H
  released : ℕ → List Slot

/-- The record that handling the oldest completion releases. -/
def Conn.releases (c : Conn H) : ConnEvent → List Slot
  | .handle =>
      match c.cq with
      | .send wr _ :: _ => [wr]
      | _ => []
  | _ => []

/-- The records released by an event, put to those of its connection. -/
def Audit.next (a : Audit H) (e : WorldEvent) (w : World H) : Audit H where
  world := w
  released := match e with
    | .conn i e =>
        Function.update a.released i
          (a.released i ++ (a.world.conns[i]?.map fun c => c.releases e).getD [])
    | _ => a.released

def auditStep (numWorkers : UInt32) (a : Audit H) (e : WorldEvent) : Option (Audit H) :=
  (worldStep E numWorkers a.world e).map (a.next e)

def Audit.start : Audit H := ⟨World.start, fun _ => []⟩

/-- Every run can be audited. -/
theorem reaches_audit {numWorkers : UInt32} {w : World H} {es : List WorldEvent}
    (h : Reaches (worldStep E numWorkers) World.start es w) :
    ∃ released, Reaches (auditStep E numWorkers) Audit.start es ⟨w, released⟩ := by
  induction h with
  | nil => exact ⟨_, .nil⟩
  | @snoc es e w w' _ _ hs ih =>
      obtain ⟨released, ha⟩ := ih
      refine ⟨(Audit.next ⟨w, released⟩ e w').released, ha.snoc trivial ?_⟩
      rw [auditStep, hs]
      rfl

/-- What was submitted has been released or is in flight. -/
def Balanced (released : List Slot) (c : Conn H) : Prop :=
  (c.submitted.map Submission.wr).Perm (released ++ c.inFlight)

/-- What a step submits comes into flight, and what it releases goes out of it. -/
theorem step_inFlight {c c' : Conn H} {e : ConnEvent} (h : c.step E e = some c') :
    ∃ new, c'.submitted = c.submitted ++ new ∧
      (c.releases e ++ c'.inFlight).Perm (c.inFlight ++ new.map Submission.wr) := by
  unfold Conn.inFlight
  cases Conn.step_move h with
  | recv _ _ _ => exact ⟨[], by simp, by simp [Conn.releases, sendSlots]⟩
  | @complete i res send hi _ =>
      refine ⟨[], by simp, ?_⟩
      obtain ⟨hlt, rfl⟩ := List.getElem?_eq_some_iff.mp hi
      have hp := ((List.getElem_cons_eraseIdx_perm hlt).map Submission.wr)
      rw [List.perm_iff_count] at hp ⊢
      intro wr
      have hc := hp wr
      simp only [Conn.releases, List.nil_append, List.map_cons, List.map_nil, List.append_nil,
        List.count_append, sendSlots_append, sendSlots, List.count_cons, List.count_nil] at hc ⊢
      omega
  | @handleRecv res more buffer cq hcq =>
      obtain ⟨new, hn⟩ := handleRecv_extends E { c with cq := cq } res more buffer
      refine ⟨new, hn.submitted, ?_⟩
      rw [handleRecv_cq, hn.sends, List.perm_iff_count]
      intro wr
      simp only [Conn.releases, hcq, List.nil_append, sendSlots, List.map_append,
        List.count_append]
      omega
  | @handleSend wr res cq hcq =>
      have hn := handleSend_extends { c with cq := cq } wr res
      refine ⟨[], hn.submitted, ?_⟩
      rw [handleSend_cq, hn.sends, List.perm_iff_count]
      intro wr'
      simp only [Conn.releases, hcq, sendSlots, List.append_nil, List.map_nil,
        List.count_append, List.count_cons, List.count_nil]
      omega

theorem Balanced.step {released : List Slot} {c c' : Conn H} {e : ConnEvent}
    (h : Balanced released c) (hs : c.step E e = some c') :
    Balanced (released ++ c.releases e) c' := by
  obtain ⟨new, hnew, hflight⟩ := step_inFlight E hs
  unfold Balanced at h ⊢
  rw [hnew, List.map_append]
  rw [List.perm_iff_count] at h hflight ⊢
  intro wr
  have h₁ := h wr
  have h₂ := hflight wr
  simp only [List.count_append] at h₁ h₂ ⊢
  omega

/-- Every connection is balanced, and nothing was released for one not yet accepted. -/
structure Audit.Balanced (a : Audit H) : Prop where
  conns : ∀ i c, a.world.conns[i]? = some c → MachAudio.Balanced (a.released i) c
  later : ∀ i, a.world.conns.length ≤ i → a.released i = []

theorem Audit.balanced_start : (Audit.start : Audit H).Balanced := by
  constructor
  · intro i c hc
    cases hc
  · exact fun _ _ => rfl

theorem Audit.Balanced.accept {a : Audit H} (h : a.Balanced) (clientFd : ℤ) (addr : ℕ)
    (numWorkers : UInt32) :
    Audit.Balanced
      { a with
        world := { a.world with
          conns := a.world.conns ++ [Conn.accept clientFd addr numWorkers] } } := by
  constructor
  · intro i c hc
    dsimp only at hc ⊢
    by_cases hi : i < a.world.conns.length
    · rw [List.getElem?_append_left hi] at hc
      exact h.conns i c hc
    · rw [List.getElem?_append_right (by omega), List.getElem?_singleton] at hc
      split_ifs at hc
      obtain rfl := Option.some.inj hc
      rw [h.later i (by omega)]
      exact List.Perm.refl _
  · intro i hi
    rw [List.length_append] at hi
    exact h.later i (by omega)

theorem Audit.balanced_step {numWorkers : UInt32} {a a' : Audit H} {e : WorldEvent}
    (h : a.Balanced) (hs : auditStep E numWorkers a e = some a') : a'.Balanced := by
  rw [auditStep, Option.map_eq_some_iff] at hs
  obtain ⟨w, hw, rfl⟩ := hs
  cases e with
  | accept res addr =>
      simp only [worldStep, Option.ite_none_right_eq_some, Option.some.injEq] at hw
      obtain ⟨-, rfl⟩ := hw
      cases addr with
      | none => exact ⟨h.conns, h.later⟩
      | some addr =>
          by_cases hres : res < 0
          · simp only [if_pos hres]
            exact ⟨h.conns, h.later⟩
          · simp only [if_neg hres]
            have hacc := h.accept res addr numWorkers
            exact ⟨hacc.conns, hacc.later⟩
  | signal =>
      simp only [worldStep, Option.some.injEq] at hw
      subst hw
      exact ⟨h.conns, h.later⟩
  | conn i e =>
      cases hi : a.world.conns[i]? with
      | none => simp [worldStep, hi] at hw
      | some c =>
          simp only [worldStep, hi, Option.ite_none_right_eq_some, Option.map_eq_some_iff] at hw
          obtain ⟨-, r, hr, rfl⟩ := hw
          have hlt := (List.getElem?_eq_some_iff.mp hi).1
          have hstep : c.step E e = some r.1 := by
            rw [Conn.step, hr]
            rfl
          constructor
          · intro j d hd
            simp only [Audit.next] at hd ⊢
            by_cases hij : i = j
            · subst hij
              rw [List.getElem?_set_self hlt] at hd
              obtain rfl := Option.some.inj hd
              rw [Function.update_self, hi]
              exact (h.conns i c hi).step E hstep
            · rw [List.getElem?_set_ne hij] at hd
              rw [Function.update_of_ne (Ne.symm hij)]
              exact h.conns j d hd
          · intro j hj
            simp only [Audit.next, List.length_set] at hj ⊢
            have hji : j ≠ i := by omega
            rw [Function.update_of_ne hji]
            exact h.later j hj

/-! ### Whole runs -/

/-- What holds of the buffers and the records at every time. -/
structure Conserved (numWorkers : UInt32) (a : Audit H) : Prop where
  /-- Every buffer is in the ring or attached to one completion not handled. -/
  buffers : a.world.BuffersKept
  /-- Handling a completion of a receive, as the source does it, gives its buffer back once. -/
  returned : ∀ (i : ℕ) (c : Conn H) res more buffer cq, a.world.conns[i]? = some c →
    c.cq = .recv res more buffer :: cq →
    ∃ r, handleRecvRing E { c with cq := cq } res more buffer a.world.ring = r ∧
      worldStep E numWorkers a.world (.conn i .handle) =
        some { a.world with conns := a.world.conns.set i r.1, ring := r.2 } ∧
      r.2 = a.world.ring ++ returnedBuffer buffer
  /-- The records in use are in bijection with the sends in flight. -/
  records : ∀ c ∈ a.world.conns, Set.BijOn c.inFlight.get Set.univ c.session.used
  /-- Handling a completed send takes exactly its record out of use. -/
  freed : ∀ c ∈ a.world.conns, ∀ wr res cq, c.cq = .send wr res :: cq →
    c.session.used = insert wr (handleSend { c with cq := cq } wr res).session.used ∧
      wr ∉ (handleSend { c with cq := cq } wr res).session.used
  /-- What was ever submitted has been released once, or is in flight. -/
  released : ∀ (i : ℕ) (c : Conn H), a.world.conns[i]? = some c →
    (c.submitted.map Submission.wr).Perm (a.released i ++ c.inFlight)

/-- **Receive buffers and write records are conserved**, in every run of the event loop. -/
theorem buffers_conserved (numWorkers : UInt32) {w : World H} {es : List WorldEvent}
    (h : Reaches (worldStep E numWorkers) World.start es w) :
    (World.start : World H).ring = initRegisteredBufferRing numBuffers ∧
      ∃ released, Reaches (auditStep E numWorkers) Audit.start es ⟨w, released⟩ ∧
        Conserved E numWorkers ⟨w, released⟩ := by
  refine ⟨by rw [initRegisteredBufferRing_eq, World.start], ?_⟩
  obtain ⟨released, ha⟩ := reaches_audit E h
  have hbuffers : w.BuffersKept := h.invariant World.buffersKept_start
    fun w e w' hw _ hs => World.buffersKept_step E hw hs
  have hrecords : ∀ c ∈ w.conns, c.Records := World.conns_invariant
    (fun clientFd addr _ => Conn.records_accept clientFd addr numWorkers)
    (fun c e c' => records_step E) h
  have hbalanced : Audit.Balanced ⟨w, released⟩ := ha.invariant Audit.balanced_start
    fun a e a' hb _ hs => Audit.balanced_step E hb hs
  refine ⟨released, ha, hbuffers, ?_, ?_, ?_, hbalanced.conns⟩
  · intro i c res more buffer cq hi hcq
    refine ⟨_, handleRecvRing_eq E _ _ _ _ _, ?_, rfl⟩
    simp only [worldStep, hi, ConnEvent.takes, connStep, hcq, Option.map_some,
      Option.elim_none]
    rw [if_pos (by simp)]
  · exact fun c hc => (hrecords c hc).bijOn
  · exact fun c hc wr res cq hcq => (hrecords c hc).handleSend_used hcq

/-- A ping in buffer 0 and its answer, handled to the end. -/
def pingRun : List WorldEvent :=
  [.accept 5 (some 0), .conn 0 (.recv 16 true (some (0, (pingMessage 7).encode))),
    .conn 0 .handle, .conn 0 (.complete 0 16), .conn 0 .handle]

/-- After the ping is answered no completion holds a buffer. -/
theorem buffers_conserved_ping :
    ∃ w : World Unit, run (worldStep Env.plain 1) World.start pingRun = some w ∧
      w.BuffersKept := by
  obtain ⟨w, hw⟩ : ∃ w, run (worldStep Env.plain 1) World.start pingRun = some w :=
    Option.isSome_iff_exists.mp (by decide +kernel)
  obtain ⟨released, -, hc⟩ := (buffers_conserved Env.plain 1 (reaches_of_run hw)).2
  exact ⟨w, hw, hc.buffers⟩

end MachAudio
