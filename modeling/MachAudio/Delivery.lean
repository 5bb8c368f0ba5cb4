import MachAudio.Slots

/-! # What the peer is given

The handler of a completed send looks at the sign of its result only, so a send that took
some bytes and not all of them passes for a success, and the next response follows in the
middle of this one.  `WholeSends` excludes that, and `received_whole` shows that nothing
else can cut a response: the records hold their messages until the kernel has taken them
(`Records`), so the peer is given whole responses in the order in which they were
submitted. -/

namespace MachAudio

open Transition

variable {H Φ : Type} (E : Env H Φ)

/-- The kernel takes the sends in order, and takes all of a message or nothing, except for
the last send of a session that is closing. -/
def WholeSends (c : Conn H) : ConnEvent → Prop
  | .complete i res =>
      i = 0 ∧ ∀ send ∈ c.sends.head?, res ≤ 0 ∨ res = send.response.respLen ∨
        (c.session.closing = true ∧ c.sends.length = 1)
  | _ => True

instance (c : Conn H) (e : ConnEvent) : Decidable (WholeSends c e) := by
  cases e with
  | complete i res => exact inferInstanceAs (Decidable (_ ∧ ∀ send ∈ c.sends.head?, _))
  | recv res more buffer => exact .isTrue trivial
  | handle => exact .isTrue trivial

/-- Bytes that are whole responses out of `rs`, in their order. -/
def WholeResponses (rs : List Response) (bytes : List UInt8) : Prop :=
  ∃ l : List Response, l.Sublist rs ∧ bytes = (l.map Response.encode).flatten

/-- The session is closing with nothing left to send, and what the peer has been given ends
with a part of a response. -/
def Conn.CutOff (c : Conn H) : Prop :=
  c.session.closing = true ∧ c.sends = [] ∧
    ∃ (l : List Response) (r : Response) (p : List UInt8),
      (l ++ [r]).Sublist (c.submitted.map Submission.response) ∧
        p <+: r.encode ∧ c.received = (l.map Response.encode).flatten ++ p

/-- The peer has been given whole responses in submission order, up to a last part of one
after which nothing more is sent. -/
def Conn.ReceivedWhole (c : Conn H) : Prop :=
  WholeResponses (c.submitted.map Submission.response) c.received ∨ c.CutOff

/-! ### One step -/

/-- A step of the server: it may submit more, unless the session is closing. -/
structure Extends (c c' : Conn H) (new : List Submission) : Prop where
  submitted : c'.submitted = c.submitted ++ new
  sends : c'.sends = c.sends ++ new
  received : c'.received = c.received
  closing : c.session.closing = true → c'.session.closing = true

theorem Extends.trans {c₁ c₂ c₃ : Conn H} {new new' : List Submission}
    (h : Extends c₁ c₂ new) (h' : Extends c₂ c₃ new') : Extends c₁ c₃ (new ++ new') :=
  ⟨by rw [h'.submitted, h.submitted, List.append_assoc],
    by rw [h'.sends, h.sends, List.append_assoc], h'.received.trans h.received,
    fun hc => h'.closing (h.closing hc)⟩

theorem CleanedUp.extends {c c' : Conn H} (h : CleanedUp c c') : Extends c c' [] :=
  ⟨by rw [h.submitted, List.append_nil], by rw [h.sends, List.append_nil], h.received,
    fun hc => h.closing.trans hc⟩

/-- Only the session changes, and it does not stop closing. -/
theorem Extends.of_session (c : Conn H) {s : Session H}
    (h : c.session.closing = true → s.closing = true) : Extends c { c with session := s } [] :=
  ⟨(List.append_nil _).symm, (List.append_nil _).symm, rfl, h⟩

theorem Conn.afterRead_extends (c : Conn H) (more : Bool) : Extends c (c.afterRead more) [] := by
  have hrearm : Extends c (if !c.session.closing && !more then c.rearm else c) [] := by
    split_ifs
    · exact ⟨(List.append_nil _).symm, (List.append_nil _).symm, rfl, id⟩
    · exact .of_session c id
  rw [Conn.afterRead]
  generalize (if !c.session.closing && !more then c.rearm else c) = c₁ at hrearm ⊢
  split_ifs
  · exact hrearm.trans c₁.cleanup_cleanedUp.extends
  · exact hrearm

theorem Conn.read_extends (c : Conn H) (bytes : List UInt8) :
    Extends c (c.read E bytes) (processClientRead E c.session bytes).sends :=
  ⟨rfl, rfl, rfl, fun hc => ((processClientRead_counters E c.session bytes).closing hc).1⟩

theorem handleRecv_extends (c : Conn H) (res : ℤ) (more : Bool)
    (buffer : Option (ℕ × List UInt8)) :
    ∃ new, Extends c (handleRecv E c res more buffer) new := by
  have hnote : Extends c (c.noteMore more) [] := by
    rw [Conn.noteMore]
    split_ifs
    · exact .of_session c id
    · exact .of_session c id
  rw [handleRecv]
  generalize c.noteMore more = c₁ at hnote ⊢
  split_ifs
  · exact ⟨_, hnote.trans ⟨(List.append_nil _).symm, (List.append_nil _).symm, rfl, id⟩⟩
  · exact ⟨_, hnote.trans ((Extends.of_session c₁ fun _ => rfl).trans
      c₁.markClosing.cleanup_cleanedUp.extends)⟩
  · cases buffer with
    | none => exact ⟨_, hnote.trans (c₁.afterRead_extends more)⟩
    | some b =>
        exact ⟨_, hnote.trans ((c₁.read_extends E b.2).trans (Conn.afterRead_extends _ more))⟩

theorem handleSend_extends (c : Conn H) (wr : Slot) (res : ℤ) :
    Extends c (handleSend c wr res) [] := by
  refine (Extends.of_session c ?_).trans (Conn.cleanup_cleanedUp _).extends
  intro hc
  rw [freeWriteResponse_closing]
  split_ifs
  · rfl
  · exact hc

/-- What a step of the server submits and leaves alone. -/
theorem handle_extends {c c' : Conn H} (h : c.step E .handle = some c') :
    ∃ new, Extends c c' new := by
  cases Conn.step_move h with
  | @handleRecv res more buffer cq hcq =>
      obtain ⟨new, hn⟩ := handleRecv_extends E { c with cq := cq } res more buffer
      exact ⟨new, hn.submitted, hn.sends, hn.received, hn.closing⟩
  | @handleSend wr res cq hcq =>
      have hn := handleSend_extends { c with cq := cq } wr res
      exact ⟨[], hn.submitted, hn.sends, hn.received, hn.closing⟩

/-! ### Whole runs -/

/-- What the steps keep: the sends in flight are the last ones submitted, and what the peer
has been given comes from those before them. -/
structure Conn.Delivered (c : Conn H) : Prop where
  records : c.Records
  received : (∃ done, c.submitted = done ++ c.sends ∧
      WholeResponses (done.map Submission.response) c.received) ∨ c.CutOff

theorem Conn.Delivered.receivedWhole {c : Conn H} (h : c.Delivered) : c.ReceivedWhole := by
  rcases h.received with ⟨done, hsub, l, hl, hr⟩ | hpart
  · refine .inl ⟨l, ?_, hr⟩
    rw [hsub, List.map_append]
    exact hl.trans (List.sublist_append_left _ _)
  · exact .inr hpart

/-- The server handles a completion. -/
theorem Conn.Delivered.handle {c c' : Conn H} (h : c.Delivered)
    (hs : c.step E .handle = some c') : c'.Delivered := by
  refine ⟨records_step E h.records hs, ?_⟩
  obtain ⟨new, hn⟩ := handle_extends E hs
  rcases h.received with ⟨done, hsub, hrec⟩ | ⟨hcl, hsends, hpart⟩
  · refine .inl ⟨done, ?_, by rwa [hn.received]⟩
    rw [hn.submitted, hn.sends, hsub, List.append_assoc]
  · have hsame := (silent_step E hs hcl).2
    have hnew : new = [] := by
      rw [hn.submitted] at hsame
      exact List.self_eq_append_right.mp hsame.symm
    refine .inr ⟨hn.closing hcl, ?_, ?_⟩
    · rw [hn.sends, hsends, hnew, List.append_nil]
    · rwa [hn.received, hsame]

/-- The kernel completes the oldest send: its record holds its message. -/
theorem Conn.Delivered.complete {c : Conn H} (h : c.Delivered) {send : Submission} {res : ℤ}
    (hi : c.sends[0]? = some send)
    (hres : res ≤ 0 ∨ res = send.response.respLen ∨
      (c.session.closing = true ∧ c.sends.length = 1)) :
    Conn.Delivered { c with
      sends := c.sends.eraseIdx 0
      cq := c.cq ++ [.send send.wr res]
      received := c.received ++ c.delivered send.wr res } := by
  have hrecords : Conn.Records { c with
      sends := c.sends.eraseIdx 0
      cq := c.cq ++ [.send send.wr res]
      received := c.received ++ c.delivered send.wr res } := by
    have := MachAudio.Records.complete h.records hi
    rw [Conn.Records]
    simpa [sendSlots] using this
  refine ⟨hrecords, ?_⟩
  obtain ⟨w, hw, hd⟩ := h.records.held send (List.mem_of_getElem? hi)
  have hdel : c.delivered send.wr res = send.response.encode.take res.toNat := by
    rw [Conn.delivered, hw]
    dsimp only
    rw [hd]
  cases hc : c.sends with
  | nil => simp [hc] at hi
  | cons first rest =>
      obtain rfl : first = send := by simpa [hc] using hi
      rcases h.received with ⟨done, hsub, l, hl, hrec⟩ | ⟨-, hsends, -⟩
      · rw [hc] at hsub hres
        have hsub' : c.submitted = (done ++ [first]) ++ rest := by simp [hsub]
        rcases hres with hle | hfull | ⟨hcl, hone⟩
        · -- nothing was taken
          refine .inl ⟨done ++ [first], hsub', l, ?_, ?_⟩
          · rw [List.map_append]
            exact hl.trans (List.sublist_append_left _ _)
          · rw [hdel, Int.toNat_of_nonpos hle, List.take_zero, List.append_nil, hrec]
        · refine .inl ⟨done ++ [first], hsub', l ++ [first.response], ?_, ?_⟩
          · rw [List.map_append]
            exact hl.append (List.Sublist.refl _)
          · rw [hdel, hfull, Int.toNat_natCast, ← Response.length_encode, List.take_length, hrec]
            simp
        · -- the last send of a closing session
          have hnil : rest = [] := List.eq_nil_of_length_eq_zero (by simpa using hone)
          subst hnil
          refine .inr ⟨hcl, rfl, l, first.response, first.response.encode.take res.toNat,
            ?_, ?_, ?_⟩
          · rw [hsub, List.map_append]
            exact hl.append (List.Sublist.refl _)
          · exact List.take_prefix res.toNat _
          · rw [hdel, hrec]
      · rw [hsends] at hc
        cases hc

theorem delivered_step {c c' : Conn H} {e : ConnEvent} (h : c.Delivered) (hw : WholeSends c e)
    (hs : c.step E e = some c') : c'.Delivered := by
  cases Conn.step_move hs with
  | recv _ _ _ => exact ⟨records_step E h.records hs, h.received⟩
  | @complete i res send hi _ =>
      obtain ⟨rfl, hres⟩ := hw
      exact h.complete hi (hres send (by rwa [List.head?_eq_getElem?]))
  | handleRecv hcq => exact h.handle E hs
  | handleSend hcq => exact h.handle E hs

/-- **No response is truncated** in a run whose sends are taken whole. -/
theorem received_whole (clientFd : ℤ) (addr : ℕ) (numWorkers : UInt32) {es : List ConnEvent}
    {c : Conn H}
    (h : Runs (Conn.step E) WholeSends (Conn.accept clientFd addr numWorkers) es c) :
    c.ReceivedWhole := by
  have hd : c.Delivered := h.invariant
    ⟨Conn.records_accept clientFd addr numWorkers, .inl ⟨[], rfl, [], .slnil, rfl⟩⟩
    fun c e c' => delivered_step E
  exact hd.receivedWhole

/-- Two `CMD_PING` in one receive. -/
def twoPings : List UInt8 := (pingMessage 7).encode ++ (pingMessage 8).encode

/-- Both answers are taken whole. -/
theorem received_whole_pings :
    ∃ c : Conn Unit, Runs (Conn.step Env.plain) WholeSends (Conn.accept 5 0 1)
        [.recv 32 true (some (0, twoPings)), .handle, .complete 0 16, .handle, .complete 0 16,
          .handle] c ∧
      c.ReceivedWhole ∧ c.received.length = 32 := by
  obtain ⟨c, hc⟩ : ∃ c, run (fun c e => if WholeSends c e then Conn.step Env.plain c e else none)
      (Conn.accept 5 0 1) [.recv 32 true (some (0, twoPings)), .handle, .complete 0 16, .handle,
        .complete 0 16, .handle] = some c :=
    Option.isSome_iff_exists.mp (by decide +kernel)
  have hlen : (run (fun c e => if WholeSends c e then Conn.step Env.plain c e else none)
      (Conn.accept 5 0 1) [.recv 32 true (some (0, twoPings)), .handle, .complete 0 16, .handle,
        .complete 0 16, .handle]).map (fun c => c.received.length) = some 32 := by
    decide +kernel
  rw [hc] at hlen
  exact ⟨c, runs_of_run hc, received_whole Env.plain 5 0 1 (runs_of_run hc),
    Option.some.inj hlen⟩

/-- The kernel takes 8 of the 16 bytes of the first answer and all of the second: the server
goes on as if nothing had happened. -/
theorem received_truncated :
    ∃ c : Conn Unit, Reaches (Conn.step Env.plain) (Conn.accept 5 0 1)
        [.recv 32 true (some (0, twoPings)), .handle, .complete 0 8, .handle, .complete 0 16,
          .handle] c ∧
      c.session.closing = false ∧ ¬c.ReceivedWhole := by
  obtain ⟨c, hc⟩ : ∃ c, run (Conn.step Env.plain)
      (Conn.accept 5 0 1) [.recv 32 true (some (0, twoPings)), .handle, .complete 0 8, .handle,
        .complete 0 16, .handle] = some c :=
    Option.isSome_iff_exists.mp (by decide +kernel)
  have hfacts : (run (Conn.step Env.plain) (Conn.accept 5 0 1)
      [.recv 32 true (some (0, twoPings)), .handle, .complete 0 8, .handle, .complete 0 16,
        .handle]).map (fun c => (c.session.closing, c.received.length,
          c.submitted.map Submission.response)) =
        some (false, 24, [⟨7, .pong⟩, ⟨8, .pong⟩]) := by
    decide +kernel
  rw [hc] at hfacts
  obtain ⟨hcl, hlen, hsub⟩ : c.session.closing = false ∧ c.received.length = 24 ∧
      c.submitted.map Submission.response = [⟨7, .pong⟩, ⟨8, .pong⟩] := by
    simpa using hfacts
  refine ⟨c, reaches_of_run hc, hcl, ?_⟩
  rintro (⟨l, hl, hr⟩ | ⟨hclosing, -⟩)
  · have hl16 : ∀ l : List Response, l.Sublist [⟨7, .pong⟩, ⟨8, .pong⟩] →
        (l.map Response.encode).flatten.length = 16 * l.length := by
      intro l hl
      rw [List.length_flatten, List.map_map]
      rw [List.map_congr_left (g := fun _ => 16), List.map_const', List.sum_replicate]
      · simp [Nat.mul_comm]
      · intro r hr
        have := hl.subset hr
        simp only [List.mem_cons, List.not_mem_nil, or_false] at this
        rcases this with rfl | rfl <;> rfl
    rw [hsub] at hl
    have h := hl16 l hl
    rw [← hr, hlen] at h
    omega
  · rw [hcl] at hclosing
    cases hclosing

end MachAudio
