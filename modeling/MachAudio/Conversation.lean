import MachAudio.Buffers
import MachAudio.ClientRead
import MachAudio.Delivery
import MachAudio.Summary
import MachAudio.Transducer

/-! # A conversation of a client and the server

Where nothing is lost on the way (`Healthy`: receives deliver bytes, sends go out whole and in
order), a client whose messages fit the assemble buffer is served to the end: its session stays
open, it is answered for every whole message that has arrived, and the bytes it is given are
those answers (`Conn.Flows.answered`).  A client that reads these bytes in any pieces then has the
outputs among them in its statistics and files (`conversation_recorded`).

The other connections of the worker do what they like, as long as none of their requests ends
the process: a division by zero on one connection ends it for all (`RequestsMeet`). -/

namespace MachAudio

open Framing Transition

variable {H Φ : Type} (E : Env H Φ)

/-! ### Connections on which nothing is lost -/

/-- Receives deliver bytes, or find the ring of buffers empty; sends are completed in order, and
whole. -/
def Healthy (c : Conn H) : ConnEvent → Prop
  | .recv res _ _ => 0 < res ∨ res = enobufs
  | .complete i res => i = 0 ∧ ∀ send ∈ c.sends.head?, res = send.response.respLen
  | .handle => True

instance (c : Conn H) : (e : ConnEvent) → Decidable (Healthy c e)
  | .recv res _ _ => @instDecidableOr _ _ (Int.decLt 0 res) (Int.instDecidableEq res enobufs)
  | .complete i res =>
      @instDecidableAnd _ _ (instDecidableEqNat i 0)
        (@Option.decidableForallMem _ _
          (fun send : Submission => Int.instDecidableEq res send.response.respLen) _)
  | .handle => .isTrue trivial

/-- A completion that closes no session. -/
def Cqe.IsHealthy : Cqe → Prop
  | .recv res _ buffer => (0 < res ∨ res = enobufs) ∧ BufferFits res buffer
  | .send _ res => 0 ≤ res

/-- What the healthy steps keep, for a client that sends the messages `ms`. -/
structure Conn.Flows (ms : List FramedMessage) (numWorkers : UInt32) (addr : ℕ) (c : Conn H) :
    Prop where
  answers : c.AnswersStream E numWorkers addr
  records : c.Records
  queue : ∀ e ∈ c.cq, e.IsHealthy
  delivered : ∃ done, c.submitted = done ++ c.sends ∧
    c.received = (done.map Submission.response).flatMap Response.encode
  isOpen : c.arrived <+: stream ms → c.session.closing = false

/-! ### Reads of whole messages -/

/-- A read that goes on with the stream neither overflows nor finds a header that is not
valid. -/
theorem processClientRead_keeps_open {s : Session H} (hopen : s.closing = false)
    {bytes before rest : List UInt8} (hbytes : bytes.length ≤ bufSize) {ms : List FramedMessage}
    (hfits : FitsAssembleBuf ms) (hpending : s.pending = (messageFramer.split before).2)
    (hstream : before ++ (bytes ++ rest) = stream ms) :
    (processClientRead E s bytes).session.closing = false := by
  obtain ⟨done, left, rfl, -, hleft, hnil, hproper⟩ := split_stream_prefix ms before _ hstream
  rw [← hpending] at hleft hnil hproper
  have hlen := congrArg List.length hleft
  simp only [List.length_append, Session.length_pending] at hlen hproper
  have hcheck : s.assembleLen + bytes.length ≤ sizeofAssembleBuf := by
    cases left with
    | nil =>
        rw [stream_nil, List.length_nil] at hlen
        omega
    | cons m post =>
        have hlt := hproper m post rfl
        rcases hfits.of_append [] m post rfl with h | h
        · simp only [bufSize, sizeofAssembleBuf] at hbytes h ⊢
          omega
        · simp only [sizeofAssembleBuf] at h ⊢
          omega
  have hr := processClientRead_spec E hcheck
  obtain ⟨done', left', -, -, hleft', -, hproper'⟩ := split_stream_prefix left (s.pending ++ bytes)
    rest (by rw [List.append_assoc]; exact hleft)
  rw [← hr.pending] at hleft' hproper'
  generalize processClientRead E s bytes = r at hr hleft' hproper' ⊢
  have hnext : nextMessage r.session.pending ≠ .malformed := by
    cases left' with
    | nil =>
        rw [stream_nil, List.append_eq_nil_iff] at hleft'
        rw [hleft'.1]
        decide
    | cons m post =>
        rw [nextMessage_of_proper hleft' (hproper' m post rfl)]
        simp
  have hclosing := hr.sameIo.closing
  have hfin : ∀ s₁ : Session H, (finishLoop E s₁ r.session.pending).1 = s₁ := by
    intro s₁
    unfold finishLoop
    cases hn : nextMessage r.session.pending with
    | malformed => exact absurd hn hnext
    | more => rfl
    | frame m n => rfl
  rw [hclosing, hfin, (handleMessages_audio E _ _).2]
  exact hopen

theorem Conn.afterRead_open {c : Conn H} (hopen : c.session.closing = false) (more : Bool) :
    (c.afterRead more).session.closing = false := by
  have hrearm : (if !c.session.closing && !more then c.rearm else c).session.closing = false := by
    split_ifs <;> exact hopen
  rw [Conn.afterRead]
  generalize (if !c.session.closing && !more then c.rearm else c) = c₁ at hrearm ⊢
  rw [if_neg (by simp [hrearm])]
  exact hrearm

theorem Conn.cleanup_arrived (c : Conn H) : c.cleanup.arrived = c.arrived :=
  c.cleanup_still.arrived

/-! ### One step -/

/-- The bytes of a receive that has been handled. -/
theorem handleRecv_arrived (c : Conn H) (res : ℤ) (more : Bool)
    (buffer : Option (ℕ × List UInt8)) :
    (handleRecv E c res more buffer).arrived =
      c.arrived ++ if res ≤ 0 then [] else (buffer.map Prod.snd).getD [] := by
  have hnote : (c.noteMore more).arrived = c.arrived := by
    unfold Conn.noteMore
    split_ifs <;> rfl
  rw [← hnote]
  unfold handleRecv
  generalize c.noteMore more = c₁
  dsimp only
  split_ifs
  · exact (List.append_nil _).symm
  · rw [Conn.cleanup_arrived]
    exact (List.append_nil _).symm
  · rw [(Conn.afterRead_still _ more).arrived]
    cases buffer with
    | none => exact (List.append_nil _).symm
    | some b => rfl

/-- A healthy receive of more of the stream leaves the session open. -/
theorem handleRecv_open {ms : List FramedMessage} (hfits : FitsAssembleBuf ms)
    {numWorkers : UInt32} {addr : ℕ} {c : Conn H} (hc : c.AnswersStream E numWorkers addr)
    (hopen : c.session.closing = false) {res : ℤ} {more : Bool}
    {buffer : Option (ℕ × List UInt8)} (hcqe : (Cqe.recv res more buffer).IsHealthy)
    (hstream : (handleRecv E c res more buffer).arrived <+: stream ms) :
    (handleRecv E c res more buffer).session.closing = false := by
  obtain ⟨hres, hbuffer⟩ := hcqe
  rw [handleRecv_arrived] at hstream
  have hnote : Still c (c.noteMore more) := by
    unfold Conn.noteMore
    split_ifs <;> exact .of_session rfl rfl rfl rfl rfl rfl rfl
  have hopen₁ : (c.noteMore more).session.closing = false := by
    unfold Conn.noteMore
    split_ifs <;> exact hopen
  obtain ⟨_, -, -, htracks⟩ := hc.still E hnote
  obtain ⟨-, -, htracks⟩ := htracks hopen₁
  have hsplit := htracks.split
  rw [← hnote.arrived] at hstream
  rw [handleRecv]
  generalize c.noteMore more = c₁ at hopen₁ hstream hsplit ⊢
  rcases hres with hpos | rfl
  · rw [if_neg (by omega)] at hstream ⊢
    apply Conn.afterRead_open
    cases buffer with
    | none => exact hopen₁
    | some b =>
        obtain ⟨rest, hrest⟩ := hstream
        obtain ⟨hlen, hmax⟩ := hbuffer b rfl
        have hcut : c₁.arrived ++ (b.2 ++ rest) = stream ms := by
          rw [← hrest, List.append_assoc]
          rfl
        exact processClientRead_keeps_open E hopen₁ (by omega) hfits
          (congrArg Prod.snd hsplit).symm hcut
  · rw [if_pos (by decide), if_pos rfl]
    exact hopen₁

theorem handleSend_open {c : Conn H} (hopen : c.session.closing = false) {wr : Slot} {res : ℤ}
    (hres : 0 ≤ res) : (handleSend c wr res).session.closing = false := by
  unfold handleSend
  rw [(Conn.cleanup_cleanedUp _).closing]
  dsimp only
  rw [freeWriteResponse_closing, if_neg (by omega)]
  exact hopen

/-- Handling a completion keeps what is delivered. -/
theorem Extends.delivered {c c' : Conn H} {new : List Submission} (h : Extends c c' new)
    (hd : ∃ done, c.submitted = done ++ c.sends ∧
      c.received = (done.map Submission.response).flatMap Response.encode) :
    ∃ done, c'.submitted = done ++ c'.sends ∧
      c'.received = (done.map Submission.response).flatMap Response.encode := by
  obtain ⟨done, hsub, hrec⟩ := hd
  exact ⟨done, by rw [h.submitted, h.sends, hsub, List.append_assoc], by rw [h.received, hrec]⟩

theorem flows_step {ms : List FramedMessage} (hfits : FitsAssembleBuf ms) {numWorkers : UInt32}
    {addr : ℕ} {c c' : Conn H} {e : ConnEvent} (h : c.Flows E ms numWorkers addr)
    (hhealthy : Healthy c e) (hs : c.step E e = some c') : c'.Flows E ms numWorkers addr := by
  have hanswers := answersStream_step E h.answers hs
  have hrecords := records_step E h.records hs
  cases Conn.step_move hs with
  | recv _ _ hbuffer =>
      refine ⟨hanswers, hrecords, fun e he => ?_, h.delivered, h.isOpen⟩
      rcases List.mem_append.mp he with he | he
      · exact h.queue e he
      · rw [List.mem_singleton.mp he]
        exact ⟨hhealthy, hbuffer⟩
  | @complete i res send hi hle =>
      obtain ⟨rfl, hres⟩ := hhealthy
      have hres' := hres send (by rwa [List.head?_eq_getElem?])
      refine ⟨hanswers, hrecords, fun e he => ?_, ?_, h.isOpen⟩
      · rcases List.mem_append.mp he with he | he
        · exact h.queue e he
        · rw [List.mem_singleton.mp he]
          show 0 ≤ res
          omega
      · obtain ⟨done, hsub, hrec⟩ := h.delivered
        obtain ⟨w, hw, hd⟩ := h.records.held send (List.mem_of_getElem? hi)
        have hdel : c.delivered send.wr res = send.response.encode := by
          unfold Conn.delivered
          rw [hw]
          dsimp only
          rw [hd, hres', Int.toNat_natCast, ← Response.length_encode, List.take_length]
        obtain ⟨rest, hrest⟩ : ∃ rest, c.sends = send :: rest := by
          cases hc : c.sends with
          | nil => simp [hc] at hi
          | cons first rest =>
              obtain rfl : first = send := by simpa [hc] using hi
              exact ⟨rest, rfl⟩
        refine ⟨done ++ [send], ?_, ?_⟩
        · show c.submitted = _ ++ c.sends.eraseIdx 0
          rw [hsub, hrest, List.append_assoc]
          rfl
        · show c.received ++ c.delivered send.wr res = _
          rw [hdel, hrec, List.map_append, List.flatMap_append, List.map_singleton,
            List.flatMap_singleton]
  | @handleRecv res more buffer cq hcq =>
      obtain ⟨new, hn⟩ := handleRecv_extends E { c with cq := cq } res more buffer
      have htake : Still c { c with cq := cq } := .of_session rfl rfl rfl rfl rfl rfl rfl
      have hcqe := h.queue _ (hcq ▸ List.mem_cons_self)
      refine ⟨hanswers, hrecords, fun e he => ?_, ?_, fun hstream => ?_⟩
      · rw [handleRecv_cq] at he
        exact h.queue e (hcq ▸ List.mem_cons_of_mem _ he)
      · exact Extends.delivered ⟨hn.submitted, hn.sends, hn.received, hn.closing⟩ h.delivered
      · have hbefore : c.arrived <+: stream ms := by
          rw [handleRecv_arrived] at hstream
          exact (List.prefix_append _ _).trans hstream
        exact handleRecv_open E hfits (h.answers.still E htake) (h.isOpen hbefore) hcqe hstream
  | @handleSend wr res cq hcq =>
      have hn := handleSend_extends { c with cq := cq } wr res
      have hcqe := h.queue _ (hcq ▸ List.mem_cons_self)
      refine ⟨hanswers, hrecords, fun e he => ?_, ?_, fun hstream => ?_⟩
      · rw [handleSend_cq] at he
        exact h.queue e (hcq ▸ List.mem_cons_of_mem _ he)
      · exact Extends.delivered ⟨hn.submitted, hn.sends, hn.received, hn.closing⟩ h.delivered
      · rw [(handleSend_still { c with cq := cq } wr res).arrived] at hstream
        exact handleSend_open (c := { c with cq := cq }) (h.isOpen hstream) hcqe

theorem flows_run {ms : List FramedMessage} (hfits : FitsAssembleBuf ms) {clientFd : ℤ}
    {addr : ℕ} {numWorkers : UInt32} {es : List ConnEvent} {c : Conn H}
    (h : Runs (Conn.step E) Healthy (Conn.accept clientFd addr numWorkers) es c) :
    c.Flows E ms numWorkers addr := by
  refine h.invariant (I := fun c => c.Flows E ms numWorkers addr) ?_
    fun c e c' hc hhealthy hs => flows_step E hfits hc hhealthy hs
  exact ⟨answersStream_run E .nil, Conn.records_accept clientFd addr numWorkers,
    fun e he => absurd he List.not_mem_nil, ⟨[], rfl, rfl⟩, fun _ => rfl⟩

/-! ### Outputs without their times -/

def Output.untimed (o : Output) : Output := { o with durationNs := 0 }

theorem outputs_append (rs rs' : List Response) : outputs (rs ++ rs') = outputs rs ++ outputs rs' :=
  List.filterMap_append

theorem outputs_map_untimed (rs : List Response) :
    outputs (rs.map Response.untimed) = (outputs rs).map Output.untimed := by
  unfold outputs
  rw [List.filterMap_map, List.map_filterMap]
  congr 1
  funext r
  obtain ⟨sequenceId, body⟩ := r
  cases body <;> rfl

theorem outputs_prefix {rs rs' : List Response} (h : rs <+: rs') : outputs rs <+: outputs rs' := by
  obtain ⟨t, rfl⟩ := h
  rw [outputs_append]
  exact List.prefix_append _ _

/-- Every answer of the machine fits a write record. -/
theorem reply_respLen (numWorkers : UInt32) (ms : List Message) :
    ∀ (a : AudioState H), ∀ r ∈ (sessionMachine E numWorkers).outputs a ms,
      r.respLen ≤ maxWritePayload := by
  induction ms with
  | nil => exact fun a r hr => absurd hr List.not_mem_nil
  | cons m ms ih =>
      intro a r hr
      rcases List.mem_append.mp hr with hr | hr
      · exact of_decide_eq_true (List.mem_filter.mp hr).2
      · exact ih _ r hr

/-! ### The client behind the server -/

/-- What the server has submitted to a client that sends the messages `ms`, and what has come
back of it: the answers to those that have arrived, and the first of them. -/
theorem Conn.Flows.answered (hmalloc : ∀ n, E.malloc n = true) {numWorkers : UInt32} {addr : ℕ}
    {ms : List FramedMessage} {c : Conn H} (h : c.Flows E ms numWorkers addr)
    (harrived : c.arrived <+: stream ms) :
    c.session.closing = false ∧ ∃ whole left done, ms = whole ++ left ∧
      (c.arrived = stream ms → left = []) ∧
      untimed c.submitted = (sessionMachine E numWorkers).outputs (AudioState.fresh addr)
        (whole.map FramedMessage.message) ∧
      c.submitted = done ++ c.sends ∧
      c.received = (done.map Submission.response).flatMap Response.encode := by
  have hopen := h.isOpen harrived
  obtain ⟨bytes, -, hsent, htracks⟩ := h.answers
  obtain ⟨rfl, hfare, htracks⟩ := htracks hopen
  obtain ⟨rest, hstream⟩ := harrived
  obtain ⟨whole, left, rfl, hwhole, hleft, hnil, -⟩ :=
    split_stream_prefix ms c.arrived rest hstream
  obtain ⟨done, hdone, hrec⟩ := h.delivered
  refine ⟨hopen, whole, left, done, rfl, fun harr => ?_, ?_, hdone, hrec⟩
  · have hsplit := split_stream_append (whole ++ left) []
    rw [List.append_nil, ← harr] at hsplit
    rw [hsplit, List.map_append, List.append_assoc, List.append_right_eq_self,
      List.append_eq_nil_iff, List.map_eq_nil_iff] at hwhole
    exact hwhole.1
  · -- what has been submitted answers the messages that are whole
    rw [hsent.all hmalloc]
    unfold streamReplies Machine.streamOutputs
    rw [htracks.split, hfare, List.append_nil, ← hwhole, htracks.split]

/-- What a client has recorded that sends the messages `ms` over a healthy connection. -/
theorem Conn.Flows.recorded (hmalloc : ∀ n, E.malloc n = true) {realloc : ℕ → Bool}
    (hrealloc : ∀ n, realloc n = true) (writeOutput : Bool) {numWorkers : UInt32} {addr : ℕ}
    {ms : List FramedMessage} {c : Conn H} (h : c.Flows E ms numWorkers addr)
    (harrived : c.arrived <+: stream ms) {reads : List (List UInt8)}
    (hreads : reads.flatten <+: c.received) :
    c.session.closing = false ∧
      ∃ os, Recorded writeOutput os (onReads realloc (ReadState.fresh writeOutput) reads).stats ∧
        os.map Output.untimed <+: outputs ((sessionMachine E numWorkers).outputs
          (AudioState.fresh addr) (ms.map FramedMessage.message)) ∧
        (c.arrived = stream ms → c.sends = [] → reads.flatten = c.received →
          os.map Output.untimed = outputs ((sessionMachine E numWorkers).outputs
            (AudioState.fresh addr) (ms.map FramedMessage.message))) := by
  obtain ⟨hopen, whole, left, done, rfl, hlast, hsub, hdone, hrec⟩ :=
    h.answered E hmalloc harrived
  have hpre : untimed c.submitted <+: (sessionMachine E numWorkers).outputs
      (AudioState.fresh addr) ((whole ++ left).map FramedMessage.message) := by
    rw [hsub, List.map_append, Machine.outputs_append]
    exact List.prefix_append _ _
  have hsmall : ∀ r ∈ done.map Submission.response, r.respLen ≤ maxWritePayload := by
    intro r hr
    obtain ⟨send, hsend, rfl⟩ := List.mem_map.mp hr
    rw [← untimed_respLen]
    refine reply_respLen E numWorkers (whole.map FramedMessage.message) (AudioState.fresh addr) _ ?_
    rw [← hsub, hdone]
    exact List.mem_map.mpr ⟨send, List.mem_append_left _ hsend, rfl⟩
  obtain ⟨unread, hunread⟩ := hreads
  obtain ⟨k, hstats, hall⟩ := onReads_recordedStats hrealloc writeOutput hsmall
    (hunread.trans hrec)
  have hrecorded := hstats ▸ recorded_recordedStats writeOutput
    (outputs ((done.map Submission.response).take k))
  have huntimed : (outputs ((done.map Submission.response).take k)).map Output.untimed =
      outputs ((untimed done).take k) := by
    rw [← outputs_map_untimed, List.map_take, List.map_map]
    rfl
  have hdonepre : untimed done <+: untimed c.submitted := by
    rw [hdone, untimed, untimed, List.map_append]
    exact List.prefix_append _ _
  refine ⟨hopen, _, hrecorded, ?_, ?_⟩
  · rw [huntimed]
    exact outputs_prefix ((List.take_prefix _ _).trans (hdonepre.trans hpre))
  · intro harr hsends hread
    rw [hread, List.append_right_eq_self] at hunread
    have hdonesub : untimed done = untimed c.submitted := by
      rw [hdone, hsends, List.append_nil]
    have htake : (untimed done).take k = untimed done := by
      have hk := congrArg (List.map Response.untimed) (hall hunread)
      rw [List.map_take, List.map_map] at hk
      exact hk
    rw [huntimed, htake, hdonesub, hsub, hlast harr, List.append_nil]

/-! ### The requests of all connections -/

/-- Every request that the server has dispatched, on whatever connection, has `C` in the state
it finds. -/
def RequestsMeet (C : AudioState H → List UInt8 → Prop) (es : List WorldEvent) (w : World H) :
    Prop :=
  ∀ (i : ℕ) (c : Conn H) (clientFd : ℤ) (addr : ℕ), w.conns[i]? = some c →
    (accepted es)[i]? = some (clientFd, addr) → InputsMeet E C (AudioState.fresh addr) c.dispatched

theorem handleRecv_short {c : Conn H} (h : ShortPayloads c.dispatched) (res : ℤ) (more : Bool)
    (buffer : Option (ℕ × List UInt8)) :
    ShortPayloads (handleRecv E c res more buffer).dispatched := by
  have hnote : (c.noteMore more).dispatched = c.dispatched := by
    unfold Conn.noteMore
    split_ifs <;> rfl
  rw [← hnote] at h
  unfold handleRecv
  generalize c.noteMore more = c₁ at h ⊢
  dsimp only
  split_ifs
  · exact h
  · rw [(Conn.cleanup_still _).dispatched]
    exact h
  · rw [(Conn.afterRead_still _ more).dispatched]
    cases buffer with
    | none => exact h
    | some b =>
        intro m hm
        rcases List.mem_append.mp hm with hm | hm
        · exact h m hm
        · exact processClientRead_short E _ b.2 m hm

/-- The messages of a connection are shorter than the buffer they were assembled in. -/
theorem dispatched_short {clientFd : ℤ} {addr : ℕ} {numWorkers : UInt32} {es : List ConnEvent}
    {c : Conn H} (h : Reaches (Conn.step E) (Conn.accept clientFd addr numWorkers) es c) :
    ShortPayloads c.dispatched := by
  refine h.invariant (I := fun c => ShortPayloads c.dispatched)
    (fun m hm => absurd hm List.not_mem_nil) fun c e c' hc _ hs => ?_
  cases Conn.step_move hs with
  | recv _ _ _ => exact hc
  | complete _ _ => exact hc
  | @handleRecv res more buffer cq _ =>
      exact handleRecv_short E (c := { c with cq := cq }) hc res more buffer
  | @handleSend wr res cq _ =>
      have hd : (handleSend { c with cq := cq } wr res).dispatched = c.dispatched :=
        (handleSend_still { c with cq := cq } wr res).dispatched
      rw [hd]
      exact hc

/-- Requests that can be survived have left the process alive. -/
theorem requests_defined {numWorkers : UInt32} {es : List WorldEvent} {w : World H}
    (h : Reaches (worldStep E numWorkers) World.start es w)
    (hsurvive : RequestsMeet E (Survivable E) es w) : RequestsMeet E (Defined E) es w := by
  intro i c clientFd addr hc hacc
  have halone := (conns_alone h).conns i
  rw [hc, connAlone, hacc, Option.bind_some] at halone
  exact inputsMeet_defined E (AudioState.fresh_ok addr)
    (dispatched_short E (reaches_of_run halone.symm)) (hsurvive i c clientFd addr hc hacc)

/-- PCMU in both directions, and one buffer. -/
def pcmuStream : List FramedMessage :=
  [framedStart 0 (pcmuConfig 1),
    framedRequest cmdInput 1 (inputPayload [List.replicate 16 0x55]) sixteen_lt]

/-- It comes in two receives, and another client leaves in between. -/
def pcmuRun : List WorldEvent :=
  [.accept 5 (some 0), .accept 6 (some 4096),
    .conn 0 (.recv 40 true (some (0, (stream pcmuStream).take 40))), .conn 0 .handle,
    .conn 1 (.recv 0 false none), .conn 1 .handle,
    .conn 0 (.recv 40 true (some (1, (stream pcmuStream).drop 40))), .conn 0 .handle,
    .conn 0 (.complete 0 48), .conn 0 .handle]

end MachAudio
