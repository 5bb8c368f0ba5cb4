import MachAudio.Reassembly

/-! # What reading does to the sends of a session

`Queues s sends s'` holds when a session gets from `s` to `s'` by changes to its audio path
and by queueing responses while it is not closing, and `sends` is what it handed to the
kernel.  Everything `process_client_read` does is such a run, up to setting `closing` at its
very end (`processClientRead_queues`); so what one response does to the write records and
the counters settles what a read does. -/

namespace MachAudio

variable {H Φ : Type} (E : Env H Φ)

inductive Queues (s : Session H) : List Submission → Session H → Prop
  | nil : Queues s [] s
  | quiet {sends : List Submission} {s₁ s₂ : Session H} :
      Queues s sends s₁ → SameIo s₁ s₂ → Queues s sends s₂
  | queue {sends : List Submission} {s₁ : Session H} (r : Response) :
      Queues s sends s₁ → s₁.closing = false →
      Queues s (sends ++ (queueResponse E s₁ r).2) (queueResponse E s₁ r).1

variable {E}

theorem Queues.trans {s s₁ s₂ : Session H} {sends sends' : List Submission}
    (h : Queues E s sends s₁) (h' : Queues E s₁ sends' s₂) : Queues E s (sends ++ sends') s₂ := by
  induction h' with
  | nil => rwa [List.append_nil]
  | quiet _ hio ih => exact ih.quiet hio
  | queue r _ hc ih =>
      rw [← List.append_assoc]
      exact ih.queue r hc

variable (E)

theorem respond_queues (s : Session H) (sequenceId : UInt32) (body : Option Body) :
    Queues E s (respond E s sequenceId body).2 (respond E s sequenceId body).1 := by
  cases body with
  | none => exact .nil
  | some body =>
      rw [respond]
      split_ifs with hc
      · exact .nil
      · exact Queues.nil.queue _ (by simpa using hc)

theorem handleMessage_queues (s : Session H) (m : Message) :
    Queues E s (handleMessage E s m).2 (handleMessage E s m).1 := by
  obtain ⟨s₁, d, hio, -, -, h⟩ := handleMessage_eq E s m
  rw [h]
  exact (Queues.nil.quiet hio).trans (respond_queues E s₁ _ _)

theorem handleMessages_queues : ∀ (s : Session H) (ms : List Message),
    Queues E s (handleMessages E s ms).2 (handleMessages E s ms).1
  | _, [] => .nil
  | s, m :: ms =>
      (handleMessage_queues E s m).trans (handleMessages_queues (handleMessage E s m).1 ms)

/-- `session->closing = true`. -/
def Session.markClosing (s : Session H) : Session H := { s with closing := true }

/-- **A read queues responses and may then mark the session closing.** -/
theorem processClientRead_queues (s : Session H) (bytes : List UInt8) :
    ∃ s₁, Queues E s (processClientRead E s bytes).sends s₁ ∧
      (SameIo s₁ (processClientRead E s bytes).session ∨
        SameIo s₁.markClosing (processClientRead E s bytes).session) := by
  by_cases hover : s.assembleLen + bytes.length > sizeofAssembleBuf
  · rw [processClientRead, if_pos hover]
    exact ⟨s, .nil, .inr (.refl _)⟩
  · have hr := processClientRead_spec E (Nat.le_of_not_lt hover)
    obtain ⟨ms, hms⟩ : ∃ ms, (processClientRead E s bytes).dispatched = ms := ⟨_, rfl⟩
    obtain ⟨rest, hrest⟩ : ∃ l, (processClientRead E s bytes).session.pending = l := ⟨_, rfl⟩
    have hsends := hr.sends
    have hio := hr.sameIo
    rw [hms, hrest] at hsends hio
    have hassemble : SameIo s (s.assemble bytes) := ⟨rfl, rfl, rfl, rfl, rfl, rfl, rfl, rfl⟩
    have hrun := (Queues.nil.quiet hassemble).trans (handleMessages_queues E (s.assemble bytes) ms)
    rw [hsends]
    rw [finishLoop] at hio ⊢
    cases hnext : nextMessage rest with
    | malformed =>
        rw [hnext] at hio
        refine ⟨_, hrun.trans (respond_queues E _ (protocolDecodeHeader rest).sequenceId
          (some (.error errInvalidMagic))), .inr hio⟩
    | more =>
        rw [hnext] at hio
        exact ⟨_, by rw [List.append_nil]; exact hrun, .inl hio⟩
    | frame m n =>
        rw [hnext] at hio
        exact ⟨_, by rw [List.append_nil]; exact hrun, .inl hio⟩

/-! ### The counters -/

/-- What queueing responses does to the fields the event loop looks at. -/
structure SendCounters (s s' : Session H) (sends : List Submission) : Prop where
  pendingWrites : s'.pendingWrites = s.pendingWrites + sends.length
  clientFd : s'.clientFd = s.clientFd
  recvActive : s'.recvActive = s.recvActive
  closing : s.closing = true → s'.closing = true ∧ sends = []

theorem queueResponse_pendingWrites (s : Session H) (r : Response) :
    (queueResponse E s r).1.pendingWrites = s.pendingWrites + (queueResponse E s r).2.length ∧
      (queueResponse E s r).1.clientFd = s.clientFd ∧
      (queueResponse E s r).1.recvActive = s.recvActive := by
  have h := queueResponse_outcome E s r
  generalize queueResponse E s r = q at h ⊢
  cases h <;> simp

variable {E}

theorem Queues.counters {s s' : Session H} {sends : List Submission} (h : Queues E s sends s') :
    SendCounters s s' sends ∧ s'.closing = s.closing := by
  induction h with
  | nil => exact ⟨⟨by simp, rfl, rfl, fun hc => ⟨hc, rfl⟩⟩, rfl⟩
  | quiet _ hio ih =>
      obtain ⟨ih, ihc⟩ := ih
      refine ⟨⟨hio.pendingWrites.trans ih.pendingWrites, hio.clientFd.trans ih.clientFd,
        hio.recvActive.trans ih.recvActive, fun hc => ⟨?_, (ih.closing hc).2⟩⟩,
        hio.closing.trans ihc⟩
      rw [hio.closing, ihc, hc]
  | @queue sends s₁ r _ hopen ih =>
      obtain ⟨ih, ihc⟩ := ih
      obtain ⟨h₁, h₂, h₃⟩ := queueResponse_pendingWrites E s₁ r
      refine ⟨⟨?_, h₂.trans ih.clientFd, h₃.trans ih.recvActive, fun hc => ?_⟩,
        (queueResponse_sameAudio E s₁ r).closing.trans ihc⟩
      · rw [h₁, ih.pendingWrites, List.length_append]
        push_cast
        ring
      · rw [ihc, hc] at hopen
        cases hopen

variable (E)

theorem processClientRead_counters (s : Session H) (bytes : List UInt8) :
    SendCounters s (processClientRead E s bytes).session (processClientRead E s bytes).sends := by
  obtain ⟨s₁, hq, hio⟩ := processClientRead_queues E s bytes
  obtain ⟨hc, hcl⟩ := hq.counters
  rcases hio with hio | hio
  · exact ⟨hio.pendingWrites.trans hc.pendingWrites, hio.clientFd.trans hc.clientFd,
      hio.recvActive.trans hc.recvActive,
      fun h => ⟨by rw [hio.closing, hcl, h], (hc.closing h).2⟩⟩
  · exact ⟨hio.pendingWrites.trans hc.pendingWrites, hio.clientFd.trans hc.clientFd,
      hio.recvActive.trans hc.recvActive, fun h => ⟨hio.closing, (hc.closing h).2⟩⟩

end MachAudio
