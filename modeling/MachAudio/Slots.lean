import MachAudio.EventLoop
import MachAudio.Lifetime

/-! # Who holds which write record

`Records s sends done` says that the write records in use are exactly those of the sends
`sends` the kernel has not completed and of the completed sends `done` the server has not
handled, each once, and that the record of every send not completed still holds the bytes of
its message.  A response takes a record that is not in use, the handling of a completion
gives one back, and nothing else touches them; so every step keeps it. -/

namespace MachAudio

open Transition

variable {H Φ : Type} (E : Env H Φ)

/-! ### Records in use -/

/-- The record is in use: marked so in the pool, or allocated and not freed. -/
def Session.Uses (s : Session H) : Slot → Prop
  | .pool i => (s.writePool i).inUse = true
  | .dynamic n => (s.heap n).isSome = true

/-- Records of the pool are not marked as allocated, those of the heap are, and `malloc` has
not returned what it will return. -/
structure SlotKinds (s : Session H) : Prop where
  pool : ∀ i, (s.writePool i).inUse = true → (s.writePool i).isDynamic = false
  heap : ∀ n w, s.heap n = some w → w.isDynamic = true
  fresh : ∀ n, s.mallocs ≤ n → s.heap n = none

/-- The records in use are `slots`, each once. -/
structure SlotsOk (s : Session H) (slots : List Slot) : Prop where
  nodup : slots.Nodup
  uses : ∀ wr, s.Uses wr ↔ wr ∈ slots
  kinds : SlotKinds s

theorem SlotsOk.perm {s : Session H} {slots slots' : List Slot} (h : SlotsOk s slots)
    (hp : slots.Perm slots') : SlotsOk s slots' :=
  ⟨hp.nodup_iff.mp h.nodup, fun wr => (h.uses wr).trans hp.mem_iff, h.kinds⟩

/-- The record of a send holds its message. -/
def Submission.HeldBy (send : Submission) (s : Session H) : Prop :=
  ∃ w, s.deref send.wr = some w ∧ w.data = send.response.encode

structure Records (s : Session H) (sends : List Submission) (done : List Slot) : Prop where
  slots : SlotsOk s (sends.map Submission.wr ++ done)
  held : ∀ send ∈ sends, send.HeldBy s

/-- Two sessions with the same records. -/
structure SameRecords (s s' : Session H) : Prop where
  writePool : s'.writePool = s.writePool
  heap : s'.heap = s.heap

theorem SameIo.sameRecords {s s' : Session H} (h : SameIo s s') : SameRecords s s' :=
  ⟨h.writePool, h.heap⟩

theorem SameRecords.deref {s s' : Session H} (h : SameRecords s s') (wr : Slot) :
    s'.deref wr = s.deref wr := by
  cases wr with
  | pool i => rw [Session.deref, Session.deref, h.writePool]
  | dynamic n => rw [Session.deref, Session.deref, h.heap]

theorem SameRecords.uses {s s' : Session H} (h : SameRecords s s') (wr : Slot) :
    s'.Uses wr ↔ s.Uses wr := by
  cases wr with
  | pool i => rw [Session.Uses, Session.Uses, h.writePool]
  | dynamic n => rw [Session.Uses, Session.Uses, h.heap]

theorem Records.same {s s' : Session H} {sends : List Submission} {done : List Slot}
    (h : Records s sends done) (hs : SameRecords s s') (hm : s.mallocs ≤ s'.mallocs) :
    Records s' sends done := by
  have hk := h.slots.kinds
  refine ⟨⟨h.slots.nodup, fun wr => (hs.uses wr).trans (h.slots.uses wr), ?_, ?_, ?_⟩, ?_⟩
  · rw [hs.writePool]
    exact hk.pool
  · rw [hs.heap]
    exact hk.heap
  · rw [hs.heap]
    exact fun n hn => hk.fresh n (hm.trans hn)
  · intro send hsend
    obtain ⟨w, hw, hd⟩ := h.held send hsend
    exact ⟨w, (hs.deref _).trans hw, hd⟩

theorem records_accept (clientFd : ℤ) (addr : ℕ) (numWorkers : UInt32) :
    Records (acceptSession clientFd addr numWorkers : Session H) [] [] := by
  refine ⟨⟨List.nodup_nil, fun wr => ?_, fun i h => ?_, fun n w h => ?_, fun _ _ => rfl⟩,
    fun send h => absurd h List.not_mem_nil⟩
  · cases wr <;> simp [Session.Uses, acceptSession]
  · cases h
  · cases h

/-! ### Taking a record -/

/-- A send is added whose record was not in use. -/
theorem Records.take {s s' : Session H} {sends : List Submission} {done : List Slot}
    (h : Records s sends done) {send : Submission} (hnew : ¬s.Uses send.wr)
    (huses : ∀ wr, s'.Uses wr ↔ wr = send.wr ∨ s.Uses wr)
    (hderef : ∀ wr, wr ≠ send.wr → s'.deref wr = s.deref wr) (hheld : send.HeldBy s')
    (hk : SlotKinds s') : Records s' (sends ++ [send]) done := by
  have hnot : send.wr ∉ sends.map Submission.wr ++ done := fun hm =>
    hnew ((h.slots.uses _).mpr hm)
  refine ⟨?_, fun send' hs => ?_⟩
  · rw [List.map_append, List.map_singleton, List.append_assoc, List.singleton_append]
    refine SlotsOk.perm ⟨List.nodup_cons.mpr ⟨hnot, h.slots.nodup⟩, fun wr => ?_, hk⟩
      List.perm_middle.symm
    rw [huses, h.slots.uses, List.mem_cons]
  · rcases List.mem_append.mp hs with hs | hs
    · obtain ⟨w, hw, hd⟩ := h.held send' hs
      refine ⟨w, (hderef _ fun e => hnot ?_).trans hw, hd⟩
      rw [← e]
      exact List.mem_append_left _ (List.mem_map_of_mem hs)
    · rw [List.mem_singleton.mp hs]
      exact hheld

theorem freeSlot_not_inUse {s : Session H} {i : Fin maxConcurrentWrites}
    (h : s.freeSlot = some i) : (s.writePool i).inUse = false := by
  have := List.find?_some h
  simpa using this

/-- A response takes a record that is not in use, if there is one. -/
theorem queueResponse_records {s : Session H} {sends : List Submission} {done : List Slot}
    (h : Records s sends done) (r : Response) :
    Records (queueResponse E s r).1 (sends ++ (queueResponse E s r).2) done := by
  have ho := queueResponse_outcome E s r
  generalize queueResponse E s r = q at ho ⊢
  have hk := h.slots.kinds
  cases ho with
  | tooLong => rwa [List.append_nil]
  | noMemory =>
      rw [List.append_nil]
      exact h.same ⟨rfl, rfl⟩ (Nat.le_succ _)
  | pooled i hlen hfree =>
      refine h.take ?_ (fun wr => ?_) (fun wr hwr => ?_) ⟨_, rfl, by simp⟩
        ⟨fun j hj => ?_, hk.heap, hk.fresh⟩
      · simp [Session.Uses, freeSlot_not_inUse hfree]
      · cases wr with
        | pool j => by_cases hj : j = i <;> simp [Session.Uses, hj]
        | dynamic n => simp [Session.Uses]
      · cases wr with
        | pool j =>
            have hj : j ≠ i := fun e => hwr (by rw [e])
            simp [Session.deref, Function.update_of_ne hj]
        | dynamic n => rfl
      · by_cases hji : j = i
        · simp [hji]
        · simp only [Function.update_of_ne hji] at hj ⊢
          exact hk.pool j hj
  | allocated hlen hfree hm =>
      refine h.take ?_ (fun wr => ?_) (fun wr hwr => ?_) ⟨_, Function.update_self _ _ _, rfl⟩
        ⟨hk.pool, fun n w hw => ?_, fun n hn => ?_⟩
      · simp [Session.Uses, hk.fresh s.mallocs (Nat.le_refl _)]
      · cases wr with
        | pool j => simp [Session.Uses]
        | dynamic n => by_cases hn : n = s.mallocs <;> simp [Session.Uses, hn]
      · cases wr with
        | pool j => rfl
        | dynamic n =>
            have hn : n ≠ s.mallocs := fun e => hwr (by rw [e])
            simp [Session.deref, Function.update_of_ne hn]
      · by_cases hne : n = s.mallocs
        · simp only [hne, Function.update_self, Option.some.injEq] at hw
          rw [← hw]
        · simp only [Function.update_of_ne hne] at hw
          exact hk.heap n w hw
      · have hle : s.mallocs + 1 ≤ n := hn
        have hne : n ≠ s.mallocs := by omega
        simp only [Function.update_of_ne hne]
        exact hk.fresh n (by omega)

variable {E} in
theorem Queues.records {s s' : Session H} {new : List Submission} (hq : Queues E s new s')
    {sends : List Submission} {done : List Slot} (h : Records s sends done) :
    Records s' (sends ++ new) done := by
  induction hq with
  | nil => rwa [List.append_nil]
  | quiet _ hio ih => exact ih.same hio.sameRecords hio.mallocs.ge
  | queue r _ _ ih =>
      rw [← List.append_assoc]
      exact queueResponse_records E ih r

/-- A read takes a record for every send it makes. -/
theorem processClientRead_records {s : Session H} {sends : List Submission} {done : List Slot}
    (h : Records s sends done) (bytes : List UInt8) :
    Records (processClientRead E s bytes).session (sends ++ (processClientRead E s bytes).sends)
      done := by
  obtain ⟨s₁, hq, hio⟩ := processClientRead_queues E s bytes
  rcases hio with hio | hio
  · exact (hq.records h).same hio.sameRecords hio.mallocs.ge
  · exact (hq.records h).same ⟨hio.writePool, hio.heap⟩ hio.mallocs.ge

/-! ### Giving a record back -/

/-- The kernel completes a send. -/
theorem Records.complete {s : Session H} {sends : List Submission} {done : List Slot}
    (h : Records s sends done) {i : ℕ} {send : Submission} (hi : sends[i]? = some send) :
    Records s (sends.eraseIdx i) (done ++ [send.wr]) := by
  obtain ⟨hlt, rfl⟩ := List.getElem?_eq_some_iff.mp hi
  refine ⟨h.slots.perm ?_, fun send' hs => h.held send' (List.mem_of_mem_eraseIdx hs)⟩
  have hp := ((List.getElem_cons_eraseIdx_perm hlt).map Submission.wr).symm
  rw [List.map_cons] at hp
  refine (hp.append_right done).trans ?_
  rw [List.cons_append, ← List.append_assoc]
  exact (List.perm_append_singleton _ _).symm

/-- The record of a completed send is not in use any more. -/
theorem Records.give {s s' : Session H} {sends : List Submission} {done : List Slot} {wr : Slot}
    (h : Records s sends (wr :: done)) (huses : ∀ wr', s'.Uses wr' ↔ wr' ≠ wr ∧ s.Uses wr')
    (hderef : ∀ wr', wr' ≠ wr → s'.deref wr' = s.deref wr') (hk : SlotKinds s') :
    Records s' sends done := by
  have hslots := h.slots.perm List.perm_middle
  obtain ⟨hnot, hnodup⟩ := List.nodup_cons.mp hslots.nodup
  refine ⟨⟨hnodup, fun wr' => ?_, hk⟩, fun send hs => ?_⟩
  · rw [huses, hslots.uses, List.mem_cons]
    constructor
    · rintro ⟨hne, rfl | hm⟩
      · exact absurd rfl hne
      · exact hm
    · exact fun hm => ⟨fun e => hnot (e ▸ hm), .inr hm⟩
  · obtain ⟨w, hw, hd⟩ := h.held send hs
    refine ⟨w, (hderef _ fun e => hnot ?_).trans hw, hd⟩
    rw [← e]
    exact List.mem_append_left _ (List.mem_map_of_mem hs)

/-- `free_write_response` gives exactly its record back. -/
theorem freeWriteResponse_records {s : Session H} {sends : List Submission} {done : List Slot}
    {wr : Slot} (h : Records s sends (wr :: done)) :
    Records (freeWriteResponse s wr) sends done := by
  have hk := h.slots.kinds
  have huse : s.Uses wr := (h.slots.uses wr).mpr (by simp)
  cases wr with
  | pool i =>
      have hfree : freeWriteResponse s (.pool i) =
          s.assign { s.writePool i with inUse := false } (.pool i) := by
        simp only [freeWriteResponse, Session.deref]
        rw [hk.pool i huse, if_neg (by simp)]
      rw [hfree]
      refine h.give (fun wr => ?_) (fun wr hwr => ?_) ⟨fun j hj => ?_, hk.heap, hk.fresh⟩
      · cases wr with
        | pool j =>
            by_cases hj : j = i <;> simp [Session.Uses, Session.assign, hj]
        | dynamic n => simp [Session.Uses, Session.assign]
      · cases wr with
        | pool j =>
            have hj : j ≠ i := fun e => hwr (by rw [e])
            simp [Session.deref, Session.assign, Function.update_of_ne hj]
        | dynamic n => rfl
      · by_cases hji : j = i
        · simp [Session.assign, hji] at hj
        · simp only [Session.assign, Function.update_of_ne hji] at hj ⊢
          exact hk.pool j hj
  | dynamic n =>
      obtain ⟨w, hw⟩ := Option.isSome_iff_exists.mp huse
      have hfree : freeWriteResponse s (.dynamic n) = s.release (.dynamic n) := by
        simp only [freeWriteResponse, Session.deref, hw]
        rw [if_pos (hk.heap n w hw)]
      rw [hfree]
      refine h.give (fun wr => ?_) (fun wr hwr => ?_) ⟨hk.pool, fun k w' hw' => ?_, fun k hk' => ?_⟩
      · cases wr with
        | pool j => simp [Session.Uses, Session.release]
        | dynamic k =>
            by_cases hj : k = n <;> simp [Session.Uses, Session.release, hj]
      · cases wr with
        | pool j => rfl
        | dynamic k =>
            have hj : k ≠ n := fun e => hwr (by rw [e])
            simp [Session.deref, Session.release, Function.update_of_ne hj]
      · by_cases hkn : k = n
        · simp [Session.release, hkn] at hw'
        · simp only [Session.release, Function.update_of_ne hkn] at hw'
          exact hk.heap k w' hw'
      · by_cases hkn : k = n
        · simp [Session.release, hkn]
        · simp only [Session.release, Function.update_of_ne hkn] at hk' ⊢
          exact hk.fresh k hk'

/-! ### Connections -/

/-- The records of a connection. -/
def Conn.Records (c : Conn H) : Prop := MachAudio.Records c.session c.sends (sendSlots c.cq)

theorem Conn.records_accept (clientFd : ℤ) (addr : ℕ) (numWorkers : UInt32) :
    (Conn.accept clientFd addr numWorkers : Conn H).Records :=
  MachAudio.records_accept clientFd addr numWorkers

theorem Conn.Records.of_same {c c' : Conn H} (h : c.Records)
    (hs : SameRecords c.session c'.session) (hm : c.session.mallocs ≤ c'.session.mallocs)
    (hsends : c'.sends = c.sends) (hcq : sendSlots c'.cq = sendSlots c.cq) : c'.Records := by
  rw [Conn.Records, hsends, hcq]
  exact MachAudio.Records.same h hs hm

/-- Cleanup touches neither the records nor what the peer is given. -/
structure CleanedUp (c c' : Conn H) : Prop where
  writePool : c'.session.writePool = c.session.writePool
  heap : c'.session.heap = c.session.heap
  mallocs : c'.session.mallocs = c.session.mallocs
  closing : c'.session.closing = c.session.closing
  sends : c'.sends = c.sends
  cq : c'.cq = c.cq
  received : c'.received = c.received
  submitted : c'.submitted = c.submitted

theorem Conn.cleanup_cleanedUp (c : Conn H) : CleanedUp c c.cleanup := by
  rw [Conn.cleanup_eq, Session.closeFd]
  split_ifs <;> exact ⟨rfl, rfl, rfl, rfl, rfl, rfl, rfl, rfl⟩

theorem Conn.Records.cleanup {c : Conn H} (h : c.Records) : c.cleanup.Records := by
  have hc := c.cleanup_cleanedUp
  exact h.of_same ⟨hc.writePool, hc.heap⟩ hc.mallocs.ge hc.sends (by rw [hc.cq])

theorem Conn.Records.read {c : Conn H} (h : c.Records) (bytes : List UInt8) :
    (c.read E bytes).Records := processClientRead_records E h bytes

theorem Conn.Records.afterRead {c : Conn H} (h : c.Records) (more : Bool) :
    (c.afterRead more).Records := by
  have hrearm : (if !c.session.closing && !more then c.rearm else c).Records := by
    split_ifs
    · exact h.of_same ⟨rfl, rfl⟩ (Nat.le_refl _) rfl rfl
    · exact h
  rw [Conn.afterRead]
  split_ifs at hrearm ⊢
  · exact hrearm.cleanup
  · exact hrearm
  · exact hrearm.cleanup
  · exact hrearm

theorem handleRecv_records {c : Conn H} (h : c.Records) (res : ℤ) (more : Bool)
    (buffer : Option (ℕ × List UInt8)) : (handleRecv E c res more buffer).Records := by
  have hnote : (c.noteMore more).Records := by
    rw [Conn.noteMore]
    split_ifs
    · exact h
    · exact h.of_same ⟨rfl, rfl⟩ (Nat.le_refl _) rfl rfl
  rw [handleRecv]
  generalize c.noteMore more = c₁ at hnote ⊢
  split_ifs
  · exact hnote.of_same ⟨rfl, rfl⟩ (Nat.le_refl _) rfl rfl
  · have hclosing : c₁.markClosing.Records := hnote.of_same ⟨rfl, rfl⟩ (Nat.le_refl _) rfl rfl
    exact hclosing.cleanup
  · cases buffer with
    | none => exact hnote.afterRead more
    | some b => exact (hnote.read E b.2).afterRead more

theorem handleSend_records {c : Conn H} {wr : Slot} {res : ℤ} {cq : List Cqe} (h : c.Records)
    (hcq : c.cq = .send wr res :: cq) : (handleSend { c with cq := cq } wr res).Records := by
  rw [Conn.Records, hcq] at h
  apply Conn.Records.cleanup
  refine freeWriteResponse_records (MachAudio.Records.same h ?_ ?_)
  · split_ifs <;> exact ⟨rfl, rfl⟩
  · split_ifs <;> exact Nat.le_refl _

/-- **Every step keeps the records.** -/
theorem records_step {c c' : Conn H} {e : ConnEvent} (h : c.Records)
    (hs : c.step E e = some c') : c'.Records := by
  cases Conn.step_move hs with
  | recv _ _ _ => exact h.of_same ⟨rfl, rfl⟩ (Nat.le_refl _) rfl (by simp [sendSlots])
  | @complete i res send hi _ =>
      have := MachAudio.Records.complete h hi
      rw [Conn.Records]
      simpa [sendSlots] using this
  | @handleRecv res more buffer cq hcq =>
      have h' : Conn.Records { c with cq := cq } := by
        refine h.of_same ⟨rfl, rfl⟩ (Nat.le_refl _) rfl ?_
        rw [hcq]
        rfl
      exact handleRecv_records E h' res more buffer
  | handleSend hcq => exact handleSend_records h hcq

end MachAudio
