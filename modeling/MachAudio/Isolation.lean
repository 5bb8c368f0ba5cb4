import MachAudio.EventLoop

/-! # The runs of one connection

The event loop serves all connections in one thread, with one ring of receive buffers and one
completion queue.  In the model an event of one connection touches no other, so that the state of
a connection is that of a run of its own: `connEvents i` are the events of connection `i`, and
`conns_alone` takes a run of the server apart into them.  What is proved of one connection holds
in this way of each connection of a server (`conn_runs`).

The answers of the allocator and of the clock are those of the environment, which counts the
questions of each session on its own.  A request that divides by zero ends the process with all
its connections; results about a server that goes on ask of every connection that its requests
can be survived. -/

namespace MachAudio

open Transition

variable {H Φ : Type} {E : Env H Φ} {numWorkers : UInt32}

/-! ### The events of one connection -/

/-- The sessions that the accepts among the events create, in order. -/
def accepted (es : List WorldEvent) : List (ℤ × ℕ) :=
  es.filterMap fun
    | .accept res (some addr) => if res < 0 then none else some (res, addr)
    | _ => none

/-- The events of connection `i`. -/
def connEvents (i : ℕ) (es : List WorldEvent) : List ConnEvent :=
  es.filterMap fun
    | .conn j e => if j = i then some e else none
    | _ => none

@[simp] theorem accepted_append (es es' : List WorldEvent) :
    accepted (es ++ es') = accepted es ++ accepted es' := List.filterMap_append

@[simp] theorem connEvents_append (i : ℕ) (es es' : List WorldEvent) :
    connEvents i (es ++ es') = connEvents i es ++ connEvents i es' := List.filterMap_append

theorem connEvents_conn (i j : ℕ) (e : ConnEvent) :
    connEvents i [.conn j e] = if j = i then [e] else [] := by
  unfold connEvents
  split_ifs with h <;> simp [h]

/-! ### What one event does to the connections -/

theorem worldStep_accept {w w' : World H} {res : ℤ} {addr : Option ℕ}
    (h : worldStep E numWorkers w (.accept res addr) = some w') :
    w'.conns = w.conns ++
      (accepted [.accept res addr]).map fun a => Conn.accept a.1 a.2 numWorkers := by
  cases ha : w.acceptArmed with
  | false => simp [worldStep, ha] at h
  | true =>
      simp only [worldStep, ha, if_true, Option.some.injEq] at h
      rw [← h]
      cases addr with
      | none => simp [accepted]
      | some addr =>
          by_cases hres : res < 0
          · simp [accepted, hres]
          · simp [accepted, hres]

theorem worldStep_conn {w w' : World H} {i : ℕ} {e : ConnEvent}
    (h : worldStep E numWorkers w (.conn i e) = some w') :
    ∃ c c', w.conns[i]? = some c ∧ c.step E e = some c' ∧ w'.conns = w.conns.set i c' := by
  cases hc : w.conns[i]? with
  | none => simp [worldStep, hc] at h
  | some c =>
      by_cases hr : ∀ b ∈ e.takes, b ∈ w.ring
      · simp only [worldStep, hc, if_pos hr, Option.map_eq_some_iff] at h
        obtain ⟨r, hr', rfl⟩ := h
        exact ⟨c, r.1, rfl, by rw [Conn.step, hr']; rfl, rfl⟩
      · simp only [worldStep, hc, if_neg hr] at h
        cases h

/-! ### One connection on its own -/

/-- Connection `i` as a server that serves nobody else would have it. -/
def connAlone (E : Env H Φ) (numWorkers : UInt32) (es : List WorldEvent) (i : ℕ) :
    Option (Conn H) :=
  (accepted es)[i]?.bind fun a =>
    run (Conn.step E) (Conn.accept a.1 a.2 numWorkers) (connEvents i es)

/-- What a run keeps: as many connections as accepts, events only of those, and each of them in
the state of its own run. -/
structure Alone (E : Env H Φ) (numWorkers : UInt32) (es : List WorldEvent) (w : World H) :
    Prop where
  count : w.conns.length = (accepted es).length
  later : ∀ i, w.conns.length ≤ i → connEvents i es = []
  conns : ∀ i, w.conns[i]? = connAlone E numWorkers es i

theorem Alone.accept {es : List WorldEvent} {w w' : World H} {res : ℤ} {addr : Option ℕ}
    (h : Alone E numWorkers es w) (hs : worldStep E numWorkers w (.accept res addr) = some w') :
    Alone E numWorkers (es ++ [.accept res addr]) w' := by
  have hconns := worldStep_accept hs
  have hnone : ∀ i, connEvents i [.accept res addr] = [] := fun _ => rfl
  have hlen : w'.conns.length = (accepted (es ++ [.accept res addr])).length := by
    rw [hconns, accepted_append, List.length_append, List.length_append, List.length_map, h.count]
  refine ⟨hlen, ?_, ?_⟩
  · intro i hi
    rw [connEvents_append, hnone, List.append_nil]
    apply h.later
    rw [hconns, List.length_append] at hi
    omega
  · intro i
    unfold connAlone
    rw [connEvents_append, hnone, List.append_nil, accepted_append, hconns]
    by_cases hi : i < w.conns.length
    · rw [List.getElem?_append_left hi, List.getElem?_append_left (by rw [← h.count]; exact hi)]
      exact h.conns i
    · rw [List.getElem?_append_right (by omega),
        List.getElem?_append_right (by rw [← h.count]; omega), h.later i (by omega), List.getElem?_map, h.count]
      cases (accepted [.accept res addr])[i - (accepted es).length]? <;> rfl

theorem Alone.conn {es : List WorldEvent} {w w' : World H} {j : ℕ} {e : ConnEvent}
    (h : Alone E numWorkers es w) (hs : worldStep E numWorkers w (.conn j e) = some w') :
    Alone E numWorkers (es ++ [.conn j e]) w' := by
  obtain ⟨c, c', hc, hstep, hconns⟩ := worldStep_conn hs
  have hj : j < w.conns.length := (List.getElem?_eq_some_iff.mp hc).1
  have hacc : accepted (es ++ [.conn j e]) = accepted es := by
    rw [accepted_append]
    exact List.append_nil _
  refine ⟨?_, ?_, ?_⟩
  · rw [hconns, hacc, List.length_set, h.count]
  · intro i hi
    rw [hconns, List.length_set] at hi
    rw [connEvents_append, connEvents_conn, if_neg (by omega), List.append_nil, h.later i hi]
  · intro i
    have hi := h.conns i
    unfold connAlone at hi ⊢
    rw [hacc, connEvents_append, connEvents_conn, hconns]
    by_cases hij : j = i
    · subst hij
      rw [hc] at hi
      obtain ⟨a, ha, hrun⟩ := Option.bind_eq_some_iff.mp hi.symm
      rw [if_pos rfl, List.getElem?_set_self hj, ha, Option.bind_some, run_snoc, hrun,
        Option.bind_some, hstep]
    · rw [if_neg hij, List.append_nil, List.getElem?_set_ne hij, hi]

/-- **Every connection is where its own events lead**, whatever the others do. -/
theorem conns_alone {es : List WorldEvent} {w : World H}
    (h : Reaches (worldStep E numWorkers) World.start es w) : Alone E numWorkers es w := by
  refine h.history (I := fun es w => Alone E numWorkers es w)
    ⟨rfl, fun _ _ => rfl, fun _ => rfl⟩ fun es w e w' ih _ hs => ?_
  cases e with
  | accept res addr => exact ih.accept hs
  | conn j e => exact ih.conn hs
  | signal =>
      have hconns : w'.conns = w.conns := by
        simp only [worldStep, Option.some.injEq] at hs
        rw [← hs]
      have hacc : accepted (es ++ [.signal]) = accepted es := by
        rw [accepted_append]
        exact List.append_nil _
      have hev : ∀ i, connEvents i (es ++ [.signal]) = connEvents i es := by
        intro i
        rw [connEvents_append]
        exact List.append_nil _
      refine ⟨by rw [hconns, hacc, ih.count], fun i hi => ?_, fun i => ?_⟩
      · rw [hev]
        exact ih.later i (hconns ▸ hi)
      · unfold connAlone
        rw [hconns, hacc, hev]
        exact ih.conns i

/-! ### Conditions on one connection -/

/-- The events of connection `i` meet a condition; the others do as they like. -/
def OfConn (i : ℕ) (C : Conn H → ConnEvent → Prop) (w : World H) : WorldEvent → Prop
  | .conn j e => j = i → ∀ c ∈ w.conns[j]?, C c e
  | _ => True

instance {i : ℕ} {C : Conn H → ConnEvent → Prop} [∀ c e, Decidable (C c e)] (w : World H)
    (e : WorldEvent) : Decidable (OfConn i C w e) := by
  cases e with
  | conn j e => exact inferInstanceAs (Decidable (j = i → ∀ c ∈ w.conns[j]?, C c e))
  | accept res addr => exact .isTrue trivial
  | signal => exact .isTrue trivial

/-- A run that meets the condition is a run of the connection that meets it. -/
theorem conn_runs {C : Conn H → ConnEvent → Prop} {i : ℕ} {es : List WorldEvent} {w : World H}
    (h : Runs (worldStep E numWorkers) (OfConn i C) World.start es w) {c : Conn H}
    (hc : w.conns[i]? = some c) :
    ∃ clientFd addr, (accepted es)[i]? = some (clientFd, addr) ∧
      Runs (Conn.step E) C (Conn.accept clientFd addr numWorkers) (connEvents i es) c := by
  refine (h.history
    (I := fun es w => Reaches (worldStep E numWorkers) World.start es w ∧
      ∀ c, w.conns[i]? = some c → ∃ clientFd addr, (accepted es)[i]? = some (clientFd, addr) ∧
        Runs (Conn.step E) C (Conn.accept clientFd addr numWorkers) (connEvents i es) c)
    ⟨.nil, fun c hc => by cases hc⟩ ?_).2 c hc
  intro es w e w' ⟨hr, ih⟩ hC hs
  have halone := conns_alone hr
  refine ⟨.snoc hr trivial hs, fun c hc => ?_⟩
  cases e with
  | signal =>
      have hconns : w'.conns = w.conns := by
        simp only [worldStep, Option.some.injEq] at hs
        rw [← hs]
      rw [hconns] at hc
      obtain ⟨clientFd, addr, hacc, hrun⟩ := ih c hc
      have hev : connEvents i (es ++ [.signal]) = connEvents i es := by
        rw [connEvents_append]
        exact List.append_nil _
      refine ⟨clientFd, addr, ?_, by rwa [hev]⟩
      rw [accepted_append]
      exact (congrArg (·[i]?) (List.append_nil _)).trans hacc
  | accept res addr =>
      have hev : connEvents i (es ++ [.accept res addr]) = connEvents i es := by
        rw [connEvents_append]
        exact List.append_nil _
      rw [worldStep_accept hs] at hc
      rw [hev, accepted_append]
      by_cases hi : i < w.conns.length
      · rw [List.getElem?_append_left hi] at hc
        rw [List.getElem?_append_left (by rw [← halone.count]; exact hi)]
        exact ih c hc
      · rw [List.getElem?_append_right (by omega), List.getElem?_map] at hc
        obtain ⟨a, ha, rfl⟩ := Option.map_eq_some_iff.mp hc
        rw [halone.later i (by omega), List.getElem?_append_right (by rw [← halone.count]; omega),
          ← halone.count]
        exact ⟨a.1, a.2, ha, .nil⟩
  | conn j e =>
      obtain ⟨c₀, c', hc₀, hstep, hconns⟩ := worldStep_conn hs
      have hj : j < w.conns.length := (List.getElem?_eq_some_iff.mp hc₀).1
      rw [hconns] at hc
      rw [connEvents_append, connEvents_conn, accepted_append]
      have hacc : accepted es ++ accepted [.conn j e] = accepted es := List.append_nil _
      rw [hacc]
      by_cases hij : j = i
      · subst hij
        rw [List.getElem?_set_self hj] at hc
        obtain rfl := Option.some.inj hc
        obtain ⟨clientFd, addr, ha, hrun⟩ := ih c₀ hc₀
        rw [if_pos rfl]
        exact ⟨clientFd, addr, ha, hrun.snoc (hC rfl c₀ hc₀) hstep⟩
      · rw [List.getElem?_set_ne hij] at hc
        rw [if_neg hij, List.append_nil]
        exact ih c hc

end MachAudio
