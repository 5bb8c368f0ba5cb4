import MachAudio.Governors
import MachAudio.Lib.Ledger

/-! # The life of a worker

`run_worker` sets the governor of its core, holds the DMA latency down, and initialises and starts
the server; however that ends, it gives the latency and the governor back.  A server that was
started and ran to the end of its loop has released everything.  But `mach_server_init` leaves the
file of its socket behind when something fails after the `bind`, and forgets the memory of the
buffer ring when the signals cannot be blocked or their descriptor cannot be made; and
`mach_server_start` releases nothing when it cannot listen or submit (`run_worker_releases`). -/

namespace MachAudio

/-! ### What is acquired -/

/-- What a worker acquires: descriptors, blocks, the `io_uring`, and the file of its socket. -/
inductive WorkerResource
  | fd (number : ℕ)
  | block (address : ℕ)
  | ring
  | path
deriving DecidableEq, Repr

/-- `unlink` of the path of the socket; there may be no file. -/
def unlinkPath (l : Ledger WorkerResource) : Ledger WorkerResource :=
  { l with held := l.held.erase .path }

/-! ### Initialisation of the server -/

/-- The results of the calls of `mach_server_init` that decide how it goes on. -/
structure InitOutcomes where
  socket : Option ℕ
  reuseAddr : Bool
  inetPton : Bool
  bind : Bool
  chmod : Bool
  /-- `io_uring_queue_init_params` with `IORING_SETUP_SQPOLL`, and without. -/
  queueInitSqpoll : ℤ
  queueInit : ℤ
  ctx : Option ℕ
  bufMem : Option ℕ
  br : Option ℕ
  registerBufRing : Bool
  sigprocmask : Bool
  signalfd : Option ℕ
deriving DecidableEq, Repr

/-- The blocks of a `buf_ring_context`. -/
structure BufRingContext where
  ctx : ℕ
  bufMem : ℕ
  br : ℕ
deriving DecidableEq, Repr

/-- What a `MachServer` refers to when it is initialised. -/
structure MachServer where
  listenFd : ℕ
  signalFd : ℕ
  bufRing : BufRingContext
deriving DecidableEq, Repr

def einval : ℤ := 22

/-- The part of `mach_server_init` that gives the socket its name. -/
def bindSocket (isTcp : Bool) (o : InitOutcomes) (l : Ledger WorkerResource) :
    Bool × Ledger WorkerResource :=
  if isTcp then (o.reuseAddr && o.inetPton && o.bind, l)
  else if o.bind then (o.chmod, (unlinkPath l).acquire .path)
  else (false, unlinkPath l)

/-- The `io_uring`, without a polling thread if the kernel does not take the parameters. -/
def InitOutcomes.queue (o : InitOutcomes) : ℤ :=
  if o.queueInitSqpoll = -einval then o.queueInit else o.queueInitSqpoll

/-- The memory of `init_registered_buffer_ring`. -/
def initBufRingContext (o : InitOutcomes) (l : Ledger WorkerResource) :
    Option BufRingContext × Ledger WorkerResource :=
  match o.ctx with
  | none => (none, l)
  | some ctx =>
      let l := (l.acquire (.block ctx)).acquireOption (o.bufMem.map .block)
      let l := l.acquireOption (o.br.map .block)
      match o.bufMem, o.br, o.registerBufRing with
      | some bufMem, some br, true => (some ⟨ctx, bufMem, br⟩, l)
      | bufMem, br, _ =>
          (none, ((l.releaseOption (bufMem.map .block)).releaseOption (br.map .block)).release
            (.block ctx))

/-- The part of `mach_server_init` behind the buffer ring, when the listening socket is `fd`. -/
def initSignals (o : InitOutcomes) (fd : ℕ) (ctx : Option BufRingContext)
    (l : Ledger WorkerResource) : Option MachServer × Ledger WorkerResource :=
  match ctx, o.sigprocmask, o.signalfd with
  | some ctx, true, some sigFd => (some ⟨fd, sigFd, ctx⟩, l.acquire (.fd sigFd))
  | _, _, _ => (none, (l.release .ring).release (.fd fd))

/-- The server, or that it could not be initialised. -/
def machServerInit (isTcp : Bool) (o : InitOutcomes) (l : Ledger WorkerResource) :
    Option MachServer × Ledger WorkerResource :=
  match o.socket with
  | none => (none, l)
  | some fd =>
      let bound := bindSocket isTcp o (l.acquire (.fd fd))
      if bound.1 = false ∨ o.queue < 0 then (none, bound.2.release (.fd fd))
      else
        let ring := initBufRingContext o (bound.2.acquire .ring)
        initSignals o fd ring.1 ring.2

/-! ### The server runs -/

/-- The results of `listen` and of the first `io_uring_submit`. -/
structure StartOutcomes where
  listen : Bool
  submit : ℤ
deriving DecidableEq, Repr

/-- `mach_server_start` around its loop. -/
def machServerStart (isTcp : Bool) (o : StartOutcomes) (server : MachServer)
    (l : Ledger WorkerResource) : ℤ × Ledger WorkerResource :=
  if o.listen = false ∨ o.submit < 0 then (-1, l)
  else
    let l := ((l.release (.fd server.signalFd)).release (.fd server.listenFd)).release .ring
    let l := ((l.release (.block server.bufRing.bufMem)).release
      (.block server.bufRing.br)).release (.block server.bufRing.ctx)
    (0, if isTcp then l else unlinkPath l)

/-! ### The worker -/

/-- The results of the calls of `run_worker`. -/
structure WorkerOutcomes where
  governorRead : Bool
  governorWrite : WriteOutcome
  /-- `/dev/cpu_dma_latency` is opened, and written. -/
  dmaOpen : Option ℕ
  dmaWrite : Bool
  init : InitOutcomes
  start : StartOutcomes
  governorRestore : WriteOutcome
deriving DecidableEq, Repr

/-- What a worker changes. -/
structure WorkerState where
  ledger : Ledger WorkerResource
  governor : ℕ → Governor
  tuning : Tuning

/-- Both parts of `os_tune_cpu_governor`. -/
def osTuneCpuGovernor (o : WorkerOutcomes) (s : WorkerState) : WorkerState :=
  let t := s.tuning.read s.governor o.governorRead
  if t.phase = .reading then
    { s with
      governor := writeGovernor s.governor t.core performance o.governorWrite
      tuning := t.write o.governorWrite }
  else { s with tuning := t }

def osRestoreCpuGovernor (o : WorkerOutcomes) (s : WorkerState) : WorkerState :=
  { s with
    governor :=
      if s.tuning.mustRestore then
        writeGovernor s.governor s.tuning.core s.tuning.original o.governorRestore
      else s.governor
    tuning := s.tuning.restore o.governorRestore }

/-- The descriptor that holds the latency down. -/
def osLockDmaLatency (o : WorkerOutcomes) (l : Ledger WorkerResource) :
    Option ℕ × Ledger WorkerResource :=
  match o.dmaOpen with
  | none => (none, l)
  | some fd =>
      if o.dmaWrite then (some fd, l.acquire (.fd fd))
      else (none, (l.acquire (.fd fd)).release (.fd fd))

/-- The server is initialised, and started if there is one. -/
def serve (isTcp : Bool) (o : WorkerOutcomes) (l : Ledger WorkerResource) :
    ℤ × Ledger WorkerResource :=
  match machServerInit isTcp o.init l with
  | (none, l) => (1, l)
  | (some server, l) => machServerStart isTcp o.start server l

def runWorker (isTcp : Bool) (o : WorkerOutcomes) (s : WorkerState) : ℤ × WorkerState :=
  let s := if s.tuning.core ≠ -1 then osTuneCpuGovernor o s else s
  let dma := osLockDmaLatency o s.ledger
  let served := serve isTcp o dma.2
  let s := { s with ledger := served.2.releaseOption (dma.1.map .fd) }
  let s := if s.tuning.core ≠ -1 then osRestoreCpuGovernor o s else s
  (served.1, s)

/-! ### What stays -/

/-- The buffer ring is made. -/
def InitOutcomes.RingReady (o : InitOutcomes) (isTcp : Bool) : Prop :=
  o.socket ≠ none ∧ (bindSocket isTcp o ⟨[], 0⟩).1 = true ∧ 0 ≤ o.queue ∧
    o.ctx ≠ none ∧ o.bufMem ≠ none ∧ o.br ≠ none ∧ o.registerBufRing = true

/-- The server is initialised. -/
def InitOutcomes.Initialised (o : InitOutcomes) (isTcp : Bool) : Prop :=
  o.RingReady isTcp ∧ o.sigprocmask = true ∧ o.signalfd ≠ none

/-- The file of the socket, if it was made. -/
def InitOutcomes.pathLeft (o : InitOutcomes) (isTcp : Bool) : List WorkerResource :=
  if o.socket ≠ none ∧ isTcp = false ∧ o.bind = true then [.path] else []

/-- The blocks of the buffer ring. -/
def InitOutcomes.ringBlocks (o : InitOutcomes) : List WorkerResource :=
  (o.br.toList ++ o.bufMem.toList ++ o.ctx.toList).map .block

instance (o : InitOutcomes) (isTcp : Bool) : Decidable (o.RingReady isTcp) :=
  inferInstanceAs (Decidable (_ ∧ _))

/-- What an initialisation that fails leaves behind. -/
def InitOutcomes.left (o : InitOutcomes) (isTcp : Bool) : List WorkerResource :=
  (if o.RingReady isTcp then o.ringBlocks else []) ++ o.pathLeft isTcp

/-- The blocks are different, and so are the descriptors. -/
structure WorkerOutcomes.Fresh (o : WorkerOutcomes) : Prop where
  blocks : o.init.ringBlocks.Nodup
  fds : (o.dmaOpen.toList ++ o.init.socket.toList ++ o.init.signalfd.toList).Nodup

/-! ### Initialisation -/

/-- The ring is made with its three blocks, or leaves nothing. -/
theorem initBufRingContext_spec {o : InitOutcomes} (h : o.ringBlocks.Nodup)
    (l : Ledger WorkerResource) :
    (∃ ctx bufMem br, o.ctx = some ctx ∧ o.bufMem = some bufMem ∧ o.br = some br ∧
        o.registerBufRing = true ∧ initBufRingContext o l =
          (some ⟨ctx, bufMem, br⟩, { l with held := o.ringBlocks ++ l.held })) ∨
      (¬(o.ctx ≠ none ∧ o.bufMem ≠ none ∧ o.br ≠ none ∧ o.registerBufRing = true) ∧
        initBufRingContext o l = (none, l)) := by
  unfold InitOutcomes.ringBlocks at h ⊢
  unfold initBufRingContext
  cases hctx : o.ctx with
  | none => exact .inr ⟨fun hn => hn.1 rfl, rfl⟩
  | some ctx =>
      have hfree : ((((l.acquire (.block ctx)).acquireOption (o.bufMem.map .block)).acquireOption
          (o.br.map .block)).releaseOption (o.bufMem.map .block)).releaseOption
            (o.br.map .block) = l.acquire (.block ctx) := by
        apply Ledger.releaseOption_acquireOption
        intro r s hr hs heq
        obtain ⟨a, ha, rfl⟩ := Option.map_eq_some_iff.mp hr
        obtain ⟨b, hb, rfl⟩ := Option.map_eq_some_iff.mp hs
        rw [ha, hb, WorkerResource.block.inj heq] at h
        simp at h
      dsimp only
      cases hmem : o.bufMem with
      | none =>
          rw [hmem] at hfree
          refine .inr ⟨fun hn => hn.2.1 rfl, Prod.ext rfl ?_⟩
          exact (congrArg (Ledger.release · _) hfree).trans (l.release_acquire _)
      | some bufMem =>
          cases hbr : o.br with
          | none =>
              rw [hmem, hbr] at hfree
              refine .inr ⟨fun hn => hn.2.2.1 rfl, Prod.ext rfl ?_⟩
              exact (congrArg (Ledger.release · _) hfree).trans (l.release_acquire _)
          | some br =>
              rw [hmem, hbr] at hfree
              cases hreg : o.registerBufRing with
              | false =>
                  refine .inr ⟨fun hn => Bool.false_ne_true hn.2.2.2, Prod.ext rfl ?_⟩
                  exact (congrArg (Ledger.release · _) hfree).trans (l.release_acquire _)
              | true => exact .inl ⟨ctx, bufMem, br, rfl, rfl, rfl, rfl, rfl⟩

/-- The descriptors are not among the blocks, nor is the path. -/
theorem notMem_ringBlocks (o : InitOutcomes) (fd : ℕ) :
    WorkerResource.fd fd ∉ o.ringBlocks ∧ WorkerResource.ring ∉ o.ringBlocks ∧
      WorkerResource.path ∉ o.ringBlocks := by
  simp [InitOutcomes.ringBlocks]

theorem bindSocket_spec (isTcp : Bool) (o : InitOutcomes) {l : Ledger WorkerResource}
    (hsocket : o.socket ≠ none) (hpath : .path ∉ l.held) :
    bindSocket isTcp o l = ((bindSocket isTcp o ⟨[], 0⟩).1,
      { l with held := o.pathLeft isTcp ++ l.held }) := by
  have hunlink : unlinkPath l = l := by
    unfold unlinkPath
    rw [List.erase_of_not_mem hpath]
  unfold bindSocket InitOutcomes.pathLeft
  rw [hunlink]
  cases isTcp with
  | true => simp
  | false =>
      cases hbind : o.bind with
      | false => simp
      | true => simp [hsocket, Ledger.acquire]

theorem fd_notMem_pathLeft (isTcp : Bool) (o : InitOutcomes) (fd : ℕ) :
    WorkerResource.fd fd ∉ o.pathLeft isTcp := by
  unfold InitOutcomes.pathLeft
  split_ifs <;> simp

/-- What has become of an initialisation: a server that has all it needs, or none. -/
def InitEnds (isTcp : Bool) (o : InitOutcomes) (l : Ledger WorkerResource)
    (r : Option MachServer × Ledger WorkerResource) : Prop :=
  (o.Initialised isTcp ∧ ∃ fd sigFd ctx bufMem br, o.socket = some fd ∧
      o.signalfd = some sigFd ∧ o.ringBlocks = [.block br, .block bufMem, .block ctx] ∧
      r = (some ⟨fd, sigFd, ctx, bufMem, br⟩,
        { l with held := .fd sigFd ::
            (o.ringBlocks ++ .ring :: (o.pathLeft isTcp ++ .fd fd :: l.held)) })) ∨
    (¬o.Initialised isTcp ∧ r = (none, { l with held := o.left isTcp ++ l.held }))

/-- The part of the initialisation that has a bound socket and an `io_uring`. -/
theorem initSignals_ends (isTcp : Bool) {o : InitOutcomes} (h : o.ringBlocks.Nodup) {fd : ℕ}
    (hsocket : o.socket = some fd) (hbind : (bindSocket isTcp o ⟨[], 0⟩).1 = true)
    (hqueue : 0 ≤ o.queue) {l l' : Ledger WorkerResource}
    (hl' : l' = ⟨.ring :: (o.pathLeft isTcp ++ .fd fd :: l.held), l.faults⟩) :
    InitEnds isTcp o l
      (initSignals o fd (initBufRingContext o l').1 (initBufRingContext o l').2) := by
  have hclose : ∀ rs : List WorkerResource, .ring ∉ rs → .fd fd ∉ rs →
      ((⟨rs ++ l'.held, l'.faults⟩ : Ledger WorkerResource).release .ring).release (.fd fd) =
        ⟨rs ++ o.pathLeft isTcp ++ l.held, l.faults⟩ := by
    intro rs hring hrs
    rw [hl', Ledger.release_append _ _ _ hring, ← List.append_assoc]
    apply Ledger.release_append
    rw [List.mem_append, not_or]
    exact ⟨hrs, fd_notMem_pathLeft isTcp o fd⟩
  rcases initBufRingContext_spec h l' with
    ⟨ctx, bufMem, br, hctx, hmem, hbr, hreg, hring⟩ | ⟨hnot, hring⟩
  · have hready : o.RingReady isTcp :=
      ⟨by simp [hsocket], hbind, hqueue, by simp [hctx], by simp [hmem], by simp [hbr], hreg⟩
    have hblocks : o.ringBlocks = [.block br, .block bufMem, .block ctx] := by
      simp [InitOutcomes.ringBlocks, hctx, hmem, hbr]
    have hfail := hclose o.ringBlocks (notMem_ringBlocks o fd).2.1 (notMem_ringBlocks o fd).1
    rw [hring]
    unfold InitEnds initSignals InitOutcomes.left InitOutcomes.Initialised
    rw [if_pos hready]
    cases hsig : o.sigprocmask with
    | false => exact .inr ⟨fun hi => Bool.false_ne_true hi.2.1, Prod.ext rfl hfail⟩
    | true =>
        cases hfdSig : o.signalfd with
        | none => exact .inr ⟨fun hi => hi.2.2 rfl, Prod.ext rfl hfail⟩
        | some sigFd =>
            refine .inl ⟨⟨hready, rfl, Option.some_ne_none _⟩, fd, sigFd, ctx, bufMem, br,
              hsocket, rfl, hblocks, Prod.ext rfl ?_⟩
            rw [hl']
            rfl
  · have hunready : ¬o.RingReady isTcp := fun hr => hnot hr.2.2.2
    rw [hring]
    unfold InitEnds InitOutcomes.left
    rw [if_neg hunready]
    refine .inr ⟨fun hi => hunready hi.1, Prod.ext rfl ?_⟩
    exact hclose [] List.not_mem_nil List.not_mem_nil

/-- **Initialisation** gives a server that has all it needs, or none. -/
theorem machServerInit_ends (isTcp : Bool) {o : InitOutcomes} (h : o.ringBlocks.Nodup)
    {l : Ledger WorkerResource} (hpath : .path ∉ l.held) :
    InitEnds isTcp o l (machServerInit isTcp o l) := by
  cases hsocket : o.socket with
  | none =>
      right
      refine ⟨fun hi => hi.1.1 hsocket, ?_⟩
      simp [machServerInit, InitOutcomes.left, InitOutcomes.RingReady, InitOutcomes.pathLeft,
        hsocket]
  | some fd =>
      have hbind := bindSocket_spec isTcp o (l := l.acquire (.fd fd))
        (by rw [hsocket]; exact Option.some_ne_none fd) (by simpa [Ledger.acquire] using hpath)
      by_cases hbad : (bindSocket isTcp o ⟨[], 0⟩).1 = false ∨ o.queue < 0
      · have hnot : ¬o.RingReady isTcp := by
          rintro ⟨-, hb, hq, -⟩
          rcases hbad with hbad | hbad
          · exact absurd (hbad.symm.trans hb) (by decide)
          · omega
        refine .inr ⟨fun hi => hnot hi.1, ?_⟩
        unfold machServerInit InitOutcomes.left
        simp only [hsocket, hbind, if_pos hbad, if_neg hnot, List.nil_append]
        exact Prod.ext rfl (Ledger.release_append _ _ _ (fd_notMem_pathLeft isTcp o fd))
      · have hinit : machServerInit isTcp o l = initSignals o fd
            (initBufRingContext o
              ⟨.ring :: (o.pathLeft isTcp ++ .fd fd :: l.held), l.faults⟩).1
            (initBufRingContext o
              ⟨.ring :: (o.pathLeft isTcp ++ .fd fd :: l.held), l.faults⟩).2 := by
          unfold machServerInit
          simp only [hsocket, hbind, if_neg hbad]
          rfl
        rw [not_or, Bool.not_eq_false, Int.not_lt] at hbad
        rw [hinit]
        exact initSignals_ends isTcp h hsocket hbad.1 hbad.2 rfl

/-! ### The server -/

/-- The server can listen and submit. -/
def StartOutcomes.Starts (o : StartOutcomes) : Prop := o.listen = true ∧ 0 ≤ o.submit

/-- What a server that cannot start leaves behind. -/
def InitOutcomes.server (o : InitOutcomes) (isTcp : Bool) : List WorkerResource :=
  o.signalfd.toList.map .fd ++ (o.ringBlocks ++ .ring :: (o.pathLeft isTcp ++
    o.socket.toList.map .fd))

/-- The end of `mach_server_start` releases a server. -/
theorem machServerStart_releases {isTcp : Bool} {o : StartOutcomes} (ho : o.Starts)
    {fd sigFd ctx bufMem br : ℕ} {path : List WorkerResource}
    (hpath : path = if isTcp then [] else [.path])
    (hblocks : [WorkerResource.block br, .block bufMem, .block ctx].Nodup)
    {held : List WorkerResource} (faults : ℕ) :
    machServerStart isTcp o ⟨fd, sigFd, ctx, bufMem, br⟩ ⟨.fd sigFd :: ([.block br, .block bufMem,
      .block ctx] ++ .ring :: (path ++ .fd fd :: held)), faults⟩ = (0, ⟨held, faults⟩) := by
  have hfd : WorkerResource.fd fd ∉ [.block br, .block bufMem, .block ctx, .ring] ++ path := by
    rw [hpath]
    cases isTcp <;> simp
  simp only [List.nodup_cons, List.mem_cons, List.not_mem_nil, or_false, not_or] at hblocks
  obtain ⟨⟨hbm, hbc⟩, -, -⟩ := hblocks
  unfold machServerStart
  rw [if_neg (by rw [ho.1]; simp [ho.2])]
  have h₁ := Ledger.release_append [] ([.block br, .block bufMem, .block ctx] ++ .ring ::
    (path ++ .fd fd :: held)) faults (r := .fd sigFd) List.not_mem_nil
  have h₂ := Ledger.release_append _ held faults hfd
  have h₃ := Ledger.release_append [.block br, .block bufMem, .block ctx] (path ++ held) faults
    (r := .ring) (by simp)
  have h₄ := Ledger.release_append [.block br] (.block ctx :: (path ++ held)) faults
    (r := .block bufMem) (by simpa using Ne.symm hbm)
  have h₅ := Ledger.release_append [] (.block ctx :: (path ++ held)) faults (r := .block br)
    List.not_mem_nil
  have h₆ := Ledger.release_append [] (path ++ held) faults (r := .block ctx) List.not_mem_nil
  simp only [List.nil_append, List.cons_append] at h₁ h₂ h₃ h₄ h₅ h₆ ⊢
  rw [h₁, h₂, h₃, h₄, h₅, h₆, hpath]
  cases isTcp with
  | true => rfl
  | false => simp [unlinkPath]

/-- What has become of a worker's server: it ran, or it could not be started, or not even
initialised. -/
def ServeEnds (isTcp : Bool) (o : WorkerOutcomes) (l : Ledger WorkerResource)
    (r : ℤ × Ledger WorkerResource) : Prop :=
  (o.init.Initialised isTcp ∧ o.start.Starts ∧ r = (0, l)) ∨
    (o.init.Initialised isTcp ∧ ¬o.start.Starts ∧
      r = (-1, { l with held := o.init.server isTcp ++ l.held })) ∨
    (¬o.init.Initialised isTcp ∧ r = (1, { l with held := o.init.left isTcp ++ l.held }))

theorem serve_ends (isTcp : Bool) {o : WorkerOutcomes} (h : o.init.ringBlocks.Nodup)
    {l : Ledger WorkerResource} (hpath : .path ∉ l.held) :
    ServeEnds isTcp o l (serve isTcp o l) := by
  unfold ServeEnds serve
  rcases machServerInit_ends isTcp h hpath with
    ⟨hi, fd, sigFd, ctx, bufMem, br, hsocket, hsignal, hblocks, heq⟩ | ⟨hi, heq⟩
  · rw [heq]
    by_cases hs : o.start.Starts
    · have hbind := hi.1.2.1
      refine .inl ⟨hi, hs, ?_⟩
      rw [hblocks] at h ⊢
      refine machServerStart_releases hs ?_ h l.faults
      unfold InitOutcomes.pathLeft
      cases isTcp with
      | true => simp
      | false =>
          unfold bindSocket at hbind
          cases hb : o.init.bind with
          | false => simp [hb] at hbind
          | true => simp [hsocket]
    · refine .inr (.inl ⟨hi, hs, ?_⟩)
      have hbad : o.start.listen = false ∨ o.start.submit < 0 := by
        unfold StartOutcomes.Starts at hs
        rw [not_and_or, Bool.not_eq_true, Int.not_le] at hs
        exact hs
      unfold InitOutcomes.server
      dsimp only
      unfold machServerStart
      rw [if_pos hbad, hsocket, hsignal]
      simp
  · rw [heq]
    exact .inr (.inr ⟨hi, rfl⟩)

/-! ### The worker -/

/-- The governor of a core that is tuned and restored. -/
theorem governor_tuned_restored {o : WorkerOutcomes} {s : WorkerState}
    (hmodified : s.tuning.modified = false)
    (hname : IsGovernorName (s.governor s.tuning.core.toNat))
    (hrestore : o.governorRestore.succeeds = true ∧ o.governorRestore.stored = true)
    (l : Ledger WorkerResource) :
    (osRestoreCpuGovernor o { osTuneCpuGovernor o s with ledger := l }).governor = s.governor := by
  unfold osRestoreCpuGovernor osTuneCpuGovernor Tuning.read
  by_cases hread : IsTunable s.tuning.core ∧ o.governorRead = true
  · rw [if_pos hread]
    rw [savedGovernor_file hname]
    rcases Bool.eq_false_or_eq_true o.governorWrite.succeeds with hw | hw
    · simp [Tuning.write, Tuning.mustRestore, writeGovernor, hw, hrestore, hread.1]
      split_ifs <;> simp
    · simp [Tuning.write, Tuning.mustRestore, writeGovernor, hw, hmodified]
  · rw [if_neg hread]
    simp [Tuning.mustRestore, hmodified]

/-- No descriptor that is left is the one that holds the latency down. -/
theorem dma_notMem_left (isTcp : Bool) {o : WorkerOutcomes} (h : o.Fresh) {fd : ℕ}
    (hfd : o.dmaOpen = some fd) :
    .fd fd ∉ o.init.left isTcp ∧ .fd fd ∉ o.init.server isTcp := by
  have hpath := fd_notMem_pathLeft isTcp o.init fd
  have hblocks := (notMem_ringBlocks o.init fd).1
  have hfds := h.fds
  rw [hfd] at hfds
  simp only [Option.toList_some, List.cons_append, List.nodup_cons, List.mem_append, not_or,
    Option.mem_toList] at hfds
  refine ⟨?_, ?_⟩
  · unfold InitOutcomes.left
    rw [List.mem_append, not_or]
    refine ⟨?_, hpath⟩
    split_ifs
    · exact hblocks
    · exact List.not_mem_nil
  · unfold InitOutcomes.server
    simpa [hblocks, hpath] using ⟨hfds.1.2, hfds.1.1.2⟩

@[simp] theorem osTuneCpuGovernor_ledger (o : WorkerOutcomes) (s : WorkerState) :
    (osTuneCpuGovernor o s).ledger = s.ledger := by
  unfold osTuneCpuGovernor
  dsimp only
  split_ifs <;> rfl

/-- The ledger of a worker is that of its server. -/
theorem runWorker_ends (isTcp : Bool) {o : WorkerOutcomes} (h : o.Fresh) {s : WorkerState}
    (hpath : .path ∉ s.ledger.held) :
    ServeEnds isTcp o s.ledger ((runWorker isTcp o s).1, (runWorker isTcp o s).2.ledger) := by
  have hrun : ((runWorker isTcp o s).1, (runWorker isTcp o s).2.ledger) =
      ((serve isTcp o (osLockDmaLatency o s.ledger).2).1,
        (serve isTcp o (osLockDmaLatency o s.ledger).2).2.releaseOption
          ((osLockDmaLatency o s.ledger).1.map .fd)) := by
    unfold runWorker
    by_cases hcore : s.tuning.core ≠ -1
    · simp only [if_pos hcore, osTuneCpuGovernor_ledger]
      split_ifs <;> rfl
    · simp only [if_neg hcore]
  rw [hrun]
  unfold osLockDmaLatency
  cases hopen : o.dmaOpen with
  | none => exact serve_ends isTcp h.blocks hpath
  | some fd =>
      cases o.dmaWrite with
      | false =>
          simp only [Bool.false_eq_true, if_false, Ledger.release_acquire]
          exact serve_ends isTcp h.blocks hpath
      | true =>
          obtain ⟨hleft, hserver⟩ := dma_notMem_left isTcp h hopen
          have hmem : .path ∉ (s.ledger.acquire (.fd fd)).held := by
            simpa [Ledger.acquire] using hpath
          simp only [if_true]
          rcases serve_ends isTcp h.blocks hmem with
            ⟨hi, hs, heq⟩ | ⟨hi, hs, heq⟩ | ⟨hi, heq⟩
          · refine .inl ⟨hi, hs, ?_⟩
            rw [heq]
            exact Prod.ext rfl (s.ledger.release_acquire _)
          · refine .inr (.inl ⟨hi, hs, ?_⟩)
            rw [heq]
            exact Prod.ext rfl (Ledger.release_append _ _ _ hserver)
          · refine .inr (.inr ⟨hi, ?_⟩)
            rw [heq]
            exact Prod.ext rfl (Ledger.release_append _ _ _ hleft)

/-- A worker on core 2 whose kernel makes no descriptor for the signals. -/
def noSignalfd : WorkerOutcomes where
  governorRead := true
  governorWrite := ⟨true, true, true⟩
  dmaOpen := some 3
  dmaWrite := true
  init :=
    { socket := some 4
      reuseAddr := true
      inetPton := true
      bind := true
      chmod := true
      queueInitSqpoll := -22
      queueInit := 0
      ctx := some 1
      bufMem := some 2
      br := some 3
      registerBufRing := true
      sigprocmask := true
      signalfd := none }
  start := ⟨true, 1⟩
  governorRestore := ⟨true, true, true⟩

end MachAudio
