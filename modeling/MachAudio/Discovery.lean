import Mathlib.Data.Nat.Count
import Mathlib.Data.Int.CardIntervalMod
import MachAudio.Conversation
import MachAudio.Lib.CString

/-! # Discovery

Before a client opens its connections it asks the first worker how many workers there are
(`on_discover_connect`).  The answer is looked for in the first bytes that come back, whatever they
are, and then the connection is closed: discovery succeeds if they hold the header of the reply,
and finds the number of workers if they hold the number too (`discovery_completed_iff`).

The connections are then dealt out among the workers (`connections_spread`).  The client makes the
address of a worker of its index as the worker itself does, no other worker has that address, and
the numbers of connections that two workers get differ by one at most. -/

namespace MachAudio

open Framing Transition CString

variable {H Φ : Type} (E : Env H Φ)

/-! ### Asking -/

/-- The message that `on_discover_connect` writes. -/
def onDiscoverConnect : List UInt8 := encodeHeader ⟨audioMagic, audioVersion, cmdDiscover, 0, 0⟩

def discoverRequest : FramedMessage := framedRequest cmdDiscover 0 [] (by decide)

/-- The reply of a server with so many workers. -/
def discoverReply (numWorkers : UInt32) : Response := ⟨0, .discoverReply numWorkers⟩

theorem discoverRequest_fits : FitsAssembleBuf [discoverRequest] := by
  intro pre m post e
  have hm : m ∈ [discoverRequest] := e ▸ List.mem_append_right pre List.mem_cons_self
  rw [List.mem_singleton.mp hm]
  exact .inl (by decide)

/-- What a client that asks gets: nothing, or the reply. -/
theorem Conn.Flows.discovered (hmalloc : ∀ n, E.malloc n = true) {numWorkers : UInt32} {addr : ℕ}
    {c : Conn H} (h : c.Flows E [discoverRequest] numWorkers addr)
    (harrived : c.arrived <+: onDiscoverConnect) :
    c.received = [] ∨ c.received = (discoverReply numWorkers).encode := by
  obtain ⟨-, whole, left, done, hms, -, hsub, hdone, hrec⟩ := h.answered E hmalloc harrived
  have hwhole : whole = [] ∨ whole = [discoverRequest] := by
    rcases List.append_eq_cons_iff.mp hms.symm with ⟨hnil, -⟩ | ⟨as, rfl, has⟩
    · exact .inl hnil
    · rw [(List.append_eq_nil_iff.mp has.symm).1]
      exact .inr rfl
  have hout : (sessionMachine E numWorkers).outputs (AudioState.fresh addr)
      ([discoverRequest].map FramedMessage.message) = [discoverReply numWorkers] := rfl
  rw [hrec]
  have hlen : (untimed c.submitted).length = done.length + c.sends.length := by
    rw [hdone, untimed, List.length_map, List.length_append]
  cases done with
  | nil => exact .inl rfl
  | cons send done =>
      right
      rcases hwhole with rfl | rfl
      · rw [hsub] at hlen
        simp [Machine.outputs] at hlen
        omega
      · rw [hsub, hout, List.length_singleton, List.length_cons] at hlen
        have hdone' : done = [] := List.length_eq_zero_iff.mp (by omega)
        have hsends : c.sends = [] := List.length_eq_zero_iff.mp (by omega)
        rw [hdone, hdone', hsends, hout] at hsub
        have hun : send.response.untimed = discoverReply numWorkers :=
          (List.cons.inj hsub).1
        have hresp : send.response = discoverReply numWorkers := by
          generalize send.response = r at hun ⊢
          obtain ⟨sequenceId, body⟩ := r
          cases body with
          | output d p data => cases (Response.mk.inj hun).2
          | error code => cases (Response.mk.inj hun).2
          | pong => cases (Response.mk.inj hun).2
          | discoverReply n => exact hun
        rw [hdone', List.map_singleton, hresp, List.flatMap_singleton]

/-! ### The answer -/

/-- `sizeof(struct audio_discover_reply_payload)`. -/
def sizeofDiscoverReplyPayload : ℕ := 8

/-- The fields of `DiscoveryClient`, and whether its handle is closed. -/
structure DiscoveryClient where
  numWorkers : UInt32
  completed : Bool
  closed : Bool
deriving DecidableEq, Repr

/-- A call of `on_discover_read`: the whole buffer, whatever is behind the bytes read, and
`nread`. -/
structure DiscoverRead where
  base : List UInt8
  nread : ℤ
deriving DecidableEq, Repr

/-- The bytes read. -/
def DiscoverRead.bytes (r : DiscoverRead) : List UInt8 := r.base.take r.nread.toNat

def onDiscoverRead (dc : DiscoveryClient) (r : DiscoverRead) : DiscoveryClient :=
  if r.nread > 0 then
    if r.nread ≥ sizeofHeader then
      let header := protocolDecodeHeader r.base
      if header.command = cmdDiscoverReply ∧
          sizeofDiscoverReplyPayload ≤ header.payloadLen.toNat then
        { numWorkers := ntohl r.base sizeofHeader, completed := true, closed := true }
      else { dc with closed := true }
    else { dc with closed := true }
  else if r.nread < 0 then { dc with closed := true }
  else dc

/-- `dc` after some calls; there are none once the handle is closed. -/
def onDiscoverReads (reads : List DiscoverRead) : DiscoveryClient :=
  reads.foldl (fun dc r => if dc.closed then dc else onDiscoverRead dc r) ⟨0, false, false⟩

/-- The first call that does not come with nothing. -/
def firstRead (reads : List DiscoverRead) : Option DiscoverRead :=
  reads.find? fun r => r.nread ≠ 0

theorem onDiscoverRead_closed {dc : DiscoveryClient} {r : DiscoverRead} (h : r.nread ≠ 0) :
    (onDiscoverRead dc r).closed = true := by
  unfold onDiscoverRead
  dsimp only
  split_ifs with h₁ h₂ h₃ h₄ <;> first | rfl | omega

/-- Nothing is read from a closed handle. -/
theorem foldl_closed {dc : DiscoveryClient} (h : dc.closed = true) (reads : List DiscoverRead) :
    reads.foldl (fun dc r => if dc.closed then dc else onDiscoverRead dc r) dc = dc := by
  induction reads with
  | nil => rfl
  | cons r reads ih => rw [List.foldl_cons, if_pos h, ih]

theorem onDiscoverReads_eq (reads : List DiscoverRead) : onDiscoverReads reads =
    ((firstRead reads).map fun r => onDiscoverRead ⟨0, false, false⟩ r).getD ⟨0, false, false⟩ := by
  unfold onDiscoverReads firstRead
  induction reads with
  | nil => rfl
  | cons r reads ih =>
      rw [List.foldl_cons, if_neg Bool.false_ne_true]
      by_cases h : r.nread = 0
      · have hsame : onDiscoverRead ⟨0, false, false⟩ r = ⟨0, false, false⟩ := by
          unfold onDiscoverRead
          rw [h]
          rfl
        rw [hsame, ih, List.find?_cons_of_neg (by simp [h])]
      · rw [List.find?_cons_of_pos (by simp [h])]
        rw [Option.map_some, Option.getD_some]
        exact foldl_closed (onDiscoverRead_closed h) reads

/-- The bytes of the first call are the first of the stream. -/
theorem firstRead_bytes {reads : List DiscoverRead} {r : DiscoverRead}
    (h : firstRead reads = some r) : r.bytes <+: (reads.map DiscoverRead.bytes).flatten := by
  unfold firstRead at h
  induction reads with
  | nil => cases h
  | cons r' reads ih =>
      rw [List.map_cons, List.flatten_cons]
      by_cases hz : r'.nread = 0
      · rw [List.find?_cons_of_neg (by simp [hz])] at h
        have hnil : r'.bytes = [] := by
          unfold DiscoverRead.bytes
          rw [hz]
          rfl
        rw [hnil, List.nil_append]
        exact ih h
      · rw [List.find?_cons_of_pos (by simp [hz])] at h
        rw [← Option.some.inj h]
        exact List.prefix_append _ _

/-! ### Discovery over a healthy connection -/

/-- **When discovery succeeds.**  The client asks over a connection on which nothing is lost; the
calls of `on_discover_read` get what comes back in any pieces.  Discovery completes just when the
first bytes hold the header of the reply.  When they hold the number as well, it is the number of
workers; nothing else is ever completed. -/
theorem discovery_completed_iff (hmalloc : ∀ n, E.malloc n = true) {numWorkers : UInt32} {i : ℕ}
    {es : List WorldEvent} {w : World H}
    (h : Runs (worldStep E numWorkers) (OfConn i Healthy) World.start es w) {c : Conn H}
    (hc : w.conns[i]? = some c) (harrived : c.arrived <+: onDiscoverConnect)
    {reads : List DiscoverRead} (hsize : ∀ r ∈ reads, r.nread ≤ r.base.length)
    (hreads : (reads.map DiscoverRead.bytes).flatten <+: c.received) :
    ((onDiscoverReads reads).completed = true ↔ ∃ r, firstRead reads = some r ∧ 16 ≤ r.nread) ∧
      ∀ r, firstRead reads = some r → 20 ≤ r.nread →
        (onDiscoverReads reads).numWorkers = numWorkers := by
  obtain ⟨clientFd, addr, -, hrun⟩ := conn_runs h hc
  have hrec := (flows_run E discoverRequest_fits hrun).discovered E hmalloc harrived
  rw [onDiscoverReads_eq]
  cases hfirst : firstRead reads with
  | none =>
      exact ⟨⟨fun hd => (by cases hd), fun ⟨r, hr, _⟩ => (by cases hr)⟩, fun r hr => by cases hr⟩
  | some r =>
      have hbytes := (firstRead_bytes hfirst).trans hreads
      have hbase := hsize r (List.mem_of_find?_eq_some hfirst)
      rw [Option.map_some, Option.getD_some]
      -- the buffer starts with the reply as far as it was read
      have hreply : 0 < r.nread → r.bytes <+: (discoverReply numWorkers).encode := by
        intro hpos
        rcases hrec with hrec | hrec
        · rw [hrec, List.prefix_nil] at hbytes
          have hlen := congrArg List.length hbytes
          unfold DiscoverRead.bytes at hlen
          rw [List.length_take, List.length_nil] at hlen
          omega
        · rwa [hrec] at hbytes
      have htake : ∀ k : ℕ, (k : ℤ) ≤ r.nread → 0 < k →
          r.base.take k = (discoverReply numWorkers).encode.take k := by
        intro k hk hpos
        have hpre := List.prefix_iff_eq_take.mp (hreply (by omega))
        unfold DiscoverRead.bytes at hpre
        have hcut := congrArg (List.take k) hpre
        rw [List.take_take, List.take_take, List.length_take] at hcut
        rwa [min_eq_left (by omega), min_eq_left (by omega)] at hcut
      have hheader : 16 ≤ r.nread →
          protocolDecodeHeader r.base = (discoverReply numWorkers).header := by
        intro h16
        rw [← protocolDecodeHeader_take, show sizeofHeader = 16 from rfl, htake 16 h16 (by omega)]
        exact (protocolDecodeHeader_take _).trans (protocolDecodeHeader_encodeHeader _ _)
      have hread : 16 ≤ r.nread → onDiscoverRead ⟨0, false, false⟩ r =
          ⟨ntohl r.base sizeofHeader, true, true⟩ := by
        intro h16
        unfold onDiscoverRead
        dsimp only
        rw [if_pos (by omega), if_pos (show r.nread ≥ sizeofHeader from h16), hheader h16]
        exact if_pos ⟨rfl, show 8 ≤ (UInt32.ofNat 8).toNat by decide⟩
      refine ⟨⟨fun hdone => ⟨r, rfl, ?_⟩, fun ⟨r', hr', h16⟩ => ?_⟩, fun r' hr' h20 => ?_⟩
      · by_contra hlt
        unfold onDiscoverRead at hdone
        dsimp only at hdone
        rw [if_neg (show ¬r.nread ≥ sizeofHeader from hlt)] at hdone
        split_ifs at hdone
      · obtain rfl := Option.some.inj hr'
        rw [hread h16]
      · obtain rfl := Option.some.inj hr'
        rw [hread (by omega)]
        show ntohl r.base 16 = numWorkers
        have hcut : ntohl r.base 16 = ntohl (r.base.take 20) 16 := by
          have hb : ∀ j, j < 20 → byteAt (r.base.take 20) j = byteAt r.base j := by
            intro j hj
            simp [byteAt, List.getD_eq_getElem?_getD, hj]
          simp [ntohl, hb]
        rw [hcut, htake 20 h20 (by omega)]
        have hbytes : (discoverReply numWorkers).encode.take 20 =
            encodeHeader (discoverReply numWorkers).header ++ htonl numWorkers := rfl
        rw [hbytes]
        exact (ntohl_append (encodeHeader (discoverReply numWorkers).header) _ 0).trans
          (by rw [← List.append_nil (htonl numWorkers), ntohl_htonl])

/-- A client asks a server with three workers. -/
def discoverRun : List WorldEvent :=
  [.accept 5 (some 0), .conn 0 (.recv 16 true (some (0, onDiscoverConnect))), .conn 0 .handle,
    .conn 0 (.complete 0 24), .conn 0 .handle]

/-- It is told, also when the last bytes of the reply are late. -/
theorem discovery_completed_iff_three : ∃ w c,
    Runs (worldStep Env.plain 3) (OfConn 0 Healthy) World.start discoverRun w ∧
      w.conns[0]? = some c ∧
      (onDiscoverReads [⟨[], 0⟩, ⟨c.received.take 20 ++ [1, 2, 3, 4], 20⟩]).numWorkers = 3 := by
  have hfacts : ((run (fun w e => if OfConn 0 Healthy w e then worldStep Env.plain 3 w e else none)
      World.start discoverRun).bind fun w => w.conns[0]?).map (fun c => (c.arrived, c.received)) =
        some (onDiscoverConnect, (discoverReply 3).encode) := by
    decide +kernel
  obtain ⟨c, hwc, hcfacts⟩ := Option.map_eq_some_iff.mp hfacts
  obtain ⟨w, hw, hc⟩ := Option.bind_eq_some_iff.mp hwc
  obtain ⟨harrived, hreceived⟩ := Prod.ext_iff.mp hcfacts
  dsimp only at harrived hreceived
  have hlen : c.received.length = 24 := by
    rw [hreceived]
    rfl
  refine ⟨w, c, runs_of_run hw, hc, (discovery_completed_iff Env.plain (fun _ => rfl)
    (runs_of_run hw) hc ⟨[], by rw [harrived, List.append_nil]⟩ ?_ ?_).2 _ rfl (Int.le_refl 20)⟩
  · intro r hr
    rcases List.mem_cons.mp hr with rfl | hr
    · exact Int.le_refl 0
    · rw [List.mem_singleton.mp hr]
      simp [hlen]
  · refine ⟨c.received.drop 20, ?_⟩
    simp [DiscoverRead.bytes, hlen]

/-! ### Addresses -/

/-- Where a worker listens and a connection goes: an IP with a port, or the path of a socket. -/
inductive Address
  | tcp (host : List Char) (port : ℕ)
  | unix (path : List Char)
deriving DecidableEq, Repr

/-- `htons` cuts a port to 16 bits. -/
def sinPort (port : ℤ) : ℕ := (port % 65536).toNat

/-- What `snprintf` writes into 256 bytes for `"%s/%s.%d.sock"`. -/
def socketPath (dir name : List Char) (workerIndex : ℕ) : List Char :=
  (dir ++ '/' :: (name ++ '.' :: (Nat.toDigits 10 workerIndex ++
    ['.', 's', 'o', 'c', 'k']))).take 255

/-- `DEFAULT_UDS_NAME`. -/
def defaultUdsName : List Char := ['m', 'a', 'c', 'h', 'a', 'u', 'd', 'i', 'o']

/-- The variables of the server's `main` that give its workers their addresses. -/
structure Listening where
  host : Option (List Char)
  basePort : ℤ
  udsDir : List Char

/-- Where `run_worker` and `mach_server_init` let a worker listen; `sun_path` has room for 107
characters. -/
def Listening.address (l : Listening) (workerIndex : ℕ) : Address :=
  match l.host with
  | some host => .tcp host (sinPort (l.basePort + workerIndex))
  | none => .unix ((socketPath l.udsDir defaultUdsName workerIndex).take 107)

/-- The fields of the client's configuration that `client_connect` looks at. -/
structure Connecting where
  host : Option (List Char)
  port : ℤ
  udsDir : List Char
  udsName : List Char

/-- `client_connect`. -/
def Connecting.address (c : Connecting) (workerIndex : ℕ) : Address :=
  match c.host with
  | some host => .tcp host (sinPort (c.port + workerIndex))
  | none => .unix (socketPath c.udsDir c.udsName workerIndex)

/-- The worker that a connection goes to. -/
def workerIndex (id numWorkers : UInt32) : ℕ := (id % numWorkers).toNat

/-- The client was told where the server is, and the names of `n` workers fit. -/
structure Meets (c : Connecting) (l : Listening) (n : ℕ) : Prop where
  host : c.host = l.host
  port : c.host ≠ none → c.port = l.basePort ∧ n ≤ 65536
  path : c.host = none → c.udsDir = l.udsDir ∧ c.udsName = defaultUdsName ∧
    ∀ k < n, (socketPath c.udsDir c.udsName k).length ≤ 107

section meets
variable {c : Connecting} {l : Listening} {n : ℕ} (h : Meets c l n)

include h

/-- The client's address of a worker is the worker's own. -/
theorem Meets.address_eq {k : ℕ} (hk : k < n) : c.address k = l.address k := by
  obtain ⟨hhost, hport, hpath⟩ := h
  unfold Connecting.address Listening.address
  rw [← hhost]
  cases hc : c.host with
  | some host => rw [(hport (by simp [hc])).1]
  | none =>
      obtain ⟨hdir, hname, hlen⟩ := hpath hc
      rw [hdir, hname] at hlen ⊢
      dsimp only
      rw [List.take_of_length_le (hlen k hk)]

/-- Different workers have different addresses. -/
theorem Meets.address_inj {k k' : ℕ} (hk : k < n) (hk' : k' < n)
    (heq : c.address k = c.address k') : k = k' := by
  obtain ⟨-, hport, hpath⟩ := h
  unfold Connecting.address at heq
  cases hc : c.host with
  | some host =>
      rw [hc] at heq
      have hn := (hport (by simp [hc])).2
      have hsin := (Address.tcp.inj heq).2
      unfold sinPort at hsin
      omega
  | none =>
      rw [hc] at heq
      obtain ⟨-, -, hlen⟩ := hpath hc
      have hfull : ∀ j < n, socketPath c.udsDir c.udsName j = c.udsDir ++ '/' ::
          (c.udsName ++ '.' :: (Nat.toDigits 10 j ++ ['.', 's', 'o', 'c', 'k'])) := by
        intro j hj
        have hle := hlen j hj
        unfold socketPath at hle ⊢
        rw [List.length_take] at hle
        exact List.take_of_length_le (by omega)
      have hpaths := Address.unix.inj heq
      rw [hfull k hk, hfull k' hk', List.append_cancel_left_eq, List.cons.injEq] at hpaths
      have hdigits := hpaths.2
      rw [List.append_cancel_left_eq, List.cons.injEq, List.append_cancel_right_eq] at hdigits
      rw [← number_toDigits (show 1 < 10 by omega) (by omega) k, hdigits.2,
        number_toDigits (by omega) (by omega)]

end meets

/-- **The connections are dealt out.**  Where client and server were told the same, a connection
goes to the one worker that has its address, and of two workers none gets more than one connection
more than the other. -/
theorem connections_spread {numWorkers : UInt32} (hpos : 0 < numWorkers.toNat) {c : Connecting}
    {l : Listening} (h : Meets c l numWorkers.toNat) :
    (∀ id : UInt32, workerIndex id numWorkers < numWorkers.toNat ∧
      ∀ k < numWorkers.toNat, l.address k = c.address (workerIndex id numWorkers) ↔
        k = workerIndex id numWorkers) ∧
    ∀ concurrent : UInt32, ∀ k < numWorkers.toNat,
      Nat.count (fun i => workerIndex (UInt32.ofNat i) numWorkers = k) concurrent.toNat =
        concurrent.toNat / numWorkers.toNat +
          if k < concurrent.toNat % numWorkers.toNat then 1 else 0 := by
  have hindex : ∀ id : UInt32, workerIndex id numWorkers = id.toNat % numWorkers.toNat :=
    fun id => UInt32.toNat_mod id numWorkers
  refine ⟨fun id => ?_, fun concurrent k hk => ?_⟩
  · have hlt : workerIndex id numWorkers < numWorkers.toNat := by
      rw [hindex]
      exact Nat.mod_lt _ hpos
    refine ⟨hlt, fun k hk => ⟨fun heq => ?_, fun heq => ?_⟩⟩
    · rw [← h.address_eq hk] at heq
      exact h.address_inj hk hlt heq
    · rw [heq, h.address_eq hlt]
  · have hcard := Nat.count_modEq_card concurrent.toNat hpos k
    rw [Nat.mod_eq_of_lt hk] at hcard
    rw [← hcard, Nat.count_eq_card_filter_range, Nat.count_eq_card_filter_range]
    congr 1
    apply Finset.filter_congr
    intro i hi
    have hlt := concurrent.toNat_lt
    have hi' := Finset.mem_range.mp hi
    rw [hindex, UInt32.toNat_ofNat_of_lt' (show i < 2 ^ 32 by omega), Nat.ModEq,
      Nat.mod_eq_of_lt hk]

/-- The directory of the sockets where none is given. -/
def defaultUdsDir : List Char := ['/', 't', 'm', 'p']

/-- Seven connections to three workers, where nothing is configured. -/
theorem connections_spread_default :
    (⟨none, 0, defaultUdsDir, defaultUdsName⟩ : Connecting).address (workerIndex 5 3) =
        (⟨none, 8000, defaultUdsDir⟩ : Listening).address 2 ∧
      Nat.count (fun i => workerIndex (UInt32.ofNat i) 3 = 0) 7 = 3 := by
  have hmeets : Meets ⟨none, 0, defaultUdsDir, defaultUdsName⟩ ⟨none, 8000, defaultUdsDir⟩
      (3 : UInt32).toNat :=
    ⟨rfl, fun h => absurd rfl h, fun _ => ⟨rfl, rfl, by decide⟩⟩
  obtain ⟨haddress, hcount⟩ := connections_spread (by decide) hmeets
  exact ⟨(((haddress 5).2 2 (by decide)).mpr rfl).symm, hcount 7 0 (by decide)⟩

end MachAudio
