import MachAudio.Wire

/-! # The client reads the responses

`on_read` of the client's `main.c`: a buffer that grows, a loop over the whole messages in it,
the statistics and files of every `CMD_OUTPUT`, and the rest moved to the front.

The loop looks at the magic number only, so it is the reader of `framerOf` for that check
(`readLoop_eq`).  With the streaming law of the library, the responses that are whole in what
was read so far are decoded, each once and in order, however the stream was cut
(`responses_decoded`). -/

namespace MachAudio

open ByteMem Framing

/-! ### The client -/

/-- `be64toh` of the eight bytes at offset `i`. -/
def be64toh (bs : List UInt8) (i : ℕ) : UInt64 :=
  UInt64.ofNat ((ntohl bs i).toNat * 4294967296 + (ntohl bs (i + 4)).toNat)

/-- The four bytes of a `float` in the memory of a little-endian host. -/
def hostFloat (x : UInt32) : List UInt8 :=
  [UInt8.ofNat (x.toNat % 256), UInt8.ofNat (x.toNat / 256 % 256),
    UInt8.ofNat (x.toNat / 65536 % 256), UInt8.ofNat (x.toNat / 16777216)]

/-- The statistics of a `ClientConnection` and the bytes written to its files; a file is `none`
for `NULL`. -/
structure ReadStats where
  totalReceived : UInt64
  minDurationNs : UInt64
  maxDurationNs : UInt64
  sumDurationNs : UInt64
  countReceived : UInt64
  latencies : List UInt64
  outputFile : Option (List UInt8)
  outputVadFile : Option (List UInt8)
deriving DecidableEq, Repr

/-- The fields of `ClientConnection` that reading uses, the number of `realloc` calls made, and
whether the stream was closed. -/
structure ReadState where
  readBuf : Mem
  readBufLen : ℕ
  readBufCap : ℕ
  latenciesCap : ℕ
  stats : ReadStats
  reallocs : ℕ
  closed : Bool

/-- A new connection, with or without output files. -/
def ReadState.fresh (writeOutput : Bool) : ReadState where
  readBuf := fun _ => 0
  readBufLen := 0
  readBufCap := 0
  latenciesCap := 0
  stats :=
    { totalReceived := 0
      minDurationNs := 0xFFFFFFFFFFFFFFFF
      maxDurationNs := 0
      sumDurationNs := 0
      countReceived := 0
      latencies := []
      outputFile := if writeOutput then some [] else none
      outputVadFile := if writeOutput then some [] else none }
  reallocs := 0
  closed := false

/-- The loop that doubles `new_cap`, with at most `n` turns. -/
def growCap : ℕ → ℕ → ℕ → ℕ
  | 0, newCap, _ => newCap
  | n + 1, newCap, needed => if needed > newCap then growCap n (newCap * 2) needed else newCap

section client
variable (realloc : ℕ → Bool)

/-- Room for `nread` more bytes, and whether there is. -/
def reserve (conn : ReadState) (nread : ℕ) : Bool × ReadState :=
  if conn.readBufLen + nread > conn.readBufCap then
    let newCap := if conn.readBufCap = 0 then 8192 else conn.readBufCap * 2
    let newCap := growCap (conn.readBufLen + nread) newCap (conn.readBufLen + nread)
    if realloc conn.reallocs then
      (true, { conn with readBufCap := newCap, reallocs := conn.reallocs + 1 })
    else (false, { conn with reallocs := conn.reallocs + 1 })
  else (true, conn)

/-- A latency recorded, when there is room or `realloc` makes some. -/
def recordLatency (conn : ReadState) (durationNs : UInt64) : ReadState :=
  let conn :=
    if conn.stats.latencies.length ≥ conn.latenciesCap then
      let newCap := if conn.latenciesCap = 0 then 1024 else conn.latenciesCap * 2
      if realloc conn.reallocs then
        { conn with latenciesCap := newCap, reallocs := conn.reallocs + 1 }
      else { conn with reallocs := conn.reallocs + 1 }
    else conn
  if conn.stats.latencies.length < conn.latenciesCap then
    { conn with stats := { conn.stats with latencies := conn.stats.latencies ++ [durationNs] } }
  else conn

/-- The body of the loop for a `CMD_OUTPUT` with these fields. -/
def recordOutput (conn : ReadState) (durationNs : UInt64) (vadProb : UInt32)
    (data : List UInt8) : ReadState :=
  let stats := conn.stats
  let stats :=
    { stats with
      countReceived := stats.countReceived + 1
      totalReceived := stats.totalReceived + UInt64.ofNat data.length
      sumDurationNs := stats.sumDurationNs + durationNs
      minDurationNs := if durationNs < stats.minDurationNs then durationNs else stats.minDurationNs
      maxDurationNs := if durationNs > stats.maxDurationNs then durationNs else stats.maxDurationNs }
  let conn := recordLatency realloc { conn with stats := stats } durationNs
  { conn with
    stats :=
      { conn.stats with
        outputFile := conn.stats.outputFile.map (· ++ data)
        outputVadFile := conn.stats.outputVadFile.map (· ++ hostFloat vadProb) } }

/-- The message at `ptr`; only `CMD_OUTPUT` is looked at.  The length of its data is a
difference of `size_t`, which wraps for a payload shorter than `audio_output_payload`. -/
def readMessage (conn : ReadState) (header : AudioMsgHeader) (ptr : ℕ) : ReadState :=
  if header.command = cmdOutput then
    let payload := ptr + sizeofHeader
    let durationNs := be64toh (conn.readBuf.load payload 8) 0
    let vadProb := ntohl (conn.readBuf.load (payload + 8) 4) 0
    let dataLen := UInt64.ofNat header.payloadLen.toNat - UInt64.ofNat sizeofOutputPayload
    recordOutput realloc conn durationNs vadProb
      (conn.readBuf.load (payload + sizeofOutputPayload) dataLen.toNat)
  else conn

/-- The loop over the messages, with at most `n` turns: the connection, `ptr` and
`remaining`. -/
def readLoop : ℕ → ReadState → ℕ → ℕ → ReadState × ℕ × ℕ
  | 0, conn, ptr, remaining => (conn, ptr, remaining)
  | n + 1, conn, ptr, remaining =>
      if remaining < sizeofHeader then (conn, ptr, remaining)
      else
        let header := protocolDecodeHeader (conn.readBuf.load ptr sizeofHeader)
        if header.magic ≠ audioMagic then (conn, ptr, remaining)
        else if remaining < sizeofHeader + header.payloadLen.toNat then (conn, ptr, remaining)
        else
          let msgTotal := sizeofHeader + header.payloadLen.toNat
          readLoop n (readMessage realloc conn header ptr) (ptr + msgTotal) (remaining - msgTotal)

/-- The bytes of a read behind those of the buffer. -/
def ReadState.append (conn : ReadState) (bytes : List UInt8) : ReadState :=
  { conn with
    readBuf := conn.readBuf.store conn.readBufLen bytes
    readBufLen := conn.readBufLen + bytes.length }

/-- The loop over the buffer, and what it leaves moved to the front if it took anything. -/
def decodeBuffered (conn : ReadState) : ReadState :=
  let r := readLoop realloc (conn.readBufLen + 1) conn 0 conn.readBufLen
  let conn := r.1
  if r.2.2 < conn.readBufLen then
    { conn with
      readBuf := conn.readBuf.store 0 (conn.readBuf.load r.2.1 r.2.2)
      readBufLen := r.2.2 }
  else conn

/-- `on_read` on the bytes of a read. -/
def readBytes (conn : ReadState) (bytes : List UInt8) : ReadState :=
  match reserve realloc conn bytes.length with
  | (false, conn) => conn
  | (true, conn) => decodeBuffered realloc (conn.append bytes)

/-- `on_read`: a result below 0 ends the stream. -/
def onRead (conn : ReadState) (nread : ℤ) (bytes : List UInt8) : ReadState :=
  if nread > 0 then readBytes realloc conn bytes
  else if nread < 0 then { conn with closed := true }
  else conn

/-- Reads one after another. -/
def onReads (conn : ReadState) (reads : List (List UInt8)) : ReadState :=
  reads.foldl (fun conn bytes => onRead realloc conn bytes.length bytes) conn

end client

/-! ### What a message adds to the statistics -/

/-- A `CMD_OUTPUT` counted and written. -/
def ReadStats.output (stats : ReadStats) (durationNs : UInt64) (vadProb : UInt32)
    (data : List UInt8) : ReadStats where
  totalReceived := stats.totalReceived + UInt64.ofNat data.length
  minDurationNs := if durationNs < stats.minDurationNs then durationNs else stats.minDurationNs
  maxDurationNs := if durationNs > stats.maxDurationNs then durationNs else stats.maxDurationNs
  sumDurationNs := stats.sumDurationNs + durationNs
  countReceived := stats.countReceived + 1
  latencies := stats.latencies ++ [durationNs]
  outputFile := stats.outputFile.map (· ++ data)
  outputVadFile := stats.outputVadFile.map (· ++ hostFloat vadProb)

def ReadStats.message (stats : ReadStats) (m : Message) : ReadStats :=
  if m.header.command = cmdOutput then
    stats.output (be64toh m.payload 0) (ntohl m.payload 8) (m.payload.drop sizeofOutputPayload)
  else stats

/-- The buffer, its room and the room for latencies of a connection. -/
structure ReadState.Ok (conn : ReadState) : Prop where
  buf : conn.readBufLen ≤ conn.readBufCap
  latencies : conn.stats.latencies.length ≤ conn.latenciesCap

/-- The bytes read and not decoded. -/
def ReadState.pending (conn : ReadState) : List UInt8 := conn.readBuf.load 0 conn.readBufLen

@[simp] theorem ReadState.length_pending (conn : ReadState) :
    conn.pending.length = conn.readBufLen := by
  rw [pending, length_load]

/-- Recording changes neither the buffer nor whether the stream is closed. -/
structure SameBuffer (conn conn' : ReadState) : Prop where
  readBuf : conn'.readBuf = conn.readBuf
  readBufLen : conn'.readBufLen = conn.readBufLen
  readBufCap : conn'.readBufCap = conn.readBufCap
  closed : conn'.closed = conn.closed

theorem SameBuffer.trans {a b c : ReadState} (h : SameBuffer a b) (h' : SameBuffer b c) :
    SameBuffer a c :=
  ⟨h'.readBuf.trans h.readBuf, h'.readBufLen.trans h.readBufLen,
    h'.readBufCap.trans h.readBufCap, h'.closed.trans h.closed⟩

theorem SameBuffer.pending {conn conn' : ReadState} (h : SameBuffer conn conn') :
    conn'.pending = conn.pending := by
  rw [ReadState.pending, ReadState.pending, h.readBuf, h.readBufLen]

section
variable {realloc : ℕ → Bool} (hrealloc : ∀ n, realloc n = true)

include hrealloc

theorem recordLatency_spec {conn : ReadState} (h : conn.Ok) (durationNs : UInt64) :
    SameBuffer conn (recordLatency realloc conn durationNs) ∧
      (recordLatency realloc conn durationNs).Ok ∧
      (recordLatency realloc conn durationNs).stats =
        { conn.stats with latencies := conn.stats.latencies ++ [durationNs] } := by
  have hl := h.latencies
  unfold recordLatency
  rw [hrealloc]
  by_cases hfull : conn.stats.latencies.length ≥ conn.latenciesCap
  · have hroom : conn.stats.latencies.length <
        if conn.latenciesCap = 0 then 1024 else conn.latenciesCap * 2 := by
      split_ifs <;> omega
    simp only [if_pos hfull, if_true, if_pos hroom]
    refine ⟨⟨rfl, rfl, rfl, rfl⟩, ⟨h.buf, ?_⟩, trivial⟩
    rw [List.length_append, List.length_singleton]
    exact hroom
  · have hroom : conn.stats.latencies.length < conn.latenciesCap := by omega
    simp only [if_neg hfull, if_pos hroom]
    refine ⟨⟨rfl, rfl, rfl, rfl⟩, ⟨h.buf, ?_⟩, trivial⟩
    rw [List.length_append, List.length_singleton]
    exact hroom

theorem recordOutput_spec {conn : ReadState} (h : conn.Ok) (durationNs : UInt64)
    (vadProb : UInt32) (data : List UInt8) :
    SameBuffer conn (recordOutput realloc conn durationNs vadProb data) ∧
      (recordOutput realloc conn durationNs vadProb data).Ok ∧
      (recordOutput realloc conn durationNs vadProb data).stats =
        conn.stats.output durationNs vadProb data := by
  unfold recordOutput
  dsimp only
  generalize hstats : ({ conn.stats with
    countReceived := conn.stats.countReceived + 1
    totalReceived := conn.stats.totalReceived + UInt64.ofNat data.length
    sumDurationNs := conn.stats.sumDurationNs + durationNs
    minDurationNs := if durationNs < conn.stats.minDurationNs then durationNs
      else conn.stats.minDurationNs
    maxDurationNs := if durationNs > conn.stats.maxDurationNs then durationNs
      else conn.stats.maxDurationNs } : ReadStats) = stats
  have hok : ReadState.Ok { conn with stats := stats } :=
    ⟨h.buf, by rw [← hstats]; exact h.latencies⟩
  obtain ⟨hsame, hok', hst⟩ := recordLatency_spec hrealloc hok durationNs
  generalize recordLatency realloc { conn with stats := stats } durationNs = conn' at hsame hok' hst
  refine ⟨⟨hsame.readBuf, hsame.readBufLen, hsame.readBufCap, hsame.closed⟩,
    ⟨hok'.buf, hok'.latencies⟩, ?_⟩
  rw [hst, ← hstats]
  rfl

end

/-! ### The loop takes the messages of the buffer -/

/-- The client's check of a header. -/
def magicOk (h : AudioMsgHeader) : Bool := h.magic == audioMagic

/-- Streams of messages as the client reads them. -/
abbrev clientFramer : Framer UInt8 Message := framerOf magicOk

theorem byteAt_append_left {bs : List UInt8} {i : ℕ} (h : i < bs.length) (rest : List UInt8) :
    byteAt (bs ++ rest) i = byteAt bs i := by
  simp [byteAt, List.getD_eq_getElem?_getD, List.getElem?_append_left h]

/-- Four bytes at the start of a buffer decide the integer there. -/
theorem ntohl_append_left {bs : List UInt8} {i : ℕ} (h : i + 4 ≤ bs.length) (rest : List UInt8) :
    ntohl (bs ++ rest) i = ntohl bs i := by
  unfold ntohl
  rw [byteAt_append_left (by omega), byteAt_append_left (by omega), byteAt_append_left (by omega),
    byteAt_append_left (by omega)]

theorem be64toh_append_left {bs : List UInt8} (h : 8 ≤ bs.length) (rest : List UInt8) :
    be64toh (bs ++ rest) 0 = be64toh bs 0 := by
  unfold be64toh
  rw [ntohl_append_left (by omega), ntohl_append_left (by omega)]

theorem be64toh_htobe64 (x : UInt64) (rest : List UInt8) : be64toh (htobe64 x ++ rest) 0 = x := by
  have hlt : x.toNat < 18446744073709551616 := x.toNat_lt
  unfold be64toh htobe64
  have h4 := ntohl_append (htonl (UInt32.ofNat (x.toNat / 4294967296)))
    (htonl (UInt32.ofNat (x.toNat % 4294967296)) ++ rest) 0
  rw [ntohl_htonl, length_htonl] at h4
  rw [List.append_assoc, ntohl_htonl, h4, UInt32.toNat_ofNat', UInt32.toNat_ofNat']
  apply UInt64.toNat_inj.mp
  rw [UInt64.toNat_ofNat']
  simp only [Nat.reducePow]
  omega

/-- What the framer finds at `ptr` is in memory behind `ptr`. -/
theorem frame_in_memory {conn : ReadState} {ptr n : ℕ} {m : Message} (hptr : ptr ≤ conn.readBufLen)
    (h : clientFramer.next (conn.pending.drop ptr) = .frame m n) :
    m.header = protocolDecodeHeader (conn.readBuf.load ptr sizeofHeader) ∧
      m.header.magic = audioMagic ∧ n = sizeofHeader + m.header.payloadLen.toNat ∧
      ptr + n ≤ conn.readBufLen ∧
      m.payload = conn.readBuf.load (ptr + sizeofHeader) m.header.payloadLen.toNat := by
  obtain ⟨hv, hm, hn, hle⟩ := nextOf_eq_frame h
  have hd : m.header = protocolDecodeHeader (conn.pending.drop ptr) := by
    rw [hm]
  have hload : conn.pending.drop ptr = conn.readBuf.load ptr (conn.readBufLen - ptr) := by
    rw [ReadState.pending, drop_load _ _ _ _ hptr, Nat.zero_add]
  rw [List.length_drop, ReadState.length_pending] at hle
  refine ⟨?_, ?_, hn, by omega, ?_⟩
  · rw [hd, hload, ← protocolDecodeHeader_take, take_load,
      Nat.min_eq_left (by omega)]
  · rw [hd]
    simpa [magicOk] using hv
  · rw [congrArg Message.payload hm, hload]
    dsimp only
    rw [drop_load _ _ _ _ (by omega), take_load, Nat.min_eq_left (by omega)]

section
variable {realloc : ℕ → Bool} (hrealloc : ∀ n, realloc n = true)

include hrealloc in
/-- Reading a message whose payload is long enough records it. -/
theorem readMessage_spec {conn : ReadState} (hok : conn.Ok) {ptr n : ℕ} {m : Message}
    (hptr : ptr ≤ conn.readBufLen) (h : clientFramer.next (conn.pending.drop ptr) = .frame m n)
    (hlong : m.header.command = cmdOutput → sizeofOutputPayload ≤ m.payload.length) :
    SameBuffer conn (readMessage realloc conn m.header ptr) ∧
      (readMessage realloc conn m.header ptr).Ok ∧
      (readMessage realloc conn m.header ptr).stats = conn.stats.message m := by
  obtain ⟨-, -, -, -, hpay⟩ := frame_in_memory hptr h
  unfold readMessage ReadStats.message
  split_ifs with hc
  · have hlen := hlong hc
    rw [hpay, length_load] at hlen
    obtain ⟨d, hd⟩ := Nat.exists_eq_add_of_le hlen
    have hparts : m.payload = conn.readBuf.load (ptr + sizeofHeader) 8 ++
        (conn.readBuf.load (ptr + sizeofHeader + 8) 4 ++
          (conn.readBuf.load (ptr + sizeofHeader + 8 + 4) 4 ++
            conn.readBuf.load (ptr + sizeofHeader + sizeofOutputPayload) d)) := by
      have hsum : sizeofOutputPayload + d = 8 + (4 + (4 + d)) := by
        rw [sizeofOutputPayload]
        omega
      rw [hpay, hd, hsum, load_add, load_add, load_add]
      rfl
    have hduration : be64toh m.payload 0 =
        be64toh (conn.readBuf.load (ptr + sizeofHeader) 8) 0 := by
      rw [hparts, be64toh_append_left (by rw [length_load])]
    have hvad : ntohl m.payload 8 = ntohl (conn.readBuf.load (ptr + sizeofHeader + 8) 4) 0 := by
      have h8 := ntohl_append (conn.readBuf.load (ptr + sizeofHeader) 8)
        (conn.readBuf.load (ptr + sizeofHeader + 8) 4 ++
          (conn.readBuf.load (ptr + sizeofHeader + 8 + 4) 4 ++
            conn.readBuf.load (ptr + sizeofHeader + sizeofOutputPayload) d)) 0
      rw [length_load] at h8
      rw [hparts, h8, ntohl_append_left (by rw [length_load])]
    have hdata : m.payload.drop sizeofOutputPayload =
        conn.readBuf.load (ptr + sizeofHeader + sizeofOutputPayload)
          (UInt64.ofNat m.header.payloadLen.toNat - UInt64.ofNat sizeofOutputPayload).toNat := by
      have hlt := m.header.payloadLen.toNat_lt
      have hsub : (UInt64.ofNat m.header.payloadLen.toNat -
          UInt64.ofNat sizeofOutputPayload).toNat = d := by
        rw [UInt64.toNat_sub_of_le, UInt64.toNat_ofNat', UInt64.toNat_ofNat']
        · simp only [sizeofOutputPayload] at hd ⊢
          omega
        · rw [UInt64.le_iff_toNat_le, UInt64.toNat_ofNat', UInt64.toNat_ofNat']
          simp only [sizeofOutputPayload] at hd ⊢
          omega
      rw [hsub, hpay, drop_load _ _ _ _ hlen, hd, Nat.add_sub_cancel_left]
    rw [hduration, hvad, hdata]
    exact recordOutput_spec hrealloc hok _ _ _
  · exact ⟨⟨rfl, rfl, rfl, rfl⟩, hok, rfl⟩

/-- What the loop has done behind `ptr`: the frames are recorded in order, and the remainder is
behind the last `ptr`. -/
structure LoopSpec (conn : ReadState) (ptr : ℕ) (r : ReadState × ℕ × ℕ) : Prop where
  same : SameBuffer conn r.1
  ok : r.1.Ok
  stats : r.1.stats =
    (clientFramer.split (conn.pending.drop ptr)).1.foldl ReadStats.message conn.stats
  len : r.2.1 + r.2.2 = conn.readBufLen
  rest : conn.pending.drop r.2.1 = (clientFramer.split (conn.pending.drop ptr)).2

/-- The loop ends where no frame is. -/
theorem LoopSpec.stop {conn : ReadState} {ptr remaining : ℕ} (hok : conn.Ok)
    (hlen : ptr + remaining = conn.readBufLen)
    (h : ∀ m n, clientFramer.next (conn.pending.drop ptr) ≠ .frame m n) :
    LoopSpec conn ptr (conn, ptr, remaining) := by
  have hsplit := clientFramer.split_of_not_frame h
  refine ⟨⟨rfl, rfl, rfl, rfl⟩, hok, ?_, hlen, ?_⟩
  · rw [hsplit]
    rfl
  · rw [hsplit]

/-- A frame is recorded before the loop goes on behind it. -/
theorem LoopSpec.frame {conn conn₁ : ReadState} {ptr n : ℕ} {m : Message}
    {r : ReadState × ℕ × ℕ} (h : clientFramer.next (conn.pending.drop ptr) = .frame m n)
    (hsame : SameBuffer conn conn₁) (hstats : conn₁.stats = conn.stats.message m)
    (hr : LoopSpec conn₁ (ptr + n) r) : LoopSpec conn ptr r := by
  have hsplit := clientFramer.split_of_frame h
  rw [List.drop_drop] at hsplit
  have hstats' := hr.stats
  have hrest := hr.rest
  rw [hsame.pending] at hstats' hrest
  refine ⟨hsame.trans hr.same, hr.ok, ?_, hr.len.trans hsame.readBufLen, ?_⟩
  · rw [hstats', hstats, hsplit, List.foldl_cons]
  · rw [hrest, hsplit]

/-- Every `CMD_OUTPUT` among the frames has a payload that holds `audio_output_payload`. -/
def LongOutputs (bs : List UInt8) : Prop :=
  ∀ m ∈ (clientFramer.split bs).1, m.header.command = cmdOutput →
    sizeofOutputPayload ≤ m.payload.length

include hrealloc in
/-- **The loop takes the frames of the buffer** behind `ptr`. -/
theorem readLoop_eq (n : ℕ) : ∀ {conn : ReadState} {ptr remaining : ℕ}, conn.Ok →
    ptr + remaining = conn.readBufLen → remaining < n → LongOutputs (conn.pending.drop ptr) →
    LoopSpec conn ptr (readLoop realloc n conn ptr remaining) := by
  induction n with
  | zero => intro conn ptr remaining _ _ h; omega
  | succ n ih =>
      intro conn ptr remaining hok hlen hn hlong
      have hptr : ptr ≤ conn.readBufLen := by omega
      have hstream : (conn.pending.drop ptr).length = remaining := by
        rw [List.length_drop, ReadState.length_pending]
        omega
      have hload : conn.pending.drop ptr = conn.readBuf.load ptr remaining := by
        rw [ReadState.pending, drop_load _ _ _ _ hptr, Nat.zero_add, ← hlen,
          Nat.add_sub_cancel_left]
      rw [readLoop]
      by_cases h₁ : remaining < sizeofHeader
      · rw [if_pos h₁]
        refine .stop hok hlen fun m k h => ?_
        obtain ⟨-, -, hk, hle⟩ := nextOf_eq_frame h
        omega
      · have hhead : protocolDecodeHeader (conn.readBuf.load ptr sizeofHeader) =
            protocolDecodeHeader (conn.pending.drop ptr) := by
          rw [hload, ← protocolDecodeHeader_take (conn.readBuf.load ptr remaining), take_load,
            Nat.min_eq_left (by omega)]
        rw [if_neg h₁, hhead]
        dsimp only
        by_cases h₂ : (protocolDecodeHeader (conn.pending.drop ptr)).magic = audioMagic
        · have hv : magicOk (protocolDecodeHeader (conn.pending.drop ptr)) = true := by
            simpa [magicOk] using h₂
          rw [if_neg (by simpa using h₂)]
          by_cases h₃ : remaining < sizeofHeader +
              (protocolDecodeHeader (conn.pending.drop ptr)).payloadLen.toNat
          · rw [if_pos h₃]
            refine .stop hok hlen fun m k h => ?_
            obtain ⟨-, hm, hk, hle⟩ := nextOf_eq_frame h
            rw [hm] at hk
            dsimp only at hk
            omega
          · rw [if_neg h₃]
            have hnext := nextOf_of_frame hv (by omega)
            obtain ⟨hsame, hok', hstats⟩ := readMessage_spec hrealloc hok hptr hnext (hlong _ (by
              rw [clientFramer.split_of_frame hnext]
              exact List.mem_cons_self))
            refine .frame hnext hsame hstats (ih hok' ?_ ?_ ?_)
            · rw [hsame.readBufLen]
              omega
            · simp only [sizeofHeader] at h₁ ⊢
              omega
            · intro m hm
              apply hlong m
              rw [hsame.pending, ← List.drop_drop] at hm
              rw [clientFramer.split_of_frame hnext]
              exact List.mem_cons_of_mem _ hm
        · rw [if_pos h₂]
          refine .stop hok hlen fun m k h => ?_
          obtain ⟨hv, -⟩ := nextOf_eq_frame h
          exact h₂ (by simpa [magicOk] using hv)

/-! ### One read, and all reads -/

theorem le_growCap (n newCap needed : ℕ) (h : 1 ≤ newCap) (hn : needed ≤ newCap + n) :
    needed ≤ growCap n newCap needed := by
  induction n generalizing newCap with
  | zero => exact hn
  | succ n ih =>
      unfold growCap
      split_ifs with hcap
      · exact ih (newCap * 2) (by omega) (by omega)
      · omega

include hrealloc in
theorem reserve_spec {conn : ReadState} (h : conn.Ok) (nread : ℕ) :
    ∃ conn', reserve realloc conn nread = (true, conn') ∧ conn'.Ok ∧
      conn'.readBufLen + nread ≤ conn'.readBufCap ∧ conn'.readBufLen = conn.readBufLen ∧
      conn'.readBuf = conn.readBuf ∧ conn'.stats = conn.stats := by
  unfold reserve
  rw [hrealloc]
  by_cases hcap : conn.readBufLen + nread > conn.readBufCap
  · have hroom := le_growCap (conn.readBufLen + nread)
      (if conn.readBufCap = 0 then 8192 else conn.readBufCap * 2) (conn.readBufLen + nread)
      (by split_ifs <;> omega) (by omega)
    rw [if_pos hcap, if_pos rfl]
    refine ⟨_, rfl, ⟨?_, h.latencies⟩, hroom, rfl, rfl, rfl⟩
    dsimp only
    omega
  · rw [if_neg hcap]
    exact ⟨conn, rfl, h, by omega, rfl, rfl, rfl⟩

include hrealloc in
/-- The frames of the buffer are recorded, and the rest stays. -/
theorem decodeBuffered_spec {conn : ReadState} (h : conn.Ok) (hlong : LongOutputs conn.pending) :
    (decodeBuffered realloc conn).Ok ∧
      (decodeBuffered realloc conn).pending = (clientFramer.split conn.pending).2 ∧
      (decodeBuffered realloc conn).stats =
        (clientFramer.split conn.pending).1.foldl ReadStats.message conn.stats := by
  have hloop : LoopSpec conn 0
      (readLoop realloc (conn.readBufLen + 1) conn 0 conn.readBufLen) :=
    readLoop_eq hrealloc _ h (Nat.zero_add _) (Nat.lt_succ_self _) hlong
  unfold decodeBuffered
  generalize readLoop realloc (conn.readBufLen + 1) conn 0 conn.readBufLen = r at hloop ⊢
  have hst := hloop.stats
  have hrest := hloop.rest
  rw [List.drop_zero] at hst hrest
  have hsum := hloop.len
  dsimp only
  split_ifs with hlt
  · refine ⟨⟨?_, hloop.ok.latencies⟩, ?_, hst⟩
    · have := hloop.ok.buf
      dsimp only
      omega
    · have hsame := load_store_same r.1.readBuf 0 (r.1.readBuf.load r.2.1 r.2.2)
      rw [length_load] at hsame
      rw [← hrest, ReadState.pending, hsame, ReadState.pending, drop_load _ _ _ _ (by omega),
        hloop.same.readBuf, Nat.zero_add, ← hsum, Nat.add_sub_cancel_left]
  · refine ⟨hloop.ok, ?_, hst⟩
    have hzero : r.2.1 = 0 := by
      have := hloop.same.readBufLen
      omega
    rw [hloop.same.pending, ← hrest, hzero, List.drop_zero]

theorem ReadState.pending_append (conn : ReadState) (bytes : List UInt8) :
    (conn.append bytes).pending = conn.pending ++ bytes := by
  rw [pending, append, pending, load_add, load_store_disjoint _ _ (.inl (by omega)), Nat.zero_add,
    load_store_same]

include hrealloc in
/-- A read records the frames of what is in the buffer and what arrived, and keeps the rest. -/
theorem readBytes_spec {conn : ReadState} (h : conn.Ok) {bytes : List UInt8}
    (hlong : LongOutputs (conn.pending ++ bytes)) :
    (readBytes realloc conn bytes).Ok ∧
      (readBytes realloc conn bytes).pending = (clientFramer.split (conn.pending ++ bytes)).2 ∧
      (readBytes realloc conn bytes).stats =
        (clientFramer.split (conn.pending ++ bytes)).1.foldl ReadStats.message conn.stats := by
  obtain ⟨conn₁, hres, hok, hroom, hlen, hbuf, hstats⟩ := reserve_spec hrealloc h bytes.length
  have hpending : (conn₁.append bytes).pending = conn.pending ++ bytes := by
    rw [ReadState.pending_append, ReadState.pending, hbuf, hlen, ReadState.pending]
  have hok' : (conn₁.append bytes).Ok := ⟨hroom, hok.latencies⟩
  have hdec := decodeBuffered_spec hrealloc hok' (by rwa [hpending])
  rw [hpending] at hdec
  unfold readBytes
  rw [hres]
  obtain ⟨hdone, hrest, hst⟩ := hdec
  refine ⟨hdone, hrest, ?_⟩
  rw [← hstats]
  exact hst

include hrealloc in
/-- **Reads one after another feed the framer**, and a read of no bytes changes nothing. -/
theorem onReads_spec (reads : List (List UInt8)) : ∀ {conn : ReadState}, conn.Ok →
    clientFramer.split conn.pending = ([], conn.pending) →
    LongOutputs (conn.pending ++ reads.flatten) →
    (onReads realloc conn reads).Ok ∧
      (onReads realloc conn reads).pending =
        (clientFramer.split (conn.pending ++ reads.flatten)).2 ∧
      (onReads realloc conn reads).stats =
        (clientFramer.split (conn.pending ++ reads.flatten)).1.foldl ReadStats.message
          conn.stats := by
  induction reads with
  | nil =>
      intro conn h hnone _
      rw [List.flatten_nil, List.append_nil, hnone]
      exact ⟨h, rfl, rfl⟩
  | cons bytes reads ih =>
      intro conn h hnone hlong
      have hsplit := clientFramer.split_append (conn.pending ++ bytes) reads.flatten
      rw [List.flatten_cons, ← List.append_assoc] at hlong ⊢
      unfold LongOutputs at hlong
      rw [hsplit] at hlong ⊢
      by_cases hempty : bytes = []
      · have hread : onReads realloc conn (bytes :: reads) = onReads realloc conn reads := by
          rw [hempty]
          rfl
        rw [hempty, List.append_nil, hnone, List.nil_append] at hlong ⊢
        rw [← hempty, hread]
        exact ih h hnone hlong
      · have hfirst : LongOutputs (conn.pending ++ bytes) :=
          fun m hm => hlong m (List.mem_append_left _ hm)
        obtain ⟨hok, hpending, hstats⟩ := readBytes_spec hrealloc h hfirst
        have hread : onReads realloc conn (bytes :: reads) =
            onReads realloc (readBytes realloc conn bytes) reads := by
          unfold onReads
          rw [List.foldl_cons, onRead, if_pos]
          have := List.length_pos_iff.mpr hempty
          omega
        have hrest := ih hok (by rw [hpending, clientFramer.split_remainder]) (by
          rw [hpending]
          exact fun m hm => hlong m (List.mem_append_right _ hm))
        rw [hpending, hstats] at hrest
        rw [hread, List.foldl_append]
        exact hrest

end

/-! ### The server's responses -/

/-- The message the client finds in an encoded response. -/
def Response.message (r : Response) : Message := ⟨r.header, r.body.payload⟩

/-- A response that fits a write record is read as one frame, whatever follows it. -/
theorem next_encode {r : Response} (h : r.respLen ≤ maxWritePayload) (rest : List UInt8) :
    clientFramer.next (r.encode ++ rest) = .frame r.message r.encode.length := by
  have hlen : r.body.payload.length < 2 ^ 31 := by
    unfold Response.respLen at h
    simp only [maxWritePayload] at h
    omega
  have hhead : protocolDecodeHeader (r.encode ++ rest) = r.header := by
    rw [Response.encode, List.append_assoc, protocolDecodeHeader_encodeHeader]
  have hpay : r.header.payloadLen.toNat = r.body.payload.length := toNat_ofNat_of_lt hlen
  have hvalid : magicOk (protocolDecodeHeader (r.encode ++ rest)) = true := by
    rw [hhead]
    rfl
  have hframe := nextOf_of_frame hvalid
    (by rw [hhead, hpay, List.length_append, Response.length_encode, Response.respLen]; omega)
  have hdrop : ((r.encode ++ rest).drop sizeofHeader).take r.body.payload.length =
      r.body.payload := by
    rw [Response.encode, List.append_assoc, List.drop_left' (length_encodeHeader _),
      List.take_left]
  rw [hhead, hpay, hdrop] at hframe
  rw [Response.length_encode]
  exact hframe

/-- What a response adds to the statistics. -/
def ReadStats.response (stats : ReadStats) (r : Response) : ReadStats :=
  match r.body with
  | .output durationNs vadProb data => stats.output durationNs vadProb data
  | _ => stats

theorem ReadStats.message_response (stats : ReadStats) (r : Response) :
    stats.message r.message = stats.response r := by
  obtain ⟨sequenceId, body⟩ := r
  cases body with
  | output durationNs vadProb data =>
      have hvad : ntohl (Body.output durationNs vadProb data).payload 8 = vadProb := by
        have h8 := ntohl_append (htobe64 durationNs)
          (htonl vadProb ++ (List.replicate 4 0 ++ data)) 0
        rw [ntohl_htonl, length_htobe64] at h8
        rw [Body.payload, List.append_assoc, List.append_assoc, h8]
      have hduration : be64toh (Body.output durationNs vadProb data).payload 0 = durationNs := by
        rw [Body.payload, List.append_assoc, List.append_assoc, be64toh_htobe64]
      have hdata :
          (Body.output durationNs vadProb data).payload.drop sizeofOutputPayload = data := by
        rw [Body.payload]
        exact List.drop_left' rfl
      unfold message response Response.message
      refine (if_pos rfl).trans ?_
      dsimp only
      rw [hduration, hvad, hdata]
  | error errorCode => rfl
  | pong => rfl
  | discoverReply numWorkers => rfl

theorem Response.long_message (r : Response) (h : r.message.header.command = cmdOutput) :
    sizeofOutputPayload ≤ r.message.payload.length := by
  obtain ⟨sequenceId, body⟩ := r
  cases body with
  | output durationNs vadProb data =>
      unfold message
      dsimp only
      rw [Body.length_payload_output]
      omega
  | error errorCode =>
      have hcmd : cmdError = cmdOutput := h
      exact absurd hcmd (by decide)
  | pong =>
      have hcmd : cmdPong = cmdOutput := h
      exact absurd hcmd (by decide)
  | discoverReply numWorkers =>
      have hcmd : cmdDiscoverReply = cmdOutput := h
      exact absurd hcmd (by decide)

/-! ### The statistics of a whole stream -/

/-- The fields of a `CMD_OUTPUT`. -/
structure Output where
  durationNs : UInt64
  vadProb : UInt32
  data : List UInt8
deriving DecidableEq, Repr

def Response.output (r : Response) : Option Output :=
  match r.body with
  | .output durationNs vadProb data => some ⟨durationNs, vadProb, data⟩
  | _ => none

/-- The outputs among the responses, in order. -/
def outputs (rs : List Response) : List Output := rs.filterMap Response.output

/-- The statistics of a stream with these outputs; the counters are `uint64_t`. -/
structure Recorded (writeOutput : Bool) (os : List Output) (stats : ReadStats) : Prop where
  latencies : stats.latencies = os.map Output.durationNs
  count : stats.countReceived = UInt64.ofNat os.length
  total : stats.totalReceived = UInt64.ofNat (os.map fun o => o.data.length).sum
  sum : stats.sumDurationNs = UInt64.ofNat (os.map fun o => o.durationNs.toNat).sum
  min : ∀ o ∈ os, stats.minDurationNs ≤ o.durationNs
  max : ∀ o ∈ os, o.durationNs ≤ stats.maxDurationNs
  outputFile : stats.outputFile = if writeOutput then some (os.flatMap Output.data) else none
  outputVadFile : stats.outputVadFile =
    if writeOutput then some (os.flatMap fun o => hostFloat o.vadProb) else none

theorem recorded_fresh (writeOutput : Bool) :
    Recorded writeOutput [] (ReadState.fresh writeOutput).stats := by
  cases writeOutput <;> exact ⟨rfl, rfl, rfl, rfl, by simp, by simp, rfl, rfl⟩

theorem Recorded.output {writeOutput : Bool} {os : List Output} {stats : ReadStats}
    (h : Recorded writeOutput os stats) (o : Output) :
    Recorded writeOutput (os ++ [o]) (stats.output o.durationNs o.vadProb o.data) := by
  refine ⟨?_, ?_, ?_, ?_, ?_, ?_, ?_, ?_⟩
  · simp only [ReadStats.output, h.latencies, List.map_append, List.map_singleton]
  · simp only [ReadStats.output, h.count, List.length_append, List.length_singleton,
      UInt64.ofNat_add]
    rfl
  · simp only [ReadStats.output, h.total, List.map_append, List.map_singleton, List.sum_append,
      List.sum_singleton, UInt64.ofNat_add]
  · simp only [ReadStats.output, h.sum, List.map_append, List.map_singleton, List.sum_append,
      List.sum_singleton, UInt64.ofNat_add, UInt64.ofNat_toNat]
  · intro o' ho'
    simp only [ReadStats.output]
    rcases List.mem_append.mp ho' with ho' | ho'
    · have hle := h.min o' ho'
      split_ifs with hlt
      · exact UInt64.le_of_lt (UInt64.lt_of_lt_of_le hlt hle)
      · exact hle
    · rw [List.mem_singleton.mp ho']
      split_ifs with hlt
      · exact UInt64.le_refl _
      · exact UInt64.not_lt.mp hlt
  · intro o' ho'
    simp only [ReadStats.output]
    rcases List.mem_append.mp ho' with ho' | ho'
    · have hle := h.max o' ho'
      split_ifs with hlt
      · exact UInt64.le_of_lt (UInt64.lt_of_le_of_lt hle hlt)
      · exact hle
    · rw [List.mem_singleton.mp ho']
      split_ifs with hlt
      · exact UInt64.le_refl _
      · exact UInt64.not_lt.mp hlt
  · simp only [ReadStats.output, h.outputFile, List.flatMap_append, List.flatMap_singleton]
    cases writeOutput <;> rfl
  · simp only [ReadStats.output, h.outputVadFile, List.flatMap_append, List.flatMap_singleton]
    cases writeOutput <;> rfl

theorem Recorded.responses {writeOutput : Bool} (rs : List Response) :
    ∀ {os : List Output} {stats : ReadStats}, Recorded writeOutput os stats →
      Recorded writeOutput (os ++ outputs rs) ((rs.map Response.message).foldl ReadStats.message
        stats) := by
  induction rs with
  | nil =>
      intro os stats h
      rwa [outputs, List.filterMap_nil, List.append_nil]
  | cons r rs ih =>
      intro os stats h
      rw [List.map_cons, List.foldl_cons, ReadStats.message_response]
      unfold ReadStats.response
      cases hr : r.body with
      | output durationNs vadProb data =>
          have hout : outputs (r :: rs) = ⟨durationNs, vadProb, data⟩ :: outputs rs := by
            simp [outputs, Response.output, hr]
          rw [hout, ← List.singleton_append, ← List.append_assoc]
          exact ih (h.output ⟨durationNs, vadProb, data⟩)
      | error errorCode =>
          have hout : outputs (r :: rs) = outputs rs := by simp [outputs, Response.output, hr]
          rw [hout]
          exact ih h
      | pong =>
          have hout : outputs (r :: rs) = outputs rs := by simp [outputs, Response.output, hr]
          rw [hout]
          exact ih h
      | discoverReply numWorkers =>
          have hout : outputs (r :: rs) = outputs rs := by simp [outputs, Response.output, hr]
          rw [hout]
          exact ih h

/-- What the client has after reading `bytes` of the stream of the responses `rs`: the first
`k` responses are decoded, and the buffer holds less than the next one. -/
structure DecodedPrefix (writeOutput : Bool) (rs : List Response) (bytes : List UInt8)
    (conn : ReadState) (k : ℕ) : Prop where
  recorded : Recorded writeOutput (outputs (rs.take k)) conn.stats
  bytes_eq : bytes = (rs.take k).flatMap Response.encode ++ conn.pending
  next : ∀ r ∈ rs[k]?, conn.readBufLen < r.respLen
  room : conn.readBufLen ≤ conn.readBufCap

/-- **The client decodes the stream of responses, however it is cut.**  After any reads the
responses that are whole in what was read are decoded, each once and in order, and the
buffer holds what is behind them; after the whole stream, all are decoded and it is
empty. -/
theorem responses_decoded (realloc : ℕ → Bool) (hrealloc : ∀ n, realloc n = true)
    (writeOutput : Bool) (rs : List Response) (hrs : ∀ r ∈ rs, r.respLen ≤ maxWritePayload)
    (reads : List (List UInt8)) (rest : List UInt8)
    (hcut : reads.flatten ++ rest = rs.flatMap Response.encode) :
    (∃ k, DecodedPrefix writeOutput rs reads.flatten
      (onReads realloc (ReadState.fresh writeOutput) reads) k) ∧
    (rest = [] →
      Recorded writeOutput (outputs rs)
          (onReads realloc (ReadState.fresh writeOutput) reads).stats ∧
        (onReads realloc (ReadState.fresh writeOutput) reads).readBufLen = 0) := by
  have hfresh : (ReadState.fresh writeOutput).Ok := ⟨Nat.le_refl _, Nat.le_refl _⟩
  have hnil : (ReadState.fresh writeOutput).pending = [] := rfl
  obtain ⟨k, tail, hbytes, hsplit, hnext⟩ := clientFramer.split_encoded rs
    (fun r hr => next_encode (hrs r hr)) reads.flatten rest hcut
  have hlong : LongOutputs reads.flatten := by
    intro m hm hc
    rw [hsplit] at hm
    obtain ⟨r, -, rfl⟩ := List.mem_map.mp hm
    exact r.long_message hc
  obtain ⟨hok, hpending, hstats⟩ := onReads_spec hrealloc reads hfresh (by rw [hnil]; rfl)
    (by rw [hnil]; exact hlong)
  rw [hnil, List.nil_append, hsplit] at hpending hstats
  generalize onReads realloc (ReadState.fresh writeOutput) reads = conn at *
  dsimp only at hpending hstats
  have hrec : Recorded writeOutput (outputs (rs.take k)) conn.stats := by
    rw [hstats]
    exact (recorded_fresh writeOutput).responses (rs.take k)
  have hlen : conn.readBufLen = tail.length := by rw [← hpending, ReadState.length_pending]
  refine ⟨⟨k, hrec, by rw [hpending]; exact hbytes, ?_, hok.buf⟩, ?_⟩
  · intro r hr
    rw [hlen, ← r.length_encode]
    exact hnext r hr
  · intro hrest
    have hwhole : tail = (rs.drop k).flatMap Response.encode := by
      rw [hrest, List.append_nil, hbytes] at hcut
      conv_rhs at hcut => rw [← List.take_append_drop k rs]
      rw [List.flatMap_append, List.append_cancel_left_eq] at hcut
      exact hcut
    have hdone : rs.drop k = [] := by
      cases hd : rs.drop k with
      | nil => rfl
      | cons r rs' =>
          have hr : rs[k]? = some r := by
            rw [← List.head?_drop, hd]
            rfl
          have hlt := hnext r hr
          rw [hwhole, hd, List.flatMap_cons, List.length_append] at hlt
          omega
    rw [hdone, List.flatMap_nil] at hwhole
    have htake : rs.take k = rs := by
      conv_rhs => rw [← List.take_append_drop k rs, hdone, List.append_nil]
    rw [htake] at hrec
    exact ⟨hrec, by rw [hlen, hwhole, List.length_nil]⟩

/-- An answer with four bytes of audio, and a pong. -/
def twoResponses : List Response := [⟨1, .output 500 minusOneFloat [1, 2, 3, 4]⟩, ⟨2, .pong⟩]

/-- Both, cut inside the first header. -/
theorem responses_decoded_two :
    Recorded true [⟨500, minusOneFloat, [1, 2, 3, 4]⟩]
      (onReads (fun _ => true) (ReadState.fresh true)
        [(twoResponses.flatMap Response.encode).take 7,
          (twoResponses.flatMap Response.encode).drop 7]).stats :=
  ((responses_decoded (fun _ => true) (fun _ => rfl) true twoResponses (by decide) _ []
    (by decide)).2 rfl).1

end MachAudio
