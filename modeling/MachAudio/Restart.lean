import MachAudio.Control
import MachAudio.Frame
import MachAudio.Lockstep

/-! # A session started again

A `CMD_START` rewinds the arena and sets up the session anew, so what came before it can reach
a later response only through the bytes left in the arena.  `Resembles` relates the audio
states of two sessions with different histories after the same `CMD_START`; every `CMD_INPUT`
that writes what it reads keeps it and is answered the same in both. -/

namespace MachAudio

open ByteMem Exec

variable {H Φ : Type} (E : Env H Φ)

/-! ### Requests that are not decoded -/

section
variable {s : TranscodeSession H} {size curr : ℕ} {payload : List UInt8}

/-- The loop over the buffers ends without a sample. -/
theorem mixInputs_no_sample (hpos : 0 < size) (hsize : size ≤ 2 ^ 20) (hcurr : curr ≤ size)
    (hpay : payload.length < 2 ^ 31) (hd : ∀ len curr₁, ¬Decodes s size curr payload len curr₁)
    {w : Work H} (hw : At s size curr (fun _ => True) w) {b : Block} {n : ℕ}
    (h : (mixInputs payload (ntohl payload 0).toNat (UInt32.ofNat sizeofInputPayload) none w).1 =
      some (some (b, n))) : n = 0 := by
  cases hl : bufferLengths payload with
  | nil =>
      rw [(mixInputs_nil hl w hw).1] at h
      cases h
  | cons len lens =>
      have hloop := (mixInputs_cons (grants_true curr size) hpos (by omega) hpay (Nat.le_refl curr)
        hcurr (fun _ => trivial) hl (fun _ _ _ _ _ _ _ _ => ⟨trivial, trivial⟩) w hw).1
      rw [hloop] at h
      split_ifs at h with hk
      · rw [Option.map_eq_some_iff] at h
        obtain ⟨curr₁, hb, he⟩ := h
        have hno : ¬0 < s.decodedSamples len := fun hn => hd len curr₁ ⟨lens, hl, hk, hb, hn⟩
        simp only [Option.some.injEq, Prod.mk.injEq] at he
        omega

/-- The call is over before anything but the arena's memory has changed. -/
theorem audioProcessTranscode_undecoded (hpos : 0 < size) (hsize : size ≤ 2 ^ 20)
    (hcurr : curr ≤ size) (hpay : payload.length < 2 ^ 31)
    (hd : ∀ len curr₁, ¬Decodes s size curr payload len curr₁) {w : Work H}
    (hw : At s size curr (fun _ => True) w) :
    (ntohl payload 0 = 0 ∧ audioProcessTranscode E payload w = (0, w)) ∨
      (ntohl payload 0 ≠ 0 ∧ (audioProcessTranscode E payload w).1 = -1 ∧
        (audioProcessTranscode E payload w).2.session = w.session) := by
  by_cases h0 : ntohl payload 0 = 0
  · refine .inl ⟨h0, ?_⟩
    simp only [audioProcessTranscode, bind_apply, getCurr_apply]
    rw [if_pos h0, pure_apply]
  · refine .inr ⟨h0, ?_⟩
    have hkeep := congrArg Prod.fst (mixInputs_keeps payload (ntohl payload 0).toNat
      (UInt32.ofNat sizeofInputPayload) none w)
    have hno := fun b n => mixInputs_no_sample (b := b) (n := n) hpos hsize hcurr hpay hd hw
    simp only [audioProcessTranscode, bind_apply, getCurr_apply]
    rw [if_neg h0, bind_apply]
    rcases hm : mixInputs payload (ntohl payload 0).toNat (UInt32.ofNat sizeofInputPayload) none w
      with ⟨r, w₁⟩
    rw [hm] at hkeep hno
    rcases r with _ | _ | ⟨b, n⟩
    · exact ⟨rfl, hkeep⟩
    · exact ⟨rfl, hkeep⟩
    · dsimp only
      rw [if_pos (hno b n rfl)]
      exact ⟨rfl, hkeep⟩

/-- Two runs of a request are answered the same. -/
theorem audioProcessTranscode_answered (hpos : 0 < size) (hsize : size ≤ 2 ^ 20)
    (hcurr : curr ≤ size) (hpay : payload.length < 2 ^ 31) (hin₁ : s.inChannels = 1)
    (hout₁ : s.outChannels = 1) (hw : Written s size curr payload) {w w' : Work H}
    (h : Alike s size curr ∅ w w') :
    (audioProcessTranscode E payload w').1 = (audioProcessTranscode E payload w).1 ∧
      Answered curr (audioProcessTranscode E payload w).1 (audioProcessTranscode E payload w).2
        (audioProcessTranscode E payload w').2 := by
  by_cases hd : ∃ len curr₁, Decodes s size curr payload len curr₁
  · obtain ⟨len, curr₁, hd⟩ := hd
    exact audioProcessTranscode_sync E hpos hsize hcurr hpay hin₁ hout₁ hd hw w w' h
  · have hd : ∀ len curr₁, ¬Decodes s size curr payload len curr₁ :=
      fun len curr₁ h => hd ⟨len, curr₁, h⟩
    rcases audioProcessTranscode_undecoded E hpos hsize hcurr hpay hd h.left with
      ⟨h0, he⟩ | ⟨h0, hr, hs⟩
    · rcases audioProcessTranscode_undecoded E hpos hsize hcurr hpay hd h.right with
        ⟨-, he'⟩ | ⟨h0', -, -⟩
      · rw [he, he']
        exact ⟨rfl, h.answered (by simp)⟩
      · exact absurd h0 h0'
    · rcases audioProcessTranscode_undecoded E hpos hsize hcurr hpay hd h.right with
        ⟨h0', -⟩ | ⟨-, hr', hs'⟩
      · exact absurd h0' h0
      · exact ⟨hr'.trans hr.symm, hs'.trans (h.session.trans hs.symm),
          fun h => absurd (hr.symm.trans h) (by decide)⟩

end

/-! ### Two audio states -/

/-- Audio states that differ at most in what the arena holds. -/
structure AudioState.Resembles (a a' : AudioState H) : Prop where
  session : a'.session = a.session
  addr : a'.arena.addr = a.arena.addr
  size : a'.arena.size = a.arena.size
  curr : a'.arena.curr = a.arena.curr

theorem AudioState.Resembles.alike {a a' : AudioState H} (h : a.Resembles a') :
    Alike a.session a.arena.size a.arena.curr ∅ ⟨a.session, a.arena, []⟩
      ⟨a'.session, a'.arena, []⟩ where
  left := a.at_start _
  right := ⟨h.session ▸ .refl _, h.size, h.curr, fun _ _ => trivial⟩
  session := h.session
  buf := Set.eqOn_empty _ _

/-- The same configuration on arenas of one size at one address. -/
theorem audioStart_resembles {a a' : AudioState H} (haddr : a'.arena.addr = a.arena.addr)
    (hsize : a'.arena.size = a.arena.size) (payload : List UInt8) :
    (audioStart E a payload).Resembles (audioStart E a' payload) := by
  have hreset : arenaReset a'.arena = ⟨a.arena.addr, a'.arena.buf, a.arena.size, 0⟩ := by
    rw [arenaReset, haddr, hsize]
  have hvad := vadGruInit_withBuf a.arena.addr a.arena.buf a'.arena.buf a.arena.size 0
  simp only [audioStart, hreset, hvad]
  split_ifs <;> exact ⟨rfl, rfl, rfl, rfl⟩

/-- What a `CMD_START` sets up depends on the address and the size of the arena only. -/
theorem audioStep_resembles_of_start {a a' : AudioState H}
    (haddr : a'.arena.addr = a.arena.addr) (hsize : a'.arena.size = a.arena.size) {m : Message}
    (hm : m.IsStart) : (audioStep E a m).Resembles (audioStep E a' m) := by
  rw [audioStep, audioStep, if_pos hm, if_pos hm]
  exact audioStart_resembles E haddr hsize m.payload

theorem audioStep_addr {a : AudioState H} (ha : a.Ok) (m : Message) :
    (audioStep E a m).arena.addr = a.arena.addr := by
  rw [audioStep]
  split_ifs
  · obtain ⟨-, -, -, -, haddr, -⟩ := vadGruInit_rewound ha.size
    simp only [audioStart]
    split_ifs
    · exact haddr
    · rfl
  · exact audioProcessTranscode_keeps_addr E m.payload _
  · rfl
  · rfl

/-- The arena of a session never moves. -/
theorem audioAfter_addr {a : AudioState H} (ha : a.Ok) : ∀ {ms : List Message}, ShortPayloads ms →
    (audioAfter E a ms).arena.addr = a.arena.addr := by
  intro ms
  induction ms generalizing a with
  | nil => exact fun _ => rfl
  | cons m ms ih =>
      intro hms
      have hm := hms m List.mem_cons_self
      simp only [sizeofAssembleBuf, sizeofHeader] at hm
      exact (ih (audioStep_ok E ha (by omega))
        fun m' hm' => hms m' (List.mem_cons_of_mem _ hm')).trans
        (audioStep_addr E ha m)

/-! ### A request in two audio states -/

/-- A body without the time that the processing took. -/
def Body.untimed : Body → Body
  | output _ vadProb data => output 0 vadProb data
  | body => body

theorem Body.length_untimed (body : Body) :
    body.untimed.payload.length = body.payload.length := by
  cases body with
  | output d p data => rw [untimed, length_payload_output, length_payload_output]
  | error c => rfl
  | pong => rfl
  | discoverReply n => rfl

section
variable {E}
variable {a a' : AudioState H} (h : a.Resembles a') (ha : a.Ok) (hmono : StartedMono a.session)
  {payload : List UInt8} (hpay : payload.length ≤ sizeofAssembleBuf - sizeofHeader)
  (hw : Written a.session a.arena.size a.arena.curr payload)

include h ha hmono hpay hw

theorem AudioState.Resembles.transcode :
    (a'.transcode E payload).1 = (a.transcode E payload).1 ∧
      Answered a.arena.curr (a.transcode E payload).1 (a.transcode E payload).2
        (a'.transcode E payload).2 := by
  have hsize := ha.size
  have hcurr := ha.curr
  simp only [machSessionArenaSize] at hsize
  simp only [sizeofAssembleBuf, sizeofHeader] at hpay
  exact audioProcessTranscode_answered E (by omega) (by omega) (by omega) (by omega)
    hmono.inChannels hmono.outChannels hw h.alike

theorem AudioState.Resembles.input (ha' : a'.Ok) :
    (audioInput E a payload).Resembles (audioInput E a' payload) where
  session := (h.transcode ha hmono hpay hw).2.session
  addr := by
    have h₁ := audioProcessTranscode_keeps_addr E payload ⟨a.session, a.arena, []⟩
    have h₂ := audioProcessTranscode_keeps_addr E payload ⟨a'.session, a'.arena, []⟩
    exact h₂.trans (h.addr.trans h₁.symm)
  size := by
    simp only [sizeofAssembleBuf, sizeofHeader] at hpay
    have hpay31 : payload.length < 2 ^ 31 := by omega
    have h₁ := (ha.transcode_shape E hpay31).2.size
    have h₂ := (ha'.transcode_shape E hpay31).2.size
    exact h₂.trans (h.size.trans h₁.symm)
  curr := h.curr

/-- The answers differ at most in the time. -/
theorem AudioState.Resembles.answer (d : UInt64) :
    (answerInput E d a' payload).untimed = (answerInput E d a payload).untimed := by
  obtain ⟨hcode, hans⟩ := h.transcode (E := E) ha hmono hpay hw
  simp only [answerInput, hcode]
  split_ifs with h0
  · obtain ⟨hcurr, hbuf⟩ := hans.output h0
    simp only [Body.untimed, Body.output.injEq, true_and]
    refine ⟨congrArg TranscodeSession.lastVadProb hans.session, ?_⟩
    rw [hcurr, h.curr]
    refine load_eq_of_eqOn hbuf fun x hx => ⟨hx.1, ?_⟩
    have := hx.1
    have := hx.2
    omega
  · rfl

end

/-! ### Two sessions -/

/-- A response without the time that the processing took. -/
def Response.untimed (r : Response) : Response := { r with body := r.body.untimed }

/-- What the messages `ms` are answered with on a session that has handled `history`, times
left out. -/
def responsesAfter (s : Session H) (history ms : List Message) : List Response :=
  (handleMessages E (handleMessages E s history).1 ms).2.map fun send => send.response.untimed

/-- What a message with the command `CMD_INPUT` is answered with, the time left out. -/
def answerUntimed (a : AudioState H) (m : Message) : Body :=
  if m.IsInput then (answerInput E 0 a m.payload).untimed else .error errInvalidPayload

theorem answerInput_untimed (d : UInt64) (a : AudioState H) (payload : List UInt8) :
    (answerInput E d a payload).untimed = (answerInput E 0 a payload).untimed := by
  simp only [answerInput]
  split_ifs <;> rfl

theorem answer_untimed {m : Message} (hc : m.header.command = cmdInput) (numWorkers : UInt32)
    (d : UInt64) (a : AudioState H) :
    ∃ body, answer E numWorkers d a m = some body ∧ body.untimed = answerUntimed E a m := by
  have hs : ¬m.IsStart := by simp [Message.IsStart, hc, cmdStart, cmdInput]
  have hst : ¬m.IsStop := by simp [Message.IsStop, hc, cmdInput, cmdStop]
  rw [answer, if_neg hs, answerUntimed]
  by_cases hi : m.IsInput
  · rw [if_pos hi, if_pos hi]
    exact ⟨_, rfl, answerInput_untimed E d a m.payload⟩
  · rw [if_neg hi, if_neg hst, if_pos (.inr hc), if_neg hi]
    exact ⟨_, rfl, rfl⟩

section
variable {E} (hmalloc : ∀ n, E.malloc n = true)
include hmalloc

theorem queueResponse_untimed (s : Session H) (r : Response) :
    ((queueResponse E s r).2.map fun send => send.response.untimed) =
      if r.untimed.respLen ≤ maxWritePayload then [r.untimed] else [] := by
  have hlen : r.untimed.respLen = r.respLen := by
    rw [Response.respLen, Response.respLen, Response.untimed, Body.length_untimed]
  have hmap : ((queueResponse E s r).2.map fun send => send.response.untimed) =
      ((queueResponse E s r).2.map Submission.response).map Response.untimed := by
    rw [List.map_map]
    rfl
  rw [hmap, queueResponse_sends hmalloc, hlen]
  split_ifs <;> rfl

theorem handleMessage_untimed {s : Session H} (hopen : s.closing = false) {m : Message}
    (hc : m.header.command = cmdInput) :
    ((handleMessage E s m).2.map fun send => send.response.untimed) =
      if (Response.mk m.header.sequenceId (answerUntimed E s.audio m)).respLen ≤ maxWritePayload then
        [⟨m.header.sequenceId, answerUntimed E s.audio m⟩]
      else [] := by
  obtain ⟨s₁, d, hio, -, -, hm⟩ := handleMessage_eq E s m
  obtain ⟨body, hbody, hun⟩ := answer_untimed E hc s.numWorkers d s.audio
  rw [hm, hbody, respond, hio.closing, hopen, if_neg (by decide), queueResponse_untimed hmalloc,
    Response.untimed, hun]

/-- Sessions with the same set-up answer the same inputs the same. -/
theorem handleMessages_untimed : ∀ {ms : List Message} {s s' : Session H}, s.closing = false →
    s'.closing = false → s.audio.Resembles s'.audio → s.audio.Ok → s'.audio.Ok →
    StartedMono s.audio.session → (∀ m ∈ ms, m.header.command = cmdInput) → ShortPayloads ms →
    InputsMeet E (fun a payload => Written a.session a.arena.size a.arena.curr payload) s.audio ms →
    ((handleMessages E s' ms).2.map fun send => send.response.untimed) =
      (handleMessages E s ms).2.map fun send => send.response.untimed
  | [], _, _, _, _, _, _, _, _, _, _, _ => rfl
  | m :: ms, s, s', hopen, hopen', h, ha, ha', hmono, hinputs, hshort, hw => by
      obtain ⟨hw₁, hw₂⟩ := (inputsMeet_cons E).mp hw
      have hc := hinputs m List.mem_cons_self
      have hpay := hshort m List.mem_cons_self
      have hpay31 : m.payload.length < 2 ^ 31 := by
        simp only [sizeofAssembleBuf, sizeofHeader] at hpay
        omega
      obtain ⟨haudio, hclosing⟩ := handleMessage_audio E s m
      obtain ⟨haudio', hclosing'⟩ := handleMessage_audio E s' m
      have hs : ¬m.IsStart := by simp [Message.IsStart, hc, cmdStart, cmdInput]
      have hst : ¬m.IsStop := by simp [Message.IsStop, hc, cmdInput, cmdStop]
      have hok := audioStep_ok E ha (m := m) hpay31
      have hok' := audioStep_ok E ha' (m := m) hpay31
      -- the answer is the same, and so are the two set-ups behind it
      have hstep : answerUntimed E s'.audio m = answerUntimed E s.audio m ∧
          (audioStep E s.audio m).Resembles (audioStep E s'.audio m) := by
        rw [answerUntimed, answerUntimed, audioStep, audioStep, if_neg hs, if_neg hs]
        by_cases hi : m.IsInput
        · simp only [if_pos hi]
          exact ⟨h.answer ha hmono hpay (hw₁ hi) 0, h.input ha hmono hpay (hw₁ hi) ha'⟩
        · simp only [if_neg hi, if_neg hst]
          exact ⟨trivial, h⟩
      obtain ⟨hanswer, hnext⟩ := hstep
      have hmono' := hmono.step E ha hs hst hpay31
      rw [← haudio] at hok hnext hmono' hw₂
      rw [← haudio'] at hok' hnext
      have ih := handleMessages_untimed (hclosing.trans hopen) (hclosing'.trans hopen') hnext hok
        hok' hmono' (fun m' hm' => hinputs m' (List.mem_cons_of_mem _ hm'))
        (fun m' hm' => hshort m' (List.mem_cons_of_mem _ hm')) hw₂
      rw [handleMessages, handleMessages, List.map_append, List.map_append, ih,
        handleMessage_untimed hmalloc hopen hc, handleMessage_untimed hmalloc hopen' hc, hanswer]

end

/-! ### Restart isolation -/

section
variable (addr : ℕ) {history inputs : List Message} {start : Message}

/-- The session after a history and a start is a fresh one after the start, up to the bytes in
its arena. -/
theorem restart_resembles (hhistory : ShortPayloads history) (hs : start.IsStart)
    (hstart : start.payload.length ≤ sizeofAssembleBuf - sizeofHeader) :
    (audioStep E (AudioState.fresh addr) start).Ok ∧
      (audioAfter E (AudioState.fresh addr) (history ++ [start])).Ok ∧
      (audioStep E (AudioState.fresh addr) start).Resembles
        (audioAfter E (AudioState.fresh addr) (history ++ [start])) := by
  have hfresh := AudioState.fresh_ok (H := H) addr
  have hpast := audioAfter_ok E hfresh hhistory
  have haddr := audioAfter_addr E hfresh hhistory
  simp only [sizeofAssembleBuf, sizeofHeader] at hstart
  rw [audioAfter_append, audioAfter_cons, audioAfter_nil]
  exact ⟨audioStep_ok E hfresh (by omega), audioStep_ok E hpast (by omega),
    audioStep_resembles_of_start E haddr (hpast.size.trans hfresh.size.symm) hs⟩

variable {E}

/-- A history before the start makes no difference. -/
theorem restart_forgets (clientFd : ℤ) (numWorkers : UInt32)
    (hmalloc : ∀ n, E.malloc n = true) (hhistory : ShortPayloads history)
    (hs : start.IsStart) (hstart : start.payload.length ≤ sizeofAssembleBuf - sizeofHeader)
    (hmono : StartedMono (audioStep E (AudioState.fresh addr) start).session)
    (hinputs : ∀ m ∈ inputs, m.header.command = cmdInput) (hshort : ShortPayloads inputs)
    (hw : InputsMeet E (fun a payload => Written a.session a.arena.size a.arena.curr payload)
      (audioStep E (AudioState.fresh addr) start) inputs) :
    responsesAfter E (acceptSession clientFd addr numWorkers) (history ++ [start]) inputs =
      responsesAfter E (acceptSession clientFd addr numWorkers) [start] inputs := by
  obtain ⟨hok, hok', hres⟩ := restart_resembles E addr hhistory hs hstart
  obtain ⟨h₁, hc₁⟩ := handleMessages_audio E (acceptSession clientFd addr numWorkers) [start]
  obtain ⟨h₂, hc₂⟩ :=
    handleMessages_audio E (acceptSession clientFd addr numWorkers) (history ++ [start])
  rw [acceptSession_audio] at h₁ h₂
  rw [audioAfter_cons, audioAfter_nil] at h₁
  exact handleMessages_untimed hmalloc hc₁ hc₂ (by rw [h₁, h₂]; exact hres) (by rw [h₁]; exact hok)
    (by rw [h₂]; exact hok') (by rw [h₁]; exact hmono) hinputs hshort (by rw [h₁]; exact hw)

/-- The whole run is defined when its history is. -/
theorem restart_defined (hhistory : ShortPayloads history)
    (hsurvive : InputsMeet E (Survivable E) (AudioState.fresh addr) history) (hs : start.IsStart)
    (hstart : start.payload.length ≤ sizeofAssembleBuf - sizeofHeader)
    (hin₁ : (decodeStartPayload start.payload).inChannels = 1)
    (hout₁ : (decodeStartPayload start.payload).outChannels = 1)
    (hacc : (transcodeSessionInit E (decodeStartPayload start.payload)).1 = 0)
    (hinputs : ∀ m ∈ inputs, m.header.command = cmdInput) (hshort : ShortPayloads inputs) :
    InputsMeet E (Defined E) (AudioState.fresh addr) (history ++ start :: inputs) := by
  have hfresh := AudioState.fresh_ok (H := H) addr
  have hrest : ShortPayloads (start :: inputs) := fun m hm => by
    rcases List.mem_cons.mp hm with rfl | hm
    · exact hstart
    · exact hshort m hm
  refine inputsMeet_defined E hfresh (fun m hm => ?_) ((inputsMeet_append E).mpr ⟨hsurvive, ?_⟩)
  · rcases List.mem_append.mp hm with hm | hm
    · exact hhistory m hm
    · exact hrest m hm
  · refine inputs_after_start E (audioAfter_ok E hfresh hhistory) hs hin₁ hout₁ hacc
      (fun m hm => ?_) hrest
    have hc := hinputs m hm
    exact ⟨by simp [Message.IsStart, hc, cmdStart, cmdInput],
      by simp [Message.IsStop, hc, cmdStop, cmdInput]⟩

end

/-- A session of mono PCMU, and one request with a buffer of `data`. -/
def pcmuStart : Message := request cmdStart 1 (startPayload (pcmuConfig 1))

def pcmuInput (data : List UInt8) : Message := request cmdInput 2 (inputPayload [data])

theorem shortPayloads_pair : ShortPayloads [pcmuStart, pcmuInput (List.replicate 16 0)] := by
  intro m hm
  rcases List.mem_cons.mp hm with rfl | hm
  · exact (length_startPayload _).le.trans (by decide)
  · rw [List.mem_singleton.mp hm]
    decide

end MachAudio
