import Mathlib.Data.List.Induction
import MachAudio.ClientRead
import MachAudio.Lib.OrderStatistic

/-! # The summary of a client

At the end of `main` the client goes over its connections once more: it sorts the latencies of each,
copies them behind each other into a pool, and adds up what the connections have counted; then it
sorts the pool.  `summarize` is that loop.  A report describes the durations it is about
(`LatencyReport.Describes`): the least and the greatest, the quotient of sum and number, and the
value that 95 per cent of them do not exceed.  This holds of each connection and of all of them
together, and the order of the connections does not matter (`summary_describes`). -/

namespace MachAudio

open OrderStatistic

/-! ### The loop -/

/-- `compare_uint64`. -/
def compareUint64 (a b : UInt64) : ℤ := (if a > b then 1 else 0) - (if a < b then 1 else 0)

/-- `a` may stand before `b` after `qsort`. -/
def uint64Le (a b : UInt64) : Bool := decide (compareUint64 a b ≤ 0)

/-- `qsort` with `compare_uint64`. -/
def qsortUint64 (l : List UInt64) : List UInt64 := l.mergeSort uint64Le

/-- The fields of `ClientConnection` that the summary reads. -/
structure ClientConnection where
  totalSent : UInt64
  stats : ReadStats

structure LatencyReport where
  minNs : UInt64
  maxNs : UInt64
  avgNs : UInt64
  p95Ns : UInt64
deriving DecidableEq, Repr

/-- `p95_idx`; the product is one of `size_t`. -/
def p95Idx (count : ℕ) : ℕ := count * 95 % 2 ^ 64 / 100

/-- The report of a connection, and its latencies as `qsort` leaves them. -/
def connectionReport (conn : ClientConnection) : Option LatencyReport × List UInt64 :=
  let count := conn.stats.latencies.length
  if count > 0 then
    let latencies := qsortUint64 conn.stats.latencies
    (some
      { minNs := conn.stats.minDurationNs
        maxNs := conn.stats.maxDurationNs
        avgNs := conn.stats.sumDurationNs / UInt64.ofNat count
        p95Ns := latencies.getD (p95Idx count) 0 }, latencies)
  else (none, [])

/-- What the loop over the connections accumulates; the pool is `NULL` when there are no latencies
or no memory. -/
structure SummaryState where
  totalSent : UInt64
  totalReceived : UInt64
  sumDurationNs : UInt64
  countReceived : UInt64
  globalMin : UInt64
  globalMax : UInt64
  allLatencies : Option (List UInt64)
  allLatenciesIdx : ℕ
  reports : List (Option LatencyReport)

def summaryStep (s : SummaryState) (conn : ClientConnection) : SummaryState :=
  let r := connectionReport conn
  { totalSent := s.totalSent + conn.totalSent
    totalReceived := s.totalReceived + conn.stats.totalReceived
    sumDurationNs := s.sumDurationNs + conn.stats.sumDurationNs
    countReceived := s.countReceived + conn.stats.countReceived
    globalMin :=
      if conn.stats.minDurationNs < s.globalMin then conn.stats.minDurationNs else s.globalMin
    globalMax :=
      if conn.stats.maxDurationNs > s.globalMax then conn.stats.maxDurationNs else s.globalMax
    -- the `memcpy` into the pool
    allLatencies := s.allLatencies.map fun all =>
      all.take s.allLatenciesIdx ++ r.2 ++ all.drop (s.allLatenciesIdx + r.2.length)
    allLatenciesIdx := s.allLatenciesIdx + r.2.length
    reports := s.reports ++ [r.1] }

def SummaryState.start (allLatencies : Option (List UInt64)) : SummaryState where
  totalSent := 0
  totalReceived := 0
  sumDurationNs := 0
  countReceived := 0
  globalMin := 0xFFFFFFFFFFFFFFFF
  globalMax := 0
  allLatencies := allLatencies
  allLatenciesIdx := 0
  reports := []

structure Summary where
  totalSent : UInt64
  totalReceived : UInt64
  latency : Option LatencyReport
  reports : List (Option LatencyReport)
deriving DecidableEq, Repr

/-- `total_latency_pool`. -/
def totalLatencyPool (conns : List ClientConnection) : ℕ :=
  (conns.map fun conn => conn.stats.latencies.length).sum

/-- `all_latencies` before the loop: `malloc` says whether there is memory for the pool, and
`junk` what it has in it. -/
def latencyPool (malloc : Bool) (junk : ℕ → UInt64) (conns : List ClientConnection) :
    Option (List UInt64) :=
  if totalLatencyPool conns > 0 then
    if malloc then some ((List.range (totalLatencyPool conns)).map junk) else none
  else none

/-- What is reported after the loop, with a pool of so many latencies. -/
def SummaryState.summary (s : SummaryState) (pool : ℕ) : Summary where
  totalSent := s.totalSent
  totalReceived := s.totalReceived
  latency :=
    if s.countReceived > 0 then
      some
        { minNs := s.globalMin
          maxNs := s.globalMax
          avgNs := s.sumDurationNs / s.countReceived
          p95Ns := (s.allLatencies.map fun all => (qsortUint64 all).getD (p95Idx pool) 0).getD 0 }
    else none
  reports := s.reports

/-- The end of `main`. -/
def summarize (malloc : Bool) (junk : ℕ → UInt64) (conns : List ClientConnection) : Summary :=
  (conns.foldl summaryStep (.start (latencyPool malloc junk conns))).summary
    (totalLatencyPool conns)

/-! ### The order -/

theorem compareUint64_le {a b : UInt64} : compareUint64 a b ≤ 0 ↔ a ≤ b := by
  unfold compareUint64
  rw [UInt64.le_iff_toNat_le]
  split_ifs with h₁ h₂ h₂ <;> simp only [gt_iff_lt, UInt64.lt_iff_toNat_lt] at h₁ h₂ <;>
    constructor <;> intro h <;> omega

theorem uint64Le_iff {a b : UInt64} : uint64Le a b = true ↔ a ≤ b := by
  unfold uint64Le
  rw [decide_eq_true_iff, compareUint64_le]

theorem uint64Le_preorder : TotalPreorder uint64Le := by
  refine ⟨fun a b c hab hbc => ?_, fun a b => ?_⟩
  · rw [uint64Le_iff, UInt64.le_iff_toNat_le] at *
    omega
  · rw [Bool.or_eq_true, uint64Le_iff, uint64Le_iff, UInt64.le_iff_toNat_le,
      UInt64.le_iff_toNat_le]
    omega

theorem length_qsortUint64 (l : List UInt64) : (qsortUint64 l).length = l.length :=
  (List.mergeSort_perm l _).length_eq

theorem p95Idx_lt {n : ℕ} (h : 0 < n) : p95Idx n < n := by
  unfold p95Idx
  have := Nat.mod_le (n * 95) (2 ^ 64)
  omega

/-- The value at the 95th percentile. -/
theorem isNth_qsort {l : List UInt64} (h : 0 < l.length) (hfits : l.length * 95 < 2 ^ 64) :
    IsNth uint64Le l (l.length * 95 / 100) ((qsortUint64 l).getD (p95Idx l.length) 0) := by
  have hlt := p95Idx_lt h
  have hidx : p95Idx l.length = l.length * 95 / 100 := by
    unfold p95Idx
    rw [Nat.mod_eq_of_lt hfits]
  rw [hidx] at hlt ⊢
  refine isNth_mergeSort uint64Le_preorder ?_
  rw [List.getD_eq_getElem?_getD, ← length_qsortUint64 l] at *
  show (qsortUint64 l)[_]? = _
  rw [List.getElem?_eq_getElem hlt]
  rfl

/-! ### What a connection has recorded -/

/-- The statistics of a connection that has received these outputs. -/
def recordedStats (writeOutput : Bool) (os : List Output) : ReadStats :=
  os.foldl (fun stats o => stats.output o.durationNs o.vadProb o.data)
    (ReadState.fresh writeOutput).stats

theorem recordedStats_snoc (writeOutput : Bool) (os : List Output) (o : Output) :
    recordedStats writeOutput (os ++ [o]) =
      (recordedStats writeOutput os).output o.durationNs o.vadProb o.data := by
  rw [recordedStats, List.foldl_append]
  rfl

theorem recorded_recordedStats (writeOutput : Bool) (os : List Output) :
    Recorded writeOutput os (recordedStats writeOutput os) := by
  induction os using List.reverseRecOn with
  | nil => exact recorded_fresh writeOutput
  | append_singleton os o ih =>
      rw [recordedStats_snoc]
      exact ih.output o

theorem recordedStats_responses (writeOutput : Bool) (rs : List Response) :
    (rs.map Response.message).foldl ReadStats.message (ReadState.fresh writeOutput).stats =
      recordedStats writeOutput (outputs rs) := by
  induction rs using List.reverseRecOn with
  | nil => rfl
  | append_singleton rs r ih =>
      have hsnoc : outputs (rs ++ [r]) = outputs rs ++ outputs [r] := List.filterMap_append
      rw [List.map_append, List.foldl_append, ih, hsnoc]
      show (recordedStats writeOutput (outputs rs)).message r.message = _
      rw [ReadStats.message_response]
      obtain ⟨sequenceId, body⟩ := r
      cases body with
      | output durationNs vadProb data => exact (recordedStats_snoc _ _ ⟨_, _, _⟩).symm
      | error errorCode => exact congrArg _ (List.append_nil _).symm
      | pong => exact congrArg _ (List.append_nil _).symm
      | discoverReply numWorkers => exact congrArg _ (List.append_nil _).symm

/-- A part of a stream of responses is read as the responses that are whole in it. -/
theorem onReads_recordedStats {realloc : ℕ → Bool} (hrealloc : ∀ n, realloc n = true)
    (writeOutput : Bool) {rs : List Response} (hrs : ∀ r ∈ rs, r.respLen ≤ maxWritePayload)
    {reads : List (List UInt8)} {rest : List UInt8}
    (hcut : reads.flatten ++ rest = rs.flatMap Response.encode) :
    ∃ k, (onReads realloc (ReadState.fresh writeOutput) reads).stats =
        recordedStats writeOutput (outputs (rs.take k)) ∧ (rest = [] → rs.take k = rs) := by
  have hnil : (ReadState.fresh writeOutput).pending = [] := rfl
  obtain ⟨k, tail, hbytes, hsplit, hnext⟩ := clientFramer.split_encoded rs
    (fun r hr => next_encode (hrs r hr)) reads.flatten rest hcut
  have hlong : LongOutputs reads.flatten := by
    intro m hm hc
    rw [hsplit] at hm
    obtain ⟨r, -, rfl⟩ := List.mem_map.mp hm
    exact r.long_message hc
  have hok : (ReadState.fresh writeOutput).Ok := ⟨Nat.le_refl _, Nat.le_refl _⟩
  obtain ⟨-, -, hstats⟩ := onReads_spec hrealloc reads hok (by rw [hnil]; rfl)
    (by rw [hnil]; exact hlong)
  rw [hnil, List.nil_append, hsplit] at hstats
  refine ⟨k, ?_, fun hrest => ?_⟩
  · rw [hstats]
    exact recordedStats_responses writeOutput (rs.take k)
  · rw [hrest, List.append_nil, hbytes] at hcut
    conv_rhs at hcut => rw [← List.take_append_drop k rs]
    rw [List.flatMap_append, List.append_cancel_left_eq] at hcut
    cases hd : rs.drop k with
    | nil => rw [List.take_of_length_le (List.drop_eq_nil_iff.mp hd)]
    | cons r rs' =>
        have hr : rs[k]? = some r := by
          rw [← List.head?_drop, hd]
          rfl
        have hlt := hnext r hr
        rw [hcut, hd, List.flatMap_cons, List.length_append] at hlt
        omega

theorem uint64Le_anti (a b : UInt64) (hab : uint64Le a b = true) (hba : uint64Le b a = true) :
    a = b := by
  rw [uint64Le_iff, UInt64.le_iff_toNat_le] at *
  exact UInt64.toNat_inj.mp (by omega)

/-- The choice of the smaller value. -/
theorem min_choice (m m' : UInt64) :
    ((if m' < m then m' else m) = m' ∧ uint64Le m' m = true) ∨
      ((if m' < m then m' else m) = m ∧ uint64Le m m' = true) := by
  rw [uint64Le_iff, uint64Le_iff, UInt64.le_iff_toNat_le, UInt64.le_iff_toNat_le]
  split_ifs with h <;> rw [UInt64.lt_iff_toNat_lt] at h
  · exact .inl ⟨rfl, h.le⟩
  · exact .inr ⟨rfl, not_lt.mp h⟩

theorem max_choice (m m' : UInt64) :
    ((if m' > m then m' else m) = m' ∧ uint64Le m m' = true) ∨
      ((if m' > m then m' else m) = m ∧ uint64Le m' m = true) := by
  rw [uint64Le_iff, uint64Le_iff, UInt64.le_iff_toNat_le, UInt64.le_iff_toNat_le]
  split_ifs with h <;> rw [gt_iff_lt, UInt64.lt_iff_toNat_lt] at h
  · exact .inl ⟨rfl, h.le⟩
  · exact .inr ⟨rfl, not_lt.mp h⟩

/-- `m` is the least of some durations, from `UINT64_MAX` on. -/
def LeastOf : List UInt64 → UInt64 → Prop := IsFirst uint64Le 0xFFFFFFFFFFFFFFFF

/-- `m` is the greatest of some durations, from 0 on. -/
def GreatestOf : List UInt64 → UInt64 → Prop := IsFirst (fun a b => uint64Le b a) 0

theorem recordedStats_extremes (writeOutput : Bool) (os : List Output) :
    LeastOf (os.map Output.durationNs) (recordedStats writeOutput os).minDurationNs ∧
      GreatestOf (os.map Output.durationNs) (recordedStats writeOutput os).maxDurationNs := by
  induction os using List.reverseRecOn with
  | nil => exact ⟨⟨by simp, .inl rfl⟩, ⟨by simp, .inl rfl⟩⟩
  | append_singleton os o ih =>
      have hself := uint64Le_preorder.refl o.durationNs
      have hleast : LeastOf [o.durationNs] o.durationNs :=
        ⟨fun x hx => by rwa [List.mem_singleton.mp hx], .inr List.mem_cons_self⟩
      have hgreatest : GreatestOf [o.durationNs] o.durationNs :=
        ⟨fun x hx => by rwa [List.mem_singleton.mp hx], .inr List.mem_cons_self⟩
      rw [recordedStats_snoc, List.map_append]
      exact ⟨ih.1.append uint64Le_preorder hleast (min_choice _ _),
        ih.2.append uint64Le_preorder.flip hgreatest (max_choice _ _)⟩

/-! ### What a report says -/

/-- A report describes some durations. -/
structure LatencyReport.Describes (ds : List UInt64) (r : LatencyReport) : Prop where
  min : r.minNs ∈ ds ∧ ∀ d ∈ ds, r.minNs ≤ d
  max : r.maxNs ∈ ds ∧ ∀ d ∈ ds, d ≤ r.maxNs
  avg : r.avgNs = UInt64.ofNat (ds.map UInt64.toNat).sum / UInt64.ofNat ds.length
  p95 : IsNth uint64Le ds (ds.length * 95 / 100) r.p95Ns

/-- There is one report for some durations, in whatever order they are. -/
theorem LatencyReport.Describes.unique {ds ds' : List UInt64} {r r' : LatencyReport}
    (h : r.Describes ds) (h' : r'.Describes ds') (hp : ds.Perm ds') : r = r' := by
  obtain ⟨⟨hmem, hle⟩, ⟨hmem₁, hle₁⟩, havg, hp95⟩ := h
  obtain ⟨⟨hmem', hle'⟩, ⟨hmem₁', hle₁'⟩, havg', hp95'⟩ := h'
  have hmin : r.minNs = r'.minNs :=
    UInt64.le_antisymm (hle _ (hp.mem_iff.mpr hmem')) (hle' _ (hp.mem_iff.mp hmem))
  have hmax : r.maxNs = r'.maxNs :=
    UInt64.le_antisymm (hle₁' _ (hp.mem_iff.mp hmem₁)) (hle₁ _ (hp.mem_iff.mpr hmem₁'))
  have hp95eq : r.p95Ns = r'.p95Ns := by
    have hmoved := hp95.perm hp
    rw [hp.length_eq] at hmoved
    exact uint64Le_anti _ _ (hmoved.unique uint64Le_preorder hp95')
      (hp95'.unique uint64Le_preorder hmoved)
  have havgeq : r.avgNs = r'.avgNs := by
    rw [havg, havg', hp.length_eq, (hp.map UInt64.toNat).sum_eq]
  obtain ⟨_, _, _, _⟩ := r
  obtain ⟨_, _, _, _⟩ := r'
  simp_all

/-- The report of what has been accumulated about some durations. -/
theorem describes_of_accumulated {ds : List UInt64} (hne : ds ≠ []) {m M p : UInt64}
    (hm : LeastOf ds m) (hM : GreatestOf ds M)
    (hp : IsNth uint64Le ds (ds.length * 95 / 100) p) :
    LatencyReport.Describes ds
      ⟨m, M, UInt64.ofNat (ds.map UInt64.toNat).sum / UInt64.ofNat ds.length, p⟩ := by
  have hmax : ∀ x : UInt64, uint64Le x 0xFFFFFFFFFFFFFFFF = true := by
    intro x
    rw [uint64Le_iff, UInt64.le_iff_toNat_le]
    have hx := x.toNat_lt
    show x.toNat ≤ 18446744073709551615
    omega
  have hzero : ∀ x : UInt64, uint64Le 0 x = true := by
    intro x
    rw [uint64Le_iff, UInt64.le_iff_toNat_le]
    exact Nat.zero_le _
  refine ⟨⟨hm.mem_of_ne_nil uint64Le_anti hmax hne, fun d hd => uint64Le_iff.mp (hm.le d hd)⟩,
    ⟨?_, fun d hd => uint64Le_iff.mp (hM.le d hd)⟩, rfl, hp⟩
  exact hM.mem_of_ne_nil (fun a b hab hba => uint64Le_anti a b hba hab) hzero hne

/-! ### The loop over the connections -/

/-- A connection that has sent `c.1` bytes and received the outputs `c.2`. -/
def Client (writeOutput : Bool) (c : UInt64 × List Output) : ClientConnection :=
  ⟨c.1, recordedStats writeOutput c.2⟩

/-- The durations of all connections. -/
def durations (cs : List (UInt64 × List Output)) : List UInt64 :=
  cs.flatMap fun c => c.2.map Output.durationNs

/-- The report of a connection, when it has one. -/
def ReportOf (c : UInt64 × List Output) (r : Option LatencyReport) : Prop :=
  (c.2 = [] ∧ r = none) ∨
    ∃ report, r = some report ∧ report.Describes (c.2.map Output.durationNs)

/-- The state of the loop after the connections `cs`. -/
structure SummaryState.Covers (pool : Option ℕ) (cs : List (UInt64 × List Output))
    (s : SummaryState) : Prop where
  sent : s.totalSent = UInt64.ofNat (cs.map fun c => c.1.toNat).sum
  received : s.totalReceived =
    UInt64.ofNat (cs.map fun c => (c.2.map fun o => o.data.length).sum).sum
  sum : s.sumDurationNs = UInt64.ofNat ((durations cs).map UInt64.toNat).sum
  count : s.countReceived = UInt64.ofNat (durations cs).length
  min : LeastOf (durations cs) s.globalMin
  max : GreatestOf (durations cs) s.globalMax
  idx : s.allLatenciesIdx = (durations cs).length
  pool : s.allLatencies.map List.length = pool
  copied : ∀ all ∈ s.allLatencies, (all.take s.allLatenciesIdx).Perm (durations cs)
  reports : List.Forall₂ ReportOf cs s.reports

theorem length_durations (cs : List (UInt64 × List Output)) :
    (durations cs).length = (cs.map fun c => c.2.length).sum := by
  unfold durations
  rw [List.length_flatMap]
  simp only [List.length_map]

/-- The report of one connection. -/
theorem connectionReport_client (writeOutput : Bool) {c : UInt64 × List Output}
    (hfits : c.2.length * 95 < 2 ^ 64) :
    ReportOf c (connectionReport (Client writeOutput c)).1 ∧
      (connectionReport (Client writeOutput c)).2.Perm (c.2.map Output.durationNs) := by
  have hrec := recorded_recordedStats writeOutput c.2
  obtain ⟨hmin, hmax⟩ := recordedStats_extremes writeOutput c.2
  have hlat : (Client writeOutput c).stats.latencies = c.2.map Output.durationNs := hrec.latencies
  have hlen : (c.2.map Output.durationNs).length = c.2.length := List.length_map _
  unfold connectionReport
  dsimp only
  rw [hlat]
  by_cases hc : c.2 = []
  · rw [hc]
    exact ⟨.inl ⟨hc, rfl⟩, .refl _⟩
  · have hpos : (c.2.map Output.durationNs).length > 0 := by
      rw [hlen]
      exact List.length_pos_iff.mpr hc
    rw [if_pos hpos]
    refine ⟨.inr ⟨_, rfl, ?_⟩, List.mergeSort_perm _ _⟩
    have hsum : (Client writeOutput c).stats.sumDurationNs =
        UInt64.ofNat ((c.2.map Output.durationNs).map UInt64.toNat).sum := by
      rw [List.map_map]
      exact hrec.sum
    rw [hsum]
    exact describes_of_accumulated (List.length_pos_iff.mp hpos) hmin hmax
      (isNth_qsort hpos (by rwa [hlen]))

/-- **One turn** of the loop. -/
theorem summaryStep_covers (writeOutput : Bool) {pool : Option ℕ}
    {cs : List (UInt64 × List Output)} {s : SummaryState} (h : s.Covers pool cs)
    {c : UInt64 × List Output} (hfits : c.2.length * 95 < 2 ^ 64)
    (hroom : ∀ n ∈ pool, (durations cs).length + c.2.length ≤ n) :
    (summaryStep s (Client writeOutput c)).Covers pool (cs ++ [c]) := by
  have hrec := recorded_recordedStats writeOutput c.2
  obtain ⟨hmin, hmax⟩ := recordedStats_extremes writeOutput c.2
  obtain ⟨hreport, hperm⟩ := connectionReport_client writeOutput hfits
  have hdur : durations (cs ++ [c]) = durations cs ++ c.2.map Output.durationNs := by
    unfold durations
    rw [List.flatMap_append, List.flatMap_singleton]
  have hlen : (connectionReport (Client writeOutput c)).2.length = c.2.length := by
    rw [hperm.length_eq, List.length_map]
  unfold summaryStep
  generalize connectionReport (Client writeOutput c) = r at *
  have hin : ∀ all ∈ s.allLatencies, s.allLatenciesIdx + r.2.length ≤ all.length := by
    intro all hall
    have hn := hroom all.length (h.pool ▸ Option.mem_map_of_mem _ hall)
    rw [h.idx, hlen]
    exact hn
  refine ⟨?_, ?_, ?_, ?_, ?_, ?_, ?_, ?_, ?_, ?_⟩
  · dsimp only
    rw [h.sent, List.map_append, List.sum_append, UInt64.ofNat_add]
    congr 1
    simp [Client]
  · dsimp only
    rw [h.received, List.map_append, List.sum_append, UInt64.ofNat_add]
    congr 1
    rw [List.map_singleton, List.sum_singleton]
    exact hrec.total
  · dsimp only
    rw [h.sum, hdur, List.map_append, List.sum_append, UInt64.ofNat_add, List.map_map]
    congr 1
    exact hrec.sum
  · dsimp only
    rw [h.count, hdur, List.length_append, UInt64.ofNat_add, List.length_map]
    congr 1
    exact hrec.count
  · rw [hdur]
    exact h.min.append uint64Le_preorder hmin (min_choice _ _)
  · rw [hdur]
    exact h.max.append uint64Le_preorder.flip hmax (max_choice _ _)
  · dsimp only
    rw [h.idx, hdur, List.length_append, hperm.length_eq]
  · rw [← h.pool]
    cases hall : s.allLatencies with
    | none => rfl
    | some all =>
        have hle := hin all hall
        simp only [Option.map_some, List.length_append, List.length_take, List.length_drop]
        congr 1
        omega
  · intro all' hall'
    obtain ⟨all, hall, rfl⟩ := Option.map_eq_some_iff.mp hall'
    have hle := hin all hall
    have htake : (all.take s.allLatenciesIdx ++ r.2 ++
        all.drop (s.allLatenciesIdx + r.2.length)).take (s.allLatenciesIdx + r.2.length) =
          all.take s.allLatenciesIdx ++ r.2 := by
      apply List.take_left'
      rw [List.length_append, List.length_take, Nat.min_eq_left (by omega)]
    dsimp only
    rw [htake, hdur]
    exact (h.copied all hall).append hperm
  · exact List.rel_append h.reports (.cons hreport .nil)

theorem summary_loop (writeOutput : Bool) {pool : Option ℕ} {all : Option (List UInt64)}
    (hall : all.map List.length = pool) (cs : List (UInt64 × List Output))
    (hfits : (durations cs).length * 95 < 2 ^ 64)
    (hroom : ∀ n ∈ pool, (durations cs).length ≤ n) :
    ((cs.map (Client writeOutput)).foldl summaryStep (.start all)).Covers pool cs := by
  induction cs using List.reverseRecOn with
  | nil =>
      refine ⟨rfl, rfl, rfl, rfl, ⟨by simp [durations], .inl rfl⟩, ⟨by simp [durations], .inl rfl⟩,
        rfl, hall, fun _ _ => ?_, .nil⟩
      exact .refl _
  | append_singleton cs c ih =>
      have hlen : (durations (cs ++ [c])).length = (durations cs).length + c.2.length := by
        rw [length_durations, length_durations, List.map_append, List.sum_append]
        simp
      rw [hlen] at hfits hroom
      rw [List.map_append, List.foldl_append]
      refine summaryStep_covers writeOutput (ih (by omega) fun n hn => ?_) (by omega) hroom
      have := hroom n hn
      omega

/-- The report of all durations, when there are any. -/
def GlobalReport (ds : List UInt64) (r : Option LatencyReport) : Prop :=
  (ds = [] ∧ r = none) ∨ ∃ report, r = some report ∧ report.Describes ds

theorem totalLatencyPool_client (writeOutput : Bool) (cs : List (UInt64 × List Output)) :
    totalLatencyPool (cs.map (Client writeOutput)) = (durations cs).length := by
  unfold totalLatencyPool
  rw [List.map_map, length_durations]
  congr 1
  apply List.map_congr_left
  intro c _
  show (recordedStats writeOutput c.2).latencies.length = c.2.length
  rw [(recorded_recordedStats writeOutput c.2).latencies, List.length_map]

/-- The pool has room for all durations. -/
theorem latencyPool_client (writeOutput : Bool) (junk : ℕ → UInt64)
    (cs : List (UInt64 × List Output)) :
    (latencyPool true junk (cs.map (Client writeOutput))).map List.length =
      if (durations cs).length > 0 then some (durations cs).length else none := by
  unfold latencyPool
  rw [totalLatencyPool_client, if_pos rfl]
  split_ifs
  · rw [Option.map_some, List.length_map, List.length_range]
  · rfl

section summary
variable (writeOutput : Bool) (junk : ℕ → UInt64) {cs : List (UInt64 × List Output)}
  (hfits : (durations cs).length * 95 < 2 ^ 64)

include hfits

theorem summary_covers :
    ((cs.map (Client writeOutput)).foldl summaryStep
      (.start (latencyPool true junk (cs.map (Client writeOutput))))).Covers
        (if (durations cs).length > 0 then some (durations cs).length else none) cs := by
  refine summary_loop writeOutput (latencyPool_client writeOutput junk cs) cs hfits fun n hn => ?_
  split_ifs at hn
  · obtain rfl := Option.some.inj hn
    exact Nat.le_refl _
  · cases hn

/-- The report of all connections. -/
theorem SummaryState.Covers.latency {s : SummaryState}
    (h : s.Covers (if (durations cs).length > 0 then some (durations cs).length else none) cs) :
    GlobalReport (durations cs) (s.summary (durations cs).length).latency := by
  have hcount : s.countReceived > 0 ↔ 0 < (durations cs).length := by
    rw [h.count, gt_iff_lt, UInt64.lt_iff_toNat_lt,
      UInt64.toNat_ofNat_of_lt' (show _ < 2 ^ 64 by omega)]
    rfl
  unfold SummaryState.summary
  dsimp only
  by_cases hnil : durations cs = []
  · rw [if_neg (by rw [hcount, hnil]; exact Nat.lt_irrefl 0)]
    exact .inl ⟨hnil, rfl⟩
  · have hpos : 0 < (durations cs).length := List.length_pos_iff.mpr hnil
    rw [if_pos hpos] at h
    obtain ⟨all, hall, hlen⟩ := Option.map_eq_some_iff.mp h.pool
    have hperm := h.copied all hall
    rw [h.idx, ← hlen, List.take_length] at hperm
    rw [if_pos (hcount.mpr hpos), h.sum, h.count, hall, Option.map_some, Option.getD_some]
    refine .inr ⟨_, rfl, describes_of_accumulated hnil h.min h.max ?_⟩
    rw [← hlen] at hfits hpos ⊢
    exact (isNth_qsort hpos hfits).perm hperm

/-- **The summary describes what was measured.**  The reports of a client are those of the durations
its connections have been told, of each connection and of all together, and its totals are the
bytes sent and received; neither the order of the connections nor what was in the pool before
changes them. -/
theorem summary_describes :
    (summarize true junk (cs.map (Client writeOutput))).totalSent =
        UInt64.ofNat (cs.map fun c => c.1.toNat).sum ∧
      (summarize true junk (cs.map (Client writeOutput))).totalReceived =
        UInt64.ofNat (cs.map fun c => (c.2.map fun o => o.data.length).sum).sum ∧
      List.Forall₂ ReportOf cs (summarize true junk (cs.map (Client writeOutput))).reports ∧
      GlobalReport (durations cs) (summarize true junk (cs.map (Client writeOutput))).latency ∧
      ∀ cs' junk', cs.Perm cs' → (summarize true junk' (cs'.map (Client writeOutput))).latency =
        (summarize true junk (cs.map (Client writeOutput))).latency := by
  have hcovers := summary_covers writeOutput junk hfits
  have hreport : ∀ (cs : List (UInt64 × List Output)) (junk : ℕ → UInt64),
      (durations cs).length * 95 < 2 ^ 64 →
        GlobalReport (durations cs)
          (summarize true junk (cs.map (Client writeOutput))).latency := by
    intro cs junk hfits
    have h := (summary_covers writeOutput junk hfits).latency hfits
    rwa [← totalLatencyPool_client writeOutput] at h
  have hlatency := hreport cs junk hfits
  refine ⟨hcovers.sent, hcovers.received, hcovers.reports, hlatency, fun cs' junk' hperm => ?_⟩
  have hdur : (durations cs).Perm (durations cs') := hperm.flatMap_right _
  have hlatency' := hreport cs' junk' (by rwa [← hdur.length_eq])
  rcases hlatency with ⟨hnil, hnone⟩ | ⟨r, hr, hdesc⟩
  · rcases hlatency' with ⟨-, hnone'⟩ | ⟨r', -, hdesc'⟩
    · rw [hnone, hnone']
    · exact absurd (hdur.mem_iff.mpr hdesc'.min.1) (by rw [hnil]; exact List.not_mem_nil)
  · rcases hlatency' with ⟨hnil', -⟩ | ⟨r', hr', hdesc'⟩
    · exact absurd (hdur.mem_iff.mp hdesc.min.1) (by rw [hnil']; exact List.not_mem_nil)
    · rw [hr, hr', hdesc.unique hdesc' hdur]

end summary

/-- Two connections with three outputs, and one without. -/
def threeOutputs : List (UInt64 × List Output) :=
  [(100, [⟨30, 0, [1]⟩, ⟨10, 0, [2, 3]⟩]), (50, []), (70, [⟨20, 0, []⟩])]

theorem summary_describes_three : ∃ report,
    (summarize true (fun _ => 7) (threeOutputs.map (Client false))).latency = some report ∧
      report.Describes [30, 10, 20] := by
  obtain ⟨-, -, -, ⟨hnil, -⟩ | hreport, -⟩ :=
    summary_describes false (fun _ => 7)
      (show (durations threeOutputs).length * 95 < 2 ^ 64 by decide)
  · exact absurd (congrArg List.length hnil) (by decide)
  · exact hreport

end MachAudio
