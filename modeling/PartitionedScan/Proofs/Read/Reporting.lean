/-
What a reader counts, and when it tells.

A reader lives with a sink (`Life`): whatever closing tells is added to it, and dropping closes. The record of its calls is
that of a session, so what was received and handed out can be read off it. One entry is made for each fetch that brought
rows, with the index of the bucket that was due (`ReadJob.entries`): a lemma for one fetch, one for a call of `advance` by
induction on the buckets to come, and one for any calls. Until the reader is closed its rows are handed out or at hand. Its
phase remembers whether the sink was told: a closed reader stays as it is. Main results:
- `Reader.advance_counted`, `Reader.close_counted`: one call keeps the counts;
- `Life.Sound.run`: any calls keep them;
- `Life.Sound.told`, `Life.Sound.dropped`: the sink is told by the first call of `close`, or when the reader is dropped;
- `Session.Holds.run`: in a session the calls of a reader do just that;
- `reader_reports`: metrics match what was read, and are told once.
-/
import Mathlib.Data.List.TakeWhile
import PartitionedScan.Proofs.Read.Retrying
import PartitionedScan.Proofs.Read.Streaming

namespace PartitionedScan

variable {σ : Type} {remote : Remote σ} {job : ReadJob} {p : Partition}

/-! ## Entries -/

theorem zip_concat {α β : Type} {as : List α} {bs : List β} {a : α} (h : as[bs.length]? = some a) (b : β) :
    as.zip (bs ++ [b]) = as.zip bs ++ [(a, b)] := by
  induction bs generalizing as with
  | nil =>
    obtain ⟨rest, rfl⟩ := List.head?_eq_some_iff.1 (List.head?_eq_getElem? ▸ h)
    simp
  | cons b' bs ih =>
    cases as with
    | nil => cases h
    | cons a' as =>
      have htail : as[bs.length]? = some a := by simpa using h
      simp [ih htail]

namespace ReadJob

/-- an entry for each fetch that brought rows: the index of the bucket that was due, and the number of rows -/
def entries (job : ReadJob) (p : Partition) (log : List Event) : List (Nat × Nat) :=
  (p.buckets.zip (job.reads log)).map fun x => (x.1.index, x.2.2.length)

variable {log log' : List Event}

theorem entries_congr (h : job.reads log' = job.reads log) : job.entries p log' = job.entries p log := by
  rw [entries, h, entries]

/-- rows of the bucket that was due make one more entry -/
theorem entries_concat {b : Bucket} {query : Query} {rows : List Row} (hdue : job.due? p log = some b)
    (h : job.reads log' = job.reads log ++ [(query, rows)]) :
    job.entries p log' = job.entries p log ++ [(b.index, rows.length)] := by
  rw [entries, h, zip_concat hdue, List.map_append]
  rfl

/-- where no more fetches brought rows than there are buckets, the entries add up to the rows received -/
theorem sum_entries (h : (job.reads log).length ≤ p.buckets.length) :
    ((job.entries p log).map Prod.snd).sum = (job.received log).length := by
  have hzip : (p.buckets.zip (job.reads log)).map Prod.snd = job.reads log := List.map_snd_zip h
  rw [entries, List.map_map, received, List.length_flatMap]
  conv_rhs => rw [← hzip, List.map_map]
  rfl

end ReadJob

/-! ## One call -/

/-- what a reader has counted is what its log shows; rows that were received are handed out or at hand -/
structure Counted (job : ReadJob) (p : Partition) (r : Reader) (log : List Event) : Prop where
  partition : r.metrics.partition = p.id
  entries : r.metrics.counts = job.entries p log
  rows : r.phase ≠ .closed → produced log ++ r.buffer = job.received log

namespace Reader

/-- a fetch that brings rows records them, one that fails records nothing -/
theorem metrics_fetch {b : Bucket} {r r' : Reader} {world world' : σ} {result : Except ReadError (List Row)}
    (h : fetch remote job b r world = (result, r', world')) :
    r'.metrics.partition = r.metrics.partition ∧
      (∀ rows, result = .ok rows → r'.metrics.counts = r.metrics.counts ++ [(b.index, rows.length)]) ∧
      ∀ e, result = .error e → r'.metrics = r.metrics := by
  unfold fetch at h
  rcases hconnect : connect remote job r world with ⟨e | _, world1⟩
  · rw [hconnect] at h
    cases h
    exact ⟨rfl, (fun _ h => by cases h), fun _ _ => rfl⟩
  · rw [hconnect] at h
    simp only at h
    rcases hanswer : remote.fetch (job.query.bindRange b.range) world1 with ⟨e | payload, world2⟩
    · rw [hanswer] at h
      cases h
      exact ⟨rfl, (fun _ h => by cases h), fun _ _ => rfl⟩
    · rw [hanswer] at h
      simp only at h
      cases hdecode : job.schema.decodePayload payload with
      | error cause =>
        rw [hdecode] at h
        cases h
        exact ⟨rfl, (fun _ h => by cases h), fun _ _ => rfl⟩
      | ok rows =>
        rw [hdecode] at h
        cases h
        refine ⟨rfl, fun rows' heq => ?_, (fun _ h => by cases h)⟩
        cases heq
        exact PartitionMetrics.counts_record _ _ _ _

theorem entries_answered (log : List Event) (result : Except ReadError (Option Row)) (current : Option Row) :
    job.entries p (log ++ [.answered result current]) = job.entries p log :=
  ReadJob.entries_congr (ReadJob.reads_snoc_none rfl)

theorem row_counted {pending : List Bucket} {r : Reader} {log : List Event} {row : Row} {buffer : List Row}
    (h : Streaming job p pending r log) (ha : Counted job p r log) (hbuffer : r.buffer = row :: buffer) :
    Counted job p { r with pending, buffer, current := some row, phase := .iteratingRows }
      (log ++ [.answered (.ok (some row)) (some row)]) where
  partition := ha.partition
  entries := ha.entries.trans (entries_answered log _ _).symm
  rows _ := by
    have hrows := h.rows
    rw [hbuffer] at hrows
    rw [produced_append, ReadJob.received_snoc_none rfl, ← hrows]
    simp [produced, Event.row?]

theorem end_counted {r : Reader} {log : List Event} (h : Streaming job p [] r log) (ha : Counted job p r log) :
    Counted job p { r with pending := [], phase := .exhausted } (log ++ [.answered (.ok none) r.current]) where
  partition := ha.partition
  entries := ha.entries.trans (entries_answered log _ _).symm
  rows _ := by
    rw [produced_snoc_none rfl, ReadJob.received_snoc_none rfl]
    exact h.rows

theorem error_counted {b : Bucket} {rest : List Bucket} {r r' : Reader} {world world' : σ} {log log' : List Event}
    {e : ReadError} (h : Streaming job p (b :: rest) r log) (ha : Counted job p r log) (hempty : r.buffer = [])
    (hfetch : fetch remote.recording job b r (world, log) = (.error e, r', world', log')) :
    Counted job p { r' with pending := b :: rest, phase := .awaitingBucket } (log' ++ [.answered (.error e) r'.current]) := by
  obtain ⟨hfetched, _, hbuffer, _⟩ := fetch_follows h.lawful (due_of_streaming h hempty) h.partition hfetch
  obtain ⟨_, _, hmetrics⟩ := metrics_fetch hfetch
  have hreads := (hfetched.error e rfl).2
  refine ⟨?_, ?_, fun _ => ?_⟩
  · exact (congrArg PartitionMetrics.partition (hmetrics e rfl)).trans ha.partition
  · rw [entries_answered, ReadJob.entries_congr hreads, ← ha.entries]
    exact congrArg PartitionMetrics.counts (hmetrics e rfl)
  · rw [produced_snoc_none rfl, hfetched.produced, ReadJob.received_snoc_none rfl, ReadJob.received, hreads]
    exact (congrArg (produced log ++ ·) hbuffer).trans h.rows

theorem rows_counted {b : Bucket} {rest : List Bucket} {r r' : Reader} {world world' : σ} {log log' : List Event}
    {rows : List Row} (h : Streaming job p (b :: rest) r log) (ha : Counted job p r log) (hempty : r.buffer = [])
    (hfetch : fetch remote.recording job b r (world, log) = (.ok rows, r', world', log')) :
    Streaming job p rest { r' with buffer := rows } log' ∧ Counted job p { r' with buffer := rows } log' := by
  have due := due_of_streaming h hempty
  obtain ⟨hfetched, hpartition, _, hcurrent⟩ := fetch_follows h.lawful due h.partition hfetch
  obtain ⟨hsame, hmetrics, _⟩ := metrics_fetch hfetch
  have hstreaming := streaming_of_rows h hempty hfetched hpartition hcurrent
  refine ⟨hstreaming, hsame.trans ha.partition, ?_, fun _ => hstreaming.rows⟩
  rw [ReadJob.entries_concat due.bucket (hfetched.rows rows rfl).2, ← ha.entries]
  exact hmetrics rows rfl

/-- **One call of `advance`** on a reader with rows or buckets left, bucket by bucket -/
theorem advanceOver_counted {pending : List Bucket} {r r' : Reader} {world world' : σ} {log log' : List Event}
    {result : Except ReadError (Option Row)} (h : Streaming job p pending r log) (ha : Counted job p r log)
    (hadvance : advanceOver remote.recording job pending r (world, log) = (result, r', world', log')) :
    Counted job p r' (log' ++ [.answered result r'.current]) := by
  induction pending generalizing r world log with
  | nil =>
    unfold advanceOver at hadvance
    cases hbuffer : r.buffer with
    | cons row buffer =>
      rw [hbuffer] at hadvance
      cases hadvance
      exact row_counted h ha hbuffer
    | nil =>
      rw [hbuffer] at hadvance
      cases hadvance
      have hend := end_counted h ha
      rw [hbuffer] at hend
      exact hend
  | cons b rest ih =>
    unfold advanceOver at hadvance
    cases hbuffer : r.buffer with
    | cons row buffer =>
      rw [hbuffer] at hadvance
      cases hadvance
      exact row_counted h ha hbuffer
    | nil =>
      rw [hbuffer] at hadvance
      simp only at hadvance
      rcases hfetch : fetch remote.recording job b r (world, log) with ⟨e | rows, r1, world1, log1⟩
      · rw [hfetch] at hadvance
        cases hadvance
        exact error_counted h ha hbuffer hfetch
      · rw [hfetch] at hadvance
        obtain ⟨hstreaming, hcounted⟩ := rows_counted h ha hbuffer hfetch
        exact ih hstreaming hcounted hadvance

/-- **One call of `advance`**, whatever the phase of the reader, keeps the counts -/
theorem advance_counted {r r' : Reader} {world world' : σ} {log log' : List Event}
    {result : Except ReadError (Option Row)} (h : Follows job p r log) (ha : Counted job p r log)
    (hadvance : advance remote.recording job r (world, log) = (result, r', world', log')) :
    Counted job p r' (log' ++ [.answered result r'.current]) := by
  unfold advance at hadvance
  cases h with
  | streaming h phase =>
    rcases phase with phase | phase <;> rw [phase] at hadvance <;> exact advanceOver_counted h ha hadvance
  | exhausted h phase hopen all drained =>
    rw [phase] at hadvance
    cases hadvance
    refine ⟨ha.partition, ha.entries.trans (entries_answered log _ _).symm, fun hphase => ?_⟩
    rw [produced_snoc_none rfl, ReadJob.received_snoc_none rfl]
    exact ha.rows hphase
  | closed h phase closed =>
    rw [phase] at hadvance
    cases hadvance
    exact ⟨ha.partition, ha.entries.trans (entries_answered log _ _).symm, fun hphase => absurd phase hphase⟩

/-- **One call of `close`** changes no count -/
theorem close_counted {r : Reader} (world : σ) {log : List Event} (ha : Counted job p r log) :
    Counted job p (close remote r world).2.1 (log ++ [.closed]) := by
  have hentries : job.entries p (log ++ [.closed]) = job.entries p log := ReadJob.entries_congr (ReadJob.reads_snoc_none rfl)
  unfold close
  by_cases hphase : r.phase = .closed
  · rw [if_pos hphase]
    exact ⟨ha.partition, ha.entries.trans hentries.symm, fun hopen => absurd hphase hopen⟩
  · rw [if_neg hphase]
    exact ⟨ha.partition, ha.entries.trans hentries.symm, fun hopen => absurd rfl hopen⟩

theorem advance_closed (remote : Remote σ) (job : ReadJob) {r : Reader} (h : r.phase = .closed) (world : σ) :
    (advance remote job r world).2.1 = r := by
  rw [advance, h]

theorem Follows.closed_iff {r : Reader} {log : List Event} (h : Follows job p r log) :
    r.phase = .closed ↔ .closed ∈ log := by
  cases h with
  | streaming h phase =>
    refine iff_of_false (fun hclosed => ?_) h.live.1
    rcases phase with phase | phase <;> rw [phase] at hclosed <;> cases hclosed
  | exhausted _ phase hopen => exact iff_of_false (fun hclosed => by rw [phase] at hclosed; cases hclosed) hopen
  | closed _ phase closed => exact iff_of_true phase closed

end Reader

/-! ## Any calls -/

/-- a reader with its sink, in its world, and the record of its calls -/
structure Life (σ : Type) where
  reader : Reader
  world : σ
  log : List Event
  sink : List PartitionMetrics

namespace Life

/-- a reader of a partition that was not called yet, with a sink that others may have told already -/
def start (p : Partition) (world : σ) (sink : List PartitionMetrics) : Life σ :=
  ⟨.ofPartition p, world, [], sink⟩

/-- one call; what closing tells goes to the sink -/
def call (remote : Remote σ) (job : ReadJob) (l : Life σ) : Call → Life σ
  | .advance =>
    let (result, reader, world, log) := l.reader.advance remote.recording job (l.world, l.log)
    ⟨reader, world, log ++ [.answered result reader.current], l.sink⟩
  | .close =>
    let (told, reader, world, log) := l.reader.close remote.recording (l.world, l.log)
    ⟨reader, world, log ++ [.closed], l.sink ++ told.toList⟩

/-- calls one after another -/
def run (remote : Remote σ) (job : ReadJob) (l : Life σ) (calls : List Call) : Life σ :=
  calls.foldl (call remote job) l

/-- dropping a reader closes it -/
def drop (remote : Remote σ) (job : ReadJob) (l : Life σ) : Life σ :=
  l.call remote job .close

/-- the calls before the first that closes -/
def untilClose (calls : List Call) : List Call :=
  calls.takeWhile (· ≠ .close)

/-- the reader keeps to its protocol and has counted what its log shows -/
structure Sound (job : ReadJob) (p : Partition) (l : Life σ) : Prop where
  follows : Reader.Follows job p l.reader l.log
  counted : Counted job p l.reader l.log

theorem run_cons (remote : Remote σ) (job : ReadJob) (l : Life σ) (call : Call) (calls : List Call) :
    l.run remote job (call :: calls) = (l.call remote job call).run remote job calls := rfl

theorem sound_start (job : ReadJob) (p : Partition) (world : σ) (sink : List PartitionMetrics) :
    (start p world sink).Sound job p where
  follows := Reader.follows_ofPartition job p
  counted := ⟨rfl, by simp [start, Reader.ofPartition, PartitionMetrics.counts, PartitionMetrics.empty, ReadJob.entries,
    ReadJob.reads], fun _ => rfl⟩

variable {l : Life σ}

/-- **One call** keeps the counts -/
theorem Sound.call (h : l.Sound job p) (remote : Remote σ) (call : Call) : (l.call remote job call).Sound job p := by
  cases call with
  | advance =>
    rcases hadvance : l.reader.advance remote.recording job (l.world, l.log) with ⟨result, reader, world, log⟩
    rw [Life.call, hadvance]
    exact ⟨Reader.advance_follows h.follows hadvance, Reader.advance_counted h.follows h.counted hadvance⟩
  | close =>
    rw [Life.call, Reader.close_forget]
    exact ⟨Reader.close_follows h.follows, Reader.close_counted l.world h.counted⟩

theorem Sound.run (h : l.Sound job p) (remote : Remote σ) (calls : List Call) : (l.run remote job calls).Sound job p := by
  induction calls generalizing l with
  | nil => exact h
  | cons call calls ih => exact ih (h.call remote call)

/-- a call of `advance` closes nothing and tells nothing -/
theorem Sound.advance (h : l.Sound job p) (remote : Remote σ) :
    ((l.call remote job .advance).reader.phase = .closed ↔ l.reader.phase = .closed) ∧
      (l.call remote job .advance).sink = l.sink := by
  refine ⟨?_, rfl⟩
  rw [(h.call remote .advance).follows.closed_iff, h.follows.closed_iff]
  obtain ⟨events, hevents, hadvance⟩ := Reader.advance_forget remote job l.reader l.world l.log
  have hclosed : Event.closed ∉ events := fun hmem => by cases hevents _ hmem
  rw [Life.call, hadvance]
  simp [hclosed]

theorem close_open (remote : Remote σ) (job : ReadJob) (h : l.reader.phase ≠ .closed) :
    (l.call remote job .close).reader.phase = .closed ∧
      (l.call remote job .close).reader.metrics = l.reader.metrics ∧
      (l.call remote job .close).sink = l.sink ++ [l.reader.metrics] := by
  rw [call, Reader.close, if_neg h]
  exact ⟨rfl, rfl, rfl⟩

/-- a closed reader stays as it is and tells nothing more -/
theorem call_closed (remote : Remote σ) (job : ReadJob) (h : l.reader.phase = .closed) (call : Call) :
    (l.call remote job call).reader = l.reader ∧ (l.call remote job call).sink = l.sink := by
  cases call with
  | advance => exact ⟨Reader.advance_closed remote.recording job h _, rfl⟩
  | close =>
    rw [Life.call, Reader.close, if_pos h]
    exact ⟨rfl, List.append_nil _⟩

theorem run_closed (remote : Remote σ) (job : ReadJob) (h : l.reader.phase = .closed) (calls : List Call) :
    (l.run remote job calls).reader = l.reader ∧ (l.run remote job calls).sink = l.sink := by
  induction calls generalizing l with
  | nil => exact ⟨rfl, rfl⟩
  | cons call calls ih =>
    obtain ⟨hreader, hsink⟩ := call_closed remote job h call
    obtain ⟨hreader', hsink'⟩ := ih (l := l.call remote job call) (hreader ▸ h)
    exact ⟨hreader'.trans hreader, hsink'.trans hsink⟩

theorem run_append (remote : Remote σ) (job : ReadJob) (l : Life σ) (calls more : List Call) :
    l.run remote job (calls ++ more) = (l.run remote job calls).run remote job more :=
  List.foldl_append

/-- without a call of `close` nothing is told, and the reader stays open -/
theorem Sound.run_open (h : l.Sound job p) (hopen : l.reader.phase ≠ .closed) (remote : Remote σ) {calls : List Call}
    (hcalls : .close ∉ calls) : (l.run remote job calls).reader.phase ≠ .closed ∧ (l.run remote job calls).sink = l.sink := by
  induction calls generalizing l with
  | nil => exact ⟨hopen, rfl⟩
  | cons call calls ih =>
    rw [List.mem_cons, not_or] at hcalls
    cases call with
    | close => exact absurd rfl hcalls.1
    | advance =>
      obtain ⟨hphase, hsink⟩ := h.advance remote
      obtain ⟨hopen', hsink'⟩ := ih (h.call remote .advance) (fun hclosed => hopen (hphase.1 hclosed)) hcalls.2
      exact ⟨hopen', hsink'.trans hsink⟩

theorem close_notMem_untilClose (calls : List Call) : .close ∉ untilClose calls := fun h => by
  have := List.mem_takeWhile_imp h
  simp at this

theorem untilClose_eq {calls : List Call} (h : .close ∉ calls) : untilClose calls = calls :=
  List.takeWhile_eq_self_iff.2 fun _ hcall => decide_eq_true fun heq => h (heq ▸ hcall)

/-- the first call that closes comes after the others -/
theorem exists_after_close {calls : List Call} (h : .close ∈ calls) : ∃ later, calls = untilClose calls ++ .close :: later := by
  induction calls with
  | nil => cases h
  | cons call calls ih =>
    cases call with
    | close => exact ⟨calls, rfl⟩
    | advance =>
      obtain ⟨later, hlater⟩ := ih (by simpa using h)
      refine ⟨later, ?_⟩
      conv_lhs => rw [hlater]
      rfl

theorem untilClose_concat (calls : List Call) : untilClose (calls ++ [.close]) = untilClose calls := by
  induction calls with
  | nil => rfl
  | cons call calls ih =>
    cases call with
    | close => rfl
    | advance => exact congrArg (Call.advance :: ·) ih

/-- **The first call of `close`** tells what was counted until then, and no later call tells anything -/
theorem Sound.told (h : l.Sound job p) (hopen : l.reader.phase ≠ .closed) (remote : Remote σ) {calls : List Call}
    (hcalls : .close ∈ calls) :
    (l.run remote job calls).sink = l.sink ++ [(l.run remote job (untilClose calls)).reader.metrics] ∧
      (l.run remote job calls).reader.metrics = (l.run remote job (untilClose calls)).reader.metrics := by
  obtain ⟨later, hlater⟩ := exists_after_close hcalls
  obtain ⟨hbefore, hsink⟩ := h.run_open hopen remote (close_notMem_untilClose calls)
  obtain ⟨hclosed, hmetrics, htold⟩ := close_open remote job hbefore
  obtain ⟨hreader, hlast⟩ := run_closed remote job hclosed later
  have hrun : l.run remote job calls =
      ((l.run remote job (untilClose calls)).call remote job .close).run remote job later := by
    conv_lhs => rw [hlater, run_append, run_cons]
  rw [hrun, hlast, htold, hsink, hreader]
  exact ⟨rfl, hmetrics⟩

/-- **Dropping** a reader leaves the sink told once, whatever was called before -/
theorem Sound.dropped (h : l.Sound job p) (hopen : l.reader.phase ≠ .closed) (remote : Remote σ) (calls : List Call) :
    ((l.run remote job calls).drop remote job).sink =
      l.sink ++ [(l.run remote job (untilClose calls)).reader.metrics] := by
  have hdrop : (l.run remote job calls).drop remote job = l.run remote job (calls ++ [.close]) :=
    (run_append remote job l calls [.close]).symm
  rw [hdrop, (h.told hopen remote (by simp)).1, untilClose_concat]

/-- the record of the calls is that of a session -/
theorem log_run (remote : Remote σ) (job : ReadJob) (l : Life σ) (calls : List Call) :
    (l.run remote job calls).log = Reader.session remote job calls l.reader l.world l.log := by
  induction calls generalizing l with
  | nil => rfl
  | cons call calls ih =>
    rw [run_cons, ih]
    cases call <;> rfl

end Life

/-! ## Reports -/

/-- what the metrics of a reader and its sink show after any calls; the sink was told of `before` by others, and `atClose` is
where the first call of `close` found the reader -/
structure Reports (remote : Remote σ) (job : ReadJob) (p : Partition) (before : List PartitionMetrics) (calls : List Call)
    (now atClose : Life σ) : Prop where
  partition : now.reader.metrics.partition = p.id
  /-- one entry for each fetch that brought rows, in order: the index of its bucket and the number of its rows -/
  entries : now.reader.metrics.counts = (p.buckets.zip (job.reads now.log)).map fun (b, _, rows) => (b.index, rows.length)
  /-- these fetches are those for the first buckets, one each -/
  buckets : (job.reads now.log).map Prod.fst = (p.buckets.take (job.reads now.log).length).map job.request
  /-- rows that were counted were handed out or are at hand -/
  rows : .close ∉ calls → now.reader.metrics.rowCount = (produced now.log).length + now.reader.buffer.length
  untold : .close ∉ calls → now.sink = before
  told : .close ∈ calls → now.sink = before ++ [atClose.reader.metrics]
  /-- closing and what comes after it change no count -/
  kept : now.reader.metrics = atClose.reader.metrics
  dropped : (now.drop remote job).sink = before ++ [atClose.reader.metrics]
  tally : (now.drop remote job).sink.foldl RowTally.add .empty = (before.foldl RowTally.add .empty).add now.reader.metrics

namespace Life

theorem Sound.rowCount {l : Life σ} (h : l.Sound job p) (hopen : l.reader.phase ≠ .closed) :
    l.reader.metrics.rowCount = (produced l.log).length + l.reader.buffer.length := by
  have hrows := congrArg List.length (h.counted.rows hopen)
  rw [PartitionMetrics.rowCount_eq, h.counted.entries, ReadJob.sum_entries h.follows.tracks.lawful.reads_le, ← hrows,
    List.length_append]

theorem reports_run (remote : Remote σ) (job : ReadJob) (p : Partition) (world : σ) (before : List PartitionMetrics)
    (calls : List Call) : Reports remote job p before calls ((start p world before).run remote job calls)
      ((start p world before).run remote job (untilClose calls)) := by
  have hstart := sound_start job p world before
  have hopen : (start p world before).reader.phase ≠ .closed := fun h => by cases h
  have hsound := hstart.run remote calls
  have hdropped := hstart.dropped hopen remote calls
  have hkept : ((start p world before).run remote job calls).reader.metrics =
      ((start p world before).run remote job (untilClose calls)).reader.metrics := by
    by_cases hcalls : .close ∈ calls
    · exact (hstart.told hopen remote hcalls).2
    · rw [untilClose_eq hcalls]
  refine ⟨hsound.counted.partition, hsound.counted.entries, hsound.follows.tracks.lawful.reads_eq, fun hcalls => ?_,
    fun hcalls => ?_, fun hcalls => ?_, hkept, hdropped, ?_⟩
  · exact hsound.rowCount (hstart.run_open hopen remote hcalls).1
  · exact (hstart.run_open hopen remote hcalls).2
  · exact (hstart.told hopen remote hcalls).1
  · rw [hdropped, hkept, List.foldl_append]
    rfl

end Life

/-! ## In a session -/

namespace Session

/-- a call of the reader with a name -/
def call (name : String) (s : Session) : Call → Session
  | .advance => (s.advance name).2
  | .close => (s.close name).2

/-- a session has a reader under a name, and its world and its sink are those of the reader -/
structure Holds (name : String) (job : ReadJob) (s : Session) (l : Life (Scripted Engine)) : Prop where
  reader : ∃ a, s.reader? name = some (a, l.reader) ∧ a.job = job
  world : s.world = l.world
  sink : s.sink = l.sink

theorem reader?_setReader {s : Session} {a : ActiveRead} (h : s.active = some a) (name : String) (r : Reader) :
    ∃ a', (s.setReader name r).reader? name = some (a', r) ∧ a'.job = a.job := by
  refine ⟨⟨a.job, (name, r) :: without name a.readers⟩, ?_, rfl⟩
  simp [reader?, setReader, h]

theorem active_of_reader? {s : Session} {name : String} {a : ActiveRead} {r : Reader} (h : s.reader? name = some (a, r)) :
    s.active = some a := by
  obtain ⟨a', ha, h⟩ := Option.bind_eq_some_iff.1 h
  obtain ⟨r', _, heq⟩ := Option.map_eq_some_iff.1 h
  cases heq
  exact ha

theorem Holds.call {name : String} {s : Session} {l : Life (Scripted Engine)} (h : s.Holds name job l) (call : Call) :
    (s.call name call).Holds name job (l.call Session.remote job call) := by
  obtain ⟨⟨a, hreader, rfl⟩, hworld, hsink⟩ := h
  have hactive := active_of_reader? hreader
  cases call with
  | advance =>
    obtain ⟨events, _, hadvance⟩ := Reader.advance_forget Session.remote a.job l.reader l.world l.log
    rw [Session.call, advance, hreader, Life.call, hadvance, ← hworld]
    exact ⟨reader?_setReader hactive name _, rfl, hsink⟩
  | close =>
    rw [Session.call, close, hreader, Life.call, Reader.close_forget, ← hworld]
    refine ⟨reader?_setReader hactive name _, rfl, ?_⟩
    rw [← hsink]
    rfl

theorem Holds.run {name : String} {s : Session} {l : Life (Scripted Engine)} (h : s.Holds name job l) (calls : List Call) :
    (calls.foldl (Session.call name) s).Holds name job (l.run Session.remote job calls) := by
  induction calls generalizing s l with
  | nil => exact h
  | cons call calls ih => exact ih (h.call call)

theorem Holds.drop {name : String} {s : Session} {l : Life (Scripted Engine)} (h : s.Holds name job l) :
    (s.drop name).2.sink = (l.drop Session.remote job).sink := by
  obtain ⟨⟨a, hreader, rfl⟩, hworld, hsink⟩ := h
  rw [Session.drop, hreader, Life.drop, Life.call, Reader.close_forget, ← hworld, ← hsink]
  rfl

theorem holds_createReader {s s' : Session} {name : String} {source : ReaderSource} {r : Reader}
    (h : s.createReader name source = (.ok r, s')) :
    ∃ job p, r = .ofPartition p ∧ s'.Holds name job (.start p s'.world s'.sink) := by
  unfold createReader at h
  cases hactive : s.active with
  | none => rw [hactive] at h; cases h
  | some a =>
    rw [hactive] at h
    simp only at h
    split at h
    · cases h
    · next p _ =>
      cases h
      refine ⟨a.job, p, rfl, ?_, rfl, rfl⟩
      cases a.readers.lookup name with
      | none => exact reader?_setReader hactive name _
      | some old => exact reader?_setReader hactive name _

end Session

/-- **Metrics match what was read.** Take any engine, whose connections and fetches may fail at any time and answer with any
text, any partition, any calls of `advance` and `close`, and a sink. At every moment the metrics have one entry for each
bucket that was fetched and decoded, in order, with its index and the number of its rows, and none for another attempt. Until
the reader is closed they add up to the rows handed out and the rows at hand. The sink is told by the first call of `close`,
or else when the reader is dropped, with the metrics of that moment, and never again. In a session this is what the calls of
a reader under a name do to the world and to the sink. -/
theorem reader_reports (remote : Remote σ) (job : ReadJob) (p : Partition) (world : σ) (before : List PartitionMetrics)
    (calls : List Call) :
    Reports remote job p before calls ((Life.start p world before).run remote job calls)
      ((Life.start p world before).run remote job (Life.untilClose calls)) ∧
    ((Life.start p world before).run remote job calls).log = Reader.session remote job calls (.ofPartition p) world [] ∧
    ∀ (s s' : Session) (name : String) (source : ReaderSource) (r : Reader), s.createReader name source = (.ok r, s') →
      ∃ job p, r = .ofPartition p ∧ ∀ calls,
        (calls.foldl (Session.call name) s').Holds name job
          ((Life.start p s'.world s'.sink).run Session.remote job calls) ∧
        ((calls.foldl (Session.call name) s').drop name).2.sink =
          (((Life.start p s'.world s'.sink).run Session.remote job calls).drop Session.remote job).sink := by
  refine ⟨Life.reports_run remote job p world before calls, Life.log_run remote job _ calls, ?_⟩
  intro s s' name source r hcreate
  obtain ⟨job, p, hr, hholds⟩ := Session.holds_createReader hcreate
  exact ⟨job, p, hr, fun calls => ⟨hholds.run calls, (hholds.run calls).drop⟩⟩

/-- an engine that fails once and has two rows for every query after that; its world counts the fetches, and is the clock -/
def Remote.failingOnce : Remote Nat where
  connect _ n := (.ok (), n)
  check n := (.good, n)
  estimate _ n := (.ok 2, n)
  fetch _ n :=
    (if n = 0 then .error (.transport "reset") else .ok "\x7b\"rows\":[\x7b\"id\":1\x7d,\x7b\"id\":2\x7d]\x7d", n + 1)
  release n := n
  clock n := n

/-- a read of numbers -/
def ReadJob.ofNumbers : ReadJob :=
  ⟨⟨[], 0, 0⟩, .fromView ⟨none, "t"⟩, ⟨[⟨"id", .long, false⟩]⟩, .default⟩

/-- the fetch fails, is tried again, and is given up after the first row; the reader is closed twice and dropped -/
theorem reader_reports_given_up :
    let p : Partition := ⟨5, [⟨7, .full⟩, ⟨8, .full⟩]⟩
    let calls : List Call := [.advance, .advance, .close, .advance, .close]
    let s : Session := ⟨⟨.empty, ⟨[], [], none, ⟨0, 0, 0, 0, 0⟩⟩⟩, [], some ⟨.ofNumbers, []⟩, []⟩
    (((Life.start p 0 []).run Remote.failingOnce .ofNumbers calls).drop Remote.failingOnce .ofNumbers).sink =
      [⟨5, [⟨7, 2, 1⟩]⟩] ∧
    ∃ s' job q, s.createReader "r" (.given p) = (.ok (.ofPartition q), s') ∧
      ((calls.foldl (Session.call "r") s').drop "r").2.sink =
        (((Life.start q s'.world s'.sink).run Session.remote job calls).drop Session.remote job).sink := by
  intro p calls s
  have hreports := reader_reports Remote.failingOnce .ofNumbers p 0 [] calls
  have hmetrics : ((Life.start p 0 []).run Remote.failingOnce .ofNumbers (Life.untilClose calls)).reader.metrics =
      ⟨5, [⟨7, 2, 1⟩]⟩ := by decide +kernel
  have hcreate : s.createReader "r" (.given p) = (.ok (.ofPartition p), (s.createReader "r" (.given p)).2) := rfl
  obtain ⟨job, q, hq, hsession⟩ := hreports.2.2 s _ "r" (.given p) _ hcreate
  refine ⟨?_, _, job, q, hq ▸ hcreate, (hsession calls).2⟩
  rw [hreports.1.dropped, hmetrics]
  rfl

end PartitionedScan
