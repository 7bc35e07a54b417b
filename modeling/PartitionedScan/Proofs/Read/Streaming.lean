/-
The reader of one partition keeps to its protocol.

Any calls of `advance` and `close`, in any order and on any engine, leave a lawful log. The engine is taken with a record of
its connections and fetches (`Remote.recording`); forgetting the record gives the reader over the engine itself
(`advance_forget`). One call of `advance` is followed bucket by bucket: while rows are left, the rows handed out and the ones
at hand are those received, and the buckets to come are those after the ones read (`Streaming`). Between calls `Follows`
holds, whatever the phase. Main result:
- `reader_streams`: the log of any session is a stream, and has the answers that the reader gives.
-/
import PartitionedScan.Proofs.Read.Protocol

namespace PartitionedScan

variable {σ : Type}

/-! ## Sessions -/

/-- the engine with a record of what was asked of it -/
def Remote.recording (remote : Remote σ) : Remote (σ × List Event) where
  connect connection w :=
    ((remote.connect connection w.1).1, (remote.connect connection w.1).2,
      w.2 ++ [.connected (remote.connect connection w.1).1])
  check w := ((remote.check w.1).1, (remote.check w.1).2, w.2)
  estimate query w := ((remote.estimate query w.1).1, (remote.estimate query w.1).2, w.2)
  fetch query w :=
    ((remote.fetch query w.1).1, (remote.fetch query w.1).2, w.2 ++ [.fetched query (remote.fetch query w.1).1])
  release w := (remote.release w.1, w.2)
  clock w := remote.clock w.1

/-- what can be asked of a reader -/
inductive Call where
  | advance
  | close
  deriving DecidableEq, Repr

namespace Reader

/-- the answers of `advance` to calls one after another, each with the row that is current after it -/
def answers (remote : Remote σ) (job : ReadJob) :
    List Call → Reader → σ → List (Except ReadError (Option Row) × Option Row)
  | [], _, _ => []
  | .advance :: calls, r, world =>
    let (result, r, world) := advance remote job r world
    (result, r.current) :: answers remote job calls r world
  | .close :: calls, r, world =>
    let (_, r, world) := close remote r world
    answers remote job calls r world

/-- calls one after another, on a record to which the answers are added -/
def session (remote : Remote σ) (job : ReadJob) : List Call → Reader → σ → List Event → List Event
  | [], _, _, log => log
  | .advance :: calls, r, world, log =>
    let (result, r, world, log) := advance remote.recording job r (world, log)
    session remote job calls r world (log ++ [.answered result r.current])
  | .close :: calls, r, world, log =>
    let (_, r, world, log) := close remote.recording r (world, log)
    session remote job calls r world (log ++ [.closed])

variable {remote : Remote σ} {job : ReadJob} {p : Partition}

/-! ## Forgetting the record -/

/-- what a reader asks when it wants a connection -/
def connecting (r : Reader) (answer : Except RemoteError Unit) : List Event :=
  if r.connected then [] else [.connected answer]

theorem connect_forget (remote : Remote σ) (job : ReadJob) (r : Reader) (world : σ) (log : List Event) :
    connect remote.recording job r (world, log) =
      ((connect remote job r world).1, (connect remote job r world).2,
        log ++ r.connecting (connect remote job r world).1) := by
  unfold connect connecting
  split_ifs
  · rw [List.append_nil]
  · rfl

theorem fetch_forget (remote : Remote σ) (job : ReadJob) (b : Bucket) (r : Reader) (world : σ) (log : List Event) :
    ∃ events, (∀ ev ∈ events, ev.isRequest = true) ∧ fetch remote.recording job b r (world, log) =
      ((fetch remote job b r world).1, (fetch remote job b r world).2.1, (fetch remote job b r world).2.2,
        log ++ events) := by
  have hconnecting : ∀ answer, ∀ ev ∈ r.connecting answer, ev.isRequest = true := fun answer ev hev => by
    unfold connecting at hev
    split_ifs at hev
    · cases hev
    · rw [List.mem_singleton.1 hev]
      rfl
  have hfetching : ∀ answer query fetched, ∀ ev ∈ r.connecting answer ++ [.fetched query fetched], ev.isRequest = true :=
    fun answer query fetched => List.forall_mem_append.2 ⟨hconnecting answer, List.forall_mem_singleton.2 rfl⟩
  unfold fetch
  rw [connect_forget]
  rcases connect remote job r world with ⟨_ | _, world1⟩
  · exact ⟨_, hconnecting _, rfl⟩
  · simp only [Remote.recording]
    rcases remote.fetch (job.query.bindRange b.range) world1 with ⟨_ | payload, world2⟩
    · exact ⟨_, hfetching _ _ _, by rw [List.append_assoc]⟩
    · refine ⟨_, hfetching (.ok ()) (job.query.bindRange b.range) (.ok payload), ?_⟩
      rw [← List.append_assoc]
      dsimp only
      cases job.schema.decodePayload payload <;> rfl

theorem advanceOver_forget (remote : Remote σ) (job : ReadJob) (pending : List Bucket) (r : Reader) (world : σ)
    (log : List Event) :
    ∃ events, (∀ ev ∈ events, ev.isRequest = true) ∧ advanceOver remote.recording job pending r (world, log) =
      ((advanceOver remote job pending r world).1, (advanceOver remote job pending r world).2.1,
        (advanceOver remote job pending r world).2.2, log ++ events) := by
  have hnone : ∀ ev ∈ ([] : List Event), ev.isRequest = true := fun _ hev => by cases hev
  induction pending generalizing r world log with
  | nil =>
    refine ⟨[], hnone, ?_⟩
    unfold advanceOver
    rw [List.append_nil]
    cases r.buffer <;> rfl
  | cons b rest ih =>
    unfold advanceOver
    cases r.buffer with
    | cons row buffer => exact ⟨[], hnone, by rw [List.append_nil]⟩
    | nil =>
      obtain ⟨events, hevents, hfetch⟩ := fetch_forget remote job b r world log
      simp only [hfetch]
      rcases fetch remote job b r world with ⟨_ | rows, r1, world1⟩
      · exact ⟨events, hevents, rfl⟩
      · obtain ⟨more, hmore, hrest⟩ := ih { r1 with buffer := rows } world1 (log ++ events)
        refine ⟨events ++ more, List.forall_mem_append.2 ⟨hevents, hmore⟩, ?_⟩
        rw [← List.append_assoc]
        exact hrest

/-- forgetting the record of a call of `advance` gives the call itself, and the record has requests only -/
theorem advance_forget (remote : Remote σ) (job : ReadJob) (r : Reader) (world : σ) (log : List Event) :
    ∃ events, (∀ ev ∈ events, ev.isRequest = true) ∧ advance remote.recording job r (world, log) =
      ((advance remote job r world).1, (advance remote job r world).2.1, (advance remote job r world).2.2,
        log ++ events) := by
  have hnone : ∀ ev ∈ ([] : List Event), ev.isRequest = true := fun _ hev => by cases hev
  unfold advance
  cases r.phase with
  | closed | exhausted => exact ⟨[], hnone, by rw [List.append_nil]⟩
  | awaitingBucket | iteratingRows => exact advanceOver_forget remote job r.pending r world log

theorem close_forget (remote : Remote σ) (r : Reader) (world : σ) (log : List Event) :
    close remote.recording r (world, log) =
      ((close remote r world).1, (close remote r world).2.1, (close remote r world).2.2, log) := by
  unfold close
  split_ifs <;> rfl

theorem answers_session (remote : Remote σ) (job : ReadJob) (calls : List Call) (r : Reader) (world : σ)
    (log : List Event) : (session remote job calls r world log).filterMap Event.answer? =
      log.filterMap Event.answer? ++ answers remote job calls r world := by
  induction calls generalizing r world log with
  | nil => rw [session, answers, List.append_nil]
  | cons call calls ih =>
    cases call with
    | advance =>
      obtain ⟨events, hevents, hadvance⟩ := advance_forget remote job r world log
      rw [session, answers, hadvance]
      simp only [ih, List.filterMap_append, answers_of_requests hevents]
      simp [Event.answer?]
    | close =>
      rw [session, answers, close_forget]
      simp only [ih, List.filterMap_append]
      simp [Event.answer?]

theorem length_answers (remote : Remote σ) (job : ReadJob) (calls : List Call) (r : Reader) (world : σ) :
    (answers remote job calls r world).length = calls.count .advance := by
  induction calls generalizing r world with
  | nil => rfl
  | cons call calls ih =>
    cases call with
    | advance => rw [answers, List.count_cons_self, List.length_cons, ih]
    | close => rw [answers, List.count_cons_of_ne (by decide), ih]

/-! ## Keeping to the protocol -/

/-- a reader and its log agree -/
structure Tracks (job : ReadJob) (p : Partition) (r : Reader) (log : List Event) : Prop where
  lawful : job.Lawful p log
  settled : job.unanswered? p log = none
  partition : r.partition = p.id
  current : r.current = lastRow log

/-- a reader that is neither at the end nor closed: what was handed out and what is at hand is what was received, and the
buckets to come are those after the ones read -/
structure Streaming (job : ReadJob) (p : Partition) (pending : List Bucket) (r : Reader) (log : List Event) : Prop
    extends Tracks job p r log where
  live : Live log
  rows : produced log ++ r.buffer = job.received log
  pending : pending = p.buckets.drop (job.reads log).length

/-- what holds of a reader and its log between two calls -/
inductive Follows (job : ReadJob) (p : Partition) (r : Reader) (log : List Event) : Prop
  | streaming (h : Streaming job p r.pending r log) (phase : r.phase = .awaitingBucket ∨ r.phase = .iteratingRows)
  | exhausted (h : Tracks job p r log) (phase : r.phase = .exhausted) (open' : .closed ∉ log)
      (all : (job.reads log).length = p.buckets.length) (drained : produced log = job.received log)
  | closed (h : Tracks job p r log) (phase : r.phase = .closed) (closed : .closed ∈ log)

theorem due_connected {log : List Event} {b : Bucket} (due : job.Due p log b) :
    job.Due p (log ++ [.connected (.ok ())]) b where
  live := due.live.snoc (by simp) (by simp)
  settled := by
    rw [ReadJob.unanswered?_snoc]
    cases job.due? p (log ++ [.connected (.ok ())]) <;> rfl
  bucket := (ReadJob.due?_snoc rfl).trans due.bucket
  drained := by
    rw [produced_snoc_none rfl, ReadJob.received_snoc_none rfl]
    exact due.drained

/-- what the log says after a fetch for the bucket that was due -/
structure Fetched (job : ReadJob) (p : Partition) (b : Bucket) (log : List Event) (result : Except ReadError (List Row))
    (log' : List Event) : Prop where
  lawful : job.Lawful p log'
  live : Live log'
  produced : produced log' = produced log
  rows : ∀ rows, result = .ok rows →
    job.unanswered? p log' = none ∧ job.reads log' = job.reads log ++ [(job.request b, rows)]
  error : ∀ e, result = .error e → job.unanswered? p log' = some e ∧ job.reads log' = job.reads log

/-- a fetch for the bucket that is due, whatever it brings -/
theorem fetched_of_due {b : Bucket} {log : List Event} (hlawful : job.Lawful p log) (due : job.Due p log b)
    (answer : Except RemoteError String) {result : Except ReadError (List Row)}
    (hrows : ∀ rows, result = .ok rows → job.read? (.fetched (job.request b) answer) = some (job.request b, rows))
    (herror : ∀ e, result = .error e → job.failure? p.id b (.fetched (job.request b) answer) = some e) :
    Fetched job p b log result (log ++ [.fetched (job.request b) answer]) where
  lawful := hlawful.snoc (.fetched due answer)
  live := due.live.snoc (by simp) (by simp)
  produced := produced_snoc_none rfl log
  rows rows h := by
    have hread := hrows rows h
    refine ⟨?_, ReadJob.reads_snoc_some hread⟩
    rw [ReadJob.unanswered?_snoc]
    cases job.due? p (log ++ [.fetched (job.request b) answer]) with
    | none => rfl
    | some next => exact ReadJob.failure?_of_read? hread
  error e h := by
    have hfailure := herror e h
    have hread := ReadJob.read?_of_failure? hfailure
    refine ⟨?_, ReadJob.reads_snoc_none hread⟩
    rw [ReadJob.unanswered?_snoc, ReadJob.due?_snoc hread, due.bucket, Option.bind_some, hfailure]

theorem connected_of_due {b : Bucket} {log : List Event} (hlawful : job.Lawful p log) (due : job.Due p log b) (r : Reader) :
    job.Lawful p (log ++ r.connecting (.ok ())) ∧ job.Due p (log ++ r.connecting (.ok ())) b ∧
      produced (log ++ r.connecting (.ok ())) = produced log ∧
      job.reads (log ++ r.connecting (.ok ())) = job.reads log := by
  unfold connecting
  split_ifs
  · simpa using ⟨hlawful, due⟩
  · exact ⟨hlawful.snoc (.connected due _), due_connected due, produced_snoc_none rfl log, ReadJob.reads_snoc_none rfl⟩

/-- **One fetch** asks for the bucket that is due and brings its rows or fails; where the reader stands does not change -/
theorem fetch_follows {b : Bucket} {r r' : Reader} {world world' : σ} {log log' : List Event}
    {result : Except ReadError (List Row)} (hlawful : job.Lawful p log) (due : job.Due p log b)
    (hpartition : r.partition = p.id) (h : fetch remote.recording job b r (world, log) = (result, r', world', log')) :
    Fetched job p b log result log' ∧ r'.partition = r.partition ∧ r'.buffer = r.buffer ∧ r'.current = r.current := by
  unfold fetch at h
  rw [connect_forget] at h
  rcases hconnect : connect remote job r world with ⟨e | _, world1⟩
  · have hclosed : r.connected ≠ true := fun hopen => by
      rw [connect, if_pos hopen] at hconnect
      cases hconnect
    rw [hconnect, connecting, if_neg hclosed] at h
    cases h
    refine ⟨⟨hlawful.snoc (.connected due _), due.live.snoc (by simp) (by simp), produced_snoc_none rfl log,
      (fun _ h => by cases h), fun e h => ?_⟩, rfl, rfl, rfl⟩
    cases h
    refine ⟨?_, ReadJob.reads_snoc_none rfl⟩
    rw [ReadJob.unanswered?_snoc, ReadJob.due?_snoc rfl, due.bucket, hpartition]
    rfl
  · obtain ⟨hlawful1, due1, hproduced, hreads⟩ := connected_of_due hlawful due r
    have hfetched : ∀ answer result' later,
        (∀ rows, result' = .ok rows → job.read? (.fetched (job.request b) answer) = some (job.request b, rows)) →
        (∀ e, result' = .error e → job.failure? p.id b (.fetched (job.request b) answer) = some e) →
        later = log ++ r.connecting (.ok ()) ++ [.fetched (job.request b) answer] →
        Fetched job p b log result' later := fun answer result' later hrows herror hlater => by
      have hf := fetched_of_due hlawful1 due1 answer hrows herror
      rw [hlater]
      exact { hf with produced := hf.produced.trans hproduced, rows := hreads ▸ hf.rows, error := hreads ▸ hf.error }
    simp only [hconnect, Remote.recording] at h
    rcases hanswer : remote.fetch (job.query.bindRange b.range) world1 with ⟨e | payload, world2⟩
    · rw [hanswer] at h
      cases h
      refine ⟨hfetched (.error e) _ _ (fun _ h => by cases h) (fun _ h => ?_) rfl, rfl, rfl, rfl⟩
      cases h
      rw [hpartition]
      rfl
    · rw [hanswer] at h
      simp only at h
      cases hdecode : job.schema.decodePayload payload with
      | error cause =>
        rw [hdecode] at h
        cases h
        refine ⟨hfetched (.ok payload) _ _ (fun _ h => by cases h) (fun _ h => ?_) rfl, rfl, rfl, rfl⟩
        cases h
        simp only [ReadJob.failure?, hdecode, hpartition]
      | ok rows =>
        rw [hdecode] at h
        cases h
        refine ⟨hfetched (.ok payload) _ _ (fun _ h => ?_) (fun _ h => by cases h) rfl, rfl, rfl, rfl⟩
        cases h
        simp only [ReadJob.read?, hdecode, Except.toOption, Option.map_some]

/-! ## Answers -/

theorem lastRow_row (log : List Event) (row : Row) (current : Option Row) :
    lastRow (log ++ [.answered (.ok (some row)) current]) = some row := by
  rw [lastRow, produced_append]
  exact List.getLast?_concat

theorem row_follows {pending : List Bucket} {r : Reader} {log : List Event} {row : Row} {buffer : List Row}
    (h : Streaming job p pending r log) (hbuffer : r.buffer = row :: buffer) :
    Follows job p { r with pending, buffer, current := some row, phase := .iteratingRows }
      (log ++ [.answered (.ok (some row)) (some row)]) := by
  have hrows := h.rows
  rw [hbuffer] at hrows
  refine .streaming ⟨⟨h.lawful.snoc (.row h.live h.settled hrows), ReadJob.unanswered?_of_not_request rfl, h.partition,
    (lastRow_row log row _).symm⟩, h.live.snoc (by simp) (by simp), ?_, ?_⟩ (Or.inr rfl)
  · rw [produced_append, ReadJob.received_append, ← hrows]
    simp [produced, Event.row?, ReadJob.received, ReadJob.reads, ReadJob.read?]
  · rw [ReadJob.reads_snoc_none rfl]
    exact h.pending

/-- the end is told when every bucket was read and all rows were handed out -/
theorem ended_follows {r : Reader} (r' : Reader) {log : List Event} (h : Tracks job p r log) (hopen : .closed ∉ log)
    (hall : (job.reads log).length = p.buckets.length) (hdrained : produced log = job.received log)
    (hphase : r'.phase = .exhausted) (hpartition : r'.partition = r.partition) (hcurrent : r'.current = r.current) :
    Follows job p r' (log ++ [.answered (.ok none) r'.current]) := by
  have hlast : r'.current = lastRow log := hcurrent.trans h.current
  have hallowed : job.Allowed p log (.answered (.ok none) r'.current) := hlast ▸ .ended hopen h.settled hall hdrained
  refine .exhausted ⟨h.lawful.snoc hallowed, ReadJob.unanswered?_of_not_request rfl, hpartition.trans h.partition,
    hlast.trans (lastRow_snoc_none rfl log).symm⟩ hphase ?_ ?_ ?_
  · simpa using hopen
  · rw [ReadJob.reads_snoc_none rfl]
    exact hall
  · rw [produced_snoc_none rfl, ReadJob.received_snoc_none rfl]
    exact hdrained

theorem end_follows {r : Reader} {log : List Event} (h : Streaming job p [] r log) (hbuffer : r.buffer = []) :
    Follows job p { r with pending := [], phase := .exhausted } (log ++ [.answered (.ok none) r.current]) := by
  have hdrained : produced log = job.received log := by rw [← h.rows, hbuffer, List.append_nil]
  have hall : (job.reads log).length = p.buckets.length :=
    Nat.le_antisymm h.lawful.reads_le (List.drop_eq_nil_iff.1 h.pending.symm)
  exact ended_follows { r with pending := [], phase := .exhausted } h.toTracks h.live.1 hall hdrained rfl rfl rfl

theorem due_of_streaming {b : Bucket} {rest : List Bucket} {r : Reader} {log : List Event}
    (h : Streaming job p (b :: rest) r log) (hbuffer : r.buffer = []) : job.Due p log b where
  live := h.live
  settled := h.settled
  drained := by rw [← h.rows, hbuffer, List.append_nil]
  bucket := by
    have hbucket := congrArg List.head? h.pending
    rw [List.head?_cons, List.head?_drop] at hbucket
    exact hbucket.symm

theorem error_follows {b : Bucket} {pending : List Bucket} {r r' : Reader} {log log' : List Event} {e : ReadError}
    (h : Streaming job p pending r log) (hfetched : Fetched job p b log (.error e) log')
    (hpartition : r'.partition = r.partition) (hbuffer : r'.buffer = r.buffer) (hcurrent : r'.current = r.current) :
    Follows job p { r' with pending, phase := .awaitingBucket } (log' ++ [.answered (.error e) r'.current]) := by
  obtain ⟨hpending, hreads⟩ := hfetched.error e rfl
  have hlast : r'.current = lastRow log' := by rw [hcurrent, h.current, lastRow, lastRow, hfetched.produced]
  have hallowed : job.Allowed p log' (.answered (.error e) r'.current) := hlast ▸ .failed hfetched.live hpending
  refine .streaming ⟨⟨hfetched.lawful.snoc hallowed, ReadJob.unanswered?_of_not_request rfl,
    hpartition.trans h.partition, hlast.trans (lastRow_snoc_none rfl log').symm⟩,
    hfetched.live.snoc (by simp) (by simp), ?_, ?_⟩ (Or.inl rfl)
  · rw [produced_snoc_none rfl, hfetched.produced, ReadJob.received_snoc_none rfl, ReadJob.received, hreads,
      ← ReadJob.received, ← h.rows, ← hbuffer]
  · rw [ReadJob.reads_snoc_none rfl, hreads]
    exact h.pending

/-- rows that a fetch brought are at hand, and the bucket is no longer to come -/
theorem streaming_of_rows {b : Bucket} {rest : List Bucket} {r r' : Reader} {log log' : List Event} {rows : List Row}
    (h : Streaming job p (b :: rest) r log) (hempty : r.buffer = []) (hfetched : Fetched job p b log (.ok rows) log')
    (hpartition : r'.partition = r.partition) (hcurrent : r'.current = r.current) :
    Streaming job p rest { r' with buffer := rows } log' := by
  obtain ⟨hsettled, hreads⟩ := hfetched.rows rows rfl
  refine ⟨⟨hfetched.lawful, hsettled, hpartition.trans h.partition, ?_⟩, hfetched.live, ?_, ?_⟩
  · rw [lastRow, hfetched.produced, ← lastRow, ← h.current]
    exact hcurrent
  · rw [hfetched.produced, ReadJob.received, hreads, List.flatMap_append, ← ReadJob.received, ← h.rows, hempty]
    simp
  · rw [hreads, List.length_append, List.length_singleton, ← List.drop_drop, ← h.pending]
    rfl

/-- **One call of `advance`** on a reader with rows or buckets left, bucket by bucket -/
theorem advanceOver_follows {pending : List Bucket} {r r' : Reader} {world world' : σ} {log log' : List Event}
    {result : Except ReadError (Option Row)} (h : Streaming job p pending r log)
    (hadvance : advanceOver remote.recording job pending r (world, log) = (result, r', world', log')) :
    Follows job p r' (log' ++ [.answered result r'.current]) := by
  induction pending generalizing r world log with
  | nil =>
    unfold advanceOver at hadvance
    cases hbuffer : r.buffer with
    | cons row buffer =>
      rw [hbuffer] at hadvance
      cases hadvance
      exact row_follows h hbuffer
    | nil =>
      rw [hbuffer] at hadvance
      cases hadvance
      have hend := end_follows h hbuffer
      rw [hbuffer] at hend
      exact hend
  | cons b rest ih =>
    unfold advanceOver at hadvance
    cases hbuffer : r.buffer with
    | cons row buffer =>
      rw [hbuffer] at hadvance
      cases hadvance
      exact row_follows h hbuffer
    | nil =>
      rw [hbuffer] at hadvance
      simp only at hadvance
      have due := due_of_streaming h hbuffer
      rcases hfetch : fetch remote.recording job b r (world, log) with ⟨e | rows, r1, world1, log1⟩
      · obtain ⟨hfetched, hpartition, hsame, hcurrent⟩ := fetch_follows h.lawful due h.partition hfetch
        rw [hfetch] at hadvance
        cases hadvance
        exact error_follows h hfetched hpartition hsame hcurrent
      · obtain ⟨hfetched, hpartition, _, hcurrent⟩ := fetch_follows h.lawful due h.partition hfetch
        rw [hfetch] at hadvance
        exact ih (streaming_of_rows h hbuffer hfetched hpartition hcurrent) hadvance

theorem Follows.tracks {r : Reader} {log : List Event} (h : Follows job p r log) : Tracks job p r log := by
  cases h with
  | streaming h | exhausted h | closed h => first | exact h.toTracks | exact h

/-- **One call of `advance`**, whatever the phase of the reader -/
theorem advance_follows {r r' : Reader} {world world' : σ} {log log' : List Event}
    {result : Except ReadError (Option Row)} (h : Follows job p r log)
    (hadvance : advance remote.recording job r (world, log) = (result, r', world', log')) :
    Follows job p r' (log' ++ [.answered result r'.current]) := by
  unfold advance at hadvance
  cases h with
  | streaming h phase =>
    rcases phase with phase | phase <;> rw [phase] at hadvance <;> exact advanceOver_follows h hadvance
  | exhausted h phase hopen all drained =>
    rw [phase] at hadvance
    cases hadvance
    exact ended_follows r h hopen all drained phase rfl rfl
  | closed h phase closed =>
    rw [phase] at hadvance
    cases hadvance
    have hallowed : job.Allowed p log (.answered (.error (.readerClosed r.partition)) r.current) :=
      h.current ▸ h.partition ▸ .refused closed
    exact .closed ⟨h.lawful.snoc hallowed, ReadJob.unanswered?_of_not_request rfl, h.partition,
      h.current.trans (lastRow_snoc_none rfl log).symm⟩ phase (List.mem_append_left _ closed)

/-- **One call of `close`**, whatever the phase of the reader -/
theorem close_follows {r : Reader} {world : σ} {log : List Event} (h : Follows job p r log) :
    Follows job p (close remote r world).2.1 (log ++ [.closed]) := by
  have htracks (r' : Reader) (hpartition : r'.partition = r.partition) (hcurrent : r'.current = r.current) :
      Tracks job p r' (log ++ [.closed]) :=
    ⟨h.tracks.lawful.snoc (.closed h.tracks.settled), ReadJob.unanswered?_of_not_request rfl,
      hpartition.trans h.tracks.partition, hcurrent.trans (h.tracks.current.trans (lastRow_snoc_none rfl log).symm)⟩
  have hmem : Event.closed ∈ log ++ [.closed] := List.mem_append_right _ (List.mem_singleton_self _)
  unfold close
  by_cases hphase : r.phase = .closed
  · rw [if_pos hphase]
    exact .closed (htracks r rfl rfl) hphase hmem
  · rw [if_neg hphase]
    exact .closed (htracks _ rfl rfl) rfl hmem

/-- **Any calls**, one after another -/
theorem session_follows (remote : Remote σ) (calls : List Call) {r : Reader} (world : σ) {log : List Event}
    (h : Follows job p r log) :
    ∃ r', Follows job p r' (session remote job calls r world log) := by
  induction calls generalizing r world log with
  | nil => exact ⟨r, h⟩
  | cons call calls ih =>
    cases call with
    | advance =>
      rw [session]
      rcases hadvance : advance remote.recording job r (world, log) with ⟨result, r', world', log'⟩
      exact ih world' (advance_follows h hadvance)
    | close =>
      rw [session, close_forget]
      exact ih _ (close_follows h)

theorem follows_ofPartition (job : ReadJob) (p : Partition) : Follows job p (ofPartition p) [] :=
  .streaming ⟨⟨.nil, rfl, rfl, rfl⟩, ⟨by simp, by simp⟩, rfl, rfl⟩ (Or.inl rfl)

end Reader

/-- **Streaming a partition.** Take any engine, whose connections and fetches may fail at any time and answer with any text,
any partition and any calls of `advance` and `close` on a reader of it. The log of the session is a stream: rows in the
order of the buckets, every bucket read at most once and asked for only when the rows before it were handed out, failures
that change nothing, an end that is one, and silence after closing. The log has the answers that the reader gives over the
engine, one for each call of `advance`. -/
theorem reader_streams (remote : Remote σ) (job : ReadJob) (p : Partition) (calls : List Call) (world : σ) :
    job.Streams p (Reader.session remote job calls (.ofPartition p) world []) ∧
      (Reader.session remote job calls (.ofPartition p) world []).filterMap Event.answer? =
        Reader.answers remote job calls (.ofPartition p) world ∧
      (Reader.answers remote job calls (.ofPartition p) world).length = calls.count .advance := by
  obtain ⟨r, h⟩ := Reader.session_follows remote calls world (Reader.follows_ofPartition job p)
  exact ⟨h.tracks.lawful.streams h.tracks.settled, Reader.answers_session remote job calls _ world [],
    Reader.length_answers remote job calls _ world⟩

end PartitionedScan
