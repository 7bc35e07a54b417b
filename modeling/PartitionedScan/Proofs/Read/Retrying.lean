/-
What a task asks of the engine, and what it makes of the answers.

The engine is taken with a record of every call, releases included (`Remote.tracing`); forgetting the record gives the task
over the engine itself. An attempt is told by what was asked in it: nothing, a connection that was refused, or fetches over
one connection (`Attempt`). Its calls, its result and what it counts are read off that, so nothing of another attempt can be
in them. Buckets are fetched in order up to the first that fails (`Served`, one lemma for each way in which fetching goes
on), and the release is the last call of its attempt. Main results:
- `fetchAll_traced`: what fetching buckets over an open connection asks, and what it comes to;
- `attempt_traced`: an attempt, in any world and after any calls;
- `task_retries`: how many attempts a task makes, what they ask, and what is reported of them.
-/
import PartitionedScan.Proofs.Read.TaskSteps
import PartitionedScan.Session

namespace PartitionedScan

variable {σ : Type}

/-! ## Calls -/

/-- a call of the engine, with its answer -/
inductive EngineCall where
  | connected (answer : Except RemoteError Unit)
  | fetched (query : Query) (answer : Except RemoteError String)
  | released
  deriving DecidableEq

/-- the engine with a record of the calls -/
def Remote.tracing (remote : Remote σ) : Remote (σ × List EngineCall) where
  connect connection w :=
    ((remote.connect connection w.1).1, (remote.connect connection w.1).2,
      w.2 ++ [.connected (remote.connect connection w.1).1])
  check w := ((remote.check w.1).1, (remote.check w.1).2, w.2)
  estimate query w := ((remote.estimate query w.1).1, (remote.estimate query w.1).2, w.2)
  fetch query w :=
    ((remote.fetch query w.1).1, (remote.fetch query w.1).2, w.2 ++ [.fetched query (remote.fetch query w.1).1])
  release w := (remote.release w.1, w.2 ++ [.released])
  clock w := remote.clock w.1

/-- forgetting the record gives the engine itself -/
theorem Remote.tracing_related (remote : Remote σ) (asked : Query → Prop) :
    remote.tracing.Related remote (fun w world => w.1 = world) asked where
  connect c w world := by
    rintro rfl
    exact ⟨rfl, rfl⟩
  fetch q w world _ := by
    rintro rfl
    exact ⟨rfl, rfl⟩
  release w world := by
    rintro rfl
    rfl
  clock w world := by
    rintro rfl
    rfl

/-! ## Attempts -/

/-- a fetch for a bucket, with the answer -/
structure BucketFetch where
  bucket : Bucket
  answer : Except RemoteError String

namespace BucketFetch

/-- the call that it is -/
def call (job : ReadJob) (x : BucketFetch) : EngineCall :=
  .fetched (job.query.bindRange x.bucket.range) x.answer

/-- the rows that the answer decodes to, or why there are none -/
def rows (job : ReadJob) (partition : Nat) (x : BucketFetch) : Except ReadError (List Row) :=
  job.bucketRows (fun _ => x.answer) partition x.bucket

/-- all rows of fetches, in order, or the first error -/
def allRows (job : ReadJob) (partition : Nat) (fetches : List BucketFetch) : Except ReadError (List Row) :=
  (fetches.mapM (rows job partition)).map List.flatten

/-- the buckets that brought rows, with the number of rows -/
def counts (job : ReadJob) (partition : Nat) (fetches : List BucketFetch) : List (Nat × Nat) :=
  fetches.filterMap fun x => (x.rows job partition).toOption.map fun rows => (x.bucket.index, rows.length)

variable {job : ReadJob} {partition : Nat}

theorem allRows_cons_ok {x : BucketFetch} {rows : List Row} (h : x.rows job partition = .ok rows)
    (fetches : List BucketFetch) :
    allRows job partition (x :: fetches) = (allRows job partition fetches).map (rows ++ ·) := by
  rw [allRows, allRows, List.mapM_cons, h]
  cases fetches.mapM (BucketFetch.rows job partition) <;> rfl

theorem allRows_cons_error {x : BucketFetch} {e : ReadError} (h : x.rows job partition = .error e)
    (fetches : List BucketFetch) : allRows job partition (x :: fetches) = .error e := by
  rw [allRows, List.mapM_cons, h]
  rfl

theorem counts_cons_ok {x : BucketFetch} {rows : List Row} (h : x.rows job partition = .ok rows)
    (fetches : List BucketFetch) :
    counts job partition (x :: fetches) = (x.bucket.index, rows.length) :: counts job partition fetches := by
  rw [counts, List.filterMap_cons, h]
  rfl

/-- where every fetch brought rows, the counts add up to their number -/
theorem sum_counts {fetches : List BucketFetch} {rows : List Row} (h : allRows job partition fetches = .ok rows) :
    ((counts job partition fetches).map Prod.snd).sum = rows.length := by
  induction fetches generalizing rows with
  | nil =>
    cases h
    rfl
  | cons x fetches ih =>
    cases hx : x.rows job partition with
    | error e =>
      rw [allRows_cons_error hx] at h
      cases h
    | ok first =>
      rw [allRows_cons_ok hx] at h
      cases hrest : allRows job partition fetches with
      | error e =>
        rw [hrest] at h
        cases h
      | ok rest =>
        rw [hrest] at h
        cases h
        rw [counts_cons_ok hx, List.map_cons, List.sum_cons, ih hrest, List.length_append]

end BucketFetch

/-- buckets fetched one after another, up to the first fetch that fails -/
structure Served (job : ReadJob) (partition : Nat) (buckets : List Bucket) (fetches : List BucketFetch) : Prop where
  order : fetches.map BucketFetch.bucket <+: buckets
  /-- only the last one may have failed -/
  answered : ∀ x ∈ fetches.dropLast, ∃ rows, x.rows job partition = .ok rows
  /-- where none failed, every bucket was fetched -/
  whole : ∀ rows, BucketFetch.allRows job partition fetches = .ok rows → fetches.map BucketFetch.bucket = buckets

namespace Served

variable {job : ReadJob} {partition : Nat} {buckets : List Bucket} {fetches : List BucketFetch}

theorem nil : Served job partition [] [] :=
  ⟨List.prefix_refl _, nofun, fun _ _ => rfl⟩

theorem failed {x : BucketFetch} {e : ReadError} (h : x.rows job partition = .error e) (buckets : List Bucket) :
    Served job partition (x.bucket :: buckets) [x] where
  order := ⟨buckets, rfl⟩
  answered := nofun
  whole rows hall := by
    rw [BucketFetch.allRows_cons_error h] at hall
    cases hall

theorem cons {x : BucketFetch} {rows : List Row} (hx : x.rows job partition = .ok rows)
    (h : Served job partition buckets fetches) : Served job partition (x.bucket :: buckets) (x :: fetches) where
  order := List.cons_prefix_cons.2 ⟨rfl, h.order⟩
  answered y hy := by
    cases fetches with
    | nil => cases hy
    | cons next fetches =>
      rw [List.dropLast_cons_cons] at hy
      rcases List.mem_cons.1 hy with rfl | hy
      · exact ⟨rows, hx⟩
      · exact h.answered y hy
  whole all hall := by
    rw [BucketFetch.allRows_cons_ok hx] at hall
    cases hrest : BucketFetch.allRows job partition fetches with
    | error e =>
      rw [hrest] at hall
      cases hall
    | ok rest => rw [List.map_cons, h.whole rest hrest]

end Served

/-- what was asked in an attempt -/
inductive Attempt where
  /-- nothing, for want of buckets -/
  | idle
  /-- a connection that was refused; it was for this bucket -/
  | refused (bucket : Bucket) (cause : RemoteError)
  /-- fetches over one connection -/
  | served (fetches : List BucketFetch)

namespace Attempt

/-- an attempt as its partition allows it -/
def Follows (job : ReadJob) (p : Partition) : Attempt → Prop
  | .idle => p.buckets = []
  | .refused bucket _ => p.buckets.head? = some bucket
  | .served fetches => p.buckets ≠ [] ∧ Served job p.id p.buckets fetches

/-- the calls; a connection that was opened is released at the end -/
def calls (job : ReadJob) : Attempt → List EngineCall
  | .idle => []
  | .refused _ cause => [.connected (.error cause)]
  | .served fetches => .connected (.ok ()) :: fetches.map (BucketFetch.call job) ++ [.released]

/-- the rows, or the first error -/
def result (job : ReadJob) (partition : Nat) : Attempt → Except ReadError (List Row)
  | .idle => .ok []
  | .refused bucket cause => .error (.fetch partition bucket.index cause)
  | .served fetches => BucketFetch.allRows job partition fetches

/-- the buckets that were read, with the number of rows -/
def counts (job : ReadJob) (partition : Nat) : Attempt → List (Nat × Nat)
  | .served fetches => BucketFetch.counts job partition fetches
  | _ => []

/-- the attempt failed, and another one may not -/
def Retryable (job : ReadJob) (partition : Nat) (a : Attempt) : Prop :=
  ∃ e, a.result job partition = .error e ∧ e.isRetryable = true

/-- where an attempt has rows, its counts add up to their number -/
theorem sum_counts {job : ReadJob} {partition : Nat} {a : Attempt} {rows : List Row}
    (h : a.result job partition = .ok rows) : ((a.counts job partition).map Prod.snd).sum = rows.length := by
  cases a with
  | idle =>
    cases h
    rfl
  | refused bucket cause => cases h
  | served fetches => exact BucketFetch.sum_counts h

end Attempt

/-! ## What is asked -/

namespace PartitionMetrics

/-- the buckets that were read, with the number of rows -/
def counts (m : PartitionMetrics) : List (Nat × Nat) :=
  m.buckets.map fun b => (b.bucket, b.rows)

theorem counts_record (m : PartitionMetrics) (bucket rows nanos : Nat) :
    (m.record bucket rows nanos).counts = m.counts ++ [(bucket, rows)] := by
  rw [counts, record, List.map_append]
  rfl

theorem rowCount_eq (m : PartitionMetrics) : m.rowCount = (m.counts.map Prod.snd).sum := by
  have hfold (n : Nat) (buckets : List BucketMetrics) :
      buckets.foldl (fun n b => n + b.rows) n = n + (buckets.map BucketMetrics.rows).sum := by
    induction buckets generalizing n with
    | nil => rfl
    | cons b buckets ih => rw [List.foldl_cons, ih, List.map_cons, List.sum_cons, Nat.add_assoc]
  rw [rowCount, hfold, Nat.zero_add, counts, List.map_map]
  rfl

end PartitionMetrics

namespace Line

variable {remote : Remote σ} {job : ReadJob}

theorem connect_traced (remote : Remote σ) (job : ReadJob) (b : Bucket) (l : Line) (world : σ) (calls : List EngineCall) :
    (∃ cause world', l.connect remote.tracing job b (world, calls) =
      (.error (.fetch l.partition b.index cause), l, world', calls ++ [.connected (.error cause)])) ∨
    ∃ world', l.connect remote.tracing job b (world, calls) =
      (.ok (), { l with connected := true }, world', calls ++ [.connected (.ok ())]) := by
  unfold connect
  simp only [Remote.tracing]
  rcases remote.connect job.connection world with ⟨cause | _, world1⟩
  · exact Or.inl ⟨cause, world1, rfl⟩
  · exact Or.inr ⟨world1, rfl⟩

theorem ask_traced (remote : Remote σ) (job : ReadJob) (b : Bucket) (l : Line) (world : σ) (calls : List EngineCall) :
    ∃ x l' world', x.bucket = b ∧
      l.ask remote.tracing job b (world, calls) =
        (x.rows job l.partition, l', world', calls ++ [x.call job]) ∧
      l'.partition = l.partition ∧ l'.connected = l.connected ∧ l'.metrics.partition = l.metrics.partition ∧
      l'.metrics.counts = l.metrics.counts ++ BucketFetch.counts job l.partition [x] := by
  unfold ask
  simp only [Remote.tracing]
  rcases remote.fetch (job.query.bindRange b.range) world with ⟨e | payload, world1⟩
  · exact ⟨⟨b, .error e⟩, l, world1, rfl, rfl, rfl, rfl, rfl, (List.append_nil _).symm⟩
  · simp only
    cases hdecode : job.schema.decodePayload payload with
    | error e =>
      have hrows : BucketFetch.rows job l.partition ⟨b, .ok payload⟩ = .error (.decode l.partition e) := by
        simp only [BucketFetch.rows, ReadJob.bucketRows, hdecode]
      refine ⟨⟨b, .ok payload⟩, l, world1, rfl, by rw [hrows]; rfl, rfl, rfl, rfl, ?_⟩
      rw [BucketFetch.counts, List.filterMap_cons, hrows]
      exact (List.append_nil _).symm
    | ok rows =>
      have hrows : BucketFetch.rows job l.partition ⟨b, .ok payload⟩ = .ok rows := by
        simp only [BucketFetch.rows, ReadJob.bucketRows, hdecode]
      refine ⟨⟨b, .ok payload⟩,
        { l with metrics := l.metrics.record b.index rows.length (remote.clock world1 - remote.clock world) }, world1, rfl,
        by rw [hrows]; rfl, rfl, rfl, rfl, ?_⟩
      rw [PartitionMetrics.counts_record, BucketFetch.counts_cons_ok hrows]
      rfl

/-- what fetching buckets comes to, and what it leaves on the record -/
structure Traced (job : ReadJob) (l : Line) (buckets : List Bucket) (calls : List EngineCall)
    (fetched : Except ReadError (List Row) × Line × σ × List EngineCall) (fetches : List BucketFetch) : Prop where
  served : Served job l.partition buckets fetches
  result : fetched.1 = BucketFetch.allRows job l.partition fetches
  calls : fetched.2.2.2 = calls ++ fetches.map (BucketFetch.call job)
  connected : fetched.2.1.connected = l.connected
  partition : fetched.2.1.metrics.partition = l.metrics.partition
  counts : fetched.2.1.metrics.counts = l.metrics.counts ++ BucketFetch.counts job l.partition fetches

/-- **Fetching over an open connection** asks for the buckets in order, up to the first that fails -/
theorem fetchAll_traced (remote : Remote σ) (job : ReadJob) (buckets : List Bucket) {l : Line}
    (hopen : l.connected = true) (world : σ) (calls : List EngineCall) :
    ∃ fetches, Traced job l buckets calls (l.fetchAll remote.tracing job buckets (world, calls)) fetches := by
  induction buckets generalizing l world calls with
  | nil => exact ⟨[], .nil, rfl, (List.append_nil _).symm, rfl, rfl, (List.append_nil _).symm⟩
  | cons b bs ih =>
    obtain ⟨x, l1, world1, rfl, hask, hpartition, hopen1, hmetrics, hcounts⟩ :=
      ask_traced remote job b l world calls
    rw [fetchAll, fetch, if_pos hopen, hask]
    cases hx : x.rows job l.partition with
    | error e =>
      refine ⟨[x], .failed hx bs, ?_, rfl, hopen1, hmetrics, hcounts⟩
      rw [BucketFetch.allRows_cons_error hx]
    | ok rows =>
      obtain ⟨fetches, hrest⟩ := ih (hopen1.trans hopen) world1 (calls ++ [x.call job])
      have hserved := hrest.served
      have hresult := hrest.result
      have hmore := hrest.counts
      rw [hpartition] at hserved hresult hmore
      refine ⟨x :: fetches, .cons hx hserved, ?_, ?_, hrest.connected.trans hopen1, hrest.partition.trans hmetrics, ?_⟩
      · rw [BucketFetch.allRows_cons_ok hx, ← hresult]
      · refine hrest.calls.trans ?_
        rw [List.map_cons, List.append_assoc]
        rfl
      · rw [BucketFetch.counts_cons_ok hx]
        refine hmore.trans ?_
        rw [hcounts, BucketFetch.counts_cons_ok hx, List.append_assoc]
        rfl

end Line

namespace ReadJob

variable {remote : Remote σ} {job : ReadJob} {p : Partition}

/-- **An attempt**, whatever was asked before it -/
theorem attempt_traced (remote : Remote σ) (job : ReadJob) (p : Partition) (world : σ) (calls : List EngineCall) :
    ∃ (a : Attempt) (metrics : PartitionMetrics) (world' : σ), a.Follows job p ∧
      attempt remote.tracing job p (world, calls) = (a.result job p.id, metrics, world', calls ++ a.calls job) ∧
      metrics.partition = p.id ∧ metrics.counts = a.counts job p.id := by
  rw [attempt_eq]
  cases hbuckets : p.buckets with
  | nil => exact ⟨.idle, .empty p.id, world, hbuckets, by rw [Attempt.calls, List.append_nil]; rfl, rfl, rfl⟩
  | cons b bs =>
    have hclosed : ¬ (Line.ofPartition p).connected = true := Bool.false_ne_true
    rcases Line.connect_traced remote job b (.ofPartition p) world calls with ⟨cause, world1, hconnect⟩ | ⟨world1, hconnect⟩
    · refine ⟨.refused b cause, .empty p.id, world1, by rw [Attempt.Follows, hbuckets]; rfl, ?_, rfl, rfl⟩
      rw [Line.fetchAll, Line.fetch, if_neg hclosed, hconnect]
      rfl
    · rw [Line.fetchAll_connect hclosed hconnect]
      obtain ⟨fetches, htraced⟩ := Line.fetchAll_traced remote job (b :: bs)
        (l := { Line.ofPartition p with connected := true }) rfl world1 (calls ++ [.connected (.ok ())])
      generalize Line.fetchAll remote.tracing job (b :: bs) _ _ = fetched at htraced ⊢
      obtain ⟨result, l, world2, calls2⟩ := fetched
      obtain ⟨hserved, hresult, hcalls, hopen, hpartition, hcounts⟩ := htraced
      refine ⟨.served fetches, l.metrics, remote.release world2, ⟨hbuckets ▸ List.cons_ne_nil b bs, hbuckets ▸ hserved⟩, ?_,
        hpartition, hcounts⟩
      obtain rfl : result = BucketFetch.allRows job p.id fetches := hresult
      obtain rfl : calls2 = calls ++ [.connected (.ok ())] ++ fetches.map (BucketFetch.call job) := hcalls
      have hrelease : l.hangUp remote.tracing (world2, calls ++ [.connected (.ok ())] ++ fetches.map (BucketFetch.call job)) =
          (remote.release world2, calls ++ [.connected (.ok ())] ++ fetches.map (BucketFetch.call job) ++ [.released]) :=
        if_pos hopen
      simp only [hrelease]
      simp only [Attempt.calls, Attempt.result, List.append_assoc, List.cons_append, List.nil_append]

/-- a task that reports after an attempt, or makes another one -/
inductive Tries (job : ReadJob) (maxAttempts : Nat) (p : Partition) : Nat → List Attempt → TaskReport → Prop
  | last {made : Nat} {a : Attempt} {metrics : PartitionMetrics} (follows : a.Follows job p)
      (enough : a.Retryable job p.id → maxAttempts ≤ made + 1) (partition : metrics.partition = p.id)
      (counts : metrics.counts = a.counts job p.id) :
      Tries job maxAttempts p made [a] ⟨⟨p.id, made + 1, a.result job p.id⟩, metrics⟩
  | again {made : Nat} {a : Attempt} {attempts : List Attempt} {report : TaskReport} (follows : a.Follows job p)
      (retryable : a.Retryable job p.id) (more : made + 1 < maxAttempts)
      (rest : Tries job maxAttempts p (made + 1) attempts report) : Tries job maxAttempts p made (a :: attempts) report

/-- the attempts of a task from now on, when `made` were made before, and what is reported -/
theorem runTaskFrom_traced (remote : Remote σ) (job : ReadJob) (p : Partition) (made more : Nat) (world : σ)
    (calls : List EngineCall) {maxAttempts : Nat} (hmore : maxAttempts - 1 = made + more) :
    ∃ attempts, Tries job maxAttempts p made attempts (runTaskFrom remote.tracing job p made more (world, calls)).1 ∧
      (runTaskFrom remote.tracing job p made more (world, calls)).2.2 = calls ++ attempts.flatMap (Attempt.calls job) := by
  induction more generalizing made world calls with
  | zero =>
    obtain ⟨a, metrics, world1, hfollows, hattempt, hpartition, hcounts⟩ :=
      attempt_traced remote job p world calls
    have henough : a.Retryable job p.id → maxAttempts ≤ made + 1 := fun _ => by omega
    have hlast : Tries job maxAttempts p made _ _ := .last hfollows henough hpartition hcounts
    refine ⟨[a], ?_⟩
    rw [runTaskFrom, hattempt, List.flatMap_singleton]
    cases hresult : a.result job p.id <;> rw [hresult] at hlast <;> exact ⟨hlast, rfl⟩
  | succ more ih =>
    obtain ⟨a, metrics, world1, hfollows, hattempt, hpartition, hcounts⟩ :=
      attempt_traced remote job p world calls
    rw [runTaskFrom, hattempt]
    have hlast (hdone : ¬ a.Retryable job p.id) : Tries job maxAttempts p made _ _ :=
      .last hfollows (fun h => absurd h hdone) hpartition hcounts
    cases hresult : a.result job p.id with
    | ok rows =>
      have hdone : ¬ a.Retryable job p.id := by
        rintro ⟨e, he, _⟩
        rw [hresult] at he
        cases he
      have hreport := hlast hdone
      rw [hresult] at hreport
      exact ⟨[a], hreport, by rw [List.flatMap_singleton]⟩
    | error e =>
      simp only
      split_ifs with hretry
      · obtain ⟨attempts, htries, hcalls⟩ := ih (made + 1) world1 (calls ++ a.calls job) (by omega)
        refine ⟨a :: attempts, .again hfollows ⟨e, hresult, hretry⟩ (by omega) htries, ?_⟩
        rw [hcalls, List.flatMap_cons, List.append_assoc]
      · have hdone : ¬ a.Retryable job p.id := by
          rintro ⟨e', he, hretry'⟩
          rw [hresult] at he
          cases he
          exact hretry hretry'
        have hreport := hlast hdone
        rw [hresult] at hreport
        exact ⟨[a], hreport, by rw [List.flatMap_singleton]⟩

namespace Tries

variable {maxAttempts made : Nat} {attempts : List Attempt} {report : TaskReport}

theorem follows (h : Tries job maxAttempts p made attempts report) : ∀ a ∈ attempts, a.Follows job p := by
  induction h with
  | last follows _ _ _ => exact List.forall_mem_singleton.2 follows
  | again follows _ _ _ ih => exact List.forall_mem_cons.2 ⟨follows, ih⟩

theorem ne_nil (h : Tries job maxAttempts p made attempts report) : attempts ≠ [] := by
  cases h <;> exact List.cons_ne_nil _ _

theorem limit (h : Tries job maxAttempts p made attempts report) : made + attempts.length ≤ max (made + 1) maxAttempts := by
  induction h with
  | last _ _ _ _ => exact le_max_left _ _
  | again _ _ more _ ih =>
    rw [List.length_cons]
    omega

/-- the last attempt is the one that is reported -/
theorem reported (h : Tries job maxAttempts p made attempts report) :
    ∃ a, attempts.getLast? = some a ∧ report.outcome = ⟨p.id, made + attempts.length, a.result job p.id⟩ ∧
      report.metrics.partition = p.id ∧ report.metrics.counts = a.counts job p.id := by
  induction h with
  | @last _ a metrics _ _ partition counts => exact ⟨a, rfl, rfl, partition, counts⟩
  | @again made a attempts report _ _ _ rest ih =>
    obtain ⟨last, hlast, houtcome, hpartition, hcounts⟩ := ih
    refine ⟨last, ?_, ?_, hpartition, hcounts⟩
    · rw [List.getLast?_cons, hlast]
      rfl
    · rw [houtcome, List.length_cons, Nat.add_assoc, Nat.add_comm 1]

/-- an attempt is followed by another one just when it may be repeated and there is one left to make -/
theorem again_iff (h : Tries job maxAttempts p made attempts report) {i : Nat} {a : Attempt} (ha : attempts[i]? = some a) :
    i + 1 < attempts.length ↔ a.Retryable job p.id ∧ made + i + 1 < maxAttempts := by
  induction h generalizing i with
  | @last made b _ _ enough _ _ =>
    cases i with
    | zero =>
      cases ha
      simp only [List.length_singleton, Nat.lt_irrefl, false_iff, not_and]
      intro hretryable
      have := enough hretryable
      omega
    | succ i => cases ha
  | @again made b attempts _ _ retryable more rest ih =>
    cases i with
    | zero =>
      cases ha
      have := List.length_pos_of_ne_nil rest.ne_nil
      simp only [List.length_cons, retryable, true_and]
      omega
    | succ i =>
      rw [List.length_cons, Nat.add_lt_add_iff_right, ih ha, show made + 1 + i = made + (i + 1) by omega]

end Tries

/-- how the attempts of a task go together, and what is reported of them -/
structure Retries (job : ReadJob) (maxAttempts : Nat) (p : Partition) (attempts : List Attempt) (calls : List EngineCall)
    (report : TaskReport) : Prop where
  /-- each asks for the buckets in order, up to the first that fails -/
  each : ∀ a ∈ attempts, a.Follows job p
  /-- each releases its connection before the next one asks for anything -/
  calls : calls = attempts.flatMap (Attempt.calls job)
  least : 1 ≤ attempts.length
  limit : attempts.length ≤ max 1 maxAttempts
  /-- there is another attempt just when this one failed, may be repeated, and fewer than allowed were made -/
  again : ∀ i a, attempts[i]? = some a → (i + 1 < attempts.length ↔ a.Retryable job p.id ∧ i + 1 < maxAttempts)
  /-- the last attempt, and nothing of the others, is reported -/
  last : ∃ a, attempts.getLast? = some a ∧ report.outcome = ⟨p.id, attempts.length, a.result job p.id⟩ ∧
    report.metrics.partition = p.id ∧ report.metrics.counts = a.counts job p.id
  total : ∀ rows, report.outcome.result = .ok rows → report.metrics.rowCount = rows.length

theorem Tries.retries {maxAttempts : Nat} {attempts : List Attempt} {report : TaskReport}
    (h : Tries job maxAttempts p 0 attempts report) :
    Retries job maxAttempts p attempts (attempts.flatMap (Attempt.calls job)) report where
  each := h.follows
  calls := rfl
  least := List.length_pos_of_ne_nil h.ne_nil
  limit := Nat.zero_add attempts.length ▸ h.limit
  again i a ha := by
    rw [h.again_iff ha, Nat.zero_add]
  last := by
    obtain ⟨a, hlast, houtcome, hmetrics⟩ := h.reported
    exact ⟨a, hlast, Nat.zero_add attempts.length ▸ houtcome, hmetrics⟩
  total rows hrows := by
    obtain ⟨a, _, houtcome, _, hcounts⟩ := h.reported
    rw [houtcome] at hrows
    rw [PartitionMetrics.rowCount_eq, hcounts]
    exact Attempt.sum_counts hrows

end ReadJob

/-- one record for each report goes to the sink, and one report is made for each chosen partition -/
theorem Session.run_sink (world : Scripted Engine) (connections : List String) (a : ActiveRead) (sink : List PartitionMetrics)
    (maxAttempts : Nat) (only : Option (List Nat)) :
    ∃ reports, ((⟨world, connections, some a, sink⟩ : Session).run maxAttempts only).1 = .ok reports ∧
      ((⟨world, connections, some a, sink⟩ : Session).run maxAttempts only).2.sink =
        sink ++ reports.map TaskReport.metrics ∧
      List.Forall₂ (fun p t => ∃ world, t = (ReadJob.runTask Session.remote a.job maxAttempts p world).1)
        (Session.chosen a.job.partitioning only) reports := by
  refine ⟨_, rfl, rfl, ?_⟩
  generalize Session.chosen a.job.partitioning only = ps
  induction ps generalizing world with
  | nil => exact .nil
  | cons p ps ih => exact .cons ⟨world, rfl⟩ (ih _)

/-- **A task retries exactly.** Whatever the engine answers and whenever it fails, the calls of a task are those of its
attempts, one after another. An attempt asks for the buckets in order, over one connection and up to the first that fails,
and releases the connection before the next attempt starts. There is at least one attempt and no more than allowed, and
another one just when the one before failed with an error that may go away and one was left. What is reported is the last
attempt: the rows of all buckets or the first error, and the counts of the buckets that were read, which add up to the rows.
In a session every task sends just this record to the sink. -/
theorem task_retries (remote : Remote σ) (job : ReadJob) (maxAttempts : Nat) (p : Partition) (world : σ) :
    (∃ attempts, ReadJob.Retries job maxAttempts p attempts
      (ReadJob.runTask remote.tracing job maxAttempts p (world, [])).2.2
      (ReadJob.runTask remote job maxAttempts p world).1) ∧
    (ReadJob.runTask remote.tracing job maxAttempts p (world, [])).2.1 =
      (ReadJob.runTask remote job maxAttempts p world).2 ∧
    ∀ (world : Scripted Engine) (connections : List String) (a : ActiveRead) (sink : List PartitionMetrics)
      (only : Option (List Nat)), ∃ reports,
      ((⟨world, connections, some a, sink⟩ : Session).run maxAttempts only).1 = .ok reports ∧
      ((⟨world, connections, some a, sink⟩ : Session).run maxAttempts only).2.sink =
        sink ++ reports.map TaskReport.metrics ∧
      List.Forall₂ (fun p t => ∃ world, t = (ReadJob.runTask Session.remote a.job maxAttempts p world).1)
        (Session.chosen a.job.partitioning only) reports := by
  obtain ⟨hreport, hworld⟩ := ReadJob.runTask_related (remote.tracing_related (job.Asks p)) maxAttempts
    (rfl : ((world, []) : σ × List EngineCall).1 = world)
  obtain ⟨attempts, htries, hcalls⟩ := ReadJob.runTaskFrom_traced remote job p 0 (maxAttempts - 1) world []
    (Nat.zero_add _).symm
  refine ⟨⟨attempts, ?_⟩, hworld, fun world connections a sink only => ?_⟩
  · rw [← hreport, ReadJob.runTask, hcalls, List.nil_append]
    exact htries.retries
  · exact Session.run_sink world connections a sink maxAttempts only

end PartitionedScan
