/-
A task, one call of the engine at a time.

What a reader keeps from one fetch to the next is its `Line`: whether it is connected, and what it has counted. An attempt
fetches the buckets of its partition one after another over one line, up to the first that fails, and hangs up
(`attempt_eq`); the rows that a reader holds back and hands out do not show in it. `TaskState.step` makes one call of the
engine, so that calls of other tasks may come in between. Main results:
- `leads_runTask`: on every remote, failing ones included, the steps of a task come to what `runTask` comes to;
- `remaining_step`: every step of a task brings its end nearer, whatever the engine answers;
- `step_related`, `runTask_related`: over two remotes that answer alike steps and tasks do the same.
-/
import PartitionedScan.Proofs.Read.Steady

namespace PartitionedScan

variable {σ τ : Type}

/-- what a reader keeps from one fetch to the next -/
structure Line where
  partition : Nat
  connected : Bool
  metrics : PartitionMetrics
  deriving DecidableEq, Repr

namespace Line

/-- nothing asked for yet -/
def ofPartition (p : Partition) : Line :=
  ⟨p.id, false, .empty p.id⟩

/-- opens the connection, for a bucket -/
def connect (remote : Remote σ) (job : ReadJob) (b : Bucket) (l : Line) (world : σ) : Except ReadError Unit × Line × σ :=
  match remote.connect job.connection world with
  | (.error e, world) => (.error (.fetch l.partition b.index e), l, world)
  | (.ok (), world) => (.ok (), { l with connected := true }, world)

/-- asks for the rows of a bucket over an open connection -/
def ask (remote : Remote σ) (job : ReadJob) (b : Bucket) (l : Line) (world : σ) :
    Except ReadError (List Row) × Line × σ :=
  let start := remote.clock world
  match remote.fetch (job.query.bindRange b.range) world with
  | (.error e, world) => (.error (.fetch l.partition b.index e), l, world)
  | (.ok payload, world) =>
    match job.schema.decodePayload payload with
    | .error e => (.error (.decode l.partition e), l, world)
    | .ok rows =>
      (.ok rows, { l with metrics := l.metrics.record b.index rows.length (remote.clock world - start) }, world)

/-- fetches a bucket, over a connection that is opened if there is none -/
def fetch (remote : Remote σ) (job : ReadJob) (b : Bucket) (l : Line) (world : σ) :
    Except ReadError (List Row) × Line × σ :=
  if l.connected then l.ask remote job b world
  else
    match l.connect remote job b world with
    | (.error e, l, world) => (.error e, l, world)
    | (.ok (), l, world) => l.ask remote job b world

/-- fetches buckets one after another, up to the first that fails -/
def fetchAll (remote : Remote σ) (job : ReadJob) : List Bucket → Line → σ → Except ReadError (List Row) × Line × σ
  | [], l, world => (.ok [], l, world)
  | b :: bs, l, world =>
    match l.fetch remote job b world with
    | (.error e, l, world) => (.error e, l, world)
    | (.ok rows, l, world) =>
      let (more, l, world) := fetchAll remote job bs l world
      (more.map (rows ++ ·), l, world)

variable {remote : Remote σ} {job : ReadJob} {b : Bucket} {l l' : Line} {world world' : σ}

theorem connected_connect (h : l.connect remote job b world = (.ok (), l', world')) : l'.connected = true := by
  unfold connect at h
  generalize remote.connect job.connection world = answer at h
  obtain ⟨_ | _, _⟩ := answer
  · cases h
  · cases h
    rfl

theorem connected_ask {result : Except ReadError (List Row)} (hopen : l.connected = true)
    (h : l.ask remote job b world = (result, l', world')) : l'.connected = true := by
  unfold ask at h
  generalize remote.fetch (job.query.bindRange b.range) world = answer at h
  obtain ⟨_ | payload, _⟩ := answer
  · cases h
    exact hopen
  · simp only at h
    cases hdecode : job.schema.decodePayload payload with
    | error e =>
      rw [hdecode] at h
      cases h
      exact hopen
    | ok rows =>
      rw [hdecode] at h
      cases h
      exact hopen

/-- once the connection is open, fetching goes on as if it had been open before -/
theorem fetchAll_connect {bs : List Bucket} (hclosed : ¬ l.connected = true)
    (h : l.connect remote job b world = (.ok (), l', world')) :
    l.fetchAll remote job (b :: bs) world = l'.fetchAll remote job (b :: bs) world' := by
  rw [fetchAll, fetchAll, fetch, fetch, if_neg hclosed, h, if_pos (connected_connect h)]

/-- releases the connection if there is one -/
def hangUp (remote : Remote σ) (l : Line) (world : σ) : σ :=
  if l.connected then remote.release world else world

end Line

theorem map_nil_append {ε α : Type} (rows : Except ε (List α)) : rows.map ([] ++ ·) = rows := by
  cases rows <;> rfl

theorem map_append_map {ε α : Type} (front more : List α) (rows : Except ε (List α)) :
    (rows.map (more ++ ·)).map (front ++ ·) = rows.map (front ++ more ++ ·) := by
  cases rows with
  | error e => rfl
  | ok rows => exact congrArg Except.ok (List.append_assoc front more rows).symm

/-! ## Readers over a line -/

namespace Reader

variable {remote : Remote σ} {job : ReadJob}

/-- the line of a reader -/
def line (r : Reader) : Line :=
  ⟨r.partition, r.connected, r.metrics⟩

/-- the reader over another line -/
def onLine (r : Reader) (l : Line) : Reader :=
  { r with partition := l.partition, connected := l.connected, metrics := l.metrics }

/-- a fetch uses and changes only the line of its reader -/
theorem fetch_line (b : Bucket) (r : Reader) (world : σ) :
    r.fetch remote job b world =
      let (result, l, world) := r.line.fetch remote job b world
      (result, r.onLine l, world) := by
  obtain ⟨partition, pending, buffer, current, connected, phase, metrics⟩ := r
  unfold fetch connect Line.fetch Line.connect Line.ask line
  cases connected with
  | true =>
    simp only [if_true]
    rcases remote.fetch (job.query.bindRange b.range) world with ⟨_ | payload, world1⟩
    · rfl
    · dsimp only
      cases job.schema.decodePayload payload <;> rfl
  | false =>
    simp only [Bool.false_eq_true, if_false]
    rcases remote.connect job.connection world with ⟨_ | _, world1⟩
    · rfl
    · dsimp only
      rcases remote.fetch (job.query.bindRange b.range) world1 with ⟨_ | payload, world2⟩
      · rfl
      · dsimp only
        cases job.schema.decodePayload payload <;> rfl

/-- reading to the end, with the buckets to come spelled out -/
def drainOver (remote : Remote σ) (job : ReadJob) (pending : List Bucket) (r : Reader) (world : σ) :
    List Row × Option ReadError × Reader × σ :=
  match r.advanceOver remote job pending world with
  | (.error e, r, world) => ([], some e, r, world)
  | (.ok none, r, world) => ([], none, r, world)
  | (.ok (some row), r, world) =>
    let (rows, e, r, world) := r.drain remote job world
    (row :: rows, e, r, world)

theorem drain_of_live {r : Reader} (hlive : r.Live) (world : σ) :
    r.drain remote job world = r.drainOver remote job r.pending world := by
  have hadvance : r.advance remote job world = r.advanceOver remote job r.pending world := by
    unfold advance
    rcases hlive with hphase | hphase <;> rw [hphase]
  rw [drain_eq, hadvance]
  rfl

theorem drainOver_row {r : Reader} {row : Row} {buffer : List Row} (hbuffer : r.buffer = row :: buffer)
    (pending : List Bucket) (world : σ) :
    r.drainOver remote job pending world =
      let (rows, e, r, world) :=
        { r with pending, buffer, current := some row, phase := .iteratingRows }.drainOver remote job pending world
      (row :: rows, e, r, world) := by
  rw [drainOver]
  unfold advanceOver
  simp only [hbuffer]
  rw [drain_of_live (Or.inr rfl)]

/-- what reading to the end comes to, beside what fetching all buckets over the line comes to -/
structure Drained (buffer : List Row) (read : List Row × Option ReadError × Reader × σ)
    (fetched : Except ReadError (List Row) × Line × σ) : Prop where
  result : read.2.1.elim (.ok read.1) .error = fetched.1.map (buffer ++ ·)
  line : read.2.2.1.line = fetched.2.1
  phase : read.2.2.1.phase ≠ .closed
  world : read.2.2.2 = fetched.2.2

/-- rows at hand only come in front -/
theorem drained_of_empty {pending : List Bucket} {world : σ}
    (h : ∀ r : Reader, r.buffer = [] →
      Drained [] (r.drainOver remote job pending world) (r.line.fetchAll remote job pending world)) (r : Reader) :
    Drained r.buffer (r.drainOver remote job pending world) (r.line.fetchAll remote job pending world) := by
  induction hbuffer : r.buffer generalizing r with
  | nil => exact h r hbuffer
  | cons row buffer ih =>
    obtain ⟨hresult, hline, hphase, hworld⟩ :=
      ih { r with pending, buffer, current := some row, phase := .iteratingRows } rfl
    rw [drainOver_row hbuffer]
    refine ⟨?_, hline, hphase, hworld⟩
    have hfront (fetched : Except ReadError (List Row)) :
        fetched.map (row :: buffer ++ ·) = (fetched.map (buffer ++ ·)).map (row :: ·) := by
      cases fetched <;> rfl
    rw [hfront]
    refine Eq.trans ?_ (congrArg (Except.map (row :: ·)) hresult)
    cases (drainOver remote job pending _ world).2.1 <;> rfl

/-- **Reading to the end** hands out the rows at hand and then fetches all buckets -/
theorem drained_drainOver (pending : List Bucket) (r : Reader) (world : σ) :
    Drained r.buffer (r.drainOver remote job pending world) (r.line.fetchAll remote job pending world) := by
  induction pending generalizing r world with
  | nil =>
    refine drained_of_empty (fun r hbuffer => ?_) r
    rw [drainOver]
    unfold advanceOver
    simp only [hbuffer]
    exact ⟨rfl, rfl, by rintro ⟨⟩, rfl⟩
  | cons b bs ih =>
    refine drained_of_empty (fun r hbuffer => ?_) r
    rw [drainOver]
    unfold advanceOver
    simp only [hbuffer, fetch_line, Line.fetchAll]
    rcases r.line.fetch remote job b world with ⟨e | rows, l, world1⟩
    · exact ⟨rfl, rfl, by rintro ⟨⟩, rfl⟩
    · obtain ⟨hresult, hline, hphase, hworld⟩ := ih { r.onLine l with buffer := rows } world1
      exact ⟨hresult.trans (map_nil_append _).symm, hline, hphase, hworld⟩

theorem close_line (remote : Remote σ) {r : Reader} (hphase : r.phase ≠ .closed) (world : σ) :
    (r.close remote world).2.1.metrics = r.line.metrics ∧ (r.close remote world).2.2 = r.line.hangUp remote world := by
  rw [close, if_neg hphase]
  exact ⟨rfl, rfl⟩

end Reader

namespace ReadJob

/-- **An attempt** fetches the buckets one after another over one line, up to the first that fails, and hangs up -/
theorem attempt_eq (remote : Remote σ) (job : ReadJob) (p : Partition) (world : σ) :
    attempt remote job p world =
      let (result, l, world) := (Line.ofPartition p).fetchAll remote job p.buckets world
      (result, l.metrics, l.hangUp remote world) := by
  have h : Reader.Drained [] ((Reader.ofPartition p).drain remote job world)
      ((Line.ofPartition p).fetchAll remote job p.buckets world) := by
    rw [Reader.drain_of_live (Reader.live_ofPartition p)]
    exact Reader.drained_drainOver p.buckets (.ofPartition p) world
  unfold attempt
  generalize (Reader.ofPartition p).drain remote job world = read at h ⊢
  generalize (Line.ofPartition p).fetchAll remote job p.buckets world = fetched at h ⊢
  obtain ⟨rows, error, r, world1⟩ := read
  obtain ⟨result, l, world2⟩ := fetched
  obtain ⟨hresult, hline, hphase, hworld⟩ := h
  simp only at hresult hline hphase hworld
  obtain rfl : r.line = l := hline
  obtain rfl : world1 = world2 := hworld
  rw [map_nil_append] at hresult
  obtain ⟨hmetrics, hreleased⟩ := Reader.close_line remote hphase world1
  simp only [← hresult, hmetrics, hreleased]
  cases error <;> rfl

end ReadJob

/-! ## Steps of a task -/

/-- how far a task has come -/
inductive TaskState where
  /-- in an attempt, after `made` others: the rows so far, the buckets to come, and the line -/
  | reading (made : Nat) (rows : List Row) (pending : List Bucket) (line : Line)
  /-- at the end of an attempt, before it hangs up -/
  | ended (made : Nat) (result : Except ReadError (List Row)) (line : Line)
  | reported (report : TaskReport)

namespace TaskState

/-- before the first call -/
def start (p : Partition) : TaskState :=
  .reading 0 [] p.buckets (.ofPartition p)

/-- the next attempt, or the report of this one -/
def settle (maxAttempts : Nat) (p : Partition) (made : Nat) (metrics : PartitionMetrics) :
    Except ReadError (List Row) → TaskState
  | .ok rows => .reported ⟨⟨p.id, made + 1, .ok rows⟩, metrics⟩
  | .error e =>
    if e.isRetryable && made + 1 < maxAttempts then .reading (made + 1) [] p.buckets (.ofPartition p)
    else .reported ⟨⟨p.id, made + 1, .error e⟩, metrics⟩

/-- one step: at most one call of the engine, and nothing once the report is there -/
def step (remote : Remote σ) (job : ReadJob) (maxAttempts : Nat) (p : Partition) : TaskState × σ → TaskState × σ
  | (.reading made rows [] l, world) => (.ended made (.ok rows) l, world)
  | (.reading made rows (b :: bs) l, world) =>
    if l.connected then
      match l.ask remote job b world with
      | (.error e, l, world) => (.ended made (.error e) l, world)
      | (.ok more, l, world) => (.reading made (rows ++ more) bs l, world)
    else
      match l.connect remote job b world with
      | (.error e, l, world) => (.ended made (.error e) l, world)
      | (.ok (), l, world) => (.reading made rows (b :: bs) l, world)
  | (.ended made result l, world) => (settle maxAttempts p made l.metrics result, l.hangUp remote world)
  | (.reported t, world) => (.reported t, world)

variable (remote : Remote σ) (job : ReadJob) (maxAttempts : Nat) (p : Partition)

/-- steps lead from one state to another -/
def Leads (x y : TaskState × σ) : Prop :=
  ∃ n, (step remote job maxAttempts p)^[n] x = y

variable {remote job maxAttempts p}

theorem Leads.refl (x : TaskState × σ) : Leads remote job maxAttempts p x x :=
  ⟨0, rfl⟩

theorem Leads.trans {x y z : TaskState × σ} (h : Leads remote job maxAttempts p x y)
    (h' : Leads remote job maxAttempts p y z) : Leads remote job maxAttempts p x z := by
  obtain ⟨m, rfl⟩ := h
  obtain ⟨n, rfl⟩ := h'
  exact ⟨n + m, Function.iterate_add_apply _ n m x⟩

theorem Leads.head {x y : TaskState × σ} (h : Leads remote job maxAttempts p (step remote job maxAttempts p x) y) :
    Leads remote job maxAttempts p x y := by
  obtain ⟨n, h⟩ := h
  exact ⟨n + 1, h⟩

/-- a report is the last thing that happens, so steps lead to no two of them -/
theorem reported_unique {x : TaskState × σ} {t t' : TaskReport} {world world' : σ}
    (h : Leads remote job maxAttempts p x (.reported t, world))
    (h' : Leads remote job maxAttempts p x (.reported t', world')) : t = t' ∧ world = world' := by
  obtain ⟨m, h⟩ := h
  obtain ⟨n, h'⟩ := h'
  have hfixed (t : TaskReport) (world : σ) :
      Function.IsFixedPt (step remote job maxAttempts p) (.reported t, world) := rfl
  have hboth : ((.reported t, world) : TaskState × σ) = (.reported t', world') := by
    calc ((.reported t, world) : TaskState × σ)
        = (step remote job maxAttempts p)^[n] (.reported t, world) := ((hfixed t world).iterate n).symm
      _ = (step remote job maxAttempts p)^[n + m] x := by rw [Function.iterate_add_apply, h]
      _ = (step remote job maxAttempts p)^[m + n] x := by rw [Nat.add_comm]
      _ = (step remote job maxAttempts p)^[m] (.reported t', world') := by rw [Function.iterate_add_apply, h']
      _ = (.reported t', world') := (hfixed t' world').iterate m
  cases hboth
  exact ⟨rfl, rfl⟩

/-- steps fetch the buckets one after another, up to the first that fails -/
theorem leads_fetchAll (made : Nat) (rows : List Row) (pending : List Bucket) (l : Line) (world : σ) :
    Leads remote job maxAttempts p (.reading made rows pending l, world)
      (.ended made ((l.fetchAll remote job pending world).1.map (rows ++ ·)) (l.fetchAll remote job pending world).2.1,
        (l.fetchAll remote job pending world).2.2) := by
  induction pending generalizing rows l world with
  | nil =>
    refine .head ?_
    rw [step, Line.fetchAll, Except.map, List.append_nil]
    exact .refl _
  | cons b bs ih =>
    -- over an open connection the next step asks for the bucket
    have hask (l : Line) (world : σ) (hopen : l.connected = true) :
        Leads remote job maxAttempts p (.reading made rows (b :: bs) l, world)
          (.ended made ((l.fetchAll remote job (b :: bs) world).1.map (rows ++ ·))
            (l.fetchAll remote job (b :: bs) world).2.1, (l.fetchAll remote job (b :: bs) world).2.2) := by
      refine .head ?_
      rw [step, if_pos hopen, Line.fetchAll, Line.fetch, if_pos hopen]
      rcases l.ask remote job b world with ⟨e | more, l1, world1⟩
      · exact .refl _
      · simp only [map_append_map]
        exact ih (rows ++ more) l1 world1
    by_cases hopen : l.connected = true
    · exact hask l world hopen
    · refine .head ?_
      rw [step, if_neg hopen]
      cases hconnect : l.connect remote job b world with
      | mk answer later =>
        obtain ⟨l1, world1⟩ := later
        cases answer with
        | error e =>
          rw [Line.fetchAll, Line.fetch, if_neg hopen, hconnect]
          exact .refl _
        | ok _ =>
          rw [Line.fetchAll_connect hopen hconnect]
          exact hask l1 world1 (Line.connected_connect hconnect)

theorem leads_runTaskFrom (made more : Nat) (world : σ) (hmore : maxAttempts - 1 = made + more) :
    Leads remote job maxAttempts p (.reading made [] p.buckets (.ofPartition p), world)
      (.reported (ReadJob.runTaskFrom remote job p made more world).1,
        (ReadJob.runTaskFrom remote job p made more world).2) := by
  induction more generalizing made world with
  | zero =>
    have hlast : ¬ made + 1 < maxAttempts := by omega
    refine (leads_fetchAll made [] p.buckets (.ofPartition p) world).trans (.head ?_)
    rw [map_nil_append, step, ReadJob.runTaskFrom, ReadJob.attempt_eq]
    rcases (Line.ofPartition p).fetchAll remote job p.buckets world with ⟨e | rows, l, world1⟩
    · simp only [settle, hlast, decide_false, Bool.and_false, Bool.false_eq_true, if_false]
      exact .refl _
    · exact .refl _
  | succ more ih =>
    have hagain : made + 1 < maxAttempts := by omega
    refine (leads_fetchAll made [] p.buckets (.ofPartition p) world).trans (.head ?_)
    rw [map_nil_append, step, ReadJob.runTaskFrom, ReadJob.attempt_eq]
    rcases (Line.ofPartition p).fetchAll remote job p.buckets world with ⟨e | rows, l, world1⟩
    · simp only [settle, hagain, decide_true, Bool.and_true]
      split_ifs
      · exact ih (made + 1) (l.hangUp remote world1) (by omega)
      · exact .refl _
    · exact .refl _

/-- **The steps of a task** come to what the task comes to, on every remote -/
theorem leads_runTask (remote : Remote σ) (job : ReadJob) (maxAttempts : Nat) (p : Partition) (world : σ) :
    Leads remote job maxAttempts p (start p, world)
      (.reported (ReadJob.runTask remote job maxAttempts p world).1, (ReadJob.runTask remote job maxAttempts p world).2) :=
  leads_runTaskFrom 0 (maxAttempts - 1) world (Nat.zero_add _).symm

/-! ## How much is left -/

/-- an upper bound for the steps of an attempt that is still to come -/
def attemptSteps (p : Partition) : Nat :=
  2 * p.buckets.length + 4

/-- an upper bound for the steps up to the report -/
def remaining (maxAttempts : Nat) (p : Partition) : TaskState → Nat
  | .reading made _ pending l =>
    (maxAttempts - 1 - made) * attemptSteps p + 2 * pending.length + (if l.connected then 0 else 1) + 2
  | .ended made _ _ => (maxAttempts - 1 - made) * attemptSteps p + 1
  | .reported _ => 0

/-- another attempt is one attempt less to come -/
theorem remaining_settle (made : Nat) (metrics : PartitionMetrics) (result : Except ReadError (List Row)) (l : Line) :
    (settle maxAttempts p made metrics result).remaining maxAttempts p <
      (TaskState.ended made result l).remaining maxAttempts p := by
  cases result with
  | ok rows => exact Nat.succ_pos _
  | error e =>
    rw [settle]
    split_ifs with hretry
    · rw [Bool.and_eq_true, decide_eq_true_eq] at hretry
      obtain ⟨k, hk⟩ := Nat.exists_eq_add_of_lt hretry.2
      simp only [remaining, Line.ofPartition, show maxAttempts - 1 - (made + 1) = k by omega,
        show maxAttempts - 1 - made = k + 1 by omega, Nat.succ_mul, attemptSteps, Bool.false_eq_true, if_false]
      omega
    · exact Nat.succ_pos _

/-- **A step of a task brings its end nearer**, whatever the engine answers -/
theorem remaining_step (remote : Remote σ) (job : ReadJob) (maxAttempts : Nat) (p : Partition) {s : TaskState}
    (h : ∀ t, s ≠ .reported t) (world : σ) :
    (step remote job maxAttempts p (s, world)).1.remaining maxAttempts p < s.remaining maxAttempts p := by
  cases s with
  | reported t => exact absurd rfl (h t)
  | ended made result l => exact remaining_settle made l.metrics result l
  | reading made rows pending l =>
    cases pending with
    | nil =>
      simp only [step, remaining, List.length_nil]
      omega
    | cons b bs =>
      rw [step]
      split_ifs with hopen
      · cases hask : l.ask remote job b world with
        | mk answer later =>
          obtain ⟨l1, world1⟩ := later
          cases answer with
          | error e =>
            simp only [remaining, List.length_cons]
            omega
          | ok more =>
            simp only [remaining, List.length_cons, Line.connected_ask hopen hask, if_true]
            omega
      · cases hconnect : l.connect remote job b world with
        | mk answer later =>
          obtain ⟨l1, world1⟩ := later
          cases answer with
          | error e =>
            simp only [remaining, List.length_cons]
            omega
          | ok _ =>
            simp only [remaining, hopen, Line.connected_connect hconnect, if_true, Bool.false_eq_true, if_false]
            omega

end TaskState

/-! ## Remotes that answer alike -/

/-- a query for the rows of a bucket of the partition -/
def ReadJob.Asks (job : ReadJob) (p : Partition) (q : Query) : Prop :=
  ∃ b ∈ p.buckets, q = job.query.bindRange b.range

/-- in worlds that are alike two remotes answer alike, and the worlds stay alike -/
structure Remote.Related (remote : Remote σ) (remote' : Remote τ) (alike : σ → τ → Prop) (asked : Query → Prop) : Prop where
  connect : ∀ c world world', alike world world' →
    (remote.connect c world).1 = (remote'.connect c world').1 ∧
      alike (remote.connect c world).2 (remote'.connect c world').2
  fetch : ∀ q world world', asked q → alike world world' →
    (remote.fetch q world).1 = (remote'.fetch q world').1 ∧ alike (remote.fetch q world).2 (remote'.fetch q world').2
  release : ∀ world world', alike world world' → alike (remote.release world) (remote'.release world')
  clock : ∀ world world', alike world world' → remote.clock world = remote'.clock world'

/-- what holds of a world holds after every call -/
structure Remote.Keeps (remote : Remote σ) (kept : σ → Prop) (asked : Query → Prop) : Prop where
  connect : ∀ c world, kept world → kept (remote.connect c world).2
  fetch : ∀ q world, asked q → kept world → kept (remote.fetch q world).2
  release : ∀ world, kept world → kept (remote.release world)

/-- what is kept is kept beside the same world -/
theorem Remote.Keeps.related {remote : Remote σ} {kept : σ → Prop} {asked : Query → Prop} (h : remote.Keeps kept asked) :
    remote.Related remote (fun world world' => world = world' ∧ kept world) asked where
  connect c world world' := by
    rintro ⟨rfl, hkept⟩
    exact ⟨rfl, rfl, h.connect c world hkept⟩
  fetch q world world' hasked := by
    rintro ⟨rfl, hkept⟩
    exact ⟨rfl, rfl, h.fetch q world hasked hkept⟩
  release world world' := by
    rintro ⟨rfl, hkept⟩
    exact ⟨rfl, h.release world hkept⟩
  clock world world' := by
    rintro ⟨rfl, _⟩
    rfl

namespace Remote.Related

variable {remote : Remote σ} {remote' : Remote τ} {alike : σ → τ → Prop} {job : ReadJob} {p : Partition}
  {world : σ} {world' : τ}

/-- two answers that are the same, with what is left of each world -/
theorem exists_answer {α : Type} {first : α × σ} {second : α × τ} (h : first.1 = second.1 ∧ alike first.2 second.2) :
    ∃ answer world world', first = (answer, world) ∧ second = (answer, world') ∧ alike world world' :=
  ⟨first.1, first.2, second.2, rfl, Prod.ext h.1.symm rfl, h.2⟩

theorem line_connect {asked : Query → Prop} (h : remote.Related remote' alike asked) (halike : alike world world')
    (job : ReadJob) (b : Bucket) (l : Line) :
    ∃ result l' world1 world1', l.connect remote job b world = (result, l', world1) ∧
      l.connect remote' job b world' = (result, l', world1') ∧ alike world1 world1' := by
  obtain ⟨answer, world1, world1', hfirst, hsecond, halike'⟩ := exists_answer (h.connect job.connection world world' halike)
  rw [Line.connect, Line.connect, hfirst, hsecond]
  cases answer <;> exact ⟨_, _, world1, world1', rfl, rfl, halike'⟩

theorem line_ask (h : remote.Related remote' alike (job.Asks p)) (halike : alike world world') {b : Bucket}
    (hb : b ∈ p.buckets) (l : Line) :
    ∃ result l' world1 world1', l.ask remote job b world = (result, l', world1) ∧
      l.ask remote' job b world' = (result, l', world1') ∧ alike world1 world1' := by
  obtain ⟨answer, world1, world1', hfirst, hsecond, halike'⟩ :=
    exists_answer (h.fetch (job.query.bindRange b.range) world world' ⟨b, hb, rfl⟩ halike)
  rw [Line.ask, Line.ask, hfirst, hsecond, h.clock world world' halike]
  cases answer with
  | error e => exact ⟨_, _, world1, world1', rfl, rfl, halike'⟩
  | ok payload =>
    simp only
    cases job.schema.decodePayload payload with
    | error e => exact ⟨_, _, world1, world1', rfl, rfl, halike'⟩
    | ok rows =>
      rw [h.clock world1 world1' halike']
      exact ⟨_, _, world1, world1', rfl, rfl, halike'⟩

end Remote.Related

namespace TaskState

variable {remote : Remote σ} {remote' : Remote τ} {alike : σ → τ → Prop} {job : ReadJob} {maxAttempts : Nat} {p : Partition}

/-- the buckets to come are some of the partition -/
def Within (p : Partition) : TaskState → Prop
  | .reading _ _ pending _ => pending ⊆ p.buckets
  | _ => True

theorem within_start (p : Partition) : (start p).Within p :=
  List.Subset.refl _

theorem within_step {s : TaskState} (hwithin : s.Within p) (world : σ) :
    (step remote job maxAttempts p (s, world)).1.Within p := by
  cases s with
  | reported t => trivial
  | ended made result l =>
    rw [step]
    cases result with
    | ok rows => trivial
    | error e =>
      rw [settle]
      split_ifs
      · exact List.Subset.refl _
      · trivial
  | reading made rows pending l =>
    cases pending with
    | nil => trivial
    | cons b bs =>
      rw [step]
      split_ifs
      · rcases l.ask remote job b world with ⟨_ | _, _⟩
        · trivial
        · exact (List.cons_subset.1 hwithin).2
      · rcases l.connect remote job b world with ⟨_ | _, _⟩
        · trivial
        · exact hwithin

theorem within_iterate (remote : Remote σ) (job : ReadJob) (maxAttempts : Nat) (p : Partition) (world : σ) (n : Nat) :
    ((step remote job maxAttempts p)^[n] (start p, world)).1.Within p := by
  induction n with
  | zero => exact within_start p
  | succ n ih =>
    rw [Function.iterate_succ_apply']
    exact within_step ih _

/-- **A step does the same** over two remotes that answer alike -/
theorem step_related (h : remote.Related remote' alike (job.Asks p)) {s : TaskState} (hwithin : s.Within p) {world : σ}
    {world' : τ} (halike : alike world world') :
    (step remote job maxAttempts p (s, world)).1 = (step remote' job maxAttempts p (s, world')).1 ∧
      alike (step remote job maxAttempts p (s, world)).2 (step remote' job maxAttempts p (s, world')).2 := by
  cases s with
  | reported t => exact ⟨rfl, halike⟩
  | ended made result l =>
    refine ⟨rfl, ?_⟩
    simp only [step, Line.hangUp]
    split_ifs
    · exact h.release world world' halike
    · exact halike
  | reading made rows pending l =>
    cases pending with
    | nil => exact ⟨rfl, halike⟩
    | cons b bs =>
      obtain ⟨hb, _⟩ := List.cons_subset.1 hwithin
      rw [step, step]
      split_ifs
      · obtain ⟨result, l1, world1, world1', hfirst, hsecond, halike'⟩ := h.line_ask halike hb l
        rw [hfirst, hsecond]
        cases result <;> exact ⟨rfl, halike'⟩
      · obtain ⟨result, l1, world1, world1', hfirst, hsecond, halike'⟩ := h.line_connect halike job b l
        rw [hfirst, hsecond]
        cases result <;> exact ⟨rfl, halike'⟩

theorem iterate_related (h : remote.Related remote' alike (job.Asks p)) (maxAttempts : Nat) {world : σ} {world' : τ}
    (halike : alike world world') (n : Nat) :
    ((step remote job maxAttempts p)^[n] (start p, world)).1 = ((step remote' job maxAttempts p)^[n] (start p, world')).1 ∧
      alike ((step remote job maxAttempts p)^[n] (start p, world)).2
        ((step remote' job maxAttempts p)^[n] (start p, world')).2 := by
  induction n with
  | zero => exact ⟨rfl, halike⟩
  | succ n ih =>
    rw [Function.iterate_succ_apply', Function.iterate_succ_apply']
    have hwithin := within_iterate remote job maxAttempts p world n
    generalize (step remote job maxAttempts p)^[n] (start p, world) = first at ih hwithin ⊢
    generalize (step remote' job maxAttempts p)^[n] (start p, world') = second at ih ⊢
    obtain ⟨s, world1⟩ := first
    obtain ⟨s', world1'⟩ := second
    obtain ⟨hstate, halike'⟩ := ih
    obtain rfl : s = s' := hstate
    exact step_related h hwithin halike'

theorem step_keeps {kept : σ → Prop} (h : remote.Keeps kept (job.Asks p)) {s : TaskState} (hwithin : s.Within p) {world : σ}
    (hkept : kept world) : kept (step remote job maxAttempts p (s, world)).2 :=
  (step_related h.related hwithin ⟨rfl, hkept⟩).2.2

end TaskState

/-- **Tasks over remotes that answer alike** have the same reports -/
theorem ReadJob.runTask_related {remote : Remote σ} {remote' : Remote τ} {alike : σ → τ → Prop} {job : ReadJob}
    {p : Partition} (h : remote.Related remote' alike (job.Asks p)) (maxAttempts : Nat) {world : σ} {world' : τ}
    (halike : alike world world') :
    (runTask remote job maxAttempts p world).1 = (runTask remote' job maxAttempts p world').1 ∧
      alike (runTask remote job maxAttempts p world).2 (runTask remote' job maxAttempts p world').2 := by
  obtain ⟨n, hn⟩ := TaskState.leads_runTask remote job maxAttempts p world
  obtain ⟨hstate, halike'⟩ := TaskState.iterate_related h maxAttempts halike n
  rw [hn] at hstate halike'
  obtain ⟨hreport, hworld⟩ := TaskState.reported_unique (TaskState.leads_runTask remote' job maxAttempts p world')
    ⟨n, Prod.ext hstate.symm rfl⟩
  rw [hreport, hworld]
  exact ⟨rfl, halike'⟩

theorem ReadJob.runTask_keeps {remote : Remote σ} {kept : σ → Prop} {job : ReadJob} {p : Partition}
    (h : remote.Keeps kept (job.Asks p)) (maxAttempts : Nat) {world : σ} (hkept : kept world) :
    kept (runTask remote job maxAttempts p world).2 :=
  (runTask_related h.related maxAttempts ⟨rfl, hkept⟩).2.2

end PartitionedScan
