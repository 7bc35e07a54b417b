/-
Reading one partition, bucket by bucket.

A reader connects at its first fetch and keeps the connection until it is closed. Buckets are fetched in order, the next
one only when the rows of the one before are handed out, so no more than one bucket is held. A fetch that fails leaves
the bucket where it is: asking again tries it again. Closing tells what was read, once.
-/
import PartitionedScan.Read.Job
import PartitionedScan.Read.Row
import PartitionedScan.Read.Metrics

namespace PartitionedScan

/-- where a reader is in its life -/
inductive ReaderPhase where
  /-- nothing handed out since the last fetch, or no fetch yet -/
  | awaitingBucket
  /-- the last answer was a row -/
  | iteratingRows
  /-- every bucket was read -/
  | exhausted
  /-- connection released; the end -/
  | closed
  deriving DecidableEq, Repr

/-- the reader of a partition -/
structure Reader where
  partition : Nat
  /-- buckets not fetched yet -/
  pending : List Bucket
  /-- rows fetched and not handed out yet -/
  buffer : List Row
  /-- the row handed out last -/
  current : Option Row
  connected : Bool
  phase : ReaderPhase
  metrics : PartitionMetrics
  deriving DecidableEq, Repr

namespace Reader

variable {σ : Type}

/-- a reader that has not asked for anything -/
def ofPartition (p : Partition) : Reader :=
  ⟨p.id, p.buckets, [], none, false, .awaitingBucket, .empty p.id⟩

/-! ## One bucket -/

/-- opens the connection unless it is open -/
def connect (remote : Remote σ) (job : ReadJob) (r : Reader) (world : σ) : Except RemoteError Unit × σ :=
  if r.connected then (.ok (), world) else remote.connect job.connection world

/-- one attempt to fetch and decode a bucket -/
def fetch (remote : Remote σ) (job : ReadJob) (b : Bucket) (r : Reader) (world : σ) :
    Except ReadError (List Row) × Reader × σ :=
  match connect remote job r world with
  | (.error e, world) => (.error (.fetch r.partition b.index e), r, world)
  | (.ok (), world) =>
    let r := { r with connected := true }
    let start := remote.clock world
    match remote.fetch (job.query.bindRange b.range) world with
    | (.error e, world) => (.error (.fetch r.partition b.index e), r, world)
    | (.ok payload, world) =>
      match job.schema.decodePayload payload with
      | .error e => (.error (.decode r.partition e), r, world)
      | .ok rows =>
        (.ok rows, { r with metrics := r.metrics.record b.index rows.length (remote.clock world - start) }, world)

/-! ## Rows -/

/-- the next row, with the buckets that are pending spelled out; none at the end -/
def advanceOver (remote : Remote σ) (job : ReadJob) (pending : List Bucket) (r : Reader) (world : σ) :
    Except ReadError (Option Row) × Reader × σ :=
  match r.buffer with
  | row :: buffer => (.ok (some row), { r with pending, buffer, current := some row, phase := .iteratingRows }, world)
  | [] =>
    match pending with
    | [] => (.ok none, { r with pending := [], phase := .exhausted }, world)
    | b :: rest =>
      match fetch remote job b r world with
      | (.error e, r, world) => (.error e, { r with pending := b :: rest, phase := .awaitingBucket }, world)
      | (.ok rows, r, world) => advanceOver remote job rest { r with buffer := rows } world

/-- the next row; none at the end -/
def advance (remote : Remote σ) (job : ReadJob) (r : Reader) (world : σ) :
    Except ReadError (Option Row) × Reader × σ :=
  match r.phase with
  | .closed => (.error (.readerClosed r.partition), r, world)
  | .exhausted => (.ok none, r, world)
  | _ => advanceOver remote job r.pending r world

/-- releases the connection and tells what was read; a closed reader has told it before -/
def close (remote : Remote σ) (r : Reader) (world : σ) : Option PartitionMetrics × Reader × σ :=
  if r.phase = .closed then (none, r, world)
  else
    (some r.metrics, { r with buffer := [], connected := false, phase := .closed },
      if r.connected then remote.release world else world)

/-! ## All rows -/

/-- buckets to come and rows at hand: what a reader still has to do -/
def work (r : Reader) : Nat × Nat :=
  (r.pending.length, r.buffer.length)

theorem advanceOver_work {remote : Remote σ} {job : ReadJob} {pending : List Bucket} {r r' : Reader} {world world' : σ}
    {row : Row} (h : advanceOver remote job pending r world = (.ok (some row), r', world')) :
    Prod.Lex (· < ·) (· < ·) r'.work (pending.length, r.buffer.length) := by
  induction pending generalizing r world with
  | nil =>
    unfold advanceOver at h
    split at h
    · next row buffer hb =>
      cases h
      exact Prod.Lex.right _ (by simp [hb])
    · cases h
  | cons b rest ih =>
    unfold advanceOver at h
    split at h
    · next row buffer hb =>
      cases h
      exact Prod.Lex.right _ (by simp [hb])
    · dsimp only at h
      split at h
      · cases h
      · next rows r1 world1 hf =>
        have := ih h
        rcases Prod.lex_def.1 this with hlt | ⟨heq, _⟩
        · exact Prod.Lex.left _ _ (Nat.lt_succ_of_lt hlt)
        · exact Prod.Lex.left _ _ (Nat.lt_succ_of_le (Nat.le_of_eq heq))

theorem advance_work {remote : Remote σ} {job : ReadJob} {r r' : Reader} {world world' : σ} {row : Row}
    (h : advance remote job r world = (.ok (some row), r', world')) :
    Prod.Lex (· < ·) (· < ·) r'.work r.work := by
  unfold advance at h
  split at h
  · cases h
  · cases h
  · exact advanceOver_work h

/-- the rows up to the end or to the first error -/
def drain (remote : Remote σ) (job : ReadJob) (r : Reader) (world : σ) :
    List Row × Option ReadError × Reader × σ :=
  match h : advance remote job r world with
  | (.error e, r, world) => ([], some e, r, world)
  | (.ok none, r, world) => ([], none, r, world)
  | (.ok (some row), r', world) =>
    have := advance_work h
    let (rows, e, r, world) := drain remote job r' world
    (row :: rows, e, r, world)
termination_by r.work
decreasing_by exact this

end Reader

end PartitionedScan
