/-
Reading partitions as tasks.

A task reads its partition with a fresh reader, from the start, and closes it. Another attempt is made only after an
error that may go away, as long as attempts are left; nothing of a failed attempt is kept. Tasks do not know of one
another: each has its own outcome, in the order of the partitions. What the last attempt of each task read is published.
-/
import PartitionedScan.Read.Reader

namespace PartitionedScan

/-- what became of a partition: its rows, or the error of the last attempt -/
structure Outcome where
  partition : Nat
  attempts : Nat
  result : Except ReadError (List Row)

/-- one task's outcome and what its last attempt read -/
structure TaskReport where
  outcome : Outcome
  metrics : PartitionMetrics

namespace ReadJob

variable {σ : Type}

/-- reads a partition once, from the start, and closes the reader -/
def attempt (remote : Remote σ) (job : ReadJob) (p : Partition) (world : σ) :
    Except ReadError (List Row) × PartitionMetrics × σ :=
  let (rows, error, r, world) := Reader.drain remote job (.ofPartition p) world
  let (_, r, world) := r.close remote world
  (match error with | some e => .error e | none => .ok rows, r.metrics, world)

/-- a task after `made` attempts, with one attempt to make now and `more` after it -/
def runTaskFrom (remote : Remote σ) (job : ReadJob) (p : Partition) (made : Nat) (more : Nat) (world : σ) :
    TaskReport × σ :=
  match attempt remote job p world with
  | (.ok rows, metrics, world) => (⟨⟨p.id, made + 1, .ok rows⟩, metrics⟩, world)
  | (.error e, metrics, world) =>
    match more with
    | 0 => (⟨⟨p.id, made + 1, .error e⟩, metrics⟩, world)
    | more + 1 =>
      if e.isRetryable then runTaskFrom remote job p (made + 1) more world
      else (⟨⟨p.id, made + 1, .error e⟩, metrics⟩, world)

/-- a task with at most `maxAttempts` attempts, and at least one -/
def runTask (remote : Remote σ) (job : ReadJob) (maxAttempts : Nat) (p : Partition) (world : σ) : TaskReport × σ :=
  runTaskFrom remote job p 0 (maxAttempts - 1) world

/-- a task for every partition -/
def run (remote : Remote σ) (job : ReadJob) (maxAttempts : Nat) : List Partition → σ → List TaskReport × σ
  | [], world => ([], world)
  | p :: ps, world =>
    let (report, world) := runTask remote job maxAttempts p world
    let (reports, world) := run remote job maxAttempts ps world
    (report :: reports, world)

/-- the rows of all partitions in order, or the first error among them -/
def collect (reports : List TaskReport) : Except ReadError (List Row) := do
  return (← reports.mapM fun t => t.outcome.result).flatten

end ReadJob

end PartitionedScan
