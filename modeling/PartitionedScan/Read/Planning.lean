/-
Planning a read.

One estimate decides the split: as many partitions as hinted but no more than rows, and in each as many buckets as hold
the rows of a partition at the batch size, up to a cap. A query with a limit is one bucket, because each bucket would
apply the limit on its own; a query without rows has no partitions.
-/
import PartitionedScan.Partitioning
import PartitionedScan.Remote.Basic
import PartitionedScan.Read.Error
import PartitionedScan.Settings.Reading

namespace PartitionedScan

namespace Partitioning

/-- the most buckets that a partition is cut into -/
def maxBuckets : Nat := 100000

/-- the least number of groups of `size` that hold `count` -/
def groupsOf (size count : Nat) : Nat :=
  (count + size - 1) / size

/-- partitions for a number of rows -/
def partitionCount (hint rows : Nat) : Nat :=
  max 1 (min hint rows)

/-- buckets of each partition for a number of rows -/
def bucketCountFor (partitions batchSize rows : Nat) : Nat :=
  min maxBuckets (max 1 (groupsOf batchSize (groupsOf partitions rows)))

/-- the split for an estimate -/
def ofEstimate (limited : Bool) (hint batchSize rows : Nat) : Partitioning :=
  if rows = 0 then empty
  else if limited then split .full 1 1 rows batchSize
  else
    let partitions := partitionCount hint rows
    split .full partitions (bucketCountFor partitions batchSize rows) rows batchSize

end Partitioning

namespace Remote

variable {σ : Type}

/-- the split of a query's result, from one estimate on an open connection -/
def plan (remote : Remote σ) (query : Query) (settings : ReadSettings) (world : σ) :
    Except ReadError Partitioning × σ :=
  match settings.validate with
  | .error e => (.error (.setting e), world)
  | .ok () =>
    let (answer, world) := remote.estimate query world
    match answer with
    | .ok rows => (.ok (.ofEstimate query.hasLimit settings.numPartitions settings.batchSize rows), world)
    | .error e =>
      match e.classify with
      | .noRows => (.ok .empty, world)
      | .fatal => (.error (.planning query.render e), world)

end Remote

end PartitionedScan
