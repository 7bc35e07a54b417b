/-
What a reader counts.

One entry for every bucket fetched and decoded, in the order of reading; failed attempts leave none. A `RowTally` sums
the metrics of the readers that reported to it.
-/
import PartitionedScan.Json.Printer
import PartitionedScan.Decimal.Printer

namespace PartitionedScan

/-- a bucket that was read, and the time it took in nanoseconds -/
structure BucketMetrics where
  bucket : Nat
  rows : Nat
  nanos : Nat
  deriving DecidableEq, Repr

/-- the buckets that the reader of a partition has read -/
structure PartitionMetrics where
  partition : Nat
  buckets : List BucketMetrics
  deriving DecidableEq, Repr

/-- nanoseconds in a second -/
def nanosPerSecond : Nat := 1000000000

namespace PartitionMetrics

/-- nothing read yet -/
def empty (partition : Nat) : PartitionMetrics := ⟨partition, []⟩

/-- one more bucket -/
def record (m : PartitionMetrics) (bucket rows nanos : Nat) : PartitionMetrics :=
  { m with buckets := m.buckets ++ [⟨bucket, rows, nanos⟩] }

/-- requests that gave rows -/
def requestCount (m : PartitionMetrics) : Nat :=
  m.buckets.length

def rowCount (m : PartitionMetrics) : Nat :=
  m.buckets.foldl (fun n b => n + b.rows) 0

/-- the time of all buckets, in nanoseconds -/
def totalNanos (m : PartitionMetrics) : Nat :=
  m.buckets.foldl (fun n b => n + b.nanos) 0

/-- a time as a float of seconds: whole seconds and the fraction are rounded apart -/
def secondsOf (nanos : Nat) : Binary64 :=
  (Binary64.ofInt (nanos / nanosPerSecond)).add
    ((Binary64.ofInt (nanos % nanosPerSecond)).div (Binary64.ofInt nanosPerSecond))

/-- rows by second; 0 when no time passed -/
def rowsPerSecond (m : PartitionMetrics) : Binary64 :=
  let seconds := secondsOf m.totalNanos
  if seconds.isZero then .zero else (Binary64.ofInt m.rowCount).div seconds

/-! ## Documents -/

/-- the totals -/
def summary (m : PartitionMetrics) : Json :=
  .object [("partitionId", .ofNat m.partition), ("rowsPerSecond", .string m.rowsPerSecond.twoPlaces),
    ("totalDuration", .ofNat (m.totalNanos / 1000000)), ("totalRequests", .ofNat m.requestCount),
    ("totalRowCount", .ofNat m.rowCount)]

/-- one entry for every bucket -/
def toJson (m : PartitionMetrics) : Json :=
  .object [("partition_id", .ofNat m.partition),
    ("buckets", .array (m.buckets.map fun b =>
      .object [("bucket", .ofNat b.bucket), ("rows", .ofNat b.rows),
        ("duration", .object [("secs", .ofNat (b.nanos / nanosPerSecond)), ("nanos", .ofNat (b.nanos % nanosPerSecond))])]))]

end PartitionMetrics

/-- rows and readers reported so far -/
structure RowTally where
  total : Nat
  readers : Nat
  deriving DecidableEq, Repr

namespace RowTally

def empty : RowTally := ⟨0, 0⟩

/-- one more reader -/
def add (t : RowTally) (m : PartitionMetrics) : RowTally :=
  ⟨t.total + m.rowCount, t.readers + 1⟩

end RowTally

end PartitionedScan
