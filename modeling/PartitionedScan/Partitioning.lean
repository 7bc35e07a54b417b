/-
How the result of a query is split into independently readable parts.

The space of row ids is cut into contiguous partitions, the units of parallel work, and each partition into contiguous
buckets, each read with one request. `coversAllRows` tells whether the buckets, one after another, meet every row id
exactly once; a result without partitions has nothing to cover.
-/
import PartitionedScan.RowRange

namespace PartitionedScan

/-- a piece of a partition that one request reads; `index` is its place in the partition -/
structure Bucket where
  index : Nat
  range : RowRange
  deriving DecidableEq, Repr

/-- a unit of parallel work, its buckets in the order in which they are read -/
structure Partition where
  id : Nat
  buckets : List Bucket
  deriving DecidableEq, Repr

/-- the partitions of a result, with the number of rows expected and the number of rows meant for one bucket -/
structure Partitioning where
  partitions : List Partition
  estimatedRows : Nat
  batchSize : Nat
  deriving DecidableEq, Repr

namespace Bucket

/-- ranges as buckets, numbered from 0 -/
def number (ranges : List RowRange) : List Bucket :=
  ranges.zipIdx.map fun (range, index) => ⟨index, range⟩

def toJson (b : Bucket) : Json :=
  .object [("index", .ofNat b.index), ("range", b.range.toJson)]

def ofTree? (t : Json.Tree) : Option Bucket := do
  match ← t.fields? ["index", "range"] with
  | [some index, some range] => pure ⟨← index.nat64?, ← RowRange.ofTree? range⟩
  | _ => none

end Bucket

namespace Partition

/-- from the first id of the first bucket to the last id of the last one -/
def range? (p : Partition) : Option RowRange :=
  match p.buckets.head?, p.buckets.getLast? with
  | some first, some last => some ⟨first.range.lower, last.range.upper⟩
  | _, _ => none

def toJson (p : Partition) : Json :=
  .object [("id", .ofNat p.id), ("buckets", .array (p.buckets.map Bucket.toJson))]

def ofTree? (t : Json.Tree) : Option Partition := do
  match ← t.fields? ["id", "buckets"] with
  | [some id, some buckets] => pure ⟨← id.nat64?, ← (← buckets.items?).mapM Bucket.ofTree?⟩
  | _ => none

end Partition

namespace Partitioning

/-- the split of a result without rows -/
def empty : Partitioning := ⟨[], 0, 0⟩

/-- a range in `partitionCount` partitions of `bucketsEach` buckets -/
def split (range : RowRange) (partitionCount bucketsEach estimatedRows batchSize : Nat) : Partitioning :=
  ⟨(range.split partitionCount).zipIdx.map fun (part, id) => ⟨id, Bucket.number (part.split bucketsEach)⟩,
    estimatedRows, batchSize⟩

def isEmpty (p : Partitioning) : Bool :=
  p.partitions.isEmpty

/-- the buckets of all partitions in order -/
def buckets (p : Partitioning) : List Bucket :=
  p.partitions.flatMap Partition.buckets

def bucketCount (p : Partitioning) : Nat :=
  p.buckets.length

/-- whether buckets cover the ids from `next` to the largest one, in order and without gaps; `next` is past it when
that id is behind -/
def coversFrom (next : Nat) : List Bucket → Bool
  | [] => next == Text.Integer.count64
  | b :: bs =>
    b.range.lower.toNat == next && b.range.lower ≤ b.range.upper && coversFrom (b.range.upper.toNat + 1) bs

/-- whether the buckets meet every row id exactly once, in order -/
def coversAllRows (p : Partitioning) : Bool :=
  p.isEmpty || coversFrom 0 p.buckets

def toJson (p : Partitioning) : Json :=
  .object [("partitions", .array (p.partitions.map Partition.toJson)), ("estimated_rows", .ofNat p.estimatedRows),
    ("batch_size", .ofNat p.batchSize)]

def ofTree? (t : Json.Tree) : Option Partitioning := do
  match ← t.fields? ["partitions", "estimated_rows", "batch_size"] with
  | [some partitions, some estimatedRows, some batchSize] =>
    pure ⟨← (← partitions.items?).mapM Partition.ofTree?, ← estimatedRows.nat64?, ← batchSize.nat64?⟩
  | _ => none

end Partitioning

end PartitionedScan
