/-
Ranges of row ids.

Rows are addressed by 64-bit ids, and a range holds both its ends, so that the last one can reach the largest id.
`split` cuts a range into parts of nearly equal width; it is meant for at least one part and at most as many parts as
the range has ids.
-/
import PartitionedScan.Json.Record

namespace PartitionedScan

/-- the ids from `lower` to `upper`, both included -/
structure RowRange where
  lower : UInt64
  upper : UInt64
  deriving DecidableEq, Repr

namespace RowRange

/-- every row id -/
def full : RowRange := ⟨0, 18446744073709551615⟩

def contains (r : RowRange) (id : UInt64) : Bool :=
  r.lower ≤ id && id ≤ r.upper

/-- the number of ids. An inverted range has none: the subtraction stops at zero where that of words would underflow. -/
def width (r : RowRange) : Nat :=
  r.upper.toNat + 1 - r.lower.toNat

/-- where part `i` of `parts` starts -/
def cut (r : RowRange) (parts i : Nat) : Nat :=
  r.lower.toNat + r.width * i / parts

/-- contiguous parts of nearly equal width; no parts count as one. With more parts than ids some part ends before it starts;
one that would end before id 0 ends there, for the subtraction stops at zero where that of words would underflow. -/
def split (r : RowRange) (parts : Nat) : List RowRange :=
  let parts := max parts 1
  (List.range parts).map fun i => ⟨UInt64.ofNat (r.cut parts i), UInt64.ofNat (r.cut parts (i + 1) - 1)⟩

def text (r : RowRange) : String :=
  "[" ++ toString r.lower.toNat ++ ", " ++ toString r.upper.toNat ++ "]"

def toJson (r : RowRange) : Json :=
  .object [("lower", .number (.ofUInt64 r.lower)), ("upper", .number (.ofUInt64 r.upper))]

def ofTree? (t : Json.Tree) : Option RowRange := do
  match ← t.fields? ["lower", "upper"] with
  | [some lower, some upper] => pure ⟨UInt64.ofNat (← lower.nat64?), UInt64.ofNat (← upper.nat64?)⟩
  | _ => none

end RowRange

end PartitionedScan
