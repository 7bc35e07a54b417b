/-
Settings of a read: how many partitions to aim for, how many rows a bucket should hold, and the plan to read.

Both hints are whole numbers of at least one; blanks around them are fine.
-/
import PartitionedScan.Settings.Error
import PartitionedScan.Text.Blank

namespace PartitionedScan

namespace Options

/-- the positive number stored under a key -/
def positive? (o : Options) (key : String) : Except SettingError (Option Nat) :=
  match o.get? key with
  | none => .ok none
  | some raw =>
    match Text.Integer.readInt64? (Text.trimmed raw.toList) with
    | none => .error (.notNumeric key)
    | some n => if n < 1 then .error (.belowOne key) else .ok (some n.toInt.toNat)

end Options

/-- the settings of a read -/
structure ReadSettings where
  numPartitions : Nat
  batchSize : Nat
  plan : Option String
  deriving DecidableEq, Repr

namespace ReadSettings

/-- rows of a bucket unless an option says otherwise -/
def defaultBatchSize : Nat := 10000

/-- the settings that options make; without a hint there are as many partitions as the machine has processors -/
def ofOptions (processors : Nat) (o : Options) : Except SettingError ReadSettings := do
  let partitions ← o.positive? Options.numPartitions
  let batch ← o.positive? Options.batchSize
  return ⟨partitions.getD processors, batch.getD defaultBatchSize, o.get? Options.query⟩

/-- both hints are at least one -/
def validate (s : ReadSettings) : Except SettingError Unit :=
  if s.numPartitions < 1 then .error (.belowOne Options.numPartitions)
  else if s.batchSize < 1 then .error (.belowOne Options.batchSize)
  else .ok ()

/-- the query of the plan -/
def query (s : ReadSettings) : Except SettingError Query :=
  match s.plan with
  | none => .error .noQuery
  | some text =>
    match Query.parse text with
    | .ok q => .ok q
    | .error e => .error (.invalidPlan e)

end ReadSettings

end PartitionedScan
