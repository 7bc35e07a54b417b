/-
An opened read.

Opening checks the settings, connects once to check the engine and plan the split, and releases that connection again,
whatever comes of it. Everything after works from the split made here.
-/
import PartitionedScan.Read.Planning

namespace PartitionedScan

/-- what every reader of an opened read needs -/
structure ReadJob where
  partitioning : Partitioning
  query : Query
  schema : Schema
  connection : Connection
  deriving DecidableEq, Repr

namespace ReadJob

variable {σ : Type}

/-- checks an open connection and plans the split on it -/
def planOn (remote : Remote σ) (query : Query) (settings : ReadSettings) (world : σ) :
    Except ReadError Partitioning × σ :=
  let (status, world) := remote.check world
  if status.connected then remote.plan query settings world
  else (.error (.connection status.statusCode status.message), world)

/-- opens the read of a query -/
def prepare (remote : Remote σ) (query : Query) (schema : Schema) (connection : Connection) (settings : ReadSettings)
    (world : σ) : Except ReadError ReadJob × σ :=
  match settings.validate with
  | .error e => (.error (.setting e), world)
  | .ok () =>
    match remote.connect connection world with
    | (.error e, world) => (.error (.connection (e.statusCode?.getD 0) e.message), world)
    | (.ok (), world) =>
      let (plan, world) := planOn remote query settings world
      (plan.map fun partitioning => ⟨partitioning, query, schema, connection⟩, remote.release world)

/-- the settings, the query and the connection that options describe -/
def readOptions (processors : Nat) (o : Options) : Except SettingError (ReadSettings × Query × Connection) := do
  let settings ← ReadSettings.ofOptions processors o
  return (settings, ← settings.query, ← Connection.ofOptions o)

/-- opens the read that options describe -/
def prepareFromOptions (remote : Remote σ) (processors : Nat) (o : Options) (schema : Schema) (world : σ) :
    Except ReadError ReadJob × σ :=
  match readOptions processors o with
  | .error e => (.error (.setting e), world)
  | .ok (settings, query, connection) => prepare remote query schema connection settings world

end ReadJob

end PartitionedScan
