/-
Settings in a file.

The file has two tables, `read` and `connection`, both of which may be missing; a table or a key that is not known is
refused, as is a value that is none of its key's kind. Whatever is set becomes an option under its full key. A table may
also be written as a list of all its values in order.
-/
import PartitionedScan.Settings.Connection
import PartitionedScan.Toml.Reader

namespace PartitionedScan

namespace Toml

/-- the values of known keys: an entry for each, or a list with at least as many items -/
def fields? (keys : List String) : Toml → Option (List (Option Toml))
  | .table _ entries => if entries.all fun e => keys.contains e.1 then some (keys.map fun key => entries.lookup key) else none
  | .list items => if keys.length ≤ items.length then some ((items.take keys.length).map some) else none
  | _ => none

def text? : Toml → Option String
  | .text s => some s
  | _ => none

/-- the text of a whole number below a bound -/
def natText? (bound : Nat) : Toml → Option String
  | .integer n => if 0 ≤ n ∧ n < bound then some (toString n.toNat) else none
  | _ => none

/-- an empty table or list -/
def isVoid : Toml → Bool
  | .table _ entries => entries.isEmpty
  | .list items => items.isEmpty
  | _ => false

/-- the name of an authentication, as text or as the only key of a table with nothing under it -/
def authName? : Toml → Option String
  | .text s => (AuthType.ofName? s).map AuthType.name
  | .table _ [(s, value)] => if value.isVoid then (AuthType.ofName? s).map AuthType.name else none
  | _ => none

end Toml

namespace Options

/-- the keys of a table with the option and the reader of each -/
abbrev FileSection := List (String × String × (Toml → Option String))

def readSection : FileSection :=
  [("num_partitions", numPartitions, Toml.natText? Text.Integer.count64), ("batch_size", batchSize, Toml.natText? Text.Integer.count64),
    ("query", query, Toml.text?)]

def connectionSection : FileSection :=
  [("uri", uri, Toml.text?), ("host", host, Toml.text?), ("port", port, Toml.natText? Text.Integer.count16),
    ("username", username, Toml.text?), ("password", password, Toml.text?), ("database", database, Toml.text?),
    ("auth_type", authType, Toml.authName?)]

/-- the options of one table -/
def ofSection? (fileSection : FileSection) (t : Toml) : Option (List (String × String)) := do
  let values ← t.fields? (fileSection.map Prod.fst)
  let set ← (fileSection.zip values).mapM fun ((_, key, read?), value) =>
    match value with
    | none => some none
    | some value => (read? value).map fun s => some (key, s)
  return set.filterMap id

/-- the options of a configuration file -/
def ofToml? (text : String) : Option Options := do
  let entries ← Toml.read? text
  match ← (Toml.table .header entries).fields? ["read", "connection"] with
  | [read, connection] =>
    let read ← ofSection? readSection (read.getD (.table .header []))
    let connection ← ofSection? connectionSection (connection.getD (.table .header []))
    return ofList (read ++ connection)
  | _ => none

end Options

end PartitionedScan
