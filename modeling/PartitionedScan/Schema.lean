/-
Declared columns.

A `Schema` lists the fields of a row in output order. A name resolves to the field that has it in full, else to the
field named like its last dotted segment. `accepts` says which literals may be compared with a column of a type, and
`isOrderable` which types have an order.
-/
import PartitionedScan.Value
import PartitionedScan.Text.Search

namespace PartitionedScan

/-- the type of a column -/
inductive DataType where
  | boolean
  | long
  | double
  | string
  | binary
  | date
  | timestamp
  deriving DecidableEq, Repr

namespace DataType

/-- whether range comparisons make sense -/
def isOrderable : DataType → Bool
  | boolean => false
  | binary => false
  | _ => true

/-- whether a literal may be compared with a column of this type -/
def accepts : DataType → Value → Bool
  | boolean, .bool _ => true
  | long, .int _ => true
  | double, .int _ => true
  | double, .float _ => true
  | string, .string _ => true
  | binary, .bytes _ => true
  | date, .date _ => true
  | timestamp, .dateTime _ => true
  | _, _ => false

/-- the name in a schema document -/
def name : DataType → String
  | boolean => "boolean"
  | long => "long"
  | double => "double"
  | string => "string"
  | binary => "binary"
  | date => "date"
  | timestamp => "timestamp"

/-- the name shown in messages -/
def label : DataType → String
  | boolean => "Boolean"
  | long => "Long"
  | double => "Double"
  | string => "String"
  | binary => "Binary"
  | date => "Date"
  | timestamp => "Timestamp"

def ofName? (s : String) : Option DataType :=
  [boolean, long, double, string, binary, date, timestamp].find? fun t => t.name == s

end DataType

/-- a column: its name, its type, and whether it may be without a value -/
structure Field where
  name : String
  type : DataType
  nullable : Bool
  deriving DecidableEq, Repr

namespace Field

def toJson (f : Field) : Json :=
  .object [("name", .string f.name), ("type", .string f.type.name), ("nullable", .bool f.nullable)]

/-- a column is nullable unless the document says otherwise -/
def ofTree? (t : Json.Tree) : Option Field := do
  match ← t.fields? ["name", "type", "nullable"] with
  | [some name, some type, nullable] =>
    let name ← name.text?
    let type ← DataType.ofName? (← type.name?)
    match nullable with
    | some nullable => pure ⟨name, type, ← nullable.bool?⟩
    | none => pure ⟨name, type, true⟩
  | _ => none

end Field

/-- the columns of a row, in output order -/
structure Schema where
  fields : List Field
  deriving DecidableEq, Repr

namespace Schema

def size (s : Schema) : Nat :=
  s.fields.length

def isEmpty (s : Schema) : Bool :=
  s.fields.isEmpty

/-- the last dotted segment of a name -/
def shortName (name : String) : String :=
  String.ofList (Text.lastSegment '.' name.toList)

/-- the place of a column: by the full name, else by its last segment -/
def indexOf? (s : Schema) (name : String) : Option Nat :=
  (s.fields.findIdx? fun f => f.name == name).or (s.fields.findIdx? fun f => f.name == shortName name)

/-- the column that a name resolves to -/
def field? (s : Schema) (name : String) : Option Field :=
  (s.indexOf? name).bind fun i => s.fields[i]?

/-- the schema cut down to the named columns, in the order given -/
def project? (s : Schema) (columns : List String) : Option Schema :=
  (columns.mapM s.field?).map Schema.mk

def toJson (s : Schema) : Json :=
  .object [("fields", .array (s.fields.map Field.toJson))]

end Schema

end PartitionedScan
