/-
Rows decoded against the declared columns.

A row has one value for every field of the schema, in field order. Remote engines write some scalars as text, so a
number may come as a string; beyond that a value must be of the column's type, and only a nullable column may be without
one. A payload decodes as a whole or not at all, and the first bad cell, row by row and field by field, is the one
reported.
-/
import PartitionedScan.Read.Error
import PartitionedScan.Decimal.Reader

namespace PartitionedScan

/-- a decoded record; its values follow the order of the fields -/
structure Row where
  values : List Value
  deriving DecidableEq, Repr

namespace Row

/-- the value of the column that a name resolves to -/
def get? (r : Row) (schema : Schema) (name : String) : Option Value :=
  (schema.indexOf? name).bind fun i => r.values[i]?

/-- the values by field name; of two fields with one name the last stands -/
def toObject (r : Row) (schema : Schema) : SortedMap Json :=
  SortedMap.ofList ((schema.fields.zip r.values).map fun (f, v) => (f.name, v.toJson))

def toJson (r : Row) (schema : Schema) : Json :=
  .object (r.toObject schema).entries

end Row

/-! ## Cells -/

namespace DataType

/-- the value of this type that a document other than null is -/
def decode? : DataType → Json → Option Value
  | boolean, .bool b => some (.bool b)
  | long, .number n => n.int64?.map .int
  | long, .string s => (Text.Integer.readInt64? s.toList).map .int
  | double, .number n => some (.float n.toBinary64)
  | double, .string s => (Binary64.readText? s.toList).map .float
  | string, .string s => some (.string s)
  | string, .number n => some (.string (Json.number n).render)
  | string, .bool b => some (.string (Json.bool b).render)
  | binary, .string s => (Text.Base64.decode? s.toList).map .bytes
  | date, .string s => (Calendar.parseDate s).map .date
  | timestamp, .string s => (Calendar.parseTimestamp s).map .dateTime
  | _, _ => none

end DataType

namespace Field

/-- the value of a cell; a missing one is null -/
def decode (f : Field) (raw : Json) : Except DecodeError Value :=
  if raw.isNull then
    if f.nullable then .ok .null else .error (.missingValue f.name)
  else
    match f.type.decode? raw with
    | some v => .ok v
    | none => .error (.mismatch f.name f.type raw)

end Field

/-! ## Payloads -/

/-- the rows of a payload text; containers nest at most 127 deep -/
def readPayload? (text : String) : Option (List (SortedMap Json)) := do
  match ← (← Json.Tree.read? text).fields? ["rows"] with
  | [some rows] => (← rows.items?).mapM (Json.Tree.row? 124)
  | [none] => pure []
  | _ => none

namespace Schema

/-- one row -/
def decodeRow (s : Schema) (raw : SortedMap Json) : Except DecodeError Row := do
  return ⟨← s.fields.mapM fun f => f.decode ((raw.get? f.name).getD .null)⟩

/-- the rows of a payload -/
def decodePayload (s : Schema) (payload : String) : Except DecodeError (List Row) :=
  match readPayload? payload with
  | none => .error .invalidPayload
  | some rows => rows.mapM s.decodeRow

end Schema

end PartitionedScan
