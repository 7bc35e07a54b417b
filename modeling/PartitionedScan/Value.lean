/-
Typed literals.

A value is bound to a query, compared with a column or decoded from a row. It has three texts: the wire form
(`toJson`), where dates, timestamps and bytes are strings and whatever has no wire form is null; the tagged form
(`toTagged`, read by `ofTagged?`), which keeps the type; and the text shown to a reader (`text`).
-/
import PartitionedScan.Json.Record
import PartitionedScan.Json.Printer
import PartitionedScan.Calendar.Timestamp
import PartitionedScan.Text.Base64
import PartitionedScan.Text.Quoted

namespace PartitionedScan

/-- a literal with its type; dates count days and timestamps microseconds since 1970-01-01 -/
inductive Value where
  | null
  | bool (b : Bool)
  | int (n : Int64)
  | float (x : Binary64)
  | string (s : String)
  | bytes (data : List UInt8)
  | date (days : Int32)
  | dateTime (micros : Int64)
  deriving DecidableEq, Repr

namespace Value

instance : Inhabited Value := ⟨.null⟩

/-- the type under which a value is bound to a query -/
def typeName : Value → String
  | null => "xs:untypedAtomic"
  | bool _ => "xs:boolean"
  | int _ => "xs:long"
  | float _ => "xs:double"
  | string _ => "xs:string"
  | bytes _ => "xs:base64Binary"
  | date _ => "xs:date"
  | dateTime _ => "xs:dateTime"

def isNull : Value → Bool
  | null => true
  | _ => false

/-- the wire form; null for a float that is not finite and for a day or time outside the years that have a text -/
def toJson : Value → Json
  | null => .null
  | bool b => .bool b
  | int n => .number (.ofInt64 n)
  | float x => .ofBinary64 x
  | string s => .string s
  | bytes data => .string (String.ofList (Text.Base64.encode data))
  | date days => Json.ofOption .string (Calendar.formatDate days)
  | dateTime micros => Json.ofOption .string (Calendar.formatTimestamp micros)

/-! ## Tagged form -/

/-- the name of the type in the tagged form -/
def tag : Value → String
  | null => "Null"
  | bool _ => "Bool"
  | int _ => "Int"
  | float _ => "Float"
  | string _ => "String"
  | bytes _ => "Bytes"
  | date _ => "Date"
  | dateTime _ => "DateTime"

/-- what stands beside the tag -/
def content : Value → Json
  | null => .null
  | bool b => .bool b
  | int n => .number (.ofInt64 n)
  | float x => .ofBinary64 x
  | string s => .string s
  | bytes data => .array (data.map fun b => Json.ofNat b.toNat)
  | date days => .number (.ofInt32 days)
  | dateTime micros => .number (.ofInt64 micros)

/-- an object with the tag and, unless the value is null, the content -/
def toTagged (v : Value) : Json :=
  .object (("t", .string v.tag) :: if v.isNull then [] else [("v", v.content)])

def ofContent? (tag : String) (content : Json.Tree) : Option Value :=
  match tag, content with
  | "Null", .null => some null
  | "Bool", .bool b => some (bool b)
  | "Int", t => (t.int? Int64.minValue.toInt Int64.maxValue.toInt).map fun n => int (Int64.ofInt n)
  | "Float", t => t.number?.map fun n => float n.toBinary64
  | "String", t => t.text?.map string
  | "Bytes", .list items => (items.mapM fun item => (Json.Tree.int? 0 255 item).map fun n => UInt8.ofNat n.toNat).map bytes
  | "Date", t => (t.int? Int32.minValue.toInt Int32.maxValue.toInt).map fun n => date (Int32.ofInt n)
  | "DateTime", t => (t.int? Int64.minValue.toInt Int64.maxValue.toInt).map fun n => dateTime (Int64.ofInt n)
  | _, _ => none

/-- a value in tagged form: an object, where null needs no content, or a list of tag and content -/
def ofTagged? : Json.Tree → Option Value
  | .list [tag, content] => tag.name?.bind fun name => ofContent? name content
  | .record members => do
    match ← Json.Tree.fields? ["t", "v"] (.record members) with
    | [some tag, some content] => ofContent? (← tag.name?) content
    | [some tag, none] => if (← tag.name?) = "Null" then some null else none
    | _ => none
  | _ => none

/-! ## Text -/

/-- items between brackets -/
def bracketed (items : List String) : String :=
  "[" ++ ", ".intercalate items ++ "]"

/-- the value as a reader sees it, with its type -/
def text : Value → String
  | null => "Null"
  | bool b => "Bool(" ++ (if b then "true" else "false") ++ ")"
  | int n => "Int(" ++ toString n.toInt ++ ")"
  | float x => "Float(" ++ x.text ++ ")"
  | string s => "String(" ++ Text.Quoted.quote s ++ ")"
  | bytes data => "Bytes(" ++ bracketed (data.map fun b => toString b.toNat) ++ ")"
  | date days => "Date(" ++ toString days.toInt ++ ")"
  | dateTime micros => "DateTime(" ++ toString micros.toInt ++ ")"

end Value

end PartitionedScan
