/-
The views that an engine serves.

A view is addressed by its name and, if it has one, its schema. Each row carries a 64-bit id, hashed from the view and
the place of the row, and the rows are kept in the order of their ids; rows with one id keep the order in which they
were given.
-/
import PartitionedScan.Operator.Evaluation
import PartitionedScan.Query
import PartitionedScan.Text.Hash

namespace PartitionedScan

/-- a view as it is written down -/
structure ViewData where
  schema : Option String
  name : String
  fields : List Field
  rows : List JsonRow
  deriving DecidableEq, Repr

namespace ViewData

/-- a view of a document; containers inside a row nest at most `room` deep -/
def ofTree? (room : Nat) (t : Json.Tree) : Option ViewData := do
  match ← t.fields? ["schema", "name", "fields", "rows"] with
  | [schema, some name, some fields, rows] =>
    let schema ← match schema with
      | none => pure none
      | some .null => pure none
      | some schema => schema.text?.map some
    let name ← name.text?
    let fields ← (← fields.items?).mapM Field.ofTree?
    match rows with
    | some rows => pure ⟨schema, name, fields, ← (← rows.items?).mapM (Json.Tree.row? room)⟩
    | none => pure ⟨schema, name, fields, []⟩
  | _ => none

end ViewData

/-- the views of a dataset text; containers nest at most 127 deep -/
def readDataset? (text : String) : Option (List ViewData) := do
  match ← (← Json.Tree.read? text).fields? ["views"] with
  | [some views] => (← views.items?).mapM (ViewData.ofTree? 122)
  | _ => none

/-- a view with its rows by id -/
structure View where
  schema : Option String
  name : String
  fields : List Field
  rows : List (UInt64 × JsonRow)
  ordered : rows.Pairwise fun a b => a.1 ≤ b.1

namespace View

/-- the seed of the row ids -/
def seed : UInt64 := 0x53485244

/-- the text that stands for a row: the qualified view and the place of the row -/
def rowKey (schema : Option String) (name : String) (place : Nat) : String :=
  (match schema with | some schema => schema ++ "." ++ name | none => name) ++ "#" ++ toString place

def rowId (schema : Option String) (name : String) (place : Nat) : UInt64 :=
  Text.Hash.ofText seed (rowKey schema name place)

/-- whether a row may stand before another -/
def idLe (a b : UInt64 × JsonRow) : Bool :=
  a.1 ≤ b.1

/-- rows in the order of their ids -/
def sortRows (rows : List (UInt64 × JsonRow)) : List (UInt64 × JsonRow) :=
  rows.mergeSort idLe

theorem sortRows_ordered (rows : List (UInt64 × JsonRow)) : (sortRows rows).Pairwise fun a b => a.1 ≤ b.1 := by
  have trans (a b c : UInt64 × JsonRow) (hab : idLe a b = true) (hbc : idLe b c = true) : idLe a c = true :=
    decide_eq_true (UInt64.le_trans (of_decide_eq_true hab) (of_decide_eq_true hbc))
  have total (a b : UInt64 × JsonRow) : (idLe a b || idLe b a) = true := by
    simp [idLe, UInt64.le_total]
  exact (List.pairwise_mergeSort trans total rows).imp fun h => of_decide_eq_true h

/-- a view with given row ids -/
def ofRows (schema : Option String) (name : String) (fields : List Field) (rows : List (UInt64 × JsonRow)) : View :=
  ⟨schema, name, fields, sortRows rows, sortRows_ordered rows⟩

/-- a view as written, its row ids hashed -/
def ofData (d : ViewData) : View :=
  ofRows d.schema d.name d.fields (d.rows.zipIdx.map fun (row, place) => (rowId d.schema d.name place, row))

/-- whether a reference means this view; one without a schema means any -/
def answersTo (v : View) (reference : ViewName) : Bool :=
  v.name == reference.name && (reference.schema.isNone || v.schema == reference.schema)

/-- the rows whose id lies in a range -/
def rowsIn (v : View) (range : RowRange) : List JsonRow :=
  (v.rows.filter fun r => range.contains r.1).map Prod.snd

end View

end PartitionedScan
