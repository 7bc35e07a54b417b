/-
Queries.

A query reads a source view and applies a chain of operators, with typed values for the parameters it names. Its plan
document is the operator `op:operators` whose first argument is `op:from-view`; that shape is kept by the type, since
the arguments of the source and the chain after it are stored apart. Editing never fails and never changes what is
there: operators are appended, parameters bound by name.
-/
import PartitionedScan.Operator.Document
import PartitionedScan.RowRange
import PartitionedScan.Filter.Compile

namespace PartitionedScan

/-- why a text is no plan -/
inductive QueryError where
  /-- not a JSON text, or not an operator -/
  | malformed
  | missingRoot
  | notAnOperatorChain (found : String)
  | missingSource
  deriving DecidableEq, Repr

namespace QueryError

def message : QueryError → String
  | malformed => "malformed plan document: not an operator in JSON"
  | missingRoot => "plan document must have a '$optic' root"
  | notAnOperatorChain found => "plan root must be op:operators (found " ++ found ++ ")"
  | missingSource => "plan must start with op:from-view"

end QueryError

/-- a view named by its schema, if any, and its own name -/
structure ViewName where
  schema : Option String
  name : String
  deriving DecidableEq, Repr

/-- arguments of the source, the operators after it, and the bound parameters -/
structure Query where
  source : List Arg
  chain : List Arg
  params : SortedMap Value
  deriving DecidableEq, Repr

namespace Query

/-- the key of the plan in a document -/
def rootKey : String := "$optic"

/-- the reserved parameter for the first row id of a fetch -/
def lowerParam : String := "shardscan_row_lower"

/-- the reserved parameter for the last row id of a fetch -/
def upperParam : String := "shardscan_row_upper"

/-- every row of a view -/
def fromView (view : ViewName) : Query :=
  ⟨[match view.schema with | some schema => .text schema | none => .scalar .null, .text view.name], [], SortedMap.empty⟩

/-- the query of a plan, with no parameter bound -/
def ofPlan (plan : Operator) : Except QueryError Query :=
  if plan.is "op" "operators" then
    match plan.args with
    | .node "op" "from-view" source :: chain => .ok ⟨source, chain, SortedMap.empty⟩
    | _ => .error .missingSource
  else .error (.notAnOperatorChain (plan.ns ++ ":" ++ plan.name))

/-- the query of a plan document, nested to any depth -/
def parse (text : String) : Except QueryError Query :=
  match Json.read? text with
  | none => .error .malformed
  | some doc =>
    match doc.member? rootKey with
    | none => .error .missingRoot
    | some root =>
      match Operator.ofJson? root with
      | none => .error .malformed
      | some plan => ofPlan plan

/-! ## Parts -/

/-- the plan as one operator -/
def plan (q : Query) : Operator :=
  .op "operators" (.node "op" "from-view" q.source :: q.chain)

/-- the operators after the source, in order of application -/
def steps (q : Query) : List Operator :=
  q.chain.filterMap Arg.operator?

/-- the source and the operators after it -/
def operators (q : Query) : List Operator :=
  q.plan.children

/-- the view that the source names -/
def sourceView (q : Query) : Option ViewName :=
  (q.source[1]?.bind Arg.string?).map fun name => ⟨q.source.head?.bind Arg.string?, name⟩

/-- whether the chain limits the number of rows -/
def hasLimit (q : Query) : Bool :=
  q.operators.any fun o => o.is "op" "limit"

/-! ## Edits -/

/-- appends an operator -/
def addOperator (q : Query) (o : Operator) : Query :=
  { q with chain := q.chain ++ [.ofOperator o] }

/-- keeps the rows on which an expression is true -/
def addWhere (q : Query) (expression : Operator) : Query :=
  q.addOperator (.op "where" [.ofOperator expression])

/-- keeps the named columns -/
def addSelect (q : Query) (columns : List String) : Query :=
  q.addOperator (.op "select" [.list (columns.map fun c => .ofOperator (.column c))])

/-- keeps the first rows -/
def addLimit (q : Query) (limit : UInt64) : Query :=
  q.addOperator (.op "limit" [.scalar (.number (.ofUInt64 limit))])

/-- binds a parameter, in place of an earlier value -/
def bind (q : Query) (name : String) (value : Value) : Query :=
  { q with params := q.params.insert name value }

/-- binds the row ids of one fetch; ids travel as decimal text -/
def bindRange (q : Query) (r : RowRange) : Query :=
  (q.bind lowerParam (.string (toString r.lower.toNat))).bind upperParam (.string (toString r.upper.toNat))

/-- keeps the rows on which a compiled filter is true, with its literals bound -/
def applyFilter (q : Query) (c : Compilation) : Query :=
  c.bindings.foldl (fun q b => q.bind b.1 b.2) (q.addWhere c.document)

/-! ## Printing -/

/-- the plan document -/
def toJson (q : Query) : Json :=
  .object [(rootKey, q.plan.toJson.canonical)]

/-- the text of the plan document -/
def render (q : Query) : String :=
  q.toJson.render

/-- the bound parameters: an object of type and wire form by name -/
def paramsJson (q : Query) : Json :=
  .object (q.params.entries.map fun (name, value) =>
    (name, .object [("type", .string value.typeName), ("value", value.toJson)]))

end Query

end PartitionedScan
