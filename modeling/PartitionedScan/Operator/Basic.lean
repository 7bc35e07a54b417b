/-
Operators of the remote engine's wire format.

An operator is a function in a namespace with arguments; an argument is another operator, a list of arguments, or a JSON
scalar. A column reference names the column alone, with its view, or with its schema and view, by the number of dots.
-/
import PartitionedScan.Json.Printer
import PartitionedScan.Text.Search

namespace PartitionedScan

/-- an argument of an operator -/
inductive Arg where
  | node (ns name : String) (args : List Arg)
  | list (items : List Arg)
  | scalar (value : Json)
  deriving Repr

/-- a function in a namespace, applied to arguments -/
structure Operator where
  ns : String
  name : String
  args : List Arg
  deriving Repr

namespace Arg

instance : Inhabited Arg := ⟨.list []⟩

mutual

def beq : Arg → Arg → Bool
  | .node n f xs, .node m g ys => n == m && f == g && beqAll xs ys
  | .list xs, .list ys => beqAll xs ys
  | .scalar a, .scalar b => a == b
  | _, _ => false

def beqAll : List Arg → List Arg → Bool
  | [], [] => true
  | x :: xs, y :: ys => beq x y && beqAll xs ys
  | _, _ => false

end

mutual

theorem beq_iff : ∀ a b : Arg, beq a b = true ↔ a = b
  | .node _ _ xs, b => by cases b <;> simp [beq, beqAll_iff xs, and_assoc]
  | .list xs, b => by cases b <;> simp [beq, beqAll_iff xs]
  | .scalar _, b => by cases b <;> simp [beq]

theorem beqAll_iff : ∀ xs ys : List Arg, beqAll xs ys = true ↔ xs = ys
  | [], ys => by cases ys <;> simp [beqAll]
  | x :: xs, ys => by cases ys <;> simp [beqAll, beq_iff x, beqAll_iff xs]

end

instance : DecidableEq Arg := fun a b => decidable_of_iff _ (beq_iff a b)

/-- a text as an argument -/
def text (s : String) : Arg :=
  .scalar (.string s)

/-- an operator as an argument -/
def ofOperator (op : Operator) : Arg :=
  .node op.ns op.name op.args

/-- the operator that an argument is -/
def operator? : Arg → Option Operator
  | .node ns name args => some ⟨ns, name, args⟩
  | _ => none

/-- the string that an argument is -/
def string? : Arg → Option String
  | .scalar (.string s) => some s
  | _ => none

end Arg

namespace Operator

instance : DecidableEq Operator := fun a b =>
  decidable_of_iff (a.ns = b.ns ∧ a.name = b.name ∧ a.args = b.args) (by cases a; cases b; simp)

/-- an operator of the namespace for plans and truth functions -/
def op (name : String) (args : List Arg) : Operator :=
  ⟨"op", name, args⟩

/-- whether the operator is the named function -/
def is (o : Operator) (ns name : String) : Bool :=
  o.ns == ns && o.name == name

/-- a reference to a column; one dot separates the view, two dots schema and view -/
def column (attr : String) : Operator :=
  match (Text.segments '.' attr.toList).map String.ofList with
  | [view, name] => op "view-col" [.text view, .text name]
  | [schema, view, name] => op "schema-col" [.text schema, .text view, .text name]
  | _ => op "col" [.text attr]

/-- a reference to a parameter -/
def param (name : String) : Operator :=
  op "param" [.text name]

/-- the operators among the arguments, in order -/
def children (o : Operator) : List Operator :=
  o.args.filterMap Arg.operator?

end Operator

/-! ## Printing -/

namespace Arg

mutual

/-- the document of an argument; an operator shows namespace, function and arguments in this order -/
def toJson : Arg → Json
  | .node ns name args => .object [("ns", .string ns), ("fn", .string name), ("args", .array (toJsonAll args))]
  | .list items => .array (toJsonAll items)
  | .scalar value => value

def toJsonAll : List Arg → List Json
  | [] => []
  | x :: xs => toJson x :: toJsonAll xs

end

mutual

/-- the text of an argument for a reader, after `done` -/
def appendText (done : String) : Arg → String
  | .node ns name args => appendTexts (done ++ ns ++ ":" ++ name ++ "(") true args ++ ")"
  | .list items => appendTexts (done ++ "[") true items ++ "]"
  | .scalar value => done ++ value.render

/-- the texts of arguments, after a comma unless it is the first -/
def appendTexts (done : String) (first : Bool) : List Arg → String
  | [] => done
  | x :: xs => appendTexts (appendText (if first then done else done ++ ", ") x) false xs

end

/-- the text of an argument for a reader -/
def display (a : Arg) : String :=
  appendText "" a

end Arg

namespace Operator

def toJson (o : Operator) : Json :=
  (Arg.ofOperator o).toJson

/-- the text of the document -/
def render (o : Operator) : String :=
  o.toJson.render

/-- the text for a reader: `ns:name(args)` -/
def display (o : Operator) : String :=
  Arg.appendText "" (.ofOperator o)

end Operator

end PartitionedScan
