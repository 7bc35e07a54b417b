/-
Evaluating expressions on rows.

An expression is true, false or unknown on a row; comparing with null is unknown. `and` and `or` stop at the first child
that decides them, so an error in a later child does not show. Columns are looked up by the last part of the reference,
a missing one is null, and a parameter stands for the wire form of its value.
-/
import PartitionedScan.Operator.Basic
import PartitionedScan.Remote.Error
import PartitionedScan.Value
import PartitionedScan.Filter.Basic

namespace PartitionedScan

/-- a row: its columns by name -/
abbrev JsonRow := SortedMap Json

/-- true, false, or unknown -/
abbrev Truth := Option Bool

namespace Json

/-- how two documents compare: numbers, strings and truth values with their like, nothing else -/
def order? : Json → Json → Option Ordering
  | .number a, .number b => a.order? b
  | .string a, .string b => some (compare a b)
  | .bool a, .bool b => some (compare a b)
  | _, _ => none

end Json

namespace Comparator

/-- the comparisons of one column with one value -/
def ofOrderName? : String → Option Comparator
  | "eq" => some .eq
  | "lt" => some .lt
  | "le" => some .le
  | "gt" => some .gt
  | "ge" => some .ge
  | _ => none

/-- the text comparisons -/
def ofTextName? : String → Option Comparator
  | "starts-with" => some .startsWith
  | "ends-with" => some .endsWith
  | "contains" => some .contains
  | _ => none

/-- whether an order is one that the comparison asks for -/
def holdsOn : Comparator → Ordering → Bool
  | eq, o => o == .eq
  | lt, o => o == .lt
  | le, o => o != .gt
  | gt, o => o == .gt
  | ge, o => o != .lt
  | _, _ => false

/-- whether a text has the other one where the comparison looks for it -/
def matchesText : Comparator → List Char → List Char → Bool
  | startsWith, text, part => part.isPrefixOf text
  | endsWith, text, part => part.isSuffixOf text
  | contains, text, part => Text.occursIn part text
  | _, _, _ => false

/-- one comparison of two documents: unknown beside null, false for kinds that do not compare -/
def truth (c : Comparator) (left right : Json) : Truth :=
  if left.isNull || right.isNull then none
  else if c.isTextMatch then
    match left, right with
    | .string text, .string part => some (c.matchesText text.toList part.toList)
    | _, _ => some false
  else
    match left.order? right with
    | some o => some (c.holdsOn o)
    | none => some false

end Comparator

/-- what an expression is evaluated on -/
structure Scope where
  params : SortedMap Value
  row : JsonRow

namespace Operator

/-- the text of a function -/
def title (o : Operator) : String :=
  o.ns ++ ":" ++ o.name

/-- the arguments, all of which have to be operators -/
def expressions (o : Operator) : Except RemoteError (List Operator) :=
  o.args.mapM fun arg =>
    match arg.operator? with
    | some child => .ok child
    | none => .error (.badPlan (o.title ++ " expects expression arguments (found " ++ arg.display ++ ")"))

/-- the value of a column reference or a parameter -/
def operand (scope : Scope) (o : Operator) : Except RemoteError Json :=
  if o.ns == "op" && ["col", "view-col", "schema-col"].contains o.name then
    match o.args.getLast?.bind Arg.string? with
    | some name => .ok ((scope.row.get? name).getD .null)
    | none => .error (.badPlan ("malformed column reference " ++ o.display))
  else if o.is "op" "param" then
    match o.args.head?.bind Arg.string? with
    | some name =>
      match scope.params.get? name with
      | some value => .ok value.toJson
      | none => .error (.badPlan ("unbound parameter '" ++ name ++ "'"))
    | none => .error (.badPlan ("malformed parameter " ++ o.display))
  else .error (.badPlan ("unsupported operand " ++ o.display))

/-- the values of exactly `count` operands -/
def operands (scope : Scope) (count : Nat) (o : Operator) : Except RemoteError (List Json) := do
  let nodes ← o.expressions
  if nodes.length = count then nodes.mapM (operand scope)
  else
    .error (.badPlan (o.title ++ " expects " ++ toString count ++ " argument(s) (got " ++ toString nodes.length ++ ")"))

/-- a comparison of two operands -/
def comparison (scope : Scope) (c : Comparator) (o : Operator) : Except RemoteError Truth := do
  match ← o.operands scope 2 with
  | [left, right] => return c.truth left right
  | _ => return none

/-- whether the column is equal to one of the candidates; those after a hit are not looked at -/
def membership (scope : Scope) (column : Json) : List Operator → Except RemoteError Truth
  | [] => .ok (some false)
  | candidate :: rest => do
    let value ← candidate.operand scope
    if column.order? value = some .eq then return some true else membership scope column rest

/-- an expression without subexpressions -/
def atom (scope : Scope) (o : Operator) : Except RemoteError Truth :=
  if o.is "op" "is-defined" then do
    match ← o.operands scope 1 with
    | [column] => return some (!column.isNull)
    | _ => return none
  else if o.is "op" "in" then do
    match ← o.expressions with
    | [] => .error (.badPlan "op:in expects arguments")
    | column :: candidates =>
      let column ← column.operand scope
      if column.isNull then return none else membership scope column candidates
  else
    match (if o.ns == "op" then Comparator.ofOrderName? o.name
      else if o.ns == "fn" then Comparator.ofTextName? o.name else none) with
    | some c => o.comparison scope c
    | none => .error (.badPlan ("unknown function " ++ o.title))

end Operator

namespace Arg

mutual

/-- the truth of an expression on a row -/
def truth (scope : Scope) : Arg → Except RemoteError Truth
  | .node ns name args => do
    let o : Operator := ⟨ns, name, args⟩
    if o.is "op" "and" then
      let _ ← o.expressions
      truthOfAll scope (some true) args
    else if o.is "op" "or" then
      let _ ← o.expressions
      truthOfAny scope (some false) args
    else if o.is "op" "not" then
      match ← o.expressions with
      | [_] => return (← truthOfFirst scope args).map (!·)
      | _ => .error (.badPlan "op:not expects one argument")
    else o.atom scope
  | _ => .error (.badPlan "not an expression")

/-- a conjunction of what is known so far with the rest; the first false one decides -/
def truthOfAll (scope : Scope) (sofar : Truth) : List Arg → Except RemoteError Truth
  | [] => .ok sofar
  | x :: xs => do
    match ← truth scope x with
    | some false => return some false
    | none => truthOfAll scope none xs
    | some true => truthOfAll scope sofar xs

/-- a disjunction of what is known so far with the rest; the first true one decides -/
def truthOfAny (scope : Scope) (sofar : Truth) : List Arg → Except RemoteError Truth
  | [] => .ok sofar
  | x :: xs => do
    match ← truth scope x with
    | some true => return some true
    | none => truthOfAny scope none xs
    | some false => truthOfAny scope sofar xs

def truthOfFirst (scope : Scope) : List Arg → Except RemoteError Truth
  | x :: _ => truth scope x
  | [] => .ok none

end

end Arg

namespace Operator

/-- the truth of an expression on a row -/
def truth (scope : Scope) (o : Operator) : Except RemoteError Truth :=
  (Arg.ofOperator o).truth scope

/-- whether an expression is true on a row; unknown is not -/
def holds (scope : Scope) (o : Operator) : Except RemoteError Bool := do
  return (← o.truth scope) == some true

/-- the columns that a select lists -/
def selectedColumns (o : Operator) : Except RemoteError (List String) :=
  match o.args with
  | .list items :: _ =>
    items.mapM fun item =>
      match item.operator? with
      | some column =>
        match column.args.getLast?.bind Arg.string? with
        | some name => .ok name
        | none => .error (.badPlan ("malformed column reference " ++ column.display))
      | none => .error (.badPlan ("unsupported select item " ++ item.display))
  | _ => .error (.badPlan "op:select expects a column list")

/-- the number of rows that a limit keeps -/
def limitCount (o : Operator) : Except RemoteError Nat :=
  match o.args with
  | .scalar value :: _ =>
    match value with
    | .number n =>
      match n.nat? with
      | some n => .ok n
      | none => .error (.badPlan ("invalid limit " ++ value.render))
    | _ => .error (.badPlan ("invalid limit " ++ value.render))
  | _ => .error (.badPlan "op:limit expects a number")

end Operator

end PartitionedScan
