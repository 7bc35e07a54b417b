/-
Predicates of the host that asks for rows, and their translation to filters.

`translate` gives a filter that means the same, or refuses: null-safe equality, the constants, comparisons with null and
empty or null-holding lists have none. A composite is refused as a whole, with the error of its first refused child.
-/
import PartitionedScan.Filter.Compile

namespace PartitionedScan

/-- a predicate as the host states it -/
inductive Predicate where
  | equalTo (attr : String) (value : Value)
  | equalNullSafe (attr : String) (value : Value)
  | greaterThan (attr : String) (value : Value)
  | greaterThanOrEqual (attr : String) (value : Value)
  | lessThan (attr : String) (value : Value)
  | lessThanOrEqual (attr : String) (value : Value)
  | oneOf (attr : String) (values : List Value)
  | isNull (attr : String)
  | isNotNull (attr : String)
  | and (left right : Predicate)
  | or (left right : Predicate)
  | not (child : Predicate)
  | startsWith (attr text : String)
  | endsWith (attr text : String)
  | contains (attr text : String)
  | alwaysTrue
  | alwaysFalse
  deriving DecidableEq, Repr

namespace Predicate

/-- the text of a comparison -/
def displayCall (name attr operand : String) : String :=
  name ++ "(" ++ attr ++ "," ++ operand ++ ")"

/-- the text of a predicate -/
def display : Predicate → String
  | equalTo attr v => displayCall "EqualTo" attr v.toJson.render
  | equalNullSafe attr v => displayCall "EqualNullSafe" attr v.toJson.render
  | greaterThan attr v => displayCall "GreaterThan" attr v.toJson.render
  | greaterThanOrEqual attr v => displayCall "GreaterThanOrEqual" attr v.toJson.render
  | lessThan attr v => displayCall "LessThan" attr v.toJson.render
  | lessThanOrEqual attr v => displayCall "LessThanOrEqual" attr v.toJson.render
  | oneOf attr vs => "In(" ++ attr ++ ", [" ++ ",".intercalate (vs.map fun v => v.toJson.render) ++ "])"
  | isNull attr => "IsNull(" ++ attr ++ ")"
  | isNotNull attr => "IsNotNull(" ++ attr ++ ")"
  | and left right => displayCall "And" left.display right.display
  | or left right => displayCall "Or" left.display right.display
  | not child => "Not(" ++ child.display ++ ")"
  | startsWith attr text => displayCall "StringStartsWith" attr text
  | endsWith attr text => displayCall "StringEndsWith" attr text
  | contains attr text => displayCall "StringContains" attr text
  | alwaysTrue => "AlwaysTrue"
  | alwaysFalse => "AlwaysFalse"

/-- a comparison with one literal; with null it has no filter -/
def single (p : Predicate) (attr : String) (comparator : Comparator) (v : Value) : Except CompileError Filter :=
  if v.isNull then .error (.unsupportedPredicate p.display) else .ok (.compare attr comparator v)

/-- the error of a composite whose child is refused -/
def childError : CompileError → CompileError
  | .unsupportedPredicate predicate => .unsupportedPredicate ("child predicate is not supported: " ++ predicate)
  | e => e

/-- the filter that means the same -/
def translate : Predicate → Except CompileError Filter
  | equalTo attr v => single (equalTo attr v) attr .eq v
  | greaterThan attr v => single (greaterThan attr v) attr .gt v
  | greaterThanOrEqual attr v => single (greaterThanOrEqual attr v) attr .ge v
  | lessThan attr v => single (lessThan attr v) attr .lt v
  | lessThanOrEqual attr v => single (lessThanOrEqual attr v) attr .le v
  | oneOf attr vs =>
    if vs.isEmpty || vs.any Value.isNull then .error (.unsupportedPredicate (oneOf attr vs).display)
    else .ok (.leaf ⟨attr, .oneOf, vs⟩)
  | isNotNull attr => .ok (.isDefined attr)
  | isNull attr => .ok (.composite .not [.isDefined attr])
  | startsWith attr text => .ok (.compare attr .startsWith (.string text))
  | endsWith attr text => .ok (.compare attr .endsWith (.string text))
  | contains attr text => .ok (.compare attr .contains (.string text))
  | and left right =>
    match left.translate with
    | .error e => .error (childError e)
    | .ok l => match right.translate with
      | .error e => .error (childError e)
      | .ok r => .ok (.composite .and [l, r])
  | or left right =>
    match left.translate with
    | .error e => .error (childError e)
    | .ok l => match right.translate with
      | .error e => .error (childError e)
      | .ok r => .ok (.composite .or [l, r])
  | not child =>
    match child.translate with
    | .error e => .error (childError e)
    | .ok c => .ok (.composite .not [c])
  | equalNullSafe attr v => .error (.unsupportedPredicate (equalNullSafe attr v).display)
  | alwaysTrue => .error (.unsupportedPredicate alwaysTrue.display)
  | alwaysFalse => .error (.unsupportedPredicate alwaysFalse.display)

end Predicate

end PartitionedScan
