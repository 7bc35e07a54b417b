/-
Compiling filters to operator documents.

The document keeps the shape of the filter with a placeholder for every literal; the literals are listed beside it, in
the order of the placeholders. A leaf is checked first: its column, the number of its literals, each literal, and with a
schema that the column exists and takes the literals.

Under `dropUnsupported` a child of an `and` that does not compile is left out and its error recorded, as long as the
`and` stands under an even number of `not`s: leaving a conjunct out only widens the result there. An `and` that loses
all its children fails with the first error.
-/
import PartitionedScan.Filter.Basic
import PartitionedScan.Operator.Basic
import PartitionedScan.Schema
import PartitionedScan.Text.Blank

namespace PartitionedScan

/-- how many literals or children a function takes -/
inductive Arity where
  | zero
  | exactlyOne
  | atLeastOne
  deriving DecidableEq, Repr

namespace Arity

def allows : Arity → Nat → Bool
  | zero, n => n == 0
  | exactlyOne, n => n == 1
  | atLeastOne, n => 1 ≤ n

def text : Arity → String
  | zero => "0"
  | exactlyOne => "exactly 1"
  | atLeastOne => "at least 1"

end Arity

/-- why a predicate or a filter cannot be pushed to the remote engine -/
inductive CompileError where
  /-- the predicate has no filter that means the same -/
  | unsupportedPredicate (predicate : String)
  | emptyAttribute (function : String)
  | unknownAttribute (attr : String)
  | valueArity (function attr : String) (expected : Arity) (found : Nat)
  | childArity (function : String) (expected : Arity) (found : Nat)
  | nullLiteral (function attr : String)
  | nonFiniteFloat (function attr : String)
  | typeMismatch (function attr found : String)
  deriving DecidableEq, Repr

namespace CompileError

/-- the name of the kind of error -/
def code : CompileError → String
  | unsupportedPredicate _ => "UnsupportedPredicate"
  | emptyAttribute _ => "EmptyAttribute"
  | unknownAttribute _ => "UnknownAttribute"
  | valueArity .. => "ValueArity"
  | childArity .. => "ChildArity"
  | nullLiteral .. => "NullNotAllowed"
  | nonFiniteFloat .. => "NonFiniteFloat"
  | typeMismatch .. => "TypeMismatch"

def message : CompileError → String
  | unsupportedPredicate predicate => "cannot push down predicate: " ++ predicate
  | emptyAttribute function => function ++ " requires a non-empty attribute"
  | unknownAttribute attr => "unknown attribute '" ++ attr ++ "'"
  | valueArity function attr expected found =>
    function ++ "() on '" ++ attr ++ "' expects " ++ expected.text ++ " value(s) (got " ++ toString found ++ ")"
  | childArity function expected found =>
    function ++ "() expects " ++ expected.text ++ " child filter(s) (got " ++ toString found ++ ")"
  | nullLiteral function attr => function ++ "() on '" ++ attr ++ "' does not accept null literals"
  | nonFiniteFloat function attr => function ++ "() on '" ++ attr ++ "' requires a finite float literal"
  | typeMismatch function attr found => function ++ "() cannot compare '" ++ attr ++ "' with a " ++ found ++ " literal"

end CompileError

/-- what happens to a part that cannot be compiled -/
inductive FallbackPolicy where
  /-- the whole filter fails -/
  | strict
  /-- children of an `and` are left out where that only widens the result -/
  | dropUnsupported
  deriving DecidableEq, Repr

namespace Comparator

/-- the number of literals a comparison takes -/
def arity : Comparator → Arity
  | isDefined => .zero
  | oneOf => .atLeastOne
  | _ => .exactlyOne

/-- whether a comparison makes sense with a literal at all -/
def refusal? (c : Comparator) (attr : String) (v : Value) : Option CompileError :=
  let mismatch := CompileError.typeMismatch c.functionName attr v.typeName
  match v with
  | .null => some (.nullLiteral c.functionName attr)
  | .float x =>
    if !x.isFinite then some (.nonFiniteFloat c.functionName attr)
    else if c.isTextMatch then some mismatch else none
  | .string _ => none
  | .bool _ => if c.isTextMatch || c.isRange then some mismatch else none
  | .bytes _ => if c.isTextMatch || c.isRange then some mismatch else none
  | _ => if c.isTextMatch then some mismatch else none

end Comparator

namespace Combinator

/-- the number of children a composite takes -/
def arity : Combinator → Arity
  | not => .exactlyOne
  | _ => .atLeastOne

end Combinator

namespace Leaf

/-- what a schema has against a leaf -/
def schemaRefusal? (schema : Schema) (l : Leaf) : Option CompileError :=
  match schema.field? l.attr with
  | none => some (.unknownAttribute l.attr)
  | some field =>
    let fits (v : Value) : Bool := (!l.comparator.isRange || field.type.isOrderable) && field.type.accepts v
    (l.values.find? fun v => !fits v).map fun v =>
      .typeMismatch l.comparator.functionName l.attr v.typeName

/-- the first thing wrong with a leaf -/
def refusal? (schema : Option Schema) (l : Leaf) : Option CompileError :=
  let function := l.comparator.functionName
  if Text.isBlankText l.attr then some (.emptyAttribute function)
  else if !l.comparator.arity.allows l.values.length then
    some (.valueArity function l.attr l.comparator.arity l.values.length)
  else
    (l.values.findSome? (l.comparator.refusal? l.attr)).or (schema.bind fun s => l.schemaRefusal? s)

end Leaf

/-- the parameter that stands for the literal with this number -/
def placeholder (n : Nat) : String :=
  "shardscan_param_" ++ toString n

/-- a compiled part: its document, the literals it binds, and what was left out -/
structure Compiled (Document : Type) where
  document : Document
  values : List Value
  dropped : List CompileError
  deriving Repr

namespace Leaf

/-- placeholders for literals, numbered from `next` -/
def placeholders (next : Nat) : List Value → List Arg
  | [] => []
  | _ :: values => .ofOperator (.param (placeholder next)) :: placeholders (next + 1) values

/-- a leaf whose first placeholder is number `next` -/
def compile (schema : Option Schema) (next : Nat) (l : Leaf) : Except CompileError (Compiled Operator) :=
  match l.refusal? schema with
  | some e => .error e
  | none =>
    .ok ⟨⟨l.comparator.ns, l.comparator.functionName,
      .ofOperator (.column l.attr) :: placeholders next l.values⟩, l.values, []⟩

end Leaf

namespace Filter

mutual

/-- a filter whose first placeholder is number `next`; `negated` under an odd number of `not`s -/
def compileFrom (schema : Option Schema) (policy : FallbackPolicy) (negated : Bool) (next : Nat) :
    Filter → Except CompileError (Compiled Operator)
  | .leaf l => l.compile schema next
  | .composite function children =>
    if !function.arity.allows children.length then
      .error (.childArity function.functionName function.arity children.length)
    else
      let droppable := function == .and && !negated && policy == .dropUnsupported
      match compileAll schema policy droppable (negated ^^ (function == .not)) next children with
      | .error e => .error e
      | .ok ⟨[], _, e :: _⟩ => .error e
      | .ok r => .ok ⟨.op function.functionName r.document, r.values, r.dropped⟩

/-- children in order; one that fails is left out when `droppable` -/
def compileAll (schema : Option Schema) (policy : FallbackPolicy) (droppable negated : Bool) (next : Nat) :
    List Filter → Except CompileError (Compiled (List Arg))
  | [] => .ok ⟨[], [], []⟩
  | x :: xs =>
    match compileFrom schema policy negated next x with
    | .ok r =>
      match compileAll schema policy droppable negated (next + r.values.length) xs with
      | .ok rs => .ok ⟨.ofOperator r.document :: rs.document, r.values ++ rs.values, r.dropped ++ rs.dropped⟩
      | .error e => .error e
    | .error e =>
      if droppable then
        match compileAll schema policy droppable negated next xs with
        | .ok rs => .ok ⟨rs.document, rs.values, e :: rs.dropped⟩
        | .error e => .error e
      else .error e

end

end Filter

/-- a compiled filter: the operator for a `where`, the literals by placeholder, and what was left out -/
structure Compilation where
  document : Operator
  bindings : List (String × Value)
  dropped : List CompileError
  deriving DecidableEq, Repr

namespace Compilation

/-- nothing was left out -/
def isComplete (c : Compilation) : Bool :=
  c.dropped.isEmpty

end Compilation

namespace Filter

/-- the document and the bindings of a filter, or why it has none -/
def compile (schema : Option Schema) (policy : FallbackPolicy) (f : Filter) : Except CompileError Compilation :=
  match compileFrom schema policy false 0 f with
  | .error e => .error e
  | .ok r => .ok ⟨r.document, r.values.zipIdx.map fun (v, i) => (placeholder i, v), r.dropped⟩

end Filter

end PartitionedScan
