/-
Filter trees.

A leaf compares a column with literals; a composite joins its children by and, or, not. Nothing in the type keeps a
leaf from having the wrong number of literals or a composite the wrong number of children: that is for the compiler
to refuse.
-/
import PartitionedScan.Value

namespace PartitionedScan

/-- how a leaf compares its column -/
inductive Comparator where
  | eq
  | lt
  | le
  | gt
  | ge
  /-- equal to one of several literals -/
  | oneOf
  /-- the column has a value -/
  | isDefined
  | startsWith
  | endsWith
  | contains
  deriving DecidableEq, Repr

namespace Comparator

/-- the function of the wire format, and the name in a filter document -/
def functionName : Comparator → String
  | eq => "eq"
  | lt => "lt"
  | le => "le"
  | gt => "gt"
  | ge => "ge"
  | oneOf => "in"
  | isDefined => "is-defined"
  | startsWith => "starts-with"
  | endsWith => "ends-with"
  | contains => "contains"

/-- the name shown to a reader -/
def label : Comparator → String
  | eq => "Eq"
  | lt => "Lt"
  | le => "Le"
  | gt => "Gt"
  | ge => "Ge"
  | oneOf => "In"
  | isDefined => "IsDefined"
  | startsWith => "StartsWith"
  | endsWith => "EndsWith"
  | contains => "Contains"

/-- compares by order -/
def isRange : Comparator → Bool
  | lt | le | gt | ge => true
  | _ => false

/-- compares text only -/
def isTextMatch : Comparator → Bool
  | startsWith | endsWith | contains => true
  | _ => false

/-- the namespace of the function: text functions have their own -/
def ns (c : Comparator) : String :=
  if c.isTextMatch then "fn" else "op"

def all : List Comparator :=
  [eq, lt, le, gt, ge, oneOf, isDefined, startsWith, endsWith, contains]

def ofName? (s : String) : Option Comparator :=
  all.find? fun c => c.functionName == s

@[simp] theorem ofName?_functionName (c : Comparator) : ofName? c.functionName = some c := by
  cases c <;> decide

theorem functionName_injective : Function.Injective functionName := by
  intro c d h
  have hname := congrArg ofName? h
  rw [ofName?_functionName, ofName?_functionName] at hname
  exact Option.some.inj hname

end Comparator

/-- how a composite joins its children -/
inductive Combinator where
  | and
  | or
  | not
  deriving DecidableEq, Repr

namespace Combinator

/-- the function of the wire format, and the name in a filter document -/
def functionName : Combinator → String
  | and => "and"
  | or => "or"
  | not => "not"

/-- the name shown to a reader -/
def label : Combinator → String
  | and => "And"
  | or => "Or"
  | not => "Not"

def ofName? (s : String) : Option Combinator :=
  [and, or, not].find? fun c => c.functionName == s

@[simp] theorem ofName?_functionName (c : Combinator) : ofName? c.functionName = some c := by
  cases c <;> decide

theorem functionName_injective : Function.Injective functionName := by
  intro c d h
  have hname := congrArg ofName? h
  rw [ofName?_functionName, ofName?_functionName] at hname
  exact Option.some.inj hname

end Combinator

/-- a comparison of a column with literals; the column may be qualified by a view, or by a schema and a view -/
structure Leaf where
  attr : String
  comparator : Comparator
  values : List Value
  deriving DecidableEq, Repr

/-- a filter tree -/
inductive Filter where
  | leaf (l : Leaf)
  | composite (function : Combinator) (children : List Filter)
  deriving Repr

namespace Filter

instance : Inhabited Filter := ⟨.composite .and []⟩

/-- one comparison with one literal -/
def compare (attr : String) (comparator : Comparator) (value : Value) : Filter :=
  .leaf ⟨attr, comparator, [value]⟩

/-- the column has a value -/
def isDefined (attr : String) : Filter :=
  .leaf ⟨attr, .isDefined, []⟩

/-! ## Equality -/

mutual

def beq : Filter → Filter → Bool
  | .leaf a, .leaf b => a == b
  | .composite f xs, .composite g ys => f == g && beqAll xs ys
  | _, _ => false

def beqAll : List Filter → List Filter → Bool
  | [], [] => true
  | x :: xs, y :: ys => beq x y && beqAll xs ys
  | _, _ => false

end

mutual

theorem beq_iff : ∀ a b : Filter, beq a b = true ↔ a = b
  | .leaf _, b => by cases b <;> simp [beq]
  | .composite _ xs, b => by cases b <;> simp [beq, beqAll_iff xs]

theorem beqAll_iff : ∀ xs ys : List Filter, beqAll xs ys = true ↔ xs = ys
  | [], ys => by cases ys <;> simp [beqAll]
  | x :: xs, ys => by cases ys <;> simp [beqAll, beq_iff x, beqAll_iff xs]

end

instance : DecidableEq Filter := fun a b => decidable_of_iff _ (beq_iff a b)

/-! ## Size -/

mutual

/-- leaves in the tree -/
def leafCount : Filter → Nat
  | .leaf _ => 1
  | .composite _ children => leafCounts children

def leafCounts : List Filter → Nat
  | [] => 0
  | x :: xs => leafCount x + leafCounts xs

end

mutual

/-- nesting of the tree; a leaf alone has depth 1 -/
def depth : Filter → Nat
  | .leaf _ => 1
  | .composite _ children => 1 + depths children

def depths : List Filter → Nat
  | [] => 0
  | x :: xs => max (depth x) (depths xs)

end

end Filter

end PartitionedScan
