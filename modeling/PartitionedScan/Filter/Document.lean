/-
Filters as JSON documents, and as text for a reader.

A document is `{"leaf": {...}}` or `{"composite": {...}}` to any depth. `toJson` writes every field; `ofTree?` also
takes records as lists, and a leaf without literals.
-/
import PartitionedScan.Filter.Basic

namespace PartitionedScan

namespace Leaf

def toJson (l : Leaf) : Json :=
  .object [("attribute", .string l.attr), ("comparator", .string l.comparator.functionName),
    ("values", .array (l.values.map Value.toTagged))]

def ofTree? (t : Json.Tree) : Option Leaf := do
  match ← t.fields? ["attribute", "comparator", "values"] with
  | [some attr, some comparator, values] =>
    let attr ← attr.text?
    let comparator ← Comparator.ofName? (← comparator.name?)
    match values with
    | some values => pure ⟨attr, comparator, ← (← values.items?).mapM Value.ofTagged?⟩
    | none => pure ⟨attr, comparator, []⟩
  | _ => none

def text (l : Leaf) : String :=
  "Leaf(LeafFilter \x7b attribute: " ++ Text.Quoted.quote l.attr ++ ", comparator: " ++ l.comparator.label ++
    ", values: " ++ Value.bracketed (l.values.map Value.text) ++ " \x7d)"

end Leaf

namespace Filter

mutual

def toJson : Filter → Json
  | .leaf l => .object [("leaf", l.toJson)]
  | .composite function children =>
    .object [("composite", .object [("function", .string function.functionName), ("children", .array (toJsonAll children))])]

def toJsonAll : List Filter → List Json
  | [] => []
  | x :: xs => toJson x :: toJsonAll xs

end

/-- the text of the document -/
def render (f : Filter) : String :=
  f.toJson.render

/-! ## Reading -/

mutual

/-- a filter of a document -/
def ofTree? : Json.Tree → Option Filter
  | .record [(some "leaf", t)] => (Leaf.ofTree? t).map .leaf
  | .record [(some "composite", .list [function, .list children])] => do
    let function ← Combinator.ofName? (← function.name?)
    return .composite function (← ofTrees? children)
  | .record [(some "composite", .record members)] => do
    match ← Json.Tree.fields? ["function", "children"] (.record members) with
    | [some function, some _] =>
      let function ← Combinator.ofName? (← function.name?)
      return .composite function (← ofMembers? members)
    | _ => none
  | _ => none

/-- the children of a composite, found among its members -/
def ofMembers? : List (Option String × Json.Tree) → Option (List Filter)
  | [] => none
  | (some "children", .list children) :: _ => ofTrees? children
  | _ :: members => ofMembers? members

def ofTrees? : List Json.Tree → Option (List Filter)
  | [] => some []
  | x :: xs => do
    let f ← ofTree? x
    let fs ← ofTrees? xs
    return f :: fs

end

/-- a filter from the text of a document -/
def parse? (text : String) : Option Filter :=
  (Json.Tree.read? text).bind ofTree?

/-! ## Text -/

mutual

/-- the text of a filter for a reader, after `done` -/
def appendText (done : String) : Filter → String
  | .leaf l => done ++ l.text
  | .composite function children =>
    appendTexts (done ++ "Composite \x7b function: " ++ function.label ++ ", children: [") true children ++ "] \x7d"

/-- the texts of children, after a comma unless it is the first -/
def appendTexts (done : String) (first : Bool) : List Filter → String
  | [] => done
  | x :: xs => appendTexts (appendText (if first then done else done ++ ", ") x) false xs

end

def text (f : Filter) : String :=
  appendText "" f

end Filter

end PartitionedScan
