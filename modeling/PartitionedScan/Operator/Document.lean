/-
Reading operators from JSON documents.

A record is an operator when it has exactly the members `ns`, `fn` and `args`, each once and of its type; a list of
three parts of these types is one too. Any other list is a list of arguments, and whatever remains is a scalar.
-/
import PartitionedScan.Operator.Basic
import PartitionedScan.Json.Record

namespace PartitionedScan

namespace Arg

/-- the three parts of an operator, from the members of a record -/
def parts? (members : List (String × Json)) : Option (String × String) :=
  match members.map Prod.fst with
  | [a, b, c] =>
    if ["ns", "fn", "args"].all [a, b, c].contains then
      match (Json.object members).member? "ns", (Json.object members).member? "fn" with
      | some (.string ns), some (.string name) => some (ns, name)
      | _, _ => none
    else none
  | _ => none

mutual

/-- the argument that a document is -/
def ofJson : Json → Arg
  | .object members =>
    match parts? members, argsOf? members with
    | some (ns, name), some args => .node ns name args
    | _, _ => .scalar (Json.object members).canonical
  | .array [.string ns, .string name, .array args] => .node ns name (ofJsonAll args)
  | .array items => .list (ofJsonAll items)
  | j => .scalar j

/-- the arguments found under `args` -/
def argsOf? : List (String × Json) → Option (List Arg)
  | [] => none
  | ("args", .array items) :: _ => some (ofJsonAll items)
  | _ :: members => argsOf? members

def ofJsonAll : List Json → List Arg
  | [] => []
  | x :: xs => ofJson x :: ofJsonAll xs

end

end Arg

namespace Operator

/-- the operator that a document is -/
def ofJson? (j : Json) : Option Operator :=
  (Arg.ofJson j).operator?

/-- an operator from the text of a document, nested to any depth -/
def parse? (text : String) : Option Operator :=
  ((Json.Tree.read? text).bind Json.Tree.json?).bind ofJson?

end Operator

end PartitionedScan
