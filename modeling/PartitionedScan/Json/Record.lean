/-
Reading records and names from a JSON text.

A record with known keys is written as an object, in any order and with no key twice, or as a list of its fields in
order, where trailing fields may be left out. Unknown members are passed over, whatever their value holds. A name from a
fixed list is a string, or an object whose only member has that key and null.
-/
import PartitionedScan.Json.Tree

namespace PartitionedScan.Json.Tree

/-- the values of the members with a key -/
def valuesOf (key : String) (members : List (Option String × Tree)) : List Tree :=
  (members.filter fun m => m.1 == some key).map Prod.snd

/-- the value of a key that at most one member has -/
def single? (key : String) (members : List (Option String × Tree)) : Option (Option Tree) :=
  match valuesOf key members with
  | [] => some none
  | [t] => some (some t)
  | _ => none

/-- the fields of a record, in the order of `keys`; absent ones are none -/
def fields? (keys : List String) : Tree → Option (List (Option Tree))
  | .record members => if members.all (·.1.isSome) then keys.mapM fun key => single? key members else none
  | .list items =>
    if items.length ≤ keys.length then
      some (items.map some ++ List.replicate (keys.length - items.length) none)
    else none
  | _ => none

/-- a name: a string, or an object with that only key and null -/
def name? : Tree → Option String
  | .text s => s
  | .record [(key, .null)] => key
  | _ => none

def text? : Tree → Option String
  | .text s => s
  | _ => none

def bool? : Tree → Option Bool
  | .bool b => some b
  | _ => none

def items? : Tree → Option (List Tree)
  | .list items => some items
  | _ => none

def number? : Tree → Option Number
  | .numeral n => n.number?
  | _ => none

/-- a whole number from `least` to `greatest` -/
def int? (least greatest : Int) (t : Tree) : Option Int :=
  match t.number? with
  | some (.int value _) => if least ≤ value ∧ value ≤ greatest then some value else none
  | _ => none

/-- a whole number that 64 bits hold without a sign -/
def nat64? (t : Tree) : Option Nat :=
  (t.int? 0 18446744073709551615).map Int.toNat

/-- an object of free values whose containers nest at most `room` deep, the object itself not counted -/
def row? (room : Nat) (t : Tree) : Option (SortedMap Json) := do
  match ← t.json? with
  | .object members => if heightMembers members ≤ room then some (canonicalMembers members SortedMap.empty) else none
  | _ => none

end PartitionedScan.Json.Tree
