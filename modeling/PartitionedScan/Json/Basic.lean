/-
JSON documents as values.

A number is an integer that 64 bits hold, signed or unsigned, or a finite float. An object keeps its members in the
order in which they were written, repeated keys included: a record is printed in the order of its fields and read with
every member in view. `canonical` is the document as a free value: at every depth the keys are in order and the last of
several members with one key stands.
-/
import PartitionedScan.SortedMap
import PartitionedScan.Decimal.Binary64

namespace PartitionedScan

namespace Json

/-- the whole numbers that 64 bits hold, with or without a sign -/
abbrev FitsWord (value : Int) : Prop :=
  -9223372036854775808 ≤ value ∧ value < 18446744073709551616

/-- a number of a JSON document -/
inductive Number where
  | int (value : Int) (bounded : FitsWord value)
  | float (value : Binary64) (finite : value.isFinite = true)
  deriving DecidableEq, Repr

namespace Number

/-- the float nearest to the number -/
def toBinary64 : Number → Binary64
  | int value _ => Binary64.ofInt value
  | float value _ => value

/-- the number as a signed 64-bit integer -/
def int64? : Number → Option Int64
  | int value _ => if value < 9223372036854775808 then some (Int64.ofInt value) else none
  | float _ _ => none

/-- the number as a natural number -/
def nat? : Number → Option Nat
  | int value _ => if 0 ≤ value then some value.toNat else none
  | float _ _ => none

/-- an unsigned 64-bit integer -/
def ofUInt64 (n : UInt64) : Number :=
  int n.toNat ⟨by omega, by have := n.toNat_lt; omega⟩

/-- a signed 64-bit integer -/
def ofInt64 (n : Int64) : Number :=
  int n.toInt ⟨by have := n.le_toInt; omega, by have := n.toInt_lt; omega⟩

/-- a signed 32-bit integer -/
def ofInt32 (n : Int32) : Number :=
  int n.toInt ⟨by have := n.le_toInt; omega, by have := n.toInt_lt; omega⟩

/-- how two numbers compare: as integers when both are signed 64-bit integers, else as floats -/
def order? (a b : Number) : Option Ordering :=
  match a.int64?, b.int64? with
  | some x, some y => some (compare x.toInt y.toInt)
  | _, _ => a.toBinary64.order? b.toBinary64

end Number

end Json

/-- a JSON document -/
inductive Json where
  | null
  | bool (b : Bool)
  | number (n : Json.Number)
  | string (s : String)
  | array (items : List Json)
  | object (members : List (String × Json))
  deriving Repr

namespace Json

instance : Inhabited Json := ⟨.null⟩

/-! ## Equality -/

mutual

def beq : Json → Json → Bool
  | .null, .null => true
  | .bool a, .bool b => a == b
  | .number a, .number b => a == b
  | .string a, .string b => a == b
  | .array xs, .array ys => beqItems xs ys
  | .object xs, .object ys => beqMembers xs ys
  | _, _ => false

def beqItems : List Json → List Json → Bool
  | [], [] => true
  | x :: xs, y :: ys => beq x y && beqItems xs ys
  | _, _ => false

def beqMembers : List (String × Json) → List (String × Json) → Bool
  | [], [] => true
  | (k, x) :: xs, (l, y) :: ys => k == l && beq x y && beqMembers xs ys
  | _, _ => false

end

mutual

theorem beq_iff : ∀ a b : Json, beq a b = true ↔ a = b
  | .null, b => by cases b <;> simp [beq]
  | .bool _, b => by cases b <;> simp [beq]
  | .number _, b => by cases b <;> simp [beq]
  | .string _, b => by cases b <;> simp [beq]
  | .array xs, b => by cases b <;> simp [beq, beqItems_iff xs]
  | .object xs, b => by cases b <;> simp [beq, beqMembers_iff xs]

theorem beqItems_iff : ∀ xs ys : List Json, beqItems xs ys = true ↔ xs = ys
  | [], ys => by cases ys <;> simp [beqItems]
  | x :: xs, ys => by cases ys <;> simp [beqItems, beq_iff x, beqItems_iff xs]

theorem beqMembers_iff : ∀ xs ys : List (String × Json), beqMembers xs ys = true ↔ xs = ys
  | [], ys => by cases ys <;> simp [beqMembers]
  | (k, x) :: xs, ys => by
    cases ys with
    | nil => simp [beqMembers]
    | cons hd ys => obtain ⟨l, y⟩ := hd; simp [beqMembers, beq_iff x, beqMembers_iff xs]

end

instance : DecidableEq Json := fun a b => decidable_of_iff _ (beq_iff a b)

/-! ## Parts of a document -/

def isNull : Json → Bool
  | .null => true
  | _ => false

def bool? : Json → Option Bool
  | .bool b => some b
  | _ => none

/-- the value of the first member with a key -/
def member? (key : String) : Json → Option Json
  | .object members => (members.find? fun m => m.1 == key).map Prod.snd
  | _ => none

/-! ## Building documents -/

/-- a natural number; one that 64 bits do not hold becomes the nearest float, or null past all floats -/
def ofNat (n : Nat) : Json :=
  if h : (n : Int) < 18446744073709551616 then .number (.int n ⟨by omega, h⟩)
  else
    let x := Binary64.ofInt n
    if hx : x.isFinite = true then .number (.float x hx) else .null

def ofStrings (texts : List String) : Json :=
  .array (texts.map .string)

/-- null for an absent value -/
def ofOption {α : Type} (f : α → Json) : Option α → Json
  | none => .null
  | some a => f a

theorem exists_of_ofOption_ne_null {α : Type} {f : α → Json} {o : Option α} (h : ofOption f o ≠ .null) :
    ∃ a, o = some a := by
  cases o with
  | none => exact absurd rfl h
  | some a => exact ⟨a, rfl⟩

/-- a finite float, or null -/
def ofBinary64 (x : Binary64) : Json :=
  if h : x.isFinite = true then .number (.float x h) else .null

/-! ## Canonical form -/

mutual

/-- keys in order and unique at every depth; the last of several members with one key stands -/
def canonical : Json → Json
  | .array items => .array (canonicalItems items)
  | .object members => .object (canonicalMembers members SortedMap.empty).entries
  | j => j

def canonicalItems : List Json → List Json
  | [] => []
  | x :: xs => canonical x :: canonicalItems xs

def canonicalMembers : List (String × Json) → SortedMap Json → SortedMap Json
  | [], done => done
  | (k, x) :: xs, done => canonicalMembers xs (done.insert k (canonical x))

end

mutual

/-- containers nested in one another; 0 for a scalar -/
def height : Json → Nat
  | .array items => heightItems items + 1
  | .object members => heightMembers members + 1
  | _ => 0

def heightItems : List Json → Nat
  | [] => 0
  | x :: xs => max (height x) (heightItems xs)

def heightMembers : List (String × Json) → Nat
  | [] => 0
  | (_, x) :: xs => max (height x) (heightMembers xs)

end

end Json

end PartitionedScan
