/-
A JSON text as written.

A `Tree` keeps what reading a value may or may not care about: members in their order with repeated keys, numbers as
numerals, strings whose escapes make no text. `ofTokens?` runs a machine over the tokens: a stack of open containers
and what may come next. `json?` is the document when everything in it has a value, with members still in their order.
-/
import PartitionedScan.Json.Token

namespace PartitionedScan.Json

/-- a JSON text as written -/
inductive Tree where
  | null
  | bool (b : Bool)
  | numeral (n : Numeral)
  | text (s : Option String)
  | list (items : List Tree)
  | record (members : List (Option String × Tree))
  deriving Repr

namespace Tree

instance : Inhabited Tree := ⟨.null⟩

/-! ## From tokens -/

/-- a container still open, its parts so far with the latest first; a record waits for the value of `key` -/
inductive Frame where
  | list (done : List Tree)
  | record (done : List (Option String × Tree)) (key : Option String)

/-- what may come next -/
inductive Expectation where
  /-- a value -/
  | value
  /-- a first item, or the end of an empty list -/
  | firstItem
  /-- a first key, or the end of an empty record; the members before it are none -/
  | firstKey
  /-- another key of a record with these members -/
  | key (done : List (Option String × Tree))
  /-- the colon after a key -/
  | colon (done : List (Option String × Tree)) (key : Option String)
  /-- a comma or the closing bracket of a list with these items -/
  | listEnd (done : List Tree)
  /-- a comma or the closing brace of a record with these members -/
  | recordEnd (done : List (Option String × Tree))
  /-- nothing: the text is complete -/
  | nothing (t : Tree)

/-- the open containers, innermost first, and what may come next -/
structure Reading where
  stack : List Frame
  expectation : Expectation

/-- a complete value takes its place in the innermost container -/
def Reading.place (stack : List Frame) (t : Tree) : Reading :=
  match stack with
  | [] => ⟨[], .nothing t⟩
  | .list done :: stack => ⟨stack, .listEnd (t :: done)⟩
  | .record done key :: stack => ⟨stack, .recordEnd ((key, t) :: done)⟩

/-- a token where a value is due -/
def Reading.value? (stack : List Frame) : Token → Option Reading
  | .null => some (.place stack .null)
  | .bool b => some (.place stack (.bool b))
  | .numeral n => some (.place stack (.numeral n))
  | .text s => some (.place stack (.text s))
  | .openBracket => some ⟨stack, .firstItem⟩
  | .openBrace => some ⟨stack, .firstKey⟩
  | _ => none

/-- one token -/
def Reading.step? (r : Reading) (t : Token) : Option Reading :=
  match r.expectation, t with
  | .value, t => Reading.value? r.stack t
  | .firstItem, .closeBracket => some (.place r.stack (.list []))
  | .firstItem, t => Reading.value? (.list [] :: r.stack) t
  | .firstKey, .closeBrace => some (.place r.stack (.record []))
  | .firstKey, .text key => some ⟨r.stack, .colon [] key⟩
  | .key done, .text key => some ⟨r.stack, .colon done key⟩
  | .colon done key, .colon => some ⟨.record done key :: r.stack, .value⟩
  | .listEnd done, .comma => some ⟨.list done :: r.stack, .value⟩
  | .listEnd done, .closeBracket => some (.place r.stack (.list done.reverse))
  | .recordEnd done, .comma => some ⟨r.stack, .key done⟩
  | .recordEnd done, .closeBrace => some (.place r.stack (.record done.reverse))
  | _, _ => none

/-- the value that a complete text stands for -/
def ofTokens? (tokens : List Token) : Option Tree :=
  match tokens.foldlM Reading.step? ⟨[], .value⟩ with
  | some ⟨_, .nothing t⟩ => some t
  | _ => none

/-- a text with one JSON value, blanks around it allowed -/
def read? (text : String) : Option Tree :=
  (Token.scan? text.toList).bind ofTokens?

/-! ## To documents -/

mutual

/-- the document, when every number and every string in it has a value; members keep their order -/
def json? : Tree → Option Json
  | .null => some .null
  | .bool b => some (.bool b)
  | .numeral n => n.number?.map .number
  | .text s => s.map .string
  | .list items => (jsonItems? items).map .array
  | .record members => (jsonMembers? members).map .object

def jsonItems? : List Tree → Option (List Json)
  | [] => some []
  | x :: xs => do
    let j ← json? x
    let js ← jsonItems? xs
    pure (j :: js)

def jsonMembers? : List (Option String × Tree) → Option (List (String × Json))
  | [] => some []
  | (k, x) :: xs => do
    let k ← k
    let j ← json? x
    let js ← jsonMembers? xs
    pure ((k, j) :: js)

end

end Tree

/-- the document of a text, as a free value -/
def read? (text : String) : Option Json :=
  ((Tree.read? text).bind Tree.json?).map canonical

end PartitionedScan.Json
