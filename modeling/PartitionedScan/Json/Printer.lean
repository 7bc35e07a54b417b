/-
Printing JSON documents.

`write` puts the compact text of a document in front of a rest: no blanks, members in their order, only quotation marks,
backslashes and controls escaped. `pretty` is the same document over several lines, two blanks a level; an empty
container stays on its line.
-/
import PartitionedScan.Json.Basic
import PartitionedScan.Decimal.Printer

namespace PartitionedScan.Json

/-- one character inside a JSON string -/
def escape (c : Char) : List Char :=
  if c = '"' then ['\\', '"']
  else if c = '\\' then ['\\', '\\']
  else if c = '\n' then ['\\', 'n']
  else if c = '\r' then ['\\', 'r']
  else if c = '\t' then ['\\', 't']
  else if c.toNat = 8 then ['\\', 'b']
  else if c.toNat = 12 then ['\\', 'f']
  else if c.toNat < 32 then ['\\', 'u', '0', '0', Nat.digitChar (c.toNat / 16), Nat.digitChar (c.toNat % 16)]
  else [c]

/-- a string in quotation marks -/
def writeText (s : String) (rest : List Char) : List Char :=
  '"' :: s.toList.foldr (fun c done => escape c ++ done) ('"' :: rest)

def Number.chars : Number → List Char
  | .int value _ => Text.Integer.ofInt value
  | .float value _ => FloatStyle.json.write value

mutual

/-- the compact text of a document, followed by `rest` -/
def write : Json → List Char → List Char
  | .null, rest => 'n' :: 'u' :: 'l' :: 'l' :: rest
  | .bool true, rest => 't' :: 'r' :: 'u' :: 'e' :: rest
  | .bool false, rest => 'f' :: 'a' :: 'l' :: 's' :: 'e' :: rest
  | .number n, rest => n.chars ++ rest
  | .string s, rest => writeText s rest
  | .array [], rest => '[' :: ']' :: rest
  | .array (x :: xs), rest => '[' :: write x (writeItems xs rest)
  | .object [], rest => '{' :: '}' :: rest
  | .object ((k, x) :: xs), rest => '{' :: writeText k (':' :: write x (writeMembers xs rest))

/-- the items after the first one, and the closing bracket -/
def writeItems : List Json → List Char → List Char
  | [], rest => ']' :: rest
  | x :: xs, rest => ',' :: write x (writeItems xs rest)

/-- the members after the first one, and the closing brace -/
def writeMembers : List (String × Json) → List Char → List Char
  | [], rest => '}' :: rest
  | (k, x) :: xs, rest => ',' :: writeText k (':' :: write x (writeMembers xs rest))

end

/-- the compact text of a document -/
def render (j : Json) : String :=
  String.ofList (write j [])

/-! ## Over several lines -/

/-- a line break and the indentation of a level -/
def lineBreak (level : Nat) (rest : List Char) : List Char :=
  '\n' :: (List.replicate (2 * level) ' ' ++ rest)

mutual

/-- the text of a document over several lines, followed by `rest` -/
def writePretty (level : Nat) : Json → List Char → List Char
  | .array (x :: xs), rest =>
    '[' :: lineBreak (level + 1) (writePretty (level + 1) x (writePrettyItems level xs rest))
  | .object ((k, x) :: xs), rest =>
    '{' :: lineBreak (level + 1)
      (writeText k (':' :: ' ' :: writePretty (level + 1) x (writePrettyMembers level xs rest)))
  | .array [], rest => '[' :: ']' :: rest
  | .object [], rest => '{' :: '}' :: rest
  | .null, rest => write .null rest
  | .bool b, rest => write (.bool b) rest
  | .number n, rest => write (.number n) rest
  | .string s, rest => write (.string s) rest

def writePrettyItems (level : Nat) : List Json → List Char → List Char
  | [], rest => lineBreak level (']' :: rest)
  | x :: xs, rest =>
    ',' :: lineBreak (level + 1) (writePretty (level + 1) x (writePrettyItems level xs rest))

def writePrettyMembers (level : Nat) : List (String × Json) → List Char → List Char
  | [], rest => lineBreak level ('}' :: rest)
  | (k, x) :: xs, rest =>
    ',' :: lineBreak (level + 1)
      (writeText k (':' :: ' ' :: writePretty (level + 1) x (writePrettyMembers level xs rest)))

end

/-- the text of a document over several lines -/
def pretty (j : Json) : String :=
  String.ofList (writePretty 0 j [])

end PartitionedScan.Json
