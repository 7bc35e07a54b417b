/-
Reading a TOML text.

A text is a run of lines: a header names the table that the following lines fill, any other line gives a value to a key.
Lists may spread over lines and end in a comma, tables between braces may not. A document with tables in a list
(headers in double brackets) is refused: no table here is repeated.
-/
import PartitionedScan.Toml.Number
import PartitionedScan.Toml.Text

namespace PartitionedScan.Toml

/-! ## Between values -/

/-- a text without the comment that it starts with -/
def skipComment : List Char → List Char
  | '#' :: r => r.dropWhile isPlain
  | r => r

/-- what follows a line that has nothing more than blanks and a comment -/
def lineEnd? (cs : List Char) : Option (List Char) :=
  match skipComment (skipBlanks cs) with
  | [] => some []
  | r => afterBreak? r

/-- what follows blanks, comments and line breaks; `room` bounds the lines -/
def skipLines : Nat → List Char → List Char
  | 0, cs => cs
  | room + 1, cs =>
    match afterBreak? (skipComment (skipBlanks cs)) with
    | some r => skipLines room r
    | none => skipBlanks cs

/-- what follows an equals sign and blanks -/
def equals? : List Char → Option (List Char)
  | '=' :: r => some (skipBlanks r)
  | _ => none

/-! ## Values -/

/-- containers that nest in one another at most -/
def maxDepth : Nat := 79

mutual

/-- a value with what follows; `room` bounds the steps and `depth` the containers still to be opened -/
def value? (room depth : Nat) (cs : List Char) : Option (Toml × List Char) :=
  match room with
  | 0 => none
  | room + 1 =>
    match cs with
    | 't' :: 'r' :: 'u' :: 'e' :: r => some (.other, r)
    | 'f' :: 'a' :: 'l' :: 's' :: 'e' :: r => some (.other, r)
    | '[' :: r =>
      match depth with
      | 0 => none
      | depth + 1 => (items? room depth (skipLines r.length r)).map fun (items, left) => (.list items, left)
    | '{' :: r =>
      match depth with
      | 0 => none
      | depth + 1 => (members? room depth true [] (skipBlanks r)).map fun (entries, left) => (.table .braced entries, left)
    | '"' :: _ => (string? cs).map fun (s, left) => (.text s, left)
    | '\'' :: _ => (string? cs).map fun (s, left) => (.text s, left)
    | _ =>
      match moment? cs with
      | some left => some (.other, left)
      | none => number? cs

/-- the items of a list up to its bracket -/
def items? (room depth : Nat) (cs : List Char) : Option (List Toml × List Char) :=
  match room with
  | 0 => none
  | room + 1 =>
    match cs with
    | ']' :: r => some ([], r)
    | cs =>
      match value? room depth cs with
      | none => none
      | some (item, r) =>
        match skipLines r.length r with
        | ',' :: r => (items? room depth (skipLines r.length r)).map fun (items, left) => (item :: items, left)
        | ']' :: r => some ([item], r)
        | _ => none

/-- the entries of a table up to its brace, added to those before; only an empty table may end here when `first` -/
def members? (room depth : Nat) (first : Bool) (entries : Entries) (cs : List Char) : Option (Entries × List Char) :=
  match room with
  | 0 => none
  | room + 1 =>
    match first, cs with
    | true, '}' :: r => some (entries, r)
    | _, cs =>
      match keyPath? cs.length cs with
      | none => none
      | some (path, key, r) =>
        match (equals? r).bind fun r => value? room depth r with
        | none => none
        | some (value, r) =>
          match assign value key path entries, skipBlanks r with
          | some entries, ',' :: r => members? room depth false entries (skipBlanks r)
          | some entries, '}' :: r => some (entries, r)
          | _, _ => none

end

/-! ## Lines -/

/-- a document so far: its entries, and the path of the table that lines fill now -/
structure Reading where
  entries : Entries
  table : List String

/-- a header after its bracket, with what follows the line -/
def Reading.header? (reading : Reading) (cs : List Char) : Option (Reading × List Char) := do
  match ← keyPath? cs.length cs with
  | (path, key, ']' :: r) =>
    let entries ← openHeader key path reading.entries
    return (⟨entries, path ++ [key]⟩, ← lineEnd? r)
  | _ => none

/-- a key with its value, with what follows the line -/
def Reading.keyValue? (reading : Reading) (cs : List Char) : Option (Reading × List Char) := do
  let (path, key, r) ← keyPath? cs.length cs
  let (value, r) ← value? (2 * r.length + 2) maxDepth (← equals? r)
  let entries ← onTable (assign value key path) reading.table reading.entries
  return ({ reading with entries }, ← lineEnd? r)

/-- one line, with what follows it -/
def Reading.line? (reading : Reading) (cs : List Char) : Option (Reading × List Char) :=
  match cs with
  | '[' :: '[' :: _ => none
  | '[' :: r => reading.header? r
  | _ =>
    match lineEnd? cs with
    | some r => some (reading, r)
    | none => reading.keyValue? cs

/-- all lines, at most `room` -/
def Reading.lines? : Nat → Reading → List Char → Option Reading
  | _, reading, [] => some reading
  | 0, _, _ => none
  | room + 1, reading, cs => do
    let (reading, r) ← reading.line? (skipBlanks cs)
    lines? room reading r

/-- a text without the byte order mark that it starts with -/
def dropMark : List Char → List Char
  | '\uFEFF' :: r => r
  | r => r

/-- the entries of a document -/
def read? (text : String) : Option Entries :=
  let cs := dropMark text.toList
  (Reading.lines? cs.length ⟨[], []⟩ cs).map Reading.entries

end PartitionedScan.Toml
