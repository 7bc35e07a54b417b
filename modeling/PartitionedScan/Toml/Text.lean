/-
Keys and strings of a TOML text.

Strings come in four forms: between quotation marks with escapes, between apostrophes without, and each over several
lines between three of its marks. A line break over several lines counts as one line feed, one right after the opening
marks does not count, and a backslash at the end of a line swallows all blanks and line breaks after it.
-/
import PartitionedScan.Text.Integer

namespace PartitionedScan.Toml

/-- a blank within a line -/
def isBlank (c : Char) : Bool :=
  c == ' ' || c == '\t'

/-- a character that may stand in a comment or, marks apart, in a string: a tab or no control -/
def isPlain (c : Char) : Bool :=
  c == '\t' || (32 ≤ c.toNat && c.toNat != 127)

/-- what follows a line break at the start of the text -/
def afterBreak? : List Char → Option (List Char)
  | '\n' :: r => some r
  | '\r' :: '\n' :: r => some r
  | _ => none

def skipBlanks (cs : List Char) : List Char :=
  cs.dropWhile isBlank

/-! ## Escapes -/

/-- the character after a backslash, for the escapes of one letter -/
def shortEscape? : Char → Option Char
  | '"' => some '"'
  | '\\' => some '\\'
  | 'b' => some '\x08'
  | 'f' => some '\x0c'
  | 'n' => some '\n'
  | 'r' => some '\r'
  | 't' => some '\t'
  | _ => none

/-- the character with a code point in hexadecimal -/
def codePoint? (digits : List Char) : Option Char := do
  let n ← Text.Integer.readBase? 16 digits
  if n.isValidChar then some (Char.ofNat n) else none

/-- an escape after its backslash, with what follows -/
def escape? : List Char → Option (Char × List Char)
  | 'u' :: r => if r.length < 4 then none else (codePoint? (r.take 4)).map fun c => (c, r.drop 4)
  | 'U' :: r => if r.length < 8 then none else (codePoint? (r.take 8)).map fun c => (c, r.drop 8)
  | c :: r => (shortEscape? c).map fun c => (c, r)
  | [] => none

theorem escape?_length {cs r : List Char} {c : Char} (h : escape? cs = some (c, r)) : r.length < cs.length := by
  unfold escape? at h
  split at h
  · split at h
    · cases h
    · simp only [Option.map_eq_some_iff, Prod.mk.injEq] at h
      obtain ⟨_, _, _, rfl⟩ := h
      simp only [List.length_drop, List.length_cons]
      omega
  · split at h
    · cases h
    · simp only [Option.map_eq_some_iff, Prod.mk.injEq] at h
      obtain ⟨_, _, _, rfl⟩ := h
      simp only [List.length_drop, List.length_cons]
      omega
  · simp only [Option.map_eq_some_iff, Prod.mk.injEq] at h
    obtain ⟨_, _, _, rfl⟩ := h
    simp
  · cases h

/-! ## Strings on one line -/

/-- the rest of a string with escapes, with what follows its closing mark -/
def basic (cs : List Char) : Option (List Char × List Char) :=
  match cs with
  | [] => none
  | '"' :: r => some ([], r)
  | '\\' :: r =>
    match h : escape? r with
    | none => none
    | some (c, rest) =>
      have := escape?_length h
      (basic rest).map fun (body, left) => (c :: body, left)
  | c :: r => if isPlain c then (basic r).map fun (body, left) => (c :: body, left) else none
termination_by cs.length

/-- the rest of a string without escapes, with what follows its closing mark -/
def literal : List Char → Option (List Char × List Char)
  | [] => none
  | '\'' :: r => some ([], r)
  | c :: r => if isPlain c then (literal r).map fun (body, left) => (c :: body, left) else none

/-! ## Strings over several lines -/

/-- whether only blanks stand between here and a line break -/
def endsLine (cs : List Char) : Bool :=
  (afterBreak? (skipBlanks cs)).isSome

/-- the end of a string of several lines at three or more of its marks: up to two of them belong to the string -/
def closing? (mark : Char) (cs : List Char) : Option (List Char × List Char) :=
  let marks := (cs.takeWhile (· == mark)).length
  if marks < 3 then none
  else
    let own := min 2 (marks - 3)
    some (List.replicate own mark, cs.drop (own + 3))

/-- the rest of a string of several lines with escapes; `skipping` after a backslash that ended a line -/
def basicLines (skipping : Bool) (cs : List Char) : Option (List Char × List Char) :=
  match closing? '"' cs with
  | some found => some found
  | none =>
    match cs with
    | [] => none
    | '\\' :: r =>
      if endsLine r then basicLines true r
      else
        match h : escape? r with
        | none => none
        | some (c, rest) =>
          have := escape?_length h
          (basicLines false rest).map fun (body, left) => (c :: body, left)
    | '\n' :: r =>
      if skipping then basicLines true r else (basicLines false r).map fun (body, left) => ('\n' :: body, left)
    | '\r' :: '\n' :: r =>
      if skipping then basicLines true r else (basicLines false r).map fun (body, left) => ('\n' :: body, left)
    | c :: r =>
      if skipping && isBlank c then basicLines true r
      else if isPlain c then (basicLines false r).map fun (body, left) => (c :: body, left)
      else none
termination_by cs.length

/-- the rest of a string of several lines without escapes -/
def literalLines (cs : List Char) : Option (List Char × List Char) :=
  match closing? '\'' cs with
  | some found => some found
  | none =>
    match cs with
    | [] => none
    | '\n' :: r => (literalLines r).map fun (body, left) => ('\n' :: body, left)
    | '\r' :: '\n' :: r => (literalLines r).map fun (body, left) => ('\n' :: body, left)
    | c :: r => if isPlain c then (literalLines r).map fun (body, left) => (c :: body, left) else none

/-- a text without the line break that it starts with -/
def dropBreak (cs : List Char) : List Char :=
  (afterBreak? cs).getD cs

/-- a string in any form, with what follows it -/
def string? : List Char → Option (String × List Char)
  | '"' :: '"' :: '"' :: r => (basicLines false (dropBreak r)).map fun (body, left) => (String.ofList body, left)
  | '\'' :: '\'' :: '\'' :: r => (literalLines (dropBreak r)).map fun (body, left) => (String.ofList body, left)
  | '"' :: r => (basic r).map fun (body, left) => (String.ofList body, left)
  | '\'' :: r => (literal r).map fun (body, left) => (String.ofList body, left)
  | _ => none

/-! ## Keys -/

/-- a character of a key without marks -/
def isKeyChar (c : Char) : Bool :=
  c.isAlphanum || c == '_' || c == '-'

/-- one key, with what follows it and the blanks after it -/
def key? (cs : List Char) : Option (String × List Char) :=
  let found := match skipBlanks cs with
    | '"' :: r => basic r
    | '\'' :: r => literal r
    | r => if (r.takeWhile isKeyChar).isEmpty then none else some (r.takeWhile isKeyChar, r.dropWhile isKeyChar)
  found.map fun (body, left) => (String.ofList body, skipBlanks left)

/-- keys with points between them, at most `room`: those that lead to a table and the last one, with what follows -/
def keyPath? : Nat → List Char → Option (List String × String × List Char)
  | 0, _ => none
  | room + 1, cs =>
    match key? cs with
    | none => none
    | some (key, '.' :: r) => (keyPath? room r).map fun (path, last, left) => (key :: path, last, left)
    | some (key, r) => some ([], key, r)

end PartitionedScan.Toml
