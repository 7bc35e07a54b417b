/-
The words of a JSON text.

`scan` cuts a text into tokens and refuses whatever is none: blanks are tab, line feed, carriage return and space. A
string whose escapes leave half a surrogate pair is a token all the same, without a text; a number keeps its sign, its
digits as one coefficient, its decimal exponent and whether it was written as a whole number. What is made of both is
decided where the value is used.
-/
import PartitionedScan.Json.Basic
import PartitionedScan.Text.Integer

namespace PartitionedScan.Json

/-- a number as written: `± coefficient · 10^exponent` -/
structure Numeral where
  negative : Bool
  coefficient : Nat
  exponent : Int
  whole : Bool
  deriving DecidableEq, Repr

/-- a word of a JSON text; a string has no text when an escape is half a surrogate pair -/
inductive Token where
  | openBrace
  | closeBrace
  | openBracket
  | closeBracket
  | comma
  | colon
  | null
  | bool (b : Bool)
  | numeral (n : Numeral)
  | text (s : Option String)
  deriving DecidableEq, Repr

namespace Numeral

/-- the number that was written; none when it is past all floats. A number that is not kept whole becomes the float nearest to
it. A reader that does not round exactly may come to a neighbour of that float (for `7e-25`, say), so with such a reader this
is the number of a text only where the float is read back. -/
def number? (n : Numeral) : Option Number :=
  let i : Int := if n.negative then -(n.coefficient : Int) else n.coefficient
  if h : n.whole = true ∧ (n.negative = true → n.coefficient ≠ 0) ∧ FitsWord i then
    some (.int i h.2.2)
  else
    let x := Binary64.ofDecimal n.negative n.coefficient n.exponent
    if hx : x.isFinite = true then some (.float x hx) else none

/-- a run of digits and what follows it -/
def spanDigits (cs : List Char) : List Char × List Char :=
  cs.span Char.isDigit

/-- an exponent, with what follows it; none when `e` has no digits after it -/
def scanExponent? : List Char → Option (Option Int × List Char)
  | c :: r =>
    if c = 'e' ∨ c = 'E' then
      let (negative, r) := match r with
        | '+' :: r => (false, r)
        | '-' :: r => (true, r)
        | r => (false, r)
      let (digits, r) := spanDigits r
      if digits.isEmpty then none
      else
        let e : Int := Text.Integer.value digits
        some (some (if negative then -e else e), r)
    else some (none, c :: r)
  | [] => some (none, [])

/-- a fraction, with what follows it; none when a point has no digits after it -/
def scanFraction? : List Char → Option (Option (List Char) × List Char)
  | '.' :: r =>
    let (digits, r) := spanDigits r
    if digits.isEmpty then none else some (some digits, r)
  | r => some (none, r)

/-- a number at the start of the text, with what follows it -/
def scan? (cs : List Char) : Option (Numeral × List Char) := do
  let (negative, cs) := match cs with
    | '-' :: r => (true, r)
    | r => (false, r)
  let (digits, cs) := spanDigits cs
  if digits.isEmpty || (1 < digits.length && digits.head? == some '0') then none
  else
    let (fraction, cs) ← scanFraction? cs
    let (exponent, cs) ← scanExponent? cs
    let places := fraction.getD []
    pure (⟨negative, Text.Integer.value (digits ++ places), exponent.getD 0 - places.length,
      fraction.isNone && exponent.isNone⟩, cs)

end Numeral

namespace Token

/-! ## Strings -/

/-- four hexadecimal digits -/
def hexFour? (a b c d : Char) : Option Nat :=
  Text.Integer.readBase? 16 [a, b, c, d]

/-- the character after a backslash, for the escapes of one letter -/
def shortEscape? : Char → Option Char
  | '"' => some '"'
  | '\\' => some '\\'
  | '/' => some '/'
  | 'b' => some '\x08'
  | 'f' => some '\x0c'
  | 'n' => some '\n'
  | 'r' => some '\r'
  | 't' => some '\t'
  | _ => none

/-- a piece of a string: a character, or half a surrogate pair -/
inductive Piece where
  | char (c : Char)
  | high (n : Nat)
  | low (n : Nat)
  deriving DecidableEq, Repr

/-- a code unit written by its number -/
def Piece.ofNat (n : Nat) : Piece :=
  if 0xD800 ≤ n ∧ n < 0xDC00 then .high n
  else if 0xDC00 ≤ n ∧ n < 0xE000 then .low n
  else .char (Char.ofNat n)

/-- the characters of pieces that come latest first; none when half a pair is left over -/
def joinPieces : List Piece → List Char → Option (List Char)
  | [], done => some done
  | .char c :: r, done => joinPieces r (c :: done)
  | .low l :: .high h :: r, done => joinPieces r (Char.ofNat (0x10000 + (h - 0xD800) * 0x400 + (l - 0xDC00)) :: done)
  | _ :: _, _ => none

/-- the pieces of a string after its opening mark, put in front of `done` with the latest first, and what follows it -/
def scanString? (done : List Piece) : List Char → Option (List Piece × List Char)
  | '"' :: r => some (done, r)
  | '\\' :: 'u' :: a :: b :: c :: d :: r =>
    match hexFour? a b c d with
    | some n => scanString? (.ofNat n :: done) r
    | none => none
  | '\\' :: c :: r =>
    match shortEscape? c with
    | some c => scanString? (.char c :: done) r
    | none => none
  | c :: r => if c = '\\' ∨ c.toNat < 32 then none else scanString? (.char c :: done) r
  | [] => none

/-! ## Tokens -/

/-- the token at the start of a text that starts with no blank, with what follows it -/
def next? : List Char → Option (Token × List Char)
  | '{' :: r => some (.openBrace, r)
  | '}' :: r => some (.closeBrace, r)
  | '[' :: r => some (.openBracket, r)
  | ']' :: r => some (.closeBracket, r)
  | ',' :: r => some (.comma, r)
  | ':' :: r => some (.colon, r)
  | 'n' :: 'u' :: 'l' :: 'l' :: r => some (.null, r)
  | 't' :: 'r' :: 'u' :: 'e' :: r => some (.bool true, r)
  | 'f' :: 'a' :: 'l' :: 's' :: 'e' :: r => some (.bool false, r)
  | '"' :: r =>
    match scanString? [] r with
    | some (pieces, r) => some (.text ((joinPieces pieces []).map String.ofList), r)
    | none => none
  | cs => (Numeral.scan? cs).map fun (n, r) => (.numeral n, r)

def isSpace (c : Char) : Bool :=
  c == ' ' || c == '\t' || c == '\n' || c == '\r'

/-- the tokens of a text after the given ones, which come latest first -/
def scanFrom? (fuel : Nat) (done : List Token) (cs : List Char) : Option (List Token) :=
  match fuel with
  | 0 => if cs.isEmpty then some done.reverse else none
  | fuel + 1 =>
    match cs with
    | [] => some done.reverse
    | c :: r =>
      if isSpace c then scanFrom? fuel done r
      else match next? (c :: r) with
        | some (t, r) => scanFrom? fuel (t :: done) r
        | none => none

/-- the tokens of a text; every one takes at least a character, so the length of the text is fuel enough -/
def scan? (cs : List Char) : Option (List Token) :=
  scanFrom? cs.length [] cs

end Token

end PartitionedScan.Json
