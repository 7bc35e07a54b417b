/-
Numbers, dates and times of a TOML text.

A whole number is decimal with an optional sign and no leading zero, or has a base prefix and no sign; it has to fit in
64 bits. Single underscores may stand between digits. Of floats, dates and times only the form matters here: they are
read to know where they end.
-/
import PartitionedScan.Toml.Basic
import PartitionedScan.Text.Search
import PartitionedScan.Decimal.Binary64
import PartitionedScan.Calendar.Date

namespace PartitionedScan.Toml

/-! ## Numbers -/

/-- digits with single underscores between them, at least one, with what follows -/
def digits? (isDigit : Char → Bool) (cs : List Char) : Option (List Char × List Char) :=
  let run := cs.takeWhile fun c => isDigit c || c == '_'
  let groups := Text.segments '_' run
  if groups.any List.isEmpty then none else some (groups.flatten, cs.drop run.length)

/-- a whole number that 64 bits hold -/
def bounded? (n : Int) : Option Toml :=
  if Int64.minValue.toInt ≤ n ∧ n ≤ Int64.maxValue.toInt then some (.integer n) else none

/-- a number after its base prefix -/
def prefixed? (base : Nat) (cs : List Char) : Option (Toml × List Char) := do
  let (digits, r) ← digits? (fun c => (Text.Integer.digit? base c).isSome) cs
  return (← bounded? (← Text.Integer.readBase? base digits), r)

/-- an exponent, with what follows -/
def exponent? (cs : List Char) : Option (Int × List Char) := do
  let (negative, cs) := match cs with
    | '-' :: r => (true, r)
    | '+' :: r => (false, r)
    | r => (false, r)
  let (digits, r) ← digits? Char.isDigit cs
  let e : Int := Text.Integer.value digits
  return (if negative then -e else e, r)

/-- the exponent of a float, or none where there is none -/
def trailingExponent? : List Char → Option (Int × List Char)
  | 'e' :: r => exponent? r
  | 'E' :: r => exponent? r
  | r => some (0, r)

/-- a float, which must not be past the largest one -/
def float? (negative : Bool) (digits : List Char) (exponent : Int) : Option Toml :=
  if Binary64.ofDecimal negative (Text.Integer.value digits) exponent = Binary64.infinity false then none
  else some .other

/-- a decimal number after its sign, with what follows -/
def decimal? (negative : Bool) (cs : List Char) : Option (Toml × List Char) := do
  let (digits, r) ← digits? Char.isDigit cs
  if 1 < digits.length && digits.head? == some '0' then none
  else
    match r with
    | '.' :: r =>
      let (places, r) ← digits? Char.isDigit r
      let (e, r) ← trailingExponent? r
      return (← float? negative (digits ++ places) (e - places.length), r)
    | c :: _ =>
      if c = 'e' ∨ c = 'E' then
        let (e, r) ← trailingExponent? r
        return (← float? negative digits e, r)
      else
        let n : Int := Text.Integer.value digits
        return (← bounded? (if negative then -n else n), r)
    | [] =>
      let n : Int := Text.Integer.value digits
      return (← bounded? (if negative then -n else n), [])

/-- a number after its sign -/
def unsigned? (negative : Bool) : List Char → Option (Toml × List Char)
  | 'i' :: 'n' :: 'f' :: r => some (.other, r)
  | 'n' :: 'a' :: 'n' :: r => some (.other, r)
  | r => decimal? negative r

/-- a number, with what follows -/
def number? : List Char → Option (Toml × List Char)
  | '0' :: 'x' :: r => prefixed? 16 r
  | '0' :: 'o' :: r => prefixed? 8 r
  | '0' :: 'b' :: r => prefixed? 2 r
  | '+' :: r => unsigned? false r
  | '-' :: r => unsigned? true r
  | r => unsigned? false r

/-! ## Dates and times -/

/-- two digits for a number up to `greatest`, with what follows -/
def twoDigits? (greatest : Nat) : List Char → Option (List Char)
  | a :: b :: r =>
    if a.isDigit && b.isDigit && Text.Integer.value [a, b] ≤ greatest then some r else none
  | _ => none

/-- what follows a colon -/
def colon? : List Char → Option (List Char)
  | ':' :: r => some r
  | _ => none

/-- what follows a time of day -/
def time? (cs : List Char) : Option (List Char) := do
  let r ← twoDigits? 59 (← colon? (← twoDigits? 23 cs))
  let r ← twoDigits? 60 (← colon? r)
  match r with
  | '.' :: r => if (r.takeWhile Char.isDigit).isEmpty then none else some (r.dropWhile Char.isDigit)
  | r => some r

/-- what follows an offset from universal time -/
def offset? : List Char → Option (List Char)
  | 'Z' :: r => some r
  | 'z' :: r => some r
  | '+' :: r => do twoDigits? 59 (← colon? (← twoDigits? 23 r))
  | '-' :: r => do twoDigits? 59 (← colon? (← twoDigits? 23 r))
  | _ => none

/-- what follows a day -/
def day? (cs : List Char) : Option (List Char) :=
  (Calendar.Date.readUnsigned? false (cs.take 10)).map fun _ => cs.drop 10

/-- what follows a time and an offset, where there is a time -/
def timeAfterDay (cs : List Char) : List Char :=
  match cs with
  | c :: r =>
    if c = 'T' ∨ c = 't' ∨ c = ' ' then
      match time? r with
      | some r => (offset? r).getD r
      | none => cs
    else cs
  | [] => cs

/-- what follows a date, a time, or both -/
def moment? (cs : List Char) : Option (List Char) :=
  match day? cs with
  | some r => some (timeAfterDay r)
  | none => time? cs

end PartitionedScan.Toml
