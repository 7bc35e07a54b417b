/-
Floats written as text.

A sign, then `inf`, `infinity` or `nan` in any case, or digits with a point and an exponent; digits may be missing on one
side of the point. The value is the nearest float, infinity past the largest one. Blanks are no part of a number.
-/
import PartitionedScan.Decimal.Binary64
import PartitionedScan.Text.Integer

namespace PartitionedScan.Binary64

/-- a sign in front, if there is one -/
def splitSign : List Char → Bool × List Char
  | '+' :: r => (false, r)
  | '-' :: r => (true, r)
  | r => (false, r)

/-- digits before and after a point, with what follows -/
def splitPoint (cs : List Char) : List Char × List Char × List Char :=
  let (whole, r) := cs.span Char.isDigit
  match r with
  | '.' :: r =>
    let (places, r) := r.span Char.isDigit
    (whole, places, r)
  | r => (whole, [], r)

/-- the exponent that ends a number; none when something else does -/
def readExponent? : List Char → Option Int
  | [] => some 0
  | c :: r => if c = 'e' ∨ c = 'E' then Text.Integer.readSigned? r else none

/-- the float of a number without a sign -/
def readUnsignedText? (negative : Bool) (cs : List Char) : Option Binary64 :=
  let name := cs.map Char.toLower
  if name = ['i', 'n', 'f'] ∨ name = ['i', 'n', 'f', 'i', 'n', 'i', 't', 'y'] then some (infinity negative)
  else if name = ['n', 'a', 'n'] then some nan
  else
    let (whole, places, r) := splitPoint cs
    if whole.isEmpty && places.isEmpty then none
    else (readExponent? r).map fun e => ofDecimal negative (Text.Integer.value (whole ++ places)) (e - places.length)

/-- the float that a text is -/
def readText? (cs : List Char) : Option Binary64 :=
  let (negative, r) := splitSign cs
  readUnsignedText? negative r

end PartitionedScan.Binary64
