/-
Texts of floats.

A `FloatStyle` says which decimal exponents are written positionally and whether a positive exponent shows a plus sign;
both styles of this library write the shortest digits that read back and keep one digit after the point. `twoPlaces`
writes a float with exactly two digits after the point, the exact value rounded, a tie going to the even neighbour.
-/
import PartitionedScan.Decimal.Shortest
import PartitionedScan.Text.Integer

namespace PartitionedScan

/-- where positional notation ends, and how an exponent is written -/
structure FloatStyle where
  leastPositional : Int
  greatestPositional : Int
  plusSign : Bool
  deriving DecidableEq, Repr

namespace FloatStyle

/-- numbers of a JSON document: positional from `1e-5` to below `1e16`, exponents as in `1e+16` -/
def json : FloatStyle := ⟨-5, 15, true⟩

/-- numbers in the text of a value: positional from `1e-4` to below `1e16`, exponents as in `1e16` -/
def value : FloatStyle := ⟨-4, 15, false⟩

/-- digits with a point after the first `before` of them, zeros filled in on either side -/
def positional (digits : List Char) (before : Int) : List Char :=
  if before ≤ 0 then ['0', '.'] ++ List.replicate before.natAbs '0' ++ digits
  else
    let whole := digits.take before.toNat
    let fraction := digits.drop before.toNat
    whole ++ List.replicate (before.toNat - digits.length) '0' ++ '.' :: (if fraction.isEmpty then ['0'] else fraction)

/-- digits with a point after the first, then the exponent -/
def scientific (style : FloatStyle) (digits : List Char) (exponent : Int) : List Char :=
  let mantissa := match digits with
    | d :: e :: r => d :: '.' :: e :: r
    | ds => ds
  mantissa ++ 'e' :: ((if style.plusSign && 0 ≤ exponent then ['+'] else []) ++ Text.Integer.ofInt exponent)

/-- the magnitude of a finite float -/
def writeMagnitude (style : FloatStyle) (x : Binary64) : List Char :=
  let d := Decimal.shortest x
  let digits := Text.Integer.ofNat d.coefficient
  let exponent := d.exponent + digits.length - 1
  if x.isZero then ['0', '.', '0']
  else if style.leastPositional ≤ exponent && exponent ≤ style.greatestPositional then
    positional digits (exponent + 1)
  else scientific style digits exponent

/-- a finite float with its sign -/
def write (style : FloatStyle) (x : Binary64) : List Char :=
  (if x.isNegative then ['-'] else []) ++ writeMagnitude style x

end FloatStyle

namespace Binary64

/-- any float, the way the text of a value shows it -/
def text (x : Binary64) : String :=
  if x.isNaN then "NaN"
  else if x.isFinite then String.ofList (FloatStyle.value.write x)
  else if x.isNegative then "-inf" else "inf"

/-- a finite float without a sign, with two digits after the point -/
def twoPlaces (x : Binary64) : String :=
  let (num, den) := x.ratio
  let hundredths := roundDiv (num * 100) den
  let cents := hundredths % 100
  String.ofList (Text.Integer.ofNat (hundredths / 100) ++
    ['.', Nat.digitChar (cents / 10), Nat.digitChar (cents % 10)])

end Binary64

end PartitionedScan
