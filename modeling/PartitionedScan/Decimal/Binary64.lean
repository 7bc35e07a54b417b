/-
The 64-bit floating point numbers of IEEE 754, as bit patterns.

A pattern holds a sign, eleven bits of exponent and 52 bits of fraction. Every finite pattern stands for
`± significand · 2^exponent`, and all arithmetic here is done on that exact value: `ofRatio` rounds a fraction of two
natural numbers to the nearest pattern, a tie going to the even one, and `add`, `div` and `ofInt` are that rounding of an
exact result. A pattern for NaN is equal to itself as a pattern, and unordered with everything in `order?`.
-/

namespace PartitionedScan

/-- a 64-bit float, given by its bits -/
structure Binary64 where
  bits : UInt64
  deriving DecidableEq, Repr

namespace Binary64

/-- the sign bit of a pattern, the bit with number 63 -/
def signBit : Nat := 9223372036854775808

/-- how many values the 52 bits of the fraction have -/
def fractionCount : Nat := 4503599627370496

/-- the magnitude bits: all but the sign -/
def magnitude (x : Binary64) : Nat :=
  x.bits.toNat % signBit

/-- whether the sign bit is set -/
def isNegative (x : Binary64) : Bool :=
  signBit ≤ x.bits.toNat

/-- the magnitude bits of infinity -/
def infiniteMagnitude : Nat :=
  2047 * fractionCount

/-- neither infinite nor NaN -/
def isFinite (x : Binary64) : Bool :=
  x.magnitude < infiniteMagnitude

def isNaN (x : Binary64) : Bool :=
  infiniteMagnitude < x.magnitude

/-- plus or minus zero -/
def isZero (x : Binary64) : Bool :=
  x.magnitude == 0

/-- the pattern with the given sign and magnitude bits -/
def ofMagnitude (negative : Bool) (magnitude : Nat) : Binary64 :=
  ⟨UInt64.ofNat ((if negative then signBit else 0) + magnitude)⟩

def zero : Binary64 := ⟨0⟩

def infinity (negative : Bool) : Binary64 :=
  ofMagnitude negative infiniteMagnitude

/-- a quiet NaN -/
def nan : Binary64 :=
  ofMagnitude false (infiniteMagnitude + fractionCount / 2)

/-- significand of a finite pattern -/
def significand (x : Binary64) : Nat :=
  if x.magnitude < fractionCount then x.magnitude else x.magnitude % fractionCount + fractionCount

/-- exponent of a finite pattern: its value is the significand times this power of two -/
def exponent (x : Binary64) : Int :=
  if x.magnitude < fractionCount then -1074 else (x.magnitude / fractionCount : Nat) - 1075

/-! ## Rounding -/

/-- the whole number nearest to `num / den`, a tie going to the even one -/
def roundDiv (num den : Nat) : Nat :=
  let q := num / den
  let r := num % den
  if 2 * r < den then q else if den < 2 * r then q + 1 else q + q % 2

/-- numerator and denominator of `num / den / 2^e` -/
def scaled (num den : Nat) (e : Int) : Nat × Nat :=
  if e < 0 then (num * Nat.pow 2 e.natAbs, den) else (num, den * Nat.pow 2 e.natAbs)

/-- the exponent whose grid a positive fraction is rounded to: 53 bits, fewer near zero -/
def gridExponent (num den : Nat) : Int :=
  let e : Int := (num.log2 : Int) - (den.log2 : Int) - 53
  let (n, d) := scaled num den e
  max (-1074) (if n < d * (2 * fractionCount) then e else e + 1)

/-- the magnitude bits nearest to `num / den`; infinity when that is past the largest float -/
def roundedMagnitude (num den : Nat) : Nat :=
  if num = 0 then 0
  else
    let e := gridExponent num den
    let (n, d) := scaled num den e
    min infiniteMagnitude ((e + 1074).toNat * fractionCount + roundDiv n d)

/-- the float nearest to `num / den` -/
def ofRatio (negative : Bool) (num den : Nat) : Binary64 :=
  ofMagnitude negative (roundedMagnitude num den)

/-- the float nearest to an integer -/
def ofInt (i : Int) : Binary64 :=
  ofRatio (i < 0) i.natAbs 1

/-- the float nearest to `coefficient · 10^exponent`; powers of ten that can only give zero or infinity are not formed -/
def ofDecimal (negative : Bool) (coefficient : Nat) (exponent : Int) : Binary64 :=
  let digits : Int := (Nat.toDigits 10 coefficient).length
  if coefficient = 0 then ofMagnitude negative 0
  else if 310 < exponent + digits then infinity negative
  else if exponent + digits < -330 then ofMagnitude negative 0
  else if exponent < 0 then ofRatio negative coefficient (Nat.pow 10 exponent.natAbs)
  else ofRatio negative (coefficient * Nat.pow 10 exponent.natAbs) 1

/-! ## Exact values -/

/-- numerator and denominator of the magnitude of a finite pattern -/
def ratio (x : Binary64) : Nat × Nat :=
  if x.exponent < 0 then (x.significand, Nat.pow 2 x.exponent.natAbs) else (x.significand * Nat.pow 2 x.exponent.natAbs, 1)

/-- sum of two finite patterns without a sign -/
def add (x y : Binary64) : Binary64 :=
  let (a, b) := x.ratio
  let (c, d) := y.ratio
  ofRatio false (a * d + c * b) (b * d)

/-- quotient of two finite patterns without a sign, the second not zero -/
def div (x y : Binary64) : Binary64 :=
  let (a, b) := x.ratio
  let (c, d) := y.ratio
  ofRatio false (a * d) (b * c)

/-- the place of a pattern that is not NaN in the order of the numbers; both zeros have the same -/
def rank (x : Binary64) : Int :=
  if x.isNegative then -(x.magnitude : Int) else x.magnitude

/-- how two patterns compare as numbers, unless one is NaN -/
def order? (x y : Binary64) : Option Ordering :=
  if x.isNaN || y.isNaN then none else some (compare x.rank y.rank)

end Binary64

end PartitionedScan
