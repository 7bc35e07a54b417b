/-
The shortest decimal that reads back as a given float.

For one, two, … seventeen significant digits `nearest?` looks at the two neighbours of the value on that decimal grid
and keeps those that `Binary64.ofDecimal` reads back as the value, the nearer one first. `decimal` is the first hit with
its trailing zeros cut; the exact binary expansion stands behind it, so that what is written always reads back.
-/
import PartitionedScan.Decimal.Binary64

namespace PartitionedScan

/-- `coefficient · 10^exponent` -/
structure Decimal where
  coefficient : Nat
  exponent : Int
  deriving DecidableEq, Repr

namespace Decimal

/-- the same number without trailing zeros in the coefficient -/
def stripZeros (fuel : Nat) (d : Decimal) : Decimal :=
  match fuel with
  | 0 => d
  | fuel + 1 =>
    if d.coefficient ≠ 0 ∧ d.coefficient % 10 = 0 then stripZeros fuel ⟨d.coefficient / 10, d.exponent + 1⟩ else d

/-- whether the decimal, rounded to the nearest float, is the magnitude of `x` -/
def readsBack (x : Binary64) (d : Decimal) : Bool :=
  (Binary64.ofDecimal false d.coefficient d.exponent).magnitude == x.magnitude

/-- numerator and denominator of `num / den / 10^e` -/
def scaled (num den : Nat) (e : Int) : Nat × Nat :=
  if e < 0 then (num * Nat.pow 10 e.natAbs, den) else (num, den * Nat.pow 10 e.natAbs)

/-- the power of ten of the leading digit of a positive fraction -/
def leadingExponent (num den : Nat) : Int :=
  let e : Int := ((Nat.toDigits 10 num).length : Int) - ((Nat.toDigits 10 den).length : Int)
  let (n, d) := scaled num den e
  if n < d then e - 1 else e

/-- of the two neighbours of the value with this many digits, the nearest that reads back -/
def nearest? (x : Binary64) (digits : Nat) : Option Decimal :=
  let (num, den) := x.ratio
  let e := leadingExponent num den - digits + 1
  let (n, d) := scaled num den e
  let below : Decimal := ⟨n / d, e⟩
  let above : Decimal := ⟨n / d + 1, e⟩
  let order := if 2 * (n % d) ≤ d then [below, above] else [above, below]
  order.find? (readsBack x)

/-- all the digits of the value; every finite float has such a decimal -/
def exact (x : Binary64) : Decimal :=
  if x.exponent < 0 then ⟨x.significand * Nat.pow 5 x.exponent.natAbs, x.exponent⟩
  else ⟨x.significand * Nat.pow 2 x.exponent.natAbs, 0⟩

/-- the shortest decimal that reads back as the magnitude of a finite float, the nearest of those -/
def shortest (x : Binary64) : Decimal :=
  if x.isZero then ⟨0, 0⟩
  else
    let found := (List.range 17).findSome? fun i => nearest? x (i + 1)
    let d := found.getD (exact x)
    stripZeros (Nat.toDigits 10 d.coefficient).length d

end Decimal

end PartitionedScan
