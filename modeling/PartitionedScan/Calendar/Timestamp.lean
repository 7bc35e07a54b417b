/-
Points in time, in microseconds since 1970-01-01 UTC.

The text is RFC 3339: `2024-01-31T23:59:59.5Z`. Writing uses UTC, drops the zeros at the end of the fraction, and is
defined for the years 0 to 9999. Reading takes any ASCII character between date and time, an offset of up to 23:59, and
a fraction of which nine digits count; microseconds are cut toward zero. A second 60 stands for the last nanosecond
before midnight UTC at the end of a month and is refused anywhere else.
-/
import PartitionedScan.Calendar.Date

namespace PartitionedScan.Calendar

/-- microseconds in a day -/
def dayLength : Int := 86400 * 1000000

/-- a time of day to the microsecond -/
structure TimeOfDay where
  hour : Nat
  minute : Nat
  second : Nat
  micros : Nat
  deriving DecidableEq, Repr

namespace TimeOfDay

/-- the time that many microseconds after midnight -/
def ofMicros (n : Nat) : TimeOfDay :=
  let seconds := n / 1000000
  ⟨seconds / 3600, seconds / 60 % 60, seconds % 60, n % 1000000⟩

/-- six digits without the zeros at the end -/
def fractionDigits (micros : Nat) : List Char :=
  let digits := Date.twoDigits (micros / 10000) ++ Date.twoDigits (micros / 100 % 100) ++ Date.twoDigits (micros % 100)
  (digits.reverse.dropWhile (· == '0')).reverse

def chars (t : TimeOfDay) : List Char :=
  Date.twoDigits t.hour ++ ':' :: Date.twoDigits t.minute ++ ':' :: Date.twoDigits t.second ++
    (if t.micros = 0 then [] else '.' :: fractionDigits t.micros)

end TimeOfDay

/-- the text of a point in time, for the years 0 to 9999 -/
def formatTimestamp (micros : Int64) : Option String :=
  let d := Date.ofDays (micros.toInt / dayLength)
  let t := TimeOfDay.ofMicros (micros.toInt % dayLength).toNat
  if 0 ≤ d.year ∧ d.year ≤ 9999 then some (String.ofList (d.chars ++ 'T' :: t.chars ++ ['Z'])) else none

/-! ## Reading -/

/-- a fraction after its point in nanoseconds: the first digit counts `unit`, each later one a tenth of that -/
def nanosOf (unit : Nat) : List Char → Nat
  | [] => 0
  | c :: r => (c.toNat - 48) * unit + nanosOf (unit / 10) r

/-- the nanoseconds of an optional fraction, and what follows it -/
def readFraction? : List Char → Option (Nat × List Char)
  | '.' :: r =>
    let (digits, r) := r.span Char.isDigit
    if digits.isEmpty then none else some (nanosOf 100000000 digits, r)
  | r => some (0, r)

/-- the seconds by which local time is ahead of UTC; nothing may follow -/
def readOffset? : List Char → Option Int
  | ['Z'] => some 0
  | ['z'] => some 0
  | [sign, h1, h2, ':', m1, m2] => do
    let hour ← Date.number? [h1, h2]
    let minute ← Date.number? [m1, m2]
    let seconds : Int := hour * 3600 + minute * 60
    if hour ≤ 23 ∧ minute ≤ 59 then
      if sign = '+' then some seconds else if sign = '-' then some (-seconds) else none
    else none
  | _ => none

/-- nanoseconds since 1970-01-01 UTC; second 60 only at the end of a month in UTC -/
def nanosSinceEpoch? (date : Date) (hour minute second nanos : Nat) (offset : Int) : Option Int :=
  let leap := second == 60
  let second := if leap then 59 else second
  let nanos := if leap then 999999999 else nanos
  let seconds := date.toDays * 86400 + (hour * 3600 + minute * 60 + second : Nat) - offset
  if date.isValid ∧ hour ≤ 23 ∧ minute ≤ 59 ∧ second ≤ 59 ∧
      (leap = true → seconds % 86400 = 86399 ∧ (Date.ofDays (seconds / 86400)).isMonthEnd = true) then
    some (seconds * 1000000000 + nanos)
  else none

def readTimestamp? : List Char → Option Int
  | y1 :: y2 :: y3 :: y4 :: '-' :: m1 :: m2 :: '-' :: d1 :: d2 :: separator ::
      h1 :: h2 :: ':' :: n1 :: n2 :: ':' :: s1 :: s2 :: r => do
    let year ← Date.number? [y1, y2, y3, y4]
    let month ← Date.number? [m1, m2]
    let day ← Date.number? [d1, d2]
    let hour ← Date.number? [h1, h2]
    let minute ← Date.number? [n1, n2]
    let second ← Date.number? [s1, s2]
    let (nanos, r) ← readFraction? r
    let offset ← readOffset? r
    if separator.toNat < 128 then
      nanosSinceEpoch? ⟨year, month, day⟩ hour minute second nanos offset
    else none
  | _ => none

/-- the point in time that a text names -/
def parseTimestamp (text : String) : Option Int64 :=
  (readTimestamp? text.toList).map fun nanos => Int64.ofInt (nanos.tdiv 1000)

end PartitionedScan.Calendar
