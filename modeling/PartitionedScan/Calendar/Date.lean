/-
Days of the proleptic Gregorian calendar.

A day is counted from 1970-01-01. `ofDays` finds the year by an estimate that is off by at most one, then walks the
months; `toDays` goes back. The text of a day is `YYYY-MM-DD` with a minus sign before years below zero, and exists for
the years -9999 to 9999; reading also takes a plus sign.
-/
import PartitionedScan.Text.Integer

namespace PartitionedScan.Calendar

/-- whether February has 29 days -/
def isLeap (year : Int) : Bool :=
  year % 4 == 0 && (year % 100 != 0 || year % 400 == 0)

def monthLengths (year : Int) : List Nat :=
  [31, if isLeap year then 29 else 28, 31, 30, 31, 30, 31, 31, 30, 31, 30, 31]

/-- days from the start of year 0 to the start of a year -/
def daysBeforeYear (year : Int) : Int :=
  365 * year + (year + 3) / 4 - (year + 99) / 100 + (year + 399) / 400

/-- days from the start of year 0 to 1970-01-01 -/
def epoch : Int := 719528

/-- a day of the calendar; months and days count from one -/
structure Date where
  year : Int
  month : Nat
  day : Nat
  deriving DecidableEq, Repr

namespace Date

/-- whether the month exists and has such a day -/
def isValid (d : Date) : Bool :=
  1 ≤ d.month && d.month ≤ 12 && 1 ≤ d.day && d.day ≤ (monthLengths d.year).getD (d.month - 1) 0

/-- days from the start of a year to the start of a month -/
def daysBeforeMonth (year : Int) (month : Nat) : Nat :=
  ((monthLengths year).take (month - 1)).foldl (fun n length => n + length) 0

/-- days since 1970-01-01 -/
def toDays (d : Date) : Int :=
  daysBeforeYear d.year + daysBeforeMonth d.year d.month + d.day - 1 - epoch

/-- the year that holds the day with this number, counted from the start of year 0 -/
def yearOf (n : Int) : Int :=
  let guess := 400 * n / 146097
  if daysBeforeYear (guess + 1) ≤ n then guess + 1
  else if daysBeforeYear guess ≤ n then guess
  else guess - 1

/-- the month, counted on from `month`, and the day of it for a day of the year counted from zero -/
def splitMonth : List Nat → Nat → Nat → Nat × Nat
  | [], month, index => (month, index + 1)
  | length :: rest, month, index =>
    if index < length then (month, index + 1) else splitMonth rest (month + 1) (index - length)

/-- the day with this number since 1970-01-01 -/
def ofDays (days : Int) : Date :=
  let n := days + epoch
  let year := yearOf n
  let (month, day) := splitMonth (monthLengths year) 1 (n - daysBeforeYear year).toNat
  ⟨year, month, day⟩

/-- whether it is the last day of its month -/
def isMonthEnd (d : Date) : Bool :=
  d.day == (monthLengths d.year).getD (d.month - 1) 0

/-! ## Text -/

/-- two decimal digits -/
def twoDigits (n : Nat) : List Char :=
  [Nat.digitChar (n / 10 % 10), Nat.digitChar (n % 10)]

/-- four decimal digits -/
def fourDigits (n : Nat) : List Char :=
  twoDigits (n / 100) ++ twoDigits (n % 100)

def chars (d : Date) : List Char :=
  (if d.year < 0 then ['-'] else []) ++ fourDigits d.year.natAbs ++ '-' :: twoDigits d.month ++ '-' :: twoDigits d.day

/-- the number that digits stand for, unless one is no digit -/
def number? (cs : List Char) : Option Nat :=
  if cs.all Char.isDigit then some (Text.Integer.value cs) else none

/-- a day after its sign -/
def readUnsigned? (negative : Bool) : List Char → Option Date
  | [y1, y2, y3, y4, '-', m1, m2, '-', d1, d2] => do
    let year ← number? [y1, y2, y3, y4]
    let month ← number? [m1, m2]
    let day ← number? [d1, d2]
    let d : Date := ⟨if negative then -(year : Int) else year, month, day⟩
    if d.isValid then some d else none
  | _ => none

def read? : List Char → Option Date
  | '-' :: r => readUnsigned? true r
  | '+' :: r => readUnsigned? false r
  | cs => readUnsigned? false cs

end Date

/-- the text of a day, for the years -9999 to 9999 -/
def formatDate (days : Int32) : Option String :=
  let d := Date.ofDays days.toInt
  if -9999 ≤ d.year ∧ d.year ≤ 9999 then some (String.ofList d.chars) else none

/-- the day that a text names -/
def parseDate (text : String) : Option Int32 :=
  (Date.read? text.toList).map fun d => Int32.ofInt d.toDays

end PartitionedScan.Calendar
